import QuidProtocol.Lib.Ledger
import QuidProtocol.Stay.Premiums

/-!
The deposits of the bank against the balances of its depositors.
What the owner of a position has after a crank has posted margin for it.
-/

namespace QuidProtocol.Stay

open Lib Function

noncomputable def quidOf (depositors : Pubkey → Depositor) : ℕ := ∑ key, (depositors key).depositedQuid

def Principal (s : State) : Prop := s.bank.totalDeposits = quidOf s.depositors

def salvage (d : Depositor) (delta : ℤ) (prices : List ℕ) (now : ℕ) : ℕ × ℕ :=
  if delta < 0 then (0, 0)
  else
    match renegeAll d.balances delta.natAbs prices now with
    | .ok (_, remainder) => (asU64 (delta - remainder), asU64 remainder)
    | .error _ => (0, 0)

def crankOf (e : Env) (s : State) (borrower : Pubkey) (ticker : Ticker) : Res (Depositor × Outcome) := do
  let customer ← (s.depositors borrower).age e.now
  let bank ← s.bank.age e.now
  repo e customer bank ticker 0

def WithinYield (s : State) : Instruction → Prop
  | .handleIn _ amount decimals _ _ =>
    ∀ credited, toAccounting amount decimals = .ok credited → s.bank.totalDeposits + credited < 2 ^ 64
  | .outTrade e _ _ signer ticker amount =>
    ∀ t, tradeOf e s signer ticker amount = .ok t → -t.settled.gain ≤ s.bank.yieldPool
  | .amortise e _ borrower _ ticker prices =>
    ∀ r, crankOf e s borrower ticker = .ok r →
      (salvage r.1 r.2.delta prices e.now).2 ≤ s.bank.yieldPool + r.2.interest ∧
      s.bank.totalDeposits + (salvage r.1 r.2.delta prices e.now).1 + commissionOf r.2.delta < 2 ^ 64
  | .handleSweep e _ ticker visits =>
    s.bank.totalDeposits + (visits.foldl (sweepOne e ticker) (Sweep.start e s ticker)).commission < 2 ^ 64
  | _ => True

def VisitKeepsBalance (e : Env) (cranker : Pubkey) (ticker : Ticker) (x : Sweep) (v : Visit) : Prop :=
  v.key = cranker ∨ ((sweepOne e ticker x v).depositors v.key).depositedQuid = (x.depositors v.key).depositedQuid

def KeepsBalances (s : State) : Instruction → Prop
  | .outTrade e _ _ signer ticker amount =>
    ∀ t, tradeOf e s signer ticker amount = .ok t →
      t.settled.customer.depositedQuid = (s.depositors signer).depositedQuid
  | .amortise e _ borrower liquidator ticker prices =>
    ∀ r, crankOf e s borrower ticker = .ok r → if borrower = liquidator then (salvage r.1 r.2.delta prices e.now).1 = 0
      else r.2.desk.depositedQuid = (s.depositors borrower).depositedQuid
  | .handleSweep e cranker ticker visits =>
    EveryStep (visit e ticker) (VisitKeepsBalance e cranker ticker) (Sweep.start e s ticker) visits
  | _ => True

instance decidableWithinYield (s : State) (i : Instruction) : Decidable (WithinYield s i) := by
  unfold WithinYield
  split <;> infer_instance

instance decidableKeepsBalances (s : State) : (i : Instruction) → Decidable (KeepsBalances s i)
  | .outTrade e _ _ signer ticker amount => decidableForallOk (tradeOf e s signer ticker amount)
  | .amortise e _ borrower _ ticker _ => decidableForallOk (crankOf e s borrower ticker)
  | .handleSweep e _ ticker visits =>
    @decidableEveryStep _ _ _ (visit e ticker) _ (fun _ _ => instDecidableOr) (Sweep.start e s ticker) visits
  | .handleIn _ _ _ _ _ => .isTrue trivial
  | .outDollars _ _ _ _ _ => .isTrue trivial
  | .outPledge _ _ _ _ _ _ => .isTrue trivial

section

variable {e : Env} {after : Actuary} {s s' : State} {d d' : Depositor} {bank bank' : Depository} {o : Outcome}
  {ticker : Ticker} {prices : List ℕ} {now : ℕ}

theorem quidOf_update (depositors : Pubkey → Depositor) (key d) :
    quidOf (update depositors key d) + (depositors key).depositedQuid = quidOf depositors + d.depositedQuid :=
  sum_comp_update Depositor.depositedQuid (Nat.add_comm _ _)

theorem le_quidOf (depositors : Pubkey → Depositor) (key : Pubkey) :
    (depositors key).depositedQuid ≤ quidOf depositors := by
  unfold quidOf
  exact Finset.single_le_sum (f := fun key => (depositors key).depositedQuid) (fun _ _ => Nat.zero_le _)
    (Finset.mem_univ key)

theorem principal_update_iff (hs : Principal s) (key : Pubkey) (d : Depositor) (bank : Depository) :
    bank.totalDeposits = quidOf (update s.depositors key d) ↔
      bank.totalDeposits + (s.depositors key).depositedQuid = s.bank.totalDeposits + d.depositedQuid := by
  have hsum := quidOf_update s.depositors key d
  unfold Principal at hs
  omega

theorem bookPool_totalDeposits (bank gain) (h : -gain ≤ bank.yieldPool) :
    (bookPool bank gain).totalDeposits = bank.totalDeposits := by
  unfold bookPool
  dsimp only
  split_ifs with hpos
  · rfl
  · have hloss : asU64 (-gain) ≤ bank.yieldPool := by
      unfold asU64
      omega
    dsimp only
    omega

theorem bookLiquidation_eq (h : bookLiquidation o d bank prices now = .ok (d', bank')) :
    (∃ balances, d' = { d with balances, depositedQuid := d.depositedQuid + (salvage d o.delta prices now).1 }) ∧
      ∃ yieldPool totalDeposits, bank' = { bank with yieldPool, totalDeposits } ∧
        totalDeposits = bank.totalDeposits + (salvage d o.delta prices now).1 -
          ((salvage d o.delta prices now).2 - min (salvage d o.delta prices now).2 bank.yieldPool) := by
  by_cases hneg : o.delta < 0
  · obtain ⟨rfl, rfl⟩ := bookLiquidation_neg hneg h
    have hnone : salvage d' o.delta prices now = (0, 0) := if_pos hneg
    rw [hnone]
    exact ⟨⟨d'.balances, rfl⟩, _, _, rfl, by simp⟩
  · unfold bookLiquidation at h
    rw [if_neg hneg] at h
    obtain ⟨⟨balances, remainder⟩, hrenege, quid, hquid, total, htotal, h⟩ := of_bind₃ h
    have hsalvage : salvage d o.delta prices now = (asU64 (o.delta - remainder), asU64 remainder) := by
      unfold salvage
      rw [if_neg hneg, hrenege]
    obtain ⟨hd', hbank'⟩ := ok_pair_inj h
    rw [hsalvage, ← hd', ← hbank', ← (checkedAdd_eq_ok.mp hquid).2, ← (checkedAdd_eq_ok.mp htotal).2]
    exact ⟨⟨balances, rfl⟩, _, _, rfl, rfl⟩

variable {signer borrower liquidator : Pubkey} {v : Vaults} {paid : ℕ} {amount : ℤ}

theorem handleIn_principal {amount decimals ticker} (hs : Principal s)
    (hfits : WithinYield s (.handleIn signer amount decimals ticker now))
    (h : handleIn s signer amount decimals ticker now = .ok s') : Principal s' := by
  obtain ⟨customer, credited, rfl, hcredited, ⟨-, rfl⟩ | ⟨t, pledged, -, hpledged, rfl⟩⟩ := handleIn_eq h
  · have htotal := hfits credited hcredited
    have hquid := le_quidOf s.depositors signer
    apply (principal_update_iff hs signer _ _).mpr
    have hdeposit : sat ((s.depositors signer).depositedQuid + credited) =
        (s.depositors signer).depositedQuid + credited := by
      unfold Principal at hs
      exact sat_of_lt (by omega)
    change sat (s.bank.totalDeposits + credited) + _ =
      s.bank.totalDeposits + sat ((s.depositors signer).depositedQuid + credited)
    rw [sat_of_lt htotal, hdeposit]
    omega
  · obtain ⟨balances, lastUpdated, rfl, -⟩ := renegeOne_eq hpledged
    exact (principal_update_iff hs signer _ _).mpr rfl

theorem outDollars_principal {fromPledges}
    (hs : Principal s) (h : handleOutDollars s v signer amount fromPledges now = .ok (s', paid)) : Principal s' := by
  obtain ⟨bank, customer, bank', value, hbank, hout, rfl⟩ := handleOutDollars_eq h
  have haged : bank.totalDeposits = s.bank.totalDeposits := by rw [bankAge_eq hbank]
  apply (principal_update_iff hs signer _ _).mpr
  obtain ⟨balances, ⟨rfl, rfl⟩ | ⟨asked, withdrawn, hdraw⟩⟩ := outDollars_eq hout
  · rw [haged]
  · obtain ⟨aged, unmet, hcustomer, hpay⟩ := withdrawDollars_eq hdraw
    obtain ⟨bank₁, hle, htotal, -, -, rfl, rfl⟩ := payFromBalance_eq hpay
    obtain ⟨seconds, since, total, hkept⟩ := adjustDepositSeconds_keeps aged bank₁ aged.depositedQuid withdrawn now
    rw [hkept, htotal]
    rw [depositorAge_eq hcustomer] at hle ⊢
    have hdefer : (bank.deferRedemption unmet).totalDeposits = bank.totalDeposits := rfl
    dsimp only at hle ⊢
    omega

theorem outPledge_principal {price} (hs : Principal s)
    (h : handleOutPledge s v signer ticker amount price now = .ok (s', paid)) : Principal s' := by
  obtain ⟨bank, customer, hbank, hrenege, rfl⟩ := handleOutPledge_eq h
  obtain ⟨balances, lastUpdated, rfl, -⟩ := renegeOne_eq hrenege
  apply (principal_update_iff hs signer _ _).mpr
  rw [bankAge_eq hbank]

theorem outTrade_principal_iff {t} (hs : Principal s)
    (ht : tradeOf e s signer ticker amount = .ok t) (hloss : -t.settled.gain ≤ s.bank.yieldPool)
    (h : handleOutTrade e after s v signer ticker amount = .ok (s', paid)) :
    Principal s' ↔ t.settled.customer.depositedQuid = (s.depositors signer).depositedQuid := by
  obtain ⟨t', ht', -, rfl⟩ := handleOutTrade_eq h
  obtain rfl := ok_unique ht' ht
  have htrade := tradeOf_eq ht
  obtain ⟨totalDrawn, hdesk⟩ := repo_bank htrade.traded
  rw [bankAge_eq htrade.bank] at hdesk
  have hpool := bookPool_totalDeposits t'.outcome.desk.bank t'.settled.gain (by rw [hdesk]; exact hloss)
  have htotal : (reconcileTickerReserve after t'.risk
      (bookPool t'.outcome.desk.bank t'.settled.gain)).2.totalDeposits = s.bank.totalDeposits := by
    rw [hdesk] at hpool ⊢
    exact hpool
  apply (principal_update_iff hs signer _ _).trans
  rw [htotal]
  omega

theorem crankOf_ok {customer traded}
    (hcustomer : (s.depositors borrower).age e.now = .ok customer) (hbank : s.bank.age e.now = .ok bank)
    (hrepo : repo e customer bank ticker 0 = .ok (traded, o)) : crankOf e s borrower ticker = .ok (traded, o) := by
  unfold crankOf
  rw [hcustomer, ok_bind, hbank, ok_bind, hrepo]

structure Amortised (e : Env) (s : State) (borrower liquidator : Pubkey) (s' : State) (o : Outcome) (recovered : ℕ)
    (customer liq : Depositor) : Prop where
  moved : o.delta ≠ 0
  posted : o.delta ≤ (s.depositors borrower).depositedQuid
  quid_le : o.desk.depositedQuid ≤ (s.depositors borrower).depositedQuid
  recovered_neg : o.delta < 0 → recovered = 0
  depositors : s'.depositors = update (update s.depositors borrower customer) liquidator liq
  quid : customer.depositedQuid = o.desk.depositedQuid + recovered
  aged : ∃ aged, (s.depositors borrower).age e.now = .ok aged ∧ customer.depositSeconds = aged.depositSeconds ∧
    customer.lastUpdated = aged.lastUpdated
  credit : creditLiquidator (s.depositors liquidator) (commissionOf o.delta) e.now = .ok liq
  bank : ∃ bank, s.bank.age e.now = .ok bank ∧ s'.bank.totalDepositSeconds = bank.totalDepositSeconds ∧
    s'.bank.lastUpdated = bank.lastUpdated
  deposits : s'.bank.totalDeposits = s.bank.totalDeposits + recovered + commissionOf o.delta

theorem amortise_within (hwithin : WithinYield s (.amortise e after borrower liquidator ticker prices))
    (h : amortise e after s borrower liquidator ticker prices = .ok s') :
    ∃ traded o customer liq, crankOf e s borrower ticker = .ok (traded, o) ∧
      Amortised e s borrower liquidator s' o (salvage traded o.delta prices e.now).1 customer liq := by
  obtain ⟨customer, bank, traded, o, customer', bank', liq, hcustomer, hbank, hrepo, hdelta, hbook, hliq, rfl⟩ :=
    amortise_eq h
  have hcrank := crankOf_ok hcustomer hbank hrepo
  obtain ⟨hshort, hfits⟩ := hwithin _ hcrank
  have hage := depositorAge_eq hcustomer
  obtain ⟨totalDrawn, hdesk⟩ := repo_bank hrepo
  obtain ⟨pod, hpod, hexit, -⟩ := repo_eq_ok hrepo
  obtain ⟨hquid, drawn, positions, htraded⟩ := repo_account hrepo
  obtain ⟨⟨balances, rfl⟩, yieldPool, totalDeposits, rfl, htotal⟩ := bookLiquidation_eq hbook
  refine ⟨traded, o, _, liq, hcrank, hdelta, ?_, ?_, ?_, rfl, ?_, ⟨customer, hcustomer, ?_, ?_⟩, hliq,
    ⟨bank, hbank, ?_, ?_⟩, ?_⟩
  · have hposted := (crank_cases hexit).delta_le
    rwa [hage] at hposted
  · rwa [hage] at hquid
  · intro hneg
    unfold salvage
    rw [if_pos hneg]
  · rw [htraded]
  · rw [htraded]
  · rw [htraded]
  · rw [hdesk]
    rfl
  · rw [hdesk]
    rfl
  · rw [hdesk, bankAge_eq hbank] at htotal
    dsimp only at htotal hshort hfits ⊢
    rw [htotal, sat_of_lt (by omega)]
    omega

theorem amortise_principal_iff (hs : Principal s)
    (hwithin : WithinYield s (.amortise e after borrower liquidator ticker prices))
    (h : amortise e after s borrower liquidator ticker prices = .ok s') :
    Principal s' ↔ KeepsBalances s (.amortise e after borrower liquidator ticker prices) := by
  obtain ⟨traded, o, customer, liq, hcrank, hamortised⟩ := amortise_within hwithin h
  have hiff : KeepsBalances s (.amortise e after borrower liquidator ticker prices) ↔
      if borrower = liquidator then (salvage traded o.delta prices e.now).1 = 0
      else o.desk.depositedQuid = (s.depositors borrower).depositedQuid := by
    constructor
    · intro hkeeps
      exact hkeeps _ hcrank
    · intro hkeeps r hr
      obtain rfl := ok_unique hr hcrank
      exact hkeeps
  have hquid := hamortised.quid
  have hcredit := (creditLiquidator_eq hamortised.credit).1
  have hone := quidOf_update s.depositors borrower customer
  have htwo := quidOf_update (update s.depositors borrower customer) liquidator liq
  rw [hiff]
  unfold Principal at hs ⊢
  rw [hamortised.deposits, hamortised.depositors]
  by_cases hself : borrower = liquidator
  · obtain rfl := hself
    rw [update_self] at htwo
    rw [if_pos rfl]
    omega
  · rw [update_of_ne (Ne.symm hself)] at htwo
    rw [if_neg hself]
    omega

noncomputable def keptBy (cranker : Pubkey) (own : Depositor) (x : Sweep) : ℕ :=
  quidOf (update x.depositors cranker own)

theorem keptBy_sweepOne (cranker own e ticker x v) : keptBy cranker own (sweepOne e ticker x v) ≤ keptBy cranker own x ∧
      (keptBy cranker own (sweepOne e ticker x v) = keptBy cranker own x ↔ VisitKeepsBalance e cranker ticker x v) := by
  obtain ⟨d, hdepositors, hquid, -, -⟩ := (sweepOne_leaves e ticker x v).account
  unfold keptBy VisitKeepsBalance
  rw [hdepositors]
  by_cases hkey : v.key = cranker
  · rw [hkey, update_idem]
    exact ⟨le_rfl, iff_of_true rfl (.inl rfl)⟩
  · have hsum := quidOf_update (update x.depositors cranker own) v.key d
    rw [update_comm (Ne.symm hkey), update_of_ne hkey] at hsum
    rw [update_self, or_iff_right hkey]
    constructor
    · omega
    · omega

theorem keptBy_foldl (cranker own e ticker x)
    (visits : List Visit) : keptBy cranker own (visits.foldl (sweepOne e ticker) x) ≤ keptBy cranker own x ∧
      (keptBy cranker own (visits.foldl (sweepOne e ticker) x) = keptBy cranker own x ↔
        EveryStep (visit e ticker) (VisitKeepsBalance e cranker ticker) x visits) := by
  induction visits generalizing x with
  | nil => exact ⟨le_rfl, iff_of_true rfl trivial⟩
  | cons v visits ih =>
    obtain ⟨hfirst, hfirstIff⟩ := keptBy_sweepOne cranker own e ticker x v
    obtain ⟨hrest, hrestIff⟩ := ih (sweepOne e ticker x v)
    rw [List.foldl_cons]
    refine ⟨hrest.trans hfirst, fun hall => ?_, ?_⟩
    · refine ⟨hfirstIff.mp (by omega), fun x' hx' => ?_⟩
      cases hx'
      exact hrestIff.mp (by omega)
    · rintro ⟨hvisit, hlater⟩
      exact (hrestIff.mpr (hlater _ rfl)).trans (hfirstIff.mpr hvisit)

theorem sweep_totalDeposits (e ticker x) (visits : List Visit) :
    (visits.foldl (sweepOne e ticker) x).bank.totalDeposits = x.bank.totalDeposits := by
  induction visits generalizing x with
  | nil => rfl
  | cons v visits ih => exact (ih _).trans (sweepOne_leaves e ticker x v).totalDeposits

theorem handleSweep_principal_iff {cranker visits} (hs : Principal s)
    (hwithin : WithinYield s (.handleSweep e cranker ticker visits)) :
    Principal (handleSweep e s cranker ticker visits) ↔
      EveryStep (visit e ticker) (VisitKeepsBalance e cranker ticker) (Sweep.start e s ticker) visits := by
  obtain ⟨-, hiff⟩ := keptBy_foldl cranker (s.depositors cranker) e ticker (Sweep.start e s ticker) visits
  have htotal : (visits.foldl (sweepOne e ticker) (Sweep.start e s ticker)).bank.totalDeposits = s.bank.totalDeposits :=
    sweep_totalDeposits e ticker (Sweep.start e s ticker) visits
  have hbefore : keptBy cranker (s.depositors cranker) (Sweep.start e s ticker) = quidOf s.depositors :=
    congrArg quidOf (update_eq_self _ _)
  have hfits : s.bank.totalDeposits +
    (visits.foldl (sweepOne e ticker) (Sweep.start e s ticker)).commission < 2 ^ 64 := hwithin
  rw [← hiff, hbefore]
  generalize hx : visits.foldl (sweepOne e ticker) (Sweep.start e s ticker) = x at htotal hfits ⊢
  obtain ⟨hbank, own, hdepositors, hquid, -, -⟩ := handleSweep_eq cranker hx
  have hown := le_quidOf s.depositors cranker
  have hkept := quidOf_update x.depositors cranker (s.depositors cranker)
  have hpaid := quidOf_update x.depositors cranker own
  unfold Principal at hs ⊢
  unfold keptBy
  rw [hbank, hdepositors]
  dsimp only
  rw [sat_of_lt (by omega)] at hquid
  rw [sat_of_lt (by omega)]
  omega

theorem exec_principal_iff {i} (hwithin : WithinYield s i) (hs : Principal s) (h : exec s i = .ok s') :
    Principal s' ↔ KeepsBalances s i := by
  cases i with
  | handleIn => exact iff_of_true (handleIn_principal hs hwithin h) trivial
  | outDollars =>
    obtain ⟨paid, h⟩ := bind_fst_eq_ok.mp h
    exact iff_of_true (outDollars_principal hs h) trivial
  | outPledge =>
    obtain ⟨paid, h⟩ := bind_fst_eq_ok.mp h
    exact iff_of_true (outPledge_principal hs h) trivial
  | outTrade =>
    obtain ⟨paid, h⟩ := bind_fst_eq_ok.mp h
    obtain ⟨trade, htrade, -, -⟩ := handleOutTrade_eq h
    rw [outTrade_principal_iff hs htrade (hwithin trade htrade) h]
    constructor
    · intro hkeeps trade' htrade'
      obtain rfl := ok_unique htrade' htrade
      exact hkeeps
    · intro hkeeps
      exact hkeeps trade htrade
  | amortise => exact amortise_principal_iff hs hwithin h
  | handleSweep =>
    cases h
    exact handleSweep_principal_iff hs hwithin

/-- The deposits are the sum of the balances just when no call moves dollars between a balance and a position. -/
theorem principal_kept_iff (s s' : State) (run : List Instruction) (hs : Principal s)
    (hwithin : EveryStep exec WithinYield s run) (hrun : runAll exec s run = .ok s') :
    EveryState exec Principal s run ↔ EveryStep exec KeepsBalances s run := by
  apply everyState_iff_within Principal (fun s hs => hs) _ _ hs hwithin hrun
  · intro s i s' hwithin hs hkeeps h
    exact (exec_principal_iff hwithin hs h).mpr hkeeps
  · intro s i s' hwithin hs hkeeps h hprincipal
    exact hkeeps ((exec_principal_iff hwithin hs h).mp hprincipal)

end

theorem principal_empty : Principal State.empty := by
  unfold Principal quidOf
  exact (Finset.sum_eq_zero fun _ _ => rfl).symm

def twoDeposits : List Instruction :=
  [.handleIn 1 (1000 * 10 ^ 6) 6 none 100, .handleIn 1 (100 * 10 ^ 6) 6 (some 1) 200]

def fourShares (actuary : Actuary) : Instruction :=
  .outTrade ⟨100 * 10 ^ 6, 300, 1, actuary⟩ actuary fullVault 1 1 (4 * 10 ^ 6)

def depositAndBuy (actuary : Actuary) : List Instruction := twoDeposits ++ [fourShares actuary]

theorem principal_kept_covered : ∃ s', runAll exec State.empty (depositAndBuy steadyActuary) = .ok s' ∧
    s'.bank.totalDeposits = 1000 * 10 ^ 6 ∧ EveryState exec Principal State.empty (depositAndBuy steadyActuary) := by
  refine exists_ok (fun s' => s'.bank.totalDeposits = 1000 * 10 ^ 6) (by decide +kernel) ?_
  intro s' hrun hdeposits
  have hwithin : EveryStep exec WithinYield State.empty (depositAndBuy steadyActuary) := by decide +kernel
  have hkeeps : EveryStep exec KeepsBalances State.empty (depositAndBuy steadyActuary) := by decide +kernel
  exact ⟨hdeposits, (principal_kept_iff _ _ _ principal_empty hwithin hrun).mpr hkeeps⟩

def strictActuary : Actuary := { steadyActuary with lossProfile := fun _ _ => ⟨3000, 300, 500⟩ }

theorem margin_leaves_deposits : ∃ s', runAll exec State.empty (depositAndBuy strictActuary) = .ok s' ∧
    EveryStep exec WithinYield State.empty (depositAndBuy strictActuary) ∧
    s'.bank.totalDeposits = 1000 * 10 ^ 6 ∧ (s'.depositors 1).depositedQuid = 980 * 10 ^ 6 ∧ ¬ Principal s' := by
  obtain ⟨s, hrun, s', hbuy, hwithin', hmoves, htotal, hquid⟩ : ∃ s, runAll exec State.empty twoDeposits = .ok s ∧
      ∃ s', exec s (fourShares strictActuary) = .ok s' ∧ WithinYield s (fourShares strictActuary) ∧
        ¬ KeepsBalances s (fourShares strictActuary) ∧ s'.bank.totalDeposits = 1000 * 10 ^ 6 ∧
        (s'.depositors 1).depositedQuid = 980 * 10 ^ 6 := by
    decide +kernel
  have hdeposits : EveryStep exec (fun s i => WithinYield s i ∧ KeepsBalances s i) State.empty twoDeposits := by
    decide +kernel
  have hprincipal : Principal s := by
    apply runAll_invariant _ principal_empty hdeposits hrun
    intro s i s' hs hi h
    exact (exec_principal_iff hi.1 hs h).mpr hi.2
  exact ⟨s', runAll_concat hrun hbuy, by decide +kernel, htotal, hquid,
    fun h => hmoves ((exec_principal_iff hwithin' hprincipal hbuy).mp h)⟩

def settledMark (price : ℕ) (pod : Stock) (charged gross : ℕ) : ℤ :=
  let pod := { pod with pledged := pod.pledged - charged }
  let held := pod.pledged + (gross - gross / 250)
  sat (held + ((pod.valueAt price : ℤ) - pod.mark) * (if 0 ≤ pod.exposure then 1 else -1) : ℤ).toNat - held

def ChargedOnce (price : ℕ) (pod : Stock) (o : Outcome) (before after : Depositor) : Prop :=
  (after.wealth : ℤ) = before.wealth + settledMark price pod o.charged o.delta.natAbs - o.charged - o.delta.natAbs / 250

section

variable {e : Env} {k : Desk} {o : Outcome} {d d' : Depositor} {bank bank' : Depository} {ticker : Ticker}
  {pod : Stock} {prices : List ℕ} {now : ℕ}

theorem unwind_delta_nonpos (e k q time) : (unwindATranche e k q time).delta ≤ 0 := by
  unfold unwindATranche
  dsimp only
  split_ifs
  · exact le_rfl
  · exact neg_nonpos.mpr (Int.natCast_nonneg _)

theorem lt_of_asI64_pos {n} (hfits : n ≤ u64Max) (hpos : 0 < asI64 n) : n < 2 ^ 63 := by
  unfold asI64 at hpos
  unfold u64Max at hfits
  split_ifs at hpos with hlt
  · exact hlt
  · omega

theorem crank_posts (h : repoPod e k 0 = .ok o) (hpos : 0 < o.delta) :
    o.delta < 2 ^ 63 ∧ o.desk.depositedQuid + o.delta.natAbs = k.depositedQuid ∧
      (o.desk.pod.pledged : ℤ) = k.pod.pledged - o.charged + (o.delta.natAbs - o.delta.natAbs / 250 : ℕ) +
        settledMark e.price k.pod o.charged o.delta.natAbs := by
  have hnone : (0 : ℤ) < 0 → False := lt_irrefl 0
  obtain ⟨-, rfl⟩ | ⟨-, o', rfl, hexit⟩ := repoPod_exits h
  · exact absurd hpos (not_lt.mpr (unwind_delta_nonpos _ _ _ _))
  dsimp only at hpos ⊢
  cases hexit with
  | unwound => exact absurd hpos (not_lt.mpr (unwind_delta_nonpos _ _ _ _))
  | @posted _ _ gross _ _ _ hpost =>
    obtain ⟨hgross, hle, collarBps, rfl⟩ := postVariationMargin_eq hpost
    have hle : gross ≤ k.depositedQuid := hle
    have hfits : gross < 2 ^ 63 := by
      apply lt_of_asI64_pos _ hpos
      rw [hgross]
      exact min_le_right _ _
    have haccrued := accrued_le e k 0
    have hcharged : ((k.pod.pledged - (quote e k 0).accrued : ℕ) : ℤ) = k.pod.pledged - (quote e k 0).accrued :=
      Int.ofNat_sub haccrued
    dsimp only [Desk.draw]
    rw [asI64_of_lt hfits, Int.natAbs_natCast]
    refine ⟨by omega, Nat.sub_add_cancel hle, ?_⟩
    unfold settledMark
    dsimp only
    rw [Nat.cast_add, hcharged]
    simp only [chargedDesk]
    rw [hcharged]
    exact (add_sub_cancel _ _).symm
  | reinstated horder => exact absurd rfl horder
  | sold hneg => exact (hnone hneg).elim
  | bought hpos' | covered hpos' => exact (hnone hpos').elim
  | marked | ignored => exact (hnone hpos).elim

theorem repo_posts (h : repo e d bank ticker 0 = .ok (d', o)) (hpos : 0 < o.delta)
    (hpod : podOf d.balances ticker = some pod) :
    o.delta < 2 ^ 63 ∧ d'.depositedQuid = o.desk.depositedQuid ∧ ChargedOnce e.price pod o d d' := by
  obtain ⟨pod', hpod', hcrank, rfl⟩ := repo_eq_ok h
  obtain rfl := Option.mem_unique hpod' hpod
  obtain ⟨hfits, hquid, hpledged⟩ := crank_posts hcrank hpos
  have hput := pledges_putPod hpod o.desk.pod
  have hfee : o.delta.natAbs / 250 ≤ o.delta.natAbs := Nat.div_le_self _ _
  refine ⟨hfits, rfl, ?_⟩
  unfold ChargedOnce Depositor.wealth Depositor.settle
  dsimp only at hquid hpledged ⊢
  omega

theorem bookRestored_wealth {delta} (hpos : 0 < delta) (hfits : delta < 2 ^ 63)
    (h : bookRestored d bank delta prices now = .ok (d', bank')) :
    d'.wealth = d.wealth + overdrawn prices now (largestFirst d.balances) d.balances delta.natAbs := by
  obtain ⟨⟨balances, remainder⟩, hrenege, quid, hquid, total, -, h⟩ := of_bind₃ h
  obtain ⟨⟨released, left⟩, hloop, hpruned⟩ := of_bind hrenege
  obtain ⟨hbalances, hremainder⟩ := ok_pair_inj hpruned
  obtain ⟨hle, hsum⟩ := releaseFrom_pledges hloop
  have hleft : remainder = left := by
    rw [← hremainder]
    exact if_pos (by omega)
  have hrecovered : asU64 (delta - remainder) = delta.natAbs - left := by
    unfold asU64
    omega
  rw [← (ok_pair_inj h).1, ← (checkedAdd_eq_ok.mp hquid).2]
  unfold Depositor.wealth
  dsimp only
  rw [hrecovered, ← hbalances, pledges_prune]
  omega

theorem amortise_cure_iff {after s s' borrower liquidator} (hpos : 0 < o.delta)
    (hother : borrower ≠ liquidator) (hpod : podOf (s.depositors borrower).balances ticker = some pod)
    (hcrank : crankOf e s borrower ticker = .ok (d, o))
    (h : amortise e after s borrower liquidator ticker prices = .ok s') :
    ChargedOnce e.price pod o (s.depositors borrower) (s'.depositors borrower) ↔
      overdrawn prices e.now (largestFirst d.balances) d.balances o.delta.natAbs = 0 := by
  obtain ⟨customer, bank, traded, o', customer', bank', liq, hcustomer, hbank, hrepo, -, hbook, -, rfl⟩ := amortise_eq h
  obtain ⟨rfl, rfl⟩ := Prod.mk.inj (Except.ok.inj (hcrank.symm.trans (crankOf_ok hcustomer hbank hrepo)))
  have haged := depositorAge_eq hcustomer
  have hwealth : customer.wealth = (s.depositors borrower).wealth := by rw [haged]; rfl
  obtain ⟨hfits, -, honce⟩ := repo_posts hrepo hpos (by rw [haged]; exact hpod)
  unfold bookLiquidation at hbook
  rw [if_neg (by omega)] at hbook
  have hbooked := bookRestored_wealth hpos hfits hbook
  unfold ChargedOnce at honce ⊢
  dsimp only
  rw [update_of_ne hother, update_self]
  omega

theorem sweep_depositors {key : Pubkey} {visits : List Visit} (hothers : ∀ w ∈ visits, w.key ≠ key) (x : Sweep) :
    (visits.foldl (sweepOne e ticker) x).depositors key = x.depositors key := by
  induction visits generalizing x with
  | nil => rfl
  | cons v visits ih =>
    obtain ⟨d, hdepositors, -⟩ := (sweepOne_leaves e ticker x v).account
    rw [List.foldl_cons, ih (fun w hw => hothers w (List.mem_cons_of_mem v hw)), hdepositors,
      update_of_ne (hothers v List.mem_cons_self).symm]

theorem sweepOne_posts {x v} (hopen : (x.depositors v.key).opened) (hrepo : x.crank e ticker v = .ok (d, o))
    (hpos : 0 < o.delta) : (sweepOne e ticker x v).depositors v.key =
      { d with depositedQuid := d.depositedQuid - min o.delta.natAbs d.depositedQuid } := by
  unfold sweepOne
  dsimp only
  rw [if_neg (not_not.mpr hopen), hrepo]
  dsimp only
  rw [if_pos (.inl hpos.ne')]
  unfold bookSwept
  dsimp only
  rw [if_neg (by omega)]
  exact update_self ..

theorem sweep_cure_iff {s : State} {cranker : Pubkey} {earlier later : List Visit} {v : Visit} {x : Sweep}
    (hpos : 0 < o.delta) (hx : earlier.foldl (sweepOne e ticker) (Sweep.start e s ticker) = x)
    (hother : v.key ≠ cranker) (honce : ∀ w ∈ earlier ++ later, w.key ≠ v.key) (hopen : (s.depositors v.key).opened)
    (hfits : ∀ pod ∈ (s.depositors v.key).balances, pod.pledged + x.risk.fundingPot < 2 ^ 64)
    (hpod : podOf (fundPosition v.actuary e.price (s.depositors v.key) x.risk ticker).1.balances ticker = some pod)
    (hrepo : repo { e with actuary := v.actuary }
      (fundPosition v.actuary e.price (s.depositors v.key) x.risk ticker).1 x.bank ticker 0 = .ok (d, o)) :
    ChargedOnce e.price pod o (s.depositors v.key)
        ((handleSweep e s cranker ticker (earlier ++ v :: later)).depositors v.key) ↔
      (min o.delta.natAbs o.desk.depositedQuid : ℕ) = (x.risk.fundingPot : ℤ) - visitPot e ticker x v := by
  have hown : x.depositors v.key = s.depositors v.key := by
    rw [← hx, sweep_depositors (fun w hw => honce w (List.mem_append_left later hw))]
    rfl
  rw [← hown] at hopen hfits hpod hrepo ⊢
  have hpot : visitPot e ticker x v =
      (fundPosition v.actuary e.price (x.depositors v.key) x.risk ticker).2.fundingPot := if_pos hopen
  have hafter : (handleSweep e s cranker ticker (earlier ++ v :: later)).depositors v.key =
      { d with depositedQuid := d.depositedQuid - min o.delta.natAbs d.depositedQuid } := by
    have hfold : (earlier ++ v :: later).foldl (sweepOne e ticker) (Sweep.start e s ticker) =
        later.foldl (sweepOne e ticker) (sweepOne e ticker x v) := by
      rw [List.foldl_append, List.foldl_cons, hx]
    obtain ⟨-, own, hdepositors, -⟩ := handleSweep_eq cranker hfold
    rw [hdepositors, update_of_ne hother,
      sweep_depositors (fun w hw => honce w (List.mem_append_right earlier hw)), sweepOne_posts hopen hrepo hpos]
  have hfunded := fundPosition_wealth v.actuary e.price ticker hfits
  obtain ⟨-, hquid, hcured⟩ := repo_posts hrepo hpos hpod
  unfold ChargedOnce at hcured ⊢
  rw [hafter, hpot]
  unfold Depositor.wealth at hcured hfunded ⊢
  dsimp only at hcured ⊢
  rw [hquid] at hcured ⊢
  omega

end

/-- When margin that a liquidation or a sweep posts for a position is charged once. -/
theorem cure_charged_once_iff (e : Env) (ticker : Ticker) (pod : Stock) (d : Depositor) (o : Outcome)
    (hpos : 0 < o.delta) : (∀ (after : Actuary) (s s' : State) (borrower liquidator : Pubkey) (prices : List ℕ),
      amortise e after s borrower liquidator ticker prices = .ok s' →
      borrower ≠ liquidator → podOf (s.depositors borrower).balances ticker = some pod →
      crankOf e s borrower ticker = .ok (d, o) →
      (ChargedOnce e.price pod o (s.depositors borrower) (s'.depositors borrower) ↔
        overdrawn prices e.now (largestFirst d.balances) d.balances o.delta.natAbs = 0)) ∧
    (∀ (s : State) (cranker : Pubkey) (earlier later : List Visit) (v : Visit) (x : Sweep),
      earlier.foldl (sweepOne e ticker) (Sweep.start e s ticker) = x →
      v.key ≠ cranker → (∀ w ∈ earlier ++ later, w.key ≠ v.key) → (s.depositors v.key).opened →
      (∀ pod ∈ (s.depositors v.key).balances, pod.pledged + x.risk.fundingPot < 2 ^ 64) →
      podOf (fundPosition v.actuary e.price (s.depositors v.key) x.risk ticker).1.balances ticker = some pod →
      repo { e with actuary := v.actuary }
        (fundPosition v.actuary e.price (s.depositors v.key) x.risk ticker).1 x.bank ticker 0 = .ok (d, o) →
      (ChargedOnce e.price pod o (s.depositors v.key)
          ((handleSweep e s cranker ticker (earlier ++ v :: later)).depositors v.key) ↔
        (min o.delta.natAbs o.desk.depositedQuid : ℕ) = (x.risk.fundingPot : ℤ) - visitPot e ticker x v)) := by
  constructor
  · intro after s s' borrower liquidator prices h hother hpod hcrank
    exact amortise_cure_iff hpos hother hpod hcrank h
  · intro s cranker earlier later v x hx hother honce hopen hfits hpod hrepo
    exact sweep_cure_iff hpos hx hother honce hopen hfits hpod hrepo

def balancedState (quid : ℕ) : State :=
  { heldState leveredLong with
    depositors := update State.empty.depositors 1
      ⟨true, quid, 0, 9999, 500 * 10 ^ 6, [leveredLong]⟩ }

def risenPrice : Env := ⟨130 * 10 ^ 6, 10000, 1, steadyActuary⟩

def crankBalanced (quid : ℕ) : Res (Depositor × Outcome) :=
  repo risenPrice
    (fundPosition (fundedVisit 0).actuary risenPrice.price ((balancedState quid).depositors 1)
      (Sweep.start risenPrice (balancedState quid) 1).risk 1).1
    (Sweep.start risenPrice (balancedState quid) 1).bank 1 0

theorem cure_charged_once_spent : ∃ d o, crankBalanced 50200000 = .ok (d, o) ∧ 0 < o.delta ∧
    ChargedOnce risenPrice.price leveredLong o ((balancedState 50200000).depositors 1)
      ((handleSweep risenPrice (balancedState 50200000) 2 1 [fundedVisit 0]).depositors 1) := by
  obtain ⟨d, o, hrepo, hpos, htaken⟩ : ∃ d o, crankBalanced 50200000 = .ok (d, o) ∧ 0 < o.delta ∧
      ((min o.delta.natAbs o.desk.depositedQuid : ℕ) : ℤ) =
        ((Sweep.start risenPrice (balancedState 50200000) 1).risk.fundingPot : ℤ) -
          visitPot risenPrice 1 (Sweep.start risenPrice (balancedState 50200000) 1) (fundedVisit 0) := by
    decide +kernel
  refine ⟨d, o, hrepo, hpos, ?_⟩
  have hiff := (cure_charged_once_iff risenPrice 1 leveredLong d o hpos).2 (balancedState 50200000) 2 [] []
    (fundedVisit 0) _ rfl (by decide +kernel) (by simp) (by decide +kernel) (by decide +kernel) (by decide +kernel) hrepo
  exact hiff.mpr htaken

theorem sweep_charges_twice : ∃ d o, crankBalanced (200 * 10 ^ 6) = .ok (d, o) ∧ o.delta = 50200000 ∧
    d.wealth = 449798170 ∧ ((handleSweep risenPrice (balancedState (200 * 10 ^ 6)) 2 1 [fundedVisit 0]).depositors
      1).wealth = 399598170 ∧ ¬ ChargedOnce risenPrice.price leveredLong o ((balancedState (200 * 10 ^ 6)).depositors 1)
      ((handleSweep risenPrice (balancedState (200 * 10 ^ 6)) 2 1 [fundedVisit 0]).depositors 1) := by
  simp only [ChargedOnce]
  decide +kernel

end QuidProtocol.Stay
