import QuidProtocol.Stay.Exposure
import QuidProtocol.Stay.Capacity

/-!
The reserve of the pool against the reserves of its tickers.
What the bank has drawn against what its depositors have.
-/

namespace QuidProtocol.Stay

open Lib Function

def handleSweepBooked (e : Env) (book : Book) (s : State) (cranker : Pubkey) (ticker : Ticker)
    (visits : List Visit) : Res (State × Book) := do
  let (x, book) ← Book.swept e s book ticker visits
  .ok (x.close e s cranker ticker, book)

def execBooked (x : State × (Ticker → Book)) : Instruction × Tail → Res (State × (Ticker → Book))
  | (.outTrade e after v signer ticker amount, tail) => do
    let (s, book, _) ← handleOutTradeBooked e after tail (x.2 ticker) x.1 v signer ticker amount
    .ok (s, update x.2 ticker book)
  | (.amortise e after borrower liquidator ticker prices, _) => do
    let (s, book) ← amortiseBooked e after (x.2 ticker) x.1 borrower liquidator ticker prices
    .ok (s, update x.2 ticker book)
  | (.handleSweep e cranker ticker visits, _) => do
    let (s, book) ← handleSweepBooked e (x.2 ticker) x.1 cranker ticker visits
    .ok (s, update x.2 ticker book)
  | (.handleIn signer amount decimals ticker now, _) => do
    let s ← exec x.1 (.handleIn signer amount decimals ticker now)
    .ok (s, x.2)
  | (.outDollars v signer amount fromPledges now, _) => do
    let s ← exec x.1 (.outDollars v signer amount fromPledges now)
    .ok (s, x.2)
  | (.outPledge v signer ticker amount price now, _) => do
    let s ← exec x.1 (.outPledge v signer ticker amount price now)
    .ok (s, x.2)

structure ReserveBook (s : State) : Prop where
  finite : (fun t => (s.risks t).reserved).HasFiniteSupport
  total : s.bank.maxLiability = ∑ᶠ t, (s.risks t).reserved

def ReservedFor (actuary : Actuary) (risk : TickerRisk) (book : Book) : Prop :=
  risk.reserved = book.netExposure.natAbs * (actuary.lossProfile 0 0).marginBps.toNat / bps

def Outcome.liquidates (o : Outcome) : Bool := o.tranche.isSome || decide (o.delta ≠ 0)

def VisitBelow (e : Env) (ticker : Ticker) (x : Sweep × Book) (v : Visit) : Prop :=
  ∀ x', sweepOneBooked e ticker x v = .ok x' → x'.1.bank.maxLiability < u64Max
  deriving Decidable

def StaysBelow (x : State × (Ticker → Book)) : Instruction × Tail → Prop
  | (.handleSweep e _ ticker visits, _) =>
    EveryStep (sweepOneBooked e ticker) (VisitBelow e ticker) (Sweep.start e x.1 ticker, (x.2 ticker).found e) visits
  | c => ∀ x', execBooked x c = .ok x' → x'.1.bank.maxLiability < u64Max

def VisitCredits (e : Env) (ticker : Ticker) (x : Sweep × Book) (v : Visit) : Prop :=
  ∀ o ∈ visitOutcome e ticker x.1 (v.reading x.2 x.2), o.liquidates → o.delta < 0
  deriving Decidable

def CreditsPool (x : State × (Ticker → Book)) : Instruction × Tail → Prop
  | (.handleSweep e _ ticker visits, _) =>
    EveryStep (sweepOneBooked e ticker) (VisitCredits e ticker) (Sweep.start e x.1 ticker, (x.2 ticker).found e) visits
  | _ => True

def VisitReserves (e : Env) (ticker : Ticker) (x : Sweep × Book) (v : Visit) : Prop :=
  ∀ o ∈ visitOutcome e ticker x.1 (v.reading x.2 x.2), o.liquidates →
    ∀ x', sweepOneBooked e ticker x v = .ok x' → ReservedFor v.after x'.1.risk x'.2

def ReservesNet (x : State × (Ticker → Book)) : Instruction × Tail → Prop
  | (.outTrade e after v signer ticker amount, tail) =>
    ∀ x', execBooked x (.outTrade e after v signer ticker amount, tail) = .ok x' →
      ReservedFor after (x'.1.risks ticker) (x'.2 ticker)
  | (.amortise e after borrower liquidator ticker prices, tail) =>
    ∀ x', execBooked x (.amortise e after borrower liquidator ticker prices, tail) = .ok x' →
      ReservedFor after (x'.1.risks ticker) (x'.2 ticker)
  | (.handleSweep e _ ticker visits, _) =>
    EveryStep (sweepOneBooked e ticker) (VisitReserves e ticker) (Sweep.start e x.1 ticker, (x.2 ticker).found e) visits
  | _ => True

instance decidableStaysBelow (x : State × (Ticker → Book)) (c : Instruction × Tail) : Decidable (StaysBelow x c) := by
  unfold StaysBelow
  split <;> infer_instance

instance decidableCreditsPool (x : State × (Ticker → Book)) (c : Instruction × Tail) : Decidable (CreditsPool x c) := by
  unfold CreditsPool
  split <;> infer_instance

theorem sat_eq_of_lt_max {n} (h : sat n < u64Max) : sat n = n := by
  unfold sat at *
  omega

section

variable {e : Env} {after : Actuary} {tail : Tail} {b b' : Book} {s s' : State} {v : Vaults} {signer : Pubkey}
  {ticker : Ticker} {amount : ℤ} {paid : ℕ} {risk : TickerRisk} {bank : Depository}

theorem reconcile_moves (hle : risk.reserved ≤ bank.maxLiability)
    (hbelow : (reconcileTickerReserve after risk bank).2.maxLiability < u64Max) :
    (reconcileTickerReserve after risk bank).2.maxLiability + risk.reserved =
      bank.maxLiability + (reconcileTickerReserve after risk bank).1.reserved := by
  unfold reconcileTickerReserve at hbelow ⊢
  dsimp only at hbelow ⊢
  rw [sat_eq_of_lt_max hbelow]
  omega

theorem reconcile_reserves (hnet : after.netExposure = b.netExposure)
    (hbelow : (reconcileTickerReserve after risk bank).2.maxLiability < u64Max) :
    ReservedFor after (reconcileTickerReserve after risk bank).1 b := by
  unfold reconcileTickerReserve at hbelow ⊢
  dsimp only at hbelow ⊢
  have hsum := sat_eq_of_lt_max hbelow
  have hcap : tickerReserveDollars after.netExposure.natAbs after < u64Max := by omega
  unfold ReservedFor
  dsimp only
  unfold tickerReserveDollars at hcap ⊢
  rw [sat_eq_of_lt_max hcap, hnet]

theorem ReserveBook.reserved_le (h : ReserveBook s) (ticker : Ticker) :
    (s.risks ticker).reserved ≤ s.bank.maxLiability := by
  rw [h.total]
  exact single_le_finsum ticker h.finite fun t => Nat.zero_le _

theorem reserveBook_update (h : ReserveBook s) (hrisks : s'.risks = update s.risks ticker risk)
    (hmoves : s'.bank.maxLiability + (s.risks ticker).reserved = s.bank.maxLiability + risk.reserved) :
    ReserveBook s' := by
  have hcomp : (fun t => (s'.risks t).reserved) = update (fun t => (s.risks t).reserved) ticker risk.reserved := by
    rw [hrisks]
    exact Function.comp_update TickerRisk.reserved s.risks ticker risk
  have hsum := finsum_update_add h.finite (Nat.add_comm risk.reserved (s.risks ticker).reserved)
  constructor
  · rw [hcomp]
    exact hasFiniteSupport_update h.finite _ _
  · have htotal : ∑ᶠ t, (s'.risks t).reserved =
        ∑ᶠ t, update (fun t => (s.risks t).reserved) ticker risk.reserved t := congrArg finsum hcomp
    rw [h.total] at hmoves
    omega

theorem reserveBook_of_leaves (h : ReserveBook s) (hleaves : LeavesExposure s s') : ReserveBook s' := by
  constructor
  · rw [hleaves.risks]
    exact h.finite
  · rw [hleaves.risks, hleaves.maxLiability]
    exact h.total

theorem handleOutTrade_reconciles (h : handleOutTrade e after s v signer ticker amount = .ok (s', paid)) :
    ∃ risk bank, risk.reserved = (s.risks ticker).reserved ∧ bank.maxLiability = s.bank.maxLiability ∧
      s'.bank = (reconcileTickerReserve after risk bank).2 ∧
      s'.risks = update s.risks ticker (reconcileTickerReserve after risk bank).1 := by
  obtain ⟨t, ht, -, rfl⟩ := handleOutTrade_eq h
  have htrade := tradeOf_eq ht
  obtain ⟨totalDrawn, hdesk⟩ := repo_bank htrade.traded
  have hrisk := congrArg TickerRisk.reserved
    (fundPosition_risk e.actuary e.price (s.depositors signer) (s.risks ticker) ticker)
  rw [htrade.funding] at hrisk
  refine ⟨_, _, ?_, ?_, rfl, rfl⟩
  · exact hrisk
  · rw [hdesk, bankAge_eq htrade.bank]
    unfold bookPool
    dsimp only
    split_ifs
    · rfl
    · rfl

theorem amortise_reconciles {borrower liquidator prices}
    (h : amortise e after s borrower liquidator ticker prices = .ok s') :
    ∃ bank, bank.maxLiability = s.bank.maxLiability ∧
      s'.bank.maxLiability = (reconcileTickerReserve after (s.risks ticker) bank).2.maxLiability ∧
      s'.risks = update s.risks ticker (reconcileTickerReserve after (s.risks ticker) bank).1 := by
  obtain ⟨customer, bank, traded, o, customer', bank', liq, -, hbank, hrepo, -, hbook, -, rfl⟩ := amortise_eq h
  obtain ⟨totalDrawn, hdesk⟩ := repo_bank hrepo
  obtain ⟨-, yieldPool, totalDeposits, rfl, -⟩ := bookLiquidation_eq hbook
  refine ⟨_, ?_, rfl, rfl⟩
  rw [hdesk, bankAge_eq hbank]

end

section Sweeps

variable {e : Env} {ticker : Ticker} {x x' : Sweep} {v : Visit}

theorem visitOutcome_of_ok (hopen : (x.depositors v.key).opened) {d o} (hrepo : x.crank e ticker v = .ok (d, o)) :
    visitOutcome e ticker x v = some o := by
  unfold visitOutcome sweptOutcome
  dsimp only
  rw [if_pos hopen, hrepo]
  rfl

theorem sweepOne_reserve (e ticker x v) :
    (∃ o risk bank, visitOutcome e ticker x v = some o ∧ o.delta < 0 ∧ risk.reserved = x.risk.reserved ∧
      bank.maxLiability = x.bank.maxLiability ∧
      (sweepOne e ticker x v).risk = (reconcileTickerReserve v.after risk bank).1 ∧
      (sweepOne e ticker x v).bank = (reconcileTickerReserve v.after risk bank).2) ∨
    ((∀ o ∈ visitOutcome e ticker x v, ¬ o.delta < 0) ∧ (sweepOne e ticker x v).risk.reserved = x.risk.reserved ∧
      (sweepOne e ticker x v).bank.maxLiability = x.bank.maxLiability) := by
  have hrisk := congrArg TickerRisk.reserved
    (fundPosition_risk v.actuary e.price (x.depositors v.key) x.risk ticker)
  generalize hx' : sweepOne e ticker x v = x'
  have hswept := sweepOne_cases e ticker x v
  rw [hx'] at hswept
  cases hswept with
  | closed hclosed =>
    refine .inr ⟨fun o ho => ?_, rfl, rfl⟩
    simp [visitOutcome, hclosed] at ho
  | failed hopen hrepo =>
    refine .inr ⟨fun o ho => ?_, hrisk, rfl⟩
    simp [visitOutcome, sweptOutcome, hopen, hrepo, Except.toOption] at ho
  | @quiet d o hopen hrepo hquiet =>
    obtain ⟨totalDrawn, hdesk⟩ := repo_bank hrepo
    refine .inr ⟨fun o' ho' hneg => hquiet (.inl ?_), hrisk, ?_⟩
    · obtain rfl := Option.some.inj ((visitOutcome_of_ok hopen hrepo).symm.trans ho')
      omega
    · rw [hdesk]
  | @booked d o d' risk bank hopen hrepo hmoved hbook =>
    obtain ⟨totalDrawn, hdesk⟩ := repo_bank hrepo
    have ho := visitOutcome_of_ok hopen hrepo
    unfold bookSwept at hbook
    dsimp only at hbook
    split_ifs at hbook with hneg
    · obtain ⟨-, hbook⟩ := Prod.mk.inj hbook
      obtain ⟨rfl, rfl⟩ := Prod.mk.inj hbook
      refine .inl ⟨o, _, _, ho, hneg, hrisk, ?_, rfl, rfl⟩
      rw [hdesk]
    · obtain ⟨-, hbook⟩ := Prod.mk.inj hbook
      obtain ⟨rfl, rfl⟩ := Prod.mk.inj hbook
      refine .inr ⟨fun o' ho' => ?_, hrisk, ?_⟩
      · obtain rfl := Option.mem_unique ho ho'
        exact hneg
      · rw [hdesk]

variable {y y' : Sweep × Book}

theorem visit_moves (hle : y.1.risk.reserved ≤ y.1.bank.maxLiability) (hbelow : VisitBelow e ticker y v)
    (h : sweepOneBooked e ticker y v = .ok y') :
    y'.1.bank.maxLiability + y.1.risk.reserved = y.1.bank.maxLiability + y'.1.risk.reserved := by
  have hbelow := hbelow y' h
  rw [sweepOneBooked_sweep h] at hbelow ⊢
  obtain ⟨o, risk, bank, -, -, hrisk, hbank, hrisk', hbank'⟩ | ⟨-, hrisk', hbank'⟩ :=
    sweepOne_reserve e ticker y.1 (v.reading y.2 y'.2)
  · rw [hbank'] at hbelow
    rw [hbank', hrisk', ← hrisk, ← hbank]
    exact reconcile_moves (by omega) hbelow
  · omega

theorem visit_reserves (hbelow : VisitBelow e ticker y v) (hcredits : VisitCredits e ticker y v) :
    VisitReserves e ticker y v := by
  intro o ho hliquidates y' h
  have hneg := hcredits o ho hliquidates
  have hbelow := hbelow y' h
  rw [sweepOneBooked_sweep h] at hbelow ⊢
  obtain ⟨o', risk, bank, -, -, -, -, hrisk', hbank'⟩ | ⟨hstill, -, -⟩ :=
    sweepOne_reserve e ticker y.1 (v.reading y.2 y'.2)
  · rw [hbank'] at hbelow
    have hnet : (v.reading y.2 y'.2).after.netExposure = y'.2.netExposure := rfl
    rw [hrisk']
    exact reconcile_reserves hnet hbelow
  · exact absurd hneg (hstill o ho)

theorem visits_move {visits} (hle : y.1.risk.reserved ≤ y.1.bank.maxLiability)
    (hbelow : EveryStep (sweepOneBooked e ticker) (VisitBelow e ticker) y visits)
    (h : runAll (sweepOneBooked e ticker) y visits = .ok y') :
    y'.1.bank.maxLiability + y.1.risk.reserved = y.1.bank.maxLiability + y'.1.risk.reserved := by
  induction visits generalizing y with
  | nil =>
    cases h
    rfl
  | cons v visits ih =>
    obtain ⟨z, hz, hrest⟩ := of_bind h
    have hfirst := visit_moves hle hbelow.1 hz
    have hlater := ih (by omega) (hbelow.2 z hz) hrest
    omega

end Sweeps

theorem execBooked_reserveBook {x x' c} (hx : ReserveBook x.1)
    (hbelow : StaysBelow x c) (h : execBooked x c = .ok x') : ReserveBook x'.1 := by
  obtain ⟨i, tail⟩ := c
  cases i with
  | handleIn =>
    obtain ⟨s, hs, h⟩ := of_bind h
    cases h
    exact reserveBook_of_leaves hx (handleIn_leaves hs)
  | outDollars =>
    obtain ⟨s, hs, h⟩ := of_bind h
    obtain ⟨paid, hs⟩ := bind_fst_eq_ok.mp hs
    cases h
    exact reserveBook_of_leaves hx (handleOutDollars_leaves hs)
  | outPledge =>
    obtain ⟨s, hs, h⟩ := of_bind h
    obtain ⟨paid, hs⟩ := bind_fst_eq_ok.mp hs
    cases h
    exact reserveBook_of_leaves hx (handleOutPledge_leaves hs)
  | outTrade e after v signer ticker amount =>
    have hbelow := hbelow x' h
    obtain ⟨⟨s, book, paid⟩, hs, h⟩ := of_bind h
    cases h
    obtain ⟨pod, e', -, htrade, -⟩ := handleOutTradeBooked_eq hs
    obtain ⟨risk, bank, hrisk, hbank, hbank', hrisks⟩ := handleOutTrade_reconciles htrade
    have hle := hx.reserved_le ticker
    apply reserveBook_update hx hrisks
    dsimp only at hbelow ⊢
    rw [hbank'] at hbelow ⊢
    rw [← hrisk, ← hbank]
    exact reconcile_moves (by omega) hbelow
  | amortise _ _ _ _ ticker =>
    have hbelow := hbelow x' h
    obtain ⟨⟨s, book⟩, hs, h⟩ := of_bind h
    cases h
    obtain ⟨bank, hbank, hbank', hrisks⟩ := amortise_reconciles (amortiseBooked_amortise hs)
    have hle := hx.reserved_le ticker
    apply reserveBook_update hx hrisks
    dsimp only at hbelow ⊢
    rw [hbank'] at hbelow ⊢
    rw [← hbank]
    exact reconcile_moves (by omega) hbelow
  | handleSweep e cranker ticker =>
    obtain ⟨⟨s, book⟩, hs, h⟩ := of_bind h
    cases h
    obtain ⟨⟨y, book'⟩, hy, hs⟩ := of_bind hs
    cases hs
    have hrisks : (y.close e x.1 cranker ticker).risks = update x.1.risks ticker y.risk := rfl
    exact reserveBook_update hx hrisks (visits_move (hx.reserved_le ticker) hbelow hy)

theorem execBooked_reserves {x c} (hbelow : StaysBelow x c) (hcredits : CreditsPool x c) : ReservesNet x c := by
  obtain ⟨i, tail⟩ := c
  cases i with
  | handleIn signer amount decimals ticker now | outDollars v signer amount fromPledges now
  | outPledge => trivial
  | outTrade =>
    intro x' h
    have hbelow := hbelow x' h
    obtain ⟨⟨s, book, paid⟩, hs, h⟩ := of_bind h
    cases h
    obtain ⟨pod, e', -, htrade, -⟩ := handleOutTradeBooked_eq hs
    obtain ⟨risk, bank, -, -, hbank, hrisks⟩ := handleOutTrade_reconciles htrade
    dsimp only at hbelow ⊢
    rw [hbank] at hbelow
    rw [hrisks, update_self, update_self]
    exact reconcile_reserves rfl hbelow
  | amortise =>
    intro x' h
    have hbelow := hbelow x' h
    obtain ⟨⟨s, book⟩, hs, h⟩ := of_bind h
    cases h
    obtain ⟨bank, -, hbank, hrisks⟩ := amortise_reconciles (amortiseBooked_amortise hs)
    dsimp only at hbelow ⊢
    rw [hbank] at hbelow
    rw [hrisks, update_self, update_self]
    exact reconcile_reserves rfl hbelow
  | handleSweep =>
    have hsteps := EveryStep.and hbelow hcredits
    exact hsteps.imp fun y v hv => visit_reserves hv.1 hv.2

theorem reserveBook_start {s} (hreserved : ∀ t, (s.risks t).reserved = 0) (hbank : s.bank.maxLiability = 0) :
    ReserveBook s := by
  have hnone : (fun t => (s.risks t).reserved) = 0 := funext hreserved
  constructor
  · rw [hnone]
    exact Set.Finite.subset Set.finite_empty (by simp)
  · rw [hbank, congrArg finsum hnone]
    exact finsum_zero.symm

def unbooked : State × (Ticker → Book) := (State.empty, fun _ => ⟨0, 0, 0, 0, 0, 0, 0⟩)

def nearActuary : Actuary := { steadyActuary with lossProfile := fun _ _ => ⟨2000, 300, 500⟩ }

def pledgeAndBuy (pledge : ℕ) : List (Instruction × Tail) :=
  [(.handleIn 2 (1000 * 10 ^ 6) 6 none 100, calmTail), (.handleIn 1 pledge 6 (some 1) 200, calmTail),
   (.outTrade ⟨100 * 10 ^ 6, 300, 1, nearActuary⟩ nearActuary fullVault 1 1 (4 * 10 ^ 6), calmTail)]

def sweepAt (now : ℕ) : Instruction × Tail :=
  (.handleSweep ⟨96 * 10 ^ 6, now, 1, nearActuary⟩ 3 1 [⟨1, nearActuary, nearActuary⟩], calmTail)

def levered : List (Instruction × Tail) := pledgeAndBuy (100 * 10 ^ 6) ++ [sweepAt 400, sweepAt 4400]

noncomputable def drawnOf (depositors : Pubkey → Depositor) : ℕ := ∑ key, (depositors key).drawn

def Utilised (s : State) : Prop := s.bank.totalDrawn = drawnOf s.depositors

def shortTrim (e : Env) (k : Desk) (amount : ℤ) : ℕ :=
  let q := quote e k amount
  let k := clearBreach (chargedDesk e k amount) q q.oldValue
  let exposure := satI64 (k.pod.exposure + amount)
  if k.pod.exposure ≤ 0 ∧ amount < 0 then
    (fundMargin e { k with pod := { k.pod with exposure } } q.bandBps (unitsValue exposure.natAbs e.price)).2.2
  else 0

def Paired (k k' : Desk) : Prop :=
  ∃ change, k'.drawn = drawnBy k.drawn change ∧ k'.bank.totalDrawn = drawnBy k.bank.totalDrawn change

def Covers (bank : Depository) (drawn : ℕ) (o : Outcome) : Prop :=
  bank.totalDrawn ≤ o.desk.bank.totalDrawn + drawn ∧ o.desk.bank.totalDrawn < u64Max
  deriving Decidable

def VisitPaired (e : Env) (cranker : Pubkey) (ticker : Ticker) (x : Sweep) (v : Visit) : Prop :=
  (∀ pod ∈ (x.depositors v.key).balances, pod.exposure.natAbs ≤ 2 ^ 63) ∧
    (∀ o, sweptOutcome e ticker x v = .ok o → Covers x.bank (x.depositors v.key).drawn o) ∧
    (v.key = cranker → (sweepOne e ticker x v).bank.totalDrawn = x.bank.totalDrawn)
  deriving Decidable

def DrawsPaired (s : State) : Instruction → Prop
  | .outTrade e _ _ signer ticker amount =>
    ∀ t, tradeOf e s signer ticker amount = .ok t → (∀ pod ∈ podOf t.funded.balances ticker,
        shortTrim e ⟨pod, t.funded.depositedQuid, t.funded.drawn, t.bank⟩ amount = 0) ∧
      Covers s.bank (s.depositors signer).drawn t.outcome
  | .amortise e _ borrower liquidator ticker _ =>
    borrower ≠ liquidator ∧ ∀ r, crankOf e s borrower ticker = .ok r → Covers s.bank (s.depositors borrower).drawn r.2
  | .handleSweep e cranker ticker visits =>
    EveryStep (visit e ticker) (VisitPaired e cranker ticker) (Sweep.start e s ticker) visits
  | _ => True

instance decidableDrawsPaired (s : State) (i : Instruction) : Decidable (DrawsPaired s i) := by
  apply i.casesOn (motive := fun i => Decidable (DrawsPaired s i)) <;> intros <;> dsimp only [DrawsPaired] <;> infer_instance

section Exits

variable {e : Env} {k k' k₁ : Desk} {q : Quote} {o : Outcome} {amount : ℤ} {time : ℕ}

def SameDrawn (k k' : Desk) : Prop := k'.drawn = k.drawn ∧ k'.bank.totalDrawn = k.bank.totalDrawn

theorem SameDrawn.paired (hsame : SameDrawn k k₁) (h : Paired k₁ k') : Paired k k' := by
  obtain ⟨change, hdrawn, htotal⟩ := h
  refine ⟨change, ?_, ?_⟩
  · rw [hdrawn, hsame.1]
  · rw [htotal, hsame.2]

theorem sameDrawn_clearBreach (k q value) : SameDrawn k (clearBreach k q value) := by
  unfold clearBreach
  split_ifs
  all_goals exact ⟨rfl, rfl⟩

theorem sameDrawn_fundMargin (e k bandBps newValue) : SameDrawn k (fundMargin e k bandBps newValue).1 := by
  unfold fundMargin
  dsimp only
  split_ifs
  all_goals exact ⟨rfl, rfl⟩

theorem paired_unwind (e k q time) : Paired k (unwindATranche e k q time).desk := by
  unfold unwindATranche
  dsimp only
  split_ifs
  · exact ⟨0, rfl, rfl⟩
  · exact ⟨_, rfl, rfl⟩

theorem paired_sellLong (e k q amount time) : Paired k (sellLong e k q amount time).desk := by
  unfold sellLong
  dsimp only
  split_ifs
  all_goals exact ⟨_, rfl, rfl⟩

theorem paired_buyLong (h : buyLong e k q amount time = .ok o) : Paired k o.desk := by
  obtain ⟨-, marked, collarBps, drawn, rfl⟩ := buyLong_eq h
  have hsame : SameDrawn k (funded e k q amount).1 := sameDrawn_fundMargin e _ q.bandBps _
  exact hsame.paired ⟨_, rfl, rfl⟩

theorem sameDrawn_issueShort (h : issueShort e k q amount = .ok k')
    (htrim : amount < 0 → (funded e k q amount).2.2 = 0) : SameDrawn k k' := by
  obtain ⟨hneg, rfl⟩ | ⟨-, rfl⟩ := issueShort_eq h
  · have hsame : SameDrawn k (funded e k q amount).1 := sameDrawn_fundMargin e _ q.bandBps _
    rw [htrim hneg]
    exact hsame
  · exact ⟨rfl, rfl⟩

theorem repoPod_paired (htrim : shortTrim e k amount = 0) (h : repoPod e k amount = .ok o) : Paired k o.desk := by
  obtain ⟨-, rfl⟩ | ⟨-, o', rfl, hexit⟩ := repoPod_exits h
  · have hset : SameDrawn k (checkpointed e k) := ⟨rfl, rfl⟩
    exact hset.paired (paired_unwind e _ _ _)
  · have hset : SameDrawn k (chargedDesk e k amount) := ⟨rfl, rfl⟩
    have hclear := sameDrawn_clearBreach (chargedDesk e k amount) (quote e k amount) (quote e k amount).oldValue
    apply hset.paired
    cases hexit with
    | unwound => exact paired_unwind ..
    | posted _ _ hpost =>
      obtain ⟨-, -, collarBps, rfl⟩ := postVariationMargin_eq hpost
      exact ⟨_, rfl, rfl⟩
    | reinstated _ _ _ hreinstate =>
      obtain ⟨-, -, collarBps, rfl⟩ := reinstateExposure_eq hreinstate
      exact ⟨_, rfl, rfl⟩
    | sold => exact hclear.paired (paired_sellLong ..)
    | bought _ _ hbuy =>
      have hbought := paired_buyLong hbuy
      exact hclear.paired hbought
    | covered => exact hclear.paired ⟨_, rfl, rfl⟩
    | marked hside _ hissue =>
      obtain ⟨breachedAt, hflat⟩ := clearBreach_eq (chargedDesk e k amount) (quote e k amount) (quote e k amount).oldValue
      have hsame := sameDrawn_issueShort hissue fun hneg => by
        unfold shortTrim at htrim
        dsimp only at htrim
        rwa [if_pos ⟨by rw [hflat]; exact exposure_nonpos hside, hneg⟩] at htrim
      exact hclear.paired (hsame.paired ⟨_, rfl, rfl⟩)
    | ignored => exact ⟨0, rfl, rfl⟩

theorem Paired.alike (hpaired : Paired k o.desk) (hle : k.drawn ≤ k.bank.totalDrawn)
    (hcovers : Covers k.bank k.drawn o) : o.desk.bank.totalDrawn + k.drawn = k.bank.totalDrawn + o.desk.drawn := by
  obtain ⟨change, hdrawn, htotal⟩ := hpaired
  obtain ⟨hcovered, hbelow⟩ := hcovers
  unfold drawnBy at hdrawn htotal
  split_ifs at hdrawn htotal with hpos
  · rw [htotal] at hbelow
    have hsum := sat_eq_of_lt_max hbelow
    have hfits : sat (k.drawn + change.natAbs) = k.drawn + change.natAbs := by
      unfold sat at hbelow ⊢
      omega
    omega
  · omega

end Exits

section Calls

variable {e : Env} {after : Actuary} {s s' : State} {d d' : Depositor} {bank bank' : Depository} {o : Outcome}
  {ticker : Ticker} {amount : ℤ} {prices : List ℕ} {now : ℕ}

theorem drawnOf_update (depositors : Pubkey → Depositor) (key d) :
    drawnOf (update depositors key d) + (depositors key).drawn = drawnOf depositors + d.drawn :=
  sum_comp_update Depositor.drawn (Nat.add_comm _ _)

theorem le_drawnOf (depositors : Pubkey → Depositor) (key : Pubkey) : (depositors key).drawn ≤ drawnOf depositors := by
  unfold drawnOf
  exact Finset.single_le_sum (f := fun key => (depositors key).drawn) (fun _ _ => Nat.zero_le _) (Finset.mem_univ key)

theorem utilised_of_leaves (hs : Utilised s) (h : LeavesExposure s s') : Utilised s' := by
  unfold Utilised drawnOf at hs ⊢
  rw [h.totalDrawn, hs]
  exact Finset.sum_congr rfl fun key _ => (h.drawn key).symm

theorem repo_alike (hle : d.drawn ≤ bank.totalDrawn)
    (htrim : ∀ pod ∈ podOf d.balances ticker, shortTrim e ⟨pod, d.depositedQuid, d.drawn, bank⟩ amount = 0)
    (hcovers : Covers bank d.drawn o) (h : repo e d bank ticker amount = .ok (d', o)) :
    o.desk.bank.totalDrawn + d.drawn = bank.totalDrawn + d'.drawn := by
  obtain ⟨pod, hpod, hrepo, rfl⟩ := repo_eq_ok h
  exact (repoPod_paired (htrim pod hpod) hrepo).alike hle hcovers

theorem shortTrim_none (e k) : shortTrim e k 0 = 0 := by
  unfold shortTrim
  dsimp only
  exact if_neg fun h => lt_irrefl _ h.2

theorem fundPosition_drawn (actuary price d risk ticker) :
    (fundPosition actuary price d risk ticker).1.drawn = d.drawn := by
  obtain ⟨balances, hfunded⟩ := fundPosition_account actuary price d risk ticker
  rw [hfunded]

theorem dispatchTrade_drawn (o d before preDq fee now) :
    (dispatchTrade o d before preDq fee now).customer.drawn = d.drawn := by
  unfold dispatchTrade
  dsimp only
  split_ifs
  all_goals rfl

theorem bookPool_totalDrawn (bank gain) : (bookPool bank gain).totalDrawn = bank.totalDrawn := by
  unfold bookPool
  dsimp only
  split_ifs
  · rfl
  · rfl

theorem outTrade_utilised {v signer paid} (hs : Utilised s)
    (hpaired : DrawsPaired s (.outTrade e after v signer ticker amount))
    (h : handleOutTrade e after s v signer ticker amount = .ok (s', paid)) : Utilised s' := by
  obtain ⟨t, ht, -, rfl⟩ := handleOutTrade_eq h
  have htrade := tradeOf_eq ht
  obtain ⟨htrim, hcovers⟩ := hpaired t ht
  have hdrawn := fundPosition_drawn e.actuary e.price (s.depositors signer) (s.risks ticker) ticker
  rw [htrade.funding] at hdrawn
  dsimp only at hdrawn
  have htotal : t.bank.totalDrawn = s.bank.totalDrawn := by rw [bankAge_eq htrade.bank]
  have hle := le_drawnOf s.depositors signer
  have hsum := drawnOf_update s.depositors signer t.settled.customer
  have hsettled : t.settled.customer.drawn = t.traded.drawn := by
    rw [htrade.settled]
    exact dispatchTrade_drawn _ _ _ _ _ _
  unfold Utilised at hs ⊢
  have halike := repo_alike (by omega) htrim (by rwa [Covers, htotal, hdrawn]) htrade.traded
  change (bookPool t.outcome.desk.bank t.settled.gain).totalDrawn = _
  rw [bookPool_totalDrawn]
  dsimp only
  omega

theorem creditLiquidator_drawn {commission} (h : creditLiquidator d commission now = .ok d') : d'.drawn = d.drawn := by
  obtain ⟨touched, htouch, quid, -, h⟩ := of_bind₂ h
  have hsame : touched.drawn = d.drawn := by
    unfold Depositor.touch at htouch
    split_ifs at htouch
    · rw [depositorAge_eq htouch]
    · rw [← Except.ok.inj htouch]
  cases h
  exact hsame

theorem amortise_utilised {borrower liquidator} (hs : Utilised s)
    (hpaired : DrawsPaired s (.amortise e after borrower liquidator ticker prices))
    (h : amortise e after s borrower liquidator ticker prices = .ok s') : Utilised s' := by
  obtain ⟨customer, bank, traded, o, customer', bank', liq, hcustomer, hbank, hrepo, -, hbook, hliq, rfl⟩ :=
    amortise_eq h
  obtain ⟨hother, hcovers⟩ := hpaired
  have hcovers := hcovers _ (crankOf_ok hcustomer hbank hrepo)
  have hdrawn : customer.drawn = (s.depositors borrower).drawn := by rw [depositorAge_eq hcustomer]
  have htotal : bank.totalDrawn = s.bank.totalDrawn := by rw [bankAge_eq hbank]
  have hle := le_drawnOf s.depositors borrower
  unfold Utilised at hs ⊢
  have halike := repo_alike (by omega) (fun pod _ => shortTrim_none e _) (by rwa [Covers, htotal, hdrawn]) hrepo
  obtain ⟨⟨balances, rfl⟩, yieldPool, totalDeposits, rfl, -⟩ := bookLiquidation_eq hbook
  have hone := drawnOf_update s.depositors borrower
    { traded with balances, depositedQuid := traded.depositedQuid + (salvage traded o.delta prices e.now).1 }
  have htwo := drawnOf_update (update s.depositors borrower
    { traded with balances, depositedQuid := traded.depositedQuid + (salvage traded o.delta prices e.now).1 })
    liquidator liq
  rw [update_of_ne (Ne.symm hother), creditLiquidator_drawn hliq] at htwo
  change o.desk.bank.totalDrawn = _
  dsimp only at hone htwo ⊢
  omega

theorem bookSwept_drawn {risk risk'} (h : bookSwept after o d risk = (d', risk', bank')) :
    d'.drawn = d.drawn ∧ bank'.totalDrawn = o.desk.bank.totalDrawn := by
  unfold bookSwept at h
  dsimp only at h
  split_ifs at h
  all_goals
    obtain ⟨rfl, hrest⟩ := Prod.mk.inj h
    obtain ⟨-, rfl⟩ := Prod.mk.inj hrest
    exact ⟨rfl, rfl⟩

theorem sweepOne_utilised {cranker own x v}
    (hx : x.bank.totalDrawn = drawnOf (update x.depositors cranker own)) (hpaired : VisitPaired e cranker ticker x v) :
    (sweepOne e ticker x v).bank.totalDrawn = drawnOf (update (sweepOne e ticker x v).depositors cranker own) := by
  obtain ⟨hexposure, hcovers, hown⟩ := hpaired
  by_cases hkey : v.key = cranker
  · obtain ⟨d, hdepositors, -⟩ := (sweepOne_leaves e ticker x v).account
    rw [hown hkey, hdepositors, hkey, update_idem]
    exact hx
  generalize hx' : sweepOne e ticker x v = x'
  have hswept := sweepOne_cases e ticker x v
  rw [hx'] at hswept
  cases hswept with
  | closed | failed => exact hx
  | @quiet d o hopen hrepo hquiet =>
    have hstill : o.delta = 0 := by
      by_contra hmoved
      exact hquiet (.inl hmoved)
    rw [repo_bank_of_still (fundPosition_exposure hexposure) hrepo hstill]
    exact hx
  | @booked d o d' risk bank hopen hrepo hmoved hbook =>
    have hdrawn : (x.funded e ticker v).1.drawn = _ := fundPosition_drawn ..
    obtain ⟨hd', hbank⟩ := bookSwept_drawn hbook
    have hle := le_drawnOf (update x.depositors cranker own) v.key
    have hsum := drawnOf_update (update x.depositors cranker own) v.key d'
    rw [update_of_ne hkey] at hle hsum
    rw [update_comm (Ne.symm hkey)] at hsum
    have houtcome : sweptOutcome e ticker x v = .ok o := by
      unfold sweptOutcome
      dsimp only
      rw [hrepo]
      rfl
    have halike := repo_alike (by omega) (fun pod _ => shortTrim_none _ _)
      (by rw [hdrawn]; exact hcovers o houtcome) hrepo
    dsimp only
    omega

theorem sweep_utilised {cranker own x visits} (hx : x.bank.totalDrawn = drawnOf (update x.depositors cranker own))
    (hpaired : EveryStep (visit e ticker) (VisitPaired e cranker ticker) x visits) :
    (visits.foldl (sweepOne e ticker) x).bank.totalDrawn =
      drawnOf (update (visits.foldl (sweepOne e ticker) x).depositors cranker own) := by
  induction visits generalizing x with
  | nil => exact hx
  | cons v visits ih => exact ih (sweepOne_utilised hx hpaired.1) (hpaired.2 _ rfl)

theorem close_drawnOf (x : Sweep) (e : Env) (s : State) (cranker : Pubkey) (ticker : Ticker) :
    drawnOf (x.close e s cranker ticker).depositors = drawnOf (update x.depositors cranker (s.depositors cranker)) := by
  unfold Sweep.close
  dsimp only
  generalize hown : (if (s.depositors cranker).opened then s.depositors cranker
    else { s.depositors cranker with opened := true, lastUpdated := e.now }) = own
  have hdrawn : own.drawn = (s.depositors cranker).drawn := by
    rw [← hown]
    split_ifs
    · rfl
    · rfl
  have hnew := drawnOf_update x.depositors cranker
    { own with depositedQuid := sat (own.depositedQuid + x.commission) }
  have hold := drawnOf_update x.depositors cranker (s.depositors cranker)
  dsimp only at hnew
  omega

theorem handleSweep_utilised {cranker visits} (hs : Utilised s)
    (hpaired : DrawsPaired s (.handleSweep e cranker ticker visits)) :
    Utilised (handleSweep e s cranker ticker visits) := by
  have hstart : (Sweep.start e s ticker).bank.totalDrawn =
      drawnOf (update (Sweep.start e s ticker).depositors cranker (s.depositors cranker)) := by
    change s.bank.totalDrawn = drawnOf (update s.depositors cranker (s.depositors cranker))
    rw [update_eq_self]
    exact hs
  rw [handleSweep]
  unfold Utilised
  rw [close_drawnOf]
  exact sweep_utilised hstart hpaired

theorem exec_utilised {i} (hs : Utilised s) (hpaired : DrawsPaired s i) (h : exec s i = .ok s') : Utilised s' := by
  cases i with
  | handleIn => exact utilised_of_leaves hs (handleIn_leaves h)
  | outDollars =>
    obtain ⟨paid, h⟩ := bind_fst_eq_ok.mp h
    exact utilised_of_leaves hs (handleOutDollars_leaves h)
  | outPledge =>
    obtain ⟨paid, h⟩ := bind_fst_eq_ok.mp h
    exact utilised_of_leaves hs (handleOutPledge_leaves h)
  | outTrade =>
    obtain ⟨paid, h⟩ := bind_fst_eq_ok.mp h
    exact outTrade_utilised hs hpaired h
  | amortise => exact amortise_utilised hs hpaired h
  | handleSweep =>
    cases h
    exact handleSweep_utilised hs hpaired

end Calls

/-- Where no short is cut and no account written over, the bank has drawn what its depositors have. -/
theorem drawn_kept (s : State) (run : List Instruction) (hs : Utilised s)
    (hpaired : EveryStep exec DrawsPaired s run) : EveryState exec Utilised s run :=
  everyState_of_invariant (fun _ hs => hs) (fun _ _ _ hs hpaired h => exec_utilised hs hpaired h) hs hpaired

theorem utilised_empty : Utilised State.empty := by
  unfold Utilised drawnOf
  exact (Finset.sum_eq_zero fun _ _ => rfl).symm

def twoPledges : List Instruction :=
  [.handleIn 2 (1000 * 10 ^ 6) 6 none 100, .handleIn 1 (100 * 10 ^ 6) 6 (some 1) 200,
   .handleIn 3 (100 * 10 ^ 6) 6 (some 1) 200]

def strictOrder (key : Pubkey) (price now : ℕ) (amount : ℤ) : Instruction :=
  .outTrade ⟨price * 10 ^ 6, now, 1, strictActuary⟩ strictActuary fullVault key 1 amount

def parRun : List Instruction :=
  twoPledges ++ [strictOrder 3 100 300 (3 * 10 ^ 6), strictOrder 1 100 400 (-3 * 10 ^ 6), strictOrder 1 100 500 (3 * 10 ^ 6),
    .handleSweep ⟨96 * 10 ^ 6, 600, 1, strictActuary⟩ 4 1 [⟨3, strictActuary, strictActuary⟩],
    .handleSweep ⟨96 * 10 ^ 6, 4600, 1, strictActuary⟩ 4 1 [⟨3, strictActuary, strictActuary⟩]]

theorem drawn_kept_par : (∃ s', runAll exec State.empty parRun = .ok s' ∧ 0 < s'.bank.totalDrawn ∧
      s'.bank.totalDrawn < 300 * 10 ^ 6) ∧ EveryState exec Utilised State.empty parRun := by
  obtain ⟨s', hrun, hdrawn⟩ :
      ∃ s', runAll exec State.empty parRun = .ok s' ∧ 0 < s'.bank.totalDrawn ∧ s'.bank.totalDrawn < 300 * 10 ^ 6 := by
    decide +kernel
  have hpaired : EveryStep exec DrawsPaired State.empty parRun := by decide +kernel
  exact ⟨⟨s', hrun, hdrawn⟩, drawn_kept State.empty parRun utilised_empty hpaired⟩

theorem pair_le_drawnOf (depositors : Pubkey → Depositor) {a b} (hne : a ≠ b) :
    (depositors a).drawn + (depositors b).drawn ≤ drawnOf depositors := by
  unfold drawnOf
  rw [← Finset.sum_pair (f := fun key => (depositors key).drawn) hne]
  exact Finset.sum_le_sum_of_subset (Finset.subset_univ _)

theorem drawn_below_depositors :
    (∃ s', runAll exec State.empty (twoPledges ++ [strictOrder 3 100 300 (3 * 10 ^ 6), strictOrder 1 100 400 (-4 * 10 ^ 6)]) =
        .ok s' ∧ s'.bank.totalDrawn = 566666733 ∧ (s'.depositors 1).drawn = 333333400 ∧
      (s'.depositors 3).drawn = 300 * 10 ^ 6 ∧ ¬ Utilised s') ∧
    ∃ s', runAll exec State.empty (twoPledges ++ [strictOrder 3 100 300 (3 * 10 ^ 6), strictOrder 1 100 400 (3 * 10 ^ 6),
        strictOrder 1 105 500 (-3 * 10 ^ 6)]) = .ok s' ∧ s'.bank.totalDrawn = 285 * 10 ^ 6 ∧
      (s'.depositors 3).drawn = 300 * 10 ^ 6 ∧ ¬ Utilised s' := by
  constructor
  · refine exists_ok (fun s' => s'.bank.totalDrawn = 566666733 ∧ (s'.depositors 1).drawn = 333333400 ∧
      (s'.depositors 3).drawn = 300 * 10 ^ 6) (by decide +kernel) ?_
    rintro s' - ⟨htotal, hone, hthree⟩
    have hpair := pair_le_drawnOf s'.depositors (a := 1) (b := 3) (by decide)
    unfold Utilised
    omega
  · refine exists_ok (fun s' => s'.bank.totalDrawn = 285 * 10 ^ 6 ∧ (s'.depositors 3).drawn = 300 * 10 ^ 6)
      (by decide +kernel) ?_
    rintro s' - ⟨htotal, hthree⟩
    have hle := le_drawnOf s'.depositors 3
    unfold Utilised
    omega

end QuidProtocol.Stay
