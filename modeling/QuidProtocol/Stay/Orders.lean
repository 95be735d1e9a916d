import QuidProtocol.Stay.Crank
import QuidProtocol.Lib.ProRata

/-!
What the instructions of a depositor write.
The pledge behind one position.
Two depositors who ask for their whole balance at the same time.
-/

namespace QuidProtocol.Stay

open Lib Function

variable {e : Env} {after : Actuary} {s s' : State} {v : Vaults} {signer : Pubkey} {ticker : Ticker}
  {amount : ℤ} {now paid : ℕ}

variable {decimals price value : ℕ} {d d' : Depositor} {bank bank' : Depository} {fromPledges : Option (List ℕ)}

theorem handleIn_eq {amount ticker} (h : handleIn s signer amount decimals ticker now = .ok s') :
    ∃ customer credited, customer = { s.depositors signer with opened := true } ∧
      toAccounting amount decimals = .ok credited ∧
      ((ticker = none ∧
        s' = { s with bank := (poolDeposit customer s.bank credited now).2
                      depositors := update s.depositors signer
                        (poolDeposit customer s.bank credited now).1 }) ∨
      ∃ t pledged, ticker = some t ∧
        renegeOne { (accrueSeconds customer s.bank now).1 with lastUpdated := now } t (asI64 credited) 0 now =
          .ok pledged ∧
        s' = { s with bank := { (accrueSeconds customer s.bank now).2 with lastUpdated := now }
                      depositors := update s.depositors signer { pledged with lastUpdated := now } }) := by
  obtain ⟨-, credited, hcredited, h⟩ := of_require_bind h
  obtain ⟨-, h⟩ := of_require h
  refine ⟨_, credited, rfl, hcredited, ?_⟩
  cases ticker with
  | none => exact .inl ⟨rfl, ok_inj h⟩
  | some t =>
    obtain ⟨pledged, hpledged, h⟩ := of_bind h
    exact .inr ⟨t, pledged, rfl, hpledged, ok_inj h⟩

theorem renegeOne_eq (h : renegeOne d ticker amount price now = .ok d') :
    ∃ balances lastUpdated, d' = { d with balances, lastUpdated } ∧
      (lastUpdated = d.lastUpdated ∨ lastUpdated = now) := by
  unfold renegeOne at h
  split at h
  · obtain ⟨-, -, h⟩ := of_require₂ h
    obtain ⟨step, -, h⟩ := of_bind h
    exact ⟨_, now, ok_inj h, .inr rfl⟩
  · obtain ⟨-, -, h⟩ := of_require₂ h
    exact ⟨_, d.lastUpdated, ok_inj h, .inl rfl⟩

theorem adjustDepositSeconds_keeps (d bank base reduced now) :
    ∃ depositSeconds lastUpdated totalDepositSeconds, adjustDepositSeconds d bank base reduced now =
        ({ d with depositSeconds, lastUpdated }, { bank with totalDepositSeconds }) := by
  unfold adjustDepositSeconds
  dsimp only
  split_ifs
  · exact ⟨d.depositSeconds, d.lastUpdated, bank.totalDepositSeconds, rfl⟩
  all_goals exact ⟨_, now, _, rfl⟩

theorem payFromBalance_eq (h : payFromBalance d bank value now = .ok (d', bank')) :
    ∃ bank₁, min value d.depositedQuid ≤ bank.totalDeposits ∧
      bank₁.totalDeposits = bank.totalDeposits - min value d.depositedQuid ∧
      bank₁.totalDepositSeconds = bank.totalDepositSeconds ∧ bank₁.lastUpdated = bank.lastUpdated ∧
      bank' = (adjustDepositSeconds d bank₁ d.depositedQuid value now).2 ∧
      d' = { (adjustDepositSeconds d bank₁ d.depositedQuid value now).1 with
              depositedQuid := d.depositedQuid - min d.depositedQuid value, lastUpdated := now } := by
  obtain ⟨left, hleft, h⟩ := of_bind h
  obtain ⟨hle, hleft⟩ := checkedSub_eq_ok.mp hleft
  let bank₁ : Depository :=
    { bank with totalDeposits := left, yieldPool := bank.yieldPool - (value - min value d.depositedQuid) }
  obtain ⟨seconds, since, total, hkept⟩ := adjustDepositSeconds_keeps d bank₁ d.depositedQuid value now
  dsimp only at h
  rw [hkept] at h
  obtain ⟨hd', hbank'⟩ := ok_pair_inj h
  refine ⟨bank₁, hle, hleft.symm, rfl, rfl, ?_, ?_⟩
  · rw [hkept]
    exact hbank'.symm
  · rw [hkept]
    exact hd'.symm

theorem withdrawDollars_eq {asked} (h : withdrawDollars d bank asked now = .ok (d', bank', value)) :
    ∃ aged unmet, d.age now = .ok aged ∧
      payFromBalance aged (bank.deferRedemption unmet) value now = .ok (d', bank') := by
  obtain ⟨aged, haged, ⟨d₁, bank₁⟩, hpay, h⟩ := of_bind₂ h
  obtain ⟨hd', hrest⟩ := ok_pair_inj h
  obtain ⟨hbank', hvalue⟩ := Prod.mk.inj hrest
  rw [hd', hbank', hvalue] at hpay
  exact ⟨aged, _, haged, hpay⟩

theorem outDollars_eq {amount} (h : outDollars d bank amount fromPledges now = .ok (d', bank', value)) :
    ∃ balances, (d' = { d with balances } ∧ bank' = bank) ∨
      ∃ asked withdrawn, withdrawDollars { d with balances } bank asked now = .ok (d', bank', withdrawn) := by
  obtain ⟨⟨balances, rest⟩, -, h⟩ := of_bind h
  refine ⟨balances, ?_⟩
  dsimp only at h
  split_ifs at h
  · obtain ⟨hd', hrest⟩ := ok_pair_inj h
    exact .inl ⟨hd'.symm, (Prod.mk.inj hrest).1.symm⟩
  · obtain ⟨⟨d₁, bank₁, withdrawn⟩, hdraw, paid, -, h⟩ := of_bind₂ h
    obtain ⟨hd', hrest⟩ := ok_pair_inj h
    have hbank' := (Prod.mk.inj hrest).1
    dsimp only at hd' hbank'
    rw [hd', hbank'] at hdraw
    exact .inr ⟨rest.natAbs, withdrawn, hdraw⟩

theorem handleOutDollars_eq (h : handleOutDollars s v signer amount fromPledges now = .ok (s', paid)) :
    ∃ bank customer bank' value, s.bank.age now = .ok bank ∧
      outDollars (s.depositors signer) bank amount.natAbs fromPledges now = .ok (customer, bank', value) ∧
      s' = { s with bank := bank', depositors := update s.depositors signer customer } := by
  obtain ⟨-, -, h⟩ := of_require₂ h
  obtain ⟨bank, hbank, ⟨customer, bank', value⟩, hout, h⟩ := of_bind₂ h
  exact ⟨bank, customer, bank', value, hbank, hout, (ok_pair_inj h).1.symm⟩

theorem handleOutPledge_eq (h : handleOutPledge s v signer ticker amount price now = .ok (s', paid)) :
    ∃ bank customer, s.bank.age now = .ok bank ∧
      renegeOne (s.depositors signer) ticker amount price now = .ok customer ∧
      s' = { s with bank := bank, depositors := update s.depositors signer customer } := by
  obtain ⟨-, -, h⟩ := of_require₂ h
  obtain ⟨bank, hbank, customer, hcustomer, u'', -, h⟩ := of_bind₃ h
  exact ⟨bank, customer, hbank, hcustomer, (ok_pair_inj h).1.symm⟩

structure LeavesExposure (s s' : State) : Prop where
  risks : s'.risks = s.risks
  maxLiability : s'.bank.maxLiability = s.bank.maxLiability
  totalDrawn : s'.bank.totalDrawn = s.bank.totalDrawn
  drawn : ∀ key, (s'.depositors key).drawn = (s.depositors key).drawn

theorem drawn_update (h : d.drawn = (s.depositors signer).drawn) (key : Pubkey) :
    (update s.depositors signer d key).drawn = (s.depositors key).drawn := by
  by_cases hkey : key = signer
  · rw [hkey, update_self, h]
  · rw [update_of_ne hkey]

theorem handleIn_leaves {amount ticker}
    (h : handleIn s signer amount decimals ticker now = .ok s') : LeavesExposure s s' := by
  obtain ⟨customer, credited, rfl, -, ⟨-, rfl⟩ | ⟨t, pledged, -, hpledged, rfl⟩⟩ := handleIn_eq h
  · exact ⟨rfl, rfl, rfl, drawn_update rfl⟩
  · obtain ⟨balances, lastUpdated, rfl, -⟩ := renegeOne_eq hpledged
    exact ⟨rfl, rfl, rfl, drawn_update rfl⟩

theorem payFromBalance_leaves (h : payFromBalance d bank value now = .ok (d', bank')) :
    bank'.maxLiability = bank.maxLiability ∧ bank'.totalDrawn = bank.totalDrawn ∧ d'.drawn = d.drawn := by
  obtain ⟨left, -, h⟩ := of_bind h
  dsimp only at h
  obtain ⟨seconds, since, total, hkept⟩ := adjustDepositSeconds_keeps d { bank with
    totalDeposits := left, yieldPool := bank.yieldPool - (value - min value d.depositedQuid) } d.depositedQuid value now
  rw [hkept] at h
  cases h
  exact ⟨rfl, rfl, rfl⟩

theorem handleOutDollars_leaves
    (h : handleOutDollars s v signer amount fromPledges now = .ok (s', paid)) : LeavesExposure s s' := by
  obtain ⟨bank, customer, bank', value, hbank, hout, rfl⟩ := handleOutDollars_eq h
  have hage := bankAge_eq hbank
  obtain ⟨balances, ⟨rfl, rfl⟩ | ⟨asked, withdrawn, hdraw⟩⟩ := outDollars_eq hout
  · rw [hage]
    exact ⟨rfl, rfl, rfl, drawn_update rfl⟩
  · obtain ⟨aged, unmet, hcustomer, hpay⟩ := withdrawDollars_eq hdraw
    obtain ⟨hmax, htotal, hdrawn⟩ := payFromBalance_leaves hpay
    rw [hage] at hmax htotal
    rw [depositorAge_eq hcustomer] at hdrawn
    exact ⟨rfl, hmax, htotal, drawn_update hdrawn⟩

theorem handleOutPledge_leaves (h : handleOutPledge s v signer ticker amount price now = .ok (s', paid)) :
    LeavesExposure s s' := by
  obtain ⟨bank, customer, hbank, hcustomer, rfl⟩ := handleOutPledge_eq h
  obtain ⟨balances, lastUpdated, rfl, -⟩ := renegeOne_eq hcustomer
  rw [bankAge_eq hbank]
  exact ⟨rfl, rfl, rfl, drawn_update rfl⟩

structure Trades (e : Env) (s : State) (signer : Pubkey) (ticker : Ticker) (amount : ℤ) (t : Trade) : Prop where
  bank : s.bank.age e.now = .ok t.bank
  before : podOf (s.depositors signer).balances ticker = some t.before
  funding : fundPosition e.actuary e.price (s.depositors signer) (s.risks ticker) ticker = (t.funded, t.risk)
  traded : repo e t.funded t.bank ticker amount = .ok (t.traded, t.outcome)
  settled : t.settled = dispatchTrade t.outcome t.traded t.before (s.depositors signer).depositedQuid t.fee e.now

theorem tradeOf_eq {t} (h : tradeOf e s signer ticker amount = .ok t) : Trades e s signer ticker amount t := by
  obtain ⟨bank, hbank, before, hbefore, fee, hfee, ⟨traded, o⟩, hrepo, h⟩ := of_bind₄ h
  cases h
  exact ⟨hbank, found_eq_ok.mp hbefore, rfl, hrepo, rfl⟩

theorem handleOutTrade_eq (h : handleOutTrade e after s v signer ticker amount = .ok (s', paid)) :
    ∃ t, tradeOf e s signer ticker amount = .ok t ∧ paid = transferFromVaults v t.settled.payout ∧ s' = { s with
        bank := (reconcileTickerReserve after t.risk (bookPool t.outcome.desk.bank t.settled.gain)).2
        depositors := update s.depositors signer t.settled.customer
        risks := update s.risks ticker
          (reconcileTickerReserve after t.risk (bookPool t.outcome.desk.bank t.settled.gain)).1 } := by
  obtain ⟨-, -, h⟩ := of_require₂ h
  obtain ⟨t, ht, h⟩ := of_bind h
  obtain ⟨hs', hpaid⟩ := ok_pair_inj h
  exact ⟨t, ht, hpaid.symm, hs'.symm⟩

def fetchMultiplePrices (feed : Ticker → Res ℕ) : List Stock → Res (List ℕ)
  | [] => .ok []
  | pod :: rest => do
    let price ← feed pod.ticker
    let prices ← fetchMultiplePrices feed rest
    .ok (price :: prices)

def handleOutPledgeFed (s : State) (v : Vaults) (signer : Pubkey) (ticker : Ticker) (amount : ℤ)
    (feed : Ticker → Res ℕ) (now : ℕ) : Res (State × ℕ) := do
  let customer := s.depositors signer
  require .invalidAmount (amount < 0)
  require .invalidUser customer.opened
  let _ ← s.bank.age now
  let prices ← fetchMultiplePrices feed customer.balances
  -- `renege` on one ticker reads `prices.first()`, whichever position that belongs to
  handleOutPledge s v signer ticker amount (prices.headD 0) now

def releasedAt (pod : Stock) (price : ℕ) (amount : ℤ) : Res ℕ := do
  require .noPrice (¬ (pod.exposure ≠ 0 ∧ price = 0))
  require .invalidAmount (amount.natAbs ≤ pod.pledged)
  let step ← pledgeStep pod price amount
  require .undercollateralised (0 < min step.natAbs pod.pledged)
  .ok (min step.natAbs pod.pledged)

def pledgeReleased (s s' : State) (signer : Pubkey) (ticker : Ticker) : ℕ :=
  pledgedIn (s.depositors signer).balances ticker - pledgedIn (s'.depositors signer).balances ticker

section

variable {s s' : State} {v : Vaults} {signer : Pubkey} {ticker : Ticker} {amount : ℤ} {now paid price : ℕ}
  {feed : Ticker → Res ℕ} {balances : List Stock} {pod new first : Stock} {prices : List ℕ}
  {d d' : Depositor}

theorem podOf_eq_none (h : ticker ∉ balances.map Stock.ticker) : podOf balances ticker = none := by
  apply List.find?_eq_none.mpr
  intro pod hmem hticker
  exact h (List.mem_map.mpr ⟨pod, hmem, of_decide_eq_true hticker⟩)

theorem mem_prune_ticker (h : ticker ∈ (prune balances).map Stock.ticker) : ticker ∈ balances.map Stock.ticker := by
  obtain ⟨pod, hmem, rfl⟩ := List.mem_map.mp h
  exact List.mem_map_of_mem (List.mem_of_mem_filter hmem)

theorem podOf_prune_cons_of_ne (h : first.ticker ≠ ticker) (rest : List Stock) :
    podOf (prune (first :: rest)) ticker = podOf (prune rest) ticker := by
  unfold prune
  rw [List.filter_cons]
  split_ifs
  · exact podOf_cons_of_ne h _
  · rfl

section

variable (h : podOf balances ticker = some pod)

include h

theorem podOf_prune_putPod (hticker : new.ticker = ticker)
    (hkept : 0 < new.pledged ∨ new.exposure ≠ 0) : podOf (prune (putPod ticker new balances)) ticker = some new := by
  induction balances with
  | nil => cases h
  | cons first rest ih =>
    unfold putPod
    by_cases hfirst : first.ticker = ticker
    · rw [if_pos hfirst]
      unfold prune
      rw [List.filter_cons_of_pos (by simpa using hkept)]
      exact podOf_cons_of_eq hticker _
    · rw [podOf_cons_of_ne hfirst] at h
      rw [if_neg hfirst, podOf_prune_cons_of_ne hfirst]
      exact ih h

theorem podOf_prune_spent (hdistinct : (balances.map Stock.ticker).Nodup)
    (hspent : ¬ (0 < new.pledged ∨ new.exposure ≠ 0)) : podOf (prune (putPod ticker new balances)) ticker = none := by
  induction balances with
  | nil => cases h
  | cons first rest ih =>
    rw [List.map_cons, List.nodup_cons] at hdistinct
    unfold putPod
    by_cases hfirst : first.ticker = ticker
    · rw [if_pos hfirst]
      unfold prune
      rw [List.filter_cons_of_neg (by simpa using hspent)]
      apply podOf_eq_none
      intro hmem
      rw [hfirst] at hdistinct
      exact hdistinct.1 (mem_prune_ticker hmem)
    · rw [podOf_cons_of_ne hfirst] at h
      rw [if_neg hfirst, podOf_prune_cons_of_ne hfirst]
      exact ih h hdistinct.2

theorem pledgedIn_prune_putPod (hdistinct : (balances.map Stock.ticker).Nodup)
    (hticker : new.ticker = ticker) : pledgedIn (prune (putPod ticker new balances)) ticker = new.pledged := by
  unfold pledgedIn
  by_cases hkept : 0 < new.pledged ∨ new.exposure ≠ 0
  · rw [podOf_prune_putPod h hticker hkept]
    rfl
  · rw [podOf_prune_spent h hdistinct hkept]
    simp only [Option.map_none, Option.getD_none]
    omega

theorem pledgedIn_of_podOf : pledgedIn balances ticker = pod.pledged := by
  unfold pledgedIn
  rw [h]
  rfl

end

theorem renegeOne_found (hpod : podOf d.balances ticker = some pod) (h : renegeOne d ticker amount price now = .ok d') :
    ∃ step, ¬ (pod.exposure ≠ 0 ∧ price = 0) ∧ (amount < 0 → amount.natAbs ≤ pod.pledged) ∧
      pledgeStep pod price amount = .ok step ∧
      d'.balances = prune (putPod ticker (repledge pod (amount < 0) step now) d.balances) := by
  unfold renegeOne at h
  rw [hpod] at h
  obtain ⟨hpriced, hpledged, h⟩ := of_require₂ h
  obtain ⟨step, hstep, h⟩ := of_bind h
  cases h
  exact ⟨step, hpriced, hpledged, hstep, rfl⟩

section

variable (h : fetchMultiplePrices feed balances = .ok prices)

include h

theorem fetchMultiplePrices_eq : balances.map (fun pod => feed pod.ticker) = prices.map Except.ok := by
  induction balances generalizing prices with
  | nil =>
    cases h
    rfl
  | cons pod rest ih =>
    obtain ⟨price, hprice, others, hothers, h⟩ := of_bind₂ h
    rw [← Except.ok.inj h, List.map_cons, List.map_cons, hprice, ih hothers]

theorem feed_of_mem (hmem : pod ∈ balances) : ∃ price, feed pod.ticker = .ok price := by
  have hfed : feed pod.ticker ∈ prices.map Except.ok := by
    rw [← fetchMultiplePrices_eq h]
    exact List.mem_map_of_mem hmem
  obtain ⟨price, -, hprice⟩ := List.mem_map.mp hfed
  exact ⟨price, hprice.symm⟩

theorem feed_head (hfirst : balances.head? = some first) : feed first.ticker = .ok (prices.headD 0) := by
  obtain ⟨rest, rfl⟩ := List.head?_eq_some_iff.mp hfirst
  cases prices with
  | nil => exact absurd (fetchMultiplePrices_eq h) (by simp)
  | cons => exact (List.cons.inj (fetchMultiplePrices_eq h)).1

end

theorem handleOutPledge_released (hpod : podOf (s.depositors signer).balances ticker = some pod)
    (hdistinct : ((s.depositors signer).balances.map Stock.ticker).Nodup)
    (h : handleOutPledge s v signer ticker amount price now = .ok (s', paid)) :
    releasedAt pod price amount = .ok (pledgeReleased s s' signer ticker) := by
  obtain ⟨u, hneg, h⟩ := of_bind h
  obtain ⟨-, bank, -, h⟩ := of_require_bind h
  obtain ⟨customer, hcustomer, u'', hreleased, h⟩ := of_bind₂ h
  have hneg : amount < 0 := require_eq_ok.mp hneg
  have hs' := (ok_pair_inj h).1
  obtain ⟨step, hpriced, hcovered, hstep, hbalances⟩ := renegeOne_found hpod hcustomer
  have hticker : pod.ticker = ticker := podOf_ticker hpod
  have hafter : pledgedIn customer.balances ticker = pod.pledged - step.natAbs := by
    rw [hbalances, pledgedIn_prune_putPod hpod hdistinct (by exact hticker)]
    simp [repledge, hneg]
  have hfall : pledgeReleased s s' signer ticker = min step.natAbs pod.pledged := by
    unfold pledgeReleased
    rw [← hs']
    dsimp only
    rw [update_self, hafter, pledgedIn_of_podOf hpod]
    omega
  have hpos : 0 < min step.natAbs pod.pledged := by
    have hpos := require_eq_ok.mp hreleased
    rw [hafter, pledgedIn_of_podOf hpod] at hpos
    omega
  unfold releasedAt
  rw [require_of _ hpriced, ok_bind, require_of _ (hcovered hneg), ok_bind, hstep, ok_bind, require_of _ hpos, ok_bind,
    hfall]

theorem pledgeStep_flat (hflat : pod.exposure = 0) (price amount) : pledgeStep pod price amount = .ok amount := by
  unfold pledgeStep
  simp [hflat]

theorem releasedAt_flat (hflat : pod.exposure = 0) (price price' amount) :
    releasedAt pod price amount = releasedAt pod price' amount := by
  unfold releasedAt
  simp [hflat, pledgeStep_flat hflat]

/-- A pledge is released at the price of the position that is listed first. -/
theorem pledge_released_at_own_price (h : handleOutPledgeFed s v signer ticker amount feed now = .ok (s', paid))
    (hpod : podOf (s.depositors signer).balances ticker = some pod)
    (hdistinct : ((s.depositors signer).balances.map Stock.ticker).Nodup)
    (hfirst : (s.depositors signer).balances.head? = some first) :
    ∃ own listed, feed ticker = .ok own ∧ feed first.ticker = .ok listed ∧
      releasedAt pod listed amount = .ok (pledgeReleased s s' signer ticker) ∧
      (pod.exposure = 0 ∨ first.ticker = ticker ∨ listed = own →
        releasedAt pod own amount = .ok (pledgeReleased s s' signer ticker)) := by
  obtain ⟨-, -, h⟩ := of_require₂ h
  obtain ⟨bank, -, prices, hprices, h⟩ := of_bind₂ h
  obtain ⟨own, hown⟩ := feed_of_mem hprices (List.mem_of_find?_eq_some hpod)
  rw [podOf_ticker hpod] at hown
  have hlisted := feed_head hprices hfirst
  have hreleased := handleOutPledge_released hpod hdistinct h
  refine ⟨own, prices.headD 0, hown, hlisted, hreleased, ?_⟩
  rintro (hflat | hsame | hequal)
  · rw [releasedAt_flat hflat own (prices.headD 0), hreleased]
  · rw [hsame, hown] at hlisted
    rw [Except.ok.inj hlisted, hreleased]
  · rw [← hequal, hreleased]

end

def coveredShares : Stock := ⟨1, 500 * 10 ^ 6, 5 * 10 ^ 6, 9000, 1000, 0, 0, 500 * 10 ^ 6, 0⟩

def borrowerState (balances : List Stock) : State :=
  { State.empty with
    bank := ⟨9999, 1000 * 10 ^ 6, 0, 500 * 10 ^ 6, 0, 100 * 10 ^ 6, 0, 0, 0⟩
    depositors := update State.empty.depositors 1 ⟨true, 0, 0, 9999, 500 * 10 ^ 6, balances⟩ }

def twoPrices (ticker : Ticker) : Res ℕ := .ok (if ticker = 1 then 100 * 10 ^ 6 else 101 * 10 ^ 6)

def askPledge (balances : List Stock) : Res (State × ℕ) :=
  handleOutPledgeFed (borrowerState balances) ⟨10 ^ 12, []⟩ 1 1 (-500 * 10 ^ 6) twoPrices 10000

theorem pledge_released_at_own_price_first : ∃ s' paid, askPledge [coveredShares, flatPledge] = .ok (s', paid) ∧
      releasedAt coveredShares (100 * 10 ^ 6) (-500 * 10 ^ 6) =
        .ok (pledgeReleased (borrowerState [coveredShares, flatPledge]) s' 1 1) := by
  obtain ⟨⟨s', paid⟩, h⟩ : ∃ r, askPledge [coveredShares, flatPledge] = .ok r := by decide +kernel
  have hpod : podOf ((borrowerState [coveredShares, flatPledge]).depositors 1).balances 1 =
      some coveredShares := by decide +kernel
  have hfirst : ((borrowerState [coveredShares, flatPledge]).depositors 1).balances.head? =
      some coveredShares := by decide +kernel
  obtain ⟨own, listed, hown, -, -, hreleased⟩ := pledge_released_at_own_price h hpod (by decide +kernel) hfirst
  refine ⟨s', paid, h, ?_⟩
  have hprice : 100 * 10 ^ 6 = own := Except.ok.inj hown
  rw [hprice]
  exact hreleased (.inr (.inl rfl))

theorem pledge_released_at_other_price : (∃ s' paid, askPledge [coveredShares, flatPledge] = .ok (s', paid) ∧
      pledgeReleased (borrowerState [coveredShares, flatPledge]) s' 1 1 = 50 * 10 ^ 6) ∧
    ∃ s' paid, askPledge [flatPledge, coveredShares] = .ok (s', paid) ∧
      pledgeReleased (borrowerState [flatPledge, coveredShares]) s' 1 1 = 45 * 10 ^ 6 := by
  decide +kernel

section

variable {s : State} {signer : Pubkey} {ticker : Ticker} {pod : Stock} {amount decimals credited now : ℕ}

theorem repledge_raises (hroom : pod.pledged + credited < 2 ^ 64) (now : ℕ) :
    (repledge pod false credited now).pledged = pod.pledged + credited := by
  have hcast : asU64 (credited : ℤ) = credited := by
    unfold asU64
    omega
  simp [repledge, hcast, sat_of_lt hroom]

theorem renegeOne_flat {d} (hpod : podOf d.balances ticker = some pod) (hflat : pod.exposure = 0)
    (hpos : 0 < credited) (hfits : credited < 2 ^ 63) (hroom : pod.pledged + credited < 2 ^ 64) (now : ℕ) :
    ∃ d', renegeOne d ticker (asI64 credited) 0 now = .ok d' ∧
      pledgedIn d'.balances ticker = pod.pledged + credited := by
  have hnonneg : ¬ (credited : ℤ) < 0 := by omega
  have hraised := repledge_raises hroom now
  refine ⟨{ d with lastUpdated := now
                   balances := prune (putPod ticker (repledge pod false credited now) d.balances) }, ?_, ?_⟩
  · unfold renegeOne
    rw [hpod, asI64_of_lt hfits]
    dsimp only
    rw [require_of _ (by simp [hflat]), ok_bind, require_of _ (fun h => absurd h hnonneg), ok_bind,
      pledgeStep_flat hflat, ok_bind, decide_eq_false hnonneg]
  · have hticker : pod.ticker = ticker := podOf_ticker hpod
    dsimp only
    rw [pledgedIn_of_podOf (podOf_prune_putPod hpod (by exact hticker) (.inl (by omega))), hraised]

/-- Collateral is accepted just when the position has no exposure: `handle_in` hands no price to `renege`. -/
theorem collateral_added_iff (hpod : podOf (s.depositors signer).balances ticker = some pod)
    (hamount : 100000000 ≤ amount) (hcredited : toAccounting amount decimals = .ok credited) (hpos : 0 < credited)
    (hfits : credited < 2 ^ 63) (hroom : pod.pledged + credited < 2 ^ 64) :
    (∃ s', handleIn s signer amount decimals (some ticker) now = .ok s' ∧
      pledgedIn (s'.depositors signer).balances ticker = pod.pledged + credited) ↔ pod.exposure = 0 := by
  constructor
  · rintro ⟨s', h, -⟩
    obtain ⟨customer, credited', rfl, -, ⟨hnone, -⟩ | ⟨t, pledged, ht, hrenege, -⟩⟩ := handleIn_eq h
    · cases hnone
    · cases ht
      have hfound : podOf (accrueSeconds { s.depositors signer with opened := true } s.bank now).1.balances ticker =
          some pod := hpod
      obtain ⟨step, hpriced, -⟩ := renegeOne_found (by exact hfound) hrenege
      by_contra hopen
      exact hpriced ⟨hopen, rfl⟩
  · intro hflat
    obtain ⟨customer, hrenege, hraised⟩ := renegeOne_flat
      (d := { (accrueSeconds { s.depositors signer with opened := true } s.bank now).1 with lastUpdated := now })
      hpod hflat hpos hfits hroom now
    refine ⟨{ s with
      bank := { (accrueSeconds { s.depositors signer with opened := true } s.bank now).2 with lastUpdated := now }
      depositors := update s.depositors signer { customer with lastUpdated := now } }, ?_, ?_⟩
    · unfold handleIn
      rw [require_of _ hamount, ok_bind, hcredited, ok_bind, require_of _ hpos, ok_bind]
      exact bind_eq_ok.mpr ⟨customer, hrenege, rfl⟩
    · dsimp only
      rw [update_self]
      exact hraised

end

theorem collateral_added_flat : ∃ s', handleIn (borrowerState [flatPledge]) 1 (100 * 10 ^ 6) 6 (some 2) 10000 = .ok s' ∧
      pledgedIn (s'.depositors 1).balances 2 = flatPledge.pledged + 100 * 10 ^ 6 := by
  have hpod : podOf ((borrowerState [flatPledge]).depositors 1).balances 2 = some flatPledge := by
    decide +kernel
  exact (collateral_added_iff hpod (by decide) (by decide +kernel) (by decide) (by decide) (by decide)).mpr rfl

theorem collateral_refused :
    handleIn (borrowerState [coveredShares]) 1 (100 * 10 ^ 6) 6 (some 1) 10000 = .error .noPrice := by
  decide +kernel

def redeemAll (s : State) (v : Vaults) (key : Pubkey) (now : ℕ) : Res (State × ℕ) :=
  handleOutDollars s v key (-(s.depositors key).depositedQuid) none now

def Depository.backing (bank : Depository) : ℕ := bank.totalDeposits + bank.yieldPool

def shareOf (s : State) (key : Pubkey) : ℕ :=
  prorated (s.depositors key).depositedQuid s.bank.withdrawable s.bank.backing

def NoEarnings (s : State) (key : Pubkey) (now : ℕ) : Prop :=
  s.bank.yieldPool = 0 ∨
    (s.depositors key).depositSeconds + (now - (s.depositors key).lastUpdated) * (s.depositors key).depositedQuid = 0

def Vaults.Covers (v : Vaults) (due : ℕ) : Prop := transferFromVaults v due = due
  deriving Decidable

section

variable {s s' s₁ s₂ t₁ t₂ : State} {v v₁ v₂ w₁ w₂ : Vaults} {key a b : Pubkey} {now paid : ℕ} {d d' : Depositor}
  {bank bank' : Depository} {value : ℕ}

theorem earnedOf_eq_zero (h : bank.yieldPool = 0 ∨ d.depositSeconds = 0) : earnedOf d bank = 0 := by
  have hnone : (if 0 < bank.totalDepositSeconds ∧ 0 < bank.yieldPool then
      min (sat128 (d.depositSeconds * bank.yieldPool) / bank.totalDepositSeconds) bank.yieldPool else 0) = 0 := by
    split_ifs with hpool
    · obtain hyield | hseconds := h
      · omega
      · simp [hseconds, sat128]
    · rfl
  unfold earnedOf
  simp [hnone, sat]

theorem withdrawable_le_backing (hfits : bank.backing < 2 ^ 64) : bank.withdrawable ≤ bank.backing := by
  unfold Depository.withdrawable
  unfold Depository.backing at hfits ⊢
  rw [sat_of_lt hfits]
  omega

theorem payable_eq (hearned : earnedOf d bank = 0) (hfits : bank.backing < 2 ^ 64) (hquid : d.depositedQuid < 2 ^ 64) :
    (payable d bank d.depositedQuid).2 = prorated d.depositedQuid bank.withdrawable bank.backing := by
  have hfree := withdrawable_le_backing hfits
  have hshare : prorated d.depositedQuid bank.withdrawable bank.backing ≤ d.depositedQuid := prorated_le hfree
  have hproduct : d.depositedQuid * bank.withdrawable < 2 ^ 128 :=
    calc d.depositedQuid * bank.withdrawable ≤ d.depositedQuid * 2 ^ 64 := Nat.mul_le_mul_left _ (by omega)
      _ < 2 ^ 64 * 2 ^ 64 := Nat.mul_lt_mul_of_pos_right hquid (by norm_num)
  have hsat128 : sat128 (d.depositedQuid * bank.withdrawable) = d.depositedQuid * bank.withdrawable := by
    unfold sat128
    omega
  have hpart : (if 0 < bank.backing then
      sat (sat128 (d.depositedQuid * bank.withdrawable) / bank.backing) else 0) =
        prorated d.depositedQuid bank.withdrawable bank.backing := by
    split_ifs with hpos
    · rw [hsat128]
      exact sat_of_lt (by unfold prorated at hshare; omega)
    · simp [prorated, Nat.eq_zero_of_not_pos hpos]
  unfold payable
  unfold Depository.backing at hfits hpart hshare ⊢
  dsimp only
  rw [hearned, Nat.add_zero, sat_of_lt hquid, sat_of_lt hfits, hpart, min_self]
  exact min_eq_right hshare

theorem payFromBalance_bank (h : payFromBalance d bank value now = .ok (d', bank')) (hle : value ≤ d.depositedQuid) :
    bank'.totalDeposits = bank.totalDeposits - value ∧ value ≤ bank.totalDeposits ∧
      bank'.yieldPool = bank.yieldPool ∧ bank'.maxLiability = bank.maxLiability ∧
      bank'.paperInTransit = bank.paperInTransit := by
  obtain ⟨hcovered, h⟩ := of_checkedSub h
  rw [min_eq_left hle] at h hcovered
  obtain ⟨seconds, since, total, hkept⟩ := adjustDepositSeconds_keeps d
    { bank with totalDeposits := bank.totalDeposits - value, yieldPool := bank.yieldPool - (value - value) }
    d.depositedQuid value now
  dsimp only at h
  rw [hkept] at h
  cases h
  exact ⟨rfl, hcovered, by simp, rfl, rfl⟩

structure Redeemed (s s' : State) (key : Pubkey) : Prop where
  totalDeposits : s'.bank.totalDeposits = s.bank.totalDeposits - shareOf s key
  covered : shareOf s key ≤ s.bank.totalDeposits
  yieldPool : s'.bank.yieldPool = s.bank.yieldPool
  maxLiability : s'.bank.maxLiability = s.bank.maxLiability
  paperInTransit : s'.bank.paperInTransit = s.bank.paperInTransit
  others : ∀ other, other ≠ key → s'.depositors other = s.depositors other

theorem outDollars_none {amount} (hpos : 0 < amount) (h : outDollars d bank amount none now = .ok (d', bank', paid)) :
    withdrawDollars d bank amount now = .ok (d', bank', paid) := by
  obtain ⟨r, hr, h⟩ := of_bind h
  cases hr
  dsimp only at h
  rw [if_neg (by omega)] at h
  obtain ⟨x, hx, h⟩ := of_bind h
  obtain ⟨-, h⟩ := of_checkedAdd h
  rw [Int.natAbs_natCast, Nat.sub_self, Nat.zero_add] at h
  cases h
  exact hx

theorem withdrawDollars_paid {asked} (h : withdrawDollars d bank asked now = .ok (d', bank', paid)) :
    ∃ aged, d.age now = .ok aged ∧ paid = (payable aged bank asked).2 ∧
      ∃ unmet, payFromBalance aged (bank.deferRedemption unmet) paid now = .ok (d', bank') := by
  obtain ⟨aged, haged, x, hpay, h⟩ := of_bind₂ h
  obtain ⟨rfl, hrest⟩ := ok_pair_inj h
  obtain ⟨rfl, rfl⟩ := Prod.mk.inj hrest
  exact ⟨aged, haged, rfl, _, hpay⟩

theorem redeemAll_eq (h : redeemAll s v key now = .ok (s', paid)) (hnone : NoEarnings s key now)
    (hfits : s.bank.backing < 2 ^ 64) (hquid : (s.depositors key).depositedQuid ≤ s.bank.backing) :
    Redeemed s s' key ∧ paid = transferFromVaults v (shareOf s key) := by
  obtain ⟨u, hneg, h⟩ := of_bind h
  obtain ⟨-, bank, hbank, h⟩ := of_require_bind h
  obtain ⟨⟨customer, bank', due⟩, hout, h⟩ := of_bind h
  cases h
  rw [Int.natAbs_neg, Int.natAbs_natCast] at hout
  have hpos : 0 < (s.depositors key).depositedQuid := by
    have hneg := require_eq_ok.mp hneg
    omega
  obtain ⟨aged, haged, hdue, unmet, hpay⟩ := withdrawDollars_paid (outDollars_none hpos hout)
  -- neither clock moves what is free
  have hsame := bankAge_eq hbank
  have hfree : bank.withdrawable = s.bank.withdrawable := by rw [hsame]; rfl
  have hbacking : bank.backing = s.bank.backing := by rw [hsame]; rfl
  have hage := depositorAge_eq haged
  have haquid : aged.depositedQuid = (s.depositors key).depositedQuid := by rw [hage]
  have hearned : earnedOf aged bank = 0 := by
    apply earnedOf_eq_zero
    rw [hsame, hage]
    exact hnone
  rw [← haquid, payable_eq hearned (by omega) (by omega), hfree, hbacking, haquid] at hdue
  have hle : due ≤ aged.depositedQuid := by
    rw [hdue, haquid]
    exact prorated_le (withdrawable_le_backing hfits)
  obtain ⟨htotal, hcovered, hyield, hliability, htransit⟩ := payFromBalance_bank hpay hle
  have hdeposits : (bank.deferRedemption unmet).totalDeposits = s.bank.totalDeposits := by rw [hsame]; rfl
  rw [hdeposits] at htotal hcovered
  rw [hdue] at htotal hcovered
  refine ⟨⟨htotal, hcovered, ?_, ?_, ?_, ?_⟩, by rw [hdue]; rfl⟩
  · rw [hyield, hsame]
    rfl
  · rw [hliability, hsame]
    rfl
  · rw [htransit, hsame]
    rfl
  · intro other hother
    exact Function.update_of_ne hother _ _

theorem Redeemed.share_after (h : Redeemed s s' key) (hfits : s.bank.backing < 2 ^ 64) {other} (hother : other ≠ key) :
    shareOf s' other = prorated (s.depositors other).depositedQuid (s.bank.withdrawable - shareOf s key)
      (s.bank.backing - shareOf s key) := by
  have hcovered := h.covered
  have hbacking : s'.bank.backing = s.bank.backing - shareOf s key := by
    unfold Depository.backing
    rw [h.totalDeposits, h.yieldPool]
    omega
  have hfree : s'.bank.withdrawable = s.bank.withdrawable - shareOf s key := by
    unfold Depository.backing at hfits
    unfold Depository.withdrawable
    rw [h.totalDeposits, h.yieldPool, h.maxLiability, h.paperInTransit, sat_of_lt (by omega), sat_of_lt (by omega)]
    omega
  unfold shareOf at hbacking hfree ⊢
  rw [hbacking, hfree, h.others other hother]

def LeavesShare (s : State) (first second : Pubkey) : Prop :=
  (s.depositors second).depositedQuid * shareOf s first * (s.bank.backing - s.bank.withdrawable) ≤
    s.bank.backing * (s.bank.backing - shareOf s first)

theorem second_within_rounding {later} (hab : a ≠ b) (ha : NoEarnings s a now) (hb : NoEarnings s b now)
    (hfits : s.bank.backing < 2 ^ 64)
    (hquid : (s.depositors a).depositedQuid + (s.depositors b).depositedQuid ≤ s.bank.backing)
    (hpos : 0 < (s.depositors b).depositedQuid) (hfirst : redeemAll s v₁ a now = .ok (s₁, paid))
    (hsecond : redeemAll s₁ v₂ b now = .ok (s₂, later)) (hcovers : v₂.Covers (shareOf s₁ b))
    (hshare : LeavesShare s a b) : later ≤ shareOf s b ∧ shareOf s b ≤ later + 1 := by
  have hfree := withdrawable_le_backing hfits
  obtain ⟨hredeemed, -⟩ := redeemAll_eq hfirst ha hfits (by omega)
  have hclaim : shareOf s a ≤ (s.depositors a).depositedQuid := prorated_le hfree
  have hout : shareOf s a ≤ s.bank.withdrawable := prorated_le_free (by omega)
  have hbacking : s₁.bank.backing = s.bank.backing - shareOf s a := by
    have hcovered := hredeemed.covered
    unfold Depository.backing
    rw [hredeemed.totalDeposits, hredeemed.yieldPool]
    omega
  have hown := hredeemed.others b hab.symm
  have hb₁ : NoEarnings s₁ b now := by
    unfold NoEarnings
    rw [hown, hredeemed.yieldPool]
    exact hb
  obtain ⟨-, hpaid⟩ := redeemAll_eq hsecond hb₁ (by omega) (by rw [hown]; omega)
  rw [hcovers, hredeemed.share_after hfits hab.symm] at hpaid
  rw [hpaid]
  exact ⟨prorated_after_le hfree, prorated_le_after hfree hout (by omega) hshare⟩

/-- Two depositors are paid the same in either order, but for the rounding, when each leaves the other its share. -/
theorem redemption_order_within_rounding {a₁ a₂ b₁ b₂ : ℕ} (hab : a ≠ b) (ha : NoEarnings s a now)
    (hb : NoEarnings s b now) (hfits : s.bank.backing < 2 ^ 64)
    (hquid : (s.depositors a).depositedQuid + (s.depositors b).depositedQuid ≤ s.bank.backing)
    (hfirst : redeemAll s v₁ a now = .ok (s₁, a₁)) (hsecond : redeemAll s₁ v₂ b now = .ok (s₂, b₂))
    (hfirst' : redeemAll s w₁ b now = .ok (t₁, b₁)) (hsecond' : redeemAll t₁ w₂ a now = .ok (t₂, a₂))
    (hv₁ : v₁.Covers (shareOf s a)) (hv₂ : v₂.Covers (shareOf s₁ b)) (hw₁ : w₁.Covers (shareOf s b))
    (hw₂ : w₂.Covers (shareOf t₁ a)) (hleaves : LeavesShare s a b) (hleaves' : LeavesShare s b a) :
    (a₂ ≤ a₁ ∧ a₁ ≤ a₂ + 1) ∧ (b₂ ≤ b₁ ∧ b₁ ≤ b₂ + 1) := by
  have hpositive {key : Pubkey} {v : Vaults} {s' : State} {paid : ℕ} (h : redeemAll s v key now = .ok (s', paid)) :
      0 < (s.depositors key).depositedQuid := by
    obtain ⟨u, hneg, -⟩ := of_bind h
    have hneg := require_eq_ok.mp hneg
    omega
  have hpaid : a₁ = shareOf s a := by
    rw [(redeemAll_eq hfirst ha hfits (by omega)).2]
    exact hv₁
  have hpaid' : b₁ = shareOf s b := by
    rw [(redeemAll_eq hfirst' hb hfits (by omega)).2]
    exact hw₁
  rw [hpaid, hpaid']
  constructor
  · exact second_within_rounding hab.symm hb ha hfits (by omega) (hpositive hfirst) hfirst' hsecond' hw₂ hleaves'
  · exact second_within_rounding hab ha hb hfits hquid (hpositive hfirst') hfirst hsecond hv₂ hleaves

end

def twoDepositors (reserved : ℕ) : State :=
  { State.empty with
    bank := ⟨1, 200 * 10 ^ 6, 0, 0, 0, reserved, 0, 0, 0⟩
    depositors := Function.update (Function.update State.empty.depositors 1 ⟨true, 100 * 10 ^ 6, 0, 1, 0, []⟩)
      2 ⟨true, 100 * 10 ^ 6, 0, 1, 0, []⟩ }

def bothRedeem (s : State) (v : Vaults) (first second : Pubkey) : Res (State × ℕ × State × ℕ) := do
  let r ← redeemAll s v first 2
  let r' ← redeemAll r.1 v second 2
  .ok (r.1, r.2, r'.1, r'.2)

theorem bothRedeem_eq {s s₁ s₂ v first second x y} (h : bothRedeem s v first second = .ok (s₁, x, s₂, y)) :
    redeemAll s v first 2 = .ok (s₁, x) ∧ redeemAll s₁ v second 2 = .ok (s₂, y) := by
  obtain ⟨⟨t₁, x'⟩, hr, ⟨t₂, y'⟩, hr', h⟩ := of_bind₂ h
  injection h with h
  injection h with hs₁ h
  injection h with hx h
  injection h with hs₂ hy
  rw [← hs₁, ← hx, ← hs₂, ← hy]
  exact ⟨hr, hr'⟩

theorem redemption_order_unreserved : ∃ s₁ s₂ t₁ t₂ : State, ∃ a₁ a₂ b₁ b₂ : ℕ,
    bothRedeem (twoDepositors 0) ⟨10 ^ 12, []⟩ 1 2 = .ok (s₁, a₁, s₂, b₂) ∧
      bothRedeem (twoDepositors 0) ⟨10 ^ 12, []⟩ 2 1 = .ok (t₁, b₁, t₂, a₂) ∧
      (a₂ ≤ a₁ ∧ a₁ ≤ a₂ + 1) ∧ (b₂ ≤ b₁ ∧ b₁ ≤ b₂ + 1) := by
  obtain ⟨⟨s₁, a₁, s₂, b₂⟩, h, hv₂⟩ : ∃ r, bothRedeem (twoDepositors 0) ⟨10 ^ 12, []⟩ 1 2 = .ok r ∧
      Vaults.Covers ⟨10 ^ 12, []⟩ (shareOf r.1 2) := by
    decide +kernel
  obtain ⟨⟨t₁, b₁, t₂, a₂⟩, h', hw₂⟩ : ∃ r, bothRedeem (twoDepositors 0) ⟨10 ^ 12, []⟩ 2 1 = .ok r ∧
      Vaults.Covers ⟨10 ^ 12, []⟩ (shareOf r.1 1) := by
    decide +kernel
  refine ⟨s₁, s₂, t₁, t₂, a₁, a₂, b₁, b₂, h, h', ?_⟩
  apply redemption_order_within_rounding (s := twoDepositors 0) (a := 1) (b := 2)
    (by decide +kernel) (.inl rfl) (.inl rfl) (by decide +kernel) (by decide +kernel) (bothRedeem_eq h).1
    (bothRedeem_eq h).2 (bothRedeem_eq h').1 (bothRedeem_eq h').2 (by decide +kernel) hv₂ (by decide +kernel) hw₂
  all_goals
    unfold LeavesShare
    decide +kernel

theorem first_redeemer_gains : ∃ s₁ s₂ t₁ t₂ : State,
    bothRedeem (twoDepositors (100 * 10 ^ 6)) ⟨10 ^ 12, []⟩ 1 2 = .ok (s₁, 50 * 10 ^ 6, s₂, 33333333) ∧
      bothRedeem (twoDepositors (100 * 10 ^ 6)) ⟨10 ^ 12, []⟩ 2 1 =
        .ok (t₁, 50 * 10 ^ 6, t₂, 33333333) ∧ ¬ 50 * 10 ^ 6 ≤ 33333333 + 1 := by
  obtain ⟨⟨s₁, x, s₂, y⟩, h, hx, hy⟩ : ∃ r, bothRedeem (twoDepositors (100 * 10 ^ 6)) ⟨10 ^ 12, []⟩ 1
      2 = .ok r ∧ r.2.1 = 50 * 10 ^ 6 ∧ r.2.2.2 = 33333333 := by
    decide +kernel
  obtain ⟨⟨t₁, x', t₂, y'⟩, h', hx', hy'⟩ : ∃ r, bothRedeem (twoDepositors (100 * 10 ^ 6)) ⟨10 ^ 12, []⟩ 2
      1 = .ok r ∧ r.2.1 = 50 * 10 ^ 6 ∧ r.2.2.2 = 33333333 := by
    decide +kernel
  dsimp only at hx hy hx' hy'
  exact ⟨s₁, s₂, t₁, t₂, hx ▸ hy ▸ h, hx' ▸ hy' ▸ h', by decide⟩

end QuidProtocol.Stay
