import QuidProtocol.Stay.Liquidation
import QuidProtocol.Stay.Orders

/-!
The premiums that liquidations and sweeps book, against those that they take off the pledges; and what a trade pays out.
What a sweep leaves of an account that it passes over: the funding that was settled before it was judged.
-/

namespace QuidProtocol.Stay

open Lib Function

def uncollected (e : Env) (d : Depositor) (bank : Depository) (ticker : Ticker) (own : Bool) : ℕ :=
  match podOf d.balances ticker with
  | none => 0
  | some pod =>
    let k : Desk := ⟨pod, d.depositedQuid, d.drawn, bank⟩
    if own ∨ marginCalled k (quote e k 0) 0 then (quote e k 0).accrued else 0

def booksVisit (e : Env) (ticker : Ticker) (x : Sweep) (v : Visit) : Bool :=
  (x.depositors v.key).opened &&
    okAnd (x.crank e ticker v)
      fun r => r.2.delta ≠ 0 ∨ breached r.1 ticker

def visitUncollected (e : Env) (cranker : Pubkey) (ticker : Ticker) (x : Sweep) (v : Visit) : ℕ :=
  if booksVisit e ticker x v then
    uncollected { e with actuary := v.actuary }
      (x.funded e ticker v).1 x.bank ticker (v.key = cranker)
  else 0

def VisitCollects (e : Env) (cranker : Pubkey) (ticker : Ticker) (x : Sweep) (v : Visit) : Prop :=
  visitUncollected e cranker ticker x v = 0

def visit (e : Env) (ticker : Ticker) (x : Sweep) (v : Visit) : Res Sweep := .ok (sweepOne e ticker x v)

def Collects (s : State) : Instruction → Prop
  | .amortise e _ borrower liquidator ticker _ =>
    uncollected e (s.depositors borrower) s.bank ticker (borrower = liquidator) = 0
  | .handleSweep e cranker ticker visits =>
    EveryStep (visit e ticker) (VisitCollects e cranker ticker) (Sweep.start e s ticker) visits
  | _ => True

def Collected (s : State) : Prop := ∀ key ticker, s.booked key ticker = s.charged key ticker

section

variable {e : Env} {d d' : Depositor} {bank : Depository} {ticker : Ticker} {o : Outcome}

theorem interest_eq_add (hrepo : repo e d bank ticker 0 = .ok (d', o)) (own : Bool) :
    o.interest = (if own then 0 else o.charged) + uncollected e d bank ticker own := by
  obtain ⟨pod, hpod, hcrank, -⟩ := repo_eq_ok hrepo
  have hcranked := crank_cases hcrank
  unfold uncollected
  rw [hpod, hcranked.interest_eq, hcranked.charged_eq, premium]
  dsimp only
  cases own with
  | true => simp
  | false =>
    simp only [Bool.false_eq_true, if_false, false_or]
    split_ifs
    · rw [Nat.zero_add]
    · rfl

theorem bump_apply (f : Pubkey → Ticker → ℕ) (key key' ticker ticker' n) :
    bump f key ticker n key' ticker' = f key' ticker' + if key' = key ∧ ticker' = ticker then n else 0 := by
  unfold bump
  by_cases hkey : key' = key
  · obtain rfl := hkey
    rw [update_self]
    by_cases hticker : ticker' = ticker
    · obtain rfl := hticker
      simp
    · simp [hticker]
  · simp [hkey]

def ahead (kept : Pubkey → Ticker → ℕ) (cranker : Pubkey) (x : Sweep) (key : Pubkey) (ticker : Ticker) : ℤ :=
  x.booked key ticker - update x.charged cranker (kept cranker) key ticker

theorem ahead_sweepOne (kept : Pubkey → Ticker → ℕ) (cranker e ticker x v key ticker') :
    ahead kept cranker (sweepOne e ticker x v) key ticker' = ahead kept cranker x key ticker' +
      if key = v.key ∧ ticker' = ticker then (visitUncollected e cranker ticker x v : ℤ) else 0 := by
  unfold visitUncollected
  generalize hx' : sweepOne e ticker x v = x'
  have hswept := sweepOne_cases e ticker x v
  rw [hx'] at hswept
  cases hswept with
  | closed hclosed => simp [booksVisit, hclosed]
  | failed hopen hrepo => simp [booksVisit, hrepo, okAnd, ahead]
  | @quiet d o hopen hrepo hquiet =>
    have hbooks : booksVisit e ticker x v = false := by simpa [booksVisit, hrepo, okAnd, hopen] using hquiet
    simp [hbooks, ahead]
  | @booked d o d' risk bank hopen hrepo hmoved hbook =>
    have hbooks : booksVisit e ticker x v = true := by simpa [booksVisit, hrepo, okAnd, hopen] using hmoved
    have hinterest := interest_eq_add hrepo (v.key = cranker)
    rw [if_pos hbooks]
    unfold ahead
    dsimp only
    by_cases hkey : key = cranker
    · obtain rfl := hkey
      rw [update_self, update_self, bump_apply]
      by_cases hat : key = v.key ∧ ticker' = ticker
      · rw [if_pos hat, if_pos hat]
        simp only [hat.1, decide_true, if_true] at hinterest ⊢
        omega
      · rw [if_neg hat, if_neg hat]
        omega
    · rw [update_of_ne hkey, update_of_ne hkey, bump_apply, bump_apply]
      by_cases hat : key = v.key ∧ ticker' = ticker
      · rw [if_pos hat, if_pos hat, if_pos hat]
        have hother : ¬ v.key = cranker := hat.1 ▸ hkey
        simp only [hother, decide_false, Bool.false_eq_true, if_false] at hinterest ⊢
        omega
      · rw [if_neg hat, if_neg hat, if_neg hat]
        omega

theorem sweep_ahead_iff (kept : Pubkey → Ticker → ℕ) (cranker e ticker x)
    (visits : List Visit) (hahead : ∀ key ticker, 0 ≤ ahead kept cranker x key ticker) :
    (∀ key ticker', ahead kept cranker (visits.foldl (sweepOne e ticker) x) key ticker' = 0) ↔
      (∀ key ticker', ahead kept cranker x key ticker' = 0) ∧
        EveryStep (visit e ticker) (VisitCollects e cranker ticker) x visits := by
  induction visits generalizing x with
  | nil => exact ⟨fun h => ⟨h, trivial⟩, fun h => h.1⟩
  | cons v visits ih =>
    have hstep := ahead_sweepOne kept cranker e ticker x v
    have hahead' : ∀ key ticker', 0 ≤ ahead kept cranker (sweepOne e ticker x v) key ticker' := by
      intro key ticker'
      rw [hstep]
      have hbefore := hahead key ticker'
      split_ifs
      · omega
      · omega
    rw [List.foldl_cons, ih (sweepOne e ticker x v) hahead']
    constructor
    · rintro ⟨hzero, hlater⟩
      have hcollects : VisitCollects e cranker ticker x v := by
        have hkey := hzero v.key ticker
        have hbefore := hahead v.key ticker
        rw [hstep, if_pos ⟨rfl, rfl⟩] at hkey
        unfold VisitCollects
        omega
      refine ⟨fun key ticker' => ?_, hcollects, fun x' hx' => ?_⟩
      · have hkey := hzero key ticker'
        rw [hstep, hcollects] at hkey
        simpa using hkey
      · cases hx'
        exact hlater
    · rintro ⟨hzero, hcollects, hlater⟩
      refine ⟨fun key ticker' => ?_, hlater _ rfl⟩
      rw [hstep, hzero, hcollects]
      simp

theorem handleSweep_collected_iff {s} (cranker e ticker) (visits : List Visit)
    (hs : Collected s) : Collected (handleSweep e s cranker ticker visits) ↔
      EveryStep (visit e ticker) (VisitCollects e cranker ticker) (Sweep.start e s ticker) visits := by
  have hstart : ∀ key ticker', ahead s.charged cranker (Sweep.start e s ticker) key ticker' = 0 := by
    intro key ticker'
    have hkept : update s.charged cranker (s.charged cranker) = s.charged := update_eq_self _ _
    have hkey := hs key ticker'
    change (s.booked key ticker' : ℤ) - update s.charged cranker (s.charged cranker) key ticker' = 0
    rw [hkept]
    omega
  have hiff := sweep_ahead_iff s.charged cranker e ticker (Sweep.start e s ticker) visits
    fun key ticker' => (hstart key ticker').ge
  constructor
  · intro h
    apply (hiff.mp _).2
    intro key ticker'
    exact sub_eq_zero.mpr (congrArg Nat.cast (h key ticker'))
  · intro h key ticker'
    have hzero := hiff.mpr ⟨hstart, h⟩ key ticker'
    exact Nat.cast_injective (sub_eq_zero.mp hzero)

theorem amortise_collected_iff {after s s' borrower liquidator prices}
    (hs : Collected s) (h : amortise e after s borrower liquidator ticker prices = .ok s') :
    Collected s' ↔ uncollected e (s.depositors borrower) s.bank ticker (borrower = liquidator) = 0 := by
  obtain ⟨customer, bank, traded, o, customer', bank', liq, hcustomer, hbank, hrepo, -, -, -, rfl⟩ := amortise_eq h
  have hinterest := interest_eq_add hrepo (borrower = liquidator)
  -- ageing changes nothing that the premium is computed from
  have hsame : uncollected e customer bank ticker (borrower = liquidator) =
      uncollected e (s.depositors borrower) s.bank ticker (borrower = liquidator) := by
    rw [depositorAge_eq hcustomer, bankAge_eq hbank]
    rfl
  rw [hsame] at hinterest
  unfold Collected
  dsimp only
  by_cases hself : borrower = liquidator
  · simp only [hself, decide_true, if_true] at hinterest ⊢
    constructor
    · intro hkeys
      have hkey := hkeys liquidator ticker
      rw [bump_apply, if_pos ⟨rfl, rfl⟩, hs] at hkey
      omega
    · intro hzero key ticker'
      rw [bump_apply, hs, hinterest, hzero]
      simp
  · simp only [hself, decide_false, Bool.false_eq_true, if_false] at hinterest ⊢
    constructor
    · intro hkeys
      have hkey := hkeys borrower ticker
      rw [bump_apply, bump_apply, if_pos ⟨rfl, rfl⟩, if_pos ⟨rfl, rfl⟩, hs] at hkey
      omega
    · intro hzero key ticker'
      rw [bump_apply, bump_apply, hs, hinterest, hzero, Nat.add_zero]

theorem exec_collected_iff {s s' i} (hs : Collected s) (h : exec s i = .ok s') : Collected s' ↔ Collects s i := by
  -- the instructions of a depositor do not touch the record
  have hkept (hbooked : s'.booked = s.booked) (hcharged : s'.charged = s.charged) : Collected s' := by
    intro key ticker
    rw [hbooked, hcharged]
    exact hs key ticker
  cases i with
  | handleIn =>
    apply iff_of_true _ trivial
    obtain ⟨customer, credited, -, -, ⟨-, rfl⟩ | ⟨t, pledged, -, -, rfl⟩⟩ := handleIn_eq h
    all_goals exact hkept rfl rfl
  | outDollars =>
    apply iff_of_true _ trivial
    obtain ⟨paid, h⟩ := bind_fst_eq_ok.mp h
    obtain ⟨bank, customer, bank', value, -, -, rfl⟩ := handleOutDollars_eq h
    exact hkept rfl rfl
  | outPledge =>
    apply iff_of_true _ trivial
    obtain ⟨paid, h⟩ := bind_fst_eq_ok.mp h
    obtain ⟨bank, customer, -, -, rfl⟩ := handleOutPledge_eq h
    exact hkept rfl rfl
  | outTrade =>
    apply iff_of_true _ trivial
    obtain ⟨paid, h⟩ := bind_fst_eq_ok.mp h
    obtain ⟨trade, -, -, rfl⟩ := handleOutTrade_eq h
    exact hkept rfl rfl
  | amortise => exact amortise_collected_iff hs h
  | handleSweep e cranker ticker visits =>
    cases h
    exact handleSweep_collected_iff cranker e ticker visits hs

/-- Premiums are booked as taken just when none is booked in a margin call or on the caller's own account. -/
theorem premiums_collected_once_iff (s s' : State) (run : List Instruction) (hs : Collected s)
    (hrun : runAll exec s run = .ok s') : EveryState exec Collected s run ↔ EveryStep exec Collects s run := by
  apply everyState_iff Collected (fun s hs => hs) _ _ hs hrun
  · intro s i s' hs hcollects h
    exact (exec_collected_iff hs h).mpr hcollects
  · intro s i s' hs hcollects h hcollected
    exact hcollects ((exec_collected_iff hs h).mp hcollected)

end

def plainLiquidation : Instruction := .amortise fallenPrice steadyActuary 1 2 1 []

theorem premiums_collected_once_unpressed : ∃ s',
    runAll exec (heldState coveredLong) [plainLiquidation] = .ok s' ∧ s'.booked 1 1 = 95 ∧ s'.charged 1 1 = 95 := by
  refine exists_ok (fun s' => s'.booked 1 1 = 95) (by decide +kernel) ?_
  intro s' hrun hbooked
  have hcollects : EveryStep exec Collects (heldState coveredLong) [plainLiquidation] := by
    refine ⟨?_, fun _ _ => trivial⟩
    change uncollected fallenPrice _ _ _ _ = 0
    decide +kernel
  have hstates := (premiums_collected_once_iff _ s' _ (fun _ _ => rfl) hrun).mpr hcollects
  obtain ⟨t, ht, hend⟩ := of_bind hrun
  obtain rfl := Except.ok.inj hend
  exact ⟨hbooked, (hstates.2 t ht 1 1).symm.trans hbooked⟩

def pressedState : State :=
  let s := heldState ⟨1, 100 * 10 ^ 6, 5 * 10 ^ 6, 9000, 1000, 0, 0, 500 * 10 ^ 6, 0⟩
  { s with bank := { s.bank with unwindDemand := 100 * 10 ^ 6 } }

def plainSweep (now : ℕ) : Instruction :=
  .handleSweep ⟨100 * 10 ^ 6, now, 1, steadyActuary⟩ 2 1 [⟨1, steadyActuary, steadyActuary⟩]

theorem premium_booked_twice : ∃ s',
    runAll exec pressedState [plainSweep 10000, plainSweep 10100] = .ok s' ∧ pressedState.bank.yieldPool = 0 ∧
      s'.bank.yieldPool = 1664 ∧ s'.booked 1 1 = 1664 ∧ s'.charged 1 1 = 0 ∧
      pledgedIn (s'.depositors 1).balances 1 = pledgedIn (pressedState.depositors 1).balances 1 := by decide +kernel

def tradeValue (s : State) (signer : Pubkey) (ticker : Ticker) : ℕ :=
  (s.depositors signer).depositedQuid + pledgedIn (s.depositors signer).balances ticker + s.bank.yieldPool +
    s.bank.totalDeposits + (s.risks ticker).fundingPot

@[mk_iff]
structure TradeFits (bank : Depository) (pot : ℕ) (t : Trade) : Prop where
  funding : t.before.pledged + pot < 2 ^ 64
  credit : t.traded.depositedQuid + t.outcome.interest < 2 ^ 64
  gain : (bank.yieldPool : ℤ) + t.settled.gain < 2 ^ 64
  loss : -t.settled.gain < 2 ^ 64
  backed : -t.settled.gain ≤ (bank.yieldPool : ℤ) + bank.totalDeposits

section

variable {e : Env} {after : Actuary} {s s' : State} {v : Vaults} {signer : Pubkey} {ticker : Ticker} {amount : ℤ}
  {paid : ℕ} {t : Trade} {o : Outcome} {d : Depositor}

theorem asU64_of_nonneg {x} (hx : 0 ≤ x) (hfits : x < 2 ^ 64) : (asU64 x : ℤ) = x := by
  unfold asU64
  rw [Int.emod_eq_of_lt hx hfits]
  omega

theorem bookPool_moves (bank gain) (hgain : (bank.yieldPool : ℤ) + gain < 2 ^ 64) (hloss : -gain < 2 ^ 64)
    (hbacked : -gain ≤ (bank.yieldPool : ℤ) + bank.totalDeposits) :
    ((bookPool bank gain).yieldPool : ℤ) + (bookPool bank gain).totalDeposits =
      bank.yieldPool + bank.totalDeposits + gain := by
  unfold bookPool
  dsimp only
  split_ifs with hpos
  · have hcast := asU64_of_nonneg hpos (by omega)
    dsimp only
    rw [sat_of_lt (by omega)]
    omega
  · have hcast := asU64_of_nonneg (x := -gain) (by omega) hloss
    dsimp only
    omega

theorem dispatchTrade_moves (before preDq fee now) (hcredit : d.depositedQuid + o.interest < 2 ^ 64) :
    ((dispatchTrade o d before preDq fee now).customer.depositedQuid : ℤ) - preDq +
        (pledgedIn (dispatchTrade o d before preDq fee now).customer.balances before.ticker - before.pledged) +
        (dispatchTrade o d before preDq fee now).gain + (dispatchTrade o d before preDq fee now).payout = 0 := by
  unfold dispatchTrade
  dsimp only
  split_ifs
  · dsimp only
    ring
  · dsimp only
    rw [sat_of_lt hcredit]
    push_cast
    ring
  all_goals
    dsimp only
    push_cast
    ring

end

def openLong : Stock := ⟨1, 200 * 10 ^ 6, 5 * 10 ^ 6, 9000, 1000, 0, 0, 500 * 10 ^ 6, 0⟩

def fullVault : Vaults := ⟨10 ^ 12, []⟩

def visitPot (e : Env) (ticker : Ticker) (x : Sweep) (v : Visit) : ℕ :=
  if (x.depositors v.key).opened then
    (x.funded e ticker v).2.fundingPot
  else x.risk.fundingPot

/-- A visit that is not written back and takes no tranche. (One that closes a position is also entered in the
pool's record of returns on capital, which is not part of this model.) -/
@[mk_iff]
structure PassedOver (e : Env) (ticker : Ticker) (x : Sweep) (v : Visit) : Prop where
  unwritten : booksVisit e ticker x v = false
  untouched : ∀ o, sweptOutcome e ticker x v = .ok o → o.tranche = none
  exposure : ∀ pod ∈ (x.depositors v.key).balances, pod.exposure.natAbs ≤ 2 ^ 63

section

variable {e : Env} {k k' : Desk} {q : Quote} {o : Outcome} {d d' : Depositor} {bank : Depository} {ticker : Ticker}
  {time : ℕ} {x : Sweep} {v : Visit}

theorem utilisation_zero (bank : Depository) : bank.utilisation 0 = bank := rfl

theorem unwind_bank (h : (unwindATranche e k q time).delta = 0) : (unwindATranche e k q time).desk.bank = k.bank := by
  unfold unwindATranche at h ⊢
  dsimp only at h ⊢
  split_ifs at h ⊢
  · rfl
  · dsimp only at h
    simp only [Desk.draw, h, utilisation_zero]
    rfl

theorem crank_bank (hexposure : k.pod.exposure.natAbs ≤ 2 ^ 63) (h : repoPod e k 0 = .ok o) (hdelta : o.delta = 0) :
    o.desk.bank = k.bank := by
  obtain ⟨-, rfl⟩ | ⟨-, o', rfl, hexit⟩ := repoPod_exits h
  · exact unwind_bank hdelta
  have hnone : (0 : ℤ) < 0 → False := lt_irrefl 0
  dsimp only at hdelta ⊢
  cases hexit with
  | unwound => exact unwind_bank hdelta
  | posted _ _ hpost =>
    obtain ⟨-, -, collarBps, rfl⟩ := postVariationMargin_eq hpost
    dsimp only at hdelta
    simp only [Desk.draw, hdelta, utilisation_zero]
    rfl
  | reinstated horder => exact absurd rfl horder
  | sold hneg => exact (hnone hneg).elim
  | bought hpos | covered hpos => exact (hnone hpos).elim
  | @marked time k' hside hin hissue =>
    obtain ⟨breachedAt, hclear⟩ := clearBreach_eq (chargedDesk e k 0) (quote e k 0) (quote e k 0).oldValue
    have hshort : k.pod.exposure ≤ 0 := exposure_nonpos hside
    have hsame : satI64 (k.pod.exposure + 0) = k.pod.exposure := by
      rw [add_zero]
      exact satI64_of_word (by omega) (by omega)
    -- the exposure is the same, so the value that is drawn anew is the one that was drawn
    have hexposure' : k'.pod.exposure = k.pod.exposure := by
      cases hissue
      rw [hclear]
      exact hsame
    have hbank : k'.bank = k.bank := by
      cases hissue
      rw [hclear]
      rfl
    have hvalue : k'.pod.valueAt e.price = (quote e k 0).oldValue := by
      unfold Stock.valueAt
      rw [hexposure']
      rfl
    simp only [markShort, Desk.draw, hvalue, sub_self, hbank]
    exact utilisation_zero _
  | ignored hreducing => exact absurd hreducing (not_reducing e k)

theorem repo_bank_of_still (hexposure : ∀ pod ∈ d.balances, pod.exposure.natAbs ≤ 2 ^ 63)
    (h : repo e d bank ticker 0 = .ok (d', o)) (hdelta : o.delta = 0) : o.desk.bank = bank := by
  obtain ⟨pod, hpod, hcrank, -⟩ := repo_eq_ok h
  exact crank_bank (hexposure pod (List.mem_of_find?_eq_some hpod)) hcrank hdelta

theorem fundPosition_risk (actuary price d risk ticker) : (fundPosition actuary price d risk ticker).2 =
      { risk with fundingPot := (fundPosition actuary price d risk ticker).2.fundingPot } := by
  unfold fundPosition
  cases podOf d.balances ticker with
  | none | some pod => rfl

theorem sweepOne_passedOver (h : PassedOver e ticker x v) :
    sweepOne e ticker x v = { x with risk := { x.risk with fundingPot := visitPot e ticker x v } } := by
  have hunwritten := h.unwritten
  unfold visitPot
  generalize hx' : sweepOne e ticker x v = x'
  have hswept := sweepOne_cases e ticker x v
  rw [hx'] at hswept
  cases hswept with
  | closed hclosed => rw [if_neg hclosed]
  | failed hopen => rw [if_pos hopen, ← fundPosition_risk]
  | @quiet d o hopen hrepo hquiet =>
    have hstill : o.delta = 0 := by
      by_contra hmoved
      exact hquiet (.inl hmoved)
    rw [if_pos hopen, ← fundPosition_risk, repo_bank_of_still (fundPosition_exposure h.exposure) hrepo hstill]
  | @booked d o _ _ _ hopen hrepo hmoved =>
    have hbooks : booksVisit e ticker x v = true := by simpa [booksVisit, hrepo, okAnd, hopen] using hmoved
    rw [hbooks] at hunwritten
    cases hunwritten

theorem handleSweep_risk (e s cranker ticker) (visits : List Visit) :
    (handleSweep e s cranker ticker visits).risks ticker =
      (visits.foldl (sweepOne e ticker) (Sweep.start e s ticker)).risk :=
  Function.update_self ..

end

/-- A sweep leaves no trace of an account that it passes over when its funding leaves the pot as it was. -/
theorem sweep_without_trace (e : Env) (s : State) (cranker : Pubkey) (ticker : Ticker) (earlier : List Visit)
    (v : Visit) (x : Sweep) (hx : earlier.foldl (sweepOne e ticker) (Sweep.start e s ticker) = x)
    (hpassed : PassedOver e ticker x v) : (visitPot e ticker x v = x.risk.fundingPot → ∀ later,
      handleSweep e s cranker ticker (earlier ++ v :: later) = handleSweep e s cranker ticker (earlier ++ later)) ∧
    ((handleSweep e s cranker ticker (earlier ++ [v])).risks = (handleSweep e s cranker ticker earlier).risks →
      visitPot e ticker x v = x.risk.fundingPot) := by
  have hvisit := sweepOne_passedOver hpassed
  constructor
  · intro hpot later
    rw [hpot] at hvisit
    rw [handleSweep, handleSweep, List.foldl_append, List.foldl_cons, hx, hvisit, List.foldl_append, hx]
  · intro hrisks
    have hrisk := congrFun hrisks ticker
    rw [handleSweep_risk, handleSweep_risk, List.foldl_append, hx, List.foldl_cons, List.foldl_nil, hvisit] at hrisk
    exact congrArg TickerRisk.fundingPot hrisk

def heldLong : Stock := { leveredLong with breachedAt := 0 }

def fundedVisit (fundingIndex : ℤ) : Visit :=
  ⟨1, { steadyActuary with fundingIndex }, { steadyActuary with fundingIndex }⟩

def steadyPrice : Env := ⟨100 * 10 ^ 6, 10000, 1, steadyActuary⟩

theorem sweep_without_trace_unfunded :
    PassedOver steadyPrice 1 (Sweep.start steadyPrice (heldState heldLong) 1) (fundedVisit 0) ∧
      handleSweep steadyPrice (heldState heldLong) 2 1 [fundedVisit 0] =
        handleSweep steadyPrice (heldState heldLong) 2 1 [] := by
  have hpassed : PassedOver steadyPrice 1 (Sweep.start steadyPrice (heldState heldLong) 1) (fundedVisit 0) := by
    simp only [passedOver_iff]
    decide +kernel
  obtain ⟨htraceless, -⟩ := sweep_without_trace steadyPrice (heldState heldLong) 2 1 [] (fundedVisit 0) _ rfl
    hpassed
  exact ⟨hpassed, htraceless (by decide +kernel) []⟩

theorem passed_over_pays_pot :
    PassedOver steadyPrice 1 (Sweep.start steadyPrice (heldState heldLong) 1) (fundedVisit 315360000) ∧
      ((handleSweep steadyPrice (heldState heldLong) 2 1 []).risks 1).fundingPot = 0 ∧
      ((handleSweep steadyPrice (heldState heldLong) 2 1 [fundedVisit 315360000]).risks 1).fundingPot =
        500000 ∧ ((handleSweep steadyPrice (heldState heldLong) 2 1 [fundedVisit 315360000]).depositors
        1).balances = [heldLong] := by
  simp only [passedOver_iff]
  decide +kernel

end QuidProtocol.Stay
