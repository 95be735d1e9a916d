import QuidProtocol.Stay.Exits
import QuidProtocol.Stay.Handlers

/-!
The exits of `repo` without an order, in liquidations and sweeps.
-/

namespace QuidProtocol.Stay

open Lib Function

theorem sat_of_lt {n} (h : n < 2 ^ 64) : sat n = n := by
  unfold sat u64Max
  omega

section

variable {e : Env} {k : Desk} {q : Quote} {o : Outcome} {amount : ℤ} {time : ℕ}

inductive Cranked (e : Env) (k : Desk) : Outcome → Prop
  | called (hcall : marginCalled k (quote e k 0) 0) :
      Cranked e k (unwindATranche e (checkpointed e k) (quote e k 0) e.now)
  | breached {time : _} (hcall : ¬ marginCalled k (quote e k 0) 0) :
      Cranked e k { unwindATranche e (chargedDesk e k 0) (quote e k 0) time with charged := (quote e k 0).accrued }
  | restored {time value excess gross k' : _} (hcall : ¬ marginCalled k (quote e k 0) 0)
      (h : postVariationMargin e (chargedDesk e k 0) (quote e k 0).oldValue value excess time =
        .ok (some (k', gross))) :
      Cranked e k { desk := k'.draw (asI64 gross), delta := asI64 gross, interest := (quote e k 0).accrued,
                    charged := (quote e k 0).accrued }
  | marked {time hadMark k' : _} (hcall : ¬ marginCalled k (quote e k 0) 0)
      (hpledged : k'.pod.pledged = (chargedDesk e k 0).pod.pledged) (hquid : k'.depositedQuid = k.depositedQuid) :
      Cranked e k { markShort e k' (quote e k 0) hadMark time with charged := (quote e k 0).accrued }

theorem not_reducing (e k) : ¬ (quote e k 0).reducing = true := by simp [quote]

theorem crank_cases (h : repoPod e k 0 = .ok o) : Cranked e k o := by
  obtain ⟨hcall, rfl⟩ | ⟨hcall, o', rfl, hexit⟩ := repoPod_exits h
  · exact .called hcall
  cases hexit with
  | unwound => exact .breached hcall
  | posted _ _ hpost => exact .restored hcall hpost
  | reinstated horder => exact absurd rfl horder
  | sold hneg => exact absurd hneg (lt_irrefl 0)
  | bought hpos | covered hpos => exact absurd hpos (lt_irrefl 0)
  | marked _ _ hissue =>
    cases hissue
    apply Cranked.marked hcall
    all_goals
      unfold clearBreach
      split_ifs
      all_goals rfl
  | ignored hreducing => exact absurd hreducing (not_reducing e k)

theorem premiumDue_le (exposureValue rate dt base pledged) :
    (premiumDue exposureValue rate dt base pledged).1 ≤ pledged := by
  unfold premiumDue
  dsimp only
  split_ifs with hnone hcovered
  · exact Nat.zero_le _
  · exact hcovered
  · exact le_refl _

theorem accrued_le (e k amount) : (quote e k amount).accrued ≤ k.pod.pledged :=
  premiumDue_le _ _ _ _ _

theorem unwind_interest (e k q time) :
    (unwindATranche e k q time).interest = q.accrued ∧ (unwindATranche e k q time).charged = 0 := by
  unfold unwindATranche
  dsimp only
  split_ifs
  all_goals exact ⟨rfl, rfl⟩

/-- What is taken off a pledge before the position is marked: nothing in a margin call. -/
def premium (e : Env) (k : Desk) : ℕ := if marginCalled k (quote e k 0) 0 then 0 else (quote e k 0).accrued

def slice (e : Env) (k : Desk) : Tranche :=
  trancheOf { k.pod with pledged := k.pod.pledged - premium e k } e.price (e.now - k.pod.breachedAt)
    (quote e k 0).utilBps

theorem Cranked.interest_eq (h : Cranked e k o) : o.interest = (quote e k 0).accrued := by
  cases h with
  | called | breached => exact (unwind_interest _ _ _ _).1
  | restored | marked => rfl

theorem Cranked.charged_eq (h : Cranked e k o) : o.charged = premium e k := by
  unfold premium
  cases h with
  | called hcall => rw [if_pos hcall, (unwind_interest _ _ _ _).2]
  | breached hcall | restored hcall | marked hcall =>
    rw [if_neg hcall]

theorem slicePledge_le (pod price excursion utilBps) (hexposure : pod.exposure.natAbs ≤ 2 ^ 63) :
    (trancheOf pod price excursion utilBps).slicePledge ≤ pod.pledged := by
  unfold trancheOf
  dsimp only
  generalize hunits : min _ pod.exposure.natAbs = units
  have hsize : units ≤ 2 ^ 63 := by
    rw [← hunits]
    exact le_trans (min_le_right _ _) hexposure
  have hbefore : units ≤ max (sat ((unwound pod units).natAbs + units)) 1 := by
    have hsat : sat ((unwound pod units).natAbs + units) = min ((unwound pod units).natAbs + units) (2 ^ 64 - 1) := rfl
    omega
  calc pod.pledged * units / _ % 2 ^ 64 ≤ pod.pledged * units / _ := Nat.mod_le _ _
    _ ≤ pod.pledged := Nat.div_le_of_le_mul (by rw [mul_comm]; exact Nat.mul_le_mul_right _ hbefore)

theorem consumed_le (pod price excursion utilBps) :
    (trancheOf pod price excursion utilBps).consumed ≤ (trancheOf pod price excursion utilBps).slicePledge := by
  have hcap (pnl : ℤ) (slice : ℕ) : (if pnl < 0 then min (pnl.natAbs % 2 ^ 64) slice else 0) ≤ slice := by
    split_ifs
    · exact min_le_right _ _
    · exact Nat.zero_le _
  exact hcap _ _

theorem asI64_of_lt {n} (h : n < 2 ^ 63) : asI64 n = n := if_pos h

theorem unwound_natAbs {pod units} (hfits : pod.exposure.natAbs < 2 ^ 63) (hunits : units ≤ pod.exposure.natAbs) :
    (unwound pod units).natAbs = pod.exposure.natAbs - units := by
  unfold unwound satI64
  rw [asI64_of_lt (by omega)]
  obtain hlong | hflat | hshort := lt_trichotomy 0 pod.exposure
  · rw [Int.sign_eq_one_of_pos hlong]
    omega
  · rw [← hflat] at hunits ⊢
    simp
  · rw [Int.sign_eq_neg_one_of_neg hshort]
    omega

theorem unwind_taken {t} (h : (unwindATranche e k q time).tranche = some t) :
    t = trancheOf k.pod e.price (e.now - k.pod.breachedAt) q.utilBps ∧
      (unwindATranche e k q time).desk.pod.exposure = unwound k.pod t.units ∧
      (unwindATranche e k q time).desk.pod.breachedAt =
        (if unwound k.pod t.units = 0 then 0 else k.pod.breachedAt + liqGraceSecs) ∧
      (unwindATranche e k q time).delta = -(min (t.unwoundValue - t.retained) i64Max : ℕ) := by
  by_cases hset : k.pod.breachedAt = 0
  · have hfresh : e.now - e.now ≤ liqGraceSecs := by omega
    unfold unwindATranche at h
    dsimp only [Stock.excursion] at h
    rw [if_pos hset, if_pos hfresh] at h
    cases h
  · unfold unwindATranche at h ⊢
    dsimp only [Stock.excursion] at h ⊢
    rw [if_neg hset] at h ⊢
    by_cases hgrace : e.now - k.pod.breachedAt ≤ liqGraceSecs
    · rw [if_pos hgrace] at h
      cases h
    · rw [if_neg hgrace] at h ⊢
      cases h
      refine ⟨rfl, rfl, ?_, rfl⟩
      dsimp only [amortiseTranche, Desk.draw]
      simp only [decide_eq_true_eq]

theorem unwind_pledged {t} (hexposure : k.pod.exposure.natAbs ≤ 2 ^ 63)
    (ht : (unwindATranche e k q time).tranche = some t) :
    (unwindATranche e k q time).desk.pod.pledged + t.consumed = k.pod.pledged ∧
      (unwindATranche e k q time).desk.depositedQuid = k.depositedQuid := by
  unfold unwindATranche at ht ⊢
  dsimp only at ht ⊢
  split_ifs at ht ⊢
  cases ht
  refine ⟨?_, rfl⟩
  apply Nat.sub_add_cancel
  exact le_trans (consumed_le _ _ _ _) (slicePledge_le (k.pod.excursion e.now).1 _ _ _ hexposure)

theorem Cranked.of_tranche {t} (h : Cranked e k o) (hexposure : k.pod.exposure.natAbs ≤ 2 ^ 63)
    (ht : o.tranche = some t) :
    o.desk.pod.pledged + (slice e k).consumed + premium e k = k.pod.pledged ∧ o.desk.depositedQuid = k.depositedQuid ∧
      o.delta = -(min ((slice e k).unwoundValue - (slice e k).retained) i64Max : ℕ) := by
  cases h with
  | called hcall =>
    have hpremium : premium e k = 0 := if_pos hcall
    obtain ⟨rfl, -, -, hdelta⟩ := unwind_taken ht
    have hpledged := unwind_pledged (k := checkpointed e k) hexposure ht
    unfold slice
    rw [hpremium]
    exact ⟨hpledged.1, hpledged.2, hdelta⟩
  | @breached time hcall =>
    have hpremium : premium e k = (quote e k 0).accrued := if_neg hcall
    obtain ⟨rfl, -, -, hdelta⟩ := unwind_taken ht
    obtain ⟨hpledged, hquid⟩ := unwind_pledged (k := chargedDesk e k 0) hexposure ht
    have hcharged : (chargedDesk e k 0).pod.pledged + (quote e k 0).accrued = k.pod.pledged :=
      Nat.sub_add_cancel (accrued_le e k 0)
    rw [← hpledged] at hcharged
    unfold slice
    rw [hpremium]
    exact ⟨hcharged, hquid, hdelta⟩
  | restored | marked => cases ht

theorem asI64_le (n : ℕ) : asI64 n ≤ n := by
  unfold asI64
  split_ifs
  · exact le_rfl
  · omega

theorem Cranked.delta_le (h : Cranked e k o) : o.delta ≤ k.depositedQuid := by
  have hunwind (k : Desk) (q : Quote) (time : ℕ) : (unwindATranche e k q time).delta ≤ 0 := by
    unfold unwindATranche
    dsimp only
    split_ifs
    · exact le_rfl
    · exact neg_nonpos.mpr (Int.natCast_nonneg _)
  cases h with
  | called | breached => exact (hunwind _ _ _).trans (Int.natCast_nonneg _)
  | @restored _ _ _ gross _ _ h =>
    have hposted : gross ≤ k.depositedQuid := (postVariationMargin_eq h).2.1
    exact (asI64_le gross).trans (Int.ofNat_le.mpr hposted)
  | marked => exact Int.natCast_nonneg _

section Balances

variable {balances : List Stock} {ticker : Ticker} {pod new : Stock} {d d' : Depositor} {bank : Depository}

theorem podOf_ticker (h : podOf balances ticker = some pod) : pod.ticker = ticker := by
  have hfound := List.find?_some h
  exact of_decide_eq_true hfound

theorem podOf_cons_of_eq (h : pod.ticker = ticker) (rest : List Stock) : podOf (pod :: rest) ticker = some pod :=
  List.find?_cons_of_pos (by simpa using h)

theorem podOf_cons_of_ne (h : pod.ticker ≠ ticker) (rest : List Stock) :
    podOf (pod :: rest) ticker = podOf rest ticker :=
  List.find?_cons_of_neg (by simpa using h)

theorem podOf_putPod (h : podOf balances ticker = some pod) (hticker : new.ticker = ticker) :
    podOf (putPod ticker new balances) ticker = some new := by
  induction balances with
  | nil => cases h
  | cons first rest ih =>
    unfold putPod
    by_cases hfirst : first.ticker = ticker
    · rw [if_pos hfirst]
      exact podOf_cons_of_eq hticker rest
    · rw [podOf_cons_of_ne hfirst] at h
      rw [if_neg hfirst, podOf_cons_of_ne hfirst]
      exact ih h

theorem pledges_putPod (h : podOf balances ticker = some pod) (new : Stock) :
    pledges (putPod ticker new balances) + pod.pledged = pledges balances + new.pledged := by
  induction balances with
  | nil => cases h
  | cons first rest ih =>
    unfold putPod
    by_cases hfirst : first.ticker = ticker
    · rw [podOf_cons_of_eq hfirst] at h
      cases h
      rw [if_pos hfirst]
      simp only [pledges, List.map_cons, List.sum_cons]
      omega
    · rw [podOf_cons_of_ne hfirst] at h
      rw [if_neg hfirst]
      have hrest := ih h
      simp only [pledges, List.map_cons, List.sum_cons] at hrest ⊢
      omega

theorem repo_eq_ok (h : repo e d bank ticker amount = .ok (d', o)) :
    ∃ pod, podOf d.balances ticker = some pod ∧ repoPod e ⟨pod, d.depositedQuid, d.drawn, bank⟩ amount = .ok o ∧
      d' = d.settle ticker o.desk := by
  obtain ⟨-, pod, hpod, h⟩ := of_require_bind h
  obtain ⟨o', ho', h⟩ := of_bind h
  cases h
  exact ⟨pod, found_eq_ok.mp hpod, ho', rfl⟩

theorem repo_bank {amount} (hrepo : repo e d bank ticker amount = .ok (d', o)) :
    ∃ totalDrawn, o.desk.bank = { bank with totalDrawn } := by
  obtain ⟨pod, hpod, hcrank, rfl⟩ := repo_eq_ok hrepo
  exact (keeps_repoPod hcrank).bank

theorem repo_account {amount} (hrepo : repo e d bank ticker amount = .ok (d', o)) :
    o.desk.depositedQuid ≤ d.depositedQuid ∧ ∃ drawn balances,
      d' = { d with depositedQuid := o.desk.depositedQuid, drawn, balances } := by
  obtain ⟨pod, hpod, hcrank, rfl⟩ := repo_eq_ok hrepo
  exact ⟨(keeps_repoPod hcrank).quid, _, _, rfl⟩

end Balances

end

section Handlers

variable {e : Env} {after : Actuary} {s s' : State} {borrower liquidator : Pubkey} {ticker : Ticker}
  {prices : List ℕ} {d d' : Depositor} {bank bank' : Depository} {now : ℕ}

theorem bankAge_eq (h : bank.age now = .ok bank') :
    bank' = { bank with totalDepositSeconds := bank.totalDepositSeconds + (now - bank.lastUpdated) * bank.totalDeposits
                        lastUpdated := now } := by
  obtain ⟨-, h⟩ := of_checkedMul h
  obtain ⟨-, h⟩ := of_checkedAdd h
  exact ok_inj h

theorem depositorAge_eq (h : d.age now = .ok d') :
    d' = { d with depositSeconds := d.depositSeconds + (now - d.lastUpdated) * d.depositedQuid } := by
  obtain ⟨-, h⟩ := of_checkedMul h
  obtain ⟨-, h⟩ := of_checkedAdd h
  exact ok_inj h

theorem amortise_eq (h : amortise e after s borrower liquidator ticker prices = .ok s') :
    ∃ customer bank traded o customer' bank' liq,
      (s.depositors borrower).age e.now = .ok customer ∧ s.bank.age e.now = .ok bank ∧
      repo e customer bank ticker 0 = .ok (traded, o) ∧ o.delta ≠ 0 ∧
      bookLiquidation o traded { o.desk.bank with yieldPool := o.desk.bank.yieldPool + o.interest } prices e.now =
        .ok (customer', bank') ∧
      creditLiquidator (s.depositors liquidator) (commissionOf o.delta) e.now = .ok liq ∧
      s' = { bank := { (reconcileTickerReserve after (s.risks ticker) bank').2 with
                        totalDeposits := sat (bank'.totalDeposits + commissionOf o.delta) }
             depositors := update (update s.depositors borrower customer') liquidator liq
             risks := update s.risks ticker (reconcileTickerReserve after (s.risks ticker) bank').1
             booked := bump s.booked borrower ticker o.interest
             charged := if borrower = liquidator then s.charged else bump s.charged borrower ticker o.charged } := by
  obtain ⟨-, customer, hcustomer, h⟩ := of_require_bind h
  obtain ⟨bank, hbank, ⟨traded, o⟩, hrepo, h⟩ := of_bind₂ h
  obtain ⟨hdelta, yieldPool, hyield, h⟩ := of_require_bind h
  obtain ⟨⟨customer', bank'⟩, hbook, liq, hliq, h⟩ := of_bind₂ h
  rw [← (checkedAdd_eq_ok.mp hyield).2] at hbook
  exact ⟨customer, bank, traded, o, customer', bank', liq, hcustomer, hbank, hrepo, hdelta,
    hbook, hliq, ok_inj h⟩

inductive Swept (e : Env) (ticker : Ticker) (x : Sweep) (v : Visit) : Sweep → Prop
  | closed (hclosed : ¬ (x.depositors v.key).opened) : Swept e ticker x v x
  | failed {err : _} (hopen : (x.depositors v.key).opened) (hrepo : x.crank e ticker v = .error err) :
      Swept e ticker x v { x with risk := (x.funded e ticker v).2 }
  | quiet {d o : _} (hopen : (x.depositors v.key).opened) (hrepo : x.crank e ticker v = .ok (d, o))
      (hquiet : ¬ (o.delta ≠ 0 ∨ breached d ticker)) :
      Swept e ticker x v { x with risk := (x.funded e ticker v).2, bank := o.desk.bank }
  | booked {d o d' risk bank : _} (hopen : (x.depositors v.key).opened) (hrepo : x.crank e ticker v = .ok (d, o))
      (hmoved : o.delta ≠ 0 ∨ breached d ticker)
      (hbook : bookSwept v.after o d (x.funded e ticker v).2 = (d', risk, bank)) :
      Swept e ticker x v
        { bank, depositors := update x.depositors v.key d', risk
          booked := bump x.booked v.key ticker o.interest, charged := bump x.charged v.key ticker o.charged
          commission := sat (x.commission + commissionOf o.delta) }

theorem sweepOne_cases (e ticker x v) : Swept e ticker x v (sweepOne e ticker x v) := by
  unfold sweepOne
  dsimp only
  by_cases hopen : (x.depositors v.key).opened
  · rw [if_neg (not_not.mpr hopen)]
    split
    case h_1 hrepo => exact .failed hopen hrepo
    case h_2 d o hrepo =>
      split_ifs with hmoved
      · exact .booked hopen hrepo hmoved rfl
      · exact .quiet hopen hrepo hmoved
  · rw [if_pos hopen]
    exact .closed hopen

theorem fundPosition_account (actuary price d risk ticker) :
    ∃ balances, (fundPosition actuary price d risk ticker).1 = { d with balances } := by
  unfold fundPosition
  cases podOf d.balances ticker with
  | none => exact ⟨d.balances, rfl⟩
  | some => exact ⟨_, rfl⟩

structure VisitLeaves (x x' : Sweep) (key : Pubkey) : Prop where
  account : ∃ d, x'.depositors = update x.depositors key d ∧
    d.depositedQuid ≤ (x.depositors key).depositedQuid ∧ d.depositSeconds = (x.depositors key).depositSeconds ∧
    d.lastUpdated = (x.depositors key).lastUpdated
  totalDeposits : x'.bank.totalDeposits = x.bank.totalDeposits
  totalDepositSeconds : x'.bank.totalDepositSeconds = x.bank.totalDepositSeconds
  lastUpdated : x'.bank.lastUpdated = x.bank.lastUpdated

theorem bookSwept_leaves {o risk risk'} (h : bookSwept after o d risk = (d', risk', bank')) :
    d'.depositedQuid ≤ d.depositedQuid ∧ d'.depositSeconds = d.depositSeconds ∧ d'.lastUpdated = d.lastUpdated ∧
      bank'.totalDeposits = o.desk.bank.totalDeposits ∧ bank'.totalDepositSeconds = o.desk.bank.totalDepositSeconds ∧
      bank'.lastUpdated = o.desk.bank.lastUpdated := by
  unfold bookSwept at h
  dsimp only at h
  split_ifs at h
  · obtain ⟨rfl, hrest⟩ := Prod.mk.inj h
    obtain ⟨-, rfl⟩ := Prod.mk.inj hrest
    exact ⟨le_rfl, rfl, rfl, rfl, rfl, rfl⟩
  · obtain ⟨rfl, hrest⟩ := Prod.mk.inj h
    obtain ⟨-, rfl⟩ := Prod.mk.inj hrest
    exact ⟨Nat.sub_le _ _, rfl, rfl, rfl, rfl, rfl⟩

theorem sweepOne_leaves (e ticker x v) : VisitLeaves x (sweepOne e ticker x v) v.key := by
  generalize hx' : sweepOne e ticker x v = x'
  have hswept := sweepOne_cases e ticker x v
  rw [hx'] at hswept
  have hsame : ∃ d, x.depositors = update x.depositors v.key d ∧ d.depositedQuid ≤ (x.depositors v.key).depositedQuid ∧
      d.depositSeconds = (x.depositors v.key).depositSeconds ∧ d.lastUpdated = (x.depositors v.key).lastUpdated :=
    ⟨x.depositors v.key, (update_eq_self _ _).symm, le_rfl, rfl, rfl⟩
  cases hswept with
  | closed | failed => exact ⟨hsame, rfl, rfl, rfl⟩
  | @quiet d o hopen hrepo =>
    obtain ⟨totalDrawn, hdesk⟩ := repo_bank hrepo
    rw [hdesk]
    exact ⟨hsame, rfl, rfl, rfl⟩
  | @booked d o d' risk bank hopen hrepo hmoved hbook =>
    obtain ⟨totalDrawn, hdesk⟩ := repo_bank hrepo
    obtain ⟨hquid, drawn, balances, hd⟩ := repo_account hrepo
    obtain ⟨funded, hfunded⟩ := fundPosition_account v.actuary e.price (x.depositors v.key) x.risk ticker
    obtain ⟨hle, hseconds, hclock, htotal, htotalSeconds, hbankClock⟩ := bookSwept_leaves hbook
    rw [hfunded] at hd hquid
    rw [hd] at hle hseconds hclock
    rw [hdesk] at htotal htotalSeconds hbankClock
    exact ⟨⟨d', rfl, hle.trans hquid, hseconds, hclock⟩, htotal, htotalSeconds, hbankClock⟩

theorem handleSweep_eq (cranker : Pubkey) {visits x}
    (hx : visits.foldl (sweepOne e ticker) (Sweep.start e s ticker) = x) :
    (handleSweep e s cranker ticker visits).bank =
        { x.bank with totalDeposits := sat (x.bank.totalDeposits + x.commission) } ∧
      ∃ own, (handleSweep e s cranker ticker visits).depositors = update x.depositors cranker own ∧
        own.depositedQuid = sat ((s.depositors cranker).depositedQuid + x.commission) ∧
        own.depositSeconds = (s.depositors cranker).depositSeconds ∧
        own.lastUpdated = if (s.depositors cranker).opened then (s.depositors cranker).lastUpdated else e.now := by
  rw [← hx]
  refine ⟨rfl, _, rfl, ?_, ?_, ?_⟩
  all_goals
    dsimp only
    split_ifs
    all_goals rfl

end Handlers

end QuidProtocol.Stay
