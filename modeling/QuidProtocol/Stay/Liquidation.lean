import QuidProtocol.Stay.Crank

/-!
What a tranche books against what its owner loses.
The clock of a breach, over runs of orders and cranks on one position.
-/

namespace QuidProtocol.Stay

open Lib Function

def Depositor.wealth (d : Depositor) : ℕ := pledges d.balances + d.depositedQuid

def liquidated (e : Env) (s : State) (borrower : Pubkey) (ticker : Ticker) : Res Outcome := do
  let customer ← (s.depositors borrower).age e.now
  let bank ← s.bank.age e.now
  let (_, o) ← repo e customer bank ticker 0
  .ok o

def sweptOutcome (e : Env) (ticker : Ticker) (x : Sweep) (v : Visit) : Res Outcome := do
  let (_, o) ← x.crank e ticker v
  .ok o

def MintsNothing (s s' : State) (borrower : Pubkey) (o : Outcome) : Prop :=
  (s'.bank.yieldPool : ℤ) + commissionOf o.delta - s.bank.yieldPool - o.interest ≤
    (s.depositors borrower).wealth - (s'.depositors borrower).wealth

def leftBy (cranker : Pubkey) (x x' : Sweep) (key : Pubkey) : Depositor :=
  if key = cranker then x.depositors key else x'.depositors key

def VisitMintsNothing (cranker : Pubkey) (x x' : Sweep) (key : Pubkey) (o : Outcome) : Prop :=
  (x'.bank.yieldPool : ℤ) + (x'.commission - x.commission) - x.bank.yieldPool - o.interest ≤
    (x.depositors key).wealth - (leftBy cranker x x' key).wealth

def deskOf (d : Depositor) (bank : Depository) (pod : Stock) : Desk := ⟨pod, d.depositedQuid, d.drawn, bank⟩

/-- What funding takes off the pledge of a position, into the pot. -/
def fundingMoved (actuary : Actuary) (price : ℕ) (pod : Stock) (pot : ℕ) : ℤ :=
  let owed := fundingOwed actuary.fundingIndex (unitsValueI pod.exposure price) pod.fundingCheckpoint
  if 0 < owed then -(min owed.natAbs pot : ℕ) else (min owed.natAbs pod.pledged : ℕ)

/-- A slice is worth no more than its part of the pledge, the premium and what funding has taken. -/
def SliceCovered (e : Env) (k : Desk) (funding : ℤ) : Prop :=
  (min (slice e k).unwoundValue ((slice e k).retained + i64Max) : ℕ) ≤
    ((slice e k).slicePledge + premium e k : ℕ) + funding
  deriving Decidable

section

variable {e : Env} {after : Actuary} {s s' : State} {borrower liquidator : Pubkey} {ticker : Ticker}
  {prices : List ℕ} {o : Outcome} {d d' : Depositor} {bank bank' : Depository} {now : ℕ}

theorem liquidated_eq {customer traded} (hcustomer : (s.depositors borrower).age e.now = .ok customer)
    (hbank : s.bank.age e.now = .ok bank) (hrepo : repo e customer bank ticker 0 = .ok (traded, o)) :
    liquidated e s borrower ticker = .ok o := by
  unfold liquidated
  rw [hcustomer, ok_bind, hbank, ok_bind, hrepo, ok_bind]

theorem bookLiquidation_neg {customer} (hneg : o.delta < 0)
    (h : bookLiquidation o d bank prices now = .ok (customer, bank')) : customer = d ∧
      bank' = { bank with yieldPool := bank.yieldPool + (o.delta.natAbs - commissionOf o.delta) } := by
  unfold bookLiquidation at h
  rw [if_pos hneg] at h
  obtain ⟨yieldPool, hyield, h⟩ := of_bind h
  rw [← (checkedAdd_eq_ok.mp hyield).2] at h
  obtain ⟨hcustomer, hbank⟩ := ok_pair_inj h
  exact ⟨hcustomer.symm, hbank.symm⟩

theorem creditLiquidator_eq {commission} (h : creditLiquidator d commission now = .ok d') :
    d'.depositedQuid = d.depositedQuid + commission ∧ d'.balances = d.balances := by
  obtain ⟨touched, htouch, n, hn, h⟩ := of_bind₂ h
  have hsame : touched.depositedQuid = d.depositedQuid ∧ touched.balances = d.balances := by
    unfold Depositor.touch at htouch
    split_ifs at htouch
    · rw [depositorAge_eq htouch]
      exact ⟨rfl, rfl⟩
    · cases htouch
      exact ⟨rfl, rfl⟩
  rw [← Except.ok.inj h, ← (checkedAdd_eq_ok.mp hn).2]
  exact ⟨congrArg (· + commission) hsame.1, hsame.2⟩

theorem commissionOf_le (delta : ℤ) : commissionOf delta ≤ delta.natAbs := Nat.div_le_self _ _

theorem wealth_of_tranche {t pod} (hpod : podOf d.balances ticker = some pod)
    (hexposure : pod.exposure.natAbs ≤ 2 ^ 63) (hrepo : repo e d bank ticker 0 = .ok (d', o)) (ht : o.tranche = some t) :
    d'.wealth + (slice e (deskOf d bank pod)).consumed + premium e (deskOf d bank pod) = d.wealth ∧
      o.delta = -(min ((slice e (deskOf d bank pod)).unwoundValue - (slice e (deskOf d bank pod)).retained) i64Max : ℕ) := by
  obtain ⟨pod', hpod', hcrank, rfl⟩ := repo_eq_ok hrepo
  obtain rfl := Option.mem_unique hpod hpod'
  obtain ⟨hpledged, hquid, hdelta⟩ := (crank_cases hcrank).of_tranche hexposure ht
  have hput := pledges_putPod hpod o.desk.pod
  refine ⟨?_, hdelta⟩
  have hsettled : (d.settle ticker o.desk).wealth =
      pledges (putPod ticker o.desk.pod d.balances) + o.desk.depositedQuid := rfl
  have hwealth : d.wealth = pledges d.balances + d.depositedQuid := rfl
  unfold deskOf
  dsimp only at hpledged hquid
  omega

theorem sliceCovered_iff {k} (funding) (hneg : o.delta < 0)
    (hdelta : o.delta = -(min ((slice e k).unwoundValue - (slice e k).retained) i64Max : ℕ)) :
    SliceCovered e k funding ↔ (o.delta.natAbs : ℤ) ≤ ((slice e k).consumed + premium e k : ℕ) + funding := by
  have hparts : (slice e k).retained = (slice e k).slicePledge - (slice e k).consumed := rfl
  have hle : (slice e k).consumed ≤ (slice e k).slicePledge := consumed_le ..
  unfold SliceCovered
  omega

theorem amortise_tranche_iff {t pod} (h : amortise e after s borrower liquidator ticker prices = .ok s')
    (hpod : podOf (s.depositors borrower).balances ticker = some pod) (hexposure : pod.exposure.natAbs ≤ 2 ^ 63)
    (ho : liquidated e s borrower ticker = .ok o) (ht : o.tranche = some t) (hneg : o.delta < 0) :
    MintsNothing s s' borrower o ↔
      borrower ≠ liquidator ∧ SliceCovered e (deskOf (s.depositors borrower) s.bank pod) 0 := by
  obtain ⟨customer, bank, traded, o', customer', bank', liq, hcustomer, hbank, hrepo, -, hbook, hliq, rfl⟩ :=
    amortise_eq h
  obtain rfl := Except.ok.inj (ho.symm.trans (liquidated_eq hcustomer hbank hrepo))
  obtain ⟨rfl, rfl⟩ := bookLiquidation_neg hneg hbook
  obtain ⟨totalDrawn, hdesk⟩ := repo_bank hrepo
  have hyield : o.desk.bank.yieldPool = s.bank.yieldPool := by rw [hdesk, bankAge_eq hbank]
  have hfound : podOf customer.balances ticker = some pod := by
    rw [depositorAge_eq hcustomer]
    exact hpod
  obtain ⟨hlost, hdelta⟩ := wealth_of_tranche hfound hexposure hrepo ht
  -- the seconds that are added up change nothing that a slice is cut by
  have hdesk : slice e (deskOf customer bank pod) = slice e (deskOf (s.depositors borrower) s.bank pod) ∧
      premium e (deskOf customer bank pod) = premium e (deskOf (s.depositors borrower) s.bank pod) ∧
      customer.wealth = (s.depositors borrower).wealth := by
    rw [depositorAge_eq hcustomer, bankAge_eq hbank]
    exact ⟨rfl, rfl, rfl⟩
  rw [hdesk.1] at hdelta
  rw [hdesk.1, hdesk.2.1, hdesk.2.2] at hlost
  rw [sliceCovered_iff _ hneg hdelta]
  have hcommission := commissionOf_le o.delta
  have hbooked : (reconcileTickerReserve after (s.risks ticker) { o.desk.bank with
      yieldPool := o.desk.bank.yieldPool + o.interest + (o.delta.natAbs - commissionOf o.delta) }).2.yieldPool =
        s.bank.yieldPool + o.interest + (o.delta.natAbs - commissionOf o.delta) := by rw [← hyield]; rfl
  unfold MintsNothing
  dsimp only
  rw [hbooked]
  by_cases hself : borrower = liquidator
  · -- the borrower's account is written over by the liquidator's, which has only gained the commission
    obtain rfl := hself
    rw [update_self]
    obtain ⟨hquid, hbalances⟩ := creditLiquidator_eq hliq
    have hown : liq.wealth = (s.depositors borrower).wealth + commissionOf o.delta := by
      unfold Depositor.wealth
      rw [hquid, hbalances]
      omega
    simp only [ne_eq, not_true_eq_false, false_and, iff_false]
    omega
  · rw [update_of_ne hself, update_self]
    simp only [ne_eq, hself, not_false_eq_true, true_and]
    omega

theorem settleFunding_moves (actuary price) {pod pot} (hfits : pod.pledged + pot < 2 ^ 64) :
    ((settleFunding actuary price pod pot).1.pledged : ℤ) = pod.pledged - fundingMoved actuary price pod pot ∧
      ((settleFunding actuary price pod pot).2 : ℤ) = pot + fundingMoved actuary price pod pot := by
  unfold settleFunding fundingMoved
  generalize fundingOwed actuary.fundingIndex (unitsValueI pod.exposure price) pod.fundingCheckpoint = owed
  dsimp only
  split_ifs
  all_goals
    dsimp only
    try rw [sat_of_lt (by omega)]
    omega

theorem settleFunding_keeps (actuary price pot pod) : (settleFunding actuary price pod pot).1.ticker = pod.ticker ∧
      (settleFunding actuary price pod pot).1.exposure = pod.exposure := by
  unfold settleFunding
  dsimp only
  split_ifs
  all_goals exact ⟨rfl, rfl⟩

theorem fundPosition_some {actuary price risk pod} (hpod : podOf d.balances ticker = some pod) :
    fundPosition actuary price d risk ticker =
      ({ d with balances := putPod ticker (settleFunding actuary price pod risk.fundingPot).1 d.balances },
        { risk with fundingPot := (settleFunding actuary price pod risk.fundingPot).2 }) := by
  unfold fundPosition
  rw [hpod]

theorem fundPosition_wealth (actuary price ticker) {risk}
    (hfits : ∀ pod ∈ d.balances, pod.pledged + risk.fundingPot < 2 ^ 64) :
    (fundPosition actuary price d risk ticker).1.wealth + (fundPosition actuary price d risk ticker).2.fundingPot =
      d.wealth + risk.fundingPot := by
  unfold fundPosition
  cases hpod : podOf d.balances ticker with
  | none => rfl
  | some pod =>
    have hmoved := settleFunding_moves actuary price (hfits pod (List.mem_of_find?_eq_some hpod))
    have hput := pledges_putPod hpod (settleFunding actuary price pod risk.fundingPot).1
    unfold Depositor.wealth
    dsimp only
    omega

theorem mem_putPod {new pod balances} (h : pod ∈ putPod ticker new balances) : pod = new ∨ pod ∈ balances := by
  induction balances with
  | nil => cases h
  | cons first rest ih =>
    unfold putPod at h
    split_ifs at h
    · obtain rfl | hrest := List.mem_cons.mp h
      · exact .inl rfl
      · exact .inr (List.mem_cons_of_mem _ hrest)
    · obtain rfl | hrest := List.mem_cons.mp h
      · exact .inr List.mem_cons_self
      · exact (ih hrest).imp_right (List.mem_cons_of_mem _)

theorem fundPosition_exposure {actuary price risk} (hexposure : ∀ pod ∈ d.balances, pod.exposure.natAbs ≤ 2 ^ 63) :
    ∀ pod ∈ (fundPosition actuary price d risk ticker).1.balances, pod.exposure.natAbs ≤ 2 ^ 63 := by
  unfold fundPosition
  cases hpod : podOf d.balances ticker with
  | none => exact hexposure
  | some pod =>
    intro pod' hmem
    obtain rfl | hmem := mem_putPod hmem
    · rw [(settleFunding_keeps _ _ _ _).2]
      exact hexposure pod (List.mem_of_find?_eq_some hpod)
    · exact hexposure pod' hmem

structure VisitFits (x : Sweep) (pod : Stock) (o : Outcome) : Prop where
  pool : x.bank.yieldPool + o.interest + o.delta.natAbs < 2 ^ 64
  commission : x.commission + commissionOf o.delta < 2 ^ 64
  funding : pod.pledged + x.risk.fundingPot < 2 ^ 64
  exposure : pod.exposure.natAbs ≤ 2 ^ 63

theorem sweepOne_neg {x v} (hopen : (x.depositors v.key).opened)
    (ho : sweptOutcome e ticker x v = .ok o) (hneg : o.delta < 0) : ∃ d, x.crank e ticker v = .ok (d, o) ∧
      (sweepOne e ticker x v).depositors = update x.depositors v.key d ∧ (sweepOne e ticker x v).bank.yieldPool =
        sat (sat (x.bank.yieldPool + o.interest) + (o.delta.natAbs - commissionOf o.delta)) ∧
      (sweepOne e ticker x v).commission = sat (x.commission + commissionOf o.delta) := by
  obtain ⟨⟨d, o'⟩, hrepo, ho'⟩ := of_bind ho
  rw [Except.ok.inj ho'] at hrepo
  obtain ⟨totalDrawn, hdesk⟩ := repo_bank hrepo
  have hyield : o.desk.bank.yieldPool = x.bank.yieldPool := by rw [hdesk]
  refine ⟨d, hrepo, ?_⟩
  unfold sweepOne
  dsimp only
  rw [if_neg (not_not.mpr hopen), hrepo]
  dsimp only
  rw [if_pos (.inl hneg.ne)]
  unfold bookSwept
  dsimp only
  rw [if_pos hneg, ← hyield]
  exact ⟨rfl, rfl, rfl⟩

theorem sweep_tranche_iff {t x v pod} (cranker : Pubkey) (hopen : (x.depositors v.key).opened)
    (hpod : podOf (x.depositors v.key).balances ticker = some pod) (hfits : VisitFits x pod o)
    (ho : sweptOutcome e ticker x v = .ok o) (ht : o.tranche = some t) (hneg : o.delta < 0) :
    VisitMintsNothing cranker x (sweepOne e ticker x v) v.key o ↔ v.key ≠ cranker ∧
      SliceCovered { e with actuary := v.actuary }
        (deskOf (x.depositors v.key) x.bank (settleFunding v.actuary e.price pod x.risk.fundingPot).1)
        (fundingMoved v.actuary e.price pod x.risk.fundingPot) := by
  obtain ⟨d, hrepo, hdepositors, hyield, hcommission⟩ := sweepOne_neg hopen ho hneg
  obtain ⟨hkept, hexposure⟩ := settleFunding_keeps v.actuary e.price x.risk.fundingPot pod
  have hmoved := (settleFunding_moves v.actuary e.price hfits.funding).1
  have hput := pledges_putPod hpod (settleFunding v.actuary e.price pod x.risk.fundingPot).1
  have hfunded := podOf_putPod hpod (hkept.trans (podOf_ticker hpod))
  rw [Sweep.crank, Sweep.funded, fundPosition_some hpod] at hrepo
  obtain ⟨hlost, hdelta⟩ := wealth_of_tranche (d := { x.depositors v.key with
    balances := putPod ticker (settleFunding v.actuary e.price pod x.risk.fundingPot).1 (x.depositors v.key).balances })
    hfunded (hexposure ▸ hfits.exposure) hrepo ht
  have hcut := commissionOf_le o.delta
  have hpool := hfits.pool
  rw [sat_of_lt (n := x.bank.yieldPool + o.interest) (by omega), sat_of_lt (by omega)] at hyield
  rw [sat_of_lt hfits.commission] at hcommission
  have hcovered := sliceCovered_iff (k := deskOf (x.depositors v.key) x.bank _)
    (fundingMoved v.actuary e.price pod x.risk.fundingPot) hneg hdelta
  rw [hcovered]
  have hwealth : (x.depositors v.key).wealth = pledges (x.depositors v.key).balances + (x.depositors v.key).depositedQuid :=
    rfl
  unfold VisitMintsNothing leftBy
  rw [hyield, hcommission]
  unfold Depositor.wealth at hlost
  dsimp only [deskOf] at hlost ⊢
  by_cases hself : v.key = cranker
  · rw [if_pos hself]
    simp only [ne_eq, hself, not_true_eq_false, false_and, iff_false]
    omega
  · rw [if_neg hself, hdepositors, update_self]
    simp only [ne_eq, hself, not_false_eq_true, true_and, Depositor.wealth]
    omega

/-- A tranche mints nothing just when it is another's and worth no more than its part of the pledge, the premium and
what funding has taken. -/
theorem liquidation_mints_nothing_iff (e : Env) (ticker : Ticker) (pod : Stock) (o : Outcome) (t : Tranche)
    (ht : o.tranche = some t) (hneg : o.delta < 0) :
    (∀ (after : Actuary) (s s' : State) (borrower liquidator : Pubkey) (prices : List ℕ),
      amortise e after s borrower liquidator ticker prices = .ok s' →
      podOf (s.depositors borrower).balances ticker = some pod → pod.exposure.natAbs ≤ 2 ^ 63 →
      liquidated e s borrower ticker = .ok o → (MintsNothing s s' borrower o ↔
        borrower ≠ liquidator ∧ SliceCovered e (deskOf (s.depositors borrower) s.bank pod) 0)) ∧
    (∀ (x : Sweep) (v : Visit) (cranker : Pubkey), (x.depositors v.key).opened →
      podOf (x.depositors v.key).balances ticker = some pod → VisitFits x pod o → sweptOutcome e ticker x v = .ok o →
      (VisitMintsNothing cranker x (sweepOne e ticker x v) v.key o ↔ v.key ≠ cranker ∧
        SliceCovered { e with actuary := v.actuary }
          (deskOf (x.depositors v.key) x.bank (settleFunding v.actuary e.price pod x.risk.fundingPot).1)
          (fundingMoved v.actuary e.price pod x.risk.fundingPot))) := by
  constructor
  · intro after s s' borrower liquidator prices h hpod hexposure ho
    exact amortise_tranche_iff h hpod hexposure ho ht hneg
  · intro x v cranker hopen hpod hfits ho
    exact sweep_tranche_iff cranker hopen hpod hfits ho ht hneg

end

def steadyActuary : Actuary where
  netExposure := 0
  premiumIndex := 0
  fundingIndex := 0
  collarBps := fun _ => 1000
  lossProfile := fun _ _ => ⟨2000, 1000, 500⟩
  hazardRateBps := fun _ _ _ _ _ => 0
  maxLeveragePct := fun _ _ => 500
  feeBps := fun _ _ _ _ _ => 30

def heldState (pod : Stock) : State :=
  { State.empty with
    bank := ⟨9999, 1000 * 10 ^ 6, 0, 500 * 10 ^ 6, 0, 100 * 10 ^ 6, 0, 0, 0⟩
    depositors := update State.empty.depositors 1 ⟨true, 0, 0, 9999, 500 * 10 ^ 6, [pod]⟩ }

def leveredLong : Stock := ⟨1, 100 * 10 ^ 6, 5 * 10 ^ 6, 9000, 1000, 0, 0, 500 * 10 ^ 6, 1⟩

def coveredLong : Stock := ⟨1, 80 * 10 ^ 6, 10 ^ 6, 9000, 1000, 0, 0, 100 * 10 ^ 6, 1⟩

def fallenPrice : Env := ⟨60 * 10 ^ 6, 10000, 1, steadyActuary⟩

theorem liquidation_mints_nothing_covered : ∃ s' o t,
    amortise fallenPrice steadyActuary (heldState coveredLong) 1 2 1 [] = .ok s' ∧
      liquidated fallenPrice (heldState coveredLong) 1 1 = .ok o ∧ o.tranche = some t ∧ o.delta < 0 ∧
      MintsNothing (heldState coveredLong) s' 1 o := by
  obtain ⟨s', h, o, ho, t, ht, hneg⟩ : ∃ s', amortise fallenPrice steadyActuary (heldState coveredLong)
      1 2 1 [] = .ok s' ∧ ∃ o, liquidated fallenPrice (heldState coveredLong) 1 1 = .ok o ∧
        ∃ t, o.tranche = some t ∧ o.delta < 0 := by
    decide +kernel
  refine ⟨s', o, t, h, ho, ht, hneg, ?_⟩
  have hiff := (liquidation_mints_nothing_iff fallenPrice 1 coveredLong o t ht hneg).1 _ _ s' _ _ _ h (by decide +kernel)
    (by decide +kernel) ho
  exact hiff.mpr ⟨by decide +kernel, by decide +kernel⟩

theorem tranche_mints : ∃ s' o, amortise fallenPrice steadyActuary (heldState leveredLong) 1 2 1 [] = .ok s' ∧
      liquidated fallenPrice (heldState leveredLong) 1 1 = .ok o ∧ o.delta = -150 * 10 ^ 6 ∧
      ((heldState leveredLong).depositors 1).wealth = 100 * 10 ^ 6 ∧
      (s'.depositors 1).wealth = 49999763 ∧ ¬ MintsNothing (heldState leveredLong) s' 1 o := by
  simp only [exists_and_left, MintsNothing]
  decide +kernel

structure Call where
  env : Env
  amount : ℤ
  pledged : ℕ
  updated : ℕ
  fundingCheckpoint : ℤ
  depositedQuid : ℕ
  drawn : ℕ
  bank : Depository

variable (pod : Stock) (c : Call)

def Call.desk (pod : Stock) : Desk :=
  ⟨{ pod with pledged := c.pledged, updated := c.updated, fundingCheckpoint := c.fundingCheckpoint },
    c.depositedQuid, c.drawn, c.bank⟩

def Call.quote (pod : Stock) : Quote := Stay.quote c.env (c.desk pod) c.amount

def Call.outcome (pod : Stock) : Res Outcome := repoPod c.env (c.desk pod) c.amount

def repoCall : Res Stock := (c.outcome pod).map fun o => o.desk.pod

structure Cured (e : Env) (k : Desk) (q : Quote) (left : Desk) : Prop where
  adding : ¬ q.reducing
  worth : 0 < q.oldValue
  paid : ∃ k' time gap gross, left = Desk.draw k' (asI64 gross) ∧
    (postVariationMargin e k q.oldValue q.oldValue gap time = .ok (some (k', gross)) ∨
      reinstateExposure e k q.oldValue q.oldValue gap time true = .ok (some (k', gross)))

def ClockKept : Prop :=
  ∀ o, c.outcome pod = .ok o → pod.breachedAt ≠ 0 → o.desk.pod.breachedAt = 0 →
    o.desk.pod.exposure = 0 ∨ Cured c.env (chargedDesk c.env (c.desk pod) c.amount) (c.quote pod) o.desk ∨
      WithinEdges pod (c.quote pod)

def Clears (q : Quote) : Prop :=
  (q.oldValue ≤ sat (q.mark + q.collarAmt) ∧ q.mark - q.collarAmt ≤ q.oldValue) ∧
    (0 < pod.exposure ∨ q.mark - q.collarAmt < q.oldValue ∨ q.oldValue = 0)
  deriving Decidable

def ReducesInside : Prop :=
  ∀ o, c.outcome pod = .ok o → pod.breachedAt ≠ 0 → Clears pod (c.quote pod) →
    (c.quote pod).reducing ∨ (c.quote pod).oldValue = 0 →
    o.desk.pod.exposure = 0 ∨ WithinEdges pod (c.quote pod)

instance decidableWithinEdges (pod : Stock) (q : Quote) : Decidable (WithinEdges pod q) :=
  inferInstanceAs (Decidable (ite _ _ _))

instance decidableReducesInside (pod : Stock) (c : Call) : Decidable (ReducesInside pod c) :=
  decidableForallOk (c.outcome pod)

section

variable {e : Env} {k k' : Desk} {q : Quote} {o : Outcome} {amount : ℤ} {time value : ℕ} {pod pod' : Stock}
  {c : Call}

theorem unwind_clock (hset : k.pod.breachedAt ≠ 0) (h : (unwindATranche e k q time).desk.pod.breachedAt = 0) :
    (unwindATranche e k q time).desk.pod.exposure = 0 := by
  unfold unwindATranche at h ⊢
  dsimp only [Stock.excursion, amortiseTranche, Desk.draw] at h ⊢
  rw [if_neg hset] at h ⊢
  split_ifs at h ⊢ with hgrace hclosed
  · exact absurd h hset
  · exact of_decide_eq_true hclosed
  · exact absurd (Nat.add_eq_zero_iff.mp h).1 hset

theorem fundMargin_clock (e k bandBps newValue) :
    (fundMargin e k bandBps newValue).1.pod.breachedAt = k.pod.breachedAt := by
  unfold fundMargin
  dsimp only
  split_ifs
  all_goals rfl

theorem sellLong_clock (e k q amount time) : (sellLong e k q amount time).desk.pod.breachedAt = k.pod.breachedAt := by
  unfold sellLong
  dsimp only
  split_ifs
  all_goals rfl

theorem buyLong_clock (h : buyLong e k q amount time = .ok o) : o.desk.pod.breachedAt = k.pod.breachedAt := by
  obtain ⟨-, marked, collarBps, drawn, rfl⟩ := buyLong_eq h
  exact fundMargin_clock e _ q.bandBps _

theorem issueShort_clock (h : issueShort e k q amount = .ok k') : k'.pod.breachedAt = k.pod.breachedAt := by
  obtain ⟨-, rfl⟩ | ⟨-, rfl⟩ := issueShort_eq h
  · exact fundMargin_clock e _ q.bandBps _
  · rfl

theorem clearBreach_clock (hset : k.pod.breachedAt ≠ 0) : (clearBreach k q value).pod.breachedAt = 0 ↔
      value ≤ sat (q.mark + q.collarAmt) ∧ q.mark - q.collarAmt ≤ value := by
  unfold clearBreach
  split_ifs with hin
  · exact iff_of_true rfl hin
  · exact iff_of_false hset hin

theorem Exits.clock (h : Exits e k q amount o) (hset : k.pod.breachedAt ≠ 0) (horder : q.reducing → amount ≠ 0) :
    (o.desk.pod.breachedAt = 0 → o.desk.pod.exposure = 0 ∨ Cured e k q o.desk ∨ (Unbreached k.pod q ∧ Clears k.pod q)) ∧
    (Clears k.pod q → q.reducing ∨ q.oldValue = 0 → o.desk.pod.breachedAt = 0) := by
  -- the exits that go by the band set the clock back when, and only when, the value is in it
  have hband (hin : Unbreached k.pod q)
      (hclock : o.desk.pod.breachedAt = (clearBreach k q q.oldValue).pod.breachedAt) :
      (o.desk.pod.breachedAt = 0 →
        o.desk.pod.exposure = 0 ∨ Cured e k q o.desk ∨ (Unbreached k.pod q ∧ Clears k.pod q)) ∧
      (Clears k.pod q → q.reducing ∨ q.oldValue = 0 → o.desk.pod.breachedAt = 0) := by
    rw [hclock, clearBreach_clock hset]
    exact ⟨fun hclear => .inr (.inr ⟨hin, hclear, hin.short⟩), fun hclears _ => hclears.1⟩
  cases h with
  | unwound hnone hvalue =>
    refine ⟨fun hreset => .inl (unwind_clock hset hreset), fun _ hreduces => ?_⟩
    obtain hreducing | hworthless := hreduces
    · exact absurd hnone (horder hreducing)
    · omega
  | posted hreducing hvalue h =>
    refine ⟨fun _ => .inr (.inl ⟨hreducing, hvalue, _, _, _, _, rfl, .inl h⟩), fun _ hreduces => ?_⟩
    exact absurd hreduces (by simp [hreducing, hvalue.ne'])
  | reinstated horder hreducing hvalue h =>
    refine ⟨fun _ => .inr (.inl ⟨hreducing, hvalue, _, _, _, _, rfl, .inr h⟩), fun _ hreduces => ?_⟩
    exact absurd hreduces (by simp [hreducing, hvalue.ne'])
  | sold _ hin => exact hband hin (sellLong_clock ..)
  | bought _ hin h => exact hband hin (buyLong_clock h)
  | covered _ hin => exact hband hin rfl
  | marked hshort hin h =>
    have hissue := issueShort_clock h
    exact hband hin hissue
  | ignored _ hside =>
    refine ⟨fun hreset => absurd hreset hset, fun hclears _ => ?_⟩
    have hshort := exposure_nonpos hside
    have hin := hclears.2
    omega

theorem reducing_ordered (e k amount) (h : (quote e k amount).reducing) : amount ≠ 0 := by
  have hreducing : amount ≠ 0 ∧ _ := of_decide_eq_true h
  exact hreducing.1

theorem clockKept_iff (pod c) : ClockKept pod c ↔ ReducesInside pod c := by
  apply forall₂_congr
  intro o ho
  apply forall_congr'
  intro hset
  have horder := reducing_ordered c.env (c.desk pod) c.amount
  obtain ⟨hcall, rfl⟩ | ⟨-, o', rfl, hexit⟩ := repoPod_exits ho
  · -- a margin call has no order and a value, and a clock it sets to nought was the clock of a close
    have hcalled : c.amount = 0 ∧ _ ∧ _ ∧ 0 < (c.quote pod).oldValue := of_decide_eq_true hcall
    constructor
    · intro _ _ hreduces
      obtain hreducing | hworthless := hreduces
      · exact absurd hcalled.1 (horder hreducing)
      · have hvalue := hcalled.2.2.2
        omega
    · intro _ hreset
      exact .inl (unwind_clock (k := checkpointed c.env (c.desk pod)) hset hreset)
  · obtain ⟨hresets, hclears⟩ := hexit.clock hset horder
    constructor
    · intro hkept hclear hreduces
      obtain hclosed | hcured | hin := hkept (hclears hclear hreduces)
      · exact .inl hclosed
      · have hworth := hcured.worth
        have hadding := hcured.adding
        obtain hreducing | hworthless := hreduces
        · exact absurd hreducing hadding
        · omega
      · exact .inr hin
    · intro hinside hreset
      obtain hclosed | hcured | ⟨hin, hclear⟩ := hresets hreset
      · exact .inl hclosed
      · exact .inr (.inl hcured)
      · by_cases hreduces : (c.quote pod).reducing ∨ (c.quote pod).oldValue = 0
        · exact (hinside hclear hreduces).imp_right .inr
        · obtain ⟨hadding, hworth⟩ := not_or.mp hreduces
          exact .inr (.inr (hin.edges hadding (Nat.pos_of_ne_zero hworth)))

/-- The clock is kept just when every reducing order in breach finds the position between its edges, or closes it. -/
theorem breach_clock_kept_iff (pod pod' : Stock) (calls : List Call) (hrun : runAll repoCall pod calls = .ok pod') :
    EveryStep repoCall ClockKept pod calls ↔ EveryStep repoCall ReducesInside pod calls := by
  apply everyStep_congr (I := fun _ => True) (fun _ _ _ _ _ => trivial) _ trivial hrun
  intro pod c pod' _ _
  exact clockKept_iff pod c

end

def orderAt (price : ℕ) (amount : ℤ) : Call :=
  ⟨⟨price, 10000, 1, steadyActuary⟩, amount, 100 * 10 ^ 6, 9000, 0, 0, 500 * 10 ^ 6, (heldState leveredLong).bank⟩

theorem breach_clock_kept_inside : ∃ pod', runAll repoCall leveredLong [orderAt (95 * 10 ^ 6) (-1)] = .ok pod' ∧
    EveryStep repoCall ClockKept leveredLong [orderAt (95 * 10 ^ 6) (-1)] := by
  obtain ⟨pod', hrun⟩ : ∃ pod', runAll repoCall leveredLong [orderAt (95 * 10 ^ 6) (-1)] = .ok pod' := by decide +kernel
  have hinside : EveryStep repoCall ReducesInside leveredLong [orderAt (95 * 10 ^ 6) (-1)] := by decide +kernel
  exact ⟨pod', hrun, (breach_clock_kept_iff _ _ _ hrun).mpr hinside⟩

theorem dust_resets_clock : ∃ pod', runAll repoCall leveredLong [orderAt (88 * 10 ^ 6) (-1)] = .ok pod' ∧
    leveredLong.breachedAt = 1 ∧ pod'.breachedAt = 0 ∧ pod'.exposure = 4999999 ∧
    ((orderAt (88 * 10 ^ 6) (-1)).quote leveredLong).oldValue = 440 * 10 ^ 6 ∧
    ((orderAt (88 * 10 ^ 6) (-1)).quote leveredLong).mark -
      ((orderAt (88 * 10 ^ 6) (-1)).quote leveredLong).triggerAmt = 450 * 10 ^ 6 ∧
    ¬ EveryStep repoCall ClockKept leveredLong [orderAt (88 * 10 ^ 6) (-1)] := by
  refine exists_ok (fun pod' => pod'.breachedAt = 0 ∧ pod'.exposure = 4999999) (by decide +kernel) ?_
  rintro pod' - ⟨hclock, hopen⟩
  have houtside : ¬ ReducesInside leveredLong (orderAt (88 * 10 ^ 6) (-1)) := by decide +kernel
  exact ⟨rfl, hclock, hopen, by decide +kernel, by decide +kernel,
    fun hkept => houtside ((clockKept_iff _ _).mp hkept.1)⟩

end QuidProtocol.Stay
