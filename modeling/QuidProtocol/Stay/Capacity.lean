import QuidProtocol.Stay.Ladder
import QuidProtocol.Stay.Premiums

/-!
The capacity of the pool, against which an order that adds to a long is held.
What a close pays. The premium is taken off the pledge before an order is looked at.
-/

namespace QuidProtocol.Stay

open Lib

def collarDollars (actuary : Actuary) (value pledged : ℕ) : ℕ :=
  sat (collarNotional value pledged * actuary.collarBps (leveragePct value pledged)) / bps

def collarIncrease (e : Env) (before after : Stock) : ℕ :=
  let lelu := LiabilityUpdate.compute (before.valueAt e.price) before.collarBps (after.valueAt e.price) after.pledged
    e.actuary
  lelu.newCollarDollars - lelu.oldCollarDollars

def boughtBack (q : Quote) : ℕ :=
  let gap := q.mark - q.triggerAmt - q.oldValue - q.collarAmt
  let gross := sat (gap + gap / 250)
  gross - gross / 250

def reinstatedValue (e : Env) (exposure : ℤ) (q : Quote) : ℕ :=
  unitsValue (satI64 (exposure + asI64 (valueUnits (boughtBack q) e.price))).natAbs e.price

/-- Below the band the whole units that are bought back have no larger collar than the dollars paid for them. -/
def RoundsWithin (e : Env) (pod : Stock) (q : Quote) : Prop :=
  q.oldValue < q.mark - q.triggerAmt →
    collarDollars e.actuary (reinstatedValue e pod.exposure q) (pod.pledged - q.accrued) ≤
      collarDollars e.actuary (sat (q.oldValue + boughtBack q)) (pod.pledged - q.accrued)
  deriving Decidable

section

variable {e : Env} {k k' : Desk} {q : Quote} {o : Outcome} {amount : ℤ} {time n m gap : ℕ}

theorem collarIncrease_eq (e before after) :
    collarIncrease e before after = collarDollars e.actuary (after.valueAt e.price) after.pledged -
      sat (before.valueAt e.price * before.collarBps) / bps := rfl

theorem hasCapacity_mono {bank : Depository} (h : bank.hasCapacity m = true) (hle : n ≤ m) :
    bank.hasCapacity n = true := by
  unfold Depository.hasCapacity sat at *
  simp only [decide_eq_true_eq] at *
  omega

theorem unitsValue_mono (price : ℕ) (h : n ≤ m) : unitsValue n price ≤ unitsValue m price := by
  have hmul : n * price ≤ m * price := Nat.mul_le_mul_right price h
  have hdiv : sat128 (n * price) / priceScale ≤ sat128 (m * price) / priceScale :=
    Nat.div_le_div_right (min_le_min_right _ hmul)
  exact min_le_min_right _ hdiv

theorem unwind_value_le (q time) (h : IsI64 k.pod.exposure) :
    (unwindATranche e k q time).desk.pod.valueAt e.price ≤ k.pod.valueAt e.price := by
  apply unitsValue_mono
  cases htranche : (unwindATranche e k q time).tranche with
  | some =>
    obtain ⟨hunits, hexposure, -, -⟩ := unwind_taken htranche
    rw [hexposure]
    apply (unwound_cuts h _ e.now).1
    rw [hunits]
    exact min_le_right _ _
  | none =>
    unfold unwindATranche at htranche ⊢
    dsimp only at htranche ⊢
    split_ifs at htranche ⊢
    exact le_rfl

theorem sell_value_le (q time) (hlong : 0 ≤ k.pod.exposure) (hneg : amount < 0) :
    (sellLong e k q amount time).desk.pod.valueAt e.price ≤ k.pod.valueAt e.price := by
  apply unitsValue_mono
  rw [sellLong_exposure]
  unfold satI64
  omega

theorem fundMargin_frame (e k bandBps newValue) : (fundMargin e k bandBps newValue).1.bank = k.bank ∧
      (fundMargin e k bandBps newValue).1.pod.collarBps = k.pod.collarBps := by
  unfold fundMargin
  dsimp only
  split_ifs
  all_goals exact ⟨rfl, rfl⟩

theorem buyLong_gate (h : buyLong e k q amount time = .ok o) :
    k.bank.hasCapacity (collarDollars e.actuary (o.desk.pod.valueAt e.price) o.desk.pod.pledged -
      sat (q.oldValue * k.pod.collarBps) / bps) = true := by
  obtain ⟨hgate, marked, collarBps, drawn, rfl⟩ := buyLong_eq h
  obtain ⟨hbank, hcollar⟩ : (funded e k q amount).1.bank = k.bank ∧
    (funded e k q amount).1.pod.collarBps = k.pod.collarBps := fundMargin_frame e _ q.bandBps _
  rw [hbank, hcollar] at hgate
  exact hgate

theorem reinstate_gate {byOwner value gross} (hlong : 0 ≤ k.pod.exposure)
    (h : reinstateExposure e k n value gap time byOwner = .ok (some (k', gross))) :
    k'.pod.pledged = k.pod.pledged ∧ k'.pod.exposure = satI64 (k.pod.exposure +
      asI64 (valueUnits (sat (gap + gap / 250) - sat (gap + gap / 250) / 250) e.price)) ∧ k.bank.hasCapacity (collarDollars e.actuary
      (sat (value + (sat (gap + gap / 250) - sat (gap + gap / 250) / 250))) k.pod.pledged -
        sat (n * k.pod.collarBps) / bps) = true := by
  obtain ⟨rfl, -, collarBps, rfl⟩ := reinstateExposure_eq h
  rw [if_neg (not_lt.mpr hlong)]
  unfold reinstateExposure at h
  dsimp only at h
  split at h
  · cases Except.ok.inj h
  · obtain ⟨hgate, -⟩ := of_require h
    exact ⟨rfl, rfl, hgate⟩

theorem Exits.gate (h : Exits e k q amount o) (hlong : OnLongSide k.pod amount) (hword : IsI64 k.pod.exposure)
    (hround : q.oldValue < q.mark - q.triggerAmt →
      collarDollars e.actuary (reinstatedValue e k.pod.exposure q) k.pod.pledged ≤
        collarDollars e.actuary (sat (q.oldValue + boughtBack q)) k.pod.pledged)
    (hmore : k.pod.valueAt e.price < o.desk.pod.valueAt e.price) :
    k.bank.hasCapacity (collarDollars e.actuary (o.desk.pod.valueAt e.price) o.desk.pod.pledged -
      sat (q.oldValue * k.pod.collarBps) / bps) = true := by
  have hnonneg : 0 ≤ k.pod.exposure := by
    unfold OnLongSide at hlong
    omega
  obtain ⟨breachedAt, hclear⟩ := clearBreach_eq k q q.oldValue
  cases h with
  | unwound => exact absurd (unwind_value_le q _ hword) (not_le.mpr hmore)
  | posted _ _ hpost =>
    obtain ⟨-, -, collarBps, rfl⟩ := postVariationMargin_eq hpost
    exact absurd hmore (lt_irrefl _)
  | reinstated _ _ _ hbuy _ hbelow =>
    obtain ⟨hpledged, hexposure, hgate⟩ := reinstate_gate hnonneg hbuy
    apply hasCapacity_mono hgate
    apply Nat.sub_le_sub_right
    dsimp only [Desk.draw, Stock.valueAt]
    rw [hpledged, hexposure]
    exact hround hbelow
  | @sold time hneg =>
    rw [hclear] at hmore
    have hless := sell_value_le (e := e) (k := { k with pod := { k.pod with breachedAt } }) q time hnonneg hneg
    exact absurd hless (not_le.mpr hmore)
  | bought _ _ hbuy =>
    rw [hclear] at hbuy
    have hgate := buyLong_gate hbuy
    exact hgate
  | covered _ _ hshort => omega
  | marked hside | ignored _ hside => exact absurd hlong hside

/-- Whatever a call adds on the long side, the pool has the capacity for what it adds to the collar. -/
theorem long_increase_gated (e : Env) (k : Desk) (amount : ℤ) (o : Outcome) (hlong : OnLongSide k.pod amount)
    (hword : IsI64 k.pod.exposure) (hround : RoundsWithin e k.pod (quote e k amount))
    (h : repoPod e k amount = .ok o) (hmore : k.pod.valueAt e.price < o.desk.pod.valueAt e.price) :
    k.bank.hasCapacity (collarIncrease e k.pod o.desk.pod) = true := by
  obtain ⟨-, rfl⟩ | ⟨-, o', rfl, hexit⟩ := repoPod_exits h
  · exact absurd (unwind_value_le (k := checkpointed e k) _ _ hword) (not_le.mpr hmore)
  · have hgate := hexit.gate hlong hword hround hmore
    rw [collarIncrease_eq]
    exact hgate

end

def fullBank : Depository := ⟨9999, 1000 * 10 ^ 6, 0, 500 * 10 ^ 6, 0, 1000 * 10 ^ 6, 0, 0, 0⟩

def flatDesk (bank : Depository) : Desk := ⟨⟨1, 100 * 10 ^ 6, 0, 10000, 1000, 0, 0, 0, 0⟩, 0, 0, bank⟩

theorem long_increase_gated_open : ∃ o,
    repoPod steadyPrice (flatDesk (heldState leveredLong).bank) (10 ^ 6) = .ok o ∧ o.desk.pod.exposure = 10 ^ 6 ∧
    (heldState leveredLong).bank.hasCapacity
      (collarIncrease steadyPrice (flatDesk (heldState leveredLong).bank).pod o.desk.pod) = true := by
  refine exists_ok (fun o => o.desk.pod.exposure = 10 ^ 6 ∧
    (flatDesk (heldState leveredLong).bank).pod.valueAt steadyPrice.price < o.desk.pod.valueAt steadyPrice.price)
    (by decide +kernel) ?_
  rintro o ho ⟨hopen, hmore⟩
  have hround : RoundsWithin steadyPrice (flatDesk (heldState leveredLong).bank).pod
      (quote steadyPrice (flatDesk (heldState leveredLong).bank) (10 ^ 6)) := by decide +kernel
  have hword : IsI64 (flatDesk (heldState leveredLong).bank).pod.exposure := by
    unfold IsI64
    decide
  exact ⟨hopen, long_increase_gated _ _ _ _ (.inr (by decide)) hword hround ho hmore⟩

theorem short_opens_at_capacity : ∃ o, repoPod steadyPrice (flatDesk fullBank) (-10 ^ 6) = .ok o ∧
    (flatDesk fullBank).pod.valueAt steadyPrice.price = 0 ∧
    o.desk.pod.exposure = -10 ^ 6 ∧ o.desk.pod.valueAt steadyPrice.price = 100 * 10 ^ 6 ∧
    collarIncrease steadyPrice (flatDesk fullBank).pod o.desk.pod = 10 * 10 ^ 6 ∧
    fullBank.hasCapacity (collarIncrease steadyPrice (flatDesk fullBank).pod o.desk.pod) = false ∧
    repoPod steadyPrice (flatDesk fullBank) (10 ^ 6) = .error .poolAtCapacity := by decide +kernel

variable (pod : Stock)

def Closes (amount : ℤ) : Prop :=
  (0 < pod.exposure ∧ pod.exposure + amount ≤ 0) ∨ (pod.exposure < 0 ∧ 0 ≤ pod.exposure + amount)

def closeProfit (q : Quote) : ℤ := if 0 < pod.exposure then q.oldValue - q.mark else q.mark - q.oldValue

def closeDue (q : Quote) : ℕ := ((pod.pledged : ℤ) - q.accrued + closeProfit pod q).toNat

def Settled.proceeds (r : Settled) (d : Depositor) : ℕ := r.payout + (r.customer.depositedQuid - d.depositedQuid)

/-- A long has no premium to pay, or no mark, or nothing is due. A short is worth something, lies above its lower edge,
and has a mark, unless it has no premium to pay or nothing is due. -/
def ChargedOnceAtClose (q : Quote) (amount : ℤ) : Prop :=
  if 0 < pod.exposure then pod.marked = 0 ∨ q.accrued = 0 ∨ closeDue pod q = 0
  else if q.oldValue = 0 then pod.exposure + amount = 0 ∧ closeDue pod q = 0
  else q.mark - q.collarAmt < q.oldValue ∧ (pod.marked ≠ 0 ∨ q.accrued = 0 ∨ closeDue pod q = 0)

structure CloseFits (d : Depositor) (pod : Stock) (q : Quote) (amount : ℤ) : Prop where
  exposure : IsI64 pod.exposure
  order : IsI64 amount
  value : pod.pledged + q.oldValue < 2 ^ 64
  mark : pod.pledged + q.mark < 2 ^ 64
  credit : d.depositedQuid + closeDue pod q < 2 ^ 64

section

variable {e : Env} {k : Desk} {q : Quote} {o : Outcome} {amount : ℤ} {time : ℕ} {pod : Stock} {d : Depositor}
  {bank : Depository} {ticker : Ticker}

theorem sellLong_all (e q time) (hlong : 0 < k.pod.exposure) (hall : k.pod.exposure + amount ≤ 0)
    (hword : IsI64 amount) : (sellLong e k q amount time).desk.pod.exposure = 0 ∧
      (sellLong e k q amount time).interest =
        ((k.pod.pledged : ℤ) + (k.pod.valueAt e.price - k.pod.mark) - q.accrued).toNat % 2 ^ 64 := by
  obtain ⟨hlower, -⟩ := hword
  have hordered : satI64 (k.pod.exposure + amount) = k.pod.exposure + amount := satI64_of_word (by omega) (by omega)
  have hover : satI64 (-(k.pod.exposure + amount)) = -(k.pod.exposure + amount) := satI64_of_word (by omega) (by omega)
  have hsold : satI64 (amount + -(k.pod.exposure + amount)) = -k.pod.exposure := by
    rw [satI64_of_word (by omega) (by omega)]
    omega
  have hcut : (if satI64 (k.pod.exposure + amount) < 0 then satI64 (amount + satI64 (-satI64 (k.pod.exposure + amount)))
      else amount).natAbs = k.pod.exposure.natAbs := by
    rw [hordered, hover, hsold]
    split_ifs
    · exact Int.natAbs_neg _
    · omega
  have hnone : max (satI64 (k.pod.exposure + amount)) 0 = 0 := by
    rw [hordered]
    exact max_eq_right hall
  unfold sellLong
  dsimp only
  rw [hcut, if_pos hnone]
  exact ⟨hnone, rfl⟩

theorem whole_share {v value} (hv : v < 2 ^ 64) (hvalue : value < 2 ^ 64) (hpos : 0 < value) :
    sat128 (v * value) / max value 1 = v := by
  have hfits : v * value < 2 ^ 128 := by
    calc v * value < 2 ^ 64 * 2 ^ 64 := Nat.mul_lt_mul'' hv hvalue
      _ = 2 ^ 128 := by norm_num
  have hsat : sat128 (v * value) = v * value := min_eq_left (Nat.le_sub_one_of_lt hfits)
  rw [hsat, max_eq_left hpos, Nat.mul_div_cancel v hpos]

theorem unitsValue_lt (units price : ℕ) : unitsValue units price < 2 ^ 64 := by
  unfold unitsValue sat u64Max
  omega

theorem coverShort_all (e q time) (hshort : k.pod.exposure < 0)
    (hall : 0 ≤ k.pod.exposure + amount) (hexposure : IsI64 k.pod.exposure) (hword : IsI64 amount)
    (hvalue : 0 < k.pod.valueAt e.price) (hpledged : k.pod.pledged < 2 ^ 64) (hmark : k.pod.mark < 2 ^ 64) :
    (coverShort e k q amount (k.pod.valueAt e.price) time).desk.pod.exposure = 0 ∧
      (coverShort e k q amount (k.pod.valueAt e.price) time).interest =
        ((k.pod.pledged : ℤ) + k.pod.mark - k.pod.valueAt e.price).toNat % 2 ^ 64 := by
  obtain ⟨-, hupper⟩ := hword
  have hordered : satI64 (k.pod.exposure + amount) = k.pod.exposure + amount := satI64_of_word (by omega) (by omega)
  have hcut : (if 0 < satI64 (k.pod.exposure + amount) then satI64 (amount - satI64 (k.pod.exposure + amount))
      else amount).natAbs = k.pod.exposure.natAbs := by
    rw [hordered]
    split_ifs
    · -- the most that is covered may be one more than a signed word holds
      unfold IsI64 at hexposure
      unfold satI64
      omega
    · omega
  have hnone : min (satI64 (k.pod.exposure + amount)) 0 = 0 := by
    rw [hordered]
    exact min_eq_right hall
  have hfits : k.pod.valueAt e.price < 2 ^ 64 := unitsValue_lt _ _
  have hredeem : unitsValue k.pod.exposure.natAbs e.price = k.pod.valueAt e.price := rfl
  unfold coverShort settlePartialClose proRata
  dsimp only
  rw [hcut, hredeem, whole_share hpledged hfits hvalue, whole_share hmark hfits hvalue, min_self,
    Nat.mod_eq_of_lt hmark]
  exact ⟨hnone, rfl⟩

theorem repoLong_close (e time) (hreducing : q.reducing) (hneg : amount < 0) :
    repoLong e k q amount time = .ok (sellLong e (clearBreach k q q.oldValue) q amount time) := by
  unfold repoLong
  rw [if_neg (fun h => h.2 hreducing), if_neg (fun h => h.2.2 hreducing), require_of _ hneg.ne, ok_bind, if_pos hneg]

theorem repoShort_close (time : ℕ) (hreducing : q.reducing) (hpos : 0 < amount) (hvalue : 0 < k.pod.valueAt e.price)
    (hq : q.oldValue = k.pod.valueAt e.price) : repoShort e k q amount time = .ok (if q.mark - q.collarAmt < q.oldValue
      then coverShort e (clearBreach k q q.oldValue) q amount q.oldValue time
      else { desk := k, delta := 0, interest := 0 }) := by
  have hfound : unitsValue k.pod.exposure.natAbs e.price = q.oldValue := hq.symm
  unfold repoShort
  rw [hfound, if_neg (fun h => h.2.2 hreducing)]
  by_cases hpivot : q.mark - q.collarAmt < q.oldValue
  · rw [if_pos (.inl hpivot), if_neg (fun h => h.2 hreducing), if_pos ⟨hpos, by omega⟩, if_pos hpivot]
  · rw [if_neg (by omega), if_neg hpivot]

theorem repoShort_worthless (q time) (hpos : 0 < amount) (hvalue : k.pod.valueAt e.price = 0)
    (hword : IsI64 (k.pod.exposure + amount)) :
    ∃ o, repoShort e k q amount time = .ok o ∧ o.desk.pod.exposure = k.pod.exposure + amount ∧ o.delta = 0 ∧
      o.interest = q.accrued := by
  have hfound : unitsValue k.pod.exposure.natAbs e.price = 0 := hvalue
  obtain ⟨breachedAt, hclear⟩ := clearBreach_eq k q 0
  unfold repoShort issueShort
  rw [hfound, if_neg (by simp), if_pos (.inr rfl), if_neg (by simp), if_neg (by simp), if_neg (by omega), ok_bind]
  refine ⟨_, rfl, ?_, rfl, rfl⟩
  rw [hclear]
  exact satI64_of_word hword.1 hword.2

theorem chargedAgain_iff {due : ℤ} (accrued : ℕ) (hfits : due < 2 ^ 64) : (due - accrued).toNat % 2 ^ 64 ≤ due.toNat ∧
      ((due - accrued).toNat % 2 ^ 64 = due.toNat ↔ accrued = 0 ∨ due.toNat = 0) := by
  omega

variable (hq : quote e k amount = q)

include hq

theorem repoPod_order (horder : amount ≠ 0) :
    repoPod e k amount = (if 0 < k.pod.exposure ∨ (k.pod.exposure = 0 ∧ 0 < amount)
      then repoLong e (chargedDesk e k amount) q amount (min (k.pod.updated + q.billedSecs) e.now)
      else repoShort e (chargedDesk e k amount) q amount (min (k.pod.updated + q.billedSecs) e.now)).map
      fun o => { o with charged := q.accrued } := by
  subst hq
  have hcall (k : Desk) (q : Quote) : marginCalled k q amount = false := by
    unfold marginCalled
    simp [horder]
  unfold repoPod
  dsimp only
  rw [hcall, if_neg Bool.false_ne_true]
  rfl

theorem Closes.reducing (h : Closes k.pod amount) : q.reducing = true := by
  unfold Closes at h
  simp only [← hq, quote, decide_eq_true_eq]
  omega

theorem quote_value : q.oldValue = k.pod.valueAt e.price := congrArg Quote.oldValue hq.symm

theorem quote_mark : q.mark = if k.pod.marked = 0 then k.pod.pledged else k.pod.marked := congrArg Quote.mark hq.symm

theorem accrued_worthless (hvalue : k.pod.valueAt e.price = 0) : q.accrued = 0 := by
  rw [← hq]
  unfold quote
  dsimp only
  unfold premiumDue
  rw [hvalue, if_pos (.inr rfl)]

theorem chargedDesk_mark : (chargedDesk e k amount).pod.mark =
    if k.pod.marked = 0 then k.pod.pledged - q.accrued else k.pod.marked := by
  rw [← hq]
  rfl

theorem chargedDesk_pledged : q.accrued ≤ k.pod.pledged ∧
    ((chargedDesk e k amount).pod.pledged : ℤ) = k.pod.pledged - q.accrued := by
  rw [← hq]
  exact ⟨accrued_le e k amount, Nat.cast_sub (accrued_le e k amount)⟩

section

variable (hlong : 0 < k.pod.exposure) (hall : k.pod.exposure + amount ≤ 0)

include hlong hall

theorem repoPod_close_long (hword : IsI64 amount) : ∃ o, repoPod e k amount = .ok o ∧ o.desk.pod.exposure = 0 ∧
      o.interest = (((chargedDesk e k amount).pod.pledged : ℤ) +
        (k.pod.valueAt e.price - (chargedDesk e k amount).pod.mark) - q.accrued).toNat % 2 ^ 64 := by
  have hneg : amount < 0 := by omega
  obtain ⟨breachedAt, hpod⟩ := clearBreach_eq (chargedDesk e k amount) q q.oldValue
  rw [repoPod_order hq hneg.ne, if_pos (.inl hlong), repoLong_close e _ (Closes.reducing hq (.inl ⟨hlong, hall⟩)) hneg,
    hpod]
  exact ⟨_, rfl, sellLong_all e q _ hlong hall hword⟩

theorem repoPod_close_long_iff (hfits : CloseFits d k.pod q amount) :
    ∃ o, repoPod e k amount = .ok o ∧ o.interest ≤ closeDue k.pod q ∧ o.desk.pod.exposure = 0 ∧
      (o.interest = closeDue k.pod q ↔ k.pod.marked = 0 ∨ q.accrued = 0 ∨ closeDue k.pod q = 0) := by
  obtain ⟨haccrued, hcharged⟩ := chargedDesk_pledged hq
  have hfitsValue := hfits.value
  obtain ⟨o, ho, hclosed, hinterest⟩ := repoPod_close_long hq hlong hall hfits.order
  refine ⟨o, ho, ?_⟩
  unfold closeDue closeProfit
  rw [hinterest, chargedDesk_mark hq, hcharged, if_pos hlong, quote_mark hq, ← quote_value hq]
  by_cases hset : k.pod.marked = 0
  · have hdue : (k.pod.pledged : ℤ) - q.accrued + (q.oldValue - (k.pod.pledged - q.accrued)) - q.accrued =
        k.pod.pledged - q.accrued + (q.oldValue - k.pod.pledged) := by ring
    rw [if_pos hset, if_pos hset, Nat.cast_sub haccrued, hdue, Nat.mod_eq_of_lt (by omega)]
    exact ⟨le_rfl, hclosed, fun _ => .inl hset, fun _ => rfl⟩
  · rw [if_neg hset, if_neg hset]
    obtain ⟨hle, hiff⟩ := chargedAgain_iff q.accrued (show (k.pod.pledged : ℤ) - q.accrued +
      (q.oldValue - k.pod.marked) < 2 ^ 64 by omega)
    exact ⟨hle, hclosed, fun heq => .inr (hiff.mp heq), fun honce => hiff.mpr (honce.resolve_left hset)⟩

end

variable (hshort : k.pod.exposure < 0) (hall : 0 ≤ k.pod.exposure + amount)

include hshort hall

theorem repoPod_short {o} (h : repoShort e (chargedDesk e k amount) q amount
      (min (k.pod.updated + q.billedSecs) e.now) = .ok o) : repoPod e k amount = .ok { o with charged := q.accrued } := by
  have hside : ¬ (0 < k.pod.exposure ∨ (k.pod.exposure = 0 ∧ 0 < amount)) := by omega
  rw [repoPod_order hq (by omega), if_neg hside, h]
  rfl

theorem repoPod_close_worthless (hexposure : IsI64 k.pod.exposure) (hword : IsI64 amount) (hworth : q.oldValue = 0) :
    ∃ o, repoPod e k amount = .ok o ∧ o.desk.pod.exposure = k.pod.exposure + amount ∧ o.interest = 0 := by
  rw [quote_value hq] at hworth
  have hsum : IsI64 (k.pod.exposure + amount) := by
    unfold IsI64 at *
    omega
  obtain ⟨o, ho, hleft, -, hinterest⟩ := repoShort_worthless (k := chargedDesk e k amount) q
    (min (k.pod.updated + q.billedSecs) e.now) (by omega) hworth hsum
  refine ⟨_, repoPod_short hq hshort hall ho, hleft, ?_⟩
  rw [← accrued_worthless hq hworth]
  exact hinterest

variable (hworth : q.oldValue ≠ 0)

include hworth

theorem repoPod_close_short_eq : repoPod e k amount = .ok
      { (if q.mark - q.collarAmt < q.oldValue
        then coverShort e (clearBreach (chargedDesk e k amount) q q.oldValue) q amount q.oldValue
          (min (k.pod.updated + q.billedSecs) e.now)
        else { desk := chargedDesk e k amount, delta := 0, interest := 0 }) with charged := q.accrued } := by
  have hvalue := quote_value hq
  exact repoPod_short hq hshort hall (repoShort_close (k := chargedDesk e k amount) _
    (Closes.reducing hq (.inr ⟨hshort, hall⟩)) (by omega) (Nat.pos_of_ne_zero (hvalue ▸ hworth)) hvalue)

theorem repoPod_ignored (hpivot : ¬ q.mark - q.collarAmt < q.oldValue) :
    ∃ o, repoPod e k amount = .ok o ∧ o.desk.pod.exposure = k.pod.exposure ∧ o.interest = 0 := by
  rw [repoPod_close_short_eq hq hshort hall hworth, if_neg hpivot]
  exact ⟨_, rfl, rfl, rfl⟩

theorem repoPod_close_short (hexposure : IsI64 k.pod.exposure) (hword : IsI64 amount) (hpledged : k.pod.pledged < 2 ^ 64)
    (hmark : q.mark < 2 ^ 64) (hpivot : q.mark - q.collarAmt < q.oldValue) :
    ∃ o, repoPod e k amount = .ok o ∧ o.desk.pod.exposure = 0 ∧ o.interest =
      (((chargedDesk e k amount).pod.pledged : ℤ) + (chargedDesk e k amount).pod.mark - q.oldValue).toNat % 2 ^ 64 := by
  obtain ⟨breachedAt, hpod⟩ := clearBreach_eq (chargedDesk e k amount) q q.oldValue
  have hvalue := quote_value hq
  have hless : (chargedDesk e k amount).pod.mark ≤ q.mark := by
    rw [chargedDesk_mark hq, quote_mark hq]
    split_ifs
    · exact Nat.sub_le _ _
    · exact le_rfl
  rw [repoPod_close_short_eq hq hshort hall hworth, if_pos hpivot, hpod, hvalue]
  rw [hvalue] at hworth
  exact ⟨_, rfl, coverShort_all e q _ hshort hall hexposure hword (Nat.pos_of_ne_zero hworth)
    ((Nat.sub_le _ _).trans_lt hpledged) (hless.trans_lt hmark)⟩

theorem repoPod_close_short_iff (hfits : CloseFits d k.pod q amount) (hpivot : q.mark - q.collarAmt < q.oldValue) :
    ∃ o, repoPod e k amount = .ok o ∧ o.interest ≤ closeDue k.pod q ∧ o.desk.pod.exposure = 0 ∧
      (o.interest = closeDue k.pod q ↔ k.pod.marked ≠ 0 ∨ q.accrued = 0 ∨ closeDue k.pod q = 0) := by
  obtain ⟨haccrued, hcharged⟩ := chargedDesk_pledged hq
  have hfitsMark := hfits.mark
  obtain ⟨o, ho, hclosed, hinterest⟩ := repoPod_close_short hq hshort hall hworth hfits.exposure hfits.order
    (by omega) (by omega) hpivot
  refine ⟨o, ho, ?_⟩
  unfold closeDue closeProfit
  rw [quote_mark hq] at hfitsMark
  rw [hinterest, chargedDesk_mark hq, hcharged, if_neg hshort.not_gt, quote_mark hq]
  by_cases hset : k.pod.marked = 0
  · have hagain : (k.pod.pledged : ℤ) - q.accrued + (k.pod.pledged - q.accrued) - q.oldValue =
        k.pod.pledged - q.accrued + (k.pod.pledged - q.oldValue) - q.accrued := by ring
    rw [if_pos hset] at hfitsMark
    rw [if_pos hset, if_pos hset, Nat.cast_sub haccrued, hagain]
    obtain ⟨hle, hiff⟩ := chargedAgain_iff q.accrued (show (k.pod.pledged : ℤ) - q.accrued +
      (k.pod.pledged - q.oldValue) < 2 ^ 64 by omega)
    exact ⟨hle, hclosed, fun heq => .inr (hiff.mp heq), fun honce => hiff.mpr (honce.resolve_left (not_not.mpr hset))⟩
  · have hdue : (k.pod.pledged : ℤ) - q.accrued + k.pod.marked - q.oldValue =
        k.pod.pledged - q.accrued + (k.pod.marked - q.oldValue) := by ring
    rw [if_neg hset] at hfitsMark
    rw [if_neg hset, if_neg hset, hdue, Nat.mod_eq_of_lt (by omega)]
    exact ⟨le_rfl, hclosed, fun _ => .inl hset, fun _ => rfl⟩

omit hshort hall hworth in
theorem repoPod_close_iff (hcloses : Closes k.pod amount) (hfits : CloseFits d k.pod q amount) :
    ∃ o, repoPod e k amount = .ok o ∧ o.interest ≤ closeDue k.pod q ∧
      (o.desk.pod.exposure = 0 ∨ o.interest = 0) ∧
      (o.desk.pod.exposure = 0 ∧ o.interest = closeDue k.pod q ↔ ChargedOnceAtClose k.pod q amount) := by
  unfold ChargedOnceAtClose
  obtain ⟨hlong, hall⟩ | ⟨hshort, hall⟩ := hcloses
  · obtain ⟨o, ho, hle, hclosed, hiff⟩ := repoPod_close_long_iff hq hlong hall hfits
    rw [if_pos hlong]
    exact ⟨o, ho, hle, .inl hclosed, fun h => hiff.mp h.2, fun h => ⟨hclosed, hiff.mpr h⟩⟩
  rw [if_neg hshort.not_gt]
  by_cases hworth : q.oldValue = 0
  · obtain ⟨o, ho, hleft, hinterest⟩ := repoPod_close_worthless hq hshort hall hfits.exposure hfits.order hworth
    refine ⟨o, ho, ?_⟩
    rw [hinterest, hleft, if_pos hworth]
    exact ⟨Nat.zero_le _, .inr rfl, fun h => ⟨h.1, h.2.symm⟩, fun h => ⟨h.1, h.2.symm⟩⟩
  rw [if_neg hworth]
  by_cases hpivot : q.mark - q.collarAmt < q.oldValue
  · obtain ⟨o, ho, hle, hclosed, hiff⟩ := repoPod_close_short_iff hq hshort hall hworth hfits hpivot
    exact ⟨o, ho, hle, .inl hclosed, fun h => ⟨hpivot, hiff.mp h.2⟩, fun h => ⟨hclosed, hiff.mpr h.2⟩⟩
  · obtain ⟨o, ho, hopen, hinterest⟩ := repoPod_ignored hq hshort hall hworth hpivot
    refine ⟨o, ho, ?_⟩
    rw [hinterest, hopen]
    exact ⟨Nat.zero_le _, .inr rfl, fun h => absurd h.1 hshort.ne, fun h => absurd h.1 hpivot⟩

end

section

variable {o : Outcome} {d : Depositor}

theorem dispatchTrade_proceeds {before} (preDq now : ℕ) (hopen : before.exposure ≠ 0)
    (hpod : podOf d.balances before.ticker = some o.desk.pod) (hclosed : o.desk.pod.exposure = 0 ∨ o.interest = 0)
    (hfits : d.depositedQuid + o.interest < 2 ^ 64) :
    (dispatchTrade o d before preDq 0 now).proceeds d = o.interest := by
  unfold dispatchTrade Settled.proceeds
  dsimp only
  rw [hpod, Option.map_some, Option.getD_some]
  split_ifs with hneg hcredit hpos
  · simp
  · dsimp only
    rw [sat_of_lt hfits]
    omega
  all_goals
    dsimp only
    omega

/-- A close pays what is due just when the premium is taken once and a short is above its lower edge. -/
theorem close_pays_due_iff (e : Env) (d : Depositor) (bank : Depository) (ticker : Ticker) (amount : ℤ)
    (pod before : Stock) (preDq : ℕ) (hprice : 0 < e.price) (hpod : podOf d.balances ticker = some pod)
    (hticker : before.ticker = ticker) (hbefore : before.exposure = pod.exposure) (hcloses : Closes pod amount)
    (hfits : CloseFits d pod (quote e ⟨pod, d.depositedQuid, d.drawn, bank⟩ amount) amount) :
    ∃ d' o, repo e d bank ticker amount = .ok (d', o) ∧
      (o.desk.pod.exposure = 0 ∧ (dispatchTrade o d' before preDq 0 e.now).proceeds d' =
          closeDue pod (quote e ⟨pod, d.depositedQuid, d.drawn, bank⟩ amount) ↔
        ChargedOnceAtClose pod (quote e ⟨pod, d.depositedQuid, d.drawn, bank⟩ amount) amount) := by
  obtain ⟨o, ho, hle, hclosed, hiff⟩ := repoPod_close_iff (k := ⟨pod, d.depositedQuid, d.drawn, bank⟩) rfl hcloses hfits
  have hle : o.interest ≤ closeDue pod (quote e ⟨pod, d.depositedQuid, d.drawn, bank⟩ amount) := hle
  have hkeeps := keeps_repoPod ho
  have hopen : before.exposure ≠ 0 := by
    unfold Closes at hcloses
    omega
  have hput : podOf (d.settle ticker o.desk).balances before.ticker = some o.desk.pod := by
    rw [hticker]
    exact podOf_putPod hpod (hkeeps.ticker.trans (podOf_ticker hpod))
  have hcredit : (d.settle ticker o.desk).depositedQuid + o.interest < 2 ^ 64 := by
    have hquid : o.desk.depositedQuid ≤ d.depositedQuid := hkeeps.quid
    have hroom := hfits.credit
    change o.desk.depositedQuid + o.interest < 2 ^ 64
    omega
  refine ⟨d.settle ticker o.desk, o, ?_, ?_⟩
  · unfold repo
    rw [require_of _ hprice, hpod, ok_bind]
    exact bind_eq_ok.mpr ⟨pod, rfl, bind_eq_ok.mpr ⟨o, ho, rfl⟩⟩
  · rw [dispatchTrade_proceeds preDq e.now hopen hput hclosed hcredit]
    exact hiff

end

def openShort : Stock := { openLong with exposure := -5 * 10 ^ 6 }

def closingPrice (price : ℕ) : Env := ⟨price, 10000, 1, steadyActuary⟩

def closeOrder (price : ℕ) (amount : ℤ) : Res (Depositor × Outcome) :=
  repo (closingPrice price) ((heldState pod).depositors 1) (heldState pod).bank 1 amount

def closeQuote (price : ℕ) (amount : ℤ) : Quote :=
  quote (closingPrice price) ⟨pod, 0, 500 * 10 ^ 6, (heldState pod).bank⟩ amount

theorem close_pays_due_short : ∃ d' o, closeOrder openShort (90 * 10 ^ 6) (5 * 10 ^ 6) = .ok (d', o) ∧
    (closeQuote openShort (90 * 10 ^ 6) (5 * 10 ^ 6)).accrued = 713 ∧ o.desk.pod.exposure = 0 ∧
    (dispatchTrade o d' openShort 0 0 10000).proceeds d' =
      closeDue openShort (closeQuote openShort (90 * 10 ^ 6) (5 * 10 ^ 6)) := by
  have hfits : CloseFits ((heldState openShort).depositors 1) openShort
      (closeQuote openShort (90 * 10 ^ 6) (5 * 10 ^ 6)) (5 * 10 ^ 6) := by
    constructor
    · unfold IsI64
      decide
    · unfold IsI64
      decide
    all_goals decide +kernel
  have honce : ChargedOnceAtClose openShort (closeQuote openShort (90 * 10 ^ 6) (5 * 10 ^ 6)) (5 * 10 ^ 6) := by
    unfold ChargedOnceAtClose
    decide +kernel
  have hcloses : Closes openShort (5 * 10 ^ 6) := by
    unfold Closes
    decide
  obtain ⟨d', o, h, hiff⟩ := close_pays_due_iff (closingPrice (90 * 10 ^ 6)) ((heldState openShort).depositors 1)
    (heldState openShort).bank 1 (5 * 10 ^ 6) openShort openShort 0 (by decide) (by decide +kernel) rfl rfl hcloses hfits
  obtain ⟨hclosed, hproceeds⟩ := hiff.mpr honce
  exact ⟨d', o, h, by decide +kernel, hclosed, hproceeds⟩

theorem long_close_charged_twice :
    (∃ d' o, closeOrder openLong (110 * 10 ^ 6) (-5 * 10 ^ 6) = .ok (d', o) ∧ o.desk.pod.exposure = 0 ∧
      (closeQuote openLong (110 * 10 ^ 6) (-5 * 10 ^ 6)).accrued = 872 ∧
      closeDue openLong (closeQuote openLong (110 * 10 ^ 6) (-5 * 10 ^ 6)) = 249999128 ∧
      (dispatchTrade o d' openLong 0 0 10000).proceeds d' = 249999128 - 872) ∧
    ∃ d' o, closeOrder openShort (70 * 10 ^ 6) (5 * 10 ^ 6) = .ok (d', o) ∧ o.desk.pod.exposure = -5 * 10 ^ 6 ∧
      closeDue openShort (closeQuote openShort (70 * 10 ^ 6) (5 * 10 ^ 6)) = 349999446 ∧
      (dispatchTrade o d' openShort 0 0 10000).proceeds d' = 0 := by decide +kernel

end QuidProtocol.Stay
