import QuidProtocol.Stay.Risk
import QuidProtocol.Lib.Average

/-!
The average price of a ticker over time.
-/

namespace QuidProtocol.Stay

open Lib

def ladderWindowSlots : ℤ := (liqGraceSecs * 5 / 2 : ℕ)

def twapStepSlots : ℤ := ladderWindowSlots.tdiv 16

def twapRetainBps : ℤ := 9394

def gapMinSlots : ℤ := ladderWindowSlots * 8

def powBps (base n : ℤ) : ℤ := if n ≤ 0 then bps else (powFixed bps 64 bps (max 0 (min base bps)).toNat n.toNat : ℕ)

def twapAlphaBps (dt : ℤ) : ℤ := max 1 (min (bps : ℤ) (bps - powBps twapRetainBps ((max dt 0).tdiv twapStepSlots)))

structure Twap where
  twapPrice : ℤ
  lastPrice : ℤ
  lastPriceSlot : ℤ

namespace Twap

def updatePrice (a : Twap) (price slot : ℤ) : Twap :=
  if a.lastPrice = 0 then { twapPrice := price, lastPrice := price, lastPriceSlot := slot }
  else
    let dt := max 1 (slot - a.lastPriceSlot)
    let alpha := twapAlphaBps dt
    { twapPrice := if gapMinSlots ≤ dt then wrapI64 (blendOnce bps alpha a.twapPrice price)
        else min (blend bps alpha a.twapPrice price) i64Max
      lastPrice := price
      lastPriceSlot := slot }

def updates (a : Twap) (price : ℤ) (slots : List ℤ) : Twap := slots.foldl (fun a slot => a.updatePrice price slot) a

def distance (a : Twap) (price : ℤ) : ℤ := |a.twapPrice - price|

structure Started (a : Twap) : Prop where
  printed : a.lastPrice ≠ 0
  nonneg : 0 ≤ a.twapPrice
  word : a.twapPrice < 2 ^ 63

end Twap

def retained (dt : ℤ) : ℤ := bps - twapAlphaBps (max 1 dt)

/-- The slots between one call and the next. -/
def gaps (first : ℤ) : List ℤ → List ℤ
  | [] => []
  | slot :: slots => (slot - first) :: gaps slot slots

/-- A call spans less than two steps, and there are at most 625 calls within a step for each step of the interval that
no call of one step spans. -/
def PacedPrints (first : ℤ) (slots : List ℤ) (last : ℤ) : Prop :=
  (∀ dt ∈ gaps first slots, dt < 2 * twapStepSlots) ∧
    ∃ k, (gaps first slots).countP (twapStepSlots ≤ ·) + k ≤ ((last - first) / twapStepSlots).toNat ∧
      (gaps first slots).countP (· < twapStepSlots) ≤ 625 * k

theorem twapAlphaBps_range (dt : ℤ) : 1 ≤ twapAlphaBps dt ∧ twapAlphaBps dt ≤ bps :=
  ⟨le_max_left _ _, max_le (by decide) (min_le_left _ _)⟩

theorem retained_nonneg (dt : ℤ) : 0 ≤ retained dt := sub_nonneg.mpr (twapAlphaBps_range _).2

theorem wrapI64_of_nonneg {x} (hnonneg : 0 ≤ x) (hfits : x < 2 ^ 63) : wrapI64 x = x := by
  unfold wrapI64 asU64 asI64
  omega

def blended (a : Twap) (price slot : ℤ) : ℤ :=
  if gapMinSlots ≤ max 1 (slot - a.lastPriceSlot) then
    blendOnce bps (twapAlphaBps (max 1 (slot - a.lastPriceSlot))) a.twapPrice price
  else blend bps (twapAlphaBps (max 1 (slot - a.lastPriceSlot))) a.twapPrice price

theorem bps_pos : (0 : ℤ) < bps := by decide

section Print

variable {a : Twap} {price : ℤ}

/-- The two roundings take less than two units off the average. -/
theorem print_rounds (a : Twap) (price slot : ℤ) :
    (a.twapPrice - price) * retained (slot - a.lastPriceSlot) ≤ (blended a price slot - price) * bps + 2 * (bps - 1) := by
  have hround : a.twapPrice * (bps - twapAlphaBps (max 1 (slot - a.lastPriceSlot))) +
      price * twapAlphaBps (max 1 (slot - a.lastPriceSlot)) ≤ blended a price slot * bps + 2 * (bps - 1) := by
    unfold blended
    split_ifs
    · have hbps : (2 : ℤ) ≤ bps := by decide
      refine (lt_blendOnce_mul bps_pos).le.trans ?_
      linarith
    · exact le_blend_mul bps_pos
  unfold retained
  linarith

variable (ha : a.Started) (hprice : 0 < price)

include ha hprice

theorem weights_nonneg (slot : ℤ) : 0 ≤ a.twapPrice * (bps - twapAlphaBps (max 1 (slot - a.lastPriceSlot))) ∧
      0 ≤ price * twapAlphaBps (max 1 (slot - a.lastPriceSlot)) := by
  apply weighted_nonneg _ (twapAlphaBps_range _).2 ha.nonneg hprice.le
  linarith [(twapAlphaBps_range (max 1 (slot - a.lastPriceSlot))).1]

theorem blended_mul_le (slot : ℤ) :
    blended a price slot * bps ≤ a.twapPrice * (bps - twapAlphaBps (max 1 (slot - a.lastPriceSlot))) +
      price * twapAlphaBps (max 1 (slot - a.lastPriceSlot)) := by
  have hweights := weights_nonneg ha hprice slot
  unfold blended
  split_ifs
  · exact blendOnce_mul_le bps_pos hweights.1 hweights.2
  · exact blend_mul_le bps_pos hweights.1 hweights.2

theorem blended_nonneg (slot : ℤ) : 0 ≤ blended a price slot := by
  have hweights := weights_nonneg ha hprice slot
  unfold blended
  split_ifs
  · exact Int.tdiv_nonneg (add_nonneg hweights.1 hweights.2) bps_pos.le
  · exact add_nonneg (Int.tdiv_nonneg hweights.1 bps_pos.le) (Int.tdiv_nonneg hweights.2 bps_pos.le)

theorem print_retains (slot : ℤ) :
    (price - a.twapPrice) * retained (slot - a.lastPriceSlot) ≤ (price - blended a price slot) * bps :=
  gap_retained (blended_mul_le ha hprice slot)

variable (hfits : price < 2 ^ 63)

include hfits

theorem updatePrice_eq (slot : ℤ) :
    a.updatePrice price slot = { twapPrice := blended a price slot, lastPrice := price, lastPriceSlot := slot } ∧
      (a.updatePrice price slot).Started := by
  have hnonneg := blended_nonneg ha hprice slot
  have hword : blended a price slot < 2 ^ 63 := by
    have hle := le_of_weighted (p := 2 ^ 63 - 1) bps_pos (twapAlphaBps_range _).2 (by linarith [ha.word])
      ((blended_mul_le ha hprice slot).trans (add_le_add_right (mul_le_mul_of_nonneg_right (by linarith)
        (zero_le_one.trans (twapAlphaBps_range _).1)) _))
    linarith
  have heq : a.updatePrice price slot = ⟨blended a price slot, price, slot⟩ := by
    have hmax : (i64Max : ℤ) = 2 ^ 63 - 1 := by decide
    unfold blended at hnonneg hword
    simp only [Twap.updatePrice, if_neg ha.printed, blended]
    split_ifs at hnonneg hword ⊢ with hgap
    · rw [wrapI64_of_nonneg hnonneg hword]
    · rw [min_eq_left (by omega)]
  rw [heq]
  exact ⟨rfl, hprice.ne', hnonneg, hword⟩

end Print

theorem twapStepSlots_eq : twapStepSlots = 562 := by decide

theorem retained_eq (dt : ℤ) :
    retained dt = bps - max 1 (min (bps : ℤ) (bps - powBps twapRetainBps (dt / twapStepSlots))) := by
  have hsteps : (max (max 1 dt) 0).tdiv 562 = max 0 (dt / 562) := by
    rw [Int.tdiv_eq_ediv_of_nonneg (le_max_right _ _)]
    omega
  unfold retained twapAlphaBps
  rw [twapStepSlots_eq, hsteps]
  obtain hneg | hpos := le_total (dt / 562) 0
  · rw [max_eq_left hneg, powBps, powBps, if_pos le_rfl, if_pos hneg]
  · rw [max_eq_right hpos]

theorem retained_short {dt} (h : dt < twapStepSlots) : retained dt = bps - 1 := by
  have hnone : dt / twapStepSlots ≤ 0 := by
    rw [twapStepSlots_eq] at h ⊢
    omega
  rw [retained_eq, powBps, if_pos hnone]
  decide +kernel

theorem retained_step {dt} (h : twapStepSlots ≤ dt) (h' : dt < 2 * twapStepSlots) : retained dt = twapRetainBps := by
  have hone : dt / twapStepSlots = 1 := by
    rw [twapStepSlots_eq] at h h' ⊢
    omega
  rw [retained_eq, hone]
  decide +kernel

theorem retained_prod {ds : List ℤ} (h : ∀ dt ∈ ds, dt < 2 * twapStepSlots) : (ds.map retained).prod =
        twapRetainBps ^ ds.countP (twapStepSlots ≤ ·) * (bps - 1) ^ ds.countP (· < twapStepSlots) ∧
      ds.length = ds.countP (twapStepSlots ≤ ·) + ds.countP (· < twapStepSlots) := by
  induction ds with
  | nil => simp
  | cons dt ds ih =>
    rw [List.forall_mem_cons] at h
    obtain ⟨hprod, hlength⟩ := ih h.2
    rw [List.map_cons, List.prod_cons, hprod, List.length_cons, hlength]
    by_cases hlong : twapStepSlots ≤ dt
    · simp only [List.countP_cons, hlong, not_lt.mpr hlong, decide_true, decide_false, retained_step hlong h.1]
      exact ⟨by simp; ring, by simp; omega⟩
    · simp only [List.countP_cons, hlong, not_le.mp hlong, decide_true, decide_false, retained_short (not_le.mp hlong)]
      exact ⟨by simp; ring, by simp; omega⟩

theorem retained_le_powFixed {dt : ℤ} (hsteps : 0 < (dt / twapStepSlots).toNat) :
    retained dt ≤ (powFixed bps 64 bps 9394 (dt / twapStepSlots).toNat : ℕ) := by
  have hpow : powBps twapRetainBps (dt / twapStepSlots) = (powFixed bps 64 bps 9394 (dt / twapStepSlots).toNat : ℕ) :=
    if_neg (by omega)
  have hbps : (bps : ℤ) = 10000 := rfl
  rw [retained_eq, hpow]
  omega

theorem retained_le_pow {dt : ℤ} {m : ℕ} (hsteps : m < (dt / twapStepSlots).toNat) (hword : dt < 2 ^ 63) :
    retained dt * bps ^ m ≤ twapRetainBps ^ (m + 1) := by
  have hcount : (dt / twapStepSlots).toNat < 2 ^ 64 := by
    rw [twapStepSlots_eq]
    omega
  have hle : powFixed bps 64 bps 9394 (dt / twapStepSlots).toNat * bps ^ m ≤ 9394 ^ (m + 1) :=
    powFixed_le_pow (by decide) (by decide) hcount hsteps
  calc retained dt * bps ^ m ≤ (powFixed bps 64 bps 9394 (dt / twapStepSlots).toNat : ℕ) * bps ^ m :=
        mul_le_mul_of_nonneg_right (retained_le_powFixed (by omega)) (pow_nonneg bps_pos.le m)
    _ ≤ twapRetainBps ^ (m + 1) := by
        rw [twapRetainBps]
        exact_mod_cast hle

/-- 625 calls within a step retain no less than one step does. -/
theorem short_retain {j k : ℕ} (h : j ≤ 625 * k) : 9394 ^ k * 10000 ^ j ≤ 9999 ^ j * 10000 ^ k := by
  have hone : 9394 * 10000 ^ 625 ≤ 9999 ^ 625 * 10000 := by decide +kernel
  obtain ⟨i, hi⟩ := Nat.exists_eq_add_of_le h
  apply Nat.le_of_mul_le_mul_right _ (Nat.pow_pos (n := i) (by decide : 0 < 10000))
  calc 9394 ^ k * 10000 ^ j * 10000 ^ i = (9394 * 10000 ^ 625) ^ k := by
        rw [mul_assoc, ← pow_add, ← hi, mul_pow, ← pow_mul]
    _ ≤ (9999 ^ 625 * 10000) ^ k := Nat.pow_le_pow_left hone k
    _ = 9999 ^ j * 9999 ^ i * 10000 ^ k := by rw [mul_pow, ← pow_mul, hi, pow_add]
    _ ≤ 9999 ^ j * 10000 ^ i * 10000 ^ k := by gcongr; decide
    _ = 9999 ^ j * 10000 ^ k * 10000 ^ i := by ring

theorem length_gaps (first : ℤ) (slots : List ℤ) : (gaps first slots).length = slots.length := by
  induction slots generalizing first with
  | nil => rfl
  | cons slot slots ih => rw [gaps, List.length_cons, ih, List.length_cons]

theorem paced_retains {first last : ℤ} {slots : List ℤ} (h : PacedPrints first (slots ++ [last]) last)
    (hword : last - first < 2 ^ 63) :
    retained (last - first) * bps ^ slots.length ≤ ((gaps first (slots ++ [last])).map retained).prod := by
  obtain ⟨hnear, k, hlong, hshort⟩ := h
  obtain ⟨hprod, hlength⟩ := retained_prod hnear
  rw [length_gaps, List.length_append, List.length_singleton] at hlength
  rw [hprod]
  generalize (gaps first (slots ++ [last])).countP (twapStepSlots ≤ ·) = m at *
  generalize (gaps first (slots ++ [last])).countP (· < twapStepSlots) = j at *
  have hpos : 0 < m + k := by omega
  have hwhole := retained_le_pow (m := m + k - 1) (by omega) hword
  have hpace : twapRetainBps ^ k * bps ^ j ≤ (bps - 1) ^ j * bps ^ k := by
    change (9394 : ℤ) ^ k * 10000 ^ j ≤ 9999 ^ j * 10000 ^ k
    exact_mod_cast short_retain hshort
  have hpow : (0 : ℤ) < bps ^ k := pow_pos bps_pos k
  refine le_of_mul_le_mul_right ?_ hpow
  calc retained (last - first) * bps ^ slots.length * bps ^ k
      = retained (last - first) * bps ^ (m + k - 1) * bps ^ j := by
        rw [mul_assoc, mul_assoc, ← pow_add, ← pow_add]
        congr 2
        omega
    _ ≤ twapRetainBps ^ (m + k - 1 + 1) * bps ^ j := mul_le_mul_of_nonneg_right hwhole (pow_nonneg bps_pos.le j)
    _ = twapRetainBps ^ m * (twapRetainBps ^ k * bps ^ j) := by
        rw [Nat.sub_add_cancel hpos, pow_add, mul_assoc]
    _ ≤ twapRetainBps ^ m * ((bps - 1) ^ j * bps ^ k) := mul_le_mul_of_nonneg_left hpace (pow_nonneg (by decide) m)
    _ = twapRetainBps ^ m * (bps - 1) ^ j * bps ^ k := (mul_assoc _ _ _).symm

section Runs

variable {a : Twap} {price first last : ℤ} {slots : List ℤ}

/-- What every print retains, up to its part of `bps`, the prints retain together. -/
theorem updates_retain {P : ℤ → Prop} {c : ℤ → ℤ} (hprice : 0 < price) (hfits : price < 2 ^ 63)
    (hprint : ∀ {a : Twap} {slot}, a.Started → P (slot - a.lastPriceSlot) →
      c a.twapPrice * retained (slot - a.lastPriceSlot) ≤ c (blended a price slot) * bps)
    (ha : a.Started) (hslots : ∀ dt ∈ gaps a.lastPriceSlot slots, P dt) :
    c a.twapPrice * ((gaps a.lastPriceSlot slots).map retained).prod ≤
      c (a.updates price slots).twapPrice * bps ^ slots.length := by
  induction slots generalizing a with
  | nil => simp [Twap.updates, gaps]
  | cons slot slots ih =>
    obtain ⟨heq, hnext⟩ := updatePrice_eq ha hprice hfits slot
    rw [gaps, List.forall_mem_cons] at hslots
    have hrest := ih hnext (by rw [heq]; exact hslots.2)
    have hkept : 0 ≤ ((gaps slot slots).map retained).prod := by
      apply List.prod_nonneg
      simp only [List.mem_map, forall_exists_index, and_imp, forall_apply_eq_imp_iff₂]
      exact fun dt _ => retained_nonneg dt
    change _ ≤ c ((a.updatePrice price slot).updates price slots).twapPrice * _
    rw [heq] at hrest ⊢
    dsimp only at hrest
    generalize c (Twap.updates _ price slots).twapPrice = final at hrest ⊢
    calc c a.twapPrice * ((gaps a.lastPriceSlot (slot :: slots)).map retained).prod
        = c a.twapPrice * retained (slot - a.lastPriceSlot) * ((gaps slot slots).map retained).prod := by
          rw [gaps, List.map_cons, List.prod_cons, mul_assoc]
      _ ≤ c (blended a price slot) * bps * ((gaps slot slots).map retained).prod :=
          mul_le_mul_of_nonneg_right (hprint ha hslots.1) hkept
      _ = c (blended a price slot) * ((gaps slot slots).map retained).prod * bps := by ring
      _ ≤ final * bps ^ slots.length * bps := mul_le_mul_of_nonneg_right hrest bps_pos.le
      _ = final * bps ^ (slot :: slots).length := by rw [List.length_cons, pow_succ, mul_assoc]

theorem blended_le (ha : a.Started) (hprice : 0 < price) (hle : a.twapPrice ≤ price) (slot : ℤ) :
    blended a price slot ≤ price :=
  le_of_weighted bps_pos (twapAlphaBps_range _).2 hle (blended_mul_le ha hprice slot)

theorem print_gap_lt {slot} (hround : gapMinSlots ≤ slot - a.lastPriceSlot ∨ (bps : ℤ) ∣ a.twapPrice ∨ (bps : ℤ) ∣ price) :
    (price - blended a price slot) * bps < (price - a.twapPrice) * retained (slot - a.lastPriceSlot) + bps := by
  apply gap_lt
  unfold blended
  split_ifs with hgap
  · exact lt_blendOnce_mul bps_pos
  · apply lt_blend_mul
    obtain hfar | htwap | hspot := hround
    · exact absurd (hfar.trans (le_max_right _ _)) hgap
    · rw [Int.tmod_eq_zero_of_dvd (htwap.mul_right _), zero_add]
      exact Int.tmod_lt_of_pos _ bps_pos
    · rw [Int.tmod_eq_zero_of_dvd (hspot.mul_right _), add_zero]
      exact Int.tmod_lt_of_pos _ bps_pos

theorem rise_no_closer (ha : a.Started) (hprice : 0 < price) (hfits : price < 2 ^ 63)
    (hword : last - a.lastPriceSlot < 2 ^ 63) (hle : a.twapPrice ≤ price)
    (hpaced : PacedPrints a.lastPriceSlot (slots ++ [last]) last)
    (hround : gapMinSlots ≤ last - a.lastPriceSlot ∨ (bps : ℤ) ∣ a.twapPrice ∨ (bps : ℤ) ∣ price) :
    (a.updatePrice price last).distance price ≤ (a.updates price (slots ++ [last])).distance price := by
  have hslots : ∀ dt ∈ gaps a.lastPriceSlot (slots ++ [last]), True := fun _ _ => trivial
  have hsplit := updates_retain (c := fun x => price - x) hprice hfits (fun ha _ => print_retains ha hprice _) ha hslots
  have hwhole := print_gap_lt hround
  have hpace := paced_retains hpaced hword
  have hone : (a.updatePrice price last).distance price = price - blended a price last := by
    rw [(updatePrice_eq ha hprice hfits last).1, Twap.distance, abs_sub_comm]
    exact abs_of_nonneg (sub_nonneg.mpr (blended_le ha hprice hle last))
  rw [hone, Twap.distance, abs_sub_comm]
  refine le_trans ?_ (le_abs_self _)
  generalize (a.updates price (slots ++ [last])).twapPrice = final at hsplit ⊢
  by_contra hcloser
  have hless : (price - final) * bps < (price - a.twapPrice) * retained (last - a.lastPriceSlot) := by
    have hunit : price - final + 1 ≤ price - blended a price last := by omega
    linarith [mul_le_mul_of_nonneg_right hunit bps_pos.le]
  refine absurd hsplit (not_le.mpr ?_)
  calc (price - final) * bps ^ (slots ++ [last]).length = (price - final) * bps * bps ^ slots.length := by
        rw [List.length_append, List.length_singleton, pow_succ]
        ring
    _ < (price - a.twapPrice) * retained (last - a.lastPriceSlot) * bps ^ slots.length :=
        mul_lt_mul_of_pos_right hless (pow_pos bps_pos _)
    _ = (price - a.twapPrice) * (retained (last - a.lastPriceSlot) * bps ^ slots.length) := mul_assoc _ _ _
    _ ≤ (price - a.twapPrice) * ((gaps a.lastPriceSlot (slots ++ [last])).map retained).prod :=
        mul_le_mul_of_nonneg_left hpace (sub_nonneg.mpr hle)

theorem elapsed_steps (h : ∀ dt ∈ gaps first (slots ++ [last]), twapStepSlots ≤ dt) :
    twapStepSlots * (slots.length + 1) ≤ last - first := by
  induction slots generalizing first with
  | nil => simpa [gaps] using h
  | cons slot slots ih =>
    rw [List.cons_append, gaps, List.forall_mem_cons] at h
    have hrest := ih h.2
    rw [List.length_cons]
    push_cast
    linarith [h.1]

theorem powFixed_anti {n k : ℕ} (hle : n ≤ k) (hk : k < 150) :
    powFixed bps 64 bps 9394 k ≤ powFixed bps 64 bps 9394 n := by
  have hone : ∀ k < 150, powFixed bps 64 bps 9394 (k + 1) ≤ powFixed bps 64 bps 9394 k := by decide +kernel
  induction k, hle using Nat.le_induction with
  | base => exact le_rfl
  | succ k hle ih => exact (hone k (by omega)).trans (ih (by omega))

/-- The roundings of the power leave room for those of the prints. -/
theorem retained_slack {n : ℕ} {dt : ℤ} (hn : 2 ≤ n) (hsteps : n ≤ (dt / twapStepSlots).toNat) (hword : dt < 2 ^ 63)
    (hpos : 0 < retained dt) :
    606 * (3 * 10 ^ 6) * (retained dt * bps ^ (n - 1)) + 20000 * bps ^ n ≤ 606 * (3 * 10 ^ 6) * twapRetainBps ^ n := by
  have hfew : (dt / twapStepSlots).toNat < 150 := by
    by_contra hmany
    have hle := retained_le_pow (m := 149) (by omega) hword
    have hone : (bps : ℤ) ^ 149 ≤ retained dt * bps ^ 149 := le_mul_of_one_le_left (by decide) hpos
    exact absurd (hone.trans hle) (by decide +kernel)
  have hkept := retained_le_powFixed (show 0 < (dt / twapStepSlots).toNat by omega)
  have hslack : ∀ n < 150, 2 ≤ n → powFixed bps 64 bps 9394 n = 0 ∨
      606 * (3 * 10 ^ 6) * (powFixed bps 64 bps 9394 n * bps ^ (n - 1)) + 20000 * bps ^ n ≤
        606 * (3 * 10 ^ 6) * 9394 ^ n := by decide +kernel
  have hanti := powFixed_anti hsteps hfew
  obtain hzero | hroom := hslack n (by omega) hn
  · omega
  · have hle : retained dt ≤ (powFixed bps 64 bps 9394 n : ℕ) := by omega
    have hpow : (0 : ℤ) ≤ bps ^ (n - 1) := pow_nonneg bps_pos.le _
    have hroom : (606 * (3 * 10 ^ 6) * ((powFixed bps 64 bps 9394 n : ℕ) * bps ^ (n - 1)) + 20000 * bps ^ n : ℤ) ≤
        606 * (3 * 10 ^ 6) * twapRetainBps ^ n := by
      rw [twapRetainBps]
      exact_mod_cast hroom
    linarith [mul_le_mul_of_nonneg_right hle hpow]

theorem gap_of_slack {gap left kept whole scale : ℤ} (hscale : 0 < scale) (hwhole : 0 ≤ whole) (hgap : 3 * 10 ^ 6 ≤ gap)
    (hsplit : (606 * gap + 20000) * whole ≤ (606 * left + 20000) * (scale * bps))
    (hslack : 606 * (3 * 10 ^ 6) * (kept * scale) + 20000 * (scale * bps) ≤ 606 * (3 * 10 ^ 6) * whole) :
    gap * kept ≤ left * bps := by
  have hpos : 0 < scale * bps := mul_pos hscale bps_pos
  have hroom : 3 * 10 ^ 6 * (whole - kept * scale) ≤ gap * (whole - kept * scale) :=
    mul_le_mul_of_nonneg_right hgap (by linarith)
  refine le_of_mul_le_mul_right ?_ hscale
  linarith

theorem blended_of_none {slot} (h : retained (slot - a.lastPriceSlot) = 0) : blended a price slot = price := by
  have halpha : twapAlphaBps (max 1 (slot - a.lastPriceSlot)) = bps := (sub_eq_zero.mp h).symm
  unfold blended blendOnce blend
  rw [halpha, sub_self, mul_zero, Int.zero_tdiv, zero_add, zero_add, Int.mul_tdiv_cancel _ bps_pos.ne', ite_self]

theorem price_le_blended {slot} (hfall : price + 3 * 10 ^ 6 ≤ a.twapPrice)
    (hpos : 0 < retained (slot - a.lastPriceSlot)) : price ≤ blended a price slot := by
  have hbps : (bps : ℤ) = 10000 := rfl
  have hround := print_rounds a price slot
  have hkept : 3 * 10 ^ 6 ≤ (a.twapPrice - price) * retained (slot - a.lastPriceSlot) := by nlinarith
  rw [hbps] at hround
  omega

theorem fall_no_closer (ha : a.Started) (hprice : 0 < price) (hfits : price < 2 ^ 63)
    (hword : last - a.lastPriceSlot < 2 ^ 63) (hfall : price + 3 * 10 ^ 6 ≤ a.twapPrice)
    (hsteps : ∀ dt ∈ gaps a.lastPriceSlot (slots ++ [last]), twapStepSlots ≤ dt ∧ dt < 2 * twapStepSlots) :
    (a.updatePrice price last).distance price ≤ (a.updates price (slots ++ [last])).distance price := by
  cases slots with
  | nil => exact le_rfl
  | cons slot slots =>
    have hbps : (bps : ℤ) = 10000 := rfl
    obtain hnone | hpos := (retained_nonneg (last - a.lastPriceSlot)).eq_or_lt
    · rw [(updatePrice_eq ha hprice hfits last).1, Twap.distance, blended_of_none hnone.symm, sub_self, abs_zero]
      exact abs_nonneg _
    -- with all that two roundings a call can take added, the distance keeps its part at every call
    have hsplit := updates_retain (c := fun x => 606 * (x - price) + 20000) hprice hfits (fun {a slot} _ hdt => by
      have hround := print_rounds a price slot
      rw [retained_step hdt.1 hdt.2, hbps, twapRetainBps] at hround ⊢
      linarith) ha hsteps
    have hprod : ((gaps a.lastPriceSlot (slot :: slots ++ [last])).map retained).prod =
        twapRetainBps ^ (slots.length + 2) := by
      rw [List.map_congr_left fun dt hdt => retained_step (hsteps dt hdt).1 (hsteps dt hdt).2, List.map_const',
        List.prod_replicate, length_gaps, List.length_append, List.length_cons, List.length_singleton]
    have helapsed := elapsed_steps fun dt hdt => (hsteps dt hdt).1
    have hslack := retained_slack (n := slots.length + 2) (by omega) (by
      rw [twapStepSlots_eq] at helapsed ⊢
      rw [List.length_cons] at helapsed
      push_cast at helapsed
      omega) hword hpos
    have hwhole := print_retains ha hprice last
    rw [hprod, List.length_append, List.length_cons, List.length_singleton] at hsplit
    rw [(updatePrice_eq ha hprice hfits last).1, Twap.distance, Twap.distance]
    generalize (a.updates price (slot :: slots ++ [last])).twapPrice = final at hsplit ⊢
    dsimp only at hsplit ⊢
    rw [abs_of_nonneg (sub_nonneg.mpr (price_le_blended hfall hpos))]
    refine le_trans ?_ (le_abs_self _)
    have hwhole' : 0 ≤ twapRetainBps ^ (slots.length + 2) := pow_nonneg (by decide) _
    rw [pow_succ (bps : ℤ) (slots.length + 1)] at hsplit hslack
    have hkept := gap_of_slack (pow_pos bps_pos (slots.length + 1)) hwhole' (by omega) hsplit hslack
    refine le_of_mul_le_mul_right ?_ bps_pos
    linarith

end Runs

def printedAt (slot : ℤ) : Twap := { twapPrice := 10 ^ 6, lastPrice := 10 ^ 6, lastPriceSlot := slot }

end QuidProtocol.Stay
