import Mathlib.Algebra.Order.Floor.Semifield
import Mathlib.Data.Rat.Floor
import Mathlib.Tactic
import Mathlib.Algebra.Order.BigOperators.Group.Finset
import Mathlib.Data.Fintype.BigOperators

/-!
Claims on a common backing: paying some of them at their value takes nothing from the others.
Units of a pool: `u` of `tot` units are worth `u * (bal + 1) / (tot + o)`, where nobody holds the offset `o`.
-/

namespace QuidProtocol.Lib

def shareValue (backing supply : ℕ) : ℚ := if supply = 0 then 1 else min 1 (backing / supply)

def shareQuote (unit backing supply : ℕ) : ℕ := if supply = 0 then unit else min unit (backing * unit / supply)

variable {unit backing supply burned paid : ℕ}

theorem shareValue_nonneg (backing supply : ℕ) : 0 ≤ shareValue backing supply := by
  unfold shareValue
  split_ifs
  · exact zero_le_one
  · apply le_min zero_le_one
    positivity

theorem shareValue_le_one (backing supply : ℕ) : shareValue backing supply ≤ 1 := by
  unfold shareValue
  split_ifs
  · exact le_refl 1
  · exact min_le_left _ _

theorem shareValue_mul_le (h : supply ≠ 0) : shareValue backing supply * supply ≤ backing := by
  have hpos : (0 : ℚ) < supply := by exact_mod_cast Nat.pos_of_ne_zero h
  unfold shareValue
  rw [if_neg h]
  calc min 1 ((backing : ℚ) / supply) * supply ≤ backing / supply * supply :=
        mul_le_mul_of_nonneg_right (min_le_right _ _) hpos.le
    _ = backing := div_mul_cancel₀ _ hpos.ne'

theorem shareQuote_eq_floor (unit backing supply : ℕ) :
    shareQuote unit backing supply = ⌊unit * shareValue backing supply⌋₊ := by
  unfold shareQuote shareValue
  split_ifs with h
  · rw [mul_one, Nat.floor_natCast]
  · have hmin : (unit : ℚ) * min 1 ((backing : ℚ) / supply) = min (unit : ℚ) ((backing * unit : ℕ) / (supply : ℕ)) := by
      rw [mul_min_of_nonneg _ _ (Nat.cast_nonneg unit), mul_one, Nat.cast_mul, mul_div_assoc', mul_comm (unit : ℚ)]
    rw [hmin]
    rcases le_total (unit : ℚ) ((backing * unit : ℕ) / (supply : ℕ)) with hle | hle
    · rw [min_eq_left hle, Nat.floor_natCast]
      apply min_eq_left
      rw [← Nat.floor_div_eq_div (K := ℚ)]
      exact Nat.le_floor hle
    · rw [min_eq_right hle, Nat.floor_div_eq_div]
      apply min_eq_right
      rw [← Nat.floor_div_eq_div (K := ℚ), ← Nat.floor_natCast (R := ℚ) unit]
      exact Nat.floor_le_floor hle

theorem shareQuote_le (unit backing supply : ℕ) :
    (shareQuote unit backing supply : ℚ) ≤ unit * shareValue backing supply := by
  rw [shareQuote_eq_floor]
  exact Nat.floor_le (mul_nonneg (Nat.cast_nonneg unit) (shareValue_nonneg _ _))

theorem shareQuote_mono {backing' supply'} (h : shareValue backing supply ≤ shareValue backing' supply') :
    shareQuote unit backing supply ≤ shareQuote unit backing' supply' := by
  rw [shareQuote_eq_floor, shareQuote_eq_floor]
  exact Nat.floor_le_floor (mul_le_mul_of_nonneg_left h (Nat.cast_nonneg unit))

theorem le_shareValue_of_quote (hunit : unit ≠ 0) (h : paid * unit ≤ burned * shareQuote unit backing supply) :
    (paid : ℚ) ≤ burned * shareValue backing supply := by
  have hpos : (0 : ℚ) < unit := by exact_mod_cast Nat.pos_of_ne_zero hunit
  apply le_of_mul_le_mul_right _ hpos
  calc (paid : ℚ) * unit ≤ burned * shareQuote unit backing supply := by exact_mod_cast h
    _ ≤ burned * (unit * shareValue backing supply) :=
        mul_le_mul_of_nonneg_left (shareQuote_le _ _ _) (Nat.cast_nonneg burned)
    _ = burned * shareValue backing supply * unit := by ring

theorem shareValue_le_after (h : (paid : ℚ) ≤ burned * shareValue backing supply) :
    shareValue backing supply ≤ shareValue (backing - paid) (supply - burned) := by
  by_cases hall : supply ≤ burned
  · have hnone : shareValue (backing - paid) (supply - burned) = 1 := if_pos (Nat.sub_eq_zero_of_le hall)
    rw [hnone]
    exact shareValue_le_one _ _
  · have hlt : burned < supply := not_le.mp hall
    have hleft : supply - burned ≠ 0 := Nat.sub_ne_zero_of_lt hlt
    have hpos : (0 : ℚ) < (supply - burned : ℕ) := by exact_mod_cast Nat.pos_of_ne_zero hleft
    have hworth : shareValue backing supply * supply ≤ backing :=
      shareValue_mul_le (Nat.ne_of_gt (Nat.zero_lt_of_lt hlt))
    have hback : (backing : ℚ) - paid ≤ (backing - paid : ℕ) := by
      rw [sub_le_iff_le_add]
      exact_mod_cast Nat.sub_le_iff_le_add.mp (le_refl (backing - paid))
    have hafter : shareValue (backing - paid) (supply - burned) =
        min 1 (((backing - paid : ℕ) : ℚ) / (supply - burned : ℕ)) := if_neg hleft
    rw [hafter]
    apply le_min (shareValue_le_one _ _)
    rw [le_div_iff₀ hpos, Nat.cast_sub hlt.le]
    linarith

def prorated (claim free backing : ℕ) : ℕ := claim * free / backing

section Prorated

variable {claim free backing paid : ℕ}

theorem prorated_le (hfree : free ≤ backing) : prorated claim free backing ≤ claim :=
  Nat.div_le_of_le_mul (by rw [mul_comm]; exact Nat.mul_le_mul_right claim hfree)

theorem prorated_le_free (hclaim : claim ≤ backing) : prorated claim free backing ≤ free :=
  Nat.div_le_of_le_mul (Nat.mul_le_mul_right free hclaim)

theorem prorated_after_le (hfree : free ≤ backing) :
    prorated claim (free - paid) (backing - paid) ≤ prorated claim free backing := by
  obtain rfl | hpos := Nat.eq_zero_or_pos backing
  · simp [prorated]
  obtain hout | hin := Nat.lt_or_ge free paid
  · simp [prorated, Nat.sub_eq_zero_of_le hout.le]
  apply (Nat.le_div_iff_mul_le hpos).mpr
  have hlater : prorated claim (free - paid) (backing - paid) * (backing - paid) ≤ claim * (free - paid) :=
    Nat.div_mul_le_self _ _
  have hclaim : prorated claim (free - paid) (backing - paid) ≤ claim := prorated_le (by omega)
  calc prorated claim (free - paid) (backing - paid) * backing
      = prorated claim (free - paid) (backing - paid) * (backing - paid) +
          prorated claim (free - paid) (backing - paid) * paid := by rw [← Nat.mul_add, Nat.sub_add_cancel (by omega)]
    _ ≤ claim * (free - paid) + claim * paid := Nat.add_le_add hlater (Nat.mul_le_mul_right paid hclaim)
    _ = claim * free := by rw [← Nat.mul_add, Nat.sub_add_cancel hin]

theorem prorated_le_after (hfree : free ≤ backing) (hpaid : paid ≤ free) (hleft : paid < backing)
    (hlittle : claim * paid * (backing - free) ≤ backing * (backing - paid)) :
    prorated claim free backing ≤ prorated claim (free - paid) (backing - paid) + 1 := by
  by_contra hlt
  have hearlier : prorated claim free backing * backing ≤ claim * free := Nat.div_mul_le_self _ _
  have hlater : claim * (free - paid) < (prorated claim (free - paid) (backing - paid) + 1) * (backing - paid) :=
    Nat.lt_mul_of_div_lt (Nat.lt_succ_self _) (Nat.sub_pos_of_lt hleft)
  generalize prorated claim (free - paid) (backing - paid) = later at hlt hlater
  have htwo : (later + 2) * backing ≤ claim * free := (Nat.mul_le_mul_right backing (by omega)).trans hearlier
  zify [hfree, hpaid, hleft.le] at hlittle hlater htwo
  have hpos : (0 : ℤ) < backing := by omega
  have hrest : (0 : ℤ) < backing - paid := by omega
  have hscaled : (claim : ℤ) * (free - paid) * backing + backing ≤ (later + 1) * (backing - paid) * backing := by
    nlinarith
  have hwhole : ((later : ℤ) + 2) * backing * (backing - paid) ≤ claim * free * (backing - paid) :=
    mul_le_mul_of_nonneg_right htwo hrest.le
  linarith

end Prorated

def slice (o u tot bal : ℕ) : ℕ := u * (bal + 1) / (tot + o)

def unitsFor (o amt tot bal : ℕ) : ℕ := amt * (tot + o) / (bal + 1)

variable {o u tot bal tot' bal' : ℕ}

theorem slice_mul_le (o u tot bal : ℕ) : slice o u tot bal * (tot + o) ≤ u * (bal + 1) := Nat.div_mul_le_self _ _

theorem slice_le (ho : 0 < o) (hu : u ≤ tot) : slice o u tot bal ≤ bal := by
  apply Nat.le_of_lt_succ
  apply (Nat.div_lt_iff_lt_mul (by omega)).mpr
  rw [Nat.succ_eq_add_one, Nat.mul_comm]
  exact Nat.mul_lt_mul_of_pos_left (by omega) (Nat.succ_pos bal)

theorem sum_slice_le {α : Type} [Fintype α] {f : α → ℕ} (ho : 0 < o) (htot : ∑ a, f a = tot) :
    ∑ a, slice o (f a) tot bal ≤ bal := by
  have hmul : (∑ a, slice o (f a) tot bal) * (tot + o) ≤ tot * (bal + 1) := by
    calc (∑ a, slice o (f a) tot bal) * (tot + o) = ∑ a, slice o (f a) tot bal * (tot + o) :=
          Finset.sum_mul _ _ _
      _ ≤ ∑ a, f a * (bal + 1) := Finset.sum_le_sum fun a _ => slice_mul_le o (f a) tot bal
      _ = tot * (bal + 1) := by rw [← Finset.sum_mul, htot]
  apply Nat.le_of_lt_succ
  by_contra hlt
  have hge : bal + 1 ≤ ∑ a, slice o (f a) tot bal := not_lt.mp hlt
  have hle : (bal + 1) * (tot + o) ≤ tot * (bal + 1) := (Nat.mul_le_mul_right _ hge).trans hmul
  nlinarith

theorem slice_mono (ho : 0 < o) (h : (bal + 1) * (tot' + o) ≤ (bal' + 1) * (tot + o)) :
    slice o u tot bal ≤ slice o u tot' bal' := by
  apply (Nat.le_div_iff_mul_le (by omega)).mpr
  apply Nat.le_of_mul_le_mul_right _ (show 0 < tot + o by omega)
  calc slice o u tot bal * (tot' + o) * (tot + o) = slice o u tot bal * (tot + o) * (tot' + o) := by ring
    _ ≤ u * (bal + 1) * (tot' + o) := Nat.mul_le_mul_right _ (slice_mul_le o u tot bal)
    _ = u * ((bal + 1) * (tot' + o)) := by ring
    _ ≤ u * ((bal' + 1) * (tot + o)) := Nat.mul_le_mul_left u h
    _ = u * (bal' + 1) * (tot + o) := by ring

theorem unitsFor_mul_le (o amt tot bal : ℕ) : unitsFor o amt tot bal * (bal + 1) ≤ amt * (tot + o) :=
  Nat.div_mul_le_self _ _

theorem slice_le_mint (ho : 0 < o) (amt : ℕ) :
    slice o u tot bal ≤ slice o u (tot + unitsFor o amt tot bal) (bal + amt) := by
  apply slice_mono ho
  have hmint := unitsFor_mul_le o amt tot bal
  nlinarith

theorem slice_le_burn (ho : 0 < o) {amt} (hamt : amt ≤ bal) (hunits : unitsFor o amt tot bal ≤ tot)
    (hexact : bal + 1 ∣ amt * (tot + o)) :
    slice o u tot bal ≤ slice o u (tot - unitsFor o amt tot bal) (bal - amt) := by
  apply slice_mono ho
  have hburn : unitsFor o amt tot bal * (bal + 1) = amt * (tot + o) := Nat.div_mul_cancel hexact
  have hbal : bal - amt + 1 + amt = bal + 1 := by omega
  have htot : tot - unitsFor o amt tot bal + unitsFor o amt tot bal = tot := Nat.sub_add_cancel hunits
  generalize tot - unitsFor o amt tot bal = left at htot ⊢
  generalize bal - amt + 1 = rest at hbal ⊢
  nlinarith

theorem unitsFor_slice_le {amt} (h : amt ≤ slice o u tot bal) : unitsFor o amt tot bal ≤ u := by
  apply Nat.div_le_of_le_mul
  calc amt * (tot + o) ≤ slice o u tot bal * (tot + o) := Nat.mul_le_mul_right _ h
    _ ≤ u * (bal + 1) := slice_mul_le o u tot bal
    _ = (bal + 1) * u := Nat.mul_comm _ _

end QuidProtocol.Lib
