import Mathlib.Tactic
import Mathlib.Tactic.Linarith

/-!
Averages in fixed point, which retain a part of `scale`, rounded down.
A bisection of the integers.
-/

namespace QuidProtocol.Lib

def blend (scale alpha x p : ℤ) : ℤ := (x * (scale - alpha)).tdiv scale + (p * alpha).tdiv scale

def blendOnce (scale alpha x p : ℤ) : ℤ := (x * (scale - alpha) + p * alpha).tdiv scale

section Gap

variable {scale alpha x y p : ℤ}

theorem tdiv_mul_le {a} (ha : 0 ≤ a) (hscale : 0 < scale) : a.tdiv scale * scale ≤ a := by
  rw [Int.tdiv_eq_ediv_of_nonneg ha]
  exact Int.ediv_mul_le a hscale.ne'

theorem weighted_nonneg (halpha : 0 ≤ alpha) (hscale : alpha ≤ scale) (hx : 0 ≤ x) (hp : 0 ≤ p) :
    0 ≤ x * (scale - alpha) ∧ 0 ≤ p * alpha :=
  ⟨mul_nonneg hx (sub_nonneg.mpr hscale), mul_nonneg hp halpha⟩

theorem blend_mul_le (hscale : 0 < scale) (hx : 0 ≤ x * (scale - alpha)) (hp : 0 ≤ p * alpha) :
    blend scale alpha x p * scale ≤ x * (scale - alpha) + p * alpha := by
  unfold blend
  rw [add_mul]
  exact add_le_add (tdiv_mul_le hx hscale) (tdiv_mul_le hp hscale)

theorem blendOnce_mul_le (hscale : 0 < scale) (hx : 0 ≤ x * (scale - alpha)) (hp : 0 ≤ p * alpha) :
    blendOnce scale alpha x p * scale ≤ x * (scale - alpha) + p * alpha :=
  tdiv_mul_le (add_nonneg hx hp) hscale

theorem lt_blend_mul (hround : (x * (scale - alpha)).tmod scale + (p * alpha).tmod scale < scale) :
    x * (scale - alpha) + p * alpha < blend scale alpha x p * scale + scale := by
  have hx := Int.tdiv_mul_add_tmod (x * (scale - alpha)) scale
  have hp := Int.tdiv_mul_add_tmod (p * alpha) scale
  unfold blend
  rw [add_mul]
  linarith

theorem lt_blendOnce_mul (hscale : 0 < scale) :
    x * (scale - alpha) + p * alpha < blendOnce scale alpha x p * scale + scale := by
  have hdiv := Int.tdiv_mul_add_tmod (x * (scale - alpha) + p * alpha) scale
  have hmod := Int.tmod_lt_of_pos (x * (scale - alpha) + p * alpha) hscale
  unfold blendOnce
  linarith

theorem le_blend_mul (hscale : 0 < scale) :
    x * (scale - alpha) + p * alpha ≤ blend scale alpha x p * scale + 2 * (scale - 1) := by
  have hx := Int.tdiv_mul_add_tmod (x * (scale - alpha)) scale
  have hp := Int.tdiv_mul_add_tmod (p * alpha) scale
  have hx' := Int.tmod_lt_of_pos (x * (scale - alpha)) hscale
  have hp' := Int.tmod_lt_of_pos (p * alpha) hscale
  unfold blend
  rw [add_mul]
  linarith

theorem gap_retained (hy : y * scale ≤ x * (scale - alpha) + p * alpha) :
    (p - x) * (scale - alpha) ≤ (p - y) * scale := by
  linarith

theorem gap_lt (hy : x * (scale - alpha) + p * alpha < y * scale + scale) :
    (p - y) * scale < (p - x) * (scale - alpha) + scale := by
  linarith

theorem le_of_weighted (hscale : 0 < scale) (halpha : alpha ≤ scale) (hx : x ≤ p)
    (hy : y * scale ≤ x * (scale - alpha) + p * alpha) : y ≤ p := by
  have hgap := gap_retained hy
  have hleft : 0 ≤ (p - x) * (scale - alpha) := mul_nonneg (sub_nonneg.mpr hx) (sub_nonneg.mpr halpha)
  exact sub_nonneg.mp (nonneg_of_mul_nonneg_left (hleft.trans hgap) hscale)

end Gap

def powFixed (scale : ℕ) : ℕ → ℕ → ℕ → ℕ → ℕ
  | 0, result, _, _ => result
  | fuel + 1, result, b, e =>
    if e = 0 then result
    else
      let result := if e % 2 = 1 then result * b / scale else result
      if e / 2 = 0 then result
      else if b * b / scale = 0 then 0
      else powFixed scale fuel result (b * b / scale) (e / 2)

variable {scale : ℕ}

theorem powFixed_le {b} (hb : b ≤ scale) (fuel result e : ℕ) : powFixed scale fuel result b e ≤ result := by
  induction fuel generalizing result b e with
  | zero => exact le_rfl
  | succ fuel ih =>
    have hpart : ∀ x, x * b / scale ≤ x := fun x =>
      Nat.div_le_of_le_mul ((Nat.mul_le_mul_left x hb).trans_eq (Nat.mul_comm x scale))
    have hodd : (if e % 2 = 1 then result * b / scale else result) ≤ result := by
      split_ifs
      · exact hpart result
      · exact le_rfl
    rw [powFixed]
    dsimp only
    generalize (if e % 2 = 1 then result * b / scale else result) = r at hodd ⊢
    split_ifs
    · exact le_rfl
    · exact hodd
    · exact Nat.zero_le _
    · exact (ih ((hpart b).trans hb) _ _).trans hodd

theorem odd_part_le (scale result b e : ℕ) :
    (if e % 2 = 1 then result * b / scale else result) * scale ^ (e % 2) ≤ result * b ^ (e % 2) := by
  split_ifs with hodd
  · rw [hodd, pow_one, pow_one]
    exact Nat.div_mul_le_self _ _
  · rw [Nat.mod_two_ne_one.mp hodd, pow_zero, pow_zero]

theorem square_part_le (b k : ℕ) : (b * b / scale) ^ k * scale ^ k ≤ b ^ (2 * k) := by
  rw [← mul_pow, pow_mul, sq]
  exact Nat.pow_le_pow_left (Nat.div_mul_le_self _ _) k

theorem powFixed_mul_le {fuel} (result b : ℕ) {e} (h : e < 2 ^ fuel) :
    powFixed scale fuel result b e * scale ^ e ≤ result * b ^ e := by
  induction fuel generalizing result b e with
  | zero =>
    have hzero : e = 0 := by omega
    simp [hzero, powFixed]
  | succ fuel ih =>
    have hparts : e = 2 * (e / 2) + e % 2 := (Nat.div_add_mod e 2).symm
    have hodd := odd_part_le scale result b e
    rw [powFixed]
    dsimp only
    generalize (if e % 2 = 1 then result * b / scale else result) = r at hodd ⊢
    split_ifs with hzero hlast hnothing
    · rw [hzero]
      simp
    · rw [hlast, Nat.mul_zero, Nat.zero_add] at hparts
      rw [hparts]
      exact hodd
    · rw [Nat.zero_mul]
      exact Nat.zero_le _
    · have hrest := ih r (b * b / scale) (e := e / 2) (by omega)
      have hsplit : ∀ c : ℕ, c ^ e = c ^ (2 * (e / 2)) * c ^ (e % 2) := fun c => by rw [← pow_add, ← hparts]
      rw [hsplit scale, hsplit b]
      calc powFixed scale fuel r (b * b / scale) (e / 2) * (scale ^ (2 * (e / 2)) * scale ^ (e % 2))
          = powFixed scale fuel r (b * b / scale) (e / 2) * scale ^ (e / 2) * scale ^ (e / 2) * scale ^ (e % 2) := by
            rw [Nat.two_mul, pow_add]
            ring
        _ ≤ r * (b * b / scale) ^ (e / 2) * scale ^ (e / 2) * scale ^ (e % 2) := by gcongr
        _ = r * scale ^ (e % 2) * ((b * b / scale) ^ (e / 2) * scale ^ (e / 2)) := by ring
        _ ≤ result * b ^ (e % 2) * b ^ (2 * (e / 2)) := Nat.mul_le_mul hodd (square_part_le b _)
        _ = result * (b ^ (2 * (e / 2)) * b ^ (e % 2)) := by ring

theorem powFixed_le_pow {fuel b e n} (hscale : 0 < scale) (hb : b ≤ scale) (he : e < 2 ^ fuel) (hn : n < e) :
    powFixed scale fuel scale b e * scale ^ n ≤ b ^ (n + 1) := by
  obtain ⟨j, rfl⟩ : ∃ j, e = n + 1 + j := Nat.exists_eq_add_of_le hn
  apply Nat.le_of_mul_le_mul_right _ (Nat.pow_pos (n := j + 1) hscale)
  calc powFixed scale fuel scale b (n + 1 + j) * scale ^ n * scale ^ (j + 1)
      = powFixed scale fuel scale b (n + 1 + j) * scale ^ (n + 1 + j) := by ring
    _ ≤ scale * b ^ (n + 1 + j) := powFixed_mul_le scale b he
    _ = scale * b ^ (n + 1) * b ^ j := by ring
    _ ≤ scale * b ^ (n + 1) * scale ^ j := by gcongr
    _ = b ^ (n + 1) * scale ^ (j + 1) := by ring

def bisect (p : ℤ → Bool) : ℕ → ℤ → ℤ → ℤ
  | 0, _, hi => hi
  | fuel + 1, lo, hi =>
    let mid := lo + (hi - lo).tdiv 2
    if mid = lo then hi
    else if p mid then bisect p fuel lo mid else bisect p fuel mid hi

theorem bisect_spec {p} (hp : ∀ x y, x ≤ y → p x = true → p y = true) {fuel lo hi}
    (hlt : lo < hi) (hfuel : hi - lo ≤ 2 ^ fuel) : (lo < bisect p fuel lo hi ∧ bisect p fuel lo hi ≤ hi) ∧
      (∀ x, lo < x → x < bisect p fuel lo hi → p x = false) ∧
      (bisect p fuel lo hi < hi → p (bisect p fuel lo hi) = true) := by
  induction fuel generalizing lo hi with
  | zero =>
    simp only [bisect]
    refine ⟨⟨hlt, le_rfl⟩, ?_, fun h => absurd h (lt_irrefl _)⟩
    intro x hlo hhi
    omega
  | succ fuel ih =>
    rw [pow_succ] at hfuel
    simp only [bisect]
    rw [Int.tdiv_eq_ediv_of_nonneg (by omega)]
    split_ifs with hmid hp'
    · refine ⟨⟨hlt, le_rfl⟩, ?_, fun h => absurd h (lt_irrefl _)⟩
      intro x hlo hhi
      omega
    · obtain ⟨⟨hlo, hhi⟩, hbelow, hat⟩ := @ih lo (lo + (hi - lo) / 2) (by omega) (by omega)
      refine ⟨⟨hlo, by omega⟩, hbelow, fun _ => ?_⟩
      obtain heq | hlt' := eq_or_lt_of_le hhi
      · rw [heq]
        exact hp'
      · exact hat hlt'
    · obtain ⟨⟨hlo, hhi⟩, hbelow, hat⟩ := @ih (lo + (hi - lo) / 2) hi (by omega) (by omega)
      refine ⟨⟨by omega, hhi⟩, ?_, hat⟩
      intro x _ hx
      by_cases hside : lo + (hi - lo) / 2 < x
      · exact hbelow x hside hx
      · apply Bool.eq_false_of_not_eq_true
        intro hpx
        exact hp' (hp x _ (not_lt.mp hside) hpx)

end QuidProtocol.Lib
