import Mathlib.Tactic

/-!
The compact form of a large number: a length in bytes and a mantissa of three bytes.
-/

namespace QuidProtocol.Lib

def byteLength (x : ℕ) : ℕ := if x = 0 then 0 else x.log2 / 8 + 1

def leadByte (x : ℕ) : ℕ := x / 256 ^ (byteLength x - 1)

def encodeCompact (x : ℕ) : ℕ :=
  let size := byteLength x
  let word := if size ≤ 3 then x * 256 ^ (3 - size) else x / 256 ^ (size - 3)
  if 0x800000 ≤ word then (size + 1) * 2 ^ 24 + word / 256 else size * 2 ^ 24 + word

def decodeCompact (compact : ℕ) : ℕ :=
  let size := compact / 2 ^ 24
  let word := compact % 0x800000
  if size ≤ 3 then word / 256 ^ (3 - size) else word * 256 ^ (size - 3)

theorem byteLength_zero : byteLength 0 = 0 := rfl

variable {x n k y : ℕ}

theorem byteLength_pos (hx : x ≠ 0) : 0 < byteLength x := by simp [byteLength, hx]

theorem lt_pow_byteLength (x : ℕ) : x < 256 ^ byteLength x := by
  by_cases hx : x = 0
  · simp [hx, byteLength]
  · have hlt : x < 2 ^ (x.log2 + 1) := Nat.lt_log2_self
    have hle : x.log2 + 1 ≤ 8 * byteLength x := by
      rw [byteLength, if_neg hx]
      omega
    calc x < 2 ^ (x.log2 + 1) := hlt
      _ ≤ 2 ^ (8 * byteLength x) := Nat.pow_le_pow_right (by omega) hle
      _ = 256 ^ byteLength x := by rw [pow_mul]; norm_num

theorem pow_byteLength_le (hx : x ≠ 0) : 256 ^ (byteLength x - 1) ≤ x := by
  have hle : 2 ^ x.log2 ≤ x := Nat.log2_self_le hx
  rw [byteLength, if_neg hx, Nat.add_sub_cancel]
  calc 256 ^ (x.log2 / 8) = 2 ^ (8 * (x.log2 / 8)) := by rw [pow_mul]; norm_num
    _ ≤ 2 ^ x.log2 := Nat.pow_le_pow_right (by omega) (Nat.mul_div_le _ _)
    _ ≤ x := hle

theorem byteLength_eq (hn : 0 < n) (hle : 256 ^ (n - 1) ≤ x) (hlt : x < 256 ^ n) : byteLength x = n := by
  have hx : x ≠ 0 := by
    have hpos : 0 < 256 ^ (n - 1) := Nat.pow_pos (by omega)
    omega
  have hlow := pow_byteLength_le hx
  have hhigh := lt_pow_byteLength x
  have hpos := byteLength_pos hx
  have h1 : byteLength x - 1 < n := (Nat.pow_lt_pow_iff_right (by omega : 1 < 256)).mp (hlow.trans_lt hlt)
  have h2 : n - 1 < byteLength x := (Nat.pow_lt_pow_iff_right (by omega : 1 < 256)).mp (hle.trans_lt hhigh)
  omega

theorem byteLength_le (h : x < 256 ^ n) : byteLength x ≤ n := by
  by_cases hx : x = 0
  · simp [hx, byteLength]
  · have hlow := pow_byteLength_le hx
    have h1 : byteLength x - 1 < n := (Nat.pow_lt_pow_iff_right (by omega : 1 < 256)).mp (hlow.trans_lt h)
    omega

theorem leadByte_pos (hx : x ≠ 0) : 0 < leadByte x := Nat.div_pos (pow_byteLength_le hx) (Nat.pow_pos (by omega))

def droppedBytes (limit x : ℕ) : ℕ := byteLength x + (if limit ≤ leadByte x then 1 else 0) - 3

def truncate (k x : ℕ) : ℕ := x / 256 ^ k * 256 ^ k

theorem truncate_le (k x : ℕ) : truncate k x ≤ x := Nat.div_mul_le_self x _

theorem lt_truncate_add (k x : ℕ) : x < truncate k x + 256 ^ k := Nat.lt_div_mul_add (Nat.pow_pos (by omega))

theorem truncate_eq_iff (hle : truncate k y ≤ x) : truncate k x = truncate k y ↔ x < truncate k y + 256 ^ k := by
  have hpos : 0 < 256 ^ k := Nat.pow_pos (by omega)
  constructor
  · intro h
    rw [← h]
    exact lt_truncate_add k x
  · intro h
    have hdiv : x / 256 ^ k = y / 256 ^ k := by
      apply Nat.div_eq_of_lt_le
      · exact hle
      · rw [Nat.succ_mul]
        exact h
    rw [truncate, truncate, hdiv]

theorem decodeCompact_mk {size word} (hword : word < 0x800000) : decodeCompact (size * 2 ^ 24 + word) =
      if size ≤ 3 then word / 256 ^ (3 - size) else word * 256 ^ (size - 3) := by
  have hsize : (size * 2 ^ 24 + word) / 2 ^ 24 = size := by omega
  have hrest : (size * 2 ^ 24 + word) % 0x800000 = word := by omega
  rw [decodeCompact, hsize, hrest]

theorem le_leadByte_iff {c} : c ≤ leadByte x ↔ c * 256 ^ (byteLength x - 1) ≤ x := by
  rw [leadByte, Nat.le_div_iff_mul_le (Nat.pow_pos (by omega))]

theorem truncate_zero (x : ℕ) : truncate 0 x = x := by rw [truncate, pow_zero, Nat.div_one, mul_one]

theorem decode_encode_short (hx : x ≠ 0) (hn : byteLength x ≤ 3) :
    decodeCompact (encodeCompact x) = truncate (droppedBytes 0x80 x) x := by
  have hpos := byteLength_pos hx
  have hlt := lt_pow_byteLength x
  have hlead : 0x80 ≤ leadByte x ↔ 0x80 * 256 ^ (byteLength x - 1) ≤ x := le_leadByte_iff
  simp only [encodeCompact, droppedBytes, hlead, if_pos hn]
  generalize byteLength x = n at *
  have hunit : 0 < 256 ^ (3 - n) := Nat.pow_pos (by omega)
  have hsmall : x * 256 ^ (3 - n) < 2 ^ 24 := by
    have hscale : 2 ^ 24 = 256 ^ n * 256 ^ (3 - n) := by
      rw [← pow_add, Nat.add_sub_of_le hn]
      rfl
    rw [hscale]
    exact Nat.mul_lt_mul_of_pos_right hlt hunit
  have hword : 0x800000 ≤ x * 256 ^ (3 - n) ↔ 0x80 * 256 ^ (n - 1) ≤ x := by
    have hsplit : 0x800000 = 0x80 * 256 ^ (n - 1) * 256 ^ (3 - n) := by
      have hexp : n - 1 + (3 - n) = 2 := by omega
      rw [mul_assoc, ← pow_add, hexp]
      rfl
    rw [hsplit]
    exact Nat.mul_le_mul_right_iff hunit
  by_cases hsign : 0x80 * 256 ^ (n - 1) ≤ x
  · rw [if_pos (hword.mpr hsign), if_pos hsign, decodeCompact_mk (by omega)]
    rcases hn.lt_or_eq with hfew | rfl
    · -- a zero byte is left to drop
      have hexp : 3 - (n + 1) + 1 = 3 - n := by omega
      have hnone : n + 1 - 3 = 0 := Nat.sub_eq_zero_of_le hfew
      rw [if_pos (Nat.succ_le_of_lt hfew), hnone, truncate_zero, Nat.div_div_eq_div_mul, ← pow_succ', hexp]
      exact Nat.mul_div_cancel x hunit
    · rw [if_neg (by omega), Nat.sub_self, pow_zero, mul_one]
      rfl
  · rw [if_neg (fun h => hsign (hword.mp h)), if_neg hsign,
      decodeCompact_mk (not_le.mp fun h => hsign (hword.mp h)), if_pos hn, Nat.add_zero,
      Nat.sub_eq_zero_of_le hn, truncate_zero]
    exact Nat.mul_div_cancel x hunit

theorem decode_encode_long (hn : 3 < byteLength x) :
    decodeCompact (encodeCompact x) = truncate (droppedBytes 0x80 x) x := by
  obtain ⟨m, hm⟩ : ∃ m, byteLength x = m + 4 := ⟨byteLength x - 4, by omega⟩
  have hlead : 0x80 ≤ leadByte x ↔ 0x80 * 256 ^ (m + 3) ≤ x := by
    rw [le_leadByte_iff, hm]
    rfl
  have hlt : x < 256 ^ (m + 4) := hm ▸ lt_pow_byteLength x
  have hscale : 256 ^ (m + 3) = 65536 * 256 ^ (m + 1) := by ring
  have hscale' : 256 ^ (m + 4) = 16777216 * 256 ^ (m + 1) := by ring
  have hpow : 0 < 256 ^ (m + 1) := Nat.pow_pos (by omega)
  have hword : 0x800000 ≤ x / 256 ^ (m + 1) ↔ 0x80 * 256 ^ (m + 3) ≤ x := by
    rw [Nat.le_div_iff_mul_le hpow, hscale]
    omega
  have hsmall : x / 256 ^ (m + 1) < 2 ^ 24 := by
    rw [Nat.div_lt_iff_lt_mul hpow]
    omega
  have hsub : m + 4 - 3 = m + 1 := by omega
  have hlong : ¬ m + 4 ≤ 3 := by omega
  simp only [encodeCompact, droppedBytes, hm, if_neg hlong, hsub]
  by_cases hsign : 0x80 * 256 ^ (m + 3) ≤ x
  · rw [if_pos (hword.mpr hsign), if_pos (hlead.mpr hsign), decodeCompact_mk (by omega),
      if_neg (by omega), Nat.div_div_eq_div_mul, ← pow_succ]
    rfl
  · rw [if_neg (fun h => hsign (hword.mp h)), if_neg (fun h => hsign (hlead.mp h)),
      decodeCompact_mk (not_le.mp fun h => hsign (hword.mp h)), if_neg (by omega)]
    rfl

theorem decode_encode (x : ℕ) : decodeCompact (encodeCompact x) = truncate (droppedBytes 0x80 x) x := by
  by_cases hx : x = 0
  · subst hx
    decide
  · rcases le_or_gt (byteLength x) 3 with hn | hn
    · exact decode_encode_short hx hn
    · exact decode_encode_long hn

theorem same_lead (hy : y ≠ 0) (hk : k < byteLength y) (hlow : truncate k y ≤ x)
    (hhigh : x ≤ y) : byteLength x = byteLength y ∧ leadByte x = leadByte y := by
  have hpos := byteLength_pos hy
  have hlead : leadByte y * 256 ^ (byteLength y - 1) ≤ truncate k y := by
    have hsplit : 256 ^ (byteLength y - 1) = 256 ^ (byteLength y - 1 - k) * 256 ^ k := by
      rw [← pow_add]
      congr 1
      omega
    rw [truncate, hsplit, ← mul_assoc]
    apply Nat.mul_le_mul_right
    rw [Nat.le_div_iff_mul_le (Nat.pow_pos (by omega)), mul_assoc, ← hsplit]
    exact Nat.div_mul_le_self _ _
  have hlow' : leadByte y * 256 ^ (byteLength y - 1) ≤ x := hlead.trans hlow
  have hlen : byteLength x = byteLength y := by
    apply byteLength_eq hpos
    · exact (Nat.le_mul_of_pos_left _ (leadByte_pos hy)).trans hlow'
    · exact hhigh.trans_lt (lt_pow_byteLength y)
  refine ⟨hlen, ?_⟩
  apply le_antisymm
  · rw [leadByte, leadByte, hlen]
    exact Nat.div_le_div_right hhigh
  · rw [le_leadByte_iff, hlen]
    exact hlow'

theorem droppedBytes_lt {limit} (hx : x ≠ 0) : droppedBytes limit x < byteLength x := by
  have hpos := byteLength_pos hx
  unfold droppedBytes
  split_ifs <;> omega

theorem truncate_truncate {j} (h : j ≤ k) (x : ℕ) : truncate j (truncate k x) = truncate k x := by
  have hsplit : 256 ^ k = 256 ^ (k - j) * 256 ^ j := by
    rw [← pow_add]
    congr 1
    omega
  have hdiv : truncate k x / 256 ^ j = x / 256 ^ k * 256 ^ (k - j) := by
    rw [truncate]
    nth_rewrite 2 [hsplit]
    rw [← mul_assoc]
    exact Nat.mul_div_cancel _ (Nat.pow_pos (by omega))
  rw [truncate, hdiv, mul_assoc, ← hsplit]
  rfl

end QuidProtocol.Lib
