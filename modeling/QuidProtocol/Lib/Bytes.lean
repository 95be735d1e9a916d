import Mathlib.Tactic

/-!
Numbers as byte strings, in both byte orders, and byte strings inside longer ones.
-/

namespace QuidProtocol.Lib

abbrev Bytes := List UInt8

def ofBytesLE : Bytes → ℕ
  | [] => 0
  | b :: bs => b.toNat + 256 * ofBytesLE bs

def toBytesLE : ℕ → ℕ → Bytes
  | 0, _ => []
  | n + 1, x => UInt8.ofNat x :: toBytesLE n (x / 256)

def ofBytesBE (bs : Bytes) : ℕ := ofBytesLE bs.reverse

def toBytesBE (n x : ℕ) : Bytes := (toBytesLE n x).reverse

@[simp] theorem toBytesLE_length (n x : ℕ) : (toBytesLE n x).length = n := by
  induction n generalizing x with
  | zero => rfl
  | succ n ih => simp [toBytesLE, ih]

@[simp] theorem toBytesBE_length (n x : ℕ) : (toBytesBE n x).length = n := by simp [toBytesBE]

theorem ofBytesLE_lt (bs : Bytes) : ofBytesLE bs < 256 ^ bs.length := by
  induction bs with
  | nil => simp [ofBytesLE]
  | cons b bs ih =>
    have hb := b.toNat_lt
    simp only [ofBytesLE, List.length_cons, pow_succ]
    omega

theorem ofBytesBE_lt (bs : Bytes) : ofBytesBE bs < 256 ^ bs.length := by simpa [ofBytesBE] using ofBytesLE_lt bs.reverse

theorem ofBytesLE_toBytesLE (n x : ℕ) : ofBytesLE (toBytesLE n x) = x % 256 ^ n := by
  induction n generalizing x with
  | zero => simp [toBytesLE, ofBytesLE, Nat.mod_one]
  | succ n ih =>
    have hb : (UInt8.ofNat x).toNat = x % 256 := by simp
    simp only [toBytesLE, ofBytesLE, ih, hb]
    rw [pow_succ', Nat.mod_mul]

theorem toBytesLE_ofBytesLE (bs : Bytes) : toBytesLE bs.length (ofBytesLE bs) = bs := by
  induction bs with
  | nil => rfl
  | cons b bs ih =>
    have hb := b.toNat_lt
    have hdiv : (b.toNat + 256 * ofBytesLE bs) / 256 = ofBytesLE bs := by omega
    have hbyte : UInt8.ofNat (b.toNat + 256 * ofBytesLE bs) = b := by
      apply UInt8.toNat_inj.mp
      simp only [UInt8.toNat_ofNat']
      omega
    simp only [List.length_cons, ofBytesLE, toBytesLE, hdiv, hbyte, ih]

theorem ofBytesBE_toBytesBE (n x : ℕ) : ofBytesBE (toBytesBE n x) = x % 256 ^ n := by
  simp [ofBytesBE, toBytesBE, ofBytesLE_toBytesLE]

theorem toBytesBE_ofBytesBE (bs : Bytes) : toBytesBE bs.length (ofBytesBE bs) = bs := by
  have h := toBytesLE_ofBytesLE bs.reverse
  rw [List.length_reverse] at h
  simp [toBytesBE, ofBytesBE, h]

theorem toBytesLE_of_lt (m : ℕ) {n x} (h : x < 256 ^ n) :
    toBytesLE (n + m) x = toBytesLE n x ++ List.replicate m 0 := by
  induction n generalizing x with
  | zero =>
    obtain rfl : x = 0 := by simpa using h
    rw [Nat.zero_add, toBytesLE, List.nil_append]
    induction m with
    | zero => rfl
    | succ m ih => rw [toBytesLE, Nat.zero_div, ih, List.replicate_succ]; rfl
  | succ n ih =>
    have hdiv : x / 256 < 256 ^ n := by
      rw [Nat.div_lt_iff_lt_mul (by norm_num), ← pow_succ]
      exact h
    rw [Nat.add_right_comm, toBytesLE, toBytesLE, ih hdiv, List.cons_append]

theorem toBytesBE_of_lt (m : ℕ) {n x} (h : x < 256 ^ n) :
    toBytesBE (m + n) x = List.replicate m 0 ++ toBytesBE n x := by
  rw [toBytesBE, Nat.add_comm, toBytesLE_of_lt m h, List.reverse_append, List.reverse_replicate, toBytesBE]

theorem ofBytesLE_append (as bs : Bytes) : ofBytesLE (as ++ bs) = ofBytesLE as + 256 ^ as.length * ofBytesLE bs := by
  induction as with
  | nil => simp [ofBytesLE]
  | cons a as ih =>
    simp only [List.cons_append, ofBytesLE, ih, List.length_cons, pow_succ]
    ring

theorem ofBytesBE_append (bs cs : Bytes) : ofBytesBE (bs ++ cs) = ofBytesBE bs * 256 ^ cs.length + ofBytesBE cs := by
  rw [ofBytesBE, List.reverse_append, ofBytesLE_append, List.length_reverse, ofBytesBE, ofBytesBE]
  ring

def Located (raw : Bytes) (offset : ℕ) (bs : Bytes) : Prop :=
  ∃ before behind, raw = before ++ (bs ++ behind) ∧ before.length = offset

namespace Located

variable {raw as bs : Bytes} {offset : ℕ}

theorem left (h : Located raw offset (as ++ bs)) : Located raw offset as := by
  obtain ⟨before, behind, rfl, hlen⟩ := h
  exact ⟨before, bs ++ behind, by simp, hlen⟩

theorem right (h : Located raw offset (as ++ bs)) : Located raw (offset + as.length) bs := by
  obtain ⟨before, behind, rfl, hlen⟩ := h
  exact ⟨before ++ as, behind, by simp, by simp [hlen]⟩

theorem tail {b} (h : Located raw offset (b :: bs)) : Located raw (offset + 1) bs := by
  have hcons : b :: bs = [b] ++ bs := rfl
  rw [hcons] at h
  exact h.right

theorem length_le (h : Located raw offset bs) : offset + bs.length ≤ raw.length := by
  obtain ⟨before, behind, rfl, rfl⟩ := h
  simp only [List.length_append]
  omega

theorem getElem?_eq {b} (h : Located raw offset (b :: bs)) : raw[offset]? = some b := by
  obtain ⟨before, behind, rfl, rfl⟩ := h
  simp

theorem take_drop (h : Located raw offset bs) : (raw.drop offset).take bs.length = bs := by
  obtain ⟨before, behind, rfl, rfl⟩ := h
  simp

theorem append_behind (h : Located raw offset bs) (behind : Bytes) : Located (raw ++ behind) offset bs := by
  obtain ⟨before, rest, rfl, hlen⟩ := h
  exact ⟨before, rest ++ behind, by simp, hlen⟩

end Located

end QuidProtocol.Lib
