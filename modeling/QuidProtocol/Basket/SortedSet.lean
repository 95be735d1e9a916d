import Mathlib.Data.List.GetD
import QuidProtocol.Basket.Types

/-!
`SortedSetLib`: a set of words kept as a sorted array next to a membership mapping.
-/

namespace QuidProtocol.Basket

open Lib

structure SortedSet where
  sortedArray : List ℕ
  present : ℕ → Bool

namespace SortedSet

def empty : SortedSet := ⟨[], fun _ => false⟩

def binarySearchLoop (array : List ℕ) (value : ℕ) : ℕ → ℕ → ℕ → ℕ × Bool
  | 0, left, _ => (left, false)
  | fuel + 1, left, right =>
    if left < right then
      let mid := left + (right - left) / 2
      let element := array.getD mid 0
      if element = value then (mid, true)
      else if element < value then binarySearchLoop array value fuel (mid + 1) right
      else binarySearchLoop array value fuel left mid
    else (left, false)

def binarySearch (self : SortedSet) (value : ℕ) : ℕ × Bool :=
  binarySearchLoop self.sortedArray value self.sortedArray.length 0 self.sortedArray.length

def shiftUp (index : ℕ) : List ℕ → ℕ → List ℕ
  | array, 0 => array
  | array, i + 1 => if index < i + 1 then shiftUp index (array.set (i + 1) (array.getD i 0)) i else array

def insert (self : SortedSet) (value : ℕ) : SortedSet :=
  if self.present value then self
  else
    let index := (self.binarySearch value).1
    let pushed := self.sortedArray ++ [0]
    { sortedArray := (shiftUp index pushed (pushed.length - 1)).set index value
      present := Function.update self.present value true }

def compactArray (array : List ℕ) : List ℕ := array.filter (· ≠ maxUint)

def remove (self : SortedSet) (value : ℕ) : Res SortedSet := do
  require .valueDoesNotExist (self.present value = true)
  let index := (self.binarySearch value).1
  require .valueNotFound (index < self.sortedArray.length ∧ self.sortedArray.getD index 0 = value)
  .ok
    { sortedArray := compactArray (self.sortedArray.set index maxUint)
      present := Function.update self.present value false }

structure Sound (s : SortedSet) : Prop where
  sorted : s.sortedArray.Pairwise (· < ·)
  below : ∀ v ∈ s.sortedArray, v < maxUint
  present_iff : ∀ v, s.present v = true ↔ v ∈ s.sortedArray

theorem sound_empty : empty.Sound := by refine ⟨List.Pairwise.nil, ?_, ?_⟩ <;> simp [empty]

structure Place (array : List ℕ) (value index : ℕ) : Prop where
  le : index ≤ array.length
  before : ∀ v ∈ array.take index, v < value
  after : ∀ v ∈ array.drop index, value ≤ v

variable {array : List ℕ} {value index : ℕ}

theorem getD_lt_of_sorted (hs : array.Pairwise (· < ·)) {i j} (hij : i < j)
    (hj : j < array.length) : array.getD i 0 < array.getD j 0 := by
  have hi : i < array.length := by omega
  rw [List.getD_eq_getElem _ _ hi, List.getD_eq_getElem _ _ hj]
  exact List.pairwise_iff_getElem.mp hs i j hi hj hij

theorem place_of_bounds (hle : index ≤ array.length) (hlow : ∀ i < index, array.getD i 0 < value)
    (hhigh : ∀ i, index ≤ i → i < array.length → value ≤ array.getD i 0) : Place array value index := by
  refine ⟨hle, ?_, ?_⟩
  · intro v hv
    obtain ⟨i, hi, rfl⟩ := List.mem_iff_getElem.mp hv
    rw [List.length_take] at hi
    have h := hlow i (by omega)
    rw [List.getD_eq_getElem _ _ (by omega)] at h
    simpa using h
  · intro v hv
    obtain ⟨i, hi, rfl⟩ := List.mem_iff_getElem.mp hv
    rw [List.length_drop] at hi
    have h := hhigh (index + i) (by omega) (by omega)
    rw [List.getD_eq_getElem _ _ (by omega)] at h
    simpa using h

theorem binarySearchLoop_place (hs : array.Pairwise (· < ·)) {fuel left right}
    (hfuel : right - left ≤ fuel) (hle : left ≤ right) (hright : right ≤ array.length)
    (hlow : ∀ i < left, array.getD i 0 < value) (hhigh : ∀ i, right ≤ i → i < array.length → value ≤ array.getD i 0) :
    Place array value (binarySearchLoop array value fuel left right).1 := by
  induction fuel generalizing left right with
  | zero =>
    obtain rfl : left = right := by omega
    exact place_of_bounds hright hlow hhigh
  | succ fuel ih =>
    unfold binarySearchLoop
    by_cases hlt : left < right
    · rw [if_pos hlt]
      have hmid : left + (right - left) / 2 < right := by omega
      have hleft : left ≤ left + (right - left) / 2 := by omega
      generalize left + (right - left) / 2 = mid at hmid hleft ⊢
      by_cases heq : array.getD mid 0 = value
      · simp only [heq, if_true]
        refine place_of_bounds (by omega) ?_ ?_
        · intro i hi
          have h := getD_lt_of_sorted hs hi (by omega)
          omega
        · intro i hi hlen
          rcases hi.eq_or_lt with rfl | hi
          · omega
          · have h := getD_lt_of_sorted hs hi hlen
            omega
      · simp only [heq, if_false]
        by_cases hsmall : array.getD mid 0 < value
        · rw [if_pos hsmall]
          refine ih (by omega) (by omega) hright ?_ hhigh
          intro i hi
          rcases (Nat.lt_succ_iff.mp hi).eq_or_lt with rfl | hi
          · exact hsmall
          · have h := getD_lt_of_sorted hs hi (by omega)
            omega
        · rw [if_neg hsmall]
          refine ih (by omega) hleft (by omega) hlow ?_
          intro i hi hlen
          rcases hi.eq_or_lt with rfl | hi
          · omega
          · have h := getD_lt_of_sorted hs hi hlen
            omega
    · rw [if_neg hlt]
      obtain rfl : left = right := by omega
      exact place_of_bounds hright hlow hhigh

variable {s : SortedSet} {value : ℕ}

theorem Sound.place (h : s.Sound) (value : ℕ) : Place s.sortedArray value (s.binarySearch value).1 := by
  apply binarySearchLoop_place h.sorted (Nat.sub_le _ _) (Nat.zero_le _) le_rfl
  · intro i hi
    exact absurd hi (Nat.not_lt_zero i)
  · intro i hi hlen
    omega

theorem getElem?_shiftUp (index : ℕ) {array i} (hi : i < array.length) (j : ℕ) :
    (shiftUp index array i)[j]? = if index < j ∧ j ≤ i then array[j - 1]? else array[j]? := by
  induction i generalizing array with
  | zero =>
    unfold shiftUp
    rw [if_neg (by omega)]
  | succ i ih =>
    unfold shiftUp
    by_cases hlt : index < i + 1
    · rw [if_pos hlt, ih (by rw [List.length_set]; omega)]
      have hget : array[i]? = some (array.getD i 0) := by
        rw [List.getD_eq_getElem _ _ (by omega), List.getElem?_eq_getElem]
      rcases lt_trichotomy j (i + 1) with hj | rfl | hj
      · have hne : i + 1 ≠ j := by omega
        have hne' : i + 1 ≠ j - 1 := by omega
        have hle : j ≤ i ↔ j ≤ i + 1 := by omega
        simp only [List.getElem?_set_ne hne, List.getElem?_set_ne hne', hle]
      · rw [if_neg (by omega), if_pos ⟨hlt, le_rfl⟩, List.getElem?_set_self hi]
        exact hget.symm
      · rw [if_neg (by omega), if_neg (by omega), List.getElem?_set_ne (by omega)]
    · rw [if_neg hlt, if_neg (by omega)]

theorem length_shiftUp (index : ℕ) (array : List ℕ) (i : ℕ) : (shiftUp index array i).length = array.length := by
  induction i generalizing array with
  | zero => rfl
  | succ i ih =>
    unfold shiftUp
    split_ifs
    · rw [ih, List.length_set]
    · rfl

theorem shiftUp_set (hle : index ≤ array.length) (value : ℕ) :
    (shiftUp index (array ++ [0]) array.length).set index value = array.take index ++ value :: array.drop index := by
  have hlen : array.length < (array ++ [0]).length := by simp
  apply List.ext_getElem?
  intro j
  have htake : (array.take index).length = index := by rw [List.length_take, min_eq_left hle]
  rcases lt_trichotomy j index with hj | rfl | hj
  · rw [List.getElem?_set_ne (by omega), getElem?_shiftUp index hlen, if_neg (by omega),
      List.getElem?_append_left (by omega), List.getElem?_append_left (by omega),
      List.getElem?_take_of_lt hj]
  · rw [List.getElem?_set_self (by rw [length_shiftUp]; omega), List.getElem?_append_right (by omega),
      htake, Nat.sub_self]
    rfl
  · rw [List.getElem?_set_ne (by omega), getElem?_shiftUp index hlen,
      List.getElem?_append_right (by omega : (array.take index).length ≤ j), htake]
    obtain ⟨d, rfl⟩ := Nat.exists_eq_add_of_lt hj
    have hsub : index + d + 1 - index = d + 1 := by omega
    rw [hsub, List.getElem?_cons_succ, List.getElem?_drop, Nat.add_sub_cancel]
    by_cases hend : index + d + 1 ≤ array.length
    · rw [if_pos ⟨hj, hend⟩, List.getElem?_append_left (by omega)]
    · rw [if_neg (by omega), List.getElem?_eq_none (by simp; omega), List.getElem?_eq_none (by omega)]

theorem insert_of_present (h : s.present value = true) : s.insert value = s := by
  unfold insert
  rw [if_pos h]

theorem insert_sortedArray (hs : s.Sound) (h : ¬ s.present value = true) :
    (s.insert value).sortedArray = s.sortedArray.take (s.binarySearch value).1 ++
      value :: s.sortedArray.drop (s.binarySearch value).1 := by
  unfold insert
  rw [if_neg h, ← shiftUp_set (hs.place value).le]
  simp

theorem mem_insert (hs : s.Sound) (value v : ℕ) : v ∈ (s.insert value).sortedArray ↔ v = value ∨ v ∈ s.sortedArray := by
  by_cases h : s.present value = true
  · rw [insert_of_present h]
    have hmem := (hs.present_iff value).mp h
    constructor
    · exact Or.inr
    · rintro (rfl | hv)
      · exact hmem
      · exact hv
  · rw [insert_sortedArray hs h]
    have hsplit := List.take_append_drop (s.binarySearch value).1 s.sortedArray
    conv_rhs => rw [← hsplit]
    simp only [List.mem_append, List.mem_cons]
    tauto

theorem Sound.insert (hs : s.Sound) (hv : value < maxUint) : (s.insert value).Sound := by
  refine ⟨?_, ?_, ?_⟩
  · by_cases h : s.present value = true
    · rw [insert_of_present h]
      exact hs.sorted
    · have hplace := hs.place value
      have hnot : value ∉ s.sortedArray := fun hm => h ((hs.present_iff value).mpr hm)
      have hsorted := hs.sorted
      rw [← List.take_append_drop (s.binarySearch value).1 s.sortedArray, List.pairwise_append] at hsorted
      obtain ⟨hlow, hhigh, hcross⟩ := hsorted
      rw [insert_sortedArray hs h, List.pairwise_append, List.pairwise_cons]
      refine ⟨hlow, ⟨?_, hhigh⟩, ?_⟩
      · intro v hvmem
        have hne : value ≠ v := fun he => hnot (he ▸ List.mem_of_mem_drop hvmem)
        exact lt_of_le_of_ne (hplace.after v hvmem) hne
      · intro a ha b hb
        rcases List.mem_cons.mp hb with rfl | hb
        · exact hplace.before a ha
        · exact hcross a ha b hb
  · intro v hvmem
    rcases (mem_insert hs value v).mp hvmem with rfl | hvmem
    · exact hv
    · exact hs.below v hvmem
  · intro v
    rw [mem_insert hs]
    by_cases h : s.present value = true
    · rw [insert_of_present h, hs.present_iff]
      constructor
      · exact Or.inr
      · rintro (rfl | hvmem)
        · exact (hs.present_iff v).mp h
        · exact hvmem
    · unfold SortedSet.insert
      rw [if_neg h]
      by_cases hne : v = value
      · simp [hne]
      · simp [hne, hs.present_iff]

theorem Place.split (h : Place array value index) (hs : array.Pairwise (· < ·)) (hmem : value ∈ array) :
    array = array.take index ++ value :: array.drop (index + 1) := by
  rw [← List.take_append_drop index array, List.mem_append] at hmem
  rcases hmem with hmem | hmem
  · exact absurd (h.before value hmem) (lt_irrefl value)
  · cases hdrop : array.drop index with
    | nil => simp [hdrop] at hmem
    | cons v rest =>
      have hsorted := hs.sublist (List.drop_sublist index array)
      rw [hdrop] at hmem hsorted
      have hge := h.after v (by simp [hdrop])
      have hv : v = value := by
        rcases List.mem_cons.mp hmem with heq | hmem
        · exact heq.symm
        · exact absurd ((List.pairwise_cons.mp hsorted).1 value hmem) (by omega)
      have hrest : array.drop (index + 1) = rest := by
        rw [← List.drop_drop, hdrop]
        rfl
      rw [hrest, ← hv, ← hdrop, List.take_append_drop]

theorem compactArray_set (h : Place array value index)
    (hs : array.Pairwise (· < ·)) (hbelow : ∀ v ∈ array, v < maxUint) (hmem : value ∈ array) :
    compactArray (array.set index maxUint) = array.filter (· ≠ value) := by
  have hsplit := h.split hs hmem
  have hlen : (array.take index).length = index := by rw [List.length_take, min_eq_left h.le]
  generalize array.take index = low at hsplit hlen
  generalize array.drop (index + 1) = high at hsplit
  subst hsplit
  have hset : (low ++ value :: high).set index maxUint = low ++ maxUint :: high := by
    rw [List.set_append_right _ _ hlen.le, hlen, Nat.sub_self, List.set_cons_zero]
  obtain ⟨-, htail, hcross⟩ := List.pairwise_append.mp hs
  have hkeep (part : List ℕ) (hpart : ∀ v ∈ part, v < maxUint ∧ v ≠ value) :
      part.filter (· ≠ maxUint) = part.filter (· ≠ value) := by
    apply List.filter_congr
    intro v hv
    obtain ⟨hlt, hne⟩ := hpart v hv
    simp [hlt.ne, hne]
  rw [hset, compactArray, List.filter_append, List.filter_append, hkeep low, List.filter_cons_of_neg,
    List.filter_cons_of_neg, hkeep high]
  · intro v hv
    exact ⟨hbelow v (by simp [hv]), ((List.pairwise_cons.mp htail).1 v hv).ne'⟩
  · simp
  · simp
  · intro v hv
    exact ⟨hbelow v (by simp [hv]), (hcross v hv value (by simp)).ne⟩

theorem remove_of_mem (hs : s.Sound) (hmem : value ∈ s.sortedArray) : ∃ s', s.remove value = .ok s' ∧ s'.Sound ∧
      ∀ v, v ∈ s'.sortedArray ↔ v ∈ s.sortedArray ∧ v ≠ value := by
  have hplace := hs.place value
  have hsplit := hplace.split hs.sorted hmem
  have hcompact := compactArray_set hplace hs.sorted hs.below hmem
  have hpresent := (hs.present_iff value).mpr hmem
  have hfound : (s.binarySearch value).1 < s.sortedArray.length ∧
      s.sortedArray.getD (s.binarySearch value).1 0 = value := by
    have hlen : (s.sortedArray.take (s.binarySearch value).1).length = (s.binarySearch value).1 := by
      rw [List.length_take, min_eq_left hplace.le]
    constructor
    · rw [hsplit, List.length_append, hlen, List.length_cons]
      omega
    · rw [hsplit, List.getD_append_right _ _ _ _ hlen.le, hlen, Nat.sub_self]
      rfl
  refine ⟨⟨s.sortedArray.filter (· ≠ value), Function.update s.present value false⟩, ?_, ?_, ?_⟩
  · unfold remove
    simp only [require_of _ hpresent, require_of _ hfound, ok_bind, hcompact]
  · refine ⟨hs.sorted.filter _, ?_, ?_⟩
    · intro v hv
      exact hs.below v (List.mem_of_mem_filter hv)
    · intro v
      by_cases hne : v = value
      · simp [hne]
      · simp [hne, hs.present_iff]
  · intro v
    simp

end SortedSet

end QuidProtocol.Basket
