import Mathlib.Data.ZMod.Basic
import QuidProtocol.Lib.HashPath

/-!
`smt.rs`: the verifier of sparse Merkle witnesses. Poseidon stays a parameter.
-/

namespace QuidProtocol.Smt

open Lib

def fieldOrder : ℕ := 21888242871839275222246405745257275088548364400416034343698204186575808495617

abbrev Fr := ZMod fieldOrder

inductive SmtError
  | exclusionOfPresentKey
  | needsTwoLevels
  | innerVerification
  deriving DecidableEq

def ofBool (b : Bool) : Fr := if b then 1 else 0

def switcher (l r : Fr) (bit : Bool) : Fr × Fr :=
  let aux := (r - l) * ofBool bit
  (aux + l, r - aux)

def isZero (x : Fr) : Fr := ofBool (x = 0)

/-- The loop of `level_ins`, from the deepest sibling but one up: `out` of the levels below, and `done`. -/
def levelInsLoop : List Fr → List Fr × Fr
  | [] => ([], 0)
  | [sibling] => ([1 - isZero sibling], 1 - isZero sibling)
  | sibling :: siblings =>
    let below := levelInsLoop siblings
    let out := (1 - below.2) * (1 - isZero sibling)
    (out :: below.1, out + below.2)

def levelIns (siblings : List Fr) : Except SmtError (List Fr) :=
  if siblings.getLast? ≠ some 0 then .error .innerVerification
  else
    let above := levelInsLoop siblings.dropLast
    .ok ((1 - above.2) :: above.1)

structure Sm where
  top : Fr
  i0 : Fr
  iold : Fr
  inew : Fr
  na : Fr

def smFull (is0 levIns fnc : Fr) (prev : Sm) : Sm where
  top := prev.top - prev.top * levIns
  i0 := prev.top * levIns * is0
  iold := prev.top * levIns * fnc * (1 - is0)
  inew := prev.top * levIns - prev.top * levIns * fnc
  na := prev.na + prev.inew + prev.iold + prev.i0

def smLoop (is0 fnc : Fr) (prev : Sm) : List Fr → List Sm
  | [] => []
  | levIns :: rest =>
    let st := smFull is0 levIns fnc prev
    st :: smLoop is0 fnc st rest

def keyBit (key : Fr) (i : ℕ) : Bool := key.val.testBit i

variable (hash : List Fr → Fr)

def hash1 (key value : Fr) : Fr := hash [key, value, 1]

def levelFull (st : Sm) (sibling old1Leaf new1Leaf : Fr) (lrbit : Bool) (child : Fr) : Fr :=
  let lr := switcher child sibling lrbit
  hash [lr.1, lr.2] * st.top + old1Leaf * st.iold + new1Leaf * st.inew

def levelLoop (key old1Leaf new1Leaf : Fr) : ℕ → List (Sm × Fr) → Fr
  | _, [] => 0
  | i, level :: below =>
    levelFull hash level.1 level.2 old1Leaf new1Leaf (keyBit key i) (levelLoop key old1Leaf new1Leaf (i + 1) below)

structure Witness where
  value : Fr
  oldKey : Fr
  oldValue : Fr
  isOld0 : Bool
  siblings : List Fr

def Witness.levels (w : Witness) (fnc : Bool) (levIns : List Fr) : List (Sm × Fr) :=
  (smLoop (ofBool w.isOld0) (ofBool fnc) ⟨1, 0, 0, 0, 0⟩ levIns).zip w.siblings

def verifyFull (root key : Fr) (w : Witness) (fnc : Bool) : Except SmtError Bool :=
  if fnc ∧ ¬ w.isOld0 ∧ w.oldKey = key then .error .exclusionOfPresentKey
  else if w.siblings.length < 2 then .error .needsTwoLevels
  else do
    let levIns ← levelIns w.siblings
    .ok (levelLoop hash key (hash1 hash w.oldKey w.oldValue) (hash1 hash key w.value) 0 (w.levels fnc levIns) = root)

def levelInputs (key old1Leaf new1Leaf : Fr) : ℕ → List (Sm × Fr) → List (List Fr)
  | _, [] => []
  | i, level :: below =>
    let lr := switcher (levelLoop hash key old1Leaf new1Leaf (i + 1) below) level.2 (keyBit key i)
    [lr.1, lr.2] :: levelInputs key old1Leaf new1Leaf (i + 1) below

def Witness.hashed (w : Witness) (key : Fr) (fnc : Bool) : List (List Fr) :=
  [w.oldKey, w.oldValue, 1] :: [key, w.value, 1] :: match levelIns w.siblings with
    | .ok levIns =>
      levelInputs hash key (hash1 hash w.oldKey w.oldValue) (hash1 hash key w.value) 0 (w.levels fnc levIns)
    | .error _ => []

def CollisionFree (inputs : List (List Fr)) : Prop :=
  (∀ x ∈ inputs, ∀ y ∈ inputs, hash x = hash y → x = y) ∧ ∀ x ∈ inputs, hash x ≠ 0
  deriving Decidable

@[simp]
theorem ofBool_true : ofBool true = 1 := rfl

@[simp]
theorem ofBool_false : ofBool false = 0 := rfl

theorem switcher_eq_pair (child sibling bit) : switcher child sibling bit = Level.pair ⟨bit, sibling⟩ child := by
  cases bit with
  | true | false => simp [switcher, Level.pair]

theorem isZero_cases (x : Fr) : isZero x = 0 ∨ isZero x = 1 := by
  unfold isZero
  cases decide (x = 0) with
  | true => exact .inr rfl
  | false => exact .inl rfl

def OneHot (out : List Fr) (n : ℕ) : Prop := ∃ k m, k + 1 + m = n ∧ out = List.replicate k 0 ++ 1 :: List.replicate m 0

theorem OneHot.cons {out n} (h : OneHot out n) : OneHot (0 :: out) (n + 1) := by
  obtain ⟨k, m, hn, rfl⟩ := h
  exact ⟨k + 1, m, by omega, rfl⟩

theorem oneHot_first (n : ℕ) : OneHot (1 :: List.replicate n 0) (n + 1) := ⟨0, n, by omega, rfl⟩

theorem levelInsLoop_cases (siblings : List Fr) : levelInsLoop siblings = (List.replicate siblings.length 0, 0) ∨
      (levelInsLoop siblings).2 = 1 ∧ OneHot (levelInsLoop siblings).1 siblings.length := by
  induction siblings using levelInsLoop.induct with
  | case1 => exact .inl rfl
  | case2 sibling =>
    rcases isZero_cases sibling with h | h
    · right
      simpa [levelInsLoop, h] using oneHot_first 0
    · left
      simp [levelInsLoop, h]
  | case3 sibling siblings hne ih =>
    rw [levelInsLoop.eq_3 _ _ hne]
    rcases ih with hnone | ⟨hdone, hhot⟩
    · rcases isZero_cases sibling with h | h
      · right
        simpa [hnone, h] using oneHot_first siblings.length
      · left
        simp [hnone, h, List.replicate_succ]
    · right
      simpa [hdone] using hhot.cons

theorem levelIns_oneHot {siblings levIns} (h : levelIns siblings = .ok levIns) : OneHot levIns siblings.length := by
  unfold levelIns at h
  split_ifs at h with hlast
  cases h
  have hne : siblings ≠ [] := by
    rintro rfl
    simp at hlast
  have hlength : siblings.length = siblings.dropLast.length + 1 := by
    rw [List.length_dropLast]
    have := List.length_pos_of_ne_nil hne
    omega
  rw [hlength]
  rcases levelInsLoop_cases siblings.dropLast with hnone | ⟨hdone, hhot⟩
  · simpa [hnone] using oneHot_first siblings.dropLast.length
  · simpa [hdone] using hhot.cons

def node (x : Fr × Fr) : Fr := hash [x.1, x.2]

def bottom (old1Leaf new1Leaf : Fr) (isOld0 fnc : Bool) : Fr := if fnc then if isOld0 then 0 else old1Leaf else new1Leaf

def keyPath (key : Fr) : ℕ → List Fr → List (Level Fr)
  | _, [] => []
  | i, sibling :: siblings => ⟨keyBit key i, sibling⟩ :: keyPath key (i + 1) siblings

theorem keyPath_sameWay (key i) (siblings siblings' : List Fr) :
    SameWay (keyPath key i siblings) (keyPath key i siblings') := by
  induction siblings generalizing i siblings' with
  | nil => simp [keyPath, SameWay]
  | cons sibling siblings ih =>
    cases siblings' with
    | nil => simp [keyPath, SameWay]
    | cons sibling' siblings' => exact ⟨rfl, ih (i + 1) siblings'⟩

theorem levelFull_top (sibling old1Leaf new1Leaf child bit) :
    levelFull hash ⟨1, 0, 0, 0, 0⟩ sibling old1Leaf new1Leaf bit child =
      node hash (Level.pair ⟨bit, sibling⟩ child) := by
  simp [levelFull, node, switcher_eq_pair]

theorem smFull_top (is0 fnc : Fr) : smFull is0 0 fnc ⟨1, 0, 0, 0, 0⟩ = ⟨1, 0, 0, 0, 0⟩ := by simp [smFull]

theorem levelFull_bottom (isOld0 fnc sibling old1Leaf new1Leaf child bit) :
    levelFull hash (smFull (ofBool isOld0) 1 (ofBool fnc) ⟨1, 0, 0, 0, 0⟩) sibling old1Leaf new1Leaf bit child =
      bottom old1Leaf new1Leaf isOld0 fnc := by
  cases fnc with
  | true | false => cases isOld0 <;> simp [levelFull, smFull, bottom]

theorem levelLoop_oneHot (key old1Leaf new1Leaf isOld0 fnc) {k} (m i : ℕ) {siblings} (hk : k < siblings.length) :
    let levels := (smLoop (ofBool isOld0) (ofBool fnc) ⟨1, 0, 0, 0, 0⟩
      (List.replicate k 0 ++ 1 :: List.replicate m 0)).zip siblings
    let path := keyPath key i (siblings.take k)
    levelLoop hash key old1Leaf new1Leaf i levels = digest (node hash) (bottom old1Leaf new1Leaf isOld0 fnc) path ∧
      ∀ x ∈ digestInputs (node hash) (bottom old1Leaf new1Leaf isOld0 fnc) path,
        [x.1, x.2] ∈ levelInputs hash key old1Leaf new1Leaf i levels := by
  induction k generalizing i siblings with
  | zero =>
    cases siblings with
    | nil => simp at hk
    | cons =>
      simp [smLoop, levelLoop, levelFull_bottom, keyPath, digest, digestInputs]
  | succ k ih =>
    cases siblings with
    | nil => simp at hk
    | cons sibling siblings =>
      have hrest := ih (i + 1) (show k < siblings.length by simpa using hk)
      simp only [List.replicate_succ, List.cons_append, smLoop, smFull_top, List.zip_cons_cons, levelLoop,
        levelInputs, levelFull_top, List.take_succ_cons, keyPath, digest, digestInputs, switcher_eq_pair] at hrest ⊢
      refine ⟨by rw [hrest.1], ?_⟩
      intro x hx
      rcases List.mem_cons.mp hx with rfl | hx
      · rw [hrest.1]
        exact List.mem_cons_self
      · exact List.mem_cons_of_mem _ (hrest.2 x hx)

def Witness.bottom (w : Witness) (key : Fr) (fnc : Bool) : Fr :=
  Smt.bottom (hash1 hash w.oldKey w.oldValue) (hash1 hash key w.value) w.isOld0 fnc

variable {root key : Fr} {w w' : Witness}

theorem path_of_verifyFull {fnc} (h : verifyFull hash root key w fnc = .ok true) : ∃ siblings,
      digest (node hash) (w.bottom hash key fnc) (keyPath key 0 siblings) = root ∧
        ∀ x ∈ digestInputs (node hash) (w.bottom hash key fnc) (keyPath key 0 siblings),
          [x.1, x.2] ∈ w.hashed hash key fnc := by
  unfold verifyFull at h
  split_ifs at h
  cases hlev : levelIns w.siblings with
  | error =>
    rw [hlev] at h
    cases h
  | ok levIns =>
    rw [hlev] at h
    have hroot := of_decide_eq_true (Except.ok.inj h)
    obtain ⟨k, m, hn, rfl⟩ := levelIns_oneHot hlev
    have hloop := levelLoop_oneHot hash key (hash1 hash w.oldKey w.oldValue) (hash1 hash key w.value) w.isOld0 fnc m 0
      (show k < w.siblings.length by omega)
    refine ⟨w.siblings.take k, hloop.1.symm.trans hroot, ?_⟩
    intro x hx
    simp only [Witness.hashed, hlev]
    exact List.mem_cons_of_mem _ (List.mem_cons_of_mem _ (hloop.2 x hx))

theorem node_ne_bottom {inputs : List (List Fr)} (hfree : CollisionFree hash inputs) {x : Fr × Fr}
    (hx : [x.1, x.2] ∈ inputs) {w : Witness} {key : Fr} {fnc : Bool} (hw : w.hashed hash key fnc ⊆ inputs) :
    node hash x ≠ w.bottom hash key fnc := by
  intro h
  unfold Witness.bottom bottom at h
  split_ifs at h
  · exact hfree.2 _ hx h
  all_goals
    have hlist := hfree.1 _ hx _ (hw (by simp [Witness.hashed])) h
    simp at hlist

theorem bottom_eq_of_verifyFull {fnc fnc' : Bool}
    (hfree : CollisionFree hash (w.hashed hash key fnc ++ w'.hashed hash key fnc'))
    (h : verifyFull hash root key w fnc = .ok true) (h' : verifyFull hash root key w' fnc' = .ok true) :
    w.bottom hash key fnc = w'.bottom hash key fnc' := by
  obtain ⟨siblings, hroot, hin⟩ := path_of_verifyFull hash h
  obtain ⟨siblings', hroot', hin'⟩ := path_of_verifyFull hash h'
  have hleft := List.subset_append_left (w.hashed hash key fnc) (w'.hashed hash key fnc')
  have hright := List.subset_append_right (w.hashed hash key fnc) (w'.hashed hash key fnc')
  have hnode (x y : Fr × Fr) (hx : [x.1, x.2] ∈ w.hashed hash key fnc) (hy : [y.1, y.2] ∈ w'.hashed hash key fnc')
      (hxy : node hash x = node hash y) : x = y := by
    have hlist := hfree.1 _ (hleft hx) _ (hright hy) hxy
    simp only [List.cons.injEq, and_true] at hlist
    exact Prod.ext hlist.1 hlist.2
  have hcases := digest_eq_cases _ (keyPath_sameWay key 0 _ _)
    (fun x hx y hy => hnode x y (hin x hx) (hin' y hy)) (hroot.trans hroot'.symm)
  rcases hcases with heq | ⟨x, hx, he⟩ | ⟨y, hy, he⟩
  · exact heq
  · exact absurd he (node_ne_bottom hash hfree (hleft (hin x hx)) hright)
  · exact absurd he (node_ne_bottom hash hfree (hright (hin' y hy)) hleft)

theorem oldKey_ne_of_verifyFull (h : verifyFull hash root key w true = .ok true)
    (hold : w.isOld0 = false) : w.oldKey ≠ key := by
  intro hkey
  unfold verifyFull at h
  rw [if_pos ⟨rfl, by simp [hold], hkey⟩] at h
  cases h

theorem inclusion_excludes_exclusion (hfree : CollisionFree hash (w.hashed hash key false ++ w'.hashed hash key true))
    (h : verifyFull hash root key w false = .ok true) : verifyFull hash root key w' true ≠ .ok true := by
  intro h'
  have heq := bottom_eq_of_verifyFull hash hfree h h'
  simp only [Witness.bottom, bottom, Bool.false_eq_true, if_false, if_true] at heq
  have hnew : [key, w.value, 1] ∈ w.hashed hash key false ++ w'.hashed hash key true := by simp [Witness.hashed]
  cases hold : w'.isOld0 with
  | true =>
    rw [hold, if_pos rfl] at heq
    exact hfree.2 _ hnew heq
  | false =>
    rw [hold, if_neg (by simp)] at heq
    have hlist := hfree.1 _ hnew _ (by simp [Witness.hashed]) heq
    simp only [List.cons.injEq] at hlist
    exact oldKey_ne_of_verifyFull hash h' hold hlist.1.symm

theorem value_eq_of_inclusion (hfree : CollisionFree hash (w.hashed hash key false ++ w'.hashed hash key false))
    (h : verifyFull hash root key w false = .ok true) (h' : verifyFull hash root key w' false = .ok true) :
    w.value = w'.value := by
  have heq := bottom_eq_of_verifyFull hash hfree h h'
  simp only [Witness.bottom, bottom, Bool.false_eq_true, if_false] at heq
  have hlist := hfree.1 _ (by simp [Witness.hashed]) _ (by simp [Witness.hashed]) heq
  simp only [List.cons.injEq] at hlist
  exact hlist.2.1

theorem witnesses_sound (root key : Fr) (w w' : Witness) :
    (CollisionFree hash (w.hashed hash key false ++ w'.hashed hash key true) →
      ¬ (verifyFull hash root key w false = .ok true ∧ verifyFull hash root key w' true = .ok true)) ∧
    (CollisionFree hash (w.hashed hash key false ++ w'.hashed hash key false) → w.value ≠ w'.value →
      ¬ (verifyFull hash root key w false = .ok true ∧ verifyFull hash root key w' false = .ok true)) := by
  constructor
  · rintro hfree ⟨h, h'⟩
    exact inclusion_excludes_exclusion hash hfree h h'
  · rintro hfree hne ⟨h, h'⟩
    exact hne (value_eq_of_inclusion hash hfree h h')

def sampleHash (xs : List Fr) : Fr := xs.foldl (fun acc x => acc * 1000003 + x + 1) 7

def sampleRoot : Fr := sampleHash [sampleHash [2, 22, 1], sampleHash [7, 77, 1]]

def sampleInclusion (value : Fr) : Witness where
  value := value
  oldKey := 0
  oldValue := 0
  isOld0 := false
  siblings := [sampleHash [2, 22, 1], 0]

def sampleExclusion : Witness where
  value := 0
  oldKey := 2
  oldValue := 22
  isOld0 := false
  siblings := [sampleHash [7, 77, 1], 0]

theorem witnesses_sound_sample : verifyFull sampleHash sampleRoot 7 (sampleInclusion 77) false = .ok true ∧
      verifyFull sampleHash sampleRoot 7 sampleExclusion true ≠ .ok true ∧
      verifyFull sampleHash sampleRoot 7 (sampleInclusion 78) false ≠ .ok true := by
  have h : verifyFull sampleHash sampleRoot 7 (sampleInclusion 77) false = .ok true := by decide +kernel
  refine ⟨h, ?_, ?_⟩
  · have hfree : CollisionFree sampleHash ((sampleInclusion 77).hashed sampleHash 7 false ++
        sampleExclusion.hashed sampleHash 7 true) := by decide +kernel
    intro h'
    exact (witnesses_sound sampleHash sampleRoot 7 (sampleInclusion 77) sampleExclusion).1 hfree ⟨h, h'⟩
  · have hfree : CollisionFree sampleHash ((sampleInclusion 77).hashed sampleHash 7 false ++
        (sampleInclusion 78).hashed sampleHash 7 false) := by decide +kernel
    intro h'
    exact (witnesses_sound sampleHash sampleRoot 7 (sampleInclusion 77) (sampleInclusion 78)).2 hfree
      (by decide +kernel) ⟨h, h'⟩

end QuidProtocol.Smt
