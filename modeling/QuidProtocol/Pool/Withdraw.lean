import QuidProtocol.Lib.Checked
import QuidProtocol.Smt.Verifier

/-!
`withdraw.rs` over the state tree of `InternalLeanIMT.sol`.
-/

namespace QuidProtocol.Pool

open Lib Smt Function

structure Note where
  value : Fr
  label : Fr
  nullifier : Fr
  secret : Fr

structure WithdrawSignals where
  newCommitment : Fr
  existingNullifierHash : Fr
  withdrawnValue : Fr
  stateRoot : Fr
  stateTreeDepth : Fr
  identityRoot : Fr
  blacklistRoot : Fr

structure WithdrawWitness where
  note : Note
  stateLeafIndex : Fr
  stateSiblings : List Fr
  outNullifier : Fr
  outSecret : Fr
  revocationSecret : Fr
  identitySiblings : List Fr
  documentId : Fr
  labelExclusion : Witness
  documentExclusion : Witness

inductive WithdrawError
  | nullifierHash
  | stateTreeDepth
  | depthExceedsSiblings
  | notInStateTree
  | valueExceeds
  | withdrawnMore
  | changeCommitment
  | identityWitnessDepth
  | identityNotCleared
  | blacklistWitnessDepth
  | labelBlacklisted
  | documentBlacklisted
  | smt (e : SmtError)
  deriving DecidableEq

inductive ImtError
  | leafCannotBeZero
  | leafAlreadyExists

structure LeanIMT where
  size : ℕ
  depth : ℕ
  sideNodes : ℕ → Fr
  leaves : Fr → ℕ

def LeanIMT.empty : LeanIMT := ⟨0, 0, fun _ => 0, fun _ => 0⟩

def LeanIMT.root (t : LeanIMT) : Fr := t.sideNodes t.depth

def LeanIMT.nextDepth (t : LeanIMT) : ℕ := if 2 ^ t.depth < t.size + 1 then t.depth + 1 else t.depth

variable (hash : List Fr → Fr)

def insertLoop (index : ℕ) : ℕ → ℕ → Fr → (ℕ → Fr) → Fr × (ℕ → Fr)
  | 0, _, node, sideNodes => (node, sideNodes)
  | levels + 1, level, node, sideNodes =>
    if index.testBit level then insertLoop index levels (level + 1) (hash [sideNodes level, node]) sideNodes
    else insertLoop index levels (level + 1) node (update sideNodes level node)

def LeanIMT.insert (t : LeanIMT) (leaf : Fr) : Except ImtError LeanIMT := do
  require .leafCannotBeZero (leaf ≠ 0)
  require .leafAlreadyExists (t.leaves leaf = 0)
  let (node, sideNodes) := insertLoop hash t.size t.nextDepth 0 leaf t.sideNodes
  .ok { size := t.size + 1
        depth := t.nextDepth
        sideNodes := update sideNodes t.nextDepth node
        leaves := update t.leaves leaf (t.size + 1) }

def Note.precommitment (n : Note) : Fr := hash [n.nullifier, n.secret]

def Note.commitment (n : Note) : Fr := hash [n.value, n.label, n.precommitment hash]

def fitsBits (x : Fr) (bits : ℕ) : Bool := x.val < 2 ^ bits

def inclusionLoop (leafIndex : Fr) : ℕ → Fr → List Fr → Fr
  | _, node, [] => node
  | i, node, sibling :: siblings =>
    inclusionLoop leafIndex (i + 1)
      (if sibling = 0 then node else if keyBit leafIndex i then hash [sibling, node] else hash [node, sibling]) siblings

def inclusion (leaf leafIndex : Fr) (siblings : List Fr) (actualDepth : ℕ) : Except WithdrawError Fr := do
  require .depthExceedsSiblings (actualDepth ≤ siblings.length)
  .ok (inclusionLoop hash leafIndex 0 leaf siblings)

def excluded (root key : Fr) (w : Witness) : Except WithdrawError Bool := do
  require .blacklistWitnessDepth (w.siblings.length = 32)
  (verifyFull hash root key { w with value := 0 } true).mapError .smt

def verifyWithdrawal (s : WithdrawSignals) (w : WithdrawWitness) : Except WithdrawError Unit := do
  require .nullifierHash (hash [w.note.nullifier] = s.existingNullifierHash)
  let depth := s.stateTreeDepth.val % 2 ^ 64
  require .stateTreeDepth (fitsBits s.stateTreeDepth 8 ∧ depth ≤ 32 ∧ w.stateSiblings.length = 32)
  let stateRoot ← inclusion hash (w.note.commitment hash) w.stateLeafIndex w.stateSiblings depth
  require .notInStateTree (stateRoot = s.stateRoot)
  require .valueExceeds (fitsBits w.note.value 128 ∧ fitsBits s.withdrawnValue 128)
  let newValue := w.note.value - s.withdrawnValue
  require .withdrawnMore (fitsBits newValue 128)
  let out : Note := ⟨newValue, w.note.label, w.outNullifier, w.outSecret⟩
  require .changeCommitment (out.commitment hash = s.newCommitment)
  require .identityWitnessDepth (w.identitySiblings.length = 32)
  let cleared ← (verifyFull hash s.identityRoot (hash [w.revocationSecret, w.documentId])
    ⟨0, 0, 0, false, w.identitySiblings⟩ false).mapError .smt
  require .identityNotCleared cleared
  let label ← excluded hash s.blacklistRoot (hash [1, w.note.label]) w.labelExclusion
  require .labelBlacklisted label
  let document ← excluded hash s.blacklistRoot (hash [3, w.documentId]) w.documentExclusion
  require .documentBlacklisted document

def insertInputs (index : ℕ) : ℕ → ℕ → Fr → (ℕ → Fr) → List (List Fr)
  | 0, _, _, _ => []
  | levels + 1, level, node, sideNodes =>
    if index.testBit level then
      [sideNodes level, node] :: insertInputs index levels (level + 1) (hash [sideNodes level, node]) sideNodes
    else insertInputs index levels (level + 1) node (update sideNodes level node)

def builtInputs (t : LeanIMT) : List Fr → List (List Fr)
  | [] => []
  | leaf :: rest => insertInputs hash t.size t.nextDepth 0 leaf t.sideNodes ++
      match t.insert hash leaf with
      | .ok t' => builtInputs t' rest
      | .error _ => []

def inclusionInputs (leafIndex : Fr) : ℕ → Fr → List Fr → List (List Fr)
  | _, _, [] => []
  | i, node, sibling :: siblings =>
    let pair := if keyBit leafIndex i then [sibling, node] else [node, sibling]
    if sibling = 0 then inclusionInputs leafIndex (i + 1) node siblings
    else pair :: inclusionInputs leafIndex (i + 1) (hash pair) siblings

def Note.inputs (n : Note) : List (List Fr) := [[n.nullifier, n.secret], [n.value, n.label, n.precommitment hash]]

def WithdrawWitness.hashed (w : WithdrawWitness) (notes : List Note) : List (List Fr) :=
  notes.flatMap (Note.inputs hash) ++ builtInputs hash .empty (notes.map (Note.commitment hash)) ++
    (w.note.inputs hash ++ inclusionInputs hash w.stateLeafIndex 0 (w.note.commitment hash) w.stateSiblings)

section Tree

variable {hash} {leaves : Fr → Prop} {inputs : List (List Fr)}

abbrev InTree (hash : List Fr → Fr) (leaves : Fr → Prop) (inputs : List (List Fr)) : Fr → Prop :=
  Spans (node hash) leaves fun x => [x.1, x.2] ∈ inputs

structure Grown (hash : List Fr → Fr) (leaves : Fr → Prop) (inputs : List (List Fr)) (t : LeanIMT) : Prop where
  size_le : t.size ≤ 2 ^ t.depth
  side : ∀ j ≤ t.depth, InTree hash leaves inputs (t.sideNodes j)

theorem insertLoop_inTree {index levels level x sideNodes}
    (hinputs : insertInputs hash index levels level x sideNodes ⊆ inputs) (hx : InTree hash leaves inputs x)
    (hside : ∀ j, index.testBit j = true ∨ j < level → InTree hash leaves inputs (sideNodes j)) :
    InTree hash leaves inputs (insertLoop hash index levels level x sideNodes).1 ∧
      ∀ j < level + levels, InTree hash leaves inputs ((insertLoop hash index levels level x sideNodes).2 j) := by
  induction levels generalizing level x sideNodes with
  | zero => exact ⟨hx, fun j hj => hside j (.inr hj)⟩
  | succ levels ih =>
    rw [insertInputs] at hinputs
    rw [insertLoop, show level + (levels + 1) = level + 1 + levels by omega]
    split_ifs at hinputs ⊢ with hbit
    · obtain ⟨hpair, hrest⟩ := List.cons_subset.mp hinputs
      apply ih hrest (.node (x := (sideNodes level, x)) (hside level (.inl hbit)) hx hpair)
      rintro j (hj | hj)
      · exact hside j (.inl hj)
      · rcases Nat.lt_succ_iff_lt_or_eq.mp hj with hlt | rfl
        · exact hside j (.inr hlt)
        · exact hside j (.inl hbit)
    · apply ih hinputs hx
      intro j hj
      by_cases heq : j = level
      · rw [heq, update_self]
        exact hx
      · rw [update_of_ne heq]
        exact hside j (hj.imp_right (by omega))

theorem Grown.insert {t t' leaf} (h : Grown hash leaves inputs t) (hleaf : leaves leaf)
    (hinputs : insertInputs hash t.size t.nextDepth 0 leaf t.sideNodes ⊆ inputs)
    (hins : t.insert hash leaf = .ok t') : Grown hash leaves inputs t' := by
  obtain ⟨-, -, hins⟩ := of_require₂ hins
  have hside (j : ℕ) (hj : t.size.testBit j = true ∨ j < 0) : InTree hash leaves inputs (t.sideNodes j) := by
    have hbit : t.size.testBit j = true := hj.resolve_right (by omega)
    apply h.side j
    exact (Nat.pow_le_pow_iff_right (by omega)).mp ((Nat.ge_two_pow_of_testBit hbit).trans h.size_le)
  obtain ⟨hnode, hsides⟩ := insertLoop_inTree hinputs (.leaf hleaf) hside
  cases hins
  constructor
  · have hsize := h.size_le
    have hpos := Nat.two_pow_pos t.depth
    simp only [LeanIMT.nextDepth]
    split_ifs with hdeep
    · rw [pow_succ]
      omega
    · omega
  · intro j hj
    dsimp only at hj ⊢
    by_cases heq : j = t.nextDepth
    · rw [heq, update_self]
      exact hnode
    · rw [update_of_ne heq]
      exact hsides j (by omega)

theorem Grown.insertAll {t t' ls} (h : Grown hash leaves inputs t) (hls : ∀ l ∈ ls, leaves l)
    (hinputs : builtInputs hash t ls ⊆ inputs) (hrun : runAll (LeanIMT.insert hash) t ls = .ok t') :
    Grown hash leaves inputs t' := by
  induction ls generalizing t with
  | nil =>
    cases hrun
    exact h
  | cons l ls ih =>
    obtain ⟨u, hu, hrun⟩ := of_bind hrun
    rw [builtInputs, hu] at hinputs
    obtain ⟨hfirst, hrest⟩ := List.append_subset.mp hinputs
    obtain ⟨hl, hls⟩ := List.forall_mem_cons.mp hls
    exact ih (h.insert hl hfirst hu) hls hrest hrun

theorem inTree_of_inclusionLoop {leafIndex x i siblings}
    (hleaf : ∀ y ∈ inclusionInputs hash leafIndex i x siblings, ¬ leaves (hash y))
    (hfree : ∀ y ∈ inclusionInputs hash leafIndex i x siblings, ∀ z ∈ inputs, hash y = hash z → y = z)
    (h : InTree hash leaves inputs (inclusionLoop hash leafIndex i x siblings)) : InTree hash leaves inputs x := by
  induction siblings generalizing i x with
  | nil => exact h
  | cons sibling siblings ih =>
    simp only [inclusionInputs, inclusionLoop] at hleaf hfree h
    split_ifs at hleaf hfree h with hzero hright
    · exact ih hleaf hfree h
    · rw [List.forall_mem_cons] at hleaf hfree
      have hnode : InTree hash leaves inputs (node hash (sibling, x)) := ih hleaf.2 hfree.2 h
      apply (hnode.of_node hleaf.1 _).2
      intro y hy heq
      simpa [Prod.ext_iff] using hfree.1 _ hy heq
    · rw [List.forall_mem_cons] at hleaf hfree
      have hnode : InTree hash leaves inputs (node hash (x, sibling)) := ih hleaf.2 hfree.2 h
      apply (hnode.of_node hleaf.1 _).1
      intro y hy heq
      simpa [Prod.ext_iff] using hfree.1 _ hy heq

end Tree

theorem length_inclusionInputs {leafIndex x i siblings y}
    (hy : y ∈ inclusionInputs hash leafIndex i x siblings) : y.length = 2 := by
  induction siblings generalizing i x with
  | nil => simp [inclusionInputs] at hy
  | cons sibling siblings ih =>
    simp only [inclusionInputs] at hy
    split_ifs at hy
    · exact ih hy
    all_goals
      rcases List.mem_cons.mp hy with rfl | hy
      · rfl
      · exact ih hy

theorem val_sub_eq {x y : Fr} (hy : y.val < 2 ^ 128) (hsub : (x - y).val < 2 ^ 128) : (x - y).val + y.val = x.val := by
  have hlarge : 2 ^ 129 ≤ fieldOrder := by decide
  have hadd : (x - y + y).val = (x - y).val + y.val := ZMod.val_add_of_lt (by omega)
  rw [sub_add_cancel] at hadd
  exact hadd.symm

theorem commitment_injective {hash : List Fr → Fr} {inputs : List (List Fr)} (hfree : CollisionFree hash inputs)
    {n m : Note} (hn : n.inputs hash ⊆ inputs) (hm : m.inputs hash ⊆ inputs)
    (h : n.commitment hash = m.commitment hash) : n = m := by
  simp only [Note.inputs, List.cons_subset] at hn hm
  have houter := hfree.1 _ hn.2.1 _ hm.2.1 h
  simp only [List.cons.injEq] at houter
  have hinner := hfree.1 _ hn.1 _ hm.1 houter.2.2.1
  simp only [List.cons.injEq] at hinner
  cases n
  cases m
  simp_all

/-- Only the notes of the tree can be spent, and what is spent and what is left of it add up as integers. -/
theorem withdrawal_sound (notes : List Note) (t : LeanIMT) (s : WithdrawSignals) (w : WithdrawWitness)
    (hbuilt : runAll (LeanIMT.insert hash) .empty (notes.map (Note.commitment hash)) = .ok t)
    (hroot : s.stateRoot = t.root) (hfree : CollisionFree hash (w.hashed hash notes))
    (h : verifyWithdrawal hash s w = .ok ()) : w.note ∈ notes ∧ hash [w.note.nullifier] = s.existingNullifierHash ∧
      ∃ change : Note, change.commitment hash = s.newCommitment ∧ change.label = w.note.label ∧
        change.value.val < 2 ^ 128 ∧ change.value.val + s.withdrawnValue.val = w.note.value.val := by
  obtain ⟨hnullifier, -, h⟩ := of_require₂ h
  obtain ⟨root, hwalk, h⟩ := of_bind h
  obtain ⟨-, hwalk⟩ := of_require hwalk
  cases hwalk
  obtain ⟨hstate, hfits, h⟩ := of_require₂ h
  obtain ⟨hleft, hchange, -⟩ := of_require₂ h
  simp only [fitsBits, decide_eq_true_eq] at hfits hleft
  refine ⟨?_, hnullifier, _, hchange, rfl, hleft, val_sub_eq hfits.2 hleft⟩
  -- the root of the empty tree is zero, which is no hash
  let leaves : Fr → Prop := fun c => c = 0 ∨ ∃ n ∈ notes, n.commitment hash = c
  have hnotes : ∀ n ∈ notes, n.inputs hash ⊆ w.hashed hash notes := by
    intro n hn x hx
    exact List.mem_append_left _ (List.mem_append_left _ (List.mem_flatMap.mpr ⟨n, hn, hx⟩))
  have hown : w.note.inputs hash ⊆ w.hashed hash notes := by
    intro x hx
    exact List.mem_append_right _ (List.mem_append_left _ hx)
  have hpath : ∀ y ∈ inclusionInputs hash w.stateLeafIndex 0 (w.note.commitment hash) w.stateSiblings,
      y ∈ w.hashed hash notes := by
    intro y hy
    exact List.mem_append_right _ (List.mem_append_right _ hy)
  have hthree {n : Note} (hn : n.inputs hash ⊆ w.hashed hash notes) :
      [n.value, n.label, n.precommitment hash] ∈ w.hashed hash notes := hn (by simp [Note.inputs])
  have hgrown : Grown hash leaves (w.hashed hash notes) t := by
    apply Grown.insertAll (t := .empty) ⟨Nat.zero_le _, fun j _ => .leaf (.inl rfl)⟩ _ _ hbuilt
    · simp only [List.forall_mem_map]
      exact fun n hn => .inr ⟨n, hn, rfl⟩
    · intro x hx
      exact List.mem_append_left _ (List.mem_append_right _ hx)
  have hspent : InTree hash leaves (w.hashed hash notes) (w.note.commitment hash) := by
    apply inTree_of_inclusionLoop (i := 0) _ (fun y hy z hz => hfree.1 y (hpath y hy) z hz)
    · rw [hstate, hroot]
      exact hgrown.side _ le_rfl
    · rintro y hy (hzero | ⟨n, hn, heq⟩)
      · exact hfree.2 y (hpath y hy) hzero
      · have hlist := hfree.1 _ (hthree (hnotes n hn)) y (hpath y hy) heq
        simpa [← hlist] using length_inclusionInputs hash hy
  have hleaf : leaves (w.note.commitment hash) := by
    apply hspent.leaf_of_ne
    intro y hy heq
    simpa using hfree.1 _ hy _ (hthree hown) heq
  rcases hleaf with hzero | ⟨n, hn, heq⟩
  · exact absurd hzero (hfree.2 _ (hthree hown))
  · rwa [← commitment_injective hfree (hnotes n hn) hown heq]

def sampleNote (value : Fr) : Note := ⟨value, 5, value + 11, value + 12⟩

def unlisted : Witness := ⟨0, 0, 0, true, List.replicate 32 0⟩

def sampleWitness : WithdrawWitness :=
  ⟨sampleNote 900, 1, (sampleNote 100).commitment sampleHash :: List.replicate 31 0, 21, 23, 31, List.replicate 32 0, 32,
    unlisted, unlisted⟩

def sampleSignals : WithdrawSignals where
  newCommitment := Note.commitment sampleHash ⟨600, 5, 21, 23⟩
  existingNullifierHash := sampleHash [911]
  withdrawnValue := 300
  stateRoot := sampleHash [(sampleNote 100).commitment sampleHash, (sampleNote 900).commitment sampleHash]
  stateTreeDepth := 1
  identityRoot := sampleHash [sampleHash [31, 32], 0, 1]
  blacklistRoot := 0

theorem withdrawal_sound_sample : verifyWithdrawal sampleHash sampleSignals sampleWitness = .ok () ∧
    sampleWitness.note ∈ [sampleNote 100, sampleNote 900] ∧
      ∃ change : Note, change.commitment sampleHash = sampleSignals.newCommitment ∧ change.value.val + 300 = 900 := by
  have hverify : verifyWithdrawal sampleHash sampleSignals sampleWitness = .ok () := by decide +kernel
  obtain ⟨t, hbuilt, hroot⟩ : ∃ t, runAll (LeanIMT.insert sampleHash) .empty ([sampleNote 100, sampleNote 900].map
      (Note.commitment sampleHash)) = .ok t ∧ sampleSignals.stateRoot = t.root := by
    decide +kernel
  obtain ⟨hmem, -, change, hchange, -, -, hvalue⟩ := withdrawal_sound sampleHash _ t sampleSignals sampleWitness hbuilt
    hroot (by decide +kernel) hverify
  exact ⟨hverify, hmem, change, hchange, hvalue⟩

end QuidProtocol.Pool
