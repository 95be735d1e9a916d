import Mathlib.Data.Nat.Bitwise
import QuidProtocol.Spv.Header

/-!
`spv.rs` of the hop: Merkle branches, and the fold that checks them.
-/

namespace QuidProtocol.Hop

open Lib
open Spv (Bytes32)

section Root

variable {α : Type} (node : α → α → α)

def pairs : List α → List α
  | [] => []
  | [a] => [node a a]
  | a :: b :: rest => node a b :: pairs rest

/-- The Merkle root of Bitcoin, whose odd layers have their last node twice. -/
inductive MerkleRoot : List α → α → Prop
  | single (a : α) : MerkleRoot [a] a
  | layer {layer root : _} : 1 < layer.length → MerkleRoot (pairs node layer) root → MerkleRoot layer root

theorem MerkleRoot.unique {layer root root'} (h : MerkleRoot node layer root)
    (h' : MerkleRoot node layer root') : root = root' := by
  induction h with
  | single =>
    cases h' with
    | single => rfl
    | layer hlen => simp at hlen
  | layer hlen _ ih =>
    cases h' with
    | single => simp at hlen
    | layer _ hroot => exact ih hroot

end Root

variable (sha256d : Bytes → Bytes32)

def hashPair (a b : Bytes32) : Bytes32 := sha256d (toBytesBE 32 a.toNat ++ toBytesBE 32 b.toNat)

def duplicated (layer : List Bytes32) : List Bytes32 :=
  if layer.length % 2 = 1 then layer ++ layer.getLast?.toList else layer

def nextLayer : List Bytes32 → List Bytes32
  | a :: b :: rest => hashPair sha256d a b :: nextLayer rest
  | _ => []

def branchLoop : ℕ → List Bytes32 → ℕ → Option (List Bytes32 × Bytes32)
  | 0, _, _ => none
  | fuel + 1, layer, idx =>
    if 1 < layer.length then do
      let sibling ← (duplicated layer)[idx ^^^ 1]?
      let (branch, root) ← branchLoop fuel (nextLayer sha256d (duplicated layer)) (idx / 2)
      some (sibling :: branch, root)
    else layer[0]?.map fun root => ([], root)

def merkleBranch (txids : List Bytes32) (index : ℕ) : Option (List Bytes32 × Bytes32) :=
  if txids ≠ [] ∧ index < txids.length then branchLoop sha256d txids.length txids index else none

def foldBranch (h : Bytes32) : List Bytes32 → ℕ → Bytes32
  | [], _ => h
  | sib :: branch, idx =>
    foldBranch (if idx &&& 1 = 0 then hashPair sha256d h sib else hashPair sha256d sib h) branch (idx >>> 1)

def verifyBranch (txid : Bytes32) (branch : List Bytes32) (index : ℕ) (root : Bytes32) : Bool :=
  foldBranch sha256d txid branch index = root

def foldInputs (h : Bytes32) : List Bytes32 → ℕ → List (Bytes32 × Bytes32)
  | [], _ => []
  | sib :: branch, idx =>
    let pair := if idx &&& 1 = 0 then (h, sib) else (sib, h)
    pair :: foldInputs (hashPair sha256d pair.1 pair.2) branch (idx >>> 1)

def PairsApart (inputs inputs' : List (Bytes32 × Bytes32)) : Prop :=
  ∀ x ∈ inputs, ∀ y ∈ inputs', hashPair sha256d x.1 x.2 = hashPair sha256d y.1 y.2 → x = y

instance decidablePairsApart (inputs inputs' : List (Bytes32 × Bytes32)) :
    Decidable (PairsApart sha256d inputs inputs') :=
  @List.decidableBAll _ _ (fun _ => @List.decidableBAll _ _ (fun _ => inferInstance) inputs') inputs

theorem duplicated_cons_cons (a b : Bytes32) (rest : List Bytes32) :
    duplicated (a :: b :: rest) = a :: b :: duplicated rest := by
  have hparity : (a :: b :: rest).length % 2 = rest.length % 2 := by
    simp only [List.length_cons]
    omega
  unfold duplicated
  rw [hparity]
  split_ifs with hodd
  · cases rest with
    | nil => simp at hodd
    | cons => simp
  · rfl

theorem nextLayer_duplicated (layer : List Bytes32) :
    nextLayer sha256d (duplicated layer) = pairs (hashPair sha256d) layer := by
  induction layer using pairs.induct with
  | case1 | case2 a => rfl
  | case3 a b rest ih => rw [duplicated_cons_cons, nextLayer, pairs, ih]

theorem length_pairs {α : Type} (node : α → α → α) (layer : List α) :
    (pairs node layer).length = (layer.length + 1) / 2 := by
  induction layer using pairs.induct with
  | case1 | case2 a => simp [pairs]
  | case3 a b rest ih =>
    simp only [pairs, List.length_cons, ih]
    omega

theorem xor_one_add_two (n : ℕ) : (n + 2) ^^^ 1 = (n ^^^ 1) + 2 := by
  rcases Nat.even_or_odd n with h | h
  · rw [Nat.xor_one_of_even h, Nat.xor_one_of_even (h.add even_two)]
  · rw [Nat.xor_one_of_odd h, Nat.xor_one_of_odd (h.add_even even_two)]
    have := h.pos
    omega

theorem pairs_node {layer idx x} (hx : layer[idx]? = some x) :
    ∃ sibling, (duplicated layer)[idx ^^^ 1]? = some sibling ∧ (pairs (hashPair sha256d) layer)[idx / 2]? =
      some (if idx &&& 1 = 0 then hashPair sha256d x sibling else hashPair sha256d sibling x) := by
  simp only [Nat.and_one_is_mod]
  induction layer using pairs.induct generalizing idx with
  | case1 => simp at hx
  | case2 a =>
    cases idx with
    | zero => simp_all [duplicated, pairs]
    | succ => simp at hx
  | case3 a b rest ih =>
    rw [duplicated_cons_cons, pairs]
    rcases idx with _ | _ | n
    · simp_all
    · simp_all
    · have hhalf : (n + 2) / 2 = n / 2 + 1 := by omega
      have hparity : (n + 2) % 2 = n % 2 := by omega
      rw [xor_one_add_two, hhalf, hparity, List.getElem?_cons_succ, List.getElem?_cons_succ, List.getElem?_cons_succ]
      exact ih hx

theorem branchLoop_eq {fuel layer idx x} (hfuel : layer.length ≤ fuel)
    (hx : layer[idx]? = some x) : ∃ branch root, branchLoop sha256d fuel layer idx = some (branch, root) ∧
      MerkleRoot (hashPair sha256d) layer root ∧ foldBranch sha256d x branch idx = root := by
  induction fuel generalizing layer idx x with
  | zero => simp_all
  | succ fuel ih =>
    rw [branchLoop]
    split_ifs with hlen
    · obtain ⟨sibling, hsibling, hnode⟩ := pairs_node sha256d hx
      have hshorter : (pairs (hashPair sha256d) layer).length ≤ fuel := by
        rw [length_pairs]
        omega
      obtain ⟨branch, root, hloop, hroot, hfold⟩ := ih hshorter hnode
      refine ⟨sibling :: branch, root, ?_, .layer hlen hroot, ?_⟩
      · simp [nextLayer_duplicated, hsibling, hloop]
      · rw [foldBranch, Nat.shiftRight_one]
        exact hfold
    · have hidx : idx < layer.length := (List.getElem?_eq_some_iff.mp hx).1
      obtain ⟨a, rfl⟩ := List.length_eq_one_iff.mp (show layer.length = 1 by omega)
      obtain rfl : idx = 0 := by simpa using hidx
      cases hx
      exact ⟨[], x, rfl, .single x, rfl⟩

/-- Whoever chose the siblings: a fold that ends in the same root has folded the same nodes. -/
theorem foldBranch_pins {proof branch idx t x} (hlen : proof.length = branch.length)
    (hapart : PairsApart sha256d (foldInputs sha256d t proof idx) (foldInputs sha256d x branch idx))
    (h : foldBranch sha256d t proof idx = foldBranch sha256d x branch idx) : t = x ∧ proof = branch := by
  induction proof generalizing branch idx t x with
  | nil =>
    obtain rfl := List.eq_nil_of_length_eq_zero hlen.symm
    exact ⟨h, rfl⟩
  | cons sib proof ih =>
    obtain _ | ⟨sib', branch⟩ := branch
    · simp at hlen
    · simp only [foldInputs, PairsApart, List.forall_mem_cons] at hapart
      obtain ⟨⟨hhead, -⟩, hrest⟩ := hapart
      simp only [foldBranch] at h
      split_ifs at hhead hrest h
      all_goals
        obtain ⟨heq, rfl⟩ := ih (by simpa using hlen) (fun y hy => (hrest y hy).2) h
        obtain ⟨rfl, rfl⟩ := Prod.mk.inj (hhead heq)
        exact ⟨rfl, rfl⟩

theorem foldBranch_injective {branch idx t x}
    (hapart : PairsApart sha256d (foldInputs sha256d t branch idx) (foldInputs sha256d x branch idx))
    (h : foldBranch sha256d t branch idx = foldBranch sha256d x branch idx) : t = x :=
  (foldBranch_pins sha256d rfl hapart h).1

theorem merkle_proofs (txids : List Bytes32) (index : ℕ) (hindex : index < txids.length) :
    ∃ branch root, merkleBranch sha256d txids index = some (branch, root) ∧ MerkleRoot (hashPair sha256d) txids root ∧
      (∀ index' < txids.length, ∃ branch', merkleBranch sha256d txids index' = some (branch', root)) ∧
      verifyBranch sha256d txids[index] branch index root = true ∧
      ∀ t, PairsApart sha256d (foldInputs sha256d t branch index) (foldInputs sha256d txids[index] branch index) →
        verifyBranch sha256d t branch index root = true → t = txids[index] := by
  have hreturns (i : ℕ) (hi : i < txids.length) := branchLoop_eq sha256d le_rfl (List.getElem?_eq_getElem hi)
  have hbranch (i : ℕ) (hi : i < txids.length) :
      merkleBranch sha256d txids i = branchLoop sha256d txids.length txids i :=
    if_pos ⟨List.ne_nil_of_length_pos (by omega), hi⟩
  obtain ⟨branch, root, hloop, hroot, hfold⟩ := hreturns index hindex
  refine ⟨branch, root, (hbranch index hindex).trans hloop, hroot, ?_, decide_eq_true hfold, ?_⟩
  · intro i hi
    obtain ⟨branch', root', hloop', hroot', -⟩ := hreturns i hi
    rw [hbranch i hi, hloop', hroot'.unique _ hroot]
    exact ⟨branch', rfl⟩
  · intro t hapart ht
    exact foldBranch_injective sha256d hapart ((of_decide_eq_true ht).trans hfold.symm)

def sampleDigest (bs : Bytes) : Bytes32 := BitVec.ofNat 256 (ofBytesBE bs % (2 ^ 255 - 19))

theorem merkle_proofs_five : ∃ branch root,
    merkleBranch sampleDigest [1, 2, 3, 4, 5] 4 = some (branch, root) ∧ branch.length = 3 ∧
      verifyBranch sampleDigest 5 branch 4 root = true ∧
      (∀ index' < 5, ∃ branch', merkleBranch sampleDigest [1, 2, 3, 4, 5] index' = some (branch', root)) ∧
      verifyBranch sampleDigest 6 branch 4 root = false := by
  obtain ⟨branch, root, hloop, -, hsame, hverify, hinjective⟩ :=
    merkle_proofs sampleDigest [1, 2, 3, 4, 5] 4 (by decide)
  have hbranch : (merkleBranch sampleDigest [1, 2, 3, 4, 5] 4).any (fun r => r.1.length = 3 ∧
      PairsApart sampleDigest (foldInputs sampleDigest 6 r.1 4) (foldInputs sampleDigest 5 r.1 4)) = true := by
    decide +kernel
  rw [hloop, Option.any_some, decide_eq_true_eq] at hbranch
  refine ⟨branch, root, hloop, hbranch.1, hverify, hsame, ?_⟩
  rw [← Bool.not_eq_true]
  intro ht
  exact absurd (hinjective 6 hbranch.2 ht) (by decide)

end QuidProtocol.Hop
