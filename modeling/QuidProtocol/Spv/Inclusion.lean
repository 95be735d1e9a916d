import QuidProtocol.Btc.TxParser
import QuidProtocol.Hop.Merkle
import QuidProtocol.Spv.Gateway

/-!
`checkTxInclusion` of the gateway, with `TxMerkleProof.sol`, against the branches that the hop makes.
-/

namespace QuidProtocol.Spv

open Lib Btc Hop

inductive InclusionError
  | gateway (e : GatewayError)
  | parse (e : ParseError)
  | invalidMerkleNode

def packed (pair : Bytes32 × Bytes32) : Bytes := toBytesBE 32 pair.1.toNat ++ toBytesBE 32 pair.2.toNat

variable (sha256d : Bytes → Bytes32)

def processProof : List Bytes32 → Bytes32 → ℕ → Except InclusionError Bytes32
  | [], computedHash, _ => .ok computedHash
  | sibling :: proof, computedHash, txIndex => do
    let pair := packed (if txIndex &&& 1 = 0 then (computedHash, sibling) else (sibling, computedHash))
    let isTx ← (isTransaction pair).mapError .parse
    require .invalidMerkleNode (isTx = false)
    processProof proof (sha256d pair) (txIndex >>> 1)

variable (s : Storage) (proof : List Bytes32) (blockHash txId : Bytes32) (txIndex minConfirmations : ℕ)

def Storage.leRoot : Bytes32 := bytes32LEtoBE (s.blocksData blockHash).merkleRoot

def Storage.checkTxInclusion : Except InclusionError Bool := do
  let (isInMainchain, confirmations) ← (s.getBlockStatus blockHash).mapError .gateway
  if !isInMainchain ∨ confirmations < minConfirmations ∨ proof = [] then .ok false
  else
    let root ← processProof sha256d proof txId txIndex
    .ok (root = s.leRoot blockHash)

/-- No node hashed on the way up reads as a transaction. -/
def nodesOnly : Bool := (foldInputs sha256d txId proof txIndex).all fun pair => isTransaction (packed pair) = .ok false

variable {sha256d s proof blockHash txId txIndex minConfirmations}

theorem processProof_eq_ok {root} : processProof sha256d proof txId txIndex = .ok root ↔
    foldBranch sha256d txId proof txIndex = root ∧ nodesOnly sha256d proof txId txIndex = true := by
  induction proof generalizing txId txIndex with
  | nil => simp [processProof, foldBranch, nodesOnly, foldInputs]
  | cons sibling proof ih =>
    have hnode (a b : Bytes32) : sha256d (packed (a, b)) = hashPair sha256d a b := rfl
    simp only [nodesOnly] at ih
    simp only [processProof, foldBranch, nodesOnly, foldInputs, List.all_cons, Bool.and_eq_true, decide_eq_true_eq,
      bind_eq_ok, mapError_eq_ok, require_eq_ok, ih]
    split_ifs
    · simp only [hnode]
      aesop
    · simp only [hnode]
      aesop

theorem checkTxInclusion_eq_ok : s.checkTxInclusion sha256d proof blockHash txId txIndex minConfirmations = .ok true ↔
    s.isInMainchain blockHash = true ∧ s.getBlockHeight blockHash + minConfirmations ≤ s.getMainchainHeight ∧
      proof ≠ [] ∧ foldBranch sha256d txId proof txIndex = s.leRoot blockHash ∧
      nodesOnly sha256d proof txId txIndex = true := by
  unfold Storage.checkTxInclusion Storage.getBlockStatus
  by_cases hmain : s.isInMainchain blockHash = true
  · simp only [hmain, Bool.not_true, Bool.false_eq_true, if_false, bind_eq_ok, mapError_eq_ok, checkedSub_eq_ok]
    constructor
    · rintro ⟨_, ⟨_, ⟨hle, rfl⟩, hstatus⟩, h⟩
      cases hstatus
      split_ifs at h with hfails
      · cases h
      · obtain ⟨root, hroot, h⟩ := of_bind h
        obtain ⟨hfold, hnodes⟩ := processProof_eq_ok.mp hroot
        simp only [Bool.not_true, Bool.false_eq_true, false_or, not_or] at hfails
        exact ⟨trivial, by omega, hfails.2, by simpa [hfold] using h, hnodes⟩
    · rintro ⟨-, hle, hproof, hfold, hnodes⟩
      have hpasses : ¬ (s.getMainchainHeight - s.getBlockHeight blockHash < minConfirmations ∨ proof = []) :=
        not_or.mpr ⟨by omega, hproof⟩
      refine ⟨_, ⟨_, ⟨by omega, rfl⟩, rfl⟩, ?_⟩
      simp [hpasses, processProof_eq_ok.mpr ⟨hfold, hnodes⟩]
  · simp [hmain, Except.mapError]

theorem merkleBranch_eq {txids branch root} (hindex : txIndex < txids.length)
    (h : merkleBranch sha256d txids txIndex = some (branch, root)) : (branch ≠ [] ↔ 1 < txids.length) ∧
      MerkleRoot (hashPair sha256d) txids root ∧ foldBranch sha256d txids[txIndex] branch txIndex = root := by
  rw [merkleBranch, if_pos ⟨List.ne_nil_of_length_pos (by omega), hindex⟩] at h
  obtain ⟨branch', root', hloop, hroot, hfold⟩ := branchLoop_eq sha256d le_rfl (List.getElem?_eq_getElem hindex)
  obtain ⟨rfl, rfl⟩ := Prod.mk.inj (Option.mem_unique hloop h)
  refine ⟨?_, hroot, hfold⟩
  rw [← Nat.sub_add_cancel (Nat.one_le_of_lt hindex), branchLoop] at h
  split_ifs at h with hlen
  · refine iff_of_true ?_ hlen
    rintro rfl
    obtain ⟨_, -, h⟩ := Option.bind_eq_some_iff.mp h
    obtain ⟨_, -, h⟩ := Option.bind_eq_some_iff.mp h
    cases h
  · refine iff_of_false (not_not.mpr ?_) hlen
    obtain ⟨_, -, h⟩ := Option.map_eq_some_iff.mp h
    exact (Prod.mk.inj h).1.symm

/-- In a block that commits to `txids`, a proof of the depth of the tree is taken only for the txid at its index, and
only if it is the branch of the hop. None is taken in a block of one transaction. -/
theorem inclusion_proved_iff (s : Storage) (blockHash txId : Bytes32) (txids proof branch : List Bytes32) (root : Bytes32)
    (index minConfirmations : ℕ) (hindex : index < txids.length)
    (hroot : MerkleRoot (hashPair sha256d) txids (s.leRoot blockHash))
    (hbranch : merkleBranch sha256d txids index = some (branch, root)) (hlen : proof.length = branch.length)
    (hapart : PairsApart sha256d (foldInputs sha256d txId proof index) (foldInputs sha256d txids[index] branch index)) :
    s.checkTxInclusion sha256d proof blockHash txId index minConfirmations = .ok true ↔
      s.isInMainchain blockHash = true ∧ s.getBlockHeight blockHash + minConfirmations ≤ s.getMainchainHeight ∧
        1 < txids.length ∧ txId = txids[index] ∧ proof = branch ∧ nodesOnly sha256d proof txId index = true := by
  obtain ⟨hempty, hmerkle, hfold⟩ := merkleBranch_eq hindex hbranch
  obtain rfl := hmerkle.unique _ hroot
  have hsame : proof ≠ [] ↔ 1 < txids.length := by
    rw [← hempty, ← List.length_pos_iff, hlen, List.length_pos_iff]
  have hpins : foldBranch sha256d txId proof index = s.leRoot blockHash ↔ txId = txids[index] ∧ proof = branch := by
    rw [← hfold]
    refine ⟨foldBranch_pins sha256d hlen hapart, ?_⟩
    rintro ⟨rfl, rfl⟩
    rfl
  rw [checkTxInclusion_eq_ok, hsame, hpins, and_assoc]

/-- One block on a main chain, with two transactions in it. -/
def pairStore : Storage := ⟨fun _ => ⟨⟨0, bytes32LEtoBE (hashPair sampleDigest 1 2), 0, 1, 0, 0⟩, 0, 0⟩, fun _ => 7, 7⟩

theorem inclusion_proved_pair : pairStore.checkTxInclusion sampleDigest [1] 7 2 1 0 = .ok true := by
  have hroot : pairStore.leRoot 7 = hashPair sampleDigest 1 2 := by decide +kernel
  refine (inclusion_proved_iff pairStore 7 2 [1, 2] [1] [1] (hashPair sampleDigest 1 2) 1 0 (by decide) ?_
    (by decide +kernel) rfl (by decide +kernel)).mpr (by decide +kernel)
  rw [hroot]
  exact .layer (by decide) (.single _)

end QuidProtocol.Spv
