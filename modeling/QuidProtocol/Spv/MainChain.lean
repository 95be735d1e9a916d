import QuidProtocol.Lib.RootedTree
import QuidProtocol.Spv.BlockTree

/-!
The height index is the branch of the head while no reorganisation makes the chain shorter.
The retarget reads the ends of an epoch through the height index.
-/

namespace QuidProtocol.Spv

open Lib Function

namespace Storage

variable (s : Storage)

def prevBlockHash (b : Bytes32) : Bytes32 := (s.blocksData b).prevBlockHash

def branch (checkpoint tip : Bytes32) : ℕ → Bytes32 := Lib.branch s.prevBlockHash s.getBlockHeight checkpoint tip

def ShorterReorg (header : HeaderData) : Prop :=
  header.prevBlockHash ≠ s.mainchainHead ∧ s.getBlockCumulativeWork s.mainchainHead < s.nextWork header ∧
    s.nextHeight header < s.getMainchainHeight

end Storage

variable {sha256 : Bytes → Bytes32} {root raw : Bytes} {log : List Bytes} {s s' : Storage}

def TreeInv.tree (inv : TreeInv sha256 root log s) : RootedTree Bytes32 where
  nodes := {b | b ∈ hashes sha256 log}
  root := hashOf sha256 root
  parent := s.prevBlockHash
  height := s.getBlockHeight
  root_mem := hash_mem inv.root_mem
  parent_mem := by
    intro b hb hne
    obtain ⟨r, hr, hroot, rfl, hheader⟩ := inv.exists_raw hb hne
    rw [Storage.prevBlockHash, hheader]
    exact inv.parent_mem r hr hroot
  height_eq := by
    intro b hb hne
    obtain ⟨r, hr, hroot, rfl, hheader⟩ := inv.exists_raw hb hne
    rw [Storage.prevBlockHash, hheader]
    exact inv.height_eq r hr hroot

theorem Grows.extends (g : Grows sha256 root log s raw s') (inv : TreeInv sha256 root log s)
    (hraw : raw ∉ log) : inv.tree.Extends (inv.grow g).tree where
  subset := fun b hb => TreeInv.mem_hashes_append.mpr (Or.inl hb)
  root_eq := rfl
  parent_eq := by
    intro b hb
    simp only [TreeInv.tree, Storage.prevBlockHash, g.data_of_mem hraw hb]
  height_eq := by
    intro b hb
    simp only [TreeInv.tree, Storage.getBlockHeight, g.data_of_mem hraw hb]

theorem rewriteHeights_eq_branch (t : RootedTree Bytes32) {data}
    (hparent : ∀ b, (data b).prevBlockHash = t.parent b) (hzero : 0 ∉ t.nodes)
    {tip} (htip : tip ∈ t.nodes) {gas index index' b} (hb : b ∈ t.nodes) (hne : b ≠ t.root) (hlt : t.height b < 2 ^ 64)
    (hindex : ∀ k < t.height b, index k = t.branch tip k)
    (h : Storage.rewriteHeights data gas index b (t.height b) = .ok index') (k : ℕ) :
    index' k = if k ≤ t.height b then t.branch b k else index k := by
  induction gas generalizing index b with
  | zero => cases h
  | succ gas ih =>
    have hmem := t.parent_mem b hb hne
    have hheight := t.height_eq b hb hne
    have hbelow : (t.height b + (2 ^ 64 - 1)) % 2 ^ 64 = t.height (t.parent b) := by omega
    have hentry : update index (t.height b) b (t.height (t.parent b)) = t.branch tip (t.height (t.parent b)) := by
      rw [update_of_ne (by omega), hindex _ (by omega)]
    have hchild := RootedTree.branch_child hb hne
    rw [Storage.rewriteHeights] at h
    simp only [hparent, hbelow, hentry] at h
    rw [hchild]
    split_ifs at h with hgo
    · have hne' : t.parent b ≠ t.root := by
        intro he
        apply hgo.1
        rw [he, RootedTree.branch_def, if_pos ⟨le_rfl, RootedTree.height_root_le htip⟩, RootedTree.ancestorAt_root htip]
      rw [ih hmem hne' (by omega) ?_ h]
      · by_cases hk : k = t.height b
        · subst hk
          rw [if_neg (by omega), update_self, if_pos le_rfl, update_self]
        · rw [update_of_ne hk, update_of_ne hk]
          split_ifs <;> first | rfl | omega
      · intro k hk
        rw [update_of_ne (by omega), hindex k (by omega)]
    · have hstop : t.branch tip (t.height (t.parent b)) = t.parent b := by
        by_contra hdiff
        exact hgo ⟨hdiff, fun he => hzero (he ▸ hmem)⟩
      have hanc := (RootedTree.branch_eq_iff hzero htip hmem).mp hstop
      obtain ⟨hle, hat⟩ := (RootedTree.isAncestor_iff htip hmem).mp hanc
      cases h
      by_cases hk : k = t.height b
      · subst hk
        rw [update_self, if_pos le_rfl, update_self]
      · rw [update_of_ne hk, update_of_ne hk]
        split_ifs with hkb
        · rw [hindex k (by omega), RootedTree.branch_def, RootedTree.branch_def]
          by_cases hroot : t.height t.root ≤ k
          · rw [if_pos ⟨hroot, by omega⟩, if_pos ⟨hroot, by omega⟩, ← hat]
            exact (RootedTree.ancestorAt_ancestorAt htip hroot (by omega) hle).symm
          · rw [if_neg (fun hin => hroot hin.1), if_neg (fun hin => hroot hin.1)]
        · rfl

structure MainInv (sha256 : Bytes → Bytes32) (root : Bytes) (log : List Bytes) (s : Storage) :
    Prop where
  index_eq : s.blocksHeightToBlockHash = s.branch (hashOf sha256 root) s.mainchainHead
  aligned : s.getBlockHeight (hashOf sha256 root) % difficultyAdjustmentInterval = 0
  work_le : ∀ b ∈ hashes sha256 log, b ≠ hashOf sha256 root → s.getBlockCumulativeWork (hashOf sha256 root) +
      countBlockWork (s.getBlockTarget (hashOf sha256 root)) ≤ s.getBlockCumulativeWork b

namespace MainInv

theorem not_adjustment_above {h} (hh : h % difficultyAdjustmentInterval = 0) :
    isTargetAdjustmentBlock (h + 1) = false := by
  have hmod : (h + 1) % difficultyAdjustmentInterval ≠ 0 := by
    unfold difficultyAdjustmentInterval at *
    omega
  simp [isTargetAdjustmentBlock, getEpochBlockNumber, hmod]

section

variable (m : MainInv sha256 root log s)

include m

theorem child_work (g : Grows sha256 root log s raw s') (hprev : (headerOf raw).prevBlockHash = hashOf sha256 root) :
    s.nextWork (headerOf raw) = s.getBlockCumulativeWork (hashOf sha256 root) +
      countBlockWork (s.getBlockTarget (hashOf sha256 root)) := by
  have htarget := g.accepts.target_eq
  rw [Storage.retargetIfEpochBoundary, Storage.nextHeight, hprev, not_adjustment_above m.aligned]
    at htarget
  rw [Storage.nextWork, hprev, Except.ok.inj htarget]

theorem parent_ne_root (inv : TreeInv sha256 root log s)
    (g : Grows sha256 root log s raw s') (hprev : (headerOf raw).prevBlockHash ≠ s.mainchainHead)
    (hheavier : s.getBlockCumulativeWork s.mainchainHead < s.nextWork (headerOf raw)) :
    (headerOf raw).prevBlockHash ≠ hashOf sha256 root := by
  intro he
  have hle := m.work_le _ inv.head_mem (fun hh => hprev (he.trans hh.symm))
  have hwork := m.child_work g he
  omega

theorem work_le_grow (inv : TreeInv sha256 root log s) (g : Grows sha256 root log s raw s') (hraw : raw ∉ log) :
    ∀ b ∈ hashes sha256 (log ++ [raw]), b ≠ hashOf sha256 root → s'.getBlockCumulativeWork (hashOf sha256 root) +
        countBlockWork (s'.getBlockTarget (hashOf sha256 root)) ≤ s'.getBlockCumulativeWork b := by
  intro b hb hne
  rw [Storage.getBlockTarget, Storage.getBlockCumulativeWork, Storage.getBlockCumulativeWork,
    g.data_of_mem hraw (hash_mem inv.root_mem)]
  rcases TreeInv.mem_hashes_append.mp hb with hb | rfl
  · rw [g.data_of_mem hraw hb]
    exact m.work_le b hb hne
  · rw [g.accepts.blocksData_self]
    by_cases hprev : (headerOf raw).prevBlockHash = hashOf sha256 root
    · exact (m.child_work g hprev).ge
    · exact (m.work_le _ g.parent_mem hprev).trans (Nat.le_add_right _ _)

theorem index_eq_grow (inv : TreeInv sha256 root log s)
    (g : Grows sha256 root log s raw s') (hraw : raw ∉ log) (hlong : ¬ s.ShorterReorg (headerOf raw)) :
    s'.blocksHeightToBlockHash = s'.branch (hashOf sha256 root) s'.mainchainHead := by
  let t := inv.tree
  let t' := (inv.grow g).tree
  have hext : t.Extends t' := g.extends inv hraw
  have hindex : s.blocksHeightToBlockHash = t'.branch s.mainchainHead := by
    rw [hext.branch_eq inv.head_mem]
    exact m.index_eq
  have hnew : hashOf sha256 raw ∈ t'.nodes := hash_mem (by simp)
  have hnew_ne : hashOf sha256 raw ≠ t'.root := by
    intro he
    exact g.hash_notMem hraw (he ▸ hash_mem inv.root_mem)
  have hparent : t'.parent (hashOf sha256 raw) = (headerOf raw).prevBlockHash := by
    change (s'.blocksData _).prevBlockHash = _
    rw [g.accepts.blocksData_self]
  have hheight : t'.height (hashOf sha256 raw) = s.nextHeight (headerOf raw) := by
    change (s'.blocksData _).blockHeight = _
    rw [g.accepts.blocksData_self]
  have hparent_height : t'.height (headerOf raw).prevBlockHash =
      s.getBlockHeight (headerOf raw).prevBlockHash := hext.height_eq _ g.parent_mem
  have hchild := RootedTree.branch_child hnew hnew_ne
  rw [hparent, hheight] at hchild
  have hne : s.mainchainHead ≠ hashOf sha256 raw := by
    intro he
    exact g.hash_notMem hraw (he ▸ inv.head_mem)
  rcases g.accepts.head_cases hne with ⟨hprev, hhead, hi⟩ | ⟨hprev, hheavier, hhead, hi⟩ |
    ⟨hprev, -, hhead, hi⟩ <;> rw [hhead]
  · rw [hi, hindex, ← hprev.resolve_right (inv.head_ne_of_grows g)]
    exact hchild.symm
  · -- the entries above the new head are empty, because the old head is not above it
    refine Eq.trans ?_ hchild.symm
    funext k
    rw [← hparent_height] at hi
    have hwalk := rewriteHeights_eq_branch t' (fun _ => rfl) g.sound.zero_notMem
      (hext.subset inv.head_mem) (hext.subset g.parent_mem) (m.parent_ne_root inv g hprev hheavier)
      (by rw [hparent_height]; exact Nat.lt_of_succ_lt g.accepts.height_lt) ?_ hi k
    · rw [hwalk, hparent_height]
      by_cases hk : k = s.nextHeight (headerOf raw)
      · rw [hk, if_neg (by simp [Storage.nextHeight]), update_self, update_self]
      · rw [update_of_ne hk, update_of_ne hk]
        split_ifs with hle
        · rfl
        · have htop : s.getBlockHeight s.mainchainHead ≤ s.nextHeight (headerOf raw) :=
            not_lt.mp fun hlt => hlong ⟨hprev, hheavier, hlt⟩
          have hhead_height : t'.height s.mainchainHead = s.getBlockHeight s.mainchainHead :=
            hext.height_eq _ inv.head_mem
          have hnext : s.nextHeight (headerOf raw) = s.getBlockHeight (headerOf raw).prevBlockHash + 1 := rfl
          rw [hindex, RootedTree.branch_def, RootedTree.branch_def, if_neg, if_neg]
          · rw [hparent_height]
            exact fun hin => hle hin.2
          · rw [hhead_height]
            omega
    · intro k hk
      rw [hparent_height] at hk
      rw [update_of_ne (by simp only [Storage.nextHeight]; omega), hindex]
  · rw [hi, hindex]
    rfl

theorem grow (inv : TreeInv sha256 root log s)
    (g : Grows sha256 root log s raw s') (hlong : ¬ s.ShorterReorg (headerOf raw)) :
    MainInv sha256 root (log ++ [raw]) s' := by
  by_cases hraw : raw ∈ log
  · rw [inv.readded g hraw]
    refine ⟨m.index_eq, m.aligned, ?_⟩
    intro b hb
    rcases TreeInv.mem_hashes_append.mp hb with hb | rfl
    · exact m.work_le b hb
    · exact m.work_le _ (hash_mem hraw)
  · refine ⟨m.index_eq_grow inv g hraw hlong, ?_, m.work_le_grow inv g hraw⟩
    rw [Storage.getBlockHeight, g.data_of_mem hraw (hash_mem inv.root_mem)]
    exact m.aligned

theorem isInMainchain_iff (inv : TreeInv sha256 root log s)
    (hsound : SoundHashes sha256 log) {b} (hb : b ∈ hashes sha256 log) : s.isInMainchain b = true ↔
      Ancestor s.prevBlockHash (hashOf sha256 root) b s.mainchainHead := by
  rw [Storage.isInMainchain, Storage.getBlockHash, m.index_eq, beq_iff_eq]
  exact RootedTree.branch_eq_iff (t := inv.tree) hsound.zero_notMem inv.head_mem hb

theorem index_above {k} (hk : s.getMainchainHeight < k) : s.getBlockHash k = 0 := by
  rw [Storage.getBlockHash, m.index_eq]
  exact if_neg fun hin => absurd hin.2 (not_le.mpr hk)

theorem getBlockStatus_ok (inv : TreeInv sha256 root log s)
    (hsound : SoundHashes sha256 log) (b : Bytes32) : ∃ status, s.getBlockStatus b = .ok status := by
  have hle : s.isInMainchain b = true → s.getBlockHeight b ≤ s.getMainchainHeight := by
    intro hmain
    by_cases hb : b ∈ hashes sha256 log
    · have hanc := (m.isInMainchain_iff inv hsound hb).mp hmain
      exact RootedTree.IsAncestor.height_le (t := inv.tree) hanc inv.head_mem
    · rw [Storage.getBlockHeight, inv.untouched b hb]
      exact Nat.zero_le _
  unfold Storage.getBlockStatus
  cases hmain : s.isInMainchain b with
  | false => exact ⟨_, rfl⟩
  | true => exact ⟨_, by simp [checkedSub, hle hmain]; rfl⟩

end

end MainInv

theorem checkpointStorage_branch (blockHash block) : (checkpointStorage blockHash block).blocksHeightToBlockHash =
      (checkpointStorage blockHash block).branch blockHash blockHash := by
  have hheight : (checkpointStorage blockHash block).getBlockHeight blockHash = block.blockHeight := by
    simp [Storage.getBlockHeight, checkpointStorage]
  funext k
  rw [Storage.branch, Lib.branch, Lib.ancestorAt, hheight]
  by_cases hk : k = block.blockHeight
  · rw [if_pos ⟨hk.ge, hk.le⟩, hk, Nat.sub_self]
    simp [checkpointStorage]
  · rw [if_neg (by omega)]
    simp [checkpointStorage, hk]

theorem mainInv_init {height work} (h : initGateway sha256 raw height work = .ok s) : MainInv sha256 raw [raw] s := by
  obtain ⟨haligned, -, rfl⟩ := initGateway_eq_ok.mp h
  refine ⟨checkpointStorage_branch _ _, ?_, ?_⟩
  · simpa [Storage.getBlockHeight, checkpointStorage] using haligned
  · intro b hb hne
    exact absurd (by simpa [hashes] using hb) hne

theorem mainchain_is_branch_of_head (raw0 : Bytes) (height0 : UInt64) (work0 : BitVec 256)
    (s0 s : Storage) (calls : List Call) (hinit : initGateway sha256 raw0 height0 work0 = .ok s0)
    (hsound : SoundHashes sha256 (raw0 :: submitted calls))
    (hturns : EveryTurn sha256 (fun t header => ¬ t.ShorterReorg header) s0 calls)
    (hrun : runAll (Call.exec sha256) s0 calls = .ok s) :
    (∀ b ∈ hashes sha256 (raw0 :: submitted calls), s.isInMainchain b = true ↔
      Ancestor s.prevBlockHash (hashOf sha256 raw0) b s.mainchainHead) ∧
    (∀ k, s.getMainchainHeight < k → s.getBlockHash k = 0) ∧ ∀ b, ∃ status, s.getBlockStatus b = .ok status := by
  obtain ⟨inv, m⟩ := run_invariant (MainInv sha256 raw0) (fun log s raw s' inv m g hturn => m.grow inv g hturn)
    (treeInv_init hinit) (mainInv_init hinit) hsound hturns hrun
  exact ⟨fun b hb => m.isInMainchain_iff inv hsound hb, fun k hk => m.index_above hk, m.getBlockStatus_ok inv hsound⟩

theorem plain_mainchain : runAll (Call.exec nonceSha256) (plainStorage 0) (plainCalls 2015) = .ok (plainStorage 2015) ∧
    ∀ b ∈ hashes nonceSha256 (toRawBytes (plainHeader 0) :: submitted (plainCalls 2015)),
      (plainStorage 2015).isInMainchain b = true ↔
        Ancestor (plainStorage 2015).prevBlockHash (hashOf nonceSha256 (toRawBytes (plainHeader 0))) b
          (plainStorage 2015).mainchainHead := by
  obtain ⟨hsound, hrun⟩ := plain_epoch
  have hturns := plain_everyTurn (P := fun t header => ¬ t.ShorterReorg header) (n := 2015)
    (by decide) fun i _ h => h.1 rfl
  have h := mainchain_is_branch_of_head _ 0 0 _ _ _ init_plain hsound hturns hrun
  exact ⟨hrun, h.1⟩

def forkedHeaders : List HeaderData :=
  [mined 2015 1209601 100001 lowestBits, mined 2015 1 200001 lowestBits,
    mined 200001 1 200002 lowestBits, mined 200002 1 200003 lowestBits,
    mined 100001 1 100002 0x1c3fffc0]

theorem run_of_fork {headers s} (h : runAll (Call.exec nonceSha256) (plainStorage 2014) (headerCalls headers) = .ok s) :
    runAll (Call.exec nonceSha256) (plainStorage 0) (plainCalls 2014 ++ headerCalls headers) = .ok s := by
  rw [runAll_append, plain_run (by decide)]
  exact h

theorem stale_entry_above_head :
    ∃ calls s, initGateway nonceSha256 (toRawBytes (plainHeader 0)) 0 0 = .ok (plainStorage 0) ∧
      SoundHashes nonceSha256 (toRawBytes (plainHeader 0) :: submitted calls) ∧
      runAll (Call.exec nonceSha256) (plainStorage 0) calls = .ok s ∧
      (200003 : Bytes32) ∈ hashes nonceSha256 (toRawBytes (plainHeader 0) :: submitted calls) ∧
      s.isInMainchain 200003 = true ∧
      ¬ Ancestor s.prevBlockHash (hashOf nonceSha256 (toRawBytes (plainHeader 0))) 200003 s.mainchainHead ∧
      s.getMainchainHeight < 2017 ∧ s.getBlockHash 2017 ≠ 0 ∧ ∀ status, s.getBlockStatus 200003 ≠ .ok status := by
  obtain ⟨s, hfork, hmain, hheight, hhead, hindex, hstatus⟩ : ∃ s, runAll (Call.exec nonceSha256) (plainStorage 2014)
      (headerCalls forkedHeaders) = .ok s ∧ s.isInMainchain 200003 = true ∧ s.getBlockHeight 200003 = 2017 ∧
      s.getMainchainHeight = 2016 ∧ s.getBlockHash 2017 = 200003 ∧ ¬ ∃ status, s.getBlockStatus 200003 = .ok status := by
    decide +kernel
  have hrun := run_of_fork hfork
  have hsound := soundHashes_plain (n := 2014) (by decide) forkedHeaders (by decide) (by decide)
  have inv := treeInv_of_run init_plain hsound hrun
  have hmem := nonce_mem_hashes (plainCalls 2014) (toRawBytes (plainHeader 0))
    (by simp [forkedHeaders] : mined 200002 1 200003 lowestBits ∈ forkedHeaders)
  refine ⟨_, s, init_plain, hsound, hrun, hmem, hmain, ?_, by omega, ?_, not_exists.mp hstatus⟩
  · intro hanc
    have hle := RootedTree.IsAncestor.height_le (t := inv.tree) hanc inv.head_mem
    change s.getBlockHeight 200003 ≤ s.getMainchainHeight at hle
    omega
  · rw [hindex]
    decide

def epochTarget (currentTarget : Bytes32) (epochStartTime epochEndTime : ℕ) : Gateway Bytes32 := do
  let passed ← checkedSub .arithmeticPanic epochEndTime epochStartTime
  match countNewRoundedTarget currentTarget passed with
  | some target => .ok target
  | none => .error .arithmeticPanic

namespace Storage

variable (s : Storage)

def branchRetarget (header : HeaderData) : Gateway Bytes32 :=
  epochTarget (s.getBlockTarget header.prevBlockHash)
    (s.getBlockHeaderTime (ancestorAt s.prevBlockHash s.getBlockHeight header.prevBlockHash
      (s.nextHeight header - difficultyAdjustmentInterval)))
    (s.getBlockHeaderTime header.prevBlockHash)

variable {s} {header : HeaderData} {blockHash : Bytes32}

theorem retarget_eq_epochTarget {target height}
    (hboundary : isTargetAdjustmentBlock height = true) (hlong : difficultyAdjustmentInterval ≤ height) :
    s.retargetIfEpochBoundary target height =
      epochTarget target (s.getBlockHeaderTime (s.getBlockHash (height - difficultyAdjustmentInterval)))
        (s.getBlockHeaderTime (s.getBlockHash (height - 1))) := by
  have hone : 1 ≤ height := le_trans (by decide) hlong
  rw [retargetIfEpochBoundary, if_pos hboundary, getEpochPassedTime, checkedSub, if_pos hlong, ok_bind,
    checkedSub, if_pos hone, ok_bind]
  rfl

theorem rewriteHeights_ne_invalidTarget {data gas index b h x y} :
    rewriteHeights data gas index b h ≠ .error (.invalidTarget x y) := by
  induction gas generalizing index b h with
  | zero => simp [rewriteHeights]
  | succ gas ih =>
    rw [rewriteHeights]
    split_ifs
    · exact ih
    · simp

theorem addBlock_ne_invalidTarget {height work x y} :
    s.addBlock header blockHash height work ≠ .error (.invalidTarget x y) := by
  unfold addBlock updateMainchainHead
  split_ifs
  · simp
  · simp [bind_eq_error, checkedSub_eq_error, rewriteHeights_ne_invalidTarget]
  · simp

theorem acceptBlock_ne_invalidTarget
    (h : s.retargetIfEpochBoundary (s.getBlockTarget header.prevBlockHash) (s.nextHeight header) =
      .ok (bitsToTarget header.bits)) (x y : Bytes32) :
    s.acceptBlock header blockHash ≠ .error (.invalidTarget x y) := by
  have hrules (medianTime : ℕ) : validateBlockRules header blockHash (bitsToTarget header.bits) medianTime ≠
        .error (.invalidTarget x y) := by
    simp [validateBlockRules, bind_eq_error, require_eq_error]
  intro hacc
  simp only [acceptBlock, bind_eq_error, checkedAdd_eq_error, checkedAdd_eq_ok, nextCumulativeWork,
    reduceCtorEq, and_false, false_or] at hacc
  obtain ⟨_, ⟨-, rfl⟩, hacc⟩ := hacc
  have hnext : s.getBlockHeight header.prevBlockHash + 1 = s.nextHeight header := rfl
  rw [hnext, h] at hacc
  simp only [reduceCtorEq, Except.ok.injEq, exists_eq_left', false_or, hrules,
    addBlock_ne_invalidTarget, and_false, exists_false] at hacc

theorem addBlockHeader_ne_invalidTarget {sha256 raw}
    (h : s.retargetIfEpochBoundary (s.getBlockTarget (headerOf raw).prevBlockHash)
      (s.nextHeight (headerOf raw)) = .ok (bitsToTarget (headerOf raw).bits)) (x y : Bytes32) :
    addBlockHeader sha256 s raw ≠ .error (.invalidTarget x y) := by
  have hparse : parseBlockHeaderRaw sha256 s raw ≠ .error (.invalidTarget x y) := by
    unfold parseBlockHeaderRaw
    split
    · simp
    · simp [bind_eq_error, require_eq_error]
  intro hadd
  rw [addBlockHeader_eq, bind_eq_error] at hadd
  obtain ⟨⟨header, blockHash⟩, hparsed, hrest⟩ := hadd.resolve_left hparse
  obtain ⟨-, -, rfl, rfl⟩ := parseBlockHeaderRaw_eq_ok.mp hparsed
  simp only [bind_eq_error, require_eq_error, reduceCtorEq, and_false, false_or] at hrest
  obtain ⟨_, -, hacc⟩ := hrest
  exact acceptBlock_ne_invalidTarget h x y hacc

end Storage

variable {sha256 : Bytes → Bytes32} {root raw : Bytes} {log : List Bytes} {s s' : Storage}

theorem boundary_above_root {h0 h} (hroot : h0 % difficultyAdjustmentInterval = 0) (hlt : h0 < h)
    (hboundary : isTargetAdjustmentBlock h = true) : h0 + difficultyAdjustmentInterval ≤ h := by
  simp only [isTargetAdjustmentBlock, getEpochBlockNumber, Bool.and_eq_true, beq_iff_eq,
    decide_eq_true_eq, difficultyAdjustmentInterval] at *
  omega

theorem MainInv.epoch_bounds (m : MainInv sha256 root log s) (inv : TreeInv sha256 root log s)
    {header} (hprev : header.prevBlockHash ∈ hashes sha256 log)
    (hboundary : isTargetAdjustmentBlock (s.nextHeight header) = true) :
    difficultyAdjustmentInterval ≤ s.nextHeight header ∧
      s.getBlockHeight (hashOf sha256 root) ≤ s.nextHeight header - difficultyAdjustmentInterval ∧
      s.nextHeight header - difficultyAdjustmentInterval ≤ s.getBlockHeight header.prevBlockHash := by
  have hroot : s.getBlockHeight (hashOf sha256 root) ≤ s.getBlockHeight header.prevBlockHash :=
    RootedTree.height_root_le (t := inv.tree) hprev
  have hlong : s.getBlockHeight (hashOf sha256 root) + difficultyAdjustmentInterval ≤
      s.nextHeight header := boundary_above_root m.aligned (Nat.lt_succ_of_le hroot) hboundary
  have hnext : s.nextHeight header = s.getBlockHeight header.prevBlockHash + 1 := rfl
  have hpos : 0 < difficultyAdjustmentInterval := by decide
  omega

theorem MainInv.retarget_eq (m : MainInv sha256 root log s) (inv : TreeInv sha256 root log s)
    (hsound : SoundHashes sha256 log) {header} (hprev : header.prevBlockHash ∈ hashes sha256 log)
    (hboundary : isTargetAdjustmentBlock (s.nextHeight header) = true)
    (hmain : s.isInMainchain header.prevBlockHash = true) :
    s.retargetIfEpochBoundary (s.getBlockTarget header.prevBlockHash) (s.nextHeight header) =
      s.branchRetarget header := by
  obtain ⟨hlong, hk, hkp⟩ := m.epoch_bounds inv hprev hboundary
  have hanc := (m.isInMainchain_iff inv hsound hprev).mp hmain
  obtain ⟨hle, hat⟩ := (RootedTree.isAncestor_iff (t := inv.tree) inv.head_mem hprev).mp hanc
  have hend : s.getBlockHash (s.nextHeight header - 1) = header.prevBlockHash := by
    rw [Storage.nextHeight, Nat.add_sub_cancel]
    simpa [Storage.isInMainchain] using hmain
  have hstart : s.getBlockHash (s.nextHeight header - difficultyAdjustmentInterval) =
      ancestorAt s.prevBlockHash s.getBlockHeight header.prevBlockHash
        (s.nextHeight header - difficultyAdjustmentInterval) := by
    have hdown := RootedTree.ancestorAt_ancestorAt (t := inv.tree) inv.head_mem hk
      (m := inv.tree.height header.prevBlockHash) hkp hle
    rw [hat] at hdown
    rw [Storage.getBlockHash, m.index_eq]
    exact (if_pos ⟨hk, hkp.trans hle⟩).trans hdown.symm
  rw [Storage.retarget_eq_epochTarget hboundary hlong, hend, hstart, Storage.branchRetarget]

theorem Grows.branchRetarget_eq (g : Grows sha256 root log s raw s') (m : MainInv sha256 root log s)
    (inv : TreeInv sha256 root log s) (hraw : raw ∉ log) {header} (hprev : header.prevBlockHash ∈ hashes sha256 log)
    (hboundary : isTargetAdjustmentBlock (s.nextHeight header) = true) :
    s'.branchRetarget header = s.branchRetarget header := by
  obtain ⟨-, hk, hkp⟩ := m.epoch_bounds inv hprev hboundary
  have hmem : ancestorAt s.prevBlockHash s.getBlockHeight header.prevBlockHash
      (s.nextHeight header - difficultyAdjustmentInterval) ∈ hashes sha256 log :=
    (RootedTree.ancestorAt_spec (t := inv.tree) hprev hk hkp).1
  have hat : ancestorAt s'.prevBlockHash s'.getBlockHeight header.prevBlockHash
      (s.nextHeight header - difficultyAdjustmentInterval) =
        ancestorAt s.prevBlockHash s.getBlockHeight header.prevBlockHash
          (s.nextHeight header - difficultyAdjustmentInterval) :=
    (g.extends inv hraw).ancestorAt_eq hprev hk hkp
  simp only [Storage.branchRetarget, g.nextHeight_eq hraw hprev, hat, Storage.getBlockTarget,
    Storage.getBlockHeaderTime, g.data_of_mem hraw hprev, g.data_of_mem hraw hmem]

def RetargetInv (root : Bytes) (log : List Bytes) (s : Storage) : Prop :=
  ∀ raw ∈ log, raw ≠ root → isTargetAdjustmentBlock (s.nextHeight (headerOf raw)) = true →
    s.branchRetarget (headerOf raw) = .ok (bitsToTarget (headerOf raw).bits)

theorem RetargetInv.grow (r : RetargetInv root log s) (m : MainInv sha256 root log s)
    (inv : TreeInv sha256 root log s) (g : Grows sha256 root log s raw s')
    (hmain : isTargetAdjustmentBlock (s.nextHeight (headerOf raw)) = true →
      s.isInMainchain (headerOf raw).prevBlockHash = true) : RetargetInv root (log ++ [raw]) s' := by
  by_cases hraw : raw ∈ log
  · rw [inv.readded g hraw]
    intro r' hr'
    rcases TreeInv.mem_log_append.mp hr' with hr' | rfl
    · exact r r' hr'
    · exact r r' hraw
  · intro r' hr' hne hboundary
    rcases TreeInv.mem_log_append.mp hr' with hr' | rfl
    · have hprev := inv.parent_mem r' hr' hne
      rw [g.nextHeight_eq hraw hprev] at hboundary
      rw [g.branchRetarget_eq m inv hraw hprev hboundary]
      exact r r' hr' hne hboundary
    · rw [g.nextHeight_eq hraw g.parent_mem] at hboundary
      have hsound := g.sound.mono (List.subset_append_left _ _)
      rw [g.branchRetarget_eq m inv hraw g.parent_mem hboundary,
        ← m.retarget_eq inv hsound g.parent_mem hboundary (hmain hboundary)]
      exact g.accepts.target_eq

def Storage.OnMainBranch (s : Storage) (header : HeaderData) : Prop :=
  ¬ s.ShorterReorg header ∧ (isTargetAdjustmentBlock (s.nextHeight header) = true →
    s.isInMainchain header.prevBlockHash = true)

theorem boundary_targets_of_own_branch (raw0 : Bytes) (height0 : UInt64) (work0 : BitVec 256)
    (s0 s : Storage) (calls : List Call) (hinit : initGateway sha256 raw0 height0 work0 = .ok s0)
    (hsound : SoundHashes sha256 (raw0 :: submitted calls)) (hturns : EveryTurn sha256 Storage.OnMainBranch s0 calls)
    (hrun : runAll (Call.exec sha256) s0 calls = .ok s) : (∀ raw ∈ submitted calls, raw ≠ raw0 →
      isTargetAdjustmentBlock (s.getBlockHeight (hashOf sha256 raw)) = true →
        s.branchRetarget (headerOf raw) = .ok (bitsToTarget (headerOf raw).bits)) ∧
    (∀ raw, s.blockExists (headerOf raw).prevBlockHash = true →
      isTargetAdjustmentBlock (s.nextHeight (headerOf raw)) = true →
      s.isInMainchain (headerOf raw).prevBlockHash = true →
        s.retargetIfEpochBoundary (s.getBlockTarget (headerOf raw).prevBlockHash)
          (s.nextHeight (headerOf raw)) = s.branchRetarget (headerOf raw) ∧
        (s.branchRetarget (headerOf raw) = .ok (bitsToTarget (headerOf raw).bits) →
          ∀ x y, addBlockHeader sha256 s raw ≠ .error (.invalidTarget x y))) := by
  have hinv := run_invariant (fun log s => MainInv sha256 raw0 log s ∧ RetargetInv raw0 log s)
    (fun log s raw s' inv h g hturn => ⟨h.1.grow inv g hturn.1, h.2.grow h.1 inv g hturn.2⟩)
    (treeInv_init hinit) ⟨mainInv_init hinit, fun raw hraw hne => absurd (by simpa using hraw) hne⟩
    hsound hturns hrun
  obtain ⟨inv, m, r⟩ := hinv
  refine ⟨?_, ?_⟩
  · intro raw hraw hne hboundary
    have hmem : raw ∈ raw0 :: submitted calls := List.mem_cons_of_mem _ hraw
    rw [inv.height_eq raw hmem hne] at hboundary
    exact r raw hmem hne hboundary
  · intro raw hprev hboundary hmain
    have hretarget := m.retarget_eq inv hsound (inv.mem_of_exists hprev) hboundary hmain
    refine ⟨hretarget, fun hown => ?_⟩
    exact Storage.addBlockHeader_ne_invalidTarget (hretarget.trans hown)

theorem plain_onMainBranch {n} (hn : n < 2 ^ 20) : (plainStorage n).OnMainBranch (plainHeader (n + 1)) := by
  refine ⟨fun h => h.1 rfl, fun _ => ?_⟩
  have hprev : (plainHeader (n + 1)).prevBlockHash = BitVec.ofNat 256 (n + 1) := rfl
  rw [hprev, Storage.isInMainchain, Storage.getBlockHeight, plainStorage_blocksData le_rfl hn]
  simp [Storage.getBlockHash, plainStorage]

theorem plain_boundary_target : ∃ s, runAll (Call.exec nonceSha256) (plainStorage 0)
        (plainCalls 2015 ++ headerCalls [mined 2016 1 300001 0x1c3fffc0]) = .ok s ∧
      s.branchRetarget (mined 2016 1 300001 0x1c3fffc0) = .ok (bitsToTarget 0x1c3fffc0) := by
  obtain ⟨s, hlast, hheight⟩ : ∃ s, runAll (Call.exec nonceSha256) (plainStorage 2015)
      (headerCalls [mined 2016 1 300001 0x1c3fffc0]) = .ok s ∧ s.getBlockHeight 300001 = 2016 := by
    decide +kernel
  have hrun : runAll (Call.exec nonceSha256) (plainStorage 0)
      (plainCalls 2015 ++ headerCalls [mined 2016 1 300001 0x1c3fffc0]) = .ok s := by
    rw [runAll_append, plain_run (by decide)]
    exact hlast
  have hsound := soundHashes_plain (n := 2015) (by decide) [mined 2016 1 300001 0x1c3fffc0]
    (by decide) (by decide)
  have hturns : EveryTurn nonceSha256 Storage.OnMainBranch (plainStorage 0)
      (plainCalls 2015 ++ headerCalls [mined 2016 1 300001 0x1c3fffc0]) := by
    refine everyTurn_append.mpr ⟨plain_everyTurn (by decide) fun i hi => plain_onMainBranch (by omega), ?_⟩
    intro t ht
    rw [plain_run (by decide)] at ht
    cases ht
    refine ⟨?_, fun _ _ => trivial⟩
    rintro _ _ ⟨rfl, rfl⟩
    rw [headerOf_toRawBytes]
    exact ⟨fun h => h.1 (by decide +kernel), fun _ => by decide +kernel⟩
  have hown := (boundary_targets_of_own_branch _ 0 0 _ _ _ init_plain hsound hturns hrun).1
    (toRawBytes (mined 2016 1 300001 0x1c3fffc0)) (mem_submitted _ (by simp))
    (fun he => absurd (toRawBytes_inj he) (by decide))
  rw [hashOf_toRawBytes, headerOf_toRawBytes] at hown
  exact ⟨s, hrun, hown (by rw [show BitVec.ofNat 256 (mined 2016 1 300001 0x1c3fffc0).nonce.toNat =
    300001 from by decide, hheight]; decide)⟩

theorem branchRetarget_first_epoch (inv : TreeInv sha256 root log s) {header}
    (hprev : header.prevBlockHash ∈ hashes sha256 log)
    (hfirst : s.nextHeight header - difficultyAdjustmentInterval = s.getBlockHeight (hashOf sha256 root)) :
    s.branchRetarget header = epochTarget (s.getBlockTarget header.prevBlockHash)
      (s.getBlockHeaderTime (hashOf sha256 root)) (s.getBlockHeaderTime header.prevBlockHash) := by
  have hstart : ancestorAt s.prevBlockHash s.getBlockHeight header.prevBlockHash
      (s.getBlockHeight (hashOf sha256 root)) = hashOf sha256 root :=
    RootedTree.ancestorAt_root (t := inv.tree) hprev
  rw [Storage.branchRetarget, hfirst, hstart]

theorem boundary_takes_other_branch :
    ∃ calls s, initGateway nonceSha256 (toRawBytes (plainHeader 0)) 0 0 = .ok (plainStorage 0) ∧
      SoundHashes nonceSha256 (toRawBytes (plainHeader 0) :: submitted calls) ∧
      runAll (Call.exec nonceSha256) (plainStorage 0) calls = .ok s ∧
      toRawBytes (mined 200001 1 200002 lowestBits) ∈ submitted calls ∧
      s.getBlockHeight 200002 = difficultyAdjustmentInterval ∧
      s.branchRetarget (mined 200001 1 200002 lowestBits) = .ok (bitsToTarget 0x1c3fffc0) ∧
      bitsToTarget 0x1c3fffc0 ≠ bitsToTarget lowestBits ∧
      s.branchRetarget (mined 100001 1 100002 lowestBits) = .ok (bitsToTarget lowestBits) ∧
      addBlockHeader nonceSha256 s (toRawBytes (mined 100001 1 100002 lowestBits)) =
        .error (.invalidTarget (bitsToTarget lowestBits) (bitsToTarget 0x1c3fffc0)) := by
  obtain ⟨s, hfork, ⟨hheight, hroot, hroot_time⟩, ⟨hheightB, htimeB, htargetB⟩, ⟨hheightA, htimeA, htargetA⟩,
      hrejected⟩ : ∃ s, runAll (Call.exec nonceSha256) (plainStorage 2014) (headerCalls (forkedHeaders.take 3)) = .ok s ∧
      (s.getBlockHeight 200002 = 2016 ∧ s.getBlockHeight 1 = 0 ∧ s.getBlockHeaderTime 1 = 1) ∧
      (s.getBlockHeight 200001 = 2015 ∧ s.getBlockHeaderTime 200001 = 1 ∧
        s.getBlockTarget 200001 = bitsToTarget lowestBits) ∧
      (s.getBlockHeight 100001 = 2015 ∧ s.getBlockHeaderTime 100001 = 1209601 ∧
        s.getBlockTarget 100001 = bitsToTarget lowestBits) ∧
      addBlockHeader nonceSha256 s (toRawBytes (mined 100001 1 100002 lowestBits)) =
        .error (.invalidTarget (bitsToTarget lowestBits) (bitsToTarget 0x1c3fffc0)) := by
    decide +kernel
  have hrun := run_of_fork hfork
  have hsound := soundHashes_plain (n := 2014) (by decide) (forkedHeaders.take 3) (by decide) (by decide)
  have inv := treeInv_of_run init_plain hsound hrun
  have hroot_hash : hashOf nonceSha256 (toRawBytes (plainHeader 0)) = 1 := hashOf_plainHeader (by omega)
  have hown (header : HeaderData) (tip : HeaderData) (htip : tip ∈ forkedHeaders.take 3)
      (hprev : header.prevBlockHash = BitVec.ofNat 256 tip.nonce.toNat)
      (hparent : s.getBlockHeight header.prevBlockHash = 2015) :
      s.branchRetarget header = epochTarget (s.getBlockTarget header.prevBlockHash) 1
        (s.getBlockHeaderTime header.prevBlockHash) := by
    have hmem := nonce_mem_hashes (plainCalls 2014) (toRawBytes (plainHeader 0)) htip
    rw [← hprev] at hmem
    rw [branchRetarget_first_epoch inv hmem, hroot_hash, hroot_time]
    rw [hroot_hash, hroot, Storage.nextHeight, hparent, difficultyAdjustmentInterval]
  have hownA := hown (mined 100001 1 100002 lowestBits) (mined 2015 1209601 100001 lowestBits)
    (by simp [forkedHeaders]) (by decide) hheightA
  have hownB := hown (mined 200001 1 200002 lowestBits) (mined 2015 1 200001 lowestBits)
    (by simp [forkedHeaders]) (by decide) hheightB
  refine ⟨_, s, init_plain, hsound, hrun, mem_submitted _ (by simp [forkedHeaders]), hheight, ?_,
    by decide, ?_, hrejected⟩
  · rw [hownB]
    change epochTarget (s.getBlockTarget 200001) 1 (s.getBlockHeaderTime 200001) = _
    rw [htargetB, htimeB]
    decide
  · rw [hownA]
    change epochTarget (s.getBlockTarget 100001) 1 (s.getBlockHeaderTime 100001) = _
    rw [htargetA, htimeA]
    decide

end QuidProtocol.Spv
