import QuidProtocol.Spv.Batch

/-!
The blocks the gateway stores form a tree that grows from its checkpoint, over any sequence of calls that go through.
Every reachable store is a tree of accepted headers, with its heaviest block at the head.
-/

namespace QuidProtocol.Spv

open Lib Function

namespace Storage

variable {s s' : Storage} {header : HeaderData} {blockHash : Bytes32}

theorem Accepts.head_cases (h : s.Accepts header blockHash s') (hne : s.mainchainHead ≠ blockHash) :
    ((header.prevBlockHash = s.mainchainHead ∨ s.mainchainHead = 0) ∧
      s'.mainchainHead = blockHash ∧ s'.blocksHeightToBlockHash =
        update s.blocksHeightToBlockHash (s.nextHeight header) blockHash) ∨ (header.prevBlockHash ≠ s.mainchainHead ∧
      s.getBlockCumulativeWork s.mainchainHead < s.nextWork header ∧ s'.mainchainHead = blockHash ∧
      rewriteHeights s'.blocksData walkGas (update s.blocksHeightToBlockHash (s.nextHeight header) blockHash)
        header.prevBlockHash (s.getBlockHeight header.prevBlockHash) = .ok s'.blocksHeightToBlockHash) ∨
    (header.prevBlockHash ≠ s.mainchainHead ∧ s.nextWork header ≤ s.getBlockCumulativeWork s.mainchainHead ∧
      s'.mainchainHead = s.mainchainHead ∧ s'.blocksHeightToBlockHash = s.blocksHeightToBlockHash) := by
  have hadded := h.added
  have hdata := h.blocksData
  have hold : (s.setBlock header blockHash (s.nextHeight header)
      (s.nextWork header)).getBlockCumulativeWork s.mainchainHead = s.getBlockCumulativeWork s.mainchainHead := by
    simp [setBlock, getBlockCumulativeWork, update_of_ne hne]
  have hnew : (s.setBlock header blockHash (s.nextHeight header)
      (s.nextWork header)).getBlockCumulativeWork blockHash = s.nextWork header := by
    simp [setBlock, getBlockCumulativeWork]
  have hheadSame : (s.setBlock header blockHash (s.nextHeight header)
      (s.nextWork header)).mainchainHead = s.mainchainHead := rfl
  unfold addBlock updateMainchainHead at hadded
  rw [hheadSame, hold, hnew] at hadded
  split_ifs at hadded with hextends hheavier
  · cases hadded
    exact Or.inl ⟨hextends, rfl, rfl⟩
  · simp only [bind_eq_ok, checkedSub_eq_ok] at hadded
    obtain ⟨_, ⟨-, rfl⟩, index, hindex, hadded⟩ := hadded
    cases hadded
    exact Or.inr (Or.inl ⟨fun he => hextends (Or.inl he), hheavier, rfl, hindex⟩)
  · cases hadded
    exact Or.inr (Or.inr ⟨fun he => hextends (Or.inl he), not_lt.mp hheavier, rfl, rfl⟩)

end Storage

variable {sha256 : Bytes → Bytes32}

def hashes (sha256 : Bytes → Bytes32) (log : List Bytes) : List Bytes32 := log.map (hashOf sha256)

theorem hash_mem {log raw} (h : raw ∈ log) : hashOf sha256 raw ∈ hashes sha256 log := List.mem_map_of_mem h

structure TreeInv (sha256 : Bytes → Bytes32) (root : Bytes) (log : List Bytes) (s : Storage) :
    Prop where
  root_mem : root ∈ log
  holds : ∀ raw ∈ log, s.Holds (blockOf sha256 raw)
  untouched : ∀ b, b ∉ hashes sha256 log → s.blocksData b = default
  parent_mem : ∀ raw ∈ log, raw ≠ root → (headerOf raw).prevBlockHash ∈ hashes sha256 log
  height_eq : ∀ raw ∈ log, raw ≠ root → s.getBlockHeight (hashOf sha256 raw) = s.nextHeight (headerOf raw)
  work_eq : ∀ raw ∈ log, raw ≠ root → s.getBlockCumulativeWork (hashOf sha256 raw) = s.nextWork (headerOf raw)
  head_mem : s.mainchainHead ∈ hashes sha256 log
  head_max : ∀ b ∈ hashes sha256 log, s.getBlockCumulativeWork b ≤ s.getBlockCumulativeWork s.mainchainHead
  head_first : ∀ b ∈ hashes sha256 log, s.getBlockCumulativeWork b = s.getBlockCumulativeWork s.mainchainHead →
      (hashes sha256 log).idxOf s.mainchainHead ≤ (hashes sha256 log).idxOf b
  root_time : ∀ raw ∈ log, raw ≠ root → 0 < (headerOf root).time.toNat

/-- The zero word stands for "no block" in every mapping of the gateway, so a header that
hashed to it would collide with the blocks that are not there. -/
def SoundHashes (sha256 : Bytes → Bytes32) (log : List Bytes) : Prop :=
  CollisionFree sha256 log ∧ ∀ raw ∈ log, hashOf sha256 raw ≠ 0

theorem SoundHashes.mono {log log'} (h : SoundHashes sha256 log) (hsub : log' ⊆ log) : SoundHashes sha256 log' :=
  ⟨fun a ha b hb => h.1 a (hsub ha) b (hsub hb), fun a ha => h.2 a (hsub ha)⟩

theorem SoundHashes.zero_notMem {log} (h : SoundHashes sha256 log) : 0 ∉ hashes sha256 log := by
  intro hmem
  obtain ⟨raw, hraw, he⟩ := List.mem_map.mp hmem
  exact h.2 raw hraw he

structure Grows (sha256 : Bytes → Bytes32) (root : Bytes) (log : List Bytes) (s : Storage)
    (raw : Bytes) (s' : Storage) : Prop where
  accepts : s.Accepts (headerOf raw) (hashOf sha256 raw) s'
  parent_mem : (headerOf raw).prevBlockHash ∈ hashes sha256 log
  fresh : s.blockExists (hashOf sha256 raw) = false
  root_time : 0 < (headerOf root).time.toNat
  sound : SoundHashes sha256 (log ++ [raw])

namespace TreeInv

variable {root raw : Bytes} {log : List Bytes} {s s' : Storage}

section

variable (inv : TreeInv sha256 root log s)

include inv

theorem time_eq (hraw : raw ∈ log) : s.getBlockHeaderTime (hashOf sha256 raw) = (headerOf raw).time.toNat := by
  have h : (s.blocksData (hashOf sha256 raw)).toHeaderData = headerOf raw := inv.holds raw hraw
  rw [Storage.getBlockHeaderTime, h]

theorem mem_of_exists {b} (hb : s.blockExists b = true) : b ∈ hashes sha256 log := by
  by_contra hmem
  have hzero := inv.untouched b hmem
  simp only [Storage.blockExists, Storage.getBlockHeaderTime, hzero, decide_eq_true_eq] at hb
  exact absurd hb (by decide)

theorem root_time_of_exists {b} (hb : s.blockExists b = true) : 0 < (headerOf root).time.toNat := by
  obtain ⟨raw, hraw, rfl⟩ := List.mem_map.mp (inv.mem_of_exists hb)
  by_cases he : raw = root
  · subst he
    rw [← inv.time_eq hraw]
    simpa [Storage.blockExists] using hb
  · exact inv.root_time raw hraw he

theorem root_not_fresh (htime : 0 < (headerOf root).time.toNat) : s.blockExists (hashOf sha256 root) = true := by
  rw [Storage.blockExists, inv.time_eq inv.root_mem]
  simpa using htime

theorem head_ne_zero (hsound : SoundHashes sha256 log) : s.mainchainHead ≠ 0 := by
  intro he
  exact hsound.zero_notMem (he ▸ inv.head_mem)

theorem head_ne_of_grows (g : Grows sha256 root log s raw s') : s.mainchainHead ≠ 0 :=
  inv.head_ne_zero (g.sound.mono (List.subset_append_left _ _))

theorem data_eq (hraw : raw ∈ log) (hne : raw ≠ root) :
    s.blocksData (hashOf sha256 raw) = ⟨headerOf raw, s.nextHeight (headerOf raw), s.nextWork (headerOf raw)⟩ := by
  have hheader : (s.blocksData (hashOf sha256 raw)).toHeaderData = headerOf raw := inv.holds raw hraw
  have hheight := inv.height_eq raw hraw hne
  have hwork := inv.work_eq raw hraw hne
  simp only [Storage.getBlockHeight, Storage.getBlockCumulativeWork] at hheight hwork
  rw [← hheight, ← hwork, ← hheader]

theorem readded (g : Grows sha256 root log s raw s') (hraw : raw ∈ log) : s' = s := by
  have hne : raw ≠ root := by
    rintro rfl
    have hexists := inv.root_not_fresh g.root_time
    rw [g.fresh] at hexists
    exact Bool.false_ne_true hexists
  have hwork := inv.work_eq raw hraw hne
  have hmax := inv.head_max _ (hash_mem hraw)
  have hsame : s.setBlock (headerOf raw) (hashOf sha256 raw) (s.nextHeight (headerOf raw))
      (s.nextWork (headerOf raw)) = s := by
    rw [Storage.setBlock, ← inv.data_eq hraw hne, update_eq_self]
  have hprev : ¬ ((headerOf raw).prevBlockHash = s.mainchainHead ∨ s.mainchainHead = 0) := by
    rintro (he | he)
    · have hpos := countBlockWork_pos (headerOf raw).bits
      rw [hwork, Storage.nextWork, he] at hmax
      omega
    · exact inv.head_ne_of_grows g he
  have hadded := g.accepts.added
  rw [Storage.addBlock, hsame, Storage.updateMainchainHead, if_neg hprev, if_neg (not_lt.mpr hmax)]
    at hadded
  exact ok_inj hadded

theorem repeated (hraw : raw ∈ log) : TreeInv sha256 root (log ++ [raw]) s := by
  have hlog (r : Bytes) : r ∈ log ++ [raw] ↔ r ∈ log := by
    simp only [List.mem_append, List.mem_singleton, or_iff_left_iff_imp]
    rintro rfl
    exact hraw
  have hhash (b : Bytes32) : b ∈ hashes sha256 (log ++ [raw]) ↔ b ∈ hashes sha256 log := by
    simp only [hashes, List.mem_map, hlog]
  have hindex (b : Bytes32) (hb : b ∈ hashes sha256 log) :
      (hashes sha256 (log ++ [raw])).idxOf b = (hashes sha256 log).idxOf b := by
    rw [hashes, List.map_append]
    exact List.idxOf_append_of_mem hb
  refine ⟨(hlog root).mpr inv.root_mem, ?_, ?_, ?_, ?_, ?_, (hhash _).mpr inv.head_mem, ?_, ?_, ?_⟩
  · intro r hr
    exact inv.holds r ((hlog r).mp hr)
  · intro b hb
    exact inv.untouched b (fun h => hb ((hhash b).mpr h))
  · intro r hr hne
    exact (hhash _).mpr (inv.parent_mem r ((hlog r).mp hr) hne)
  · intro r hr
    exact inv.height_eq r ((hlog r).mp hr)
  · intro r hr
    exact inv.work_eq r ((hlog r).mp hr)
  · intro b hb
    exact inv.head_max b ((hhash b).mp hb)
  · intro b hb he
    rw [hindex _ inv.head_mem, hindex b ((hhash b).mp hb)]
    exact inv.head_first b ((hhash b).mp hb) he
  · intro r hr
    exact inv.root_time r ((hlog r).mp hr)

end

end TreeInv

namespace Grows

variable {root raw : Bytes} {log : List Bytes} {s s' : Storage}

section

variable (g : Grows sha256 root log s raw s')

include g

theorem hash_notMem (hraw : raw ∉ log) : hashOf sha256 raw ∉ hashes sha256 log := by
  intro hmem
  obtain ⟨r, hr, he⟩ := List.mem_map.mp hmem
  have hsame := g.sound.1 r (by simp [hr]) raw (by simp) he
  exact hraw (hsame ▸ hr)

theorem data_of_mem (hraw : raw ∉ log) {b} (hb : b ∈ hashes sha256 log) : s'.blocksData b = s.blocksData b := by
  apply g.accepts.blocksData_of_ne
  rintro rfl
  exact g.hash_notMem hraw hb

theorem work_of_mem (hraw : raw ∉ log) {b}
    (hb : b ∈ hashes sha256 log) : s'.getBlockCumulativeWork b = s.getBlockCumulativeWork b := by
  rw [Storage.getBlockCumulativeWork, g.data_of_mem hraw hb, Storage.getBlockCumulativeWork]

theorem nextHeight_eq (hraw : raw ∉ log) {header}
    (hb : header.prevBlockHash ∈ hashes sha256 log) : s'.nextHeight header = s.nextHeight header := by
  simp only [Storage.nextHeight, Storage.getBlockHeight, g.data_of_mem hraw hb]

theorem nextWork_eq (hraw : raw ∉ log) {header}
    (hb : header.prevBlockHash ∈ hashes sha256 log) : s'.nextWork header = s.nextWork header := by
  simp only [Storage.nextWork, Storage.getBlockCumulativeWork, g.data_of_mem hraw hb]

end

end Grows

namespace TreeInv

variable {root raw : Bytes} {log : List Bytes} {s s' : Storage}

theorem mem_log_append {r} : r ∈ log ++ [raw] ↔ r ∈ log ∨ r = raw := by simp

theorem mem_hashes_append {b} : b ∈ hashes sha256 (log ++ [raw]) ↔ b ∈ hashes sha256 log ∨ b = hashOf sha256 raw := by
  simp [hashes]

section

variable (inv : TreeInv sha256 root log s)

include inv

theorem head_of_grows (g : Grows sha256 root log s raw s') (hraw : raw ∉ log) :
    (s'.mainchainHead = hashOf sha256 raw ∧ ∀ b ∈ hashes sha256 log,
      s'.getBlockCumulativeWork b < s'.getBlockCumulativeWork (hashOf sha256 raw)) ∨
    (s'.mainchainHead = s.mainchainHead ∧
      s'.getBlockCumulativeWork (hashOf sha256 raw) ≤ s'.getBlockCumulativeWork s.mainchainHead) := by
  have hnew : s'.getBlockCumulativeWork (hashOf sha256 raw) = s.nextWork (headerOf raw) := by
    rw [Storage.getBlockCumulativeWork, g.accepts.blocksData_self]
  have hne : s.mainchainHead ≠ hashOf sha256 raw := by
    intro he
    exact g.hash_notMem hraw (he ▸ inv.head_mem)
  rcases g.accepts.head_cases hne with ⟨hprev, hhead, -⟩ | ⟨-, hheavier, hhead, -⟩ | ⟨-, hle, hhead, -⟩
  · refine Or.inl ⟨hhead, fun b hb => ?_⟩
    have hpos := countBlockWork_pos (headerOf raw).bits
    have hmax := inv.head_max b hb
    rw [hnew, g.work_of_mem hraw hb, Storage.nextWork, hprev.resolve_right (inv.head_ne_of_grows g)]
    omega
  · refine Or.inl ⟨hhead, fun b hb => ?_⟩
    have hmax := inv.head_max b hb
    rw [hnew, g.work_of_mem hraw hb]
    omega
  · refine Or.inr ⟨hhead, ?_⟩
    rw [hnew, g.work_of_mem hraw inv.head_mem]
    exact hle

theorem head_max_grow (g : Grows sha256 root log s raw s')
    (hraw : raw ∉ log) {b} (hb : b ∈ hashes sha256 (log ++ [raw])) :
    s'.getBlockCumulativeWork b ≤ s'.getBlockCumulativeWork s'.mainchainHead := by
  rcases inv.head_of_grows g hraw with ⟨hhead, hlt⟩ | ⟨hhead, hle⟩ <;> rw [hhead] <;>
    rcases mem_hashes_append.mp hb with hb | rfl
  · exact (hlt b hb).le
  · exact le_refl _
  · rw [g.work_of_mem hraw hb, g.work_of_mem hraw inv.head_mem]
    exact inv.head_max b hb
  · exact hle

theorem head_first_grow (g : Grows sha256 root log s raw s')
    (hraw : raw ∉ log) {b} (hb : b ∈ hashes sha256 (log ++ [raw]))
    (hwork : s'.getBlockCumulativeWork b = s'.getBlockCumulativeWork s'.mainchainHead) :
    (hashes sha256 (log ++ [raw])).idxOf s'.mainchainHead ≤ (hashes sha256 (log ++ [raw])).idxOf b := by
  have hsplit : hashes sha256 (log ++ [raw]) = hashes sha256 log ++ [hashOf sha256 raw] := by simp [hashes]
  rcases inv.head_of_grows g hraw with ⟨hhead, hlt⟩ | ⟨hhead, hle⟩ <;> rw [hhead] at hwork ⊢ <;>
    rcases mem_hashes_append.mp hb with hb | rfl
  · exact absurd hwork (hlt b hb).ne
  · exact le_refl _
  · rw [hsplit, List.idxOf_append_of_mem inv.head_mem, List.idxOf_append_of_mem hb]
    rw [g.work_of_mem hraw hb, g.work_of_mem hraw inv.head_mem] at hwork
    exact inv.head_first b hb hwork
  · rw [hsplit, List.idxOf_append_of_mem inv.head_mem, List.idxOf_append_of_notMem (g.hash_notMem hraw)]
    have hidx := List.idxOf_lt_length_of_mem inv.head_mem
    omega

theorem grow (g : Grows sha256 root log s raw s') : TreeInv sha256 root (log ++ [raw]) s' := by
  by_cases hraw : raw ∈ log
  · rw [inv.readded g hraw]
    exact inv.repeated hraw
  have hraw_data := g.accepts.blocksData_self
  refine ⟨mem_log_append.mpr (Or.inl inv.root_mem), ?_, ?_, ?_, ?_, ?_, ?_, ?_, ?_, ?_⟩
  · intro r hr
    rcases mem_log_append.mp hr with hr | rfl
    · rw [Storage.Holds, blockOf, g.data_of_mem hraw (hash_mem hr)]
      exact inv.holds r hr
    · exact g.accepts.holds
  · intro b hb
    rw [mem_hashes_append, not_or] at hb
    rw [g.accepts.blocksData_of_ne hb.2]
    exact inv.untouched b hb.1
  · intro r hr hne
    rw [mem_hashes_append]
    rcases mem_log_append.mp hr with hr | rfl
    · exact Or.inl (inv.parent_mem r hr hne)
    · exact Or.inl g.parent_mem
  · intro r hr hne
    rcases mem_log_append.mp hr with hr | rfl
    · rw [g.nextHeight_eq hraw (inv.parent_mem r hr hne), ← inv.height_eq r hr hne]
      simp only [Storage.getBlockHeight, g.data_of_mem hraw (hash_mem hr)]
    · rw [g.nextHeight_eq hraw g.parent_mem, Storage.getBlockHeight, hraw_data]
  · intro r hr hne
    rcases mem_log_append.mp hr with hr | rfl
    · rw [g.nextWork_eq hraw (inv.parent_mem r hr hne), ← inv.work_eq r hr hne]
      simp only [Storage.getBlockCumulativeWork, g.data_of_mem hraw (hash_mem hr)]
    · rw [g.nextWork_eq hraw g.parent_mem, Storage.getBlockCumulativeWork, hraw_data]
  · rw [mem_hashes_append]
    rcases inv.head_of_grows g hraw with ⟨hhead, -⟩ | ⟨hhead, -⟩
    · exact Or.inr hhead
    · exact Or.inl (hhead ▸ inv.head_mem)
  · exact fun b hb => inv.head_max_grow g hraw hb
  · exact fun b hb hwork => inv.head_first_grow g hraw hb hwork
  · intro r hr hne
    exact g.root_time

end

end TreeInv

variable (sha256)

def submitted (calls : List Call) : List Bytes := calls.flatMap Call.raws

def Turn (s : Storage) (c : Call) (t : Storage) (raw : Bytes) : Prop :=
  match c with
  | .addBlockHeader r => raw = r ∧ t = s
  | .addBlockHeaderBatch raws => ∃ before after, raws = before ++ raw :: after ∧
      (before = [] ∧ t = s ∨ addBlockHeaderBatch sha256 s before = .ok t)

def EveryTurn (P : Storage → HeaderData → Prop) : Storage → List Call → Prop
  | _, [] => True
  | s, c :: cs => (∀ t raw, Turn sha256 s c t raw → P t (headerOf raw)) ∧
      ∀ s', Call.exec sha256 s c = .ok s' → EveryTurn P s' cs

variable {sha256}

theorem everyTurn_append {P s cs ds} : EveryTurn sha256 P s (cs ++ ds) ↔ EveryTurn sha256 P s cs ∧
      ∀ s', runAll (Call.exec sha256) s cs = .ok s' → EveryTurn sha256 P s' ds := by
  induction cs generalizing s with
  | nil => simp [EveryTurn, runAll]
  | cons c cs ih =>
    simp only [List.cons_append, EveryTurn, ih, runAll, bind_eq_ok]
    constructor
    · rintro ⟨hfirst, hrest⟩
      refine ⟨⟨hfirst, fun t ht => (hrest t ht).1⟩, ?_⟩
      rintro s' ⟨t, ht, hs'⟩
      exact (hrest t ht).2 s' hs'
    · rintro ⟨⟨hfirst, hrest⟩, hlater⟩
      exact ⟨hfirst, fun t ht => ⟨hrest t ht, fun s' hs' => hlater s' ⟨t, ht, hs'⟩⟩⟩

inductive Growth (sha256 : Bytes → Bytes32) (P : Storage → HeaderData → Prop) (root : Bytes) :
    List Bytes → Storage → List Bytes → Storage → Prop
  | nil (log : List Bytes) (s : Storage) : Growth sha256 P root log s [] s
  | cons {log raws raw s t s' : _}
      (hturn : P s (headerOf raw)) (hgrows : Grows sha256 root log s raw t)
      (hrest : Growth sha256 P root (log ++ [raw]) t raws s') :
      Growth sha256 P root log s (raw :: raws) s'

section Calls

variable {P : Storage → HeaderData → Prop} {root : Bytes} {log : List Bytes} {s s' : Storage}

theorem growth_of_accepts {raws} (inv : TreeInv sha256 root log s)
    (htime : 0 < (headerOf root).time.toNat) (hsound : SoundHashes sha256 (log ++ raws))
    (hfresh : ∀ raw ∈ raws, s.blockExists (hashOf sha256 raw) = false)
    (hnodup : (raws.map (hashOf sha256)).Nodup) (hlinked : Linked sha256 raws)
    (hhead : ∀ raw ∈ raws.head?, (headerOf raw).prevBlockHash ∈ hashes sha256 log)
    (hturn : ∀ before raw after t, raws = before ++ raw :: after →
      runAll Storage.accept s (before.map (blockOf sha256)) = .ok t → P t (headerOf raw))
    (hrun : runAll Storage.accept s (raws.map (blockOf sha256)) = .ok s') : Growth sha256 P root log s raws s' := by
  induction raws generalizing log s with
  | nil =>
    obtain rfl : s = s' := by simpa [runAll] using hrun
    exact .nil log s
  | cons raw raws ih =>
    obtain ⟨t, hacc, hrest⟩ := of_bind hrun
    obtain ⟨hnext, hlinked⟩ := List.isChain_cons.mp hlinked
    obtain ⟨hnot, hnodup⟩ := List.nodup_cons.mp hnodup
    have hgrows : Grows sha256 root log s raw t :=
      ⟨Storage.acceptBlock_eq_ok.mp hacc, hhead raw rfl, hfresh raw (by simp), htime, hsound.mono (by simp)⟩
    refine .cons (hturn [] raw raws s rfl rfl) hgrows (ih (inv.grow hgrows) (by simpa using hsound)
      ?_ hnodup hlinked ?_ ?_ hrest)
    · intro r hr
      have hne : hashOf sha256 r ≠ hashOf sha256 raw := fun he => hnot (List.mem_map.mpr ⟨r, hr, he⟩)
      rw [← Bool.not_eq_true, hgrows.accepts.blockExists_iff, if_neg hne]
      simpa using hfresh r (by simp [hr])
    · intro r hr
      rw [hnext r hr]
      exact hash_mem (by simp)
    · intro before r after u hsplit hu
      refine hturn (raw :: before) r after u (by rw [hsplit]; rfl) ?_
      exact bind_eq_ok.mpr ⟨t, hacc, hu⟩

theorem growth_of_exec {c} (inv : TreeInv sha256 root log s) (hsound : SoundHashes sha256 (log ++ c.raws))
    (hturn : ∀ t raw, Turn sha256 s c t raw → P t (headerOf raw))
    (hexec : Call.exec sha256 s c = .ok s') : Growth sha256 P root log s c.raws s' := by
  cases c with
  | addBlockHeader raw =>
    obtain ⟨⟨-, hfresh⟩, hprev, hacc⟩ := addBlockHeader_eq_ok.mp hexec
    refine .cons (hturn s raw ⟨rfl, rfl⟩) ?_ (.nil _ _)
    exact ⟨hacc, inv.mem_of_exists hprev, hfresh, inv.root_time_of_exists hprev, hsound⟩
  | addBlockHeaderBatch raws =>
    have hcf : CollisionFree sha256 raws := (hsound.mono (by simp [Call.raws])).1
    obtain ⟨hne, hfresh, hhead, hlinked, hrun⟩ := (addBlockHeaderBatch_eq_ok hcf).mp hexec
    have hprev : s.blockExists (headerOf (raws.head hne)).prevBlockHash = true := hhead _ (List.head?_eq_some_head hne)
    refine growth_of_accepts inv (inv.root_time_of_exists hprev) hsound (fun r hr => (hfresh r hr).2)
      (hashes_nodup hcf hfresh hhead hlinked) hlinked (fun r hr => inv.mem_of_exists (hhead r hr)) ?_ hrun
    intro before raw after t hsplit ht
    change raws = before ++ raw :: after at hsplit
    refine hturn t raw ⟨before, after, hsplit, ?_⟩
    by_cases hb : before = []
    · subst hb
      exact Or.inl ⟨rfl, ok_inj ht⟩
    · right
      have hsub : before ⊆ raws := by
        rw [hsplit]
        exact List.subset_append_left _ _
      refine (addBlockHeaderBatch_eq_ok (fun a ha b hb => hcf a (hsub ha) b (hsub hb))).mpr
        ⟨hb, fun r hr => hfresh r (hsub hr), ?_, (hsplit ▸ hlinked).left_of_append, ht⟩
      intro r hr
      apply hhead r
      rw [hsplit, List.head?_append_of_ne_nil _ hb]
      exact hr

theorem growth_invariant (Inv : List Bytes → Storage → Prop)
    (hstep : ∀ log s raw s', TreeInv sha256 root log s → Inv log s →
      Grows sha256 root log s raw s' → P s (headerOf raw) → Inv (log ++ [raw]) s')
    {raws} (h : Growth sha256 P root log s raws s') (inv : TreeInv sha256 root log s)
    (hinv : Inv log s) : TreeInv sha256 root (log ++ raws) s' ∧ Inv (log ++ raws) s' := by
  induction h with
  | nil => simpa using ⟨inv, hinv⟩
  | cons hturn hgrows hrest ih =>
    have hnext := ih (inv.grow hgrows) (hstep _ _ _ _ inv hinv hgrows hturn)
    simpa using hnext

theorem run_invariant (Inv : List Bytes → Storage → Prop)
    (hstep : ∀ log s raw s', TreeInv sha256 root log s → Inv log s →
      Grows sha256 root log s raw s' → P s (headerOf raw) → Inv (log ++ [raw]) s')
    {calls} (inv : TreeInv sha256 root log s) (hinv : Inv log s)
    (hsound : SoundHashes sha256 (log ++ submitted calls)) (hturns : EveryTurn sha256 P s calls)
    (hrun : runAll (Call.exec sha256) s calls = .ok s') :
    TreeInv sha256 root (log ++ submitted calls) s' ∧ Inv (log ++ submitted calls) s' := by
  induction calls generalizing log s with
  | nil =>
    obtain rfl : s = s' := by simpa [runAll] using hrun
    simpa [submitted] using ⟨inv, hinv⟩
  | cons c cs ih =>
    obtain ⟨t, hexec, hrest⟩ := of_bind hrun
    have hsplit : submitted (c :: cs) = c.raws ++ submitted cs := by simp [submitted]
    rw [hsplit, ← List.append_assoc] at hsound
    have hgrowth := growth_of_exec inv (hsound.mono (List.subset_append_left _ _)) hturns.1 hexec
    obtain ⟨inv', hinv'⟩ := growth_invariant Inv hstep hgrowth inv hinv
    have hnext := ih inv' hinv' hsound (hturns.2 t hexec) hrest
    rwa [hsplit, ← List.append_assoc]

end Calls

def checkpointStorage (blockHash : Bytes32) (block : BlockData) : Storage where
  blocksData := Function.update (fun _ => default) blockHash block
  blocksHeightToBlockHash := Function.update (fun _ => 0) block.blockHeight blockHash
  mainchainHead := blockHash

theorem initGateway_eq_ok {raw height work s} : initGateway sha256 raw height work = .ok s ↔
      height.toNat % difficultyAdjustmentInterval = 0 ∧ raw.length = blockHeaderDataLength ∧
        s = checkpointStorage (hashOf sha256 raw) ⟨headerOf raw, height.toNat, work.toNat⟩ := by
  have hadd (header : HeaderData) (blockHash : Bytes32) :
      emptyStorage.addBlock header blockHash height.toNat work.toNat =
        .ok (checkpointStorage blockHash ⟨header, height.toNat, work.toNat⟩) :=
    Storage.addBlock_of_extends (Or.inr rfl)
  have hfresh (b : Bytes32) : emptyStorage.blockExists b = false := rfl
  simp only [initGateway, bind_eq_ok, require_eq_ok, Prod.exists, parseBlockHeaderRaw_eq_ok, hadd]
  constructor
  · rintro ⟨_, haligned, _, _, ⟨hlen, -, rfl, rfl⟩, hs⟩
    exact ⟨haligned, hlen, ok_inj hs⟩
  · rintro ⟨haligned, hlen, rfl⟩
    exact ⟨(), haligned, _, _, ⟨hlen, hfresh _, rfl, rfl⟩, rfl⟩

theorem treeInv_init {raw height work s}
    (h : initGateway sha256 raw height work = .ok s) : TreeInv sha256 raw [raw] s := by
  obtain ⟨-, -, rfl⟩ := initGateway_eq_ok.mp h
  have hhead : (checkpointStorage (hashOf sha256 raw)
      ⟨headerOf raw, height.toNat, work.toNat⟩).mainchainHead = hashOf sha256 raw := rfl
  have hmem {b : Bytes32} : b ∈ hashes sha256 [raw] ↔ b = hashOf sha256 raw := by simp [hashes]
  refine ⟨by simp, ?_, ?_, ?_, ?_, ?_, hmem.mpr rfl, ?_, ?_, ?_⟩
  · intro r hr
    obtain rfl : r = raw := by simpa using hr
    simp [Storage.Holds, blockOf, checkpointStorage]
  · intro b hb
    have hne : b ≠ hashOf sha256 raw := fun he => hb (hmem.mpr he)
    simp [checkpointStorage, hne]
  · intro r hr hne
    exact absurd (List.mem_singleton.mp hr) hne
  · intro r hr hne
    exact absurd (List.mem_singleton.mp hr) hne
  · intro r hr hne
    exact absurd (List.mem_singleton.mp hr) hne
  · intro b hb
    rw [hmem.mp hb, hhead]
  · intro b hb _
    rw [hmem.mp hb, hhead]
  · intro r hr hne
    exact absurd (List.mem_singleton.mp hr) hne

/-- A chain whose headers all have the lowest difficulty and the same time. -/
def plainHeader (n : ℕ) : HeaderData := mined n 1 (n + 1) lowestBits

def plainStorage (n : ℕ) : Storage where
  blocksData b := if 1 ≤ b.toNat ∧ b.toNat ≤ n + 1 then
      ⟨plainHeader (b.toNat - 1), b.toNat - 1, (b.toNat - 1) * lowestWork⟩ else default
  blocksHeightToBlockHash k := if k ≤ n then BitVec.ofNat 256 (k + 1) else 0
  mainchainHead := BitVec.ofNat 256 (n + 1)

def headerCalls (headers : List HeaderData) : List Call := headers.map fun header => .addBlockHeader (toRawBytes header)

@[irreducible] def plainCalls (n : ℕ) : List Call := headerCalls ((List.range n).map fun i => plainHeader (i + 1))

variable {n i : ℕ}

theorem hashOf_plainHeader (hn : n < 2 ^ 20) :
    hashOf nonceSha256 (toRawBytes (plainHeader n)) = BitVec.ofNat 256 (n + 1) := by
  rw [hashOf_toRawBytes]
  simp only [plainHeader, mined, UInt32.toNat_ofNat']
  rw [Nat.mod_eq_of_lt (by omega)]

theorem init_plain : initGateway nonceSha256 (toRawBytes (plainHeader 0)) 0 0 = .ok (plainStorage 0) := by
  refine initGateway_eq_ok.mpr ⟨by decide, toRawBytes_length _, ?_⟩
  rw [hashOf_plainHeader (by omega), headerOf_toRawBytes]
  simp only [plainStorage, checkpointStorage, Storage.mk.injEq, and_true]
  refine ⟨?_, ?_⟩
  · funext b
    by_cases hb : b = BitVec.ofNat 256 (0 + 1)
    · subst hb
      rfl
    · have hnat : ¬ (1 ≤ b.toNat ∧ b.toNat ≤ 0 + 1) := by
        intro h
        exact hb (BitVec.eq_of_toNat_eq (by simp; omega))
      rw [update_of_ne hb, if_neg hnat]
  · funext k
    by_cases hk : k = 0
    · subst hk
      rfl
    · rw [update_of_ne (by simpa using hk), if_neg (by omega)]

theorem plainStorage_blocksData (hi : i ≤ n) (hn : n < 2 ^ 20) :
    (plainStorage n).blocksData (BitVec.ofNat 256 (i + 1)) = ⟨plainHeader i, i, i * lowestWork⟩ := by
  have hnat : (BitVec.ofNat 256 (i + 1)).toNat = i + 1 := by rw [BitVec.toNat_ofNat, Nat.mod_eq_of_lt (by omega)]
  simp only [plainStorage, hnat]
  rw [if_pos ⟨by omega, by omega⟩, Nat.add_sub_cancel]

theorem plainStorage_succ (hn : n < 2 ^ 20) : plainStorage (n + 1) =
      ⟨update (plainStorage n).blocksData (BitVec.ofNat 256 (n + 1 + 1))
          ⟨plainHeader (n + 1), n + 1, (n + 1) * lowestWork⟩,
        update (plainStorage n).blocksHeightToBlockHash (n + 1) (BitVec.ofNat 256 (n + 1 + 1)),
        BitVec.ofNat 256 (n + 1 + 1)⟩ := by
  have hnat : (BitVec.ofNat 256 (n + 1 + 1)).toNat = n + 2 := by rw [BitVec.toNat_ofNat, Nat.mod_eq_of_lt (by omega)]
  rw [plainStorage, Storage.mk.injEq]
  refine ⟨?_, ?_, rfl⟩
  · funext b
    by_cases hb : b = BitVec.ofNat 256 (n + 1 + 1)
    · rw [hb, update_self, hnat, if_pos ⟨by omega, le_rfl⟩]
      rfl
    · have hne : b.toNat ≠ n + 2 := fun h => hb (BitVec.eq_of_toNat_eq (by rw [h, hnat]))
      rw [update_of_ne hb]
      exact if_congr (by omega) rfl rfl
  · funext k
    by_cases hk : k = n + 1
    · rw [hk, update_self, if_pos le_rfl]
    · rw [update_of_ne hk]
      exact if_congr (by omega) rfl rfl

theorem plain_ancestorTimes {k} (hk : k ≤ i + 1) (hi : i ≤ n) (hn : n < 2 ^ 20) :
    (plainStorage n).ancestorTimes k (BitVec.ofNat 256 (i + 1)) = List.replicate k 1 := by
  induction k generalizing i with
  | zero => rfl
  | succ k ih =>
    rw [Storage.ancestorTimes, Storage.getBlockHeaderTime, plainStorage_blocksData hi hn, List.replicate_succ]
    refine congrArg₂ _ rfl ?_
    obtain rfl | ⟨i, rfl⟩ : k = 0 ∨ ∃ j, i = j + 1 := by
      rcases i with - | i
      · exact Or.inl (by omega)
      · exact Or.inr ⟨i, rfl⟩
    · rfl
    · exact ih (by omega) (by omega)

theorem plain_median (hn : n < 2 ^ 20) : (plainStorage n).getStorageMedianTime (plainHeader (n + 1)) (n + 1) ≤ 1 := by
  by_cases hlong : medianPastBlocks < n + 1
  · rw [Storage.getStorageMedianTime_eq _ _ _ hlong]
    have htimes : (plainStorage n).ancestorTimes medianPastBlocks (plainHeader (n + 1)).prevBlockHash =
        List.replicate 11 1 := plain_ancestorTimes (Nat.le_of_lt hlong) le_rfl hn
    rw [htimes]
    decide
  · unfold Storage.getStorageMedianTime
    split_ifs with h1 h2
    · rfl
    · have hprev : (plainHeader (n + 1)).prevBlockHash = BitVec.ofNat 256 (n + 1) := rfl
      rw [hprev, Storage.getBlockHeaderTime, plainStorage_blocksData le_rfl hn]
      rfl
    · omega

theorem plain_step (hn : n + 1 < difficultyAdjustmentInterval) :
    addBlockHeader nonceSha256 (plainStorage n) (toRawBytes (plainHeader (n + 1))) = .ok (plainStorage (n + 1)) := by
  have hsmall : n + 1 < 2016 := hn
  have hhash := hashOf_plainHeader (n := n + 1) (by omega)
  have hprev : (plainHeader (n + 1)).prevBlockHash = BitVec.ofNat 256 (n + 1) := rfl
  have hdata := plainStorage_blocksData (n := n) le_rfl (by omega)
  have hnat : (BitVec.ofNat 256 (n + 1 + 1)).toNat = n + 2 := by rw [BitVec.toNat_ofNat, Nat.mod_eq_of_lt (by omega)]
  rw [addBlockHeader_eq_ok, hhash, headerOf_toRawBytes]
  have hheight : (plainStorage n).nextHeight (plainHeader (n + 1)) = n + 1 := by
    rw [Storage.nextHeight, hprev, Storage.getBlockHeight, hdata]
  have hwork : (plainStorage n).nextWork (plainHeader (n + 1)) = (n + 1) * lowestWork := by
    rw [Storage.nextWork, hprev, Storage.getBlockCumulativeWork, hdata, Nat.succ_mul]
    rfl
  have hboundary : isTargetAdjustmentBlock (n + 1) = false := by
    have hmod : (n + 1) % difficultyAdjustmentInterval = n + 1 := Nat.mod_eq_of_lt hn
    simp [isTargetAdjustmentBlock, getEpochBlockNumber, hmod]
  refine ⟨⟨toRawBytes_length _, ?_⟩, ?_, ?_⟩
  · simp [Storage.blockExists, Storage.getBlockHeaderTime, plainStorage, hnat]
    rfl
  · rw [hprev, Storage.blockExists, Storage.getBlockHeaderTime, hdata]
    rfl
  · refine ⟨?_, ?_, ?_, ?_, ?_, ?_⟩
    · omega
    · rw [hheight, Storage.retargetIfEpochBoundary, hboundary, hprev, Storage.getBlockTarget, hdata]
      rfl
    · rw [BitVec.le_def, hnat]
      have htarget : (bitsToTarget lowestBits).toNat = 0xffff * 256 ^ 26 := by decide
      exact le_trans (by omega) htarget.ge
    · rw [hheight]
      exact plain_median (by omega)
    · have hlowest : lowestWork = 4295032833 := by decide
      rw [hwork, hlowest]
      omega
    · rw [hheight, hwork, Storage.addBlock_of_extends (Or.inl hprev)]
      exact congrArg _ (plainStorage_succ (by omega)).symm

theorem plainCalls_succ (n : ℕ) : plainCalls (n + 1) =
    plainCalls n ++ [.addBlockHeader (toRawBytes (plainHeader (n + 1)))] := by
  simp [plainCalls, headerCalls, List.range_succ]

theorem plain_run (hn : n < difficultyAdjustmentInterval) :
    runAll (Call.exec nonceSha256) (plainStorage 0) (plainCalls n) = .ok (plainStorage n) := by
  induction n with
  | zero => simp [plainCalls, headerCalls, runAll]
  | succ n ih =>
    rw [plainCalls_succ, runAll_append, ih (by omega)]
    have hstep := plain_step hn
    simp only [ok_bind, runAll, Call.exec, hstep]

theorem plain_everyTurn {P}
    (hn : n < difficultyAdjustmentInterval) (h : ∀ i < n, P (plainStorage i) (plainHeader (i + 1))) :
    EveryTurn nonceSha256 P (plainStorage 0) (plainCalls n) := by
  induction n with
  | zero => simp [plainCalls, headerCalls, EveryTurn]
  | succ n ih =>
    rw [plainCalls_succ, everyTurn_append]
    refine ⟨ih (by omega) (fun i hi => h i (by omega)), fun s hs => ⟨?_, fun _ _ => trivial⟩⟩
    rintro t raw ⟨rfl, rfl⟩
    rw [plain_run (by omega)] at hs
    rw [← Except.ok.inj hs, headerOf_toRawBytes]
    exact h n (by omega)

theorem submitted_headerCalls (headers : List HeaderData) :
    submitted (headerCalls headers) = headers.map toRawBytes := by
  induction headers with
  | nil => rfl
  | cons header headers ih =>
    simp only [submitted, headerCalls, List.map_cons, List.flatMap_cons] at ih ⊢
    rw [ih]
    rfl

theorem submitted_append (cs ds : List Call) :
    submitted (cs ++ ds) = submitted cs ++ submitted ds := List.flatMap_append

theorem mem_submitted (calls : List Call) {headers header}
    (h : header ∈ headers) : toRawBytes header ∈ submitted (calls ++ headerCalls headers) := by
  rw [submitted_append, submitted_headerCalls]
  exact List.mem_append_right _ (List.mem_map_of_mem h)

theorem toRawBytes_inj {a b} (h : toRawBytes a = toRawBytes b) : a = b := by
  rw [← headerOf_toRawBytes a, h, headerOf_toRawBytes]

theorem nonce_mem_hashes (calls : List Call) (raw0 : Bytes) {headers header} (h : header ∈ headers) :
    BitVec.ofNat 256 header.nonce.toNat ∈ hashes nonceSha256 (raw0 :: submitted (calls ++ headerCalls headers)) := by
  rw [← hashOf_toRawBytes]
  exact hash_mem (List.mem_cons_of_mem _ (mem_submitted calls h))

theorem soundHashes_of_nonces {headers : List HeaderData}
    (hnodup : (headers.map HeaderData.nonce).Nodup) (hpos : ∀ header ∈ headers, header.nonce ≠ 0) :
    SoundHashes nonceSha256 (headers.map toRawBytes) := by
  refine ⟨collisionFree_of_nonces hnodup, ?_⟩
  intro a ha
  obtain ⟨x, hx, rfl⟩ := List.mem_map.mp ha
  rw [hashOf_toRawBytes]
  exact fun he => hpos x hx (nonceWord_inj he)

theorem soundHashes_plain (hn : n < difficultyAdjustmentInterval) (forks : List HeaderData)
    (hnodup : (forks.map HeaderData.nonce).Nodup) (hlarge : ∀ header ∈ forks, 2 ^ 16 ≤ header.nonce.toNat) :
    SoundHashes nonceSha256 (toRawBytes (plainHeader 0) :: submitted (plainCalls n ++ headerCalls forks)) := by
  have hsmall : n < 2016 := hn
  have hlog : toRawBytes (plainHeader 0) :: submitted (plainCalls n ++ headerCalls forks) =
      ((List.range (n + 1)).map plainHeader ++ forks).map toRawBytes := by
    rw [submitted_append, plainCalls, submitted_headerCalls, submitted_headerCalls, List.range_succ_eq_map]
    simp
  have hnonce (i : ℕ) (hi : i ≤ n) : (plainHeader i).nonce.toNat = i + 1 := by
    simp only [plainHeader, mined, UInt32.toNat_ofNat']
    rw [Nat.mod_eq_of_lt (by omega)]
  have hplain (header : HeaderData) (h : header ∈ (List.range (n + 1)).map plainHeader) :
      0 < header.nonce.toNat ∧ header.nonce.toNat < 2 ^ 16 := by
    obtain ⟨i, hi, rfl⟩ := List.mem_map.mp h
    have hi := List.mem_range.mp hi
    rw [hnonce i (by omega)]
    omega
  rw [hlog]
  refine soundHashes_of_nonces ?_ ?_
  · rw [List.map_append, List.nodup_append]
    refine ⟨?_, hnodup, ?_⟩
    · rw [List.map_map]
      refine List.Nodup.map_on ?_ List.nodup_range
      intro i hi j hj he
      have hnat : (plainHeader i).nonce.toNat = (plainHeader j).nonce.toNat := congrArg UInt32.toNat he
      have hi := List.mem_range.mp hi
      have hj := List.mem_range.mp hj
      rw [hnonce i (by omega), hnonce j (by omega)] at hnat
      omega
    · intro a ha b hb he
      obtain ⟨x, hx, rfl⟩ := List.mem_map.mp ha
      obtain ⟨y, hy, rfl⟩ := List.mem_map.mp hb
      have hxs := hplain x hx
      have hyl := hlarge y hy
      rw [he] at hxs
      omega
  · intro header h hz
    rcases List.mem_append.mp h with h | h
    · have hpos := (hplain header h).1
      rw [hz] at hpos
      exact absurd hpos (by decide)
    · have hbig := hlarge header h
      rw [hz] at hbig
      exact absurd hbig (by decide)

theorem plain_epoch : SoundHashes nonceSha256 (toRawBytes (plainHeader 0) :: submitted (plainCalls 2015)) ∧
    runAll (Call.exec nonceSha256) (plainStorage 0) (plainCalls 2015) = .ok (plainStorage 2015) := by
  have hsound := soundHashes_plain (n := 2015) (by decide) [] List.nodup_nil (by simp)
  rw [headerCalls, List.map_nil, List.append_nil] at hsound
  exact ⟨hsound, plain_run (by decide)⟩

variable {sha256 : Bytes → Bytes32}

theorem everyTurn_trivial (s : Storage) (calls : List Call) : EveryTurn sha256 (fun _ _ => True) s calls := by
  induction calls generalizing s with
  | nil => trivial
  | cons c cs ih => exact ⟨fun _ _ _ => trivial, fun s' _ => ih s'⟩

theorem treeInv_of_run {raw0 height0 work0 s0 s calls} (hinit : initGateway sha256 raw0 height0 work0 = .ok s0)
    (hsound : SoundHashes sha256 (raw0 :: submitted calls)) (hrun : runAll (Call.exec sha256) s0 calls = .ok s) :
    TreeInv sha256 raw0 (raw0 :: submitted calls) s :=
  (run_invariant (fun _ _ => True) (fun _ _ _ _ _ _ _ _ => trivial) (treeInv_init hinit) trivial hsound
    (everyTurn_trivial s0 calls) hrun).1

theorem TreeInv.exists_raw {root log s b} (inv : TreeInv sha256 root log s) (hb : b ∈ hashes sha256 log)
    (hne : b ≠ hashOf sha256 root) :
    ∃ raw ∈ log, raw ≠ root ∧ hashOf sha256 raw = b ∧ (s.blocksData b).toHeaderData = headerOf raw := by
  obtain ⟨raw, hraw, rfl⟩ := List.mem_map.mp hb
  exact ⟨raw, hraw, fun he => hne (by rw [he]), rfl, inv.holds raw hraw⟩

theorem mainchainHead_is_heaviest (raw0 : Bytes) (height0 : UInt64) (work0 : BitVec 256)
    (s0 s : Storage) (calls : List Call) (hinit : initGateway sha256 raw0 height0 work0 = .ok s0)
    (hsound : SoundHashes sha256 (raw0 :: submitted calls)) (hrun : runAll (Call.exec sha256) s0 calls = .ok s) :
    (∀ b, b ∉ hashes sha256 (raw0 :: submitted calls) → s.blocksData b = default) ∧
    (∀ b ∈ hashes sha256 (raw0 :: submitted calls), b ≠ hashOf sha256 raw0 →
      (s.blocksData b).prevBlockHash ∈ hashes sha256 (raw0 :: submitted calls) ∧
      s.getBlockCumulativeWork b = s.getBlockCumulativeWork (s.blocksData b).prevBlockHash +
        countBlockWork (bitsToTarget (s.blocksData b).bits) ∧
      s.getBlockHeight b = s.getBlockHeight (s.blocksData b).prevBlockHash + 1) ∧
    s.mainchainHead ∈ hashes sha256 (raw0 :: submitted calls) ∧ ∀ b ∈ hashes sha256 (raw0 :: submitted calls),
      s.getBlockCumulativeWork b ≤ s.getBlockCumulativeWork s.mainchainHead ∧
      (s.getBlockCumulativeWork b = s.getBlockCumulativeWork s.mainchainHead →
        (hashes sha256 (raw0 :: submitted calls)).idxOf s.mainchainHead ≤
          (hashes sha256 (raw0 :: submitted calls)).idxOf b) := by
  have inv := treeInv_of_run hinit hsound hrun
  refine ⟨inv.untouched, ?_, inv.head_mem, fun b hb => ⟨inv.head_max b hb, inv.head_first b hb⟩⟩
  intro b hb hne
  obtain ⟨raw, hraw, hraw_ne, rfl, hheader⟩ := inv.exists_raw hb hne
  rw [hheader]
  exact ⟨inv.parent_mem raw hraw hraw_ne, inv.work_eq raw hraw hraw_ne, inv.height_eq raw hraw hraw_ne⟩

theorem plain_head_is_heaviest :
    runAll (Call.exec nonceSha256) (plainStorage 0) (plainCalls 2015) = .ok (plainStorage 2015) ∧
    ∀ b ∈ hashes nonceSha256 (toRawBytes (plainHeader 0) :: submitted (plainCalls 2015)),
      (plainStorage 2015).getBlockCumulativeWork b ≤ (plainStorage 2015).getBlockCumulativeWork 2016 := by
  obtain ⟨hsound, hrun⟩ := plain_epoch
  have h := mainchainHead_is_heaviest _ 0 0 _ _ _ init_plain hsound hrun
  exact ⟨hrun, fun b hb => (h.2.2.2 b hb).1⟩

/-- The work that was done for a header, and the target that it has from its parent within an epoch. -/
def Mined (sha256 : Bytes → Bytes32) (s : Storage) (raw : Bytes) : Prop :=
  hashOf sha256 raw ≤ bitsToTarget (headerOf raw).bits ∧
    (isTargetAdjustmentBlock (s.nextHeight (headerOf raw)) = false →
      bitsToTarget (headerOf raw).bits = s.getBlockTarget (headerOf raw).prevBlockHash)

theorem Storage.Accepts.mined {s s' : Storage} {raw}
    (h : s.Accepts (headerOf raw) (hashOf sha256 raw) s') : Mined sha256 s raw := by
  refine ⟨h.hash_le, fun hwithin => ?_⟩
  have htarget := h.target_eq
  rw [retargetIfEpochBoundary, hwithin] at htarget
  exact ok_inj htarget

theorem Grows.mined_iff {root raw log s s' r} (g : Grows sha256 root log s raw s') (hraw : raw ∉ log)
    (hparent : (headerOf r).prevBlockHash ∈ hashes sha256 log) : Mined sha256 s' r ↔ Mined sha256 s r := by
  simp only [Mined, g.nextHeight_eq hraw hparent, Storage.getBlockTarget, g.data_of_mem hraw hparent]

theorem Grows.mined {root raw log s s'} (inv : TreeInv sha256 root log s)
    (hlog : ∀ r ∈ log, r ≠ root → Mined sha256 s r) (g : Grows sha256 root log s raw s') :
    ∀ r ∈ log ++ [raw], r ≠ root → Mined sha256 s' r := by
  intro r hr hne
  by_cases hraw : raw ∈ log
  · rw [inv.readded g hraw]
    exact hlog r ((TreeInv.mem_log_append.mp hr).elim id (· ▸ hraw)) hne
  · rcases TreeInv.mem_log_append.mp hr with hr | rfl
    · exact (g.mined_iff hraw (inv.parent_mem r hr hne)).mpr (hlog r hr hne)
    · exact (g.mined_iff hraw g.parent_mem).mpr g.accepts.mined

/-- A stored block has the work of the target that it names, which is its parent's but at the start of an epoch. -/
theorem stored_blocks_mined (raw0 : Bytes) (height0 : UInt64) (work0 : BitVec 256) (s0 s : Storage) (calls : List Call)
    (hinit : initGateway sha256 raw0 height0 work0 = .ok s0) (hsound : SoundHashes sha256 (raw0 :: submitted calls))
    (hrun : runAll (Call.exec sha256) s0 calls = .ok s) :
    ∀ b ∈ hashes sha256 (raw0 :: submitted calls), b ≠ hashOf sha256 raw0 → b ≤ s.getBlockTarget b ∧
      (isTargetAdjustmentBlock (s.getBlockHeight b) = false →
        s.getBlockTarget b = s.getBlockTarget (s.blocksData b).prevBlockHash) := by
  obtain ⟨inv, hmined⟩ := run_invariant (fun log t => ∀ raw ∈ log, raw ≠ raw0 → Mined sha256 t raw)
    (fun _ _ _ _ inv hlog g _ => g.mined inv hlog) (treeInv_init hinit) (by simp) hsound
    (everyTurn_trivial s0 calls) hrun
  intro b hb hne
  obtain ⟨raw, hraw, hraw_ne, rfl, hheader⟩ := inv.exists_raw hb hne
  rw [inv.height_eq raw hraw hraw_ne, Storage.getBlockTarget, hheader]
  exact hmined raw hraw hraw_ne

theorem stored_blocks_mined_plain :
    runAll (Call.exec nonceSha256) (plainStorage 0) (plainCalls 2015) = .ok (plainStorage 2015) ∧
    ∀ b ∈ hashes nonceSha256 (toRawBytes (plainHeader 0) :: submitted (plainCalls 2015)),
      b ≠ hashOf nonceSha256 (toRawBytes (plainHeader 0)) → b ≤ (plainStorage 2015).getBlockTarget b := by
  obtain ⟨hsound, hrun⟩ := plain_epoch
  have h := stored_blocks_mined _ 0 0 _ _ _ init_plain hsound hrun
  exact ⟨hrun, fun b hb hne => (h b hb hne).1⟩

end QuidProtocol.Spv
