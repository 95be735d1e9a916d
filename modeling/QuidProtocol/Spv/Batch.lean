import QuidProtocol.Spv.Gateway

/-!
A batch carries along what the store would answer for the parent, and accepts header by header.
-/

namespace QuidProtocol.Spv

open Lib

abbrev Block := HeaderData × Bytes32

def Storage.accept (s : Storage) (block : Block) : Gateway Storage := s.acceptBlock block.1 block.2

def LinkedBlocks : List Block → Prop := List.IsChain fun a b => b.1.prevBlockHash = a.2

def Storage.Holds (s : Storage) (block : Block) : Prop := (s.blocksData block.2).toHeaderData = block.1

namespace Storage

variable {s s' : Storage} {header : HeaderData} {blockHash : Bytes32}

theorem Accepts.holds (h : s.Accepts header blockHash s') : s'.Holds (header, blockHash) := by
  simp [Holds, h.blocksData_self]

theorem Accepts.holds_of_holds (h : s.Accepts header blockHash s') {block}
    (hb : s.Holds block) (hsame : block.2 = blockHash → block.1 = header) : s'.Holds block := by
  by_cases he : block.2 = blockHash
  · simp [Holds, he, h.blocksData_self, hsame he]
  · rw [Holds, h.blocksData_of_ne he]
    exact hb

theorem ancestorTimes_of_linked (s : Storage) (window : List Block) (p : Bytes32)
    (hheld : ∀ block ∈ window, s.Holds block) (hlinked : LinkedBlocks window)
    (hlast : ∀ block ∈ window.getLast?, p = block.2) : s.ancestorTimes window.length p =
      (window.map (fun block => block.1.time.toNat)).reverse := by
  induction window using List.reverseRecOn generalizing p with
  | nil => rfl
  | append_singleton window block ih =>
    obtain rfl : p = block.2 := hlast block (by simp)
    have hstored : s.Holds block := hheld block (by simp)
    obtain ⟨hfront, -, hjoin⟩ := List.isChain_append.mp hlinked
    have hprev : (s.blocksData block.2).prevBlockHash = block.1.prevBlockHash := by rw [← hstored]
    have htime : s.getBlockHeaderTime block.2 = block.1.time.toNat := by rw [getBlockHeaderTime, ← hstored]
    have hrest := ih block.1.prevBlockHash (fun b hb => hheld b (by simp [hb])) hfront
      (fun b hb => hjoin b hb block (by simp))
    rw [List.length_append, List.length_singleton, ancestorTimes, htime, hprev, hrest]
    simp

end Storage

variable {header : HeaderData} {s t : Storage} {previous : Option Bytes32} {raws : List Bytes}

theorem memoryMedian_eq_storageMedian {past rest blockHash height} (hpast : medianPastBlocks ≤ past.length)
    (hheight : medianPastBlocks < height) (hheld : ∀ block ∈ past, s.Holds block)
    (hlinked : LinkedBlocks (past ++ (header, blockHash) :: rest)) :
    getMemoryMedianTime ((past ++ (header, blockHash) :: rest).map Prod.fst) past.length =
      s.getStorageMedianTime header height := by
  have hlen : medianPastBlocks ≤ ((past ++ (header, blockHash) :: rest).map Prod.fst).length := by
    simp only [List.length_map, List.length_append]
    omega
  rw [s.getStorageMedianTime_eq header height hheight, getMemoryMedianTime_eq _ _ hlen]
  -- the window is what the past ends with
  let front := past.take (past.length - medianPastBlocks)
  let window := past.drop (past.length - medianPastBlocks)
  have hsplit : front ++ window = past := List.take_append_drop _ _
  have hwindow : window.length = medianPastBlocks := by simp only [window, List.length_drop]; omega
  have htake : (((past ++ (header, blockHash) :: rest).map Prod.fst).drop
      (past.length - medianPastBlocks)).take medianPastBlocks = window.map Prod.fst := by
    rw [← List.map_drop, ← List.map_take, List.drop_append_of_le_length (by omega), List.take_left' hwindow]
  obtain ⟨hchain, -, hjoin⟩ := List.isChain_append.mp hlinked
  rw [← hsplit] at hchain hjoin
  have hne : window ≠ [] := by
    intro he
    rw [he] at hwindow
    simp [medianPastBlocks] at hwindow
  have hancestors := s.ancestorTimes_of_linked window header.prevBlockHash
    (fun b hb => hheld b (List.mem_of_mem_drop hb)) (List.isChain_append.mp hchain).2.1
    (fun b hb => hjoin b (by simpa [List.getLast?_append_of_ne_nil _ hne] using hb) _ rfl)
  rw [hwindow] at hancestors
  rw [hancestors, List.reverse_reverse, htake, List.map_map]
  rfl

theorem batchLoop_cons_eq_ok {headers first i target blockHash rest}
    (htarget : target = s.getBlockTarget header.prevBlockHash) (hheight : first + i = s.nextHeight header)
    (hmedian : medianPastBlocks ≤ i → getMemoryMedianTime headers i =
      s.getStorageMedianTime header (s.nextHeight header)) :
    batchLoop headers first i target s ((header, blockHash) :: rest) = .ok t ↔ ∃ s', s.Accepts header blockHash s' ∧
        batchLoop headers first (i + 1) (bitsToTarget header.bits) s' rest = .ok t := by
  have hcarried : (if i < medianPastBlocks then s.getStorageMedianTime header (s.nextHeight header)
      else getMemoryMedianTime headers i) = s.getStorageMedianTime header (s.nextHeight header) := by
    split_ifs with hi
    · rfl
    · exact hmedian (by omega)
  simp only [batchLoop, bind_eq_ok, checkedAdd_eq_ok, validateBlockRules_eq_ok,
    Storage.nextCumulativeWork, hheight, htarget]
  constructor
  · rintro ⟨_, ⟨hlt, rfl⟩, _, htarget, _, ⟨rfl, hhash, hmed⟩, _, ⟨hwork, rfl⟩, s', hadd, hrest⟩
    rw [hcarried] at hmed
    exact ⟨s', ⟨hlt, htarget, hhash, hmed, hwork, hadd⟩, hrest⟩
  · rintro ⟨s', hacc, hrest⟩
    refine ⟨_, ⟨hacc.height_lt, rfl⟩, _, hacc.target_eq, (), ⟨rfl, hacc.hash_le, ?_⟩, _,
      ⟨hacc.work_lt, rfl⟩, s', hacc.added, hrest⟩
    rw [hcarried]
    exact hacc.median_le

theorem batchLoop_eq_ok (headers : List HeaderData) (first : ℕ) (hfirst : 0 < first)
    (past rest : List Block) (target s t) (hheaders : headers = (past ++ rest).map Prod.fst)
    (hlinked : LinkedBlocks (past ++ rest)) (hsame : ∀ a ∈ past ++ rest, ∀ b ∈ past ++ rest, a.2 = b.2 → a.1 = b.1)
    (hheld : ∀ block ∈ past, s.Holds block)
    (hnext : ∀ block ∈ rest.head?, target = s.getBlockTarget block.1.prevBlockHash ∧
      first + past.length = s.nextHeight block.1) : batchLoop headers first past.length target s rest = .ok t ↔
      runAll Storage.accept s rest = .ok t := by
  induction rest generalizing past target s with
  | nil => rfl
  | cons block rest ih =>
    obtain ⟨header, blockHash⟩ := block
    obtain ⟨htarget, hheight⟩ : target = s.getBlockTarget header.prevBlockHash ∧
      first + past.length = s.nextHeight header := hnext (header, blockHash) rfl
    have hmedian : medianPastBlocks ≤ past.length → getMemoryMedianTime headers past.length =
        s.getStorageMedianTime header (s.nextHeight header) := by
      intro hi
      rw [hheaders]
      exact memoryMedian_eq_storageMedian hi (by omega) hheld hlinked
    have happend : past ++ (header, blockHash) :: rest = (past ++ [(header, blockHash)]) ++ rest := by simp
    have hrest : ∀ s', s.Accepts header blockHash s' →
        (batchLoop headers first (past.length + 1) (bitsToTarget header.bits) s' rest = .ok t ↔
          runAll Storage.accept s' rest = .ok t) := by
      intro s' hacc
      have h := ih (past ++ [(header, blockHash)]) (bitsToTarget header.bits) s'
        (by rw [hheaders, happend]) (happend ▸ hlinked) (happend ▸ hsame) ?_ ?_
      · simpa using h
      · intro b hb
        rcases List.mem_append.mp hb with hb | hb
        · exact hacc.holds_of_holds (hheld b hb) (hsame b (by simp [hb]) (header, blockHash) (by simp))
        · obtain rfl : b = (header, blockHash) := by simpa using hb
          exact hacc.holds
      · intro b hb
        have hjoin := (List.isChain_append.mp hlinked).2.1
        have hprev : b.1.prevBlockHash = blockHash := by
          cases rest with
          | nil => simp at hb
          | cons c =>
            obtain rfl : c = b := by simpa using hb
            exact (List.isChain_cons_cons.mp hjoin).1
        rw [hprev, Storage.nextHeight, hprev]
        simp only [Storage.getBlockTarget, Storage.getBlockHeight, hacc.blocksData_self,
          List.length_append, List.length_singleton, true_and]
        omega
    rw [batchLoop_cons_eq_ok htarget hheight hmedian]
    simp only [runAll, bind_eq_ok, Storage.accept, Storage.acceptBlock_eq_ok]
    constructor
    · rintro ⟨s', hacc, h⟩
      exact ⟨s', hacc, (hrest s' hacc).mp h⟩
    · rintro ⟨s', hacc, h⟩
      exact ⟨s', hacc, (hrest s' hacc).mpr h⟩

variable {sha256 : Bytes → Bytes32}

def blockOf (sha256 : Bytes → Bytes32) (raw : Bytes) : Block := (headerOf raw, hashOf sha256 raw)

def Linked (sha256 : Bytes → Bytes32) (raws : List Bytes) : Prop :=
  raws.IsChain fun a b => (headerOf b).prevBlockHash = hashOf sha256 a

def CollisionFree (sha256 : Bytes → Bytes32) (raws : List Bytes) : Prop :=
  ∀ a ∈ raws, ∀ b ∈ raws, hashOf sha256 a = hashOf sha256 b → a = b

def Fresh (sha256 : Bytes → Bytes32) (s : Storage) (raws : List Bytes) : Prop :=
  ∀ raw ∈ raws, raw.length = blockHeaderDataLength ∧ s.blockExists (hashOf sha256 raw) = false

def Follows (s : Storage) (previous : Option Bytes32) (prevBlockHash : Bytes32) : Prop :=
  match previous with
  | none => s.blockExists prevBlockHash = true
  | some last => prevBlockHash = last

theorem requireLinked_eq_ok {u} :
    requireLinked s previous header = .ok u ↔ Follows s previous header.prevBlockHash := by
  cases previous with
  | none | some last => exact require_eq_ok

theorem parseBlockHeadersRaw_eq_ok {blocks} : parseBlockHeadersRaw sha256 s previous raws = .ok blocks ↔
      Fresh sha256 s raws ∧ (∀ raw ∈ raws.head?, Follows s previous (headerOf raw).prevBlockHash) ∧
        Linked sha256 raws ∧ blocks = raws.map (blockOf sha256) := by
  induction raws generalizing previous blocks with
  | nil =>
    simp only [parseBlockHeadersRaw, Fresh, Linked, Except.ok.injEq, List.not_mem_nil,
      List.head?_nil, Option.mem_def, reduceCtorEq, List.map_nil, IsEmpty.forall_iff, implies_true,
      List.IsChain.nil, true_and]
    exact eq_comm
  | cons raw raws ih =>
    simp only [parseBlockHeadersRaw, bind_eq_ok, Prod.exists, requireLinked_eq_ok, ih]
    constructor
    · rintro ⟨header, blockHash, hparse, _, hfollows, rest, ⟨hfresh, hhead, hlinked, rfl⟩, hblocks⟩
      obtain ⟨hl, hnew, rfl, rfl⟩ := parseBlockHeaderRaw_eq_ok.mp hparse
      refine ⟨List.forall_mem_cons.mpr ⟨⟨hl, hnew⟩, hfresh⟩, ?_, List.isChain_cons.mpr ⟨hhead, hlinked⟩, ?_⟩
      · simpa using hfollows
      · simpa [blockOf, eq_comm] using hblocks
    · rintro ⟨hfresh, hhead, hlinked, rfl⟩
      obtain ⟨⟨hl, hnew⟩, hfresh⟩ := List.forall_mem_cons.mp hfresh
      obtain ⟨hnext, hlinked⟩ := List.isChain_cons.mp hlinked
      exact ⟨_, _, parseBlockHeaderRaw_eq_ok.mpr ⟨hl, hnew, rfl, rfl⟩, (), hhead raw rfl, _,
        ⟨hfresh, hnext, hlinked, rfl⟩, rfl⟩

theorem linkedBlocks_map (h : Linked sha256 raws) : LinkedBlocks (raws.map (blockOf sha256)) := by
  unfold LinkedBlocks
  rw [List.isChain_map]
  exact h

theorem addBlockHeaderBatch_eq_ok (hcf : CollisionFree sha256 raws) : addBlockHeaderBatch sha256 s raws = .ok t ↔
      raws ≠ [] ∧ Fresh sha256 s raws ∧ (∀ raw ∈ raws.head?, s.blockExists (headerOf raw).prevBlockHash = true) ∧
        Linked sha256 raws ∧ runAll Storage.accept s (raws.map (blockOf sha256)) = .ok t := by
  have hsame : ∀ a ∈ raws.map (blockOf sha256), ∀ b ∈ raws.map (blockOf sha256), a.2 = b.2 → a.1 = b.1 := by
    intro a ha b hb he
    obtain ⟨x, hx, rfl⟩ := List.mem_map.mp ha
    obtain ⟨y, hy, rfl⟩ := List.mem_map.mp hb
    rw [hcf x hx y hy he]
  cases raws with
  | nil => simp [addBlockHeaderBatch, require]
  | cons raw raws =>
    have hloop (hlinked : Linked sha256 (raw :: raws)) := batchLoop_eq_ok
      (((raw :: raws).map (blockOf sha256)).map Prod.fst) (s.nextHeight (headerOf raw))
      (Nat.succ_pos _) [] ((raw :: raws).map (blockOf sha256))
      (s.getBlockTarget (headerOf raw).prevBlockHash) s t rfl (linkedBlocks_map hlinked) hsame
      (by simp) (by simp [blockOf])
    simp only [addBlockHeaderBatch, bind_eq_ok, require_eq_ok, parseBlockHeadersRaw_eq_ok]
    constructor
    · rintro ⟨_, _, _, ⟨hfresh, hhead, hlinked, rfl⟩, h⟩
      refine ⟨by simp, hfresh, hhead, hlinked, ?_⟩
      simp only [List.map_cons, blockOf, bind_eq_ok, checkedAdd_eq_ok] at h
      obtain ⟨_, ⟨hlt, rfl⟩, h⟩ := h
      exact (hloop hlinked).mp h
    · rintro ⟨_, hfresh, hhead, hlinked, h⟩
      refine ⟨(), by simp, _, ⟨hfresh, hhead, hlinked, rfl⟩, ?_⟩
      have hfirst : s.nextHeight (headerOf raw) < 2 ^ 64 := by
        obtain ⟨s', hs', -⟩ := of_bind h
        exact (Storage.acceptBlock_eq_ok.mp hs').height_lt
      simp only [List.map_cons, blockOf, bind_eq_ok, checkedAdd_eq_ok]
      exact ⟨_, ⟨hfirst, rfl⟩, (hloop hlinked).mpr h⟩

/-- A hash under which the hash of a header is its nonce, so that runs can be computed. -/
def nonceSha256 (bs : Bytes) : Bytes32 :=
  if bs.length = blockHeaderDataLength then bytes32 (slice bs 76 80 ++ List.replicate 28 0)
  else bytes32 bs

theorem ofBytesLE_replicate_zero (n : ℕ) : ofBytesLE (List.replicate n 0) = 0 := by
  induction n with
  | zero => rfl
  | succ n ih => simp [List.replicate_succ, ofBytesLE, ih]

theorem hashOf_toRawBytes (header : HeaderData) :
    hashOf nonceSha256 (toRawBytes header) = BitVec.ofNat 256 header.nonce.toNat := by
  have hlt := header.nonce.toNat_lt
  have hslice := slice_nonce header
  set bs := slice (toRawBytes header) 76 80 ++ List.replicate 28 (0 : UInt8) with hbs
  have hlen : bs.length = 32 := by simp [hbs, hslice]
  have hinner : nonceSha256 (toRawBytes header) = bytes32 bs := by rw [nonceSha256, if_pos (toRawBytes_length header)]
  have hnat : (bytes32 bs).toNat = ofBytesBE bs := by
    have hbound := ofBytesBE_lt bs
    rw [hlen] at hbound
    rw [bytes32, BitVec.toNat_ofNat]
    exact Nat.mod_eq_of_lt (hbound.trans_eq (by norm_num))
  have houter : nonceSha256 (toBytesBE 32 (bytes32 bs).toNat) = bytes32 bs := by
    rw [hnat, ← hlen, toBytesBE_ofBytesBE, nonceSha256, if_neg (by rw [hlen]; decide)]
  rw [hashOf, hinner, houter, bytes32LEtoBE_bytes32 hlen, hbs, hslice, ofBytesLE_append,
    ofBytesLE_toBytesLE, ofBytesLE_replicate_zero, Nat.mul_zero, Nat.add_zero,
    Nat.mod_eq_of_lt (hlt.trans_eq (by norm_num))]

theorem nonceWord_inj {x y : UInt32} (h : BitVec.ofNat 256 x.toNat = BitVec.ofNat 256 y.toNat) : x = y := by
  have hx := x.toNat_lt
  have hy := y.toNat_lt
  have hnat := congrArg BitVec.toNat h
  rw [BitVec.toNat_ofNat, BitVec.toNat_ofNat, Nat.mod_eq_of_lt (by omega), Nat.mod_eq_of_lt (by omega)] at hnat
  exact UInt32.toNat_inj.mp hnat

theorem collisionFree_of_nonces {headers : List HeaderData} (hnodup : (headers.map HeaderData.nonce).Nodup) :
    CollisionFree nonceSha256 (headers.map toRawBytes) := by
  intro a ha b hb he
  obtain ⟨x, hx, rfl⟩ := List.mem_map.mp ha
  obtain ⟨y, hy, rfl⟩ := List.mem_map.mp hb
  rw [hashOf_toRawBytes, hashOf_toRawBytes] at he
  rw [List.inj_on_of_nodup_map hnodup hx hy (nonceWord_inj he)]

def lowestBits : BitVec 32 := 0x1d00ffff

def lowestWork : ℕ := countBlockWork (bitsToTarget lowestBits)

def mined (prev : ℕ) (time : UInt32) (nonce : ℕ) (bits : BitVec 32) : HeaderData :=
  ⟨BitVec.ofNat 256 prev, 0, 0, time, UInt32.ofNat nonce, bits⟩

theorem fresh_after {s s' raw raws}
    (hacc : s.Accepts (headerOf raw) (hashOf sha256 raw) s') (htime : raws ≠ [] → 0 < (headerOf raw).time.toNat) :
    Fresh sha256 s' raws ↔ Fresh sha256 s raws ∧ hashOf sha256 raw ∉ raws.map (hashOf sha256) := by
  have hexists (b : Bytes32) (hne : raws ≠ []) :
      s'.blockExists b = false ↔ b ≠ hashOf sha256 raw ∧ s.blockExists b = false := by
    rw [← Bool.not_eq_true, hacc.blockExists_iff]
    split_ifs with hb
    · simp [hb, htime hne]
    · simp [hb]
  constructor
  · intro h
    refine ⟨fun r hr => ⟨(h r hr).1, ?_⟩, ?_⟩
    · exact ((hexists _ (List.ne_nil_of_mem hr)).mp (h r hr).2).2
    · intro hmem
      obtain ⟨r, hr, he⟩ := List.mem_map.mp hmem
      exact ((hexists _ (List.ne_nil_of_mem hr)).mp (h r hr).2).1 he
  · rintro ⟨h, hnot⟩ r hr
    refine ⟨(h r hr).1, (hexists _ (List.ne_nil_of_mem hr)).mpr ⟨?_, (h r hr).2⟩⟩
    intro he
    exact hnot (List.mem_map.mpr ⟨r, hr, he⟩)

theorem runAll_addBlockHeader_eq_ok {s t raws} (hlinked : Linked sha256 raws)
    (htime : ∀ raw ∈ raws.dropLast, 0 < (headerOf raw).time.toNat) : runAll (addBlockHeader sha256) s raws = .ok t ↔
      Fresh sha256 s raws ∧ (∀ raw ∈ raws.head?, s.blockExists (headerOf raw).prevBlockHash = true) ∧
        (raws.map (hashOf sha256)).Nodup ∧ runAll Storage.accept s (raws.map (blockOf sha256)) = .ok t := by
  induction raws generalizing s with
  | nil => simp [runAll, Fresh]
  | cons raw raws ih =>
    obtain ⟨hnext, hlinked⟩ := List.isChain_cons.mp hlinked
    have htail : ∀ r ∈ raws.dropLast, 0 < (headerOf r).time.toNat := by
      intro r hr
      cases raws with
      | nil => simp at hr
      | cons => exact htime r (by simp [List.dropLast_cons_of_ne_nil, hr])
    have hpos : raws ≠ [] → 0 < (headerOf raw).time.toNat := by
      intro hne
      exact htime raw (by simp [List.dropLast_cons_of_ne_nil hne])
    -- the parent of the second header is the block just written
    have hparent : ∀ s', s.Accepts (headerOf raw) (hashOf sha256 raw) s' →
        ∀ r ∈ raws.head?, s'.blockExists (headerOf r).prevBlockHash = true := by
      intro s' hacc r hr
      rw [hacc.blockExists_iff, if_pos (hnext r hr)]
      exact hpos (by rintro rfl; simp at hr)
    simp only [runAll, bind_eq_ok, addBlockHeader_eq_ok, List.map_cons, List.nodup_cons,
      Storage.accept, blockOf, Storage.acceptBlock_eq_ok]
    constructor
    · rintro ⟨s', ⟨hnew, hprev, hacc⟩, hrest⟩
      obtain ⟨hfresh, -, hnodup, hrun⟩ := (ih hlinked htail).mp hrest
      obtain ⟨hfresh, hnot⟩ := (fresh_after hacc hpos).mp hfresh
      refine ⟨List.forall_mem_cons.mpr ⟨hnew, hfresh⟩, ?_, ⟨hnot, hnodup⟩, s', hacc, hrun⟩
      simpa using hprev
    · rintro ⟨hfresh, hhead, ⟨hnot, hnodup⟩, s', hacc, hrun⟩
      obtain ⟨hnew, hfresh⟩ := List.forall_mem_cons.mp hfresh
      refine ⟨s', ⟨hnew, hhead raw rfl, hacc⟩, (ih hlinked htail).mpr ?_⟩
      exact ⟨(fresh_after hacc hpos).mpr ⟨hfresh, hnot⟩, hparent s' hacc, hnodup, hrun⟩

theorem hashes_nodup {s raws} (hcf : CollisionFree sha256 raws) (hfresh : Fresh sha256 s raws)
    (hhead : ∀ raw ∈ raws.head?, s.blockExists (headerOf raw).prevBlockHash = true)
    (hlinked : Linked sha256 raws) : (raws.map (hashOf sha256)).Nodup := by
  have hstep := List.isChain_iff_getElem.mp hlinked
  have hne : ∀ i j (hi : i < j) (hj : j < raws.length), raws[i] ≠ raws[j] := by
    intro i
    induction i with
    | zero =>
      intro j hi hj he
      obtain ⟨j, rfl⟩ : ∃ k, j = k + 1 := ⟨j - 1, by omega⟩
      have hprev := hhead raws[0] (by simp [List.head?_eq_getElem?])
      rw [he, hstep j (by omega), (hfresh raws[j] (List.getElem_mem _)).2] at hprev
      exact Bool.false_ne_true hprev
    | succ i ih =>
      intro j hi hj he
      obtain ⟨j, rfl⟩ : ∃ k, j = k + 1 := ⟨j - 1, by omega⟩
      have hback : hashOf sha256 raws[i] = hashOf sha256 raws[j] := by
        rw [← hstep i (by omega), ← hstep j (by omega), he]
      exact ih j (by omega) (by omega) (hcf _ (List.getElem_mem _) _ (List.getElem_mem _) hback)
  have hnodup : raws.Nodup := List.pairwise_iff_getElem.mpr fun i j _ hj hi => hne i j hi hj
  exact hnodup.map_on fun a ha b hb he => hcf a ha b hb he

/-- Linked headers with non-zero times go through as a batch when, and as, they go through one by one. -/
theorem batch_eq_ok_iff_sequence (s t : Storage) (raws : List Bytes) (hne : raws ≠ []) (hcf : CollisionFree sha256 raws)
    (htime : ∀ raw ∈ raws.dropLast, 0 < (headerOf raw).time.toNat) : addBlockHeaderBatch sha256 s raws = .ok t ↔
      Linked sha256 raws ∧ runAll (addBlockHeader sha256) s raws = .ok t := by
  rw [addBlockHeaderBatch_eq_ok hcf]
  constructor
  · rintro ⟨-, hfresh, hhead, hlinked, hrun⟩
    refine ⟨hlinked, (runAll_addBlockHeader_eq_ok hlinked htime).mpr ?_⟩
    exact ⟨hfresh, hhead, hashes_nodup hcf hfresh hhead hlinked, hrun⟩
  · rintro ⟨hlinked, hseq⟩
    obtain ⟨hfresh, hhead, -, hrun⟩ := (runAll_addBlockHeader_eq_ok hlinked htime).mp hseq
    exact ⟨hne, hfresh, hhead, hlinked, hrun⟩

theorem batch_of_two_eq_sequence : ∃ s t, initGateway nonceSha256 (toRawBytes (mined 0 1 1 lowestBits)) 0 0 = .ok s ∧
      addBlockHeaderBatch nonceSha256 s ([mined 1 1 2 lowestBits, mined 2 1 3 lowestBits].map toRawBytes) = .ok t ∧
      runAll (addBlockHeader nonceSha256) s
        ([mined 1 1 2 lowestBits, mined 2 1 3 lowestBits].map toRawBytes) = .ok t := by
  obtain ⟨s, hinit, t, hbatch⟩ : ∃ s, initGateway nonceSha256 (toRawBytes (mined 0 1 1 lowestBits)) 0 0 = .ok s ∧
      ∃ t, addBlockHeaderBatch nonceSha256 s ([mined 1 1 2 lowestBits, mined 2 1 3 lowestBits].map toRawBytes) =
        .ok t := by
    decide +kernel
  have hiff := batch_eq_ok_iff_sequence s t _ (by simp) (collisionFree_of_nonces (by decide))
    (by decide +kernel : ∀ raw ∈ ([mined 1 1 2 lowestBits, mined 2 1 3 lowestBits].map toRawBytes).dropLast,
      0 < (headerOf raw).time.toNat)
  exact ⟨s, t, hinit, hbatch, (hiff.mp hbatch).2⟩

theorem siblings_pass_only_singly : ∃ s, initGateway nonceSha256 (toRawBytes (mined 0 1 1 lowestBits)) 0 0 = .ok s ∧
      CollisionFree nonceSha256 ([mined 1 1 2 lowestBits, mined 1 1 3 lowestBits].map toRawBytes) ∧
      (∃ t, runAll (addBlockHeader nonceSha256) s
        ([mined 1 1 2 lowestBits, mined 1 1 3 lowestBits].map toRawBytes) = .ok t) ∧
      ∀ t, addBlockHeaderBatch nonceSha256 s
        ([mined 1 1 2 lowestBits, mined 1 1 3 lowestBits].map toRawBytes) ≠ .ok t := by
  refine exists_ok (fun s => ∃ t, runAll (addBlockHeader nonceSha256) s
    ([mined 1 1 2 lowestBits, mined 1 1 3 lowestBits].map toRawBytes) = .ok t) (by decide +kernel) ?_
  intro s _ hseq
  have hcf : CollisionFree nonceSha256 ([mined 1 1 2 lowestBits, mined 1 1 3 lowestBits].map toRawBytes) :=
    collisionFree_of_nonces (by decide)
  refine ⟨hcf, hseq, ?_⟩
  intro t hbatch
  have hlinked := ((addBlockHeaderBatch_eq_ok hcf).mp hbatch).2.2.2.1
  have hnext := (List.isChain_cons_cons.mp hlinked).1
  rw [headerOf_toRawBytes, hashOf_toRawBytes] at hnext
  exact absurd hnext (by decide)

end QuidProtocol.Spv
