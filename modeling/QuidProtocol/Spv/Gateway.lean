import QuidProtocol.Lib.Checked
import QuidProtocol.Spv.Header

/-!
`SPVGateway.sol`: the header store, its height index and its two entry points.
Both entry points accept a parsed header in the same way.
-/

namespace QuidProtocol.Spv

open Lib Function

structure BlockData extends HeaderData where
  blockHeight : ℕ
  cumulativeWork : ℕ

instance : Inhabited BlockData := ⟨⟨⟨0, 0, 0, 0, 0, 0⟩, 0, 0⟩⟩

structure Storage where
  blocksData : Bytes32 → BlockData
  blocksHeightToBlockHash : ℕ → Bytes32
  mainchainHead : Bytes32

inductive GatewayError
  | prevBlockDoesNotExist (prevBlockHash : Bytes32)
  | blockAlreadyExists (blockHash : Bytes32)
  | emptyBlockHeaderArray
  | invalidBlockHeadersOrder
  | invalidTarget (blockTarget networkTarget : Bytes32)
  | invalidBlockHash (actualBlockHash blockTarget : Bytes32)
  | invalidBlockTime (blockTime medianTime : ℕ)
  | unalignedCheckpointHeight (height : ℕ)
  | invalidBlockHeaderDataLength
  | arithmeticPanic
  | outOfGas
  deriving DecidableEq

abbrev Gateway (α : Type) := Except GatewayError α

def medianPastBlocks : ℕ := 11

namespace Storage

variable (s : Storage)

def getBlockHeight (blockHash : Bytes32) : ℕ := (s.blocksData blockHash).blockHeight

def getBlockHash (blockHeight : ℕ) : Bytes32 := s.blocksHeightToBlockHash blockHeight

def getBlockTarget (blockHash : Bytes32) : Bytes32 := bitsToTarget (s.blocksData blockHash).bits

def getBlockCumulativeWork (blockHash : Bytes32) : ℕ := (s.blocksData blockHash).cumulativeWork

def getBlockHeaderTime (blockHash : Bytes32) : ℕ := (s.blocksData blockHash).time.toNat

def blockExists (blockHash : Bytes32) : Bool := decide (0 < s.getBlockHeaderTime blockHash)

def isInMainchain (blockHash : Bytes32) : Bool := s.getBlockHash (s.getBlockHeight blockHash) == blockHash

def getMainchainHeight : ℕ := s.getBlockHeight s.mainchainHead

def getBlockStatus (blockHash : Bytes32) : Gateway (Bool × ℕ) :=
  if !s.isInMainchain blockHash then .ok (false, 0)
  else do
    let confirmations ← checkedSub .arithmeticPanic s.getMainchainHeight (s.getBlockHeight blockHash)
    .ok (true, confirmations)

def rewriteHeights (data : Bytes32 → BlockData) : ℕ → (ℕ → Bytes32) → Bytes32 → ℕ → Gateway (ℕ → Bytes32)
  | 0, _, _, _ => .error .outOfGas
  | gas + 1, index, prevBlockHash, prevBlockHeight =>
    let index := Function.update index prevBlockHeight prevBlockHash
    let prevBlockHash := (data prevBlockHash).prevBlockHash
    let prevBlockHeight := (prevBlockHeight + (2 ^ 64 - 1)) % 2 ^ 64
    if index prevBlockHeight ≠ prevBlockHash ∧ prevBlockHash ≠ 0 then
      rewriteHeights data gas index prevBlockHash prevBlockHeight
    else .ok index

def walkGas : ℕ := 2 ^ 64

def updateMainchainHead (header : HeaderData) (blockHash : Bytes32) (blockHeight : ℕ) : Gateway Storage :=
  let extended := Function.update s.blocksHeightToBlockHash blockHeight blockHash
  if header.prevBlockHash = s.mainchainHead ∨ s.mainchainHead = 0 then
    .ok { s with mainchainHead := blockHash, blocksHeightToBlockHash := extended }
  else if s.getBlockCumulativeWork s.mainchainHead < s.getBlockCumulativeWork blockHash then do
    let prevBlockHeight ← checkedSub .arithmeticPanic blockHeight 1
    let index ← rewriteHeights s.blocksData walkGas extended header.prevBlockHash prevBlockHeight
    .ok { s with mainchainHead := blockHash, blocksHeightToBlockHash := index }
  else .ok s

def setBlock (header : HeaderData) (blockHash : Bytes32) (blockHeight cumulativeWork : ℕ) : Storage :=
  { s with blocksData := Function.update s.blocksData blockHash ⟨header, blockHeight, cumulativeWork⟩ }

def addBlock (header : HeaderData) (blockHash : Bytes32) (blockHeight cumulativeWork : ℕ) : Gateway Storage :=
  (s.setBlock header blockHash blockHeight cumulativeWork).updateMainchainHead
    header blockHash blockHeight

def nextCumulativeWork (prevBlockHash blockTarget : Bytes32) : Gateway ℕ :=
  checkedAdd .arithmeticPanic 256 (s.getBlockCumulativeWork prevBlockHash) (countBlockWork blockTarget)

def getEpochPassedTime (blockHeight : ℕ) : Gateway ℕ := do
  let epochStart ← checkedSub .arithmeticPanic blockHeight difficultyAdjustmentInterval
  let epochEnd ← checkedSub .arithmeticPanic blockHeight 1
  checkedSub .arithmeticPanic (s.getBlockHeaderTime (s.getBlockHash epochEnd))
    (s.getBlockHeaderTime (s.getBlockHash epochStart))

def retargetIfEpochBoundary (currentTarget : Bytes32) (blockHeight : ℕ) : Gateway Bytes32 :=
  if isTargetAdjustmentBlock blockHeight then do
    let passed ← s.getEpochPassedTime blockHeight
    match countNewRoundedTarget currentTarget passed with
    | some target => .ok target
    | none => .error .arithmeticPanic
  else .ok currentTarget

def getMedianTime (blocksTime : List ℕ) (needsSort : Bool) : ℕ :=
  let blocksTime := if needsSort then blocksTime.insertionSort (· ≤ ·) else blocksTime
  blocksTime.getD (medianPastBlocks / 2) 0 % 2 ^ 32

def storageTimes : ℕ → Bytes32 → List ℕ → Bool → List ℕ × Bool
  | 0, _, blocksTime, needsSort => (blocksTime, needsSort)
  | i + 1, toBlockHash, blocksTime, needsSort =>
    let currentTime := s.getBlockHeaderTime toBlockHash
    let later := match blocksTime with
      | [] => false
      | next :: _ => decide (next < currentTime)
    storageTimes i (s.blocksData toBlockHash).prevBlockHash (currentTime :: blocksTime)
      (needsSort || later)

def getStorageMedianTime (header : HeaderData) (blockHeight : ℕ) : ℕ :=
  if blockHeight = 1 then header.time.toNat
  else if blockHeight - 1 < medianPastBlocks then s.getBlockHeaderTime header.prevBlockHash
  else
    let filled := s.storageTimes medianPastBlocks header.prevBlockHash [] false
    getMedianTime filled.1 filled.2

end Storage

def memoryTimes : List HeaderData → List ℕ → Bool → List ℕ × Bool
  | [], blocksTime, needsSort => (blocksTime, needsSort)
  | header :: headers, blocksTime, needsSort =>
    let currentTime := header.time.toNat
    let earlier := match blocksTime.getLast? with
      | none => false
      | some previous => decide (currentTime < previous)
    memoryTimes headers (blocksTime ++ [currentTime]) (needsSort || earlier)

def getMemoryMedianTime (headers : List HeaderData) (upTo : ℕ) : ℕ :=
  if headers.length < medianPastBlocks then 0
  else
    let filled := memoryTimes ((headers.drop (upTo - medianPastBlocks)).take medianPastBlocks) [] false
    Storage.getMedianTime filled.1 filled.2

def validateBlockRules (header : HeaderData) (blockHash target : Bytes32) (medianTime : ℕ) : Gateway Unit := do
  let blockTarget := bitsToTarget header.bits
  require (.invalidTarget blockTarget target) (target = blockTarget)
  require (.invalidBlockHash blockHash blockTarget) (blockHash ≤ blockTarget)
  require (.invalidBlockTime header.time.toNat medianTime) (medianTime ≤ header.time.toNat)

variable (sha256 : Bytes → Bytes32)

def parseBlockHeaderRaw (s : Storage) (raw : Bytes) : Gateway (HeaderData × Bytes32) :=
  match parseBlockHeader sha256 raw with
  | none => .error .invalidBlockHeaderDataLength
  | some (header, blockHash) => do
    require (.blockAlreadyExists blockHash) (s.blockExists blockHash = false)
    .ok (header, blockHash)

def requireLinked (s : Storage) (previous : Option Bytes32) (header : HeaderData) : Gateway Unit :=
  match previous with
  | none => require (.prevBlockDoesNotExist header.prevBlockHash)
      (s.blockExists header.prevBlockHash = true)
  | some last => require .invalidBlockHeadersOrder (header.prevBlockHash = last)

def parseBlockHeadersRaw (s : Storage) : Option Bytes32 → List Bytes → Gateway (List (HeaderData × Bytes32))
  | _, [] => .ok []
  | previous, raw :: raws => do
    let (header, blockHash) ← parseBlockHeaderRaw sha256 s raw
    requireLinked s previous header
    let rest ← parseBlockHeadersRaw s (some blockHash) raws
    .ok ((header, blockHash) :: rest)

def Storage.acceptBlock (s : Storage) (header : HeaderData) (blockHash : Bytes32) : Gateway Storage := do
  let blockHeight ← checkedAdd .arithmeticPanic 64 (s.getBlockHeight header.prevBlockHash) 1
  let currentTarget ← s.retargetIfEpochBoundary (s.getBlockTarget header.prevBlockHash) blockHeight
  validateBlockRules header blockHash currentTarget (s.getStorageMedianTime header blockHeight)
  let work ← s.nextCumulativeWork header.prevBlockHash currentTarget
  s.addBlock header blockHash blockHeight work

def addBlockHeader (s : Storage) (raw : Bytes) : Gateway Storage := do
  let (header, blockHash) ← parseBlockHeaderRaw sha256 s raw
  require (.prevBlockDoesNotExist header.prevBlockHash) (s.blockExists header.prevBlockHash = true)
  s.acceptBlock header blockHash

def batchLoop (headers : List HeaderData) (firstBlockHeight : ℕ) :
    ℕ → Bytes32 → Storage → List (HeaderData × Bytes32) → Gateway Storage
  | _, _, s, [] => .ok s
  | i, currentTarget, s, (header, blockHash) :: rest => do
    let currentBlockHeight ← checkedAdd .arithmeticPanic 64 firstBlockHeight i
    let currentTarget ← s.retargetIfEpochBoundary currentTarget currentBlockHeight
    let medianTime := if i < medianPastBlocks then s.getStorageMedianTime header currentBlockHeight
      else getMemoryMedianTime headers i
    validateBlockRules header blockHash currentTarget medianTime
    let work ← s.nextCumulativeWork header.prevBlockHash currentTarget
    let s ← s.addBlock header blockHash currentBlockHeight work
    batchLoop headers firstBlockHeight (i + 1) currentTarget s rest

def addBlockHeaderBatch (s : Storage) (raws : List Bytes) : Gateway Storage := do
  require .emptyBlockHeaderArray (0 < raws.length)
  match ← parseBlockHeadersRaw sha256 s none raws with
  | [] => .error .emptyBlockHeaderArray
  | (header, blockHash) :: rest => do
    let firstBlockHeight ← checkedAdd .arithmeticPanic 64 (s.getBlockHeight header.prevBlockHash) 1
    batchLoop (((header, blockHash) :: rest).map Prod.fst) firstBlockHeight 0
      (s.getBlockTarget header.prevBlockHash) s ((header, blockHash) :: rest)

def emptyStorage : Storage := ⟨fun _ => default, fun _ => 0, 0⟩

def initGateway (raw : Bytes) (blockHeight : UInt64) (cumulativeWork : BitVec 256) : Gateway Storage := do
  require (.unalignedCheckpointHeight blockHeight.toNat)
    (blockHeight.toNat % difficultyAdjustmentInterval = 0)
  let (header, blockHash) ← parseBlockHeaderRaw sha256 emptyStorage raw
  emptyStorage.addBlock header blockHash blockHeight.toNat cumulativeWork.toNat

inductive Call
  | addBlockHeader (raw : Bytes)
  | addBlockHeaderBatch (raws : List Bytes)

def Call.raws : Call → List Bytes
  | .addBlockHeader raw => [raw]
  | .addBlockHeaderBatch raws => raws

def Call.exec (s : Storage) : Call → Gateway Storage
  | .addBlockHeader raw => Spv.addBlockHeader sha256 s raw
  | .addBlockHeaderBatch raws => Spv.addBlockHeaderBatch sha256 s raws

def sortedMedian (blocksTime : List ℕ) : ℕ := (blocksTime.insertionSort (· ≤ ·)).getD (medianPastBlocks / 2) 0 % 2 ^ 32

theorem getMedianTime_eq (blocksTime : List ℕ) (needsSort : Bool) (h : needsSort = false → blocksTime.IsChain (· ≤ ·)) :
    Storage.getMedianTime blocksTime needsSort = sortedMedian blocksTime := by
  cases needsSort with
  | true => rfl
  | false =>
    have hsorted : blocksTime.insertionSort (· ≤ ·) = blocksTime := (h rfl).pairwise.insertionSort_eq
    simp [Storage.getMedianTime, sortedMedian, hsorted]

namespace Storage

variable (s : Storage)

def ancestorTimes : ℕ → Bytes32 → List ℕ
  | 0, _ => []
  | n + 1, b => s.getBlockHeaderTime b :: ancestorTimes n (s.blocksData b).prevBlockHash

theorem storageTimes_fst (n b) (blocksTime : List ℕ) (needsSort : Bool) :
    (s.storageTimes n b blocksTime needsSort).1 = (s.ancestorTimes n b).reverse ++ blocksTime := by
  induction n generalizing b blocksTime needsSort with
  | zero => simp [storageTimes, ancestorTimes]
  | succ n ih => simp [storageTimes, ancestorTimes, ih]

theorem storageTimes_sorted (n b) (blocksTime : List ℕ) (needsSort : Bool)
    (hsorted : needsSort = false → blocksTime.IsChain (· ≤ ·)) : (s.storageTimes n b blocksTime needsSort).2 = false →
      (s.storageTimes n b blocksTime needsSort).1.IsChain (· ≤ ·) := by
  induction n generalizing b blocksTime needsSort with
  | zero => exact hsorted
  | succ n ih =>
    apply ih
    intro hflag
    obtain ⟨hneeds, hlater⟩ := Bool.or_eq_false_iff.mp hflag
    have htail := hsorted hneeds
    cases blocksTime with
    | nil => simp
    | cons =>
      refine List.isChain_cons_cons.mpr ⟨?_, htail⟩
      simpa using hlater

theorem getStorageMedianTime_eq (header : HeaderData) (blockHeight : ℕ) (h : medianPastBlocks < blockHeight) :
    s.getStorageMedianTime header blockHeight =
      sortedMedian (s.ancestorTimes medianPastBlocks header.prevBlockHash).reverse := by
  have h1 : blockHeight ≠ 1 := by simp only [medianPastBlocks] at h; omega
  have h2 : ¬ blockHeight - 1 < medianPastBlocks := by omega
  simp only [getStorageMedianTime, h1, h2, ↓reduceIte]
  rw [getMedianTime_eq _ _ (storageTimes_sorted s _ _ _ _ (fun _ => List.IsChain.nil)),
    storageTimes_fst, List.append_nil]

end Storage

theorem memoryTimes_fst (headers : List HeaderData) (blocksTime : List ℕ) (needsSort : Bool) :
    (memoryTimes headers blocksTime needsSort).1 = blocksTime ++ headers.map (fun header => header.time.toNat) := by
  induction headers generalizing blocksTime needsSort with
  | nil => simp [memoryTimes]
  | cons header headers ih => simp [memoryTimes, ih]

theorem memoryTimes_sorted (headers : List HeaderData) (blocksTime : List ℕ) (needsSort : Bool)
    (hsorted : needsSort = false → blocksTime.IsChain (· ≤ ·)) : (memoryTimes headers blocksTime needsSort).2 = false →
      (memoryTimes headers blocksTime needsSort).1.IsChain (· ≤ ·) := by
  induction headers generalizing blocksTime needsSort with
  | nil => exact hsorted
  | cons header headers ih =>
    apply ih
    intro hflag
    obtain ⟨hneeds, hearlier⟩ := Bool.or_eq_false_iff.mp hflag
    refine List.isChain_append.mpr ⟨hsorted hneeds, List.isChain_singleton _, ?_⟩
    intro previous hprevious current hcurrent
    obtain rfl : header.time.toNat = current := by simpa using hcurrent
    rw [Option.mem_def] at hprevious
    simpa [hprevious] using hearlier

theorem getMemoryMedianTime_eq (headers : List HeaderData) (upTo : ℕ) (h : medianPastBlocks ≤ headers.length) :
    getMemoryMedianTime headers upTo = sortedMedian
      (((headers.drop (upTo - medianPastBlocks)).take medianPastBlocks).map (fun header => header.time.toNat)) := by
  have hl : ¬ headers.length < medianPastBlocks := by omega
  simp only [getMemoryMedianTime, hl, ↓reduceIte]
  rw [getMedianTime_eq _ _ (memoryTimes_sorted _ _ _ (fun _ => List.IsChain.nil)), memoryTimes_fst, List.nil_append]

namespace Storage

variable (s : Storage)

def nextHeight (header : HeaderData) : ℕ := s.getBlockHeight header.prevBlockHash + 1

def nextWork (header : HeaderData) : ℕ :=
  s.getBlockCumulativeWork header.prevBlockHash + countBlockWork (bitsToTarget header.bits)

structure Accepts (header : HeaderData) (blockHash : Bytes32) (s' : Storage) : Prop where
  height_lt : s.nextHeight header < 2 ^ 64
  target_eq : s.retargetIfEpochBoundary (s.getBlockTarget header.prevBlockHash)
    (s.nextHeight header) = .ok (bitsToTarget header.bits)
  hash_le : blockHash ≤ bitsToTarget header.bits
  median_le : s.getStorageMedianTime header (s.nextHeight header) ≤ header.time.toNat
  work_lt : s.nextWork header < 2 ^ 256
  added : s.addBlock header blockHash (s.nextHeight header) (s.nextWork header) = .ok s'

end Storage

theorem validateBlockRules_eq_ok (header : HeaderData) (blockHash target medianTime u) :
    validateBlockRules header blockHash target medianTime = .ok u ↔
      target = bitsToTarget header.bits ∧ blockHash ≤ bitsToTarget header.bits ∧ medianTime ≤ header.time.toNat := by
  simp [validateBlockRules, bind_eq_ok, require_eq_ok]

namespace Storage

variable {s s' : Storage} {header : HeaderData} {blockHash : Bytes32}

theorem acceptBlock_eq_ok : s.acceptBlock header blockHash = .ok s' ↔ s.Accepts header blockHash s' := by
  simp only [acceptBlock, bind_eq_ok, checkedAdd_eq_ok, validateBlockRules_eq_ok, nextCumulativeWork]
  constructor
  · rintro ⟨_, ⟨hheight, rfl⟩, _, htarget, _, ⟨rfl, hhash, hmedian⟩, _, ⟨hwork, rfl⟩, hadd⟩
    exact ⟨hheight, htarget, hhash, hmedian, hwork, hadd⟩
  · intro h
    exact ⟨_, ⟨h.height_lt, rfl⟩, _, h.target_eq, (), ⟨rfl, h.hash_le, h.median_le⟩, _, ⟨h.work_lt, rfl⟩, h.added⟩

theorem updateMainchainHead_blocksData {blockHeight}
    (h : s.updateMainchainHead header blockHash blockHeight = .ok s') : s'.blocksData = s.blocksData := by
  unfold updateMainchainHead at h
  split_ifs at h
  · cases h
    rfl
  · simp only [bind_eq_ok] at h
    obtain ⟨_, _, index, _, h⟩ := h
    cases h
    rfl
  · cases h
    rfl

theorem addBlock_blocksData {blockHeight work} (h : s.addBlock header blockHash blockHeight work = .ok s') :
    s'.blocksData = update s.blocksData blockHash ⟨header, blockHeight, work⟩ :=
  updateMainchainHead_blocksData h

theorem addBlock_of_extends {blockHeight work} (h : header.prevBlockHash = s.mainchainHead ∨ s.mainchainHead = 0) :
    s.addBlock header blockHash blockHeight work = .ok ⟨update s.blocksData blockHash ⟨header, blockHeight, work⟩,
        update s.blocksHeightToBlockHash blockHeight blockHash, blockHash⟩ :=
  if_pos h

section

variable (h : s.Accepts header blockHash s')

include h

theorem Accepts.blocksData : s'.blocksData = update s.blocksData blockHash
      ⟨header, s.nextHeight header, s.nextWork header⟩ :=
  addBlock_blocksData h.added

theorem Accepts.blocksData_self : s'.blocksData blockHash = ⟨header, s.nextHeight header, s.nextWork header⟩ := by
  rw [h.blocksData, update_self]

theorem Accepts.blocksData_of_ne {b} (hb : b ≠ blockHash) : s'.blocksData b = s.blocksData b := by
  rw [h.blocksData, update_of_ne hb]

theorem Accepts.blockExists_iff (b : Bytes32) : s'.blockExists b = true ↔
      if b = blockHash then 0 < header.time.toNat else s.blockExists b = true := by
  by_cases hb : b = blockHash
  · subst hb
    simp [blockExists, getBlockHeaderTime, h.blocksData_self]
  · rw [if_neg hb, blockExists, blockExists, getBlockHeaderTime, h.blocksData_of_ne hb, getBlockHeaderTime]

end

end Storage

variable {sha256 : Bytes → Bytes32}

theorem parseBlockHeaderRaw_eq_ok {s raw header blockHash} :
    parseBlockHeaderRaw sha256 s raw = .ok (header, blockHash) ↔
      raw.length = blockHeaderDataLength ∧ s.blockExists (hashOf sha256 raw) = false ∧
        header = headerOf raw ∧ blockHash = hashOf sha256 raw := by
  unfold parseBlockHeaderRaw parseBlockHeader
  by_cases hl : raw.length = blockHeaderDataLength
  · simp only [hl, ne_eq, not_true_eq_false, ↓reduceIte, bind_eq_ok, require_eq_ok, true_and]
    simp only [Except.ok.injEq, Prod.mk.injEq]
    constructor
    · rintro ⟨_, hexists, hheader, hhash⟩
      exact ⟨hexists, hheader.symm, hhash.symm⟩
    · rintro ⟨hexists, hheader, hhash⟩
      exact ⟨(), hexists, hheader.symm, hhash.symm⟩
  · simp [hl]

theorem addBlockHeader_eq (s raw) : addBlockHeader sha256 s raw = parseBlockHeaderRaw sha256 s raw >>= fun block =>
      require (.prevBlockDoesNotExist block.1.prevBlockHash) (s.blockExists block.1.prevBlockHash = true) >>= fun _ =>
      s.acceptBlock block.1 block.2 := rfl

theorem addBlockHeader_eq_ok {s s' raw} : addBlockHeader sha256 s raw = .ok s' ↔
      (raw.length = blockHeaderDataLength ∧ s.blockExists (hashOf sha256 raw) = false) ∧
        s.blockExists (headerOf raw).prevBlockHash = true ∧ s.Accepts (headerOf raw) (hashOf sha256 raw) s' := by
  rw [addBlockHeader_eq]
  simp only [bind_eq_ok, Prod.exists, require_eq_ok, Storage.acceptBlock_eq_ok]
  constructor
  · rintro ⟨header, blockHash, hparse, _, hprev, hacc⟩
    obtain ⟨hl, hfresh, rfl, rfl⟩ := parseBlockHeaderRaw_eq_ok.mp hparse
    exact ⟨⟨hl, hfresh⟩, hprev, hacc⟩
  · rintro ⟨⟨hl, hfresh⟩, hprev, hacc⟩
    exact ⟨_, _, parseBlockHeaderRaw_eq_ok.mpr ⟨hl, hfresh, rfl, rfl⟩, (), hprev, hacc⟩

end QuidProtocol.Spv
