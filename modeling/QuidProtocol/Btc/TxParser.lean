import QuidProtocol.Lib.Checked
import QuidProtocol.Spv.Header

/-!
`TxParser.sol`: a whole Bitcoin transaction, witness included.
`BitcoinTx.sol`: the readers of raw legacy transactions.
-/

namespace QuidProtocol.Btc

open Lib
open Spv (Bytes32 slice bytes32 bytes32LEtoBE)

inductive ParseError
  | unsupportedVersion (version : UInt32)
  | invalidFlag (flag : UInt8)
  | bufferOverflow
  deriving DecidableEq

structure TransactionInput where
  previousHash : Bytes32
  previousIndex : UInt32
  sequence : UInt32
  script : Bytes
  witnesses : List Bytes

structure TransactionOutput where
  value : UInt64
  script : Bytes

structure Transaction where
  inputs : List TransactionInput
  outputs : List TransactionOutput
  version : UInt32
  locktime : UInt32
  hasWitness : Bool

abbrev Parser := Except ParseError

def checkForBufferOverflow (positionToCheck dataLength : ℕ) : Parser Unit :=
  require .bufferOverflow (positionToCheck ≤ dataLength)

def parseLE (n : ℕ) (data : Bytes) (position : ℕ) : Parser ℕ := do
  checkForBufferOverflow (position + n) data.length
  .ok (ofBytesLE (slice data position (position + n)))

def parseCuint (data : Bytes) (position : ℕ) : Parser (ℕ × ℕ) := do
  checkForBufferOverflow (position + 1) data.length
  let firstByte := (data.getD position 0).toNat
  if firstByte < 0xfd then .ok (firstByte, position + 1)
  else if firstByte = 0xfd then do
    let value ← parseLE 2 data (position + 1)
    .ok (value, position + 3)
  else if firstByte = 0xfe then do
    let value ← parseLE 4 data (position + 1)
    .ok (value, position + 5)
  else do
    let value ← parseLE 8 data (position + 1)
    .ok (value, position + 9)

def parseBytes (data : Bytes) (position : ℕ) : Parser (Bytes × ℕ) := do
  let (len, position) ← parseCuint data position
  checkForBufferOverflow (position + len) data.length
  .ok (slice data position (position + len), position + len)

def parseTransactionInput (data : Bytes) (position : ℕ) : Parser (TransactionInput × ℕ) := do
  checkForBufferOverflow (position + 32) data.length
  let previousHash := bytes32LEtoBE (bytes32 (slice data position (position + 32)))
  let previousIndex ← parseLE 4 data (position + 32)
  let (script, position) ← parseBytes data (position + 36)
  let sequence ← parseLE 4 data position
  .ok (⟨previousHash, UInt32.ofNat previousIndex, UInt32.ofNat sequence, script, []⟩, position + 4)

def parseTransactionOutput (data : Bytes) (position : ℕ) : Parser (TransactionOutput × ℕ) := do
  let value ← parseLE 8 data position
  let (script, position) ← parseBytes data (position + 8)
  .ok (⟨UInt64.ofNat value, script⟩, position)

def parseMany {α : Type} (item : Bytes → ℕ → Parser (α × ℕ)) (data : Bytes) : ℕ → ℕ → Parser (List α × ℕ)
  | 0, position => .ok ([], position)
  | count + 1, position => do
    let (x, position) ← item data position
    let (xs, position) ← parseMany item data count position
    .ok (x :: xs, position)

def parseWitness (data : Bytes) (position : ℕ) : Parser (List Bytes × ℕ) := do
  let (witnessCount, position) ← parseCuint data position
  parseMany parseBytes data witnessCount position

def parseInputCount (data : Bytes) : Parser (ℕ × ℕ × Bool) := do
  let (inputCount, position) ← parseCuint data 4
  if inputCount = 0 then do
    require (.invalidFlag 0) (5 < data.length)
    require (.invalidFlag (data.getD 5 0)) (data.getD 5 0 = 1)
    let (inputCount, position) ← parseCuint data 6
    .ok (inputCount, position, true)
  else .ok (inputCount, position, false)

def parseWitnesses (hasWitness : Bool) (data : Bytes) (inputs : List TransactionInput)
    (position : ℕ) : Parser (List TransactionInput × ℕ) :=
  if hasWitness then do
    let (witnesses, position) ← parseMany parseWitness data inputs.length position
    .ok (inputs.zipWith (fun input w => { input with witnesses := w }) witnesses, position)
  else .ok (inputs, position)

def parseTransaction (data : Bytes) : Parser Transaction := do
  let version ← parseLE 4 data 0
  require (.unsupportedVersion (UInt32.ofNat version)) (version = 1 ∨ version = 2)
  let (inputCount, position, hasWitness) ← parseInputCount data
  let (inputs, position) ← parseMany parseTransactionInput data inputCount position
  let (outputCount, position) ← parseCuint data position
  let (outputs, position) ← parseMany parseTransactionOutput data outputCount position
  let (inputs, position) ← parseWitnesses hasWitness data inputs position
  let locktime ← parseLE 4 data position
  .ok ⟨inputs, outputs, UInt32.ofNat version, UInt32.ofNat locktime, hasWitness⟩

def skipScript (data : Bytes) (ahead behind bound offset : ℕ) : OptionT Parser ℕ := do
  let (scriptLen, position) ← parseCuint data (offset + ahead)
  guard (position + scriptLen < bound)
  return position + scriptLen + behind

def skipMany (item : ℕ → OptionT Parser ℕ) : ℕ → ℕ → OptionT Parser ℕ
  | 0, offset => return offset
  | count + 1, offset => do skipMany item count (← item offset)

def skipWitness (data : Bytes) (size offset : ℕ) : OptionT Parser ℕ := do
  let (witnessCount, position) ← parseCuint data offset
  guard (witnessCount + position ≤ size)
  skipMany (skipScript data 0 0 (size + 1)) witnessCount position

/-- What `isTransaction` reads up to the lock time, where a failure is its answer that there is no transaction. -/
def skipTransaction (data : Bytes) : OptionT Parser Unit := do
  guard (60 ≤ data.length)
  guard (data.take 4 = [1, 0, 0, 0] ∨ data.take 4 = [2, 0, 0, 0])
  let (inputCount, position) ← parseCuint data 4
  let hasWitness := inputCount = 0
  guard (hasWitness → data.getD 5 0 = 1)
  let (inputCount, position) ← if hasWitness then parseCuint data 6 else .ok (inputCount, position)
  let size := data.length - 4
  guard (inputCount * 41 + position < size)
  let offset ← skipMany (skipScript data 36 4 size) inputCount position
  let (outputCount, position) ← parseCuint data offset
  guard (outputCount * 9 + offset ≤ size)
  let offset ← skipMany (skipScript data 8 0 (size + 1)) outputCount position
  let offset ← if hasWitness then skipMany (skipWitness data size) inputCount offset else pure offset
  guard (offset = size)

def isTransaction (data : Bytes) : Parser Bool := Option.isSome <$> (skipTransaction data).run

inductive TxError
  | inputOutOfRange
  | truncatedTx
  | outputNotFound
  | indexOutOfBounds
  deriving DecidableEq

abbrev Reader (α : Type) := Except TxError α

def readByte (raw : Bytes) (i : ℕ) : Reader UInt8 :=
  match raw[i]? with
  | some b => .ok b
  | none => .error .indexOutOfBounds

def readLEFrom (raw : Bytes) (offset : ℕ) : ℕ → ℕ → ℕ → Reader ℕ
  | 0, _, v => .ok v
  | n + 1, i, v => do
    let b ← readByte raw (offset + i)
    readLEFrom raw offset n (i + 1) (v ||| b.toNat <<< (8 * i))

def readLE (raw : Bytes) (offset len : ℕ) : Reader ℕ := readLEFrom raw offset len 0 0

def readVarInt (raw : Bytes) (offset : ℕ) : Reader (ℕ × ℕ) := do
  require .truncatedTx (offset < raw.length)
  let first ← readByte raw offset
  if first < 0xfd then .ok (first.toNat, 1)
  else if first = 0xfd then do
    require .truncatedTx (offset + 3 ≤ raw.length)
    let value ← readLE raw (offset + 1) 2
    .ok (value, 3)
  else if first = 0xfe then do
    require .truncatedTx (offset + 5 ≤ raw.length)
    let value ← readLE raw (offset + 1) 4
    .ok (value, 5)
  else do
    require .truncatedTx (offset + 9 ≤ raw.length)
    let value ← readLE raw (offset + 1) 8
    .ok (value, 9)

def assertLegacy (raw : Bytes) : Reader Unit := do
  require .truncatedTx (5 ≤ raw.length)
  let marker ← readByte raw 4
  require .truncatedTx (marker ≠ 0x00)

def inputCount (raw : Bytes) : Reader ℕ := do
  assertLegacy raw
  let (count, _) ← readVarInt raw 4
  .ok count

def skipFrom (raw : Bytes) : ℕ → ℕ → Reader ℕ
  | 0, offset => .ok offset
  | n + 1, offset => do
    let (sigLen, sigLenBytes) ← readVarInt raw (offset + (32 + 4))
    skipFrom raw n (offset + (32 + 4) + (sigLenBytes + sigLen + 4))

def calldataload (data : Bytes) (offset : ℕ) : BitVec 256 :=
  let word := (data.drop offset).take 32
  BitVec.ofNat 256 (ofBytesBE (word ++ List.replicate (32 - word.length) 0))

def extractInputPrevOutpoint (raw behind : Bytes) (inputIndex : ℕ) : Reader (BitVec 256 × UInt32) := do
  assertLegacy raw
  let (nIn, consumed) ← readVarInt raw 4
  require .inputOutOfRange (inputIndex < nIn)
  let offset ← skipFrom raw inputIndex (4 + consumed)
  require .truncatedTx (offset + 36 ≤ raw.length)
  let hash := calldataload (raw ++ behind) offset
  let vout ← readLE raw (offset + 32) 4
  .ok (hash, UInt32.ofNat vout)

def extractLocktime (raw : Bytes) : Reader UInt32 := do
  require .truncatedTx (4 ≤ raw.length)
  let locktime ← readLE raw (raw.length - 4) 4
  .ok (UInt32.ofNat locktime)

def extractInput0Sequence (raw : Bytes) : Reader UInt32 := do
  assertLegacy raw
  let (nIn, consumed) ← readVarInt raw 4
  require .truncatedTx (nIn ≠ 0)
  let offset := 4 + consumed + 36
  let (sigLen, sigLenBytes) ← readVarInt raw offset
  let offset := offset + (sigLenBytes + sigLen)
  require .truncatedTx (offset + 4 ≤ raw.length)
  let seq ← readLE raw offset 4
  .ok (UInt32.ofNat seq)

inductive ScanMode
  | sumTo
  | firstTo
  | sumForeign
  | firstToV1OrV2
  deriving DecidableEq

def matchFrom (raw : Bytes) (mode : ScanMode) (offset : ℕ) : Bytes → ℕ → Reader Bool
  | [], _ => .ok true
  | s :: spk, j => do
    let b ← readByte raw (offset + j)
    if b ≠ s ∧ ¬ (j = 0 ∧ mode = .firstToV1OrV2 ∧ b = 0x52) then .ok false
    else matchFrom raw mode offset spk (j + 1)

def scriptMatches (raw spk : Bytes) (mode : ScanMode) (offset scriptLen : ℕ) : Reader Bool :=
  if scriptLen = spk.length then matchFrom raw mode offset spk 0 else .ok false

def scanFrom (raw spk : Bytes) (mode : ScanMode) (exceptVout : ℕ) : ℕ → ℕ → ℕ → ℕ → Reader ℕ
  | 0, _, _, packed =>
    if mode ≠ .sumTo ∧ mode ≠ .sumForeign then .error .outputNotFound else .ok packed
  | n + 1, i, offset, packed => do
    require .truncatedTx (offset + 8 ≤ raw.length)
    let value ← readLE raw offset 8
    let (scriptLen, sLenBytes) ← readVarInt raw (offset + 8)
    let offset := offset + 8 + sLenBytes
    require .truncatedTx (offset + scriptLen ≤ raw.length)
    let isMatch ← scriptMatches raw spk mode offset scriptLen
    if mode = .sumForeign then
      let packed := if i ≠ exceptVout ∧ isMatch = false then packed + value else packed
      scanFrom raw spk mode exceptVout n (i + 1) (offset + scriptLen) packed
    else if isMatch then
      if mode ≠ .sumTo then do
        let first ← readByte raw offset
        .ok (first.toNat <<< 96 ||| i <<< 64 ||| value)
      else scanFrom raw spk mode exceptVout n (i + 1) (offset + scriptLen) (packed + value)
    else scanFrom raw spk mode exceptVout n (i + 1) (offset + scriptLen) packed

def skipInputs (raw : Bytes) : Reader ℕ := do
  assertLegacy raw
  let (nIn, consumed) ← readVarInt raw 4
  skipFrom raw nIn (4 + consumed)

def scanOutputs (raw spk : Bytes) (mode : ScanMode) (exceptVout : UInt32) : Reader ℕ := do
  let offset ← skipInputs raw
  let (outputCount, consumed) ← readVarInt raw offset
  require .outputNotFound (¬ (mode = .sumForeign ∧ outputCount ≤ exceptVout.toNat))
  scanFrom raw spk mode exceptVout.toNat outputCount 0 (offset + consumed) 0

def sumOutputValuesToScript (raw spk : Bytes) : Reader ℕ := scanOutputs raw spk .sumTo 0

def sumOutputValuesExcept (raw : Bytes) (exceptVout : UInt32) (spk : Bytes) : Reader ℕ :=
  scanOutputs raw spk .sumForeign exceptVout

def findOutputByScript (raw expectedScriptPubKey : Bytes) : Reader (UInt32 × ℕ) := do
  let packed ← scanOutputs raw expectedScriptPubKey .firstTo 0
  .ok (UInt32.ofNat (packed >>> 64), packed &&& (2 ^ 64 - 1))

end QuidProtocol.Btc
