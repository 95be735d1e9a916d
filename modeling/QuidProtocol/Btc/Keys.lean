import QuidProtocol.Basket.Types
import QuidProtocol.Btc.Transaction

/-!
`BitcoinTx.sol`: the keys of a channel, the scripts made of them, the deposit of a swap-in, and the dead-man exit.
The digest that a key-path spend of a taproot output signs, against BIP-341.
-/

namespace QuidProtocol.Btc

open Lib Basket
open Spv (Bytes32 slice bytes32 bytes32LEtoBE)

inductive KeyError
  | pubkeyNot33Bytes
  | badPoint
  | leafTooLong
  | invalidParam
  | depositNotPaid
  | tx (e : TxError)
  | panic
  deriving DecidableEq

structure Crypto where
  sha256 : Bytes → Bytes32
  keccak256 : Bytes → Bytes32
  aggregate : Bytes → Bytes → Option Bytes32
  taprootOutputKeyWithLeaf : Bytes32 → Bytes32 → Option Bytes32
  schnorrVerify : Bytes32 → Bytes32 → Bytes32 → Bytes32 → Bool

def fieldSize : ℕ := 0xFFFFFFFFFFFFFFFFFFFFFFFFFFFFFFFFFFFFFFFFFFFFFFFFFFFFFFFEFFFFFC2F

def sqrtPower : ℕ := 0x3FFFFFFFFFFFFFFFFFFFFFFFFFFFFFFFFFFFFFFFFFFFFFFFFFFFFFFFBFFFFF0C

def modExpLoop : ℕ → ℕ → ℕ → ℕ → ℕ
  | 0, _, _, result => result
  | rounds + 1, base, exponent, result =>
    if exponent = 0 then result
    else modExpLoop rounds (base * base % fieldSize) (exponent / 2)
      (if exponent % 2 = 1 then result * base % fieldSize else result)

def modExp (base exponent : ℕ) : ℕ := modExpLoop 256 (base % fieldSize) exponent 1

def ySquared (x : ℕ) : ℕ := (x * x % fieldSize * x % fieldSize + 7) % fieldSize

def isValidXOnlyKey (xOnly : Bytes32) : Bool :=
  let x := xOnly.toNat
  if x = 0 ∨ fieldSize ≤ x then false
  else
    let y := modExp (ySquared x) sqrtPower
    y * y % fieldSize = ySquared x

variable (cr : Crypto)

def evmAddressOfCompressed (compressed : Bytes) : Address :=
  match compressed with
  | [] => 0
  | sign :: rest =>
    if rest.length ≠ 32 then 0
    else if sign ≠ 0x02 ∧ sign ≠ 0x03 then 0
    else
      let x := ofBytesBE rest
      if x = 0 ∨ fieldSize ≤ x then 0
      else
        let y := modExp (ySquared x) sqrtPower
        if y * y % fieldSize ≠ ySquared x then 0
        else
          let y := if y % 2 ≠ sign.toNat % 2 then fieldSize - y else y
          Address.ofNat (cr.keccak256 (toBytesBE 32 x ++ toBytesBE 32 y)).toNat

def txid (rawLegacy : Bytes) : Bytes32 := cr.sha256 (toBytesBE 32 (cr.sha256 rawLegacy).toNat)

def compareBytes : Bytes → Bytes → Bool
  | a :: as, b :: bs => if a ≠ b then a < b else compareBytes as bs
  | _, _ => false

def lessThan (a b : Bytes) : Bool := if cr.keccak256 a = cr.keccak256 b then false else compareBytes a b

def computeOutputKey (pkA33 pkB33 : Bytes) : Except KeyError Bytes32 := do
  require .pubkeyNot33Bytes (pkA33.length = 33 ∧ pkB33.length = 33)
  found .badPoint (if lessThan cr pkA33 pkB33 then cr.aggregate pkA33 pkB33 else cr.aggregate pkB33 pkA33)

def isTwoOfTwoOutputKey (pkA33 pkB33 : Bytes) (qXOnly : Bytes32) : Except KeyError Bool := do
  let q ← computeOutputKey cr pkA33 pkB33
  .ok (q = qXOnly)

def buildTaprootScriptPubKey (q : Bytes32) : Bytes := [0x51, 0x20] ++ toBytesBE 32 q.toNat

def taggedHash (tag message : Bytes) : Bytes32 :=
  let t := toBytesBE 32 (cr.sha256 tag).toNat
  cr.sha256 (t ++ (t ++ message))

def tapLeafTag : Bytes := [0x54, 0x61, 0x70, 0x4c, 0x65, 0x61, 0x66]

def tapLeafHash (script : Bytes) : Except KeyError Bytes32 := do
  require .leafTooLong (script.length < 0xfd)
  .ok (taggedHash cr tapLeafTag ([0xc0, UInt8.ofNat script.length] ++ script))

def simpleTaprootNumsX : Bytes32 := 0xdca094751109d0bd055d03565874e8276dd53e926b44e3bd1bb6bf4bc130a279

def lpToRemoteOutputKey (lpPaymentPoint : Bytes) : Except KeyError Bytes32 := do
  require .invalidParam (lpPaymentPoint.length = 33)
  let leaf := [0x20] ++ (lpPaymentPoint.drop 1 ++ [0xad, 0x51, 0xb2])
  let leafHash ← tapLeafHash cr leaf
  found .badPoint (cr.taprootOutputKeyWithLeaf simpleTaprootNumsX leafHash)

structure Terms where
  seller : Address
  token : Address
  pricePerBtc : ℕ
  slippageBps : UInt16

def scriptNumLoop : ℕ → ℕ → ℕ → ℕ
  | 0, n, _ => n
  | fuel + 1, n, t => if t ≠ 0 then scriptNumLoop fuel (n + 1) (t >>> 8) else n

-- Four shifts clear a `uint32`.
def scriptNumLength (v : UInt32) : ℕ := scriptNumLoop 4 0 v.toNat

def scriptNum (v : UInt32) : Bytes :=
  if v = 0 then [0x00]
  else
    let n := scriptNumLength v
    let pad := 0x80 ≤ v.toNat / 256 ^ (n - 1)
    toBytesLE n v.toNat ++ (if pad then [0x00] else [])

def termsCommitment (terms : Terms) : Bytes32 :=
  cr.sha256 (toBytesBE 32 terms.seller.word ++ (toBytesBE 32 terms.token.word ++
    (toBytesBE 32 terms.pricePerBtc ++ toBytesBE 32 terms.slippageBps.toNat)))

def cltvRefundLeaf (terms : Terms) (userRefund : Bytes32) (cltvHeight : UInt32) : Bytes :=
  let n := scriptNum cltvHeight
  [0x20] ++ (toBytesBE 32 (termsCommitment cr terms).toNat ++ ([0x75, UInt8.ofNat n.length] ++ (n ++
    ([0xb1, 0x75, 0x20] ++ (toBytesBE 32 userRefund.toNat ++ [0xac])))))

def swapInDepositKey (internalKey : Bytes32) (terms : Terms) (userRefund : Bytes32)
    (cltvHeight : UInt32) : Except KeyError Bytes32 := do
  let leafHash ← tapLeafHash cr (cltvRefundLeaf cr terms userRefund cltvHeight)
  found .badPoint (cr.taprootOutputKeyWithLeaf internalKey leafHash)

def verifySwapInDeposit (internalKey : Bytes32) (terms : Terms) (userRefund : Bytes32)
    (cltvHeight : UInt32) (rawDepositTx : Bytes) : Except KeyError ℕ := do
  let q ← swapInDepositKey cr internalKey terms userRefund cltvHeight
  let sats ← (sumOutputValuesToScript rawDepositTx (buildTaprootScriptPubKey q)).mapError .tx
  require .depositNotPaid (sats ≠ 0)
  .ok sats

def settleFloorUsd (terms : Terms) (sats : ℕ) : Except KeyError ℕ := do
  let gross ← checkedMul .panic 256 sats terms.pricePerBtc
  let keep := 10000 - terms.slippageBps.toNat
  let kept ← checkedMul .panic 256 (gross / 10 ^ 8) keep
  .ok (kept / 10000)

def isCommitmentTx (raw : Bytes) : Reader Bool := do
  let locktime ← extractLocktime raw
  if locktime >>> 24 = 0x20 then do
    let sequence ← extractInput0Sequence raw
    .ok (sequence >>> 24 = 0x80)
  else .ok false

inductive ExitError
  | parse (e : ParseError)
  | exitNotForThisChannel
  | exitLocktimeMismatch
  | exitWitnessMissing
  | exitSignatureInvalid
  | prevoutCountMismatch
  | scriptTooLong
  | panic
  deriving DecidableEq

structure ExitCheck where
  fundingTxId : Bytes32
  fundingVout : UInt32
  fundingSats : ℕ
  q : Bytes32
  cltvDeadline : UInt64

def TransactionInput.spendsOutpoint (input : TransactionInput) (txid : Bytes32) (vout : UInt32) : Bool :=
  bytes32LEtoBE input.previousHash = txid ∧ input.previousIndex = vout

def TransactionOutput.paysScript (script : Bytes) (output : TransactionOutput) : Bool :=
  cr.keccak256 output.script = cr.keccak256 script

def Transaction.paidTo (t : Transaction) (script : Bytes) : ℕ :=
  ((t.outputs.filter (TransactionOutput.paysScript cr script)).map (fun o => o.value.toNat)).sum

def exitStructure (signedExitTx : Bytes) (c : ExitCheck) (lpPayoutScript : Bytes) : Except ExitError ℕ := do
  let t ← (parseTransaction signedExitTx).mapError .parse
  require .exitLocktimeMismatch (t.locktime.toNat = c.cltvDeadline.toNat)
  require .exitNotForThisChannel (t.inputs.any (fun i => i.spendsOutpoint c.fundingTxId c.fundingVout))
  .ok (t.paidTo cr lpPayoutScript)

def fundingInput (t : Transaction) (c : ExitCheck) : Except ExitError ℕ :=
  found .exitNotForThisChannel
    (t.inputs.findIdx? (fun i => i.spendsOutpoint c.fundingTxId c.fundingVout))

def keyPathSig (t : Transaction) (idx : ℕ) : Except ExitError (Bytes32 × Bytes32) :=
  match t.inputs[idx]?.map TransactionInput.witnesses with
  | some [w] =>
    if w.length = 64 then .ok (bytes32 (slice w 0 32), bytes32 (slice w 32 64))
    else .error .exitWitnessMissing
  | _ => .error .exitWitnessMissing

def compactLength (len : ℕ) : Except ExitError Bytes :=
  if 0xfd ≤ len then .error .scriptTooLong else .ok [UInt8.ofNat len]

def packScripts : List Bytes → Except ExitError Bytes
  | [] => .ok []
  | script :: scripts => do
    let len ← compactLength script.length
    let rest ← packScripts scripts
    .ok (len ++ (script ++ rest))

def packOutputs : List TransactionOutput → Except ExitError Bytes
  | [] => .ok []
  | output :: outputs => do
    let len ← compactLength output.script.length
    let rest ← packOutputs outputs
    .ok (toBytesLE 8 output.value.toNat ++ (len ++ (output.script ++ rest)))

def packPrevouts (inputs : List TransactionInput) : Bytes :=
  inputs.flatMap (fun i => toBytesBE 32 (bytes32LEtoBE i.previousHash).toNat ++ toBytesLE 4 i.previousIndex.toNat)

def tapSighashTag : Bytes := [0x54, 0x61, 0x70, 0x53, 0x69, 0x67, 0x68, 0x61, 0x73, 0x68]

def sighash (t : Transaction) (prevValues : List UInt64) (prevScripts : List Bytes)
    (inputIndex : ℕ) : Except ExitError Bytes32 := do
  require .prevoutCountMismatch
    (prevValues.length = t.inputs.length ∧ prevScripts.length = t.inputs.length)
  let spks ← packScripts prevScripts
  let outs ← packOutputs t.outputs
  let hash := fun bs => toBytesBE 32 (cr.sha256 bs).toNat
  .ok (taggedHash cr tapSighashTag ([0x00, 0x00] ++ (toBytesLE 4 t.version.toNat ++
    (toBytesLE 4 t.locktime.toNat ++ (hash (packPrevouts t.inputs) ++
      (hash (prevValues.flatMap (fun v => toBytesLE 8 v.toNat)) ++ (hash spks ++
        (hash (t.inputs.flatMap (fun i => toBytesLE 4 i.sequence.toNat)) ++ (hash outs ++
          ([0x00] ++ toBytesLE 4 inputIndex))))))))))

def verifyExitSignature (signedExitTx : Bytes) (c : ExitCheck) (prevValues : List UInt64)
    (prevScripts : List Bytes) : Except ExitError Unit := do
  let t ← (parseTransaction signedExitTx).mapError .parse
  let idx ← fundingInput t c
  require .panic (idx < prevValues.length ∧ idx < prevScripts.length)
  let prevValues := prevValues.set idx (UInt64.ofNat c.fundingSats)
  let prevScripts := prevScripts.set idx (buildTaprootScriptPubKey c.q)
  let (r, sig) ← keyPathSig t idx
  let m ← sighash cr t prevValues prevScripts idx
  require .exitSignatureInvalid (cr.schnorrVerify c.q r sig m)

def verifyDeadManExit (signedExitTx : Bytes) (c : ExitCheck) (lpPayoutScript : Bytes)
    (prevValues : List UInt64) (prevScripts : List Bytes) : Except ExitError ℕ := do
  let paidToLp ← exitStructure cr signedExitTx c lpPayoutScript
  verifyExitSignature cr signedExitTx c prevValues prevScripts
  .ok paidToLp

variable (cr : Crypto)

def taprootKeyPathSighash (rawTx : Bytes) (prevValues : List UInt64) (prevScripts : List Bytes) (inputIndex : UInt32) :
    Except ExitError Bytes32 := do
  let t ← (parseTransaction rawTx).mapError .parse
  sighash cr t prevValues prevScripts inputIndex.toNat

/-! BIP-341, in its own terms. -/

def compactSize (n : ℕ) : Bytes :=
  if n < 0xfd then VarWidth.byte.encode n
  else if n < 2 ^ 16 then VarWidth.two.encode n
  else if n < 2 ^ 32 then VarWidth.four.encode n
  else VarWidth.eight.encode n

def withSize (script : Bytes) : Bytes := compactSize script.length ++ script

def TxIn.outpoint (input : TxIn) : Bytes := toBytesBE 32 input.prevHash.toNat ++ toBytesLE 4 input.prevVout.toNat

structure SpentOutput where
  amount : UInt64
  scriptPubKey : Bytes

def sha (bs : Bytes) : Bytes := toBytesBE 32 (cr.sha256 bs).toNat

def Tx.sigMsg (tx : Tx) (spent : List SpentOutput) (inputIndex : ℕ) : Bytes :=
  let hashType := [0x00]
  let spendType := [0x00]
  hashType ++ toBytesLE 4 tx.version.toNat ++ toBytesLE 4 tx.locktime.toNat ++
    sha cr (tx.inputs.flatMap TxIn.outpoint) ++ sha cr (spent.flatMap fun o => toBytesLE 8 o.amount.toNat) ++
    sha cr (spent.flatMap fun o => withSize o.scriptPubKey) ++
    sha cr (tx.inputs.flatMap fun i => toBytesLE 4 i.sequence.toNat) ++
    sha cr (tx.outputs.flatMap fun o => toBytesLE 8 o.value.toNat ++ withSize o.script.bytes) ++
    spendType ++ toBytesLE 4 inputIndex

def Tx.keyPathDigest (tx : Tx) (spent : List SpentOutput) (inputIndex : ℕ) : Bytes32 :=
  taggedHash cr tapSighashTag ([0x00] ++ tx.sigMsg cr spent inputIndex)

/-- What the parser returns for a transaction, its witnesses aside. The hash of an outpoint is turned around. -/
structure Transaction.Parses (t : Transaction) (tx : Tx) : Prop where
  version : t.version = tx.version
  locktime : t.locktime = tx.locktime
  inputs : t.inputs.map (fun i => (i.previousHash, i.previousIndex, i.sequence)) =
    tx.inputs.map fun i => (bytes32LEtoBE i.prevHash, i.prevVout, i.sequence)
  outputs : t.outputs.map (fun o => (o.value, o.script)) = tx.outputs.map fun o => (o.value, o.script.bytes)

theorem bytes32LEtoBE_involutive : Function.Involutive bytes32LEtoBE := by
  intro x
  have h : bytes32LEtoBE x = bytes32 (toBytesLE 32 x.toNat) := by rw [bytes32LEtoBE, toBytesBE, List.reverse_reverse]
  rw [h, Spv.bytes32LEtoBE_toBytesLE]

theorem compactLength_eq {script : Bytes} (h : script.length < 0xfd) :
    compactLength script.length = .ok (compactSize script.length) := by
  rw [compactLength, compactSize, if_neg (by omega), if_pos h]
  rfl

theorem packScripts_eq {scripts : List Bytes} (h : ∀ s ∈ scripts, s.length < 0xfd) :
    packScripts scripts = .ok (scripts.flatMap withSize) := by
  induction scripts with
  | nil => rfl
  | cons s scripts ih =>
    obtain ⟨hs, h⟩ := List.forall_mem_cons.mp h
    simp [packScripts, compactLength_eq hs, ih h, withSize]

theorem packOutputs_eq {outputs : List TransactionOutput} (h : ∀ o ∈ outputs, o.script.length < 0xfd) :
    packOutputs outputs = .ok (outputs.flatMap fun o => toBytesLE 8 o.value.toNat ++ withSize o.script) := by
  induction outputs with
  | nil => rfl
  | cons o outputs ih =>
    obtain ⟨ho, h⟩ := List.forall_mem_cons.mp h
    simp [packOutputs, compactLength_eq ho, ih h, withSize]

section

variable {t : Transaction} {tx : Tx} (h : t.Parses tx)

include h

theorem Transaction.Parses.packPrevouts : packPrevouts t.inputs = tx.inputs.flatMap TxIn.outpoint := by
  have hmap := congrArg (List.flatMap fun i : Bytes32 × UInt32 × UInt32 =>
    toBytesBE 32 (bytes32LEtoBE i.1).toNat ++ toBytesLE 4 i.2.1.toNat) h.inputs
  simp only [List.flatMap_map, bytes32LEtoBE_involutive _] at hmap
  exact hmap

theorem Transaction.Parses.sequences : (t.inputs.flatMap fun i => toBytesLE 4 i.sequence.toNat) =
    tx.inputs.flatMap fun i => toBytesLE 4 i.sequence.toNat := by
  have hmap := congrArg (List.flatMap fun i : Bytes32 × UInt32 × UInt32 => toBytesLE 4 i.2.2.toNat) h.inputs
  simpa only [List.flatMap_map] using hmap

theorem Transaction.Parses.packOutputs (hshort : ∀ o ∈ tx.outputs, o.script.bytes.length < 0xfd) :
    packOutputs t.outputs = .ok (tx.outputs.flatMap fun o => toBytesLE 8 o.value.toNat ++ withSize o.script.bytes) := by
  have hshort' : ∀ o ∈ t.outputs, o.script.length < 0xfd := by
    have hmap := congrArg (fun os => ∀ o ∈ os, o.2.length < 0xfd) h.outputs
    simp only [List.forall_mem_map] at hmap
    exact hmap.mpr hshort
  have hmap := congrArg (List.flatMap fun o : UInt64 × Bytes => toBytesLE 8 o.1.toNat ++ withSize o.2) h.outputs
  rw [packOutputs_eq hshort']
  simpa only [List.flatMap_map, Except.ok.injEq] using hmap

end

def lengthCrypto : Crypto :=
  ⟨fun bs => bs.length, fun bs => bs.length, fun _ _ => none, fun _ _ => none, fun _ _ _ _ => false⟩

end QuidProtocol.Btc
