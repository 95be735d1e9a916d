import QuidProtocol.Btc.Keys
import QuidProtocol.Vault.Core

/-!
`BTCChannels.sol`: opening, splicing and closing channels, and the ladder of exits.
`BTCChannels.sol`: closing, swaps on-chain, payout destinations, and all calls together.
-/

namespace QuidProtocol.Channels

open Lib Btc Function
open Basket (Address)
open Spv (Bytes32 slice bytes32)

inductive Err
  | badBtcRecipient
  | notSwapper
  | notChannelHop
  | outpointReused
  | swapInReplay
  | swapInPartialRejected
  | nothingToClaim
  | claimNotRegistered
  | wrongBtcRecipient
  | oneChannelPerLp
  | btcRecipientLocked
  | wrongStatus
  | wrongPrevOutpoint
  | spliceUnchanged
  | spliceIsNotAClose
  | spliceKeyNotTwoOfTwo
  | fundingKeyNotTwoOfTwo
  | foreignSpliceOutput
  | deepestRungNotFundingOnly
  | ladderTooDeep
  | ladderTooShallow
  | swapOutReplay
  | swapOutDust
  | notExpired
  | noSuchSwapOut
  | swapOutNotDelivered
  | notAShrink
  | pqVerifierPinned
  | notMsig
  | exitUnderpaysCheckpoint
  | checkpointRegression
  | notForceClose
  | staleClose
  | notDeadManExit
  | swapInDepositReplay
  | notAReversal
  | alreadyOpen
  | badSPV
  | channelKeysMismatch
  | invalidParam
  | amountMismatch
  | pqReverted
  | panic
  | tx (e : TxError)
  | key (e : KeyError)
  | exit (e : ExitError)
  | vault (e : Vault.Err)
  deriving DecidableEq

abbrev Res := Except Err

/-- 0 and 2 in the source, and 0 is also the status of a channel that was never opened. -/
inductive Status
  | opened
  | closed
  deriving DecidableEq

inductive Form
  | v1
  | v2
  deriving DecidableEq

structure BTCChannel where
  amountSats : ℕ
  fundingTxId : Bytes32
  lpEth : Address
  fundingVout : UInt32
  status : Status
  form : Form
  keysHash : Bytes32
  lpToRemoteKey : Bytes32

structure OpenParams where
  fundingBlockHash : Bytes32
  fundingTxIndex : ℕ
  lpPubkey : Bytes
  hopPubkey : Bytes
  lpIdentityPubkey : Bytes
  amountSats : ℕ
  fundingTaproot : Bytes32

structure OpenAuth where
  btcRecipient : Bytes32
  btcRecipientPoP : Bytes
  lpPaymentPoint : Bytes

structure ExitArming where
  prevValues : List UInt64
  prevScripts : List Bytes
  cltvDeadline : UInt64
  checkpointSats : ℕ
  signedExitTx : Bytes

structure TxProof where
  rawTx : Bytes
  blockHash : Bytes32
  merkleProof : List Bytes32
  txIndex : ℕ

structure DepositProof where
  userRefund : Bytes32
  cltvHeight : UInt32
  blockHash : Bytes32
  txIndex : ℕ
  merkleProof : List Bytes32

structure PendingOnchainSwapOut where
  swapper : Address
  sats : ℕ
  requestBlock : ℕ
  swapperScriptHash : Bytes32
  usd : ℕ
  token : Address

structure IPqVerifier where
  fundingScript : Bytes → Bytes → Option Bytes
  payoutScript : Bytes32 → Option Bytes
  verifyPossession : Bytes32 → Bytes32 → Bytes → Bool
  verifyExit : Bytes → Bytes → Bytes → List UInt64 → List Bytes → Bool

structure IBtc (V E C : Type) where
  requestDeposit : E → V → Address → ℕ → Vault.Res V
  requestRedeem : E → V → Address → ℕ → Vault.Res V
  resize : E → V → Address → ℕ → ℕ → ℕ → Vault.Res V
  creditSwapIn : E → V → Address → ℕ → Address → ℕ → Vault.Res (ℕ × V)
  creditSwapOut : E → V → Address → Address → ℕ → ℕ → Vault.Res (ℕ × ℕ × V)
  addPendingSwapOut : V → ℕ → Vault.Res V
  subPendingSwapOut : V → ℕ → Vault.Res V
  exec : E → V → C → Vault.Res V

structure Deployment where
  crypto : Crypto
  verifierAt : Address → IPqVerifier
  chainId : ℕ
  self : Address
  mainHop : Address
  fallbackHop : Address
  btcDepositKey : Bytes32
  msig : Address
  hops : mainHop ≠ 0 ∧ fallbackHop ≠ 0 ∧ mainHop ≠ fallbackHop

structure Ctx (E : Type) where
  sender : Address
  blockNumber : ℕ
  checkTxInclusion : List Bytes32 → Bytes32 → Bytes32 → ℕ → Bool
  env : E

structure State (V : Type) where
  vault : V
  channels : Bytes32 → BTCChannel
  fundingOutpointUsed : Bytes32 → Bool
  totalSatsLocked : ℕ
  btcRecipientOf : Address → Bytes32
  btcRecipientIsV2 : Address → Bool
  btcRecipientLocked : Address → Bool
  btcRecoveryOf : Address → Bytes32
  hasOpenBtcChannel : Address → Bool
  exitArmedOnOutpoint : Bytes32 → UInt64 → Bool
  checkpointOf : Bytes32 → ℕ
  paidOutSinceCheckpoint : Bytes32 → ℕ
  pendingClaimSats : Bytes32 → ℕ
  swapInUsed : Bytes32 → Bool
  swapOutUsed : Bytes32 → Bool
  pendingOnchainSwapOut : Bytes32 → PendingOnchainSwapOut
  pqVerifier : Address

def noChannel : BTCChannel := ⟨0, 0, 0, 0, .opened, .v1, 0, 0⟩

def noSwapOut : PendingOnchainSwapOut := ⟨0, 0, 0, 0, 0, 0⟩

def deployed {V : Type} (vault : V) : State V where
  vault
  channels _ := noChannel
  fundingOutpointUsed _ := false
  totalSatsLocked := 0
  btcRecipientOf _ := 0
  btcRecipientIsV2 _ := false
  btcRecipientLocked _ := false
  btcRecoveryOf _ := 0
  hasOpenBtcChannel _ := false
  exitArmedOnOutpoint _ _ := false
  checkpointOf _ := 0
  paidOutSinceCheckpoint _ := 0
  pendingClaimSats _ := 0
  swapInUsed _ := false
  swapOutUsed _ := false
  pendingOnchainSwapOut _ := noSwapOut
  pqVerifier := 0

def abiWord (x : ℕ) : Bytes := toBytesBE 32 x

def abiBytes (bs : Bytes) : Bytes := abiWord bs.length ++ (bs ++ List.replicate ((32 - bs.length % 32) % 32) 0)

def abiKeys (lpPubkey hopPubkey : Bytes) : Bytes :=
  abiWord 0x40 ++ (abiWord (0x40 + (abiBytes lpPubkey).length) ++ (abiBytes lpPubkey ++ abiBytes hopPubkey))

def abiChannel (lpPubkey hopPubkey : Bytes) (fundingTxId : Bytes32) (vout : UInt32) : Bytes :=
  abiWord 0x80 ++ (abiWord (0x80 + (abiBytes lpPubkey).length) ++ (abiWord fundingTxId.toNat ++
    (abiWord vout.toNat ++ (abiBytes lpPubkey ++ abiBytes hopPubkey))))

def abiOutpoint (fundingTxId : Bytes32) (vout : UInt32) : Bytes := abiWord fundingTxId.toNat ++ abiWord vout.toNat

variable {V E C : Type} (b : IBtc V E C) (dep : Deployment) (ctx : Ctx E)

def onlyHop : Res Unit := require .notChannelHop (ctx.sender = dep.mainHop ∨ ctx.sender = dep.fallbackHop)

variable (s : State V) (ch : BTCChannel) (p : OpenParams) (exit : ExitArming)

def whenOpen (channelId : Bytes32) : Res Unit :=
  require .wrongStatus ((s.channels channelId).status = .opened)

def requireClaimRegistered (channelId : Bytes32) : Res Unit :=
  require .claimNotRegistered (s.pendingClaimSats channelId = 0)

def spendsFrom (raw : Bytes) (ch : BTCChannel) : ℕ → ℕ → Reader Bool
  | 0, _ => .ok false
  | n + 1, i => do
    let (prevHash, prevVout) ← extractInputPrevOutpoint raw [] i
    if prevHash = ch.fundingTxId ∧ prevVout = ch.fundingVout then .ok true
    else spendsFrom raw ch n (i + 1)

def verifyTxSpendsChannel (channelId : Bytes32) (rawTx : Bytes) (blockHash : Bytes32)
    (merkleProof : List Bytes32) (txIndex : ℕ) : Res Bytes32 := do
  let txId := txid dep.crypto rawTx
  require .badSPV (ctx.checkTxInclusion merkleProof blockHash txId txIndex)
  let nIn ← (inputCount rawTx).mapError .tx
  let spends ← (spendsFrom rawTx (s.channels channelId) nIn 0).mapError .tx
  require .wrongPrevOutpoint spends
  .ok txId

def outpointKey (fundingTxId : Bytes32) (vout : UInt32) : Bytes32 := dep.crypto.keccak256 (abiOutpoint fundingTxId vout)

def currentOutpointKey (channelId : Bytes32) : Bytes32 :=
  outpointKey dep (s.channels channelId).fundingTxId (s.channels channelId).fundingVout

def useOutpoint (fundingTxId : Bytes32) (vout : UInt32) : Res (State V) := do
  let op := outpointKey dep fundingTxId vout
  require .outpointReused (s.fundingOutpointUsed op = false)
  .ok { s with fundingOutpointUsed := update s.fundingOutpointUsed op true }

def keysHashOf : Bytes32 := dep.crypto.keccak256 (abiKeys p.lpPubkey p.hopPubkey)

def State.setChannel (channelId : Bytes32) (ch : BTCChannel) : State V :=
  { s with channels := update s.channels channelId ch }

def lpPayoutScript (lpEth : Address) : Res Bytes :=
  if s.btcRecipientIsV2 lpEth then
    found .pqReverted ((dep.verifierAt s.pqVerifier).payoutScript (s.btcRecipientOf lpEth))
  else .ok (buildTaprootScriptPubKey (s.btcRecipientOf lpEth))

def btcRecipientPoPDigest (lpEth : Address) (bindHash : Bytes32) : Bytes32 :=
  dep.crypto.sha256 (abiWord dep.chainId ++ (abiWord dep.self.word ++ (abiWord lpEth.word ++ abiWord bindHash.toNat)))

def schnorrPoP (xOnlyKey digest : Bytes32) (sig : Bytes) : Bool :=
  sig.length = 64 ∧ dep.crypto.schnorrVerify xOnlyKey (bytes32 (slice sig 0 32)) (bytes32 (slice sig 32 64)) digest

def requireRecipientPoP (lpEth : Address) (xOnlyKey : Bytes32) (sig : Bytes) (bindHash : Bytes32) : Res Bool :=
  let digest := btcRecipientPoPDigest dep lpEth bindHash
  if schnorrPoP dep xOnlyKey digest sig then .ok false
  else do
    require .badBtcRecipient
      (s.pqVerifier ≠ 0 ∧ (dep.verifierAt s.pqVerifier).verifyPossession xOnlyKey digest sig)
    .ok true

def checkDestination (xOnlyKey : Bytes32) (isV2 : Bool) : Res Unit :=
  if isV2 then do
    let _ ← found .pqReverted ((dep.verifierAt s.pqVerifier).payoutScript xOnlyKey)
    .ok ()
  else require .badBtcRecipient (isValidXOnlyKey xOnlyKey)

def registerBtcRecipient (who : Address) (xOnlyKey : Bytes32) (isV2 : Bool) : Res (State V) := do
  require .badBtcRecipient (xOnlyKey ≠ 0)
  checkDestination dep s xOnlyKey isV2
  .ok { s with
    btcRecipientIsV2 := update s.btcRecipientIsV2 who isV2
    btcRecipientOf := update s.btcRecipientOf who xOnlyKey }

def exitCheck (q : Bytes32) (exit : ExitArming) : ExitCheck :=
  ⟨ch.fundingTxId, ch.fundingVout, ch.amountSats, q, exit.cltvDeadline⟩

def verifyExitPq : Res ℕ := do
  let script ← lpPayoutScript dep s ch.lpEth
  let paid ← (exitStructure dep.crypto exit.signedExitTx (exitCheck ch 0 exit) script).mapError .exit
  require (.exit .exitSignatureInvalid) ((dep.verifierAt s.pqVerifier).verifyExit exit.signedExitTx
    p.lpPubkey p.hopPubkey exit.prevValues exit.prevScripts)
  .ok paid

def verifyExit : Res ℕ :=
  match ch.form with
  | .v2 => verifyExitPq dep s ch p exit
  | .v1 => do
    let q ← (computeOutputKey dep.crypto p.lpPubkey p.hopPubkey).mapError .key
    let script ← lpPayoutScript dep s ch.lpEth
    (verifyDeadManExit dep.crypto exit.signedExitTx (exitCheck ch q exit) script
      exit.prevValues exit.prevScripts).mapError .exit

def armDeadManExit (channelId : Bytes32) (p : OpenParams) (exit : ExitArming) : Res (State V) := do
  require .invalidParam (exit.cltvDeadline ≠ 0)
  let paid ← verifyExit dep s (s.channels channelId) p exit
  require .exitUnderpaysCheckpoint (exit.checkpointSats ≤ paid)
  let op := currentOutpointKey dep s channelId
  .ok { s with
    exitArmedOnOutpoint := update s.exitArmedOnOutpoint op
      (update (s.exitArmedOnOutpoint op) exit.cltvDeadline true)
    paidOutSinceCheckpoint := update s.paidOutSinceCheckpoint channelId 0 }

def Behind (before : Option UInt64) (deadline : UInt64) : Prop := ∀ d ∈ before, d < deadline

instance decidableBehind (before : Option UInt64) (deadline : UInt64) : Decidable (Behind before deadline) :=
  Option.decidableForallMem before

def armRungs (channelId : Bytes32) (p : OpenParams) : State V → Option UInt64 → ℕ → List ExitArming → Res (ℕ × State V)
  | s, _, hi, [] => .ok (hi, s)
  | s, before, hi, exit :: exits => do
    require .ladderTooShallow (Behind before exit.cltvDeadline)
    let s ← armDeadManExit dep s channelId p exit
    armRungs channelId p s (some exit.cltvDeadline) (max hi exit.checkpointSats) exits

def maxLadderRungs : ℕ := 16

def armLadder (channelId : Bytes32) (p : OpenParams) (exits : List ExitArming) : Res (State V) := do
  require .ladderTooShallow (2 ≤ exits.length)
  require .ladderTooDeep (exits.length ≤ maxLadderRungs)
  require .deepestRungNotFundingOnly (∀ exit ∈ exits.getLast?, exit.prevValues.length = 1)
  let (hi, s) ← armRungs dep channelId p s none 0 exits
  .ok { s with checkpointOf := update s.checkpointOf channelId hi }

def fundingForm : Res (Bytes × Form) :=
  if s.pqVerifier ≠ 0 ∧ p.lpPubkey.length ≠ 33 then do
    let spk ← found .pqReverted ((dep.verifierAt s.pqVerifier).fundingScript p.lpPubkey p.hopPubkey)
    .ok (spk, .v2)
  else do
    require .invalidParam (p.lpPubkey.length = 33 ∧ p.hopPubkey.length = 33)
    .ok (buildTaprootScriptPubKey p.fundingTaproot, .v1)

def verifyAndLocate (rawFundingTx : Bytes) (fundingMerkleProof : List Bytes32)
    (fundingSpk : Bytes) : Res (Bytes32 × UInt32) := do
  let fundingTxId := txid dep.crypto rawFundingTx
  require .badSPV
    (ctx.checkTxInclusion fundingMerkleProof p.fundingBlockHash fundingTxId p.fundingTxIndex)
  let (vout, outputSats) ← (findOutputByScript rawFundingTx fundingSpk).mapError .tx
  require .amountMismatch (outputSats = p.amountSats)
  .ok (fundingTxId, vout)

def proveFundingKeys (form : Form) : Res Unit :=
  match form with
  | .v2 => .ok ()
  | .v1 => do
    let proven ← (isTwoOfTwoOutputKey dep.crypto p.lpPubkey p.hopPubkey p.fundingTaproot).mapError .key
    require .fundingKeyNotTwoOfTwo proven

def channelIdOf (fundingTxId : Bytes32) (vout : UInt32) : Bytes32 :=
  dep.crypto.keccak256 (abiChannel p.lpPubkey p.hopPubkey fundingTxId vout)

def registerAtOpen (lpEth : Address) (auth : OpenAuth) : Res (State V) := do
  require .wrongBtcRecipient
    (s.btcRecipientLocked lpEth = false ∨ s.btcRecipientOf lpEth = auth.btcRecipient)
  let isV2 ← requireRecipientPoP dep s lpEth auth.btcRecipient auth.btcRecipientPoP
    (dep.crypto.keccak256 auth.lpPaymentPoint)
  let s ← registerBtcRecipient dep s lpEth auth.btcRecipient isV2
  .ok { s with btcRecipientLocked := update s.btcRecipientLocked lpEth true }

def lpEthOf : Res Address := do
  let keccak := dep.crypto.keccak256
  require .invalidParam (keccak p.lpIdentityPubkey = keccak p.lpPubkey ∨ keccak p.lpIdentityPubkey = keccak p.hopPubkey)
  let lpEth := evmAddressOfCompressed dep.crypto p.lpIdentityPubkey
  require .invalidParam (lpEth ≠ 0)
  .ok lpEth

def depositOrDefer (channelId : Bytes32) (lpEth : Address) (sats : ℕ) : State V :=
  match b.requestDeposit ctx.env s.vault lpEth sats with
  | .ok vault => { s with vault }
  | .error _ => { s with pendingClaimSats := update s.pendingClaimSats channelId sats }

def openChannel (rawFundingTx : Bytes) (fundingMerkleProof : List Bytes32) (auth : OpenAuth) (exits : List ExitArming) :
    Res (State V) := do
  onlyHop dep ctx
  let lpEth ← lpEthOf dep p
  require .oneChannelPerLp (s.hasOpenBtcChannel lpEth = false)
  let s ← registerAtOpen dep s lpEth auth
  let (fundingSpk, form) ← fundingForm dep s p
  require .invalidParam (p.amountSats ≠ 0)
  let (fundingTxId, vout) ← verifyAndLocate dep ctx p rawFundingTx fundingMerkleProof fundingSpk
  let channelId := channelIdOf dep p fundingTxId vout
  proveFundingKeys dep p form
  require .alreadyOpen ((s.channels channelId).amountSats = 0)
  let s ← useOutpoint dep s fundingTxId vout
  let lpToRemoteKey ← (lpToRemoteOutputKey dep.crypto auth.lpPaymentPoint).mapError .key
  let total ← checkedAdd .panic 256 s.totalSatsLocked p.amountSats
  let s := { s.setChannel channelId
      ⟨p.amountSats, fundingTxId, lpEth, vout, .opened, form, keysHashOf dep p, lpToRemoteKey⟩ with
    hasOpenBtcChannel := update s.hasOpenBtcChannel lpEth true
    totalSatsLocked := total }
  let s ← armLadder dep s channelId p exits
  .ok (depositOrDefer b ctx s channelId lpEth p.amountSats)

def registerChannelClaim (channelId : Bytes32) : Res (State V) := do
  require .nothingToClaim (s.pendingClaimSats channelId ≠ 0)
  let sats := min (s.pendingClaimSats channelId) (s.channels channelId).amountSats
  require .nothingToClaim (sats ≠ 0)
  let vault ← (b.requestDeposit ctx.env s.vault (s.channels channelId).lpEth sats).mapError .vault
  .ok { s with vault, pendingClaimSats := update s.pendingClaimSats channelId 0 }

def locateChannelOutput (rawTx : Bytes) (p : OpenParams) : Res UInt32 := do
  require .invalidParam (p.lpPubkey.length = 33 ∧ p.hopPubkey.length = 33)
  let (vout, outputSats) ←
    (findOutputByScript rawTx (buildTaprootScriptPubKey p.fundingTaproot)).mapError .tx
  require .amountMismatch (outputSats = p.amountSats)
  .ok vout

def verifySplice (channelId : Bytes32) (p : OpenParams) (rawSpliceTx : Bytes)
    (spliceMerkleProof : List Bytes32) : Res (Bytes32 × UInt32) := do
  let newTxId ← verifyTxSpendsChannel dep ctx s channelId rawSpliceTx p.fundingBlockHash
    spliceMerkleProof p.fundingTxIndex
  let newVout ← locateChannelOutput rawSpliceTx p
  let proven ← (isTwoOfTwoOutputKey dep.crypto p.lpPubkey p.hopPubkey p.fundingTaproot).mapError .key
  require .spliceKeyNotTwoOfTwo proven
  .ok (newTxId, newVout)

def moveOutpoint (channelId : Bytes32) (newTxId : Bytes32) (newVout : UInt32) (amountSats : ℕ) : Res (State V) :=
  useOutpoint dep (s.setChannel channelId { s.channels channelId with
    fundingTxId := newTxId
    fundingVout := newVout
    amountSats }) newTxId newVout

def withdrawalPayout (lpEth : Address) (rawSpliceTx : Bytes) (fundingVout : UInt32) : Res ℕ := do
  let p2tr ← lpPayoutScript dep s lpEth
  let foreign ← (sumOutputValuesExcept rawSpliceTx fundingVout p2tr).mapError .tx
  require .foreignSpliceOutput (foreign = 0)
  (sumOutputValuesToScript rawSpliceTx p2tr).mapError .tx

def payOut (channelId : Bytes32) (sats : ℕ) : Res (State V) := do
  let paid ← checkedAdd .panic 256 (s.paidOutSinceCheckpoint channelId) sats
  .ok { s with paidOutSinceCheckpoint := update s.paidOutSinceCheckpoint channelId paid }

def unlockSats (sats : ℕ) : Res (State V) := do
  let totalSatsLocked ← checkedSub .panic s.totalSatsLocked sats
  .ok { s with totalSatsLocked }

def lockSats (sats : ℕ) : Res (State V) := do
  let totalSatsLocked ← checkedAdd .panic 256 s.totalSatsLocked sats
  .ok { s with totalSatsLocked }

def shrinkSplice (channelId : Bytes32) (p : OpenParams) (rawSpliceTx : Bytes)
    (newVout : UInt32) (old : ℕ) : Res (State V) := do
  let lpEth := (s.channels channelId).lpEth
  let shrinkSats := old - p.amountSats
  let s ← unlockSats s shrinkSats
  let payout ← withdrawalPayout dep s lpEth rawSpliceTx newVout
  let lpPayoutSats := min payout old
  let s ← payOut s channelId lpPayoutSats
  requireClaimRegistered s channelId
  let vault ← (b.resize ctx.env s.vault lpEth shrinkSats lpPayoutSats 0).mapError .vault
  .ok { s with vault }

def changeAmount (channelId : Bytes32) (p : OpenParams) (rawSpliceTx : Bytes)
    (newVout : UInt32) (old : ℕ) : Res (State V) :=
  if old < p.amountSats then lockSats s (p.amountSats - old)
  else if p.amountSats < old then shrinkSplice b dep ctx s channelId p rawSpliceTx newVout old
  else .ok s

def rekey (channelId : Bytes32) (p : OpenParams) : State V :=
  s.setChannel channelId { s.channels channelId with keysHash := keysHashOf dep p }

def depositGrowth (channelId : Bytes32) (grewBy : ℕ) : Res (State V) :=
  if grewBy = 0 then .ok s
  else do
    let vault ← (b.requestDeposit ctx.env s.vault (s.channels channelId).lpEth grewBy).mapError .vault
    .ok { s with vault }

def splice (channelId : Bytes32) (p : OpenParams) (rawSpliceTx : Bytes)
    (spliceMerkleProof : List Bytes32) (exits : List ExitArming) : Res (State V) := do
  whenOpen s channelId
  onlyHop dep ctx
  let old := (s.channels channelId).amountSats
  require .spliceUnchanged
    (p.amountSats ≠ old ∨ keysHashOf dep p ≠ (s.channels channelId).keysHash)
  let (newTxId, newVout) ← verifySplice dep ctx s channelId p rawSpliceTx spliceMerkleProof
  let s ← moveOutpoint dep s channelId newTxId newVout p.amountSats
  let s ← changeAmount b dep ctx s channelId p rawSpliceTx newVout old
  let s ← armLadder dep (rekey dep s channelId p) channelId p exits
  depositGrowth b ctx s channelId (p.amountSats - old)

variable {V E C : Type} (b : IBtc V E C) (dep : Deployment) (ctx : Ctx E)

variable (s : State V) (p : OpenParams)

def redeemIfClaimed (lpEth : Address) (lpPayoutSats : ℕ) (claimed : Bool) : Res (State V) :=
  if claimed then do
    let vault ← (b.requestRedeem ctx.env s.vault lpEth lpPayoutSats).mapError .vault
    .ok { s with vault }
  else .ok s

def finalizeClose (channelId : Bytes32) (lpPayoutSats : ℕ) : Res (State V) := do
  let ch := s.channels channelId
  let claimed : Bool := s.pendingClaimSats channelId = 0
  let s ← unlockSats { s.setChannel channelId { ch with status := .closed } with
    hasOpenBtcChannel := update s.hasOpenBtcChannel ch.lpEth false } ch.amountSats
  redeemIfClaimed b ctx
    { s with pendingClaimSats := update s.pendingClaimSats channelId 0 } ch.lpEth
    (min lpPayoutSats ch.amountSats) claimed

def lpFinalBalance (lpEth : Address) (rawCloseTx : Bytes) : Res ℕ := do
  let script ← lpPayoutScript dep s lpEth
  (sumOutputValuesToScript rawCloseTx script).mapError .tx

def requireChannelKeys (channelId : Bytes32) (p : OpenParams) : Res Unit :=
  require .channelKeysMismatch (keysHashOf dep p = (s.channels channelId).keysHash)

/-- The funding script it looks for is the secp one, whatever the form of the channel. -/
def requireNotSplice (channelId : Bytes32) (p : OpenParams) (rawTx : Bytes) : Res Unit := do
  requireChannelKeys dep s channelId p
  let q ← (computeOutputKey dep.crypto p.lpPubkey p.hopPubkey).mapError .key
  let sats ← (sumOutputValuesToScript rawTx (buildTaprootScriptPubKey q)).mapError .tx
  require .spliceIsNotAClose (sats = 0)

def closeIsCoop (rawCloseTx : Bytes) : Res Bool := do
  let locktime ← (extractLocktime rawCloseTx).mapError .tx
  if locktime = 0 then .ok true
  else do
    let force ← (isCommitmentTx rawCloseTx).mapError .tx
    require .notForceClose force
    .ok false

def closePayout (channelId : Bytes32) (rawCloseTx : Bytes) (coop : Bool) : Res ℕ :=
  if coop then lpFinalBalance dep s (s.channels channelId).lpEth rawCloseTx
  else .ok (s.channels channelId).amountSats

def requireFresh (channelId : Bytes32) (coop : Bool) (lpPayoutSats : ℕ) : Res Unit := do
  let ckpt := s.checkpointOf channelId
  if ctx.sender ≠ (s.channels channelId).lpEth ∧ coop ∧ ckpt ≠ 0 then
    let paid ← checkedAdd .panic 256 lpPayoutSats (s.paidOutSinceCheckpoint channelId)
    require .staleClose (ckpt ≤ paid)
  else .ok ()

def recordClose (channelId : Bytes32) (p : OpenParams) (proof : TxProof) : Res (State V) := do
  whenOpen s channelId
  requireNotSplice dep s channelId p proof.rawTx
  let _ ← verifyTxSpendsChannel dep ctx s channelId proof.rawTx proof.blockHash proof.merkleProof
    proof.txIndex
  let coop ← closeIsCoop proof.rawTx
  let lpPayoutSats ← closePayout dep s channelId proof.rawTx coop
  requireFresh ctx s channelId coop lpPayoutSats
  finalizeClose b ctx s channelId lpPayoutSats

def recordDeadManExit (channelId : Bytes32) (p : OpenParams) (proof : TxProof) : Res (State V) := do
  whenOpen s channelId
  let locktime ← (extractLocktime proof.rawTx).mapError .tx
  require .notDeadManExit
    (s.exitArmedOnOutpoint (currentOutpointKey dep s channelId) locktime.toUInt64)
  requireNotSplice dep s channelId p proof.rawTx
  let _ ← verifyTxSpendsChannel dep ctx s channelId proof.rawTx proof.blockHash proof.merkleProof
    proof.txIndex
  let lpPayoutSats ← lpFinalBalance dep s (s.channels channelId).lpEth proof.rawTx
  finalizeClose b ctx s channelId lpPayoutSats

def forceCloseLpOutput (ch : BTCChannel) (rawCloseTx : Bytes) : Res ℕ :=
  if ch.lpToRemoteKey = 0 then .ok 0
  else (sumOutputValuesToScript rawCloseTx (buildTaprootScriptPubKey ch.lpToRemoteKey)).mapError .tx

def recordForceClosePermissionless (channelId : Bytes32) (proof : TxProof) : Res (State V) := do
  whenOpen s channelId
  let force ← (isCommitmentTx proof.rawTx).mapError .tx
  require .notForceClose force
  let _ ← verifyTxSpendsChannel dep ctx s channelId proof.rawTx proof.blockHash proof.merkleProof
    proof.txIndex
  let _ ← forceCloseLpOutput (s.channels channelId) proof.rawTx
  finalizeClose b ctx s channelId (s.channels channelId).amountSats

def emitDeadManExit (channelId : Bytes32) (p : OpenParams) (exit : ExitArming) : Res (State V) := do
  whenOpen s channelId
  onlyHop dep ctx
  requireChannelKeys dep s channelId p
  require .checkpointRegression (s.checkpointOf channelId ≤ exit.checkpointSats)
  let s ← armDeadManExit dep s channelId p exit
  .ok { s with checkpointOf := update s.checkpointOf channelId exit.checkpointSats }

def settleSwapInProven (terms : Terms) (proof : DepositProof) (rawDepositTx : Bytes) : Res (State V) := do
  onlyHop dep ctx
  let depositId := txid dep.crypto rawDepositTx
  require .swapInDepositReplay (s.swapInUsed depositId = false)
  require .badSPV (ctx.checkTxInclusion proof.merkleProof proof.blockHash depositId proof.txIndex)
  let sats ← (verifySwapInDeposit dep.crypto dep.btcDepositKey terms proof.userRefund
    proof.cltvHeight rawDepositTx).mapError .key
  let floor ← (settleFloorUsd terms sats).mapError .key
  let (_, vault) ← (b.creditSwapIn ctx.env s.vault terms.seller sats terms.token floor).mapError .vault
  .ok { s with vault, swapInUsed := update s.swapInUsed depositId true }

def dropSwapOut (swapId : Bytes32) : Res (State V) := do
  let vault ← (b.subPendingSwapOut s.vault (s.pendingOnchainSwapOut swapId).usd).mapError .vault
  .ok { s with
    vault
    swapInUsed := update s.swapInUsed swapId true
    pendingOnchainSwapOut := update s.pendingOnchainSwapOut swapId noSwapOut }

def reverseSwapOut (swapId : Bytes32) (requireFull : Bool) : Res (State V) := do
  onlyHop dep ctx
  require .swapInReplay (swapId ≠ 0 ∧ s.swapInUsed swapId = false)
  let so := s.pendingOnchainSwapOut swapId
  require .notAReversal (so.sats ≠ 0)
  let s ← dropSwapOut b s swapId
  let (consumed, vault) ← (b.creditSwapIn ctx.env s.vault so.swapper so.sats so.token so.usd).mapError .vault
  require .swapInPartialRejected (requireFull = false ∨ so.sats ≤ consumed)
  .ok { s with vault }

def swapOutRefundBlocks : ℕ := 7200

def refundExpiredSwapOut (swapId : Bytes32) (minDeliveredUsd : ℕ) : Res (State V) := do
  let so := s.pendingOnchainSwapOut swapId
  require .swapOutReplay (so.sats ≠ 0)
  require .notSwapper (ctx.sender = so.swapper)
  require .notExpired (so.requestBlock + swapOutRefundBlocks ≤ ctx.blockNumber)
  require .swapInReplay (s.swapInUsed swapId = false)
  let s ← dropSwapOut b s swapId
  let (_, vault) ←
    (b.creditSwapIn ctx.env s.vault so.swapper so.sats so.token minDeliveredUsd).mapError .vault
  .ok { s with vault }

def requestSwapOutOnchain (token : Address) (usdAmount minSats : ℕ) (swapId : Bytes32) : Res (State V) := do
  require .swapOutReplay (swapId ≠ 0 ∧ s.swapOutUsed swapId = false)
  require .swapOutReplay (s.swapInUsed swapId = false)
  require .badBtcRecipient (s.btcRecipientOf ctx.sender ≠ 0)
  let swapperScript ← lpPayoutScript dep s ctx.sender
  let (sats, usd6, vault) ←
    (b.creditSwapOut ctx.env s.vault ctx.sender token usdAmount minSats).mapError .vault
  require .swapOutDust (sats ≠ 0)
  require .invalidParam (sats < 2 ^ 64 ∧ usd6 < 2 ^ 96)
  let vault ← (b.addPendingSwapOut vault usd6).mapError .vault
  .ok { s with
    vault
    swapOutUsed := update s.swapOutUsed swapId true
    pendingOnchainSwapOut := update s.pendingOnchainSwapOut swapId
      ⟨ctx.sender, sats, ctx.blockNumber % 2 ^ 32, dep.crypto.keccak256 swapperScript, usd6, token⟩ }

def settleSwapOutSlice (swapId channelId : Bytes32) (shrinkSats : ℕ) : Res (State V) := do
  let so := s.pendingOnchainSwapOut swapId
  let s ← payOut s channelId shrinkSats
  requireClaimRegistered s channelId
  let vault ← (b.resize ctx.env s.vault (s.channels channelId).lpEth shrinkSats (shrinkSats - so.sats)
    so.usd).mapError .vault
  .ok { s with
    vault
    swapInUsed := update s.swapInUsed swapId true
    pendingOnchainSwapOut := update s.pendingOnchainSwapOut swapId noSwapOut }

def deliverSwapOut (swapId channelId : Bytes32) (p : OpenParams) (rawSpliceTx : Bytes)
    (spliceMerkleProof : List Bytes32) : Res (State V) := do
  let old := (s.channels channelId).amountSats
  require .notAShrink (p.amountSats < old)
  let (newTxId, newVout) ← verifySplice dep ctx s channelId p rawSpliceTx spliceMerkleProof
  let s ← moveOutpoint dep s channelId newTxId newVout p.amountSats
  let s ← unlockSats s (old - p.amountSats)
  settleSwapOutSlice b ctx s swapId channelId (old - p.amountSats)

def deliverSwapOutOnchain (swapId channelId : Bytes32) (p : OpenParams)
    (rawSpliceTx : Bytes) (spliceMerkleProof : List Bytes32) (swapperScript : Bytes)
    (exits : List ExitArming) : Res (State V) := do
  whenOpen s channelId
  onlyHop dep ctx
  let so := s.pendingOnchainSwapOut swapId
  require .noSuchSwapOut (so.sats ≠ 0)
  require .swapOutReplay (s.swapInUsed swapId = false)
  require .invalidParam (dep.crypto.keccak256 swapperScript = so.swapperScriptHash)
  let delivered ← (sumOutputValuesToScript rawSpliceTx swapperScript).mapError .tx
  require .swapOutNotDelivered (so.sats ≤ delivered)
  let s ← deliverSwapOut b dep ctx s swapId channelId p rawSpliceTx spliceMerkleProof
  armLadder dep (rekey dep s channelId p) channelId p exits

def setBtcRecipient (xOnlyKey : Bytes32) (pop : Bytes) : Res (State V) := do
  require .btcRecipientLocked (s.btcRecipientLocked ctx.sender = false)
  let isV2 ← requireRecipientPoP dep s ctx.sender xOnlyKey pop 0
  registerBtcRecipient dep s ctx.sender xOnlyKey isV2

def setBtcRecovery (key : Bytes32) (pop : Bytes) : Res (State V) := do
  require .btcRecipientLocked (s.btcRecipientLocked ctx.sender = false)
  require .badBtcRecipient (key ≠ 0)
  let _ ← requireRecipientPoP dep s ctx.sender key pop 1
  .ok { s with btcRecoveryOf := update s.btcRecoveryOf ctx.sender key }

def recoverBtcRecipient (pop : Bytes) : Res (State V) := do
  let key := s.btcRecoveryOf ctx.sender
  require .badBtcRecipient (key ≠ 0)
  let isV2 ← requireRecipientPoP dep s ctx.sender key pop key
  .ok { s with
    btcRecipientIsV2 := update s.btcRecipientIsV2 ctx.sender isV2
    btcRecipientOf := update s.btcRecipientOf ctx.sender key }

def setPqVerifier (v : Address) : Res (State V) := do
  require .notMsig (ctx.sender = dep.msig)
  require .pqVerifierPinned (s.pqVerifier = 0 ∧ v ≠ 0)
  .ok { s with pqVerifier := v }

inductive Call (C : Type)
  | openChannel (p : OpenParams) (rawFundingTx : Bytes) (fundingMerkleProof : List Bytes32)
    (auth : OpenAuth) (exits : List ExitArming)
  | registerChannelClaim (channelId : Bytes32)
  | splice (channelId : Bytes32) (p : OpenParams) (rawSpliceTx : Bytes)
    (spliceMerkleProof : List Bytes32) (exits : List ExitArming)
  | emitDeadManExit (channelId : Bytes32) (p : OpenParams) (exit : ExitArming)
  | recordClose (channelId : Bytes32) (p : OpenParams) (proof : TxProof)
  | recordDeadManExit (channelId : Bytes32) (p : OpenParams) (proof : TxProof)
  | recordForceClosePermissionless (channelId : Bytes32) (proof : TxProof)
  | settleSwapInProven (terms : Terms) (proof : DepositProof) (rawDepositTx : Bytes)
  | reverseSwapOut (swapId : Bytes32) (requireFull : Bool)
  | refundExpiredSwapOut (swapId : Bytes32) (minDeliveredUsd : ℕ)
  | requestSwapOutOnchain (token : Address) (usdAmount minSats : ℕ) (swapId : Bytes32)
  | deliverSwapOutOnchain (swapId channelId : Bytes32) (p : OpenParams) (rawSpliceTx : Bytes)
    (spliceMerkleProof : List Bytes32) (swapperScript : Bytes) (exits : List ExitArming)
  | setBtcRecipient (xOnlyKey : Bytes32) (pop : Bytes)
  | setBtcRecovery (key : Bytes32) (pop : Bytes)
  | recoverBtcRecipient (pop : Bytes)
  | setPqVerifier (v : Address)
  | vault (c : C)

def callVault (c : C) : Res (State V) := do
  let vault ← (b.exec ctx.env s.vault c).mapError .vault
  .ok { s with vault }

def exec : Call C → Res (State V)
  | .openChannel p raw proof auth exits => openChannel b dep ctx s p raw proof auth exits
  | .registerChannelClaim channelId => registerChannelClaim b ctx s channelId
  | .splice channelId p raw proof exits => splice b dep ctx s channelId p raw proof exits
  | .emitDeadManExit channelId p exit => emitDeadManExit dep ctx s channelId p exit
  | .recordClose channelId p proof => recordClose b dep ctx s channelId p proof
  | .recordDeadManExit channelId p proof => recordDeadManExit b dep ctx s channelId p proof
  | .recordForceClosePermissionless channelId proof =>
    recordForceClosePermissionless b dep ctx s channelId proof
  | .settleSwapInProven terms proof raw => settleSwapInProven b dep ctx s terms proof raw
  | .reverseSwapOut swapId requireFull => reverseSwapOut b dep ctx s swapId requireFull
  | .refundExpiredSwapOut swapId minDeliveredUsd => refundExpiredSwapOut b ctx s swapId minDeliveredUsd
  | .requestSwapOutOnchain token usdAmount minSats swapId =>
    requestSwapOutOnchain b dep ctx s token usdAmount minSats swapId
  | .deliverSwapOutOnchain swapId channelId p raw proof swapperScript exits =>
    deliverSwapOutOnchain b dep ctx s swapId channelId p raw proof swapperScript exits
  | .setBtcRecipient xOnlyKey pop => setBtcRecipient dep ctx s xOnlyKey pop
  | .setBtcRecovery key pop => setBtcRecovery dep ctx s key pop
  | .recoverBtcRecipient pop => recoverBtcRecipient dep ctx s pop
  | .setPqVerifier v => setPqVerifier dep ctx s v
  | .vault c => callVault b ctx s c

def step (c : Ctx E × Call C) : Res (State V) := exec b dep c.1 s c.2

end QuidProtocol.Channels
