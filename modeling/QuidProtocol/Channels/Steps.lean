import QuidProtocol.Channels.Model

/-!
What each call of the channel contract requires and leaves behind when it returns.
-/

namespace QuidProtocol.Channels

open Lib Btc Function
open Basket (Address)
open Spv (Bytes32)

def BTCChannel.outpoint (ch : BTCChannel) : Bytes32 × UInt32 := (ch.fundingTxId, ch.fundingVout)

section

variable {V E C : Type} {b : IBtc V E C} {dep : Deployment} {ctx : Ctx E} {s s' : State V}
  {i : Bytes32} {p : OpenParams} {raw : Bytes} {exits : List ExitArming}

structure Spends (dep : Deployment) (ctx : Ctx E) (ch : BTCChannel) (raw : Bytes) : Prop where
  included : ∃ proof blockHash index, ctx.checkTxInclusion proof blockHash (txid dep.crypto raw) index
  input : ∃ n, inputCount raw = .ok n ∧ spendsFrom raw ch n 0 = .ok true

theorem not_spends {ch} (h : ∃ n, inputCount raw = .ok n ∧ spendsFrom raw ch n 0 = .ok false) :
    ¬ Spends dep ctx ch raw := by
  obtain ⟨n, hn, hnone⟩ := h
  rintro ⟨-, m, hm, htrue⟩
  obtain rfl := ok_unique hn hm
  cases hnone.symm.trans htrue

variable {txId key swapId : Bytes32} {proof : List Bytes32} {vout : UInt32} {exit : ExitArming} {who lpEth : Address}
  {sats : ℕ} {pop : Bytes}

theorem verifyTxSpendsChannel_eq {blockHash index}
    (h : verifyTxSpendsChannel dep ctx s i raw blockHash proof index = .ok txId) :
    txId = txid dep.crypto raw ∧ Spends dep ctx (s.channels i) raw := by
  obtain ⟨hspv, n, hn, h⟩ := of_require_bind h
  obtain ⟨spends, hspends, h⟩ := of_bind h
  obtain ⟨hreq, h⟩ := of_require h
  refine ⟨ok_inj h, ⟨proof, blockHash, index, hspv⟩, n, mapError_eq_ok.mp hn, ?_⟩
  obtain rfl : spends = true := hreq
  exact mapError_eq_ok.mp hspends

theorem useOutpoint_eq (h : useOutpoint dep s txId vout = .ok s') :
    s.fundingOutpointUsed (outpointKey dep txId vout) = false ∧ s' = { s with
      fundingOutpointUsed := update s.fundingOutpointUsed (outpointKey dep txId vout) true } := by
  obtain ⟨hreq, h⟩ := of_require h
  exact ⟨hreq, ok_inj h⟩

theorem armDeadManExit_eq (h : armDeadManExit dep s i p exit = .ok s') :
    (∃ paid, verifyExit dep s (s.channels i) p exit = .ok paid ∧ exit.checkpointSats ≤ paid) ∧ s' = { s with
      exitArmedOnOutpoint := update s.exitArmedOnOutpoint (currentOutpointKey dep s i)
        (update (s.exitArmedOnOutpoint (currentOutpointKey dep s i))
          exit.cltvDeadline true)
      paidOutSinceCheckpoint := update s.paidOutSinceCheckpoint i 0 } := by
  obtain ⟨-, paid, hpaid, h⟩ := of_require_bind h
  obtain ⟨hreq, h⟩ := of_require h
  exact ⟨⟨paid, hpaid, hreq⟩, ok_inj h⟩

def State.rearmed (s : State V) (armed : Bytes32 → UInt64 → Bool) (paid checkpoint : Bytes32 → ℕ) : State V :=
  { s with
    exitArmedOnOutpoint := armed
    paidOutSinceCheckpoint := paid
    checkpointOf := checkpoint }

def SameButExits (s s' : State V) : Prop := ∃ armed paid checkpoint, s' = s.rearmed armed paid checkpoint

theorem armRungs_frame {before hi hi'}
    (h : armRungs dep i p s before hi exits = .ok (hi', s')) : SameButExits s s' := by
  induction exits generalizing s before hi with
  | nil =>
    cases h
    exact ⟨_, _, _, rfl⟩
  | cons exit exits ih =>
    obtain ⟨-, t, ht, h⟩ := of_require_bind h
    obtain ⟨-, rfl⟩ := armDeadManExit_eq ht
    obtain ⟨armed, paid, checkpoint, rfl⟩ := ih h
    exact ⟨armed, paid, checkpoint, rfl⟩

theorem armLadder_frame (h : armLadder dep s i p exits = .ok s') : SameButExits s s' := by
  obtain ⟨-, -, h⟩ := of_require₂ h
  obtain ⟨u'', -, ⟨hi, t⟩, ht, h⟩ := of_bind₂ h
  obtain ⟨armed, paid, checkpoint, rfl⟩ := armRungs_frame ht
  exact ⟨armed, paid, _, ok_inj h⟩

theorem requireRecipientPoP_eq {bind sig isV2}
    (h : requireRecipientPoP dep s who key sig bind = .ok isV2) : isV2 = true → s.pqVerifier ≠ 0 := by
  simp only [requireRecipientPoP] at h
  split_ifs at h
  · cases h
    exact fun h => absurd h Bool.false_ne_true
  · obtain ⟨hreq, -⟩ := of_require h
    exact fun _ => hreq.1

theorem registerBtcRecipient_eq {isV2} (h : registerBtcRecipient dep s who key isV2 = .ok s') :
    (key ≠ 0 ∧ checkDestination dep s key isV2 = .ok ()) ∧ s' = { s with
      btcRecipientIsV2 := update s.btcRecipientIsV2 who isV2
      btcRecipientOf := update s.btcRecipientOf who key } := by
  obtain ⟨hkey, u', hdest, h⟩ := of_require_bind h
  exact ⟨⟨hkey, hdest⟩, ok_inj h⟩

theorem registerAtOpen_eq {auth} (h : registerAtOpen dep s lpEth auth = .ok s') :
    (s.btcRecipientLocked lpEth = false ∨ s.btcRecipientOf lpEth = auth.btcRecipient) ∧
    ∃ isV2, requireRecipientPoP dep s lpEth auth.btcRecipient auth.btcRecipientPoP
        (dep.crypto.keccak256 auth.lpPaymentPoint) = .ok isV2 ∧ s' = { s with
        btcRecipientIsV2 := update s.btcRecipientIsV2 lpEth isV2
        btcRecipientOf := update s.btcRecipientOf lpEth auth.btcRecipient
        btcRecipientLocked := update s.btcRecipientLocked lpEth true } := by
  obtain ⟨hlocked, isV2, hpop, h⟩ := of_require_bind h
  obtain ⟨t, ht, h⟩ := of_bind h
  obtain ⟨-, rfl⟩ := registerBtcRecipient_eq ht
  exact ⟨hlocked, isV2, hpop, ok_inj h⟩

theorem lpEthOf_eq (h : lpEthOf dep p = .ok lpEth) : lpEth ≠ 0 := by
  obtain ⟨-, hne, h⟩ := of_require₂ h
  cases h
  exact hne

structure Opening where
  lpEth : Address
  isV2 : Bool
  form : Form
  txId : Bytes32
  vout : UInt32
  lpToRemoteKey : Bytes32

def Opening.id (o : Opening) (dep : Deployment) (p : OpenParams) : Bytes32 := channelIdOf dep p o.txId o.vout

def Opening.channel (o : Opening) (dep : Deployment) (p : OpenParams) : BTCChannel :=
  ⟨p.amountSats, o.txId, o.lpEth, o.vout, .opened, o.form, keysHashOf dep p, o.lpToRemoteKey⟩

def Opening.state (o : Opening) (dep : Deployment) (s : State V) (p : OpenParams) (auth : OpenAuth) : State V :=
  { s with
    btcRecipientIsV2 := update s.btcRecipientIsV2 o.lpEth o.isV2
    btcRecipientOf := update s.btcRecipientOf o.lpEth auth.btcRecipient
    btcRecipientLocked := update s.btcRecipientLocked o.lpEth true
    channels := update s.channels (o.id dep p) (o.channel dep p)
    fundingOutpointUsed := update s.fundingOutpointUsed (outpointKey dep o.txId o.vout) true
    hasOpenBtcChannel := update s.hasOpenBtcChannel o.lpEth true
    totalSatsLocked := s.totalSatsLocked + p.amountSats }

structure Opening.Valid (o : Opening) (dep : Deployment) (s : State V) (p : OpenParams) (raw : Bytes)
    (auth : OpenAuth) : Prop where
  lp : lpEthOf dep p = .ok o.lpEth
  noneOpen : s.hasOpenBtcChannel o.lpEth = false
  recipient : s.btcRecipientLocked o.lpEth = false ∨ s.btcRecipientOf o.lpEth = auth.btcRecipient
  possession : requireRecipientPoP dep s o.lpEth auth.btcRecipient auth.btcRecipientPoP
    (dep.crypto.keccak256 auth.lpPaymentPoint) = .ok o.isV2
  located : ∃ spk, fundingForm dep s p = .ok (spk, o.form) ∧ findOutputByScript raw spk = .ok (o.vout, p.amountSats)
  txId : o.txId = txid dep.crypto raw
  keys : proveFundingKeys dep p o.form = .ok ()
  fresh : (s.channels (o.id dep p)).amountSats = 0
  unused : s.fundingOutpointUsed (outpointKey dep o.txId o.vout) = false

theorem openChannel_eq {auth} (h : openChannel b dep ctx s p raw proof auth exits = .ok s') :
    ∃ o : Opening, o.Valid dep s p raw auth ∧ ∃ t, armLadder dep (o.state dep s p auth) (o.id dep p) p exits = .ok t ∧
      s' = depositOrDefer b ctx t (o.id dep p) o.lpEth p.amountSats := by
  obtain ⟨-, lpEth, hlp, h⟩ := of_require_bind h
  obtain ⟨hnone, s1, h1, h⟩ := of_require_bind h
  obtain ⟨hrecipient, isV2, hpop, rfl⟩ := registerAtOpen_eq h1
  obtain ⟨⟨spk, form⟩, hform, h⟩ := of_bind h
  obtain ⟨-, ⟨txId, vout⟩, hloc, h⟩ := of_require_bind h
  obtain ⟨u3, hkeys, h⟩ := of_bind h
  obtain ⟨hfresh, s2, h2, h⟩ := of_require_bind h
  obtain ⟨hunused, rfl⟩ := useOutpoint_eq h2
  obtain ⟨key, -, h⟩ := of_bind h
  obtain ⟨-, h⟩ := of_checkedAdd h
  obtain ⟨t, ht, h⟩ := of_bind h
  obtain ⟨-, ⟨vout', sats⟩, hout, hloc⟩ := of_require_bind hloc
  obtain ⟨hsats, hloc⟩ := of_require hloc
  obtain ⟨htx, rfl⟩ := ok_pair_inj hloc
  obtain rfl : sats = p.amountSats := hsats
  refine ⟨⟨lpEth, isV2, form, txId, vout', key⟩, ?_, t, ht, ok_inj h⟩
  exact ⟨hlp, hnone, hrecipient, hpop, ⟨spk, hform, mapError_eq_ok.mp hout⟩, htx.symm, hkeys, hfresh, hunused⟩

def Deposits (b : IBtc V E C) (ctx : Ctx E) (s : State V) (i : Bytes32) (lpEth : Address) (sats : ℕ)
    (vault : V) (pending : Bytes32 → ℕ) : Prop :=
  b.requestDeposit ctx.env s.vault lpEth sats = .ok vault ∧ pending = s.pendingClaimSats ∨
    vault = s.vault ∧ pending = update s.pendingClaimSats i sats

theorem depositOrDefer_eq (b : IBtc V E C) (ctx : Ctx E) (s : State V) (i lpEth sats) :
    ∃ vault pending, Deposits b ctx s i lpEth sats vault pending ∧
      depositOrDefer b ctx s i lpEth sats = { s with vault, pendingClaimSats := pending } := by
  unfold depositOrDefer Deposits
  cases b.requestDeposit ctx.env s.vault lpEth sats with
  | ok vault => exact ⟨vault, _, .inl ⟨rfl, rfl⟩, rfl⟩
  | error => exact ⟨_, _, .inr ⟨rfl, rfl⟩, rfl⟩

theorem registerChannelClaim_eq (h : registerChannelClaim b ctx s i = .ok s') :
    ∃ sats vault, sats = min (s.pendingClaimSats i) (s.channels i).amountSats ∧ sats ≠ 0 ∧
      b.requestDeposit ctx.env s.vault (s.channels i).lpEth sats = .ok vault ∧
      s' = { s with vault, pendingClaimSats := update s.pendingClaimSats i 0 } := by
  obtain ⟨-, hsats, h⟩ := of_require₂ h
  obtain ⟨vault, hvault, h⟩ := of_bind h
  exact ⟨_, vault, rfl, hsats, mapError_eq_ok.mp hvault, ok_inj h⟩

theorem verifySplice_eq (h : verifySplice dep ctx s i p raw proof = .ok (txId, vout)) :
    txId = txid dep.crypto raw ∧ Spends dep ctx (s.channels i) raw ∧
      ∃ q, computeOutputKey dep.crypto p.lpPubkey p.hopPubkey = .ok q := by
  obtain ⟨id, hid, vout', -, proven, hkeys, h⟩ := of_bind₃ h
  obtain ⟨-, h⟩ := of_require h
  cases h
  obtain ⟨htx, hspends⟩ := verifyTxSpendsChannel_eq hid
  obtain ⟨q, hq, -⟩ := of_bind (mapError_eq_ok.mp hkeys)
  exact ⟨htx, hspends, q, hq⟩

def respliced (dep : Deployment) (ch : BTCChannel) (p : OpenParams) (txId : Bytes32) (vout : UInt32) : BTCChannel :=
  { ch with fundingTxId := txId, fundingVout := vout, amountSats := p.amountSats, keysHash := keysHashOf dep p }

def resplicedState (dep : Deployment) (s : State V) (i : Bytes32) (p : OpenParams)
    (txId : Bytes32) (vout : UInt32) (vault : V) (total paid : ℕ) : State V :=
  { s with
    vault
    channels := update s.channels i (respliced dep (s.channels i) p txId vout)
    fundingOutpointUsed := update s.fundingOutpointUsed (outpointKey dep txId vout) true
    totalSatsLocked := total
    paidOutSinceCheckpoint := update s.paidOutSinceCheckpoint i paid }

structure Resplicing (dep : Deployment) (ctx : Ctx E) (s : State V) (i : Bytes32)
    (p : OpenParams) (raw : Bytes) (vout : UInt32) : Prop where
  isOpen : (s.channels i).status = .opened
  spends : Spends dep ctx (s.channels i) raw
  outputKey : ∃ q, computeOutputKey dep.crypto p.lpPubkey p.hopPubkey = .ok q
  unused : s.fundingOutpointUsed (outpointKey dep (txid dep.crypto raw) vout) = false

def State.endSwapOut (s : State V) (swapId : Bytes32) : State V :=
  { s with
    swapInUsed := update s.swapInUsed swapId true
    pendingOnchainSwapOut := update s.pendingOnchainSwapOut swapId noSwapOut }

theorem Resplicing.ended (h : Resplicing dep ctx s i p raw vout) (swapId : Bytes32) :
    Resplicing dep ctx (s.endSwapOut swapId) i p raw vout :=
  ⟨h.isOpen, h.spends, h.outputKey, h.unused⟩

inductive SpliceSettled (b : IBtc V E C) (ctx : Ctx E) (s : State V) (i : Bytes32)
    (p : OpenParams) : V → V → Prop
  | grown (vault : V) (h : (s.channels i).amountSats < p.amountSats)
    (hvault : b.requestDeposit ctx.env s.vault (s.channels i).lpEth
      (p.amountSats - (s.channels i).amountSats) = .ok vault) :
    SpliceSettled b ctx s i p s.vault vault
  | shrunk (vault : V) (payout : ℕ) (h : p.amountSats < (s.channels i).amountSats)
    (hclaim : s.pendingClaimSats i = 0)
    (hvault : b.resize ctx.env s.vault (s.channels i).lpEth
      ((s.channels i).amountSats - p.amountSats) payout 0 = .ok vault) :
    SpliceSettled b ctx s i p vault vault
  | kept (h : p.amountSats = (s.channels i).amountSats) :
    SpliceSettled b ctx s i p s.vault s.vault

theorem payOut_eq (h : payOut s i sats = .ok s') : ∃ paid, s' = { s with
      paidOutSinceCheckpoint := update s.paidOutSinceCheckpoint i paid } := by
  obtain ⟨paid, -, h⟩ := of_bind h
  exact ⟨paid, ok_inj h⟩

theorem unlockSats_eq (h : unlockSats s sats = .ok s') :
    sats ≤ s.totalSatsLocked ∧ s' = { s with totalSatsLocked := s.totalSatsLocked - sats } := by
  obtain ⟨hle, h⟩ := of_checkedSub h
  exact ⟨hle, ok_inj h⟩

theorem lockSats_eq (h : lockSats s sats = .ok s') : s' = { s with totalSatsLocked := s.totalSatsLocked + sats } := by
  obtain ⟨-, h⟩ := of_checkedAdd h
  exact ok_inj h

theorem shrinkSplice_eq {old} (h : shrinkSplice b dep ctx s i p raw vout old = .ok s') :
    s.pendingClaimSats i = 0 ∧ old - p.amountSats ≤ s.totalSatsLocked ∧
    ∃ payout vault paid, b.resize ctx.env s.vault (s.channels i).lpEth (old - p.amountSats)
        payout 0 = .ok vault ∧ s' = { s with
        vault
        totalSatsLocked := s.totalSatsLocked - (old - p.amountSats)
        paidOutSinceCheckpoint := update s.paidOutSinceCheckpoint i paid } := by
  obtain ⟨s1, h1, h⟩ := of_bind h
  obtain ⟨hle, rfl⟩ := unlockSats_eq h1
  obtain ⟨payout, -, s2, h2, h⟩ := of_bind₂ h
  obtain ⟨paid, rfl⟩ := payOut_eq h2
  obtain ⟨hclaim, vault, hvault, h⟩ := of_require_bind h
  exact ⟨hclaim, hle, _, vault, paid, mapError_eq_ok.mp hvault, ok_inj h⟩

theorem depositGrowth_eq {grewBy} (h : depositGrowth b ctx s i grewBy = .ok s') :
    (grewBy = 0 ∧ s' = s) ∨ grewBy ≠ 0 ∧ ∃ vault,
      b.requestDeposit ctx.env s.vault (s.channels i).lpEth grewBy = .ok vault ∧ s' = { s with vault } := by
  unfold depositGrowth at h
  split_ifs at h with h0
  · exact Or.inl ⟨h0, ok_inj h⟩
  · obtain ⟨vault, hvault, h⟩ := of_bind h
    exact Or.inr ⟨h0, vault, mapError_eq_ok.mp hvault, ok_inj h⟩

theorem moveOutpoint_eq {amount} (h : moveOutpoint dep s i txId vout amount = .ok s') :
    s.fundingOutpointUsed (outpointKey dep txId vout) = false ∧ s' = { s with
      channels := update s.channels i { s.channels i with
        fundingTxId := txId, fundingVout := vout, amountSats := amount }
      fundingOutpointUsed := update s.fundingOutpointUsed (outpointKey dep txId vout) true } :=
  useOutpoint_eq h

theorem rekey_moved (dep : Deployment) (s : State V) (i p txId vout vault total) {paidOut paid}
    (hpaid : paidOut = update s.paidOutSinceCheckpoint i paid) : rekey dep { s with
      vault
      channels := update s.channels i { s.channels i with
        fundingTxId := txId, fundingVout := vout, amountSats := p.amountSats }
      fundingOutpointUsed := update s.fundingOutpointUsed (outpointKey dep txId vout) true
      totalSatsLocked := total
      paidOutSinceCheckpoint := paidOut } i p =
    resplicedState dep s i p txId vout vault total paid := by
  simp [rekey, State.setChannel, resplicedState, respliced, hpaid]

theorem armLadder_respliced {vault total paid}
    (h : armLadder dep (resplicedState dep s i p txId vout vault total paid) i p exits =
      .ok s') : s'.vault = vault ∧ (s'.channels i).lpEth = (s.channels i).lpEth := by
  obtain ⟨armed, paid', checkpoint, rfl⟩ := armLadder_frame h
  simp [State.rearmed, resplicedState, respliced]

theorem splice_eq (h : splice b dep ctx s i p raw proof exits = .ok s') :
    ∃ vout vault vault' total paid t, Resplicing dep ctx s i p raw vout ∧
      total + (s.channels i).amountSats = s.totalSatsLocked + p.amountSats ∧ SpliceSettled b ctx s i p vault vault' ∧
      armLadder dep (resplicedState dep s i p (txid dep.crypto raw) vout vault total paid)
        i p exits = .ok t ∧ s' = { t with vault := vault' } := by
  obtain ⟨hopen, -, h⟩ := of_require₂ h
  obtain ⟨-, ⟨txId, vout⟩, hv, h⟩ := of_require_bind h
  obtain ⟨s1, h1, s2, h2, t, ht, hlast⟩ := of_bind₃ h
  clear h
  obtain ⟨rfl, hspends, hq⟩ := verifySplice_eq hv
  obtain ⟨hunused, rfl⟩ := moveOutpoint_eq h1
  have hre : Resplicing dep ctx s i p raw vout := ⟨hopen, hspends, hq, hunused⟩
  have hkept : s.paidOutSinceCheckpoint = update s.paidOutSinceCheckpoint i
      (s.paidOutSinceCheckpoint i) := (update_eq_self i _).symm
  unfold changeAmount at h2
  split_ifs at h2 with hgrow hshrink
  · obtain rfl := lockSats_eq h2
    rw [rekey_moved dep s i p _ vout s.vault _ hkept] at ht
    obtain ⟨hvault, hlp⟩ := armLadder_respliced ht
    rcases depositGrowth_eq hlast with ⟨h0, -⟩ | ⟨-, vault, hdeposit, rfl⟩
    · omega
    · rw [hvault, hlp] at hdeposit
      refine ⟨vout, s.vault, vault, _, _, t, hre, ?_, .grown vault hgrow hdeposit, ht, rfl⟩
      dsimp only
      omega
  · obtain ⟨hclaim, hle, payout, vault, paid, hresize, rfl⟩ := shrinkSplice_eq h2
    rw [rekey_moved dep s i p _ vout vault _ rfl] at ht
    obtain ⟨rfl, -⟩ := armLadder_respliced ht
    simp only [update_self] at hresize
    rcases depositGrowth_eq hlast with ⟨-, rfl⟩ | ⟨h0, -⟩
    · refine ⟨vout, _, _, _, paid, s', hre, ?_, .shrunk _ payout hshrink hclaim hresize, ht, rfl⟩
      dsimp only at hle ⊢
      omega
    · omega
  · cases h2
    rw [rekey_moved dep s i p _ vout s.vault _ hkept] at ht
    obtain ⟨hvault, -⟩ := armLadder_respliced ht
    have heq : p.amountSats = (s.channels i).amountSats := by omega
    rcases depositGrowth_eq hlast with ⟨-, rfl⟩ | ⟨h0, -⟩
    · refine ⟨vout, s.vault, s.vault, _, _, s', hre, ?_, .kept heq, ht, ?_⟩
      · rw [heq]
      · rw [← hvault]
    · omega

theorem settleSwapOutSlice_eq {shrinkSats} (h : settleSwapOutSlice b ctx s swapId i shrinkSats = .ok s') :
    s.pendingClaimSats i = 0 ∧ ∃ vault paid, b.resize ctx.env s.vault (s.channels i).lpEth shrinkSats
        (shrinkSats - (s.pendingOnchainSwapOut swapId).sats) (s.pendingOnchainSwapOut swapId).usd = .ok vault ∧
      s' = { s with
        vault
        paidOutSinceCheckpoint := update s.paidOutSinceCheckpoint i paid
        swapInUsed := update s.swapInUsed swapId true
        pendingOnchainSwapOut := update s.pendingOnchainSwapOut swapId noSwapOut } := by
  obtain ⟨s1, h1, h⟩ := of_bind h
  obtain ⟨paid, rfl⟩ := payOut_eq h1
  obtain ⟨hclaim, vault, hvault, h⟩ := of_require_bind h
  exact ⟨hclaim, vault, paid, mapError_eq_ok.mp hvault, ok_inj h⟩

structure Delivering (b : IBtc V E C) (ctx : Ctx E) (s : State V) (swapId i : Bytes32)
    (p : OpenParams) (vault : V) : Prop where
  requested : (s.pendingOnchainSwapOut swapId).sats ≠ 0
  unused : s.swapInUsed swapId = false
  shrinks : p.amountSats < (s.channels i).amountSats
  claimed : s.pendingClaimSats i = 0
  resized : b.resize ctx.env s.vault (s.channels i).lpEth
    ((s.channels i).amountSats - p.amountSats)
    ((s.channels i).amountSats - p.amountSats - (s.pendingOnchainSwapOut swapId).sats)
    (s.pendingOnchainSwapOut swapId).usd = .ok vault

theorem deliverSwapOutOnchain_eq {script}
    (h : deliverSwapOutOnchain b dep ctx s swapId i p raw proof script exits = .ok s') :
    ∃ vout vault total paid, Resplicing dep ctx s i p raw vout ∧
      total + (s.channels i).amountSats = s.totalSatsLocked + p.amountSats ∧ Delivering b ctx s swapId i p vault ∧
      armLadder dep (resplicedState dep (s.endSwapOut swapId) i p (txid dep.crypto raw) vout
        vault total paid) i p exits = .ok s' := by
  obtain ⟨hopen, -, h⟩ := of_require₂ h
  obtain ⟨hrequested, hunused, h⟩ := of_require₂ h
  obtain ⟨-, delivered, -, h⟩ := of_require_bind h
  obtain ⟨-, t, ht, hlast⟩ := of_require_bind h
  clear h
  obtain ⟨hshrink, ⟨txId, vout⟩, hv, ht⟩ := of_require_bind ht
  obtain ⟨s1, h1, s2, h2, hslice⟩ := of_bind₂ ht
  clear ht
  obtain ⟨rfl, hspends, hq⟩ := verifySplice_eq hv
  obtain ⟨hfresh, rfl⟩ := moveOutpoint_eq h1
  obtain ⟨hle, rfl⟩ := unlockSats_eq h2
  obtain ⟨hclaim, vault, paid, hresize, rfl⟩ := settleSwapOutSlice_eq hslice
  have hlt := hshrink
  simp only [update_self] at hresize hle
  refine ⟨vout, vault, s.totalSatsLocked - ((s.channels i).amountSats - p.amountSats), paid,
    ⟨hopen, hspends, hq, hfresh⟩, by omega,
    ⟨hrequested, hunused, hlt, hclaim, hresize⟩, ?_⟩
  rw [← rekey_moved dep (s.endSwapOut swapId) i p (txid dep.crypto raw) vout vault _ rfl]
  exact hlast

def State.closeChannel (s : State V) (i : Bytes32) (vault : V) : State V :=
  { s with
    vault
    channels := update s.channels i { s.channels i with status := .closed }
    hasOpenBtcChannel := update s.hasOpenBtcChannel (s.channels i).lpEth false
    totalSatsLocked := s.totalSatsLocked - (s.channels i).amountSats
    pendingClaimSats := update s.pendingClaimSats i 0 }

structure Closing (b : IBtc V E C) (dep : Deployment) (ctx : Ctx E) (s : State V) (i : Bytes32)
    (raw : Bytes) (vault : V) : Prop where
  isOpen : (s.channels i).status = .opened
  spends : Spends dep ctx (s.channels i) raw
  redeemed : s.pendingClaimSats i = 0 →
    ∃ payout, b.requestRedeem ctx.env s.vault (s.channels i).lpEth payout = .ok vault
  deferred : s.pendingClaimSats i ≠ 0 → vault = s.vault

theorem finalizeClose_eq {payout} (hopen : (s.channels i).status = .opened)
    (hspends : Spends dep ctx (s.channels i) raw) (h : finalizeClose b ctx s i payout = .ok s') :
    ∃ vault, Closing b dep ctx s i raw vault ∧ s' = s.closeChannel i vault := by
  obtain ⟨t, ht, h⟩ := of_bind h
  obtain ⟨-, rfl⟩ := unlockSats_eq ht
  unfold redeemIfClaimed at h
  split_ifs at h with hclaimed
  · have h0 : s.pendingClaimSats i = 0 := of_decide_eq_true hclaimed
    obtain ⟨vault, hvault, h⟩ := of_bind h
    refine ⟨vault, ⟨hopen, hspends, fun _ => ⟨_, mapError_eq_ok.mp hvault⟩, fun hne => absurd h0 hne⟩, ?_⟩
    exact ok_inj h
  · have h0 : s.pendingClaimSats i ≠ 0 := fun h0 => hclaimed (decide_eq_true h0)
    exact ⟨s.vault, ⟨hopen, hspends, fun hz => absurd hz h0, fun _ => rfl⟩, ok_inj h⟩

theorem recordClose_eq {proof} (h : recordClose b dep ctx s i p proof = .ok s') :
    ∃ vault, Closing b dep ctx s i proof.rawTx vault ∧ s' = s.closeChannel i vault := by
  obtain ⟨hopen, u1, -, h⟩ := of_require_bind h
  obtain ⟨txId, hspends, coop, -, payout, -, u2, -, h⟩ := of_bind₄ h
  exact finalizeClose_eq hopen (verifyTxSpendsChannel_eq hspends).2 h

theorem recordDeadManExit_eq {proof} (h : recordDeadManExit b dep ctx s i p proof = .ok s') :
    ∃ vault, Closing b dep ctx s i proof.rawTx vault ∧ s' = s.closeChannel i vault := by
  obtain ⟨hopen, locktime, -, h⟩ := of_require_bind h
  obtain ⟨-, u2, -, h⟩ := of_require_bind h
  obtain ⟨txId, hspends, payout, -, h⟩ := of_bind₂ h
  exact finalizeClose_eq hopen (verifyTxSpendsChannel_eq hspends).2 h

theorem recordForceClosePermissionless_eq {proof} (h : recordForceClosePermissionless b dep ctx s i proof = .ok s') :
    ∃ vault, Closing b dep ctx s i proof.rawTx vault ∧ s' = s.closeChannel i vault := by
  obtain ⟨hopen, force, -, h⟩ := of_require_bind h
  obtain ⟨-, txId, hspends, h⟩ := of_require_bind h
  obtain ⟨output, -, h⟩ := of_bind h
  exact finalizeClose_eq hopen (verifyTxSpendsChannel_eq hspends).2 h

theorem emitDeadManExit_eq (h : emitDeadManExit dep ctx s i p exit = .ok s') :
    (s.channels i).status = .opened ∧ s.checkpointOf i ≤ exit.checkpointSats ∧
    ∃ t, armDeadManExit dep s i p exit = .ok t ∧
      s' = { t with checkpointOf := update t.checkpointOf i exit.checkpointSats } := by
  obtain ⟨hopen, -, h⟩ := of_require₂ h
  obtain ⟨-, hle, h⟩ := of_require₂ h
  obtain ⟨t, ht, h⟩ := of_bind h
  exact ⟨hopen, hle, t, ht, ok_inj h⟩

theorem emitDeadManExit_frame (h : emitDeadManExit dep ctx s i p exit = .ok s') : SameButExits s s' := by
  obtain ⟨-, -, t, ht, rfl⟩ := emitDeadManExit_eq h
  obtain ⟨-, rfl⟩ := armDeadManExit_eq ht
  exact ⟨_, _, _, rfl⟩

theorem settleSwapInProven_eq {terms proof}
    (h : settleSwapInProven b dep ctx s terms proof raw = .ok s') : s.swapInUsed (txid dep.crypto raw) = false ∧
    ∃ sats floor consumed vault,
      b.creditSwapIn ctx.env s.vault terms.seller sats terms.token floor = .ok (consumed, vault) ∧
      s' = { s with vault, swapInUsed := update s.swapInUsed (txid dep.crypto raw) true } := by
  obtain ⟨-, hunused, h⟩ := of_require₂ h
  obtain ⟨-, sats, -, h⟩ := of_require_bind h
  obtain ⟨floor, -, ⟨consumed, vault⟩, hvault, h⟩ := of_bind₂ h
  exact ⟨hunused, sats, floor, consumed, vault, mapError_eq_ok.mp hvault, ok_inj h⟩

structure Dropping (b : IBtc V E C) (ctx : Ctx E) (s : State V) (swapId : Bytes32) (vault : V) :
    Prop where
  requested : (s.pendingOnchainSwapOut swapId).sats ≠ 0
  unused : s.swapInUsed swapId = false
  settled : ∃ vault₁ floor consumed, b.subPendingSwapOut s.vault (s.pendingOnchainSwapOut swapId).usd = .ok vault₁ ∧
    b.creditSwapIn ctx.env vault₁ (s.pendingOnchainSwapOut swapId).swapper
      (s.pendingOnchainSwapOut swapId).sats (s.pendingOnchainSwapOut swapId).token floor = .ok (consumed, vault)

theorem reverseSwapOut_eq {requireFull} (h : reverseSwapOut b dep ctx s swapId requireFull = .ok s') :
    ∃ vault, Dropping b ctx s swapId vault ∧ s' = { s.endSwapOut swapId with vault } := by
  obtain ⟨-, hunused, h⟩ := of_require₂ h
  obtain ⟨hrequested, t, ht, h⟩ := of_require_bind h
  obtain ⟨⟨consumed, vault⟩, hvault, h⟩ := of_bind h
  obtain ⟨-, h⟩ := of_require h
  obtain ⟨vault₁, hsub, ht⟩ := of_bind ht
  cases ht
  refine ⟨vault, ⟨hrequested, hunused.2, vault₁, _, consumed,
    mapError_eq_ok.mp hsub, mapError_eq_ok.mp hvault⟩, ok_inj h⟩

theorem refundExpiredSwapOut_eq {minDeliveredUsd} (h : refundExpiredSwapOut b ctx s swapId minDeliveredUsd = .ok s') :
    ∃ vault, Dropping b ctx s swapId vault ∧ s' = { s.endSwapOut swapId with vault } := by
  obtain ⟨hrequested, -, h⟩ := of_require₂ h
  obtain ⟨-, hunused, h⟩ := of_require₂ h
  obtain ⟨t, ht, ⟨consumed, vault⟩, hvault, h⟩ := of_bind₂ h
  obtain ⟨vault₁, hsub, ht⟩ := of_bind ht
  cases ht
  exact ⟨vault, ⟨hrequested, hunused, vault₁, _, consumed,
    mapError_eq_ok.mp hsub, mapError_eq_ok.mp hvault⟩, ok_inj h⟩

structure Requesting (b : IBtc V E C) (ctx : Ctx E) (s : State V) (swapId : Bytes32)
    (so : PendingOnchainSwapOut) (vault : V) : Prop where
  unusedOut : s.swapOutUsed swapId = false
  sats : so.sats ≠ 0
  settled : ∃ vault₁ usdAmount minSats,
    b.creditSwapOut ctx.env s.vault ctx.sender so.token usdAmount minSats = .ok (so.sats, so.usd, vault₁) ∧
    b.addPendingSwapOut vault₁ so.usd = .ok vault

theorem requestSwapOutOnchain_eq {token usdAmount minSats}
    (h : requestSwapOutOnchain b dep ctx s token usdAmount minSats swapId = .ok s') :
    ∃ so vault, Requesting b ctx s swapId so vault ∧ s' = { s with
      vault
      swapOutUsed := update s.swapOutUsed swapId true
      pendingOnchainSwapOut := update s.pendingOnchainSwapOut swapId so } := by
  obtain ⟨hout, -, h⟩ := of_require₂ h
  obtain ⟨-, script, -, h⟩ := of_require_bind h
  obtain ⟨⟨sats, usd6, vault₁⟩, hswap, h⟩ := of_bind h
  obtain ⟨hsats, -, h⟩ := of_require₂ h
  obtain ⟨vault, hadd, h⟩ := of_bind h
  refine ⟨_, vault, ⟨hout.2, hsats, vault₁, usdAmount, minSats,
    mapError_eq_ok.mp hswap, mapError_eq_ok.mp hadd⟩, ok_inj h⟩

theorem recoverBtcRecipient_eq (h : recoverBtcRecipient dep ctx s pop = .ok s') :
    ∃ isV2, (isV2 = true → s.pqVerifier ≠ 0) ∧ s' = { s with
      btcRecipientIsV2 := update s.btcRecipientIsV2 ctx.sender isV2
      btcRecipientOf := update s.btcRecipientOf ctx.sender (s.btcRecoveryOf ctx.sender) } := by
  obtain ⟨-, isV2, hpop, h⟩ := of_require_bind h
  exact ⟨isV2, requireRecipientPoP_eq hpop, ok_inj h⟩

structure SameChannels (s s' : State V) : Prop where
  channels : s'.channels = s.channels
  used : s'.fundingOutpointUsed = s.fundingOutpointUsed
  hasOpen : s'.hasOpenBtcChannel = s.hasOpenBtcChannel
  total : s'.totalSatsLocked = s.totalSatsLocked
  paid : ∀ i, s.paidOutSinceCheckpoint i = 0 → s'.paidOutSinceCheckpoint i = 0

def Call.IsQuiet : Call C → Prop
  | .openChannel .. | .registerChannelClaim _ | .splice .. | .deliverSwapOutOnchain .. => False
  | .recordClose .. | .recordDeadManExit .. | .recordForceClosePermissionless .. => False
  | _ => True

def Call.spend : Call C → Option Bytes
  | .splice _ _ rawSpliceTx _ _ => some rawSpliceTx
  | .deliverSwapOutOnchain _ _ _ rawSpliceTx _ _ _ => some rawSpliceTx
  | .recordClose _ _ proof => some proof.rawTx
  | .recordDeadManExit _ _ proof => some proof.rawTx
  | .recordForceClosePermissionless _ proof => some proof.rawTx
  | _ => none

def Call.closes : Call C → Option Bytes32
  | .recordClose i _ _ => some i
  | .recordDeadManExit i _ _ => some i
  | .recordForceClosePermissionless i _ => some i
  | _ => none

theorem Call.IsQuiet.closes {call : Call C} (h : call.IsQuiet) : call.closes = none := by
  cases call <;> first | rfl | exact h.elim

inductive ChannelStep (b : IBtc V E C) (dep : Deployment) (ctx : Ctx E) (s : State V) :
    Call C → State V → Prop
  | opened {p raw proof auth exits rungs paid checkpoint vault pending : _} (o : Opening)
    (valid : o.Valid dep s p raw auth)
    (armed : armLadder dep (o.state dep s p auth) (o.id dep p) p exits =
      .ok ((o.state dep s p auth).rearmed rungs paid checkpoint))
    (deposits : Deposits b ctx s (o.id dep p) o.lpEth p.amountSats vault pending) :
    ChannelStep b dep ctx s (.openChannel p raw proof auth exits)
      { (o.state dep s p auth).rearmed rungs paid checkpoint with vault, pendingClaimSats := pending }
  | claimed {i vault : _}
    (some : min (s.pendingClaimSats i) (s.channels i).amountSats ≠ 0)
    (deposited : b.requestDeposit ctx.env s.vault (s.channels i).lpEth
      (min (s.pendingClaimSats i) (s.channels i).amountSats) = .ok vault) :
    ChannelStep b dep ctx s (.registerChannelClaim i)
      { s with vault, pendingClaimSats := update s.pendingClaimSats i 0 }
  | spliced {i p raw proof exits vout vault vault' total paid rungs paid' checkpoint : _}
    (resplicing : Resplicing dep ctx s i p raw vout)
    (locked : total + (s.channels i).amountSats = s.totalSatsLocked + p.amountSats)
    (settled : SpliceSettled b ctx s i p vault vault')
    (armed : armLadder dep (resplicedState dep s i p (txid dep.crypto raw) vout vault total paid)
      i p exits =
        .ok ((resplicedState dep s i p (txid dep.crypto raw) vout vault total paid).rearmed rungs paid' checkpoint)) :
    ChannelStep b dep ctx s (.splice i p raw proof exits)
      ((resplicedState dep s i p (txid dep.crypto raw) vout vault' total paid).rearmed rungs paid' checkpoint)
  | delivered {swapId i p raw proof script exits vout vault total paid rungs paid' checkpoint : _}
    (resplicing : Resplicing dep ctx s i p raw vout)
    (locked : total + (s.channels i).amountSats = s.totalSatsLocked + p.amountSats)
    (settled : Delivering b ctx s swapId i p vault)
    (armed : armLadder dep (resplicedState dep (s.endSwapOut swapId) i p (txid dep.crypto raw)
      vout vault total paid) i p exits = .ok ((resplicedState dep (s.endSwapOut swapId) i p
        (txid dep.crypto raw) vout vault total paid).rearmed rungs paid' checkpoint)) :
    ChannelStep b dep ctx s (.deliverSwapOutOnchain swapId i p raw proof script exits)
      ((resplicedState dep (s.endSwapOut swapId) i p (txid dep.crypto raw) vout vault total paid).rearmed
        rungs paid' checkpoint)
  | closed {call i raw vault : _} (spend : call.spend = some raw)
    (closes : call.closes = some i) (closing : Closing b dep ctx s i raw vault) :
    ChannelStep b dep ctx s call (s.closeChannel i vault)
  | kept {call s' : _} (quiet : call.IsQuiet) (same : SameChannels s s')
    (claims : s'.pendingClaimSats = s.pendingClaimSats) : ChannelStep b dep ctx s call s'

/-- What a call that leaves the channels alone does to the rest of the books. -/
inductive QuietStep (b : IBtc V E C) (dep : Deployment) (ctx : Ctx E) (s : State V) : Call C → State V → Prop
  | emitted {i p exit rungs paid checkpoint : _}
    (emits : emitDeadManExit dep ctx s i p exit = .ok (s.rearmed rungs paid checkpoint)) :
    QuietStep b dep ctx s (.emitDeadManExit i p exit) (s.rearmed rungs paid checkpoint)
  | credited {terms proof raw sats floor consumed vault : _}
    (credits : b.creditSwapIn ctx.env s.vault terms.seller sats terms.token floor = .ok (consumed, vault)) :
    QuietStep b dep ctx s (.settleSwapInProven terms proof raw)
      { s with vault, swapInUsed := update s.swapInUsed (txid dep.crypto raw) true }
  | reversed {swapId requireFull vault : _} (drops : Dropping b ctx s swapId vault) :
    QuietStep b dep ctx s (.reverseSwapOut swapId requireFull) { s.endSwapOut swapId with vault }
  | refunded {swapId minDeliveredUsd vault : _} (drops : Dropping b ctx s swapId vault) :
    QuietStep b dep ctx s (.refundExpiredSwapOut swapId minDeliveredUsd) { s.endSwapOut swapId with vault }
  | requested {token usdAmount minSats swapId so vault : _} (requests : Requesting b ctx s swapId so vault) :
    QuietStep b dep ctx s (.requestSwapOutOnchain token usdAmount minSats swapId) { s with
      vault
      swapOutUsed := update s.swapOutUsed swapId true
      pendingOnchainSwapOut := update s.pendingOnchainSwapOut swapId so }
  | registered {key pop isV2 : _} (unlocked : s.btcRecipientLocked ctx.sender = false)
    (backed : isV2 = true → s.pqVerifier ≠ 0) : QuietStep b dep ctx s (.setBtcRecipient key pop) { s with
      btcRecipientIsV2 := update s.btcRecipientIsV2 ctx.sender isV2
      btcRecipientOf := update s.btcRecipientOf ctx.sender key }
  | recoverySet {key pop : _} (unlocked : s.btcRecipientLocked ctx.sender = false) :
    QuietStep b dep ctx s (.setBtcRecovery key pop) { s with btcRecoveryOf := update s.btcRecoveryOf ctx.sender key }
  | recovered {pop isV2 : _} (backed : isV2 = true → s.pqVerifier ≠ 0) :
    QuietStep b dep ctx s (.recoverBtcRecipient pop) { s with
      btcRecipientIsV2 := update s.btcRecipientIsV2 ctx.sender isV2
      btcRecipientOf := update s.btcRecipientOf ctx.sender (s.btcRecoveryOf ctx.sender) }
  | pinned {v : _} (unset : s.pqVerifier = 0) : QuietStep b dep ctx s (.setPqVerifier v) { s with pqVerifier := v }
  | called {c vault : _} (calls : b.exec ctx.env s.vault c = .ok vault) : QuietStep b dep ctx s (.vault c) { s with vault }

theorem quietStep_of_exec {call} (hquiet : call.IsQuiet) (hok : exec b dep ctx s call = .ok s') :
    QuietStep b dep ctx s call s' := by
  cases call with
  | emitDeadManExit =>
    obtain ⟨rungs, paid, checkpoint, rfl⟩ := emitDeadManExit_frame hok
    exact .emitted hok
  | settleSwapInProven =>
    obtain ⟨-, sats, floor, consumed, vault, hvault, rfl⟩ := settleSwapInProven_eq hok
    exact .credited hvault
  | reverseSwapOut =>
    obtain ⟨vault, hdrop, rfl⟩ := reverseSwapOut_eq hok
    exact .reversed hdrop
  | refundExpiredSwapOut =>
    obtain ⟨vault, hdrop, rfl⟩ := refundExpiredSwapOut_eq hok
    exact .refunded hdrop
  | requestSwapOutOnchain =>
    obtain ⟨so, vault, hreq, rfl⟩ := requestSwapOutOnchain_eq hok
    exact .requested hreq
  | setBtcRecipient =>
    obtain ⟨hlocked, isV2, hpop, h⟩ := of_require_bind hok
    obtain ⟨-, rfl⟩ := registerBtcRecipient_eq h
    exact .registered hlocked (requireRecipientPoP_eq hpop)
  | setBtcRecovery =>
    obtain ⟨hlocked, -, h⟩ := of_require₂ hok
    obtain ⟨isV2, -, h⟩ := of_bind h
    obtain rfl := Except.ok.inj h
    exact .recoverySet hlocked
  | recoverBtcRecipient =>
    obtain ⟨isV2, hbacked, rfl⟩ := recoverBtcRecipient_eq hok
    exact .recovered hbacked
  | setPqVerifier =>
    obtain ⟨-, hpin, h⟩ := of_require₂ hok
    obtain rfl := Except.ok.inj h
    exact .pinned hpin.1
  | vault =>
    obtain ⟨vault, hvault, h⟩ := of_bind hok
    obtain rfl := Except.ok.inj h
    exact .called (mapError_eq_ok.mp hvault)
  | _ => exact hquiet.elim

theorem SameChannels.emitted (h : emitDeadManExit dep ctx s i p exit = .ok s') : SameChannels s s' := by
  obtain ⟨-, -, t, ht, rfl⟩ := emitDeadManExit_eq h
  obtain ⟨-, rfl⟩ := armDeadManExit_eq ht
  refine ⟨rfl, rfl, rfl, rfl, fun j hj => ?_⟩
  by_cases hid : j = i
  · simp [hid]
  · simpa [hid] using hj

theorem QuietStep.keeps {call} (h : QuietStep b dep ctx s call s') :
    SameChannels s s' ∧ s'.pendingClaimSats = s.pendingClaimSats := by
  cases h with
  | emitted emits => exact ⟨.emitted emits, rfl⟩
  | _ => exact ⟨⟨rfl, rfl, rfl, rfl, fun _ => id⟩, rfl⟩

theorem channelStep_of_exec {call} (hok : exec b dep ctx s call = .ok s') : ChannelStep b dep ctx s call s' := by
  have hkept (hquiet : call.IsQuiet) : ChannelStep b dep ctx s call s' := by
    obtain ⟨hsame, hclaims⟩ := (quietStep_of_exec hquiet hok).keeps
    exact .kept hquiet hsame hclaims
  cases call with
  | openChannel =>
    obtain ⟨o, ho, t, ht, rfl⟩ := openChannel_eq hok
    obtain ⟨rungs, paid, checkpoint, rfl⟩ := armLadder_frame ht
    obtain ⟨vault, pending, hdeposits, heq⟩ := depositOrDefer_eq b ctx _ _ _ _
    rw [heq]
    exact .opened o ho ht hdeposits
  | registerChannelClaim =>
    obtain ⟨sats, vault, rfl, hsats, hvault, rfl⟩ := registerChannelClaim_eq hok
    exact .claimed hsats hvault
  | splice =>
    obtain ⟨vout, vault, vault', total, paid, t, hre, htotal, hsettled, ht, rfl⟩ := splice_eq hok
    obtain ⟨rungs, paid', checkpoint, rfl⟩ := armLadder_frame ht
    exact .spliced hre htotal hsettled ht
  | deliverSwapOutOnchain =>
    obtain ⟨vout, vault, total, paid, hre, htotal, hdeliver, ht⟩ := deliverSwapOutOnchain_eq hok
    obtain ⟨rungs, paid', checkpoint, rfl⟩ := armLadder_frame ht
    exact .delivered hre htotal hdeliver ht
  | recordClose =>
    obtain ⟨vault, hcl, rfl⟩ := recordClose_eq hok
    exact .closed rfl rfl hcl
  | recordDeadManExit =>
    obtain ⟨vault, hcl, rfl⟩ := recordDeadManExit_eq hok
    exact .closed rfl rfl hcl
  | recordForceClosePermissionless =>
    obtain ⟨vault, hcl, rfl⟩ := recordForceClosePermissionless_eq hok
    exact .closed rfl rfl hcl
  | _ => exact hkept trivial

end

end QuidProtocol.Channels
