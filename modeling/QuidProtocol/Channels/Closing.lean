import QuidProtocol.Channels.Ladder
import QuidProtocol.Channels.Registry

/-!
Which closes the contract takes: a cooperative close or an exit of the ladder.
-/

namespace QuidProtocol.Channels

open Lib Btc Function
open Spv (Bytes32)

variable {V E C : Type} {b : IBtc V E C} {dep : Deployment} {ctx : Ctx E} {s s' : State V}
  {i channelId : Bytes32} {p : OpenParams} {tx : Btc.Tx}

def inputSpends (ch : BTCChannel) (input : TxIn) : Bool :=
  input.prevHash = ch.fundingTxId ∧ input.prevVout = ch.fundingVout

theorem spendsFrom_serialize (hlegacy : tx.Legacy) (ch : BTCChannel) {n k} (hn : k + n = tx.inputs.length) :
    spendsFrom tx.serialize ch n k = .ok ((tx.inputs.drop k).any (inputSpends ch)) := by
  induction n generalizing k with
  | zero =>
    rw [List.drop_eq_nil_of_le (by omega)]
    rfl
  | succ n ih =>
    have hk : k < tx.inputs.length := by omega
    rw [spendsFrom, Tx.extractInputPrevOutpoint_serialize hlegacy, List.getElem?_eq_getElem hk,
      List.drop_eq_getElem_cons hk, List.any_cons]
    simp only [ok_bind]
    rw [ih (by omega)]
    split_ifs with hspends
    · rw [inputSpends, decide_eq_true hspends, Bool.true_or]
    · rw [inputSpends, decide_eq_false hspends, Bool.false_or]

theorem legacy_of_spends {ch} (h : tx.inputs.any (inputSpends ch) = true) : tx.Legacy := by
  left
  intro hnil
  rw [hnil] at h
  cases h

theorem verifyTxSpendsChannel_serialize {blockHash proof index}
    (hspends : tx.inputs.any (inputSpends (s.channels i)) = true)
    (hincluded : ctx.checkTxInclusion proof blockHash (txid dep.crypto tx.serialize) index = true) :
    verifyTxSpendsChannel dep ctx s i tx.serialize blockHash proof index = .ok (txid dep.crypto tx.serialize) := by
  have hlegacy := legacy_of_spends hspends
  have hfound := spendsFrom_serialize hlegacy (s.channels i) (Nat.zero_add tx.inputs.length)
  rw [List.drop_zero, hspends] at hfound
  simp only [verifyTxSpendsChannel]
  rw [require_of _ hincluded, ok_bind, Tx.inputCount_serialize hlegacy, Except.mapError, ok_bind, hfound]
  rfl

theorem valueTo_lt (tx : Btc.Tx) (spk : Bytes) : tx.valueTo spk < 2 ^ 256 := by
  have hvalue : ∀ v ∈ (tx.outputs.filter fun o => o.script.bytes = spk).map fun o => o.value.toNat, v ≤ 2 ^ 64 := by
    intro v hv
    obtain ⟨o, -, rfl⟩ := List.mem_map.mp hv
    exact o.value.toNat_lt.le
  have hcount : tx.outputs.length < 2 ^ 64 := tx.outputs_fit.trans_le (by cases tx.outputsWidth <;> decide)
  have hsum := List.sum_le_card_nsmul _ _ hvalue
  rw [List.length_map, smul_eq_mul] at hsum
  have hle := List.length_filter_le (fun o : TxOut => decide (o.script.bytes = spk)) tx.outputs
  calc tx.valueTo spk ≤ _ := hsum
    _ ≤ tx.outputs.length * 2 ^ 64 := Nat.mul_le_mul_right _ hle
    _ < 2 ^ 256 := by omega

def BTCChannel.lockedSats (ch : BTCChannel) : ℕ := if ch.status = .opened then ch.amountSats else 0

def Call.params : Call C → Option OpenParams
  | .openChannel p _ _ _ _ => some p
  | .splice _ p _ _ _ => some p
  | .deliverSwapOutOnchain _ _ p _ _ _ _ => some p
  | _ => none

def HasOutputKey (dep : Deployment) (p : OpenParams) : Prop :=
  ∃ q, computeOutputKey dep.crypto p.lpPubkey p.hopPubkey = .ok q

structure Closable (dep : Deployment) (ps : List OpenParams) (s : State V) : Prop where
  locked : s.totalSatsLocked = ∑ i, (s.channels i).lockedSats
  paid : ∀ i, s.paidOutSinceCheckpoint i = 0
  keyed : ∀ i, (s.channels i).Created → ∃ q ∈ ps, keysHashOf dep q = (s.channels i).keysHash ∧
    (HasOutputKey dep q ∨ (s.channels i).form = .v2 ∧ q.lpPubkey.length ≠ 33)

theorem armRungs_paid {before hi hi' exits} (h : armRungs dep channelId p s before hi exits = .ok (hi', s')) :
    s'.paidOutSinceCheckpoint = if exits = [] then s.paidOutSinceCheckpoint
      else update s.paidOutSinceCheckpoint channelId 0 := by
  induction exits generalizing s before hi with
  | nil =>
    cases h
    rfl
  | cons exit exits ih =>
    obtain ⟨-, t, ht, h⟩ := of_require_bind h
    obtain ⟨-, rfl⟩ := armDeadManExit_eq ht
    rw [ih h, update_idem, ite_self, if_neg (List.cons_ne_nil exit exits)]

theorem armLadder_paid {exits} (h : armLadder dep s channelId p exits = .ok s') :
    s'.paidOutSinceCheckpoint = update s.paidOutSinceCheckpoint channelId 0 := by
  have hdepth := (armLadder_eq h).1.depth
  obtain ⟨-, -, h⟩ := of_require₂ h
  obtain ⟨-, ⟨hi, t⟩, ht, h⟩ := of_require_bind h
  have hpaid := armRungs_paid ht
  cases h
  rw [if_neg (by rintro rfl; cases hdepth)] at hpaid
  exact hpaid

section

variable {ps : List OpenParams} {t : State V} {exits : List ExitArming}

theorem Closable.congr (h : Closable dep ps s) (same : SameChannels s s') : Closable dep ps s' := by
  constructor
  · rw [same.total, same.channels]
    exact h.locked
  · exact fun i => same.paid i (h.paid i)
  · rw [same.channels]
    exact h.keyed

theorem Closable.rearmed {ch} (h : Closable dep ps s) (ht : armLadder dep t i p exits = .ok s')
    (hkeyed : ∃ q ∈ ps, keysHashOf dep q = ch.keysHash ∧ (HasOutputKey dep q ∨ ch.form = .v2 ∧ q.lpPubkey.length ≠ 33))
    (hchannels : t.channels = update s.channels i ch)
    (hlocked : t.totalSatsLocked + (s.channels i).lockedSats = s.totalSatsLocked + ch.lockedSats)
    (hpaid : ∀ j ≠ i, t.paidOutSinceCheckpoint j = s.paidOutSinceCheckpoint j) : Closable dep ps s' := by
  have hzero := armLadder_paid ht
  obtain ⟨armed, paid, checkpoint, rfl⟩ := armLadder_frame ht
  constructor
  · have hsum := sum_comp_update BTCChannel.lockedSats (f := s.channels) (a := i)
      (add_comm ch.lockedSats (s.channels i).lockedSats)
    rw [← hchannels, ← h.locked, ← hlocked] at hsum
    exact (Nat.add_right_cancel hsum).symm
  · intro j
    rw [hzero]
    by_cases hj : j = i
    · rw [hj, update_self]
    · rw [update_of_ne hj, hpaid j hj, h.paid]
  · intro j hc
    dsimp only [State.rearmed] at hc ⊢
    rw [hchannels] at hc ⊢
    by_cases hj : j = i
    · rw [hj, update_self]
      exact hkeyed
    · rw [update_of_ne hj] at hc ⊢
      exact h.keyed j hc

theorem opening_keys {o : Opening} {raw : Bytes} {auth : OpenAuth} (h : o.Valid dep s p raw auth) :
    HasOutputKey dep p ∨ o.form = .v2 ∧ p.lpPubkey.length ≠ 33 := by
  obtain ⟨spk, hform, -⟩ := h.located
  have hkeys := h.keys
  unfold fundingForm at hform
  split_ifs at hform with hpq
  · obtain ⟨script, -, hform⟩ := of_bind hform
    exact Or.inr ⟨(ok_pair_inj hform).2.symm, hpq.2⟩
  · obtain ⟨-, hform⟩ := of_require hform
    rw [← (ok_pair_inj hform).2] at hkeys
    obtain ⟨proven, hproven, -⟩ := of_bind hkeys
    obtain ⟨q, hq, -⟩ := of_bind (mapError_eq_ok.mp hproven)
    exact Or.inl ⟨q, hq⟩

theorem Closable.opening {o : Opening} {raw : Bytes} {auth : OpenAuth} (h : Closable dep ps s)
    (ho : o.Valid dep s p raw auth) (hp : p ∈ ps)
    (ht : armLadder dep (o.state dep s p auth) (o.id dep p) p exits = .ok t) : Closable dep ps t := by
  refine h.rearmed ht ⟨p, hp, rfl, opening_keys ho⟩ rfl ?_ fun _ _ => rfl
  have hzero : (s.channels (o.id dep p)).lockedSats = 0 := by rw [BTCChannel.lockedSats, ho.fresh, ite_self]
  rw [hzero]
  rfl

theorem Closable.resplicing {raw vout txId vault total paid}
    (h : Closable dep ps s) (hre : Resplicing dep ctx s i p raw vout) (hp : p ∈ ps)
    (hlocked : total + (s.channels i).amountSats = s.totalSatsLocked + p.amountSats)
    (ht : armLadder dep (resplicedState dep s i p txId vout vault total paid) i p exits = .ok t) :
    Closable dep ps t := by
  refine h.rearmed ht ⟨p, hp, rfl, Or.inl hre.outputKey⟩ rfl ?_ ?_
  · rw [BTCChannel.lockedSats, BTCChannel.lockedSats, respliced, if_pos hre.isOpen, if_pos hre.isOpen]
    exact hlocked
  · exact fun j hj => update_of_ne hj _ _

theorem Closable.closing {raw vault} (h : Closable dep ps s)
    (hcl : Closing b dep ctx s i raw vault) : Closable dep ps (s.closeChannel i vault) := by
  constructor
  · have hopen : (s.channels i).lockedSats = (s.channels i).amountSats := if_pos hcl.isOpen
    have hsum := sum_comp_update BTCChannel.lockedSats (f := s.channels) (a := i)
      (x := { s.channels i with status := .closed }) (v := (s.channels i).amountSats) (w := 0)
      (by rw [hopen, BTCChannel.lockedSats]; simp)
    rw [← h.locked] at hsum
    exact Nat.sub_eq_of_eq_add hsum.symm
  · exact h.paid
  · intro j hc
    by_cases hj : j = i
    · subst hj
      simp only [State.closeChannel, update_self] at hc ⊢
      exact h.keyed j hc
    · simp only [State.closeChannel, update_of_ne hj] at hc ⊢
      exact h.keyed j hc

theorem Closable.step {c : Ctx E × Call C} (h : Closable dep ps s) (hps : ∀ q ∈ c.2.params, q ∈ ps)
    (hok : step b dep s c = .ok s') : Closable dep ps s' := by
  obtain ⟨ctx, call⟩ := c
  cases channelStep_of_exec hok with
  | opened o valid armed =>
    have ht := h.opening valid (hps _ rfl) armed
    exact ht.congr ⟨rfl, rfl, rfl, rfl, fun _ => id⟩
  | claimed => exact h.congr ⟨rfl, rfl, rfl, rfl, fun _ => id⟩
  | spliced resplicing locked settled armed =>
    have ht := h.resplicing resplicing (hps _ rfl) locked armed
    exact ht.congr ⟨rfl, rfl, rfl, rfl, fun _ => id⟩
  | @delivered swapId _ _ _ _ _ _ _ _ _ _ _ _ _ resplicing locked settled armed =>
    have hended : Closable dep ps (s.endSwapOut swapId) := h.congr ⟨rfl, rfl, rfl, rfl, fun _ => id⟩
    exact hended.resplicing (resplicing.ended swapId) (hps _ rfl) locked armed
  | closed spend closes closing => exact h.closing closing
  | kept quiet same => exact h.congr same

def givenKeys (cs : List (Ctx E × Call C)) : List OpenParams := cs.filterMap fun c => c.2.params

theorem closable_of_run {vault cs}
    (hrun : runAll (Channels.step b dep) (deployed vault) cs = .ok s) : Closable dep (givenKeys cs) s := by
  have hkeys : EveryStep (Channels.step b dep) (fun _ c => ∀ q ∈ c.2.params, q ∈ givenKeys cs)
      (deployed vault) cs :=
    everyStep_of_forall _ fun c hc _ q hq => List.mem_filterMap.mpr ⟨c, hc, hq⟩
  refine runAll_invariant (fun _ _ _ hs hps hok => hs.step hps hok) ?_ hkeys hrun
  constructor
  · exact Finset.sum_const_zero.symm
  · exact fun _ => rfl
  · exact fun _ hc => absurd rfl hc

end

def ownFundingScript (dep : Deployment) (s : State V) (p : OpenParams) : Res Bytes :=
  if p.lpPubkey.length = 33 ∧ p.hopPubkey.length = 33 then do
    let q ← (computeOutputKey dep.crypto p.lpPubkey p.hopPubkey).mapError .key
    .ok (buildTaprootScriptPubKey q)
  else found .pqReverted ((dep.verifierAt s.pqVerifier).fundingScript p.lpPubkey p.hopPubkey)

/-- The keys the channel was given last. Its record of them is a hash, so that of all keys given in the
run no others may have the same one. -/
@[mk_iff]
structure OwnKeys (dep : Deployment) (ps : List OpenParams) (ch : BTCChannel) (p : OpenParams) : Prop where
  hash : keysHashOf dep p = ch.keysHash
  only : ∀ q ∈ ps, keysHashOf dep q = keysHashOf dep p → q.lpPubkey = p.lpPubkey ∧ q.hopPubkey = p.hopPubkey

@[mk_iff]
structure ClosingTx (b : IBtc V E C) (dep : Deployment) (ctx : Ctx E) (s : State V) (i : Bytes32)
    (p : OpenParams) (proof : TxProof) (tx : Btc.Tx) : Prop where
  raw : proof.rawTx = tx.serialize
  included : ctx.checkTxInclusion proof.merkleProof proof.blockHash (txid dep.crypto tx.serialize)
    proof.txIndex = true
  spends : tx.inputs.any (inputSpends (s.channels i)) = true
  leaves : ∀ script, ownFundingScript dep s p = .ok script → tx.valueTo script = 0
  pays : ∃ script, lpPayoutScript dep s (s.channels i).lpEth = .ok script ∧ s.checkpointOf i ≤ tx.valueTo script ∧
    ∃ vault, b.requestRedeem ctx.env s.vault (s.channels i).lpEth
      (min (tx.valueTo script) (s.channels i).amountSats) = .ok vault

section

variable {ps : List OpenParams} {proof : TxProof}

theorem lengths_of_hasOutputKey (h : HasOutputKey dep p) : p.lpPubkey.length = 33 ∧ p.hopPubkey.length = 33 := by
  obtain ⟨q, hq⟩ := h
  obtain ⟨hlen, -⟩ := of_require hq
  exact hlen

theorem Closable.keys (h : Closable dep ps s) (hc : (s.channels i).Created) (hown : OwnKeys dep ps (s.channels i) p) :
    HasOutputKey dep p ∨ (s.channels i).form = .v2 ∧ p.lpPubkey.length ≠ 33 := by
  obtain ⟨q, hq, hhash, hkeys⟩ := h.keyed i hc
  obtain ⟨hlp, hhop⟩ := hown.only q hq (hhash.trans hown.hash.symm)
  rwa [HasOutputKey, hlp, hhop] at hkeys

theorem requireNotSplice_iff (h : ClosingTx b dep ctx s i p proof tx)
    (hhash : keysHashOf dep p = (s.channels i).keysHash) :
    requireNotSplice dep s i p tx.serialize = .ok () ↔ HasOutputKey dep p := by
  have hlegacy := legacy_of_spends h.spends
  rw [requireNotSplice, requireChannelKeys, require_of _ hhash, ok_bind]
  constructor
  · intro hok
    obtain ⟨q, hq, -⟩ := of_bind hok
    exact ⟨q, mapError_eq_ok.mp hq⟩
  · intro hkey
    have hlengths := lengths_of_hasOutputKey hkey
    obtain ⟨q, hq⟩ := hkey
    have hscript : ownFundingScript dep s p = .ok (buildTaprootScriptPubKey q) := by
      rw [ownFundingScript, if_pos hlengths, hq]
      rfl
    rw [hq, Except.mapError, ok_bind, Tx.sumOutputValuesToScript_serialize hlegacy, h.leaves _ hscript]
    rfl

theorem unlockSats_of {sats} (h : sats ≤ s.totalSatsLocked) :
    unlockSats s sats = .ok { s with totalSatsLocked := s.totalSatsLocked - sats } := by
  rw [unlockSats, checkedSub, if_pos h]
  rfl

theorem redeemIfClaimed_ok {lpEth payout vault}
    (h : b.requestRedeem ctx.env s.vault lpEth payout = .ok vault) (claimed : Bool) :
    ∃ s', redeemIfClaimed b ctx s lpEth payout claimed = .ok s' := by
  cases claimed with
  | false => exact ⟨s, rfl⟩
  | true =>
    rw [redeemIfClaimed, if_pos rfl, h]
    exact ⟨_, rfl⟩

theorem finalizeClose_ok {payout vault} (hlocked : (s.channels i).amountSats ≤ s.totalSatsLocked)
    (hvault : b.requestRedeem ctx.env s.vault (s.channels i).lpEth (min payout (s.channels i).amountSats) = .ok vault) :
    ∃ s', finalizeClose b ctx s i payout = .ok s' := by
  unfold finalizeClose
  dsimp only
  rw [unlockSats_of (by exact hlocked), ok_bind]
  apply redeemIfClaimed_ok
  exact hvault

theorem Closable.amount_le (h : Closable dep ps s) (hopen : (s.channels i).status = .opened) :
    (s.channels i).amountSats ≤ s.totalSatsLocked := by
  have hle := Finset.single_le_sum (f := fun j => (s.channels j).lockedSats) (fun _ _ => Nat.zero_le _)
    (Finset.mem_univ i)
  rw [h.locked]
  exact (if_pos hopen).symm.le.trans hle

theorem lpFinalBalance_serialize {lp script} (hlegacy : tx.Legacy) (hscript : lpPayoutScript dep s lp = .ok script) :
    lpFinalBalance dep s lp tx.serialize = .ok (tx.valueTo script) := by
  rw [lpFinalBalance, hscript, ok_bind, Tx.sumOutputValuesToScript_serialize hlegacy]
  rfl

theorem Closable.recordClose_iff (h : Closable dep ps s) (hopen : (s.channels i).status = .opened)
    (hhash : keysHashOf dep p = (s.channels i).keysHash) (htx : ClosingTx b dep ctx s i p proof tx)
    (hlocktime : tx.locktime = 0) : (∃ s', recordClose b dep ctx s i p proof = .ok s') ↔ HasOutputKey dep p := by
  obtain ⟨script, hscript, hpays, vault, hvault⟩ := htx.pays
  have hcoop : closeIsCoop tx.serialize = .ok true := by
    rw [closeIsCoop, Tx.extractLocktime_serialize, hlocktime]
    rfl
  have hpayout : closePayout dep s i tx.serialize true = .ok (tx.valueTo script) := by
    rw [closePayout, if_pos rfl]
    exact lpFinalBalance_serialize (legacy_of_spends htx.spends) hscript
  have hfresh : requireFresh ctx s i true (tx.valueTo script) = .ok () := by
    simp only [requireFresh]
    split_ifs
    · rw [h.paid, checkedAdd, Nat.add_zero, if_pos (valueTo_lt tx script), ok_bind, require_of _ hpays]
    · rfl
  rw [recordClose, whenOpen, require_of _ hopen, ok_bind, htx.raw]
  constructor
  · rintro ⟨s', hok⟩
    obtain ⟨u, hnot, -⟩ := of_bind hok
    exact (requireNotSplice_iff htx hhash).mp hnot
  · intro hkey
    rw [(requireNotSplice_iff htx hhash).mpr hkey, ok_bind,
      verifyTxSpendsChannel_serialize htx.spends htx.included, ok_bind, hcoop, ok_bind, hpayout, ok_bind,
      hfresh, ok_bind]
    exact finalizeClose_ok (h.amount_le hopen) hvault

theorem Closable.recordDeadManExit_iff (h : Closable dep ps s) (hopen : (s.channels i).status = .opened)
    (hhash : keysHashOf dep p = (s.channels i).keysHash) (htx : ClosingTx b dep ctx s i p proof tx)
    (harmed : s.exitArmedOnOutpoint (currentOutpointKey dep s i) tx.locktime.toUInt64 = true) :
    (∃ s', recordDeadManExit b dep ctx s i p proof = .ok s') ↔ HasOutputKey dep p := by
  obtain ⟨script, hscript, hpays, vault, hvault⟩ := htx.pays
  have hpayout := lpFinalBalance_serialize (legacy_of_spends htx.spends) hscript
  rw [recordDeadManExit, whenOpen, require_of _ hopen, ok_bind, htx.raw, Tx.extractLocktime_serialize,
    Except.mapError, ok_bind, require_of _ harmed, ok_bind]
  constructor
  · rintro ⟨s', hok⟩
    obtain ⟨u, hnot, -⟩ := of_bind hok
    exact (requireNotSplice_iff htx hhash).mp hnot
  · intro hkey
    rw [(requireNotSplice_iff htx hhash).mpr hkey, ok_bind,
      verifyTxSpendsChannel_serialize htx.spends htx.included, ok_bind, hpayout, ok_bind]
    exact finalizeClose_ok (h.amount_le hopen) hvault

end

/-- A channel can be closed on its own keys exactly when both are secp keys. -/
theorem closes_iff {vault : V} {cs : List (Ctx E × Call C)} {proof : TxProof}
    (hrun : runAll (step b dep) (deployed vault) cs = .ok s) (hopen : (s.channels i).IsOpen)
    (hown : OwnKeys dep (givenKeys cs) (s.channels i) p) (htx : ClosingTx b dep ctx s i p proof tx) :
    (tx.locktime = 0 → ((∃ s', recordClose b dep ctx s i p proof = .ok s') ↔
      p.lpPubkey.length = 33 ∧ p.hopPubkey.length = 33)) ∧
    (s.exitArmedOnOutpoint (currentOutpointKey dep s i) tx.locktime.toUInt64 = true →
      ((∃ s', recordDeadManExit b dep ctx s i p proof = .ok s') ↔ p.lpPubkey.length = 33 ∧ p.hopPubkey.length = 33)) ∧
    ((s.channels i).form = .v1 → p.lpPubkey.length = 33 ∧ p.hopPubkey.length = 33) := by
  have h := closable_of_run hrun
  have hkeys := h.keys hopen.1 hown
  have hiff : HasOutputKey dep p ↔ p.lpPubkey.length = 33 ∧ p.hopPubkey.length = 33 := by
    refine ⟨lengths_of_hasOutputKey, fun hlengths => ?_⟩
    exact hkeys.resolve_right fun hv2 => hv2.2 hlengths.1
  rw [← hiff]
  refine ⟨h.recordClose_iff hopen.2 hown.hash htx, h.recordDeadManExit_iff hopen.2 hown.hash htx, ?_⟩
  intro hform
  apply hkeys.resolve_right
  rintro ⟨hv2, -⟩
  rw [hform] at hv2
  cases hv2

theorem emptyScript_fits : ([] : Bytes).length < VarWidth.byte.bound := by decide

def closingTx (txId : Bytes32) (locktime : UInt32) : Btc.Tx where
  version := 2
  inputs := [⟨txId, 0, ⟨[], .byte, emptyScript_fits⟩, 0xffffffff⟩]
  inputsWidth := .byte
  inputs_fit := by rw [List.length_singleton]; decide
  outputs := [⟨95000, ⟨lpScript, .byte, by decide⟩⟩]
  outputsWidth := .byte
  outputs_fit := by decide
  locktime

def closingProof (txId : Bytes32) (locktime : UInt32) : TxProof := ⟨(closingTx txId locktime).serialize, 0, [], 0⟩

theorem closes_iff_secp : ∃ s s' s'' : SystemState, runAll sampleStep sampleStart [(hopCtx, openCall)] = .ok s ∧
    recordClose btcVault sampleDeployment hopCtx s sampleChannel (sampleParams 0)
      (closingProof (sampleTxid fundingTx) 0) = .ok s' ∧
    recordDeadManExit btcVault sampleDeployment hopCtx s sampleChannel (sampleParams 0)
      (closingProof (sampleTxid fundingTx) 900000) = .ok s'' := by
  obtain ⟨s, hs, hopen, hown, harmed, hcoop, hexit⟩ : ∃ s : SystemState, runAll sampleStep sampleStart [(hopCtx, openCall)] = .ok s ∧ (s.channels sampleChannel).IsOpen ∧
      OwnKeys sampleDeployment (givenKeys [(hopCtx, openCall)]) (s.channels sampleChannel) (sampleParams 0) ∧
      s.exitArmedOnOutpoint (currentOutpointKey sampleDeployment s sampleChannel) 900000 = true ∧
      ClosingTx btcVault sampleDeployment hopCtx s sampleChannel (sampleParams 0) (closingProof (sampleTxid fundingTx) 0)
        (closingTx (sampleTxid fundingTx) 0) ∧
      ClosingTx btcVault sampleDeployment hopCtx s sampleChannel (sampleParams 0)
        (closingProof (sampleTxid fundingTx) 900000) (closingTx (sampleTxid fundingTx) 900000) := by
    simp only [ownKeys_iff, closingTx_iff]
    decide +kernel
  obtain ⟨s', hs'⟩ := ((closes_iff hs hopen hown hcoop).1 rfl).mpr (by decide)
  obtain ⟨s'', hs''⟩ := ((closes_iff hs hopen hown hexit).2.1 harmed).mpr (by decide)
  exact ⟨s, s', s'', hs, hs', hs''⟩

def pqRun : List SystemCall := pqOpening (sampleLadder (sampleTxid pqFundingTx, 0) lpScript 90000)

theorem pq_channel_not_closed : ∃ s : SystemState, runAll sampleStep sampleStart pqRun = .ok s ∧
    (s.channels pqChannel).IsOpen ∧ OwnKeys sampleDeployment (givenKeys pqRun) (s.channels pqChannel) pqParams ∧
    ClosingTx btcVault sampleDeployment hopCtx s pqChannel pqParams (closingProof (sampleTxid pqFundingTx) 0)
      (closingTx (sampleTxid pqFundingTx) 0) ∧ recordClose btcVault sampleDeployment hopCtx s pqChannel pqParams
      (closingProof (sampleTxid pqFundingTx) 0) = .error (.key .pubkeyNot33Bytes) ∧
    s.exitArmedOnOutpoint (currentOutpointKey sampleDeployment s pqChannel) 900000 = true ∧
    ClosingTx btcVault sampleDeployment hopCtx s pqChannel pqParams
      (closingProof (sampleTxid pqFundingTx) 900000) (closingTx (sampleTxid pqFundingTx) 900000) ∧
    recordDeadManExit btcVault sampleDeployment hopCtx s pqChannel pqParams
      (closingProof (sampleTxid pqFundingTx) 900000) = .error (.key .pubkeyNot33Bytes) := by
  simp only [ownKeys_iff, closingTx_iff]
  decide +kernel

end QuidProtocol.Channels
