import QuidProtocol.Channels.System

/-!
What happens under the id of a swap-out over a run, and the map it shares with deposits.
Where an LP is paid: the key, the form of its script, the lock on both, and the recovery key.
-/

namespace QuidProtocol.Channels

open Lib Btc Function
open Basket (Address)
open Spv (Bytes32)

inductive SwapEvent
  | requested
  | delivered
  | reversed
  | refunded
  deriving DecidableEq

def Call.swapEvent {C : Type} (swapId : Bytes32) : Call C → Option SwapEvent
  | .requestSwapOutOnchain _ _ _ id => if id = swapId then some .requested else none
  | .deliverSwapOutOnchain id _ _ _ _ _ _ => if id = swapId then some .delivered else none
  | .reverseSwapOut id _ => if id = swapId then some .reversed else none
  | .refundExpiredSwapOut id _ => if id = swapId then some .refunded else none
  | _ => none

inductive SwapPhase
  | fresh
  | pending
  | ended

def SwapPhase.next : SwapPhase → SwapEvent → Option SwapPhase
  | .fresh, .requested => some .pending
  | .pending, .delivered => some .ended
  | .pending, .reversed => some .ended
  | .pending, .refunded => some .ended
  | _, _ => none

variable {events : List SwapEvent} {q : SwapPhase} {id : Bytes32} {e : SwapEvent}

theorem SwapPhase.path_ended (h : events.foldlM SwapPhase.next .ended = some q) : events = [] := by
  cases events with
  | nil => rfl
  | cons e => cases e <;> cases h

theorem SwapPhase.path_fresh (h : events.foldlM SwapPhase.next .fresh = some q) :
    events = [] ∨ events = [.requested] ∨ ∃ e ≠ SwapEvent.requested, events = [.requested, e] := by
  cases events with
  | nil => exact Or.inl rfl
  | cons e events =>
    cases e with
    | requested =>
      cases events with
      | nil => exact Or.inr (Or.inl rfl)
      | cons e =>
        refine Or.inr (Or.inr ⟨e, ?_, ?_⟩)
        · rintro rfl
          cases h
        · cases e with
          | requested => cases h
          | delivered | reversed | refunded => rw [path_ended h]
    | delivered | reversed | refunded => cases h

variable {V E C : Type} {b : IBtc V E C} {dep : Deployment} {s s' : State V} {c : Ctx E × Call C}
  {swapId : Bytes32}

def SwapEffect (s s' : State V) (swapId : Bytes32) : Option SwapEvent → Prop
  | none => s'.swapOutUsed swapId = s.swapOutUsed swapId ∧
      s'.pendingOnchainSwapOut swapId = s.pendingOnchainSwapOut swapId
  | some .requested => s.swapOutUsed swapId = false ∧ s'.swapOutUsed swapId = true ∧
      (s'.pendingOnchainSwapOut swapId).sats ≠ 0
  | some _ => (s.pendingOnchainSwapOut swapId).sats ≠ 0 ∧ s'.swapOutUsed swapId = s.swapOutUsed swapId ∧
      (s'.pendingOnchainSwapOut swapId).sats = 0

theorem SwapEffect.request {so vault} (hfresh : s.swapOutUsed id = false) (hsats : so.sats ≠ 0) : SwapEffect s { s with
      vault
      swapOutUsed := update s.swapOutUsed id true
      pendingOnchainSwapOut := update s.pendingOnchainSwapOut id so } swapId
      (if id = swapId then some .requested else none) := by
  by_cases hid : id = swapId
  · subst hid
    rw [if_pos rfl]
    refine ⟨hfresh, update_self _ _ _, ?_⟩
    simp only [update_self]
    exact hsats
  · rw [if_neg hid]
    exact ⟨update_of_ne (Ne.symm hid) _ _, update_of_ne (Ne.symm hid) _ _⟩

theorem SwapEffect.finish (he : e ≠ .requested)
    (hpending : (s.pendingOnchainSwapOut id).sats ≠ 0) (hused : s'.swapOutUsed = s.swapOutUsed)
    (hentry : s'.pendingOnchainSwapOut = update s.pendingOnchainSwapOut id noSwapOut) :
    SwapEffect s s' swapId (if id = swapId then some e else none) := by
  by_cases hid : id = swapId
  · subst hid
    have hgone : (s'.pendingOnchainSwapOut id).sats = 0 := by
      rw [hentry, update_self]
      rfl
    rw [if_pos rfl]
    cases e with
    | requested => exact absurd rfl he
    | delivered | reversed | refunded => exact ⟨hpending, congrFun hused id, hgone⟩
  · rw [if_neg hid, SwapEffect, hused, hentry]
    exact ⟨rfl, update_of_ne (Ne.symm hid) _ _⟩

/-- The id that a call uses up in the map which deposits and swap-outs share. -/
def Call.usesUp (dep : Deployment) : Call C → Option Bytes32
  | .settleSwapInProven _ _ raw => some (txid dep.crypto raw)
  | .deliverSwapOutOnchain id .. => some id
  | .reverseSwapOut id _ => some id
  | .refundExpiredSwapOut id _ => some id
  | _ => none

def UsedUp (s s' : State V) : Option Bytes32 → Prop
  | none => s'.swapInUsed = s.swapInUsed
  | some i => s.swapInUsed i = false ∧ s'.swapInUsed = update s.swapInUsed i true

theorem swapBooks_of_step (swapId : Bytes32) (hok : step b dep s c = .ok s') :
    SwapEffect s s' swapId (c.2.swapEvent swapId) ∧ UsedUp s s' (c.2.usesUp dep) := by
  obtain ⟨ctx, call⟩ := c
  cases channelStep_of_exec hok with
  | opened | claimed | spliced => exact ⟨⟨rfl, rfl⟩, rfl⟩
  | delivered hre htotal hdeliver =>
    exact ⟨.finish (by decide) hdeliver.requested rfl rfl, hdeliver.unused, rfl⟩
  | closed hspend hcloses => cases call <;> cases hcloses <;> exact ⟨⟨rfl, rfl⟩, rfl⟩
  | kept hquiet =>
    cases quietStep_of_exec hquiet hok with
    | credited => exact ⟨⟨rfl, rfl⟩, (settleSwapInProven_eq hok).1, rfl⟩
    | reversed hdrop | refunded hdrop => exact ⟨.finish (by decide) hdrop.requested rfl rfl, hdrop.unused, rfl⟩
    | requested hreq => exact ⟨.request hreq.unusedOut hreq.sats, rfl⟩
    | _ => exact ⟨⟨rfl, rfl⟩, rfl⟩

theorem swapEffect_of_step (swapId : Bytes32) (hok : step b dep s c = .ok s') :
    SwapEffect s s' swapId (c.2.swapEvent swapId) := (swapBooks_of_step swapId hok).1

theorem usedUp_of_step (hok : step b dep s c = .ok s') : UsedUp s s' (c.2.usesUp dep) := (swapBooks_of_step 0 hok).2

inductive InPhase (swapId : Bytes32) (s : State V) : SwapPhase → Prop
  | fresh (unused : s.swapOutUsed swapId = false) (none : (s.pendingOnchainSwapOut swapId).sats = 0) :
    InPhase swapId s .fresh
  | pending (used : s.swapOutUsed swapId = true) (some : (s.pendingOnchainSwapOut swapId).sats ≠ 0) :
    InPhase swapId s .pending
  | ended (used : s.swapOutUsed swapId = true) (none : (s.pendingOnchainSwapOut swapId).sats = 0) :
    InPhase swapId s .ended

theorem InPhase.silent (h : InPhase swapId s q) (heff : SwapEffect s s' swapId none) : InPhase swapId s' q := by
  obtain ⟨hused, hentry⟩ := heff
  cases h with
  | fresh h0 h1 => exact .fresh (hused.trans h0) (by rw [hentry]; exact h1)
  | pending h0 h1 => exact .pending (hused.trans h0) (by rw [hentry]; exact h1)
  | ended h0 h1 => exact .ended (hused.trans h0) (by rw [hentry]; exact h1)

theorem InPhase.finish (h : InPhase swapId s q)
    (hsome : (s.pendingOnchainSwapOut swapId).sats ≠ 0) (hused : s'.swapOutUsed swapId = s.swapOutUsed swapId)
    (hnone : (s'.pendingOnchainSwapOut swapId).sats = 0) : q = .pending ∧ InPhase swapId s' .ended := by
  cases h with
  | fresh h0 h1 | ended h0 h1 => exact absurd h1 hsome
  | pending h0 => exact ⟨rfl, .ended (hused.trans h0) hnone⟩

theorem InPhase.move (h : InPhase swapId s q)
    (heff : SwapEffect s s' swapId (some e)) : ∃ q', q.next e = some q' ∧ InPhase swapId s' q' := by
  cases e with
  | requested =>
    obtain ⟨hunused, hused, hsome⟩ := heff
    cases h with
    | fresh => exact ⟨.pending, rfl, .pending hused hsome⟩
    | pending h0 | ended h0 => exact absurd (hunused.symm.trans h0) Bool.false_ne_true
  | delivered | reversed | refunded =>
    obtain ⟨rfl, hend⟩ := h.finish heff.1 heff.2.1 heff.2.2
    exact ⟨.ended, rfl, hend⟩

def swapEvents (swapId : Bytes32) (cs : List (Ctx E × Call C)) : List SwapEvent :=
  cs.filterMap fun c => c.2.swapEvent swapId

theorem swapOut_lifecycle (vault : V) {cs : List (Ctx E × Call C)}
    (hrun : runAll (step b dep) (deployed vault) cs = .ok s) (swapId : Bytes32) :
    swapEvents swapId cs = [] ∨ swapEvents swapId cs = [.requested] ∨
      ∃ e ≠ SwapEvent.requested, swapEvents swapId cs = [.requested, e] := by
  have hsilent {s s' : State V} {c : Ctx E × Call C} {q : SwapPhase} (h : InPhase swapId s q)
      (hok : step b dep s c = .ok s') (hc : c.2.swapEvent swapId = none) : InPhase swapId s' q :=
    h.silent (hc ▸ swapEffect_of_step swapId hok)
  have hmove {s s' : State V} {c : Ctx E × Call C} {q : SwapPhase} {e : SwapEvent}
      (h : InPhase swapId s q) (hok : step b dep s c = .ok s') (hc : c.2.swapEvent swapId = some e) :
      ∃ q', q.next e = some q' ∧ InPhase swapId s' q' :=
    h.move (hc ▸ swapEffect_of_step swapId hok)
  have hstart : InPhase swapId (deployed vault) .fresh := .fresh rfl rfl
  obtain ⟨q, hpath, -⟩ := runAll_follows hsilent hmove hstart hrun
  exact SwapPhase.path_fresh hpath

def swapperCtx (blockNumber : ℕ) : Ctx Vault.Env := { hopCtx with sender := 31, blockNumber }

def swapSetup : List SystemCall :=
  [(hopCtx, openCall), (swapperCtx 1000, .setBtcRecipient sampleX (List.replicate 64 0))]

def swapAndRefund (swapId : Bytes32) : List SystemCall :=
  [(swapperCtx 1000, .requestSwapOutOnchain 3 (10 ^ 7) 0 swapId),
   (swapperCtx 8200, .refundExpiredSwapOut swapId 0)]

theorem swapOut_lifecycle_refunded : ∃ s : SystemState, runAll sampleStep sampleStart
      (swapSetup ++ swapAndRefund 5) = .ok s ∧ (swapEvents 5 (swapSetup ++ swapAndRefund 5) = [] ∨
      swapEvents 5 (swapSetup ++ swapAndRefund 5) = [.requested] ∨
      ∃ e ≠ SwapEvent.requested, swapEvents 5 (swapSetup ++ swapAndRefund 5) = [.requested, e]) := by
  obtain ⟨s, hs⟩ : ∃ s, runAll sampleStep sampleStart (swapSetup ++ swapAndRefund 5) = .ok s := by
    decide +kernel
  exact ⟨s, hs, swapOut_lifecycle (Vault.deployed (10 ^ 33)) hs 5⟩

def Call.IsSwapOut : Call C → Prop
  | .requestSwapOutOnchain _ _ _ _ => True
  | .deliverSwapOutOnchain _ _ _ _ _ _ _ => True
  | .reverseSwapOut _ _ => True
  | .refundExpiredSwapOut _ _ => True
  | _ => False

def usedUp (dep : Deployment) (cs : List (Ctx E × Call C)) : List Bytes32 := cs.filterMap fun c => c.2.usesUp dep

/-- No id is used up twice, be it as a deposit or as a swap-out. -/
theorem ids_used_up_once {cs : List (Ctx E × Call C)} (hrun : runAll (step b dep) s cs = .ok s') :
    (usedUp dep cs).Nodup ∧ ∀ i ∈ usedUp dep cs, s.swapInUsed i = false := by
  induction cs generalizing s with
  | nil => exact ⟨List.nodup_nil, nofun⟩
  | cons c cs ih =>
    obtain ⟨t, ht, hrest⟩ := of_bind hrun
    obtain ⟨hnodup, hfresh⟩ := ih hrest
    have heff := usedUp_of_step ht
    rw [usedUp, List.filterMap_cons]
    cases hc : c.2.usesUp dep with
    | none =>
      rw [hc] at heff
      rw [← heff]
      exact ⟨hnodup, hfresh⟩
    | some j =>
      rw [hc] at heff
      rw [List.nodup_cons, List.forall_mem_cons]
      have hother (i) (hi : i ∈ usedUp dep cs) : i ≠ j ∧ s.swapInUsed i = false := by
        have h := hfresh i hi
        rw [heff.2, update_apply] at h
        split_ifs at h with hij
        exact ⟨hij, h⟩
      exact ⟨⟨fun hj => (hother j hj).1 rfl, hnodup⟩, heff.1, fun i hi => (hother i hi).2⟩

theorem swapInUsed_finish (he : e ≠ .requested) (hused : s'.swapInUsed = update s.swapInUsed id true) (txId : Bytes32) :
    s'.swapInUsed txId = false ↔ s.swapInUsed txId = false ∧
      ∀ e' ∈ (if id = txId then some e else none), e' = SwapEvent.requested := by
  by_cases hid : id = txId
  · subst hid
    rw [hused, update_self, if_pos rfl]
    exact iff_of_false Bool.true_eq_false.mp fun h => he (h.2 e rfl)
  · rw [hused, update_of_ne (Ne.symm hid), if_neg hid]
    constructor
    · intro h
      refine ⟨h, fun e' he' => ?_⟩
      cases he'
    · exact And.left

theorem swapInUsed_of_step (hcall : c.2.IsSwapOut) (hok : step b dep s c = .ok s') (txId : Bytes32) :
    s'.swapInUsed txId = false ↔ s.swapInUsed txId = false ∧ ∀ e ∈ c.2.swapEvent txId, e = .requested := by
  have heff := usedUp_of_step hok
  obtain ⟨ctx, call⟩ := c
  cases call with
  | reverseSwapOut | refundExpiredSwapOut | deliverSwapOutOnchain =>
    exact swapInUsed_finish (by decide) heff.2 txId
  | requestSwapOutOnchain =>
    rw [heff]
    refine ⟨fun h => ⟨h, fun e he => ?_⟩, And.left⟩
    obtain ⟨-, he⟩ := Option.ite_none_right_eq_some.mp he
    exact (Option.some.inj he).symm
  | _ => exact hcall.elim

theorem swapInUsed_of_run {cs} (hcalls : ∀ c ∈ cs, c.2.IsSwapOut)
    (hrun : runAll (step b dep) s cs = .ok s') (txId : Bytes32) :
    s'.swapInUsed txId = false ↔ s.swapInUsed txId = false ∧ ∀ e ∈ swapEvents txId cs, e = .requested := by
  induction cs generalizing s with
  | nil =>
    cases hrun
    exact ⟨fun h => ⟨h, nofun⟩, And.left⟩
  | cons c cs ih =>
    obtain ⟨t, ht, hrest⟩ := of_bind hrun
    have hrest := ih (fun d hd => hcalls d (List.mem_cons_of_mem c hd)) hrest
    rw [hrest, swapInUsed_of_step (hcalls c List.mem_cons_self) ht, and_assoc]
    apply and_congr_right'
    cases hc : c.2.swapEvent txId with
    | none | some e => simp [swapEvents, hc]

/-- Swap-outs block a deposit exactly when one that bears its txid as id comes to an end. -/
theorem deposit_replay_iff {ctx : Ctx E} {terms : Terms} {proof : DepositProof} {raw : Bytes}
    {s₁ : State V} {cs : List (Ctx E × Call C)} (hsettles : settleSwapInProven b dep ctx s terms proof raw = .ok s₁)
    (hcalls : ∀ c ∈ cs, c.2.IsSwapOut) (hrun : runAll (step b dep) s cs = .ok s') :
    s'.swapInUsed (txid dep.crypto raw) = false ↔ ∀ e ∈ swapEvents (txid dep.crypto raw) cs, e = .requested := by
  rw [swapInUsed_of_run hcalls hrun]
  exact and_iff_right (settleSwapInProven_eq hsettles).1

def depositTerms : Terms := ⟨32, 3, 9 * 10 ^ 10, 0⟩

def depositProof : DepositProof := ⟨7, 100, 0, 0, []⟩

def depositKey : Bytes32 :=
  (swapInDepositKey sampleCrypto sampleDeployment.btcDepositKey depositTerms 7 100).toOption.getD 0

def depositTx : Bytes := sampleTx [(2, 0)] [(20000, buildTaprootScriptPubKey depositKey)] 0

def swapThenDeposit : List SystemCall :=
  swapSetup ++ swapAndRefund 5 ++ [(hopCtx, .settleSwapInProven depositTerms depositProof depositTx)]

theorem ids_used_up_once_mixed : ∃ s : SystemState, runAll sampleStep sampleStart swapThenDeposit = .ok s ∧ (usedUp sampleDeployment swapThenDeposit).Nodup := by
  obtain ⟨s, hs⟩ : ∃ s, runAll sampleStep sampleStart swapThenDeposit = .ok s := by
    decide +kernel
  exact ⟨s, hs, (ids_used_up_once hs).1⟩

def settleDeposit (s : SystemState) : Res SystemState :=
  settleSwapInProven btcVault sampleDeployment hopCtx s depositTerms depositProof depositTx

theorem deposit_replay_other_id : ∃ s s₁ s' : SystemState, runAll sampleStep sampleStart swapSetup = .ok s ∧
    settleDeposit s = .ok s₁ ∧ runAll sampleStep s (swapAndRefund 5) = .ok s' ∧
    s'.swapInUsed (sampleTxid depositTx) = false := by
  obtain ⟨s, hs, s₁, hs₁, s', hs'⟩ : ∃ s, runAll sampleStep sampleStart
      swapSetup = .ok s ∧ ∃ s₁, settleDeposit s = .ok s₁ ∧
        ∃ s', runAll sampleStep s (swapAndRefund 5) = .ok s' := by
    decide +kernel
  have hcalls : ∀ c ∈ swapAndRefund 5, c.2.IsSwapOut := by
    intro c hc
    rcases List.mem_pair.mp hc with rfl | rfl
    · trivial
    · trivial
  exact ⟨s, s₁, s', hs, hs₁, hs', (deposit_replay_iff hs₁ hcalls hs').mpr (by decide +kernel)⟩

theorem swapId_blocks_deposit : ∃ s s₁ s' : SystemState, runAll sampleStep sampleStart swapSetup = .ok s ∧
    settleDeposit s = .ok s₁ ∧ runAll sampleStep s (swapAndRefund (sampleTxid depositTx)) = .ok s' ∧
    settleDeposit s' = .error .swapInDepositReplay := by
  simp only [exists_and_left]
  decide +kernel

structure Destination where
  key : Bytes32
  isV2 : Bool
  locked : Bool
  recovery : Bytes32

variable {V E C : Type} {b : IBtc V E C} {dep : Deployment} {s s' : State V} {c : Ctx E × Call C}
  {a : Address}

def State.destination (s : State V) (a : Address) : Destination :=
  ⟨s.btcRecipientOf a, s.btcRecipientIsV2 a, s.btcRecipientLocked a, s.btcRecoveryOf a⟩

def Recovers (a : Address) (c : Ctx E × Call C) : Prop := c.1.sender = a ∧ ∃ pop, c.2 = .recoverBtcRecipient pop

def Call.opening : Call C → Option (OpenParams × OpenAuth)
  | .openChannel p _ _ auth _ => some (p, auth)
  | _ => none

def Opens (dep : Deployment) (a : Address) (c : Ctx E × Call C) : Prop := ∃ o ∈ c.2.opening, lpEthOf dep o.1 = .ok a

theorem not_opens (h : c.2.opening = none) : ¬ Opens dep a c := by
  rintro ⟨o, ho, -⟩
  rw [h] at ho
  cases ho

inductive Moves (dep : Deployment) (a : Address) (s : State V) (c : Ctx E × Call C) :
    Destination → Address → Prop
  | kept (other : ¬ Opens dep a c) : Moves dep a s c (s.destination a) s.pqVerifier
  | pinned {v : _} (other : ¬ Opens dep a c) (unset : s.pqVerifier = 0) :
    Moves dep a s c (s.destination a) v
  | opened {p auth isV2 : _} (call : c.2.opening = some (p, auth))
    (lp : lpEthOf dep p = .ok a)
    (same : s.btcRecipientLocked a = false ∨ s.btcRecipientOf a = auth.btcRecipient)
    (possession : requireRecipientPoP dep s a auth.btcRecipient auth.btcRecipientPoP
      (dep.crypto.keccak256 auth.lpPaymentPoint) = .ok isV2) :
    Moves dep a s c ⟨auth.btcRecipient, isV2, true, s.btcRecoveryOf a⟩ s.pqVerifier
  | registered {key isV2 : _} (unlocked : s.btcRecipientLocked a = false)
    (backed : isV2 = true → s.pqVerifier ≠ 0) :
    Moves dep a s c { s.destination a with key, isV2 } s.pqVerifier
  | recoverySet {key : _} (unlocked : s.btcRecipientLocked a = false) :
    Moves dep a s c { s.destination a with recovery := key } s.pqVerifier
  | recovered {isV2 : _} (call : Recovers a c) (backed : isV2 = true → s.pqVerifier ≠ 0) :
    Moves dep a s c { s.destination a with key := s.btcRecoveryOf a, isV2 } s.pqVerifier

theorem destination_register (who key isV2 a) : State.destination { s with
      btcRecipientIsV2 := update s.btcRecipientIsV2 who isV2
      btcRecipientOf := update s.btcRecipientOf who key } a =
    if a = who then { s.destination a with key, isV2 } else s.destination a := by
  by_cases ha : a = who <;> simp [State.destination, ha]

theorem destination_setRecovery (who key a) :
    State.destination { s with btcRecoveryOf := update s.btcRecoveryOf who key } a =
    if a = who then { s.destination a with recovery := key } else s.destination a := by
  by_cases ha : a = who <;> simp [State.destination, ha]

theorem Moves.opening (ctx : Ctx E) {p : OpenParams} {raw : Bytes} (proof : List Bytes32)
    {auth : OpenAuth} (exits : List ExitArming) {o : Opening} (ho : o.Valid dep s p raw auth) (a : Address) :
    Moves (C := C) dep a s (ctx, .openChannel p raw proof auth exits)
      ((o.state dep s p auth).destination a) s.pqVerifier := by
  by_cases ha : a = o.lpEth
  · subst ha
    have hdest : (o.state dep s p auth).destination o.lpEth =
        ⟨auth.btcRecipient, o.isV2, true, s.btcRecoveryOf o.lpEth⟩ := by
      simp [State.destination, Opening.state]
    rw [hdest]
    exact .opened rfl ho.lp ho.recipient ho.possession
  · have hdest : (o.state dep s p auth).destination a = s.destination a := by
      simp [State.destination, Opening.state, ha]
    rw [hdest]
    apply Moves.kept
    rintro ⟨q, hq, hlp⟩
    cases hq
    exact ha (ok_unique hlp ho.lp)

theorem moves_of_step (hok : step b dep s c = .ok s') (a : Address) :
    Moves dep a s c (s'.destination a) s'.pqVerifier := by
  obtain ⟨ctx, call⟩ := c
  cases channelStep_of_exec hok with
  | opened o ho => exact Moves.opening _ _ _ ho a
  | claimed | spliced | delivered => exact .kept (not_opens rfl)
  | closed hspend hcloses => cases call <;> cases hcloses <;> exact .kept (not_opens rfl)
  | kept hquiet =>
    cases quietStep_of_exec hquiet hok with
    | registered hunlocked hbacked =>
      rw [destination_register]
      split_ifs with ha
      · subst ha
        exact .registered hunlocked hbacked
      · exact .kept (not_opens rfl)
    | recoverySet hunlocked =>
      rw [destination_setRecovery]
      split_ifs with ha
      · subst ha
        exact .recoverySet hunlocked
      · exact .kept (not_opens rfl)
    | @recovered pop isV2 hbacked =>
      rw [destination_register]
      split_ifs with ha
      · subst ha
        exact .recovered ⟨rfl, pop, rfl⟩ hbacked
      · exact .kept (not_opens rfl)
    | pinned hunset => exact .pinned (not_opens rfl) hunset
    | _ => exact .kept (not_opens rfl)

def Backed (a : Address) (s : State V) : Prop := s.btcRecipientIsV2 a = true → s.pqVerifier ≠ 0

structure Locked (a : Address) (recovery : Bytes32) (s : State V) : Prop where
  backed : Backed a s
  locked : s.btcRecipientLocked a = true
  recovery : s.btcRecoveryOf a = recovery

theorem backed_of_step (h : Backed a s) (hok : step b dep s c = .ok s') : Backed a s' := by
  have hmoves := moves_of_step hok a
  change (s'.destination a).isV2 = true → s'.pqVerifier ≠ 0
  generalize s'.destination a = d at hmoves
  generalize s'.pqVerifier = v at hmoves
  cases hmoves with
  | kept other | recoverySet unlocked => exact h
  | pinned other unset => exact fun hV2 => absurd unset (h hV2)
  | opened call lp same possession => exact requireRecipientPoP_eq possession
  | registered unlocked backed | recovered call backed => exact backed

theorem Locked.of_step {recovery} (h : Locked a recovery s) (hok : step b dep s c = .ok s') : Locked a recovery s' := by
  suffices hdest : (s'.destination a).locked = true ∧ (s'.destination a).recovery = recovery from
    ⟨backed_of_step h.backed hok, hdest.1, hdest.2⟩
  have hmoves := moves_of_step hok a
  generalize s'.destination a = d at hmoves
  generalize s'.pqVerifier = v at hmoves
  cases hmoves with
  | kept other | pinned other unset | recovered call backed => exact ⟨h.locked, h.recovery⟩
  | opened => exact ⟨rfl, h.recovery⟩
  | registered unlocked backed | recoverySet unlocked => exact absurd (unlocked.symm.trans h.locked) Bool.false_ne_true

theorem Locked.recovered {recovery} (h : Locked a recovery s) (hc : Recovers a c)
    (hok : step b dep s c = .ok s') : s'.btcRecipientOf a = recovery := by
  obtain ⟨ctx, call⟩ := c
  obtain ⟨rfl, pop, rfl⟩ := hc
  obtain ⟨isV2, -, rfl⟩ := recoverBtcRecipient_eq hok
  exact (update_self _ _ _).trans h.recovery

def Destination.script (dep : Deployment) (v : Address) (d : Destination) : Res Bytes :=
  if d.isV2 then found .pqReverted ((dep.verifierAt v).payoutScript d.key)
  else .ok (buildTaprootScriptPubKey d.key)

theorem lpPayoutScript_eq (dep : Deployment) (s : State V) (a : Address) :
    lpPayoutScript dep s a = (s.destination a).script dep s.pqVerifier := rfl

theorem script_form_iff (v : Address) (d : Destination) (isV2 : Bool) :
    Destination.script dep v { d with isV2 } = d.script dep v ↔
      isV2 = d.isV2 ∨ (dep.verifierAt v).payoutScript d.key = some (buildTaprootScriptPubKey d.key) := by
  obtain ⟨key, old, locked, recovery⟩ := d
  cases isV2 <;> cases old
  · simp [Destination.script]
  · simp [Destination.script, eq_comm (a := Except.ok _), found_eq_ok]
  · simp [Destination.script, found_eq_ok]
  · simp [Destination.script]

def KeepsForm (dep : Deployment) (a : Address) (s : State V) (c : Ctx E × Call C) : Prop :=
  ∀ o ∈ c.2.opening, lpEthOf dep o.1 = .ok a → requireRecipientPoP dep s a o.2.btcRecipient o.2.btcRecipientPoP
      (dep.crypto.keccak256 o.2.lpPaymentPoint) = .ok (s.btcRecipientIsV2 a) ∨
    (dep.verifierAt s.pqVerifier).payoutScript (s.btcRecipientOf a) =
      some (buildTaprootScriptPubKey (s.btcRecipientOf a))
  deriving Decidable

theorem script_of_step {recovery} (h : Locked a recovery s) (hnot : ¬ Recovers a c)
    (hok : step b dep s c = .ok s') : lpPayoutScript dep s' a = lpPayoutScript dep s a ↔ KeepsForm dep a s c := by
  have hmoves := moves_of_step hok a
  rw [lpPayoutScript_eq, lpPayoutScript_eq]
  generalize s'.destination a = d at hmoves
  generalize s'.pqVerifier = v at hmoves
  -- only an opening of the account itself says anything about its form
  have hother (hc : ¬ Opens dep a c) : KeepsForm dep a s c := fun o ho hlp => absurd ⟨o, ho, hlp⟩ hc
  cases hmoves with
  | kept other => exact iff_of_true rfl (hother other)
  | pinned other unset =>
    apply iff_of_true _ (hother other)
    have hV1 : (s.destination a).isV2 = false := by
      by_contra hV2
      exact h.backed (Bool.not_eq_false _ ▸ hV2) unset
    rw [Destination.script, Destination.script, hV1]
    rfl
  | @opened p auth isV2 call lp same possession =>
    have hkey := same.resolve_left fun hunlocked => Bool.false_ne_true (hunlocked.symm.trans h.locked)
    have hdest : (⟨auth.btcRecipient, isV2, true, s.btcRecoveryOf a⟩ : Destination) =
        { s.destination a with isV2 } := by
      rw [State.destination, hkey, h.locked]
    rw [hdest, script_form_iff]
    constructor
    · intro hsame o ho _
      obtain rfl := Option.mem_unique call ho
      rw [possession]
      exact hsame.imp_left (congrArg Except.ok)
    · intro hkeeps
      have hsame := hkeeps (p, auth) call lp
      rw [possession] at hsame
      exact hsame.imp_left Except.ok.inj
  | registered unlocked backed | recoverySet unlocked => exact absurd (unlocked.symm.trans h.locked) Bool.false_ne_true
  | recovered call => exact absurd call hnot

theorem locked_of_run {vault cs}
    (hrun : runAll (step b dep) (deployed vault) cs = .ok s) (hlocked : s.btcRecipientLocked a = true) :
    Locked a (s.btcRecoveryOf a) s := by
  have hstart : Backed a (deployed vault) := fun h => absurd h Bool.false_ne_true
  have hbacked := runAll_invariant (fun _ _ _ h _ hok => backed_of_step h hok) hstart
    (everyStep_trivial _ _) hrun
  exact ⟨hbacked, hlocked, rfl⟩

theorem payoutScript_locked_iff {vault : V} {cs ds : List (Ctx E × Call C)}
    (hrun : runAll (step b dep) (deployed vault) cs = .ok s) (hlocked : s.btcRecipientLocked a = true)
    (hlater : runAll (step b dep) s ds = .ok s') :
    (∀ t, Visited (step b dep) s ds t → t.btcRecoveryOf a = s.btcRecoveryOf a) ∧
    EveryStep (step b dep) (fun t c => Recovers a c → ∀ t', step b dep t c = .ok t' →
      t'.btcRecipientOf a = s.btcRecoveryOf a) s ds ∧
    (EveryStep (step b dep) (fun t c => ¬ Recovers a c → ∀ t', step b dep t c = .ok t' →
      lpPayoutScript dep t' a = lpPayoutScript dep t a) s ds ↔ EveryStep (step b dep) (KeepsForm dep a) s ds) := by
  have hstart := locked_of_run hrun hlocked
  have hstep : ∀ t c t', Locked a (s.btcRecoveryOf a) t → step b dep t c = .ok t' →
      Locked a (s.btcRecoveryOf a) t' := fun _ _ _ h hok => h.of_step hok
  refine ⟨?_, ?_, ?_⟩
  · rintro t ⟨n, ht⟩
    have hend := runAll_invariant (fun _ _ _ h _ hok => hstep _ _ _ h hok) hstart
      (everyStep_trivial _ _) ht
    exact hend.recovery
  · apply (everyStep_congr hstep _ hstart hlater).mpr (everyStep_trivial s ds)
    intro t c t' h _
    exact iff_true_intro fun hc u hu => h.recovered hc hu
  · apply everyStep_congr hstep _ hstart hlater
    intro t c t' h hok
    by_cases hc : Recovers a c
    · apply iff_of_true (fun hnot => absurd hc hnot)
      obtain ⟨-, pop, hcall⟩ := hc
      intro o ho
      rw [hcall] at ho
      cases ho
    · rw [← script_of_step h hc hok]
      constructor
      · exact fun hsame => hsame hc t' hok
      · intro hsame _ u hu
        rwa [ok_unique hu hok]

def secondFundingTx : Bytes := sampleTx [(3, 0)] [(100000, channelScript)] 0

def reopening (pop script : Bytes) : List SystemCall :=
  [(hopCtx, closeCall (sampleTxid fundingTx) 90000),
   ({ hopCtx with sender := 24 }, .setPqVerifier 40),
   (hopCtx, .openChannel (sampleParams 100000) secondFundingTx [] { sampleAuth with btcRecipientPoP := pop }
    (sampleLadder (sampleTxid secondFundingTx, 0) script 90000))]

theorem payoutScript_locked_reopened : ∃ s s' : SystemState,
    runAll sampleStep sampleStart [(hopCtx, openCall)] = .ok s ∧
    runAll sampleStep s (reopening (List.replicate 64 0) lpScript) = .ok s' ∧
    EveryStep sampleStep (fun t c => ¬ Recovers sampleLp c → ∀ t', sampleStep t c = .ok t' →
        lpPayoutScript sampleDeployment t' sampleLp = lpPayoutScript sampleDeployment t sampleLp)
      s (reopening (List.replicate 64 0) lpScript) := by
  obtain ⟨s, hs, hlocked, hkeeps, s', hs'⟩ : ∃ s : SystemState, runAll sampleStep sampleStart [(hopCtx, openCall)] = .ok s ∧ s.btcRecipientLocked sampleLp = true ∧
      EveryStep sampleStep (KeepsForm sampleDeployment sampleLp) s
        (reopening (List.replicate 64 0) lpScript) ∧
      ∃ s', runAll sampleStep s (reopening (List.replicate 64 0) lpScript) = .ok s' := by
    decide +kernel
  exact ⟨s, s', hs, hs', (payoutScript_locked_iff hs hlocked hs').2.2.mpr hkeeps⟩

def pqScript : Bytes := [0x52, 0x20] ++ toBytesBE 32 sampleX.toNat

theorem reopening_changes_script : ∃ s s' : SystemState,
    runAll sampleStep sampleStart [(hopCtx, openCall)] = .ok s ∧ s.btcRecipientLocked sampleLp = true ∧
    runAll sampleStep s (reopening [0x01] pqScript) = .ok s' ∧
    (∀ c ∈ reopening [0x01] pqScript, ¬ Recovers sampleLp c) ∧
    lpPayoutScript sampleDeployment s sampleLp = .ok lpScript ∧
    lpPayoutScript sampleDeployment s' sampleLp = .ok pqScript ∧ lpScript ≠ pqScript := by
  obtain ⟨s, hs, hlocked, hscript, s', hs', hscript'⟩ : ∃ s : SystemState, runAll sampleStep sampleStart [(hopCtx, openCall)] = .ok s ∧ s.btcRecipientLocked sampleLp = true ∧
      lpPayoutScript sampleDeployment s sampleLp = .ok lpScript ∧
      ∃ s', runAll sampleStep s (reopening [0x01] pqScript) = .ok s' ∧
        lpPayoutScript sampleDeployment s' sampleLp = .ok pqScript := by
    decide +kernel
  have hrecovers : ∀ c ∈ reopening [0x01] pqScript, ¬ Recovers sampleLp c := by
    rintro c hc ⟨-, pop, hcall⟩
    simp only [reopening, List.mem_cons, List.not_mem_nil, or_false] at hc
    rcases hc with rfl | rfl | rfl <;> cases hcall
  exact ⟨s, s', hs, hlocked, hs', hrecovers, hscript, hscript', by decide +kernel⟩

end QuidProtocol.Channels
