import QuidProtocol.Channels.System

/-!
The exits armed on the outpoint of a channel: what each of them pays, and how long they stay.
-/

namespace QuidProtocol.Channels

open Lib Btc Function
open Basket (Address)
open Spv (Bytes32)

variable {V E C : Type} {b : IBtc V E C} {dep : Deployment} {s s' : State V} {channelId : Bytes32}
  {p : OpenParams} {exit : ExitArming} {exits : List ExitArming}

structure ExitPays (dep : Deployment) (outpoint : Bytes32 × UInt32) (script : Bytes)
    (exit : ExitArming) (t : Transaction) : Prop where
  parsed : parseTransaction exit.signedExitTx = .ok t
  locktime : t.locktime.toNat = exit.cltvDeadline.toNat
  spends : ∃ i ∈ t.inputs, i.spendsOutpoint outpoint.1 outpoint.2 = true
  pays : exit.checkpointSats ≤ t.paidTo dep.crypto script

variable {raw script : Bytes} {cr : Crypto} {t : Transaction} {outpoint : Bytes32 × UInt32}

theorem exitStructure_eq {check paid} (h : exitStructure cr raw check script = .ok paid) :
    ∃ t, parseTransaction raw = .ok t ∧ t.locktime.toNat = check.cltvDeadline.toNat ∧
      (∃ i ∈ t.inputs, i.spendsOutpoint check.fundingTxId check.fundingVout = true) ∧ paid = t.paidTo cr script := by
  obtain ⟨t, ht, h⟩ := of_bind h
  obtain ⟨hlock, hspends, h⟩ := of_require₂ h
  exact ⟨t, mapError_eq_ok.mp ht, hlock, List.any_eq_true.mp hspends, ok_inj h⟩

theorem verifyExitSignature_eq {check prevValues prevScripts u} (ht : parseTransaction raw = .ok t)
    (h : verifyExitSignature cr raw check prevValues prevScripts = .ok u) : prevValues.length = t.inputs.length := by
  obtain ⟨t', ht', h⟩ := of_bind h
  obtain rfl := Except.ok.inj (ht.symm.trans (mapError_eq_ok.mp ht'))
  obtain ⟨idx, -, h⟩ := of_bind h
  obtain ⟨-, ⟨r, sig⟩, -, h⟩ := of_require_bind h
  obtain ⟨m, hm, h⟩ := of_bind h
  obtain ⟨u2, hcount, -⟩ := of_bind hm
  have hcount := (require_eq_ok.mp hcount).1
  rwa [List.length_set] at hcount

theorem verifyExit_eq {ch paid} (h : verifyExit dep s ch p exit = .ok paid) (hpaid : exit.checkpointSats ≤ paid) :
    ∃ script t, lpPayoutScript dep s ch.lpEth = .ok script ∧ ExitPays dep ch.outpoint script exit t ∧
      (ch.form = .v1 → exit.prevValues.length = t.inputs.length) := by
  unfold verifyExit at h
  cases hform : ch.form with
  | v2 =>
    rw [hform] at h
    obtain ⟨script, hscript, paid', hstructure, h⟩ := of_bind₂ h
    obtain ⟨-, h⟩ := of_require h
    cases h
    obtain ⟨t, ht, hlock, hspends, rfl⟩ := exitStructure_eq (mapError_eq_ok.mp hstructure)
    exact ⟨script, t, hscript, ⟨ht, hlock, hspends, hpaid⟩, nofun⟩
  | v1 =>
    rw [hform] at h
    obtain ⟨q, -, script, hscript, h⟩ := of_bind₂ h
    obtain ⟨paid', hstructure, h⟩ := of_bind (mapError_eq_ok.mp h)
    obtain ⟨u, hsignature, h⟩ := of_bind h
    cases h
    obtain ⟨t, ht, hlock, hspends, rfl⟩ := exitStructure_eq hstructure
    exact ⟨script, t, hscript, ⟨ht, hlock, hspends, hpaid⟩, fun _ => verifyExitSignature_eq ht hsignature⟩

def ExitsPay (dep : Deployment) (s : State V) (channelId : Bytes32) (exits : List ExitArming) : Prop :=
  ∀ exit ∈ exits, ∃ script t, lpPayoutScript dep s (s.channels channelId).lpEth = .ok script ∧
    ExitPays dep (s.channels channelId).outpoint script exit t ∧
    ((s.channels channelId).form = .v1 → exit.prevValues.length = t.inputs.length)

def AllArmed (s : State V) (key : Bytes32) (exits : List ExitArming) : Prop :=
  ∀ exit ∈ exits, s.exitArmedOnOutpoint key exit.cltvDeadline = true

def ArmedStays (s s' : State V) : Prop :=
  ∀ key deadline, s.exitArmedOnOutpoint key deadline = true → s'.exitArmedOnOutpoint key deadline = true

def maxCheckpoint (m : ℕ) (exits : List ExitArming) : ℕ := exits.foldl (fun m exit => max m exit.checkpointSats) m

theorem AllArmed.mono {key} (h : AllArmed s key exits) (hstays : ArmedStays s s') : AllArmed s' key exits :=
  fun exit hexit => hstays key exit.cltvDeadline (h exit hexit)

theorem armDeadManExit_armed (h : armDeadManExit dep s channelId p exit = .ok s') :
    ExitsPay dep s channelId [exit] ∧ ArmedStays s s' ∧
      s'.exitArmedOnOutpoint (currentOutpointKey dep s channelId) exit.cltvDeadline = true := by
  obtain ⟨⟨paid, hpaid, hle⟩, rfl⟩ := armDeadManExit_eq h
  refine ⟨?_, ?_, ?_⟩
  · intro e he
    obtain rfl := List.mem_singleton.mp he
    exact verifyExit_eq hpaid hle
  · intro key deadline harmed
    by_cases hkey : key = currentOutpointKey dep s channelId
    · subst hkey
      by_cases hdeadline : deadline = exit.cltvDeadline
      · simp [hdeadline]
      · simpa [hdeadline] using harmed
    · simpa [hkey] using harmed
  · simp

theorem armRungs_eq {before hi hi'} (h : armRungs dep channelId p s before hi exits = .ok (hi', s')) :
    ExitsPay dep s channelId exits ∧ ArmedStays s s' ∧ s'.checkpointOf = s.checkpointOf ∧
      AllArmed s' (currentOutpointKey dep s channelId) exits ∧ hi' = maxCheckpoint hi exits ∧
      exits.Pairwise (fun e e' => e.cltvDeadline < e'.cltvDeadline) ∧
      ∀ deadline ∈ before, ∀ e ∈ exits, deadline < e.cltvDeadline := by
  induction exits generalizing s before hi with
  | nil =>
    cases h
    exact ⟨nofun, fun _ _ => id, rfl, nofun, rfl, List.Pairwise.nil, nofun⟩
  | cons exit exits ih =>
    obtain ⟨u, horder, t, ht, h⟩ := of_bind₂ h
    obtain ⟨hpays, hstays, harmed⟩ := armDeadManExit_armed ht
    obtain ⟨-, rfl⟩ := armDeadManExit_eq ht
    obtain ⟨hpaysRest, hstaysRest, hcheckpoint, harmedRest, hmax, hpairwise, hbehind⟩ := ih h
    have horder := require_eq_ok.mp horder
    refine ⟨?_, ?_, hcheckpoint, ?_, hmax, ?_, ?_⟩
    · intro e he
      rcases List.mem_cons.mp he with rfl | he
      · exact hpays e List.mem_cons_self
      · exact hpaysRest e he
    · exact fun key deadline h => hstaysRest key deadline (hstays key deadline h)
    · intro e he
      rcases List.mem_cons.mp he with rfl | he
      · exact hstaysRest _ _ harmed
      · exact harmedRest e he
    · exact List.pairwise_cons.mpr ⟨hbehind exit.cltvDeadline rfl, hpairwise⟩
    · intro deadline hdeadline e he
      have hlt := horder deadline hdeadline
      rcases List.mem_cons.mp he with rfl | he
      · exact hlt
      · exact UInt64.lt_trans hlt (hbehind exit.cltvDeadline rfl e he)

structure Laddered (dep : Deployment) (s : State V) (channelId : Bytes32) (exits : List ExitArming) :
    Prop where
  depth : 2 ≤ exits.length
  order : exits.Pairwise (fun e e' => e.cltvDeadline < e'.cltvDeadline)
  pays : ExitsPay dep s channelId exits
  armed : AllArmed s (currentOutpointKey dep s channelId) exits
  checkpoint : s.checkpointOf channelId = maxCheckpoint 0 exits
  last : ∀ exit ∈ exits.getLast?, exit.prevValues.length = 1

theorem armLadder_eq (h : armLadder dep s channelId p exits = .ok s') :
    Laddered dep s' channelId exits ∧ ArmedStays s s' ∧ ∀ i ≠ channelId, s'.checkpointOf i = s.checkpointOf i := by
  obtain ⟨hdepth, -, h⟩ := of_require₂ h
  obtain ⟨hlast, ⟨hi, t⟩, ht, h⟩ := of_require_bind h
  cases h
  obtain ⟨hpays, hstays, hcheckpoint, harmed, rfl, horder, -⟩ := armRungs_eq ht
  obtain ⟨armed, paid, checkpoint, rfl⟩ := armRungs_frame ht
  refine ⟨⟨hdepth, horder, hpays, harmed, update_self _ _ _, hlast⟩, hstays, ?_⟩
  intro i hi
  exact (update_of_ne hi _ _).trans (congrFun hcheckpoint i)

inductive Rearms (dep : Deployment) (s : State V) (i : Bytes32) : Call C → List ExitArming → Prop
  | openChannel {p raw proof auth exits spk form vout sats : _}
    (funded : fundingForm dep s p = .ok (spk, form)) (output : findOutputByScript raw spk = .ok (vout, sats))
    (id : channelIdOf dep p (txid dep.crypto raw) vout = i) :
    Rearms dep s i (.openChannel p raw proof auth exits) exits
  | splice {p raw proof exits : _} :
    Rearms dep s i (.splice i p raw proof exits) exits
  | deliverSwapOutOnchain {swapId p raw proof script exits : _} :
    Rearms dep s i (.deliverSwapOutOnchain swapId i p raw proof script exits) exits

def Call.emits (i : Bytes32) : Call C → Option ExitArming
  | .emitDeadManExit channelId _ exit => if channelId = i then some exit else none
  | _ => none

variable {i : Bytes32} {ctx : Ctx E} {call : Call C}

theorem Laddered.congr (h : Laddered dep s i exits) (hchannels : s'.channels = s.channels)
    (harmed : s'.exitArmedOnOutpoint = s.exitArmedOnOutpoint) (hcheck : s'.checkpointOf = s.checkpointOf)
    (hscript : ∀ a, lpPayoutScript dep s' a = lpPayoutScript dep s a) : Laddered dep s' i exits := by
  constructor
  · exact h.depth
  · exact h.order
  · intro exit hexit
    rw [hchannels, hscript]
    exact h.pays exit hexit
  · intro exit hexit
    rw [harmed, currentOutpointKey, hchannels]
    exact h.armed exit hexit
  · rw [hcheck]
    exact h.checkpoint
  · exact h.last

theorem laddered_of_rearms (harm : Rearms dep s i call exits) (hok : exec b dep ctx s call = .ok s') :
    Laddered dep s' i exits ∧ s'.fundingOutpointUsed (currentOutpointKey dep s' i) = true := by
  cases harm with
  | @openChannel p _ _ _ _ _ _ _ _ hform hout hid =>
    obtain ⟨o, ho, t, ht, rfl⟩ := openChannel_eq hok
    obtain ⟨spk', hform', hout'⟩ := ho.located
    obtain ⟨rfl, -⟩ := Prod.mk.inj (ok_unique hform hform')
    obtain ⟨rfl, -⟩ := Prod.mk.inj (ok_unique hout hout')
    obtain rfl : o.id dep p = i := by rw [Opening.id, ho.txId, hid]
    obtain ⟨hladder, -⟩ := armLadder_eq ht
    have hused : t.fundingOutpointUsed (currentOutpointKey dep t (o.id dep p)) = true := by
      obtain ⟨armed, paid, checkpoint, rfl⟩ := armLadder_frame ht
      simp [currentOutpointKey, State.rearmed, Opening.state, Opening.channel]
    obtain ⟨vault, pending, -, heq⟩ := depositOrDefer_eq b ctx t (o.id dep p) o.lpEth p.amountSats
    rw [heq]
    exact ⟨hladder.congr rfl rfl rfl fun _ => rfl, hused⟩
  | @splice p raw proof exits =>
    obtain ⟨vout, vault, vault', total, paid, t, -, -, -, ht, rfl⟩ := splice_eq hok
    obtain ⟨hladder, -⟩ := armLadder_eq ht
    obtain ⟨armed, paid', checkpoint, rfl⟩ := armLadder_frame ht
    refine ⟨hladder.congr rfl rfl rfl fun _ => rfl, ?_⟩
    simp [currentOutpointKey, State.rearmed, resplicedState, respliced]
  | deliverSwapOutOnchain =>
    obtain ⟨vout, vault, total, paid, -, -, -, ht⟩ := deliverSwapOutOnchain_eq hok
    obtain ⟨hladder, -⟩ := armLadder_eq ht
    obtain ⟨armed, paid', checkpoint, rfl⟩ := armLadder_frame ht
    refine ⟨hladder, ?_⟩
    simp [currentOutpointKey, State.rearmed, resplicedState, respliced]

structure LadderStep (dep : Deployment) (i : Bytes32) (s : State V) (call : Call C) (s' : State V) :
    Prop where
  armed : ArmedStays s s'
  used : ∀ key, s.fundingOutpointUsed key = true → s'.fundingOutpointUsed key = true
  later : s.fundingOutpointUsed (currentOutpointKey dep s' i) = true →
    s'.checkpointOf i = maxCheckpoint (s.checkpointOf i) (call.emits i).toList ∧
    ExitsPay dep s i (call.emits i).toList ∧
    AllArmed s' (currentOutpointKey dep s i) (call.emits i).toList

theorem LadderStep.frame (hnone : call.emits i = none) (harmed : s'.exitArmedOnOutpoint = s.exitArmedOnOutpoint)
    (hused : s'.fundingOutpointUsed = s.fundingOutpointUsed) (hcheck : s'.checkpointOf = s.checkpointOf) :
    LadderStep dep i s call s' := by
  constructor
  · intro key deadline h
    rwa [harmed]
  · intro key h
    rwa [hused]
  · intro _
    rw [hnone, hcheck]
    exact ⟨rfl, List.forall_mem_nil _, List.forall_mem_nil _⟩

theorem LadderStep.rearm {t} (ht : armLadder dep t channelId p exits = .ok s') (hnone : call.emits i = none)
    (hstart : t.exitArmedOnOutpoint = s.exitArmedOnOutpoint) (hcheck : t.checkpointOf = s.checkpointOf)
    (hused : ∃ key, t.fundingOutpointUsed = update s.fundingOutpointUsed key true)
    (hnew : i = channelId → s.fundingOutpointUsed (currentOutpointKey dep t i) = false) :
    LadderStep dep i s call s' := by
  obtain ⟨-, harmed, hothers⟩ := armLadder_eq ht
  have hframe := armLadder_frame ht
  obtain ⟨key, hused⟩ := hused
  constructor
  · intro k deadline h
    apply harmed k deadline
    rwa [hstart]
  · intro k h
    obtain ⟨armed, paid, checkpoint, rfl⟩ := hframe
    by_cases hk : k = key
    · simp [State.rearmed, hused, hk]
    · simpa [State.rearmed, hused, hk] using h
  · intro hold
    have hi : i ≠ channelId := by
      intro hi
      obtain ⟨armed, paid, checkpoint, rfl⟩ := hframe
      exact Bool.false_ne_true ((hnew hi).symm.trans hold)
    rw [hnone, hothers i hi, hcheck]
    exact ⟨rfl, List.forall_mem_nil _, List.forall_mem_nil _⟩

theorem LadderStep.emit (hok : emitDeadManExit dep ctx s channelId p exit = .ok s') :
    LadderStep (C := C) dep i s (.emitDeadManExit channelId p exit) s' := by
  obtain ⟨-, hle, t, ht, rfl⟩ := emitDeadManExit_eq hok
  obtain ⟨hpays, hstays, harmed⟩ := armDeadManExit_armed ht
  obtain ⟨-, rfl⟩ := armDeadManExit_eq ht
  refine ⟨hstays, fun _ h => h, fun _ => ?_⟩
  by_cases hid : channelId = i
  · subst hid
    rw [Call.emits, if_pos rfl]
    refine ⟨?_, hpays, ?_⟩
    · simp [maxCheckpoint, max_eq_right hle]
    · intro e he
      obtain rfl := List.mem_singleton.mp he
      exact harmed
  · rw [Call.emits, if_neg hid]
    exact ⟨update_of_ne (Ne.symm hid) _ _, nofun, nofun⟩

theorem ladderStep_of_exec (hok : exec b dep ctx s call = .ok s') (i : Bytes32) : LadderStep dep i s call s' := by
  cases channelStep_of_exec hok with
  | @opened p raw proof auth exits rungs paid checkpoint _ _ o ho ht =>
    have hstep : LadderStep dep i s (.openChannel (C := C) p raw proof auth exits)
        ((o.state dep s p auth).rearmed rungs paid checkpoint) := by
      refine LadderStep.rearm ht rfl rfl rfl ⟨_, rfl⟩ ?_
      rintro rfl
      have hkey : currentOutpointKey dep (o.state dep s p auth) (o.id dep p) = outpointKey dep o.txId o.vout := by
        simp [currentOutpointKey, Opening.state, Opening.channel]
      rw [hkey]
      exact ho.unused
    exact ⟨hstep.armed, hstep.used, hstep.later⟩
  | claimed => exact .frame rfl rfl rfl rfl
  | @spliced channelId p raw proof exits vout vault _ total paid rungs paid' checkpoint hre _ _ ht =>
    have hstep : LadderStep dep i s (.splice (C := C) channelId p raw proof exits)
        ((resplicedState dep s channelId p (txid dep.crypto raw) vout vault total paid).rearmed rungs paid' checkpoint) := by
      refine LadderStep.rearm ht rfl rfl rfl ⟨_, rfl⟩ ?_
      rintro rfl
      simpa [currentOutpointKey, resplicedState, respliced] using hre.unused
    exact ⟨hstep.armed, hstep.used, hstep.later⟩
  | delivered hre htotal hdeliver ht =>
    refine LadderStep.rearm ht rfl rfl rfl ⟨_, rfl⟩ ?_
    rintro rfl
    simpa [currentOutpointKey, resplicedState, respliced] using hre.unused
  | closed hspend hcloses => cases call <;> cases hcloses <;> exact .frame rfl rfl rfl rfl
  | kept hquiet =>
    cases quietStep_of_exec hquiet hok with
    | emitted emits => exact .emit emits
    | _ => exact .frame rfl rfl rfl rfl

def emitted (i : Bytes32) (cs : List (Ctx E × Call C)) : List ExitArming := cs.filterMap fun c => c.2.emits i

theorem emitted_cons (i : Bytes32) (c : Ctx E × Call C) (cs : List (Ctx E × Call C)) :
    emitted i (c :: cs) = (c.2.emits i).toList ++ emitted i cs := by
  cases h : c.2.emits i with
  | none | some exit => simp [emitted, h]

theorem maxCheckpoint_append (m : ℕ) (exits exits' : List ExitArming) :
    maxCheckpoint m (exits ++ exits') = maxCheckpoint (maxCheckpoint m exits) exits' :=
  List.foldl_append

theorem AllArmed.append {key exits'} (h : AllArmed s key exits)
    (h' : AllArmed s key exits') : AllArmed s key (exits ++ exits') :=
  fun exit hexit => (List.mem_append.mp hexit).elim (h exit) (h' exit)

theorem ladder_of_run {cs} (hsame : ∀ u, Visited (step b dep) s cs u → (u.channels i).outpoint = outpoint)
    (hused : s.fundingOutpointUsed (outpointKey dep outpoint.1 outpoint.2) = true)
    (hrun : runAll (step b dep) s cs = .ok s') :
    ArmedStays s s' ∧ s'.checkpointOf i = maxCheckpoint (s.checkpointOf i) (emitted i cs) ∧
    AllArmed s' (outpointKey dep outpoint.1 outpoint.2) (emitted i cs) ∧
    ∀ exit ∈ emitted i cs, ∃ u, Visited (step b dep) s cs u ∧ ExitsPay dep u i [exit] := by
  induction cs generalizing s with
  | nil =>
    cases hrun
    exact ⟨fun _ _ => id, rfl, nofun, nofun⟩
  | cons c cs ih =>
    obtain ⟨t, ht, hrest⟩ := of_bind hrun
    have hstep := ladderStep_of_exec ht i
    have hkey {u : State V} (hu : Visited (step b dep) s (c :: cs) u) :
        currentOutpointKey dep u i = outpointKey dep outpoint.1 outpoint.2 := by
      rw [← hsame u hu]
      rfl
    have hlater : s.fundingOutpointUsed (currentOutpointKey dep t i) = true := by
      rw [hkey (.cons ht (.start t cs))]
      exact hused
    obtain ⟨hcheck, hpays, harmed⟩ := hstep.later hlater
    rw [hkey (.start s (c :: cs))] at harmed
    obtain ⟨hstays, hcheckRest, harmedRest, hpaysRest⟩ :=
      ih (fun u hu => hsame u (.cons ht hu)) (hstep.used _ hused) hrest
    rw [emitted_cons]
    refine ⟨?_, ?_, ?_, ?_⟩
    · exact fun key deadline h => hstays key deadline (hstep.armed key deadline h)
    · rw [maxCheckpoint_append, ← hcheck, hcheckRest]
    · exact (harmed.mono hstays).append harmedRest
    · intro exit hexit
      rcases List.mem_append.mp hexit with hexit | hexit
      · refine ⟨s, .start s _, fun e he => ?_⟩
        obtain rfl := List.mem_singleton.mp he
        exact hpays e hexit
      · obtain ⟨u, hu, hexits⟩ := hpaysRest exit hexit
        exact ⟨u, .cons ht hu, hexits⟩

def paidExactly (t : Transaction) (script : Bytes) : ℕ :=
  ((t.outputs.filter fun o => o.script = script).map fun o => o.value.toNat).sum

theorem paidTo_eq_paidExactly (h : ∀ o ∈ t.outputs, cr.keccak256 o.script = cr.keccak256 script → o.script = script) :
    t.paidTo cr script = paidExactly t script := by
  have hfilter : t.outputs.filter (TransactionOutput.paysScript cr script) =
      t.outputs.filter fun o => o.script = script := by
    apply List.filter_congr
    intro o ho
    apply decide_eq_decide.mpr
    exact ⟨h o ho, congrArg cr.keccak256⟩
  rw [Transaction.paidTo, hfilter, paidExactly]

def OneInput (exit : ExitArming) : Prop := ∃ t, parseTransaction exit.signedExitTx = .ok t ∧ t.inputs.length = 1

def FundingOnly (outpoint : Bytes32 × UInt32) (exit : ExitArming) : Prop :=
  ∃ t input, parseTransaction exit.signedExitTx = .ok t ∧ t.inputs = [input] ∧
    input.spendsOutpoint outpoint.1 outpoint.2 = true

theorem ExitPays.fundingOnly
    (h : ExitPays dep outpoint script exit t) (hone : t.inputs.length = 1) : FundingOnly outpoint exit := by
  obtain ⟨input, hinputs⟩ := List.length_eq_one_iff.mp hone
  obtain ⟨i, hi, hspends⟩ := h.spends
  rw [hinputs] at hi
  obtain rfl := List.mem_singleton.mp hi
  exact ⟨t, i, h.parsed, hinputs, hspends⟩

theorem Laddered.fundingOnly_iff (h : Laddered dep s i exits) :
    (∀ exit ∈ exits.getLast?, FundingOnly (s.channels i).outpoint exit) ↔
      ((s.channels i).form = .v2 → ∀ exit ∈ exits.getLast?, OneInput exit) := by
  constructor
  · intro hfunding _ exit hexit
    obtain ⟨t, input, ht, hinputs, -⟩ := hfunding exit hexit
    exact ⟨t, ht, by rw [hinputs]; rfl⟩
  · intro hv2 exit hexit
    obtain ⟨script, t, -, hpays, hcount⟩ := h.pays exit (List.mem_of_getLast? hexit)
    apply hpays.fundingOnly
    cases hform : (s.channels i).form with
    | v1 => rw [← hcount hform, h.last exit hexit]
    | v2 =>
      obtain ⟨t', ht', hone⟩ := hv2 hform exit hexit
      obtain rfl := ok_unique hpays.parsed ht'
      exact hone

theorem ExitsPay.payment (h : ExitsPay dep s i exits) (hexit : exit ∈ exits) :
    ∃ script t, lpPayoutScript dep s (s.channels i).lpEth = .ok script ∧
      ExitPays dep (s.channels i).outpoint script exit t ∧
      ((∀ o ∈ t.outputs, dep.crypto.keccak256 o.script = dep.crypto.keccak256 script → o.script = script) →
        exit.checkpointSats ≤ paidExactly t script) := by
  obtain ⟨script, t, hscript, hpays, -⟩ := h exit hexit
  refine ⟨script, t, hscript, hpays, fun hcollision => ?_⟩
  rw [← paidTo_eq_paidExactly hcollision]
  exact hpays.pays

theorem emitDeadManExit_checkpoint (hok : emitDeadManExit dep ctx s channelId p exit = .ok s') (i : Bytes32) :
    s.checkpointOf i ≤ s'.checkpointOf i := by
  obtain ⟨-, hle, t, ht, rfl⟩ := emitDeadManExit_eq hok
  obtain ⟨-, rfl⟩ := armDeadManExit_eq ht
  by_cases hi : i = channelId
  · subst hi
    simpa using hle
  · simp [hi]

/-- A ladder, and the exits emitted after it, for as long as the channel stays on its outpoint. -/
theorem ladder_protects_iff {c : Ctx E × Call C} {t : State V} {ds : List (Ctx E × Call C)}
    (harm : Rearms dep s i c.2 exits) (hok : step b dep s c = .ok t) (hlater : runAll (step b dep) t ds = .ok s')
    (hsame : ∀ u, Visited (step b dep) t ds u → (u.channels i).outpoint = (t.channels i).outpoint) :
    (2 ≤ exits.length ∧ exits.Pairwise (fun e e' => e.cltvDeadline < e'.cltvDeadline)) ∧
    (∀ exit ∈ exits ++ emitted i ds, s'.exitArmedOnOutpoint (currentOutpointKey dep s' i) exit.cltvDeadline = true ∧
      ∃ u, Visited (step b dep) t ds u ∧ ∃ script tx, lpPayoutScript dep u (u.channels i).lpEth = .ok script ∧
        ExitPays dep (s'.channels i).outpoint script exit tx ∧
        ((∀ o ∈ tx.outputs, dep.crypto.keccak256 o.script = dep.crypto.keccak256 script →
          o.script = script) → exit.checkpointSats ≤ paidExactly tx script)) ∧
    s'.checkpointOf i = maxCheckpoint 0 (exits ++ emitted i ds) ∧
    (∀ ctx channelId p exit (u u' : State V), emitDeadManExit (E := E) dep ctx u channelId p exit = .ok u' →
      ∀ j, u.checkpointOf j ≤ u'.checkpointOf j) ∧
    ((∀ exit ∈ exits.getLast?, FundingOnly (s'.channels i).outpoint exit) ↔
      ((t.channels i).form = .v2 → ∀ exit ∈ exits.getLast?, OneInput exit)) := by
  obtain ⟨hladder, hused⟩ := laddered_of_rearms harm hok
  obtain ⟨hstays, hcheck, harmed, hpays⟩ := ladder_of_run hsame hused hlater
  have hend := hsame s' (.last hlater)
  have hkey : currentOutpointKey dep s' i = currentOutpointKey dep t i := by
    obtain ⟨htxId, hvout⟩ := Prod.mk.inj hend
    rw [currentOutpointKey, currentOutpointKey, htxId, hvout]
  refine ⟨⟨hladder.depth, hladder.order⟩, ?_, ?_, fun _ _ _ _ _ _ h => emitDeadManExit_checkpoint h, ?_⟩
  · intro exit hexit
    rw [hkey]
    refine ⟨(hladder.armed.mono hstays).append harmed exit hexit, ?_⟩
    rcases List.mem_append.mp hexit with hexit | hexit
    · rw [hend]
      exact ⟨t, .start t ds, hladder.pays.payment hexit⟩
    · obtain ⟨u, hu, hexits⟩ := hpays exit hexit
      rw [hend, ← hsame u hu]
      exact ⟨u, hu, hexits.payment List.mem_cons_self⟩
  · rw [maxCheckpoint_append, ← hladder.checkpoint, hcheck]
  · rw [hend]
    exact hladder.fundingOnly_iff

def fundingLadder : List ExitArming := sampleLadder (sampleTxid fundingTx, 0) lpScript 90000

def emitCall : SystemCall := (hopCtx, .emitDeadManExit sampleChannel (sampleParams 0)
  (sampleExit [(sampleTxid fundingTx, 0)] lpScript 95000 900288))

theorem ladder_protects_emitted : ∃ t s' : SystemState, sampleStep sampleStart (hopCtx, openCall) = .ok t ∧
    runAll sampleStep t [emitCall] = .ok s' ∧
    s'.checkpointOf sampleChannel = maxCheckpoint 0 (fundingLadder ++ emitted sampleChannel [emitCall]) ∧
    ∀ exit ∈ fundingLadder.getLast?, FundingOnly (s'.channels sampleChannel).outpoint exit := by
  obtain ⟨t, ht, hform, s', hs', hsame⟩ : ∃ t, sampleStep sampleStart
      (hopCtx, openCall) = .ok t ∧ (t.channels sampleChannel).form = .v1 ∧
        ∃ s', sampleStep t emitCall = .ok s' ∧
          (s'.channels sampleChannel).outpoint = (t.channels sampleChannel).outpoint := by
    decide +kernel
  obtain ⟨⟨spk, form⟩, hfunded, hspk⟩ : ∃ r, fundingForm sampleDeployment sampleStart
      (sampleParams 100000) = .ok r ∧ r.1 = channelScript := by
    decide +kernel
  obtain ⟨⟨vout, sats⟩, houtput, hvout⟩ : ∃ r, findOutputByScript fundingTx channelScript = .ok r ∧ r.1 = 0 := by
    decide +kernel
  obtain rfl : spk = channelScript := hspk
  obtain rfl : vout = 0 := hvout
  have hlater : runAll sampleStep t [emitCall] = .ok s' := bind_eq_ok.mpr ⟨s', hs', rfl⟩
  have hvisited : ∀ u, Visited sampleStep t [emitCall] u →
      (u.channels sampleChannel).outpoint = (t.channels sampleChannel).outpoint := by
    intro u hu
    rcases visited_singleton hu with rfl | hu
    · rfl
    · obtain rfl := ok_unique hu hs'
      exact hsame
  have h := ladder_protects_iff (.openChannel hfunded houtput rfl) ht hlater hvisited
  refine ⟨t, s', ht, hlater, h.2.2.1, h.2.2.2.2.mpr fun hv2 => ?_⟩
  rw [hform] at hv2
  cases hv2

def pqParams : OpenParams := ⟨0, 0, [0x01], lpKey, lpKey, 100000, 0⟩

def pqFundingScript : Bytes := [0x52, 0x20] ++ toBytesBE 32 (sampleHash ([0x01] ++ lpKey)).toNat

def pqFundingTx : Bytes := sampleTx [(4, 0)] [(100000, pqFundingScript)] 0

def pqChannel : Bytes32 := channelIdOf sampleDeployment pqParams (sampleTxid pqFundingTx) 0

def pqOpening (exits : List ExitArming) : List SystemCall :=
  [({ hopCtx with sender := 24 }, .setPqVerifier 40),
   (hopCtx, .openChannel pqParams pqFundingTx [] sampleAuth exits)]

def twoInputExit : ExitArming :=
  { sampleExit [(sampleTxid pqFundingTx, 0), (9, 0)] lpScript 90000 900144 with
    prevValues := [0]
    prevScripts := [[]] }

theorem pq_ladder_ends_with_two_inputs : ∃ t : SystemState, runAll sampleStep sampleStart
      (pqOpening [sampleExit [(sampleTxid pqFundingTx, 0)] lpScript 90000 900000, twoInputExit]) = .ok t ∧
    t.exitArmedOnOutpoint (currentOutpointKey sampleDeployment t pqChannel) twoInputExit.cltvDeadline = true ∧
    ¬ FundingOnly (t.channels pqChannel).outpoint twoInputExit := by
  refine exists_ok (fun t => t.exitArmedOnOutpoint (currentOutpointKey sampleDeployment t pqChannel)
    twoInputExit.cltvDeadline = true) (by decide +kernel) ?_
  intro t _ harmed
  obtain ⟨tx, htx, htwo⟩ : ∃ tx, parseTransaction twoInputExit.signedExitTx = .ok tx ∧ tx.inputs.length = 2 := by
    decide +kernel
  refine ⟨harmed, ?_⟩
  rintro ⟨tx', input, htx', hone, -⟩
  obtain rfl := ok_unique htx htx'
  rw [hone] at htwo
  cases htwo

end QuidProtocol.Channels
