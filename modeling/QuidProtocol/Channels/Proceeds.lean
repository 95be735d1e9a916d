import QuidProtocol.Channels.SwapIds
import QuidProtocol.Channels.Registry
import QuidProtocol.Vault.Delivery

/-!
The proceeds of the swap-outs, on the side of the channels and on that of the vault.
The stables that move when a swap is settled.
-/

namespace QuidProtocol.Channels

open Lib Function Btc Reserve
open Basket (Address)
open Spv (Bytes32)
open Vault (Draws SyncCovered Idle)

def PendingOnchainSwapOut.pendingUsd (so : PendingOnchainSwapOut) : ℕ := if so.sats = 0 then 0 else so.usd

noncomputable def outstandingUsd {V : Type} (s : State V) : ℕ := ∑ swapId, (s.pendingOnchainSwapOut swapId).pendingUsd

def Call.delivers {C : Type} : Call C → Option (Bytes32 × Bytes32)
  | .deliverSwapOutOnchain swapId i _ _ _ _ _ => some (swapId, i)
  | _ => none

def SettlesDelivery (s : SystemState) (c : SystemCall) : Prop :=
  ∀ d ∈ c.2.delivers, (s.pendingOnchainSwapOut d.1).usd = 0 ∨
    ∀ w, Vault.syncLev c.1.env s.vault (s.channels d.2).lpEth = .ok w → ¬ Idle w (s.channels d.2).lpEth

instance decidableSettlesDelivery (s : SystemState) (c : SystemCall) : Decidable (SettlesDelivery s c) :=
  Option.decidableForallMem c.2.delivers

def Call.syncs (s : SystemState) : Call Vault.PublicCall → Option Address
  | .splice i p _ _ _ =>
    if p.amountSats < (s.channels i).amountSats then some (s.channels i).lpEth else none
  | .deliverSwapOutOnchain _ i _ _ _ _ _ => some (s.channels i).lpEth
  | .recordClose i _ _ | .recordDeadManExit i _ _ =>
    if s.pendingClaimSats i = 0 then some (s.channels i).lpEth else none
  | .recordForceClosePermissionless i _ =>
    if s.pendingClaimSats i = 0 then some (s.channels i).lpEth else none
  | .vault c => c.syncs
  | _ => none

def SyncsCovered (s : SystemState) (c : SystemCall) : Prop := ∀ lp ∈ c.2.syncs s, SyncCovered c.1.env s.vault lp

instance decidableSyncsCovered (s : SystemState) (c : SystemCall) : Decidable (SyncsCovered s c) :=
  Option.decidableForallMem (c.2.syncs s)

inductive ProceedsStep (s : SystemState) (c : SystemCall) (s' : SystemState) : Prop
  | requested (swapId : Bytes32) (so : PendingOnchainSwapOut) (other : c.2.delivers = none)
    (unused : s.swapOutUsed swapId = false) (sats : so.sats ≠ 0)
    (used : s'.swapOutUsed = update s.swapOutUsed swapId true)
    (entries : s'.pendingOnchainSwapOut = update s.pendingOnchainSwapOut swapId so)
    (pending : s'.vault.core.pendingSwapOutUsd = s.vault.core.pendingSwapOutUsd + so.usd)
    (funded : s.vault.core.Funded → s'.vault.core.Funded)
  | ended (swapId : Bytes32) (u : ℕ) (sats : (s.pendingOnchainSwapOut swapId).sats ≠ 0)
    (used : s'.swapOutUsed = s.swapOutUsed)
    (entries : s'.pendingOnchainSwapOut = update s.pendingOnchainSwapOut swapId noSwapOut)
    (draws : Draws (SyncsCovered s c) u s.vault.core s'.vault.core)
    (le : u ≤ (s.pendingOnchainSwapOut swapId).usd)
    (whole : u = (s.pendingOnchainSwapOut swapId).usd ↔ SettlesDelivery s c)
  | kept (other : c.2.delivers = none) (used : s'.swapOutUsed = s.swapOutUsed)
    (entries : s'.pendingOnchainSwapOut = s.pendingOnchainSwapOut)
    (draws : Draws (SyncsCovered s c) 0 s.vault.core s'.vault.core)

section

variable {dep : Deployment} {ctx : Ctx Vault.Env} {s s' : SystemState} {c : SystemCall}
  {swapId i : Bytes32} {p : OpenParams} {vault vault' : Vault.State}

theorem settlesDelivery_of_none (h : c.2.delivers = none) : SettlesDelivery s c := by
  intro d hd
  rw [h] at hd
  cases hd

variable {so : PendingOnchainSwapOut} {raw : Bytes} {call : Call Vault.PublicCall}

theorem Requesting.proceeds (h : Requesting btcVault ctx s swapId so vault) :
    vault.core.pendingSwapOutUsd = s.vault.core.pendingSwapOutUsd + so.usd ∧
      (s.vault.core.Funded → vault.core.Funded) := by
  obtain ⟨vault₁, usdAmount, minSats, hcredit, hadd⟩ := h.settled
  obtain ⟨hsame, hspare⟩ := Vault.creditSwapOut_draws hcredit
  obtain ⟨core, hcore, hadd⟩ := of_bind hadd
  cases hadd
  obtain ⟨-, hcore⟩ := of_checkedAdd hcore
  cases hcore
  refine ⟨by rw [← hsame], fun hfunded => ?_⟩
  have hspare := hspare hfunded
  unfold Vault.Core.Spare at hspare
  unfold Vault.Core.Funded
  dsimp only
  omega

theorem Dropping.draws {P : Prop} (h : Dropping btcVault ctx s swapId vault) :
    Draws P (s.pendingOnchainSwapOut swapId).usd s.vault.core vault.core := by
  obtain ⟨vault₁, floor, consumed, hsub, hcredit⟩ := h.settled
  obtain ⟨core, hcore, hsub⟩ := of_bind hsub
  cases hsub
  obtain ⟨hle, hcore⟩ := of_checkedSub hcore
  cases hcore
  have hcredited := Vault.creditSwapIn_draws (P := P) hcredit
  refine Draws.trans (w := 0) ⟨Nat.sub_add_cancel hle, fun _ hfunded => ?_⟩ hcredited
  unfold Vault.Core.Funded at hfunded ⊢
  dsimp only
  omega

theorem SpliceSettled.draws (h : SpliceSettled btcVault ctx s i p vault vault') :
    Draws (p.amountSats < (s.channels i).amountSats →
      SyncCovered ctx.env s.vault (s.channels i).lpEth) 0 s.vault.core vault'.core := by
  cases h with
  | grown vault hlt hvault => exact Vault.requestDeposit_draws hvault
  | shrunk vault payout hlt hclaim hvault =>
    obtain ⟨w, -, hdraws⟩ := Vault.resizeLp_draws (fun _ _ => rfl) hvault
    rw [ite_self] at hdraws
    exact hdraws.weaken fun hcovered => hcovered hlt
  | kept => exact .refl _

theorem Closing.draws (h : Closing btcVault dep ctx s i raw vault) : Draws (s.pendingClaimSats i = 0 →
      SyncCovered ctx.env s.vault (s.channels i).lpEth) 0 s.vault.core vault.core := by
  by_cases hclaim : s.pendingClaimSats i = 0
  · obtain ⟨payout, hredeem⟩ := h.redeemed hclaim
    obtain ⟨w, -, hdraws⟩ := Vault.resizeLp_draws (fun _ _ => rfl) hredeem
    rw [ite_self] at hdraws
    exact hdraws.weaken fun hcovered => hcovered hclaim
  · rw [h.deferred hclaim]
    exact .refl _

theorem Delivering.draws (h : Delivering btcVault ctx s swapId i p vault) :
    ∃ w, Vault.syncLev ctx.env s.vault (s.channels i).lpEth = .ok w ∧
      Draws (SyncCovered ctx.env s.vault (s.channels i).lpEth)
        (if Idle w (s.channels i).lpEth then 0 else (s.pendingOnchainSwapOut swapId).usd) s.vault.core vault.core := by
  have hshrinks := h.shrinks
  refine Vault.resizeLp_draws (fun _ hzero => ?_) h.resized
  omega

theorem Delivering.proceeds (hcall : call.delivers = some (swapId, i))
    (hsyncs : call.syncs s = some (s.channels i).lpEth)
    (h : Delivering btcVault ctx s swapId i p s'.vault) (hused : s'.swapOutUsed = s.swapOutUsed)
    (hentries : s'.pendingOnchainSwapOut = update s.pendingOnchainSwapOut swapId noSwapOut) :
    ProceedsStep s (ctx, call) s' := by
  obtain ⟨w, hw, hdraws⟩ := h.draws
  refine .ended swapId _ h.requested hused hentries (hdraws.weaken fun hcovered => hcovered _ hsyncs) ?_ ?_
  · split_ifs
    · exact Nat.zero_le _
    · exact le_rfl
  · constructor
    · intro hwhole d hd
      obtain rfl := Option.mem_unique hcall hd
      by_cases hidle : Idle w (s.channels i).lpEth
      · rw [if_pos hidle] at hwhole
        exact Or.inl hwhole.symm
      · right
        intro w' hw'
        obtain rfl := ok_unique hw hw'
        exact hidle
    · intro hsettles
      rcases hsettles (swapId, i) hcall with hzero | hbusy
      · rw [hzero, ite_self]
      · rw [if_neg (hbusy w hw)]

theorem Dropping.proceeds (hcall : call.delivers = none) (h : Dropping btcVault ctx s swapId vault) :
    ProceedsStep s (ctx, call) { s.endSwapOut swapId with vault } :=
  .ended swapId _ h.requested rfl rfl h.draws le_rfl (iff_of_true rfl (settlesDelivery_of_none hcall))

theorem Closing.proceeds (hcall : call.delivers = none) (hsyncs : call.syncs s =
      if s.pendingClaimSats i = 0 then some (s.channels i).lpEth else none)
    (h : Closing btcVault dep ctx s i raw vault) : ProceedsStep s (ctx, call) (s.closeChannel i vault) := by
  refine .kept hcall rfl rfl (h.draws.weaken fun hcovered hclaim => ?_)
  apply hcovered
  rw [hsyncs, if_pos hclaim]
  rfl

theorem proceedsStep_of_step (hok : step btcVault dep s c = .ok s') : ProceedsStep s c s' := by
  obtain ⟨ctx, call⟩ := c
  cases channelStep_of_exec hok with
  | opened o ho ht hdeposits =>
    obtain ⟨hvault, -⟩ | ⟨rfl, -⟩ := hdeposits
    · exact .kept rfl rfl rfl (Vault.requestDeposit_draws hvault)
    · exact .kept rfl rfl rfl (.refl _)
  | claimed hsats hvault => exact .kept rfl rfl rfl (Vault.requestDeposit_draws hvault)
  | spliced hre htotal hsettled =>
    exact .kept rfl rfl rfl (hsettled.draws.weaken fun hcovered hlt => hcovered _ (if_pos hlt))
  | delivered hre htotal hdeliver => exact hdeliver.proceeds rfl rfl rfl rfl
  | closed hspend hcloses hcl => cases call <;> cases hcloses <;> exact hcl.proceeds rfl rfl
  | kept hquiet =>
    cases quietStep_of_exec hquiet hok with
    | credited hvault => exact .kept rfl rfl rfl (Vault.creditSwapIn_draws hvault)
    | reversed hdrop | refunded hdrop => exact hdrop.proceeds rfl
    | @requested _ _ _ swapId so _ hreq =>
      obtain ⟨hpending, hfunded⟩ := hreq.proceeds
      exact .requested swapId so rfl hreq.unusedOut hreq.sats rfl rfl hpending hfunded
    | called hvault => exact .kept rfl rfl rfl (Vault.execPublic_draws hvault)
    | _ => exact .kept rfl rfl rfl (.refl _)

def Fresh (s : SystemState) : Prop :=
  ∀ swapId, s.swapOutUsed swapId = false → (s.pendingOnchainSwapOut swapId).pendingUsd = 0

theorem Fresh.of_step (h : Fresh s) (hstep : ProceedsStep s c s') : Fresh s' := by
  intro swapId hunused
  cases hstep with
  | requested id so other unused sats used entries =>
    have hne : swapId ≠ id := by
      rintro rfl
      rw [used, update_self] at hunused
      cases hunused
    rw [used, update_of_ne hne] at hunused
    rw [entries, update_of_ne hne]
    exact h swapId hunused
  | ended id u sats used entries =>
    rw [used] at hunused
    rw [entries]
    by_cases hid : swapId = id
    · rw [hid, update_self]
      rfl
    · rw [update_of_ne hid]
      exact h swapId hunused
  | kept other used entries =>
    rw [used] at hunused
    rw [entries]
    exact h swapId hunused

theorem outstandingUsd_update {n k} (hentries : s'.pendingOnchainSwapOut = update s.pendingOnchainSwapOut swapId so)
    (h : so.pendingUsd + n = (s.pendingOnchainSwapOut swapId).pendingUsd + k) :
    outstandingUsd s' + n = outstandingUsd s + k := by
  rw [outstandingUsd, outstandingUsd, hentries]
  exact sum_comp_update PendingOnchainSwapOut.pendingUsd h

theorem outstandingUsd_requested (h : Fresh s) (hunused : s.swapOutUsed swapId = false) (hsats : so.sats ≠ 0)
    (hentries : s'.pendingOnchainSwapOut = update s.pendingOnchainSwapOut swapId so) :
    outstandingUsd s' = outstandingUsd s + so.usd := by
  refine outstandingUsd_update (n := 0) hentries ?_
  rw [h swapId hunused, PendingOnchainSwapOut.pendingUsd, if_neg hsats, Nat.zero_add]
  rfl

theorem outstandingUsd_ended (hsats : (s.pendingOnchainSwapOut swapId).sats ≠ 0)
    (hentries : s'.pendingOnchainSwapOut = update s.pendingOnchainSwapOut swapId noSwapOut) :
    outstandingUsd s' + (s.pendingOnchainSwapOut swapId).usd = outstandingUsd s := by
  refine outstandingUsd_update (k := 0) hentries ?_
  have hnone : noSwapOut.pendingUsd = 0 := rfl
  rw [hnone, PendingOnchainSwapOut.pendingUsd, if_neg hsats, Nat.zero_add]
  rfl

theorem outstandingUsd_delivered {script proof exits}
    (hok : step btcVault dep s (ctx, .deliverSwapOutOnchain swapId i p raw proof script exits) = .ok s') :
    outstandingUsd s' + (s.pendingOnchainSwapOut swapId).usd = outstandingUsd s := by
  obtain ⟨vout, vault, total, paid, -, -, hdeliver, ht⟩ := deliverSwapOutOnchain_eq hok
  obtain ⟨armed, paid', checkpoint, rfl⟩ := armLadder_frame ht
  exact outstandingUsd_ended hdeliver.requested rfl

def ProceedsMatch (s : SystemState) : Prop := s.vault.core.pendingSwapOutUsd = outstandingUsd s

theorem ProceedsMatch.of_step (h : ProceedsMatch s) (hfresh : Fresh s) (hstep : ProceedsStep s c s') :
    ProceedsMatch s' ↔ SettlesDelivery s c := by
  unfold ProceedsMatch at h ⊢
  cases hstep with
  | requested swapId so other unused sats used entries pending =>
    apply iff_of_true _ (settlesDelivery_of_none other)
    rw [pending, h, outstandingUsd_requested hfresh unused sats entries]
  | ended swapId u sats used entries draws le whole =>
    have hsum := outstandingUsd_ended sats entries
    have hdrawn := draws.pending
    rw [← whole]
    omega
  | kept other used entries draws =>
    apply iff_of_true _ (settlesDelivery_of_none other)
    have hdrawn := draws.pending
    rw [outstandingUsd, entries, ← outstandingUsd, ← h]
    exact hdrawn

def Matched (s : SystemState) : Prop := ProceedsMatch s ∧ Fresh s

theorem matched_deployed (priceWad) : Matched (deployed (Vault.deployed priceWad)) := by
  constructor
  · exact Finset.sum_const_zero.symm
  · exact fun _ _ => rfl

theorem Matched.of_step (h : Matched s) (hsettles : SettlesDelivery s c)
    (hok : step btcVault dep s c = .ok s') : Matched s' := by
  have hstep := proceedsStep_of_step hok
  constructor
  · exact (h.1.of_step h.2 hstep).mpr hsettles
  · exact h.2.of_step hstep

/-- The two sides of the book agree for exactly as long as every delivery is from an LP that can be
settled with. -/
theorem proceedsMatch_iff {priceWad : ℕ} {cs : List SystemCall}
    (hrun : runAll (step btcVault dep) (deployed (Vault.deployed priceWad)) cs = .ok s) :
    EveryState (step btcVault dep) ProceedsMatch (deployed (Vault.deployed priceWad)) cs ↔
      EveryStep (step btcVault dep) SettlesDelivery (deployed (Vault.deployed priceWad)) cs := by
  refine everyState_iff Matched (fun _ h => h.1) (fun _ _ _ => Matched.of_step) ?_
    (matched_deployed priceWad) hrun
  rintro s c s' ⟨hmatch, hfresh⟩ hsettles hok hmatch'
  exact hsettles ((hmatch.of_step hfresh (proceedsStep_of_step hok)).mp hmatch')

end

def requestCall : SystemCall := (swapperCtx 1000, .requestSwapOutOnchain 3 (10 ^ 7) 0 5)

def payTx (raw : Bytes) (left paid : ℕ) : Bytes :=
  sampleTx [(sampleTxid raw, 0)] [(left, channelScript), (paid, lpScript)] 0

def firstPayTx : Bytes := payTx fundingTx 90000 10000

def deliverCall (raw : Bytes) (left : ℕ) : SystemCall :=
  (hopCtx, .deliverSwapOutOnchain 5 sampleChannel (sampleParams left) raw [] lpScript
    (sampleLadder (sampleTxid raw, 0) lpScript (left - 10000)))

theorem proceedsMatch_iff_delivered :
    EveryState sampleStep ProceedsMatch sampleStart (swapSetup ++ [requestCall, deliverCall firstPayTx 90000]) := by
  obtain ⟨s, hs⟩ : ∃ s, runAll sampleStep sampleStart
      (swapSetup ++ [requestCall, deliverCall firstPayTx 90000]) = .ok s := by
    decide +kernel
  exact (proceedsMatch_iff hs).mpr (by decide +kernel)

def requestAndHandOn : List SystemCall :=
  swapSetup ++ [requestCall,
    ({ hopCtx with sender := sampleLp }, .vault (.transferShares sampleLp 31 100000))]

theorem proceeds_outlive_delivery : ∃ s : SystemState,
    runAll sampleStep sampleStart (requestAndHandOn ++ [deliverCall firstPayTx 90000]) = .ok s ∧
    s.vault.core.pendingSwapOutUsd = 9995800 ∧ outstandingUsd s = 0 := by
  obtain ⟨t, ht, hsteps, husd, hpending, s, hs, hkept⟩ : ∃ t : SystemState,
      runAll sampleStep sampleStart requestAndHandOn = .ok t ∧
      EveryStep sampleStep SettlesDelivery sampleStart
        requestAndHandOn ∧ (t.pendingOnchainSwapOut 5).usd = 9995800 ∧ t.vault.core.pendingSwapOutUsd = 9995800 ∧
      ∃ s, sampleStep t (deliverCall firstPayTx 90000) = .ok s ∧
        s.vault.core.pendingSwapOutUsd = 9995800 := by
    decide +kernel
  have hmatched : Matched t := runAll_invariant (fun _ _ _ hinv => hinv.of_step) (matched_deployed _) hsteps ht
  refine ⟨s, runAll_concat ht hs, hkept, ?_⟩
  have hsum := outstandingUsd_delivered hs
  rw [← hmatched.1, hpending, husd] at hsum
  exact Nat.add_right_cancel (hsum.trans (Nat.zero_add _).symm)

section

variable {dep : Deployment} {s s' : SystemState} {c : SystemCall} {swapId : Bytes32}

structure Solvent (s : SystemState) : Prop where
  fresh : Fresh s
  outstanding : outstandingUsd s ≤ s.vault.core.pendingSwapOutUsd
  funded : s.vault.core.Funded

theorem solvent_deployed (priceWad) : Solvent (deployed (Vault.deployed priceWad)) where
  fresh _ _ := rfl
  outstanding := (matched_deployed priceWad).1.ge
  funded := le_rfl

theorem Solvent.of_step (h : Solvent s) (hcovered : SyncsCovered s c) (hstep : ProceedsStep s c s') : Solvent s' := by
  have hfresh := h.fresh.of_step hstep
  have hout := h.outstanding
  cases hstep with
  | requested swapId so other unused sats used entries pending funded =>
    refine ⟨hfresh, ?_, funded h.funded⟩
    rw [pending, outstandingUsd_requested h.fresh unused sats entries]
    exact Nat.add_le_add_right hout _
  | ended swapId u sats used entries draws le whole =>
    refine ⟨hfresh, ?_, draws.funded hcovered h.funded⟩
    have hsum := outstandingUsd_ended sats entries
    have hdrawn := draws.pending
    omega
  | kept other used entries draws =>
    refine ⟨hfresh, ?_, draws.funded hcovered h.funded⟩
    rw [outstandingUsd, entries, ← outstandingUsd]
    exact hout.trans draws.pending.ge

theorem usd_le_outstandingUsd (hsats : (s.pendingOnchainSwapOut swapId).sats ≠ 0) :
    (s.pendingOnchainSwapOut swapId).usd ≤ outstandingUsd s := by
  have hle := Finset.single_le_sum (f := fun id => (s.pendingOnchainSwapOut id).pendingUsd)
    (fun _ _ => Nat.zero_le _) (Finset.mem_univ swapId)
  rwa [PendingOnchainSwapOut.pendingUsd, if_neg hsats] at hle

def DeliveriesDraw (s : SystemState) : Prop :=
  ∀ (c : SystemCall), SyncsCovered s c → ∀ d ∈ c.2.delivers, (s.pendingOnchainSwapOut d.1).sats ≠ 0 →
    ∀ w, Vault.syncLev c.1.env s.vault (s.channels d.2).lpEth = .ok w → ∀ shrink payout,
      Vault.DrawsReturn c.1.env w (s.channels d.2).lpEth shrink payout (s.pendingOnchainSwapOut d.1).usd

theorem Call.syncs_of_delivers {call : Call Vault.PublicCall} {d : Bytes32 × Bytes32}
    (h : call.delivers = some d) : call.syncs s = some (s.channels d.2).lpEth := by
  cases call with
  | deliverSwapOutOnchain =>
    cases h
    rfl
  | _ => cases h

theorem Solvent.deliveriesDraw (h : Solvent s) : DeliveriesDraw s := by
  intro c hcovered d hd hsats w hw shrink payout
  have hsync : SyncCovered c.1.env s.vault (s.channels d.2).lpEth := hcovered _ (Call.syncs_of_delivers hd)
  have hdraws := Vault.syncLev_draws hw
  apply Vault.drawsReturn_of_funded (hdraws.funded hsync h.funded)
  calc (s.pendingOnchainSwapOut d.1).usd
      ≤ outstandingUsd s := usd_le_outstandingUsd hsats
    _ ≤ s.vault.core.pendingSwapOutUsd := h.outstanding
    _ = w.core.pendingSwapOutUsd := hdraws.pending.symm

/-- Where all burns of leverage are covered, the dollars of a pending swap-out are there when it is delivered. -/
theorem proceeds_funded (priceWad : ℕ) {cs : List SystemCall}
    (hcovered : EveryStep (step btcVault dep) SyncsCovered (deployed (Vault.deployed priceWad)) cs) :
    EveryState (step btcVault dep)
      (fun s => s.vault.core.basketUsd + s.vault.core.pendingSwapOutUsd ≤ s.vault.core.pooledUsd ∧
        DeliveriesDraw s) (deployed (Vault.deployed priceWad)) cs :=
  everyState_of_invariant (fun _ h => ⟨h.funded, h.deliveriesDraw⟩)
    (fun _ _ _ h hcovered hok => h.of_step hcovered (proceedsStep_of_step hok)) (solvent_deployed priceWad)
    hcovered

end

def leveredEnv : Vault.Env :=
  { Vault.quietEnv with
    grossCollateral := fun _ => 30000
    netEquity := fun _ => 20000
    debtUsd := fun _ => 10 ^ 22 }

def secondPayTx : Bytes := payTx firstPayTx 80000 10000

def withdrawCall (raw : Bytes) (left : ℕ) : Call Vault.PublicCall :=
  .splice sampleChannel (sampleParams left) raw []
    (sampleLadder (sampleTxid raw, 0) lpScript (left - 10000))

def leveredWithdrawal : List SystemCall :=
  swapSetup ++ [(hopCtx, .vault (.setLevManager 9)),
    ({ hopCtx with env := leveredEnv }, withdrawCall firstPayTx 90000)]

def leveredRequest (usdAmount : ℕ) (swapId : Bytes32) : SystemCall :=
  ({ swapperCtx 1000 with env := leveredEnv }, .requestSwapOutOnchain 3 usdAmount 0 swapId)

theorem proceeds_funded_delevered : (∃ s, runAll sampleStep sampleStart
      (leveredWithdrawal ++ [leveredRequest (10 ^ 7) 5, deliverCall secondPayTx 80000]) = .ok s) ∧ EveryState sampleStep
      (fun s => s.vault.core.basketUsd + s.vault.core.pendingSwapOutUsd ≤ s.vault.core.pooledUsd ∧
        DeliveriesDraw s) sampleStart
      (leveredWithdrawal ++ [leveredRequest (10 ^ 7) 5, deliverCall secondPayTx 80000]) := by
  exact ⟨by decide +kernel, proceeds_funded (10 ^ 33) (by decide +kernel)⟩

def overdrawn : List SystemCall :=
  leveredWithdrawal ++ [leveredRequest (6 * 10 ^ 7) 5, leveredRequest (4 * 10 ^ 7) 6,
    (hopCtx, withdrawCall secondPayTx 80000)]

def lateDelivery : SystemCall := deliverCall (payTx secondPayTx 20000 60000) 20000

theorem burn_takes_proceeds : ∃ s : SystemState, runAll sampleStep sampleStart overdrawn = .ok s ∧
    s.vault.core.pooledUsd = 40386170 ∧ s.vault.core.basketUsd = 0 ∧
    s.vault.core.pendingSwapOutUsd = 99958000 ∧ (s.pendingOnchainSwapOut 5).usd = 59974800 ∧
    Vault.drawPooledUsdBtc s.vault.core (s.pendingOnchainSwapOut 5).usd = .error .panic ∧
    sampleStep s lateDelivery = .error (.vault .panic) := by decide +kernel

structure SwapIn where
  vault : Vault.State
  seller : Address
  sats : ℕ
  token : Address
  floor : ℕ

def droppedSwapIn (s : SystemState) (swapId : Bytes32) (floor : ℕ) : Res SwapIn := do
  let so := s.pendingOnchainSwapOut swapId
  let s ← dropSwapOut btcVault s swapId
  .ok ⟨s.vault, so.swapper, so.sats, so.token, floor⟩

def Call.swapIn (dep : Deployment) (s : SystemState) : Call Vault.PublicCall → Option SwapIn
  | .settleSwapInProven terms proof raw => Except.toOption do
    let sats ← (verifySwapInDeposit dep.crypto dep.btcDepositKey terms proof.userRefund
      proof.cltvHeight raw).mapError Err.key
    let floor ← (settleFloorUsd terms sats).mapError .key
    .ok ⟨s.vault, terms.seller, sats, terms.token, floor⟩
  | .reverseSwapOut swapId _ => (droppedSwapIn s swapId (s.pendingOnchainSwapOut swapId).usd).toOption
  | .refundExpiredSwapOut swapId minDeliveredUsd => (droppedSwapIn s swapId minDeliveredUsd).toOption
  | _ => none

def Ctx.withShelf (ctx : Ctx Vault.Env) (r : Vault.Core → Shelf) : Ctx Vault.Env :=
  { ctx with env := ctx.env.withShelf r }

section

variable {dep : Deployment} {ctx : Ctx Vault.Env} {s s' : SystemState} {call : Call Vault.PublicCall}
variable {swapId : Bytes32} {x : SwapIn} {floor : ℕ}

theorem droppedSwapIn_eq (h : droppedSwapIn s swapId floor = .ok x) :
    ∃ t, dropSwapOut btcVault s swapId = .ok t ∧ t.vault.core.pooledUsd = s.vault.core.pooledUsd ∧
      x = ⟨t.vault, (s.pendingOnchainSwapOut swapId).swapper, (s.pendingOnchainSwapOut swapId).sats,
        (s.pendingOnchainSwapOut swapId).token, floor⟩ := by
  obtain ⟨t, ht, h⟩ := of_bind h
  refine ⟨t, ht, ?_, ok_inj h⟩
  obtain ⟨vault, hsub, ht⟩ := of_bind ht
  obtain ⟨core, hcore, hvault⟩ := of_bind (mapError_eq_ok.mp hsub)
  obtain ⟨pending, -, hcore⟩ := of_bind hcore
  rw [← Except.ok.inj ht, ← Except.ok.inj hvault, ← Except.ok.inj hcore]

theorem swapIn_credited (hx : call.swapIn dep s = some x) (h : exec btcVault dep ctx s call = .ok s') :
    x.vault.core.pooledUsd = s.vault.core.pooledUsd ∧ ∃ consumed vault,
      Vault.creditSwapIn ctx.env x.vault x.seller x.sats x.token x.floor = .ok (consumed, vault) := by
  cases call with
  | settleSwapInProven =>
    obtain ⟨sats, hsats, hx⟩ := of_bind (toOption_eq_some.mp hx)
    obtain ⟨floor, hfloor, hx⟩ := of_bind hx
    cases hx
    obtain ⟨-, -, h⟩ := of_require₂ h
    obtain ⟨-, sats', hsats', h⟩ := of_require_bind h
    obtain ⟨floor', hfloor', h⟩ := of_bind h
    obtain rfl := ok_unique hsats hsats'
    obtain rfl := ok_unique hfloor hfloor'
    obtain ⟨⟨consumed, vault⟩, hvault, -⟩ := of_bind h
    exact ⟨rfl, consumed, vault, mapError_eq_ok.mp hvault⟩
  | reverseSwapOut =>
    obtain ⟨t, ht, hpooled, rfl⟩ := droppedSwapIn_eq (toOption_eq_some.mp hx)
    obtain ⟨-, -, h⟩ := of_require₂ h
    obtain ⟨-, t', ht', h⟩ := of_require_bind h
    obtain rfl := ok_unique ht ht'
    obtain ⟨⟨consumed, vault⟩, hvault, -⟩ := of_bind h
    exact ⟨hpooled, consumed, vault, mapError_eq_ok.mp hvault⟩
  | refundExpiredSwapOut =>
    obtain ⟨t, ht, hpooled, rfl⟩ := droppedSwapIn_eq (toOption_eq_some.mp hx)
    obtain ⟨-, -, h⟩ := of_require₂ h
    obtain ⟨-, -, h⟩ := of_require₂ h
    obtain ⟨t', ht', h⟩ := of_bind h
    obtain rfl := ok_unique ht ht'
    obtain ⟨⟨consumed, vault⟩, hvault, -⟩ := of_bind h
    exact ⟨hpooled, consumed, vault, mapError_eq_ok.mp hvault⟩
  | _ => exact (Option.some_ne_none _ hx.symm).elim

end

def refundForNine : Call Vault.PublicCall := .refundExpiredSwapOut 5 (9 * 10 ^ 6)

/-- The account of a swap-out is even for a stable of 6 decimals or a swap that is filled. -/
theorem swapOut_deposit_accounted (dep : Deployment) (r : Vault.Core → Shelf) (ctx : Ctx Vault.Env)
    (s s' : SystemState) (token : Address) (usdAmount minSats : ℕ) (swapId : Bytes32)
    (a : Vault.SwapOutAccount) (hd : ctx.env.decimals token ≤ 18)
    (ha : Vault.swapOutAccount ctx.env r s.vault ctx.sender token usdAmount = .ok a)
    (hrefund : a.refunded = a.unfilled * 10 ^ (18 - ctx.env.decimals token))
    (h : requestSwapOutOnchain btcVault dep (ctx.withShelf r) s token usdAmount minSats swapId = .ok s') :
    (ctx.env.decimals token = 6 ∨ a.unfilled = 0 → a.Even (s'.pendingOnchainSwapOut swapId).usd) ∧
      (a.Even (s'.pendingOnchainSwapOut swapId).usd → ctx.env.decimals token = 6 ∨ a.unfilled ≤ 1) := by
  obtain ⟨-, -, h⟩ := of_require₂ h
  obtain ⟨-, script, -, h⟩ := of_require_bind h
  obtain ⟨⟨sats, usd6, vault₁⟩, hswap, h⟩ := of_bind h
  obtain ⟨hsats, -, h⟩ := of_require₂ h
  obtain ⟨vault, -, h⟩ := of_bind h
  have husd : (s'.pendingOnchainSwapOut swapId).usd = usd6 := by
    cases h
    dsimp only
    rw [Function.update_self]
  obtain ⟨hle, hlt⟩ := Vault.creditSwapOut_account hd hsats ha
    (mapError_eq_ok.mp hswap)
  rw [husd]
  exact Vault.SwapOutAccount.even_cases hrefund hle hlt

def swapOutRequest (env : Vault.Env) (r : Vault.Core → Shelf) (usdAmount : ℕ) (s : SystemState) : Res SystemState :=
  requestSwapOutOnchain btcVault sampleDeployment (Ctx.withShelf { swapperCtx 1000 with env } r) s
    3 usdAmount 0 5

theorem swapOut_deposit_accounted_six : let r := fun _ => Vault.deepStable 3
    ∃ s s' a, runAll sampleStep sampleStart swapSetup = .ok s ∧
      swapOutRequest Vault.quietEnv r (10 ^ 9) s = .ok s' ∧
      Vault.swapOutAccount Vault.quietEnv r s.vault 31 3 (10 ^ 9) = .ok a ∧
      a.unfilled ≠ 0 ∧ a.Even (s'.pendingOnchainSwapOut 5).usd := by
  intro r
  obtain ⟨s, hs, s', hs', a, ha, hunfilled, hrefund⟩ : ∃ s, runAll sampleStep sampleStart swapSetup = .ok s ∧
        ∃ s', swapOutRequest Vault.quietEnv r (10 ^ 9) s = .ok s' ∧
        ∃ a, Vault.swapOutAccount Vault.quietEnv r s.vault 31 3 (10 ^ 9) = .ok a ∧
          a.unfilled ≠ 0 ∧ a.refunded = a.unfilled * 10 ^ 12 := by
    decide +kernel
  have heven := swapOut_deposit_accounted sampleDeployment r (swapperCtx 1000) s s' 3
    (10 ^ 9) 0 5 a (by decide) ha hrefund hs'
  exact ⟨s, s', a, hs, hs', ha, hunfilled, heven.1 (Or.inl rfl)⟩

theorem swapOut_deposit_lost : let env := { Vault.quietEnv with decimals := fun _ => 18 }
    let r := fun _ => Vault.deepStable 3
    ∃ s s' a, runAll sampleStep sampleStart swapSetup = .ok s ∧
      swapOutRequest env r (10 ^ 21) s = .ok s' ∧
      Vault.swapOutAccount env r s.vault 31 3 (10 ^ 21) = .ok a ∧
      a.deposited = 10 ^ 21 ∧ a.premium = 420000 ∧ (s'.pendingOnchainSwapOut 5).usd = 10 ^ 8 ∧
      a.unfilled = 899580000 ∧ a.refunded = 899580000 ∧ ¬ a.Even (s'.pendingOnchainSwapOut 5).usd := by
  simp only [exists_and_left]
  decide +kernel

end QuidProtocol.Channels
