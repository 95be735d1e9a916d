import QuidProtocol.Channels.Steps
import QuidProtocol.Vault.Shares

/-!
The channels over the BTC vault: what the channels do to the vault is a run of the vault.
The reconciler of `channel_driver.rs`: the funding of an LDK channel against its record.
-/

namespace QuidProtocol.Channels

open Lib Btc Function
open Basket (Address)
open Spv (Bytes32)

def btcVault : IBtc Vault.State Vault.Env Vault.PublicCall where
  requestDeposit := Vault.requestDeposit
  requestRedeem := Vault.requestRedeem
  resize := Vault.resize
  creditSwapIn := Vault.creditSwapIn
  creditSwapOut := Vault.creditSwapOut
  addPendingSwapOut v usd6 := do
    let core ← Vault.addPendingSwapOut v.core usd6
    .ok { v with core }
  subPendingSwapOut v usd6 := do
    let core ← Vault.subPendingSwapOut v.core usd6
    .ok { v with core }
  exec := Vault.execPublic

abbrev SystemState := State Vault.State

abbrev SystemCall := Ctx Vault.Env × Call Vault.PublicCall

def VaultRun (v v' : Vault.State) : Prop := ∃ cs, runAll Vault.step v cs = .ok v'

theorem VaultRun.refl (v : Vault.State) : VaultRun v v := ⟨[], rfl⟩

theorem VaultRun.trans {v v' v''} (h : VaultRun v v') (h' : VaultRun v' v'') : VaultRun v v'' := by
  obtain ⟨cs, hcs⟩ := h
  obtain ⟨ds, hds⟩ := h'
  refine ⟨cs ++ ds, ?_⟩
  rw [runAll_append, hcs]
  exact hds

theorem VaultRun.call (env c) {v v'} (h : Vault.exec env v c = .ok v') : VaultRun v v' :=
  ⟨[(env, c)], bind_eq_ok.mpr ⟨v', h, rfl⟩⟩

section

variable {dep : Deployment} {ctx : Ctx Vault.Env} {s s' : SystemState} {channelId swapId : Bytes32}
  {p : OpenParams} {raw : Bytes} {vault vault' : Vault.State}

theorem SpliceSettled.vaultRun (h : SpliceSettled btcVault ctx s channelId p vault vault') :
    VaultRun s.vault vault' := by
  cases h with
  | grown vault hlt hvault =>
    exact VaultRun.call _ (.requestDeposit _ _) hvault
  | shrunk _ _ _ _ hvault =>
    exact VaultRun.call _ (.resize _ _ _ _) hvault
  | kept => exact .refl _

theorem Closing.vaultRun (h : Closing btcVault dep ctx s channelId raw vault) : VaultRun s.vault vault := by
  by_cases hclaim : s.pendingClaimSats channelId = 0
  · obtain ⟨payout, hvault⟩ := h.redeemed hclaim
    exact VaultRun.call _ (.requestRedeem _ _) hvault
  · rw [h.deferred hclaim]
    exact .refl _

theorem creditSwapIn_vaultRun {env seller token sats floor consumed}
    (h : Vault.creditSwapIn env vault seller sats token floor = .ok (consumed, vault')) : VaultRun vault vault' :=
  VaultRun.call _ (.creditSwapIn _ _ _ _) (bind_eq_ok.mpr ⟨(consumed, vault'), h, rfl⟩)

theorem Dropping.vaultRun (h : Dropping btcVault ctx s swapId vault) : VaultRun s.vault vault := by
  obtain ⟨vault₁, floor, consumed, hsub, hcredit⟩ := h.settled
  apply VaultRun.trans (VaultRun.call ctx.env (.subPendingSwapOut _) hsub)
  exact creditSwapIn_vaultRun hcredit

theorem Requesting.vaultRun {so} (h : Requesting btcVault ctx s swapId so vault) : VaultRun s.vault vault := by
  obtain ⟨vault₁, usdAmount, minSats, hcredit, hadd⟩ := h.settled
  have hcredited : VaultRun s.vault vault₁ :=
    VaultRun.call _ (.creditSwapOut _ _ _ _)
      (bind_eq_ok.mpr ⟨(so.sats, so.usd, vault₁), hcredit, rfl⟩)
  exact hcredited.trans (VaultRun.call ctx.env (.addPendingSwapOut _) hadd)

theorem vaultRun_of_step {c} (hok : step btcVault dep s c = .ok s') : VaultRun s.vault s'.vault := by
  obtain ⟨ctx, call⟩ := c
  cases channelStep_of_exec hok with
  | opened o ho ht hdeposits =>
    obtain ⟨hvault, -⟩ | ⟨rfl, -⟩ := hdeposits
    · exact VaultRun.call _ (.requestDeposit _ _) hvault
    · exact .refl _
  | claimed hsats hvault => exact VaultRun.call _ (.requestDeposit _ _) hvault
  | spliced hre htotal hsettled => exact hsettled.vaultRun
  | delivered hre htotal hdeliver => exact VaultRun.call _ (.resize _ _ _ _) hdeliver.resized
  | closed hspend hcloses hcl => exact hcl.vaultRun
  | kept hquiet =>
    cases quietStep_of_exec hquiet hok with
    | credited hvault => exact creditSwapIn_vaultRun hvault
    | reversed hdrop | refunded hdrop => exact hdrop.vaultRun
    | requested hreq => exact hreq.vaultRun
    | @called c vault hvault => exact VaultRun.call _ (.anyone c) hvault
    | _ => exact .refl _

theorem vaultRun_of_run {cs} (hrun : runAll (step btcVault dep) s cs = .ok s') : VaultRun s.vault s'.vault := by
  induction cs generalizing s with
  | nil =>
    cases hrun
    exact .refl _
  | cons c cs ih =>
    obtain ⟨t, ht, hrest⟩ := of_bind hrun
    exact (vaultRun_of_step ht).trans (ih hrest)

theorem balanced_of_step {c} (h : Vault.Balanced s.vault)
    (hok : step btcVault dep s c = .ok s') : Vault.Balanced s'.vault := by
  obtain ⟨vs, hvs⟩ := vaultRun_of_step hok
  exact h.run hvs

/-- Under the channels the vault goes through runs of its own only, and so keeps their invariant. -/
theorem vault_refined {priceWad cs} (hrun : runAll (step btcVault dep) (deployed (Vault.deployed priceWad)) cs = .ok s) :
    VaultRun (Vault.deployed priceWad) s.vault ∧ Vault.Balanced s.vault := by
  obtain ⟨vs, hvs⟩ := vaultRun_of_run hrun
  exact ⟨⟨vs, hvs⟩, (Vault.balanced_deployed priceWad).run hvs⟩

end

def sampleModulus : ℕ := 2 ^ 255 - 19

def sampleHash (bs : Bytes) : Bytes32 := BitVec.ofNat 256 (ofBytesBE bs % sampleModulus)

theorem sampleHash_congr {bs cs} (h : sampleHash bs = sampleHash cs) :
    ofBytesBE bs ≡ ofBytesBE cs [MOD sampleModulus] := by
  have hmod (x : ℕ) : x % sampleModulus < 2 ^ 256 := (Nat.mod_lt x (by decide)).trans (by decide)
  have h := congrArg BitVec.toNat h
  rwa [sampleHash, sampleHash, BitVec.toNat_ofNat, BitVec.toNat_ofNat, Nat.mod_eq_of_lt (hmod _),
    Nat.mod_eq_of_lt (hmod _)] at h

theorem sampleHash_word {as bs : Bytes} {x y : UInt32}
    (h : sampleHash (as ++ (abiWord x.toNat ++ bs)) = sampleHash (as ++ (abiWord y.toNat ++ bs))) : x = y := by
  have hlength (x : UInt32) : (abiWord x.toNat ++ bs).length = 32 + bs.length := by
    rw [List.length_append, abiWord, toBytesBE_length]
  have hword (x : UInt32) : ofBytesBE (abiWord x.toNat) = x.toNat := by
    rw [abiWord, ofBytesBE_toBytesBE, Nat.mod_eq_of_lt (x.toNat_lt.trans (by decide))]
  have hcoprime : Nat.gcd sampleModulus (256 ^ bs.length) = 1 := Nat.Coprime.pow_right _ (by decide)
  have hsmall (x : UInt32) : x.toNat < sampleModulus := x.toNat_lt.trans (by decide)
  have h := sampleHash_congr h
  rw [ofBytesBE_append as, ofBytesBE_append as, hlength, hlength] at h
  have h := Nat.ModEq.add_left_cancel' _ h
  rw [ofBytesBE_append, ofBytesBE_append, hword, hword] at h
  have h := Nat.ModEq.cancel_right_of_coprime hcoprime (Nat.ModEq.add_right_cancel' _ h)
  exact UInt32.toNat_inj.mp (Nat.ModEq.eq_of_lt_of_lt h (hsmall x) (hsmall y))

theorem sampleHash_injOn (lp hop txId) : Set.InjOn sampleHash (Set.range fun vout => abiChannel lp hop txId vout) := by
  have hsplit (vout : UInt32) : abiChannel lp hop txId vout =
      (abiWord 0x80 ++ (abiWord (0x80 + (abiBytes lp).length) ++ abiWord txId.toNat)) ++
        (abiWord vout.toNat ++ (abiBytes lp ++ abiBytes hop)) := by
    rw [abiChannel, List.append_assoc, List.append_assoc]
  rintro - ⟨vout, rfl⟩ - ⟨vout', rfl⟩ h
  simp only [hsplit] at h
  rw [sampleHash_word h]

def sampleCrypto : Crypto where
  sha256 := sampleHash
  keccak256 := sampleHash
  aggregate a b := some (sampleHash (a ++ b))
  taprootOutputKeyWithLeaf key leaf := some (sampleHash (toBytesBE 32 key.toNat ++ toBytesBE 32 leaf.toNat))
  schnorrVerify _ _ _ _ := true

def sampleVerifier : IPqVerifier where
  fundingScript lp hop := some ([0x52, 0x20] ++ toBytesBE 32 (sampleHash (lp ++ hop)).toNat)
  payoutScript key := some ([0x52, 0x20] ++ toBytesBE 32 key.toNat)
  verifyPossession _ _ _ := true
  verifyExit _ _ _ _ _ := true

def sampleDeployment : Deployment where
  crypto := sampleCrypto
  verifierAt _ := sampleVerifier
  chainId := 1
  self := 20
  mainHop := 21
  fallbackHop := 22
  btcDepositKey := 23
  msig := 24
  hops := by decide

abbrev sampleStep : SystemState → SystemCall → Res SystemState := step btcVault sampleDeployment

abbrev sampleStart : SystemState := deployed (Vault.deployed (10 ^ 33))

def hopCtx : Ctx Vault.Env := ⟨21, 1000, fun _ _ _ _ => true, Vault.quietEnv⟩

def sampleX : Bytes32 := 0x79BE667EF9DCBBAC55A06295CE870B07029BFCDB2DCE28D959F2815B16F81798

def lpKey : Bytes := 0x02 :: toBytesBE 32 sampleX.toNat

def hopKey : Bytes := 0x03 :: toBytesBE 32 sampleX.toNat

def sampleLp : Address := evmAddressOfCompressed sampleCrypto lpKey

def sampleParams (amountSats : ℕ) : OpenParams := ⟨0, 0, lpKey, hopKey, lpKey, amountSats, sampleHash (lpKey ++ hopKey)⟩

def channelScript : Bytes := buildTaprootScriptPubKey (sampleHash (lpKey ++ hopKey))

def lpScript : Bytes := buildTaprootScriptPubKey sampleX

def sampleAuth : OpenAuth := ⟨sampleX, List.replicate 64 0, lpKey⟩

def sampleInputs (inputs : List (Bytes32 × UInt32)) : Bytes :=
  [UInt8.ofNat inputs.length] ++ inputs.flatMap fun i =>
    toBytesBE 32 i.1.toNat ++ (toBytesLE 4 i.2.toNat ++ ([0x00] ++ toBytesLE 4 0xffffffff))

def sampleOutputs (outputs : List (ℕ × Bytes)) : Bytes :=
  [UInt8.ofNat outputs.length] ++ outputs.flatMap fun o => toBytesLE 8 o.1 ++ ([UInt8.ofNat o.2.length] ++ o.2)

def sampleTx (inputs : List (Bytes32 × UInt32)) (outputs : List (ℕ × Bytes)) (locktime : ℕ) : Bytes :=
  toBytesLE 4 2 ++ (sampleInputs inputs ++ (sampleOutputs outputs ++ toBytesLE 4 locktime))

def signedTx (inputs : List (Bytes32 × UInt32)) (outputs : List (ℕ × Bytes)) (locktime : ℕ) : Bytes :=
  toBytesLE 4 2 ++ ([0x00, 0x01] ++ (sampleInputs inputs ++ (sampleOutputs outputs ++
    (inputs.flatMap (fun _ => [0x01, 0x40] ++ List.replicate 64 0) ++ toBytesLE 4 locktime))))

def sampleExit (inputs : List (Bytes32 × UInt32)) (script : Bytes) (sats deadline : ℕ) : ExitArming :=
  ⟨inputs.map fun _ => 0, inputs.map fun _ => [], UInt64.ofNat deadline, sats,
    signedTx inputs [(sats, script)] deadline⟩

def sampleLadder (outpoint : Bytes32 × UInt32) (script : Bytes) (sats : ℕ) : List ExitArming :=
  [sampleExit [outpoint] script sats 900000, sampleExit [outpoint] script sats 900144]

def sampleTxid (raw : Bytes) : Bytes32 := txid sampleCrypto raw

def fundingTx : Bytes := sampleTx [(1, 0)] [(100000, channelScript)] 0

def openCall : Call Vault.PublicCall :=
  .openChannel (sampleParams 100000) fundingTx [] sampleAuth
    (sampleLadder (sampleTxid fundingTx, 0) lpScript 90000)

def growTx : Bytes := sampleTx [(sampleTxid fundingTx, 0)] [(150000, channelScript)] 0

def sampleChannel : Bytes32 := channelIdOf sampleDeployment (sampleParams 0) (sampleTxid fundingTx) 0

def growCall : Call Vault.PublicCall :=
  .splice sampleChannel (sampleParams 150000) growTx []
    (sampleLadder (sampleTxid growTx, 0) lpScript 140000)

def closeCall (txId : Bytes32) (sats : ℕ) : Call Vault.PublicCall :=
  .recordClose sampleChannel (sampleParams 0) ⟨sampleTx [(txId, 0)] [(sats, lpScript)] 0, 0, [], 0⟩

theorem vault_refined_grown : ∃ s, runAll sampleStep sampleStart
    [(hopCtx, openCall), (hopCtx, growCall)] = .ok s ∧ Vault.Balanced s.vault := by
  obtain ⟨s, hs⟩ : ∃ s, runAll sampleStep sampleStart [(hopCtx, openCall), (hopCtx, growCall)] = .ok s := by
    decide +kernel
  exact ⟨s, hs, (vault_refined hs).2⟩

inductive ReconcileAction
  | open
  | splice
  | close
  | forceClose

def selectReconcileAction (spent : Bool) (closeTxid : Option Bytes32) (closeIsCommitment : Bool) (status : Status)
    (amountSats ldkValue : ℕ) (pendingSpliceTxids : List Bytes32) : Option ReconcileAction :=
  if spent ∧ status = .opened then
    if closeTxid.any (· ∈ pendingSpliceTxids) then none
    else if closeIsCommitment then some .forceClose
    else some .close
  else if !spent ∧ amountSats = 0 then some .open
  else if !spent ∧ status = .opened ∧ ldkValue ≠ amountSats then some .splice
  else none

inductive SpliceDrive
  | unopened
  | notOpen
  | alreadyApplied
  | sends
  deriving DecidableEq

/-- What `drive_splice` decides before it waits for the gateway. -/
def driveSplice (state : BTCChannel) (newTotal : ℕ) : SpliceDrive :=
  if state.amountSats = 0 then .unopened
  else if state.status ≠ .opened then .notOpen
  else if newTotal = state.amountSats then .alreadyApplied
  else .sends

structure Funding where
  txId : Bytes32
  vout : UInt32
  value : ℕ

def Funding.outpoint (f : Funding) : Bytes32 × UInt32 := (f.txId, f.vout)

/-- A channel on its two sides: the funding that LDK holds, and what the contract has on record. -/
structure Mirror where
  ldk : Funding
  record : BTCChannel

inductive Event
  | locks (f : Funding)
  | splices (p : OpenParams) (txId : Bytes32) (vout : UInt32)

/-- A splice that LDK locks spends the funding before it, so its outpoint is a new one. -/
def Mirror.step (dep : Deployment) (x : Mirror) : Event → Res Mirror
  | .locks f => do
    require .outpointReused (f.outpoint ≠ x.record.outpoint)
    .ok { x with ldk := f }
  | .splices p txId vout => do
    require .wrongStatus (x.record.status = .opened)
    .ok { x with record := respliced dep x.record p txId vout }

def Mirror.Agrees (x : Mirror) : Prop := x.record.outpoint = x.ldk.outpoint ∧ x.record.amountSats = x.ldk.value
  deriving Decidable

def Mirror.StopsRight (x : Mirror) : Prop := x.record.status = .opened →
  (∃ closeTxid closeIsCommitment pending, selectReconcileAction false closeTxid closeIsCommitment x.record.status
    x.record.amountSats x.ldk.value pending = none) ∨ driveSplice x.record x.ldk.value = .alreadyApplied → x.Agrees

def Event.NewTotal (x : Mirror) : Event → Prop
  | .locks f => x.record.status = .opened → x.record.amountSats = 0 ∨ f.value ≠ x.record.amountSats
  | .splices p txId vout => p.amountSats = 0 ∨ p.amountSats ≠ x.ldk.value ∨ (txId, vout) = x.ldk.outpoint

instance decidableNewTotal (x : Mirror) (e : Event) : Decidable (e.NewTotal x) := by
  unfold Event.NewTotal
  split <;> infer_instance

section

variable {V E C : Type} {b : IBtc V E C} {dep : Deployment} {s s' : State V} {x x' : Mirror} {e : Event}

/-- The calls of the contract move an open record only as `Mirror.step` has it. -/
theorem record_of_step {c i} (hfunded : (s.channels i).amountSats ≠ 0)
    (hok : Channels.step b dep s c = .ok s') (f : Funding) : s'.channels i = s.channels i ∨
      (s'.channels i).status = .closed ∨ ∃ e, Mirror.step dep ⟨f, s.channels i⟩ e = .ok ⟨f, s'.channels i⟩ := by
  have hmoved {channelId txId : Bytes32} {p : OpenParams} {vout : UInt32}
      (hopen : (s.channels channelId).status = .opened) (hto : s'.channels =
        update s.channels channelId (respliced dep (s.channels channelId) p txId vout)) :
      s'.channels i = s.channels i ∨ ∃ e, Mirror.step dep ⟨f, s.channels i⟩ e = .ok ⟨f, s'.channels i⟩ := by
    by_cases hid : i = channelId
    · subst hid
      right
      refine ⟨.splices p txId vout, ?_⟩
      rw [hto, update_self]
      simp [Mirror.step, require_of, hopen]
    · left
      rw [hto, update_of_ne hid]
  obtain ⟨ctx, call⟩ := c
  cases channelStep_of_exec hok with
  | @opened p _ _ _ _ _ _ _ _ _ o ho =>
    left
    have hid : i ≠ o.id dep p := by
      rintro rfl
      exact hfunded ho.fresh
    exact update_of_ne hid _ _
  | claimed => exact .inl rfl
  | spliced hre | delivered hre => exact (hmoved hre.isOpen rfl).imp_right .inr
  | @closed _ channelId =>
    by_cases hid : i = channelId
    · subst hid
      right; left
      simp [State.closeChannel]
    · left
      exact update_of_ne hid _ _
  | kept hquiet hsame =>
    left
    rw [hsame.channels]

theorem stopsRight_iff : x.StopsRight ↔ (x.record.status = .opened →
    x.record.amountSats = 0 ∨ x.ldk.value ≠ x.record.amountSats ∨ x.record.outpoint = x.ldk.outpoint) := by
  unfold Mirror.StopsRight Mirror.Agrees
  apply imp_congr_right
  intro hopen
  simp only [selectReconcileAction, driveSplice, hopen]
  grind

theorem stopsRight_step (hok : x.step dep e = .ok x') : x'.StopsRight ↔ e.NewTotal x := by
  rw [stopsRight_iff]
  cases e with
  | locks f =>
    obtain ⟨hnew, h⟩ := of_require hok
    cases h
    simp [Event.NewTotal, Ne.symm hnew]
  | splices p txId vout =>
    obtain ⟨hopen, h⟩ := of_require hok
    cases h
    simp [Event.NewTotal, respliced, BTCChannel.outpoint, hopen, eq_comm]

end

theorem reconciler_stops_right_iff (dep : Deployment) (x x' : Mirror) (es : List Event) (hx : x.StopsRight)
    (hrun : runAll (Mirror.step dep) x es = .ok x') :
    EveryState (Mirror.step dep) Mirror.StopsRight x es ↔ EveryStep (Mirror.step dep) Event.NewTotal x es := by
  refine everyState_iff Mirror.StopsRight (fun _ h => h) ?_ ?_ hx hrun
  · intro y e y' _ hnew hok
    exact (stopsRight_step hok).mpr hnew
  · intro y e y' _ hnot hok
    rwa [stopsRight_step hok]

def mirrored : Mirror := ⟨⟨1, 0, 100000⟩, ⟨100000, 1, 5, 0, .opened, .v1, 0, 0⟩⟩

theorem reconciler_stops_right_grown : EveryState (Mirror.step sampleDeployment) Mirror.StopsRight mirrored
    [.locks ⟨2, 0, 150000⟩, .splices (sampleParams 150000) 2 0] := by
  refine (reconciler_stops_right_iff _ _ _ _ (stopsRight_iff.mpr (by decide)) rfl).mpr ?_
  decide

theorem equal_total_not_mirrored : ∃ x, runAll (Mirror.step sampleDeployment) mirrored
      [.locks ⟨2, 0, 150000⟩, .locks ⟨3, 0, 100000⟩] = .ok x ∧
    selectReconcileAction false none false x.record.status x.record.amountSats x.ldk.value [] = none ∧
    driveSplice x.record x.ldk.value = .alreadyApplied ∧ ¬ x.Agrees := by
  decide

end QuidProtocol.Channels
