import QuidProtocol.Channels.System
import QuidProtocol.Lib.Registry

/-!
The channels as a registry, held by their LPs, with the keys of their funding outpoints.
The claims of the channels on the vault: what an LP holds there, against its channel.
-/

namespace QuidProtocol.Channels

open Lib Btc Function
open Basket (Address)
open Spv (Bytes32)

instance finiteBytes32 : Finite Bytes32 := Finite.of_injective BitVec.toFin fun _ _ h => BitVec.eq_of_toFin_eq h

-- By choice, so that no sum over all words is ever unfolded into its terms.
noncomputable instance fintypeBytes32 : Fintype Bytes32 := Fintype.ofFinite Bytes32

def BTCChannel.Created (ch : BTCChannel) : Prop := ch.lpEth ≠ 0
  deriving Decidable

def BTCChannel.IsOpen (ch : BTCChannel) : Prop := ch.Created ∧ ch.status = .opened
  deriving Decidable

def BTCChannel.openSats (ch : BTCChannel) : ℕ := if ch.IsOpen then ch.amountSats else 0

abbrev ChannelRegistry := Registry Bytes32 Address Bytes32

variable {V E C : Type}

section

variable (dep : Deployment)

def BTCChannel.item (ch : BTCChannel) : Item Address Bytes32 :=
  ⟨ch.lpEth, outpointKey dep ch.fundingTxId ch.fundingVout, ch.amountSats, ch.status = .opened⟩

def BTCChannel.item? (ch : BTCChannel) : Option (Item Address Bytes32) :=
  if ch.Created then some (ch.item dep) else none

structure Registered (ids : Set Bytes) (s : State V) (r : ChannelRegistry) : Prop where
  items : ∀ i, r.items i = (s.channels i).item? dep
  never : ∀ i, ¬ (s.channels i).Created → s.channels i = noChannel
  used : ∀ k, s.fundingOutpointUsed k = (r.holder k).isSome
  hasOpen : ∀ lp, s.hasOpenBtcChannel lp = true ↔ r.Owns lp
  total : s.totalSatsLocked = r.total
  encoded : ∀ i, (s.channels i).Created → ∃ lp hop txId vout, abiChannel lp hop txId vout ∈ ids ∧
    dep.crypto.keccak256 (abiChannel lp hop txId vout) = i ∧
    s.fundingOutpointUsed (outpointKey dep txId vout) = true

end

section

variable {dep : Deployment} {ids : Set Bytes} {s s' : State V} {r : ChannelRegistry} {i : Bytes32}

variable {ch : BTCChannel} {raw : Bytes}

theorem item?_of_created (h : ch.Created) : ch.item? dep = some (ch.item dep) := if_pos h

theorem item?_of_not_created (h : ¬ ch.Created) : ch.item? dep = none := if_neg h

theorem created_of_item? {x} (h : ch.item? dep = some x) : ch.Created ∧ x = ch.item dep := by
  unfold BTCChannel.item? at h
  split_ifs at h with hc
  exact ⟨hc, (Option.some.inj h).symm⟩

section

variable (h : Registered dep ids s r)

include h

theorem Registered.congr (hchannels : s'.channels = s.channels)
    (hused : s'.fundingOutpointUsed = s.fundingOutpointUsed) (hopen : s'.hasOpenBtcChannel = s.hasOpenBtcChannel)
    (htotal : s'.totalSatsLocked = s.totalSatsLocked) : Registered dep ids s' r := by
  constructor
  · rw [hchannels]; exact h.items
  · rw [hchannels]; exact h.never
  · rw [hused]; exact h.used
  · rw [hopen]; exact h.hasOpen
  · rw [htotal]; exact h.total
  · rw [hchannels, hused]; exact h.encoded

theorem Registered.unheld {k} (hk : s.fundingOutpointUsed k = false) : r.holder k = none := by
  have hused := h.used k
  rw [hk] at hused
  exact Option.not_isSome_iff_eq_none.mp (by rw [← hused]; exact Bool.false_ne_true)

theorem Registered.item (hc : (s.channels i).Created) : r.items i = some ((s.channels i).item dep) := by
  rw [h.items, item?_of_created hc]

theorem Registered.items_update {ch} (hc : ch.Created)
    (j : Bytes32) : update r.items i (some (ch.item dep)) j = (update s.channels i ch j).item? dep := by
  by_cases hj : j = i
  · rw [hj, update_self, update_self, item?_of_created hc]
  · rw [update_of_ne hj, update_of_ne hj]
    exact h.items j

theorem Registered.never_update {ch} (hc : ch.Created)
    (j) (hj : ¬ (update s.channels i ch j).Created) : update s.channels i ch j = noChannel := by
  by_cases hji : j = i
  · rw [hji, update_self] at hj
    exact absurd hc hj
  · rw [update_of_ne hji] at hj ⊢
    exact h.never j hj

theorem Registered.used_update (key k) :
    update s.fundingOutpointUsed key true k = (update r.holder key (some i) k).isSome := by
  by_cases hk : k = key
  · rw [hk, update_self, update_self]
    rfl
  · rw [update_of_ne hk, update_of_ne hk]
    exact h.used k

end

theorem used_mono {used : Bytes32 → Bool} {key k : Bytes32} (h : used k = true) : update used key true k = true := by
  by_cases hk : k = key
  · rw [hk, update_self]
  · rw [update_of_ne hk, h]

theorem Registered.created {ctx : Ctx E} (h : Registered dep ids s r)
    (hspends : Spends dep ctx (s.channels i) raw) (hzero : ¬ Spends dep ctx noChannel raw) :
    (s.channels i).Created := by
  by_contra hc
  apply hzero
  rw [← h.never i hc]
  exact hspends

theorem abiChannel_inj {lp hop lp' hop' txId txId' vout vout'}
    (h : abiChannel lp hop txId vout = abiChannel lp' hop' txId' vout') : txId = txId' ∧ vout = vout' := by
  have hword (x y : ℕ) : (abiWord x).length = (abiWord y).length := by
    rw [abiWord, abiWord, toBytesBE_length, toBytesBE_length]
  have hinj {x y : ℕ} (hx : x < 256 ^ 32) (hy : y < 256 ^ 32) (hxy : abiWord x = abiWord y) : x = y := by
    have h := congrArg ofBytesBE hxy
    rwa [abiWord, abiWord, ofBytesBE_toBytesBE, ofBytesBE_toBytesBE, Nat.mod_eq_of_lt hx, Nat.mod_eq_of_lt hy] at h
  obtain ⟨-, h⟩ := List.append_inj h (hword _ _)
  obtain ⟨-, h⟩ := List.append_inj h (hword _ _)
  obtain ⟨htxId, h⟩ := List.append_inj h (hword _ _)
  obtain ⟨hvout, -⟩ := List.append_inj h (hword _ _)
  constructor
  · apply BitVec.eq_of_toNat_eq
    exact hinj txId.isLt txId'.isLt htxId
  · apply UInt32.toNat_inj.mp
    exact hinj (vout.toNat_lt.trans (by decide)) (vout'.toNat_lt.trans (by decide)) hvout

section

variable (h : Registered dep ids s r)

include h

theorem Registered.opening {o : Opening} {p : OpenParams} {auth : OpenAuth} (ho : o.Valid dep s p raw auth)
    (hinj : Set.InjOn dep.crypto.keccak256 ids) (hid : abiChannel p.lpPubkey p.hopPubkey o.txId o.vout ∈ ids) :
    ∃ r', r.Extends r' ∧ Registered dep ids (o.state dep s p auth) r' := by
  have hnew : ¬ (s.channels (o.id dep p)).Created := by
    intro hc
    obtain ⟨lp, hop, txId, vout, hmem, hkeccak, hused⟩ := h.encoded _ hc
    obtain ⟨htxId, hvout⟩ := abiChannel_inj (hinj hmem hid hkeccak)
    rw [htxId, hvout, ho.unused] at hused
    cases hused
  have hcreated : (o.channel dep p).Created := lpEthOf_eq ho.lp
  have hitem : r.items (o.id dep p) = none := by rw [h.items, item?_of_not_created hnew]
  have hkey : r.holder ((o.channel dep p).item dep).key = none := h.unheld ho.unused
  have howner : ¬ r.Owns ((o.channel dep p).item dep).owner := by
    intro hw
    have hopen := (h.hasOpen _).mpr hw
    rw [show ((o.channel dep p).item dep).owner = o.lpEth from rfl, ho.noneOpen] at hopen
    cases hopen
  have hlive : ((o.channel dep p).item dep).live = true := rfl
  refine ⟨r.enter _ _ hkey howner, Registry.extends_enter hitem hkey howner, ?_⟩
  constructor
  · exact h.items_update hcreated
  · exact h.never_update hcreated
  · exact h.used_update _
  · intro lp
    rw [Registry.owns_enter hitem hkey howner hlive, ← h.hasOpen]
    by_cases hlp : lp = o.lpEth
    · subst hlp
      exact iff_of_true (update_self _ _ _) (Or.inl rfl)
    · exact ⟨fun ht => Or.inr ((update_of_ne hlp _ _).symm.trans ht), fun ht =>
        (update_of_ne hlp _ _).trans (ht.resolve_left hlp)⟩
  · rw [Registry.total_enter hitem hkey howner hlive, ← h.total]
    rfl
  · intro i hi
    by_cases hio : i = o.id dep p
    · exact ⟨_, _, _, _, hid, hio.symm, update_self _ _ _⟩
    · have hi : (s.channels i).Created := update_of_ne hio (o.channel dep p) s.channels ▸ hi
      obtain ⟨lp, hop, txId, vout, hmem, hkeccak, hused⟩ := h.encoded i hi
      exact ⟨lp, hop, txId, vout, hmem, hkeccak, used_mono hused⟩

theorem Registered.resplicing {ctx : Ctx E} {p vout vault total paid rungs paid' checkpoint}
    (hre : Resplicing dep ctx s i p raw vout) (hzero : ¬ Spends dep ctx noChannel raw)
    (htotal : total + (s.channels i).amountSats = s.totalSatsLocked + p.amountSats) : ∃ r', r.Extends r' ∧ Registered dep ids
      ((resplicedState dep s i p (txid dep.crypto raw) vout vault total paid).rearmed rungs paid' checkpoint) r' := by
  have hcreated := h.created hre.spends hzero
  have hitem := h.item hcreated
  have hlive : ((s.channels i).item dep).live = true := decide_eq_true hre.isOpen
  have hkey := h.unheld hre.unused
  have hcreated' : (respliced dep (s.channels i) p (txid dep.crypto raw) vout).Created := hcreated
  refine ⟨r.rekey hitem _ p.amountSats hkey, Registry.extends_rekey hitem hlive hkey, ?_⟩
  constructor
  · exact h.items_update hcreated'
  · exact h.never_update hcreated'
  · exact h.used_update _
  · intro lp
    rw [Registry.owns_rekey]
    exact h.hasOpen lp
  · have hrekey : (r.rekey hitem _ p.amountSats hkey).total + (s.channels i).amountSats =
        r.total + p.amountSats := Registry.total_rekey hitem hlive hkey
    rw [← h.total, ← htotal] at hrekey
    exact (Nat.add_right_cancel hrekey).symm
  · intro j hj
    have hj : (s.channels j).Created := by
      by_cases hji : j = i
      · rwa [hji]
      · exact update_of_ne hji _ s.channels ▸ hj
    obtain ⟨lp, hop, txId, vout', hmem, hkeccak, hused⟩ := h.encoded j hj
    exact ⟨lp, hop, txId, vout', hmem, hkeccak, used_mono hused⟩

theorem Registered.closing {b : IBtc V E C} {ctx : Ctx E} {vault : V} (hcl : Closing b dep ctx s i raw vault)
    (hzero : ¬ Spends dep ctx noChannel raw) : ∃ r', r.Extends r' ∧ Registered dep ids (s.closeChannel i vault) r' := by
  have hcreated := h.created hcl.spends hzero
  have hitem := h.item hcreated
  have hlive : ((s.channels i).item dep).live = true := decide_eq_true hcl.isOpen
  have hcreated' : BTCChannel.Created { s.channels i with status := .closed } := hcreated
  refine ⟨r.retire hitem, Registry.extends_retire hitem hlive, ?_⟩
  constructor
  · exact h.items_update hcreated'
  · exact h.never_update hcreated'
  · exact h.used
  · intro lp
    rw [Registry.owns_retire hitem hlive, ← h.hasOpen]
    by_cases hlp : lp = (s.channels i).lpEth
    · subst hlp
      apply iff_of_false
      · exact fun ht => Bool.false_ne_true ((update_self _ _ _).symm.trans ht)
      · exact fun ht => ht.2 rfl
    · exact ⟨fun ht => ⟨(update_of_ne hlp _ _).symm.trans ht, hlp⟩, fun ht => (update_of_ne hlp _ _).trans ht.1⟩
  · have hretire := Registry.total_retire hitem hlive
    rw [← h.total] at hretire
    exact Nat.sub_eq_of_eq_add hretire.symm
  · intro j hj
    have hj : (s.channels j).Created := by
      by_cases hji : j = i
      · rwa [hji]
      · exact update_of_ne hji _ s.channels ▸ hj
    exact h.encoded j hj

end

end

def Call.encodings (dep : Deployment) : Call C → Set Bytes
  | .openChannel p rawFundingTx _ _ _ =>
    Set.range fun vout => abiChannel p.lpPubkey p.hopPubkey (txid dep.crypto rawFundingTx) vout
  | _ => ∅

def NoZeroSpend (dep : Deployment) (c : Ctx E × Call C) : Prop := ∀ raw ∈ c.2.spend, ¬ Spends dep c.1 noChannel raw

section

variable {b : IBtc V E C} {dep : Deployment} {ids : Set Bytes} {s s' : State V} {r : ChannelRegistry}

theorem Registered.step {c : Ctx E × Call C} (hinj : Set.InjOn dep.crypto.keccak256 ids)
    (hzero : NoZeroSpend dep c) (hids : c.2.encodings dep ⊆ ids) (h : Registered dep ids s r)
    (hok : step b dep s c = .ok s') : ∃ r', r.Extends r' ∧ Registered dep ids s' r' := by
  obtain ⟨ctx, call⟩ := c
  cases channelStep_of_exec hok with
  | opened o valid =>
    obtain ⟨r', hext, h'⟩ := h.opening valid hinj (hids ⟨o.vout, by rw [valid.txId]⟩)
    exact ⟨r', hext, h'.congr rfl rfl rfl rfl⟩
  | claimed => exact ⟨r, .refl r, h.congr rfl rfl rfl rfl⟩
  | spliced resplicing locked => exact h.resplicing resplicing (hzero _ rfl) locked
  | @delivered swapId _ _ _ _ _ _ _ _ _ _ _ _ _ resplicing locked =>
    have hended : Registered dep ids (s.endSwapOut swapId) r := h.congr rfl rfl rfl rfl
    exact hended.resplicing (resplicing.ended swapId) (hzero _ rfl) locked
  | closed spend closes closing => exact h.closing closing (hzero _ spend)
  | kept quiet same =>
    exact ⟨r, .refl r, h.congr same.channels same.used same.hasOpen same.total⟩

theorem registered_deployed (vault : V) : Registered dep ids (deployed vault) .empty := by
  have hnever : ¬ noChannel.Created := fun hc => hc rfl
  constructor
  · exact fun _ => (item?_of_not_created hnever).symm
  · exact fun _ _ => rfl
  · exact fun _ => rfl
  · intro lp
    apply iff_of_false Bool.false_ne_true
    rintro ⟨i, x, hx, -⟩
    cases hx
  · exact (Finset.sum_const_zero).symm
  · exact fun _ hc => absurd hc hnever

section

variable {t : State V} {rt : ChannelRegistry} {i j : Bytes32}

theorem Registered.total_eq (h : Registered dep ids s r) : s.totalSatsLocked = ∑ i, (s.channels i).openSats := by
  rw [h.total]
  apply Finset.sum_congr rfl
  intro i _
  rw [h.items]
  by_cases hc : (s.channels i).Created
  · rw [item?_of_created hc]
    simp [Registry.liveAmount, BTCChannel.item, BTCChannel.openSats, BTCChannel.IsOpen, hc]
  · rw [item?_of_not_created hc]
    simp [Registry.liveAmount, BTCChannel.openSats, BTCChannel.IsOpen, hc]

theorem Registered.single (h : Registered dep ids s r) (hi : (s.channels i).IsOpen)
    (hj : (s.channels j).IsOpen) (hlp : (s.channels i).lpEth = (s.channels j).lpEth) : i = j :=
  r.single (h.item hi.1) (h.item hj.1) (decide_eq_true hi.2) (decide_eq_true hj.2) hlp

theorem Registered.hasOpen_iff (h : Registered dep ids s r) (lp : Address) :
    s.hasOpenBtcChannel lp = true ↔ ∃! i, (s.channels i).IsOpen ∧ (s.channels i).lpEth = lp := by
  rw [h.hasOpen]
  constructor
  · rintro ⟨i, x, hx, hlive, rfl⟩
    rw [h.items] at hx
    obtain ⟨hc, rfl⟩ := created_of_item? hx
    refine ⟨i, ⟨⟨hc, of_decide_eq_true hlive⟩, rfl⟩, ?_⟩
    rintro j ⟨hj, hlp⟩
    exact h.single hj ⟨hc, of_decide_eq_true hlive⟩ hlp
  · rintro ⟨i, ⟨⟨hc, hopen⟩, rfl⟩, -⟩
    exact ⟨i, _, h.item hc, decide_eq_true hopen, rfl⟩

theorem Registered.held (h : Registered dep ids t rt) (hext : rt.Extends r)
    (hc : (t.channels i).Created) : r.holder (currentOutpointKey dep t i) = some i :=
  hext.holder (rt.held (h.item hc))

theorem Registered.stays_closed (h : Registered dep ids t rt) (h' : Registered dep ids s r)
    (hext : rt.Extends r) (hclosed : (t.channels i).status = .closed) : (s.channels i).status = .closed := by
  have hc : (t.channels i).Created := by
    by_contra hc
    rw [h.never i hc] at hclosed
    cases hclosed
  obtain ⟨x, hx, hsame⟩ := hext.items (h.item hc)
  have hdead : ((t.channels i).item dep).live = false := decide_eq_false (by rw [hclosed]; exact Status.noConfusion)
  rw [h'.items, hsame hdead] at hx
  have hlive := congrArg Item.live (created_of_item? hx).2
  rw [hdead] at hlive
  cases hstatus : (s.channels i).status with
  | closed => rfl
  | opened => exact absurd hstatus (of_decide_eq_false hlive.symm)

end

/-- The registry over every run. The ids of two channels of the run are assumed not to collide. -/
theorem channels_registry (vault : V) {cs : List (Ctx E × Call C)} (hzero : ∀ c ∈ cs, NoZeroSpend dep c)
    (hinj : Set.InjOn dep.crypto.keccak256 (⋃ c ∈ cs, c.2.encodings dep))
    (hrun : runAll (step b dep) (deployed vault) cs = .ok s) : s.totalSatsLocked = ∑ i, (s.channels i).openSats ∧
    (∀ lp, s.hasOpenBtcChannel lp = true ↔ ∃! i, (s.channels i).IsOpen ∧ (s.channels i).lpEth = lp) ∧
    (∀ i j, (s.channels i).IsOpen → (s.channels j).IsOpen → (s.channels i).lpEth = (s.channels j).lpEth → i = j) ∧
    (∀ t i, Visited (step b dep) (deployed vault) cs t → (t.channels i).Created →
      s.fundingOutpointUsed (currentOutpointKey dep t i) = true) ∧
    (∀ t t' i j, Visited (step b dep) (deployed vault) cs t →
      Visited (step b dep) (deployed vault) cs t' → (t.channels i).Created → (t'.channels j).Created →
      (t.channels i).outpoint = (t'.channels j).outpoint → i = j) ∧
    ∀ t i, Visited (step b dep) (deployed vault) cs t → (t.channels i).status = .closed →
      (s.channels i).status = .closed := by
  have hstep {s s' : State V} {c : Ctx E × Call C} {r : ChannelRegistry}
      (hc : NoZeroSpend dep c ∧ c.2.encodings dep ⊆ ⋃ c ∈ cs, c.2.encodings dep)
      (h : Registered dep (⋃ c ∈ cs, c.2.encodings dep) s r) (hok : step b dep s c = .ok s') :=
    h.step hinj hc.1 hc.2 hok
  have hcalls : ∀ c ∈ cs, NoZeroSpend dep c ∧ c.2.encodings dep ⊆ ⋃ c ∈ cs, c.2.encodings dep :=
    fun c hc => ⟨hzero c hc, Set.subset_iUnion₂_of_subset c hc subset_rfl⟩
  obtain ⟨r, ⟨-, h⟩, hvisited⟩ := runAll_witness (fun g => .refl g) (fun hg hh => hg.trans hh) hstep
    (registered_deployed vault) hcalls hrun
  refine ⟨h.total_eq, h.hasOpen_iff, fun i j => h.single, ?_, ?_, ?_⟩
  · intro t i ht hc
    obtain ⟨rt, hext, h'⟩ := hvisited t ht
    rw [h.used, h'.held hext hc]
    rfl
  · intro t t' i j ht ht' hi hj heq
    obtain ⟨rt, hext, h'⟩ := hvisited t ht
    obtain ⟨rt', hext', h''⟩ := hvisited t' ht'
    obtain ⟨htxId, hvout⟩ := Prod.mk.inj heq
    have hkey : currentOutpointKey dep t i = currentOutpointKey dep t' j := by
      rw [currentOutpointKey, currentOutpointKey, htxId, hvout]
    have hheld := h'.held hext hi
    rw [hkey, h''.held hext' hj] at hheld
    exact (Option.some.inj hheld).symm
  · intro t i ht hclosed
    obtain ⟨rt, hext, h'⟩ := hvisited t ht
    exact h'.stays_closed h hext hclosed

end

theorem channels_registry_growing : ∃ s : SystemState,
    runAll sampleStep sampleStart [(hopCtx, openCall), (hopCtx, growCall)] = .ok s ∧
    s.totalSatsLocked = 150000 ∧ s.totalSatsLocked = ∑ i, (s.channels i).openSats ∧
    (s.hasOpenBtcChannel sampleLp = true ↔ ∃! i, (s.channels i).IsOpen ∧ (s.channels i).lpEth = sampleLp) := by
  refine exists_ok (fun s => s.totalSatsLocked = 150000) (by decide +kernel) ?_
  intro s hs htotal
  have hzero : ∀ c ∈ [(hopCtx, openCall), (hopCtx, growCall)], NoZeroSpend sampleDeployment c := by
    intro c hc
    rcases List.mem_pair.mp hc with rfl | rfl
    · intro raw hraw
      cases hraw
    · intro raw hraw
      cases hraw
      exact not_spends (by decide +kernel)
  have hids : ⋃ c ∈ [(hopCtx, openCall), (hopCtx, growCall)], c.2.encodings sampleDeployment ⊆
      Set.range fun vout => abiChannel lpKey hopKey (sampleTxid fundingTx) vout := by
    apply Set.iUnion₂_subset
    intro c hc
    rcases List.mem_pair.mp hc with rfl | rfl
    · exact subset_rfl
    · exact Set.empty_subset _
  have h := channels_registry (Vault.deployed (10 ^ 33)) hzero
    ((sampleHash_injOn lpKey hopKey _).mono hids) hs
  exact ⟨htotal, h.1, h.2.1 sampleLp⟩

def SharesMatch (s : SystemState) : Prop :=
  ∀ lp, (∀ i, (s.channels i).IsOpen → (s.channels i).lpEth = lp →
      Vault.rangeOf s.vault lp + s.pendingClaimSats i = (s.channels i).amountSats) ∧
    ((∀ i, (s.channels i).IsOpen → (s.channels i).lpEth ≠ lp) → Vault.rangeOf s.vault lp = 0)

structure Claimed (s : SystemState) : Prop where
  balanced : Vault.Balanced s.vault
  hasOpen : ∀ i, (s.channels i).IsOpen → s.hasOpenBtcChannel (s.channels i).lpEth = true
  single : ∀ i j, (s.channels i).IsOpen → (s.channels j).IsOpen → (s.channels i).lpEth = (s.channels j).lpEth → i = j
  idle : ∀ i, ¬ (s.channels i).IsOpen → s.pendingClaimSats i = 0
  opened : ∀ i, (s.channels i).IsOpen → Vault.rangeOf s.vault (s.channels i).lpEth +
    s.pendingClaimSats i = (s.channels i).amountSats
  others : ∀ lp, (∀ i, (s.channels i).IsOpen → (s.channels i).lpEth ≠ lp) → Vault.rangeOf s.vault lp = 0

section

variable {dep : Deployment} {ctx : Ctx Vault.Env} {s s' : SystemState} {i : Bytes32} {lp : Address}
  {p : OpenParams}

theorem Claimed.sharesMatch (h : Claimed s) : SharesMatch s := by
  intro lp
  refine ⟨fun i hi hlp => ?_, h.others lp⟩
  subst hlp
  exact h.opened i hi

structure ClaimUpdate (s s' : SystemState) (i : Bytes32) (ch : BTCChannel) (lp : Address) (shares claim : ℕ) :
    Prop where
  channels : s'.channels = update s.channels i ch
  claims : s'.pendingClaimSats = update s.pendingClaimSats i claim
  ranges : Vault.rangeOf s'.vault = update (Vault.rangeOf s.vault) lp shares
  flags : ∀ a ≠ lp, s'.hasOpenBtcChannel a = s.hasOpenBtcChannel a
  before : (s.channels i).IsOpen → (s.channels i).lpEth = lp ∨ Vault.rangeOf s.vault (s.channels i).lpEth = 0
  others : ∀ j ≠ i, (s.channels j).IsOpen → (s.channels j).lpEth ≠ lp
  isOpen : ch.IsOpen → ch.lpEth = lp ∧ s'.hasOpenBtcChannel lp = true ∧ shares + claim = ch.amountSats
  closed : ¬ ch.IsOpen → shares = 0 ∧ claim = 0

section ClaimUpdate

variable {ch : BTCChannel} {shares claim : ℕ} {j k : Bytes32} {a : Address}

section

variable (u : ClaimUpdate s s' i ch lp shares claim)

include u

theorem ClaimUpdate.self : s'.channels i = ch := by
  rw [u.channels, update_self]

theorem ClaimUpdate.other (hj : j ≠ i) : s'.channels j = s.channels j := by
  rw [u.channels, update_of_ne hj]

theorem ClaimUpdate.claim_self : s'.pendingClaimSats i = claim := by
  rw [u.claims, update_self]

theorem ClaimUpdate.claim_other (hj : j ≠ i) : s'.pendingClaimSats j = s.pendingClaimSats j := by
  rw [u.claims, update_of_ne hj]

theorem ClaimUpdate.range_self : Vault.rangeOf s'.vault lp = shares := by
  rw [u.ranges, update_self]

theorem ClaimUpdate.range_other (ha : a ≠ lp) : Vault.rangeOf s'.vault a = Vault.rangeOf s.vault a := by
  rw [u.ranges, update_of_ne ha]

theorem ClaimUpdate.hasOpen (h : Claimed s)
    (hj : (s'.channels j).IsOpen) : s'.hasOpenBtcChannel (s'.channels j).lpEth = true := by
  by_cases hji : j = i
  · rw [hji, u.self] at hj ⊢
    obtain ⟨hlp, hflag, -⟩ := u.isOpen hj
    rw [hlp, hflag]
  · rw [u.other hji] at hj ⊢
    rw [u.flags _ (u.others j hji hj)]
    exact h.hasOpen j hj

theorem ClaimUpdate.single (h : Claimed s) (hj : (s'.channels j).IsOpen) (hk : (s'.channels k).IsOpen)
    (hlp : (s'.channels j).lpEth = (s'.channels k).lpEth) : j = k := by
  by_cases hji : j = i
  · by_contra hne
    have hki : k ≠ i := fun hki => hne (hji.trans hki.symm)
    rw [hji, u.self] at hj hlp
    rw [u.other hki] at hk hlp
    exact u.others k hki hk (hlp.symm.trans (u.isOpen hj).1)
  · by_cases hki : k = i
    · rw [hki, u.self] at hk hlp
      rw [u.other hji] at hj hlp
      exact absurd (hlp.trans (u.isOpen hk).1) (u.others j hji hj)
    · rw [u.other hji] at hj hlp
      rw [u.other hki] at hk hlp
      exact h.single j k hj hk hlp

theorem ClaimUpdate.idle (h : Claimed s) (hj : ¬ (s'.channels j).IsOpen) : s'.pendingClaimSats j = 0 := by
  by_cases hji : j = i
  · rw [hji, u.self] at hj
    rw [hji, u.claim_self, (u.closed hj).2]
  · rw [u.other hji] at hj
    rw [u.claim_other hji, h.idle j hj]

theorem ClaimUpdate.opened (h : Claimed s) (hj : (s'.channels j).IsOpen) :
    Vault.rangeOf s'.vault (s'.channels j).lpEth + s'.pendingClaimSats j = (s'.channels j).amountSats := by
  by_cases hji : j = i
  · rw [hji, u.self] at hj
    obtain ⟨hlp, -, hsum⟩ := u.isOpen hj
    rw [hji, u.self, hlp, u.range_self, u.claim_self, hsum]
  · rw [u.other hji] at hj ⊢
    rw [u.range_other (u.others j hji hj), u.claim_other hji, h.opened j hj]

theorem ClaimUpdate.none (h : Claimed s)
    (ha : ∀ j, (s'.channels j).IsOpen → (s'.channels j).lpEth ≠ a) : Vault.rangeOf s'.vault a = 0 := by
  by_cases halp : a = lp
  · subst halp
    have hnot : ¬ ch.IsOpen := by
      intro hch
      have hne := ha i
      rw [u.self] at hne
      exact hne hch (u.isOpen hch).1
    rw [u.range_self, (u.closed hnot).1]
  · rw [u.range_other halp]
    by_cases hi : (s.channels i).IsOpen ∧ (s.channels i).lpEth = a
    · obtain ⟨hi, rfl⟩ := hi
      exact (u.before hi).resolve_left halp
    · apply h.others a
      intro j hj hlp
      by_cases hji : j = i
      · subst hji
        exact hi ⟨hj, hlp⟩
      · have hne := ha j
        rw [u.other hji] at hne
        exact hne hj hlp

end

theorem Claimed.after (h : Claimed s) (hbalanced : Vault.Balanced s'.vault)
    (u : ClaimUpdate s s' i ch lp shares claim) : Claimed s' :=
  ⟨hbalanced, fun _ => u.hasOpen h, fun _ _ => u.single h, fun _ => u.idle h, fun _ => u.opened h, fun _ => u.none h⟩

end ClaimUpdate

theorem Claimed.congr (h : Claimed s) (hbalanced : Vault.Balanced s'.vault)
    (hchannels : s'.channels = s.channels) (hflags : s'.hasOpenBtcChannel = s.hasOpenBtcChannel)
    (hclaims : s'.pendingClaimSats = s.pendingClaimSats)
    (hshares : Vault.rangeOf s'.vault = Vault.rangeOf s.vault) : Claimed s' := by
  constructor
  · exact hbalanced
  · rw [hchannels, hflags]
    exact h.hasOpen
  · rw [hchannels]
    exact h.single
  · rw [hchannels, hclaims]
    exact h.idle
  · rw [hchannels, hclaims, hshares]
    exact h.opened
  · rw [hchannels, hshares]
    exact h.others

theorem Claimed.fresh (h : Claimed s) (hfresh : (s.channels i).amountSats = 0) : s.pendingClaimSats i = 0 ∧
      ((s.channels i).IsOpen → Vault.rangeOf s.vault (s.channels i).lpEth = 0) := by
  by_cases hi : (s.channels i).IsOpen
  · have hsum := h.opened i hi
    rw [hfresh] at hsum
    exact ⟨(Nat.add_eq_zero_iff.mp hsum).2, fun _ => (Nat.add_eq_zero_iff.mp hsum).1⟩
  · exact ⟨h.idle i hi, fun hopen => absurd hopen hi⟩

theorem Claimed.noneOpen (h : Claimed s) (hflag : s.hasOpenBtcChannel lp = false) (j : Bytes32)
    (hj : (s.channels j).IsOpen) : (s.channels j).lpEth ≠ lp := by
  rintro rfl
  exact Bool.false_ne_true (hflag.symm.trans (h.hasOpen j hj))

theorem Claimed.zero (h : Claimed s) : Vault.rangeOf s.vault 0 = 0 := h.others 0 fun _ hi => hi.1

theorem Claimed.alone (h : Claimed s) (hopen : (s.channels i).status = .opened) {j}
    (hji : j ≠ i) (hj : (s.channels j).IsOpen) : (s.channels j).lpEth ≠ (s.channels i).lpEth := by
  intro hlp
  by_cases hc : (s.channels i).Created
  · exact hji (h.single j i hj ⟨hc, hopen⟩ hlp)
  · exact hj.1 (hlp.trans (not_not.mp hc))

theorem Claimed.opening {o : Opening} {raw auth rungs paid checkpoint vault pending} (h : Claimed s)
    (ho : o.Valid dep s p raw auth) (hdeposits : Deposits btcVault ctx s (o.id dep p) o.lpEth p.amountSats vault pending)
    (hbalanced : Vault.Balanced vault) : Claimed { (o.state dep s p auth).rearmed rungs paid checkpoint with
      vault, pendingClaimSats := pending } := by
  have hlp := lpEthOf_eq ho.lp
  have hothers := h.noneOpen ho.noneOpen
  have hnone : Vault.rangeOf s.vault o.lpEth = 0 := h.others _ hothers
  obtain ⟨hclaim, hbefore⟩ := h.fresh ho.fresh
  have hclaims : s.pendingClaimSats = update s.pendingClaimSats (o.id dep p) 0 := by
    rw [← hclaim, update_eq_self]
  have hshares : Vault.rangeOf s.vault = update (Vault.rangeOf s.vault) o.lpEth 0 := by
    rw [← hnone, update_eq_self]
  have hnew : (o.channel dep p).IsOpen := ⟨hlp, rfl⟩
  obtain ⟨hvault, rfl⟩ | ⟨rfl, rfl⟩ := hdeposits
  · have hdeposited := h.balanced.requestDeposit hlp hvault
    rw [hnone, Nat.zero_add] at hdeposited
    refine h.after hbalanced ⟨rfl, hclaims, hdeposited, fun a ha => update_of_ne ha _ _,
      fun hi => Or.inr (hbefore hi), fun j _ => hothers j, ?_, fun hclosed => absurd hnew hclosed⟩
    exact fun _ => ⟨rfl, update_self _ _ _, rfl⟩
  · refine h.after hbalanced ⟨rfl, rfl, hshares, fun a ha => update_of_ne ha _ _,
      fun hi => Or.inr (hbefore hi), fun j _ => hothers j, ?_, fun hclosed => absurd hnew hclosed⟩
    exact fun _ => ⟨rfl, update_self _ _ _, Nat.zero_add _⟩

variable {vault : Vault.State} {swapId : Bytes32}

theorem Claimed.claim (h : Claimed s) (hbalanced : Vault.Balanced vault)
    (hsome : min (s.pendingClaimSats i) (s.channels i).amountSats ≠ 0)
    (hvault : btcVault.requestDeposit ctx.env s.vault (s.channels i).lpEth
      (min (s.pendingClaimSats i) (s.channels i).amountSats) = .ok vault) :
    Claimed { s with vault, pendingClaimSats := update s.pendingClaimSats i 0 } := by
  have hopen : (s.channels i).IsOpen := by
    by_contra hclosed
    rw [h.idle i hclosed, Nat.zero_min] at hsome
    exact hsome rfl
  have hsum := h.opened i hopen
  have hmin : min (s.pendingClaimSats i) (s.channels i).amountSats = s.pendingClaimSats i := by omega
  rw [hmin] at hvault
  refine h.after hbalanced ⟨(update_eq_self i _).symm, rfl,
    h.balanced.requestDeposit hopen.1 hvault, fun _ _ => rfl, fun _ => Or.inl rfl,
    fun j hj => h.alone hopen.2 hj, ?_, ?_⟩
  · exact fun _ => ⟨rfl, h.hasOpen i hopen, hsum⟩
  · exact fun hclosed => absurd hopen hclosed

theorem Claimed.settled {vault'} (h : Claimed s) (hset : SpliceSettled btcVault ctx s i p vault vault') :
    Vault.rangeOf vault' = update (Vault.rangeOf s.vault) (s.channels i).lpEth
      (if (s.channels i).Created then Vault.rangeOf s.vault (s.channels i).lpEth + p.amountSats -
        (s.channels i).amountSats else 0) ∧ (s.pendingClaimSats i = 0 ∨ (s.channels i).amountSats ≤ p.amountSats) := by
  cases hset with
  | grown vault hlt hvault =>
    refine ⟨?_, Or.inr hlt.le⟩
    split_ifs with hc
    · rw [h.balanced.requestDeposit hc hvault, Nat.add_sub_assoc hlt.le]
    · have hzero : (s.channels i).lpEth = 0 := not_not.mp hc
      have hsame : vault' = s.vault := by
        have hnothing := hvault
        rw [hzero] at hnothing
        exact (Except.ok.inj ((if_pos (Or.inr rfl)).symm.trans hnothing)).symm
      rw [hsame, hzero, ← h.zero, update_eq_self]
  | shrunk vault payout hlt hclaim hvault =>
    refine ⟨?_, Or.inl hclaim⟩
    rw [h.balanced.resizeLp hvault, if_neg Bool.false_ne_true]
    split_ifs with hc
    · congr 1
      omega
    · have hzero : (s.channels i).lpEth = 0 := not_not.mp hc
      rw [hzero, h.zero, Nat.zero_sub]
  | kept heq =>
    refine ⟨?_, Or.inr heq.ge⟩
    rw [heq, Nat.add_sub_cancel]
    split_ifs with hc
    · rw [update_eq_self]
    · have hzero : (s.channels i).lpEth = 0 := not_not.mp hc
      rw [hzero, ← h.zero, update_eq_self]

theorem Claimed.delivered (h : Claimed s) (hset : Delivering btcVault ctx s swapId i p vault) :
    Vault.rangeOf vault = update (Vault.rangeOf s.vault) (s.channels i).lpEth
      (if (s.channels i).Created then Vault.rangeOf s.vault (s.channels i).lpEth + p.amountSats -
        (s.channels i).amountSats else 0) := by
  have hlt := hset.shrinks
  rw [h.balanced.resizeLp hset.resized, if_neg Bool.false_ne_true]
  split_ifs with hc
  · congr 1
    omega
  · have hzero : (s.channels i).lpEth = 0 := not_not.mp hc
    rw [hzero, h.zero, Nat.zero_sub]

theorem Claimed.resplicing {txId vout} (h : Claimed s)
    (hopen : (s.channels i).status = .opened) (hbalanced : Vault.Balanced s'.vault)
    (hchannels : s'.channels = update s.channels i (respliced dep (s.channels i) p txId vout))
    (hflags : s'.hasOpenBtcChannel = s.hasOpenBtcChannel) (hclaims : s'.pendingClaimSats = s.pendingClaimSats)
    (hshares : Vault.rangeOf s'.vault = update (Vault.rangeOf s.vault) (s.channels i).lpEth
      (if (s.channels i).Created then Vault.rangeOf s.vault (s.channels i).lpEth + p.amountSats -
        (s.channels i).amountSats else 0))
    (hclaim : s.pendingClaimSats i = 0 ∨ (s.channels i).amountSats ≤ p.amountSats) : Claimed s' := by
  have hsame : s'.pendingClaimSats = update s.pendingClaimSats i (s.pendingClaimSats i) := by
    rw [hclaims, update_eq_self]
  refine h.after hbalanced ⟨hchannels, hsame, hshares, fun a _ => congrFun hflags a, fun _ => Or.inl rfl,
    fun j hj => h.alone hopen hj, ?_, ?_⟩
  · intro hnew
    have hold : (s.channels i).IsOpen := hnew
    have hsum := h.opened i hold
    refine ⟨rfl, ?_, ?_⟩
    · rw [hflags]
      exact h.hasOpen i hold
    · rw [if_pos hold.1]
      dsimp only [respliced]
      omega
  · intro hnew
    have hcreated : ¬ (s.channels i).Created := fun hc => hnew ⟨hc, hopen⟩
    exact ⟨if_neg hcreated, h.idle i fun hold => hcreated hold.1⟩

theorem Claimed.closing {raw} (h : Claimed s)
    (hcl : Closing btcVault dep ctx s i raw vault) (hbalanced : Vault.Balanced vault)
    (hclaim : s.pendingClaimSats i = 0 ∨ s.pendingClaimSats i = (s.channels i).amountSats) :
    Claimed (s.closeChannel i vault) := by
  have hshares : Vault.rangeOf vault = update (Vault.rangeOf s.vault) (s.channels i).lpEth 0 := by
    by_cases hzero : s.pendingClaimSats i = 0
    · obtain ⟨payout, hredeem⟩ := hcl.redeemed hzero
      rw [h.balanced.resizeLp hredeem, if_pos rfl]
    · have hopen : (s.channels i).IsOpen := by
        by_contra hclosed
        exact hzero (h.idle i hclosed)
      have hsum := h.opened i hopen
      have hnone : Vault.rangeOf s.vault (s.channels i).lpEth = 0 := by
        have := hclaim.resolve_left hzero
        omega
      rw [hcl.deferred hzero, ← hnone, update_eq_self]
  refine h.after hbalanced ⟨rfl, rfl, hshares, fun a ha => update_of_ne ha _ _,
    fun _ => Or.inl rfl, fun j hj => h.alone hcl.isOpen hj, ?_, fun _ => ⟨rfl, rfl⟩⟩
  rintro ⟨-, hstatus⟩
  cases hstatus

def Call.TransfersShares : Call Vault.PublicCall → Prop
  | .vault (.transferShares _ _ _) => True
  | _ => False

instance decidableTransfersShares (call : Call Vault.PublicCall) : Decidable call.TransfersShares := by
  unfold Call.TransfersShares
  split <;> infer_instance

theorem rangeOf_swapped (h : Vault.Balanced s.vault)
    (hdrop : Dropping btcVault ctx s swapId vault) : Vault.rangeOf vault = Vault.rangeOf s.vault := by
  obtain ⟨vault₁, floor, consumed, hsub, hcredit⟩ := hdrop.settled
  obtain ⟨core, -, hsub⟩ := of_bind hsub
  cases hsub
  have hcore : Vault.Balanced { s.vault with core } := by
    obtain ⟨b, hb⟩ := h
    exact ⟨b, hb.withCore core⟩
  exact hcore.creditSwapIn hcredit

theorem rangeOf_requested {so} (h : Vault.Balanced s.vault) (hreq : Requesting btcVault ctx s swapId so vault) :
    Vault.rangeOf vault = Vault.rangeOf s.vault := by
  obtain ⟨vault₁, usdAmount, minSats, hcredit, hadd⟩ := hreq.settled
  obtain ⟨core, -, hadd⟩ := of_bind hadd
  cases hadd
  have hshares := h.creditSwapOut hcredit
  exact hshares

theorem rangeOf_quiet {call} (h : Vault.Balanced s.vault) (hquiet : call.IsQuiet)
    (hcall : ¬ call.TransfersShares) (hok : exec btcVault dep ctx s call = .ok s') :
    Vault.rangeOf s'.vault = Vault.rangeOf s.vault := by
  cases quietStep_of_exec hquiet hok with
  | credited hvault => exact h.creditSwapIn hvault
  | reversed hdrop | refunded hdrop => exact rangeOf_swapped h hdrop
  | requested hreq => exact rangeOf_requested h hreq
  | called hvault =>
    refine h.execPublic ?_ hvault
    rintro source dest amount rfl
    exact hcall trivial
  | _ => rfl

def ClosesWhole (s : SystemState) (c : SystemCall) : Prop :=
  ∀ i ∈ c.2.closes, s.pendingClaimSats i = 0 ∨ s.pendingClaimSats i = (s.channels i).amountSats

instance decidableClosesWhole (s : SystemState) (c : SystemCall) : Decidable (ClosesWhole s c) :=
  Option.decidableForallMem c.2.closes

theorem Claimed.of_step {c : SystemCall} (hcall : ¬ c.2.TransfersShares) (h : Claimed s)
    (hwhole : ClosesWhole s c) (hok : step btcVault dep s c = .ok s') : Claimed s' := by
  have hbalanced := balanced_of_step h.balanced hok
  obtain ⟨ctx, call⟩ := c
  cases channelStep_of_exec hok with
  | opened o valid armed deposits => exact h.opening valid deposits hbalanced
  | claimed some deposited => exact h.claim hbalanced some deposited
  | spliced resplicing locked settled =>
    obtain ⟨hshares, hclaim⟩ := h.settled settled
    exact h.resplicing resplicing.isOpen hbalanced rfl rfl rfl hshares hclaim
  | delivered resplicing locked settled =>
    exact h.resplicing resplicing.isOpen hbalanced rfl rfl rfl (h.delivered settled) (Or.inl settled.claimed)
  | closed spend closes closing => exact h.closing closing hbalanced (hwhole _ closes)
  | kept quiet same claims =>
    exact h.congr hbalanced same.channels same.hasOpen claims (rangeOf_quiet h.balanced quiet hcall hok)

theorem Claimed.not_sharesMatch {c} (h : Claimed s) (hpart : ¬ ClosesWhole s c)
    (hok : step btcVault dep s c = .ok s') : ¬ SharesMatch s' := by
  obtain ⟨ctx, call⟩ := c
  simp only [ClosesWhole, not_forall, not_or] at hpart
  obtain ⟨i, hi, hsome, hnotAll⟩ := hpart
  cases channelStep_of_exec hok with
  | opened | claimed | spliced | delivered => cases hi
  | @closed _ channelId raw vault spend closes closing =>
    obtain rfl := Option.mem_unique closes hi
    have hopen : (s.channels channelId).IsOpen := by
      by_contra hclosed
      exact hsome (h.idle channelId hclosed)
    have hsum := h.opened channelId hopen
    intro hmatch
    have hnone := (hmatch (s.channels channelId).lpEth).2 ?_
    · change Vault.rangeOf vault _ = 0 at hnone
      rw [closing.deferred hsome] at hnone
      omega
    · intro j hj
      by_cases hjc : j = channelId
      · subst hjc
        simp [State.closeChannel, BTCChannel.IsOpen] at hj
      · simp only [State.closeChannel, update_of_ne hjc] at hj ⊢
        exact h.alone hopen.2 hjc hj
  | kept quiet =>
    rw [quiet.closes] at hi
    cases hi

theorem claimed_deployed (priceWad) : Claimed (deployed (Vault.deployed priceWad)) := by
  have hnever : ¬ noChannel.IsOpen := fun h => h.1 rfl
  constructor
  · exact Vault.balanced_deployed priceWad
  · exact fun _ hi => absurd hi hnever
  · exact fun _ _ hi => absurd hi hnever
  · exact fun _ _ => rfl
  · exact fun _ hi => absurd hi hnever
  · exact fun _ _ => rfl

/-- Over every run without share transfers. -/
theorem sharesMatch_iff {priceWad : ℕ} {cs : List SystemCall} (hcs : ∀ c ∈ cs, ¬ c.2.TransfersShares)
    (hrun : runAll (step btcVault dep) (deployed (Vault.deployed priceWad)) cs = .ok s) :
    EveryState (step btcVault dep) SharesMatch (deployed (Vault.deployed priceWad)) cs ↔
      EveryStep (step btcVault dep) ClosesWhole (deployed (Vault.deployed priceWad)) cs :=
  everyState_iff_within Claimed (fun _ h => h.sharesMatch) (fun _ _ _ hc h hP hok => h.of_step hc hP hok)
    (fun _ _ _ _ h hP hok => h.not_sharesMatch hP hok) (claimed_deployed priceWad)
    (everyStep_of_forall _ fun c hc _ => hcs c hc) hrun

end

def deferredGrowth : List SystemCall :=
  [({ hopCtx with env := { Vault.quietEnv with price := 0 } }, openCall), (hopCtx, growCall)]

def closeGrown : SystemCall := (hopCtx, closeCall (sampleTxid growTx) 140000)

theorem sharesMatch_iff_registered : EveryState sampleStep SharesMatch sampleStart
      (deferredGrowth ++ [(hopCtx, .registerChannelClaim sampleChannel), closeGrown]) := by
  obtain ⟨s, hs⟩ : ∃ s, runAll sampleStep sampleStart
      (deferredGrowth ++ [(hopCtx, .registerChannelClaim sampleChannel), closeGrown]) = .ok s := by
    decide +kernel
  exact (sharesMatch_iff (by decide) hs).mpr (by decide +kernel)

theorem growth_outlives_channel : ∃ s : SystemState, runAll sampleStep sampleStart
      (deferredGrowth ++ [closeGrown]) = .ok s ∧ (∀ c ∈ deferredGrowth ++ [closeGrown], ¬ c.2.TransfersShares) ∧
    (s.channels sampleChannel).status = .closed ∧ s.hasOpenBtcChannel sampleLp = false ∧
    Vault.rangeOf s.vault sampleLp = 50000 ∧ ¬ SharesMatch s := by
  obtain ⟨t, ht, hsteps, hpart, s, hs, hstatus, hflag, hshares⟩ : ∃ t : SystemState,
      runAll sampleStep sampleStart deferredGrowth = .ok t ∧
      EveryStep sampleStep (fun s c => ¬ c.2.TransfersShares ∧ ClosesWhole s c)
        sampleStart deferredGrowth ∧ ¬ ClosesWhole t closeGrown ∧
      ∃ s, sampleStep t closeGrown = .ok s ∧ (s.channels sampleChannel).status = .closed ∧
        s.hasOpenBtcChannel sampleLp = false ∧ Vault.rangeOf s.vault sampleLp = 50000 := by
    decide +kernel
  have hclaimed : Claimed t :=
    runAll_invariant (fun _ _ _ hinv hP hok => hinv.of_step hP.1 hP.2 hok) (claimed_deployed _) hsteps ht
  exact ⟨s, runAll_concat ht hs, by decide, hstatus, hflag, hshares, hclaimed.not_sharesMatch hpart hs⟩

end QuidProtocol.Channels
