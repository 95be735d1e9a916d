import QuidProtocol.Vault.Core

/-!
What each function of the vault leaves behind when it returns.
-/

namespace QuidProtocol.Vault

open Lib Function
open Basket (Address)

variable {a b c : ℕ}

theorem add_eq_ok : add a b = .ok c ↔ a + b < 2 ^ 256 ∧ a + b = c := checkedAdd_eq_ok

theorem sub_eq_ok : sub a b = .ok c ↔ b ≤ a ∧ a - b = c := checkedSub_eq_ok

theorem mul_eq_ok : mul a b = .ok c ↔ a * b < 2 ^ 256 ∧ a * b = c := checkedMul_eq_ok

theorem fullMulDiv_eq_ok {d} : fullMulDiv a b d = .ok c ↔ (d ≠ 0 ∧ a * b / d < 2 ^ 256) ∧ a * b / d = c := by
  simp [fullMulDiv, bind_eq_ok, require_eq_ok]

theorem State.setDeposit_same (v : State) (lp : Address) (d : Deposit) : (v.setDeposit lp d).autoManaged lp = d := by
  simp [State.setDeposit]

theorem State.setDeposit_other (v : State) {lp a} (d : Deposit) (h : a ≠ lp) :
    (v.setDeposit lp d).autoManaged a = v.autoManaged a := by
  simp [State.setDeposit, h]

section

variable {env : Env} {v v' : State} {c c' : Core} {lp : Address} {d d' : Deposit} {p n : ℕ}

theorem assetPrice_eq_ok : assetPrice env = .ok p ↔ env.price ≠ 0 ∧ env.price = p := by
  simp [assetPrice, bind_eq_ok, require_eq_ok]

theorem repackIfHeld_eq (c x) : ∃ y, repackIfHeld c x = { c with rangeAnchor := y } := by
  unfold repackIfHeld
  split_ifs
  · exact ⟨x, rfl⟩
  · exact ⟨c.rangeAnchor, rfl⟩

variable {spot twap weight usd fees pooled sats px amount price added floor consumed : ℕ}
  {payTo seller token recipient : Address}

theorem reseatIfStale_some (h : reseatIfStale env c spot twap = .ok (some c')) :
    ∃ y, c' = { c with rangeAnchor := y } := by
  unfold reseatIfStale at h
  split_ifs at h with h0
  · simp at h
  · obtain ⟨manipulated, -, h⟩ := of_bind h
    split_ifs at h with h1
    · simp at h
    · obtain ⟨bounds, -, h⟩ := of_bind h
      obtain ⟨y, hy⟩ := repackIfHeld_eq c twap
      obtain rfl := Option.some.inj (Except.ok.inj h)
      exact ⟨y, hy⟩

theorem repackOutOfBounds_eq {lo hi} (h : repackOutOfBounds c spot twap lo hi = .ok c') :
    ∃ y, c' = { c with rangeAnchor := y } := by
  unfold repackOutOfBounds at h
  split_ifs at h
  · obtain ⟨manipulated, -, h⟩ := of_bind h
    split_ifs at h
    · exact ⟨c.rangeAnchor, ok_inj h⟩
    · obtain ⟨bounds, -, h⟩ := of_bind h
      obtain ⟨y, hy⟩ := repackIfHeld_eq c spot
      exact ⟨y, (ok_inj h).trans hy⟩
  · exact ⟨c.rangeAnchor, ok_inj h⟩

theorem rebalance_eq (h : rebalance env v = .ok (p, v')) : (env.price ≠ 0 ∧ p = env.price) ∧
    ∃ x y, v' = { v with core := { v.core with rangeAnchor := x }, rangeAnchor := y } := by
  obtain ⟨⟨lo, hi⟩, -, spot, hspot, reseated, hre, h⟩ := of_bind₃ h
  have hprice := (assetPrice_eq_ok.mp hspot).1
  cases reseated with
  | some =>
    obtain ⟨x, rfl⟩ := reseatIfStale_some hre
    cases h
    exact ⟨⟨hprice, rfl⟩, x, _, rfl⟩
  | none =>
    obtain ⟨c, hc, h⟩ := of_bind h
    obtain ⟨x, rfl⟩ := repackOutOfBounds_eq hc
    cases h
    exact ⟨⟨hprice, rfl⟩, x, _, rfl⟩

theorem refreshBookmarks_pooled (h : refreshBookmarks d weight usd = .ok d') : d'.pooled = d.pooled := by
  obtain ⟨fees, -, h⟩ := of_bind h
  rw [← Except.ok.inj h]

theorem payFees_pooled (h : payFees env d payTo usd = .ok d') : d'.pooled = d.pooled := by
  unfold payFees at h
  split_ifs at h
  · obtain ⟨total, -, minted, -, h⟩ := of_bind₂ h
    rw [← Except.ok.inj h]
  · obtain ⟨owed, -, h⟩ := of_bind h
    rw [← Except.ok.inj h]

theorem settleBtcLp_pooled (h : settleBtcLp env d payTo fees weight = .ok d') : d'.pooled = d.pooled := by
  unfold settleBtcLp at h
  split_ifs at h
  · rw [Except.ok.inj h]
  · obtain ⟨usd, -, paid, hpaid, h⟩ := of_bind₂ h
    rw [refreshBookmarks_pooled h, payFees_pooled hpaid]

theorem settleLp_eq (h : settleLp env v lp payTo = .ok v') :
    ∃ d, d.pooled = (v.autoManaged lp).pooled ∧ v' = v.setDeposit lp d := by
  obtain ⟨weight, -, d, hd, h⟩ := of_bind₂ h
  exact ⟨d, settleBtcLp_pooled hd, ok_inj h⟩

theorem rebook_eq (h : rebook v lp = .ok v') : ∃ d, d.pooled = (v.autoManaged lp).pooled ∧ v' = v.setDeposit lp d := by
  obtain ⟨weight, -, d, hd, h⟩ := of_bind₂ h
  exact ⟨d, refreshBookmarks_pooled hd, ok_inj h⟩

theorem State.setDeposit_twice (v : State) (lp : Address) (d d' : Deposit) :
    (v.setDeposit lp d).setDeposit lp d' = v.setDeposit lp d' := by
  simp [State.setDeposit]

theorem addPooled_eq (h : addPooled v lp n = .ok v') :
    ∃ d, d.pooled = (v.autoManaged lp).pooled + n ∧ v' = v.setDeposit lp d := by
  obtain ⟨-, h⟩ := of_checkedAdd h
  obtain ⟨d, hd, rfl⟩ := rebook_eq h
  rw [State.setDeposit_same] at hd
  exact ⟨d, hd, State.setDeposit_twice v lp _ d⟩

theorem finishDeposit_pooled {buf} (h : finishDeposit d pooled buf fees = .ok d') : d'.pooled = pooled := by
  unfold finishDeposit at h
  split_ifs at h with h0
  · rw [← Except.ok.inj h, h0]
  · obtain ⟨weight, -, h⟩ := of_bind h
    exact refreshBookmarks_pooled h

def sharesRemoved (w : State) (a : ResizeArgs) : ℕ := if a.full then (w.autoManaged a.lpEth).pooled else a.shrinkSats

def State.resized (w : State) (a : ResizeArgs) (core : Core) (d : Deposit) : State :=
  clearLevered ({ w with
    core
    lpShares := w.lpShares - sharesRemoved w a
    totalBuffer := w.totalBuffer - (if a.full then w.levBuf a.lpEth else 0) }.setDeposit a.lpEth d) a

structure ResizeTail (env : Env) (v : State) (a : ResizeArgs) (v' w : State) (core : Core) (d : Deposit) :
    Prop where
  settled : settleLp env v a.lpEth a.lpEth = .ok w
  burned : ∃ slice core₁ core₂, settleDelivered env w.core a.lpEth (a.shrinkSats - a.lpPayoutSats) a.exactUsd
    a.delevUsd = .ok (slice, core₁) ∧ burnInRange env core₁ (a.shrinkSats - slice) = .ok core₂ ∧
    burnLevered env { w with core := core₂ } a = .ok core
  record : finishDeposit (w.autoManaged a.lpEth) ((w.autoManaged a.lpEth).pooled - sharesRemoved w a)
    (w.levBuf a.lpEth) w.usdFees = .ok d
  eq : v' = resetFees (w.resized a core d) ((w.autoManaged a.lpEth).pooled - sharesRemoved w a = 0)

theorem resizeBtcLpTail_eq {a} (h : resizeBtcLpTail env v a = .ok v') : ∃ w core d, ResizeTail env v a v' w core d := by
  obtain ⟨w, hw, ⟨slice, core₁⟩, h₁, h⟩ := of_bind₂ h
  obtain ⟨-, h⟩ := of_checkedSub h
  obtain ⟨core₂, h₂, core, h₃, h⟩ := of_bind₂ h
  obtain ⟨-, h⟩ := of_checkedSub h
  obtain ⟨d, hd, h⟩ := of_bind h
  obtain ⟨-, h⟩ := of_checkedSub h
  obtain ⟨-, h⟩ := of_checkedSub h
  have hend := ok_inj h
  exact ⟨w, core, d, hw, ⟨slice, core₁, core₂, h₁, h₂, h₃⟩, hd, hend⟩

theorem recordFee_eq {native} (h : recordFee v usd native = .ok v') : ∃ x y z, v' = { v with
      usdFees := x
      core := { v.core with
        retainedNativeFee := y
        feesRetained := z
        pooledUsd := v.core.pooledUsd + usd } } := by
  obtain ⟨kept, -, h⟩ := of_bind h
  split_ifs at h with h0
  · refine ⟨v.usdFees, kept, v.core.feesRetained, ?_⟩
    rw [← Except.ok.inj h, h0]
    rfl
  · obtain ⟨retained, -, shares, -, inc, -, usdFees, -, h⟩ := of_bind₄ h
    obtain ⟨-, h⟩ := of_checkedAdd h
    exact ⟨usdFees, kept, retained, ok_inj h⟩

theorem retainNative_eq (h : retainNative v sats px = .ok (n, v')) : ∃ usd native, recordFee v usd native = .ok v' := by
  obtain ⟨premium, -, premiumUsd, -, w, hw, h⟩ := of_bind₃ h
  cases h
  exact ⟨premiumUsd, premium, hw⟩

theorem retainUsd_eq (h : retainUsd v amount = .ok (n, v')) : n ≤ amount ∧ ∃ usd, recordFee v usd 0 = .ok v' := by
  obtain ⟨premium, -, w, hw, h⟩ := of_bind₂ h
  cases h
  exact ⟨Nat.sub_le _ _, premium, hw⟩

theorem requestDeposit_eq (h : requestDeposit env v lp n = .ok v') :
    ((n = 0 ∨ lp = 0) ∧ v' = v) ∨ ∃ px v₁ v₂ price deltaUSD deltaBTC v₃ v₄,
      rebalance env v = .ok (px, v₁) ∧ settleLp env v₁ lp 0 = .ok v₂ ∧
      addLiqChannel env v₂ n price = .ok (deltaUSD, deltaBTC) ∧
      pairRegLeg env v₂ lp deltaBTC deltaUSD = .ok v₃ ∧ deltaBTC ≤ n ∧
      addUnpaired v₃ lp (n - deltaBTC) = .ok v₄ ∧ v' = { v₄ with lpShares := v₄.lpShares + n } := by
  unfold requestDeposit at h
  split_ifs at h with h0
  · exact Or.inl ⟨h0, ok_inj h⟩
  · obtain ⟨checked, -, ⟨px, v₁⟩, h₁, v₂, h₂, price, -, h⟩ := of_bind₄ h
    obtain ⟨⟨deltaUSD, deltaBTC⟩, hliq, v₃, h₃, h⟩ := of_bind₂ h
    obtain ⟨hle, h⟩ := of_checkedSub h
    obtain ⟨v₄, h₄, h⟩ := of_bind h
    obtain ⟨-, h⟩ := of_checkedAdd h
    rw [Nat.add_sub_of_le hle] at h
    exact Or.inr ⟨px, v₁, v₂, price, deltaUSD, deltaBTC, v₃, v₄, h₁, h₂, hliq, h₃, hle, h₄, ok_inj h⟩

def State.unlevered (v : State) (lp : Address) (core : Core) : State :=
  let d := v.autoManaged lp
  let netRem := min (v.levPooled lp) d.pooled
  { v with
    core
    levPooled := update v.levPooled lp (v.levPooled lp - netRem)
    levBuf := update v.levBuf lp 0
    levBufferUsd := update v.levBufferUsd lp 0 }.setDeposit lp { d with pooled := d.pooled - netRem }

theorem levBurnAll_eq {burned netRem}
    (hnet : netRem = min (v.levPooled lp) (v.autoManaged lp).pooled) (h : levBurnAll env v lp = .ok (burned, v')) :
    (netRem + v.levBuf lp = 0 ∧ burned = ⟨0, 0⟩ ∧ v' = { v with levBufferUsd := update v.levBufferUsd lp 0 }) ∨
    ∃ usdOut core, netRem + v.levBuf lp ≠ 0 ∧ levBurnUsd v lp (netRem + v.levBuf lp) = .ok usdOut ∧
      modLP env v.core (int256 (netRem + v.levBuf lp)) (int256 usdOut) 0 = .ok core ∧
      burned = ⟨netRem, v.levBuf lp⟩ ∧ rebook (v.unlevered lp core) lp = .ok v' := by
  subst hnet
  obtain ⟨-, h⟩ := of_checkedAdd h
  split_ifs at h with h0
  · obtain ⟨hburned, hv⟩ := ok_pair_inj h
    exact Or.inl ⟨h0, hburned.symm, hv.symm⟩
  · obtain ⟨usdOut, husd, core, hcore, w, hw, h⟩ := of_bind₃ h
    obtain ⟨hburned, rfl⟩ := ok_pair_inj h
    exact Or.inr ⟨usdOut, core, h0, husd, hcore, hburned.symm, hw⟩

theorem levAddNet_eq (h : levAddNet env v lp n price = .ok (added, v')) :
    (added = 0 ∧ v' = v) ∨ ∃ netUsd w, addLiqChannel env v n price = .ok (netUsd, added) ∧
      addPooled v lp added = .ok w ∧ pairLegs env { w with levPooled := update w.levPooled lp (w.levPooled lp + added) }
        added netUsd lp = .ok v' := by
  unfold levAddNet at h
  split_ifs at h
  · exact Or.inl (ok_pair_eq h)
  · obtain ⟨⟨netUsd, netTok⟩, hliq, h⟩ := of_bind h
    dsimp only at h
    split_ifs at h
    · exact Or.inl (ok_pair_eq h)
    · obtain ⟨w, hw, h⟩ := of_bind h
      obtain ⟨-, h⟩ := of_checkedAdd h
      obtain ⟨u, hu, h⟩ := of_bind h
      cases h
      exact Or.inr ⟨netUsd, w, hliq, hw, hu⟩

theorem levAddBufOver_eq {gross} (h : levAddBufOver env v lp gross n price = .ok (added, v')) :
    (added = 0 ∧ v' = v) ∨ ∃ bufUsd w, capBufferUsd added price (env.debtUsd lp) = .ok bufUsd ∧ rebook { v with
        levBuf := update v.levBuf lp (v.levBuf lp + added)
        levBufferUsd := update v.levBufferUsd lp (v.levBufferUsd lp + bufUsd) } lp = .ok w ∧
      pairLegs env w added bufUsd lp = .ok v' := by
  unfold levAddBufOver at h
  split_ifs at h
  · obtain ⟨bufUsd, hcap, h⟩ := of_bind h
    split_ifs at h
    · exact Or.inl (ok_pair_eq h)
    · obtain ⟨-, h⟩ := of_checkedAdd h
      obtain ⟨-, h⟩ := of_checkedAdd h
      obtain ⟨w, hw, u, hu, h⟩ := of_bind₂ h
      cases h
      exact Or.inr ⟨bufUsd, w, hcap, hw, hu⟩
  · exact Or.inl (ok_pair_eq h)

theorem levAddGross_eq {added} (h : levAddGross env v lp n = .ok (added, v')) :
    (added = ⟨0, 0⟩ ∧ v' = v) ∨ ∃ price w, levAddNet env v lp (env.netEquity lp) price = .ok (added.net, w) ∧
      levAddBufOver env w lp n (env.netEquity lp) price = .ok (added.buf, v') := by
  unfold levAddGross at h
  split_ifs at h
  · exact Or.inl (ok_pair_eq h)
  · obtain ⟨price, -, ⟨net, w⟩, hw, ⟨buf, u⟩, hu, h⟩ := of_bind₃ h
    cases h
    exact Or.inr ⟨price, w, hw, hu⟩

theorem applyDeltas_eq {added burned} (h : applyDeltas v added burned = .ok v') :
    burned.net ≤ v.lpShares + added.net ∧ burned.buf ≤ v.totalBuffer + added.buf ∧
      v' = { v with lpShares := v.lpShares + added.net - burned.net
                    totalBuffer := v.totalBuffer + added.buf - burned.buf } := by
  obtain ⟨-, h⟩ := of_checkedAdd h
  obtain ⟨hnet, h⟩ := of_checkedSub h
  obtain ⟨-, h⟩ := of_checkedAdd h
  obtain ⟨hbuf, h⟩ := of_checkedSub h
  exact ⟨hnet, hbuf, ok_inj h⟩

theorem syncLev_eq (h : syncLev env v lp = .ok v') :
    (levSyncState env v lp = .ok true ∧ v' = v) ∨ ∃ px v₁ v₂ burned v₃ added v₄,
      levSyncState env v lp = .ok false ∧ rebalance env v = .ok (px, v₁) ∧ settleLp env v₁ lp 0 = .ok v₂ ∧
      levBurnAll env v₂ lp = .ok (burned, v₃) ∧
      levAddGross env v₃ lp (levGross env v lp) = .ok (added, v₄) ∧ applyDeltas v₄ added burned = .ok v' := by
  obtain ⟨inSync, hsync, h⟩ := of_bind h
  split_ifs at h with hs
  · rw [hs] at hsync
    exact Or.inl ⟨hsync, ok_inj h⟩
  · rw [Bool.not_eq_true _ |>.mp hs] at hsync
    obtain ⟨⟨px, v₁⟩, h₁, v₂, h₂, ⟨burned, v₃⟩, h₃, ⟨added, v₄⟩, h₄, h⟩ := of_bind₄ h
    exact Or.inr ⟨px, v₁, v₂, burned, v₃, added, v₄, hsync, h₁, h₂, h₃, h₄, h⟩

theorem creditSwapIn_eq (h : creditSwapIn env v seller sats token floor = .ok (consumed, v')) :
    (sats = 0 ∧ v' = v) ∨ ∃ px v₁ amount v₂ delivered used core, rebalance env v = .ok (px, v₁) ∧
      retainNative v₁ sats px = .ok (amount, v₂) ∧
      routeSwap env v₂.core seller false token amount v₁.core.pooledUsd px = .ok (delivered, used, core) ∧
      floor ≤ delivered ∧ core.pendingSwapOutUsd ≤ core.pooledUsd ∧ v' = { v₂ with core } := by
  unfold creditSwapIn at h
  split_ifs at h with h0
  · exact Or.inl ⟨h0, (ok_pair_inj h).2.symm⟩
  · obtain ⟨-, ⟨px, v₁⟩, h₁, h⟩ := of_require_bind h
    obtain ⟨⟨amount, v₂⟩, h₂, ⟨delivered, used, core⟩, hroute, u₁, hfloor, u₂, hleft, h⟩ := of_bind₄ h
    exact Or.inr ⟨px, v₁, amount, v₂, delivered, used, core, h₁, h₂, hroute,
      require_eq_ok.mp hfloor, require_eq_ok.mp hleft, (ok_pair_inj h).2.symm⟩

theorem retainNative_le (h : retainNative v sats px = .ok (amount, v')) : amount ≤ sats := by
  obtain ⟨premium, -, premiumUsd, -, w, -, h⟩ := of_bind₃ h
  cases h
  exact Nat.sub_le _ _

theorem routeSwap_le {inputIsUsd out used}
    (h : routeSwap env c recipient inputIsUsd token amount pooled px = .ok (out, used, c')) : used ≤ amount := by
  obtain ⟨most, -, h⟩ := of_bind h
  dsimp only at h
  split_ifs at h
  · obtain ⟨-, hrest⟩ := ok_pair_inj h
    obtain ⟨rfl, -⟩ := Prod.mk.inj hrest
    exact Nat.zero_le _
  · obtain ⟨⟨out', c₁⟩, -, h⟩ := of_bind h
    obtain ⟨-, hrest⟩ := ok_pair_inj h
    obtain ⟨rfl, -⟩ := Prod.mk.inj hrest
    exact min_le_left _ _

theorem creditSwapIn_le (h : creditSwapIn env v seller sats token floor = .ok (consumed, v')) : consumed ≤ sats := by
  unfold creditSwapIn at h
  split_ifs at h
  · cases h
    exact Nat.zero_le _
  · obtain ⟨-, ⟨px, v₁⟩, -, h⟩ := of_require_bind h
    obtain ⟨⟨amount, v₂⟩, hretain, h⟩ := of_bind h
    obtain ⟨⟨delivered, used, core⟩, hroute, h⟩ := of_bind h
    obtain ⟨u₁, -, h⟩ := of_bind h
    obtain ⟨u₂, -, h⟩ := of_bind h
    cases h
    have hamount := retainNative_le hretain
    have hused := routeSwap_le hroute
    omega

theorem creditSwapOut_eq {swapper usdAmount minSats usd6}
    (h : creditSwapOut env v swapper token usdAmount minSats = .ok (sats, usd6, v')) :
    (sats = 0 ∧ usd6 = 0 ∧ v' = v) ∨ ∃ deposited amount6 px v₁ amount v₂ used core,
      found Err.outside (env.deposit swapper token usdAmount) = .ok deposited ∧
      scaleTo6 env deposited token = .ok amount6 ∧ rebalance env v = .ok (px, v₁) ∧
      retainUsd v₁ amount6 = .ok (amount, v₂) ∧
      routeSwap env v₂.core env.self true 0 amount v₁.core.pooled px = .ok (sats, used, core) ∧
      usd6 = min amount used ∧ v' = { v₂ with core } := by
  unfold creditSwapOut at h
  split_ifs at h
  · obtain ⟨hsats, hrest⟩ := ok_pair_inj h
    obtain ⟨husd6, hv⟩ := Prod.mk.inj hrest
    exact Or.inl ⟨hsats.symm, husd6.symm, hv.symm⟩
  · obtain ⟨-, deposited, hdep, h⟩ := of_require_bind h
    obtain ⟨amount6, hscale, ⟨px, v₁⟩, h₁, ⟨amount, v₂⟩, h₂, ⟨got, used, core⟩, hroute, h⟩ := of_bind₄ h
    obtain ⟨u₁, -, u₂, -, h⟩ := of_bind₂ h
    obtain ⟨rfl, hrest⟩ := ok_pair_inj h
    obtain ⟨husd6, hv⟩ := Prod.mk.inj hrest
    exact Or.inr ⟨deposited, amount6, px, v₁, amount, v₂, used, core, hdep, hscale, h₁, h₂, hroute, husd6.symm, hv.symm⟩

theorem swapTo_eq {minOut} (h : swapTo env v token amount minOut recipient = .ok v') :
    ∃ amount6 px v₁ left v₂ out used core, rebalance env v = .ok (px, v₁) ∧ retainUsd v₁ amount6 = .ok (left, v₂) ∧
      routeSwap env v₂.core recipient true 0 left v₁.core.pooled px = .ok (out, used, core) ∧
      v' = { v₂ with core } := by
  obtain ⟨-, ⟨px, v₁⟩, h₁, h⟩ := of_require_bind h
  obtain ⟨committed, -, u₁, -, amount6, -, ⟨left, v₂⟩, h₂, h⟩ := of_bind₄ h
  obtain ⟨⟨out, used, core⟩, hroute, u₂, -, u₃, -, h⟩ := of_bind₃ h
  exact ⟨amount6, px, v₁, left, v₂, out, used, core, h₁, h₂, hroute, ok_inj h⟩

end

end QuidProtocol.Vault
