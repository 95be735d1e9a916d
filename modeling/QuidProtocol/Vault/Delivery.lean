import QuidProtocol.Vault.Proceeds
import QuidProtocol.Reserve.Take

/-!
What the calls of the vault do to the proceeds.
What a core pays out in stables: the dollars it books against what the basket transfers.
-/

namespace QuidProtocol.Vault

open Lib Reserve
open Basket (Address)

variable {env : Env} {P : Prop} {v v' : State} {c c' : Core} {lp : Address}

section

variable {exactUsd delev shrink payout : ℕ} {full : Bool}

theorem sourceRepayFree_drawn {want wantUsd}
    (h : sourceRepayFree env c lp want wantUsd exactUsd = .ok (delev, c')) : delev ≤ exactUsd ∧ Drawn c delev c' := by
  obtain ⟨wantUsd18, -, h⟩ := of_bind h
  cases hamt : env.swapOutDeleverAmt lp wantUsd18 with
  | none =>
    simp only [hamt] at h
    cases h
    exact ⟨Nat.zero_le _, .none _⟩
  | some =>
    simp only [hamt] at h
    obtain ⟨committed, -, h⟩ := of_bind h
    split_ifs at h
    · obtain ⟨-, -, h⟩ := of_require₂ h
      cases h
      exact ⟨Nat.zero_le _, .none _⟩
    · obtain ⟨padded, -, c₁, hdraw, c₂, hsub, got, -, h⟩ := of_bind₄ h
      obtain ⟨-, -, h⟩ := of_require₂ h
      cases h
      exact ⟨Nat.min_le_right _ _, drawn_of hdraw hsub⟩

theorem deleverFirst_drawn (h : deleverFirst env v lp shrink payout full exactUsd = .ok (delev, c')) :
    delev ≤ exactUsd ∧ Drawn v.core delev c' ∧ (v.levPooled lp = 0 → delev = 0) := by
  unfold deleverFirst at h
  split_ifs at h
  · unfold deleverOnDelivery at h
    dsimp only at h
    split_ifs at h with hnone
    · cases h
      exact ⟨Nat.zero_le _, .none _, fun _ => rfl⟩
    · obtain ⟨scaled, -, h⟩ := of_bind h
      split_ifs at h
      · cases h
        exact ⟨Nat.zero_le _, .none _, fun _ => rfl⟩
      · obtain ⟨hle, hdrawn⟩ := sourceRepayFree_drawn h
        exact ⟨hle, hdrawn, fun hlev => absurd (Or.inl hlev) hnone⟩
  · cases h
    exact ⟨Nat.zero_le _, .none _, fun _ => rfl⟩

theorem settleDelivered_drawn {raw slice}
    (h : settleDelivered env c lp raw exactUsd delev = .ok (slice, c')) : Drawn c (exactUsd - delev) c' := by
  unfold settleDelivered at h
  split_ifs at h with h0
  · cases h
    rw [h0, Nat.zero_sub]
    exact .none _
  · obtain ⟨-, h⟩ := of_checkedSub h
    obtain ⟨c₁, hc₁, h⟩ := of_bind h
    cases h
    unfold drawDelivered at hc₁
    split_ifs at hc₁ with hnone
    · cases hc₁
      rw [hnone]
      exact .none _
    · obtain ⟨c₂, hpooled, c₃, hpending, u, -, hc₁⟩ := of_bind₃ hc₁
      cases hc₁
      exact drawn_of hpooled hpending

theorem burnLevered_draws {a} (h : burnLevered env v a = .ok c') : Draws P 0 v.core c' := by
  unfold burnLevered at h
  split_ifs at h
  · obtain ⟨c₁, hc₁, h⟩ := of_bind h
    exact (burnInRange_draws hc₁).andThen (burnInRange_draws h)
  · cases h
    exact .refl _

theorem clearLevered_core (v a) : (clearLevered v a).core = v.core := by
  unfold clearLevered
  split_ifs <;> rfl

theorem resetFees_core (v cleared) : (resetFees v cleared).core = v.core := by
  unfold resetFees
  split_ifs <;> rfl

theorem resizeBtcLpTail_draws {a} (h : resizeBtcLpTail env v a = .ok v') :
    Draws P (a.exactUsd - a.delevUsd) v.core v'.core := by
  obtain ⟨w, core, d, htail⟩ := resizeBtcLpTail_eq h
  obtain ⟨slice, c₁, c₂, hsettled, hburn, hlevered⟩ := htail.burned
  have hdraws : Draws P _ w.core c₁ := (settleDelivered_drawn hsettled).draws
  rw [settleLp_core htail.settled] at hdraws
  have hrest := (burnInRange_draws (P := P) hburn).andThen (burnLevered_draws hlevered)
  rw [htail.eq, resetFees_core, State.resized, clearLevered_core]
  exact hdraws.trans hrest

def Idle (v : State) (lp : Address) : Prop :=
  rangeOf v lp = 0 ∧ v.levPooled lp = 0 ∧ v.levBuf lp = 0
  deriving Decidable

theorem resizeBody_draws {a} (h : resizeBody env v a = .ok v') :
    (Idle v a.lpEth ∨ a.full = false ∧ a.shrinkSats = 0) ∧ v' = v ∨
      ¬ Idle v a.lpEth ∧ Draws P (a.exactUsd - a.delevUsd) v.core v'.core := by
  unfold resizeBody at h
  dsimp only at h
  split_ifs at h with hidle hnothing
  · exact Or.inl ⟨Or.inl hidle, ok_inj h⟩
  · exact Or.inl ⟨Or.inr hnothing, ok_inj h⟩
  all_goals
    obtain ⟨⟨px, w⟩, hw, h⟩ := of_bind h
    have htail := resizeBtcLpTail_draws (P := P) h
    exact Or.inr ⟨hidle, (rebalance_draws hw).andThen htail⟩

theorem resizeLp_draws (hexact : full = false → shrink = 0 → exactUsd = 0)
    (h : resizeLp env v lp shrink payout full exactUsd = .ok v') : ∃ w, syncLev env v lp = .ok w ∧
      Draws (SyncCovered env v lp) (if Idle w lp then 0 else exactUsd) v.core v'.core := by
  obtain ⟨w, hw, ⟨delev, core⟩, hdelev, h⟩ := of_bind₂ h
  refine ⟨w, hw, (syncLev_draws hw).andThen ?_⟩
  obtain ⟨hle, hdrawn, hnone⟩ := deleverFirst_drawn hdelev
  have hdraws : Draws (SyncCovered env v lp) delev w.core core := hdrawn.draws
  rcases resizeBody_draws (P := SyncCovered env v lp) h with ⟨hskip, rfl⟩ | ⟨hbusy, hbody⟩
  · change Draws _ _ w.core core
    have hskip : Idle w lp ∨ full = false ∧ shrink = 0 := hskip
    split_ifs with hidle
    · rwa [hnone hidle.2.1] at hdraws
    · obtain ⟨hfull, hzero⟩ := hskip.resolve_left hidle
      rw [hexact hfull hzero] at hle ⊢
      rwa [Nat.le_zero.mp hle] at hdraws
  · have hbusy : ¬ Idle w lp := hbusy
    rw [if_neg hbusy, ← Nat.add_sub_cancel' hle]
    exact hdraws.trans hbody

def DrawsReturn (env : Env) (w : State) (lp : Address) (shrink payout usd : ℕ) : Prop :=
  (∀ u ≤ usd, ∃ c, drawPooledUsdBtc w.core u = .ok c) ∧
    ∀ delev core px v v', deleverFirst env w lp shrink payout false usd = .ok (delev, core) →
      rebalance env { w with core } = .ok (px, v) → settleLp env v lp lp = .ok v' →
        ∃ c, drawPooledUsdBtc v'.core (usd - delev) = .ok c

theorem drawPooledUsdBtc_ok {u} (hfunded : c.Funded) (h : u ≤ c.pendingSwapOutUsd) :
    ∃ c', drawPooledUsdBtc c u = .ok c' := by
  unfold Core.Funded at hfunded
  refine ⟨_, bind_eq_ok.mpr ⟨_, sub_eq_ok.mpr ⟨?_, rfl⟩, rfl⟩⟩
  omega

theorem drawsReturn_of_funded {usd} (hfunded : v.core.Funded) (h : usd ≤ v.core.pendingSwapOutUsd) :
    DrawsReturn env v lp shrink payout usd := by
  refine ⟨fun u hu => drawPooledUsdBtc_ok hfunded (hu.trans h), ?_⟩
  intro delev core px v₁ v₂ hdelev hpx hsettle
  obtain ⟨-, hdrawn, -⟩ := deleverFirst_drawn hdelev
  have hrest := (hdrawn.draws (P := True)).trans (rebalance_draws hpx)
  rw [← settleLp_core hsettle, Nat.add_zero] at hrest
  apply drawPooledUsdBtc_ok (hrest.funded trivial hfunded)
  have hpending := hrest.pending
  omega

end

section

variable {amount pooled px out consumed : ℕ} {who token : Address}

theorem convert_toUsd {x} (h : convert amount px false = .ok x) : x = amount * px / 10 ^ 18 / 10 ^ 12 := by
  obtain ⟨usd18, husd, h⟩ := of_bind h
  obtain ⟨-, rfl⟩ := fullMulDiv_eq_ok.mp husd
  exact ok_inj h

theorem convert_toVol {x} (h : convert amount px true = .ok x) :
    amount * 10 ^ 12 < 2 ^ 256 ∧ x = amount * 10 ^ 12 * 10 ^ 18 / px := by
  obtain ⟨hlt, h⟩ := of_checkedMul h
  obtain ⟨-, rfl⟩ := fullMulDiv_eq_ok.mp h
  exact ⟨hlt, rfl⟩

theorem convert_le (h : amount ≤ pooled * px / 10 ^ 18 / 10 ^ 12) : amount * 10 ^ 12 * 10 ^ 18 / px ≤ pooled := by
  have h18 : amount * 10 ^ 12 ≤ pooled * px / 10 ^ 18 := (Nat.le_div_iff_mul_le (by decide)).mp h
  have hworth : amount * 10 ^ 12 * 10 ^ 18 ≤ pooled * px := (Nat.le_div_iff_mul_le (by decide)).mp h18
  apply Nat.div_le_of_le_mul
  rwa [Nat.mul_comm px]

theorem routeSwap_usd (hpooled : pooled = c.pooled) (hpx : px = env.price)
    (h : routeSwap env c who true 0 amount pooled px = .ok (out, consumed, c')) :
    consumed ≤ amount ∧ ∃ x y, c' = { c with
      pooledUsd := c.pooledUsd + consumed
      committedOf := x
      pooled := y } := by
  obtain ⟨most, hmost, h⟩ := of_bind h
  have hmost : most = pooled * px / 10 ^ 18 / 10 ^ 12 := convert_toUsd (by simpa using hmost)
  dsimp only at h
  split_ifs at h with h0
  · obtain ⟨-, hrest⟩ := ok_pair_inj h
    obtain ⟨rfl, rfl⟩ := Prod.mk.inj hrest
    exact ⟨Nat.zero_le _, _, _, rfl⟩
  · obtain ⟨⟨out', c₁⟩, hswap, h⟩ := of_bind h
    obtain ⟨-, hrest⟩ := ok_pair_inj h
    obtain ⟨rfl, rfl⟩ := Prod.mk.inj hrest
    refine ⟨Nat.min_le_left _ _, ?_⟩
    generalize hconsumed : min amount most = consumed at hswap
    have hworth : consumed ≤ c.pooled * env.price / 10 ^ 18 / 10 ^ 12 := by
      rw [← hconsumed, hmost, hpooled, hpx]
      exact Nat.min_le_right _ _
    obtain ⟨price, hprice, hswap⟩ := of_bind hswap
    obtain ⟨-, rfl⟩ := assetPrice_eq_ok.mp hprice
    obtain ⟨⟨delta, filled⟩, hfill, c₂, hdelta, hswap⟩ := of_bind₂ hswap
    cases hswap
    obtain ⟨⟨given, got⟩, hamounts, negated, hneg, hfill⟩ := of_bind₂ hfill
    cases hfill
    obtain ⟨vol, hvol, hamounts⟩ := of_bind hamounts
    obtain ⟨hlt, rfl⟩ := convert_toVol hvol
    -- the pool is never short here, so the fill takes what it was given
    rw [if_pos rfl, if_neg (not_lt.mpr (convert_le hworth))] at hamounts
    cases hamounts
    obtain ⟨-, rfl⟩ := neg_eq_ok.mp hneg
    have hint : int256 consumed = consumed := int256_of_lt (by omega)
    obtain ⟨n, x, y, hn, rfl⟩ := handleDelta_eq hdelta
    simp only [if_true, hint] at hn ⊢
    have hnonpos : -(consumed : ℤ) ≤ 0 := Int.neg_nonpos_of_nonneg (Int.natCast_nonneg _)
    rw [hn hnonpos, Int.toNat_of_nonpos hnonpos, neg_neg, Int.toNat_natCast]
    exact ⟨x, y, by simp⟩

theorem routeSwap_vol (h : routeSwap env c who false token amount pooled px = .ok (out, consumed, c')) :
    ∃ u n x y, c' = { c with
      pooledUsd := c.pooledUsd - u + n
      basketUsd := c.basketUsd - u
      committedOf := x
      pooled := y } := by
  obtain ⟨most, -, h⟩ := of_bind h
  dsimp only at h
  split_ifs at h with h0
  · obtain ⟨-, hrest⟩ := ok_pair_inj h
    obtain ⟨-, rfl⟩ := Prod.mk.inj hrest
    exact ⟨0, 0, c.committedOf, c.pooled, rfl⟩
  · obtain ⟨⟨out', c₁⟩, hswap, h⟩ := of_bind h
    obtain ⟨-, hrest⟩ := ok_pair_inj h
    obtain ⟨-, rfl⟩ := Prod.mk.inj hrest
    obtain ⟨price, -, ⟨delta, filled⟩, -, c₂, hdelta, hswap⟩ := of_bind₃ hswap
    cases hswap
    obtain ⟨n, x, y, -, rfl⟩ := handleDelta_eq hdelta
    exact ⟨_, n, x, y, rfl⟩

theorem recordFee_draws {usd native} (h : recordFee v usd native = .ok v') : Draws P 0 v.core v'.core := by
  obtain ⟨x, y, z, rfl⟩ := recordFee_eq h
  exact ⟨rfl, fun _ hfunded => hfunded.trans (Nat.le_add_right _ _)⟩

theorem creditSwapIn_draws {seller sats floor}
    (h : creditSwapIn env v seller sats token floor = .ok (consumed, v')) : Draws P 0 v.core v'.core := by
  obtain ⟨-, rfl⟩ | ⟨px, v₁, amount, v₂, delivered, used, core, h₁, h₂, hroute, -, hleft, rfl⟩ := creditSwapIn_eq h
  · exact .refl _
  · obtain ⟨usd, native, hfee⟩ := retainNative_eq h₂
    refine ((rebalance_draws h₁).andThen (recordFee_draws hfee)).andThen ?_
    obtain ⟨w, n, x, y, rfl⟩ := routeSwap_vol hroute
    refine ⟨rfl, fun _ hfunded => ?_⟩
    unfold Core.Funded at hfunded ⊢
    dsimp only at hleft ⊢
    omega

def Core.Spare (c : Core) (u : ℕ) : Prop := c.basketUsd + c.pendingSwapOutUsd + u ≤ c.pooledUsd

theorem routeSwap_spare (hpooled : pooled = c.pooled) (hpx : px = env.price)
    (h : routeSwap env c who true 0 amount pooled px = .ok (out, consumed, c')) (hfunded : c.Funded) :
    c'.Spare (min amount consumed) := by
  obtain ⟨hle, x, y, rfl⟩ := routeSwap_usd hpooled hpx h
  unfold Core.Funded at hfunded
  unfold Core.Spare
  dsimp only
  omega

theorem retainUsd_draws {left} (h : retainUsd v amount = .ok (left, v')) : Draws P 0 v.core v'.core := by
  obtain ⟨-, usd, hfee⟩ := retainUsd_eq h
  exact recordFee_draws hfee

theorem retainUsd_pooled {left} (h : retainUsd v amount = .ok (left, v')) : v.core.pooled = v'.core.pooled := by
  obtain ⟨-, usd, hfee⟩ := retainUsd_eq h
  obtain ⟨x, y, z, rfl⟩ := recordFee_eq hfee
  rfl

theorem creditSwapOut_draws {swapper usdAmount minSats sats usd6}
    (h : creditSwapOut env v swapper token usdAmount minSats = .ok (sats, usd6, v')) :
    v'.core.pendingSwapOutUsd = v.core.pendingSwapOutUsd ∧ (v.core.Funded → v'.core.Spare usd6) := by
  obtain ⟨-, rfl, rfl⟩ |
    ⟨deposited, amount6, px, v₁, amount, v₂, used, core, -, -, h₁, h₂, hroute, rfl, rfl⟩ := creditSwapOut_eq h
  · exact ⟨rfl, id⟩
  · have hdraws := (rebalance_draws (P := True) h₁).andThen (retainUsd_draws h₂)
    have hpooled := retainUsd_pooled h₂
    have hpx := (rebalance_eq h₁).1.2
    refine ⟨?_, fun hfunded => routeSwap_spare hpooled hpx hroute (hdraws.funded trivial hfunded)⟩
    obtain ⟨-, x, y, rfl⟩ := routeSwap_usd hpooled hpx hroute
    exact hdraws.pending

theorem swapTo_draws {minOut recipient}
    (h : swapTo env v token amount minOut recipient = .ok v') : Draws P 0 v.core v'.core := by
  obtain ⟨amount6, px, v₁, left, v₂, out, used, core, h₁, h₂, hroute, rfl⟩ := swapTo_eq h
  refine ((rebalance_draws h₁).andThen (retainUsd_draws h₂)).andThen ?_
  obtain ⟨-, x, y, rfl⟩ := routeSwap_usd (retainUsd_pooled h₂) (rebalance_eq h₁).1.2 hroute
  exact ⟨rfl, fun _ hfunded => hfunded.trans (Nat.le_add_right _ _)⟩

end

def PublicCall.syncs : PublicCall → Option Address
  | .syncLev lp => some lp
  | .collectFees sender => some sender
  | .compound lp => some lp
  | _ => none

theorem SyncCovered.rebalanced {p} (hcovered : SyncCovered env v lp)
    (h : rebalance env v = .ok (p, v')) : SyncCovered env v' lp := by
  obtain ⟨-, x, y, rfl⟩ := rebalance_eq h
  rcases hcovered with hsync | hburn
  · exact Or.inl hsync
  · exact Or.inr (hburn.congr rfl rfl rfl rfl rfl)

theorem collect_draws (h : collect env v lp = .ok v') : Draws (SyncCovered env v lp) 0 v.core v'.core := by
  obtain ⟨⟨px, v₁⟩, h₁, v₂, h₂, h⟩ := of_bind₂ h
  rw [settleLp_core h]
  exact (rebalance_draws h₁).andThen ((syncLev_draws h₂).weaken fun hcovered => hcovered.rebalanced h₁)

theorem rebalanceFor_draws {n} (h : rebalanceFor env v n = .ok v') : Draws P 0 v.core v'.core := by
  unfold rebalanceFor at h
  split_ifs at h
  · obtain ⟨⟨px, w⟩, hw, h⟩ := of_bind h
    cases h
    exact rebalance_draws hw
  · cases h
    exact .refl _

theorem settleReceiver_core (h : settleReceiver env v lp = .ok v') : v'.core = v.core := by
  unfold settleReceiver at h
  split_ifs at h
  · exact settleLp_core h
  · rw [Except.ok.inj h]

theorem moveShares_core {source dest n} (h : moveShares v source dest n = .ok v') : v'.core = v.core := by
  obtain ⟨left, -, grown, -, w, hw, h⟩ := of_bind₃ h
  obtain ⟨d, -, rfl⟩ := rebook_eq hw
  obtain ⟨d', -, rfl⟩ := rebook_eq h
  rfl

theorem transferShares_draws {source dest n}
    (h : transferShares env v source dest n = .ok v') : Draws P 0 v.core v'.core := by
  obtain ⟨w, hw, h⟩ := of_bind h
  obtain ⟨-, -, h⟩ := of_require₂ h
  refine (rebalanceFor_draws hw).andThen ?_
  split_ifs at h
  · cases h
    exact .refl _
  · obtain ⟨v₁, h₁, v₂, h₂, h⟩ := of_bind₂ h
    rw [moveShares_core h, settleReceiver_core h₂, settleLp_core h₁]
    exact .refl _

theorem execPublic_draws {call} (h : execPublic env v call = .ok v') :
    Draws (∀ lp ∈ call.syncs, SyncCovered env v lp) 0 v.core v'.core := by
  cases call with
  | transferShares => exact transferShares_draws h
  | syncLev lp => exact (syncLev_draws h).weaken fun hcovered => hcovered lp rfl
  | collectFees sender =>
    obtain ⟨-, h⟩ := of_require h
    exact (collect_draws h).weaken fun hcovered => hcovered sender rfl
  | compound lp =>
    simp only [execPublic, compound] at h
    split_ifs at h
    · cases h
      exact .refl _
    · exact (collect_draws h).weaken fun hcovered => hcovered lp rfl
  | setLevManager =>
    obtain ⟨-, -, h⟩ := of_require₂ h
    cases h
    exact .refl _
  | repack => exact rebalanceFor_draws h
  | swapTo => exact swapTo_draws h

def noTranches : Tranches := ⟨fun _ => 0, 0⟩

def takeFrom (r : Shelf) (who : Address) (amount : ℕ) (token : Address) : Option Taken :=
  (takeBody r noTranches ⟨who, amount, token, 0, false⟩).toOption

def Env.shelf (env : Env) (r : Core → Shelf) (c : Core) : Shelf :=
  { r c with decimals := env.decimals, toIndex := env.toIndex }

/-- Of the shelf only the backing depends on the books of the core. -/
def shelfAt (s : Shelf) (backed : Core → Bool) (c : Core) : Shelf := { s with backed := backed c }

def Env.withShelf (env : Env) (r : Core → Shelf) : Env :=
  { env with take := fun c who amount token => (takeFrom (env.shelf r c) who amount token).map Taken.sent }

def deliveredUsd18 (r : Shelf) (who : Address) (amount : ℕ) (token : Address) : ℕ :=
  match takeFrom r who amount token with
  | none => 0
  | some x => valueUsd18 r x.transfers

section

variable (env : Env) (r : Core → Shelf)

def swapPayout (c : Core) (who token : Address) (amount : ℕ) : Res ℕ := do
  let px ← assetPrice env
  let (delta, _) ← fillDelta c false amount px
  if 0 < delta.usd ∧ token ≠ 0 then do
    let c ← poolUsdOut env c delta.usd.toNat
    let want ← from6 env delta.usd.toNat token
    .ok (deliveredUsd18 (env.shelf r c) who want token)
  else .ok 0

def swapPays (c : Core) (who token : Address) (amount : ℕ) : ℕ :=
  match swapPayout env r c who token amount with
  | .error _ => 0
  | .ok n => n

def swapInPayout (v : State) (seller : Address) (sats : ℕ) (token : Address) : Res ℕ := do
  let (px, v) ← rebalance env v
  let pooled := v.core.pooledUsd
  let (amount, v) ← retainNative v sats px
  let most ← convert pooled px (token ≠ 0)
  .ok (if min amount most = 0 then 0 else swapPays env r v.core seller token (min amount most))

def swapInPays (v : State) (seller : Address) (sats : ℕ) (token : Address) : ℕ :=
  match swapInPayout env r v seller sats token with
  | .error _ => 0
  | .ok n => n

/-! On the books and the shelf before the call: the dollars a swap asks for, and what the vaults hand out for them. -/

def swapQuote (c : Core) (amount : ℕ) : ℕ := min (amount * env.price / 10 ^ 18 / 10 ^ 12) c.pooledUsd

def swapInQuote (v : State) (sats : ℕ) : ℕ :=
  min (sats - sats * minSwapSkewWad / 10 ^ 18) (v.core.pooledUsd * 10 ^ 12 * 10 ^ 18 / env.price) * env.price
    / 10 ^ 18 / 10 ^ 12

def units (token : Address) (usd6 : ℕ) : ℕ :=
  let d := env.decimals token
  if 6 ≤ d then usd6 * 10 ^ (d - 6) else usd6 / 10 ^ (6 - d)

def shelfPays (s : Shelf) (who token : Address) (usd6 : ℕ) : ℕ :=
  if usd6 = 0 then 0
  else ({ s with decimals := env.decimals, toIndex := env.toIndex } : Shelf).pays who token (units env token usd6)

structure SwapOutAccount where
  deposited : ℕ
  premium : ℕ
  unfilled : ℕ
  refunded : ℕ

def swapOutAccount (v : State) (swapper token : Address) (usdAmount : ℕ) : Res SwapOutAccount := do
  let deposited ← found .outside (env.deposit swapper token usdAmount)
  let amount6 ← scaleTo6 env deposited token
  let (px, w) ← rebalance env v
  let (amount, u) ← retainUsd w amount6
  let (_, consumed, core) ← routeSwap (env.withShelf r) u.core env.self true 0 amount w.core.pooled px
  .ok {
    deposited := deposited * 10 ^ (18 - env.decimals token)
    premium := u.core.feesRetained - w.core.feesRetained
    unfilled := amount - consumed
    refunded := if amount - consumed ≠ 0 ∧ swapper ≠ 0 then
      deliveredUsd18 (env.shelf r core) swapper (amount - consumed) token else 0 }

end

def SwapOutAccount.Even (a : SwapOutAccount) (usd6 : ℕ) : Prop :=
  a.deposited ≤ (a.premium + usd6) * 10 ^ 12 + a.refunded + 10 ^ 12 ∧
    (a.premium + usd6) * 10 ^ 12 + a.refunded ≤ a.deposited + 10 ^ 12
  deriving Decidable

section

variable {env : Env} {r : Core → Shelf} {c c' : Core} {who token : Address} {amount out px n : ℕ}

theorem int256_of_ge {x} (hle : 2 ^ 255 ≤ x) (hlt : x < 2 ^ 256) : int256 x = x - 2 ^ 256 := by
  have hmod : (x : ℤ) % ((2 ^ 256 : ℕ) : ℤ) = x := by rw [← Int.natCast_mod, Nat.mod_eq_of_lt hlt]
  unfold int256 Int.bmod
  rw [hmod]
  dsimp only
  split_ifs <;> omega

theorem fillDelta_vol {delta} (h : fillDelta c false amount px = .ok (delta, out)) :
    out = min (amount * px / 10 ^ 18 / 10 ^ 12) c.pooledUsd ∧ delta.usd = int256 out := by
  obtain ⟨⟨given, filled⟩, hamounts, negated, -, h⟩ := of_bind₂ h
  obtain ⟨rfl, rfl⟩ := ok_pair_inj h
  obtain ⟨wanted, hwanted, hamounts⟩ := of_bind hamounts
  rw [← convert_toUsd hwanted]
  simp only [Bool.false_eq_true, if_false] at hamounts ⊢
  refine ⟨?_, trivial⟩
  split_ifs at hamounts with hshort
  · obtain ⟨taken, -, hamounts⟩ := of_bind hamounts
    rw [← (ok_pair_inj hamounts).2, min_eq_right hshort.le]
  · rw [← (ok_pair_inj hamounts).2, min_eq_left (not_lt.mp hshort)]

theorem settleUsdSide_lt {leg} (hpool : c.pooledUsd < 2 ^ 256) (hout : out ≤ c.pooledUsd)
    (h : settleUsdSide env c (int256 out) false who token leg = .ok c') : out < 2 ^ 255 := by
  by_contra hge
  have hint := int256_of_ge (not_lt.mp hge) (hout.trans_lt hpool)
  have hneg : int256 out < 0 := by
    rw [hint]
    omega
  rw [settleUsdSide, if_neg (not_lt.mpr hneg.le), if_pos hneg] at h
  obtain ⟨x, hx, h⟩ := of_bind h
  obtain ⟨-, rfl⟩ := neg_eq_ok.mp hx
  obtain ⟨pooledUsd, hadd, h⟩ := of_bind h
  have hfits := (add_eq_ok.mp hadd).1
  omega

theorem swap_vol_eq (hpool : c.pooledUsd < 2 ^ 256) (h : swap env c who false token amount = .ok (out, c')) :
    ∃ px delta c₁ y, assetPrice env = .ok px ∧ fillDelta c false amount px = .ok (delta, out) ∧
      delta.usd = out ∧ out ≤ c.pooledUsd ∧ settleUsdSide env c out false who token false = .ok c₁ ∧
      c' = { c₁ with pooled := y } := by
  obtain ⟨px, hpx, ⟨delta, filled⟩, hfill, c₂, hdelta, h⟩ := of_bind₃ h
  cases h
  obtain ⟨hquote, husd⟩ := fillDelta_vol hfill
  have hle := hquote.trans_le (min_le_right _ _)
  obtain ⟨c₁, hside, hdelta⟩ := of_bind hdelta
  obtain ⟨y, hy⟩ := settleVolSide_eq hdelta
  rw [husd] at hside
  have hint := int256_of_lt (settleUsdSide_lt hpool hle hside)
  rw [hint] at hside husd
  exact ⟨px, delta, c₁, y, hpx, hfill, husd, hle, hside, hy⟩

theorem poolUsdIn_pooledUsd {u leg} (h : poolUsdIn env c u leg = .ok c') : c'.pooledUsd = c.pooledUsd + u := by
  obtain ⟨x, rfl⟩ := poolUsdIn_eq h
  rfl

theorem poolUsdOut_pooledUsd (h : poolUsdOut env c n = .ok c') : c'.pooledUsd = c.pooledUsd - n := by
  obtain ⟨x, rfl⟩ := reportEquity_eq h
  rfl

theorem from6_eq (h : from6 env out token = .ok n) : n = units env token out := by
  unfold from6 at h
  unfold units
  dsimp only at h ⊢
  split_ifs at h ⊢
  · exact (mul_eq_ok.mp h).2.symm
  · exact ok_inj h

theorem units_le {k} (hd : env.decimals token ≤ 6 + k) : units env token out ≤ out * 10 ^ k := by
  unfold units
  dsimp only
  split_ifs
  · exact Nat.mul_le_mul_left out (Nat.pow_le_pow_right (by decide) (by omega))
  · exact (Nat.div_le_self _ _).trans (Nat.le_mul_of_pos_right out (Nat.pow_pos (by decide)))

variable {s : Shelf} {backed : Core → Bool}

theorem take_pays {sent} (hweth : token ≠ s.weth)
    (h : (env.withShelf (shelfAt s backed)).take c who (units env token out) token = some sent) (hout : out ≠ 0) :
    sent = shelfPays env s who token out ∧
      deliveredUsd18 (env.shelf (shelfAt s backed) c) who (units env token out) token = sent := by
  obtain ⟨x, hx, rfl⟩ := Option.map_eq_some_iff.mp h
  obtain ⟨hsent, hvalue⟩ := takeBody_pays rfl hweth (toOption_eq_some.mp hx)
  unfold deliveredUsd18 shelfPays
  rw [hx, if_neg hout]
  refine ⟨hsent.trans ?_, hvalue.trans hsent.symm⟩
  exact Shelf.pays_backed { s with decimals := env.decimals, toIndex := env.toIndex } (backed c) who token _

theorem swap_payment (hpool : c.pooledUsd < 2 ^ 256) (hweth : token ≠ s.weth) (htoken : token ≠ 0)
    (h : swap (env.withShelf (shelfAt s backed)) c who false token amount = .ok (out, c')) :
    out = swapQuote env c amount ∧ swapPays env (shelfAt s backed) c who token amount = shelfPays env s who token out ∧
      c'.pooledUsd + (if units env token out ≠ 0 ∧ shelfPays env s who token out < units env token out then
        out * shelfPays env s who token out / units env token out else out) = c.pooledUsd := by
  obtain ⟨px, delta, c₁, y, hpx, hfill, husd, hle, hside, rfl⟩ := swap_vol_eq hpool h
  refine ⟨?_, ?_⟩
  · obtain ⟨-, rfl⟩ := assetPrice_eq_ok.mp hpx
    exact (fillDelta_vol hfill).1
  have hpayout {n} (h : (if 0 < delta.usd ∧ token ≠ 0 then do
        let c ← poolUsdOut env c delta.usd.toNat
        let want ← from6 env delta.usd.toNat token
        .ok (deliveredUsd18 (env.shelf (shelfAt s backed) c) who want token)
      else .ok 0 : Res ℕ) = .ok n) : swapPays env (shelfAt s backed) c who token amount = n := by
    have hall : swapPayout env (shelfAt s backed) c who token amount = .ok n :=
      bind_eq_ok.mpr ⟨px, hpx, bind_eq_ok.mpr ⟨(delta, out), hfill, h⟩⟩
    rw [swapPays, hall]
  rw [husd, Int.toNat_natCast] at hpayout
  by_cases hout : out = 0
  · subst hout
    rw [Nat.cast_zero, settleUsdSide, if_neg (lt_irrefl 0), if_neg (lt_irrefl 0)] at hside
    cases hside
    rw [hpayout (if_neg fun hpos => lt_irrefl 0 hpos.1)]
    simp [shelfPays]
  · have hpos : (0 : ℤ) < out := Int.natCast_pos.mpr (Nat.pos_of_ne_zero hout)
    rw [settleUsdSide, if_pos hpos] at hside
    obtain ⟨c₂, hc₂, hside⟩ := of_bind hside
    rw [Int.toNat_natCast] at hc₂ hside
    rw [payUsd, if_pos ⟨rfl, htoken⟩] at hside
    obtain ⟨want, hwant, sent, hsent, hside⟩ := of_bind₂ hside
    obtain rfl : want = units env token out := from6_eq hwant
    obtain ⟨hpaid, hdelivered⟩ := take_pays hweth (found_eq_ok.mp hsent) hout
    rw [hpayout (n := sent), ← hpaid]
    · refine ⟨rfl, ?_⟩
      have hbooks := poolUsdOut_pooledUsd hc₂
      unfold returnUnpaid at hside
      split_ifs at hside ⊢ with hshort
      · have hback := poolUsdIn_pooledUsd hside
        have hpart : out * sent / units env token out ≤ out := by
          apply Nat.div_le_of_le_mul
          rw [Nat.mul_comm]
          exact Nat.mul_le_mul_right out hshort.2.le
        dsimp only
        omega
      · cases hside
        dsimp only
        omega
    · rw [if_pos ⟨hpos, htoken⟩]
      exact bind_eq_ok.mpr ⟨c₂, hc₂, bind_eq_ok.mpr ⟨_, hwant, congrArg Except.ok hdelivered⟩⟩

end

section

variable {env : Env} {r : Core → Shelf} {c c' : Core} {v v' : State} {who seller token : Address}
variable {amount out sats floor consumed pooled px : ℕ}

theorem recordFee_retains {usd native} (h : recordFee v usd native = .ok v') :
    v'.core.feesRetained = v.core.feesRetained + usd ∧ v'.core.pooledUsd = v.core.pooledUsd + usd ∧
      (v.core.pooledUsd < 2 ^ 256 → v'.core.pooledUsd < 2 ^ 256) := by
  obtain ⟨kept, -, h⟩ := of_bind h
  split_ifs at h with h0
  · rw [← Except.ok.inj h, h0]
    exact ⟨rfl, rfl, id⟩
  · obtain ⟨retained, hretained, shares, -, inc, -, usdFees, -, h⟩ := of_bind₄ h
    obtain ⟨pooledUsd, hadd, h⟩ := of_bind h
    obtain ⟨hlt, hsum⟩ := add_eq_ok.mp hadd
    rw [← Except.ok.inj h, ← hsum]
    exact ⟨(add_eq_ok.mp hretained).2.symm, rfl, fun _ => hlt⟩

theorem quote_le (n p px : ℕ) : min n (p * 10 ^ 12 * 10 ^ 18 / px) * px / 10 ^ 18 / 10 ^ 12 ≤ p := by
  have hmost : min n (p * 10 ^ 12 * 10 ^ 18 / px) * px ≤ p * 10 ^ 12 * 10 ^ 18 :=
    (Nat.mul_le_mul_right px (min_le_right _ _)).trans (Nat.div_mul_le_self _ _)
  omega

theorem retainUsd_splits (h : retainUsd v amount = .ok (out, v')) :
    v'.core.feesRetained - v.core.feesRetained + out = amount := by
  obtain ⟨premium, hpremium, w, hw, h⟩ := of_bind₂ h
  cases h
  obtain ⟨-, rfl⟩ := fullMulDiv_eq_ok.mp hpremium
  have hle : amount * minSwapSkewWad / 10 ^ 18 ≤ amount := by
    apply Nat.div_le_of_le_mul
    rw [Nat.mul_comm]
    exact Nat.mul_le_mul_right amount (by decide)
  rw [(recordFee_retains hw).1, Nat.add_sub_cancel_left]
  exact Nat.add_sub_of_le hle

variable {s : Shelf} {backed : Core → Bool}

theorem creditSwapIn_pays (hweth : token ≠ s.weth) (htoken : token ≠ 0) (hsats : sats ≠ 0)
    (hpool : v.core.pooledUsd < 2 ^ 256)
    (h : creditSwapIn (env.withShelf (shelfAt s backed)) v seller sats token floor = .ok (consumed, v')) :
    swapInPays env (shelfAt s backed) v seller sats token = shelfPays env s seller token (swapInQuote env v sats) := by
  obtain ⟨h0, -⟩ | ⟨px, v₁, amount, v₂, delivered, used, core, h₁, h₂, hroute, -, -, -⟩ := creditSwapIn_eq h
  · exact absurd h0 hsats
  obtain ⟨most, hmost, hroute⟩ := of_bind hroute
  have hpayout : swapInPayout env (shelfAt s backed) v seller sats token = .ok
      (if min amount most = 0 then 0 else swapPays env (shelfAt s backed) v₂.core seller token (min amount most)) := by
    refine bind_eq_ok.mpr ⟨(px, v₁), h₁, bind_eq_ok.mpr ⟨(amount, v₂), h₂, ?_⟩⟩
    exact bind_eq_ok.mpr ⟨most, hmost, rfl⟩
  rw [swapInPays, hpayout]
  obtain ⟨⟨-, hprice⟩, x, y, rfl⟩ := rebalance_eq h₁
  obtain rfl : px = env.price := hprice
  obtain ⟨premium, hpremium, usd, -, w, hfee, h₂⟩ := of_bind₃ h₂
  obtain ⟨-, rfl⟩ := fullMulDiv_eq_ok.mp hpremium
  obtain ⟨rfl, hw⟩ := ok_pair_inj h₂
  rw [hw] at hfee
  obtain ⟨-, hadd, hfits⟩ := recordFee_retains hfee
  obtain ⟨-, rfl⟩ := convert_toVol (by simpa [htoken] using hmost)
  change v₂.core.pooledUsd = v.core.pooledUsd + usd at hadd
  have hquote : swapInQuote env v sats = swapQuote env v₂.core (min (sats - sats * minSwapSkewWad / 10 ^ 18)
      (v.core.pooledUsd * 10 ^ 12 * 10 ^ 18 / env.price)) :=
    (min_eq_left ((quote_le _ _ _).trans (hadd.ge.trans' (Nat.le_add_right _ _)))).symm
  rw [hquote]
  dsimp only at hroute ⊢
  split_ifs at hroute ⊢ with hnone
  · rw [hnone, swapQuote, Nat.zero_mul]
    simp [shelfPays]
  · obtain ⟨⟨out, c'⟩, hswap, -⟩ := of_bind hroute
    obtain ⟨hout, hpays, -⟩ := swap_payment (hfits hpool) hweth htoken hswap
    rw [hpays, hout]

end

section

variable {env : Env} {r : Core → Shelf} {v v' : State} {swapper token : Address}
variable {n amount usdAmount minSats sats usd6 : ℕ} {a : SwapOutAccount}

theorem scaleTo6_eq (hd : env.decimals token ≤ 18) (h : scaleTo6 env n token = .ok amount) :
    amount * 10 ^ 12 ≤ n * 10 ^ (18 - env.decimals token) ∧
      n * 10 ^ (18 - env.decimals token) < (amount + 1) * 10 ^ 12 := by
  unfold scaleTo6 at h
  dsimp only at h
  generalize env.decimals token = d at hd h
  split_ifs at h with h6
  · cases h
    have hpow : 10 ^ 12 = 10 ^ (d - 6) * 10 ^ (18 - d) := by
      rw [← Nat.pow_add]
      congr 1
      omega
    rw [hpow, ← Nat.mul_assoc, ← Nat.mul_assoc]
    constructor
    · exact Nat.mul_le_mul_right _ (Nat.div_mul_le_self n _)
    · apply Nat.mul_lt_mul_of_pos_right _ (Nat.pow_pos (by decide))
      rw [Nat.mul_comm]
      exact Nat.lt_mul_div_succ n (Nat.pow_pos (by decide))
  · obtain ⟨-, rfl⟩ := mul_eq_ok.mp h
    have hpow : 10 ^ (18 - d) = 10 ^ (6 - d) * 10 ^ 12 := by
      rw [← Nat.pow_add]
      congr 1
      omega
    rw [hpow, ← Nat.mul_assoc]
    omega

theorem creditSwapOut_account (hd : env.decimals token ≤ 18) (hsats : sats ≠ 0)
    (ha : swapOutAccount env r v swapper token usdAmount = .ok a)
    (h : creditSwapOut (env.withShelf r) v swapper token usdAmount minSats = .ok (sats, usd6, v')) :
    (a.premium + usd6 + a.unfilled) * 10 ^ 12 ≤ a.deposited ∧
      a.deposited < (a.premium + usd6 + a.unfilled + 1) * 10 ^ 12 := by
  obtain ⟨h0, -, -⟩ |
    ⟨deposited, amount6, px, v₁, amount, v₂, used, core, hdep, hscale, h₁, h₂, hroute, husd6, -⟩ := creditSwapOut_eq h
  · exact absurd h0 hsats
  have hacc : swapOutAccount env r v swapper token usdAmount = .ok _ :=
    bind_eq_ok.mpr ⟨deposited, hdep, bind_eq_ok.mpr ⟨amount6, hscale,
      bind_eq_ok.mpr ⟨(px, v₁), h₁, bind_eq_ok.mpr ⟨(amount, v₂), h₂,
        bind_eq_ok.mpr ⟨(sats, used, core), hroute, rfl⟩⟩⟩⟩⟩
  obtain rfl := ok_unique ha hacc
  have hused := (routeSwap_usd (retainUsd_pooled h₂) (rebalance_eq h₁).1.2 hroute).1
  have hsplit := retainUsd_splits h₂
  have hparts : v₂.core.feesRetained - v₁.core.feesRetained + usd6 + (amount - used) = amount6 := by
    rw [husd6, Nat.min_eq_right hused]
    omega
  have hscaled := scaleTo6_eq hd hscale
  dsimp only
  rw [hparts]
  exact hscaled

theorem SwapOutAccount.even_cases {d} (hrefund : a.refunded = a.unfilled * 10 ^ (18 - d))
    (hle : (a.premium + usd6 + a.unfilled) * 10 ^ 12 ≤ a.deposited)
    (hlt : a.deposited < (a.premium + usd6 + a.unfilled + 1) * 10 ^ 12) :
    (d = 6 ∨ a.unfilled = 0 → a.Even usd6) ∧ (a.Even usd6 → d = 6 ∨ a.unfilled ≤ 1) := by
  unfold SwapOutAccount.Even
  rw [hrefund]
  constructor
  · rintro (rfl | hfilled)
    · omega
    · rw [hfilled] at hle hlt ⊢
      omega
  · rintro ⟨hfar, hnear⟩
    by_contra hne
    obtain ⟨h6, hmore⟩ := not_or.mp hne
    -- a token unit is worth at most a tenth, or at least ten times, of a unit of 6 decimals
    rcases Nat.lt_or_gt_of_ne h6 with hless | hmany
    · have hunit : 10 ^ 13 ≤ 10 ^ (18 - d) := Nat.pow_le_pow_right (by decide) (by omega)
      have hmul := Nat.mul_le_mul_left a.unfilled hunit
      omega
    · have hunit : 10 ^ (18 - d) ≤ 10 ^ 11 := Nat.pow_le_pow_right (by decide) (by omega)
      have hmul := Nat.mul_le_mul_left a.unfilled hunit
      omega

end

theorem debit_iff {q v w d : ℕ} (hnone : q = 0 → v = 0) (hw : w ≤ q * 10 ^ 12) (hless : d < 18 → w ≤ q * 10 ^ 11)
    (hall : d = 18 → w = q * 10 ^ 12) (hd : d ≤ 18) : (if w ≠ 0 ∧ v < w then q * v / w else q) = q * v / (q * 10 ^ 12) ↔
      q * 10 ^ 12 ≤ v ∧ v < (q + 1) * 10 ^ 12 ∨ d = 18 ∧ v ≤ q * 10 ^ 12 ∨ v < w ∧ q * v < w := by
  rcases Nat.eq_zero_or_pos q with rfl | hq
  · simp [hnone rfl]
  rw [Nat.mul_div_mul_left _ _ hq]
  split_ifs with hshort
  · obtain ⟨hpos, hlt⟩ := hshort
    by_cases h18 : d = 18
    · rw [hall h18, Nat.mul_div_mul_left _ _ hq]
      exact iff_of_true rfl (.inr (.inl ⟨h18, hlt.le.trans hw⟩))
    · have hunits := hless (by omega)
      have hnear : q * v < w ↔ q * v / w = 0 := by
        rw [Nat.div_eq_zero_iff_lt (Nat.pos_of_ne_zero hpos)]
      -- below 18 decimals the debit is at least ten times what was delivered
      have hfar : v / 10 ^ 11 ≤ q * v / w := by
        rw [← Nat.mul_div_mul_left v (10 ^ 11) hq]
        exact Nat.div_le_div_left hunits (Nat.pos_of_ne_zero hpos)
      have hsmall : q * v < w → v < 10 ^ 11 := fun h => Nat.lt_of_mul_lt_mul_left (h.trans_le hunits)
      omega
  · omega

/-- A swap debits the pool by what was delivered exactly where all was, or where the stable has 18 decimals and no more
than all was; or where what was delivered, in the unit of the token, is less than a unit of the request. -/
theorem swap_debits_delivered_iff (env : Env) (s : Shelf) (backed : Core → Bool) (c c' : Core) (who token : Address)
    (amount out : ℕ) (hpool : c.pooledUsd < 2 ^ 256) (hweth : token ≠ s.weth) (htoken : token ≠ 0)
    (hd : env.decimals token ≤ 18)
    (h : swap (env.withShelf (shelfAt s backed)) c who false token amount = .ok (out, c')) :
    (c'.pooledUsd + out * swapPays env (shelfAt s backed) c who token amount / (out * 10 ^ 12) = c.pooledUsd) ↔
      let asked := swapQuote env c amount
      let value := shelfPays env s who token asked
      asked * 10 ^ 12 ≤ value ∧ value < (asked + 1) * 10 ^ 12 ∨
        env.decimals token = 18 ∧ value ≤ asked * 10 ^ 12 ∨
        value < units env token asked ∧ asked * value < units env token asked := by
  obtain ⟨rfl, hpays, hdebit⟩ := swap_payment hpool hweth htoken h
  have hiff := debit_iff (q := swapQuote env c amount) (v := shelfPays env s who token (swapQuote env c amount))
    (w := units env token (swapQuote env c amount)) (fun h0 => if_pos h0) (units_le hd)
    (fun hlt => units_le (by omega)) (fun hall => by rw [units, hall]; rfl) hd
  rw [hpays, ← hiff]
  omega

def oneStable (token : Address) (held : ℕ) : Shelf where
  weth := 100
  quid := 101
  stables := [token]
  toIndex _ := 1
  decimals _ := 6
  depegSeverityBps _ := 0
  amounts i := if i = 1 ∨ i = 15 then 10 ^ 24 else 0
  withdrawSelf _ n _ := some (min n held)
  backed := true

def deepStable (token : Address) : Shelf := { oneStable token 0 with withdrawSelf := fun _ n _ => some n }

def poolCore : Core := ⟨0, 10 ^ 9, 10 ^ 8, 0, 0, 0, 0, 0⟩

theorem swap_debits_delivered_half : let env := { quietEnv with decimals := fun _ => 18 }
    let s := oneStable 3 (5 * 10 ^ 19)
    ∃ c', swap (env.withShelf (shelfAt s fun _ => true)) poolCore 5 false 3 100000 =
        .ok (10 ^ 8, c') ∧
      shelfPays env s 5 3 (10 ^ 8) = 5 * 10 ^ 19 ∧
      c'.pooledUsd + 10 ^ 8 * swapPays env (shelfAt s fun _ => true) poolCore 5 3 100000 /
        (10 ^ 8 * 10 ^ 12) = poolCore.pooledUsd := by
  intro env s
  obtain ⟨c', hswap, hpays⟩ : ∃ c', swap (env.withShelf (shelfAt s fun _ => true)) poolCore 5 false
      3 100000 = .ok (10 ^ 8, c') ∧
        shelfPays env s 5 3 (10 ^ 8) = 5 * 10 ^ 19 := by decide +kernel
  refine ⟨c', hswap, hpays, ?_⟩
  exact (swap_debits_delivered_iff env s _ poolCore c' _ _ _ _ (by decide) (by decide) (by decide) le_rfl hswap).mpr
    (.inr (.inl ⟨rfl, by decide +kernel⟩))

theorem swap_debits_undelivered : let r := fun _ => oneStable 3 (5 * 10 ^ 7)
    ∃ c', swap (quietEnv.withShelf r) poolCore 5 false 3 100000 = .ok (10 ^ 8, c') ∧
      swapPays quietEnv r poolCore 5 3 100000 = 5 * 10 ^ 19 ∧
      poolCore.pooledUsd - c'.pooledUsd = 10 ^ 8 ∧ 10 ^ 8 * (5 * 10 ^ 19) / (10 ^ 8 * 10 ^ 12) = 5 * 10 ^ 7 := by
  decide +kernel

end QuidProtocol.Vault
