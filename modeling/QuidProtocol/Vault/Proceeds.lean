import QuidProtocol.Vault.Steps

/-!
The dollars of the core, lent or waiting for a delivery, against all that it pools.
The two ranges under one basket.
-/

namespace QuidProtocol.Vault

open Lib Function
open Basket (Address)

def Core.Funded (c : Core) : Prop := c.basketUsd + c.pendingSwapOutUsd ≤ c.pooledUsd

def Core.Covers (c : Core) (u : ℕ) : Prop :=
  u ≤ c.basketUsd ∨ u + c.pendingSwapOutUsd ≤ c.pooledUsd ∨ c.pendingSwapOutUsd = 0
  deriving Decidable

structure Draws (P : Prop) (u : ℕ) (c c' : Core) : Prop where
  pending : c'.pendingSwapOutUsd + u = c.pendingSwapOutUsd
  funded : P → c.Funded → c'.Funded

section

variable {P Q : Prop} {u w : ℕ} {c c' c'' : Core}

theorem Draws.refl (c : Core) : Draws P 0 c c := ⟨rfl, fun _ => id⟩

theorem Draws.trans (h : Draws P u c c') (h' : Draws P w c' c'') : Draws P (u + w) c c'' := by
  refine ⟨?_, fun hP hfunded => h'.funded hP (h.funded hP hfunded)⟩
  have := h.pending
  have := h'.pending
  omega

theorem Draws.andThen (h : Draws P 0 c c') (h' : Draws P u c' c'') : Draws P u c c'' := by
  have := h.trans h'
  rwa [Nat.zero_add] at this

theorem Draws.weaken (h : Draws Q u c c') (hPQ : P → Q) : Draws P u c c' := ⟨h.pending, fun hP => h.funded (hPQ hP)⟩

theorem Draws.burn {n x y : ℕ} {leg : Bool} (h : P → c.Covers u) : Draws P 0 c { c with
      pooledUsd := c.pooledUsd - u + n
      basketUsd := c.basketUsd - u + (if leg then n else 0)
      committedOf := x
      pooled := y } := by
  refine ⟨rfl, fun hP hfunded => ?_⟩
  have hcovers := h hP
  unfold Core.Covers at hcovers
  unfold Core.Funded at hfunded ⊢
  dsimp only
  split_ifs <;> omega

end

theorem int256_toNat_le (x : ℕ) : (int256 x).toNat ≤ x := by
  have hmod : (x : ℤ) % ((2 ^ 256 : ℕ) : ℤ) = ((x % 2 ^ 256 : ℕ) : ℤ) := (Int.natCast_mod x _).symm
  have hle := Nat.mod_le x (2 ^ 256)
  unfold int256 Int.bmod
  rw [hmod]
  dsimp only
  split_ifs <;> omega

theorem int256_of_lt {x} (h : x < 2 ^ 255) : int256 x = x := by
  have hmod : (x : ℤ) % ((2 ^ 256 : ℕ) : ℤ) = x := by rw [← Int.natCast_mod, Nat.mod_eq_of_lt (h.trans (by decide))]
  unfold int256 Int.bmod
  rw [hmod]
  dsimp only
  split_ifs <;> omega

theorem neg_eq_ok {x y} : neg x = .ok y ↔ x ≠ -2 ^ 255 ∧ -x = y := by simp [neg, bind_eq_ok, require_eq_ok]

section

variable {env : Env} {P : Prop} {c c' : Core} {u : ℕ} {who token : Address} {leg keep : Bool} {usd : ℤ}

theorem reportEquity_eq (h : reportEquity env c = .ok c') : ∃ x, c' = { c with committedOf := x } := by
  obtain ⟨equity, -, h⟩ := of_bind h
  exact ⟨equity, ok_inj h⟩

theorem poolUsdIn_eq (h : poolUsdIn env c u leg = .ok c') : ∃ x, c' = { c with
    pooledUsd := c.pooledUsd + u
    basketUsd := c.basketUsd + (if leg then u else 0)
    committedOf := x } := by
  obtain ⟨-, h⟩ := of_checkedAdd h
  obtain ⟨-, h⟩ := of_checkedAdd h
  obtain ⟨c₁, hc₁, committed, -, v, -, h⟩ := of_bind₃ h
  cases h
  exact reportEquity_eq hc₁

theorem returnUnpaid_eq {want sent} (h : returnUnpaid env c u want sent leg = .ok c') : ∃ n x, c' = { c with
      pooledUsd := c.pooledUsd + n
      basketUsd := c.basketUsd + (if leg then n else 0)
      committedOf := x } := by
  unfold returnUnpaid at h
  split_ifs at h
  · obtain ⟨x, rfl⟩ := poolUsdIn_eq h
    exact ⟨_, x, rfl⟩
  · cases h
    exact ⟨0, c.committedOf, by simp⟩

theorem payUsd_eq (h : payUsd env c u keep who token leg = .ok c') : ∃ n x, c' = { c with
    pooledUsd := c.pooledUsd + n
    basketUsd := c.basketUsd + (if leg then n else 0)
    committedOf := x } := by
  unfold payUsd at h
  split_ifs at h
  · obtain ⟨want, -, sent, -, h⟩ := of_bind₂ h
    exact returnUnpaid_eq h
  · cases h
    exact ⟨0, c.committedOf, by simp⟩

theorem settleUsdSide_eq (h : settleUsdSide env c usd keep who token leg = .ok c') :
    ∃ n x, (usd ≤ 0 → n = (-usd).toNat) ∧ c' = { c with
      pooledUsd := c.pooledUsd - usd.toNat + n
      basketUsd := c.basketUsd - usd.toNat + (if leg then n else 0)
      committedOf := x } := by
  unfold settleUsdSide at h
  split_ifs at h with hpos hneg
  · obtain ⟨c₁, hc₁, h⟩ := of_bind h
    obtain ⟨y, rfl⟩ := reportEquity_eq hc₁
    obtain ⟨n, x, rfl⟩ := payUsd_eq h
    exact ⟨n, x, fun hle => absurd hpos (not_lt.mpr hle), rfl⟩
  · obtain ⟨amount, hamount, h⟩ := of_bind h
    obtain ⟨-, rfl⟩ := neg_eq_ok.mp hamount
    obtain ⟨x, rfl⟩ := poolUsdIn_eq h
    refine ⟨_, x, fun _ => rfl, ?_⟩
    rw [Int.toNat_of_nonpos hneg.le, Nat.sub_zero, Nat.sub_zero]
  · cases h
    have hzero : usd = 0 := by omega
    subst hzero
    exact ⟨0, c.committedOf, fun _ => rfl, by simp⟩

theorem settleVolSide_eq {vol} (h : settleVolSide c vol = .ok c') : ∃ y, c' = { c with pooled := y } := by
  unfold settleVolSide at h
  split_ifs at h
  · exact ⟨_, ok_inj h⟩
  · obtain ⟨amount, -, pooled, -, h⟩ := of_bind₂ h
    exact ⟨pooled, ok_inj h⟩
  · exact ⟨c.pooled, ok_inj h⟩

theorem handleDelta_eq {d} (h : handleDelta env c d keep who token leg = .ok c') :
    ∃ n x y, (d.usd ≤ 0 → n = (-d.usd).toNat) ∧ c' = { c with
      pooledUsd := c.pooledUsd - d.usd.toNat + n
      basketUsd := c.basketUsd - d.usd.toNat + (if leg then n else 0)
      committedOf := x
      pooled := y } := by
  obtain ⟨c₁, hc₁, h⟩ := of_bind h
  obtain ⟨n, x, hn, rfl⟩ := settleUsdSide_eq hc₁
  obtain ⟨y, rfl⟩ := settleVolSide_eq h
  exact ⟨n, x, y, hn, rfl⟩

theorem modLP_draws {delta} (hu : P → c.Covers usd.toNat)
    (h : modLP env c delta usd who = .ok c') : Draws P 0 c c' := by
  obtain ⟨n, x, y, -, rfl⟩ := handleDelta_eq h
  exact Draws.burn hu

structure Drawn (c : Core) (u : ℕ) (c' : Core) : Prop where
  pooled : u ≤ c.pooledUsd
  pending : u ≤ c.pendingSwapOutUsd
  eq : c' = { c with pooledUsd := c.pooledUsd - u, pendingSwapOutUsd := c.pendingSwapOutUsd - u }

theorem Drawn.none (c : Core) : Drawn c 0 c := ⟨Nat.zero_le _, Nat.zero_le _, rfl⟩

theorem drawn_of {c₁} (h : drawPooledUsdBtc c u = .ok c₁) (h' : subPendingSwapOut c₁ u = .ok c') : Drawn c u c' := by
  obtain ⟨hle, h⟩ := of_checkedSub h
  cases h
  obtain ⟨hle', h'⟩ := of_checkedSub h'
  exact ⟨hle, hle', ok_inj h'⟩

theorem Drawn.draws (h : Drawn c u c') : Draws P u c c' := by
  have hpooled := h.pooled
  have hpending := h.pending
  rw [h.eq]
  refine ⟨Nat.sub_add_cancel hpending, fun _ hfunded => ?_⟩
  unfold Core.Funded at hfunded ⊢
  dsimp only
  omega

theorem burnInRange_draws {amount} (h : burnInRange env c amount = .ok c') : Draws P 0 c c' := by
  unfold burnInRange at h
  dsimp only at h
  split_ifs at h with h0
  · cases h
    exact Draws.refl c
  · obtain ⟨price, -, usdOut, hout, h⟩ := of_bind₂ h
    obtain ⟨-, rfl⟩ := fullMulDiv_eq_ok.mp hout
    refine modLP_draws (fun _ => Or.inl ?_) h
    calc _ ≤ c.basketUsd * min amount c.pooled / c.pooled := int256_toNat_le _
      _ ≤ c.basketUsd := by
        apply Nat.div_le_of_le_mul
        rw [Nat.mul_comm c.pooled]
        exact Nat.mul_le_mul_left _ (Nat.min_le_right _ _)

end

section

variable {env : Env} {P : Prop} {v v' : State} {c : Core} {lp : Address} {n k price : ℕ}

variable {x tok usd p added : ℕ}

theorem fullMulDiv_lt {a b d} (h : fullMulDiv a b d = .ok x) : x < 2 ^ 256 := by
  obtain ⟨hlt, rfl⟩ := fullMulDiv_eq_ok.mp h
  exact hlt.2

theorem sizeBySurplus_lt {liquid committed}
    (h : sizeBySurplus liquid committed n price = .ok (tok, usd)) : usd < 2 ^ 256 := by
  obtain ⟨target, htarget, h⟩ := of_bind h
  have htarget := fullMulDiv_lt htarget
  split_ifs at h with hlt
  · obtain ⟨out, -, h⟩ := of_bind h
    cases h
    exact hlt.trans htarget
  · cases h
    exact htarget

theorem clampTarget_lt {target capped} (h : clampTarget tok target capped price = .ok usd)
    (htarget : target < 2 ^ 256) : usd < 2 ^ 256 := by
  unfold clampTarget at h
  split_ifs at h
  · exact fullMulDiv_lt h
  · cases h
    exact htarget

theorem addLiqBody_lt {want backing} (h : addLiqBody env c want price backing = .ok (usd, tok)) : usd < 2 ^ 255 := by
  obtain ⟨committed, -, h⟩ := of_bind h
  dsimp only at h
  split_ifs at h
  · cases h
    decide
  · obtain ⟨⟨deltaTok, target⟩, hsize, clamped, hclamp, h⟩ := of_bind₂ h
    have hlt := clampTarget_lt hclamp (sizeBySurplus_lt hsize)
    split_ifs at h
    · cases h
      decide
    · cases h
      omega

theorem addLiqChannel_lt (h : addLiqChannel env v n price = .ok (usd, tok)) : usd < 2 ^ 255 := by
  obtain ⟨held, -, backing, -, h⟩ := of_bind₂ h
  exact addLiqBody_lt h

theorem pairLegs_draws (hk : k < 2 ^ 255) (h : pairLegs env v n k lp = .ok v') : Draws P 0 v.core v'.core := by
  obtain ⟨tok, -, usd, husd, core, hcore, h⟩ := of_bind₃ h
  cases h
  obtain ⟨-, rfl⟩ := neg_eq_ok.mp husd
  refine modLP_draws (fun _ => Or.inl ?_) hcore
  rw [int256_of_lt hk]
  omega

theorem rebalance_core (h : rebalance env v = .ok (p, v')) : ∃ x, v'.core = { v.core with rangeAnchor := x } := by
  obtain ⟨-, x, y, rfl⟩ := rebalance_eq h
  exact ⟨x, rfl⟩

theorem rebalance_draws (h : rebalance env v = .ok (p, v')) : Draws P 0 v.core v'.core := by
  obtain ⟨x, hx⟩ := rebalance_core h
  rw [hx]
  exact ⟨rfl, fun _ => id⟩

theorem settleLp_core {payTo} (h : settleLp env v lp payTo = .ok v') : v'.core = v.core := by
  obtain ⟨d, -, rfl⟩ := settleLp_eq h
  rfl

theorem addPooled_core (h : addPooled v lp n = .ok v') : v'.core = v.core := by
  obtain ⟨d, -, rfl⟩ := addPooled_eq h
  rfl

theorem pairRegLeg_draws (hk : k < 2 ^ 255) (h : pairRegLeg env v lp n k = .ok v') : Draws P 0 v.core v'.core := by
  unfold pairRegLeg at h
  split_ifs at h
  · cases h
    exact .refl _
  · obtain ⟨w, hw, h⟩ := of_bind h
    rw [← addPooled_core hw]
    exact pairLegs_draws hk h

theorem addUnpaired_core (h : addUnpaired v lp n = .ok v') : v'.core = v.core := by
  unfold addUnpaired at h
  split_ifs at h
  · rw [Except.ok.inj h]
  · exact addPooled_core h

theorem requestDeposit_draws (h : requestDeposit env v lp n = .ok v') : Draws P 0 v.core v'.core := by
  obtain ⟨-, rfl⟩ | ⟨px, v₁, v₂, price, usd, btc, v₃, v₄, h₁, h₂, hliq, h₃, -, h₄, rfl⟩ := requestDeposit_eq h
  · exact .refl _
  · have hpaired : Draws P 0 v₂.core v₃.core := pairRegLeg_draws (addLiqChannel_lt hliq) h₃
    rw [settleLp_core h₂] at hpaired
    change Draws P 0 v.core v₄.core
    rw [addUnpaired_core h₄]
    exact (rebalance_draws h₁).andThen hpaired

def levBurned (v : State) (lp : Address) : ℕ :=
  let gross := min (v.levPooled lp) (v.autoManaged lp).pooled + v.levBuf lp
  if gross = 0 then 0
  else
    match levBurnUsd v lp gross with
    | .ok usd => (int256 usd).toNat
    | .error _ => 0

def BurnCovered (v : State) (lp : Address) : Prop := v.core.Covers (levBurned v lp)
  deriving Decidable

theorem BurnCovered.congr {w} (h : BurnCovered v lp) (hlev : w.levPooled = v.levPooled)
    (hbuf : w.levBuf = v.levBuf) (husd : w.levBufferUsd = v.levBufferUsd)
    (hpooled : (w.autoManaged lp).pooled = (v.autoManaged lp).pooled)
    (hcore : w.core = { v.core with rangeAnchor := x }) : BurnCovered w lp := by
  simp only [BurnCovered, Core.Covers, levBurned, levBurnUsd, hlev, hbuf, husd, hpooled, hcore] at h ⊢
  exact h

theorem levBurnAll_draws {burned} (h : levBurnAll env v lp = .ok (burned, v')) :
    Draws (BurnCovered v lp) 0 v.core v'.core := by
  obtain ⟨-, -, rfl⟩ | ⟨usdOut, core, h0, husd, hcore, -, hw⟩ := levBurnAll_eq rfl h
  · exact .refl _
  · obtain ⟨d, -, rfl⟩ := rebook_eq hw
    have hburned : levBurned v lp = (int256 usdOut).toNat := by
      simp only [levBurned]
      rw [if_neg h0, husd]
    refine modLP_draws ?_ hcore
    rw [← hburned]
    exact id

theorem levAddNet_draws (h : levAddNet env v lp n price = .ok (added, v')) : Draws P 0 v.core v'.core := by
  obtain ⟨-, rfl⟩ | ⟨netUsd, w, hliq, hw, hu⟩ := levAddNet_eq h
  · exact .refl _
  · have hpaired := pairLegs_draws (P := P) (addLiqChannel_lt hliq) hu
    change Draws P 0 w.core v'.core at hpaired
    rwa [addPooled_core hw] at hpaired

theorem capBufferUsd_lt {base debt} (h : capBufferUsd base price debt = .ok usd) : usd < 2 ^ 255 := by
  obtain ⟨hlt, h⟩ := of_checkedMul h
  cases h
  have hsmall : base * price / wad ≤ base * price := Nat.div_le_self _ _
  omega

theorem levAddBufOver_draws {gross} (h : levAddBufOver env v lp gross n price = .ok (added, v')) :
    Draws P 0 v.core v'.core := by
  obtain ⟨-, rfl⟩ | ⟨bufUsd, w, hcap, hw, hu⟩ := levAddBufOver_eq h
  · exact .refl _
  · obtain ⟨d, -, rfl⟩ := rebook_eq hw
    have hpaired := pairLegs_draws (P := P) (capBufferUsd_lt hcap) hu
    exact hpaired

theorem levAddGross_draws {added} (h : levAddGross env v lp n = .ok (added, v')) : Draws P 0 v.core v'.core := by
  obtain ⟨-, rfl⟩ | ⟨price, w, hw, hu⟩ := levAddGross_eq h
  · exact .refl _
  · exact (levAddNet_draws hw).andThen (levAddBufOver_draws hu)

def SyncCovered (env : Env) (v : State) (lp : Address) : Prop :=
  okAnd (levSyncState env v lp) id = true ∨ BurnCovered v lp
  deriving Decidable

theorem syncLev_draws (h : syncLev env v lp = .ok v') : Draws (SyncCovered env v lp) 0 v.core v'.core := by
  obtain ⟨-, rfl⟩ | ⟨px, v₁, v₂, burned, v₃, added, v₄, hsync, h₁, h₂, h₃, h₄, h⟩ := syncLev_eq h
  · exact .refl _
  · obtain ⟨-, -, rfl⟩ := applyDeltas_eq h
    have hburn := (levBurnAll_draws h₃).andThen (levAddGross_draws h₄)
    refine Draws.weaken (Draws.andThen (rebalance_draws h₁) ?_) (Q := BurnCovered v lp) ?_
    · have hcore := settleLp_core h₂
      rw [hcore] at hburn
      refine hburn.weaken fun hcovered => ?_
      -- only the anchors and the fees of the LP have moved before the burn
      obtain ⟨-, x, y, rfl⟩ := rebalance_eq h₁
      obtain ⟨d, hd, rfl⟩ := settleLp_eq h₂
      exact hcovered.congr rfl rfl rfl ((congrArg Deposit.pooled (State.setDeposit_same _ _ _)).trans hd) rfl
    · rintro (hin | hcovered)
      · rw [hsync] at hin
        cases hin
      · exact hcovered

end

inductive Range
  | eth
  | btc
  deriving DecidableEq

def Range.other : Range → Range
  | .eth => .btc
  | .btc => .eth

inductive CoreCall
  | modLP (delta deltaUSD : ℤ) (sender : Address)
  | settleOor (owner : Address) (usdDelta volDelta : ℤ)
  | swap (recipient : Address) (inputIsUsd : Bool) (token : Address) (amount : ℕ)
  | absorbPaidUsd (lpOwned6 : ℕ)
  | recordFee (premiumUsd premiumNative : ℕ)
  | refundUnfilled (token : Address) (amount : ℕ) (dest : Address)
  | drawPooledUsdBtc (usd6 : ℕ)
  | addPendingSwapOut (usd6 : ℕ)
  | subPendingSwapOut (usd6 : ℕ)
  | repack (anchorPrice : ℕ)

def execCore (env : Env) (c : Core) : CoreCall → Res Core
  | .modLP delta deltaUSD sender => modLP env c delta deltaUSD sender
  | .settleOor owner usdDelta volDelta => settleOor env c owner usdDelta volDelta
  | .swap recipient inputIsUsd token amount => do
    let (_, c) ← swap env c recipient inputIsUsd token amount
    .ok c
  | .absorbPaidUsd lpOwned6 => .ok (absorbPaidUsd c lpOwned6)
  | .recordFee premiumUsd premiumNative => recordFeeCore c premiumUsd premiumNative
  | .refundUnfilled token amount dest => do
    refundUnfilled env c token amount dest
    .ok c
  | .drawPooledUsdBtc usd6 => drawPooledUsdBtc c usd6
  | .addPendingSwapOut usd6 => addPendingSwapOut c usd6
  | .subPendingSwapOut usd6 => subPendingSwapOut c usd6
  | .repack anchorPrice => do
    let _ ← assetPrice env
    .ok (repackCore c anchorPrice)

abbrev Cores := Range → Core

def committedTotal (s : Cores) : ℕ := (s .eth).committedOf + (s .btc).committedOf

def equityUsd18 (debt : ℕ) (c : Core) : ℕ := c.basketUsd * 10 ^ 12 - debt

def coreEnv (debt : Range → ℕ) (s : Cores) (env : Env) (r : Range) : Env :=
  { env with committedElsewhere := (s r.other).committedOf, levDebtUsd18 := fun _ => debt r }

structure RangeCall where
  env : Env
  range : Range
  call : CoreCall

def stepCores (debt : Range → ℕ) (s : Cores) (c : RangeCall) : Res Cores := do
  let core ← execCore (coreEnv debt s c.env c.range) (s c.range) c.call
  .ok (update s c.range core)

def coresDeployed : Cores := fun _ => ⟨0, 0, 0, 0, 0, 0, 0, 0⟩

def Reports (debt : ℕ) (c : Core) : Prop := c.committedOf = equityUsd18 debt c

def Reported (debt : Range → ℕ) (s : Cores) : Prop := ∀ r, Reports (debt r) (s r)

def CoreCall.absorbed : CoreCall → Option ℕ
  | .absorbPaidUsd lpOwned6 => some lpOwned6
  | _ => none

/-- What is paid of the USD leg leaves the basket as much in the pool as it has lent to it, or the debt takes all of
both. -/
def AbsorbsNothing (debt : Range → ℕ) (s : Cores) (c : RangeCall) : Prop :=
  ∀ lpOwned6 ∈ c.call.absorbed, (s c.range).pooledUsd - lpOwned6 = (s c.range).basketUsd ∨
    max ((s c.range).pooledUsd - lpOwned6) (s c.range).basketUsd * 10 ^ 12 ≤ debt c.range

section

variable {env : Env} {c c' : Core} {d u : ℕ} {usd vol : ℤ} {keep leg : Bool} {who token : Address}

section

variable (hdebt : env.levDebtUsd18 = fun _ => d)

include hdebt

theorem reportEquity_reports (h : reportEquity env c = .ok c') : Reports d c' := by
  obtain ⟨equity, hequity, h⟩ := of_bind h
  obtain ⟨pooled18, hmul, hequity⟩ := of_bind hequity
  obtain ⟨-, hmul⟩ := mul_eq_ok.mp hmul
  cases h
  unfold Reports equityUsd18
  dsimp only
  rw [← Except.ok.inj hequity, ← hmul, hdebt]

theorem poolUsdIn_reports (h : poolUsdIn env c u leg = .ok c') : Reports d c' := by
  obtain ⟨pooledUsd, -, basketUsd, -, c₁, hc₁, committed, -, h⟩ := of_bind₄ h
  obtain ⟨-, h⟩ := of_require h
  cases h
  exact reportEquity_reports hdebt hc₁

theorem Reports.payUsd (hc : Reports d c) (h : payUsd env c u keep who token leg = .ok c') : Reports d c' := by
  unfold Vault.payUsd at h
  split_ifs at h
  · obtain ⟨want, -, sent, -, h⟩ := of_bind₂ h
    unfold returnUnpaid at h
    split_ifs at h
    · exact poolUsdIn_reports hdebt h
    · cases h
      exact hc
  · cases h
    exact hc

theorem Reports.handleDelta {δ : Delta} (hc : Reports d c)
    (h : handleDelta env c δ keep who token leg = .ok c') : Reports d c' := by
  obtain ⟨c₁, hc₁, h⟩ := of_bind h
  obtain ⟨y, rfl⟩ := settleVolSide_eq h
  suffices hr : Reports d c₁ from hr
  unfold settleUsdSide at hc₁
  split_ifs at hc₁
  · obtain ⟨c₂, hc₂, hc₁⟩ := of_bind hc₁
    exact (reportEquity_reports hdebt hc₂).payUsd hdebt hc₁
  · obtain ⟨amount, -, hc₁⟩ := of_bind hc₁
    exact poolUsdIn_reports hdebt hc₁
  · cases hc₁
    exact hc

end

theorem Reports.congr (hc : Reports d c) (hbasket : c'.basketUsd = c.basketUsd)
    (hcommitted : c'.committedOf = c.committedOf) : Reports d c' := by
  unfold Reports equityUsd18 at *
  rw [hcommitted, hbasket, hc]

theorem Reports.execCore {call} (hdebt : env.levDebtUsd18 = fun _ => d) (hc : Reports d c)
    (hcall : call.absorbed = none) (h : execCore env c call = .ok c') : Reports d c' := by
  cases call with
  | modLP delta deltaUSD sender | settleOor owner usdDelta volDelta => exact hc.handleDelta hdebt h
  | swap =>
    obtain ⟨⟨out, c₁⟩, hswap, h⟩ := of_bind h
    obtain ⟨px, -, ⟨delta, filled⟩, -, c₂, hc₂, hswap⟩ := of_bind₃ hswap
    rw [← Except.ok.inj h, ← (ok_pair_inj hswap).2]
    exact hc.handleDelta hdebt hc₂
  | absorbPaidUsd lpOwned6 => exact absurd hcall (Option.some_ne_none lpOwned6)
  | recordFee =>
    obtain ⟨native, -, h⟩ := of_bind h
    split_ifs at h
    · cases h
      exact hc.congr rfl rfl
    · obtain ⟨retained, -, pooledUsd, -, h⟩ := of_bind₂ h
      cases h
      exact hc.congr rfl rfl
  | refundUnfilled =>
    obtain ⟨refunded, -, h⟩ := of_bind h
    cases h
    exact hc
  | drawPooledUsdBtc =>
    obtain ⟨pooledUsd, -, h⟩ := of_bind h
    cases h
    exact hc.congr rfl rfl
  | addPendingSwapOut usd6 | subPendingSwapOut usd6 =>
    obtain ⟨pending, -, h⟩ := of_bind h
    cases h
    exact hc.congr rfl rfl
  | repack =>
    obtain ⟨px, -, h⟩ := of_bind h
    cases h
    exact hc.congr rfl rfl

theorem absorb_equity_iff : equityUsd18 d (absorbPaidUsd c u) = equityUsd18 d c ↔
    c.pooledUsd - u = c.basketUsd ∨ max (c.pooledUsd - u) c.basketUsd * 10 ^ 12 ≤ d := by
  unfold equityUsd18 absorbPaidUsd
  dsimp only
  omega

theorem CoreCall.eq_of_absorbed {call : CoreCall} {n : ℕ} (h : call.absorbed = some n) : call = .absorbPaidUsd n := by
  cases call <;> simp_all [CoreCall.absorbed]

end

section

variable {debt : Range → ℕ} {s s' : Cores} {c : RangeCall}

theorem stepCores_eq (h : stepCores debt s c = .ok s') :
    ∃ core, execCore (coreEnv debt s c.env c.range) (s c.range) c.call = .ok core ∧ s' = update s c.range core := by
  obtain ⟨core, hcore, h⟩ := of_bind h
  exact ⟨core, hcore, ok_inj h⟩

theorem Reported.update {r core} (h : Reported debt s) (hcore : Reports (debt r) core) :
    Reported debt (update s r core) := by
  intro r'
  by_cases hr : r' = r
  · subst hr
    rw [update_self]
    exact hcore
  · rw [update_of_ne hr]
    exact h r'

theorem Reported.step (h : Reported debt s) (hkept : AbsorbsNothing debt s c)
    (hok : stepCores debt s c = .ok s') : Reported debt s' := by
  obtain ⟨core, hcore, rfl⟩ := stepCores_eq hok
  apply h.update
  cases habsorbed : c.call.absorbed with
  | none => exact (h c.range).execCore rfl habsorbed hcore
  | some n =>
    have hsame := absorb_equity_iff.mpr (hkept n habsorbed)
    rw [CoreCall.eq_of_absorbed habsorbed] at hcore
    cases hcore
    exact (h c.range).trans hsame.symm

theorem Reported.broken (h : Reported debt s) (hkept : ¬ AbsorbsNothing debt s c)
    (hok : stepCores debt s c = .ok s') : ¬ Reported debt s' := by
  intro h'
  apply hkept
  intro n habsorbed
  obtain ⟨core, hcore, rfl⟩ := stepCores_eq hok
  have hreports := h' c.range
  rw [CoreCall.eq_of_absorbed habsorbed] at hcore
  rw [update_self, ← Except.ok.inj hcore] at hreports
  exact absorb_equity_iff.mp (hreports.symm.trans (h c.range))

theorem reported_deployed (debt : Range → ℕ) : Reported debt coresDeployed := by
  intro r
  simp [Reports, equityUsd18, coresDeployed]

theorem Reported.total (h : Reported debt s) :
    committedTotal s = equityUsd18 (debt .eth) (s .eth) + equityUsd18 (debt .btc) (s .btc) := by
  unfold committedTotal
  rw [h .eth, h .btc]

/-- The reports are right if and only if no payment of the USD leg moves the equity of its core. -/
theorem reported_iff_absorbs_nothing (debt : Range → ℕ) (cs : List RangeCall) (s' : Cores)
    (hrun : runAll (stepCores debt) coresDeployed cs = .ok s') : EveryState (stepCores debt) (fun s => Reported debt s ∧
      committedTotal s = equityUsd18 (debt .eth) (s .eth) + equityUsd18 (debt .btc) (s .btc)) coresDeployed cs ↔
    EveryStep (stepCores debt) (AbsorbsNothing debt) coresDeployed cs := by
  apply everyState_iff (Reported debt) ?_ ?_ ?_ (reported_deployed debt) hrun
  · intro s hs
    exact ⟨hs, hs.total⟩
  · intro s c s' hs hkept hok
    exact hs.step hkept hok
  · rintro s c s' hs hkept hok ⟨hreported, -⟩
    exact hs.broken hkept hok hreported

end

def etherEnv : Env := { quietEnv with price := 2 * 10 ^ 21 }

def usdLegRun : List RangeCall :=
  [⟨etherEnv, .eth, .modLP (-10 ^ 18) (-2 * 10 ^ 9) 5⟩,
   ⟨etherEnv, .eth, .swap 6 true 0 (10 ^ 9)⟩,
   ⟨etherEnv, .eth, .absorbPaidUsd 0⟩]

theorem reported_iff_absorbs_nothing_usdLegRun :
    ∃ s, runAll (stepCores fun _ => 0) coresDeployed (usdLegRun.take 2) = .ok s ∧ committedTotal s = 2 * 10 ^ 21 ∧
      (EveryState (stepCores fun _ => 0) (fun s => Reported (fun _ => 0) s ∧
        committedTotal s = equityUsd18 0 (s .eth) + equityUsd18 0 (s .btc)) coresDeployed (usdLegRun.take 2) ↔
      EveryStep (stepCores fun _ => 0) (AbsorbsNothing fun _ => 0) coresDeployed (usdLegRun.take 2)) := by
  obtain ⟨s, hs, htotal⟩ :
      ∃ s, runAll (stepCores fun _ => 0) coresDeployed (usdLegRun.take 2) = .ok s ∧ committedTotal s = 2 * 10 ^ 21 := by
    decide +kernel
  exact ⟨s, hs, htotal, reported_iff_absorbs_nothing _ _ s hs⟩

theorem usd_leg_not_reported : ∃ s, runAll (stepCores fun _ => 0) coresDeployed usdLegRun = .ok s ∧
    equityUsd18 0 (s .eth) = 3 * 10 ^ 21 ∧ (s .eth).committedOf = 2 * 10 ^ 21 ∧
    committedTotal s < equityUsd18 0 (s .eth) + equityUsd18 0 (s .btc) := by decide +kernel

end QuidProtocol.Vault
