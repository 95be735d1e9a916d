import QuidProtocol.Quid.Model
import QuidProtocol.Vault.Fees

/-!
What each function of the ether range leaves behind when it returns.
The shares of the ether range, with the total of what is levered.
-/

namespace QuidProtocol.Quid

open Lib Function
open Basket (Address)
open Vault (Core Deposit wad Book)

theorem sub_eq_ok {a b c} : sub a b = .ok c ↔ b ≤ a ∧ a - b = c := checkedSub_eq_ok

theorem shared_eq_ok {α : Type} {x : Vault.Res α} {a : α} : shared x = .ok a ↔ x = .ok a := mapError_eq_ok

theorem fullMulDiv_eq_ok {a b d c : ℕ} : fullMulDiv a b d = .ok c ↔ (d ≠ 0 ∧ a * b / d < 2 ^ 256) ∧ a * b / d = c :=
  shared_eq_ok.trans Vault.fullMulDiv_eq_ok

def State.retired (q : State) (lp : Address) (n : ℕ) (c : Core) : State :=
  { q.setDeposit lp { q.autoManaged lp with pooled := (q.autoManaged lp).pooled - n } with
    core := c
    lpShares := q.lpShares - n }

section

variable (q : State) {lp a : Address} (d : Deposit) (n m : ℕ) (c c' : Core)

theorem State.setDeposit_same : (q.setDeposit lp d).autoManaged lp = d := Vault.State.setDeposit_same q.toState lp d

theorem State.retired_zero : q.retired lp 0 c = { q with core := c } := by
  simp [State.retired, State.setDeposit, Vault.State.setDeposit]

theorem State.retired_retired : (q.retired lp n c).retired lp m c' = q.retired lp (n + m) c' := by
  simp [State.retired, State.setDeposit, Vault.State.setDeposit, Nat.sub_sub]

theorem State.retired_pooled : ((q.retired lp n c).autoManaged lp).pooled = (q.autoManaged lp).pooled - n := by
  rw [State.retired]
  exact congrArg Deposit.pooled (q.setDeposit_same _)

end

section

variable {env : Env} {q q' : State} {lp recipient : Address} {n k p : ℕ}

theorem creditShares_eq (h : creditShares q lp n = .ok q') :
    q' = { q.setDeposit lp { q.autoManaged lp with pooled := (q.autoManaged lp).pooled + n } with
      lpShares := q.lpShares + n } := by
  obtain ⟨-, h⟩ := of_checkedAdd h
  obtain ⟨-, h⟩ := of_checkedAdd h
  have hq := Except.ok.inj h
  exact hq.symm

theorem debitShares_eq (h : debitShares q lp n = .ok q') :
    n ≤ (q.autoManaged lp).pooled ∧ n ≤ q.lpShares ∧ q' = q.retired lp n q.core := by
  obtain ⟨hle, h⟩ := of_checkedSub h
  obtain ⟨hle', h⟩ := of_checkedSub h
  have hq := Except.ok.inj h
  exact ⟨hle, hle', hq.symm⟩

theorem refreshBookmarks_eq (h : refreshBookmarks q lp = .ok q') : q' = q.setDeposit lp { q.autoManaged lp with
      feesUsd := ((q.autoManaged lp).pooled + q.levBuf lp) * q.usdFees / wad } := by
  obtain ⟨v, hv, h⟩ := of_bind h
  have hq := Except.ok.inj h
  rw [Vault.rebook_deposit (shared_eq_ok.mp hv)] at hq
  exact hq.symm

theorem pendingRewards_eq (h : pendingRewards q lp = .ok n) : n = q.fees.pending wad lp := by
  obtain ⟨-, h⟩ := of_checkedAdd h
  have hpending := shared_eq_ok.mp h
  by_cases hzero : (q.autoManaged lp).pooled + q.levBuf lp = 0
  · rw [Vault.pendingFor, if_pos hzero] at hpending
    cases hpending
    simp [FeeIndex.pending, FeeAccount.pending, Vault.State.fees, hzero]
  · exact Vault.pendingFor_eq hzero hpending

theorem rebalance_eq (h : rebalance env q = .ok q') :
    ∃ x y, q' = { q with core := { q.core with rangeAnchor := x }, rangeAnchor := y } := by
  obtain ⟨⟨px, v⟩, hv, h⟩ := of_bind h
  obtain ⟨-, x, y, rfl⟩ := Vault.rebalance_eq (shared_eq_ok.mp hv)
  exact ⟨x, y, ok_inj h⟩

theorem payFees_eq (h : payFees env q lp recipient n = .ok q') :
    q' = { q.setDeposit lp { q.autoManaged lp with usdOwed := 0 } with
      feesPaid := update q.feesPaid lp (q.feesPaid lp + n) } := by
  obtain ⟨minted, -, h⟩ := of_bind h
  exact ok_inj h

theorem settlePending_banks (h : settlePending env q lp 0 = .ok q') :
    q' = q.setDeposit lp { q.autoManaged lp with usdOwed := (q.autoManaged lp).usdOwed +
      if (q.autoManaged lp).pooled = 0 then 0 else q.fees.pending wad lp } := by
  unfold settlePending at h
  by_cases hempty : (q.autoManaged lp).pooled = 0
  · rw [if_pos hempty] at h ⊢
    cases h
    simp [State.setDeposit, Vault.State.setDeposit]
  · rw [if_neg hempty] at h ⊢
    obtain ⟨usdR, hpending, h⟩ := of_bind h
    rw [if_neg (not_not.mpr rfl)] at h
    obtain ⟨-, h⟩ := of_checkedAdd h
    have hq := Except.ok.inj h
    rw [← pendingRewards_eq hpending]
    exact hq.symm

theorem settlePending_pays (hrecipient : recipient ≠ 0) (hshares : (q.autoManaged lp).pooled ≠ 0)
    (h : settlePending env q lp recipient = .ok q') : q' = { q.setDeposit lp { q.autoManaged lp with usdOwed := 0 } with
      feesPaid := update q.feesPaid lp (q.feesPaid lp + q.fees.due wad lp) } := by
  unfold settlePending at h
  rw [if_neg hshares] at h
  obtain ⟨usdR, hpending, h⟩ := of_bind h
  rw [if_pos hrecipient] at h
  obtain ⟨-, h⟩ := of_checkedAdd h
  have hq := payFees_eq h
  have hdue : usdR + (q.autoManaged lp).usdOwed = q.fees.due wad lp := by
    rw [pendingRewards_eq hpending, Nat.add_comm]
    rfl
  rwa [hdue] at hq

theorem clearRecord_eq (h : clearRecord q lp = .ok q') :
    q.levBuf lp ≤ q.totalBuffer ∧ q' = { q.setDeposit lp ⟨0, 0, 0⟩ with
      levBuf := update q.levBuf lp 0
      totalBuffer := q.totalBuffer - q.levBuf lp } := by
  obtain ⟨hle, h⟩ := of_checkedSub h
  have hq := Except.ok.inj h
  exact ⟨hle, hq.symm⟩

theorem restartIfEmpty_autoManaged (q : State) : (restartIfEmpty q).autoManaged = q.autoManaged := by
  unfold restartIfEmpty
  split_ifs <;> rfl

theorem onExit_pooled (h : onExit q lp = .ok q') : (q'.autoManaged lp).pooled = (q.autoManaged lp).pooled := by
  unfold onExit at h
  split_ifs at h with hempty
  · obtain ⟨w, hw, h⟩ := of_bind h
    cases h
    obtain ⟨-, rfl⟩ := clearRecord_eq hw
    rw [restartIfEmpty_autoManaged]
    dsimp only
    rw [q.setDeposit_same, hempty]
  · obtain rfl := refreshBookmarks_eq h
    rw [q.setDeposit_same]

theorem settlePending_eq (h : settlePending env q lp recipient = .ok q') :
    ∃ d paid, q' = { q.setDeposit lp d with feesPaid := update q.feesPaid lp paid } ∧
      (d.pooled = (q.autoManaged lp).pooled ∧ d.feesUsd = (q.autoManaged lp).feesUsd) ∧
      q.feesPaid lp ≤ paid ∧ d.usdOwed + paid = (q.autoManaged lp).usdOwed + q.feesPaid lp +
        if (q.autoManaged lp).pooled = 0 then 0 else q.fees.pending wad lp := by
  by_cases hrecipient : recipient = 0
  · subst hrecipient
    refine ⟨{ q.autoManaged lp with usdOwed := (q.autoManaged lp).usdOwed +
      if (q.autoManaged lp).pooled = 0 then 0 else q.fees.pending wad lp }, q.feesPaid lp, ?_, ⟨rfl, rfl⟩,
      le_rfl, Nat.add_right_comm _ _ _⟩
    rw [update_eq_self]
    exact settlePending_banks h
  · by_cases hempty : (q.autoManaged lp).pooled = 0
    · rw [settlePending, if_pos hempty] at h
      cases h
      refine ⟨q.autoManaged lp, q.feesPaid lp, ?_, ⟨rfl, rfl⟩, le_rfl, ?_⟩
      · simp [State.setDeposit, Vault.State.setDeposit]
      · rw [if_pos hempty, Nat.add_zero]
    · refine ⟨_, _, settlePending_pays hrecipient hempty h, ⟨rfl, rfl⟩, Nat.le_add_right _ _, ?_⟩
      have hdue : q.fees.due wad lp = (q.autoManaged lp).usdOwed + q.fees.pending wad lp := rfl
      rw [if_neg hempty, hdue]
      dsimp only
      omega

theorem burnInRange_eq (h : burnInRange env q n recipient = .ok q') :
    ∃ c : Core, c.feesRetained = q.core.feesRetained ∧ q' = { q with core := c } := by
  obtain ⟨c, hc, u, -, h⟩ := of_bind₂ h
  exact ⟨c, Vault.burnInRange_feesRetained (shared_eq_ok.mp hc), ok_inj h⟩

theorem payUsdLeg_eq {incrPre denom claim} (h : payUsdLeg env q incrPre denom claim recipient = .ok (n, q')) :
    ∃ c : Core, c.feesRetained = q.core.feesRetained ∧ q' = { q with core := c } := by
  unfold payUsdLeg at h
  split_ifs at h
  · cases h
    exact ⟨q.core, rfl, rfl⟩
  · obtain ⟨owed, -, h⟩ := of_bind h
    split_ifs at h
    · cases h
      exact ⟨q.core, rfl, rfl⟩
    · obtain ⟨px, -, minted, -, lpOwned, -, owed18, -, h⟩ := of_bind₄ h
      obtain ⟨ethEquiv, -, h⟩ := of_bind h
      cases h
      exact ⟨Vault.absorbPaidUsd q.core lpOwned, rfl, rfl⟩

theorem burnAndDeliverUsdLeg_eq {claim} (h : burnAndDeliverUsdLeg env q n claim recipient = .ok (k, q')) :
    ∃ c : Core, c.feesRetained = q.core.feesRetained ∧ q' = { q with core := c } := by
  unfold burnAndDeliverUsdLeg at h
  split_ifs at h
  · cases h
    exact ⟨q.core, rfl, rfl⟩
  · obtain ⟨w, hw, denom, -, h⟩ := of_bind₂ h
    obtain ⟨c, hc, rfl⟩ := burnInRange_eq hw
    obtain ⟨c', hc', rfl⟩ := payUsdLeg_eq h
    exact ⟨c', hc'.trans hc, rfl⟩

theorem retireShares_eq {amount rest} (h : retireShares q lp amount n = .ok (rest, q')) :
    n + rest = amount ∧ n ≤ (q.autoManaged lp).pooled ∧ n ≤ q.lpShares ∧ q' = q.retired lp n q.core := by
  obtain ⟨w, hw, h⟩ := of_bind h
  obtain ⟨hle, h⟩ := of_checkedSub h
  cases h
  exact ⟨Nat.add_sub_cancel' hle, debitShares_eq hw⟩

end

structure Retires (q q' : State) (lp : Address) (n : ℕ) : Prop where
  pooled : n ≤ (q.autoManaged lp).pooled
  lpShares : n ≤ q.lpShares
  eq : ∃ c : Core, c.feesRetained = q.core.feesRetained ∧ q' = q.retired lp n c

section

variable {env : Env} {q q' q'' : State} {lp recipient : Address} {n k amount rest : ℕ}

theorem Retires.of_core {c} (hc : c.feesRetained = q.core.feesRetained) : Retires q { q with core := c } lp 0 :=
  ⟨Nat.zero_le _, Nat.zero_le _, c, hc, (q.retired_zero c).symm⟩

theorem Retires.trans (h : Retires q q' lp n) (h' : Retires q' q'' lp k) : Retires q q'' lp (n + k) := by
  obtain ⟨c, hc, rfl⟩ := h.eq
  obtain ⟨c', hc', rfl⟩ := h'.eq
  have hpooled := h'.pooled
  have hshares : k ≤ q.lpShares - n := h'.lpShares
  have hle := h.pooled
  have hle' := h.lpShares
  rw [q.retired_pooled] at hpooled
  exact ⟨by omega, by omega, c', hc'.trans hc, q.retired_retired n k c c'⟩

theorem Retires.retireShares (h : retireShares q lp amount n = .ok (rest, q')) :
    n + rest = amount ∧ Retires q q' lp n := by
  obtain ⟨hsum, hpooled, hshares, rfl⟩ := retireShares_eq h
  exact ⟨hsum, hpooled, hshares, q.core, rfl, rfl⟩

theorem Retires.after_core {c c' : Core} (hc : c.feesRetained = q.core.feesRetained)
    (hc' : c'.feesRetained = c.feesRetained) (h : Retires { q with core := c' } q' lp n) :
    Retires q q' lp n := by
  have hboth := (Retires.of_core (hc'.trans hc)).trans h
  rwa [Nat.zero_add] at hboth

theorem serveWithdraw_retires (h : serveWithdraw env q lp amount recipient = .ok (rest, q')) :
    ∃ n, n + rest = amount ∧ Retires q q' lp n := by
  unfold serveWithdraw at h
  split_ifs at h with hzero
  · cases h
    exact ⟨0, by omega, Retires.of_core rfl⟩
  · obtain ⟨served, -, h⟩ := of_bind h
    split_ifs at h with hserved
    · obtain ⟨w, hw, ⟨usdEq, u⟩, hu, h⟩ := of_bind₂ h
      obtain ⟨c, hc, rfl⟩ := burnInRange_eq hw
      obtain ⟨c', hc', rfl⟩ := payUsdLeg_eq hu
      obtain ⟨hsum, hretires⟩ := Retires.retireShares h
      exact ⟨served, hsum, Retires.after_core hc hc' hretires⟩
    · obtain ⟨⟨usdEq, w⟩, hw, h⟩ := of_bind h
      obtain ⟨c, hc, rfl⟩ := payUsdLeg_eq hw
      dsimp only at h
      split_ifs at h with heq
      · cases h
        exact ⟨0, by omega, Retires.of_core hc⟩
      · obtain ⟨u, hu, h⟩ := of_bind h
        obtain ⟨c', hc', rfl⟩ := burnInRange_eq hu
        obtain ⟨hsum, hretires⟩ := Retires.retireShares h
        exact ⟨usdEq, hsum, Retires.after_core hc hc' hretires⟩

theorem Retires.returnShortfall {sent plainDepth} (h : Retires q q' lp amount)
    (hok : returnShortfall env q' lp amount sent plainDepth = .ok q'') : ∃ n ≤ amount, Retires q q'' lp n := by
  unfold Quid.returnShortfall at hok
  split_ifs at hok
  · cases hok
    exact ⟨amount, le_rfl, h⟩
  · obtain ⟨excess, -, hok⟩ := of_bind hok
    obtain ⟨-, hok⟩ := of_checkedSub hok
    split_ifs at hok
    · cases hok
      exact ⟨amount, le_rfl, h⟩
    · obtain rfl := creditShares_eq hok
      obtain ⟨c, hc, rfl⟩ := h.eq
      have hpooled := h.pooled
      have hshares := h.lpShares
      refine ⟨amount - (amount - sent - excess), Nat.sub_le _ _, by omega, by omega, c, hc, ?_⟩
      have hback : (q.autoManaged lp).pooled - amount + (amount - sent - excess) =
          (q.autoManaged lp).pooled - (amount - (amount - sent - excess)) := by omega
      have hback' : q.lpShares - amount + (amount - sent - excess) =
          q.lpShares - (amount - (amount - sent - excess)) := by omega
      simp [State.retired, State.setDeposit, Vault.State.setDeposit, hback, hback']

theorem deliverWithdraw_retires (h : deliverWithdraw env q lp amount recipient = .ok q') :
    ∃ n ≤ amount, Retires q q' lp n := by
  unfold deliverWithdraw at h
  split_ifs at h
  · cases h
    exact ⟨0, Nat.zero_le _, Retires.of_core rfl⟩
  · obtain ⟨w, hw, ⟨sent, u⟩, hu, h⟩ := of_bind₂ h
    obtain ⟨hpooled, hshares, rfl⟩ := debitShares_eq hw
    obtain ⟨c, hc, rfl⟩ := burnAndDeliverUsdLeg_eq hu
    refine Retires.returnShortfall ?_ h
    exact ⟨hpooled, hshares, c, hc, rfl⟩

theorem payWithdraw_retires (h : payWithdraw env q lp amount recipient = .ok q') :
    ∃ n w, n ≤ min amount (Vault.rangeOf q.toState lp) ∧ Retires q w lp n ∧
      finishWithdraw env w lp recipient = .ok q' := by
  obtain ⟨⟨rest, w⟩, hserve, u, hdeliver, h⟩ := of_bind₂ h
  obtain ⟨n, hsum, hserved⟩ := serveWithdraw_retires hserve
  obtain ⟨k, hk, hdelivered⟩ := deliverWithdraw_retires hdeliver
  exact ⟨n + k, u, by omega, hserved.trans hdelivered, h⟩

/-! Intents, transfers and what reaches the range by way of `Aux`. -/

theorem fillIntentBody_eq {i usd vol} (h : fillIntentBody env q i = .ok (usd, vol, q')) :
    ∃ used, q' = { q with intentUsed := used } := by
  obtain ⟨-, u₁, -, h⟩ := of_require_bind h
  obtain ⟨u₂, -, px, -, u₃, -, h⟩ := of_bind₃ h
  split_ifs at h
  · obtain ⟨funded, -, u₄, -, volOut, -, u₅, -, h⟩ := of_bind₄ h
    obtain ⟨usdDelta, -, h⟩ := of_bind h
    obtain ⟨-, hparts⟩ := ok_pair_inj h
    exact ⟨_, (Prod.mk.inj hparts).2.symm⟩
  · obtain ⟨-, hparts⟩ := ok_pair_inj h
    exact ⟨_, (Prod.mk.inj hparts).2.symm⟩

theorem etherSold_le {i p routes} (h : etherSold env q i amount routes = .ok (p, n)) :
    n ≤ Vault.rangeOf q.toState i.owner := by
  obtain ⟨-, u₁, -, h⟩ := of_require_bind h
  obtain ⟨capUsd, -, u₂, -, want, -, sent, -, h⟩ := of_bind₄ h
  obtain ⟨u₃, -, proceeds, -, proceeds18, -, scaled, -, h⟩ := of_bind₄ h
  obtain ⟨-, rfl⟩ := ok_pair_inj h
  exact Nat.min_le_right _ _

/-- A fill retires the shares it sells, and a purchase none. -/
theorem fillIntent_retires {i : OorIntent} {routes : Bool} (h : fillIntent env q i routes = .ok q') :
    ∃ n used, n ≤ Vault.rangeOf q.toState i.owner ∧ Retires { q with intentUsed := used } q' i.owner n ∧
      if i.buyVolatile = false ∧ 0 < i.size then ∃ p, etherSold env q i i.size routes = .ok (p, n) else n = 0 := by
  obtain ⟨⟨usdDelta, volDelta, q₁⟩, h₁, ⟨proceeds, q₂⟩, h₂, c, hc, u, -, h⟩ := of_bind₄ h
  cases h
  obtain ⟨used, rfl⟩ := fillIntentBody_eq h₁
  have hretained : c.feesRetained = q₂.core.feesRetained := by
    obtain ⟨n, x, y, -, rfl⟩ := Vault.handleDelta_eq (shared_eq_ok.mp hc)
    rfl
  unfold settleIfSell at h₂
  split_ifs at h₂ ⊢
  · obtain ⟨⟨p, n⟩, hsold, w, hw, h₂⟩ := of_bind₂ h₂
    obtain ⟨-, rfl⟩ := ok_pair_inj h₂
    obtain ⟨hpooled, hshares, rfl⟩ := debitShares_eq hw
    exact ⟨n, used, etherSold_le hsold, ⟨hpooled, hshares, c, hretained, rfl⟩, p, hsold⟩
  · cases h₂
    exact ⟨0, used, Nat.zero_le _, Retires.of_core hretained, rfl⟩

/-- No transfer of shares returns: the rewards of the sender cannot be decoded. -/
theorem transferShares_eq {source dest} (h : transferShares env q source dest amount = .ok q') :
    amount = 0 ∧ q' = q := by
  obtain ⟨w, hw, h⟩ := of_bind h
  obtain ⟨-, -, h⟩ := of_require₂ h
  split_ifs at h with hzero
  · rw [rebalanceFor, if_neg (by omega)] at hw
    exact ⟨hzero, (ok_inj h).trans (ok_inj hw)⟩
  · obtain ⟨checked, hle, r, hr, -⟩ := of_bind₂ h
    have hle := require_eq_ok.mp hle
    have hpooled : 0 < (w.autoManaged source).pooled := by
      rw [Vault.rangeOf, Vault.plainNet] at hle
      omega
    rw [settleTransfer, if_pos hpooled] at hr
    obtain ⟨x, hx, -⟩ := of_bind hr
    cases hx

theorem recordFee_eq {usd native : ℕ} (h : recordFee q usd native = .ok q') :
    ∃ v, Vault.recordFee q.toState usd native = .ok v ∧ q' = { q with toState := v } := by
  obtain ⟨v, hv, h⟩ := of_bind h
  exact ⟨v, shared_eq_ok.mp hv, ok_inj h⟩

theorem swapTo_eq {r : SwapReq} (h : swapTo env q r = .ok q') :
    ∃ px v usd native u, Vault.rebalance env.toEnv q.toState = .ok (px, v) ∧ Vault.recordFee v usd native = .ok u ∧
      ∃ c : Core, c.feesRetained = u.core.feesRetained ∧ q' = { q with toState := { u with core := c } } := by
  obtain ⟨⟨px, v⟩, hv, committed, -, u₁, -, ⟨kept, pooled, w⟩, hw, h⟩ := of_bind₄ h
  obtain ⟨⟨out, consumed, c⟩, hc, u₂, -, u₃, -, u₄, -, h⟩ := of_bind₄ h
  cases h
  have hretained := Vault.routeSwap_feesRetained (shared_eq_ok.mp hc)
  have hinput : ∃ usd native u, Vault.recordFee v usd native = .ok u ∧ w = { q with toState := u } := by
    unfold swapInput at hw
    split_ifs at hw
    · obtain ⟨amount, -, ⟨kept', u⟩, hu, hw⟩ := of_bind₂ hw
      obtain ⟨-, usd, hfee⟩ := Vault.retainUsd_eq (shared_eq_ok.mp hu)
      obtain ⟨-, hparts⟩ := ok_pair_inj hw
      exact ⟨usd, 0, u, hfee, (Prod.mk.inj hparts).2.symm⟩
    · obtain ⟨-, amount, -, hw⟩ := of_require_bind hw
      obtain ⟨⟨kept', u⟩, hu, hw⟩ := of_bind hw
      obtain ⟨usd, native, hfee⟩ := Vault.retainNative_eq (shared_eq_ok.mp hu)
      obtain ⟨-, hparts⟩ := ok_pair_inj hw
      exact ⟨usd, native, u, hfee, (Prod.mk.inj hparts).2.symm⟩
  obtain ⟨usd, native, u, hfee, rfl⟩ := hinput
  exact ⟨px, v, usd, native, u, shared_eq_ok.mp hv, hfee, c, hretained, rfl⟩

theorem unwindForRedeem_eq (h : unwindForRedeem env q amount = .ok q') :
    ∃ (c : Core) (y : ℕ), c.feesRetained = q.core.feesRetained ∧ q' = { q with core := c, rangeAnchor := y } := by
  unfold unwindForRedeem at h
  split_ifs at h
  · exact ⟨q.core, q.rangeAnchor, rfl, ok_inj h⟩
  · obtain ⟨w, hw, usd18, -, share, -, h⟩ := of_bind₃ h
    obtain ⟨x, y, rfl⟩ := rebalance_eq hw
    obtain ⟨c, hc, rfl⟩ := burnInRange_eq h
    exact ⟨c, y, hc, rfl⟩

theorem levAddNet_eq {v v' : Vault.State} {price added : ℕ} (h : levAddNet env v lp n price = .ok (added, v')) :
    (added = 0 ∧ v' = v) ∨ ∃ netUsd w, Vault.addPooled v lp added = .ok w ∧
      Vault.pairLegs env.toEnv { w with levPooled := update w.levPooled lp (w.levPooled lp + added) }
        added netUsd lp = .ok v' := by
  unfold levAddNet at h
  split_ifs at h
  · exact Or.inl (ok_pair_eq h)
  · obtain ⟨⟨netUsd, netTok⟩, -, h⟩ := of_bind h
    dsimp only at h
    split_ifs at h
    · exact Or.inl (ok_pair_eq h)
    · obtain ⟨w, hw, h⟩ := of_bind h
      obtain ⟨-, h⟩ := of_checkedAdd h
      obtain ⟨u, hu, h⟩ := of_bind h
      cases h
      exact Or.inr ⟨netUsd, w, shared_eq_ok.mp hw, shared_eq_ok.mp hu⟩

theorem levAddGross_eq {v v' : Vault.State} {added : Vault.LevDelta} (h : levAddGross env v lp n = .ok (added, v')) :
    (added = ⟨0, 0⟩ ∧ v' = v) ∨ ∃ price w, levAddNet env v lp (env.netEquity lp) price = .ok (added.net, w) ∧
      Vault.levAddBufOver env.toEnv w lp n (env.netEquity lp) price = .ok (added.buf, v') := by
  unfold levAddGross at h
  split_ifs at h
  · exact Or.inl (ok_pair_eq h)
  · obtain ⟨price, -, ⟨net, w⟩, hw, ⟨buf, u⟩, hu, h⟩ := of_bind₃ h
    cases h
    exact Or.inr ⟨price, w, hw, shared_eq_ok.mp hu⟩

theorem setLevManager_eq {m : Address} (h : setLevManager env q m = .ok q') : q' = { q with levManager := m } := by
  obtain ⟨v, hv, h⟩ := of_bind h
  obtain ⟨-, hv⟩ := of_require (shared_eq_ok.mp hv)
  obtain ⟨-, hv⟩ := of_require hv
  cases hv
  exact ok_inj h

end

structure Holds (q : State) (b : Book) : Prop where
  book : Vault.Holds q.toState b
  lev : q.totalLevPooled = ∑ a, b.lev a

section

variable {env : Env} {q q' : State} {v v' : Vault.State} {b : Book} {lp recipient : Address}
variable {shares buffer n k : ℕ}

section

variable (h : Holds q b)

include h

theorem Holds.withVault (hv : Vault.Holds v b) : Holds { q with toState := v } b := ⟨hv, h.lev⟩

theorem Holds.rangeOf (lp : Address) : Vault.rangeOf q.toState lp = b.plain lp :=
  Vault.Reads.rangeOf h.book lp

theorem Holds.rebalance (hok : rebalance env q = .ok q') : Holds q' b := by
  obtain ⟨⟨px, v⟩, hv, hok⟩ := of_bind hok
  cases hok
  exact h.withVault (Vault.Reads.rebalance h.book (shared_eq_ok.mp hv))

theorem Holds.settlePending (hok : settlePending env q lp recipient = .ok q') : Holds q' b := by
  obtain ⟨d, paid, rfl, ⟨hd, -⟩, -⟩ := settlePending_eq hok
  exact ⟨h.book.rebooked hd, h.lev⟩

theorem Holds.payFees (hok : payFees env q lp recipient n = .ok q') : Holds q' b := by
  obtain rfl := payFees_eq hok
  exact ⟨h.book.rebooked rfl, h.lev⟩

theorem Holds.refreshBookmarks (hok : refreshBookmarks q lp = .ok q') : Holds q' b := by
  obtain rfl := refreshBookmarks_eq hok
  exact ⟨h.book.rebooked rfl, h.lev⟩

theorem Holds.creditShares (hok : creditShares q lp n = .ok q') : Holds q' (b.deposit lp n) := by
  obtain rfl := creditShares_eq hok
  have hr := h.book.deposit (d := { q.autoManaged lp with pooled := (q.autoManaged lp).pooled + n }) rfl
  refine ⟨⟨hr.pooled, hr.levPooled, hr.levBuf, ?_, hr.totalBuffer⟩, h.lev⟩
  rw [Book.total_deposit, ← h.book.lpShares]

theorem Holds.retires (hn : n ≤ b.plain lp) (hr : Retires q q' lp n) : Holds q' (b.withdraw lp n) := by
  obtain ⟨c, -, rfl⟩ := hr.eq
  have hend := h.book.withdraw (d := { q.autoManaged lp with pooled := (q.autoManaged lp).pooled - n }) hn
    (Nat.sub_add_cancel hr.pooled)
  have htotal := b.total_withdraw lp n hn
  refine ⟨⟨hend.pooled, hend.levPooled, hend.levBuf, ?_, hend.totalBuffer⟩, h.lev⟩
  have hshares := h.book.lpShares
  simp only [State.retired]
  omega

theorem Holds.clearRecord (hempty : (q.autoManaged lp).pooled = 0)
    (hok : clearRecord q lp = .ok q') : Holds q' (b.relever lp (b.lev lp) 0) := by
  obtain ⟨hle, rfl⟩ := clearRecord_eq hok
  have hp := h.book.pooled lp
  have hlev : b.lev lp = 0 := by omega
  have hplain : b.plain lp = 0 := by omega
  have hbuf : q.levBuf lp = b.buf lp := congrFun h.book.levBuf lp
  have hsame : (b.relever lp 0 0).lev = b.lev := by
    funext a
    by_cases ha : a = lp <;> simp [Book.relever, ha, hlev]
  have htotal := b.total_relever lp 0 0
  have hbuffer := b.buffer_relever lp 0 0
  have hshares := h.book.lpShares
  have htb := h.book.totalBuffer
  rw [hlev]
  refine ⟨⟨?_, ?_, ?_, ?_, ?_⟩, ?_⟩
  · intro a
    rw [hsame]
    by_cases ha : a = lp
    · subst ha
      simp [State.setDeposit, Vault.State.setDeposit, Book.relever, hlev, hplain]
    · simp [State.setDeposit, Vault.State.setDeposit, Book.relever, ha, h.book.pooled]
  · rw [hsame]
    exact h.book.levPooled
  · simp [Book.relever, ← h.book.levBuf]
  · have heq : q.lpShares = (b.relever lp 0 0).total := by omega
    exact heq
  · dsimp only
    omega
  · rw [hsame]
    exact h.lev

theorem Holds.restartIfEmpty : Holds (restartIfEmpty q) b := by
  unfold Quid.restartIfEmpty
  split_ifs with hlast
  · obtain ⟨hbook, -⟩ := h
    refine ⟨⟨hbook.pooled, hbook.levPooled, hbook.levBuf, hbook.lpShares, hbook.totalBuffer⟩, ?_⟩
    have htotal := hbook.lpShares
    rw [hlast.1, Book.total] at htotal
    dsimp only
    omega
  · exact h

theorem Holds.onExit (hok : onExit q lp = .ok q') : ∃ k, Holds q' (b.relever lp (b.lev lp) k) := by
  unfold Quid.onExit at hok
  split_ifs at hok with hempty
  · obtain ⟨w, hw, hok⟩ := of_bind hok
    cases hok
    exact ⟨0, (h.clearRecord hempty hw).restartIfEmpty⟩
  · refine ⟨b.buf lp, ?_⟩
    rw [Book.relever_self]
    exact h.refreshBookmarks hok

end

section

variable (h : Vault.Reads v b shares buffer)

include h

theorem reads_levAddNet {price added} (hok : levAddNet env v lp n price = .ok (added, v')) :
    Vault.Reads v' (b.relever lp (b.lev lp + added) (b.buf lp)) shares buffer := by
  obtain ⟨rfl, rfl⟩ | ⟨netUsd, w, hw, hu⟩ := levAddNet_eq hok
  · rwa [Nat.add_zero, Book.relever_self]
  · exact h.lever hw hu

theorem reads_levAddGross {added} (hok : levAddGross env v lp n = .ok (added, v')) :
    Vault.Reads v' (b.relever lp (b.lev lp + added.net) (b.buf lp + added.buf)) shares buffer := by
  obtain ⟨rfl, rfl⟩ | ⟨price, w, hw, hu⟩ := levAddGross_eq hok
  · rwa [Nat.add_zero, Nat.add_zero, Book.relever_self]
  · have hr := (reads_levAddNet h hw).levAddBufOver hu
    simpa [Book.relever] using hr

theorem reads_levBurnHeld {burned} (hok : levBurnHeld env v lp = .ok (burned, v')) :
    Vault.Reads v' (b.relever lp 0 0) shares buffer ∧ burned = ⟨b.lev lp, b.buf lp⟩ := by
  unfold levBurnHeld at hok
  split_ifs at hok with hheld
  · exact h.levBurnAll (shared_eq_ok.mp hok)
  · cases hok
    rw [h.levPooled, h.levBuf] at hheld
    have hlev : b.lev lp = 0 := by omega
    have hbuf : b.buf lp = 0 := by omega
    have hself := b.relever_self lp
    rw [hlev, hbuf] at hself ⊢
    exact ⟨hself.symm ▸ h, rfl⟩

theorem reads_reconcileLegs {added burned} (hok : reconcileLegs env v lp n = .ok (added, burned, v')) :
    Vault.Reads v' (b.relever lp added.net added.buf) shares buffer ∧ burned = ⟨b.lev lp, b.buf lp⟩ := by
  obtain ⟨⟨burned', w⟩, hw, ⟨added', u⟩, hu, hok⟩ := of_bind₂ hok
  obtain ⟨rfl, hparts⟩ := ok_pair_inj hok
  obtain ⟨rfl, rfl⟩ := Prod.mk.inj hparts
  have hzero : Vault.Reads { v with usdFees := 0 } b shares buffer :=
    ⟨h.pooled, h.levPooled, h.levBuf, h.lpShares, h.totalBuffer⟩
  obtain ⟨hburn, hburned⟩ := reads_levBurnHeld hzero hw
  have hr := reads_levAddGross hburn hu
  rw [Book.relever_added] at hr
  exact ⟨⟨hr.pooled, hr.levPooled, hr.levBuf, hr.lpShares, hr.totalBuffer⟩, hburned⟩

end

section

variable (h : Holds q b)

include h

theorem Holds.relever (hok : relever env q lp n = .ok q') : ∃ lev buf, Holds q' (b.relever lp lev buf) := by
  obtain ⟨⟨added, burned, v⟩, hlegs, w, hw, hok⟩ := of_bind₂ hok
  obtain ⟨-, hok⟩ := of_checkedAdd hok
  obtain ⟨-, hok⟩ := of_checkedSub hok
  cases hok
  obtain ⟨hr, rfl⟩ := reads_reconcileLegs h.book hlegs
  refine ⟨added.net, added.buf, hr.applyDeltas (shared_eq_ok.mp hw), ?_⟩
  have hsum := sum_update_add (f := b.lev) (a := lp) (Nat.add_comm added.net (b.lev lp))
  have hlev := h.lev
  simp only [Book.relever]
  omega

theorem Holds.reconcileLev (hok : reconcileLev env q lp = .ok q') : ∃ n k, Holds q' (b.relever lp n k) := by
  obtain ⟨inSync, -, hok⟩ := of_bind hok
  split_ifs at hok
  · cases hok
    refine ⟨b.lev lp, b.buf lp, ?_⟩
    rwa [Book.relever_self]
  · obtain ⟨q1, h1, q2, h2, q3, h3, hok⟩ := of_bind₃ hok
    obtain ⟨lev, buf, hr⟩ := ((h.rebalance h1).settlePending h2).relever h3
    obtain ⟨k, hexit⟩ := hr.onExit hok
    refine ⟨lev, k, ?_⟩
    simpa [Book.relever] using hexit

theorem Holds.bookShares (hok : bookShares q lp n = .ok q') : Holds q' (b.deposit lp n) := by
  unfold Quid.bookShares at hok
  split_ifs at hok with hn
  · cases hok
    rwa [hn, Book.deposit_zero]
  · obtain ⟨w, hw, hok⟩ := of_bind hok
    exact (h.creditShares hw).refreshBookmarks hok

theorem Holds.modLpEth (hok : modLpEth env q n k lp = .ok q') : Holds q' b := by
  unfold Quid.modLpEth at hok
  split_ifs at hok
  · cases hok
    exact h
  · obtain ⟨v, hv, hok⟩ := of_bind hok
    cases hok
    exact h.withVault (Vault.Reads.pairLegs h.book (shared_eq_ok.mp hv))

theorem Holds.placeDeposit (hok : placeDeposit env q lp n k = .ok q') : Holds q' (b.deposit lp n) := by
  unfold Quid.placeDeposit at hok
  split_ifs at hok with hn
  · cases hok
    rwa [hn, Book.deposit_zero]
  · obtain ⟨q1, h1, ⟨deltaUSD, deltaETH⟩, -, q2, h2, q3, h3, hok⟩ := of_bind₄ hok
    obtain ⟨hle, hok⟩ := of_checkedSub hok
    have hend := (((h.settlePending h1).bookShares h2).modLpEth h3).bookShares hok
    rwa [Book.deposit_deposit, Nat.add_sub_cancel' hle] at hend

theorem Holds.deposit (hok : deposit env q n lp = .ok q') : ∃ placed, Holds q' (b.deposit lp placed) := by
  obtain ⟨-, checked, -, hok⟩ := of_require_bind hok
  obtain ⟨price, -, hok⟩ := of_bind hok
  have hstart : Holds { q with
      lastDepositBlock := Function.update q.lastDepositBlock lp env.blockNumber } b := ⟨h.book, h.lev⟩
  split_ifs at hok
  · cases hok
    refine ⟨0, ?_⟩
    rwa [Book.deposit_zero]
  · obtain ⟨w, hw, placed, -, hok⟩ := of_bind₂ hok
    exact ⟨placed, (hstart.rebalance hw).placeDeposit hok⟩

theorem Holds.openWithdraw (hok : openWithdraw env q lp = .ok q') : ∃ n k, Holds q' (b.relever lp n k) := by
  obtain ⟨q1, h1, hok⟩ := of_bind hok
  obtain ⟨-, -, hok⟩ := of_require₂ hok
  obtain ⟨q2, h2, hok⟩ := of_bind hok
  obtain ⟨n, k, hr⟩ := h.reconcileLev h1
  exact ⟨n, k, (hr.rebalance h2).settlePending hok⟩

theorem Holds.syncRange (env lp) : ∃ n k, Holds (syncRange env q lp) (b.relever lp n k) := by
  unfold Quid.syncRange
  cases hsync : Quid.reconcileLev env q lp with
  | error =>
    refine ⟨b.lev lp, b.buf lp, ?_⟩
    rwa [Book.relever_self]
  | ok => exact h.reconcileLev hsync

theorem Holds.closeLev {after} (hok : closeLev env q lp n = .ok (after, q')) :
    ∃ b', Holds q' b' ∧ b'.plain = b.plain := by
  unfold Quid.closeLev at hok
  split_ifs at hok
  · obtain ⟨-, w, hw, hok⟩ := of_require_bind hok
    cases hok
    obtain ⟨n, k, hsync⟩ := h.syncRange env.closed lp
    obtain ⟨n', k', hend⟩ := hsync.reconcileLev hw
    exact ⟨_, hend, rfl⟩
  · cases hok
    exact ⟨b, h, rfl⟩

theorem Holds.payLastFees (hok : payLastFees env q lp recipient = .ok q') : Holds q' b := by
  unfold Quid.payLastFees at hok
  split_ifs at hok
  · exact h.payFees hok
  · cases hok
    exact h

theorem Holds.finishWithdraw (hok : finishWithdraw env q lp recipient = .ok q') :
    ∃ k, Holds q' (b.relever lp (b.lev lp) k) := by
  obtain ⟨w, hw, hok⟩ := of_bind hok
  exact (h.payLastFees hw).onExit hok

theorem Holds.withdraw (hok : withdraw env q lp n recipient = .ok q') : ∃ b', Holds q' b' := by
  obtain ⟨q1, h1, ⟨after, q2⟩, h2, hok⟩ := of_bind₂ hok
  obtain ⟨k, w, hle, hretires, hfinish⟩ := payWithdraw_retires hok
  obtain ⟨x, y, hopened⟩ := h.openWithdraw h1
  obtain ⟨b', hclosed, -⟩ := hopened.closeLev h2
  rw [hclosed.rangeOf] at hle
  have hpaid := hclosed.retires (hle.trans (Nat.min_le_right _ _)) hretires
  obtain ⟨z, hend⟩ := hpaid.finishWithdraw hfinish
  exact ⟨_, hend⟩

theorem Holds.fillIntent {i routes}
    (hok : fillIntent env q i routes = .ok q') : ∃ n, Holds q' (b.withdraw i.owner n) := by
  obtain ⟨n, used, hle, hretires, -⟩ := fillIntent_retires hok
  rw [h.rangeOf] at hle
  have hstart : Holds { q with intentUsed := used } b := ⟨h.book, h.lev⟩
  exact ⟨n, hstart.retires hle hretires⟩

theorem Holds.exec {c} (hok : exec env q c = .ok q') : ∃ b', Holds q' b' := by
  cases c with
  | recordFee =>
    obtain ⟨v, hv, rfl⟩ := recordFee_eq hok
    exact ⟨b, h.withVault (Vault.Reads.recordFee h.book hv)⟩
  | deposit =>
    obtain ⟨placed, hend⟩ := h.deposit hok
    exact ⟨_, hend⟩
  | withdraw => exact h.withdraw hok
  | syncLev =>
    obtain ⟨n, k, hend⟩ := h.reconcileLev hok
    exact ⟨_, hend⟩
  | fillIntent =>
    obtain ⟨n, hend⟩ := h.fillIntent hok
    exact ⟨_, hend⟩
  | transferShares =>
    obtain ⟨-, rfl⟩ := transferShares_eq hok
    exact ⟨b, h⟩
  | collectFees =>
    obtain ⟨-, q1, h1, hok⟩ := of_require_bind hok
    obtain ⟨q2, h2, hok⟩ := of_bind hok
    exact ⟨b, ((h.rebalance h1).settlePending h2).refreshBookmarks hok⟩
  | reseat => exact ⟨b, h.rebalance hok⟩
  | unwindForRedeem =>
    obtain ⟨c, y, -, rfl⟩ := unwindForRedeem_eq hok
    have hb := h.book
    exact ⟨b, ⟨hb.pooled, hb.levPooled, hb.levBuf, hb.lpShares, hb.totalBuffer⟩, h.lev⟩
  | swapTo =>
    obtain ⟨px, v, usd, native, u, hre, hfee, c, -, rfl⟩ := swapTo_eq hok
    have hbook := Vault.Reads.recordFee (Vault.Reads.rebalance h.book hre) hfee
    exact ⟨b, h.withVault (hbook.withCore c)⟩
  | setLevManager =>
    obtain rfl := setLevManager_eq hok
    have hb := h.book
    exact ⟨b, ⟨hb.pooled, hb.levPooled, hb.levBuf, hb.lpShares, hb.totalBuffer⟩, h.lev⟩

end

end

def Balanced (q : State) : Prop := ∃ b, Holds q b

theorem balanced_deployed (priceWad : ℕ) : Balanced (deployed priceWad) := by
  refine ⟨Book.empty, Vault.holds_deployed priceWad, ?_⟩
  simp [deployed, Book.empty]

theorem Balanced.step {q q' c} (h : Balanced q) (hok : step q c = .ok q') : Balanced q' := by
  obtain ⟨b, hb⟩ := h
  exact hb.exec hok

theorem balanced_of_run {q priceWad cs} (hrun : runAll step (deployed priceWad) cs = .ok q) : Balanced q :=
  runAll_invariant (fun _ _ _ h _ hok => h.step hok) (balanced_deployed priceWad) (everyStep_trivial _ _) hrun

structure SharesAdd (q : State) : Prop where
  lpShares : q.lpShares = ∑ a, (q.autoManaged a).pooled
  totalLevPooled : q.totalLevPooled = ∑ a, q.levPooled a
  totalBuffer : q.totalBuffer = ∑ a, q.levBuf a
  levPooled : ∀ a, q.levPooled a ≤ (q.autoManaged a).pooled

theorem Balanced.sharesAdd {q} (h : Balanced q) : SharesAdd q := by
  obtain ⟨b, hb, hlev⟩ := h
  refine ⟨?_, ?_, ?_, fun a => ?_⟩
  · rw [hb.lpShares, Book.total, ← Finset.sum_add_distrib]
    exact Finset.sum_congr rfl fun a _ => (hb.pooled a).symm
  · rw [hlev, hb.levPooled]
  · rw [hb.totalBuffer, hb.levBuf]
    rfl
  · rw [hb.pooled, hb.levPooled]
    exact Nat.le_add_left _ _

/-- In every state of every run of the range its shares add up. -/
theorem range_shares_add (priceWad : ℕ) (cs : List (Env × Call)) :
    EveryState step SharesAdd (deployed priceWad) cs := by
  have hadd : ∀ q : State, Balanced q → SharesAdd q := fun q h => h.sharesAdd
  refine everyState_of_invariant hadd ?_ (balanced_deployed priceWad) (everyStep_trivial _ _)
  intro q c q' h _ hok
  exact h.step hok

end QuidProtocol.Quid
