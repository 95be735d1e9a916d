import QuidProtocol.Quid.Fees

/-!
What a withdrawal of an LP without leverage can run into.
-/

namespace QuidProtocol.Quid

open Lib
open Basket (Address)
open Vault (Book)

abbrev Safe {α : Type} (x : Res α) : Prop := Avoids .underflow x

section

variable {α : Type} {env : Env} {q q' : State} {b : Book} {lp recipient : Address} {n k amount : ℕ}

theorem safe_shared (x : Vault.Res α) : Safe (shared x) := avoids_mapError nofun

theorem safe_add (a b : ℕ) : Safe (add a b) := avoids_checkedAdd nofun

theorem safe_mul (a b : ℕ) : Safe (mul a b) := avoids_checkedMul nofun

variable {a incrPre denom claim weethIn weethFull : ℕ} {m : Address} {e : EtherFi}

theorem safe_sub {b} (h : b ≤ a) : Safe (sub a b) := avoids_checkedSub h

theorem safe_fullMulDiv (a b d : ℕ) : Safe (fullMulDiv a b d) := safe_shared _

theorem safe_rebalance : Safe (rebalance env q) := (safe_shared _).bind fun _ _ => avoids_ok _ _

theorem safe_refreshBookmarks : Safe (refreshBookmarks q lp) := (safe_shared _).bind fun _ _ => avoids_ok _ _

theorem safe_settlePending : Safe (settlePending env q lp recipient) := by
  unfold settlePending
  split_ifs
  · exact avoids_ok _ _
  all_goals
    refine Avoids.bind ?_ fun usdR _ => ?_
    · exact (safe_add _ _).bind fun _ _ => safe_shared _
    · refine (safe_add _ _).bind fun total _ => ?_
      first
        | exact (safe_shared _).bind fun _ _ => avoids_ok _ _
        | exact avoids_ok _ _

theorem safe_drawWeth {p} : Safe (drawWeth env m p n) := by
  unfold drawWeth
  split_ifs
  · exact avoids_ok _ _
  · refine (safe_add _ _).bind fun inWETH _ => ?_
    split_ifs
    · exact avoids_ok _ _
    · exact (safe_shared _).bind fun _ _ => safe_add _ _

theorem safe_sendEth {c} : Safe (sendEth env m c n) := by
  unfold sendEth
  dsimp only
  split_ifs
  · refine Avoids.bind (avoids_require ?_) fun _ _ => avoids_ok _ _
    simp
  · refine Avoids.bind safe_drawWeth fun _ _ => Avoids.bind (avoids_require ?_) fun _ _ => avoids_ok _ _
    simp

theorem safe_burnInRange : Safe (burnInRange env q n recipient) := by
  refine (safe_shared _).bind fun c _ => Avoids.bind ?_ fun _ _ => avoids_ok _ _
  unfold deliverVolatile
  split_ifs
  · exact safe_sendEth.bind fun _ _ => avoids_ok _ _
  · exact avoids_ok _ _

theorem owed6_eq (hdenom : denom ≠ 0) (hle : claim ≤ denom)
    (h : owed6 incrPre denom claim = .ok n) : n = incrPre * claim / denom := by
  unfold owed6 at h
  split_ifs at h with hfull
  · rw [← Except.ok.inj h, le_antisymm hle hfull, Nat.mul_div_cancel _ (Nat.pos_of_ne_zero hdenom)]
  · exact (fullMulDiv_eq_ok.mp h).2.symm

theorem owed6_le (h : owed6 incrPre denom claim = .ok n) : n ≤ incrPre := by
  unfold owed6 at h
  split_ifs at h with hfull
  · exact (Except.ok.inj h).ge
  · rw [← (fullMulDiv_eq_ok.mp h).2]
    apply Nat.div_le_of_le_mul
    rw [Nat.mul_comm]
    exact Nat.mul_le_mul_right _ (not_le.mp hfull).le

theorem safe_payUsdLeg : Safe (payUsdLeg env q incrPre denom claim recipient) := by
  unfold payUsdLeg
  split_ifs
  · exact avoids_ok _ _
  · refine Avoids.bind ?_ fun owed howed => ?_
    · unfold owed6
      split_ifs
      · exact avoids_ok _ _
      · exact safe_fullMulDiv _ _ _
    · split_ifs
      · exact avoids_ok _ _
      · refine (safe_shared _).bind fun _ _ => (safe_shared _).bind fun _ _ => ?_
        refine (safe_sub (owed6_le howed)).bind fun _ _ => (safe_mul _ _).bind fun _ _ => ?_
        exact (safe_fullMulDiv _ _ _).bind fun _ _ => avoids_ok _ _

theorem safe_weethCovers : Safe (weethCovers amount weethIn weethFull) := by
  unfold weethCovers
  split_ifs
  · exact avoids_ok _ _
  · exact safe_fullMulDiv _ _ _

theorem weethCovers_le (hle : weethIn ≤ weethFull) (h : weethCovers amount weethIn weethFull = .ok n) : n ≤ amount := by
  unfold weethCovers at h
  split_ifs at h
  · exact (Except.ok.inj h).ge
  · rw [← (fullMulDiv_eq_ok.mp h).2]
    apply Nat.div_le_of_le_mul
    rw [Nat.mul_comm]
    exact Nat.mul_le_mul_right _ hle

theorem safe_waitNft : Safe (waitNft e amount) := by
  unfold waitNft
  dsimp only
  split_ifs
  · exact avoids_ok _ _
  · exact safe_weethCovers

theorem waitNft_le (h : waitNft e amount = .ok n) : n ≤ amount := by
  unfold waitNft at h
  dsimp only at h
  split_ifs at h
  · cases h
    exact Nat.zero_le _
  · exact weethCovers_le (Nat.min_le_left _ _) h

theorem curveCapped_le (h : curveCapped e amount weethIn weethFull = .ok n) : n ≤ weethIn := by
  unfold curveCapped at h
  split at h
  · exact (Except.ok.inj h).ge
  · split_ifs at h
    · cases h
      exact Nat.zero_le _
    · obtain ⟨wantOut, -, scaled, -, h⟩ := of_bind₂ h
      split_ifs at h with hcap
      · rw [← (fullMulDiv_eq_ok.mp h).2]
        apply Nat.div_le_of_le_mul
        rw [Nat.mul_comm]
        exact Nat.mul_le_mul_right _ hcap.le
      · exact (Except.ok.inj h).ge

theorem safe_offrampEtherFi : Safe (offrampEtherFi e amount) := by
  unfold offrampEtherFi
  split_ifs
  · exact avoids_ok _ _
  · refine Avoids.bind ?_ fun weethIn _ => safe_weethCovers.bind fun covered _ => ?_
    · unfold curveCapped
      split
      · exact avoids_ok _ _
      · split_ifs
        · exact avoids_ok _ _
        · refine safe_weethCovers.bind fun _ _ => (safe_mul _ _).bind fun _ _ => ?_
          split_ifs
          · exact safe_fullMulDiv _ _ _
          · exact avoids_ok _ _
    · split_ifs
      · exact safe_waitNft
      · refine (safe_mul _ _).bind fun _ _ => ?_
        split_ifs
        · exact safe_waitNft
        · exact avoids_ok _ _

theorem offrampEtherFi_le (h : offrampEtherFi e amount = .ok n) : n ≤ amount := by
  unfold offrampEtherFi at h
  split_ifs at h
  · cases h
    exact Nat.zero_le _
  · obtain ⟨weethIn, hin, covered, hcovered, h⟩ := of_bind₂ h
    have hle := weethCovers_le ((curveCapped_le hin).trans (Nat.min_le_left _ _)) hcovered
    split_ifs at h
    · exact (waitNft_le h).trans hle
    · obtain ⟨floor, -, h⟩ := of_bind h
      split_ifs at h
      · exact (waitNft_le h).trans hle
      · rwa [← Except.ok.inj h]

theorem safe_debitShares (hpooled : n ≤ (q.autoManaged lp).pooled) (hshares : n ≤ q.lpShares) :
    Safe (debitShares q lp n) :=
  (safe_sub hpooled).bind fun _ _ => (safe_sub hshares).bind fun _ _ => avoids_ok _ _

theorem safe_retireShares (hpooled : n ≤ (q.autoManaged lp).pooled) (hshares : n ≤ q.lpShares)
    (hle : n ≤ amount) : Safe (retireShares q lp amount n) :=
  (safe_debitShares hpooled hshares).bind fun _ _ => (safe_sub hle).bind fun _ _ => avoids_ok _ _

theorem sub_eq_underflow {b} (h : a < b) : sub a b = .error .underflow := (checkedSub_eq_error _ _ _ _).mpr ⟨h, rfl⟩

theorem retireShares_underflow (h : amount < n) : retireShares q lp amount n = .error .underflow := by
  have hdebit : ∀ e, debitShares q lp n = .error e → e = .underflow := by
    intro e he
    obtain he | ⟨pooled, -, he⟩ := bind_eq_error.mp he
    · exact ((checkedSub_eq_error _ _ _ _).mp he).2.symm
    · obtain he | ⟨lpShares, -, he⟩ := bind_eq_error.mp he
      · exact ((checkedSub_eq_error _ _ _ _).mp he).2.symm
      · cases he
  cases hd : debitShares q lp n with
  | error e =>
    rw [retireShares, hd, hdebit e hd]
    rfl
  | ok =>
    rw [retireShares, hd, ok_bind, sub_eq_underflow h]
    rfl

def usdLegEther (env : Env) (q : State) (amount : ℕ) : ℕ :=
  rangeIncrement6 q.core * amount / q.lpShares * 10 ^ 12 * 10 ^ 18 / env.price

theorem payUsdLeg_worth {u} (hle : amount ≤ q.lpShares)
    (h : payUsdLeg env q (rangeIncrement6 q.core) q.lpShares amount recipient = .ok (n, u)) :
    n = usdLegEther env q amount := by
  unfold payUsdLeg at h
  unfold usdLegEther
  split_ifs at h with hzero
  · cases h
    rcases hzero with hzero | hzero | hzero <;> simp [hzero]
  · obtain ⟨owed, howed, h⟩ := of_bind h
    have hdenom : q.lpShares ≠ 0 := fun h0 => hzero (Or.inr (Or.inl h0))
    rw [← owed6_eq hdenom hle howed]
    split_ifs at h with hnone
    · cases h
      simp [hnone]
    · obtain ⟨px, hpx, minted, -, lpOwned, -, h⟩ := of_bind₃ h
      obtain ⟨-, h⟩ := of_checkedMul h
      obtain ⟨ethEquiv, heth, h⟩ := of_bind h
      cases h
      obtain ⟨-, rfl⟩ := Vault.assetPrice_eq_ok.mp (shared_eq_ok.mp hpx)
      exact (fullMulDiv_eq_ok.mp heth).2.symm

structure PaysUsdLeg (env : Env) (q : State) (amount : ℕ) (recipient : Address) : Prop where
  unserved : offrampEtherFi env.etherFi amount = .ok 0
  paid : ∃ u w, payUsdLeg env q (rangeIncrement6 q.core) q.lpShares amount recipient =
    .ok (usdLegEther env q amount, u) ∧ burnInRange env u (usdLegEther env q amount) 0 = .ok w

theorem serveWithdraw_underflow_iff (hpooled : amount ≤ (q.autoManaged lp).pooled) (hshares : amount ≤ q.lpShares) :
    serveWithdraw env q lp amount recipient = .error .underflow ↔
      amount < usdLegEther env q amount ∧ PaysUsdLeg env q amount recipient := by
  unfold serveWithdraw
  constructor
  · intro h
    split_ifs at h
    obtain h | ⟨served, hserved, h⟩ := bind_eq_error.mp h
    · exact absurd h safe_offrampEtherFi
    have hle := offrampEtherFi_le hserved
    split_ifs at h with hnone
    · obtain h | ⟨w, hw, h⟩ := bind_eq_error.mp h
      · exact absurd h safe_burnInRange
      obtain h | ⟨⟨usdEq, u⟩, hu, h⟩ := bind_eq_error.mp h
      · exact absurd h safe_payUsdLeg
      obtain ⟨c, -, rfl⟩ := burnInRange_eq hw
      obtain ⟨c', -, rfl⟩ := payUsdLeg_eq hu
      exact absurd h (safe_retireShares (hle.trans hpooled) (hle.trans hshares) hle)
    · obtain h | ⟨⟨usdEq, u⟩, hu, h⟩ := bind_eq_error.mp h
      · exact absurd h safe_payUsdLeg
      have hworth := payUsdLeg_worth hshares hu
      dsimp only at h
      split_ifs at h
      obtain h | ⟨w, hw, h⟩ := bind_eq_error.mp h
      · exact absurd h safe_burnInRange
      rw [hworth] at hu hw h
      rw [not_not.mp hnone] at hserved
      refine ⟨?_, hserved, u, w, hu, hw⟩
      by_contra hfits
      have hfits := not_lt.mp hfits
      obtain ⟨c, -, rfl⟩ := payUsdLeg_eq hu
      obtain ⟨c', -, rfl⟩ := burnInRange_eq hw
      exact absurd h (safe_retireShares (hfits.trans hpooled) (hfits.trans hshares) hfits)
  · rintro ⟨hworth, hserved, u, w, hu, hw⟩
    have hsome : amount ≠ 0 := by
      rintro rfl
      simp [usdLegEther] at hworth
    have hpays : usdLegEther env q amount ≠ 0 := by omega
    rw [if_neg hsome, hserved, ok_bind, if_neg (not_not.mpr rfl), hu, ok_bind]
    dsimp only
    rw [if_neg hpays, hw, ok_bind]
    exact retireShares_underflow hworth

theorem sendEth_le {c} (h : sendEth env m c amount = .ok n) : n ≤ amount := by
  unfold sendEth at h
  dsimp only at h
  split_ifs at h
  · obtain ⟨-, h⟩ := of_require h
    exact (Except.ok.inj h).ge
  · obtain ⟨inWETH, -, h⟩ := of_bind h
    obtain ⟨-, h⟩ := of_require h
    cases h
    omega

theorem safe_returnShortfall {sent plainDepth} : Safe (returnShortfall env q lp amount sent plainDepth) := by
  unfold returnShortfall
  split_ifs
  · exact avoids_ok _ _
  · refine Avoids.bind ?_ fun excess hexcess => ?_
    · refine Avoids.bind ?_ fun share _ => ?_
      · unfold vaultShare
        split_ifs
        · exact safe_fullMulDiv _ _ _
        · exact avoids_ok _ _
      · dsimp only
        split_ifs
        · exact avoids_ok _ _
        · exact safe_sendEth
    · have hle : excess ≤ amount - sent := by
        obtain ⟨share, -, hexcess⟩ := of_bind hexcess
        dsimp only at hexcess
        split_ifs at hexcess
        · cases hexcess
          exact Nat.zero_le _
        · exact (sendEth_le hexcess).trans (Nat.min_le_left _ _)
      refine (safe_sub hle).bind fun shortfall _ => ?_
      split_ifs
      · exact avoids_ok _ _
      · exact (safe_add _ _).bind fun _ _ => (safe_add _ _).bind fun _ _ => avoids_ok _ _

theorem safe_deliverWithdraw (hpooled : amount ≤ (q.autoManaged lp).pooled) (hshares : amount ≤ q.lpShares) :
    Safe (deliverWithdraw env q lp amount recipient) := by
  unfold deliverWithdraw
  split_ifs
  · exact avoids_ok _ _
  · refine (safe_debitShares hpooled hshares).bind fun w _ => Avoids.bind ?_ fun _ _ => safe_returnShortfall
    unfold burnAndDeliverUsdLeg
    split_ifs
    · exact avoids_ok _ _
    · exact safe_burnInRange.bind fun _ _ => (safe_add _ _).bind fun _ _ => safe_payUsdLeg

theorem safe_finishWithdraw (hbuf : q.levBuf lp = 0) : Safe (finishWithdraw env q lp recipient) := by
  refine Avoids.bind ?_ fun w hw => ?_
  · unfold payLastFees
    split_ifs
    · exact (safe_shared _).bind fun _ _ => avoids_ok _ _
    · exact avoids_ok _ _
  · have hsame : w.levBuf lp = 0 := by
      unfold payLastFees at hw
      split_ifs at hw
      · obtain rfl := payFees_eq hw
        exact hbuf
      · cases hw
        exact hbuf
    unfold onExit
    split_ifs
    · refine Avoids.bind ?_ fun _ _ => avoids_ok _ _
      refine Avoids.bind (safe_sub ?_) fun _ _ => avoids_ok _ _
      rw [hsame]
      exact Nat.zero_le _
    · exact safe_refreshBookmarks

theorem payWithdraw_underflow_iff (hlev : q.levPooled lp = 0) (hbuf : q.levBuf lp = 0)
    (hpooled : amount ≤ (q.autoManaged lp).pooled) (hshares : amount ≤ q.lpShares) :
    payWithdraw env q lp amount recipient = .error .underflow ↔
      amount < usdLegEther env q amount ∧ PaysUsdLeg env q amount recipient := by
  have hamount : min amount (Vault.rangeOf q.toState lp) = amount := by
    rw [Vault.rangeOf, Vault.plainNet, hlev]
    exact Nat.min_eq_left hpooled
  rw [← serveWithdraw_underflow_iff hpooled hshares, payWithdraw, hamount]
  constructor
  · intro h
    obtain h | ⟨⟨rest, w⟩, hw, h⟩ := bind_eq_error.mp h
    · exact h
    obtain ⟨n, hsum, hserved⟩ := serveWithdraw_retires hw
    obtain ⟨c, -, rfl⟩ := hserved.eq
    have hleft : rest ≤ ((q.retired lp n c).autoManaged lp).pooled := by
      rw [q.retired_pooled]
      omega
    have hleft' : rest ≤ (q.retired lp n c).lpShares := by
      simp only [State.retired]
      omega
    obtain h | ⟨u, hu, h⟩ := bind_eq_error.mp h
    · exact absurd h (safe_deliverWithdraw hleft hleft')
    · obtain ⟨k, -, hdelivered⟩ := deliverWithdraw_retires hu
      obtain ⟨c', -, rfl⟩ := hdelivered.eq
      exact absurd h (safe_finishWithdraw hbuf)
  · intro h
    rw [h]
    rfl

@[mk_iff]
structure Unlevered (env : Env) (q : State) (lp : Address) : Prop where
  gross : Vault.levGross env.toEnv q.toState lp = 0
  levPooled : q.levPooled lp = 0
  levBuf : q.levBuf lp = 0
  levBufferUsd : q.levBufferUsd lp = 0

theorem Unlevered.reconcileLev (h : Unlevered env q lp) : Quid.reconcileLev env q lp = .ok q := by
  have hsync : Vault.levSyncState env.toEnv q.toState lp = .ok true :=
    if_pos ⟨h.gross, h.levPooled, h.levBuf, h.levBufferUsd⟩
  rw [Quid.reconcileLev, hsync]
  rfl

theorem Unlevered.safe_openWithdraw (h : Unlevered env q lp) : Safe (openWithdraw env q lp) := by
  rw [openWithdraw, h.reconcileLev, ok_bind]
  refine Avoids.bind (avoids_require ?_) fun _ _ => Avoids.bind (avoids_require ?_) fun _ _ => ?_
  · simp
  · simp
  · exact safe_rebalance.bind fun _ _ => safe_settlePending

theorem Unlevered.openWithdraw (h : Unlevered env q lp) (amount : ℕ) (hok : Quid.openWithdraw env q lp = .ok q') :
    Unlevered env q' lp ∧ (q'.autoManaged lp).pooled = (q.autoManaged lp).pooled ∧
      q'.lpShares = q.lpShares ∧ usdLegEther env q' amount = usdLegEther env q amount := by
  rw [Quid.openWithdraw, h.reconcileLev, ok_bind] at hok
  obtain ⟨-, -, hok⟩ := of_require₂ hok
  obtain ⟨w, hw, hok⟩ := of_bind hok
  obtain ⟨x, y, rfl⟩ := rebalance_eq hw
  obtain rfl := settlePending_banks hok
  refine ⟨⟨h.gross, h.levPooled, h.levBuf, h.levBufferUsd⟩, ?_, rfl, rfl⟩
  rw [State.setDeposit_same]

theorem finishWithdraw_pooled (h : finishWithdraw env q lp recipient = .ok q') :
    (q'.autoManaged lp).pooled = (q.autoManaged lp).pooled := by
  obtain ⟨w, hw, h⟩ := of_bind h
  rw [onExit_pooled h]
  unfold payLastFees at hw
  split_ifs at hw
  · obtain rfl := payFees_eq hw
    dsimp only
    rw [State.setDeposit_same]
  · rw [Except.ok.inj hw]

theorem withdraw_eq_payWithdraw (hopen : openWithdraw env q lp = .ok q') (hlev : q'.levPooled lp = 0) :
    withdraw env q lp amount recipient = payWithdraw env q' lp amount recipient := by
  have hcloses : ¬ Closes q' lp amount := fun h => h.1.ne' hlev
  rw [withdraw, hopen, ok_bind, closeLev, if_neg hcloses, ok_bind]

end

/-- A withdrawal underflows exactly when ether.fi serves none of it while the dollars in its place are worth more. -/
theorem withdraw_underflow_iff {priceWad : ℕ} {cs : List (Env × Call)} {env : Env} {q : State}
    {lp : Address} (recipient : Address) {amount : ℕ} (hrun : runAll step (deployed priceWad) cs = .ok q)
    (hlev : Unlevered env q lp) (hamount : amount ≤ (q.autoManaged lp).pooled) :
    (withdraw env q lp amount recipient = .error .underflow ↔ amount < usdLegEther env q amount ∧
        ∃ w, openWithdraw env q lp = .ok w ∧ PaysUsdLeg env w amount recipient) ∧
    ∀ q', withdraw env q lp amount recipient = .ok q' →
      (q.autoManaged lp).pooled ≤ (q'.autoManaged lp).pooled + amount := by
  have hshares : amount ≤ q.lpShares := by
    rw [(balanced_of_run hrun).sharesAdd.lpShares]
    refine hamount.trans ?_
    exact Finset.single_le_sum (fun a _ => Nat.zero_le (q.autoManaged a).pooled) (Finset.mem_univ lp)
  cases hopen : openWithdraw env q lp with
  | error e =>
    have herror : withdraw env q lp amount recipient = .error e := by
      rw [withdraw, hopen]
      rfl
    rw [herror]
    refine ⟨⟨fun h => ?_, ?_⟩, nofun⟩
    · exact absurd (hopen.trans (congrArg _ (Except.error.inj h))) hlev.safe_openWithdraw
    · rintro ⟨-, w, hw, -⟩
      cases hw
  | ok w =>
    obtain ⟨hlev', hpooled, hsame, hworth⟩ := hlev.openWithdraw amount hopen
    rw [withdraw_eq_payWithdraw hopen hlev'.levPooled]
    refine ⟨?_, fun q' hpay => ?_⟩
    · rw [payWithdraw_underflow_iff hlev'.levPooled hlev'.levBuf (hpooled ▸ hamount) (hsame ▸ hshares), hworth]
      simp
    · obtain ⟨n, u, hn, hretires, hfinish⟩ := payWithdraw_retires hpay
      obtain ⟨c, hc, rfl⟩ := hretires.eq
      rw [finishWithdraw_pooled hfinish, State.retired_pooled]
      omega

def boughtRun : List (Env × Call) :=
  [(quietEnv, .deposit (10 ^ 18) 5),
    (quietEnv, .swapTo ⟨3, true, 15 * 10 ^ 8, 1, 6, 6⟩)]

theorem withdraw_underflow_iff_steady : ∃ q q', runAll step (deployed (2 * 10 ^ 21)) boughtRun = .ok q ∧
    Unlevered laterEnv q 5 ∧ (q.autoManaged 5).pooled = 10 ^ 18 ∧
    withdraw laterEnv q 5 (5 * 10 ^ 17) 5 ≠ .error .underflow ∧ withdraw laterEnv q 5 (5 * 10 ^ 17) 5 = .ok q' ∧
    10 ^ 18 ≤ (q'.autoManaged 5).pooled + 5 * 10 ^ 17 := by
  obtain ⟨q, hq, q', hq', hlev, hshares, hworth⟩ : ∃ q, runAll step (deployed (2 * 10 ^ 21)) boughtRun = .ok q ∧
      ∃ q', withdraw laterEnv q 5 (5 * 10 ^ 17) 5 = .ok q' ∧
        Unlevered laterEnv q 5 ∧ (q.autoManaged 5).pooled = 10 ^ 18 ∧
        usdLegEther laterEnv q (5 * 10 ^ 17) ≤ 5 * 10 ^ 17 := by
    simp only [unlevered_iff]
    decide +kernel
  have hamount : 5 * 10 ^ 17 ≤ (q.autoManaged 5).pooled := by omega
  obtain ⟨hiff, hkeeps⟩ := withdraw_underflow_iff 5 hq hlev hamount
  refine ⟨q, q', hq, hlev, hshares, fun hunderflow => ?_, hq', hshares.ge.trans (hkeeps q' hq')⟩
  exact absurd (hiff.mp hunderflow).1 (not_lt.mpr hworth)

theorem withdraw_traps : ∃ q, runAll step (deployed (2 * 10 ^ 21)) boughtRun = .ok q ∧
    Unlevered { laterEnv with price := 10 ^ 21 } q 5 ∧
    (q.autoManaged 5).pooled = 10 ^ 18 ∧
    q.lastDepositBlock 5 < laterEnv.blockNumber ∧
    withdraw { laterEnv with price := 10 ^ 21 } q 5 (10 ^ 18) 5 =
      .error .underflow := by
  simp only [unlevered_iff]
  decide +kernel

end QuidProtocol.Quid
