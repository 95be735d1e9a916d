import QuidProtocol.Lib.FeeIndex
import QuidProtocol.Vault.Delivery
import QuidProtocol.Vault.Shares

/-!
The fees of the vault: `USD_FEES` is a fee index over the shares and buffers of the LPs.
The fees over whole runs of the vault.
-/

namespace QuidProtocol.Vault

open Lib
open Basket (Address)

def State.fees (v : State) : FeeIndex Address where
  index := v.usdFees
  account a := ⟨(v.autoManaged a).pooled + v.levBuf a, (v.autoManaged a).feesUsd, (v.autoManaged a).usdOwed⟩

def feesDue (v : State) (a : Address) : ℕ := v.fees.due wad a

def settlePays (v : State) (lp payTo : Address) : ℕ :=
  if payTo = 0 ∨ (v.autoManaged lp).pooled + v.levBuf lp = 0 then 0 else feesDue v lp

def resizePays (v : State) (lp : Address) (full : Bool) (shrinkSats : ℕ) : ℕ :=
  if Idle v lp ∨ (full = false ∧ shrinkSats = 0) then 0 else settlePays v lp lp

theorem wad_pos : 0 < wad := by decide

section

variable {env : Env} {v v' w : State} {d d' : Deposit} {lp payTo : Address} {n k p : ℕ}

theorem refreshBookmarks_eq {weight usd} (h : refreshBookmarks d weight usd = .ok d') :
    d' = { d with feesUsd := weight * usd / wad } := by
  obtain ⟨fees, hfees, h⟩ := of_bind h
  obtain ⟨-, rfl⟩ := fullMulDiv_eq_ok.mp hfees
  exact ok_inj h

theorem pendingFor_eq {weight usd} (hweight : weight ≠ 0) (h : pendingFor d weight usd = .ok n) :
    n = weight * usd / wad - d.feesUsd := by
  rw [pendingFor, if_neg hweight] at h
  obtain ⟨owed, howed, h⟩ := of_bind h
  obtain ⟨-, rfl⟩ := fullMulDiv_eq_ok.mp howed
  exact ok_inj h

theorem payFees_eq (h : payFees env d payTo n = .ok d') :
    d' = { d with usdOwed := if payTo = 0 then d.usdOwed + n else 0 } ∧
      (payTo ≠ 0 → mintUsd env payTo (d.usdOwed + n) = .ok ()) := by
  unfold payFees at h
  split_ifs at h with hpay
  · obtain ⟨-, h⟩ := of_checkedAdd h
    obtain ⟨minted, hminted, h⟩ := of_bind h
    have hd := Except.ok.inj h
    rw [if_neg hpay, Nat.add_comm d.usdOwed]
    exact ⟨hd.symm, fun _ => hminted⟩
  · obtain ⟨-, h⟩ := of_checkedAdd h
    have hd := Except.ok.inj h
    rw [if_pos (not_not.mp hpay)]
    exact ⟨hd.symm, fun hne => absurd hne hpay⟩

theorem rebook_deposit (h : rebook v lp = .ok v') : v' = v.setDeposit lp { v.autoManaged lp with
    feesUsd := ((v.autoManaged lp).pooled + v.levBuf lp) * v.usdFees / wad } := by
  obtain ⟨-, h⟩ := of_checkedAdd h
  obtain ⟨d, hd, h⟩ := of_bind h
  have hv := Except.ok.inj h
  rw [← refreshBookmarks_eq hd]
  exact hv.symm

theorem settleLp_deposit (h : settleLp env v lp payTo = .ok v') :
    ∃ d, v' = v.setDeposit lp d ∧ d.pooled = (v.autoManaged lp).pooled ∧
      ((v.autoManaged lp).pooled + v.levBuf lp) * v.usdFees / wad - d.feesUsd = 0 ∧
      d.usdOwed + settlePays v lp payTo ≤ feesDue v lp ∧ mintUsd env payTo (settlePays v lp payTo) = .ok () := by
  obtain ⟨-, h⟩ := of_checkedAdd h
  obtain ⟨d, hd, h⟩ := of_bind h
  have hv := Except.ok.inj h
  refine ⟨d, hv.symm, settleBtcLp_pooled hd, ?_⟩
  unfold settleBtcLp at hd
  unfold settlePays
  split_ifs at hd with hzero
  · cases hd
    rw [if_pos (Or.inr hzero), hzero, Nat.zero_mul, Nat.zero_div, Nat.zero_sub]
    exact ⟨rfl, Nat.le_add_right _ _, if_pos rfl⟩
  · obtain ⟨usdR, husdR, d₁, hd₁, hd⟩ := of_bind₂ hd
    obtain ⟨rfl, hmint⟩ := payFees_eq hd₁
    obtain rfl := refreshBookmarks_eq hd
    have hdue : feesDue v lp = (v.autoManaged lp).usdOwed + usdR := by
      rw [pendingFor_eq hzero husdR]
      rfl
    refine ⟨Nat.sub_self _, ?_⟩
    by_cases hpay : payTo = 0
    · rw [if_pos (Or.inl hpay), if_pos hpay, hdue]
      exact ⟨le_rfl, if_pos rfl⟩
    · have hboth : ¬ (payTo = 0 ∨ (v.autoManaged lp).pooled + v.levBuf lp = 0) := not_or.mpr ⟨hpay, hzero⟩
      rw [if_neg hboth, if_neg hpay, hdue]
      exact ⟨(Nat.zero_add _).le, hmint hpay⟩

end

/-! Within a call the premiums stay as they are. -/

structure Settles (v v' : State) (t : Finset Address) (paid : Address → ℕ) : Prop where
  retained : v'.core.feesRetained = v.core.feesRetained
  settled : ∃ s ⊆ t, v.fees.Settled wad v'.fees s paid

section

variable {env : Env} {v v' w u : State} {d : Deposit} {lp payTo : Address} {n k p : ℕ}
variable {t t' : Finset Address} {paid paid' : Address → ℕ}

theorem Settles.of_fees (hretained : v'.core.feesRetained = v.core.feesRetained) (hfees : v'.fees = v.fees) :
    Settles v v' t 0 := by
  refine ⟨hretained, ∅, Finset.empty_subset t, ?_⟩
  rw [hfees]
  exact FeeIndex.Settled.refl v.fees

theorem Settles.trans (h : Settles v w t paid) (h' : Settles w u t paid') : Settles v u t (paid + paid') := by
  obtain ⟨s, hs, hsettled⟩ := h.settled
  obtain ⟨s', hs', hsettled'⟩ := h'.settled
  exact ⟨h'.retained.trans h.retained, s ∪ s', Finset.union_subset hs hs', hsettled.trans wad_pos hsettled'⟩

theorem Settles.andThen (h : Settles v w t 0) (h' : Settles w u t paid) : Settles v u t paid := by
  have hboth := h.trans h'
  rwa [zero_add] at hboth

theorem Settles.before (h : Settles v w t paid) (h' : Settles w u t 0) : Settles v u t paid := by
  have hboth := h.trans h'
  rwa [add_zero] at hboth

theorem Settles.mono (h : Settles v w t paid) (ht : t ⊆ t') : Settles v w t' paid := by
  obtain ⟨s, hs, hsettled⟩ := h.settled
  exact ⟨h.retained, s, hs.trans ht, hsettled⟩

theorem account_setDeposit (v : State) {a} (d : Deposit) (ha : a ≠ lp) :
    (v.setDeposit lp d).fees.account a = v.fees.account a := by
  simp only [State.fees, State.setDeposit_other v d ha]
  rfl

theorem Settles.booked (hretained : v'.core.feesRetained = v.core.feesRetained)
    (hindex : v'.usdFees = v.usdFees) (hkept : ∀ a, a ∉ t → v'.fees.account a = v.fees.account a)
    (howed : ∀ a ∈ t, (v'.autoManaged a).usdOwed ≤ (v.autoManaged a).usdOwed)
    (hbooked : ∀ a ∈ t, v'.fees.pending wad a = 0) : Settles v v' t 0 := by
  refine ⟨hretained, t, Finset.Subset.refl t, hindex.le, fun a ha => ⟨hkept a ha, rfl⟩, hbooked, ?_⟩
  intro a ha
  have hle : wad * (v.autoManaged a).usdOwed ≤ v.fees.liability wad a := Nat.le_add_right _ _
  exact (Nat.mul_le_mul_left wad (howed a ha)).trans hle

theorem Settles.bookedOne (hretained : v'.core.feesRetained = v.core.feesRetained)
    (hindex : v'.usdFees = v.usdFees) (hkept : ∀ a, a ≠ lp → v'.fees.account a = v.fees.account a)
    (howed : (v'.autoManaged lp).usdOwed ≤ (v.autoManaged lp).usdOwed)
    (hbooked : v'.fees.pending wad lp = 0) : Settles v v' {lp} 0 := by
  apply Settles.booked hretained hindex
  · intro a ha
    exact hkept a fun heq => ha (Finset.mem_singleton.mpr heq)
  · intro a ha
    rw [Finset.mem_singleton.mp ha]
    exact howed
  · intro a ha
    rw [Finset.mem_singleton.mp ha]
    exact hbooked

theorem Settles.rebook (h : rebook w lp = .ok v') (hretained : w.core.feesRetained = v.core.feesRetained)
    (hindex : w.usdFees = v.usdFees) (hkept : ∀ a, a ≠ lp → w.fees.account a = v.fees.account a)
    (howed : (w.autoManaged lp).usdOwed = (v.autoManaged lp).usdOwed) : Settles v v' {lp} 0 := by
  obtain rfl := rebook_deposit h
  apply Settles.bookedOne
  · exact hretained
  · exact hindex
  · intro a ha
    rw [← hkept a ha]
    exact account_setDeposit w _ ha
  · rw [State.setDeposit_same]
    exact howed.le
  · simp [FeeIndex.pending, FeeAccount.pending, State.fees, State.setDeposit]

theorem Settles.settleLp (h : settleLp env v lp payTo = .ok v') :
    Settles v v' {lp} (Pi.single lp (settlePays v lp payTo)) := by
  obtain ⟨d, rfl, hpooled, hpending, hdue, -⟩ := settleLp_deposit h
  refine ⟨rfl, {lp}, Finset.Subset.refl _, le_rfl, ?_, ?_, ?_⟩
  · intro a ha
    have hne : a ≠ lp := fun heq => ha (Finset.mem_singleton.mpr heq)
    simp only [State.fees, State.setDeposit_other v _ hne, Pi.single_eq_of_ne hne, and_true]
    rfl
  · intro a ha
    obtain rfl := Finset.mem_singleton.mp ha
    simp only [FeeIndex.pending, FeeAccount.pending, State.fees, State.setDeposit_same, hpooled]
    exact hpending
  · intro a ha
    obtain rfl := Finset.mem_singleton.mp ha
    have hle := (v.fees.account a).due_mul_le wad v.fees.index
    refine le_trans (Nat.mul_le_mul_left wad ?_) hle
    simp only [State.fees, State.setDeposit_same, Pi.single_eq_same]
    exact hdue

theorem Settles.settleLp_owed (h : Vault.settleLp env v lp 0 = .ok v') : Settles v v' {lp} 0 := by
  have hsettles := Settles.settleLp h
  rwa [settlePays, if_pos (Or.inl rfl), Pi.single_zero] at hsettles

end

section

variable {env : Env} {v v' w : State} {c c' : Core} {d : Deposit} {lp payTo : Address} {n k p : ℕ}
variable {t : Finset Address} {paid : Address → ℕ}

theorem modLP_feesRetained {delta usd sender} (h : modLP env c delta usd sender = .ok c') :
    c'.feesRetained = c.feesRetained := by
  obtain ⟨n, x, y, -, rfl⟩ := handleDelta_eq h
  rfl

theorem burnInRange_feesRetained (h : burnInRange env c n = .ok c') : c'.feesRetained = c.feesRetained := by
  unfold burnInRange at h
  dsimp only at h
  split_ifs at h
  · rw [Except.ok.inj h]
  · obtain ⟨px, -, usdOut, -, h⟩ := of_bind₂ h
    exact modLP_feesRetained h

theorem Settles.rebalance (h : rebalance env v = .ok (p, v')) : Settles v v' t 0 := by
  obtain ⟨-, x, y, rfl⟩ := rebalance_eq h
  exact Settles.of_fees rfl rfl

theorem Settles.withCore (hretained : c.feesRetained = v.core.feesRetained) : Settles v { v with core := c } t 0 :=
  Settles.of_fees hretained rfl

theorem Settles.pairLegs (h : pairLegs env v n k lp = .ok v') : Settles v v' t 0 := by
  obtain ⟨tok, -, usd, -, core, hcore, h⟩ := of_bind₃ h
  cases h
  exact Settles.withCore (modLP_feesRetained hcore)

theorem Settles.addPooled (h : addPooled v lp n = .ok v') : Settles v v' {lp} 0 := by
  obtain ⟨pooled, -, h⟩ := of_bind h
  refine Settles.rebook h rfl rfl ?_ ?_
  · intro a ha
    exact account_setDeposit v _ ha
  · rw [State.setDeposit_same]

theorem Settles.pairRegLeg (h : pairRegLeg env v lp n k = .ok v') : Settles v v' {lp} 0 := by
  unfold Vault.pairRegLeg at h
  split_ifs at h
  · cases h
    exact Settles.of_fees rfl rfl
  · obtain ⟨w, hw, h⟩ := of_bind h
    exact (Settles.addPooled hw).andThen (Settles.pairLegs h)

theorem Settles.addUnpaired (h : addUnpaired v lp n = .ok v') : Settles v v' {lp} 0 := by
  unfold Vault.addUnpaired at h
  split_ifs at h
  · cases h
    exact Settles.of_fees rfl rfl
  · exact Settles.addPooled h

theorem Settles.requestDeposit (h : requestDeposit env v lp n = .ok v') : Settles v v' {lp} 0 := by
  obtain ⟨-, rfl⟩ | ⟨px, v1, v2, price, usd, btc, v3, v4, h1, h2, -, h3, -, h4, rfl⟩ := requestDeposit_eq h
  · exact Settles.of_fees rfl rfl
  · have hsettled := (Settles.rebalance h1).andThen (Settles.settleLp_owed h2)
    have hpaired := (hsettled.andThen (Settles.pairRegLeg h3)).andThen (Settles.addUnpaired h4)
    exact hpaired.andThen (Settles.of_fees rfl rfl)

theorem Settles.levBurnAll {burned} (h : levBurnAll env v lp = .ok (burned, v')) : Settles v v' {lp} 0 := by
  obtain ⟨-, -, rfl⟩ | ⟨usdOut, core, -, -, hcore, -, hw⟩ := levBurnAll_eq rfl h
  · exact Settles.of_fees rfl rfl
  · refine Settles.rebook hw (modLP_feesRetained hcore) rfl ?_ ?_
    · intro a ha
      simp [State.fees, State.unlevered, State.setDeposit, ha]
    · rw [State.unlevered, State.setDeposit_same]

variable {price added pooled : ℕ} {a : ResizeArgs}

theorem Settles.levAddNet (h : levAddNet env v lp n price = .ok (added, v')) : Settles v v' {lp} 0 := by
  obtain ⟨-, rfl⟩ | ⟨netUsd, w, -, hw, hu⟩ := levAddNet_eq h
  · exact Settles.of_fees rfl rfl
  · have hlev : Settles w
        { w with levPooled := Function.update w.levPooled lp (w.levPooled lp + added) } {lp} 0 :=
      Settles.of_fees rfl rfl
    exact ((Settles.addPooled hw).andThen hlev).andThen (Settles.pairLegs hu)

theorem Settles.levAddBufOver {gross}
    (h : levAddBufOver env v lp gross n price = .ok (added, v')) : Settles v v' {lp} 0 := by
  obtain ⟨-, rfl⟩ | ⟨bufUsd, w, -, hw, hu⟩ := levAddBufOver_eq h
  · exact Settles.of_fees rfl rfl
  · have hbook : Settles v w {lp} 0 := by
      refine Settles.rebook hw rfl rfl ?_ rfl
      intro a ha
      simp [State.fees, ha]
    exact hbook.andThen (Settles.pairLegs hu)

theorem Settles.levAddGross {added} (h : levAddGross env v lp n = .ok (added, v')) : Settles v v' {lp} 0 := by
  obtain ⟨-, rfl⟩ | ⟨price, w, hw, hu⟩ := levAddGross_eq h
  · exact Settles.of_fees rfl rfl
  · exact (Settles.levAddNet hw).andThen (Settles.levAddBufOver hu)

theorem Settles.syncLev (h : syncLev env v lp = .ok v') : Settles v v' {lp} 0 := by
  obtain ⟨-, rfl⟩ | ⟨px, v1, v2, burned, v3, added, v4, -, h1, h2, h3, h4, h⟩ := syncLev_eq h
  · exact Settles.of_fees rfl rfl
  · obtain ⟨-, -, rfl⟩ := applyDeltas_eq h
    have hsettled := (Settles.rebalance h1).andThen (Settles.settleLp_owed h2)
    have hlegs := (hsettled.andThen (Settles.levBurnAll h3)).andThen (Settles.levAddGross h4)
    exact hlegs.andThen (Settles.of_fees rfl rfl)

theorem Drawn.feesRetained (h : Drawn c n c') : c'.feesRetained = c.feesRetained := by rw [h.eq]

theorem burnLevered_feesRetained (h : burnLevered env v a = .ok c') : c'.feesRetained = v.core.feesRetained := by
  unfold burnLevered at h
  split_ifs at h
  · obtain ⟨c₁, hc₁, h⟩ := of_bind h
    exact (burnInRange_feesRetained h).trans (burnInRange_feesRetained hc₁)
  · rw [Except.ok.inj h]

theorem Settles.resetFees {cleared} (h : Settles v w t paid) : Settles v (resetFees w cleared) t paid := by
  unfold Vault.resetFees
  split_ifs
  · obtain ⟨s, hs, hsettled⟩ := h.settled
    refine ⟨h.retained, s, hs, Nat.zero_le _, hsettled.kept, ?_, hsettled.owed⟩
    intro a ha
    have hzero := (w.fees.account a).pending_mono wad (Nat.zero_le w.usdFees)
    exact Nat.le_zero.mp (hzero.trans (hsettled.pending a ha).le)
  · exact h

theorem finishDeposit_eq {buf usd d'} (h : finishDeposit d pooled buf usd = .ok d') :
    d' = if pooled = 0 then ⟨0, 0, 0⟩ else ⟨pooled, d.usdOwed, (pooled + buf) * usd / wad⟩ := by
  unfold finishDeposit at h
  split_ifs at h ⊢
  · exact ok_inj h
  · obtain ⟨-, h⟩ := of_checkedAdd h
    have hd := refreshBookmarks_eq h
    exact hd

theorem resetFees_levBuf (v cleared) : (resetFees v cleared).levBuf = v.levBuf := by
  unfold resetFees
  split_ifs <;> rfl

theorem resetFees_autoManaged (v cleared) : (resetFees v cleared).autoManaged = v.autoManaged := by
  unfold resetFees
  split_ifs <;> rfl

theorem Settles.resizedFull {core} (hretained : core.feesRetained = w.core.feesRetained)
    (hfull : a.full = true) : Settles w (w.resized a core ⟨0, 0, 0⟩) {a.lpEth} 0 := by
  simp only [State.resized, hfull, clearLevered, if_true]
  apply Settles.bookedOne
  · exact hretained
  · rfl
  · intro x hx
    simp [State.fees, State.setDeposit, hx]
  · simp [State.setDeposit]
  · simp [FeeIndex.pending, FeeAccount.pending, State.fees, State.setDeposit]

theorem Settles.resizedPart {core} (hretained : core.feesRetained = w.core.feesRetained) (hfull : a.full = false)
    (hd : finishDeposit (w.autoManaged a.lpEth) pooled (w.levBuf a.lpEth) w.usdFees = .ok d)
    (hkeeps : w.levBuf a.lpEth = 0 ∨ pooled ≠ 0) : Settles w (w.resized a core d) {a.lpEth} 0 := by
  obtain rfl := finishDeposit_eq hd
  simp only [State.resized, hfull, clearLevered, Bool.false_eq_true, if_false]
  apply Settles.bookedOne
  · exact hretained
  · rfl
  · intro x hx
    exact account_setDeposit _ _ hx
  · rw [State.setDeposit_same]
    split_ifs
    · exact Nat.zero_le _
    · exact le_rfl
  · simp only [FeeIndex.pending, FeeAccount.pending, State.fees, State.setDeposit_same]
    split_ifs with hempty
    · have hbuf := hkeeps.resolve_right (not_not.mpr hempty)
      simp [State.setDeposit, hbuf]
    · exact Nat.sub_self _

theorem Settles.resizeBtcLpTail (h : resizeBtcLpTail env v a = .ok v')
    (hkeeps : v'.levBuf a.lpEth = 0 ∨ (v'.autoManaged a.lpEth).pooled ≠ 0) :
    Settles v v' {a.lpEth} (Pi.single a.lpEth (settlePays v a.lpEth a.lpEth)) := by
  obtain ⟨w, core, d, htail⟩ := resizeBtcLpTail_eq h
  obtain ⟨slice, core₁, core₂, h₁, h₂, h₃⟩ := htail.burned
  have hretained : core.feesRetained = w.core.feesRetained :=
    (burnLevered_feesRetained h₃).trans
      ((burnInRange_feesRetained h₂).trans (settleDelivered_drawn h₁).feesRetained)
  rw [htail.eq, resetFees_levBuf, resetFees_autoManaged] at hkeeps
  rw [htail.eq]
  refine (Settles.settleLp htail.settled).before (Settles.resetFees ?_)
  have hrecord := htail.record
  cases hfull : a.full with
  | true =>
    have hnone : (w.autoManaged a.lpEth).pooled - sharesRemoved w a = 0 := by
      rw [sharesRemoved, if_pos hfull, Nat.sub_self]
    rw [hnone] at hrecord
    rw [finishDeposit_eq hrecord]
    exact Settles.resizedFull hretained hfull
  | false =>
    have hpooled := finishDeposit_pooled hrecord
    simp only [State.resized, hfull, clearLevered, Bool.false_eq_true, if_false, State.setDeposit_same,
      hpooled] at hkeeps
    exact Settles.resizedPart hretained hfull hrecord hkeeps

theorem Settles.resizeBody (h : resizeBody env v a = .ok v')
    (hkeeps : v'.levBuf a.lpEth = 0 ∨ (v'.autoManaged a.lpEth).pooled ≠ 0) :
    Settles v v' {a.lpEth} (Pi.single a.lpEth (resizePays v a.lpEth a.full a.shrinkSats)) := by
  unfold Vault.resizeBody at h
  dsimp only at h
  split_ifs at h with hidle hnothing
  · have hpays : resizePays v a.lpEth a.full a.shrinkSats = 0 := if_pos (Or.inl hidle)
    rw [hpays, Pi.single_zero, Except.ok.inj h]
    exact Settles.of_fees rfl rfl
  · have hpays : resizePays v a.lpEth a.full a.shrinkSats = 0 := if_pos (Or.inr hnothing)
    rw [hpays, Pi.single_zero, Except.ok.inj h]
    exact Settles.of_fees rfl rfl
  all_goals
    have hpays : resizePays v a.lpEth a.full a.shrinkSats = settlePays v a.lpEth a.lpEth :=
      if_neg (not_or.mpr ⟨hidle, hnothing⟩)
    obtain ⟨⟨px, w⟩, hw, h⟩ := of_bind h
    have hsame : settlePays w a.lpEth a.lpEth = settlePays v a.lpEth a.lpEth := by
      obtain ⟨-, x, y, rfl⟩ := rebalance_eq hw
      rfl
    have htail := Settles.resizeBtcLpTail h hkeeps
    rw [hpays, ← hsame]
    exact (Settles.rebalance hw).andThen htail

theorem Settles.resizeLp {full shrink payout exactUsd} (h : resizeLp env v lp shrink payout full exactUsd = .ok v')
    (hkeeps : v'.levBuf lp = 0 ∨ (v'.autoManaged lp).pooled ≠ 0) :
    ∃ w, Vault.syncLev env v lp = .ok w ∧ Settles v v' {lp} (Pi.single lp (resizePays w lp full shrink)) := by
  obtain ⟨w, hw, ⟨delev, core⟩, hcore, h⟩ := of_bind₂ h
  have hdelever : Settles w { w with core } {lp} 0 := Settles.withCore (deleverFirst_drawn hcore).2.1.feesRetained
  have hbody := Settles.resizeBody h hkeeps
  exact ⟨w, hw, ((Settles.syncLev hw).andThen hdelever).andThen hbody⟩

theorem Settles.collect (h : collect env v lp = .ok v') :
    ∃ px w₁ w, Vault.rebalance env v = .ok (px, w₁) ∧ Vault.syncLev env w₁ lp = .ok w ∧
      Settles v v' {lp} (Pi.single lp (settlePays w lp lp)) := by
  obtain ⟨⟨px, w₁⟩, h₁, w, hw, h⟩ := of_bind₂ h
  have hsync := (Settles.rebalance h₁).andThen (Settles.syncLev hw)
  exact ⟨px, w₁, w, h₁, hw, hsync.andThen (Settles.settleLp h)⟩

theorem Settles.rebalanceFor (h : rebalanceFor env v n = .ok v') : Settles v v' t 0 := by
  unfold Vault.rebalanceFor at h
  split_ifs at h
  · obtain ⟨⟨px, w⟩, hw, h⟩ := of_bind h
    cases h
    exact Settles.rebalance hw
  · cases h
    exact Settles.of_fees rfl rfl

theorem Settles.moveShares {source dest} (h : moveShares v source dest n = .ok v') : Settles v v' {source, dest} 0 := by
  obtain ⟨left, -, grown, -, w, hw, hlast⟩ := of_bind₃ h
  obtain rfl := rebook_deposit hw
  obtain rfl := rebook_deposit hlast
  have hcase : ∀ a ∈ ({source, dest} : Finset Address), a = dest ∨ (a ≠ dest ∧ a = source) := by
    intro a ha
    by_cases hd : a = dest
    · exact Or.inl hd
    · exact Or.inr ⟨hd, (Finset.mem_insert.mp ha).resolve_right fun hmem => hd (Finset.mem_singleton.mp hmem)⟩
  apply Settles.booked
  · rfl
  · rfl
  · intro a ha
    have hs : a ≠ source := fun heq => ha (Finset.mem_insert.mpr (Or.inl heq))
    have hd : a ≠ dest := fun heq => ha (Finset.mem_insert.mpr (Or.inr (Finset.mem_singleton.mpr heq)))
    simp [State.fees, State.setDeposit, hs, hd]
  · intro a ha
    obtain rfl | ⟨hne, rfl⟩ := hcase a ha
    · by_cases hsame : a = source
      all_goals simp [State.setDeposit, hsame]
    · simp [State.setDeposit, hne]
  · intro a ha
    obtain rfl | ⟨hne, rfl⟩ := hcase a ha
    · simp [FeeIndex.pending, FeeAccount.pending, State.fees, State.setDeposit]
    · simp [FeeIndex.pending, FeeAccount.pending, State.fees, State.setDeposit, hne]

theorem Settles.transferShares {source dest} (h : transferShares env v source dest n = .ok v') :
    Settles v v' {source, dest} 0 := by
  obtain ⟨w, hw, h⟩ := of_bind h
  obtain ⟨-, -, h⟩ := of_require₂ h
  apply (Settles.rebalanceFor hw).andThen
  split_ifs at h
  · cases h
    exact Settles.of_fees rfl rfl
  · obtain ⟨v₁, h₁, v₂, h₂, h⟩ := of_bind₂ h
    have hsource : Settles w v₁ {source, dest} 0 := by
      apply (Settles.settleLp_owed h₁).mono
      simp
    have hdest : Settles v₁ v₂ {source, dest} 0 := by
      unfold settleReceiver at h₂
      split_ifs at h₂
      · apply (Settles.settleLp_owed h₂).mono
        simp
      · cases h₂
        exact Settles.of_fees rfl rfl
    exact (hsource.andThen hdest).andThen (Settles.moveShares h)

end

/-! A swap retains a premium: one credit to the index. -/

structure Credits (v v' : State) (premium : ℕ) : Prop where
  retained : v'.core.feesRetained = v.core.feesRetained + premium
  credited : v.fees.Credited wad v'.fees premium (v.lpShares + v.totalBuffer)

section

variable {env : Env} {v v' : State} {c c' : Core} {n k : ℕ}

variable {usd native amount : ℕ} {recipient token : Address}

theorem Credits.recordFee (h : recordFee v usd native = .ok v') : Credits v v' usd := by
  obtain ⟨kept, -, h⟩ := of_bind h
  split_ifs at h with h0
  · cases h
    exact ⟨h0 ▸ rfl, Nat.le_add_right _ _, rfl⟩
  · obtain ⟨retained, hretained, shares, hshares, inc, hinc, usdFees, husd, h⟩ := of_bind₄ h
    obtain ⟨pooledUsd, -, h⟩ := of_bind h
    cases h
    refine ⟨(add_eq_ok.mp hretained).2.symm, ?_, rfl⟩
    have hle : inc ≤ usd * wad / (v.lpShares + v.totalBuffer) := by
      rw [(add_eq_ok.mp hshares).2]
      unfold feeIncrements at hinc
      split_ifs at hinc
      · cases hinc
        exact Nat.zero_le _
      · exact (fullMulDiv_eq_ok.mp hinc).2.ge
    have hsum : v.usdFees + inc = usdFees := (add_eq_ok.mp husd).2
    exact hsum ▸ Nat.add_le_add_left hle _

theorem recordFee_usdFees_le (h : Vault.recordFee v usd native = .ok v') : v.usdFees ≤ v'.usdFees := by
  obtain ⟨kept, -, h⟩ := of_bind h
  split_ifs at h
  · rw [← Except.ok.inj h]
  · obtain ⟨retained, -, shares, -, inc, -, usdFees, husd, h⟩ := of_bind₄ h
    obtain ⟨pooledUsd, -, h⟩ := of_bind h
    cases h
    exact (add_eq_ok.mp husd).2 ▸ Nat.le_add_right _ _

theorem routeSwap_feesRetained {inputIsUsd pooled px out used}
    (h : routeSwap env c recipient inputIsUsd token amount pooled px = .ok (out, used, c')) :
    c'.feesRetained = c.feesRetained := by
  obtain ⟨most, -, h⟩ := of_bind h
  dsimp only at h
  split_ifs at h
  · obtain ⟨-, hrest⟩ := ok_pair_inj h
    rw [(Prod.mk.inj hrest).2]
  · obtain ⟨⟨sent, c₁⟩, hswap, h⟩ := of_bind h
    obtain ⟨-, hrest⟩ := ok_pair_inj h
    obtain ⟨price, -, ⟨delta, filled⟩, -, c₂, hc₂, hswap⟩ := of_bind₃ hswap
    obtain ⟨n, x, y, -, rfl⟩ := handleDelta_eq hc₂
    rw [← (Prod.mk.inj hrest).2, ← (ok_pair_inj hswap).2]

theorem Credits.within {w u p} (hre : rebalance env v = .ok (p, w))
    (hfee : Vault.recordFee w usd native = .ok u) (hcore : c.feesRetained = u.core.feesRetained) :
    Credits v { u with core := c } usd := by
  obtain ⟨-, x, y, rfl⟩ := rebalance_eq hre
  obtain ⟨hretained, hcredited⟩ := Credits.recordFee hfee
  exact ⟨hcore.trans hretained, hcredited⟩

theorem creditSwapIn_credits {seller consumed}
    (h : creditSwapIn env v seller n token k = .ok (consumed, v')) : ∃ usd, Credits v v' usd := by
  obtain ⟨-, rfl⟩ | ⟨px, v₁, amount, v₂, delivered, used, core, h₁, h₂, hroute, -, -, rfl⟩ := creditSwapIn_eq h
  · exact ⟨0, rfl, Nat.le_add_right _ _, rfl⟩
  · obtain ⟨usd, native, hfee⟩ := retainNative_eq h₂
    exact ⟨usd, Credits.within h₁ hfee (routeSwap_feesRetained hroute)⟩

theorem creditSwapOut_credits {swapper sats usd6}
    (h : creditSwapOut env v swapper token n k = .ok (sats, usd6, v')) : ∃ usd, Credits v v' usd := by
  obtain ⟨-, -, rfl⟩ | ⟨deposited, amount6, px, v₁, amount, v₂, used, core, -, -, h₁, h₂, hroute, -, rfl⟩ :=
    creditSwapOut_eq h
  · exact ⟨0, rfl, Nat.le_add_right _ _, rfl⟩
  · obtain ⟨-, usd, hfee⟩ := retainUsd_eq h₂
    exact ⟨usd, Credits.within h₁ hfee (routeSwap_feesRetained hroute)⟩

theorem swapTo_credits (h : swapTo env v token amount n recipient = .ok v') : ∃ usd, Credits v v' usd := by
  obtain ⟨amount6, px, v₁, left, v₂, out, used, core, h₁, h₂, hroute, rfl⟩ := swapTo_eq h
  obtain ⟨-, usd, hfee⟩ := retainUsd_eq h₂
  exact ⟨usd, Credits.within h₁ hfee (routeSwap_feesRetained hroute)⟩

end

def collectPays (env : Env) (v : State) (lp : Address) : ℕ :=
  match rebalance env v with
  | .error _ => 0
  | .ok (_, w) =>
    match syncLev env w lp with
    | .error _ => 0
    | .ok w => settlePays w lp lp

def resizeLpPays (env : Env) (v : State) (lp : Address) (full : Bool) (shrinkSats : ℕ) : ℕ :=
  match syncLev env v lp with
  | .error _ => 0
  | .ok w => resizePays w lp full shrinkSats

def feesMinted (env : Env) (v : State) : Call → ℕ
  | .anyone (.collectFees sender) => collectPays env v sender
  | .anyone (.compound lp) => if (v.autoManaged lp).pooled = 0 then 0 else collectPays env v lp
  | .requestRedeem lpEth _ => resizeLpPays env v lpEth true 0
  | .resize lpEth shrinkSats _ _ => resizeLpPays env v lpEth false shrinkSats
  | _ => 0

def bookmarksOf : Call → Finset Address
  | .anyone (.transferShares source dest _) => {source, dest}
  | .anyone (.syncLev lp) => {lp}
  | .anyone (.collectFees sender) => {sender}
  | .anyone (.compound lp) => {lp}
  | .requestDeposit lpEth _ => {lpEth}
  | .requestRedeem lpEth _ => {lpEth}
  | .resize lpEth _ _ _ => {lpEth}
  | _ => ∅

def bookmarkDust (v : State) (c : Call) : ℕ := ∑ a ∈ bookmarksOf c, v.fees.dust wad a

def Bookmarked (v : State) (lp : Address) : Prop := v.levBuf lp = 0 ∨ (v.autoManaged lp).pooled ≠ 0
  deriving Decidable

def KeepsBookmark (v : State) : Env × Call → Prop
  | (env, .resize lpEth shrinkSats lpPayoutSats exactUsd) =>
    ∀ v', resize env v lpEth shrinkSats lpPayoutSats exactUsd = .ok v' → Bookmarked v' lpEth
  | _ => True

instance decidableKeepsBookmark (v : State) (c : Env × Call) : Decidable (KeepsBookmark v c) := by
  unfold KeepsBookmark
  split <;> infer_instance

section

variable {env : Env} {v v' : State} {lp : Address} {t : Finset Address} {paid : Address → ℕ}

theorem Balanced.weights_le (h : Balanced v) : ∑ a, (v.fees.account a).weight ≤ v.lpShares + v.totalBuffer := by
  obtain ⟨b, hb⟩ := h
  have hsum : ∑ a, (v.fees.account a).weight = ∑ a, (b.plain a + b.lev a + b.buf a) := by
    apply Finset.sum_congr rfl
    intro a _
    have hpooled := hb.pooled a
    have hbuf : v.levBuf a = b.buf a := congrFun hb.levBuf a
    simp only [State.fees, hpooled, hbuf]
  rw [hsum, Finset.sum_add_distrib, Finset.sum_add_distrib, hb.lpShares, hb.totalBuffer]
  exact le_rfl

def Accounted (env : Env) (v v' : State) (c : Call) : Prop :=
  ∑ a, v'.fees.liability wad a + wad * (feesMinted env v c + v.core.feesRetained) ≤
    ∑ a, v.fees.liability wad a + wad * v'.core.feesRetained + bookmarkDust v' c

theorem Settles.accounted {c} (h : Settles v v' (bookmarksOf c) paid)
    (hpaid : ∑ a, paid a = feesMinted env v c) : Accounted env v v' c := by
  obtain ⟨s, hs, hsettled⟩ := h.settled
  have hle := hsettled.liability_le
  have hdust : ∑ a ∈ s, v'.fees.dust wad a ≤ bookmarkDust v' c := Finset.sum_le_sum_of_subset hs
  rw [hpaid] at hle
  unfold Accounted
  rw [h.retained, Nat.mul_add]
  omega

theorem Settles.accounted_unpaid {c} (h : Settles v v' (bookmarksOf c) 0)
    (hpaid : feesMinted env v c = 0) : Accounted env v v' c :=
  h.accounted (Finset.sum_const_zero.trans hpaid.symm)

theorem Credits.accounted {c usd} (hbalanced : Balanced v) (h : Credits v v' usd)
    (hpaid : feesMinted env v c = 0) : Accounted env v v' c := by
  have hle := h.credited.liability_le hbalanced.weights_le
  unfold Accounted
  rw [hpaid, h.retained, Nat.zero_add, Nat.mul_add]
  omega

theorem sum_single (lp n) : ∑ a, (Pi.single lp n : Address → ℕ) a = n := by simp

theorem collect_accounted {c} (hc : bookmarksOf c = {lp})
    (hpays : feesMinted env v c = collectPays env v lp) (h : collect env v lp = .ok v') : Accounted env v v' c := by
  obtain ⟨px, w₁, w, hre, hsync, hsettles⟩ := Settles.collect h
  rw [← hc] at hsettles
  apply hsettles.accounted
  rw [sum_single, hpays]
  simp only [collectPays, hre, hsync]

theorem resizeLp_accounted {c full shrink payout exactUsd} (hc : bookmarksOf c = {lp})
    (hpays : feesMinted env v c = resizeLpPays env v lp full shrink)
    (h : resizeLp env v lp shrink payout full exactUsd = .ok v') (hkeeps : Bookmarked v' lp) :
    Accounted env v v' c := by
  obtain ⟨w, hsync, hsettles⟩ := Settles.resizeLp h hkeeps
  rw [← hc] at hsettles
  apply hsettles.accounted
  rw [sum_single, hpays]
  simp only [resizeLpPays, hsync]

theorem Balanced.bookmarked_redeem {shrink payout exactUsd} (h : Balanced v)
    (hok : Vault.resizeLp env v lp shrink payout true exactUsd = .ok v') : Bookmarked v' lp := by
  obtain ⟨b, hb⟩ := h
  obtain ⟨lev, buf, hend⟩ := hb.resizeLp hok
  refine Or.inl ?_
  rw [hend.levBuf]
  simp [Book.resized, Book.clear, Book.relever]

theorem execPublic_accounted {c} (hbalanced : Balanced v) (hok : execPublic env v c = .ok v') :
    Accounted env v v' (.anyone c) := by
  cases c with
  | transferShares => exact (Settles.transferShares hok).accounted_unpaid rfl
  | syncLev => exact (Settles.syncLev hok).accounted_unpaid rfl
  | collectFees =>
    obtain ⟨-, hok⟩ := of_require hok
    exact collect_accounted rfl rfl hok
  | compound =>
    simp only [execPublic, compound] at hok
    split_ifs at hok with hempty
    · cases hok
      exact (Settles.of_fees rfl rfl).accounted_unpaid (if_pos hempty)
    · exact collect_accounted rfl (if_neg hempty) hok
  | setLevManager =>
    obtain ⟨-, -, hok⟩ := of_require₂ hok
    cases hok
    refine Settles.accounted_unpaid ?_ rfl
    exact Settles.of_fees rfl rfl
  | repack => exact (Settles.rebalanceFor hok).accounted_unpaid rfl
  | swapTo =>
    obtain ⟨usd, hcredits⟩ := swapTo_credits hok
    exact hcredits.accounted hbalanced rfl

theorem exec_accounted {c} (hbalanced : Balanced v) (hkeeps : KeepsBookmark v (env, c))
    (hok : exec env v c = .ok v') : Accounted env v v' c := by
  cases c with
  | anyone => exact execPublic_accounted hbalanced hok
  | requestDeposit => exact (Settles.requestDeposit hok).accounted_unpaid rfl
  | requestRedeem =>
    exact resizeLp_accounted rfl rfl hok (hbalanced.bookmarked_redeem hok)
  | resize => exact resizeLp_accounted rfl rfl hok (hkeeps v' hok)
  | creditSwapIn =>
    obtain ⟨⟨consumed, w⟩, hw, hok⟩ := of_bind hok
    cases hok
    obtain ⟨usd, hcredits⟩ := creditSwapIn_credits hw
    exact hcredits.accounted hbalanced rfl
  | creditSwapOut =>
    obtain ⟨⟨sats, usd6, w⟩, hw, hok⟩ := of_bind hok
    cases hok
    obtain ⟨usd, hcredits⟩ := creditSwapOut_credits hw
    exact hcredits.accounted hbalanced rfl
  | addPendingSwapOut usd6 | subPendingSwapOut usd6 =>
    obtain ⟨core, hcore, hok⟩ := of_bind hok
    obtain ⟨pending, -, hcore⟩ := of_bind hcore
    cases hcore
    cases hok
    exact (Settles.withCore rfl).accounted_unpaid rfl

end

/-! A run, with the fees that were minted and the rounding of the bookmarks counted beside it. -/

structure FeeRun where
  vault : State
  minted : ℕ
  dust : ℕ

namespace FeeRun

def start (priceWad : ℕ) : FeeRun := ⟨deployed priceWad, 0, 0⟩

def step (s : FeeRun) (c : Env × Call) : Res FeeRun := do
  let vault ← Vault.step s.vault c
  .ok ⟨vault, s.minted + feesMinted c.1 s.vault c.2, s.dust + bookmarkDust vault c.2⟩

def Covered (s : FeeRun) : Prop := s.minted + ∑ a, feesDue s.vault a ≤ s.vault.core.feesRetained

structure Sound (s : FeeRun) : Prop where
  balanced : Balanced s.vault
  covered : ∑ a, s.vault.fees.liability wad a + wad * s.minted ≤ wad * s.vault.core.feesRetained + s.dust

theorem sound_start (priceWad : ℕ) : (start priceWad).Sound where
  balanced := balanced_deployed priceWad
  covered := by
    have hzero : ∀ a, (deployed priceWad).fees.liability wad a = 0 := by
      intro a
      simp [FeeIndex.liability, FeeAccount.liability, State.fees, deployed]
    simp [start, hzero]

theorem Sound.step {s s' : FeeRun} {c : Env × Call} (h : s.Sound) (hkeeps : KeepsBookmark s.vault c)
    (hok : s.step c = .ok s') : s'.Sound := by
  obtain ⟨env, call⟩ := c
  obtain ⟨vault, hvault, hok⟩ := of_bind hok
  cases hok
  obtain ⟨b, hb⟩ := h.balanced
  have hcall := exec_accounted h.balanced hkeeps hvault
  have hcovered := h.covered
  refine ⟨hb.exec hvault, ?_⟩
  unfold Accounted at hcall
  dsimp only
  rw [Nat.mul_add] at hcall ⊢
  omega

theorem Sound.due_le {s : FeeRun} (h : s.Sound) :
    wad * (s.minted + ∑ a, feesDue s.vault a) ≤ wad * s.vault.core.feesRetained + s.dust :=
  FeeIndex.due_le_of_liability_le h.covered

/-- The fees exceed the premiums by no more than the bookmarks were rounded down. -/
theorem fees_covered_by_premiums (priceWad : ℕ) (cs : List (Env × Call))
    (hkeeps : EveryStep step (fun s c => KeepsBookmark s.vault c) (start priceWad) cs) : EveryState step (fun s =>
      wad * (s.minted + ∑ a, feesDue s.vault a) ≤ wad * s.vault.core.feesRetained + s.dust ∧
        (s.dust < wad → s.Covered)) (start priceWad) cs := by
  refine everyState_of_invariant ?_ ?_ (sound_start priceWad) hkeeps
  · intro s hs
    exact ⟨hs.due_le, FeeIndex.le_of_mul_le_add_dust hs.due_le⟩
  · intro s c s' hs hkeep hok
    exact hs.step hkeep hok

theorem fees_covered_by_premiums_sharesRun : (∃ s, runAll step (start (10 ^ 33)) sharesRun = .ok s ∧ 0 < s.minted) ∧
      EveryStep step (fun s c => KeepsBookmark s.vault c) (start (10 ^ 33)) sharesRun ∧ EveryState step (fun s =>
        wad * (s.minted + ∑ a, feesDue s.vault a) ≤ wad * s.vault.core.feesRetained + s.dust ∧
          (s.dust < wad → s.Covered)) (start (10 ^ 33)) sharesRun := by
  have hkeeps : EveryStep step (fun s c => KeepsBookmark s.vault c) (start (10 ^ 33)) sharesRun := by decide +kernel
  exact ⟨by decide +kernel, hkeeps, fees_covered_by_premiums _ _ hkeeps⟩

def bufferRun : List (Env × Call) :=
  let lp := 5
  let levered := { quietEnv with
    grossCollateral := fun _ => 50000
    debtUsd := fun _ => 5 * 10 ^ 19 }
  [(quietEnv, .requestDeposit lp 100000), (quietEnv, .anyone (.setLevManager 9)),
   (quietEnv, .anyone (.swapTo 3 (10 ^ 8) 1 lp)),
   (levered, .anyone (.syncLev lp)),
   (levered, .resize lp 100000 100000 0)]

theorem fees_exceed_premiums : ∃ s, runAll step (start (10 ^ 33)) bufferRun = .ok s ∧ s.dust = 0 ∧
    s.vault.core.feesRetained < s.minted + ∑ a, feesDue s.vault a := by
  refine exists_ok (fun s => s.dust = 0 ∧ s.vault.core.feesRetained < s.minted + feesDue s.vault 5)
    (by decide +kernel) ?_
  rintro s - ⟨hdust, hlt⟩
  have hone : feesDue s.vault 5 ≤ ∑ a, feesDue s.vault a :=
    Finset.single_le_sum (fun _ _ => Nat.zero_le _) (Finset.mem_univ _)
  exact ⟨hdust, by omega⟩

end FeeRun

end QuidProtocol.Vault
