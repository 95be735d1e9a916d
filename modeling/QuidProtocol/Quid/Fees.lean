import QuidProtocol.Quid.Steps

/-!
The fees of the ether range, account by account.
-/

namespace QuidProtocol.Quid

open Lib Function
open Basket (Address)
open Vault (Deposit Book wad)

def banked (q : State) (a : Address) : ℕ := (q.autoManaged a).usdOwed + q.feesPaid a

def earned (q : State) (a : Address) : ℕ := Vault.feesDue q.toState a + q.feesPaid a

theorem earned_eq (q a) : earned q a = banked q a + q.fees.pending wad a := Nat.add_right_comm _ _ _

/-- What a settlement passes over: the fees pending to an account without shares. -/
def passedOver (q : State) (lp : Address) : ℕ := if (q.autoManaged lp).pooled = 0 then q.fees.pending wad lp else 0

theorem passedOver_le (q lp) : passedOver q lp ≤ q.fees.pending wad lp := by
  unfold passedOver
  split_ifs <;> omega

/-! The legs of a levered position move the weight and the bookmark of one account. -/

structure LegsOf (v w : Vault.State) (lp : Address) : Prop where
  deposit : ∀ a, a ≠ lp → w.autoManaged a = v.autoManaged a
  levBuf : ∀ a, a ≠ lp → w.levBuf a = v.levBuf a
  owed : (w.autoManaged lp).usdOwed = (v.autoManaged lp).usdOwed
  usdFees : w.usdFees = v.usdFees
  retained : w.core.feesRetained = v.core.feesRetained

section

variable {env : Env} {v w u : Vault.State} {lp : Address} {d : Deposit} {n k : ℕ}

theorem LegsOf.refl (v lp) : LegsOf v v lp := ⟨fun _ _ => rfl, fun _ _ => rfl, rfl, rfl, rfl⟩

theorem LegsOf.trans (h : LegsOf v w lp) (h' : LegsOf w u lp) : LegsOf v u lp where
  deposit a ha := (h'.deposit a ha).trans (h.deposit a ha)
  levBuf a ha := (h'.levBuf a ha).trans (h.levBuf a ha)
  owed := h'.owed.trans h.owed
  usdFees := h'.usdFees.trans h.usdFees
  retained := h'.retained.trans h.retained

theorem LegsOf.setDeposit (hd : d.usdOwed = (v.autoManaged lp).usdOwed) : LegsOf v (v.setDeposit lp d) lp where
  deposit _ ha := Vault.State.setDeposit_other v d ha
  levBuf _ _ := rfl
  owed := (congrArg Deposit.usdOwed (Vault.State.setDeposit_same v lp d)).trans hd
  usdFees := rfl
  retained := rfl

theorem LegsOf.rebook (h : Vault.rebook v lp = .ok w) : LegsOf v w lp := by
  obtain rfl := Vault.rebook_deposit h
  exact LegsOf.setDeposit rfl

theorem LegsOf.addPooled (h : Vault.addPooled v lp n = .ok w) : LegsOf v w lp := by
  obtain ⟨pooled, -, h⟩ := of_bind h
  refine LegsOf.trans ?_ (LegsOf.rebook h)
  exact LegsOf.setDeposit rfl

theorem LegsOf.pairLegs {usd who} (h : Vault.pairLegs env.toEnv v n usd who = .ok w) : LegsOf v w lp := by
  obtain ⟨tok, -, usd', -, core, hcore, h⟩ := of_bind₃ h
  cases h
  exact ⟨fun _ _ => rfl, fun _ _ => rfl, rfl, rfl, Vault.modLP_feesRetained hcore⟩

theorem LegsOf.levBurnAll {burned} (h : Vault.levBurnAll env.toEnv v lp = .ok (burned, w)) : LegsOf v w lp := by
  obtain ⟨-, -, rfl⟩ | ⟨usdOut, core, -, -, hcore, -, hx⟩ := Vault.levBurnAll_eq rfl h
  · exact ⟨fun _ _ => rfl, fun _ _ => rfl, rfl, rfl, rfl⟩
  · refine LegsOf.trans ?_ (LegsOf.rebook hx)
    refine ⟨?_, ?_, ?_, rfl, Vault.modLP_feesRetained hcore⟩
    · intro a ha
      exact Vault.State.setDeposit_other _ _ ha
    · intro a ha
      exact update_of_ne ha _ _
    · rw [Vault.State.unlevered, Vault.State.setDeposit_same]

theorem LegsOf.levAddBufOver {gross price added}
    (h : Vault.levAddBufOver env.toEnv v lp gross n price = .ok (added, w)) : LegsOf v w lp := by
  obtain ⟨-, rfl⟩ | ⟨bufUsd, x, -, hx, hy⟩ := Vault.levAddBufOver_eq h
  · exact LegsOf.refl _ lp
  · have hgrown : LegsOf v { v with
        levBuf := update v.levBuf lp (v.levBuf lp + added)
        levBufferUsd := update v.levBufferUsd lp (v.levBufferUsd lp + bufUsd) } lp :=
      ⟨fun _ _ => rfl, fun a ha => update_of_ne ha _ _, rfl, rfl, rfl⟩
    exact (hgrown.trans (LegsOf.rebook hx)).trans (LegsOf.pairLegs hy)

theorem LegsOf.levAddNet {price added} (h : levAddNet env v lp n price = .ok (added, w)) : LegsOf v w lp := by
  obtain ⟨-, rfl⟩ | ⟨netUsd, x, hx, hy⟩ := levAddNet_eq h
  · exact LegsOf.refl _ lp
  · have hlev : LegsOf x { x with levPooled := update x.levPooled lp (x.levPooled lp + added) } lp :=
      ⟨fun _ _ => rfl, fun _ _ => rfl, rfl, rfl, rfl⟩
    exact ((LegsOf.addPooled hx).trans hlev).trans (LegsOf.pairLegs hy)

theorem LegsOf.levAddGross {added} (h : levAddGross env v lp n = .ok (added, w)) : LegsOf v w lp := by
  obtain ⟨-, rfl⟩ | ⟨price, x, hx, hy⟩ := levAddGross_eq h
  · exact LegsOf.refl _ lp
  · exact (LegsOf.levAddNet hx).trans (LegsOf.levAddBufOver hy)

theorem LegsOf.reconcileLegs {added burned}
    (h : reconcileLegs env v lp n = .ok (added, burned, w)) : LegsOf v w lp := by
  obtain ⟨⟨burned', x⟩, hx, ⟨added', y⟩, hy, h⟩ := of_bind₂ h
  obtain ⟨-, hparts⟩ := ok_pair_inj h
  obtain ⟨-, rfl⟩ := Prod.mk.inj hparts
  have hburned : LegsOf { v with usdFees := 0 } x lp := by
    unfold levBurnHeld at hx
    split_ifs at hx
    · exact LegsOf.levBurnAll (shared_eq_ok.mp hx)
    · cases hx
      exact LegsOf.refl _ lp
  obtain ⟨hdeposit, hbuf, howed, -, hretained⟩ := hburned.trans (LegsOf.levAddGross hy)
  exact ⟨hdeposit, hbuf, howed, rfl, hretained⟩

theorem LegsOf.applyDeltas {added burned} (h : Vault.applyDeltas v added burned = .ok w) : LegsOf v w lp := by
  obtain ⟨-, -, rfl⟩ := Vault.applyDeltas_eq h
  exact ⟨fun _ _ => rfl, fun _ _ => rfl, rfl, rfl, rfl⟩

end

structure Touches (q q' : State) (lp : Address) : Prop where
  account : ∀ a, a ≠ lp → q'.fees.account a = q.fees.account a
  pending : ∀ a, a ≠ lp → q'.fees.pending wad a = q.fees.pending wad a
  others : ∀ a, a ≠ lp → q'.feesPaid a = q.feesPaid a
  paid : q.feesPaid lp ≤ q'.feesPaid lp
  index : q'.usdFees ≤ q.usdFees
  retained : q'.core.feesRetained = q.core.feesRetained

section

variable {env : Env} {q q' q'' : State} {v : Vault.State} {b : Book} {lp recipient : Address} {d : Deposit}
variable {n k : ℕ}

theorem Touches.trans (h : Touches q q' lp) (h' : Touches q' q'' lp) : Touches q q'' lp where
  account a ha := (h'.account a ha).trans (h.account a ha)
  pending a ha := (h'.pending a ha).trans (h.pending a ha)
  others a ha := (h'.others a ha).trans (h.others a ha)
  paid := h.paid.trans h'.paid
  index := h'.index.trans h.index
  retained := h'.retained.trans h.retained

theorem Touches.of_index (hindex : q'.usdFees = q.usdFees)
    (haccount : ∀ a, a ≠ lp → q'.fees.account a = q.fees.account a)
    (hothers : ∀ a, a ≠ lp → q'.feesPaid a = q.feesPaid a) (hpaid : q.feesPaid lp ≤ q'.feesPaid lp)
    (hretained : q'.core.feesRetained = q.core.feesRetained) : Touches q q' lp := by
  refine ⟨haccount, ?_, hothers, hpaid, hindex.le, hretained⟩
  intro a ha
  have hsame : q'.fees.index = q.fees.index := hindex
  rw [FeeIndex.pending, FeeIndex.pending, haccount a ha, hsame]

theorem Touches.of_fees (hfees : q'.fees = q.fees) (hpaid : q'.feesPaid = q.feesPaid)
    (hretained : q'.core.feesRetained = q.core.feesRetained) : Touches q q' lp := by
  apply Touches.of_index
  · exact congrArg FeeIndex.index hfees
  · intro a _
    rw [hfees]
  · intro a _
    rw [hpaid]
  · rw [hpaid]
  · exact hretained

theorem Touches.setDeposit (hpaid : q.feesPaid lp ≤ n) :
    Touches q { q.setDeposit lp d with feesPaid := update q.feesPaid lp n } lp := by
  apply Touches.of_index
  · rfl
  · intro a ha
    exact Vault.account_setDeposit q.toState d ha
  · intro a ha
    exact update_of_ne ha _ _
  · dsimp only
    rw [update_self]
    exact hpaid
  · rfl

theorem Touches.legs (h : LegsOf q.toState v lp) : Touches q { q with toState := v, totalLevPooled := n } lp := by
  apply Touches.of_index
  · exact h.usdFees
  · intro a ha
    simp only [Vault.State.fees, h.deposit a ha, h.levBuf a ha]
  · intro a _
    rfl
  · exact le_rfl
  · exact h.retained

/-! What an account has banked changes only by a settlement and by the end of its record. -/

structure Keeps (q q' : State) (lp : Address) : Prop extends Touches q q' lp where
  banked : Quid.banked q' lp = Quid.banked q lp

theorem Keeps.trans (h : Keeps q q' lp) (h' : Keeps q' q'' lp) : Keeps q q'' lp :=
  ⟨h.toTouches.trans h'.toTouches, h'.banked.trans h.banked⟩

theorem Keeps.of_fees (hfees : q'.fees = q.fees) (hpaid : q'.feesPaid = q.feesPaid)
    (hretained : q'.core.feesRetained = q.core.feesRetained) : Keeps q q' lp := by
  refine ⟨Touches.of_fees hfees hpaid hretained, ?_⟩
  have howed := congrArg (fun l => (l.account lp).owed) hfees
  rw [Quid.banked, Quid.banked, hpaid]
  exact congrArg (· + q.feesPaid lp) howed

theorem Keeps.legs (h : LegsOf q.toState v lp) : Keeps q { q with toState := v, totalLevPooled := n } lp :=
  ⟨Touches.legs h, congrArg (· + q.feesPaid lp) h.owed⟩

theorem Keeps.setDeposit (hd : d.usdOwed + n = Quid.banked q lp) (hpaid : q.feesPaid lp ≤ n) :
    Keeps q { q.setDeposit lp d with feesPaid := update q.feesPaid lp n } lp := by
  refine ⟨Touches.setDeposit hpaid, ?_⟩
  rw [← hd]
  unfold Quid.banked
  dsimp only
  rw [update_self, q.setDeposit_same]

theorem Keeps.rebooked (hd : d.usdOwed = (q.autoManaged lp).usdOwed) : Keeps q (q.setDeposit lp d) lp := by
  have h := Keeps.setDeposit (d := d) (congrArg (· + q.feesPaid lp) hd) le_rfl
  rwa [update_eq_self] at h

theorem Keeps.refreshBookmarks (h : refreshBookmarks q lp = .ok q') : Keeps q q' lp ∧ q'.fees.pending wad lp = 0 := by
  obtain rfl := refreshBookmarks_eq h
  refine ⟨Keeps.rebooked rfl, ?_⟩
  simp [FeeIndex.pending, FeeAccount.pending, Vault.State.fees, State.setDeposit, Vault.State.setDeposit]

theorem Keeps.retires (h : Retires q q' lp n) : Keeps q q' lp := by
  obtain ⟨c, hc, rfl⟩ := h.eq
  have hpooled : Keeps q (q.setDeposit lp { q.autoManaged lp with pooled := (q.autoManaged lp).pooled - n }) lp :=
    Keeps.rebooked rfl
  exact hpooled.trans (Keeps.of_fees rfl rfl hc)

theorem Keeps.creditShares (h : creditShares q lp n = .ok q') : Keeps q q' lp := by
  obtain rfl := creditShares_eq h
  have hpooled : Keeps q (q.setDeposit lp { q.autoManaged lp with pooled := (q.autoManaged lp).pooled + n }) lp :=
    Keeps.rebooked rfl
  exact hpooled.trans (Keeps.of_fees rfl rfl rfl)

theorem Keeps.payLastFees (h : payLastFees env q lp recipient = .ok q') :
    Keeps q q' lp ∧ ((q'.autoManaged lp).pooled ≠ 0 ∨ (q'.autoManaged lp).usdOwed = 0) := by
  unfold Quid.payLastFees at h
  split_ifs at h with hempty
  · obtain rfl := payFees_eq h
    refine ⟨Keeps.setDeposit ?_ (Nat.le_add_right _ _), Or.inr ?_⟩
    · rw [Nat.zero_add, Nat.add_comm]
      rfl
    · exact congrArg Deposit.usdOwed (q.setDeposit_same _)
  · cases h
    exact ⟨Keeps.of_fees rfl rfl rfl, Or.inl hempty⟩

structure Banks (q q' : State) (lp : Address) : Prop extends Touches q q' lp where
  still : q'.fees.pending wad lp = q.fees.pending wad lp
  pooled : (q'.autoManaged lp).pooled = (q.autoManaged lp).pooled
  kept : banked q' lp + passedOver q lp = earned q lp

theorem Banks.settlePending (h : settlePending env q lp recipient = .ok q') : Banks q q' lp := by
  obtain ⟨d, paid, rfl, ⟨hpooled, hbook⟩, hpaid, hsum⟩ := settlePending_eq h
  refine ⟨Touches.setDeposit hpaid, ?_, ?_, ?_⟩
  · simp [FeeIndex.pending, FeeAccount.pending, Vault.State.fees, State.setDeposit, Vault.State.setDeposit,
      hpooled, hbook]
  · rw [q.setDeposit_same, hpooled]
  · rw [earned_eq]
    unfold banked passedOver
    dsimp only
    rw [update_self, q.setDeposit_same, hsum]
    split_ifs <;> omega

structure Exits (q q' : State) (lp : Address) : Prop extends Touches q q' lp where
  booked : q'.fees.pending wad lp = 0
  pooled : (q'.autoManaged lp).pooled = (q.autoManaged lp).pooled
  banked : Quid.banked q' lp = if (q.autoManaged lp).pooled = 0 then q.feesPaid lp else Quid.banked q lp

theorem Balanced.weight_eq_zero (h : Balanced q) (hshares : q.lpShares = 0) (hbuffer : q.totalBuffer = 0)
    (a : Address) : (q.fees.account a).weight = 0 := by
  have hadd := h.sharesAdd
  have hpooled := Finset.sum_eq_zero_iff.mp (hadd.lpShares.symm.trans hshares) a (Finset.mem_univ a)
  have hbuf := Finset.sum_eq_zero_iff.mp (hadd.totalBuffer.symm.trans hbuffer) a (Finset.mem_univ a)
  simp only [Vault.State.fees, hpooled, hbuf, Nat.add_zero]

theorem pending_eq_zero (h : (q.fees.account lp).weight = 0) : q.fees.pending wad lp = 0 := by
  rw [FeeIndex.pending, FeeAccount.pending, h, Nat.zero_mul, Nat.zero_div, Nat.zero_sub]

theorem Keeps.restartIfEmpty (h : Balanced q) (lp : Address) :
    Keeps q (restartIfEmpty q) lp ∧ (restartIfEmpty q).fees.pending wad lp = q.fees.pending wad lp := by
  unfold Quid.restartIfEmpty
  split_ifs with hlast
  · have hpending : ∀ a, FeeIndex.pending wad
        { q with usdFees := 0, totalLevPooled := 0 : State }.fees a = q.fees.pending wad a := by
      intro a
      have hweight := h.weight_eq_zero hlast.1 hlast.2 a
      rw [pending_eq_zero hweight]
      exact pending_eq_zero hweight
    refine ⟨⟨⟨fun _ _ => rfl, ?_, fun _ _ => rfl, le_rfl, Nat.zero_le _, rfl⟩, rfl⟩, hpending lp⟩
    intro a _
    exact hpending a
  · exact ⟨Keeps.of_fees rfl rfl rfl, rfl⟩

theorem Exits.clearRecord (hempty : (q.autoManaged lp).pooled = 0) (h : clearRecord q lp = .ok q') : Exits q q' lp := by
  obtain ⟨-, rfl⟩ := clearRecord_eq h
  refine ⟨?_, ?_, ?_, ?_⟩
  · apply Touches.of_index
    · rfl
    · intro a ha
      simp [Vault.State.fees, State.setDeposit, Vault.State.setDeposit, ha]
    · intro a _
      rfl
    · exact le_rfl
    · rfl
  · apply pending_eq_zero
    simp [Vault.State.fees, State.setDeposit, Vault.State.setDeposit]
  · dsimp only
    rw [q.setDeposit_same, hempty]
  · rw [if_pos hempty]
    unfold Quid.banked
    dsimp only
    rw [q.setDeposit_same, Nat.zero_add]
    rfl

theorem Exits.onExit (hb : Holds q b) (h : onExit q lp = .ok q') : Exits q q' lp := by
  have hpooled := onExit_pooled h
  unfold Quid.onExit at h
  split_ifs at h with hempty
  · obtain ⟨w, hw, h⟩ := of_bind h
    cases h
    have hexits := Exits.clearRecord hempty hw
    obtain ⟨hrestart, hpending⟩ := Keeps.restartIfEmpty ⟨_, hb.clearRecord hempty hw⟩ lp
    exact ⟨hexits.toTouches.trans hrestart.toTouches, hpending.trans hexits.booked, hpooled,
      hrestart.banked.trans hexits.banked⟩
  · obtain ⟨hkeeps, hbooked⟩ := Keeps.refreshBookmarks h
    refine ⟨hkeeps.toTouches, hbooked, hpooled, ?_⟩
    rw [if_neg hempty, hkeeps.banked]

structure Serviced (q q' : State) (lp : Address) : Prop extends Touches q q' lp where
  booked : q'.fees.pending wad lp = 0
  most : banked q' lp ≤ earned q lp

theorem earned_of_booked (h : q.fees.pending wad lp = 0) : earned q lp = banked q lp := by
  rw [earned_eq, h, Nat.add_zero]

structure Quiet (q q' : State) : Prop where
  autoManaged : q'.autoManaged = q.autoManaged
  levBuf : q'.levBuf = q.levBuf
  usdFees : q'.usdFees = q.usdFees
  feesPaid : q'.feesPaid = q.feesPaid
  retained : q'.core.feesRetained = q.core.feesRetained

theorem Quiet.fees (h : Quiet q q') : q'.fees = q.fees := by
  simp only [Vault.State.fees, h.autoManaged, h.levBuf, h.usdFees]

theorem Quiet.keeps (h : Quiet q q') : Keeps q q' lp := Keeps.of_fees h.fees h.feesPaid h.retained

theorem Quiet.earned (h : Quiet q q') : earned q' lp = earned q lp := by
  rw [earned_eq, earned_eq, h.keeps.banked, h.fees]

theorem Quiet.passedOver (h : Quiet q q') : passedOver q' lp = passedOver q lp := by
  rw [Quid.passedOver, Quid.passedOver, h.autoManaged, h.fees]

theorem rebalance_quiet (h : rebalance env q = .ok q') : Quiet q q' := by
  obtain ⟨x, y, rfl⟩ := rebalance_eq h
  exact ⟨rfl, rfl, rfl, rfl, rfl⟩

theorem Serviced.before {w} (h : Quiet q w) (h' : Serviced w q' lp) : Serviced q q' lp :=
  ⟨h.keeps.toTouches.trans h'.toTouches, h'.booked, h'.most.trans h.earned.le⟩

theorem Banks.serviced {w u} (h : Banks q w lp) (hkeeps : Keeps w u lp) (hexits : Exits u q' lp) :
    Serviced q q' lp ∧ earned q lp - banked q' lp =
      if (q'.autoManaged lp).pooled = 0 then earned q lp - u.feesPaid lp else passedOver q lp := by
  have hkept := h.kept
  have hkeep := hkeeps.banked
  have hbanked := hexits.banked
  have hpaid : u.feesPaid lp ≤ banked u lp := Nat.le_add_left _ _
  rw [hexits.pooled]
  refine ⟨⟨(h.toTouches.trans hkeeps.toTouches).trans hexits.toTouches, hexits.booked, ?_⟩, ?_⟩
  all_goals split_ifs at hbanked ⊢ <;> omega

theorem Banks.booked {w} (h : Banks q w lp) (hkeeps : Keeps w q' lp) (hbooked : q'.fees.pending wad lp = 0) :
    Serviced q q' lp ∧ earned q lp - banked q' lp = passedOver q lp := by
  have hkept := h.kept
  have hkeep := hkeeps.banked
  exact ⟨⟨h.toTouches.trans hkeeps.toTouches, hbooked, by omega⟩, by omega⟩

theorem Keeps.relever (h : relever env q lp n = .ok q') : Keeps q q' lp := by
  obtain ⟨⟨added, burned, v⟩, hlegs, w, hw, grown, -, total, -, h⟩ := of_bind₄ h
  cases h
  exact Keeps.legs ((LegsOf.reconcileLegs hlegs).trans (LegsOf.applyDeltas (shared_eq_ok.mp hw)))

theorem settlePending_feesPaid (h : settlePending env q lp 0 = .ok q') : q'.feesPaid = q.feesPaid := by
  rw [settlePending_banks h]
  rfl

theorem relever_feesPaid (h : relever env q lp n = .ok q') : q'.feesPaid = q.feesPaid := by
  obtain ⟨⟨added, burned, v⟩, -, w, -, grown, -, total, -, h⟩ := of_bind₄ h
  cases h
  rfl

theorem onExit_feesPaid (h : onExit q lp = .ok q') : q'.feesPaid = q.feesPaid := by
  unfold onExit at h
  split_ifs at h
  · obtain ⟨w, hw, h⟩ := of_bind h
    cases h
    obtain ⟨-, rfl⟩ := clearRecord_eq hw
    unfold restartIfEmpty
    split_ifs <;> rfl
  · obtain rfl := refreshBookmarks_eq h
    rfl

theorem reconcileLev_serviced (hb : Holds q b) (h : reconcileLev env q lp = .ok q') :
    Vault.levSyncState env.toEnv q.toState lp = .ok true ∧ q' = q ∨
    Vault.levSyncState env.toEnv q.toState lp = .ok false ∧ Serviced q q' lp ∧ q'.feesPaid = q.feesPaid ∧
      earned q lp - banked q' lp =
        if (q'.autoManaged lp).pooled = 0 then Vault.feesDue q.toState lp else passedOver q lp := by
  obtain ⟨inSync, hsync, h⟩ := of_bind h
  rw [shared_eq_ok] at hsync
  cases inSync with
  | true => exact Or.inl ⟨hsync, ok_inj h⟩
  | false =>
    obtain ⟨q₁, h₁, q₂, h₂, q₃, h₃, h⟩ := of_bind₃ h
    obtain ⟨lev, buf, hr⟩ := ((hb.rebalance h₁).settlePending h₂).relever h₃
    have hquiet := rebalance_quiet h₁
    obtain ⟨hserviced, hlost⟩ := (Banks.settlePending h₂).serviced (Keeps.relever h₃) (Exits.onExit hr h)
    have hpaid : q₃.feesPaid = q.feesPaid := by
      rw [relever_feesPaid h₃, settlePending_feesPaid h₂, hquiet.feesPaid]
    rw [hpaid, hquiet.earned, hquiet.passedOver] at hlost
    refine Or.inr ⟨hsync, Serviced.before hquiet hserviced, (onExit_feesPaid h).trans hpaid, hlost.trans ?_⟩
    rw [earned, Nat.add_sub_cancel]

theorem Keeps.bookShares (h : bookShares q lp n = .ok q') :
    Keeps q q' lp ∧ (n ≠ 0 ∨ q.fees.pending wad lp = 0 → q'.fees.pending wad lp = 0) := by
  unfold Quid.bookShares at h
  split_ifs at h with hzero
  · cases h
    exact ⟨Keeps.of_fees rfl rfl rfl, fun hbooked => hbooked.resolve_left (not_not.mpr hzero)⟩
  · obtain ⟨w, hw, h⟩ := of_bind h
    obtain ⟨hkeeps, hbooked⟩ := Keeps.refreshBookmarks h
    exact ⟨(Keeps.creditShares hw).trans hkeeps, fun _ => hbooked⟩

theorem modLpEth_quiet (h : modLpEth env q n k lp = .ok q') : Quiet q q' := by
  unfold modLpEth at h
  split_ifs at h
  · cases h
    exact ⟨rfl, rfl, rfl, rfl, rfl⟩
  · obtain ⟨v, hv, h⟩ := of_bind h
    cases h
    obtain ⟨tok, -, hv⟩ := of_bind (shared_eq_ok.mp hv)
    obtain ⟨usd, -, core, hcore, hv⟩ := of_bind₂ hv
    cases hv
    exact ⟨rfl, rfl, rfl, rfl, Vault.modLP_feesRetained hcore⟩

theorem placeDeposit_serviced (hamount : n ≠ 0) (h : placeDeposit env q lp n k = .ok q') :
    Serviced q q' lp ∧ earned q lp - banked q' lp = passedOver q lp := by
  rw [placeDeposit, if_neg hamount] at h
  obtain ⟨q₁, h₁, ⟨deltaUSD, deltaETH⟩, -, q₂, h₂, q₃, h₃, h⟩ := of_bind₄ h
  obtain ⟨unpaired, hsub, h⟩ := of_bind h
  obtain ⟨hle, hunpaired⟩ := sub_eq_ok.mp hsub
  obtain ⟨hpaired, hbooked⟩ := Keeps.bookShares h₂
  have hquiet := modLpEth_quiet h₃
  obtain ⟨hrest, hbooked'⟩ := Keeps.bookShares h
  have hkeeps := (hpaired.trans hquiet.keeps).trans hrest
  apply (Banks.settlePending h₁).booked hkeeps
  apply hbooked'
  by_cases hdelta : deltaETH = 0
  · refine Or.inl ?_
    omega
  · refine Or.inr ?_
    rw [hquiet.fees]
    exact hbooked (Or.inl hdelta)

theorem deposit_serviced (h : deposit env q n lp = .ok q') : depositETH env n = .ok 0 ∧ Quiet q q' ∨
    depositETH env n ≠ .ok 0 ∧ Serviced q q' lp ∧ earned q lp - banked q' lp = passedOver q lp := by
  obtain ⟨-, checked, -, h⟩ := of_require_bind h
  obtain ⟨price, -, h⟩ := of_bind h
  split_ifs at h with hnothing
  · cases h
    refine Or.inl ⟨?_, rfl, rfl, rfl, rfl, rfl⟩
    simp [depositETH, hnothing, add, checkedAdd, require_of]
  · obtain ⟨w, hw, placed, hplace, h⟩ := of_bind₂ h
    obtain ⟨hrecord, hbuf, hindex, hpaid, hretained⟩ := rebalance_quiet hw
    have hquiet : Quiet q w := ⟨hrecord, hbuf, hindex, hpaid, hretained⟩
    rw [hplace]
    by_cases hplaced : placed = 0
    · rw [placeDeposit, if_pos hplaced] at h
      cases h
      exact Or.inl ⟨by rw [hplaced], hquiet⟩
    · obtain ⟨hserviced, hlost⟩ := placeDeposit_serviced hplaced h
      rw [hquiet.earned, hquiet.passedOver] at hlost
      exact Or.inr ⟨fun hzero => hplaced (Except.ok.inj hzero), Serviced.before hquiet hserviced, hlost⟩

theorem collectFees_serviced (h : collectFees env q lp = .ok q') : Serviced q q' lp ∧ earned q lp - banked q' lp = 0 := by
  obtain ⟨hshares, q₁, h₁, h⟩ := of_require_bind h
  obtain ⟨q₂, h₂, h⟩ := of_bind h
  have hquiet := rebalance_quiet h₁
  obtain ⟨hkeeps, hbooked⟩ := Keeps.refreshBookmarks h
  obtain ⟨hserviced, hlost⟩ := (Banks.settlePending h₂).booked hkeeps hbooked
  rw [hquiet.earned, hquiet.passedOver, passedOver, if_neg hshares] at hlost
  exact ⟨Serviced.before hquiet hserviced, hlost⟩

structure Synced (q q' : State) (lp : Address) : Prop extends Touches q q' lp where
  unpaid : q'.feesPaid lp = q.feesPaid lp
  most : earned q' lp ≤ earned q lp
  kept : (q'.autoManaged lp).pooled ≠ 0 → banked q lp ≤ banked q' lp ∧
    earned q' lp + passedOver q lp = earned q lp ∧ (passedOver q lp ≠ 0 → q'.fees.pending wad lp = 0)
  gone : (q.autoManaged lp).pooled ≠ 0 → (q'.autoManaged lp).pooled = 0 → earned q' lp = q.feesPaid lp

theorem Synced.refl (q lp) : Synced q q lp := by
  refine ⟨Touches.of_fees rfl rfl rfl, rfl, le_rfl, ?_, fun hshares hempty => absurd hempty hshares⟩
  intro hshares
  have hnone : passedOver q lp = 0 := if_neg hshares
  exact ⟨le_rfl, by rw [hnone, Nat.add_zero], fun hsome => absurd hnone hsome⟩

theorem banked_le_earned (q lp) : banked q lp ≤ earned q lp := by
  rw [earned_eq]
  exact Nat.le_add_right _ _

theorem Synced.reconcileLev (hb : Holds q b) (h : reconcileLev env q lp = .ok q') : Synced q q' lp := by
  obtain ⟨-, rfl⟩ | ⟨-, hserviced, hpaid, hlost⟩ := reconcileLev_serviced hb h
  · exact Synced.refl q' lp
  · have hearned := earned_of_booked hserviced.booked
    have hmost := hserviced.most
    have hbefore := earned_eq q lp
    have hpassed := passedOver_le q lp
    refine ⟨hserviced.toTouches, congrFun hpaid lp, hearned.le.trans hmost, ?_, ?_⟩
    · intro hshares
      rw [if_neg hshares] at hlost
      exact ⟨by omega, by omega, fun _ => hserviced.booked⟩
    · intro _ hempty
      rw [if_pos hempty] at hlost
      unfold earned at hlost hearned hmost ⊢
      omega

theorem Synced.syncRange (hb : Holds q b) (env lp) : Synced q (syncRange env q lp) lp := by
  unfold Quid.syncRange
  cases hsync : Quid.reconcileLev env q lp with
  | error => exact Synced.refl q lp
  | ok => exact Synced.reconcileLev hb hsync

structure Opened (q w : State) (lp : Address) : Prop extends Touches q w lp where
  shares : (w.autoManaged lp).pooled ≠ 0
  unpaid : w.feesPaid lp = q.feesPaid lp
  kept : banked w lp + passedOver q lp = earned q lp
  booked : passedOver q lp ≠ 0 → w.fees.pending wad lp = 0

theorem Opened.openWithdraw (hb : Holds q b) (h : openWithdraw env q lp = .ok q') : Opened q q' lp := by
  obtain ⟨q₁, h₁, u, hshares, h⟩ := of_bind₂ h
  obtain ⟨-, q₂, h₂, h⟩ := of_require_bind h
  have hshares := require_eq_ok.mp hshares
  have hsynced := Synced.reconcileLev hb h₁
  have hquiet := rebalance_quiet h₂
  have hbanks := Banks.settlePending h
  obtain ⟨-, hearned, hbooked⟩ := hsynced.kept hshares
  have hkept := hbanks.kept
  rw [hquiet.earned, hquiet.passedOver, passedOver, if_neg hshares] at hkept
  refine ⟨(hsynced.toTouches.trans hquiet.keeps.toTouches).trans hbanks.toTouches, ?_, ?_, by omega, ?_⟩
  · rwa [hbanks.pooled, hquiet.autoManaged]
  · rw [settlePending_feesPaid h, hquiet.feesPaid, hsynced.unpaid]
  · rw [hbanks.still, hquiet.fees]
    exact hbooked

def ClosesWithShares (env : Env) (q : State) (lp : Address) (amount : ℕ) : Prop :=
  Closes q lp amount → ((syncRange env.closed q lp).autoManaged lp).pooled ≠ 0 ∧
    ∀ w, reconcileLev env.closed (syncRange env.closed q lp) lp = .ok w → (w.autoManaged lp).pooled ≠ 0

instance decidableClosesWithShares (env : Env) (q : State) (lp : Address) (amount : ℕ) :
    Decidable (ClosesWithShares env q lp amount) :=
  inferInstanceAs (Decidable (_ → _ ∧ _))

theorem closeLev_synced {after} (hb : Holds q b) (hshares : (q.autoManaged lp).pooled ≠ 0)
    (h : closeLev env q lp n = .ok (after, q')) :
    Touches q q' lp ∧ ((Closes q lp n → q.fees.pending wad lp = 0) → banked q' lp ≤ banked q lp) ∧
      (ClosesWithShares env q lp n → banked q lp ≤ banked q' lp) ∧
      (¬ ClosesWithShares env q lp n → banked q' lp = q.feesPaid lp) := by
  unfold closeLev at h
  split_ifs at h with hcloses
  · obtain ⟨-, w, hw, h⟩ := of_require_bind h
    obtain ⟨-, rfl⟩ := ok_pair_inj h
    obtain ⟨x, y, hsync⟩ := hb.syncRange env.closed lp
    have hfirst := Synced.syncRange hb env.closed lp
    have hsecond := Synced.reconcileLev hsync hw
    have hmost := (banked_le_earned w lp).trans hsecond.most
    refine ⟨hfirst.toTouches.trans hsecond.toTouches, ?_, ?_, ?_⟩
    · intro hbooked
      rw [← earned_of_booked (hbooked hcloses)]
      exact hmost.trans hfirst.most
    · intro hkeeps
      obtain ⟨hbetween, hafter⟩ := hkeeps hcloses
      exact (hfirst.kept hbetween).1.trans (hsecond.kept (hafter w hw)).1
    · intro hends
      have hpaid : q.feesPaid lp ≤ banked w lp := by
        rw [← hfirst.unpaid, ← hsecond.unpaid]
        exact Nat.le_add_left _ _
      refine le_antisymm ?_ hpaid
      by_cases hbetween : ((syncRange env.closed q lp).autoManaged lp).pooled = 0
      · exact hmost.trans (hfirst.gone hshares hbetween).le
      · have hempty : (w.autoManaged lp).pooled = 0 := by
          by_contra hafter
          refine hends fun _ => ⟨hbetween, ?_⟩
          intro w' hw'
          rwa [← ok_unique hw hw']
        rw [← hfirst.unpaid, ← hsecond.gone hbetween hempty]
        exact banked_le_earned w lp
  · obtain ⟨-, rfl⟩ := ok_pair_inj h
    exact ⟨Touches.of_fees rfl rfl rfl, fun _ => le_rfl, fun _ => le_rfl,
      fun hends => absurd (fun hcloses' => absurd hcloses' hcloses) hends⟩

theorem payWithdraw_exits (hb : Holds q b) (h : payWithdraw env q lp n recipient = .ok q') :
    Touches q q' lp ∧ q'.fees.pending wad lp = 0 ∧ banked q' lp = banked q lp := by
  obtain ⟨k, w, hle, hretires, hfinish⟩ := payWithdraw_retires h
  obtain ⟨u, hu, hexit⟩ := of_bind hfinish
  rw [hb.rangeOf] at hle
  have hpaid := hb.retires (hle.trans (Nat.min_le_right _ _)) hretires
  obtain ⟨hkeeps, hsettled⟩ := Keeps.payLastFees hu
  have hall := (Keeps.retires hretires).trans hkeeps
  have hexits := Exits.onExit (hpaid.payLastFees hu) hexit
  have hbanked := hexits.banked
  refine ⟨hall.toTouches.trans hexits.toTouches, hexits.booked, hbanked.trans (Eq.trans ?_ hall.banked)⟩
  split_ifs with hempty
  · rw [banked, hsettled.resolve_left (not_not.mpr hempty), Nat.zero_add]
  · rfl

theorem withdraw_serviced (hb : Holds q b) (h : withdraw env q lp n recipient = .ok q') :
    ∃ w, openWithdraw env q lp = .ok w ∧ ((Closes w lp n → w.fees.pending wad lp = 0) → Serviced q q' lp) ∧
      Touches q q' lp ∧ q'.fees.pending wad lp = 0 ∧ earned q lp - banked q' lp =
        if ClosesWithShares env w lp n then passedOver q lp else Vault.feesDue q.toState lp := by
  obtain ⟨w, hw, ⟨after, u⟩, hu, h⟩ := of_bind₂ h
  obtain ⟨x, y, hopened⟩ := hb.openWithdraw hw
  obtain ⟨b', hclosed, -⟩ := hopened.closeLev hu
  have hopen := Opened.openWithdraw hb hw
  obtain ⟨htouches, hmost, hleast, hgone⟩ := closeLev_synced hopened hopen.shares hu
  obtain ⟨htouches', hbooked, hbanked⟩ := payWithdraw_exits hclosed h
  have hkept := hopen.kept
  have hall := (hopen.toTouches.trans htouches).trans htouches'
  refine ⟨w, hw, ?_, hall, hbooked, ?_⟩
  · intro honce
    have hle := hmost honce
    exact ⟨hall, hbooked, by omega⟩
  · rw [hbanked]
    split_ifs with hshares
    · have hle := hleast hshares
      -- a fee passed over leaves nothing that a closing could count again
      by_cases hpassed : passedOver q lp = 0
      · omega
      · have hge := hmost fun _ => hopen.booked hpassed
        omega
    · rw [hgone hshares, hopen.unpaid, earned, Nat.add_sub_cancel]

end

end QuidProtocol.Quid
