import QuidProtocol.Lib.Ledger
import QuidProtocol.Venue.Model

/-!
The units of the LPs add up to the totals, and their parts to no more than the pool holds; what one LP supplies and
withdraws, seen by another.
Full repayments: Morpho accrues interest before it charges.
-/

namespace QuidProtocol.Venue

open Lib Function
open Basket (Address)

section

variable {v v' : State} {M : Market} {m m' : Morpho} {lp manager : Address} {n k u tot bal amount funds : ℕ}

variable {a b c : ℕ} {f : Address → ℕ}

theorem add_eq_ok : add a b = .ok c ↔ a + b < 2 ^ 256 ∧ a + b = c := checkedAdd_eq_ok

theorem fullMulDiv_eq_ok {d} : fullMulDiv a b d = .ok c ↔ (d ≠ 0 ∧ a * b / d < 2 ^ 256) ∧ a * b / d = c := by
  unfold fullMulDiv
  rw [bind_eq_ok]
  simp only [require_eq_ok, exists_const, Except.ok.injEq]

theorem unitOffset_pos : 0 < unitOffset := by norm_num [unitOffset]

theorem unitSlice_eq (h : unitSlice u tot bal = .ok n) : n = slice unitOffset u tot bal := by
  unfold unitSlice at h
  split_ifs at h with hu
  · rw [← Except.ok.inj h, hu, slice, Nat.zero_mul, Nat.zero_div]
  · obtain ⟨units, hunits, h⟩ := of_bind h
    rw [← (fullMulDiv_eq_ok.mp h).2, ← (add_eq_ok.mp hunits).2, slice]

theorem mintUnits_eq (h : mintUnits amount tot bal = .ok n) : n = unitsFor unitOffset amount tot bal := by
  obtain ⟨units, hunits, h⟩ := of_bind h
  rw [← (fullMulDiv_eq_ok.mp h).2, ← (add_eq_ok.mp hunits).2, unitsFor]

def Booked (f : Address → ℕ) (tot : ℕ) (f' : Address → ℕ) (tot' : ℕ) : Prop :=
  ∃ lp u k n, f' = update f lp u ∧ u + n = f lp + k ∧ tot' + n = tot + k

theorem Booked.refl (f : Address → ℕ) (tot : ℕ) : Booked f tot f tot :=
  ⟨0, f 0, 0, 0, (update_eq_self _ _).symm, rfl, rfl⟩

theorem Booked.mint (lp tot k) : Booked f tot (update f lp (f lp + k)) (tot + k) :=
  ⟨lp, f lp + k, k, 0, rfl, rfl, rfl⟩

theorem Booked.burn (hn : n ≤ f lp) (htot : n ≤ tot) : Booked f tot (update f lp (f lp - n)) (tot - n) :=
  ⟨lp, f lp - n, 0, n, rfl, Nat.sub_add_cancel hn, Nat.sub_add_cancel htot⟩

theorem Booked.sum {f' tot'} (h : Booked f tot f' tot') (hf : ∑ lp, f lp = tot) : ∑ lp, f' lp = tot' := by
  obtain ⟨lp, u, k, n, rfl, hu, htot⟩ := h
  have hsum := sum_update_add hu
  omega

structure Books (v v' : State) : Prop where
  coll : Booked v.collUnits v.totalCollUnits v'.collUnits v'.totalCollUnits
  debt : Booked v.debtUnits v.totalDebtUnits v'.debtUnits v'.totalDebtUnits

theorem Books.refl (v : State) : Books v v := ⟨Booked.refl _ _, Booked.refl _ _⟩

theorem Books.outside (v morpho stable collateral) :
    Books v { v with morpho, stable, collateral } := ⟨Booked.refl _ _, Booked.refl _ _⟩

theorem supply_eq (h : supply v lp amount = .ok (v', n)) :
    v' = v ∨ ∃ morpho collateral, v.morpho.supplyCollateral amount = .ok morpho ∧ v' = { v with
        collUnits := update v.collUnits lp
          (v.collUnits lp + unitsFor unitOffset amount v.totalCollUnits v.morpho.collateral)
        totalCollUnits := v.totalCollUnits + unitsFor unitOffset amount v.totalCollUnits v.morpho.collateral
        morpho, collateral } := by
  unfold supply at h
  split_ifs at h
  · exact Or.inl (ok_pair_inj h).1.symm
  · obtain ⟨morpho, hmorpho, collateral, -, mint, hmint, units, hunits, h⟩ := of_bind₄ h
    obtain ⟨total, htotal, h⟩ := of_bind h
    refine Or.inr ⟨morpho, collateral, hmorpho, ?_⟩
    rw [← mintUnits_eq hmint, (add_eq_ok.mp hunits).2, (add_eq_ok.mp htotal).2]
    exact (ok_pair_inj h).1.symm

theorem borrow_books (h : borrow M v lp amount = .ok (v', n)) : Books v v' := by
  unfold borrow at h
  split_ifs at h
  · cases h
    exact Books.refl v
  · obtain ⟨⟨morpho, got, sharesUp⟩, -, mint, -, units, hunits, total, htotal, h⟩ := of_bind₄ h
    rw [← (ok_pair_inj h).1, ← (add_eq_ok.mp hunits).2, ← (add_eq_ok.mp htotal).2]
    exact ⟨Booked.refl _ _, Booked.mint lp _ mint⟩

theorem burnDebt_eq (h : burnDebt v lp k = .ok v') : (k ≤ v.debtUnits lp ∧ k ≤ v.totalDebtUnits) ∧
      v' = { v with debtUnits := update v.debtUnits lp (v.debtUnits lp - k)
                    totalDebtUnits := v.totalDebtUnits - k } := by
  obtain ⟨hle, h⟩ := of_checkedSub h
  obtain ⟨hle', h⟩ := of_checkedSub h
  exact ⟨⟨hle, hle'⟩, ok_inj h⟩

theorem burnDebt_books {stable} (h : burnDebt { v with morpho := m, stable } lp k = .ok v') : Books v v' := by
  obtain ⟨⟨hle, htotal⟩, rfl⟩ := burnDebt_eq h
  exact ⟨Booked.refl _ _, Booked.burn hle htotal⟩

theorem repayCreditingLp_books (h : repayCreditingLp M v lp amount = .ok (v', n)) : Books v v' := by
  obtain ⟨mine, -, need, -, h⟩ := of_bind₂ h
  split_ifs at h
  · obtain ⟨⟨morpho, repaid, shares⟩, -, stable, -, w, hw, h⟩ := of_bind₃ h
    rw [← (ok_pair_inj h).1]
    exact burnDebt_books hw
  · obtain ⟨⟨morpho, repaid, shares⟩, -, stable, -, burn, -, w, hw, h⟩ := of_bind₄ h
    rw [← (ok_pair_inj h).1]
    exact burnDebt_books hw

theorem repay_books (h : repay M v lp amount = .ok (v', n)) : Books v v' := by
  unfold repay at h
  split_ifs at h
  · cases h
    exact Books.refl v
  · obtain ⟨morpho, -, d, -, h⟩ := of_bind₂ h
    split_ifs at h
    · cases h
      exact Books.outside v _ _ _
    · have hbooks := repayCreditingLp_books h
      exact ⟨hbooks.coll, hbooks.debt⟩

theorem repayFor_books (h : repayFor M v lp amount funds = .ok (v', n)) : Books v v' := by
  unfold repayFor at h
  split_ifs at h
  · cases h
    exact Books.refl v
  · obtain ⟨d, -, h⟩ := of_bind h
    split_ifs at h
    · cases h
      exact Books.refl v
    · obtain ⟨w, -, h⟩ := of_bind h
      have hbooks := repayCreditingLp_books h
      exact ⟨hbooks.coll, hbooks.debt⟩

theorem repayPool_books (h : repayPool M v amount = .ok (v', n)) : Books v v' := by
  unfold repayPool at h
  split_ifs at h
  · cases h
    exact Books.refl v
  · obtain ⟨morpho, -, d, -, h⟩ := of_bind₂ h
    split_ifs at h
    · cases h
      exact Books.outside v _ _ _
    · obtain ⟨⟨morpho', repaid, shares⟩, -, stable, -, left, -, w, -, h⟩ := of_bind₄ h
      cases h
      exact Books.outside v _ _ _

theorem burnColl_eq (h : burnColl v lp k = .ok v') : (k ≤ v.collUnits lp ∧ k ≤ v.totalCollUnits) ∧
      v' = { v with collUnits := update v.collUnits lp (v.collUnits lp - k)
                    totalCollUnits := v.totalCollUnits - k } := by
  obtain ⟨hle, h⟩ := of_checkedSub h
  obtain ⟨hle', h⟩ := of_checkedSub h
  exact ⟨⟨hle, hle'⟩, ok_inj h⟩

def asked (v : State) (lp : Address) (collAmount : ℕ) : ℕ :=
  min collAmount (slice unitOffset (v.collUnits lp) v.totalCollUnits v.morpho.collateral)

def burned (v : State) (lp : Address) (collAmount : ℕ) : ℕ :=
  unitsFor unitOffset (asked v lp collAmount) v.totalCollUnits v.morpho.collateral

theorem burned_le (v lp collAmount) : burned v lp collAmount ≤ v.collUnits lp :=
  unitsFor_slice_le (min_le_right _ _)

theorem withdraw_eq (h : withdraw M v lp amount = .ok (v', n)) :
    v' = v ∨ ∃ morpho, v.morpho.withdrawCollateral M (asked v lp amount) = .ok morpho ∧
      burned v lp amount ≤ v.totalCollUnits ∧
      v' = { v with collUnits := update v.collUnits lp (v.collUnits lp - burned v lp amount)
                    totalCollUnits := v.totalCollUnits - burned v lp amount
                    morpho } := by
  unfold withdraw at h
  split_ifs at h
  · exact Or.inl (ok_pair_inj h).1.symm
  · obtain ⟨bal, hbal, h⟩ := of_bind h
    have hasked : min amount bal = asked v lp amount := by rw [unitSlice_eq hbal, asked]
    rw [hasked] at h
    split_ifs at h
    · exact Or.inl (ok_pair_inj h).1.symm
    · obtain ⟨burn, hburn, w, hw, morpho, hmorpho, h⟩ := of_bind₃ h
      have hunits : min burn (v.collUnits lp) = burned v lp amount := by
        rw [mintUnits_eq hburn]
        exact min_eq_left (burned_le v lp amount)
      rw [hunits] at hw
      obtain ⟨⟨-, htotal⟩, rfl⟩ := burnColl_eq hw
      exact Or.inr ⟨morpho, hmorpho, htotal, (ok_pair_inj h).1.symm⟩

theorem withdraw_books (h : withdraw M v lp amount = .ok (v', n)) : Books v v' := by
  obtain rfl | ⟨morpho, -, htotal, rfl⟩ := withdraw_eq h
  · exact Books.refl v'
  · exact ⟨Booked.burn (burned_le v lp amount) htotal, Booked.refl _ _⟩

theorem withdrawPool_books (h : withdrawPool M v amount = .ok (v', n)) : Books v v' := by
  unfold withdrawPool at h
  split_ifs at h
  · cases h
    exact Books.refl v
  · obtain ⟨morpho, -, h⟩ := of_bind h
    cases h
    exact Books.outside v _ _ _

theorem onlyManager_eq {sender x} (h : onlyManager manager sender x = .ok v') : ∃ n, x = .ok (v', n) := by
  obtain ⟨-, h⟩ := of_require h
  exact bind_fst_eq_ok.mp h

theorem exec_books {c} (h : exec manager v c = .ok v') : Books v v' := by
  obtain ⟨market, sender, op⟩ := c
  cases op with
  | supply lp =>
    obtain ⟨n, h⟩ := onlyManager_eq h
    obtain rfl | ⟨morpho, collateral, -, rfl⟩ := supply_eq h
    · exact Books.refl v'
    · exact ⟨Booked.mint lp _ _, Booked.refl _ _⟩
  | borrow =>
    obtain ⟨n, h⟩ := onlyManager_eq h
    exact borrow_books h
  | repay =>
    obtain ⟨n, h⟩ := onlyManager_eq h
    exact repay_books h
  | repayFor =>
    obtain ⟨⟨w, n⟩, hw, h⟩ := of_bind h
    cases h
    exact repayFor_books hw
  | withdraw =>
    obtain ⟨n, h⟩ := onlyManager_eq h
    exact withdraw_books h
  | repayPool =>
    obtain ⟨n, h⟩ := onlyManager_eq h
    exact repayPool_books h
  | withdrawPool =>
    obtain ⟨n, h⟩ := onlyManager_eq h
    exact withdrawPool_books h
  | accrue =>
    obtain ⟨morpho, -, h⟩ := of_bind h
    cases h
    exact Books.outside v _ _ _
  | outside =>
    cases h
    exact Books.outside v _ _ _

structure State.Kept (v : State) : Prop where
  coll : ∑ lp, v.collUnits lp = v.totalCollUnits
  debt : ∑ lp, v.debtUnits lp = v.totalDebtUnits

theorem State.empty_kept : State.empty.Kept := ⟨Finset.sum_const_zero, Finset.sum_const_zero⟩

theorem State.Kept.exec {c} (hv : v.Kept) (h : Venue.exec manager v c = .ok v') : v'.Kept :=
  ⟨(exec_books h).coll.sum hv.coll, (exec_books h).debt.sum hv.debt⟩

theorem kept_of_run {cs} (hrun : runAll (exec manager) .empty cs = .ok v) : v.Kept :=
  runAll_invariant (fun _ _ _ hv _ h => State.Kept.exec hv h) State.empty_kept (everyStep_trivial _ _) hrun

theorem State.Kept.coll_le (hv : v.Kept) (lp : Address) : v.collUnits lp ≤ v.totalCollUnits := by
  rw [← hv.coll]
  exact Finset.single_le_sum (fun _ _ => Nat.zero_le _) (Finset.mem_univ lp)

theorem State.Kept.debt_le (hv : v.Kept) (lp : Address) : v.debtUnits lp ≤ v.totalDebtUnits := by
  rw [← hv.debt]
  exact Finset.single_le_sum (fun _ _ => Nat.zero_le _) (Finset.mem_univ lp)

theorem asked_le (hv : v.Kept) (lp collAmount) : asked v lp collAmount ≤ v.morpho.collateral :=
  (min_le_right _ _).trans (slice_le unitOffset_pos (hv.coll_le lp))

theorem make_eq {s p} (h : Morpho.make c b a s p = .ok m) :
    m.collateral = c ∧ m.borrowShares = b ∧ m.totalBorrowAssets = a ∧ m.totalBorrowShares = s := by
  unfold Morpho.make at h
  split_ifs at h
  cases h
  exact ⟨rfl, rfl, rfl, rfl⟩

theorem avoids_make (c b a s p : ℕ) : Avoids .insufficientCollateral (Morpho.make c b a s p) := by
  unfold Morpho.make
  split_ifs
  · exact avoids_ok _ _
  · exact avoids_error (by decide)

theorem avoids_fullMulDiv (a b d : ℕ) : Avoids .insufficientCollateral (fullMulDiv a b d) :=
  avoids_require_bind (by decide) (avoids_ok _ _)

theorem avoids_add (a b : ℕ) : Avoids .insufficientCollateral (add a b) := avoids_checkedAdd (by decide)

theorem avoids_withdrawCollateral (hn : n ≤ m.collateral) :
    Avoids .insufficientCollateral (m.withdrawCollateral M n) := by
  apply Avoids.bind (avoids_make _ _ _ _ _)
  intro m₁ hm₁
  have hcollateral : m₁.collateral = m.collateral := (make_eq hm₁).1
  apply Avoids.bind (avoids_checkedSub (by omega))
  intro collateral _
  apply Avoids.bind (avoids_make _ _ _ _ _)
  intro m₂ _
  exact avoids_require_bind (by decide) (avoids_ok _ _)

theorem avoids_unitSlice (u tot bal : ℕ) : Avoids .insufficientCollateral (unitSlice u tot bal) := by
  unfold unitSlice
  split_ifs
  · exact avoids_ok _ _
  · exact Avoids.bind (avoids_add _ _) fun _ _ => avoids_fullMulDiv _ _ _

theorem avoids_sub_ne : Avoids .insufficientCollateral (sub a b) := by
  intro h
  exact absurd ((checkedSub_eq_error _ _ _ _).mp h).2 (by decide)

theorem avoids_withdraw (hv : v.Kept) (lp collAmount) :
    Avoids .insufficientCollateral (withdraw M v lp collAmount) := by
  unfold withdraw
  split_ifs
  · exact avoids_ok _ _
  apply Avoids.bind (avoids_unitSlice _ _ _)
  intro bal hbal
  have hasked : min collAmount bal = asked v lp collAmount := by rw [unitSlice_eq hbal, asked]
  rw [hasked]
  split_ifs
  · exact avoids_ok _ _
  apply Avoids.bind (Avoids.bind (avoids_add _ _) fun _ _ => avoids_fullMulDiv _ _ _)
  intro burn _
  apply Avoids.bind (Avoids.bind avoids_sub_ne fun _ _ => Avoids.bind avoids_sub_ne fun _ _ => avoids_ok _ _)
  intro w hw
  obtain ⟨-, rfl⟩ := burnColl_eq hw
  apply Avoids.bind (avoids_withdrawCollateral (asked_le hv lp collAmount))
  intro morpho _
  exact avoids_ok _ _

/-- Whatever Morpho did, the totals are the sums of the units and the collateral of all LPs is there. -/
theorem venue_solvent (manager : Address) (cs : List Call) (v : State)
    (hrun : runAll (exec manager) .empty cs = .ok v) :
    v.totalCollUnits = ∑ lp, v.collUnits lp ∧ v.totalDebtUnits = ∑ lp, v.debtUnits lp ∧
      (∀ part : Address → ℕ, (∀ lp, collateralOf v lp = .ok (part lp)) → ∑ lp, part lp ≤ v.morpho.collateral) ∧
      ∀ M lp collAmount, asked v lp collAmount ≤ v.morpho.collateral ∧
        Avoids .insufficientCollateral (withdraw M v lp collAmount) := by
  have hv : v.Kept := kept_of_run hrun
  refine ⟨hv.coll.symm, hv.debt.symm, ?_, fun M lp collAmount =>
    ⟨asked_le hv lp collAmount, avoids_withdraw hv lp collAmount⟩⟩
  intro part hpart
  have hslice : part = fun lp => slice unitOffset (v.collUnits lp) v.totalCollUnits v.morpho.collateral := by
    funext lp
    exact unitSlice_eq (hpart lp)
  rw [hslice]
  exact sum_slice_le unitOffset_pos hv.coll

def plainMarket : Market where
  toAssetsUp shares assets total := (shares * assets + total - 1) / total
  toSharesUp assets total shares := if total = 0 then assets * unitOffset else (assets * shares + total - 1) / total
  toSharesDown assets total shares := if total = 0 then assets * unitOffset else assets * shares / total
  accepts _ := true

def pooledRun : List Call :=
  [⟨plainMarket, 0, .outside State.empty.morpho 0 101⟩, ⟨plainMarket, 0, .supply 5 51⟩,
    ⟨plainMarket, 0, .supply 6 50⟩, ⟨plainMarket, 0, .withdrawPool 24⟩]

theorem venue_solvent_pooled : ∃ v : State, runAll (exec 0) .empty pooledRun = .ok v ∧
    v.totalCollUnits = 101 * 10 ^ 6 ∧ ∑ lp, v.collUnits lp = 101 * 10 ^ 6 ∧
    asked v 5 51 = 39 ∧ asked v 5 51 ≤ v.morpho.collateral := by
  obtain ⟨v, hv, htotal, hasked⟩ :
      ∃ v, runAll (exec 0) .empty pooledRun = .ok v ∧ v.totalCollUnits = 101 * 10 ^ 6 ∧ asked v 5 51 = 39 := by
    decide +kernel
  obtain ⟨hsum, -, -, hask⟩ := venue_solvent 0 pooledRun v hv
  exact ⟨v, hv, htotal, hsum.symm.trans htotal, hasked, (hask plainMarket 5 51).1⟩

end

def Op.SuppliesOrWithdraws (lp : Address) : Op → Prop
  | .supply lp' _ => lp' = lp
  | .withdraw lp' _ => lp' = lp
  | _ => False

def BurnsWhole (v : State) (c : Call) : Prop :=
  match c.op with
  | .withdraw lp collAmount =>
    v.morpho.collateral + 1 ∣ asked v lp collAmount * (v.totalCollUnits + unitOffset)
  | _ => True

def State.AtPar (v : State) : Prop := v.totalCollUnits + unitOffset = unitOffset * (v.morpho.collateral + 1)

def NoLess (lp : Address) (v w : State) : Prop :=
  ∀ q q', collateralOf v lp = .ok q → collateralOf w lp = .ok q' → q ≤ q'

section

variable {v v' w : State} {M : Market} {m : Morpho} {lp other manager : Address} {n amount : ℕ} {c : Call}

def part (v : State) (lp : Address) : ℕ := slice unitOffset (v.collUnits lp) v.totalCollUnits v.morpho.collateral

theorem noLess_of_part (h : part v lp ≤ part w lp) : NoLess lp v w := by
  intro q q' hq hq'
  rw [unitSlice_eq hq, unitSlice_eq hq']
  exact h

theorem supplyCollateral_eq (h : v.morpho.supplyCollateral amount = .ok m) :
    m.collateral = v.morpho.collateral + amount := (make_eq h).1

theorem withdrawCollateral_eq (h : v.morpho.withdrawCollateral M amount = .ok m) :
    amount ≤ v.morpho.collateral ∧ m.collateral = v.morpho.collateral - amount := by
  obtain ⟨m₁, hm₁, collateral, hcollateral, m₂, hm₂, h⟩ := of_bind₃ h
  obtain ⟨-, h⟩ := of_require h
  cases h
  obtain ⟨hle, hsub⟩ := checkedSub_eq_ok.mp hcollateral
  rw [(make_eq hm₁).1] at hle hsub
  exact ⟨hle, (make_eq hm₂).1.trans hsub.symm⟩

theorem part_le_supply (hne : other ≠ lp) (h : supply v lp amount = .ok (v', n)) : part v other ≤ part v' other := by
  obtain rfl | ⟨morpho, collateral, hmorpho, rfl⟩ := supply_eq h
  · exact le_refl _
  · unfold part
    dsimp only
    rw [Function.update_of_ne hne, supplyCollateral_eq hmorpho]
    exact slice_le_mint unitOffset_pos amount

theorem part_le_withdraw (hne : other ≠ lp)
    (hwhole : v.morpho.collateral + 1 ∣ asked v lp amount * (v.totalCollUnits + unitOffset))
    (h : withdraw M v lp amount = .ok (v', n)) : part v other ≤ part v' other := by
  obtain rfl | ⟨morpho, hmorpho, htotal, rfl⟩ := withdraw_eq h
  · exact le_refl _
  · obtain ⟨hle, hcollateral⟩ := withdrawCollateral_eq hmorpho
    unfold part
    dsimp only
    rw [Function.update_of_ne hne, hcollateral]
    exact slice_le_burn unitOffset_pos hle htotal hwhole

theorem part_le_exec (hne : other ≠ lp) (hc : c.op.SuppliesOrWithdraws lp) (hwhole : BurnsWhole v c)
    (h : exec manager v c = .ok v') : part v other ≤ part v' other := by
  obtain ⟨market, sender, op⟩ := c
  cases op with
  | supply lp' =>
    obtain rfl : lp' = lp := hc
    obtain ⟨n, h⟩ := onlyManager_eq h
    exact part_le_supply hne h
  | withdraw lp' =>
    obtain rfl : lp' = lp := hc
    obtain ⟨n, h⟩ := onlyManager_eq h
    exact part_le_withdraw hne hwhole h
  | borrow | repay | repayFor | repayPool | withdrawPool | accrue | outside => exact hc.elim

theorem atPar_units (hv : v.AtPar) (amount : ℕ) :
    unitsFor unitOffset amount v.totalCollUnits v.morpho.collateral = amount * unitOffset := by
  unfold unitsFor
  rw [hv, ← Nat.mul_assoc]
  exact Nat.mul_div_cancel _ (Nat.succ_pos _)

theorem burnsWhole_of_atPar (hv : v.AtPar) (c : Call) : BurnsWhole v c := by
  unfold BurnsWhole
  split
  · rw [hv, ← Nat.mul_assoc]
    exact Nat.dvd_mul_left _ _
  · trivial

theorem State.AtPar.exec (hv : v.AtPar) (hc : c.op.SuppliesOrWithdraws lp)
    (h : Venue.exec manager v c = .ok v') : v'.AtPar := by
  have hpar : v.totalCollUnits + unitOffset = unitOffset * (v.morpho.collateral + 1) := hv
  obtain ⟨market, sender, op⟩ := c
  cases op with
  | supply =>
    obtain ⟨n, h⟩ := onlyManager_eq h
    obtain rfl | ⟨morpho, collateral, hmorpho, rfl⟩ := supply_eq h
    · exact hv
    · unfold State.AtPar
      dsimp only
      rw [supplyCollateral_eq hmorpho, atPar_units hv]
      nlinarith
  | withdraw lp' amount =>
    obtain ⟨n, h⟩ := onlyManager_eq h
    obtain rfl | ⟨morpho, hmorpho, htotal, rfl⟩ := withdraw_eq h
    · exact hv
    · obtain ⟨hle, hcollateral⟩ := withdrawCollateral_eq hmorpho
      have hburned : burned v lp' amount = asked v lp' amount * unitOffset := atPar_units hv _
      unfold State.AtPar
      dsimp only
      rw [hcollateral]
      zify [hle, htotal] at hburned hpar ⊢
      rw [hburned]
      linarith
  | borrow | repay | repayFor | repayPool | withdrawPool | accrue | outside => exact hc.elim

/-- No run of one LP lowers what another has, when no withdrawal rounds off units that it should burn. -/
theorem other_lp_keeps (manager : Address) (v : State) (a b : Address) (hne : b ≠ a) (cs : List Call)
    (hcs : ∀ c ∈ cs, c.op.SuppliesOrWithdraws a) (hwhole : v.AtPar ∨ EveryStep (exec manager) BurnsWhole v cs) :
    EveryState (exec manager) (NoLess b v) v cs := by
  have hops : EveryStep (exec manager) (fun _ c => c.op.SuppliesOrWithdraws a) v cs :=
    everyStep_of_forall v fun c hc _ => hcs c hc
  have hwhole : EveryStep (exec manager) BurnsWhole v cs := by
    rcases hwhole with hpar | hwhole
    · exact everyStep_among (fun _ c _ hw => burnsWhole_of_atPar hw c) (fun _ _ _ hc hw h => hw.exec hc h) hpar hcs
    · exact hwhole
  have hstep (w : State) (c : Call) (w' : State) (hw : part v b ≤ part w b)
      (hc : c.op.SuppliesOrWithdraws a ∧ BurnsWhole w c) (h : exec manager w c = .ok w') :
      part v b ≤ part w' b := hw.trans (part_le_exec hne hc.1 hc.2 h)
  exact everyState_of_invariant (fun w hw => noLess_of_part hw) hstep (le_refl _)
    (hops.and hwhole)

end

instance decidableBurnsWhole (v : State) (c : Call) : Decidable (BurnsWhole v c) := by
  unfold BurnsWhole
  split <;> infer_instance

theorem other_lp_keeps_whole : ∃ v : State, runAll (exec 0) .empty pooledRun = .ok v ∧ ¬ v.AtPar ∧
    EveryState (exec 0) (NoLess 5 v) v [⟨plainMarket, 0, .withdraw 6 13⟩] := by
  refine exists_ok (fun v => ¬ v.totalCollUnits + unitOffset = unitOffset * (v.morpho.collateral + 1) ∧
    EveryStep (exec 0) BurnsWhole v [⟨plainMarket, 0, .withdraw 6 13⟩]) (by decide +kernel) ?_
  rintro v - ⟨hpar, hsteps⟩
  refine ⟨hpar, ?_⟩
  apply other_lp_keeps 0 v 6 5 (by decide)
  · intro c hc
    rw [List.mem_singleton.mp hc]
    rfl
  · exact Or.inr hsteps

theorem withdrawal_lowers_other : ∃ v v' : State, runAll (exec 0) .empty pooledRun = .ok v ∧
    exec 0 v ⟨plainMarket, 0, .withdraw 6 1⟩ = .ok v' ∧
    collateralOf v 5 = .ok 39 ∧ collateralOf v' 5 = .ok 38 := by decide +kernel

def sharesOf (v : State) (lp : Address) : ℕ := slice unitOffset (v.debtUnits lp) v.totalDebtUnits v.morpho.borrowShares

def Clears (lp : Address) (x : Res (State × ℕ)) : Prop := ∃ v' repaid, x = .ok (v', repaid) ∧ v'.debtUnits lp = 0

def charge (M : Market) (v : State) (lp : Address) (accrued : Morpho) : ℕ :=
  M.toAssetsUp (sharesOf v lp) accrued.totalBorrowAssets accrued.totalBorrowShares

section

variable {v v' : State} {M : Market} {m m' : Morpho} {lp : Address} {d need r shares amount funds : ℕ}

theorem make_ok (m : Morpho) (pending : ℕ) :
    Morpho.make m.collateral m.borrowShares m.totalBorrowAssets m.totalBorrowShares pending =
      .ok { m with pending } := by
  unfold Morpho.make
  rw [dif_pos ⟨m.shares_le, m.fits⟩]

theorem accrueInterest_eq (h : m.accrueInterest = .ok m') :
    m'.borrowShares = m.borrowShares ∧ m'.totalBorrowAssets = m.totalBorrowAssets + m.pending ∧
      m'.totalBorrowShares = m.totalBorrowShares ∧ m'.pending = 0 := by
  unfold Morpho.accrueInterest Morpho.make at h
  split_ifs at h
  cases h
  exact ⟨rfl, rfl, rfl, rfl⟩

theorem accrueInterest_accrued (h : m.accrueInterest = .ok m') : m'.accrueInterest = .ok m' := by
  obtain ⟨-, -, -, hpending⟩ := accrueInterest_eq h
  unfold Morpho.accrueInterest
  rw [hpending, Nat.add_zero, make_ok, ← hpending]

theorem lower_ok (hshares : shares ≤ m.borrowShares) (assets : ℕ) : ∃ m', m.lower assets shares = .ok m' := by
  have htotal : shares ≤ m.totalBorrowShares := hshares.trans m.shares_le
  have hle := m.shares_le
  obtain ⟨hcollateral, hassets, htotals⟩ := m.fits
  unfold Morpho.lower checkedSub
  rw [if_pos hshares, ok_bind, if_pos htotal, ok_bind]
  unfold Morpho.make
  rw [dif_pos ⟨by omega, hcollateral, by omega, by omega⟩]
  exact ⟨_, rfl⟩

theorem burnDebt_all (hv : v.debtUnits lp ≤ v.totalDebtUnits) :
    ∃ v', burnDebt v lp (v.debtUnits lp) = .ok v' ∧ v'.debtUnits lp = 0 := by
  unfold burnDebt sub checkedSub
  rw [if_pos (le_refl _), ok_bind, if_pos hv, ok_bind]
  exact ⟨_, rfl, (Function.update_self _ _ _).trans (Nat.sub_self _)⟩

theorem pull_eq_ok {balance allowance assets left} :
    pull balance allowance assets = .ok left ↔ assets ≤ allowance ∧ assets ≤ balance ∧ balance - assets = left := by
  unfold pull
  rw [bind_eq_ok]
  simp only [require_eq_ok, exists_const, checkedSub_eq_ok]

theorem unitSlice_sharesOf {n}
    (h : unitSlice (v.debtUnits lp) v.totalDebtUnits v.morpho.borrowShares = .ok n) : n = sharesOf v lp :=
  unitSlice_eq h

theorem clears_byShares_iff (hv : v.debtUnits lp ≤ v.totalDebtUnits) (hm : v.morpho.accrueInterest = .ok m)
    (hmine : unitSlice (v.debtUnits lp) v.totalDebtUnits v.morpho.borrowShares = .ok shares)
    (hneed : sharesToAssetsUp v.morpho shares = .ok need) (hpos : 0 < shares) (hr : need ≤ r)
    (hstable : need ≤ v.stable) : Clears lp (repayCreditingLp M v lp r) ↔ charge M v lp m ≤ need := by
  have hshares : shares = sharesOf v lp := unitSlice_sharesOf hmine
  have hle : shares ≤ m.borrowShares := by
    rw [(accrueInterest_eq hm).1, hshares]
    exact slice_le unitOffset_pos hv
  have hcall : repayCreditingLp M v lp r = (do
      let p ← v.morpho.repayShares M shares
      let stable ← pull v.stable need p.2.1
      let w ← burnDebt { v with morpho := p.1, stable } lp (v.debtUnits lp)
      .ok (w, p.2.1)) := by
    unfold repayCreditingLp
    rw [hmine, ok_bind, hneed, ok_bind, if_pos ⟨hpos, hr, hstable⟩]
  rw [hcall, Morpho.repayShares, hm, ok_bind]
  obtain ⟨m', hm'⟩ := lower_ok hle (M.toAssetsUp shares m.totalBorrowAssets m.totalBorrowShares)
  dsimp only
  rw [hm', ok_bind, ok_bind]
  dsimp only
  rw [charge, ← hshares]
  constructor
  · rintro ⟨w, repaid, h, -⟩
    obtain ⟨stable, hpull, -⟩ := of_bind h
    exact (pull_eq_ok.mp hpull).1
  · intro hcharge
    rw [pull_eq_ok.mpr ⟨hcharge, hcharge.trans hstable, rfl⟩, ok_bind]
    obtain ⟨w, hw, hzero⟩ := burnDebt_all (v := { v with
      morpho := m'
      stable := v.stable - M.toAssetsUp shares m.totalBorrowAssets m.totalBorrowShares }) hv
    rw [hw, ok_bind]
    exact ⟨w, _, rfl, hzero⟩

theorem sharesToAssetsUp_pos (h : sharesToAssetsUp m shares = .ok d) (hd : 0 < d) : 0 < shares := by
  unfold sharesToAssetsUp at h
  split_ifs at h with hzero
  · rw [← Except.ok.inj h] at hd
    exact absurd hd (lt_irrefl 0)
  · exact Nat.pos_of_ne_zero (not_or.mp hzero).1

theorem debtOf_eq (h : debtOf v lp = .ok d) (hd : 0 < d) : v.debtUnits lp ≠ 0 ∧ ∃ shares,
      unitSlice (v.debtUnits lp) v.totalDebtUnits v.morpho.borrowShares = .ok shares ∧ 0 < shares ∧
      sharesToAssetsUp v.morpho shares = .ok d := by
  unfold debtOf at h
  split_ifs at h with hzero
  · rw [← Except.ok.inj h] at hd
    exact absurd hd (lt_irrefl 0)
  · obtain ⟨shares, hshares, h⟩ := of_bind h
    exact ⟨(not_or.mp hzero).1, shares, hshares, sharesToAssetsUp_pos h hd, h⟩

theorem debtOf_stale (hm : v.morpho.accrueInterest = .ok m) (h : debtOf { v with morpho := m } lp = .ok d) :
    ∃ d₀, debtOf v lp = .ok d₀ ∧ d₀ ≤ d := by
  obtain ⟨hborrow, hassets, htotal, -⟩ := accrueInterest_eq hm
  unfold debtOf at h ⊢
  dsimp only at h
  split_ifs at h ⊢
  · exact ⟨0, rfl, Nat.zero_le d⟩
  · rw [hborrow] at h
    obtain ⟨shares, hshares, h⟩ := of_bind h
    rw [hshares, ok_bind]
    unfold sharesToAssetsUp at h ⊢
    rw [htotal] at h
    split_ifs at h ⊢ with hzero
    · exact ⟨0, rfl, Nat.zero_le d⟩
    · obtain ⟨hfits, h⟩ := of_checkedMul h
      obtain ⟨hfits', h⟩ := of_checkedAdd h
      have hle : shares * v.morpho.totalBorrowAssets ≤ shares * m.totalBorrowAssets :=
        Nat.mul_le_mul_left shares (by omega)
      have hmul : mul shares v.morpho.totalBorrowAssets = .ok (shares * v.morpho.totalBorrowAssets) :=
        checkedMul_eq_ok.mpr ⟨by omega, rfl⟩
      rw [hmul, ok_bind, add_eq_ok.mpr ⟨by omega, rfl⟩, ok_bind]
      refine ⟨_, rfl, ?_⟩
      cases h
      exact Nat.div_le_div_right (by omega)

/-- A repayment clears the debt exactly when Morpho charges no more than the debt that the call has read. -/
theorem full_repayment_iff (hv : v.Kept) (hm : v.morpho.accrueInterest = .ok m)
    (hd : debtOf { v with morpho := m } lp = .ok d) (hpos : 0 < d) (hamount : d ≤ amount) :
    (d ≤ v.stable → (Clears lp (repay M v lp amount) ↔ charge M v lp m ≤ d)) ∧ ∃ d₀, debtOf v lp = .ok d₀ ∧
        (amount ≤ funds → (Clears lp (repayFor M v lp amount funds) ↔ 0 < d₀ ∧ charge M v lp m ≤ d₀)) := by
  have hunits : v.debtUnits lp ≤ v.totalDebtUnits := hv.debt_le lp
  have hsome : amount ≠ 0 := by omega
  obtain ⟨hdebt, shares, hshares, hmine, hneed⟩ := debtOf_eq hd hpos
  constructor
  · intro hstable
    have hcall : repay M v lp amount = repayCreditingLp M { v with morpho := m } lp d := by
      have hmin : min amount d = d := min_eq_right hamount
      unfold repay
      rw [if_neg hsome, hm, ok_bind, hd, ok_bind, hmin, if_neg (Nat.ne_of_gt hpos)]
    have hpart : sharesOf { v with morpho := m } lp = sharesOf v lp := by
      unfold sharesOf
      dsimp only
      rw [(accrueInterest_eq hm).1]
    rw [hcall]
    have hiff := clears_byShares_iff (M := M) (v := { v with morpho := m }) (r := d) hunits
      (accrueInterest_accrued hm) hshares hneed hmine (le_refl d) hstable
    rw [charge, hpart] at hiff
    exact hiff
  · obtain ⟨d₀, hd₀, hle⟩ := debtOf_stale hm hd
    refine ⟨d₀, hd₀, fun hfunds => ?_⟩
    have hmin : min amount d₀ = d₀ := min_eq_right (hle.trans hamount)
    unfold repayFor
    rw [if_neg hsome, hd₀, ok_bind, hmin]
    by_cases hzero : d₀ = 0
    · rw [if_pos hzero, hzero]
      constructor
      · rintro ⟨w, repaid, h, hcleared⟩
        rw [← (ok_pair_inj h).1] at hcleared
        exact absurd hcleared hdebt
      · rintro ⟨h, -⟩
        exact absurd h (lt_irrefl 0)
    · have hstale : 0 < d₀ := Nat.pos_of_ne_zero hzero
      obtain ⟨-, shares₀, hshares₀, hmine₀, hneed₀⟩ := debtOf_eq hd₀ hstale
      rw [if_neg hzero, require_of _ (show d₀ ≤ funds by omega), ok_bind]
      have hiff := clears_byShares_iff (M := M) (v := { v with stable := v.stable + d₀ }) (r := d₀) hunits hm
        hshares₀ hneed₀ hmine₀ (le_refl d₀) (Nat.le_add_left _ _)
      exact hiff.trans (and_iff_right hstale).symm

end

def borrowedRun : List Call :=
  [⟨plainMarket, 0, .outside State.empty.morpho 0 1000⟩, ⟨plainMarket, 0, .supply 5 1000⟩,
    ⟨plainMarket, 0, .borrow 5 500⟩,
    ⟨plainMarket, 0, .outside ⟨1000, 500 * 10 ^ 6, 500, 500 * 10 ^ 6, 5, le_refl _, by norm_num⟩ 600 0⟩]

theorem full_repayment_interest : ∃ v : State, runAll (exec 0) .empty borrowedRun = .ok v ∧
    Clears 5 (repay plainMarket v 5 600) ∧ ¬ Clears 5 (repayFor plainMarket v 5 600 600) := by
  obtain ⟨v, hv, hstable, hstale, m, hm, hcharge, hfresh⟩ : ∃ v : State, runAll (exec 0) .empty borrowedRun = .ok v ∧
      v.stable = 600 ∧ debtOf v 5 = .ok 500 ∧ ∃ m, v.morpho.accrueInterest = .ok m ∧
        charge plainMarket v 5 m = 505 ∧ debtOf { v with morpho := m } 5 = .ok 505 := by
    decide +kernel
  obtain ⟨hrepay, d₀, hd₀, hrepayFor⟩ := full_repayment_iff (M := plainMarket) (v := v) (m := m) (d := 505)
    (kept_of_run hv) hm hfresh (by norm_num) (show 505 ≤ 600 by norm_num)
  obtain rfl := ok_unique hstale hd₀
  refine ⟨v, hv, (hrepay (by omega)).mpr hcharge.le, fun h => ?_⟩
  have hle := ((hrepayFor (le_refl 600)).mp h).2
  omega

theorem repayFor_reverts : ∃ (v : State) (m : Morpho), runAll (exec 0) .empty borrowedRun = .ok v ∧
    v.morpho.accrueInterest = .ok m ∧ debtOf { v with morpho := m } 5 = .ok 505 ∧
    repayFor plainMarket v 5 600 600 = .error .transferFailed := by decide +kernel

end QuidProtocol.Venue
