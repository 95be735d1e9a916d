import QuidProtocol.Basket.Moves

/-!
The three books of the contract agree: balances, dated batches, and supplies by month.
No batch is dated more than thirteen months ahead, and a burn takes only what is mature.
-/

namespace QuidProtocol.Basket

open Lib Finset State

def Agrees (s : State) : Prop :=
  (∀ w, s.erc20.balances w = ∑ k ∈ months, s.balanceOf w k) ∧ s.erc20.totalSupply = ∑ k ∈ months, s.totalSupplies k ∧
    (∀ k, s.totalSupplies k = ∑ w, s.balanceOf w k) ∧
    ∀ w, (s.perMonth w).sortedArray.Pairwise (· < ·) ∧ ∀ k, 0 < s.balanceOf w k → k ∈ (s.perMonth w).sortedArray

structure Booked (s : State) : Prop where
  kept : s.Kept
  rows : ∀ w, w ≠ 0 → s.erc20.balances w = ∑ k ∈ months, s.balanceOf w k
  columns : s.totalSupplies = colSum s.balanceOf

structure Sealed (s : State) : Prop where
  booked : Booked s
  outside : ∀ k, s.balanceOf 0 k = 0

variable {Receives : Address → Prop} {s s' : State} {receiver pledge : Address} {when amount : ℕ}

theorem month_mem (hk : s.Kept) (hhigh : when ≤ s.currentMonth + 13) : when ∈ months := by
  have hmonth := currentMonth_lt hk
  rw [mem_months]
  unfold maxUint at hmonth
  omega

theorem Booked.minted (hb : Booked s) (hhigh : when ≤ s.currentMonth + 13)
    (h : Minted receiver when amount s s') : Booked s' := by
  refine ⟨h.kept, ?_, ?_⟩
  · intro w hw
    have hin := month_mem hb.kept hhigh
    have hrow := congrFun (congrArg (rowSum months) h.balances) w
    rw [rowSum_add, rowSum_single, sum_pi_single', if_pos hin, Pi.add_apply] at hrow
    rw [h.held, Pi.add_apply, entry_eq_single hw, hb.rows w hw]
    exact hrow.symm
  · rw [h.supplies, h.balances, colSum_add, colSum_single, hb.columns]

theorem Booked.moved {source dest} {δ : ℕ → ℕ} {sent} (hb : Booked s)
    (h : Transferred source dest δ sent s s') : Booked s' := by
  refine ⟨h.kept, ?_, ?_⟩
  · intro w hw
    have hrow := congrFun (congrArg (rowSum months) h.balances) w
    have hheld := congrFun h.held w
    rw [rowSum_add, rowSum_add, rowSum_single, rowSum_entry, h.total, Pi.add_apply, Pi.add_apply] at hrow
    rw [Pi.add_apply, Pi.add_apply, hb.rows w hw] at hheld
    exact add_right_cancel (hheld.trans hrow.symm)
  · have hcolumns := congrArg colSum h.balances
    rw [colSum_add, colSum_add, colSum_single, colSum_entry, ← hb.columns, ← h.supplies, add_assoc] at hcolumns
    have hside : (if dest = 0 then δ else 0) + (if dest = 0 then 0 else δ) = δ := by split_ifs <;> simp
    rw [hside] at hcolumns
    exact (add_right_cancel hcolumns).symm

theorem Booked.label (hb : Booked s) (pledge amount) : Booked (s.label pledge amount) :=
  ⟨hb.kept.label pledge amount, hb.rows, hb.columns⟩

theorem Booked.effect (hb : Booked s) (h : Effect Receives s s') : Booked s' := by
  cases h with
  | minted _ hhigh h => exact hb.minted hhigh h
  | seeded _ _ hhigh h => exact (hb.label _ _).minted hhigh h
  | moved h => exact hb.moved h
  | idle h =>
    refine ⟨h.kept, ?_, ?_⟩
    · rw [h.held, h.balances]
      exact hb.rows
    · rw [h.supplies, h.balances]
      exact hb.columns

theorem outside_of_minted (hout : ∀ k, s.balanceOf 0 k = 0) (hreceiver : receiver ≠ 0)
    (h : Minted receiver when amount s s') (k : ℕ) : s'.balanceOf 0 k = 0 := by
  have hne : (0 : Address) ≠ receiver := hreceiver.symm
  rw [h.balances, Pi.add_apply, Pi.single_eq_of_ne hne, add_zero, hout]

theorem Sealed.effect (hs : Sealed s) (h : Effect (· ≠ 0) s s') : Sealed s' := by
  refine ⟨hs.booked.effect h, ?_⟩
  cases h with
  | minted hreceiver _ h => exact outside_of_minted hs.outside hreceiver h
  | @seeded pledge _ amount hpledge _ _ h =>
    have hout : ∀ k, (s.label pledge amount).balanceOf 0 k = 0 := hs.outside
    exact outside_of_minted hout hpledge h
  | moved h =>
    intro k
    have hbalance := congrFun (congrFun h.balances 0) k
    simp only [Pi.add_apply, entry_at_outside, Pi.zero_apply, add_zero, hs.outside k] at hbalance
    exact (Nat.add_eq_zero_iff.mp hbalance).1
  | idle h =>
    rw [h.balances]
    exact hs.outside

theorem sealed_of_exec {c} (hs : Sealed s) (hc : MintsTo (· ≠ 0) s c) (h : s.exec c = .ok s') : Sealed s' :=
  exec_invariant (fun _ ha => ha) (fun _ hs => hs.booked.kept) (fun _ _ => Sealed.effect) hs hc h

theorem Sealed.row (hs : Sealed s) (w : Address) : s.erc20.balances w = ∑ k ∈ months, s.balanceOf w k := by
  by_cases hw : w = 0
  · rw [hw, hs.booked.kept.backed.outside, sum_eq_zero fun k _ => hs.outside k]
  · exact hs.booked.rows w hw

theorem Sealed.supply (hs : Sealed s) : s.erc20.totalSupply = ∑ k ∈ months, s.totalSupplies k := by
  have hsum := hs.booked.kept.backed.sum
  simp only [hs.row] at hsum
  rw [← hsum, sum_comm, hs.booked.columns]
  simp only [colSum_apply]

theorem Sealed.agrees (hs : Sealed s) : Agrees s := by
  have hf := hs.booked.kept.filed
  refine ⟨hs.row, hs.supply, ?_, fun w => ⟨(hf.sound w).sorted, hf.covers w⟩⟩
  intro k
  rw [hs.booked.columns, colSum_apply]

theorem kept_created (owner aux range : Address) {now} (hnow : now < uintBound) :
    (State.created owner aux range now).Kept := by
  refine ⟨⟨fun _ => SortedSet.sound_empty, ?_⟩, ⟨?_, ?_, rfl⟩, le_rfl, hnow⟩
  · intro w k hpos
    exact absurd hpos (Nat.not_lt_zero 0)
  · simp [created]
  · unfold uintBound
    simp [created]

theorem booked_created (owner aux range : Address) {now} (hnow : now < uintBound) :
    Booked (State.created owner aux range now) := by
  refine ⟨kept_created owner aux range hnow, ?_, ?_⟩
  · intro w _
    simp [created]
  · funext k
    simp [colSum_apply, created]

theorem mint_last {metrics token sender minted} (hk : s.Kept) (hauth : s.auth sender = true) (hpos : 0 < amount)
    (h : s.mint metrics token sender pledge amount when = .ok (s', minted)) :
    ∃ t k batch, 0 < batch ∧ k ∈ months ∧ Minted pledge k batch t s' := by
  rcases mint_of_auth hauth h with ⟨hzero, -⟩ | ⟨-, t, k, batch, hfirst, -, hhigh, hbatch, hlast⟩
  · omega
  have ht : t.Kept ∧ k ≤ t.currentMonth + 13 := by
    rcases hfirst with rfl | ⟨headroom, hfirst⟩
    · exact ⟨hk, by omega⟩
    · have hmonth := currentMonth_of_mintBatch hfirst
      exact ⟨(hk.minted (by omega) hfirst).kept, by omega⟩
  exact ⟨t, k, batch, hbatch, month_mem ht.1 ht.2, ht.1.minted ht.2 hlast⟩

theorem not_agrees_of_minted {k batch} (hpos : 0 < batch) (hin : k ∈ months)
    (h : Minted 0 k batch s s') : ¬ Agrees s' := by
  rintro ⟨hrows, -⟩
  have hzero := hrows 0
  rw [h.kept.backed.outside] at hzero
  have hbatch : s'.balanceOf 0 k = s.balanceOf 0 k + batch := by
    rw [h.balances]
    simp
  have hnone := sum_eq_zero_iff.mp hzero.symm k hin
  omega

def plainMetrics : Metrics := ⟨0, 0, 0, 0⟩

def plainStable : DepositToken where
  isVault := false
  convertToShares := id
  convertToAssets := id
  allowance := fun who => if who = 0 then 0 else 10 ^ 30
  blocked := false
  transferFrom := fun _ _ => true
  index := 1
  stables := 1
  supplySelf := id
  riskFactor := 10000
  decimals := 18
  allowance_zero := if_pos rfl
  convertToAssets_zero := rfl

def plainCreated : State := State.created 100 101 102 1700000000

def plainCalls : List Call :=
  [.mint plainMetrics plainStable 101 2 500 0,
    .mint plainMetrics plainStable 1 1 1000 13,
    .transfer 1 2 700,
    .wait (2 * monthLength),
    .turn 101 2 600,
    .lzReceive solanaEid (toBytesBE 32 3 ++ toBytesBE 8 5)]

theorem plain_run : EveryStep State.exec (MintsTo (· ≠ 0)) plainCreated plainCalls ∧
    ∃ s, runAll State.exec plainCreated plainCalls = .ok s := by
  decide +kernel

/-- The books agree all along a run exactly if no authorised caller mints to the zero address. -/
theorem books_agree_iff {owner aux range : Address} {now : ℕ} {calls : List Call} {s : State} (hnow : now < uintBound)
    (hrun : runAll State.exec (State.created owner aux range now) calls = .ok s) :
    EveryState State.exec Agrees (State.created owner aux range now) calls ↔
      EveryStep State.exec (MintsTo (· ≠ 0)) (State.created owner aux range now) calls := by
  apply everyState_iff Sealed (fun _ => Sealed.agrees) (fun _ _ _ => sealed_of_exec) _
    ⟨booked_created owner aux range hnow, fun _ => rfl⟩ hrun
  intro s c s' hs hmints h
  cases c with
  | mint =>
    simp only [MintsTo, Classical.not_imp, not_not] at hmints
    obtain ⟨hauth, hpos, rfl⟩ := hmints
    simp only [State.exec, bind_eq_ok, Prod.exists] at h
    obtain ⟨t, minted, hmint, hok⟩ := h
    cases hok
    obtain ⟨u, k, batch, hbatch, hin, hlast⟩ := mint_last hs.booked.kept hauth hpos hmint
    exact not_agrees_of_minted hbatch hin hlast
  | _ => exact absurd trivial hmints

theorem plain_books_agree : EveryState State.exec Agrees plainCreated plainCalls := by
  obtain ⟨hmints, s, hrun⟩ := plain_run
  exact (books_agree_iff (by decide) hrun).mpr hmints

theorem mint_to_outside_breaks_books : ∃ s, runAll State.exec plainCreated
      [.mint plainMetrics plainStable 101 0 500 0] = .ok s ∧
    s.erc20.balances 0 ≠ ∑ k ∈ months, s.balanceOf 0 k ∧ s.erc20.totalSupply ≠ ∑ k ∈ months, s.totalSupplies k := by
  refine exists_ok (fun s => s.erc20.balances 0 = 0 ∧ s.balanceOf 0 1 = 500 ∧ s.erc20.totalSupply = 0 ∧
    s.totalSupplies 1 = 500) (by decide +kernel) ?_
  rintro s - ⟨hbalance, hbatch, hsupply, hmonth⟩
  have hin : 1 ∈ months := mem_months.mpr (by decide)
  constructor
  · intro heq
    have hnone := sum_eq_zero_iff.mp (heq.symm.trans hbalance) 1 hin
    omega
  · intro heq
    have hnone := sum_eq_zero_iff.mp (heq.symm.trans hsupply) 1 hin
    omega

/-- The seed tranche: a label on part of what holders have, which moves with it and is burned first. -/
structure Labelled (s : State) : Prop where
  kept : s.Kept
  total : s.seeded = ∑ w, s.tranche w
  held : ∀ w, s.tranche w ≤ s.erc20.balances w
  capped : s.seeded ≤ cap

variable {source dest : Address} {sent : ℕ}

theorem Labelled.minted (hl : Labelled s) (h : Minted receiver when amount s s') : Labelled s' := by
  refine ⟨h.kept, ?_, ?_, ?_⟩
  · rw [h.seeded, h.tranche]
    exact hl.total
  · intro w
    rw [h.tranche, h.held]
    exact (hl.held w).trans (Nat.le_add_right _ _)
  · rw [h.seeded]
    exact hl.capped

theorem Labelled.seeded {pledge} (hl : Labelled s) (hpledge : pledge ≠ 0)
    (hcap : s.seeded + amount ≤ cap) (h : Minted pledge when amount (s.label pledge amount) s') : Labelled s' := by
  have htranche : s'.tranche = s.tranche + Pi.single pledge amount := by
    rw [h.tranche]
    exact update_add s.tranche pledge amount
  refine ⟨h.kept, ?_, ?_, ?_⟩
  · rw [h.seeded, htranche]
    simp only [Pi.add_apply, sum_add_distrib, sum_pi_single', mem_univ, if_true, ← hl.total]
    rfl
  · intro w
    rw [htranche, h.held, entry_holder hpledge]
    exact Nat.add_le_add_right (hl.held w) _
  · rw [h.seeded]
    exact hcap

theorem Labelled.moved {δ : ℕ → ℕ} (hl : Labelled s) (h : Transferred source dest δ sent s s') : Labelled s' := by
  have hseeded := h.seeded
  refine ⟨h.kept, ?_, ?_, ?_⟩
  · have hsum := congrArg (fun f => ∑ w, f w) h.tranche
    simp only [Pi.add_apply, sum_add_distrib, sum_entry, sum_pi_single', mem_univ, if_true, ← hl.total] at hsum
    rw [hseeded]
    generalize ∑ w, s'.tranche w = total at hsum ⊢
    split_ifs at hsum ⊢ <;> omega
  · intro w
    have htranche := congrFun h.tranche w
    have hheld := congrFun h.held w
    have hle := hl.held w
    simp only [Pi.add_apply, Pi.single_apply, entry_apply] at htranche hheld
    by_cases hw : w = source
    · subst hw
      split_ifs at htranche hheld <;> omega
    · split_ifs at htranche hheld <;> omega
  · rw [hseeded]
    exact (Nat.sub_le _ _).trans hl.capped

theorem Labelled.effect {Receives} (hl : Labelled s) (h : Effect Receives s s') : Labelled s' := by
  cases h with
  | minted _ _ h => exact hl.minted h
  | seeded hpledge hcap _ h => exact hl.seeded hpledge hcap h
  | moved h => exact hl.moved h
  | idle h =>
    refine ⟨h.kept, ?_, ?_, ?_⟩
    · rw [h.seeded, h.tranche]
      exact hl.total
    · rw [h.tranche, h.held]
      exact hl.held
    · rw [h.seeded]
      exact hl.capped

theorem labelled_of_exec {c} (hl : Labelled s) (h : s.exec c = .ok s') : Labelled s' :=
  exec_invariant (fun _ _ => trivial) (fun _ hl => hl.kept) (fun _ _ => Labelled.effect) hl
    (mintsTo_anyone s c) h

theorem labelled_created (owner aux range : Address) {now} (hnow : now < uintBound) :
    Labelled (State.created owner aux range now) := by
  refine ⟨kept_created owner aux range hnow, ?_, fun _ => le_rfl, Nat.zero_le _⟩
  simp [created]

theorem seed_within_cap {owner aux range : Address} {now : ℕ} {calls : List Call} {s : State} (hnow : now < uintBound)
    (hrun : runAll State.exec (State.created owner aux range now) calls = .ok s) :
    s.seeded = ∑ w, s.tranche w ∧ (∀ w, s.tranche w ≤ s.erc20.balances w) ∧ s.seeded ≤ cap := by
  have hl : Labelled s := runAll_invariant (fun _ _ _ hl _ h => labelled_of_exec hl h)
    (labelled_created owner aux range hnow) (everyStep_trivial _ _) hrun
  exact ⟨hl.total, hl.held, hl.capped⟩

theorem plain_seed_within_cap : ∃ s, runAll State.exec plainCreated plainCalls = .ok s ∧
    s.seeded = ∑ w, s.tranche w ∧ (∀ w, s.tranche w ≤ s.erc20.balances w) ∧ s.seeded ≤ cap := by
  obtain ⟨-, s, hrun⟩ := plain_run
  exact ⟨s, hrun, seed_within_cap (by decide) hrun⟩

structure Matured (s : State) : Prop where
  booked : Booked s
  horizon : ∀ k, s.currentMonth + 13 < k → s.totalSupplies k = 0

variable {Receives : Address → Prop} {s s' : State} {source dest receiver who : Address}
  {k when amount value sent burned : ℕ}

theorem Matured.minted (hm : Matured s) (hhigh : when ≤ s.currentMonth + 13)
    (h : Minted receiver when amount s s') : Matured s' := by
  refine ⟨hm.booked.minted hhigh h, ?_⟩
  intro k hk
  unfold currentMonth at hk hhigh
  rw [h.timestamp, h.deployed] at hk
  have hne : k ≠ when := by omega
  rw [h.supplies, Pi.add_apply, Pi.single_eq_of_ne hne, add_zero]
  exact hm.horizon k hk

theorem Matured.moved {δ : ℕ → ℕ} (hm : Matured s) (h : Transferred source dest δ sent s s') : Matured s' := by
  refine ⟨hm.booked.moved h, ?_⟩
  intro k hk
  unfold currentMonth at hk
  rw [h.timestamp, h.deployed] at hk
  have hnone := hm.horizon k hk
  rw [← h.supplies] at hnone
  exact (Nat.add_eq_zero_iff.mp hnone).1

theorem Matured.label (hm : Matured s) (pledge amount) : Matured (s.label pledge amount) :=
  ⟨hm.booked.label pledge amount, hm.horizon⟩

theorem Matured.effect (hm : Matured s) (h : Effect Receives s s') : Matured s' := by
  have hb := hm.booked.effect h
  cases h with
  | minted _ hhigh h => exact hm.minted hhigh h
  | seeded _ _ hhigh h => exact (hm.label _ _).minted hhigh h
  | moved h => exact hm.moved h
  | idle h =>
    refine ⟨hb, ?_⟩
    intro k hk
    rw [h.supplies]
    apply hm.horizon k
    have hlater : s.currentMonth ≤ s'.currentMonth := by
      unfold currentMonth
      rw [h.deployed]
      exact Nat.div_le_div_right (Nat.sub_le_sub_right h.timestamp _)
    omega

theorem matured_of_exec {c} (hm : Matured s) (h : s.exec c = .ok s') : Matured s' :=
  exec_invariant (fun _ _ => trivial) (fun _ hm => hm.booked.kept) (fun _ _ => Matured.effect) hm
    (mintsTo_anyone s c) h

theorem Booked.batch_le (hb : Booked s) (w k) : s.balanceOf w k ≤ s.totalSupplies k := by
  rw [hb.columns, colSum_apply]
  exact single_le_sum (fun v _ => Nat.zero_le (s.balanceOf v k)) (mem_univ w)

theorem Matured.batch_eq_zero (hm : Matured s) (w : Address) (hk : s.currentMonth + 13 < k) : s.balanceOf w k = 0 := by
  have hle := hm.booked.batch_le w k
  rw [hm.horizon k hk] at hle
  exact Nat.le_zero.mp hle

theorem foldlM_add {amounts : ℕ → ℕ} {ms : List ℕ} (acc : ℕ) (h : acc + (ms.map amounts).sum < uintBound) :
    ms.foldlM (fun bal m => add bal (amounts m)) acc = .ok (acc + (ms.map amounts).sum) := by
  induction ms generalizing acc with
  | nil => rfl
  | cons m ms ih =>
    rw [List.map_cons, List.sum_cons, ← add_assoc] at h ⊢
    rw [List.foldlM_cons, add_of_lt (by omega), ok_bind]
    exact ih _ h

theorem sum_range' (f : ℕ → ℕ) (a n : ℕ) : ((List.range' a n).map f).sum = ∑ k ∈ Ico a (a + n), f k := by
  have hfinset : (List.range' a n).toFinset = Ico a (a + n) := by
    ext k
    simp
  rw [← hfinset, List.sum_toFinset f List.nodup_range']

theorem windowSum_eq {amounts : ℕ → ℕ} {cm : ℕ} (hcm : cm + 15 < maxUint) (hbeyond : ∀ k, cm + 13 < k → amounts k = 0)
    (hbound : ∑ k ∈ months with cm < k, amounts k < uintBound) :
    windowSum amounts cm = .ok (∑ k ∈ months with cm < k, amounts k) := by
  have hwindow : ∑ k ∈ Ico (cm + 1) (cm + 1 + 13), amounts k = ∑ k ∈ months with cm < k, amounts k := by
    apply sum_subset
    · intro k hk
      rw [mem_Ico] at hk
      rw [mem_filter, mem_months]
      unfold maxUint at hcm
      omega
    · intro k hk hnot
      rw [mem_filter] at hk
      rw [mem_Ico] at hnot
      exact hbeyond k (by omega)
  unfold windowSum
  rw [← hwindow, ← sum_range'] at hbound ⊢
  have hfold := foldlM_add 0 (by rwa [zero_add])
  rwa [zero_add] at hfold

theorem split_months (f : ℕ → ℕ) (cm : ℕ) :
    ∑ k ∈ months, f k = ∑ k ∈ months with k ≤ cm, f k + ∑ k ∈ months with cm < k, f k := by
  rw [← sum_filter_add_sum_filter_not months (· ≤ cm)]
  simp only [not_le]

theorem Matured.immatureBalanceOf_eq (hm : Matured s) (hrow : s.erc20.balances who = ∑ k ∈ months, s.balanceOf who k) :
    s.immatureBalanceOf who = .ok (∑ k ∈ months with s.currentMonth < k, s.balanceOf who k) := by
  have hk := hm.booked.kept
  apply windowSum_eq (currentMonth_lt hk) (fun k => hm.batch_eq_zero who)
  have hsplit := split_months (s.balanceOf who) s.currentMonth
  have hle := hk.backed.balance_le who
  have hbound := hk.backed.bounded
  rw [hrow, hsplit] at hle
  omega

theorem Matured.matureSupply_eq (hm : Matured s) (hs : Sealed s) :
    s.matureSupply = .ok (∑ k ∈ months with k ≤ s.currentMonth, s.totalSupplies k) := by
  have hsplit := split_months s.totalSupplies s.currentMonth
  have himm : s.immatureSupply = .ok (∑ k ∈ months with s.currentMonth < k, s.totalSupplies k) := by
    apply windowSum_eq (currentMonth_lt hm.booked.kept) hm.horizon
    have hbound := hm.booked.kept.backed.bounded
    rw [hs.supply, hsplit] at hbound
    omega
  unfold matureSupply
  rw [himm, ok_bind]
  simp only [hs.supply, hsplit]
  congr 1
  split_ifs <;> omega

theorem Booked.sum_mature (hb : Booked s) (source : Address) :
    (((s.perMonth source).sortedArray.filter (· ≤ s.currentMonth)).map (s.balanceOf source)).sum =
      ∑ k ∈ months with k ≤ s.currentMonth, s.balanceOf source k := by
  have hsound := hb.kept.filed.sound source
  have hnodup : ((s.perMonth source).sortedArray.filter (· ≤ s.currentMonth)).Nodup :=
    (hsound.sorted.imp ne_of_lt).filter _
  rw [← List.sum_toFinset _ hnodup]
  apply sum_subset
  · intro k hk
    obtain ⟨hmem, hle⟩ := List.mem_filter.mp (List.mem_toFinset.mp hk)
    have hlt := hsound.below k hmem
    rw [mem_filter, mem_months]
    unfold maxUint at hlt
    exact ⟨by omega, by simpa using hle⟩
  · intro k hk hnot
    rw [mem_filter] at hk
    by_contra hne
    apply hnot
    have hmem := hb.kept.filed.covers source k (Nat.pos_of_ne_zero hne)
    exact List.mem_toFinset.mpr (List.mem_filter.mpr ⟨hmem, by simpa using hk.2⟩)

theorem moveTranche_burn (s : State) (source : Address) (sent : ℕ) : ∃ s', s.moveTranche source 0 sent = .ok s' := by
  unfold moveTranche
  by_cases hzero : s.tranche source = 0
  · rw [if_pos hzero]
    exact ⟨_, rfl⟩
  · simp only [if_neg hzero, if_true]
    exact ⟨_, rfl⟩

theorem Booked.transferHelper_burn (hb : Booked s) (hle : value ≤ s.erc20.balances source) :
    ∃ s', s.transferHelper source 0 value =
      .ok (s', min value (∑ k ∈ months with k ≤ s.currentMonth, s.balanceOf source k)) := by
  have hk := hb.kept
  have hword : 0 + value < uintBound := by
    have hbalance := hk.backed.balance_le source
    have hbound := hk.backed.bounded
    omega
  have hstart : s.firstBatch (s.perMonth source).sortedArray 0 =
      .ok (matureBatches (s.perMonth source).sortedArray s.timestamp s.deployed) := if_pos rfl
  obtain ⟨⟨t, total⟩, hloop⟩ := moveBatches_burn hk.filed (hb.batch_le source) hword
  have htotal := moveBatches_sent hk.filed (firstBatch_le hstart)
    ((hk.filed.sound source).sorted.imp ne_of_lt) hloop
  rw [zero_add, take_matureBatches hk.filed, hb.sum_mature] at htotal
  obtain ⟨δ, -, hmoved, -, -, -⟩ := moveBatches_eq_ok hk.filed (firstBatch_le hstart) hloop
  have herc20 : t.erc20 = s.erc20 := by rw [hmoved.frame]
  unfold transferHelper
  rw [require_of _ hle, ok_bind]
  simp only
  rw [hstart, ok_bind, hloop, ok_bind]
  simp only
  rw [← htotal]
  by_cases hzero : total = 0
  · rw [if_pos hzero]
    exact ⟨t, rfl⟩
  · rw [if_neg hzero]
    have hholder : source ≠ 0 := by
      rintro rfl
      rw [hk.backed.outside] at hle
      omega
    have hheld : total ≤ t.erc20.balances source := by
      rw [herc20]
      omega
    obtain ⟨token, hupdate⟩ := Erc20.update_of_holder 0 hholder hheld
    obtain ⟨u, hlabel⟩ := moveTranche_burn { t with erc20 := token } source total
    rw [hupdate, ok_bind, hlabel, ok_bind]
    exact ⟨u, rfl⟩

def Burns (s s' : State) (source : Address) (burned : ℕ) : Prop :=
  s'.erc20.balances + Pi.single source burned = s.erc20.balances ∧ s'.erc20.totalSupply + burned = s.erc20.totalSupply ∧
    ∀ w k, s.currentMonth < k → s'.balanceOf w k = s.balanceOf w k

theorem burns_of_transferHelper (hk : s.Kept)
    (h : s.transferHelper source 0 value = .ok (s', burned)) : Burns s s' source burned := by
  obtain ⟨δ, hmoved⟩ := transferHelper_eq_ok hk h
  refine ⟨?_, ?_, ?_⟩
  · have hheld := hmoved.held
    rwa [entry_outside, add_zero] at hheld
  · have hsupply := hmoved.supply
    rwa [if_pos rfl] at hsupply
  · intro w k hlater
    have hnone : δ k = 0 := by
      by_contra hne
      have hle := hmoved.mature rfl k hne
      omega
    have hbalance := congrFun (congrFun hmoved.balances w) k
    rw [entry_outside, add_zero, Pi.add_apply, Pi.add_apply] at hbalance
    have hzero : (Pi.single source δ : Address → ℕ → ℕ) w k = 0 := by
      by_cases hw : w = source
      · rw [hw, Pi.single_eq_same, hnone]
      · rw [Pi.single_eq_of_ne hw, Pi.zero_apply]
    rwa [hzero, add_zero] at hbalance

section Burn

variable {imm : ℕ} (hm : Matured s) (hrow : s.erc20.balances source = ∑ k ∈ months, s.balanceOf source k)
  (himm : s.immatureBalanceOf source = .ok imm)

include hm hrow himm

theorem Matured.mature_eq :
    ∑ k ∈ months with k ≤ s.currentMonth, s.balanceOf source k = s.erc20.balances source - imm := by
  rw [hm.immatureBalanceOf_eq hrow] at himm
  rw [← Except.ok.inj himm, hrow, split_months (s.balanceOf source) s.currentMonth, Nat.add_sub_cancel]

theorem Matured.burned_eq (h : s.transferHelper source 0 value = .ok (s', burned)) :
    burned = min value (s.erc20.balances source - imm) := by
  obtain ⟨t, hburn⟩ := hm.booked.transferHelper_burn (transferHelper_le h)
  rw [h, hm.mature_eq hrow himm] at hburn
  exact (ok_pair_inj hburn).2

theorem Matured.turn_eq {sender} (hauth : s.auth sender = true) (hle : value ≤ s.erc20.balances source) :
    ∃ s' seedBurned, s.turn sender source value = .ok (s', min value (s.erc20.balances source - imm), seedBurned) ∧
      Burns s s' source (min value (s.erc20.balances source - imm)) := by
  obtain ⟨s', hburn⟩ := hm.booked.transferHelper_burn hle
  rw [hm.mature_eq hrow himm] at hburn
  obtain ⟨δ, hmoved⟩ := transferHelper_eq_ok hm.booked.kept hburn
  have hlabel : s'.tranche source ≤ s.tranche source := by
    have htranche := congrFun hmoved.tranche source
    rw [entry_outside, add_zero, Pi.add_apply] at htranche
    omega
  refine ⟨s', s.tranche source - s'.tranche source, ?_, burns_of_transferHelper hm.booked.kept hburn⟩
  unfold turn
  simp only [require_of _ hauth, ok_bind, hburn, sub_of_le hlabel]

theorem Matured.bridgeToSolana_burns {lz to32 message}
    (h : s.bridgeToSolana lz source to32 amount = .ok (s', message)) :
    Burns s s' source (min (amount / sdRate * sdRate) (s.erc20.balances source - imm)) := by
  obtain ⟨burned, -, hmove, -, -⟩ := bridgeToSolana_eq_ok h
  rw [← hm.burned_eq hrow himm hmove]
  exact burns_of_transferHelper hm.booked.kept hmove

end Burn

theorem matured_created (owner aux range : Address) {now} (hnow : now < uintBound) :
    Matured (State.created owner aux range now) :=
  ⟨booked_created owner aux range hnow, fun _ _ => rfl⟩

theorem matured_of_run {owner aux range now calls} (hnow : now < uintBound)
    (hrun : runAll State.exec (State.created owner aux range now) calls = .ok s) : Matured s :=
  runAll_invariant (fun _ _ _ hm _ h => matured_of_exec hm h) (matured_created owner aux range hnow)
    (everyStep_trivial _ _) hrun

theorem maturity_exact {owner aux range : Address} {now : ℕ} {calls : List Call} {s : State} (hnow : now < uintBound)
    (hmints : EveryStep State.exec (MintsTo (· ≠ 0)) (State.created owner aux range now) calls)
    (hrun : runAll State.exec (State.created owner aux range now) calls = .ok s) :
    (∀ w k, s.currentMonth + 13 < k → s.balanceOf w k = 0) ∧
      (∀ w, s.immatureBalanceOf w = .ok (∑ k ∈ months with s.currentMonth < k, s.balanceOf w k)) ∧
      s.matureSupply = .ok (∑ k ∈ months with k ≤ s.currentMonth, s.totalSupplies k) ∧
      (∀ sender source value imm, s.auth sender = true → value ≤ s.erc20.balances source →
        s.immatureBalanceOf source = .ok imm → ∃ s' seedBurned, s.turn sender source value =
              .ok (s', min value (s.erc20.balances source - imm), seedBurned) ∧
            Burns s s' source (min value (s.erc20.balances source - imm))) ∧
      ∀ lz sender to32 amount imm s' message, s.immatureBalanceOf sender = .ok imm →
        s.bridgeToSolana lz sender to32 amount = .ok (s', message) →
          Burns s s' sender (min (amount / sdRate * sdRate) (s.erc20.balances sender - imm)) := by
  have hm := matured_of_run hnow hrun
  have hs : Sealed s := runAll_invariant (fun _ _ _ => sealed_of_exec)
    ⟨booked_created owner aux range hnow, fun _ => rfl⟩ hmints hrun
  refine ⟨fun w k => hm.batch_eq_zero w, fun w => hm.immatureBalanceOf_eq (hs.row w), hm.matureSupply_eq hs, ?_, ?_⟩
  · intro sender source value imm hauth hle himm
    exact hm.turn_eq (hs.row source) himm hauth hle
  · intro lz sender to32 amount imm s' message himm hbridge
    exact hm.bridgeToSolana_burns (hs.row sender) himm hbridge

theorem plain_matureSupply : ∃ s, runAll State.exec plainCreated plainCalls = .ok s ∧
    s.matureSupply = .ok (∑ k ∈ months with k ≤ s.currentMonth, s.totalSupplies k) := by
  obtain ⟨hmints, s, hrun⟩ := plain_run
  exact ⟨s, hrun, (maturity_exact (by decide) hmints hrun).2.2.1⟩

theorem mint_to_outside_never_matures : ∃ s, runAll State.exec plainCreated [.mint plainMetrics plainStable 101 0 500 0,
        .mint plainMetrics plainStable 101 2 500 0, .wait (2 * monthLength)] = .ok s ∧
    s.matureSupply ≠ .ok (∑ k ∈ months with k ≤ s.currentMonth, s.totalSupplies k) := by
  refine exists_ok (fun s => s.currentMonth = 2 ∧ s.totalSupplies 1 = 1000 ∧ s.matureSupply = .ok 500)
    (by decide +kernel) ?_
  rintro s - ⟨hmonth, hbatch, hmature⟩ heq
  have hin : 1 ∈ months.filter (· ≤ s.currentMonth) := by
    rw [mem_filter, mem_months, hmonth]
    decide
  have hle := single_le_sum (fun k _ => Nat.zero_le (s.totalSupplies k)) hin
  rw [hmature] at heq
  rw [← Except.ok.inj heq, hbatch] at hle
  omega

end QuidProtocol.Basket
