import Mathlib.Data.Set.Finite.Lattice
import QuidProtocol.Basket.Model
import Mathlib.Logic.Relation

/-!
What the primitives of the contract do to its books.
Every call is a sequence of a few kinds of steps.
-/

namespace QuidProtocol.Basket

open Lib Finset Function

noncomputable def months : Finset ℕ := (Set.finite_lt_nat uintBound).toFinset

theorem mem_months {k} : k ∈ months ↔ k < uintBound := by simp [months]

namespace State

structure Filed (s : State) : Prop where
  sound : ∀ w, (s.perMonth w).Sound
  covers : ∀ w k, 0 < s.balanceOf w k → k ∈ (s.perMonth w).sortedArray

structure Moved (source dest : Address) (δ : ℕ → ℕ) (s s' : State) : Prop where
  balances : s'.balanceOf + Pi.single source δ = s.balanceOf + entry dest δ
  supplies : s'.totalSupplies + (if dest = 0 then δ else 0) = s.totalSupplies
  frame : s' = { s with
    balanceOf := s'.balanceOf, totalSupplies := s'.totalSupplies, perMonth := s'.perMonth }

variable {s s' t : State} {source dest who : Address} {k amt : ℕ} {δ ε : ℕ → ℕ}

theorem Filed.month_lt (h : s.Filed) (hpos : 0 < s.balanceOf who k) : k < maxUint :=
  (h.sound who).below k (h.covers who k hpos)

theorem Moved.refl (source dest s) : Moved source dest 0 s s := by
  refine ⟨by simp, ?_, rfl⟩
  split_ifs <;> exact add_zero _

theorem Moved.trans (h : Moved source dest δ s t) (h' : Moved source dest ε t s') : Moved source dest (δ + ε) s s' := by
  refine ⟨?_, ?_, ?_⟩
  · rw [Pi.single_add, entry_add, ← add_assoc, ← add_assoc, ← h.balances, add_right_comm, h'.balances]
    exact add_right_comm _ _ _
  · have hsupplies := h'.supplies
    rw [← h.supplies, ← hsupplies]
    split_ifs
    · rw [add_comm δ ε, add_assoc]
    · simp
  · rw [h'.frame, h.frame]

theorem setBalance_balanceOf (s : State) (who : Address) (k : ℕ) {v a b} (h : v + a = s.balanceOf who k + b) :
    (s.setBalance who k v).balanceOf + Pi.single who (Pi.single k a) = s.balanceOf + Pi.single who (Pi.single k b) := by
  apply update_add_single
  exact update_add_single h

theorem setBalance_add (s : State) (who : Address) (k amt : ℕ) :
    (s.setBalance who k (s.balanceOf who k + amt)).balanceOf = s.balanceOf + Pi.single who (Pi.single k amt) := by
  have h := setBalance_balanceOf s who k (add_zero (s.balanceOf who k + amt))
  rwa [Pi.single_zero, Pi.single_zero, add_zero] at h

theorem setBalance_sub (s : State) (who : Address) (k : ℕ) (h : amt ≤ s.balanceOf who k) :
    (s.setBalance who k (s.balanceOf who k - amt)).balanceOf + Pi.single who (Pi.single k amt) = s.balanceOf := by
  have hsplit : s.balanceOf who k - amt + amt = s.balanceOf who k + 0 := by omega
  rw [setBalance_balanceOf s who k hsplit, Pi.single_zero, Pi.single_zero, add_zero]

section

variable (hf : s.Filed)

include hf

theorem Filed.insert (hk : k < maxUint) (hset : s'.perMonth = update s.perMonth who ((s.perMonth who).insert k))
    (hbalances : s'.balanceOf = s.balanceOf + Pi.single who (Pi.single k amt)) : s'.Filed := by
  refine ⟨?_, ?_⟩
  · intro w
    rw [hset]
    by_cases hw : w = who
    · rw [hw, update_self]
      exact (hf.sound who).insert hk
    · rw [update_of_ne hw]
      exact hf.sound w
  · intro w j hpos
    rw [hset]
    rw [hbalances, Pi.add_apply, Pi.add_apply] at hpos
    by_cases hw : w = who
    · subst hw
      rw [update_self, SortedSet.mem_insert (hf.sound w)]
      by_cases hj : j = k
      · exact Or.inl hj
      · right
        apply hf.covers w j
        simpa [hj] using hpos
    · rw [update_of_ne hw]
      apply hf.covers w j
      simpa [hw] using hpos

theorem Filed.shrink (hset : s'.perMonth = s.perMonth)
    (hle : ∀ w j, s'.balanceOf w j ≤ s.balanceOf w j) : s'.Filed := by
  refine ⟨?_, ?_⟩
  · intro w
    rw [hset]
    exact hf.sound w
  · intro w j hpos
    rw [hset]
    exact hf.covers w j (hpos.trans_le (hle w j))

theorem putBatch_eq_ok (hk : k < maxUint) (h : s.putBatch dest k amt = .ok s') :
    s'.Filed ∧ s'.balanceOf = s.balanceOf + entry dest (Pi.single k amt) ∧
      s'.totalSupplies + (if dest = 0 then Pi.single k amt else 0) = s.totalSupplies ∧
      (∀ w, (s.perMonth w).sortedArray ⊆ (s'.perMonth w).sortedArray) ∧ s' = { s with
        balanceOf := s'.balanceOf, totalSupplies := s'.totalSupplies, perMonth := s'.perMonth } := by
  unfold putBatch at h
  by_cases hdest : dest = 0
  · rw [if_neg (not_not.mpr hdest), bind_eq_ok] at h
    obtain ⟨supply, hsub, hok⟩ := h
    obtain ⟨hle, rfl⟩ := sub_eq_ok.mp hsub
    cases hok
    have hsplit : s.totalSupplies k - amt + amt = s.totalSupplies k + 0 := by omega
    refine ⟨⟨hf.sound, hf.covers⟩, by simp [hdest], ?_, fun w => List.Subset.refl _, rfl⟩
    rw [if_pos hdest]
    exact (update_add_single hsplit).trans (by simp)
  · rw [if_pos hdest] at h
    obtain ⟨-, hok⟩ := of_checkedAdd h
    cases hok
    have hbalances := setBalance_add s dest k amt
    refine ⟨hf.insert hk rfl hbalances, ?_, by simp [hdest, setBalance], ?_, rfl⟩
    · rw [entry_holder hdest]
      exact hbalances
    · intro w v hv
      by_cases hw : w = dest
      · subst hw
        simp only [setBalance, update_self]
        exact (SortedSet.mem_insert (hf.sound w) k v).mpr (Or.inr hv)
      · simpa [setBalance, hw] using hv

theorem dropEmpty_of_mem (hmem : k ∈ (s.perMonth source).sortedArray) :
    ∃ s', s.dropEmpty source k = .ok s' ∧ s'.Filed ∧ s' = { s with perMonth := s'.perMonth } := by
  unfold dropEmpty
  by_cases hzero : s.balanceOf source k = 0
  · obtain ⟨left, hremove, hsound, hleft⟩ := SortedSet.remove_of_mem (hf.sound source) hmem
    rw [if_pos hzero, hremove]
    refine ⟨_, rfl, ⟨?_, ?_⟩, rfl⟩
    · intro w
      by_cases hw : w = source
      · subst hw
        simpa using hsound
      · simpa [hw] using hf.sound w
    · intro w j hpos
      by_cases hw : w = source
      · subst hw
        simp only [update_self]
        refine (hleft j).mpr ⟨hf.covers w j hpos, ?_⟩
        rintro rfl
        exact hpos.ne' hzero
      · simpa [hw] using hf.covers w j hpos
  · rw [if_neg hzero]
    exact ⟨s, rfl, hf, rfl⟩

theorem Filed.debit (hle : amt ≤ s.balanceOf source k) :
    (s.setBalance source k (s.balanceOf source k - amt)).Filed := by
  have hset : (s.setBalance source k (s.balanceOf source k - amt)).perMonth = s.perMonth := rfl
  apply hf.shrink hset
  intro w j
  have h := congrFun (congrFun (setBalance_sub s source k hle) w) j
  simp only [Pi.add_apply] at h
  omega

theorem moveBatch_eq_ok (hpos : 0 < s.balanceOf source k)
    (hle : amt ≤ s.balanceOf source k) (h : s.moveBatch source dest k amt = .ok s') :
    s'.Filed ∧ Moved source dest (Pi.single k amt) s s' := by
  obtain ⟨put, hput, hdrop⟩ := of_bind h
  obtain ⟨hfput, hbalances, hsupplies, hsets, hframe⟩ := putBatch_eq_ok (hf.debit hle) (hf.month_lt hpos) hput
  have hmem := hsets source (hf.covers source k hpos)
  obtain ⟨_, hdrop', hf', hdropped⟩ := dropEmpty_of_mem hfput hmem
  obtain rfl := ok_unique hdrop hdrop'
  refine ⟨hf', ?_, ?_, ?_⟩
  · rw [hdropped, ← setBalance_sub s source k hle]
    simp only
    rw [hbalances]
    exact add_right_comm _ _ _
  · rw [hdropped]
    exact hsupplies
  · rw [hdropped, hframe]
    rfl

theorem moveBatch_burn (hpos : 0 < s.balanceOf source k)
    (hle : amt ≤ s.balanceOf source k) (hsupply : amt ≤ s.totalSupplies k) :
    ∃ s', s.moveBatch source 0 k amt = .ok s' := by
  have hput : (s.setBalance source k (s.balanceOf source k - amt)).putBatch 0 k amt = .ok
      { s.setBalance source k (s.balanceOf source k - amt) with
        totalSupplies := update s.totalSupplies k (s.totalSupplies k - amt) } := by
    unfold putBatch
    rw [if_neg (not_not.mpr rfl)]
    exact bind_eq_ok.mpr ⟨_, sub_of_le hsupply, rfl⟩
  obtain ⟨hfput, -, -, hsets, -⟩ := putBatch_eq_ok (hf.debit hle) (hf.month_lt hpos) hput
  obtain ⟨s', hdrop, -, -⟩ := dropEmpty_of_mem hfput (hsets source (hf.covers source k hpos))
  exact ⟨s', bind_eq_ok.mpr ⟨_, hput, hdrop⟩⟩

end

theorem Moved.balanceOf_of_ne (h : Moved source dest (Pi.single k amt) s s') {j} (hj : j ≠ k) :
    s'.balanceOf source j = s.balanceOf source j := by
  have hmoved := congrFun (congrFun h.balances source) j
  have hentry : entry dest (Pi.single k amt : ℕ → ℕ) source j = 0 := by
    unfold entry
    split_ifs
    · rfl
    · by_cases hs : source = dest <;> simp [hs, hj]
  simpa [hj, hentry] using hmoved

variable {batches : List ℕ} {i amount sent sent' : ℕ}

theorem take_succ_eq (hi : i < batches.length) : batches.take (i + 1) = batches.take i ++ [batches.getD i 0] := by
  rw [List.take_succ_eq_append_getElem hi, List.getD_eq_getElem _ _ hi]

theorem moveBatches_succ_eq_ok {r} : moveBatches source dest batches (i + 1) s amount sent = .ok r ↔
      (amount = 0 ∧ (s, sent) = r) ∨ (amount ≠ 0 ∧ s.balanceOf source (batches.getD i 0) = 0 ∧
        moveBatches source dest batches i s amount sent = .ok r) ∨
      (amount ≠ 0 ∧ 0 < s.balanceOf source (batches.getD i 0) ∧ ∃ t, s.moveBatch source dest (batches.getD i 0)
          (min amount (s.balanceOf source (batches.getD i 0))) = .ok t ∧
        sent + min amount (s.balanceOf source (batches.getD i 0)) < uintBound ∧ moveBatches source dest batches i t
          (amount - min amount (s.balanceOf source (batches.getD i 0)))
          (sent + min amount (s.balanceOf source (batches.getD i 0))) = .ok r) := by
  rw [moveBatches]
  generalize batches.getD i 0 = k
  by_cases hamount : amount = 0
  · simp [hamount]
  by_cases hzero : s.balanceOf source k = 0
  · simp [hamount, hzero]
  · have hpos := Nat.pos_of_ne_zero hzero
    simp only [hamount, hzero, hpos, if_false, bind_eq_ok, add_eq_ok, false_and, false_or, true_and,
      ne_eq, not_false_eq_true]
    constructor
    · rintro ⟨t, hbatch, _, ⟨hlt, rfl⟩, hloop⟩
      exact ⟨t, hbatch, hlt, hloop⟩
    · rintro ⟨t, hbatch, hlt, hloop⟩
      exact ⟨t, hbatch, _, ⟨hlt, rfl⟩, hloop⟩

theorem moveBatches_eq_ok (hf : s.Filed) (hi : i ≤ batches.length)
    (h : moveBatches source dest batches i s amount sent = .ok (s', sent')) :
    ∃ δ, s'.Filed ∧ Moved source dest δ s s' ∧ (∀ k, δ k ≠ 0 → k ∈ batches.take i) ∧
      sent' = sent + ∑ k ∈ months, δ k ∧ ∑ k ∈ months, δ k ≤ amount := by
  induction i generalizing s amount sent with
  | zero =>
    obtain ⟨rfl, rfl⟩ := ok_pair_inj h
    exact ⟨0, hf, .refl source dest s, by simp, by simp, by simp⟩
  | succ i ih =>
    have htake := take_succ_eq (Nat.lt_of_succ_le hi)
    have hvisited : batches.take i ⊆ batches.take (i + 1) := by
      rw [htake]
      exact List.subset_append_left _ _
    have hi' : i ≤ batches.length := by omega
    rcases moveBatches_succ_eq_ok.mp h with ⟨-, hr⟩ | ⟨-, -, hloop⟩ | ⟨-, hpos, t, hbatch, -, hloop⟩
    · obtain ⟨rfl, rfl⟩ := Prod.mk.inj hr
      exact ⟨0, hf, .refl source dest s, by simp, by simp, by simp⟩
    · obtain ⟨δ, hf', hmoved, hsupport, hsent, hle⟩ := ih hf hi' hloop
      exact ⟨δ, hf', hmoved, fun j hj => hvisited (hsupport j hj), hsent, hle⟩
    · generalize batches.getD i 0 = k at htake hpos hbatch hloop
      generalize hamt : min amount (s.balanceOf source k) = amt at hbatch hloop
      obtain ⟨hft, hfirst⟩ := moveBatch_eq_ok hf hpos (by omega) hbatch
      obtain ⟨δ, hf', hmoved, hsupport, hsent, hle⟩ := ih hft hi' hloop
      have hmonth := hf.month_lt hpos
      have hin : k ∈ months := by
        rw [mem_months]
        unfold maxUint at hmonth
        omega
      have htotal : ∑ j ∈ months, (Pi.single k amt + δ : ℕ → ℕ) j = amt + ∑ j ∈ months, δ j := by
        simp only [Pi.add_apply, sum_add_distrib, sum_pi_single', if_pos hin]
      refine ⟨_, hf', hfirst.trans hmoved, ?_, ?_, ?_⟩
      · intro j hj
        by_cases hjk : j = k
        · rw [hjk, htake]
          exact List.mem_append_right _ (List.mem_singleton_self k)
        · apply hvisited
          apply hsupport j
          simpa [hjk] using hj
      · rw [hsent, htotal, add_assoc]
      · rw [htotal]
        omega

theorem moveBatches_sent (hf : s.Filed) (hi : i ≤ batches.length) (hnodup : batches.Nodup)
    (h : moveBatches source dest batches i s amount sent = .ok (s', sent')) :
    sent' = sent + min amount ((batches.take i).map (s.balanceOf source)).sum := by
  induction i generalizing s amount sent with
  | zero =>
    cases h
    simp
  | succ i ih =>
    have htake := take_succ_eq (Nat.lt_of_succ_le hi)
    have hi' : i ≤ batches.length := by omega
    have hfresh : batches.getD i 0 ∉ batches.take i := by
      have hnd := hnodup.sublist (List.take_sublist (i + 1) batches)
      rw [htake, List.nodup_append] at hnd
      intro hmem
      exact hnd.2.2 _ hmem _ (List.mem_singleton_self _) rfl
    have hsum : ((batches.take (i + 1)).map (s.balanceOf source)).sum =
        ((batches.take i).map (s.balanceOf source)).sum + s.balanceOf source (batches.getD i 0) := by
      rw [htake]
      simp
    rw [hsum]
    rcases moveBatches_succ_eq_ok.mp h with
      ⟨hamount, hr⟩ | ⟨-, hzero, hloop⟩ | ⟨-, hpos, t, hbatch, -, hloop⟩
    · obtain ⟨-, rfl⟩ := Prod.mk.inj hr
      simp [hamount]
    · rw [ih hf hi' hloop, hzero, add_zero]
    · obtain ⟨hft, hfirst⟩ := moveBatch_eq_ok hf hpos (min_le_right _ _) hbatch
      have hsame : (batches.take i).map (t.balanceOf source) = (batches.take i).map (s.balanceOf source) := by
        apply List.map_congr_left
        intro j hj
        apply hfirst.balanceOf_of_ne
        rintro rfl
        exact hfresh hj
      rw [ih hft hi' hloop, hsame]
      omega

theorem moveBatches_burn (hf : s.Filed) (hsupply : ∀ k, s.balanceOf source k ≤ s.totalSupplies k)
    (hbound : sent + amount < uintBound) : ∃ r, moveBatches source 0 batches i s amount sent = .ok r := by
  induction i generalizing s amount sent with
  | zero => exact ⟨_, rfl⟩
  | succ i ih =>
    simp only [moveBatches_succ_eq_ok]
    generalize batches.getD i 0 = k
    by_cases hamount : amount = 0
    · exact ⟨_, Or.inl ⟨hamount, rfl⟩⟩
    by_cases hzero : s.balanceOf source k = 0
    · obtain ⟨r, hr⟩ := ih hf hsupply hbound
      exact ⟨r, Or.inr (Or.inl ⟨hamount, hzero, hr⟩)⟩
    have hpos := Nat.pos_of_ne_zero hzero
    have hle : min amount (s.balanceOf source k) ≤ s.balanceOf source k := min_le_right _ _
    obtain ⟨t, hbatch⟩ := moveBatch_burn hf hpos hle (hle.trans (hsupply k))
    obtain ⟨hft, hfirst⟩ := moveBatch_eq_ok hf hpos hle hbatch
    have hsupply' : ∀ j, t.balanceOf source j ≤ t.totalSupplies j := by
      intro j
      have hbal := congrFun (congrFun hfirst.balances source) j
      have hsup := congrFun hfirst.supplies j
      have hj := hsupply j
      simp only [if_true, entry_outside, Pi.add_apply, Pi.zero_apply, Pi.single_eq_same] at hbal hsup
      omega
    have hword : sent + min amount (s.balanceOf source k) < uintBound := by omega
    obtain ⟨r, hr⟩ := ih hft hsupply'
      (by omega : sent + min amount (s.balanceOf source k) + (amount - min amount (s.balanceOf source k)) < uintBound)
    exact ⟨r, Or.inr (Or.inr ⟨hamount, hpos, t, hbatch, hword, hr⟩)⟩

end State

namespace State

variable {s s' : State} {source dest receiver who : Address} {k when amount sent : ℕ}

structure Kept (s : State) : Prop where
  filed : s.Filed
  backed : s.erc20.Backed
  started : s.deployed ≤ s.timestamp
  clock : s.timestamp < uintBound

theorem currentMonth_lt (h : s.Kept) : s.currentMonth + 15 < maxUint := by
  have hclock := h.clock
  have hdiv : s.currentMonth ≤ (uintBound - 1) / monthLength := Nat.div_le_div_right (by omega)
  have hbound : (uintBound - 1) / monthLength + 15 < maxUint := by
    unfold uintBound monthLength maxUint uintBound
    norm_num
  omega

structure Transferred (source dest : Address) (δ : ℕ → ℕ) (sent : ℕ) (s s' : State) : Prop where
  balances : s'.balanceOf + Pi.single source δ = s.balanceOf + entry dest δ
  supplies : s'.totalSupplies + (if dest = 0 then δ else 0) = s.totalSupplies
  total : ∑ k ∈ months, δ k = sent
  mature : dest = 0 → ∀ k, δ k ≠ 0 → k ≤ s.currentMonth
  held : s'.erc20.balances + Pi.single source sent = s.erc20.balances + entry dest sent
  supply : s'.erc20.totalSupply + (if dest = 0 then sent else 0) = s.erc20.totalSupply
  le : sent ≤ s.erc20.balances source
  tranche : s'.tranche + Pi.single source (min sent (s.tranche source)) =
    s.tranche + entry dest (min sent (s.tranche source))
  seeded : s'.seeded = s.seeded - (if dest = 0 then min sent (s.tranche source) else 0)
  timestamp : s'.timestamp = s.timestamp
  deployed : s'.deployed = s.deployed
  kept : s'.Kept

theorem moveTranche_eq_ok (h : s.moveTranche source dest sent = .ok s') :
    s'.tranche + Pi.single source (min sent (s.tranche source)) = s.tranche + entry dest (min sent (s.tranche source)) ∧
      s'.seeded = s.seeded - (if dest = 0 then min sent (s.tranche source) else 0) ∧
      s' = { s with tranche := s'.tranche, seeded := s'.seeded } := by
  unfold moveTranche at h
  by_cases hzero : s.tranche source = 0
  · rw [if_pos hzero] at h
    cases h
    simp [hzero]
  rw [if_neg hzero] at h
  simp only at h
  generalize hseed : min sent (s.tranche source) = seed at h ⊢
  have hsplit : s.tranche source - seed + seed = s.tranche source + 0 := by omega
  have hdebit := update_add_single hsplit
  rw [Pi.single_zero, add_zero] at hdebit
  by_cases hdest : dest = 0
  · rw [if_pos hdest] at h
    cases h
    refine ⟨?_, ?_, rfl⟩
    · simpa [hdest] using hdebit
    · simp only [hdest, if_true]
      omega
  · rw [if_neg hdest] at h
    obtain ⟨-, hok⟩ := of_checkedAdd h
    cases hok
    refine ⟨?_, by simp [hdest], rfl⟩
    simp only
    rw [Lib.update_add, entry_holder hdest, add_right_comm, hdebit]

theorem matureBatchesLoop_le (batches : List ℕ) (month i : ℕ) : matureBatchesLoop batches month i ≤ i := by
  induction i with
  | zero => exact le_rfl
  | succ i ih =>
    unfold matureBatchesLoop
    split_ifs
    · exact le_rfl
    · exact ih.trans (Nat.le_succ i)

theorem take_matureBatchesLoop {batches : List ℕ} (hs : batches.Pairwise (· < ·)) (month : ℕ) {i : ℕ}
    (hi : i ≤ batches.length) :
    batches.take (matureBatchesLoop batches month i) = (batches.take i).filter (· ≤ month) := by
  induction i with
  | zero => simp [matureBatchesLoop]
  | succ i ih =>
    have htake := take_succ_eq (Nat.lt_of_succ_le hi)
    have hsorted := hs.sublist (List.take_sublist (i + 1) batches)
    unfold matureBatchesLoop
    rw [htake] at hsorted ⊢
    by_cases hmature : batches.getD i 0 ≤ month
    · rw [if_pos hmature, htake]
      symm
      apply List.filter_eq_self.mpr
      intro k hk
      apply decide_eq_true
      rcases List.mem_append.mp hk with hk | hk
      · exact ((List.pairwise_append.mp hsorted).2.2 k hk _ (by simp)).le.trans hmature
      · rw [List.mem_singleton.mp hk]
        exact hmature
    · rw [if_neg hmature, ih (by omega), List.filter_append]
      have hlast : [batches.getD i 0].filter (· ≤ month) = [] := List.filter_cons_of_neg (by simpa using hmature)
      rw [hlast, List.append_nil]

theorem take_matureBatches (hf : s.Filed) (source : Address) : (s.perMonth source).sortedArray.take
        (matureBatches (s.perMonth source).sortedArray s.timestamp s.deployed) =
      (s.perMonth source).sortedArray.filter (· ≤ s.currentMonth) := by
  unfold matureBatches
  rw [take_matureBatchesLoop (hf.sound source).sorted _ le_rfl, List.take_length]
  rfl

theorem firstBatch_le {batches i} (h : s.firstBatch batches dest = .ok i) : i ≤ batches.length := by
  unfold firstBatch at h
  split_ifs at h
  · cases h
    exact matureBatchesLoop_le _ _ _
  · obtain ⟨-, hok⟩ := of_require h
    cases hok
    exact le_rfl

theorem transferHelper_le {r} (h : s.transferHelper source dest amount = .ok r) : amount ≤ s.erc20.balances source := by
  obtain ⟨hreq, -⟩ := of_require h
  exact hreq

theorem transferHelper_eq_ok (hk : s.Kept) (h : s.transferHelper source dest amount = .ok (s', sent)) :
    ∃ δ, Transferred source dest δ sent s s' := by
  have hamount := transferHelper_le h
  unfold transferHelper at h
  obtain ⟨-, start, hstart, h⟩ := of_require_bind h
  obtain ⟨⟨t, total⟩, hloop, h⟩ := of_bind h
  obtain ⟨δ, hft, hmoved, hvisited, hsent, hle⟩ := moveBatches_eq_ok hk.filed (firstBatch_le hstart) hloop
  rw [zero_add] at hsent
  have hmature : dest = 0 → ∀ k, δ k ≠ 0 → k ≤ s.currentMonth := by
    intro hdest k hne
    have hmem := hvisited k hne
    unfold firstBatch at hstart
    rw [if_pos hdest] at hstart
    rw [← Except.ok.inj hstart, take_matureBatches hk.filed] at hmem
    simpa using (List.mem_filter.mp hmem).2
  have herc20 : t.erc20 = s.erc20 := by rw [hmoved.frame]
  have htranche : t.tranche = s.tranche := by rw [hmoved.frame]
  have hseeded : t.seeded = s.seeded := by rw [hmoved.frame]
  have htimestamp : t.timestamp = s.timestamp := by rw [hmoved.frame]
  have hdeployed : t.deployed = s.deployed := by rw [hmoved.frame]
  simp only at h
  by_cases hzero : total = 0
  · rw [if_pos hzero] at h
    cases h
    refine ⟨δ, hmoved.balances, hmoved.supplies, hsent.symm, hmature, ?_, ?_, ?_, ?_, ?_, htimestamp,
      hdeployed, hft, ?_, ?_, ?_⟩
    · simp [hzero, herc20]
    · simp [hzero, herc20]
    · omega
    · simp [hzero, htranche]
    · simp [hzero, hseeded]
    · rw [herc20]
      exact hk.backed
    · rw [hdeployed, htimestamp]
      exact hk.started
    · rw [htimestamp]
      exact hk.clock
  · rw [if_neg hzero] at h
    obtain ⟨token, hupdate, u, hlabel, h⟩ := of_bind₂ h
    cases h
    have hholder : source ≠ 0 := by
      rintro rfl
      rw [hk.backed.outside] at hamount
      omega
    rw [herc20] at hupdate
    obtain ⟨hheld, hsupply, -, hbacked⟩ := Erc20.update_of_backed hk.backed hupdate
    rw [entry_holder hholder] at hheld
    rw [if_neg hholder, add_zero] at hsupply
    obtain ⟨htranche', hseeded', hframe⟩ := moveTranche_eq_ok hlabel
    simp only [htranche, hseeded] at htranche' hseeded'
    rw [hframe]
    refine ⟨δ, hmoved.balances, hmoved.supplies, hsent.symm, hmature, hheld, hsupply, ?_, htranche',
      hseeded', htimestamp, hdeployed, ⟨hft.sound, hft.covers⟩, hbacked, ?_, ?_⟩
    · omega
    · simp only [hdeployed, htimestamp]
      exact hk.started
    · simp only [htimestamp]
      exact hk.clock

theorem bridgeToSolana_eq_ok {lz sender to32 message} (h : s.bridgeToSolana lz sender to32 amount = .ok (s', message)) :
    ∃ burned, to32 ≠ 0 ∧ s.transferHelper sender 0 (amount / sdRate * sdRate) = .ok (s', burned) ∧ burned / sdRate ≠ 0 ∧
      message = toBytesBE 32 to32.toNat ++ toBytesBE 8 (burned / sdRate % 2 ^ 64) := by
  simp only [State.bridgeToSolana, bind_eq_ok, Prod.exists, require_eq_ok] at h
  obtain ⟨_, hto, _, -, t, burned, hmove, _, -, _, hsent, _, -, _, -, _, -, hok⟩ := h
  cases hok
  exact ⟨burned, hto, hmove, hsent, rfl⟩

structure Minted (receiver : Address) (when amount : ℕ) (s s' : State) : Prop where
  balances : s'.balanceOf = s.balanceOf + Pi.single receiver (Pi.single when amount)
  supplies : s'.totalSupplies = s.totalSupplies + Pi.single when amount
  held : s'.erc20.balances = s.erc20.balances + entry receiver amount
  supply : s'.erc20.totalSupply + (if receiver = 0 then amount else 0) = s.erc20.totalSupply + amount
  tranche : s'.tranche = s.tranche
  seeded : s'.seeded = s.seeded
  timestamp : s'.timestamp = s.timestamp
  deployed : s'.deployed = s.deployed
  kept : s'.Kept

theorem mintBatch_clock (h : s.mintBatch receiver when amount = .ok s') :
    s'.timestamp = s.timestamp ∧ s'.deployed = s.deployed := by
  simp only [mintBatch, bind_eq_ok] at h
  obtain ⟨_, -, _, -, _, -, hok⟩ := h
  cases hok
  exact ⟨rfl, rfl⟩

theorem mintBatch_eq_ok (hk : s.Kept) (hwhen : when < maxUint)
    (h : s.mintBatch receiver when amount = .ok s') : Minted receiver when amount s s' := by
  simp only [mintBatch, bind_eq_ok] at h
  obtain ⟨supply, hsupply, token, hupdate, held, hheld, hok⟩ := h
  obtain ⟨-, rfl⟩ := add_eq_ok.mp hsupply
  obtain ⟨-, rfl⟩ := add_eq_ok.mp hheld
  cases hok
  obtain ⟨hbalances, hminted, -, hbacked⟩ := Erc20.update_of_backed hk.backed hupdate
  rw [entry_outside, add_zero] at hbalances
  rw [if_pos rfl] at hminted
  have hbatches := setBalance_add s receiver when amount
  refine ⟨hbatches, update_add _ _ _, hbalances, hminted, rfl, rfl, rfl, rfl, ?_, hbacked, hk.started, hk.clock⟩
  exact hk.filed.insert hwhen rfl hbatches

def label (s : State) (pledge : Address) (amount : ℕ) : State :=
  { s with
    seeded := s.seeded + amount
    tranche := Function.update s.tranche pledge (s.tranche pledge + amount) }

end State

open State

inductive Step (Receives : Address → Prop) : State → State → Prop
  | mint {s s' receiver when amount : _} (hreceives : Receives receiver)
      (hlow : s.currentMonth < when) (hhigh : when ≤ s.currentMonth + 13)
      (h : s.mintBatch receiver when amount = .ok s') : Step Receives s s'
  | seed {s s' pledge when amount : _} (hpledge : pledge ≠ 0)
      (hcap : s.seeded + amount ≤ cap)
      (hlow : s.currentMonth < when) (hhigh : when ≤ s.currentMonth + 13)
      (h : (s.label pledge amount).mintBatch pledge when amount = .ok s') : Step Receives s s'
  | move {s s' source dest amount sent : _}
      (h : s.transferHelper source dest amount = .ok (s', sent)) : Step Receives s s'
  | allow (s : State) (allowances : Address → Address → ℕ) :
      Step Receives s { s with erc20 := { s.erc20 with allowances } }
  | pin (s : State) (b : Address) : Step Receives s { s with btcVault := b }
  | wait (s : State) (seconds : ℕ) (h : s.timestamp + seconds < uintBound) :
      Step Receives s { s with timestamp := s.timestamp + seconds }

section Effects

variable {Receives : Address → Prop} {s s' : State} {receiver : Address} {when amount : ℕ}

theorem State.Kept.label (hk : s.Kept) (pledge amount) : (s.label pledge amount).Kept :=
  ⟨⟨hk.filed.sound, hk.filed.covers⟩, hk.backed, hk.started, hk.clock⟩

theorem State.Kept.minted (hk : s.Kept) (hhigh : when ≤ s.currentMonth + 13)
    (h : s.mintBatch receiver when amount = .ok s') : Minted receiver when amount s s' := by
  have hmonth := currentMonth_lt hk
  exact mintBatch_eq_ok hk (by omega) h

structure State.Idle (s s' : State) : Prop where
  balances : s'.balanceOf = s.balanceOf
  supplies : s'.totalSupplies = s.totalSupplies
  held : s'.erc20.balances = s.erc20.balances
  tranche : s'.tranche = s.tranche
  seeded : s'.seeded = s.seeded
  deployed : s'.deployed = s.deployed
  timestamp : s.timestamp ≤ s'.timestamp
  kept : s'.Kept

inductive Effect (Receives : Address → Prop) (s s' : State) : Prop
  | minted {receiver when amount : _} (hreceives : Receives receiver)
      (hhigh : when ≤ s.currentMonth + 13) (h : Minted receiver when amount s s')
  | seeded {pledge when amount : _} (hpledge : pledge ≠ 0)
      (hcap : s.seeded + amount ≤ cap) (hhigh : when ≤ s.currentMonth + 13)
      (h : Minted pledge when amount (s.label pledge amount) s')
  | moved {source dest δ sent : _} (h : Transferred source dest δ sent s s')
  | idle (h : Idle s s')

theorem effect_of_step (hk : s.Kept) (h : Step Receives s s') : Effect Receives s s' := by
  have hf := hk.filed
  cases h with
  | mint hreceives _ hhigh h => exact .minted hreceives hhigh (hk.minted hhigh h)
  | seed hpledge hcap _ hhigh h => exact .seeded hpledge hcap hhigh ((hk.label _ _).minted hhigh h)
  | move h =>
    obtain ⟨δ, hmoved⟩ := transferHelper_eq_ok hk h
    exact .moved hmoved
  | allow =>
    have hb := hk.backed
    exact .idle ⟨rfl, rfl, rfl, rfl, rfl, rfl, le_rfl, ⟨hf.sound, hf.covers⟩,
      ⟨hb.total, hb.bounded, hb.outside⟩, hk.started, hk.clock⟩
  | pin =>
    exact .idle ⟨rfl, rfl, rfl, rfl, rfl, rfl, le_rfl, ⟨hf.sound, hf.covers⟩, hk.backed, hk.started, hk.clock⟩
  | wait seconds hlt =>
    exact .idle ⟨rfl, rfl, rfl, rfl, rfl, rfl, Nat.le_add_right _ _, ⟨hf.sound, hf.covers⟩, hk.backed,
      hk.started.trans (Nat.le_add_right _ _), hlt⟩

end Effects

section Calls

variable {Receives : Address → Prop} {s s' : State}

def MintsTo (Receives : Address → Prop) (s : State) : Call → Prop
  | .mint _ _ sender pledge amount _ => s.auth sender = true → 0 < amount → Receives pledge
  | _ => True

instance [DecidablePred Receives] (c : Call) : Decidable (MintsTo Receives s c) := by
  cases c <;> unfold MintsTo <;> infer_instance

theorem mintsTo_anyone (s c) : MintsTo (fun _ => True) s c := by cases c <;> simp [MintsTo]

variable {token : DepositToken} {amount usd when normalized : ℕ}

theorem takeDeposit_outside : takeDeposit token 0 amount ≠ .ok usd := by
  intro h
  unfold takeDeposit at h
  rw [token.allowance_zero] at h
  split_ifs at h
  · obtain ⟨hreq, -⟩ := of_require h
    apply hreq
    rw [Nat.min_zero]
    exact token.convertToAssets_zero
  · obtain ⟨-, -, h⟩ := of_require₂ h
    obtain ⟨hreq, -⟩ := of_require h
    exact hreq (Nat.min_zero _)

theorem depositBody_holder {pledge} (h : depositBody token pledge amount = .ok usd) : pledge ≠ 0 := by
  rintro rfl
  obtain ⟨_, htake, -⟩ := of_bind h
  exact takeDeposit_outside htake

theorem maxFwd_le {total fwd} (h : s.maxFwd total = .ok fwd) : fwd ≤ 12 := by
  unfold maxFwd at h
  split_ifs at h
  · exact (Except.ok.inj h).ge
  · obtain ⟨bps, -, hok⟩ := of_bind h
    cases hok
    split_ifs <;> omega

theorem calcMintYield_month {deposited decimals nextMonth avgYield month isSeed}
    (h : calcMintYield deposited decimals when nextMonth avgYield isSeed = .ok (normalized, month)) :
    nextMonth ≤ month ∧ month ≤ max when (nextMonth + 1) := by
  simp only [calcMintYield, bind_eq_ok] at h
  obtain ⟨_, -, _, -, _, -, _, -, hok⟩ := h
  cases hok
  split_ifs <;> omega

theorem exceedsCap_false {isSeed} (hseed : isSeed = true)
    (h : s.exceedsCap isSeed normalized = .ok false) : s.seeded + normalized ≤ cap := by
  unfold exceedsCap at h
  rw [if_pos hseed] at h
  obtain ⟨-, hok⟩ := of_checkedAdd h
  simpa using hok

theorem step_of_finishMint (hall : ∀ a, a ≠ 0 → Receives a) {metrics pledge deposited decimals when normalized}
    (hpledge : pledge ≠ 0) (h : s.finishMint metrics pledge deposited decimals when (s.currentMonth + 1) =
      .ok (s', normalized)) : Step Receives s s' := by
  simp only [finishMint, bind_eq_ok, Prod.exists] at h
  obtain ⟨fwd, hfwd, first, month, hyield, mature, -, added, -, normalized₁, -, exceeds, hexceeds, h⟩ := h
  have hmax := maxFwd_le hfwd
  have hmonth := calcMintYield_month hyield
  cases exceeds with
  | true =>
    rw [if_pos rfl] at h
    simp only [bind_eq_ok, Prod.exists] at h
    obtain ⟨_, later, hagain, _, -, t, hmint, hok⟩ := h
    cases hok
    have hlater := calcMintYield_month hagain
    exact .mint (hall pledge hpledge) (by omega) (by omega) hmint
  | false =>
    rw [if_neg Bool.false_ne_true] at h
    split_ifs at h with hseed
    · simp only [bind_eq_ok] at h
      obtain ⟨_, hseeded, _, hlabelled, t, hmint, hok⟩ := h
      obtain ⟨-, rfl⟩ := add_eq_ok.mp hseeded
      obtain ⟨-, rfl⟩ := add_eq_ok.mp hlabelled
      cases hok
      exact .seed hpledge (exceedsCap_false hseed hexceeds) (by omega) (by omega) hmint
    · simp only [bind_eq_ok] at h
      obtain ⟨t, hmint, hok⟩ := h
      cases hok
      exact .mint (hall pledge hpledge) (by omega) (by omega) hmint

theorem mint_of_auth {metrics sender pledge minted} (hauth : s.auth sender = true)
    (h : s.mint metrics token sender pledge amount when = .ok (s', minted)) : (amount = 0 ∧ s = s') ∨
      (0 < amount ∧ ∃ t k batch, (s = t ∨ ∃ headroom, s.mintBatch pledge (s.currentMonth + 1) headroom = .ok t) ∧
        s.currentMonth < k ∧ k ≤ s.currentMonth + 2 ∧ 0 < batch ∧ t.mintBatch pledge k batch = .ok s') := by
  simp only [State.mint] at h
  rw [if_pos hauth] at h
  generalize metrics.total - _ - _ - s.erc20.totalSupply = headroom at h
  by_cases hsplit : 12 ≤ s.currentMonth ∧ headroom < amount
  · rw [if_pos hsplit] at h
    simp only [bind_eq_ok] at h
    obtain ⟨t, hfirst, u, hsecond, hok⟩ := h
    cases hok
    refine Or.inr ⟨by omega, t, _, _, ?_, by omega, by omega, by omega, hsecond⟩
    split_ifs at hfirst
    · exact Or.inr ⟨headroom, hfirst⟩
    · exact Or.inl (Except.ok.inj hfirst)
  · rw [if_neg hsplit] at h
    split_ifs at h with hamount
    · obtain ⟨t, hmint, hok⟩ := of_bind h
      cases hok
      exact Or.inr ⟨hamount, s, _, _, Or.inl rfl, by omega, by omega, hamount, hmint⟩
    · cases h
      exact Or.inl ⟨by omega, rfl⟩

theorem currentMonth_of_mintBatch {receiver}
    (h : s.mintBatch receiver when amount = .ok s') : s'.currentMonth = s.currentMonth := by
  obtain ⟨htimestamp, hdeployed⟩ := mintBatch_clock h
  unfold currentMonth
  rw [htimestamp, hdeployed]

theorem steps_of_mint (hall : ∀ a, a ≠ 0 → Receives a) {metrics token sender pledge amount when minted}
    (hreceives : s.auth sender = true → 0 < amount → Receives pledge)
    (h : s.mint metrics token sender pledge amount when = .ok (s', minted)) :
    Relation.ReflTransGen (Step Receives) s s' := by
  by_cases hauth : s.auth sender = true
  · rcases mint_of_auth hauth h with ⟨-, rfl⟩ | ⟨hpos, t, k, batch, hfirst, hlow, hhigh, -, hlast⟩
    · exact .refl
    have hto := hreceives hauth hpos
    rcases hfirst with rfl | ⟨headroom, hfirst⟩
    · exact .single (.mint hto hlow (by omega) hlast)
    · have hmonth := currentMonth_of_mintBatch hfirst
      have hfst : Step Receives s t := .mint hto (by omega) (by omega) hfirst
      have hsnd : Step Receives t s' := .mint hto (by omega) (by omega) hlast
      exact (Relation.ReflTransGen.single hfst).tail hsnd
  · simp only [State.mint] at h
    rw [if_neg hauth] at h
    obtain ⟨deposited, hdeposit, hfinish⟩ := of_bind h
    exact .single (step_of_finishMint hall (depositBody_holder hdeposit) hfinish)

theorem steps_of_exec (hall : ∀ a, a ≠ 0 → Receives a) {c} (hc : MintsTo Receives s c)
    (h : s.exec c = .ok s') : Relation.ReflTransGen (Step Receives) s s' := by
  cases c with
  | mint =>
    simp only [State.exec, bind_eq_ok, Prod.exists] at h
    obtain ⟨t, minted, hmint, hok⟩ := h
    cases hok
    exact steps_of_mint hall hc hmint
  | lzReceive srcEid message =>
    simp only [State.exec, State.lzReceive, bind_eq_ok, require_eq_ok, not_or] at h
    obtain ⟨_, -, _, -, _, ⟨hdest, -⟩, hmint⟩ := h
    exact .single (.mint (hall _ hdest) (by omega) (by omega) hmint)
  | transfer =>
    simp only [State.exec, State.transfer, bind_eq_ok, Prod.exists] at h
    obtain ⟨t, sent, hmove, _, -, hok⟩ := h
    cases hok
    exact .single (.move hmove)
  | transferFrom =>
    simp only [State.exec, State.transferFrom, bind_eq_ok, Prod.exists] at h
    obtain ⟨token, hspend, t, sent, hmove, hok⟩ := h
    cases hok
    rw [Erc20.spendAllowance_balances hspend] at hmove
    exact (Relation.ReflTransGen.single (.allow s token.allowances)).tail (.move hmove)
  | turn =>
    simp only [State.exec, State.turn, bind_eq_ok, Prod.exists] at h
    obtain ⟨t, _, _, ⟨_, -, _, _, hmove, _, -, hok⟩, hok'⟩ := h
    cases hok
    cases hok'
    exact .single (.move hmove)
  | bridgeToSolana =>
    simp only [State.exec, bind_eq_ok, Prod.exists] at h
    obtain ⟨t, message, hbridge, hok⟩ := h
    cases hok
    obtain ⟨burned, -, hmove, -, -⟩ := bridgeToSolana_eq_ok hbridge
    exact .single (.move hmove)
  | approve =>
    simp only [State.exec, State.approve, bind_eq_ok] at h
    obtain ⟨token, happrove, hok⟩ := h
    cases hok
    rw [Erc20.approve_balances happrove]
    exact .single (.allow s token.allowances)
  | setBtcVault sender b =>
    simp only [State.exec, State.setBtcVault, bind_eq_ok] at h
    obtain ⟨_, -, _, -, hok⟩ := h
    cases hok
    exact .single (.pin s b)
  | wait seconds =>
    simp only [State.exec, bind_eq_ok] at h
    obtain ⟨_, hadd, hok⟩ := h
    obtain ⟨hlt, rfl⟩ := add_eq_ok.mp hadd
    cases hok
    exact .single (.wait s seconds hlt)

theorem exec_invariant {Inv : State → Prop} (hall : ∀ a, a ≠ 0 → Receives a)
    (hkept : ∀ s, Inv s → s.Kept) (heffect : ∀ s s', Inv s → Effect Receives s s' → Inv s')
    {c : Call} (hs : Inv s) (hc : MintsTo Receives s c) (h : s.exec c = .ok s') : Inv s' := by
  have hsteps := steps_of_exec hall hc h
  clear hc h
  induction hsteps with
  | refl => exact hs
  | tail _ hlast ih => exact heffect _ _ ih (effect_of_step (hkept _ ih) hlast)

end Calls

end QuidProtocol.Basket
