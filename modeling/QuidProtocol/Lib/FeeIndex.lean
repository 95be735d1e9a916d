import Mathlib.Tactic
import Mathlib.Algebra.BigOperators.Ring.Finset
import Mathlib.Algebra.Order.BigOperators.Group.Finset

/-!
Fees shared out by an index: an account has earned its weight times the index beyond its bookmark.
-/

namespace QuidProtocol.Lib

open Function

structure FeeAccount where
  weight : ℕ
  bookmark : ℕ
  owed : ℕ

namespace FeeAccount

variable (unit index : ℕ) (a : FeeAccount)

def pending : ℕ := a.weight * index / unit - a.bookmark

def due : ℕ := a.owed + a.pending unit index

def liability : ℕ := unit * a.owed + (a.weight * index - unit * a.bookmark)

def dust : ℕ := a.weight * index % unit

theorem due_mul_le : unit * a.due unit index ≤ a.liability unit index := by
  have h := Nat.mul_div_le (a.weight * index) unit
  unfold due liability pending
  rw [Nat.mul_add, Nat.mul_sub]
  omega

theorem liability_mono {i j} (h : i ≤ j) : a.liability unit i ≤ a.liability unit j := by
  have hw := Nat.mul_le_mul_left a.weight h
  unfold liability
  omega

theorem pending_mono {i j} (h : i ≤ j) : a.pending unit i ≤ a.pending unit j :=
  Nat.sub_le_sub_right (Nat.div_le_div_right (Nat.mul_le_mul_left a.weight h)) _

theorem liability_add (inc : ℕ) : a.liability unit (index + inc) ≤ a.liability unit index + a.weight * inc := by
  unfold liability
  rw [Nat.mul_add]
  omega

theorem liability_le_of_pending_eq_zero (h : a.pending unit index = 0) :
    a.liability unit index ≤ unit * a.owed + a.dust unit index := by
  have hle : a.weight * index / unit ≤ a.bookmark := Nat.sub_eq_zero_iff_le.mp h
  have hmul := Nat.mul_le_mul_left unit hle
  have hdiv := Nat.div_add_mod (a.weight * index) unit
  unfold liability dust
  omega

theorem le_owed_of_mul_le {n} (hunit : 0 < unit) (hpending : a.pending unit index = 0)
    (h : unit * n ≤ a.liability unit index) : n ≤ a.owed := by
  have hle := h.trans (a.liability_le_of_pending_eq_zero unit index hpending)
  have hdust : a.dust unit index < unit := Nat.mod_lt _ hunit
  by_contra hlt
  have hmul := Nat.mul_le_mul_left unit (not_le.mp hlt)
  rw [Nat.succ_eq_add_one, Nat.mul_add] at hmul
  omega

end FeeAccount

structure FeeIndex (α : Type) where
  index : ℕ
  account : α → FeeAccount

namespace FeeIndex

variable {α : Type} {unit : ℕ} {l l' l'' : FeeIndex α} {paid paid' : α → ℕ}

def pending (unit : ℕ) (l : FeeIndex α) (a : α) : ℕ := (l.account a).pending unit l.index

def due (unit : ℕ) (l : FeeIndex α) (a : α) : ℕ := (l.account a).due unit l.index

def liability (unit : ℕ) (l : FeeIndex α) (a : α) : ℕ := (l.account a).liability unit l.index

def dust (unit : ℕ) (l : FeeIndex α) (a : α) : ℕ := (l.account a).dust unit l.index

structure Settled (unit : ℕ) (l l' : FeeIndex α) (s : Finset α) (paid : α → ℕ) : Prop where
  index : l'.index ≤ l.index
  kept : ∀ a, a ∉ s → l'.account a = l.account a ∧ paid a = 0
  pending : ∀ a ∈ s, l'.pending unit a = 0
  owed : ∀ a ∈ s, unit * ((l'.account a).owed + paid a) ≤ l.liability unit a

structure Credited (unit : ℕ) (l l' : FeeIndex α) (premium total : ℕ) : Prop where
  index : l'.index ≤ l.index + premium * unit / total
  account : l'.account = l.account

theorem Settled.refl (l : FeeIndex α) : Settled unit l l ∅ 0 where
  index := le_rfl
  kept _ _ := ⟨rfl, rfl⟩
  pending _ h := absurd h (Finset.notMem_empty _)
  owed _ h := absurd h (Finset.notMem_empty _)

theorem Settled.trans [DecidableEq α] {s t} (hunit : 0 < unit) (h : Settled unit l l' s paid)
    (h' : Settled unit l' l'' t paid') : Settled unit l l'' (s ∪ t) (paid + paid') where
  index := h'.index.trans h.index
  kept a ha := by
    obtain ⟨hs, ht⟩ := Finset.notMem_union.mp ha
    obtain ⟨hacc, hpaid⟩ := h.kept a hs
    obtain ⟨hacc', hpaid'⟩ := h'.kept a ht
    exact ⟨hacc'.trans hacc, by rw [Pi.add_apply, hpaid, hpaid']⟩
  pending a ha := by
    by_cases ht : a ∈ t
    · exact h'.pending a ht
    · have hs : a ∈ s := (Finset.mem_union.mp ha).resolve_right ht
      have hle := (l''.account a).pending_mono unit h'.index
      rw [(h'.kept a ht).1] at hle
      unfold FeeIndex.pending
      rw [(h'.kept a ht).1]
      exact Nat.le_zero.mp (hle.trans (h.pending a hs).le)
  owed a ha := by
    by_cases ht : a ∈ t
    · by_cases hs : a ∈ s
      · -- what the second settlement hands out was owed after the first
        have hle := (l'.account a).le_owed_of_mul_le unit l'.index hunit (h.pending a hs) (h'.owed a ht)
        refine le_trans (Nat.mul_le_mul_left unit ?_) (h.owed a hs)
        rw [Pi.add_apply]
        omega
      · obtain ⟨hacc, hpaid⟩ := h.kept a hs
        have howed := h'.owed a ht
        rw [Pi.add_apply, hpaid, Nat.zero_add]
        apply howed.trans
        unfold FeeIndex.liability
        rw [hacc]
        exact FeeAccount.liability_mono _ _ h.index
    · have hs : a ∈ s := (Finset.mem_union.mp ha).resolve_right ht
      obtain ⟨hacc, hpaid⟩ := h'.kept a ht
      rw [hacc, Pi.add_apply, hpaid, Nat.add_zero]
      exact h.owed a hs

variable [Fintype α]

theorem sum_due_mul_le (unit : ℕ) (l : FeeIndex α) : unit * ∑ a, l.due unit a ≤ ∑ a, l.liability unit a := by
  rw [Finset.mul_sum]
  exact Finset.sum_le_sum fun a _ => (l.account a).due_mul_le unit l.index

theorem Settled.liability_le [DecidableEq α] {s} (h : Settled unit l l' s paid) :
    ∑ a, l'.liability unit a + unit * ∑ a, paid a ≤ ∑ a, l.liability unit a + ∑ a ∈ s, l'.dust unit a := by
  have hone : ∀ a ∈ Finset.univ, l'.liability unit a + unit * paid a ≤
      l.liability unit a + if a ∈ s then l'.dust unit a else 0 := by
    intro a _
    by_cases ha : a ∈ s
    · have hlia := (l'.account a).liability_le_of_pending_eq_zero unit l'.index (h.pending a ha)
      have howed := h.owed a ha
      rw [Nat.mul_add] at howed
      rw [if_pos ha]
      unfold FeeIndex.liability FeeIndex.dust at *
      omega
    · obtain ⟨hacc, hpaid⟩ := h.kept a ha
      have hmono := (l.account a).liability_mono unit h.index
      rw [if_neg ha, hpaid]
      unfold FeeIndex.liability
      rw [hacc]
      omega
  have hsum := Finset.sum_le_sum hone
  rw [Finset.sum_add_distrib, Finset.sum_add_distrib, ← Finset.mul_sum, Finset.sum_ite_mem, Finset.univ_inter] at hsum
  exact hsum

theorem Credited.liability_le {premium total} (h : Credited unit l l' premium total)
    (htotal : ∑ a, (l.account a).weight ≤ total) :
    ∑ a, l'.liability unit a ≤ ∑ a, l.liability unit a + unit * premium := by
  have hone : ∀ a ∈ Finset.univ, l'.liability unit a ≤
      l.liability unit a + (l.account a).weight * (premium * unit / total) := by
    intro a _
    unfold FeeIndex.liability
    rw [h.account]
    exact (FeeAccount.liability_mono _ _ h.index).trans (FeeAccount.liability_add _ _ _ _)
  have hsum := Finset.sum_le_sum hone
  rw [Finset.sum_add_distrib, ← Finset.sum_mul] at hsum
  have hinc : (∑ a, (l.account a).weight) * (premium * unit / total) ≤ unit * premium := by
    calc (∑ a, (l.account a).weight) * (premium * unit / total)
        ≤ total * (premium * unit / total) := Nat.mul_le_mul_right _ htotal
      _ ≤ premium * unit := Nat.mul_div_le _ _
      _ = unit * premium := Nat.mul_comm _ _
  omega

theorem due_le_of_liability_le {credited spent dust}
    (h : ∑ a, l.liability unit a + unit * spent ≤ unit * credited + dust) :
    unit * (spent + ∑ a, l.due unit a) ≤ unit * credited + dust := by
  have hdue := sum_due_mul_le unit l
  rw [Nat.mul_add]
  omega

theorem le_of_mul_le_add_dust {n credited dust} (h : unit * n ≤ unit * credited + dust)
    (hdust : dust < unit) : n ≤ credited := by
  by_contra hlt
  have hmul := Nat.mul_le_mul_left unit (not_le.mp hlt)
  rw [Nat.succ_eq_add_one, Nat.mul_add] at hmul
  omega

end FeeIndex

section Checkpoints

/-! An index that can fall as well. -/

variable {α : Type} [Fintype α] (weight checkpoint : α → ℕ) (index : ℕ)

def pendingSum : ℕ := ∑ a, weight a * (index - checkpoint a)

theorem pendingSum_mono {i j} (h : i ≤ j) : pendingSum weight checkpoint i ≤ pendingSum weight checkpoint j := by
  apply Finset.sum_le_sum
  intro a _
  exact Nat.mul_le_mul_left _ (Nat.sub_le_sub_right h _)

theorem pendingSum_add (inc : ℕ) :
    pendingSum weight checkpoint (index + inc) ≤ pendingSum weight checkpoint index + (∑ a, weight a) * inc := by
  unfold pendingSum
  rw [Finset.sum_mul, ← Finset.sum_add_distrib]
  apply Finset.sum_le_sum
  intro a _
  rw [← Nat.mul_add]
  apply Nat.mul_le_mul_left
  omega

theorem pendingSum_sub {dec} (h : ∀ a, weight a = 0 ∨ checkpoint a + dec ≤ index) :
    pendingSum weight checkpoint (index - dec) + (∑ a, weight a) * dec = pendingSum weight checkpoint index := by
  unfold pendingSum
  rw [Finset.sum_mul, ← Finset.sum_add_distrib]
  apply Finset.sum_congr rfl
  intro a _
  rw [← Nat.mul_add]
  obtain hnone | hle := h a
  · rw [hnone, Nat.zero_mul, Nat.zero_mul]
  · congr 1
    omega

theorem pendingSum_update [DecidableEq α] (a : α) :
    pendingSum weight (update checkpoint a index) index + weight a * (index - checkpoint a) =
      pendingSum weight checkpoint index := by
  unfold pendingSum
  rw [← Finset.add_sum_erase _ _ (Finset.mem_univ a), ← Finset.add_sum_erase (a := a) _ _ (Finset.mem_univ a)]
  have hrest : ∑ b ∈ Finset.univ.erase a, weight b * (index - update checkpoint a index b) =
      ∑ b ∈ Finset.univ.erase a, weight b * (index - checkpoint b) := by
    apply Finset.sum_congr rfl
    intro b hb
    rw [update_of_ne (Finset.ne_of_mem_erase hb)]
  rw [hrest, update_self, Nat.sub_self, Nat.mul_zero]
  omega

end Checkpoints

end QuidProtocol.Lib
