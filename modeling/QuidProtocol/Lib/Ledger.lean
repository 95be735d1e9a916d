import Mathlib.Tactic
import Mathlib.Algebra.BigOperators.Pi
import Mathlib.Algebra.BigOperators.Finprod

/-!
Books of amounts, where the zero holder stands for the outside.
Balances that earn by the time they are held.
-/

namespace QuidProtocol.Lib

open Finset Function

variable {α β M : Type} [AddCommMonoid M]

def rowSum (s : Finset β) (f : α → β → ℕ) : α → ℕ := fun a => ∑ k ∈ s, f a k

theorem rowSum_add (s : Finset β) (f g : α → β → ℕ) : rowSum s (f + g) = rowSum s f + rowSum s g := by
  funext a
  exact sum_add_distrib

def colSum [Fintype α] (f : α → β → ℕ) : β → ℕ := ∑ a, f a

theorem colSum_apply [Fintype α] (f : α → β → ℕ) (k : β) : colSum f k = ∑ a, f a k := sum_apply k univ f

theorem colSum_add [Fintype α] (f g : α → β → ℕ) : colSum (f + g) = colSum f + colSum g := sum_add_distrib

variable [DecidableEq α]

theorem update_add_single {f : α → M} {a : α} {u v w : M} (h : u + v = f a + w) :
    update f a u + Pi.single a v = f + Pi.single a w := by
  funext b
  by_cases hb : b = a
  · subst hb
    simpa using h
  · simp [hb]

theorem update_add (f : α → M) (a : α) (v : M) : update f a (f a + v) = f + Pi.single a v := by
  have h : f a + v + 0 = f a + v := add_zero _
  simpa using update_add_single h

theorem sum_update_add [Fintype α] {f : α → M} {a : α} {u v w : M} (h : u + v = f a + w) :
    ∑ b, update f a u b + v = ∑ b, f b + w := by
  have hsum := congrArg (fun g => ∑ b, g b) (update_add_single h)
  simpa [sum_add_distrib] using hsum

theorem sum_comp_update [Fintype α] {γ : Type} (m : γ → M) {f : α → γ} {a : α} {x : γ} {v w : M}
    (h : m x + v = m (f a) + w) : ∑ b, m (update f a x b) + v = ∑ b, m (f b) + w := by
  have hsum := sum_update_add (f := m ∘ f) h
  rwa [← Function.comp_update] at hsum

section FiniteSupport

variable {f : α → M} {a : α} {u v w : M}

theorem hasFiniteSupport_update (hf : f.HasFiniteSupport) (a : α) (u : M) : (update f a u).HasFiniteSupport := by
  apply Set.Finite.subset (Set.Finite.insert a hf)
  intro b hb
  by_cases h : b = a
  · exact .inl h
  · right
    rwa [Function.mem_support, update_of_ne h] at hb

theorem finsum_single (a : α) (v : M) : ∑ᶠ b, (Pi.single a v : α → M) b = v := by
  rw [finsum_eq_single (Pi.single a v : α → M) a fun b hb => Pi.single_eq_of_ne hb _, Pi.single_eq_same]

theorem finsum_add_single (hf : f.HasFiniteSupport) (a : α) (v : M) :
    ∑ᶠ b, (f + Pi.single a v : α → M) b = ∑ᶠ b, f b + v := by
  have hsingle : (Pi.single a v : α → M).HasFiniteSupport := (Set.finite_singleton a).subset Pi.support_single_subset
  simp only [Pi.add_apply]
  rw [finsum_add_distrib hf hsingle, finsum_single]

theorem finsum_update_add (hf : f.HasFiniteSupport) (h : u + v = f a + w) :
    ∑ᶠ b, update f a u b + v = ∑ᶠ b, f b + w := by
  rw [← finsum_add_single (hasFiniteSupport_update hf a u), update_add_single h, finsum_add_single hf]

end FiniteSupport

theorem rowSum_single (s : Finset β) (a : α) (d : β → ℕ) : rowSum s (Pi.single a d) = Pi.single a (∑ k ∈ s, d k) := by
  funext b
  by_cases h : b = a
  · subst h
    simp [rowSum]
  · simp [rowSum, h]

theorem colSum_single [Fintype α] (a : α) (d : β → ℕ) : colSum (Pi.single a d) = d := by
  unfold colSum
  simp

section Outside

variable [Zero α]

def entry (a : α) (v : M) : α → M := if a = 0 then 0 else Pi.single a v

@[simp] theorem entry_outside (v : M) : entry (0 : α) v = 0 := if_pos rfl

theorem entry_holder {a : α} (h : a ≠ 0) (v : M) : entry a v = Pi.single a v := if_neg h

@[simp] theorem entry_zero (a : α) : entry a (0 : M) = 0 := by
  unfold entry
  split_ifs <;> simp

theorem entry_add (a : α) (v w : M) : entry a (v + w) = entry a v + entry a w := by
  unfold entry
  split_ifs
  · simp
  · rw [Pi.single_add]

theorem entry_apply (a b : α) (v : M) : entry a v b = if b = a ∧ a ≠ 0 then v else 0 := by
  unfold entry
  by_cases h : a = 0
  · simp [h]
  · simp [h, Pi.single_apply]

theorem entry_at_outside (a : α) (v : M) : entry a v 0 = 0 := by
  rw [entry_apply, if_neg]
  rintro ⟨h, hne⟩
  exact hne h.symm

theorem entry_eq_single {b : α} (hb : b ≠ 0) (a : α) (v : M) : entry a v b = (Pi.single a v : α → M) b := by
  by_cases h : a = 0
  · rw [h, entry_outside, Pi.zero_apply, Pi.single_eq_of_ne hb]
  · rw [entry_holder h]

theorem sum_entry [Fintype α] (a : α) (v : M) : ∑ b, entry a v b = if a = 0 then 0 else v := by
  unfold entry
  split_ifs <;> simp

theorem rowSum_entry (s : Finset β) (a : α) (d : β → ℕ) : rowSum s (entry a d) = entry a (∑ k ∈ s, d k) := by
  unfold entry
  split_ifs
  · funext b
    simp [rowSum]
  · exact rowSum_single s a d

theorem colSum_entry [Fintype α] (a : α) (d : β → ℕ) : colSum (entry a d) = if a = 0 then 0 else d := by
  unfold colSum
  rw [sum_entry]

end Outside

structure Tenure where
  balance : ℕ
  seconds : ℕ
  since : ℕ

namespace Tenure

def upTo (a : Tenure) (now : ℕ) : ℕ := a.seconds + a.balance * (now - a.since)

theorem upTo_since (balance seconds now : ℕ) : upTo ⟨balance, seconds, now⟩ now = seconds := by simp [upTo]

theorem upTo_later {a : Tenure} {now later : ℕ} (hsince : a.since ≤ now) (hlater : now ≤ later) :
    a.upTo later = a.upTo now + a.balance * (later - now) := by
  have hsplit : later - a.since = (now - a.since) + (later - now) := by omega
  unfold upTo
  rw [hsplit, Nat.mul_add, Nat.add_assoc]

theorem upTo_le {a b : Tenure} (hbalance : a.balance ≤ b.balance) (hseconds : a.seconds ≤ b.seconds)
    (hsince : a.since = b.since) (now : ℕ) : a.upTo now ≤ b.upTo now := by
  unfold upTo
  rw [hsince]
  exact Nat.add_le_add hseconds (Nat.mul_le_mul_right _ hbalance)

def settled (a : Tenure) (now : ℕ) : Tenure := ⟨a.balance, a.upTo now, now⟩

end Tenure

variable {ι : Type} [Fintype ι]

structure Backed (accounts : ι → Tenure) (pool : Tenure) : Prop where
  since : ∀ i, (accounts i).since ≤ pool.since
  balance : ∑ i, (accounts i).balance ≤ pool.balance
  seconds : ∑ i, (accounts i).upTo pool.since ≤ pool.seconds

namespace Backed

variable {accounts : ι → Tenure} {pool : Tenure} {now : ℕ}

theorem upTo_le (h : Backed accounts pool) (hnow : pool.since ≤ now) : ∑ i, (accounts i).upTo now ≤ pool.upTo now := by
  calc ∑ i, (accounts i).upTo now
      = ∑ i, ((accounts i).upTo pool.since + (accounts i).balance * (now - pool.since)) :=
        sum_congr rfl fun i _ => Tenure.upTo_later (h.since i) hnow
    _ = ∑ i, (accounts i).upTo pool.since + (∑ i, (accounts i).balance) * (now - pool.since) := by
        rw [sum_add_distrib, sum_mul]
    _ ≤ pool.seconds + pool.balance * (now - pool.since) := Nat.add_le_add h.seconds (Nat.mul_le_mul_right _ h.balance)

theorem settled (h : Backed accounts pool) (hnow : pool.since ≤ now) : Backed accounts (pool.settled now) :=
  ⟨fun i => le_trans (h.since i) hnow, h.balance, h.upTo_le hnow⟩

theorem replace [DecidableEq ι] (h : Backed accounts pool) (i : ι) (x pool' : Tenure) (hnow : pool.since ≤ pool'.since)
    (hsince : x.since ≤ pool'.since) (hbalance : x.balance + pool.balance ≤ pool'.balance + (accounts i).balance)
    (hseconds : x.upTo pool'.since + pool.upTo pool'.since ≤ pool'.seconds + (accounts i).upTo pool'.since) :
    Backed (Function.update accounts i x) pool' := by
  have hbalances := sum_comp_update Tenure.balance (f := accounts) (a := i) (x := x) (Nat.add_comm _ _)
  have hsums := sum_comp_update (Tenure.upTo · pool'.since) (f := accounts) (a := i) (x := x) (Nat.add_comm _ _)
  have htotal := h.balance
  have hupTo := h.upTo_le hnow
  refine ⟨fun j => ?_, by omega, by omega⟩
  by_cases hj : j = i
  · rw [hj, Function.update_self]
    exact hsince
  · rw [Function.update_of_ne hj]
    exact le_trans (h.since j) hnow

end Backed

end QuidProtocol.Lib
