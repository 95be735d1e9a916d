import Mathlib.Tactic
import Mathlib.Logic.Function.Iterate

/-!
A finite-depth tree given by parent pointers, and the branch from its root to a tip.
-/

namespace QuidProtocol.Lib

inductive Ancestor {α : Type*} (parent : α → α) (root a : α) : α → Prop
  | refl : Ancestor parent root a a
  | step {b : _} (hne : b ≠ root) (h : Ancestor parent root a (parent b)) : Ancestor parent root a b

def ancestorAt {α : Type*} (parent : α → α) (height : α → ℕ) (tip : α) (k : ℕ) : α := parent^[height tip - k] tip

def branch {α : Type*} [Zero α] (parent : α → α) (height : α → ℕ) (root tip : α) (k : ℕ) : α :=
  if height root ≤ k ∧ k ≤ height tip then ancestorAt parent height tip k else 0

structure RootedTree (α : Type*) where
  nodes : Set α
  root : α
  parent : α → α
  height : α → ℕ
  root_mem : root ∈ nodes
  parent_mem : ∀ b ∈ nodes, b ≠ root → parent b ∈ nodes
  height_eq : ∀ b ∈ nodes, b ≠ root → height b = height (parent b) + 1

namespace RootedTree

variable {α : Type*} (t : RootedTree α)

abbrev IsAncestor (a b : α) : Prop := Ancestor t.parent t.root a b

abbrev ancestorAt (tip : α) (k : ℕ) : α := Lib.ancestorAt t.parent t.height tip k

abbrev branch [Zero α] (tip : α) (k : ℕ) : α := Lib.branch t.parent t.height t.root tip k

variable {t} {a b tip : α} {k : ℕ}

theorem ancestorAt_def : t.ancestorAt tip k = t.parent^[t.height tip - k] tip := rfl

theorem branch_def [Zero α] : t.branch tip k =
    if t.height t.root ≤ k ∧ k ≤ t.height tip then t.ancestorAt tip k else 0 := rfl

theorem height_root_le (hb : b ∈ t.nodes) : t.height t.root ≤ t.height b := by
  induction hn : t.height b generalizing b with
  | zero =>
    by_cases he : b = t.root
    · rw [← he, hn]
    · have hheight := t.height_eq b hb he
      omega
  | succ n ih =>
    by_cases he : b = t.root
    · rw [← he, hn]
    · have hheight := t.height_eq b hb he
      have hparent := ih (t.parent_mem b hb he) (by omega)
      omega

theorem height_root_lt (hb : b ∈ t.nodes) (hne : b ≠ t.root) : t.height t.root < t.height b := by
  have hheight := t.height_eq b hb hne
  have hparent := height_root_le (t.parent_mem b hb hne)
  omega

theorem ne_root_of_lt (h : t.height t.root < t.height b) : b ≠ t.root := by
  rintro rfl
  exact lt_irrefl _ h

theorem ancestorAt_self : t.ancestorAt tip (t.height tip) = tip := by simp [ancestorAt_def]

theorem ancestorAt_parent (htip : tip ∈ t.nodes) (hne : tip ≠ t.root)
    (hk : k ≤ t.height (t.parent tip)) : t.ancestorAt tip k = t.ancestorAt (t.parent tip) k := by
  have hheight := t.height_eq tip htip hne
  have hsub : t.height tip - k = t.height (t.parent tip) - k + 1 := by omega
  rw [ancestorAt_def, hsub, Function.iterate_succ_apply, ancestorAt_def]

theorem branch_induction {motive : α → Prop} (k : ℕ) (hk : t.height t.root ≤ k)
    (here : ∀ b ∈ t.nodes, t.height b = k → motive b)
    (below : ∀ b ∈ t.nodes, b ≠ t.root → k ≤ t.height (t.parent b) → motive (t.parent b) → motive b)
    {tip : α} (htip : tip ∈ t.nodes) (hle : k ≤ t.height tip) : motive tip := by
  induction hn : t.height tip - k generalizing tip with
  | zero => exact here tip htip (by omega)
  | succ n ih =>
    have hne : tip ≠ t.root := ne_root_of_lt (by omega)
    have hheight := t.height_eq tip htip hne
    exact below tip htip hne (by omega) (ih (t.parent_mem tip htip hne) (by omega) (by omega))

theorem ancestorAt_spec (htip : tip ∈ t.nodes) (hk : t.height t.root ≤ k) (hle : k ≤ t.height tip) :
    t.ancestorAt tip k ∈ t.nodes ∧ t.height (t.ancestorAt tip k) = k ∧ t.IsAncestor (t.ancestorAt tip k) tip := by
  refine branch_induction (motive := fun b => t.ancestorAt b k ∈ t.nodes ∧
    t.height (t.ancestorAt b k) = k ∧ t.IsAncestor (t.ancestorAt b k) b) k hk ?_ ?_ htip hle
  · rintro b hb rfl
    rw [ancestorAt_self]
    exact ⟨hb, rfl, .refl⟩
  · rintro b hb hne hle ⟨hmem, hheight, hanc⟩
    rw [ancestorAt_parent hb hne hle]
    exact ⟨hmem, hheight, .step hne hanc⟩

theorem ancestorAt_root (htip : tip ∈ t.nodes) : t.ancestorAt tip (t.height t.root) = t.root := by
  obtain ⟨hmem, hheight, -⟩ := ancestorAt_spec htip le_rfl (height_root_le htip)
  by_contra hne
  exact absurd (height_root_lt hmem hne) (by omega)

theorem ancestorAt_ancestorAt {m} (htip : tip ∈ t.nodes) (hk : t.height t.root ≤ k) (hkm : k ≤ m)
    (hm : m ≤ t.height tip) : t.ancestorAt (t.ancestorAt tip m) k = t.ancestorAt tip k := by
  obtain ⟨-, hheight, -⟩ := ancestorAt_spec htip (hk.trans hkm) hm
  have hsum : t.height tip - k = m - k + (t.height tip - m) := by omega
  rw [ancestorAt_def, hheight, ancestorAt_def, ancestorAt_def, hsum, Function.iterate_add_apply]

theorem IsAncestor.height_le (h : t.IsAncestor a b) (hb : b ∈ t.nodes) : t.height a ≤ t.height b := by
  induction h with
  | refl => exact le_rfl
  | step hne _ ih =>
    have hheight := t.height_eq _ hb hne
    have hparent := ih (t.parent_mem _ hb hne)
    omega

theorem IsAncestor.ancestorAt_eq (h : t.IsAncestor a b) (hb : b ∈ t.nodes) : t.ancestorAt b (t.height a) = a := by
  induction h with
  | refl => exact ancestorAt_self
  | step hne h ih =>
    have hmem := t.parent_mem _ hb hne
    rw [ancestorAt_parent hb hne (IsAncestor.height_le h hmem)]
    exact ih hmem

theorem isAncestor_iff (htip : tip ∈ t.nodes) (ha : a ∈ t.nodes) :
    t.IsAncestor a tip ↔ t.height a ≤ t.height tip ∧ t.ancestorAt tip (t.height a) = a := by
  constructor
  · intro h
    exact ⟨h.height_le htip, h.ancestorAt_eq htip⟩
  · rintro ⟨hle, he⟩
    have hspec := (ancestorAt_spec htip (height_root_le ha) hle).2.2
    rwa [he] at hspec

theorem branch_eq_iff [Zero α] (hzero : (0 : α) ∉ t.nodes) (htip : tip ∈ t.nodes) (ha : a ∈ t.nodes) :
    t.branch tip (t.height a) = a ↔ t.IsAncestor a tip := by
  rw [isAncestor_iff htip ha, branch_def]
  by_cases hle : t.height a ≤ t.height tip
  · rw [if_pos ⟨height_root_le ha, hle⟩]
    simp [hle]
  · rw [if_neg (fun h => hle h.2)]
    refine iff_of_false ?_ (fun h => hle h.1)
    rintro rfl
    exact hzero ha

structure Extends (t t' : RootedTree α) : Prop where
  subset : t.nodes ⊆ t'.nodes
  root_eq : t'.root = t.root
  parent_eq : ∀ b ∈ t.nodes, t'.parent b = t.parent b
  height_eq : ∀ b ∈ t.nodes, t'.height b = t.height b

variable {t' : RootedTree α}

theorem Extends.ancestorAt_eq (h : t.Extends t') (htip : tip ∈ t.nodes) (hk : t.height t.root ≤ k)
    (hle : k ≤ t.height tip) : t'.ancestorAt tip k = t.ancestorAt tip k := by
  refine branch_induction (motive := fun b => t'.ancestorAt b k = t.ancestorAt b k) k hk ?_ ?_ htip hle
  · rintro b hb rfl
    rw [ancestorAt_self, ← h.height_eq b hb, ancestorAt_self]
  · intro b hb hne hle ih
    have hmem := t.parent_mem b hb hne
    rw [ancestorAt_parent hb hne hle, ← ih, ← h.parent_eq b hb]
    refine ancestorAt_parent (h.subset hb) (by rwa [h.root_eq]) ?_
    rwa [h.parent_eq b hb, h.height_eq _ hmem]

theorem Extends.branch_eq [Zero α] (h : t.Extends t') (htip : tip ∈ t.nodes) : t'.branch tip = t.branch tip := by
  funext k
  rw [branch_def, branch_def, h.root_eq, h.height_eq _ t.root_mem, h.height_eq _ htip]
  split_ifs with hk
  · exact h.ancestorAt_eq htip hk.1 hk.2
  · rfl

theorem branch_child [Zero α] (htip : tip ∈ t.nodes) (hne : tip ≠ t.root) :
    t.branch tip = Function.update (t.branch (t.parent tip)) (t.height tip) tip := by
  funext k
  have hheight := t.height_eq tip htip hne
  by_cases hk : k = t.height tip
  · subst hk
    rw [Function.update_self, branch_def, if_pos ⟨height_root_le htip, le_rfl⟩, ancestorAt_self]
  · rw [Function.update_of_ne hk, branch_def, branch_def]
    by_cases hin : t.height t.root ≤ k ∧ k ≤ t.height (t.parent tip)
    · rw [if_pos hin, if_pos ⟨hin.1, by omega⟩, ancestorAt_parent htip hne hin.2]
    · rw [if_neg hin, if_neg (by omega)]

end RootedTree

end QuidProtocol.Lib
