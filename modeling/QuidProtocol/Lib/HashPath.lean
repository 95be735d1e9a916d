import Mathlib.Data.List.Basic

/-!
Digests along a path of a binary hash tree.
-/

namespace QuidProtocol.Lib

universe u

structure Level (α : Type u) where
  right : Bool
  sibling : α

variable {α : Type u}

def Level.pair (level : Level α) (child : α) : α × α :=
  if level.right then (level.sibling, child) else (child, level.sibling)

theorem Level.child_eq_of_pair_eq {level level' : Level α} {child child' : α} (hside : level.right = level'.right)
    (h : level.pair child = level'.pair child') : child = child' := by
  unfold pair at h
  rw [hside] at h
  split at h
  · exact congrArg Prod.snd h
  · exact congrArg Prod.fst h

variable (node : α × α → α)

def digest (bottom : α) : List (Level α) → α
  | [] => bottom
  | level :: path => node (level.pair (digest bottom path))

def digestInputs (bottom : α) : List (Level α) → List (α × α)
  | [] => []
  | level :: path => level.pair (digest node bottom path) :: digestInputs bottom path

def SameWay : List (Level α) → List (Level α) → Prop
  | level :: path, level' :: path' => level.right = level'.right ∧ SameWay path path'
  | _, _ => True

theorem digest_eq_cases {bottom bottom' : α} {path path' : List (Level α)} (hway : SameWay path path')
    (hnode : ∀ x ∈ digestInputs node bottom path, ∀ y ∈ digestInputs node bottom' path', node x = node y → x = y)
    (h : digest node bottom path = digest node bottom' path') :
    bottom = bottom' ∨ (∃ x ∈ digestInputs node bottom path, node x = bottom') ∨
      ∃ y ∈ digestInputs node bottom' path', node y = bottom := by
  induction path generalizing path' with
  | nil =>
    cases path' with
    | nil => exact .inl h
    | cons => exact .inr (.inr ⟨_, List.mem_cons_self, h.symm⟩)
  | cons level path ih =>
    cases path' with
    | nil => exact .inr (.inl ⟨_, List.mem_cons_self, h⟩)
    | cons =>
      have hpair := hnode _ List.mem_cons_self _ List.mem_cons_self h
      have hrest := ih hway.2
        (fun x hx y hy => hnode x (List.mem_cons_of_mem _ hx) y (List.mem_cons_of_mem _ hy))
        (Level.child_eq_of_pair_eq hway.1 hpair)
      rcases hrest with heq | ⟨x, hx, hxe⟩ | ⟨y, hy, hye⟩
      · exact .inl heq
      · exact .inr (.inl ⟨x, List.mem_cons_of_mem _ hx, hxe⟩)
      · exact .inr (.inr ⟨y, List.mem_cons_of_mem _ hy, hye⟩)

inductive Spans (leaves : α → Prop) (hashed : α × α → Prop) : α → Prop
  | leaf {a : _} : leaves a → Spans leaves hashed a
  | node {x : _} : Spans leaves hashed x.1 → Spans leaves hashed x.2 → hashed x → Spans leaves hashed (node x)

section Spans

variable {node} {leaves : α → Prop} {hashed : α × α → Prop} {a : α}

theorem Spans.of_node {x} (h : Spans node leaves hashed (node x)) (hleaf : ¬ leaves (node x))
    (hfree : ∀ y, hashed y → node x = node y → x = y) :
    Spans node leaves hashed x.1 ∧ Spans node leaves hashed x.2 := by
  generalize ha : node x = a at h hleaf
  cases h with
  | leaf hmem => exact absurd hmem hleaf
  | node hleft hright hy =>
    obtain rfl := hfree _ hy ha
    exact ⟨hleft, hright⟩

theorem Spans.leaf_of_ne (h : Spans node leaves hashed a) (hnode : ∀ y, hashed y → node y ≠ a) : leaves a := by
  cases h with
  | leaf hmem => exact hmem
  | node hleft hright hy => exact absurd rfl (hnode _ hy)

end Spans

end QuidProtocol.Lib
