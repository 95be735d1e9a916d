import QuidProtocol.Lib.Ledger

/-!
Registries of items, each with an owner, a key and an amount.
-/

namespace QuidProtocol.Lib

open Function

structure Item (Owner Key : Type) where
  owner : Owner
  key : Key
  amount : ℕ
  live : Bool

structure Registry (Id Owner Key : Type) where
  items : Id → Option (Item Owner Key)
  holder : Key → Option Id
  held : ∀ {i x}, items i = some x → holder x.key = some i
  single : ∀ {i j x y}, items i = some x → items j = some y → x.live = true → y.live = true → x.owner = y.owner → i = j

namespace Registry

variable {Id Owner Key : Type}

def empty : Registry Id Owner Key := ⟨fun _ => none, fun _ => none, nofun, nofun⟩

structure Extends (r r' : Registry Id Owner Key) : Prop where
  holder : ∀ {k i}, r.holder k = some i → r'.holder k = some i
  items : ∀ {i x}, r.items i = some x → ∃ x', r'.items i = some x' ∧ (x.live = false → x' = x)

theorem Extends.refl (r : Registry Id Owner Key) : r.Extends r := ⟨fun h => h, fun h => ⟨_, h, fun _ => rfl⟩⟩

theorem Extends.trans {r r' r'' : Registry Id Owner Key} (h : r.Extends r') (h' : r'.Extends r'') : r.Extends r'' := by
  constructor
  · intro k i hk
    exact h'.holder (h.holder hk)
  · intro i x hx
    obtain ⟨x', hx', hsame⟩ := h.items hx
    obtain ⟨x'', hx'', hsame'⟩ := h'.items hx'
    refine ⟨x'', hx'', fun hlive => ?_⟩
    obtain rfl := hsame hlive
    exact hsame' hlive

variable (r : Registry Id Owner Key) {i : Id} {x : Item Owner Key}

def Owns (a : Owner) : Prop := ∃ i x, r.items i = some x ∧ x.live = true ∧ x.owner = a

theorem key_ne {key} (hkey : r.holder key = none) (hx : r.items i = some x) : x.key ≠ key := by
  intro h
  have hheld := r.held hx
  rw [h, hkey] at hheld
  cases hheld

theorem holder_update [DecidableEq Key] {r : Registry Id Owner Key} {key k : Key} {i j : Id}
    (hkey : r.holder key = none) (hk : r.holder k = some j) : update r.holder key (some i) k = some j := by
  rw [update_of_ne, hk]
  rintro rfl
  rw [hkey] at hk
  cases hk

variable [DecidableEq Id]

theorem held_update [DecidableEq Key] (hkey : r.holder x.key = none) {j y}
    (hy : update r.items i (some x) j = some y) : update r.holder x.key (some i) y.key = some j := by
  by_cases hj : j = i
  · subst hj
    rw [update_self] at hy
    cases hy
    rw [update_self]
  · rw [update_of_ne hj] at hy
    rw [update_of_ne (r.key_ne hkey hy)]
    exact r.held hy

theorem single_update {x'} (hx : r.items i = some x) (howner : x'.owner = x.owner)
    (hlive : x'.live = true → x.live = true) {j k y z}
    (hy : update r.items i (some x') j = some y) (hz : update r.items i (some x') k = some z) (hylive : y.live = true)
    (hzlive : z.live = true) (hsame : y.owner = z.owner) : j = k := by
  have hback : ∀ {l : Id} {w : Item Owner Key}, update r.items i (some x') l = some w → w.live = true →
      ∃ v, r.items l = some v ∧ v.live = true ∧ v.owner = w.owner := by
    intro l w hw hwlive
    by_cases hl : l = i
    · rw [hl, update_self] at hw
      cases hw
      exact ⟨x, hl ▸ hx, hlive hwlive, howner.symm⟩
    · rw [update_of_ne hl] at hw
      exact ⟨w, hw, hwlive, rfl⟩
  obtain ⟨v, hv, hvlive, hvowner⟩ := hback hy hylive
  obtain ⟨u, hu, hulive, huowner⟩ := hback hz hzlive
  apply r.single hv hu hvlive hulive
  rw [hvowner, huowner, hsame]

theorem extends_of_update {r r' : Registry Id Owner Key} {x' : Item Owner Key}
    (hholder : ∀ {k j}, r.holder k = some j → r'.holder k = some j) (hitems : r'.items = update r.items i (some x'))
    (hsame : ∀ x, r.items i = some x → x.live = true) : r.Extends r' := by
  refine ⟨hholder, ?_⟩
  intro j y hy
  by_cases hj : j = i
  · subst hj
    refine ⟨x', by rw [hitems, update_self], fun hlive => ?_⟩
    rw [hsame y hy] at hlive
    cases hlive
  · exact ⟨y, by rw [hitems, update_of_ne hj, hy], fun _ => rfl⟩

def liveAmount : Option (Item Owner Key) → ℕ
  | some x => if x.live then x.amount else 0
  | none => 0

def total [Fintype Id] : ℕ := ∑ i, liveAmount (r.items i)

theorem sum_liveAmount_update [Fintype Id] {f : Id → Option (Item Owner Key)} {o : Option (Item Owner Key)}
    {a b : ℕ} (h : liveAmount o + a = liveAmount (f i) + b) :
    ∑ j, liveAmount (update f i o j) + a = ∑ j, liveAmount (f j) + b := by
  have hcomp : (fun j => liveAmount (update f i o j)) = update (fun j => liveAmount (f j)) i (liveAmount o) := by
    funext j
    by_cases hj : j = i
    · rw [hj, update_self, update_self]
    · rw [update_of_ne hj, update_of_ne hj]
  rw [hcomp]
  exact sum_update_add h

def retire (hx : r.items i = some x) : Registry Id Owner Key where
  items := update r.items i (some { x with live := false })
  holder := r.holder
  held := by
    intro j y hy
    by_cases hj : j = i
    · subst hj
      rw [update_self] at hy
      cases hy
      change r.holder x.key = some j
      exact r.held hx
    · rw [update_of_ne hj] at hy
      exact r.held hy
  single := by
    intro j k y z hy hz
    apply r.single_update hx _ _ hy hz
    · rfl
    · nofun

theorem extends_retire {r : Registry Id Owner Key} (hx : r.items i = some x) (hlive : x.live = true) :
    r.Extends (r.retire hx) := by
  apply extends_of_update
  · exact id
  · rfl
  · intro y hy
    rw [hx] at hy
    rwa [← Option.some.inj hy]

theorem total_retire [Fintype Id] {r : Registry Id Owner Key} (hx : r.items i = some x)
    (hlive : x.live = true) : (r.retire hx).total + x.amount = r.total := by
  apply sum_liveAmount_update (b := 0)
  simp [liveAmount, hx, hlive]

theorem owns_retire {r : Registry Id Owner Key} (hx : r.items i = some x) (hlive : x.live = true)
    (a : Owner) : (r.retire hx).Owns a ↔ r.Owns a ∧ a ≠ x.owner := by
  constructor
  · rintro ⟨j, y, hy, hylive, rfl⟩
    by_cases hj : j = i
    · rw [hj] at hy
      have hy := Option.some.inj ((update_self i _ r.items).symm.trans hy)
      rw [← hy] at hylive
      cases hylive
    · have hy : r.items j = some y := (update_of_ne hj _ r.items).symm.trans hy
      exact ⟨⟨j, y, hy, hylive, rfl⟩, fun ha => hj (r.single hy hx hylive hlive ha)⟩
  · rintro ⟨⟨j, y, hy, hylive, rfl⟩, ha⟩
    refine ⟨j, y, ?_, hylive, rfl⟩
    have hj : j ≠ i := by
      rintro rfl
      rw [hx] at hy
      exact ha (congrArg Item.owner (Option.some.inj hy.symm))
    exact (update_of_ne hj _ r.items).trans hy

variable [DecidableEq Key]

def enter (i : Id) (x : Item Owner Key) (hkey : r.holder x.key = none) (howner : ¬ r.Owns x.owner) :
    Registry Id Owner Key where
  items := update r.items i (some x)
  holder := update r.holder x.key (some i)
  held := by
    intro j y hy
    exact r.held_update hkey hy
  single := by
    intro j k y z hy hz hylive hzlive hsame
    by_cases hj : j = i <;> by_cases hk : k = i
    · rw [hj, hk]
    · rw [hj, update_self] at hy
      rw [update_of_ne hk] at hz
      cases hy
      exact absurd ⟨k, z, hz, hzlive, hsame.symm⟩ howner
    · rw [update_of_ne hj] at hy
      rw [hk, update_self] at hz
      cases hz
      exact absurd ⟨j, y, hy, hylive, hsame⟩ howner
    · rw [update_of_ne hj] at hy
      rw [update_of_ne hk] at hz
      exact r.single hy hz hylive hzlive hsame

def rekey (hx : r.items i = some x) (key : Key) (amount : ℕ) (hkey : r.holder key = none) : Registry Id Owner Key where
  items := update r.items i (some { x with key, amount })
  holder := update r.holder key (some i)
  held := by
    intro j y hy
    exact r.held_update (x := { x with key, amount }) hkey hy
  single := by
    intro j k y z hy hz
    apply r.single_update hx _ _ hy hz
    · rfl
    · exact id

section Steps

variable {r}

theorem extends_enter (hitem : r.items i = none) (hkey : r.holder x.key = none) (howner : ¬ r.Owns x.owner) :
    r.Extends (r.enter i x hkey howner) := by
  apply extends_of_update
  · exact holder_update hkey
  · rfl
  · intro y hy
    rw [hitem] at hy
    cases hy

theorem extends_rekey (hx : r.items i = some x) (hlive : x.live = true) {key : Key} {amount : ℕ}
    (hkey : r.holder key = none) : r.Extends (r.rekey hx key amount hkey) := by
  apply extends_of_update
  · exact holder_update hkey
  · rfl
  · intro y hy
    rw [hx] at hy
    rwa [← Option.some.inj hy]

theorem owns_enter (hitem : r.items i = none) (hkey : r.holder x.key = none) (howner : ¬ r.Owns x.owner)
    (hlive : x.live = true) (a : Owner) : (r.enter i x hkey howner).Owns a ↔ a = x.owner ∨ r.Owns a := by
  constructor
  · rintro ⟨j, y, hy, hylive, rfl⟩
    by_cases hj : j = i
    · rw [hj] at hy
      have hy := Option.some.inj ((update_self i _ r.items).symm.trans hy)
      rw [hy]
      exact Or.inl rfl
    · exact Or.inr ⟨j, y, (update_of_ne hj _ r.items).symm.trans hy, hylive, rfl⟩
  · rintro (rfl | ⟨j, y, hy, hylive, rfl⟩)
    · exact ⟨i, x, update_self i _ r.items, hlive, rfl⟩
    · refine ⟨j, y, ?_, hylive, rfl⟩
      have hj : j ≠ i := by
        rintro rfl
        rw [hitem] at hy
        cases hy
      exact (update_of_ne hj _ r.items).trans hy

theorem owns_rekey (hx : r.items i = some x) {key amount} (hkey : r.holder key = none)
    (a : Owner) : (r.rekey hx key amount hkey).Owns a ↔ r.Owns a := by
  constructor
  · rintro ⟨j, y, hy, hylive, rfl⟩
    by_cases hj : j = i
    · rw [hj] at hy
      obtain rfl := Option.some.inj ((update_self i _ r.items).symm.trans hy)
      exact ⟨i, x, hx, hylive, rfl⟩
    · exact ⟨j, y, (update_of_ne hj _ r.items).symm.trans hy, hylive, rfl⟩
  · rintro ⟨j, y, hy, hylive, rfl⟩
    by_cases hj : j = i
    · subst hj
      rw [hx] at hy
      cases hy
      exact ⟨j, _, update_self j _ r.items, hylive, rfl⟩
    · exact ⟨j, y, (update_of_ne hj _ r.items).trans hy, hylive, rfl⟩

variable [Fintype Id]

theorem total_enter (hitem : r.items i = none) (hkey : r.holder x.key = none)
    (howner : ¬ r.Owns x.owner) (hlive : x.live = true) : (r.enter i x hkey howner).total = r.total + x.amount := by
  apply sum_liveAmount_update (a := 0)
  simp [liveAmount, hitem, hlive]

theorem total_rekey (hx : r.items i = some x) (hlive : x.live = true) {key : Key} {amount : ℕ}
    (hkey : r.holder key = none) : (r.rekey hx key amount hkey).total + x.amount = r.total + amount := by
  apply sum_liveAmount_update
  simp [liveAmount, hx, hlive, add_comm]

end Steps

end Registry

end QuidProtocol.Lib
