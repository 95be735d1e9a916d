import Mathlib.Tactic

/-!
Computations that return or revert, with checked operations on words of `w` bits.
-/

namespace QuidProtocol.Lib

variable {ε α β : Type}

theorem bind_eq_ok {x : Except ε α} {f : α → Except ε β} {b : β} :
    (x >>= f) = .ok b ↔ ∃ a, x = .ok a ∧ f a = .ok b := by
  rcases x with e | a <;> simp [Bind.bind, Except.bind]

theorem of_bind {x : Except ε α} {f : α → Except ε β} {b : β} (h : (x >>= f) = .ok b) :
    ∃ a, x = .ok a ∧ f a = .ok b := bind_eq_ok.mp h

section Chain

variable {γ δ ζ : Type} {x : Except ε α} {f : α → Except ε β} {g : α → β → Except ε γ} {k : α → β → γ → Except ε δ}
  {l : α → β → γ → δ → Except ε ζ}

theorem of_bind₂ {c : γ} (h : (x >>= fun a => f a >>= g a) = .ok c) :
    ∃ a, x = .ok a ∧ ∃ b, f a = .ok b ∧ g a b = .ok c := by
  obtain ⟨a, ha, h⟩ := of_bind h
  exact ⟨a, ha, of_bind h⟩

theorem of_bind₃ {d : δ} (h : (x >>= fun a => f a >>= fun b => g a b >>= k a b) = .ok d) :
    ∃ a, x = .ok a ∧ ∃ b, f a = .ok b ∧ ∃ c, g a b = .ok c ∧ k a b c = .ok d := by
  obtain ⟨a, ha, h⟩ := of_bind h
  exact ⟨a, ha, of_bind₂ h⟩

theorem of_bind₄ {e : ζ} (h : (x >>= fun a => f a >>= fun b => g a b >>= fun c => k a b c >>= l a b c) = .ok e) :
    ∃ a, x = .ok a ∧ ∃ b, f a = .ok b ∧ ∃ c, g a b = .ok c ∧ ∃ d, k a b c = .ok d ∧ l a b c d = .ok e := by
  obtain ⟨a, ha, h⟩ := of_bind h
  exact ⟨a, ha, of_bind₃ h⟩

end Chain

theorem bind_eq_error {x : Except ε α} {f : α → Except ε β} {e : ε} :
    (x >>= f) = .error e ↔ x = .error e ∨ ∃ a, x = .ok a ∧ f a = .error e := by
  rcases x with e' | a <;> simp [Bind.bind, Except.bind]

@[simp] theorem ok_bind (a : α) (f : α → Except ε β) : (Except.ok a >>= f) = f a := rfl

@[simp] theorem error_bind (e : ε) (f : α → Except ε β) : (Except.error e >>= f) = .error e := rfl

theorem ok_inj {a b : α} (h : (.ok a : Except ε α) = .ok b) : b = a := (Except.ok.inj h).symm

theorem ok_unique {x : Except ε α} {a b} (h : x = .ok a) (h' : x = .ok b) : a = b := Except.ok.inj (h.symm.trans h')

theorem ok_pair_inj {a a' b b'} (h : (.ok (a, b) : Except ε (α × β)) = .ok (a', b')) : a = a' ∧ b = b' :=
  Prod.mk.inj (Except.ok.inj h)

theorem ok_pair_eq {a a' b b'} (h : (.ok (a, b) : Except ε (α × β)) = .ok (a', b')) : a' = a ∧ b' = b :=
  ok_pair_inj h.symm

theorem mapError_eq_ok {ε' : Type} {f : ε → ε'} {x : Except ε α} {a : α} : x.mapError f = .ok a ↔ x = .ok a := by
  cases x <;> simp [Except.mapError]

theorem map_eq_ok {f : α → β} {x : Except ε α} {b : β} : x.map f = .ok b ↔ ∃ a, x = .ok a ∧ f a = b := by
  cases x <;> simp [Except.map]

theorem bind_fst_eq_ok {x : Except ε (α × β)} {a : α} : (x >>= fun r => .ok r.1) = .ok a ↔ ∃ b, x = .ok (a, b) := by
  rw [bind_eq_ok]
  constructor
  · rintro ⟨⟨a', b⟩, hx, h⟩
    cases h
    exact ⟨b, hx⟩
  · rintro ⟨b, hx⟩
    exact ⟨(a, b), hx, rfl⟩

theorem toOption_eq_some {x : Except ε α} {a : α} : x.toOption = some a ↔ x = .ok a := by
  cases x <;> simp [Except.toOption]

def require (e : ε) (p : Prop) [Decidable p] : Except ε Unit := if p then .ok () else .error e

theorem require_eq_ok {e : ε} {p : Prop} [Decidable p] {u : Unit} : require e p = .ok u ↔ p := by
  unfold require
  split_ifs with h <;> simp [h]

theorem of_require {e : ε} {p : Prop} [Decidable p] {f : Unit → Except ε α} {a : α}
    (h : (require e p >>= f) = .ok a) : p ∧ f () = .ok a := by
  obtain ⟨u, hp, h⟩ := of_bind h
  exact ⟨require_eq_ok.mp hp, h⟩

theorem of_require₂ {e e' : ε} {p q : Prop} [Decidable p] [Decidable q] {f : Unit → Unit → Except ε α} {a : α}
    (h : (require e p >>= fun u => require e' q >>= f u) = .ok a) : p ∧ q ∧ f () () = .ok a := by
  obtain ⟨hp, h⟩ := of_require h
  exact ⟨hp, of_require h⟩

theorem of_require_bind {e : ε} {p : Prop} [Decidable p] {x : Unit → Except ε α} {f : Unit → α → Except ε β} {b : β}
    (h : (require e p >>= fun u => x u >>= f u) = .ok b) : p ∧ ∃ a, x () = .ok a ∧ f () a = .ok b := by
  obtain ⟨hp, h⟩ := of_require h
  exact ⟨hp, of_bind h⟩

theorem require_eq_error (e e' : ε) (p : Prop) [Decidable p] : require e p = .error e' ↔ ¬ p ∧ e = e' := by
  unfold require
  split_ifs with h <;> simp [h]

theorem require_of (e : ε) {p : Prop} [Decidable p] (h : p) : require e p = .ok () := by simp [require, h]

def found (e : ε) : Option α → Except ε α
  | some a => .ok a
  | none => .error e

theorem found_eq_ok {e : ε} {x : Option α} {a : α} : found e x = .ok a ↔ x = some a := by cases x <;> simp [found]

def checkedAdd (e : ε) (w a b : ℕ) : Except ε ℕ := if a + b < 2 ^ w then .ok (a + b) else .error e

variable {w a b c : ℕ}

theorem checkedAdd_eq_ok {e : ε} : checkedAdd e w a b = .ok c ↔ a + b < 2 ^ w ∧ a + b = c := by
  unfold checkedAdd
  split_ifs with h <;> simp [h]

theorem of_checkedAdd {e : ε} {f : ℕ → Except ε α} {c : α}
    (h : (checkedAdd e w a b >>= f) = .ok c) : a + b < 2 ^ w ∧ f (a + b) = .ok c := by
  obtain ⟨n, hn, h⟩ := of_bind h
  obtain ⟨hfits, rfl⟩ := checkedAdd_eq_ok.mp hn
  exact ⟨hfits, h⟩

theorem checkedAdd_eq_error (e e' : ε) (w a b : ℕ) : checkedAdd e w a b = .error e' ↔ 2 ^ w ≤ a + b ∧ e = e' := by
  unfold checkedAdd
  split_ifs with h
  · simp [h]
  · simp [not_lt.mp h]

def checkedMul (e : ε) (w a b : ℕ) : Except ε ℕ := if a * b < 2 ^ w then .ok (a * b) else .error e

theorem checkedMul_eq_ok {e : ε} : checkedMul e w a b = .ok c ↔ a * b < 2 ^ w ∧ a * b = c := by
  unfold checkedMul
  split_ifs with h <;> simp [h]

theorem of_checkedMul {e : ε} {f : ℕ → Except ε α} {c : α}
    (h : (checkedMul e w a b >>= f) = .ok c) : a * b < 2 ^ w ∧ f (a * b) = .ok c := by
  obtain ⟨n, hn, h⟩ := of_bind h
  obtain ⟨hfits, rfl⟩ := checkedMul_eq_ok.mp hn
  exact ⟨hfits, h⟩

def checkedSub (e : ε) (a b : ℕ) : Except ε ℕ := if b ≤ a then .ok (a - b) else .error e

theorem checkedSub_eq_ok {e : ε} : checkedSub e a b = .ok c ↔ b ≤ a ∧ a - b = c := by
  unfold checkedSub
  split_ifs with h <;> simp [h]

theorem of_checkedSub {e : ε} {f : ℕ → Except ε α} {c : α}
    (h : (checkedSub e a b >>= f) = .ok c) : b ≤ a ∧ f (a - b) = .ok c := by
  obtain ⟨n, hn, h⟩ := of_bind h
  obtain ⟨hfits, rfl⟩ := checkedSub_eq_ok.mp hn
  exact ⟨hfits, h⟩

theorem checkedSub_eq_error (e e' : ε) (a b : ℕ) : checkedSub e a b = .error e' ↔ a < b ∧ e = e' := by
  unfold checkedSub
  split_ifs with h
  · simp [h]
  · simp [not_le.mp h]

def Avoids (e : ε) (x : Except ε α) : Prop := x ≠ .error e

section Avoids

variable {e e' : ε}

theorem avoids_ok (e : ε) (a : α) : Avoids e (.ok a) := fun h => nomatch h

theorem avoids_error (h : e' ≠ e) : Avoids e (.error e' : Except ε α) := fun he => h (Except.error.inj he)

theorem Avoids.bind {x : Except ε α} {f : α → Except ε β} (hx : Avoids e x)
    (hf : ∀ a, x = .ok a → Avoids e (f a)) : Avoids e (x >>= f) := by
  intro h
  obtain h | ⟨a, ha, h⟩ := bind_eq_error.mp h
  · exact hx h
  · exact hf a ha h

theorem avoids_ite {p : Prop} [Decidable p] {x y : Except ε α} (hx : p → Avoids e x) (hy : ¬ p → Avoids e y) :
    Avoids e (if p then x else y) := by
  split_ifs with h
  · exact hx h
  · exact hy h

theorem avoids_found {x : Option α} (h : e' ≠ e) : Avoids e (found e' x) := by
  cases x with
  | some a => exact avoids_ok e a
  | none => exact avoids_error h

theorem avoids_require {p : Prop} [Decidable p] (h : e' ≠ e) : Avoids e (require e' p) := by
  intro hr
  exact h ((require_eq_error _ _ _).mp hr).2

theorem avoids_require_bind {p : Prop} [Decidable p] {f : Unit → Except ε α} (h : e' ≠ e) (hf : Avoids e (f ())) :
    Avoids e (require e' p >>= f) :=
  (avoids_require h).bind fun _ _ => hf

variable {w a b : ℕ}

theorem avoids_checkedAdd (h : e' ≠ e) : Avoids e (checkedAdd e' w a b) := by
  intro hr
  exact h ((checkedAdd_eq_error _ _ _ _ _).mp hr).2

theorem avoids_checkedMul (h : e' ≠ e) : Avoids e (checkedMul e' w a b) := by
  unfold checkedMul
  split_ifs
  · exact avoids_ok e _
  · exact avoids_error h

theorem avoids_checkedSub (h : b ≤ a) : Avoids e (checkedSub e' a b) := by
  intro hr
  exact absurd ((checkedSub_eq_error _ _ _ _).mp hr).1 (not_lt.mpr h)

theorem avoids_mapError {ε' : Type} {f : ε' → ε} {x : Except ε' α} (h : ∀ e', f e' ≠ e) : Avoids e (x.mapError f) := by
  cases x with
  | ok a => exact avoids_ok e a
  | error e' => exact avoids_error (h e')

theorem Avoids.map {x} (f : α → β) (h : Avoids e x) : Avoids e (x.map f) := by
  cases x with
  | ok => exact avoids_ok e _
  | error => exact avoids_error fun he => h (congrArg Except.error he)

end Avoids

def Yields (x : Except ε α) (P : α → Prop) : Prop := ∃ a, x = .ok a ∧ P a

section Yields

variable {x : Except ε α} {f : α → Except ε β} {P Q : α → Prop} {R : β → Prop}

theorem yields_ok {a} (h : P a) : Yields (.ok a : Except ε α) P := ⟨a, rfl, h⟩

theorem Yields.bind (hx : Yields x P) (hf : ∀ a, P a → Yields (f a) R) : Yields (x >>= f) R := by
  obtain ⟨a, rfl, ha⟩ := hx
  exact hf a ha

theorem Yields.avoids (h : Yields x P) (e : ε) : Avoids e x := by
  obtain ⟨a, rfl, -⟩ := h
  exact avoids_ok e a

end Yields

def okAnd (x : Except ε α) (p : α → Bool) : Bool :=
  match x with
  | .ok a => p a
  | .error _ => false

theorem okAnd_iff {x : Except ε α} {p : α → Bool} : okAnd x p = true ↔ ∃ a, x = .ok a ∧ p a = true := by
  cases x with
  | ok a | error e => simp [okAnd]

instance decidableExistsOk (x : Except ε α) (q : α → Prop) [DecidablePred q] : Decidable (∃ a, x = .ok a ∧ q a) :=
  match x with
  | .ok a => decidable_of_iff (q a) (by simp)
  | .error _ => isFalse (by simp)

instance decidableIsOk (x : Except ε α) : Decidable (∃ a, x = .ok a) :=
  match x with
  | .ok a => isTrue ⟨a, rfl⟩
  | .error _ => isFalse (by simp)

instance decidableExistsOkThen {γ : Type} (x : Except ε α) (r : α → γ → Prop) [∀ a, Decidable (∃ c, r a c)] :
    Decidable (∃ a c, x = .ok a ∧ r a c) :=
  decidable_of_iff (∃ a, x = .ok a ∧ ∃ c, r a c) (by simp only [exists_and_left])

instance decidableExistsOkPair {γ : Type} (x : Except ε (α × γ)) (q : α → γ → Prop) [∀ a c, Decidable (q a c)] :
    Decidable (∃ a c, x = .ok (a, c) ∧ q a c) :=
  decidable_of_iff (∃ p, x = .ok p ∧ q p.1 p.2) (by simp only [Prod.exists])

instance decidableExistsOkTriple {γ δ : Type} (x : Except ε (α × γ × δ)) (q : α → γ → δ → Prop)
    [∀ a c d, Decidable (q a c d)] : Decidable (∃ a c d, x = .ok (a, c, d) ∧ q a c d) :=
  decidable_of_iff (∃ p, x = .ok p ∧ q p.1 p.2.1 p.2.2) (by simp only [Prod.exists])

instance decidableExistsOkFst {γ : Type} [DecidableEq γ] (x : Except ε (α × γ)) (c : γ) (q : α → Prop)
    [DecidablePred q] : Decidable (∃ a, x = .ok (a, c) ∧ q a) :=
  decidable_of_iff (∃ p, x = .ok p ∧ p.2 = c ∧ q p.1) (by simp)

instance decidableExistsOkSnd {γ : Type} [DecidableEq α] (x : Except ε (α × γ)) (a : α) (q : γ → Prop)
    [DecidablePred q] : Decidable (∃ c, x = .ok (a, c) ∧ q c) :=
  decidable_of_iff (∃ p, x = .ok p ∧ p.1 = a ∧ q p.2) (by simp)

instance decidableExistsSome (x : Option α) (q : α → Prop) [DecidablePred q] : Decidable (∃ a, x = some a ∧ q a) :=
  match x with
  | some a => decidable_of_iff (q a) (by simp)
  | none => isFalse (by simp)

instance decidableIsError [DecidableEq ε] (x : Except ε α) (e : ε) : Decidable (x = .error e) :=
  match x with
  | .ok _ => isFalse (by simp)
  | .error e' => decidable_of_iff (e' = e) (by simp)

theorem exists_ok {x : Except ε α} (p : α → Prop) {q : α → Prop} (h : ∃ a, x = .ok a ∧ p a)
    (hq : ∀ a, x = .ok a → p a → q a) : ∃ a, x = .ok a ∧ q a := by
  obtain ⟨a, ha, hp⟩ := h
  exact ⟨a, ha, hq a ha hp⟩

def runAll (exec : β → α → Except ε β) : β → List α → Except ε β
  | s, [] => .ok s
  | s, c :: cs => exec s c >>= fun s' => runAll exec s' cs

theorem runAll_append (exec : β → α → Except ε β) (s : β) (cs ds : List α) :
    runAll exec s (cs ++ ds) = runAll exec s cs >>= fun s' => runAll exec s' ds := by
  induction cs generalizing s with
  | nil => rfl
  | cons c cs ih =>
    simp only [List.cons_append, runAll]
    cases exec s c with
    | error => rfl
    | ok s' => exact ih s'

theorem runAll_concat {exec : β → α → Except ε β} {s t s' : β} {cs : List α} {c : α}
    (hrun : runAll exec s cs = .ok t) (h : exec t c = .ok s') : runAll exec s (cs ++ [c]) = .ok s' := by
  rw [runAll_append, hrun, ok_bind]
  exact bind_eq_ok.mpr ⟨s', h, rfl⟩

def EveryStep (exec : β → α → Except ε β) (P : β → α → Prop) : β → List α → Prop
  | _, [] => True
  | s, c :: cs => P s c ∧ ∀ s', exec s c = .ok s' → EveryStep exec P s' cs

instance decidableForallOk {Q : α → Prop} [DecidablePred Q] : (x : Except ε α) → Decidable (∀ a, x = .ok a → Q a)
  | .ok a => decidable_of_iff (Q a) (by simp)
  | .error _ => .isTrue (by simp)

instance decidableEveryStep (exec : β → α → Except ε β) (P : β → α → Prop) [∀ s c, Decidable (P s c)] :
    (s : β) → (cs : List α) → Decidable (EveryStep exec P s cs)
  | _, [] => .isTrue trivial
  | s, c :: cs =>
    @instDecidableAnd _ _ inferInstance
      (@decidableForallOk _ _ _ (fun s' => decidableEveryStep exec P s' cs) (exec s c))

def EveryState (exec : β → α → Except ε β) (Q : β → Prop) : β → List α → Prop
  | s, [] => Q s
  | s, c :: cs => Q s ∧ ∀ s', exec s c = .ok s' → EveryState exec Q s' cs

section Runs

variable {exec : β → α → Except ε β} {P : β → α → Prop} {Q : β → Prop} {cs : List α} {s s' : β}

theorem runAll_invariant {Inv : β → Prop} (step : ∀ s c s', Inv s → P s c → exec s c = .ok s' → Inv s') (hs : Inv s)
    (hsteps : EveryStep exec P s cs) (hrun : runAll exec s cs = .ok s') : Inv s' := by
  induction cs generalizing s with
  | nil =>
    cases hrun
    exact hs
  | cons c cs ih =>
    obtain ⟨t, ht, hrest⟩ := of_bind hrun
    exact ih (step s c t hs hsteps.1 ht) (hsteps.2 t ht) hrest

theorem runAll_decays {m : β → ℕ} {x y : ℕ} (step : ∀ s c s', P s c → exec s c = .ok s' → y * m s' ≤ x * m s)
    (h : EveryStep exec P s cs) (hrun : runAll exec s cs = .ok s') : y ^ cs.length * m s' ≤ x ^ cs.length * m s := by
  induction cs generalizing s with
  | nil =>
    cases hrun
    exact le_rfl
  | cons c cs ih =>
    obtain ⟨t, ht, hrest⟩ := of_bind hrun
    calc y ^ (cs.length + 1) * m s' = y * (y ^ cs.length * m s') := by ring
      _ ≤ y * (x ^ cs.length * m t) := Nat.mul_le_mul_left y (ih (h.2 t ht) hrest)
      _ = x ^ cs.length * (y * m t) := by ring
      _ ≤ x ^ cs.length * (x * m s) := Nat.mul_le_mul_left _ (step s c t h.1 ht)
      _ = x ^ (cs.length + 1) * m s := by ring

theorem everyStep_of_forall (s : β) (h : ∀ c ∈ cs, ∀ s, P s c) : EveryStep exec P s cs := by
  induction cs generalizing s with
  | nil => trivial
  | cons c cs ih =>
    exact ⟨h c List.mem_cons_self s, fun s' _ => ih s' fun d hd => h d (List.mem_cons_of_mem c hd)⟩

theorem everyStep_trivial (s : β) (cs : List α) : EveryStep exec (fun _ _ => True) s cs :=
  everyStep_of_forall s fun _ _ _ => trivial

theorem everyStep_among {R : α → Prop} {Inv : β → Prop} (hP : ∀ s c, R c → Inv s → P s c)
    (step : ∀ s c s', R c → Inv s → exec s c = .ok s' → Inv s') (hs : Inv s) (hcs : ∀ c ∈ cs, R c) :
    EveryStep exec P s cs := by
  induction cs generalizing s with
  | nil => trivial
  | cons c cs ih =>
    have hc : R c := hcs c List.mem_cons_self
    exact ⟨hP s c hc hs, fun t ht => ih (step s c t hc hs ht) fun d hd => hcs d (List.mem_cons_of_mem c hd)⟩

theorem everyStep_of_invariant {Inv : β → Prop} (hP : ∀ s c, Inv s → P s c)
    (step : ∀ s c s', Inv s → exec s c = .ok s' → Inv s') (hs : Inv s) : EveryStep exec P s cs :=
  everyStep_among (R := fun _ => True) (fun s c _ => hP s c) (fun s c s' _ => step s c s') hs
    fun _ _ => trivial

theorem EveryStep.and {P'} (h : EveryStep exec P s cs) (h' : EveryStep exec P' s cs) :
    EveryStep exec (fun s c => P s c ∧ P' s c) s cs := by
  induction cs generalizing s with
  | nil => trivial
  | cons c cs ih => exact ⟨⟨h.1, h'.1⟩, fun t ht => ih (h.2 t ht) (h'.2 t ht)⟩

theorem EveryStep.imp {P'} (hP : ∀ s c, P s c → P' s c) (h : EveryStep exec P s cs) : EveryStep exec P' s cs := by
  induction cs generalizing s with
  | nil => trivial
  | cons c cs ih => exact ⟨hP s c h.1, fun t ht => ih (h.2 t ht)⟩

theorem everyStep_congr {I : β → Prop} {P' : β → α → Prop} (step : ∀ s c s', I s → exec s c = .ok s' → I s')
    (hP : ∀ s c s', I s → exec s c = .ok s' → (P s c ↔ P' s c)) (hs : I s)
    (hrun : runAll exec s cs = .ok s') : EveryStep exec P s cs ↔ EveryStep exec P' s cs := by
  induction cs generalizing s with
  | nil => exact Iff.rfl
  | cons c cs ih =>
    obtain ⟨t, ht, hrest⟩ := of_bind hrun
    apply and_congr (hP s c t hs ht)
    apply forall₂_congr
    intro u hu
    obtain rfl := ok_unique hu ht
    exact ih (step s c u hs hu) hrest

/-- When calls that meet `P` keep an invariant above `Q` and the others break `Q`, the run stays in `Q` just when its
calls meet `P`. -/
theorem everyState_iff_within {R} (Inv : β → Prop) (hQ : ∀ s, Inv s → Q s)
    (step : ∀ s c s', R s c → Inv s → P s c → exec s c = .ok s' → Inv s')
    (hbreak : ∀ s c s', R s c → Inv s → ¬ P s c → exec s c = .ok s' → ¬ Q s') (hs : Inv s)
    (hcs : EveryStep exec R s cs) (hrun : runAll exec s cs = .ok s') :
    EveryState exec Q s cs ↔ EveryStep exec P s cs := by
  induction cs generalizing s with
  | nil => exact iff_of_true (hQ s hs) trivial
  | cons c cs ih =>
    obtain ⟨t, ht, hrest⟩ := of_bind hrun
    have hnext {u : β} (hu : exec s c = .ok u) : u = t := ok_unique hu ht
    constructor
    · rintro ⟨-, hlater⟩
      have hP : P s c := by
        by_contra hP
        have hstates := hlater t ht
        apply hbreak s c t hcs.1 hs hP ht
        cases cs with
        | nil => exact hstates
        | cons => exact hstates.1
      refine ⟨hP, fun u hu => ?_⟩
      obtain rfl := hnext hu
      exact (ih (step s c u hcs.1 hs hP hu) (hcs.2 u hu) hrest).mp (hlater u hu)
    · rintro ⟨hP, hlater⟩
      refine ⟨hQ s hs, fun u hu => ?_⟩
      obtain rfl := hnext hu
      exact (ih (step s c u hcs.1 hs hP hu) (hcs.2 u hu) hrest).mpr (hlater u hu)

theorem everyState_iff (Inv : β → Prop) (hQ : ∀ s, Inv s → Q s)
    (step : ∀ s c s', Inv s → P s c → exec s c = .ok s' → Inv s')
    (hbreak : ∀ s c s', Inv s → ¬ P s c → exec s c = .ok s' → ¬ Q s') (hs : Inv s)
    (hrun : runAll exec s cs = .ok s') : EveryState exec Q s cs ↔ EveryStep exec P s cs :=
  everyState_iff_within (R := fun _ _ => True) Inv hQ (fun s c s' _ => step s c s')
    (fun s c s' _ => hbreak s c s') hs (everyStep_trivial s cs) hrun

theorem everyState_of_invariant {Inv : β → Prop} (hQ : ∀ s, Inv s → Q s)
    (step : ∀ s c s', Inv s → P s c → exec s c = .ok s' → Inv s') (hs : Inv s)
    (hsteps : EveryStep exec P s cs) : EveryState exec Q s cs := by
  induction cs generalizing s with
  | nil => exact hQ s hs
  | cons c cs ih => exact ⟨hQ s hs, fun t ht => ih (step s c t hs hsteps.1 ht) (hsteps.2 t ht)⟩

def Visited (exec : β → α → Except ε β) (s : β) (cs : List α) (t : β) : Prop := ∃ n, runAll exec s (cs.take n) = .ok t

theorem Visited.start (s : β) (cs : List α) : Visited exec s cs s := ⟨0, rfl⟩

theorem Visited.last (hrun : runAll exec s cs = .ok s') : Visited exec s cs s' := by
  refine ⟨cs.length, ?_⟩
  rw [List.take_length]
  exact hrun

theorem visited_singleton {c u} (h : Visited exec s [c] u) : u = s ∨ exec s c = .ok u := by
  obtain ⟨n, hn⟩ := h
  cases n with
  | zero => exact Or.inl (ok_inj hn)
  | succ =>
    obtain ⟨t, ht, hn⟩ := of_bind hn
    rw [List.take_nil] at hn
    cases hn
    exact Or.inr ht

theorem Visited.cons {c t u} (hstep : exec s c = .ok t) (h : Visited exec t cs u) : Visited exec s (c :: cs) u := by
  obtain ⟨n, hn⟩ := h
  exact ⟨n + 1, bind_eq_ok.mpr ⟨t, hstep, hn⟩⟩

theorem runAll_witness {γ : Type} {Inv : β → γ → Prop} {Grows : γ → γ → Prop} {P : α → Prop}
    (refl : ∀ g, Grows g g) (trans : ∀ {g h k}, Grows g h → Grows h k → Grows g k)
    (step : ∀ {s c s' g}, P c → Inv s g → exec s c = .ok s' → ∃ g', Grows g g' ∧ Inv s' g')
    {g : γ} (hs : Inv s g) (hcs : ∀ c ∈ cs, P c) (hrun : runAll exec s cs = .ok s') :
    ∃ g', (Grows g g' ∧ Inv s' g') ∧ ∀ t, Visited exec s cs t → ∃ gt, Grows gt g' ∧ Inv t gt := by
  induction cs generalizing s g with
  | nil =>
    cases hrun
    refine ⟨g, ⟨refl g, hs⟩, ?_⟩
    rintro t ⟨n, ht⟩
    rw [List.take_nil] at ht
    cases ht
    exact ⟨g, refl g, hs⟩
  | cons c cs ih =>
    obtain ⟨u, hu, hrest⟩ := of_bind hrun
    obtain ⟨h, hgh, hInv⟩ := step (hcs c List.mem_cons_self) hs hu
    obtain ⟨g', ⟨hgrows, hend⟩, hvisited⟩ := ih hInv (fun d hd => hcs d (List.mem_cons_of_mem c hd)) hrest
    refine ⟨g', ⟨trans hgh hgrows, hend⟩, ?_⟩
    rintro t ⟨n, ht⟩
    cases n with
    | zero =>
      cases ht
      exact ⟨g, trans hgh hgrows, hs⟩
    | succ n =>
      obtain ⟨u', hu', ht⟩ := of_bind ht
      obtain rfl := ok_unique hu' hu
      exact hvisited t ⟨n, ht⟩

/-- When every watched call is a move of an automaton and the others leave it, a run is a path of the automaton. -/
theorem runAll_follows {σ ω : Type} {next : σ → ω → Option σ} {watch : α → Option ω} {Inv : β → σ → Prop}
    (silent : ∀ {s c s' q}, Inv s q → exec s c = .ok s' → watch c = none → Inv s' q)
    (move : ∀ {s c s' q e}, Inv s q → exec s c = .ok s' → watch c = some e → ∃ q', next q e = some q' ∧ Inv s' q')
    {q : σ} (hs : Inv s q) (hrun : runAll exec s cs = .ok s') :
    ∃ q', (cs.filterMap watch).foldlM next q = some q' ∧ Inv s' q' := by
  induction cs generalizing s q with
  | nil =>
    cases hrun
    exact ⟨q, rfl, hs⟩
  | cons c cs ih =>
    obtain ⟨t, ht, hrest⟩ := of_bind hrun
    cases hc : watch c with
    | none =>
      rw [List.filterMap_cons_none hc]
      exact ih (silent hs ht hc) hrest
    | some =>
      obtain ⟨q₁, hnext, hInv⟩ := move hs ht hc
      obtain ⟨q', hpath, hend⟩ := ih hInv hrest
      refine ⟨q', ?_, hend⟩
      rw [List.filterMap_cons_some hc, List.foldlM_cons, hnext]
      exact hpath

end Runs

end QuidProtocol.Lib
