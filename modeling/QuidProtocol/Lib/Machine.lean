import Mathlib.Data.List.Basic

/-!
Machines that answer every call.
-/

namespace QuidProtocol.Lib.Machine

universe u v w

variable {σ : Type u} {ι : Type v} {ο : Type w} (step : σ → ι → σ × ο)

def run (s : σ) : List ι → σ
  | [] => s
  | c :: cs => run (step s c).1 cs

def trace (s : σ) : List ι → List (ι × ο)
  | [] => []
  | c :: cs => (c, (step s c).2) :: trace (step s c).1 cs

def Along (P : σ → ι → Prop) (s : σ) : List ι → Prop
  | [] => True
  | c :: cs => P s c ∧ Along P (step s c).1 cs

instance instDecidableAlong (P : σ → ι → Prop) [∀ s c, Decidable (P s c)] :
    (s : σ) → (cs : List ι) → Decidable (Along step P s cs)
  | _, [] => .isTrue trivial
  | s, c :: cs => @instDecidableAnd _ _ inferInstance (instDecidableAlong P (step s c).1 cs)

variable {step} {s : σ} {cs : List ι} {P Q : σ → ι → Prop} {I : σ → Prop}

theorem along_of_forall (h : ∀ s c, P s c) : Along step P s cs := by
  induction cs generalizing s with
  | nil => trivial
  | cons c cs ih => exact ⟨h s c, ih⟩

theorem along_of_forall_mem {R : ι → Prop} (h : ∀ c ∈ cs, R c) : Along step (fun _ c => R c) s cs := by
  induction cs generalizing s with
  | nil => trivial
  | cons c cs ih =>
    obtain ⟨hc, hcs⟩ := List.forall_mem_cons.mp h
    exact ⟨hc, ih hcs⟩

theorem Along.and_forall_mem {R : ι → Prop} (h : Along step P s cs) (hR : ∀ c ∈ cs, R c) :
    Along step (fun s c => P s c ∧ R c) s cs := by
  induction cs generalizing s with
  | nil => trivial
  | cons c cs ih =>
    obtain ⟨hc, hcs⟩ := List.forall_mem_cons.mp hR
    exact ⟨⟨h.1, hc⟩, ih h.2 hcs⟩

theorem run_invariant (hstep : ∀ s c, I s → P s c → I (step s c).1) (hs : I s) (hP : Along step P s cs) :
    I (run step s cs) := by
  induction cs generalizing s with
  | nil => exact hs
  | cons c cs ih => exact ih (hstep s c hs hP.1) hP.2

theorem run_kept (hstep : ∀ s c, I s → I (step s c).1) (hs : I s) : I (run step s cs) :=
  run_invariant (P := fun _ _ => True) (fun s c h _ => hstep s c h) hs (along_of_forall fun _ _ => trivial)

theorem run_cons (c : ι) : run step s (c :: cs) = run step (step s c).1 cs := rfl

theorem run_append (ds : List ι) : run step s (cs ++ ds) = run step (run step s cs) ds := by
  induction cs generalizing s with
  | nil => rfl
  | cons c cs ih => exact ih

theorem mem_trace {e} : e ∈ trace step s cs ↔
    ∃ before behind, cs = before ++ e.1 :: behind ∧ e.2 = (step (run step s before) e.1).2 := by
  induction cs generalizing s with
  | nil => simp [trace]
  | cons c cs ih =>
    rw [trace, List.mem_cons, ih]
    constructor
    · rintro (rfl | ⟨before, behind, rfl, he⟩)
      · exact ⟨[], cs, rfl, rfl⟩
      · exact ⟨c :: before, behind, rfl, he⟩
    · rintro ⟨before, behind, hcs, he⟩
      cases before with
      | nil =>
        obtain ⟨rfl, rfl⟩ := List.cons.inj hcs
        exact .inl (Prod.ext rfl he)
      | cons d before =>
        obtain ⟨rfl, rfl⟩ := List.cons.inj hcs
        exact .inr ⟨before, behind, rfl, he⟩

theorem along_of_forall_trace {R : ι × ο → Prop} (h : ∀ e ∈ trace step s cs, R e) :
    Along step (fun s c => R (c, (step s c).2)) s cs := by
  induction cs generalizing s with
  | nil => trivial
  | cons c cs ih =>
    obtain ⟨hc, hcs⟩ := List.forall_mem_cons.mp h
    exact ⟨hc, ih hcs⟩

theorem along_of_invariant (hQ : ∀ s c, I s → P s c → Q s c) (hstep : ∀ s c, I s → P s c → I (step s c).1)
    (hs : I s) (hP : Along step P s cs) : Along step Q s cs := by
  induction cs generalizing s with
  | nil => trivial
  | cons c cs ih => exact ⟨hQ s c hs hP.1, ih (hstep s c hs hP.1) hP.2⟩

theorem trace_forall {R : ι × ο → Prop} (hanswer : ∀ s c, I s → P s c → R (c, (step s c).2))
    (hstep : ∀ s c, I s → P s c → I (step s c).1) (hs : I s) (hP : Along step P s cs) : ∀ e ∈ trace step s cs, R e := by
  induction cs generalizing s with
  | nil => simp [trace]
  | cons c cs ih =>
    exact List.forall_mem_cons.mpr ⟨hanswer s c hs hP.1, ih (hstep s c hs hP.1) hP.2⟩

theorem trace_pairwise {R : ι × ο → ι × ο → Prop} {H : ι × ο → σ → Prop}
    (hleft : ∀ s c, I s → P s c → H (c, (step s c).2) (step s c).1)
    (hkept : ∀ e s c, I s → P s c → H e s → H e (step s c).1)
    (hanswer : ∀ e s c, I s → P s c → H e s → R e (c, (step s c).2))
    (hstep : ∀ s c, I s → P s c → I (step s c).1) (hs : I s) (hP : Along step P s cs) :
    (trace step s cs).Pairwise R := by
  induction cs generalizing s with
  | nil => exact .nil
  | cons c cs ih =>
    have hlater : ∀ e ∈ trace step (step s c).1 cs, R (c, (step s c).2) e :=
      trace_forall (I := fun t => I t ∧ H (c, (step s c).2) t)
        (fun t d ht hd => hanswer _ t d ht.1 hd ht.2)
        (fun t d ht hd => ⟨hstep t d ht.1 hd, hkept _ t d ht.1 hd ht.2⟩)
        ⟨hstep s c hs hP.1, hleft s c hs hP.1⟩ hP.2
    exact .cons hlater (ih (hstep s c hs hP.1) hP.2)

end QuidProtocol.Lib.Machine
