import QuidProtocol.Watcher.Model

/-!
A swap-out is paid at most once, by one splice or by one reversal.
-/

namespace QuidProtocol.Watcher

open Lib Function

variable {cfg : BridgeConfig} {blockOf : SwapId → ℕ} {x x' : State} {ev : Event} {s : SwapId} {log log' : List Action}

def Action.splices : Action → Option SwapId
  | .initiated s _ => some s
  | _ => none

def Action.pays : Action → Option SwapId
  | .initiated s _ => some s
  | .reversed s => some s
  | _ => none

def DeliversOnce (log : List Action) : Prop :=
  log.Pairwise fun later earlier => earlier.splices = none ∨ later.pays ≠ earlier.splices
  deriving Decidable

def Spliced (log : List Action) (s : SwapId) : Prop := ∃ a ∈ log, a.splices = some s

theorem spliced_cons (a : Action) : Spliced (a :: log) s ↔ a.splices = some s ∨ Spliced log s := by
  simp only [Spliced, List.mem_cons, exists_eq_or_imp]

theorem deliversOnce_cons (a : Action) (hpays : ∀ s, a.pays = some s → ¬ Spliced log s) (h : DeliversOnce log) :
    DeliversOnce (a :: log) := by
  apply List.pairwise_cons.mpr
  refine ⟨?_, h⟩
  intro b hb
  cases hs : b.splices with
  | none => exact .inl rfl
  | some s =>
    right
    intro hpay
    exact hpays s hpay ⟨b, hb, hs⟩

inductive Quiet (log : List Action) : List Action → Prop
  | refl : Quiet log log
  | record (a : Action) {log' : _} (hpays : a.pays = none) (h : Quiet log log') : Quiet log (a :: log')

namespace Quiet

theorem delivers (h : Quiet log log') (hlog : DeliversOnce log) : DeliversOnce log' := by
  induction h with
  | refl => exact hlog
  | record a hpays _ ih =>
    apply deliversOnce_cons a ?_ ih
    intro s hs
    rw [hpays] at hs
    cases hs

theorem spliced (h : Quiet log log') (hs : Spliced log' s) : Spliced log s := by
  induction h with
  | refl => exact hs
  | record a hpays _ ih =>
    apply ih
    apply ((spliced_cons a).mp hs).resolve_left
    cases a with
    | initiated | reversed => cases hpays
    | halted | submitted => exact Option.some_ne_none s ∘ Eq.symm

theorem keeps {a} (h : Quiet log log') (ha : a ∈ log) : a ∈ log' := by
  induction h with
  | refl => exact ha
  | record b _ _ ih => exact List.mem_cons_of_mem b ih

end Quiet

theorem completeDelivery_quiet (x swapId cid splice prepared sent) :
    Quiet x.log (completeDelivery x swapId cid splice prepared sent).1.log := by
  rcases completeDelivery_cases x swapId cid splice prepared sent with h | h
  · rw [h]
    exact .refl
  · rw [h]
    exact .record _ rfl .refl

def Main.free : Main → Option SwapId
  | .driving _ req .selecting => some req.swapId
  | .driving _ req (.trying _ _) => some req.swapId
  | .driving _ req .reversing => some req.swapId
  | _ => none

def Main.inFlight : Main → Option SwapId
  | .driving _ req (.waiting _ _ _) => some req.swapId
  | .driving _ req (.completing _ _) => some req.swapId
  | _ => none

def Slotted (x : State) : Prop :=
  ∀ pass req cid rx candidates, x.main = .driving pass req (.waiting cid rx candidates) →
    x.pending cid = some rx ∨ x.sent rx ≠ none

structure Once (cfg : BridgeConfig) (blockOf : SwapId → ℕ) (x : State) : Prop where
  tracks : Tracks blockOf x
  slotted : Slotted x
  delivers : DeliversOnce x.log
  free : ∀ s, x.main.free = some s → ¬ Spliced x.log s
  spliced : ∀ s, Spliced x.log s → .halted s ∈ x.log ∨ Done cfg blockOf x s ∨ x.main.inFlight = some s

def Main.driven : Main → Option SwapId
  | .driving _ req _ => some req.swapId
  | _ => none

def Event.unresolved : Event → Bool
  | .read (some false) => true
  | _ => false

/-- The polls are honest, and the chain does not call a swap-out unresolved after a drive of it that failed with its
splice handed to LDK. -/
def Settles (blockOf : SwapId → ℕ) (x : State) (ev : Event) : Prop :=
  HonestPolls blockOf x ev ∧ (ev.unresolved → ∀ s ∈ x.main.driven, .halted s ∉ x.log)
  deriving Decidable

theorem resolve_slotted {cid cid₁ rx} (splice) (h : x.pending cid = some rx ∨ x.sent rx ≠ none) :
    (x.resolve cid₁ splice).pending cid = some rx ∨ (x.resolve cid₁ splice).sent rx ≠ none := by
  unfold State.resolve
  split
  case h_2 => exact h
  case h_1 tx htx =>
    by_cases heq : rx = tx
    · right
      rw [heq]
      simp only [update_self, ne_eq, reduceCtorEq, not_false_eq_true]
    · apply h.imp
      · intro hpending
        have hne : cid ≠ cid₁ := by
          rintro rfl
          exact heq (Option.mem_unique hpending htx)
        exact (update_of_ne hne ..).trans hpending
      · intro hsent
        simp only [update_of_ne heq]
        exact hsent

theorem slotted_step (hx : Slotted x) (h : step cfg x ev = .ok x') : Slotted x' := by
  intro pass req cid rx candidates hmain'
  have hstays : x'.main = x.main → x'.pending = x.pending → x'.sent = x.sent →
      x'.pending cid = some rx ∨ x'.sent rx ≠ none := by
    intro hmain hpending hsent
    rw [hpending, hsent]
    exact hx pass req cid rx candidates (hmain.symm.trans hmain')
  cases step_cases h with
  | polled | unread | resolved | unresolved | unselected | received | timedOut => cases hmain'
  | pollFailed | ladder | taskReceived | taskDropped | taskExpired => exact hstays rfl rfl rfl
  | @scanned pass₁ =>
    obtain ⟨main, handled, cursor, hrest, hscan⟩ := scan_eq cfg x pass₁
    rw [hscan] at hmain'
    obtain rfl : main = _ := hmain'
    cases hrest
  | @selected _ _ candidates₁ _ | @dropped _ _ _ _ candidates₁ _ _ _ => cases candidates₁ <;> cases hmain'
  | @attempted _ _ _ candidates₁ answer =>
    cases answer with
    | noChannel | refused => cases candidates₁ <;> cases hmain'
    | accepted =>
      cases hmain'
      left
      exact update_self ..
  | @reversed _ _ landed => cases landed <;> cases hmain'
  | @completed pass₁ req₁ cid₁ splice prepared sent =>
    obtain ⟨pass', handled, log, hcomplete⟩ := complete_eq x pass₁ req₁ cid₁ splice prepared sent
    rw [hcomplete] at hmain'
    cases hmain'
  | spliced cid₁ splice =>
    rw [(samePass_resolve cid₁ splice).main] at hmain'
    exact resolve_slotted splice (hx pass req cid rx candidates hmain')
  | @taskCompleted _ swapId cid₁ splice prepared sent =>
    obtain ⟨log, hlog⟩ := completeDelivery_eq x swapId cid₁ splice prepared sent
    rw [hlog] at hstays ⊢
    exact hstays rfl rfl rfl

theorem scan_log (cfg x pass) : (scan cfg x pass).log = x.log := by
  obtain ⟨main, handled, cursor, -, h⟩ := scan_eq cfg x pass
  rw [h]

theorem scan_free (cfg x pass) : (scan cfg x pass).main.free = none := by
  obtain ⟨main, handled, cursor, hrest, h⟩ := scan_eq cfg x pass
  rw [h]
  cases hrest <;> rfl

theorem endDrive_log (x : State) (pass req ok) : (x.endDrive pass req ok).log = x.log := by
  obtain ⟨pass', handled, h⟩ := endDrive_eq x pass req ok
  rw [h]

theorem endDrive_free (x : State) (pass req ok) : (x.endDrive pass req ok).main.free = none := by
  obtain ⟨pass', handled, h⟩ := endDrive_eq x pass req ok
  rw [h]
  rfl

theorem nextStage_free (pass req candidates) :
    (Main.driving pass req (nextStage candidates)).free = some req.swapId := by
  cases candidates <;> rfl

theorem resolve_log (x : State) (cid splice) : (x.resolve cid splice).log = x.log := by
  obtain ⟨pending, sent, h⟩ := resolve_eq x cid splice
  rw [h]

theorem complete_quiet (x pass req cid splice prepared sent) :
    Quiet x.log (complete x pass req cid splice prepared sent).log := by
  unfold complete
  rw [endDrive_log]
  split
  · exact completeDelivery_quiet ..
  · exact .record _ rfl (completeDelivery_quiet ..)

theorem complete_done (x pass req cid splice prepared sent) :
    .halted req.swapId ∈ (complete x pass req cid splice prepared sent).log ∨
      Done cfg blockOf (complete x pass req cid splice prepared sent) req.swapId := by
  dsimp only [complete]
  cases (completeDelivery x req.swapId cid splice prepared sent).2 with
  | true =>
    right
    exact done_of_endDrive pass req
  | false =>
    left
    exact List.mem_cons_self

theorem Once.quiet (hx : Once cfg blockOf x) (htracks : Tracks blockOf x') (hslotted : Slotted x')
    (hdone : ∀ s, Done cfg blockOf x s → Done cfg blockOf x' s) (hquiet : Quiet x.log x'.log)
    (hfree : ∀ s, x'.main.free = some s → ¬ Spliced x.log s) (hflight : ∀ s, x.main.inFlight = some s →
      .halted s ∈ x'.log ∨ Done cfg blockOf x' s ∨ x'.main.inFlight = some s) : Once cfg blockOf x' where
  tracks := htracks
  slotted := hslotted
  delivers := hquiet.delivers hx.delivers
  free s hs hspliced := hfree s hs (hquiet.spliced hspliced)
  spliced s hs := by
    rcases hx.spliced s (hquiet.spliced hs) with hhalted | hd | hf
    · exact .inl (hquiet.keeps hhalted)
    · exact .inr (.inl (hdone s hd))
    · exact hflight s hf

theorem Once.pays (hx : Once cfg blockOf x) (htracks : Tracks blockOf x') (hslotted : Slotted x')
    (hdone : ∀ s, Done cfg blockOf x s → Done cfg blockOf x' s) (a : Action) (hlog : x'.log = a :: x.log)
    (hfree : ∀ s, a.pays = some s → x.main.free = some s) (hnone : x.main.inFlight = none)
    (hfree' : x'.main.free = none) (hflight : ∀ s, a.splices = some s → x'.main.inFlight = some s) :
    Once cfg blockOf x' where
  tracks := htracks
  slotted := hslotted
  delivers := by
    rw [hlog]
    exact deliversOnce_cons a (fun s hs => hx.free s (hfree s hs)) hx.delivers
  free s hs := by
    rw [hfree'] at hs
    cases hs
  spliced s hs := by
    rw [hlog] at hs ⊢
    rcases (spliced_cons a).mp hs with hnew | hold
    · exact .inr (.inr (hflight s hnew))
    rcases hx.spliced s hold with hhalted | hd | hf
    · exact .inl (List.mem_cons_of_mem a hhalted)
    · exact .inr (.inl (hdone s hd))
    · rw [hnone] at hf
      cases hf

theorem once_step (hx : Once cfg blockOf x) (hev : Settles blockOf x ev) (h : step cfg x ev = .ok x') :
    Once cfg blockOf x' := by
  have htracks : Tracks blockOf x' := tracks_step hx.tracks hev.1 h
  have hslotted : Slotted x' := slotted_step hx.slotted h
  have hdone : ∀ s, Done cfg blockOf x s → Done cfg blockOf x' s := fun s => done_step hx.tracks hev.1 h
  -- A step of another task, or of what is outside, leaves the drive where it is.
  have hstays : x'.main = x.main → Quiet x.log x'.log → Once cfg blockOf x' := by
    intro hmain hquiet
    apply hx.quiet htracks hslotted hdone hquiet
    · rw [hmain]
      exact hx.free
    · intro s hs
      right; right
      rw [hmain]
      exact hs
  -- A step of a drive that has handed nothing to LDK.
  have hidle : x.main.inFlight = none → Quiet x.log x'.log → (∀ s, x'.main.free = some s → ¬ Spliced x.log s) →
      Once cfg blockOf x' := by
    intro hnone hquiet hfree
    apply hx.quiet htracks hslotted hdone hquiet hfree
    intro s hs
    rw [hnone] at hs
    cases hs
  have hnot : x'.main.free = none → ∀ s, x'.main.free = some s → ¬ Spliced x.log s := by
    intro hnone s hs
    rw [hnone] at hs
    cases hs
  cases step_cases h with
  | polled hmain | unread hmain | resolved hmain | unselected hmain =>
    exact hidle (by rw [hmain]; rfl) .refl (hnot rfl)
  | pollFailed => exact hx
  | scanned hmain =>
    apply hidle
    · rw [hmain]
      rfl
    · rw [scan_log]
      exact .refl
    · exact hnot (scan_free ..)
  | @unresolved pass req hmain =>
    have hdriven : x.main.driven = some req.swapId := by rw [hmain]; rfl
    have hnone : x.main.inFlight = none := by rw [hmain]; rfl
    apply hidle hnone .refl
    intro s hs hspliced
    obtain rfl : req.swapId = s := Option.some.inj hs
    rcases hx.spliced req.swapId hspliced with hhalted | hd | hf
    · exact hev.2 rfl req.swapId hdriven hhalted
    · exact driving_not_done hx.tracks hmain hd
    · rw [hnone] at hf
      cases hf
  | @selected pass req candidates hmain =>
    apply hidle (by rw [hmain]; rfl) .refl
    intro s hs
    apply hx.free s
    rw [hmain]
    exact (nextStage_free pass req candidates).symm.trans hs
  | @attempted pass req cid candidates answer hmain =>
    have hnone : x.main.inFlight = none := by rw [hmain]; rfl
    have hfree : x.main.free = some req.swapId := by rw [hmain]; rfl
    have hnext : ∀ s, (Main.driving pass req (nextStage candidates)).free = some s → ¬ Spliced x.log s := by
      intro s hs
      apply hx.free s
      rw [hfree]
      exact (nextStage_free pass req candidates).symm.trans hs
    cases answer with
    | noChannel | refused => exact hidle hnone .refl hnext
    | accepted =>
      apply hx.pays htracks hslotted hdone (.initiated req.swapId cid) rfl ?_ hnone rfl
      · intro s hs
        exact hs
      · intro s hs
        exact hfree.trans hs
  | received hmain =>
    apply hx.quiet htracks hslotted hdone .refl (hnot rfl)
    intro s hs
    right; right
    rw [hmain] at hs
    exact hs
  | dropped hmain hsent hslot =>
    rcases hx.slotted _ _ _ _ _ hmain with hpending | hsome
    · exact absurd hpending hslot
    · exact absurd hsent hsome
  | timedOut hmain =>
    apply hx.quiet htracks hslotted hdone (.record _ rfl .refl) (hnot rfl)
    intro s hs
    rw [hmain] at hs
    left
    rw [← Option.some.inj hs]
    exact List.mem_cons_self
  | @reversed pass req landed hmain =>
    apply hx.pays htracks hslotted hdone (.reversed req.swapId) (endDrive_log ..)
    · intro s hs
      rw [hmain]
      exact hs
    · rw [hmain]
      rfl
    · exact endDrive_free ..
    · intro s hs
      cases hs
  | completed hmain =>
    apply hx.quiet htracks hslotted hdone (complete_quiet ..) (hnot (endDrive_free ..))
    intro s hs
    rw [hmain] at hs
    rw [← Option.some.inj hs]
    exact (complete_done ..).imp_right .inl
  | spliced cid splice =>
    apply hstays (samePass_resolve cid splice).main
    rw [resolve_log]
    exact .refl
  | ladder | taskReceived | taskDropped | taskExpired => exact hstays rfl .refl
  | taskCompleted => exact hstays (samePass_completeDelivery ..).main (completeDelivery_quiet ..)

theorem once_start (cfg blockOf startBlock) : Once cfg blockOf (State.start startBlock) where
  tracks := tracks_start startBlock
  slotted _ _ _ _ _ h := by cases h
  delivers := .nil
  free _ h := by cases h
  spliced s h := by
    obtain ⟨a, ha, -⟩ := h
    cases ha

/-- At most one delivery splice is handed to LDK for a swap-out, and nothing after it pays the swap-out again. -/
theorem delivers_once (cfg : BridgeConfig) (blockOf : SwapId → ℕ) (startBlock : ℕ) (run : List Event)
    (h : EveryStep (step cfg) (Settles blockOf) (State.start startBlock) run) :
    EveryState (step cfg) (fun x => DeliversOnce x.log) (State.start startBlock) run :=
  everyState_of_invariant (fun _ hx => hx.delivers) (fun _ _ _ hx hev hstep => once_step hx hev hstep)
    (once_start cfg blockOf startBlock) h

def lateLock : List Event :=
  [.polled [⟨1, 5⟩, ⟨2, 5⟩] 10, .scan, .read (some false), .select (some [7, 8]), .attempt .refused,
    .attempt .accepted, .spliced 8 100, .ladder 100 true, .receive, .complete true .landed, .scan, .read (some false),
    .select (some [7]), .attempt .accepted, .timeOut, .scan, .spliced 7 101, .ladder 101 true, .taskReceive 0,
    .taskComplete 0 true .landed, .polled [⟨1, 5⟩, ⟨2, 5⟩] 11, .scan, .scan, .read (some true), .scan]

theorem delivers_once_lateLock : EveryState (step ⟨2⟩) (fun x => DeliversOnce x.log) (State.start 0) lateLock ∧
      ∃ y, runAll (step ⟨2⟩) (State.start 0) lateLock = .ok y ∧ y.log =
        [.submitted 2 7 101, .halted 2, .initiated 2 7, .submitted 1 8 100, .initiated 1 8] := by
  have hsteps : EveryStep (step ⟨2⟩) (Settles fun _ => 5) (State.start 0) lateLock := by decide +kernel
  exact ⟨delivers_once ⟨2⟩ (fun _ => 5) 0 lateLock hsteps, by decide +kernel⟩

def halts : List Event :=
  [.polled [⟨1, 5⟩] 10, .scan, .read (some false), .select (some [7]), .attempt .accepted, .timeOut, .scan]

def locksUnproved : List Event :=
  [.polled [⟨1, 5⟩] 10, .scan, .read (some false), .select (some [7]), .attempt .accepted, .spliced 7 100, .receive,
    .complete false .failed, .scan]

def nextPass (candidates : List Cid) : List Event :=
  [.polled [⟨1, 5⟩] 11, .scan, .read (some false), .select (some candidates)]

theorem halted_drive_pays_again :
    (EveryStep (step ⟨2⟩) (HonestPolls fun _ => 5) (State.start 0) (halts ++ nextPass [8] ++ [.attempt .accepted]) ∧
      ∃ y, runAll (step ⟨2⟩) (State.start 0) (halts ++ nextPass [8] ++ [.attempt .accepted]) = .ok y ∧
        y.log = [.initiated 1 8, .halted 1, .initiated 1 7] ∧ ¬ DeliversOnce y.log) ∧
    (EveryStep (step ⟨2⟩) (HonestPolls fun _ => 5) (State.start 0) (halts ++ nextPass [] ++ [.reverse true]) ∧
      ∃ y, runAll (step ⟨2⟩) (State.start 0) (halts ++ nextPass [] ++ [.reverse true]) = .ok y ∧
        y.log = [.reversed 1, .halted 1, .initiated 1 7] ∧ ¬ DeliversOnce y.log) ∧
    EveryStep (step ⟨2⟩) (HonestPolls fun _ => 5) (State.start 0)
      (locksUnproved ++ nextPass [8] ++ [.attempt .accepted]) ∧
      ∃ y, runAll (step ⟨2⟩) (State.start 0) (locksUnproved ++ nextPass [8] ++ [.attempt .accepted]) = .ok y ∧
        y.log = [.initiated 1 8, .halted 1, .initiated 1 7] ∧ ¬ DeliversOnce y.log := by decide +kernel

end QuidProtocol.Watcher
