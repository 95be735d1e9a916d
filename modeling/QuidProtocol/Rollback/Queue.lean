import Mathlib.Logic.Function.Basic
import QuidProtocol.Lib.Machine

/-!
`freshness_ledger.rs` of the bridge: the ledger whose stores are queued.
-/

namespace QuidProtocol.Rollback.Queue

open Lib.Machine Function

variable {M : Type} [DecidableEq M]

structure QueuedFreshnessLedger (M : Type) where
  confirmed : M → ℕ
  queue : List (M × ℕ)
  batch : List (M × ℕ)
  alive : Bool
  freshnessSeq : M → ℕ
  pending : List (M × ℕ)

def spawn (freshnessSeq : M → ℕ) (pending : List (M × ℕ)) : QueuedFreshnessLedger M :=
  ⟨fun _ => 0, [], [], true, freshnessSeq, pending⟩

def maxUnconfirmedLag : ℕ := 128

def lagExceedsBound (seq confirmed : ℕ) : Bool := maxUnconfirmedLag < seq - confirmed

def maxFreshnessJump : ℕ := 1000000

def commitFreshness (freshnessSeq : M → ℕ) (m : M) (seq : ℕ) : Option (M → ℕ) :=
  if freshnessSeq m < seq ∧ seq - freshnessSeq m ≤ maxFreshnessJump then some (update freshnessSeq m seq)
  else none

def insertLatest (latest : List (M × ℕ)) (e : M × ℕ) : List (M × ℕ) :=
  if latest.any fun l => l.1 = e.1 then latest.map fun l => if l.1 = e.1 then (l.1, max l.2 e.2) else l
  else latest ++ [e]

inductive Outcome
  | mined
  | unseen
  | failed

inductive Event (M : Type)
  | store (m : M) (seq : ℕ)
  | drain
  | write (i : ℕ) (outcome : Outcome)
  | land (i : ℕ)
  | lose (i : ℕ)
  | foreign (m : M) (seq : ℕ)
  | die
  | restart

inductive Refused
  | stalled
  | stopped

variable (q : QueuedFreshnessLedger M) (m : M)

def store (seq : ℕ) : QueuedFreshnessLedger M × Except Refused Unit :=
  if lagExceedsBound seq (q.confirmed m) then (q, .error .stalled)
  else if q.alive then ({ q with queue := q.queue ++ [(m, seq)] }, .ok ())
  else (q, .error .stopped)

def mine (seq : ℕ) : QueuedFreshnessLedger M :=
  { q with freshnessSeq := (commitFreshness q.freshnessSeq m seq).getD q.freshnessSeq }

def write (seq : ℕ) : Outcome → QueuedFreshnessLedger M
  | .mined =>
    match commitFreshness q.freshnessSeq m seq with
    | some freshnessSeq =>
      { q with freshnessSeq, confirmed := update q.confirmed m (max (q.confirmed m) seq) }
    | none => q
  | .unseen => { q with pending := q.pending ++ [(m, seq)] }
  | .failed => q

def step : Event M → QueuedFreshnessLedger M × Option (Except Refused Unit)
  | .store m seq => ((store q m seq).1, some (store q m seq).2)
  | .drain =>
    (if q.alive ∧ q.batch = [] then { q with queue := [], batch := q.queue.foldl insertLatest [] } else q, none)
  | .write i outcome =>
    match q.alive, q.batch[i]? with
    | true, some e => (write { q with batch := q.batch.eraseIdx i } e.1 e.2 outcome, none)
    | _, _ => (q, none)
  | .land i =>
    match q.pending[i]? with
    | some e => (mine { q with pending := q.pending.eraseIdx i } e.1 e.2, none)
    | none => (q, none)
  | .lose i => ({ q with pending := q.pending.eraseIdx i }, none)
  | .foreign m seq => (mine q m seq, none)
  | .die => ({ q with alive := false }, none)
  | .restart => (spawn q.freshnessSeq q.pending, none)

def Outstanding : Prop := ∃ e ∈ q.queue ++ q.batch ++ q.pending, e.1 = m

instance instDecidableOutstanding (q : QueuedFreshnessLedger M) (m : M) : Decidable (Outstanding q m) :=
  inferInstanceAs (Decidable (∃ e ∈ q.queue ++ q.batch ++ q.pending, e.1 = m))

def Reported (q : QueuedFreshnessLedger M) : Event M → Prop
  | .land i => ∀ e ∈ q.pending[i]?, e.1 ≠ m
  | .foreign n _ => n ≠ m
  | .restart => q.freshnessSeq m = 0
  | _ => True

def HeldBack (q : QueuedFreshnessLedger M) (e : Event M) : Prop :=
  ∀ seq, e = .store m seq → (step q e).2 = some (.ok ()) → seq ≤ q.freshnessSeq m + maxUnconfirmedLag

def LetThrough (q : QueuedFreshnessLedger M) (e : Event M) : Prop :=
  ∀ seq, e = .store m seq → q.alive = true → seq ≤ q.freshnessSeq m + maxUnconfirmedLag → (step q e).2 = some (.ok ())

section Steps

variable {q : QueuedFreshnessLedger M} {m n : M} {seq : ℕ}

theorem commitFreshness_eq {freshnessSeq freshnessSeq'} (h : commitFreshness freshnessSeq m seq = some freshnessSeq') :
    freshnessSeq m < seq ∧ freshnessSeq' = update freshnessSeq m seq := by
  unfold commitFreshness at h
  split_ifs at h with hseq
  exact ⟨hseq.1, (Option.some.inj h).symm⟩

inductive Moves (m : M) (q : QueuedFreshnessLedger M) (e : Event M) (q' : QueuedFreshnessLedger M) : Prop
  | kept (hconfirmed : q'.confirmed m = q.confirmed m) (hseq : q'.freshnessSeq m = q.freshnessSeq m)
  | reported (hconfirmed : q'.confirmed m = max (q.confirmed m) (q'.freshnessSeq m))
    (hseq : q.freshnessSeq m < q'.freshnessSeq m)
  | unreported (he : ¬ Reported m q e) (hconfirmed : q'.confirmed m = q.confirmed m)
    (hseq : q.freshnessSeq m < q'.freshnessSeq m)
  | restarted (he : e = .restart) (hconfirmed : q'.confirmed m = 0) (hseq : q'.freshnessSeq m = q.freshnessSeq m)

theorem mine_moves {e} (pending : List (M × ℕ)) (he : n = m → ¬ Reported m q e) :
    Moves m q e (mine { q with pending } n seq) := by
  unfold mine
  cases h : commitFreshness q.freshnessSeq n seq with
  | none => exact .kept rfl rfl
  | some =>
    obtain ⟨hlt, rfl⟩ := commitFreshness_eq h
    by_cases hn : n = m
    · subst hn
      exact .unreported (he rfl) rfl (by simpa [h] using hlt)
    · exact .kept rfl (update_of_ne (Ne.symm hn) _ _)

theorem write_moves {e} (batch : List (M × ℕ)) (outcome : Outcome) :
    Moves m q e (write { q with batch } n seq outcome) := by
  cases outcome with
  | unseen | failed => exact .kept rfl rfl
  | mined =>
    simp only [write]
    cases h : commitFreshness q.freshnessSeq n seq with
    | none => exact .kept rfl rfl
    | some =>
      obtain ⟨hlt, rfl⟩ := commitFreshness_eq h
      by_cases hn : n = m
      · subst hn
        exact .reported (by simp) (by simpa using hlt)
      · exact .kept (update_of_ne (Ne.symm hn) _ _) (update_of_ne (Ne.symm hn) _ _)

theorem step_moves (e : Event M) : Moves m q e (step q e).1 := by
  cases e with
  | store =>
    simp only [step, store]
    split_ifs <;> exact .kept rfl rfl
  | drain =>
    simp only [step]
    split_ifs <;> exact .kept rfl rfl
  | write i outcome =>
    simp only [step]
    split
    · exact write_moves _ outcome
    · exact .kept rfl rfl
  | land i =>
    simp only [step]
    cases hi : q.pending[i]? with
    | none => exact .kept rfl rfl
    | some e => exact mine_moves _ fun hm he => he e hi hm
  | lose i | die => exact .kept rfl rfl
  | foreign => exact mine_moves q.pending fun hm he => he hm
  | restart => exact .restarted rfl rfl rfl

theorem confirmed_le_step {e} (h : q.confirmed m ≤ q.freshnessSeq m) :
    (step q e).1.confirmed m ≤ (step q e).1.freshnessSeq m := by
  cases step_moves (q := q) (m := m) e with
  | kept hconfirmed hseq | reported hconfirmed hseq | unreported he hconfirmed hseq | restarted he hconfirmed hseq =>
    omega

theorem confirmed_eq_step {e} (he : Reported m q e) (h : q.confirmed m = q.freshnessSeq m) :
    (step q e).1.confirmed m = (step q e).1.freshnessSeq m := by
  cases step_moves (q := q) (m := m) e with
  | kept hconfirmed hseq | reported hconfirmed hseq => omega
  | unreported hne => exact (hne he).elim
  | restarted hrestart hconfirmed hseq =>
    rw [hrestart] at he
    have hzero : q.freshnessSeq m = 0 := he
    omega

omit [DecidableEq M] in
theorem store_ok_iff : (store q m seq).2 = .ok () ↔ seq ≤ q.confirmed m + maxUnconfirmedLag ∧ q.alive = true := by
  unfold store lagExceedsBound
  simp only [decide_eq_true_eq]
  split_ifs with hlag halive
  · simp only [false_iff, not_and]
    omega
  · simp only [halive, and_true, true_iff]
    omega
  · simp [halive]

end Steps

theorem lag_gate (m : M) (freshnessSeq : M → ℕ) (pending : List (M × ℕ)) (events : List (Event M)) :
    Along step (HeldBack m) (spawn freshnessSeq pending) events ∧
      (freshnessSeq m = 0 → Along step (Reported m) (spawn freshnessSeq pending) events →
        Along step (LetThrough m) (spawn freshnessSeq pending) events) := by
  constructor
  · apply along_of_invariant (I := fun q => q.confirmed m ≤ q.freshnessSeq m) (P := fun _ _ => True)
    · rintro q _ hq - seq rfl hok
      have hlag := (store_ok_iff.mp (Option.some.inj hok)).1
      omega
    · exact fun _ _ hq _ => confirmed_le_step hq
    · exact Nat.zero_le _
    · exact along_of_forall fun _ _ => trivial
  · intro hzero
    apply along_of_invariant (I := fun q => q.confirmed m = q.freshnessSeq m)
    · rintro q _ hq - seq rfl halive hle
      exact congrArg some (store_ok_iff.mpr ⟨by omega, halive⟩)
    · exact fun _ _ hq he => confirmed_eq_step he hq
    · exact hzero.symm

def laggingEvents : List (Event Unit) :=
  [.store () 100, .drain, .write 0 .mined, .store () 200, .drain, .write 0 .failed, .store () 229]

theorem lag_gate_sample : Along step (LetThrough ()) (spawn (fun _ => 0) []) laggingEvents ∧
    ((trace step (spawn (fun _ : Unit => 0) []) laggingEvents).map Prod.snd).getLast? =
      some (some (.error .stalled)) := by
  refine ⟨(lag_gate () (fun _ => 0) [] laggingEvents).2 rfl ?_, rfl⟩
  simp [laggingEvents, Along, Reported]

def restartedEvents : List (Event Unit) :=
  [.store () 100, .drain, .write 0 .mined, .store () 200, .drain, .write 0 .mined, .restart]

def unseenEvents : List (Event Unit) := [.store () 100, .drain, .write 0 .unseen, .land 0]

theorem lag_gate_refuses : ((run step (spawn (fun _ => 0) []) restartedEvents).alive = true ∧
      ¬ Outstanding (run step (spawn (fun _ => 0) []) restartedEvents) () ∧
      (run step (spawn (fun _ => 0) []) restartedEvents).freshnessSeq () = 200 ∧
      (step (run step (spawn (fun _ => 0) []) restartedEvents) (.store () 201)).2 = some (.error .stalled)) ∧
    (run step (spawn (fun _ => 0) []) unseenEvents).alive = true ∧
      ¬ Outstanding (run step (spawn (fun _ => 0) []) unseenEvents) () ∧
      (run step (spawn (fun _ => 0) []) unseenEvents).freshnessSeq () = 100 ∧
      (step (run step (spawn (fun _ => 0) []) unseenEvents) (.store () 200)).2 = some (.error .stalled) :=
  ⟨⟨rfl, by decide, rfl, rfl⟩, rfl, by decide, rfl, rfl⟩

end QuidProtocol.Rollback.Queue
