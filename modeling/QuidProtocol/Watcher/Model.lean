import QuidProtocol.Lib.Checked

/-!
The watcher of on-chain swap-outs, in one process.
A swap-out whose drive has returned `Ok` is not driven again, as long as the polls are honest.
-/

namespace QuidProtocol.Watcher

open Function

abbrev SwapId := ℕ

abbrev Cid := ℕ

abbrev Outpoint := ℕ

abbrev Token := ℕ

structure Request where
  swapId : SwapId
  requestBlock : ℕ

structure BridgeConfig where
  minConfirmations : ℕ

def evmFinal (requestBlock tip minConfs : ℕ) : Bool := requestBlock ≤ tip ∧ minConfs ≤ tip - requestBlock + 1

structure Pass where
  rest : List Request
  tip : ℕ
  allResolved : Bool

inductive Stage
  | checking
  | selecting
  | trying (cid : Cid) (candidates : List Cid)
  | waiting (cid : Cid) (rx : Token) (candidates : List Cid)
  | reversing
  | completing (cid : Cid) (splice : Outpoint)

inductive Main
  | idle
  | scanning (pass : Pass)
  | driving (pass : Pass) (req : Request) (stage : Stage)

inductive Task
  | watching (swapId : SwapId) (cid : Cid) (rx : Token)
  | completing (swapId : SwapId) (cid : Cid) (splice : Outpoint)
  deriving DecidableEq

inductive Action
  | initiated (swapId : SwapId) (cid : Cid)
  | halted (swapId : SwapId)
  | reversed (swapId : SwapId)
  | submitted (swapId : SwapId) (cid : Cid) (splice : Outpoint)
  deriving DecidableEq

structure State where
  main : Main
  tasks : List Task
  pending : Cid → Option Token
  sent : Token → Option Outpoint
  nextToken : Token
  handled : SwapId → Option ℕ
  cursor : ℕ
  consent : Outpoint → Bool
  tip : ℕ
  log : List Action

namespace State

def start (startBlock : ℕ) : State where
  main := .idle
  tasks := []
  pending := fun _ => none
  sent := fun _ => none
  nextToken := 0
  handled := fun _ => none
  cursor := startBlock
  consent := fun _ => false
  tip := 0
  log := []

variable (x : State)

def register (cid : Cid) : State :=
  { x with pending := update x.pending cid (some x.nextToken), nextToken := x.nextToken + 1 }

def resolve (cid : Cid) (splice : Outpoint) : State :=
  match x.pending cid with
  | some tx =>
    { x with pending := update x.pending cid none, sent := update x.sent tx (some splice) }
  | none => x

def cancel (cid : Cid) : State := { x with pending := update x.pending cid none }

def record (action : Action) : State := { x with log := action :: x.log }

def driving (pass : Pass) (req : Request) (stage : Stage) : State :=
  { x with main := .driving pass req stage }

def endDrive (pass : Pass) (req : Request) (ok : Bool) : State :=
  if ok then
    { x with main := .scanning pass, handled := update x.handled req.swapId (some pass.tip) }
  else { x with main := .scanning { pass with allResolved := false } }

def endPass (cfg : BridgeConfig) (pass : Pass) : State :=
  if pass.allResolved then
    let cursor := pass.tip - cfg.minConfirmations
    { x with main := .idle, cursor, handled := fun s => (x.handled s).filter fun blk => cursor ≤ blk }
  else { x with main := .idle }

end State

def nextStage : List Cid → Stage
  | [] => .reversing
  | cid :: candidates => .trying cid candidates

inductive Sent
  | failed
  | landed
  | reverted (resolved : Option Bool)
  deriving DecidableEq

def completeDelivery (x : State) (swapId : SwapId) (cid : Cid) (splice : Outpoint) (prepared : Bool) (sent : Sent) :
    State × Bool :=
  if ¬ prepared then (x, false)
  else if ¬ x.consent splice then (x, true)
  else
    match sent with
    | .failed => (x, false)
    | .landed => (x.record (.submitted swapId cid splice), true)
    | .reverted resolved => (x.record (.submitted swapId cid splice), resolved = some true)

theorem completeDelivery_cases (x swapId cid splice prepared sent) :
    (completeDelivery x swapId cid splice prepared sent).1 = x ∨
      (completeDelivery x swapId cid splice prepared sent).1 = x.record (.submitted swapId cid splice) := by
  unfold completeDelivery
  split
  · left
    rfl
  split
  · left
    rfl
  cases sent with
  | failed =>
    left
    rfl
  | landed | reverted _ =>
    right
    rfl

theorem completeDelivery_eq (x swapId cid splice prepared sent) :
    ∃ log, (completeDelivery x swapId cid splice prepared sent).1 = { x with log } := by
  rcases completeDelivery_cases x swapId cid splice prepared sent with h | h
  · exact ⟨x.log, h⟩
  · exact ⟨_, h⟩

inductive Attempt
  | noChannel
  | refused
  | accepted

inductive Event
  | polled (reqs : List Request) (tip : ℕ)
  | pollFailed
  | scan
  | read (resolved : Option Bool)
  | select (candidates : Option (List Cid))
  | attempt (answer : Attempt)
  | receive
  | senderDropped
  | timeOut
  | reverse (landed : Bool)
  | complete (prepared : Bool) (sent : Sent)
  | spliced (cid : Cid) (splice : Outpoint)
  | ladder (splice : Outpoint) (posted : Bool)
  | taskReceive (i : ℕ)
  | taskDropped (i : ℕ)
  | taskExpired (i : ℕ)
  | taskComplete (i : ℕ) (prepared : Bool) (sent : Sent)

inductive Disabled
  | disabled

def scan (cfg : BridgeConfig) (x : State) (pass : Pass) : State :=
  match pass.rest with
  | [] => x.endPass cfg pass
  | req :: rest =>
    if (x.handled req.swapId).isSome then { x with main := .scanning { pass with rest } }
    else if ¬ evmFinal req.requestBlock pass.tip cfg.minConfirmations then
      { x with main := .scanning { pass with rest, allResolved := false } }
    else x.driving { pass with rest } req .checking

def attempt (x : State) (pass : Pass) (req : Request) (cid : Cid) (candidates : List Cid) : Attempt → State
  | .noChannel => x.driving pass req (nextStage candidates)
  | .refused => ((x.register cid).cancel cid).driving pass req (nextStage candidates)
  | .accepted =>
    ((x.register cid).record (.initiated req.swapId cid)).driving pass req (.waiting cid x.nextToken candidates)

def complete (x : State) (pass : Pass) (req : Request) (cid : Cid) (splice : Outpoint) (prepared : Bool)
    (sent : Sent) : State :=
  let done := completeDelivery x req.swapId cid splice prepared sent
  (if done.2 then done.1 else done.1.record (.halted req.swapId)).endDrive pass req done.2

inductive AtRest : Main → Prop
  | idle : AtRest .idle
  | scanning (pass : Pass) : AtRest (.scanning pass)
  | checking (pass : Pass) (req : Request) : AtRest (.driving pass req .checking)

theorem scan_eq (cfg x pass) :
    ∃ main handled cursor, AtRest main ∧ scan cfg x pass = { x with main, handled, cursor } := by
  unfold scan State.endPass
  split
  · split_ifs
    all_goals exact ⟨_, _, _, .idle, rfl⟩
  · split_ifs
    · exact ⟨_, _, _, .scanning _, rfl⟩
    · exact ⟨_, _, _, .checking _ _, rfl⟩
    · exact ⟨_, _, _, .scanning _, rfl⟩

theorem endDrive_eq (x : State) (pass req ok) :
    ∃ pass' handled, x.endDrive pass req ok = { x with main := .scanning pass', handled } := by
  cases ok with
  | true | false => exact ⟨_, _, rfl⟩

theorem resolve_eq (x : State) (cid splice) : ∃ pending sent, x.resolve cid splice = { x with pending, sent } := by
  unfold State.resolve
  split
  all_goals exact ⟨_, _, rfl⟩

theorem complete_eq (x pass req cid splice prepared sent) : ∃ pass' handled log,
      complete x pass req cid splice prepared sent = { x with main := .scanning pass', handled, log } := by
  obtain ⟨log, hlog⟩ := completeDelivery_eq x req.swapId cid splice prepared sent
  dsimp only [complete]
  rw [hlog]
  split
  · obtain ⟨pass', handled, hend⟩ := endDrive_eq { x with log } pass req _
    exact ⟨pass', handled, log, hend⟩
  · obtain ⟨pass', handled, hend⟩ := endDrive_eq ({ x with log }.record (.halted req.swapId)) pass req _
    exact ⟨pass', handled, _, hend⟩

def step (cfg : BridgeConfig) (x : State) : Event → Except Disabled State
  | .polled reqs tip =>
    match x.main with
    | .idle => .ok { x with main := .scanning ⟨reqs, tip, true⟩, tip }
    | _ => .error .disabled
  | .pollFailed =>
    match x.main with
    | .idle => .ok x
    | _ => .error .disabled
  | .scan =>
    match x.main with
    | .scanning pass => .ok (scan cfg x pass)
    | _ => .error .disabled
  | .read resolved =>
    match x.main with
    | .driving pass req .checking =>
      match resolved with
      | none => .ok (x.endDrive pass req false)
      | some true => .ok (x.endDrive pass req true)
      | some false => .ok (x.driving pass req .selecting)
    | _ => .error .disabled
  | .select candidates =>
    match x.main with
    | .driving pass req .selecting =>
      match candidates with
      | none => .ok (x.endDrive pass req false)
      | some candidates => .ok (x.driving pass req (nextStage candidates))
    | _ => .error .disabled
  | .attempt answer =>
    match x.main with
    | .driving pass req (.trying cid candidates) => .ok (attempt x pass req cid candidates answer)
    | _ => .error .disabled
  | .receive =>
    match x.main with
    | .driving pass req (.waiting cid rx _) =>
      match x.sent rx with
      | some splice => .ok (x.driving pass req (.completing cid splice))
      | none => .error .disabled
    | _ => .error .disabled
  | .senderDropped =>
    match x.main with
    | .driving pass req (.waiting cid rx candidates) =>
      if x.sent rx = none ∧ x.pending cid ≠ some rx then .ok (x.driving pass req (nextStage candidates))
      else .error .disabled
    | _ => .error .disabled
  | .timeOut =>
    match x.main with
    | .driving pass req (.waiting cid rx _) =>
      if x.sent rx = none ∧ x.pending cid = some rx then
        .ok ({ x.record (.halted req.swapId) with
          tasks := .watching req.swapId cid rx :: x.tasks }.endDrive pass req false)
      else .error .disabled
    | _ => .error .disabled
  | .reverse landed =>
    match x.main with
    | .driving pass req .reversing => .ok ((x.record (.reversed req.swapId)).endDrive pass req landed)
    | _ => .error .disabled
  | .complete prepared sent =>
    match x.main with
    | .driving pass req (.completing cid splice) => .ok (complete x pass req cid splice prepared sent)
    | _ => .error .disabled
  | .spliced cid splice => .ok (x.resolve cid splice)
  | .ladder splice posted => .ok { x with consent := update x.consent splice posted }
  | .taskReceive i =>
    match x.tasks[i]? with
    | some (.watching swapId cid rx) =>
      match x.sent rx with
      | some splice => .ok { x with tasks := x.tasks.set i (.completing swapId cid splice) }
      | none => .error .disabled
    | _ => .error .disabled
  | .taskDropped i =>
    match x.tasks[i]? with
    | some (.watching _ cid rx) =>
      if x.sent rx = none ∧ x.pending cid ≠ some rx then .ok { x with tasks := x.tasks.eraseIdx i }
      else .error .disabled
    | _ => .error .disabled
  | .taskExpired i =>
    match x.tasks[i]? with
    | some (.watching _ cid rx) =>
      if x.sent rx = none ∧ x.pending cid = some rx then .ok { x with tasks := x.tasks.eraseIdx i }
      else .error .disabled
    | _ => .error .disabled
  | .taskComplete i prepared sent =>
    match x.tasks[i]? with
    | some (.completing swapId cid splice) =>
      .ok { (completeDelivery x swapId cid splice prepared sent).1 with tasks := x.tasks.eraseIdx i }
    | _ => .error .disabled

inductive Steps (cfg : BridgeConfig) (x : State) : Event → State → Prop
  | polled {reqs tip : _} (hmain : x.main = .idle) :
      Steps cfg x (.polled reqs tip) { x with main := .scanning ⟨reqs, tip, true⟩, tip }
  | pollFailed (hmain : x.main = .idle) : Steps cfg x .pollFailed x
  | scanned {pass : _} (hmain : x.main = .scanning pass) : Steps cfg x .scan (scan cfg x pass)
  | unread {pass req : _} (hmain : x.main = .driving pass req .checking) :
      Steps cfg x (.read none) (x.endDrive pass req false)
  | resolved {pass req : _} (hmain : x.main = .driving pass req .checking) :
      Steps cfg x (.read (some true)) (x.endDrive pass req true)
  | unresolved {pass req : _} (hmain : x.main = .driving pass req .checking) :
      Steps cfg x (.read (some false)) (x.driving pass req .selecting)
  | unselected {pass req : _} (hmain : x.main = .driving pass req .selecting) :
      Steps cfg x (.select none) (x.endDrive pass req false)
  | selected {pass req candidates : _} (hmain : x.main = .driving pass req .selecting) :
      Steps cfg x (.select (some candidates)) (x.driving pass req (nextStage candidates))
  | attempted {pass req cid candidates answer : _} (hmain : x.main = .driving pass req (.trying cid candidates)) :
      Steps cfg x (.attempt answer) (attempt x pass req cid candidates answer)
  | received {pass req cid rx candidates splice : _} (hmain : x.main = .driving pass req (.waiting cid rx candidates))
      (hsent : x.sent rx = some splice) : Steps cfg x .receive (x.driving pass req (.completing cid splice))
  | dropped {pass req cid rx candidates : _} (hmain : x.main = .driving pass req (.waiting cid rx candidates))
      (hsent : x.sent rx = none) (hslot : x.pending cid ≠ some rx) :
      Steps cfg x .senderDropped (x.driving pass req (nextStage candidates))
  | timedOut {pass req cid rx candidates : _} (hmain : x.main = .driving pass req (.waiting cid rx candidates))
      (hsent : x.sent rx = none) (hslot : x.pending cid = some rx) :
      Steps cfg x .timeOut ({ x.record (.halted req.swapId) with
        tasks := .watching req.swapId cid rx :: x.tasks }.endDrive pass req false)
  | reversed {pass req landed : _} (hmain : x.main = .driving pass req .reversing) :
      Steps cfg x (.reverse landed) ((x.record (.reversed req.swapId)).endDrive pass req landed)
  | completed {pass req cid splice prepared sent : _} (hmain : x.main = .driving pass req (.completing cid splice)) :
      Steps cfg x (.complete prepared sent) (complete x pass req cid splice prepared sent)
  | spliced (cid : Cid) (splice : Outpoint) : Steps cfg x (.spliced cid splice) (x.resolve cid splice)
  | ladder (splice : Outpoint) (posted : Bool) :
      Steps cfg x (.ladder splice posted) { x with consent := update x.consent splice posted }
  | taskReceived {i swapId cid rx splice : _} (htask : x.tasks[i]? = some (.watching swapId cid rx))
      (hsent : x.sent rx = some splice) :
      Steps cfg x (.taskReceive i) { x with tasks := x.tasks.set i (.completing swapId cid splice) }
  | taskDropped {i swapId cid rx : _} (htask : x.tasks[i]? = some (.watching swapId cid rx))
      (hsent : x.sent rx = none) : Steps cfg x (.taskDropped i) { x with tasks := x.tasks.eraseIdx i }
  | taskExpired {i swapId cid rx : _} (htask : x.tasks[i]? = some (.watching swapId cid rx))
      (hsent : x.sent rx = none) : Steps cfg x (.taskExpired i) { x with tasks := x.tasks.eraseIdx i }
  | taskCompleted {i swapId cid splice prepared sent : _}
      (htask : x.tasks[i]? = some (.completing swapId cid splice)) : Steps cfg x (.taskComplete i prepared sent)
        { (completeDelivery x swapId cid splice prepared sent).1 with tasks := x.tasks.eraseIdx i }

theorem step_cases {cfg x x' ev} (h : step cfg x ev = .ok x') : Steps cfg x ev x' := by
  cases ev with
  | polled =>
    simp only [step] at h
    split at h
    case h_1 hmain =>
      cases h
      exact .polled hmain
    case h_2 => cases h
  | pollFailed =>
    simp only [step] at h
    split at h
    case h_1 hmain =>
      cases h
      exact .pollFailed hmain
    case h_2 => cases h
  | scan =>
    simp only [step] at h
    split at h
    case h_1 hmain =>
      cases h
      exact .scanned hmain
    case h_2 => cases h
  | read =>
    simp only [step] at h
    split at h
    case h_1 hmain =>
      split at h
      · cases h
        exact .unread hmain
      · cases h
        exact .resolved hmain
      · cases h
        exact .unresolved hmain
    case h_2 => cases h
  | select =>
    simp only [step] at h
    split at h
    case h_1 hmain =>
      split at h
      · cases h
        exact .unselected hmain
      · cases h
        exact .selected hmain
    case h_2 => cases h
  | attempt =>
    simp only [step] at h
    split at h
    case h_1 hmain =>
      cases h
      exact .attempted hmain
    case h_2 => cases h
  | receive =>
    simp only [step] at h
    split at h
    case h_1 hmain =>
      split at h
      case h_1 hsent =>
        cases h
        exact .received hmain hsent
      case h_2 => cases h
    case h_2 => cases h
  | senderDropped =>
    simp only [step] at h
    split at h
    case h_1 hmain =>
      split_ifs at h with hguard
      cases h
      exact .dropped hmain hguard.1 hguard.2
    case h_2 => cases h
  | timeOut =>
    simp only [step] at h
    split at h
    case h_1 hmain =>
      split_ifs at h with hguard
      cases h
      exact .timedOut hmain hguard.1 hguard.2
    case h_2 => cases h
  | reverse =>
    simp only [step] at h
    split at h
    case h_1 hmain =>
      cases h
      exact .reversed hmain
    case h_2 => cases h
  | complete =>
    simp only [step] at h
    split at h
    case h_1 hmain =>
      cases h
      exact .completed hmain
    case h_2 => cases h
  | spliced cid splice =>
    cases h
    exact .spliced cid splice
  | ladder splice posted =>
    cases h
    exact .ladder splice posted
  | taskReceive =>
    simp only [step] at h
    split at h
    case h_1 htask =>
      split at h
      case h_1 hsent =>
        cases h
        exact .taskReceived htask hsent
      case h_2 => cases h
    case h_2 => cases h
  | taskDropped =>
    simp only [step] at h
    split at h
    case h_1 htask =>
      split_ifs at h with hguard
      cases h
      exact .taskDropped htask hguard.1
    case h_2 => cases h
  | taskExpired =>
    simp only [step] at h
    split at h
    case h_1 htask =>
      split_ifs at h with hguard
      cases h
      exact .taskExpired htask hguard.1
    case h_2 => cases h
  | taskComplete =>
    simp only [step] at h
    split at h
    case h_1 htask =>
      cases h
      exact .taskCompleted htask
    case h_2 => cases h

variable {cfg : BridgeConfig} {blockOf : SwapId → ℕ} {x x' y : State} {ev : Event} {s : SwapId}

def Event.poll : Event → Option (List Request × ℕ)
  | .polled reqs tip => some (reqs, tip)
  | _ => none

/-- A swap-out is requested once, at its block, a poll reads the requests from the cursor on, and the tip of the chain
does not go back. -/
def HonestPolls (blockOf : SwapId → ℕ) (x : State) (ev : Event) : Prop :=
  ∀ poll ∈ ev.poll, x.tip ≤ poll.2 ∧ ∀ r ∈ poll.1, x.cursor ≤ r.requestBlock ∧ r.requestBlock = blockOf r.swapId
  deriving Decidable

structure SamePass (x y : State) : Prop where
  main : x.main = y.main
  handled : x.handled = y.handled
  cursor : x.cursor = y.cursor
  tip : x.tip = y.tip

inductive Turn (cfg : BridgeConfig) (x : State) : Event → State → Prop
  | stays {ev x' : _} (h : SamePass x' x) : Turn cfg x ev x'
  | drives {ev x' pass req stage stage' : _} (hmain : x.main = .driving pass req stage)
      (h : SamePass x' (x.driving pass req stage')) : Turn cfg x ev x'
  | ends {ev x' pass req stage ok : _} (hmain : x.main = .driving pass req stage)
      (h : SamePass x' (x.endDrive pass req ok)) : Turn cfg x ev x'
  | polls (reqs : List Request) (tip : ℕ) :
      Turn cfg x (.polled reqs tip) { x with main := .scanning ⟨reqs, tip, true⟩, tip }
  | scans {pass : _} (hmain : x.main = .scanning pass) : Turn cfg x .scan (scan cfg x pass)

theorem SamePass.rfl : SamePass x x := ⟨.refl _, .refl _, .refl _, .refl _⟩

theorem SamePass.trans (hxy : SamePass x y) {z} (hyz : SamePass y z) : SamePass x z :=
  ⟨hxy.main.trans hyz.main, hxy.handled.trans hyz.handled, hxy.cursor.trans hyz.cursor, hxy.tip.trans hyz.tip⟩

theorem endDrive_handled (x : State) (pass : Pass) (req : Request) :
    (x.endDrive pass req true).handled = update x.handled req.swapId (some pass.tip) := rfl

theorem samePass_endDrive (pass req ok) (h : SamePass x y) :
    SamePass (x.endDrive pass req ok) (y.endDrive pass req ok) := by
  cases ok with
  | true =>
    refine ⟨rfl, ?_, h.cursor, h.tip⟩
    rw [endDrive_handled, endDrive_handled, h.handled]
  | false => exact ⟨rfl, h.handled, h.cursor, h.tip⟩

theorem samePass_record (action) : SamePass (x.record action) x := ⟨rfl, rfl, rfl, rfl⟩

theorem samePass_completeDelivery (swapId cid splice prepared sent) :
    SamePass (completeDelivery x swapId cid splice prepared sent).1 x := by
  obtain ⟨log, hlog⟩ := completeDelivery_eq x swapId cid splice prepared sent
  rw [hlog]
  exact ⟨rfl, rfl, rfl, rfl⟩

theorem samePass_tasks (x tasks) : SamePass { x with tasks } x := ⟨rfl, rfl, rfl, rfl⟩

theorem samePass_resolve (cid splice) : SamePass (x.resolve cid splice) x := by
  obtain ⟨pending, sent, h⟩ := resolve_eq x cid splice
  rw [h]
  exact ⟨rfl, rfl, rfl, rfl⟩

theorem samePass_complete (pass req cid splice prepared sent) : SamePass (complete x pass req cid splice prepared sent)
      (x.endDrive pass req (completeDelivery x req.swapId cid splice prepared sent).2) := by
  apply samePass_endDrive
  split
  · exact samePass_completeDelivery ..
  · exact (samePass_record _).trans (samePass_completeDelivery ..)

theorem turn_of_steps (h : Steps cfg x ev x') : Turn cfg x ev x' := by
  cases h with
  | polled => exact .polls _ _
  | pollFailed => exact .stays .rfl
  | scanned hmain => exact .scans hmain
  | unread hmain | resolved hmain | unselected hmain => exact .ends hmain .rfl
  | unresolved hmain | selected hmain | received hmain _ | dropped hmain _ _ => exact .drives hmain .rfl
  | @attempted _ _ _ _ answer hmain =>
    cases answer with
    | noChannel => exact .drives hmain .rfl
    | refused | accepted => exact .drives hmain ⟨rfl, rfl, rfl, rfl⟩
  | @timedOut pass req _ _ _ hmain =>
    exact .ends hmain (samePass_endDrive pass req false ⟨rfl, rfl, rfl, rfl⟩)
  | @reversed pass req landed hmain =>
    exact .ends hmain (samePass_endDrive pass req landed (samePass_record _))
  | completed hmain => exact .ends hmain (samePass_complete ..)
  | spliced cid splice => exact .stays (samePass_resolve cid splice)
  | ladder | taskReceived | taskDropped | taskExpired => exact .stays ⟨rfl, rfl, rfl, rfl⟩
  | taskCompleted => exact .stays ((samePass_tasks _ _).trans (samePass_completeDelivery ..))

def Ahead (blockOf : SwapId → ℕ) (x : State) (req : Request) : Prop :=
  x.cursor ≤ req.requestBlock ∧ req.requestBlock = blockOf req.swapId

def PassTracks (blockOf : SwapId → ℕ) (x : State) (pass : Pass) : Prop :=
  pass.tip = x.tip ∧ ∀ r ∈ pass.rest, Ahead blockOf x r

def MainTracks (blockOf : SwapId → ℕ) (x : State) : Main → Prop
  | .idle => True
  | .scanning pass => PassTracks blockOf x pass
  | .driving pass req _ =>
    PassTracks blockOf x pass ∧ Ahead blockOf x req ∧ x.handled req.swapId = none ∧ req.requestBlock ≤ x.tip

structure Tracks (blockOf : SwapId → ℕ) (x : State) : Prop where
  handled : ∀ s b, x.handled s = some b → blockOf s ≤ b
  main : MainTracks blockOf x x.main

theorem tracks_start (startBlock) : Tracks blockOf (State.start startBlock) := ⟨nofun, trivial⟩

theorem tracks_congr (h : SamePass x' x) (ht : Tracks blockOf x) : Tracks blockOf x' := by
  obtain ⟨hmain, hhandled, hcursor, htip⟩ := h
  constructor
  · rw [hhandled]
    exact ht.handled
  · have hsame : ∀ main, MainTracks blockOf x main → MainTracks blockOf x' main := by
      intro main
      cases main with
      | idle => exact id
      | scanning =>
        unfold MainTracks PassTracks Ahead
        rw [hcursor, htip]
        exact id
      | driving =>
        unfold MainTracks PassTracks Ahead
        rw [hcursor, htip, hhandled]
        exact id
    rw [hmain]
    exact hsame _ ht.main

variable {pass : Pass} {req : Request} {stage : Stage}

theorem tracks_driving (ht : Tracks blockOf x) (hmain : x.main = .driving pass req stage) :
    PassTracks blockOf x pass ∧ Ahead blockOf x req ∧ x.handled req.swapId = none ∧ req.requestBlock ≤ x.tip := by
  have h := ht.main
  rw [hmain] at h
  exact h

theorem tracks_endDrive (ok) (ht : Tracks blockOf x)
    (hmain : x.main = .driving pass req stage) : Tracks blockOf (x.endDrive pass req ok) := by
  obtain ⟨hpass, hreq, -, htip⟩ := tracks_driving ht hmain
  cases ok with
  | false => exact ⟨ht.handled, hpass⟩
  | true =>
    refine ⟨?_, hpass⟩
    intro s b hs
    by_cases heq : s = req.swapId
    · subst heq
      rw [endDrive_handled, update_self] at hs
      rw [← Option.some.inj hs, hpass.1, ← hreq.2]
      exact htip
    · rw [endDrive_handled, update_of_ne heq] at hs
      exact ht.handled s b hs

theorem evmFinal_le {requestBlock tip minConfs} (h : evmFinal requestBlock tip minConfs = true) :
    requestBlock ≤ tip := (of_decide_eq_true h).1

theorem tracks_scan (ht : Tracks blockOf x) (hmain : x.main = .scanning pass) : Tracks blockOf (scan cfg x pass) := by
  have hpass : PassTracks blockOf x pass := by
    have h := ht.main
    rw [hmain] at h
    exact h
  unfold scan
  split
  case h_1 =>
    unfold State.endPass
    split_ifs
    · refine ⟨?_, trivial⟩
      intro s b hs
      obtain ⟨hb, -⟩ := Option.filter_eq_some_iff.mp hs
      exact ht.handled s b hb
    · exact ⟨ht.handled, trivial⟩
  case h_2 req rest hrest =>
    have hreq : Ahead blockOf x req := hpass.2 req (hrest ▸ List.mem_cons_self)
    have hrest' : ∀ r ∈ rest, Ahead blockOf x r := fun r hr => hpass.2 r (hrest ▸ List.mem_cons_of_mem _ hr)
    split_ifs with hhandled hfinal
    · exact ⟨ht.handled, hpass.1, hrest'⟩
    · refine ⟨ht.handled, ⟨hpass.1, hrest'⟩, hreq, Option.not_isSome_iff_eq_none.mp hhandled, ?_⟩
      exact (evmFinal_le hfinal).trans_eq hpass.1
    · exact ⟨ht.handled, hpass.1, hrest'⟩

theorem tracks_step (ht : Tracks blockOf x) (hpolls : HonestPolls blockOf x ev) (h : step cfg x ev = .ok x') :
    Tracks blockOf x' := by
  cases turn_of_steps (step_cases h) with
  | stays hsame => exact tracks_congr hsame ht
  | drives hmain hsame =>
    have hdriven := tracks_driving ht hmain
    exact tracks_congr hsame ⟨ht.handled, hdriven⟩
  | ends hmain hsame => exact tracks_congr hsame (tracks_endDrive _ ht hmain)
  | polls reqs tip => exact ⟨ht.handled, rfl, (hpolls (reqs, tip) rfl).2⟩
  | scans hmain => exact tracks_scan ht hmain

def Done (cfg : BridgeConfig) (blockOf : SwapId → ℕ) (x : State) (s : SwapId) : Prop :=
  (x.handled s).isSome ∨ (blockOf s < x.cursor ∧ x.cursor ≤ x.tip - cfg.minConfirmations)

theorem done_congr (h : SamePass x' x) (hd : Done cfg blockOf x s) : Done cfg blockOf x' s := by
  obtain ⟨-, hhandled, hcursor, htip⟩ := h
  unfold Done
  rw [hhandled, hcursor, htip]
  exact hd

theorem done_endDrive (pass req ok) (hd : Done cfg blockOf x s) : Done cfg blockOf (x.endDrive pass req ok) s := by
  cases ok with
  | false => exact hd
  | true =>
    apply hd.imp_left
    intro hs
    rw [endDrive_handled]
    by_cases heq : s = req.swapId
    · rw [heq, update_self]
      rfl
    · rw [update_of_ne heq]
      exact hs

theorem done_of_endDrive (pass) (req : Request) : Done cfg blockOf (x.endDrive pass req true) req.swapId := by
  left
  rw [endDrive_handled, update_self]
  rfl

theorem done_endPass (ht : Tracks blockOf x) (htip : pass.tip = x.tip) (hd : Done cfg blockOf x s) :
    Done cfg blockOf (x.endPass cfg pass) s := by
  unfold State.endPass
  split_ifs
  case neg => exact hd
  case pos =>
    have hcursor : pass.tip - cfg.minConfirmations = x.tip - cfg.minConfirmations := by rw [htip]
    rcases hd with hs | ⟨hblock, hle⟩
    · obtain ⟨b, hb⟩ := Option.isSome_iff_exists.mp hs
      have hblock := ht.handled s b hb
      by_cases hkept : pass.tip - cfg.minConfirmations ≤ b
      · left
        change ((x.handled s).filter _).isSome
        rw [hb, Option.filter_some, if_pos (decide_eq_true hkept)]
        rfl
      · right
        exact ⟨lt_of_le_of_lt hblock (not_le.mp hkept), hcursor.le⟩
    · right
      exact ⟨lt_of_lt_of_le hblock (hle.trans hcursor.ge), hcursor.le⟩

theorem done_scan (ht : Tracks blockOf x) (hmain : x.main = .scanning pass)
    (hd : Done cfg blockOf x s) : Done cfg blockOf (scan cfg x pass) s := by
  have htip : pass.tip = x.tip := by
    have h := ht.main
    rw [hmain] at h
    exact h.1
  unfold scan
  split
  case h_1 => exact done_endPass ht htip hd
  case h_2 =>
    split_ifs
    all_goals exact hd

theorem done_step (ht : Tracks blockOf x) (hpolls : HonestPolls blockOf x ev) (h : step cfg x ev = .ok x')
    (hd : Done cfg blockOf x s) : Done cfg blockOf x' s := by
  cases turn_of_steps (step_cases h) with
  | stays hsame | drives _ hsame => exact done_congr hsame hd
  | ends _ hsame => exact done_congr hsame (done_endDrive _ _ _ hd)
  | polls reqs tip =>
    have htip : x.tip ≤ tip := (hpolls (reqs, tip) rfl).1
    exact hd.imp_right fun hblock => ⟨hblock.1, hblock.2.trans (Nat.sub_le_sub_right htip _)⟩
  | scans hmain => exact done_scan ht hmain hd

theorem driving_not_done (ht : Tracks blockOf x)
    (hmain : x.main = .driving pass req stage) : ¬ Done cfg blockOf x req.swapId := by
  obtain ⟨-, hreq, hhandled, -⟩ := tracks_driving ht hmain
  rintro (hs | ⟨hblock, -⟩)
  · rw [hhandled] at hs
    cases hs
  · rw [← hreq.2] at hblock
    exact absurd hreq.1 (not_le.mpr hblock)

end QuidProtocol.Watcher
