import QuidProtocol.Watcher.Once

/-!
From the lock of a delivery splice to `deliverSwapOutOnchain`.
-/

namespace QuidProtocol.Watcher

open Lib Function

variable {cfg : BridgeConfig} {blockOf : SwapId → ℕ} {x x' : State} {ev : Event} {s : SwapId} {cid : Cid}
  {rx : Token} {splice : Outpoint} {w : Task}

def Task.swapId : Task → SwapId
  | .watching s _ _ => s
  | .completing s _ _ => s

def Main.task : Main → Option Task
  | .driving _ req (.waiting cid rx _) => some (.watching req.swapId cid rx)
  | .driving _ req (.completing cid splice) => some (.completing req.swapId cid splice)
  | _ => none

def Performs (x : State) (w : Task) : Prop := x.main.task = some w ∨ w ∈ x.tasks

inductive Shift (x : State) : Event → State → Prop
  | stays {ev x' : _} (hmain : x'.main.task = x.main.task) (htasks : x'.tasks = x.tasks)
      (hlog : x'.log = x.log) : Shift x ev x'
  | reverses {ev x' s : _} (hfrom : x.main.task = none) (hto : x'.main.task = none)
      (htasks : x'.tasks = x.tasks) (hlog : x'.log = .reversed s :: x.log) : Shift x ev x'
  | initiates {ev x' s cid rx : _} (hfrom : x.main.task = none) (hto : x'.main.task = some (.watching s cid rx))
      (htasks : x'.tasks = x.tasks) (hlog : x'.log = .initiated s cid :: x.log) : Shift x ev x'
  | receives {ev x' s cid rx splice : _} (hfrom : x.main.task = some (.watching s cid rx))
      (hsent : x.sent rx = some splice) (hto : x'.main.task = some (.completing s cid splice))
      (htasks : x'.tasks = x.tasks) (hlog : x'.log = x.log) : Shift x ev x'
  | drops {ev x' s cid rx : _} (hfrom : x.main.task = some (.watching s cid rx)) (hsent : x.sent rx = none)
      (hto : x'.main.task = none) (htasks : x'.tasks = x.tasks) (hlog : x'.log = x.log) : Shift x ev x'
  | halts {ev x' s cid rx : _} (hfrom : x.main.task = some (.watching s cid rx)) (hsent : x.sent rx = none)
      (hto : x'.main.task = none) (htasks : x'.tasks = .watching s cid rx :: x.tasks)
      (hlog : x'.log = .halted s :: x.log) : Shift x ev x'
  | completes {x' s cid splice prepared sent : _} (hfrom : x.main.task = some (.completing s cid splice))
      (hto : x'.main.task = none) (htasks : x'.tasks = x.tasks)
      (hlog : x'.log = (completeDelivery x s cid splice prepared sent).1.log ∨
        x'.log = .halted s :: (completeDelivery x s cid splice prepared sent).1.log) :
      Shift x (.complete prepared sent) x'
  | taskReceives {ev x' i s cid rx splice : _} (htask : x.tasks[i]? = some (.watching s cid rx))
      (hsent : x.sent rx = some splice) (hmain : x'.main.task = x.main.task)
      (htasks : x'.tasks = x.tasks.set i (.completing s cid splice)) (hlog : x'.log = x.log) : Shift x ev x'
  | taskEnds {ev x' i s cid rx : _} (htask : x.tasks[i]? = some (.watching s cid rx)) (hsent : x.sent rx = none)
      (hmain : x'.main.task = x.main.task) (htasks : x'.tasks = x.tasks.eraseIdx i) (hlog : x'.log = x.log) :
      Shift x ev x'
  | taskCompletes {x' i s cid splice prepared sent : _} (htask : x.tasks[i]? = some (.completing s cid splice))
      (hmain : x'.main.task = x.main.task) (htasks : x'.tasks = x.tasks.eraseIdx i)
      (hlog : x'.log = (completeDelivery x s cid splice prepared sent).1.log) :
      Shift x (.taskComplete i prepared sent) x'

theorem nextStage_task (pass req candidates) : (Main.driving pass req (nextStage candidates)).task = none := by
  cases candidates <;> rfl

theorem endDrive_task (x : State) (pass req ok) : (x.endDrive pass req ok).main.task = none := by
  obtain ⟨pass', handled, h⟩ := endDrive_eq x pass req ok
  rw [h]
  rfl

theorem endDrive_tasks (x : State) (pass req ok) : (x.endDrive pass req ok).tasks = x.tasks := by
  obtain ⟨pass', handled, h⟩ := endDrive_eq x pass req ok
  rw [h]

theorem scan_task (cfg x pass) : (scan cfg x pass).main.task = none := by
  obtain ⟨main, handled, cursor, hrest, h⟩ := scan_eq cfg x pass
  rw [h]
  cases hrest <;> rfl

theorem scan_tasks (cfg x pass) : (scan cfg x pass).tasks = x.tasks := by
  obtain ⟨main, handled, cursor, -, h⟩ := scan_eq cfg x pass
  rw [h]

theorem resolve_tasks (x : State) (cid splice) : (x.resolve cid splice).tasks = x.tasks := by
  obtain ⟨pending, sent, h⟩ := resolve_eq x cid splice
  rw [h]

theorem complete_log (x pass req cid splice prepared sent) : (complete x pass req cid splice prepared sent).log =
        (completeDelivery x req.swapId cid splice prepared sent).1.log ∨
      (complete x pass req cid splice prepared sent).log =
        .halted req.swapId :: (completeDelivery x req.swapId cid splice prepared sent).1.log := by
  unfold complete
  rw [endDrive_log]
  split
  · left
    rfl
  · right
    rfl

theorem complete_tasks (x pass req cid splice prepared sent) :
    (complete x pass req cid splice prepared sent).tasks = x.tasks := by
  obtain ⟨pass', handled, log, h⟩ := complete_eq x pass req cid splice prepared sent
  rw [h]

theorem shift_of_steps (h : Steps cfg x ev x') : Shift x ev x' := by
  cases h with
  | polled hmain | unread hmain | resolved hmain | unresolved hmain | unselected hmain =>
    exact .stays (by rw [hmain]; rfl) rfl rfl
  | pollFailed | ladder => exact .stays rfl rfl rfl
  | scanned hmain =>
    apply Shift.stays
    · rw [hmain]
      exact scan_task ..
    · exact scan_tasks ..
    · exact scan_log ..
  | selected hmain =>
    refine .stays ?_ rfl rfl
    rw [hmain]
    exact nextStage_task ..
  | @attempted _ _ _ _ answer hmain =>
    have hfrom : x.main.task = none := by rw [hmain]; rfl
    cases answer with
    | noChannel | refused => exact .stays ((nextStage_task ..).trans hfrom.symm) rfl rfl
    | accepted => exact .initiates hfrom rfl rfl rfl
  | received hmain hsent => exact .receives (by rw [hmain]; rfl) hsent rfl rfl rfl
  | dropped hmain hsent => exact .drops (by rw [hmain]; rfl) hsent (nextStage_task ..) rfl rfl
  | timedOut hmain hsent => exact .halts (by rw [hmain]; rfl) hsent rfl rfl rfl
  | reversed hmain => exact .reverses (by rw [hmain]; rfl) (endDrive_task ..) (endDrive_tasks ..) (endDrive_log ..)
  | completed hmain =>
    exact .completes (by rw [hmain]; rfl) (endDrive_task ..) (complete_tasks ..) (complete_log ..)
  | spliced =>
    exact .stays (congrArg Main.task (samePass_resolve ..).main) (resolve_tasks ..) (resolve_log ..)
  | taskReceived htask hsent => exact .taskReceives htask hsent rfl rfl rfl
  | taskDropped htask hsent | taskExpired htask hsent => exact .taskEnds htask hsent rfl rfl rfl
  | taskCompleted htask =>
    exact .taskCompletes htask (congrArg Main.task (samePass_completeDelivery ..).main) rfl rfl

theorem completeDelivery_submits {prepared sent} (hprepared : prepared = true)
    (hladder : x.consent splice = true) (hsent : sent ≠ .failed) :
    .submitted s cid splice ∈ (completeDelivery x s cid splice prepared sent).1.log := by
  unfold completeDelivery
  rw [if_neg (not_not.mpr hprepared), if_neg (not_not.mpr hladder)]
  cases sent with
  | failed => exact absurd rfl hsent
  | landed | reverted _ => exact List.mem_cons_self

theorem submitted_of_completeDelivery {s₁ cid₁ splice₁ prepared sent}
    (h : .submitted s cid splice ∈ (completeDelivery x s₁ cid₁ splice₁ prepared sent).1.log) :
    .submitted s cid splice ∈ x.log ∨ Task.completing s cid splice = .completing s₁ cid₁ splice₁ := by
  rcases completeDelivery_cases x s₁ cid₁ splice₁ prepared sent with heq | heq
  · rw [heq] at h
    exact .inl h
  · rw [heq] at h
    rcases List.mem_cons.mp h with hnew | hold
    · right
      cases hnew
      rfl
    · exact .inl hold

theorem log_of_shift {a} (h : Shift x ev x') (ha : a ∈ x.log) : a ∈ x'.log := by
  cases h with
  | stays _ _ hlog | receives _ _ _ _ hlog | drops _ _ _ _ hlog | taskReceives _ _ _ _ hlog
  | taskEnds _ _ _ _ hlog => exact hlog ▸ ha
  | reverses _ _ _ hlog | initiates _ _ _ hlog | halts _ _ _ _ hlog => exact hlog ▸ List.mem_cons_of_mem _ ha
  | @completes _ s cid splice prepared sent _ _ _ hlog =>
    have hkept := (completeDelivery_quiet x s cid splice prepared sent).keeps ha
    rcases hlog with hlog | hlog
    · exact hlog ▸ hkept
    · exact hlog ▸ List.mem_cons_of_mem _ hkept
  | taskCompletes _ _ _ hlog => exact hlog ▸ (completeDelivery_quiet ..).keeps ha

theorem submitted_of_shift (h : Shift x ev x') (ha : .submitted s cid splice ∈ x'.log) :
    .submitted s cid splice ∈ x.log ∨ Performs x (.completing s cid splice) := by
  have hcons : ∀ b : Action, b ≠ .submitted s cid splice → .submitted s cid splice ∈ b :: x.log →
      .submitted s cid splice ∈ x.log := by
    intro b hb hmem
    exact (List.mem_cons.mp hmem).resolve_left hb.symm
  cases h with
  | stays _ _ hlog | receives _ _ _ _ hlog | drops _ _ _ _ hlog | taskReceives _ _ _ _ hlog
  | taskEnds _ _ _ _ hlog => exact .inl (hlog ▸ ha)
  | reverses _ _ _ hlog | initiates _ _ _ hlog | halts _ _ _ _ hlog => exact .inl (hcons _ (by simp) (hlog ▸ ha))
  | @completes _ s₁ cid₁ splice₁ prepared sent hfrom _ _ hlog =>
    have hmem : .submitted s cid splice ∈ (completeDelivery x s₁ cid₁ splice₁ prepared sent).1.log := by
      rcases hlog with hlog | hlog
      · exact hlog ▸ ha
      · exact (List.mem_cons.mp (hlog ▸ ha)).resolve_left (by simp)
    apply (submitted_of_completeDelivery hmem).imp_right
    intro heq
    exact .inl (heq ▸ hfrom)
  | taskCompletes htask _ _ hlog =>
    apply (submitted_of_completeDelivery (hlog ▸ ha)).imp_right
    intro heq
    exact .inr (heq ▸ List.mem_of_getElem? htask)

theorem completing_of_shift (h : Shift x ev x') (hw : Performs x' (.completing s cid splice)) :
    Performs x (.completing s cid splice) ∨ ∃ rx, x.sent rx = some splice := by
  -- The steps after which there are only tasks that there were before.
  have hold : (x'.main.task = some (.completing s cid splice) → x.main.task = some (.completing s cid splice)) →
      (Task.completing s cid splice ∈ x'.tasks → Task.completing s cid splice ∈ x.tasks) →
      Performs x (.completing s cid splice) ∨ ∃ rx, x.sent rx = some splice :=
    fun hmain htasks => .inl (hw.imp hmain htasks)
  cases h with
  | stays hmain htasks => exact hold (hmain ▸ id) (htasks ▸ id)
  | reverses _ hto htasks _ | initiates _ hto htasks _ | drops _ _ hto htasks _ | completes _ hto htasks _ =>
    exact hold (by simp [hto]) (htasks ▸ id)
  | receives _ hsent hto htasks =>
    rcases hw with hmain | htask
    · rw [hto] at hmain
      cases hmain
      exact .inr ⟨_, hsent⟩
    · exact .inl (.inr (htasks ▸ htask))
  | halts _ _ hto htasks =>
    apply hold (by simp [hto])
    intro hmem
    rw [htasks] at hmem
    exact (List.mem_cons.mp hmem).resolve_left (by simp)
  | taskReceives _ hsent hmain htasks =>
    rcases hw with hw | hmem
    · exact .inl (.inl (hmain ▸ hw))
    · rw [htasks] at hmem
      rcases List.mem_or_eq_of_mem_set hmem with hmem | heq
      · exact .inl (.inr hmem)
      · cases heq
        exact .inr ⟨_, hsent⟩
  | taskEnds _ _ hmain htasks | taskCompletes _ hmain htasks =>
    exact hold (hmain ▸ id) (htasks ▸ List.mem_of_mem_eraseIdx)

theorem swapId_of_shift (h : Shift x ev x') (hw : w ∈ x'.tasks) : ∃ w₀, Performs x w₀ ∧ w₀.swapId = w.swapId := by
  have hold : w ∈ x.tasks → ∃ w₀, Performs x w₀ ∧ w₀.swapId = w.swapId := fun hmem => ⟨w, .inr hmem, rfl⟩
  cases h with
  | stays _ htasks _ | reverses _ _ htasks _ | initiates _ _ htasks _ | receives _ _ _ htasks _
  | drops _ _ _ htasks _ | completes _ _ htasks _ => exact hold (htasks ▸ hw)
  | halts hfrom _ _ htasks =>
    rw [htasks] at hw
    rcases List.mem_cons.mp hw with heq | hmem
    · rw [heq]
      exact ⟨_, .inl hfrom, rfl⟩
    · exact hold hmem
  | taskReceives htask _ _ htasks =>
    rw [htasks] at hw
    rcases List.mem_or_eq_of_mem_set hw with hmem | heq
    · exact hold hmem
    · rw [heq]
      exact ⟨_, .inr (List.mem_of_getElem? htask), rfl⟩
  | taskEnds _ _ _ htasks _ | taskCompletes _ _ htasks _ =>
    exact hold (List.mem_of_mem_eraseIdx (htasks ▸ hw))

def completion (x : State) : Event → Option (Task × Bool × Sent)
  | .complete prepared sent => x.main.task.map (·, prepared, sent)
  | .taskComplete i prepared sent => x.tasks[i]?.map (·, prepared, sent)
  | _ => none

def Completes (s : SwapId) (cid : Cid) (splice : Outpoint) (x : State) (ev : Event) : Prop :=
  ∀ c ∈ completion x ev, c.1 = .completing s cid splice → c.2.1 = true ∧ x.consent splice = true ∧ c.2.2 ≠ .failed
  deriving Decidable

theorem mem_eraseIdx_of_ne {α : Type*} {as : List α} {i a b} (hi : as[i]? = some b) (hne : a ≠ b)
    (ha : a ∈ as) : a ∈ as.eraseIdx i := by
  obtain ⟨j, hj⟩ := List.mem_iff_getElem?.mp ha
  apply List.mem_eraseIdx_iff_getElem?.mpr
  refine ⟨j, ?_, hj⟩
  rintro rfl
  exact hne (Option.mem_unique hj hi)

theorem mem_set_of_ne {α : Type*} {as : List α} {i a b c} (hi : as[i]? = some b) (hne : a ≠ b)
    (ha : a ∈ as) : a ∈ as.set i c := by
  obtain ⟨j, hj⟩ := List.mem_iff_getElem?.mp ha
  apply List.mem_iff_getElem?.mpr
  refine ⟨j, ?_⟩
  rw [List.getElem?_set_ne ?_, hj]
  rintro rfl
  exact hne (Option.mem_unique hj hi)

inductive Fate (x : State) (ev : Event) (x' : State) : Task → Prop
  | stays {w : _} (h : Performs x' w) : Fate x ev x' w
  | receives {s cid rx splice : _} (hsent : x.sent rx = some splice)
      (h : Performs x' (.completing s cid splice)) : Fate x ev x' (.watching s cid rx)
  | ends {s cid rx : _} (hsent : x.sent rx = none) : Fate x ev x' (.watching s cid rx)
  | completes {s cid splice prepared sent : _}
      (hanswer : (.completing s cid splice, prepared, sent) ∈ completion x ev)
      (hlog : ∀ a ∈ (completeDelivery x s cid splice prepared sent).1.log, a ∈ x'.log) :
      Fate x ev x' (.completing s cid splice)

theorem fate_of_shift (h : Shift x ev x') (hw : Performs x w) : Fate x ev x' w := by
  have hnone : x.main.task = none → w ∈ x.tasks := by
    intro hmain
    rw [Performs, hmain] at hw
    exact hw.resolve_left (by simp)
  cases h with
  | stays hmain htasks => exact .stays (hw.imp hmain.trans (htasks ▸ id))
  | reverses hfrom _ htasks _ | initiates hfrom _ htasks _ => exact .stays (.inr (htasks ▸ hnone hfrom))
  | receives hfrom hsent hto htasks =>
    rcases hw with hmain | hmem
    · cases hfrom.symm.trans hmain
      exact .receives hsent (.inl hto)
    · exact .stays (.inr (htasks ▸ hmem))
  | drops hfrom hsent _ htasks =>
    rcases hw with hmain | hmem
    · cases hfrom.symm.trans hmain
      exact .ends hsent
    · exact .stays (.inr (htasks ▸ hmem))
  | halts hfrom _ _ htasks =>
    rcases hw with hmain | hmem
    · cases hfrom.symm.trans hmain
      exact .stays (.inr (htasks ▸ List.mem_cons_self))
    · exact .stays (.inr (htasks ▸ List.mem_cons_of_mem _ hmem))
  | @completes _ s cid splice prepared sent hfrom _ htasks hlog =>
    have hanswer : (.completing s cid splice, prepared, sent) ∈ completion x (.complete prepared sent) := by
      rw [completion, hfrom]
      rfl
    rcases hw with hmain | hmem
    · cases hfrom.symm.trans hmain
      refine .completes hanswer fun a ha => ?_
      rcases hlog with hlog | hlog
      · exact hlog ▸ ha
      · exact hlog ▸ List.mem_cons_of_mem _ ha
    · exact .stays (.inr (htasks ▸ hmem))
  | @taskReceives _ _ i s cid rx _ htask hsent hmain htasks =>
    by_cases heq : w = .watching s cid rx
    · subst heq
      have hi : i < x.tasks.length := (List.getElem?_eq_some_iff.mp htask).1
      exact .receives hsent (.inr (htasks ▸ List.mem_set hi _))
    · exact .stays (hw.imp hmain.trans (htasks ▸ mem_set_of_ne htask heq))
  | @taskEnds _ _ _ s cid rx htask hsent hmain htasks =>
    by_cases heq : w = .watching s cid rx
    · subst heq
      exact .ends hsent
    · exact .stays (hw.imp hmain.trans (htasks ▸ mem_eraseIdx_of_ne htask heq))
  | @taskCompletes _ i s cid splice prepared sent htask hmain htasks hlog =>
    have hanswer : (.completing s cid splice, prepared, sent) ∈ completion x (.taskComplete i prepared sent) := by
      rw [completion, htask]
      rfl
    by_cases heq : w = .completing s cid splice
    · subst heq
      exact .completes hanswer fun a ha => hlog ▸ ha
    · exact .stays (hw.imp hmain.trans (htasks ▸ mem_eraseIdx_of_ne htask heq))

structure SameSlots (x y : State) : Prop where
  pending : x.pending = y.pending
  sent : x.sent = y.sent
  nextToken : x.nextToken = y.nextToken

inductive SlotMove (x : State) : Event → State → Prop
  | stays {ev x' : _} (h : SameSlots x' x) : SlotMove x ev x'
  | registers {ev x' cid : _} (h : SameSlots x' (x.register cid)) : SlotMove x ev x'
  | cancels {ev x' : _} (cid : Cid) (h : SameSlots x' ((x.register cid).cancel cid)) : SlotMove x ev x'
  | resolves (cid : Cid) (splice : Outpoint) : SlotMove x (.spliced cid splice) (x.resolve cid splice)

theorem slotMove_of_steps (h : Steps cfg x ev x') : SlotMove x ev x' := by
  cases h with
  | polled | pollFailed | unread | resolved | unresolved | unselected | selected | received | dropped | timedOut
  | ladder | taskReceived | taskDropped | taskExpired => exact .stays ⟨rfl, rfl, rfl⟩
  | @scanned pass =>
    obtain ⟨main, handled, cursor, -, hscan⟩ := scan_eq cfg x pass
    rw [hscan]
    exact .stays ⟨rfl, rfl, rfl⟩
  | @attempted _ _ cid _ answer =>
    cases answer with
    | noChannel => exact .stays ⟨rfl, rfl, rfl⟩
    | refused => exact .cancels cid ⟨rfl, rfl, rfl⟩
    | accepted => exact .registers ⟨rfl, rfl, rfl⟩
  | @reversed pass req landed =>
    obtain ⟨pass', handled, hend⟩ := endDrive_eq (x.record (.reversed req.swapId)) pass req landed
    rw [hend]
    exact .stays ⟨rfl, rfl, rfl⟩
  | @completed pass req cid splice prepared sent =>
    obtain ⟨pass', handled, log, hcomplete⟩ := complete_eq x pass req cid splice prepared sent
    rw [hcomplete]
    exact .stays ⟨rfl, rfl, rfl⟩
  | spliced cid splice => exact .resolves cid splice
  | @taskCompleted _ swapId cid splice prepared sent =>
    obtain ⟨log, hlog⟩ := completeDelivery_eq x swapId cid splice prepared sent
    rw [hlog]
    exact .stays ⟨rfl, rfl, rfl⟩

theorem resolve_pending (x : State) (cid splice) : (x.resolve cid splice).pending = update x.pending cid none := by
  unfold State.resolve
  split
  · rfl
  case h_2 hnone =>
    rw [← hnone]
    exact (update_eq_self cid x.pending).symm

theorem resolve_nextToken (x : State) (cid splice) : (x.resolve cid splice).nextToken = x.nextToken := by
  obtain ⟨pending, sent, h⟩ := resolve_eq x cid splice
  rw [h]

theorem resolve_sent (h : x.pending cid = some rx) : (x.resolve cid splice).sent rx = some splice := by
  unfold State.resolve
  rw [h]
  exact update_self ..

theorem resolve_sent_of_ne (h : x.pending cid ≠ some rx) : (x.resolve cid splice).sent rx = x.sent rx := by
  unfold State.resolve
  split
  case h_1 tx htx =>
    apply update_of_ne
    rintro rfl
    exact h htx
  case h_2 => rfl

theorem pending_of_update {pending cid₁}
    (h : update pending cid none cid₁ = some rx) : cid₁ ≠ cid ∧ pending cid₁ = some rx := by
  by_cases heq : cid₁ = cid
  · rw [heq, update_self] at h
    cases h
  · rw [update_of_ne heq] at h
    exact ⟨heq, h⟩

structure Slots (x : State) : Prop where
  below : ∀ cid rx, x.pending cid = some rx → rx < x.nextToken
  distinct : ∀ cid cid' rx, x.pending cid = some rx → x.pending cid' = some rx → cid = cid'

theorem Slots.of_pending (h : Slots x) (hpending : ∀ cid rx, x'.pending cid = some rx → x.pending cid = some rx)
    (hnext : x.nextToken ≤ x'.nextToken) : Slots x' where
  below cid rx hrx := (h.below cid rx (hpending cid rx hrx)).trans_le hnext
  distinct cid cid' rx hrx hrx' := h.distinct cid cid' rx (hpending cid rx hrx) (hpending cid' rx hrx')

theorem slots_register (h : Slots x) (cid : Cid) : Slots (x.register cid) := by
  -- The new sender is in no slot yet.
  have hcases : ∀ cid₁ rx, (x.register cid).pending cid₁ = some rx →
      (cid₁ = cid ∧ rx = x.nextToken) ∨ (x.pending cid₁ = some rx ∧ rx < x.nextToken) := by
    intro cid₁ rx hrx
    by_cases heq : cid₁ = cid
    · subst heq
      left
      have hself : some x.nextToken = some rx := (update_self cid₁ _ x.pending).symm.trans hrx
      exact ⟨rfl, (Option.some.inj hself).symm⟩
    · right
      have hrx' : x.pending cid₁ = some rx := (update_of_ne heq _ x.pending).symm.trans hrx
      exact ⟨hrx', h.below cid₁ rx hrx'⟩
  constructor
  · intro cid₁ rx hrx
    rcases hcases cid₁ rx hrx with ⟨-, rfl⟩ | ⟨-, hlt⟩
    · exact Nat.lt_succ_self _
    · exact Nat.lt_succ_of_lt hlt
  · intro cid₁ cid₂ rx h₁ h₂
    rcases hcases cid₁ rx h₁ with ⟨rfl, rfl⟩ | ⟨hold₁, hlt₁⟩
    · rcases hcases cid₂ _ h₂ with ⟨rfl, -⟩ | ⟨-, hlt₂⟩
      · rfl
      · exact absurd hlt₂ (lt_irrefl _)
    · rcases hcases cid₂ rx h₂ with ⟨-, rfl⟩ | ⟨hold₂, -⟩
      · exact absurd hlt₁ (lt_irrefl _)
      · exact h.distinct cid₁ cid₂ rx hold₁ hold₂

theorem slots_step (h : SlotMove x ev x') (hx : Slots x) : Slots x' := by
  cases h with
  | stays h => exact hx.of_pending (h.pending ▸ fun _ _ => id) h.nextToken.ge
  | registers h => exact (slots_register hx _).of_pending (h.pending ▸ fun _ _ => id) h.nextToken.ge
  | cancels cid h =>
    apply (slots_register hx cid).of_pending ?_ h.nextToken.ge
    rw [h.pending]
    exact fun _ _ hrx => (pending_of_update hrx).2
  | resolves =>
    apply hx.of_pending ?_ (resolve_nextToken ..).ge
    rw [resolve_pending]
    exact fun _ _ hrx => (pending_of_update hrx).2

theorem reachable_slots {startBlock run} (hrun : runAll (step cfg) (State.start startBlock) run = .ok x) : Slots x := by
  have hstart : Slots (State.start startBlock) := by
    constructor
    · intro cid rx h
      cases h
    · intro cid cid' rx h
      cases h
  apply runAll_invariant ?_ hstart (everyStep_trivial _ _) hrun
  intro y ev y' hy _ hstep
  exact slots_step (slotMove_of_steps (step_cases hstep)) hy

def Spent (x : State) (rx : Token) : Prop := rx < x.nextToken ∧ ∀ cid, x.pending cid ≠ some rx

theorem spent_resolve (hx : Slots x) (hslot : x.pending cid = some rx) : Spent (x.resolve cid splice) rx := by
  constructor
  · rw [resolve_nextToken]
    exact hx.below cid rx hslot
  · intro cid₁ hrx
    rw [resolve_pending] at hrx
    obtain ⟨hne, hrx⟩ := pending_of_update hrx
    exact hne (hx.distinct cid₁ cid rx hrx hslot)

theorem spent_register (h : Spent x rx) (cid : Cid) : Spent (x.register cid) rx := by
  refine ⟨Nat.lt_succ_of_lt h.1, ?_⟩
  intro cid₁
  change update x.pending cid (some x.nextToken) cid₁ ≠ some rx
  by_cases heq : cid₁ = cid
  · rw [heq, update_self]
    exact fun hrx => h.1.ne' (Option.some.inj hrx)
  · rw [update_of_ne heq]
    exact h.2 cid₁

theorem spent_step (h : SlotMove x ev x') (hx : Spent x rx) : Spent x' rx ∧ x'.sent rx = x.sent rx := by
  cases h with
  | stays h =>
    unfold Spent
    rw [h.pending, h.nextToken, h.sent]
    exact ⟨hx, rfl⟩
  | registers h =>
    unfold Spent
    rw [h.pending, h.nextToken, h.sent]
    exact ⟨spent_register hx _, rfl⟩
  | cancels cid h =>
    unfold Spent
    rw [h.pending, h.nextToken, h.sent]
    exact ⟨⟨(spent_register hx cid).1, fun cid₁ hrx => (spent_register hx cid).2 cid₁ (pending_of_update hrx).2⟩, rfl⟩
  | resolves cid =>
    unfold Spent
    rw [resolve_pending, resolve_nextToken, resolve_sent_of_ne (hx.2 cid)]
    exact ⟨⟨hx.1, fun cid₁ hrx => hx.2 cid₁ (pending_of_update hrx).2⟩, rfl⟩

structure Routed (x : State) (s : SwapId) (cid : Cid) (rx : Token) (splice : Outpoint) : Prop where
  spent : Spent x rx
  sent : x.sent rx = some splice
  performs : Performs x (.watching s cid rx) ∨ Performs x (.completing s cid splice)

theorem routed_step (h : step cfg x ev = .ok x') (hx : Routed x s cid rx splice) (hev : Completes s cid splice x ev) :
    .submitted s cid splice ∈ x'.log ∨ Routed x' s cid rx splice := by
  have hshift := shift_of_steps (step_cases h)
  obtain ⟨hspent, hsent⟩ := spent_step (slotMove_of_steps (step_cases h)) hx.spent
  rw [hx.sent] at hsent
  rcases hx.performs with hw | hw
  · right
    refine ⟨hspent, hsent, ?_⟩
    cases fate_of_shift hshift hw with
    | stays hw' => exact .inl hw'
    | receives hsent₁ hw' =>
      cases hsent₁.symm.trans hx.sent
      exact .inr hw'
    | ends hnone => cases hnone.symm.trans hx.sent
  · cases fate_of_shift hshift hw with
    | stays hw' => exact .inr ⟨hspent, hsent, .inr hw'⟩
    | completes hanswer hlog =>
      left
      obtain ⟨hprepared, hladder, hsends⟩ := hev _ hanswer rfl
      exact hlog _ (completeDelivery_submits hprepared hladder hsends)

theorem main_of_watching {main : Main} (h : main.task = some (.watching s cid rx)) :
    ∃ pass req candidates, main = .driving pass req (.waiting cid rx candidates) ∧ req.swapId = s := by
  unfold Main.task at h
  split at h
  case h_1 pass req cid₁ rx₁ candidates =>
    cases h
    exact ⟨pass, req, candidates, rfl, rfl⟩
  case h_2 => cases h
  case h_3 => cases h

theorem main_of_completing {main : Main} (h : main.task = some (.completing s cid splice)) :
    ∃ pass req, main = .driving pass req (.completing cid splice) ∧ req.swapId = s := by
  unfold Main.task at h
  split at h
  case h_1 => cases h
  case h_2 pass req cid₁ splice₁ =>
    cases h
    exact ⟨pass, req, rfl, rfl⟩
  case h_3 => cases h

def Event.delivers : Event → Bool
  | .receive => true
  | .complete _ _ => true
  | .taskReceive _ => true
  | .taskComplete _ _ _ => true
  | _ => false

theorem receives_of_watching (cfg) (hw : Performs x (.watching s cid rx)) (hsent : x.sent rx = some splice) :
    ∃ ev x', ev.delivers = true ∧ step cfg x ev = .ok x' ∧ Performs x' (.completing s cid splice) ∧
      x'.consent = x.consent := by
  rcases hw with hmain | hmem
  · obtain ⟨pass, req, candidates, hdrive, rfl⟩ := main_of_watching hmain
    refine ⟨.receive, x.driving pass req (.completing cid splice), rfl, ?_, .inl rfl, rfl⟩
    simp only [step, hdrive, hsent]
  · obtain ⟨i, htask⟩ := List.mem_iff_getElem?.mp hmem
    have hi : i < x.tasks.length := (List.getElem?_eq_some_iff.mp htask).1
    refine ⟨.taskReceive i, { x with tasks := x.tasks.set i (.completing s cid splice) }, rfl, ?_,
      .inr (List.mem_set hi _), rfl⟩
    simp only [step, htask, hsent]

theorem submits_of_completing (cfg) (hw : Performs x (.completing s cid splice)) (hladder : x.consent splice = true) :
    ∃ ev x', ev.delivers = true ∧ step cfg x ev = .ok x' ∧ .submitted s cid splice ∈ x'.log := by
  have hsubmits : .submitted s cid splice ∈ (completeDelivery x s cid splice true .landed).1.log :=
    completeDelivery_submits rfl hladder (by simp)
  rcases hw with hmain | hmem
  · obtain ⟨pass, req, hdrive, rfl⟩ := main_of_completing hmain
    refine ⟨.complete true .landed, complete x pass req cid splice true .landed, rfl, by simp only [step, hdrive], ?_⟩
    rcases complete_log x pass req cid splice true .landed with hlog | hlog
    · exact hlog ▸ hsubmits
    · exact hlog ▸ List.mem_cons_of_mem _ hsubmits
  · obtain ⟨i, htask⟩ := List.mem_iff_getElem?.mp hmem
    refine ⟨.taskComplete i true .landed, { (completeDelivery x s cid splice true .landed).1 with
      tasks := x.tasks.eraseIdx i }, rfl, by simp only [step, htask], hsubmits⟩

def Finishes (cfg : BridgeConfig) (x : State) (s : SwapId) (cid : Cid) (splice : Outpoint) : Prop :=
  x.consent splice = true → ∃ evs y, evs.length ≤ 2 ∧ (∀ ev ∈ evs, ev.delivers = true) ∧
    runAll (step cfg) x evs = .ok y ∧ .submitted s cid splice ∈ y.log

theorem routed_finishes (cfg : BridgeConfig) (h : Routed x s cid rx splice) : Finishes cfg x s cid splice := by
  intro hladder
  rcases h.performs with hw | hw
  · obtain ⟨ev, x', hdelivers, hstep, hw', hconsent⟩ := receives_of_watching cfg hw h.sent
    obtain ⟨ev', y, hdelivers', hstep', hlog⟩ := submits_of_completing cfg hw' (hconsent ▸ hladder)
    refine ⟨[ev, ev'], y, le_rfl, ?_, ?_, hlog⟩
    · simp [hdelivers, hdelivers']
    · simp only [runAll, hstep, hstep', ok_bind]
  · obtain ⟨ev, y, hdelivers, hstep, hlog⟩ := submits_of_completing cfg hw hladder
    refine ⟨[ev], y, by simp, ?_, ?_, hlog⟩
    · simp [hdelivers]
    · simp only [runAll, hstep, ok_bind]

/-- A lock that finds its sender in the slot is submitted, or is at most two steps of its own away from it. -/
theorem lock_recorded (cfg : BridgeConfig) (startBlock : ℕ) (run later : List Event) (x : State) (s : SwapId)
    (cid : Cid) (rx : Token) (splice : Outpoint) (hrun : runAll (step cfg) (State.start startBlock) run = .ok x)
    (hwatch : Performs x (.watching s cid rx)) (hslot : x.pending cid = some rx)
    (hlater : EveryStep (step cfg) (Completes s cid splice) (x.resolve cid splice) later) :
    EveryState (step cfg) (fun y => .submitted s cid splice ∈ y.log ∨
      Routed y s cid rx splice ∧ Finishes cfg y s cid splice) (x.resolve cid splice) later := by
  have hslots : Slots x := reachable_slots hrun
  have hrouted : Routed (x.resolve cid splice) s cid rx splice := by
    refine ⟨spent_resolve hslots hslot, resolve_sent hslot, .inl ?_⟩
    unfold Performs
    rw [(samePass_resolve cid splice).main, resolve_tasks]
    exact hwatch
  have hfinishes : ∀ y : State, .submitted s cid splice ∈ y.log ∨ Routed y s cid rx splice →
      .submitted s cid splice ∈ y.log ∨ Routed y s cid rx splice ∧ Finishes cfg y s cid splice := by
    intro y hy
    exact hy.imp_right fun hrouted => ⟨hrouted, routed_finishes cfg hrouted⟩
  apply everyState_of_invariant hfinishes ?_ (.inr hrouted) hlater
  intro y ev y' hy hev hstep
  rcases hy with hlog | hrouted
  · exact .inl (log_of_shift (shift_of_steps (step_cases hstep)) hlog)
  · exact routed_step hstep hrouted hev

def waitsBehind : List Event :=
  [.polled [⟨1, 5⟩, ⟨2, 5⟩] 10, .scan, .read (some false), .select (some [7]), .attempt .accepted, .timeOut, .scan,
    .read (some false), .select (some [8]), .attempt .accepted]

theorem lock_recorded_waitsBehind : ∃ x, runAll (step ⟨2⟩) (State.start 0) waitsBehind = .ok x ∧
      EveryState (step ⟨2⟩) (fun y => .submitted 1 7 100 ∈ y.log ∨ Routed y 1 7 0 100 ∧ Finishes ⟨2⟩ y 1 7 100)
        (x.resolve 7 100) [.taskReceive 0, .ladder 100 true, .taskComplete 0 true .landed] := by
  refine exists_ok (fun x => Task.watching 1 7 0 ∈ x.tasks ∧ x.pending 7 = some 0 ∧ EveryStep (step ⟨2⟩)
    (Completes 1 7 100) (x.resolve 7 100) [.taskReceive 0, .ladder 100 true, .taskComplete 0 true .landed])
    (by decide +kernel) ?_
  rintro x hrun ⟨hwatch, hslot, hsteps⟩
  exact lock_recorded ⟨2⟩ 0 waitsBehind _ x 1 7 0 100 hrun (.inr hwatch) hslot hsteps

theorem main_of_task {main : Main} (h : main.task = some w) :
    ∃ pass req stage, main = .driving pass req stage ∧ req.swapId = w.swapId := by
  cases w with
  | watching =>
    obtain ⟨pass, req, candidates, hmain, hs⟩ := main_of_watching h
    exact ⟨pass, req, _, hmain, hs⟩
  | completing =>
    obtain ⟨pass, req, hmain, hs⟩ := main_of_completing h
    exact ⟨pass, req, _, hmain, hs⟩

structure Abandoned (cfg : BridgeConfig) (blockOf : SwapId → ℕ) (s : SwapId) (x : State) : Prop where
  tracks : Tracks blockOf x
  done : Done cfg blockOf x s
  tasks : ∀ w ∈ x.tasks, w.swapId ≠ s
  silent : ∀ cid splice, .submitted s cid splice ∉ x.log

theorem Abandoned.performs (hx : Abandoned cfg blockOf s x) (hw : Performs x w) : w.swapId ≠ s := by
  rcases hw with hmain | hmem
  · obtain ⟨pass, req, stage, hmain, hreq⟩ := main_of_task hmain
    rintro rfl
    rw [← hreq] at hx
    exact driving_not_done hx.tracks hmain hx.done
  · exact hx.tasks w hmem

theorem abandoned_step (hx : Abandoned cfg blockOf s x) (hev : HonestPolls blockOf x ev)
    (h : step cfg x ev = .ok x') : Abandoned cfg blockOf s x' := by
  have hshift := shift_of_steps (step_cases h)
  refine ⟨tracks_step hx.tracks hev h, done_step hx.tracks hev h hx.done, ?_, ?_⟩
  · intro w hw
    obtain ⟨w₀, hw₀, hs⟩ := swapId_of_shift hshift hw
    exact hs ▸ hx.performs hw₀
  · intro cid splice hmem
    rcases submitted_of_shift hshift hmem with hold | hw
    · exact hx.silent cid splice hold
    · exact hx.performs hw rfl

structure Lost (splice : Outpoint) (x : State) : Prop where
  sent : ∀ rx, x.sent rx ≠ some splice
  performs : ∀ s cid, ¬ Performs x (.completing s cid splice)
  silent : ∀ s cid, .submitted s cid splice ∉ x.log

def Event.locks : Event → Option Outpoint
  | .spliced _ splice => some splice
  | _ => none

theorem sent_of_slotMove (h : SlotMove x ev x') (hev : ev.locks ≠ some splice) (hs : x'.sent rx = some splice) :
    x.sent rx = some splice := by
  cases h with
  | stays h => exact h.sent ▸ hs
  | registers h | cancels _ h => exact (congrFun h.sent rx).symm.trans hs
  | resolves cid =>
    by_cases hslot : x.pending cid = some rx
    · rw [resolve_sent hslot] at hs
      exact absurd hs hev
    · rw [resolve_sent_of_ne hslot] at hs
      exact hs

theorem lost_step (hx : Lost splice x) (hev : ev.locks ≠ some splice) (h : step cfg x ev = .ok x') :
    Lost splice x' := by
  have hshift := shift_of_steps (step_cases h)
  constructor
  · intro rx hs
    exact hx.sent rx (sent_of_slotMove (slotMove_of_steps (step_cases h)) hev hs)
  · intro s cid hw
    rcases completing_of_shift hshift hw with hold | ⟨rx, hs⟩
    · exact hx.performs s cid hold
    · exact hx.sent rx hs
  · intro s cid hmem
    rcases submitted_of_shift hshift hmem with hold | hw
    · exact hx.silent s cid hold
    · exact hx.performs s cid hw

theorem lost_start (startBlock) : Lost splice (State.start startBlock) := by
  constructor
  · intro rx h
    cases h
  · intro s cid h
    rcases h with h | h
    · cases h
    · cases h
  · intro s cid h
    cases h

theorem lost_resolve (hx : Lost splice x) (hslot : x.pending cid = none) : Lost splice (x.resolve cid splice) := by
  unfold State.resolve
  rw [hslot]
  exact hx

def ladderMissing : List Event :=
  [.polled [⟨1, 5⟩] 10, .scan, .read (some false), .select (some [7]), .attempt .accepted, .spliced 7 100, .receive,
    .complete true .landed]

def slotCancelled : List Event :=
  [.polled [⟨1, 5⟩, ⟨2, 5⟩] 10, .scan, .read (some false), .select (some [7]), .attempt .accepted, .timeOut, .scan,
    .read (some false), .select (some [7, 8]), .attempt .refused, .attempt .accepted]

theorem lock_unrecorded : (∃ x, runAll (step ⟨2⟩) (State.start 0) ladderMissing = .ok x ∧ x.log = [.initiated 1 7] ∧
      ∀ later y, EveryStep (step ⟨2⟩) (HonestPolls fun _ => 5) x later → runAll (step ⟨2⟩) x later = .ok y →
        ∀ cid splice, .submitted 1 cid splice ∉ y.log) ∧
    ∃ x, runAll (step ⟨2⟩) (State.start 0) slotCancelled = .ok x ∧ .initiated 1 7 ∈ x.log ∧
      Performs x (.watching 1 7 0) ∧
      ∀ later y, EveryStep (step ⟨2⟩) (fun _ ev => ev.locks ≠ some 100) (x.resolve 7 100) later →
        runAll (step ⟨2⟩) (x.resolve 7 100) later = .ok y → ∀ s cid, .submitted s cid 100 ∉ y.log := by
  constructor
  · refine exists_ok (fun x => x.log = [.initiated 1 7] ∧ (x.handled 1).isSome ∧ x.tasks = []) (by decide +kernel) ?_
    rintro x hrun ⟨hlog, hhandled, htasks⟩
    have hpolls : EveryStep (step ⟨2⟩) (HonestPolls fun _ => 5) (State.start 0) ladderMissing := by decide +kernel
    have hx : Abandoned ⟨2⟩ (fun _ => 5) 1 x := by
      refine ⟨?_, .inl hhandled, by simp [htasks], by simp [hlog]⟩
      exact runAll_invariant (fun _ _ _ hy hev hstep => tracks_step hy hev hstep) (tracks_start 0) hpolls hrun
    refine ⟨hlog, ?_⟩
    intro later y hlater hy
    exact (runAll_invariant (fun _ _ _ hy hev hstep => abandoned_step hy hev hstep) hx hlater hy).silent
  · refine exists_ok (fun x => .initiated 1 7 ∈ x.log ∧ Task.watching 1 7 0 ∈ x.tasks ∧ x.pending 7 = none)
      (by decide +kernel) ?_
    rintro x hrun ⟨hlog, hwatch, hslot⟩
    have hlost : ∀ {y later z}, Lost 100 y → EveryStep (step ⟨2⟩) (fun _ ev => ev.locks ≠ some 100) y later →
        runAll (step ⟨2⟩) y later = .ok z → Lost 100 z :=
      fun hy hlater hz => runAll_invariant (fun _ _ _ hy hev hstep => lost_step hy hev hstep) hy hlater hz
    refine ⟨hlog, .inr hwatch, ?_⟩
    intro later y hlater hy
    exact (hlost (lost_resolve (hlost (lost_start 0) (by decide +kernel) hrun) hslot) hlater hy).silent

end QuidProtocol.Watcher
