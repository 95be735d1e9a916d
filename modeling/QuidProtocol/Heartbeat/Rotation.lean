import Mathlib.Data.List.MinMax
import QuidProtocol.SwapIn.Driver

/-!
`deadman_exit.rs`: the heartbeat that emits an exit for every channel before its last one matures.
-/

namespace QuidProtocol.Heartbeat

open Lib.Machine
open Spv (Bytes32)
open SwapIn (OutPoint)

def deadManDeltaBlocks : ℕ := 144

def refreshMarginBlocks : ℕ := deadManDeltaBlocks / 2

def deadManFeeSats : ℕ := 2000

def deadManAnchorSats : ℕ := 240

def statusOpen : ℕ := 0

structure Channel where
  status : ℕ
  amountSats : ℕ
  btcRecipient : Bytes32

inductive Sent
  | landed
  | reverted
  | failed (lands : Bool)

structure Answers where
  stateRead : Bool
  recipientRead : Bool
  presigned : Bool
  sent : Sent

structure Utxo where
  outpoint : OutPoint
  value : ℕ
  confirmed : Bool

structure Tick where
  tip : Option ℕ
  monitors : List (Option Bytes32)
  channels : Bytes32 → Channel
  answers : Bytes32 → Answers
  wallet : Option (List Utxo)
  spends : Bool

structure Exit where
  channelId : Bytes32
  freshness : Option OutPoint
  receipt : Bool
  deriving DecidableEq

structure State where
  lastCltv : Bytes32 → Option ℕ
  freshness : Option OutPoint
  exits : List Exit

def State.boot : State := ⟨fun _ => none, none, []⟩

def stillFresh (last : Option ℕ) (tip : ℕ) : Bool := last.any fun d => refreshMarginBlocks < d - tip

def anyDue (lastCltv : Bytes32 → Option ℕ) (tip : ℕ) (monitors : List (Option Bytes32)) : Bool :=
  monitors.any fun m => m.any fun channelId => ¬ stillFresh (lastCltv channelId) tip

def designate (wallet : Option (List Utxo)) (previous : Option OutPoint) : Option OutPoint :=
  match wallet with
  | none => none
  | some utxos =>
    let utxos := utxos.filter Utxo.confirmed
    if utxos.length < 2 then none
    else ((utxos.filter fun u => some u.outpoint ≠ previous).argmin Utxo.value).map Utxo.outpoint

def buildExitCall (amountSats tip : ℕ) (presigned : Bool) : Bool :=
  tip + deadManDeltaBlocks < 500000000 ∧ deadManFeeSats + deadManAnchorSats ≤ amountSats ∧ presigned

variable (s : State) (t : Tick)

def reachesEmission (tip : ℕ) (last : Option ℕ) (channelId : Bytes32) : Bool :=
  let ch := t.channels channelId
  let a := t.answers channelId
  (a.stateRead && ch.status = statusOpen) &&
    (deadManFeeSats < ch.amountSats && ch.amountSats < 2 ^ 64) &&
    (a.recipientRead && ch.btcRecipient ≠ 0) &&
    ! stillFresh last tip &&
    buildExitCall ch.amountSats tip a.presigned

structure Emission where
  lastCltv : Bytes32 → Option ℕ
  exits : List Exit
  allEmitted : Bool

def emitOne (tip : ℕ) (freshness : Option OutPoint) (x : Emission) (monitor : Option Bytes32) : Emission :=
  match monitor with
  | none => x
  | some channelId =>
    if ¬ reachesEmission t tip (x.lastCltv channelId) channelId then x
    else
      match (t.answers channelId).sent with
      | .landed => ⟨Function.update x.lastCltv channelId (some (tip + deadManDeltaBlocks)),
          x.exits ++ [⟨channelId, freshness, true⟩], x.allEmitted⟩
      | .reverted => { x with allEmitted := false }
      | .failed lands =>
        ⟨x.lastCltv, if lands then x.exits ++ [⟨channelId, freshness, false⟩] else x.exits, false⟩

def retired (previous freshness : Option OutPoint) (allEmitted : Bool) : Option OutPoint :=
  match previous with
  | some old => if allEmitted ∧ t.wallet.isSome ∧ freshness.any (· ≠ old) ∧ t.spends then some old else none
  | none => none

inductive Event
  | tick (t : Tick)
  | restart

structure Beat where
  exits : List Exit
  retired : Option OutPoint

def heartbeat : State × Beat :=
  match t.tip with
  | none => (s, ⟨[], none⟩)
  | some tip =>
    if ¬ anyDue s.lastCltv tip t.monitors then (s, ⟨[], none⟩)
    else
      let freshness := designate t.wallet s.freshness
      let x := t.monitors.foldl (emitOne t tip freshness) ⟨s.lastCltv, [], true⟩
      (⟨x.lastCltv, freshness.or s.freshness, s.exits ++ x.exits⟩,
        ⟨x.exits, retired t s.freshness freshness x.allEmitted⟩)

def step : Event → State × Beat
  | .tick t => heartbeat s t
  | .restart => ({ s with lastCltv := fun _ => none }, ⟨[], none⟩)

def BoundTo (channelId : Bytes32) (old : OutPoint) : Prop :=
  ((s.exits.filter fun e => e.channelId = channelId).getLast?).map Exit.freshness = some (some old)

def Replaced (exits : List Exit) (channelId : Bytes32) (old : OutPoint) : Prop :=
  ∃ new, new ≠ old ∧ ⟨channelId, some new, true⟩ ∈ exits

def PassesOverNone : Event → Prop
  | .tick t => ∀ tip ∈ t.tip, ∀ old ∈ s.freshness, (designate t.wallet s.freshness).isSome →
      ∀ channelId, (t.channels channelId).status = statusOpen → BoundTo s channelId old →
        some channelId ∈ t.monitors ∧ reachesEmission t tip (s.lastCltv channelId) channelId
  | .restart => True

def KeepsBackstops : Event → Prop
  | .tick t => ∀ old ∈ (heartbeat s t).2.retired, ∀ channelId, (t.channels channelId).status = statusOpen →
      BoundTo s channelId old → Replaced (heartbeat s t).2.exits channelId old
  | .restart => True

section Loop

variable {t : Tick} {tip : ℕ} {freshness : Option OutPoint} {x : Emission} {channelId : Bytes32}

theorem emitOne_exits {e} (monitor : Option Bytes32) (h : e ∈ x.exits) :
    e ∈ (emitOne t tip freshness x monitor).exits := by
  cases monitor with
  | none => exact h
  | some =>
    rw [emitOne]
    split
    · exact h
    · split
      · exact List.mem_append_left _ h
      · exact h
      · dsimp only
        split
        · exact List.mem_append_left _ h
        · exact h

theorem emitOne_veto (monitor : Option Bytes32) (h : x.allEmitted = false) :
    (emitOne t tip freshness x monitor).allEmitted = false := by
  cases monitor with
  | none => exact h
  | some =>
    rw [emitOne]
    split
    · exact h
    · split
      · exact h
      · rfl
      · rfl

theorem emitOne_deadline {last} (monitor : Option Bytes32)
    (h : x.lastCltv channelId = last ∨ ⟨channelId, freshness, true⟩ ∈ x.exits) :
    (emitOne t tip freshness x monitor).lastCltv channelId = last ∨
      ⟨channelId, freshness, true⟩ ∈ (emitOne t tip freshness x monitor).exits := by
  cases h with
  | inr hmem => exact .inr (emitOne_exits monitor hmem)
  | inl hlast =>
    cases monitor with
    | none => exact .inl hlast
    | some id =>
      rw [emitOne]
      split
      · exact .inl hlast
      · split
        · by_cases hid : channelId = id
          · subst hid
            exact .inr (List.mem_append_right _ List.mem_cons_self)
          · exact .inl ((Function.update_of_ne hid _ _).trans hlast)
        all_goals exact .inl hlast

theorem emitOne_emits {last} (hreach : reachesEmission t tip last channelId)
    (h : x.lastCltv channelId = last ∨ ⟨channelId, freshness, true⟩ ∈ x.exits) :
    ⟨channelId, freshness, true⟩ ∈ (emitOne t tip freshness x (some channelId)).exits ∨
      (emitOne t tip freshness x (some channelId)).allEmitted = false := by
  cases h with
  | inr hmem => exact .inl (emitOne_exits _ hmem)
  | inl hlast =>
    rw [emitOne, hlast, if_neg (not_not.mpr hreach)]
    split
    · exact .inl (List.mem_append_right _ List.mem_cons_self)
    all_goals exact .inr rfl

theorem foldl_emitted {monitors : List (Option Bytes32)}
    (h : ⟨channelId, freshness, true⟩ ∈ x.exits ∨ x.allEmitted = false) :
    ⟨channelId, freshness, true⟩ ∈ (monitors.foldl (emitOne t tip freshness) x).exits ∨
      (monitors.foldl (emitOne t tip freshness) x).allEmitted = false := by
  induction monitors generalizing x with
  | nil => exact h
  | cons m ms ih => exact ih (h.imp (emitOne_exits m) (emitOne_veto m))

theorem foldl_emits {last : Option ℕ} (hreach : reachesEmission t tip last channelId)
    {monitors : List (Option Bytes32)} (hmem : some channelId ∈ monitors)
    (h : x.lastCltv channelId = last ∨ ⟨channelId, freshness, true⟩ ∈ x.exits) :
    ⟨channelId, freshness, true⟩ ∈ (monitors.foldl (emitOne t tip freshness) x).exits ∨
      (monitors.foldl (emitOne t tip freshness) x).allEmitted = false := by
  induction monitors generalizing x with
  | nil => cases hmem
  | cons m ms ih =>
    rcases List.mem_cons.mp hmem with rfl | hmem
    · rw [List.foldl_cons]
      exact foldl_emitted (emitOne_emits hreach h)
    · exact ih hmem (emitOne_deadline m h)

end Loop

theorem retired_mem {t previous freshness allEmitted old} (h : old ∈ retired t previous freshness allEmitted) :
    previous = some old ∧ allEmitted ∧ ∃ new, new ≠ old ∧ freshness = some new := by
  cases previous with
  | none => cases h
  | some =>
    rw [retired] at h
    split at h
    · rename_i hall
      cases h
      obtain ⟨hemitted, -, hnew, -⟩ := hall
      obtain ⟨new, hfresh, hne⟩ := (Option.any_eq_true _ _).mp hnew
      exact ⟨rfl, hemitted, new, of_decide_eq_true hne, hfresh⟩
    · cases h

theorem keepsBackstops_of_passesOverNone {s : State} {e : Event} (h : PassesOverNone s e) : KeepsBackstops s e := by
  cases e with
  | restart => trivial
  | tick =>
    intro old hold channelId hopen hbound
    rw [heartbeat] at hold ⊢
    split at hold
    · cases hold
    · rename_i tip htip
      split at hold
      · cases hold
      · rename_i hdue
        obtain ⟨hprevious, hall, new, hne, hfresh⟩ := retired_mem hold
        obtain ⟨hlisted, hreach⟩ := h tip htip old hprevious (hfresh ▸ rfl) channelId hopen hbound
        rw [if_neg hdue]
        refine ⟨new, hne, ?_⟩
        dsimp only at hall ⊢
        rw [hfresh] at hall ⊢
        rcases foldl_emits (x := ⟨s.lastCltv, [], true⟩) hreach hlisted (.inl rfl) with hexit | hveto
        · exact hexit
        · cases hveto.symm.trans hall

/-- When no tick passes over a channel that depends on what it retires, every such channel keeps an exit. -/
theorem rotation_keeps_backstops {events : List Event} (h : Along step PassesOverNone .boot events) :
    Along step KeepsBackstops .boot events :=
  along_of_invariant (I := fun _ => True) (fun _ _ _ he => keepsBackstops_of_passesOverNone he)
    (fun _ _ _ _ => trivial) trivial h

section Sample

def sampleOutpoint (n : ℕ) : OutPoint := ⟨0, n⟩

def sampleTick (tip : ℕ) (monitors : List (Option Bytes32)) : Tick :=
  { tip := some tip
    monitors
    channels := fun _ => ⟨statusOpen, 1000000, 5⟩
    answers := fun _ => ⟨true, true, true, .landed⟩
    wallet := some [⟨sampleOutpoint 1, 600, true⟩, ⟨sampleOutpoint 2, 700, true⟩]
    spends := true }

def sampleState : State := run step .boot [.tick (sampleTick 1000 [some 1])]

theorem sampleState_boundTo {channelId old} (h : BoundTo sampleState channelId old) : channelId = 1 := by
  by_contra hne
  have hnone : sampleState.exits.filter (fun e => e.channelId = channelId) = [] := by
    rw [show sampleState.exits = [⟨1, some (sampleOutpoint 1), true⟩] by decide]
    exact List.filter_cons_of_neg fun h => hne (of_decide_eq_true h).symm
  rw [BoundTo, hnone] at h
  cases h

def sampleEvents : List Event := [.tick (sampleTick 1000 [some 1]), .tick (sampleTick 1072 [some 1, some 2])]

theorem rotation_keeps_backstops_sample :
    ((trace step .boot sampleEvents).map fun e => e.2.retired) = [none, some (sampleOutpoint 1)] ∧
      Along step KeepsBackstops .boot sampleEvents := by
  refine ⟨by decide, rotation_keeps_backstops ⟨?_, ?_, trivial⟩⟩
  · intro tip _ old hold
    cases hold
  · intro tip htip old _ _ channelId _ hbound
    cases htip
    obtain rfl := sampleState_boundTo hbound
    exact ⟨List.mem_cons_self, by decide⟩

theorem backstop_retired :
    (heartbeat sampleState (sampleTick 1040 [some 1, some 2])).2.retired = some (sampleOutpoint 1) ∧
      ((sampleTick 1040 [some 1, some 2]).channels 1).status = statusOpen ∧ BoundTo sampleState 1 (sampleOutpoint 1) ∧
      ¬ Replaced (heartbeat sampleState (sampleTick 1040 [some 1, some 2])).1.exits 1 (sampleOutpoint 1) := by
  refine ⟨by decide, rfl, by unfold BoundTo; decide, ?_⟩
  rintro ⟨new, hne, hmem⟩
  rw [show (heartbeat sampleState (sampleTick 1040 [some 1, some 2])).1.exits =
    [⟨1, some (sampleOutpoint 1), true⟩, ⟨2, some (sampleOutpoint 2), true⟩] by decide] at hmem
  rcases List.mem_cons.mp hmem with h | h
  · exact hne (Option.some.inj (Exit.mk.inj h).2.1)
  · exact absurd (Exit.mk.inj (List.mem_singleton.mp h)).1 (by decide)

end Sample

end QuidProtocol.Heartbeat
