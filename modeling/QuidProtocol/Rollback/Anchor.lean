import Mathlib.Order.MinMax
import QuidProtocol.Lib.Machine

/-!
`freshness.rs` of the hop: the anchor against rollbacks.
-/

namespace QuidProtocol.Rollback

open Lib.Machine Function

variable {M : Type} [DecidableEq M]

structure LedgerFreshnessAnchor (M : Type) where
  ledger : M → Option ℕ
  cache : M → Option ℕ

namespace LedgerFreshnessAnchor

def new (ledger : M → Option ℕ) : LedgerFreshnessAnchor M := ⟨ledger, fun _ => none⟩

def held (a : LedgerFreshnessAnchor M) (m : M) : ℕ := (a.ledger m).getD 0

def setCache (a : LedgerFreshnessAnchor M) (m : M) (updateId : ℕ) : LedgerFreshnessAnchor M :=
  { a with cache := update a.cache m (some updateId) }

def store (a : LedgerFreshnessAnchor M) (m : M) (updateId : ℕ) : LedgerFreshnessAnchor M :=
  { a with ledger := update a.ledger m (some (max (a.held m) updateId)) }

end LedgerFreshnessAnchor

inductive Freshness
  | fresh
  | stale (loaded anchored : ℕ)
  deriving DecidableEq

inductive Call (M : Type)
  | commit (m : M) (updateId : ℕ) (stored : Bool)
  | highest (m : M) (read : Bool)
  | verify (m : M) (loaded : ℕ) (read : Bool)
  | restart

inductive Answer
  | failed
  | done
  | seen (v : Option ℕ)
  | checked (f : Freshness)
  deriving DecidableEq

open LedgerFreshnessAnchor

variable (a : LedgerFreshnessAnchor M)

def commit (m : M) (updateId : ℕ) (stored : Bool) : LedgerFreshnessAnchor M × Answer :=
  let entry := (a.cache m).getD 0
  if updateId ≤ entry then (a.setCache m entry, .done)
  else
    let a := a.setCache m updateId
    if stored then (a.store m updateId, .done) else (a, .failed)

def highest (m : M) (read : Bool) : LedgerFreshnessAnchor M × Option (Option ℕ) :=
  match a.cache m with
  | some v => (a, some (some v))
  | none =>
    if ¬ read then (a, none)
    else
      match a.ledger m with
      | some u => (a.setCache m u, some (some u))
      | none => (a, some none)

def verify (loaded : ℕ) : Option ℕ → Freshness
  | some anchored => if loaded < anchored then .stale loaded anchored else .fresh
  | none => .fresh

def step : Call M → LedgerFreshnessAnchor M × Answer
  | .commit m updateId stored => commit a m updateId stored
  | .highest m read => ((highest a m read).1, ((highest a m read).2.map .seen).getD .failed)
  | .verify m loaded read =>
    ((highest a m read).1, ((highest a m read).2.map fun v => .checked (verify loaded v)).getD .failed)
  | .restart => (new a.ledger, .done)

def Careful : Call M → Prop
  | .commit m updateId _ => (∀ v ∈ a.cache m, v ≤ a.held m) ∧ (a.cache m = none → a.held m ≤ updateId)
  | _ => True

def Durable : Call M → Prop
  | .commit m updateId stored => (commit a m updateId stored).2 = .done →
    updateId ≤ (commit a m updateId stored).1.held m
  | .highest m read => ∀ v, (highest a m read).2 = some v → a.held m ≤ v.getD 0
  | _ => True

def Anchored (e e' : Call M × Answer) : Prop :=
  ∀ m updateId stored loaded read f, e = (.commit m updateId stored, .done) →
    e' = (.verify m loaded read, .checked f) → loaded < updateId → ∃ anchored, f = .stale loaded anchored

def Ahead : Prop := ∀ m, ∀ v ∈ a.cache m, a.held m ≤ v

section Steps

variable {a : LedgerFreshnessAnchor M} {m : M} {updateId : ℕ} {stored read : Bool}

theorem cache_setCache (n : M) : (a.setCache m updateId).cache n = if n = m then some updateId else a.cache n :=
  update_apply _ _ _ _

theorem held_store (n : M) : (a.store m updateId).held n = if n = m then max (a.held m) updateId else a.held n := by
  simp only [held, store, update_apply]
  split_ifs
  · rfl
  · rfl

theorem held_commit_le (n : M) : a.held n ≤ (commit a m updateId stored).1.held n := by
  unfold commit
  dsimp only
  split_ifs
  · exact le_rfl
  · rw [held_store]
    split_ifs with h
    · rw [h]
      exact le_max_left _ _
    · exact le_rfl
  · exact le_rfl

theorem Ahead.setCache (h : Ahead a) (hle : a.held m ≤ updateId) : Ahead (a.setCache m updateId) := by
  intro n v hv
  rw [cache_setCache] at hv
  split_ifs at hv with hn
  · rw [hn, ← Option.some.inj hv]
    exact hle
  · exact h n v hv

theorem Ahead.store (h : Ahead (a.setCache m updateId)) : Ahead ((a.setCache m updateId).store m updateId) := by
  intro n v hv
  have hle := h n v hv
  have hv : (a.setCache m updateId).cache n = some v := hv
  rw [cache_setCache] at hv
  rw [held_store]
  split_ifs at hv ⊢ with hn
  · rw [hn, ← Option.some.inj hv] at hle
    rw [← Option.some.inj hv]
    exact max_le hle le_rfl
  · exact hle

omit [DecidableEq M] in
theorem Careful.entry_le (h : Ahead a) (hc : Careful a (.commit m updateId stored)) :
    (a.cache m).getD 0 ≤ a.held m ∧ a.held m ≤ max updateId ((a.cache m).getD 0) := by
  cases hcache : a.cache m with
  | none => exact ⟨Nat.zero_le _, le_max_of_le_left (hc.2 hcache)⟩
  | some v => exact ⟨hc.1 v hcache, le_max_of_le_right (h m v hcache)⟩

theorem Ahead.commit (h : Ahead a) (hc : Careful a (.commit m updateId stored)) :
    Ahead (commit a m updateId stored).1 := by
  obtain ⟨hentry, hheld⟩ := Careful.entry_le h hc
  unfold Rollback.commit
  dsimp only
  split_ifs with hle
  · rw [max_eq_right hle] at hheld
    exact h.setCache hheld
  · rw [max_eq_left (by omega)] at hheld
    exact (h.setCache hheld).store
  · rw [max_eq_left (by omega)] at hheld
    exact h.setCache hheld

theorem le_held_of_commit (h : Ahead a) (hc : Careful a (.commit m updateId stored))
    (hdone : (commit a m updateId stored).2 = .done) : updateId ≤ (commit a m updateId stored).1.held m := by
  obtain ⟨hentry, -⟩ := Careful.entry_le h hc
  unfold commit at hdone ⊢
  dsimp only at hdone ⊢
  split_ifs at hdone ⊢ with hle
  · exact hle.trans hentry
  · rw [held_store, if_pos rfl]
    exact le_max_right _ _

theorem held_highest (n : M) : (highest a m read).1.held n = a.held n := by
  unfold highest
  split
  · rfl
  · split_ifs
    · split <;> rfl
    · rfl

theorem Ahead.highest (h : Ahead a) : Ahead (highest a m read).1 := by
  unfold Rollback.highest
  split
  · exact h
  · split_ifs
    · split
      · rename_i u hu
        refine h.setCache ?_
        rw [held, hu]
        exact le_rfl
      · exact h
    · exact h

theorem held_le_highest (h : Ahead a) {v} (hv : (highest a m read).2 = some v) : a.held m ≤ v.getD 0 := by
  unfold highest at hv
  split at hv
  · rename_i w hw
    cases hv
    exact h m w hw
  · split_ifs at hv
    · split at hv
      · rename_i u hu
        cases hv
        rw [held, hu]
      · rename_i hnone
        cases hv
        rw [held, hnone]

theorem verify_of_lt {loaded v} (h : loaded < v.getD 0) : verify loaded v = .stale loaded (v.getD 0) := by
  cases v with
  | none => cases h
  | some => exact if_pos h

theorem checked_eq {loaded f} (h : (step a (.verify m loaded read)).2 = .checked f) :
    ∃ v, (highest a m read).2 = some v ∧ f = verify loaded v := by
  simp only [step] at h
  cases hread : (highest a m read).2 with
  | none =>
    rw [hread] at h
    cases h
  | some v =>
    rw [hread] at h
    cases h
    exact ⟨v, rfl, rfl⟩

theorem held_step_le (c : Call M) (n : M) : a.held n ≤ (step a c).1.held n := by
  cases c with
  | commit => exact held_commit_le n
  | highest m read | verify m loaded read => exact (held_highest n).ge
  | restart => exact le_rfl

theorem Ahead.step (h : Ahead a) {c} (hc : Careful a c) : Ahead (step a c).1 := by
  cases c with
  | commit => exact h.commit hc
  | highest m read | verify m loaded read => exact h.highest
  | restart => exact fun n v hv => nomatch hv

theorem Ahead.durable (h : Ahead a) {c} (hc : Careful a c) : Durable a c := by
  cases c with
  | commit => exact le_held_of_commit h hc
  | highest => exact fun v => held_le_highest h
  | verify m loaded read | restart => trivial

end Steps

theorem ahead_new {M : Type} (ledger : M → Option ℕ) : Ahead (new ledger) := fun _ _ hv => nomatch hv

/-- With careful commits the anchor is durable and monotone, over restarts and failures of the ledger. -/
theorem anchor_durable (ledger : M → Option ℕ) (calls : List (Call M))
    (hcareful : Along step Careful (new ledger) calls) :
    Along step Durable (new ledger) calls ∧ (trace step (new ledger) calls).Pairwise Anchored := by
  refine ⟨along_of_invariant (I := Ahead) (fun _ _ h hc => h.durable hc) (fun _ _ h hc => h.step hc)
    (ahead_new ledger) hcareful, ?_⟩
  -- what a commit returned for stays in the ledger
  apply trace_pairwise (I := Ahead) (P := Careful)
    (H := fun e a => ∀ m updateId stored, e = (.commit m updateId stored, .done) → updateId ≤ a.held m)
  · intro a c ha hc m updateId stored hcommit
    obtain ⟨rfl, hdone⟩ := Prod.mk.inj hcommit
    exact le_held_of_commit ha hc hdone
  · intro e a c ha hc he m updateId stored hcommit
    exact (he m updateId stored hcommit).trans (held_step_le c m)
  · intro e a c ha hc he m updateId stored loaded read f hcommit hverify hlt
    obtain ⟨rfl, hf⟩ := Prod.mk.inj hverify
    obtain ⟨v, hv, rfl⟩ := checked_eq hf
    have hread := held_le_highest ha hv
    have hheld := he m updateId stored hcommit
    exact ⟨_, verify_of_lt (by omega)⟩
  · exact fun _ _ h hc => h.step hc
  · exact ahead_new ledger
  · exact hcareful

def emptyAnchor : LedgerFreshnessAnchor Unit := new fun _ => none

def carefulCalls : List (Call Unit) :=
  [.commit () 5 true, .restart, .verify () 5 true, .commit () 6 false, .restart, .highest () true, .commit () 7 true,
    .restart, .verify () 6 true]

theorem anchor_durable_sample : (trace step emptyAnchor carefulCalls).Pairwise Anchored ∧
    ((trace step emptyAnchor carefulCalls).map Prod.snd).getLast? = some (.checked (.stale 6 7)) := by
  refine ⟨(anchor_durable (fun _ => none) carefulCalls ?_).2, by decide⟩
  simp [carefulCalls, Along, Careful, step, commit, highest, new, setCache, store, held]

theorem anchor_not_durable :
    trace step emptyAnchor [.commit () 5 false, .commit () 5 true, .restart, .verify () 4 true] =
        [(.commit () 5 false, .failed), (.commit () 5 true, .done), (.restart, .done),
          (.verify () 4 true, .checked .fresh)] ∧
      (run step emptyAnchor [.commit () 5 false, .commit () 5 true]).ledger () = none ∧
      trace step emptyAnchor [.commit () 5 true, .restart, .commit () 3 true, .highest () true, .verify () 4 true] =
        [(.commit () 5 true, .done), (.restart, .done), (.commit () 3 true, .done), (.highest () true, .seen (some 3)),
          (.verify () 4 true, .checked .fresh)] ∧
      (run step emptyAnchor [.commit () 5 true, .restart, .commit () 3 true]).ledger () = some 5 :=
  ⟨rfl, rfl, rfl, rfl⟩

end QuidProtocol.Rollback
