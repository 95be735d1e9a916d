import Mathlib.Tactic
import Mathlib.Logic.Function.Basic

/-!
The keeper of the levered positions: what a tick decides and sends.
-/

namespace QuidProtocol.Keeper

open Function

abbrev LpAddr := ℕ

structure LevKeeperConfig where
  targetRangeBps : ℕ
  safetyMarginBps : ℕ
  minRebalanceUsd : ℕ

structure PositionView where
  currentLtvBps : ℕ
  ilLtvBps : ℕ
  targetLtvBps : ℕ
  poolLtvBps : ℕ
  venueLiqLtvBps : ℕ
  collateralUsd : ℕ
  deliverableFloorOk : Bool
  movePersisted : Bool
  matureQuidUsd : ℕ

inductive KeeperAction
  | hold
  | deLever (toLtvBps : ℕ) (urgent : Bool)
  | reLever (toLtvBps : ℕ)
  | protectFromQuid (repayUsd : ℕ)

def satU32 (x : ℕ) : ℕ := min x (2 ^ 32 - 1)

def satU64 (x : ℕ) : ℕ := min x (2 ^ 64 - 1)

namespace PositionView

variable (v : PositionView) (cfg : LevKeeperConfig)

def repayToTargetUsd : ℕ :=
  if v.currentLtvBps ≤ v.targetLtvBps ∨ 10000 ≤ v.currentLtvBps then 0
  else
    let collateral := satU64 (v.collateralUsd * 10000) / (10000 - v.currentLtvBps)
    satU64 (collateral * (v.currentLtvBps - v.targetLtvBps)) / 10000

def economic : Bool :=
  let gapBps := max v.ilLtvBps v.targetLtvBps - min v.ilLtvBps v.targetLtvBps
  cfg.minRebalanceUsd ≤ satU64 (v.collateralUsd * gapBps) / 10000

def upper : ℕ := satU32 (v.targetLtvBps + cfg.targetRangeBps)

def lower : ℕ := v.targetLtvBps - cfg.targetRangeBps

def outOfRange : Bool := v.upper cfg < v.ilLtvBps ∨ v.ilLtvBps < v.lower cfg

def Urgent : Prop :=
  v.venueLiqLtvBps - cfg.safetyMarginBps ≤ max v.poolLtvBps v.currentLtvBps
  deriving Decidable

def decide : KeeperAction :=
  if v.Urgent cfg then
    if 0 < v.matureQuidUsd ∧ 0 < min v.repayToTargetUsd v.matureQuidUsd then
      .protectFromQuid (min v.repayToTargetUsd v.matureQuidUsd)
    else .deLever v.targetLtvBps true
  else if !v.movePersisted then .hold
  else if v.upper cfg < v.ilLtvBps then
    if v.economic cfg then .deLever v.targetLtvBps false else .hold
  else if v.ilLtvBps < v.lower cfg ∧ v.deliverableFloorOk ∧ v.economic cfg then .reLever v.targetLtvBps
  else .hold

end PositionView

abbrev DwellTracker := LpAddr → Option ℕ

def persisted (d : DwellTracker) (lp : LpAddr) (outOfRange : Bool) (now dwell : ℕ) : DwellTracker × Bool :=
  if outOfRange then (update d lp (some ((d lp).getD now)), dwell ≤ now - (d lp).getD now)
  else (update d lp none, false)

inductive Call
  | protectFromQuid (lp : LpAddr) (repayUsd : ℕ)
  | rebalance (lp : LpAddr)
  | syncLev (lp : LpAddr)
  deriving DecidableEq

/-- What a tick reads and what its calls come to. -/
structure Tick where
  now : ℕ
  dwell : ℕ
  openPositions : Option (List LpAddr)
  positionView : LpAddr → Option PositionView
  succeeds : Call → Bool

variable (cfg : LevKeeperConfig) (v : PositionView) (d : DwellTracker) (t : Tick)

structure Tracks where
  urgent : List LpAddr
  protect : List (LpAddr × ℕ)
  rebal : List LpAddr

def Tracks.push (tr : Tracks) (lp : LpAddr) : KeeperAction → Tracks
  | .protectFromQuid repay => { tr with protect := tr.protect ++ [(lp, repay)] }
  | .deLever _ true => { tr with urgent := tr.urgent ++ [lp] }
  | .deLever _ false => { tr with rebal := tr.rebal ++ [lp] }
  | .reLever _ => { tr with rebal := tr.rebal ++ [lp] }
  | .hold => tr

def classifyOne (x : DwellTracker × Tracks) (lp : LpAddr) : DwellTracker × Tracks :=
  match t.positionView lp with
  | none => x
  | some v =>
    let (d, moved) := persisted x.1 lp (v.outOfRange cfg) t.now t.dwell
    (d, x.2.push lp ({ v with movePersisted := moved }.decide cfg))

def classify : DwellTracker × Tracks :=
  (t.openPositions.getD []).foldl (classifyOne cfg t) (d, ⟨[], [], []⟩)

def Tick.synced (c : Call) (lp : LpAddr) : List Call := if t.succeeds c then [c, .syncLev lp] else [c]

def tick : DwellTracker × List Call :=
  let (d, tr) := classify cfg d t
  (d, tr.protect.flatMap (fun p => t.synced (.protectFromQuid p.1 p.2) p.1) ++
    tr.urgent.flatMap (fun lp => t.synced (.rebalance lp) lp) ++ tr.rebal.map .rebalance)

/-- The debt of a position can be repaid out of mature QUID, however little of it. -/
def PositionView.Repays : Prop := 0 < v.matureQuidUsd ∧ 0 < v.repayToTargetUsd
  deriving Decidable

def Tick.Reads (lp : LpAddr) (v : PositionView) : Prop :=
  lp ∈ t.openPositions.getD [] ∧ t.positionView lp = some v

section

variable {cfg : LevKeeperConfig} {d : DwellTracker} {t : Tick} {lp : LpAddr} {v : PositionView} {lps : List LpAddr}
  {tr : Tracks}

theorem decide_of_urgent (h : v.Urgent cfg) (moved : Bool) : { v with movePersisted := moved }.decide cfg =
    if v.Repays then .protectFromQuid (min v.repayToTargetUsd v.matureQuidUsd) else .deLever v.targetLtvBps true := by
  have hrepays : v.Repays ↔ 0 < v.matureQuidUsd ∧ 0 < min v.repayToTargetUsd v.matureQuidUsd := by
    unfold PositionView.Repays
    omega
  simp only [hrepays]
  exact if_pos h

theorem decide_of_calm (h : ¬ v.Urgent cfg) : v.decide cfg = .hold ∨
    v.decide cfg = .deLever v.targetLtvBps false ∨ v.decide cfg = .reLever v.targetLtvBps := by
  unfold PositionView.decide
  rw [if_neg h]
  split_ifs <;> simp

/-- What the tracks hold once some of the positions are read. Whether a position is urgent does not depend on the
dwell. -/
structure Sorted (cfg : LevKeeperConfig) (t : Tick) (lps : List LpAddr) (tr : Tracks) : Prop where
  urgent : ∀ lp, lp ∈ tr.urgent ↔ lp ∈ lps ∧ ∃ v, t.positionView lp = some v ∧ v.Urgent cfg ∧ ¬ v.Repays
  rebal : ∀ lp ∈ tr.rebal, ∀ v, t.positionView lp = some v → ¬ v.Urgent cfg

theorem Sorted.push (h : Sorted cfg t lps tr) (hview : t.positionView lp = some v) (moved : Bool) :
    Sorted cfg t (lps ++ [lp]) (tr.push lp ({ v with movePersisted := moved }.decide cfg)) := by
  by_cases hurgent : v.Urgent cfg
  · rw [decide_of_urgent hurgent]
    split_ifs
    all_goals
      refine ⟨fun lp' => ?_, h.rebal⟩
      simp only [Tracks.push, List.mem_append, List.mem_singleton, h.urgent]
      grind
  · have hsame : ∀ lp', lp' ∈ tr.urgent ↔
        lp' ∈ lps ++ [lp] ∧ ∃ v, t.positionView lp' = some v ∧ v.Urgent cfg ∧ ¬ v.Repays := by
      simp only [List.mem_append, List.mem_singleton, h.urgent]
      grind
    have hmore : ∀ lp' ∈ tr.rebal ++ [lp], ∀ v, t.positionView lp' = some v → ¬ v.Urgent cfg := by
      simp only [List.mem_append, List.mem_singleton]
      grind [h.rebal]
    obtain heq | heq | heq := @decide_of_calm cfg { v with movePersisted := moved } hurgent
    all_goals rw [heq]
    exacts [⟨hsame, h.rebal⟩, ⟨hsame, hmore⟩, ⟨hsame, hmore⟩]

theorem Sorted.classifyOne {x} (h : Sorted cfg t lps x.2) (lp : LpAddr) :
    Sorted cfg t (lps ++ [lp]) (classifyOne cfg t x lp).2 := by
  unfold Keeper.classifyOne
  split
  · refine ⟨fun lp' => ?_, h.rebal⟩
    rw [h.urgent, List.mem_append, List.mem_singleton]
    grind
  · exact h.push ‹_› _

theorem sorted_classify (cfg d t) : Sorted cfg t (t.openPositions.getD []) (classify cfg d t).2 := by
  have hrun : ∀ rest lps x, Sorted cfg t lps x.2 → Sorted cfg t (lps ++ rest) (rest.foldl (classifyOne cfg t) x).2 := by
    intro rest
    induction rest with
    | nil => simp
    | cons lp rest ih =>
      intro lps x h
      rw [List.append_cons]
      exact ih _ _ (h.classifyOne lp)
  exact hrun _ [] _ ⟨by simp, by simp⟩

theorem rebalance_sent (hreads : t.Reads lp v) (h : v.Urgent cfg) : .rebalance lp ∈ (tick cfg d t).2 ↔ ¬ v.Repays := by
  have hsorted := sorted_classify cfg d t
  have hrebal : lp ∉ (classify cfg d t).2.rebal := fun hmem => hsorted.rebal lp hmem v hreads.2 h
  have hurgent : lp ∈ (classify cfg d t).2.urgent ↔ ¬ v.Repays := by
    rw [hsorted.urgent]
    grind [Tick.Reads]
  rw [← hurgent]
  unfold tick Tick.synced
  simp only [List.mem_append, List.mem_flatMap, List.mem_map]
  grind

end

/-- What is promised when `protect_from_quid` fails: the next tick sells collateral if the position is still urgent. -/
def FallsBack (t' : Tick) : Prop :=
  ∀ lp usd v, .protectFromQuid lp usd ∈ (tick cfg d t).2 → t.succeeds (.protectFromQuid lp usd) = false →
    t'.Reads lp v → v.Urgent cfg → .rebalance lp ∈ (tick cfg (tick cfg d t).1 t').2

def RunsOut (t' : Tick) : Prop :=
  ∀ lp usd v, .protectFromQuid lp usd ∈ (tick cfg d t).2 → t.succeeds (.protectFromQuid lp usd) = false →
    t'.Reads lp v → v.Urgent cfg → v.matureQuidUsd = 0 ∨ v.repayToTargetUsd = 0

/-- Of every two ticks in a row. -/
def Consecutive (cfg : LevKeeperConfig) (P : DwellTracker → Tick → Tick → Prop) : DwellTracker → List Tick → Prop
  | d, t :: t' :: ts => P d t t' ∧ Consecutive cfg P (tick cfg d t).1 (t' :: ts)
  | _, _ => True

/-- `decide` does not remember the failure: it asks for the same repayment as long as there is one to make. -/
theorem failed_protect_falls_back_iff (cfg : LevKeeperConfig) (d : DwellTracker) (ts : List Tick) :
    Consecutive cfg (FallsBack cfg) d ts ↔ Consecutive cfg (RunsOut cfg) d ts := by
  induction ts generalizing d with
  | nil => rfl
  | cons t ts ih =>
    cases ts with
    | nil => rfl
    | cons t' ts =>
      apply and_congr _ (ih _)
      apply forall₃_congr
      intro lp usd v
      apply forall₄_congr
      intro _ _ hreads hurgent
      rw [rebalance_sent hreads hurgent, PositionView.Repays]
      omega

def liveConfig : LevKeeperConfig := ⟨300, 1500, 50000000⟩

/-- Every call of the tick fails. -/
def failing : Tick := ⟨0, 0, some [1], fun _ => some v, fun _ => false⟩

def nearLiquidation : PositionView := ⟨8000, 6000, 3000, 5000, 9000, 1000000000, true, false, 10⟩

theorem protect_fails_again : ¬ Consecutive liveConfig (FallsBack liveConfig) (fun _ => none)
    [failing nearLiquidation, failing nearLiquidation] := by
  intro h
  have hsent := h.1 1 10 nearLiquidation (by decide) rfl ⟨by decide, rfl⟩ (by decide)
  revert hsent
  decide

/-- The position is beyond its target on the basis that `rebalance` goes by: its debt is reduced. -/
def PositionView.Over : Prop := v.targetLtvBps < v.ilLtvBps
  deriving Decidable

/-- What puts a position on the urgent track is not what its target is measured on. -/
theorem urgent_track_lowers_iff (cfg : LevKeeperConfig) (d : DwellTracker) (t : Tick) :
    (∀ lp ∈ (classify cfg d t).2.urgent, .rebalance lp ∈ (tick cfg d t).2 ∧ ∀ v, t.positionView lp = some v → v.Over) ↔
      ∀ lp v, t.Reads lp v → v.Over ∨ max v.poolLtvBps v.currentLtvBps < v.venueLiqLtvBps - cfg.safetyMarginBps ∨
        0 < v.matureQuidUsd ∧ 0 < v.repayToTargetUsd := by
  have hsorted := sorted_classify cfg d t
  constructor
  · intro h lp v hreads
    by_contra hnot
    simp only [not_or, Nat.not_lt] at hnot
    exact hnot.1 ((h lp ((hsorted.urgent lp).mpr ⟨hreads.1, v, hreads.2, hnot.2⟩)).2 v hreads.2)
  · intro h lp hmem
    obtain ⟨hopen, v, hview, hurgent, hrepays⟩ := (hsorted.urgent lp).mp hmem
    refine ⟨(rebalance_sent ⟨hopen, hview⟩ hurgent).mpr hrepays, ?_⟩
    intro v' hview'
    cases hview.symm.trans hview'
    exact (h lp v ⟨hopen, hview⟩).resolve_right (not_or.mpr ⟨Nat.not_lt.mpr hurgent, hrepays⟩)

/-- The pool is close to its liquidation and this position is far below its target. -/
def pooled : PositionView := ⟨2000, 1000, 3000, 8000, 9000, 1000000000, true, false, 0⟩

theorem urgent_track_borrows : ¬ ∀ lp ∈ (classify liveConfig (fun _ => none) (failing pooled)).2.urgent,
    .rebalance lp ∈ (tick liveConfig (fun _ => none) (failing pooled)).2 ∧
      ∀ v, (failing pooled).positionView lp = some v → v.Over := by
  intro h
  have hover := (h 1 (by decide)).2 pooled rfl
  revert hover
  decide

end QuidProtocol.Keeper
