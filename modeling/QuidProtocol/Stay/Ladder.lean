import QuidProtocol.Stay.Liquidation

/-!
The pace of the ladder: cranks on a position that stays in breach, and how fast they can climb it.
-/

namespace QuidProtocol.Stay

open Lib

structure Rung (pod : Stock) (c : Call) : Prop where
  unordered : c.amount = 0
  drawn : 10000 ≤ c.bank.utilisationBps
  taken : okAnd (c.outcome pod) (fun o => o.tranche.isSome) = true

def Paced (c next : Call) : Prop := next.env.now = c.env.now + liqGraceSecs + 1

def climbedSecs : ℕ := 64080

def Climbed (pod : Stock) (c : Call) : Prop := pod.exposure = 0 ∨ climbedSecs ≤ c.env.now - pod.breachedAt

section

variable {e : Env} {k : Desk} {q : Quote} {o : Outcome} {time : ℕ} {pod pod' : Stock} {c : Call} {calls : List Call}

theorem trancheSize_climbed (size : ℕ) {excursion utilBps} (hclimbed : climbedSecs ≤ excursion)
    (hdrawn : 10000 ≤ utilBps) : size * 178 / 10000 ≤ trancheSize size excursion utilBps := by
  have hspeed : 5000 + 15000 * (max 1000 (min utilBps 10000)).toNat / 10000 = 20000 := by omega
  have hramp : 4000 ≤ min ((excursion - liqGraceSecs) * 10000 / (liqGraceSecs * trancheRampGraces)) 10000 := by
    unfold climbedSecs at hclimbed
    unfold liqGraceSecs trancheRampGraces
    omega
  have hfrac (climbed : ℕ) (hclimbed : 4000 ≤ climbed) :
      178 ≤ max minTrancheBps (min ((minTrancheBps + (maxTrancheBps - minTrancheBps) * climbed / 10000) *
        (5000 + 15000 * (max 1000 (min utilBps 10000)).toNat / 10000) / 10000) maxTrancheBps) := by
    rw [hspeed]
    unfold minTrancheBps maxTrancheBps
    omega
  apply le_trans _ (le_max_left _ _)
  exact Nat.div_le_div_right (Nat.mul_le_mul_left size (hfrac _ hramp))

theorem unwind_rung (hfits : k.pod.exposure.natAbs < 2 ^ 63) (h : (unwindATranche e k q time).tranche.isSome) :
    (unwindATranche e k q time).desk.pod.exposure.natAbs ≤
        k.pod.exposure.natAbs - trancheSize k.pod.exposure.natAbs (e.now - k.pod.breachedAt) q.utilBps ∧
      ((unwindATranche e k q time).desk.pod.exposure = 0 ∨
        (unwindATranche e k q time).desk.pod.breachedAt = k.pod.breachedAt + liqGraceSecs) := by
  obtain ⟨t, ht⟩ := Option.isSome_iff_exists.mp h
  obtain ⟨hunits, hexposure, hclock, -⟩ := unwind_taken ht
  have hle : t.units ≤ k.pod.exposure.natAbs := by
    rw [hunits]
    exact min_le_right _ _
  have hsize : min (trancheSize k.pod.exposure.natAbs (e.now - k.pod.breachedAt) q.utilBps) k.pod.exposure.natAbs ≤
      t.units := by
    rw [hunits]
    exact min_le_min_right _ (le_max_left _ _)
  rw [hexposure, hclock]
  constructor
  · rw [unwound_natAbs hfits hle]
    omega
  · by_cases hclosed : unwound k.pod t.units = 0
    · exact .inl hclosed
    · exact .inr (if_neg hclosed)

section

variable (hfits : pod.exposure.natAbs < 2 ^ 63)

include hfits

theorem rung_leaves (hrung : Rung pod c) (h : repoCall pod c = .ok pod') :
    ∃ utilBps, 10000 ≤ utilBps ∧ pod'.exposure.natAbs ≤
        pod.exposure.natAbs - trancheSize pod.exposure.natAbs (c.env.now - pod.breachedAt) utilBps ∧
      (pod'.exposure = 0 ∨ pod'.breachedAt = pod.breachedAt + liqGraceSecs) := by
  obtain ⟨o, ho, htaken⟩ := okAnd_iff.mp hrung.taken
  obtain ⟨o', ho', rfl⟩ := map_eq_ok.mp h
  obtain rfl := ok_unique ho ho'
  have hutil : 10000 ≤ (c.quote pod).utilBps := by
    have hdrawn := hrung.drawn
    change 10000 ≤ max 1000 (min c.bank.utilisationBps 10000)
    omega
  refine ⟨(c.quote pod).utilBps, hutil, ?_⟩
  obtain ⟨-, rfl⟩ | ⟨-, o', rfl, hexit⟩ := repoPod_exits ho
  · exact unwind_rung (k := checkpointed c.env (c.desk pod)) hfits htaken
  · have htaken : o'.tranche.isSome := htaken
    obtain ⟨time, rfl⟩ := hexit.unwinds hrung.unordered htaken
    exact unwind_rung (k := chargedDesk c.env (c.desk pod) c.amount) hfits htaken

theorem rung_decays (hrung : Rung pod c) (hclimbed : Climbed pod c)
    (h : repoCall pod c = .ok pod') : 10000 * (pod'.exposure.natAbs - 57) ≤ 9822 * (pod.exposure.natAbs - 57) := by
  obtain ⟨utilBps, hutil, hleaves, -⟩ := rung_leaves hfits hrung h
  obtain hclosed | hclimbed := hclimbed
  · rw [hclosed] at hleaves ⊢
    omega
  · have hsize := trancheSize_climbed pod.exposure.natAbs hclimbed hutil
    omega

theorem climbed_next {next} (hrung : Rung pod c)
    (hclimbed : Climbed pod c) (hpaced : Paced c next) (h : repoCall pod c = .ok pod') : Climbed pod' next := by
  obtain ⟨utilBps, hutil, hleaves, hclock⟩ := rung_leaves hfits hrung h
  unfold Climbed Paced liqGraceSecs at *
  obtain hclosed | hclock := hclock
  · exact .inl hclosed
  · obtain hflat | hclimbed := hclimbed
    · left
      omega
    · right
      rw [hclock, hpaced]
      omega

theorem ladder_climbed (hpaced : calls.IsChain Paced)
    (hfirst : ∀ c ∈ calls.head?, Climbed pod c) (hrungs : EveryStep repoCall Rung pod calls) :
    EveryStep repoCall (fun pod c => pod.exposure.natAbs < 2 ^ 63 ∧ Rung pod c ∧ Climbed pod c) pod calls := by
  induction calls generalizing pod with
  | nil => trivial
  | cons c calls ih =>
    have hclimbed := hfirst c rfl
    refine ⟨⟨hfits, hrungs.1, hclimbed⟩, ?_⟩
    intro pod' h
    obtain ⟨utilBps, -, hleaves, -⟩ := rung_leaves hfits hrungs.1 h
    apply ih (by omega) hpaced.tail
    · intro next hnext
      cases calls with
      | nil => cases hnext
      | cons =>
        cases hnext
        exact climbed_next hfits hrungs.1 hclimbed (List.isChain_cons_cons.mp hpaced).1 h
    · exact hrungs.2 pod' h

end

/-- Seven days of cranks leave at most a twentieth of a position that has been in breach for nearly eighteen hours. -/
theorem ladder_pace (pod pod' : Stock) (calls : List Call) (hfits : pod.exposure.natAbs < 2 ^ 63)
    (hlarge : 10 ^ 5 ≤ pod.exposure.natAbs) (hweek : calls.length = 168) (hpaced : calls.IsChain Paced)
    (hrungs : EveryStep repoCall Rung pod calls)
    (hclimbed : ∀ c ∈ calls.head?, climbedSecs ≤ c.env.now - pod.breachedAt)
    (hrun : runAll repoCall pod calls = .ok pod') : 20 * pod'.exposure.natAbs ≤ pod.exposure.natAbs := by
  have hladder := ladder_climbed hfits hpaced (fun c hc => .inr (hclimbed c hc)) hrungs
  have hdecays : 10000 ^ 168 * (pod'.exposure.natAbs - 57) ≤ 9822 ^ 168 * (pod.exposure.natAbs - 57) := by
    rw [← hweek]
    apply runAll_decays (m := fun pod => pod.exposure.natAbs - 57) _ hladder hrun
    intro pod c pod' hrung h
    exact rung_decays hrung.1 hrung.2.1 hrung.2.2 h
  have hweek : 1000 * 9822 ^ 168 ≤ 49 * 10000 ^ 168 := by norm_num
  have hleft : 1000 * (pod'.exposure.natAbs - 57) ≤ 49 * (pod.exposure.natAbs - 57) := by
    apply Nat.le_of_mul_le_mul_left _ (pow_pos (by norm_num) 168 : 0 < 10000 ^ 168)
    calc 10000 ^ 168 * (1000 * (pod'.exposure.natAbs - 57))
        = 1000 * (10000 ^ 168 * (pod'.exposure.natAbs - 57)) := by ring
      _ ≤ 1000 * (9822 ^ 168 * (pod.exposure.natAbs - 57)) := Nat.mul_le_mul_left _ hdecays
      _ = 1000 * 9822 ^ 168 * (pod.exposure.natAbs - 57) := by ring
      _ ≤ 49 * 10000 ^ 168 * (pod.exposure.natAbs - 57) := Nat.mul_le_mul_right _ hweek
      _ = 10000 ^ 168 * (49 * (pod.exposure.natAbs - 57)) := by ring
  omega

end

def Call.crank (e : Env) (k : Desk) : Call :=
  ⟨e, 0, k.pod.pledged, k.pod.updated, k.pod.fundingCheckpoint, k.depositedQuid, k.drawn, k.bank⟩

def hourlyCranks (env : ℕ → Env) : ℕ → Desk → ℕ → List Call
  | 0, _, _ => []
  | n + 1, k, now =>
    .crank (env now) k :: match repoPod (env now) k 0 with
      | .ok o => hourlyCranks env n o.desk (now + liqGraceSecs + 1)
      | .error _ => []

def Undisturbed (pod : Stock) (c : Call) : Prop := (c.desk pod).pod = pod

def climbs (env : ℕ → Env) (ends : Stock → Bool) : ℕ → Desk → ℕ → Bool
  | 0, k, _ => ends k.pod
  | n + 1, k, now =>
    decide (10000 ≤ k.bank.utilisationBps) && okAnd (repoPod (env now) k 0) fun o =>
      o.tranche.isSome && climbs env ends n o.desk (now + liqGraceSecs + 1)

theorem hourlyCranks_head (env : ℕ → Env) (n k now) :
    ∀ c ∈ (hourlyCranks env n k now).head?, c = .crank (env now) k := by
  intro c hc
  cases n with
  | zero => cases hc
  | succ => exact (Option.some.inj hc).symm

theorem of_climbs {env} (htime : ∀ now, (env now).now = now) {ends n k now} (h : climbs env ends n k now = true) :
    (hourlyCranks env n k now).length = n ∧ (hourlyCranks env n k now).IsChain Paced ∧
      EveryStep repoCall (fun pod c => Rung pod c ∧ Undisturbed pod c) k.pod (hourlyCranks env n k now) ∧
      ∃ pod, runAll repoCall k.pod (hourlyCranks env n k now) = .ok pod ∧ ends pod = true := by
  induction n generalizing k now with
  | zero => exact ⟨rfl, .nil, trivial, k.pod, rfl, h⟩
  | succ n ih =>
    unfold climbs at h
    obtain ⟨hdrawn, hok⟩ := Bool.and_eq_true_iff.mp h
    obtain ⟨o, ho, hrest⟩ := okAnd_iff.mp hok
    obtain ⟨htaken, hclimbs⟩ := Bool.and_eq_true_iff.mp hrest
    obtain ⟨hlength, hchain, hsteps, pod, hrun, hends⟩ := ih hclimbs
    have hcrank : Call.outcome (.crank (env now) k) k.pod = .ok o := ho
    have hstep : repoCall k.pod (.crank (env now) k) = .ok o.desk.pod := map_eq_ok.mpr ⟨o, hcrank, rfl⟩
    unfold hourlyCranks
    rw [ho]
    refine ⟨congrArg (· + 1) hlength, ?_, ?_, pod, ?_, hends⟩
    · apply List.isChain_cons.mpr
      refine ⟨?_, hchain⟩
      intro next hnext
      rw [hourlyCranks_head env n o.desk _ next hnext]
      unfold Paced Call.crank
      dsimp only
      rw [htime, htime]
    · refine ⟨⟨⟨rfl, of_decide_eq_true hdrawn, okAnd_iff.mpr ⟨o, hcrank, htaken⟩⟩, rfl⟩, ?_⟩
      intro pod' h'
      obtain rfl := ok_unique h' hstep
      exact hsteps
    · exact bind_eq_ok.mpr ⟨o.desk.pod, hstep, hrun⟩

def tailActuary : Actuary := { steadyActuary with collarBps := fun lev => max 200 (min 5000 (110000 / lev.toNat)) }

def lowPrice (now : ℕ) : Env := ⟨88 * 10 ^ 6, now, 1, tailActuary⟩

def unleveredDesk : Desk :=
  ⟨⟨1, 500 * 10 ^ 6, 5 * 10 ^ 6, 0, 1250, 0, 0, 500 * 10 ^ 6, 1⟩, 0, 500 * 10 ^ 6,
    ⟨0, 1000 * 10 ^ 6, 0, 2000 * 10 ^ 6, 0, 0, 0, 0, 0⟩⟩

theorem ladder_pace_late : ∃ pod',
    runAll repoCall unleveredDesk.pod (hourlyCranks lowPrice 168 unleveredDesk 64081) = .ok pod' ∧
      20 * pod'.exposure.natAbs ≤ unleveredDesk.pod.exposure.natAbs := by
  have hclimbs : climbs lowPrice (fun _ => true) 168 unleveredDesk 64081 = true := by decide +kernel
  obtain ⟨hlength, hchain, hsteps, pod', hrun, -⟩ := of_climbs (fun _ => rfl) hclimbs
  refine ⟨pod', hrun, ?_⟩
  apply ladder_pace _ _ _ (by decide) (by decide) hlength hchain _ _ hrun
  · exact hsteps.imp fun _ _ h => h.1
  · intro c hc
    rw [hourlyCranks_head _ _ _ _ c hc]
    decide

theorem ladder_leaves_half : ∃ pod',
    runAll repoCall unleveredDesk.pod (hourlyCranks lowPrice 168 unleveredDesk 3602) = .ok pod' ∧
      (hourlyCranks lowPrice 168 unleveredDesk 3602).length = 168 ∧
      (hourlyCranks lowPrice 168 unleveredDesk 3602).IsChain Paced ∧
      EveryStep repoCall (fun pod c => Rung pod c ∧ Undisturbed pod c) unleveredDesk.pod
        (hourlyCranks lowPrice 168 unleveredDesk 3602) ∧
      unleveredDesk.pod.exposure = 5000000 ∧ pod'.exposure = 2154065 := by
  have hclimbs : climbs lowPrice (fun pod => pod.exposure = 2154065) 168 unleveredDesk 3602 = true := by decide +kernel
  obtain ⟨hlength, hchain, hsteps, pod', hrun, hends⟩ := of_climbs (fun _ => rfl) hclimbs
  exact ⟨pod', hrun, hlength, hchain, hsteps, rfl, of_decide_eq_true hends⟩

structure Taken where
  time : ℕ
  before : ℤ
  after : ℤ

def Taken.Cuts (x : Taken) : Prop := x.after.natAbs ≤ x.before.natAbs ∧ (x.after = 0 ∨ x.after.sign = x.before.sign)

def tranchesTaken : Stock → List Call → List Taken
  | _, [] => []
  | pod, c :: calls =>
    match c.outcome pod with
    | .error _ => tranchesTaken pod calls
    | .ok o =>
      let later := if o.desk.pod.breachedAt = 0 then [] else tranchesTaken o.desk.pod calls
      if o.tranche.isSome then ⟨c.env.now, pod.exposure, o.desk.pod.exposure⟩ :: later else later

inductive Ticks (now : ℕ) (pod : Stock) (o : Outcome) : Prop
  | waits (hnone : o.tranche = none)
      (hclock : o.desk.pod.breachedAt = 0 ∨ o.desk.pod.breachedAt = pod.breachedAt) : Ticks now pod o
  | spends (htaken : o.tranche.isSome) (hgrace : pod.breachedAt + liqGraceSecs < now)
      (hclock : o.desk.pod.breachedAt = 0 ∨ o.desk.pod.breachedAt = pod.breachedAt + liqGraceSecs)
      (hcuts : Taken.Cuts ⟨now, pod.exposure, o.desk.pod.exposure⟩) : Ticks now pod o

section

variable {e : Env} {k k' : Desk} {q : Quote} {o : Outcome} {amount : ℤ} {time : ℕ} {pod pod' : Stock} {c : Call}

theorem isI64_satI64 (x : ℤ) : IsI64 (satI64 x) := by
  unfold IsI64 satI64
  omega

theorem isI64_fundMargin (bandBps newValue : ℕ) (h : IsI64 k.pod.exposure) :
    IsI64 (fundMargin e k bandBps newValue).1.pod.exposure := by
  unfold fundMargin
  dsimp only
  split_ifs
  · exact h
  · exact isI64_satI64 _
  · exact isI64_satI64 _
  · exact h

theorem isI64_buyLong (h : buyLong e k q amount time = .ok o) : IsI64 o.desk.pod.exposure := by
  obtain ⟨-, marked, collarBps, drawn, rfl⟩ := buyLong_eq h
  exact isI64_fundMargin q.bandBps _ (isI64_satI64 _)

theorem buyLong_tranche (h : buyLong e k q amount time = .ok o) : o.tranche = none := by
  obtain ⟨-, marked, collarBps, drawn, rfl⟩ := buyLong_eq h
  rfl

theorem isI64_issueShort (h : issueShort e k q amount = .ok k') : IsI64 k'.pod.exposure := by
  obtain ⟨-, rfl⟩ | ⟨-, rfl⟩ := issueShort_eq h
  · exact isI64_fundMargin q.bandBps _ (isI64_satI64 _)
  · exact isI64_satI64 _

theorem isI64_unwind (q time) (h : IsI64 k.pod.exposure) : IsI64 (unwindATranche e k q time).desk.pod.exposure := by
  unfold unwindATranche
  dsimp only
  split_ifs
  · exact h
  · exact isI64_satI64 _

theorem Exits.isI64 (hexit : Exits e k q amount o) (h : IsI64 k.pod.exposure) : IsI64 o.desk.pod.exposure := by
  cases hexit with
  | unwound => exact isI64_unwind q _ h
  | posted _ _ hpost =>
    obtain ⟨-, -, collarBps, rfl⟩ := postVariationMargin_eq hpost
    exact h
  | reinstated _ _ _ hbuy =>
    obtain ⟨-, -, collarBps, rfl⟩ := reinstateExposure_eq hbuy
    exact isI64_satI64 _
  | @sold time =>
    rw [sellLong_exposure]
    have hsat := isI64_satI64 ((clearBreach k q q.oldValue).pod.exposure + amount)
    unfold IsI64 at hsat ⊢
    omega
  | bought _ _ hbuy => exact isI64_buyLong hbuy
  | covered =>
    have hsat := isI64_satI64 ((clearBreach k q q.oldValue).pod.exposure + amount)
    change IsI64 (min (satI64 ((clearBreach k q q.oldValue).pod.exposure + amount)) 0)
    unfold IsI64 at hsat ⊢
    omega
  | marked _ _ hissue =>
    have hissued := isI64_issueShort hissue
    exact hissued
  | ignored => exact h

theorem isI64_repoPod (ho : repoPod e k amount = .ok o) (h : IsI64 k.pod.exposure) : IsI64 o.desk.pod.exposure := by
  obtain ⟨-, rfl⟩ | ⟨-, o', rfl, hexit⟩ := repoPod_exits ho
  · exact isI64_unwind (k := checkpointed e k) _ _ h
  · exact hexit.isI64 h

theorem unwind_starts (hoff : k.pod.breachedAt = 0) : (unwindATranche e k q time).desk.pod.breachedAt = e.now := by
  unfold unwindATranche
  dsimp only [Stock.excursion]
  rw [if_pos hoff, Nat.sub_self, if_pos (Nat.zero_le _)]

theorem Exits.starts (hexit : Exits e k q amount o) (hoff : k.pod.breachedAt = 0) :
    o.desk.pod.breachedAt = 0 ∨ o.desk.pod.breachedAt = e.now := by
  have hband : (clearBreach k q q.oldValue).pod.breachedAt = 0 := by
    unfold clearBreach
    split_ifs
    · rfl
    · exact hoff
  cases hexit with
  | unwound => exact .inr (unwind_starts hoff)
  | posted _ _ hpost =>
    obtain ⟨-, -, collarBps, rfl⟩ := postVariationMargin_eq hpost
    exact .inl rfl
  | reinstated _ _ _ hbuy =>
    obtain ⟨-, -, collarBps, rfl⟩ := reinstateExposure_eq hbuy
    exact .inl rfl
  | sold => exact .inl ((sellLong_clock ..).trans hband)
  | bought _ _ hbuy => exact .inl ((buyLong_clock hbuy).trans hband)
  | covered => exact .inl hband
  | marked _ _ hissue => exact .inl ((issueShort_clock hissue).trans hband)
  | ignored => exact .inl hoff

theorem unwound_cuts {units} (h : IsI64 pod.exposure) (hunits : units ≤ pod.exposure.natAbs) (now : ℕ) :
    Taken.Cuts ⟨now, pod.exposure, unwound pod units⟩ := by
  unfold IsI64 at h
  unfold Taken.Cuts unwound satI64 asI64
  dsimp only
  -- a short of all of its word is the one that a tranche of all of it leaves as it was
  obtain hlong | hflat | hshort := lt_trichotomy 0 pod.exposure
  · rw [Int.sign_eq_one_of_pos hlong, Int.sign_eq_one_iff_pos]
    split_ifs
    all_goals omega
  · rw [← hflat] at hunits ⊢
    simp
  · rw [Int.sign_eq_neg_one_of_neg hshort, Int.sign_eq_neg_one_iff_neg]
    split_ifs
    all_goals omega

theorem unwind_ticks (q time) (hset : k.pod.breachedAt ≠ 0) (h : IsI64 k.pod.exposure) :
    Ticks e.now k.pod (unwindATranche e k q time) := by
  by_cases hgrace : e.now - k.pod.breachedAt ≤ liqGraceSecs
  · have hwaits : unwindATranche e k q time = { desk := k, delta := 0, interest := q.accrued } := by
      unfold unwindATranche
      dsimp only [Stock.excursion]
      rw [if_neg hset, if_pos hgrace]
    rw [hwaits]
    exact .waits rfl (.inr rfl)
  · have htaken : (unwindATranche e k q time).tranche.isSome := by
      unfold unwindATranche
      dsimp only [Stock.excursion]
      rw [if_neg hset, if_neg hgrace]
      rfl
    obtain ⟨t, ht⟩ := Option.isSome_iff_exists.mp htaken
    obtain ⟨hunits, hexposure, hclock, -⟩ := unwind_taken ht
    apply Ticks.spends htaken
    · omega
    · rw [hclock]
      split_ifs
      · exact .inl rfl
      · exact .inr rfl
    · rw [hexposure]
      apply unwound_cuts h
      rw [hunits]
      exact min_le_right _ _

theorem Exits.ticks (hexit : Exits e k q amount o) (hset : k.pod.breachedAt ≠ 0) (h : IsI64 k.pod.exposure) :
    Ticks e.now k.pod o := by
  have hband : (clearBreach k q q.oldValue).pod.breachedAt = 0 ∨
      (clearBreach k q q.oldValue).pod.breachedAt = k.pod.breachedAt := by
    unfold clearBreach
    split_ifs
    · exact .inl rfl
    · exact .inr rfl
  cases hexit with
  | unwound => exact unwind_ticks q _ hset h
  | posted _ _ hpost =>
    obtain ⟨-, -, collarBps, rfl⟩ := postVariationMargin_eq hpost
    exact .waits rfl (.inl rfl)
  | reinstated _ _ _ hbuy =>
    obtain ⟨-, -, collarBps, rfl⟩ := reinstateExposure_eq hbuy
    exact .waits rfl (.inl rfl)
  | sold =>
    apply Ticks.waits
    · unfold sellLong
      dsimp only
      split_ifs
      all_goals rfl
    · rw [sellLong_clock]
      exact hband
  | bought _ _ hbuy =>
    apply Ticks.waits (buyLong_tranche hbuy)
    rw [buyLong_clock hbuy]
    exact hband
  | covered => exact .waits rfl hband
  | marked _ _ hissue =>
    apply Ticks.waits rfl
    rw [← issueShort_clock hissue] at hband
    exact hband
  | ignored => exact .waits rfl (.inr rfl)

theorem repoPod_ticks (ho : repoPod e k amount = .ok o) (hset : k.pod.breachedAt ≠ 0) (h : IsI64 k.pod.exposure) :
    Ticks e.now k.pod o := by
  obtain ⟨-, rfl⟩ | ⟨-, o', rfl, hexit⟩ := repoPod_exits ho
  · have hticks := unwind_ticks (e := e) (k := checkpointed e k) (quote e k amount) e.now hset h
    cases hticks with
    | waits hnone hclock => exact .waits hnone hclock
    | spends htaken hgrace hclock hcuts => exact .spends htaken hgrace hclock hcuts
  · have hticks := hexit.ticks hset h
    cases hticks with
    | waits hnone hclock => exact .waits hnone hclock
    | spends htaken hgrace hclock hcuts => exact .spends htaken hgrace hclock hcuts

theorem tranches_spend (hset : pod.breachedAt ≠ 0) (h : IsI64 pod.exposure) (t : ℕ) (calls : List Call) :
    ((tranchesTaken pod calls).filter fun x => x.time ≤ t).length * liqGraceSecs ≤ t - pod.breachedAt ∧
      ∀ x ∈ tranchesTaken pod calls, x.Cuts := by
  induction calls generalizing pod with
  | nil => simp [tranchesTaken]
  | cons c calls ih =>
    unfold tranchesTaken
    cases ho : c.outcome pod with
    | error => exact ih hset h
    | ok o =>
      dsimp only
      have hword : IsI64 o.desk.pod.exposure := isI64_repoPod ho h
      have hticks : Ticks c.env.now (c.desk pod).pod o := repoPod_ticks ho hset h
      have hlater (b : ℕ) (hclock : o.desk.pod.breachedAt = 0 ∨ o.desk.pod.breachedAt = b) :
          ((if o.desk.pod.breachedAt = 0 then [] else tranchesTaken o.desk.pod calls).filter
            fun x => x.time ≤ t).length * liqGraceSecs ≤ t - b ∧
          ∀ x ∈ if o.desk.pod.breachedAt = 0 then [] else tranchesTaken o.desk.pod calls, x.Cuts := by
        split_ifs with hcleared
        · simp
        · rw [← hclock.resolve_left hcleared]
          exact ih hcleared hword
      cases hticks with
      | waits hnone hclock =>
        rw [hnone]
        exact hlater pod.breachedAt hclock
      | spends htaken hgrace hclock hcuts =>
        obtain ⟨hspent, hothers⟩ := hlater (pod.breachedAt + liqGraceSecs) hclock
        have hgrace : pod.breachedAt + liqGraceSecs < c.env.now := hgrace
        rw [if_pos htaken]
        constructor
        · by_cases hbefore : c.env.now ≤ t
          · rw [List.filter_cons_of_pos (by simpa using hbefore), List.length_cons, Nat.add_mul, Nat.one_mul]
            omega
          · rw [List.filter_cons_of_neg (by simpa using hbefore)]
            omega
        · intro x hx
          obtain rfl | hx := List.mem_cons.mp hx
          · exact hcuts
          · exact hothers x hx

/-- The tranches taken by a time are no more than the graces since the breach started. -/
theorem tranches_within_graces (pod pod' : Stock) (first : Call) (calls : List Call) (t : ℕ)
    (hexposure : IsI64 pod.exposure) (hoff : pod.breachedAt = 0) (hstart : repoCall pod first = .ok pod')
    (hon : pod'.breachedAt ≠ 0) :
    ((tranchesTaken pod' calls).filter fun x => x.time ≤ t).length ≤ (t - first.env.now) / liqGraceSecs ∧
      ∀ x ∈ tranchesTaken pod' calls, x.Cuts := by
  obtain ⟨o, ho, rfl⟩ := map_eq_ok.mp hstart
  have hstarted : o.desk.pod.breachedAt = first.env.now := by
    obtain ⟨-, rfl⟩ | ⟨-, o', rfl, hexit⟩ := repoPod_exits ho
    · exact unwind_starts hoff
    · exact (hexit.starts hoff).resolve_left hon
  obtain ⟨hspent, hcuts⟩ := tranches_spend hon (isI64_repoPod ho hexposure) t calls
  rw [hstarted] at hspent
  exact ⟨(Nat.le_div_iff_mul_le (by decide)).mpr hspent, hcuts⟩

end

def freshDesk : Desk := { unleveredDesk with pod := { unleveredDesk.pod with breachedAt := 0 } }

theorem tranches_within_graces_hourly : ∃ o, repoPod (lowPrice 10) freshDesk 0 = .ok o ∧
    o.desk.pod.breachedAt = 10 ∧ (tranchesTaken o.desk.pod (hourlyCranks lowPrice 2 o.desk 3611)).length = 2 ∧
    ((tranchesTaken o.desk.pod (hourlyCranks lowPrice 2 o.desk 3611)).filter fun x => x.time ≤ 7212).length ≤
      (7212 - 10) / liqGraceSecs := by
  refine exists_ok (fun o => o.desk.pod.breachedAt = 10 ∧
    (tranchesTaken o.desk.pod (hourlyCranks lowPrice 2 o.desk 3611)).length = 2) (by decide +kernel) ?_
  rintro o ho ⟨hclock, htwo⟩
  have hstart : repoCall freshDesk.pod (.crank (lowPrice 10) freshDesk) = .ok o.desk.pod := map_eq_ok.mpr ⟨o, ho, rfl⟩
  have hon : o.desk.pod.breachedAt ≠ 0 := by
    rw [hclock]
    decide
  exact ⟨hclock, htwo, (tranches_within_graces _ _ _ _ 7212 (by unfold IsI64; decide) rfl hstart hon).1⟩

end QuidProtocol.Stay
