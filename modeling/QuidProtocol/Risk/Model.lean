import QuidProtocol.Stay.Twap

/-!
The risk engine of a ticker. What would stop it at an overflow of an `i64` is computed with integers.
What the prints leave in the fit of the tail.
-/

namespace QuidProtocol.Risk

open Lib
open Stay (Book Twap bps i64Max powBps satI64 wrapI64 ladderWindowSlots gapMinSlots maxTrancheBps)

def tailFine : ℤ := 100000000

def startingFloorBps : ℤ := 200

def noiseFloorBps : ℤ := 5

def maxCollarBps : ℤ := 5000

def collarBreachBps : ℤ := 100

def insolvencyTargetBps : ℤ := 100

def ladderTriggerBps : ℤ := 5000

def clamp (x lo hi : ℤ) : ℤ := max lo (min x hi)

def moveBps (old price : ℤ) : ℤ := wrapI64 ((|price - old| * bps).tdiv (max 1 (max old price)))

def sqrtX100 (n : ℤ) : ℤ := Book.sqrtFrac (max n 1 * 10000)

def ema (alpha old change : ℤ) : ℤ := (old * (100 - alpha) + change * alpha).tdiv 100

/-- The sampling window, and what the tail is fitted to. -/
structure Fit where
  windowRefPrice : ℤ
  windowSince : ℤ
  obsCount : ℤ
  observedVolBps : ℤ
  downsideVolBps : ℤ
  exceedCount : ℤ
  exceedSum : ℤ
  exceedSumsq : ℤ

namespace Fit

def volFloor (f : Fit) : ℤ :=
  let decay := powBps 9512 f.obsCount
  let blended := (startingFloorBps * 2 * decay + f.observedVolBps * (bps - decay)).tdiv bps
  max (max blended f.observedVolBps) ((startingFloorBps * powBps 9900 f.obsCount).tdiv bps)

def effSigma (f : Fit) : ℤ := f.volFloor

def potThreshold (f : Fit) : ℤ := max 1 f.effSigma

def exceedanceRateBps (f : Fit) : ℤ :=
  if f.obsCount ≤ 0 then 0 else min (bps : ℤ) ((f.exceedCount * bps).tdiv f.obsCount)

def gpdParams (f : Fit) : ℤ × ℤ :=
  let mean := f.exceedSum.tdiv f.exceedCount
  let var := clamp (f.exceedSumsq.tdiv f.exceedCount) 0 i64Max - mean * mean
  let ratio := clamp ((satI64 (satI64 (mean * mean) * bps)).tdiv var) 0 (10 * bps)
  let xi := (bps - ratio).tdiv 2
  if f.exceedCount < 8 then (2, max 1 (f.effSigma.tdiv 2))
  else if mean ≤ 0 then (4, max 1 (f.effSigma.tdiv 2))
  else if var ≤ 0 ∨ xi ≤ 0 then (12, max 1 mean)
  else (clamp ((bps : ℤ).tdiv xi) 2 12, max 1 ((satI64 (mean * (ratio + bps))).tdiv (2 * bps)))

end Fit

def tailLoop (nb den : ℤ) : ℕ → ℤ → ℤ
  | 0, q => q
  | n + 1, q =>
    let q := (q * nb).tdiv den
    if q = 0 then q else tailLoop nb den n q

def tailAtFine (d n beta u zeta : ℤ) : ℤ :=
  let fine := satI64 (zeta * tailFine.tdiv bps)
  let nb := satI64 (n * beta)
  let den := satI64 (nb + (d - u))
  if d ≤ 0 then tailFine
  else if d ≤ u then tailFine - ((tailFine - fine) * d).tdiv u
  else if den ≤ 0 then 0
  else clamp (tailLoop nb den n.toNat fine) 0 tailFine

def tailAt (d n beta u zeta : ℤ) : ℤ :=
  if d ≤ 0 then bps else clamp ((tailAtFine d n beta u zeta).tdiv (tailFine.tdiv bps)) 0 bps

namespace Fit

variable (f : Fit)

def tailProbBps (d : ℤ) : ℤ := tailAt d f.gpdParams.1 f.gpdParams.2 f.potThreshold f.exceedanceRateBps

def tailProbFine (d : ℤ) : ℤ := tailAtFine d f.gpdParams.1 f.gpdParams.2 f.potThreshold f.exceedanceRateBps

def meanExcessBps (d : ℤ) : ℤ :=
  max 1 ((satI64 (satI64 (f.gpdParams.1 * f.gpdParams.2) + max 0 (d - f.potThreshold))).tdiv (max 1 (f.gpdParams.1 - 1)))

def quantileLimit : ℤ := max 100 (f.effSigma * 50)

def quantileBps (p : ℤ) : ℤ := bisect (fun d => f.tailProbBps d ≤ p) 20 0 f.quantileLimit

def expectedShortfallBps (p : ℤ) : ℤ := satI64 (f.quantileBps p + f.meanExcessBps (f.quantileBps p))

def openWindow (old since : ℤ) : Fit :=
  if f.windowRefPrice = 0 then { f with windowRefPrice := old, windowSince := since } else f

def elapsed (slot : ℤ) : ℤ := satI64 (slot - f.windowSince)

def windowMove (price slot : ℤ) : ℤ :=
  let c := moveBps f.windowRefPrice price
  let scaled := wrapI64 ((c * sqrtX100 ((ladderWindowSlots * 10000).tdiv (f.elapsed slot))).tdiv 10000)
  clamp (if ladderWindowSlots < f.elapsed slot then scaled else c) 0 bps

def qualifies (price slot : ℤ) : Bool :=
  ladderWindowSlots ≤ f.elapsed slot ∧ noiseFloorBps ≤ f.windowMove price slot

def rated (change : ℤ) (down : Bool) : Fit :=
  let alpha := if down then 7 else 5
  { f with
    obsCount := min 500 (f.obsCount + 1)
    observedVolBps := max 1 (min 3000 (ema alpha f.observedVolBps change))
    downsideVolBps := if down then ema alpha f.downsideVolBps change else f.downsideVolBps }

def exceeding (change : ℤ) : Fit :=
  let excess := change - f.potThreshold
  if 0 < excess then
    { f with
      exceedCount := satI64 (f.exceedCount + 1)
      exceedSum := satI64 (f.exceedSum + excess)
      exceedSumsq := max (-2 ^ 127) (min (f.exceedSumsq + excess * excess) (2 ^ 127 - 1)) }
  else f

def learn (change : ℤ) (down : Bool) : Fit :=
  if f.observedVolBps = 0 then
    { f with obsCount := min 500 (f.obsCount + 1), observedVolBps := max f.volFloor change }
  else (f.rated change down).exceeding change

def session (price slot : ℤ) : Fit :=
  if ladderWindowSlots ≤ f.elapsed slot then
    let next := { f with windowRefPrice := price, windowSince := slot }
    if f.qualifies price slot then next.learn (f.windowMove price slot) (price < f.windowRefPrice) else next
  else f

def qualifiesGap (change : ℤ) : Bool := max 1 (f.volFloor.tdiv 4) ≤ change

def drawdownFloor : ℤ := max (f.volFloor * 2) (f.observedVolBps * 2)

end Fit

def fade (floor : ℤ) : ℕ → ℤ → ℤ
  | 0, d => d
  | n + 1, d =>
    let d := max floor (d - max 10 (d.tdiv 20))
    if d ≤ floor then d else fade floor n d

def fadeDrawdown (f : Fit) (drawdown dt : ℤ) : ℤ :=
  if dt ≤ 2000 ∨ drawdown ≤ f.drawdownFloor then drawdown
  else fade f.drawdownFloor (min 128 (dt.tdiv 2000)).toNat drawdown

def worst (drawdown change : ℤ) : ℤ := if drawdown < change then min 5000 change else drawdown

structure Actuary extends Fit, Book where
  twapPrice : ℤ
  maxDrawdownBps : ℤ
  shortfallBps : ℤ
  jumpCount : ℤ
  gapCount : ℤ
  gapVolBps : ℤ
  gapMaxBps : ℤ

namespace Actuary

/-- A new account is zeroed, and the deposit that opens its ticker counts ten observations. -/
def fresh (counted : Bool) : Actuary :=
  ⟨⟨0, 0, if counted then 10 else 0, 0, 0, 0, 0, 0⟩, ⟨0, 0, 0, 0, 0, 0, 0⟩, 0, 0, 0, 0, 0, 0, 0⟩

variable (a : Actuary)

def dt (slot : ℤ) : ℤ := max 1 (slot - a.lastPriceSlot)

def twapAfter (price slot : ℤ) : ℤ :=
  (Twap.updatePrice ⟨a.twapPrice, a.lastPrice, a.lastPriceSlot⟩ price slot).twapPrice

def firstPrint (price slot : ℤ) : Actuary :=
  let fit := { a.toFit with observedVolBps := a.volFloor, obsCount := min 500 (a.obsCount + 1) }
  { a with
    toFit := fit
    toBook := a.toBook.updatePrice price slot
    twapPrice := a.twapAfter price slot
    maxDrawdownBps := a.volFloor * 2
    shortfallBps := fit.expectedShortfallBps collarBreachBps }

def gapMaxAfter (vol change dt : ℤ) : ℤ :=
  if a.gapMaxBps < change then min (bps : ℤ) change
  else if vol * 2 < a.gapMaxBps then fade (vol * 2) (min 128 (dt.tdiv gapMinSlots)).toNat a.gapMaxBps
  else a.gapMaxBps

/-- A print after a gap: `observe_gap` and the rest of the branch. -/
def gapPrint (price slot : ℤ) : Actuary :=
  let change := moveBps a.lastPrice price
  let count := min 500 (a.gapCount + 1)
  let vol := if a.gapVolBps = 0 then change else ema (if count < 10 then 40 else 12) a.gapVolBps change
  { a with
    toFit := { a.toFit with
      windowRefPrice := price
      windowSince := slot
      obsCount := if a.qualifiesGap change then min 500 (a.obsCount + 1) else a.obsCount }
    toBook := a.toBook.updatePrice price slot
    twapPrice := a.twapAfter price slot
    maxDrawdownBps := fadeDrawdown a.toFit (worst a.maxDrawdownBps change) (a.dt slot)
    jumpCount := max 0 (a.jumpCount - (a.dt slot).tdiv 1000)
    gapCount := count
    gapVolBps := vol
    gapMaxBps := a.gapMaxAfter vol change (a.dt slot) }

def opened : Fit := a.toFit.openWindow a.lastPrice a.lastPriceSlot

def sessionPrint (price slot : ℤ) : Actuary :=
  let change := moveBps a.lastPrice price
  let fit := a.opened.session price slot
  let jumps := if 0 < a.observedVolBps ∧ a.observedVolBps * 3 < change then min 20 (a.jumpCount + 1) else a.jumpCount
  let drawdown := if 0 < a.observedVolBps then worst a.maxDrawdownBps change else a.maxDrawdownBps
  { a with
    toFit := fit
    toBook := a.toBook.updatePrice price slot
    twapPrice := a.twapAfter price slot
    maxDrawdownBps :=
      if a.observedVolBps = 0 then
        if a.opened.qualifies price slot then max (a.volFloor * 2) (a.opened.windowMove price slot) else drawdown
      else fadeDrawdown fit drawdown (a.dt slot)
    shortfallBps := fit.expectedShortfallBps collarBreachBps
    jumpCount := max 0 (jumps - (a.dt slot).tdiv 1000) }

def updatePrice (print : ℤ × ℤ) : Actuary :=
  if a.lastPrice = 0 then a.firstPrint print.1 print.2
  else if gapMinSlots ≤ a.dt print.2 then a.gapPrint print.1 print.2
  else a.sessionPrint print.1 print.2

def updates (prints : List (ℤ × ℤ)) : Actuary := prints.foldl updatePrice a

def gapQuantileBps (p : ℤ) : ℤ :=
  if a.gapCount < 8 ∨ a.gapVolBps ≤ 0 then 0
  else max (clamp ((a.gapVolBps * a.quantileBps p).tdiv (max a.effSigma 1)) 0 bps) (a.gapMaxBps.tdiv 2)

def boundedMeanExcessBps (d : ℤ) : ℤ :=
  if a.netExposure < 0 then max 1 (min (a.meanExcessBps d) (max 0 (bps - d))) else a.meanExcessBps d

def hazardBps (distance : ℤ) : ℤ := min tailFine (2 * a.tailProbFine (max 0 distance))

def lgdBps (collar : ℤ) : ℤ :=
  max 1 ((a.boundedMeanExcessBps collar * (bps - min (bps : ℤ) maxTrancheBps)).tdiv bps)

def collarBps (lev : ℤ) : ℤ :=
  let es := if 0 < a.shortfallBps then a.shortfallBps else a.expectedShortfallBps collarBreachBps
  if a.effSigma = 0 then startingFloorBps
  else max a.effSigma (min maxCollarBps (if 0 < lev then (es * 100).tdiv lev else es))

end Actuary

def unwindExposureX100 : ℤ := max 100 (Book.sqrtFrac (max 1 (bps * 10000 / max 1 (2 * maxTrancheBps) : ℕ)))

def marginOf (laddered gap : ℤ) : ℤ :=
  if gap ≤ 0 then laddered
  else clamp ((sqrtX100 (min (laddered * laddered + gap * gap) i64Max)).tdiv 100) 1 bps

namespace Actuary

def laddered (a : Actuary) : ℤ :=
  clamp ((max (a.quantileBps insolvencyTargetBps) 1 * unwindExposureX100).tdiv 100) 1 bps

def marginBps (a : Actuary) : ℤ := marginOf a.laddered (a.gapQuantileBps insolvencyTargetBps)

def triggerBps (a : Actuary) : ℤ := max 1 ((a.marginBps * ladderTriggerBps).tdiv bps)

end Actuary

def Fit.exceeds (f : Fit) (price slot : ℤ) : Bool :=
  f.qualifies price slot ∧ f.observedVolBps ≠ 0 ∧
    (f.rated (f.windowMove price slot) (price < f.windowRefPrice)).potThreshold < f.windowMove price slot

namespace Actuary

def inSession (a : Actuary) (print : ℤ × ℤ) : Bool := a.lastPrice ≠ 0 ∧ a.dt print.2 < gapMinSlots

def takesSample (a : Actuary) (print : ℤ × ℤ) : Bool := a.inSession print && a.opened.qualifies print.1 print.2

def recordsExceedance (a : Actuary) (print : ℤ × ℤ) : Bool := a.inSession print && a.opened.exceeds print.1 print.2

def countAlong (P : Actuary → ℤ × ℤ → Bool) : Actuary → List (ℤ × ℤ) → ℕ
  | _, [] => 0
  | a, print :: prints => (if P a print then 1 else 0) + countAlong P (a.updatePrice print) prints

end Actuary

open Actuary

section Counts

variable {f : Fit} {a : Actuary} {print : ℤ × ℤ} {prints : List (ℤ × ℤ)}

theorem Fit.exceeding_counts (f : Fit) (change : ℤ) : (f.exceeding change).exceedCount =
      (if f.potThreshold < change then satI64 (f.exceedCount + 1) else f.exceedCount) ∧
    (f.exceeding change).obsCount = f.obsCount := by
  simp only [Fit.exceeding, sub_pos]
  split_ifs <;> exact ⟨rfl, rfl⟩

theorem Fit.session_counts (f : Fit) (price slot : ℤ) : (f.session price slot).exceedCount =
      (if f.exceeds price slot then satI64 (f.exceedCount + 1) else f.exceedCount) ∧ (f.session price slot).obsCount =
      if f.qualifies price slot then min 500 (f.obsCount + 1) else f.obsCount := by
  by_cases hq : f.qualifies price slot = true
  · rw [Fit.session, if_pos (of_decide_eq_true hq).1]
    by_cases hvol : f.observedVolBps = 0
    · simp [Fit.learn, Fit.exceeds, hq, hvol]
    · simp only [hq, if_true, Fit.learn, hvol, if_false, Fit.exceeding_counts]
      refine ⟨?_, rfl⟩
      simp only [Fit.exceeds, hq, ne_eq, hvol, not_false_eq_true, true_and, decide_eq_true_eq]
      rfl
  · rw [Bool.not_eq_true] at hq
    simp only [Fit.session, Fit.exceeds, hq, Bool.false_eq_true, false_and, decide_false, if_false]
    split_ifs <;> exact ⟨rfl, rfl⟩

theorem print_cases (a : Actuary) (print : ℤ × ℤ) :
    (a.inSession print = true ∧ a.updatePrice print = a.sessionPrint print.1 print.2) ∨
    (a.inSession print = false ∧ a.lastPrice ≠ 0 ∧ gapMinSlots ≤ a.dt print.2 ∧
      a.updatePrice print = a.gapPrint print.1 print.2) ∨
    (a.inSession print = false ∧ a.lastPrice = 0 ∧ a.updatePrice print = a.firstPrint print.1 print.2) := by
  by_cases hfirst : a.lastPrice = 0
  · simp [updatePrice, inSession, hfirst]
  · by_cases hgap : gapMinSlots ≤ a.dt print.2
    · simp [updatePrice, inSession, hfirst, hgap]
    · simp [updatePrice, inSession, hfirst, not_le.mp hgap]

theorem opened_counts (a : Actuary) : a.opened.exceedCount = a.exceedCount ∧ a.opened.obsCount = a.obsCount := by
  simp only [opened, Fit.openWindow]
  split_ifs <;> exact ⟨rfl, rfl⟩

theorem exceedCount_updatePrice (a : Actuary) (print : ℤ × ℤ) : (a.updatePrice print).exceedCount =
    if a.recordsExceedance print then satI64 (a.exceedCount + 1) else a.exceedCount := by
  obtain ⟨hin, heq⟩ | ⟨hout, -, -, heq⟩ | ⟨hout, -, heq⟩ := print_cases a print
  · rw [heq, recordsExceedance, hin, Bool.true_and, ← (opened_counts a).1]
    exact (a.opened.session_counts _ _).1
  · simp [heq, recordsExceedance, hout, gapPrint]
  · simp [heq, recordsExceedance, hout, firstPrint]

theorem obsCount_updatePrice (h : a.obsCount ≤ 500) (print : ℤ × ℤ) : (a.updatePrice print).obsCount ≤ 500 ∧
    min 500 (a.obsCount + if a.takesSample print then 1 else 0) ≤ (a.updatePrice print).obsCount := by
  obtain ⟨hin, heq⟩ | ⟨hout, -, -, heq⟩ | ⟨hout, -, heq⟩ := print_cases a print
  · have hobs := (a.opened.session_counts print.1 print.2).2
    rw [(opened_counts a).2] at hobs
    rw [heq, takesSample, hin, Bool.true_and, sessionPrint]
    dsimp only
    rw [hobs]
    split_ifs <;> omega
  · rw [heq, takesSample, hout, gapPrint]
    dsimp only
    split_ifs <;> simp_all
  · simp [heq, takesSample, hout, firstPrint]

theorem recordsExceedance_takesSample (h : a.recordsExceedance print = true) : a.takesSample print = true := by
  obtain ⟨hin, hex⟩ := Bool.and_eq_true_iff.mp h
  exact Bool.and_eq_true_iff.mpr ⟨hin, (of_decide_eq_true hex).1⟩

theorem exceedances_le_samples (a : Actuary) (prints : List (ℤ × ℤ)) :
    countAlong recordsExceedance a prints ≤ countAlong takesSample a prints := by
  induction prints generalizing a with
  | nil => exact le_rfl
  | cons print prints ih =>
    have hrest := ih (a.updatePrice print)
    simp only [countAlong]
    by_cases hrec : a.recordsExceedance print = true
    · simp [hrec, recordsExceedance_takesSample hrec, hrest]
    · rw [if_neg hrec]
      omega

theorem exceedCount_updates {e : ℕ} (h : a.exceedCount = min (e : ℤ) (2 ^ 63 - 1)) (prints : List (ℤ × ℤ)) :
    (a.updates prints).exceedCount = min (e + countAlong recordsExceedance a prints : ℤ) (2 ^ 63 - 1) := by
  induction prints generalizing a e with
  | nil => simpa [countAlong, updates] using h
  | cons print prints ih =>
    have hstep := exceedCount_updatePrice a print
    simp only [countAlong, updates, List.foldl_cons] at ih ⊢
    split_ifs at hstep ⊢ with hrec
    · have hnext : (a.updatePrice print).exceedCount = min ((e + 1 : ℕ) : ℤ) (2 ^ 63 - 1) := by
        rw [hstep, h, satI64]
        omega
      rw [ih hnext]
      push_cast
      omega
    · rw [ih (hstep.trans h)]
      push_cast
      omega

theorem obsCount_updates (h : a.obsCount ≤ 500) (prints : List (ℤ × ℤ)) : (a.updates prints).obsCount ≤ 500 ∧
    min 500 (a.obsCount + countAlong takesSample a prints) ≤ (a.updates prints).obsCount := by
  induction prints generalizing a with
  | nil => simp [countAlong, updates, h]
  | cons print prints ih =>
    obtain ⟨hle, hge⟩ := obsCount_updatePrice h print
    have hrest := ih hle
    simp only [countAlong, updates, List.foldl_cons] at hrest ⊢
    split_ifs at hge ⊢ <;> push_cast <;> omega

end Counts

def samples (counted : Bool) (prints : List (ℤ × ℤ)) : ℕ := countAlong takesSample (fresh counted) prints

def exceedances (counted : Bool) (prints : List (ℤ × ℤ)) : ℕ := countAlong recordsExceedance (fresh counted) prints

/-- The count of the observations stops at 500 and that of the exceedances does not. -/
theorem exceedance_rate_empirical_iff (counted : Bool) (prints : List (ℤ × ℤ)) :
    ((fresh counted).updates prints).exceedanceRateBps ≤
        (10000 * exceedances counted prints / samples counted prints : ℕ) ↔
      samples counted prints ≤ 500 ∨ exceedances counted prints = 0 ∨
        exceedances counted prints = samples counted prints := by
  have hle : exceedances counted prints ≤ samples counted prints := exceedances_le_samples _ prints
  have hcount : ((fresh counted).updates prints).exceedCount = min (exceedances counted prints : ℤ) (2 ^ 63 - 1) := by
    have h := exceedCount_updates (a := fresh counted) (e := 0) rfl prints
    rwa [Nat.cast_zero, zero_add] at h
  obtain ⟨hmost, hleast⟩ := obsCount_updates (a := fresh counted) (by cases counted <;> decide) prints
  have hstart : 0 ≤ (fresh counted).obsCount := by cases counted <;> decide
  rw [← samples] at hleast
  have hbps : (bps : ℤ) = 10000 := rfl
  generalize exceedances counted prints = e at *
  generalize samples counted prints = q at *
  generalize (fresh counted).updates prints = b at *
  rw [Fit.exceedanceRateBps, hcount, hbps, Int.tdiv_eq_ediv_of_nonneg (by omega)]
  generalize hm : min (e : ℤ) (2 ^ 63 - 1) = m
  by_cases hq : q ≤ 500
  · refine iff_of_true ?_ (.inl hq)
    split_ifs with hobs
    · exact Int.natCast_nonneg _
    · apply min_le_of_right_le
      obtain rfl | hpos := Nat.eq_zero_or_pos q
      · obtain rfl : m = 0 := by omega
        simp
      · push_cast
        rw [Int.le_ediv_iff_mul_le (by omega)]
        have hdiv := Int.ediv_mul_le (m * 10000) (b := b.obsCount) (by omega)
        have hmul : m * 10000 / b.obsCount * q ≤ m * 10000 / b.obsCount * b.obsCount :=
          mul_le_mul_of_nonneg_left (by omega) (Int.ediv_nonneg (by omega) (by omega))
        omega
  · have hobs : b.obsCount = 500 := by omega
    rw [hobs, if_neg (by decide)]
    constructor
    · intro hrate
      by_contra hne
      have hfew : 10000 * e / q < 10000 := (Nat.div_lt_iff_lt_mul (by omega)).mpr (by omega)
      have hmore := Nat.mul_le_mul_left (20 * e) (show 501 ≤ q by omega)
      have hless : 10000 * e / q < 20 * e := (Nat.div_lt_iff_lt_mul (by omega)).mpr (by omega)
      omega
    · rintro (hfew | rfl | rfl)
      · omega
      · rw [Nat.mul_zero, Nat.zero_div]
        omega
      · rw [Nat.mul_div_cancel _ (by omega)]
        omega

def crowdedPrints : List (ℤ × ℤ) :=
  (1000000, 0) :: (1100000, 9000) :: (List.range 500).map fun n => (1101000 - 1000 * (n % 2), 9000 * (n + 2))

theorem exceedance_rate_overstated : samples true crowdedPrints = 501 ∧ exceedances true crowdedPrints = 1 ∧
      ¬ ((fresh true).updates crowdedPrints).exceedanceRateBps ≤
        (10000 * exceedances true crowdedPrints / samples true crowdedPrints : ℕ) := by
  decide +kernel

/-! A print inside of a window leaves only the last price. -/

structure Actuary.Open (a : Actuary) : Prop where
  window : a.windowRefPrice ≠ 0
  price : a.lastPrice ≠ 0

structure Actuary.Inside (a : Actuary) (print : ℤ × ℤ) : Prop where
  price : print.1 ≠ 0
  window : print.2 - a.windowSince < ladderWindowSlots
  session : a.dt print.2 < gapMinSlots

def Actuary.samplesGap (a : Actuary) (price : ℤ) : Bool := a.qualifiesGap (moveBps a.lastPrice price)

inductive Alike : Actuary → Actuary → List (ℤ × ℤ) → List (ℤ × ℤ) → Prop
  | nil (a b : Actuary) : Alike a b [] []
  | left {a b print xs ys : _} (inside : a.Inside print)
    (rest : Alike (a.updatePrice print) b xs ys) : Alike a b (print :: xs) ys
  | right {a b print xs ys : _} (inside : b.Inside print)
    (rest : Alike a (b.updatePrice print) xs ys) : Alike a b xs (print :: ys)
  | both {a b print xs ys : _} (price : print.1 ≠ 0)
    (gap : gapMinSlots ≤ a.dt print.2 ↔ gapMinSlots ≤ b.dt print.2)
    (sampled : gapMinSlots ≤ a.dt print.2 → a.samplesGap print.1 = b.samplesGap print.1)
    (rest : Alike (a.updatePrice print) (b.updatePrice print) xs ys) : Alike a b (print :: xs) (print :: ys)

section Extra

variable {a b : Actuary} {print : ℤ × ℤ} {xs ys : List (ℤ × ℤ)}

theorem Actuary.Open.opened (h : a.Open) : a.opened = a.toFit := if_neg h.window

theorem toFit_gap (h : a.Open) (hgap : gapMinSlots ≤ a.dt print.2) :
    (a.updatePrice print).toFit = (a.gapPrint print.1 print.2).toFit := by
  rw [updatePrice, if_neg h.price, if_pos hgap]

theorem toFit_session (h : a.Open) (hgap : ¬ gapMinSlots ≤ a.dt print.2) :
    (a.updatePrice print).toFit = a.toFit.session print.1 print.2 := by
  rw [updatePrice, if_neg h.price, if_neg hgap, sessionPrint, h.opened]

theorem lastPrice_updatePrice (a : Actuary) (print : ℤ × ℤ) : (a.updatePrice print).lastPrice = print.1 := by
  simp only [updatePrice, firstPrint, gapPrint, sessionPrint, Stay.Book.updatePrice]
  split_ifs <;> rfl

theorem Fit.session_windowRefPrice {f : Fit} {price : ℤ} (h : f.windowRefPrice ≠ 0) (hprice : price ≠ 0) (slot : ℤ) :
    (f.session price slot).windowRefPrice ≠ 0 := by
  simp only [Fit.session, Fit.learn, Fit.exceeding, Fit.rated]
  split_ifs <;> assumption

theorem Actuary.Open.updatePrice (h : a.Open) (hprice : print.1 ≠ 0) : (a.updatePrice print).Open := by
  constructor
  · by_cases hgap : gapMinSlots ≤ a.dt print.2
    · rw [toFit_gap h hgap]
      exact hprice
    · rw [toFit_session h hgap]
      exact Fit.session_windowRefPrice h.window hprice _
  · rwa [lastPrice_updatePrice]

theorem Actuary.Inside.toFit (hin : a.Inside print) (h : a.Open) : (a.updatePrice print).toFit = a.toFit := by
  have hwindow : ¬ ladderWindowSlots ≤ a.elapsed print.2 := by
    have := hin.window
    have : ladderWindowSlots = 9000 := rfl
    unfold Fit.elapsed satI64
    omega
  rw [toFit_session h (not_le.mpr hin.session), Fit.session, if_neg hwindow]

theorem toFit_both (hfit : a.toFit = b.toFit) (ha : a.Open) (hb : b.Open)
    (hgap : gapMinSlots ≤ a.dt print.2 ↔ gapMinSlots ≤ b.dt print.2)
    (hsampled : gapMinSlots ≤ a.dt print.2 → a.samplesGap print.1 = b.samplesGap print.1) :
    (a.updatePrice print).toFit = (b.updatePrice print).toFit := by
  by_cases hdt : gapMinSlots ≤ a.dt print.2
  · rw [toFit_gap ha hdt, toFit_gap hb (hgap.mp hdt)]
    have heq := hsampled hdt
    rw [samplesGap, samplesGap, hfit] at heq
    simp only [gapPrint, hfit, heq]
  · rw [toFit_session ha hdt, toFit_session hb (hdt ∘ hgap.mpr), hfit]

theorem Alike.toFit (h : Alike a b xs ys) (hfit : a.toFit = b.toFit) (ha : a.Open) (hb : b.Open) :
    (a.updates xs).toFit = (b.updates ys).toFit := by
  induction h with
  | nil => exact hfit
  | left inside rest ih => exact ih ((inside.toFit ha).trans hfit) (ha.updatePrice inside.price) hb
  | right inside rest ih => exact ih (hfit.trans (inside.toFit hb).symm) ha (hb.updatePrice inside.price)
  | both price gap sampled rest ih =>
    exact ih (toFit_both hfit ha hb gap sampled) (ha.updatePrice price) (hb.updatePrice price)

end Extra

theorem extra_prints_shape_nothing (a : Actuary) (xs ys : List (ℤ × ℤ)) (hopen : a.Open) (h : Alike a a xs ys) :
    (a.updates xs).toFit = (a.updates ys).toFit :=
  h.toFit rfl hopen hopen

def openedTicker : Actuary := (fresh true).updates [(1000000, 0), (1000000, 10)]

theorem extra_prints_sample : openedTicker.Open ∧
    Alike openedTicker openedTicker [(1010000, 100), (1020000, 9100)] [(1020000, 9100)] ∧
    (openedTicker.updates [(1010000, 100), (1020000, 9100)]).toFit =
      (openedTicker.updates [(1020000, 9100)]).toFit := by
  have hopen : openedTicker.Open := by constructor <;> decide +kernel
  have halike : Alike openedTicker openedTicker [(1010000, 100), (1020000, 9100)] [(1020000, 9100)] := by
    apply Alike.left
    · constructor <;> decide +kernel
    · apply Alike.both _ _ _ (Alike.nil _ _)
      all_goals decide +kernel
  exact ⟨hopen, halike, extra_prints_shape_nothing _ _ _ hopen halike⟩

theorem extra_print_hides_gap : openedTicker.windowRefPrice ≠ 0 ∧ 100 - openedTicker.windowSince < ladderWindowSlots ∧
    gapMinSlots ≤ openedTicker.dt 72100 ∧ gapMinSlots ≤ (openedTicker.updatePrice (1050000, 100)).dt 72100 ∧
    (openedTicker.updates [(1050000, 100), (1050000, 72100)]).obsCount ≠
      (openedTicker.updates [(1050000, 72100)]).obsCount := by
  decide +kernel

end QuidProtocol.Risk
