import QuidProtocol.Risk.Model
import Mathlib.Order.Bounds.Basic
import Mathlib.Order.Iterate

/-!
The survival function of the fitted tail, and its inverse.
The memory of the drawdown, which fades with the time between the prints at one price.
The margin of a ticker, its laddered and its gap part added as variances, and what `fee_bps` takes from its hazard.
-/

namespace QuidProtocol.Risk

open Lib Actuary
open Stay (bps powBps satI64 wrapI64 gapMinSlots Book i64Max secondsPerYear minHoldSecs maxLeveragePct maxTrancheBps)

theorem scaled_le {q q' nb den den' : ℤ} (hq' : 0 ≤ q') (hq : q' ≤ q) (hnb : 0 ≤ nb) (hden : 0 < den)
    (hdens : den ≤ den') : (q' * nb).tdiv den' ≤ (q * nb).tdiv den := by
  have hprod := mul_nonneg hq' hnb
  have hmore := mul_le_mul_of_nonneg_right hq hnb
  rw [Int.tdiv_eq_ediv_of_nonneg hprod, Int.tdiv_eq_ediv_of_nonneg (hprod.trans hmore), Int.le_ediv_iff_mul_le hden]
  have hback := Int.ediv_mul_le (q' * nb) (b := den') (by omega)
  have hless := mul_le_mul_of_nonneg_left hdens (Int.ediv_nonneg hprod (by omega : (0 : ℤ) ≤ den'))
  omega

theorem scaled_range {q nb den : ℤ} (hq : 0 ≤ q) (hnb : 0 ≤ nb) (hpos : 0 < den) (hden : nb ≤ den) :
    0 ≤ (q * nb).tdiv den ∧ (q * nb).tdiv den ≤ q := by
  have hprod := mul_nonneg hq hnb
  rw [Int.tdiv_eq_ediv_of_nonneg hprod]
  refine ⟨Int.ediv_nonneg hprod hpos.le, Int.ediv_le_of_le_mul hpos ?_⟩
  exact mul_le_mul_of_nonneg_left hden hq

theorem tailLoop_range {nb den : ℤ} (hnb : 0 ≤ nb) (hpos : 0 < den) (hden : nb ≤ den) (n : ℕ) {q : ℤ} (hq : 0 ≤ q) :
    0 ≤ tailLoop nb den n q ∧ tailLoop nb den n q ≤ q := by
  induction n generalizing q with
  | zero => exact ⟨hq, le_rfl⟩
  | succ n ih =>
    obtain ⟨hnonneg, hle⟩ := scaled_range hq hnb hpos hden
    simp only [tailLoop]
    split_ifs
    · exact ⟨hnonneg, hle⟩
    · exact ⟨(ih hnonneg).1, (ih hnonneg).2.trans hle⟩

theorem tailLoop_le {nb den den' : ℤ} (hnb : 0 ≤ nb) (hpos : 0 < den) (hden : nb ≤ den) (hdens : den ≤ den') (n : ℕ)
    {q q' : ℤ} (hq' : 0 ≤ q') (hq : q' ≤ q) : tailLoop nb den' n q' ≤ tailLoop nb den n q := by
  induction n generalizing q q' with
  | zero => exact hq
  | succ n ih =>
    have hle := scaled_le hq' hq hnb hpos hdens
    have hnonneg := (scaled_range hq' hnb (hpos.trans_le hdens) (hden.trans hdens)).1
    simp only [tailLoop]
    split_ifs with hzero hzero'
    · exact hle
    · rw [hzero]
      exact (tailLoop_range hnb hpos hden n (hnonneg.trans hle)).1
    · omega
    · exact ih hnonneg hle

/-- What every fit has: a shape, a scale, a threshold and a rate. -/
structure Fitted (n beta u zeta : ℤ) : Prop where
  shape : 0 ≤ n
  scale : 0 < n * beta
  threshold : 0 < u
  rate : 0 ≤ zeta ∧ zeta ≤ 10000

section Survival

variable {n beta u zeta : ℤ} {d e : ℤ} (h : Fitted n beta u zeta)

include h

theorem fine_eq : satI64 (zeta * tailFine.tdiv bps) = zeta * 10000 := by
  have hrate := h.rate
  rw [show tailFine.tdiv bps = 10000 from rfl, satI64]
  omega

theorem scale_le (hd : u < d) : 0 < satI64 (n * beta) ∧ satI64 (n * beta) ≤ satI64 (satI64 (n * beta) + (d - u)) := by
  have hscale := h.scale
  unfold satI64
  omega

theorem tailAtFine_inner (hpos : 0 < d) (hd : d ≤ u) :
    tailAtFine d n beta u zeta = tailFine - ((tailFine - zeta * 10000) * d).tdiv u := by
  rw [tailAtFine, fine_eq h, if_neg (not_le.mpr hpos), if_pos hd]

theorem tailAtFine_outer (hd : u < d) : tailAtFine d n beta u zeta =
    tailLoop (satI64 (n * beta)) (satI64 (satI64 (n * beta) + (d - u))) n.toNat (zeta * 10000) := by
  obtain ⟨hnb, hden⟩ := scale_le h hd
  have hrate := h.rate
  have hrange := tailLoop_range hnb.le (hnb.trans_le hden) hden n.toNat (q := zeta * 10000) (by omega)
  have hpos := h.threshold
  rw [tailAtFine, fine_eq h, if_neg (by omega), if_neg (by omega), if_neg (by omega), clamp,
    show tailFine = 100000000 from rfl]
  omega

theorem tailAtFine_le (hpos : 0 < d) : 0 ≤ tailAtFine d n beta u zeta ∧ tailAtFine d n beta u zeta ≤ tailFine ∧
    (d ≤ u → zeta * 10000 ≤ tailAtFine d n beta u zeta) ∧ (u < d → tailAtFine d n beta u zeta ≤ zeta * 10000) := by
  have hrate := h.rate
  have hfine : tailFine = 100000000 := rfl
  by_cases hd : d ≤ u
  · have hpart := scaled_range (q := tailFine - zeta * 10000) (by omega) hpos.le h.threshold hd
    rw [tailAtFine_inner h hpos hd]
    omega
  · obtain ⟨hnb, hden⟩ := scale_le h (not_le.mp hd)
    have hrange := tailLoop_range hnb.le (hnb.trans_le hden) hden n.toNat (q := zeta * 10000) (by omega)
    rw [tailAtFine_outer h (not_le.mp hd)]
    omega

theorem tailAtFine_antitone (hpos : 0 < d) (hde : d ≤ e) : tailAtFine e n beta u zeta ≤ tailAtFine d n beta u zeta := by
  have hrate := h.rate
  have hfine : tailFine = 100000000 := rfl
  obtain ⟨-, -, hinner, -⟩ := tailAtFine_le h hpos
  obtain ⟨-, -, -, houter⟩ := tailAtFine_le h (hpos.trans_le hde)
  by_cases he : e ≤ u
  · have hpart := @scaled_le e d (tailFine - zeta * 10000) u u hpos.le hde (by omega) h.threshold le_rfl
    rw [mul_comm d, mul_comm e] at hpart
    rw [tailAtFine_inner h (hpos.trans_le hde) he, tailAtFine_inner h hpos (hde.trans he)]
    omega
  · by_cases hd : d ≤ u
    · exact (houter (not_le.mp he)).trans (hinner hd)
    · obtain ⟨hnb, hden⟩ := scale_le h (not_le.mp hd)
      rw [tailAtFine_outer h (not_le.mp hd), tailAtFine_outer h (not_le.mp he)]
      apply tailLoop_le hnb.le (hnb.trans_le hden) hden _ _ (by omega) le_rfl
      unfold satI64
      omega

theorem tailAt_antitone (hde : d ≤ e) : tailAt e n beta u zeta ≤ tailAt d n beta u zeta := by
  by_cases hd : d ≤ 0
  · rw [tailAt, tailAt, if_pos hd]
    unfold clamp
    split_ifs <;> omega
  · have hpos := not_le.mp hd
    have hfine := tailAtFine_antitone h hpos hde
    have hrange := (tailAtFine_le h hpos).1
    have hrange' := (tailAtFine_le h (hpos.trans_le hde)).1
    rw [tailAt, tailAt, if_neg hd, if_neg (by omega), show tailFine.tdiv bps = 10000 from rfl, clamp, clamp,
      Int.tdiv_eq_ediv_of_nonneg hrange, Int.tdiv_eq_ediv_of_nonneg hrange']
    omega

end Survival

theorem tailAt_range (d n beta u zeta : ℤ) : 0 ≤ tailAt d n beta u zeta ∧ tailAt d n beta u zeta ≤ 10000 := by
  rw [tailAt, show (bps : ℤ) = 10000 from rfl, clamp]
  split_ifs <;> omega

/-! Every state that is reached has a fit. -/

structure Fit.Sound (f : Fit) : Prop where
  exceedCount : 0 ≤ f.exceedCount
  observedVol : 0 ≤ f.observedVolBps ∧ f.observedVolBps ≤ 10000

theorem powBps_range (base n : ℤ) : 0 ≤ powBps base n ∧ powBps base n ≤ 10000 := by
  unfold powBps
  split_ifs
  · decide
  · have hle := @powFixed_le bps (max 0 (min base bps)).toNat (by omega) 64 bps n.toNat
    have hbps : bps = 10000 := rfl
    omega

section Reached

variable {f : Fit} {a : Actuary}

theorem Fit.Sound.volFloor (h : f.Sound) : 0 ≤ f.volFloor ∧ f.volFloor ≤ 10000 := by
  obtain ⟨hprior, hprior'⟩ := powBps_range 9512 f.obsCount
  obtain ⟨hstruct, hstruct'⟩ := powBps_range 9900 f.obsCount
  obtain ⟨hvol, hvol'⟩ := h.observedVol
  have hrest : 0 ≤ 10000 - powBps 9512 f.obsCount := by omega
  have hempirical := mul_nonneg hvol hrest
  have hempirical' := mul_le_mul_of_nonneg_right hvol' hrest
  simp only [Fit.volFloor, startingFloorBps, show (bps : ℤ) = 10000 from rfl]
  rw [Int.tdiv_eq_ediv_of_nonneg (by omega), Int.tdiv_eq_ediv_of_nonneg (by omega)]
  omega

theorem Fit.Sound.fitted (h : f.Sound) : Fitted f.gpdParams.1 f.gpdParams.2 f.potThreshold f.exceedanceRateBps := by
  have hcount := h.exceedCount
  have hparams : 2 ≤ f.gpdParams.1 ∧ 1 ≤ f.gpdParams.2 := by
    unfold Fit.gpdParams
    dsimp only
    split_ifs
    · exact ⟨le_rfl, le_max_left _ _⟩
    · exact ⟨show (2 : ℤ) ≤ 4 by decide, le_max_left _ _⟩
    · exact ⟨show (2 : ℤ) ≤ 12 by decide, le_max_left _ _⟩
    · exact ⟨le_max_left _ _, le_max_left _ _⟩
  constructor
  · omega
  · exact mul_pos (by omega) (by omega)
  · exact lt_max_of_lt_left one_pos
  · rw [Fit.exceedanceRateBps, show (bps : ℤ) = 10000 from rfl]
    split_ifs
    · omega
    · have hnonneg : 0 ≤ (f.exceedCount * 10000).tdiv f.obsCount := Int.tdiv_nonneg (by omega) (by omega)
      omega

theorem Fit.Sound.learn (h : f.Sound) {change} (hc : change ≤ 10000) (down : Bool) : (f.learn change down).Sound := by
  have hcount := h.exceedCount
  have hfloor := h.volFloor
  simp only [Fit.learn, Fit.exceeding]
  split_ifs
  · exact ⟨hcount, by dsimp only; omega⟩
  · constructor <;> dsimp only [Fit.rated]
    · unfold satI64
      omega
    · omega
  · exact ⟨hcount, by dsimp only [Fit.rated]; omega⟩

theorem Fit.Sound.session (h : f.Sound) (price slot : ℤ) : (f.session price slot).Sound := by
  have hnext : Fit.Sound { f with windowRefPrice := price, windowSince := slot } := ⟨h.exceedCount, h.observedVol⟩
  simp only [Fit.session]
  split_ifs
  · apply hnext.learn
    rw [Fit.windowMove, clamp, show (bps : ℤ) = 10000 from rfl]
    omega
  · exact hnext
  · exact h

theorem Fit.Sound.updatePrice (h : a.Sound) (print : ℤ × ℤ) : (a.updatePrice print).Sound := by
  obtain ⟨-, heq⟩ | ⟨-, -, -, heq⟩ | ⟨-, -, heq⟩ := print_cases a print
  · have hopened : a.opened.Sound := by
      simp only [Actuary.opened, Fit.openWindow]
      split_ifs
      · exact ⟨h.exceedCount, h.observedVol⟩
      · exact h
    rw [heq]
    exact hopened.session _ _
  · rw [heq]
    exact ⟨h.exceedCount, h.observedVol⟩
  · rw [heq]
    exact ⟨h.exceedCount, h.volFloor⟩

theorem Fit.Sound.updates (h : a.Sound) (prints : List (ℤ × ℤ)) : (a.updates prints).Sound := by
  induction prints generalizing a with
  | nil => exact h
  | cons print prints ih => exact ih (h.updatePrice print)

end Reached

structure Fit.Inverts (f : Fit) (p : ℤ) : Prop where
  antitone : ∀ d e, d ≤ e → f.tailProbBps e ≤ f.tailProbBps d
  range : ∀ d, 0 ≤ f.tailProbBps d ∧ f.tailProbBps d ≤ 10000
  least : ∀ d, IsLeast {x | 1 ≤ x ∧ f.tailProbBps x ≤ p} d → d ≤ f.quantileLimit → f.quantileBps p = d
  limit : (∀ d, 1 ≤ d → d ≤ f.quantileLimit → p < f.tailProbBps d) → f.quantileBps p = f.quantileLimit

theorem quantile_inverts_tail (counted : Bool) (prints : List (ℤ × ℤ)) (p : ℤ) :
    ((Actuary.fresh counted).updates prints).Inverts p := by
  have hsound : ((Actuary.fresh counted).updates prints).Sound :=
    Fit.Sound.updates ⟨le_rfl, by cases counted <;> decide⟩ prints
  generalize ((Actuary.fresh counted).updates prints).toFit = f at *
  have hanti : ∀ d e, d ≤ e → f.tailProbBps e ≤ f.tailProbBps d := fun d e => tailAt_antitone hsound.fitted
  have hfloor := hsound.volFloor
  obtain ⟨⟨hpos, hle⟩, hbelow, hat⟩ := @bisect_spec (fun d => f.tailProbBps d ≤ p)
    (fun x y hxy hx => decide_eq_true ((hanti x y hxy).trans (of_decide_eq_true hx))) 20 0 f.quantileLimit
    (lt_max_of_lt_left (by decide)) (by unfold Fit.quantileLimit Fit.effSigma; omega)
  refine ⟨hanti, fun d => tailAt_range _ _ _ _ _, ?_, ?_⟩
  · rintro d ⟨⟨hd, hdp⟩, hleast⟩ hlimit
    apply le_antisymm
    · by_contra hlt
      exact of_decide_eq_false (hbelow d hd (not_le.mp hlt)) hdp
    · by_contra hlt
      exact hlt (hleast ⟨hpos, of_decide_eq_true (hat ((not_le.mp hlt).trans_le hlimit))⟩)
  · intro hnone
    by_contra hne
    have hlt := lt_of_le_of_ne hle hne
    exact absurd (of_decide_eq_true (hat hlt)) (not_le.mpr (hnone _ hpos hlt.le))

def fadeStep (floor d : ℤ) : ℤ := if d ≤ floor then d else max floor (d - max 10 (d.tdiv 20))

def fadeSteps (dt : ℤ) : ℕ := if dt ≤ 2000 then 0 else (min 128 (dt.tdiv 2000)).toNat

section Fade

variable {floor d e : ℤ} {k n : ℕ}

theorem fadeStep_iterate_below (h : d ≤ floor) (n : ℕ) : (fadeStep floor)^[n] d = d := by
  apply Function.iterate_fixed
  exact if_pos h

theorem fade_eq (h : floor < d) (n : ℕ) : fade floor n d = (fadeStep floor)^[n] d := by
  induction n generalizing d with
  | zero => rfl
  | succ n ih =>
    rw [fade, Function.iterate_succ_apply, fadeStep, if_neg (not_le.mpr h)]
    split_ifs with hdone
    · exact (fadeStep_iterate_below hdone n).symm
    · exact ih (not_le.mp hdone)

theorem fadeDrawdown_eq (f d dt) : fadeDrawdown f d dt = (fadeStep f.drawdownFloor)^[fadeSteps dt] d := by
  unfold fadeDrawdown fadeSteps
  split_ifs with hnone hshort hshort
  · rfl
  · exact (fadeStep_iterate_below (hnone.resolve_left hshort) _).symm
  · exact absurd (.inl hshort) hnone
  · exact fade_eq (by omega) _

theorem fadeStep_iterate_antitone (floor d : ℤ) : Antitone fun n => (fadeStep floor)^[n] d := by
  have hle : fadeStep floor ≤ id := by
    intro x
    simp only [fadeStep, id_eq]
    split_ifs <;> omega
  intro k n hkn
  exact Function.antitone_iterate_of_le_id hle hkn d

theorem le_fadeStep_iterate (h : floor ≤ d) (n : ℕ) : floor ≤ (fadeStep floor)^[n] d := by
  induction n generalizing d with
  | zero => exact h
  | succ n ih =>
    rw [Function.iterate_succ_apply]
    apply ih
    unfold fadeStep
    split_ifs
    · exact h
    · exact le_max_left _ _

def unfloored (d : ℤ) : ℤ := d - max 10 (d.tdiv 20)

theorem unfloored_mono : Monotone unfloored := by
  intro d e hde
  simp only [unfloored]
  rw [Int.tdiv_eq_ediv, Int.tdiv_eq_ediv, show Int.sign 20 = 1 from rfl]
  split_ifs <;> omega

theorem fadeStep_iterate_le (h : d ≤ e) (n : ℕ) : (fadeStep floor)^[n] d ≤ max floor (unfloored^[n] e) := by
  induction n generalizing d e with
  | zero => exact le_max_of_le_right h
  | succ n ih =>
    rw [Function.iterate_succ_apply, Function.iterate_succ_apply]
    by_cases hlow : fadeStep floor d ≤ floor
    · rw [fadeStep_iterate_below hlow]
      exact le_max_of_le_left hlow
    · apply ih
      have hmono := unfloored_mono h
      unfold fadeStep at hlow ⊢
      unfold unfloored at hmono ⊢
      split_ifs at hlow ⊢ <;> omega

/-- 128 steps take any drawdown that is kept to the floor. -/
theorem fadeStep_iterate_cap (hfloor : 0 ≤ floor) (hd : d ≤ 20000) (n : ℕ) :
    (fadeStep floor)^[min 128 n] d = (fadeStep floor)^[n] d := by
  obtain hn | hn := le_total n 128
  · rw [min_eq_right hn]
  · have hcap : (fadeStep floor)^[128] d ≤ floor := by
      have hle : (fadeStep floor)^[128] d ≤ _ := fadeStep_iterate_le hd 128
      rwa [max_eq_left ((show unfloored^[128] 20000 ≤ 0 by decide +kernel).trans hfloor)] at hle
    obtain ⟨m, rfl⟩ := Nat.exists_eq_add_of_le' hn
    rw [min_eq_left hn, Function.iterate_add_apply, fadeStep_iterate_below hcap]

end Fade

theorem Fit.volFloor_nonneg (f : Fit) : 0 ≤ f.volFloor := by
  apply le_max_of_le_right
  exact Int.tdiv_nonneg (mul_nonneg (by decide) (powBps_range 9900 f.obsCount).1) (by decide)

theorem Fit.drawdownFloor_nonneg (f : Fit) : 0 ≤ f.drawdownFloor := by
  have hvol := f.volFloor_nonneg
  unfold Fit.drawdownFloor
  omega

/-! A print at the last price that takes no sample. -/

section Still

variable {a b : Actuary} {slot : ℤ}

theorem moveBps_self (price : ℤ) : moveBps price price = 0 := by simp [moveBps, wrapI64, Stay.asI64, Stay.asU64]

theorem worst_zero {d} (h : 0 ≤ d) : worst d 0 = d := if_neg (not_lt.mpr h)

theorem session_quiet {f : Fit} {price : ℤ} (h : f.qualifies price slot = false) :
    ∃ r s, f.session price slot = { f with windowRefPrice := r, windowSince := s } := by
  simp only [Fit.session, h, Bool.false_eq_true, if_false]
  split_ifs
  · exact ⟨price, slot, rfl⟩
  · exact ⟨f.windowRefPrice, f.windowSince, rfl⟩

theorem lastPriceSlot_updatePrice (a : Actuary) (print : ℤ × ℤ) : (a.updatePrice print).lastPriceSlot = print.2 := by
  simp only [updatePrice, firstPrint, gapPrint, sessionPrint, Stay.Book.updatePrice]
  split_ifs <;> rfl

def stillSteps (a : Actuary) (slot : ℤ) : ℕ :=
  if a.observedVolBps = 0 ∧ a.dt slot < gapMinSlots then 0 else fadeSteps (a.dt slot)

theorem still_print (hprice : a.lastPrice ≠ 0) (hd : 0 ≤ a.maxDrawdownBps)
    (hquiet : a.takesSample (a.lastPrice, slot) = false) :
    (∃ r s, (a.updatePrice (a.lastPrice, slot)).toFit = { a.toFit with windowRefPrice := r, windowSince := s }) ∧
      (a.updatePrice (a.lastPrice, slot)).maxDrawdownBps =
        (fadeStep a.drawdownFloor)^[stillSteps a slot] a.maxDrawdownBps := by
  obtain ⟨hin, heq⟩ | ⟨-, -, hgap, heq⟩ | ⟨-, hnone, -⟩ := print_cases a (a.lastPrice, slot)
  · obtain ⟨-, hdt⟩ := of_decide_eq_true hin
    rw [takesSample, hin, Bool.true_and] at hquiet
    obtain ⟨r, s, hfit⟩ : ∃ r s, a.opened.session a.lastPrice slot =
        { a.toFit with windowRefPrice := r, windowSince := s } := by
      obtain ⟨r, s, hfit⟩ := session_quiet hquiet
      refine ⟨r, s, hfit.trans ?_⟩
      simp only [opened, Fit.openWindow]
      split_ifs <;> rfl
    rw [heq]
    simp only [sessionPrint, moveBps_self, worst_zero hd, hquiet, Bool.false_eq_true, if_false, ite_self, hfit, stillSteps]
    refine ⟨⟨r, s, rfl⟩, ?_⟩
    by_cases hvol : a.observedVolBps = 0
    · rw [if_pos hvol, if_pos ⟨hvol, hdt⟩]
      rfl
    · rw [if_neg hvol, if_neg (fun h => hvol h.1)]
      exact fadeDrawdown_eq _ _ _
  · have hgap' : a.qualifiesGap 0 = false := by simp [Fit.qualifiesGap]
    rw [heq]
    simp only [gapPrint, moveBps_self, worst_zero hd, hgap', Bool.false_eq_true, if_false, stillSteps]
    refine ⟨⟨_, _, rfl⟩, ?_⟩
    rw [if_neg (fun h => absurd h.2 (not_lt.mpr hgap))]
    exact fadeDrawdown_eq _ _ _
  · exact absurd hnone hprice

theorem stillSteps_eq (h : a.lastPriceSlot ≤ slot) : (stillSteps a slot : ℤ) =
    if slot - a.lastPriceSlot ≤ 2000 ∨ a.observedVolBps = 0 ∧ slot - a.lastPriceSlot < gapMinSlots then 0
    else min 128 ((slot - a.lastPriceSlot) / 2000) := by
  have hgap : gapMinSlots = 72000 := rfl
  unfold stillSteps fadeSteps Actuary.dt
  rw [Int.tdiv_eq_ediv_of_nonneg (by omega)]
  split_ifs <;> omega

theorem still_run {slots} (hprice : a.lastPrice ≠ 0) (hd : 0 ≤ a.maxDrawdownBps)
    (hslots : (a.lastPriceSlot :: slots).IsChain (· ≤ ·))
    (hquiet : countAlong takesSample a (slots.map (a.lastPrice, ·)) = 0) :
    ∃ k : ℕ, (a.updates (slots.map (a.lastPrice, ·))).maxDrawdownBps = (fadeStep a.drawdownFloor)^[k] a.maxDrawdownBps ∧
      2000 * k ≤ slots.getLastD a.lastPriceSlot - a.lastPriceSlot ∧
      (slots.getLastD a.lastPriceSlot - a.lastPriceSlot ≤ 2000 ∨ a.observedVolBps = 0 ∧
        slots.getLastD a.lastPriceSlot - a.lastPriceSlot < gapMinSlots → k = 0) := by
  induction slots generalizing a with
  | nil => exact ⟨0, rfl, by simp, fun _ => rfl⟩
  | cons slot slots ih =>
    obtain ⟨hle, hrest⟩ := List.isChain_cons_cons.mp hslots
    simp only [List.map_cons, countAlong] at hquiet
    have hsample : a.takesSample (a.lastPrice, slot) = false := by
      by_contra h
      rw [Bool.not_eq_false] at h
      simp [h] at hquiet
    obtain ⟨⟨r, s, hfit⟩, hfade⟩ := still_print hprice hd hsample
    have hlast : (a.updatePrice (a.lastPrice, slot)).lastPrice = a.lastPrice := lastPrice_updatePrice _ _
    have hslot : (a.updatePrice (a.lastPrice, slot)).lastPriceSlot = slot := lastPriceSlot_updatePrice _ _
    have hfloor : (a.updatePrice (a.lastPrice, slot)).drawdownFloor = a.drawdownFloor := by
      rw [hfit]
      rfl
    have hvol : (a.updatePrice (a.lastPrice, slot)).observedVolBps = a.observedVolBps := by rw [hfit]
    have hnonneg : 0 ≤ (a.updatePrice (a.lastPrice, slot)).maxDrawdownBps := by
      rw [hfade]
      obtain hlow | hhigh := le_total a.maxDrawdownBps a.drawdownFloor
      · rwa [fadeStep_iterate_below hlow]
      · exact (a.drawdownFloor_nonneg).trans (le_fadeStep_iterate hhigh _)
    obtain ⟨k, hk, hbound, hidle⟩ := @ih (a.updatePrice (a.lastPrice, slot)) (by rwa [hlast]) hnonneg
      (by rwa [hslot]) (by rw [hlast]; omega)
    rw [hslot] at hbound hidle
    rw [hvol] at hidle
    rw [hfloor, hfade, hlast, ← Function.iterate_add_apply] at hk
    have hsteps := stillSteps_eq hle
    refine ⟨k + stillSteps a slot, hk, ?_, ?_⟩
    · rw [List.getLastD_cons]
      push_cast
      split_ifs at hsteps <;> omega
    · rw [List.getLastD_cons]
      intro hnone
      have hgap : gapMinSlots = 72000 := rfl
      rw [if_pos (by omega)] at hsteps
      omega

end Still

theorem fadeDrawdown_range {f d m} (h : 0 ≤ d ∧ d ≤ m) (dt : ℤ) :
    0 ≤ fadeDrawdown f d dt ∧ fadeDrawdown f d dt ≤ m := by
  rw [fadeDrawdown_eq]
  have hle := fadeStep_iterate_antitone f.drawdownFloor d (Nat.zero_le (fadeSteps dt))
  refine ⟨?_, hle.trans h.2⟩
  obtain hlow | hhigh := le_total d f.drawdownFloor
  · rw [fadeStep_iterate_below hlow]
    exact h.1
  · exact f.drawdownFloor_nonneg.trans (le_fadeStep_iterate hhigh _)

theorem Fit.learn_vol {f : Fit} (h : 0 < f.observedVolBps) (change : ℤ) (down : Bool) :
    0 < (f.learn change down).observedVolBps := by
  rw [Fit.learn, if_neg h.ne', Fit.exceeding]
  split_ifs <;> exact lt_max_of_lt_left one_pos

/-- What holds from the first print on, while no price is 0. -/
structure Remembers (a : Actuary) : Prop where
  price : a.lastPrice ≠ 0
  vol : 0 < a.observedVolBps

section Range

variable {a : Actuary} {m : ℤ}

theorem Remembers.updatePrice (h : Remembers a) {print : ℤ × ℤ} (hprint : print.1 ≠ 0) :
    Remembers (a.updatePrice print) := by
  have hvol := h.vol
  refine ⟨by rwa [lastPrice_updatePrice], ?_⟩
  obtain ⟨-, heq⟩ | ⟨-, -, -, heq⟩ | ⟨-, hnone, -⟩ := print_cases a print
  · have hopened : 0 < a.opened.observedVolBps := by
      simp only [opened, Fit.openWindow]
      split_ifs <;> exact hvol
    rw [heq, sessionPrint]
    simp only [Fit.session]
    split_ifs
    · apply Fit.learn_vol
      exact hopened
    all_goals exact hopened
  · rw [heq]
    exact hvol
  · exact absurd hnone h.price

theorem drawdown_updatePrice (hsound : a.Sound) (hm : 5000 ≤ m) (hkept : Remembers a ∨ 20000 ≤ m)
    (h : 0 ≤ a.maxDrawdownBps ∧ a.maxDrawdownBps ≤ m) (print : ℤ × ℤ) :
    0 ≤ (a.updatePrice print).maxDrawdownBps ∧ (a.updatePrice print).maxDrawdownBps ≤ m := by
  have hvol := hsound.volFloor
  have hworst (change : ℤ) : 0 ≤ worst a.maxDrawdownBps change ∧ worst a.maxDrawdownBps change ≤ m := by
    unfold worst
    split_ifs <;> omega
  obtain ⟨-, heq⟩ | ⟨-, -, -, heq⟩ | ⟨-, hnone, heq⟩ := print_cases a print
  · have hmove : a.opened.windowMove print.1 print.2 ≤ 10000 := by
      rw [Fit.windowMove, clamp, show (bps : ℤ) = 10000 from rfl]
      omega
    rw [heq, sessionPrint]
    dsimp only
    split_ifs with hfirst
    · have hwide := hkept.resolve_left fun hr => hr.vol.ne' hfirst
      omega
    · exact hworst _
    · exact h
    · exact fadeDrawdown_range (hworst _) _
    · exact fadeDrawdown_range h _
  · rw [heq]
    exact fadeDrawdown_range (hworst _) _
  · have hwide := hkept.resolve_left fun hr => hr.price hnone
    rw [heq, firstPrint]
    dsimp only
    omega

theorem drawdown_run {prints} (hsound : a.Sound) (hm : 5000 ≤ m)
    (hkept : Remembers a ∧ (∀ print ∈ prints, print.1 ≠ 0) ∨ 20000 ≤ m)
    (h : 0 ≤ a.maxDrawdownBps ∧ a.maxDrawdownBps ≤ m) :
    0 ≤ (a.updates prints).maxDrawdownBps ∧ (a.updates prints).maxDrawdownBps ≤ m := by
  induction prints generalizing a with
  | nil => exact h
  | cons print prints ih =>
    rw [List.forall_mem_cons] at hkept
    apply ih (hsound.updatePrice print)
    · exact hkept.imp_left fun hr => ⟨hr.1.updatePrice hr.2.1, hr.2.2⟩
    · exact drawdown_updatePrice hsound hm (hkept.imp_left And.left) h print

end Range

theorem drawdown_updates (counted : Bool) (prints : List (ℤ × ℤ)) :
    0 ≤ ((fresh counted).updates prints).maxDrawdownBps ∧ ((fresh counted).updates prints).maxDrawdownBps ≤ 20000 ∧
      ((∀ print ∈ prints, print.1 ≠ 0) → ((fresh counted).updates prints).maxDrawdownBps ≤ 5000) := by
  have hsound : (fresh counted).Sound := ⟨le_rfl, by cases counted <;> decide⟩
  obtain ⟨hnonneg, hle⟩ := @drawdown_run _ 20000 prints hsound (by decide) (.inr le_rfl)
    ⟨le_rfl, show (0 : ℤ) ≤ 20000 by decide⟩
  refine ⟨hnonneg, hle, fun hprints => ?_⟩
  obtain - | ⟨print, prints⟩ := prints
  · exact show (0 : ℤ) ≤ 5000 by decide
  · rw [List.forall_mem_cons] at hprints
    have hfloor : 0 < (fresh counted).volFloor ∧ (fresh counted).volFloor ≤ 2500 := by cases counted <;> decide +kernel
    have hfirst : Remembers ((fresh counted).updatePrice print) := by
      refine ⟨?_, hfloor.1⟩
      rw [lastPrice_updatePrice]
      exact hprints.1
    refine (drawdown_run (hsound.updatePrice print) le_rfl (.inl ⟨hfirst, hprints.2⟩) ?_).2
    change 0 ≤ (fresh counted).volFloor * 2 ∧ (fresh counted).volFloor * 2 ≤ 5000
    omega

example : ((fresh true).updates [(1000000, 0), (3000000, 100)]).maxDrawdownBps = 5000 := by decide +kernel

/-- The memory of the drawdown fades with time alone, as long as no sample of the window moves its floor. -/
theorem drawdown_fades_with_time (a : Actuary) (slots : List ℤ) (slot : ℤ) (hprice : a.lastPrice ≠ 0)
    (hrange : 0 ≤ a.maxDrawdownBps ∧ a.maxDrawdownBps ≤ 20000)
    (hslots : (a.lastPriceSlot :: (slots ++ [slot])).IsChain (· ≤ ·))
    (hsingle : a.takesSample (a.lastPrice, slot) = false)
    (hsplit : countAlong takesSample a ((slots ++ [slot]).map (a.lastPrice, ·)) = 0) :
    (a.updatePrice (a.lastPrice, slot)).maxDrawdownBps ≤
        (a.updates ((slots ++ [slot]).map (a.lastPrice, ·))).maxDrawdownBps ∧ (a.drawdownFloor < a.maxDrawdownBps →
        a.drawdownFloor ≤ (a.updates ((slots ++ [slot]).map (a.lastPrice, ·))).maxDrawdownBps) ∧
      ∀ n, a.drawdownFloor < a.maxDrawdownBps →
        fade a.drawdownFloor (min 128 n) a.maxDrawdownBps = fade a.drawdownFloor n a.maxDrawdownBps := by
  obtain ⟨k, hk, hbound, hidle⟩ := still_run hprice hrange.1 hslots hsplit
  rw [List.getLastD_concat] at hbound hidle
  have hsteps : (stillSteps a slot : ℤ) = _ := stillSteps_eq (by omega)
  rw [(still_print hprice hrange.1 hsingle).2, hk]
  refine ⟨?_, fun hhigh => le_fadeStep_iterate hhigh.le k, fun n hhigh => ?_⟩
  · split_ifs at hsteps with hnone
    · rw [hidle hnone, Nat.cast_eq_zero.mp hsteps]
    · have hcap : stillSteps a slot = min 128 ((slot - a.lastPriceSlot) / 2000).toNat := by omega
      rw [hcap, fadeStep_iterate_cap a.drawdownFloor_nonneg hrange.2]
      exact fadeStep_iterate_antitone _ _ (by omega)
  · rw [fade_eq hhigh, fade_eq hhigh]
    exact fadeStep_iterate_cap a.drawdownFloor_nonneg hrange.2 n

def shaken (counted : Bool) : Actuary := (fresh counted).updates [(1000000, 0), (1500000, 100), (1500000, 9100)]

theorem drawdown_fades_shaken : (shaken true).drawdownFloor = 794 ∧ (shaken true).maxDrawdownBps = 2717 ∧
    ((shaken true).updatePrice (1500000, 21100)).maxDrawdownBps ≤
        ((shaken true).updates [(1500000, 12000), (1500000, 21100)]).maxDrawdownBps ∧
      794 ≤ ((shaken true).updates [(1500000, 12000), (1500000, 21100)]).maxDrawdownBps := by
  have hfloor : (shaken true).drawdownFloor = 794 := by decide +kernel
  have h := drawdown_fades_with_time (shaken true) [12000] 21100 (by decide +kernel) (by decide +kernel)
    (by decide +kernel) (by decide +kernel) (by decide +kernel)
  rw [hfloor] at h
  exact ⟨hfloor, by decide +kernel, h.1, h.2.1 (by decide +kernel)⟩

def nudged (counted : Bool) : Actuary := (shaken counted).updatePrice (1501500, 9200)

/-- A call inside the session samples the window, and the floor falls with the volatility. -/
theorem split_fades_more : (nudged false).drawdownFloor = 1090 ∧ (nudged false).maxDrawdownBps = 2717 ∧
    ((nudged false).updatePrice (1501500, 89200)).maxDrawdownBps = 1090 ∧
    ((nudged false).updates [(1501500, 18200), (1501500, 89200)]).maxDrawdownBps = 1036 ∧
    ((nudged true).updatePrice (1501500, 89200)).maxDrawdownBps = 794 ∧
    ((nudged true).updates [(1501500, 18200), (1501500, 89200)]).maxDrawdownBps = 776 := by
  decide +kernel

section Root

variable {n x : ℕ}

theorem sqrt_le_average (hx : 0 < x) : n.sqrt ≤ (x + n / x) / 2 := by
  have hroot := Nat.sqrt_le n
  have hdiv : 2 * n.sqrt - x ≤ n / x := by
    rw [Nat.le_div_iff_mul_le hx, Nat.sub_mul]
    have hmean := two_mul_le_add_sq n.sqrt x
    rw [sq, sq] at hmean
    omega
  omega

theorem average_lt (hx : n.sqrt < x) : n / x ≤ n.sqrt := by
  have hroot := Nat.lt_succ_sqrt n
  rw [← Nat.lt_succ_iff, Nat.div_lt_iff_lt_mul (by omega)]
  exact hroot.trans_le (Nat.mul_le_mul_left _ hx)

/-- The distance to the root halves with every step. -/
theorem sqrtSteps_eq {steps} (hpos : 0 < n) (hx : n.sqrt ≤ x) (hsteps : x < n.sqrt + 2 ^ steps) :
    Book.sqrtSteps n steps x = n.sqrt := by
  induction steps generalizing x with
  | zero =>
    rw [pow_zero] at hsteps
    rw [Book.sqrtSteps, show x = n.sqrt by omega]
  | succ steps ih =>
    have hroot : 0 < n.sqrt := Nat.sqrt_pos.mpr hpos
    have hmax : max 1 (x : ℤ) = x := by omega
    have hnext : ((x : ℤ) + (n : ℤ).tdiv x).tdiv 2 = ((x + n / x) / 2 : ℕ) := by
      push_cast [Int.ofNat_tdiv]
      rfl
    have hge := @sqrt_le_average n x (by omega)
    rw [Book.sqrtSteps, hmax, hnext]
    obtain heq | hlt := hx.eq_or_lt
    · rw [if_neg (by omega), heq]
    · have hle := average_lt hlt
      rw [if_pos (by omega)]
      apply ih hge
      rw [pow_succ] at hsteps
      omega

theorem sqrtFrac_eq (hn : n < 2 ^ 64) : Book.sqrtFrac n = n.sqrt := by
  have hhalf : ((n : ℤ) + 1).tdiv 2 = ((n + 1) / 2 : ℕ) := by
    push_cast [Int.ofNat_tdiv]
    rfl
  rw [Book.sqrtFrac, hhalf]
  split_ifs with hlt
  · have hge := @sqrt_le_average n 1 one_pos
    rw [Nat.div_one] at hge
    exact sqrtSteps_eq (by omega) (by omega) (by omega)
  · have hsmall : n ≤ 1 := by omega
    interval_cases n <;> rfl

theorem sqrt_hundredfold (n : ℕ) : (n * 10000).sqrt / 100 = n.sqrt := by
  apply eq_of_forall_le_iff
  intro m
  rw [Nat.le_div_iff_mul_le (by decide), Nat.le_sqrt, Nat.le_sqrt, mul_mul_mul_comm]
  exact Nat.mul_le_mul_right_iff (by decide)

end Root

section Margin

variable {l l' g g' : ℤ}

theorem marginOf_eq (hl : 0 ≤ l) (hl' : l ≤ bps) (hg : 0 ≤ g) (hg' : g ≤ bps) :
    marginOf l g = min (bps : ℤ) (l * l + g * g).toNat.sqrt := by
  have hbps : (bps : ℤ) = 10000 := rfl
  lift l to ℕ using hl
  lift g to ℕ using hg
  rw [marginOf, ← Nat.cast_mul, ← Nat.cast_mul, ← Nat.cast_add, Int.toNat_natCast]
  split_ifs with hnone
  · have hzero : g = 0 := by omega
    rw [hzero, mul_zero, add_zero, Nat.sqrt_eq, min_eq_right hl']
  · have hl2 : l * l ≤ 10000 * 10000 := Nat.mul_self_le_mul_self (by omega)
    have hg2 : g * g ≤ 10000 * 10000 := Nat.mul_self_le_mul_self (by omega)
    have hpos : 1 ≤ g * g := Nat.mul_pos (by omega) (by omega)
    have hroot : sqrtX100 (min ((l * l + g * g : ℕ) : ℤ) i64Max) = ((l * l + g * g) * 10000).sqrt := by
      rw [sqrtX100, show i64Max = 2 ^ 63 - 1 from rfl, max_eq_left (by omega), min_eq_left (by omega)]
      exact sqrtFrac_eq (n := (l * l + g * g) * 10000) (by omega)
    have hone : 1 ≤ (l * l + g * g).sqrt := Nat.le_sqrt.mpr (by omega)
    rw [hroot, show (100 : ℤ) = (100 : ℕ) from rfl, ← Int.ofNat_tdiv, sqrt_hundredfold, clamp]
    omega

theorem marginOf_mono (hl : 0 ≤ l) (hll : l ≤ l') (hl' : l' ≤ bps) (hg : 0 ≤ g) (hgg : g ≤ g') (hg' : g' ≤ bps) :
    marginOf l g ≤ marginOf l' g' := by
  rw [marginOf_eq hl (hll.trans hl') hg (hgg.trans hg'), marginOf_eq (hl.trans hll) hl' (hg.trans hgg) hg']
  apply min_le_min_left
  have hl2 := mul_self_le_mul_self hl hll
  have hg2 := mul_self_le_mul_self hg hgg
  exact_mod_cast Nat.sqrt_le_sqrt (by omega)

theorem marginOf_bounds (hl : 0 ≤ l) (hl' : l ≤ bps) (hg : 0 ≤ g) (hg' : g ≤ bps) :
    min (bps : ℤ) (max l g) ≤ marginOf l g ∧ marginOf l g ≤ min (bps : ℤ) (l + g) := by
  rw [marginOf_eq hl hl' hg hg']
  lift l to ℕ using hl
  lift g to ℕ using hg
  rw [← Nat.cast_mul, ← Nat.cast_mul, ← Nat.cast_add, Int.toNat_natCast]
  refine ⟨min_le_min_left _ ?_, min_le_min_left _ ?_⟩
  · apply max_le
    · exact_mod_cast Nat.le_sqrt.mpr (Nat.le_add_right _ _)
    · exact_mod_cast Nat.le_sqrt.mpr (Nat.le_add_left _ _)
  · have hle : (l * l + g * g).sqrt ≤ l + g := by
      rw [← Nat.sqrt_eq (l + g)]
      apply Nat.sqrt_le_sqrt
      rw [add_mul_self_eq]
      omega
    exact_mod_cast hle

end Margin

theorem gapMaxAfter_le {a : Actuary} (h : a.gapMaxBps ≤ bps) (vol change dt : ℤ) :
    a.gapMaxAfter vol change dt ≤ bps := by
  unfold Actuary.gapMaxAfter
  split_ifs with hmore hhigh
  · exact min_le_left _ _
  · rw [fade_eq hhigh]
    exact (fadeStep_iterate_antitone _ _ (Nat.zero_le _)).trans h
  · exact h

theorem gapMax_updatePrice {a : Actuary} (h : a.gapMaxBps ≤ bps) (print : ℤ × ℤ) :
    (a.updatePrice print).gapMaxBps ≤ bps := by
  obtain ⟨-, heq⟩ | ⟨-, -, -, heq⟩ | ⟨-, -, heq⟩ := print_cases a print
  · rwa [heq]
  · rw [heq]
    exact gapMaxAfter_le h _ _ _
  · rwa [heq]

theorem gapMax_updates (counted : Bool) (prints : List (ℤ × ℤ)) :
    ((Actuary.fresh counted).updates prints).gapMaxBps ≤ bps := by
  have hfresh : (Actuary.fresh counted).gapMaxBps ≤ bps := by cases counted <;> decide
  generalize Actuary.fresh counted = a at *
  induction prints generalizing a with
  | nil => exact hfresh
  | cons print prints ih => exact ih _ (gapMax_updatePrice hfresh print)

/-- The two parts are in range, and the margin is between the larger of them and their sum. -/
structure Actuary.MarginSound (a : Actuary) (l g : ℤ) : Prop where
  laddered : 1 ≤ l ∧ l ≤ bps
  gap : 0 ≤ g ∧ g ≤ bps
  margin : a.marginBps = marginOf l g
  lower : min (bps : ℤ) (max l g) ≤ a.marginBps
  upper : a.marginBps ≤ min (bps : ℤ) (l + g)
  trigger : 1 ≤ a.triggerBps ∧ a.triggerBps ≤ a.marginBps

theorem margin_sound (a : Actuary) (hgap : a.gapMaxBps ≤ bps) :
    a.MarginSound a.laddered (a.gapQuantileBps insolvencyTargetBps) ∧
    ∀ l l' g g' : ℤ, 0 ≤ l → l ≤ l' → l' ≤ bps → 0 ≤ g → g ≤ g' → g' ≤ bps → marginOf l g ≤ marginOf l' g' := by
  have hbps : (bps : ℤ) = 10000 := rfl
  have hl : 1 ≤ a.laddered ∧ a.laddered ≤ bps := by
    unfold Actuary.laddered clamp
    omega
  have hg : 0 ≤ a.gapQuantileBps insolvencyTargetBps ∧ a.gapQuantileBps insolvencyTargetBps ≤ bps := by
    unfold Actuary.gapQuantileBps clamp
    have hhalf : a.gapMaxBps.tdiv 2 ≤ bps := by
      rw [Int.tdiv_eq_ediv, show Int.sign 2 = 1 from rfl]
      split_ifs <;> omega
    split_ifs <;> omega
  obtain ⟨hlower, hupper⟩ := marginOf_bounds (by omega) hl.2 hg.1 hg.2
  refine ⟨⟨hl, hg, rfl, hlower, hupper, le_max_left _ _, ?_⟩, fun l l' g g' => marginOf_mono⟩
  have hmargin : 1 ≤ a.marginBps := le_trans (by omega) hlower
  rw [Actuary.triggerBps, Int.tdiv_eq_ediv_of_nonneg (mul_nonneg (by omega) (by decide)),
    show ladderTriggerBps = 5000 from rfl, hbps]
  omega

/-- Ten nights, each of which moves the price by a tenth. -/
def gappedPrints : List (ℤ × ℤ) :=
  (List.range 10).map fun night => (if night % 2 = 0 then 1000000 else 1100000, 72000 * night)

def gappedTicker : Actuary := (Actuary.fresh true).updates gappedPrints

theorem margin_sound_gapped : gappedTicker.gapQuantileBps insolvencyTargetBps = 899 ∧
    gappedTicker.MarginSound gappedTicker.laddered (gappedTicker.gapQuantileBps insolvencyTargetBps) :=
  ⟨by decide +kernel, (margin_sound _ (gapMax_updates true gappedPrints)).1⟩

namespace Actuary

def tail (a : Actuary) : Stay.Tail := ⟨a.effSigma, min 100 (a.jumpCount * 5), a.hazardBps, a.lgdBps⟩

def spread (a : Actuary) (size : ℤ) : ℤ :=
  let fraction := min (bps : ℤ) ((size * bps).tdiv (max 1 (a.totalExposure + size)))
  (a.effSigma * (100 + (Book.sqrtFrac fraction * 50).tdiv 100) *
    (100 + (|a.imbalanceBps| * |a.imbalanceBps|).tdiv (bps * 50))).tdiv (10000 * 150)

def velFee (a : Actuary) : ℤ := (a.velocity * a.velocity).tdiv 1000

def hedging (a : Actuary) (adding : Bool) (lev : ℤ) : ℤ :=
  (if adding then a.effSigma * lev else 0).tdiv (maxLeveragePct * 10)

def levFee (a : Actuary) (adding : Bool) (lev distance : ℤ) : ℤ :=
  (satI64 (a.hedging adding lev * (bps + a.hazardBps distance))).tdiv bps

def gapFee (a : Actuary) (lev distance : ℤ) : ℤ :=
  wrapI64 ((a.hazardBps distance * a.lgdBps (a.collarBps lev) * minHoldSecs).tdiv (bps * secondsPerYear))

/-- The carry of the time that a position is held at least. The hazard is in units of `TAIL_FINE`. -/
def holdCarry (a : Actuary) (lev distance : ℤ) : ℤ :=
  a.hazardBps distance * a.lgdBps (a.collarBps lev) * minHoldSecs / (tailFine * secondsPerYear)

end Actuary

section

variable {a : Actuary} {adding : Bool} {conc lev size distance base : ℤ}

theorem collarBps_nonneg (a : Actuary) (lev : ℤ) : 0 ≤ a.collarBps lev := by
  simp only [Actuary.collarBps]
  split_ifs
  · decide
  all_goals exact le_max_of_le_left (Fit.volFloor_nonneg _)

theorem baseFee_eq (h : a.baseFee a.tail (a.collarBps lev).toNat adding conc lev size distance = .ok base) :
    base = a.spread size + a.levFee adding lev distance + max 2 (conc.tdiv 300) + a.gapFee lev distance + a.velFee := by
  simp only [Book.baseFee, bind_eq_ok, Stay.i64_eq_ok] at h
  obtain ⟨_, ⟨-, rfl⟩, _, ⟨-, rfl⟩, _, ⟨-, rfl⟩, _, ⟨-, rfl⟩, _, ⟨-, rfl⟩, _, ⟨-, rfl⟩, _, ⟨-, rfl⟩, h⟩ := h
  obtain ⟨_, ⟨-, rfl⟩, _, ⟨-, rfl⟩, -, rfl⟩ := h
  rw [Int.toNat_of_nonneg (collarBps_nonneg a lev)]
  rfl

theorem hazardBps_range (h : a.Sound) (distance : ℤ) : 0 ≤ a.hazardBps distance ∧ a.hazardBps distance ≤ tailFine := by
  refine ⟨le_min (by decide) (mul_nonneg (by decide) ?_), min_le_left _ _⟩
  obtain hpos | hnone := lt_or_ge 0 distance
  · rw [max_eq_right hpos.le]
    exact (tailAtFine_le h.fitted hpos).1
  · rw [max_eq_left hnone]
    exact show (0 : ℤ) ≤ tailFine by decide

theorem levFee_le_iff (hlev : 0 ≤ lev) (hhazard : 0 ≤ a.hazardBps distance) :
    a.levFee adding lev distance ≤ 2 * a.hedging adding lev ↔
      a.hedging adding lev * a.hazardBps distance < bps * (a.hedging adding lev + 1) ∨
        2 ^ 63 ≤ bps * (2 * a.hedging adding lev + 1) := by
  have hhedge : 0 ≤ a.hedging adding lev := by
    unfold Actuary.hedging
    split_ifs
    · exact Int.tdiv_nonneg (mul_nonneg (Fit.volFloor_nonneg _) hlev) (by decide)
    · decide
  have hprod := mul_nonneg hhedge hhazard
  rw [Actuary.levFee, mul_add, show (bps : ℤ) = 10000 from rfl]
  generalize a.hedging adding lev = x at *
  generalize x * a.hazardBps distance = y at *
  rw [satI64, Int.tdiv_eq_ediv_of_nonneg (by omega)]
  omega

theorem gapFee_le_iff (hsound : a.Sound) (hfits : a.boundedMeanExcessBps (a.collarBps lev) * 9815 < 2 ^ 63) :
    a.gapFee lev distance ≤ a.holdCarry lev distance ↔
      a.hazardBps distance * a.lgdBps (a.collarBps lev) * minHoldSecs < bps * secondsPerYear := by
  obtain ⟨hnonneg, hle⟩ := hazardBps_range hsound distance
  have hlgd : 1 ≤ a.lgdBps (a.collarBps lev) ∧ a.lgdBps (a.collarBps lev) < 2 ^ 50 := by
    have hresidual : (bps : ℤ) - min (bps : ℤ) maxTrancheBps = 9815 := by decide
    refine ⟨le_max_left _ _, ?_⟩
    rw [Actuary.lgdBps, hresidual, Int.tdiv_eq_ediv, show Int.sign bps = 1 from rfl, show (bps : ℤ) = 10000 from rfl]
    split_ifs <;> omega
  have hprod := mul_nonneg hnonneg (zero_le_one.trans hlgd.1)
  have hprod' := mul_le_mul hle hlgd.2.le (by omega) (by decide)
  rw [Actuary.gapFee, Actuary.holdCarry]
  generalize a.hazardBps distance * a.lgdBps (a.collarBps lev) = x at *
  simp only [minHoldSecs, tailFine, secondsPerYear, show (bps : ℤ) = 10000 from rfl] at *
  rw [Int.tdiv_eq_ediv_of_nonneg (by omega), Stay.wrapI64_of_nonneg (by omega) (by omega)]
  omega

end

/-- The hazard is in units of `TAIL_FINE`, and `fee_bps` divides by `BPS`. -/
theorem entry_fee_carry_iff (a : Actuary) (adding : Bool) (conc lev size distance : ℤ) (hsound : a.Sound)
    (hlev : 0 ≤ lev) (hfits : a.boundedMeanExcessBps (a.collarBps lev) * 9815 < 2 ^ 63) :
    (∀ base, a.baseFee a.tail (a.collarBps lev).toNat adding conc lev size distance = .ok base → base =
        a.spread size + a.levFee adding lev distance + max 2 (conc.tdiv 300) + a.gapFee lev distance + a.velFee) ∧
    (a.gapFee lev distance ≤ a.holdCarry lev distance ∧ a.levFee adding lev distance ≤ 2 * a.hedging adding lev ↔
      a.hazardBps distance * a.lgdBps (a.collarBps lev) * minHoldSecs < bps * secondsPerYear ∧
        (a.hedging adding lev * a.hazardBps distance < bps * (a.hedging adding lev + 1) ∨
          2 ^ 63 ≤ bps * (2 * a.hedging adding lev + 1))) := by
  refine ⟨fun base => baseFee_eq, ?_⟩
  rw [gapFee_le_iff hsound hfits, levFee_le_iff hlev (hazardBps_range hsound distance).1]

theorem entry_fee_carry_far : (shaken true).hazardBps 100000 = 260 ∧ (shaken true).hedging true 300 = 11 ∧
    (shaken true).gapFee 300 100000 ≤ (shaken true).holdCarry 300 100000 ∧
    (shaken true).levFee true 300 100000 ≤ 2 * (shaken true).hedging true 300 := by
  have hsound : (shaken true).Sound := ⟨by decide +kernel, by decide +kernel⟩
  refine ⟨by decide +kernel, by decide +kernel, ?_⟩
  apply (entry_fee_carry_iff (shaken true) true 0 300 1000 100000 hsound (by decide) (by decide +kernel)).2.mpr
  decide +kernel

/-- Near its barrier a position prepays 371 bps for an hour whose carry is below one. -/
theorem entry_fee_overcharges : openedTicker.hazardBps 40 = tailFine ∧ openedTicker.hedging true 300 = 9 ∧
    openedTicker.gapFee 300 40 = 371 ∧ openedTicker.holdCarry 300 40 = 0 ∧ openedTicker.levFee true 300 40 = 90009 ∧
    (openedTicker.baseFee openedTicker.tail (openedTicker.collarBps 300).toNat true 0 300 1000 40).isOk := by
  decide +kernel

end QuidProtocol.Risk
