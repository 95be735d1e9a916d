import QuidProtocol.Lib.Compact
import QuidProtocol.Spv.Header

/-!
`countNewRoundedTarget` against the retarget rule of Bitcoin.
-/

namespace QuidProtocol.Spv

open Lib

def mantissaLength (x : ℕ) : ℕ := byteLength x + if 0x81 ≤ leadByte x then 1 else 0

theorem coefficientEnd_eq (x n) (hn : n ≤ 32) (hx : x.toNat < 256 ^ n) : coefficientEnd x (32 - n) n =
      if x.toNat = 0 then 0 else BitVec.ofNat 256 (35 - mantissaLength x.toNat) := by
  induction n with
  | zero =>
    rw [if_pos (by simpa using hx)]
    rfl
  | succ n ih =>
    have hbyte : byteAt (32 - (n + 1)) x = x.toNat / 256 ^ n := by
      have hpos : 31 - (32 - (n + 1)) = n := by omega
      rw [byteAt, hpos]
      apply Nat.mod_eq_of_lt
      rw [Nat.div_lt_iff_lt_mul (Nat.pow_pos (by omega)), ← pow_succ']
      exact hx
    by_cases hlow : x.toNat < 256 ^ n
    · have hzero : x.toNat / 256 ^ n = 0 := Nat.div_eq_of_lt hlow
      have hnext : 32 - (n + 1) + 1 = 32 - n := by omega
      rw [coefficientEnd, hbyte, hzero, if_neg (lt_irrefl 0), hnext]
      exact ih (by omega) hlow
    · have hne : x.toNat ≠ 0 := by
        have hpos : 0 < 256 ^ n := Nat.pow_pos (by omega)
        omega
      have hlen : byteLength x.toNat = n + 1 := byteLength_eq (by omega) (not_lt.mp hlow) hx
      have hlead : x.toNat / 256 ^ n = leadByte x.toNat := by rw [leadByte, hlen, Nat.add_sub_cancel]
      rw [coefficientEnd, hbyte, hlead, if_pos (leadByte_pos hne), if_neg hne, mantissaLength, hlen]
      have hbound : n + 1 ≤ 32 := hn
      by_cases hsign : 0x81 ≤ leadByte x.toNat
      · rw [if_pos (Nat.lt_of_succ_le hsign), if_pos hsign]
        apply BitVec.eq_of_toNat_eq
        simp only [BitVec.toNat_sub, BitVec.toNat_add, BitVec.ofNat_eq_ofNat, BitVec.toNat_ofNat]
        omega
      · rw [if_neg (fun h => hsign (Nat.succ_le_of_lt h)), if_neg hsign]
        apply BitVec.eq_of_toNat_eq
        simp only [BitVec.toNat_add, BitVec.ofNat_eq_ofNat, BitVec.toNat_ofNat]
        omega

theorem and_highMask (x : Bytes32) {k} (hk : k < 256) :
    (x &&& ~~~((1 : Bytes32) <<< k - 1)).toNat = x.toNat / 2 ^ k * 2 ^ k := by
  have hpow : 2 ^ k < 2 ^ 256 := Nat.pow_lt_pow_right (by omega) hk
  have hpos : 0 < 2 ^ k := Nat.pow_pos (by omega)
  have hshift : ((1 : Bytes32) <<< k).toNat = 2 ^ k := by
    rw [BitVec.toNat_shiftLeft, Nat.shiftLeft_eq]
    exact (Nat.mod_eq_of_lt (by simpa using hpow)).trans (by simp)
  have hlow : ((1 : Bytes32) <<< k - 1).toNat = 2 ^ k - 1 := by
    rw [BitVec.toNat_sub, hshift]
    change (2 ^ 256 - 1 + 2 ^ k) % 2 ^ 256 = 2 ^ k - 1
    omega
  apply Nat.eq_of_testBit_eq
  intro i
  rw [← Nat.shiftRight_eq_div_pow, ← Nat.shiftLeft_eq, Nat.testBit_shiftLeft, Nat.testBit_shiftRight,
    BitVec.testBit_toNat, BitVec.getLsbD_and, BitVec.getLsbD_not, ← BitVec.testBit_toNat,
    ← BitVec.testBit_toNat, hlow, Nat.testBit_two_pow_sub_one]
  by_cases hi : k ≤ i
  · have hsum : k + (i - k) = i := by omega
    by_cases hin : i < 256
    · simp [hi, hin, hsum, not_lt.mpr hi]
    · have hout : x.toNat.testBit i = false := Nat.testBit_lt_two_pow
        (x.isLt.trans_le (Nat.pow_le_pow_right (by omega) (not_lt.mp hin)))
      simp [hi, hsum, hout]
  · simp [hi, not_le.mp hi]

theorem small_iff (x : ℕ) (hx : x ≠ 0) : x < 0x8100 ↔ mantissaLength x < 3 := by
  have hlow := pow_byteLength_le hx
  have hhigh := lt_pow_byteLength x
  have hpos := byteLength_pos hx
  have hlead : 0x81 ≤ leadByte x ↔ 0x81 * 256 ^ (byteLength x - 1) ≤ x := le_leadByte_iff
  rw [mantissaLength]
  by_cases hthree : 3 ≤ byteLength x
  · have hbig : 256 ^ 2 ≤ 256 ^ (byteLength x - 1) := Nat.pow_le_pow_right (by omega) (by omega)
    refine iff_of_false (by omega) ?_
    split_ifs <;> omega
  · simp only [hlead]
    generalize byteLength x = n at *
    interval_cases n
    all_goals split_ifs <;> omega

theorem roundTarget_toNat (x : Bytes32) : (roundTarget x).toNat =
      if x.toNat < 0x8100 then 0 else truncate (droppedBytes 0x81 x.toNat) x.toNat := by
  have hend := coefficientEnd_eq x 32 le_rfl (x.isLt.trans_eq (by norm_num))
  rw [Nat.sub_self] at hend
  rw [roundTarget, hend]
  by_cases hx : x.toNat = 0
  · rw [if_pos hx, if_pos (by omega)]
    have hzero : x = 0 := BitVec.eq_of_toNat_eq hx
    rw [hzero]
    decide
  rw [if_neg hx]
  have hlen : byteLength x.toNat ≤ 32 := byteLength_le (x.isLt.trans_eq (by norm_num))
  have hpos := byteLength_pos hx
  have hdropped : droppedBytes 0x81 x.toNat = mantissaLength x.toNat - 3 := rfl
  have hbounds : 1 ≤ mantissaLength x.toNat ∧ mantissaLength x.toNat ≤ 33 := by
    rw [mantissaLength]
    split_ifs <;> omega
  by_cases hsmall : x.toNat < 0x8100
  · -- the subtraction wraps, the shift is longer than a word and nothing is kept
    have hshort := (small_iff _ hx).mp hsmall
    have hmask : ~~~(shl ((0x20 - BitVec.ofNat 256 (35 - mantissaLength x.toNat)) * 8) 1 - 1) = (0 : Bytes32) := by
      obtain hm | hm : mantissaLength x.toNat = 1 ∨ mantissaLength x.toNat = 2 := by omega
      all_goals
        rw [hm]
        decide
    rw [if_pos hsmall, hmask]
    simp
  · have hlong : 3 ≤ mantissaLength x.toNat := by
      rw [← not_lt, ← small_iff _ hx]
      exact hsmall
    have hkeep : ((0x20 - BitVec.ofNat 256 (35 - mantissaLength x.toNat)) * 8 : Bytes32).toNat =
        8 * droppedBytes 0x81 x.toNat := by
      rw [hdropped, BitVec.toNat_mul, BitVec.toNat_sub, BitVec.toNat_ofNat]
      simp
      omega
    rw [if_neg hsmall, shl, hkeep, if_pos (by omega), and_highMask x (by omega), truncate, pow_mul]
    norm_num

def codeRound (x : ℕ) : ℕ := if x < 0x8100 then 0 else truncate (droppedBytes 0x81 x) x

theorem codeRound_le (x : ℕ) : codeRound x ≤ x := by
  unfold codeRound
  split_ifs
  · exact Nat.zero_le x
  · exact truncate_le _ x

theorem compact_pos {y} (hy : y ≠ 0) : truncate (droppedBytes 0x80 y) y ≠ 0 := by
  obtain ⟨hlen, -⟩ := same_lead hy (droppedBytes_lt hy) le_rfl (truncate_le (droppedBytes 0x80 y) y)
  have hpos := byteLength_pos hy
  intro hzero
  rw [hzero, byteLength_zero] at hlen
  omega

theorem not_small_of_same_lead {x b} (hb : b ≠ 0) (hx : ¬ x < 0x8100)
    (h : byteLength b = byteLength x ∧ leadByte b = leadByte x) : 0x8100 ≤ b := by
  have hx0 : x ≠ 0 := by omega
  have hmantissa : mantissaLength b = mantissaLength x := by rw [mantissaLength, mantissaLength, h.1, h.2]
  rw [small_iff x hx0] at hx
  rw [← not_lt, small_iff b hb, hmantissa]
  exact hx

theorem codeRound_eq_compact_iff {x y} (hle : x ≤ y) : codeRound x = truncate (droppedBytes 0x80 y) y ↔
      truncate (droppedBytes 0x80 y) y ≤ x ∧
      (truncate (droppedBytes 0x80 y) y = 0 ∨ 0x8100 ≤ truncate (droppedBytes 0x80 y) y) ∧
      (leadByte (truncate (droppedBytes 0x80 y) y) = 0x80 → x < truncate (droppedBytes 0x80 y) y +
          256 ^ (byteLength (truncate (droppedBytes 0x80 y) y) - 3)) := by
  by_cases hy : y = 0
  · obtain rfl : x = 0 := by omega
    subst hy
    decide
  have hb := compact_pos hy
  have hb_lead := same_lead hy (droppedBytes_lt hy) le_rfl (truncate_le (droppedBytes 0x80 y) y)
  set b := truncate (droppedBytes 0x80 y) y with hb_def
  constructor
  · intro h
    have hbx : b ≤ x := h ▸ codeRound_le x
    have hx_lead := same_lead hy (droppedBytes_lt hy) hbx hle
    have hsmall : ¬ x < 0x8100 := by
      intro hx
      rw [codeRound, if_pos hx] at h
      exact hb h.symm
    have hbig := not_small_of_same_lead hb hsmall
      ⟨hb_lead.1.trans hx_lead.1.symm, hb_lead.2.trans hx_lead.2.symm⟩
    refine ⟨hbx, Or.inr hbig, fun hsign => ?_⟩
    rw [codeRound, if_neg hsmall] at h
    have hdropped : droppedBytes 0x81 x = byteLength b - 3 := by
      rw [droppedBytes, hx_lead.2, ← hb_lead.2, hsign, hx_lead.1, ← hb_lead.1, if_neg (by omega), Nat.add_zero]
    have hlt := lt_truncate_add (byteLength b - 3) x
    rw [hdropped] at h
    rw [h] at hlt
    exact hlt
  · rintro ⟨hbx, hzero, hnext⟩
    have hx_lead := same_lead hy (droppedBytes_lt hy) hbx hle
    have hbig : 0x8100 ≤ b := hzero.resolve_left hb
    rw [codeRound, if_neg (by omega)]
    by_cases hsign : leadByte b = 0x80
    · have hlong : 3 ≤ mantissaLength b := by
        rw [← not_lt, ← small_iff b hb]
        omega
      have hlen : 3 ≤ byteLength b := by
        rw [mantissaLength, hsign, if_neg (by omega)] at hlong
        exact hlong
      have hdropped : droppedBytes 0x81 x = byteLength b - 3 := by
        rw [droppedBytes, hx_lead.2, ← hb_lead.2, hsign, hx_lead.1, ← hb_lead.1, if_neg (by omega), Nat.add_zero]
      have hk : byteLength b - 3 ≤ droppedBytes 0x80 y := by
        rw [droppedBytes, ← hb_lead.1]
        omega
      have hfix : truncate (byteLength b - 3) b = b := truncate_truncate hk y
      have hiff := truncate_eq_iff (k := byteLength b - 3) (y := b) (hfix.le.trans hbx)
      rw [hfix] at hiff
      rw [hdropped]
      exact hiff.mpr (hnext hsign)
    · have hdropped : droppedBytes 0x81 x = droppedBytes 0x80 y := by
        rw [hb_lead.2] at hsign
        rw [droppedBytes, droppedBytes, hx_lead.1, hx_lead.2]
        have hcongr : 0x81 ≤ leadByte y ↔ 0x80 ≤ leadByte y := by omega
        simp only [hcongr]
      rw [hdropped, truncate_eq_iff hbx]
      exact hle.trans_lt (lt_truncate_add _ y)

def clampTime (t : ℕ) : ℕ := min (max t 302400) 4838400

def bitcoinTarget (target t : ℕ) : ℕ :=
  decodeCompact (encodeCompact (min initialTarget.toNat (target * clampTime t / expectedTargetBlocksTime)))

theorem clampedRatio_eq (t : ℕ) :
    min (max (t * targetFixedPointFactor / expectedTargetBlocksTime) minTargetRatio) maxTargetRatio =
      clampTime t * targetFixedPointFactor / expectedTargetBlocksTime := by
  simp only [minTargetRatio, maxTargetRatio, maxTargetFactor, targetFixedPointFactor,
    expectedTargetBlocksTime, clampTime]
  omega

def codeQuotient (target t : ℕ) : ℕ :=
  target * (clampTime t * targetFixedPointFactor / expectedTargetBlocksTime) / targetFixedPointFactor

theorem codeQuotient_le (target t : ℕ) : codeQuotient target t ≤ 4 * target := by
  have hclamp : clampTime t ≤ 4838400 := min_le_right _ _
  have hratio : clampTime t * targetFixedPointFactor / expectedTargetBlocksTime ≤ 4 * targetFixedPointFactor := by
    simp only [targetFixedPointFactor, expectedTargetBlocksTime]
    omega
  calc codeQuotient target t ≤ target * (4 * targetFixedPointFactor) / targetFixedPointFactor :=
        Nat.div_le_div_right (Nat.mul_le_mul_left _ hratio)
    _ = 4 * target := by rw [← mul_assoc, Nat.mul_div_cancel _ (by decide), mul_comm]

theorem countNewTarget_eq (target : Bytes32) (h : target ≤ initialTarget) (t : ℕ) : countNewTarget target t =
      some (BitVec.ofNat 256 (min initialTarget.toNat (codeQuotient target.toNat t))) := by
  have hle := codeQuotient_le target.toNat t
  have hlimit : target.toNat ≤ initialTarget.toNat := h
  rw [initialTarget_toNat] at hlimit
  have hfits : codeQuotient target.toNat t < 2 ^ 256 := by omega
  have hdiv : mulDiv target.toNat (clampTime t * targetFixedPointFactor / expectedTargetBlocksTime)
      targetFixedPointFactor = some (codeQuotient target.toNat t) := by
    rw [mulDiv]
    exact if_pos ⟨by decide, hfits⟩
  have hnat : (BitVec.ofNat 256 (codeQuotient target.toNat t)).toNat = codeQuotient target.toNat t := by
    rw [BitVec.toNat_ofNat, Nat.mod_eq_of_lt hfits]
  simp only [countNewTarget, clampedRatio_eq, hdiv, Option.map_some, Option.some.injEq, BitVec.lt_def, hnat]
  split_ifs with hcap
  · rw [min_eq_left hcap.le, BitVec.ofNat_toNat, BitVec.setWidth_eq]
  · rw [min_eq_right (not_lt.mp hcap)]

theorem countNewRoundedTarget_eq (target : Bytes32) (h : target ≤ initialTarget) (t : ℕ) :
    countNewRoundedTarget target t =
      some (BitVec.ofNat 256 (codeRound (min initialTarget.toNat (codeQuotient target.toNat t)))) := by
  have hlt : min initialTarget.toNat (codeQuotient target.toNat t) < 2 ^ 256 :=
    (min_le_left _ _).trans_lt initialTarget.isLt
  rw [countNewRoundedTarget, countNewTarget_eq target h, Option.map_some, Option.some.injEq]
  apply BitVec.eq_of_toNat_eq
  rw [roundTarget_toNat, BitVec.toNat_ofNat, BitVec.toNat_ofNat, Nat.mod_eq_of_lt hlt]
  exact (Nat.mod_eq_of_lt ((codeRound_le _).trans_lt hlt)).symm

section FixedPoint

variable {target c b g F D : ℕ}

theorem ratio_split (target c F D : ℕ) : target * (c * F / D) * D + target * (c * F % D) = target * c * F := by
  rw [mul_assoc, mul_comm (c * F / D) D, ← mul_add, Nat.div_add_mod, mul_assoc]

theorem le_quotient_iff (hF : 0 < F) (hD : 0 < D) (hb : b * D ≤ target * c) :
    b ≤ target * (c * F / D) / F ↔ target * (c * F % D) ≤ (target * c - b * D) * F := by
  have hsplit := ratio_split target c F D
  have hbF : b * D * F ≤ target * c * F := Nat.mul_le_mul_right F hb
  rw [Nat.le_div_iff_mul_le hF, Nat.sub_mul, ← Nat.mul_le_mul_right_iff hD, mul_right_comm b F D]
  omega

theorem quotient_lt_iff (hF : 0 < F) (hD : 0 < D) (hb : b * D ≤ target * c) : target * (c * F / D) / F < b + g ↔
      (target * c - b * D) * F < g * D * F + target * (c * F % D) := by
  have hsplit := ratio_split target c F D
  have hbF : b * D * F ≤ target * c * F := Nat.mul_le_mul_right F hb
  rw [Nat.div_lt_iff_lt_mul hF, Nat.sub_mul, ← Nat.mul_lt_mul_right hD, mul_right_comm (b + g) F D,
    add_mul b g D, add_mul (b * D) (g * D) F]
  omega

end FixedPoint

/-- What the fixed-point ratio loses stays within what the compact form drops anyway, and the rounding loop cuts where
the compact form does. -/
def RetargetExact (target t : ℕ) : Prop :=
  let b := bitcoinTarget target t
  let rest := (target * clampTime t - b * expectedTargetBlocksTime) * targetFixedPointFactor
  let lost := target * (clampTime t * targetFixedPointFactor % expectedTargetBlocksTime)
  lost ≤ rest ∧ (b = 0 ∨ 0x8100 ≤ b) ∧ (leadByte b = 0x80 →
      rest < 256 ^ (byteLength b - 3) * expectedTargetBlocksTime * targetFixedPointFactor + lost)

instance (target t : ℕ) : Decidable (RetargetExact target t) := by
  unfold RetargetExact
  infer_instance

theorem codeQuotient_le_exact (target t : ℕ) :
    codeQuotient target t ≤ target * clampTime t / expectedTargetBlocksTime := by
  have hF : 0 < targetFixedPointFactor := by decide
  have hsplit := ratio_split target (clampTime t) targetFixedPointFactor expectedTargetBlocksTime
  have hquot : codeQuotient target t * targetFixedPointFactor ≤
      target * (clampTime t * targetFixedPointFactor / expectedTargetBlocksTime) :=
    Nat.div_mul_le_self _ _
  rw [Nat.le_div_iff_mul_le (by decide), ← Nat.mul_le_mul_right_iff hF]
  calc codeQuotient target t * expectedTargetBlocksTime * targetFixedPointFactor
      = codeQuotient target t * targetFixedPointFactor * expectedTargetBlocksTime := mul_right_comm _ _ _
    _ ≤ target * (clampTime t * targetFixedPointFactor / expectedTargetBlocksTime) *
          expectedTargetBlocksTime := Nat.mul_le_mul_right _ hquot
    _ ≤ target * clampTime t * targetFixedPointFactor := by omega

theorem countNewRoundedTarget_eq_bitcoin_iff (target : Bytes32) (h : target ≤ initialTarget) (t : UInt32) :
    countNewRoundedTarget target t.toNat = some (BitVec.ofNat 256 (bitcoinTarget target.toNat t.toNat)) ↔
      RetargetExact target.toNat t.toNat := by
  set exact := target.toNat * clampTime t.toNat / expectedTargetBlocksTime with hexact
  set y := min initialTarget.toNat exact with hy
  set x := min initialTarget.toNat (codeQuotient target.toNat t.toNat) with hx
  have hxy : x ≤ y := min_le_min_left _ (codeQuotient_le_exact _ _)
  have hb : bitcoinTarget target.toNat t.toNat = truncate (droppedBytes 0x80 y) y := decode_encode y
  set b := bitcoinTarget target.toNat t.toNat
  have hby : b ≤ y := hb ▸ truncate_le _ y
  have hbD : b * expectedTargetBlocksTime ≤ target.toNat * clampTime t.toNat :=
    (Nat.mul_le_mul_right _ (hby.trans (min_le_right _ _))).trans (Nat.div_mul_le_self _ _)
  have hword : y < 2 ^ 256 := (min_le_left _ _).trans_lt initialTarget.isLt
  have hinj : BitVec.ofNat 256 (codeRound x) = BitVec.ofNat 256 b ↔ codeRound x = b := by
    have hcode := codeRound_le x
    constructor
    · intro he
      have hnat := congrArg BitVec.toNat he
      rwa [BitVec.toNat_ofNat, BitVec.toNat_ofNat, Nat.mod_eq_of_lt (by omega), Nat.mod_eq_of_lt (by omega)] at hnat
    · intro he
      rw [he]
  have hbx : b ≤ x ↔ b ≤ codeQuotient target.toNat t.toNat := by
    rw [hx, le_min_iff]
    exact and_iff_right (hby.trans (min_le_left _ _))
  have hcapped (hsign : leadByte b = 0x80) (hle : b ≤ x) : x = codeQuotient target.toNat t.toNat := by
    -- the limit itself does not start with that byte
    by_contra hne
    have hlimit : x = initialTarget.toNat := by omega
    have hy0 : y ≠ 0 := by
      have hpos : initialTarget.toNat ≠ 0 := by decide
      omega
    have hlead := same_lead hy0 (droppedBytes_lt hy0) (hb ▸ hle) hxy
    have hleadb := same_lead hy0 (droppedBytes_lt hy0) hb.ge hby
    rw [hleadb.2, ← hlead.2, hlimit] at hsign
    exact absurd hsign (by decide)
  rw [countNewRoundedTarget_eq target h, Option.some.injEq, hinj, hb, codeRound_eq_compact_iff hxy, ← hb]
  unfold RetargetExact
  have hle_iff := le_quotient_iff (F := targetFixedPointFactor) (D := expectedTargetBlocksTime)
    (by decide) (by decide) hbD
  have hlt_iff := quotient_lt_iff (g := 256 ^ (byteLength b - 3)) (F := targetFixedPointFactor)
    (D := expectedTargetBlocksTime) (by decide) (by decide) hbD
  constructor
  · rintro ⟨hle, hzero, hnext⟩
    refine ⟨hle_iff.mp (hbx.mp hle), hzero, fun hsign => hlt_iff.mp ?_⟩
    have hlt := hnext hsign
    rwa [hcapped hsign hle] at hlt
  · rintro ⟨hle, hzero, hnext⟩
    have hle' := hbx.mpr (hle_iff.mpr hle)
    refine ⟨hle', hzero, fun hsign => ?_⟩
    rw [hcapped hsign hle']
    exact hlt_iff.mpr (hnext hsign)

theorem countNewRoundedTarget_on_time : countNewRoundedTarget initialTarget 1209600 =
      some (BitVec.ofNat 256 (bitcoinTarget initialTarget.toNat 1209600)) :=
  (countNewRoundedTarget_eq_bitcoin_iff initialTarget (by decide) 1209600).mpr (by decide)

theorem countNewRoundedTarget_ne_bitcoin : bitsToTarget 0x1b4055e7 ≤ initialTarget ∧
      countNewRoundedTarget (bitsToTarget 0x1b4055e7) (2419200 : UInt32).toNat =
        some (bitsToTarget 0x1c0080ab + 0xce * 2 ^ 192) ∧
      BitVec.ofNat 256 (bitcoinTarget (bitsToTarget 0x1b4055e7).toNat (2419200 : UInt32).toNat) =
        bitsToTarget 0x1c0080ab ∧ countNewRoundedTarget (bitsToTarget 0x1b4055e7) (2419200 : UInt32).toNat ≠
        some (BitVec.ofNat 256 (bitcoinTarget (bitsToTarget 0x1b4055e7).toNat (2419200 : UInt32).toNat)) := by
  decide +kernel

end QuidProtocol.Spv
