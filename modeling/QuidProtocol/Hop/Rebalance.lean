import Mathlib.Tactic

/-!
`rebalancer.rs` of the hop: when a channel is grown by a splice, and by how much.
-/

namespace QuidProtocol.Hop

def minEconomicGrowSats : ℕ := 250000

structure RebalanceConfig where
  walletReserveSats : ℕ

structure ChannelSnapshot where
  channelValueSatoshis : ℕ
  nextOutboundHtlcLimitMsat : ℕ
  maxInboundInFlightPercent : ℕ
  isUsable : Bool

def satU64 (x : ℕ) : ℕ := min x (2 ^ 64 - 1)

def perSwapCeilingMsat (snap : ChannelSnapshot) : ℕ :=
  satU64 (satU64 (snap.channelValueSatoshis * 1000) * min snap.maxInboundInFlightPercent 100) / 100

inductive BlockReason
  | insufficientWallet (spendableSats needSats : ℕ)
  | channelCapReached (channelValueSatoshis : ℕ)
  deriving DecidableEq

inductive SpliceDecision
  | healthy
  | splice (growSats : ℕ)
  | blocked (reason : BlockReason)
  deriving DecidableEq

/-- The growth that restores two ceilings of forwarding capacity, in satoshis rounded up. -/
def wantGrowSats (snap : ChannelSnapshot) : ℕ :=
  (satU64 (perSwapCeilingMsat snap * 2) - snap.nextOutboundHtlcLimitMsat + 999) / 1000

def decideSplice (snap : ChannelSnapshot) (confirmedWalletSats : ℕ) (cfg : RebalanceConfig) (capSats : ℕ) :
    SpliceDecision :=
  if !snap.isUsable then .healthy
  else if perSwapCeilingMsat snap = 0 then .healthy
  else if perSwapCeilingMsat snap ≤ snap.nextOutboundHtlcLimitMsat then .healthy
  else
    let capHeadroom := capSats - snap.channelValueSatoshis
    if capHeadroom < minEconomicGrowSats then .blocked (.channelCapReached snap.channelValueSatoshis)
    else
      let spendable := confirmedWalletSats - cfg.walletReserveSats
      if spendable < minEconomicGrowSats then .blocked (.insufficientWallet spendable minEconomicGrowSats)
      else
        let growSats := min (min (wantGrowSats snap) capHeadroom) spendable
        if growSats < minEconomicGrowSats then
          if spendable ≤ capHeadroom then .blocked (.insufficientWallet spendable minEconomicGrowSats)
          else .blocked (.channelCapReached snap.channelValueSatoshis)
        else .splice growSats

/-- A splice is large enough, within its bounds and, where they do not limit it, enough for the channel that it makes;
a refusal names what is short. -/
def SpliceDecision.Sized (snap : ChannelSnapshot) (confirmed : ℕ) (cfg : RebalanceConfig) (cap : ℕ) :
    SpliceDecision → Prop
  | .healthy => True
  | .splice g => minEconomicGrowSats ≤ g ∧
      g ≤ min (cap - snap.channelValueSatoshis) (confirmed - cfg.walletReserveSats) ∧
      (snap.maxInboundInFlightPercent ≤ 50 → g = wantGrowSats snap →
        perSwapCeilingMsat { snap with channelValueSatoshis := snap.channelValueSatoshis + g } ≤
          snap.nextOutboundHtlcLimitMsat + 1000 * g)
  | .blocked (.insufficientWallet _ _) => confirmed - cfg.walletReserveSats < minEconomicGrowSats
  | .blocked (.channelCapReached _) => cap - snap.channelValueSatoshis < minEconomicGrowSats

section

variable {snap : ChannelSnapshot}

theorem perSwapCeilingMsat_le (snap : ChannelSnapshot) :
    perSwapCeilingMsat snap ≤ 10 * (snap.channelValueSatoshis * min snap.maxInboundInFlightPercent 100) := by
  have hinner : satU64 (snap.channelValueSatoshis * 1000) * min snap.maxInboundInFlightPercent 100 ≤
      snap.channelValueSatoshis * 1000 * min snap.maxInboundInFlightPercent 100 :=
    Nat.mul_le_mul_right _ (Nat.min_le_left ..)
  rw [Nat.mul_right_comm] at hinner
  unfold perSwapCeilingMsat
  rw [satU64]
  omega

variable (hfits : snap.channelValueSatoshis * 1000 * min snap.maxInboundInFlightPercent 100 < 2 ^ 64)

include hfits

theorem perSwapCeilingMsat_eq :
    perSwapCeilingMsat snap = 10 * (snap.channelValueSatoshis * min snap.maxInboundInFlightPercent 100) := by
  unfold perSwapCeilingMsat
  obtain hzero | hpos := Nat.eq_zero_or_pos (min snap.maxInboundInFlightPercent 100)
  · simp [hzero, satU64]
  · have hvalue : snap.channelValueSatoshis * 1000 < 2 ^ 64 := Nat.lt_of_le_of_lt (Nat.le_mul_of_pos_right _ hpos) hfits
    have hsat : satU64 (snap.channelValueSatoshis * 1000) = snap.channelValueSatoshis * 1000 := by
      unfold satU64
      omega
    rw [hsat, satU64]
    rw [Nat.mul_right_comm] at hfits ⊢
    omega

theorem wantGrowSats_eq :
    wantGrowSats snap = (perSwapCeilingMsat snap * 2 - snap.nextOutboundHtlcLimitMsat + 999) / 1000 := by
  have hceiling := perSwapCeilingMsat_eq hfits
  rw [Nat.mul_right_comm] at hfits
  have hsat : satU64 (perSwapCeilingMsat snap * 2) = perSwapCeilingMsat snap * 2 := by
    unfold satU64
    omega
  rw [wantGrowSats, hsat]

/-- The ceiling grows with the channel, by half of the growth at the most. -/
theorem wantGrowSats_enough (hpct : snap.maxInboundInFlightPercent ≤ 50)
    (hshort : snap.nextOutboundHtlcLimitMsat < perSwapCeilingMsat snap) :
    perSwapCeilingMsat { snap with channelValueSatoshis := snap.channelValueSatoshis + wantGrowSats snap } ≤
      snap.nextOutboundHtlcLimitMsat + 1000 * wantGrowSats snap := by
  have hgrown := perSwapCeilingMsat_le { snap with
    channelValueSatoshis := snap.channelValueSatoshis + wantGrowSats snap }
  have hhalf : wantGrowSats snap * min snap.maxInboundInFlightPercent 100 ≤ wantGrowSats snap * 50 :=
    Nat.mul_le_mul_left _ (Nat.le_trans (Nat.min_le_left ..) hpct)
  have hceiling := perSwapCeilingMsat_eq hfits
  have hwant := wantGrowSats_eq hfits
  dsimp only at hgrown
  rw [Nat.add_mul] at hgrown
  omega

end

theorem splice_sized_iff (snap : ChannelSnapshot) (confirmed : ℕ) (cfg : RebalanceConfig) (cap : ℕ)
    (hfits : snap.channelValueSatoshis * 1000 * min snap.maxInboundInFlightPercent 100 < 2 ^ 64) :
    (decideSplice snap confirmed cfg cap).Sized snap confirmed cfg cap ↔
      (snap.isUsable → snap.nextOutboundHtlcLimitMsat < perSwapCeilingMsat snap →
        minEconomicGrowSats ≤ cap - snap.channelValueSatoshis →
        minEconomicGrowSats ≤ confirmed - cfg.walletReserveSats →
        snap.nextOutboundHtlcLimitMsat + 1000 * (minEconomicGrowSats - 1) < 2 * perSwapCeilingMsat snap) := by
  have hwant := wantGrowSats_eq hfits
  unfold decideSplice
  dsimp only
  split_ifs with husable hzero hserves hcap hwallet hsmall hwhich
  · simp_all [SpliceDecision.Sized]
  · refine iff_of_true trivial fun _ hshort => ?_
    omega
  · exact iff_of_true trivial fun _ hshort => absurd hshort (Nat.not_lt.mpr hserves)
  · exact iff_of_true hcap fun _ _ hfits => absurd hcap (Nat.not_lt.mpr hfits)
  · exact iff_of_true hwallet fun _ _ _ hfunds => absurd hwallet (Nat.not_lt.mpr hfunds)
  -- neither bound is short: what is too small is the growth that is wanted
  · refine iff_of_false hwallet fun h => ?_
    have hlarge := h (by simpa using husable) (by omega) (by omega) (by omega)
    omega
  · refine iff_of_false hcap fun h => ?_
    have hlarge := h (by simpa using husable) (by omega) (by omega) (by omega)
    omega
  · refine iff_of_true ⟨Nat.le_of_not_lt hsmall, by omega, ?_⟩ fun _ _ _ _ => ?_
    · intro hpct hall
      rw [hall]
      exact wantGrowSats_enough hfits hpct (by omega)
    · unfold minEconomicGrowSats at hsmall ⊢
      omega

theorem splice_sized_full : (1000000 * 1000 * min 50 100 < 2 ^ 64) ∧
    decideSplice ⟨1000000, 200000000, 50, true⟩ 5000000 ⟨100000⟩ 10000000 = .splice 800000 ∧
    (SpliceDecision.splice 800000).Sized ⟨1000000, 200000000, 50, true⟩ 5000000 ⟨100000⟩ 10000000 :=
  ⟨by decide, by decide, (splice_sized_iff ⟨1000000, 200000000, 50, true⟩ 5000000 ⟨100000⟩ 10000000 (by decide)).mpr
    (by decide)⟩

/-- A small channel wants a growth below the floor, and its refusal blames a wallet that could pay for many. -/
theorem small_channel_blames_wallet :
    decideSplice ⟨100000, 0, 50, true⟩ 10000000 ⟨100000⟩ 100000000 = .blocked (.insufficientWallet 9900000 250000) ∧
      ¬ (SpliceDecision.blocked (.insufficientWallet 9900000 250000)).Sized ⟨100000, 0, 50, true⟩ 10000000 ⟨100000⟩
        100000000 := by
  dsimp only [SpliceDecision.Sized]
  decide

end QuidProtocol.Hop
