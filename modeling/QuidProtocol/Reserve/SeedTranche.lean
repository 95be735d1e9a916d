import QuidProtocol.Reserve.Redeem
import QuidProtocol.Reserve.Take

/-!
The seed that is kept apart in each stable.
-/

namespace QuidProtocol.Reserve

open Lib Function
open Basket (Address)

structure Holdings where
  depegSeverityBps : Address → ℕ
  amounts : ℕ → ℕ
  withdrawSelf : Address → ℕ → Address → Option ℕ
  backed : Bool

variable (r : Shelf) (t : Tranches)

def Shelf.holding (x : Holdings) : Shelf :=
  { r with depegSeverityBps := x.depegSeverityBps, amounts := x.amounts, withdrawSelf := x.withdrawSelf,
           backed := x.backed }

def tipTranches (r : Shelf) (burned seedBurned : ℕ) : List Address → Tranches → Res Tranches
  | [], t => .ok t
  | s :: rest, t => do
    let cut ← fullMulDiv (t.tranche s) seedBurned burned
    let t ← tipBody r t cut s false
    tipTranches r burned seedBurned rest t

def tipSeed (burned seedBurned : ℕ) : Res Tranches :=
  if 0 < seedBurned then tipTranches r burned seedBurned r.stables t else .ok t

/-- QD comes in for a swap: `turn` has burned it, with the seed in it, and it is valued at its part of
the solvent backing. -/
def consumeQdIn (burned seedBurned solvent matureSupply : ℕ) : Res (ℕ × Tranches) := do
  let supply ← add matureSupply burned
  let value ← (Redeem.qdShareValue burned solvent supply).mapError fun _ => .fullMulDivFailed
  let t ← tipSeed r t burned seedBurned
  .ok (value / 10 ^ 12, t)

inductive SeedCall
  | tip (cut : ℕ) (token : Address)
  | redeem (x : Holdings) (recipient : Address) (usdPart seedBurned : ℕ) (softBacking : Bool)
  | swapQdIn (burned seedBurned solvent matureSupply : ℕ)

def seedCall : SeedCall → Res Tranches
  | .tip cut token => do
    require .unknownStable (token ∈ r.stables)
    tipBody r t cut token true
  | .redeem x recipient usdPart seedBurned softBacking => do
    let y ← takeBody (r.holding x) t ⟨recipient, usdPart, r.quid, seedBurned, softBacking⟩
    .ok y.tranches
  | .swapQdIn burned seedBurned solvent matureSupply => do
    let (_, t) ← consumeQdIn r t burned seedBurned solvent matureSupply
    .ok t

def Tranches.empty : Tranches := ⟨fun _ => 0, 0⟩

/-- The part of the burned seed that falls on a stable, at 18 decimals. A redemption allocates its amount
to the stables, a swap burns the same part of each tranche. -/
def seedCut (token : Address) : SeedCall → ℕ
  | .tip _ _ => 0
  | .redeem x _ usdPart seedBurned _ =>
    match allocate (r.holding x) token usdPart (x.amounts (r.stables.idxOf token + 1)) (x.amounts 15) with
    | .ok share => share * seedBurned / usdPart
    | .error _ => 0
  | .swapQdIn burned seedBurned _ _ => t.tranche token * seedBurned / burned

def SeedCall.Burns : SeedCall → Prop
  | .tip _ _ => False
  | .redeem .. => True
  | .swapQdIn .. => True

def CutsExactly (c : SeedCall) : Prop :=
  c.Burns → ∀ t', seedCall r t c = .ok t' → ∀ token ∈ r.stables,
    t'.tranche token = t.tranche token - min (t.tranche token) (seedCut r t token c)

def Unscaled (c : SeedCall) : Prop :=
  c.Burns → ∀ token ∈ r.stables, 18 ≤ r.decimals token ∨ seedCut r t token c = 0 ∨ t.tranche token ≤ seedCut r t token c

structure Shelf.Deployed (r : Shelf) : Prop where
  quid_ne : r.quid ≠ r.weth
  nodup : r.stables.Nodup
  nonzero : 0 ∉ r.stables

def Tranches.total (stables : List Address) : ℕ := ∑ s ∈ stables.toFinset, t.tranche s

def Tranches.Balanced : Prop := t.trancheTotal = t.total r.stables

section

variable {r : Shelf} {t t' : Tranches} {cut burned seedBurned : ℕ} {token other : Address}

theorem tip_raises_eq (h : tipBody r t cut token true = .ok t') :
    t' = ⟨update t.tranche token (t.tranche token + parUsd18 r ⟨token, cut⟩),
      t.trancheTotal + parUsd18 r ⟨token, cut⟩⟩ := by
  obtain ⟨scaled, hscaled, h⟩ := of_bind h
  obtain rfl := scaleUp_eq hscaled
  rw [if_pos rfl] at h
  obtain ⟨one, hone, total, htotal, h⟩ := of_bind₂ h
  rw [← Except.ok.inj h, ← (add_eq_ok.mp hone).2, ← (add_eq_ok.mp htotal).2]

theorem tip_lowers_eq (h : tipBody r t cut token false = .ok t') : t' = ⟨update t.tranche token
        (t.tranche token - min (parUsd18 r ⟨token, cut⟩) (t.tranche token)),
      t.trancheTotal - min t.trancheTotal (min (parUsd18 r ⟨token, cut⟩) (t.tranche token))⟩ := by
  obtain ⟨scaled, hscaled, h⟩ := of_bind h
  obtain rfl := scaleUp_eq hscaled
  exact ok_inj h

variable {stables : List Address} {c : SeedCall}

theorem Tranches.total_update (h : token ∈ stables) (n k) :
    Tranches.total ⟨update t.tranche token n, k⟩ stables + t.tranche token = t.total stables + n := by
  have hmem : token ∈ stables.toFinset := List.mem_toFinset.mpr h
  unfold Tranches.total
  dsimp only
  rw [Finset.sum_update_of_mem hmem, ← Finset.add_sum_erase _ _ hmem, Finset.sdiff_singleton_eq_erase]
  omega

theorem Tranches.le_total (h : token ∈ stables) : t.tranche token ≤ t.total stables :=
  Finset.single_le_sum (fun _ _ => Nat.zero_le _) (List.mem_toFinset.mpr h)

theorem balanced_tip {raises} (ht : t.Balanced r) (hmem : token ∈ r.stables)
    (h : tipBody r t cut token raises = .ok t') : t'.Balanced r := by
  unfold Tranches.Balanced at ht ⊢
  cases raises with
  | true =>
    rw [tip_raises_eq h]
    have hsum := t.total_update hmem (t.tranche token + parUsd18 r ⟨token, cut⟩)
      (t.trancheTotal + parUsd18 r ⟨token, cut⟩)
    dsimp only
    omega
  | false =>
    rw [tip_lowers_eq h]
    have hle : t.tranche token ≤ t.total r.stables := Tranches.le_total hmem
    have hsum := t.total_update hmem (t.tranche token - min (parUsd18 r ⟨token, cut⟩) (t.tranche token))
      (t.trancheTotal - min t.trancheTotal (min (parUsd18 r ⟨token, cut⟩) (t.tranche token)))
    dsimp only
    omega

structure Burnt (r : Shelf) (cut : Address → ℕ) (stables : List Address) (t t' : Tranches) : Prop where
  lowered : ∀ token ∈ stables,
    t'.tranche token = t.tranche token - min (parUsd18 r ⟨token, cut token⟩) (t.tranche token)
  kept : ∀ token ∉ stables, t'.tranche token = t.tranche token
  balanced : stables ⊆ r.stables → t.Balanced r → t'.Balanced r

theorem Burnt.unchanged {cut} (h : ∀ token ∈ stables, cut token = 0) : Burnt r cut stables t t where
  lowered token htoken := by simp [h token htoken, parUsd18]
  kept _ _ := rfl
  balanced _ ht := ht

theorem Burnt.nil (r : Shelf) (cut : Address → ℕ) (t : Tranches) : Burnt r cut [] t t := Burnt.unchanged (by simp)

theorem Burnt.cons {cut rest u} (hnew : token ∉ rest)
    (htip : tipBody r t (cut token) token false = .ok u) (h : Burnt r cut rest u t') :
    Burnt r cut (token :: rest) t t' := by
  have hu := tip_lowers_eq htip
  have hother (s : Address) (hs : s ≠ token) : u.tranche s = t.tranche s := by
    rw [hu]
    exact update_of_ne hs _ _
  constructor
  · intro s hs
    rcases List.mem_cons.mp hs with rfl | hs
    · rw [h.kept s hnew, hu]
      exact update_self _ _ _
    · have hne : s ≠ token := fun he => hnew (he ▸ hs)
      rw [h.lowered s hs, hother s hne]
  · intro s hs
    obtain ⟨hne, hs⟩ := not_or.mp (hs ∘ List.mem_cons.mpr)
    rw [h.kept s hs, hother s hne]
  · intro hsub ht
    obtain ⟨hmem, hsub⟩ := List.cons_subset.mp hsub
    exact h.balanced hsub (balanced_tip ht hmem htip)

theorem tipTranches_burnt (hnodup : stables.Nodup) (h : tipTranches r burned seedBurned stables t = .ok t') :
    Burnt r (fun s => t.tranche s * seedBurned / burned) stables t t' := by
  induction stables generalizing t with
  | nil =>
    obtain rfl := Except.ok.inj h
    exact Burnt.nil r _ t
  | cons s rest ih =>
    obtain ⟨hs, hnodup⟩ := List.nodup_cons.mp hnodup
    obtain ⟨cut, hcut, u, hu, h⟩ := of_bind₂ h
    rw [fullMulDiv_eq hcut] at hu
    apply Burnt.cons hs hu
    have hrest := ih hnodup h
    -- the tip of this stable leaves the tranches of the others, which set their cuts
    have hother (a : Address) (ha : a ≠ s) : u.tranche a = t.tranche a := by
      rw [tip_lowers_eq hu]
      exact update_of_ne ha _ _
    constructor
    · intro a ha
      have hne : a ≠ s := fun he => hs (he ▸ ha)
      rw [hrest.lowered a ha, hother a hne]
    · exact hrest.kept
    · exact hrest.balanced

section Loops

variable {who skip : Address} {amount share seed i : ℕ} {p p' : ProRata} {stables : List Address}

theorem payShare_tranches (h : payShare r p who token share = .ok p') : p'.tranches = p.tranches := by
  unfold payShare at h
  dsimp only at h
  split_ifs at h
  · rw [Except.ok.inj h]
  · rw [← Except.ok.inj h]
  · cases hw : r.withdrawSelf token (share / 10 ^ (18 - r.decimals token)) who with
    | none =>
      simp only [hw] at h
      rw [Except.ok.inj h]
    | some =>
      simp only [hw] at h
      obtain ⟨value, -, sent, -, h⟩ := of_bind₂ h
      rw [← Except.ok.inj h]

theorem takeLeg_tranches (hskip : token ≠ skip) (hseed : 0 < seed)
    (h : takeLeg r who amount seed skip i token p = .ok p') :
    ∃ share, allocate r token amount (r.amounts i) (r.amounts 15) = .ok share ∧
      tipBody r p.tranches (share * seed / amount) token false = .ok p'.tranches := by
  rw [takeLeg, if_neg hskip] at h
  obtain ⟨share, hshare, q, hq, h⟩ := of_bind₂ h
  rw [tipShare, if_pos hseed] at hq
  obtain ⟨cut, hcut, u, hu, hq⟩ := of_bind₂ hq
  rw [fullMulDiv_eq hcut] at hu
  refine ⟨share, hshare, ?_⟩
  rw [payShare_tranches h, ← Except.ok.inj hq]
  exact hu

theorem takeProRata_burnt {cut} (hnodup : stables.Nodup) (hskip : skip ∉ stables) (hseed : 0 < seed)
    (hcut : ∀ k (hk : k < stables.length) share,
      allocate r stables[k] amount (r.amounts (i + k)) (r.amounts 15) = .ok share →
      cut stables[k] = share * seed / amount) (h : takeProRata r who amount seed skip i stables p = .ok p') :
    Burnt r cut stables p.tranches p'.tranches := by
  induction stables generalizing i p with
  | nil =>
    cases h
    exact Burnt.nil r _ _
  | cons token rest ih =>
    obtain ⟨hnew, hnodup⟩ := List.nodup_cons.mp hnodup
    obtain ⟨hne, hskip⟩ := not_or.mp (hskip ∘ List.mem_cons.mpr)
    obtain ⟨q, hq, h⟩ := of_bind h
    obtain ⟨share, hshare, htip⟩ := takeLeg_tranches (Ne.symm hne) hseed hq
    have hfirst : cut token = share * seed / amount := hcut 0 (by simp) share hshare
    rw [← hfirst] at htip
    apply Burnt.cons hnew htip
    apply ih hnodup hskip _ h
    intro k hk share hshare
    apply hcut (k + 1) (by simpa using hk)
    rw [← hshare]
    simp only [List.getElem_cons_succ, Nat.add_assoc, Nat.add_comm 1]

theorem takeProRata_unseeded (h : takeProRata r who amount 0 skip i stables p = .ok p') : p'.tranches = p.tranches := by
  induction stables generalizing i p with
  | nil => rw [Except.ok.inj h]
  | cons token rest ih =>
    obtain ⟨q, hq, h⟩ := of_bind h
    rw [ih h]
    unfold takeLeg at hq
    split_ifs at hq
    · rw [Except.ok.inj hq]
    · obtain ⟨share, -, u, hu, hq⟩ := of_bind₂ hq
      rw [payShare_tranches hq]
      rw [tipShare, if_neg (lt_irrefl 0)] at hu
      rw [← Except.ok.inj hu]

end Loops

theorem redeem_burnt {x recipient usdPart soft} (hr : r.Deployed)
    (h : seedCall r t (.redeem x recipient usdPart seedBurned soft) = .ok t') :
    Burnt r (fun s => seedCut r t s (.redeem x recipient usdPart seedBurned soft)) r.stables t t' := by
  obtain ⟨y, hy, h⟩ := of_bind h
  obtain rfl := Except.ok.inj h
  unfold takeBody at hy
  split_ifs at hy with hweth
  · exact absurd hweth hr.quid_ne
  obtain ⟨z, hz, hy⟩ := of_bind hy
  obtain ⟨-, hy⟩ := of_require hy
  obtain rfl := Except.ok.inj hy
  have hz : takeRest (r.holding x) ⟨recipient, usdPart, r.quid, seedBurned, soft⟩ 0 ⟨0, usdPart, t, []⟩ =
    .ok z := (if_pos (Or.inl rfl)).symm.trans hz
  unfold takeRest at hz
  dsimp only at hz
  split_ifs at hz with hnone hseed
  · -- nothing is held or nothing is asked for, and nothing is allocated
    obtain ⟨u', -, hz⟩ := of_bind hz
    obtain rfl := Except.ok.inj hz
    apply Burnt.unchanged
    intro token _
    rcases hnone with hnone | hnone
    · have hheld : x.amounts 15 = 0 := hnone
      simp [seedCut, allocate, hheld]
    · have hasked : usdPart = 0 := hnone
      simp only [seedCut, hasked, Nat.div_zero]
      split <;> rfl
  · obtain ⟨p, hp, sent, -, hz⟩ := of_bind₂ hz
    obtain ⟨-, u'', -, hz⟩ := of_require_bind hz
    obtain rfl := Except.ok.inj hz
    have hzero : seedBurned = 0 := hseed
    subst hzero
    rw [takeProRata_unseeded hp]
    apply Burnt.unchanged
    intro token _
    simp only [seedCut, Nat.mul_zero, Nat.zero_div]
    split <;> rfl
  · obtain ⟨p, hp, sent, -, hz⟩ := of_bind₂ hz
    obtain ⟨-, u'', -, hz⟩ := of_require_bind hz
    obtain rfl := Except.ok.inj hz
    have hburn : Burnt (r.holding x) (fun s => seedCut r t s (.redeem x recipient usdPart seedBurned soft))
        r.stables t p.tranches := by
      apply takeProRata_burnt hr.nodup hr.nonzero (Nat.pos_of_ne_zero hseed) _ hp
      intro k hk share hshare
      have hindex : r.stables.idxOf r.stables[k] + 1 = 1 + k := by
        rw [List.Nodup.idxOf_getElem hr.nodup k hk, Nat.add_comm]
      have hshare' : allocate (r.holding x) r.stables[k] usdPart (x.amounts (1 + k)) (x.amounts 15) =
        .ok share := hshare
      simp only [seedCut, hindex, hshare']
    exact ⟨hburn.lowered, hburn.kept, hburn.balanced⟩

theorem swapQdIn_burnt {solvent matureSupply} (hr : r.Deployed)
    (h : seedCall r t (.swapQdIn burned seedBurned solvent matureSupply) = .ok t') :
    Burnt r (fun s => seedCut r t s (.swapQdIn burned seedBurned solvent matureSupply)) r.stables t t' := by
  obtain ⟨⟨amount, u⟩, hu, h⟩ := of_bind h
  cases h
  obtain ⟨supply, -, value, -, v, hv, hu⟩ := of_bind₃ hu
  cases hu
  unfold tipSeed at hv
  split_ifs at hv with hseed
  · exact tipTranches_burnt hr.nodup hv
  · cases hv
    apply Burnt.unchanged
    intro token _
    simp [seedCut, Nat.eq_zero_of_not_pos hseed]

theorem seedCall_burnt (hr : r.Deployed) (hc : c.Burns) (h : seedCall r t c = .ok t') :
    Burnt r (fun s => seedCut r t s c) r.stables t t' := by
  cases c with
  | tip => exact hc.elim
  | redeem => exact redeem_burnt hr h
  | swapQdIn => exact swapQdIn_burnt hr h

theorem balanced_seedCall (hr : r.Deployed) (ht : t.Balanced r) (h : seedCall r t c = .ok t') : t'.Balanced r := by
  cases c with
  | tip =>
    obtain ⟨hmem, h⟩ := of_require h
    exact balanced_tip ht hmem h
  | redeem =>
    exact (redeem_burnt hr h).balanced (List.Subset.refl _) ht
  | swapQdIn =>
    exact (swapQdIn_burnt hr h).balanced (List.Subset.refl _) ht

theorem lowered_iff (d tranche cut : ℕ) : tranche - min (cut * 10 ^ (18 - d)) tranche = tranche - min tranche cut ↔
      18 ≤ d ∨ cut = 0 ∨ tranche ≤ cut := by
  rcases Nat.lt_or_ge d 18 with hd | hd
  · have hpow : 10 ≤ 10 ^ (18 - d) := by
      calc 10 = 10 ^ 1 := (pow_one 10).symm
        _ ≤ 10 ^ (18 - d) := Nat.pow_le_pow_right (by norm_num) (by omega)
    have hscaled : cut * 10 ≤ cut * 10 ^ (18 - d) := Nat.mul_le_mul_left cut hpow
    have hzero : cut = 0 → cut * 10 ^ (18 - d) = 0 := fun h => by rw [h, Nat.zero_mul]
    generalize cut * 10 ^ (18 - d) = scaled at hscaled hzero ⊢
    omega
  · rw [Nat.sub_eq_zero_of_le hd]
    omega

theorem cutsExactly_iff (hr : r.Deployed) (h : seedCall r t c = .ok t') : CutsExactly r t c ↔ Unscaled r t c := by
  apply forall_congr'
  intro hc
  have hburn := seedCall_burnt hr hc h
  constructor
  · intro hcut token htoken
    have hexact := hcut t' h token htoken
    rw [hburn.lowered token htoken] at hexact
    exact (lowered_iff _ _ _).mp hexact
  · intro hplain u hu token htoken
    obtain rfl := ok_unique h hu
    rw [hburn.lowered token htoken]
    exact (lowered_iff _ _ _).mpr (hplain token htoken)

theorem Tranches.empty_balanced (r : Shelf) : Tranches.empty.Balanced r := by
  simp [Tranches.Balanced, Tranches.total, Tranches.empty]

/-- The burns of a run are exact if and only if no part of the seed is scaled up that should not be. -/
theorem seed_burns_exact_iff (r : Shelf) (hr : r.Deployed) (cs : List SeedCall) (t' : Tranches)
    (hrun : runAll (seedCall r) .empty cs = .ok t') : EveryState (seedCall r) (Tranches.Balanced r) .empty cs ∧
      (EveryStep (seedCall r) (CutsExactly r) .empty cs ↔ EveryStep (seedCall r) (Unscaled r) .empty cs) := by
  constructor
  · apply everyState_of_invariant (fun _ ht => ht) (fun t c u ht _ hu => balanced_seedCall hr ht hu)
      (Tranches.empty_balanced r) (everyStep_trivial _ _)
  · have hcongr (t : Tranches) (c : SeedCall) (u : Tranches) (_ : True) (hu : seedCall r t c = .ok u) :
        CutsExactly r t c ↔ Unscaled r t c := cutsExactly_iff hr hu
    exact everyStep_congr (fun _ _ _ _ _ => trivial) hcongr trivial hrun

end

instance SeedCall.decidableBurns (c : SeedCall) : Decidable c.Burns := by
  unfold SeedCall.Burns
  split <;> infer_instance

instance decidableUnscaled (r : Shelf) (t : Tranches) (c : SeedCall) : Decidable (Unscaled r t c) :=
  @instDecidableForall _ _ c.decidableBurns (List.decidableBAll _ r.stables)

def oneStable (decimals : ℕ) : Shelf where
  weth := 1
  quid := 2
  stables := [5]
  toIndex := fun _ => 1
  decimals := fun _ => decimals
  depegSeverityBps := fun _ => 0
  amounts := fun _ => 2 * 10 ^ 18
  withdrawSelf := fun _ n _ => some n
  backed := true

def twoDollars : Holdings where
  depegSeverityBps := fun _ => 0
  amounts := fun _ => 2 * 10 ^ 18
  withdrawSelf := fun _ n _ => some n
  backed := true

def seedRedeemed : SeedCall := .redeem twoDollars 9 (10 ^ 18) (2 * 10 ^ 17) false

def seedSwapped : SeedCall := .swapQdIn (2 * 10 ^ 18) (10 ^ 18) (4 * 10 ^ 18) (2 * 10 ^ 18)

theorem oneStable_deployed (decimals : ℕ) : (oneStable decimals).Deployed where
  quid_ne := by
    change 2 ≠ 1
    decide
  nodup := List.nodup_singleton _
  nonzero := by
    change 0 ∉ [5]
    decide

theorem seed_burns_exact_unscaled : ∃ t' : Tranches, runAll (seedCall (oneStable 18)) .empty
      [.tip (10 ^ 18) 5, seedRedeemed, seedSwapped] = .ok t' ∧
    EveryStep (seedCall (oneStable 18)) (CutsExactly (oneStable 18)) .empty
      [.tip (10 ^ 18) 5, seedRedeemed, seedSwapped] := by
  obtain ⟨t', hrun, hplain⟩ : ∃ t', runAll (seedCall (oneStable 18)) .empty
      [.tip (10 ^ 18) 5, seedRedeemed, seedSwapped] = .ok t' ∧ EveryStep (seedCall (oneStable 18))
      (Unscaled (oneStable 18)) .empty [.tip (10 ^ 18) 5, seedRedeemed, seedSwapped] := by
    decide +kernel
  exact ⟨t', hrun, (seed_burns_exact_iff _ (oneStable_deployed 18) _ t' hrun).2.mpr hplain⟩

theorem seed_burn_rescaled : ∃ t u v : Tranches,
    seedCall (oneStable 6) .empty (.tip (10 ^ 6) 5) = .ok t ∧ t.tranche 5 = 10 ^ 18 ∧
    (seedCall (oneStable 6) t seedRedeemed = .ok u ∧
      seedCut (oneStable 6) t 5 seedRedeemed = 2 * 10 ^ 17 ∧ u.tranche 5 = 0) ∧
    seedCall (oneStable 6) t seedSwapped = .ok v ∧ seedCut (oneStable 6) t 5 seedSwapped = 5 * 10 ^ 17 ∧
      v.tranche 5 = 0 := by
  simp only [and_assoc, exists_and_left]
  decide +kernel

end QuidProtocol.Reserve
