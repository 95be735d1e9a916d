import QuidProtocol.Basket.Books
import QuidProtocol.Lib.ProRata

/-!
Redemptions of QD: what a holder burns and is paid.
-/

namespace QuidProtocol.Redeem

open Lib
open Basket (Address wad add mul fullMulDiv)

inductive Err
  | basket (e : Basket.Err)
  | outside

abbrev Res := Except Err

/-- What a redemption finds outside: `take` answers with what of the backing leaves, never more than
it is asked for. -/
structure Env where
  illiquidLoss : ℕ
  committedUsd18 : ℕ
  unwindForRedeem : ℕ → Option ℕ
  deleverBook : ℕ → Option ℕ
  take : ℕ → ℕ → Option ℕ
  take_le : ∀ usd seed paid, take usd seed = some paid → paid ≤ usd

structure State where
  basket : Basket.State
  solvent : ℕ

structure Payout where
  burned : ℕ
  usd : ℕ
  paid : ℕ

def qdShareValue (burned total supplyPreBurn : ℕ) : Basket.Res ℕ :=
  if burned = 0 ∨ supplyPreBurn = 0 then .ok burned
  else do
    let share ← fullMulDiv total burned supplyPreBurn
    .ok (min burned share)

def perShare (s : State) : Basket.Res ℕ := do
  let supply ← s.basket.matureSupply
  qdShareValue wad s.solvent supply

def matureBalanceOf (b : Basket.State) (who : Address) : Basket.Res ℕ := do
  let imm ← b.immatureBalanceOf who
  .ok (b.erc20.balances who - imm)

def burnWorth (b : Basket.State) (source : Address) (usd p : ℕ) : Basket.Res (Basket.State × ℕ × ℕ × ℕ) := do
  let value ← fullMulDiv usd wad p
  let (b, burned, seedBurned) ← b.turn b.aux source value
  let worth ← fullMulDiv burned p wad
  .ok (b, burned, seedBurned, worth)

def spendClaimBody (s : State) (owner : Address) (usd6 : ℕ) : Basket.Res (Basket.State × Payout) :=
  if usd6 = 0 then .ok (s.basket, ⟨0, 0, 0⟩)
  else do
    let p ← perShare s
    if p = 0 then .ok (s.basket, ⟨0, 0, 0⟩)
    else do
      let mature ← matureBalanceOf s.basket owner
      let asked ← mul usd6 (10 ^ 12)
      let claim ← fullMulDiv mature p wad
      if min asked claim = 0 then .ok (s.basket, ⟨0, 0, 0⟩)
      else do
        let (b, burned, _, worth) ← burnWorth s.basket owner (min asked claim) p
        let funded6 := worth / 10 ^ 12
        .ok (b, ⟨burned, funded6 * 10 ^ 12, funded6 * 10 ^ 12⟩)

section

variable (env : Env)

def redeemQuote (s : State) : Basket.Res (ℕ × ℕ) := do
  let p ← perShare s
  .ok (p, s.solvent - max env.illiquidLoss env.committedUsd18)

def freeUp (need : ℕ) : Res ℕ := do
  let freed ← found .outside (env.unwindForRedeem need)
  if freed < need then do
    let more ← found .outside (env.deleverBook (need - freed))
    (add freed more).mapError .basket
  else .ok freed

def deliverable (wantUsd freeUsd : ℕ) : Res ℕ :=
  if freeUsd < wantUsd then do
    let freed ← freeUp env (wantUsd - freeUsd)
    .ok (freeUsd + min freed (wantUsd - freeUsd))
  else .ok wantUsd

def settleRedeem (s : State) (source : Address) (amount p freeUsd : ℕ) : Res (Basket.State × ℕ × ℕ × ℕ) :=
  if p = 0 then .ok (s.basket, 0, 0, 0)
  else do
    let mature ← (matureBalanceOf s.basket source).mapError .basket
    let wantUsd ← (fullMulDiv (min amount mature) p wad).mapError .basket
    let delivered ← deliverable env wantUsd freeUsd
    (burnWorth s.basket source delivered p).mapError .basket

def redeemAsBody (s : State) (source : Address) (amount : ℕ) : Res (Basket.State × Payout) := do
  let (p, freeUsd) ← (redeemQuote env s).mapError .basket
  let (b, burned, seedBurned, usdPart) ← settleRedeem env s source amount p freeUsd
  let paid ← found .outside (env.take usdPart seedBurned)
  .ok (b, ⟨burned, usdPart, paid⟩)

end

inductive Redemption
  | redeem (source : Address) (amount : ℕ)
  | spendClaim (owner : Address) (usd6 : ℕ)

def exec (s : State) (c : Env × Redemption) : Res (Basket.State × Payout) :=
  match c.2 with
  | .redeem source amount => redeemAsBody c.1 s source amount
  | .spendClaim owner usd6 => (spendClaimBody s owner usd6).mapError .basket

def step (s : State) (c : Env × Redemption) : Res State := do
  let (basket, x) ← exec s c
  .ok { basket, solvent := s.solvent - x.paid }

section

variable {s s' : State} {b b' : Basket.State} {env : Env} {x : Payout}
variable {source : Address} {supply burned seed worth usd p amount free n : ℕ}

theorem fullMulDiv_eq_ok {a d} (h : fullMulDiv a n d = .ok p) : p = a * n / d := by
  obtain ⟨-, h⟩ := of_require h
  exact ok_inj h

theorem perShare_eq (hsupply : s.basket.matureSupply = .ok supply) (h : perShare s = .ok p) :
    p = shareQuote wad s.solvent supply := by
  unfold perShare at h
  rw [hsupply, ok_bind] at h
  unfold qdShareValue at h
  unfold shareQuote
  by_cases hzero : supply = 0
  · rw [if_pos (Or.inr hzero)] at h
    rw [if_pos hzero]
    exact ok_inj h
  · rw [if_neg (not_or.mpr ⟨by decide, hzero⟩)] at h
    obtain ⟨share, hshare, h⟩ := of_bind h
    rw [if_neg hzero, ← Except.ok.inj h, fullMulDiv_eq_ok hshare]

theorem foldlM_add_congr {f g : ℕ → ℕ} {ms : List ℕ} (h : ∀ k ∈ ms, f k = g k) (acc : ℕ) :
    ms.foldlM (fun bal m => add bal (f m)) acc = ms.foldlM (fun bal m => add bal (g m)) acc := by
  induction ms generalizing acc with
  | nil => rfl
  | cons m ms ih =>
    have hrest := ih fun k hk => h k (List.mem_cons_of_mem m hk)
    rw [List.foldlM_cons, List.foldlM_cons, h m List.mem_cons_self]
    apply bind_congr
    exact hrest

theorem windowSum_congr {f g : ℕ → ℕ} {cm : ℕ} (h : ∀ k, cm < k → f k = g k) :
    Basket.State.windowSum f cm = Basket.State.windowSum g cm := by
  apply foldlM_add_congr
  intro k hk
  apply h
  have := List.mem_range'_1.mp hk
  omega

theorem turn_matureSupply {sender} (hk : b.Kept) (h : b.turn sender source n = .ok (b', burned, seed)) :
    b'.Kept ∧ ∀ supply, b.matureSupply = .ok supply → b'.matureSupply = .ok (supply - burned) := by
  obtain ⟨-, ⟨t, sent⟩, hmove, h⟩ := of_require_bind h
  obtain ⟨seedBurned, -, h⟩ := of_bind h
  obtain ⟨rfl, hrest⟩ := ok_pair_inj h
  obtain ⟨rfl, -⟩ := Prod.mk.inj hrest
  obtain ⟨δ, hmoved⟩ := Basket.State.transferHelper_eq_ok hk hmove
  refine ⟨hmoved.kept, fun supply hsupply => ?_⟩
  have hmonth : t.currentMonth = b.currentMonth := by
    unfold Basket.State.currentMonth
    rw [hmoved.timestamp, hmoved.deployed]
  have hwindow : t.immatureSupply = b.immatureSupply := by
    unfold Basket.State.immatureSupply
    rw [hmonth]
    apply windowSum_congr
    intro k hk
    have hnone : δ k = 0 := by
      by_contra hne
      have hle := hmoved.mature rfl k hne
      omega
    have hsum := congrFun hmoved.supplies k
    rw [if_pos rfl, Pi.add_apply, hnone, Nat.add_zero] at hsum
    exact hsum
  obtain ⟨imm, himm, hsupply⟩ := of_bind hsupply
  unfold Basket.State.matureSupply
  rw [hwindow, himm, ok_bind]
  have hburn := hmoved.supply
  rw [if_pos rfl] at hburn
  cases hsupply
  dsimp only
  congr 1
  split_ifs <;> omega

theorem burnWorth_eq (h : burnWorth b source usd p = .ok (b', burned, seed, worth)) :
    (∃ n, b.turn b.aux source n = .ok (b', burned, seed)) ∧ worth * wad ≤ burned * p := by
  obtain ⟨n, -, ⟨t, sent, seedBurned⟩, hturn, w, hworth, h⟩ := of_bind₃ h
  obtain ⟨rfl, hrest⟩ := ok_pair_inj h
  obtain ⟨rfl, hparts⟩ := Prod.mk.inj hrest
  obtain ⟨rfl, rfl⟩ := Prod.mk.inj hparts
  refine ⟨⟨n, hturn⟩, ?_⟩
  rw [fullMulDiv_eq_ok hworth]
  exact Nat.div_mul_le_self _ _

inductive Pays (s : State) (b : Basket.State) (x : Payout) : Prop
  | nothing (hb : b = s.basket) (hburned : x.burned = 0) (husd : x.usd = 0) (hpaid : x.paid = 0)
  | burn {source n seed p : _} (hquote : perShare s = .ok p)
      (hturn : s.basket.turn s.basket.aux source n = .ok (b, x.burned, seed))
      (husd : x.usd * wad ≤ x.burned * p) (hpaid : x.paid ≤ x.usd)

theorem spendClaimBody_pays (h : spendClaimBody s source n = .ok (b, x)) : Pays s b x := by
  unfold spendClaimBody at h
  split_ifs at h
  · cases h
    exact .nothing rfl rfl rfl rfl
  obtain ⟨p, hquote, h⟩ := of_bind h
  split_ifs at h
  · cases h
    exact .nothing rfl rfl rfl rfl
  obtain ⟨mature, -, asked, -, claim, -, h⟩ := of_bind₃ h
  split_ifs at h
  · cases h
    exact .nothing rfl rfl rfl rfl
  obtain ⟨⟨t, burned, seed, worth⟩, hburn, h⟩ := of_bind h
  cases h
  obtain ⟨⟨n, hturn⟩, hworth⟩ := burnWorth_eq hburn
  have hfloor : worth / 10 ^ 12 * 10 ^ 12 * wad ≤ burned * p :=
    (Nat.mul_le_mul_right wad (Nat.div_mul_le_self _ _)).trans hworth
  exact .burn hquote hturn hfloor (le_refl _)

theorem redeemAsBody_pays (h : redeemAsBody env s source amount = .ok (b, x)) : Pays s b x := by
  obtain ⟨⟨p, free⟩, hquote, ⟨t, burned, seed, worth⟩, hsettle, paid, htake, h⟩ := of_bind₃ h
  cases h
  have hpaid := env.take_le _ _ _ (found_eq_ok.mp htake)
  obtain ⟨q, hq, hquote⟩ := of_bind (mapError_eq_ok.mp hquote)
  cases hquote
  unfold settleRedeem at hsettle
  split_ifs at hsettle
  · obtain ⟨rfl, hrest⟩ := ok_pair_inj hsettle
    obtain ⟨rfl, hparts⟩ := Prod.mk.inj hrest
    obtain ⟨-, rfl⟩ := Prod.mk.inj hparts
    exact .nothing rfl rfl rfl (Nat.le_zero.mp hpaid)
  · obtain ⟨mature, -, want, -, delivered, -, hsettle⟩ := of_bind₃ hsettle
    obtain ⟨⟨n, hturn⟩, hworth⟩ := burnWorth_eq (mapError_eq_ok.mp hsettle)
    exact .burn hq hturn hworth hpaid

theorem exec_pays {c} (h : exec s c = .ok (b, x)) : Pays s b x := by
  obtain ⟨env, call⟩ := c
  cases call with
  | redeem => exact redeemAsBody_pays h
  | spendClaim => exact spendClaimBody_pays (mapError_eq_ok.mp h)

theorem Pays.kept (hk : s.basket.Kept) (h : Pays s b x) : b.Kept := by
  cases h with
  | nothing hb => exact hb ▸ hk
  | burn _ hturn => exact (turn_matureSupply hk hturn).1

theorem Pays.usd_le (h : Pays s b x) (hsupply : s.basket.matureSupply = .ok supply) :
    (x.usd : ℚ) ≤ x.burned * shareValue s.solvent supply ∧ ∀ p, perShare s = .ok p → x.usd * wad ≤ x.burned * p := by
  cases h with
  | nothing hb hburned husd =>
    rw [husd, hburned]
    simp
  | burn hquote hturn husd =>
    refine ⟨?_, ?_⟩
    · rw [perShare_eq hsupply hquote] at husd
      exact le_shareValue_of_quote (by decide) husd
    · intro p hp
      rwa [← ok_unique hquote hp]

theorem Pays.supply_eq (hk : s.basket.Kept) (h : Pays s b x) (hsupply : s.basket.matureSupply = .ok supply) :
    b.matureSupply = .ok (supply - x.burned) ∧ x.paid ≤ x.usd := by
  cases h with
  | nothing hb hburned husd hpaid =>
    rw [hb, hburned, hpaid]
    exact ⟨hsupply, Nat.zero_le _⟩
  | burn hquote hturn husd hpaid => exact ⟨(turn_matureSupply hk hturn).2 supply hsupply, hpaid⟩

theorem Pays.shareValue_le (hk : s.basket.Kept) (h : Pays s b x) (hsupply : s.basket.matureSupply = .ok supply) :
    shareValue s.solvent supply ≤ shareValue (s.solvent - x.paid) (supply - x.burned) := by
  apply shareValue_le_after
  have hpaid : (x.paid : ℚ) ≤ x.usd := by exact_mod_cast (h.supply_eq hk hsupply).2
  exact hpaid.trans (h.usd_le hsupply).1

end

def NoWorse (s t : State) : Prop :=
  ∀ supply, s.basket.matureSupply = .ok supply → ∃ supply', t.basket.matureSupply = .ok supply' ∧
    shareValue s.solvent supply ≤ shareValue t.solvent supply' ∧
    ∀ p q, perShare s = .ok p → perShare t = .ok q → p ≤ q

def RunProof (s : State) (c : Env × Redemption) : Prop :=
  ∀ b x supply, exec s c = .ok (b, x) → s.basket.matureSupply = .ok supply →
    x.paid ≤ x.usd ∧ (x.usd : ℚ) ≤ x.burned * shareValue s.solvent supply ∧
    (∀ p, perShare s = .ok p → x.usd * wad ≤ x.burned * p) ∧ NoWorse s ⟨b, s.solvent - x.paid⟩

section

variable {s t u : State} {supply supply' : ℕ}

theorem noWorse_of_le (hs : s.basket.matureSupply = .ok supply) (ht : t.basket.matureSupply = .ok supply')
    (h : shareValue s.solvent supply ≤ shareValue t.solvent supply') : NoWorse s t := by
  intro supply₁ hs₁
  obtain rfl := ok_unique hs hs₁
  refine ⟨supply', ht, h, fun p q hp hq => ?_⟩
  rw [perShare_eq hs hp, perShare_eq ht hq]
  exact shareQuote_mono h

theorem NoWorse.refl (s : State) : NoWorse s s := by
  intro supply hs
  exact noWorse_of_le hs hs (le_refl _) supply hs

theorem NoWorse.trans (h : NoWorse s t) (h' : NoWorse t u) : NoWorse s u := by
  intro supply hs
  obtain ⟨supply₁, ht, hle, -⟩ := h supply hs
  obtain ⟨supply₂, hu, hle', -⟩ := h' supply₁ ht
  exact noWorse_of_le hs hu (hle.trans hle') supply hs

theorem runProof (hk : s.basket.Kept) (c : Env × Redemption) : RunProof s c := by
  intro b x supply h hsupply
  have hpays := exec_pays h
  obtain ⟨hvalue, hquote⟩ := hpays.usd_le hsupply
  obtain ⟨hafter, hpaid⟩ := hpays.supply_eq hk hsupply
  exact ⟨hpaid, hvalue, hquote, noWorse_of_le hsupply hafter (hpays.shareValue_le hk hsupply)⟩

theorem step_eq {c} (h : step s c = .ok t) : ∃ b x, exec s c = .ok (b, x) ∧ t = ⟨b, s.solvent - x.paid⟩ := by
  obtain ⟨⟨b, x⟩, hexec, h⟩ := of_bind h
  exact ⟨b, x, hexec, ok_inj h⟩

theorem kept_of_step {c} (hk : s.basket.Kept) (h : step s c = .ok t) : t.basket.Kept := by
  obtain ⟨b, x, hexec, rfl⟩ := step_eq h
  exact (exec_pays hexec).kept hk

theorem noWorse_of_step {c} (hk : s.basket.Kept) (h : step s c = .ok t) : NoWorse s t := by
  obtain ⟨b, x, hexec, rfl⟩ := step_eq h
  intro supply hsupply
  exact (runProof hk c b x supply hexec hsupply).2.2.2 supply hsupply

end

/-- In whatever order the holders redeem, the claims that are left are worth no less. -/
theorem redemptions_run_proof (owner aux range : Address) (now : ℕ) (calls : List Basket.Call)
    (b : Basket.State) (solvent : ℕ) (cs : List (Env × Redemption)) (hnow : now < Basket.uintBound)
    (hrun : runAll Basket.State.exec (Basket.State.created owner aux range now) calls = .ok b) :
    EveryStep step RunProof ⟨b, solvent⟩ cs ∧ EveryState step (NoWorse ⟨b, solvent⟩) ⟨b, solvent⟩ cs := by
  have hk : b.Kept := (Basket.matured_of_run hnow hrun).booked.kept
  constructor
  · exact everyStep_of_invariant (fun s c hs => runProof hs c) (fun s c t hs h => kept_of_step hs h) hk
  · have hworth : ∀ s : State, s.basket.Kept ∧ NoWorse ⟨b, solvent⟩ s → NoWorse ⟨b, solvent⟩ s :=
      fun _ => And.right
    refine everyState_of_invariant hworth ?_ ⟨hk, NoWorse.refl _⟩ (everyStep_trivial _ cs)
    rintro s c t ⟨hs, hle⟩ - h
    exact ⟨kept_of_step hs h, hle.trans (noWorse_of_step hs h)⟩

def twoHolders : List Basket.Call :=
  [.mint Basket.plainMetrics Basket.plainStable 101 2 (10 ^ 21) 0,
   .mint Basket.plainMetrics Basket.plainStable 101 3 (10 ^ 21) 0,
   .wait (2 * Basket.monthLength)]

def freeEnv : Env where
  illiquidLoss := 0
  committedUsd18 := 0
  unwindForRedeem _ := some 0
  deleverBook _ := some 0
  take usd _ := some usd
  take_le _ _ _ h := (Option.some.inj h).ge

def redemptions : List (Env × Redemption) :=
  [(freeEnv, .redeem 2 (10 ^ 21)), (freeEnv, .spendClaim 3 (10 ^ 8))]

theorem redemptions_run_proof_half : ∃ b s, runAll Basket.State.exec Basket.plainCreated twoHolders = .ok b ∧
    runAll step ⟨b, 10 ^ 21⟩ redemptions = .ok s ∧ s.solvent = 4 * 10 ^ 20 ∧
    EveryStep step RunProof ⟨b, 10 ^ 21⟩ redemptions ∧
    EveryState step (NoWorse ⟨b, 10 ^ 21⟩) ⟨b, 10 ^ 21⟩ redemptions := by
  obtain ⟨b, hb, s, hs, hsolvent⟩ : ∃ b, runAll Basket.State.exec Basket.plainCreated twoHolders = .ok b ∧
      ∃ s, runAll step ⟨b, 10 ^ 21⟩ redemptions = .ok s ∧ s.solvent = 4 * 10 ^ 20 := by
    decide +kernel
  obtain ⟨hsteps, hstates⟩ := redemptions_run_proof _ _ _ _ twoHolders b (10 ^ 21) redemptions (by decide) hb
  exact ⟨b, s, hb, hs, hsolvent, hsteps, hstates⟩

end QuidProtocol.Redeem
