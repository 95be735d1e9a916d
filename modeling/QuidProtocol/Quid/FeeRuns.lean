import QuidProtocol.Quid.Fees

/-!
The fees over whole runs of the ether range.
-/

namespace QuidProtocol.Quid

open Lib
open Basket (Address)
open Vault (feesDue wad)

def bookmarkOf : Call → Finset Address
  | .deposit _ receiver => {receiver}
  | .withdraw lp _ _ => {lp}
  | .syncLev lp => {lp}
  | .collectFees sender => {sender}
  | _ => ∅

def bookmarkDust (q : State) (c : Call) : ℕ := ∑ a ∈ bookmarkOf c, q.fees.dust wad a

def Accounted (q q' : State) (c : Call) : Prop :=
  ∑ a, q'.fees.liability wad a + wad * (∑ a, q'.feesPaid a + q.core.feesRetained) ≤
    ∑ a, q.fees.liability wad a + wad * (∑ a, q.feesPaid a + q'.core.feesRetained) + bookmarkDust q' c

def CountsOnce (q : State) : Env × Call → Prop
  | (env, .withdraw lp amount _) =>
    ∀ w, openWithdraw env q lp = .ok w → Closes w lp amount → w.fees.pending wad lp = 0
  | _ => True

instance decidableCountsOnce (q : State) (c : Env × Call) : Decidable (CountsOnce q c) := by
  unfold CountsOnce
  split <;> infer_instance

section

variable {env : Env} {q q' : State} {c : Call} {lp : Address} {n : ℕ}

theorem Quiet.accounted (h : Quiet q q') : Accounted q q' c := by
  unfold Accounted
  rw [h.fees, h.feesPaid, h.retained]
  exact Nat.le_add_right _ _

theorem Serviced.settled (h : Serviced q q' lp) :
    q.fees.Settled wad q'.fees {lp} (fun a => q'.feesPaid a - q.feesPaid a) where
  index := h.index
  kept a ha := by
    have hne : a ≠ lp := fun heq => ha (Finset.mem_singleton.mpr heq)
    exact ⟨h.account a hne, by rw [h.others a hne, Nat.sub_self]⟩
  pending a ha := by
    obtain rfl := Finset.mem_singleton.mp ha
    exact h.booked
  owed a ha := by
    obtain rfl := Finset.mem_singleton.mp ha
    have hmost := h.most
    have hpaid := h.paid
    refine le_trans (Nat.mul_le_mul_left wad ?_) ((q.fees.account a).due_mul_le wad q.fees.index)
    have hle : (q'.autoManaged a).usdOwed + q'.feesPaid a ≤ q.fees.due wad a + q.feesPaid a := hmost
    have howed : (q'.fees.account a).owed = (q'.autoManaged a).usdOwed := rfl
    unfold FeeIndex.due at hle
    omega

theorem Touches.feesPaid_le (h : Touches q q' lp) (a : Address) : q.feesPaid a ≤ q'.feesPaid a := by
  by_cases ha : a = lp
  · rw [ha]
    exact h.paid
  · exact (h.others a ha).ge

theorem Serviced.accounted (hc : bookmarkOf c = {lp}) (h : Serviced q q' lp) : Accounted q q' c := by
  have hle := h.settled.liability_le
  have hsum : ∑ a, q'.feesPaid a = ∑ a, q.feesPaid a + ∑ a, (q'.feesPaid a - q.feesPaid a) := by
    rw [← Finset.sum_add_distrib]
    exact Finset.sum_congr rfl fun a _ => (Nat.add_sub_cancel' (h.feesPaid_le a)).symm
  unfold Accounted bookmarkDust
  rw [hc, hsum, h.retained, Nat.mul_add, Nat.mul_add, Nat.mul_add]
  omega

theorem Retires.accounted (h : Retires q q' lp n) : Accounted q q' c := by
  have hkeeps := Keeps.retires h
  obtain ⟨x, hx, rfl⟩ := h.eq
  have hone : ∀ a, (q.retired lp n x).fees.liability wad a ≤ q.fees.liability wad a := by
    intro a
    by_cases ha : a = lp
    · subst ha
      have hweight : (q.autoManaged a).pooled - n + q.levBuf a ≤ (q.autoManaged a).pooled + q.levBuf a := by omega
      have hmul := Nat.mul_le_mul_right q.usdFees hweight
      simp only [FeeIndex.liability, FeeAccount.liability, Vault.State.fees, State.retired, State.setDeposit,
        Vault.State.setDeposit, Function.update_self]
      omega
    · unfold FeeIndex.liability
      rw [hkeeps.account a ha]
      exact le_rfl
  have hsum := Finset.sum_le_sum fun a (_ : a ∈ Finset.univ) => hone a
  have hpaid : (q.retired lp n x).feesPaid = q.feesPaid := rfl
  unfold Accounted
  rw [hpaid, hkeeps.retained]
  omega

theorem Credits.accounted {v} (hbalanced : Balanced q) (h : Vault.Credits q.toState v n) :
    Accounted q { q with toState := v } c := by
  obtain ⟨b, hb⟩ := hbalanced
  have hle := h.credited.liability_le (Vault.Balanced.weights_le ⟨b, hb.book⟩)
  unfold Accounted
  dsimp only
  rw [h.retained, Nat.mul_add, Nat.mul_add, Nat.mul_add]
  omega

theorem exec_accounted (hbalanced : Balanced q) (honce : CountsOnce q (env, c)) (hok : exec env q c = .ok q') :
    Accounted q q' c := by
  obtain ⟨b, hb⟩ := hbalanced
  cases c with
  | recordFee =>
    obtain ⟨v, hv, rfl⟩ := recordFee_eq hok
    exact Credits.accounted ⟨b, hb⟩ (Vault.Credits.recordFee hv)
  | deposit =>
    obtain ⟨-, hquiet⟩ | ⟨-, hserviced, -⟩ := deposit_serviced hok
    · exact hquiet.accounted
    · exact hserviced.accounted rfl
  | withdraw =>
    obtain ⟨w, hw, hserviced, -⟩ := withdraw_serviced hb hok
    exact (hserviced (honce w hw)).accounted rfl
  | syncLev =>
    obtain ⟨-, rfl⟩ | ⟨-, hserviced, -⟩ := reconcileLev_serviced hb hok
    · exact Quiet.accounted ⟨rfl, rfl, rfl, rfl, rfl⟩
    · exact hserviced.accounted rfl
  | fillIntent =>
    obtain ⟨n, used, -, hretires, -⟩ := fillIntent_retires hok
    exact Retires.accounted (q := { q with intentUsed := used }) hretires
  | transferShares =>
    obtain ⟨-, rfl⟩ := transferShares_eq hok
    exact Quiet.accounted ⟨rfl, rfl, rfl, rfl, rfl⟩
  | collectFees => exact (collectFees_serviced hok).1.accounted rfl
  | reseat => exact (rebalance_quiet hok).accounted
  | unwindForRedeem =>
    obtain ⟨x, y, hretained, rfl⟩ := unwindForRedeem_eq hok
    exact Quiet.accounted ⟨rfl, rfl, rfl, rfl, hretained⟩
  | swapTo =>
    obtain ⟨px, v, usd, native, u, hre, hfee, x, hretained, rfl⟩ := swapTo_eq hok
    exact Credits.accounted ⟨b, hb⟩ (Vault.Credits.within hre hfee hretained)
  | setLevManager =>
    obtain rfl := setLevManager_eq hok
    exact Quiet.accounted ⟨rfl, rfl, rfl, rfl, rfl⟩

end

structure FeeRun where
  range : State
  dust : ℕ

namespace FeeRun

def start (priceWad : ℕ) : FeeRun := ⟨deployed priceWad, 0⟩

def step (s : FeeRun) (c : Env × Call) : Res FeeRun := do
  let range ← Quid.step s.range c
  .ok ⟨range, s.dust + bookmarkDust range c.2⟩

def Covered (s : FeeRun) : Prop := ∑ a, s.range.feesPaid a + ∑ a, feesDue s.range.toState a ≤ s.range.core.feesRetained

structure Sound (s : FeeRun) : Prop where
  balanced : Balanced s.range
  covered : ∑ a, s.range.fees.liability wad a + wad * ∑ a, s.range.feesPaid a ≤ wad * s.range.core.feesRetained + s.dust

theorem sound_start (priceWad : ℕ) : (start priceWad).Sound where
  balanced := balanced_deployed priceWad
  covered := by
    have hzero : ∀ a, (deployed priceWad).fees.liability wad a = 0 := by
      intro a
      simp [FeeIndex.liability, FeeAccount.liability, Vault.State.fees, deployed, Vault.deployed]
    have hpaid : ∀ a, (deployed priceWad).feesPaid a = 0 := fun a => rfl
    simp [start, hzero, hpaid]

theorem Sound.step {s s' : FeeRun} {c : Env × Call} (h : s.Sound) (honce : CountsOnce s.range c)
    (hok : s.step c = .ok s') : s'.Sound := by
  obtain ⟨env, call⟩ := c
  obtain ⟨range, hrange, hok⟩ := of_bind hok
  cases hok
  have hcall := exec_accounted h.balanced honce hrange
  have hcovered := h.covered
  refine ⟨h.balanced.step hrange, ?_⟩
  unfold Accounted at hcall
  dsimp only
  rw [Nat.mul_add, Nat.mul_add] at hcall
  omega

theorem Sound.due_le {s : FeeRun} (h : s.Sound) : wad * (∑ a, s.range.feesPaid a + ∑ a, feesDue s.range.toState a) ≤
      wad * s.range.core.feesRetained + s.dust :=
  FeeIndex.due_le_of_liability_le h.covered

/-- The fees exceed the premiums by no more than the bookmarks were rounded down. -/
theorem range_fees_covered (priceWad : ℕ) (cs : List (Env × Call))
    (honce : EveryStep step (fun s c => CountsOnce s.range c) (start priceWad) cs) : EveryState step (fun s =>
      wad * (∑ a, s.range.feesPaid a + ∑ a, feesDue s.range.toState a) ≤
        wad * s.range.core.feesRetained + s.dust ∧ (s.dust < wad → s.Covered)) (start priceWad) cs := by
  refine everyState_of_invariant ?_ ?_ (sound_start priceWad) honce
  · intro s hs
    exact ⟨hs.due_le, FeeIndex.le_of_mul_le_add_dust hs.due_le⟩
  · intro s c s' hs hcall hok
    exact hs.step hcall hok

def collectedRun : List (Env × Call) :=
  let lp := 5
  [(quietEnv, .deposit (10 ^ 18) lp), (quietEnv, .setLevManager 9), (leveredEnv, .syncLev lp),
   (leveredEnv, .recordFee (10 ^ 8) 0),
   (leveredEnv, .collectFees lp),
   (closingEnv, .withdraw lp (2 * 10 ^ 18) lp)]

theorem range_fees_covered_collectedRun :
    (∃ s, runAll step (start (2 * 10 ^ 21)) collectedRun = .ok s ∧ s.range.feesPaid 5 = 10 ^ 8) ∧
      EveryStep step (fun s c => CountsOnce s.range c) (start (2 * 10 ^ 21)) collectedRun ∧ EveryState step (fun s =>
        wad * (∑ a, s.range.feesPaid a + ∑ a, feesDue s.range.toState a) ≤
          wad * s.range.core.feesRetained + s.dust ∧ (s.dust < wad → s.Covered))
        (start (2 * 10 ^ 21)) collectedRun := by
  have honce : EveryStep step (fun s c => CountsOnce s.range c) (start (2 * 10 ^ 21)) collectedRun := by decide +kernel
  exact ⟨by decide +kernel, honce, range_fees_covered _ _ honce⟩

def settledTwiceRun : List (Env × Call) :=
  let lp := 5
  [(quietEnv, .deposit (10 ^ 18) lp), (quietEnv, .setLevManager 9), (leveredEnv, .syncLev lp),
   (leveredEnv, .recordFee (10 ^ 8) 0),
   (closingEnv, .withdraw lp (2 * 10 ^ 18) lp)]

theorem range_fees_exceed : ∃ s, runAll step (start (2 * 10 ^ 21)) settledTwiceRun = .ok s ∧ s.dust = 0 ∧
    s.range.core.feesRetained = 10 ^ 8 ∧ 2 * 10 ^ 8 ≤ ∑ a, s.range.feesPaid a := by
  refine exists_ok (fun s => s.dust = 0 ∧ s.range.core.feesRetained = 10 ^ 8 ∧
    s.range.feesPaid 5 = 2 * 10 ^ 8) (by decide +kernel) ?_
  rintro s - ⟨hdust, hretained, hpaid⟩
  have hone : s.range.feesPaid 5 ≤ ∑ a, s.range.feesPaid a :=
    Finset.single_le_sum (fun _ _ => Nat.zero_le _) (Finset.mem_univ _)
  exact ⟨hdust, hretained, hpaid ▸ hone⟩

end FeeRun

/-- What the account loses of its pending fees with `n` of its shares. -/
def soldFees (q : State) (lp : Address) (n : ℕ) : ℕ :=
  q.fees.pending wad lp -
    FeeAccount.pending wad q.usdFees { q.fees.account lp with weight := (q.fees.account lp).weight - n }

/-- The fees that a call makes an account forgo: those pending that a settlement passes over, all that a record holds
when a sync takes its last shares, and those pending on shares sold. -/
def forgone (env : Env) (q : State) : Call → ℕ
  | .deposit assets receiver => if depositETH env assets = .ok 0 then 0 else passedOver q receiver
  | .withdraw lp amount _ =>
    match openWithdraw env q lp with
    | .ok w => if ClosesWithShares env w lp amount then passedOver q lp else feesDue q.toState lp
    | .error _ => 0
  | .syncLev lp =>
    if Vault.levSyncState env.toEnv q.toState lp = .ok true then 0
    else if ((syncRange env q lp).autoManaged lp).pooled = 0 then feesDue q.toState lp
    else passedOver q lp
  | .fillIntent i routes =>
    if i.buyVolatile = false ∧ 0 < i.size then
      match etherSold env q i i.size routes with
      | .ok (_, sold) => soldFees q i.owner sold
      | .error _ => 0
    else 0
  | _ => 0

structure Loses (q q' : State) (f : ℕ) : Prop where
  paid : ∀ a, q.feesPaid a ≤ q'.feesPaid a
  least : ∀ k, (∀ a, earned q a ≤ earned q' a + k) ↔ f ≤ k

section

variable {env : Env} {q q' : State} {c : Call} {lp : Address} {n : ℕ}

theorem Touches.loses (h : Touches q q' lp) (hlp : earned q lp - earned q' lp = n) : Loses q q' n := by
  refine ⟨h.feesPaid_le, fun k => ⟨?_, ?_⟩⟩
  · intro hall
    have hone := hall lp
    omega
  · intro hle a
    by_cases ha : a = lp
    · rw [ha]
      omega
    · have howed : (q'.autoManaged a).usdOwed = (q.autoManaged a).usdOwed :=
        congrArg FeeAccount.owed (h.account a ha)
      rw [earned_eq, earned_eq, banked, banked, howed, h.others a ha, h.pending a ha]
      exact Nat.le_add_right _ _

theorem Serviced.loses (h : Serviced q q' lp) (hlp : earned q lp - banked q' lp = n) : Loses q q' n :=
  h.toTouches.loses (by rwa [earned_of_booked h.booked])

theorem Loses.none (hpaid : q'.feesPaid = q.feesPaid) (h : ∀ a, earned q a ≤ earned q' a) : Loses q q' 0 :=
  ⟨fun a => (congrFun hpaid a).ge, fun k => iff_of_true (fun a => (h a).trans (Nat.le_add_right _ _)) (Nat.zero_le k)⟩

theorem Quiet.loses (h : Quiet q q') : Loses q q' 0 := Loses.none h.feesPaid fun _ => h.earned.ge

theorem earned_le_of_index {v} (haccount : v.fees.account = q.fees.account)
    (hindex : q.usdFees ≤ v.usdFees) (a : Address) : earned q a ≤ earned { q with toState := v } a := by
  have hpending : q.fees.pending wad a ≤ v.fees.pending wad a := by
    unfold FeeIndex.pending
    rw [haccount]
    exact FeeAccount.pending_mono _ _ hindex
  have howed : (v.autoManaged a).usdOwed = (q.autoManaged a).usdOwed :=
    congrArg (fun account => (account a).owed) haccount
  rw [earned_eq, earned_eq, banked, banked]
  dsimp only
  rw [howed]
  exact Nat.add_le_add_left hpending _

theorem Retires.loses (h : Retires q q' lp n) : Loses q q' (soldFees q lp n) := by
  have hkeeps := Keeps.retires h
  apply hkeeps.toTouches.loses
  have hpending : q'.fees.pending wad lp =
      FeeAccount.pending wad q.usdFees { q.fees.account lp with weight := (q.fees.account lp).weight - n } := by
    have hle := h.pooled
    obtain ⟨x, -, rfl⟩ := h.eq
    have hweight : (q.autoManaged lp).pooled - n + q.levBuf lp = (q.autoManaged lp).pooled + q.levBuf lp - n := by omega
    simp [FeeIndex.pending, FeeAccount.pending, Vault.State.fees, State.retired, State.setDeposit,
      Vault.State.setDeposit, hweight]
  rw [earned_eq, earned_eq, hkeeps.banked, Nat.add_sub_add_left, hpending, soldFees]

theorem fillIntent_loses {i routes} (hok : fillIntent env q i routes = .ok q') :
    Loses q q' (forgone env q (.fillIntent i routes)) := by
  obtain ⟨n, used, -, hretires, hsold⟩ := fillIntent_retires hok
  have hloses : Loses q q' (soldFees q i.owner n) := by
    obtain ⟨hpaid, hleast⟩ := Retires.loses hretires
    exact ⟨hpaid, hleast⟩
  rw [forgone]
  split_ifs at hsold ⊢ with hsell
  · obtain ⟨p, hp⟩ := hsold
    rwa [hp]
  · have hnone : soldFees q i.owner 0 = 0 := Nat.sub_self _
    rwa [hsold, hnone] at hloses

theorem exec_loses (hbalanced : Balanced q) (hok : exec env q c = .ok q') : Loses q q' (forgone env q c) := by
  obtain ⟨b, hb⟩ := hbalanced
  cases c with
  | recordFee =>
    obtain ⟨v, hv, rfl⟩ := recordFee_eq hok
    exact Loses.none rfl
      (earned_le_of_index (Vault.Credits.recordFee hv).credited.account (Vault.recordFee_usdFees_le hv))
  | deposit =>
    rw [forgone]
    obtain ⟨hnothing, hquiet⟩ | ⟨hplaced, hserviced, hlost⟩ := deposit_serviced hok
    · rw [if_pos hnothing]
      exact hquiet.loses
    · rw [if_neg hplaced]
      exact hserviced.loses hlost
  | withdraw =>
    obtain ⟨w, hw, -, htouches, hbooked, hlost⟩ := withdraw_serviced hb hok
    rw [forgone, hw]
    exact htouches.loses (by rwa [earned_of_booked hbooked])
  | syncLev =>
    have hsync : syncRange env q _ = q' := congrArg (fun x : Res State => x.toOption.getD q) hok
    rw [forgone, hsync]
    obtain ⟨hin, rfl⟩ | ⟨hout, hserviced, -, hlost⟩ := reconcileLev_serviced hb hok
    · rw [if_pos hin]
      exact Loses.none rfl fun _ => le_rfl
    · rw [if_neg (by simp [hout])]
      exact hserviced.loses hlost
  | fillIntent => exact fillIntent_loses hok
  | transferShares =>
    obtain ⟨-, rfl⟩ := transferShares_eq hok
    exact Loses.none rfl fun _ => le_rfl
  | collectFees =>
    obtain ⟨hserviced, hlost⟩ := collectFees_serviced hok
    exact hserviced.loses hlost
  | reseat => exact (rebalance_quiet hok).loses
  | unwindForRedeem =>
    obtain ⟨x, y, hretained, rfl⟩ := unwindForRedeem_eq hok
    exact Quiet.loses ⟨rfl, rfl, rfl, rfl, hretained⟩
  | swapTo =>
    obtain ⟨px, v, usd, native, u, hre, hfee, x, hretained, rfl⟩ := swapTo_eq hok
    have hindex := Vault.recordFee_usdFees_le hfee
    have hcredits := Vault.Credits.within hre hfee hretained
    obtain ⟨-, y, z, rfl⟩ := Vault.rebalance_eq hre
    exact Loses.none rfl (earned_le_of_index hcredits.credited.account hindex)
  | setLevManager =>
    obtain rfl := setLevManager_eq hok
    exact Quiet.loses ⟨rfl, rfl, rfl, rfl, rfl⟩

end

def pendingRun : List (Env × Call) :=
  [(quietEnv, .deposit (10 ^ 18) 5), (quietEnv, .recordFee (10 ^ 8) 0)]

def sellHalf : OorIntent := ⟨5, false, 10 ^ 9, 2 * 10 ^ 21, 1, 0, false, 3⟩

/-- What a transfer of shares is to do. -/
structure MovesShares (q q' : State) (source dest : Address) (amount : ℕ) : Prop where
  taken : (q'.autoManaged source).pooled + amount = (q.autoManaged source).pooled
  given : (q'.autoManaged dest).pooled = (q.autoManaged dest).pooled + amount
  shares : q'.lpShares = q.lpShares
  fees : ∀ a, a = source ∨ a = dest →
    feesDue q'.toState a ≤ feesDue q.toState a + 1 ∧ feesDue q.toState a ≤ feesDue q'.toState a + 1

theorem transfer_works_iff (env : Env) (q : State) (source dest : Address) (amount : ℕ) (hdest : dest ≠ 0)
    (hne : source ≠ dest) :
    (∃ q', transferShares env q source dest amount = .ok q' ∧ MovesShares q q' source dest amount) ↔ amount = 0 := by
  constructor
  · rintro ⟨q', hok, -⟩
    exact (transferShares_eq hok).1
  · rintro rfl
    refine ⟨q, ?_, rfl, rfl, rfl, fun a _ => ⟨Nat.le_succ _, Nat.le_succ _⟩⟩
    simp [transferShares, rebalanceFor, transferSharesBody, require_of, hdest, hne]

theorem transfer_works_nothing : ∃ q', transferShares quietEnv (deployed (2 * 10 ^ 21)) 5
    6 0 = .ok q' ∧ MovesShares (deployed (2 * 10 ^ 21)) q' 5 6 0 :=
  (transfer_works_iff _ _ _ _ _ (by decide) (by decide)).mpr rfl

theorem transfer_reverts : ∃ q, runAll step (deployed (2 * 10 ^ 21)) pendingRun = .ok q ∧
    Vault.rangeOf q.toState 5 = 10 ^ 18 ∧ transferShares laterEnv q 5 6 (10 ^ 17) = .error .badReturn := by
  decide +kernel

end QuidProtocol.Quid
