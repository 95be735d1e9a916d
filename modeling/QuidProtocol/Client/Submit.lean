import Mathlib.Tactic

/-!
`submit` of the bridge's EVM client: one nonce, sent again at higher fees.
-/

namespace QuidProtocol.Client

structure BridgeConfig where
  maxFeePerGas : ℕ
  maxPriorityFeePerGas : ℕ
  feeBumpPct : ℕ
  feeBumpAttempts : ℕ

def maxU128 : ℕ := 2 ^ 128 - 1

def satU128 (x : ℕ) : ℕ := min x maxU128

variable (cfg : BridgeConfig)

def bumpFee (fee : ℕ) : Option ℕ :=
  let ceiling := cfg.maxFeePerGas
  let minValid := satU128 (satU128 (fee + fee / 8) + 1)
  if ceiling < minValid then none
  else some (min (max (satU128 (fee * cfg.feeBumpPct) / 100) minValid) ceiling)

inductive SendResult
  | accepted
  | benign
  | fails
  deriving DecidableEq

/-- What the RPC answers in a round: to the transaction, to the look at those already sent, and while it waits. -/
structure Round where
  send : SendResult
  firstMined : Bool
  receipt : Bool

structure Fees where
  maxFee : ℕ
  prio : ℕ

structure Loop extends Fees where
  lastHash : Bool
  sendThisRound : Bool

def Loop.escalate (x : Loop) : Loop :=
  match bumpFee cfg x.maxFee with
  | some nextMax =>
    { x with
      maxFee := nextMax
      prio := ((bumpFee cfg x.prio).map (min · nextMax)).getD nextMax
      sendThisRound := true }
  | none => { x with sendThisRound := false }

/-- The fees of the transactions that the rounds hand to the node. -/
def rounds (cfg : BridgeConfig) : List Round → Loop → List Fees
  | [], _ => []
  | r :: rs, x =>
    if x.sendThisRound then
      match r.send with
      | .accepted => x.toFees ::
          if r.receipt then [] else rounds cfg rs (Loop.escalate cfg { x with lastHash := true })
      | .fails => [x.toFees]
      -- as long as none was accepted, none can have been mined, and the same one is sent again
      | .benign => x.toFees ::
          if !x.lastHash then rounds cfg rs x
          else if r.firstMined ∨ r.receipt then [] else rounds cfg rs (x.escalate cfg)
    else if !x.lastHash ∨ r.receipt then [] else rounds cfg rs (x.escalate cfg)

def submit (suggestedGasPrice : ℕ) (rs : List Round) : List Fees :=
  let maxFee := max (min suggestedGasPrice cfg.maxFeePerGas) 1
  rounds cfg (rs.take (cfg.feeBumpAttempts + 1))
    ⟨⟨maxFee, min cfg.maxPriorityFeePerGas maxFee⟩, false, true⟩

/-- Both fees rise by more than an eighth. -/
def Replaces (a b : Fees) : Prop := 9 * a.maxFee < 8 * b.maxFee ∧ 9 * a.prio < 8 * b.prio
  deriving Decidable

def Capped (a : Fees) : Prop := a.maxFee ≤ cfg.maxFeePerGas ∧ a.prio ≤ a.maxFee
  deriving Decidable

def ValidReplacements (sent : List Fees) : Prop := sent.Pairwise Replaces ∧ ∀ a ∈ sent, Capped cfg a
  deriving Decidable

/-- The node refuses the first transaction as known or underpriced, and another round follows. -/
def RefusedFirst : List Round → Prop
  | r :: _ :: _ => r.send = .benign
  | _ => False

/-- The answers of a round that end `submit`. -/
def Round.Ends (r : Round) : Prop := r.send = .fails ∨ r.receipt = true ∨ r.send = .benign ∧ r.firstMined = true
  deriving Decidable

def reached : List Round → ℕ
  | [] => 0
  | r :: rs => if r.Ends then 1 else reached rs + 1

/-- The maximum fee after `k` bumps. -/
def feeAfter (cfg : BridgeConfig) (fee : ℕ) : ℕ → ℕ
  | 0 => fee
  | k + 1 => feeAfter cfg ((bumpFee cfg fee).getD fee) k

/-- The least valid bump of the fee does not saturate, or the ceiling refuses one that does. -/
def HasRoom (fee : ℕ) : Prop := cfg.maxFeePerGas < maxU128 ∨ fee + fee / 8 + 1 ≤ maxU128
  deriving Decidable

section

variable {cfg : BridgeConfig} {fee next : ℕ} {x : Loop}

theorem bumpFee_le (h : bumpFee cfg fee = some next) : next ≤ cfg.maxFeePerGas := by
  unfold bumpFee at h
  dsimp only at h
  split_ifs at h
  cases h
  exact Nat.min_le_right ..

theorem bumpFee_replaces (h : bumpFee cfg fee = some next) : 9 * fee < 8 * next ↔ HasRoom cfg fee := by
  unfold bumpFee satU128 at h
  unfold HasRoom
  dsimp only at h
  split_ifs at h
  cases h
  omega

theorem HasRoom.mono {low} (hle : low ≤ fee) (h : HasRoom cfg fee) : HasRoom cfg low := by
  unfold HasRoom at h ⊢
  omega

theorem Loop.escalate_none (h : bumpFee cfg x.maxFee = none) : x.escalate cfg = { x with sendThisRound := false } := by
  unfold Loop.escalate
  rw [h]

theorem Loop.escalate_some (hcapped : Capped cfg x.toFees) (h : bumpFee cfg x.maxFee = some next) :
    (Replaces x.toFees (x.escalate cfg).toFees ↔ HasRoom cfg x.maxFee) ∧ Capped cfg (x.escalate cfg).toFees := by
  have hnext := bumpFee_replaces h
  have hle := bumpFee_le h
  have hprio := hcapped.2
  unfold Loop.escalate
  rw [h, ← hnext]
  cases hbump : bumpFee cfg x.prio with
  | none =>
    refine ⟨and_iff_left_of_imp ?_, hle, Nat.le_refl next⟩
    simp
    omega
  | some p =>
    refine ⟨and_iff_left_of_imp ?_, hle, Nat.min_le_right ..⟩
    intro hrises
    have hp := (bumpFee_replaces hbump).mpr ((hnext.mp hrises).mono hprio)
    dsimp only at hrises
    simp
    omega

/-- A round that finds no room for a valid bump is the last one that sends. -/
theorem rounds_capped {rs} (h : bumpFee cfg x.maxFee = none) (hidle : x.sendThisRound = false) :
    rounds cfg rs x = [] := by
  induction rs with
  | nil => rfl
  | cons r rs ih =>
    have hsame : x.escalate cfg = x := by
      rw [Loop.escalate_none h, ← hidle]
    rw [rounds, hidle, if_neg Bool.false_ne_true, hsame, ih, ite_self]

/-- What is sent after a round is valid, and replaces what was sent before. -/
def Follows (cfg : BridgeConfig) (x : Fees) (sent : List Fees) : Prop :=
  ValidReplacements cfg sent ∧ ∀ a ∈ sent, Replaces x a

theorem Follows.nil (cfg x) : Follows cfg x [] := by
  simp [Follows, ValidReplacements]

theorem valid_cons {a sent} (hcapped : Capped cfg a) : ValidReplacements cfg (a :: sent) ↔ Follows cfg a sent := by
  simp only [ValidReplacements, Follows, List.pairwise_cons, List.forall_mem_cons]
  tauto

theorem follows_cons {a b sent} (hcapped : Capped cfg b) :
    Follows cfg a (b :: sent) ↔ Replaces a b ∧ Follows cfg b sent := by
  rw [Follows, valid_cons hcapped, List.forall_mem_cons]
  refine ⟨fun h => ⟨h.2.1, h.1⟩, fun h => ⟨h.2, h.1, fun c hc => ?_⟩⟩
  obtain ⟨hreplaces, hlater⟩ := h
  have hlater := hlater.2 c hc
  unfold Replaces at hreplaces hlater ⊢
  omega

theorem rounds_follow_iff (rs : List Round) (hcapped : Capped cfg x.toFees) (hsent : x.lastHash = true) :
    Follows cfg x.toFees (rounds cfg rs (x.escalate cfg)) ↔
      ∀ k < reached rs, HasRoom cfg (feeAfter cfg x.maxFee k) := by
  induction rs generalizing x with
  | nil => simp [rounds, Follows.nil, reached]
  | cons r rs ih =>
    cases hbump : bumpFee cfg x.maxFee with
    | none =>
      have hnone : rounds cfg (r :: rs) { x with sendThisRound := false } = [] := rounds_capped hbump rfl
      rw [Loop.escalate_none hbump, hnone]
      refine iff_of_true (.nil cfg x.toFees) fun k _ => Or.inl ?_
      unfold bumpFee satU128 at hbump
      dsimp only at hbump
      split_ifs at hbump
      omega
    | some next =>
      obtain ⟨hreplaces, hcaps⟩ := Loop.escalate_some hcapped hbump
      obtain ⟨hsends, hhash, hfee⟩ : (x.escalate cfg).sendThisRound = true ∧ (x.escalate cfg).lastHash = true ∧
          (x.escalate cfg).maxFee = next := by
        simp [Loop.escalate, hbump, hsent]
      generalize x.escalate cfg = y at *
      -- a round sends, and those after it follow unless its answers end the loop
      have hrounds : rounds cfg (r :: rs) y = y.toFees :: if r.Ends then [] else rounds cfg rs (y.escalate cfg) := by
        have hsame : ({ y with lastHash := true } : Loop) = y := by rw [← hhash]
        rw [rounds, if_pos hsends, hsame, hhash]
        cases hsend : r.send <;> simp [Round.Ends, hsend]
        cases r.firstMined <;> cases r.receipt <;> rfl
      have htail : Follows cfg y.toFees (if r.Ends then [] else rounds cfg rs (y.escalate cfg)) ↔
          ∀ k < reached (r :: rs) - 1, HasRoom cfg (feeAfter cfg next k) := by
        rw [reached]
        split_ifs
        · simp [Follows.nil]
        · rw [ih hcaps hhash, hfee, Nat.add_sub_cancel]
      have hfirst : 0 < reached (r :: rs) := by
        rw [reached]
        split_ifs <;> omega
      rw [hrounds, follows_cons hcaps, hreplaces, htail, ← Nat.sub_add_cancel hfirst, Nat.forall_lt_succ_left]
      simp [feeAfter, hbump]

theorem rounds_valid_iff {a} (rs : List Round) (hcapped : Capped cfg a) :
    ValidReplacements cfg (rounds cfg rs ⟨a, false, true⟩) ↔
      ¬ RefusedFirst rs ∧ ∀ k < reached rs - 1, HasRoom cfg (feeAfter cfg a.maxFee k) := by
  have hone : ValidReplacements cfg [a] := (valid_cons hcapped).mpr (.nil cfg a)
  cases rs with
  | nil => simp [rounds, ValidReplacements, RefusedFirst, reached]
  | cons r rs =>
    rw [rounds, if_pos rfl]
    cases hsend : r.send with
    | accepted =>
      have hfirst : ¬ RefusedFirst (r :: rs) := by cases rs <;> simp [RefusedFirst, hsend]
      have hfollow := rounds_follow_iff (x := ⟨a, true, true⟩) rs hcapped rfl
      cases hreceipt : r.receipt <;> simp [hfirst, reached, Round.Ends, hsend, hreceipt, valid_cons hcapped, hfollow,
        Follows.nil]
    | fails =>
      have hfirst : ¬ RefusedFirst (r :: rs) := by cases rs <;> simp [RefusedFirst, hsend]
      simpa [hfirst, reached, Round.Ends, hsend] using hone
    | benign =>
      dsimp only
      rw [if_pos (by rfl)]
      cases rs with
      | nil => simpa [rounds, RefusedFirst, reached] using hone
      | cons r' rs =>
        -- the second round sends what the first one sent
        apply iff_of_false
        · cases hagain : r'.send <;> simp [rounds, hagain, ValidReplacements, Replaces] <;> omega
        · simp [RefusedFirst, hsend]

end

theorem replacement_fees_valid_iff (cfg : BridgeConfig) (suggestedGasPrice : ℕ) (rs : List Round)
    (hceiling : 1 ≤ cfg.maxFeePerGas) : ValidReplacements cfg (submit cfg suggestedGasPrice rs) ↔
      ¬ RefusedFirst (rs.take (cfg.feeBumpAttempts + 1)) ∧ ∀ k < reached (rs.take (cfg.feeBumpAttempts + 1)) - 1,
          HasRoom cfg (feeAfter cfg (max (min suggestedGasPrice cfg.maxFeePerGas) 1) k) := by
  apply rounds_valid_iff
  unfold Capped
  dsimp only
  omega

def ceilingAtMost (maxFeePerGas : ℕ) : BridgeConfig := ⟨maxFeePerGas, 1000000, 125, 3⟩

def acceptedFour : List Round := List.replicate 4 ⟨.accepted, false, false⟩

theorem replacement_fees_valid_accepted : (submit (ceilingAtMost maxU128) 1000 acceptedFour).map Fees.maxFee =
      [1000, 1250, 1562, 1952] ∧
    ValidReplacements (ceilingAtMost maxU128) (submit (ceilingAtMost maxU128) 1000 acceptedFour) := by
  have hfirst : ¬ RefusedFirst (acceptedFour.take 4) := show ¬ SendResult.accepted = .benign by decide
  exact ⟨by decide, (replacement_fees_valid_iff _ _ _ (by decide)).mpr ⟨hfirst, by decide⟩⟩

/-- At the top of the range a fee is sent again that was accepted, and below it one that was refused. -/
theorem same_fee_sent_again : ¬ ValidReplacements (ceilingAtMost maxU128)
      (submit (ceilingAtMost maxU128) maxU128 [⟨.accepted, false, false⟩, ⟨.accepted, false, false⟩]) ∧
    ¬ ValidReplacements (ceilingAtMost (10 ^ 9))
      (submit (ceilingAtMost (10 ^ 9)) 1000 [⟨.benign, false, false⟩, ⟨.accepted, false, false⟩]) := by
  decide

end QuidProtocol.Client
