import QuidProtocol.Basket.Types

/-!
`Aux.take` with `BasketLib` and `FeeLib`: the stable asked for first, then all others in proportion.
-/

namespace QuidProtocol.Reserve

open Lib
open Basket (Address)

inductive Err
  | panic
  | fullMulDivFailed
  | unknownStable
  | nothingDelivered
  | amountTooSmall
  | overCommitted
  | withdrawFailed

abbrev Res := Except Err

def wad : ℕ := 10 ^ 18

def add (a b : ℕ) : Res ℕ := checkedAdd .panic 256 a b

def mul (a b : ℕ) : Res ℕ := checkedMul .panic 256 a b

def fullMulDiv (a b d : ℕ) : Res ℕ := do
  require .fullMulDivFailed (d ≠ 0 ∧ a * b / d < 2 ^ 256)
  .ok (a * b / d)

structure Shelf where
  weth : Address
  quid : Address
  stables : List Address
  toIndex : Address → ℕ
  decimals : Address → ℕ
  depegSeverityBps : Address → ℕ
  amounts : ℕ → ℕ
  withdrawSelf : Address → ℕ → Address → Option ℕ
  backed : Bool

structure Tranches where
  tranche : Address → ℕ
  trancheTotal : ℕ

structure Transfer where
  token : Address
  amount : ℕ

variable (r : Shelf)

def calcRisk (token : Address) : ℕ := if token = 0 then 0 else min (r.depegSeverityBps token) 10000

def grossUpForDepeg (amount sev : ℕ) : Res ℕ :=
  if 0 < sev ∧ sev < 10000 then fullMulDiv amount 10000 (10000 - sev) else .ok amount

def calcNeeded (token : Address) (amount : ℕ) : Res ℕ := grossUpForDepeg amount (calcRisk r token)

def allocate (token : Address) (totalAmount slotDep totalDep : ℕ) : Res ℕ :=
  if totalDep = 0 ∨ slotDep = 0 then .ok 0
  else do
    let slice ← fullMulDiv wad slotDep totalDep
    let amount ← fullMulDiv totalAmount slice wad
    if amount = 0 then .ok 0 else grossUpForDepeg amount (calcRisk r token)

def scaleTokenAmount (amount : ℕ) (token : Address) (scaleUp : Bool) : Res ℕ :=
  let d := r.decimals token
  if d < 18 then
    if scaleUp then mul amount (10 ^ (18 - d)) else .ok (amount / 10 ^ (18 - d))
  else .ok amount

def parUsd18 (t : Transfer) : ℕ := t.amount * 10 ^ (18 - r.decimals t.token)

def valueUsd18 (ts : List Transfer) : ℕ := (ts.map (parUsd18 r)).sum

def tipBody (t : Tranches) (cut : ℕ) (token : Address) (raises : Bool) : Res Tranches := do
  let cut ← scaleTokenAmount r cut token true
  if raises then do
    let one ← add (t.tranche token) cut
    let total ← add t.trancheTotal cut
    .ok ⟨Function.update t.tranche token one, total⟩
  else
    let cut := min cut (t.tranche token)
    .ok ⟨Function.update t.tranche token (t.tranche token - cut), t.trancheTotal - min t.trancheTotal cut⟩

structure TakeArgs where
  who : Address
  amount : ℕ
  token : Address
  seed : ℕ
  softBacking : Bool

structure Taken where
  sent : ℕ
  left : ℕ
  tranches : Tranches
  transfers : List Transfer

def takePreferred (t : Tranches) (who token : Address) (amount seed : ℕ) : Res (Taken × Bool) := do
  let needed ← calcNeeded r token amount
  if 0 < seed then do
    let t ← tipBody r t seed token false
    let sent ← found .withdrawFailed (r.withdrawSelf token needed who)
    require .overCommitted r.backed
    .ok (⟨sent, 0, t, [⟨token, sent⟩]⟩, true)
  else do
    let got := (r.withdrawSelf token needed who).getD 0
    let sent ← scaleTokenAmount r got token true
    let left ← scaleTokenAmount r (needed - got) token true
    .ok (⟨sent, left, t, [⟨token, got⟩]⟩, false)

structure ProRata where
  sent : ℕ
  subUnit : Bool
  tranches : Tranches
  transfers : List Transfer

def tipShare (p : ProRata) (token : Address) (share amount seed : ℕ) : Res ProRata :=
  if 0 < seed then do
    let cut ← fullMulDiv share seed amount
    let tranches ← tipBody r p.tranches cut token false
    .ok { p with tranches }
  else .ok p

def payShare (p : ProRata) (who token : Address) (share : ℕ) : Res ProRata :=
  let d := r.decimals token
  if share = 0 ∨ d = 0 ∨ 18 < d then .ok p
  else
    let divisor := 10 ^ (18 - d)
    if share / divisor = 0 then .ok { p with subUnit := true }
    else
      match r.withdrawSelf token (share / divisor) who with
      | none => .ok p
      | some w => do
        let value ← mul w divisor
        let sent ← add p.sent value
        .ok { p with sent, transfers := p.transfers ++ [⟨token, w⟩] }

def takeLeg (who : Address) (amount seed : ℕ) (skip : Address) (i : ℕ) (token : Address) (p : ProRata) : Res ProRata :=
  if token = skip then .ok p
  else do
    let share ← allocate r token amount (r.amounts i) (r.amounts 15)
    let subUnit : Bool := p.subUnit ∨ (r.amounts i ≠ 0 ∧ share = 0)
    let p ← tipShare r { p with subUnit } token share amount seed
    payShare r p who token share

def takeProRata (who : Address) (amount seed : ℕ) (skip : Address) : ℕ → List Address → ProRata → Res ProRata
  | _, [], p => .ok p
  | i, token :: rest, p => do
    let p ← takeLeg r who amount seed skip i token p
    takeProRata who amount seed skip (i + 1) rest p

def finalBacking (soft : Bool) : Res Unit := if soft then .ok () else require .overCommitted r.backed

def takeRest (a : TakeArgs) (skip : Address) (x : Taken) : Res Taken :=
  if r.amounts 15 = 0 ∨ x.left = 0 then do
    finalBacking r a.softBacking
    .ok x
  else do
    let amount := if a.seed = 0 then min (r.amounts 15) x.left else x.left
    let p ← takeProRata r a.who amount a.seed skip 1 r.stables ⟨0, false, x.tranches, x.transfers⟩
    let sent ← add x.sent p.sent
    require .amountTooSmall (¬ (sent = 0 ∧ p.subUnit))
    finalBacking r a.softBacking
    .ok ⟨sent, amount, p.tranches, p.transfers⟩

def takeCore (t : Tranches) (a : TakeArgs) : Res Taken :=
  if a.token = r.quid ∨ a.token = 0 then takeRest r a 0 ⟨0, a.amount, t, []⟩
  else do
    require .unknownStable (0 < r.toIndex a.token ∧ r.toIndex a.token ≤ r.stables.length)
    let (x, done) ← takePreferred r t a.who a.token a.amount a.seed
    if done then .ok x else takeRest r a a.token x

def takeBody (t : Tranches) (a : TakeArgs) : Res Taken :=
  if a.token = r.weth then do
    let sent ← found .withdrawFailed (r.withdrawSelf r.weth a.amount a.who)
    require .overCommitted r.backed
    .ok ⟨sent, 0, t, [⟨r.weth, sent⟩]⟩
  else do
    let x ← takeCore r t a
    require .nothingDelivered (¬ (0 < x.left ∧ x.sent = 0))
    .ok x

/-! Without seed to burn, a `take` transfers what the vaults hand out: first that of the stable asked for, grossed up for
its depeg, then those of the others, in proportion to what they hold. -/

def Shelf.grossed (token : Address) (n : ℕ) : ℕ :=
  if 0 < calcRisk r token ∧ calcRisk r token < 10000 then n * 10000 / (10000 - calcRisk r token) else n

def Shelf.hands (who token : Address) (n : ℕ) : Transfer := ⟨token, (r.withdrawSelf token n who).getD 0⟩

def Shelf.share (token : Address) (amount i : ℕ) : ℕ :=
  if r.amounts 15 = 0 ∨ r.amounts i = 0 then 0
  else r.grossed token (amount * (wad * r.amounts i / r.amounts 15) / wad)

def Shelf.paysShare (who skip : Address) (amount i : ℕ) (token : Address) : ℕ :=
  let units := r.share token amount i / 10 ^ (18 - r.decimals token)
  if token = skip ∨ r.decimals token = 0 ∨ 18 < r.decimals token ∨ units = 0 then 0
  else parUsd18 r (r.hands who token units)

def Shelf.paysShares (who skip : Address) (amount : ℕ) : ℕ → List Address → ℕ
  | _, [] => 0
  | i, token :: rest => r.paysShare who skip amount i token + paysShares who skip amount (i + 1) rest

def Shelf.paysRest (who skip : Address) (left : ℕ) : ℕ :=
  if r.amounts 15 = 0 ∨ left = 0 then 0 else r.paysShares who skip (min (r.amounts 15) left) 1 r.stables

def Shelf.pays (who token : Address) (n : ℕ) : ℕ :=
  if token = r.quid ∨ token = 0 then r.paysRest who 0 n
  else
    let first := r.hands who token (r.grossed token n)
    parUsd18 r first + r.paysRest who token (parUsd18 r ⟨token, r.grossed token n - first.amount⟩)

theorem Shelf.pays_backed (b : Bool) (who token : Address) (n : ℕ) :
    ({ r with backed := b } : Shelf).pays who token n = r.pays who token n := by
  have hshares (skip amount i stables) : ({ r with backed := b } : Shelf).paysShares who skip amount i stables =
      r.paysShares who skip amount i stables := by
    induction stables generalizing i with
    | nil => rfl
    | cons token rest ih => exact congrArg (r.paysShare who skip amount i token + ·) (ih _)
  simp only [Shelf.pays, Shelf.paysRest, hshares]
  rfl

section

variable {r} {t : Tranches} {a : TakeArgs} {x x' : Taken} {p p' : ProRata} {who token skip : Address}
variable {amount i n m : ℕ}

theorem add_eq_ok {a b c} : add a b = .ok c ↔ a + b < 2 ^ 256 ∧ a + b = c := checkedAdd_eq_ok

theorem mul_eq_ok {a b c} : mul a b = .ok c ↔ a * b < 2 ^ 256 ∧ a * b = c := checkedMul_eq_ok

theorem fullMulDiv_eq {a b d} (h : fullMulDiv a b d = .ok n) : n = a * b / d := (Except.ok.inj (of_require h).2).symm

@[simp] theorem valueUsd18_append (ts us : List Transfer) :
    valueUsd18 r (ts ++ us) = valueUsd18 r ts + valueUsd18 r us := by
  simp [valueUsd18]

@[simp] theorem valueUsd18_singleton (y : Transfer) : valueUsd18 r [y] = parUsd18 r y := by simp [valueUsd18]

theorem scaleUp_eq (h : scaleTokenAmount r n token true = .ok m) : m = parUsd18 r ⟨token, n⟩ := by
  unfold scaleTokenAmount at h
  unfold parUsd18
  simp only [if_true] at h
  split_ifs at h with hd
  · exact (mul_eq_ok.mp h).2.symm
  · rw [← Except.ok.inj h, Nat.sub_eq_zero_of_le (not_lt.mp hd), pow_zero, Nat.mul_one]

theorem grossUpForDepeg_eq (h : grossUpForDepeg n (calcRisk r token) = .ok m) : m = r.grossed token n := by
  unfold grossUpForDepeg at h
  unfold Shelf.grossed
  split_ifs at h ⊢
  · exact fullMulDiv_eq h
  · exact ok_inj h

theorem allocate_eq (h : allocate r token amount (r.amounts i) (r.amounts 15) = .ok n) : n = r.share token amount i := by
  unfold allocate at h
  unfold Shelf.share
  split_ifs at h ⊢
  · exact ok_inj h
  · obtain ⟨slice, hslice, part, hpart, h⟩ := of_bind₂ h
    rw [← fullMulDiv_eq hslice, ← fullMulDiv_eq hpart]
    split_ifs at h with hzero
    · rw [hzero, ← Except.ok.inj h]
      simp [Shelf.grossed]
    · exact grossUpForDepeg_eq h

theorem takePreferred_eq {done} (h : takePreferred r t who token amount 0 = .ok (x, done)) :
    let first := r.hands who token (r.grossed token amount)
    x = ⟨parUsd18 r first, parUsd18 r ⟨token, r.grossed token amount - first.amount⟩, t, [first]⟩ ∧ done = false := by
  obtain ⟨needed, hneeded, h⟩ := of_bind h
  obtain rfl := grossUpForDepeg_eq hneeded
  rw [if_neg (lt_irrefl 0)] at h
  obtain ⟨sent, hsent, left, hleft, h⟩ := of_bind₂ h
  cases h
  rw [scaleUp_eq hsent, scaleUp_eq hleft]
  exact ⟨rfl, rfl⟩

def ProRata.Adds (r : Shelf) (p p' : ProRata) (n : ℕ) : Prop :=
  p'.sent = p.sent + n ∧ valueUsd18 r p'.transfers = valueUsd18 r p.transfers + n

theorem takeLeg_adds (h : takeLeg r who amount 0 skip i token p = .ok p') :
    p.Adds r p' (r.paysShare who skip amount i token) := by
  unfold takeLeg at h
  unfold Shelf.paysShare
  dsimp only
  by_cases hskip : token = skip
  · rw [if_pos hskip] at h
    rw [if_pos (.inl hskip), ← Except.ok.inj h]
    exact ⟨rfl, rfl⟩
  rw [if_neg hskip] at h
  obtain ⟨share, hshare, q, hq, h⟩ := of_bind₂ h
  obtain rfl := allocate_eq hshare
  rw [tipShare, if_neg (lt_irrefl 0)] at hq
  cases hq
  unfold payShare at h
  dsimp only at h
  generalize r.share token amount i = share at h ⊢
  split_ifs at h with hnone hsub
  · rw [← Except.ok.inj h, if_pos (by
      rcases hnone with rfl | hnone
      · exact .inr (.inr (.inr (Nat.zero_div _)))
      · exact .inr (hnone.imp_right .inl))]
    exact ⟨rfl, rfl⟩
  · rw [← Except.ok.inj h, if_pos (.inr (.inr (.inr hsub)))]
    exact ⟨rfl, rfl⟩
  · rw [if_neg (by tauto)]
    unfold Shelf.hands
    cases hw : r.withdrawSelf token (share / 10 ^ (18 - r.decimals token)) who with
    | none =>
      simp only [hw] at h
      rw [← Except.ok.inj h]
      simp [ProRata.Adds, parUsd18]
    | some w =>
      simp only [hw] at h
      obtain ⟨value, hvalue, sent, hsent, h⟩ := of_bind₂ h
      obtain ⟨-, rfl⟩ := mul_eq_ok.mp hvalue
      obtain ⟨-, rfl⟩ := add_eq_ok.mp hsent
      cases h
      simp [ProRata.Adds, parUsd18]

theorem takeProRata_adds {stables} (h : takeProRata r who amount 0 skip i stables p = .ok p') :
    p.Adds r p' (r.paysShares who skip amount i stables) := by
  induction stables generalizing i p with
  | nil =>
    cases h
    exact ⟨rfl, rfl⟩
  | cons token rest ih =>
    obtain ⟨q, hq, h⟩ := of_bind h
    obtain ⟨hsent, hvalue⟩ := takeLeg_adds hq
    obtain ⟨hsent', hvalue'⟩ := ih h
    rw [hsent, Nat.add_assoc] at hsent'
    rw [hvalue, Nat.add_assoc] at hvalue'
    exact ⟨hsent', hvalue'⟩

theorem takeRest_pays (hseed : a.seed = 0) (hx : x.sent = n ∧ valueUsd18 r x.transfers = n)
    (h : takeRest r a skip x = .ok x') :
    x'.sent = n + r.paysRest a.who skip x.left ∧ valueUsd18 r x'.transfers = n + r.paysRest a.who skip x.left := by
  unfold takeRest at h
  unfold Shelf.paysRest
  split_ifs at h ⊢
  · obtain ⟨u, -, h⟩ := of_bind h
    cases h
    exact hx
  · obtain ⟨p, hp, sent, hsent, h⟩ := of_bind₂ h
    obtain ⟨-, u', -, h⟩ := of_require_bind h
    rw [hseed] at hp
    obtain ⟨hsum, hvalue⟩ := takeProRata_adds hp
    obtain ⟨-, rfl⟩ := add_eq_ok.mp hsent
    cases h
    rw [Nat.zero_add] at hsum
    exact ⟨by rw [hx.1, hsum], by rw [hvalue, hx.2]⟩

/-- What a `take` returns, and what it transfers at par. -/
theorem takeBody_pays (hseed : a.seed = 0) (hweth : a.token ≠ r.weth) (h : takeBody r t a = .ok x) :
    x.sent = r.pays a.who a.token a.amount ∧ valueUsd18 r x.transfers = r.pays a.who a.token a.amount := by
  rw [takeBody, if_neg hweth] at h
  obtain ⟨y, hy, h⟩ := of_bind h
  obtain ⟨-, h⟩ := of_require h
  cases h
  unfold takeCore at hy
  unfold Shelf.pays
  split_ifs at hy ⊢
  · have hrest := takeRest_pays (r := r) (n := 0) hseed ⟨rfl, rfl⟩ hy
    rwa [Nat.zero_add] at hrest
  · obtain ⟨-, ⟨z, done⟩, hz, hy⟩ := of_require_bind hy
    rw [hseed] at hz
    obtain ⟨rfl, rfl⟩ := takePreferred_eq hz
    exact takeRest_pays hseed ⟨rfl, valueUsd18_singleton _⟩ hy

end

end QuidProtocol.Reserve
