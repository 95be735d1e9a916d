import QuidProtocol.Basket.SortedSet
import QuidProtocol.Lib.Ledger

/-!
The Basket contract: balances, the same amounts in dated batches, and a label on the seed.
-/

namespace QuidProtocol.Basket

open Lib

/-- The ERC20 base contract: its unchecked `_update`, and its allowances. -/
structure Erc20 where
  balances : Address → ℕ
  totalSupply : ℕ
  allowances : Address → Address → ℕ

namespace Erc20

open Finset

def debit (t : Erc20) (source : Address) (value : ℕ) : Res Erc20 := do
  if source = 0 then
    let totalSupply ← add t.totalSupply value
    .ok { t with totalSupply }
  else
    require .erc20InsufficientBalance (value ≤ t.balances source)
    .ok { t with balances := Function.update t.balances source (t.balances source - value) }

def credit (t : Erc20) (dest : Address) (value : ℕ) : Erc20 :=
  if dest = 0 then
    { t with totalSupply := (t.totalSupply + (uintBound - value)) % uintBound }
  else
    { t with balances := Function.update t.balances dest ((t.balances dest + value) % uintBound) }

def update (t : Erc20) (source dest : Address) (value : ℕ) : Res Erc20 := do
  let t ← t.debit source value
  .ok (t.credit dest value)

def approve (t : Erc20) (owner spender : Address) (value : ℕ) : Res Erc20 := do
  require .erc20InvalidApprover (owner ≠ 0)
  require .erc20InvalidSpender (spender ≠ 0)
  .ok { t with allowances := Function.update t.allowances owner (Function.update (t.allowances owner) spender value) }

def spendAllowance (t : Erc20) (owner spender : Address) (value : ℕ) : Res Erc20 := do
  let currentAllowance := t.allowances owner spender
  if currentAllowance < maxUint then
    require .erc20InsufficientAllowance (value ≤ currentAllowance)
    t.approve owner spender (currentAllowance - value)
  else
    .ok t

structure Carries (t : Erc20) (value : ℕ) : Prop where
  total : ∑ w, t.balances w + value = t.totalSupply
  bounded : t.totalSupply < uintBound
  outside : t.balances 0 = 0

def Backed (t : Erc20) : Prop := t.Carries 0

variable {t t' : Erc20} {source dest : Address} {value : ℕ}

theorem Backed.sum (h : t.Backed) : ∑ w, t.balances w = t.totalSupply := by
  have htotal := h.total
  rwa [add_zero] at htotal

theorem Carries.balance_le (h : t.Carries value) (w : Address) : t.balances w + value ≤ t.totalSupply := by
  have hle := single_le_sum (fun v _ => Nat.zero_le (t.balances v)) (mem_univ w)
  have htotal := h.total
  omega

theorem sum_of_entry {f g : Address → ℕ} {a : Address} {v : ℕ} (h : f + entry a v = g) :
    ∑ w, f w + (if a = 0 then 0 else v) = ∑ w, g w := by
  rw [← h, ← sum_entry a v]
  exact sum_add_distrib.symm

theorem debit_of_backed (h : t.Backed) (hdebit : t.debit source value = .ok t') :
    t'.balances + entry source value = t.balances ∧ t'.totalSupply = t.totalSupply + (if source = 0 then value else 0) ∧
      t'.allowances = t.allowances ∧ t'.Carries value := by
  have houtside := h.outside
  unfold debit at hdebit
  by_cases hsource : source = 0
  · rw [if_pos hsource, bind_eq_ok] at hdebit
    obtain ⟨supply, hadd, hok⟩ := hdebit
    obtain ⟨hlt, rfl⟩ := add_eq_ok.mp hadd
    cases hok
    refine ⟨by simp [hsource], by simp [hsource], rfl, ?_, hlt, houtside⟩
    exact congrArg (· + value) h.sum
  · rw [if_neg hsource, bind_eq_ok] at hdebit
    obtain ⟨_, hreq, hok⟩ := hdebit
    have hle := require_eq_ok.mp hreq
    cases hok
    have hentry : Function.update t.balances source (t.balances source - value) + entry source value = t.balances := by
      have hsplit : t.balances source - value + value = t.balances source + 0 := by omega
      rw [entry_holder hsource, update_add_single hsplit, Pi.single_zero, add_zero]
    have hsum := sum_of_entry hentry
    rw [if_neg hsource] at hsum
    refine ⟨hentry, by simp [hsource], rfl, ?_, h.bounded, ?_⟩
    · exact hsum.trans h.sum
    · have hne : (0 : Address) ≠ source := Ne.symm hsource
      simp only [Function.update_of_ne hne, houtside]

theorem credit_of_carries (dest : Address) (h : t.Carries value) :
    (t.credit dest value).balances = t.balances + entry dest value ∧
      (t.credit dest value).totalSupply + (if dest = 0 then value else 0) = t.totalSupply ∧
      (t.credit dest value).allowances = t.allowances ∧ (t.credit dest value).Backed := by
  have htotal := h.total
  have hbounded := h.bounded
  have houtside := h.outside
  unfold credit
  by_cases hto : dest = 0
  · have hburn : (t.totalSupply + (uintBound - value)) % uintBound = t.totalSupply - value := by
      have hsplit : t.totalSupply + (uintBound - value) = t.totalSupply - value + uintBound := by omega
      rw [hsplit, Nat.add_mod_right, Nat.mod_eq_of_lt (by omega)]
    simp only [hto, if_true, hburn, entry_outside, add_zero]
    refine ⟨trivial, by omega, trivial, ?_, ?_, houtside⟩
    all_goals
      simp only
      omega
  · have hwrap : (t.balances dest + value) % uintBound = t.balances dest + value := by
      apply Nat.mod_eq_of_lt
      have hle := h.balance_le dest
      omega
    simp only [hto, if_false, hwrap, entry_holder hto, update_add, add_zero]
    refine ⟨trivial, trivial, trivial, ?_, hbounded, ?_⟩
    · have hsum := sum_of_entry (rfl : t.balances + entry dest value = t.balances + entry dest value)
      rw [if_neg hto, entry_holder hto] at hsum
      rw [← htotal]
      exact hsum.symm
    · simp [houtside, Ne.symm hto]

theorem update_of_backed (h : t.Backed) (hupdate : t.update source dest value = .ok t') :
    t'.balances + entry source value = t.balances + entry dest value ∧
      t'.totalSupply + (if dest = 0 then value else 0) = t.totalSupply + (if source = 0 then value else 0) ∧
      t'.allowances = t.allowances ∧ t'.Backed := by
  obtain ⟨t₁, hdebit, hok⟩ := of_bind hupdate
  cases hok
  obtain ⟨hbalances, hsupply, hallowances, hcarries⟩ := debit_of_backed h hdebit
  obtain ⟨hbalances', hsupply', hallowances', hbacked⟩ := credit_of_carries dest hcarries
  refine ⟨?_, ?_, ?_, hbacked⟩
  · rw [hbalances', ← hbalances]
    exact add_right_comm _ _ _
  · rw [hsupply', hsupply]
  · rw [hallowances', hallowances]

theorem update_of_holder (dest : Address) (hsource : source ≠ 0) (hle : value ≤ t.balances source) :
    ∃ t', t.update source dest value = .ok t' := by
  unfold update debit
  rw [if_neg hsource, require_of _ hle]
  exact ⟨_, rfl⟩

theorem approve_balances {owner spender} (h : t.approve owner spender value = .ok t') :
    t' = { t with allowances := t'.allowances } := by
  simp only [approve, bind_eq_ok] at h
  obtain ⟨_, -, _, -, hok⟩ := h
  cases hok
  rfl

theorem spendAllowance_balances {owner spender} (h : t.spendAllowance owner spender value = .ok t') :
    t' = { t with allowances := t'.allowances } := by
  simp only [spendAllowance] at h
  split_ifs at h with hfinite
  · obtain ⟨-, happrove⟩ := of_require h
    exact approve_balances happrove
  · cases h
    rfl

end Erc20

open Function

def solanaEid : ℕ := 30168

def sdRate : ℕ := 10 ^ 12

def oftMsgLen : ℕ := 40

def cap : ℕ := 600000 * 10 ^ 18

def monthLength : ℕ := 2420000

def wad : ℕ := 10 ^ 18

structure State where
  erc20 : Erc20
  balanceOf : Address → ℕ → ℕ
  totalSupplies : ℕ → ℕ
  perMonth : Address → SortedSet
  tranche : Address → ℕ
  seeded : ℕ
  deployed : ℕ
  timestamp : ℕ
  owner : Address
  aux : Address
  range : Address
  btcVault : Address

structure Metrics where
  total : ℕ
  avgYield : ℕ
  depegLoss : ℕ
  illiquidLossFlagging : ℕ

structure DepositToken where
  isVault : Bool
  convertToShares : ℕ → ℕ
  convertToAssets : ℕ → ℕ
  allowance : Address → ℕ
  blocked : Bool
  transferFrom : Address → ℕ → Bool
  index : ℕ
  stables : ℕ
  supplySelf : ℕ → ℕ
  riskFactor : ℕ
  decimals : ℕ
  allowance_zero : allowance 0 = 0
  convertToAssets_zero : convertToAssets 0 = 0

structure Messaging where
  nativeFee : ℕ
  msgValue : ℕ
  sendOk : Bool
  refundOk : Bool

def takeDeposit (token : DepositToken) (pledge : Address) (amount : ℕ) : Res ℕ :=
  if token.isVault then do
    let shares := min (token.convertToShares amount) (token.allowance pledge)
    let usd := token.convertToAssets shares
    require .zeroDeposit (usd ≠ 0)
    require .vaultBlocked (token.blocked = false)
    require .safeTransferFailed (token.transferFrom pledge shares = true)
    .ok usd
  else do
    require .unknownStable (0 < token.index ∧ token.index ≤ token.stables)
    let usd := min amount (token.allowance pledge)
    require .safeTransferFailed (token.transferFrom pledge usd = true)
    require .zeroDeposit (usd ≠ 0)
    .ok (token.supplySelf usd)

def depositBody (token : DepositToken) (pledge : Address) (amount : ℕ) : Res ℕ := do
  let usd ← takeDeposit token pledge amount
  if token.riskFactor < 10000 then fullMulDiv usd token.riskFactor 10000 else .ok usd

def matureBatchesLoop (batches : List ℕ) (currentMonth : ℕ) : ℕ → ℕ
  | 0 => 0
  | i + 1 => if batches.getD i 0 ≤ currentMonth then i + 1 else matureBatchesLoop batches currentMonth i

def matureBatches (batches : List ℕ) (currentTimestamp deployedTime : ℕ) : ℕ :=
  matureBatchesLoop batches ((currentTimestamp - deployedTime) / monthLength) batches.length

def normalize (deposited decimals : ℕ) : Res ℕ :=
  if decimals < 18 then mul deposited (10 ^ (18 - decimals)) else .ok deposited

def calcMintYield (deposited decimals when nextMonth avgYieldIn : ℕ) (isSeed : Bool) : Res (ℕ × ℕ) := do
  let normalized ← normalize deposited decimals
  let first := if isSeed then nextMonth + 1 else nextMonth
  let month := if first < when then when else first
  let yield := if isSeed then wad else avgYieldIn
  let weighted ← mul normalized yield
  let bonus ← fullMulDiv weighted (month - (nextMonth - 1)) (wad * 12)
  let normalized ← add normalized bonus
  .ok (normalized, month)

namespace State

variable (s : State)

def auth (who : Address) : Bool := who = s.aux || who = s.range || who = s.btcVault

def currentMonth : ℕ := (s.timestamp - s.deployed) / monthLength

def windowSum (amounts : ℕ → ℕ) (cm : ℕ) : Res ℕ :=
  (List.range' (cm + 1) 13).foldlM (fun bal m => add bal (amounts m)) 0

def immatureBalanceOf (who : Address) : Res ℕ := windowSum (s.balanceOf who) s.currentMonth

def immatureSupply : Res ℕ := windowSum s.totalSupplies s.currentMonth

def matureSupply : Res ℕ := do
  let imm ← s.immatureSupply
  let ts := s.erc20.totalSupply
  .ok (if imm < ts then ts - imm else 0)

def setBalance (who : Address) (when amount : ℕ) : State :=
  { s with
    balanceOf := update s.balanceOf who (update (s.balanceOf who) when amount) }

def putBatch (dest : Address) (k amt : ℕ) : Res State :=
  if dest ≠ 0 then do
    let s := { s with perMonth := update s.perMonth dest ((s.perMonth dest).insert k) }
    let held ← add (s.balanceOf dest k) amt
    .ok (s.setBalance dest k held)
  else do
    let supply ← sub (s.totalSupplies k) amt
    .ok { s with totalSupplies := update s.totalSupplies k supply }

def dropEmpty (source : Address) (k : ℕ) : Res State :=
  if s.balanceOf source k = 0 then do
    let months ← (s.perMonth source).remove k
    .ok { s with perMonth := update s.perMonth source months }
  else
    .ok s

def moveBatch (source dest : Address) (k amt : ℕ) : Res State := do
  let s := s.setBalance source k (s.balanceOf source k - amt)
  let s ← s.putBatch dest k amt
  s.dropEmpty source k

def moveBatches (source dest : Address) (batches : List ℕ) : ℕ → State → ℕ → ℕ → Res (State × ℕ)
  | 0, s, _, sent => .ok (s, sent)
  | i + 1, s, amount, sent =>
    if amount = 0 then .ok (s, sent)
    else
      let k := batches.getD i 0
      if s.balanceOf source k = 0 then moveBatches source dest batches i s amount sent
      else do
        let amt := min amount (s.balanceOf source k)
        let s ← s.moveBatch source dest k amt
        let sent ← add sent amt
        moveBatches source dest batches i s (amount - amt) sent

def moveTranche (source dest : Address) (sent : ℕ) : Res State :=
  if s.tranche source = 0 then .ok s
  else do
    let seed := min sent (s.tranche source)
    let s := { s with tranche := update s.tranche source (s.tranche source - seed) }
    if dest = 0 then
      .ok { s with seeded := s.seeded - min s.seeded seed }
    else
      let labelled ← add (s.tranche dest) seed
      .ok { s with tranche := update s.tranche dest labelled }

def firstBatch (batches : List ℕ) (dest : Address) : Res ℕ :=
  if dest = 0 then .ok (matureBatches batches s.timestamp s.deployed)
  else do
    require .panic (batches.length ≠ 0)
    .ok batches.length

def transferHelper (source dest : Address) (amount : ℕ) : Res (State × ℕ) := do
  require .insufficientUnlocked (amount ≤ s.erc20.balances source)
  let batches := (s.perMonth source).sortedArray
  let start ← s.firstBatch batches dest
  let (s, sent) ← moveBatches source dest batches start s amount 0
  if sent = 0 then .ok (s, sent)
  else
    let erc20 ← s.erc20.update source dest sent
    let s ← { s with erc20 }.moveTranche source dest sent
    .ok (s, sent)

def mintBatch (receiver : Address) (when amount : ℕ) : Res State := do
  let supply ← add (s.totalSupplies when) amount
  let s := { s with
    totalSupplies := update s.totalSupplies when supply
    perMonth := update s.perMonth receiver ((s.perMonth receiver).insert when) }
  let erc20 ← s.erc20.update 0 receiver amount
  let held ← add (s.balanceOf receiver when) amount
  .ok ({ s with erc20 }.setBalance receiver when held)

def bufBps (total : ℕ) : Res ℕ :=
  if s.erc20.totalSupply < total then do
    let scaled ← mul (total - s.erc20.totalSupply) 10000
    .ok (scaled / total)
  else .ok 0

def maxFwd (total : ℕ) : Res ℕ :=
  if s.currentMonth < 12 then .ok 12
  else do
    let bufBps ← s.bufBps total
    .ok (if 500 ≤ bufBps then 12 else if 300 ≤ bufBps then 6 else if 150 ≤ bufBps then 3 else 1)

def discounted (normalized mature total : ℕ) : Res ℕ :=
  if 0 < mature ∧ 0 < total ∧ total < mature then mulDiv normalized mature total else .ok normalized

def exceedsCap (isSeed : Bool) (normalized : ℕ) : Res Bool :=
  if isSeed then do
    let seeded ← add s.seeded normalized
    .ok (decide (cap < seeded))
  else .ok false

def finishMint (metrics : Metrics) (pledge : Address) (deposited decimals when nextMonth : ℕ) : Res (State × ℕ) := do
  let total := metrics.total - min metrics.total metrics.depegLoss
  let maxFwd ← s.maxFwd total
  let tgtMonth := max (min when (nextMonth + maxFwd)) nextMonth
  let isSeed := decide (tgtMonth = 13 ∧ s.seeded < cap)
  let (normalized, month) ← calcMintYield deposited decimals tgtMonth nextMonth metrics.avgYield isSeed
  let mature ← s.matureSupply
  let added ← normalize deposited decimals
  let total := total - min total added
  let normalized ← discounted normalized mature total
  let exceeds ← s.exceedsCap isSeed normalized
  if exceeds then
    let (normalized, month) ← calcMintYield deposited decimals tgtMonth nextMonth metrics.avgYield false
    let normalized ← discounted normalized mature total
    let s ← s.mintBatch pledge month normalized
    .ok (s, normalized)
  else if isSeed then
    let seeded ← add s.seeded normalized
    let labelled ← add (s.tranche pledge) normalized
    let s := { s with seeded, tranche := update s.tranche pledge labelled }
    let s ← s.mintBatch pledge month normalized
    .ok (s, normalized)
  else
    let s ← s.mintBatch pledge month normalized
    .ok (s, normalized)

def mint (metrics : Metrics) (token : DepositToken) (sender pledge : Address) (amount when : ℕ) : Res (State × ℕ) := do
  let nextMonth := s.currentMonth + 1
  if s.auth sender then
    let total := metrics.total - min metrics.total metrics.depegLoss
    let total := total - min total metrics.illiquidLossFlagging
    let headroom := total - s.erc20.totalSupply
    if 12 ≤ s.currentMonth ∧ headroom < amount then
      let s ← (if 0 < headroom then s.mintBatch pledge nextMonth headroom else .ok s)
      let s ← s.mintBatch pledge (nextMonth + 1) (amount - headroom)
      .ok (s, amount)
    else if 0 < amount then
      let s ← s.mintBatch pledge nextMonth amount
      .ok (s, amount)
    else
      .ok (s, amount)
  else
    let deposited ← depositBody token pledge amount
    s.finishMint metrics pledge deposited token.decimals when nextMonth

def lzReceive (srcEid : ℕ) (message : Bytes) : Res State := do
  require .unauthorized (srcEid = solanaEid)
  require .badBridgeMessage (message.length = oftMsgLen)
  let dest := Address.ofNat (ofBytesBE (message.take 32))
  let amount := ofBytesBE ((message.drop 32).take 8) * sdRate
  require .badBridgeMessage (¬ (dest = 0 ∨ amount = 0))
  s.mintBatch dest (s.currentMonth + 1) amount

-- The ERC6909 overloads of `transfer` and `transferFrom` do not look at their id.
def transfer (s : State) (sender dest : Address) (value : ℕ) : Res State := do
  let (s, sent) ← s.transferHelper sender dest value
  require .requireFailed (value = sent)
  .ok s

def transferFrom (spender source dest : Address) (value : ℕ) : Res State := do
  let erc20 ← s.erc20.spendAllowance source spender value
  let (s, _) ← { s with erc20 }.transferHelper source dest value
  .ok s

def turn (sender source : Address) (value : ℕ) : Res (State × ℕ × ℕ) := do
  require .unauthorized (s.auth sender = true)
  let seedBefore := s.tranche source
  let (s, sent) ← s.transferHelper source 0 value
  let seedBurned ← sub seedBefore (s.tranche source)
  .ok (s, sent, seedBurned)

def bridgeToSolana (lz : Messaging) (sender : Address) (dest : BitVec 256) (amount : ℕ) : Res (State × Bytes) := do
  require .badBridgeMessage (dest ≠ 0)
  let amountSD := amount / sdRate
  require .badBridgeMessage (amountSD ≠ 0)
  let (s, burned) ← s.transferHelper sender 0 (amountSD * sdRate)
  require .insufficientUnlocked (burned ≠ 0)
  let sentSD := burned / sdRate
  require .insufficientUnlocked (sentSD ≠ 0)
  let message := toBytesBE 32 dest.toNat ++ toBytesBE 8 (sentSD % 2 ^ 64)
  require .fee (lz.nativeFee ≤ lz.msgValue)
  require .sendFailed (lz.sendOk = true)
  require .requireFailed (lz.nativeFee < lz.msgValue → lz.refundOk = true)
  .ok (s, message)

def approve (sender spender : Address) (value : ℕ) : Res State := do
  let erc20 ← s.erc20.approve sender spender value
  .ok { s with erc20 }

def setBtcVault (sender b : Address) : Res State := do
  require .unauthorized (sender = s.owner)
  require .btcVaultPinned (s.btcVault = 0)
  .ok { s with btcVault := b }

end State

inductive Call
  | mint (metrics : Metrics) (token : DepositToken) (sender pledge : Address) (amount when : ℕ)
  | lzReceive (srcEid : ℕ) (message : Bytes)
  | transfer (sender dest : Address) (value : ℕ)
  | transferFrom (spender source dest : Address) (value : ℕ)
  | turn (sender source : Address) (value : ℕ)
  | bridgeToSolana (lz : Messaging) (sender : Address) (dest : BitVec 256) (amount : ℕ)
  | approve (sender spender : Address) (value : ℕ)
  | setBtcVault (sender b : Address)
  | wait (seconds : ℕ)

def State.exec (s : State) : Call → Res State
  | .mint metrics token sender pledge amount when => do
    let (s, _) ← s.mint metrics token sender pledge amount when
    .ok s
  | .lzReceive srcEid message => s.lzReceive srcEid message
  | .transfer sender dest value => s.transfer sender dest value
  | .transferFrom spender source dest value => s.transferFrom spender source dest value
  | .turn sender source value => do
    let (s, _) ← s.turn sender source value
    .ok s
  | .bridgeToSolana lz sender dest amount => do
    let (s, _) ← s.bridgeToSolana lz sender dest amount
    .ok s
  | .approve sender spender value => s.approve sender spender value
  | .setBtcVault sender b => s.setBtcVault sender b
  | .wait seconds => do
    let timestamp ← add s.timestamp seconds
    .ok { s with timestamp }

def State.created (owner aux range : Address) (now : ℕ) : State where
  erc20 := ⟨fun _ => 0, 0, fun _ _ => 0⟩
  balanceOf := fun _ _ => 0
  totalSupplies := fun _ => 0
  perMonth := fun _ => .empty
  tranche := fun _ => 0
  seeded := 0
  deployed := now
  timestamp := now
  owner := owner
  aux := aux
  range := range
  btcVault := 0

end QuidProtocol.Basket
