import Mathlib.Data.List.Sort
import QuidProtocol.Stay.Model

/-!
The instructions of the pool: deposits, withdrawals, trades, liquidations and sweeps, over `renege`.
-/

namespace QuidProtocol.Stay

open Lib Function

def releasable (pod : Stock) (price : ℕ) : ℕ :=
  let collar := collarAmount pod price
  if 0 < pod.exposure then sat (pod.pledged + collar) - unitsValue pod.exposure.natAbs price
  else if pod.exposure < 0 then pod.valueAt price - (pod.pledged - collar)
  else pod.pledged

def release (pod : Stock) (deducted now : ℕ) : Stock :=
  { pod with pledged := pod.pledged - deducted, updated := if pod.exposure = 0 then now else pod.updated }

def largestFirst (balances : List Stock) : List ℕ :=
  (List.range balances.length).insertionSort fun i j =>
    (balances[j]?.map Stock.pledged).getD 0 ≤ (balances[i]?.map Stock.pledged).getD 0

def releaseFrom (prices : List ℕ) (now : ℕ) : List ℕ → List Stock → ℕ → Res (List Stock × ℕ)
  | [], balances, deducting => .ok (balances, deducting)
  | i :: rest, balances, deducting =>
    if deducting = 0 then .ok (balances, deducting)
    else do
      let price ← found .noPrice prices[i]?
      let pod ← found .noPrice balances[i]?
      let deducted := min (releasable pod price) deducting
      releaseFrom prices now rest (balances.set i (release pod deducted now)) (deducting - deducted)

def prune (balances : List Stock) : List Stock := balances.filter fun pod => 0 < pod.pledged ∨ pod.exposure ≠ 0

def pledgeStep (pod : Stock) (price : ℕ) (amount : ℤ) : Res ℤ :=
  let value := pod.valueAt price
  let collar := collarAmount pod price
  if amount < 0 then
    if pod.exposure < 0 then
      if pod.pledged < value then .ok (max (-asI64 (collar - (value - pod.pledged))) amount)
      else if value < pod.pledged then .error .takeProfit
      else .ok amount
    else if 0 < pod.exposure then
      let most := if value ≤ pod.pledged then collar - (pod.pledged - value) else collar - (value - pod.pledged)
      .ok (-asI64 (min most amount.natAbs))
    else .ok amount
  else
    if pod.exposure < 0 then
      if pod.pledged < value then .ok (min amount (asI64 (value - pod.pledged)))
      else if value < pod.pledged then .error .takeProfit
      else .ok amount
    else if 0 < pod.exposure then
      let most := if value ≤ pod.pledged then collar - (pod.pledged - value) else sat (value + collar) - pod.pledged
      .ok (asI64 (min most (asU64 amount)))
    else .ok amount

def repledge (pod : Stock) (lowers : Bool) (step : ℤ) (now : ℕ) : Stock :=
  { pod with
    pledged := if lowers then pod.pledged - step.natAbs else sat (pod.pledged + asU64 step)
    updated := if pod.exposure = 0 then now else pod.updated }

def renegeOne (d : Depositor) (ticker : Ticker) (amount : ℤ) (price now : ℕ) : Res Depositor :=
  match podOf d.balances ticker with
  | some pod => do
    require .noPrice (¬ (pod.exposure ≠ 0 ∧ price = 0))
    require .invalidAmount (amount < 0 → amount.natAbs ≤ pod.pledged)
    let step ← pledgeStep pod price amount
    .ok { d with lastUpdated := now
                 balances := prune (putPod ticker (repledge pod (amount < 0) step now) d.balances) }
  | none => do
    require .invalidAmount (0 < amount)
    require .maxPositionsReached (d.balances.length < maxLen)
    let pod : Stock := ⟨ticker, amount.natAbs, 0, now, 0, 0, 0, 0, 0⟩
    .ok { d with balances := prune (d.balances ++ [pod]) }

def renegeAll (balances : List Stock) (amount : ℕ) (prices : List ℕ) (now : ℕ) : Res (List Stock × ℤ) := do
  let (balances, deducting) ← releaseFrom prices now (largestFirst balances) balances amount
  .ok (prune balances, asI64 deducting)

def pledges (balances : List Stock) : ℕ := (balances.map Stock.pledged).sum

def overdrawn (prices : List ℕ) (now : ℕ) : List ℕ → List Stock → ℕ → ℕ
  | [], _, _ => 0
  | i :: rest, balances, deducting =>
    if deducting = 0 then 0
    else
      match prices[i]?, balances[i]? with
      | some price, some pod =>
        let deducted := min (releasable pod price) deducting
        (deducted - pod.pledged) +
          overdrawn prices now rest (balances.set i (release pod deducted now)) (deducting - deducted)
      | _, _ => 0

section

variable {balances balances' : List Stock} {prices order : List ℕ} {now deducting left i : ℕ} {pod new : Stock}

theorem pledges_set (h : balances[i]? = some pod) (new : Stock) :
    pledges (balances.set i new) + pod.pledged = pledges balances + new.pledged := by
  induction balances generalizing i with
  | nil => simp at h
  | cons first rest ih =>
    cases i with
    | zero =>
      obtain rfl : first = pod := by simpa using h
      simp only [pledges, List.set_cons_zero, List.map_cons, List.sum_cons]
      omega
    | succ i =>
      have hrest := ih (by simpa using h)
      simp only [pledges, List.set_cons_succ, List.map_cons, List.sum_cons] at hrest ⊢
      omega

theorem pledges_prune (balances : List Stock) : pledges (prune balances) = pledges balances := by
  unfold pledges prune
  induction balances with
  | nil => rfl
  | cons pod rest ih =>
    rw [List.filter_cons]
    split_ifs with hkept
    · rw [List.map_cons, List.map_cons, List.sum_cons, List.sum_cons, ih]
    · have hspent : pod.pledged = 0 := by
        by_contra hne
        exact hkept (decide_eq_true (Or.inl (Nat.pos_of_ne_zero hne)))
      rw [List.map_cons, List.sum_cons, hspent, Nat.zero_add, ih]

theorem release_pledged (pod deducted now) :
    (release pod deducted now).pledged + deducted = pod.pledged + (deducted - pod.pledged) := by
  simp only [release]
  omega

theorem releaseFrom_ok (horder : ∀ i ∈ order, i < balances.length ∧ i < prices.length) (now deducting : ℕ) :
    ∃ balances' left, releaseFrom prices now order balances deducting = .ok (balances', left) := by
  induction order generalizing balances deducting with
  | nil => exact ⟨balances, deducting, rfl⟩
  | cons i rest ih =>
    obtain ⟨hi, hprice⟩ := horder i List.mem_cons_self
    unfold releaseFrom
    split_ifs
    · exact ⟨balances, deducting, rfl⟩
    · rw [List.getElem?_eq_getElem hprice, List.getElem?_eq_getElem hi]
      apply ih
      intro j hj
      rw [List.length_set]
      exact horder j (List.mem_cons_of_mem i hj)

theorem releaseFrom_pledges (h : releaseFrom prices now order balances deducting = .ok (balances', left)) :
    left ≤ deducting ∧ pledges balances' + (deducting - left) =
        pledges balances + overdrawn prices now order balances deducting := by
  induction order generalizing balances deducting with
  | nil =>
    cases h
    simp [overdrawn]
  | cons i rest ih =>
    unfold releaseFrom at h
    unfold overdrawn
    split_ifs at h ⊢
    · cases h
      simp
    · obtain ⟨price, hprice, pod, hpod, h⟩ := of_bind₂ h
      rw [found_eq_ok.mp hprice, found_eq_ok.mp hpod]
      dsimp only
      obtain ⟨hle, hsum⟩ := ih h
      have hset := pledges_set (found_eq_ok.mp hpod) (release pod (min (releasable pod price) deducting) now)
      have hone := release_pledged pod (min (releasable pod price) deducting) now
      have hmin : min (releasable pod price) deducting ≤ deducting := min_le_right _ _
      omega

theorem mem_largestFirst : i ∈ largestFirst balances ↔ i < balances.length := by
  unfold largestFirst
  rw [List.mem_insertionSort, List.mem_range]

/-- The pledges fall by what is released if and only if no position is booked for more than it has pledged. -/
theorem renege_releases_iff (balances : List Stock) (amount : ℕ) (hamount : amount < 2 ^ 63) (prices : List ℕ)
    (hprices : prices.length = balances.length) (now : ℕ) :
    ∃ balances' remainder, renegeAll balances amount prices now = .ok (balances', remainder) ∧
      0 ≤ remainder ∧ remainder ≤ amount ∧ ((pledges balances : ℤ) - pledges balances' = amount - remainder ↔
        overdrawn prices now (largestFirst balances) balances amount = 0) := by
  have horder : ∀ i ∈ largestFirst balances, i < balances.length ∧ i < prices.length := by
    intro i hi
    have hlt := mem_largestFirst.mp hi
    exact ⟨hlt, by omega⟩
  obtain ⟨balances', left, hloop⟩ := releaseFrom_ok horder now amount
  obtain ⟨hle, hsum⟩ := releaseFrom_pledges hloop
  have hcast : asI64 left = left := by
    unfold asI64
    rw [if_pos (by omega)]
  refine ⟨prune balances', left, ?_, by omega, by omega, ?_⟩
  · unfold renegeAll
    rw [hloop, ok_bind]
    dsimp only
    rw [hcast]
  · rw [pledges_prune]
    omega

end

def leveredShort : Stock := ⟨1, 100 * 10 ^ 6, -5 * 10 ^ 6, 0, 1000, 0, 0, 500 * 10 ^ 6, 0⟩

def flatPledge : Stock := ⟨2, 100 * 10 ^ 6, 0, 0, 0, 0, 0, 0, 0⟩

theorem renege_releases_flat : ∃ balances' remainder,
    renegeAll [flatPledge] (60 * 10 ^ 6) [10 ^ 8] 0 = .ok (balances', remainder) ∧
      (pledges [flatPledge] : ℤ) - pledges balances' = (60 * 10 ^ 6 : ℕ) - remainder := by
  obtain ⟨balances', remainder, h, -, -, hiff⟩ :=
    renege_releases_iff [flatPledge] (60 * 10 ^ 6) (by norm_num) [10 ^ 8] rfl 0
  exact ⟨balances', remainder, h, hiff.mpr (by decide +kernel)⟩

theorem renege_overdraws_short : ∃ balances', renegeAll [leveredShort] (400 * 10 ^ 6) [10 ^ 8] 0 = .ok (balances', 0) ∧
      pledges [leveredShort] = 100 * 10 ^ 6 ∧ pledges balances' = 0 := by
  decide +kernel

/-- The last two fields record, for each position, the premium that was booked for it and what was taken off its
pledge. -/
structure State where
  bank : Depository
  depositors : Pubkey → Depositor
  risks : Ticker → TickerRisk
  booked : Pubkey → Ticker → ℕ
  charged : Pubkey → Ticker → ℕ

variable (e : Env) (d : Depositor) (s : State) (bank : Depository) (v : Vaults)

def Depository.age (now : ℕ) : Res Depository := do
  let seconds ← mul128 (now - bank.lastUpdated) bank.totalDeposits
  let totalDepositSeconds ← add128 bank.totalDepositSeconds seconds
  .ok { bank with totalDepositSeconds, lastUpdated := now }

def Depositor.age (now : ℕ) : Res Depositor := do
  let seconds ← mul128 (now - d.lastUpdated) d.depositedQuid
  let depositSeconds ← add128 d.depositSeconds seconds
  .ok { d with depositSeconds }

def accrueSeconds (now : ℕ) : Depositor × Depository :=
  let depositSeconds := sat128 (d.depositSeconds + d.depositedQuid * (now - d.lastUpdated))
  let totalDepositSeconds := sat128 (bank.totalDepositSeconds + bank.totalDeposits * (now - bank.lastUpdated))
  ({ d with depositSeconds }, { bank with totalDepositSeconds })

def poolDeposit (usd now : ℕ) : Depositor × Depository :=
  let (d, bank) := accrueSeconds d bank now
  ({ d with depositedQuid := sat (d.depositedQuid + usd), lastUpdated := now },
    { bank with totalDeposits := sat (bank.totalDeposits + usd), lastUpdated := now })

def accountingDecimals : ℕ := 6

def toAccounting (amount decimals : ℕ) : Res ℕ :=
  if decimals = accountingDecimals then .ok amount
  else if accountingDecimals < decimals then do
    require .invalidParameters (10 ^ (decimals - accountingDecimals) < 2 ^ 64)
    .ok (amount / 10 ^ (decimals - accountingDecimals))
  else do
    require .invalidParameters (amount * 10 ^ (accountingDecimals - decimals) < 2 ^ 64)
    .ok (amount * 10 ^ (accountingDecimals - decimals))

def handleIn (signer : Pubkey) (amount decimals : ℕ) (ticker : Option Ticker) (now : ℕ) : Res State := do
  let customer := { s.depositors signer with opened := true }
  require .invalidAmount (100000000 ≤ amount)
  let credited ← toAccounting amount decimals
  require .invalidAmount (0 < credited)
  match ticker with
  | none =>
    let (customer, bank) := poolDeposit customer s.bank credited now
    .ok { s with bank, depositors := update s.depositors signer customer }
  | some ticker => do
    let (customer, bank) := accrueSeconds customer s.bank now
    let customer ← renegeOne { customer with lastUpdated := now } ticker (asI64 credited) 0 now
    let customer := { customer with lastUpdated := now }
    .ok { s with bank := { bank with lastUpdated := now }
                 depositors := update s.depositors signer customer }

structure Vaults where
  primary : ℕ
  alts : List ℕ

def payFromAlts (toSend total : ℕ) : List ℕ → ℕ → ℕ
  | [], sent => sent
  | [bal], sent => sent + min (toSend - sent) bal
  | bal :: rest, sent =>
    payFromAlts toSend total rest (sent + min (min (bal * toSend / total) bal) (toSend - sent))

def transferFromVaults (requested : ℕ) : ℕ :=
  let alts := v.alts.filter (0 < ·)
  let total := alts.foldl (fun acc bal => sat (acc + bal)) v.primary
  if total = 0 then 0
  else
    let toSend := min requested total
    payFromAlts toSend total alts (min (min (v.primary * toSend / total) v.primary) toSend)

def adjustDepositSeconds (base reduced now : ℕ) : Depositor × Depository :=
  if base = 0 ∨ reduced = 0 then (d, bank)
  else
    let before := sat128 (d.depositSeconds + sat128 ((now - d.lastUpdated) * base))
    let remaining := before * (base - reduced)
    let kept := if remaining < 2 ^ 128 then remaining / base else 0
    ({ d with depositSeconds := kept, lastUpdated := now },
      { bank with totalDepositSeconds := bank.totalDepositSeconds - (before - kept) })

def earnedOf : ℕ :=
  let earned := if 0 < bank.totalDepositSeconds ∧ 0 < bank.yieldPool then
      min (sat128 (d.depositSeconds * bank.yieldPool) / bank.totalDepositSeconds) bank.yieldPool
    else 0
  let discount := if 0 < d.depositedQuid then bps - min (d.drawn * bps / d.depositedQuid) bps else 0
  sat (earned * discount) / bps

def payable (asked : ℕ) : ℕ × ℕ :=
  let maxValue := sat (d.depositedQuid + earnedOf d bank)
  let backing := sat (bank.totalDeposits + bank.yieldPool)
  let share := if 0 < backing then sat (sat128 (maxValue * bank.withdrawable) / backing) else 0
  (min maxValue asked, min (min maxValue asked) share)

def payFromBalance (value now : ℕ) : Res (Depositor × Depository) := do
  let fromPrincipal := min value d.depositedQuid
  let totalDeposits ← sub bank.totalDeposits fromPrincipal
  let bank := { bank with totalDeposits, yieldPool := bank.yieldPool - (value - fromPrincipal) }
  let (d, bank) := adjustDepositSeconds d bank d.depositedQuid value now
  .ok ({ d with depositedQuid := d.depositedQuid - min d.depositedQuid value, lastUpdated := now }, bank)

def withdrawDollars (asked now : ℕ) : Res (Depositor × Depository × ℕ) := do
  let d ← d.age now
  let (claimed, value) := payable d bank asked
  let (d, bank) ← payFromBalance d (bank.deferRedemption (claimed - value)) value now
  .ok (d, bank, value)

def releasePledges (balances : List Stock) (amount : ℕ) (fromPledges : Option (List ℕ)) (now : ℕ) :
    Res (List Stock × ℤ) :=
  match fromPledges with
  | some prices => renegeAll balances amount prices now
  | none => .ok (balances, amount)

def outDollars (amount : ℕ) (fromPledges : Option (List ℕ)) (now : ℕ) : Res (Depositor × Depository × ℕ) := do
  let (balances, rest) ← releasePledges d.balances amount fromPledges now
  let d := { d with balances }
  if rest = 0 then .ok (d, bank, amount)
  else do
    let (d, bank, value) ← withdrawDollars d bank rest.natAbs now
    let paid ← add (amount - rest.natAbs) value
    .ok (d, bank, paid)

def handleOutDollars (signer : Pubkey) (amount : ℤ) (fromPledges : Option (List ℕ)) (now : ℕ) : Res (State × ℕ) := do
  let customer := s.depositors signer
  require .invalidAmount (amount < 0)
  require .invalidUser customer.opened
  let bank ← s.bank.age now
  let (customer, bank, paid) ← outDollars customer bank amount.natAbs fromPledges now
  .ok ({ s with bank, depositors := update s.depositors signer customer }, transferFromVaults v paid)

def handleOutPledge (signer : Pubkey) (ticker : Ticker) (amount : ℤ) (price now : ℕ) : Res (State × ℕ) := do
  let customer := s.depositors signer
  require .invalidAmount (amount < 0)
  require .invalidUser customer.opened
  let bank ← s.bank.age now
  let customer' ← renegeOne customer ticker amount price now
  let released := pledgedIn customer.balances ticker - pledgedIn customer'.balances ticker
  require .undercollateralised (0 < released)
  .ok ({ s with bank, depositors := update s.depositors signer customer' }, transferFromVaults v (min released i64Max))

def fundPosition (actuary : Actuary) (price : ℕ) (d : Depositor) (risk : TickerRisk) (ticker : Ticker) :
    Depositor × TickerRisk :=
  match podOf d.balances ticker with
  | none => (d, risk)
  | some pod =>
    let (pod, fundingPot) := settleFunding actuary price pod risk.fundingPot
    ({ d with balances := putPod ticker pod d.balances }, { risk with fundingPot })

/-- The leverage that the fee is computed from, where the price is not scaled. -/
def feeLeverage (pod : Stock) (price : ℕ) : Res ℤ :=
  if 0 < pod.pledged then do
    let value ← mul pod.exposure.natAbs price
    let scaled ← mul value 100
    .ok (asI64 (scaled / pod.pledged))
  else .ok 100

def tradeFee (pod : Stock) (amount : ℤ) : Res ℕ := do
  let leverage ← feeLeverage pod e.price
  let value := pod.valueAt e.price
  let notional := collarNotional value pod.pledged
  let barrier := sat (notional + sat (notional * e.actuary.collarBps leverage) / bps)
  let distance : ℤ := if 0 < value then (min ((barrier - value) * bps / value) i64Max : ℕ) else 10000
  .ok (e.actuary.feeBps bank.utilisationBps pod.exposure amount leverage distance)

def bookPool (gain : ℤ) : Depository :=
  if 0 ≤ gain then { bank with yieldPool := sat (bank.yieldPool + asU64 gain) }
  else
    let loss := asU64 (-gain)
    let fromYield := min loss bank.yieldPool
    let totalDeposits := bank.totalDeposits - (loss - fromYield)
    { bank with yieldPool := bank.yieldPool - fromYield, totalDeposits }

structure Settled where
  customer : Depositor
  gain : ℤ
  payout : ℕ

def dispatchTrade (o : Outcome) (d : Depositor) (before : Stock) (preDq fee now : ℕ) : Settled :=
  let moved : ℤ := ((d.depositedQuid : ℤ) - preDq) + (pledgedIn d.balances before.ticker - before.pledged)
  let exposure := ((podOf d.balances before.ticker).map Stock.exposure).getD 0
  if o.delta < 0 then
    let payout : ℕ := o.interest - o.interest * fee / bps % 2 ^ 64
    ⟨d, -moved - payout, payout⟩
  else if 0 < o.interest ∧ exposure.natAbs < before.exposure.natAbs then
    let depositedQuid := sat (d.depositedQuid + o.interest)
    ⟨{ d with
        depositedQuid
        depositSeconds := sat128 (d.depositSeconds + sat128 ((now - d.lastUpdated) * depositedQuid))
        lastUpdated := now }, -(moved + o.interest), 0⟩
  else if 0 < o.delta then
    ⟨{ d with
        depositSeconds := sat128 (d.depositSeconds + sat128 ((now - d.lastUpdated) * preDq))
        lastUpdated := now }, -moved, 0⟩
  else ⟨d, -moved, 0⟩

/-- What `handle_out` has of a trade when `repo` has done it and its result is dispatched. -/
structure Trade where
  bank : Depository
  before : Stock
  fee : ℕ
  funded : Depositor
  risk : TickerRisk
  traded : Depositor
  outcome : Outcome
  settled : Settled

def tradeOf (signer : Pubkey) (ticker : Ticker) (amount : ℤ) : Res Trade := do
  let customer := s.depositors signer
  let bank ← s.bank.age e.now
  let before ← found .depositFirst (podOf customer.balances ticker)
  let fee ← tradeFee e bank before amount
  let (funded, risk) := fundPosition e.actuary e.price customer (s.risks ticker) ticker
  let (traded, o) ← repo e funded bank ticker amount
  .ok ⟨bank, before, fee, funded, risk, traded, o, dispatchTrade o traded before customer.depositedQuid fee e.now⟩

def handleOutTrade (after : Actuary) (s : State) (v : Vaults) (signer : Pubkey) (ticker : Ticker)
    (amount : ℤ) : Res (State × ℕ) := do
  require .invalidAmount (amount ≠ 0)
  require .invalidUser (s.depositors signer).opened
  let t ← tradeOf e s signer ticker amount
  let (risk, bank) := reconcileTickerReserve after t.risk (bookPool t.outcome.desk.bank t.settled.gain)
  let depositors := update s.depositors signer t.settled.customer
  .ok ({ s with bank, depositors, risks := update s.risks ticker risk }, transferFromVaults v t.settled.payout)

def commissionOf (delta : ℤ) : ℕ := delta.natAbs / 250

/-- What a liquidation books when the position was restored from its owner's balance; what the pledges do not give is a
loss of the pool. -/
def bookRestored (delta : ℤ) (prices : List ℕ) (now : ℕ) : Res (Depositor × Depository) := do
  let (balances, remainder) ← renegeAll d.balances delta.natAbs prices now
  let recovered := asU64 (delta - remainder)
  let depositedQuid ← add d.depositedQuid recovered
  let totalDeposits ← add bank.totalDeposits recovered
  let shortfall := asU64 remainder
  let fromYield := min shortfall bank.yieldPool
  let totalDeposits := totalDeposits - (shortfall - fromYield)
  .ok ({ d with balances, depositedQuid }, { bank with yieldPool := bank.yieldPool - fromYield, totalDeposits })

def bookLiquidation (o : Outcome) (d : Depositor) (bank : Depository) (prices : List ℕ) (now : ℕ) :
    Res (Depositor × Depository) :=
  if o.delta < 0 then do
    let yieldPool ← add bank.yieldPool (o.delta.natAbs - commissionOf o.delta)
    .ok (d, { bank with yieldPool })
  else bookRestored d bank o.delta prices now

def Depositor.touch (now : ℕ) : Res Depositor :=
  if d.opened then d.age now else .ok { d with opened := true }

def creditLiquidator (commission now : ℕ) : Res Depositor := do
  let d ← d.touch now
  let depositedQuid ← add d.depositedQuid commission
  .ok { d with lastUpdated := now, depositedQuid }

def bump (f : Pubkey → Ticker → ℕ) (key : Pubkey) (ticker : Ticker) (n : ℕ) : Pubkey → Ticker → ℕ :=
  update f key (update (f key) ticker (f key ticker + n))

def amortise (after : Actuary) (s : State) (borrower liquidator : Pubkey) (ticker : Ticker)
    (prices : List ℕ) : Res State := do
  let customer := s.depositors borrower
  require .invalidUser customer.opened
  let customer ← customer.age e.now
  let bank ← s.bank.age e.now
  let (customer, o) ← repo e customer bank ticker 0
  require .notUndercollateralised (o.delta ≠ 0)
  let yieldPool ← add o.desk.bank.yieldPool o.interest
  let (customer, bank) ← bookLiquidation o customer { o.desk.bank with yieldPool } prices e.now
  let (risk, bank) := reconcileTickerReserve after (s.risks ticker) bank
  let liq ← creditLiquidator (s.depositors liquidator) (commissionOf o.delta) e.now
  .ok { bank := { bank with totalDeposits := sat (bank.totalDeposits + commissionOf o.delta) }
        depositors := update (update s.depositors borrower customer) liquidator liq
        risks := update s.risks ticker risk
        booked := bump s.booked borrower ticker o.interest
        charged := if borrower = liquidator then s.charged else bump s.charged borrower ticker o.charged }

structure Visit where
  key : Pubkey
  actuary : Actuary
  after : Actuary

structure Sweep where
  bank : Depository
  depositors : Pubkey → Depositor
  risk : TickerRisk
  booked : Pubkey → Ticker → ℕ
  charged : Pubkey → Ticker → ℕ
  commission : ℕ

def Sweep.start (e : Env) (s : State) (ticker : Ticker) : Sweep :=
  let seconds := s.bank.totalDeposits * (e.now - s.bank.lastUpdated)
  let totalDepositSeconds := sat128 (s.bank.totalDepositSeconds + seconds)
  ⟨{ s.bank with totalDepositSeconds, lastUpdated := e.now }, s.depositors, s.risks ticker, s.booked, s.charged, 0⟩

abbrev Sweep.funded (x : Sweep) (e : Env) (ticker : Ticker) (v : Visit) : Depositor × TickerRisk :=
  fundPosition v.actuary e.price (x.depositors v.key) x.risk ticker

abbrev Sweep.crank (x : Sweep) (e : Env) (ticker : Ticker) (v : Visit) : Res (Depositor × Outcome) :=
  repo { e with actuary := v.actuary } (x.funded e ticker v).1 x.bank ticker 0

/-- The cranker's account is read before the sweep and written after it, over whatever the sweep wrote. -/
def Sweep.close (x : Sweep) (e : Env) (s : State) (cranker : Pubkey) (ticker : Ticker) : State :=
  let own := s.depositors cranker
  let own := if own.opened then own else { own with opened := true, lastUpdated := e.now }
  { bank := { x.bank with totalDeposits := sat (x.bank.totalDeposits + x.commission) }
    depositors := update x.depositors cranker
      { own with depositedQuid := sat (own.depositedQuid + x.commission) }
    risks := update s.risks ticker x.risk
    booked := x.booked
    charged := update x.charged cranker (s.charged cranker) }

def breached (ticker : Ticker) : Bool :=
  d.balances.any fun pod => pod.ticker = ticker ∧ pod.breachedAt ≠ 0

def bookSwept (after : Actuary) (o : Outcome) (d : Depositor) (risk : TickerRisk) :
    Depositor × TickerRisk × Depository :=
  let bank := { o.desk.bank with yieldPool := sat (o.desk.bank.yieldPool + o.interest) }
  if o.delta < 0 then
    let credited := o.delta.natAbs - commissionOf o.delta
    let (risk, bank) := reconcileTickerReserve after risk { bank with yieldPool := sat (bank.yieldPool + credited) }
    (d, risk, bank)
  else
    let take := min o.delta.natAbs d.depositedQuid
    ({ d with depositedQuid := d.depositedQuid - take }, risk, { bank with yieldPool := sat (bank.yieldPool + take) })

def sweepOne (ticker : Ticker) (x : Sweep) (v : Visit) : Sweep :=
  if ¬ (x.depositors v.key).opened then x
  else
    let risk := (x.funded e ticker v).2
    match x.crank e ticker v with
    | .error _ => { x with risk }
    | .ok (d, o) =>
      if o.delta ≠ 0 ∨ breached d ticker then
        let (d, risk, bank) := bookSwept v.after o d risk
        { bank
          depositors := update x.depositors v.key d
          risk
          booked := bump x.booked v.key ticker o.interest
          charged := bump x.charged v.key ticker o.charged
          commission := sat (x.commission + commissionOf o.delta) }
      else { x with risk, bank := o.desk.bank }

def handleSweep (cranker : Pubkey) (ticker : Ticker) (visits : List Visit) : State :=
  (visits.foldl (sweepOne e ticker) (Sweep.start e s ticker)).close e s cranker ticker

inductive Instruction
  | handleIn (signer : Pubkey) (amount decimals : ℕ) (ticker : Option Ticker) (now : ℕ)
  | outDollars (v : Vaults) (signer : Pubkey) (amount : ℤ) (fromPledges : Option (List ℕ)) (now : ℕ)
  | outPledge (v : Vaults) (signer : Pubkey) (ticker : Ticker) (amount : ℤ) (price now : ℕ)
  | outTrade (e : Env) (after : Actuary) (v : Vaults) (signer : Pubkey) (ticker : Ticker) (amount : ℤ)
  | amortise (e : Env) (after : Actuary) (borrower liquidator : Pubkey) (ticker : Ticker) (prices : List ℕ)
  | handleSweep (e : Env) (cranker : Pubkey) (ticker : Ticker) (visits : List Visit)

def Instruction.now : Instruction → ℕ
  | .handleIn _ _ _ _ now => now
  | .outDollars _ _ _ _ now => now
  | .outPledge _ _ _ _ _ now => now
  | .outTrade e _ _ _ _ _ => e.now
  | .amortise e _ _ _ _ _ => e.now
  | .handleSweep e _ _ _ => e.now

def exec : Instruction → Res State
  | .handleIn signer amount decimals ticker now => handleIn s signer amount decimals ticker now
  | .outDollars v signer amount fromPledges now => do
    let (s, _) ← handleOutDollars s v signer amount fromPledges now
    .ok s
  | .outPledge v signer ticker amount price now => do
    let (s, _) ← handleOutPledge s v signer ticker amount price now
    .ok s
  | .outTrade e after v signer ticker amount => do
    let (s, _) ← handleOutTrade e after s v signer ticker amount
    .ok s
  | .amortise e after borrower liquidator ticker prices => amortise e after s borrower liquidator ticker prices
  | .handleSweep e cranker ticker visits => .ok (handleSweep e s cranker ticker visits)

def State.empty : State where
  bank := ⟨0, 0, 0, 0, 0, 0, 0, 0, 0⟩
  depositors := fun _ => ⟨false, 0, 0, 0, 0, []⟩
  risks := fun _ => ⟨0, 0⟩
  booked := fun _ _ => 0
  charged := fun _ _ => 0

end QuidProtocol.Stay
