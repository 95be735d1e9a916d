import QuidProtocol.Lib.Checked

/-!
The Solana pool: depositors, the bank behind them, and what is kept for each ticker.
`repo`: a position is repositioned by its owner, or marked, margined and unwound by anyone.
-/

namespace QuidProtocol.Stay

open Lib

inductive Err
  | invalidPrice
  | depositFirst
  | undercollateralised
  | poolAtCapacity
  | invalidAmount
  | invalidParameters
  | invalidUser
  | noPrice
  | unknownSymbol
  | takeProfit
  | maxPositionsReached
  | notUndercollateralised
  | overflow
  deriving DecidableEq

abbrev Res := Except Err

def u64Max : ℕ := 2 ^ 64 - 1

def i64Max : ℕ := 2 ^ 63 - 1

def sat (n : ℕ) : ℕ := min n u64Max

def sat128 (n : ℕ) : ℕ := min n (2 ^ 128 - 1)

def satI64 (x : ℤ) : ℤ := max (-2 ^ 63) (min x (2 ^ 63 - 1))

theorem satI64_of_word {x} (hlower : -2 ^ 63 ≤ x) (hupper : x < 2 ^ 63) : satI64 x = x := by
  unfold satI64
  omega

def asI64 (n : ℕ) : ℤ := if n < 2 ^ 63 then n else n - 2 ^ 64

def asU64 (x : ℤ) : ℕ := (x % 2 ^ 64).toNat

def add (a b : ℕ) : Res ℕ := checkedAdd .overflow 64 a b

def add128 (a b : ℕ) : Res ℕ := checkedAdd .overflow 128 a b

def sub (a b : ℕ) : Res ℕ := checkedSub .overflow a b

def mul (a b : ℕ) : Res ℕ := checkedMul .overflow 64 a b

def mul128 (a b : ℕ) : Res ℕ := checkedMul .overflow 128 a b

def bps : ℕ := 10000

def secondsPerYear : ℕ := 31536000

def liqGraceSecs : ℕ := 3600

def minTrancheBps : ℕ := 25

def maxTrancheBps : ℕ := 185

def trancheRampGraces : ℕ := 42

def redemptionMaxMarginBps : ℕ := 20000

def priceScale : ℕ := 10 ^ 6

def maxLen : ℕ := 50

def unitsValue (units price : ℕ) : ℕ := sat (sat128 (units * price) / priceScale)

def unitsValueI (units : ℤ) (price : ℕ) : ℤ := satI64 ((units * price).tdiv priceScale)

def valueUnits (dollars price : ℕ) : ℕ := if price = 0 then 0 else sat (dollars * priceScale / price)

structure Pubkey where
  word : Fin (2 ^ 256)
  deriving DecidableEq

instance finitePubkey : Finite Pubkey := Finite.of_injective Pubkey.word fun _ _ h => congrArg Pubkey.mk h

noncomputable instance fintypePubkey : Fintype Pubkey := Fintype.ofFinite Pubkey

instance (n : ℕ) : OfNat Pubkey n := ⟨⟨Fin.ofNat (2 ^ 256) n⟩⟩

abbrev Ticker := ℕ

structure Stock where
  ticker : Ticker
  pledged : ℕ
  exposure : ℤ
  updated : ℕ
  collarBps : ℕ
  premiumCheckpoint : ℕ
  fundingCheckpoint : ℤ
  marked : ℕ
  breachedAt : ℕ
  deriving DecidableEq

structure Depository where
  lastUpdated : ℕ
  totalDeposits : ℕ
  totalDepositSeconds : ℕ
  totalDrawn : ℕ
  yieldPool : ℕ
  maxLiability : ℕ
  paperInTransit : ℕ
  unwindDemand : ℕ
  paperBacked : ℕ

structure Depositor where
  opened : Bool
  depositedQuid : ℕ
  depositSeconds : ℕ
  lastUpdated : ℕ
  drawn : ℕ
  balances : List Stock

structure TickerRisk where
  fundingPot : ℕ
  reserved : ℕ

structure LossProfile where
  marginBps : ℤ
  triggerBps : ℤ
  premiumBps : ℤ

/-- The answers of the risk engine in the state in which a call finds it. -/
structure Actuary where
  netExposure : ℤ
  premiumIndex : ℕ
  fundingIndex : ℤ
  collarBps : ℤ → ℕ
  lossProfile : ℤ → ℤ → LossProfile
  hazardRateBps : ℤ → ℕ → ℤ → ℕ → ℕ → ℤ
  maxLeveragePct : ℕ → ℤ → ℤ
  feeBps : ℤ → ℤ → ℤ → ℤ → ℤ → ℕ

namespace Stock

def valueAt (pod : Stock) (price : ℕ) : ℕ := unitsValue pod.exposure.natAbs price

def excursion (pod : Stock) (now : ℕ) : Stock × ℕ :=
  let breachedAt := if pod.breachedAt = 0 then now else pod.breachedAt
  ({ pod with breachedAt }, now - breachedAt)

def mark (pod : Stock) : ℕ := if pod.marked = 0 then pod.pledged else pod.marked

end Stock

def drawnBy (drawn : ℕ) (change : ℤ) : ℕ := if 0 < change then sat (drawn + change.natAbs) else drawn - change.natAbs

namespace Depository

variable (bank : Depository)

def utilisation (change : ℤ) : Depository :=
  { bank with totalDrawn := drawnBy bank.totalDrawn change }

def utilisationBps : ℤ :=
  if bank.totalDeposits = 0 then 0 else asI64 (bank.totalDrawn * bps / bank.totalDeposits % 2 ^ 64)

def hasCapacity (additionalCollar : ℕ) : Bool :=
  bank.totalDeposits ≠ 0 ∧ sat (bank.maxLiability + additionalCollar) ≤ bank.totalDeposits

def withdrawable : ℕ :=
  sat (bank.totalDeposits + bank.yieldPool) - bank.maxLiability - bank.paperInTransit

def unwindableReserve : ℕ := bank.maxLiability - bank.paperBacked

def deferRedemption (unmet : ℕ) : Depository :=
  { bank with unwindDemand := min (sat (bank.unwindDemand + unmet)) bank.unwindableReserve }

def redemptionMarginBps : ℕ :=
  let reachable := bank.unwindableReserve
  if bank.unwindDemand = 0 ∨ reachable = 0 then bps
  else bps + min (bank.unwindDemand * bps / reachable) bps * (redemptionMaxMarginBps - bps) / bps

end Depository

def collarNotional (exposureValue pledged : ℕ) : ℕ := max exposureValue pledged

def leveragePct (exposureValue pledged : ℕ) : ℤ :=
  if 0 < pledged then (min (exposureValue * 100 / pledged) i64Max : ℕ)
  else if 0 < exposureValue then (i64Max : ℕ) else 100

structure LiabilityUpdate where
  oldCollarDollars : ℕ
  newCollarBps : ℕ
  newCollarDollars : ℕ

def LiabilityUpdate.compute (oldExposure oldCollarBps newExposure newPledged : ℕ) (actuary : Actuary) :
    LiabilityUpdate :=
  let newCollar := actuary.collarBps (leveragePct newExposure newPledged)
  { oldCollarDollars := sat (oldExposure * oldCollarBps) / bps
    newCollarBps := newCollar % 2 ^ 16
    newCollarDollars := sat (collarNotional newExposure newPledged * newCollar) / bps }

def premiumDue (exposureValue : ℕ) (positionRateBps : ℤ) (dt baseBpsSeconds pledged : ℕ) : ℕ × ℕ :=
  let bpsSeconds := sat128 (baseBpsSeconds + sat128 (positionRateBps.toNat * dt))
  if bpsSeconds = 0 ∨ exposureValue = 0 then (0, dt)
  else
    let accrued := sat (sat128 (exposureValue * bpsSeconds) / (secondsPerYear * bps))
    if accrued ≤ pledged then (accrued, dt)
    else (pledged, min (pledged * dt / max accrued 1) dt)

def collarAmount (pod : Stock) (price : ℕ) : ℕ :=
  let mark := if pod.marked = 0 then collarNotional (pod.valueAt price) pod.pledged else pod.marked
  if 0 < pod.collarBps then sat (mark * pod.collarBps) / bps else mark / 10

def trancheSize (size excursion : ℕ) (utilBps : ℤ) : ℕ :=
  let speedBps := 5000 + 15000 * (max 1000 (min utilBps 10000)).toNat / 10000
  let past := excursion - liqGraceSecs
  let climbed := min (past * 10000 / (liqGraceSecs * trancheRampGraces)) 10000
  let fracBps := minTrancheBps + (maxTrancheBps - minTrancheBps) * climbed / 10000
  let fracBps := max minTrancheBps (min (fracBps * speedBps / 10000) maxTrancheBps)
  max (size * fracBps / 10000) 1

def fundingOwed (index signedValue checkpoint : ℤ) : ℤ :=
  if signedValue = 0 ∨ index - checkpoint = 0 then 0
  else satI64 ((-(signedValue * (index - checkpoint))).tdiv (bps * secondsPerYear))

def tickerReserveDollars (netValue : ℕ) (actuary : Actuary) : ℕ :=
  sat (netValue * (actuary.lossProfile 0 0).marginBps.toNat / bps)

def reconcileTickerReserve (actuary : Actuary) (risk : TickerRisk) (bank : Depository) : TickerRisk × Depository :=
  let target := tickerReserveDollars actuary.netExposure.natAbs actuary
  let maxLiability := sat (bank.maxLiability - risk.reserved + target)
  ({ risk with reserved := target },
    { bank with maxLiability, unwindDemand := bank.unwindDemand - (bank.maxLiability - maxLiability) })

def podOf (balances : List Stock) (ticker : Ticker) : Option Stock := balances.find? fun pod => pod.ticker = ticker

def putPod (ticker : Ticker) (new : Stock) : List Stock → List Stock
  | [] => []
  | pod :: rest => if pod.ticker = ticker then new :: rest else pod :: putPod ticker new rest

def pledgedIn (balances : List Stock) (ticker : Ticker) : ℕ := ((podOf balances ticker).map Stock.pledged).getD 0

def settleFunding (actuary : Actuary) (price : ℕ) (pod : Stock) (pot : ℕ) : Stock × ℕ :=
  let owed := fundingOwed actuary.fundingIndex (unitsValueI pod.exposure price) pod.fundingCheckpoint
  let pod := { pod with fundingCheckpoint := actuary.fundingIndex }
  if 0 < owed then
    let pay := min owed.natAbs pot
    ({ pod with pledged := sat (pod.pledged + pay) }, pot - pay)
  else if owed < 0 then
    let take := min owed.natAbs pod.pledged
    ({ pod with pledged := pod.pledged - take }, sat (pot + take))
  else (pod, pot)

structure Env where
  price : ℕ
  now : ℕ
  slot : ℕ
  actuary : Actuary

structure Desk where
  pod : Stock
  depositedQuid : ℕ
  drawn : ℕ
  bank : Depository

variable (e : Env) (k : Desk) (q : Quote)

def Desk.draw (change : ℤ) : Desk :=
  { k with drawn := drawnBy k.drawn change, bank := k.bank.utilisation change }

structure Tranche where
  units : ℕ
  unwoundValue : ℕ
  sliceMark : ℕ
  slicePledge : ℕ
  consumed : ℕ
  retained : ℕ

structure Outcome where
  desk : Desk
  delta : ℤ
  interest : ℕ
  charged : ℕ := 0
  tranche : Option Tranche := none

structure Quote where
  oldValue : ℕ
  reducing : Bool
  mark : ℕ
  bandBps : ℕ
  requiredBps : ℕ
  collarAmt : ℕ
  triggerAmt : ℕ
  accrued : ℕ
  billedSecs : ℕ
  utilBps : ℤ
  maxLev : ℤ

def distanceBps (oldValue mark collarAmt : ℕ) : ℤ :=
  if 0 < oldValue then
    let toUpper := sat (mark + collarAmt) - oldValue
    let toLower := oldValue - (mark - collarAmt)
    (min (min toUpper toLower * bps / oldValue) i64Max : ℕ)
  else 10000

def quote (amount : ℤ) : Quote :=
  let pod := k.pod
  let oldValue := pod.valueAt e.price
  let collar := e.actuary.collarBps (leveragePct oldValue pod.pledged)
  let notional : ℤ := if pod.exposure < 0 then -asI64 oldValue else asI64 oldValue
  let profile := e.actuary.lossProfile notional e.actuary.netExposure
  let bandBps := (max 1 (min profile.marginBps 10000)).toNat
  let trigBps := (max 1 (min profile.triggerBps bandBps)).toNat
  let collarAmt := sat (pod.mark * bandBps / bps)
  let rate := satI64 (profile.premiumBps + e.actuary.hazardRateBps (distanceBps oldValue pod.mark collarAmt) collar
    amount k.bank.totalDeposits k.bank.maxLiability)
  let due := premiumDue oldValue rate (e.now - pod.updated) (e.actuary.premiumIndex - pod.premiumCheckpoint)
    pod.pledged
  { oldValue
    reducing := amount ≠ 0 ∧ pod.exposure ≠ 0 ∧ (amount < 0 ↔ 0 < pod.exposure)
    mark := pod.mark
    bandBps
    requiredBps := max 1 (min (bandBps * k.bank.redemptionMarginBps / bps) bps)
    collarAmt
    triggerAmt := sat (pod.mark * trigBps / bps)
    accrued := due.1
    billedSecs := due.2
    utilBps := max 1000 (min k.bank.utilisationBps 10000)
    maxLev := e.actuary.maxLeveragePct e.slot k.bank.utilisationBps }

def breach (pod : Stock) (price : ℕ) : ℕ :=
  let value := pod.valueAt price
  let collar := collarAmount pod price
  let upper := sat (pod.mark + collar)
  let lower := pod.mark - collar
  if upper < value then value - upper else if value < lower then lower - value else 0

def unwound (pod : Stock) (units : ℕ) : ℤ := satI64 (pod.exposure - pod.exposure.sign * asI64 units)

def trancheOf (pod : Stock) (price excursion : ℕ) (utilBps : ℤ) : Tranche :=
  let size := pod.exposure.natAbs
  let units := min (max (trancheSize size excursion utilBps) (valueUnits (breach pod price) price)) size
  let before := max (sat ((unwound pod units).natAbs + units)) 1
  let unwoundValue := unitsValue units price
  let sliceMark : ℕ := pod.mark * units / before % 2 ^ 64
  let slicePledge : ℕ := pod.pledged * units / before % 2 ^ 64
  let pnl := ((unwoundValue : ℤ) - sliceMark) * (if 0 < pod.exposure then 1 else -1)
  let consumed := if pnl < 0 then min (pnl.natAbs % 2 ^ 64) slicePledge else 0
  { units, unwoundValue, sliceMark, slicePledge, consumed, retained := slicePledge - consumed }

def amortiseTranche (excursion : ℕ) (utilBps : ℤ) (oldValue time : ℕ) : Desk × ℤ :=
  let pod := k.pod
  let t := trancheOf pod e.price excursion utilBps
  let exposure := unwound pod t.units
  let pledged := pod.pledged - t.consumed
  let closed : Bool := exposure = 0
  let lelu := LiabilityUpdate.compute oldValue pod.collarBps (unitsValue exposure.natAbs e.price) pledged e.actuary
  ({ k with
      pod := { pod with
        exposure
        pledged
        marked := if closed then 0 else pod.marked - min t.sliceMark pod.marked
        breachedAt := if closed then 0 else pod.breachedAt + liqGraceSecs
        updated := time
        collarBps := lelu.newCollarBps } },
    -(min (t.unwoundValue - t.retained) i64Max : ℕ))

def unwindATranche (time : ℕ) : Outcome :=
  let (pod, excursion) := k.pod.excursion e.now
  let k := { k with pod }
  if excursion ≤ liqGraceSecs then { desk := k, delta := 0, interest := q.accrued }
  else
    let (k', dollars) := amortiseTranche e k excursion q.utilBps q.oldValue time
    { desk := k'.draw dollars
      delta := dollars
      interest := q.accrued
      tranche := some (trancheOf k.pod e.price excursion q.utilBps) }

def postVariationMargin (oldValue exposure excess time : ℕ) : Res (Option (Desk × ℕ)) :=
  let gross := sat (excess + excess / 250)
  if k.depositedQuid < gross then .ok none
  else
    let pod := k.pod
    let net := gross - gross / 250
    let mtm := ((exposure : ℤ) - pod.mark) * (if 0 ≤ pod.exposure then 1 else -1)
    let pledged := sat (pod.pledged + net + mtm : ℤ).toNat
    let lelu := LiabilityUpdate.compute oldValue pod.collarBps exposure pledged e.actuary
    do
      require .poolAtCapacity (k.bank.hasCapacity (lelu.newCollarDollars - lelu.oldCollarDollars))
      .ok (some ({ k with
        depositedQuid := k.depositedQuid - gross
        pod := { pod with pledged, marked := exposure, breachedAt := 0, updated := time,
                          collarBps := lelu.newCollarBps } }, gross))

def reinstateExposure (oldValue exposure gap time : ℕ) (byOwner : Bool) : Res (Option (Desk × ℕ)) :=
  let gross := sat (gap + gap / 250)
  if ¬ byOwner ∨ k.depositedQuid < gross ∨ e.price = 0 then .ok none
  else
    let pod := k.pod
    let net := gross - gross / 250
    let lelu := LiabilityUpdate.compute oldValue pod.collarBps (sat (exposure + net)) pod.pledged e.actuary
    let units := asI64 (valueUnits net e.price)
    do
      require .poolAtCapacity (k.bank.hasCapacity (lelu.newCollarDollars - lelu.oldCollarDollars))
      .ok (some ({ k with
        depositedQuid := k.depositedQuid - gross
        pod := { pod with exposure := satI64 (pod.exposure + (if pod.exposure < 0 then -units else units))
                          marked := sat (pod.marked + net), breachedAt := 0, updated := time,
                          collarBps := lelu.newCollarBps } }, gross))

def proRata (v closedValue positionValue : ℕ) : ℕ := min (sat128 (v * closedValue) / max positionValue 1) v

structure PartialClose where
  desk : Desk
  released : ℕ
  interestOnClosed : ℕ

def settlePartialClose (oldValue closedValue positionValue time accrued : ℕ) : PartialClose :=
  let pod := k.pod
  let released := proRata pod.pledged closedValue positionValue
  let pledged := pod.pledged - released
  let marked := if pod.exposure = 0 then 0 else pod.marked - proRata pod.marked closedValue positionValue
  let lelu := LiabilityUpdate.compute oldValue pod.collarBps (pod.valueAt e.price) pledged e.actuary
  { desk := { k with pod := { pod with pledged, marked, updated := time, collarBps := lelu.newCollarBps } }
    released
    interestOnClosed := proRata accrued closedValue positionValue }

def clearBreach (value : ℕ) : Desk :=
  if value ≤ sat (q.mark + q.collarAmt) ∧ q.mark - q.collarAmt ≤ value then
    { k with pod := { k.pod with breachedAt := 0 } }
  else k

def fundMargin (bandBps newValue : ℕ) : Desk × ℕ × ℕ :=
  let required := sat (sat128 (newValue * bandBps) / bps)
  if k.pod.pledged < required then
    let short := required - k.pod.pledged
    if short ≤ k.depositedQuid then
      ({ k with depositedQuid := k.depositedQuid - short
                pod := { k.pod with pledged := sat (k.pod.pledged + short) } }, short, 0)
    else
      let affordable := sat (sat128 (sat (k.pod.pledged + k.depositedQuid) * bps) / max bandBps 1)
      let excess := newValue - affordable
      let shed := asI64 (valueUnits excess e.price)
      let exposure := satI64 (if 0 < k.pod.exposure then k.pod.exposure - shed else k.pod.exposure + shed)
      let need := sat (sat128 (unitsValue exposure.natAbs e.price * bandBps) / bps)
      let top := min (need - k.pod.pledged) k.depositedQuid
      ({ k with depositedQuid := k.depositedQuid - top
                pod := { k.pod with exposure, pledged := sat (k.pod.pledged + top) } }, top, excess)
  else (k, 0, 0)

def remark (hadMark : Bool) (marked finalValue oldValue : ℕ) : ℕ :=
  if hadMark then ((marked : ℤ) + finalValue - oldValue).toNat % 2 ^ 64 else finalValue

def sellLong (amount : ℤ) (time : ℕ) : Outcome :=
  let ordered := satI64 (k.pod.exposure + amount)
  let amount := if ordered < 0 then satI64 (amount + satI64 (-ordered)) else amount
  let exposure := max ordered 0
  let redeem := unitsValue amount.natAbs e.price
  let mark := k.pod.mark
  if exposure = 0 then
    let pledged := k.pod.pledged
    let total := ((pledged : ℤ) + (redeem - mark) - q.accrued).toNat % 2 ^ 64
    let lelu := LiabilityUpdate.compute q.oldValue k.pod.collarBps 0 0 e.actuary
    let k := { k with pod := { k.pod with exposure, pledged := 0, marked := 0, updated := time,
                                          collarBps := lelu.newCollarBps } }
    { desk := k.draw (-(min redeem i64Max : ℕ)), delta := -asI64 (total - pledged), interest := total }
  else
    let basis : ℕ := sat128 (mark * redeem) / max q.oldValue 1 % 2 ^ 64
    let c := settlePartialClose e { k with pod := { k.pod with exposure } } q.oldValue redeem q.oldValue time q.accrued
    let credit := ((c.released : ℤ) + redeem - basis - c.interestOnClosed).toNat % 2 ^ 64
    { desk := c.desk.draw (-asI64 redeem), delta := asI64 (sat (c.released + q.accrued)), interest := credit }

def buyLong (amount : ℤ) (time : ℕ) : Res Outcome := do
  let exposure := satI64 (k.pod.exposure + amount)
  let newValue := unitsValue exposure.natAbs e.price
  require .undercollateralised (leveragePct newValue k.pod.pledged ≤ q.maxLev)
  let (k, taken, _) := fundMargin e { k with pod := { k.pod with exposure } } q.bandBps newValue
  let finalValue := k.pod.valueAt e.price
  let marked := remark (k.pod.marked ≠ 0) k.pod.marked finalValue q.oldValue
  let lelu := LiabilityUpdate.compute q.oldValue k.pod.collarBps finalValue k.pod.pledged e.actuary
  require .poolAtCapacity (k.bank.hasCapacity (lelu.newCollarDollars - lelu.oldCollarDollars))
  let k := { k with pod := { k.pod with marked, updated := time, collarBps := lelu.newCollarBps } }
  .ok { desk := k.draw (satI64 (finalValue - q.oldValue)), delta := asI64 taken, interest := q.accrued }

def restore (amount : ℤ) (exposure excess time : ℕ) : Res Outcome := do
  match ← postVariationMargin e k q.oldValue exposure excess time with
  | some (k, gross) => .ok { desk := k.draw (asI64 gross), delta := asI64 gross, interest := q.accrued }
  | none => if amount ≠ 0 then .error .undercollateralised else .ok (unwindATranche e k q time)

def repoLong (amount : ℤ) (time : ℕ) : Res Outcome :=
  let value := q.oldValue
  let upper := sat (q.mark + q.collarAmt)
  let lower := q.mark - q.triggerAmt
  if upper < value ∧ ¬ q.reducing then restore e k q amount value (value - upper) time
  else if value < lower ∧ 0 < value ∧ ¬ q.reducing then do
    match ← reinstateExposure e k q.oldValue value (lower - value - q.collarAmt) time (amount ≠ 0) with
    | some (k, drained) => .ok { desk := k.draw (asI64 drained), delta := 0, interest := q.accrued }
    | none => if amount = 0 then .ok (unwindATranche e k q time) else .error .undercollateralised
  else do
    let k := clearBreach k q value
    require .invalidAmount (amount ≠ 0)
    if amount < 0 then .ok (sellLong e k q amount time) else buyLong e k q amount time

def coverShort (amount : ℤ) (value time : ℕ) : Outcome :=
  let ordered := satI64 (k.pod.exposure + amount)
  let amount := if 0 < ordered then satI64 (amount - ordered) else amount
  let redeem := unitsValue amount.natAbs e.price
  let mark := k.pod.mark
  let c := settlePartialClose e { k with pod := { k.pod with exposure := min ordered 0 } } q.oldValue redeem value
    time q.accrued
  let share : ℕ := sat128 (mark * redeem) / max value 1 % 2 ^ 64
  let credit := ((c.released : ℤ) + share - redeem).toNat % 2 ^ 64
  { desk := c.desk.draw (-asI64 redeem), delta := asI64 (sat (c.released + q.accrued)), interest := credit }

def issueShort (amount : ℤ) : Res Desk :=
  if amount < 0 then do
    let exposure := satI64 (k.pod.exposure + amount)
    let newValue := unitsValue exposure.natAbs e.price
    require .undercollateralised (leveragePct newValue k.pod.pledged ≤ q.maxLev)
    let (k, _, shed) := fundMargin e { k with pod := { k.pod with exposure } } q.bandBps newValue
    .ok { k with bank := k.bank.utilisation (-(min shed i64Max : ℕ)) }
  else .ok { k with pod := { k.pod with exposure := satI64 (k.pod.exposure + amount) } }

def markShort (hadMark : Bool) (time : ℕ) : Outcome :=
  let finalValue := k.pod.valueAt e.price
  let marked := remark hadMark k.pod.marked finalValue q.oldValue
  let lelu := LiabilityUpdate.compute q.oldValue k.pod.collarBps finalValue k.pod.pledged e.actuary
  let k := { k with pod := { k.pod with marked, updated := time, collarBps := lelu.newCollarBps } }
  { desk := k.draw (satI64 (finalValue - q.oldValue)), delta := 0, interest := q.accrued }

def repoShort (amount : ℤ) (time : ℕ) : Res Outcome :=
  let value := unitsValue k.pod.exposure.natAbs e.price
  let pivot := q.mark - q.collarAmt
  let upper := sat (q.mark + q.triggerAmt)
  if value ≤ pivot ∧ 0 < value ∧ ¬ q.reducing then restore e k q amount value (pivot - value) time
  else if pivot < value ∨ value = 0 then
    if upper < value ∧ ¬ q.reducing then restore e k q amount value (value - upper) time
    else
      let k := clearBreach k q value
      if 0 < amount ∧ 0 < value then .ok (coverShort e k q amount value time)
      else do
        let hadMark : Bool := k.pod.marked ≠ 0
        let k ← issueShort e k q amount
        .ok (markShort e k q hadMark time)
  else .ok { desk := k, delta := 0, interest := 0 }

def marginCalled (amount : ℤ) : Bool :=
  amount = 0 ∧ 0 < k.bank.unwindDemand ∧ k.pod.pledged < q.oldValue * q.requiredBps / bps ∧ 0 < q.oldValue

def repoPod (amount : ℤ) : Res Outcome :=
  let q := quote e k amount
  let k := { k with pod := { k.pod with premiumCheckpoint := e.actuary.premiumIndex } }
  if marginCalled k q amount then .ok (unwindATranche e k q e.now)
  else
    let time := min (k.pod.updated + q.billedSecs) e.now
    let k := { k with pod := { k.pod with pledged := k.pod.pledged - q.accrued } }
    let o := if 0 < k.pod.exposure ∨ (k.pod.exposure = 0 ∧ 0 < amount) then repoLong e k q amount time
      else repoShort e k q amount time
    o.map fun o => { o with charged := q.accrued }

def Depositor.settle (d : Depositor) (ticker : Ticker) (k : Desk) : Depositor :=
  { d with depositedQuid := k.depositedQuid, drawn := k.drawn, balances := putPod ticker k.pod d.balances }

def repo (d : Depositor) (bank : Depository) (ticker : Ticker) (amount : ℤ) : Res (Depositor × Outcome) := do
  require .invalidPrice (0 < e.price)
  let pod ← found .depositFirst (podOf d.balances ticker)
  let o ← repoPod e ⟨pod, d.depositedQuid, d.drawn, bank⟩ amount
  .ok (d.settle ticker o.desk, o)

end QuidProtocol.Stay
