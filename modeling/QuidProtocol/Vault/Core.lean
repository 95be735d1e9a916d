import QuidProtocol.Basket.Types

/-!
`Core.sol` of the BTC range: the pool, what the basket has lent to it, and pending proceeds.
`Vault.sol` with `BtcLib`, `RangeLib` and the swap bodies of `SwapLib`.
-/

namespace QuidProtocol.Vault

open Lib Function
open Basket (Address)

inductive Err
  | panic
  | fullMulDivFailed
  | noAnchor
  | backing
  | overCommitted
  | underBacked
  | outside
  | zeroTwap
  | badTarget
  | insufficientChannelBtc
  | noBtcPosition
  | noBtcRecipient
  | stableMissing
  | swapInShort
  | swapInDrainsProceeds
  | swapOutShort
  | slippageMax
  | deleverStableUnavailable
  | levManagerPinned
  | wrongRangeManager
  deriving DecidableEq

abbrev Res := Except Err

def wad : ℕ := 10 ^ 18

def add (a b : ℕ) : Res ℕ := checkedAdd .panic 256 a b

def sub (a b : ℕ) : Res ℕ := checkedSub .panic a b

def mul (a b : ℕ) : Res ℕ := checkedMul .panic 256 a b

def fullMulDiv (a b d : ℕ) : Res ℕ := do
  require .fullMulDivFailed (d ≠ 0 ∧ a * b / d < 2 ^ 256)
  .ok (a * b / d)

def int256 (x : ℕ) : ℤ := (x : ℤ).bmod (2 ^ 256)

def neg (x : ℤ) : Res ℤ := do
  require .panic (x ≠ -2 ^ 255)
  .ok (-x)

structure Core where
  basketUsd : ℕ
  pooledUsd : ℕ
  pooled : ℕ
  pendingSwapOutUsd : ℕ
  feesRetained : ℕ
  retainedNativeFee : ℕ
  rangeAnchor : ℕ
  committedOf : ℕ

structure Deposits where
  total : ℕ
  depegLoss : ℕ

structure DeleverAmt where
  stable : Address
  amtNative : ℕ

/-- The answers of one transaction: of the price feed, of `Aux`, of the basket and of the leverage manager. `none` and
`false` are calls that revert. -/
structure Env where
  self : Address
  price : ℕ
  stale : Bool
  getDeposits : Core → Deposits
  committedElsewhere : ℕ
  levDebtUsd18 : Core → ℕ
  take : Core → Address → ℕ → Address → Option ℕ
  deposit : Address → Address → ℕ → Option ℕ
  consumeVolInput : Address → ℕ → Option ℕ
  refundExcess : Address → ℕ → Bool
  hasBtcRecipient : Address → Bool
  decimals : Address → ℕ
  toIndex : Address → ℕ
  mint : Address → ℕ → Bool
  oracleKeyMatches : Address → Bool
  grossCollateral : Address → ℕ
  netEquity : Address → ℕ
  debtUsd : Address → ℕ
  swapOutDeleverAmt : Address → ℕ → Option DeleverAmt
  heldUsd18 : Address → ℕ
  toUsd18 : Address → ℕ → ℕ
  takeToSettle : Address → ℕ → Option ℕ
  swapOutDelever : Address → ℕ → ℕ → Bool

variable (env : Env)

def assetPrice : Res ℕ := do
  require .noAnchor (env.price ≠ 0)
  .ok env.price

variable (c : Core)

def rangeEquityUsd18 : Res ℕ := do
  let pooled18 ← mul c.basketUsd (10 ^ 12)
  .ok (pooled18 - env.levDebtUsd18 c)

def reportEquity : Res Core := do
  let equity ← rangeEquityUsd18 env c
  .ok { c with committedOf := equity }

def committedUsd18 : Res ℕ := add env.committedElsewhere c.committedOf

def poolUsdIn (usdAmount : ℕ) (basketLeg : Bool) : Res Core := do
  let d := env.getDeposits c
  let haircutTvl := d.total - d.depegLoss
  let pooledUsd ← add c.pooledUsd usdAmount
  let basketUsd ← add c.basketUsd (if basketLeg then usdAmount else 0)
  let c ← reportEquity env { c with pooledUsd, basketUsd }
  let committed ← committedUsd18 env c
  require .backing (committed ≤ haircutTvl)
  .ok c

def poolUsdOut (usdAmount : ℕ) : Res Core :=
  reportEquity env { c with pooledUsd := c.pooledUsd - usdAmount, basketUsd := c.basketUsd - usdAmount }

def from6 (amount6 : ℕ) (token : Address) : Res ℕ :=
  let d := env.decimals token
  if 6 ≤ d then mul amount6 (10 ^ (d - 6)) else .ok (amount6 / 10 ^ (6 - d))

def returnUnpaid (usdAmount want sent : ℕ) (basketLeg : Bool) : Res Core :=
  if want ≠ 0 ∧ sent < want then poolUsdIn env c (usdAmount - usdAmount * sent / want) basketLeg
  else .ok c

def payUsd (usdAmount : ℕ) (keep : Bool) (who token : Address) (basketLeg : Bool) : Res Core :=
  if keep = false ∧ token ≠ 0 then do
    let want ← from6 env usdAmount token
    let sent ← found .outside (env.take c who want token)
    returnUnpaid env c usdAmount want sent basketLeg
  else .ok c

def settleUsdSide (usdDelta : ℤ) (keep : Bool) (who token : Address) (basketLeg : Bool) : Res Core :=
  if 0 < usdDelta then do
    let c ← poolUsdOut env c usdDelta.toNat
    payUsd env c usdDelta.toNat keep who token basketLeg
  else if usdDelta < 0 then do
    let amount ← neg usdDelta
    poolUsdIn env c amount.toNat basketLeg
  else .ok c

def settleVolSide (tokDelta : ℤ) : Res Core :=
  if 0 < tokDelta then .ok { c with pooled := c.pooled - tokDelta.toNat }
  else if tokDelta < 0 then do
    let amount ← neg tokDelta
    let pooled ← add c.pooled amount.toNat
    .ok { c with pooled }
  else .ok c

structure Delta where
  usd : ℤ
  vol : ℤ

def handleDelta (d : Delta) (keep : Bool) (who token : Address) (basketLeg : Bool) : Res Core := do
  let c ← settleUsdSide env c d.usd keep who token basketLeg
  settleVolSide c d.vol

def modLP (delta deltaUSD : ℤ) (sender : Address) : Res Core :=
  handleDelta env c ⟨deltaUSD, delta⟩ (deltaUSD = 0) sender 0 true

def drawPooledUsdBtc (usd6 : ℕ) : Res Core := do
  let pooledUsd ← sub c.pooledUsd usd6
  .ok { c with pooledUsd }

def addPendingSwapOut (usd6 : ℕ) : Res Core := do
  let pendingSwapOutUsd ← add c.pendingSwapOutUsd usd6
  .ok { c with pendingSwapOutUsd }

def subPendingSwapOut (usd6 : ℕ) : Res Core := do
  let pendingSwapOutUsd ← sub c.pendingSwapOutUsd usd6
  .ok { c with pendingSwapOutUsd }

def convert (amount price : ℕ) (toVol : Bool) : Res ℕ := do
  if toVol then
    let amount18 ← mul amount (10 ^ 12)
    fullMulDiv amount18 (10 ^ 18) price
  else
    let usd18 ← fullMulDiv amount price (10 ^ 18)
    .ok (usd18 / 10 ^ 12)

def fillAmounts (held amount px : ℕ) (inputIsUsd : Bool) : Res (ℕ × ℕ) := do
  let out ← convert amount px inputIsUsd
  if held < out then
    let amount ← convert held px (!inputIsUsd)
    .ok (amount, held)
  else .ok (amount, out)

def fillDelta (inputIsUsd : Bool) (amount px : ℕ) : Res (Delta × ℕ) := do
  let (amount, out) ← fillAmounts (if inputIsUsd then c.pooled else c.pooledUsd) amount px inputIsUsd
  let given ← neg (int256 amount)
  .ok (if inputIsUsd then ⟨given, int256 out⟩ else ⟨int256 out, given⟩, out)

def swap (recipient : Address) (inputIsUsd : Bool) (token : Address) (amount : ℕ) : Res (ℕ × Core) := do
  let px ← assetPrice env
  let (delta, out) ← fillDelta c inputIsUsd amount px
  let c ← handleDelta env c delta false recipient token false
  .ok (out, c)

def refundUnfilled (token : Address) (amount : ℕ) (dest : Address) : Res Unit :=
  if amount ≠ 0 ∧ dest ≠ 0 then do
    let _ ← found .outside (env.take c dest amount token)
    .ok ()
  else .ok ()

def settleOor (owner : Address) (usdDelta volDelta : ℤ) : Res Core :=
  handleDelta env c ⟨usdDelta, volDelta⟩ false owner 0 false

def absorbPaidUsd (lpOwned6 : ℕ) : Core := { c with basketUsd := c.pooledUsd - lpOwned6 }

def recordFeeCore (premiumUsd premiumNative : ℕ) : Res Core := do
  let retainedNativeFee ← add c.retainedNativeFee premiumNative
  if premiumUsd = 0 then .ok { c with retainedNativeFee }
  else do
    let feesRetained ← add c.feesRetained premiumUsd
    let pooledUsd ← add c.pooledUsd premiumUsd
    .ok { c with retainedNativeFee, feesRetained, pooledUsd }

def repackCore (anchorPrice : ℕ) : Core := { c with rangeAnchor := anchorPrice }

structure Deposit where
  pooled : ℕ
  usdOwed : ℕ
  feesUsd : ℕ

structure State where
  core : Core
  autoManaged : Address → Deposit
  lpShares : ℕ
  usdFees : ℕ
  levPooled : Address → ℕ
  levBuf : Address → ℕ
  levBufferUsd : Address → ℕ
  totalBuffer : ℕ
  rangeAnchor : ℕ
  levManager : Address

def State.setDeposit (v : State) (lp : Address) (d : Deposit) : State :=
  { v with autoManaged := update v.autoManaged lp d }

def btcBacking (v : State) : Res ℕ := add v.lpShares v.totalBuffer

def plainNet (pooled lev : ℕ) : ℕ := pooled - lev

def rangeOf (v : State) (lp : Address) : ℕ := plainNet (v.autoManaged lp).pooled (v.levPooled lp)

def rangeDelta : ℕ := 200

def reseatMinBps : ℕ := 50

def minSwapSkewWad : ℕ := 420000000000000

def updateBounds (price delta : ℕ) : Res (ℕ × ℕ) := do
  let lower ← mul price (10000 - delta)
  let upper ← mul price (10000 + delta)
  .ok (lower / 10000, upper / 10000)

def isManipulated (spot twap thresholdBps : ℕ) : Res Bool := do
  let dev := if twap < spot then spot - twap else twap - spot
  let scaled ← mul dev 10000
  let threshold ← mul twap thresholdBps
  .ok (threshold < scaled)

section

variable (env : Env)

variable (v : State) (c : Core) (d : Deposit)

def repackIfHeld (anchorPrice : ℕ) : Core := if 0 < c.pooled then repackCore c anchorPrice else c

def reseatIfStale (spot twap : ℕ) : Res (Option Core) :=
  if env.stale = false ∨ spot = 0 ∨ twap = 0 then .ok none
  else do
    let manipulated ← isManipulated spot twap reseatMinBps
    if manipulated = false ∨ twap = spot then .ok none
    else do
      let _ ← updateBounds twap rangeDelta
      .ok (some (repackIfHeld c twap))

def repackOutOfBounds (spot twap lo hi : ℕ) : Res Core :=
  if hi ≤ spot ∨ spot < lo then do
    let manipulated ← isManipulated spot twap 300
    if manipulated then .ok c
    else do
      let _ ← updateBounds spot rangeDelta
      .ok (repackIfHeld c spot)
  else .ok c

def rebalance : Res (ℕ × State) := do
  let (lo, hi) ← updateBounds v.rangeAnchor rangeDelta
  let spot ← assetPrice env
  let twap := env.price
  let reseated ← reseatIfStale env v.core spot twap
  match reseated with
  | some c => .ok (twap, { v with core := c, rangeAnchor := twap })
  | none => do
    let c ← repackOutOfBounds v.core spot twap lo hi
    .ok (twap, { v with core := c, rangeAnchor := spot })

def refreshBookmarks (weight usdAccum : ℕ) : Res Deposit := do
  let feesUsd ← fullMulDiv weight usdAccum wad
  .ok { d with feesUsd }

def pendingFor (weight feePerShareUsd : ℕ) : Res ℕ :=
  if weight = 0 then .ok 0
  else do
    let usdOwed ← fullMulDiv weight feePerShareUsd wad
    .ok (usdOwed - d.feesUsd)

def mintUsd (dest : Address) (usd6 : ℕ) : Res Unit :=
  if usd6 = 0 then .ok ()
  else do
    let amount ← mul usd6 (10 ^ 12)
    require .outside (env.mint dest amount)

def payFees (payTo : Address) (usdR : ℕ) : Res Deposit :=
  if payTo ≠ 0 then do
    let usd ← add usdR d.usdOwed
    mintUsd env payTo usd
    .ok { d with usdOwed := 0 }
  else do
    let usdOwed ← add d.usdOwed usdR
    .ok { d with usdOwed }

def settleBtcLp (payTo : Address) (usdFees weight : ℕ) : Res Deposit :=
  if weight = 0 then .ok d
  else do
    let usdR ← pendingFor d weight usdFees
    let d ← payFees env d payTo usdR
    refreshBookmarks d weight usdFees

def settleLp (lp payTo : Address) : Res State := do
  let weight ← add (v.autoManaged lp).pooled (v.levBuf lp)
  let d ← settleBtcLp env (v.autoManaged lp) payTo v.usdFees weight
  .ok (v.setDeposit lp d)

def rebook (lp : Address) : Res State := do
  let weight ← add (v.autoManaged lp).pooled (v.levBuf lp)
  let d ← refreshBookmarks (v.autoManaged lp) weight v.usdFees
  .ok (v.setDeposit lp d)

def addPooled (lp : Address) (amount : ℕ) : Res State := do
  let pooled ← add (v.autoManaged lp).pooled amount
  rebook (v.setDeposit lp { v.autoManaged lp with pooled }) lp

def pairLegs (deltaTok deltaUSD : ℕ) (lp : Address) : Res State := do
  let tok ← neg (int256 deltaTok)
  let usd ← neg (int256 deltaUSD)
  let core ← modLP env v.core tok usd lp
  .ok { v with core }

def sizeBySurplus (liquidTotal committedBoth deltaTok price : ℕ) : Res (ℕ × ℕ) := do
  let surplus := liquidTotal - committedBoth
  let targetUSD ← fullMulDiv deltaTok price wad
  if surplus < targetUSD then do
    let deltaOut ← fullMulDiv surplus wad price
    .ok (deltaOut, surplus)
  else .ok (deltaTok, targetUSD)

def clampByBacking (backing pooled want : ℕ) : ℕ := min want (backing - pooled)

def clampTarget (deltaTok targetUSD capped price : ℕ) : Res ℕ :=
  if capped < deltaTok then fullMulDiv capped price wad else .ok targetUSD

def addLiqBody (want price backing : ℕ) : Res (ℕ × ℕ) := do
  let committed ← committedUsd18 env c
  let liquid := (env.getDeposits c).total
  if liquid ≤ committed then .ok (0, 0)
  else do
    let (deltaTok, targetUSD) ← sizeBySurplus liquid committed want price
    let capped := clampByBacking backing c.pooled deltaTok
    let targetUSD ← clampTarget deltaTok targetUSD capped price
    if targetUSD / 10 ^ 12 = 0 then .ok (0, 0) else .ok (targetUSD / 10 ^ 12, capped)

def addLiqChannel (sats price : ℕ) : Res (ℕ × ℕ) := do
  let held ← btcBacking v
  let backing ← add held sats
  addLiqBody env v.core sats price backing

def pairRegLeg (lp : Address) (deltaBTC deltaUSD : ℕ) : Res State :=
  if deltaBTC = 0 then .ok v
  else do
    let v ← addPooled v lp deltaBTC
    pairLegs env v deltaBTC deltaUSD lp

def addUnpaired (lp : Address) (unpaired : ℕ) : Res State :=
  if unpaired = 0 then .ok v else addPooled v lp unpaired

def checkBacking : Res Unit := do
  let committed ← committedUsd18 env c
  require .overCommitted (committed ≤ (env.getDeposits c).total)

def requestDeposit (lpEth : Address) (sats : ℕ) : Res State :=
  if sats = 0 ∨ lpEth = 0 then .ok v
  else do
    checkBacking env v.core
    let (_, v) ← rebalance env v
    let v ← settleLp env v lpEth 0
    let price ← assetPrice env
    let (deltaUSD, deltaBTC) ← addLiqChannel env v sats price
    let v ← pairRegLeg env v lpEth deltaBTC deltaUSD
    let unpaired ← sub sats deltaBTC
    let v ← addUnpaired v lpEth unpaired
    let lpShares ← add v.lpShares (deltaBTC + unpaired)
    .ok { v with lpShares }

structure LevDelta where
  net : ℕ
  buf : ℕ

/-- The dollars that leave with a levered position. Nothing bounds them by what the basket has lent,
as `burnInRange` does. -/
def levBurnUsd (lp : Address) (grossRem : ℕ) : Res ℕ :=
  if v.core.pooled = 0 then .ok (v.levBufferUsd lp)
  else fullMulDiv v.core.basketUsd grossRem v.core.pooled

def levBurnAll (lp : Address) : Res (LevDelta × State) := do
  let d := v.autoManaged lp
  let netRem := min (v.levPooled lp) d.pooled
  let bufBurned := v.levBuf lp
  let grossRem ← add netRem bufBurned
  if grossRem = 0 then
    .ok (⟨0, 0⟩, { v with levBufferUsd := update v.levBufferUsd lp 0 })
  else do
    let usdOut ← levBurnUsd v lp grossRem
    let core ← modLP env v.core (int256 grossRem) (int256 usdOut) 0
    let v := { v with
      core
      levPooled := update v.levPooled lp (v.levPooled lp - netRem)
      levBuf := update v.levBuf lp 0
      levBufferUsd := update v.levBufferUsd lp 0 }
    let v ← rebook (v.setDeposit lp { d with pooled := d.pooled - netRem }) lp
    .ok (⟨netRem, bufBurned⟩, v)

def levAddNet (lp : Address) (netEq price : ℕ) : Res (ℕ × State) :=
  if netEq = 0 then .ok (0, v)
  else do
    let (netUsd, netTok) ← addLiqChannel env v netEq price
    if netTok = 0 then .ok (0, v)
    else do
      let v ← addPooled v lp netTok
      let lev ← add (v.levPooled lp) netTok
      let v ← pairLegs env { v with levPooled := update v.levPooled lp lev } netTok netUsd lp
      .ok (netTok, v)

def capBufferUsd (bufBase price debtUsd : ℕ) : Res ℕ := do
  let gross ← mul bufBase price
  .ok (min (gross / wad / 10 ^ 12) (debtUsd / 10 ^ 12))

def levAddBuf (lp : Address) (bufTok price : ℕ) : Res (ℕ × State) := do
  let bufUsd ← capBufferUsd bufTok price (env.debtUsd lp)
  if bufUsd = 0 then .ok (0, v)
  else do
    let buf ← add (v.levBuf lp) bufTok
    let usd ← add (v.levBufferUsd lp) bufUsd
    let v ← rebook { v with
      levBuf := update v.levBuf lp buf
      levBufferUsd := update v.levBufferUsd lp usd } lp
    let v ← pairLegs env v bufTok bufUsd lp
    .ok (bufTok, v)

def levAddBufOver (lp : Address) (gross netEq price : ℕ) : Res (ℕ × State) :=
  if netEq < gross then levAddBuf env v lp (gross - netEq) price else .ok (0, v)

def levAddGross (lp : Address) (gross : ℕ) : Res (LevDelta × State) :=
  if gross = 0 then .ok (⟨0, 0⟩, v)
  else do
    let price ← assetPrice env
    let netEq := env.netEquity lp
    let (net, v) ← levAddNet env v lp netEq price
    let (buf, v) ← levAddBufOver env v lp gross netEq price
    .ok (⟨net, buf⟩, v)

def applyDeltas (added burned : LevDelta) : Res State := do
  let grownShares ← add v.lpShares added.net
  let lpShares ← sub grownShares burned.net
  let grownBuffer ← add v.totalBuffer added.buf
  let totalBuffer ← sub grownBuffer burned.buf
  .ok { v with lpShares, totalBuffer }

def resyncLev (lp : Address) (gross : ℕ) : Res State := do
  let (_, v) ← rebalance env v
  let v ← settleLp env v lp 0
  let (burned, v) ← levBurnAll env v lp
  let (added, v) ← levAddGross env v lp gross
  applyDeltas v added burned

def levGross (lp : Address) : ℕ := if v.levManager = 0 then 0 else env.grossCollateral lp

def bufTarget (lp : Address) : ℕ := if v.levManager = 0 then 0 else env.debtUsd lp / 10 ^ 12

def levSyncState (lp : Address) : Res Bool :=
  if levGross env v lp = 0 ∧ v.levPooled lp = 0 ∧ v.levBuf lp = 0 ∧ v.levBufferUsd lp = 0 then .ok true
  else do
    let held ← add (v.levPooled lp) (v.levBuf lp)
    .ok (levGross env v lp = held ∧ v.levBufferUsd lp = bufTarget env v lp)

def syncLev (lp : Address) : Res State := do
  let inSync ← levSyncState env v lp
  if inSync then .ok v else resyncLev env v lp (levGross env v lp)

end

variable (env : Env)

variable (c : Core) (v : State) (a : ResizeArgs)

def burnInRange (amount : ℕ) : Res Core :=
  let pulled := min amount c.pooled
  if pulled = 0 then .ok c
  else do
    let _ ← assetPrice env
    let usdOut ← fullMulDiv c.basketUsd pulled c.pooled
    modLP env c (int256 pulled) (int256 usdOut) 0

def drawDelivered (lpEth : Address) (draw : ℕ) : Res Core :=
  if draw = 0 then .ok c
  else do
    let c ← drawPooledUsdBtc c draw
    let c ← subPendingSwapOut c draw
    mintUsd env lpEth draw
    .ok c

def settleDelivered (lpEth : Address) (deliveredRaw exactUsd delevUsd : ℕ) : Res (ℕ × Core) :=
  if exactUsd = 0 then .ok (0, c)
  else do
    let draw ← sub exactUsd delevUsd
    let c ← drawDelivered env c lpEth draw
    .ok (deliveredRaw, c)

structure ResizeArgs where
  lpEth : Address
  shrinkSats : ℕ
  lpPayoutSats : ℕ
  full : Bool
  exactUsd : ℕ
  delevUsd : ℕ

def burnLevered : Res Core :=
  if a.full then do
    let c ← burnInRange env v.core (v.levPooled a.lpEth)
    burnInRange env c (v.levBuf a.lpEth)
  else .ok v.core

def clearLevered : State :=
  if a.full then
    { v with
      levPooled := Function.update v.levPooled a.lpEth 0
      levBuf := Function.update v.levBuf a.lpEth 0 }
  else v

def finishDeposit (d : Deposit) (pooled buf usdFees : ℕ) : Res Deposit :=
  if pooled = 0 then .ok ⟨0, 0, 0⟩
  else do
    let weight ← add pooled buf
    refreshBookmarks { d with pooled } weight usdFees

def resetFees (cleared : Bool) : State :=
  if cleared ∧ v.lpShares = 0 ∧ v.totalBuffer = 0 then { v with usdFees := 0 } else v

def resizeBtcLpTail : Res State := do
  let v ← settleLp env v a.lpEth a.lpEth
  let deliveredRaw := a.shrinkSats - a.lpPayoutSats
  let (deliveredSlice, core) ← settleDelivered env v.core a.lpEth deliveredRaw a.exactUsd a.delevUsd
  let nativeSlice ← sub a.shrinkSats deliveredSlice
  let core ← burnInRange env core nativeSlice
  let core ← burnLevered env { v with core } a
  let d := v.autoManaged a.lpEth
  let buf := v.levBuf a.lpEth
  let sharesRemoved := if a.full then d.pooled else a.shrinkSats
  let pooled ← sub d.pooled sharesRemoved
  let d ← finishDeposit d pooled buf v.usdFees
  let lpShares ← sub v.lpShares sharesRemoved
  let totalBuffer ← sub v.totalBuffer (if a.full then buf else 0)
  let v := clearLevered ({ v with core, lpShares, totalBuffer }.setDeposit a.lpEth d) a
  .ok (resetFees v (pooled = 0))

def resizeBody : Res State :=
  let funded := rangeOf v a.lpEth
  if funded = 0 ∧ v.levPooled a.lpEth = 0 ∧ v.levBuf a.lpEth = 0 then .ok v
  else if a.full = false ∧ a.shrinkSats = 0 then .ok v
  else do
    let (_, v) ← rebalance env v
    resizeBtcLpTail env v { a with shrinkSats := if a.full then funded else min a.shrinkSats funded }

def sourceRepayFree (lp : Address) (want wantUsd6 exactUsd6 : ℕ) : Res (ℕ × Core) := do
  let wantUsd18 ← mul wantUsd6 (10 ^ 12)
  match env.swapOutDeleverAmt lp wantUsd18 with
  | none => .ok (0, c)
  | some amt => do
    let d := env.getDeposits c
    let committed ← committedUsd18 env c
    let headroom := (d.total - d.depegLoss) - committed
    let takeUsd18 := min (min (env.toUsd18 amt.stable amt.amtNative) (env.heldUsd18 amt.stable)) headroom
    if takeUsd18 = 0 then do
      require .deleverStableUnavailable (amt.amtNative = 0)
      require .outside (env.swapOutDelever lp 0 want)
      .ok (0, c)
    else do
      let padded ← add takeUsd18 (10 ^ 12 - 1)
      let deLeverUsd6 := min (padded / 10 ^ 12) exactUsd6
      let c ← drawPooledUsdBtc c deLeverUsd6
      let c ← subPendingSwapOut c deLeverUsd6
      let got ← found .outside (env.takeToSettle amt.stable takeUsd18)
      require .deleverStableUnavailable (got ≠ 0 ∨ amt.amtNative = 0)
      require .outside (env.swapOutDelever lp (env.toUsd18 amt.stable got) want)
      .ok (deLeverUsd6, c)

def deleverOnDelivery (lp : Address) (shrinkSats lpPayoutSats exactUsd6 : ℕ) : Res (ℕ × Core) :=
  let lev := v.levPooled lp
  let funded := rangeOf v lp
  let deliveredRaw := shrinkSats - lpPayoutSats
  if lev = 0 ∨ shrinkSats ≤ funded ∨ deliveredRaw = 0 then .ok (0, v.core)
  else do
    let want := min (shrinkSats - funded) lev
    let scaled ← mul exactUsd6 want
    if scaled / deliveredRaw = 0 then .ok (0, v.core)
    else sourceRepayFree env v.core lp want (scaled / deliveredRaw) exactUsd6

def deleverFirst (lp : Address) (shrinkSats lpPayoutSats : ℕ) (full : Bool) (exactUsd : ℕ) : Res (ℕ × Core) :=
  if full = false ∧ 0 < exactUsd ∧ v.levManager ≠ 0 then
    deleverOnDelivery env v lp shrinkSats lpPayoutSats exactUsd
  else .ok (0, v.core)

def resizeLp (lpEth : Address) (shrinkSats lpPayoutSats : ℕ) (full : Bool) (exactUsd : ℕ) : Res State := do
  let v ← syncLev env v lpEth
  let (delevUsd, core) ← deleverFirst env v lpEth shrinkSats lpPayoutSats full exactUsd
  resizeBody env { v with core } ⟨lpEth, shrinkSats, lpPayoutSats, full, exactUsd, delevUsd⟩

def requestRedeem (lpEth : Address) (lpPayoutSats : ℕ) : Res State :=
  resizeLp env v lpEth 0 lpPayoutSats true 0

def resize (lpEth : Address) (shrinkSats lpPayoutSats exactUsd : ℕ) : Res State :=
  resizeLp env v lpEth shrinkSats lpPayoutSats false exactUsd

def settleReceiver (lp : Address) : Res State :=
  if 0 < (v.autoManaged lp).pooled then settleLp env v lp 0 else .ok v

def moveShares (source dest : Address) (amount : ℕ) : Res State := do
  let left ← sub (v.autoManaged source).pooled amount
  let v := v.setDeposit source { v.autoManaged source with pooled := left }
  let grown ← add (v.autoManaged dest).pooled amount
  let v := v.setDeposit dest { v.autoManaged dest with pooled := grown }
  let v ← rebook v source
  rebook v dest

def transferSharesBody (source dest : Address) (amount : ℕ) : Res State := do
  require .badTarget (dest ≠ 0 ∧ source ≠ dest)
  if amount = 0 then .ok v
  else do
    let v ← settleLp env v source 0
    let v ← settleReceiver env v dest
    moveShares v source dest amount

def rebalanceFor (amount : ℕ) : Res State :=
  if 0 < amount then do
    let (_, v) ← rebalance env v
    .ok v
  else .ok v

def transferShares (source dest : Address) (amount : ℕ) : Res State := do
  let v ← rebalanceFor env v amount
  require .insufficientChannelBtc (amount ≤ rangeOf v source)
  transferSharesBody env v source dest amount

def collect (lp : Address) : Res State := do
  let (_, v) ← rebalance env v
  let v ← syncLev env v lp
  settleLp env v lp lp

def collectFees (sender : Address) : Res State := do
  require .noBtcPosition ((v.autoManaged sender).pooled ≠ 0)
  collect env v sender

def compound (lp : Address) : Res State :=
  if (v.autoManaged lp).pooled = 0 then .ok v else collect env v lp

def setLevManager (m : Address) : Res State := do
  require .levManagerPinned (v.levManager = 0)
  require .wrongRangeManager (env.oracleKeyMatches m)
  .ok { v with levManager := m }

def feeIncrements (usdFees totalShares : ℕ) : Res ℕ :=
  if totalShares = 0 then .ok 0 else fullMulDiv usdFees wad totalShares

def recordFee (premiumUsd premiumNative : ℕ) : Res State := do
  let retainedNativeFee ← add v.core.retainedNativeFee premiumNative
  if premiumUsd = 0 then .ok { v with core := { v.core with retainedNativeFee } }
  else do
    let feesRetained ← add v.core.feesRetained premiumUsd
    let shares ← btcBacking v
    let usdInc ← feeIncrements premiumUsd shares
    let usdFees ← add v.usdFees usdInc
    let pooledUsd ← add v.core.pooledUsd premiumUsd
    .ok { v with usdFees, core := { v.core with retainedNativeFee, feesRetained, pooledUsd } }

def retainNative (sats px : ℕ) : Res (ℕ × State) := do
  let premium ← fullMulDiv sats minSwapSkewWad (10 ^ 18)
  let premiumUsd ← fullMulDiv premium px (10 ^ 30)
  let v ← recordFee v premiumUsd premium
  .ok (sats - premium, v)

def retainUsd (amount : ℕ) : Res (ℕ × State) := do
  let premium ← fullMulDiv amount minSwapSkewWad (10 ^ 18)
  let v ← recordFee v premium 0
  .ok (amount - premium, v)

def routeSwap (recipient : Address) (inputIsUsd : Bool) (token : Address)
    (amount pooled fillPrice : ℕ) : Res (ℕ × ℕ × Core) := do
  let most ← convert pooled fillPrice (token ≠ 0)
  let consumed := min amount most
  if consumed = 0 then .ok (0, 0, c)
  else do
    let (out, c) ← swap env c recipient inputIsUsd token consumed
    .ok (out, consumed, c)

def creditSwapIn (seller : Address) (sats : ℕ) (token : Address) (minDeliveredUsd : ℕ) : Res (ℕ × State) :=
  if sats = 0 then .ok (0, v)
  else do
    require .stableMissing (env.toIndex token ≠ 0)
    let (px, v) ← rebalance env v
    let pooled := v.core.pooledUsd
    let (amount, v) ← retainNative v sats px
    let (deliveredUsd, consumed, core) ← routeSwap env v.core seller false token amount pooled px
    require .swapInShort (minDeliveredUsd ≤ deliveredUsd)
    require .swapInDrainsProceeds (core.pendingSwapOutUsd ≤ core.pooledUsd)
    .ok (consumed + (sats - amount), { v with core })

def scaleTo6 (amount : ℕ) (token : Address) : Res ℕ :=
  let d := env.decimals token
  if 6 ≤ d then .ok (amount / 10 ^ (d - 6)) else mul amount (10 ^ (6 - d))

def creditSwapOut (swapper token : Address) (usdAmount minSats : ℕ) : Res (ℕ × ℕ × State) :=
  if usdAmount = 0 then .ok (0, 0, v)
  else do
    require .stableMissing (env.toIndex token ≠ 0)
    let deposited ← found .outside (env.deposit swapper token usdAmount)
    let amount6 ← scaleTo6 env deposited token
    let (px, v) ← rebalance env v
    let pooled := v.core.pooled
    let (amount, v) ← retainUsd v amount6
    let (sats, consumed, core) ← routeSwap env v.core env.self true 0 amount pooled px
    refundUnfilled env core token (amount - consumed) swapper
    require .swapOutShort (minSats ≤ sats)
    .ok (sats, min amount consumed, { v with core })

def swapTo (token : Address) (amount minOut : ℕ) (recipient : Address) : Res State := do
  require .noBtcRecipient (env.hasBtcRecipient recipient)
  let (px, v) ← rebalance env v
  let committed ← committedUsd18 env v.core
  require .underBacked (committed ≤ (env.getDeposits v.core).total)
  let pooled := v.core.pooled
  let amount6 ← found .outside (env.consumeVolInput token amount)
  let (amount, v) ← retainUsd v amount6
  let (out, consumed, core) ← routeSwap env v.core recipient true 0 amount pooled px
  require .slippageMax (out ≠ 0 ∧ minOut ≤ out)
  require .outside (env.refundExcess token (amount - consumed))
  .ok { v with core }

inductive PublicCall
  | transferShares (source dest : Address) (amount : ℕ)
  | syncLev (lp : Address)
  | collectFees (sender : Address)
  | compound (lp : Address)
  | setLevManager (m : Address)
  | repack
  | swapTo (token : Address) (amount minOut : ℕ) (recipient : Address)

def execPublic : PublicCall → Res State
  | .transferShares source dest amount => transferShares env v source dest amount
  | .syncLev lp => syncLev env v lp
  | .collectFees sender => collectFees env v sender
  | .compound lp => compound env v lp
  | .setLevManager m => setLevManager env v m
  | .repack => rebalanceFor env v 1
  | .swapTo token amount minOut recipient => swapTo env v token amount minOut recipient

inductive Call
  | anyone (c : PublicCall)
  | requestDeposit (lpEth : Address) (sats : ℕ)
  | requestRedeem (lpEth : Address) (lpPayoutSats : ℕ)
  | resize (lpEth : Address) (shrinkSats lpPayoutSats exactUsd : ℕ)
  | creditSwapIn (seller : Address) (sats : ℕ) (token : Address) (minDeliveredUsd : ℕ)
  | creditSwapOut (swapper token : Address) (usdAmount minSats : ℕ)
  | addPendingSwapOut (usd6 : ℕ)
  | subPendingSwapOut (usd6 : ℕ)

def exec : Call → Res State
  | .anyone c => execPublic env v c
  | .requestDeposit lpEth sats => requestDeposit env v lpEth sats
  | .requestRedeem lpEth lpPayoutSats => requestRedeem env v lpEth lpPayoutSats
  | .resize lpEth shrinkSats lpPayoutSats exactUsd =>
    resize env v lpEth shrinkSats lpPayoutSats exactUsd
  | .creditSwapIn seller sats token minDeliveredUsd => do
    let (_, v) ← creditSwapIn env v seller sats token minDeliveredUsd
    .ok v
  | .creditSwapOut swapper token usdAmount minSats => do
    let (_, _, v) ← creditSwapOut env v swapper token usdAmount minSats
    .ok v
  | .addPendingSwapOut usd6 => do
    let core ← addPendingSwapOut v.core usd6
    .ok { v with core }
  | .subPendingSwapOut usd6 => do
    let core ← subPendingSwapOut v.core usd6
    .ok { v with core }

def step (c : Env × Call) : Res State := exec c.1 v c.2

def deployed (priceWad : ℕ) : State where
  core := ⟨0, 0, 0, 0, 0, 0, 0, 0⟩
  autoManaged _ := ⟨0, 0, 0⟩
  lpShares := 0
  usdFees := 0
  levPooled _ := 0
  levBuf _ := 0
  levBufferUsd _ := 0
  totalBuffer := 0
  rangeAnchor := priceWad
  levManager := 0

def quietEnv : Env where
  self := 1
  price := 10 ^ 33
  stale := false
  getDeposits _ := ⟨10 ^ 24, 0⟩
  committedElsewhere := 0
  levDebtUsd18 _ := 0
  take _ _ amount _ := some amount
  deposit _ _ amount := some amount
  consumeVolInput _ amount := some amount
  refundExcess _ _ := true
  hasBtcRecipient _ := true
  decimals _ := 6
  toIndex _ := 1
  mint _ _ := true
  oracleKeyMatches _ := true
  grossCollateral _ := 0
  netEquity _ := 0
  debtUsd _ := 0
  swapOutDeleverAmt _ _ := none
  heldUsd18 _ := 0
  toUsd18 _ amount := amount
  takeToSettle _ amount := some amount
  swapOutDelever _ _ _ := true

end QuidProtocol.Vault
