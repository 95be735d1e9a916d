import QuidProtocol.Vault.Core

/-!
`Quid.sol` with `QuidLib` and `RangeLib`: the range of the ether LPs, with the swaps and redemptions that come by way
of `Aux`.
-/

namespace QuidProtocol.Quid

open Lib Function
open Basket (Address)
open Vault (Core Deposit LevDelta)

inductive Err
  | vault (e : Vault.Err)
  | overflow
  | underflow
  | outside
  | noPosition
  | tooSoon
  | zeroTwap
  | ethSend
  | venueUnavailable
  | receiver
  | toZero
  | self
  | insufficientBalance
  | badReturn
  | intentExpired
  | intentUsed
  | intentBadSig
  | intentNotCrossed
  | intentUnfunded
  | intentUnfillable
  | intentUnpayable
  | partialFillNotConsented
  | stableMissing
  | underBacked
  | slippageMax
  deriving DecidableEq

abbrev Res := Except Err

def add (a b : ℕ) : Res ℕ := checkedAdd .overflow 256 a b

def sub (a b : ℕ) : Res ℕ := checkedSub .underflow a b

def mul (a b : ℕ) : Res ℕ := checkedMul .overflow 256 a b

def shared {α : Type} (x : Vault.Res α) : Res α := x.mapError .vault

def fullMulDiv (a b d : ℕ) : Res ℕ := shared (Vault.fullMulDiv a b d)

/-- `feesPaid` is not a variable of the contract. It counts the dollars minted as fees, by the account
that had earned them. -/
structure State extends Vault.State where
  totalLevPooled : ℕ
  lastDepositBlock : Address → ℕ
  intentUsed : Address → ℕ → Bool
  feesPaid : Address → ℕ

def State.setDeposit (q : State) (lp : Address) (d : Deposit) : State := { q with toState := q.toState.setDeposit lp d }

structure OorIntent where
  owner : Address
  buyVolatile : Bool
  size : ℕ
  limitPx : ℕ
  expiry : ℕ
  nonce : ℕ
  loadBalance : Bool
  payoutToken : Address

structure Purse where
  balance : ℕ
  weth : ℕ
  rangeOp : ℕ → ℕ
  deleverEthOnDelivery : ℕ → ℕ
  accepts : Bool

/-- What ether.fi and its curve pool answer. `sellWeeth` is zero for a sale that fails, and
`requestWithdraw` false for a withdrawal that ether.fi does not take. -/
structure EtherFi where
  wired : Bool
  weethByEeth : ℕ → ℕ
  weethBalance : ℕ
  curveBalance : Option ℕ
  sellWeeth : ℕ → ℕ → ℕ
  requestWithdraw : ℕ → Bool

structure Payment where
  msgValue : ℕ
  allowance : ℕ
  balance : ℕ
  placed : Bool

/-- The answers of one transaction. `closeLevFor` has the answers once the manager has closed the
position of the sender, or is `none` where it cannot. -/
structure Env extends Vault.Env where
  quid : Address
  blockNumber : ℕ
  timestamp : ℕ
  payment : Payment
  rangeETH : Core → ℕ
  deliverableETH : Core → ℕ
  totalNetEquity : Option ℕ
  purse : Core → Purse
  etherFi : EtherFi
  closeLevFor : Option Vault.Env
  signed : OorIntent → Bool
  spendClaim : Address → ℕ → Option ℕ
  convertShortfall : OorIntent → ℕ → Option ℕ
  depositVol : Address → ℕ → Option ℕ

def Env.closed (env : Env) : Env := { env with toEnv := env.closeLevFor.getD env.toEnv }

def creditShares (q : State) (lp : Address) (amount : ℕ) : Res State := do
  let pooled ← add (q.autoManaged lp).pooled amount
  let lpShares ← add q.lpShares amount
  .ok { q.setDeposit lp { q.autoManaged lp with pooled } with lpShares }

def debitShares (q : State) (lp : Address) (amount : ℕ) : Res State := do
  let pooled ← sub (q.autoManaged lp).pooled amount
  let lpShares ← sub q.lpShares amount
  .ok { q.setDeposit lp { q.autoManaged lp with pooled } with lpShares }

def refreshBookmarks (q : State) (lp : Address) : Res State := do
  let v ← shared (Vault.rebook q.toState lp)
  .ok { q with toState := v }

def pendingRewards (q : State) (lp : Address) : Res ℕ := do
  let weight ← add (q.autoManaged lp).pooled (q.levBuf lp)
  shared (Vault.pendingFor (q.autoManaged lp) weight q.usdFees)

section

variable (env : Env)

variable (q : State) (v : Vault.State)

def rebalance : Res State := do
  let (_, v) ← shared (Vault.rebalance env.toEnv q.toState)
  .ok { q with toState := v }

def payFees (lp mintRecipient : Address) (usd6 : ℕ) : Res State := do
  shared (Vault.mintUsd env.toEnv mintRecipient usd6)
  .ok { q.setDeposit lp { q.autoManaged lp with usdOwed := 0 } with
    feesPaid := update q.feesPaid lp (q.feesPaid lp + usd6) }

def settlePending (lp mintRecipient : Address) : Res State :=
  if (q.autoManaged lp).pooled = 0 then .ok q
  else do
    let usdR ← pendingRewards q lp
    if mintRecipient ≠ 0 then do
      let usdR ← add usdR (q.autoManaged lp).usdOwed
      payFees env q lp mintRecipient usdR
    else do
      let usdOwed ← add (q.autoManaged lp).usdOwed usdR
      .ok (q.setDeposit lp { q.autoManaged lp with usdOwed })

def clearRecord (lp : Address) : Res State := do
  let totalBuffer ← sub q.totalBuffer (q.levBuf lp)
  .ok { q.setDeposit lp ⟨0, 0, 0⟩ with levBuf := update q.levBuf lp 0, totalBuffer }

def restartIfEmpty : State :=
  if q.lpShares = 0 ∧ q.totalBuffer = 0 then { q with usdFees := 0, totalLevPooled := 0 } else q

def onExit (lp : Address) : Res State :=
  if (q.autoManaged lp).pooled = 0 then do
    let q ← clearRecord q lp
    .ok (restartIfEmpty q)
  else refreshBookmarks q lp

def addLiq (deltaTok price : ℕ) : Res (ℕ × ℕ) := do
  let backing ← add (env.rangeETH v.core) v.totalBuffer
  shared (Vault.addLiqBody env.toEnv v.core deltaTok price backing)

def levAddNet (lp : Address) (netEq price : ℕ) : Res (ℕ × Vault.State) :=
  if netEq = 0 then .ok (0, v)
  else do
    let (netUsd, netTok) ← addLiq env v netEq price
    if netTok = 0 then .ok (0, v)
    else do
      let v ← shared (Vault.addPooled v lp netTok)
      let lev ← add (v.levPooled lp) netTok
      let v ← shared (Vault.pairLegs env.toEnv
        { v with levPooled := update v.levPooled lp lev } netTok netUsd lp)
      .ok (netTok, v)

def levAddGross (lp : Address) (gross : ℕ) : Res (LevDelta × Vault.State) :=
  if gross = 0 then .ok (⟨0, 0⟩, v)
  else do
    let price ← shared (Vault.assetPrice env.toEnv)
    let netEq := env.netEquity lp
    let (net, v) ← levAddNet env v lp netEq price
    let (buf, v) ← shared (Vault.levAddBufOver env.toEnv v lp gross netEq price)
    .ok (⟨net, buf⟩, v)

def levBurnHeld (lp : Address) : Res (LevDelta × Vault.State) :=
  if 0 < v.levPooled lp ∨ 0 < v.levBuf lp then shared (Vault.levBurnAll env.toEnv v lp)
  else .ok (⟨0, 0⟩, v)

/-- `QuidLib.reconcileLegs`, what it adds first. `_doReconcile` does not set `p.usdFees`, so the legs put
the bookmark at zero. -/
def reconcileLegs (lp : Address) (gross : ℕ) : Res (LevDelta × LevDelta × Vault.State) := do
  let (burned, w) ← levBurnHeld env { v with usdFees := 0 } lp
  let (added, w) ← levAddGross env w lp gross
  .ok (added, burned, { w with usdFees := v.usdFees })

def relever (lp : Address) (gross : ℕ) : Res State := do
  let (added, burned, v) ← reconcileLegs env q.toState lp gross
  let v ← shared (Vault.applyDeltas v added burned)
  let grown ← add q.totalLevPooled added.net
  let totalLevPooled ← sub grown burned.net
  .ok { q with toState := v, totalLevPooled }

def doReconcile (lp : Address) (gross : ℕ) : Res State := do
  let q ← rebalance env q
  let q ← settlePending env q lp 0
  let q ← relever env q lp gross
  onExit q lp

def reconcileLev (lp : Address) : Res State := do
  let inSync ← shared (Vault.levSyncState env.toEnv q.toState lp)
  if inSync then .ok q else doReconcile env q lp (Vault.levGross env.toEnv q.toState lp)

def depositETH (amount : ℕ) : Res ℕ := do
  let rest := amount - env.payment.msgValue
  let sent ← add env.payment.msgValue (min rest (min env.payment.allowance env.payment.balance))
  require .venueUnavailable (sent = 0 ∨ env.payment.placed)
  .ok sent

def bookShares (lp : Address) (amount : ℕ) : Res State :=
  if amount = 0 then .ok q
  else do
    let q ← creditShares q lp amount
    refreshBookmarks q lp

def modLpEth (deltaETH deltaUSD : ℕ) (pledge : Address) : Res State :=
  if deltaETH = 0 then .ok q
  else do
    let v ← shared (Vault.pairLegs env.toEnv q.toState deltaETH deltaUSD pledge)
    .ok { q with toState := v }

def placeDeposit (pledge : Address) (amount price : ℕ) : Res State :=
  if amount = 0 then .ok q
  else do
    let q ← settlePending env q pledge 0
    let (deltaUSD, deltaETH) ← addLiq env q.toState amount price
    let q ← bookShares q pledge deltaETH
    let q ← modLpEth env q deltaETH deltaUSD pledge
    let unpaired ← sub amount deltaETH
    bookShares q pledge unpaired

def depositImpl (amount : ℕ) (pledge : Address) : Res State := do
  let q := { q with lastDepositBlock := update q.lastDepositBlock pledge env.blockNumber }
  shared (Vault.checkBacking env.toEnv q.core)
  let price ← shared (Vault.assetPrice env.toEnv)
  if amount = 0 ∧ env.payment.msgValue = 0 then .ok q
  else do
    let q ← rebalance env q
    let amount ← depositETH env amount
    placeDeposit env q pledge amount price

def deposit (assets : ℕ) (receiver : Address) : Res State := do
  require .receiver (receiver ≠ 0)
  depositImpl env q assets receiver

end

variable (env : Env)

def drawWeth (levManager : Address) (p : Purse) (needed : ℕ) : Res ℕ :=
  if needed ≤ p.weth then .ok p.weth
  else do
    let inWETH ← add p.weth (p.rangeOp (needed - p.weth))
    if needed ≤ inWETH ∨ levManager = 0 then .ok inWETH
    else do
      let _ ← shared (Vault.assetPrice env.toEnv)
      add inWETH (p.deleverEthOnDelivery (needed - inWETH))

def sendEth (levManager : Address) (c : Core) (howMuch : ℕ) : Res ℕ :=
  let p := env.purse c
  if howMuch ≤ p.balance then do
    require .ethSend p.accepts
    .ok howMuch
  else do
    let needed := howMuch - p.balance
    let inWETH ← drawWeth env levManager p needed
    require .ethSend p.accepts
    .ok (min inWETH needed + p.balance)

variable (q : State) (i : OorIntent)

def deliverVolatile (amount : ℤ) (who : Address) : Res Unit :=
  if 0 < amount ∧ who ≠ 0 then do
    let _ ← sendEth env q.levManager q.core amount.toNat
    .ok ()
  else .ok ()

def burnInRange (amount : ℕ) (recipient : Address) : Res State := do
  let core ← shared (Vault.burnInRange env.toEnv q.core amount)
  deliverVolatile env { q with core } (Vault.int256 (min amount q.core.pooled)) recipient
  .ok { q with core }

def rangeIncrement6 (c : Core) : ℕ := c.pooledUsd - c.basketUsd

def owed6 (incrPre denom claimAmt : ℕ) : Res ℕ :=
  if denom ≤ claimAmt then .ok incrPre else fullMulDiv incrPre claimAmt denom

def payUsdLeg (incrPre denom claimAmt : ℕ) (recipient : Address) : Res (ℕ × State) :=
  if incrPre = 0 ∨ denom = 0 ∨ claimAmt = 0 then .ok (0, q)
  else do
    let owed ← owed6 incrPre denom claimAmt
    if owed = 0 then .ok (0, q)
    else do
      let px ← shared (Vault.assetPrice env.toEnv)
      shared (Vault.mintUsd env.toEnv recipient owed)
      let lpOwned ← sub incrPre owed
      let q := { q with core := Vault.absorbPaidUsd q.core lpOwned }
      let owed18 ← mul owed (10 ^ 12)
      let ethEquiv ← fullMulDiv owed18 (10 ^ 18) px
      .ok (ethEquiv, q)

def burnAndDeliverUsdLeg (burnAmt claimAmt : ℕ) (recipient : Address) : Res (ℕ × State) :=
  if burnAmt = 0 then .ok (0, q)
  else do
    let incrPre := rangeIncrement6 q.core
    let q ← burnInRange env q burnAmt recipient
    let denom ← add q.lpShares claimAmt
    payUsdLeg env q incrPre denom claimAmt recipient

def venueBalance : ℕ :=
  let held := env.rangeETH q.core
  if q.levManager = 0 then held else held - env.totalNetEquity.getD 0

def vaultShare (venueBal amount plainDepth : ℕ) : Res ℕ :=
  if 0 < plainDepth then fullMulDiv venueBal amount plainDepth else .ok venueBal

def deliverVenueShortfall (amount shortfall plainDepth : ℕ) : Res ℕ := do
  let share ← vaultShare (venueBalance env q) amount plainDepth
  let excess := min shortfall share
  if excess = 0 then .ok 0 else sendEth env q.levManager q.core excess

def weethCovers (amount weethIn weethFull : ℕ) : Res ℕ :=
  if weethFull = 0 ∨ weethIn = weethFull then .ok amount else fullMulDiv amount weethIn weethFull

def waitNft (e : EtherFi) (amount : ℕ) : Res ℕ :=
  let weethFull := e.weethByEeth amount
  let weethIn := min weethFull e.weethBalance
  if amount = 0 ∨ weethIn = 0 ∨ e.requestWithdraw weethIn = false then .ok 0
  else weethCovers amount weethIn weethFull

def curveCapped (e : EtherFi) (amount weethIn weethFull : ℕ) : Res ℕ :=
  match e.curveBalance with
  | none => .ok weethIn
  | some held =>
    if weethIn = 0 then .ok 0
    else do
      let wantOut ← weethCovers amount weethIn weethFull
      let scaled ← mul held 9
      if scaled / 10 < wantOut then fullMulDiv weethIn (scaled / 10) wantOut else .ok weethIn

def offrampEtherFi (e : EtherFi) (amount : ℕ) : Res ℕ :=
  if amount = 0 ∨ e.wired = false then .ok 0
  else do
    let weethFull := e.weethByEeth amount
    let weethIn ← curveCapped e amount (min weethFull e.weethBalance) weethFull
    let covered ← weethCovers amount weethIn weethFull
    if weethIn = 0 then waitNft e covered
    else do
      let floor ← mul covered 9975
      if e.sellWeeth weethIn (floor / 10000) = 0 then waitNft e covered else .ok covered

def syncRange (lp : Address) : State := (reconcileLev env q lp).toOption.getD q

def Closes (lp : Address) (amount : ℕ) : Prop :=
  0 < q.levPooled lp ∧ Vault.rangeOf q.toState lp < amount
  deriving Decidable

def closeLev (lp : Address) (amount : ℕ) : Res (Env × State) :=
  if Closes q lp amount then do
    require .outside (q.levManager ≠ 0 ∧ env.closeLevFor.isSome)
    let q ← reconcileLev env.closed (syncRange env.closed q lp) lp
    .ok (env.closed, q)
  else .ok (env, q)

def openWithdraw (lp : Address) : Res State := do
  let q ← reconcileLev env q lp
  require .noPosition ((q.autoManaged lp).pooled ≠ 0)
  require .tooSoon (q.lastDepositBlock lp < env.blockNumber)
  let q ← rebalance env q
  settlePending env q lp 0

def retireShares (lp : Address) (amount paid : ℕ) : Res (ℕ × State) := do
  let q ← debitShares q lp paid
  let rest ← sub amount paid
  .ok (rest, q)

def serveWithdraw (lp : Address) (amount : ℕ) (recipient : Address) : Res (ℕ × State) :=
  if amount = 0 then .ok (0, q)
  else do
    let incrPre := rangeIncrement6 q.core
    let served ← offrampEtherFi env.etherFi amount
    if served ≠ 0 then do
      let q ← burnInRange env q served 0
      let (_, q) ← payUsdLeg env q incrPre q.lpShares served recipient
      retireShares q lp amount served
    else do
      let (usdEq, q) ← payUsdLeg env q incrPre q.lpShares amount recipient
      if usdEq = 0 then .ok (amount, q)
      else do
        let q ← burnInRange env q usdEq 0
        retireShares q lp amount usdEq

def returnShortfall (lp : Address) (amount sent plainDepth : ℕ) : Res State :=
  if amount ≤ sent then .ok q
  else do
    let excess ← deliverVenueShortfall env q amount (amount - sent) plainDepth
    let shortfall ← sub (amount - sent) excess
    if shortfall = 0 then .ok q else creditShares q lp shortfall

def deliverWithdraw (lp : Address) (amount : ℕ) (recipient : Address) : Res State :=
  if amount = 0 then .ok q
  else do
    let plainDepth := q.lpShares - q.totalLevPooled
    let q ← debitShares q lp amount
    let firstBurn := min amount (env.deliverableETH q.core)
    let (sent, q) ← burnAndDeliverUsdLeg env q firstBurn amount recipient
    returnShortfall env q lp amount sent plainDepth

def payLastFees (lp recipient : Address) : Res State :=
  if (q.autoManaged lp).pooled = 0 then payFees env q lp recipient (q.autoManaged lp).usdOwed else .ok q

def finishWithdraw (lp recipient : Address) : Res State := do
  let q ← payLastFees env q lp recipient
  onExit q lp

def payWithdraw (lp : Address) (amount : ℕ) (recipient : Address) : Res State := do
  let (rest, q) ← serveWithdraw env q lp (min amount (Vault.rangeOf q.toState lp)) recipient
  let q ← deliverWithdraw env q lp rest recipient
  finishWithdraw env q lp recipient

def withdraw (lp : Address) (amount : ℕ) (recipient : Address) : Res State := do
  let q ← openWithdraw env q lp
  let (after, q) ← closeLev env q lp amount
  payWithdraw after q lp amount recipient

def fillIntentBody : Res (ℤ × ℤ × State) := do
  require .intentExpired (env.timestamp < i.expiry)
  require .intentUsed (q.intentUsed i.owner i.nonce = false)
  require .intentBadSig (env.signed i)
  let px ← shared (Vault.assetPrice env.toEnv)
  require .intentNotCrossed (if i.buyVolatile then px ≤ i.limitPx else i.limitPx ≤ px)
  let used := Function.update (q.intentUsed i.owner) i.nonce true
  let q := { q with intentUsed := Function.update q.intentUsed i.owner used }
  if i.buyVolatile then do
    let funded ← found .outside (env.spendClaim i.owner i.size)
    require .intentUnfunded (funded ≠ 0)
    let volOut ← shared (Vault.convert funded i.limitPx true)
    require .intentUnfillable (volOut ≠ 0 ∧ volOut ≤ q.core.pooled)
    let usdDelta ← shared (Vault.neg (Vault.int256 funded))
    .ok (usdDelta, Vault.int256 volOut, q)
  else .ok (0, 0, q)

def topUpProceeds (ask6 proceeds6 : ℕ) (routes : Bool) : Res ℕ :=
  if proceeds6 < ask6 then do
    require .partialFillNotConsented i.loadBalance
    if routes then do
      let short18 ← mul (ask6 - proceeds6) (10 ^ 12)
      let more ← found .outside (env.convertShortfall i short18)
      add proceeds6 more
    else .ok proceeds6
  else .ok proceeds6

/-- The proceeds of a sale and the ether sold for them. -/
def etherSold (wantUsd6 : ℕ) (routes : Bool) : Res (ℕ × ℕ) := do
  require .intentUnpayable (env.toIndex i.payoutToken ≠ 0)
  let cap := Vault.rangeOf q.toState i.owner
  require .noPosition (cap ≠ 0)
  let capUsd ← mul cap i.limitPx
  let ask6 := min wantUsd6 (capUsd / 10 ^ 18 / 10 ^ 12)
  require .intentUnpayable (ask6 ≠ 0)
  let want ← shared (Vault.from6 env.toEnv ask6 i.payoutToken)
  let sent ← found .outside (env.take q.core i.owner want i.payoutToken)
  require .intentUnpayable (sent / 10 ^ 12 ≠ 0)
  let proceeds6 ← topUpProceeds env i ask6 (sent / 10 ^ 12) routes
  let proceeds18 ← mul proceeds6 (10 ^ 12)
  let scaled ← mul proceeds18 (10 ^ 18)
  .ok (proceeds6, min (scaled / i.limitPx) cap)

def settleSellIntent (wantUsd6 : ℕ) (routes : Bool) : Res (ℤ × State) := do
  let (proceeds6, sold) ← etherSold env q i wantUsd6 routes
  let q ← debitShares q i.owner sold
  .ok (Vault.int256 proceeds6, q)

def settleIfSell (usdDelta : ℤ) (routes : Bool) : Res (ℤ × State) :=
  if i.buyVolatile = false ∧ 0 < i.size then settleSellIntent env q i i.size routes
  else .ok (usdDelta, q)

def fillIntent (routes : Bool) : Res State := do
  let (usdDelta, volDelta, q) ← fillIntentBody env q i
  let (usdDelta, q) ← settleIfSell env q i usdDelta routes
  let core ← shared (Vault.settleOor env.toEnv q.core i.owner usdDelta volDelta)
  deliverVolatile env { q with core } volDelta i.owner
  .ok { q with core }

/-- `ICore.pendingRewards` as `QuidLib` declares it, with two results. `Quid.pendingRewards` returns one
word, and the decoding of the second reverts. -/
def pendingRewardsPair : Res (ℕ × ℕ) := .error .badReturn

def settleTransfer (lp : Address) : Res State :=
  if 0 < (q.autoManaged lp).pooled then do
    let (ethReward, usdReward) ← pendingRewardsPair
    let d := q.autoManaged lp
    let pooled ← add d.pooled ethReward
    let usdOwed ← add d.usdOwed usdReward
    let lpShares ← add q.lpShares ethReward
    .ok { q.setDeposit lp { d with pooled, usdOwed } with lpShares }
  else .ok q

def transferSharesBody (source dest : Address) (amount : ℕ) : Res State := do
  require .toZero (dest ≠ 0)
  require .self (source ≠ dest)
  if amount = 0 then .ok q
  else do
    require .insufficientBalance (amount ≤ Vault.rangeOf q.toState source)
    let q ← settleTransfer q source
    let q ← settleTransfer q dest
    let v ← shared (Vault.moveShares q.toState source dest amount)
    .ok { q with toState := v }

def rebalanceFor (amount : ℕ) : Res State := if 0 < amount then rebalance env q else .ok q

def transferShares (source dest : Address) (amount : ℕ) : Res State := do
  let q ← rebalanceFor env q amount
  transferSharesBody q source dest amount

def collectFees (sender : Address) : Res State := do
  require .noPosition ((q.autoManaged sender).pooled ≠ 0)
  let q ← rebalance env q
  let q ← settlePending env q sender sender
  refreshBookmarks q sender

def recordFee (premiumUsd premiumNative : ℕ) : Res State := do
  let v ← shared (Vault.recordFee q.toState premiumUsd premiumNative)
  .ok { q with toState := v }

def unwindForRedeem (usdWanted : ℕ) : Res State :=
  if usdWanted = 0 ∨ q.core.pooledUsd = 0 ∨ q.core.pooled = 0 then .ok q
  else do
    let w ← rebalance env q
    let usd18 ← mul q.core.pooledUsd (10 ^ 12)
    let share ← fullMulDiv usdWanted q.core.pooled usd18
    burnInRange env w share 0

def setLevManager (m : Address) : Res State := do
  let v ← shared (Vault.setLevManager env.toEnv q.toState m)
  .ok { q with toState := v }

structure SwapReq where
  token : Address
  forVolatile : Bool
  amount : ℕ
  minOut : ℕ
  recipient : Address
  sender : Address

def swapInput (r : SwapReq) (px : ℕ) : Res (ℕ × ℕ × State) :=
  if r.forVolatile then do
    let amount ← found .outside (env.consumeVolInput r.token r.amount)
    let (kept, v) ← shared (Vault.retainUsd q.toState amount)
    .ok (kept, q.core.pooled, { q with toState := v })
  else do
    require .stableMissing (r.token = env.quid ∨ env.toIndex r.token ≠ 0)
    let amount ← found .outside (env.depositVol r.sender r.amount)
    let (kept, v) ← shared (Vault.retainNative q.toState amount px)
    .ok (kept, q.core.pooledUsd, { q with toState := v })

def swapTo (r : SwapReq) : Res State := do
  let (px, v) ← shared (Vault.rebalance env.toEnv q.toState)
  let committed ← shared (Vault.committedUsd18 env.toEnv v.core)
  require .underBacked (committed ≤ (env.getDeposits v.core).total)
  let (amount, pooled, q) ← swapInput env { q with toState := v } r px
  let (out, consumed, core) ← shared (Vault.routeSwap env.toEnv q.core r.recipient r.forVolatile
    (if r.forVolatile then 0 else r.token) amount pooled px)
  deliverVolatile env { q with core } (if r.forVolatile then Vault.int256 out else 0) r.recipient
  require .slippageMax (out ≠ 0 ∧ r.minOut ≤ out)
  require .outside (env.refundExcess r.token (amount - consumed))
  .ok { q with core }

inductive Call
  | recordFee (premiumUsd premiumNative : ℕ)
  | deposit (assets : ℕ) (receiver : Address)
  | withdraw (lp : Address) (amount : ℕ) (recipient : Address)
  | syncLev (lp : Address)
  | fillIntent (i : OorIntent) (routes : Bool)
  | transferShares (source dest : Address) (amount : ℕ)
  | collectFees (sender : Address)
  | reseat
  | unwindForRedeem (usdWanted : ℕ)
  | swapTo (r : SwapReq)
  | setLevManager (m : Address)

def exec : Call → Res State
  | .recordFee premiumUsd premiumNative => recordFee q premiumUsd premiumNative
  | .deposit assets receiver => deposit env q assets receiver
  | .withdraw lp amount recipient => withdraw env q lp amount recipient
  | .syncLev lp => reconcileLev env q lp
  | .fillIntent i routes => fillIntent env q i routes
  | .transferShares source dest amount => transferShares env q source dest amount
  | .collectFees sender => collectFees env q sender
  | .reseat => rebalance env q
  | .unwindForRedeem usdWanted => unwindForRedeem env q usdWanted
  | .swapTo r => swapTo env q r
  | .setLevManager m => setLevManager env q m

def step (c : Env × Call) : Res State := exec c.1 q c.2

def deployed (priceWad : ℕ) : State where
  toState := Vault.deployed priceWad
  totalLevPooled := 0
  lastDepositBlock _ := 0
  intentUsed _ _ := false
  feesPaid _ := 0

def quietEnv : Env where
  toEnv := { Vault.quietEnv with price := 2 * 10 ^ 21 }
  quid := 2
  blockNumber := 1
  timestamp := 0
  payment := ⟨0, 10 ^ 30, 10 ^ 30, true⟩
  rangeETH _ := 10 ^ 24
  deliverableETH _ := 10 ^ 24
  totalNetEquity := some 0
  purse _ := ⟨10 ^ 24, 0, fun _ => 0, fun _ => 0, true⟩
  etherFi := ⟨false, id, 0, none, fun _ _ => 0, fun _ => false⟩
  closeLevFor := none
  signed _ := true
  spendClaim _ size := some size
  convertShortfall _ _ := none
  depositVol _ amount := some amount

def laterEnv : Env := { quietEnv with blockNumber := 2 }

def leveredEnv : Env := { laterEnv with
  grossCollateral := fun _ => 10 ^ 18
  netEquity := fun _ => 10 ^ 18 }

def closingEnv : Env := { leveredEnv with closeLevFor := some quietEnv.toEnv }

end QuidProtocol.Quid
