import QuidProtocol.Basket.Types
import QuidProtocol.Lib.ProRata

/-!
`MorphoEscrowVenue`: one position in Morpho, of which each LP has units.
-/

namespace QuidProtocol.Venue

open Lib Function
open Basket (Address)

inductive Err
  | auth
  | panic
  | fullMulDivFailed
  | transferFailed
  | insufficientCollateral
  | refused
  | repayNotApplied
  deriving DecidableEq

abbrev Res := Except Err

def add (a b : ℕ) : Res ℕ := checkedAdd .panic 256 a b

def sub (a b : ℕ) : Res ℕ := checkedSub .panic a b

def mul (a b : ℕ) : Res ℕ := checkedMul .panic 256 a b

def fullMulDiv (a b d : ℕ) : Res ℕ := do
  require .fullMulDivFailed (d ≠ 0 ∧ a * b / d < 2 ^ 256)
  .ok (a * b / d)

structure Morpho where
  collateral : ℕ
  borrowShares : ℕ
  totalBorrowAssets : ℕ
  totalBorrowShares : ℕ
  pending : ℕ
  shares_le : borrowShares ≤ totalBorrowShares
  fits : collateral < 2 ^ 128 ∧ totalBorrowAssets < 2 ^ 128 ∧ totalBorrowShares < 2 ^ 128

structure Market where
  toAssetsUp : ℕ → ℕ → ℕ → ℕ
  toSharesUp : ℕ → ℕ → ℕ → ℕ
  toSharesDown : ℕ → ℕ → ℕ → ℕ
  accepts : Morpho → Bool

namespace Morpho

def make (collateral borrowShares assets shares pending : ℕ) : Res Morpho :=
  if h : borrowShares ≤ shares ∧ collateral < 2 ^ 128 ∧ assets < 2 ^ 128 ∧ shares < 2 ^ 128 then
    .ok ⟨collateral, borrowShares, assets, shares, pending, h.1, h.2⟩
  else .error .refused

variable (M : Market) (m : Morpho)

def accrueInterest : Res Morpho :=
  make m.collateral m.borrowShares (m.totalBorrowAssets + m.pending) m.totalBorrowShares 0

def supplyCollateral (assets : ℕ) : Res Morpho :=
  make (m.collateral + assets) m.borrowShares m.totalBorrowAssets m.totalBorrowShares m.pending

def withdrawCollateral (assets : ℕ) : Res Morpho := do
  let m ← m.accrueInterest
  let collateral ← checkedSub .insufficientCollateral m.collateral assets
  let m ← make collateral m.borrowShares m.totalBorrowAssets m.totalBorrowShares m.pending
  require .refused (M.accepts m)
  .ok m

def borrow (assets : ℕ) : Res (Morpho × ℕ × ℕ) := do
  let m ← m.accrueInterest
  let shares := M.toSharesUp assets m.totalBorrowAssets m.totalBorrowShares
  let m ← make m.collateral (m.borrowShares + shares) (m.totalBorrowAssets + assets)
    (m.totalBorrowShares + shares) m.pending
  require .refused (M.accepts m)
  .ok (m, assets, shares)

def lower (assets shares : ℕ) : Res Morpho := do
  let borrowShares ← checkedSub .refused m.borrowShares shares
  let totalBorrowShares ← checkedSub .refused m.totalBorrowShares shares
  make m.collateral borrowShares (m.totalBorrowAssets - assets) totalBorrowShares m.pending

def repayShares (shares : ℕ) : Res (Morpho × ℕ × ℕ) := do
  let m ← m.accrueInterest
  let assets := M.toAssetsUp shares m.totalBorrowAssets m.totalBorrowShares
  let m ← m.lower assets shares
  .ok (m, assets, shares)

def repayAssets (assets : ℕ) : Res (Morpho × ℕ × ℕ) := do
  let m ← m.accrueInterest
  let shares := M.toSharesDown assets m.totalBorrowAssets m.totalBorrowShares
  let m ← m.lower assets shares
  .ok (m, assets, shares)

end Morpho

def unitOffset : ℕ := 10 ^ 6

def mintUnits (amt tot bal : ℕ) : Res ℕ := do
  let units ← add tot unitOffset
  fullMulDiv amt units (bal + 1)

def burnUnits (amt tot bal : ℕ) : Res ℕ := mintUnits amt tot bal

def unitSlice (u tot bal : ℕ) : Res ℕ :=
  if u = 0 then .ok 0
  else do
    let units ← add tot unitOffset
    fullMulDiv u (bal + 1) units

structure State where
  collUnits : Address → ℕ
  totalCollUnits : ℕ
  debtUnits : Address → ℕ
  totalDebtUnits : ℕ
  morpho : Morpho
  stable : ℕ
  collateral : ℕ

def State.empty : State where
  collUnits := fun _ => 0
  totalCollUnits := 0
  debtUnits := fun _ => 0
  totalDebtUnits := 0
  morpho := ⟨0, 0, 0, 0, 0, le_refl 0, by norm_num⟩
  stable := 0
  collateral := 0

def sharesToAssetsUp (m : Morpho) (shares : ℕ) : Res ℕ :=
  if shares = 0 ∨ m.totalBorrowShares = 0 then .ok 0
  else do
    let num ← mul shares m.totalBorrowAssets
    let num ← add num m.totalBorrowShares
    .ok ((num - 1) / m.totalBorrowShares)

variable (M : Market) (v : State)

def collateralOf (lp : Address) : Res ℕ :=
  unitSlice (v.collUnits lp) v.totalCollUnits v.morpho.collateral

def debtOf (lp : Address) : Res ℕ :=
  if v.debtUnits lp = 0 ∨ v.totalDebtUnits = 0 then .ok 0
  else do
    let shares ← unitSlice (v.debtUnits lp) v.totalDebtUnits v.morpho.borrowShares
    sharesToAssetsUp v.morpho shares

def totalDebt : Res ℕ := sharesToAssetsUp v.morpho v.morpho.borrowShares

def pull (balance allowance assets : ℕ) : Res ℕ := do
  require .transferFailed (assets ≤ allowance)
  checkedSub .transferFailed balance assets

def burnDebt (lp : Address) (burn : ℕ) : Res State := do
  let units ← sub (v.debtUnits lp) burn
  let total ← sub v.totalDebtUnits burn
  .ok { v with debtUnits := update v.debtUnits lp units, totalDebtUnits := total }

def burnColl (lp : Address) (burn : ℕ) : Res State := do
  let units ← sub (v.collUnits lp) burn
  let total ← sub v.totalCollUnits burn
  .ok { v with collUnits := update v.collUnits lp units, totalCollUnits := total }

def supply (lp : Address) (collAmount : ℕ) : Res (State × ℕ) :=
  if collAmount = 0 then .ok (v, 0)
  else do
    let morpho ← v.morpho.supplyCollateral collAmount
    let collateral ← checkedSub .transferFailed v.collateral collAmount
    let mint ← mintUnits collAmount v.totalCollUnits v.morpho.collateral
    let units ← add (v.collUnits lp) mint
    let total ← add v.totalCollUnits mint
    .ok ({ v with collUnits := update v.collUnits lp units, totalCollUnits := total, morpho, collateral }, collAmount)

def borrow (lp : Address) (stableAmount : ℕ) : Res (State × ℕ) :=
  if stableAmount = 0 then .ok (v, 0)
  else do
    let (morpho, got, sharesUp) ← v.morpho.borrow M stableAmount
    let mint ← mintUnits sharesUp v.totalDebtUnits v.morpho.borrowShares
    let units ← add (v.debtUnits lp) mint
    let total ← add v.totalDebtUnits mint
    .ok ({ v with debtUnits := update v.debtUnits lp units, totalDebtUnits := total, morpho }, got)

def repayCreditingLp (lp : Address) (r : ℕ) : Res (State × ℕ) := do
  let mine ← unitSlice (v.debtUnits lp) v.totalDebtUnits v.morpho.borrowShares
  let need ← sharesToAssetsUp v.morpho mine
  if 0 < mine ∧ need ≤ r ∧ need ≤ v.stable then do
    let (morpho, repaid, _) ← v.morpho.repayShares M mine
    let stable ← pull v.stable need repaid
    let v ← burnDebt { v with morpho, stable } lp (v.debtUnits lp)
    .ok (v, repaid)
  else do
    let (morpho, repaid, sharesDown) ← v.morpho.repayAssets M r
    let stable ← pull v.stable r repaid
    let burn ← burnUnits sharesDown v.totalDebtUnits v.morpho.borrowShares
    let v ← burnDebt { v with morpho, stable } lp (min burn (v.debtUnits lp))
    .ok (v, repaid)

def repay (lp : Address) (stableAmount : ℕ) : Res (State × ℕ) :=
  if stableAmount = 0 then .ok (v, 0)
  else do
    let morpho ← v.morpho.accrueInterest
    let d ← debtOf { v with morpho } lp
    if min stableAmount d = 0 then .ok ({ v with morpho }, 0)
    else repayCreditingLp M { v with morpho } lp (min stableAmount d)

def repayFor (lp : Address) (amount funds : ℕ) : Res (State × ℕ) :=
  if amount = 0 then .ok (v, 0)
  else do
    let d ← debtOf v lp
    if min amount d = 0 then .ok (v, 0)
    else do
      require .transferFailed (min amount d ≤ funds)
      repayCreditingLp M { v with stable := v.stable + min amount d } lp (min amount d)

def repayPool (stableAmount : ℕ) : Res (State × ℕ) :=
  if stableAmount = 0 then .ok (v, 0)
  else do
    let morpho ← v.morpho.accrueInterest
    let d ← totalDebt { v with morpho }
    if min stableAmount d = 0 then .ok ({ v with morpho }, 0)
    else do
      let (morpho, repaid, _) ← morpho.repayAssets M (min stableAmount d)
      let stable ← pull v.stable (min stableAmount d) repaid
      let left ← totalDebt { v with morpho, stable }
      require .repayNotApplied (¬ (0 < repaid ∧ d ≤ left))
      .ok ({ v with morpho, stable }, repaid)

def withdraw (lp : Address) (collAmount : ℕ) : Res (State × ℕ) :=
  if collAmount = 0 then .ok (v, 0)
  else do
    let bal ← collateralOf v lp
    if min collAmount bal = 0 then .ok (v, 0)
    else do
      let burn ← burnUnits (min collAmount bal) v.totalCollUnits v.morpho.collateral
      let v ← burnColl v lp (min burn (v.collUnits lp))
      let morpho ← v.morpho.withdrawCollateral M (min collAmount bal)
      .ok ({ v with morpho }, min collAmount bal)

def withdrawPool (collAmount : ℕ) : Res (State × ℕ) :=
  if min collAmount v.morpho.collateral = 0 then .ok (v, 0)
  else do
    let morpho ← v.morpho.withdrawCollateral M (min collAmount v.morpho.collateral)
    .ok ({ v with morpho }, min collAmount v.morpho.collateral)

inductive Op
  | supply (lp : Address) (collAmount : ℕ)
  | borrow (lp : Address) (stableAmount : ℕ)
  | repay (lp : Address) (stableAmount : ℕ)
  | repayFor (lp : Address) (amount funds : ℕ)
  | withdraw (lp : Address) (collAmount : ℕ)
  | repayPool (stableAmount : ℕ)
  | withdrawPool (collAmount : ℕ)
  | accrue
  /-- Time passes, others use the market, the position is liquidated or given to, tokens arrive. -/
  | outside (morpho : Morpho) (stable collateral : ℕ)

structure Call where
  market : Market
  sender : Address
  op : Op

def onlyManager (manager sender : Address) (x : Res (State × ℕ)) : Res State := do
  require .auth (sender = manager)
  let (v, _) ← x
  .ok v

def exec (manager : Address) (v : State) (c : Call) : Res State :=
  match c.op with
  | .supply lp collAmount => onlyManager manager c.sender (supply v lp collAmount)
  | .borrow lp stableAmount => onlyManager manager c.sender (borrow c.market v lp stableAmount)
  | .repay lp stableAmount => onlyManager manager c.sender (repay c.market v lp stableAmount)
  | .repayFor lp amount funds => do
    let (v, _) ← repayFor c.market v lp amount funds
    .ok v
  | .withdraw lp collAmount => onlyManager manager c.sender (withdraw c.market v lp collAmount)
  | .repayPool stableAmount => onlyManager manager c.sender (repayPool c.market v stableAmount)
  | .withdrawPool collAmount => onlyManager manager c.sender (withdrawPool c.market v collAmount)
  | .accrue => do
    let morpho ← v.morpho.accrueInterest
    .ok { v with morpho }
  | .outside morpho stable collateral => .ok { v with morpho, stable, collateral }

end QuidProtocol.Venue
