import QuidProtocol.Lib.Bytes
import QuidProtocol.Lib.Checked

/-!
The words, addresses and reverts of the Basket contract.
-/

namespace QuidProtocol.Basket

open Lib

def uintBound : ℕ := 2 ^ 256

def maxUint : ℕ := uintBound - 1

structure Address where
  word : Fin (2 ^ 160)
  deriving DecidableEq

instance : Finite Address := Finite.of_injective Address.word fun _ _ h => congrArg Address.mk h

-- By choice, so that no sum over all addresses is ever unfolded into its terms.
noncomputable instance : Fintype Address := Fintype.ofFinite Address

def Address.ofNat (n : ℕ) : Address := ⟨Fin.ofNat (2 ^ 160) n⟩

instance : Zero Address := ⟨Address.ofNat 0⟩

instance (n : ℕ) : OfNat Address (n + 1) := ⟨Address.ofNat (n + 1)⟩

inductive Err
  | panic
  | requireFailed
  | unauthorized
  | badBridgeMessage
  | insufficientUnlocked
  | btcVaultPinned
  | valueDoesNotExist
  | valueNotFound
  | erc20InsufficientBalance
  | erc20InsufficientAllowance
  | erc20InvalidApprover
  | erc20InvalidSpender
  | zeroDeposit
  | vaultBlocked
  | unknownStable
  | safeTransferFailed
  | fullMulDivFailed
  | fee
  | sendFailed
  deriving DecidableEq

abbrev Res := Except Err

def add (a b : ℕ) : Res ℕ := checkedAdd .panic 256 a b

def sub (a b : ℕ) : Res ℕ := checkedSub .panic a b

def mul (a b : ℕ) : Res ℕ := checkedMul .panic 256 a b

def wideMulDiv (e : Err) (a b d : ℕ) : Res ℕ := do
  require e (d ≠ 0 ∧ a * b / d < uintBound)
  .ok (a * b / d)

def mulDiv (a b d : ℕ) : Res ℕ := wideMulDiv .panic a b d

def fullMulDiv (a b d : ℕ) : Res ℕ := wideMulDiv .fullMulDivFailed a b d

theorem add_eq_ok {a b c} : add a b = .ok c ↔ a + b < uintBound ∧ a + b = c := checkedAdd_eq_ok

theorem add_of_lt {a b} (h : a + b < uintBound) : add a b = .ok (a + b) := add_eq_ok.mpr ⟨h, rfl⟩

theorem sub_eq_ok {a b c} : sub a b = .ok c ↔ b ≤ a ∧ a - b = c := checkedSub_eq_ok

theorem sub_of_le {a b} (h : b ≤ a) : sub a b = .ok (a - b) := sub_eq_ok.mpr ⟨h, rfl⟩

end QuidProtocol.Basket
