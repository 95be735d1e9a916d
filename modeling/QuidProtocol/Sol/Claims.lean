import QuidProtocol.Lib.Ledger
import QuidProtocol.Stay.Model
import QuidProtocol.Lib.FeeIndex

/-!
The native leg of the Solana pool: deposits in lamports, parking, withdrawals and flash loans, and the claims of the
depositors against the books that stand for them.
The carry of the native leg: gains and losses move one index, at which an account is settled.
-/

namespace QuidProtocol.Sol

open Lib Stay Function

inductive SolErr
  | invalidAmount
  | insufficientFunds
  | unauthorized
  | unparkConsentRequired
  | flashLoanActive
  | noActiveFlashLoan

def solYieldScale : ℕ := 10 ^ 12

def minBufferBps : ℕ := 2000

def flashTipBps : ℕ := 5

structure SolBank where
  solLamports : ℕ
  solUsdContrib : ℕ
  solStarShares : ℕ
  solStarCostLamports : ℕ
  solStarCreditedLamports : ℕ
  yieldPool : ℕ
  solYieldIndex : ℕ

structure SolAccount where
  depositedLamports : ℕ
  solPledgedUsd : ℕ
  solYieldCheckpoint : ℕ

structure SolState where
  bank : SolBank
  accounts : Pubkey → SolAccount
  pool : ℕ
  flashLamports : ℕ

structure SolConfig where
  parking : Bool
  solBufferBps : ℕ
  solStarHaircutBps : ℕ
  solParkBandBps : ℕ

structure SolEnv where
  config : SolConfig
  price : ℕ
  collarBps : ℕ
  rentFloor : ℕ

section

variable (e : SolEnv) (bank : SolBank) (s : SolState)

def collarAdjustedUsd (lamports : ℕ) : ℕ :=
  let raw := sat (sat128 (lamports * e.price) / 10 ^ 9)
  raw - sat (raw * e.collarBps) / bps

def capped (usd : ℕ) : ℤ := (min usd i64Max : ℕ)

namespace SolBank

def solTotalLamports : ℕ := sat (bank.solLamports + bank.solStarCostLamports)

def creditedLamports : ℕ := sat (bank.solLamports + bank.solStarCreditedLamports)

def requiredBuffer (bufferBps : ℕ) : ℕ :=
  bank.solTotalLamports * max bufferBps minBufferBps / bps % 2 ^ 64

def parkBand (bandBps : ℕ) : ℕ := bank.solTotalLamports * bandBps / bps % 2 ^ 64

def accrueSolYield (signedUsd : ℤ) : Option SolBank :=
  let principal := bank.solTotalLamports
  if principal = 0 ∨ signedUsd = 0 then none
  else
    let magnitude := sat128 (signedUsd.natAbs * solYieldScale) / principal
    if 0 < signedUsd then some { bank with solYieldIndex := sat128 (bank.solYieldIndex + magnitude) }
    else if bank.solYieldIndex < magnitude then none
    else some { bank with solYieldIndex := bank.solYieldIndex - magnitude }

def adjustSolCredit (usd : ℤ) : SolBank :=
  if 0 ≤ usd then
    { bank with solUsdContrib := sat (bank.solUsdContrib + usd.natAbs), yieldPool := sat (bank.yieldPool + usd.natAbs) }
  else
    { bank with solUsdContrib := bank.solUsdContrib - usd.natAbs
                yieldPool := bank.yieldPool - min usd.natAbs bank.yieldPool }

def bookCarry (signedUsd : ℤ) : SolBank :=
  (bank.accrueSolYield signedUsd).getD (bank.adjustSolCredit signedUsd)

def parkIdleSol (e : SolEnv) (sharesOut : ℕ) : Except SolErr (SolBank × ℕ) := do
  require .unauthorized e.config.parking
  let floor := bank.requiredBuffer e.config.solBufferBps
  let band := bank.parkBand e.config.solParkBandBps
  let lamports := bank.solLamports - floor
  if bank.solLamports < sat (floor + band) ∨ lamports < band then .ok (bank, 0)
  else do
    require .insufficientFunds (0 < sharesOut)
    let haircut := lamports * e.config.solStarHaircutBps / bps % 2 ^ 64
    let parked := { bank with
      solLamports := bank.solLamports - lamports
      solStarShares := sat (bank.solStarShares + sharesOut)
      solStarCostLamports := sat (bank.solStarCostLamports + lamports)
      solStarCreditedLamports := sat (bank.solStarCreditedLamports + (lamports - haircut)) }
    .ok (parked.adjustSolCredit (-capped (collarAdjustedUsd e haircut)), lamports)

def sharesFor (deficit : ℕ) : ℕ :=
  min ((sat128 (deficit * bank.solStarShares) + bank.solStarCostLamports - 1) / bank.solStarCostLamports)
    bank.solStarShares

def released (shares v : ℕ) : ℕ := sat128 (v * shares) / bank.solStarShares % 2 ^ 64

end SolBank

structure Unparked where
  bank : SolBank
  forfeit : ℕ
  returned : ℕ

structure Legs where
  lamportsOut : ℕ
  rent : ℕ

def unparkForWithdrawal (wanted maxHaircutBps : ℕ) (legs : Legs) : Except SolErr Unparked :=
  let deficit := wanted - bank.solLamports
  if deficit = 0 then .ok ⟨bank, 0, 0⟩
  else do
    require .unparkConsentRequired (0 < maxHaircutBps)
    require .insufficientFunds (0 < bank.solStarShares ∧ 0 < bank.solStarCostLamports)
    let shares := bank.sharesFor deficit
    let costReleased := bank.released shares bank.solStarCostLamports
    let creditReleased := bank.released shares bank.solStarCreditedLamports
    require .insufficientFunds (0 < legs.lamportsOut)
    let boundBps := min e.config.solStarHaircutBps maxHaircutBps
    require .insufficientFunds (costReleased - costReleased * boundBps / bps % 2 ^ 64 ≤ legs.lamportsOut)
    let unparked := { bank with
      solStarShares := bank.solStarShares - shares
      solStarCostLamports := bank.solStarCostLamports - costReleased
      solStarCreditedLamports := bank.solStarCreditedLamports - creditReleased
      solLamports := sat (bank.solLamports + legs.lamportsOut) }
    let signed := satI64 (capped (collarAdjustedUsd e legs.lamportsOut) - capped (collarAdjustedUsd e creditReleased))
    .ok ⟨unparked.bookCarry signed, costReleased - legs.lamportsOut, legs.lamportsOut + legs.rent⟩

def settleSolYield (account : SolAccount) (bank : SolBank) : SolAccount × SolBank × ℕ :=
  let settled := { account with solYieldCheckpoint := bank.solYieldIndex }
  let delta := bank.solYieldIndex - account.solYieldCheckpoint
  if account.depositedLamports = 0 ∨ delta = 0 then (settled, bank, 0)
  else
    let owed := sat (sat128 (delta * account.depositedLamports) / solYieldScale)
    ({ settled with solPledgedUsd := sat (account.solPledgedUsd + owed) },
      { bank with solUsdContrib := sat (bank.solUsdContrib + owed) }, owed)

def handleIn (signer : Pubkey) (amount : ℕ) (sharesOut : Option ℕ) : Except SolErr SolState := do
  require .invalidAmount (0 < amount)
  let (account, bank, _) := settleSolYield (s.accounts signer) s.bank
  let floor := collarAdjustedUsd e amount
  let account := { account with depositedLamports := sat (account.depositedLamports + amount)
                                solPledgedUsd := sat (account.solPledgedUsd + floor) }
  let bank := { bank with solLamports := sat (bank.solLamports + amount)
                          solUsdContrib := sat (bank.solUsdContrib + floor) }
  let accounts := Function.update s.accounts signer account
  match sharesOut with
  | none => .ok { s with bank, accounts, pool := s.pool + amount }
  | some sharesOut => do
    let (bank, lamports) ← bank.parkIdleSol e sharesOut
    let pool ← checkedSub .insufficientFunds (s.pool + amount) lamports
    .ok { s with bank, accounts, pool }

structure Withdrawal where
  unparked : Unparked
  lamports : ℕ

def unparkedFor (wanted maxHaircutBps : ℕ) : Option Legs → Except SolErr Unparked
  | some legs => unparkForWithdrawal e bank wanted maxHaircutBps legs
  | none => do
    require .insufficientFunds (wanted ≤ bank.solLamports)
    .ok ⟨bank, 0, 0⟩

def withdrawalOf (signer : Pubkey) (lamports maxHaircutBps : ℕ) (legs : Option Legs) : Except SolErr Withdrawal := do
  require .flashLoanActive (s.flashLamports = 0)
  let deposited := (s.accounts signer).depositedLamports
  let wanted := if lamports = 0 then deposited else lamports
  require .invalidAmount (0 < wanted)
  require .insufficientFunds (wanted ≤ deposited)
  let unparked ← unparkedFor e s.bank wanted maxHaircutBps legs
  let spendable := s.pool + unparked.returned - e.rentFloor
  .ok ⟨unparked, min wanted (sat (spendable + unparked.forfeit))⟩

def withdrawNative (signer : Pubkey) (lamports maxHaircutBps : ℕ) (legs : Option Legs) : Except SolErr SolState := do
  let w ← withdrawalOf e s signer lamports maxHaircutBps legs
  let (account, bank, _) := settleSolYield (s.accounts signer) w.unparked.bank
  require .insufficientFunds (0 < w.lamports)
  let locked := sat128 (w.lamports * account.solPledgedUsd) / account.depositedLamports % 2 ^ 64
  let pool ← checkedSub .insufficientFunds (s.pool + w.unparked.returned) (w.lamports - w.unparked.forfeit)
  .ok { s with
    pool
    accounts := Function.update s.accounts signer { account with
      solPledgedUsd := account.solPledgedUsd - locked
      depositedLamports := account.depositedLamports - w.lamports }
    bank := { bank with solUsdContrib := bank.solUsdContrib - locked, solLamports := bank.solLamports - w.lamports } }

def flashBorrow (lamports : ℕ) : Except SolErr SolState := do
  require .flashLoanActive (s.flashLamports = 0)
  require .invalidAmount (0 < lamports)
  require .insufficientFunds (lamports ≤ s.bank.solLamports)
  let pool ← checkedSub .insufficientFunds s.pool lamports
  .ok { s with
    pool
    flashLamports := lamports
    bank := { s.bank with solUsdContrib := 0, solLamports := s.bank.solLamports - lamports } }

def flashRepay (tip : ℕ) : Except SolErr SolState := do
  require .noActiveFlashLoan (0 < s.flashLamports)
  require .insufficientFunds (s.flashLamports * flashTipBps / bps ≤ tip)
  let total := sat (s.flashLamports + tip)
  let bank := { s.bank with solLamports := sat (s.bank.solLamports + total) }
  let bank := { bank with solUsdContrib := collarAdjustedUsd e bank.creditedLamports }
  let tipUsd := capped (collarAdjustedUsd e tip)
  .ok { s with
    pool := s.pool + total
    flashLamports := 0
    bank := if 0 < tipUsd then bank.bookCarry tipUsd else bank }

inductive SolCall
  | handleIn (e : SolEnv) (signer : Pubkey) (amount : ℕ) (sharesOut : Option ℕ)
  | withdraw (e : SolEnv) (signer : Pubkey) (lamports maxHaircutBps : ℕ) (legs : Option Legs)
  | flashBorrow (lamports : ℕ)
  | flashRepay (e : SolEnv) (tip : ℕ)

def exec : SolCall → Except SolErr SolState
  | .handleIn e signer amount sharesOut => handleIn e s signer amount sharesOut
  | .withdraw e signer lamports maxHaircutBps legs => withdrawNative e s signer lamports maxHaircutBps legs
  | .flashBorrow lamports => flashBorrow s lamports
  | .flashRepay e tip => flashRepay e s tip

end

noncomputable def solClaims (accounts : Pubkey → SolAccount) : ℕ := ∑ key, (accounts key).depositedLamports

def SolBank.books (bank : SolBank) : ℕ := bank.solLamports + bank.solStarCostLamports

def Covered (s : SolState) : Prop := solClaims s.accounts ≤ s.bank.books + s.flashLamports

def SolFits (s : SolState) : SolCall → Prop
  | .handleIn _ _ amount _ => s.bank.books + amount < 2 ^ 64
  | .withdraw _ _ _ _ legs => ∀ x ∈ legs, s.bank.solLamports + x.lamportsOut < 2 ^ 64
  | .flashBorrow _ => True
  | .flashRepay _ tip => s.bank.solLamports + s.flashLamports + tip < 2 ^ 64

def Unforfeited (s : SolState) : SolCall → Prop
  | .withdraw e signer lamports maxHaircutBps legs =>
    ∀ w, withdrawalOf e s signer lamports maxHaircutBps legs = .ok w →
      s.bank.books ≤ max w.unparked.bank.solLamports w.lamports + w.unparked.bank.solStarCostLamports
  | _ => True

instance decidableSolFits (s : SolState) (c : SolCall) : Decidable (SolFits s c) := by
  unfold SolFits
  split <;> infer_instance

instance decidableUnforfeited (s : SolState) (c : SolCall) : Decidable (Unforfeited s c) := by
  unfold Unforfeited
  split <;> infer_instance

section

variable {e : SolEnv} {s s' : SolState} {bank bank' : SolBank} {account : SolAccount} {signer : Pubkey}
  {amount lamports maxHaircutBps tip : ℕ} {sharesOut : Option ℕ} {legs : Option Legs} {w : Withdrawal}

theorem solClaims_update (accounts : Pubkey → SolAccount) (key account) :
    solClaims (Function.update accounts key account) + (accounts key).depositedLamports =
      solClaims accounts + account.depositedLamports :=
  sum_comp_update SolAccount.depositedLamports (Nat.add_comm _ _)

theorem le_solClaims (accounts : Pubkey → SolAccount) (key : Pubkey) :
    (accounts key).depositedLamports ≤ solClaims accounts :=
  Finset.single_le_sum (f := fun key => (accounts key).depositedLamports) (fun _ _ => Nat.zero_le _)
    (Finset.mem_univ key)

theorem sat_of_fits {n} (h : n < 2 ^ 64) : sat n = n := min_eq_left (Nat.le_sub_one_of_lt h)

structure KeepsLamports (bank bank' : SolBank) : Prop where
  hot : bank'.solLamports = bank.solLamports
  cost : bank'.solStarCostLamports = bank.solStarCostLamports

theorem keeps_adjust (bank usd) : KeepsLamports bank (bank.adjustSolCredit usd) := by
  unfold SolBank.adjustSolCredit
  split_ifs
  all_goals exact ⟨rfl, rfl⟩

theorem keeps_accrue {signedUsd} (h : bank.accrueSolYield signedUsd = some bank') : KeepsLamports bank bank' := by
  unfold SolBank.accrueSolYield at h
  dsimp only at h
  split_ifs at h
  all_goals
    rw [← Option.some.inj h]
    exact ⟨rfl, rfl⟩

theorem keeps_bookCarry (bank signedUsd) : KeepsLamports bank (bank.bookCarry signedUsd) := by
  unfold SolBank.bookCarry
  cases h : bank.accrueSolYield signedUsd with
  | none => exact keeps_adjust bank signedUsd
  | some => exact keeps_accrue h

theorem keeps_settle (account bank) : KeepsLamports bank (settleSolYield account bank).2.1 ∧
      (settleSolYield account bank).1.depositedLamports = account.depositedLamports := by
  unfold settleSolYield
  dsimp only
  split_ifs
  all_goals exact ⟨⟨rfl, rfl⟩, rfl⟩

theorem park_books {shares} (hfits : bank.books < 2 ^ 64) (h : bank.parkIdleSol e shares = .ok (bank', lamports)) :
    bank'.books = bank.books := by
  obtain ⟨-, h⟩ := of_require h
  dsimp only at h
  split_ifs at h
  · cases h
    rfl
  · obtain ⟨-, h⟩ := of_require h
    cases h
    unfold SolBank.books at hfits ⊢
    rw [(keeps_adjust _ _).hot, (keeps_adjust _ _).cost]
    dsimp only
    rw [sat_of_fits (by omega)]
    omega

theorem handleIn_covered (hs : Covered s) (hfits : s.bank.books + amount < 2 ^ 64)
    (h : handleIn e s signer amount sharesOut = .ok s') : Covered s' := by
  obtain ⟨hkeeps, hdeposited⟩ := keeps_settle (s.accounts signer) s.bank
  obtain ⟨-, h⟩ := of_require h
  generalize settleSolYield (s.accounts signer) s.bank = settled at h hkeeps hdeposited
  dsimp only at h
  unfold SolBank.books at hfits
  -- the claim and the buffer rise by the same, unless the claim saturates
  have hclaims (account : SolAccount) (haccount : account.depositedLamports ≤ settled.1.depositedLamports + amount) :
      solClaims (Function.update s.accounts signer account) ≤ solClaims s.accounts + amount := by
    have hsum := solClaims_update s.accounts signer account
    omega
  have hgrown (solUsdContrib : ℕ) : ({ settled.2.1 with
      solLamports := sat (settled.2.1.solLamports + amount), solUsdContrib } : SolBank).books = s.bank.books + amount := by
    unfold SolBank.books
    dsimp only
    rw [hkeeps.hot, hkeeps.cost, sat_of_fits (by omega)]
    omega
  have hbound : sat (settled.1.depositedLamports + amount) ≤ settled.1.depositedLamports + amount := min_le_left _ _
  unfold Covered at hs ⊢
  cases sharesOut with
  | none =>
    cases h
    dsimp only
    rw [hgrown]
    exact (hclaims _ hbound).trans (by omega)
  | some shares =>
    obtain ⟨⟨bank, lamports⟩, hpark, pool, -, h⟩ := of_bind₂ h
    cases h
    dsimp only
    rw [park_books _ hpark, hgrown]
    · exact (hclaims _ hbound).trans (by omega)
    · rw [hgrown]
      exact hfits

theorem withdrawalOf_eq (h : withdrawalOf e s signer lamports maxHaircutBps legs = .ok w) :
    s.flashLamports = 0 ∧ w.lamports ≤ (s.accounts signer).depositedLamports := by
  obtain ⟨hflash, -, h⟩ := of_require₂ h
  obtain ⟨u'', hwanted, unparked, -, h⟩ := of_bind₂ h
  have hwanted := require_eq_ok.mp hwanted
  cases h
  exact ⟨hflash, (min_le_left _ _).trans hwanted⟩

theorem withdraw_covered_iff (hw : withdrawalOf e s signer lamports maxHaircutBps legs = .ok w)
    (h : withdrawNative e s signer lamports maxHaircutBps legs = .ok s') : Covered s' ↔ solClaims s.accounts ≤
      max w.unparked.bank.solLamports w.lamports + w.unparked.bank.solStarCostLamports := by
  obtain ⟨hflash, hpaid⟩ := withdrawalOf_eq hw
  obtain ⟨w', hw', h⟩ := of_bind h
  obtain rfl := ok_unique hw' hw
  obtain ⟨hkeeps, hdeposited⟩ := keeps_settle (s.accounts signer) w'.unparked.bank
  generalize settleSolYield (s.accounts signer) w'.unparked.bank = settled at h hkeeps hdeposited
  obtain ⟨-, pool, -, h⟩ := of_require_bind h
  cases h
  unfold Covered SolBank.books
  dsimp only
  have hsum := solClaims_update s.accounts signer { settled.1 with
    solPledgedUsd := settled.1.solPledgedUsd -
      sat128 (w'.lamports * settled.1.solPledgedUsd) / settled.1.depositedLamports % 2 ^ 64
    depositedLamports := settled.1.depositedLamports - w'.lamports }
  dsimp only at hsum
  have hle := le_solClaims s.accounts signer
  rw [hkeeps.hot, hkeeps.cost, hflash]
  omega

theorem flashBorrow_covered (hs : Covered s) (h : flashBorrow s lamports = .ok s') : Covered s' := by
  obtain ⟨u, hflash, h⟩ := of_bind h
  obtain ⟨-, u'', hhot, h⟩ := of_require_bind h
  obtain ⟨pool, -, h⟩ := of_bind h
  have hflash := require_eq_ok.mp hflash
  have hhot := require_eq_ok.mp hhot
  cases h
  unfold Covered SolBank.books at hs ⊢
  dsimp only
  omega

theorem flashRepay_covered (hs : Covered s) (hfits : s.bank.solLamports + s.flashLamports + tip < 2 ^ 64)
    (h : flashRepay e s tip = .ok s') : Covered s' := by
  obtain ⟨-, -, h⟩ := of_require₂ h
  have hcarry (bank : SolBank) (usd : ℤ) : (if 0 < usd then bank.bookCarry usd else bank).books = bank.books := by
    unfold SolBank.books
    split_ifs
    · rw [(keeps_bookCarry bank usd).hot, (keeps_bookCarry bank usd).cost]
    · rfl
  cases h
  unfold Covered at hs ⊢
  dsimp only
  rw [hcarry]
  unfold SolBank.books at hs ⊢
  dsimp only
  rw [sat_of_fits (n := s.flashLamports + tip) (by omega), sat_of_fits (by omega)]
  omega

theorem exec_covered (s c s') (hs : Covered s)
    (hstep : SolFits s c ∧ Unforfeited s c) (h : exec s c = .ok s') : Covered s' := by
  cases c with
  | handleIn => exact handleIn_covered hs hstep.1 h
  | withdraw =>
    obtain ⟨w, hw, -⟩ := of_bind h
    have hkept := hstep.2 w hw
    have hflash := (withdrawalOf_eq hw).1
    apply (withdraw_covered_iff hw h).mpr
    unfold Covered at hs
    omega
  | flashBorrow => exact flashBorrow_covered hs h
  | flashRepay => exact flashRepay_covered hs hstep.1 h

theorem withdraw_all (hs : Covered s) (hparked : s.bank.solStarCostLamports = 0) (hlent : s.flashLamports = 0)
    (hclaim : 0 < (s.accounts signer).depositedLamports) (hword : (s.accounts signer).depositedLamports < 2 ^ 64)
    (hrent : (s.accounts signer).depositedLamports + e.rentFloor ≤ s.pool) :
    ∃ s', exec s (.withdraw e signer 0 0 none) = .ok s' ∧ (s'.accounts signer).depositedLamports = 0 ∧
      s'.pool + (s.accounts signer).depositedLamports = s.pool := by
  have hhot : (s.accounts signer).depositedLamports ≤ s.bank.solLamports := by
    have hle := le_solClaims s.accounts signer
    unfold Covered SolBank.books at hs
    omega
  have hpaid : min (s.accounts signer).depositedLamports (sat (s.pool + 0 - e.rentFloor + 0)) =
      (s.accounts signer).depositedLamports := by
    unfold sat u64Max
    omega
  have hdeposited := (keeps_settle (s.accounts signer) s.bank).2
  have hw : withdrawalOf e s signer 0 0 none = .ok ⟨⟨s.bank, 0, 0⟩, (s.accounts signer).depositedLamports⟩ := by
    unfold withdrawalOf unparkedFor
    dsimp only
    rw [if_pos rfl, require_of _ hlent, ok_bind, require_of _ hclaim, ok_bind, require_of _ le_rfl, ok_bind,
      require_of _ hhot, ok_bind, ok_bind, hpaid]
  change ∃ s', withdrawNative e s signer 0 0 none = .ok s' ∧ _
  unfold withdrawNative
  rw [hw, ok_bind]
  dsimp only
  rw [require_of _ hclaim, ok_bind, checkedSub_eq_ok.mpr ⟨by omega, rfl⟩, ok_bind]
  refine ⟨_, rfl, ?_, ?_⟩
  · dsimp only
    rw [Function.update_self]
    dsimp only
    omega
  · dsimp only
    omega

/-- As long as no unparking gives up a part of its cost, the claims stay covered and are paid in full. -/
theorem sol_claims_covered (s s' : SolState) (calls : List SolCall) (hs : Covered s)
    (hfits : EveryStep exec SolFits s calls) (hkept : EveryStep exec Unforfeited s calls)
    (hrun : runAll exec s calls = .ok s') : EveryState exec Covered s calls ∧
      (s'.bank.solStarCostLamports = 0 → s'.flashLamports = 0 → ∀ e signer,
        0 < (s'.accounts signer).depositedLamports → (s'.accounts signer).depositedLamports < 2 ^ 64 →
        (s'.accounts signer).depositedLamports + e.rentFloor ≤ s'.pool →
        ∃ s'', exec s' (.withdraw e signer 0 0 none) = .ok s'' ∧ (s''.accounts signer).depositedLamports = 0 ∧
          s''.pool + (s'.accounts signer).depositedLamports = s'.pool) := by
  have hsteps := hfits.and hkept
  constructor
  · exact everyState_of_invariant (fun _ h => h) exec_covered hs hsteps
  · intro hparked hlent e signer hclaim hword hrent
    exact withdraw_all (runAll_invariant exec_covered hs hsteps hrun) hparked hlent hclaim hword hrent

end

def SolState.empty : SolState := ⟨⟨0, 0, 0, 0, 0, 0, 0⟩, fun _ => ⟨0, 0, 0⟩, 0, 0⟩

theorem covered_empty : Covered .empty := (Finset.sum_eq_zero fun _ _ => rfl).le

def launchEnv : SolEnv := ⟨⟨true, 5000, 40, 1000⟩, 100 * 10 ^ 6, 1000, 890880⟩

def parkCoin : SolCall := .handleIn launchEnv 1 (10 ^ 9) (some 456621)

def unparkWithGain : List SolCall :=
  [parkCoin, .flashBorrow (4 * 10 ^ 8), .flashRepay launchEnv (2 * 10 ^ 5),
    .withdraw launchEnv 1 (9 * 10 ^ 8) 40 (some ⟨41 * 10 ^ 7, 2039280⟩)]

theorem sol_claims_covered_gain : ∃ s', runAll exec .empty unparkWithGain = .ok s' ∧
    (s'.accounts 1).depositedLamports = 10 ^ 8 ∧ EveryState exec Covered .empty unparkWithGain := by
  refine exists_ok (fun s' => (s'.accounts 1).depositedLamports = 10 ^ 8) (by decide +kernel) ?_
  intro s' hrun hleft
  have hfits : EveryStep exec SolFits .empty unparkWithGain := by decide +kernel
  exact ⟨hleft, (sol_claims_covered _ _ _ covered_empty hfits (by decide +kernel) hrun).1⟩

theorem unparking_uncovers_claims : (∃ s', runAll exec .empty [parkCoin,
        .withdraw launchEnv 1 (5 * 10 ^ 8 + 328501) 40 (some ⟨328277, 2039280⟩)] = .ok s' ∧
      (s'.accounts 1).depositedLamports = 499671499 ∧ s'.bank.books = 499671499 - 1094 ∧
      s'.flashLamports = 0 ∧ ¬ Covered s') ∧ ∃ s', runAll exec .empty [.handleIn launchEnv 1 (10 ^ 9) none,
        .withdraw launchEnv 1 0 0 none] = .ok s' ∧
      s'.bank.solStarCostLamports = 0 ∧ (s'.accounts 1).depositedLamports = 890880 ∧ s'.pool = 890880 := by
  constructor
  · refine exists_ok (fun s' => (s'.accounts 1).depositedLamports = 499671499 ∧
      s'.bank.books = 499671499 - 1094 ∧ s'.flashLamports = 0) (by decide +kernel) ?_
    rintro s' - ⟨hclaim, hbooks, hflash⟩
    have hle := le_solClaims s'.accounts 1
    unfold Covered
    omega
  · decide +kernel

structure Carry where
  bank : SolBank
  accounts : Pubkey → SolAccount
  gains : ℕ
  losses : ℕ
  credited : ℕ

inductive CarryCall
  | accrue (signedUsd : ℤ)
  | settle (key : Pubkey)

def carry (x : Carry) : CarryCall → Except SolErr Carry
  | .accrue signedUsd =>
    match x.bank.accrueSolYield signedUsd with
    | none => .ok x
    | some bank => .ok { x with bank, gains := x.gains + signedUsd.toNat, losses := x.losses + (-signedUsd).toNat }
  | .settle key =>
    let settled := settleSolYield (x.accounts key) x.bank
    .ok { x with
      bank := settled.2.1
      accounts := update x.accounts key settled.1
      credited := x.credited + settled.2.2 }

def Carry.lamports (x : Carry) (key : Pubkey) : ℕ := (x.accounts key).depositedLamports

def Carry.checkpoint (x : Carry) (key : Pubkey) : ℕ := (x.accounts key).solYieldCheckpoint

def Carry.Backed (x : Carry) : Prop := x.credited + x.losses ≤ x.gains

def magnitude (bank : SolBank) (signedUsd : ℤ) : ℕ := sat128 (signedUsd.natAbs * solYieldScale) / bank.solTotalLamports

def LossUncredited (x : Carry) : CarryCall → Prop
  | .accrue signedUsd =>
    signedUsd < 0 → magnitude x.bank signedUsd ≤ x.bank.solYieldIndex →
      signedUsd.natAbs * solYieldScale = magnitude x.bank signedUsd * x.bank.solTotalLamports ∧
        ∀ key, x.lamports key = 0 ∨ x.checkpoint key + magnitude x.bank signedUsd ≤ x.bank.solYieldIndex
  | .settle _ => True

structure CarrySound (x : Carry) : Prop where
  word : x.bank.solYieldIndex < 2 ^ 128
  principal : x.bank.solTotalLamports = ∑ key, x.lamports key
  below : ∀ key, x.lamports key = 0 ∨ x.checkpoint key ≤ x.bank.solYieldIndex
  backed : solYieldScale * (x.credited + x.losses) + pendingSum x.lamports x.checkpoint x.bank.solYieldIndex ≤
    solYieldScale * x.gains

section

variable {x x' : Carry} {bank : SolBank} {signedUsd : ℤ}

theorem CarrySound.backs (h : CarrySound x) : x.Backed := by
  have hbacked := h.backed
  exact Nat.le_of_mul_le_mul_left (by omega : solYieldScale * (x.credited + x.losses) ≤ solYieldScale * x.gains)
    (by decide)

theorem accrueSolYield_eq {bank'} (h : bank.accrueSolYield signedUsd = some bank') :
    ∃ solYieldIndex, bank' = { bank with solYieldIndex } ∧
      ((0 < signedUsd ∧ solYieldIndex = sat128 (bank.solYieldIndex + magnitude bank signedUsd)) ∨
        (signedUsd < 0 ∧ magnitude bank signedUsd ≤ bank.solYieldIndex ∧
          solYieldIndex = bank.solYieldIndex - magnitude bank signedUsd)) := by
  unfold SolBank.accrueSolYield at h
  dsimp only at h
  split_ifs at h with hnone hgain hlow
  · exact ⟨_, (Option.some.inj h).symm, .inl ⟨hgain, rfl⟩⟩
  · exact ⟨_, (Option.some.inj h).symm, .inr ⟨by omega, not_lt.mp hlow, rfl⟩⟩

theorem magnitude_mul_le (bank signedUsd) :
    bank.solTotalLamports * magnitude bank signedUsd ≤ solYieldScale * signedUsd.natAbs := by
  apply (Nat.mul_div_le _ _).trans
  rw [Nat.mul_comm solYieldScale]
  exact min_le_left _ _

theorem sound_gain {solYieldIndex} (h : CarrySound x) (hgain : 0 < signedUsd)
    (hindex : solYieldIndex = sat128 (x.bank.solYieldIndex + magnitude x.bank signedUsd)) : CarrySound { x with
      bank := { x.bank with solYieldIndex }
      gains := x.gains + signedUsd.toNat
      losses := x.losses + (-signedUsd).toNat } := by
  have hword := h.word
  have hbacked := h.backed
  have hmul := magnitude_mul_le x.bank signedUsd
  have hrise : x.bank.solYieldIndex ≤ solYieldIndex ∧
      solYieldIndex ≤ x.bank.solYieldIndex + magnitude x.bank signedUsd ∧ solYieldIndex < 2 ^ 128 := by
    unfold sat128 at hindex
    omega
  have hgained : signedUsd.toNat = signedUsd.natAbs ∧ (-signedUsd).toNat = 0 := by omega
  constructor
  · exact hrise.2.2
  · exact h.principal
  · intro key
    exact (h.below key).imp_right fun hle => hle.trans hrise.1
  · have hpending := (pendingSum_mono x.lamports x.checkpoint hrise.2.1).trans
      (pendingSum_add x.lamports x.checkpoint x.bank.solYieldIndex (magnitude x.bank signedUsd))
    rw [← h.principal] at hpending
    change solYieldScale * (x.credited + (x.losses + (-signedUsd).toNat)) +
      pendingSum x.lamports x.checkpoint solYieldIndex ≤ solYieldScale * (x.gains + signedUsd.toNat)
    rw [hgained.1, hgained.2, Nat.add_zero, Nat.mul_add solYieldScale x.gains]
    omega

theorem sound_loss {solYieldIndex} (h : CarrySound x) (hloss : signedUsd < 0)
    (hindex : solYieldIndex = x.bank.solYieldIndex - magnitude x.bank signedUsd)
    (hexact : signedUsd.natAbs * solYieldScale = magnitude x.bank signedUsd * x.bank.solTotalLamports)
    (habove : ∀ key, x.lamports key = 0 ∨ x.checkpoint key + magnitude x.bank signedUsd ≤ x.bank.solYieldIndex) :
    CarrySound { x with
      bank := { x.bank with solYieldIndex }
      gains := x.gains + signedUsd.toNat
      losses := x.losses + (-signedUsd).toNat } := by
  have hword := h.word
  have hbacked := h.backed
  have hlost : signedUsd.toNat = 0 ∧ (-signedUsd).toNat = signedUsd.natAbs := by omega
  constructor
  · exact (hindex.trans_le (Nat.sub_le _ _)).trans_lt hword
  · exact h.principal
  · intro key
    exact (habove key).imp_right fun hle => (Nat.le_sub_of_add_le hle).trans_eq hindex.symm
  · have hpending := pendingSum_sub x.lamports x.checkpoint x.bank.solYieldIndex habove
    rw [← hindex, ← h.principal, Nat.mul_comm, ← hexact] at hpending
    change solYieldScale * (x.credited + (x.losses + (-signedUsd).toNat)) +
      pendingSum x.lamports x.checkpoint solYieldIndex ≤ solYieldScale * (x.gains + signedUsd.toNat)
    rw [hlost.1, hlost.2, Nat.add_zero, ← Nat.add_assoc, Nat.mul_add solYieldScale (x.credited + x.losses),
      Nat.mul_comm solYieldScale signedUsd.natAbs]
    omega

theorem settleSolYield_eq (account bank) :
    (settleSolYield account bank).1.depositedLamports = account.depositedLamports ∧
      (settleSolYield account bank).1.solYieldCheckpoint = bank.solYieldIndex ∧
      (settleSolYield account bank).2.1.solYieldIndex = bank.solYieldIndex ∧
      (settleSolYield account bank).2.1.solTotalLamports = bank.solTotalLamports ∧
      solYieldScale * (settleSolYield account bank).2.2 ≤
        account.depositedLamports * (bank.solYieldIndex - account.solYieldCheckpoint) := by
  unfold settleSolYield
  dsimp only
  split_ifs
  · exact ⟨rfl, rfl, rfl, rfl, by simp⟩
  · refine ⟨rfl, rfl, rfl, rfl, ?_⟩
    have howed : sat (sat128 ((bank.solYieldIndex - account.solYieldCheckpoint) * account.depositedLamports) /
        solYieldScale) ≤ (bank.solYieldIndex - account.solYieldCheckpoint) * account.depositedLamports /
          solYieldScale := (min_le_left _ _).trans (Nat.div_le_div_right (min_le_left _ _))
    apply (Nat.mul_le_mul_left solYieldScale howed).trans
    apply (Nat.mul_div_le _ _).trans_eq
    exact Nat.mul_comm _ _

theorem sound_settle (h : CarrySound x) (key : Pubkey) (hstep : carry x (.settle key) = .ok x') : CarrySound x' := by
  obtain ⟨hlamports, hcheckpoint, hindex, htotal, howed⟩ := settleSolYield_eq (x.accounts key) x.bank
  have hstep := Except.ok.inj hstep
  generalize settleSolYield (x.accounts key) x.bank = settled at *
  subst hstep
  have hsame : Carry.lamports { x with
      bank := settled.2.1
      accounts := update x.accounts key settled.1
      credited := x.credited + settled.2.2 } = x.lamports := by
    funext b
    unfold Carry.lamports
    by_cases hb : b = key
    · subst hb
      simp [hlamports]
    · simp [hb]
  have hmoved : Carry.checkpoint { x with
      bank := settled.2.1
      accounts := update x.accounts key settled.1
      credited := x.credited + settled.2.2 } = update x.checkpoint key x.bank.solYieldIndex := by
    funext b
    unfold Carry.checkpoint
    by_cases hb : b = key
    · subst hb
      simp [hcheckpoint]
    · simp [hb]
  have hbacked := h.backed
  have hpending := pendingSum_update x.lamports x.checkpoint x.bank.solYieldIndex key
  constructor
  · exact hindex.trans_lt h.word
  · rw [hsame]
    exact htotal.trans h.principal
  · intro b
    rw [hsame, hmoved]
    dsimp only
    rw [hindex]
    by_cases hb : b = key
    · right
      rw [hb, update_self]
    · rw [update_of_ne hb]
      exact h.below b
  · rw [hsame, hmoved]
    dsimp only
    rw [hindex, Nat.add_right_comm, Nat.mul_add solYieldScale (x.credited + x.losses)]
    change solYieldScale * settled.2.2 ≤ x.lamports key * (x.bank.solYieldIndex - x.checkpoint key) at howed
    omega

theorem carry_sound (x c x') (h : CarrySound x) (hc : LossUncredited x c)
    (hstep : carry x c = .ok x') : CarrySound x' := by
  cases c with
  | accrue signedUsd =>
    dsimp only [carry] at hstep
    cases hbank : x.bank.accrueSolYield signedUsd with
    | none =>
      rw [hbank] at hstep
      cases hstep
      exact h
    | some =>
      rw [hbank] at hstep
      cases hstep
      obtain ⟨index, rfl, ⟨hgain, hindex⟩ | ⟨hloss, hlow, hindex⟩⟩ := accrueSolYield_eq hbank
      · exact sound_gain h hgain hindex
      · obtain ⟨hexact, habove⟩ := hc hloss hlow
        exact sound_loss h hloss hindex hexact habove
  | settle key => exact sound_settle h key hstep

/-- As long as no loss takes back what was credited, and none is rounded, no more is credited than was gained. -/
theorem carry_backed (bank : SolBank) (accounts : Pubkey → SolAccount) (calls : List CarryCall)
    (hword : bank.solYieldIndex < 2 ^ 128) (hprincipal : bank.solTotalLamports = solClaims accounts)
    (hsettled : ∀ key, (accounts key).depositedLamports = 0 ∨ (accounts key).solYieldCheckpoint = bank.solYieldIndex)
    (hlosses : EveryStep carry LossUncredited ⟨bank, accounts, 0, 0, 0⟩ calls) :
    EveryState carry Carry.Backed ⟨bank, accounts, 0, 0, 0⟩ calls := by
  apply everyState_of_invariant (fun _ h => CarrySound.backs h) carry_sound _ hlosses
  constructor
  · exact hword
  · exact hprincipal
  · intro key
    exact (hsettled key).imp_right Eq.le
  · have hnone : pendingSum (Carry.lamports ⟨bank, accounts, 0, 0, 0⟩) (Carry.checkpoint ⟨bank, accounts, 0, 0, 0⟩)
        bank.solYieldIndex = 0 := by
      apply Finset.sum_eq_zero
      intro key _
      obtain hzero | hsame := hsettled key
      · simp [Carry.lamports, hzero]
      · simp [Carry.checkpoint, hsame]
    dsimp only
    rw [hnone]
    exact le_rfl

end

def oneAccount : Pubkey → SolAccount := update SolState.empty.accounts 1 ⟨10 ^ 9, 0, 0⟩

def twoAccounts : Pubkey → SolAccount := update oneAccount 2 ⟨10 ^ 9, 0, 0⟩

def twoCoins (solYieldIndex : ℕ) : SolBank := ⟨2 * 10 ^ 9, 0, 0, 0, 0, 0, solYieldIndex⟩

theorem twoCoins_principal : (twoCoins 0).solTotalLamports = solClaims twoAccounts := by
  have hnone : solClaims SolState.empty.accounts = 0 := Finset.sum_eq_zero fun _ _ => rfl
  have hfirst : solClaims oneAccount + 0 = solClaims SolState.empty.accounts + 10 ^ 9 := solClaims_update _ _ _
  have hother : (oneAccount 2).depositedLamports = 0 := by decide +kernel
  have hsecond : solClaims twoAccounts + (oneAccount 2).depositedLamports = solClaims oneAccount + 10 ^ 9 :=
    solClaims_update _ _ _
  have htotal : (twoCoins 0).solTotalLamports = 2 * 10 ^ 9 := by decide
  omega

theorem twoAccounts_checkpoint (key : Pubkey) : (twoAccounts key).solYieldCheckpoint = 0 := by
  unfold twoAccounts oneAccount
  by_cases hsecond : key = 2
  · rw [hsecond, update_self]
  · rw [update_of_ne hsecond]
    by_cases hfirst : key = 1
    · rw [hfirst, update_self]
    · rw [update_of_ne hfirst]
      rfl

def lossBeforeCredit : List CarryCall :=
  [.accrue (100 * 10 ^ 6), .accrue (-40 * 10 ^ 6), .settle 1, .settle 2]

theorem carry_backed_pending : EveryState carry Carry.Backed ⟨twoCoins 0, twoAccounts, 0, 0, 0⟩ lossBeforeCredit := by
  apply carry_backed _ _ _ (by decide) twoCoins_principal
  · intro key
    exact .inr (twoAccounts_checkpoint key)
  · have hgain : carry ⟨twoCoins 0, twoAccounts, 0, 0, 0⟩ (.accrue (100 * 10 ^ 6)) =
        .ok ⟨twoCoins (5 * 10 ^ 10), twoAccounts, 10 ^ 8, 0, 0⟩ := rfl
    refine ⟨fun hneg => absurd hneg (by decide), ?_⟩
    intro x hx
    obtain rfl := ok_unique hx hgain
    refine ⟨fun _ _ => ⟨by decide +kernel, fun key => .inr ?_⟩, fun x _ => ⟨trivial, fun x _ => ⟨trivial, fun _ _ => trivial⟩⟩⟩
    change (twoAccounts key).solYieldCheckpoint + _ ≤ 5 * 10 ^ 10
    rw [twoAccounts_checkpoint]
    decide +kernel

theorem credited_beyond_gains : (twoCoins 0).solTotalLamports = solClaims twoAccounts ∧
    (∃ x, runAll carry ⟨twoCoins 0, twoAccounts, 0, 0, 0⟩ [.accrue (100 * 10 ^ 6), .settle 1,
        .settle 2, .accrue (-40 * 10 ^ 6)] = .ok x ∧
      x.gains = 100 * 10 ^ 6 ∧ x.losses = 40 * 10 ^ 6 ∧ x.credited = 100 * 10 ^ 6 ∧ ¬ x.Backed) ∧
    ∃ x, runAll carry ⟨twoCoins 0, twoAccounts, 0, 0, 0⟩ [.accrue (100 * 10 ^ 6), .settle 1,
        .settle 2, .accrue (-40 * 10 ^ 6), .settle 1, .settle 2, .accrue (40 * 10 ^ 6), .settle 1, .settle 2] = .ok x ∧
      x.gains = 140 * 10 ^ 6 ∧ x.losses = 40 * 10 ^ 6 ∧ x.credited = 140 * 10 ^ 6 := by
  refine ⟨twoCoins_principal, ?_⟩
  simp only [Carry.Backed]
  decide +kernel

end QuidProtocol.Sol
