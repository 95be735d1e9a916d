import QuidProtocol.SwapIn.Driver
import QuidProtocol.Vault.Steps

/-!
What the contract credits for a deposit, against what the watcher claims of it.
-/

namespace QuidProtocol.SwapIn

open Lib Btc
open Spv (Bytes32)

structure ScannedTx where
  tx : Tx
  legacy : tx.Legacy
  blockHeight : Option ℕ

def ScannedTx.txid (cr : Crypto) (t : ScannedTx) : Bytes32 := Btc.txid cr t.tx.serialize

def ScannedTx.outputs (cr : Crypto) (t : ScannedTx) : List ScannedOutput :=
  t.tx.outputs.zipIdx.map fun o => ⟨⟨t.txid cr, o.2 % 2 ^ 32⟩, o.1.value.toNat, o.1.script.bytes, t.blockHeight⟩

def ScannedTx.payments (t : ScannedTx) (spk : Bytes) : List ℕ :=
  ((t.tx.outputs.filter fun o => o.script.bytes = spk).map fun o => o.value.toNat).filter (0 < ·)

section Payments

variable {cr : Crypto} {t : ScannedTx} {spk : Bytes}

theorem sum_filter_pos (l : List ℕ) : (l.filter (0 < ·)).sum = l.sum := by
  induction l with
  | nil => rfl
  | cons n l ih =>
    rw [List.filter_cons]
    split_ifs with hn
    · rw [List.sum_cons, List.sum_cons, ih]
    · rw [List.sum_cons, ih]
      simp only [decide_eq_true_eq] at hn
      omega

theorem sum_eq_mem_iff {l : List ℕ} {n : ℕ} (hn : n ∈ l) (hpos : ∀ m ∈ l, 0 < m) : l.sum = n ↔ l.length = 1 := by
  obtain ⟨before, behind, rfl⟩ := List.append_of_mem hn
  have hnil : ∀ {part : List ℕ}, (∀ m ∈ part, 0 < m) → (part.sum = 0 ↔ part.length = 0) := by
    intro part hpart
    cases part with
    | nil => simp
    | cons m part =>
      have := hpart m List.mem_cons_self
      simp only [List.sum_cons, List.length_cons]
      omega
  have hbefore := hnil fun m hm => hpos m (List.mem_append_left _ hm)
  have hbehind := hnil fun m hm => hpos m (List.mem_append_right _ (List.mem_cons_of_mem _ hm))
  simp only [List.sum_append, List.sum_cons, List.length_append, List.length_cons]
  omega

theorem valueTo_eq_payments : t.tx.valueTo spk = (t.payments spk).sum := (sum_filter_pos _).symm

theorem mem_payments {o} (ho : o ∈ t.outputs cr) (hspk : o.spk = spk) (hvalue : 0 < o.value) :
    o.value ∈ t.payments spk := by
  obtain ⟨⟨output, i⟩, hmem, rfl⟩ := List.mem_map.mp ho
  have houtput := List.fst_mem_of_mem_zipIdx hmem
  exact List.mem_filter.mpr ⟨List.mem_map.mpr ⟨output, List.mem_filter.mpr ⟨houtput, decide_eq_true hspk⟩, rfl⟩,
    decide_eq_true hvalue⟩

end Payments

variable {cr : Crypto} {internalKey : Bytes32} {height : UInt32} {swap : OnchainSwapIn}

structure TxIndex (cr : Crypto) where
  txs : List ScannedTx
  unique : ∀ t ∈ txs, ∀ t' ∈ txs, t.txid cr = t'.txid cr → t = t'

def TxIndex.outputs {cr : Crypto} (index : TxIndex cr) : List ScannedOutput := index.txs.flatMap (ScannedTx.outputs cr)

theorem verifySwapInDeposit_eq {t : ScannedTx}
    (hkey : swapInDepositKey cr internalKey swap.deposit.terms swap.deposit.userRefund height = .ok swap.depositKey)
    (hpaid : t.tx.valueTo swap.spk ≠ 0) :
    verifySwapInDeposit cr internalKey swap.deposit.terms swap.deposit.userRefund height t.tx.serialize =
      .ok (t.tx.valueTo swap.spk) := by
  unfold verifySwapInDeposit
  rw [hkey, ok_bind, Tx.sumOutputValuesToScript_serialize t.legacy]
  exact bind_eq_ok.mpr ⟨_, mapError_eq_ok.mpr rfl, bind_eq_ok.mpr ⟨(), require_eq_ok.mpr hpaid, rfl⟩⟩

theorem TxIndex.value_mem_payments {index : TxIndex cr} {tip minConfs : ℕ} {d : ConfirmedDeposit} {t : ScannedTx}
    (hfind : findConfirmedDeposit index.outputs swap.spk tip minConfs = some d) (ht : t ∈ index.txs)
    (hid : t.txid cr = d.outpoint.txid) : d.value ∈ t.payments swap.spk := by
  obtain ⟨o, ho, rfl, -⟩ := exists_of_findConfirmedDeposit hfind
  obtain ⟨hmem, hspk, hvalue, -⟩ := mem_candidates.mp ho
  obtain ⟨t', ht', hout⟩ := List.mem_flatMap.mp hmem
  have hsame : t = t' := by
    apply index.unique t ht t' ht'
    obtain ⟨p, -, rfl⟩ := List.mem_map.mp hout
    exact hid
  rw [hsame]
  exact mem_payments hout hspk hvalue

section Sample

def paidSwapIn : OnchainSwapIn :=
  { sampleSwapIn with depositKey := (swapInDepositKey plainCrypto 3 sampleTerms 7 1000).toOption.getD 0 }

def paidTimes (n : Fin 0xfd) : ScannedTx where
  tx :=
    { version := 2
      inputs := [⟨7, 1, ⟨[0x52], .byte, by decide⟩, 0xffffffff⟩]
      inputsWidth := .byte
      inputs_fit := by decide
      outputs := List.replicate n ⟨250000, ⟨paidSwapIn.spk, .byte, by decide +kernel⟩⟩
      outputsWidth := .byte
      outputs_fit := List.length_replicate.trans_lt n.isLt
      locktime := 0 }
  legacy := .inl (List.cons_ne_nil _ _)
  blockHeight := some 890

def paidIndex (n : Fin 0xfd) : TxIndex plainCrypto where
  txs := [paidTimes n]
  unique := by
    intro t ht t' ht' _
    rw [List.mem_singleton.mp ht, List.mem_singleton.mp ht']

def paidPass (n : Fin 0xfd) (h : ∀ o ∈ (paidIndex n).outputs, ∀ o' ∈ (paidIndex n).outputs,
    o.outpoint = o'.outpoint → o = o') : Pass where
  tip := 900
  fee := 1000
  index := ⟨(paidIndex n).outputs, h⟩
  answers _ := ⟨true, true, ⟨true, false, 500, some (250000 * n), true, 500, true⟩, true⟩

def paidWatch : WatchState := ⟨⟨[paidSwapIn], by decide⟩, fun _ => none, false⟩

def paidDeposit (n : Fin 0xfd) : ConfirmedDeposit := ⟨⟨(paidTimes n).txid plainCrypto, 0⟩, 250000⟩

def pooledVault : Vault.State := { Vault.deployed (10 ^ 33) with core := ⟨0, 10 ^ 9, 10 ^ 8, 0, 0, 0, 0, 0⟩ }

end Sample

/-- The contract credits what the watcher claims just when the transaction pays the script once. -/
theorem credited_eq_claimed_iff (cr : Crypto) (internalKey : Bytes32) (height : UInt32) (swap : OnchainSwapIn)
    (hkey : swapInDepositKey cr internalKey swap.deposit.terms swap.deposit.userRefund height = .ok swap.depositKey)
    (index : TxIndex cr) (minConfs : ℕ) (x : WatchState) (pass : Pass) (hindex : pass.index.outputs = index.outputs)
    (hswap : swap ∈ x.registry.pending) (d : ConfirmedDeposit) (refundSats : ℕ) (ok : Bool)
    (hclaim : Action.claim swap.swapId d refundSats ok ∈ (driveSwapInPass minConfs x pass).2)
    (t : ScannedTx) (ht : t ∈ index.txs) (hid : t.txid cr = d.outpoint.txid) :
    ∃ sats, verifySwapInDeposit cr internalKey swap.deposit.terms swap.deposit.userRefund height t.tx.serialize =
        .ok sats ∧ d.value ≤ sats ∧ (sats = d.value ↔ (t.payments swap.spk).length = 1) ∧
      ((t.payments swap.spk).length = 1 → ∀ env v seller token floor consumed v',
        Vault.creditSwapIn env v seller sats token floor = .ok (consumed, v') → consumed ≤ d.value) := by
  have hfind := found_of_mem_driveSwapInPass hswap rfl hclaim
  rw [hindex] at hfind
  have hmem : d.value ∈ t.payments swap.spk := index.value_mem_payments hfind ht hid
  have hpos : ∀ n ∈ t.payments swap.spk, 0 < n := fun n hn => of_decide_eq_true (List.mem_filter.mp hn).2
  have hle : d.value ≤ t.tx.valueTo swap.spk := by
    rw [valueTo_eq_payments]
    exact List.le_sum_of_mem hmem
  have honce := sum_eq_mem_iff hmem hpos
  rw [← valueTo_eq_payments] at honce
  have hpaid := hpos d.value hmem
  refine ⟨_, verifySwapInDeposit_eq hkey (by omega), hle, honce, ?_⟩
  intro hone env v seller token floor consumed v' hcredit
  rw [← honce.mpr hone]
  exact Vault.creditSwapIn_le hcredit

theorem credited_eq_claimed_once :
    verifySwapInDeposit plainCrypto 3 sampleTerms 7 1000 (paidTimes 1).tx.serialize = .ok 250000 ∧
      (paidDeposit 1).value = 250000 := by
  obtain ⟨sats, hsats, -, hiff, -⟩ := credited_eq_claimed_iff plainCrypto 3 1000 paidSwapIn (by decide +kernel)
    (paidIndex 1) 6 paidWatch (paidPass 1 (by decide +kernel)) rfl List.mem_cons_self (paidDeposit 1) 0 true
    (by decide +kernel) (paidTimes 1) List.mem_cons_self rfl
  rw [hiff.mpr (by decide +kernel)] at hsats
  exact ⟨hsats, rfl⟩

theorem credited_exceeds_claimed : swapInDepositKey plainCrypto 3 sampleTerms 7 1000 = .ok paidSwapIn.depositKey ∧
      Action.claim paidSwapIn.swapId (paidDeposit 2) 0 true ∈
        (driveSwapInPass 6 paidWatch (paidPass 2 (by decide +kernel))).2 ∧ (paidDeposit 2).value = 250000 ∧
      verifySwapInDeposit plainCrypto 3 sampleTerms 7 1000 (paidTimes 2).tx.serialize = .ok 500000 ∧
      settleFloorUsd sampleTerms 500000 = .ok 248750000 ∧
      okAnd (Vault.creditSwapIn Vault.quietEnv pooledVault sampleTerms.seller 500000 sampleTerms.token 248750000)
        (fun r => r.1 = 500000) = true :=
  ⟨by decide +kernel, by decide +kernel, rfl, by decide +kernel, by decide +kernel, by decide +kernel⟩

end QuidProtocol.SwapIn
