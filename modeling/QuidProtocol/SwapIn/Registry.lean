import QuidProtocol.Btc.Keys
import QuidProtocol.Lib.Machine

/-!
`swap_in_onchain.rs`, `swap.rs` and `swap_in_api.rs` of the hop: the terms, the refund leaf and the floor of a swap-in,
its registration, and the durable registry behind it.
-/

namespace QuidProtocol.SwapIn

open Lib Btc
open Spv (Bytes32)

section

open Basket

inductive LockTime
  | blocks (height : UInt32)
  | seconds (time : UInt32)
  deriving DecidableEq

def LockTime.toConsensusU32 : LockTime → UInt32
  | .blocks height => height
  | .seconds time => time

def copyFromSlice (buf : Bytes) (start : ℕ) (src : Bytes) : Bytes :=
  buf.take start ++ (src ++ buf.drop (start + src.length))

theorem copyFromSlice_append {before region} (behind src : Bytes) {start} (hstart : before.length = start)
    (hlength : region.length = src.length) :
    copyFromSlice (before ++ (region ++ behind)) start src = before ++ (src ++ behind) := by
  subst hstart
  unfold copyFromSlice
  rw [List.take_left, ← hlength, ← List.drop_drop, List.drop_left, List.drop_left]

variable (cr : Crypto)

def termsBuffer (seller token pricePerBtc : Bytes) (slippageBps : UInt16) : Bytes :=
  let buf := List.replicate 128 0
  let buf := copyFromSlice buf 12 seller
  let buf := copyFromSlice buf 44 token
  let buf := copyFromSlice buf 64 pricePerBtc
  copyFromSlice buf 126 (toBytesBE 2 slippageBps.toNat)

def termsCommitment (seller token pricePerBtc : Bytes) (slippageBps : UInt16) : Bytes32 :=
  cr.sha256 (termsBuffer seller token pricePerBtc slippageBps)

def pushSlice (data : Bytes) : Bytes :=
  let n := data.length
  let opcode :=
    if n < 0x4c then [UInt8.ofNat n]
    else if n < 0x100 then [0x4c, UInt8.ofNat n]
    else if n < 0x10000 then 0x4d :: toBytesLE 2 n
    else 0x4e :: toBytesLE 4 n
  opcode ++ data

def scriptIntLoop : ℕ → ℕ → Bytes
  | 0, _ => []
  | fuel + 1, abs =>
    if 0xff < abs then UInt8.ofNat abs :: scriptIntLoop fuel (abs / 256)
    else if 0x80 ≤ abs then [UInt8.ofNat abs, 0x00]
    else [UInt8.ofNat abs]

def pushInt (n : ℕ) : Bytes :=
  if n = 0 then [0x00]
  else if n ≤ 16 then [UInt8.ofNat (0x50 + n)]
  else pushSlice (scriptIntLoop 8 n)

def refundLeaf (userRefund : Bytes32) (cltv : LockTime) (terms : Bytes32) : Bytes :=
  pushSlice (toBytesBE 32 terms.toNat) ++ ([0x75] ++ (pushInt cltv.toConsensusU32.toNat ++ ([0xb1] ++ ([0x75] ++
    (pushSlice (toBytesBE 32 userRefund.toNat) ++ [0xac])))))

def swapInFloorUsd (sats : UInt64) (pricePerBtc : ℕ) (slippageBps : UInt16) : ℕ :=
  let expected := sats.toNat * pricePerBtc % 2 ^ 256 / 10 ^ 8
  let keep := 10000 - min slippageBps.toNat 10000
  expected * keep % 2 ^ 256 / 10000

def swapTerms (terms : Terms) : Bytes32 :=
  termsCommitment cr (toBytesBE 20 terms.seller.word) (toBytesBE 20 terms.token.word)
    (toBytesBE 32 terms.pricePerBtc) terms.slippageBps

theorem termsBuffer_eq {seller token pricePerBtc} (hseller : seller.length = 20) (htoken : token.length = 20)
    (hprice : pricePerBtc.length = 32) (slippageBps : UInt16) : termsBuffer seller token pricePerBtc slippageBps =
      List.replicate 12 0 ++ (seller ++ (List.replicate 12 0 ++ (token ++ (pricePerBtc ++
        (List.replicate 30 0 ++ toBytesBE 2 slippageBps.toNat))))) := by
  have hzero : List.replicate 128 (0 : UInt8) =
      List.replicate 12 0 ++ (List.replicate 20 0 ++ (List.replicate 12 0 ++ (List.replicate 20 0 ++
        (List.replicate 32 0 ++ (List.replicate 30 0 ++ (List.replicate 2 0 ++ [])))))) := by decide
  unfold termsBuffer
  rw [hzero]
  dsimp only
  rw [copyFromSlice_append _ _ (by simp) (by simp [hseller])]
  rw [← List.append_assoc _ seller, ← List.append_assoc _ (List.replicate 12 0),
    copyFromSlice_append _ _ (by simp [hseller]) (by simp [htoken])]
  rw [← List.append_assoc _ token, copyFromSlice_append _ _ (by simp [hseller, htoken]) (by simp [hprice])]
  rw [← List.append_assoc _ pricePerBtc, ← List.append_assoc _ (List.replicate 30 0),
    copyFromSlice_append _ _ (by simp [hseller, htoken, hprice]) (by simp)]
  simp

theorem word_lt (a : Address) : (a.word : ℕ) < 256 ^ 20 := lt_of_lt_of_eq a.word.isLt (by norm_num)

theorem swapTerms_eq (terms : Terms) : swapTerms cr terms = Btc.termsCommitment cr terms := by
  have hslippage : terms.slippageBps.toNat < 256 ^ 2 := terms.slippageBps.toNat_lt
  unfold swapTerms termsCommitment Btc.termsCommitment
  rw [termsBuffer_eq (by simp) (by simp) (by simp), toBytesBE_of_lt 12 (word_lt terms.seller),
    toBytesBE_of_lt 12 (word_lt terms.token), toBytesBE_of_lt 30 hslippage]
  simp only [List.append_assoc]

theorem byte_drop {n x : ℕ} (hlow : 256 ^ (n + 1) ≤ x) (hhigh : x < 256 ^ (n + 2)) :
    256 ≤ x ∧ 256 ^ n ≤ x / 256 ∧ x / 256 < 256 ^ (n + 1) := by
  rw [pow_succ] at hlow hhigh
  have hbase := Nat.one_le_pow n 256 (by norm_num)
  exact ⟨by omega, by omega, by omega⟩

theorem scriptIntLoop_eq (fuel : ℕ) {n x} (hn : n < fuel) (hlow : 256 ^ n ≤ x) (hhigh : x < 256 ^ (n + 1)) :
    scriptIntLoop fuel x = toBytesLE (n + 1) x ++ (if 0x80 ≤ x / 256 ^ n then [0x00] else []) := by
  induction n generalizing fuel x with
  | zero =>
    obtain ⟨fuel, rfl⟩ := Nat.exists_eq_succ_of_ne_zero (by omega : fuel ≠ 0)
    rw [scriptIntLoop, if_neg (by omega)]
    simp only [toBytesLE, pow_zero, Nat.div_one]
    split_ifs <;> rfl
  | succ n ih =>
    obtain ⟨fuel, rfl⟩ := Nat.exists_eq_succ_of_ne_zero (by omega : fuel ≠ 0)
    obtain ⟨hbase, hlow, hhigh⟩ := byte_drop hlow hhigh
    rw [scriptIntLoop, if_pos (by omega), ih fuel (by omega) hlow hhigh, Nat.div_div_eq_div_mul, ← pow_succ']
    rfl

theorem scriptNumLoop_eq {fuel n x} (m : ℕ) (hn : n < fuel) (hlow : 256 ^ n ≤ x) (hhigh : x < 256 ^ (n + 1)) :
    scriptNumLoop fuel m x = m + n + 1 := by
  induction n generalizing fuel m x with
  | zero =>
    obtain ⟨fuel, rfl⟩ := Nat.exists_eq_succ_of_ne_zero (by omega : fuel ≠ 0)
    rw [scriptNumLoop, if_pos (by omega), Nat.shiftRight_eq_div_pow,
      Nat.div_eq_of_lt (show x < 2 ^ 8 from hhigh)]
    cases fuel <;> rfl
  | succ n ih =>
    obtain ⟨fuel, rfl⟩ := Nat.exists_eq_succ_of_ne_zero (by omega : fuel ≠ 0)
    obtain ⟨hbase, hlow, hhigh⟩ := byte_drop hlow hhigh
    rw [scriptNumLoop, if_pos (by omega), Nat.shiftRight_eq_div_pow, ih (m + 1) (by omega) hlow hhigh]
    omega

theorem scriptNumLength_spec {v} (hv : v ≠ 0) :
    ∃ n < 4, scriptNumLength v = n + 1 ∧ 256 ^ n ≤ v.toNat ∧ v.toNat < 256 ^ (n + 1) := by
  have hne : v.toNat ≠ 0 := fun h => hv (UInt32.toNat_inj.mp h)
  have hlt : Nat.log 256 v.toNat < 4 := Nat.log_lt_of_lt_pow hne v.toNat_lt
  have hlow := Nat.pow_log_le_self 256 hne
  have hhigh := Nat.lt_pow_succ_log_self (by norm_num : 1 < 256) v.toNat
  refine ⟨_, hlt, ?_, hlow, hhigh⟩
  rw [scriptNumLength, scriptNumLoop_eq 0 hlt hlow hhigh, Nat.zero_add]

theorem scriptIntLoop_eq_scriptNum {v} (hv : v ≠ 0) : scriptIntLoop 8 v.toNat = scriptNum v := by
  obtain ⟨n, hn, hlength, hlow, hhigh⟩ := scriptNumLength_spec hv
  unfold scriptNum
  rw [if_neg hv, hlength, scriptIntLoop_eq 8 (by omega) hlow hhigh]
  rfl

theorem scriptNum_length_le (v : UInt32) : (scriptNum v).length ≤ 5 := by
  unfold scriptNum
  split_ifs with hv
  · simp
  · obtain ⟨n, hn, hlength, -, -⟩ := scriptNumLength_spec hv
    dsimp only
    rw [hlength, List.length_append, toBytesLE_length]
    split_ifs
    all_goals
      simp
      omega

theorem pushInt_eq {v} (hv : 17 ≤ v) : pushInt v.toNat = UInt8.ofNat (scriptNum v).length :: scriptNum v := by
  have hle : 17 ≤ v.toNat := hv
  have hne : v ≠ 0 := by
    rintro rfl
    simp at hle
  have hlength := scriptNum_length_le v
  unfold pushInt pushSlice
  rw [if_neg (by omega), if_neg (by omega), scriptIntLoop_eq_scriptNum hne]
  dsimp only
  rw [if_pos (by omega)]
  rfl

theorem pushSlice_bytes32 (x : Bytes32) : pushSlice (toBytesBE 32 x.toNat) = 0x20 :: toBytesBE 32 x.toNat := by
  unfold pushSlice
  dsimp only
  rw [toBytesBE_length, if_pos (by norm_num)]
  rfl

theorem refundLeaf_eq (terms userRefund) {cltvHeight} (hheight : 17 ≤ cltvHeight) :
    refundLeaf userRefund (.blocks cltvHeight) (swapTerms cr terms) = cltvRefundLeaf cr terms userRefund cltvHeight := by
  unfold refundLeaf cltvRefundLeaf
  rw [swapTerms_eq, pushSlice_bytes32, pushSlice_bytes32, LockTime.toConsensusU32, pushInt_eq hheight]
  simp

theorem swapInFloorUsd_eq (terms sats) (hfits : sats.toNat * terms.pricePerBtc < 2 ^ 256) :
    settleFloorUsd terms sats.toNat = .ok (swapInFloorUsd sats terms.pricePerBtc terms.slippageBps) := by
  have hkeep : 10000 - min terms.slippageBps.toNat 10000 = 10000 - terms.slippageBps.toNat := by omega
  have hsecond : sats.toNat * terms.pricePerBtc / 10 ^ 8 * (10000 - terms.slippageBps.toNat) < 2 ^ 256 := by
    calc sats.toNat * terms.pricePerBtc / 10 ^ 8 * (10000 - terms.slippageBps.toNat)
        ≤ sats.toNat * terms.pricePerBtc / 10 ^ 8 * 10 ^ 8 := Nat.mul_le_mul_left _ (by omega)
      _ ≤ sats.toNat * terms.pricePerBtc := Nat.div_mul_le_self _ _
      _ < 2 ^ 256 := hfits
  unfold settleFloorUsd swapInFloorUsd
  rw [hkeep, checkedMul_eq_ok.mpr ⟨hfits, rfl⟩, ok_bind, Nat.mod_eq_of_lt hfits]
  dsimp only
  rw [checkedMul_eq_ok.mpr ⟨hsecond, rfl⟩, ok_bind, Nat.mod_eq_of_lt hsecond]

theorem deposit_agrees (terms : Terms) (userRefund : Bytes32) (cltvHeight : UInt32) (hheight : 17 ≤ cltvHeight) :
    swapTerms cr terms = Btc.termsCommitment cr terms ∧
      refundLeaf userRefund (.blocks cltvHeight) (swapTerms cr terms) = cltvRefundLeaf cr terms userRefund cltvHeight ∧
      ∀ sats : UInt64, sats.toNat * terms.pricePerBtc < 2 ^ 256 →
        settleFloorUsd terms sats.toNat = .ok (swapInFloorUsd sats terms.pricePerBtc terms.slippageBps) :=
  ⟨swapTerms_eq cr terms, refundLeaf_eq cr terms userRefund hheight, swapInFloorUsd_eq terms⟩

def plainCrypto : Crypto where
  sha256 bs := bs.foldl (fun acc b => acc * 1000003 + BitVec.ofNat 256 b.toNat + 1) 7
  keccak256 := Spv.bytes32
  aggregate _ _ := none
  taprootOutputKeyWithLeaf key leaf := some (key + leaf)
  schnorrVerify _ _ _ _ := false

def sampleTerms : Terms := ⟨11, 12, 50000000000, 50⟩

theorem deposit_agrees_sample : refundLeaf 7 (.blocks 840288) (swapTerms plainCrypto sampleTerms) =
        cltvRefundLeaf plainCrypto sampleTerms 7 840288 ∧
      settleFloorUsd sampleTerms 250000 = .ok (swapInFloorUsd 250000 50000000000 50) := by
  have h := deposit_agrees plainCrypto sampleTerms 7 840288 (by decide)
  exact ⟨h.2.1, h.2.2 250000 (by decide)⟩

example : refundLeaf 7 (.blocks 16) (swapTerms plainCrypto sampleTerms) ≠
    cltvRefundLeaf plainCrypto sampleTerms 7 16 := by
  decide +kernel

end

instance Terms.instDecidableEq : DecidableEq Terms := fun t t' =>
  decidable_of_iff (t.seller = t'.seller ∧ t.token = t'.token ∧ t.pricePerBtc = t'.pricePerBtc ∧
    t.slippageBps = t'.slippageBps) (by cases t; cases t'; simp)

structure Deposit where
  terms : Terms
  userRefund : Bytes32
  cltv : LockTime
  deriving DecidableEq

structure OnchainSwapIn where
  swapId : Bytes32
  swapIndex : UInt32
  deposit : Deposit
  depositKey : Bytes32

structure OnchainConfig where
  hopKey : Bytes32
  cltvWindowBlocks : ℕ

variable (cr : Crypto) (cfg : OnchainConfig)

def tapLeafHashOf (script : Bytes) : Bytes32 := taggedHash cr tapLeafTag ([0xc0, UInt8.ofNat script.length] ++ script)

def depositFor (d : Deposit) : Option Bytes32 :=
  cr.taprootOutputKeyWithLeaf cfg.hopKey (tapLeafHashOf cr (refundLeaf d.userRefund d.cltv (swapTerms cr d.terms)))

def swapIdTag : Bytes :=
  [0x71, 0x75, 0x69, 0x64, 0x2d, 0x73, 0x77, 0x61, 0x70, 0x69, 0x6e, 0x2d, 0x6f, 0x6e, 0x63, 0x68, 0x61, 0x69, 0x6e,
    0x2d, 0x76, 0x31]

def swapIdOf (idx : UInt32) : Bytes32 := cr.keccak256 (swapIdTag ++ toBytesBE 4 idx.toNat)

structure Registry where
  pending : List OnchainSwapIn
  nodup : (pending.map OnchainSwapIn.swapId).Nodup

namespace Registry

def empty : Registry := ⟨[], List.nodup_nil⟩

def remove (r : Registry) (swapId : Bytes32) : Registry where
  pending := r.pending.filter fun p => p.swapId ≠ swapId
  nodup := r.nodup.sublist (List.filter_sublist.map _)

def register (r : Registry) (swap : OnchainSwapIn) : Registry where
  pending := swap :: (r.remove swap.swapId).pending
  nodup := by
    apply List.nodup_cons.mpr
    refine ⟨?_, (r.remove swap.swapId).nodup⟩
    simp [remove]

def nextIndexSeed (r : Registry) : UInt32 :=
  match (r.pending.map fun p => p.swapIndex.toNat).max? with
  | some m => UInt32.ofNat m + 1
  | none => 0

end Registry

structure ApiState where
  registry : Registry
  nextIndex : UInt32

def ApiState.start : ApiState := ⟨.empty, 0⟩

structure Request where
  tokenOk : Bool
  sats : UInt64
  terms : Terms
  userRefund : Bytes32

structure Response where
  depositKey : Bytes32
  swapId : Bytes32
  cltvHeight : UInt32

inductive ApiError
  | unauthorized
  | badRequest
  | badGateway
  | internal

def fromHeight (height : ℕ) : Option LockTime :=
  if height < 500000000 then some (.blocks (UInt32.ofNat height)) else none

def swapInOnchain (st : ApiState) (req : Request) (tip : Option ℕ) : ApiState × Except ApiError Response :=
  if ¬ req.tokenOk then (st, .error .unauthorized)
  else if req.sats = 0 then (st, .error .badRequest)
  else
    match tip with
    | none => (st, .error .badGateway)
    | some tip =>
      match fromHeight (tip + cfg.cltvWindowBlocks) with
      | none => (st, .error .badRequest)
      | some cltv =>
        let idx := st.nextIndex
        let st := { st with nextIndex := idx + 1 }
        let deposit := ⟨req.terms, req.userRefund, cltv⟩
        match depositFor cr cfg deposit with
        | none => (st, .error .internal)
        | some depositKey =>
          let swapId := swapIdOf cr idx
          ({ st with registry := st.registry.register ⟨swapId, idx, deposit, depositKey⟩ },
            .ok ⟨depositKey, swapId, cltv.toConsensusU32⟩)

inductive Call
  | register (req : Request) (tip : Option ℕ)
  | remove (swapId : Bytes32)
  | restart

def givenId (e : Call × Option (Except ApiError Response)) : Option Bytes32 :=
  e.2.bind fun answer => answer.toOption.map Response.swapId

def Call.isRestart : Call → Bool
  | .restart => true
  | _ => false

def step (st : ApiState) : Call → ApiState × Option (Except ApiError Response)
  | .register req tip =>
    let answer := swapInOnchain cr cfg st req tip
    (answer.1, some answer.2)
  | .remove swapId => ({ st with registry := st.registry.remove swapId }, none)
  | .restart => ({ st with nextIndex := st.registry.nextIndexSeed }, none)

def Call.deposit : Call → Option Deposit
  | .register req (some tip) => (fromHeight (tip + cfg.cltvWindowBlocks)).map fun cltv => ⟨req.terms, req.userRefund, cltv⟩
  | _ => none

inductive Effect (st : ApiState) (c : Call) : ApiState × Option (Except ApiError Response) → Prop
  | refused (e : ApiError) : Effect st c (st, some (.error e))
  | underived : Effect st c ({ st with nextIndex := st.nextIndex + 1 }, some (.error .internal))
  | registered (d : Deposit) (key : Bytes32) (hasked : c.deposit cfg = some d) (hkey : depositFor cr cfg d = some key) :
    Effect st c (⟨st.registry.register ⟨swapIdOf cr st.nextIndex, st.nextIndex, d, key⟩, st.nextIndex + 1⟩,
      some (.ok ⟨key, swapIdOf cr st.nextIndex, d.cltv.toConsensusU32⟩))
  | removed (swapId : Bytes32) : Effect st c ({ st with registry := st.registry.remove swapId }, none)
  | restarted (h : c.isRestart = true) : Effect st c ({ st with nextIndex := st.registry.nextIndexSeed }, none)

theorem swapInOnchain_effect (st req) (tip : Option ℕ) : Effect cr cfg st (.register req tip)
      ((swapInOnchain cr cfg st req tip).map id some) := by
  unfold swapInOnchain
  split
  · exact .refused _
  split
  · exact .refused _
  cases tip with
  | none => exact .refused _
  | some tip =>
    dsimp only
    cases hheight : fromHeight (tip + cfg.cltvWindowBlocks) with
    | none => exact .refused _
    | some cltv =>
      dsimp only
      cases hkey : depositFor cr cfg ⟨req.terms, req.userRefund, cltv⟩ with
      | none => exact .underived
      | some key => exact .registered _ key (by simp [Call.deposit, hheight]) hkey

theorem step_effect (st c) : Effect cr cfg st c (step cr cfg st c) := by
  cases c with
  | remove swapId => exact .removed swapId
  | restart => exact .restarted rfl
  | register req tip => exact swapInOnchain_effect cr cfg st req tip

/-- There are indices left, a registration asks for a deposit that is not pending, and a restart finds the last
index that was given out still pending. -/
def Careful (st : ApiState) (c : Call) : Prop :=
  st.nextIndex.toNat + 1 < 2 ^ 32 ∧ (∀ d ∈ c.deposit cfg, ∀ p ∈ st.registry.pending, p.deposit ≠ d) ∧
    (c.isRestart = true → st.nextIndex = 0 ∨ ∃ p ∈ st.registry.pending, p.swapIndex + 1 = st.nextIndex)
  deriving Decidable

structure Sound (ds : List Deposit) (st : ApiState) : Prop where
  index : ∀ p ∈ st.registry.pending, p.swapIndex.toNat < st.nextIndex.toNat
  deposit : ∀ p ∈ st.registry.pending, p.deposit ∈ ds ∧ depositFor cr cfg p.deposit = some p.depositKey
  distinct : st.registry.pending.Pairwise fun p q => p.deposit ≠ q.deposit

theorem succ_toNat {i : UInt32} (h : i.toNat + 1 < 2 ^ 32) : (i + 1).toNat = i.toNat + 1 := by
  rw [UInt32.toNat_add, UInt32.toNat_one]
  exact Nat.mod_eq_of_lt h

theorem mem_of_mem_remove {r : Registry} {swapId : Bytes32} {p : OnchainSwapIn} (h : p ∈ (r.remove swapId).pending) :
    p ∈ r.pending := List.mem_of_mem_filter h

variable {cr cfg} {ds : List Deposit} {st : ApiState} {c : Call}

theorem nextIndexSeed_eq (hs : Sound cr cfg ds st) (hindex : st.nextIndex.toNat + 1 < 2 ^ 32)
    (hlast : st.nextIndex = 0 ∨ ∃ p ∈ st.registry.pending, p.swapIndex + 1 = st.nextIndex) :
    st.registry.nextIndexSeed = st.nextIndex := by
  unfold Registry.nextIndexSeed
  cases hmax : (st.registry.pending.map fun p => p.swapIndex.toNat).max? with
  | none =>
    have hempty : st.registry.pending = [] := by simpa using List.max?_eq_none_iff.mp hmax
    rcases hlast with h | ⟨p, hp, -⟩
    · exact h.symm
    · rw [hempty] at hp
      cases hp
  | some m =>
    obtain ⟨hmem, hle⟩ := List.max?_eq_some_iff.mp hmax
    obtain ⟨q, hq, rfl⟩ := List.mem_map.mp hmem
    rcases hlast with h | ⟨p, hp, hlast⟩
    · have hlt := hs.index q hq
      rw [h] at hlt
      simp at hlt
    · have hq' := hs.index q hq
      have hp' := hle _ (List.mem_map_of_mem hp)
      have hlt := hs.index p hp
      have hsucc : p.swapIndex.toNat + 1 = st.nextIndex.toNat := by rw [← hlast, succ_toNat (by omega)]
      apply UInt32.toNat_inj.mp
      dsimp only
      rw [UInt32.ofNat_toNat, succ_toNat (by omega)]
      omega

section Effects

variable {r : ApiState × Option (Except ApiError Response)}

theorem Effect.nextIndex_le (h : Effect cr cfg st c r) (hs : Sound cr cfg ds st) (hc : Careful cfg st c) :
    st.nextIndex.toNat ≤ r.1.nextIndex.toNat := by
  cases h with
  | refused e | removed swapId => exact le_rfl
  | underived | registered d key hasked hkey => exact (Nat.le_succ _).trans_eq (succ_toNat hc.1).symm
  | restarted h => exact (congrArg UInt32.toNat (nextIndexSeed_eq hs hc.1 (hc.2.2 h))).ge

theorem Effect.index_given (h : Effect cr cfg st c r) (hc : Careful cfg st c) {swapId}
    (hgiven : givenId (c, r.2) = some swapId) :
    swapId = swapIdOf cr st.nextIndex ∧ st.nextIndex.toNat < r.1.nextIndex.toNat := by
  cases h with
  | refused e | underived => simp [givenId, Except.toOption] at hgiven
  | registered =>
    exact ⟨(Option.some.inj hgiven).symm, (Nat.lt_succ_self _).trans_eq (succ_toNat hc.1).symm⟩
  | removed swapId | restarted h => simp [givenId] at hgiven

theorem Effect.sound (h : Effect cr cfg st c r) (hs : Sound cr cfg ds st) (hc : Careful cfg st c)
    (hds : ∀ d, c.deposit cfg = some d → d ∈ ds) : Sound cr cfg ds r.1 := by
  have hle := h.nextIndex_le hs hc
  cases h with
  | refused => exact hs
  | underived | restarted h => exact ⟨fun p hp => (hs.index p hp).trans_le hle, hs.deposit, hs.distinct⟩
  | registered d key hasked hkey =>
    constructor
    · intro p hp
      rcases List.mem_cons.mp hp with rfl | hp
      · exact (Nat.lt_succ_self _).trans_eq (succ_toNat hc.1).symm
      · exact (hs.index p (mem_of_mem_remove hp)).trans_le hle
    · intro p hp
      rcases List.mem_cons.mp hp with rfl | hp
      · exact ⟨hds d hasked, hkey⟩
      · exact hs.deposit p (mem_of_mem_remove hp)
    · apply List.pairwise_cons.mpr
      refine ⟨?_, hs.distinct.sublist List.filter_sublist⟩
      intro p hp
      exact (hc.2.1 d hasked p (mem_of_mem_remove hp)).symm
  | removed =>
    refine ⟨fun p hp => hs.index p (mem_of_mem_remove hp), fun p hp => hs.deposit p (mem_of_mem_remove hp), ?_⟩
    exact hs.distinct.sublist List.filter_sublist

end Effects

def asked (cfg : OnchainConfig) (calls : List Call) : List Deposit := calls.filterMap (Call.deposit cfg)

/-- With careful calls no id is given out twice and no two pending swap-ins share an address. -/
theorem registrations_distinct (cr : Crypto) (cfg : OnchainConfig) (calls : List Call)
    (hid : Function.Injective (swapIdOf cr))
    (hfree : ∀ d ∈ asked cfg calls, ∀ d' ∈ asked cfg calls, depositFor cr cfg d = depositFor cr cfg d' → d = d')
    (hcareful : Machine.Along (step cr cfg) (Careful cfg) .start calls) :
    ((Machine.trace (step cr cfg) .start calls).filterMap givenId).Nodup ∧
      (Machine.run (step cr cfg) .start calls).registry.pending.Pairwise fun p q => p.depositKey ≠ q.depositKey := by
  have hasked : ∀ c ∈ calls, ∀ d, c.deposit cfg = some d → d ∈ asked cfg calls :=
    fun c hc d hd => List.mem_filterMap.mpr ⟨c, hc, hd⟩
  have hcalls := hcareful.and_forall_mem hasked
  have hstart : Sound cr cfg (asked cfg calls) .start := ⟨by simp [ApiState.start, Registry.empty],
    by simp [ApiState.start, Registry.empty], by simp [ApiState.start, Registry.empty]⟩
  have hstep (st : ApiState) (c : Call) (hs : Sound cr cfg (asked cfg calls) st)
      (hc : Careful cfg st c ∧ ∀ d, c.deposit cfg = some d → d ∈ asked cfg calls) :
      Sound cr cfg (asked cfg calls) (step cr cfg st c).1 := (step_effect cr cfg st c).sound hs hc.1 hc.2
  constructor
  · apply List.pairwise_filterMap.mpr
    -- an id that was given out belongs to an index below the counter
    apply Machine.trace_pairwise (H := fun e st => ∀ swapId, givenId e = some swapId →
      ∃ i : UInt32, swapId = swapIdOf cr i ∧ i.toNat < st.nextIndex.toNat) ?_ ?_ ?_ hstep hstart hcalls
    · intro st c hs hc swapId hgiven
      exact ⟨st.nextIndex, (step_effect cr cfg st c).index_given hc.1 hgiven⟩
    · intro e st c hs hc hheld swapId hgiven
      obtain ⟨i, hi, hlt⟩ := hheld swapId hgiven
      exact ⟨i, hi, hlt.trans_le ((step_effect cr cfg st c).nextIndex_le hs hc.1)⟩
    · intro e st c hs hc hheld swapId hgiven swapId' hgiven' heq
      obtain ⟨i, hi, hlt⟩ := hheld swapId hgiven
      have hnew := (step_effect cr cfg st c).index_given hc.1 hgiven'
      obtain rfl := hid (hi.symm.trans (heq.trans hnew.1))
      exact absurd hlt (lt_irrefl _)
  · have hend := Machine.run_invariant hstep hstart hcalls
    apply hend.distinct.imp_of_mem
    intro p q hp hq hne hkey
    have hp' := hend.deposit p hp
    have hq' := hend.deposit q hq
    exact hne (hfree _ hp'.1 _ hq'.1 (by rw [hp'.2, hq'.2, hkey]))

theorem plainCrypto_swapId_injective : Function.Injective (swapIdOf plainCrypto) := by
  intro i j h
  have hi := i.toNat_lt
  have hj := j.toNat_lt
  have htag := ofBytesBE_lt swapIdTag
  have hnat := congrArg BitVec.toNat h
  simp only [swapIdOf, plainCrypto, Spv.bytes32, BitVec.toNat_ofNat, ofBytesBE_append, ofBytesBE_toBytesBE,
    toBytesBE_length, show swapIdTag.length = 22 from rfl] at hnat htag
  apply UInt32.toNat_inj.mp
  omega

def sampleConfig : OnchainConfig := ⟨23, 288⟩

def sampleRequest (userRefund : Bytes32) : Request := ⟨true, 250000, sampleTerms, userRefund⟩

def sampleCalls : List Call :=
  [.register (sampleRequest 7) (some 840000), .register (sampleRequest 8) (some 840000),
    .remove (swapIdOf plainCrypto 0), .restart, .register (sampleRequest 7) (some 840001)]

theorem registrations_distinct_sample :
    ((Machine.trace (step plainCrypto sampleConfig) .start sampleCalls).filterMap givenId).Nodup ∧
      ((Machine.trace (step plainCrypto sampleConfig) .start sampleCalls).filterMap givenId).length = 3 := by
  refine ⟨(registrations_distinct plainCrypto sampleConfig sampleCalls plainCrypto_swapId_injective ?_ ?_).1, ?_⟩
  all_goals decide +kernel

theorem registrations_repeated : (Machine.trace (step plainCrypto sampleConfig) .start
        [.register (sampleRequest 7) (some 840000), .remove (swapIdOf plainCrypto 0), .restart,
          .register (sampleRequest 8) (some 840010)]).filterMap givenId =
      [swapIdOf plainCrypto 0, swapIdOf plainCrypto 0] ∧ ∃ p q, (Machine.run (step plainCrypto sampleConfig) .start
        [.register (sampleRequest 7) (some 840000), .register (sampleRequest 7) (some 840000)]).registry.pending =
      [p, q] ∧ p.swapId ≠ q.swapId ∧ p.depositKey = q.depositKey := by
  refine ⟨by decide +kernel, _, _, rfl, ?_, ?_⟩
  all_goals decide +kernel

end QuidProtocol.SwapIn
