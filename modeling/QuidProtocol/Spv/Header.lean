import Mathlib.Data.BitVec
import QuidProtocol.Lib.Bytes

/-!
`TargetsHelper.sol`, the difficulty targets of the header chain, and `BlockHeader.sol`, the 80 bytes of a block
header. SHA-256 stays a parameter.
-/

namespace QuidProtocol.Spv

open Lib

abbrev Bytes32 := BitVec 256

def expectedTargetBlocksTime : ℕ := 1209600

def difficultyAdjustmentInterval : ℕ := 2016

def initialTarget : Bytes32 := 0x00000000ffff0000000000000000000000000000000000000000000000000000

def targetFixedPointFactor : ℕ := 10 ^ 18

def maxTargetFactor : ℕ := 4

def maxTargetRatio : ℕ := targetFixedPointFactor * maxTargetFactor

def minTargetRatio : ℕ := targetFixedPointFactor / maxTargetFactor

def getEpochBlockNumber (blockHeight : ℕ) : ℕ := blockHeight % difficultyAdjustmentInterval

def isTargetAdjustmentBlock (blockHeight : ℕ) : Bool := getEpochBlockNumber blockHeight == 0 && decide (0 < blockHeight)

def mulDiv (x y denominator : ℕ) : Option ℕ :=
  if denominator ≠ 0 ∧ x * y / denominator < 2 ^ 256 then some (x * y / denominator) else none

def countNewTarget (currentTarget : Bytes32) (actualPassedTime : ℕ) : Option Bytes32 :=
  let currentRatio := actualPassedTime * targetFixedPointFactor / expectedTargetBlocksTime
  let currentRatio := min (max currentRatio minTargetRatio) maxTargetRatio
  (mulDiv currentTarget.toNat currentRatio targetFixedPointFactor).map fun quotient =>
    let target : Bytes32 := BitVec.ofNat 256 quotient
    if initialTarget < target then initialTarget else target

def countBlockWork (target : Bytes32) : ℕ := (~~~(0 : Bytes32) / (target + 1)).toNat

def byteAt (i : ℕ) (x : Bytes32) : ℕ := x.toNat / 256 ^ (31 - i) % 256

def shl (shift value : Bytes32) : Bytes32 := if shift.toNat < 256 then value <<< shift.toNat else 0

def shr (shift value : Bytes32) : Bytes32 := if shift.toNat < 256 then value >>> shift.toNat else 0

def bitsWord (bits : BitVec 32) : Bytes32 := bits.setWidth 256 <<< 224

def bitsToTarget (bits : BitVec 32) : Bytes32 :=
  let targetShift : Bytes32 := (0x20 - BitVec.ofNat 256 (byteAt 0 (bitsWord bits))) * 0x8
  shr targetShift (shl 0x8 (bitsWord bits))

def coefficientEnd (currentTarget : Bytes32) : ℕ → ℕ → Bytes32
  | _, 0 => 0
  | i, n + 1 =>
    let currentByte := byteAt i currentTarget
    if 0 < currentByte then
      if 0x80 < currentByte then BitVec.ofNat 256 i + 3 - 1 else BitVec.ofNat 256 i + 3
    else coefficientEnd currentTarget (i + 1) n

def roundTarget (currentTarget : Bytes32) : Bytes32 :=
  let keepBits : Bytes32 := (0x20 - coefficientEnd currentTarget 0 0x20) * 8
  let mask : Bytes32 := ~~~(shl keepBits 1 - 1)
  currentTarget &&& mask

def countNewRoundedTarget (currentTarget : Bytes32) (actualPassedTime : ℕ) : Option Bytes32 :=
  (countNewTarget currentTarget actualPassedTime).map roundTarget

theorem initialTarget_toNat : initialTarget.toNat = 0xffff * 256 ^ 26 := by decide

theorem shr_le (shift value : Bytes32) : (shr shift value).toNat ≤ value.toNat := by
  unfold shr
  split_ifs
  · rw [BitVec.toNat_ushiftRight]
    exact Nat.shiftRight_le _ _
  · exact Nat.zero_le _

theorem bitsToTarget_lt (bits : BitVec 32) : (bitsToTarget bits).toNat + 1 < 2 ^ 256 := by
  have height : (0x8 : Bytes32).toNat = 8 := by decide
  have heven : (shl 0x8 (bitsWord bits)).toNat % 2 = 0 := by
    rw [shl, height, if_pos (by decide), BitVec.toNat_shiftLeft, Nat.shiftLeft_eq]
    omega
  have hlt := (shl 0x8 (bitsWord bits)).isLt
  have hle : (bitsToTarget bits).toNat ≤ (shl 0x8 (bitsWord bits)).toNat := shr_le _ _
  omega

theorem countBlockWork_pos (bits : BitVec 32) : 0 < countBlockWork (bitsToTarget bits) := by
  have hlt := bitsToTarget_lt bits
  have hadd : (bitsToTarget bits + 1).toNat = (bitsToTarget bits).toNat + 1 := by
    rw [BitVec.toNat_add]
    exact Nat.mod_eq_of_lt hlt
  have hones : (~~~(0 : Bytes32)).toNat = 2 ^ 256 - 1 := by decide
  rw [countBlockWork, BitVec.toNat_udiv, hadd, hones]
  exact Nat.div_pos (by omega) (by omega)

structure HeaderData where
  prevBlockHash : Bytes32
  merkleRoot : Bytes32
  version : UInt32
  time : UInt32
  nonce : UInt32
  bits : BitVec 32
  deriving DecidableEq

def blockHeaderDataLength : ℕ := 80

def slice (raw : Bytes) (i j : ℕ) : Bytes := (raw.drop i).take (j - i)

def bytes32 (bs : Bytes) : Bytes32 := BitVec.ofNat 256 (ofBytesBE bs)

def uint32 (bs : Bytes) : UInt32 := UInt32.ofNat (ofBytesBE bs)

def bytes32LEtoBE (input : Bytes32) : Bytes32 := bytes32 (toBytesBE 32 input.toNat).reverse

def uint32LEtoBE (input : UInt32) : UInt32 := uint32 (toBytesBE 4 input.toNat).reverse

def headerOf (raw : Bytes) : HeaderData where
  version := uint32LEtoBE (uint32 (slice raw 0 4))
  prevBlockHash := bytes32LEtoBE (bytes32 (slice raw 4 36))
  merkleRoot := bytes32LEtoBE (bytes32 (slice raw 36 68))
  time := uint32LEtoBE (uint32 (slice raw 68 72))
  bits := (uint32LEtoBE (uint32 (slice raw 72 76))).toBitVec
  nonce := uint32LEtoBE (uint32 (slice raw 76 80))

def hashOf (sha256 : Bytes → Bytes32) (raw : Bytes) : Bytes32 :=
  bytes32LEtoBE (sha256 (toBytesBE 32 (sha256 raw).toNat))

def parseBlockHeader (sha256 : Bytes → Bytes32) (raw : Bytes) : Option (HeaderData × Bytes32) :=
  if raw.length ≠ blockHeaderDataLength then none
  else some (headerOf raw, hashOf sha256 raw)

def toRawBytes (header : HeaderData) : Bytes :=
  toBytesLE 4 header.version.toNat ++ (toBytesLE 32 header.prevBlockHash.toNat ++
    (toBytesLE 32 header.merkleRoot.toNat ++ (toBytesLE 4 header.time.toNat ++
      (toBytesLE 4 header.bits.toNat ++ toBytesLE 4 header.nonce.toNat))))

theorem toRawBytes_length (header : HeaderData) : (toRawBytes header).length = blockHeaderDataLength := by
  simp [toRawBytes, blockHeaderDataLength]

theorem slice_append_left {as n} (bs : Bytes) (h : as.length = n) : slice (as ++ bs) 0 n = as := by
  rw [slice, List.drop_zero, Nat.sub_zero, ← h, List.take_left]

theorem slice_append_right {as n} (bs i j) (h : as.length = n) : slice (as ++ bs) (n + i) (n + j) = slice bs i j := by
  rw [slice, slice, ← h, List.drop_length_add_append, Nat.add_sub_add_left]

theorem slice_all {bs n} (h : bs.length = n) : slice bs 0 n = bs := by
  rw [slice, List.drop_zero, Nat.sub_zero, ← h, List.take_length]

theorem uint32LEtoBE_uint32 {bs} (h : bs.length = 4) : uint32LEtoBE (uint32 bs) = UInt32.ofNat (ofBytesLE bs) := by
  have hlt := ofBytesBE_lt bs
  have hnat : (uint32 bs).toNat = ofBytesBE bs := by
    rw [uint32, UInt32.toNat_ofNat']
    apply Nat.mod_eq_of_lt
    rw [h] at hlt
    omega
  rw [uint32LEtoBE, hnat, ← h, toBytesBE_ofBytesBE, uint32, ofBytesBE, List.reverse_reverse]

theorem bytes32LEtoBE_bytes32 {bs} (h : bs.length = 32) :
    bytes32LEtoBE (bytes32 bs) = BitVec.ofNat 256 (ofBytesLE bs) := by
  have hlt := ofBytesBE_lt bs
  have hnat : (bytes32 bs).toNat = ofBytesBE bs := by
    rw [bytes32, BitVec.toNat_ofNat]
    apply Nat.mod_eq_of_lt
    rw [h] at hlt
    exact hlt.trans_eq (by norm_num)
  rw [bytes32LEtoBE, hnat, ← h, toBytesBE_ofBytesBE, bytes32, ofBytesBE, List.reverse_reverse]

theorem uint32LEtoBE_toBytesLE (x : UInt32) : uint32LEtoBE (uint32 (toBytesLE 4 x.toNat)) = x := by
  rw [uint32LEtoBE_uint32 (by simp), ofBytesLE_toBytesLE, Nat.mod_eq_of_lt (x.toNat_lt.trans_eq (by norm_num))]
  exact UInt32.ofNat_toNat

theorem bytes32LEtoBE_toBytesLE (x : Bytes32) : bytes32LEtoBE (bytes32 (toBytesLE 32 x.toNat)) = x := by
  rw [bytes32LEtoBE_bytes32 (by simp), ofBytesLE_toBytesLE,
    Nat.mod_eq_of_lt (x.isLt.trans_eq (by norm_num)), BitVec.ofNat_toNat, BitVec.setWidth_eq]

theorem slice_nonce (header : HeaderData) : slice (toRawBytes header) 76 80 = toBytesLE 4 header.nonce.toNat :=
  (slice_append_right _ 72 76 (by simp)).trans ((slice_append_right _ 40 44 (by simp)).trans
    ((slice_append_right _ 8 12 (by simp)).trans ((slice_append_right _ 4 8 (by simp)).trans
      ((slice_append_right _ 0 4 (by simp)).trans (slice_all (by simp))))))

theorem headerOf_toRawBytes (header : HeaderData) : headerOf (toRawBytes header) = header := by
  have hversion : slice (toRawBytes header) 0 4 = toBytesLE 4 header.version.toNat := slice_append_left _ (by simp)
  have hprev : slice (toRawBytes header) 4 36 = toBytesLE 32 header.prevBlockHash.toNat :=
    (slice_append_right _ 0 32 (by simp)).trans (slice_append_left _ (by simp))
  have hroot : slice (toRawBytes header) 36 68 = toBytesLE 32 header.merkleRoot.toNat :=
    (slice_append_right _ 32 64 (by simp)).trans
      ((slice_append_right _ 0 32 (by simp)).trans (slice_append_left _ (by simp)))
  have htime : slice (toRawBytes header) 68 72 = toBytesLE 4 header.time.toNat :=
    (slice_append_right _ 64 68 (by simp)).trans ((slice_append_right _ 32 36 (by simp)).trans
      ((slice_append_right _ 0 4 (by simp)).trans (slice_append_left _ (by simp))))
  have hbits : slice (toRawBytes header) 72 76 = toBytesLE 4 header.bits.toNat :=
    (slice_append_right _ 68 72 (by simp)).trans ((slice_append_right _ 36 40 (by simp)).trans
      ((slice_append_right _ 4 8 (by simp)).trans ((slice_append_right _ 0 4 (by simp)).trans
        (slice_append_left _ (by simp)))))
  have hnonce := slice_nonce header
  have hbits_word := uint32LEtoBE_toBytesLE ⟨header.bits⟩
  rw [headerOf, hversion, hprev, hroot, htime, hbits, hnonce, uint32LEtoBE_toBytesLE,
    uint32LEtoBE_toBytesLE, uint32LEtoBE_toBytesLE, bytes32LEtoBE_toBytesLE,
    bytes32LEtoBE_toBytesLE]
  rw [show header.bits.toNat = (⟨header.bits⟩ : UInt32).toNat from rfl, hbits_word]

end QuidProtocol.Spv
