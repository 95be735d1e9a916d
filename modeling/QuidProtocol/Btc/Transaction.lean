import QuidProtocol.Btc.TxParser

/-!
Legacy transactions and their serialisations, with counts and lengths in any width that holds them, and the
loop over the outputs in each of its modes.
The readers on a serialised transaction return what the transaction says.
-/

namespace QuidProtocol.Btc

open Lib

inductive VarWidth
  | byte
  | two
  | four
  | eight

namespace VarWidth

def bound : VarWidth → ℕ
  | byte => 0xfd
  | two => 2 ^ 16
  | four => 2 ^ 32
  | eight => 2 ^ 64

def size : VarWidth → ℕ
  | byte => 1
  | two => 3
  | four => 5
  | eight => 9

def encode (n : ℕ) : VarWidth → Bytes
  | byte => [UInt8.ofNat n]
  | two => 0xfd :: toBytesLE 2 n
  | four => 0xfe :: toBytesLE 4 n
  | eight => 0xff :: toBytesLE 8 n

theorem encode_length (n : ℕ) (w : VarWidth) : (w.encode n).length = w.size := by cases w <;> simp [encode, size]

end VarWidth

structure Script where
  bytes : Bytes
  width : VarWidth
  fits : bytes.length < width.bound

structure TxIn where
  prevHash : BitVec 256
  prevVout : UInt32
  script : Script
  sequence : UInt32

structure TxOut where
  value : UInt64
  script : Script

structure Tx where
  version : UInt32
  inputs : List TxIn
  inputsWidth : VarWidth
  inputs_fit : inputs.length < inputsWidth.bound
  outputs : List TxOut
  outputsWidth : VarWidth
  outputs_fit : outputs.length < outputsWidth.bound
  locktime : UInt32

def Script.serialize (script : Script) : Bytes := script.width.encode script.bytes.length ++ script.bytes

def TxIn.serialize (input : TxIn) : Bytes :=
  toBytesBE 32 input.prevHash.toNat ++ (toBytesLE 4 input.prevVout.toNat ++
    (input.script.serialize ++ toBytesLE 4 input.sequence.toNat))

def TxOut.serialize (output : TxOut) : Bytes := toBytesLE 8 output.value.toNat ++ output.script.serialize

def Tx.serialize (tx : Tx) : Bytes :=
  toBytesLE 4 tx.version.toNat ++ (tx.inputsWidth.encode tx.inputs.length ++
    (tx.inputs.flatMap TxIn.serialize ++ (tx.outputsWidth.encode tx.outputs.length ++
      (tx.outputs.flatMap TxOut.serialize ++ toBytesLE 4 tx.locktime.toNat))))

section Readers

variable {raw bs : Bytes} {offset : ℕ}

theorem readByte_located {b} (h : Located raw offset (b :: bs)) : readByte raw offset = .ok b := by
  rw [readByte, h.getElem?_eq]

theorem readLEFrom_located (i v : ℕ) (h : Located raw (offset + i) bs) :
    readLEFrom raw offset bs.length i v = .ok (v ||| ofBytesLE bs <<< (8 * i)) := by
  induction bs generalizing i v with
  | nil => simp [readLEFrom, ofBytesLE]
  | cons b bs ih =>
    have hb : b.toNat < 2 ^ 8 := b.toNat_lt
    have hrest : Located raw (offset + (i + 1)) bs := h.tail
    have hsplit : ofBytesLE (b :: bs) = ofBytesLE bs <<< 8 ||| b.toNat := by
      rw [← Nat.shiftLeft_add_eq_or_of_lt hb, Nat.shiftLeft_eq, ofBytesLE]
      ring
    have hshift : ofBytesLE bs <<< (8 * (i + 1)) = ofBytesLE bs <<< 8 <<< (8 * i) := by
      rw [← Nat.shiftLeft_add]
      congr 1
      ring
    rw [List.length_cons, readLEFrom, readByte_located h, ok_bind, ih (i + 1) _ hrest, hsplit,
      hshift, Nat.shiftLeft_or_distrib, Nat.or_assoc, Nat.or_comm (b.toNat <<< (8 * i))]

theorem readLE_located (h : Located raw offset bs) : readLE raw offset bs.length = .ok (ofBytesLE bs) := by
  rw [readLE, readLEFrom_located 0 0 h]
  simp

theorem readLE_toBytesLE {n x} (h : Located raw offset (toBytesLE n x)) (hx : x < 256 ^ n) :
    readLE raw offset n = .ok x := by
  have hread := readLE_located h
  rwa [toBytesLE_length, ofBytesLE_toBytesLE, Nat.mod_eq_of_lt hx] at hread

theorem readVarInt_located {w : VarWidth} {n : ℕ} (h : Located raw offset (w.encode n))
    (hn : n < w.bound) : readVarInt raw offset = .ok (n, w.size) := by
  have hle := h.length_le
  rw [VarWidth.encode_length] at hle
  have hlt : offset < raw.length := by cases w <;> simp only [VarWidth.size] at hle <;> omega
  rw [readVarInt, require_of _ hlt, ok_bind]
  cases w with
  | byte =>
    have hnat : (UInt8.ofNat n).toNat = n := by
      rw [UInt8.toNat_ofNat']
      exact Nat.mod_eq_of_lt (lt_trans hn (by decide))
    have hfirst : UInt8.ofNat n < 0xfd := by
      rw [UInt8.lt_iff_toNat_lt, hnat]
      exact hn
    rw [readByte_located h, ok_bind, if_pos hfirst, hnat]
    rfl
  | two =>
    have hle : offset + 3 ≤ raw.length := hle
    have hvalue : Located raw (offset + 1) (toBytesLE 2 n) := h.tail
    rw [readByte_located h, ok_bind, if_neg (by decide), if_pos rfl, require_of _ hle, ok_bind,
      readLE_toBytesLE hvalue (hn.trans_eq (by decide)), ok_bind]
    rfl
  | four =>
    have hle : offset + 5 ≤ raw.length := hle
    have hvalue : Located raw (offset + 1) (toBytesLE 4 n) := h.tail
    rw [readByte_located h, ok_bind, if_neg (by decide), if_neg (by decide), if_pos rfl,
      require_of _ hle, ok_bind, readLE_toBytesLE hvalue (hn.trans_eq (by decide)), ok_bind]
    rfl
  | eight =>
    have hle : offset + 9 ≤ raw.length := hle
    have hvalue : Located raw (offset + 1) (toBytesLE 8 n) := h.tail
    rw [readByte_located h, ok_bind, if_neg (by decide), if_neg (by decide), if_neg (by decide),
      require_of _ hle, ok_bind, readLE_toBytesLE hvalue (hn.trans_eq (by decide)), ok_bind]
    rfl

theorem skipFrom_located {inputs : List TxIn} (h : Located raw offset (inputs.flatMap TxIn.serialize)) :
    skipFrom raw inputs.length offset = .ok (offset + (inputs.flatMap TxIn.serialize).length) := by
  induction inputs generalizing offset with
  | nil => rfl
  | cons input inputs ih =>
    rw [List.flatMap_cons] at h
    have hscript : Located raw (offset + 32 + 4) (input.script.serialize ++ toBytesLE 4 input.sequence.toNat) := by
      have hvout := h.left.right
      have hrest := hvout.right
      rwa [toBytesBE_length, toBytesLE_length] at hrest
    have hlen : input.serialize.length = 32 + 4 + (input.script.width.size + input.script.bytes.length + 4) := by
      simp only [TxIn.serialize, Script.serialize, List.length_append, toBytesBE_length,
        toBytesLE_length, VarWidth.encode_length]
      ring
    have hread := readVarInt_located hscript.left.left input.script.fits
    rw [List.length_cons, skipFrom, ← Nat.add_assoc offset 32 4, hread, ok_bind]
    have hnext : offset + 32 + 4 + (input.script.width.size + input.script.bytes.length + 4) =
        offset + input.serialize.length := by
      rw [hlen]
      ring
    simp only [hnext]
    rw [ih h.right, List.flatMap_cons, List.length_append, Nat.add_assoc]

end Readers

section Outputs

variable {raw spk : Bytes} {offset i packed : ℕ} {mode : ScanMode} {exceptVout : ℕ}

theorem matchFrom_located {script j} (hmode : mode ≠ .firstToV1OrV2)
    (h : Located raw (offset + j) script) (hlen : script.length = spk.length) :
    matchFrom raw mode offset spk j = .ok (decide (script = spk)) := by
  induction spk generalizing script j with
  | nil =>
    obtain rfl : script = [] := List.length_eq_zero_iff.mp hlen
    rfl
  | cons c spk ih =>
    obtain ⟨b, script, rfl⟩ : ∃ b rest, script = b :: rest := List.exists_cons_of_length_eq_add_one hlen
    rw [matchFrom, readByte_located h, ok_bind]
    by_cases hb : b = c
    · subst hb
      rw [if_neg (by simp), ih h.tail (by simpa using hlen)]
      simp
    · rw [if_pos ⟨hb, fun hv => hmode hv.2.1⟩]
      simp [hb]

theorem scriptMatches_located {script} (hmode : mode ≠ .firstToV1OrV2) (h : Located raw offset script) :
    scriptMatches raw spk mode offset script.length = .ok (decide (script = spk)) := by
  unfold scriptMatches
  split_ifs with hlen
  · exact matchFrom_located hmode h hlen
  · have hne : script ≠ spk := fun he => hlen (by rw [he])
    simp [hne]

theorem TxOut.serialize_length (output : TxOut) : output.serialize.length =
    8 + output.script.width.size + output.script.bytes.length := by
  simp only [TxOut.serialize, Script.serialize, List.length_append, toBytesLE_length, VarWidth.encode_length]
  ring

theorem scanFrom_succ {output : TxOut} {n : ℕ} (hmode : mode ≠ .firstToV1OrV2)
    (h : Located raw offset output.serialize) : scanFrom raw spk mode exceptVout (n + 1) i offset packed =
      if mode = .sumForeign then scanFrom raw spk mode exceptVout n (i + 1) (offset + output.serialize.length)
          (if i ≠ exceptVout ∧ output.script.bytes ≠ spk then packed + output.value.toNat else packed)
      else if output.script.bytes = spk then if mode ≠ .sumTo then
          readByte raw (offset + 8 + output.script.width.size) >>= fun first =>
            .ok (first.toNat <<< 96 ||| i <<< 64 ||| output.value.toNat)
        else scanFrom raw spk mode exceptVout n (i + 1) (offset + output.serialize.length) (packed + output.value.toNat)
      else scanFrom raw spk mode exceptVout n (i + 1) (offset + output.serialize.length) packed := by
  have hvalue : Located raw offset (toBytesLE 8 output.value.toNat) := h.left
  have hscript := h.right
  rw [toBytesLE_length] at hscript
  have hlength : Located raw (offset + 8) (output.script.width.encode output.script.bytes.length) := hscript.left
  have hbytes := hscript.right
  rw [VarWidth.encode_length] at hbytes
  have hle8 : offset + 8 ≤ raw.length := by simpa using hvalue.length_le
  have hnext : offset + 8 + output.script.width.size + output.script.bytes.length =
      offset + output.serialize.length := by
    rw [output.serialize_length]
    ring
  rw [scanFrom, require_of _ hle8, ok_bind, readLE_toBytesLE hvalue output.value.toNat_lt, ok_bind,
    readVarInt_located hlength output.script.fits, ok_bind]
  have hfits := hbytes.length_le
  rw [hnext] at hfits
  simp only [hnext, require_of _ hfits, ok_bind, scriptMatches_located hmode hbytes,
    decide_eq_false_iff_not, decide_eq_true_eq, ne_eq]

theorem scanFrom_sumTo {outputs : List TxOut} (h : Located raw offset (outputs.flatMap TxOut.serialize)) :
    scanFrom raw spk .sumTo exceptVout outputs.length i offset packed =
      .ok (packed + ((outputs.filter fun o => o.script.bytes = spk).map fun o => o.value.toNat).sum) := by
  induction outputs generalizing i offset packed with
  | nil => simp [scanFrom]
  | cons output outputs ih =>
    rw [List.flatMap_cons] at h
    rw [List.length_cons, scanFrom_succ (by decide) h.left, if_neg (by decide)]
    by_cases hpays : output.script.bytes = spk
    · rw [if_pos hpays, if_neg (by simp), ih h.right]
      simp [hpays, Nat.add_assoc]
    · rw [if_neg hpays, ih h.right]
      simp [hpays]

theorem scanFrom_sumForeign {outputs : List TxOut} (h : Located raw offset (outputs.flatMap TxOut.serialize)) :
    scanFrom raw spk .sumForeign exceptVout outputs.length i offset packed =
      .ok (packed + (((outputs.zipIdx i).filter fun o => o.2 ≠ exceptVout ∧ o.1.script.bytes ≠ spk).map
        fun o => o.1.value.toNat).sum) := by
  induction outputs generalizing i offset packed with
  | nil => simp [scanFrom]
  | cons output outputs ih =>
    rw [List.flatMap_cons] at h
    rw [List.length_cons, scanFrom_succ (by decide) h.left, if_pos rfl, ih h.right]
    by_cases hforeign : i ≠ exceptVout ∧ output.script.bytes ≠ spk
    · simp [List.zipIdx_cons, hforeign, Nat.add_assoc]
    · simp [List.zipIdx_cons, hforeign]

theorem packed_vout (first i value : ℕ) (hvalue : value < 2 ^ 64) :
    UInt32.ofNat ((first <<< 96 ||| i <<< 64 ||| value) >>> 64) = UInt32.ofNat i := by
  have hhigh : first <<< 96 >>> 64 % 2 ^ 32 = 0 := by
    rw [Nat.shiftLeft_eq, Nat.shiftRight_eq_div_pow]
    omega
  have hmid : i <<< 64 >>> 64 = i := Nat.shiftLeft_shiftRight i 64
  have hlow : value >>> 64 = 0 := by
    rw [Nat.shiftRight_eq_div_pow]
    exact Nat.div_eq_of_lt hvalue
  apply UInt32.toNat_inj.mp
  rw [UInt32.toNat_ofNat', UInt32.toNat_ofNat', Nat.shiftRight_or_distrib, Nat.shiftRight_or_distrib,
    hmid, hlow, Nat.or_zero, Nat.or_mod_two_pow, hhigh, Nat.zero_or]

theorem packed_value (first i value : ℕ) (hvalue : value < 2 ^ 64) :
    (first <<< 96 ||| i <<< 64 ||| value) &&& (2 ^ 64 - 1) = value := by
  have hhigh : first <<< 96 % 2 ^ 64 = 0 := by
    rw [Nat.shiftLeft_eq]
    omega
  have hmid : i <<< 64 % 2 ^ 64 = 0 := by
    rw [Nat.shiftLeft_eq]
    omega
  rw [Nat.and_two_pow_sub_one_eq_mod, Nat.or_mod_two_pow, Nat.or_mod_two_pow, hhigh, hmid,
    Nat.or_zero, Nat.zero_or, Nat.mod_eq_of_lt hvalue]

theorem scanFrom_firstTo {outputs : List TxOut} {behind : Bytes} (hbehind : behind ≠ [])
    (h : Located raw offset (outputs.flatMap TxOut.serialize ++ behind)) :
    (scanFrom raw spk .firstTo exceptVout outputs.length i offset packed >>= fun packed =>
        .ok (UInt32.ofNat (packed >>> 64), packed &&& (2 ^ 64 - 1))) =
      match (outputs.zipIdx i).find? fun o => o.1.script.bytes = spk with
      | some o => .ok (UInt32.ofNat o.2, o.1.value.toNat)
      | none => .error .outputNotFound := by
  induction outputs generalizing i offset with
  | nil => simp [scanFrom]
  | cons output outputs ih =>
    rw [List.flatMap_cons, List.append_assoc] at h
    rw [List.length_cons, scanFrom_succ (by decide) h.left, if_neg (by decide), List.zipIdx_cons]
    by_cases hpays : output.script.bytes = spk
    · have hfirst : Located raw (offset + 8 + output.script.width.size)
          (output.script.bytes ++ (outputs.flatMap TxOut.serialize ++ behind)) := by
        have hrest := h
        rw [TxOut.serialize, Script.serialize, List.append_assoc, List.append_assoc] at hrest
        have hscript := hrest.right.right
        rwa [toBytesLE_length, VarWidth.encode_length] at hscript
      obtain ⟨b, bs, hb⟩ : ∃ b bs, output.script.bytes ++ (outputs.flatMap TxOut.serialize ++ behind) =
          b :: bs := List.exists_cons_of_ne_nil (by simp [hbehind])
      rw [hb] at hfirst
      rw [if_pos hpays, if_pos (by decide), readByte_located hfirst, ok_bind, ok_bind,
        packed_vout _ _ _ output.value.toNat_lt, packed_value _ _ _ output.value.toNat_lt,
        List.find?_cons_of_pos (by simpa using hpays)]
    · rw [if_neg hpays, List.find?_cons_of_neg (by simpa using hpays)]
      exact ih h.right

end Outputs

theorem calldataload_located {data offset x}
    (h : Located data offset (toBytesBE 32 x.toNat)) : calldataload data offset = x := by
  have hword := h.take_drop
  rw [toBytesBE_length] at hword
  rw [calldataload, hword, toBytesBE_length, Nat.sub_self, List.replicate_zero, List.append_nil,
    ofBytesBE_toBytesBE, Nat.mod_eq_of_lt (x.isLt.trans_eq (by norm_num)), BitVec.ofNat_toNat,
    BitVec.setWidth_eq]

namespace Tx

variable (tx : Tx)

def Legacy : Prop := tx.inputs ≠ [] ∨ tx.inputsWidth ≠ .byte

def totalValue : ℕ := (tx.outputs.map fun o => o.value.toNat).sum

def valueTo (spk : Bytes) : ℕ := ((tx.outputs.filter fun o => o.script.bytes = spk).map fun o => o.value.toNat).sum

def valueExcept (vout : ℕ) (spk : Bytes) : ℕ :=
  ((tx.outputs.zipIdx.filter fun o => o.2 ≠ vout ∧ o.1.script.bytes ≠ spk).map
    fun o => o.1.value.toNat).sum

def firstTo (spk : Bytes) : Option (TxOut × ℕ) := tx.outputs.zipIdx.find? fun o => o.1.script.bytes = spk

def outputsAt : ℕ := 4 + tx.inputsWidth.size + (tx.inputs.flatMap TxIn.serialize).length

theorem located_serialize : Located tx.serialize 0 tx.serialize := ⟨[], [], by simp, rfl⟩

theorem located_inputs : Located tx.serialize 4 (tx.inputsWidth.encode tx.inputs.length ++
    (tx.inputs.flatMap TxIn.serialize ++ (tx.outputsWidth.encode tx.outputs.length ++
      (tx.outputs.flatMap TxOut.serialize ++ toBytesLE 4 tx.locktime.toNat)))) := by
  have h := tx.located_serialize.right
  rwa [toBytesLE_length, Nat.zero_add] at h

theorem located_outputs : Located tx.serialize tx.outputsAt (tx.outputsWidth.encode tx.outputs.length ++
    (tx.outputs.flatMap TxOut.serialize ++ toBytesLE 4 tx.locktime.toNat)) := by
  have h := tx.located_inputs.right.right
  rwa [VarWidth.encode_length] at h

theorem readVarInt_inputs : readVarInt tx.serialize 4 = .ok (tx.inputs.length, tx.inputsWidth.size) :=
  readVarInt_located tx.located_inputs.left tx.inputs_fit

variable {tx}

theorem assertLegacy_serialize (h : tx.Legacy) : assertLegacy tx.serialize = .ok () := by
  have hcount := tx.located_inputs.left
  have hle := hcount.length_le
  rw [VarWidth.encode_length] at hle
  have hfive : 5 ≤ tx.serialize.length := by
    cases hw : tx.inputsWidth <;> simp only [hw, VarWidth.size] at hle <;> omega
  have hmarker : ∃ b bs, tx.inputsWidth.encode tx.inputs.length = b :: bs ∧ b ≠ 0 := by
    have hfit := tx.inputs_fit
    rcases hw : tx.inputsWidth with _ | _ | _ | _
    · have hpos : tx.inputs.length ≠ 0 := by
        have hne := h.resolve_right (fun hn => hn hw)
        simpa using hne
      rw [hw] at hfit
      refine ⟨_, _, rfl, ?_⟩
      intro hzero
      have hnat := congrArg UInt8.toNat hzero
      rw [UInt8.toNat_ofNat', Nat.mod_eq_of_lt (lt_trans hfit (by decide))] at hnat
      exact hpos hnat
    all_goals exact ⟨_, _, rfl, by decide⟩
  obtain ⟨b, bs, hb, hne⟩ := hmarker
  rw [hb] at hcount
  rw [assertLegacy, require_of _ hfive, ok_bind, readByte_located hcount, ok_bind, require_of _ hne]

theorem inputCount_serialize (h : tx.Legacy) : inputCount tx.serialize = .ok tx.inputs.length := by
  rw [inputCount, assertLegacy_serialize h, ok_bind, readVarInt_inputs, ok_bind]

theorem skipInputs_serialize (h : tx.Legacy) : skipInputs tx.serialize = .ok tx.outputsAt := by
  have hinputs := tx.located_inputs.right.left
  rw [VarWidth.encode_length] at hinputs
  rw [skipInputs, assertLegacy_serialize h, ok_bind, readVarInt_inputs, ok_bind]
  exact skipFrom_located hinputs

theorem located_input {i input} (hi : tx.inputs[i]? = some input) : skipFrom tx.serialize i (4 + tx.inputsWidth.size) =
        .ok (4 + tx.inputsWidth.size + ((tx.inputs.take i).flatMap TxIn.serialize).length) ∧ Located tx.serialize
        (4 + tx.inputsWidth.size + ((tx.inputs.take i).flatMap TxIn.serialize).length) input.serialize := by
  have hlt : i < tx.inputs.length := (List.getElem?_eq_some_iff.mp hi).1
  have hget : tx.inputs[i] = input := (List.getElem?_eq_some_iff.mp hi).2
  have hinputs := tx.located_inputs.right.left
  rw [VarWidth.encode_length] at hinputs
  have hsplit : tx.inputs.flatMap TxIn.serialize = (tx.inputs.take i).flatMap TxIn.serialize ++
      (input.serialize ++ (tx.inputs.drop (i + 1)).flatMap TxIn.serialize) := by
    conv_lhs => rw [← List.take_append_drop i tx.inputs, List.drop_eq_getElem_cons hlt, hget]
    simp
  rw [hsplit] at hinputs
  refine ⟨?_, hinputs.right.left⟩
  have hskip := skipFrom_located hinputs.left
  rwa [List.length_take, min_eq_left hlt.le] at hskip

theorem extractInputPrevOutpoint_serialize (h : tx.Legacy) (behind i) :
    extractInputPrevOutpoint tx.serialize behind i = match tx.inputs[i]? with
      | some input => .ok (input.prevHash, input.prevVout)
      | none => .error .inputOutOfRange := by
  rw [extractInputPrevOutpoint, assertLegacy_serialize h, ok_bind, readVarInt_inputs, ok_bind]
  rcases hi : tx.inputs[i]? with _ | input
  · have hout : ¬ i < tx.inputs.length := not_lt.mpr (List.getElem?_eq_none_iff.mp hi)
    simp [require, hout]
  · have hlt : i < tx.inputs.length := (List.getElem?_eq_some_iff.mp hi).1
    obtain ⟨hskip, hinput⟩ := located_input hi
    have hhash := hinput.left
    have hvout := hinput.right.left
    rw [toBytesBE_length] at hvout
    have hle := hvout.length_le
    rw [toBytesLE_length, Nat.add_assoc] at hle
    have hread := readLE_toBytesLE hvout (input.prevVout.toNat_lt.trans_eq (by norm_num))
    simp only [require_of _ hlt, ok_bind, hskip, require_of _ hle, hread,
      calldataload_located (hhash.append_behind behind), UInt32.ofNat_toNat]

theorem extractInput0Sequence_serialize (h : tx.Legacy) : extractInput0Sequence tx.serialize =
      match tx.inputs.head? with
      | some input => .ok input.sequence
      | none => .error .truncatedTx := by
  rw [extractInput0Sequence, assertLegacy_serialize h, ok_bind, readVarInt_inputs, ok_bind]
  rcases hi : tx.inputs.head? with _ | input
  · have hnil : tx.inputs.length = 0 := by simpa using hi
    simp [require, hnil]
  · have hne : tx.inputs.length ≠ 0 := by
      intro hzero
      rw [List.length_eq_zero_iff.mp hzero] at hi
      exact absurd hi (by simp)
    rw [List.head?_eq_getElem?] at hi
    obtain ⟨-, hinput⟩ := located_input hi
    rw [List.take_zero, List.flatMap_nil, List.length_nil, Nat.add_zero] at hinput
    have hscript := hinput.right.right
    rw [toBytesBE_length, toBytesLE_length, Nat.add_assoc _ 32 4] at hscript
    have hread := readVarInt_located hscript.left.left input.script.fits
    have hseq := hscript.right
    rw [Script.serialize, List.length_append, VarWidth.encode_length] at hseq
    have hle := hseq.length_le
    rw [toBytesLE_length] at hle
    have hread_seq := readLE_toBytesLE hseq (input.sequence.toNat_lt.trans_eq (by norm_num))
    simp only [require_of _ hne, ok_bind, hread, require_of _ hle, hread_seq, UInt32.ofNat_toNat]

theorem extractLocktime_serialize : extractLocktime tx.serialize = .ok tx.locktime := by
  have hlock := tx.located_outputs.right.right
  have hlen : tx.serialize.length = tx.outputsAt + (tx.outputsWidth.encode tx.outputs.length).length +
        (tx.outputs.flatMap TxOut.serialize).length + 4 := by
    simp only [serialize, outputsAt, List.length_append, toBytesLE_length, VarWidth.encode_length]
    ring
  have hat : tx.serialize.length - 4 = tx.outputsAt + (tx.outputsWidth.encode tx.outputs.length).length +
        (tx.outputs.flatMap TxOut.serialize).length := by omega
  have hfour : 4 ≤ tx.serialize.length := by omega
  rw [extractLocktime, require_of _ hfour, ok_bind, hat,
    readLE_toBytesLE hlock (tx.locktime.toNat_lt.trans_eq (by norm_num)), ok_bind, UInt32.ofNat_toNat]

theorem scanOutputs_serialize (h : tx.Legacy) (spk mode exceptVout) : scanOutputs tx.serialize spk mode exceptVout =
      require .outputNotFound (¬ (mode = .sumForeign ∧ tx.outputs.length ≤ exceptVout.toNat)) >>= fun _ =>
        scanFrom tx.serialize spk mode exceptVout.toNat tx.outputs.length 0
          (tx.outputsAt + tx.outputsWidth.size) 0 := by
  rw [scanOutputs, skipInputs_serialize h, ok_bind, readVarInt_located tx.located_outputs.left tx.outputs_fit, ok_bind]

theorem located_outputList : Located tx.serialize (tx.outputsAt + tx.outputsWidth.size)
    (tx.outputs.flatMap TxOut.serialize ++ toBytesLE 4 tx.locktime.toNat) := by
  have h := tx.located_outputs.right
  rwa [VarWidth.encode_length] at h

theorem sumOutputValuesToScript_serialize (h : tx.Legacy) (spk : Bytes) :
    sumOutputValuesToScript tx.serialize spk = .ok (tx.valueTo spk) := by
  rw [sumOutputValuesToScript, scanOutputs_serialize h, require_of _ (by simp), ok_bind,
    scanFrom_sumTo located_outputList.left, Nat.zero_add, valueTo]

theorem sumOutputValuesExcept_serialize (h : tx.Legacy) (vout spk) : sumOutputValuesExcept tx.serialize vout spk =
      if vout.toNat < tx.outputs.length then .ok (tx.valueExcept vout.toNat spk) else .error .outputNotFound := by
  rw [sumOutputValuesExcept, scanOutputs_serialize h]
  by_cases hv : vout.toNat < tx.outputs.length
  · have hin : ¬ (ScanMode.sumForeign = .sumForeign ∧ tx.outputs.length ≤ vout.toNat) :=
      fun hn => absurd hn.2 (not_le.mpr hv)
    rw [require_of _ hin, ok_bind, scanFrom_sumForeign located_outputList.left, Nat.zero_add, if_pos hv, valueExcept]
  · simp [require, hv, not_lt.mp hv]

theorem findOutputByScript_serialize (h : tx.Legacy) (spk : Bytes) : findOutputByScript tx.serialize spk =
      match tx.firstTo spk with
      | some o => .ok (UInt32.ofNat o.2, o.1.value.toNat)
      | none => .error .outputNotFound := by
  have hbehind : toBytesLE 4 tx.locktime.toNat ≠ [] := by simp [toBytesLE]
  rw [findOutputByScript, scanOutputs_serialize h, require_of _ (by simp), ok_bind]
  exact scanFrom_firstTo hbehind located_outputList

theorem sum_split (outputs : List TxOut) (spk vout k) :
    ((outputs.filter fun o => o.script.bytes = spk).map fun o => o.value.toNat).sum +
      (((outputs.zipIdx k).filter fun o => o.2 ≠ vout ∧ o.1.script.bytes ≠ spk).map fun o => o.1.value.toNat).sum +
      (((outputs.zipIdx k).filter fun o => o.2 = vout ∧ o.1.script.bytes ≠ spk).map
        fun o => o.1.value.toNat).sum = (outputs.map fun o => o.value.toNat).sum := by
  induction outputs generalizing k with
  | nil => simp
  | cons output outputs ih =>
    have hrest := ih (k + 1)
    by_cases hpays : output.script.bytes = spk
    · simp [List.zipIdx_cons, hpays] at hrest ⊢
      omega
    · by_cases hk : k = vout
      all_goals
        simp [List.zipIdx_cons, hpays, hk] at hrest ⊢
        omega

theorem filter_zipIdx_eq {outputs : List TxOut} {vout k : ℕ} {output : TxOut} (hk : k ≤ vout)
    (h : outputs[vout - k]? = some output) (p : TxOut → Prop) [DecidablePred p] :
    (outputs.zipIdx k).filter (fun o => o.2 = vout ∧ p o.1) = if p output then [(output, vout)] else [] := by
  induction outputs generalizing k with
  | nil => simp at h
  | cons first outputs ih =>
    by_cases he : k = vout
    · subst he
      obtain rfl : first = output := by simpa using h
      have hnone : (outputs.zipIdx (k + 1)).filter (fun o => o.2 = k ∧ p o.1) = [] := by
        rw [List.filter_eq_nil_iff]
        intro o ho
        have hidx := (List.mem_zipIdx ho).1
        simp only [decide_eq_true_eq, not_and]
        omega
      rw [List.zipIdx_cons, List.filter_cons, hnone]
      simp
    · have hsub : vout - k = vout - (k + 1) + 1 := by omega
      rw [hsub, List.getElem?_cons_succ] at h
      rw [List.zipIdx_cons, List.filter_cons, if_neg (by simp [he])]
      exact ih (by omega) h

theorem value_conserved (spk : Bytes) {vout : ℕ} {output : TxOut} (h : tx.outputs[vout]? = some output) :
    tx.valueTo spk + tx.valueExcept vout spk +
      (if output.script.bytes = spk then 0 else output.value.toNat) = tx.totalValue := by
  have hsum := sum_split tx.outputs spk vout 0
  rw [filter_zipIdx_eq (Nat.zero_le vout) h fun o => o.script.bytes ≠ spk] at hsum
  rw [valueTo, valueExcept, totalValue, ← hsum]
  by_cases hpays : output.script.bytes = spk
  all_goals simp [hpays]

end Tx

theorem extractInputPrevOutpoint_behind (raw behind behind' i) :
    extractInputPrevOutpoint raw behind i = extractInputPrevOutpoint raw behind' i := by
  have hload (offset : ℕ) (hle : offset + 36 ≤ raw.length) :
      calldataload (raw ++ behind) offset = calldataload (raw ++ behind') offset := by
    have htake (rest : Bytes) : ((raw ++ rest).drop offset).take 32 = (raw.drop offset).take 32 := by
      rw [List.drop_append_of_le_length (by omega), List.take_append_of_le_length]
      simp only [List.length_drop]
      omega
    rw [calldataload, calldataload, htake, htake]
  unfold extractInputPrevOutpoint
  refine bind_congr fun _ => bind_congr fun count => bind_congr fun _ => bind_congr fun offset => ?_
  by_cases hle : offset + 36 ≤ raw.length
  · rw [hload offset hle]
  · simp [require, hle]

theorem scanner_returns_transaction (tx : Tx) (hlegacy : tx.Legacy) (behind spk : Bytes) (vout : UInt32) :
    inputCount tx.serialize = .ok tx.inputs.length ∧ (∀ i, extractInputPrevOutpoint tx.serialize behind i =
      match tx.inputs[i]? with
      | some input => .ok (input.prevHash, input.prevVout)
      | none => .error .inputOutOfRange) ∧ (extractInput0Sequence tx.serialize = match tx.inputs.head? with
      | some input => .ok input.sequence
      | none => .error .truncatedTx) ∧ extractLocktime tx.serialize = .ok tx.locktime ∧
    (findOutputByScript tx.serialize spk = match tx.firstTo spk with
      | some o => .ok (UInt32.ofNat o.2, o.1.value.toNat)
      | none => .error .outputNotFound) ∧ sumOutputValuesToScript tx.serialize spk = .ok (tx.valueTo spk) ∧
    (sumOutputValuesExcept tx.serialize vout spk =
      if vout.toNat < tx.outputs.length then .ok (tx.valueExcept vout.toNat spk) else .error .outputNotFound) ∧
    (∀ output, tx.outputs[vout.toNat]? = some output → tx.valueTo spk + tx.valueExcept vout.toNat spk +
        (if output.script.bytes = spk then 0 else output.value.toNat) = tx.totalValue) ∧
    ∀ raw behind' i, extractInputPrevOutpoint raw behind i = extractInputPrevOutpoint raw behind' i :=
  ⟨tx.inputCount_serialize hlegacy, tx.extractInputPrevOutpoint_serialize hlegacy behind,
    tx.extractInput0Sequence_serialize hlegacy, tx.extractLocktime_serialize,
    tx.findOutputByScript_serialize hlegacy spk, tx.sumOutputValuesToScript_serialize hlegacy spk,
    tx.sumOutputValuesExcept_serialize hlegacy vout spk, fun _ h => tx.value_conserved spk h,
    fun raw behind' i => extractInputPrevOutpoint_behind raw behind behind' i⟩

def twoOutputs : Tx where
  version := 2
  inputs := [⟨7, 1, ⟨[0x51], .byte, by decide⟩, 0xffffffff⟩]
  inputsWidth := .two
  inputs_fit := by decide
  outputs := [⟨5, ⟨[], .byte, by decide⟩⟩, ⟨9, ⟨[0x51, 0x52], .four, by decide⟩⟩]
  outputsWidth := .byte
  outputs_fit := by decide
  locktime := 500

theorem twoOutputs_scanned : inputCount twoOutputs.serialize = .ok 1 ∧
      sumOutputValuesExcept twoOutputs.serialize 1 [] = .ok 0 ∧
      sumOutputValuesToScript twoOutputs.serialize [] = .ok 5 := by
  have h := scanner_returns_transaction twoOutputs (Or.inl (by simp [twoOutputs])) [] [] 1
  exact ⟨h.1, h.2.2.2.2.2.2.1.trans (by decide), h.2.2.2.2.2.1.trans (by decide)⟩

theorem no_inputs_refused : ∃ tx : Tx, tx.inputs.length = 0 ∧ inputCount tx.serialize = .error .truncatedTx ∧
      ∀ spk, sumOutputValuesToScript tx.serialize spk ≠ .ok (tx.valueTo spk) := by
  refine ⟨⟨2, [], .byte, by decide, [], .byte, by decide, 0⟩, rfl, by decide, ?_⟩
  intro spk h
  have hmarker : assertLegacy (Tx.serialize ⟨2, [], .byte, by decide, [], .byte, by decide, 0⟩) =
      .error .truncatedTx := by decide
  rw [sumOutputValuesToScript, scanOutputs, skipInputs, hmarker] at h
  exact absurd h (by simp)

end QuidProtocol.Btc
