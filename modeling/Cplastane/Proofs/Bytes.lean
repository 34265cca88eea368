import Cplastane.Assembly.Meaning

/-! The displacement and immediate writers emit little-endian fields. Narrowing to
u8 keeps the low byte and the arithmetic shift divides, rounding down. -/

namespace Cplastane.Assembly
open X86

private theorem toUInt8_eq_ofInt (byte : Int8) : byte.toUInt8 = UInt8.ofInt byte.toInt := by
  have bound := byte.toUInt8.toNat_lt
  have value : byte.toInt = (byte.toUInt8.toNat : Int).bmod 256 := by
    rw [← Int8.toInt_toBitVec, BitVec.toInt_eq_toNat_bmod]
    rfl
  have residue : (byte.toUInt8.toNat : Int).bmod 256 % 256 = byte.toUInt8.toNat % 256 := Int.bmod_emod
  apply UInt8.toNat_inj.mp
  simp only [UInt8.ofInt, UInt8.toNat_ofNat', value, Int.reducePow, residue]
  omega

private theorem ofInt_bmod (value : Int) : UInt8.ofInt (value.bmod (2 ^ 8)) = UInt8.ofInt value := by
  unfold UInt8.ofInt
  congr 2
  exact Int.bmod_emod

private theorem and_255 (byte : Int8) : byte &&& 255 = byte := by
  apply Int8.toBitVec_inj.mp
  rw [Int8.toBitVec_and]
  exact BitVec.and_allOnes

private theorem narrow_i32 (value : i32) : value.toInt8.toUInt8 = UInt8.ofInt value.toInt := by
  rw [toUInt8_eq_ofInt, Int32.toInt_toInt8, ofInt_bmod]

private theorem narrow_i64 (value : i64) : value.toInt8.toUInt8 = UInt8.ofInt value.toInt := by
  rw [toUInt8_eq_ofInt, Int64.toInt_toInt8, ofInt_bmod]

private theorem lowByte_i16 (value : i16) : (value &&& 0xff).toInt8.toUInt8 = UInt8.ofInt value.toInt := by
  have masked : (value &&& 0xff).toInt8 = value.toInt8 := by simp [and_255]
  rw [masked, toUInt8_eq_ofInt, Int16.toInt_toInt8, ofInt_bmod]

private theorem lowByte_i32 (value : i32) : (value &&& 0xff).toInt8.toUInt8 = UInt8.ofInt value.toInt := by
  have masked : (value &&& 0xff).toInt8 = value.toInt8 := by simp [and_255]
  rw [masked, narrow_i32]

private theorem lowByte_i64 (value : i64) : (value &&& 0xff).toInt8.toUInt8 = UInt8.ofInt value.toInt := by
  have masked : (value &&& 0xff).toInt8 = value.toInt8 := by simp [and_255]
  rw [masked, narrow_i64]

private theorem shift_i16 (value : i16) : (value >>> 8).toInt = value.toInt / 256 := by
  rw [← Int16.toInt_toBitVec, Int16.toBitVec_shiftRight, BitVec.toInt_sshiftRight']
  exact Int.shiftRight_eq_div_pow value.toInt 8

private theorem shift_i32 (value : i32) : (value >>> 8).toInt = value.toInt / 256 := by
  rw [← Int32.toInt_toBitVec, Int32.toBitVec_shiftRight, BitVec.toInt_sshiftRight']
  exact Int.shiftRight_eq_div_pow value.toInt 8

private theorem shift_i64 (value : i64) : (value >>> 8).toInt = value.toInt / 256 := by
  rw [← Int64.toInt_toBitVec, Int64.toBitVec_shiftRight, BitVec.toInt_sshiftRight']
  exact Int.shiftRight_eq_div_pow value.toInt 8

def dispLength (disp : Disp) : Nat :=
  if disp = 0 then 0 else if -128 ≤ disp ∧ disp ≤ 127 then 1 else 4

theorem appendDisp_eq (out : List u8) (disp : Disp) :
    appendDisp out disp = out ++ littleEndian (dispLength disp) disp.toInt := by
  unfold appendDisp dispLength
  split
  · simp [littleEndian]
  split
  · simp [littleEndian, narrow_i32]
  · simp only [lowByte_i32, shift_i32, littleEndian, List.append_assoc, List.cons_append, List.nil_append]

theorem appendDisp_length (disp : Disp) : (appendDisp [] disp).length = dispLength disp := by
  simp [appendDisp_eq]

theorem appendImmUpto64_eq (out : List u8) (width : Width) (imm : Imm) :
    appendImmUpto64 out width imm = match width.size with
      | some size => .ok (out ++ littleEndian size.bytes imm.toInt)
      | none => .error .appendImmWidth := by
  cases width with
  | byte => simp [appendImmUpto64, Width.size, Size.bytes, littleEndian, narrow_i64]
  | word =>
    have low := littleEndian_bmod 2 imm.toInt
    rw [show (256 : Nat) ^ 2 = 2 ^ 16 from rfl, ← Int64.toInt_toInt16] at low
    simp only [appendImmUpto64, Width.size, Size.bytes, ← low, lowByte_i16, shift_i16, littleEndian,
      List.append_assoc, List.cons_append, List.nil_append]
  | dword =>
    have low := littleEndian_bmod 4 imm.toInt
    rw [show (256 : Nat) ^ 4 = 2 ^ 32 from rfl, ← Int64.toInt_toInt32] at low
    simp only [appendImmUpto64, Width.size, Size.bytes, ← low, lowByte_i32, shift_i32, littleEndian,
      List.append_assoc, List.cons_append, List.nil_append]
  | qword =>
    simp only [appendImmUpto64, Width.size, Size.bytes, lowByte_i64, shift_i64, littleEndian,
      List.append_assoc, List.cons_append, List.nil_append]
  | undef | notSet => rfl

end Cplastane.Assembly
