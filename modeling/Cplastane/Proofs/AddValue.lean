import Cplastane.Proofs.AddImmediate

/-! The number that `add` with an immediate adds, as the processor decodes it. A memory
operand that is misread has none: what is taken for the immediate is found behind the code. -/

namespace Cplastane.Assembly
open X86

/-- The short form in memory announces one byte of immediate and is given a full one. The value is
what is in the first byte; the other bytes are left over. -/
private theorem addMemShort_adds {size : Size} {memory : Memory} {base : Register} {sib : Option Fields} {imm : Imm}
    (chosen : memory.Chosen base sib) (announced : sib = none → base.number ≠ 4) (kept : ¬memory.Escapes base)
    (wide : size ≠ .byte) :
    ∃ left, Adds (encodingBytes (memoryPrefixes size base) 0x83
      (memory.formBytes base sib 0 ++ littleEndian size.immediate imm.toInt)) size (imm.toInt.bmod (256 ^ 1)) left := by
  have known : layout 0x83 = some (.rmImm .add true true) := rfl
  have wideSize : operandSize (memoryPrefixes size base) true = size := by
    cases size <;> first | rfl | exact absurd rfl wide
  have read := fun behind => rm_memory size (memory.memory_formBytes chosen
    (memoryPrefixes size base).addressSize 0 behind announced kept)
  obtain ⟨more, length⟩ : ∃ more, size.immediate = 1 + more :=
    Nat.exists_eq_add_of_le (by cases size <;> decide)
  refine ⟨littleEndian more (imm.toInt / 256 ^ 1),
    .mem ((memory.selected (memoryPrefixes size base).addressSize base sib 0).address memory.disp.toInt), 1, fun rest => ?_⟩
  rw [decode_encodingBytes _ (by decide) known, length, littleEndian_append, List.append_assoc, List.append_assoc]
  simp [operands, rmDigit, Layout.digit, Layout.immediateSize, immediate, wideSize, read]

private theorem add_memory_adds {memory : Memory} {width : Width} {imm : Imm} {code : List u8}
    (accepted : assemble [⟨.add, width, .memory memory, .immediate imm⟩] = .ok code) (reads : ¬memory.Misread) :
    ∃ size left, width.size = some size ∧ Adds code size (imm.toInt.bmod (256 ^ addImmediateSize size imm)) left := by
  rw [assemble_singleton_ok_iff] at accepted
  obtain ⟨-, found, opcode, body, encodes, rfl⟩ := accepted
  cases encodes with
  | @addMemImm _ size _ base sib _ sized place fits =>
    obtain ⟨announced, kept⟩ := (Memory.misread_iff place).mp reads
    by_cases short : Short size imm
    · obtain ⟨left, adds⟩ := @addMemShort_adds size memory base sib imm place.chosen announced kept short.2
      refine ⟨size, left, sized, ?_⟩
      rw [if_pos short, addImmediateSize, if_pos short]
      exact adds
    · refine ⟨size, [], sized, ?_⟩
      rw [if_neg short, addImmediateSize, if_neg short]
      exact addMemCode_adds place.chosen announced kept
  | stackMem isPush tagged => cases isPush <;> cases tagged

private theorem add_adds {target : Arg} {width : Width} {imm : Imm} {code : List u8}
    (accepted : assemble [⟨.add, width, target, .immediate imm⟩] = .ok code)
    (reads : ∀ memory, target = .memory memory → ¬memory.Misread) :
    ∃ size left, width.size = some size ∧ Adds code size (imm.toInt.bmod (256 ^ addImmediateSize size imm)) left := by
  have writable : target.Writable := ((immediate_accepted_iff (.add target) width imm).mp ⟨code, accepted⟩).2.1
  cases target with
  | register reg =>
    obtain ⟨size, sized, adds⟩ := add_register_adds accepted
    exact ⟨size, [], sized, adds⟩
  | memory memory => exact add_memory_adds accepted (reads memory rfl)
  | undef | immediate => exact writable.elim

private theorem field_value {size : Size} {imm : Imm} (fits : FitsImm32 size imm)
    (small : size ≠ .byte → ¬(128 ≤ imm.toInt ∧ imm.toInt ≤ 255)) :
    if size = .qword ∧ 2 ^ 31 ≤ imm.toInt then imm.toInt.bmod (256 ^ addImmediateSize size imm) = imm.toInt - 2 ^ 32
    else imm.toInt.bmod (256 ^ addImmediateSize size imm) % 2 ^ (8 * size.bytes) = imm.toInt % 2 ^ (8 * size.bytes) := by
  rw [addImmediateSize]
  by_cases short : Short size imm
  · -- the 8-bit form, read back unchanged below 128
    obtain ⟨low, high⟩ := (canBeEncodedIn8Bits_iff imm).mp short.1
    have bound := small short.2
    have exact : imm.toInt.bmod (256 ^ 1) = imm.toInt := by apply Int.bmod_eq_of_le <;> omega
    rw [if_pos short, if_neg (by omega), exact]
  · rw [if_neg short]
    cases size with
    | qword =>
      obtain ⟨low, high⟩ := (canBeEncodedIn32Bits_iff imm).mp (fits rfl)
      have modulus : 256 ^ Size.qword.immediate = 4294967296 := rfl
      simp only [modulus, Size.bytes, Int.bmod_def, true_and]
      split <;> omega
    | byte => exact bmod_emod_bits 1 imm.toInt
    | word => exact bmod_emod_bits 2 imm.toInt
    | dword => exact bmod_emod_bits 4 imm.toInt

/-- Whatever follows the code, the processor adds the immediate up to the operand's size, and
extends one of a QWORD that uses bit 31 with its sign. -/
theorem add_value (target : Arg) (width : Width) (imm : Imm) (code : List u8)
    (accepted : assemble [⟨.add, width, target, .immediate imm⟩] = .ok code)
    (reads : ∀ memory, target = .memory memory → ¬memory.Misread)
    (small : width ≠ .byte → ¬(128 ≤ imm.toInt ∧ imm.toInt ≤ 255)) :
    ∃ size value left, width.size = some size ∧ Adds code size value left ∧
      if size = .qword ∧ 2 ^ 31 ≤ imm.toInt then value = imm.toInt - 2 ^ 32
      else value % 2 ^ (8 * size.bytes) = imm.toInt % 2 ^ (8 * size.bytes) := by
  obtain ⟨size, left, sized, adds⟩ := add_adds accepted reads
  obtain ⟨-, -, other, otherSized, fits⟩ := (immediate_accepted_iff (.add target) width imm).mp ⟨code, accepted⟩
  cases sized.symm.trans otherSized
  refine ⟨size, _, left, sized, adds, field_value fits fun narrow => small ?_⟩
  rintro rfl
  cases sized
  exact narrow rfl

theorem add_value_rsi : ∃ size value left, Width.dword.size = some size ∧
    Adds [0x83, 0x46, 0x04, 0x64, 0x00, 0x00, 0x00] size value left ∧
      if size = .qword ∧ 2 ^ 31 ≤ (100 : Imm).toInt then value = (100 : Imm).toInt - 2 ^ 32
      else value % 2 ^ (8 * size.bytes) = (100 : Imm).toInt % 2 ^ (8 * size.bytes) := by
  refine add_value (.memory ⟨.rsi, .undef, .s0, 4, fun _ => rfl⟩) .dword 100 _ (by decide) ?_ (by decide)
  rintro memory same
  cases same
  simp [Memory.Misread]

theorem Adds.value {code left : List u8} {size otherSize : Size} {value other : Int} {target : Operand} {width : Nat}
    {rest : List u8} (adds : Adds code size value left)
    (decoded : decode code = some (.binary .add otherSize target (.imm width other), rest)) : value = other := by
  obtain ⟨_, _, reads⟩ := adds
  have same := reads []
  rw [List.append_nil, decoded] at same
  cases same
  rfl

/-- `add QWORD rbx, 0xFFFFFFFF` adds -1, `add DWORD ebx, 200` adds -56, and the immediate of
`add DWORD [rbp], 1000` is taken for a displacement. -/
theorem add_sign_extends :
    (assemble [⟨.add, .qword, .register .rbx, .immediate 0xFFFFFFFF⟩] =
        .ok [0x48, 0x81, 0xc3, 0xff, 0xff, 0xff, 0xff] ∧
      ¬∃ value left, Adds [0x48, 0x81, 0xc3, 0xff, 0xff, 0xff, 0xff] .qword value left ∧
        value % 2 ^ 64 = 0xFFFFFFFF % 2 ^ 64) ∧
    (assemble [⟨.add, .dword, .register .ebx, .immediate 200⟩] = .ok [0x83, 0xc3, 0xc8] ∧
      ¬∃ value left, Adds [0x83, 0xc3, 0xc8] .dword value left ∧ value % 2 ^ 32 = 200 % 2 ^ 32) ∧
    assemble [⟨.add, .dword, .memory ⟨.rbp, .undef, .s0, 0, fun _ => rfl⟩, .immediate 1000⟩] =
        .ok [0x81, 0x04, 0x25, 0xe8, 0x03, 0x00, 0x00] ∧
      ¬∃ value left, Adds [0x81, 0x04, 0x25, 0xe8, 0x03, 0x00, 0x00] .dword value left ∧
        value % 2 ^ 32 = 1000 % 2 ^ 32 := by
  refine ⟨⟨by decide, ?_⟩, ⟨by decide, ?_⟩, by decide, ?_⟩
  · intro accepted
    obtain ⟨value, left, adds, same⟩ := accepted
    have minus : decode [0x48, 0x81, 0xc3, 0xff, 0xff, 0xff, 0xff] =
      some (.binary .add .qword (.reg (.gp .qword 3)) (.imm 4 (-1)), []) := by decide
    cases adds.value minus
    revert same
    decide
  · intro accepted
    obtain ⟨value, left, adds, same⟩ := accepted
    have minus : decode [0x83, 0xc3, 0xc8] =
      some (.binary .add .dword (.reg (.gp .dword 3)) (.imm 1 (-56)), []) := by decide
    cases adds.value minus
    revert same
    decide
  · intro accepted
    obtain ⟨value, left, ⟨target, width, reads⟩, -⟩ := accepted
    have short : decode [0x81, 0x04, 0x25, 0xe8, 0x03, 0x00, 0x00] = none := by decide
    have same := reads []
    rw [List.append_nil, short] at same
    cases same

end Cplastane.Assembly
