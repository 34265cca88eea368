import Cplastane.Proofs.Reading

/-! Decoding the entries of the table. An entry whose memory operand is read back
decodes to the instruction of its mnemo and takes exactly its own bytes. -/

namespace Cplastane.Assembly
open X86

private theorem disp_bmod (disp : Disp) : disp.toInt.bmod (256 ^ dispLength disp) = disp.toInt := by
  unfold dispLength
  split
  next zero => simp [zero]
  split
  next short =>
    have low : -128 ≤ disp.toInt := Int32.le_iff_toInt_le.mp short.1
    have high : disp.toInt ≤ 127 := Int32.le_iff_toInt_le.mp short.2
    apply Int.bmod_eq_of_le <;> omega
  next long =>
    have low := Int32.le_toInt disp
    have high := Int32.toInt_lt disp
    apply Int.bmod_eq_of_le <;> omega

namespace Memory

variable {memory : Memory} {base : Register} {sib : Option Fields}

@[simp] theorem selected_reg (memory : Memory) (address : Size) (base : Register) (sib : Option Fields)
    (reg : Fin 8) : (memory.selected address base sib reg).reg = reg := by
  cases sib <;> rfl

/-- An operand that keeps its SIB byte and displacement is read to its end. -/
theorem memory_formBytes (chosen : memory.Chosen base sib) (address : Size) (reg : Fin 8) (rest : List UInt8)
    (announced : sib = none → base.number ≠ 4) (kept : ¬memory.Escapes base) :
    X86.memory address (memory.formBytes base sib reg ++ rest) =
      some (reg, (memory.selected address base sib reg).address memory.disp.toInt, rest) := by
  have sized : (memory.selected address base sib reg).dispSize = dispLength memory.disp := by
    rw [selected_dispSize chosen, dispSize_mode _ _ kept]
  rw [memory_of_form (memory.form_formBytes address reg rest announced) sized (disp_bmod memory.disp), selected_reg]

/-- An accepted operand that the processor reads back as it was written: its base is one that 64-bit
mode can address through and that mod 00 does not turn into a displacement, and its index is not the
number that stands for none. -/
structure Readable (memory : Memory) (base : Register) (sib : Option Fields) : Prop where
  place : memory.Encodable base sib
  wide : Wide base
  kept : ¬memory.Escapes base
  index : memory.index ≠ .rsp

theorem Encodable.address (place : memory.Encodable base sib) :
    memory.address = some ⟨base.size, .reg base, memory.scaledIndex.join, memory.disp.toInt⟩ := by
  have scaled : memory.scaledIndex = some memory.scaledIndex.join := by
    rcases place.chosen.scaledIndex with ⟨_, scaled⟩ | ⟨_, _, _, scaled⟩ <;> rw [scaled] <;> rfl
  rw [Memory.address, place.based, scaled]
  rfl

theorem Readable.read (readable : memory.Readable base sib) (reg : Fin 8) (rest : List UInt8) :
    X86.memory base.size (memory.formBytes base sib reg ++ rest) =
      some (reg, ⟨base.size, .reg base, memory.scaledIndex.join, memory.disp.toInt⟩, rest) := by
  obtain ⟨place, wide, kept, index⟩ := readable
  rw [memory_formBytes place.chosen base.size reg rest (place.announced wide) kept]
  rw [Form.address, selected_addressSize, selected_base place.chosen _ _ kept, wide.gp,
    selected_index place wide, if_neg index]

theorem Readable.address (readable : memory.Readable base sib) :
    ∃ address, memory.address = some address ∧ ∀ reg rest,
      X86.memory base.size (memory.formBytes base sib reg ++ rest) = some (reg, address, rest) :=
  ⟨_, readable.place.address, readable.read⟩

end Memory

theorem addressSize_memoryPrefixes {base : Register} (wide : Wide base) (size : Size) :
    (memoryPrefixes size base).addressSize = base.size := wide.addressSize

theorem decode_sized {reg : Reg} {register : Register} {size : Size} (named : reg.register = some register)
    (sized : register.size = size) : Register.decode (size == .qword) size register.number = register := by
  subst sized
  by_cases wide : register.size = .qword
  · rw [Register.decode_wide _ _ _ (by simp [wide]), ← Reg.register_wide named (by simp [wide])]
  · rw [beq_eq_false_iff_ne.mpr wide]
    exact Register.decode_legacy register (Reg.register_legacy named)

theorem operandSize_select (found : Prefixes) (size : Size) (operand : found.operand = (size == .word))
    (rexW : found.rexW = (size == .qword)) : operandSize found (size != .byte) = size := by
  cases size <;> simp [operandSize, Prefixes.operandSize, operand, rexW]

private theorem layout_rmReg (operation : Operation) (size : Size) :
    layout ((rmRegOpcodes operation).select size) = some (.rmReg operation (size != .byte)) := by
  cases operation <;> cases size <;> rfl

theorem layout_regImm (size : Size) (number : Fin 8) :
    Plain ((Opcodes.mk 0xb0 0xb8).select size + UInt8.ofNat number.val) ∧
      layout ((Opcodes.mk 0xb0 0xb8).select size + UInt8.ofNat number.val) = some (.regImm (size != .byte) number) := by
  revert number
  cases size <;> decide

private theorem layout_stackReg (isPush : Bool) (number : Fin 8) :
    Plain ((if isPush then 0x50 else 0x58) + UInt8.ofNat number.val) ∧
      layout ((if isPush then 0x50 else 0x58) + UInt8.ofNat number.val) =
        some (if isPush then .pushReg number else .popReg number) := by
  revert number
  cases isPush <;> decide

theorem layout_movMemImm (size : Size) : Plain ((Opcodes.mk 0xc6 0xc7).select size) ∧
    layout ((Opcodes.mk 0xc6 0xc7).select size) = some (.rmImm .mov (size != .byte) false) := by
  cases size <;> decide

theorem layout_addImm (size : Size) : Plain ((Opcodes.mk 0x80 0x81).select size) ∧
    layout ((Opcodes.mk 0x80 0x81).select size) = some (.rmImm .add (size != .byte) false) := by
  cases size <;> decide

theorem layout_addAccumulator (size : Size) : Plain ((Opcodes.mk 0x04 0x05).select size) ∧
    layout ((Opcodes.mk 0x04 0x05).select size) = some (.accumulator .add (size != .byte)) := by
  cases size <;> decide

theorem layout_pushImm (size : Size) : Plain ((Opcodes.mk 0x6a 0x68).select size) ∧
    layout ((Opcodes.mk 0x6a 0x68).select size) = some (.pushImm (size == .byte)) := by
  cases size <;> decide

private theorem layout_regRm (operation : Operation) (size : Size) :
    layout ((regRmOpcodes operation).select size) = some (.regRm operation (size != .byte)) := by
  cases operation <;> cases size <;> rfl

/-- The code is one instruction, the mnemo's own, whatever follows it. -/
def DecodesTo (mnemo : Mnemo) (code : List u8) : Prop :=
  ∃ instruction, mnemo.instruction = some instruction ∧ ∀ rest, decode (code ++ rest) = some (instruction, rest)

/-- The decoder behind the prefixes and the opcode of a table entry. -/
theorem decode_encodingBytes (found : Prefixes) {opcode : u8} {layout : Layout} (plain : Plain opcode)
    (known : X86.layout opcode = some layout) (body rest : List u8) :
    decode (encodingBytes found opcode body ++ rest) = operands found layout (body ++ rest) := by
  rw [encodingBytes, List.append_assoc, List.cons_append]
  exact decode_bytes found plain known (body ++ rest)

private theorem stackSize_stackPrefixes {width : Width} {size : Size} (sized : width.size = some size)
    (stack : size = .word ∨ size = .qword) (address : Bool) :
    Prefixes.stackSize { stackPrefixes width with address } = size := by
  rcases stack with rfl | rfl <;> cases Width.ofSize_eq sized <;> rfl

section Shapes

variable {width : Width} {size : Size} {memory : Memory} {base : Register} {sib : Option Fields}

theorem regReg_decodes (operation : Operation) {a1 a2 : Reg} {target source : Register}
    (sized : width.size = some size) (first : a1.register = some target) (second : a2.register = some source)
    (targetSize : target.size = size) (sourceSize : source.size = size) :
    DecodesTo ⟨tagOf operation, width, .register a1, .register a2⟩ (encodingBytes (sizePrefixes size)
      ((rmRegOpcodes operation).select size) [(Fields.mk 3 source.number target.number).byte]) := by
  refine ⟨.binary operation size (.reg target) (.reg source), ?_, fun rest => ?_⟩
  · cases operation <;> simp [Mnemo.instruction, tagOf, Mnemo.binary, sized, Arg.target, Arg.source, first, second]
  · rw [decode_encodingBytes _ (addressing_rmReg operation size).1 (layout_rmReg operation size)]
    have rex : (sizePrefixes size).rexW = (size == .qword) := rfl
    simp [operands, operandSize_select (sizePrefixes size) size rfl rfl, rm_register, rex,
      decode_sized first targetSize, decode_sized second sourceSize]

theorem memReg_decodes (operation : Operation) {a2 : Reg} {source : Register} (sized : width.size = some size)
    (readable : memory.Readable base sib) (second : a2.register = some source) (sourceSize : source.size = size) :
    DecodesTo ⟨tagOf operation, width, .memory memory, .register a2⟩ (encodingBytes (memoryPrefixes size base)
      ((rmRegOpcodes operation).select size) (memory.formBytes base sib source.number)) := by
  obtain ⟨address, addressed, read⟩ := readable.address
  refine ⟨.binary operation size (.mem address) (.reg source), ?_, fun rest => ?_⟩
  · cases operation <;> simp [Mnemo.instruction, tagOf, Mnemo.binary, sized, Arg.target, Arg.source, addressed, second]
  · rw [decode_encodingBytes _ (addressing_rmReg operation size).1 (layout_rmReg operation size)]
    rw [← addressSize_memoryPrefixes readable.wide size] at read
    have rex : (memoryPrefixes size base).rexW = (size == .qword) := rfl
    simp [operands, operandSize_select (memoryPrefixes size base) size rfl rfl, rm_memory size (read _ _), rex,
      decode_sized second sourceSize]

theorem regMem_decodes (operation : Operation) {a1 : Reg} {target : Register} (sized : width.size = some size)
    (first : a1.register = some target) (targetSize : target.size = size) (readable : memory.Readable base sib) :
    DecodesTo ⟨tagOf operation, width, .register a1, .memory memory⟩ (encodingBytes (memoryPrefixes size base)
      ((regRmOpcodes operation).select size) (memory.formBytes base sib target.number)) := by
  obtain ⟨address, addressed, read⟩ := readable.address
  refine ⟨.binary operation size (.reg target) (.mem address), ?_, fun rest => ?_⟩
  · cases operation <;> simp [Mnemo.instruction, tagOf, Mnemo.binary, sized, Arg.target, Arg.source, addressed, first]
  · rw [decode_encodingBytes _ (addressing_regRm operation size).1 (layout_regRm operation size)]
    rw [← addressSize_memoryPrefixes readable.wide size] at read
    have rex : (memoryPrefixes size base).rexW = (size == .qword) := rfl
    simp [operands, operandSize_select (memoryPrefixes size base) size rfl rfl, rm_memory size (read _ _), rex,
      decode_sized first targetSize]

theorem movRegImm_decodes {a1 : Reg} {target : Register} (imm : Imm) (sized : width.size = some size)
    (first : a1.register = some target) (targetSize : target.size = size) :
    DecodesTo ⟨.mov, width, .register a1, .immediate imm⟩ (encodingBytes (sizePrefixes size)
      ((Opcodes.mk 0xb0 0xb8).select size + UInt8.ofNat target.number.val) (littleEndian size.bytes imm.toInt)) := by
  refine ⟨.binary .mov size (.reg target) (immediateOperand size.bytes imm), ?_, fun rest => ?_⟩
  · simp [Mnemo.instruction, Mnemo.binary, sized, Arg.target, Arg.source, first, Arg.immediateSize]
  · obtain ⟨plain, known⟩ := layout_regImm size target.number
    rw [decode_encodingBytes _ plain known]
    have length : (Layout.regImm (size != .byte) target.number).immediateSize (sizePrefixes size) = size.bytes := by
      cases size <;> rfl
    have rex : (sizePrefixes size).rexW = (size == .qword) := rfl
    simp [operands, length, operandSize_select (sizePrefixes size) size rfl rfl, rex, decode_sized first targetSize,
      immediateOperand]

theorem movMemImm_decodes (imm : Imm) (sized : width.size = some size) (readable : memory.Readable base sib) :
    DecodesTo ⟨.mov, width, .memory memory, .immediate imm⟩ (encodingBytes (memoryPrefixes size base)
      ((Opcodes.mk 0xc6 0xc7).select size)
      (memory.formBytes base sib 0 ++ littleEndian size.immediate imm.toInt)) := by
  obtain ⟨address, addressed, read⟩ := readable.address
  refine ⟨.binary .mov size (.mem address) (immediateOperand size.immediate imm), ?_, fun rest => ?_⟩
  · simp [Mnemo.instruction, Mnemo.binary, sized, Arg.target, Arg.source, addressed, Arg.immediateSize]
  · obtain ⟨plain, known⟩ := layout_movMemImm size
    rw [decode_encodingBytes _ plain known]
    rw [← addressSize_memoryPrefixes readable.wide size] at read
    have length : (Layout.rmImm .mov (size != .byte) false).immediateSize (memoryPrefixes size base) =
        size.immediate := by
      cases size <;> rfl
    simp [operands, rmDigit, Layout.digit, length, operandSize_select (memoryPrefixes size base) size rfl rfl,
      rm_memory size (read _ _), immediateOperand]

theorem stackReg_decodes (isPush : Bool) {a1 : Reg} {register : Register} (sized : width.size = some size)
    (stack : size = .word ∨ size = .qword) (first : a1.register = some register) (registerSize : register.size = size) :
    DecodesTo ⟨stackTag isPush, width, .register a1, .undef⟩ (encodingBytes (stackPrefixes width)
      ((if isPush then 0x50 else 0x58) + UInt8.ofNat register.number.val) []) := by
  obtain ⟨plain, known⟩ := layout_stackReg isPush register.number
  have stackSize : (stackPrefixes width).stackSize = size := stackSize_stackPrefixes sized stack _
  have named : .gp size register.number = register := by
    rw [← registerSize]
    exact (Reg.register_wide first (by rcases stack with rfl | rfl <;> simp [registerSize])).symm
  cases isPush with
  | true =>
    refine ⟨.push size (.reg register), ?_, fun rest => ?_⟩
    · rcases stack with rfl | rfl <;> simp [Mnemo.instruction, stackTag, sized, Arg.source, Arg.target, first]
    · rw [decode_encodingBytes _ plain known]
      simp [operands, stackSize, named]
  | false =>
    refine ⟨.pop size (.reg register), ?_, fun rest => ?_⟩
    · simp [Mnemo.instruction, stackTag, sized, Arg.target, first]
    · rw [decode_encodingBytes _ plain known]
      simp [operands, stackSize, named]

theorem stackMem_decodes (isPush : Bool) (sized : width.size = some size) (stack : size = .word ∨ size = .qword)
    (readable : memory.Readable base sib) :
    DecodesTo ⟨stackTag isPush, width, .memory memory, .undef⟩
      (encodingBytes { stackPrefixes width with address := base.size == .dword } (if isPush then 0xff else 0x8f)
        (memory.formBytes base sib (if isPush then 6 else 0))) := by
  obtain ⟨address, addressed, read⟩ := readable.address
  have stackSize := stackSize_stackPrefixes sized stack (base.size == .dword)
  have addressSize : Prefixes.addressSize { stackPrefixes width with address := base.size == .dword } = base.size :=
    readable.wide.addressSize
  rw [← addressSize] at read
  cases isPush with
  | true =>
    refine ⟨.push size (.mem address), ?_, fun rest => ?_⟩
    · rcases stack with rfl | rfl <;> simp [Mnemo.instruction, stackTag, sized, Arg.source, Arg.target, addressed]
    · have known : layout 0xff = some .pushRm := rfl
      rw [if_pos rfl, decode_encodingBytes _ (by decide) known]
      simp [operands, rmDigit, Layout.digit, stackSize, rm_memory size (read _ _)]
  | false =>
    refine ⟨.pop size (.mem address), ?_, fun rest => ?_⟩
    · simp [Mnemo.instruction, stackTag, sized, Arg.target, addressed]
    · have known : layout 0x8f = some .popRm := rfl
      rw [if_neg Bool.false_ne_true, decode_encodingBytes _ (by decide) known]
      simp [operands, rmDigit, Layout.digit, stackSize, rm_memory size (read _ _)]

theorem pushImm_decodes (imm : Imm) (sized : width.size = some size) (narrow : size ≠ .qword) :
    DecodesTo ⟨.push, width, .immediate imm, .undef⟩ (encodingBytes (sizePrefixes size)
      ((Opcodes.mk 0x6a 0x68).select size) (littleEndian size.bytes imm.toInt)) := by
  refine ⟨.push (if size = .word then .word else .qword) (immediateOperand size.bytes imm), ?_, fun rest => ?_⟩
  · simp [Mnemo.instruction, sized, Arg.source]
  · obtain ⟨plain, known⟩ := layout_pushImm size
    rw [decode_encodingBytes _ plain known]
    have length : (Layout.pushImm (size == .byte)).immediateSize (sizePrefixes size) = size.bytes := by
      cases size <;> first | rfl | exact absurd rfl narrow
    have stackSize : (sizePrefixes size).stackSize = if size = .word then .word else .qword := by
      cases size <;> rfl
    simp [operands, length, stackSize, immediateOperand]

theorem ret_decodes (a1 a2 : Arg) : DecodesTo ⟨.ret, width, a1, a2⟩ (encodingBytes {} 0xc3 []) := by
  have known : layout 0xc3 = some .ret := rfl
  refine ⟨.ret, rfl, fun rest => ?_⟩
  rw [decode_encodingBytes _ (by decide) known]
  rfl

end Shapes

end Cplastane.Assembly
