import Cplastane.Proofs.Immediates

/-! `add` with an immediate: its forms as the processor decodes them, and when it consumes
exactly the emitted bytes. -/

namespace Cplastane.Assembly
open X86

private theorem dispLength_le (disp : Disp) (number : Fin 8) : dispLength disp ≤ X86.dispSize (mode disp) number := by
  unfold dispLength mode X86.dispSize
  split
  · simp
  split <;> simp

private theorem Memory.memory_exact {memory : Memory} {base : Register} {sib : Option Fields} {address : Size}
    {reg : Fin 8} {rest tail : List UInt8} {number : Fin 8} {place : Address} (chosen : memory.Chosen base sib)
    (read : X86.memory address (memory.formBytes base sib reg ++ rest) = some (number, place, tail))
    (exact : tail.length = rest.length) : (sib = none → base.number ≠ 4) ∧ ¬memory.Escapes base := by
  simp only [X86.memory, Option.bind_eq_bind, Option.bind_eq_some_iff, Prod.exists] at read
  obtain ⟨found, behind, selected, disp, left, fieldRead, same⟩ := read
  cases same
  have length := field_length fieldRead
  have announced : sib = none → base.number ≠ 4 := by
    rintro rfl four
    -- the SIB byte that the processor reads is one that was not emitted
    have unfolded : memory.formBytes base none reg ++ rest = (memory.modrm base none reg).byte ::
        (littleEndian (dispLength memory.disp) memory.disp.toInt ++ rest) := rfl
    rw [unfolded] at selected
    have low : (memory.modrm base none reg).low = 4 := four
    have taken := form_length selected
    rw [if_pos low, List.length_append, littleEndian_length] at taken
    obtain ⟨other, sized⟩ := form_dispSize selected
    have bound : dispLength memory.disp ≤ found.dispSize := sized ▸ dispLength_le memory.disp other
    omega
  refine ⟨announced, fun escapes => ?_⟩
  rw [memory.form_formBytes address reg rest announced] at selected
  cases selected
  rw [Memory.selected_dispSize chosen, escapes.2, dispSize_escape escapes.1, List.length_append, littleEndian_length,
    dispLength, if_pos escapes.1] at length
  omega

def OneInstruction (code : List u8) : Prop :=
  ∃ instruction, ∀ rest, decode (code ++ rest) = some (instruction, rest)

def addImmediateSize (size : Size) (imm : Imm) : Nat := if Short size imm then 1 else size.immediate

/-- Whatever follows the code, the processor decodes an `add` of this value, and goes on with
`left`: the bytes of the code that the instruction does not use. Where the immediate is read from is
the decoder's decision, not the encoder's. -/
def Adds (code : List u8) (size : Size) (value : Int) (left : List u8) : Prop :=
  ∃ target width, ∀ rest, decode (code ++ rest) = some (.binary .add size target (.imm width value), left ++ rest)

private theorem Adds.oneInstruction {code : List u8} {size : Size} {value : Int} (adds : Adds code size value []) :
    OneInstruction code := by
  obtain ⟨target, width, decoded⟩ := adds
  exact ⟨_, decoded⟩

section Memory

variable {size : Size} {memory : Memory} {base : Register} {sib : Option Fields} {imm : Imm}

def addMemCode (size : Size) (memory : Memory) (base : Register) (sib : Option Fields) (imm : Imm) : List u8 :=
  encodingBytes (memoryPrefixes size base) ((Opcodes.mk 0x80 0x81).select size)
    (memory.formBytes base sib 0 ++ littleEndian size.immediate imm.toInt)

theorem decode_addMemCode (rest : List u8) :
    decode (addMemCode size memory base sib imm ++ rest) = (do
      let (operand, bytes) ← rmDigit (memoryPrefixes size base) size (some 0)
        (memory.formBytes base sib 0 ++ (littleEndian size.immediate imm.toInt ++ rest))
      let (source, bytes) ← immediate size.immediate bytes
      return (.binary .add size operand source, bytes)) := by
  obtain ⟨plain, known⟩ := layout_addImm size
  have length : (Layout.rmImm .add (size != .byte) false).immediateSize (memoryPrefixes size base) =
      size.immediate := by
    cases size <;> rfl
  rw [addMemCode, decode_encodingBytes _ plain known, List.append_assoc]
  simp [operands, length, operandSize_select (memoryPrefixes size base) size rfl rfl, Layout.digit]

theorem addMemCode_adds (chosen : memory.Chosen base sib) (announced : sib = none → base.number ≠ 4)
    (kept : ¬memory.Escapes base) :
    Adds (addMemCode size memory base sib imm) size (imm.toInt.bmod (256 ^ size.immediate)) [] := by
  have read := fun behind => rm_memory size (memory.memory_formBytes chosen
    (memoryPrefixes size base).addressSize 0 behind announced kept)
  refine ⟨.mem ((memory.selected (memoryPrefixes size base).addressSize base sib 0).address memory.disp.toInt),
    size.immediate, fun rest => ?_⟩
  simp [decode_addMemCode, rmDigit, read]

private theorem addMemCode_exact {instruction : Instruction} (chosen : memory.Chosen base sib)
    (read : decode (addMemCode size memory base sib imm) = some (instruction, [])) :
    (sib = none → base.number ≠ 4) ∧ ¬memory.Escapes base := by
  rw [← List.append_nil (addMemCode size memory base sib imm), decode_addMemCode, rmDigit, Memory.formBytes,
    List.cons_append, rm_indirect _ _ _ (mode_ne_three memory.disp)] at read
  simp only [Option.bind_eq_bind, Option.bind_eq_some_iff, Option.map_eq_some_iff, Prod.exists] at read
  obtain ⟨operand, behind, ⟨number, other, tail, ⟨_, place, _, addressed, same⟩, digit⟩, source, left, last, done⟩ := read
  cases same
  split at digit <;> cases digit
  cases done
  have exact : behind.length = (littleEndian size.immediate imm.toInt ++ []).length := by
    rw [immediate_length last, List.length_append, littleEndian_length]
  exact Memory.memory_exact chosen addressed exact

end Memory

section Registers

variable {size : Size} {reg : Reg} {target : Register}

theorem addRegShort_decode (named : reg.register = some target) (sized : target.size = size) (wide : size ≠ .byte)
    (imm : Imm) (rest : List u8) :
    decode (encodingBytes (sizePrefixes size) 0x83 ((Fields.mk 3 0 target.number).byte :: littleEndian 1 imm.toInt) ++ rest) =
      some (.binary .add size (.reg target) (immediateOperand 1 imm), rest) := by
  have known : layout 0x83 = some (.rmImm .add true true) := rfl
  have wideSize : operandSize (sizePrefixes size) true = size := by
    cases size <;> first | rfl | exact absurd rfl wide
  have rex : (sizePrefixes size).rexW = (size == .qword) := rfl
  rw [decode_encodingBytes _ (by decide) known]
  simp [operands, rmDigit, rm_register, Layout.digit, Layout.immediateSize, wideSize, rex, decode_sized named sized,
    immediateOperand]

theorem addAccumulator_decode (accumulator : reg = .al ∨ reg = .ax ∨ reg = .eax ∨ reg = .rax)
    (named : reg.register = some target) (sized : target.size = size) (imm : Imm) (rest : List u8) :
    decode (encodingBytes (sizePrefixes size) ((Opcodes.mk 0x04 0x05).select size) (littleEndian size.immediate imm.toInt) ++ rest) =
      some (.binary .add size (.reg target) (immediateOperand size.immediate imm), rest) := by
  obtain ⟨plain, known⟩ := layout_addAccumulator size
  have length : (Layout.accumulator .add (size != .byte)).immediateSize (sizePrefixes size) = size.immediate := by
    cases size <;> rfl
  have first : target.number = 0 := by
    rcases accumulator with rfl | rfl | rfl | rfl <;> cases named <;> rfl
  have rex : (sizePrefixes size).rexW = (size == .qword) := rfl
  have read := decode_sized named sized
  rw [first] at read
  rw [decode_encodingBytes _ plain known]
  simp [operands, length, operandSize_select (sizePrefixes size) size rfl rfl, rex, read, immediateOperand]

theorem addRegImm_decode (named : reg.register = some target) (sized : target.size = size) (imm : Imm)
    (rest : List u8) :
    decode (encodingBytes (sizePrefixes size) ((Opcodes.mk 0x80 0x81).select size)
        ((Fields.mk 3 0 target.number).byte :: littleEndian size.immediate imm.toInt) ++ rest) =
      some (.binary .add size (.reg target) (immediateOperand size.immediate imm), rest) := by
  obtain ⟨plain, known⟩ := layout_addImm size
  have length : (Layout.rmImm .add (size != .byte) false).immediateSize (sizePrefixes size) = size.immediate := by
    cases size <;> rfl
  have rex : (sizePrefixes size).rexW = (size == .qword) := rfl
  rw [decode_encodingBytes _ plain known]
  simp [operands, rmDigit, rm_register, Layout.digit, length, operandSize_select (sizePrefixes size) size rfl rfl, rex,
    decode_sized named sized, immediateOperand]

end Registers

theorem add_register_adds {reg : Reg} {width : Width} {imm : Imm} {code : List u8}
    (accepted : assemble [⟨.add, width, .register reg, .immediate imm⟩] = .ok code) :
    ∃ size, width.size = some size ∧ Adds code size (imm.toInt.bmod (256 ^ addImmediateSize size imm)) [] := by
  rw [assemble_singleton_ok_iff] at accepted
  obtain ⟨valid, found, opcode, body, encodes, rfl⟩ := accepted
  obtain ⟨target, named, known, -⟩ := size_of_registerWidth valid.first
  refine ⟨target.size, known, .reg target, addImmediateSize target.size imm, ?_⟩
  cases encodes with
  | addRegShort sized first short =>
    cases sized.symm.trans known
    cases first.symm.trans named
    rw [addImmediateSize, if_pos short]
    exact addRegShort_decode named rfl short.2 imm
  | addAccumulator sized first long =>
    cases sized.symm.trans known
    rw [addImmediateSize, if_neg long]
    exact addAccumulator_decode first named rfl imm
  | addRegImm sized first other long =>
    cases sized.symm.trans known
    cases first.symm.trans named
    rw [addImmediateSize, if_neg long]
    exact addRegImm_decode named rfl imm
  | stackReg isPush tagged => cases isPush <;> cases tagged

/-- Emitted and announced immediates have one size, and in every program the next
mnemo's bytes start where the processor starts decoding the next instruction. -/
structure Boundary (mnemo : Mnemo) (code : List u8) : Prop where
  sized : ∃ found layout field, ImmediateField mnemo.a1 code found layout field ∧
    field.length = layout.immediateSize found
  aligned : ∀ before after bytes, assemble (before ++ mnemo :: after) = .ok bytes →
    ∃ head tail instruction, assemble before = .ok head ∧ assemble after = .ok tail ∧
      bytes = head ++ (code ++ tail) ∧ decode (code ++ tail) = some (instruction, tail)

private theorem boundary_of_reads {mnemo : Mnemo} {code : List u8} (accepted : assemble [mnemo] = .ok code)
    (sized : ∃ found layout field, ImmediateField mnemo.a1 code found layout field ∧
      field.length = layout.immediateSize found) (reads : OneInstruction code) : Boundary mnemo code := by
  refine ⟨sized, fun before after bytes assembled => ?_⟩
  obtain ⟨instruction, decoded⟩ := reads
  obtain ⟨head, rest, first, second, rfl⟩ := (assemble_append_ok_iff _ _ _).mp assembled
  obtain ⟨own, tail, same, last, rfl⟩ := (assemble_cons_ok_iff _ _ _).mp second
  rw [← assemble_singleton, accepted] at same
  cases same
  exact ⟨head, tail, instruction, first, last, rfl, decoded tail⟩

/-- The base numbers that are read as something else: the frame pointer's without a displacement,
and the stack pointer's without a SIB byte. What follows ModRM then has another meaning. -/
def Memory.Misread (memory : Memory) : Prop :=
  (memory.disp = 0 ∧ (memory.base = .ebp ∨ memory.base = .rbp ∨ memory.base = .bp ∨ memory.base = .ch)) ∨
    (memory.scale = .s0 ∧ (memory.base = .sp ∨ memory.base = .ah))

private theorem Reg.number_five {reg : Reg} {register : Register} (named : reg.register = some register) :
    register.number = 5 ↔ reg = .ebp ∨ reg = .rbp ∨ reg = .bp ∨ reg = .ch := by
  cases reg <;> cases named <;> decide

private theorem Reg.number_four {reg : Reg} {register : Register} (named : reg.register = some register) :
    register.number = 4 ↔ reg = .esp ∨ reg = .rsp ∨ reg = .sp ∨ reg = .ah := by
  cases reg <;> cases named <;> decide

theorem Memory.misread_iff {memory : Memory} {base : Register} {sib : Option Fields}
    (place : memory.Encodable base sib) :
    ¬memory.Misread ↔ (sib = none → base.number ≠ 4) ∧ ¬memory.Escapes base := by
  obtain ⟨based, -, chosen⟩ := place
  rw [Memory.Misread, not_or, Memory.Escapes, Reg.number_five based, and_comm, and_congr_left_iff]
  rintro -
  rw [ne_eq, Reg.number_four based]
  cases chosen with
  | short isShort =>
    obtain ⟨unscaled, notEsp, notRsp, -⟩ := isShort
    simp [unscaled, notEsp, notRsp]
  | long isLong _ _ _ =>
    have short : memory.scale = .s0 → memory.base = .sp ∨ memory.base = .ah → memory.IsShort := by
      rintro unscaled (based | based) <;> simp [Memory.IsShort, unscaled, based]
    simp only [reduceCtorEq, false_implies, iff_true]
    exact fun both => isLong (short both.1 both.2)

private theorem add_memory_entry {memory : Memory} {width : Width} {imm : Imm} {code : List u8}
    (accepted : assemble [⟨.add, width, .memory memory, .immediate imm⟩] = .ok code) :
    ∃ size base sib, width.size = some size ∧ memory.Encodable base sib ∧
      (¬Short size imm → code = addMemCode size memory base sib imm) := by
  rw [assemble_singleton_ok_iff] at accepted
  obtain ⟨-, found, opcode, body, encodes, rfl⟩ := accepted
  cases encodes with
  | @addMemImm _ size _ base sib _ sized place fits =>
    refine ⟨size, base, sib, sized, place, fun long => ?_⟩
    rw [if_neg long, addMemCode]
  | stackMem isPush tagged => cases isPush <;> cases tagged

private theorem add_emitted_iff {target : Arg} (writable : target.Writable) (size : Size) (imm : Imm) :
    (ImmediateUse.add target).emitted size imm = (ImmediateUse.add target).announced size imm ↔
      ∀ memory, target = .memory memory → ¬Short size imm := by
  cases target with
  | memory place =>
    simp only [ImmediateUse.emitted, ImmediateUse.announced, Arg.memory.injEq, forall_eq']
    by_cases short : Short size imm
    · have wide := short.2
      cases size <;> simp [short, Size.immediate, Size.bytes] at wide ⊢
    · simp [short]
  | register reg => simp [ImmediateUse.emitted, ImmediateUse.announced]
  | undef | immediate => exact writable.elim

/-- `add` with an immediate keeps the instruction boundaries for every register, and
in memory unless it selects the 8-bit form or its operand is misread. -/
theorem add_boundary_iff (target : Arg) (width : Width) (imm : Imm) (code : List u8)
    (accepted : assemble [⟨.add, width, target, .immediate imm⟩] = .ok code) :
    Boundary ⟨.add, width, target, .immediate imm⟩ code ↔
      ∀ memory, target = .memory memory →
        (width = .byte ∨ canBeEncodedIn8Bits imm = false) ∧ ¬memory.Misread := by
  obtain ⟨size, found, layout, sized, emitted, announced⟩ := immediate_field (.add target) accepted
  have writable : target.Writable := ((immediate_accepted_iff (.add target) width imm).mp ⟨code, accepted⟩).2.1
  have long_iff : (width = .byte ∨ canBeEncodedIn8Bits imm = false) ↔ ¬Short size imm := by
    rw [← short_iff sized imm]
    cases canBeEncodedIn8Bits imm <;> simp
  constructor
  · intro accepted memory rfl
    obtain ⟨⟨_, _, _, other, same⟩, aligned⟩ := accepted
    obtain ⟨rfl, rfl, rfl⟩ := emitted.unique other
    rw [littleEndian_length, announced] at same
    have long := (add_emitted_iff writable size imm).mp same memory rfl
    refine ⟨long_iff.mpr long, ?_⟩
    obtain ⟨otherSize, base, sib, otherSized, place, form⟩ := add_memory_entry accepted
    cases sized.symm.trans otherSized
    obtain ⟨_, _, instruction, _, last, _, decoded⟩ := aligned [] [] code accepted
    cases last
    rw [form long, List.append_nil] at decoded
    exact (Memory.misread_iff place).mpr (addMemCode_exact place.chosen decoded)
  · intro readable
    refine boundary_of_reads accepted ⟨found, layout, _, emitted, ?_⟩ ?_
    · rw [littleEndian_length, announced, add_emitted_iff writable]
      exact fun memory same => long_iff.mp (readable memory same).1
    cases target with
    | register reg =>
      obtain ⟨_, -, adds⟩ := add_register_adds accepted
      exact adds.oneInstruction
    | memory memory =>
      obtain ⟨long, reads⟩ := readable memory rfl
      obtain ⟨otherSize, base, sib, otherSized, place, form⟩ := add_memory_entry accepted
      cases sized.symm.trans otherSized
      rw [form (long_iff.mp long)]
      obtain ⟨announcedSib, kept⟩ := (Memory.misread_iff place).mp reads
      exact (addMemCode_adds place.chosen announcedSib kept).oneInstruction
    | undef | immediate => exact writable.elim

theorem add_boundary_byte : Boundary ⟨.add, .byte, .memory ⟨.rsi, .undef, .s0, 0, fun _ => rfl⟩, .immediate 100⟩
    [0x80, 0x06, 0x64] ↔
      ∀ memory, Arg.memory ⟨.rsi, .undef, .s0, 0, fun _ => rfl⟩ = .memory memory →
        (Width.byte = .byte ∨ canBeEncodedIn8Bits 100 = false) ∧ ¬memory.Misread :=
  add_boundary_iff _ _ _ _ (by decide)

/-- `add DWORD [rsi], 100` announces one byte of immediate and emits four. -/
theorem add_memory_boundary_lost :
    assemble [⟨.add, .dword, .memory ⟨.rsi, .undef, .s0, 0, fun _ => rfl⟩, .immediate 100⟩] =
        .ok [0x83, 0x06, 0x64, 0x00, 0x00, 0x00] ∧
      ¬Boundary ⟨.add, .dword, .memory ⟨.rsi, .undef, .s0, 0, fun _ => rfl⟩, .immediate 100⟩
        [0x83, 0x06, 0x64, 0x00, 0x00, 0x00] := by
  refine ⟨by decide, fun boundary => ?_⟩
  obtain ⟨head, tail, instruction, -, last, -, decoded⟩ := boundary.aligned [] [] _ rfl
  cases last
  cases decoded

end Cplastane.Assembly
