import Cplastane.Proofs.Reading

/-! One instruction with a memory operand of 32-bit registers and of 64-bit registers.
The rest of the instruction is a frame around the operand's bytes, so the two runs differ
exactly where the encoder's special cases name only one of two registers. -/

namespace Cplastane.Assembly
open X86

/-- The instructions with a memory operand, and their other operand. As the second operand of a
stack operation it is `ignored`: no byte depends on it. -/
inductive MemoryUse where
  | target (operation : Operation) (partner : Arg)
  | source (operation : Operation) (partner : Arg)
  | stack (isPush : Bool) (partner : Arg)
  | ignored (isPush : Bool) (partner : Arg)

def MemoryUse.mnemo : MemoryUse → Width → Memory → Mnemo
  | target operation partner, width, memory => ⟨tagOf operation, width, .memory memory, partner⟩
  | source operation partner, width, memory => ⟨tagOf operation, width, partner, .memory memory⟩
  | stack isPush partner, width, memory => ⟨stackTag isPush, width, .memory memory, partner⟩
  | ignored isPush partner, width, memory => ⟨stackTag isPush, width, partner, .memory memory⟩

def MemoryUse.Encoded : MemoryUse → Prop
  | ignored _ _ => False
  | _ => True

/-- What surrounds the bytes of the memory operand, apart from the address-size override. It does
not depend on that operand, which is why both runs have the same. -/
structure Frame where
  prefixes : Prefixes
  opcode : u8
  reg : Fin 8
  trailer : List u8

def Frame.code (frame : Frame) (memory : Memory) (base : Register) (sib : Option Fields) : List u8 :=
  encodingBytes { frame.prefixes with address := base.size == .dword } frame.opcode
    (memory.formBytes base sib frame.reg ++ frame.trailer)

/-- The conditions on width and other operand under which there is a frame, and the frame. An
ignored operand has none, since nothing is put around it. -/
inductive MemoryUse.Framed : MemoryUse → Width → Frame → Prop where
  | memReg (operation : Operation) {width size reg register} (sized : width.size = some size)
      (named : reg.register = some register) (same : registerWidth reg = .ok width) :
      Framed (.target operation (.register reg)) width
        ⟨sizePrefixes size, (rmRegOpcodes operation).select size, register.number, []⟩
  | regMem (operation : Operation) {width size reg register} (sized : width.size = some size)
      (named : reg.register = some register) (same : registerWidth reg = .ok width) :
      Framed (.source operation (.register reg)) width
        ⟨sizePrefixes size, (regRmOpcodes operation).select size, register.number, []⟩
  | movMemImm {width size imm} (sized : width.size = some size) (fits : FitsImm32 size imm) :
      Framed (.target .mov (.immediate imm)) width
        ⟨sizePrefixes size, (Opcodes.mk 0xc6 0xc7).select size, 0, littleEndian size.immediate imm.toInt⟩
  | addMemImm {width size imm} (sized : width.size = some size) (fits : FitsImm32 size imm) :
      Framed (.target .add (.immediate imm)) width
        ⟨sizePrefixes size, if Short size imm then 0x83 else (Opcodes.mk 0x80 0x81).select size, 0,
          littleEndian size.immediate imm.toInt⟩
  | stackMem (isPush : Bool) {width partner} (wide : width = .notSet ∨ width = .word ∨ width = .qword)
      (same : partner.HasWidth width) :
      Framed (.stack isPush partner) width
        ⟨stackPrefixes width, if isPush then 0xff else 0x8f, if isPush then 6 else 0, []⟩

theorem MemoryUse.Framed.unique {use : MemoryUse} {width : Width} {first second : Frame}
    (left : use.Framed width first) (right : use.Framed width second) : first = second := by
  cases left with
  | memReg operation sized named =>
    cases right with
    | memReg _ otherSized otherNamed =>
      cases sized.symm.trans otherSized
      cases named.symm.trans otherNamed
      rfl
  | regMem operation sized named =>
    cases right with
    | regMem _ otherSized otherNamed =>
      cases sized.symm.trans otherSized
      cases named.symm.trans otherNamed
      rfl
  | movMemImm sized =>
    cases right with
    | movMemImm otherSized =>
      cases sized.symm.trans otherSized
      rfl
  | addMemImm sized =>
    cases right with
    | addMemImm otherSized =>
      cases sized.symm.trans otherSized
      rfl
  | stackMem isPush =>
    cases right
    rfl

private theorem stackWidth_iff (width : Width) :
    (width = .notSet ∨ width = .word ∨ width = .qword) ↔ width ≠ .undef ∧ ¬(width = .byte ∨ width = .dword) := by
  cases width <;> simp

private theorem framed_of_encodes {use : MemoryUse} {width : Width} {memory : Memory} {found : Prefixes} {opcode : u8}
    {body : List u8} (encoded : use.Encoded) (valid : (use.mnemo width memory).Valid)
    (encodes : Encodes (use.mnemo width memory) found opcode body) :
    ∃ frame base sib, use.Framed width frame ∧ memory.Encodable base sib ∧
      frame.code memory base sib = encodingBytes found opcode body := by
  cases use with
  | ignored => exact encoded.elim
  | target operation partner =>
    have second := valid.second
    change Encodes ⟨tagOf operation, width, .memory memory, partner⟩ _ _ _ at encodes
    generalize kind : tagOf operation = tag at encodes
    cases encodes with
    | memReg other tagged sized place named =>
      cases tagOf_injective (kind.trans tagged)
      exact ⟨_, _, _, .memReg operation sized named second, place, by simp [Frame.code, memoryPrefixes]⟩
    | movMemImm sized place fits =>
      cases operation <;> cases kind
      exact ⟨_, _, _, .movMemImm sized fits, place, rfl⟩
    | addMemImm sized place fits =>
      cases operation <;> cases kind
      exact ⟨_, _, _, .addMemImm sized fits, place, rfl⟩
    | stackMem isPush tagged => exact absurd (kind.trans tagged) (tagOf_ne_stack operation isPush)
    | ret => cases operation <;> cases kind
  | source operation partner =>
    have first := valid.first
    change Encodes ⟨tagOf operation, width, partner, .memory memory⟩ _ _ _ at encodes
    generalize kind : tagOf operation = tag at encodes
    cases encodes with
    | regMem other tagged sized named place =>
      cases tagOf_injective (kind.trans tagged)
      exact ⟨_, _, _, .regMem operation sized named first, place, by simp [Frame.code, memoryPrefixes]⟩
    | stackReg isPush tagged | stackMem isPush tagged =>
      exact absurd (kind.trans tagged) (tagOf_ne_stack operation isPush)
    | pushImm | ret => cases operation <;> cases kind
  | stack isPush partner =>
    have sized := valid.sized
    have second := valid.second
    change Encodes ⟨stackTag isPush, width, .memory memory, partner⟩ _ _ _ at encodes
    generalize kind : stackTag isPush = tag at encodes
    cases encodes with
    | memReg other tagged => exact absurd (kind.trans tagged).symm (tagOf_ne_stack other isPush)
    | movMemImm | addMemImm | ret => cases isPush <;> cases kind
    | stackMem other tagged wide place =>
      cases stackTag_injective (kind.trans tagged)
      exact ⟨_, _, _, .stackMem isPush ((stackWidth_iff width).mpr ⟨sized, wide⟩) second, place, by simp [Frame.code]⟩

private theorem encodes_of_framed {use : MemoryUse} {width : Width} {memory : Memory} {frame : Frame} {base : Register}
    {sib : Option Fields} (framed : use.Framed width frame) (place : memory.Encodable base sib) :
    (use.mnemo width memory).Valid ∧ ∃ found opcode body, Encodes (use.mnemo width memory) found opcode body ∧
      encodingBytes found opcode body = frame.code memory base sib := by
  cases framed with
  | memReg operation sized named same =>
    refine ⟨⟨?_, Width.ne_undef sized, trivial, same⟩, _, _, _, .memReg operation rfl sized place named, ?_⟩
    · cases operation <;> simp [MemoryUse.mnemo, tagOf]
    · simp [Frame.code, memoryPrefixes]
  | regMem operation sized named same =>
    refine ⟨⟨?_, Width.ne_undef sized, same, trivial⟩, _, _, _, .regMem operation rfl sized named place, ?_⟩
    · cases operation <;> simp [MemoryUse.mnemo, tagOf]
    · simp [Frame.code, memoryPrefixes]
  | movMemImm sized fits =>
    exact ⟨⟨by simp [MemoryUse.mnemo, tagOf], Width.ne_undef sized, trivial, trivial⟩, _, _, _,
      .movMemImm sized place fits, rfl⟩
  | addMemImm sized fits =>
    exact ⟨⟨by simp [MemoryUse.mnemo, tagOf], Width.ne_undef sized, trivial, trivial⟩, _, _, _,
      .addMemImm sized place fits, rfl⟩
  | stackMem isPush wide same =>
    obtain ⟨sized, wide⟩ := (stackWidth_iff width).mp wide
    refine ⟨⟨?_, sized, trivial, same⟩, _, _, _, .stackMem isPush rfl wide place, by simp [Frame.code]⟩
    cases isPush <;> simp [MemoryUse.mnemo, stackTag]

/-- An instruction is accepted when its frame and its memory operand are, independently. -/
theorem memoryUse_ok_iff {use : MemoryUse} (encoded : use.Encoded) (width : Width) (memory : Memory) (code : List u8) :
    assemble [use.mnemo width memory] = .ok code ↔
      ∃ frame base sib, use.Framed width frame ∧ memory.Encodable base sib ∧ frame.code memory base sib = code := by
  rw [assemble_singleton_ok_iff]
  constructor
  · intro accepted
    obtain ⟨valid, found, opcode, body, encodes, rfl⟩ := accepted
    exact framed_of_encodes encoded valid encodes
  · intro accepted
    obtain ⟨frame, base, sib, framed, place, rfl⟩ := accepted
    exact encodes_of_framed framed place

def Reg.widened : Reg → Reg
  | .eax => .rax
  | .ebx => .rbx
  | .ecx => .rcx
  | .edx => .rdx
  | .esp => .rsp
  | .ebp => .rbp
  | .esi => .rsi
  | .edi => .rdi
  | reg => reg

namespace Memory

def widened (memory : Memory) : Memory where
  base := memory.base.widened
  index := memory.index.widened
  scale := memory.scale
  disp := memory.disp
  unscaled zero := congrArg Reg.widened (memory.unscaled zero)

structure Narrow (memory : Memory) : Prop where
  base : registerWidth memory.base = .ok .dword
  index : memory.index = .undef ∨ registerWidth memory.index = .ok .dword

def Scaled (memory : Memory) : Prop := memory.scale = .s0 ∨ (memory.scale ≠ .undef ∧ memory.index ≠ .undef)

/-- The operands whose special case is written for one of two registers: an esp index is refused and
an rsp index is not, and an rbp base without displacement gets a SIB byte where an ebp base does
not, or is refused. -/
def Corner (memory : Memory) : Prop := memory.index = .esp ∨ memory.base = .ebp ∧ memory.disp = 0

end Memory

private theorem Reg.widened_register {reg : Reg} (narrow : registerWidth reg = .ok .dword) :
    ∃ number, reg.register = some (.gp .dword number) ∧ reg.widened.register = some (.gp .qword number) := by
  cases reg <;> cases narrow <;> exact ⟨_, rfl, rfl⟩

private theorem Reg.widened_stack {reg : Reg} (narrow : registerWidth reg = .ok .dword) :
    reg ≠ .rsp ∧ reg.widened ≠ .esp ∧ (reg.widened = .rsp ↔ reg = .esp) := by
  cases reg <;> cases narrow <;> simp [Reg.widened]

private theorem Reg.widened_frame {reg : Reg} (narrow : registerWidth reg = .ok .dword) :
    reg ≠ .rbp ∧ reg.widened ≠ .ebp ∧ (reg.widened = .rbp ↔ reg = .ebp) := by
  cases reg <;> cases narrow <;> simp [Reg.widened]

section Widening

variable {memory : Memory} {number : Fin 8} {sib : Option Fields}

private theorem Memory.Narrow.isShort_widened (narrow : memory.Narrow) :
    memory.widened.IsShort ↔ memory.IsShort ∧ ¬(memory.disp = 0 ∧ memory.base = .ebp) := by
  have stack := Reg.widened_stack narrow.base
  have frame := Reg.widened_frame narrow.base
  simp [Memory.IsShort, Memory.widened, stack, frame, and_assoc]

private theorem Memory.Narrow.index_widened (narrow : memory.Narrow) :
    memory.widened.index ≠ .esp ∧ memory.widened.index.register.map Register.number =
      memory.index.register.map Register.number := by
  rcases narrow.index with unindexed | indexed
  · simp [Memory.widened, unindexed, Reg.widened]
  · obtain ⟨number, short, long⟩ := Reg.widened_register indexed
    exact ⟨(Reg.widened_stack indexed).2.1, by simp [Memory.widened, short, long, Register.number]⟩

private theorem Memory.Narrow.sib_widened (narrow : memory.Narrow) :
    memory.widened.sib (.gp .qword number) = memory.sib (.gp .dword number) := by
  have same := narrow.index_widened.2
  unfold Memory.sib
  by_cases unscaled : memory.scale = .s0
  · simp [Memory.widened, unscaled, Register.number]
  · have scale : memory.widened.scale = memory.scale := rfl
    simp only [scale, unscaled, if_false]
    cases memory.scale.bits with
    | none => rfl
    | some bits =>
      cases short : memory.index.register <;> cases long : memory.widened.index.register <;> simp_all [Register.number]

private theorem Memory.Narrow.chosen_widened (narrow : memory.Narrow) (regular : ¬memory.Corner) :
    memory.widened.Chosen (.gp .qword number) sib ↔ memory.Chosen (.gp .dword number) sib := by
  have based : ¬(memory.disp = 0 ∧ memory.base = .ebp) := fun both => regular (.inr both.symm)
  have index : memory.index ≠ .esp := fun esp => regular (.inl esp)
  have widenedBased : ¬(memory.widened.disp = 0 ∧ memory.widened.base = .ebp) :=
    fun both => (Reg.widened_frame narrow.base).2.1 both.2
  by_cases isShort : memory.IsShort
  · rw [chosen_of_short isShort, chosen_of_short (narrow.isShort_widened.mpr ⟨isShort, based⟩)]
  · have isLong : ¬memory.widened.IsShort := fun widened => isShort (narrow.isShort_widened.mp widened).1
    rw [chosen_of_long isShort, chosen_of_long isLong, narrow.sib_widened]
    simp only [based, index, widenedBased, narrow.index_widened.1, not_false_iff, ne_eq]

private theorem Memory.sib_some_iff (base : Register) : (∃ fields, memory.sib base = some fields) ↔ memory.Scaled := by
  unfold Memory.sib Memory.Scaled
  by_cases unscaled : memory.scale = .s0
  · simp [unscaled]
  · cases scale : memory.scale <;> cases index : memory.index <;>
      simp_all [Scale.bits, Reg.register]

private theorem Memory.Narrow.widened_iff (narrow : memory.Narrow) :
    (∃ sib, memory.widened.Chosen (.gp .qword number) sib) ↔ memory.Scaled := by
  have widenedBased : ¬(memory.widened.disp = 0 ∧ memory.widened.base = .ebp) :=
    fun both => (Reg.widened_frame narrow.base).2.1 both.2
  by_cases isShort : memory.widened.IsShort
  · have scaled : memory.Scaled := .inl isShort.1
    simp [chosen_of_short isShort, scaled]
  · simp only [chosen_of_long isShort, widenedBased, narrow.index_widened.1, narrow.sib_widened, not_false_iff, ne_eq,
      true_and, ← Memory.sib_some_iff (.gp .dword number)]
    constructor
    · intro chosen
      obtain ⟨sib, fields, selected, -⟩ := chosen
      exact ⟨fields, selected⟩
    · intro chosen
      obtain ⟨fields, selected⟩ := chosen
      exact ⟨_, fields, selected, rfl⟩

private theorem Memory.Narrow.corner_chosen (narrow : memory.Narrow) (corner : memory.Corner) {wide : Option Fields}
    (chosen : memory.Chosen (.gp .dword number) sib) (widened : memory.widened.Chosen (.gp .qword number) wide) :
    sib = none ∧ wide ≠ none := by
  cases chosen with
  | short isShort =>
    refine ⟨rfl, ?_⟩
    rintro rfl
    obtain ⟨widenedShort⟩ := widened
    rcases corner with esp | ⟨ebp, zero⟩
    · have unindexed := memory.unscaled isShort.1
      rw [esp] at unindexed
      cases unindexed
    · exact (narrow.isShort_widened.mp widenedShort).2 ⟨zero, ebp⟩
  | long isLong based index chosen =>
    rcases corner with esp | ⟨ebp, zero⟩
    · exact absurd esp index
    · exact absurd ⟨zero, ebp⟩ based

theorem Memory.Chosen.scaled {base : Register} (chosen : memory.Chosen base sib) : memory.Scaled := by
  cases chosen with
  | short isShort => exact .inl isShort.1
  | long _ _ _ selected => exact (memory.sib_some_iff base).mp ⟨_, selected⟩

private theorem memoryUse_based {use : MemoryUse} (encoded : use.Encoded) (width : Width) {base : Register}
    (based : memory.base.register = some base) (same : memory.SameWidth base) (code : List u8) :
    assemble [use.mnemo width memory] = .ok code ↔
      ∃ frame sib, use.Framed width frame ∧ memory.Chosen base sib ∧ frame.code memory base sib = code := by
  rw [memoryUse_ok_iff encoded]
  constructor
  · intro accepted
    obtain ⟨frame, other, sib, framed, place, rfl⟩ := accepted
    cases based.symm.trans place.based
    exact ⟨frame, sib, framed, place.chosen, rfl⟩
  · intro accepted
    obtain ⟨frame, sib, framed, chosen, rfl⟩ := accepted
    exact ⟨frame, base, sib, framed, ⟨based, same, chosen⟩, rfl⟩

theorem Memory.Narrow.sameWidth (narrow : memory.Narrow) : memory.SameWidth (.gp .dword number) ∧
    memory.widened.SameWidth (.gp .qword number) := by
  rcases narrow.index with unindexed | indexed
  · exact ⟨.inl unindexed, .inl (congrArg Reg.widened unindexed)⟩
  · obtain ⟨_, short, long⟩ := Reg.widened_register indexed
    exact ⟨.inr ⟨_, short, rfl⟩, .inr ⟨_, long, rfl⟩⟩

private theorem Frame.code_widened (frame : Frame) :
    frame.code memory (.gp .dword number) sib = 0x67 :: frame.code memory.widened (.gp .qword number) sib := by
  simp [Frame.code, encodingBytes, Prefixes.bytes, Register.size]
  rfl

private theorem Frame.code_length (frame : Frame) (base : Register) (sib : Option Fields) :
    (frame.code memory base sib).length = (frame.code memory base none).length + sib.toList.length := by
  cases sib <;> simp [Frame.code, encodingBytes, Memory.formBytes]
  omega

end Widening

/-- The two instructions are accepted alike, and their bytes differ by the override alone, which is
the first byte of the 32-bit form. -/
def Uniform (use : MemoryUse) (width : Width) (memory : Memory) : Prop :=
  ((∃ code, assemble [use.mnemo width memory] = .ok code) ↔
    ∃ code, assemble [use.mnemo width memory.widened] = .ok code) ∧
  ∀ short long, assemble [use.mnemo width memory] = .ok short → assemble [use.mnemo width memory.widened] = .ok long →
    short = 0x67 :: long

section Runs

variable {use : MemoryUse} {width : Width} {memory : Memory}

theorem Memory.Narrow.runs (narrow : memory.Narrow) (encoded : use.Encoded) (width : Width) : ∃ number,
    (∀ code, assemble [use.mnemo width memory] = .ok code ↔ ∃ frame sib, use.Framed width frame ∧
      memory.Chosen (.gp .dword number) sib ∧ frame.code memory (.gp .dword number) sib = code) ∧
    ∀ code, assemble [use.mnemo width memory.widened] = .ok code ↔ ∃ frame sib, use.Framed width frame ∧
      memory.widened.Chosen (.gp .qword number) sib ∧ frame.code memory.widened (.gp .qword number) sib = code := by
  obtain ⟨number, based, widenedBased⟩ := Reg.widened_register narrow.base
  have same := @Memory.Narrow.sameWidth memory number narrow
  exact ⟨number, memoryUse_based encoded width based same.1, memoryUse_based encoded width widenedBased same.2⟩

private theorem Memory.Narrow.accepted_scaled (narrow : memory.Narrow) (encoded : use.Encoded) {code : List u8}
    (accepted : assemble [use.mnemo width memory] = .ok code ∨ assemble [use.mnemo width memory.widened] = .ok code) :
    (∃ frame, use.Framed width frame) ∧ memory.Scaled := by
  obtain ⟨number, shortRun, longRun⟩ := narrow.runs encoded width
  rcases accepted with short | long
  · obtain ⟨frame, _, framed, chosen, -⟩ := (shortRun _).mp short
    exact ⟨⟨frame, framed⟩, chosen.scaled⟩
  · obtain ⟨frame, _, framed, chosen, -⟩ := (longRun _).mp long
    exact ⟨⟨frame, framed⟩, narrow.widened_iff.mp ⟨_, chosen⟩⟩

private theorem Memory.Narrow.uniform_of_regular (narrow : memory.Narrow) (encoded : use.Encoded)
    (regular : ¬memory.Corner) :
    Uniform use width memory := by
  obtain ⟨number, shortRun, longRun⟩ := narrow.runs encoded width
  have alike (short : List u8) : assemble [use.mnemo width memory] = .ok short ↔
      ∃ long, assemble [use.mnemo width memory.widened] = .ok long ∧ short = 0x67 :: long := by
    simp only [shortRun, longRun, narrow.chosen_widened regular]
    constructor
    · intro accepted
      obtain ⟨frame, sib, framed, chosen, rfl⟩ := accepted
      exact ⟨_, ⟨frame, sib, framed, chosen, rfl⟩, frame.code_widened⟩
    · intro accepted
      obtain ⟨_, ⟨frame, sib, framed, chosen, rfl⟩, rfl⟩ := accepted
      exact ⟨frame, sib, framed, chosen, frame.code_widened⟩
  constructor
  · simp only [alike]
    exact ⟨fun ⟨_, long, accepted, _⟩ => ⟨long, accepted⟩, fun ⟨long, accepted⟩ => ⟨_, long, accepted, rfl⟩⟩
  · intro short long first second
    obtain ⟨other, accepted, rfl⟩ := (alike short).mp first
    cases accepted.symm.trans second
    rfl

theorem MemoryUse.Framed.encoded {frame : Frame} (framed : use.Framed width frame) : use.Encoded := by
  cases framed <;> trivial

/-- In a corner case the 64-bit form is accepted, and the 32-bit one is refused or a byte too short. -/
private theorem Memory.Narrow.corner_not_uniform (narrow : memory.Narrow) (corner : memory.Corner) {frame : Frame}
    (framed : use.Framed width frame) (scaled : memory.Scaled) : ¬Uniform use width memory := by
  intro uniform
  obtain ⟨number, shortRun, longRun⟩ := narrow.runs framed.encoded width
  obtain ⟨wide, widened⟩ := narrow.widened_iff.mpr scaled
  have long := (longRun _).mpr ⟨frame, wide, framed, widened, rfl⟩
  obtain ⟨code, short⟩ := uniform.1.mpr ⟨_, long⟩
  have same := uniform.2 _ _ short long
  obtain ⟨other, sib, otherFramed, chosen, rfl⟩ := (shortRun _).mp short
  cases framed.unique otherFramed
  obtain ⟨rfl, some⟩ := narrow.corner_chosen corner chosen widened
  rw [Frame.code_widened, List.cons.injEq] at same
  have length := congrArg List.length same.2
  rw [Frame.code_length frame _ wide] at length
  cases wide with
  | none => exact some rfl
  | some _ => simp at length

private theorem encoded_uniform_iff (encoded : use.Encoded) (narrow : memory.Narrow) :
    Uniform use width memory ↔ ¬((∃ frame, use.Framed width frame) ∧ memory.Scaled ∧ memory.Corner) := by
  constructor
  · intro uniform special
    obtain ⟨⟨frame, framed⟩, scaled, corner⟩ := special
    exact narrow.corner_not_uniform corner framed scaled uniform
  · intro regular
    by_cases corner : memory.Corner
    · have refused (code : List u8) : ¬(assemble [use.mnemo width memory] = .ok code ∨
          assemble [use.mnemo width memory.widened] = .ok code) := by
        intro accepted
        obtain ⟨framed, scaled⟩ := narrow.accepted_scaled encoded accepted
        exact regular ⟨framed, scaled, corner⟩
      constructor
      · constructor
        · rintro ⟨code, short⟩
          exact absurd (.inl short) (refused code)
        · rintro ⟨code, long⟩
          exact absurd (.inr long) (refused code)
      · intro short _ accepted
        exact absurd (.inl accepted) (refused short)
    · exact narrow.uniform_of_regular encoded corner

/-- Both runs give the same bytes, so neither has the override more than the other. -/
private theorem ignored_uniform_iff (isPush : Bool) (partner : Arg) :
    Uniform (.ignored isPush partner) width memory ↔ ¬partner.Stackable isPush width := by
  have same : assemble [(MemoryUse.ignored isPush partner).mnemo width memory.widened] =
      assemble [(MemoryUse.ignored isPush partner).mnemo width memory] := by
    cases isPush <;> rfl
  have accepted_iff : (∃ code, assemble [(MemoryUse.ignored isPush partner).mnemo width memory] = .ok code) ↔
      partner.Stackable isPush width := by
    simp [MemoryUse.mnemo, stack_accepted_iff, Arg.HasWidth]
  rw [← accepted_iff, Uniform, same]
  constructor
  · intro uniform accepted
    obtain ⟨code, accepted⟩ := accepted
    have longer := uniform.2 code code accepted accepted
    exact absurd (congrArg List.length longer) (by simp)
  · intro refused
    exact ⟨Iff.rfl, fun short _ accepted _ => absurd ⟨short, accepted⟩ refused⟩

end Runs

/-- The second operand of a stack operation whose first one is accepted. Both runs then give the
bytes of the first operand, without an override for this one. -/
def MemoryUse.Surplus (use : MemoryUse) (width : Width) : Prop :=
  match use with
  | .ignored isPush partner => partner.Stackable isPush width
  | _ => False

private theorem MemoryUse.Encoded.not_surplus {use : MemoryUse} {width : Width} (encoded : use.Encoded) :
    ¬use.Surplus width := by
  cases use with
  | target | source | stack => exact id
  | ignored => exact encoded.elim

/-- Addressing is uniform but for instructions that are complete and have a corner case, and
for accepted ones that ignore their memory operand. -/
theorem uniform_addressing_iff (use : MemoryUse) (width : Width) (memory : Memory) (narrow : memory.Narrow) :
    Uniform use width memory ↔
      ¬((∃ frame, use.Framed width frame) ∧ memory.Scaled ∧ memory.Corner) ∧ ¬use.Surplus width := by
  by_cases encoded : use.Encoded
  · rw [and_iff_left encoded.not_surplus, encoded_uniform_iff encoded narrow]
  cases use with
  | target | source | stack => exact absurd trivial encoded
  | ignored isPush partner =>
    have unframed : ¬∃ frame, (MemoryUse.ignored isPush partner).Framed width frame := by
      rintro ⟨frame, framed⟩
      cases framed
    rw [ignored_uniform_iff]
    simp [MemoryUse.Surplus, unframed]

theorem uniform_addressing_ecx :
    Uniform (.source .mov (.register .eax)) .dword ⟨.ecx, .edx, .s2, 0, nofun⟩ ↔
      ¬((∃ frame, (MemoryUse.source .mov (.register .eax)).Framed .dword frame) ∧
        Memory.Scaled ⟨.ecx, .edx, .s2, 0, nofun⟩ ∧ Memory.Corner ⟨.ecx, .edx, .s2, 0, nofun⟩) ∧
      ¬(MemoryUse.source .mov (.register .eax)).Surplus .dword :=
  uniform_addressing_iff _ _ _ ⟨rfl, .inr rfl⟩

/-- `mov DWORD eax, [ebp]` is encoded without a SIB byte and `mov DWORD eax, [rbp]` with one;
`push QWORD rax, [ecx]` and `push QWORD rax, [rcx]` are encoded alike. -/
theorem ebp_not_uniform :
    (assemble [(MemoryUse.source .mov (.register .eax)).mnemo .dword ⟨.ebp, .undef, .s0, 0, fun _ => rfl⟩] =
        .ok [0x67, 0x8b, 0x05] ∧
      assemble [(MemoryUse.source .mov (.register .eax)).mnemo .dword ⟨.rbp, .undef, .s0, 0, fun _ => rfl⟩] =
        .ok [0x8b, 0x04, 0x25] ∧
      ¬Uniform (.source .mov (.register .eax)) .dword ⟨.ebp, .undef, .s0, 0, fun _ => rfl⟩) ∧
    assemble [(MemoryUse.ignored true (.register .rax)).mnemo .qword ⟨.ecx, .undef, .s0, 0, fun _ => rfl⟩] = .ok [0x50] ∧
      assemble [(MemoryUse.ignored true (.register .rax)).mnemo .qword ⟨.rcx, .undef, .s0, 0, fun _ => rfl⟩] = .ok [0x50] ∧
      ¬Uniform (.ignored true (.register .rax)) .qword ⟨.ecx, .undef, .s0, 0, fun _ => rfl⟩ := by
  refine ⟨⟨rfl, rfl, fun uniform => ?_⟩, rfl, rfl, fun uniform => ?_⟩
  · have same := uniform.2 [0x67, 0x8b, 0x05] [0x8b, 0x04, 0x25] rfl rfl
    cases same
  · have same := uniform.2 [0x50] [0x50] rfl rfl
    cases same

end Cplastane.Assembly
