import Cplastane.Proofs.Decoding

/-! The immediate fields of accepted mnemos: how many bytes are emitted for them,
how many the opcode announces, and which immediates are accepted at all. -/

namespace Cplastane.Assembly
open X86

inductive ImmediateUse where
  | mov (target : Arg)
  | add (target : Arg)
  | push (a2 : Arg)

def ImmediateUse.mnemo : ImmediateUse → Width → Imm → Mnemo
  | mov target, width, imm => ⟨.mov, width, target, .immediate imm⟩
  | add target, width, imm => ⟨.add, width, target, .immediate imm⟩
  | push a2, width, imm => ⟨.push, width, .immediate imm, a2⟩

def operandLength (target : Arg) (layout : Layout) : Except Throw Nat :=
  match target with
  | .memory memory => do
    let result ← assembleMemoryMnemo memory
    return (pushMemoryForm [] result 0 memory.disp).length
  | _ => .ok (if layout.hasModrm then 1 else 0)

/-- The immediate field that is emitted, where the encoder puts it: behind the bytes it has
written for the other operand. The prefixes and the layout tell how many bytes the opcode
announces for it; the processor finds it there only if it reads that operand to its end. -/
def ImmediateField (target : Arg) (code : List u8) (found : Prefixes) (layout : Layout) (field : List u8) : Prop :=
  ∃ opcode operand, head code = some (found, opcode, operand ++ field) ∧ X86.layout opcode = some layout ∧
    operandLength target layout = .ok operand.length

theorem ImmediateField.unique {target : Arg} {code field otherField : List u8} {found otherFound : Prefixes}
    {layout otherLayout : Layout} (first : ImmediateField target code found layout field)
    (second : ImmediateField target code otherFound otherLayout otherField) :
    found = otherFound ∧ layout = otherLayout ∧ field = otherField := by
  obtain ⟨opcode, operand, headed, known, sized⟩ := first
  obtain ⟨_, other, otherHeaded, otherKnown, otherSized⟩ := second
  rw [headed] at otherHeaded
  simp only [Option.some.injEq, Prod.mk.injEq] at otherHeaded
  obtain ⟨sameFound, rfl, split⟩ := otherHeaded
  cases known.symm.trans otherKnown
  cases sameFound
  have length : operand.length = other.length := Except.ok.inj (sized.symm.trans otherSized)
  exact ⟨rfl, rfl, (List.append_inj split length).2⟩

def ImmediateUse.emitted : ImmediateUse → Size → Imm → Nat
  | mov (.register _), size, _ => size.bytes
  | add (.register _), size, imm => if Short size imm then 1 else size.immediate
  | push _, size, _ => size.bytes
  | _, size, _ => size.immediate

def ImmediateUse.announced : ImmediateUse → Size → Imm → Nat
  | mov (.register _), size, _ => size.bytes
  | add _, size, imm => if Short size imm then 1 else size.immediate
  | push _, size, _ => size.bytes
  | _, size, _ => size.immediate

private theorem operandLength_memory {memory : Memory} {base : Register} {sib : Option Fields}
    (place : memory.Encodable base sib) (layout : Layout) :
    operandLength (.memory memory) layout = .ok (memory.formBytes base sib 0).length := by
  have chosen := (assembleMemoryMnemo_ok_iff memory _).mpr ⟨base, sib, place.based, place.chosen, rfl⟩
  simp [operandLength, chosen, pushMemoryForm_zero, bind, Except.bind, pure, Except.pure]

private theorem immediateField_encodingBytes {target : Arg} {found : Prefixes} {opcode : u8} {layout : Layout}
    (operand : List u8) {field : List u8} (plain : Plain opcode) (known : X86.layout opcode = some layout)
    (sized : operandLength target layout = .ok operand.length) :
    ImmediateField target (encodingBytes found opcode (operand ++ field)) found layout field :=
  ⟨opcode, operand, head_bytes found plain _, known, sized⟩

/-- The field of an accepted immediate: emitted from its low bytes, and announced
by the layout of the opcode. -/
theorem immediate_field (use : ImmediateUse) {width : Width} {imm : Imm} {code : List u8}
    (accepted : assemble [use.mnemo width imm] = .ok code) :
    ∃ size found layout, width.size = some size ∧
      ImmediateField (use.mnemo width imm).a1 code found layout (littleEndian (use.emitted size imm) imm.toInt) ∧
      layout.immediateSize found = use.announced size imm := by
  rw [assemble_singleton_ok_iff] at accepted
  obtain ⟨-, found, opcode, body, encodes, rfl⟩ := accepted
  cases use with
  | mov target =>
    cases encodes with
    | @movRegImm _ size a1 register _ sized first =>
      obtain ⟨plain, known⟩ := layout_regImm size register.number
      refine ⟨size, _, _, sized, immediateField_encodingBytes [] plain known rfl, ?_⟩
      cases size <;> rfl
    | @movMemImm _ size memory base sib _ sized place fits =>
      obtain ⟨plain, known⟩ := layout_movMemImm size
      refine ⟨size, _, _, sized, immediateField_encodingBytes _ plain known (operandLength_memory place _), ?_⟩
      cases size <;> rfl
    | stackReg isPush tagged | stackMem isPush tagged => cases isPush <;> cases tagged
  | add target =>
    cases encodes with
    | @addRegShort _ size a1 register _ sized first short =>
      have emitted : (ImmediateUse.add (.register a1)).emitted size imm = 1 := if_pos short
      refine ⟨size, sizePrefixes size, .rmImm .add true true, sized, ?_, (if_pos short).symm⟩
      rw [emitted]
      exact immediateField_encodingBytes [_] (by decide) rfl rfl
    | @addAccumulator _ size a1 _ sized first long fits =>
      obtain ⟨plain, known⟩ := layout_addAccumulator size
      have emitted : (ImmediateUse.add (.register a1)).emitted size imm = size.immediate := if_neg long
      have announced : (ImmediateUse.add (.register a1)).announced size imm = size.immediate := if_neg long
      refine ⟨size, sizePrefixes size, .accumulator .add (size != .byte), sized, ?_, ?_⟩
      · rw [emitted]
        exact immediateField_encodingBytes [] plain known rfl
      · rw [announced]
        cases size <;> rfl
    | @addRegImm _ size a1 register _ sized first other long fits =>
      obtain ⟨plain, known⟩ := layout_addImm size
      have emitted : (ImmediateUse.add (.register a1)).emitted size imm = size.immediate := if_neg long
      have announced : (ImmediateUse.add (.register a1)).announced size imm = size.immediate := if_neg long
      refine ⟨size, sizePrefixes size, .rmImm .add (size != .byte) false, sized, ?_, ?_⟩
      · rw [emitted]
        exact immediateField_encodingBytes [_] plain known rfl
      · rw [announced]
        cases size <;> rfl
    | @addMemImm _ size memory base sib _ sized place fits =>
      by_cases short : Short size imm
      · refine ⟨size, memoryPrefixes size base, .rmImm .add true true, sized, ?_, (if_pos short).symm⟩
        rw [if_pos short]
        exact immediateField_encodingBytes _ (by decide) rfl (operandLength_memory place _)
      · obtain ⟨plain, known⟩ := layout_addImm size
        have announced : (ImmediateUse.add (.memory memory)).announced size imm = size.immediate := if_neg short
        refine ⟨size, memoryPrefixes size base, .rmImm .add (size != .byte) false, sized, ?_, ?_⟩
        · rw [if_neg short]
          exact immediateField_encodingBytes _ plain known (operandLength_memory place _)
        · rw [announced]
          cases size <;> rfl
    | stackReg isPush tagged | stackMem isPush tagged => cases isPush <;> cases tagged
  | push a2 =>
    cases encodes with
    | @pushImm _ size _ _ sized narrow =>
      obtain ⟨plain, known⟩ := layout_pushImm size
      refine ⟨size, _, _, sized, immediateField_encodingBytes [] plain known rfl, ?_⟩
      cases size <;> first | rfl | exact absurd rfl narrow

def ImmediateUse.Fits : ImmediateUse → Size → Imm → Prop
  | mov (.register _), _, _ => True
  | push _, size, _ => size ≠ .qword
  | _, size, imm => FitsImm32 size imm

def Arg.Writable : Arg → Prop
  | .register reg => ∃ register, reg.register = some register
  | .memory place => ∃ base sib, place.Encodable base sib
  | _ => False

def ImmediateUse.Writable : ImmediateUse → Prop
  | mov target | add target => target.Writable
  | push _ => True

theorem Short.fits {size : Size} {imm : Imm} (short : Short size imm) : FitsImm32 size imm := by
  obtain ⟨low, high⟩ := (canBeEncodedIn8Bits_iff imm).mp short.1
  intro _
  rw [canBeEncodedIn32Bits_iff]
  omega

private theorem register_of_accumulator {reg : Reg} (accumulator : reg = .al ∨ reg = .ax ∨ reg = .eax ∨ reg = .rax) :
    ∃ register, reg.register = some register := by
  rcases accumulator with rfl | rfl | rfl | rfl <;> exact ⟨_, rfl⟩

theorem immediate_accepted_iff (use : ImmediateUse) (width : Width) (imm : Imm) :
    (∃ code, assemble [use.mnemo width imm] = .ok code) ↔
      (use.mnemo width imm).Valid ∧ use.Writable ∧ ∃ size, width.size = some size ∧ use.Fits size imm := by
  simp only [assemble_singleton_ok_iff]
  constructor
  · intro entry
    obtain ⟨_, valid, found, opcode, body, encodes, -⟩ := entry
    refine ⟨valid, ?_⟩
    cases use with
    | mov target =>
      cases encodes with
      | movRegImm sized first => exact ⟨⟨_, first⟩, _, sized, trivial⟩
      | movMemImm sized place fits => exact ⟨⟨_, _, place⟩, _, sized, fits⟩
      | stackReg isPush tagged | stackMem isPush tagged => cases isPush <;> cases tagged
    | add target =>
      cases encodes with
      | addRegShort sized first short => exact ⟨⟨_, first⟩, _, sized, short.fits⟩
      | addAccumulator sized first long fits => exact ⟨register_of_accumulator first, _, sized, fits⟩
      | addRegImm sized first other long fits => exact ⟨⟨_, first⟩, _, sized, fits⟩
      | addMemImm sized place fits => exact ⟨⟨_, _, place⟩, _, sized, fits⟩
      | stackReg isPush tagged | stackMem isPush tagged => cases isPush <;> cases tagged
    | push a2 =>
      cases encodes with
      | pushImm sized narrow => exact ⟨trivial, _, sized, narrow⟩
  · intro accepted
    obtain ⟨valid, writable, size, sized, fits⟩ := accepted
    cases use with
    | mov target =>
      cases target with
      | register reg =>
        obtain ⟨register, named⟩ := writable
        exact ⟨_, valid, _, _, _, .movRegImm sized named, rfl⟩
      | memory place =>
        obtain ⟨base, sib, place⟩ := writable
        exact ⟨_, valid, _, _, _, .movMemImm sized place fits, rfl⟩
      | undef | immediate => exact writable.elim
    | add target =>
      cases target with
      | register reg =>
        obtain ⟨register, named⟩ := writable
        by_cases short : Short size imm
        · exact ⟨_, valid, _, _, _, .addRegShort sized named short, rfl⟩
        by_cases accumulator : reg = .al ∨ reg = .ax ∨ reg = .eax ∨ reg = .rax
        · exact ⟨_, valid, _, _, _, .addAccumulator sized accumulator short fits, rfl⟩
        · exact ⟨_, valid, _, _, _, .addRegImm sized named accumulator short fits, rfl⟩
      | memory place =>
        obtain ⟨base, sib, place⟩ := writable
        exact ⟨_, valid, _, _, _, .addMemImm sized place fits, rfl⟩
      | undef | immediate => exact writable.elim
    | push a2 => exact ⟨_, valid, _, _, _, .pushImm sized fits, rfl⟩

end Cplastane.Assembly
