import Cplastane.Proofs.Decoding
import Cplastane.Proofs.MemoryFidelity

/-! The supported subset of the assembler: every program in it assembles to bytes
that decode back to the program. -/

namespace Cplastane.Assembly
open X86

structure Memory.Supported (memory : Memory) : Prop where
  wide : memory.WideBase
  indexed : (memory.scale = .s0 ∧ memory.index = .undef) ∨
    (registerWidth memory.index = registerWidth memory.base ∧ memory.index ≠ .esp ∧ memory.index ≠ .rsp ∧
      (memory.scale = .s1 ∨ memory.scale = .s2 ∨ memory.scale = .s4 ∨ memory.scale = .s8))
  displaced : memory.base = .ebp ∨ memory.base = .rbp → memory.disp ≠ 0

inductive Supported : Mnemo → Prop where
  | regReg {tag width a1 a2} (operation : tag = .mov ∨ tag = .add) (first : registerWidth a1 = .ok width)
      (second : registerWidth a2 = .ok width) : Supported ⟨tag, width, .register a1, .register a2⟩
  | memReg {tag width memory a2} (operation : tag = .mov ∨ tag = .add) (place : memory.Supported)
      (second : registerWidth a2 = .ok width) : Supported ⟨tag, width, .memory memory, .register a2⟩
  | regMem {tag width a1 memory} (operation : tag = .mov ∨ tag = .add) (first : registerWidth a1 = .ok width)
      (place : memory.Supported) : Supported ⟨tag, width, .register a1, .memory memory⟩
  | movRegImm {width a1 imm} (first : registerWidth a1 = .ok width) :
      Supported ⟨.mov, width, .register a1, .immediate imm⟩
  | movMemImm {width memory imm} (sized : width = .byte ∨ width = .word ∨ width = .dword ∨ width = .qword)
      (place : memory.Supported) (fits : width = .qword → -2 ^ 31 ≤ imm.toInt ∧ imm.toInt ≤ 2 ^ 32 - 1) :
      Supported ⟨.mov, width, .memory memory, .immediate imm⟩
  | stackReg {tag width a1} (operation : tag = .push ∨ tag = .pop) (sized : width = .word ∨ width = .qword)
      (first : registerWidth a1 = .ok width) : Supported ⟨tag, width, .register a1, .undef⟩
  | stackMem {tag width memory} (operation : tag = .push ∨ tag = .pop) (sized : width = .word ∨ width = .qword)
      (place : memory.Supported) : Supported ⟨tag, width, .memory memory, .undef⟩
  | pushImm {width imm} (sized : width = .byte ∨ width = .word ∨ width = .dword) :
      Supported ⟨.push, width, .immediate imm, .undef⟩
  | ret : Supported ⟨.ret, .notSet, .undef, .undef⟩

private theorem registerWidth_same {first second : Reg} {register : Register} (named : first.register = some register)
    (same : registerWidth second = registerWidth first) :
    ∃ other, second.register = some other ∧ other.size = register.size := by
  rw [registerWidth_eq first, named] at same
  obtain ⟨other, named, sized⟩ := registerWidth_ok same
  exact ⟨other, named, ((Width.ofSize_inj _ _).mp sized).symm⟩

theorem Memory.Supported.readable {memory : Memory} (supported : memory.Supported) :
    ∃ base sib, memory.Readable base sib := by
  obtain ⟨wideBase, indexed, displaced⟩ := supported
  obtain ⟨base, based⟩ : ∃ base, memory.base.register = some base := by
    rcases wideBase with read | read <;> exact (registerWidth_ok read).imp fun _ => And.left
  have wide := (Memory.wideBase_iff based).mp wideBase
  have kept : ¬memory.Escapes base := by
    rw [Memory.escapes_iff based wide]
    exact fun escapes => displaced escapes.2 escapes.1
  have displacedEbp : ¬(memory.disp = 0 ∧ memory.base = .ebp) := fun both => displaced (.inl both.2) both.1
  rcases indexed with ⟨unscaled, unindexed⟩ | ⟨sameWidth, notEsp, notRsp, scaled⟩
  · have chosen : ∃ sib, memory.Chosen base sib := by
      by_cases isShort : memory.IsShort
      · exact ⟨none, .short isShort⟩
      · exact ⟨_, .long isShort displacedEbp (by simp [unindexed]) (if_pos unscaled)⟩
    obtain ⟨sib, chosen⟩ := chosen
    exact ⟨base, sib, ⟨based, .inl unindexed, chosen⟩, wide, kept, by simp [unindexed]⟩
  · obtain ⟨index, indexed, sized⟩ := registerWidth_same based sameWidth
    obtain ⟨bits, scaled⟩ : ∃ bits, memory.scale.bits = some bits := by
      rcases scaled with scale | scale | scale | scale <;> exact ⟨_, congrArg Scale.bits scale⟩
    have unscaled : memory.scale ≠ .s0 := by
      intro zero
      rw [zero] at scaled
      cases scaled
    have fields : memory.sib base = some ⟨bits, index.number, base.number⟩ := by
      simp [Memory.sib, unscaled, scaled, indexed]
    have chosen := Memory.Chosen.long (fun isShort => unscaled isShort.1) displacedEbp notEsp fields
    exact ⟨base, _, ⟨based, .inr ⟨index, indexed, sized⟩, chosen⟩, wide, kept, notRsp⟩

theorem tag_binary {tag : Tag} (binary : tag = .mov ∨ tag = .add) : ∃ operation, tag = tagOf operation := by
  rcases binary with rfl | rfl
  · exact ⟨.mov, rfl⟩
  · exact ⟨.add, rfl⟩

theorem tag_stack {tag : Tag} (stack : tag = .push ∨ tag = .pop) : ∃ isPush, tag = stackTag isPush := by
  rcases stack with rfl | rfl
  · exact ⟨true, rfl⟩
  · exact ⟨false, rfl⟩

private theorem accepted_of_entry {mnemo : Mnemo} {found : Prefixes} {opcode : u8} {body : List u8}
    (valid : mnemo.Valid)
    (encodes : Encodes mnemo found opcode body) (decodes : DecodesTo mnemo (encodingBytes found opcode body)) :
    ∃ code, assemble [mnemo] = .ok code ∧ DecodesTo mnemo code :=
  ⟨_, (assemble_singleton_ok_iff _ _).mpr ⟨valid, _, _, _, encodes, rfl⟩, decodes⟩

private theorem tagOf_ne_undef (operation : Operation) : tagOf operation ≠ .undef := by
  cases operation <;> simp [tagOf]

theorem Supported.decodes {mnemo : Mnemo} (supported : Supported mnemo) :
    ∃ code, assemble [mnemo] = .ok code ∧ DecodesTo mnemo code := by
  cases supported with
  | regReg binary first second =>
    obtain ⟨operation, rfl⟩ := tag_binary binary
    obtain ⟨target, targetNamed, sized, known⟩ := size_of_registerWidth first
    obtain ⟨source, sourceNamed, sourceSized, _⟩ := size_of_registerWidth second
    have same : source.size = target.size := Option.some.inj (sourceSized.symm.trans sized)
    exact accepted_of_entry ⟨tagOf_ne_undef operation, known, first, second⟩
      (.regReg operation rfl sized targetNamed sourceNamed)
      (regReg_decodes operation sized targetNamed sourceNamed rfl same)
  | memReg binary place second =>
    obtain ⟨operation, rfl⟩ := tag_binary binary
    obtain ⟨source, named, sized, known⟩ := size_of_registerWidth second
    obtain ⟨base, sib, readable⟩ := place.readable
    exact accepted_of_entry ⟨tagOf_ne_undef operation, known, trivial, second⟩
      (.memReg operation rfl sized readable.place named) (memReg_decodes operation sized readable named rfl)
  | regMem binary first place =>
    obtain ⟨operation, rfl⟩ := tag_binary binary
    obtain ⟨target, named, sized, known⟩ := size_of_registerWidth first
    obtain ⟨base, sib, readable⟩ := place.readable
    exact accepted_of_entry ⟨tagOf_ne_undef operation, known, first, trivial⟩
      (.regMem operation rfl sized named readable.place) (regMem_decodes operation sized named rfl readable)
  | @movRegImm _ _ imm first =>
    obtain ⟨target, named, sized, known⟩ := size_of_registerWidth first
    exact accepted_of_entry ⟨by simp, known, first, trivial⟩ (.movRegImm sized named)
      (movRegImm_decodes imm sized named rfl)
  | @movMemImm width memory imm widths place fits =>
    obtain ⟨size, sized⟩ : ∃ size, width.size = some size := by
      rcases widths with rfl | rfl | rfl | rfl <;> exact ⟨_, rfl⟩
    obtain ⟨base, sib, readable⟩ := place.readable
    have fitsImm : FitsImm32 size imm := by
      rintro rfl
      exact (canBeEncodedIn32Bits_iff imm).mpr (fits (Width.ofSize_eq sized))
    exact accepted_of_entry ⟨by simp, Width.ne_undef sized, trivial, trivial⟩ (.movMemImm sized readable.place fitsImm)
      (movMemImm_decodes imm sized readable)
  | stackReg stack widths first =>
    obtain ⟨isPush, rfl⟩ := tag_stack stack
    obtain ⟨register, named, sized, known⟩ := size_of_registerWidth first
    have wide : register.size = .word ∨ register.size = .qword := by
      rcases widths with rfl | rfl <;> simp_all [Width.size]
    exact accepted_of_entry ⟨stackTag_ne_undef isPush, known, first, trivial⟩
      (.stackReg isPush rfl (by rcases widths with rfl | rfl <;> simp) named)
      (stackReg_decodes isPush sized wide named rfl)
  | @stackMem _ width memory stack widths place =>
    obtain ⟨isPush, rfl⟩ := tag_stack stack
    obtain ⟨base, sib, readable⟩ := place.readable
    obtain ⟨size, sized, wide⟩ : ∃ size, width.size = some size ∧ (size = .word ∨ size = .qword) := by
      rcases widths with rfl | rfl
      · exact ⟨.word, rfl, .inl rfl⟩
      · exact ⟨.qword, rfl, .inr rfl⟩
    exact accepted_of_entry
      ⟨stackTag_ne_undef isPush, Width.ne_undef sized, trivial, trivial⟩
      (.stackMem isPush rfl (by rcases widths with rfl | rfl <;> simp) readable.place)
      (stackMem_decodes isPush sized wide readable)
  | @pushImm width imm widths =>
    obtain ⟨size, sized, narrow⟩ : ∃ size, width.size = some size ∧ size ≠ .qword := by
      rcases widths with rfl | rfl | rfl <;> exact ⟨_, rfl, by simp⟩
    exact accepted_of_entry ⟨by simp, Width.ne_undef sized, trivial, trivial⟩ (.pushImm sized narrow)
      (pushImm_decodes imm sized narrow)
  | ret => exact accepted_of_entry ⟨by simp, by simp, trivial, trivial⟩ .ret (ret_decodes _ _)

/-- Programs of the supported subset are accepted, and the processor reads from
their bytes exactly the instructions they stand for. -/
theorem supported_programs_decode (mnemos : List Mnemo) (supported : ∀ mnemo ∈ mnemos, Supported mnemo) :
    ∃ bytes instructions, assemble mnemos = .ok bytes ∧ mnemos.mapM Mnemo.instruction = some instructions ∧
      Decodes bytes instructions := by
  induction mnemos with
  | nil => exact ⟨[], [], rfl, rfl, .done⟩
  | cons mnemo mnemos ih =>
    obtain ⟨code, accepted, instruction, meant, decoded⟩ := (supported mnemo List.mem_cons_self).decodes
    obtain ⟨rest, instructions, assembled, mapped, remaining⟩ :=
      ih fun other member => supported other (List.mem_cons_of_mem _ member)
    refine ⟨code ++ rest, instruction :: instructions, ?_, ?_, .step (decoded rest) remaining⟩
    · exact (assemble_cons_ok_iff _ _ _).mpr ⟨code, rest, by rwa [← assemble_singleton], assembled, rfl⟩
    · simp [List.mapM_cons, meant, mapped]

theorem supported_load_decodes : ∃ bytes instructions,
    assemble [⟨.mov, .qword, .register .rax, .memory ⟨.rbp, .rcx, .s4, -8, nofun⟩⟩,
        ⟨.push, .word, .immediate 1000, .undef⟩, ⟨.ret, .notSet, .undef, .undef⟩] = .ok bytes ∧
      [⟨.mov, .qword, .register .rax, .memory ⟨.rbp, .rcx, .s4, -8, nofun⟩⟩,
        ⟨.push, .word, .immediate 1000, .undef⟩, ⟨.ret, .notSet, .undef, .undef⟩].mapM Mnemo.instruction =
          some instructions ∧
      Decodes bytes instructions := by
  apply supported_programs_decode
  simp only [List.forall_mem_cons, List.not_mem_nil, false_implies, implies_true, and_true]
  refine ⟨.regMem (.inl rfl) rfl ⟨.inr rfl, .inr ⟨rfl, ?_⟩, ?_⟩, .pushImm (.inr (.inl rfl)), .ret⟩ <;> simp

end Cplastane.Assembly
