import Cplastane.Assembly.Encoding
import Cplastane.Exceptions

/-! The encoder computes the table: it accepts exactly the entries' shapes and
appends exactly their bytes. Everything else about the encoder is read off the table. -/

namespace Cplastane.Assembly
open X86 Exceptions

private theorem regToNumber_then {reg : Reg} {next : u8 → Except Throw (List u8)} {bytes : List u8} :
    (do let number ← regToNumber reg
        next number) = .ok bytes ↔
      ∃ register, reg.register = some register ∧ next (UInt8.ofNat register.number.val) = .ok bytes := by
  rw [regToNumber_eq]
  cases reg.register <;> simp [bind, Except.bind]

private theorem opcode_then {out bytes : List u8} {width : Width} {opcode1 opcode2 : u8}
    {next : List u8 → Except Throw (List u8)} :
    (do let out ← pushOperandWidthPrefixesAndOpcode out width opcode1 opcode2
        next out) = .ok bytes ↔
      ∃ size, width.size = some size ∧
        next (out ++ (sizePrefixes size).bytes ++ [(Opcodes.mk opcode1 opcode2).select size]) = .ok bytes := by
  rw [pushOperandWidthPrefixesAndOpcode_eq]
  cases width.size <;> simp [Opcodes.select, bind, Except.bind]

private theorem appendImmUpto64_ok_iff (out bytes : List u8) (width : Width) (imm : Imm) :
    appendImmUpto64 out width imm = .ok bytes ↔
      ∃ size, width.size = some size ∧ out ++ littleEndian size.bytes imm.toInt = bytes := by
  rw [appendImmUpto64_eq]
  cases width.size <;> simp

private theorem appendImm32_ok_iff (out bytes : List u8) (width : Width) (imm : Imm) (msg : String) :
    (do let width ← assertImmNotLargerThan32Bits width imm msg
        appendImmUpto64 out width imm) = .ok bytes ↔
      ∃ size, width.size = some size ∧ FitsImm32 size imm ∧
        out ++ littleEndian size.immediate imm.toInt = bytes := by
  simp only [bind_ok, appendImmUpto64_ok_iff]
  cases fits : canBeEncodedIn32Bits imm <;> cases width <;>
    simp [assertImmNotLargerThan32Bits, Width.size, FitsImm32, Size.immediate, Size.bytes, fits]

private theorem narrowImm_ok_iff {out bytes : List u8} {width : Width} {opcode1 opcode2 : u8}
    {form : List u8 → List u8} {imm : Imm} {msg : String} :
    (do let out ← pushOperandWidthPrefixesAndOpcode out width opcode1 opcode2
        let width ← assertImmNotLargerThan32Bits width imm msg
        appendImmUpto64 (form out) width imm) = .ok bytes ↔
      ∃ size, width.size = some size ∧ FitsImm32 size imm ∧
        form (out ++ (sizePrefixes size).bytes ++ [(Opcodes.mk opcode1 opcode2).select size]) ++
          littleEndian size.immediate imm.toInt = bytes := by
  rw [opcode_then]
  simp only [appendImm32_ok_iff]
  constructor
  · intro accepted
    obtain ⟨size, sized, _, same, fits, rfl⟩ := accepted
    cases sized.symm.trans same
    exact ⟨size, sized, fits, rfl⟩
  · intro accepted
    obtain ⟨size, sized, fits, rfl⟩ := accepted
    exact ⟨size, sized, size, sized, fits, rfl⟩

private theorem memory_then {out bytes : List u8} {memory : Memory}
    {next : AssembleMemoryMnemoResult → List u8 → Except Throw (List u8)} :
    (do let result ← assembleMemoryMnemo memory
        let out ← pushASORIfDword out memory
        next result out) = .ok bytes ↔
      ∃ base sib, memory.Encodable base sib ∧
        next (memory.result base sib) (out ++ Prefixes.bytes { address := base.size == .dword }) = .ok bytes := by
  simp only [bind_ok, assembleMemoryMnemo_ok_iff, pushASORIfDword_ok_iff]
  constructor
  · intro accepted
    obtain ⟨_, ⟨base, sib, based, chosen, rfl⟩, _, ⟨other, named, same, rfl⟩, rest⟩ := accepted
    rw [based] at named
    cases named
    exact ⟨base, sib, ⟨based, same, chosen⟩, rest⟩
  · intro accepted
    obtain ⟨base, sib, place, rest⟩ := accepted
    exact ⟨_, ⟨base, sib, place.based, place.chosen, rfl⟩, _, ⟨base, place.based, place.same, rfl⟩, rest⟩

private theorem memoryPrefixes_bytes (size : Size) (base : Register) :
    Prefixes.bytes { address := base.size == .dword } ++ (sizePrefixes size).bytes =
      (memoryPrefixes size base).bytes := by
  simp [Prefixes.bytes, memoryPrefixes, sizePrefixes]

private theorem stackPrefixes_bytes (width : Width) (base : Register) :
    Prefixes.bytes { address := base.size == .dword } ++ (stackPrefixes width).bytes =
      Prefixes.bytes { stackPrefixes width with address := base.size == .dword } := by
  simp [Prefixes.bytes, stackPrefixes]

def Entry (out : List u8) (mnemo : Mnemo) (bytes : List u8) : Prop :=
  ∃ found opcode body, Encodes mnemo found opcode body ∧ out ++ encodingBytes found opcode body = bytes

private theorem memoryRegister_ok_iff (out bytes : List u8) (mnemo : Mnemo) (opcode1 opcode2 : u8) (memory : Memory)
    (reg : Reg) (shape : (mnemo.a1 = .memory memory ∧ mnemo.a2 = .register reg) ∨
      (mnemo.a1 = .register reg ∧ mnemo.a2 = .memory memory)) :
    assembleMemoryRegisterMnemosTemplate out mnemo opcode1 opcode2 = .ok bytes ↔
      ∃ register base sib size, reg.register = some register ∧ memory.Encodable base sib ∧
        mnemo.width.size = some size ∧
        out ++ encodingBytes (memoryPrefixes size base) ((Opcodes.mk opcode1 opcode2).select size)
          (memory.formBytes base sib register.number) = bytes := by
  have selected : assembleMemoryRegisterMnemosTemplate out mnemo opcode1 opcode2 = (do
      let number ← regToNumber reg
      let result ← assembleMemoryMnemo memory
      let out ← pushASORIfDword out memory
      let out ← pushOperandWidthPrefixesAndOpcode out mnemo.width opcode1 opcode2
      return pushMemoryForm out result number memory.disp) := by
    unfold assembleMemoryRegisterMnemosTemplate
    rcases shape with ⟨first, second⟩ | ⟨first, second⟩ <;> rw [first, second] <;> rfl
  rw [selected]
  simp only [regToNumber_then, memory_then, opcode_then, pure_ok, pushMemoryForm_eq]
  constructor
  · intro accepted
    obtain ⟨register, named, base, sib, place, size, sized, rfl⟩ := accepted
    refine ⟨register, base, sib, size, named, place, sized, ?_⟩
    simp [encodingBytes, ← memoryPrefixes_bytes]
  · intro accepted
    obtain ⟨register, base, sib, size, named, place, sized, rfl⟩ := accepted
    refine ⟨register, named, base, sib, place, size, sized, ?_⟩
    simp [encodingBytes, ← memoryPrefixes_bytes]

private theorem registerModrm (reg rm : Register) :
    modAndRegAndRmToModrm 0b11 (UInt8.ofNat reg.number.val) (UInt8.ofNat rm.number.val) =
      (Fields.mk 3 reg.number rm.number).byte :=
  modrm_byte 3 reg.number rm.number

private theorem digitModrm (rm : Register) :
    modAndRegAndRmToModrm 0b11 0 (UInt8.ofNat rm.number.val) = (Fields.mk 3 0 rm.number).byte :=
  modrm_byte 3 0 rm.number

private theorem select_add (narrow wide number : u8) (size : Size) :
    (Opcodes.mk (narrow + number) (wide + number)).select size = (Opcodes.mk narrow wide).select size + number := by
  unfold Opcodes.select
  split <;> rfl

theorem tagOf_injective {first second : Operation} (same : tagOf first = tagOf second) : first = second := by
  cases first <;> cases second <;> first | rfl | cases same

theorem tagOf_ne_stack (operation : Operation) (isPush : Bool) : tagOf operation ≠ stackTag isPush := by
  cases operation <;> cases isPush <;> simp [tagOf, stackTag]

private theorem regReg_iff (operation : Operation) (out bytes : List u8) (width : Width) (r1 r2 : Reg) :
    (do let rm ← regToNumber r1
        let reg ← regToNumber r2
        let out ← pushOperandWidthPrefixesAndOpcode out width (rmRegOpcodes operation).narrow (rmRegOpcodes operation).wide
        return out ++ [modAndRegAndRmToModrm 0b11 reg rm]) = .ok bytes ↔
      Entry out ⟨tagOf operation, width, .register r1, .register r2⟩ bytes := by
  simp only [regToNumber_then, opcode_then, pure_ok, registerModrm]
  constructor
  · intro accepted
    obtain ⟨target, first, source, second, size, sized, rfl⟩ := accepted
    refine ⟨_, _, _, .regReg operation rfl sized first second, ?_⟩
    simp [encodingBytes]
  · intro entry
    obtain ⟨found, opcode, body, encodes, rfl⟩ := entry
    generalize tagged : tagOf operation = tag at encodes
    cases encodes with
    | regReg other same sized first second =>
      cases tagOf_injective (tagged.trans same)
      refine ⟨_, first, _, second, _, sized, ?_⟩
      simp [encodingBytes]
    | stackReg isPush same => exact absurd (tagged.trans same) (tagOf_ne_stack operation isPush)
    | ret => cases operation <;> cases tagged

private theorem memReg_iff (operation : Operation) (out bytes : List u8) (width : Width) (memory : Memory) (r2 : Reg) :
    assembleMemoryRegisterMnemosTemplate out ⟨tagOf operation, width, .memory memory, .register r2⟩
        (rmRegOpcodes operation).narrow (rmRegOpcodes operation).wide = .ok bytes ↔
      Entry out ⟨tagOf operation, width, .memory memory, .register r2⟩ bytes := by
  rw [memoryRegister_ok_iff _ _ _ _ _ memory r2 (.inl ⟨rfl, rfl⟩)]
  constructor
  · intro accepted
    obtain ⟨source, base, sib, size, second, place, sized, rfl⟩ := accepted
    exact ⟨_, _, _, .memReg operation rfl sized place second, rfl⟩
  · intro entry
    obtain ⟨found, opcode, body, encodes, rfl⟩ := entry
    generalize tagged : tagOf operation = tag at encodes
    cases encodes with
    | memReg other same sized place second =>
      cases tagOf_injective (tagged.trans same)
      exact ⟨_, _, _, _, second, place, sized, rfl⟩
    | stackMem isPush same => exact absurd (tagged.trans same) (tagOf_ne_stack operation isPush)
    | ret => cases operation <;> cases tagged

private theorem regMem_iff (operation : Operation) (out bytes : List u8) (width : Width) (r1 : Reg) (memory : Memory) :
    assembleMemoryRegisterMnemosTemplate out ⟨tagOf operation, width, .register r1, .memory memory⟩
        (regRmOpcodes operation).narrow (regRmOpcodes operation).wide = .ok bytes ↔
      Entry out ⟨tagOf operation, width, .register r1, .memory memory⟩ bytes := by
  rw [memoryRegister_ok_iff _ _ _ _ _ memory r1 (.inr ⟨rfl, rfl⟩)]
  constructor
  · intro accepted
    obtain ⟨target, base, sib, size, first, place, sized, rfl⟩ := accepted
    exact ⟨_, _, _, .regMem operation rfl sized first place, rfl⟩
  · intro entry
    obtain ⟨found, opcode, body, encodes, rfl⟩ := entry
    generalize tagged : tagOf operation = tag at encodes
    cases encodes with
    | regMem other same sized first place =>
      cases tagOf_injective (tagged.trans same)
      exact ⟨_, _, _, _, first, place, sized, rfl⟩
    | stackReg isPush same => exact absurd (tagged.trans same) (tagOf_ne_stack operation isPush)
    | ret => cases operation <;> cases tagged

private theorem movRegImm_iff (out bytes : List u8) (width : Width) (r1 : Reg) (imm : Imm) :
    (do let opcodeShift ← regToNumber r1
        let out ← pushOperandWidthPrefixesAndOpcode out width (0xb0 + opcodeShift) (0xb8 + opcodeShift)
        appendImmUpto64 out width imm) = .ok bytes ↔
      Entry out ⟨.mov, width, .register r1, .immediate imm⟩ bytes := by
  simp only [regToNumber_then, opcode_then, appendImmUpto64_ok_iff, select_add]
  constructor
  · intro accepted
    obtain ⟨target, first, size, sized, _, same, rfl⟩ := accepted
    cases sized.symm.trans same
    refine ⟨_, _, _, .movRegImm sized first, ?_⟩
    simp [encodingBytes]
  · intro entry
    obtain ⟨found, opcode, body, encodes, rfl⟩ := entry
    cases encodes with
    | movRegImm sized first =>
      refine ⟨_, first, _, sized, _, sized, ?_⟩
      simp [encodingBytes]
    | stackReg isPush tagged => cases isPush <;> cases tagged

private theorem movMemImm_iff (out bytes : List u8) (width : Width) (memory : Memory) (imm : Imm) (msg : String) :
    (do let result ← assembleMemoryMnemo memory
        let out ← pushASORIfDword out memory
        let out ← pushOperandWidthPrefixesAndOpcode out width 0xc6 0xc7
        let width ← assertImmNotLargerThan32Bits width imm msg
        appendImmUpto64 (pushMemoryForm out result 0 memory.disp) width imm) = .ok bytes ↔
      Entry out ⟨.mov, width, .memory memory, .immediate imm⟩ bytes := by
  simp only [memory_then, narrowImm_ok_iff, pushMemoryForm_zero]
  constructor
  · intro accepted
    obtain ⟨base, sib, place, size, sized, fits, rfl⟩ := accepted
    refine ⟨_, _, _, .movMemImm sized place fits, ?_⟩
    simp [encodingBytes, ← memoryPrefixes_bytes]
  · intro entry
    obtain ⟨found, opcode, body, encodes, rfl⟩ := entry
    cases encodes with
    | movMemImm sized place fits =>
      refine ⟨_, _, place, _, sized, fits, ?_⟩
      simp [encodingBytes, ← memoryPrefixes_bytes]
    | stackMem isPush tagged => cases isPush <;> cases tagged

private theorem otherShape_iff (operation : Operation) {error : Throw} (out bytes : List u8) (width : Width)
    {a1 a2 : Arg}
    (first : a1 = .undef ∨ (∃ imm, a1 = .immediate imm) ∨ a2 = .undef ∨ ∃ m1 m2, a1 = .memory m1 ∧ a2 = .memory m2) :
    (throw error : Except Throw (List u8)) = .ok bytes ↔ Entry out ⟨tagOf operation, width, a1, a2⟩ bytes := by
  constructor
  · intro accepted
    exact absurd accepted throw_ok
  · intro entry
    obtain ⟨found, opcode, body, encodes, rfl⟩ := entry
    generalize tagged : tagOf operation = tag at encodes
    cases encodes with
    | stackReg isPush same | stackMem isPush same => exact absurd (tagged.trans same) (tagOf_ne_stack operation isPush)
    | pushImm | ret => cases operation <;> cases tagged
    | _ => simp at first

theorem assembleMnemoMov_ok_iff (out bytes : List u8) (width : Width) (a1 a2 : Arg) :
    assembleMnemoMov out ⟨.mov, width, a1, a2⟩ = .ok bytes ↔ Entry out ⟨.mov, width, a1, a2⟩ bytes := by
  unfold assembleMnemoMov
  rw [if_neg (not_not_intro rfl)]
  cases a1 with
  | undef => exact otherShape_iff .mov out bytes width (.inl rfl)
  | immediate imm => exact otherShape_iff .mov out bytes width (.inr (.inl ⟨imm, rfl⟩))
  | register r1 =>
    cases a2 with
    | undef => exact otherShape_iff .mov out bytes width (.inr (.inr (.inl rfl)))
    | immediate imm => exact movRegImm_iff out bytes width r1 imm
    | register r2 => exact regReg_iff .mov out bytes width r1 r2
    | memory memory => exact regMem_iff .mov out bytes width r1 memory
  | memory memory =>
    cases a2 with
    | undef => exact otherShape_iff .mov out bytes width (.inr (.inr (.inl rfl)))
    | immediate imm => exact movMemImm_iff out bytes width memory imm _
    | register r2 => exact memReg_iff .mov out bytes width memory r2
    | memory other => exact otherShape_iff .mov out bytes width (.inr (.inr (.inr ⟨memory, other, rfl, rfl⟩)))

theorem short_iff {width : Width} {size : Size} (sized : width.size = some size) (imm : Imm) :
    (canBeEncodedIn8Bits imm = true ∧ width ≠ .byte) ↔ Short size imm := by
  cases width <;> cases sized <;> simp [Short]

private theorem select_short {size : Size} {imm : Imm} (short : Short size imm) (narrow wide : u8) :
    (Opcodes.mk narrow wide).select size = wide := if_neg short.2

private theorem addRegImm_iff (out bytes : List u8) (width : Width) (r1 : Reg) (imm : Imm) :
    (if canBeEncodedIn8Bits imm ∧ width ≠ .byte then do
        let rm ← regToNumber r1
        let out ← pushOperandWidthPrefixesAndOpcode out width 0xee 0x83
        appendImmUpto64 (out ++ [modAndRegAndRmToModrm 0b11 0 rm]) .byte imm
      else if r1 = .al ∨ r1 = .ax ∨ r1 = .eax ∨ r1 = .rax then do
        let out ← pushOperandWidthPrefixesAndOpcode out width 0x04 0x05
        let width ← assertImmNotLargerThan32Bits width imm addImmTooLarge
        appendImmUpto64 out width imm
      else do
        let rm ← regToNumber r1
        let out ← pushOperandWidthPrefixesAndOpcode out width 0x80 0x81
        let width ← assertImmNotLargerThan32Bits width imm addImmTooLarge
        appendImmUpto64 (out ++ [modAndRegAndRmToModrm 0b11 0 rm]) width imm) = .ok bytes ↔
      Entry out ⟨.add, width, .register r1, .immediate imm⟩ bytes := by
  constructor
  · intro accepted
    split at accepted
    next short =>
      simp only [regToNumber_then, opcode_then, appendImmUpto64_ok_iff] at accepted
      obtain ⟨target, first, size, sized, _, byte, rfl⟩ := accepted
      cases byte
      have form := (short_iff sized imm).mp short
      refine ⟨_, _, _, .addRegShort sized first form, ?_⟩
      simp [encodingBytes, select_short form, digitModrm, Size.bytes]
    next long =>
      split at accepted
      next accumulator =>
        simp only [narrowImm_ok_iff] at accepted
        obtain ⟨size, sized, fits, rfl⟩ := accepted
        have form := fun short => long ((short_iff sized imm).mpr short)
        refine ⟨_, _, _, .addAccumulator sized accumulator form fits, ?_⟩
        simp [encodingBytes]
      next other =>
        simp only [regToNumber_then, narrowImm_ok_iff] at accepted
        obtain ⟨target, first, size, sized, fits, rfl⟩ := accepted
        have form := fun short => long ((short_iff sized imm).mpr short)
        refine ⟨_, _, _, .addRegImm sized first other form fits, ?_⟩
        simp [encodingBytes, digitModrm]
  · intro entry
    obtain ⟨found, opcode, body, encodes, rfl⟩ := entry
    cases encodes with
    | addRegShort sized first short =>
      simp only [if_pos ((short_iff sized _).mpr short), regToNumber_then, opcode_then, appendImmUpto64_ok_iff]
      refine ⟨_, first, _, sized, _, rfl, ?_⟩
      simp [encodingBytes, select_short short, digitModrm, Size.bytes]
    | addAccumulator sized first long fits =>
      have form := fun short => long ((short_iff sized _).mp short)
      simp only [if_neg form, if_pos first, narrowImm_ok_iff]
      refine ⟨_, sized, fits, ?_⟩
      simp [encodingBytes]
    | addRegImm sized first other long fits =>
      have form := fun short => long ((short_iff sized _).mp short)
      simp only [if_neg form, if_neg other, regToNumber_then, narrowImm_ok_iff]
      refine ⟨_, first, _, sized, fits, ?_⟩
      simp [encodingBytes, digitModrm]
    | stackReg isPush tagged => cases isPush <;> cases tagged

/-- The memory form picks its opcode by the immediate, but not the immediate's size: this is where a
full one comes behind the short opcode. -/
private theorem addMemImm_iff (out bytes : List u8) (width : Width) (memory : Memory) (imm : Imm) :
    (do let result ← assembleMemoryMnemo memory
        let out ← pushASORIfDword out memory
        let out ←
          if canBeEncodedIn8Bits imm ∧ width ≠ Width.byte then pushOperandWidthPrefixesAndOpcode out width 0xee 0x83
          else pushOperandWidthPrefixesAndOpcode out width 0x80 0x81
        let width ← assertImmNotLargerThan32Bits width imm addImmTooLarge
        appendImmUpto64 (pushMemoryForm out result 0 memory.disp) width imm) = .ok bytes ↔
      Entry out ⟨.add, width, .memory memory, .immediate imm⟩ bytes := by
  simp only [memory_then, pushMemoryForm_zero]
  constructor
  · intro accepted
    obtain ⟨base, sib, place, accepted⟩ := accepted
    split at accepted
    next short =>
      simp only [narrowImm_ok_iff] at accepted
      obtain ⟨size, sized, fits, rfl⟩ := accepted
      have form := (short_iff sized imm).mp short
      refine ⟨_, _, _, .addMemImm sized place fits, ?_⟩
      simp [encodingBytes, select_short form, form, ← memoryPrefixes_bytes]
    next long =>
      simp only [narrowImm_ok_iff] at accepted
      obtain ⟨size, sized, fits, rfl⟩ := accepted
      have form : ¬Short size imm := fun short => long ((short_iff sized imm).mpr short)
      refine ⟨_, _, _, .addMemImm sized place fits, ?_⟩
      simp [encodingBytes, form, ← memoryPrefixes_bytes]
  · intro entry
    obtain ⟨found, opcode, body, encodes, rfl⟩ := entry
    cases encodes with
    | @addMemImm _ size _ base sib _ sized place fits =>
      refine ⟨base, sib, place, ?_⟩
      by_cases short : Short size imm
      · simp only [if_pos ((short_iff sized imm).mpr short), narrowImm_ok_iff]
        refine ⟨_, sized, fits, ?_⟩
        simp [encodingBytes, select_short short, short, ← memoryPrefixes_bytes]
      · have form := fun test => short ((short_iff sized imm).mp test)
        simp only [if_neg form, narrowImm_ok_iff]
        refine ⟨_, sized, fits, ?_⟩
        simp [encodingBytes, short, ← memoryPrefixes_bytes]
    | stackMem isPush tagged => cases isPush <;> cases tagged

theorem assembleMnemoAdd_ok_iff (out bytes : List u8) (width : Width) (a1 a2 : Arg) :
    assembleMnemoAdd out ⟨.add, width, a1, a2⟩ = .ok bytes ↔ Entry out ⟨.add, width, a1, a2⟩ bytes := by
  unfold assembleMnemoAdd
  rw [if_neg (not_not_intro rfl)]
  cases a1 with
  | undef => exact otherShape_iff .add out bytes width (.inl rfl)
  | immediate imm => exact otherShape_iff .add out bytes width (.inr (.inl ⟨imm, rfl⟩))
  | register r1 =>
    cases a2 with
    | undef => exact otherShape_iff .add out bytes width (.inr (.inr (.inl rfl)))
    | immediate imm => exact addRegImm_iff out bytes width r1 imm
    | register r2 => exact regReg_iff .add out bytes width r1 r2
    | memory memory => exact regMem_iff .add out bytes width r1 memory
  | memory memory =>
    cases a2 with
    | undef => exact otherShape_iff .add out bytes width (.inr (.inr (.inl rfl)))
    | immediate imm => exact addMemImm_iff out bytes width memory imm
    | register r2 => exact memReg_iff .add out bytes width memory r2
    | memory other => exact otherShape_iff .add out bytes width (.inr (.inr (.inr ⟨memory, other, rfl, rfl⟩)))

private theorem stackPrefixes_append (out : List u8) (width : Width) :
    pushOSORIfWord out width = out ++ (stackPrefixes width).bytes :=
  pushOSORIfWord_eq out width

theorem stackTag_injective {first second : Bool} (same : stackTag first = stackTag second) :
    first = second := by
  cases first <;> cases second <;> first | rfl | cases same

theorem assembleMnemoPushPopTemplate_ok_iff (isPush : Bool) (out bytes : List u8) (width : Width) (a1 a2 : Arg) :
    assembleMnemoPushPopTemplate isPush out ⟨stackTag isPush, width, a1, a2⟩ = .ok bytes ↔
      Entry out ⟨stackTag isPush, width, a1, a2⟩ bytes := by
  constructor
  · intro accepted
    unfold assembleMnemoPushPopTemplate at accepted
    simp only [guard_ok] at accepted
    replace accepted := accepted.2
    split at accepted
    next r1 =>
      simp only [guard_ok, regToNumber_then, pure_ok, stackPrefixes_append] at accepted
      obtain ⟨wide, register, first, rfl⟩ := accepted
      refine ⟨_, _, _, .stackReg isPush rfl wide first, ?_⟩
      simp [encodingBytes]
    next memory =>
      simp only [guard_ok, memory_then, pure_ok, stackPrefixes_append] at accepted
      obtain ⟨wide, base, sib, place, rfl⟩ := accepted
      refine ⟨_, _, _, .stackMem isPush rfl wide place, ?_⟩
      cases isPush <;> simp [encodingBytes, ← stackPrefixes_bytes, pushMemoryForm_zero, pushMemoryForm_six]
    next imm =>
      simp only [guard_ok, opcode_then, appendImmUpto64_ok_iff] at accepted
      obtain ⟨pushing, narrow, size, sized, _, same, rfl⟩ := accepted
      cases sized.symm.trans same
      cases not_not.mp pushing
      have other : size ≠ .qword := by
        rintro rfl
        exact narrow (Width.ofSize_eq sized)
      refine ⟨_, _, _, .pushImm sized other, ?_⟩
      simp [encodingBytes]
    next => exact absurd accepted throw_ok
  · intro entry
    obtain ⟨found, opcode, body, encodes, rfl⟩ := entry
    unfold assembleMnemoPushPopTemplate
    simp only [guard_ok]
    refine ⟨by simp [stackTag], ?_⟩
    generalize tagged : stackTag isPush = tag at encodes
    cases encodes with
    | regReg operation same | memReg operation same | regMem operation same =>
      cases isPush <;> cases operation <;> cases tagged.trans same
    | movRegImm | movMemImm | addRegShort | addAccumulator | addRegImm | addMemImm | ret => cases isPush <;> cases tagged
    | stackReg other same wide first =>
      cases stackTag_injective (tagged.trans same)
      simp only [guard_ok, regToNumber_then, pure_ok, stackPrefixes_append]
      refine ⟨wide, _, first, ?_⟩
      simp [encodingBytes]
    | stackMem other same wide place =>
      cases stackTag_injective (tagged.trans same)
      simp only [guard_ok, memory_then, pure_ok, stackPrefixes_append]
      refine ⟨wide, _, _, place, ?_⟩
      cases isPush <;> simp [encodingBytes, ← stackPrefixes_bytes, pushMemoryForm_zero, pushMemoryForm_six]
    | pushImm sized narrow =>
      cases stackTag_injective (show stackTag isPush = stackTag true from tagged)
      simp only [guard_ok, opcode_then, appendImmUpto64_ok_iff]
      refine ⟨by simp, ?_, _, sized, _, sized, ?_⟩
      · rintro rfl
        cases sized
        exact narrow rfl
      · simp [encodingBytes]

end Cplastane.Assembly
