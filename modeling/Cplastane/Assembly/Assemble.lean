import Cplastane.Assembly.Encode

/-! The instruction encoders of `assembly.cxx`, one for each mnemonic, and the
loop over a program. -/

namespace Cplastane.Assembly

/-- A mnemo which operates on memory and a register, in either order: `MR` has
the memory operand first, `RM` second. -/
def assembleMemoryRegisterMnemosTemplate (out : List u8) (mnemo : Mnemo) (opcode1 opcode2 : u8) :
    Except Throw (List u8) := do
  let (memoryArg, registerArg) ← match mnemo.a1, mnemo.a2 with
    | .memory memory, .register reg => Except.ok (memory, reg)
    | .register reg, .memory memory => Except.ok (memory, reg)
    | _, _ => Except.error Throw.unexpectedShape
  let reg ← regToNumber registerArg
  let result ← assembleMemoryMnemo memoryArg
  let out ← pushASORIfDword out memoryArg
  let out ← pushOperandWidthPrefixesAndOpcode out mnemo.width opcode1 opcode2
  return pushMemoryForm out result reg memoryArg.disp

def assembleMnemoMov (out : List u8) (mnemo : Mnemo) : Except Throw (List u8) := do
  if mnemo.tag ≠ .mov then
    throw .movWrongMnemo
  match mnemo.a1, mnemo.a2 with
  | .register a1, .register a2 =>
    let rm ← regToNumber a1
    let reg ← regToNumber a2
    let out ← pushOperandWidthPrefixesAndOpcode out mnemo.width 0x88 0x89
    return out ++ [modAndRegAndRmToModrm 0b11 reg rm]
  | .register a1, .immediate a2 =>
    let opcodeShift ← regToNumber a1
    let out ← pushOperandWidthPrefixesAndOpcode out mnemo.width (0xb0 + opcodeShift) (0xb8 + opcodeShift)
    appendImmUpto64 out mnemo.width a2
  | .memory _, .register _ => assembleMemoryRegisterMnemosTemplate out mnemo 0x88 0x89
  | .register _, .memory _ => assembleMemoryRegisterMnemosTemplate out mnemo 0x8a 0x8b
  | .memory a1, .immediate a2 =>
    let reg := 0  -- exactly 0 (/digit value)
    let result ← assembleMemoryMnemo a1
    let out ← pushASORIfDword out a1
    let out ← pushOperandWidthPrefixesAndOpcode out mnemo.width 0xc6 0xc7
    let out := pushMemoryForm out result reg a1.disp
    let width ← assertImmNotLargerThan32Bits mnemo.width a2
      "Attempted to move immediate 64 bit value to memory using MOV @ assemble_mnemo_mov"
    appendImmUpto64 out width a2
  | _, _ => throw .movShape

def addImmTooLarge : String :=
  "Attempted to add immediate 64 bit value to memory using MOV @ assemble_mnemo_add"

def assembleMnemoAdd (out : List u8) (mnemo : Mnemo) : Except Throw (List u8) := do
  if mnemo.tag ≠ .add then
    throw .addWrongMnemo
  match mnemo.a1, mnemo.a2 with
  | .register a1, .register a2 =>
    let rm ← regToNumber a1
    let reg ← regToNumber a2
    let out ← pushOperandWidthPrefixesAndOpcode out mnemo.width 0x00 0x01
    return out ++ [modAndRegAndRmToModrm 0b11 reg rm]
  | .register a1, .immediate a2 =>
    if canBeEncodedIn8Bits a2 ∧ mnemo.width ≠ .byte then
      -- a sign-extended imm8
      let rm ← regToNumber a1
      let out ← pushOperandWidthPrefixesAndOpcode out mnemo.width 0xee 0x83
      let out := out ++ [modAndRegAndRmToModrm 0b11 0 rm]
      appendImmUpto64 out .byte a2
    else if a1 = .al ∨ a1 = .ax ∨ a1 = .eax ∨ a1 = .rax then
      let out ← pushOperandWidthPrefixesAndOpcode out mnemo.width 0x04 0x05
      let width ← assertImmNotLargerThan32Bits mnemo.width a2 addImmTooLarge
      appendImmUpto64 out width a2
    else
      let rm ← regToNumber a1
      let out ← pushOperandWidthPrefixesAndOpcode out mnemo.width 0x80 0x81
      let out := out ++ [modAndRegAndRmToModrm 0b11 0 rm]
      let width ← assertImmNotLargerThan32Bits mnemo.width a2 addImmTooLarge
      appendImmUpto64 out width a2
  | .memory _, .register _ => assembleMemoryRegisterMnemosTemplate out mnemo 0x00 0x01
  | .register _, .memory _ => assembleMemoryRegisterMnemosTemplate out mnemo 0x02 0x03
  | .memory a1, .immediate a2 =>
    let result ← assembleMemoryMnemo a1
    let out ← pushASORIfDword out a1
    let out ←
      if canBeEncodedIn8Bits a2 ∧ mnemo.width ≠ .byte then
        pushOperandWidthPrefixesAndOpcode out mnemo.width 0xee 0x83
      else
        pushOperandWidthPrefixesAndOpcode out mnemo.width 0x80 0x81
    let out := pushMemoryForm out result 0 a1.disp
    let width ← assertImmNotLargerThan32Bits mnemo.width a2 addImmTooLarge
    appendImmUpto64 out width a2
  | _, _ => throw .addShape

/-- `push` and `pop` differ in opcodes and in the inability of `pop` to accept an immediate. -/
def assembleMnemoPushPopTemplate (isPush : Bool) (out : List u8) (mnemo : Mnemo) : Except Throw (List u8) := do
  if mnemo.tag ≠ (if isPush then .push else .pop) then
    throw (.pushPopWrongMnemo isPush)
  match mnemo.a1 with
  | .register a1 =>
    -- In 64-bit mode, `push` and `pop` only accept 16-bit or 64-bit registers.
    if mnemo.width = .byte ∨ mnemo.width = .dword then
      throw (.pushPopRegister isPush)
    let opcode : u8 := if isPush then 0x50 else 0x58
    let opcode := opcode + (← regToNumber a1)
    return pushOSORIfWord out mnemo.width ++ [opcode]
  | .memory a1 =>
    if mnemo.width = .byte ∨ mnemo.width = .dword then
      throw (.pushPopMemory isPush)
    let opcode : u8 := if isPush then 0xff else 0x8f
    let reg : u8 := if isPush then 6 else 0
    let result ← assembleMemoryMnemo a1
    let out ← pushASORIfDword out a1
    let out := pushOSORIfWord out mnemo.width
    return pushMemoryForm (out ++ [opcode]) result reg a1.disp
  | .immediate a1 =>
    if ¬isPush then
      throw .popImmediate
    if mnemo.width = .qword then
      throw .pushWidth
    let out ← pushOperandWidthPrefixesAndOpcode out mnemo.width 0x6a 0x68
    appendImmUpto64 out mnemo.width a1
  | .undef => throw (.pushPopShape isPush)

def Mnemo.checkValidity (mnemo : Mnemo) : Except Throw Unit := do
  if mnemo.tag = .undef then
    throw .undefTag
  if mnemo.width = .undef then
    throw .undefWidth
  if let .register reg := mnemo.a1 then
    if (← registerWidth reg) ≠ mnemo.width then
      throw .arg1Width
  if let .register reg := mnemo.a2 then
    if (← registerWidth reg) ≠ mnemo.width then
      throw .arg2Width

def assembleMnemo (out : List u8) (mnemo : Mnemo) : Except Throw (List u8) := do
  mnemo.checkValidity
  match mnemo.tag with
  | .mov => assembleMnemoMov out mnemo
  | .add => assembleMnemoAdd out mnemo
  | .push => assembleMnemoPushPopTemplate true out mnemo
  | .pop => assembleMnemoPushPopTemplate false out mnemo
  | .ret => return out ++ [0xc3]
  | .undef => throw .unimplementedTag

def assemble (mnemos : List Mnemo) : Except Throw (List u8) :=
  mnemos.foldlM assembleMnemo []

end Cplastane.Assembly
