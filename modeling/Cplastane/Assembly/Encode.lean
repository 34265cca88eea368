import Cplastane.Assembly.Mnemo

/-! The encoding helpers of `assembly.cxx`. The output vector is passed along
explicitly, and a helper that can throw returns the extended vector in `Except`. -/

namespace Cplastane.Assembly

/-- True if n is in union of sets of valid values for i32 and u32. -/
def canBeEncodedIn32Bits (n : i64) : Bool := -2147483648 ≤ n && n ≤ 4294967295

/-- True if n is in union of sets of valid values for i8 and u8. -/
def canBeEncodedIn8Bits (n : i64) : Bool := -128 ≤ n && n ≤ 255

def registerWidth : Reg → Except Throw Width
  | .al | .bl | .cl | .dl | .ah | .bh | .ch | .dh => .ok .byte
  | .ax | .bx | .cx | .dx | .sp | .bp | .si | .di => .ok .word
  | .eax | .ebx | .ecx | .edx | .esp | .ebp | .esi | .edi => .ok .dword
  | .rax | .rbx | .rcx | .rdx | .rsp | .rbp | .rsi | .rdi => .ok .qword
  | .undef => .error .registerWidth

/-- Converts a register to the number usable in ModR/M and reg fields of instruction encoding. -/
def regToNumber : Reg → Except Throw u8
  | .al | .ax | .eax | .rax => .ok 0b000
  | .cl | .cx | .ecx | .rcx => .ok 0b001
  | .dl | .dx | .edx | .rdx => .ok 0b010
  | .bl | .bx | .ebx | .rbx => .ok 0b011
  | .ah | .sp | .esp | .rsp => .ok 0b100
  | .ch | .bp | .ebp | .rbp => .ok 0b101
  | .dh | .si | .esi | .rsi => .ok 0b110
  | .bh | .di | .edi | .rdi => .ok 0b111
  | .undef => .error .regToNumber

/-- S0 is not encoded with SS but with Index bits equal to 0b100, so it is handled by the caller. -/
def scaleToNum : Scale → Except Throw u8
  | .s0 => .error .scaleIsS0
  | .s1 => .ok 0b00
  | .s2 => .ok 0b01
  | .s4 => .ok 0b10
  | .s8 => .ok 0b11
  | .undef => .error .scaleIsUndef

def modAndRegAndRmToModrm (mod reg rm : u8) : u8 := (mod <<< 6) ||| (reg <<< 3) ||| (rm <<< 0)

def scaleAndIndexAndBaseToSib (scale index base : u8) : u8 := (scale <<< 6) ||| (index <<< 3) ||| (base <<< 0)

/-- For mnemos that only allow imms up to 32 bits; returns the updated width.
The 32 bit value will be sign-extended in memory to 64 bits. -/
def assertImmNotLargerThan32Bits (width : Width) (imm : Imm) (msg : String) : Except Throw Width :=
  if width = .qword then
    if canBeEncodedIn32Bits imm then .ok .dword else .error (.immTooLarge msg)
  else .ok width

def pushASORIfDword (out : List u8) (memoryField : Memory) : Except Throw (List u8) := do
  if memoryField.index ≠ .undef then
    if (← registerWidth memoryField.index) ≠ (← registerWidth memoryField.base) then
      throw .addressWidths
  if (← registerWidth memoryField.base) = .dword then
    return out ++ [0x67]
  return out

def pushOSORIfWord (out : List u8) (width : Width) : List u8 :=
  if width = .word then out ++ [0x66] else out

def pushRexIfQword (out : List u8) (width : Width) : List u8 :=
  if width = .qword then out ++ [0b01001000] else out

def appendDisp (out : List u8) (aDisp : Disp) : List u8 :=
  if aDisp = 0 then out
  else if -128 ≤ aDisp ∧ aDisp ≤ 127 then out ++ [aDisp.toInt8.toUInt8]
  else
    let disp := aDisp
    let out := out ++ [(disp &&& 0xff).toInt8.toUInt8]
    let disp := disp >>> 8
    let out := out ++ [(disp &&& 0xff).toInt8.toUInt8]
    let disp := disp >>> 8
    let out := out ++ [(disp &&& 0xff).toInt8.toUInt8]
    let disp := disp >>> 8
    out ++ [(disp &&& 0xff).toInt8.toUInt8]

def appendImmUpto64 (out : List u8) (width : Width) (aImm : Imm) : Except Throw (List u8) :=
  match width with
  | .byte => .ok (out ++ [aImm.toInt8.toUInt8])
  | .word =>
    let imm := aImm.toInt16
    let out := out ++ [(imm &&& 0xff).toInt8.toUInt8]
    let imm := imm >>> 8
    .ok (out ++ [(imm &&& 0xff).toInt8.toUInt8])
  | .dword =>
    let imm := aImm.toInt32
    let out := out ++ [(imm &&& 0xff).toInt8.toUInt8]
    let imm := imm >>> 8
    let out := out ++ [(imm &&& 0xff).toInt8.toUInt8]
    let imm := imm >>> 8
    let out := out ++ [(imm &&& 0xff).toInt8.toUInt8]
    let imm := imm >>> 8
    .ok (out ++ [(imm &&& 0xff).toInt8.toUInt8])
  | .qword =>
    let imm := aImm
    let out := out ++ [(imm &&& 0xff).toInt8.toUInt8]
    let imm := imm >>> 8
    let out := out ++ [(imm &&& 0xff).toInt8.toUInt8]
    let imm := imm >>> 8
    let out := out ++ [(imm &&& 0xff).toInt8.toUInt8]
    let imm := imm >>> 8
    let out := out ++ [(imm &&& 0xff).toInt8.toUInt8]
    let imm := imm >>> 8
    let out := out ++ [(imm &&& 0xff).toInt8.toUInt8]
    let imm := imm >>> 8
    let out := out ++ [(imm &&& 0xff).toInt8.toUInt8]
    let imm := imm >>> 8
    let out := out ++ [(imm &&& 0xff).toInt8.toUInt8]
    let imm := imm >>> 8
    .ok (out ++ [(imm &&& 0xff).toInt8.toUInt8])
  | _ => .error .appendImmWidth

/-- Pushes opcode1 if width = byte, else opcode2. -/
def pushOperandWidthPrefixesAndOpcode (out : List u8) (width : Width) (opcode1 opcode2 : u8) :
    Except Throw (List u8) :=
  let out := pushOSORIfWord out width
  let out := pushRexIfQword out width
  match width with
  | .byte => .ok (out ++ [opcode1])
  | .word | .dword | .qword => .ok (out ++ [opcode2])
  | _ => .error .operandWidth

structure AssembleMemoryMnemoResult where
  mod : u8
  rm : u8
  sib : u8
  /-- Whether sib was returned: not for short form memory addressing, but for long form. -/
  sibEh : Bool
deriving DecidableEq, Repr

def assembleMemoryMnemo (memory : Memory) : Except Throw AssembleMemoryMnemoResult := do
  let mod : u8 :=
    if memory.disp = 0 then 0b00
    else if -128 ≤ memory.disp ∧ memory.disp ≤ 127 then 0b01
    else 0b10
  -- Short address form does not allow using "index"/"scale" or "esp"/"rsp" as a base
  -- register. It also disallows using "ebp" base without displacement.
  let isShort : Bool := !(memory.scale ≠ .s0 || memory.base = .esp || memory.base = .rsp ||
    (memory.disp = 0 && memory.base = .rbp))
  if isShort then
    let rm ← regToNumber memory.base
    return { mod, rm, sib := 0b11111111, sibEh := false }
  else
    -- SIB addressing reuses ebp under mod 00 for "no base" and esp for "no index".
    if (mod = 0b00 ∧ memory.base = .ebp) ∨ memory.index = .esp then
      throw .unsupportedOperation
    if memory.scale = .s0 then
      let base ← regToNumber memory.base
      return { mod, rm := 0b100, sib := scaleAndIndexAndBaseToSib 0b00 0b100 base, sibEh := true }
    else
      let scale ← scaleToNum memory.scale
      let index ← regToNumber memory.index
      let base ← regToNumber memory.base
      return { mod, rm := 0b100, sib := scaleAndIndexAndBaseToSib scale index base, sibEh := true }

def pushMemoryForm (out : List u8) (result : AssembleMemoryMnemoResult) (reg : u8) (disp : Disp) : List u8 :=
  let out := out ++ [modAndRegAndRmToModrm result.mod reg result.rm]
  let out := if result.sibEh then out ++ [result.sib] else out
  appendDisp out disp

end Cplastane.Assembly
