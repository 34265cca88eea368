import Cplastane.Proofs.MemoryForm

/-! The instructions the assembler accepts, as a table: for every shape, the
conditions on its operands and the prefixes, opcode and bytes it is given. -/

namespace Cplastane.Assembly
open X86

structure Opcodes where
  narrow : u8
  wide : u8

def Opcodes.select (opcodes : Opcodes) (size : Size) : u8 := if size = .byte then opcodes.narrow else opcodes.wide

def tagOf : Operation → Tag
  | .mov => .mov
  | .add => .add

def rmRegOpcodes : Operation → Opcodes
  | .mov => ⟨0x88, 0x89⟩
  | .add => ⟨0x00, 0x01⟩

def regRmOpcodes : Operation → Opcodes
  | .mov => ⟨0x8a, 0x8b⟩
  | .add => ⟨0x02, 0x03⟩

/-- `push` for true and `pop` for false. -/
def stackTag (isPush : Bool) : Tag := if isPush then .push else .pop

/-- An accepted memory operand: it has a base register, and one of the two forms has been chosen for
it. The encoder asks for no more, also where the processor reads another operand. -/
structure Memory.Encodable (memory : Memory) (base : Register) (sib : Option Fields) : Prop where
  based : memory.base.register = some base
  same : memory.SameWidth base
  chosen : memory.Chosen base sib

def memoryPrefixes (size : Size) (base : Register) : Prefixes :=
  { sizePrefixes size with address := base.size == .dword }

/-- The stack operations know the operand-size prefix only. -/
def stackPrefixes (width : Width) : Prefixes := { operand := width == .word }

/-- The one range test that is made for immediates: a QWORD form with only 32 bits of room takes
what is an i32 or a u32. All other immediates pass, whatever their size. -/
def FitsImm32 (size : Size) (imm : Imm) : Prop := size = .qword → canBeEncodedIn32Bits imm = true

/-- The test for the sign-extended 8-bit form of `add`. It lets through what is an i8 or a u8,
although the field is read back with its sign. -/
def Short (size : Size) (imm : Imm) : Prop := canBeEncodedIn8Bits imm = true ∧ size ≠ .byte

instance (size : Size) (imm : Imm) : Decidable (Short size imm) := inferInstanceAs (Decidable (_ ∧ _))

inductive Encodes : Mnemo → Prefixes → u8 → List u8 → Prop where
  | regReg (operation : Operation) {tag width size a1 a2 target source} (tagged : tag = tagOf operation)
      (sized : width.size = some size) (first : a1.register = some target) (second : a2.register = some source) :
      Encodes ⟨tag, width, .register a1, .register a2⟩ (sizePrefixes size)
        ((rmRegOpcodes operation).select size) [(Fields.mk 3 source.number target.number).byte]
  | memReg (operation : Operation) {tag width size memory base sib a2 source} (tagged : tag = tagOf operation)
      (sized : width.size = some size) (place : memory.Encodable base sib) (second : a2.register = some source) :
      Encodes ⟨tag, width, .memory memory, .register a2⟩ (memoryPrefixes size base)
        ((rmRegOpcodes operation).select size) (memory.formBytes base sib source.number)
  | regMem (operation : Operation) {tag width size a1 target memory base sib} (tagged : tag = tagOf operation)
      (sized : width.size = some size) (first : a1.register = some target) (place : memory.Encodable base sib) :
      Encodes ⟨tag, width, .register a1, .memory memory⟩ (memoryPrefixes size base)
        ((regRmOpcodes operation).select size) (memory.formBytes base sib target.number)
  | movRegImm {width size a1 target imm} (sized : width.size = some size)
      (first : a1.register = some target) :
      Encodes ⟨.mov, width, .register a1, .immediate imm⟩ (sizePrefixes size)
        ((Opcodes.mk 0xb0 0xb8).select size + UInt8.ofNat target.number.val) (littleEndian size.bytes imm.toInt)
  | movMemImm {width size memory base sib imm} (sized : width.size = some size)
      (place : memory.Encodable base sib) (fits : FitsImm32 size imm) :
      Encodes ⟨.mov, width, .memory memory, .immediate imm⟩ (memoryPrefixes size base)
        ((Opcodes.mk 0xc6 0xc7).select size)
        (memory.formBytes base sib 0 ++ littleEndian size.immediate imm.toInt)
  | addRegShort {width size a1 target imm} (sized : width.size = some size)
      (first : a1.register = some target) (short : Short size imm) :
      Encodes ⟨.add, width, .register a1, .immediate imm⟩ (sizePrefixes size) 0x83
        ((Fields.mk 3 0 target.number).byte :: littleEndian 1 imm.toInt)
  | addAccumulator {width size a1 imm} (sized : width.size = some size)
      (first : a1 = .al ∨ a1 = .ax ∨ a1 = .eax ∨ a1 = .rax) (long : ¬Short size imm) (fits : FitsImm32 size imm) :
      Encodes ⟨.add, width, .register a1, .immediate imm⟩ (sizePrefixes size)
        ((Opcodes.mk 0x04 0x05).select size) (littleEndian size.immediate imm.toInt)
  | addRegImm {width size a1 target imm} (sized : width.size = some size)
      (first : a1.register = some target) (other : ¬(a1 = .al ∨ a1 = .ax ∨ a1 = .eax ∨ a1 = .rax))
      (long : ¬Short size imm) (fits : FitsImm32 size imm) :
      Encodes ⟨.add, width, .register a1, .immediate imm⟩ (sizePrefixes size)
        ((Opcodes.mk 0x80 0x81).select size)
        ((Fields.mk 3 0 target.number).byte :: littleEndian size.immediate imm.toInt)
  | addMemImm {width size memory base sib imm} (sized : width.size = some size)
      (place : memory.Encodable base sib) (fits : FitsImm32 size imm) :
      Encodes ⟨.add, width, .memory memory, .immediate imm⟩ (memoryPrefixes size base)
        (if Short size imm then 0x83 else (Opcodes.mk 0x80 0x81).select size)
        (memory.formBytes base sib 0 ++ littleEndian size.immediate imm.toInt)
  | stackReg (isPush : Bool) {tag width a1 register a2} (tagged : tag = stackTag isPush)
      (wide : ¬(width = .byte ∨ width = .dword)) (first : a1.register = some register) :
      Encodes ⟨tag, width, .register a1, a2⟩ (stackPrefixes width)
        ((if isPush then 0x50 else 0x58) + UInt8.ofNat register.number.val) []
  | stackMem (isPush : Bool) {tag width memory base sib a2} (tagged : tag = stackTag isPush)
      (wide : ¬(width = .byte ∨ width = .dword)) (place : memory.Encodable base sib) :
      Encodes ⟨tag, width, .memory memory, a2⟩ { stackPrefixes width with address := base.size == .dword }
        (if isPush then 0xff else 0x8f) (memory.formBytes base sib (if isPush then 6 else 0))
  | pushImm {width size imm a2} (sized : width.size = some size) (narrow : size ≠ .qword) :
      Encodes ⟨.push, width, .immediate imm, a2⟩ (sizePrefixes size)
        ((Opcodes.mk 0x6a 0x68).select size) (littleEndian size.bytes imm.toInt)
  | ret {width a1 a2} : Encodes ⟨.ret, width, a1, a2⟩ {} 0xc3 []

def encodingBytes (found : Prefixes) (opcode : u8) (body : List u8) : List u8 := found.bytes ++ opcode :: body

end Cplastane.Assembly
