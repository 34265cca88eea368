import Cplastane.X86.LittleEndian

/-! Reference decoding in 64-bit mode: the prefixes 67, 66 and REX.W, one-byte
opcodes of mov, add, push, pop and ret, ModRM, SIB, displacements and immediates.
Bytes outside this fragment do not decode. -/

namespace X86

inductive Size where
  | byte
  | word
  | dword
  | qword
deriving DecidableEq, Repr

namespace Size

def bytes : Size → Nat
  | byte => 1
  | word => 2
  | dword => 4
  | qword => 8

/-- A full immediate has the operand's size, but never more than four bytes. -/
def immediate (size : Size) : Nat := min size.bytes 4

end Size

/-- Fields have two or three bits. -/
instance twoBits : NeZero 4 := ⟨by decide⟩

instance threeBits : NeZero 8 := ⟨by decide⟩

/-- The registers reachable without REX.R, REX.X and REX.B, by number. A number means a register
only together with a size, and for bytes with whether there is a REX prefix. -/
inductive Register where
  | gp (size : Size) (number : Fin 8)
  /-- Bits 8 to 15 of the first four registers: ah, ch, dh and bh. -/
  | high (number : Fin 4)
deriving DecidableEq, Repr

/-- Byte registers 4 to 7 are the high bytes unless a REX prefix is present. -/
def Register.decode (rex : Bool) (size : Size) (number : Fin 8) : Register :=
  if size = .byte ∧ rex = false ∧ 4 ≤ number.val then .high (Fin.ofNat 4 (number.val - 4)) else .gp size number

/-- ModRM and SIB share one layout of two, three and three bits. -/
structure Fields where
  top : Fin 4
  middle : Fin 8
  low : Fin 8
deriving DecidableEq, Repr

def fields (byte : UInt8) : Fields where
  top := ⟨byte.toNat / 64, by have bound := byte.toNat_lt; omega⟩
  middle := ⟨byte.toNat / 8 % 8, by omega⟩
  low := ⟨byte.toNat % 8, by omega⟩

structure Prefixes where
  address : Bool := false
  operand : Bool := false
  rexW : Bool := false
deriving DecidableEq, Repr

namespace Prefixes

def addressSize (found : Prefixes) : Size := if found.address then .dword else .qword

/-- REX.W takes precedence over the operand-size override. -/
def operandSize (found : Prefixes) : Size :=
  if found.rexW then .qword else if found.operand then .word else .dword

/-- Stack operations default to 64 bits and have no 32-bit form. -/
def stackSize (found : Prefixes) : Size :=
  if found.rexW then .qword else if found.operand then .word else .qword

end Prefixes

/-- REX must be the last prefix, so nothing is looked for behind it. -/
def prefixes (found : Prefixes) : List UInt8 → Prefixes × List UInt8
  | [] => (found, [])
  | byte :: bytes =>
    if byte = 0x67 then prefixes { found with address := true } bytes
    else if byte = 0x66 then prefixes { found with operand := true } bytes
    else if byte = 0x48 then ({ found with rexW := true }, bytes)
    else (found, byte :: bytes)

inductive Base where
  | absent
  | ip
  | reg (register : Register)
deriving DecidableEq, Repr

/-- What ModRM and SIB select, before the displacement is read. -/
structure Form where
  reg : Fin 8
  addressSize : Size
  base : Base
  index : Option (Register × Nat)
  dispSize : Nat
deriving DecidableEq, Repr

/-- Number 5 under mod 00 means a 32-bit displacement in place of the base. It is the number that
counts, not the register or its size. -/
def dispSize (mod : Fin 4) (number : Fin 8) : Nat :=
  if mod = 0 then (if number = 5 then 4 else 0) else if mod = 1 then 1 else 4

def shortForm (address : Size) (modrm : Fields) : Form where
  reg := modrm.middle
  addressSize := address
  base := if modrm.top = 0 ∧ modrm.low = 5 then .ip else .reg (.gp address modrm.low)
  index := none
  dispSize := dispSize modrm.top modrm.low

def longForm (address : Size) (modrm sib : Fields) : Form where
  reg := modrm.middle
  addressSize := address
  base := if modrm.top = 0 ∧ sib.low = 5 then .absent else .reg (.gp address sib.low)
  index := if sib.middle = 4 then none else some (.gp address sib.middle, 2 ^ sib.top.val)
  dispSize := dispSize modrm.top sib.low

/-- The addressing form of a memory operand; `rm = 100` announces a SIB byte. -/
def form (address : Size) : List UInt8 → Option (Form × List UInt8)
  | [] => none
  | modrm :: bytes =>
    if (fields modrm).top = 3 then none
    else if (fields modrm).low = 4 then
      match bytes with
      | [] => none
      | sib :: bytes => some (longForm address (fields modrm) (fields sib), bytes)
    else some (shortForm address (fields modrm), bytes)

structure Address where
  size : Size
  base : Base
  index : Option (Register × Nat)
  disp : Int
deriving DecidableEq, Repr

def Form.address (form : Form) (disp : Int) : Address := ⟨form.addressSize, form.base, form.index, disp⟩

def memory (address : Size) (bytes : List UInt8) : Option (Fin 8 × Address × List UInt8) := do
  let (form, bytes) ← form address bytes
  let (disp, bytes) ← field form.dispSize bytes
  return (form.reg, form.address disp, bytes)

inductive Operand where
  | reg (register : Register)
  | mem (address : Address)
  /-- A field of so many bytes and its sign-extended value. -/
  | imm (bytes : Nat) (value : Int)
deriving DecidableEq, Repr

inductive Operation where
  | mov
  | add
deriving DecidableEq, Repr

inductive Instruction where
  | binary (operation : Operation) (size : Size) (target source : Operand)
  | push (size : Size) (source : Operand)
  | pop (size : Size) (target : Operand)
  | ret
deriving DecidableEq, Repr

/-- The operand layouts of the opcode map. A `wide` opcode has the operand size
of its prefixes, any other works on bytes; a `short` one has an 8-bit immediate. -/
inductive Layout where
  | rmReg (operation : Operation) (wide : Bool)
  | regRm (operation : Operation) (wide : Bool)
  | rmImm (operation : Operation) (wide short : Bool)
  | accumulator (operation : Operation) (wide : Bool)
  | regImm (wide : Bool) (number : Fin 8)
  | pushReg (number : Fin 8)
  | popReg (number : Fin 8)
  | pushRm
  | popRm
  | pushImm (short : Bool)
  | ret
deriving DecidableEq, Repr

def layout (opcode : UInt8) : Option Layout :=
  match opcode.toNat / 8 with
  | 0x0a => some (.pushReg (fields opcode).low)
  | 0x0b => some (.popReg (fields opcode).low)
  | 0x16 => some (.regImm false (fields opcode).low)
  | 0x17 => some (.regImm true (fields opcode).low)
  | _ =>
    match opcode.toNat with
    | 0x00 => some (.rmReg .add false)
    | 0x01 => some (.rmReg .add true)
    | 0x02 => some (.regRm .add false)
    | 0x03 => some (.regRm .add true)
    | 0x04 => some (.accumulator .add false)
    | 0x05 => some (.accumulator .add true)
    | 0x68 => some (.pushImm false)
    | 0x6a => some (.pushImm true)
    | 0x80 => some (.rmImm .add false false)
    | 0x81 => some (.rmImm .add true false)
    | 0x83 => some (.rmImm .add true true)
    | 0x88 => some (.rmReg .mov false)
    | 0x89 => some (.rmReg .mov true)
    | 0x8a => some (.regRm .mov false)
    | 0x8b => some (.regRm .mov true)
    | 0x8f => some .popRm
    | 0xc3 => some .ret
    | 0xc6 => some (.rmImm .mov false false)
    | 0xc7 => some (.rmImm .mov true false)
    | 0xff => some .pushRm
    | _ => none

def Layout.immediateSize (found : Prefixes) : Layout → Nat
  | rmImm _ wide short => if wide ∧ ¬short then found.operandSize.immediate else 1
  | accumulator _ wide => if wide then found.operandSize.immediate else 1
  | regImm wide _ => if wide then found.operandSize.bytes else 1
  | pushImm short => if short then 1 else found.operandSize.immediate
  | _ => 0

/-- The opcode extensions in ModRM: `/0` for mov, add and pop, `/6` for push. -/
def Layout.digit : Layout → Option (Fin 8)
  | rmImm _ _ _ => some 0
  | popRm => some 0
  | pushRm => some 6
  | _ => none

def operandSize (found : Prefixes) (wide : Bool) : Size := if wide then found.operandSize else .byte

def rm (found : Prefixes) (size : Size) : List UInt8 → Option (Fin 8 × Operand × List UInt8)
  | [] => none
  | modrm :: bytes =>
    if (fields modrm).top = 3 then
      some ((fields modrm).middle, .reg (.decode found.rexW size (fields modrm).low), bytes)
    else (memory found.addressSize (modrm :: bytes)).map (fun (reg, address, rest) => (reg, .mem address, rest))

def rmDigit (found : Prefixes) (size : Size) (digit : Option (Fin 8)) (bytes : List UInt8) :
    Option (Operand × List UInt8) := do
  let (reg, operand, bytes) ← rm found size bytes
  if digit = some reg then some (operand, bytes) else none

def immediate (size : Nat) (bytes : List UInt8) : Option (Operand × List UInt8) :=
  (field size bytes).map fun (value, rest) => (.imm size value, rest)

def operands (found : Prefixes) (layout : Layout) (bytes : List UInt8) : Option (Instruction × List UInt8) :=
  match layout with
  | .rmReg operation wide => do
    let size := operandSize found wide
    let (reg, operand, bytes) ← rm found size bytes
    return (.binary operation size operand (.reg (.decode found.rexW size reg)), bytes)
  | .regRm operation wide => do
    let size := operandSize found wide
    let (reg, operand, bytes) ← rm found size bytes
    return (.binary operation size (.reg (.decode found.rexW size reg)) operand, bytes)
  | .rmImm operation wide _ => do
    let size := operandSize found wide
    let (operand, bytes) ← rmDigit found size layout.digit bytes
    let (source, bytes) ← immediate (layout.immediateSize found) bytes
    return (.binary operation size operand source, bytes)
  | .accumulator operation wide => do
    let size := operandSize found wide
    let (source, bytes) ← immediate (layout.immediateSize found) bytes
    return (.binary operation size (.reg (.decode found.rexW size 0)) source, bytes)
  | .regImm wide number => do
    let size := operandSize found wide
    let (source, bytes) ← immediate (layout.immediateSize found) bytes
    return (.binary .mov size (.reg (.decode found.rexW size number)) source, bytes)
  | .pushReg number => some (.push found.stackSize (.reg (.gp found.stackSize number)), bytes)
  | .popReg number => some (.pop found.stackSize (.reg (.gp found.stackSize number)), bytes)
  | .pushRm => do
    let (operand, bytes) ← rmDigit found found.stackSize layout.digit bytes
    return (.push found.stackSize operand, bytes)
  | .popRm => do
    let (operand, bytes) ← rmDigit found found.stackSize layout.digit bytes
    return (.pop found.stackSize operand, bytes)
  | .pushImm _ => do
    let (source, bytes) ← immediate (layout.immediateSize found) bytes
    return (.push found.stackSize source, bytes)
  | .ret => some (.ret, bytes)

/-- Prefixes and opcode, the part of an instruction that decides the shape of the rest. -/
def head (bytes : List UInt8) : Option (Prefixes × UInt8 × List UInt8) :=
  match prefixes {} bytes with
  | (_, []) => none
  | (found, opcode :: bytes) => some (found, opcode, bytes)

/-- One instruction off the front of the stream, and what is behind it. Whatever is not of the
fragment has no instruction; the stream may be longer than one. -/
def decode (bytes : List UInt8) : Option (Instruction × List UInt8) := do
  let (found, opcode, bytes) ← head bytes
  operands found (← layout opcode) bytes

/-- A whole stream, instruction after instruction, with no byte left over. Each instruction starts
where the one before it ends. -/
inductive Decodes : List UInt8 → List Instruction → Prop where
  | done : Decodes [] []
  | step {bytes rest instruction instructions} (decoded : decode bytes = some (instruction, rest))
      (remaining : Decodes rest instructions) : Decodes bytes (instruction :: instructions)

end X86
