import Cplastane.Assembly.Assemble
import Cplastane.X86.Encoding

/-! What the instruction structures stand for, in the terms of the processor. The
tables come from the register names and not from the encoder's numbers. -/

namespace Cplastane.Assembly
open X86

def Width.size : Width → Option Size
  | .byte => some .byte
  | .word => some .word
  | .dword => some .dword
  | .qword => some .qword
  | .undef | .notSet => none

def Reg.register : Reg → Option Register
  | .al => some (.gp .byte 0)
  | .cl => some (.gp .byte 1)
  | .dl => some (.gp .byte 2)
  | .bl => some (.gp .byte 3)
  | .ah => some (.high 0)
  | .ch => some (.high 1)
  | .dh => some (.high 2)
  | .bh => some (.high 3)
  | .ax => some (.gp .word 0)
  | .cx => some (.gp .word 1)
  | .dx => some (.gp .word 2)
  | .bx => some (.gp .word 3)
  | .sp => some (.gp .word 4)
  | .bp => some (.gp .word 5)
  | .si => some (.gp .word 6)
  | .di => some (.gp .word 7)
  | .eax => some (.gp .dword 0)
  | .ecx => some (.gp .dword 1)
  | .edx => some (.gp .dword 2)
  | .ebx => some (.gp .dword 3)
  | .esp => some (.gp .dword 4)
  | .ebp => some (.gp .dword 5)
  | .esi => some (.gp .dword 6)
  | .edi => some (.gp .dword 7)
  | .rax => some (.gp .qword 0)
  | .rcx => some (.gp .qword 1)
  | .rdx => some (.gp .qword 2)
  | .rbx => some (.gp .qword 3)
  | .rsp => some (.gp .qword 4)
  | .rbp => some (.gp .qword 5)
  | .rsi => some (.gp .qword 6)
  | .rdi => some (.gp .qword 7)
  | .undef => none

def Scale.factor : Scale → Option Nat
  | .s1 => some 1
  | .s2 => some 2
  | .s4 => some 4
  | .s8 => some 8
  | .undef | .s0 => none

def Memory.scaledIndex (memory : Memory) : Option (Option (Register × Nat)) :=
  if memory.scale = .s0 then some none
  else do
    let register ← memory.index.register
    let factor ← memory.scale.factor
    return some (register, factor)

def Memory.address (memory : Memory) : Option Address := do
  let base ← memory.base.register
  let index ← memory.scaledIndex
  return { size := base.size, base := .reg base, index, disp := memory.disp.toInt }

/-- An immediate field of the given size holds the low bytes of the immediate. -/
def immediateOperand (bytes : Nat) (imm : Imm) : Operand := .imm bytes (imm.toInt.bmod (256 ^ bytes))

def Arg.target : Arg → Option Operand
  | .register reg => reg.register.map .reg
  | .memory place => place.address.map .mem
  | .immediate _ | .undef => none

def Arg.source (bytes : Nat) : Arg → Option Operand
  | .immediate imm => some (immediateOperand bytes imm)
  | arg => arg.target

/-- Only `mov` to a register takes an immediate of eight bytes. -/
def Arg.immediateSize (target : Arg) (size : Size) : Nat :=
  match target with
  | .register _ => size.bytes
  | _ => size.immediate

def Mnemo.binary (mnemo : Mnemo) (operation : Operation) : Option Instruction := do
  let size ← mnemo.width.size
  let target ← mnemo.a1.target
  let source ← mnemo.a2.source (mnemo.a1.immediateSize size)
  return .binary operation size target source

/-- The instruction a mnemo stands for, written down without a look at its bytes. An immediate of
`push` is extended to the stack's operand size, which is 64 bits unless the width is Word. -/
def Mnemo.instruction (mnemo : Mnemo) : Option Instruction :=
  match mnemo.tag with
  | .mov => mnemo.binary .mov
  | .add => mnemo.binary .add
  | .push => do
    let size ← mnemo.width.size
    let source ← mnemo.a1.source size.bytes
    return .push (if size = .word then .word else .qword) source
  | .pop => do
    let size ← mnemo.width.size
    let target ← mnemo.a1.target
    return .pop size target
  | .ret => some .ret
  | .undef => none

end Cplastane.Assembly
