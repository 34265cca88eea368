import Cplastane.Assembly.Mnemo

/-! Printing operands, from `assembly.cxx`. The text is returned; what was printed
before an exception is not kept. -/

namespace Cplastane.Assembly

/-- One constructor for each message of the exceptions thrown while printing. -/
inductive PrintThrow where
  | unreachable
  | unsupportedRegister
  | unhandledTag
deriving DecidableEq, Repr

def PrintThrow.what : PrintThrow → String
  | unreachable => "unreachable"
  | unsupportedRegister => "unsupported register. print_reg"
  | unhandledTag => "unhandled mnemo.tag @ get_arity"

namespace Arg

def printReg : Reg → Except PrintThrow String
  | .al => .ok "al"
  | .bl => .ok "bl"
  | .cl => .ok "cl"
  | .dl => .ok "dl"
  | .ah => .ok "ah"
  | .bh => .ok "bh"
  | .ch => .ok "ch"
  | .dh => .ok "dh"
  | .ax => .ok "ax"
  | .bx => .ok "bx"
  | .cx => .ok "cx"
  | .dx => .ok "dx"
  | .eax => .ok "eax"
  | .ebx => .ok "ebx"
  | .ecx => .ok "ecx"
  | .edx => .ok "edx"
  | .esp => .ok "esp"
  | .ebp => .ok "ebp"
  | .esi => .ok "esi"
  | .edi => .ok "edi"
  | .rax => .ok "rax"
  | .rbx => .ok "rbx"
  | .rcx => .ok "rcx"
  | .rdx => .ok "rdx"
  | .rsp => .ok "rsp"
  | .rbp => .ok "rbp"
  | .rsi => .ok "rsi"
  | .rdi => .ok "rdi"
  | _ => .error .unsupportedRegister

def printScale : Scale → Except PrintThrow String
  | .s1 => .ok "1"
  | .s2 => .ok "2"
  | .s4 => .ok "4"
  | .s8 => .ok "8"
  | _ => .error .unreachable

/-- Index with scale, if there is one; the scale is left out if it is S1. -/
def printIndex (place : Memory) : Except PrintThrow String := do
  if place.scale ≠ .s0 then
    let index ← printReg place.index
    if place.scale ≠ .s1 then
      return " + " ++ index ++ " * " ++ (← printScale place.scale)
    return " + " ++ index
  return ""

/-- The displacement, if it is not zero. The absolute value of the least one does not
fit into an i32 and wraps around. -/
def printDisp (disp : Disp) : String :=
  if disp ≠ 0 then (if disp > 0 then " + " else " - ") ++ toString disp.abs.toInt else ""

def print : Arg → Except PrintThrow String
  | .immediate imm => .ok (toString imm.toInt)
  | .register reg => printReg reg
  | .memory place => do
    let base ← printReg place.base
    let index ← printIndex place
    return "[" ++ base ++ index ++ printDisp place.disp ++ "]"
  | .undef => .error .unreachable

end Arg

def Mnemo.getArity (mnemo : Mnemo) : Except PrintThrow u8 :=
  match mnemo.tag with
  | .mov | .add => .ok 2
  | .push | .pop => .ok 1
  | .ret => .ok 0
  | .undef => .error .unhandledTag

/-- What `mnemo_t::print` throws itself, and what the operands throw. -/
inductive MnemoPrintThrow where
  | unimplementedTag
  | unimplementedWidth
  | operand (error : PrintThrow)
deriving DecidableEq, Repr

def MnemoPrintThrow.what : MnemoPrintThrow → String
  | unimplementedTag => "unimplemented mnemo.tag"
  | unimplementedWidth => "unimplemented width_t. print_width"
  | operand error => error.what

namespace Mnemo

def printTag : Tag → Except MnemoPrintThrow String
  | .mov => .ok "mov"
  | .add => .ok "add"
  | .push => .ok "push"
  | .pop => .ok "pop"
  | .ret => .ok "ret"
  | .undef => .error .unimplementedTag

def printWidth : Width → Except MnemoPrintThrow String
  | .byte => .ok "BYTE"
  | .word => .ok "WORD"
  | .dword => .ok "DWORD"
  | .qword => .ok "QWORD"
  | .notSet => .ok "NotSet"
  | .undef => .error .unimplementedWidth

/-- What follows the name: as many operands as the arity, and no width without one. -/
def printOperands (mnemo : Mnemo) : Except MnemoPrintThrow String := do
  let arity ← mnemo.getArity.mapError .operand
  if arity ≥ 1 then
    let width ← printWidth mnemo.width
    let a1 ← mnemo.a1.print.mapError .operand
    if arity ≥ 2 then
      let a2 ← mnemo.a2.print.mapError .operand
      return " " ++ width ++ " " ++ a1 ++ " " ++ a2
    return " " ++ width ++ " " ++ a1
  return ""

def print (mnemo : Mnemo) : Except MnemoPrintThrow String := do
  let name ← printTag mnemo.tag
  let operands ← mnemo.printOperands
  return "mnemo_t(" ++ name ++ operands ++ ")"

end Mnemo

end Cplastane.Assembly
