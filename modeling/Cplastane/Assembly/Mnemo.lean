import Mathlib.Algebra.Group.Int.Defs
import Mathlib.Algebra.Group.Nat.Defs

/-! The instruction structures of `assembly.hxx` and the exceptions thrown on
them. Machine integers are Lean's fixed-width types. -/

namespace Cplastane

abbrev i16 := Int16
abbrev i32 := Int32
abbrev i64 := Int64
abbrev u8 := UInt8

namespace Assembly

abbrev Disp := i32
abbrev Imm := i64

inductive Reg where
  | undef
  | al | bl | cl | dl | ah | bh | ch | dh
  | ax | bx | cx | dx | sp | bp | si | di
  | eax | ebx | ecx | edx | esp | ebp | esi | edi
  | rax | rbx | rcx | rdx | rsp | rbp | rsi | rdi
deriving DecidableEq, Repr

inductive Scale where
  | undef
  | s0
  | s1
  | s2
  | s4
  | s8
deriving DecidableEq, Repr

/-- `memory_t`. If the scale is S0, the index register should be Undef; values
are only built by `Arg.mem`, which enforces it. -/
structure Memory where
  base : Reg
  index : Reg
  scale : Scale
  disp : Disp
  unscaled : scale = .s0 → index = .undef
deriving DecidableEq, Repr

/-- `arg_t`, whose tag says which member of the union is present. -/
inductive Arg where
  | undef
  | immediate (imm : Imm)
  | register (reg : Reg)
  | memory (memory : Memory)
deriving DecidableEq, Repr

inductive Tag where
  | undef
  | mov
  | add
  | push
  | pop
  | ret
deriving DecidableEq, Repr

inductive Width where
  | undef
  /-- Used in instructions which don't care about width like `ret`. -/
  | notSet
  | byte
  | word
  | dword
  | qword
deriving DecidableEq, Repr

structure Mnemo where
  tag : Tag
  width : Width
  a1 : Arg
  a2 : Arg
deriving DecidableEq, Repr

/-- One constructor for each place that throws. -/
inductive Throw where
  | registerWidth
  | regToNumber
  | scaleIsS0
  | scaleIsUndef
  | immTooLarge (msg : String)
  | addressWidths
  | appendImmWidth
  | operandWidth
  | unsupportedOperation
  | unexpectedShape
  | movWrongMnemo
  | movShape
  | addWrongMnemo
  | addShape
  | pushPopWrongMnemo (isPush : Bool)
  | pushPopRegister (isPush : Bool)
  | pushPopMemory (isPush : Bool)
  | popImmediate
  | pushWidth
  | pushPopShape (isPush : Bool)
  | unimplementedTag
  | undefTag
  | undefWidth
  | arg1Width
  | arg2Width
  | indexWithoutScale
  | scaleLiteral
deriving DecidableEq, Repr

def Throw.what : Throw → String
  | registerWidth => "Unsupported register! register_width"
  | regToNumber => "Unsupported register!"
  | scaleIsS0 => "Unexpected scale_t::S0 @ scale_to_num"
  | scaleIsUndef => "Scale is Undef."
  | immTooLarge msg => msg
  | addressWidths => "Assertion failed: index and base fields have differing widths @ push_ASOR_if_dword"
  | appendImmWidth => "Unsupported width! @ append_imm_upto_64"
  | operandWidth => "Unsupported width!"
  | unsupportedOperation => "Unsupported operation."
  | unexpectedShape => "Unexpected mnemo shape @ assemble_memory_register_mnemos_template"
  | movWrongMnemo | addWrongMnemo | pushPopWrongMnemo _ => "Wrong mnemo!"
  | movShape => "Unsupported mov shape!"
  | addShape => "Unsupported add shape!"
  | pushPopRegister isPush | pushPopMemory isPush =>
    "Unsupported register @ assemble_mnemo_" ++ (if isPush then "push" else "pop")
  | popImmediate => "Cannot `pop` into an immediate value."
  | pushWidth => "Unsupported width! @ assemble_mnemo_push"
  | pushPopShape isPush => "Unsupported mnemo shape @ assemble_mnemo_" ++ (if isPush then "push" else "pop")
  | unimplementedTag => "Unimplemented mnemo.tag!"
  | undefTag => "mnemo has Undef tag. assemble_mnemo"
  | undefWidth => "mnemo has Undef width. assemble_mnemo"
  | arg1Width => "arg1 register width does not match instruction width"
  | arg2Width => "arg2 register width does not match instruction width"
  | indexWithoutScale => "if scale is S0, the index register should be Undef"
  | scaleLiteral => "scale should be one of: 0 1 2 4 8"

namespace Arg

/-- `arg_t::mem`. -/
def mem (base index : Reg) (scale : Scale) (disp : Disp) : Except Throw Arg :=
  if scaled : scale = .s0 ∧ index ≠ .undef then .error .indexWithoutScale
  else .ok (.memory ⟨base, index, scale, disp, fun zero => Decidable.byContradiction fun some => scaled ⟨zero, some⟩⟩)

end Arg

end Assembly
end Cplastane
