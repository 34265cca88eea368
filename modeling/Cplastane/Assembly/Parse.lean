import Cplastane.Parsec

/-! The parser of assembly text, `parse.cxx`. A run ends with a result, with a
parser error, or with an exception of the outer monad. -/

namespace Cplastane.Assembly
open Parsec

structure ParserError where
  what : String
  /-- `where` in the source. -/
  place : Strive
deriving DecidableEq, Repr

abbrev ParserResultResult (α : Type) := Except ParserError (ParserResult α)

/-- A run of a parsing function, from which exceptions escape. -/
abbrev Run := Except (Fault Throw)

variable {α : Type}

def makeError (place : Strive) (what : String) : ParserError := ⟨what, place⟩

/-- `Option::unwrap_or`. -/
def unwrapOr (option : OptionParserResult α) (error : ParserError) : ParserResultResult α :=
  match option with
  | some value => .ok value
  | none => .error error

def choices (tail : Strive) : List (String × α) → Run (OptionParserResult α)
  | [] => return none
  | (name, value) :: others => do
    match ← consumePrefixStr tail (.ofString name) value with
    | some result => return some result
    | none => choices tail others

def registerNames : List (String × Reg) :=
  [("al", .al), ("bl", .bl), ("cl", .cl), ("dl", .dl), ("ah", .ah), ("bh", .bh), ("ch", .ch), ("dh", .dh),
   ("ax", .ax), ("bx", .bx), ("cx", .cx), ("dx", .dx), ("sp", .sp), ("bp", .bp), ("si", .si), ("di", .di),
   ("eax", .eax), ("ebx", .ebx), ("ecx", .ecx), ("edx", .edx), ("esp", .esp), ("ebp", .ebp), ("esi", .esi),
   ("edi", .edi),
   ("rax", .rax), ("rbx", .rbx), ("rcx", .rcx), ("rdx", .rdx), ("rsp", .rsp), ("rbp", .rbp), ("rsi", .rsi),
   ("rdi", .rdi)]

def mnemoNames : List (String × Tag) :=
  [("mov", .mov), ("add", .add), ("push", .push), ("pop", .pop), ("ret", .ret)]

def widthNames : List (String × Width) :=
  [("BYTE", .byte), ("WORD", .word), ("DWORD", .dword), ("QWORD", .qword), ("NotSet", .notSet)]

def parseRegister (tail : Strive) : Run (ParserResultResult Reg) := do
  return unwrapOr (← choices tail registerNames) (makeError tail "expected register")

def parseMnemoName (tail : Strive) : Run (ParserResultResult Tag) := do
  return unwrapOr (← choices tail mnemoNames) (makeError tail "expected mnemo name")

def parseMnemoWidth (tail : Strive) : Run (ParserResultResult Width) := do
  return unwrapOr (← choices tail widthNames) (makeError tail "expected instruction size")

/-- The switch over a scale literal. -/
def scaleOfLiteral (n : i64) : Except Throw Scale :=
  if n = 0 then .ok .s0
  else if n = 1 then .ok .s1
  else if n = 2 then .ok .s2
  else if n = 4 then .ok .s4
  else if n = 8 then .ok .s8
  else .error .scaleLiteral

def escape (result : Except Throw α) : Run α := result.mapError .thrown

/-- "Maybe parse an index with scale" of `parse_arg`: the index register is kept, and
its text consumed, also when no scale follows. -/
def parseIndex (tail : Strive) : Run (Strive × Reg × Scale) := do
  match unwrapOr (← consumePrefixStr tail (.ofString " + ") ()) (makeError tail "todo2") with
  | .error _ => return (tail, .undef, .s0)
  | .ok c =>
    match ← parseRegister c.tail with
    | .error _ => return (tail, .undef, .s0)
    | .ok d =>
      match unwrapOr (← consumePrefixStr d.tail (.ofString " * ") ()) (makeError d.tail "todo3") with
      | .error _ => return (d.tail, d.data, .s0)
      | .ok e =>
        match unwrapOr (← parseI64 e.tail) (makeError e.tail "expected int literal") with
        | .error _ => return (d.tail, d.data, .s0)
        | .ok f => return (f.tail, d.data, ← escape (scaleOfLiteral f.data))

/-- The optional displacement of `parse_arg`. -/
def parseDisp (tail : Strive) : Run (Strive × Disp) := do
  match unwrapOr (← consumePrefixStr tail (.ofString " + ") ()) (makeError tail "todo4") with
  | .error _ => return (tail, 0)
  | .ok c =>
    match unwrapOr (← parseI64 c.tail) (makeError c.tail "todo5") with
    | .error _ => return (tail, 0)
    | .ok d => return (d.tail, d.data.toInt32)

def parseArg (tail : Strive) : Run (ParserResultResult Arg) := do
  match unwrapOr (← parseI64 tail) (makeError tail "expected int literal") with
  | .ok a1 => return .ok ⟨a1.tail, .immediate a1.data⟩
  | .error _ =>
    match ← parseRegister tail with
    | .ok a2 => return .ok ⟨a2.tail, .register a2.data⟩
    | .error _ =>
      match unwrapOr (← consumePrefixChar tail '[') (makeError tail "expected a memory argument") with
      | .error error => return .error error
      | .ok a =>
        match ← parseRegister a.tail with
        | .error error => return .error error
        | .ok b =>
          let (tail, index, scale) ← parseIndex b.tail
          let (tail, disp) ← parseDisp tail
          match unwrapOr (← consumePrefixChar tail ']') (makeError tail "expected '['") with
          | .error error => return .error error
          | .ok c => return .ok ⟨c.tail, ← escape (Arg.mem b.data index scale disp)⟩

/-- The operands of `parse_line`. Without a first one the tail stays where it is; a
second one has to follow a comma. -/
def parseOperands (tail : Strive) : Run (ParserResultResult (Arg × Arg)) := do
  match ← parseArg tail with
  | .error _ => return .ok ⟨tail, .undef, .undef⟩
  | .ok d =>
    match unwrapOr (← consumePrefixStr d.tail (.ofString ", ") ()) (makeError d.tail "expected ', '") with
    | .error _ => return .ok ⟨d.tail, d.data, .undef⟩
    | .ok e =>
      match ← parseArg e.tail with
      | .error error => return .error error
      | .ok f => return .ok ⟨f.tail, d.data, f.data⟩

def parseLine (tail : Strive) : Run (ParserResultResult Mnemo) := do
  match ← parseMnemoName tail with
  | .error error => return .error error
  | .ok a =>
    let b ← skipWhileChar a.tail (· = ' ')
    let (tail, width) ← do
      match ← parseMnemoWidth b.tail with
      | .ok c => pure (c.tail, c.data)
      | .error _ => pure (b.tail, Width.notSet)
    let c ← skipWhileChar tail (· = ' ')
    match ← parseOperands c.tail with
    | .error error => return .error error
    | .ok operands =>
      let tail := operands.tail
      match unwrapOr (← consumePrefixChar tail '\n') (makeError tail "expected a newline") with
      | .error error => return .error error
      | .ok d => return .ok ⟨d.tail, { tag := a.data, width, a1 := operands.data.1, a2 := operands.data.2 }⟩

/-- The loop of `parse`. It has no counter in the source: without progress of
`parse_line` it would not end. -/
def parseLines (tail : Strive) (result : List Mnemo) : Run (ParserResultResult (List Mnemo)) :=
  if tail.empty then .ok (.ok ⟨tail, result⟩)
  else
    match parseLine tail with
    | .error fault => .error fault
    | .ok (.error error) => .ok (.error error)
    | .ok (.ok result1) =>
      if result1.tail.size < tail.size then parseLines result1.tail (result ++ [result1.data])
      else .error .diverges
termination_by tail.size

def parse (tail : Strive) : Run (ParserResultResult (List Mnemo)) := parseLines tail []

end Cplastane.Assembly
