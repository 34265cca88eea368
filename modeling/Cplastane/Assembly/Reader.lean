import Cplastane.Assembly.Parse
import Cplastane.Text.Scan

/-! The parser as functions on the remaining text. A reader that fails names the
remaining text at the place of its error; an exception ends the reading. -/

namespace Cplastane.Assembly
open Parsec Text

structure Failure where
  what : String
  rest : List Char
deriving DecidableEq, Repr

abbrev Reading (α : Type) := Except Failure (α × List Char)

variable {α : Type}

def orFail (read : Option (α × List Char)) (what : String) (text : List Char) : Reading α :=
  match read with
  | some result => .ok result
  | none => .error ⟨what, text⟩

def readDigits (base : Base) (text : List Char) : Option (i64 × List Char) :=
  if text.head?.any base.isDigit then
    some ((text.takeWhile base.isDigit).foldl (fun result c => result * base.toInt + base.digitToInt c) 0,
      text.dropWhile base.isDigit)
  else none

def readSign (text : List Char) : i64 × List Char :=
  match text.dropPrefix? ['-'] with
  | some rest => (-1, rest)
  | none => (1, text)

def readBase (text : List Char) : Base × List Char :=
  match text.dropPrefix? ['0', 'x'] with
  | some rest => (.sixteen, rest)
  | none => (.ten, text)

def readInt (text : List Char) : Option (i64 × List Char) := do
  let (sign, text) := readSign text
  let (base, text) := readBase text
  let (result, rest) ← readDigits base text
  return (result * sign, rest)

def readIndex (text : List Char) : Except Throw ((Reg × Scale) × List Char) :=
  match (text.dropPrefix? " + ".toList).bind (keyword registerNames) with
  | none => .ok ((.undef, .s0), text)
  | some (index, rest) =>
    match (rest.dropPrefix? " * ".toList).bind readInt with
    | none => .ok ((index, .s0), rest)
    | some (n, tail) => (scaleOfLiteral n).map fun scale => ((index, scale), tail)

def readDisp (text : List Char) : Disp × List Char :=
  match (text.dropPrefix? " + ".toList).bind readInt with
  | none => (0, text)
  | some (n, rest) => (n.toInt32, rest)

def readMemory (text : List Char) : Except Throw (Reading Arg) :=
  match keyword registerNames text with
  | none => .ok (.error ⟨"expected register", text⟩)
  | some (base, rest) => do
    let ((index, scale), rest) ← readIndex rest
    let (disp, rest) := readDisp rest
    match rest.dropPrefix? [']'] with
    | none => return .error ⟨"expected '['", rest⟩
    | some rest => return .ok (← Arg.mem base index scale disp, rest)

def readArg (text : List Char) : Except Throw (Reading Arg) :=
  match readInt text with
  | some (imm, rest) => .ok (.ok (.immediate imm, rest))
  | none =>
    match keyword registerNames text with
    | some (reg, rest) => .ok (.ok (.register reg, rest))
    | none =>
      match text.dropPrefix? ['['] with
      | none => .ok (.error ⟨"expected a memory argument", text⟩)
      | some rest => readMemory rest

def readOperands (text : List Char) : Except Throw (Reading (Arg × Arg)) := do
  match ← readArg text with
  | .error _ => return .ok ((.undef, .undef), text)
  | .ok (a1, rest) =>
    match rest.dropPrefix? ", ".toList with
    | none => return .ok ((a1, .undef), rest)
    | some rest =>
      match ← readArg rest with
      | .error failure => return .error failure
      | .ok (a2, rest) => return .ok ((a1, a2), rest)

def readWidth (text : List Char) : Width × List Char :=
  let text := text.dropWhile (· = ' ')
  let (width, rest) := (keyword widthNames text).getD (.notSet, text)
  (width, rest.dropWhile (· = ' '))

def readLine (text : List Char) : Except Throw (Reading Mnemo) :=
  match keyword mnemoNames text with
  | none => .ok (.error ⟨"expected mnemo name", text⟩)
  | some (tag, rest) => do
    let (width, rest) := readWidth rest
    match ← readOperands rest with
    | .error failure => return .error failure
    | .ok ((a1, a2), rest) =>
      match rest.dropPrefix? ['\n'] with
      | none => return .error ⟨"expected a newline", rest⟩
      | some rest => return .ok (⟨tag, width, a1, a2⟩, rest)

end Cplastane.Assembly
