import Cplastane.Assembly.Parse

/-! The grammar of assembly text. Derivations are taken relative to a reading of
numerals: the exact one, or the one of the parser's wrapping arithmetic. -/

namespace Cplastane
open Parsec

namespace Parsec.Base

def radix : Base → Nat
  | ten => 10
  | sixteen => 16

def marker : Base → List Char
  | ten => []
  | sixteen => ['0', 'x']

def digitValue (c : Char) : Nat := if isDecDigit c then c.toNat - '0'.toNat else c.toNat - 'A'.toNat + 10

def positional (base : Base) (digits : List Char) : Nat :=
  digits.foldl (fun value c => value * base.radix + digitValue c) 0

end Parsec.Base

namespace Assembly

inductive SignText : List Char → Int → Prop where
  | plus : SignText [] 1
  | minus : SignText ['-'] (-1)

/-- `'-'? (decimal digits+ | '0x' hexadecimal digits+)`, with its value. -/
inductive IntText (base : Base) : List Char → Int → Prop where
  | literal {sign factor digits} (signed : SignText sign factor) (some : digits ≠ [])
      (all : ∀ c ∈ digits, base.isDigit c = true) :
      IntText base (sign ++ (base.marker ++ digits)) (factor * base.positional digits)

/-- What the values of literals become as immediates, displacements and scales. The grammar is
stated once for all of them, so that what is accepted and what is meant can be compared. -/
structure Numerals where
  imm : Int → Imm → Prop
  disp : Int → Disp → Prop
  scale : Int → Scale → Prop

/-- The numbers that are scales. -/
def ScaleValue (n : Int) (scale : Scale) : Prop :=
  (n = 1 ∧ scale = .s1) ∨ (n = 2 ∧ scale = .s2) ∨ (n = 4 ∧ scale = .s4) ∨ (n = 8 ∧ scale = .s8)

/-- Literals as they are meant: every one keeps its value, and has none in the grammar where its
type does not hold it. -/
def exact : Numerals where
  imm value imm := imm.toInt = value
  disp value disp := disp.toInt = value
  scale := ScaleValue

/-- Literals as the parser reads them: modulo 2 ^ 64, and displacements narrowed to 32 bits without
a test. -/
def wrapped : Numerals where
  imm value imm := imm = Int64.ofInt value
  disp value disp := disp = (Int64.ofInt value).toInt32
  scale value scale := ScaleValue (value % 2 ^ 64) scale

/-- `(' + ' reg ' * ' int)?` -/
inductive IndexText (numerals : Numerals) : List Char → Reg → Scale → Prop where
  | absent : IndexText numerals [] .undef .s0
  | present {name index base literal value scale} (known : (name, index) ∈ registerNames)
      (number : IntText base literal value) (scaled : numerals.scale value scale) :
      IndexText numerals (" + ".toList ++ (name.toList ++ (" * ".toList ++ literal))) index scale

/-- `(' + ' int)?` -/
inductive DispText (numerals : Numerals) : List Char → Disp → Prop where
  | absent : DispText numerals [] 0
  | present {base literal value disp} (number : IntText base literal value) (read : numerals.disp value disp) :
      DispText numerals (" + ".toList ++ literal) disp

/-- `int | reg | '[' reg index? disp? ']'` -/
inductive ArgText (numerals : Numerals) : List Char → Arg → Prop where
  | int {base literal value imm} (number : IntText base literal value) (read : numerals.imm value imm) :
      ArgText numerals literal (.immediate imm)
  | reg {name reg} (known : (name, reg) ∈ registerNames) : ArgText numerals name.toList (.register reg)
  | mem {name indexText dispText} {memory : Memory} (known : (name, memory.base) ∈ registerNames)
      (indexed : IndexText numerals indexText memory.index memory.scale)
      (displaced : DispText numerals dispText memory.disp) :
      ArgText numerals ('[' :: (name.toList ++ (indexText ++ (dispText ++ [']'])))) (.memory memory)

/-- `(arg (', ' arg)?)?` -/
inductive OperandsText (numerals : Numerals) : List Char → Arg × Arg → Prop where
  | none : OperandsText numerals [] (.undef, .undef)
  | one {first a1} (read : ArgText numerals first a1) : OperandsText numerals first (a1, .undef)
  | two {first second a1 a2} (read : ArgText numerals first a1) (also : ArgText numerals second a2) :
      OperandsText numerals (first ++ (", ".toList ++ second)) (a1, a2)

/-- `SP* width? SP*` -/
inductive WidthText : List Char → Width → Prop where
  | absent (n : Nat) : WidthText (List.replicate n ' ') .notSet
  | present (n k : Nat) {name width} (known : (name, width) ∈ widthNames) :
      WidthText (List.replicate n ' ' ++ (name.toList ++ List.replicate k ' ')) width

/-- `name SP* width? SP* operands newline` -/
inductive LineText (numerals : Numerals) : List Char → Mnemo → Prop where
  | line {name tag widthText width operandsText operands} (known : (name, tag) ∈ mnemoNames)
      (sized : WidthText widthText width) (read : OperandsText numerals operandsText operands) :
      LineText numerals (name.toList ++ (widthText ++ (operandsText ++ ['\n'])))
        ⟨tag, width, operands.1, operands.2⟩

/-- `line*` -/
inductive ProgramText (numerals : Numerals) : List Char → List Mnemo → Prop where
  | done : ProgramText numerals [] []
  | line {first mnemo rest mnemos} (read : LineText numerals first mnemo) (others : ProgramText numerals rest mnemos) :
      ProgramText numerals (first ++ rest) (mnemo :: mnemos)

end Assembly
end Cplastane
