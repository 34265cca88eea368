import Cplastane.Assembly.Grammar
import Cplastane.Assembly.Meaning

/-! The text of a program in the notation of the parser, which is not the one of `print`:
every scale is written out, and a negative displacement is added. -/

namespace Cplastane.Assembly

def nameIn {α : Type} [DecidableEq α] (table : List (String × α)) (value : α) : Option (List Char) :=
  (table.find? (·.2 = value)).map (·.1.toList)

def Memory.unparseIndex (memory : Memory) : Option (List Char) :=
  if memory.scale = .s0 then some []
  else do
    let name ← nameIn registerNames memory.index
    let factor ← memory.scale.factor
    return " + ".toList ++ (name ++ (" * ".toList ++ (toString (factor : Int)).toList))

def unparseDisp (disp : Disp) : List Char := if disp = 0 then [] else " + ".toList ++ (toString disp.toInt).toList

def Arg.unparse : Arg → Option (List Char)
  | .immediate imm => some (toString imm.toInt).toList
  | .register reg => nameIn registerNames reg
  | .memory place => do
    let name ← nameIn registerNames place.base
    let index ← place.unparseIndex
    return '[' :: (name ++ (index ++ (unparseDisp place.disp ++ [']'])))
  | .undef => none

def unparseOperands (a1 a2 : Arg) : Option (List Char) :=
  if a2 = .undef then
    if a1 = .undef then some [] else a1.unparse
  else do
    let first ← a1.unparse
    let second ← a2.unparse
    return first ++ (", ".toList ++ second)

def Width.unparse (width : Width) : Option (List Char) :=
  if width = .notSet then some [' '] else (nameIn widthNames width).map fun name => ' ' :: (name ++ [' '])

def Mnemo.unparse (mnemo : Mnemo) : Option (List Char) := do
  let name ← nameIn mnemoNames mnemo.tag
  let width ← mnemo.width.unparse
  let operands ← unparseOperands mnemo.a1 mnemo.a2
  return name ++ (width ++ (operands ++ ['\n']))

def unparse (mnemos : List Mnemo) : Option (List Char) := (mnemos.mapM Mnemo.unparse).map List.flatten

end Cplastane.Assembly
