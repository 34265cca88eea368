import Cplastane.Proofs.Printing

/-! Printed text has one reading: mnemos that are printed alike agree in all that is printed
of them. What is printed is read back by readers of its own, since the parser does not
read negative displacements and left out scales. -/

namespace Cplastane.Assembly
open Parsec Text Exceptions

section Readers

/-- Reads what is printed, which is not the grammar: a printed index has scale S1 if it has none. -/
def rereadIndex (text : List Char) : (Reg × Scale) × List Char :=
  match (text.dropPrefix? " + ".toList).bind (keyword registerNames) with
  | none => ((.undef, .s0), text)
  | some (index, rest) =>
    match (rest.dropPrefix? " * ".toList).bind readInt with
    | none => ((index, .s1), rest)
    | some (n, tail) => ((index, if n = 2 then .s2 else if n = 4 then .s4 else .s8), tail)

def rereadDisp (text : List Char) : Disp × List Char :=
  match (text.dropPrefix? " + ".toList).bind readInt with
  | some (n, rest) => (n.toInt32, rest)
  | none =>
    match (text.dropPrefix? " - ".toList).bind readInt with
    | some (n, rest) => ((-n).toInt32, rest)
    | none => (0, text)

def rereadMemory (text : List Char) : Option (Arg × List Char) := do
  let rest ← text.dropPrefix? ['[']
  let (base, rest) ← keyword registerNames rest
  let ((index, scale), rest) := rereadIndex rest
  let (disp, rest) := rereadDisp rest
  let rest ← rest.dropPrefix? [']']
  if unscaled : scale = .s0 → index = .undef then some (.memory ⟨base, index, scale, disp, unscaled⟩, rest) else none

def rereadArg (text : List Char) : Option (Arg × List Char) :=
  match readInt text with
  | some (imm, rest) => some (.immediate imm, rest)
  | none =>
    match keyword registerNames text with
    | some (reg, rest) => some (.register reg, rest)
    | none => rereadMemory text

end Readers

section Operands

def closing (disp : Disp) (rest : List Char) : List Char := (Arg.printDisp disp).toList ++ ']' :: rest

private theorem closing_cases (disp : Disp) (rest : List Char) :
    (disp = 0 ∧ closing disp rest = ']' :: rest) ∨
      (∃ n : Int, n = disp.toInt ∧ closing disp rest = " + ".toList ++ ((toString n).toList ++ ']' :: rest)) ∨
      ∃ n : Int, n = disp.abs.toInt ∧ disp.toInt < 0 ∧ closing disp rest = " - ".toList ++ ((toString n).toList ++ ']' :: rest) := by
  unfold closing
  rcases Int.lt_trichotomy disp.toInt 0 with negative | zero | positive
  · rw [printDisp_negative negative, List.append_assoc]
    exact .inr (.inr ⟨_, rfl, negative, rfl⟩)
  · have same : disp = 0 := Int32.toInt_inj.mp zero
    subst same
    exact .inl ⟨rfl, rfl⟩
  · rw [printDisp_positive positive, List.append_assoc]
    exact .inr (.inl ⟨_, rfl, rfl⟩)

private theorem closing_stops (disp : Disp) (rest : List Char) : Stops prolongsInt (closing disp rest) := by
  rcases closing_cases disp rest with ⟨-, shape⟩ | ⟨n, -, shape⟩ | ⟨n, -, -, shape⟩ <;> rw [shape] <;> exact stops_cons.mpr rfl

private theorem closing_index (disp : Disp) (rest : List Char) :
    ((closing disp rest).dropPrefix? " + ".toList).bind (keyword registerNames) = none := by
  rcases closing_cases disp rest with ⟨-, shape⟩ | ⟨n, -, shape⟩ | ⟨n, -, -, shape⟩
  · rw [shape]
    rfl
  · rw [shape, dropPrefix_append, Option.bind_some]
    exact int_not_register (intText_toString n) _
  · rw [shape]
    rfl

private theorem closing_scale (disp : Disp) (rest : List Char) :
    (closing disp rest).dropPrefix? " * ".toList = none := by
  rcases closing_cases disp rest with ⟨-, shape⟩ | ⟨n, -, shape⟩ | ⟨n, -, -, shape⟩ <;> rw [shape] <;> rfl

/-- The absolute value is negated again; that of the least displacement has wrapped around. -/
private theorem abs_negated {disp : Disp} (negative : disp.toInt < 0) :
    (-(Int64.ofInt disp.abs.toInt)).toInt32 = disp := by
  have signed : disp.toBitVec.msb = true := BitVec.msb_eq_toInt.trans (decide_eq_true negative)
  have negated : disp.abs = -disp := by
    apply Int32.toBitVec.inj
    change disp.toBitVec.abs = -disp.toBitVec
    rw [BitVec.abs_eq, if_pos signed]
  rw [Int64.toInt32_neg, Int64.toInt32_ofInt, Int32.ofInt_toInt, negated, Int32.neg_neg]

private theorem rereadDisp_closing (disp : Disp) (rest : List Char) :
    rereadDisp (closing disp rest) = (disp, ']' :: rest) := by
  have stops : Stops prolongsInt (']' :: rest) := stops_cons.mpr rfl
  unfold rereadDisp
  rcases closing_cases disp rest with ⟨rfl, shape⟩ | ⟨n, same, shape⟩ | ⟨n, same, negative, shape⟩
  · rw [shape]
    rfl
  · simp only [shape, dropPrefix_append, Option.bind_some, readInt_before (intText_toString n) stops]
    rw [same, Int64.toInt32_ofInt, Int32.ofInt_toInt]
  · have other : (" - ".toList ++ ((toString n).toList ++ ']' :: rest)).dropPrefix? " + ".toList = none := rfl
    simp only [shape, other, Option.bind_none, dropPrefix_append, Option.bind_some, readInt_before (intText_toString n) stops]
    rw [same, abs_negated negative]

private theorem printReg_known {reg : Reg} {name : String} (printed : Arg.printReg reg = .ok name) :
    (name, reg) ∈ registerNames := by
  cases reg <;> cases printed <;> simp [registerNames]

private theorem printScale_number {scale : Scale} {digit : String} (printed : Arg.printScale scale = .ok digit)
    (other : scale ≠ .s1) :
    ∃ n : Int, digit = toString n ∧
      (if Int64.ofInt n = 2 then Scale.s2 else if Int64.ofInt n = 4 then Scale.s4 else Scale.s8) = scale := by
  cases scale with
  | undef | s0 => cases printed
  | s1 => exact absurd rfl other
  | s2 =>
    cases printed
    exact ⟨2, rfl, rfl⟩
  | s4 =>
    cases printed
    exact ⟨4, rfl, rfl⟩
  | s8 =>
    cases printed
    exact ⟨8, rfl, rfl⟩

private theorem rereadIndex_closing {place : Memory} {text : String} (printed : Arg.printIndex place = .ok text)
    (rest : List Char) :
    rereadIndex (text.toList ++ closing place.disp rest) = ((place.index, place.scale), closing place.disp rest) := by
  unfold Arg.printIndex at printed
  unfold rereadIndex
  by_cases unscaled : place.scale = .s0
  · rw [if_neg (not_not_intro unscaled)] at printed
    cases printed
    simp only [String.toList_empty, List.nil_append, closing_index, unscaled, place.unscaled unscaled]
  rw [if_pos unscaled] at printed
  obtain ⟨name, named, printed⟩ := bind_ok.mp printed
  have known := printReg_known named
  by_cases one : place.scale = .s1
  · rw [if_neg (not_not_intro one)] at printed
    cases printed
    simp only [String.toList_append, List.append_assoc, dropPrefix_append, Option.bind_some, readReg_append known,
      closing_scale, Option.bind_none, one]
  · rw [if_pos one] at printed
    obtain ⟨digit, scaled, printed⟩ := bind_ok.mp printed
    cases printed
    obtain ⟨n, rfl, same⟩ := printScale_number scaled one
    simp only [String.toList_append, List.append_assoc, dropPrefix_append, Option.bind_some, readReg_append known,
      readInt_before (intText_toString n) (closing_stops place.disp rest), same]

private theorem rereadMemory_print {place : Memory} {text : String} (printed : (Arg.memory place).print = .ok text)
    (rest : List Char) :
    rereadMemory (text.toList ++ rest) = some (.memory place, rest) := by
  obtain ⟨base, based, printed⟩ := bind_ok.mp printed
  obtain ⟨index, indexed, printed⟩ := bind_ok.mp printed
  cases printed
  have shape : ("[" ++ base ++ index ++ Arg.printDisp place.disp ++ "]").toList ++ rest =
      ['['] ++ (base.toList ++ (index.toList ++ closing place.disp rest)) := by
    simp [String.toList_append, closing]
  rw [shape]
  simp only [rereadMemory, dropPrefix_append, readReg_append (printReg_known based), rereadIndex_closing indexed,
    rereadDisp_closing, Option.bind_eq_bind, Option.bind_some]
  have bracket : (']' :: rest).dropPrefix? [']'] = some rest := dropPrefix_append [']'] rest
  simp only [bracket, Option.bind_some, dif_pos place.unscaled]

private theorem rereadArg_print {arg : Arg} {text : String} (printed : arg.print = .ok text) {rest : List Char}
    (stops : Stops prolongsInt rest) : rereadArg (text.toList ++ rest) = some (arg, rest) := by
  unfold rereadArg
  cases arg with
  | undef => cases printed
  | immediate imm =>
    cases printed
    rw [readInt_before (intText_toString imm.toInt) stops, Int64.ofInt_toInt]
  | register reg =>
    have known := printReg_known printed
    rw [register_not_int known, readReg_append known]
  | memory place =>
    have reread := rereadMemory_print printed rest
    obtain ⟨inner, bracket, -⟩ := Option.bind_eq_some_iff.mp reread
    have shape := dropPrefix_iff.mp bracket
    have notNumber : readInt (text.toList ++ rest) = none := by
      rw [shape]
      exact readInt_none (stops_cons.mpr rfl)
    have notRegister : keyword registerNames (text.toList ++ rest) = none := by
      rw [shape]
      exact keyword_none registerNames_lower (stops_cons.mpr rfl)
    rw [notNumber, notRegister]
    exact reread

end Operands

section Mnemos

/-- What is printed of a mnemo: its name, and with operands its width and as many of them as
its arity. -/
def Mnemo.shown (mnemo : Mnemo) : Tag × Option Width × List Arg :=
  match mnemo.tag with
  | .mov | .add => (mnemo.tag, some mnemo.width, [mnemo.a1, mnemo.a2])
  | .push | .pop => (mnemo.tag, some mnemo.width, [mnemo.a1])
  | .ret | .undef => (mnemo.tag, none, [])

def behindSpace {α : Type} (read : List Char → Option (α × List Char)) (text : List Char) : Option (α × List Char) :=
  (text.dropPrefix? [' ']).bind read

def rereadMnemo (text : List Char) : Option (Tag × Option Width × List Arg) := do
  let text ← text.dropPrefix? "mnemo_t(".toList
  let (tag, text) ← keyword mnemoNames text
  match tag with
  | .mov | .add =>
    let (width, text) ← behindSpace (keyword widthNames) text
    let (a1, text) ← behindSpace rereadArg text
    let (a2, _) ← behindSpace rereadArg text
    return (tag, some width, [a1, a2])
  | .push | .pop =>
    let (width, text) ← behindSpace (keyword widthNames) text
    let (a1, _) ← behindSpace rereadArg text
    return (tag, some width, [a1])
  | .ret | .undef => return (tag, none, [])

private theorem printTag_known {tag : Tag} {name : String} (printed : Mnemo.printTag tag = .ok name) :
    (name, tag) ∈ mnemoNames := by
  cases tag <;> cases printed <;> simp [mnemoNames]

private theorem printWidth_known {width : Width} {name : String} (printed : Mnemo.printWidth width = .ok name) :
    (name, width) ∈ widthNames := by
  cases width <;> cases printed <;> simp [widthNames]

private theorem behindSpace_append {α : Type} {read : List Char → Option (α × List Char)} {text : List Char}
    {result : α × List Char} (reread : read text = some result) : behindSpace read (' ' :: text) = some result :=
  (congrArg (Option.bind · read) (dropPrefix_append [' '] text)).trans reread

private theorem mapError_ok {α ε δ : Type} {result : Except ε α} {wrap : ε → δ} {value : α}
    (ok : result.mapError wrap = .ok value) : result = .ok value := by
  cases result with
  | error error => cases ok
  | ok other =>
    cases ok
    rfl

private theorem printOperands_two {mnemo : Mnemo} {operands : String} (arity : mnemo.getArity = .ok 2)
    (printed : mnemo.printOperands = .ok operands) : ∃ width a1 a2, Mnemo.printWidth mnemo.width = .ok width ∧
      mnemo.a1.print = .ok a1 ∧ mnemo.a2.print = .ok a2 ∧ operands = " " ++ width ++ " " ++ a1 ++ " " ++ a2 := by
  unfold Mnemo.printOperands at printed
  rw [arity] at printed
  obtain ⟨_, same, printed⟩ := bind_ok.mp printed
  cases same
  rw [if_pos (by decide)] at printed
  obtain ⟨width, sized, printed⟩ := bind_ok.mp printed
  obtain ⟨a1, first, printed⟩ := bind_ok.mp printed
  rw [if_pos (by decide)] at printed
  obtain ⟨a2, second, printed⟩ := bind_ok.mp printed
  cases printed
  exact ⟨width, a1, a2, sized, mapError_ok first, mapError_ok second, rfl⟩

private theorem printOperands_one {mnemo : Mnemo} {operands : String} (arity : mnemo.getArity = .ok 1)
    (printed : mnemo.printOperands = .ok operands) : ∃ width a1, Mnemo.printWidth mnemo.width = .ok width ∧
      mnemo.a1.print = .ok a1 ∧ operands = " " ++ width ++ " " ++ a1 := by
  unfold Mnemo.printOperands at printed
  rw [arity] at printed
  obtain ⟨_, same, printed⟩ := bind_ok.mp printed
  cases same
  rw [if_pos (by decide)] at printed
  obtain ⟨width, sized, printed⟩ := bind_ok.mp printed
  obtain ⟨a1, first, printed⟩ := bind_ok.mp printed
  rw [if_neg (by decide)] at printed
  cases printed
  exact ⟨width, a1, sized, mapError_ok first, rfl⟩

/-- A printed mnemo is read back as what it shows. -/
private theorem rereadMnemo_print {mnemo : Mnemo} {text : String} (printed : mnemo.print = .ok text) :
    rereadMnemo text.toList = some mnemo.shown := by
  obtain ⟨name, named, printed⟩ := bind_ok.mp printed
  obtain ⟨operands, shown, printed⟩ := bind_ok.mp printed
  cases printed
  have shape : ("mnemo_t(" ++ name ++ operands ++ ")").toList = "mnemo_t(".toList ++ (name.toList ++ (operands.toList ++ [')'])) := by
    simp [String.toList_append]
  have known := keyword_append mnemoNames_free (printTag_known named) (operands.toList ++ [')'])
  rw [shape]
  unfold rereadMnemo Mnemo.shown
  simp only [dropPrefix_append, Option.bind_eq_bind, Option.bind_some, known]
  cases tag : mnemo.tag with
  | mov | add =>
    obtain ⟨width, a1, a2, sized, first, second, rfl⟩ := printOperands_two (by rw [Mnemo.getArity, tag]) shown
    have split : (" " ++ width ++ " " ++ a1 ++ " " ++ a2).toList ++ [')'] =
        ' ' :: (width.toList ++ ' ' :: (a1.toList ++ ' ' :: (a2.toList ++ [')']))) := by
      simp [String.toList_append]
    have readWidth := keyword_append widthNames_free (printWidth_known sized) (' ' :: (a1.toList ++ ' ' :: (a2.toList ++ [')'])))
    have readFirst := @rereadArg_print _ _ first (' ' :: (a2.toList ++ [')'])) (stops_cons.mpr rfl)
    have readSecond := @rereadArg_print _ _ second [')'] (stops_cons.mpr rfl)
    simp only [split, behindSpace_append readWidth, behindSpace_append readFirst, behindSpace_append readSecond, Option.bind_some]
    rfl
  | push | pop =>
    obtain ⟨width, a1, sized, first, rfl⟩ := printOperands_one (by rw [Mnemo.getArity, tag]) shown
    have split : (" " ++ width ++ " " ++ a1).toList ++ [')'] = ' ' :: (width.toList ++ ' ' :: (a1.toList ++ [')'])) := by
      simp [String.toList_append]
    have readWidth := keyword_append widthNames_free (printWidth_known sized) (' ' :: (a1.toList ++ [')']))
    have readFirst := @rereadArg_print _ _ first [')'] (stops_cons.mpr rfl)
    simp only [split, behindSpace_append readWidth, behindSpace_append readFirst, Option.bind_some]
    rfl
  | ret => rfl
  | undef =>
    rw [tag] at named
    cases named

private theorem print_shown {first second : Mnemo} (same : first.shown = second.shown) :
    first.print = second.print := by
  obtain ⟨tag, width, a1, a2⟩ := first
  obtain ⟨other, size, b1, b2⟩ := second
  cases tag <;> cases other <;> cases same <;> rfl

/-- Mnemos are printed alike exactly if they agree in what is printed of them. -/
theorem print_alike_iff {first second : Mnemo} {text : String} (printed : first.print = .ok text) :
    second.print = .ok text ↔ second.shown = first.shown := by
  constructor
  · intro also
    exact Option.some.inj ((rereadMnemo_print also).symm.trans (rereadMnemo_print printed))
  · intro same
    exact (print_shown same).trans printed

theorem print_alike_pop : (Mnemo.mk .pop .qword (.register .rax) (.immediate 3)).print = .ok "mnemo_t(pop QWORD rax)" ↔
    (Mnemo.mk .pop .qword (.register .rax) (.immediate 3)).shown = (Mnemo.mk .pop .qword (.register .rax) .undef).shown :=
  print_alike_iff rfl

end Mnemos

end Cplastane.Assembly
