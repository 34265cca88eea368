import Cplastane.Proofs.GrammarSound

/-! Every derivation is read, whatever follows it: no reader stops early or runs on
into the text behind, because no name begins another one and every literal is
followed by a character that cannot prolong it. -/

namespace Cplastane.Assembly
open Parsec Text

private theorem registerNames_free : PrefixFree registerNames := by
  unfold PrefixFree
  decide +kernel

theorem mnemoNames_free : PrefixFree mnemoNames := by
  unfold PrefixFree
  decide

theorem widthNames_free : PrefixFree widthNames := by
  unfold PrefixFree
  decide

theorem registerNames_lower : Starts Char.isLower registerNames := by
  unfold Starts
  decide

private theorem registerNames_letters : ∀ entry ∈ registerNames, entry.1.toList.all Char.isLower = true := by decide

theorem register_lacks {name : String} {reg : Reg} (known : (name, reg) ∈ registerNames) {c : Char}
    (other : c.isLower = false) : c ∉ name.toList := by
  intro member
  rw [List.all_eq_true.mp (registerNames_letters _ known) c member] at other
  cases other

private theorem widthNames_upper : Starts Char.isUpper widthNames := by
  unfold Starts
  decide

private theorem isLower_iff (c : Char) : c.isLower = true ↔ 'a'.toNat ≤ c.toNat ∧ c.toNat ≤ 'z'.toNat := by
  have test : c.isLower = (decide ('a'.val ≤ c.val) && decide (c.val ≤ 'z'.val)) := rfl
  rw [test, Bool.and_eq_true, decide_eq_true_eq, decide_eq_true_eq, UInt32.le_iff_toNat_le, UInt32.le_iff_toNat_le]
  rfl

def startsInt (c : Char) : Bool := c = '-' || isDecDigit c

def prolongsInt (c : Char) : Bool := c = 'x' || isHexDigit c

private theorem prolongsInt_of_digit (base : Base) {c : Char} (digit : base.isDigit c = true) :
    prolongsInt c = true := by
  cases base with
  | ten => simp [prolongsInt, isHexDigit, show isDecDigit c = true from digit]
  | sixteen => simp [prolongsInt, show isHexDigit c = true from digit]

private theorem startsInt_not_lower {c : Char} (lower : c.isLower = true) : startsInt c = false := by
  have bounds := (isLower_iff c).mp lower
  by_contra starts
  rw [Bool.not_eq_false, startsInt, Bool.or_eq_true, decide_eq_true_eq] at starts
  rcases starts with rfl | digit
  · cases lower
  · have above := ((isDecDigit_iff c).mp digit).2
    have apart : '9'.toNat < 'a'.toNat := by decide
    omega

private theorem readSign_append {sign : List Char} {factor : Int} (signed : SignText sign factor) {text : List Char}
    (unsigned : Stops (· = '-') text) : readSign (sign ++ text) = (Int64.ofInt factor, text) := by
  cases signed with
  | plus =>
    have absent : text.dropPrefix? ['-'] = none := by
      apply dropPrefix_none
      intro rest same
      simp [same] at unsigned
    simp only [readSign, List.nil_append, absent]
    rfl
  | minus =>
    simp only [readSign, dropPrefix_append]
    rfl

/-- A run of decimal digits is not mistaken for the marker of another base, unless
it is a zero in front of an `x`. -/
private theorem readBase_append {base : Base} {digits rest : List Char} (some : digits ≠ [])
    (all : ∀ c ∈ digits, base.isDigit c = true)
    (unmarked : base = .ten → base.positional digits ≠ 0 ∨ Stops (· = 'x') rest) :
    readBase (base.marker ++ (digits ++ rest)) = (base, digits ++ rest) := by
  cases base with
  | sixteen => simp only [readBase, Base.marker, dropPrefix_append]
  | ten =>
    have absent : (digits ++ rest).dropPrefix? ['0', 'x'] = none := by
      apply dropPrefix_none
      intro tail same
      rcases digits with _ | ⟨c, _ | ⟨d, digits⟩⟩
      · exact some rfl
      · simp only [List.cons_append, List.nil_append, List.cons.injEq] at same
        obtain ⟨rfl, rfl⟩ := same
        rcases unmarked rfl with positive | stops
        · exact positive rfl
        · simp at stops
      · simp only [List.cons_append, List.nil_append, List.cons.injEq] at same
        obtain ⟨rfl, rfl, -⟩ := same
        exact absurd (all 'x' (by simp)) (by decide)
    simp only [readBase, Base.marker, List.nil_append, absent]

private theorem readDigits_append {base : Base} {digits rest : List Char} (some : digits ≠ [])
    (all : ∀ c ∈ digits, base.isDigit c = true) (stops : Stops base.isDigit rest) :
    readDigits base (digits ++ rest) = Option.some (Int64.ofInt (base.positional digits), rest) := by
  have first : (digits ++ rest).head?.any base.isDigit = true := by
    cases digits with
    | nil => exact absurd rfl some
    | cons c digits => exact all c List.mem_cons_self
  rw [readDigits, if_pos first, takeWhile_run all stops, dropWhile_run all stops]
  exact congrArg (fun n => Option.some (n, rest)) (accumulate_eq base digits all 0)

theorem readInt_parts {base : Base} {sign digits rest : List Char} {factor : Int} (signed : SignText sign factor)
    (some : digits ≠ []) (all : ∀ c ∈ digits, base.isDigit c = true) (stops : Stops base.isDigit rest)
    (unmarked : base = .ten → base.positional digits ≠ 0 ∨ Stops (· = 'x') rest) :
    readInt (sign ++ (base.marker ++ (digits ++ rest))) =
      Option.some (Int64.ofInt (factor * base.positional digits), rest) := by
  have unsigned : Stops (· = '-') (base.marker ++ (digits ++ rest)) := by
    cases base with
    | sixteen => simp [Base.marker]
    | ten =>
      cases digits with
      | nil => exact absurd rfl some
      | cons c digits =>
        apply stops_cons.mpr
        rw [decide_eq_false_iff_not]
        rintro rfl
        exact absurd (all '-' List.mem_cons_self) (by decide)
  unfold readInt
  rw [readSign_append signed unsigned]
  simp only [readBase_append some all unmarked, readDigits_append some all stops, Option.bind_eq_bind, Option.bind_some]
  rw [Int64.mul_comm, ← Int64.ofInt_mul]
  rfl

theorem readInt_append {base : Base} {literal rest : List Char} {value : Int} (number : IntText base literal value)
    (stops : Stops base.isDigit rest) (unmarked : value ≠ 0 ∨ Stops (· = 'x') rest) :
    readInt (literal ++ rest) = some (Int64.ofInt value, rest) := by
  cases number with
  | literal signed some all =>
    rw [List.append_assoc, List.append_assoc]
    apply readInt_parts signed some all stops
    intro _
    apply unmarked.imp_left
    intro nonzero zero
    exact nonzero (by simp [zero])

theorem readInt_before {base : Base} {literal rest : List Char} {value : Int} (number : IntText base literal value)
    (ends : Stops prolongsInt rest) : readInt (literal ++ rest) = some (Int64.ofInt value, rest) := by
  apply readInt_append number
  · exact ends.mono fun c => prolongsInt_of_digit base
  · refine .inr (ends.mono ?_)
    intro c marker
    simp_all [prolongsInt]

theorem IntText.lacks {base : Base} {literal : List Char} {value : Int} (number : IntText base literal value) {c : Char}
    (unsigned : c ≠ '-') (other : prolongsInt c = false) : c ∉ literal := by
  cases number with
  | @literal sign _ digits signed some all =>
    have signLacks : c ∉ sign := by cases signed <;> simp [unsigned]
    have markerLacks : c ∉ base.marker := by
      intro member
      have prolongs : ∀ d ∈ base.marker, prolongsInt d = true := by cases base <;> exact List.all_eq_true.mp rfl
      rw [prolongs c member] at other
      cases other
    have digitsLack : c ∉ digits := by
      intro member
      rw [prolongsInt_of_digit base (all c member)] at other
      cases other
    simp [signLacks, markerLacks, digitsLack]

theorem IntText.starts {base : Base} {literal : List Char} {value : Int} (number : IntText base literal value) :
    ∃ c rest, literal = c :: rest ∧ startsInt c = true := by
  cases number with
  | literal signed some all =>
    cases signed with
    | minus => exact ⟨_, _, rfl, rfl⟩
    | plus =>
      cases base with
      | sixteen => exact ⟨_, _, rfl, rfl⟩
      | ten =>
        obtain ⟨c, digits, rfl⟩ := List.exists_cons_of_ne_nil some
        have digit : isDecDigit c = true := all c List.mem_cons_self
        exact ⟨c, digits, rfl, by simp [startsInt, digit]⟩

theorem readInt_none {text : List Char} (stops : Stops startsInt text) : readInt text = none := by
  cases read : readInt text with
  | none => rfl
  | some result =>
    obtain ⟨n, tail⟩ := result
    obtain ⟨base, literal, value, number, rfl, -⟩ := readInt_sound read
    obtain ⟨c, rest, rfl, starts⟩ := number.starts
    rw [List.cons_append, stops_cons, starts] at stops
    cases stops

theorem readReg_append {name : String} {reg : Reg} (known : (name, reg) ∈ registerNames) (rest : List Char) :
    keyword registerNames (name.toList ++ rest) = some (reg, rest) :=
  keyword_append registerNames_free known rest

theorem register_not_int {name : String} {reg : Reg} (known : (name, reg) ∈ registerNames) (rest : List Char) :
    readInt (name.toList ++ rest) = none :=
  readInt_none (registerNames_lower.stops (fun _ => startsInt_not_lower) known rest)

theorem int_not_register {base : Base} {literal : List Char} {value : Int} (number : IntText base literal value)
    (rest : List Char) : keyword registerNames (literal ++ rest) = none := by
  obtain ⟨c, tail, rfl, starts⟩ := number.starts
  apply keyword_none registerNames_lower
  rw [List.cons_append, stops_cons]
  by_contra lower
  rw [startsInt_not_lower (by simpa using lower)] at starts
  cases starts

private theorem readIndex_before {text rest : List Char} {index : Reg} {scale : Scale}
    (indexed : IndexText wrapped text index scale) (ends : Stops prolongsInt rest)
    (unregistered : (rest.dropPrefix? " + ".toList).bind (keyword registerNames) = none) :
    readIndex (text ++ rest) = .ok ((index, scale), rest) := by
  cases indexed with
  | absent => simp only [readIndex, List.nil_append, unregistered]
  | present known number scaled =>
    have proper := ((scaleOfLiteral_proper_iff _ _).mpr scaled).1
    simp only [readIndex, List.append_assoc, dropPrefix_append, Option.bind_some, readReg_append known,
      readInt_before number ends, proper]
    rfl

private theorem readIndex_append {text rest : List Char} {index : Reg} {scale : Scale} {disp : Disp}
    (indexed : IndexText wrapped text index scale) {dispText : List Char} (displaced : DispText wrapped dispText disp) :
    readIndex (text ++ (dispText ++ ']' :: rest)) = .ok ((index, scale), dispText ++ ']' :: rest) := by
  apply readIndex_before indexed
  · cases displaced <;> exact stops_cons.mpr rfl
  · cases displaced with
    | absent => rfl
    | present number read =>
      rw [List.append_assoc, dropPrefix_append]
      exact int_not_register number _

theorem readDisp_append {text rest : List Char} {disp : Disp} (displaced : DispText wrapped text disp) :
    readDisp (text ++ ']' :: rest) = (disp, ']' :: rest) := by
  cases displaced with
  | absent => rfl
  | present number read =>
    have ends : Stops prolongsInt (']' :: rest) := stops_cons.mpr rfl
    simp only [readDisp, List.append_assoc, dropPrefix_append, Option.bind_some, readInt_before number ends]
    rw [read]

theorem readArg_bracket (text : List Char) : readArg ('[' :: text) = readMemory text := by
  have number : readInt ('[' :: text) = none := readInt_none (stops_cons.mpr rfl)
  have unnamed : keyword registerNames ('[' :: text) = none :=
    keyword_none registerNames_lower (stops_cons.mpr rfl)
  simp only [readArg, number, unnamed, List.dropPrefix?, beq_self_eq_true, if_true]

theorem readArg_memory {name : String} {base index : Reg} {scale : Scale} {text rest : List Char}
    (known : (name, base) ∈ registerNames) (indexed : IndexText wrapped text index scale) (ends : Stops prolongsInt rest)
    (unregistered : (rest.dropPrefix? " + ".toList).bind (keyword registerNames) = none) :
    readArg ('[' :: (name.toList ++ (text ++ rest))) =
      match (readDisp rest).2.dropPrefix? [']'] with
      | none => .ok (.error ⟨"expected '['", (readDisp rest).2⟩)
      | some last => (Arg.mem base index scale (readDisp rest).1).map fun arg => .ok (arg, last) := by
  simp only [readArg_bracket, readMemory, readReg_append known, readIndex_before indexed ends unregistered, bind, Except.bind]
  cases (readDisp rest).2.dropPrefix? [']'] with
  | none => rfl
  | some last => cases Arg.mem base index scale (readDisp rest).1 <;> rfl

theorem readArg_append {text rest : List Char} {arg : Arg} (derived : ArgText wrapped text arg)
    (ends : Stops prolongsInt rest) : readArg (text ++ rest) = .ok (.ok (arg, rest)) := by
  cases derived with
  | int number read =>
    simp only [readArg, readInt_before number ends]
    rw [read]
  | reg known => simp only [readArg, register_not_int known, readReg_append known]
  | @mem name indexText dispText memory known indexed displaced =>
    have built : Arg.mem memory.base memory.index memory.scale memory.disp = .ok (.memory memory) := by
      rw [Arg.mem, dif_neg]
      intro unscaled
      exact unscaled.2 (memory.unscaled unscaled.1)
    simp only [List.cons_append, List.append_assoc, List.nil_append, readArg_bracket, readMemory,
      readReg_append known, readIndex_append indexed displaced, bind, Except.bind, readDisp_append displaced, built,
      List.dropPrefix?, beq_self_eq_true, if_true]
    rfl

theorem readArg_whole {text : List Char} {arg : Arg} (derived : ArgText wrapped text arg) :
    readArg text = .ok (.ok (arg, [])) := by
  have nothing : Stops prolongsInt [] := rfl
  have read := readArg_append derived nothing
  rwa [List.append_nil] at read

private theorem readOperands_append {text rest : List Char} {operands : Arg × Arg}
    (derived : OperandsText wrapped text operands) :
    readOperands (text ++ '\n' :: rest) = .ok (.ok (operands, '\n' :: rest)) := by
  have ends : Stops prolongsInt ('\n' :: rest) := stops_cons.mpr rfl
  cases derived with
  | none =>
    have nothing : readInt ('\n' :: rest) = none := readInt_none (stops_cons.mpr rfl)
    have unnamed : keyword registerNames ('\n' :: rest) = none :=
      keyword_none registerNames_lower (stops_cons.mpr rfl)
    simp only [readOperands, List.nil_append, readArg, nothing, unnamed]
    rfl
  | one read =>
    simp only [readOperands, readArg_append read ends]
    rfl
  | @two first second a1 a2 read also =>
    have comma : Stops prolongsInt (", ".toList ++ (second ++ '\n' :: rest)) := stops_cons.mpr rfl
    simp only [readOperands, List.append_assoc, readArg_append read comma, dropPrefix_append, readArg_append also ends,
      bind, Except.bind]
    rfl

def startsWidth (c : Char) : Bool := c = ' ' || c.isUpper

private theorem spaces_append (n : Nat) {rest : List Char} (stops : Stops (· = ' ') rest) :
    (List.replicate n ' ' ++ rest).dropWhile (· = ' ') = rest := by
  apply dropWhile_run _ stops
  intro c member
  simp [List.eq_of_mem_replicate member]

theorem readWidth_append {text rest : List Char} {width : Width} (sized : WidthText text width)
    (stops : Stops startsWidth rest) : readWidth (text ++ rest) = (width, rest) := by
  have unspaced : Stops (· = ' ') rest := stops.mono (by simp [startsWidth])
  cases sized with
  | absent n =>
    have unnamed : keyword widthNames rest = none := keyword_none widthNames_upper (stops.mono (fun c upper => by simp [startsWidth, upper]))
    have again : rest.dropWhile (· = ' ') = rest := spaces_append 0 unspaced
    simp only [readWidth, spaces_append n unspaced, unnamed, Option.getD_none, again]
  | @present n k name _ known =>
    have named : Stops (· = ' ') (name.toList ++ (List.replicate k ' ' ++ rest)) := by
      apply widthNames_upper.stops _ known
      intro c upper
      rw [decide_eq_false_iff_not]
      rintro rfl
      cases upper
    simp only [readWidth, List.append_assoc, spaces_append n named, keyword_append widthNames_free known,
      Option.getD_some, spaces_append k unspaced]

private theorem startsWidth_code {c : Char} (starts : startsWidth c = true) :
    c = ' ' ∨ ('A'.toNat ≤ c.toNat ∧ c.toNat ≤ 'Z'.toNat) := by
  rw [startsWidth, Bool.or_eq_true, decide_eq_true_eq] at starts
  apply starts.imp_right
  intro upper
  have test : c.isUpper = decide ('A'.val ≤ c.val ∧ c.val ≤ 'Z'.val) := rfl
  rw [test, decide_eq_true_eq, UInt32.le_iff_toNat_le, UInt32.le_iff_toNat_le] at upper
  exact upper

private theorem startsInt_not_width {c : Char} (starts : startsInt c = true) : startsWidth c = false := by
  by_contra width
  rw [startsInt, Bool.or_eq_true, decide_eq_true_eq] at starts
  rcases startsWidth_code (by simpa using width) with rfl | upper
  · simp [isDecDigit] at starts
  · rcases starts with rfl | digit
    · simp at upper
    · have below := ((isDecDigit_iff c).mp digit).2
      have apart : '9'.toNat < 'A'.toNat := by decide
      omega

private theorem lower_not_width {c : Char} (lower : c.isLower = true) : startsWidth c = false := by
  by_contra width
  have above := ((isLower_iff c).mp lower).1
  have apart : 'Z'.toNat < 'a'.toNat := by decide
  rcases startsWidth_code (by simpa using width) with rfl | upper
  · cases lower
  · omega

theorem arg_not_width {numerals : Numerals} {text : List Char} {arg : Arg} (derived : ArgText numerals text arg)
    (rest : List Char) : Stops startsWidth (text ++ rest) := by
  cases derived with
  | int number read =>
    obtain ⟨c, tail, rfl, starts⟩ := number.starts
    exact stops_cons.mpr (startsInt_not_width starts)
  | reg known => exact registerNames_lower.stops (fun _ => lower_not_width) known rest
  | mem known indexed displaced => exact stops_cons.mpr rfl

private theorem operands_not_width {numerals : Numerals} {text rest : List Char} {operands : Arg × Arg}
    (derived : OperandsText numerals text operands) : Stops startsWidth (text ++ '\n' :: rest) := by
  cases derived with
  | none => exact stops_cons.mpr rfl
  | one read => exact arg_not_width read _
  | two read also =>
    rw [List.append_assoc]
    exact arg_not_width read _

/-- A line of the grammar is accepted, and only its own text is consumed. -/
theorem readLine_append {line : List Char} {mnemo : Mnemo} (derived : LineText wrapped line mnemo) (rest : List Char) :
    readLine (line ++ rest) = .ok (.ok (mnemo, rest)) := by
  cases derived with
  | @line name tag widthText width operandsText operands known sized read =>
    simp only [readLine, List.append_assoc, List.cons_append, List.nil_append, keyword_append mnemoNames_free known,
      readWidth_append sized (operands_not_width read), readOperands_append read, bind, Except.bind,
      List.dropPrefix?, beq_self_eq_true, if_true]
    rfl

end Cplastane.Assembly
