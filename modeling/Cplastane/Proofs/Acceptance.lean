import Cplastane.Proofs.ParserRuns

/-! The parser accepts the exact grammar. Its arithmetic wraps around, so the exact
and the wrapped readings are compared on the literals that occur in a text. -/

namespace Cplastane.Assembly
open Parsec Text

def Delimited (before : List Char) : Prop := before.getLast?.any isDecDigit = false

/-- Reads the shape of literals alone, so that a text can be searched for operands before anything
is known of their numbers. -/
def unread : Numerals where
  imm _ _ := True
  disp _ _ := True
  scale _ _ := True

/-- The text has a literal of this value, wherever it stands and whatever it is used for. It does
not begin within a run of digits. -/
inductive LiteralIn (text : List Char) (value : Int) : Prop where
  | occurs {base literal} (before after : List Char) (delimited : Delimited before) (number : IntText base literal value)
      (split : text = before ++ (literal ++ after))

/-- The text has a memory operand with a displacement literal of this value. -/
inductive DisplacementIn (text : List Char) (value : Int) : Prop where
  | occurs {base name reg indexText index scale literal} (before after : List Char)
      (known : (name, reg) ∈ registerNames) (indexed : IndexText unread indexText index scale)
      (number : IntText base literal value)
      (split : text = before ++ ('[' :: (name.toList ++ (indexText ++ (" + ".toList ++ (literal ++ ']' :: after))))))

/-- Integer literals have a magnitude below 2 ^ 63, and displacement literals fit in i32: in such a
text, what the parser reads and what is meant are the same numbers. -/
structure LiteralsInRange (text : List Char) : Prop where
  literals : ∀ value, LiteralIn text value → value.natAbs < 2 ^ 63
  displacements : ∀ value, DisplacementIn text value → -2 ^ 31 ≤ value ∧ value < 2 ^ 31

/-- What the first numerals read in the text, the second ones read as well. It is asked of the
literals that occur, not of all numbers. -/
structure Numerals.Agree (first second : Numerals) (text : List Char) : Prop where
  imm : ∀ value, LiteralIn text value → ∀ imm, first.imm value imm → second.imm value imm
  scale : ∀ value, LiteralIn text value → ∀ scale, first.scale value scale → second.scale value scale
  disp : ∀ value, LiteralIn text value → DisplacementIn text value → ∀ disp, first.disp value disp → second.disp value disp

private theorem delimited_right {before after : List Char} (nonempty : after ≠ []) (delimited : Delimited after) :
    Delimited (before ++ after) := by
  unfold Delimited at delimited ⊢
  rw [List.getLast?_append, List.getLast?_eq_some_getLast nonempty] at *
  exact delimited

theorem Delimited.append {before after : List Char} (first : Delimited before) (last : Delimited after) :
    Delimited (before ++ after) := by
  by_cases empty : after = []
  · rwa [empty, List.append_nil]
  · exact delimited_right empty last

private theorem delimited_replicate (n : Nat) : Delimited (List.replicate n ' ') := by
  cases n with
  | zero => rfl
  | succ n =>
    rw [Delimited, List.getLast?_replicate]
    rfl

def Undigited {α : Type} (table : List (String × α)) : Prop := ∀ entry ∈ table, Delimited entry.1.toList

private theorem registerNames_undigited : Undigited registerNames := by
  unfold Undigited Delimited
  decide

private theorem mnemoNames_undigited : Undigited mnemoNames := by
  unfold Undigited Delimited
  decide

private theorem widthNames_undigited : Undigited widthNames := by
  unfold Undigited Delimited
  decide

theorem LiteralIn.within {before text after : List Char} {value : Int} (delimited : Delimited before)
    (literal : LiteralIn text value) : LiteralIn (before ++ (text ++ after)) value := by
  obtain ⟨inner, outer, apart, number, rfl⟩ := literal
  refine ⟨before ++ inner, outer ++ after, delimited.append apart, number, ?_⟩
  simp only [List.append_assoc]

theorem DisplacementIn.within {text : List Char} {value : Int} (before after : List Char)
    (displacement : DisplacementIn text value) : DisplacementIn (before ++ (text ++ after)) value := by
  obtain ⟨inner, outer, known, indexed, number, rfl⟩ := displacement
  refine ⟨before ++ inner, outer ++ after, known, indexed, number, ?_⟩
  simp only [List.append_assoc, List.cons_append]

theorem Numerals.Agree.within {first second : Numerals} {before text after : List Char}
    (agree : first.Agree second (before ++ (text ++ after))) (delimited : Delimited before) : first.Agree second text where
  imm value literal := agree.imm value (literal.within delimited)
  scale value literal := agree.scale value (literal.within delimited)
  disp value literal displacement := agree.disp value (literal.within delimited) (displacement.within before after)

variable {first second : Numerals} {text : List Char}

theorem IndexText.transfer {index : Reg} {scale : Scale} (agree : first.Agree second text)
    (indexed : IndexText first text index scale) : IndexText second text index scale := by
  cases indexed with
  | absent => exact .absent
  | @present name _ base literal value _ known number scaled =>
    refine .present known number (agree.scale value ?_ scale scaled)
    refine ⟨" + ".toList ++ (name.toList ++ " * ".toList), [], ?_, number, ?_⟩
    · exact delimited_right (by simp) (delimited_right (by decide) rfl)
    · simp only [List.append_assoc, List.append_nil]

private theorem IndexText.unread {index : Reg} {scale : Scale} (indexed : IndexText first text index scale) :
    IndexText unread text index scale := by
  cases indexed with
  | absent => exact .absent
  | present known number scaled => exact .present known number trivial

theorem DispText.transfer {name : String} {base index : Reg} {scale : Scale} {disp : Disp} {indexText : List Char}
    (known : (name, base) ∈ registerNames) (indexed : IndexText first indexText index scale)
    (agree : first.Agree second ('[' :: (name.toList ++ (indexText ++ (text ++ [']'])))))
    (displaced : DispText first text disp) : DispText second text disp := by
  cases displaced with
  | absent => exact .absent
  | @present _ literal value _ number read =>
    refine .present number (agree.disp value ?_ ?_ _ read)
    · refine ⟨'[' :: name.toList ++ (indexText ++ " + ".toList), [']'], ?_, number, ?_⟩
      · exact delimited_right (by simp) (delimited_right (by decide) rfl)
      · simp only [List.append_assoc, List.cons_append]
    · refine ⟨[], [], known, indexed.unread, number, ?_⟩
      simp only [List.append_assoc, List.nil_append]

theorem ArgText.transfer {arg : Arg} (agree : first.Agree second text) (derived : ArgText first text arg) :
    ArgText second text arg := by
  cases derived with
  | @int _ _ value imm number read =>
    exact .int number (agree.imm value ⟨[], [], rfl, number, by simp⟩ imm read)
  | reg known => exact .reg known
  | @mem name indexText dispText memory known indexed displaced =>
    have named : Delimited (['['] ++ name.toList) := Delimited.append rfl (registerNames_undigited _ known)
    have bracketed : first.Agree second ((['['] ++ name.toList) ++ (indexText ++ (dispText ++ [']']))) := by
      simpa using agree
    exact .mem known (indexed.transfer (bracketed.within named)) (.transfer known indexed agree displaced)

theorem OperandsText.transfer {operands : Arg × Arg} (agree : first.Agree second text)
    (derived : OperandsText first text operands) : OperandsText second text operands := by
  cases derived with
  | none => exact .none
  | one read => exact .one (read.transfer agree)
  | @two left right a1 a2 read also =>
    have comma : Delimited (left ++ ", ".toList) := delimited_right (by decide) rfl
    have leftAgree : first.Agree second ([] ++ (left ++ (", ".toList ++ right))) := agree
    have rightAgree : first.Agree second ((left ++ ", ".toList) ++ (right ++ [])) := by simpa using agree
    exact .two (read.transfer (leftAgree.within rfl)) (also.transfer (rightAgree.within comma))

private theorem WidthText.delimited {width : Width} (sized : WidthText text width) : Delimited text := by
  cases sized with
  | absent n => exact delimited_replicate n
  | present n k known =>
    exact (delimited_replicate n).append ((widthNames_undigited _ known).append (delimited_replicate k))

theorem LineText.transfer {mnemo : Mnemo} (agree : first.Agree second text) (derived : LineText first text mnemo) :
    LineText second text mnemo := by
  cases derived with
  | @line name tag widthText width operandsText operands known sized read =>
    have behind : Delimited (name.toList ++ widthText) := (mnemoNames_undigited _ known).append sized.delimited
    have operandsAgree : first.Agree second ((name.toList ++ widthText) ++ (operandsText ++ ['\n'])) := by
      simpa using agree
    exact .line known sized (read.transfer (operandsAgree.within behind))

theorem ProgramText.transfer {mnemos : List Mnemo} (agree : first.Agree second text)
    (derived : ProgramText first text mnemos) : ProgramText second text mnemos := by
  induction derived with
  | done => exact .done
  | @line line mnemo rest mnemos read _ ih =>
    have ended : Delimited line := by
      cases read
      exact delimited_right (by simp) (delimited_right (by simp) (delimited_right (by simp) rfl))
    have lineAgree : first.Agree second ([] ++ (line ++ rest)) := agree
    have restAgree : first.Agree second (line ++ (rest ++ [])) := by simpa using agree
    exact .line (read.transfer (lineAgree.within rfl)) (ih (restAgree.within ended))

theorem exact_agree_wrapped (text : List Char) : exact.Agree wrapped text where
  imm value _ imm read := by
    change imm = Int64.ofInt value
    rw [← show imm.toInt = value from read, Int64.ofInt_toInt]
  scale value _ scale read := by
    rcases read with ⟨rfl, rfl⟩ | ⟨rfl, rfl⟩ | ⟨rfl, rfl⟩ | ⟨rfl, rfl⟩
    · exact .inl ⟨rfl, rfl⟩
    · exact .inr (.inl ⟨rfl, rfl⟩)
    · exact .inr (.inr (.inl ⟨rfl, rfl⟩))
    · exact .inr (.inr (.inr ⟨rfl, rfl⟩))
  disp value _ _ disp read := by
    change disp = (Int64.ofInt value).toInt32
    rw [← show disp.toInt = value from read, Int64.toInt32_ofInt, Int32.ofInt_toInt]

private theorem LiteralsInRange.wrapped_agree_exact (ranged : LiteralsInRange text) : wrapped.Agree exact text where
  imm value literal imm read := by
    have bound := ranged.literals value literal
    change imm.toInt = value
    rw [show imm = Int64.ofInt value from read]
    exact Int64.toInt_ofInt_of_le (by omega) (by omega)
  scale value literal scale read := by
    have bound := ranged.literals value literal
    rcases read with ⟨one, rfl⟩ | ⟨two, rfl⟩ | ⟨four, rfl⟩ | ⟨eight, rfl⟩
    · exact .inl ⟨by omega, rfl⟩
    · exact .inr (.inl ⟨by omega, rfl⟩)
    · exact .inr (.inr (.inl ⟨by omega, rfl⟩))
    · exact .inr (.inr (.inr ⟨by omega, rfl⟩))
  disp value literal displacement disp read := by
    have bound := ranged.displacements value displacement
    change disp.toInt = value
    rw [show disp = (Int64.ofInt value).toInt32 from read, Int64.toInt32_ofInt]
    exact Int32.toInt_ofInt_of_le bound.1 bound.2

/-- The parser accepts exactly the texts of the grammar, with the mnemos of their
derivations; every other text gives an error or a throw. -/
theorem parser_accepts_grammar (text : List Char) (ranged : LiteralsInRange text) :
    (∀ mnemos, (∃ tail, parse (.ofText text) = .ok (.ok ⟨tail, mnemos⟩)) ↔ ProgramText exact text mnemos) ∧
      ((¬∃ mnemos, ProgramText exact text mnemos) →
        (∃ error, parse (.ofText text) = .ok (.error error)) ∨ ∃ error, parse (.ofText text) = .error (.thrown error)) := by
  have accepts (mnemos : List Mnemo) :
      (∃ tail, parse (.ofText text) = .ok (.ok ⟨tail, mnemos⟩)) ↔ ProgramText exact text mnemos := by
    constructor
    · intro parsed
      obtain ⟨tail, parsed⟩ := parsed
      exact (parse_ok_iff.mp parsed).1.transfer ranged.wrapped_agree_exact
    · intro derived
      exact ⟨_, parse_ok_iff.mpr ⟨derived.transfer (exact_agree_wrapped text), rfl⟩⟩
  refine ⟨accepts, ?_⟩
  intro underivable
  rcases parse_total text with ⟨result, parsed⟩ | thrown
  · cases result with
    | error error => exact .inl ⟨error, parsed⟩
    | ok result => exact absurd ⟨result.data, (accepts result.data).mp ⟨result.tail, parsed⟩⟩ underivable
  · exact .inr thrown

theorem digitValue_lt {base : Base} {c : Char} (digit : base.isDigit c = true) : Base.digitValue c < 16 := by
  have hex : isHexDigit c = true := by
    cases base with
    | ten => simp [isHexDigit, show isDecDigit c = true from digit]
    | sixteen => exact digit
  have codes : '0'.toNat = 48 ∧ '9'.toNat = 57 ∧ 'A'.toNat = 65 ∧ 'F'.toNat = 70 := by decide
  rw [isHexDigit_iff] at hex
  unfold Base.digitValue
  split
  next decimal =>
    have bounds := (isDecDigit_iff c).mp decimal
    omega
  next other =>
    have bounds := hex.resolve_left other
    omega

private theorem accumulate_lt (base : Base) (digits : List Char) (all : ∀ c ∈ digits, base.isDigit c = true)
    (start : Nat) :
    digits.foldl (fun value c => value * base.radix + Base.digitValue c) start < (start + 1) * 16 ^ digits.length := by
  induction digits generalizing start with
  | nil => simp
  | cons c digits ih =>
    have digit := digitValue_lt (all c List.mem_cons_self)
    have radix : start * base.radix ≤ start * 16 := Nat.mul_le_mul_left _ (by cases base <;> decide)
    calc
      _ < (start * base.radix + Base.digitValue c + 1) * 16 ^ digits.length :=
        ih (fun d member => all d (List.mem_cons_of_mem c member)) _
      _ ≤ ((start + 1) * 16) * 16 ^ digits.length := Nat.mul_le_mul_right _ (by omega)
      _ = (start + 1) * 16 ^ (c :: digits).length := by rw [List.length_cons, Nat.pow_succ, Nat.mul_assoc, Nat.mul_comm 16]

theorem IntText.bound {base : Base} {literal : List Char} {value : Int} (number : IntText base literal value) :
    value.natAbs < 16 ^ literal.length := by
  cases number with
  | @literal sign factor digits signed some all =>
    have magnitude : (factor * (base.positional digits : Int)).natAbs = base.positional digits := by
      cases signed <;> simp
    have size : digits.length ≤ (sign ++ (base.marker ++ digits)).length := by
      simp only [List.length_append]
      omega
    rw [magnitude]
    calc
      base.positional digits < (0 + 1) * 16 ^ digits.length := accumulate_lt base digits all 0
      _ ≤ 16 ^ (sign ++ (base.marker ++ digits)).length := by
        rw [Nat.zero_add, Nat.one_mul]
        exact Nat.pow_le_pow_right (by decide) size

private theorem registerNames_length : ∀ entry ∈ registerNames, 2 ≤ entry.1.toList.length := by
  decide

private theorem short_in_range (short : text.length ≤ 14) : LiteralsInRange text where
  literals value literal := by
    obtain ⟨before, after, -, number, rfl⟩ := literal
    simp only [List.length_append] at short
    calc
      value.natAbs < 16 ^ _ := number.bound
      _ ≤ 16 ^ 14 := Nat.pow_le_pow_right (by decide) (by omega)
      _ < 2 ^ 63 := by decide
  displacements value displacement := by
    obtain ⟨before, after, known, indexed, number, rfl⟩ := displacement
    have named := registerNames_length _ known
    have plus : " + ".toList.length = 3 := rfl
    simp only [List.length_append, List.length_cons, plus] at short named
    have bound := number.bound.trans_le (Nat.pow_le_pow_right (by decide) (show _ ≤ 7 by omega))
    omega

theorem parser_accepts_pop : ∃ tail, parse (.ofString "pop [rax + 8]\n") =
    .ok (.ok ⟨tail, [⟨.pop, .notSet, .memory ⟨.rax, .undef, .s0, 8, fun _ => rfl⟩, .undef⟩]⟩) := by
  have digits : ∀ c ∈ ['8'], Base.ten.isDigit c = true := by
    intro c member
    rw [List.mem_singleton.mp member]
    rfl
  have eight : IntText .ten ([] ++ (Base.ten.marker ++ ['8'])) (1 * 8) := .literal .plus (by simp) digits
  have known : ("rax", Reg.rax) ∈ registerNames := by simp [registerNames]
  have disp : DispText exact _ 8 := .present eight (show (8 : Disp).toInt = 1 * 8 by decide)
  have operand : ArgText exact _ (.memory ⟨.rax, .undef, .s0, 8, fun _ => rfl⟩) := .mem known .absent disp
  have line : LineText exact _ _ :=
    .line (show ("pop", Tag.pop) ∈ mnemoNames by simp [mnemoNames]) (.absent 1) (.one operand)
  have accepted := parser_accepts_grammar "pop [rax + 8]\n".toList (short_in_range (by decide))
  exact (accepted.1 _).mpr (.line line .done)

end Cplastane.Assembly
