import Cplastane.Proofs.Escapes
import Cplastane.Proofs.Literals

/-! What is behind the texts of parser errors. At the place of an error the line lacks
something, which is described here by the grammar and not by the text; the text follows from
it. Of the texts that the parser has for errors only five are ever reported. -/

namespace Cplastane.Assembly
open Parsec Text Exceptions

def Unnamed {α : Type} (table : List (String × α)) (text : List Char) : Prop := ∀ entry ∈ table, ¬entry.1.toList <+: text

/-- What a refused line lacks at the place of its error, in the words of the grammar. `sense` is for
an operand that is lost already: with the bracket behind it, `parse_arg` throws. -/
inductive Lack where
  | name
  | newline
  | operand
  | register
  | bracket
  | sense
deriving DecidableEq, Repr

/-- The text that is reported for it. It need not name what is lacking: for a missing closing
bracket the parser says that it expected an opening one, and so it does for a bracket that would not
help. -/
def Lack.text : Lack → String
  | name => "expected mnemo name"
  | newline => "expected a newline"
  | operand => "expected a memory argument"
  | register => "expected register"
  | bracket | sense => "expected '['"

/-- The front of a line, what it lacks, and what there is behind the front instead. A front that
lacks a newline would be a complete line with it; one that lacks a bracket, a register or an operand
has read its first operand and the comma, and the second one stops there. -/
inductive Lacks : Lack → List Char → List Char → Prop where
  | name {rest} (unnamed : Unnamed mnemoNames rest) : Lacks .name [] rest
  | newline {front mnemo rest} (complete : LineText wrapped (front ++ ['\n']) mnemo) (unended : rest.head? ≠ some '\n') :
      Lacks .newline front rest
  | operand {front mnemo rest} (complete : LineText wrapped (front ++ ['\n']) mnemo) (illiterate : (lexeme rest).digits = [])
      (unnamed : Unnamed registerNames rest) (unopened : rest.head? ≠ some '[') :
      Lacks .operand (front ++ ", ".toList) rest
  | register {front mnemo rest} (complete : LineText wrapped (front ++ ['\n']) mnemo) (unnamed : Unnamed registerNames rest) :
      Lacks .register (front ++ (", ".toList ++ ['['])) rest
  | bracket {front mnemo operand arg rest} (complete : LineText wrapped (front ++ ['\n']) mnemo)
      (closed : ArgText wrapped (operand ++ [']']) arg) (unclosed : rest.head? ≠ some ']') :
      Lacks .bracket (front ++ (", ".toList ++ operand)) rest
  | sense {front mnemo operand rest} (complete : LineText wrapped (front ++ ['\n']) mnemo)
      (throws : ThrowingArg (operand ++ [']'])) (unclosed : rest.head? ≠ some ']') :
      Lacks .sense (front ++ (", ".toList ++ operand)) rest

private theorem unnamed_of_keyword {α : Type} {table : List (String × α)} {text : List Char}
    (absent : keyword table text = none) :
    Unnamed table text := by
  intro entry known front
  obtain ⟨rest, rfl⟩ := front
  have unmatched := List.findSome?_eq_none_iff.mp absent _ known
  simp at unmatched

private theorem head_of_dropPrefix {text : List Char} {c : Char} (absent : text.dropPrefix? [c] = none) :
    text.head? ≠ some c := by
  intro front
  cases text with
  | nil => cases front
  | cons d text =>
    cases front
    simp [List.dropPrefix?] at absent

inductive OperandLacks : Lack → List Char → List Char → Prop where
  | operand {rest} (illiterate : (lexeme rest).digits = []) (unnamed : Unnamed registerNames rest)
      (unopened : rest.head? ≠ some '[') : OperandLacks .operand [] rest
  | register {rest} (unnamed : Unnamed registerNames rest) : OperandLacks .register ['['] rest
  | bracket {operand arg rest} (closed : ArgText wrapped (operand ++ [']']) arg) (unclosed : rest.head? ≠ some ']') :
      OperandLacks .bracket operand rest
  | sense {operand rest} (throws : ThrowingArg (operand ++ [']'])) (unclosed : rest.head? ≠ some ']') :
      OperandLacks .sense operand rest

private theorem closed_memory {name : String} {base index : Reg} {scale : Scale} {text dispText behind : List Char}
    {disp : Disp}
    (based : (name, base) ∈ registerNames) (reading : IndexReading text (.ok ((index, scale), dispText ++ behind)))
    (displaced : DispText wrapped dispText disp) :
    ∃ indexText, text = indexText ++ (dispText ++ behind) ∧
      ((∃ arg, ArgText wrapped ('[' :: (name.toList ++ (indexText ++ (dispText ++ [']'])))) arg) ∨
        ThrowingArg ('[' :: (name.toList ++ (indexText ++ (dispText ++ [']']))))) := by
  cases reading with
  | absent => exact ⟨[], rfl, .inl ⟨_, @ArgText.mem wrapped _ _ _ ⟨base, .undef, .s0, disp, fun _ => rfl⟩ based .absent displaced⟩⟩
  | @bare indexName _ _ known split =>
    refine ⟨" + ".toList ++ indexName.toList, by simp [split], .inr ?_⟩
    rw [List.append_assoc]
    exact .bare [] based known displaced
  | @scaled indexName _ radix literal value _ _ known number proper split =>
    refine ⟨" + ".toList ++ (indexName.toList ++ (" * ".toList ++ literal)), by simp [split], ?_⟩
    by_cases zero : scale = .s0
    · subst zero
      have thrown := ThrowingArg.zero [] based known number ((scaleOfLiteral_zero_iff value).mp proper) displaced
      exact .inr (by simpa using thrown)
    · have indexed : IndexText wrapped (" + ".toList ++ (indexName.toList ++ (" * ".toList ++ literal))) index scale :=
        .present known number ((scaleOfLiteral_proper_iff _ _).mp ⟨proper, zero⟩)
      exact .inl ⟨_, @ArgText.mem wrapped _ _ _ ⟨base, index, scale, disp, fun same => absurd same zero⟩ based indexed displaced⟩

private theorem readMemory_missing {text : List Char} {failure : Failure}
    (read : readMemory text = .ok (.error failure)) :
    ∃ operand lack, '[' :: text = operand ++ failure.rest ∧ OperandLacks lack operand failure.rest ∧ failure.what = lack.text := by
  unfold readMemory at read
  split at read
  next absent =>
    cases read
    exact ⟨['['], .register, rfl, .register (unnamed_of_keyword absent), rfl⟩
  next base rest named =>
    obtain ⟨name, based, rfl⟩ := keyword_sound named
    obtain ⟨⟨⟨index, scale⟩, middle⟩, indexed, read⟩ := bind_ok.mp read
    obtain ⟨dispText, split, displaced⟩ := readDisp_sound middle
    have reading := readIndex_reading rest
    rw [indexed] at reading
    dsimp only at read
    generalize readDisp middle = result at read split displaced
    obtain ⟨disp, behind⟩ := result
    dsimp only at read split displaced
    subst split
    split at read
    next unclosed =>
      cases read
      obtain ⟨indexText, split, closed⟩ := closed_memory based reading displaced
      have consumed : '[' :: (name.toList ++ rest) = '[' :: (name.toList ++ (indexText ++ dispText)) ++ behind := by simp [split]
      have missing := head_of_dropPrefix unclosed
      rcases closed with ⟨arg, closed⟩ | throws
      · exact ⟨_, .bracket, consumed, .bracket (by simpa using closed) missing, rfl⟩
      · exact ⟨_, .sense, consumed, .sense (by simpa using throws) missing, rfl⟩
    · obtain ⟨built, made, same⟩ := bind_ok.mp read
      cases same

private theorem readArg_missing {text : List Char} {failure : Failure} (read : readArg text = .ok (.error failure)) :
    ∃ operand lack, text = operand ++ failure.rest ∧ OperandLacks lack operand failure.rest ∧ failure.what = lack.text := by
  unfold readArg at read
  split at read
  · cases read
  next notNumber =>
    split at read
    · cases read
    next notRegister =>
      split at read
      next unopened =>
        cases read
        have illiterate : (lexeme text).digits = [] := by
          by_contra digits
          rw [readInt_lexeme, if_neg digits] at notNumber
          cases notNumber
        exact ⟨[], .operand, rfl, .operand illiterate (unnamed_of_keyword notRegister) (head_of_dropPrefix unopened), rfl⟩
      next inner bracket =>
        rw [dropPrefix_iff.mp bracket]
        exact readMemory_missing read

private theorem readOperands_missing {text : List Char} {failure : Failure}
    (read : readOperands text = .ok (.error failure)) :
    ∃ first a1 operand lack, text = first ++ (", ".toList ++ (operand ++ failure.rest)) ∧ ArgText wrapped first a1 ∧
      OperandLacks lack operand failure.rest ∧ failure.what = lack.text := by
  obtain ⟨result, first, read⟩ := bind_ok.mp read
  cases result with
  | error other => cases read
  | ok result =>
    obtain ⟨a1, rest⟩ := result
    obtain ⟨firstText, rfl, derived⟩ := readArg_sound first
    dsimp only at read
    split at read
    · cases read
    next inner comma =>
      obtain ⟨result, second, read⟩ := bind_ok.mp read
      cases result with
      | ok result => cases read
      | error other =>
        cases read
        obtain ⟨operand, lack, rfl, missing⟩ := readArg_missing second
        exact ⟨firstText, a1, operand, lack, by rw [dropPrefix_iff.mp comma], derived, missing⟩

theorem OperandLacks.line {lack : Lack} {front operand rest : List Char} {mnemo : Mnemo}
    (missing : OperandLacks lack operand rest) (complete : LineText wrapped (front ++ ['\n']) mnemo) :
    Lacks lack (front ++ (", ".toList ++ operand)) rest := by
  cases missing with
  | operand illiterate unnamed unopened => exact .operand complete illiterate unnamed unopened
  | register unnamed => exact .register complete unnamed
  | bracket closed unclosed => exact .bracket complete closed unclosed
  | sense throws unclosed => exact .sense complete throws unclosed

private theorem readLine_missing {text : List Char} {failure : Failure} (read : readLine text = .ok (.error failure)) :
    ∃ consumed lack, text = consumed ++ failure.rest ∧ Lacks lack consumed failure.rest ∧ failure.what = lack.text := by
  unfold readLine at read
  split at read
  next absent =>
    cases read
    exact ⟨[], .name, rfl, .name (unnamed_of_keyword absent), rfl⟩
  next tag rest named =>
    obtain ⟨name, known, rfl⟩ := keyword_sound named
    obtain ⟨widthText, split, sized⟩ := readWidth_sound rest
    generalize readWidth rest = sizing at read split sized
    obtain ⟨width, middle⟩ := sizing
    dsimp only at split
    obtain ⟨result, operandsRead, read⟩ := bind_ok.mp read
    cases result with
    | error other =>
      cases read
      obtain ⟨first, a1, operand, lack, taken, derived, missing, reported⟩ := readOperands_missing operandsRead
      have complete : LineText wrapped ((name.toList ++ (widthText ++ first)) ++ ['\n']) ⟨tag, width, a1, .undef⟩ := by
        simpa using LineText.line known sized (.one derived)
      exact ⟨_, lack, by simp [split, taken], missing.line complete, reported⟩
    | ok result =>
      obtain ⟨operands, behind⟩ := result
      dsimp only at read
      split at read
      next unended =>
        cases read
        obtain ⟨operandsText, taken, derived⟩ := readOperands_sound operandsRead
        have complete : LineText wrapped ((name.toList ++ (widthText ++ operandsText)) ++ ['\n'])
            ⟨tag, width, operands.1, operands.2⟩ := by
          simpa using LineText.line known sized derived
        exact ⟨_, .newline, by simp [split, taken], .newline complete (head_of_dropPrefix unended), rfl⟩
      · cases read

/-- An error of the parser is the failure of a line behind accepted ones. -/
theorem parse_failure {text : List Char} {error : ParserError} (failed : parse (.ofText text) = .ok (.error error)) :
    ∃ mnemos bad failure, Lines text mnemos bad ∧ readLine bad = .ok (.error failure) ∧
      error = ⟨failure.what, cursor text failure.rest⟩ := by
  obtain ⟨mnemos, bad, outcome, lines, stopped⟩ := lines_stop text
  rw [parse_stopped lines stopped] at failed
  cases stopped with
  | finished | thrown => cases failed
  | refused nonempty read => exact ⟨mnemos, bad, _, lines, read, (Except.error.inj (Except.ok.inj failed)).symm⟩

/-- Behind the lines that are accepted, the next one lacks something at the place of the error,
and this decides the error's text. -/
theorem parse_error_explained {text : List Char} {error : ParserError}
    (failed : parse (.ofText text) = .ok (.error error)) :
    ∃ lines mnemos consumed rest lack, text = lines ++ (consumed ++ rest) ∧ ProgramText wrapped lines mnemos ∧
      error.place = cursor text rest ∧ Lacks lack consumed rest ∧ error.what = lack.text := by
  obtain ⟨mnemos, bad, failure, lines, read, rfl⟩ := parse_failure failed
  obtain ⟨front, split, program⟩ := lines.sound
  obtain ⟨consumed, lack, behind, missing, reported⟩ := readLine_missing read
  exact ⟨front, mnemos, consumed, failure.rest, lack, by rw [split, ← behind], program, rfl, missing, reported⟩

private theorem parse_refused {text : List Char} {failure : Failure} (nonempty : text ≠ [])
    (read : readLine text = .ok (.error failure)) :
    parse (.ofText text) = .ok (.error ⟨failure.what, cursor text failure.rest⟩) :=
  parse_stopped (.here text) (.refused nonempty read)

theorem parse_error_explained_bracket : ∃ lines mnemos consumed rest lack,
    "mov eax, [eax[\n".toList = lines ++ (consumed ++ rest) ∧ ProgramText wrapped lines mnemos ∧
      cursor "mov eax, [eax[\n".toList "[\n".toList = cursor "mov eax, [eax[\n".toList rest ∧
      Lacks lack consumed rest ∧ "expected '['" = lack.text := by
  have read : readLine "mov eax, [eax[\n".toList = .ok (.error ⟨"expected '['", "[\n".toList⟩) := rfl
  exact parse_error_explained (parse_refused (by decide) read)

def errorTexts : List String :=
  ["expected mnemo name", "expected a newline", "expected a memory argument", "expected register", "expected '['"]

theorem Lack.reported (lack : Lack) : lack.text ∈ errorTexts := by
  cases lack <;> simp [errorTexts, Lack.text]

/-- The parser reports these texts, and no others. -/
theorem parse_error_texts (what : String) :
    (∃ text error, parse (.ofText text) = .ok (.error error) ∧ error.what = what) ↔ what ∈ errorTexts := by
  constructor
  · intro reported
    obtain ⟨text, error, failed, rfl⟩ := reported
    obtain ⟨_, _, _, _, read, rfl⟩ := parse_failure failed
    obtain ⟨_, lack, -, -, reported⟩ := readLine_missing read
    exact reported ▸ lack.reported
  · intro member
    simp only [errorTexts, List.mem_cons, List.not_mem_nil, or_false] at member
    rcases member with rfl | rfl | rfl | rfl | rfl
    · have read : readLine "?".toList = .ok (.error ⟨"expected mnemo name", "?".toList⟩) := rfl
      exact ⟨_, _, parse_refused (by decide) read, rfl⟩
    · have read : readLine "ret ?".toList = .ok (.error ⟨"expected a newline", "?".toList⟩) := rfl
      exact ⟨_, _, parse_refused (by decide) read, rfl⟩
    · have read : readLine "mov eax, ?".toList = .ok (.error ⟨"expected a memory argument", "?".toList⟩) := rfl
      exact ⟨_, _, parse_refused (by decide) read, rfl⟩
    · have read : readLine "mov eax, [?".toList = .ok (.error ⟨"expected register", "?".toList⟩) := rfl
      exact ⟨_, _, parse_refused (by decide) read, rfl⟩
    · have read : readLine "mov eax, [eax".toList = .ok (.error ⟨"expected '['", []⟩) := rfl
      exact ⟨_, _, parse_refused (by decide) read, rfl⟩

end Cplastane.Assembly
