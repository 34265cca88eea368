import Cplastane.Proofs.GrammarComplete
import Cplastane.Proofs.ParserReads

/-! Whole runs of the parser. The loop takes accepted lines off the front of the text
until nothing is left, a line is refused, or an exception escapes. -/

namespace Cplastane.Assembly
open Parsec Text Exceptions

/-- Accepted lines from the front of a text, and the text behind them. -/
inductive Lines : List Char → List Mnemo → List Char → Prop where
  | here (text : List Char) : Lines text [] text
  | next {text mnemo tail mnemos rest} (read : readLine text = .ok (.ok (mnemo, tail)))
      (others : Lines tail mnemos rest) : Lines text (mnemo :: mnemos) rest

/-- The loop does not go on from this text: it is at the end, or its next line is refused or throws.
-/
inductive Stopped : List Char → Except Throw (Option Failure) → Prop where
  | finished : Stopped [] (.ok none)
  | refused {text failure} (nonempty : text ≠ []) (read : readLine text = .ok (.error failure)) :
      Stopped text (.ok (some failure))
  | thrown {text error} (read : readLine text = .error error) : Stopped text (.error error)

theorem LineText.length_ge {numerals : Numerals} {line : List Char} {mnemo : Mnemo}
    (derived : LineText numerals line mnemo) : 4 ≤ line.length := by
  have names : ∀ entry ∈ mnemoNames, decide (3 ≤ entry.1.toList.length) = true := List.all_eq_true.mp rfl
  cases derived with
  | @line name _ _ _ _ _ known =>
    have long : 3 ≤ name.toList.length := of_decide_eq_true (names _ known)
    simp only [List.length_append, List.length_singleton]
    omega

theorem readLine_progress {text tail : List Char} {mnemo : Mnemo} (read : readLine text = .ok (.ok (mnemo, tail))) :
    tail.length + 4 ≤ text.length := by
  obtain ⟨line, rfl, derived⟩ := readLine_sound read
  have consumed := derived.length_ge
  rw [List.length_append]
  omega

theorem readLine_suffix {text tail : List Char} {mnemo : Mnemo} (read : readLine text = .ok (.ok (mnemo, tail))) :
    tail <:+ text := by
  obtain ⟨line, rfl, -⟩ := readLine_sound read
  exact List.suffix_append _ _

theorem Lines.trans {text middle rest : List Char} {first second : List Mnemo} (lines : Lines text first middle)
    (others : Lines middle second rest) : Lines text (first ++ second) rest := by
  induction lines with
  | here text => exact others
  | next read _ ih => exact .next read (ih others)

theorem lines_stop (text : List Char) : ∃ mnemos stop outcome, Lines text mnemos stop ∧ Stopped stop outcome := by
  induction size : text.length using Nat.strong_induction_on generalizing text with
  | _ size ih =>
    by_cases finished : text = []
    · subst finished
      exact ⟨[], [], _, .here [], .finished⟩
    cases read : readLine text with
    | error error => exact ⟨[], text, _, .here text, .thrown read⟩
    | ok line =>
      cases line with
      | error failure => exact ⟨[], text, _, .here text, .refused finished read⟩
      | ok line =>
        obtain ⟨mnemo, tail⟩ := line
        have progress := readLine_progress read
        obtain ⟨mnemos, stop, outcome, others, stopped⟩ := ih tail.length (by omega) tail rfl
        exact ⟨mnemo :: mnemos, stop, outcome, .next read others, stopped⟩

theorem ProgramText.lines {text : List Char} {mnemos : List Mnemo} (derived : ProgramText wrapped text mnemos)
    (rest : List Char) : Lines (text ++ rest) mnemos rest := by
  induction derived with
  | done => exact .here rest
  | line read _ ih =>
    rw [List.append_assoc]
    exact .next (readLine_append read _) ih

theorem Lines.sound {text rest : List Char} {mnemos : List Mnemo} (lines : Lines text mnemos rest) :
    ∃ consumed, text = consumed ++ rest ∧ ProgramText wrapped consumed mnemos := by
  induction lines with
  | here text => exact ⟨[], rfl, .done⟩
  | next read _ ih =>
    obtain ⟨line, rfl, derived⟩ := readLine_sound read
    obtain ⟨consumed, rfl, program⟩ := ih
    exact ⟨line ++ consumed, (List.append_assoc _ _ _).symm, .line derived program⟩

theorem Lines.suffix {text rest : List Char} {mnemos : List Mnemo} (lines : Lines text mnemos rest) :
    rest <:+ text := by
  obtain ⟨consumed, rfl, -⟩ := lines.sound
  exact List.suffix_append _ _

variable {text rest : List Char}

theorem parseLines_next (suffix : rest <:+ text) (result : List Mnemo) {mnemo : Mnemo} {tail : List Char}
    (read : readLine rest = .ok (.ok (mnemo, tail))) :
    parseLines (cursor text rest) result = parseLines (cursor text tail) (result ++ [mnemo]) := by
  have progress := readLine_progress read
  have shorter : tail.length < rest.length := by omega
  have nonempty : rest ≠ [] := by
    intro none
    simp [none] at progress
  rw [parseLines]
  simp [nonempty, parseLine_cursor suffix, read, shorter]

private theorem parseLines_lines {mnemos : List Mnemo} {stop : List Char} (lines : Lines rest mnemos stop)
    (suffix : rest <:+ text) (result : List Mnemo) :
    parseLines (cursor text rest) result = parseLines (cursor text stop) (result ++ mnemos) := by
  induction lines generalizing result with
  | here rest => rw [List.append_nil]
  | next read _ ih =>
    rw [parseLines_next suffix result read, ih ((readLine_suffix read).trans suffix), List.append_assoc]
    rfl

def finish (text : List Char) (mnemos : List Mnemo) : Except Throw (Option Failure) → Run (ParserResultResult (List Mnemo))
  | .ok none => .ok (.ok ⟨cursor text [], mnemos⟩)
  | .ok (some failure) => .ok (.error ⟨failure.what, cursor text failure.rest⟩)
  | .error error => .error (.thrown error)

theorem parseLines_stopped {outcome : Except Throw (Option Failure)} (stopped : Stopped rest outcome)
    (suffix : rest <:+ text) (result : List Mnemo) :
    parseLines (cursor text rest) result = finish text result outcome := by
  rw [parseLines]
  cases stopped with
  | finished => rfl
  | refused nonempty read => simp [nonempty, parseLine_cursor suffix, read, finish]
  | thrown read =>
    have nonempty : rest ≠ [] := by
      intro none
      rw [none] at read
      cases read
    simp [nonempty, parseLine_cursor suffix, read, finish]

theorem parse_stopped {mnemos : List Mnemo} {stop : List Char} {outcome : Except Throw (Option Failure)}
    (lines : Lines text mnemos stop) (stopped : Stopped stop outcome) :
    parse (.ofText text) = finish text mnemos outcome := by
  rw [parse, ofText_eq, parseLines_lines lines List.suffix_rfl]
  exact parseLines_stopped stopped lines.suffix mnemos

/-- The texts that are parsed are the programs of the grammar with wrapped numerals. -/
theorem parse_ok_iff {tail : Strive} {mnemos : List Mnemo} :
    parse (.ofText text) = .ok (.ok ⟨tail, mnemos⟩) ↔ ProgramText wrapped text mnemos ∧ tail = cursor text [] := by
  obtain ⟨found, stop, outcome, lines, stopped⟩ := lines_stop text
  constructor
  · intro parsed
    rw [parse_stopped lines stopped] at parsed
    cases stopped with
    | refused | thrown => cases parsed
    | finished =>
      cases parsed
      obtain ⟨consumed, rfl, program⟩ := lines.sound
      rw [List.append_nil]
      exact ⟨program, rfl⟩
  · intro accepted
    obtain ⟨program, rfl⟩ := accepted
    have lines := program.lines []
    rw [List.append_nil] at lines
    exact parse_stopped lines .finished

/-- A run either returns a result or throws: it never leaves its text, and it ends. -/
theorem parse_total (text : List Char) :
    (∃ result, parse (.ofText text) = .ok result) ∨ ∃ error, parse (.ofText text) = .error (.thrown error) := by
  obtain ⟨mnemos, stop, outcome, lines, stopped⟩ := lines_stop text
  rw [parse_stopped lines stopped]
  cases stopped with
  | finished => exact .inl ⟨_, rfl⟩
  | refused nonempty read => exact .inl ⟨_, rfl⟩
  | thrown read => exact .inr ⟨_, rfl⟩

end Cplastane.Assembly
