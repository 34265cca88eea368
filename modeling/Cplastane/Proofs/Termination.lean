import Cplastane.Loop
import Cplastane.Proofs.CursorSafety

/-! The end of parsing. The loops of the source are written out as loops, with nothing
that would stop them: every turn that goes on has to consume text. -/

namespace Cplastane
open Parsec Text

namespace Parsec

variable {ε : Type}

def skipTurn (predicate : Char → Bool) (tail : Strive) : Loop.Turn Strive (Except (Fault ε) (ParserResult Unit)) :=
  if tail.empty then .done (.ok ⟨tail, ()⟩)
  else
    match tail.front with
    | .error fault => .done (.error fault)
    | .ok c =>
      if predicate c then
        match tail.substr 1 with
        | .error fault => .leave (.error fault)
        | .ok rest => .again rest
      else .done (.ok ⟨tail, ()⟩)

/-- The loop of `parse_positive_i64`, which is left by a `break`. -/
def digitTurn (base : Base) (state : Strive × i64) : Loop.Turn (Strive × i64) (Except (Fault ε) (ParserResult i64)) :=
  let (tail, result) := state
  if tail.empty then .leave (.ok ⟨tail, result⟩)
  else
    match tail.front with
    | .error fault => .leave (.error fault)
    | .ok c =>
      if base.isDigit c then
        match tail.substr 1 with
        | .error fault => .leave (.error fault)
        | .ok rest => .again (rest, result * base.toInt + base.digitToInt c)
      else .leave (.ok ⟨tail, result⟩)

/-- The loop of `consume_prefix_str` over the index, and whether it runs to its end. -/
def prefixTurn (tail pre : Strive) (i : Nat) : Loop.Turn Nat (Except (Fault ε) Bool) :=
  if i < pre.size then
    match tail.get i, pre.get i with
    | .ok c, .ok d => if c ≠ d then .leave (.ok false) else .again (i + 1)
    | .error fault, _ | _, .error fault => .leave (.error fault)
  else .done (.ok true)

end Parsec

namespace Assembly

def lineTurn (state : Strive × List Mnemo) : Loop.Turn (Strive × List Mnemo) (Run (ParserResultResult (List Mnemo))) :=
  let (tail, result) := state
  if tail.empty then .done (.ok (.ok ⟨tail, result⟩))
  else
    match parseLine tail with
    | .error fault => .leave (.error fault)
    | .ok (.error error) => .leave (.ok (.error error))
    | .ok (.ok result1) => .again (result1.tail, result ++ [result1.data])

section InnerLoops

variable {ε : Type} {text rest : List Char}

private theorem skip_falls (predicate : Char → Bool) (tail : Strive) (created : Created text tail) :
    (skipTurn predicate tail).Falls (Created text)
      (fun tail => (skipWhileChar tail predicate : Except (Fault ε) (ParserResult Unit))) Strive.size 1 tail := by
  obtain ⟨rest, suffix, rfl⟩ := created_iff.mp created
  cases rest with
  | nil => exact skipWhileChar_cursor suffix predicate
  | cons c rest =>
    have moved : Created text (cursor text rest) := created_cursor (suffix_tail suffix)
    unfold skipTurn
    by_cases matched : predicate c = true
    · simp [cursor_front suffix, cursor_next suffix, matched, Loop.Turn.Falls, moved,
        skipWhileChar_cursor suffix, skipWhileChar_cursor (suffix_tail suffix)]
    · simp [cursor_front suffix, matched, Loop.Turn.Falls, skipWhileChar_cursor suffix]

private theorem digit_falls (base : Base) (state : Strive × i64) (created : Created text state.1) :
    (digitTurn base state).Falls (fun state => Created text state.1)
      (fun state => (parseDigits base state.1 state.2 : Except (Fault ε) (ParserResult i64))) (·.1.size) 1 state := by
  obtain ⟨tail, result⟩ := state
  obtain ⟨rest, suffix, rfl⟩ := created_iff.mp created
  cases rest with
  | nil => exact parseDigits_cursor suffix base result
  | cons c rest =>
    have moved : Created text (cursor text rest) := created_cursor (suffix_tail suffix)
    unfold digitTurn
    by_cases matched : base.isDigit c = true
    · simp [cursor_front suffix, cursor_next suffix, matched, Loop.Turn.Falls, moved,
        parseDigits_cursor suffix, parseDigits_cursor (suffix_tail suffix)]
    · simp [cursor_front suffix, matched, Loop.Turn.Falls, parseDigits_cursor suffix]

private theorem prefix_falls (suffix : rest <:+ text) (pre : String) (short : pre.toList.length ≤ rest.length) (i : Nat)
    (inside : i ≤ pre.toList.length) :
    (prefixTurn (cursor text rest) (.ofString pre) i).Falls (· ≤ pre.toList.length)
      (fun i => (samePrefix (cursor text rest) (.ofString pre) i : Except (Fault ε) Bool)) (pre.toList.length - ·) 1 i := by
  have size : (Strive.ofString pre).size = pre.toList.length := rfl
  rw [prefixTurn, size]
  by_cases last : i = pre.toList.length
  · rw [if_neg (by omega)]
    change samePrefix (cursor text rest) (.ofString pre) i = .ok true
    rw [samePrefix, if_neg (by omega)]
  · have inPre : i < pre.toList.length := by omega
    have inRest : i < rest.length := by omega
    have readPre : (Strive.ofString pre).get i = (.ok pre.toList[i] : Except (Fault ε) Char) := by
      rw [Strive.ofString, ofText_eq]
      exact cursor_get List.suffix_rfl (List.getElem?_eq_getElem inPre)
    have readRest : (cursor text rest).get i = (.ok rest[i] : Except (Fault ε) Char) :=
      cursor_get suffix (List.getElem?_eq_getElem inRest)
    have value : (samePrefix (cursor text rest) (.ofString pre) i : Except (Fault ε) Bool) =
        if rest[i] ≠ pre.toList[i] then .ok false else samePrefix (cursor text rest) (.ofString pre) (i + 1) := by
      rw [samePrefix, size, if_pos inPre]
      simp only [readPre, readRest, bind, Except.bind, pure, Except.pure]
    rw [if_pos inPre, readPre, readRest]
    by_cases different : rest[i] ≠ pre.toList[i]
    · simp [different, Loop.Turn.Falls, value]
    · rw [if_neg different] at value
      simp only [different, if_false]
      refine ⟨inPre, value.symm, ?_⟩
      change pre.toList.length - (i + 1) + 1 ≤ pre.toList.length - i
      omega

end InnerLoops

/-- The inner loops end on this cursor, with the results of their functions, and none takes more
turns than there are characters, but for the one that ends it. A prefix that is longer than the
cursor is not compared. -/
structure InnerLoopsEnd (tail : Strive) : Prop where
  skip (predicate : Char → Bool) : ∃ result, skipWhileChar tail predicate = (.ok result : Run (ParserResult Unit)) ∧
    Loop.run (skipTurn predicate) (tail.size + 1) tail = some (.ok result : Run (ParserResult Unit))
  digits (base : Base) (n : i64) : ∃ result, parseDigits base tail n = (.ok result : Run (ParserResult i64)) ∧
    Loop.run (digitTurn base) (tail.size + 1) (tail, n) = some (.ok result : Run (ParserResult i64))
  comparison (pre : String) (short : pre.toList.length ≤ tail.size) : ∃ result,
    samePrefix tail (.ofString pre) 0 = (.ok result : Run Bool) ∧
      Loop.run (prefixTurn tail (.ofString pre)) (pre.toList.length + 1) 0 = some (.ok result : Run Bool)

private theorem inner_loops_end {text : List Char} {tail : Strive} (created : Created text tail) :
    InnerLoopsEnd tail := by
  obtain ⟨rest, suffix, rfl⟩ := created_iff.mp created
  constructor
  · intro predicate
    have ended := Loop.run_bounded (skip_falls (ε := Throw) predicate) Nat.one_pos created
    rw [Nat.div_one, skipWhileChar_cursor suffix] at ended
    exact ⟨_, skipWhileChar_cursor suffix predicate, ended⟩
  · intro base n
    have start : Created text (cursor text rest, n).1 := created
    have ended := Loop.run_bounded (digit_falls (ε := Throw) base) Nat.one_pos start
    rw [Nat.div_one, parseDigits_cursor suffix] at ended
    exact ⟨_, parseDigits_cursor suffix base n, ended⟩
  · intro pre short
    have ended := Loop.run_bounded (prefix_falls (ε := Throw) suffix pre short) Nat.one_pos (Nat.zero_le _)
    have compared := samePrefix_cursor (ε := Throw) suffix pre.toList short (Nat.zero_le _)
    rw [Nat.div_one, Nat.sub_zero, Strive.ofString, compared] at ended
    exact ⟨_, compared, ended⟩

section Lines

variable {text : List Char}

private theorem parseLine_shrinks {tail : Strive} (created : Created text tail) {result : ParserResult Mnemo}
    (parsed : parseLine tail = .ok (.ok result)) : result.tail.size + 4 ≤ tail.size := by
  obtain ⟨rest, suffix, rfl⟩ := created_iff.mp created
  rw [parseLine_cursor suffix] at parsed
  obtain ⟨behind, read, same⟩ := runs_accepted.mp parsed
  rw [same]
  exact readLine_progress read

private theorem line_falls (state : Strive × List Mnemo) (created : Created text state.1) :
    (lineTurn state).Falls (fun state => Created text state.1) (fun state => parseLines state.1 state.2) (·.1.size) 4
      state := by
  obtain ⟨tail, result⟩ := state
  obtain ⟨rest, suffix, rfl⟩ := created_iff.mp created
  by_cases finished : rest = []
  · subst finished
    exact parseLines_stopped .finished suffix result
  have nonempty : (cursor text rest).empty = false := by simp [finished]
  simp only [lineTurn, nonempty, parseLine_cursor suffix]
  cases read : readLine rest with
  | error error => exact parseLines_stopped (.thrown read) suffix result
  | ok line =>
    cases line with
    | error failure => exact parseLines_stopped (.refused finished read) suffix result
    | ok line =>
      obtain ⟨mnemo, behind⟩ := line
      have moved : Created text (cursor text behind) := created_cursor ((readLine_suffix read).trans suffix)
      exact ⟨moved, (parseLines_next suffix result read).symm, readLine_progress read⟩

theorem ProgramText.length_ge {numerals : Numerals} {mnemos : List Mnemo} (derived : ProgramText numerals text mnemos) :
    4 * mnemos.length ≤ text.length := by
  induction derived with
  | done => exact Nat.zero_le _
  | line read _ ih =>
    have first := read.length_ge
    rw [List.length_cons, List.length_append]
    omega

end Lines

/-- Parsing ends on every text: every accepted line consumes four characters, so the outer
loop, like every inner one, runs out of text. -/
theorem parsing_ends (text : List Char) :
    (∀ tail, Created text tail → InnerLoopsEnd tail ∧
      ∀ result, parseLine tail = .ok (.ok result) → result.tail.size + 4 ≤ tail.size) ∧
    Loop.run lineTurn (text.length / 4 + 1) (.ofText text, []) = some (parse (.ofText text)) ∧
    parse (.ofText text) ≠ .error .diverges ∧
    ∀ tail mnemos, parse (.ofText text) = .ok (.ok ⟨tail, mnemos⟩) → mnemos.length ≤ text.length / 4 := by
  refine ⟨fun tail created => ⟨inner_loops_end created, fun _ => parseLine_shrinks created⟩, ?_, ?_, ?_⟩
  · have start : Created text (Strive.ofText text, ([] : List Mnemo)).1 := .whole
    exact Loop.run_bounded line_falls (by decide) start
  · intro diverges
    rcases parse_total text with ⟨_, returned⟩ | ⟨_, thrown⟩
    · cases returned.symm.trans diverges
    · cases thrown.symm.trans diverges
  · intro tail mnemos parsed
    have length := (parse_ok_iff.mp parsed).1.length_ge
    omega

end Assembly
end Cplastane
