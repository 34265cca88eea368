import Cplastane.Proofs.ErrorPlace

/-! Safety of the cursor. It checks nothing itself, so what is inside rests on the guard
at every call; an access outside ends a run of the model with a fault of its own, which
nothing catches. -/

namespace Cplastane.Assembly
open Parsec Text Exceptions

/-- The cursors created from a text. Besides its constructors, only `substr` makes one. -/
inductive Created (text : List Char) : Strive → Prop where
  | whole : Created text (.ofText text)
  | substr {tail rest : Strive} {i : Nat} (source : Created text tail)
      (moved : tail.substr i = (.ok rest : Except (Fault Throw) Strive)) : Created text rest

theorem created_iff {text : List Char} {tail : Strive} :
    Created text tail ↔ ∃ rest, rest <:+ text ∧ tail = cursor text rest := by
  constructor
  · intro created
    induction created with
    | whole => exact ⟨text, List.suffix_rfl, ofText_eq text⟩
    | @substr tail moved i _ found ih =>
      obtain ⟨rest, suffix, rfl⟩ := ih
      by_cases inside : i ≤ rest.length
      · rw [cursor_substr suffix inside] at found
        cases found
        exact ⟨rest.drop i, (List.drop_suffix i rest).trans suffix, rfl⟩
      · rw [Strive.substr, cursor_size, if_neg inside] at found
        cases found
  · intro located
    obtain ⟨rest, ⟨before, rfl⟩, rfl⟩ := located
    apply Created.substr .whole (i := before.length)
    rw [ofText_eq, cursor_substr List.suffix_rfl (by simp), List.drop_left]

theorem created_cursor {text rest : List Char} (suffix : rest <:+ text) : Created text (cursor text rest) :=
  created_iff.mpr ⟨rest, suffix, rfl⟩

private theorem created_bounds {text : List Char} {tail : Strive} (created : Created text tail) :
    tail.s = text ∧ tail.start + tail.size = text.length := by
  obtain ⟨rest, suffix, rfl⟩ := created_iff.mp created
  have bound := suffix.length_le
  refine ⟨rfl, ?_⟩
  simp only [cursor]
  omega

/-- The run never reads outside of its cursors, and returns only created ones: those of its result,
and the place of its error. -/
structure Contained {ε α : Type} (text : List Char) (tails : α → List Strive) (run : Except (Fault ε) α) : Prop where
  inside : Raises (· ≠ .outOfBounds) run
  created : ∀ value, run = .ok value → ∀ tail ∈ tails value, Created text tail

def optionTails {α : Type} (result : OptionParserResult α) : List Strive := result.toList.map (·.tail)

def resultTails {α : Type} : ParserResultResult α → List Strive
  | .ok result => [result.tail]
  | .error error => [error.place]

section Rules

variable {ε α : Type} {text rest : List Char}

private theorem contained_ok {tails : α → List Strive} {value : α} (created : ∀ tail ∈ tails value, Created text tail) :
    Contained text tails (.ok value : Except (Fault ε) α) := by
  refine ⟨Raises.ok value, ?_⟩
  intro other same
  cases same
  exact created

private theorem contained_located {read : Option (α × List Char)} (suffix : rest <:+ text)
    (behind : ∀ value tail, read = some (value, tail) → tail <:+ rest) :
    Contained text optionTails (.ok (located text read) : Except (Fault ε) (OptionParserResult α)) := by
  apply contained_ok
  intro tail member
  cases read with
  | none => cases member
  | some result =>
    cases List.mem_singleton.mp member
    exact created_cursor ((behind _ _ rfl).trans suffix)

private theorem contained_locate {read : Reading α} (suffix : rest <:+ text)
    (behind : ∀ value tail, read = .ok (value, tail) → tail <:+ rest)
    (failing : ∀ failure, read = .error failure → failure.rest <:+ rest) :
    Contained text resultTails (.ok (locate text read) : Run (ParserResultResult α)) := by
  apply contained_ok
  intro tail member
  cases read with
  | ok result =>
    cases List.mem_singleton.mp member
    exact created_cursor ((behind _ _ rfl).trans suffix)
  | error failure =>
    cases List.mem_singleton.mp member
    exact created_cursor ((failing _ rfl).trans suffix)

private theorem contained_runs {read : Except Throw (Reading α)} (suffix : rest <:+ text)
    (behind : ∀ value tail, read = .ok (.ok (value, tail)) → tail <:+ rest)
    (failing : ∀ failure, read = .ok (.error failure) → failure.rest <:+ rest) :
    Contained text resultTails (runs text read) := by
  cases read with
  | error error =>
    refine ⟨Raises.error nofun, ?_⟩
    intro value same
    cases same
  | ok read =>
    apply contained_locate suffix
    · rintro value tail rfl
      exact behind value tail rfl
    · rintro failure rfl
      exact failing failure rfl

private theorem contained_orFail {read : Option (α × List Char)} (suffix : rest <:+ text) (what : String)
    (behind : ∀ value tail, read = some (value, tail) → tail <:+ rest) :
    Contained text resultTails (.ok (locate text (orFail read what rest)) : Run (ParserResultResult α)) := by
  cases read with
  | none =>
    apply contained_locate suffix nofun
    rintro failure same
    cases same
    exact List.suffix_rfl
  | some result =>
    apply contained_locate suffix
    · rintro value tail same
      cases same
      exact behind _ _ rfl
    · exact nofun

private theorem scanChar_cursor (suffix : rest <:+ text) :
    (scanChar (cursor text rest) : Except (Fault ε) (OptionParserResult Char)) =
      .ok (located text (rest.head?.map (·, rest.tail))) := by
  unfold scanChar
  cases rest with
  | nil => simp [pure, Except.pure]
  | cons c rest => simp [cursor_front suffix, cursor_next suffix, bind, Except.bind, pure, Except.pure]

end Rules

/-- Every function of the parser, run on this cursor and with any arguments. -/
structure CallsContained (text : List Char) (tail : Strive) : Prop where
  skipWhileChar (predicate : Char → Bool) : Contained text (fun result => [result.tail])
    (skipWhileChar tail predicate : Run (ParserResult Unit))
  scanChar : Contained text optionTails (scanChar tail : Run (OptionParserResult Char))
  consumePrefixChar (pre : Char) : Contained text optionTails (consumePrefixChar tail pre : Run (OptionParserResult Unit))
  consumePrefixStr (pre : String) {α : Type} (value : α) : Contained text optionTails
    (consumePrefixStr tail (.ofString pre) value : Run (OptionParserResult α))
  parsePositiveI64 (base : Base) : Contained text optionTails (parsePositiveI64 base tail : Run (OptionParserResult i64))
  parseI64 : Contained text optionTails (parseI64 tail : Run (OptionParserResult i64))
  parseRegister : Contained text resultTails (parseRegister tail)
  parseMnemoName : Contained text resultTails (parseMnemoName tail)
  parseMnemoWidth : Contained text resultTails (parseMnemoWidth tail)
  parseArg : Contained text resultTails (parseArg tail)
  parseLine : Contained text resultTails (parseLine tail)

theorem calls_contained {text : List Char} {tail : Strive} (created : Created text tail) :
    CallsContained text tail := by
  obtain ⟨rest, suffix, rfl⟩ := created_iff.mp created
  constructor
  · intro predicate
    rw [skipWhileChar_cursor suffix]
    apply contained_ok
    intro tail member
    cases List.mem_singleton.mp member
    exact created_cursor ((List.dropWhile_suffix predicate).trans suffix)
  · rw [scanChar_cursor suffix]
    apply contained_located suffix
    intro c tail same
    cases rest with
    | nil => cases same
    | cons d rest =>
      cases same
      exact List.suffix_cons _ _
  · intro pre
    rw [consumePrefixChar_cursor suffix]
    apply contained_located suffix
    intro _ tail found
    obtain ⟨_, dropped, same⟩ := Option.map_eq_some_iff.mp found
    cases same
    exact dropPrefix_suffix dropped
  · intro pre α value
    rw [consumePrefixStr_cursor suffix]
    apply contained_located suffix
    intro _ tail found
    obtain ⟨_, dropped, same⟩ := Option.map_eq_some_iff.mp found
    cases same
    exact dropPrefix_suffix dropped
  · intro base
    rw [parsePositiveI64_cursor suffix]
    apply contained_located suffix
    intro n tail read
    unfold readDigits at read
    split at read
    · cases read
      exact List.dropWhile_suffix _
    · cases read
  · rw [parseI64_cursor suffix]
    exact contained_located suffix fun _ _ => readInt_suffix
  · rw [parseRegister_cursor suffix]
    exact contained_orFail suffix _ fun _ _ => keyword_suffix
  · rw [parseMnemoName_cursor suffix]
    exact contained_orFail suffix _ fun _ _ => keyword_suffix
  · rw [parseWidth_cursor suffix]
    exact contained_orFail suffix _ fun _ _ => keyword_suffix
  · rw [parseArg_cursor suffix]
    exact contained_runs suffix (fun _ _ => readArg_suffix) fun _ read => (readArg_failure read).suffix
  · rw [parseLine_cursor suffix]
    exact contained_runs suffix (fun _ _ => readLine_suffix) fun _ read => (readLine_failure read).suffix

/-- The parser stays inside its text: in a run on any text, and in every call on a cursor
that is created from the text. -/
theorem parser_stays_inside (text : List Char) :
    (∀ tail, Created text tail → (tail.s = text ∧ tail.start + tail.size = text.length) ∧ CallsContained text tail) ∧
      Contained text resultTails (parse (.ofText text)) := by
  refine ⟨fun tail created => ⟨created_bounds created, calls_contained created⟩, ?_⟩
  obtain ⟨mnemos, stop, outcome, lines, stopped⟩ := lines_stop text
  rw [parse_stopped lines stopped]
  cases stopped with
  | finished =>
    change Contained text resultTails (.ok (locate text (.ok (mnemos, []))) : Run _)
    apply contained_locate List.suffix_rfl
    · intro _ tail same
      cases same
      exact List.nil_suffix
    · exact nofun
  | @refused _ failure nonempty read =>
    change Contained text resultTails (.ok (locate text (.error failure)) : Run _)
    apply contained_locate lines.suffix
    · exact nofun
    · intro _ same
      cases same
      exact (readLine_failure read).suffix
  | @thrown _ error read =>
    change Contained text resultTails (runs text (.error error))
    exact contained_runs lines.suffix nofun nofun

end Cplastane.Assembly
