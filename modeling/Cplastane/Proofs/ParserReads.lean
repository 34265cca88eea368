import Cplastane.Proofs.Cursor
import Cplastane.Proofs.GrammarSound

/-! The parser computes its readers: on the cursor of a suffix it returns what the
reader returns for that suffix, located in the text. -/

namespace Cplastane.Assembly
open Parsec Text

variable {α : Type} {text rest : List Char}

def locate (text : List Char) : Reading α → ParserResultResult α
  | .ok (value, rest) => .ok ⟨cursor text rest, value⟩
  | .error failure => .error ⟨failure.what, cursor text failure.rest⟩

@[simp] theorem locate_ok (value : α) (rest : List Char) :
    locate text (.ok (value, rest)) = .ok ⟨cursor text rest, value⟩ := rfl

@[simp] theorem locate_error (failure : Failure) :
    locate text (.error failure : Reading α) = .error ⟨failure.what, cursor text failure.rest⟩ := rfl

/-- A run of the parser on a text, from a reading of its rest. Between the two there is only where
things are: readings know no cursors. -/
def runs (text : List Char) (read : Except Throw (Reading α)) : Run (ParserResultResult α) :=
  (escape read).map (locate text)

@[simp] theorem runs_ok (read : Reading α) : runs text (.ok read) = .ok (locate text read) := rfl

@[simp] theorem runs_error (error : Throw) : runs text (.error error : Except Throw (Reading α)) = .error (.thrown error) :=
  rfl

theorem runs_accepted {read : Except Throw (Reading α)} {tail : Strive} {value : α} :
    runs text read = .ok (.ok ⟨tail, value⟩) ↔ ∃ behind, read = .ok (.ok (value, behind)) ∧ tail = cursor text behind := by
  constructor
  · intro accepted
    rcases read with _ | _ | ⟨_, behind⟩
    · cases accepted
    · cases accepted
    · cases accepted
      exact ⟨behind, rfl, rfl⟩
  · rintro ⟨behind, rfl, rfl⟩
    rfl

@[simp] theorem escape_ok (value : α) : escape (.ok value) = .ok value := rfl

@[simp] theorem escape_error (error : Throw) : escape (.error error : Except Throw α) = .error (.thrown error) := rfl

@[simp] theorem unwrapOr_located (read : Option (α × List Char)) (what : String) (rest : List Char) :
    unwrapOr (located text read) (makeError (cursor text rest) what) = locate text (orFail read what rest) := by
  cases read <;> rfl

private theorem choices_cursor (suffix : rest <:+ text) (table : List (String × α)) :
    choices (cursor text rest) table = .ok (located text (keyword table rest)) := by
  induction table with
  | nil => rfl
  | cons entry others ih =>
    obtain ⟨name, value⟩ := entry
    rw [choices, consumePrefixStr_cursor suffix]
    simp only [bind, Except.bind, keyword, List.findSome?_cons]
    cases rest.dropPrefix? name.toList with
    | none => exact ih
    | some tail => rfl

theorem keyword_suffix {table : List (String × α)} {value : α} {tail : List Char}
    (found : keyword table rest = some (value, tail)) : tail <:+ rest := by
  obtain ⟨name, _, split⟩ := keyword_sound found
  exact ⟨name.toList, split.symm⟩

theorem dropPrefix_suffix {pre tail : List Char} (found : rest.dropPrefix? pre = some tail) : tail <:+ rest :=
  ⟨pre, (dropPrefix_iff.mp found).symm⟩

theorem readInt_suffix {n : i64} {tail : List Char} (found : readInt rest = some (n, tail)) : tail <:+ rest := by
  unfold readInt readDigits at found
  simp only [Option.bind_eq_bind] at found
  split at found
  · cases found
    exact (List.dropWhile_suffix _).trans ((readBase_suffix _).trans (readSign_suffix _))
  · cases found

theorem parseRegister_cursor (suffix : rest <:+ text) :
    parseRegister (cursor text rest) =
      .ok (locate text (orFail (keyword registerNames rest) "expected register" rest)) := by
  unfold parseRegister
  rw [choices_cursor suffix]
  simp [pure, Except.pure, bind, Except.bind]

private theorem parseIndex_cursor (suffix : rest <:+ text) :
    parseIndex (cursor text rest) =
      (escape (readIndex rest)).map fun ((index, scale), tail) => (cursor text tail, index, scale) := by
  unfold parseIndex readIndex
  simp only [consumePrefixStr_cursor suffix, unwrapOr_located, bind, Except.bind]
  cases plus : rest.dropPrefix? " + ".toList with
  | none => rfl
  | some inner =>
    have innerSuffix := (dropPrefix_suffix plus).trans suffix
    simp only [Option.map_some, orFail, locate_ok, parseRegister_cursor innerSuffix, Option.bind_some]
    cases named : keyword registerNames inner with
    | none => rfl
    | some result =>
      obtain ⟨index, behind⟩ := result
      have behindSuffix := (keyword_suffix named).trans innerSuffix
      simp only [locate_ok, consumePrefixStr_cursor behindSuffix, unwrapOr_located]
      cases times : behind.dropPrefix? " * ".toList with
      | none => rfl
      | some literal =>
        have literalSuffix := (dropPrefix_suffix times).trans behindSuffix
        simp only [Option.map_some, orFail, locate_ok, parseI64_cursor literalSuffix, unwrapOr_located,
          Option.bind_some]
        cases read : readInt literal with
        | none => rfl
        | some result =>
          obtain ⟨n, tail⟩ := result
          simp only [locate_ok]
          cases scaleOfLiteral n <;> rfl

private theorem readIndex_suffix {index : Reg × Scale} {tail : List Char} (read : readIndex rest = .ok (index, tail)) :
    tail <:+ rest := by
  obtain ⟨index, scale⟩ := index
  have reading := readIndex_reading rest
  rw [read] at reading
  cases reading with
  | absent => exact List.suffix_rfl
  | @bare name _ _ known split => exact ⟨" + ".toList ++ name.toList, by rw [split, List.append_assoc]⟩
  | @scaled name _ _ literal _ _ _ known number proper split =>
    refine ⟨" + ".toList ++ (name.toList ++ (" * ".toList ++ literal)), ?_⟩
    rw [split]
    simp only [List.append_assoc]

private theorem parseDisp_cursor (suffix : rest <:+ text) :
    parseDisp (cursor text rest) = .ok (cursor text (readDisp rest).2, (readDisp rest).1) := by
  unfold parseDisp readDisp
  simp only [consumePrefixStr_cursor suffix, unwrapOr_located, bind, Except.bind]
  cases plus : rest.dropPrefix? " + ".toList with
  | none => rfl
  | some literal =>
    have literalSuffix := (dropPrefix_suffix plus).trans suffix
    simp only [Option.map_some, orFail, locate_ok, parseI64_cursor literalSuffix, unwrapOr_located, Option.bind_some]
    cases readInt literal <;> rfl

private theorem readDisp_suffix (rest : List Char) : (readDisp rest).2 <:+ rest := by
  unfold readDisp
  split
  · exact List.suffix_rfl
  next n tail found =>
    obtain ⟨literal, plus, number⟩ := Option.bind_eq_some_iff.mp found
    exact (readInt_suffix number).trans (dropPrefix_suffix plus)

theorem parseArg_cursor (suffix : rest <:+ text) : parseArg (cursor text rest) = runs text (readArg rest) := by
  unfold parseArg readArg
  simp only [parseI64_cursor suffix, unwrapOr_located, bind, Except.bind]
  cases readInt rest with
  | some result => rfl
  | none =>
    simp only [orFail, locate_error, parseRegister_cursor suffix]
    cases keyword registerNames rest with
    | some result => rfl
    | none =>
      simp only [orFail, locate_error, consumePrefixChar_cursor suffix, unwrapOr_located]
      cases bracket : rest.dropPrefix? ['['] with
      | none => rfl
      | some inner =>
        have innerSuffix := (dropPrefix_suffix bracket).trans suffix
        simp only [Option.map_some, orFail, locate_ok, parseRegister_cursor innerSuffix, readMemory]
        cases named : keyword registerNames inner with
        | none => rfl
        | some result =>
          obtain ⟨base, behind⟩ := result
          have behindSuffix := (keyword_suffix named).trans innerSuffix
          simp only [locate_ok, parseIndex_cursor behindSuffix, bind, Except.bind]
          cases indexed : readIndex behind with
          | error error => rfl
          | ok result =>
            obtain ⟨⟨index, scale⟩, tail⟩ := result
            have tailSuffix := (readIndex_suffix indexed).trans behindSuffix
            have lastSuffix := (readDisp_suffix tail).trans tailSuffix
            simp only [escape_ok, Except.map, parseDisp_cursor tailSuffix, consumePrefixChar_cursor lastSuffix,
              unwrapOr_located]
            cases (readDisp tail).2.dropPrefix? [']'] with
            | none => rfl
            | some last =>
              simp only [Option.map_some, orFail, locate_ok]
              cases Arg.mem base index scale (readDisp tail).1 <;> rfl

theorem readArg_suffix {arg : Arg} {tail : List Char} (read : readArg rest = .ok (.ok (arg, tail))) :
    tail <:+ rest := by
  obtain ⟨consumed, split, -⟩ := readArg_sound read
  exact ⟨consumed, split.symm⟩

private theorem readOperands_suffix {operands : Arg × Arg} {tail : List Char}
    (read : readOperands rest = .ok (.ok (operands, tail))) : tail <:+ rest := by
  obtain ⟨consumed, split, -⟩ := readOperands_sound read
  exact ⟨consumed, split.symm⟩

private theorem parseOperands_cursor (suffix : rest <:+ text) :
    parseOperands (cursor text rest) = runs text (readOperands rest) := by
  unfold parseOperands readOperands
  simp only [parseArg_cursor suffix, bind, Except.bind]
  cases first : readArg rest with
  | error error => rfl
  | ok read =>
    cases read with
    | error failure => rfl
    | ok result =>
      obtain ⟨a1, behind⟩ := result
      have behindSuffix := (readArg_suffix first).trans suffix
      simp only [runs_ok, locate_ok, consumePrefixStr_cursor behindSuffix, unwrapOr_located]
      cases comma : behind.dropPrefix? ", ".toList with
      | none => rfl
      | some inner =>
        have innerSuffix := (dropPrefix_suffix comma).trans behindSuffix
        simp only [Option.map_some, orFail, locate_ok, parseArg_cursor innerSuffix]
        cases readArg inner with
        | error error => rfl
        | ok read => cases read <;> rfl

theorem parseWidth_cursor (suffix : rest <:+ text) :
    parseMnemoWidth (cursor text rest) =
      .ok (locate text (orFail (keyword widthNames rest) "expected instruction size" rest)) := by
  unfold parseMnemoWidth
  rw [choices_cursor suffix]
  simp [pure, Except.pure, bind, Except.bind]

theorem parseMnemoName_cursor (suffix : rest <:+ text) :
    parseMnemoName (cursor text rest) =
      .ok (locate text (orFail (keyword mnemoNames rest) "expected mnemo name" rest)) := by
  unfold parseMnemoName
  rw [choices_cursor suffix]
  simp [pure, Except.pure, bind, Except.bind]

private theorem lineEnd_cursor (suffix : rest <:+ text) (tag : Tag) (width : Width) :
    (do match ← parseOperands (cursor text rest) with
        | .error error => return .error error
        | .ok operands =>
          let tail := operands.tail
          match unwrapOr (← consumePrefixChar tail '\n') (makeError tail "expected a newline") with
          | .error error => return .error error
          | .ok d => return .ok ⟨d.tail, { tag, width, a1 := operands.data.1, a2 := operands.data.2 }⟩ :
      Run (ParserResultResult Mnemo)) =
    runs text (do
      match ← readOperands rest with
      | .error failure => return .error failure
      | .ok ((a1, a2), rest) =>
        match rest.dropPrefix? ['\n'] with
        | none => return .error ⟨"expected a newline", rest⟩
        | some rest => return .ok (⟨tag, width, a1, a2⟩, rest)) := by
  simp only [parseOperands_cursor suffix, bind, Except.bind]
  cases taken : readOperands rest with
  | error error => rfl
  | ok read =>
    cases read with
    | error failure => rfl
    | ok result =>
      obtain ⟨⟨a1, a2⟩, behind⟩ := result
      have behindSuffix := (readOperands_suffix taken).trans suffix
      simp only [runs_ok, locate_ok, consumePrefixChar_cursor behindSuffix, unwrapOr_located]
      cases behind.dropPrefix? ['\n'] <;> rfl

theorem parseLine_cursor (suffix : rest <:+ text) : parseLine (cursor text rest) = runs text (readLine rest) := by
  unfold parseLine readLine
  simp only [parseMnemoName_cursor suffix, bind, Except.bind]
  cases named : keyword mnemoNames rest with
  | none => rfl
  | some result =>
    obtain ⟨tag, behind⟩ := result
    have behindSuffix := (keyword_suffix named).trans suffix
    have widthSuffix := (List.dropWhile_suffix (· = ' ')).trans behindSuffix
    simp only [orFail, locate_ok, skipWhileChar_cursor behindSuffix, parseWidth_cursor widthSuffix, readWidth]
    cases sized : keyword widthNames (behind.dropWhile (· = ' ')) with
    | none =>
      have spaces := (List.dropWhile_suffix (· = ' ')).trans widthSuffix
      simp only [locate_error, pure, Except.pure, skipWhileChar_cursor widthSuffix]
      exact lineEnd_cursor spaces tag .notSet
    | some result =>
      obtain ⟨width, tail⟩ := result
      have tailSuffix := (keyword_suffix sized).trans widthSuffix
      have spaces := (List.dropWhile_suffix (· = ' ')).trans tailSuffix
      simp only [locate_ok, pure, Except.pure, skipWhileChar_cursor tailSuffix]
      exact lineEnd_cursor spaces tag width

end Cplastane.Assembly
