import Cplastane.Proofs.ParserRuns

/-! Where errors are located. No token contains a newline, so a reader that fails has not
left the line it started in, whatever lookahead it has given up. -/

namespace Cplastane.Assembly
open Parsec Text Exceptions

/-- The rest of a text, from a place in its first line on: no newline has been passed. -/
def Inline (text rest : List Char) : Prop := ∃ consumed, text = consumed ++ rest ∧ '\n' ∉ consumed

theorem Inline.refl (text : List Char) : Inline text text := ⟨[], rfl, List.not_mem_nil⟩

theorem Inline.trans {text middle rest : List Char} (first : Inline text middle) (second : Inline middle rest) :
    Inline text rest := by
  obtain ⟨earlier, rfl, before⟩ := first
  obtain ⟨later, rfl, behind⟩ := second
  exact ⟨earlier ++ later, (List.append_assoc _ _ _).symm, by simp [before, behind]⟩

theorem Inline.suffix {text rest : List Char} (inline : Inline text rest) : rest <:+ text := by
  obtain ⟨consumed, rfl, -⟩ := inline
  exact List.suffix_append _ _

section Tokens

variable {α : Type} {text rest : List Char}

private theorem dropPrefix_inline {pre : List Char} (found : text.dropPrefix? pre = some rest) (plain : '\n' ∉ pre) :
    Inline text rest :=
  ⟨pre, dropPrefix_iff.mp found, plain⟩

private theorem keyword_inline {table : List (String × α)} {value : α} (found : keyword table text = some (value, rest))
    (plain : ∀ entry ∈ table, '\n' ∉ entry.1.toList) : Inline text rest := by
  obtain ⟨name, known, rfl⟩ := keyword_sound found
  exact ⟨name.toList, rfl, plain _ known⟩

private theorem registerNames_plain :
    ∀ entry ∈ registerNames, '\n' ∉ entry.1.toList := fun _ known => register_lacks known rfl

private theorem mnemoNames_plain : ∀ entry ∈ mnemoNames, '\n' ∉ entry.1.toList := by decide

private theorem widthNames_plain : ∀ entry ∈ widthNames, '\n' ∉ entry.1.toList := by decide

private theorem readInt_inline {n : i64} (read : readInt text = some (n, rest)) : Inline text rest := by
  obtain ⟨_, literal, _, number, rfl, -⟩ := readInt_sound read
  exact ⟨literal, rfl, number.lacks (by decide) (by decide)⟩

private theorem readIndex_inline {index : Reg × Scale} (read : readIndex text = .ok (index, rest)) :
    Inline text rest := by
  have reading := readIndex_reading text
  rw [read] at reading
  cases reading with
  | absent => exact .refl _
  | bare known split =>
    refine ⟨_, by rw [split, ← List.append_assoc], ?_⟩
    simp [registerNames_plain _ known]
  | scaled known number proper split =>
    refine ⟨_, by rw [split, ← List.append_assoc, ← List.append_assoc, ← List.append_assoc], ?_⟩
    have literalPlain := number.lacks (c := '\n') (by decide) (by decide)
    simp [registerNames_plain _ known, literalPlain]

private theorem readDisp_inline (text : List Char) : Inline text (readDisp text).2 := by
  unfold readDisp
  split
  · exact .refl _
  next n rest found =>
    obtain ⟨literal, plus, number⟩ := Option.bind_eq_some_iff.mp found
    exact (dropPrefix_inline plus (by decide)).trans (readInt_inline number)

private theorem readMemory_inline {arg : Arg} (read : readMemory text = .ok (.ok (arg, rest))) : Inline text rest := by
  unfold readMemory at read
  split at read
  · cases read
  next base behind named =>
    obtain ⟨⟨⟨index, scale⟩, middle⟩, indexed, read⟩ := bind_ok.mp read
    have last := (keyword_inline named registerNames_plain).trans ((readIndex_inline indexed).trans (readDisp_inline middle))
    dsimp only at read
    split at read
    · cases read
    next tail bracket =>
      obtain ⟨built, made, same⟩ := bind_ok.mp read
      cases same
      exact last.trans (dropPrefix_inline bracket (by decide))

private theorem readArg_inline {arg : Arg} (read : readArg text = .ok (.ok (arg, rest))) : Inline text rest := by
  unfold readArg at read
  split at read
  next number =>
    cases read
    exact readInt_inline number
  split at read
  next named =>
    cases read
    exact keyword_inline named registerNames_plain
  split at read
  · cases read
  next inner bracket => exact (dropPrefix_inline bracket (by decide)).trans (readMemory_inline read)

private theorem readOperands_inline {operands : Arg × Arg} (read : readOperands text = .ok (.ok (operands, rest))) :
    Inline text rest := by
  obtain ⟨result, first, read⟩ := bind_ok.mp read
  cases result with
  | error failure =>
    cases read
    exact .refl _
  | ok result =>
    have front := readArg_inline first
    dsimp only at read
    split at read
    · cases read
      exact front
    next inner comma =>
      obtain ⟨result, second, read⟩ := bind_ok.mp read
      cases result with
      | error failure => cases read
      | ok result =>
        cases read
        exact front.trans ((dropPrefix_inline comma (by decide)).trans (readArg_inline second))

private theorem dropWhile_inline (kind : Char → Bool) (plain : kind '\n' = false) (text : List Char) :
    Inline text (text.dropWhile kind) := by
  refine ⟨text.takeWhile kind, List.takeWhile_append_dropWhile.symm, fun member => ?_⟩
  rw [List.mem_takeWhile_imp member] at plain
  cases plain

private theorem readWidth_inline (text : List Char) : Inline text (readWidth text).2 := by
  have spaces := dropWhile_inline (· = ' ') (by decide)
  unfold readWidth
  dsimp only
  cases found : keyword widthNames (text.dropWhile (· = ' ')) with
  | none => exact (spaces text).trans (spaces _)
  | some result => exact (spaces text).trans ((keyword_inline found widthNames_plain).trans (spaces _))

end Tokens

section Failures

variable {text : List Char} {failure : Failure}

private theorem readMemory_failure (read : readMemory text = .ok (.error failure)) : Inline text failure.rest := by
  unfold readMemory at read
  split at read
  · cases read
    exact .refl _
  next base rest named =>
    obtain ⟨⟨⟨index, scale⟩, middle⟩, indexed, read⟩ := bind_ok.mp read
    have last := (keyword_inline named registerNames_plain).trans ((readIndex_inline indexed).trans (readDisp_inline middle))
    dsimp only at read
    split at read
    · cases read
      exact last
    · obtain ⟨built, made, same⟩ := bind_ok.mp read
      cases same

theorem readArg_failure (read : readArg text = .ok (.error failure)) : Inline text failure.rest := by
  unfold readArg at read
  split at read
  · cases read
  split at read
  · cases read
  split at read
  · cases read
    exact .refl _
  next rest bracket => exact (dropPrefix_inline bracket (by decide)).trans (readMemory_failure read)

private theorem readOperands_failure (read : readOperands text = .ok (.error failure)) : Inline text failure.rest := by
  obtain ⟨result, first, read⟩ := bind_ok.mp read
  cases result with
  | error other => cases read
  | ok result =>
    dsimp only at read
    split at read
    · cases read
    next inner comma =>
      obtain ⟨result, second, read⟩ := bind_ok.mp read
      cases result with
      | ok result => cases read
      | error other =>
        cases read
        exact (readArg_inline first).trans ((dropPrefix_inline comma (by decide)).trans (readArg_failure second))

theorem readLine_failure (read : readLine text = .ok (.error failure)) : Inline text failure.rest := by
  unfold readLine at read
  split at read
  · cases read
    exact .refl _
  next tag rest named =>
    have sized := (keyword_inline named mnemoNames_plain).trans (readWidth_inline rest)
    obtain ⟨result, operandsRead, read⟩ := bind_ok.mp read
    cases result with
    | error other =>
      cases read
      exact sized.trans (readOperands_failure operandsRead)
    | ok result =>
      dsimp only at read
      split at read
      · cases read
        exact sized.trans (readOperands_inline operandsRead)
      · cases read

end Failures

/-- Lines from one place of a text to a later one, each accepted by `parse_line`. This is the
parser's own judgment; that these are lines of the grammar is another theorem. -/
inductive AcceptedLines (text : List Char) : List Char → List Char → Prop where
  | none (rest : List Char) : AcceptedLines text rest rest
  | line {rest tail stop mnemo} (accepted : parseLine (cursor text rest) = .ok (.ok ⟨cursor text tail, mnemo⟩))
      (others : AcceptedLines text tail stop) : AcceptedLines text rest stop

theorem Lines.accepted {text rest stop : List Char} {mnemos : List Mnemo} (lines : Lines rest mnemos stop)
    (suffix : rest <:+ text) : AcceptedLines text rest stop := by
  induction lines with
  | here rest => exact .none rest
  | next read _ ih =>
    have accepted := parseLine_cursor suffix
    rw [read] at accepted
    exact .line accepted (ih ((readLine_suffix read).trans suffix))

/-- An error of the parser is located in the first line that is not accepted: between its
start and its newline. -/
theorem error_in_first_bad_line {text : List Char} {error : ParserError}
    (failed : parse (.ofText text) = .ok (.error error)) :
    ∃ lines bad, text = lines ++ bad ∧ AcceptedLines text text bad ∧
      parseLine (cursor text bad) = .ok (.error error) ∧
      ∃ consumed rest, bad = consumed ++ rest ∧ '\n' ∉ consumed ∧ error.place = cursor text rest := by
  obtain ⟨mnemos, bad, outcome, lines, stopped⟩ := lines_stop text
  rw [parse_stopped lines stopped] at failed
  cases stopped with
  | finished | thrown => cases failed
  | refused nonempty read =>
    cases failed
    obtain ⟨front, split⟩ := lines.suffix
    obtain ⟨consumed, behind, plain⟩ := readLine_failure read
    refine ⟨front, bad, split.symm, lines.accepted List.suffix_rfl, ?_, consumed, _, behind, plain, rfl⟩
    rw [parseLine_cursor lines.suffix, read]
    rfl

theorem error_in_second_line : ∃ lines bad, "ret\nret ?\n".toList = lines ++ bad ∧
    AcceptedLines "ret\nret ?\n".toList "ret\nret ?\n".toList bad ∧
    parseLine (cursor "ret\nret ?\n".toList bad) =
      .ok (.error ⟨"expected a newline", cursor "ret\nret ?\n".toList "?\n".toList⟩) ∧
    ∃ consumed rest, bad = consumed ++ rest ∧ '\n' ∉ consumed ∧
      cursor "ret\nret ?\n".toList "?\n".toList = cursor "ret\nret ?\n".toList rest := by
  have first : readLine "ret\nret ?\n".toList = .ok (.ok (⟨.ret, .notSet, .undef, .undef⟩, "ret ?\n".toList)) := rfl
  have second : readLine "ret ?\n".toList = .ok (.error ⟨"expected a newline", "?\n".toList⟩) := rfl
  exact error_in_first_bad_line (parse_stopped (.next first (.here _)) (.refused (by decide) second))

end Cplastane.Assembly
