import Cplastane.Proofs.ParserRuns

/-! The texts on which the parser throws. Every other failure is reported as an
error: exceptions only escape from a memory operand with an index. -/

namespace Cplastane.Assembly
open Parsec Text Exceptions

/-- The front of a text that makes `parse_arg` throw: a literal that is no scale, or an operand
whose index has scale 0 or no scale at all. -/
inductive ThrowingArg : List Char → Prop where
  | improper {name base index reg radix literal value} (after : List Char) (based : (name, base) ∈ registerNames)
      (indexed : (index, reg) ∈ registerNames) (number : IntText radix literal value)
      (stops : Stops radix.isDigit after) (improper : value % 2 ^ 64 ∉ [0, 1, 2, 4, 8]) :
      ThrowingArg ('[' :: (name.toList ++ (" + ".toList ++ (index.toList ++ (" * ".toList ++ (literal ++ after))))))
  | bare {name base index reg dispText disp} (after : List Char) (based : (name, base) ∈ registerNames)
      (indexed : (index, reg) ∈ registerNames) (displaced : DispText wrapped dispText disp) :
      ThrowingArg ('[' :: (name.toList ++ (" + ".toList ++ (index.toList ++ (dispText ++ ']' :: after)))))
  | zero {name base index reg radix literal value dispText disp} (after : List Char)
      (based : (name, base) ∈ registerNames) (indexed : (index, reg) ∈ registerNames)
      (number : IntText radix literal value) (zero : value % 2 ^ 64 = 0) (displaced : DispText wrapped dispText disp) :
      ThrowingArg ('[' :: (name.toList ++ (" + ".toList ++ (index.toList ++ (" * ".toList ++
        (literal ++ (dispText ++ ']' :: after)))))))

/-- A line that is well formed up to such an operand, the first or the second one. What is behind it
is not read, and may be anything. -/
inductive ThrowingLine : List Char → Prop where
  | first {name tag widthText width operand} (known : (name, tag) ∈ mnemoNames) (sized : WidthText widthText width)
      (throws : ThrowingArg operand) : ThrowingLine (name.toList ++ (widthText ++ operand))
  | second {name tag widthText width firstText a1 operand} (known : (name, tag) ∈ mnemoNames)
      (sized : WidthText widthText width) (read : ArgText wrapped firstText a1) (throws : ThrowingArg operand) :
      ThrowingLine (name.toList ++ (widthText ++ (firstText ++ (", ".toList ++ operand))))

inductive ThrowingText : List Char → Prop where
  | behind {lines mnemos rest} (accepted : ProgramText wrapped lines mnemos) (throws : ThrowingLine rest) :
      ThrowingText (lines ++ rest)

private theorem mem_error {base index : Reg} {scale : Scale} {disp : Disp} {error : Throw}
    (thrown : Arg.mem base index scale disp = .error error) : scale = .s0 ∧ index ≠ .undef := by
  unfold Arg.mem at thrown
  split at thrown
  next unscaled => exact unscaled
  next => cases thrown

private theorem mem_unscaled {base index : Reg} (disp : Disp) (indexed : index ≠ .undef) :
    Arg.mem base index .s0 disp = .error .indexWithoutScale := by
  simp [Arg.mem, indexed]

private theorem readArg_throws_sound {text : List Char} {error : Throw} (thrown : readArg text = .error error) :
    ThrowingArg text := by
  unfold readArg at thrown
  split at thrown
  · cases thrown
  split at thrown
  · cases thrown
  split at thrown
  · cases thrown
  next inner bracket =>
    rw [dropPrefix_iff.mp bracket]
    unfold readMemory at thrown
    split at thrown
    · cases thrown
    next base rest named =>
      obtain ⟨name, based, rfl⟩ := keyword_sound named
      have reading := readIndex_reading rest
      rcases bind_error.mp thrown with failed | ⟨⟨⟨index, scale⟩, middle⟩, indexRead, thrown⟩
      · rw [failed] at reading
        cases reading with
        | improper indexed number stops refused split =>
          rw [split]
          exact .improper _ based indexed number stops ((scaleOfLiteral_error_iff _).mp ⟨_, refused⟩)
      · obtain ⟨dispText, split, displaced⟩ := readDisp_sound middle
        dsimp only at thrown
        generalize readDisp middle = result at thrown split displaced
        obtain ⟨disp, behind⟩ := result
        dsimp only at thrown
        split at thrown
        · cases thrown
        next last closing =>
          rw [dropPrefix_iff.mp closing] at split
          rcases bind_error.mp thrown with failed | ⟨built, made, other⟩
          · obtain ⟨rfl, indexed⟩ := mem_error failed
            rw [indexRead] at reading
            cases reading with
            | absent => exact absurd rfl indexed
            | bare known front =>
              rw [front, split]
              exact .bare last based known displaced
            | scaled known number proper front =>
              rw [front, split]
              exact .zero last based known number ((scaleOfLiteral_zero_iff _).mp proper) displaced
          · cases other

private theorem readMemory_unscaled {name : String} {base index : Reg} {front dispText rest : List Char} {disp : Disp}
    (based : (name, base) ∈ registerNames) (indexed : index ≠ .undef)
    (read : readIndex (front ++ (dispText ++ ']' :: rest)) = .ok ((index, .s0), dispText ++ ']' :: rest))
    (displaced : DispText wrapped dispText disp) :
    readMemory (name.toList ++ (front ++ (dispText ++ ']' :: rest))) = .error .indexWithoutScale := by
  simp only [readMemory, readReg_append based, read, bind, Except.bind, readDisp_append displaced, mem_unscaled disp indexed,
    List.dropPrefix?, beq_self_eq_true, if_true]

private theorem readArg_throws {text : List Char} (throws : ThrowingArg text) :
    ∃ error, readArg text = .error error := by
  cases throws with
  | @improper name base index reg radix literal value after based indexed number stops improper =>
    obtain ⟨error, refused⟩ := (scaleOfLiteral_error_iff value).mpr improper
    have nonzero : value ≠ 0 := by
      rintro rfl
      simp at improper
    refine ⟨error, ?_⟩
    simp only [readArg_bracket, readMemory, readReg_append based, readIndex, dropPrefix_append, Option.bind_some,
      readReg_append indexed, readInt_append number stops (.inl nonzero), refused]
    rfl
  | @bare name base index reg dispText disp after based indexed displaced =>
    refine ⟨.indexWithoutScale, ?_⟩
    have unscaled : (dispText ++ ']' :: after).dropPrefix? " * ".toList = none := by
      cases displaced <;> rfl
    have read : readIndex ((" + ".toList ++ index.toList) ++ (dispText ++ ']' :: after)) =
        .ok ((reg, .s0), dispText ++ ']' :: after) := by
      simp only [readIndex, List.append_assoc, dropPrefix_append, Option.bind_some, readReg_append indexed, unscaled]
      rfl
    have thrown := readMemory_unscaled based (registerNames_named _ indexed) read displaced
    simpa only [readArg_bracket, List.append_assoc] using thrown
  | @zero name base index reg radix literal value dispText disp after based indexed number zero displaced =>
    refine ⟨.indexWithoutScale, ?_⟩
    have ends : Stops prolongsInt (dispText ++ ']' :: after) := by
      cases displaced <;> exact stops_cons.mpr rfl
    have read : readIndex ((" + ".toList ++ (index.toList ++ (" * ".toList ++ literal))) ++ (dispText ++ ']' :: after)) =
        .ok ((reg, .s0), dispText ++ ']' :: after) := by
      simp only [readIndex, List.append_assoc, dropPrefix_append, Option.bind_some, readReg_append indexed,
        readInt_before number ends, (scaleOfLiteral_zero_iff value).mpr zero]
      rfl
    have thrown := readMemory_unscaled based (registerNames_named _ indexed) read displaced
    simpa only [readArg_bracket, List.append_assoc] using thrown

private theorem ThrowingArg.not_width {text : List Char} (throws : ThrowingArg text) : Stops startsWidth text := by
  cases throws <;> exact stops_cons.mpr rfl

private theorem readLine_throws {text : List Char} (throws : ThrowingLine text) :
    ∃ error, readLine text = .error error := by
  cases throws with
  | first known sized throws =>
    obtain ⟨error, thrown⟩ := readArg_throws throws
    refine ⟨error, ?_⟩
    simp only [readLine, keyword_append mnemoNames_free known, readWidth_append sized throws.not_width, readOperands,
      thrown, bind, Except.bind]
  | @second name tag widthText width firstText a1 operand known sized read throws =>
    obtain ⟨error, thrown⟩ := readArg_throws throws
    have comma : Stops prolongsInt (", ".toList ++ operand) := stops_cons.mpr rfl
    refine ⟨error, ?_⟩
    simp only [readLine, keyword_append mnemoNames_free known, readWidth_append sized (arg_not_width read _), readOperands,
      readArg_append read comma, dropPrefix_append, thrown, bind, Except.bind]

private theorem readLine_throws_sound {text : List Char} {error : Throw} (thrown : readLine text = .error error) :
    ThrowingLine text := by
  unfold readLine at thrown
  split at thrown
  · cases thrown
  next tag rest named =>
    obtain ⟨name, known, rfl⟩ := keyword_sound named
    obtain ⟨widthText, split, sized⟩ := readWidth_sound rest
    generalize readWidth rest = sizing at thrown split sized
    obtain ⟨width, operands⟩ := sizing
    rw [split]
    rcases bind_error.mp thrown with failed | ⟨result, read, thrown⟩
    · rcases bind_error.mp failed with first | ⟨result, first, failed⟩
      · exact .first known sized (readArg_throws_sound first)
      · cases result with
        | error failure => cases failed
        | ok result =>
          obtain ⟨a1, behind⟩ := result
          obtain ⟨firstText, rfl, derived⟩ := readArg_sound first
          dsimp only at failed
          split at failed
          · cases failed
          next inner comma =>
            rw [dropPrefix_iff.mp comma]
            rcases bind_error.mp failed with second | ⟨result, second, failed⟩
            · exact .second known sized derived (readArg_throws_sound second)
            · cases result <;> cases failed
    · cases result with
      | error failure => cases thrown
      | ok result =>
        dsimp only at thrown
        split at thrown <;> cases thrown

private theorem throwing_text_throws {text : List Char} (throws : ThrowingText text) :
    ∃ error, parse (.ofText text) = .error (.thrown error) := by
  obtain ⟨accepted, line⟩ := throws
  obtain ⟨error, thrown⟩ := readLine_throws line
  exact ⟨error, parse_stopped (accepted.lines _) (.thrown thrown)⟩

private theorem thrown_text_throwing {text : List Char} {error : Throw}
    (thrown : parse (.ofText text) = .error (.thrown error)) :
    ThrowingText text := by
  obtain ⟨mnemos, stop, outcome, lines, stopped⟩ := lines_stop text
  rw [parse_stopped lines stopped] at thrown
  obtain ⟨consumed, rfl, accepted⟩ := lines.sound
  cases stopped with
  | finished | refused => cases thrown
  | thrown read => exact .behind accepted (readLine_throws_sound read)

/-- The parser returns a result exactly on the texts without such a line. -/
theorem parse_returns_iff (text : List Char) : (∃ result, parse (.ofText text) = .ok result) ↔ ¬ThrowingText text := by
  constructor
  · intro returned throws
    obtain ⟨result, returned⟩ := returned
    obtain ⟨error, thrown⟩ := throwing_text_throws throws
    rw [returned] at thrown
    cases thrown
  · intro calm
    rcases parse_total text with returned | ⟨error, thrown⟩
    · exact returned
    · exact absurd (thrown_text_throwing thrown) calm

theorem unscaled_index_escapes : ¬∃ result, parse (.ofString "mov DWORD eax, [eax + ebx]\n") = .ok result := by
  have eax : ("eax", Reg.eax) ∈ registerNames := by simp [registerNames]
  have ebx : ("ebx", Reg.ebx) ∈ registerNames := by simp [registerNames]
  have sized : WidthText " DWORD ".toList .dword := .present 1 1 (show ("DWORD", Width.dword) ∈ widthNames by simp [widthNames])
  have operand : ThrowingArg "[eax + ebx]\n".toList := .bare ['\n'] eax ebx .absent
  have line : ThrowingLine "mov DWORD eax, [eax + ebx]\n".toList :=
    .second (show ("mov", Tag.mov) ∈ mnemoNames by simp [mnemoNames]) sized (.reg eax) operand
  intro returned
  obtain ⟨result, returned⟩ := returned
  obtain ⟨error, thrown⟩ := throwing_text_throws (.behind .done line)
  exact absurd (returned.symm.trans thrown) (by simp)

end Cplastane.Assembly
