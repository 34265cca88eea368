import Cplastane.Assembly.Reader
import Cplastane.Exceptions

/-! A cursor stands for the rest of its text. Behind valid cursors no combinator
leaves the text, and each of them computes a function of the rest. -/

namespace Cplastane.Parsec
open Text Assembly

/-- The cursor of a text that stands before its suffix `rest`. Every cursor that the parser makes is
one of these, so that its functions can be stated as readings of suffixes. -/
def cursor (text rest : List Char) : Strive := ⟨text, text.length - rest.length, rest.length⟩

theorem ofText_eq (text : List Char) : Strive.ofText text = cursor text text := by
  simp [Strive.ofText, cursor]

variable {ε α : Type} {text rest : List Char}

@[simp] theorem cursor_empty : (cursor text rest).empty = rest.isEmpty := by
  cases rest <;> simp [cursor, Strive.empty]

@[simp] theorem cursor_size : (cursor text rest).size = rest.length := rfl

theorem cursor_get (suffix : rest <:+ text) {i : Nat} {c : Char} (found : rest[i]? = some c) :
    ((cursor text rest).get i : Except (Fault ε) Char) = .ok c := by
  obtain ⟨before, rfl⟩ := suffix
  obtain ⟨inside, _⟩ := List.getElem?_eq_some_iff.mp found
  have place : (before ++ rest).length - rest.length + i = before.length + i := by simp
  unfold Strive.get
  simp only [cursor, place, inside, if_true]
  rw [List.getElem?_append_right (by omega), Nat.add_sub_cancel_left, found]

theorem cursor_front {c : Char} (suffix : c :: rest <:+ text) :
    ((cursor text (c :: rest)).front : Except (Fault ε) Char) = .ok c := cursor_get suffix rfl

theorem cursor_substr (suffix : rest <:+ text) {i : Nat} (inside : i ≤ rest.length) :
    ((cursor text rest).substr i : Except (Fault ε) Strive) = .ok (cursor text (rest.drop i)) := by
  have bound := suffix.length_le
  unfold Strive.substr
  rw [if_pos (by simpa using inside)]
  simp only [cursor, List.length_drop, Except.ok.injEq, Strive.mk.injEq, true_and, and_true]
  omega

theorem cursor_next {c : Char} (suffix : c :: rest <:+ text) :
    ((cursor text (c :: rest)).substr 1 : Except (Fault ε) Strive) = .ok (cursor text rest) :=
  cursor_substr suffix (by simp)

theorem suffix_tail {c : Char} (suffix : c :: rest <:+ text) : rest <:+ text :=
  (List.suffix_cons c rest).trans suffix

private theorem skipWhileChar_step (tail : Strive) (predicate : Char → Bool) :
    (skipWhileChar tail predicate : Except (Fault ε) (ParserResult Unit)) =
      if tail.empty then .ok ⟨tail, ()⟩
      else do
        if predicate (← tail.front) then skipWhileChar (← tail.substr 1) predicate
        else return ⟨tail, ()⟩ := by
  rw [skipWhileChar]
  split
  · rfl
  split
  next fault failed => simp [failed, bind, Except.bind]
  next c found =>
    simp only [found, bind, Except.bind]
    split
    · split
      next fault failed => simp [failed]
      next rest moved => simp [moved]
    · rfl

theorem skipWhileChar_cursor (suffix : rest <:+ text) (predicate : Char → Bool) :
    (skipWhileChar (cursor text rest) predicate : Except (Fault ε) (ParserResult Unit)) =
      .ok ⟨cursor text (rest.dropWhile predicate), ()⟩ := by
  induction rest with
  | nil =>
    rw [skipWhileChar_step]
    simp
  | cons c rest ih =>
    rw [skipWhileChar_step]
    simp only [cursor_empty, List.isEmpty_cons, cursor_front suffix, cursor_next suffix, bind, Except.bind,
      ih (suffix_tail suffix), List.dropWhile_cons]
    by_cases matched : predicate c = true <;> simp [matched, pure, Except.pure]

private theorem parseDigits_step (base : Base) (tail : Strive) (result : i64) :
    (parseDigits base tail result : Except (Fault ε) (ParserResult i64)) =
      if tail.empty then .ok ⟨tail, result⟩
      else do
        let c ← tail.front
        if base.isDigit c then parseDigits base (← tail.substr 1) (result * base.toInt + base.digitToInt c)
        else return ⟨tail, result⟩ := by
  rw [parseDigits]
  split
  · rfl
  split
  next fault failed => simp [failed, bind, Except.bind]
  next c found =>
    simp only [found, bind, Except.bind]
    split
    · split
      next fault failed => simp [failed]
      next rest moved => simp [moved]
    · rfl

theorem parseDigits_cursor (suffix : rest <:+ text) (base : Base) (result : i64) :
    (parseDigits base (cursor text rest) result : Except (Fault ε) (ParserResult i64)) =
      .ok ⟨cursor text (rest.dropWhile base.isDigit),
        (rest.takeWhile base.isDigit).foldl (fun result c => result * base.toInt + base.digitToInt c) result⟩ := by
  induction rest generalizing result with
  | nil =>
    rw [parseDigits_step]
    simp
  | cons c rest ih =>
    rw [parseDigits_step]
    simp only [cursor_empty, List.isEmpty_cons, cursor_front suffix, cursor_next suffix, bind, Except.bind,
      ih (suffix_tail suffix), List.dropWhile_cons, List.takeWhile_cons]
    by_cases matched : base.isDigit c = true <;> simp [matched, pure, Except.pure]

def located (text : List Char) (read : Option (α × List Char)) : OptionParserResult α :=
  read.map fun (value, rest) => ⟨cursor text rest, value⟩

@[simp] theorem located_none : located text (none : Option (α × List Char)) = none := rfl

@[simp] theorem located_some (value : α) (rest : List Char) :
    located text (some (value, rest)) = some ⟨cursor text rest, value⟩ := rfl

theorem consumePrefixChar_cursor (suffix : rest <:+ text) (pre : Char) :
    (consumePrefixChar (cursor text rest) pre : Except (Fault ε) (OptionParserResult Unit)) =
      .ok (located text ((rest.dropPrefix? [pre]).map ((), ·))) := by
  unfold consumePrefixChar scanChar
  cases rest with
  | nil => simp [pure, Except.pure, bind, Except.bind, List.dropPrefix?]
  | cons c rest =>
    simp only [cursor_empty, List.isEmpty_cons, cursor_front suffix, cursor_next suffix, bind, Except.bind, pure,
      Except.pure, List.dropPrefix?]
    by_cases same : c = pre <;> simp [same]

theorem samePrefix_cursor (suffix : rest <:+ text) (pre : List Char) (short : pre.length ≤ rest.length) {i : Nat}
    (inside : i ≤ pre.length) :
    (samePrefix (cursor text rest) (.ofText pre) i : Except (Fault ε) Bool) =
      .ok (decide (pre.drop i <+: rest.drop i)) := by
  rw [ofText_eq]
  induction left : pre.length - i generalizing i with
  | zero =>
    have last : i = pre.length := by omega
    rw [samePrefix]
    simp [last]
  | succ left ih =>
    have inPre : i < pre.length := by omega
    have inRest : i < rest.length := by omega
    have readPre : (cursor pre pre).get i = (.ok pre[i] : Except (Fault ε) Char) :=
      cursor_get List.suffix_rfl (List.getElem?_eq_getElem inPre)
    have readRest : (cursor text rest).get i = (.ok rest[i] : Except (Fault ε) Char) :=
      cursor_get suffix (List.getElem?_eq_getElem inRest)
    have prefixes : pre.drop i <+: rest.drop i ↔ pre[i] = rest[i] ∧ pre.drop (i + 1) <+: rest.drop (i + 1) := by
      rw [List.drop_eq_getElem_cons inPre, List.drop_eq_getElem_cons inRest, List.cons_prefix_cons]
    rw [samePrefix, cursor_size, if_pos inPre]
    simp only [readPre, readRest, bind, Except.bind, pure, Except.pure]
    by_cases same : rest[i] = pre[i]
    · rw [if_neg (by simpa using same), ih (by omega) (by omega)]
      simp [prefixes, same]
    · rw [if_pos same]
      simp [prefixes, Ne.symm same]

theorem consumePrefixStr_cursor (suffix : rest <:+ text) (pre : String) (value : α) :
    (consumePrefixStr (cursor text rest) (.ofString pre) value : Except (Fault ε) (OptionParserResult α)) =
      .ok (located text ((rest.dropPrefix? pre.toList).map (value, ·))) := by
  have size : (Strive.ofString pre).size = pre.toList.length := rfl
  unfold consumePrefixStr
  rw [size, cursor_size]
  by_cases short : rest.length < pre.toList.length
  · have longer : rest.dropPrefix? pre.toList = none := by
      apply dropPrefix_none
      intro tail same
      have length := congrArg List.length same
      rw [List.length_append] at length
      omega
    simp [short, longer, pure, Except.pure]
  · have bound : pre.toList.length ≤ rest.length := by omega
    rw [if_neg short, Strive.ofString, samePrefix_cursor suffix _ bound (Nat.zero_le _), List.drop_zero, List.drop_zero,
      cursor_substr suffix bound]
    simp only [bind, Except.bind, pure, Except.pure]
    by_cases matched : pre.toList <+: rest
    · obtain ⟨tail, rfl⟩ := matched
      simp
    · have other : rest.dropPrefix? pre.toList = none :=
        dropPrefix_none fun tail same => matched ⟨tail, same.symm⟩
      simp [matched, other]

theorem parsePositiveI64_cursor (suffix : rest <:+ text) (base : Base) :
    (parsePositiveI64 base (cursor text rest) : Except (Fault ε) (OptionParserResult i64)) =
      .ok (located text (readDigits base rest)) := by
  unfold parsePositiveI64 Assembly.readDigits
  rw [parseDigits_cursor suffix]
  cases rest with
  | nil => simp [pure, Except.pure]
  | cons c rest =>
    simp only [cursor_empty, List.isEmpty_cons, cursor_front suffix, bind, Except.bind, pure, Except.pure,
      List.head?_cons, Option.any_some]
    by_cases digit : base.isDigit c = true <;> simp [digit]

private theorem consumeSign_cursor {c : Char} (suffix : c :: rest <:+ text) :
    (consumeSign (cursor text (c :: rest)) : Except (Fault ε) (Strive × i64)) =
      .ok (cursor text (readSign (c :: rest)).2, (readSign (c :: rest)).1) := by
  unfold consumeSign readSign
  simp only [cursor_front suffix, cursor_next suffix, bind, Except.bind, pure, Except.pure, List.dropPrefix?]
  by_cases minus : c = '-' <;> simp [minus]

theorem readSign_suffix (rest : List Char) : (readSign rest).2 <:+ rest := by
  unfold readSign
  split
  next tail found =>
    rw [dropPrefix_iff.mp found]
    exact List.suffix_append _ _
  next => exact List.suffix_rfl

theorem readBase_suffix (rest : List Char) : (readBase rest).2 <:+ rest := by
  unfold readBase
  split
  next tail found =>
    rw [dropPrefix_iff.mp found]
    exact List.suffix_append _ _
  next => exact List.suffix_rfl

private theorem consumeBase_cursor (suffix : rest <:+ text) :
    (consumeBase (cursor text rest) : Except (Fault ε) (Strive × Base)) =
      .ok (cursor text (readBase rest).2, (readBase rest).1) := by
  unfold consumeBase readBase
  rcases rest with _ | ⟨c, _ | ⟨d, rest⟩⟩
  · rfl
  · simp [List.dropPrefix?, pure, Except.pure]
  · have first : (cursor text (c :: d :: rest)).get 0 = (.ok c : Except (Fault ε) Char) := cursor_get suffix rfl
    have second : (cursor text (c :: d :: rest)).get 1 = (.ok d : Except (Fault ε) Char) := cursor_get suffix rfl
    have behind : (cursor text (c :: d :: rest)).substr 2 = (.ok (cursor text rest) : Except (Fault ε) Strive) :=
      cursor_substr suffix (by simp)
    simp only [cursor_size, List.length_cons, first, second, behind, bind, Except.bind, pure, Except.pure,
      List.dropPrefix?]
    by_cases zero : c = '0' <;> by_cases x : d = 'x' <;> simp [zero, x]

theorem parseI64_cursor (suffix : rest <:+ text) :
    (parseI64 (cursor text rest) : Except (Fault ε) (OptionParserResult i64)) =
      .ok (located text (readInt rest)) := by
  unfold parseI64 readInt
  cases rest with
  | nil => rfl
  | cons c rest =>
    have behindSign := (readSign_suffix (c :: rest)).trans suffix
    have behindBase := (readBase_suffix _).trans behindSign
    simp only [cursor_empty, List.isEmpty_cons, consumeSign_cursor suffix, consumeBase_cursor behindSign,
      parsePositiveI64_cursor behindBase, bind, Except.bind, pure, Except.pure]
    cases readDigits (readBase (readSign (c :: rest)).2).1 (readBase (readSign (c :: rest)).2).2 <;> rfl

end Cplastane.Parsec
