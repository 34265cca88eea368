import Cplastane.Proofs.Cursor
import Cplastane.Proofs.GrammarComplete
import Cplastane.Text.Numeral

/-! The literals of `parse_i64`. The parser takes the longest literal at the front of a
text, and so reads back every number that is printed in front of a text that does not
prolong it. -/

namespace Cplastane.Parsec
open Assembly Text

structure Lexeme where
  negative : Bool
  base : Base
  digits : List Char
  rest : List Char

namespace Lexeme

def literal (found : Lexeme) : List Char :=
  (if found.negative then ['-'] else []) ++ (found.base.marker ++ found.digits)

def magnitude (found : Lexeme) : Nat := found.base.positional found.digits

def value (found : Lexeme) : Int := if found.negative then -(found.magnitude : Int) else found.magnitude

end Lexeme

def unsigned (text : List Char) : List Char := if text.head? = some '-' then text.tail else text

def baseOf (text : List Char) : Base := if Base.sixteen.marker <+: text then .sixteen else .ten

/-- Longest match: a minus sign, the marker of a base, and the maximal run of its digits. It is
defined without a reader, and also where there is no literal; the run of digits is then empty. -/
def lexeme (text : List Char) : Lexeme :=
  let base := baseOf (unsigned text)
  let run := (unsigned text).drop base.marker.length
  { negative := text.head? = some '-', base, digits := run.takeWhile base.isDigit, rest := run.dropWhile base.isDigit }

private theorem readSign_eq (text : List Char) :
    readSign text = (if text.head? = some '-' then -1 else 1, unsigned text) := by
  cases text with
  | nil => rfl
  | cons c text => by_cases minus : c = '-' <;> simp [readSign, unsigned, List.dropPrefix?, minus]

private theorem readBase_eq (text : List Char) :
    readBase text = (baseOf text, text.drop (baseOf text).marker.length) := by
  unfold readBase baseOf
  split
  next rest found =>
    rw [dropPrefix_iff] at found
    rw [if_pos ⟨rest, found.symm⟩, found]
    rfl
  next absent =>
    rw [if_neg]
    · rfl
    · intro marked
      obtain ⟨rest, rfl⟩ := marked
      cases absent.symm.trans (dropPrefix_append _ rest)

private theorem readDigits_eq (base : Base) (text : List Char) :
    readDigits base text = if text.takeWhile base.isDigit = [] then none
      else some (Int64.ofInt (base.positional (text.takeWhile base.isDigit)), text.dropWhile base.isDigit) := by
  have value := accumulate_eq base (text.takeWhile base.isDigit) (fun c => List.mem_takeWhile_imp) 0
  cases text with
  | nil => rfl
  | cons c text =>
    by_cases digit : base.isDigit c = true
    · simp_all [readDigits, Base.positional]
    · simp [readDigits, digit]

theorem readInt_lexeme (text : List Char) :
    readInt text = if (lexeme text).digits = [] then none
      else some (Int64.ofInt (lexeme text).value, (lexeme text).rest) := by
  simp only [readInt, readSign_eq, readBase_eq, readDigits_eq, lexeme, Lexeme.value, Lexeme.magnitude]
  by_cases none : ((unsigned text).drop (baseOf (unsigned text)).marker.length).takeWhile (baseOf (unsigned text)).isDigit = []
  · simp [none]
  · by_cases minus : text.head? = some '-' <;> simp [none, minus, Int64.ofInt_neg, Int64.mul_neg]

private theorem unsigned_eq (text : List Char) :
    text = (if text.head? = some '-' then ['-'] else []) ++ unsigned text := by
  cases text with
  | nil => rfl
  | cons c text => by_cases minus : c = '-' <;> simp [unsigned, minus]

private theorem baseOf_marker (text : List Char) :
    text = (baseOf text).marker ++ text.drop (baseOf text).marker.length := by
  unfold baseOf
  split
  next marked =>
    obtain ⟨rest, rfl⟩ := marked
    rw [List.drop_left]
  · rfl

/-- A lexeme is the front of its text, and its run of digits is maximal. -/
private theorem lexeme_split (text : List Char) : text = (lexeme text).literal ++ (lexeme text).rest := by
  calc
    text = (if text.head? = some '-' then ['-'] else []) ++ unsigned text := unsigned_eq text
    _ = (if text.head? = some '-' then ['-'] else []) ++ ((baseOf (unsigned text)).marker ++
        (unsigned text).drop (baseOf (unsigned text)).marker.length) := by rw [← baseOf_marker]
    _ = _ := by simp [lexeme, Lexeme.literal]

theorem lexeme_digits (text : List Char) : ∀ c ∈ (lexeme text).digits, (lexeme text).base.isDigit c = true :=
  fun _ => List.mem_takeWhile_imp

private theorem lexeme_stops (text : List Char) :
    Stops (lexeme text).base.isDigit (lexeme text).rest := stops_dropWhile _ _

theorem Lexeme.value_range {found : Lexeme} (small : found.magnitude < 2 ^ 63) :
    -2 ^ 63 < found.value ∧ found.value < 2 ^ 63 := by
  unfold Lexeme.value
  split <;> omega

theorem toInt_ofInt {n : Int} (low : -2 ^ 63 ≤ n) (high : n < 2 ^ 63) : (Int64.ofInt n).toInt = n :=
  Int64.toInt_ofInt_of_le low high

/-- A number in the notation of this base, with its marker and in upper case. -/
def printed (base : Base) (n : Int) : List Char :=
  (if n < 0 then ['-'] else []) ++ (base.marker ++ (Nat.toDigits base.radix n.natAbs).map Char.toUpper)

private theorem positional_printed (base : Base) (n : Nat) :
    base.positional ((Nat.toDigits base.radix n).map Char.toUpper) = n := by
  apply positional_toDigits
  · cases base <;> decide
  · cases base <;> decide

private theorem printed_digits {base : Base} {n : Nat} {c : Char}
    (member : c ∈ (Nat.toDigits base.radix n).map Char.toUpper) :
    base.isDigit c = true := by
  have large : 1 < base.radix := by cases base <;> decide
  have symbols : ∀ digit < base.radix, base.isDigit digit.digitChar.toUpper = true := by cases base <;> decide
  obtain ⟨_, symbol, rfl⟩ := List.mem_map.mp member
  obtain ⟨digit, below, rfl⟩ := toDigits_digits large symbol
  exact symbols digit below

private theorem printed_parts (base : Base) (n : Int) : ∃ sign factor digits, SignText sign factor ∧ digits ≠ [] ∧
    (∀ c ∈ digits, base.isDigit c = true) ∧ printed base n = sign ++ (base.marker ++ digits) ∧
    factor * base.positional digits = n := by
  have some : (Nat.toDigits base.radix n.natAbs).map Char.toUpper ≠ [] := by simp [Nat.toDigits_ne_nil]
  have all : ∀ c ∈ (Nat.toDigits base.radix n.natAbs).map Char.toUpper, base.isDigit c = true := fun _ => printed_digits
  have value := positional_printed base n.natAbs
  by_cases negative : n < 0
  · refine ⟨['-'], -1, _, .minus, some, all, by simp [printed, negative], ?_⟩
    rw [value]
    omega
  · refine ⟨[], 1, _, .plus, some, all, by simp [printed, negative], ?_⟩
    rw [value]
    omega

theorem intText_printed (base : Base) (n : Int) : IntText base (printed base n) n := by
  obtain ⟨sign, factor, digits, signed, some, all, split, value⟩ := printed_parts base n
  rw [split, ← value]
  exact .literal signed some all

/-- A printed number is read back in front of every text that does not prolong it. -/
private theorem readInt_printed (base : Base) (n : Int) {rest : List Char} (stops : Stops base.isDigit rest)
    (unmarked : base = .ten → n ≠ 0 ∨ Stops (· = 'x') rest) :
    readInt (printed base n ++ rest) = some (Int64.ofInt n, rest) := by
  obtain ⟨sign, factor, digits, signed, some, all, split, value⟩ := printed_parts base n
  rw [split, List.append_assoc, List.append_assoc, readInt_parts signed some all stops, value]
  intro decimal
  apply (unmarked decimal).imp_left
  intro nonzero zero
  rw [zero] at value
  exact nonzero (by simp [← value])

/-- `parse_i64` recognises exactly the literals, by longest match, and reads back every
number that is printed in front of a text that does not prolong it. -/
theorem parse_i64_longest_match :
    (∀ before text : List Char,
      let found := lexeme text
      text = found.literal ++ found.rest ∧ (∀ c ∈ found.digits, found.base.isDigit c = true) ∧
      Stops found.base.isDigit found.rest ∧
      (found.digits = [] →
        parseI64 (cursor (before ++ text) text) = (.ok none : Except (Fault Throw) (OptionParserResult i64))) ∧
      (found.digits ≠ [] → ∃ n : i64,
        parseI64 (cursor (before ++ text) text) =
          (.ok (some ⟨cursor (before ++ text) found.rest, n⟩) : Except (Fault Throw) (OptionParserResult i64)) ∧
        (found.magnitude < 2 ^ 63 → n.toInt = found.value))) ∧
    ∀ (before rest : List Char) (base : Base) (n : i64), -2 ^ 63 < n.toInt → Stops base.isDigit rest →
      (base = .ten → n = 0 → Stops (· = 'x') rest) →
      let text := printed base n.toInt ++ rest
      parseI64 (cursor (before ++ text) text) =
        (.ok (some ⟨cursor (before ++ text) rest, n⟩) : Except (Fault Throw) (OptionParserResult i64)) := by
  constructor
  · intro before text
    have read := parseI64_cursor (ε := Throw) (List.suffix_append before text)
    rw [readInt_lexeme] at read
    refine ⟨lexeme_split text, lexeme_digits text, lexeme_stops text, ?_, ?_⟩
    · intro none
      rw [read, if_pos none]
      rfl
    · intro some
      rw [if_neg some] at read
      refine ⟨_, read, ?_⟩
      intro small
      obtain ⟨low, high⟩ := Lexeme.value_range small
      exact toInt_ofInt (by omega) high
  · intro before rest base n _ stops unmarked text
    have known : readInt text = some (n, rest) := by
      rw [readInt_printed base n.toInt stops, Int64.ofInt_toInt]
      intro decimal
      by_cases zero : n = 0
      · exact .inr (unmarked decimal zero)
      · refine .inl fun same => zero ?_
        rw [← Int64.ofInt_toInt n, same]
        rfl
    rw [parseI64_cursor (List.suffix_append before text), known]
    rfl

end Cplastane.Parsec
