import Cplastane.Proofs.Literals

/-! Overflow of integer literals. The digit loop of `parse_positive_i64` and the sign
behind it stay inside the range of an i64 exactly for the magnitudes below 2 ^ 63;
literals of a greater magnitude are not refused. -/

namespace Cplastane.Parsec
open Assembly Text

def Fits (n : Int) : Prop := -2 ^ 63 ≤ n ∧ n < 2 ^ 63

/-- From this result on, no product and no sum of the digit loop leaves the range. Each step is
judged on its own, also where a later one would come back. -/
def LoopFits (base : Base) : i64 → List Char → Prop
  | _, [] => True
  | result, c :: digits =>
    Fits (result.toInt * base.toInt.toInt) ∧ Fits ((result * base.toInt).toInt + (base.digitToInt c).toInt) ∧
      LoopFits base (result * base.toInt + base.digitToInt c) digits

namespace Lexeme

def accumulated (found : Lexeme) : i64 :=
  found.digits.foldl (fun result c => result * found.base.toInt + found.base.digitToInt c) 0

def sign (found : Lexeme) : i64 := if found.negative then -1 else 1

end Lexeme

/-- What is expected of the literal at the front of a text: no step of its computation
overflows, and it is read with its value, or refused if that is no i64. -/
structure LiteralFaithful (before text : List Char) : Prop where
  loop : LoopFits (lexeme text).base 0 (lexeme text).digits
  signed : Fits ((lexeme text).accumulated.toInt * (lexeme text).sign.toInt)
  inside : (lexeme text).digits ≠ [] → Fits (lexeme text).value → ∃ tail n,
    parseI64 (cursor (before ++ text) text) = (.ok (some ⟨tail, n⟩) : Except (Fault Throw) (OptionParserResult i64)) ∧
      n.toInt = (lexeme text).value
  outside : (lexeme text).digits ≠ [] → ¬Fits (lexeme text).value →
    parseI64 (cursor (before ++ text) text) = (.ok none : Except (Fault Throw) (OptionParserResult i64))

theorem digitValue_lt (base : Base) {c : Char} (digit : base.isDigit c = true) : Base.digitValue c < base.radix := by
  have codes : '0'.toNat = 48 ∧ '9'.toNat = 57 ∧ 'A'.toNat = 65 ∧ 'F'.toNat = 70 := by decide
  have decimal := isDecDigit_iff c
  unfold Base.digitValue
  split
  next low =>
    have bounds := decimal.mp low
    cases base <;> simp only [Base.radix] <;> omega
  next other =>
    cases base with
    | ten => exact absurd digit other
    | sixteen =>
      have bounds := ((isHexDigit_iff c).mp digit).resolve_left other
      simp only [Base.radix]
      omega

private theorem le_accumulate (base : Base) (digits : List Char) (start : Nat) :
    start ≤ digits.foldl (fun value c => value * base.radix + Base.digitValue c) start := by
  induction digits generalizing start with
  | nil => exact Nat.le_refl start
  | cons c digits ih =>
    have positive : 0 < base.radix := by cases base <;> decide
    calc
      start ≤ start * base.radix := Nat.le_mul_of_pos_right start positive
      _ ≤ start * base.radix + Base.digitValue c := Nat.le_add_right _ _
      _ ≤ _ := ih _

private theorem toInt_ofNat {n : Nat} (small : n < 2 ^ 63) : (Int64.ofInt n).toInt = n := by
  apply toInt_ofInt <;> omega

/-- The loop overflows exactly if its last value does: the values before are not greater. -/
private theorem loopFits_iff (base : Base) {digits : List Char} (all : ∀ c ∈ digits, base.isDigit c = true)
    {start : Nat} (small : start < 2 ^ 63) :
    LoopFits base (Int64.ofInt start) digits ↔
      digits.foldl (fun value c => value * base.radix + Base.digitValue c) start < 2 ^ 63 := by
  induction digits generalizing start with
  | nil => exact iff_of_true trivial small
  | cons c digits ih =>
    have digit := all c List.mem_cons_self
    have others : ∀ d ∈ digits, base.isDigit d = true := fun d member => all d (List.mem_cons_of_mem c member)
    have bound : base.radix ≤ 16 := by cases base <;> decide
    have below := digitValue_lt base digit
    have product : Int64.ofInt start * base.toInt = Int64.ofInt (start * base.radix : Nat) := by
      rw [toInt_eq, ← Int64.ofInt_mul, Int.natCast_mul]
    have sum : Int64.ofInt start * base.toInt + base.digitToInt c =
        Int64.ofInt (start * base.radix + Base.digitValue c : Nat) := by
      rw [product, digitToInt_eq base digit, ← Int64.ofInt_add, Int.natCast_add]
    have radix : base.toInt.toInt = base.radix := by cases base <;> decide
    have value : (base.digitToInt c).toInt = Base.digitValue c := by
      rw [digitToInt_eq base digit, toInt_ofNat (by omega)]
    rw [LoopFits, sum, product, toInt_ofNat small, radix, value, ← Int.natCast_mul, List.foldl_cons]
    constructor
    · intro steps
      obtain ⟨⟨-, fits⟩, ⟨-, added⟩, rest⟩ := steps
      rw [toInt_ofNat (by omega)] at added
      exact (ih others (by omega)).mp rest
    · intro last
      have grown := le_accumulate base digits (start * base.radix + Base.digitValue c)
      have next : start * base.radix + Base.digitValue c < 2 ^ 63 := by omega
      rw [toInt_ofNat (by omega)]
      exact ⟨⟨by omega, by omega⟩, ⟨by omega, by omega⟩, (ih others next).mpr last⟩

private theorem lexeme_loopFits_iff (text : List Char) :
    LoopFits (lexeme text).base 0 (lexeme text).digits ↔ (lexeme text).magnitude < 2 ^ 63 :=
  loopFits_iff _ (lexeme_digits text) (show 0 < 2 ^ 63 by decide)

private theorem accumulated_eq (text : List Char) : (lexeme text).accumulated = Int64.ofInt (lexeme text).magnitude :=
  accumulate_eq _ _ (lexeme_digits text) 0

/-- Literals are read faithfully exactly if their magnitude is below 2 ^ 63. Not even the
least i64, which fits only with its sign, is computed without overflow. -/
theorem literal_faithful_iff (before text : List Char) :
    LiteralFaithful before text ↔ (lexeme text).magnitude < 2 ^ 63 := by
  constructor
  · intro faithful
    exact (lexeme_loopFits_iff text).mp faithful.loop
  · intro small
    obtain ⟨low, high⟩ := Lexeme.value_range small
    have fits : Fits (lexeme text).value := ⟨by omega, high⟩
    refine ⟨(lexeme_loopFits_iff text).mpr small, ?_, ?_, ?_⟩
    · rw [accumulated_eq, toInt_ofNat small]
      unfold Lexeme.sign
      split
      · change Fits (_ * -1)
        unfold Fits
        omega
      · change Fits (_ * 1)
        unfold Fits
        omega
    · intro some _
      have read := parseI64_cursor (ε := Throw) (List.suffix_append before text)
      rw [readInt_lexeme, if_neg some] at read
      exact ⟨_, _, read, toInt_ofInt fits.1 fits.2⟩
    · intro _ misfit
      exact absurd fits misfit

/-- The literal 2 ^ 63 is read as the least i64. -/
theorem overflow_changes_sign :
    parseI64 (.ofString "9223372036854775808") =
      (.ok (some ⟨cursor "9223372036854775808".toList [], Int64.minValue⟩) : Except (Fault Throw) (OptionParserResult i64)) ∧
    ¬LiteralFaithful [] "9223372036854775808".toList := by
  have whole : "9223372036854775808".toList <:+ "9223372036854775808".toList := List.suffix_rfl
  have parsed := parseI64_cursor (ε := Throw) whole
  have value : readInt "9223372036854775808".toList = some (Int64.minValue, []) := by decide
  rw [value] at parsed
  constructor
  · rw [Strive.ofString, ofText_eq]
    exact parsed
  · intro faithful
    have misfit : ¬Fits (lexeme "9223372036854775808".toList).value := by
      unfold Fits
      decide
    have refused := faithful.outside (by decide) misfit
    rw [List.nil_append, parsed] at refused
    cases refused

end Cplastane.Parsec
