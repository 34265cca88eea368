import Mathlib.Algebra.Group.Nat.Defs

/-! Positional numerals. A run of digits has a value for every radix and every reading of
its characters; the numerals that core prints are read back, also through a translation
of their characters such as the change to upper case. -/

namespace Text

def positional (radix : Nat) (value : Char → Nat) (digits : List Char) : Nat :=
  digits.foldl (fun total c => total * radix + value c) 0

variable {radix : Nat} {value : Char → Nat} {symbol : Char → Char}

@[simp] theorem positional_concat (digits : List Char) (c : Char) :
    positional radix value (digits ++ [c]) = positional radix value digits * radix + value c := by
  simp [positional]

theorem toDigits_induction (large : 1 < radix) {motive : Nat → Prop} (small : ∀ n, n < radix → motive n)
    (step : ∀ n, radix ≤ n → motive (n / radix) → motive n) (n : Nat) : motive n := by
  induction n using Nat.strongRecOn with
  | ind n ih =>
    by_cases below : n < radix
    · exact small n below
    · exact step n (by omega) (ih (n / radix) (Nat.div_lt_self (by omega) large))

theorem positional_toDigits (large : 1 < radix) (reads : ∀ digit < radix, value (symbol digit.digitChar) = digit)
    (n : Nat) : positional radix value ((Nat.toDigits radix n).map symbol) = n := by
  induction n using toDigits_induction large with
  | small n below => simp [Nat.toDigits_of_lt_base below, positional, reads n below]
  | step n above ih =>
    rw [Nat.toDigits_of_base_le large above, List.map_append, List.map_singleton, positional_concat, ih,
      reads _ (Nat.mod_lt n (by omega))]
    exact Nat.div_add_mod' n radix

theorem toDigits_digits (large : 1 < radix) {n : Nat} {c : Char} (member : c ∈ Nat.toDigits radix n) :
    ∃ digit < radix, c = digit.digitChar := by
  induction n using toDigits_induction large with
  | small n below =>
    rw [Nat.toDigits_of_lt_base below, List.mem_singleton] at member
    exact ⟨n, below, member⟩
  | step n above ih =>
    rw [Nat.toDigits_of_base_le large above, List.mem_append, List.mem_singleton] at member
    rcases member with earlier | last
    · exact ih earlier
    · exact ⟨n % radix, Nat.mod_lt n (by omega), last⟩

end Text
