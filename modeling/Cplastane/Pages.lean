import Mathlib.Algebra.Order.Floor.Div

/-! Runs of pages. Sizes are rounded up to whole pages, so two sizes may need the same
run; how much room is left in the last page decides it. -/

namespace Pages

/-- The pages of a run, by their first addresses. A run of no pages is empty, wherever it begins. -/
def run (page place count : Nat) : Set Nat := {first | ∃ i < count, first = place + i * page}

def Covers (page : Nat) (pages : Set Nat) (address : Nat) : Prop :=
  ∃ first ∈ pages, first ≤ address ∧ address < first + page

variable {page place : Nat}

theorem covers_run_iff (positive : 0 < page) (count offset : Nat) :
    Covers page (run page place count) (place + offset) ↔ offset < page * count := by
  constructor
  · intro covered
    obtain ⟨_, ⟨i, inside, rfl⟩, _, below⟩ := covered
    calc
      offset < (i + 1) * page := by
        rw [Nat.add_mul, Nat.one_mul]
        omega
      _ ≤ count * page := Nat.mul_le_mul_right page inside
      _ = page * count := Nat.mul_comm _ _
  · intro inside
    have split := Nat.div_add_mod' offset page
    have rest := Nat.mod_lt offset positive
    exact ⟨_, ⟨offset / page, (Nat.div_lt_iff_lt_mul positive).mpr (Nat.mul_comm page count ▸ inside), rfl⟩, by omega, by omega⟩

theorem run_eq_iff (positive : 0 < page) (first second : Nat) :
    run page place first = run page place second ↔ first = second := by
  constructor
  · intro same
    have bounds (offset : Nat) : offset < page * first ↔ offset < page * second := by
      have left : Covers page (run page place first) (place + offset) ↔ _ := covers_run_iff positive first offset
      rw [← left, same, covers_run_iff positive]
    apply Nat.eq_of_mul_eq_mul_left positive
    apply Nat.le_antisymm
    · exact Nat.le_of_not_lt fun more => Nat.lt_irrefl _ ((bounds _).mp more)
    · exact Nat.le_of_not_lt fun more => Nat.lt_irrefl _ ((bounds _).mpr more)
  · rintro rfl
    rfl

/-- More bytes need no more pages exactly if they fit into the ones that are there. -/
theorem ceilDiv_add_eq_iff (positive : 0 < page) (size more : Nat) :
    (size + more) ⌈/⌉ page = size ⌈/⌉ page ↔ size + more ≤ page * (size ⌈/⌉ page) := by
  rw [← ceilDiv_le_iff_le_mul positive]
  constructor
  · exact Nat.le_of_eq
  · intro fits
    apply Nat.le_antisymm fits
    rw [ceilDiv_le_iff_le_mul positive]
    calc
      size ≤ size + more := Nat.le_add_right size more
      _ ≤ page * ((size + more) ⌈/⌉ page) := (ceilDiv_le_iff_le_mul positive).mp (Nat.le_refl _)

theorem fits_iff (positive : 0 < page) {size more : Nat} (some : 0 < more) :
    size + more ≤ page * (size ⌈/⌉ page) ↔ size % page ≠ 0 ∧ size % page + more ≤ page := by
  have split := Nat.div_add_mod size page
  have rest := Nat.mod_lt size positive
  by_cases whole : size % page = 0
  · have count : page * (size ⌈/⌉ page) ≤ size := by
      calc
        page * (size ⌈/⌉ page) ≤ page * (size / page) :=
          Nat.mul_le_mul_left page ((ceilDiv_le_iff_le_mul positive).mpr (by omega))
        _ = size := by omega
    simp only [whole, ne_eq, not_true_eq_false, false_and, iff_false]
    omega
  · have count : size ⌈/⌉ page = size / page + 1 := by
      rw [Nat.ceilDiv_eq_add_pred_div]
      apply Nat.div_eq_of_lt_le
      · rw [Nat.add_mul, Nat.one_mul, Nat.mul_comm]
        omega
      · rw [Nat.add_mul, Nat.add_mul, Nat.one_mul, Nat.mul_comm]
        omega
    rw [count, Nat.mul_add, Nat.mul_one]
    simp only [whole, ne_eq, not_false_eq_true, true_and]
    omega

end Pages
