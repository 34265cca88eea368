import Mathlib.Algebra.Group.Int.Defs
import Mathlib.Algebra.Group.Nat.Defs

/-! Computations that may throw: inversion of their outcomes, and rules for what they
can throw at all. -/

namespace Exceptions

variable {ε α β : Type}

theorem bind_ok {first : Except ε α} {next : α → Except ε β} {value : β} :
    first >>= next = .ok value ↔ ∃ middle, first = .ok middle ∧ next middle = .ok value := by
  cases first <;> simp [bind, Except.bind]

theorem bind_error {first : Except ε α} {next : α → Except ε β} {error : ε} :
    first >>= next = .error error ↔ first = .error error ∨ ∃ middle, first = .ok middle ∧ next middle = .error error := by
  cases first <;> simp [bind, Except.bind]

theorem pure_ok {first second : α} : (pure first : Except ε α) = .ok second ↔ first = second := by
  simp [pure, Except.pure]

theorem throw_ok {error : ε} {value : α} : ¬(throw error : Except ε α) = .ok value := by
  simp [throw, throwThe, MonadExceptOf.throw]

theorem check_ok {first : Except ε Unit} {rest : Except ε β} {value : β} :
    (do first
        rest) = .ok value ↔ first = .ok () ∧ rest = .ok value := by
  cases first <;> simp [bind, Except.bind]

theorem guard_ok {condition : Prop} [Decidable condition] {error : ε} {rest : Except ε β} {value : β} :
    (do if condition then throw error
        rest) = .ok value ↔ ¬condition ∧ rest = .ok value := by
  by_cases holds : condition <;> simp [holds, throw, throwThe, MonadExceptOf.throw, bind, Except.bind]

theorem last_guard_ok {condition : Prop} [Decidable condition] {error : ε} :
    (if condition then throw error else pure () : Except ε Unit) = .ok () ↔ ¬condition := by
  by_cases holds : condition <;> simp [holds, throw, throwThe, MonadExceptOf.throw, pure, Except.pure]

/-- Whatever the computation throws has this property. It says nothing of a computation that
succeeds, so that it goes through every bind without its result. -/
def Raises (allowed : ε → Prop) (first : Except ε α) : Prop := ∀ error, first = .error error → allowed error

variable {allowed : ε → Prop}

theorem Raises.ok (value : α) : Raises allowed (.ok value : Except ε α) := by
  intro error failed
  cases failed

theorem Raises.pure (value : α) : Raises allowed (pure value : Except ε α) := Raises.ok value

theorem Raises.error {error : ε} (permitted : allowed error) : Raises allowed (.error error : Except ε α) := by
  intro other failed
  cases failed
  exact permitted

theorem Raises.bind {first : Except ε α} {next : α → Except ε β} (start : Raises allowed first)
    (rest : ∀ value, first = .ok value → Raises allowed (next value)) : Raises allowed (first >>= next) := by
  intro error failed
  rcases bind_error.mp failed with early | ⟨value, middle, late⟩
  · exact start error early
  · exact rest value middle error late

theorem Raises.guard {condition : Prop} [Decidable condition] {error : ε} {rest : Except ε β}
    (permitted : allowed error) (passed : ¬condition → Raises allowed rest) :
    Raises allowed (do if condition then throw error
                       rest) := by
  by_cases holds : condition
  · rw [if_pos holds]
    exact Raises.error permitted
  · rw [if_neg holds]
    exact passed holds

theorem Raises.passed {condition : Prop} [Decidable condition] {error : ε} {rest : Except ε β} (fails : ¬condition)
    (calm : Raises allowed rest) :
    Raises allowed (do if condition then throw error
                       rest) := by
  rw [if_neg fails]
  exact calm

theorem Raises.ite {condition : Prop} [Decidable condition] {first second : Except ε α}
    (holds : condition → Raises allowed first) (fails : ¬condition → Raises allowed second) :
    Raises allowed (if condition then first else second) := by
  split
  · exact holds ‹_›
  · exact fails ‹_›

theorem Raises.foldlM {step : β → α → Except ε β} {items : List α} (start : β)
    (each : ∀ item ∈ items, ∀ state, Raises allowed (step state item)) : Raises allowed (items.foldlM step start) := by
  induction items generalizing start with
  | nil => exact Raises.pure start
  | cons item items ih =>
    rw [List.foldlM_cons]
    apply Raises.bind (each item List.mem_cons_self start)
    intro state _
    exact ih state fun other member => each other (List.mem_cons_of_mem item member)

end Exceptions
