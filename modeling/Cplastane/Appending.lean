import Mathlib.Data.List.Induction
import Cplastane.Exceptions

/-! Computations that extend an output. What they append does not depend on what is there
already, and neither does what they throw, so a loop throws what its first failing item
throws alone. -/

namespace Appending
open Exceptions

variable {ε α β : Type}

/-- An output that is only appended to: what comes behind it does not depend on what is in front,
and neither does a refusal. Emitting code is of this kind throughout. -/
def Appends (extend : List α → Except ε (List α)) : Prop := ∀ out, extend out = (extend []).map (out ++ ·)

theorem Appends.push {push : List α → List α} (grows : ∀ out, push out = out ++ push []) :
    Appends fun out => (pure (push out) : Except ε (List α)) := by
  intro out
  simp [pure, Except.pure, Except.map, grows out]

theorem Appends.nothing :
    Appends fun out => (pure out : Except ε (List α)) := Appends.push fun out => out.append_nil.symm

theorem Appends.error (error : ε) : Appends fun _ => (.error error : Except ε (List α)) := fun _ => rfl

theorem Appends.bind {first next : List α → Except ε (List α)} (start : Appends first) (rest : Appends next) :
    Appends fun out => first out >>= next := by
  intro out
  dsimp only
  rw [start out]
  cases first [] with
  | error error => rfl
  | ok items =>
    change next (out ++ items) = (next items).map (out ++ ·)
    rw [rest (out ++ items), rest items]
    cases next [] with
    | error error => rfl
    | ok more => simp [Except.map]

theorem Appends.after {next : List α → Except ε (List α)} (rest : Appends next) {push : List α → List α}
    (grows : ∀ out, push out = out ++ push []) : Appends fun out => next (push out) := Appends.bind (Appends.push grows) rest

theorem Appends.beside {first : Except ε β} {next : β → List α → Except ε (List α)}
    (rest : ∀ value, Appends (next value)) :
    Appends fun out => first >>= fun value => next value out := by
  intro out
  cases first with
  | error error => rfl
  | ok value => exact rest value out

theorem Appends.guard {condition : Prop} [Decidable condition] {error : ε} {rest : List α → Except ε (List α)}
    (passed : Appends rest) :
    Appends fun out => (do
      if condition then throw error
      rest out) := by
  by_cases holds : condition
  · intro out
    simp only [if_pos holds]
    rfl
  · simp only [if_neg holds]
    exact passed

theorem Appends.ite {condition : Prop} [Decidable condition] {first second : List α → Except ε (List α)}
    (holds : Appends first) (fails : Appends second) : Appends fun out => if condition then first out else second out := by
  split
  · exact holds
  · exact fails

section Loops

variable {step : List α → β → Except ε (List α)}

/-- A loop throws exactly what the first item that throws is refused with on its own. The items in
front of it are accepted; those behind it are not looked at. -/
theorem foldlM_error_iff {items : List β} {error : ε} (each : ∀ item ∈ items, Appends fun out => step out item) :
    items.foldlM step [] = .error error ↔ ∃ before item after out, items = before ++ item :: after ∧
      before.foldlM step [] = .ok out ∧ step [] item = .error error := by
  constructor
  · intro failed
    induction items using List.reverseRecOn with
    | nil => cases failed
    | append_singleton items item ih =>
      rw [List.foldlM_append] at failed
      rcases bind_error.mp failed with early | ⟨out, ran, late⟩
      · obtain ⟨before, first, after, out, rfl, ran, thrown⟩ :=
          ih (fun other member => each other (List.mem_append_left _ member)) early
        exact ⟨before, first, after ++ [item], out, by simp, ran, thrown⟩
      · refine ⟨items, item, [], out, rfl, ran, ?_⟩
        simp only [List.foldlM_cons, List.foldlM_nil, bind_pure] at late
        rw [show step out item = (step [] item).map (out ++ ·) from each item (by simp) out] at late
        cases thrown : step [] item with
        | error other =>
          rw [thrown] at late
          exact late
        | ok items =>
          rw [thrown] at late
          cases late
  · intro failed
    obtain ⟨before, item, after, out, rfl, ran, thrown⟩ := failed
    have extended := each item (by simp) out
    dsimp only at extended
    rw [thrown] at extended
    rw [List.foldlM_append, ran]
    change (step out item >>= fun out => after.foldlM step out) = .error error
    rw [extended]
    rfl

end Loops

end Appending
