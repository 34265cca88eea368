import Cplastane.Proofs.ParserReads
import Cplastane.Proofs.GrammarComplete

/-! Displacements of memory operands. The literal is read as an i64 and narrowed without
a check, so it keeps its value exactly if it fits into an i32. -/

namespace Cplastane.Assembly
open Parsec Text Exceptions

/-- The literal of the displacement stands in front of the rest: behind a bracket, a base, and an
optional index with its scale. -/
inductive DispAt : List Char → List Char → Prop where
  | behind {name base indexText index scale} (rest : List Char) (known : (name, base) ∈ registerNames)
      (indexed : IndexText wrapped indexText index scale) :
      DispAt ('[' :: (name.toList ++ (indexText ++ (" + ".toList ++ rest)))) rest

private theorem toInt32_exact_iff (n : i64) : n.toInt32.toInt = n.toInt ↔ -2 ^ 31 ≤ n.toInt ∧ n.toInt < 2 ^ 31 := by
  constructor
  · intro same
    rw [← same]
    exact ⟨Int32.le_toInt _, Int32.toInt_lt _⟩
  · intro fits
    rw [Int64.toInt_toInt32]
    apply Int.bmod_eq_of_le <;> omega

private theorem readInt_unregistered {text behind : List Char} {n : i64} (read : readInt text = some (n, behind)) :
    keyword registerNames text = none := by
  obtain ⟨_, _, _, number, rfl, _, -⟩ := readInt_sound read
  exact int_not_register number _

theorem DispAt.narrowed {text rest tail behind : List Char} {arg : Arg} {n : i64} (place : DispAt text rest)
    (accepted : readArg text = .ok (.ok (arg, tail))) (read : readInt rest = some (n, behind)) :
    ∃ memory : Memory, arg = .memory memory ∧ memory.disp = n.toInt32 := by
  cases place with
  | @behind name base indexText index scale _ known indexed =>
    have ends : Stops prolongsInt (" + ".toList ++ rest) := stops_cons.mpr rfl
    have unregistered : ((" + ".toList ++ rest).dropPrefix? " + ".toList).bind (keyword registerNames) = none := by
      rw [dropPrefix_append]
      exact readInt_unregistered read
    have disp : readDisp (" + ".toList ++ rest) = (n.toInt32, behind) := by
      simp only [readDisp, dropPrefix_append, Option.bind_some, read]
    rw [readArg_memory known indexed ends unregistered, disp] at accepted
    dsimp only at accepted
    split at accepted
    · cases accepted
    · cases made : Arg.mem base index scale n.toInt32 with
      | error error =>
        rw [made] at accepted
        cases accepted
      | ok built =>
        rw [made] at accepted
        cases accepted
        obtain ⟨unscaled, rfl⟩ := mem_ok made
        exact ⟨_, rfl, rfl⟩

theorem DispAt.suffix {text rest : List Char} (place : DispAt text rest) : rest <:+ text := by
  cases place with
  | @behind name _ indexText _ _ _ _ _ =>
    refine ⟨'[' :: (name.toList ++ (indexText ++ " + ".toList)), ?_⟩
    simp only [List.cons_append, List.append_assoc]

/-- A displacement keeps the value of its literal exactly if that is an i32. -/
theorem displacement_kept_iff {before text rest : List Char} {tail behind : Strive} {memory : Memory} {n : i64}
    (accepted : parseArg (cursor (before ++ text) text) = .ok (.ok ⟨tail, .memory memory⟩)) (place : DispAt text rest)
    (read : parseI64 (cursor (before ++ text) rest) = (.ok (some ⟨behind, n⟩) : Run (OptionParserResult i64))) :
    memory.disp.toInt = n.toInt ↔ -2 ^ 31 ≤ n.toInt ∧ n.toInt < 2 ^ 31 := by
  have whole : text <:+ before ++ text := List.suffix_append before text
  rw [parseArg_cursor whole] at accepted
  rw [parseI64_cursor (place.suffix.trans whole)] at read
  obtain ⟨_, accepted, -⟩ := runs_accepted.mp accepted
  obtain ⟨⟨value, last⟩, number, same⟩ := Option.map_eq_some_iff.mp (Except.ok.inj read)
  cases same
  obtain ⟨_, same, narrowed⟩ := place.narrowed accepted number
  cases same
  rw [narrowed, toInt32_exact_iff]

theorem displacement_kept_eax :
    (5 : Disp).toInt = (5 : i64).toInt ↔ -2 ^ 31 ≤ (5 : i64).toInt ∧ (5 : i64).toInt < 2 ^ 31 := by
  have eax : ("eax", Reg.eax) ∈ registerNames := by simp [registerNames]
  have five : IntText .ten "5".toList 5 := .literal .plus (show "5".toList ≠ [] by decide) (List.all_eq_true.mp rfl)
  have derived : ArgText wrapped "[eax + 5]".toList (.memory ⟨.eax, .undef, .s0, 5, fun _ => rfl⟩) :=
    @ArgText.mem wrapped "eax" [] (" + ".toList ++ "5".toList) ⟨.eax, .undef, .s0, 5, fun _ => rfl⟩ eax .absent
      (.present five rfl)
  have accepted := parseArg_cursor (List.suffix_refl "[eax + 5]".toList)
  have read := parseI64_cursor (ε := Throw) (show "5]".toList <:+ "[eax + 5]".toList from ⟨"[eax + ".toList, rfl⟩)
  rw [readArg_whole derived] at accepted
  exact @displacement_kept_iff [] _ _ _ _ _ _ accepted (.behind "5]".toList eax .absent) read

/-- The displacement 2 ^ 32 + 1 becomes 1. -/
theorem displacement_narrowed :
    parseI64 (cursor "[eax + 4294967297]".toList "4294967297]".toList) =
        (.ok (some ⟨cursor "[eax + 4294967297]".toList [']'], 4294967297⟩) : Run _) ∧
      ∃ tail memory, parseArg (.ofString "[eax + 4294967297]") = .ok (.ok ⟨tail, .memory memory⟩) ∧
        memory.disp = 1 := by
  have eax : ("eax", Reg.eax) ∈ registerNames := by simp [registerNames]
  have number : IntText .ten "4294967297".toList 4294967297 :=
    .literal .plus (show "4294967297".toList ≠ [] by decide) (List.all_eq_true.mp rfl)
  have derived : ArgText wrapped "[eax + 4294967297]".toList (.memory ⟨.eax, .undef, .s0, 1, fun _ => rfl⟩) :=
    @ArgText.mem wrapped "eax" [] (" + ".toList ++ "4294967297".toList) ⟨.eax, .undef, .s0, 1, fun _ => rfl⟩ eax .absent
      (.present number rfl)
  have ends : Stops prolongsInt [']'] := stops_cons.mpr rfl
  have behind : "4294967297]".toList <:+ "[eax + 4294967297]".toList := ⟨"[eax + ".toList, rfl⟩
  constructor
  · have read : readInt "4294967297]".toList = some (4294967297, [']']) := readInt_before number ends
    rw [parseI64_cursor behind, read]
    rfl
  · refine ⟨cursor "[eax + 4294967297]".toList [], ⟨.eax, .undef, .s0, 1, fun _ => rfl⟩, ?_, rfl⟩
    rw [Strive.ofString, ofText_eq, parseArg_cursor List.suffix_rfl, readArg_whole derived]
    rfl

end Cplastane.Assembly
