import Mathlib.Data.List.Infix
import Mathlib.Data.List.TakeWhile

/-! Scanning the front of a text: fixed prefixes, maximal runs, and keywords. In a
prefix-free table the first entry that matches is the only one, so the order of the
entries does not matter. -/

namespace Text

theorem dropPrefix_iff {text pre rest : List Char} : text.dropPrefix? pre = some rest ↔ text = pre ++ rest := by
  simp [List.dropPrefix?_eq_some_iff]

@[simp] theorem dropPrefix_append (pre rest : List Char) : (pre ++ rest).dropPrefix? pre = some rest :=
  dropPrefix_iff.mpr rfl

theorem dropPrefix_none {text pre : List Char} (other : ∀ rest, text ≠ pre ++ rest) : text.dropPrefix? pre = none := by
  apply Option.eq_none_iff_forall_ne_some.mpr
  intro rest found
  exact other rest (dropPrefix_iff.mp found)

def Stops (kind : Char → Bool) (text : List Char) : Prop := text.head?.any kind = false

@[simp] theorem stops_cons {kind : Char → Bool} {c : Char} {text : List Char} :
    Stops kind (c :: text) ↔ kind c = false := by
  simp [Stops]

theorem Stops.mono {kind wider : Char → Bool} {text : List Char} (within : ∀ c, kind c = true → wider c = true)
    (stops : Stops wider text) : Stops kind text := by
  cases text with
  | nil => rfl
  | cons c text =>
    rw [stops_cons] at stops ⊢
    by_contra holds
    exact absurd (within c (by simpa using holds)) (by simp [stops])

theorem stops_dropWhile (kind : Char → Bool) (text : List Char) : Stops kind (text.dropWhile kind) := by
  induction text with
  | nil => rfl
  | cons c text ih =>
    rw [List.dropWhile_cons]
    split
    · exact ih
    next other => simpa using other

theorem takeWhile_run {kind : Char → Bool} {run rest : List Char} (all : ∀ c ∈ run, kind c = true)
    (stops : Stops kind rest) : (run ++ rest).takeWhile kind = run := by
  rw [List.takeWhile_append_of_pos all]
  cases rest with
  | nil => simp
  | cons c rest =>
    simp [stops_cons.mp stops]

theorem dropWhile_run {kind : Char → Bool} {run rest : List Char} (all : ∀ c ∈ run, kind c = true)
    (stops : Stops kind rest) : (run ++ rest).dropWhile kind = rest := by
  rw [List.dropWhile_append_of_pos all]
  cases rest with
  | nil => rfl
  | cons c rest =>
    simp [stops_cons.mp stops]

variable {α : Type}

/-- The first entry of the table that the text starts with, and the text behind it. The order of a
table matters: a name hides the longer ones behind it. -/
def keyword (table : List (String × α)) (text : List Char) : Option (α × List Char) :=
  table.findSome? fun (name, value) => (text.dropPrefix? name.toList).map (value, ·)

theorem keyword_sound {table : List (String × α)} {text rest : List Char} {value : α}
    (found : keyword table text = some (value, rest)) :
    ∃ name, (name, value) ∈ table ∧ text = name.toList ++ rest := by
  obtain ⟨⟨name, other⟩, member, matched⟩ := List.exists_of_findSome?_eq_some found
  simp only [Option.map_eq_some_iff, Prod.mk.injEq] at matched
  obtain ⟨tail, dropped, rfl, rfl⟩ := matched
  exact ⟨name, member, dropPrefix_iff.mp dropped⟩

/-- No name is the beginning of another one. -/
def PrefixFree (table : List (String × α)) : Prop :=
  ∀ first ∈ table, ∀ second ∈ table, first.1.toList <+: second.1.toList → first = second

theorem keyword_append {table : List (String × α)} (free : PrefixFree table) {name : String} {value : α}
    (known : (name, value) ∈ table) (rest : List Char) :
    keyword table (name.toList ++ rest) = some (value, rest) := by
  cases found : keyword table (name.toList ++ rest) with
  | none =>
    have unmatched := List.findSome?_eq_none_iff.mp found _ known
    simp at unmatched
  | some result =>
    obtain ⟨other, tail⟩ := result
    obtain ⟨otherName, member, split⟩ := keyword_sound found
    have left : name.toList <+: name.toList ++ rest := List.prefix_append _ _
    have right : otherName.toList <+: name.toList ++ rest := ⟨tail, split.symm⟩
    have same : (name, value) = (otherName, other) := by
      rcases List.prefix_or_prefix_of_prefix left right with shorter | longer
      · exact free _ known _ member shorter
      · exact (free _ member _ known longer).symm
    cases same
    rw [List.append_cancel_left split]

def Starts (kind : Char → Bool) (table : List (String × α)) : Prop :=
  ∀ entry ∈ table, entry.1.toList.head?.any kind = true

theorem Starts.stops {table : List (String × α)} {kind other : Char → Bool} (starts : Starts kind table)
    (disjoint : ∀ c, kind c = true → other c = false) {name : String} {value : α} (known : (name, value) ∈ table)
    (rest : List Char) : Stops other (name.toList ++ rest) := by
  have first := starts _ known
  cases letters : name.toList with
  | nil => simp [letters] at first
  | cons c letters' =>
    rw [letters, List.head?_cons, Option.any_some] at first
    exact stops_cons.mpr (disjoint c first)

theorem keyword_none {table : List (String × α)} {kind : Char → Bool} (starts : Starts kind table) {text : List Char}
    (stops : Stops kind text) : keyword table text = none := by
  cases found : keyword table text with
  | none => rfl
  | some result =>
    obtain ⟨name, known, rfl⟩ := keyword_sound found
    have first := starts _ known
    cases letters : name.toList with
    | nil => simp [letters] at first
    | cons c letters' => simp_all

end Text
