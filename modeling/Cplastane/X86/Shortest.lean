import Cplastane.X86.Encoding

/-! How many bytes an address needs. Without an escape the mode announces exactly the
displacement bytes that follow, and only a SIB byte can name an index or base number 4. -/

namespace X86

/-- An address that no form without a SIB byte stands for: it has an index, or its base has the
number that announces a SIB byte. -/
def Address.NeedsSib (address : Address) : Prop := address.index ≠ none ∨ address.base = .reg (.gp address.size 4)

instance (address : Address) : Decidable address.NeedsSib := inferInstanceAs (Decidable (_ ∨ _))

def dispBytes (disp : Int) : Nat := if disp = 0 then 0 else if -128 ≤ disp ∧ disp ≤ 127 then 1 else 4

private theorem dispBytes_le (disp : Int) : dispBytes disp ≤ 4 := by
  unfold dispBytes
  split
  · omega
  split <;> omega

private theorem field_zero {bytes rest : List UInt8} {value : Int} (read : field 0 bytes = some (value, rest)) :
    value = 0 := by
  cases read
  rw [List.take_zero]
  rfl

private theorem field_one {bytes rest : List UInt8} {value : Int} (read : field 1 bytes = some (value, rest)) :
    -128 ≤ value ∧ value ≤ 127 := by
  unfold field at read
  split at read
  next enough =>
    cases read
    have length : (bytes.take 1).length = 1 := by simpa using enough
    rw [signed, length, Nat.pow_one]
    have low := Int.le_bmod (x := unsigned (bytes.take 1)) (m := 256) (by decide)
    have high := Int.bmod_lt (x := unsigned (bytes.take 1)) (m := 256) (by decide)
    omega
  · cases read

private theorem dispBytes_le_dispSize {mod : Fin 4} {number : Fin 8} {bytes rest : List UInt8} {disp : Int}
    (kept : ¬(mod = 0 ∧ number = 5)) (read : field (dispSize mod number) bytes = some (disp, rest)) :
    dispBytes disp ≤ dispSize mod number := by
  have bound := dispBytes_le disp
  unfold dispSize at read ⊢
  split at read
  next zero =>
    have other : number ≠ 5 := fun five => kept ⟨zero, five⟩
    rw [if_neg other] at read
    rw [field_zero read]
    exact Nat.zero_le _
  split at read
  next some one =>
    have range := field_one read
    rw [if_neg some, if_pos one, dispBytes]
    split <;> omega
  next some more => rwa [if_neg some, if_neg more]

private theorem memory_parts {address : Size} {bytes rest : List UInt8} {reg : Fin 8} {place : Address}
    (read : memory address bytes = some (reg, place, rest)) :
    ∃ found disp tail, form address bytes = some (found, tail) ∧ field found.dispSize tail = some (disp, rest) ∧
      place = found.address disp := by
  simp only [memory, Option.bind_eq_bind, Option.bind_eq_some_iff, Prod.exists] at read
  obtain ⟨found, tail, selected, disp, _, taken, same⟩ := read
  cases same
  exact ⟨found, disp, tail, selected, taken, rfl⟩

/-- No encoding of an address with a base register is shorter than its parts. -/
theorem memory_length {address : Size} {bytes rest : List UInt8} {reg : Fin 8} {place : Address} {register : Register}
    (read : memory address bytes = some (reg, place, rest)) (based : place.base = .reg register) :
    1 + (if place.NeedsSib then 1 else 0) + dispBytes place.disp + rest.length ≤ bytes.length := by
  obtain ⟨found, disp, tail, selected, taken, rfl⟩ := memory_parts read
  have length := field_length taken
  change found.base = .reg register at based
  change _ + dispBytes disp + _ ≤ _
  cases bytes with
  | nil => cases selected
  | cons modrm bytes =>
    have indirect : (fields modrm).top ≠ 3 := by
      intro direct
      simp [form, direct] at selected
    by_cases announced : (fields modrm).low = 4
    · cases bytes with
      | nil => simp [form, indirect, announced] at selected
      | cons sib bytes =>
        simp only [form, indirect, announced, if_true, if_false, Option.some.injEq, Prod.mk.injEq] at selected
        obtain ⟨rfl, rfl⟩ := selected
        have kept : ¬((fields modrm).top = 0 ∧ (fields sib).low = 5) := by
          intro escape
          simp [longForm, escape] at based
        have needed : dispBytes disp ≤ dispSize (fields modrm).top (fields sib).low := dispBytes_le_dispSize kept taken
        change bytes.length = dispSize (fields modrm).top (fields sib).low + rest.length at length
        rw [List.length_cons, List.length_cons]
        split <;> omega
    · simp only [form, indirect, announced, if_false, Option.some.injEq, Prod.mk.injEq] at selected
      obtain ⟨rfl, rfl⟩ := selected
      have kept : ¬((fields modrm).top = 0 ∧ (fields modrm).low = 5) := by
        intro escape
        simp [shortForm, escape] at based
      have plain : ¬((shortForm address (fields modrm)).address disp).NeedsSib := by
        rintro (indexed | four)
        · exact indexed rfl
        · simp only [Form.address, shortForm, if_neg kept, Base.reg.injEq, Register.gp.injEq] at four
          exact announced four.2
      have needed : dispBytes disp ≤ dispSize (fields modrm).top (fields modrm).low := dispBytes_le_dispSize kept taken
      change bytes.length = dispSize (fields modrm).top (fields modrm).low + rest.length at length
      rw [if_neg plain, List.length_cons]
      omega

end X86
