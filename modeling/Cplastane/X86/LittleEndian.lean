import Mathlib.Algebra.Group.Int.Defs
import Mathlib.Algebra.Group.Nat.Defs
import Mathlib.Tactic.NormNum
import Mathlib.Tactic.Ring

/-! Little-endian fields of a byte stream. A field of `n` bytes holds the integer
modulo `256 ^ n`; a processor reads it back as the signed representative. -/

namespace X86

/-- The `n` low bytes of an integer in two's complement, least significant first. -/
def littleEndian : Nat → Int → List UInt8
  | 0, _ => []
  | n + 1, value => UInt8.ofInt value :: littleEndian n (value / 256)

def unsigned : List UInt8 → Nat
  | [] => 0
  | byte :: bytes => byte.toNat + 256 * unsigned bytes

def signed (bytes : List UInt8) : Int := (unsigned bytes : Int).bmod (256 ^ bytes.length)

def field (n : Nat) (bytes : List UInt8) : Option (Int × List UInt8) :=
  if n ≤ bytes.length then some (signed (bytes.take n), bytes.drop n) else none

@[simp] theorem littleEndian_length (n : Nat) (value : Int) : (littleEndian n value).length = n := by
  induction n generalizing value with
  | zero => rfl
  | succ n ih => simp [littleEndian, ih]

theorem toNat_ofInt (value : Int) : ((UInt8.ofInt value).toNat : Int) = value % 256 := by
  simp only [UInt8.ofInt, UInt8.toNat_ofNat']
  omega

private theorem emod_succ (n : Nat) (value : Int) :
    value % 256 ^ (n + 1) = value % 256 + 256 * (value / 256 % 256 ^ n) := by
  rw [pow_succ', Int.emod_def, Int.emod_def, Int.emod_def, ← Int.ediv_ediv_of_nonneg (by decide)]
  ring

theorem unsigned_littleEndian (n : Nat) (value : Int) :
    (unsigned (littleEndian n value) : Int) = value % 256 ^ n := by
  induction n generalizing value with
  | zero => simp [littleEndian, unsigned]
  | succ n ih =>
    rw [emod_succ, ← ih, ← toNat_ofInt]
    simp [littleEndian, unsigned]

theorem littleEndian_congr (n : Nat) {first second : Int}
    (same : first % 256 ^ n = second % 256 ^ n) : littleEndian n first = littleEndian n second := by
  induction n generalizing first second with
  | zero => rfl
  | succ n ih =>
    rw [emod_succ, emod_succ] at same
    have low : UInt8.ofInt first = UInt8.ofInt second := by
      unfold UInt8.ofInt
      congr 2
      omega
    have high : first / 256 % 256 ^ n = second / 256 % 256 ^ n := by omega
    rw [littleEndian, littleEndian, low, ih high]

theorem littleEndian_bmod (n : Nat) (value : Int) :
    littleEndian n (value.bmod (256 ^ n)) = littleEndian n value := by
  apply littleEndian_congr
  exact_mod_cast Int.bmod_emod (x := value) (m := 256 ^ n)

theorem signed_littleEndian (n : Nat) (value : Int) :
    signed (littleEndian n value) = value.bmod (256 ^ n) := by
  rw [signed, unsigned_littleEndian, littleEndian_length]
  exact_mod_cast Int.emod_bmod value (256 ^ n)

theorem bmod_emod_bits (n : Nat) (value : Int) : value.bmod (256 ^ n) % 2 ^ (8 * n) = value % 2 ^ (8 * n) := by
  have modulus : (2 : Int) ^ (8 * n) = ((256 ^ n : Nat) : Int) := by
    rw [pow_mul]
    norm_num
  rw [modulus, Int.bmod_emod]

@[simp] theorem field_littleEndian (n : Nat) (value : Int) (rest : List UInt8) :
    field n (littleEndian n value ++ rest) = some (value.bmod (256 ^ n), rest) := by
  have taken : (littleEndian n value ++ rest).take n = littleEndian n value :=
    List.take_left' (littleEndian_length n value)
  have dropped : (littleEndian n value ++ rest).drop n = rest :=
    List.drop_left' (littleEndian_length n value)
  simp [field, taken, dropped, signed_littleEndian]

/-- A shorter field at the front of a longer one reads the value modulo its own size. -/
theorem littleEndian_append (n k : Nat) (value : Int) :
    littleEndian (n + k) value = littleEndian n value ++ littleEndian k (value / 256 ^ n) := by
  induction n generalizing value with
  | zero => simp [littleEndian]
  | succ n ih =>
    have shift : value / 256 / 256 ^ n = value / 256 ^ (n + 1) := by
      rw [Int.ediv_ediv_of_nonneg (by decide), pow_succ']
    rw [Nat.add_right_comm, littleEndian, ih, shift]
    rfl

end X86
