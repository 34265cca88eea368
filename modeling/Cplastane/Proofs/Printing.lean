import Cplastane.Assembly.Print
import Cplastane.Proofs.Literals
import Cplastane.Proofs.ParserReads

/-! Printing operands and parsing them back. The parser accepts only derivations of the
grammar, which has a `*` for every scale and a `+` for every displacement; the printer
leaves out the scale S1 and writes a minus sign for negative displacements. -/

namespace Cplastane.Assembly
open Parsec Text Exceptions

def Reg.Printed (reg : Reg) : Prop := reg ≠ .sp ∧ reg ≠ .bp ∧ reg ≠ .si ∧ reg ≠ .di

/-- The operands that are printed: all but those with one of these registers, and with the
displacement that has no absolute value. -/
def Arg.Printable : Arg → Prop
  | .register reg => reg.Printed
  | .memory place => place.base.Printed ∧ place.index.Printed ∧ place.disp ≠ Int32.minValue
  | .immediate _ | .undef => True

/-- The operands that are printed in the notation of the grammar: no scale is left out, and no
displacement is written with a minus sign. -/
def Arg.Plain : Arg → Prop
  | .memory place => place.scale ≠ .s1 ∧ 0 ≤ place.disp
  | .immediate _ | .register _ | .undef => True

def Returned (arg : Arg) : Prop := ∃ text tail, parseArg (.ofText text) = .ok (.ok ⟨tail, arg⟩)

/-- Parsing exactly the printed text consumes all of it and returns the operand. -/
def Arg.RoundTrip (arg : Arg) : Prop :=
  ∃ text, arg.print = .ok text ∧ parseArg (.ofString text) = .ok (.ok ⟨cursor text.toList [], arg⟩)

private theorem returned_iff {arg : Arg} : Returned arg ↔ ∃ text, ArgText wrapped text arg := by
  constructor
  · intro returned
    obtain ⟨text, tail, parsed⟩ := returned
    rw [ofText_eq, parseArg_cursor List.suffix_rfl] at parsed
    obtain ⟨_, read, -⟩ := runs_accepted.mp parsed
    obtain ⟨consumed, -, derived⟩ := readArg_sound read
    exact ⟨consumed, derived⟩
  · intro derives
    obtain ⟨text, derived⟩ := derives
    refine ⟨text, cursor text [], ?_⟩
    rw [ofText_eq, parseArg_cursor List.suffix_rfl, readArg_whole derived]
    rfl

private theorem parsedWhole_iff {text : String} {arg : Arg} :
    parseArg (.ofString text) = .ok (.ok ⟨cursor text.toList [], arg⟩) ↔ ArgText wrapped text.toList arg := by
  rw [Strive.ofString, ofText_eq, parseArg_cursor List.suffix_rfl]
  constructor
  · intro parsed
    obtain ⟨behind, read, same⟩ := runs_accepted.mp parsed
    obtain ⟨consumed, split, derived⟩ := readArg_sound read
    have size := congrArg Strive.size same
    rw [cursor_size, cursor_size, List.length_nil] at size
    rw [List.length_eq_zero_iff.mp size.symm, List.append_nil] at split
    rwa [split]
  · intro derived
    rw [readArg_whole derived]
    rfl

section Numbers

private theorem toString_toList (n : Int) : (toString n).toList = printed .ten n := by
  have same : ∀ digit < 10, digit.digitChar.toUpper = digit.digitChar := by decide
  have upper : (Nat.toDigits 10 n.natAbs).map Char.toUpper = Nat.toDigits 10 n.natAbs := by
    rw [List.map_congr_left (g := id), List.map_id]
    intro c member
    obtain ⟨digit, below, rfl⟩ := toDigits_digits (by decide) member
    exact same digit below
  rw [Int.toString_eq_repr, Int.repr_eq_if]
  unfold printed
  rw [show Base.ten.radix = 10 from rfl, upper]
  by_cases negative : n < 0
  · have magnitude : (-n).toNat = n.natAbs := by omega
    rw [if_neg (by omega), if_pos negative, magnitude, String.toList_append, Nat.toList_repr]
    rfl
  · have magnitude : n.toNat = n.natAbs := by omega
    rw [if_pos (by omega), if_neg negative, magnitude, Nat.toList_repr]
    rfl

theorem intText_toString (n : Int) : IntText .ten (toString n).toList n := by
  rw [toString_toList]
  exact intText_printed .ten n

end Numbers

section Parts

private theorem printReg_ok {reg : Reg} (printed : reg.Printed) (named : reg ≠ .undef) :
    ∃ name, Arg.printReg reg = .ok name ∧ (name, reg) ∈ registerNames := by
  obtain ⟨sp, bp, si, di⟩ := printed
  cases reg <;> first | contradiction | exact ⟨_, rfl, by simp [registerNames]⟩

private theorem abs_toInt {disp : Disp} (positive : 0 ≤ disp.toInt) : disp.abs.toInt = disp.toInt := by
  change disp.toBitVec.abs.toInt = disp.toBitVec.toInt
  rw [BitVec.toInt_abs_eq_natAbs]
  split
  next least => rw [← least]
  next => exact Int.natAbs_of_nonneg positive

private theorem disp_ne_zero {disp : Disp} (some : disp.toInt ≠ 0) : disp ≠ 0 :=
  fun zero => some (congrArg Int32.toInt zero)

theorem printDisp_positive {disp : Disp} (positive : 0 < disp.toInt) :
    (Arg.printDisp disp).toList = " + ".toList ++ (toString disp.toInt).toList := by
  have nonzero : disp ≠ 0 := disp_ne_zero (by omega)
  have above : disp > 0 := Int32.lt_iff_toInt_lt.mpr positive
  rw [Arg.printDisp, if_pos nonzero, if_pos above, abs_toInt (by omega), String.toList_append]

theorem printDisp_negative {disp : Disp} (negative : disp.toInt < 0) :
    (Arg.printDisp disp).toList = " - ".toList ++ (toString disp.abs.toInt).toList := by
  have nonzero : disp ≠ 0 := disp_ne_zero (by omega)
  have below : ¬disp > 0 := by
    intro above
    have other : (0 : Disp).toInt < disp.toInt := Int32.lt_iff_toInt_lt.mp above
    change 0 < disp.toInt at other
    omega
  rw [Arg.printDisp, if_pos nonzero, if_neg below, String.toList_append]

private theorem printDisp_derives {disp : Disp} (nonnegative : 0 ≤ disp.toInt) :
    DispText wrapped (Arg.printDisp disp).toList disp := by
  by_cases zero : disp.toInt = 0
  · have same : disp = 0 := Int32.toInt_inj.mp zero
    subst same
    exact .absent
  · rw [printDisp_positive (by omega)]
    apply DispText.present (intText_toString disp.toInt)
    change disp = (Int64.ofInt disp.toInt).toInt32
    rw [Int64.toInt32_ofInt, Int32.ofInt_toInt]

private theorem printDisp_star (disp : Disp) : '*' ∉ (Arg.printDisp disp).toList := by
  have number (n : Int) : '*' ∉ (toString n).toList := (intText_toString n).lacks (by decide) (by decide)
  rcases Int.lt_trichotomy disp.toInt 0 with negative | zero | positive
  · rw [printDisp_negative negative, List.mem_append, not_or]
    exact ⟨by decide, number _⟩
  · have same : disp = 0 := Int32.toInt_inj.mp zero
    subst same
    decide
  · rw [printDisp_positive positive, List.mem_append, not_or]
    exact ⟨by decide, number _⟩

private theorem printDisp_plus {disp : Disp} (negative : disp.toInt < 0) : '+' ∉ (Arg.printDisp disp).toList := by
  rw [printDisp_negative negative, List.mem_append, not_or]
  exact ⟨by decide, (intText_toString _).lacks (by decide) (by decide)⟩

private theorem scaled_derives {name digit : String} {index : Reg} {scale : Scale} {value : Int}
    (known : (name, index) ∈ registerNames)
    (number : IntText .ten digit.toList value) (scaled : ScaleValue (value % 2 ^ 64) scale) :
    IndexText wrapped (" + " ++ name ++ " * " ++ digit).toList index scale := by
  simp only [String.toList_append, List.append_assoc]
  exact .present known number scaled

private theorem printIndex_eq {place : Memory} {name : String} (scaled : place.scale ≠ .s0)
    (read : Arg.printReg place.index = .ok name) :
    Arg.printIndex place = if place.scale = .s1 then .ok (" + " ++ name)
      else (Arg.printScale place.scale).map fun digit => " + " ++ name ++ " * " ++ digit := by
  unfold Arg.printIndex
  rw [if_pos scaled, read]
  by_cases one : place.scale = .s1
  · simp [one, bind, Except.bind, pure, Except.pure]
  · cases Arg.printScale place.scale <;> simp [one, bind, Except.bind, pure, Except.pure, Except.map]

private theorem printIndex_derives {place : Memory} {front : List Char}
    (indexed : IndexText wrapped front place.index place.scale)
    (printed : place.index.Printed) (some : place.scale ≠ .s1) :
    ∃ text, Arg.printIndex place = .ok text ∧ IndexText wrapped text.toList place.index place.scale := by
  obtain ⟨base, index, scale, disp, unscaled⟩ := place
  cases indexed with
  | absent => exact ⟨"", rfl, .absent⟩
  | present known number scaled =>
    obtain ⟨name, read, named⟩ := printReg_ok printed (registerNames_named _ known)
    have printed := @printIndex_eq ⟨base, index, scale, disp, unscaled⟩ name
    rcases scaled with ⟨-, rfl⟩ | ⟨-, rfl⟩ | ⟨-, rfl⟩ | ⟨-, rfl⟩
    · exact absurd rfl some
    · exact ⟨_, printed nofun read, scaled_derives named (intText_toString 2) (.inr (.inl ⟨rfl, rfl⟩))⟩
    · exact ⟨_, printed nofun read, scaled_derives named (intText_toString 4) (.inr (.inr (.inl ⟨rfl, rfl⟩)))⟩
    · exact ⟨_, printed nofun read, scaled_derives named (intText_toString 8) (.inr (.inr (.inr ⟨rfl, rfl⟩)))⟩

private theorem printIndex_one {place : Memory} (one : place.scale = .s1) (printed : place.index.Printed)
    (named : place.index ≠ .undef) :
    ∃ text, Arg.printIndex place = .ok text ∧ '*' ∉ text.toList := by
  obtain ⟨name, read, known⟩ := printReg_ok printed named
  have scaled : place.scale ≠ .s0 := by simp [one]
  refine ⟨_, (printIndex_eq scaled read).trans (if_pos one), ?_⟩
  rw [String.toList_append, List.mem_append, not_or]
  exact ⟨by decide, register_lacks known rfl⟩

end Parts

section Derivations

private theorem register_count {name : String} {reg : Reg} (known : (name, reg) ∈ registerNames) :
    name.toList.count '+' = 0 :=
  List.count_eq_zero_of_not_mem (register_lacks known rfl)

theorem IndexText.plus {text : List Char} {index : Reg} {scale : Scale} (indexed : IndexText wrapped text index scale) :
    text.count '+' = if scale = .s0 then 0 else 1 := by
  cases indexed with
  | absent => rfl
  | present known number scaled =>
    have name := register_count known
    have literal := List.count_eq_zero_of_not_mem (number.lacks (show '+' ≠ '-' by decide) (by decide))
    have nonzero : scale ≠ .s0 := by rcases scaled with ⟨-, rfl⟩ | ⟨-, rfl⟩ | ⟨-, rfl⟩ | ⟨-, rfl⟩ <;> simp
    simp [List.count_append, name, literal, nonzero]

private theorem IndexText.star {text : List Char} {index : Reg} {scale : Scale}
    (indexed : IndexText wrapped text index scale) (scaled : scale ≠ .s0) : '*' ∈ text := by
  cases indexed with
  | absent => exact absurd rfl scaled
  | present => simp

theorem IndexText.named {text : List Char} {index : Reg} {scale : Scale} (indexed : IndexText wrapped text index scale)
    (scaled : scale ≠ .s0) : index ≠ .undef := by
  cases indexed with
  | absent => exact absurd rfl scaled
  | present known => exact registerNames_named _ known

theorem DispText.plus {text : List Char} {disp : Disp} (displaced : DispText wrapped text disp) (nonzero : disp ≠ 0) :
    1 ≤ text.count '+' := by
  cases displaced with
  | absent => exact absurd rfl nonzero
  | present number read => simp

theorem ArgText.plus {text : List Char} {place : Memory} (derived : ArgText wrapped text (.memory place))
    (nonzero : place.disp ≠ 0) : (if place.scale = .s0 then 0 else 1) + 1 ≤ text.count '+' := by
  cases derived with
  | mem known indexed displaced =>
    have index := indexed.plus
    have disp := displaced.plus nonzero
    simp only [List.count_cons, List.count_append]
    omega

private theorem ArgText.star {text : List Char} {place : Memory} (derived : ArgText wrapped text (.memory place))
    (scaled : place.scale ≠ .s0) : '*' ∈ text := by
  cases derived with
  | mem known indexed displaced => simp [indexed.star scaled]

end Derivations

private theorem print_memory {place : Memory} {base index : String} (based : Arg.printReg place.base = .ok base)
    (indexed : Arg.printIndex place = .ok index) :
    (Arg.memory place).print = .ok ("[" ++ base ++ index ++ Arg.printDisp place.disp ++ "]") := by
  rw [Arg.print, based, indexed]
  rfl

private theorem print_memory_toList (base index disp : String) : ("[" ++ base ++ index ++ disp ++ "]").toList =
    '[' :: (base.toList ++ (index.toList ++ (disp.toList ++ [']']))) := by
  simp [String.toList_append]

section Memory

private theorem print_one {place : Memory} {front : List Char} (derived : ArgText wrapped front (.memory place))
    (based : place.base.Printed) (indexed : place.index.Printed) (one : place.scale = .s1) :
    ∃ text, (Arg.memory place).print = .ok text ∧ ¬ArgText wrapped text.toList (.memory place) := by
  have scaled : place.scale ≠ .s0 := by simp [one]
  cases derived with
  | mem known shown _ =>
    obtain ⟨base, read, named⟩ := printReg_ok based (registerNames_named _ known)
    obtain ⟨index, written, starless⟩ := printIndex_one one indexed (shown.named scaled)
    refine ⟨_, print_memory read written, ?_⟩
    intro again
    have star := again.star scaled
    rw [print_memory_toList] at star
    simp [register_lacks named, starless, printDisp_star] at star

/-- With a minus sign there is a plus too few for a derivation: its index and its displacement have
one each, and no register or literal has any. -/
private theorem negative_underivable {place : Memory} {base index : String} (named : (base, place.base) ∈ registerNames)
    (indexed : IndexText wrapped index.toList place.index place.scale) (negative : place.disp.toInt < 0) :
    ¬ArgText wrapped ("[" ++ base ++ index ++ Arg.printDisp place.disp ++ "]").toList (.memory place) := by
  intro derived
  have nonzero : place.disp ≠ 0 := disp_ne_zero (by omega)
  have name := register_count named
  have disp := List.count_eq_zero_of_not_mem (printDisp_plus negative)
  have total : ("[" ++ base ++ index ++ Arg.printDisp place.disp ++ "]").toList.count '+' =
      if place.scale = .s0 then 0 else 1 := by
    rw [print_memory_toList]
    simp [name, disp, indexed.plus]
  have plus := derived.plus nonzero
  rw [total] at plus
  omega

private theorem print_scaled_iff {place : Memory} {front : List Char} (derived : ArgText wrapped front (.memory place))
    (based : place.base.Printed) (indexed : place.index.Printed) (some : place.scale ≠ .s1) :
    ∃ text, (Arg.memory place).print = .ok text ∧ (ArgText wrapped text.toList (.memory place) ↔ 0 ≤ place.disp) := by
  cases derived with
  | mem known shown _ =>
    obtain ⟨base, read, named⟩ := printReg_ok based (registerNames_named _ known)
    obtain ⟨index, written, scaled⟩ := printIndex_derives shown indexed some
    refine ⟨_, print_memory read written, ?_⟩
    rw [Int32.le_iff_toInt_le]
    constructor
    · intro again
      apply Int.not_lt.mp
      intro negative
      exact negative_underivable named scaled negative again
    · intro nonnegative
      rw [print_memory_toList]
      exact .mem named scaled (printDisp_derives nonnegative)

end Memory

private theorem roundTrip_iff {arg : Arg} {text : String} (written : arg.print = .ok text) :
    arg.RoundTrip ↔ ArgText wrapped text.toList arg := by
  constructor
  · intro back
    obtain ⟨other, printed, parsed⟩ := back
    cases Except.ok.inj (written.symm.trans printed)
    exact parsedWhole_iff.mp parsed
  · intro derived
    exact ⟨text, written, parsedWhole_iff.mpr derived⟩

/-- A printed operand is read back exactly if it is plain. -/
theorem print_parses_iff {arg : Arg} (returned : Returned arg) (printable : arg.Printable) :
    (∃ text, arg.print = .ok text) ∧ (arg.RoundTrip ↔ arg.Plain) := by
  obtain ⟨front, derived⟩ := returned_iff.mp returned
  cases arg with
  | immediate imm =>
    have again : ArgText wrapped (toString imm.toInt).toList (.immediate imm) :=
      .int (intText_toString imm.toInt) (Int64.ofInt_toInt imm).symm
    exact ⟨⟨_, rfl⟩, iff_of_true ((roundTrip_iff rfl).mpr again) trivial⟩
  | register reg =>
    cases derived with
    | reg known =>
      obtain ⟨name, read, named⟩ := printReg_ok printable (registerNames_named _ known)
      have written : (Arg.register reg).print = .ok name := read
      exact ⟨⟨name, written⟩, iff_of_true ((roundTrip_iff written).mpr (.reg named)) trivial⟩
  | memory place =>
    obtain ⟨based, indexed, -⟩ := printable
    by_cases one : place.scale = .s1
    · obtain ⟨text, written, different⟩ := print_one derived based indexed one
      refine ⟨⟨text, written⟩, iff_of_false ?_ ?_⟩
      · exact fun back => different ((roundTrip_iff written).mp back)
      · exact fun plain => plain.1 one
    · obtain ⟨text, written, same⟩ := print_scaled_iff derived based indexed one
      refine ⟨⟨text, written⟩, ?_⟩
      rw [roundTrip_iff written, same]
      exact ⟨fun nonnegative => ⟨one, nonnegative⟩, fun plain => plain.2⟩
  | undef => cases derived

theorem print_parses_eax : (∃ text, (Arg.memory ⟨.eax, .ecx, .s2, 5, nofun⟩).print = .ok text) ∧
    ((Arg.memory ⟨.eax, .ecx, .s2, 5, nofun⟩).RoundTrip ↔ (Arg.memory ⟨.eax, .ecx, .s2, 5, nofun⟩).Plain) := by
  have eax : ("eax", Reg.eax) ∈ registerNames := by simp [registerNames]
  have ecx : ("ecx", Reg.ecx) ∈ registerNames := by simp [registerNames]
  have derived : ArgText wrapped "[eax + ecx * 2 + 5]".toList (.memory ⟨.eax, .ecx, .s2, 5, nofun⟩) :=
    @ArgText.mem wrapped "eax" (" + ".toList ++ ("ecx".toList ++ (" * ".toList ++ "2".toList)))
      (" + ".toList ++ "5".toList) ⟨.eax, .ecx, .s2, 5, nofun⟩ eax
      (.present ecx (intText_toString 2) (.inr (.inl ⟨rfl, rfl⟩))) (.present (intText_toString 5) rfl)
  have eaxPrinted : Reg.Printed .eax := ⟨nofun, nofun, nofun, nofun⟩
  have ecxPrinted : Reg.Printed .ecx := ⟨nofun, nofun, nofun, nofun⟩
  exact print_parses_iff (returned_iff.mpr ⟨_, derived⟩) ⟨eaxPrinted, ecxPrinted, by decide⟩

/-- The operands of `[eax + ecx * 1]`, `[eax + -5]` and `sp` are not read back. -/
theorem print_not_inverse :
    (Returned (.memory ⟨.eax, .ecx, .s1, 0, nofun⟩) ∧ ¬Arg.RoundTrip (.memory ⟨.eax, .ecx, .s1, 0, nofun⟩)) ∧
      (Returned (.memory ⟨.eax, .undef, .s0, -5, fun _ => rfl⟩) ∧
        ¬Arg.RoundTrip (.memory ⟨.eax, .undef, .s0, -5, fun _ => rfl⟩)) ∧
      (Returned (.register .sp) ∧ ¬Arg.RoundTrip (.register .sp)) := by
  have eax : ("eax", Reg.eax) ∈ registerNames := by simp [registerNames]
  have ecx : ("ecx", Reg.ecx) ∈ registerNames := by simp [registerNames]
  have sp : ("sp", Reg.sp) ∈ registerNames := by simp [registerNames]
  have printed : Reg.Printed .eax ∧ Reg.Printed .ecx ∧ Reg.Printed .undef := by simp [Reg.Printed]
  obtain ⟨eaxPrinted, ecxPrinted, undefPrinted⟩ := printed
  have one : ArgText wrapped "[eax + ecx * 1]".toList (.memory ⟨.eax, .ecx, .s1, 0, nofun⟩) :=
    @ArgText.mem wrapped "eax" (" + ".toList ++ ("ecx".toList ++ (" * ".toList ++ "1".toList))) []
      ⟨.eax, .ecx, .s1, 0, nofun⟩ eax (.present ecx (intText_toString 1) (.inl ⟨rfl, rfl⟩)) .absent
  have negative : ArgText wrapped "[eax + -5]".toList (.memory ⟨.eax, .undef, .s0, -5, fun _ => rfl⟩) :=
    @ArgText.mem wrapped "eax" [] (" + ".toList ++ "-5".toList) ⟨.eax, .undef, .s0, -5, fun _ => rfl⟩ eax .absent
      (.present (intText_toString (-5)) (show (-5 : Disp) = (Int64.ofInt (-5)).toInt32 by decide))
  refine ⟨⟨returned_iff.mpr ⟨_, one⟩, ?_⟩, ⟨returned_iff.mpr ⟨_, negative⟩, ?_⟩, returned_iff.mpr ⟨_, .reg sp⟩, ?_⟩
  · obtain ⟨text, written, different⟩ := print_one one eaxPrinted ecxPrinted rfl
    exact fun back => different ((roundTrip_iff written).mp back)
  · obtain ⟨text, written, same⟩ := print_scaled_iff negative eaxPrinted undefPrinted nofun
    intro back
    have nonnegative := same.mp ((roundTrip_iff written).mp back)
    exact absurd nonnegative (by decide)
  · rintro ⟨text, written, -⟩
    cases written

end Cplastane.Assembly
