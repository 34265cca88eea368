import Cplastane.Jit

/-! The trap behind jitted code. The mapping is made for the code alone, while the trap
is written and released with it, so both stay inside only if the last page has room. -/

namespace Cplastane.Jit
open Pages

/-- What is assumed of the kernel: both calls round their size up to whole pages, and nothing else
is mapped or unmapped by them. -/
structure Kernel.Paged (kernel : Kernel) (page : Nat) : Prop where
  maps : ∀ place size, 0 < size → kernel.mmapPages place size = run page place (size.toNat ⌈/⌉ page)
  unmaps : ∀ place size, kernel.munmapPages place size = run page place (size.toNat ⌈/⌉ page)

def mappedPages (kernel : Kernel) (effects : List Effect) : Set Nat :=
  {first | ∃ place size, .mapped place size ∈ effects ∧ first ∈ kernel.mmapPages place size}

def unmappedPages (kernel : Kernel) (effects : List Effect) : Set Nat :=
  {first | ∃ place size, .unmapped place size ∈ effects ∧ first ∈ kernel.munmapPages place size}

def trapped (place : Nat) (mc : Nat → u8) (len : Nat) : List (Nat × u8) :=
  (List.range len).map (fun i => (place + i, mc i)) ++ [(place + len, 0x0f), (place + len + 1, 0x0b)]

def writes (effects : List Effect) : List (Nat × u8) :=
  effects.filterMap fun
    | .written address byte => some (address, byte)
    | _ => none

/-- What is expected of a run: it writes the code with its trap into the pages it has mapped, and
releases these pages and no others. -/
structure TrapInside (kernel : Kernel) (page : Nat) (mc : Nat → u8) (len : SizeT) (effects : List Effect) : Prop where
  written : ∃ place, writes effects = trapped place mc len.toNat
  inside : ∀ access ∈ writes effects, Covers page (mappedPages kernel effects) access.1
  released : unmappedPages kernel effects = mappedPages kernel effects

def trace (place : Nat) (mc : Nat → u8) (len : SizeT) : List Effect :=
  .mapped place len :: ((List.range len.toNat).map (fun i => .written (place + i) (mc i)) ++
    [.written (place + (len + 2 - 2).toNat) 0x0f, .written (place + (len + 2 - 1).toNat) 0x0b, .called place,
      .unmapped place (len + 2)])

section Actions

variable {α β : Type} {effects : List Effect}

theorem onto_bind (first : Action α) (next : α → Action β) :
    (first >>= next).onto effects =
      match first.onto effects with
      | (.ok value, later) => (next value).onto later
      | (.error error, later) => (.error error, later) := by
  unfold Action.onto
  rw [ExceptT.run_bind, StateT.run_bind]
  rcases first.run.run effects with ⟨_ | _, later⟩ <;> rfl

theorem onto_record (effect : Effect) : (record effect).onto effects = (.ok (), effects ++ [effect]) := rfl

theorem onto_pure (value : α) : (pure value : Action α).onto effects = (.ok value, effects) := rfl

private theorem onto_bind_ok {first : Action α} {next : α → Action β} {value : β} {last : List Effect} :
    (first >>= next).onto effects = (.ok value, last) ↔
      ∃ middle later, first.onto effects = (.ok middle, later) ∧ (next middle).onto later = (.ok value, last) := by
  rw [onto_bind]
  rcases first.onto effects with ⟨_ | middle, later⟩ <;> simp

theorem memcpy_onto (dest : Nat) (source : Nat → u8) (n : SizeT) :
    (memcpy dest source n).onto effects =
      (.ok (), effects ++ (List.range n.toNat).map fun i => .written (dest + i) (source i)) := by
  unfold memcpy
  induction List.range n.toNat generalizing effects with
  | nil => simp [onto_pure]
  | cons i offsets ih =>
    change (record (.written (dest + i) (source i)) >>= fun _ => offsets.forM _).onto effects = _
    rw [onto_bind, onto_record]
    simp only [ih, List.map_cons, List.append_assoc, List.singleton_append]

private theorem allocExecutable_onto {kernel : Kernel} {size : SizeT} {mem : Nat} {later : List Effect}
    (allocated : (allocExecutable kernel size).onto effects = (.ok mem, later)) : later = effects ++ [.mapped mem size] := by
  unfold allocExecutable at allocated
  split at allocated
  · cases allocated
  · cases allocated
    rfl

private theorem dealloc_onto {kernel : Kernel} {size : SizeT} {mem : Nat} {later : List Effect}
    (freed : (dealloc kernel mem size).onto effects = (.ok (), later)) : later = effects ++ [.unmapped mem size] := by
  unfold dealloc at freed
  split at freed
  · cases freed
    rfl
  · cases freed

end Actions

section Runs

variable {kernel : Kernel} {func : Nat → i64} {mc : Nat → u8} {len : SizeT}

theorem evalMc_returned {value : i64} {effects : List Effect}
    (returned : (evalMc kernel func mc len).onto [] = (.ok value, effects)) : ∃ place, effects = trace place mc len := by
  obtain ⟨place, _, allocated, returned⟩ := onto_bind_ok.mp returned
  rw [allocExecutable_onto allocated] at returned
  refine ⟨place, ?_⟩
  dsimp only at returned
  split at returned
  · cases returned
  · simp only [onto_bind, memcpy_onto, onto_record, flushInstructionCache, onto_pure] at returned
    split at returned
    next freed =>
      rw [dealloc_onto freed] at returned
      cases returned
      simp [trace]
    · cases returned

theorem evalMc_returns {place : Nat} (allocated : kernel.mmap len = some place) (nonnull : place ≠ 0)
    (freed : kernel.munmap place (len + 2) = true) :
    (evalMc kernel func mc len).onto [] = (.ok (func place), trace place mc len) := by
  simp only [evalMc, allocExecutable, allocated, nonnull, dealloc, freed, if_true, if_false, onto_bind, onto_record,
    onto_pure, memcpy_onto, flushInstructionCache]
  simp [trace]

theorem writes_trace (place : Nat) : writes (trace place mc len) =
    (List.range len.toNat).map (fun i => (place + i, mc i)) ++
      [(place + len.toNat, 0x0f), (place + (len + 1).toNat, 0x0b)] := by
  have first : len + 2 - 2 = len := UInt64.add_sub_cancel len 2
  have second : len + 2 - 1 = len + 1 := by
    rw [show (2 : SizeT) = 1 + 1 from rfl, ← UInt64.add_assoc, UInt64.add_sub_cancel]
  simp [writes, trace, first, second, List.filterMap_append, List.filterMap_map]

private theorem mappedPages_trace (place : Nat) :
    mappedPages kernel (trace place mc len) = kernel.mmapPages place len := by
  ext first
  simp [mappedPages, trace]

private theorem unmappedPages_trace (place : Nat) :
    unmappedPages kernel (trace place mc len) = kernel.munmapPages place (len + 2) := by
  ext first
  simp [unmappedPages, trace]

theorem bufLen_toNat (short : len.toNat + 2 < 2 ^ 64) :
    (len + 1).toNat = len.toNat + 1 ∧ (len + 2).toNat = len.toNat + 2 := by
  constructor
  · rw [UInt64.toNat_add]
    exact Nat.mod_eq_of_lt (show len.toNat + 1 < 2 ^ 64 by omega)
  · rw [UInt64.toNat_add]
    exact Nat.mod_eq_of_lt short

private theorem trap_room {page : Nat} (large : 2 ≤ page) :
    (len.toNat + 2) ⌈/⌉ page = len.toNat ⌈/⌉ page ↔ len.toNat % page ≠ 0 ∧ len.toNat % page ≠ page - 1 := by
  have positive : 0 < page := by omega
  have rest := Nat.mod_lt len.toNat positive
  rw [ceilDiv_add_eq_iff positive, fits_iff positive (by decide)]
  omega

/-- The buffer does not wrap around if the trap is behind the code and the mapping is
released. -/
private theorem bufLen_short {place other page : Nat} (large : 2 ≤ page) (nonempty : 0 < len)
    (behind : writes (trace place mc len) = trapped other mc len.toNat)
    (released : (len + 2).toNat ⌈/⌉ page = len.toNat ⌈/⌉ page) : len.toNat + 2 < 2 ^ 64 := by
  have bound := len.toNat_lt
  have some : 0 < len.toNat := nonempty
  rw [writes_trace] at behind
  obtain ⟨-, trap⟩ := List.append_inj behind (by simp)
  simp only [List.cons.injEq, Prod.mk.injEq, and_true] at trap
  obtain ⟨first, second⟩ := trap
  by_contra long
  have wrapped : (len + 2).toNat = 0 := by
    rw [UInt64.toNat_add] at second ⊢
    change (len.toNat + 2) % 2 ^ 64 = 0
    change place + (len.toNat + 1) % 2 ^ 64 = _ at second
    omega
  rw [wrapped, zero_ceilDiv] at released
  have needed := (ceilDiv_le_iff_le_mul (show 0 < page by omega)).mp (Nat.le_of_eq released.symm)
  omega

/-- If the trap needs no more pages than the code, it is written into those of the code, and they
are what is released. -/
theorem trap_inside_of_room {page : Nat} (paged : kernel.Paged page) (positive : 0 < page) (nonempty : 0 < len)
    (short : len.toNat + 2 < 2 ^ 64) (same : (len.toNat + 2) ⌈/⌉ page = len.toNat ⌈/⌉ page) (place : Nat) :
    TrapInside kernel page mc len (trace place mc len) := by
  obtain ⟨next, last⟩ := bufLen_toNat short
  have fits := (ceilDiv_add_eq_iff positive len.toNat 2).mp same
  refine ⟨⟨place, ?_⟩, ?_, ?_⟩
  · rw [writes_trace, next]
    rfl
  · intro access member
    rw [mappedPages_trace, paged.maps _ _ nonempty]
    rw [writes_trace, next] at member
    simp only [List.mem_append, List.mem_map, List.mem_range, List.mem_cons, List.not_mem_nil, or_false] at member
    rcases member with ⟨i, inside, rfl⟩ | rfl | rfl
    · exact (covers_run_iff positive _ _).mpr (by omega)
    · exact (covers_run_iff positive _ _).mpr (by omega)
    · exact (covers_run_iff positive _ _).mpr (by omega)
  · rw [unmappedPages_trace, mappedPages_trace, paged.unmaps, paged.maps _ _ nonempty, last, same]

/-- The trap stays inside the mapping exactly for the lengths that leave room for it in
their last page, and a return is safe in no other case. -/
theorem trap_inside_iff {page : Nat} (paged : kernel.Paged page) (large : 2 ≤ page) (nonempty : 0 < len) {value : i64}
    {effects : List Effect} (returned : (evalMc kernel func mc len).onto [] = (.ok value, effects)) :
    TrapInside kernel page mc len effects ↔
      len.toNat + 2 < 2 ^ 64 ∧ len.toNat % page ≠ 0 ∧ len.toNat % page ≠ page - 1 := by
  have positive : 0 < page := by omega
  obtain ⟨place, rfl⟩ := evalMc_returned returned
  rw [← trap_room large]
  constructor
  · intro safe
    obtain ⟨other, behind⟩ := safe.written
    have same := safe.released
    rw [unmappedPages_trace, mappedPages_trace, paged.unmaps, paged.maps _ _ nonempty, run_eq_iff positive] at same
    have short := bufLen_short large nonempty behind same
    rw [(bufLen_toNat short).2] at same
    exact ⟨short, same⟩
  · intro room
    exact trap_inside_of_room paged positive nonempty room.1 room.2 place

end Runs

/-- A kernel with this page size, which maps everything at one place. -/
def paging (page place : Nat) : Kernel where
  mmap _ := some place
  mmapPages place size := run page place (size.toNat ⌈/⌉ page)
  munmap _ _ := true
  munmapPages place size := run page place (size.toNat ⌈/⌉ page)

theorem paging_paged (page place : Nat) : (paging page place).Paged page := ⟨fun _ _ _ => rfl, fun _ _ => rfl⟩

theorem paging_returns (page : Nat) {place : Nat} (nonnull : place ≠ 0) (func : Nat → i64) (mc : Nat → u8)
    (len : SizeT) :
    (evalMc (paging page place) func mc len).onto [] = (.ok (func place), trace place mc len) :=
  evalMc_returns rfl nonnull rfl

theorem trap_inside_short :
    TrapInside (paging 4096 65536) 4096 (fun _ => 0xc3) 5 (trace 65536 (fun _ => 0xc3) 5) := by
  have returned := paging_returns 4096 (show 65536 ≠ 0 by decide) (fun _ => 7) (fun _ => 0xc3) 5
  exact (trap_inside_iff (paging_paged _ _) (by decide) (by decide) returned).mpr (by decide)

/-- Code that fills its page: the trap is written behind the mapping, and one more page is
released. -/
theorem trap_outside_page : ∃ value effects,
    (evalMc (paging 4096 65536) (fun _ => 7) (fun _ => 0xc3) 4096).onto [] = (.ok value, effects) ∧
      (65536 + 4096, 0x0f) ∈ writes effects ∧
      ¬Covers 4096 (mappedPages (paging 4096 65536) effects) (65536 + 4096) ∧
      ¬TrapInside (paging 4096 65536) 4096 (fun _ => 0xc3) 4096 effects := by
  have outside : ¬Covers 4096 (run 4096 65536 1) (65536 + 4096) := by
    rw [covers_run_iff (by decide)]
    decide
  have mapped : mappedPages (paging 4096 65536) (trace 65536 (fun _ => 0xc3) 4096) = run 4096 65536 1 :=
    mappedPages_trace 65536
  have trap : (65536 + 4096, 0x0f) ∈ writes (trace 65536 (fun _ => 0xc3) 4096) := by
    rw [writes_trace]
    exact List.mem_append_right _ List.mem_cons_self
  refine ⟨_, _, paging_returns 4096 (by decide) _ _ _, trap, mapped ▸ outside, fun safe => ?_⟩
  exact outside (mapped ▸ safe.inside _ trap)

end Cplastane.Jit
