import SkyOS.RamDisk.SkyRamDisk

/-!
# What `Load` reads (`FileSystem/SkyRamDisk.cpp:31`)

The loop looks at the end of the module once a round, before the type byte. Behind it come nine more bytes and two
lengths, each of which the image names itself, and the position that they are added to is a `uint32_t`.

| here | there |
| --- | --- |
| `headerReads` | the ranges of addresses that a round reads, in their order |
| `Tests` | the positions at which the loop asks whether it goes on (:50) |
| `Created` | the entries that rounds make |
-/

namespace RamDisk

open Machine Bytes List

/-! ## The source -/

/-- What one round reads (:63 to :95): addresses, and how many bytes from there on. -/
def headerReads (mem : Memory) (ramdisk ramdiskPosition : Nat) : List (Nat × Nat) :=
  let idPos := u32 (ramdiskPosition + 1)
  let parentidPos := u32 (idPos + 4)
  let namelengthPos := u32 (parentidPos + 4)
  let namePos := u32 (namelengthPos + 4)
  let namelength := read32 mem (u32 (ramdisk + namelengthPos))
  [(u32 (ramdisk + ramdiskPosition), 1), (u32 (ramdisk + idPos), 4), (u32 (ramdisk + parentidPos), 4),
    (u32 (ramdisk + namelengthPos), 4), (u32 (ramdisk + namePos), namelength)] ++
    if mem (u32 (ramdisk + ramdiskPosition)) = G_RAMDISK_ENTRY_TYPE_FILE then
      [(u32 (ramdisk + u32 (namePos + namelength)), 4)]
    else []

namespace BootModule

variable (module : BootModule)

/-- The test of the loop (:50). -/
def Goes (pos : Nat) : Prop := u32 (module.moduleStart + pos) < module.moduleEnd
  deriving Decidable

def Inside (range : Nat × Nat) : Prop :=
  ∀ i < range.2, module.moduleStart ≤ u32 (range.1 + i) ∧ u32 (range.1 + i) < module.moduleEnd

def HasData (e : RamDiskEntry) : Prop :=
  ∀ i < e.datalength, module.moduleStart ≤ e.data + i ∧ e.data + i < module.moduleEnd

end BootModule

section

variable (mem : Memory) (module : BootModule)

inductive Tests : Nat → Prop where
  | start : Tests 0
  | next {pos : Nat} (h : Tests pos) (hgo : module.Goes pos) : Tests (loadHeader mem module.moduleStart pos).2

def Created (e : RamDiskEntry) : Prop :=
  ∃ pos, Tests mem module pos ∧ module.Goes pos ∧ e = (loadHeader mem module.moduleStart pos).1

/-- `Load` comes to an end, reads nothing outside the module and makes no file entry with data outside it. -/
structure LoadBounded : Prop where
  ends : ∃ rounds, (load mem module rounds).isSome
  reads : ∀ pos, Tests mem module pos → module.Goes pos →
    ∀ range ∈ headerReads mem module.moduleStart pos, module.Inside range
  data : ∀ e, Created mem module e → e.type = G_RAMDISK_ENTRY_TYPE_FILE → module.HasData e

end

variable {mem : Memory} {pos start stop : Nat}

variable {module : BootModule}

/-! ## Records and ranges -/

theorem fits_recordAt (mem : Memory) (a : Nat) : (recordAt mem a).Fits where
  id := read32_lt mem (a + 1)
  parentid := read32_lt mem (a + 5)
  name := by
    rw [recordAt, length_slice]
    exact read32_lt mem (a + 9)
  content := by
    unfold recordAt contentAt
    split
    · rw [length_slice]
      exact read32_lt mem _
    · exact Nat.two_pow_pos 32
  folder h := if_neg h

theorem holds_slice (mem : Memory) (a n : Nat) : Holds mem a (slice mem a n) := by
  rw [Holds, length_slice]

theorem holds_recordAt (mem : Memory) (a : Nat) : Holds mem a (recordAt mem a).encode := by
  have hlength : (slice mem (a + 13) (read32 mem (a + 9))).length = read32 mem (a + 9) := length_slice ..
  have hheader : Holds mem a (recordAt mem a).header := by
    simp only [Record.header, recordAt, holds_append, hlength, length_leBytes, length_singleton]
    exact ⟨rfl, holds_leBytes_readLE mem (a + 1) 4, holds_leBytes_readLE mem (a + 5) 4,
      holds_leBytes_readLE mem (a + 9) 4, holds_slice mem (a + 13) _⟩
  rw [Record.encode, holds_append, Record.length_header]
  refine ⟨hheader, ?_⟩
  split
  · rename_i hfile
    have hname : (recordAt mem a).name.length = read32 mem (a + 9) := hlength
    have hcontent : (recordAt mem a).content =
        slice mem (a + 17 + read32 mem (a + 9)) (read32 mem (a + 13 + read32 mem (a + 9))) := if_pos hfile
    have haddr : a + (13 + read32 mem (a + 9)) = a + 13 + read32 mem (a + 9) := by omega
    have hdata : a + 13 + read32 mem (a + 9) + 4 = a + 17 + read32 mem (a + 9) := by omega
    rw [hname, hcontent, length_slice, holds_append, length_leBytes, haddr, hdata]
    exact ⟨holds_leBytes_readLE mem _ 4, holds_slice mem _ _⟩
  · rfl

/-- A range that begins in the module or at its end stays in it if it ends there: the address at the end is not in it,
and a range that wraps comes past it. -/
theorem inside_iff {a n : Nat} (hstop : stop < 2 ^ 32) (hstart : start ≤ a) (ha : a ≤ stop) :
    BootModule.Inside ⟨start, stop⟩ (a, n) ↔ a + n ≤ stop := by
  unfold BootModule.Inside
  dsimp only
  constructor
  · intro h
    by_contra hout
    obtain ⟨-, hlt⟩ := h (stop - a) (by omega)
    rw [Nat.add_sub_cancel' ha, u32_of_lt hstop] at hlt
    omega
  · intro h i hi
    rw [u32_of_lt (by omega)]
    omega

/-- The ranges of a round that begins in the module follow one another, so that the last one decides. -/
theorem headerReads_inside_iff (hstop : stop < 2 ^ 32) (hgo : start + pos < stop) :
    (∀ range ∈ headerReads mem start pos, BootModule.Inside ⟨start, stop⟩ range) ↔
      start + pos + 13 + read32 mem (start + pos + 9) +
        (if mem (start + pos) = G_RAMDISK_ENTRY_TYPE_FILE then 4 else 0) ≤ stop := by
  have htype : u32 (start + pos) = start + pos := u32_of_lt (by omega)
  have hid : u32 (start + u32 (pos + 1)) = start + pos + 1 := by
    unfold u32
    omega
  unfold headerReads
  simp only [forall_mem_append, forall_mem_cons, htype, hid]
  rw [inside_iff hstop (Nat.le_add_right start pos) (Nat.le_of_lt hgo), inside_iff hstop (by omega) (by omega)]
  by_cases hfields : start + pos + 13 ≤ stop
  · -- the name begins in the module, or at its end
    have hparentid : u32 (start + u32 (u32 (pos + 1) + 4)) = start + pos + 5 := by
      unfold u32
      omega
    have hnamelength : u32 (start + u32 (u32 (u32 (pos + 1) + 4) + 4)) = start + pos + 9 := by
      unfold u32
      omega
    have hnamePos : u32 (u32 (u32 (u32 (pos + 1) + 4) + 4) + 4) = pos + 13 := by
      unfold u32
      omega
    have hname : u32 (start + (pos + 13)) = start + pos + 13 := u32_of_lt (by omega)
    simp only [hparentid, hnamelength, hnamePos, hname]
    rw [inside_iff hstop (by omega) (by omega), inside_iff hstop (by omega) (by omega),
      inside_iff hstop (by omega) (by omega)]
    by_cases hend : start + pos + 13 + read32 mem (start + pos + 9) ≤ stop
    · have hdata : u32 (start + u32 (pos + 13 + read32 mem (start + pos + 9))) =
          start + pos + 13 + read32 mem (start + pos + 9) := by
        unfold u32
        omega
      split
      · simp only [forall_mem_cons, hdata, not_mem_nil, false_implies, implies_true, and_true]
        rw [inside_iff hstop (by omega) hend]
        omega
      · simp only [not_mem_nil, false_implies, implies_true, and_true]
        omega
    · constructor
      · intro h
        exact absurd h.1.2.2.2.2.1 hend
      · intro h
        exact absurd (Nat.le_trans (Nat.le_add_right _ _) h) hend
  · constructor
    · rintro ⟨⟨-, hid', hparentid', hnamelength', -⟩, -⟩
      have hparentid : u32 (start + u32 (u32 (pos + 1) + 4)) = start + pos + 5 := by
        unfold u32
        omega
      rw [hparentid, inside_iff hstop (by omega) (by omega)] at hparentid'
      have hnamelength : u32 (start + u32 (u32 (u32 (pos + 1) + 4) + 4)) = start + pos + 9 := by
        unfold u32
        omega
      rw [hnamelength, inside_iff hstop (by omega) (by omega)] at hnamelength'
      omega
    · intro h
      omega

theorem loadHeader_file (mem : Memory) (start pos : Nat)
    (hend : start + pos + 13 + read32 mem (start + pos + 9) + 4 < 2 ^ 32)
    (hfile : mem (start + pos) = G_RAMDISK_ENTRY_TYPE_FILE) :
    (loadHeader mem start pos).1.data = start + pos + 17 + read32 mem (start + pos + 9) ∧
      (loadHeader mem start pos).1.datalength = read32 mem (start + pos + 13 + read32 mem (start + pos + 9)) := by
  have htype : u32 (start + pos) = start + pos := u32_of_lt (by omega)
  have hnamelength : u32 (start + u32 (u32 (u32 (pos + 1) + 4) + 4)) = start + pos + 9 := by
    unfold u32
    omega
  have hdatalength : u32 (start + u32 (u32 (u32 (u32 (u32 (pos + 1) + 4) + 4) + 4) + read32 mem (start + pos + 9))) =
      start + pos + 13 + read32 mem (start + pos + 9) := by
    unfold u32
    omega
  have hdata : u32 (start + u32 (u32 (u32 (u32 (u32 (u32 (pos + 1) + 4) + 4) + 4) + read32 mem (start + pos + 9)) + 4)) =
      start + pos + 17 + read32 mem (start + pos + 9) := by
    unfold u32
    omega
  simp only [loadHeader, htype, hnamelength, if_pos hfile, hdatalength, hdata, and_self]

theorem loadHeader_type (h : start + pos < 2 ^ 32) :
    (loadHeader mem start pos).1.type = mem (start + pos) := by
  unfold loadHeader
  dsimp only
  rw [u32_of_lt h]
  split <;> rfl

/-- **One round** keeps to the module exactly if its record ends in it. -/
theorem round_bounded_iff (hstop : stop < 2 ^ 32) (hgo : start + pos < stop) :
    ((∀ range ∈ headerReads mem start pos, BootModule.Inside ⟨start, stop⟩ range) ∧
      ((loadHeader mem start pos).1.type = G_RAMDISK_ENTRY_TYPE_FILE →
        BootModule.HasData ⟨start, stop⟩ (loadHeader mem start pos).1)) ↔
      start + pos + (recordAt mem (start + pos)).encode.length ≤ stop := by
  rw [headerReads_inside_iff hstop hgo, loadHeader_type (by omega), length_recordAt]
  by_cases hfile : mem (start + pos) = G_RAMDISK_ENTRY_TYPE_FILE
  · simp only [hfile, if_true, forall_const]
    constructor
    · rintro ⟨hreads, hdata⟩
      obtain ⟨hstart, hlength⟩ := loadHeader_file mem start pos (by omega) hfile
      unfold BootModule.HasData at hdata
      rw [hstart, hlength] at hdata
      by_contra hout
      obtain ⟨-, hlast⟩ := hdata (stop - (start + pos + 17 + read32 mem (start + pos + 9))) (by omega)
      dsimp only at hlast
      omega
    · intro hend
      obtain ⟨hstart, hlength⟩ := loadHeader_file mem start pos (by omega) hfile
      unfold BootModule.HasData
      rw [hstart, hlength]
      dsimp only
      exact ⟨by omega, fun i hi => by omega⟩
  · simp only [hfile, if_false, false_implies, and_true]
    omega

/-! ## All rounds -/

variable {mem : Memory}

theorem goes_iff (h : start + pos < 2 ^ 32) :
    BootModule.Goes ⟨start, stop⟩ pos ↔ start + pos < stop := by
  rw [BootModule.Goes, u32_of_lt h]

theorem records_of_bounded (hstop : stop < 2 ^ 32)
    (hround : ∀ pos, Tests mem ⟨start, stop⟩ pos → BootModule.Goes ⟨start, stop⟩ pos → start + pos < stop →
      start + pos + (recordAt mem (start + pos)).encode.length ≤ stop) (rounds : Nat) :
    ∀ {disk : SkyRamDisk} {pos : Nat}, start + pos ≤ stop → Tests mem ⟨start, stop⟩ pos →
      (loadLoop mem ⟨start, stop⟩ rounds disk pos).isSome →
      ∃ records : List Record,
        (∀ r ∈ records, r.Fits) ∧ slice mem (start + pos) (stop - (start + pos)) = encode records := by
  have hdone : ∀ {pos}, start + pos ≤ stop → ¬ u32 (start + pos) < stop →
      ∃ records : List Record, (∀ r ∈ records, r.Fits) ∧
        slice mem (start + pos) (stop - (start + pos)) = encode records := by
    intro pos hpos hstays
    rw [u32_of_lt (by omega)] at hstays
    have hnone : stop - (start + pos) = 0 := by omega
    exact ⟨[], by simp, by rw [hnone]; rfl⟩
  induction rounds with
  | zero =>
    intro disk pos hpos htests hends
    rw [loadLoop] at hends
    split at hends
    · cases hends
    · rename_i hstays
      exact hdone hpos hstays
  | succ rounds ih =>
    intro disk pos hpos htests hends
    rw [loadLoop] at hends
    split at hends
    · rename_i hgo
      have hlt : start + pos < stop := (goes_iff (by omega)).1 hgo
      have hend := hround pos htests hgo hlt
      have hnext := (loadHeader_recordAt mem start pos (Nat.lt_of_le_of_lt hend hstop)).2
      have htests' := htests.next hgo
      dsimp only at hends htests'
      rw [hnext] at hends htests'
      obtain ⟨records, hfits, hrest⟩ := ih (by omega) htests' hends
      have hsplit : stop - (start + pos) = (recordAt mem (start + pos)).encode.length +
          (stop - (start + (pos + (recordAt mem (start + pos)).encode.length))) := by omega
      have hhead : slice mem (start + pos) (recordAt mem (start + pos)).encode.length =
          (recordAt mem (start + pos)).encode := holds_recordAt mem _
      refine ⟨recordAt mem (start + pos) :: records, forall_mem_cons.2 ⟨fits_recordAt mem _, hfits⟩, ?_⟩
      rw [hsplit, slice_add, hhead, Nat.add_assoc start, hrest]
      rfl
    · rename_i hstays
      exact hdone hpos hstays

/-- In an image every round begins where a record does. -/
theorem position_of_tests {records : List Record} (hfits : ∀ r ∈ records, r.Fits)
    (hmem : Holds mem start (encode records)) (hend : start + (encode records).length < 2 ^ 32)
    (h : Tests mem ⟨start, start + (encode records).length⟩ pos) :
    ∃ before after, records = before ++ after ∧ pos = (encode before).length := by
  induction h with
  | start => exact ⟨[], records, rfl, rfl⟩
  | next h hgo ih =>
    obtain ⟨before, after, rfl, rfl⟩ := ih
    have happend : encode (before ++ after) = encode before ++ encode after := flatMap_append
    rw [happend] at hmem hend hgo
    rw [length_append] at hend hgo
    rw [goes_iff (by omega)] at hgo
    cases after with
    | nil => simp [encode] at hgo
    | cons r after =>
      have hcons : encode (r :: after) = r.encode ++ encode after := rfl
      rw [hcons] at hmem hend
      rw [length_append] at hend
      have hhead := (holds_append.1 (holds_append.1 hmem).2).1
      refine ⟨before ++ [r], after, by simp, ?_⟩
      rw [(loadHeader_spec (hfits r (by simp)) hhead (by omega)).2]
      simp [encode]

/-- **Bounds of `Load`.** It comes to an end, reads nothing outside the module and makes no file entry with data
outside it exactly if the module is a row of whole records. -/
theorem load_bounded_iff {start : Nat} {bytes : List UInt8} (hmem : Holds mem start bytes)
    (hend : start + bytes.length < 2 ^ 32) :
    LoadBounded mem ⟨start, start + bytes.length⟩ ↔
      ∃ records : List Record, (∀ r ∈ records, r.Fits) ∧ bytes = encode records := by
  constructor
  · intro h
    obtain ⟨rounds, hends⟩ := h.ends
    obtain ⟨records, hfits, hslice⟩ := records_of_bounded hend
      (fun pos htests hgo hlt => (round_bounded_iff hend hlt).1
        ⟨h.reads pos htests hgo, h.data _ ⟨pos, htests, hgo, rfl⟩⟩)
      rounds (Nat.le_add_right start bytes.length) .start hends
    refine ⟨records, hfits, ?_⟩
    rw [← hslice, Nat.add_zero, Nat.add_sub_cancel_left]
    exact hmem.symm
  · rintro ⟨records, hfits, rfl⟩
    have hround : ∀ pos, Tests mem ⟨start, start + (encode records).length⟩ pos →
        BootModule.Goes ⟨start, start + (encode records).length⟩ pos →
        (∀ range ∈ headerReads mem start pos, BootModule.Inside ⟨start, start + (encode records).length⟩ range) ∧
          ((loadHeader mem start pos).1.type = G_RAMDISK_ENTRY_TYPE_FILE →
            BootModule.HasData ⟨start, start + (encode records).length⟩ (loadHeader mem start pos).1) := by
      intro pos htests hgo
      obtain ⟨before, after, rfl, rfl⟩ := position_of_tests hfits hmem hend htests
      have happend : encode (before ++ after) = encode before ++ encode after := List.flatMap_append
      have hlength : (encode (before ++ after)).length = (encode before).length + (encode after).length := by
        rw [happend, List.length_append]
      have hlt := (goes_iff (by omega)).1 hgo
      refine (round_bounded_iff hend hlt).2 ?_
      cases after with
      | nil =>
        have hnil : (encode []).length = 0 := rfl
        omega
      | cons r after =>
        rw [happend] at hmem
        have hhead : Holds mem (start + (encode before).length) r.encode :=
          (holds_append.1 (holds_append.1 hmem).2).1
        have hcons : (encode (r :: after)).length = r.encode.length + (encode after).length := List.length_append
        rw [recordAt_of_holds (hfits r (by simp)) hhead]
        omega
    obtain ⟨disk, hload, -, -⟩ := load_encode hfits hmem hend (Nat.le_refl records.length)
    refine ⟨⟨records.length, by rw [hload]; rfl⟩, fun pos htests hgo => (hround pos htests hgo).1, ?_⟩
    rintro e ⟨pos, htests, hgo, rfl⟩
    exact (hround pos htests hgo).2

/-- An image of a folder and a file in it. -/
theorem load_bounded_iff_folder : LoadBounded
    (ofList 4096 (encode [⟨0, 1, 0, [97], []⟩, ⟨1, 2, 1, [98], [1, 2, 3]⟩]))
    ⟨4096, 4096 + (encode [⟨0, 1, 0, [97], []⟩, ⟨1, 2, 1, [98], [1, 2, 3]⟩]).length⟩ := by
  refine (load_bounded_iff (holds_ofList 4096 _) (by decide)).2 ⟨_, ?_, rfl⟩
  simp only [List.forall_mem_cons, List.not_mem_nil, false_implies, implies_true, and_true]
  exact ⟨⟨by decide, by decide, by decide, by decide, fun _ => rfl⟩,
    ⟨by decide, by decide, by decide, by decide, fun h => absurd rfl h⟩⟩

/-- A module of one byte: the id is read behind it. -/
theorem load_reads_behind : ¬ ∀ (mem : Memory) (start : Nat) (bytes : List UInt8), Holds mem start bytes →
    start + bytes.length < 2 ^ 32 → LoadBounded mem ⟨start, start + bytes.length⟩ := by
  intro h
  have hreads := (h (ofList 4096 [1]) 4096 [1] (holds_ofList 4096 [1]) (by decide)).reads 0 .start (by decide) (4097, 4)
    (by decide)
  exact absurd (hreads 0 (by decide)).2 (by decide)

end RamDisk
