import Mathlib.Tactic.Common
import SkyOS.Lib.Bytes
import SkyOS.Lib.Machine

/-!
# Loading a DLL (`SkyCore/LoadDLL.cpp`)

`LoadDLL` reads the headers, allocates a block from the lowest to the highest address of the sections, and copies the
headers and the sections into it. What is read comes from a reader that checks its range (`LoadDLLFromMemoryCallback`).
Sums are of 32 bits, here and in that check.

| here | there |
| --- | --- |
| `Source` | `LOAD_DLL_FROM_MEMORY_STRUCT`, and whatever is in memory around it |
| `Loading` | a function that returns or fails, with the accesses to memory it makes |
| `Access.write` | a write from an address on, with the block that it should be in |

The headers themselves go to variables of `LoadDLL` and a table of their size. `VirtualAlloc` may return anything, 0
being a failure.
-/

namespace Modules

open Machine Bytes List

/-- The bytes from `dll_data` on, all around the address space, and how many of them are the DLL's. -/
structure Source where
  bytes : Nat → UInt8
  dll_size : Nat
  isSize : dll_size < 2 ^ 32

structure Block where
  image : Nat
  size : Nat
  deriving DecidableEq

inductive Access where
  | read (position size : Nat)
  | write (address size : Nat) (block : Block)
  deriving DecidableEq

/-- What a function does to memory, and what it returns unless it fails. -/
structure Loading (α : Type) where
  accesses : List Access
  result : Option α

namespace Loading

variable {α β : Type}

def pure (a : α) : Loading α := ⟨[], some a⟩

def fail : Loading α := ⟨[], none⟩

def andThen (r : Loading α) (f : α → Loading β) : Loading β :=
  match r.result with
  | some a => ⟨r.accesses ++ (f a).accesses, (f a).result⟩
  | none => ⟨r.accesses, none⟩

end Loading

/-! ## The reader -/

/-- The bytes a buffer holds after they have been read from `position` on. -/
def Source.fetch (src : Source) (position : Nat) : Memory := fun k => src.bytes (u32 (position + k))

/-- `LoadDLLFromMemoryCallback` (:741), with the block and the address that is written. -/
def LoadDLLFromMemoryCallback (src : Source) (into : Option (Block × Nat)) (position size : Nat) : Loading Memory :=
  if size = 0 then .pure (src.fetch position)
  else if u32 (position + size) > src.dll_size then .fail
  else ⟨.read position size :: (into.map fun (block, buff) => .write buff size block).toList, some (src.fetch position)⟩

/-! ## The headers -/

def field16 (m : Memory) (offset : Nat) : UInt16 := UInt16.ofNat (readLE m offset 2)

def field32 (m : Memory) (offset : Nat) : UInt32 := UInt32.ofNat (readLE m offset 4)

def IMAGE_DOS_SIGNATURE : UInt16 := 0x5A4D

def IMAGE_NT_SIGNATURE : UInt32 := 0x00004550

def IMAGE_NT_OPTIONAL_HDR_MAGIC : UInt16 := 0x10B

def IMAGE_FILE_RELOCS_STRIPPED : UInt16 := 0x0001

def ELoadDLLFlag_NoHeaders : UInt32 := 0x02

/-- `sizeof(IMAGE_DOS_HEADER)` -/
def dosHeaderSize : Nat := 64

/-- `sizeof(IMAGE_NT_HEADERS)` -/
def ntHeadersSize : Nat := 248

/-- `sizeof(IMAGE_SECTION_HEADER)` -/
def sectionHeaderSize : Nat := 40

/-- `IMAGE_SECTION_HEADER` (`PEImage.h:362`). -/
structure IMAGE_SECTION_HEADER where
  VirtualSize : UInt32
  VirtualAddress : UInt32
  SizeOfRawData : UInt32
  PointerToRawData : UInt32

def sectionHeader (m : Memory) (offset : Nat) : IMAGE_SECTION_HEADER where
  VirtualSize := field32 m (offset + 8)
  VirtualAddress := field32 m (offset + 12)
  SizeOfRawData := field32 m (offset + 16)
  PointerToRawData := field32 m (offset + 20)

/-- `LOAD_DLL_CONTEXT` (:44) after the headers have been read. -/
structure LOAD_DLL_CONTEXT where
  ImageBase : UInt32
  Characteristics : UInt16
  sect : List IMAGE_SECTION_HEADER
  file_offset_section_headers : Nat
  size_section_headers : Nat

/-- What allocation returns: `malloc` memory or none, `VirtualAlloc` an address for an address asked for and a size. -/
structure Allocator where
  malloc : Nat → Bool
  VirtualAlloc : Nat → Nat → Nat

/-- The NT header is one of a 32-bit image with sections (:81). -/
def ntValid (hdr : Memory) : Prop :=
  field32 hdr 0 = IMAGE_NT_SIGNATURE ∧ field16 hdr 24 = IMAGE_NT_OPTIONAL_HDR_MAGIC ∧ field16 hdr 6 ≠ 0
  deriving Decidable

/-- `size_section_headers` (:88). -/
def sectionHeadersSize (hdr : Memory) : Nat := (field16 hdr 6).toNat * sectionHeaderSize

/-- `file_offset_section_headers` (:93). -/
def sectionHeadersOffset (e_lfanew : UInt32) (hdr : Memory) : Nat :=
  u32 (e_lfanew.toNat + 4 + 20 + (field16 hdr 20).toNat)

/-- `LoadDLL_LoadHeaders` (:65). -/
def LoadDLL_LoadHeaders (src : Source) (alloc : Allocator) : Loading LOAD_DLL_CONTEXT :=
  (LoadDLLFromMemoryCallback src none 0 dosHeaderSize).andThen fun dos_hdr =>
    let e_lfanew := field32 dos_hdr 60
    if field16 dos_hdr 0 ≠ IMAGE_DOS_SIGNATURE ∨ e_lfanew = 0 then .fail
    else
      (LoadDLLFromMemoryCallback src none e_lfanew.toNat ntHeadersSize).andThen fun hdr =>
        if ¬ ntValid hdr then .fail
        else if ¬ alloc.malloc (sectionHeadersSize hdr) then .fail
        else
          (LoadDLLFromMemoryCallback src none (sectionHeadersOffset e_lfanew hdr) (sectionHeadersSize hdr)).andThen
            fun sect => .pure {
              ImageBase := field32 hdr 52
              Characteristics := field16 hdr 22
              sect := (List.range (field16 hdr 6).toNat).map fun i => sectionHeader sect (sectionHeaderSize * i)
              file_offset_section_headers := sectionHeadersOffset e_lfanew hdr
              size_section_headers := sectionHeadersSize hdr }

/-! ## The block -/

/-- One section in the search for the lowest and the highest address (:114). -/
def rvaStep (range : Nat × Nat) (s : IMAGE_SECTION_HEADER) : Nat × Nat :=
  if s.VirtualSize = 0 then range
  else
    let rva_low := if s.VirtualAddress.toNat < range.1 then s.VirtualAddress.toNat else range.1
    let sum := u32 (s.VirtualAddress.toNat + s.VirtualSize.toNat)
    (rva_low, if sum > range.2 then sum else range.2)

/-- `rva_low` and `rva_high` (:111). -/
def rvaRange (flags : UInt32) (sect : List IMAGE_SECTION_HEADER) : Nat × Nat :=
  sect.foldl rvaStep (if flags &&& ELoadDLLFlag_NoHeaders ≠ 0 then 0xFFFFFFFF else 0, 0)

def blockSize (flags : UInt32) (sect : List IMAGE_SECTION_HEADER) : Nat :=
  sub32 (rvaRange flags sect).2 (rvaRange flags sect).1

/-- `LoadDLL_AllocateMemory` (:99): the block and `image_base`. -/
def LoadDLL_AllocateMemory (alloc : Allocator) (flags : UInt32) (ctx : LOAD_DLL_CONTEXT) : Loading (Block × Nat) :=
  let rva_low := (rvaRange flags ctx.sect).1
  let size := blockSize flags ctx.sect
  let image := alloc.VirtualAlloc (u32 (ctx.ImageBase.toNat + rva_low)) size
  if image = 0 then
    if ctx.Characteristics &&& IMAGE_FILE_RELOCS_STRIPPED ≠ 0 then .fail
    else
      let image := alloc.VirtualAlloc 0 size
      if image = 0 then .fail else .pure (⟨image, size⟩, sub32 image rva_low)
  else
    -- the block is cleared from `image_base` on
    ⟨[.write (sub32 image rva_low) size ⟨image, size⟩], some (⟨image, size⟩, sub32 image rva_low)⟩

/-! ## The contents -/

/-- `section_size` (:205). -/
def IMAGE_SECTION_HEADER.section_size (s : IMAGE_SECTION_HEADER) : Nat := min s.VirtualSize.toNat s.SizeOfRawData.toNat

/-- The loop over the sections (:203). -/
def loadSections (src : Source) (block : Block) (image_base : Nat) : List IMAGE_SECTION_HEADER → Loading Unit
  | [] => .pure ()
  | s :: rest =>
    if s.section_size ≠ 0 then
      (LoadDLLFromMemoryCallback src (some (block, u32 (s.VirtualAddress.toNat + image_base)))
        s.PointerToRawData.toNat s.section_size).andThen fun _ => loadSections src block image_base rest
    else loadSections src block image_base rest

/-- `LoadDLL_LoadSections` (:188). -/
def LoadDLL_LoadSections (src : Source) (flags : UInt32) (ctx : LOAD_DLL_CONTEXT) (block : Block) (image_base : Nat) :
    Loading Unit :=
  if flags &&& ELoadDLLFlag_NoHeaders ≠ 0 then loadSections src block image_base ctx.sect
  else
    (LoadDLLFromMemoryCallback src (some (block, image_base)) 0
      (u32 (ctx.file_offset_section_headers + ctx.size_section_headers))).andThen fun _ =>
        loadSections src block image_base ctx.sect

/-- `LoadDLL` (:555) as far as the sections. -/
def LoadDLL (src : Source) (alloc : Allocator) (flags : UInt32) : Loading Unit :=
  (LoadDLL_LoadHeaders src alloc).andThen fun ctx =>
    (LoadDLL_AllocateMemory alloc flags ctx).andThen fun (block, image_base) =>
      LoadDLL_LoadSections src flags ctx block image_base

/-! ## What is inside -/

/-- Every byte that is read is the DLL's, and every byte that is written is in the block. -/
def Access.Inside (dll_size : Nat) : Access → Prop
  | read position size => ∀ i < size, u32 (position + i) < dll_size
  | write address size block => ∀ i < size, sub32 (address + i) block.image < block.size

variable {dll_size rva_low : Nat} {into : Option (Block × Nat)} {sect : List IMAGE_SECTION_HEADER} {α : Type}
    {alloc : Allocator} {ctx : LOAD_DLL_CONTEXT}

namespace Loading

variable {α β : Type}

def Safe (dll_size : Nat) (r : Loading α) : Prop := ∀ access ∈ r.accesses, access.Inside dll_size

theorem safe_pure (dll_size : Nat) (a : α) : (pure a).Safe dll_size := by
  intro access hin
  cases hin

theorem safe_fail (dll_size : Nat) : (fail : Loading α).Safe dll_size := by
  intro access hin
  cases hin

theorem safe_andThen {r : Loading α} {f : α → Loading β} :
    (r.andThen f).Safe dll_size ↔ r.Safe dll_size ∧ ∀ a, r.result = some a → (f a).Safe dll_size := by
  unfold andThen
  cases hresult : r.result with
  | none =>
    refine ⟨fun h => ⟨h, fun a ha => ?_⟩, fun h => h.1⟩
    cases ha
  | some a =>
    constructor
    · intro h
      refine ⟨fun access hin => h access (mem_append_left _ hin), ?_⟩
      rintro b ⟨⟩
      exact fun access hin => h access (mem_append_right _ hin)
    · rintro ⟨hr, hf⟩ access hin
      rcases mem_append.1 hin with hin | hin
      · exact hr access hin
      · exact hf a rfl access hin

end Loading

/-! ## The conditions -/

def Granted (src : Source) (position size : Nat) : Prop := u32 (position + size) ≤ src.dll_size
  deriving Decidable

/-- A range that is granted does not go around the end of the address space. -/
def Straight (src : Source) (position size : Nat) : Prop := Granted src position size → position + size < 2 ^ 32
  deriving Decidable

def HeadersFit (src : Source) (alloc : Allocator) : Prop :=
  let e_lfanew := field32 (src.fetch 0) 60
  let hdr := src.fetch e_lfanew.toNat
  Granted src 0 dosHeaderSize → field16 (src.fetch 0) 0 = IMAGE_DOS_SIGNATURE → e_lfanew ≠ 0 →
    Straight src e_lfanew.toNat ntHeadersSize ∧
      (Granted src e_lfanew.toNat ntHeadersSize → ntValid hdr → alloc.malloc (sectionHeadersSize hdr) = true →
        Straight src (sectionHeadersOffset e_lfanew hdr) (sectionHeadersSize hdr))

def BlockFits (alloc : Allocator) (flags : UInt32) (ctx : LOAD_DLL_CONTEXT) : Prop :=
  alloc.VirtualAlloc (u32 (ctx.ImageBase.toNat + (rvaRange flags ctx.sect).1)) (blockSize flags ctx.sect) ≠ 0 →
    (rvaRange flags ctx.sect).1 = 0 ∨ blockSize flags ctx.sect = 0

/-- The sections that are copied, up to one that is not granted, come from a straight range and end in the block. -/
def SectionsFit (src : Source) (rva_low size : Nat) : List IMAGE_SECTION_HEADER → Prop
  | [] => True
  | s :: rest =>
    (s.section_size ≠ 0 → Granted src s.PointerToRawData.toNat s.section_size →
      s.PointerToRawData.toNat + s.section_size < 2 ^ 32 ∧
        s.VirtualAddress.toNat + s.section_size ≤ rva_low + size) ∧
    (s.section_size = 0 ∨ Granted src s.PointerToRawData.toNat s.section_size → SectionsFit src rva_low size rest)

/-- The headers, if they are copied, are not longer than the block; and the sections fit. -/
def ContentsFit (src : Source) (flags : UInt32) (ctx : LOAD_DLL_CONTEXT) : Prop :=
  let header_size := u32 (ctx.file_offset_section_headers + ctx.size_section_headers)
  if flags &&& ELoadDLLFlag_NoHeaders ≠ 0 then
    SectionsFit src (rvaRange flags ctx.sect).1 (blockSize flags ctx.sect) ctx.sect
  else Granted src 0 header_size → header_size ≤ blockSize flags ctx.sect ∧
    SectionsFit src (rvaRange flags ctx.sect).1 (blockSize flags ctx.sect) ctx.sect

def Allocated (alloc : Allocator) (flags : UInt32) (ctx : LOAD_DLL_CONTEXT) : Prop :=
  let size := blockSize flags ctx.sect
  alloc.VirtualAlloc (u32 (ctx.ImageBase.toNat + (rvaRange flags ctx.sect).1)) size ≠ 0 ∨
    ctx.Characteristics &&& IMAGE_FILE_RELOCS_STRIPPED = 0 ∧ alloc.VirtualAlloc 0 size ≠ 0

/-- The condition on the DLL, the flags and what is allocated. -/
def Fits (src : Source) (alloc : Allocator) (flags : UInt32) : Prop :=
  HeadersFit src alloc ∧ ∀ ctx, (LoadDLL_LoadHeaders src alloc).result = some ctx →
    BlockFits alloc flags ctx ∧ (Allocated alloc flags ctx → ContentsFit src flags ctx)

/-! ## Ranges -/

variable {src : Source} {position size : Nat} {block : Block} {flags : UInt32}

theorem read_inside (hposition : position < 2 ^ 32)
    (hgranted : Granted src position size) :
    (Access.read position size).Inside src.dll_size ↔ position + size < 2 ^ 32 := by
  have hlt := src.isSize
  unfold Granted at hgranted
  constructor
  · intro h
    by_contra hround
    -- the last byte of the address space is not the DLL's
    have hlast := h (2 ^ 32 - 1 - position) (by omega)
    unfold u32 at hlast
    omega
  · intro hstraight i hi
    rw [u32_of_lt hstraight] at hgranted
    rw [u32_of_lt (by omega)]
    omega

theorem write_inside {address size offset dll_size : Nat} {block : Block} (hblock : block.size < 2 ^ 32)
    (hoffset : offset < 2 ^ 32) (haddress : ∀ i, sub32 (address + i) block.image = u32 (offset + i)) :
    (Access.write address size block).Inside dll_size ↔ size = 0 ∨ offset + size ≤ block.size := by
  constructor
  · intro h
    by_contra hout
    by_cases hbehind : block.size ≤ offset
    · have hfirst := h 0 (by omega)
      rw [haddress, Nat.add_zero, u32_of_lt hoffset] at hfirst
      omega
    · have hnext := h (block.size - offset) (by omega)
      rw [haddress, Nat.add_sub_cancel' (by omega), u32_of_lt hblock] at hnext
      omega
  · rintro (rfl | hin) i hi
    · omega
    · rw [haddress, u32_of_lt (by omega)]
      omega

theorem sub32_image_base (image : Nat) {x : Nat} (hlow : rva_low ≤ x) (i : Nat) :
    sub32 (u32 (x + sub32 image rva_low) + i) image = u32 (x - rva_low + i) := by
  unfold sub32 u32
  omega

theorem sectionHeadersOffset_lt (e_lfanew : UInt32) (hdr : Memory) : sectionHeadersOffset e_lfanew hdr < 2 ^ 32 :=
  u32_lt _

theorem blockSize_lt (flags : UInt32) (sect : List IMAGE_SECTION_HEADER) : blockSize flags sect < 2 ^ 32 := u32_lt _

theorem callback_none_safe (hposition : position < 2 ^ 32) :
    (LoadDLLFromMemoryCallback src none position size).Safe src.dll_size ↔ (size ≠ 0 → Straight src position size) := by
  unfold LoadDLLFromMemoryCallback Straight Granted
  by_cases hsize : size = 0
  · rw [if_pos hsize]
    exact iff_of_true (Loading.safe_pure _ _) fun h => absurd hsize h
  rw [if_neg hsize]
  by_cases hgranted : u32 (position + size) > src.dll_size
  · rw [if_pos hgranted]
    exact iff_of_true (Loading.safe_fail _) fun _ h => absurd h (by omega)
  · rw [if_neg hgranted]
    have hread := read_inside hposition (Nat.le_of_not_lt hgranted)
    constructor
    · intro h _ _
      exact hread.1 (h _ (by simp))
    · intro h access hin
      obtain rfl : access = .read position size := by simpa using hin
      exact hread.2 (h hsize (Nat.le_of_not_lt hgranted))

theorem callback_result :
    (LoadDLLFromMemoryCallback src into position size).result =
      if size = 0 ∨ Granted src position size then some (src.fetch position) else none := by
  unfold LoadDLLFromMemoryCallback Granted
  by_cases hsize : size = 0
  · rw [if_pos hsize, if_pos (.inl hsize)]
    rfl
  rw [if_neg hsize]
  by_cases hgranted : u32 (position + size) > src.dll_size
  · rw [if_pos hgranted, if_neg (by omega)]
    rfl
  · rw [if_neg hgranted, if_pos (.inr (Nat.le_of_not_lt hgranted))]

theorem callback_some_safe {address offset : Nat}
    (hposition : position < 2 ^ 32) (hblock : block.size < 2 ^ 32) (hoffset : offset < 2 ^ 32)
    (haddress : ∀ i, sub32 (address + i) block.image = u32 (offset + i)) :
    (LoadDLLFromMemoryCallback src (some (block, address)) position size).Safe src.dll_size ↔
      (size ≠ 0 → Granted src position size → position + size < 2 ^ 32 ∧ offset + size ≤ block.size) := by
  unfold LoadDLLFromMemoryCallback
  by_cases hsize : size = 0
  · rw [if_pos hsize]
    exact iff_of_true (Loading.safe_pure _ _) fun h => absurd hsize h
  rw [if_neg hsize]
  by_cases hgranted : u32 (position + size) > src.dll_size
  · rw [if_pos hgranted]
    refine iff_of_true (Loading.safe_fail _) fun _ h => ?_
    unfold Granted at h
    omega
  · rw [if_neg hgranted]
    have hread := read_inside hposition (Nat.le_of_not_lt hgranted)
    have hwrite : (Access.write address size block).Inside src.dll_size ↔ _ := write_inside hblock hoffset haddress
    constructor
    · intro h _ _
      refine ⟨hread.1 (h _ (by simp)), ?_⟩
      exact (hwrite.1 (h _ (by simp))).resolve_left hsize
    · intro h access hin
      obtain ⟨hstraight, hin'⟩ := h hsize (Nat.le_of_not_lt hgranted)
      simp only [Option.map_some, Option.toList_some, mem_cons, not_mem_nil, or_false] at hin
      rcases hin with rfl | rfl
      · exact hread.2 hstraight
      · exact hwrite.2 (.inr hin')

/-! ## The search for the range -/

theorem foldl_rvaStep (sect : List IMAGE_SECTION_HEADER) (range : Nat × Nat) :
    (sect.foldl rvaStep range).1 ≤ range.1 ∧ range.2 ≤ (sect.foldl rvaStep range).2 ∧
      (range.2 < 2 ^ 32 → (sect.foldl rvaStep range).2 < 2 ^ 32) ∧
      ∀ s ∈ sect, s.VirtualSize ≠ 0 → (sect.foldl rvaStep range).1 ≤ s.VirtualAddress.toNat ∧
        u32 (s.VirtualAddress.toNat + s.VirtualSize.toNat) ≤ (sect.foldl rvaStep range).2 := by
  induction sect generalizing range with
  | nil => exact ⟨le_rfl, le_rfl, id, fun s hs => absurd hs not_mem_nil⟩
  | cons s rest ih =>
    have hstep : (rvaStep range s).1 ≤ range.1 ∧ range.2 ≤ (rvaStep range s).2 ∧
        (range.2 < 2 ^ 32 → (rvaStep range s).2 < 2 ^ 32) ∧ (s.VirtualSize ≠ 0 →
          (rvaStep range s).1 ≤ s.VirtualAddress.toNat ∧
            u32 (s.VirtualAddress.toNat + s.VirtualSize.toNat) ≤ (rvaStep range s).2) := by
      have hsum := u32_lt (s.VirtualAddress.toNat + s.VirtualSize.toNat)
      unfold rvaStep
      by_cases hempty : s.VirtualSize = 0
      · rw [if_pos hempty]
        exact ⟨le_rfl, le_rfl, id, fun h => absurd hempty h⟩
      · rw [if_neg hempty]
        dsimp only
        refine ⟨?_, ?_, ?_, fun _ => ⟨?_, ?_⟩⟩ <;> split <;> omega
    obtain ⟨hlow, hhigh, hlt, hself⟩ := hstep
    obtain ⟨hlow', hhigh', hlt', hall⟩ := ih (rvaStep range s)
    rw [foldl_cons]
    refine ⟨by omega, by omega, fun h => hlt' (hlt h), ?_⟩
    intro t ht hsize
    rcases mem_cons.1 ht with rfl | ht
    · have := hself hsize
      omega
    · exact hall t ht hsize

theorem rva_low_of_headers (hflags : ¬ flags &&& ELoadDLLFlag_NoHeaders ≠ 0)
    (sect : List IMAGE_SECTION_HEADER) : (rvaRange flags sect).1 = 0 := by
  have h := (foldl_rvaStep sect (if flags &&& ELoadDLLFlag_NoHeaders ≠ 0 then 0xFFFFFFFF else 0, 0)).1
  rw [if_neg hflags] at h
  unfold rvaRange
  rw [if_neg hflags]
  exact Nat.le_zero.1 h

theorem rva_low_lt (flags : UInt32) (sect : List IMAGE_SECTION_HEADER) : (rvaRange flags sect).1 < 2 ^ 32 := by
  have h := (foldl_rvaStep sect (if flags &&& ELoadDLLFlag_NoHeaders ≠ 0 then 0xFFFFFFFF else 0, 0)).1
  have hstart : (if flags &&& ELoadDLLFlag_NoHeaders ≠ 0 then 0xFFFFFFFF else 0) < 2 ^ 32 := by split <;> omega
  exact Nat.lt_of_le_of_lt h hstart

theorem rvaRange_section (flags : UInt32) {s : IMAGE_SECTION_HEADER} (hs : s ∈ sect)
    (hsize : s.VirtualSize ≠ 0) : (rvaRange flags sect).1 ≤ s.VirtualAddress.toNat ∧
      (s.VirtualAddress.toNat + s.VirtualSize.toNat < 2 ^ 32 →
        s.VirtualAddress.toNat + s.section_size ≤ (rvaRange flags sect).1 + blockSize flags sect) := by
  obtain ⟨-, -, hlt, hall⟩ := foldl_rvaStep sect (if flags &&& ELoadDLLFlag_NoHeaders ≠ 0 then 0xFFFFFFFF else 0, 0)
  obtain ⟨hlow, hhigh⟩ := hall s hs hsize
  have hhighlt := hlt (show 0 < 2 ^ 32 by decide)
  refine ⟨hlow, fun hsum => ?_⟩
  rw [u32_of_lt hsum] at hhigh
  unfold blockSize rvaRange
  rw [sub32_of_le (by omega) hhighlt]
  have hmin : s.section_size ≤ s.VirtualSize.toNat := Nat.min_le_left _ _
  omega

/-! ## The functions -/

theorem safe_guard {c : Prop} [Decidable c] {r : Loading α} :
    (if c then .fail else r : Loading α).Safe dll_size ↔ (¬ c → r.Safe dll_size) := by
  by_cases h : c
  · rw [if_pos h]
    exact iff_of_true (Loading.safe_fail _) fun hnot => absurd h hnot
  · rw [if_neg h]
    exact ⟨fun hr _ => hr, fun hr => hr h⟩

theorem safe_fetch
    {f : Memory → Loading α} :
    ((LoadDLLFromMemoryCallback src into position size).andThen f).Safe src.dll_size ↔
      (LoadDLLFromMemoryCallback src into position size).Safe src.dll_size ∧
        (size = 0 ∨ Granted src position size → (f (src.fetch position)).Safe src.dll_size) := by
  rw [Loading.safe_andThen, callback_result]
  constructor
  · rintro ⟨hsafe, h⟩
    exact ⟨hsafe, fun hgranted => h _ (if_pos hgranted)⟩
  · rintro ⟨hsafe, h⟩
    refine ⟨hsafe, fun m hm => ?_⟩
    split at hm
    · next hgranted =>
      cases hm
      exact h hgranted
    · cases hm

/-- **LoadDLL_LoadHeaders** -/
theorem loadHeaders_safe (src : Source) (alloc : Allocator) :
    (LoadDLL_LoadHeaders src alloc).Safe src.dll_size ↔ HeadersFit src alloc := by
  have hdos : Straight src 0 dosHeaderSize := fun _ => by decide
  have hpure : ∀ ctx : LOAD_DLL_CONTEXT, (Loading.pure ctx).Safe src.dll_size := Loading.safe_pure _
  unfold LoadDLL_LoadHeaders HeadersFit
  dsimp only
  rw [safe_fetch, safe_guard, safe_fetch, safe_guard, safe_guard, safe_fetch, callback_none_safe (by decide),
    callback_none_safe (UInt32.toNat_lt _), callback_none_safe (sectionHeadersOffset_lt _ _)]
  generalize src.fetch (field32 (src.fetch 0) 60).toNat = hdr
  have hsections : ntValid hdr → sectionHeadersSize hdr ≠ 0 := by
    rintro ⟨-, -, hcount⟩ hzero
    refine hcount (UInt16.toNat_inj.1 ?_)
    unfold sectionHeadersSize sectionHeaderSize at hzero
    rw [UInt16.toNat_zero]
    omega
  constructor
  · rintro ⟨-, h⟩ hgranted hmagic hlfanew
    obtain ⟨hnt, h⟩ := h (.inr hgranted) (by simp [hmagic, hlfanew])
    refine ⟨hnt (by decide), fun hgranted hvalid hmalloc => ?_⟩
    exact (h (.inr hgranted) (not_not.2 hvalid) (not_not.2 hmalloc)).1 (hsections hvalid)
  · intro h
    refine ⟨fun _ => hdos, fun hgranted hdosok => ?_⟩
    obtain ⟨hmagic, hlfanew⟩ := not_or.1 hdosok
    obtain ⟨hnt, h⟩ := h (hgranted.resolve_left (by decide)) (not_not.1 hmagic) hlfanew
    refine ⟨fun _ => hnt, fun hgranted hvalid hmalloc => ⟨fun _ => ?_, fun _ => hpure _⟩⟩
    exact h (hgranted.resolve_left (by decide)) (not_not.1 hvalid) (not_not.1 hmalloc)

theorem allocateMemory_result
    {image_base : Nat} (h : (LoadDLL_AllocateMemory alloc flags ctx).result = some (block, image_base)) :
    Allocated alloc flags ctx ∧ block.size = blockSize flags ctx.sect ∧
      image_base = sub32 block.image (rvaRange flags ctx.sect).1 := by
  unfold LoadDLL_AllocateMemory at h
  unfold Allocated
  dsimp only at h ⊢
  split at h
  · split at h
    · cases h
    · next hstripped =>
      split at h
      · cases h
      · next himage =>
        cases h
        exact ⟨.inr ⟨not_not.1 hstripped, himage⟩, rfl, rfl⟩
  · next himage =>
    cases h
    exact ⟨.inl himage, rfl, rfl⟩

theorem allocateMemory_allocated
    (h : Allocated alloc flags ctx) :
    ∃ block image_base, (LoadDLL_AllocateMemory alloc flags ctx).result = some (block, image_base) := by
  unfold LoadDLL_AllocateMemory
  by_cases hfirst : alloc.VirtualAlloc (u32 (ctx.ImageBase.toNat + (rvaRange flags ctx.sect).1))
      (blockSize flags ctx.sect) = 0
  · obtain ⟨hstripped, hsecond⟩ := h.resolve_left (not_not.2 hfirst)
    rw [if_pos hfirst, if_neg (not_not.2 hstripped), if_neg hsecond]
    exact ⟨_, _, rfl⟩
  · rw [if_neg hfirst]
    exact ⟨_, _, rfl⟩

/-- **LoadDLL_AllocateMemory** -/
theorem allocateMemory_safe (alloc : Allocator) (flags : UInt32) (ctx : LOAD_DLL_CONTEXT) (dll_size : Nat) :
    (LoadDLL_AllocateMemory alloc flags ctx).Safe dll_size ↔ BlockFits alloc flags ctx := by
  have hlow := rva_low_lt flags ctx.sect
  unfold LoadDLL_AllocateMemory BlockFits
  dsimp only
  split
  · next himage =>
    refine iff_of_true ?_ fun h => absurd himage h
    split
    · exact Loading.safe_fail _
    · split
      · exact Loading.safe_fail _
      · exact Loading.safe_pure _ _
  · next himage =>
    have hsize := blockSize_lt flags ctx.sect
    generalize alloc.VirtualAlloc _ _ = image at himage ⊢
    -- `image_base` is `rva_low` before the block
    have hwrite := @write_inside (sub32 image (rvaRange flags ctx.sect).1) (blockSize flags ctx.sect)
      (u32 (2 ^ 32 - (rvaRange flags ctx.sect).1)) dll_size ⟨image, blockSize flags ctx.sect⟩ hsize (u32_lt _)
      fun i => by
        unfold sub32 u32
        dsimp only
        omega
    dsimp only at hwrite
    constructor
    · intro h _
      have hin := hwrite.1 (h _ (mem_singleton_self _))
      unfold u32 at hin
      omega
    · intro h access hin
      obtain rfl := mem_singleton.1 hin
      refine hwrite.2 ?_
      rcases h himage with hzero | hempty
      · rw [hzero]
        exact .inr (by unfold u32; omega)
      · exact .inl hempty

theorem loadSections_safe (src : Source) (hblock : block.size < 2 ^ 32)
    (hlow : ∀ s ∈ sect, s.VirtualSize ≠ 0 → rva_low ≤ s.VirtualAddress.toNat) :
    (loadSections src block (sub32 block.image rva_low) sect).Safe src.dll_size ↔
      SectionsFit src rva_low block.size sect := by
  induction sect with
  | nil => exact iff_of_true (Loading.safe_pure _ _) trivial
  | cons s rest ih =>
    have ih := ih fun t ht => hlow t (.tail _ ht)
    unfold loadSections SectionsFit
    by_cases hempty : s.section_size = 0
    · rw [if_neg (not_not.2 hempty), ih]
      exact ⟨fun h => ⟨fun hne => absurd hempty hne, fun _ => h⟩, fun h => h.2 (.inl hempty)⟩
    · have hvirtual : s.VirtualSize ≠ 0 := by
        intro hzero
        refine hempty ?_
        unfold IMAGE_SECTION_HEADER.section_size
        rw [hzero]
        exact Nat.zero_min _
      have hlow := hlow s (.head _) hvirtual
      have hva := s.VirtualAddress.toNat_lt
      rw [if_pos hempty, safe_fetch, ih, callback_some_safe (UInt32.toNat_lt _) hblock
        (Nat.lt_of_le_of_lt (Nat.sub_le _ rva_low) hva) (sub32_image_base _ hlow)]
      have hfits : s.VirtualAddress.toNat - rva_low + s.section_size ≤ block.size ↔
          s.VirtualAddress.toNat + s.section_size ≤ rva_low + block.size := by omega
      rw [hfits]

/-- **LoadDLL_LoadSections** -/
theorem loadSections_image_safe (src : Source) (flags : UInt32) (ctx : LOAD_DLL_CONTEXT)
    (hblock : block.size = blockSize flags ctx.sect) :
    (LoadDLL_LoadSections src flags ctx block (sub32 block.image (rvaRange flags ctx.sect).1)).Safe src.dll_size ↔
      ContentsFit src flags ctx := by
  have hsize : block.size < 2 ^ 32 := by
    rw [hblock]
    exact blockSize_lt _ _
  have hsections := loadSections_safe src hsize fun s (hs : s ∈ ctx.sect) hne => (rvaRange_section flags hs hne).1
  unfold LoadDLL_LoadSections ContentsFit
  rw [← hblock]
  by_cases hflags : flags &&& ELoadDLLFlag_NoHeaders ≠ 0
  · rw [if_pos hflags, if_pos hflags]
    exact hsections
  · rw [if_neg hflags, if_neg hflags, safe_fetch, hsections]
    rw [rva_low_of_headers hflags]
    have haddress : ∀ i, sub32 (sub32 block.image 0 + i) block.image = u32 (0 + i) := by
      intro i
      unfold sub32 u32
      omega
    have hheader := u32_lt (ctx.file_offset_section_headers + ctx.size_section_headers)
    rw [callback_some_safe (Nat.two_pow_pos 32) hsize (Nat.two_pow_pos 32) haddress]
    generalize u32 (ctx.file_offset_section_headers + ctx.size_section_headers) = header_size at hheader ⊢
    constructor
    · rintro ⟨hwrite, hrest⟩ hgranted
      refine ⟨?_, hrest (.inr hgranted)⟩
      by_cases hempty : header_size = 0
      · omega
      · have := hwrite hempty hgranted
        omega
    · intro h
      refine ⟨fun hne hgranted => ?_, ?_⟩
      · have := (h hgranted).1
        omega
      · rintro (rfl | hgranted)
        · exact (h (Nat.zero_le _)).2
        · exact (h hgranted).2

/-- **LoadDLL**: it reads in the DLL and writes in its block if and only if the DLL fits. -/
theorem LoadDLL_inside (src : Source) (alloc : Allocator) (flags : UInt32) :
    (LoadDLL src alloc flags).Safe src.dll_size ↔ Fits src alloc flags := by
  unfold LoadDLL Fits
  rw [Loading.safe_andThen, loadHeaders_safe]
  refine and_congr_right fun _ => forall_congr' fun ctx => imp_congr_right fun _ => ?_
  rw [Loading.safe_andThen, allocateMemory_safe]
  refine and_congr_right fun _ => ?_
  constructor
  · intro h hallocated
    obtain ⟨block, image_base, hresult⟩ := allocateMemory_allocated hallocated
    obtain ⟨-, hsize, rfl⟩ := allocateMemory_result hresult
    exact (loadSections_image_safe src flags ctx hsize).1 (h _ hresult)
  · rintro h ⟨block, image_base⟩ hresult
    obtain ⟨hallocated, hsize, rfl⟩ := allocateMemory_result hresult
    exact (loadSections_image_safe src flags ctx hsize).2 (h hallocated)

/-! ## Without the headers -/

def oneSection : Source where
  bytes i := ([(0, 0x4D), (1, 0x5A), (60, 64), (64, 0x50), (65, 0x45), (70, 1), (84, 224), (88, 0x0B), (89, 0x01),
    (118, 0x40), (320, 0x10), (325, 0x10), (328, 0x10)].lookup i).getD 0
  dll_size := 352
  isSize := by decide

def allFree : Allocator where
  malloc _ := true
  VirtualAlloc address _ := if address = 0 then 0x10000 else address

/-- The block is at 0x401000, and what is cleared is at 0x400000. -/
theorem LoadDLL_cleared_outside :
    Access.write 0x400000 0x10 ⟨0x401000, 0x10⟩ ∈ (LoadDLL oneSection allFree ELoadDLLFlag_NoHeaders).accesses ∧
      ¬ (LoadDLL oneSection allFree ELoadDLLFlag_NoHeaders).Safe oneSection.dll_size := by
  have hcleared : Access.write 0x400000 0x10 ⟨0x401000, 0x10⟩ ∈
      (LoadDLL oneSection allFree ELoadDLLFlag_NoHeaders).accesses := by decide +kernel
  refine ⟨hcleared, fun hsafe => ?_⟩
  have hfirst := hsafe _ hcleared 0 (by decide)
  revert hfirst
  decide

end Modules
