import SkyOS.Lib.Bytes
import SkyOS.Lib.Machine

/-!
# The packer (`PackageMaker/PackageManager.cpp`)

`SkyOS.bin` is the kernel file, zeros up to a multiple of 512, a header with an item for each further file, the contents
of these, and zeros again.

| here | there |
| --- | --- |
| `source` | what `_open`, `_read` and `stat` find on the host |
| `target` | what has been written to `SkyOS.bin` |
| `none` | the program ends before its end, by `exit(-1)` or in `strncpy_s` |

`SkyOS.bin` can be opened, and `_write` writes everything. A file of which `stat` finds nothing ends the packer with what
has been written.
-/

namespace Package

open Machine Bytes List

abbrev Name := List UInt8

def BYTESOFSECTOR : Nat := 512

def PACKAGESIGNATURE : List UInt8 :=
  ['S', 'K', 'Y', 'O', 'S', '3', '2', 'P', 'A', 'C', 'K', 'A', 'G', 'E', '_', ' '].map Char.toUInt8

def MAXFILENAMELENGTH : Nat := 24

def sizeofPACKAGEITEM : Nat := 28

def sizeofPACKAGEHEADER : Nat := 20

/-- The loop of `CopyFile` (:211): a short read ends it. -/
def copyLoop : Nat → List UInt8 → List UInt8 → Int → Int × List UInt8
  | 0, _, target, iSourceFileSize => (iSourceFileSize, target)
  | rounds + 1, rest, target, iSourceFileSize =>
    let vcBuffer := rest.take BYTESOFSECTOR
    let size := toInt32 (iSourceFileSize + vcBuffer.length)
    if vcBuffer.length ≠ BYTESOFSECTOR then (size, target ++ vcBuffer)
    else copyLoop rounds (rest.drop BYTESOFSECTOR) (target ++ vcBuffer) size

/-- `CopyFile` (:201): the size as an `int`, and the target. -/
def CopyFile (content target : List UInt8) : Int × List UInt8 :=
  copyLoop (content.length / BYTESOFSECTOR + 1) content target 0

/-- `AdjustInSectorSize` (:170): the number of sectors, and the target. -/
def AdjustInSectorSize (target : List UInt8) (iSourceSize : Int) : Int × List UInt8 :=
  let iAdjustSizeToSector := iSourceSize.tmod BYTESOFSECTOR
  if iAdjustSizeToSector ≠ 0 then
    let iAdjustSizeToSector := 512 - iAdjustSizeToSector
    ((toInt32 (iSourceSize + iAdjustSizeToSector)).tdiv BYTESOFSECTOR, target ++ List.replicate iAdjustSizeToSector.toNat 0)
  else (iSourceSize.tdiv BYTESOFSECTOR, target)

/-- A `PACKAGEITEM` (:117), if `strncpy_s` finds room for the name and its end. -/
def stItem (name : Name) (st_size : Nat) : Option (List UInt8) :=
  if name.length < MAXFILENAMELENGTH then
    some (name ++ List.replicate (MAXFILENAMELENGTH - name.length) 0 ++ leBytes (u32 st_size) 4)
  else none

/-- The loop that writes the items (:108); `false` where `stat` fails. -/
def writeItems (source : Name → Option (List UInt8)) : List Name → List UInt8 → Option (Bool × List UInt8)
  | [], target => some (true, target)
  | name :: files, target =>
    match source name with
    | none => some (false, target)
    | some content => (stItem name content.length).bind fun item => writeItems source files (target ++ item)

/-- The loop that writes the contents (:140). -/
def writeContents (source : Name → Option (List UInt8)) : List Name → List UInt8 → Int → Option (Int × List UInt8)
  | [], target, iSourceSize => some (iSourceSize, target)
  | name :: files, target, iSourceSize =>
    (source name).bind fun content =>
      writeContents source files (CopyFile content target).2 (toInt32 (iSourceSize + (CopyFile content target).1))

/-- `main` (:50): the content of `SkyOS.bin`. -/
def main (source : Name → Option (List UInt8)) : List Name → Option (List UInt8)
  | _ :: kernel :: files => do
    let content ← source kernel
    let (iSourceSize, target) := CopyFile content []
    let (_, target) := AdjustInSectorSize target (toInt32 (0 + iSourceSize))
    let dwHeaderSize := u32 (sizeofPACKAGEHEADER + files.length * sizeofPACKAGEITEM)
    let target := target ++ (PACKAGESIGNATURE ++ leBytes dwHeaderSize 4)
    let (complete, target) ← writeItems source files target
    if complete then
      let (iSourceSize, target) ← writeContents source files target 0
      some (AdjustInSectorSize target (toInt32 (dword iSourceSize + dwHeaderSize))).2
    else some target
  | _ => none

/-! ## The layout -/

/-- A file that goes into a package: its name is a C string of 1 to 23 characters. -/
structure PackageFile where
  name : Name
  content : List UInt8
  nonempty : name ≠ []
  terminated : (0 : UInt8) ∉ name
  fits : name.length < MAXFILENAMELENGTH

def PackageFile.item (f : PackageFile) : List UInt8 :=
  f.name ++ List.replicate (MAXFILENAMELENGTH - f.name.length) 0 ++ leBytes (u32 f.content.length) 4

def package (files : List PackageFile) : List UInt8 :=
  PACKAGESIGNATURE ++ (leBytes (u32 (sizeofPACKAGEHEADER + files.length * sizeofPACKAGEITEM)) 4 ++
    (files.flatMap PackageFile.item ++ files.flatMap PackageFile.content))

/-- How many zeros follow something of `n` bytes. -/
def padding (n : Nat) : Nat :=
  if (toInt32 n).tmod BYTESOFSECTOR ≠ 0 then (512 - (toInt32 n).tmod BYTESOFSECTOR).toNat else 0

theorem PackageFile.length_item (f : PackageFile) : f.item.length = sizeofPACKAGEITEM := by
  have := f.fits
  simp only [item, length_append, length_replicate, length_leBytes, sizeofPACKAGEITEM]
  unfold MAXFILENAMELENGTH at *
  omega

theorem toInt32_add (a b : Int) : toInt32 (toInt32 a + b) = toInt32 (a + b) := by
  unfold toInt32
  omega

theorem toInt32_toInt32 (a : Int) : toInt32 (toInt32 a) = toInt32 a := by
  unfold toInt32
  omega

theorem copyLoop_eq (rounds : Nat) (rest target : List UInt8) (n : Int) (h : rest.length < rounds * BYTESOFSECTOR) :
    copyLoop rounds rest target (toInt32 n) = (toInt32 (n + rest.length), target ++ rest) := by
  induction rounds generalizing rest target n with
  | zero => simp at h
  | succ rounds ih =>
    simp only [copyLoop, length_take, toInt32_add]
    by_cases hshort : min BYTESOFSECTOR rest.length ≠ BYTESOFSECTOR
    · rw [if_pos hshort, take_of_length_le (by omega), show min BYTESOFSECTOR rest.length = rest.length by omega]
    · rw [if_neg hshort, ih _ _ _ (by rw [length_drop, Nat.succ_mul] at *; omega), append_assoc,
        take_append_drop, length_drop]
      congr 2
      omega

theorem CopyFile_eq (content target : List UInt8) :
    CopyFile content target = (toInt32 content.length, target ++ content) := by
  have hrounds : content.length < (content.length / BYTESOFSECTOR + 1) * BYTESOFSECTOR := by
    rw [Nat.mul_comm]
    exact Nat.lt_mul_div_succ _ (by decide)
  have hloop := copyLoop_eq _ content target 0 hrounds
  rw [Int.zero_add] at hloop
  exact hloop

theorem AdjustInSectorSize_eq (target : List UInt8) (n : Nat) :
    (AdjustInSectorSize target (toInt32 n)).2 = target ++ List.replicate (padding n) 0 := by
  unfold padding AdjustInSectorSize
  generalize (toInt32 n).tmod BYTESOFSECTOR = r
  by_cases hr : r ≠ 0
  · simp only [if_pos hr]
  · simp only [if_neg hr, replicate_zero, append_nil]

theorem tmod_sector (x : Int) : x.tmod BYTESOFSECTOR = if 0 ≤ x then x % 512 else -(-x % 512) := by
  split
  · next hx => exact Int.tmod_eq_emod_of_nonneg hx
  · next hx =>
    have hneg := Int.tmod_eq_emod_of_nonneg (b := 512) (show 0 ≤ -x by omega)
    rw [Int.neg_tmod] at hneg
    have hcast : (BYTESOFSECTOR : Int) = 512 := rfl
    rw [hcast]
    omega

/-- **The padding** goes to a multiple of 512, also where the size is too large for an `int`. -/
theorem padding_dvd (n : Nat) : (n + padding n) % BYTESOFSECTOR = 0 := by
  have hr := tmod_sector (toInt32 n)
  unfold padding
  generalize (toInt32 n).tmod BYTESOFSECTOR = r at hr ⊢
  unfold toInt32 at hr
  unfold BYTESOFSECTOR
  split at hr <;> split <;> omega

/-! ## What is written -/

section

variable {source : Name → Option (List UInt8)} {files : List PackageFile}

theorem writeItems_eq (h : ∀ f ∈ files, source f.name = some f.content) (target : List UInt8) :
    writeItems source (files.map PackageFile.name) target = some (true, target ++ files.flatMap PackageFile.item) := by
  induction files generalizing target with
  | nil => simp [writeItems]
  | cons f files ih =>
    have hitem : stItem f.name f.content.length = some f.item := if_pos f.fits
    rw [map_cons, writeItems, h f mem_cons_self]
    dsimp only
    rw [hitem, Option.bind_some, ih (fun g hg => h g (mem_cons_of_mem f hg)), flatMap_cons, append_assoc]

theorem writeContents_eq (h : ∀ f ∈ files, source f.name = some f.content) (target : List UInt8) (iSourceSize : Int) :
    ∃ size, writeContents source (files.map PackageFile.name) target iSourceSize
      = some (size, target ++ files.flatMap PackageFile.content) := by
  induction files generalizing target iSourceSize with
  | nil => exact ⟨iSourceSize, by simp [writeContents]⟩
  | cons f files ih =>
    rw [map_cons, writeContents, h f mem_cons_self, Option.bind_some, CopyFile_eq]
    obtain ⟨size, hsize⟩ := ih (fun g hg => h g (mem_cons_of_mem f hg)) (target ++ f.content)
      (toInt32 (iSourceSize + toInt32 f.content.length))
    exact ⟨size, by rw [hsize, flatMap_cons, append_assoc]⟩

/-- **The packer writes** the kernel, padded, the package, and zeros. -/
theorem main_eq {kernel : Name} {content : List UInt8} (program : Name) (hkernel : source kernel = some content)
    (hfiles : ∀ f ∈ files, source f.name = some f.content) : ∃ zeros,
    main source (program :: kernel :: files.map PackageFile.name)
      = some (content ++ List.replicate (padding content.length) 0 ++ (package files ++ List.replicate zeros 0)) := by
  have hcopy := CopyFile_eq content []
  rw [nil_append] at hcopy
  have hadjust := AdjustInSectorSize_eq content content.length
  obtain ⟨size, hcontents⟩ := writeContents_eq hfiles (content ++ List.replicate (padding content.length) 0 ++
    (PACKAGESIGNATURE ++ leBytes (u32 (sizeofPACKAGEHEADER + files.length * sizeofPACKAGEITEM)) 4) ++
    files.flatMap PackageFile.item) 0
  have hlast := AdjustInSectorSize_eq (content ++ List.replicate (padding content.length) 0 ++
    (PACKAGESIGNATURE ++ leBytes (u32 (sizeofPACKAGEHEADER + files.length * sizeofPACKAGEITEM)) 4) ++
    files.flatMap PackageFile.item ++ files.flatMap PackageFile.content)
    (dword size + u32 (sizeofPACKAGEHEADER + files.length * sizeofPACKAGEITEM))
  rw [Int.natCast_add] at hlast
  refine ⟨padding (dword size + u32 (sizeofPACKAGEHEADER + files.length * sizeofPACKAGEITEM)), ?_⟩
  simp only [main, hkernel, Option.bind_eq_bind, Option.bind_some, hcopy, Int.zero_add, toInt32_toInt32, hadjust,
    length_map, writeItems_eq hfiles, if_true, hcontents, hlast]
  simp only [package, append_assoc]

end

end Package
