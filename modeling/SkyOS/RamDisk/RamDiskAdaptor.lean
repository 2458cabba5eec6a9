import Mathlib.Data.List.TakeDrop
import Mathlib.Logic.Function.Basic
import Mathlib.Tactic.Common
import SkyOS.RamDisk.PackageManager

/-!
# The installer (`FileSystem/RamDiskAdaptor.cpp`)

`InstallPackage` looks for the package behind the kernel, at every 512th byte, and makes a file on the RAM disk for each
item of its header.

| here | there |
| --- | --- |
| `FileCalls` | `fopen` with `"w"`, `fwrite` with a size of 1, `fclose` |
| `Specified` | what they are to do: a new file, the bytes behind those it has, nothing more |
| `room s sizes` | there is space for further files of these sizes |
| `none` as a result | the search never ends |
-/

namespace Package

open Machine Bytes List Nat

/-! ## The source -/

namespace RamDiskAdaptor

/-- The signature as the kernel has it, with a blank more. -/
def PACKAGESIGNATURE : List UInt8 :=
  ['S', 'K', 'Y', 'O', 'S', '3', '2', 'P', 'A', 'C', 'K', 'A', 'G', 'E', '_', ' ', ' '].map Char.toUInt8

end RamDiskAdaptor

def sizeofSignature : Nat := 16

structure FileCalls (σ H : Type) where
  fopen : σ → Name → Option (H × σ)
  fwrite : σ → H → List UInt8 → Nat × σ
  fclose : σ → H → σ

/-- The loop of `FindPackageSignature` (:104). -/
def findFrom (m : Memory) (endAddress : Nat) : Nat → Nat → Option (Option Nat)
  | 0, _ => none
  | rounds + 1, addr =>
    if addr < endAddress then
      if slice m addr sizeofSignature = RamDiskAdaptor.PACKAGESIGNATURE.take sizeofSignature then some (some addr)
      else findFrom m endAddress rounds (u32 (addr + 512))
    else some none

/-- `FindPackageSignature` (:99). After `2^23` rounds `addr` is where it began. -/
def FindPackageSignature (m : Memory) (startAddress endAddress : Nat) : Option (Option Nat) :=
  findFrom m endAddress (2 ^ 23) startAddress

def stringAt (m : Memory) : Nat → Nat → Name
  | 0, _ => []
  | bytes + 1, a => if m a = 0 then [] else m a :: stringAt m bytes (a + 1)

section

variable {σ H : Type} (d : FileCalls σ H)

/-- The loop over the items (:139), with so many to go. -/
def installItems (m : Memory) : Nat → Nat → Nat → σ → Bool × σ
  | 0, _, _, s => (true, s)
  | items + 1, pstItem, dwDataAddress, s =>
    match d.fopen s (stringAt m (2 ^ 32) pstItem) with
    | none => (false, s)
    | some (fp, s) =>
      let dwFileLength := read32 m (pstItem + MAXFILENAMELENGTH)
      let (written, s) := d.fwrite s fp (slice m dwDataAddress dwFileLength)
      if written ≠ dwFileLength then (false, d.fclose s fp)
      else installItems m items (pstItem + sizeofPACKAGEITEM) (u32 (dwDataAddress + dwFileLength)) (d.fclose s fp)

/-- `InstallPackage` (:117), of a kernel of `kernelSize` bytes at `kernelBase`. -/
def InstallPackage (m : Memory) (kernelBase kernelSize : Nat) (s : σ) : Option (Bool × σ) :=
  match FindPackageSignature m kernelBase (u32 (kernelBase + kernelSize)) with
  | none => none
  | some none => some (true, s)
  | some (some pstHeader) =>
    let dwHeaderSize := read32 m (pstHeader + sizeofSignature)
    let dwItemCount := sub32 dwHeaderSize sizeofPACKAGEHEADER / sizeofPACKAGEITEM
    some (installItems d m dwItemCount (pstHeader + sizeofPACKAGEHEADER) (u32 (pstHeader + dwHeaderSize)) s)

end

/-! ## What the calls are to do -/

/-- `contents` is the files of a disk with their bytes; `writing s fp name` says that `fp` is open at the end of the
file. -/
structure Specified {σ H : Type} (d : FileCalls σ H) (contents : σ → Name → Option (List UInt8))
    (writing : σ → H → Name → Prop) (room : σ → List Nat → Prop) : Prop where
  fopen : ∀ s name size sizes, name ≠ [] → 0 ∉ name → name.length < MAXFILENAMELENGTH → contents s name = none →
    room s (size :: sizes) → ∃ fp s', d.fopen s name = some (fp, s') ∧
      contents s' = Function.update (contents s) name (some []) ∧ writing s' fp name ∧ room s' (size :: sizes)
  fwrite : ∀ s fp name old bytes sizes, writing s fp name → contents s name = some old →
    room s (bytes.length :: sizes) → ∃ s', d.fwrite s fp bytes = (bytes.length, s') ∧
      contents s' = Function.update (contents s) name (some (old ++ bytes)) ∧ writing s' fp name ∧ room s' sizes
  fclose : ∀ s fp name sizes, writing s fp name → room s sizes →
    contents (d.fclose s fp) = contents s ∧ room (d.fclose s fp) sizes

def contentsOf (files : List PackageFile) (name : Name) : Option (List UInt8) :=
  (files.find? fun f => f.name = name).map PackageFile.content

/-! ## The search -/

theorem signature_eq : RamDiskAdaptor.PACKAGESIGNATURE.take sizeofSignature = PACKAGESIGNATURE := by decide

variable {m : Memory} {a : Nat}

variable {i zeros : Nat} {bytes kernel : List UInt8} {f : PackageFile}

theorem slice_of_holds {n : Nat} (h : Holds m a bytes) (hle : i + n ≤ bytes.length) :
    slice m (a + i) n = (bytes.drop i).take n := by
  have hsplit : bytes = bytes.take i ++ ((bytes.drop i).take n ++ (bytes.drop i).drop n) := by
    rw [take_append_drop, take_append_drop]
  rw [hsplit, holds_append, holds_append] at h
  have hmid := h.2.1
  unfold Holds at hmid
  rw [length_take, length_take, length_drop, Nat.min_eq_left (by omega), Nat.min_eq_left (by omega)] at hmid
  exact hmid

/-- No zero of the padding is part of a signature. -/
theorem signature_in_kernel
    (h : ((kernel ++ List.replicate zeros 0).drop i).take sizeofSignature = PACKAGESIGNATURE) :
    PACKAGESIGNATURE <+: kernel.drop i := by
  rw [drop_append, drop_replicate, take_append, take_replicate] at h
  generalize kernel.drop i = rest at h ⊢
  by_cases hshort : rest.length < sizeofSignature
  · have hlen := congrArg List.length h
    simp only [length_append, length_take, length_replicate] at hlen
    have hsig : PACKAGESIGNATURE.length = sizeofSignature := by decide
    have hzero : (0 : UInt8) ∈ PACKAGESIGNATURE := by
      rw [← h, mem_append, mem_replicate]
      exact .inr ⟨by omega, rfl⟩
    exact absurd hzero (by decide)
  · rw [Nat.sub_eq_zero_of_le (Nat.not_lt.1 hshort), Nat.zero_min, replicate_zero, append_nil] at h
    exact h ▸ take_prefix _ _

/-- **The search** ends at the header: no 512 bytes of the kernel begin with a signature. -/
theorem FindPackageSignature_eq {kernelBase endAddress : Nat} {rest : List UInt8}
    (hmem : Holds m kernelBase (kernel ++ List.replicate zeros 0 ++ (PACKAGESIGNATURE ++ rest)))
    (hlt : kernelBase + (kernel.length + zeros) < 2 ^ 32) (haligned : (kernel.length + zeros) % 512 = 0)
    (hkernel : ∀ j, ¬ PACKAGESIGNATURE <+: kernel.drop (512 * j))
    (hrange : kernelBase + (kernel.length + zeros) < endAddress) :
    FindPackageSignature m kernelBase endAddress = some (some (kernelBase + (kernel.length + zeros))) := by
  obtain ⟨sectors, hsectors⟩ := dvd_of_mod_eq_zero haligned
  obtain ⟨hbefore, hpackage⟩ := holds_append.1 hmem
  have hsignature := (holds_append.1 hpackage).1
  simp only [length_append, length_replicate] at hsignature
  -- so many sectors before the header, with rounds enough
  have hloop : ∀ n rounds, n ≤ sectors → n < rounds →
      findFrom m endAddress rounds (kernelBase + 512 * (sectors - n)) = some (some (kernelBase + 512 * sectors)) := by
    intro n
    induction n with
    | zero =>
      intro rounds _ hrounds
      obtain ⟨rounds, rfl⟩ := exists_eq_succ_of_ne_zero (Nat.ne_of_gt hrounds)
      rw [findFrom, Nat.sub_zero, if_pos (by omega), if_pos]
      rw [signature_eq, ← hsectors]
      exact hsignature
    | succ n ih =>
      intro rounds hn hrounds
      obtain ⟨rounds, rfl⟩ := exists_eq_add_one.2 (zero_lt_of_lt hrounds)
      rw [findFrom, if_pos (by omega), if_neg]
      · rw [u32_of_lt (by omega), show kernelBase + 512 * (sectors - (n + 1)) + 512 =
          kernelBase + 512 * (sectors - n) by omega]
        exact ih rounds (by omega) (by omega)
      · rw [signature_eq, slice_of_holds hbefore (by simp [sizeofSignature]; omega)]
        exact fun h => hkernel _ (signature_in_kernel h)
  have hall := hloop sectors (2 ^ 23) le_rfl (by omega)
  rw [Nat.sub_self, Nat.mul_zero, Nat.add_zero, ← hsectors] at hall
  exact hall

/-! ## The items -/

theorem stringAt_of_holds {bytes : Nat} {name : Name} (h : Holds m a name) (hend : m (a + name.length) = 0)
    (hname : (0 : UInt8) ∉ name) (hlen : name.length < bytes) : stringAt m bytes a = name := by
  induction name generalizing a bytes with
  | nil =>
    obtain ⟨bytes, rfl⟩ := exists_eq_succ_of_ne_zero (Nat.ne_of_gt hlen)
    exact if_pos hend
  | cons c name ih =>
    obtain ⟨bytes, rfl⟩ := exists_eq_add_one.2 (zero_lt_of_lt hlen)
    obtain ⟨hhead, htail⟩ := List.cons.inj h
    rw [mem_cons, not_or] at hname
    rw [length_cons, Nat.add_comm name.length, ← Nat.add_assoc] at hend
    rw [stringAt, hhead, if_neg (Ne.symm hname.1), ih htail hend hname.2 (lt_of_succ_lt_succ hlen)]

theorem item_of_holds (h : Holds m a f.item) :
    stringAt m (2 ^ 32) a = f.name ∧ read32 m (a + MAXFILENAMELENGTH) = u32 f.content.length := by
  have hfits := f.fits
  obtain ⟨hfield, hlength⟩ := holds_append.1 h
  obtain ⟨hname, hzeros⟩ := holds_append.1 hfield
  have hfill : f.name.length + (MAXFILENAMELENGTH - f.name.length) = MAXFILENAMELENGTH := by omega
  rw [length_append, length_replicate, hfill] at hlength
  refine ⟨stringAt_of_holds hname ?_ f.terminated ?_, read32_of_holds hlength (u32_lt _)⟩
  · obtain ⟨n, hn⟩ := exists_eq_succ_of_ne_zero (show MAXFILENAMELENGTH - f.name.length ≠ 0 by omega)
    rw [hn] at hzeros
    exact (List.cons.inj hzeros).1
  · unfold MAXFILENAMELENGTH at hfits
    omega

theorem length_flatMap_item (files : List PackageFile) :
    (files.flatMap PackageFile.item).length = files.length * sizeofPACKAGEITEM := by
  induction files with
  | nil => simp
  | cons f files ih => rw [flatMap_cons, length_append, f.length_item, ih, length_cons, succ_mul, Nat.add_comm]

theorem holds_u32 (h : Holds m a bytes) (hend : a + bytes.length ≤ 2 ^ 32) :
    Holds m (u32 a) bytes ∧ u32 a + bytes.length ≤ 2 ^ 32 := by
  by_cases ha : a < 2 ^ 32
  · rw [u32_of_lt ha]
    exact ⟨h, hend⟩
  · obtain rfl : bytes = [] := eq_nil_of_length_eq_zero (by omega)
    exact ⟨rfl, Nat.le_of_lt (u32_lt a)⟩

section

variable {σ H : Type} {d : FileCalls σ H} {contents : σ → Name → Option (List UInt8)} {writing : σ → H → Name → Prop}
  {room : σ → List Nat → Prop}

variable {s : σ}

theorem install_file (hspec : Specified d contents writing room) {sizes : List Nat}
    (hnew : contents s f.name = none) (hroom : room s (f.content.length :: sizes)) : ∃ fp s₁ s₂,
    d.fopen s f.name = some (fp, s₁) ∧ d.fwrite s₁ fp f.content = (f.content.length, s₂) ∧
      contents (d.fclose s₂ fp) = Function.update (contents s) f.name (some f.content) ∧ room (d.fclose s₂ fp) sizes := by
  obtain ⟨fp, s₁, hopen, hcontents₁, hwriting₁, hroom₁⟩ :=
    hspec.fopen s f.name _ sizes f.nonempty f.terminated f.fits hnew hroom
  have hempty : contents s₁ f.name = some [] := by rw [hcontents₁, Function.update_self]
  obtain ⟨s₂, hwrite, hcontents₂, hwriting₂, hroom₂⟩ := hspec.fwrite s₁ fp f.name [] f.content sizes hwriting₁ hempty hroom₁
  obtain ⟨hcontents₃, hroom₃⟩ := hspec.fclose s₂ fp f.name sizes hwriting₂ hroom₂
  refine ⟨fp, s₁, s₂, hopen, hwrite, ?_, hroom₃⟩
  rw [hcontents₃, hcontents₂, hcontents₁, Function.update_idem, nil_append]

theorem installItems_eq (hspec : Specified d contents writing room) (files : List PackageFile)
    {pstItem dwDataAddress : Nat} (hitems : Holds m pstItem (files.flatMap PackageFile.item))
    (hdata : Holds m dwDataAddress (files.flatMap PackageFile.content))
    (hend : dwDataAddress + (files.flatMap PackageFile.content).length ≤ 2 ^ 32)
    (hnames : (files.map PackageFile.name).Nodup) (hnew : ∀ f ∈ files, contents s f.name = none)
    (hroom : room s (files.map fun f => f.content.length)) (hlt : ∀ f ∈ files, f.content.length < 2 ^ 32) :
    ∃ s', installItems d m files.length pstItem dwDataAddress s = (true, s') ∧
      ∀ name, contents s' name = (contentsOf files name).or (contents s name) := by
  induction files generalizing pstItem dwDataAddress s with
  | nil => exact ⟨s, rfl, fun name => rfl⟩
  | cons f files ih =>
    rw [flatMap_cons] at hitems hdata hend
    rw [length_append] at hend
    obtain ⟨hitem, hitems⟩ := holds_append.1 hitems
    obtain ⟨hcontent, hdata⟩ := holds_append.1 hdata
    rw [f.length_item] at hitems
    obtain ⟨hname, hlength⟩ := item_of_holds hitem
    rw [u32_of_lt (hlt f mem_cons_self)] at hlength
    obtain ⟨fp, s₁, s₂, hopen, hwrite, hcontents, hroom'⟩ := install_file hspec (hnew f (.head _)) hroom
    rw [map_cons, nodup_cons] at hnames
    have hother : ∀ g ∈ files, g.name ≠ f.name := fun g hg heq => hnames.1 (heq ▸ mem_map_of_mem hg)
    have hdata' := holds_u32 hdata (by omega)
    obtain ⟨s', hinstall, hall⟩ := ih hitems hdata'.1 hdata'.2 hnames.2
      (fun g hg => by rw [hcontents, Function.update_of_ne (hother g hg)]; exact hnew g (mem_cons_of_mem f hg))
      hroom' (fun g hg => hlt g (mem_cons_of_mem f hg))
    refine ⟨s', ?_, fun name => ?_⟩
    · have hbytes : slice m dwDataAddress f.content.length = f.content := hcontent
      simp only [length_cons, installItems, hname, hopen, hlength, hbytes, hwrite, ne_eq, not_true, if_false]
      exact hinstall
    · rw [hall name, hcontents, contentsOf, contentsOf, List.find?_cons]
      by_cases heq : name = f.name
      · subst heq
        have hnone : files.find? (fun g => g.name = f.name) = none := by
          rw [List.find?_eq_none]
          intro g hg
          simpa using hother g hg
        simp [hnone]
      · have hne : ¬ f.name = name := fun h => heq h.symm
        simp [Function.update_of_ne heq, hne]

/-- **The package round trip**: whatever the kernel file (with no signature at a multiple of 512) and the files (with
distinct names), when what the packer has written lies in memory at the kernel base and the search comes to the header,
then the installer makes exactly the files, with their contents, on a disk that is empty and has space for them. -/
theorem installPackage_right (hspec : Specified d contents writing room) {source : Name → Option (List UInt8)}
    {program kernel : Name} {content image : List UInt8} {files : List PackageFile} (hkernel : source kernel = some content)
    (hfiles : ∀ f ∈ files, source f.name = some f.content) (hnames : (files.map PackageFile.name).Nodup)
    (hsignature : ∀ j, ¬ PACKAGESIGNATURE <+: content.drop (512 * j))
    (himage : main source (program :: kernel :: files.map PackageFile.name) = some image) {m : Memory}
    {kernelBase kernelSize : Nat} (hmem : Holds m kernelBase image) (hfits : kernelBase + image.length ≤ 2 ^ 32)
    (hrange : kernelBase + (content.length + padding content.length) < u32 (kernelBase + kernelSize)) {s : σ}
    (hempty : ∀ name, contents s name = none) (hroom : room s (files.map fun f => f.content.length)) :
    ∃ s', InstallPackage d m kernelBase kernelSize s = some (true, s') ∧ contents s' = contentsOf files := by
  obtain ⟨zeros, hmain⟩ := main_eq program hkernel hfiles
  obtain rfl := Option.some.inj (hmain.symm.trans himage)
  have hend := u32_lt (kernelBase + kernelSize)
  have hitemsLength : (files.flatMap PackageFile.item).length = files.length * sizeofPACKAGEITEM :=
    length_flatMap_item files
  have hsignatureLength : PACKAGESIGNATURE.length = 16 := rfl
  simp only [package, List.append_assoc] at hmem hfits
  rw [← List.append_assoc] at hmem
  -- the sizes, none of which is cut to 32 bits
  simp only [List.length_append, List.length_replicate, length_leBytes, hitemsLength, hsignatureLength] at hfits
  have hlt : sizeofPACKAGEHEADER + files.length * sizeofPACKAGEITEM < 2 ^ 32 := by
    unfold sizeofPACKAGEHEADER sizeofPACKAGEITEM at *
    omega
  rw [u32_of_lt hlt] at hmem
  have hfind := FindPackageSignature_eq hmem (by omega) (padding_dvd content.length) hsignature hrange
  -- the four parts of the package, from the header on
  obtain ⟨hsig, hmem⟩ := holds_append.1 (holds_append.1 hmem).2
  obtain ⟨hheader, hmem⟩ := holds_append.1 hmem
  obtain ⟨hitems, hmem⟩ := holds_append.1 hmem
  have hdata := (holds_append.1 hmem).1
  simp only [List.length_append, List.length_replicate, length_leBytes, hitemsLength,
    hsignatureLength] at hheader hitems hdata
  generalize hpst : kernelBase + (content.length + padding content.length) = pstHeader at *
  have hsize : read32 m (pstHeader + sizeofSignature) = sizeofPACKAGEHEADER + files.length * sizeofPACKAGEITEM :=
    read32_of_holds hheader hlt
  have hcount : sub32 (sizeofPACKAGEHEADER + files.length * sizeofPACKAGEITEM) sizeofPACKAGEHEADER / sizeofPACKAGEITEM
      = files.length := by
    rw [sub32_of_le (Nat.le_add_right _ _) hlt, Nat.add_sub_cancel_left]
    exact Nat.mul_div_cancel _ (by decide)
  have haddress : pstHeader + 16 + 4 + files.length * sizeofPACKAGEITEM
      = pstHeader + (sizeofPACKAGEHEADER + files.length * sizeofPACKAGEITEM) := by
    unfold sizeofPACKAGEHEADER
    omega
  rw [haddress] at hdata
  obtain ⟨hdata, hdataEnd⟩ := holds_u32 hdata (by unfold sizeofPACKAGEHEADER; omega)
  have hcontents : ∀ f ∈ files, f.content.length < 2 ^ 32 := fun f hf => by
    obtain ⟨pre, post, rfl⟩ := List.append_of_mem hf
    simp only [List.flatMap_append, List.flatMap_cons, List.length_append] at hfits
    omega
  obtain ⟨s', hinstall, hall⟩ := installItems_eq hspec files hitems hdata hdataEnd hnames (fun f _ => hempty f.name) hroom
    hcontents
  refine ⟨s', ?_, funext fun name => ?_⟩
  · simp only [InstallPackage, hfind, hsize, hcount]
    exact congrArg some hinstall
  · rw [hall name, hempty name, Option.or_none]

end

def memoryDisk : FileCalls (Name → Option (List UInt8)) Name where
  fopen s name := some (name, Function.update s name (some []))
  fwrite s fp bytes := (bytes.length, Function.update s fp ((s fp).map (· ++ bytes)))
  fclose s _ := s

theorem specified_memoryDisk : Specified memoryDisk id (fun _ fp name => fp = name) (fun _ _ => True) where
  fopen s name _ _ _ _ _ _ _ := ⟨name, _, rfl, rfl, rfl, trivial⟩
  fwrite s fp name old bytes _ hwriting hold _ := by
    subst hwriting
    refine ⟨_, rfl, ?_, rfl, trivial⟩
    rw [show s fp = some old from hold]
    rfl
  fclose s fp name _ _ _ := ⟨rfl, trivial⟩

/-- A kernel of two bytes, and two files, of which one is empty. -/
theorem installPackage_right_two :
    let files : List PackageFile := [⟨[0x61], [1, 2, 3], by decide, by decide, by decide⟩,
      ⟨[0x62], [], by decide, by decide, by decide⟩]
    let source : Name → Option (List UInt8) := fun name =>
      if name = [0x6B] then some [0x4D, 0x5A] else if name = [0x61] then some [1, 2, 3] else some []
    ∃ image s', main source ([0x70] :: [0x6B] :: files.map PackageFile.name) = some image ∧
      InstallPackage memoryDisk (ofList 0x100000 image) 0x100000 1024 (fun _ => none) = some (true, s') ∧
      s' = contentsOf files := by
  intro files source
  have hlength : (main source ([0x70] :: [0x6B] :: files.map PackageFile.name)).map List.length = some 1024 := by
    decide +kernel
  obtain ⟨image, himage, hlen⟩ := Option.map_eq_some_iff.1 hlength
  have hsignature : ∀ j, ¬ PACKAGESIGNATURE <+: ([0x4D, 0x5A] : List UInt8).drop (512 * j) := fun j hpre => by
    have hle := hpre.length_le
    rw [List.length_drop, show PACKAGESIGNATURE.length = 16 from rfl] at hle
    simp only [List.length_cons, List.length_nil] at hle
    omega
  have hkernel : source [0x6B] = some [0x4D, 0x5A] := by decide
  have hrange : 0x100000 + (([0x4D, 0x5A] : List UInt8).length + padding ([0x4D, 0x5A] : List UInt8).length)
      < u32 (0x100000 + 1024) := by decide
  obtain ⟨s', hinstall, hcontents⟩ := installPackage_right specified_memoryDisk hkernel (by decide) (by decide) hsignature
    himage (holds_ofList 0x100000 image) (by rw [hlen]; decide) hrange (fun _ => rfl) trivial
  exact ⟨image, s', himage, hinstall, hcontents⟩

end Package
