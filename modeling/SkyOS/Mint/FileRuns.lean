import SkyOS.Mint.OwnershipRuns
import SkyOS.Mint.Positions

/-!
# A file through its handle

What a handle is for: an array of bytes with a cursor. A call on the handle does to the file what the array operation
does (`kReadFile_stands`, `kWriteFile_stands`, `kSeekFile_stands`), as long as the number of bytes is the product of
`dwSize` and `dwCount` (which is computed in 32 bits), the end of a write is an offset, and there are clusters that
`kFindFreeCluster` can find.

| here | there |
| --- | --- |
| `Placed` | the handle `k` stands at `off` in the file of entry `i`, which has `size` bytes |
| `Stands` | it does, and no other handle is open |
| `target` | where `kSeekFile` is asked to go |
| `AtRest` | no handle is open, and the clusters and sizes are in order |
-/

namespace Mint

open Bytes Machine LinkChain

variable {s s' : State} {chain chain' : Nat → List Nat} {k i size off : Nat}

/-! ## The handle in its file -/

/-- No handle but `k` is open. -/
def OnlyOpen (s : State) (k : Nat) : Prop := ∀ j, j ≠ k → (s.manager.pstHandlePool j).bType ≠ .file

theorem OnlyOpen.setHandle (h : OnlyOpen s k) (file : MFile) : OnlyOpen (s.setHandle k file) k := by
  intro j hj
  unfold State.setHandle
  dsimp only
  rw [Function.update_of_ne hj]
  exact h j hj

structure Stands (s : State) (chain : Nat → List Nat) (k i size off : Nat) : Prop where
  sound : Sound s chain
  fits : Fits s chain
  used : Used s i
  sizeOf : s.sizeOf i = size
  off_le : off ≤ size
  handle : ∃ fh : FileHandle, s.manager.pstHandlePool k = ⟨.file, fh.placed (chain i) off⟩ ∧
    fh.iDirectoryEntryOffset = i ∧ fh.dwFileSize = size ∧ fh.dwStartClusterIndex = s.startOf i
  only : OnlyOpen s k

structure Placed (s : State) (chain : Nat → List Nat) (k i size off : Nat) : Prop where
  sound : Sound s chain
  fits : Fits s chain
  used : Used s i
  sizeOf : s.sizeOf i = size
  off_le : off ≤ size
  handle : ∃ fh : FileHandle, s.manager.pstHandlePool k = ⟨.file, fh.placed (chain i) off⟩ ∧
    fh.iDirectoryEntryOffset = i ∧ fh.dwFileSize = size ∧ fh.dwStartClusterIndex = s.startOf i

theorem Stands.placed (h : Stands s chain k i size off) : Placed s chain k i size off :=
  ⟨h.sound, h.fits, h.used, h.sizeOf, h.off_le, h.handle⟩

theorem Placed.stands (h : Placed s chain k i size off) (honly : OnlyOpen s k) : Stands s chain k i size off :=
  ⟨h.sound, h.fits, h.used, h.sizeOf, h.off_le, h.handle, honly⟩

theorem Placed.size_lt (h : Placed s chain k i size off) : size < 2 ^ 32 := by
  rw [← h.sizeOf]
  exact read32_lt _ _

theorem Placed.size_le (h : Placed s chain k i size off) : size ≤ FILESYSTEM_CLUSTERSIZE * (chain i).length := by
  rw [← h.sizeOf]
  exact h.fits i h.used

variable {fh : FileHandle} {iOffset iOrigin : Int}

theorem Sound.placed (h : Sound s chain) (hfits : Fits s chain) (hused : Used s i) (hsize : s.sizeOf i = size)
    (hle : off ≤ size) (hentry : fh.iDirectoryEntryOffset = i) (hfile : fh.dwFileSize = size)
    (hstart : fh.dwStartClusterIndex = s.startOf i) :
    Placed (s.setHandle k ⟨.file, fh.placed (chain i) off⟩) chain k i size off :=
  ⟨h.setHandle k _, hfits, hused, hsize, hle, ⟨fh, pool_setHandle s k _, hentry, hfile, hstart⟩⟩

/-- What a call through handle `k` on the file of entry `i` leaves alone: the other handles, and the other files. -/
structure Beside (s s' : State) (chain chain' : Nat → List Nat) (k i : Nat) : Prop where
  pool : ∀ j, j ≠ k → s'.manager.pstHandlePool j = s.manager.pstHandlePool j
  start : ∀ j < FILESYSTEM_MAXDIRECTORYENTRYCOUNT, s'.startOf j = s.startOf j
  other : ∀ j < FILESYSTEM_MAXDIRECTORYENTRYCOUNT, j ≠ i → s'.sizeOf j = s.sizeOf j ∧ chain' j = chain j

namespace Beside

theorem only (h : Beside s s' chain chain' k i) (honly : OnlyOpen s k) : OnlyOpen s' k := by
  intro j hj
  rw [h.pool j hj]
  exact honly j hj

theorem trans {s'' : State} {chain'' : Nat → List Nat} (h : Beside s s' chain chain' k i)
    (h' : Beside s' s'' chain' chain'' k i) : Beside s s'' chain chain'' k i := by
  refine ⟨fun j hj => (h'.pool j hj).trans (h.pool j hj), fun j hj => (h'.start j hj).trans (h.start j hj),
    fun j hj hji => ?_⟩
  obtain ⟨hsize, hchain⟩ := h.other j hj hji
  obtain ⟨hsize', hchain'⟩ := h'.other j hj hji
  exact ⟨hsize'.trans hsize, hchain'.trans hchain⟩

theorem setHandle (h : Beside s s' chain chain' k i) (file : MFile) :
    Beside s (s'.setHandle k file) chain chain' k i := by
  refine ⟨fun j hj => ?_, h.start, h.other⟩
  rw [← h.pool j hj]
  exact Function.update_of_ne hj _ _

end Beside

theorem Kept.beside (h : Kept s s') (hchain : ∀ j, j ≠ i → chain' j = chain j) (k : Nat) :
    Beside s s' chain chain' k i :=
  ⟨fun j _ => by rw [h.pool], fun _ hj => h.startOf hj, fun j hj hji => ⟨h.sizeOf hj, hchain j hji⟩⟩

/-! ## Reading -/

/-- **`kReadFile`** copies what is in the file from the cursor on; the number of bytes is computed in 32 bits. -/
theorem kReadFile_placed (h : Placed s chain k i size off) (pv : Memory) (dwSize dwCount : Nat) : ∃ pv' s',
    kReadFile s pv dwSize dwCount k = ((min (u32 (dwSize * dwCount)) (size - off), pv'), s') ∧
    Placed s' chain k i size (off + min (u32 (dwSize * dwCount)) (size - off)) ∧
    Beside s s' chain chain k i ∧ s'.sizeOf i = s.sizeOf i ∧
    s'.fileByte (chain i) = s.fileByte (chain i) ∧
    ∀ x < min (u32 (dwSize * dwCount)) (size - off), pv' x = s.fileByte (chain i) (off + x) := by
  obtain ⟨fh, hpool, hentry, hfile, hstart⟩ := h.handle
  have hsize_lt := h.size_lt
  have hsize_le := h.size_le
  have hoff := h.off_le
  unfold kReadFile
  rw [hpool]
  dsimp only
  rw [if_neg (by simp), show (fh.placed (chain i) off).dwCurrentOffset = off from rfl,
    show (fh.placed (chain i) off).dwFileSize = fh.dwFileSize from rfl, hfile]
  by_cases hdone : off = size ∨ (fh.placed (chain i) off).dwCurrentClusterIndex = FILESYSTEM_LASTCLUSTER
  · -- behind the last cluster there are no bytes of the file
    have hend : off = size := by
      rcases hdone with hend | hlast
      · exact hend
      · have hk : ¬ off / FILESYSTEM_CLUSTERSIZE < (chain i).length := fun hk =>
          h.sound.ne_last (h.sound.inUse_getD hk) hlast
        unfold FILESYSTEM_CLUSTERSIZE at hk hsize_le
        omega
    have hzero : min (u32 (dwSize * dwCount)) (size - off) = 0 := by omega
    rw [if_pos hdone, hzero]
    exact ⟨pv, s, rfl, h, (relinked_buffer h.sound.ready s.buffer).toKept.beside (fun _ _ => rfl) k, rfl, rfl, nofun⟩
  · rw [if_neg hdone, sub32_of_le hoff hsize_lt]
    have hle : min (u32 (dwSize * dwCount)) (size - off) ≤ size - off := Nat.min_le_right _ _
    generalize min (u32 (dwSize * dwCount)) (size - off) = n at hle ⊢
    obtain ⟨pv', s₁, hloop, h₁, hpv'⟩ := readLoop_placed fh h.sound h.used (Nat.zero_add n)
      (show off + n ≤ FILESYSTEM_CLUSTERSIZE * (chain i).length by omega) (by omega) (le_refl n) pv
    have hsound₁ := h.sound.kept h₁.toKept h₁.links
    have hbytes : s₁.fileByte (chain i) = s.fileByte (chain i) := by
      funext y
      rw [State.fileByte, h₁.bytes]
      rfl
    have hsize₁ := h₁.toKept.sizeOf h.used.1
    rw [hloop]
    refine ⟨pv', _, rfl, hsound₁.placed (h.fits.kept h₁.toKept) ((h₁.toKept.used i).2 h.used) (hsize₁.trans h.sizeOf)
      (by omega) hentry hfile (hstart.trans (h₁.toKept.startOf h.used.1).symm),
      (h₁.toKept.beside (fun _ _ => rfl) k).setHandle _, hsize₁, hbytes, fun x hx => ?_⟩
    rw [hpv', if_pos ⟨Nat.zero_le x, hx⟩, Nat.sub_zero]

variable {dwSize dwCount : Nat} {name : List UInt8}

theorem kReadFile_stands (h : Stands s chain k i size off) (pv : Memory)
    (hcount : dwSize * dwCount < 2 ^ 32 ∨ size - off ≤ u32 (dwSize * dwCount)) : ∃ pv' s',
      kReadFile s pv dwSize dwCount k = ((min (dwSize * dwCount) (size - off), pv'), s') ∧
      Stands s' chain k i size (off + min (dwSize * dwCount) (size - off)) ∧
      s'.fileByte (chain i) = s.fileByte (chain i) ∧
      (List.range (min (dwSize * dwCount) (size - off))).map pv'
        = (s.fileAt (chain i) size off).read (dwSize * dwCount) := by
  have htotal : min (u32 (dwSize * dwCount)) (size - off) = min (dwSize * dwCount) (size - off) := by
    rcases hcount with hlt | hle
    · rw [u32_of_lt hlt]
    · have hmod : u32 (dwSize * dwCount) ≤ dwSize * dwCount := Nat.mod_le _ _
      omega
  obtain ⟨pv', s', hread, hplaced, hbeside, -, hbytes, hpv'⟩ := kReadFile_placed h.placed pv dwSize dwCount
  rw [htotal] at hread hplaced hpv'
  refine ⟨pv', s', hread, hplaced.stands (hbeside.only h.only), hbytes, ?_⟩
  rw [State.fileAt, ArrayFile.read_map_range]
  exact List.map_congr_left fun x hx => hpv' x (List.mem_range.1 hx)

/-! ## Writing -/

theorem WritesOn.fits {n : Nat} {bytes : Nat → UInt8} (h : WritesOn s s' chain chain' i off n bytes)
    (hfits : Fits s chain) : Fits s' chain' := by
  intro j hj
  have hsize := hfits j ((h.toKept.used j).1 hj)
  rw [h.toKept.sizeOf hj.1]
  by_cases hji : j = i
  · subst hji
    exact Nat.le_trans hsize (Nat.mul_le_mul_left _ h.longer)
  · rw [h.others j hji]
    exact hsize

theorem updateSize_placed (h : Sound s chain) (hfits : Fits s chain) (hused : Used s i) (hsize : s.sizeOf i = size)
    (hentry : fh.iDirectoryEntryOffset = i) (hfile : fh.dwFileSize = size)
    (hstart : fh.dwStartClusterIndex = s.startOf i)
    (hroom : off ≤ FILESYSTEM_CLUSTERSIZE * (chain i).length) (hlt : off < 2 ^ 32) : ∃ s',
      updateSize s (fh.placed (chain i) off) = ({ fh with dwFileSize := max size off }.placed (chain i) off, s') ∧
      Placed (s'.setHandle k ⟨.file, { fh with dwFileSize := max size off }.placed (chain i) off⟩) chain k i
        (max size off) off ∧
      Beside s s' chain chain k i ∧ s'.freeCount = s.freeCount ∧
      ∀ x < FILESYSTEM_CLUSTERSIZE * (chain i).length, s'.fileByte (chain i) x = s.fileByte (chain i) x := by
  unfold updateSize
  rw [show (fh.placed (chain i) off).dwFileSize = fh.dwFileSize from rfl,
    show (fh.placed (chain i) off).dwCurrentOffset = off from rfl, hfile]
  by_cases hgrown : size < off
  · rw [if_pos hgrown, show max size off = off by omega]
    have hstart_lt : fh.dwStartClusterIndex < 2 ^ 32 := by
      rw [hstart]
      exact read32_lt _ _
    obtain ⟨e, s₁, hupdate, h₁, hword, hsize₁⟩ := kUpdateDirectoryEntry_entered h.ready
      (FileHandle.placed { fh with dwFileSize := off } (chain i) off) (by rw [← hentry] at hused; exact hused.1)
      hstart_lt
    change Entered s s₁ fh.iDirectoryEntryOffset e at h₁
    rw [hentry] at h₁
    obtain ⟨hsound₁, hsame₁⟩ := h.entered h₁ hused (hword.trans hstart)
    have hsize_i : s₁.sizeOf i = off := by
      rw [h₁.sizeOf, Function.update_self]
      exact hsize₁ hlt
    have hsize_other : ∀ j, j ≠ i → s₁.sizeOf j = s.sizeOf j := fun j hji => by
      rw [h₁.sizeOf, Function.update_of_ne hji]
    have hfits₁ : Fits s₁ chain := by
      intro j hj
      by_cases hji : j = i
      · subst hji
        rw [hsize_i]
        exact hroom
      · rw [hsize_other j hji]
        exact hfits j ((hsame₁.used j).1 hj)
    refine ⟨s₁, ?_, hsound₁.placed hfits₁ ((hsame₁.used i).2 hused) hsize_i (le_refl off) hentry rfl
      (hstart.trans (hsame₁.startOf i hused.1).symm),
      ⟨fun j _ => by rw [h₁.pool], hsame₁.startOf, fun j _ hji => ⟨hsize_other j hji, rfl⟩⟩,
      freeCount_same h₁.toSteady h₁.links, fun x hx => ?_⟩
    · change (FileHandle.placed { fh with dwFileSize := off } (chain i) off,
        (kUpdateDirectoryEntry s (FileHandle.placed { fh with dwFileSize := off } (chain i) off)).2) = _
      rw [hupdate]
    · have hk : x / FILESYSTEM_CLUSTERSIZE < (chain i).length := Nat.div_lt_of_lt_mul hx
      unfold State.fileByte
      rw [h₁.bytes _ (h.inUse_getD hk).1.1]
  · rw [if_neg hgrown, show max size off = size by omega]
    have hsame : ({ fh with dwFileSize := size } : FileHandle) = fh := by
      rw [← hfile]
    rw [hsame]
    exact ⟨s, rfl, h.placed hfits hused hsize (by omega) hentry hfile hstart,
      (relinked_buffer h.ready s.buffer).toKept.beside (fun _ _ => rfl) k, rfl, fun _ _ => rfl⟩

/-- **`kWriteFile`** puts `n` bytes into the file from the cursor on: all, or as many as there are clusters for. -/
theorem kWriteFile_placed (h : Placed s chain k i size off) (pv : Memory) (dwSize dwCount : Nat) (hsize : dwSize ≠ 0)
    (hlt : off + u32 (dwSize * dwCount) < 2 ^ 32) : ∃ n chain' s', n ≤ u32 (dwSize * dwCount) ∧
      kWriteFile s pv dwSize dwCount k = some (n / dwSize, s') ∧
      Placed s' chain' k i (max size (off + n)) (off + n) ∧ Beside s s' chain chain' k i ∧
      (chain' i).length + s'.freeCount = (chain i).length + s.freeCount ∧
      (n < u32 (dwSize * dwCount) → s'.freeCount = 0 ∧ off + n = FILESYSTEM_CLUSTERSIZE * (chain' i).length) ∧
      (off + n ≤ size → chain' i = chain i) ∧
      ∀ x < max size (off + n), s'.fileByte (chain' i) x =
        if off ≤ x ∧ x < off + n then pv (x - off) else s.fileByte (chain i) x := by
  obtain ⟨fh, hpool, hentry, hfile, hstart⟩ := h.handle
  have hsize_le := h.size_le
  have hoff := h.off_le
  unfold kWriteFile
  rw [hpool]
  dsimp only
  rw [if_neg (by simp)]
  generalize u32 (dwSize * dwCount) = total at hlt ⊢
  obtain ⟨n, chain₁, s₁, hn, hloop, h₁, hshort, hstays⟩ := writeLoop_until fh h.sound h.used (Nat.zero_add total)
    (show off ≤ FILESYSTEM_CLUSTERSIZE * (chain i).length by omega) hlt (le_refl total) pv
  rw [Nat.zero_add] at hloop
  have hsize₁ : s₁.sizeOf i = size := (h₁.toKept.sizeOf h.used.1).trans h.sizeOf
  obtain ⟨s₂, hupdate, hplaced, hbeside, hfree, hbytes⟩ := updateSize_placed (k := k) h₁.sound (h₁.fits h.fits)
    ((h₁.toKept.used i).2 h.used) hsize₁ hentry hfile (hstart.trans (h₁.toKept.startOf h.used.1).symm)
    h₁.room (show off + n < 2 ^ 32 by omega)
  have hlonger := h₁.longer
  have hroom₁ := h₁.room
  rw [hloop]
  dsimp only
  rw [hupdate]
  rw [if_neg hsize]
  refine ⟨n, chain₁, _, hn, rfl, hplaced, ((h₁.toKept.beside h₁.others k).trans hbeside).setHandle _, ?_,
    fun hlt => ⟨hfree.trans (hshort hlt).1, (hshort hlt).2⟩, fun hle => hstays (by omega), fun x hx => ?_⟩
  · rw [← h₁.free, ← hfree]
    rfl
  · have hcontent := h₁.content x (by unfold FILESYSTEM_CLUSTERSIZE at *; omega)
    rw [Nat.zero_add] at hcontent
    rw [← hcontent, ← hbytes x (by unfold FILESYSTEM_CLUSTERSIZE at *; omega)]
    rfl

theorem kWriteFile_stands (h : Stands s chain k i size off) (pv : Memory) (hsize : dwSize ≠ 0)
    (hlt : off + dwSize * dwCount < 2 ^ 32)
    (hroom : off + dwSize * dwCount ≤ FILESYSTEM_CLUSTERSIZE * ((chain i).length + s.freeCount)) : ∃ chain' s',
      kWriteFile s pv dwSize dwCount k = some (dwCount, s') ∧
      Stands s' chain' k i (max size (off + dwSize * dwCount)) (off + dwSize * dwCount) ∧
      s'.fileAt (chain' i) (max size (off + dwSize * dwCount)) (off + dwSize * dwCount)
        = (s.fileAt (chain i) size off).write ((List.range (dwSize * dwCount)).map pv) := by
  have htotal : u32 (dwSize * dwCount) = dwSize * dwCount := u32_of_lt (by omega)
  obtain ⟨n, chain', s', hn, hwrite, hplaced, hbeside, hfree, hshort, -, hbytes⟩ := kWriteFile_placed h.placed pv _ _ hsize
    (show off + u32 (dwSize * dwCount) < 2 ^ 32 by rw [htotal]; exact hlt)
  rw [htotal] at hn hshort
  obtain rfl : n = dwSize * dwCount := by
    by_contra hne
    obtain ⟨hnone, hend⟩ := hshort (by omega)
    rw [hnone, Nat.add_zero] at hfree
    rw [← hfree, ← hend] at hroom
    omega
  rw [Nat.mul_div_cancel_left _ (by omega)] at hwrite
  refine ⟨chain', s', hwrite, hplaced.stands (hbeside.only h.only), ?_⟩
  have hoff := h.off_le
  generalize dwSize * dwCount = n at hbytes ⊢
  have hcontent := ArrayFile.write_map_range (s.fileByte (chain i)) pv n hoff
  have hcursor : ((s.fileAt (chain i) size off).write ((List.range n).map pv)).cursor = off + n := by
    simp [ArrayFile.write, State.fileAt]
  have heq (file : ArrayFile UInt8) : file = ⟨file.content, file.cursor⟩ := rfl
  rw [heq ((s.fileAt (chain i) size off).write _), hcursor, State.fileAt, State.fileAt, hcontent]
  exact congrArg (fun content => (⟨content, off + n⟩ : ArrayFile UInt8))
    (List.map_congr_left fun x hx => hbytes x (List.mem_range.1 hx))

/-! ## Seeking -/

/-- Where `kSeekFile` is asked to go, in a file with so many bytes and the cursor at `off`. -/
def target (size off : Nat) (iOffset iOrigin : Int) : Nat :=
  if iOrigin = 0 then iOffset.toNat
  else if iOrigin = 1 then (off + iOffset).toNat
  else if iOrigin = 2 then (size + iOffset).toNat
  else 0

theorem moveFrom_eq {base : Nat} (hlow : -2 ^ 31 ≤ iOffset) (hhigh : iOffset < 2 ^ 31)
    (hlt : (base + iOffset).toNat < 2 ^ 32) : moveFrom base iOffset = (base + iOffset).toNat := by
  have hneg : u32 (-iOffset).toNat = (-iOffset).toNat := u32_of_lt (by omega)
  unfold moveFrom
  rw [hneg]
  split
  · omega
  · rw [Int.emod_eq_of_lt (by omega) (by omega)]

theorem realOffset_eq (hlow : -2 ^ 31 ≤ iOffset) (hhigh : iOffset < 2 ^ 31)
    (hlt : target fh.dwFileSize fh.dwCurrentOffset iOffset iOrigin < 2 ^ 32) :
    realOffset fh iOffset iOrigin = target fh.dwFileSize fh.dwCurrentOffset iOffset iOrigin := by
  unfold target at hlt ⊢
  unfold realOffset
  by_cases h0 : iOrigin = 0
  · rw [if_pos h0, if_pos h0]
    split <;> omega
  · rw [if_neg h0] at hlt
    rw [if_neg h0, if_neg h0]
    by_cases h1 : iOrigin = 1
    · rw [if_pos h1] at hlt
      rw [if_pos h1, if_pos h1]
      exact moveFrom_eq hlow hhigh hlt
    · rw [if_neg h1] at hlt
      rw [if_neg h1, if_neg h1]
      by_cases h2 : iOrigin = 2
      · rw [if_pos h2] at hlt
        rw [if_pos h2, if_pos h2]
        exact moveFrom_eq hlow hhigh hlt
      · rw [if_neg h2, if_neg h2]

theorem seekMoves_placed {fh : FileHandle} {l : List Nat} {dest : Nat} (hto : dest ≤ fh.dwFileSize)
    (hstart : fh.dwStartClusterIndex = l.getD 0 FILESYSTEM_LASTCLUSTER) : ∃ j n,
      seekMoves (fh.placed l off) dest = (n, l.getD j FILESYSTEM_LASTCLUSTER) ∧
      j + n = dest / FILESYSTEM_CLUSTERSIZE ∧ (j = off / FILESYSTEM_CLUSTERSIZE ∨ j = 0) := by
  have hle : dest / FILESYSTEM_CLUSTERSIZE ≤ fh.dwFileSize / FILESYSTEM_CLUSTERSIZE := Nat.div_le_div_right hto
  unfold seekMoves
  rw [show (fh.placed l off).dwFileSize = fh.dwFileSize from rfl,
    show (fh.placed l off).dwCurrentOffset = off from rfl]
  rw [if_neg (by omega)]
  by_cases hforward : off / FILESYSTEM_CLUSTERSIZE ≤ dest / FILESYSTEM_CLUSTERSIZE
  · rw [if_pos hforward]
    exact ⟨off / FILESYSTEM_CLUSTERSIZE, _, rfl, by omega, .inl rfl⟩
  · rw [if_neg hforward]
    exact ⟨0, _, congrArg (Prod.mk _) hstart, Nat.zero_add _, .inr rfl⟩

/-- **`kSeekFile`** goes to any place in the file. -/
theorem kSeekFile_placed (h : Placed s chain k i size off) {dest : Nat} (hto : dest ≤ size)
    (hreal : ∀ fh : FileHandle, fh.dwFileSize = size → fh.dwCurrentOffset = off → realOffset fh iOffset iOrigin = dest) :
    ∃ s', kSeekFile s k iOffset iOrigin = some (0, s') ∧ Placed s' chain k i size dest ∧
      Beside s s' chain chain k i ∧ s'.sizeOf i = s.sizeOf i ∧ s'.fileByte (chain i) = s.fileByte (chain i) := by
  obtain ⟨fh, hpool, hentry, hfile, hstart⟩ := h.handle
  have hsize_le := h.size_le
  have hreal' : realOffset (fh.placed (chain i) off) iOffset iOrigin = dest := hreal _ hfile rfl
  have hstart₀ : fh.dwStartClusterIndex = (chain i).getD 0 FILESYSTEM_LASTCLUSTER :=
    hstart.trans (h.sound.getD_zero h.used).symm
  have hdest : dest ≤ fh.dwFileSize := by
    rw [hfile]
    exact hto
  obtain ⟨j, n, hmoves, hjn, hfrom⟩ := @seekMoves_placed off fh (chain i) dest hdest hstart₀
  have hn : j + n ≤ (chain i).length := by
    rw [hjn]
    unfold FILESYSTEM_CLUSTERSIZE at hsize_le ⊢
    omega
  obtain ⟨p, s₁, hmove, h₁, hp⟩ := moveClusters_placed h.sound h.used hn 0
  have hsound₁ := h.sound.kept h₁.toKept h₁.links
  have hlast : FILESYSTEM_LASTCLUSTER ∉ chain i := fun hmem => h.sound.ne_last (h.sound.inUse_of_mem hmem) rfl
  have hplaced := placeHandle_placed hlast (h.sound.owns.chained i h.used).nodup (h.sound.length_pos h.used) hstart₀
    hjn hfrom hp
  have hsize₁ : (placeHandle (fh.placed (chain i) off) n ((chain i).getD j FILESYSTEM_LASTCLUSTER) p
      ((chain i).getD (j + n) FILESYSTEM_LASTCLUSTER)).dwFileSize = fh.dwFileSize := by
    unfold placeHandle
    split
    · rfl
    · split <;> rfl
  have hle : dest / FILESYSTEM_CLUSTERSIZE ≤ fh.dwFileSize / FILESYSTEM_CLUSTERSIZE := Nat.div_le_div_right hdest
  unfold kSeekFile
  rw [hpool]
  dsimp only
  rw [if_neg (by simp), hreal', hmoves]
  dsimp only
  rw [hmove]
  dsimp only
  rw [if_neg (by rw [hsize₁]; omega)]
  have hsize_same := h₁.toKept.sizeOf h.used.1
  refine ⟨s₁.setHandle k ⟨.file, fh.placed (chain i) dest⟩, by rw [← hplaced], hsound₁.placed (h.fits.kept h₁.toKept)
    ((h₁.toKept.used i).2 h.used) (hsize_same.trans h.sizeOf) hto hentry hfile
    (hstart.trans (h₁.toKept.startOf h.used.1).symm), (h₁.toKept.beside (fun _ _ => rfl) k).setHandle _, hsize_same, ?_⟩
  funext y
  rw [State.fileByte, State.fileByte, show (s₁.setHandle k _).byte = s₁.byte from rfl, h₁.bytes]

theorem kSeekFile_stands (h : Stands s chain k i size off) (hlow : -2 ^ 31 ≤ iOffset)
    (hhigh : iOffset < 2 ^ 31) (hto : target size off iOffset iOrigin ≤ size) : ∃ s',
      kSeekFile s k iOffset iOrigin = some (0, s') ∧
      Stands s' chain k i size (target size off iOffset iOrigin) ∧
      s'.fileByte (chain i) = s.fileByte (chain i) := by
  have hsize_lt := h.placed.size_lt
  obtain ⟨s', hseek, hplaced, hbeside, -, hbytes⟩ := kSeekFile_placed h.placed hto fun fh hfile hoff => by
    rw [← hfile, ← hoff]
    exact realOffset_eq hlow hhigh (by rw [hfile, hoff]; omega)
  exact ⟨s', hseek, hplaced.stands (hbeside.only h.only), hbytes⟩

/-! ## Opening, closing and removing -/

structure AtRest (s : State) : Prop where
  inOrder : ∃ chain, Sound s chain ∧ Fits s chain
  none : ∀ j, (s.manager.pstHandlePool j).bType ≠ .file

theorem newHandle_placed (h : Sound s chain) (hused : Used s i) {e : Memory} (hstart : read32 e 28 = s.startOf i) :
    newHandle i e = (newHandle i e).placed (chain i) 0 := by
  unfold FileHandle.placed
  rw [show (0 : Nat) / FILESYSTEM_CLUSTERSIZE = 0 from rfl, Nat.zero_sub, h.getD_zero hused, ← hstart]
  rfl

/-- **`kOpenFile`** on a volume at rest leaves its handle in the file, or the volume at rest. -/
theorem kOpenFile_stands (h : AtRest s) (hnul : 0 ∉ name) (mode : Char) (stEntry : Memory) :
    ∃ r s', kOpenFile s name mode stEntry = some (r, s') ∧
      (r = none → AtRest s') ∧
      ∀ k, r = some k → ∃ chain' i size, Stands s' chain' k i size (if mode = 'a' then size else 0) := by
  obtain ⟨⟨chain, hsound, hfits⟩, hnone⟩ := h
  unfold kOpenFile
  by_cases hname : badName name = true
  · rw [if_pos hname]
    refine ⟨none, s, rfl, fun _ => ⟨⟨chain, hsound, hfits⟩, hnone⟩, ?_⟩
    rintro k ⟨⟩
  · rw [if_neg hname]
    obtain ⟨o, s₁, hopen, ⟨chain₁, hsound₁, hfits₁⟩, hk₁, hspec⟩ :=
      openEntry_sound hsound (Bool.eq_false_of_not_eq_true hname) hnul mode stEntry
    have hnone₁ : ∀ j, (s₁.manager.pstHandlePool j).bType ≠ .file := by
      rw [hk₁.pool]
      exact hnone
    rw [hopen, Option.bind_some]
    cases o with
    | none =>
      refine ⟨none, s₁, rfl, fun _ => ⟨⟨chain₁, hsound₁, hfits₁ hfits⟩, hnone₁⟩, ?_⟩
      rintro k ⟨⟩
    | some entry =>
      obtain ⟨i, e⟩ := entry
      obtain ⟨hused, hstart, hsize⟩ := hspec i e rfl
      dsimp only
      cases halloc : kAllocateFileDirectoryHandle s₁ with
      | none =>
        refine ⟨none, s₁, rfl, fun _ => ⟨⟨chain₁, hsound₁, hfits₁ hfits⟩, hnone₁⟩, ?_⟩
        rintro k ⟨⟩
      | some allocated =>
        obtain ⟨k, s₂⟩ := allocated
        obtain ⟨k', -, heq⟩ := Option.map_eq_some_iff.1 halloc
        cases heq
        dsimp only
        rw [setHandle_setHandle, newHandle_placed hsound₁ hused hstart]
        have hstands := (hsound₁.placed (k := k) (hfits₁ hfits) hused hsize.symm (Nat.zero_le _)
          (show (newHandle i e).iDirectoryEntryOffset = i from rfl) rfl hstart).stands
          (OnlyOpen.setHandle (fun j _ => hnone₁ j) _)
        by_cases happend : mode = 'a'
        · rw [if_pos happend]
          have hend : target (read32 e 24) 0 0 2 = read32 e 24 := by
            unfold target
            rw [if_neg (by decide), if_neg (by decide), if_pos rfl]
            omega
          obtain ⟨s₃, hseek, h₃, -⟩ := kSeekFile_stands hstands (by decide) (by decide) (Nat.le_of_eq hend)
          rw [hseek]
          refine ⟨some k, s₃, rfl, nofun, ?_⟩
          rintro k' ⟨⟩
          rw [hend] at h₃
          exact ⟨_, _, _, by rwa [if_pos happend]⟩
        · rw [if_neg happend]
          refine ⟨some k, _, rfl, nofun, ?_⟩
          rintro k' ⟨⟩
          exact ⟨_, _, _, by rwa [if_neg happend]⟩

theorem kCloseFile_stands (h : Stands s chain k i size off) : AtRest (kCloseFile s k).2 := by
  obtain ⟨fh, hpool, -⟩ := h.handle
  unfold kCloseFile
  rw [hpool, if_neg (by simp)]
  refine ⟨⟨chain, h.sound.setHandle k _, h.fits⟩, fun j => ?_⟩
  by_cases hj : j = k
  · subst hj
    unfold kFreeFileDirectoryHandle
    rw [pool_setHandle]
    nofun
  · exact h.only.setHandle _ j hj

theorem kRemoveFile_atRest (h : AtRest s) (hnul : 0 ∉ name) (stEntry : Memory) : ∃ r s',
    kRemoveFile s name stEntry = some (r, s') ∧ AtRest s' := by
  obtain ⟨⟨chain, hsound, hfits⟩, hnone⟩ := h
  obtain ⟨r, s', hremove, ⟨chain', hsound', hfits'⟩, hk, -⟩ :=
    kRemoveFile_sound hsound (fun j hfile => absurd hfile (hnone j)) hnul stEntry
  refine ⟨r, s', hremove, ⟨chain', hsound', hfits' hfits⟩, ?_⟩
  rw [hk.pool]
  exact hnone

end Mint
