import SkyOS.Mint.OwnershipRuns
import SkyOS.Mint.Positions

/-!
# Opening that fails (`kOpenFile`, `:701-:814`)

`kOpenFile` makes or truncates the file before it asks for a handle. `kCreateFile` undoes what it has done when there
is no entry for the file (`:643`), but nobody undoes the whole of it when all handles are in use: the caller gets `NULL`,
and the new entry, or the loss of what was in the file, stays on the disk. `Harmless` is what has to hold of the name
and the directory for `NULL` to leave everything as it was.
-/

namespace Mint

open Bytes Machine Option

variable {s s' : State} {m : Manager}

/-! ## What every call keeps -/

/-- The volume that was mounted with `m`. -/
structure OnVolume (m : Manager) (s : State) : Prop where
  noFaults : s.faults = []
  manager : ∃ l pool, s.manager = { m with dwLastAllocatedClusterLinkSectorOffset := l, pstHandlePool := pool } ∧
    (0 < m.dwClusterLinkAreaSize → l < m.dwClusterLinkAreaSize)

theorem OnVolume.withDisk (h : OnVolume m s) (b d : Memory) : OnVolume m { s with buffer := b, disk := d } :=
  ⟨h.noFaults, h.manager⟩

theorem OnVolume.withBuffer (h : OnVolume m s) (b : Memory) : OnVolume m { s with buffer := b } :=
  ⟨h.noFaults, h.manager⟩

theorem OnVolume.setHandle (h : OnVolume m s) (k : Nat) (file : MFile) : OnVolume m (s.setHandle k file) := by
  obtain ⟨l, pool, hm, hl⟩ := h.manager
  refine ⟨h.noFaults, l, Function.update pool k file, ?_, hl⟩
  unfold State.setHandle
  rw [hm]

theorem OnVolume.readHDDSector (h : OnVolume m s) (l n : Nat) : OnVolume m (readHDDSector s l n).2 := by
  rw [readHDDSector_ok h.noFaults]
  exact h.withBuffer _

theorem OnVolume.writeHDDSector (h : OnVolume m s) (l n : Nat) : OnVolume m (writeHDDSector s l n).2 := by
  rw [writeHDDSector_ok h.noFaults]
  exact h.withDisk _ _

theorem OnVolume.of_eq {α : Type} {p : α × State} {a : α} (h : OnVolume m p.2) (he : p = (a, s')) : OnVolume m s' := by
  rwa [he] at h

section

variable (h : OnVolume m s)
include h

theorem OnVolume.findFreeFrom (l i rounds : Nat) : OnVolume m (findFreeFrom s l i rounds).2 := by
  induction rounds generalizing s i with
  | zero => exact h
  | succ rounds ih =>
    rw [Mint.findFreeFrom]
    split
    · rename_i s₁ hread
      exact (h.readHDDSector _ _).of_eq hread
    · rename_i s₁ hread
      have h₁ := (h.readHDDSector _ _).of_eq hread
      split
      · obtain ⟨l₁, pool, hm, hl⟩ := h.manager
        obtain ⟨l₂, pool₂, hm₂, hl₂⟩ := h₁.manager
        refine ⟨h₁.noFaults, u32 (l + i) % m.dwClusterLinkAreaSize, pool₂, ?_, fun hpos => Nat.mod_lt _ hpos⟩
        rw [hm₂, hm]
      · exact ih h₁ (i + 1)

theorem OnVolume.kFindFreeCluster : OnVolume m (kFindFreeCluster s).2 := by
  unfold Mint.kFindFreeCluster
  split
  · exact h.findFreeFrom _ _ _
  · exact h

theorem OnVolume.kSetClusterLinkData (c v : Nat) : OnVolume m (kSetClusterLinkData s c v).2 := by
  unfold Mint.kSetClusterLinkData
  split
  · split
    · rename_i s₁ hread
      exact (h.readHDDSector _ _).of_eq hread
    · rename_i s₁ hread
      exact (((h.readHDDSector _ _).of_eq hread).withBuffer _).writeHDDSector _ _
  · exact h

theorem OnVolume.kGetClusterLinkData (c : Nat) : OnVolume m (kGetClusterLinkData s c).2 := by
  obtain ⟨o, b, hget⟩ := kGetClusterLinkData_quiet h.noFaults c
  rw [hget]
  exact h.withBuffer b

theorem OnVolume.kFindFreeDirectoryEntry : OnVolume m (kFindFreeDirectoryEntry s).2 := by
  unfold Mint.kFindFreeDirectoryEntry
  split
  · split <;> rename_i s₁ hread <;> exact (h.readHDDSector _ _).of_eq hread
  · exact h

theorem OnVolume.kSetDirectoryEntryData (i : Nat) (e : Memory) :
    OnVolume m (kSetDirectoryEntryData s i e).2 := by
  unfold Mint.kSetDirectoryEntryData
  split
  · split
    · rename_i s₁ hread
      exact (h.readHDDSector _ _).of_eq hread
    · rename_i s₁ hread
      exact (((h.readHDDSector _ _).of_eq hread).withBuffer _).writeHDDSector _ _
  · exact h

theorem OnVolume.kGetDirectoryEntryData (i : Nat) (e : Memory) :
    OnVolume m (kGetDirectoryEntryData s i e).2 := by
  unfold Mint.kGetDirectoryEntryData
  split
  · split <;> rename_i s₁ hread <;> exact (h.readHDDSector _ _).of_eq hread
  · exact h

theorem OnVolume.kFindDirectoryEntry (name : List UInt8) (e : Memory) :
    OnVolume m (kFindDirectoryEntry s name e).2 := by
  unfold Mint.kFindDirectoryEntry
  split
  · split
    · rename_i s₁ hread
      exact (h.readHDDSector _ _).of_eq hread
    · rename_i s₁ hread
      have h₁ := (h.readHDDSector _ _).of_eq hread
      split <;> exact h₁
  · exact h

theorem OnVolume.kCreateFile (name : List UInt8) (e : Memory) :
    OnVolume m (kCreateFile s name e).2 := by
  have hfind := h.kFindFreeCluster
  unfold Mint.kCreateFile
  split
  rename_i a s₁ hs₁
  rw [hs₁] at hfind
  split
  · exact hfind
  · split
    · rename_i s₂ hset
      exact (hfind.kSetClusterLinkData _ _).of_eq hset
    · rename_i s₂ hset
      have h₂ := (hfind.kSetClusterLinkData _ _).of_eq hset
      split
      · rename_i s₃ hentry
        exact (h₂.kFindFreeDirectoryEntry.of_eq hentry).kSetClusterLinkData _ _
      · rename_i i s₃ hentry
        have h₃ := h₂.kFindFreeDirectoryEntry.of_eq hentry
        dsimp only
        split
        · rename_i s₄ hset₄
          exact ((h₃.kSetDirectoryEntryData _ _).of_eq hset₄).kSetClusterLinkData _ _
        · rename_i s₄ hset₄
          exact (h₃.kSetDirectoryEntryData _ _).of_eq hset₄

end

variable {rounds count : Nat} {stEntry : Memory}

theorem OnVolume.freeClusters (h : OnVolume m s) {c : Nat} {r : Bool × State}
    (hs : freeClusters s c rounds = some r) : OnVolume m r.2 := by
  induction rounds generalizing s c with
  | zero => cases hs
  | succ rounds ih =>
    rw [Mint.freeClusters] at hs
    split at hs
    · cases hs
      exact h
    · split at hs
      · rename_i s₁ hget
        cases hs
        exact (h.kGetClusterLinkData _).of_eq hget
      · rename_i next s₁ hget
        have h₁ := (h.kGetClusterLinkData _).of_eq hget
        split at hs
        · rename_i s₂ hset
          cases hs
          exact (h₁.kSetClusterLinkData _ _).of_eq hset
        · rename_i s₂ hset
          exact ih ((h₁.kSetClusterLinkData _ _).of_eq hset) hs

variable {i k : Nat} {e : Memory} {name : List UInt8} {mode : Char} {r : Option (Nat × Memory) × State}

theorem OnVolume.truncateFile (h : OnVolume m s) {r : Option Memory × State}
    (hs : truncateFile s i e = some r) : OnVolume m r.2 := by
  unfold Mint.truncateFile at hs
  split at hs
  · rename_i s₁ hget
    cases hs
    exact (h.kGetClusterLinkData _).of_eq hget
  · rename_i second s₁ hget
    have h₁ := (h.kGetClusterLinkData _).of_eq hget
    split at hs
    · rename_i s₂ hset
      cases hs
      exact (h₁.kSetClusterLinkData _ _).of_eq hset
    · rename_i s₂ hset
      have h₂ := (h₁.kSetClusterLinkData _ _).of_eq hset
      obtain ⟨⟨freed, s₃⟩, hfree, rfl⟩ := map_eq_some_iff.1 hs
      have h₃ := h₂.freeClusters hfree
      dsimp only
      split
      · split
        · rename_i s₄ hset₄
          exact (h₃.kSetDirectoryEntryData _ _).of_eq hset₄
        · rename_i s₄ hset₄
          exact (h₃.kSetDirectoryEntryData _ _).of_eq hset₄
      · exact h₃

theorem OnVolume.openEntry (h : OnVolume m s) (hs : openEntry s name mode e = some r) : OnVolume m r.2 := by
  have hfind := h.kFindDirectoryEntry name e
  unfold Mint.openEntry at hs
  split at hs
  · rename_i e₁ s₁ hs₁
    rw [hs₁] at hfind
    split at hs
    · cases hs
      exact hfind
    · cases hs
      exact hfind.kCreateFile name e₁
  · rename_i i e₁ s₁ hs₁
    rw [hs₁] at hfind
    split at hs
    · obtain ⟨r₁, htruncate, rfl⟩ := map_eq_some_iff.1 hs
      exact hfind.truncateFile htruncate
    · cases hs
      exact hfind

/-! ## Writing and seeking -/

section

variable (h : OnVolume m s)
include h

theorem OnVolume.nextCluster (fh : FileHandle) : OnVolume m (nextCluster s fh).2.2 := by
  unfold Mint.nextCluster
  split
  · split <;> rename_i hget <;> exact (h.kGetClusterLinkData _).of_eq hget
  · exact h

theorem OnVolume.prepareCluster (fh : FileHandle) (n : Nat) :
    OnVolume m (prepareCluster s fh n).2.2 := by
  have hfind := h.kFindFreeCluster
  unfold Mint.prepareCluster
  split
  · split
    rename_i a s₁ hs₁
    rw [hs₁] at hfind
    split
    · exact hfind
    · split
      · rename_i s₂ hset
        exact (hfind.kSetClusterLinkData _ _).of_eq hset
      · rename_i s₂ hset
        have h₂ := (hfind.kSetClusterLinkData _ _).of_eq hset
        split
        · rename_i s₃ hlink
          exact ((h₂.kSetClusterLinkData _ _).of_eq hlink).kSetClusterLinkData _ _
        · rename_i s₃ hlink
          exact ((h₂.kSetClusterLinkData _ _).of_eq hlink).withBuffer _
  · split
    · split
      rename_i ok s₁ hread
      exact (h.readHDDSector _ _).of_eq hread
    · exact h

theorem OnVolume.writeRound (fh : FileHandle) (pv : Memory) (total count : Nat) :
    OnVolume m (writeRound s fh pv total count).2.2.2 := by
  have hprepare := h.prepareCluster fh (total - count)
  unfold Mint.writeRound
  split
  · rename_i fh₁ s₁ hs₁
    rwa [hs₁] at hprepare
  · rename_i fh₁ s₁ hs₁
    rw [hs₁] at hprepare
    dsimp only
    split
    · rename_i s₂ hwrite
      exact ((hprepare.withBuffer _).writeHDDSector _ _).of_eq hwrite
    · rename_i s₂ hwrite
      have h₂ := ((hprepare.withBuffer _).writeHDDSector _ _).of_eq hwrite
      exact h₂.nextCluster _

theorem OnVolume.writeLoop (fh : FileHandle) (pv : Memory) (total rounds count : Nat) :
    OnVolume m (writeLoop pv total rounds s fh count).2.2 := by
  induction rounds generalizing s fh count with
  | zero => exact h
  | succ rounds ih =>
    rw [Mint.writeLoop]
    split
    · exact h
    · have hround := h.writeRound fh pv total count
      split
      · rename_i result hs₁
        rwa [hs₁] at hround
      · rename_i count₁ fh₁ s₁ hs₁
        rw [hs₁] at hround
        exact ih hround fh₁ count₁

theorem OnVolume.updateSize (fh : FileHandle) : OnVolume m (updateSize s fh).2 := by
  unfold Mint.updateSize
  split
  · unfold kUpdateDirectoryEntry
    dsimp only
    split
    · rename_i hget
      exact (h.kGetDirectoryEntryData _ _).of_eq hget
    · rename_i hget
      exact ((h.kGetDirectoryEntryData _ _).of_eq hget).kSetDirectoryEntryData _ _
  · exact h

theorem OnVolume.kWriteFile {pv : Memory} {size n : Nat}
    (hs : kWriteFile s pv size count k = some (n, s')) : OnVolume m s' := by
  cases kWriteFile_cases hs with
  | closed => exact h
  | stored count₁ fh₁ fh₂ s₁ s₂ hfile hloop hupdate =>
    have h₁ := h.writeLoop (s.manager.pstHandlePool k).stFileHandle pv (u32 (size * count)) (u32 (size * count)) 0
    rw [hloop] at h₁
    exact ((h₁.updateSize fh₁).of_eq hupdate).setHandle k _

theorem OnVolume.writeZeros {zeroed : Bool}
    (hs : writeZeros k rounds s count = some (zeroed, s')) : OnVolume m s' := by
  induction rounds generalizing s count with
  | zero =>
    cases hs
    exact h
  | succ rounds ih =>
    rw [Mint.writeZeros] at hs
    split at hs
    · cases hs
      exact h
    · obtain ⟨⟨written, s₁⟩, hwrite, hs⟩ := bind_eq_some_iff.1 hs
      have h₁ := h.kWriteFile hwrite
      dsimp only at hs
      split at hs
      · exact ih h₁ hs
      · cases hs
        exact h₁

theorem OnVolume.moveClusters (p c n : Nat) : OnVolume m (moveClusters s p c n).2 := by
  induction n generalizing s p c with
  | zero => exact h
  | succ n ih =>
    rw [Mint.moveClusters]
    split
    · rename_i hget
      exact (h.kGetClusterLinkData _).of_eq hget
    · rename_i hget
      exact ih ((h.kGetClusterLinkData _).of_eq hget) c _

theorem OnVolume.kSeekFile {iOffset iOrigin r : Int}
    (hs : kSeekFile s k iOffset iOrigin = some (r, s')) : OnVolume m s' := by
  cases kSeekFile_cases hs with
  | closed => exact h
  | lost _ hmove => exact (h.moveClusters _ _ _).of_eq hmove
  | within p c s₁ hfile hext hmove => exact ((h.moveClusters _ _ _).of_eq hmove).setHandle k _
  | beyond p c s₁ s₂ zeroed hfile hext hmove hzero =>
    have h₂ := (((h.moveClusters _ _ _).of_eq hmove).setHandle k _).writeZeros hzero
    split
    · exact h₂.setHandle k _
    · exact h₂

end

/-! ## Calls -/

theorem OnVolume.kOpenFile (h : OnVolume m s) {r : Option Nat}
    (hs : kOpenFile s name mode e = some (r, s')) : OnVolume m s' := by
  cases kOpenFile_cases hs with
  | badName => exact h
  | noHandle o _ hname hopen => exact h.openEntry hopen
  | atStart i e₁ s₁ k hname hopen hk =>
    have h₁ := h.openEntry hopen
    exact h₁.setHandle k _
  | atEnd i e₁ s₁ k r₁ _ hname hopen hk hseek =>
    have h₁ := h.openEntry hopen
    exact (h₁.setHandle k _).kSeekFile hseek

theorem OnVolume.kRemoveFile (h : OnVolume m s) {r : Int}
    (hs : kRemoveFile s name e = some (r, s')) : OnVolume m s' := by
  have hfind := h.kFindDirectoryEntry name e
  unfold Mint.kRemoveFile at hs
  split at hs
  · cases hs
    exact h
  · split at hs
    · rename_i hs₁
      cases hs
      rwa [hs₁] at hfind
    · rename_i i e₁ s₁ hs₁
      rw [hs₁] at hfind
      split at hs
      · cases hs
        exact hfind
      · obtain ⟨⟨freed, s₂⟩, hfree, hs⟩ := map_eq_some_iff.1 hs
        have h₂ := hfind.freeClusters hfree
        dsimp only at hs
        split at hs
        · split at hs <;> rename_i hset <;> cases hs <;> exact (h₂.kSetDirectoryEntryData _ _).of_eq hset
        · cases hs
          exact h₂

theorem call_onVolume (h : OnVolume m s) {call : Call} (hs : s.call call = some s') : OnVolume m s' := by
  cases call with
  | kOpenFile name mode stEntry =>
    obtain ⟨⟨r, s₁⟩, hopen, rfl⟩ := map_eq_some_iff.1 hs
    exact h.kOpenFile hopen
  | kWriteFile pvBuffer dwSize dwCount k =>
    obtain ⟨⟨r, s₁⟩, hwrite, rfl⟩ := map_eq_some_iff.1 hs
    exact h.kWriteFile hwrite
  | kSeekFile k iOffset iOrigin =>
    obtain ⟨⟨r, s₁⟩, hseek, rfl⟩ := map_eq_some_iff.1 hs
    exact h.kSeekFile hseek
  | kCloseFile k =>
    cases hs
    unfold kCloseFile
    split
    · exact h
    · exact h.setHandle k _
  | kRemoveFile name stEntry =>
    obtain ⟨⟨r, s₁⟩, hremove, rfl⟩ := map_eq_some_iff.1 hs
    exact h.kRemoveFile hremove

theorem OnVolume.laid (h : OnVolume m s) (hm : Laid m) : Laid s.manager := by
  obtain ⟨l, pool, heq, -⟩ := h.manager
  rw [heq]
  exact ⟨hm.mounted, hm.area, hm.fits⟩

theorem OnVolume.ready (h : OnVolume m s) (hm : Geometry m) : Ready s := by
  obtain ⟨l, pool, heq, hl⟩ := h.manager
  obtain ⟨mounted, area, cover, tight, fits, last, pos⟩ := hm
  refine ⟨?_, h.noFaults⟩
  rw [heq]
  exact ⟨mounted, area, cover, tight, fits, hl (by omega), pos⟩

/-- **A mounted volume stays mounted**, whatever the calls have made of what is on it. -/
theorem reach_onVolume (h : fileSystem.Reach s) :
    ∃ m, Laid m ∧ (Geometry m ∨ m.dwClusterLinkAreaSize = 0) ∧ OnVolume m s := by
  refine h.invariant (fun s => ∃ m, Laid m ∧ (Geometry m ∨ m.dwClusterLinkAreaSize = 0) ∧ OnVolume m s) ?_ ?_
  · rintro s ⟨disk, buffer, T, hT, hT', rfl⟩
    obtain ⟨hfits, hcover, htight⟩ := formatGeometry_spec hT hT'
    obtain ⟨-, -, -, hready⟩ := boot_empty disk buffer hT hT'
    rcases hLN : formatGeometry T with ⟨L, N⟩
    obtain ⟨b, d, hboot, -⟩ := boot_spec disk buffer hT hT' hLN
    rw [hLN] at hfits hcover htight
    rw [hboot] at hready ⊢
    refine ⟨⟨true, 0, 1, L, L + 1, N, 0, fun _ => ⟨.free, ⟨0, 0, 0, 0, 0, 0⟩⟩⟩,
      ⟨rfl, Nat.add_comm L 1, show L + 1 < 2 ^ 32 by omega⟩, ?_, rfl, 0, _, rfl, id⟩
    rcases Nat.eq_zero_or_pos N with rfl | hpos
    · exact .inr (show L = 0 by omega)
    · exact .inl (hready hpos).1.geometry
  · rintro s call s' ⟨m, hm, hsize, hon⟩ hs
    exact ⟨m, hm, hsize, call_onVolume hon hs⟩

/-! ## What a failed call should leave alone -/

/-- The root directory, the contents of the files, and which clusters are free. -/
structure Unchanged (s s' : State) : Prop where
  root : ∀ x < FILESYSTEM_CLUSTERSIZE, s'.byte 0 x = s.byte 0 x
  contents : ∀ i, Used s i → ∀ x < s.sizeOf i, s'.fileByte (s'.chainOf i) x = s.fileByte (s.chainOf i) x
  free : ∀ c < s.manager.dwTotalClusterCount, s'.link c = FILESYSTEM_FREECLUSTER ↔ s.link c = FILESYSTEM_FREECLUSTER

/-- There is a cluster that the search finds, and an entry without a file. -/
def HasPlace (s : State) : Prop :=
  (∃ c < s.manager.dwTotalClusterCount, Findable s c) ∧ ∃ i < FILESYSTEM_MAXDIRECTORYENTRYCOUNT, s.startOf i = 0

/-- Nothing is made or lost before the handle is asked for: the name is not found and no file is made, or it is found and
the file is not truncated, or there is nothing in it, and it has one cluster only. -/
def Harmless (s : State) (name : List UInt8) (mode : Char) (stEntry : Memory) : Prop :=
  badName name ∨ match (kFindDirectoryEntry s name stEntry).1.1 with
    | none => mode = 'r' ∨ ¬HasPlace s
    | some i => mode = 'w' → s.sizeOf i = 0 ∧ s.link (s.startOf i) = FILESYSTEM_LASTCLUSTER

theorem chainFrom_congr (hlink : s'.link = s.link) (cells c : Nat) : s'.chainFrom cells c = s.chainFrom cells c := by
  induction cells generalizing c with
  | zero => rfl
  | succ cells ih => rw [State.chainFrom, State.chainFrom, ih, hlink]

theorem unchanged_of_disk (h : OnVolume m s) (h' : OnVolume m s') (hdisk : s'.disk = s.disk) : Unchanged s s' := by
  obtain ⟨l, pool, hm, -⟩ := h.manager
  obtain ⟨l', pool', hm', -⟩ := h'.manager
  have hlink : s'.link = s.link := by
    funext c
    unfold State.link
    rw [hdisk, hm', hm]
    rfl
  have hbyte : s'.byte = s.byte := by
    funext c x
    unfold State.byte
    rw [hdisk, hm', hm]
    rfl
  have hstart : s'.startOf = s.startOf := by
    funext i
    unfold State.startOf
    rw [hdisk, hm', hm]
    rfl
  have hchain : s'.chainOf = s.chainOf := by
    funext i
    unfold State.chainOf
    rw [chainFrom_congr hlink, hstart, hm', hm]
  refine ⟨fun x _ => by rw [hbyte], fun i _ x _ => ?_, fun c _ => by rw [hlink]⟩
  unfold State.fileByte
  rw [hbyte, hchain]

/-! ## Making and truncating -/

/-- **`kCreateFile` makes a file or undoes all it has done.** -/
theorem kCreateFile_atomic (h : Ready s) (name : List UInt8) (stEntry : Memory) :
    (HasPlace s ∧ ∃ r s' a, kCreateFile s name stEntry = (some r, s') ∧ a < s.manager.dwTotalClusterCount ∧
      s.link a = FILESYSTEM_FREECLUSTER ∧ s'.link a ≠ FILESYSTEM_FREECLUSTER) ∨
    (¬HasPlace s ∧ ∃ s', kCreateFile s name stEntry = (none, s') ∧ s'.disk = s.disk) := by
  obtain ⟨a, b₁, l, hfind, hl, hcases⟩ := kFindFreeCluster_spec h
  unfold kCreateFile
  rw [hfind]
  dsimp only
  rcases hcases with ⟨ha, hfound⟩ | ⟨rfl, hnone⟩
  · have hfree : s.link a = FILESYSTEM_FREECLUSTER := hfound.1
    have h₁ : Relinked s { s with
        buffer := b₁
        manager := { s.manager with dwLastAllocatedClusterLinkSectorOffset := l } } s.link := by
      refine ⟨⟨⟨h.noFaults, l, hl, rfl⟩, fun x _ _ => rfl⟩, fun c _ => ?_, ?_⟩ <;> rfl
    have hr₁ := h₁.ready h
    obtain ⟨b₂, hset₂⟩ := kSetClusterLinkData_spec hr₁ ha FILESYSTEM_LASTCLUSTER
    obtain ⟨s₂, hset₂', h₂⟩ := kSetClusterLinkData_relinked (v := FILESYSTEM_LASTCLUSTER) hr₁
      (show a < _ from ha) (by decide)
    rw [if_neg (Nat.ne_of_lt (h.geometry.lt_last ha)), hset₂']
    rw [hset₂] at hset₂'
    obtain rfl := (Prod.mk.inj hset₂').2.symm
    have hr₂ := h₂.ready hr₁
    have hk := h₁.toKept.trans h₂.toKept
    have hentry := kFindFreeDirectoryEntry_none hr₂
    obtain ⟨o, b₃, hfind₃, hi⟩ := kFindFreeDirectoryEntry_spec hr₂
    dsimp only
    rw [hfind₃] at hentry ⊢
    cases o with
    | none =>
      refine .inr ⟨?_, ?_⟩
      · rintro ⟨-, i, hi128, h0⟩
        exact hentry.1 rfl i hi128 ((hk.startOf hi128).trans h0)
      · -- the cluster is given back
        obtain ⟨b₄, hset₄⟩ := kSetClusterLinkData_spec (hr₂.withBuffer b₃) ha FILESYSTEM_FREECLUSTER
        dsimp only
        refine ⟨_, rfl, ?_⟩
        rw [hset₄]
        refine (write32_write32 _ _ _ _).trans ?_
        rw [← hfree]
        exact write32_read32 s.disk _
    | some i =>
      obtain ⟨hi128, hunused⟩ := hi i rfl
      have hr₃ := hr₂.withBuffer b₃
      refine .inl ⟨⟨⟨a, ha, hfound⟩, i, hi128, (hk.startOf hi128).symm.trans hunused⟩, ?_⟩
      obtain ⟨s₄, hset₄, hentered⟩ := kSetDirectoryEntryData_entered hr₃ hi128
        (write32 (write32 (putName stEntry name) 28 a) 24 0)
      dsimp only
      rw [hset₄]
      refine ⟨_, s₄, a, rfl, ha, hfree, ?_⟩
      rw [hentered.links a (by exact ha)]
      refine ne_of_eq_of_ne (h₂.links a ha) ?_
      rw [Function.update_self]
      decide
  · rw [if_pos rfl]
    refine .inr ⟨?_, _, rfl, rfl⟩
    rintro ⟨⟨c, hc, hfound⟩, -⟩
    exact hnone c hc hfound

theorem kCreateFile_noClusters (hsize : s.manager.dwClusterLinkAreaSize = 0) (name : List UInt8) (stEntry : Memory) :
    kCreateFile s name stEntry = (none, s) := by
  have hfind : kFindFreeCluster s = (FILESYSTEM_LASTCLUSTER, s) := by
    unfold kFindFreeCluster
    rw [hsize]
    split <;> rfl
  unfold kCreateFile
  rw [hfind]
  rfl

theorem freeClusters_last (s : State) : kFreeClusterUntilEnd s FILESYSTEM_LASTCLUSTER = some (true, s) := by
  obtain ⟨rounds, hrounds⟩ : ∃ rounds, loopRounds = rounds + 1 := ⟨2 ^ 33 - 1, rfl⟩
  rw [kFreeClusterUntilEnd, hrounds, freeClusters]
  exact if_pos rfl

theorem truncateFile_empty (h : Laid s.manager) (hfaults : s.faults = [])
    (hi : i < FILESYSTEM_MAXDIRECTORYENTRYCOUNT) (he : EntryAt s i e) (hsize : s.sizeOf i = 0)
    (hlink : s.link (s.startOf i) = FILESYSTEM_LASTCLUSTER) {r : Option Memory × State}
    (hs : truncateFile s i e = some r) : r.2.disk = s.disk := by
  unfold truncateFile at hs
  rw [he.start] at hs
  by_cases hc : s.startOf i / 128 ≤ s.manager.dwClusterLinkAreaSize
  · obtain ⟨b₁, hget⟩ := kGetClusterLinkData_readable h hfaults hc
    obtain ⟨b₂, hset⟩ := kSetClusterLinkData_readable (s := { s with buffer := b₁ }) h hfaults hc FILESYSTEM_LASTCLUSTER
    have hdisk : write32 s.disk (s.manager.linkAddress (s.startOf i)) FILESYSTEM_LASTCLUSTER = s.disk := by
      rw [← hlink]
      exact write32_read32 s.disk _
    obtain ⟨b₃, hentry⟩ := kSetDirectoryEntryData_laid (s := { s with buffer := b₂ }) h hfaults hi (write32 e 24 0)
    have hword : write32 e 24 0 = e := by
      rw [← hsize, ← he.size]
      exact write32_read32 e 24
    rw [hget, hlink] at hs
    dsimp only at hs
    rw [hset] at hs
    dsimp only at hs
    rw [hdisk, freeClusters_last] at hs
    dsimp only [map_some] at hs
    rw [if_pos rfl, hentry] at hs
    cases hs
    rw [hword]
    exact copy_same he
  · rw [kGetClusterLinkData_unreadable (Nat.lt_of_not_le hc)] at hs
    cases hs
    rfl

/-! ## Opening -/

theorem openEntry_harmless (hl : Laid s.manager) (hfaults : s.faults = [])
    (hgeometry : Ready s ∨ s.manager.dwClusterLinkAreaSize = 0)
    (hname : badName name = false) (hharmless : Harmless s name mode stEntry)
    (hs : openEntry s name mode stEntry = some r) : r.2.disk = s.disk := by
  obtain ⟨o, e, b, hfind, hspec⟩ := kFindDirectoryEntry_laid hl hfaults name stEntry
  unfold openEntry at hs
  unfold Harmless at hharmless
  rw [hname] at hharmless
  rw [hfind] at hs hharmless
  have hharmless := hharmless.resolve_left Bool.false_ne_true
  cases o with
  | none =>
    dsimp only at hs hharmless
    split at hs
    · cases hs
      rfl
    · rename_i hmode
      have hnoplace := hharmless.resolve_left hmode
      cases hs
      rcases hgeometry with hready | hsize
      · rcases kCreateFile_atomic (hready.withBuffer b) name e with ⟨hplace, -⟩ | ⟨-, s', hcreate, hdisk⟩
        · exact absurd hplace hnoplace
        · rw [hcreate]
          exact hdisk
      · rw [kCreateFile_noClusters (by exact hsize)]
  | some i =>
    obtain ⟨hi, he, -⟩ := hspec i rfl
    dsimp only at hs hharmless
    split at hs
    · rename_i hmode
      obtain ⟨hsize, hlink⟩ := hharmless hmode
      obtain ⟨r₁, htruncate, rfl⟩ := map_eq_some_iff.1 hs
      exact truncateFile_empty (s := { s with buffer := b }) hl hfaults hi he hsize hlink htruncate
    · cases hs
      rfl

theorem Unchanged.sizeOf (h : Unchanged s s') (hk : Steady s s') (hi : i < FILESYSTEM_MAXDIRECTORYENTRYCOUNT) :
    s'.sizeOf i = s.sizeOf i := by
  unfold State.sizeOf
  rw [hk.entryAddress]
  unfold FILESYSTEM_MAXDIRECTORYENTRYCOUNT at hi
  refine read32_congr fun x hx => ?_
  have hlow := hx.1
  have hhigh := hx.2
  rw [entryAddress_eq] at hlow hhigh
  have hbyte := h.root (x - s.manager.clusterAddress 0) (by unfold FILESYSTEM_CLUSTERSIZE; omega)
  unfold State.byte at hbyte
  rw [hk.clusterAddress, Nat.add_sub_cancel' (by omega)] at hbyte
  exact hbyte

theorem openEntry_unchanged {chain : Nat → List Nat} (h : Sound s chain) (hname : badName name = false) (hnul : 0 ∉ name)
    (hs : openEntry s name mode stEntry = some r) (hsame : Unchanged s r.2) : Harmless s name mode stEntry := by
  obtain ⟨o, e, b, hfind, hused⟩ := h.find hname hnul stEntry
  have h₁ := relinked_buffer h.ready b
  have hsound₁ := h.kept h₁.toKept h₁.links
  unfold openEntry at hs
  unfold Harmless
  rw [hfind] at hs ⊢
  refine .inr ?_
  cases o with
  | none =>
    dsimp only at hs ⊢
    split at hs
    · rename_i hmode
      exact .inl hmode
    · refine .inr fun hplace => ?_
      cases hs
      rcases kCreateFile_atomic hsound₁.ready name e with ⟨-, i, s', a, hcreate, ha, hfree, htaken⟩ | ⟨hnoplace, -⟩
      · rw [hcreate] at hsame
        exact htaken ((hsame.free a ha).2 hfree)
      · exact hnoplace hplace
  | some i =>
    obtain ⟨hi, he⟩ := hused i rfl
    dsimp only at hs ⊢
    intro hmode
    rw [if_pos hmode] at hs
    obtain ⟨rest, t, s', hrest, ht, hset, htruncate⟩ := truncateFile_spec hsound₁ (show Used _ i from hi) he
    rw [htruncate] at hs
    cases hs
    have hentered := Entered.of_run (ht.ready hsound₁.ready) hi.1 hset
    have hk := h₁.toSteady.trans (ht.toSteady.trans hentered.toSteady)
    have hsize : s'.sizeOf i = 0 := by
      rw [hentered.sizeOf, Function.update_self]
      exact read32_write32_self _ _ (by decide)
    refine ⟨(hsame.sizeOf hk hi.1).symm.trans hsize, ?_⟩
    obtain ⟨rest', hcons, hlast⟩ := h.chain_cons hi
    cases rest' with
    | nil => exact hlast
    | cons c rest' =>
      -- the second cluster was in use, and it is free now
      have hmem : c ∈ rest := by
        have heq : s.startOf i :: rest = s.startOf i :: c :: rest' := hrest.symm.trans hcons
        rw [(List.cons.inj heq).2]
        exact .head _
      have hc : InUse s c := h.inUse_of_mem (by rw [hcons]; exact List.mem_cons_of_mem _ List.mem_cons_self)
      have hfreed : s'.link c = FILESYSTEM_FREECLUSTER := by
        rw [hentered.links c (by rw [ht.total]; exact hc.1.2), ht.links c hc.1.2, if_pos hmem]
      exact absurd ((hsame.free c hc.1.2).1 hfreed) hc.2

/-- **When a failed open leaves everything as it was.** On every volume, if it is `Harmless`; and where the chains are
in order, only then. -/
theorem failed_open_unchanged (h : fileSystem.Reach s) (name : FileName) (mode : Char) (stEntry : Memory)
    (hnull : kOpenFile s name.chars mode stEntry = some (none, s')) :
    (Harmless s name.chars mode stEntry → Unchanged s s') ∧
    ((∃ chain, Sound s chain) → Unchanged s s' → Harmless s name.chars mode stEntry) := by
  obtain ⟨m, hm, hgeometry, hon⟩ := reach_onVolume h
  have hready : Ready s ∨ s.manager.dwClusterLinkAreaSize = 0 := by
    refine hgeometry.imp hon.ready fun hsize => ?_
    obtain ⟨l, pool, heq, -⟩ := hon.manager
    rw [heq]
    exact hsize
  cases kOpenFile_cases hnull with
  | badName hbad => exact ⟨fun _ => unchanged_of_disk hon hon rfl, fun _ _ => .inl hbad⟩
  | noHandle o _ hname hopen =>
    constructor
    · intro hharmless
      exact unchanged_of_disk hon (hon.kOpenFile hnull)
        (openEntry_harmless (hon.laid hm) hon.noFaults hready hname hharmless hopen)
    · rintro ⟨chain, hsound⟩ hsame
      exact openEntry_unchanged hsound hname name.noNul hopen hsame

/-- A name that is not there, opened for reading. -/
theorem failed_open_unchanged_missing : ∃ s', kOpenFile (boot (fun _ => 0) (fun _ => 0) 40) [97] 'r' (fun _ => 0) =
    some (none, s') ∧ Unchanged (boot (fun _ => 0) (fun _ => 0) 40) s' := by
  have hrun : (kOpenFile (boot (fun _ => 0) (fun _ => 0) 40) [97] 'r' fun _ => 0).map Prod.fst = some none := by
    decide +kernel
  have hmissing : (kFindDirectoryEntry (boot (fun _ => 0) (fun _ => 0) 40) [97] fun _ => 0).1.1 = none := by
    decide +kernel
  obtain ⟨⟨r, s'⟩, hopen, rfl⟩ := Option.map_eq_some_iff.1 hrun
  refine ⟨s', hopen, (failed_open_unchanged (boot_init _ _ (by decide) (by decide)) ⟨[97], by decide⟩ 'r' (fun _ => 0)
    hopen).1 (.inr ?_)⟩
  rw [hmissing]
  exact .inl rfl

/-- **No handle is left.** With 30 handles open, a new name takes cluster 2 and gets an entry, and `NULL` is returned. -/
theorem failed_open_makes_file : ¬ ∀ s, fileSystem.Reach s →
    ∀ (name : FileName) (mode : Char) (stEntry : Memory) (s' : State),
    kOpenFile s name.chars mode stEntry = some (none, s') → Unchanged s s' := by
  intro h
  let start : State := boot (fun _ => 0) (fun _ => 0) 40
  let a : FileName := ⟨[97], by decide⟩
  let calls : List Call := .kOpenFile a 'w' (fun _ => 0) :: List.replicate 29 (.kOpenFile a 'r' fun _ => 0)
  have hrun : (fileSystem.exec start calls).bind (fun s => (kOpenFile s [98] 'w' fun _ => 0).map fun r => decide
      (r.1 = none ∧ 2 < s.manager.dwTotalClusterCount ∧ s.link 2 = FILESYSTEM_FREECLUSTER ∧
        r.2.link 2 = FILESYSTEM_LASTCLUSTER)) = some true := by decide +kernel
  obtain ⟨s, hs, hrun⟩ := Option.bind_eq_some_iff.1 hrun
  obtain ⟨⟨r, s'⟩, hopen, hfacts⟩ := Option.map_eq_some_iff.1 hrun
  obtain ⟨rfl, hlt, hfree, htaken⟩ := of_decide_eq_true hfacts
  have hsame := h s (StepSystem.reach_exec calls (boot_init _ _ (by decide) (by decide)) hs) ⟨[98], by decide⟩ 'w'
    (fun _ => 0) s' hopen
  have hstill := (hsame.free 2 hlt).2 hfree
  rw [htaken] at hstill
  revert hstill
  decide

end Mint
