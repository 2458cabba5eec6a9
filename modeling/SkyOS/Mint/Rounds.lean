import SkyOS.Lib.Chain
import SkyOS.Mint.Files
import SkyOS.Mint.Sectors

/-!
# What one round of a loop over a file does

A call on a file is made of operations that change the link table (`Relinked`), one directory entry (`Entered`), or one
cluster (`Rewritten`), and leave the rest of the volume alone (`Steady`, `Kept`). The round of `kWriteFile` is described
completely by the cluster it writes to (`WritesTo`), its links and its bytes: where the handle stands at the end of the
chain, that is a free cluster, linked behind the previous one and full of zeros.
-/

namespace Mint

open Bytes Machine LinkChain

variable {s s' s'' : State}

/-! ## What is kept -/

structure Steady (s s' : State) : Prop where
  noFaults : s'.faults = []
  manager : ∃ l < s.manager.dwClusterLinkAreaSize, s'.manager =
    { s.manager with dwLastAllocatedClusterLinkSectorOffset := l }

namespace Steady

section

variable (h : Steady s s')
include h

theorem ready (hs : Ready s) : Ready s' := by
  obtain ⟨l, hl, hm⟩ := h.manager
  obtain ⟨⟨mounted, area, cover, tight, fits, last, pos⟩, -⟩ := hs
  refine ⟨?_, h.noFaults⟩
  rw [hm]
  exact ⟨mounted, area, cover, tight, fits, hl, pos⟩

theorem total : s'.manager.dwTotalClusterCount = s.manager.dwTotalClusterCount := by
  obtain ⟨l, -, hm⟩ := h.manager
  rw [hm]

theorem pool : s'.manager.pstHandlePool = s.manager.pstHandlePool := by
  obtain ⟨l, -, hm⟩ := h.manager
  rw [hm]

theorem clusterAddress : s'.manager.clusterAddress = s.manager.clusterAddress := by
  obtain ⟨l, -, hm⟩ := h.manager
  rw [hm]
  rfl

theorem entryAddress : s'.manager.entryAddress = s.manager.entryAddress := by
  obtain ⟨l, -, hm⟩ := h.manager
  rw [hm]
  rfl

theorem trans (h' : Steady s' s'') : Steady s s'' := by
  obtain ⟨l, hl, hm⟩ := h.manager
  obtain ⟨l', hl', hm'⟩ := h'.manager
  rw [hm] at hm' hl'
  exact ⟨h'.noFaults, l', hl', hm'⟩

end

end Steady

structure Kept (s s' : State) : Prop extends Steady s s' where
  directory : ∀ x, 512 * s.manager.dwDataAreaStartAddress ≤ x → x < s.manager.clusterAddress 1 → s'.disk x = s.disk x

variable {i c : Nat} {f g : Nat → Nat} {content : Nat → UInt8} {fh : FileHandle}

namespace Kept

theorem word (h : Kept s s') {x : Nat} (hi : i < FILESYSTEM_MAXDIRECTORYENTRYCOUNT) (hx : x + 4 ≤ 32) :
    read32 s'.disk (s'.manager.entryAddress i + x) = read32 s.disk (s.manager.entryAddress i + x) := by
  have hlt := entry_lt s.manager hi
  have hlow : 512 * s.manager.dwDataAreaStartAddress ≤ s.manager.entryAddress i := by
    unfold Manager.entryAddress
    omega
  rw [h.entryAddress]
  exact read32_congr fun y hy => h.directory y (by have := hy.1; omega) (by have := hy.2; omega)

section

variable (h : Kept s s') (hi : i < FILESYSTEM_MAXDIRECTORYENTRYCOUNT)
include h hi

theorem startOf : s'.startOf i = s.startOf i :=
  h.word hi (by omega)

theorem sizeOf : s'.sizeOf i = s.sizeOf i :=
  h.word hi (by omega)

theorem initialOf :
    s'.initialOf i = s.initialOf i := by
  have hlt := entry_lt s.manager hi
  unfold State.initialOf
  rw [h.entryAddress]
  refine h.directory _ ?_ (by omega)
  unfold Manager.entryAddress
  omega

end

theorem trans (h : Kept s s') (h' : Kept s' s'') : Kept s s'' := by
  have hdir := h'.directory
  rw [h.clusterAddress] at hdir
  obtain ⟨l, -, hm⟩ := h.manager
  rw [hm] at hdir
  refine ⟨h.toSteady.trans h'.toSteady, fun x hx hx' => ?_⟩
  rw [hdir x hx hx', h.directory x hx hx']

end Kept

theorem kept_of_disk (h : Ready s) (b d : Memory) (hd : ∀ x, 512 * s.manager.dwDataAreaStartAddress ≤ x →
    x < s.manager.clusterAddress 1 → d x = s.disk x) : Kept s { s with buffer := b, disk := d } :=
  ⟨⟨h.noFaults, _, h.geometry.last, rfl⟩, hd⟩

/-! ## Directory entries -/

/-- Entry `i` is `stEntry`, and links and data are as before. -/
structure Entered (s s' : State) (i : Nat) (stEntry : Memory) : Prop extends Steady s s' where
  links : ∀ c < s.manager.dwTotalClusterCount, s'.link c = s.link c
  startOf : s'.startOf = Function.update s.startOf i (read32 stEntry 28)
  sizeOf : s'.sizeOf = Function.update s.sizeOf i (read32 stEntry 24)
  initialOf : s'.initialOf = Function.update s.initialOf i (stEntry 0)
  bytes : ∀ c, c ≠ 0 → s'.byte c = s.byte c

theorem kSetDirectoryEntryData_entered (h : Ready s) (hi : i < FILESYSTEM_MAXDIRECTORYENTRYCOUNT)
    (stEntry : Memory) : ∃ s', kSetDirectoryEntryData s i stEntry = (true, s') ∧ Entered s s' i stEntry := by
  obtain ⟨b, hb⟩ := kSetDirectoryEntryData_spec h hi stEntry
  exact ⟨_, hb, ⟨h.noFaults, _, h.geometry.last, rfl⟩, fun c hc => link_setEntry h.geometry i hc,
    startOf_setEntry i, sizeOf_setEntry i, initialOf_setEntry i, fun c hc => byte_setEntry hi hc⟩

theorem Entered.of_run (h : Ready s) (hi : i < FILESYSTEM_MAXDIRECTORYENTRYCOUNT) {stEntry : Memory}
    (hs : kSetDirectoryEntryData s i stEntry = (true, s')) : Entered s s' i stEntry := by
  obtain ⟨t, ht, hentered⟩ := kSetDirectoryEntryData_entered h hi stEntry
  rw [ht] at hs
  cases hs
  exact hentered

theorem kUpdateDirectoryEntry_entered (h : Ready s) (fh : FileHandle)
    (hi : fh.iDirectoryEntryOffset < FILESYSTEM_MAXDIRECTORYENTRYCOUNT) (hstart : fh.dwStartClusterIndex < 2 ^ 32) :
    ∃ e s', kUpdateDirectoryEntry s fh = (true, s') ∧ Entered s s' fh.iDirectoryEntryOffset e ∧
      read32 e 28 = fh.dwStartClusterIndex ∧ (fh.dwFileSize < 2 ^ 32 → read32 e 24 = fh.dwFileSize) := by
  obtain ⟨e, b, hget, -⟩ := kGetDirectoryEntryData_spec h hi fun _ => 0
  obtain ⟨s', hset, hs'⟩ := kSetDirectoryEntryData_entered (h.withBuffer b) hi
    (write32 (write32 e 24 fh.dwFileSize) 28 fh.dwStartClusterIndex)
  refine ⟨_, s', ?_, ⟨⟨hs'.noFaults, hs'.manager⟩, hs'.links, hs'.startOf, hs'.sizeOf, hs'.initialOf, hs'.bytes⟩,
    read32_write32_self _ _ hstart, fun hsize => ?_⟩
  · unfold kUpdateDirectoryEntry
    rw [hget]
    exact hset
  · rw [read32_write32_of_disjoint _ (by omega), read32_write32_self _ _ hsize]

/-! ## The link table -/

/-- The link table is `link` on the clusters, and the data is as before. -/
structure Relinked (s s' : State) (link : Nat → Nat) : Prop extends Kept s s' where
  links : ∀ c < s.manager.dwTotalClusterCount, s'.link c = link c
  bytes : s'.byte = s.byte

theorem Relinked.trans (h : Relinked s s' f) (h' : Relinked s' s'' g) : Relinked s s'' g := by
  refine ⟨h.toKept.trans h'.toKept, fun c hc => ?_, h'.bytes.trans h.bytes⟩
  exact h'.links c (by rwa [h.total])

theorem Relinked.congr (h : Relinked s s' f)
    (hfg : ∀ c < s.manager.dwTotalClusterCount, g c = f c) : Relinked s s' g :=
  ⟨h.toKept, fun c hc => (h.links c hc).trans (hfg c hc).symm, h.bytes⟩

theorem relinked_buffer (h : Ready s) (b : Memory) : Relinked s { s with buffer := b } s.link := by
  refine ⟨kept_of_disk h b s.disk fun x _ _ => rfl, fun c _ => ?_, ?_⟩ <;> rfl

theorem kGetClusterLinkData_relinked (h : Ready s) (hc : c < s.manager.dwTotalClusterCount) :
    ∃ s', kGetClusterLinkData s c = (some (s.link c), s') ∧ Relinked s s' s.link := by
  obtain ⟨b, hb⟩ := kGetClusterLinkData_spec h hc
  exact ⟨_, hb, relinked_buffer h b⟩

theorem kSetClusterLinkData_relinked (h : Ready s) {v : Nat} (hc : c < s.manager.dwTotalClusterCount)
    (hv : v < 2 ^ 32) : ∃ s', kSetClusterLinkData s c v = (true, s') ∧
      Relinked s s' (Function.update s.link c v) := by
  obtain ⟨b, hb⟩ := kSetClusterLinkData_spec h hc v
  refine ⟨_, hb, kept_of_disk h b _ fun x hx _ => disk_setLink h.geometry hc hx, fun x _ => ?_,
    byte_setLink h.geometry hc⟩
  rw [link_setLink hv]

theorem kFindFreeCluster_relinked (h : Ready s) : ∃ a s', kFindFreeCluster s = (a, s') ∧ Relinked s s' s.link ∧
    ((a < s.manager.dwTotalClusterCount ∧ Findable s a) ∨
     (a = FILESYSTEM_LASTCLUSTER ∧ ∀ c < s.manager.dwTotalClusterCount, ¬ Findable s c)) := by
  obtain ⟨a, b, l, hfind, hl, hcases⟩ := kFindFreeCluster_spec h
  refine ⟨a, _, hfind, ⟨⟨⟨h.noFaults, l, hl, rfl⟩, fun x _ _ => rfl⟩, fun c _ => ?_, ?_⟩, hcases⟩ <;> rfl

theorem Geometry.lt_last {m : Manager} (h : Geometry m) (hc : c < m.dwTotalClusterCount) :
    c < FILESYSTEM_LASTCLUSTER := by
  have hfits := h.fits
  unfold FILESYSTEM_LASTCLUSTER
  omega

/-- **Releasing a chain ends**, and frees the clusters of the chain and no others. -/
theorem freeClusters_relinked {rounds : Nat} {l : List Nat} (h : Ready s)
    (hchain : Chain s.link FILESYSTEM_LASTCLUSTER c l) (hl : ∀ x ∈ l, x < s.manager.dwTotalClusterCount)
    (hrounds : l.length < rounds) : ∃ s', freeClusters s c rounds = some (true, s') ∧
      Relinked s s' (fun x => if x ∈ l then FILESYSTEM_FREECLUSTER else s.link x) := by
  induction l generalizing s c rounds with
  | nil =>
    obtain ⟨rounds, rfl⟩ := Nat.exists_eq_add_of_lt hrounds
    refine ⟨s, ?_, (relinked_buffer h s.buffer).congr fun x _ => if_neg List.not_mem_nil⟩
    rw [freeClusters]
    exact if_pos hchain
  | cons x l ih =>
    obtain ⟨rounds, rfl⟩ := Nat.exists_eq_succ_of_ne_zero (show rounds ≠ 0 by omega)
    have hxl := (List.nodup_cons.1 hchain.nodup).1
    obtain ⟨rfl, hx, hrest⟩ := hchain
    have hxt := hl c (.head _)
    obtain ⟨s₁, hget, h₁⟩ := kGetClusterLinkData_relinked h hxt
    have hr₁ := h₁.ready h
    obtain ⟨s₂, hset, h₂⟩ := kSetClusterLinkData_relinked (v := FILESYSTEM_FREECLUSTER) hr₁
      (show c < s₁.manager.dwTotalClusterCount by rwa [h₁.total]) (by decide)
    have hr₂ := h₂.ready hr₁
    have h₀₂ := h₁.trans h₂
    -- the links of the rest are not touched by freeing its predecessor
    have hrest₂ : Chain s₂.link FILESYSTEM_LASTCLUSTER (s.link c) l := hrest.congr fun y hy => by
      have hyt := hl y (List.mem_cons_of_mem c hy)
      have hyc : y ≠ c := by
        rintro rfl
        exact hxl hy
      rw [h₀₂.links y hyt, Function.update_of_ne hyc, h₁.links y hyt]
    obtain ⟨s₃, hfree, h₃⟩ := ih hr₂ hrest₂
      (fun y hy => by rw [h₀₂.total]; exact hl y (List.mem_cons_of_mem c hy)) (Nat.lt_of_succ_lt_succ hrounds)
    refine ⟨s₃, ?_, (h₀₂.trans h₃).congr fun y hy => ?_⟩
    · rw [freeClusters, if_neg hx, hget]
      dsimp only
      rw [hset]
      exact hfree
    · by_cases hyc : y = c
      · subst hyc
        rw [if_pos List.mem_cons_self, if_neg hxl, h₀₂.links y hy, Function.update_self]
      · by_cases hyl : y ∈ l
        · rw [if_pos (List.mem_cons_of_mem c hyl), if_pos hyl]
        · rw [if_neg (by simp [hyc, hyl]), if_neg hyl, h₀₂.links y hy, Function.update_of_ne hyc, h₁.links y hy]

/-! ## The position of a handle -/

/-- After a round the handle goes on to the next cluster, if it is at the end of one (:884, :1040). -/
def FileHandle.advance (link : Nat → Nat) (fh : FileHandle) (dwCopySize : Nat) : FileHandle :=
  let dwCurrentOffset := u32 (fh.dwCurrentOffset + dwCopySize)
  if dwCurrentOffset % FILESYSTEM_CLUSTERSIZE = 0 then
    { fh with
      dwCurrentOffset := dwCurrentOffset
      dwPreviousClusterIndex := fh.dwCurrentClusterIndex
      dwCurrentClusterIndex := link fh.dwCurrentClusterIndex }
  else { fh with dwCurrentOffset := dwCurrentOffset }

theorem nextCluster_spec (h : Ready s) (fh : FileHandle) (n : Nat)
    (hc : fh.dwCurrentClusterIndex < s.manager.dwTotalClusterCount) : ∃ s',
      nextCluster s { fh with dwCurrentOffset := u32 (fh.dwCurrentOffset + n) } = (true, fh.advance s.link n, s') ∧
      Relinked s s' s.link := by
  unfold nextCluster FileHandle.advance
  dsimp only
  split
  · obtain ⟨s', hget, hs'⟩ := kGetClusterLinkData_relinked h hc
    rw [hget]
    exact ⟨s', rfl, hs'⟩
  · exact ⟨s, rfl, relinked_buffer h s.buffer⟩

def copySize (fh : FileHandle) (dwRemainCount : Nat) : Nat :=
  min (FILESYSTEM_CLUSTERSIZE - fh.dwCurrentOffset % FILESYSTEM_CLUSTERSIZE) dwRemainCount

theorem copySize_le (fh : FileHandle) (n : Nat) :
    fh.dwCurrentOffset % FILESYSTEM_CLUSTERSIZE + copySize fh n ≤ FILESYSTEM_CLUSTERSIZE := by
  unfold copySize FILESYSTEM_CLUSTERSIZE
  omega

/-! ## Reading -/

/-- **A round of `kReadFile`** copies the bytes of the current cluster from the offset on. -/
theorem readRound_spec (h : Ready s) {fh : FileHandle}
    (hc : fh.dwCurrentClusterIndex < s.manager.dwTotalClusterCount) (pv : Memory) {total count : Nat} : ∃ pv' s',
      readRound s fh pv total count = (true, pv', count + copySize fh (total - count),
        fh.advance s.link (copySize fh (total - count)), s') ∧
      Relinked s s' s.link ∧
      ∀ x, pv' x = if count ≤ x ∧ x < count + copySize fh (total - count) then
        s.byte fh.dwCurrentClusterIndex (fh.dwCurrentOffset % FILESYSTEM_CLUSTERSIZE + (x - count)) else pv x := by
  have hle := copySize_le fh (total - count)
  unfold readRound
  rw [kReadCluster_spec h hc]
  dsimp only
  obtain ⟨s', hnext, hs'⟩ := nextCluster_spec
    (h.withBuffer (copy s.buffer 0 s.disk (s.manager.clusterAddress fh.dwCurrentClusterIndex) 4096)) fh
    (copySize fh (total - count)) hc
  rw [show min (FILESYSTEM_CLUSTERSIZE - fh.dwCurrentOffset % FILESYSTEM_CLUSTERSIZE) (total - count) =
    copySize fh (total - count) from rfl, hnext]
  refine ⟨_, s', rfl, (relinked_buffer h _).trans hs', fun x => ?_⟩
  unfold FILESYSTEM_CLUSTERSIZE at hle ⊢
  split
  · rename_i hx
    rw [copy_inside _ _ _ hx.1 hx.2, copy_inside _ _ _ (Nat.zero_le _) (by omega)]
    rfl
  · rename_i hx
    rw [copy_outside _ _ _ (by omega)]

/-! ## Writing -/

/-- The links are `link`, and of the data clusters only `c` is written, with `content`. -/
structure Rewritten (s s' : State) (link : Nat → Nat) (c : Nat) (content : Nat → UInt8) : Prop extends Kept s s' where
  links : ∀ x < s.manager.dwTotalClusterCount, s'.link x = link x
  inside : ∀ x < FILESYSTEM_CLUSTERSIZE, s'.byte c x = content x
  outside : ∀ c', c' ≠ c → ∀ x < FILESYSTEM_CLUSTERSIZE, s'.byte c' x = s.byte c' x

theorem kWriteCluster_rewritten (h : Ready s) (hc : c < s.manager.dwTotalClusterCount) (hc0 : c ≠ 0)
    (b : Memory) : ∃ s', kWriteCluster { s with buffer := b } c = (true, s') ∧ Rewritten s s' s.link c b := by
  refine ⟨_, kWriteCluster_spec (h.withBuffer b) hc,
    kept_of_disk h b _ fun x _ hx => disk_writeCluster hc0 hx, fun x hx => ?_, fun x hx => ?_, fun c' hc' x hx => ?_⟩
  · exact link_writeCluster (s := { s with buffer := b }) h.geometry c hx
  · exact (byte_writeCluster (s := { s with buffer := b }) c hx).trans (if_pos rfl)
  · exact (byte_writeCluster (s := { s with buffer := b }) c hx).trans (if_neg hc')

theorem Relinked.rewritten (h : Relinked s s' f)
    (h' : Rewritten s' s'' g c content) : Rewritten s s'' g c content := by
  refine ⟨h.toKept.trans h'.toKept, fun x hx => ?_, h'.inside, fun c' hc' x hx => ?_⟩
  · exact h'.links x (by rwa [h.total])
  · rw [h'.outside c' hc' x hx, h.bytes]

theorem Rewritten.relinked (h : Rewritten s s' f c content)
    (h' : Relinked s' s'' g) : Rewritten s s'' g c content := by
  refine ⟨h.toKept.trans h'.toKept, fun x hx => ?_, fun x hx => ?_, fun c' hc' x hx => ?_⟩
  · exact h'.links x (by rwa [h.total])
  · rw [h'.bytes, h.inside x hx]
  · rw [h'.bytes, h.outside c' hc' x hx]

theorem Rewritten.congr {content' : Nat → UInt8}
    (h : Rewritten s s' f c content) (hfg : ∀ x < s.manager.dwTotalClusterCount, g x = f x)
    (hcontent : ∀ x < FILESYSTEM_CLUSTERSIZE, content' x = content x) : Rewritten s s' g c content' :=
  ⟨h.toKept, fun x hx => (h.links x hx).trans (hfg x hx).symm,
    fun x hx => (h.inside x hx).trans (hcontent x hx).symm, h.outside⟩

def OnCluster (s : State) (fh : FileHandle) : Prop :=
  if fh.dwCurrentClusterIndex = FILESYSTEM_LASTCLUSTER then
    fh.dwPreviousClusterIndex < s.manager.dwTotalClusterCount
  else fh.dwCurrentClusterIndex < s.manager.dwTotalClusterCount ∧ fh.dwCurrentClusterIndex ≠ 0

/-- The cluster that a round of `kWriteFile` writes to, and the link table then: the current cluster, or a free one
behind the previous. -/
def WritesTo (s : State) (fh : FileHandle) (c : Nat) (link : Nat → Nat) : Prop :=
  if fh.dwCurrentClusterIndex = FILESYSTEM_LASTCLUSTER then
    c < s.manager.dwTotalClusterCount ∧ Findable s c ∧
      link = Function.update (Function.update s.link c FILESYSTEM_LASTCLUSTER) fh.dwPreviousClusterIndex c
  else c = fh.dwCurrentClusterIndex ∧ link = s.link

def prepared (s : State) (fh : FileHandle) (x : Nat) : UInt8 :=
  if fh.dwCurrentClusterIndex = FILESYSTEM_LASTCLUSTER then 0 else s.byte fh.dwCurrentClusterIndex x

def written (s : State) (fh : FileHandle) (pv : Memory) (count n x : Nat) : UInt8 :=
  if fh.dwCurrentOffset % FILESYSTEM_CLUSTERSIZE ≤ x ∧ x < fh.dwCurrentOffset % FILESYSTEM_CLUSTERSIZE + n then
    pv (count + (x - fh.dwCurrentOffset % FILESYSTEM_CLUSTERSIZE))
  else prepared s fh x

theorem prepareCluster_stay (h : Ready s) (n : Nat)
    (hlast : fh.dwCurrentClusterIndex ≠ FILESYSTEM_LASTCLUSTER)
    (hc : fh.dwCurrentClusterIndex < s.manager.dwTotalClusterCount) : ∃ b,
      prepareCluster s fh n = (true, fh, { s with buffer := b }) ∧
      ((∀ x < FILESYSTEM_CLUSTERSIZE, b x = prepared s fh x) ∨ copySize fh n = FILESYSTEM_CLUSTERSIZE) := by
  unfold prepareCluster
  rw [if_neg hlast]
  split
  · rw [kReadCluster_spec h hc]
    refine ⟨_, rfl, .inl fun x hx => ?_⟩
    unfold prepared FILESYSTEM_CLUSTERSIZE at *
    rw [if_neg hlast, copy_inside _ _ _ (Nat.zero_le _) (by omega)]
    rfl
  · rename_i hfull
    refine ⟨s.buffer, rfl, .inr ?_⟩
    unfold copySize
    omega

theorem prepareCluster_grow (h : Ready s) (n : Nat)
    (hlast : fh.dwCurrentClusterIndex = FILESYSTEM_LASTCLUSTER)
    (hp : fh.dwPreviousClusterIndex < s.manager.dwTotalClusterCount) :
    (∃ s', prepareCluster s fh n = (false, fh, s') ∧ Relinked s s' s.link ∧
      ∀ c < s.manager.dwTotalClusterCount, ¬ Findable s c) ∨
    ∃ c link s', prepareCluster s fh n = (true, { fh with dwCurrentClusterIndex := c }, s') ∧
      WritesTo s fh c link ∧ Relinked s s' link ∧ ∀ x < FILESYSTEM_CLUSTERSIZE, s'.buffer x = 0 := by
  unfold prepareCluster
  rw [if_pos hlast]
  obtain ⟨a, s₁, hfind, h₁, hcases⟩ := kFindFreeCluster_relinked h
  rw [hfind]
  dsimp only
  rcases hcases with ⟨ha, hfree⟩ | ⟨rfl, hnone⟩
  · right
    have halast := h.geometry.lt_last ha
    have hr₁ := h₁.ready h
    have ha₁ : a < s₁.manager.dwTotalClusterCount := by rwa [h₁.total]
    obtain ⟨s₂, hset₂, h₂⟩ := kSetClusterLinkData_relinked (v := FILESYSTEM_LASTCLUSTER) hr₁ ha₁ (by decide)
    have hr₂ := h₂.ready hr₁
    have hp₂ : fh.dwPreviousClusterIndex < s₂.manager.dwTotalClusterCount := by rwa [h₂.total, h₁.total]
    obtain ⟨s₃, hset₃, h₃⟩ := kSetClusterLinkData_relinked (v := a) hr₂ hp₂
      (by unfold FILESYSTEM_LASTCLUSTER at halast; omega)
    have hr₃ := h₃.ready hr₂
    have h₀₂ := h₁.trans h₂
    have h₀₃ := h₀₂.trans h₃
    rw [if_neg (by omega), hset₂]
    dsimp only
    rw [hset₃]
    refine ⟨a, Function.update (Function.update s.link a FILESYSTEM_LASTCLUSTER) fh.dwPreviousClusterIndex a, _,
      rfl, ?_, (h₀₃.trans (relinked_buffer hr₃ _)).congr fun x hx => ?_, fun x hx => ?_⟩
    · unfold WritesTo
      rw [if_pos hlast]
      exact ⟨ha, hfree, rfl⟩
    · simp only [h₀₃.links x hx, Function.update_apply, h₀₂.links x hx, h₁.links x hx]
    · exact if_pos ⟨Nat.zero_le x, by unfold FILESYSTEM_CLUSTERSIZE at hx; omega⟩
  · left
    rw [if_pos rfl]
    exact ⟨s₁, rfl, h₁, hnone⟩

/-- **A round of `kWriteFile`** writes to one cluster and goes on, or it ends the call because no cluster is free. -/
theorem writeRound_spec (h : Ready s) (hon : OnCluster s fh)
    (hroot : s.link 0 ≠ FILESYSTEM_FREECLUSTER) (pv : Memory) {total count n : Nat}
    (hn : n = copySize fh (total - count)) :
    (∃ s', writeRound s fh pv total count = (false, count, fh, s') ∧ Relinked s s' s.link ∧
      fh.dwCurrentClusterIndex = FILESYSTEM_LASTCLUSTER ∧ ∀ c < s.manager.dwTotalClusterCount, ¬ Findable s c) ∨
    ∃ c link s', writeRound s fh pv total count =
        (true, count + n, { fh with dwCurrentClusterIndex := c }.advance link n, s') ∧
      WritesTo s fh c link ∧ Rewritten s s' link c (written s fh pv count n) := by
  have hle := copySize_le fh (total - count)
  rw [← hn] at hle
  -- the rest of the round, for a cluster that is prepared
  have hrest : ∀ c link s₁, c < s.manager.dwTotalClusterCount → c ≠ 0 → Relinked s s₁ link →
      ((∀ x < FILESYSTEM_CLUSTERSIZE, s₁.buffer x = prepared s fh x) ∨ n = FILESYSTEM_CLUSTERSIZE) →
      prepareCluster s fh (total - count) = (true, { fh with dwCurrentClusterIndex := c }, s₁) →
      ∃ s', writeRound s fh pv total count =
          (true, count + n, { fh with dwCurrentClusterIndex := c }.advance link n, s') ∧
        Rewritten s s' link c (written s fh pv count n) := by
    intro c link s₁ hc hc0 h₁ hbuf hprep
    have hr₁ := h₁.ready h
    have hc₁ : c < s₁.manager.dwTotalClusterCount := by rwa [h₁.total]
    obtain ⟨s₂, hwrite, h₂⟩ := kWriteCluster_rewritten hr₁ hc₁ hc0
      (copy s₁.buffer (fh.dwCurrentOffset % FILESYSTEM_CLUSTERSIZE) pv count n)
    have hr₂ := h₂.ready hr₁
    obtain ⟨s₃, hnext, h₃⟩ := nextCluster_spec hr₂ { fh with dwCurrentClusterIndex := c } n
      (show c < s₂.manager.dwTotalClusterCount by rwa [h₂.total])
    have hlink : s₂.link c = link c := by rw [h₂.links c hc₁, h₁.links c hc]
    refine ⟨s₃, ?_, ((h₁.rewritten h₂).relinked h₃).congr (fun x hx => ?_) fun x hx => ?_⟩
    · unfold writeRound
      rw [hprep]
      dsimp only
      rw [show min (FILESYSTEM_CLUSTERSIZE - fh.dwCurrentOffset % FILESYSTEM_CLUSTERSIZE) (total - count) = n from
        hn.symm, hwrite]
      dsimp only at hnext ⊢
      rw [hnext]
      unfold FileHandle.advance
      simp only [hlink]
    · rw [h₂.links x (by rwa [h₁.total]), h₁.links x hx]
    · unfold written
      split
      · rename_i hin
        rw [copy_inside _ _ _ hin.1 hin.2]
      · rename_i hout
        rw [copy_outside _ _ _ (by omega)]
        rcases hbuf with hbuf | hfull
        · exact (hbuf x hx).symm
        · omega
  unfold OnCluster at hon
  split at hon <;> rename_i hlast
  · rcases prepareCluster_grow h (total - count) hlast hon with ⟨s', hprep, hs', hnone⟩ |
      ⟨c, link, s₁, hprep, hto, h₁, hzero⟩
    · left
      refine ⟨s', ?_, hs', hlast, hnone⟩
      unfold writeRound
      rw [hprep]
    · right
      have hto' := hto
      unfold WritesTo at hto'
      rw [if_pos hlast] at hto'
      have hc0 : c ≠ 0 := by
        rintro rfl
        exact hroot hto'.2.1.1
      obtain ⟨s', hround, hs'⟩ := hrest c link s₁ hto'.1 hc0 h₁
        (.inl fun x hx => by rw [hzero x hx]; exact (if_pos hlast).symm) hprep
      exact ⟨c, link, s', hround, hto, hs'⟩
  · right
    obtain ⟨b, hprep, hbuf⟩ := prepareCluster_stay h (total - count) hlast hon.1
    rw [← hn] at hbuf
    obtain ⟨s', hround, hs'⟩ := hrest _ s.link { s with buffer := b } hon.1 hon.2 (relinked_buffer h b) hbuf hprep
    refine ⟨_, _, s', hround, ?_, hs'⟩
    unfold WritesTo
    rw [if_neg hlast]
    exact ⟨rfl, rfl⟩

end Mint
