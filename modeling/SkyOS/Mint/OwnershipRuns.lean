import SkyOS.Mint.Format
import SkyOS.Mint.Ownership

/-!
# Opening and removing files, and whole runs

Creation starts a chain with a free cluster, truncation cuts it down to its first cluster, and removal frees it, so
each of them replaces one chain of the family. A file that is open is not removed, so a handle keeps its entry.
-/

namespace Mint

open Bytes Machine LinkChain List Option
open Function (update update_apply update_idem update_of_ne update_self)

variable {s s' : State} {chain : Nat → List Nat}

/-- The used entries are still used, with their start clusters, and the handles are as before. -/
structure Retained (s s' : State) : Prop extends Steady s s' where
  kept : ∀ i, Used s i → Used s' i ∧ s'.startOf i = s.startOf i

theorem SameStarts.retained (h : SameStarts s s') : Retained s s' :=
  ⟨h.toSteady, fun i hi => ⟨(h.used i).2 hi, h.startOf i hi.1⟩⟩

theorem Retained.trans {s'' : State} (h : Retained s s') (h' : Retained s' s'') : Retained s s'' := by
  refine ⟨h.toSteady.trans h'.toSteady, fun i hi => ?_⟩
  obtain ⟨hi', heq⟩ := h.kept i hi
  obtain ⟨hi'', heq'⟩ := h'.kept i hi'
  exact ⟨hi'', heq'.trans heq⟩

theorem HandlesIn.retained (hh : HandlesIn s) (hk : Retained s s') : HandlesIn s' := by
  intro k hfile
  rw [hk.pool] at hfile ⊢
  obtain ⟨hlt, hused, hstart⟩ := hh k hfile
  exact ⟨hlt, (hk.kept _ hused).1, (hk.kept _ hused).2.trans hstart⟩

def Fits (s : State) (chain : Nat → List Nat) : Prop :=
  ∀ i, Used s i → s.sizeOf i ≤ FILESYSTEM_CLUSTERSIZE * (chain i).length

theorem Fits.kept (h : Fits s chain) (hk : Kept s s') : Fits s' chain := by
  intro i hi
  rw [hk.sizeOf hi.1]
  exact h i ((hk.used i).1 hi)

variable {i T : Nat} {name : List UInt8}

theorem Fits.emptied (h : Fits s chain) {l : List Nat} (hused : ∀ j, j ≠ i → Used s' j → Used s j)
    (hsize : ∀ j < FILESYSTEM_MAXDIRECTORYENTRYCOUNT, s'.sizeOf j = update s.sizeOf i 0 j) :
    Fits s' (update chain i l) := by
  intro j hj
  rw [hsize j hj.1]
  by_cases hji : j = i
  · subst hji
    rw [update_self]
    exact Nat.zero_le _
  · rw [update_of_ne hji, update_of_ne hji]
    exact h j (hused j hji hj)

theorem used_of_update {x : Nat} (hstart : ∀ j < FILESYSTEM_MAXDIRECTORYENTRYCOUNT, s'.startOf j = update s.startOf i x j)
    (j : Nat) (hj : j ≠ i) : Used s' j ↔ Used s j := by
  unfold Used
  constructor <;> rintro ⟨hj128, hne⟩ <;> refine ⟨hj128, ?_⟩
  · rwa [hstart j hj128, update_of_ne hj] at hne
  · rwa [hstart j hj128, update_of_ne hj]

/-! ## Creating -/

/-- **A new file** has a chain of one cluster. -/
theorem Sound.create (h : Sound s chain) (hk : Steady s s') {a : Nat} (ha : a < s.manager.dwTotalClusterCount)
    (hfree : s.link a = FILESYSTEM_FREECLUSTER) (hi : i < FILESYSTEM_MAXDIRECTORYENTRYCOUNT) (hunused : s.startOf i = 0)
    (hlinks : ∀ c < s.manager.dwTotalClusterCount,
      s'.link c = update s.link a FILESYSTEM_LASTCLUSTER c)
    (hstart : ∀ j < FILESYSTEM_MAXDIRECTORYENTRYCOUNT, s'.startOf j = update s.startOf i a j)
    (hinitial : ∀ j < FILESYSTEM_MAXDIRECTORYENTRYCOUNT, j ≠ i → s'.initialOf j = s.initialOf j) :
    Sound s' (update chain i [a]) := by
  have ha0 : a ≠ 0 := by
    rintro rfl
    exact h.root hfree
  have halast : a ≠ FILESYSTEM_LASTCLUSTER := Nat.ne_of_lt (h.ready.geometry.lt_last ha)
  have hempty : chain i = [] := by
    by_contra hne
    exact ((h.owns.nonempty i).1 hne).2 hunused
  have hstart_i : s'.startOf i = a := by rw [hstart i hi, update_self]
  have hlink_a : s'.link a = FILESYSTEM_LASTCLUSTER := by rw [hlinks a ha, update_self]
  have hused' : Used s' i := ⟨hi, by rw [hstart_i]; exact ha0⟩
  refine ⟨hk.ready h.ready, ?_, ?_, fun j hj h0 => ?_⟩
  · rw [hk.live]
    refine h.owns.replace (used_of_update hstart) (fun j hj hu => ?_) (fun _ => ?_) ?_ (fun c hc _ hcl => ?_)
      (fun c hc => ?_)
      (fun c hci _ => ?_)
    · rw [hstart j hu.1, update_of_ne hj]
    · rw [hstart_i]
      exact chain_singleton halast hlink_a
    · simp [hused']
    · rw [hlinks c hc.2, update_of_ne (fun hca => hcl (mem_singleton.2 hca))]
    · obtain rfl := mem_singleton.1 hc
      refine ⟨⟨ha0, ha⟩, ?_, .inr hfree⟩
      rw [hlink_a]
      decide
    · rw [hempty] at hci
      cases hci
  · rw [hlinks 0 h.ready.geometry.pos, update_of_ne ha0.symm]
    exact h.root
  · have hji : j ≠ i := by
      rintro rfl
      exact hused'.2 h0
    rw [hinitial j hj hji]
    exact h.unnamed j hj (by rwa [hstart j hj, update_of_ne hji] at h0)

/-- **`kCreateFile`** leaves all as it was, or it takes a free cluster for an entry that is not used. -/
theorem kCreateFile_spec (h : Ready s) (name : List UInt8) (stEntry : Memory) :
    (∃ s', kCreateFile s name stEntry = (none, s') ∧ Relinked s s' s.link) ∨
    ∃ a i t s', a < s.manager.dwTotalClusterCount ∧ s.link a = FILESYSTEM_FREECLUSTER ∧
      i < FILESYSTEM_MAXDIRECTORYENTRYCOUNT ∧ s.startOf i = 0 ∧
      Relinked s t (update s.link a FILESYSTEM_LASTCLUSTER) ∧
      kSetDirectoryEntryData t i (write32 (write32 (putName stEntry name) 28 a) 24 0) = (true, s') ∧
      kCreateFile s name stEntry = (some (i, write32 (write32 (putName stEntry name) 28 a) 24 0), s') := by
  obtain ⟨a, s₁, hfind, h₁, hcases⟩ := kFindFreeCluster_relinked h
  have hr₁ := h₁.ready h
  unfold kCreateFile
  rw [hfind]
  dsimp only
  rcases hcases with ⟨ha, hfree, -⟩ | ⟨rfl, -⟩
  · have halast := h.geometry.lt_last ha
    obtain ⟨s₂, hset₂, h₂⟩ := kSetClusterLinkData_relinked (v := FILESYSTEM_LASTCLUSTER) hr₁
      (show a < s₁.manager.dwTotalClusterCount by rwa [h₁.total]) (by decide)
    have hr₂ := h₂.ready hr₁
    obtain ⟨o, b, hentry, hi⟩ := kFindFreeDirectoryEntry_spec hr₂
    have h₀₂ := h₁.trans h₂
    have h₀₃ : Relinked s { s₂ with buffer := b } (update s.link a FILESYSTEM_LASTCLUSTER) := by
      refine (h₀₂.trans (relinked_buffer hr₂ b)).congr fun c hc => ?_
      rw [h₀₂.links c hc, update_apply, update_apply, h₁.links c hc]
    have hr₃ := hr₂.withBuffer b
    rw [if_neg (by omega), hset₂]
    dsimp only
    rw [hentry]
    cases o with
    | none =>
      -- the cluster is given back
      obtain ⟨s₄, hset₄, h₄⟩ := kSetClusterLinkData_relinked (v := FILESYSTEM_FREECLUSTER) hr₃
        (show a < _ by rwa [h₀₃.total]) (by decide)
      refine .inl ⟨s₄, ?_, (h₀₃.trans h₄).congr fun c hc => ?_⟩
      · dsimp only
        rw [hset₄]
      · rw [update_apply, h₀₃.links c hc, update_apply]
        split
        · rename_i hca
          rw [hca]
          exact hfree
        · rfl
    | some i =>
      obtain ⟨hi128, hunused₂⟩ := hi i rfl
      have hunused : s.startOf i = 0 := by rwa [h₀₂.toKept.startOf hi128] at hunused₂
      obtain ⟨s₄, hset₄, -⟩ := kSetDirectoryEntryData_entered hr₃ hi128
        (write32 (write32 (putName stEntry name) 28 a) 24 0)
      refine .inr ⟨a, i, _, s₄, ha, hfree, hi128, hunused, h₀₃, hset₄, ?_⟩
      dsimp only
      rw [hset₄]
  · rw [if_pos rfl]
    exact .inl ⟨s₁, rfl, h₁⟩

theorem kCreateFile_sound (h : Sound s chain) (name : List UInt8) (stEntry : Memory) : ∃ o s',
    kCreateFile s name stEntry = (o, s') ∧ (∃ chain', Sound s' chain' ∧ (Fits s chain → Fits s' chain')) ∧
    Retained s s' ∧
    ∀ i e, o = some (i, e) → Used s' i ∧ read32 e 28 = s'.startOf i ∧ read32 e 24 = s'.sizeOf i := by
  rcases kCreateFile_spec h.ready name stEntry with
    ⟨s', hrun, h'⟩ | ⟨a, i, t, s', ha, hfree, hi, hunused, ht, hset, hrun⟩
  · refine ⟨none, s', hrun, ⟨chain, h.kept h'.toKept h'.links, fun hfits => hfits.kept h'.toKept⟩,
      h'.toKept.sameStarts.retained, ?_⟩
    rintro i e ⟨⟩
  · have hentered := Entered.of_run (ht.ready h.ready) hi hset
    have ha0 : a ≠ 0 := by
      rintro rfl
      exact h.root hfree
    have ha32 : a < 2 ^ 32 := by
      have halast := h.ready.geometry.lt_last ha
      unfold FILESYSTEM_LASTCLUSTER at halast
      omega
    have hword : read32 (write32 (write32 (putName stEntry name) 28 a) 24 0) 28 = a := by
      rw [read32_write32_of_disjoint _ (by omega), read32_write32_self _ _ ha32]
    have hempty : read32 (write32 (write32 (putName stEntry name) 28 a) 24 0) 24 = 0 :=
      read32_write32_self _ _ (by decide)
    have hk := ht.toSteady.trans hentered.toSteady
    have hstart : ∀ j < FILESYSTEM_MAXDIRECTORYENTRYCOUNT, s'.startOf j = update s.startOf i a j :=
      fun j hj => by
        rw [hentered.startOf, hword, update_apply, update_apply, ht.toKept.startOf hj]
    have hsize : ∀ j < FILESYSTEM_MAXDIRECTORYENTRYCOUNT, s'.sizeOf j = update s.sizeOf i 0 j :=
      fun j hj => by
        rw [hentered.sizeOf, hempty, update_apply, update_apply, ht.toKept.sizeOf hj]
    have hother : ∀ j, j ≠ i → j < FILESYSTEM_MAXDIRECTORYENTRYCOUNT → s'.startOf j = s.startOf j :=
      fun j hji hj => by rw [hstart j hj, update_of_ne hji]
    have hsound := h.create hk ha hfree hi hunused
      (fun c hc => by rw [hentered.links c (by rwa [ht.total]), ht.links c hc]) hstart
      (fun j hj hji => by rw [hentered.initialOf, update_of_ne hji, ht.toKept.initialOf hj])
    refine ⟨_, s', hrun, ⟨_, hsound, fun hfits => hfits.emptied (fun j hji hj => ⟨hj.1, ?_⟩) hsize⟩,
      ⟨hk, fun j hj => ?_⟩, ?_⟩
    · rw [← hother j hji hj.1]
      exact hj.2
    · have hji : j ≠ i := by
        rintro rfl
        exact hj.2 hunused
      have heq := hother j hji hj.1
      exact ⟨⟨hj.1, by rw [heq]; exact hj.2⟩, heq⟩
    · rintro i' e ⟨⟩
      have heq : s'.startOf i = a := by rw [hstart i hi, update_self]
      have hzero : s'.sizeOf i = 0 := by rw [hsize i hi, update_self]
      exact ⟨⟨hi, by rw [heq]; exact ha0⟩, by rw [hword, heq], by rw [hempty, hzero]⟩

/-! ## Freeing chains -/

theorem Sound.length_chain_lt (h : Sound s chain) (i : Nat) : (chain i).length < loopRounds := by
  have hfits := h.ready.geometry.fits
  by_cases hused : Used s i
  · have hlen := h.length_chain_le hused
    unfold loopRounds
    omega
  · have hempty : chain i = [] := by
      by_contra hne
      exact hused ((h.owns.nonempty i).1 hne)
    rw [hempty]
    decide

theorem Sound.chain_cons (h : Sound s chain) (hi : Used s i) : ∃ rest, chain i = s.startOf i :: rest ∧
    Chain s.link FILESYSTEM_LASTCLUSTER (s.link (s.startOf i)) rest := by
  obtain ⟨x, rest, hx⟩ := exists_cons_of_ne_nil ((h.owns.nonempty i).2 hi)
  have hchain := h.owns.chained i hi
  rw [hx] at hchain
  obtain ⟨rfl, -, hrest⟩ := hchain
  exact ⟨rest, hx, hrest⟩

/-- **Truncation** leaves a chain of one cluster. -/
theorem Sound.truncate (h : Sound s chain) (hk : SameStarts s s') (hi : Used s i) {rest : List Nat}
    (hrest : chain i = s.startOf i :: rest)
    (hlinks : ∀ c < s.manager.dwTotalClusterCount, s'.link c =
      if c ∈ rest then FILESYSTEM_FREECLUSTER else update s.link (s.startOf i) FILESYSTEM_LASTCLUSTER c)
    (hinitial : ∀ j < FILESYSTEM_MAXDIRECTORYENTRYCOUNT, j ≠ i → s'.initialOf j = s.initialOf j) :
    Sound s' (update chain i [s.startOf i]) := by
  have hstart := h.inUse_start hi
  have hnodup := (h.owns.chained i hi).nodup
  rw [hrest] at hnodup
  have hlink : s'.link (s.startOf i) = FILESYSTEM_LASTCLUSTER := by
    rw [hlinks _ hstart.1.2, if_neg (nodup_cons.1 hnodup).1, update_self]
  refine ⟨hk.ready h.ready, ?_, ?_, fun j hj h0 => ?_⟩
  · rw [hk.live]
    refine h.owns.replace (fun j _ => hk.used j) (fun j _ hj => hk.startOf j hj.1) (fun _ => ?_) ?_
      (fun c hc hci _ => ?_) (fun c hc => ?_) (fun c hci hcl => ?_)
    · rw [hk.startOf i hi.1]
      exact chain_singleton (h.ne_last hstart) hlink
    · simp [hk.used i, hi]
    · rw [hrest, mem_cons, not_or] at hci
      rw [hlinks c hc.2, if_neg hci.2, update_of_ne hci.1]
    · obtain rfl := mem_singleton.1 hc
      refine ⟨hstart.1, ?_, .inl (h.owns.start_mem hi)⟩
      rw [hlink]
      decide
    · rw [hrest] at hci
      rcases mem_cons.1 hci with rfl | hmem
      · exact absurd (mem_singleton.2 rfl) hcl
      · rw [hlinks c (h.inUse_of_mem (by rw [hrest]; exact hci)).1.2, if_pos hmem]
  · have h0rest : 0 ∉ rest := fun hmem =>
      (h.inUse_of_mem (show 0 ∈ chain i by rw [hrest]; exact mem_cons_of_mem _ hmem)).1.1 rfl
    rw [hlinks 0 h.ready.geometry.pos, if_neg h0rest, update_of_ne hi.2.symm]
    exact h.root
  · rw [hk.startOf j hj] at h0
    have hji : j ≠ i := by
      rintro rfl
      exact hi.2 h0
    rw [hinitial j hj hji]
    exact h.unnamed j hj h0

variable {e stEntry : Memory} {mode : Char} {r : Option Nat}

/-- **`truncateFile`** frees the clusters but the first. -/
theorem truncateFile_spec (h : Sound s chain) (hi : Used s i) (he : EntryAt s i e) :
    ∃ rest t s', chain i = s.startOf i :: rest ∧
      Relinked s t (fun c => if c ∈ rest then FILESYSTEM_FREECLUSTER
        else update s.link (s.startOf i) FILESYSTEM_LASTCLUSTER c) ∧
      kSetDirectoryEntryData t i (write32 e 24 0) = (true, s') ∧
      truncateFile s i e = some (some (write32 e 24 0), s') := by
  obtain ⟨rest, hrest, hchain⟩ := h.chain_cons hi
  have hin : ∀ c ∈ rest, InUse s c := fun c hc => h.inUse_of_mem (by rw [hrest]; exact mem_cons_of_mem _ hc)
  have hnodup := (h.owns.chained i hi).nodup
  rw [hrest] at hnodup
  have hstart := h.inUse_start hi
  obtain ⟨s₁, hget, h₁⟩ := kGetClusterLinkData_relinked h.ready hstart.1.2
  have hr₁ := h₁.ready h.ready
  obtain ⟨s₂, hset, h₂⟩ := kSetClusterLinkData_relinked (v := FILESYSTEM_LASTCLUSTER) hr₁
    (show s.startOf i < s₁.manager.dwTotalClusterCount by rw [h₁.total]; exact hstart.1.2) (by decide)
  have hr₂ := h₂.ready hr₁
  have h₀₂ := h₁.trans h₂
  have hlinks₂ : ∀ c < s.manager.dwTotalClusterCount,
      s₂.link c = update s.link (s.startOf i) FILESYSTEM_LASTCLUSTER c := fun c hc => by
    rw [h₀₂.links c hc, update_apply, update_apply, h₁.links c hc]
  -- the second cluster begins a chain of its own now
  have hchain₂ : Chain s₂.link FILESYSTEM_LASTCLUSTER (s.link (s.startOf i)) rest := hchain.congr fun c hc => by
    have hne : c ≠ s.startOf i := by
      rintro rfl
      exact (nodup_cons.1 hnodup).1 hc
    rw [hlinks₂ c (hin c hc).1.2, update_of_ne hne]
  have hlen := h.length_chain_lt i
  rw [hrest, length_cons] at hlen
  obtain ⟨s₃, hfree, h₃⟩ := freeClusters_relinked hr₂ hchain₂ (fun c hc => by rw [h₀₂.total]; exact (hin c hc).1.2)
    (show rest.length < loopRounds by omega)
  obtain ⟨s₄, hentry, -⟩ := kSetDirectoryEntryData_entered (h₃.ready hr₂) hi.1 (write32 e 24 0)
  refine ⟨rest, s₃, s₄, hrest, (h₀₂.trans h₃).congr fun c hc => ?_, hentry, ?_⟩
  · rw [hlinks₂ c hc]
  · unfold truncateFile
    rw [he.start, hget]
    dsimp only
    rw [hset]
    dsimp only
    rw [kFreeClusterUntilEnd, hfree]
    dsimp only [map_some]
    rw [if_pos rfl, hentry]

theorem truncateFile_sound (h : Sound s chain) (hi : Used s i) (he : EntryAt s i e) :
    ∃ s', truncateFile s i e = some (some (write32 e 24 0), s') ∧
      (∃ chain', Sound s' chain' ∧ (Fits s chain → Fits s' chain')) ∧ SameStarts s s' ∧
      read32 (write32 e 24 0) 28 = s'.startOf i ∧ read32 (write32 e 24 0) 24 = s'.sizeOf i := by
  obtain ⟨rest, t, s', hrest, ht, hset, hrun⟩ := truncateFile_spec h hi he
  have hentered := Entered.of_run (ht.ready h.ready) hi.1 hset
  have hword : read32 (write32 e 24 0) 28 = s.startOf i := by
    rw [read32_write32_of_disjoint _ (by omega), he.start]
  have hempty : read32 (write32 e 24 0) 24 = 0 := read32_write32_self _ _ (by decide)
  have hsize : ∀ j < FILESYSTEM_MAXDIRECTORYENTRYCOUNT, s'.sizeOf j = update s.sizeOf i 0 j := fun j hj => by
    rw [hentered.sizeOf, hempty, update_apply, update_apply, ht.toKept.sizeOf hj]
  have hsame : SameStarts s s' := by
    refine ⟨ht.toSteady.trans hentered.toSteady, fun j hj => ?_⟩
    rw [hentered.startOf, hword, update_apply, ht.toKept.startOf hj]
    split
    · rename_i hji
      rw [hji]
    · rfl
  refine ⟨s', hrun, ⟨_, h.truncate hsame hi hrest (fun c hc => ?_) fun j hj hji => ?_,
    fun hfits => hfits.emptied (fun j _ hj => (hsame.used j).1 hj) hsize⟩, hsame,
    hword.trans (hsame.startOf i hi.1).symm, by rw [hempty, hsize i hi.1, update_self]⟩
  · rw [hentered.links c (by rwa [ht.total]), ht.links c hc]
  · rw [hentered.initialOf, update_of_ne hji, ht.toKept.initialOf hj]

/-- **Removal** of a file that no handle has open. -/
theorem Sound.remove (h : Sound s chain) (hk : Steady s s') (hi : Used s i)
    (hlinks : ∀ c < s.manager.dwTotalClusterCount, s'.link c =
      if c ∈ chain i then FILESYSTEM_FREECLUSTER else s.link c)
    (hstart : ∀ j < FILESYSTEM_MAXDIRECTORYENTRYCOUNT, s'.startOf j = update s.startOf i 0 j)
    (hinitial : ∀ j < FILESYSTEM_MAXDIRECTORYENTRYCOUNT, s'.initialOf j = update s.initialOf i 0 j) :
    Sound s' (update chain i []) := by
  have hunused : ¬ Used s' i := by
    rintro ⟨-, hne⟩
    rw [hstart i hi.1, update_self] at hne
    exact hne rfl
  refine ⟨hk.ready h.ready, ?_, ?_, fun j hj h0 => ?_⟩
  · rw [hk.live]
    refine h.owns.replace (used_of_update hstart) (fun j hj hu => ?_) (fun hu => absurd hu hunused) ?_
      (fun c hc hci _ => ?_)
      (fun c hc => ?_) (fun c hci _ => ?_)
    · rw [hstart j hu.1, update_of_ne hj]
    · simp [hunused]
    · rw [hlinks c hc.2, if_neg hci]
    · cases hc
    · rw [hlinks c (h.inUse_of_mem hci).1.2, if_pos hci]
  · rw [hlinks 0 h.ready.geometry.pos, if_neg fun hmem => (h.inUse_of_mem hmem).1.1 rfl]
    exact h.root
  · rw [hinitial j hj, update_apply]
    split
    · rfl
    · rename_i hji
      rw [hstart j hj, update_of_ne hji] at h0
      exact h.unnamed j hj h0

/-! ## Names -/

/-- A name has no NUL, so only a used entry begins with it. -/
theorem Sound.find (h : Sound s chain) (hname : badName name = false) (hnul : 0 ∉ name)
    (stEntry : Memory) : ∃ o e b, kFindDirectoryEntry s name stEntry = ((o, e), { s with buffer := b }) ∧
      ∀ i, o = some i → Used s i ∧ EntryAt s i e := by
  obtain ⟨o, e, b, hfind, hspec⟩ := kFindDirectoryEntry_spec h.ready name stEntry
  refine ⟨o, e, b, hfind, fun i hi => ?_⟩
  obtain ⟨hi128, hat, hinitial⟩ := hspec i hi
  refine ⟨⟨hi128, fun h0 => ?_⟩, hat⟩
  cases name with
  | nil => cases hname
  | cons c rest =>
    have hc := hinitial c rest rfl
    rw [h.unnamed i hi128 h0] at hc
    exact hnul (by rw [hc]; exact .head _)

/-- **`kRemoveFile`** leaves all as it was, or it frees the chain of the file that is found, which no handle has open. -/
theorem kRemoveFile_spec (h : Sound s chain) (hnul : 0 ∉ name) (stEntry : Memory) :
    (∃ r s', kRemoveFile s name stEntry = some (r, s') ∧ Relinked s s' s.link) ∨
    ∃ i t s', badName name = false ∧ (kFindDirectoryEntry s name stEntry).1.1 = some i ∧ Used s i ∧
      kIsFileOpened s (s.startOf i) = false ∧
      Relinked s t (fun c => if c ∈ chain i then FILESYSTEM_FREECLUSTER else s.link c) ∧
      kSetDirectoryEntryData t i (fun _ => 0) = (true, s') ∧ kRemoveFile s name stEntry = some (0, s') := by
  unfold kRemoveFile
  split
  · exact .inl ⟨0, s, rfl, relinked_buffer h.ready s.buffer⟩
  · rename_i hname
    have hname := Bool.eq_false_of_not_eq_true hname
    obtain ⟨o, e, b, hfind, hused⟩ := h.find hname hnul stEntry
    have h₁ := relinked_buffer h.ready b
    have hsound₁ := h.kept h₁.toKept h₁.links
    rw [hfind]
    cases o with
    | none => exact .inl ⟨-1, _, rfl, h₁⟩
    | some i =>
      obtain ⟨hi, hat⟩ := hused i rfl
      dsimp only
      rw [hat.start]
      split
      · exact .inl ⟨-1, _, rfl, h₁⟩
      · rename_i hopened
        have hi₁ : Used { s with buffer := b } i := hi
        obtain ⟨s₂, hfree, h₂⟩ := freeClusters_relinked hsound₁.ready (hsound₁.owns.chained i hi₁)
          (fun c hc => (hsound₁.inUse_of_mem hc).1.2) (h.length_chain_lt i)
        obtain ⟨s₃, hentry, -⟩ := kSetDirectoryEntryData_entered (h₂.ready hsound₁.ready) hi.1 fun _ => 0
        refine .inr ⟨i, s₂, s₃, hname, rfl, hi, Bool.eq_false_of_not_eq_true hopened, h₁.trans h₂, hentry, ?_⟩
        rw [kFreeClusterUntilEnd, show s.startOf i = State.startOf { s with buffer := b } i from rfl, hfree]
        dsimp only [map_some]
        rw [if_pos rfl, hentry]

theorem HandlesIn.ne_of_not_opened (hh : HandlesIn s) {k : Nat} (hopened : kIsFileOpened s (s.startOf i) = false)
    (hk : (s.manager.pstHandlePool k).bType = .file) :
    (s.manager.pstHandlePool k).stFileHandle.iDirectoryEntryOffset ≠ i := by
  obtain ⟨hlt, -, hstart⟩ := hh k hk
  rintro rfl
  unfold kIsFileOpened at hopened
  rw [List.any_eq_false] at hopened
  exact hopened k (mem_range.2 hlt) (decide_eq_true ⟨hk, hstart.symm⟩)

theorem kRemoveFile_sound (h : Sound s chain) (hh : HandlesIn s) (hnul : 0 ∉ name)
    (stEntry : Memory) : ∃ r s', kRemoveFile s name stEntry = some (r, s') ∧
      (∃ chain', Sound s' chain' ∧ (Fits s chain → Fits s' chain')) ∧ Steady s s' ∧ HandlesIn s' := by
  rcases kRemoveFile_spec h hnul stEntry with ⟨r, s', hrun, h'⟩ | ⟨i, t, s', -, -, hi, hopened, ht, hset, hrun⟩
  · exact ⟨r, s', hrun, ⟨chain, h.kept h'.toKept h'.links, fun hfits => hfits.kept h'.toKept⟩, h'.toSteady,
      hh.sameStarts h'.toKept.sameStarts⟩
  · have hentered := Entered.of_run (ht.ready h.ready) hi.1 hset
    have hk := ht.toSteady.trans hentered.toSteady
    have hstart : ∀ j < FILESYSTEM_MAXDIRECTORYENTRYCOUNT, s'.startOf j = update s.startOf i 0 j :=
      fun j hj => by
        rw [hentered.startOf, show read32 (fun _ => 0) 28 = 0 by decide, update_apply, update_apply,
          ht.toKept.startOf hj]
    have hother : ∀ j, j ≠ i → j < FILESYSTEM_MAXDIRECTORYENTRYCOUNT → s'.startOf j = s.startOf j :=
      fun j hji hj => by rw [hstart j hj, update_of_ne hji]
    refine ⟨0, s', hrun, ⟨_, h.remove hk hi (fun c hc => ?_) hstart fun j hj => ?_,
      fun hfits => hfits.emptied (fun j hji hj => ⟨hj.1, ?_⟩) fun j hj => ?_⟩, hk, fun k hfile => ?_⟩
    · rw [hentered.links c (by rwa [ht.total]), ht.links c hc]
    · rw [hentered.initialOf, update_apply, update_apply, ht.toKept.initialOf hj]
    · rw [← hother j hji hj.1]
      exact hj.2
    · rw [hentered.sizeOf, show read32 (fun _ => 0) 24 = 0 by decide, update_apply, update_apply,
        ht.toKept.sizeOf hj]
    · rw [hk.pool] at hfile ⊢
      obtain ⟨hlt, hused, hkstart⟩ := hh k hfile
      have hsame := hother _ (hh.ne_of_not_opened hopened hfile) hused.1
      exact ⟨hlt, ⟨hused.1, by rw [hsame]; exact hused.2⟩, hsame.trans hkstart⟩

/-! ## Opening and closing -/

theorem openEntry_sound (h : Sound s chain) (hname : badName name = false) (hnul : 0 ∉ name)
    (mode : Char) (stEntry : Memory) : ∃ o s', openEntry s name mode stEntry = some (o, s') ∧
      (∃ chain', Sound s' chain' ∧ (Fits s chain → Fits s' chain')) ∧ Retained s s' ∧
      ∀ i e, o = some (i, e) → Used s' i ∧ read32 e 28 = s'.startOf i ∧ read32 e 24 = s'.sizeOf i := by
  obtain ⟨o, e, b, hfind, hused⟩ := h.find hname hnul stEntry
  have h₁ := relinked_buffer h.ready b
  have hsound₁ := h.kept h₁.toKept h₁.links
  have hk₁ := h₁.toKept.sameStarts.retained
  have hfits₁ : Fits s chain → Fits { s with buffer := b } chain := fun hfits => hfits.kept h₁.toKept
  unfold openEntry
  rw [hfind]
  cases o with
  | none =>
    dsimp only
    split
    · refine ⟨none, _, rfl, ⟨chain, hsound₁, hfits₁⟩, hk₁, ?_⟩
      rintro i e ⟨⟩
    · obtain ⟨o, s₂, hcreate, ⟨chain₂, hsound₂, hfits₂⟩, hk₂, hspec⟩ := kCreateFile_sound hsound₁ name e
      rw [hcreate]
      exact ⟨o, s₂, rfl, ⟨chain₂, hsound₂, fun hfits => hfits₂ (hfits₁ hfits)⟩, hk₁.trans hk₂, hspec⟩
  | some i =>
    obtain ⟨hi, hat⟩ := hused i rfl
    dsimp only
    split
    · have hi₁ : Used { s with buffer := b } i := hi
      have hat₁ : EntryAt { s with buffer := b } i e := hat
      obtain ⟨s₂, htruncate, ⟨chain₂, hsound₂, hfits₂⟩, hk₂, hstart, hsize⟩ := truncateFile_sound hsound₁ hi₁ hat₁
      rw [htruncate]
      refine ⟨_, s₂, rfl, ⟨chain₂, hsound₂, fun hfits => hfits₂ (hfits₁ hfits)⟩, hk₁.trans hk₂.retained, ?_⟩
      rintro i' e' ⟨⟩
      exact ⟨(hk₂.used i).2 hi₁, hstart, hsize⟩
    · refine ⟨_, _, rfl, ⟨chain, hsound₁, hfits₁⟩, hk₁, ?_⟩
      rintro i' e' ⟨⟩
      exact ⟨hi, hat.start, hat.size⟩

theorem setHandle_setHandle (s : State) (k : Nat) (file file' : MFile) :
    (s.setHandle k file).setHandle k file' = s.setHandle k file' := by
  unfold State.setHandle
  rw [update_idem]

theorem not_extends_end {fh : FileHandle} : ¬ Extends fh 0 2 := by
  have hle : realOffset fh 0 2 ≤ fh.dwFileSize := by
    unfold realOffset
    rw [if_neg (by decide), if_neg (by decide), if_pos rfl]
    unfold moveFrom
    split <;> omega
  unfold Extends
  exact Nat.not_lt.2 (Nat.div_le_div_right hle)

/-- What `kOpenFile` does. -/
inductive Opened (s : State) (name : List UInt8) (mode : Char) (stEntry : Memory) : Option Nat → State → Prop where
  | badName (hbad : badName name = true) : Opened s name mode stEntry none s
  | noHandle (o : Option (Nat × Memory)) (s₁ : State) (hname : Mint.badName name = false)
    (hopen : openEntry s name mode stEntry = some (o, s₁)) : Opened s name mode stEntry none s₁
  | atStart (i : Nat) (e : Memory) (s₁ : State) (k : Nat) (hname : Mint.badName name = false)
    (hopen : openEntry s name mode stEntry = some (some (i, e), s₁)) (hk : k < FILESYSTEM_HANDLE_MAXCOUNT) :
    Opened s name mode stEntry (some k) (s₁.setHandle k ⟨.file, newHandle i e⟩)
  | atEnd (i : Nat) (e : Memory) (s₁ : State) (k : Nat) (m : Int) (s₂ : State) (hname : Mint.badName name = false)
    (hopen : openEntry s name mode stEntry = some (some (i, e), s₁)) (hk : k < FILESYSTEM_HANDLE_MAXCOUNT)
    (hseek : kSeekFile (s₁.setHandle k ⟨.file, newHandle i e⟩) k 0 2 = some (m, s₂)) :
    Opened s name mode stEntry (some k) s₂

theorem kOpenFile_cases
    (hs : kOpenFile s name mode stEntry = some (r, s')) : Opened s name mode stEntry r s' := by
  unfold kOpenFile at hs
  split at hs
  · rename_i hbad
    cases hs
    exact .badName hbad
  · rename_i hname
    have hname := Bool.eq_false_of_not_eq_true hname
    obtain ⟨⟨o, s₁⟩, hopen, hs⟩ := bind_eq_some_iff.1 hs
    cases o with
    | none =>
      cases hs
      exact .noHandle none _ hname hopen
    | some entry =>
      obtain ⟨i, e⟩ := entry
      dsimp only at hs
      split at hs
      · cases hs
        exact .noHandle _ _ hname hopen
      · rename_i k s₂ halloc
        obtain ⟨k', hfree, heq⟩ := map_eq_some_iff.1 halloc
        cases heq
        have hk : k < FILESYSTEM_HANDLE_MAXCOUNT := mem_range.1 (List.mem_of_find?_eq_some hfree)
        rw [setHandle_setHandle] at hs
        split at hs
        · obtain ⟨⟨m, s₃⟩, hseek, heq⟩ := map_eq_some_iff.1 hs
          cases heq
          exact .atEnd i e s₁ k m s₃ hname hopen hk hseek
        · cases hs
          exact .atStart i e s₁ k hname hopen hk

theorem kOpenFile_sound (h : Sound s chain) (hh : HandlesIn s) (hnul : 0 ∉ name)
    (hs : kOpenFile s name mode stEntry = some (r, s')) :
    (∃ chain', Sound s' chain') ∧ HandlesIn s' := by
  have hentry : ∀ {o s₁}, badName name = false → openEntry s name mode stEntry = some (o, s₁) →
      (∃ chain₁, Sound s₁ chain₁) ∧ HandlesIn s₁ ∧
      ∀ i e k, o = some (i, e) → k < FILESYSTEM_HANDLE_MAXCOUNT → HandlesIn (s₁.setHandle k ⟨.file, newHandle i e⟩) := by
    intro o s₁ hname hopen
    obtain ⟨o', s₁', hopen', ⟨chain₁, h₁, -⟩, hk₁, hspec⟩ := openEntry_sound h hname hnul mode stEntry
    rw [hopen] at hopen'
    cases hopen'
    refine ⟨⟨chain₁, h₁⟩, hh.retained hk₁, fun i e k ho hlt => ?_⟩
    obtain ⟨hi, hstart, -⟩ := hspec i e ho
    exact (hh.retained hk₁).setHandle fun _ => ⟨hlt, hi, hstart.symm⟩
  cases kOpenFile_cases hs with
  | badName hbad => exact ⟨⟨chain, h⟩, hh⟩
  | noHandle o _ hname hopen => exact ⟨(hentry hname hopen).1, (hentry hname hopen).2.1⟩
  | atStart i e s₁ k hname hopen hk =>
    obtain ⟨⟨chain₁, h₁⟩, -, hnew⟩ := hentry hname hopen
    exact ⟨⟨chain₁, h₁.setHandle k _⟩, hnew i e k rfl hk⟩
  | atEnd i e s₁ k m _ hname hopen hk hseek =>
    obtain ⟨⟨chain₁, h₁⟩, -, hnew⟩ := hentry hname hopen
    exact kSeekFile_sound (h₁.setHandle k _) (hnew i e k rfl hk) (fun _ hext => absurd hext not_extends_end) hseek

theorem kCloseFile_sound (h : Sound s chain) (hh : HandlesIn s) (k : Nat) :
    (∃ chain', Sound (kCloseFile s k).2 chain') ∧ HandlesIn (kCloseFile s k).2 := by
  unfold kCloseFile
  split
  · exact ⟨⟨chain, h⟩, hh⟩
  · refine ⟨⟨chain, h.setHandle k _⟩, hh.setHandle ?_⟩
    rintro ⟨⟩

/-! ## Runs -/

structure FileName where
  chars : List UInt8
  noNul : 0 ∉ chars

inductive Call where
  | kOpenFile (name : FileName) (mode : Char) (stEntry : Memory)
  | kWriteFile (pvBuffer : Memory) (dwSize dwCount : UInt32) (h : Fin FILESYSTEM_HANDLE_MAXCOUNT)
  | kSeekFile (h : Fin FILESYSTEM_HANDLE_MAXCOUNT) (iOffset iOrigin : Int32)
  | kCloseFile (h : Fin FILESYSTEM_HANDLE_MAXCOUNT)
  | kRemoveFile (name : FileName) (stEntry : Memory)

def State.call (s : State) : Call → Option State
  | .kOpenFile name mode stEntry => (kOpenFile s name.chars mode stEntry).map Prod.snd
  | .kWriteFile pvBuffer dwSize dwCount h => (kWriteFile s pvBuffer dwSize.toNat dwCount.toNat h).map Prod.snd
  | .kSeekFile h iOffset iOrigin => (kSeekFile s h iOffset.toInt iOrigin.toInt).map Prod.snd
  | .kCloseFile h => some (kCloseFile s h).2
  | .kRemoveFile name stEntry => (kRemoveFile s name.chars stEntry).map Prod.snd

/-- From a disk with any content. With less than 9 sectors, `kFormat` would write to a sector that is not there. -/
def fileSystem : StepSystem State Call where
  init s := ∃ disk buffer T, 9 ≤ T ∧ T < 2 ^ 32 ∧ s = boot disk buffer T
  step := State.call

/-- What writes to a file goes through a handle that still has its place, and there is a cluster at all. -/
def InPlace (s : State) (call : Call) : Prop :=
  0 < s.manager.dwTotalClusterCount ∧
  match call with
  | .kWriteFile _ dwSize dwCount h => (s.manager.pstHandlePool h).bType = .file →
      u32 (dwSize.toNat * dwCount.toNat) ≠ 0 → Fresh s (s.manager.pstHandlePool h).stFileHandle
  | .kSeekFile h iOffset iOrigin => (s.manager.pstHandlePool h).bType = .file →
      Extends (s.manager.pstHandlePool h).stFileHandle iOffset.toInt iOrigin.toInt →
      Fresh s (s.manager.pstHandlePool h).stFileHandle
  | _ => True

/-- The links from the start cluster of each used entry end without repetition, chains of different entries are
disjoint and without cluster 0, and every other cluster that is not free is in exactly one of them. -/
def ClustersOwned (s : State) : Prop := ∃ chain : Nat → List Nat,
  (∀ i, Used s i → Chain s.link FILESYSTEM_LASTCLUSTER (s.startOf i) (chain i) ∧ (chain i).Nodup ∧ 0 ∉ chain i) ∧
  (∀ i j, Used s i → Used s j → i ≠ j → (chain i).Disjoint (chain j)) ∧
  ∀ c, c ≠ 0 → c < s.manager.dwTotalClusterCount → s.link c ≠ FILESYSTEM_FREECLUSTER →
    ∃! i, Used s i ∧ c ∈ chain i

instance (s : State) (c : Nat) : Decidable (InUse s c) :=
  inferInstanceAs (Decidable ((c ≠ 0 ∧ c < s.manager.dwTotalClusterCount) ∧ s.link c ≠ FILESYSTEM_FREECLUSTER))

instance (s : State) (fh : FileHandle) : Decidable (Fresh s fh) := inferInstanceAs (Decidable
  (if fh.dwCurrentClusterIndex = FILESYSTEM_LASTCLUSTER then
    InUse s fh.dwPreviousClusterIndex ∧ s.link fh.dwPreviousClusterIndex = FILESYSTEM_LASTCLUSTER
  else InUse s fh.dwCurrentClusterIndex))

instance (fh : FileHandle) (iOffset iOrigin : Int) : Decidable (Extends fh iOffset iOrigin) :=
  inferInstanceAs (Decidable (_ < _))

instance (s : State) : (call : Call) → Decidable (InPlace s call)
  | .kWriteFile .. => inferInstanceAs (Decidable (_ ∧ _))
  | .kSeekFile .. => inferInstanceAs (Decidable (_ ∧ _))
  | .kOpenFile .. => inferInstanceAs (Decidable (_ ∧ True))
  | .kCloseFile .. => inferInstanceAs (Decidable (_ ∧ True))
  | .kRemoveFile .. => inferInstanceAs (Decidable (_ ∧ True))

theorem Sound.clustersOwned (h : Sound s chain) : ClustersOwned s := by
  refine ⟨chain, fun i hi => ?_, fun i j _ _ hij c hci hcj => hij (h.owns.disjoint i j c hci hcj), fun c h0 hc hlink => ?_⟩
  · have hchain := h.owns.chained i hi
    exact ⟨hchain, hchain.nodup, fun hmem => (h.inUse_of_mem hmem).1.1 rfl⟩
  · obtain ⟨i, hi⟩ := h.owns.covered c ⟨h0, hc⟩ hlink
    exact ⟨i, ⟨h.used_of_mem hi, hi⟩, fun j hj => h.owns.disjoint j i c hj.2 hi⟩

theorem boot_clustersOwned (disk buffer : Memory) (h : 9 ≤ T) (hT : T < 2 ^ 32) :
    ClustersOwned (boot disk buffer T) := by
  obtain ⟨hstart, hlink, -, -⟩ := boot_empty disk buffer h hT
  have hunused : ∀ i, ¬ Used (boot disk buffer T) i := fun i hi => hi.2 (hstart i hi.1)
  exact ⟨fun _ => [], fun i hi => absurd hi (hunused i), fun i _ hi => absurd hi (hunused i),
    fun c h0 hc hne => absurd (hlink c h0 hc) hne⟩

theorem boot_sound (disk buffer : Memory) (h : 9 ≤ T) (hT : T < 2 ^ 32)
    (hpos : 0 < (boot disk buffer T).manager.dwTotalClusterCount) :
    Sound (boot disk buffer T) (fun _ => []) ∧ HandlesIn (boot disk buffer T) := by
  obtain ⟨hstart, hlink, hpool, hready⟩ := boot_empty disk buffer h hT
  obtain ⟨hr, hroot, hinitial⟩ := hready hpos
  have hunused : ∀ i, ¬ Used (boot disk buffer T) i := fun i hi => hi.2 (hstart i hi.1)
  refine ⟨⟨hr, ?_, by rw [hroot]; decide, fun i hi _ => hinitial i hi⟩, fun k hfile => ?_⟩
  · constructor
    · exact fun i hi => absurd hi (hunused i)
    · exact fun i => ⟨fun hne => absurd rfl hne, fun hi => absurd hi (hunused i)⟩
    · intro i j c hc
      cases hc
    · intro i c hc
      cases hc
    · exact fun c hc hne => absurd (hlink c hc.1 hc.2) hne
  · rw [hpool k] at hfile
    cases hfile

/-- What every run keeps: on a volume that has clusters, the chains and the handles are in order. -/
structure Intact (s : State) : Prop where
  owned : ClustersOwned s
  sound : 0 < s.manager.dwTotalClusterCount → (∃ chain, Sound s chain) ∧ HandlesIn s

theorem call_intact (h : Intact s) {call : Call} (hplace : InPlace s call) (hs : s.call call = some s') :
    Intact s' := by
  obtain ⟨hpos, hplace⟩ := hplace
  obtain ⟨⟨chain, hsound⟩, hh⟩ := h.sound hpos
  have hafter : (∃ chain', Sound s' chain') ∧ HandlesIn s' := by
    cases call with
    | kOpenFile name mode stEntry =>
      obtain ⟨⟨r, s₁⟩, hopen, rfl⟩ := map_eq_some_iff.1 hs
      exact kOpenFile_sound hsound hh name.noNul hopen
    | kWriteFile pvBuffer dwSize dwCount k =>
      obtain ⟨⟨r, s₁⟩, hwrite, rfl⟩ := map_eq_some_iff.1 hs
      obtain ⟨hsound₁, hh₁, -⟩ := kWriteFile_sound hsound hh hplace hwrite
      exact ⟨hsound₁, hh₁⟩
    | kSeekFile k iOffset iOrigin =>
      obtain ⟨⟨r, s₁⟩, hseek, rfl⟩ := map_eq_some_iff.1 hs
      exact kSeekFile_sound hsound hh hplace hseek
    | kCloseFile k =>
      cases hs
      exact kCloseFile_sound hsound hh k
    | kRemoveFile name stEntry =>
      obtain ⟨⟨r, s₁⟩, hremove, rfl⟩ := map_eq_some_iff.1 hs
      obtain ⟨r', s₂, hremove', ⟨chain₂, hsound₂, -⟩, -, hh₂⟩ := kRemoveFile_sound hsound hh name.noNul stEntry
      rw [hremove'] at hremove
      cases hremove
      exact ⟨⟨chain₂, hsound₂⟩, hh₂⟩
  obtain ⟨⟨chain', hsound'⟩, hh'⟩ := hafter
  exact ⟨hsound'.clustersOwned, fun _ => ⟨⟨chain', hsound'⟩, hh'⟩⟩

theorem boot_init (disk buffer : Memory) (h : 9 ≤ T) (hT : T < 2 ^ 32) {P : State → Call → Prop} :
    fileSystem.ReachVia P (boot disk buffer T) :=
  .init ⟨disk, buffer, T, h, hT, rfl⟩

theorem intact_of_reachVia (h : fileSystem.ReachVia InPlace s) : Intact s := by
  refine h.invariant Intact ?_ fun s call s' hi hplace hs => call_intact hi hplace hs
  rintro s ⟨disk, buffer, T, hT, hT', rfl⟩
  exact ⟨boot_clustersOwned disk buffer hT hT', fun hpos =>
    ⟨⟨_, (boot_sound disk buffer hT hT' hpos).1⟩, (boot_sound disk buffer hT hT' hpos).2⟩⟩

/-- **Who owns the clusters.** As long as files are written through handles that still have their places, every
cluster that is not free belongs to exactly one file. -/
theorem clusters_owned {s : State} (h : fileSystem.ReachVia InPlace s) : ClustersOwned s :=
  (intact_of_reachVia h).owned

/-- Two files, of two clusters and of one. -/
theorem clusters_owned_run : ∃ s, fileSystem.ReachVia InPlace s ∧ ClustersOwned s ∧
    s.startOf 0 = 1 ∧ s.link 1 = 2 ∧ s.link 2 = FILESYSTEM_LASTCLUSTER ∧
    s.startOf 1 = 3 ∧ s.link 3 = FILESYSTEM_LASTCLUSTER := by
  let start : State := boot (fun _ => 0) (fun _ => 0) 40
  let a : FileName := ⟨[97], by decide⟩
  let b : FileName := ⟨[98], by decide⟩
  let h0 : Fin FILESYSTEM_HANDLE_MAXCOUNT := ⟨0, by decide⟩
  let h1 : Fin FILESYSTEM_HANDLE_MAXCOUNT := ⟨1, by decide⟩
  let calls : List Call := [.kOpenFile a 'w' fun _ => 0, .kWriteFile (fun _ => 1) 4096 1 h0,
    .kWriteFile (fun _ => 2) 1 1 h0, .kSeekFile h0 0 0, .kOpenFile b 'w' fun _ => 0, .kWriteFile (fun _ => 3) 1 5 h1,
    .kCloseFile h1, .kWriteFile (fun _ => 4) 1 3 h0, .kRemoveFile a fun _ => 0]
  have hrun : (fileSystem.exec start calls).map (fun s => decide
      (s.startOf 0 = 1 ∧ s.link 1 = 2 ∧ s.link 2 = FILESYSTEM_LASTCLUSTER ∧
        s.startOf 1 = 3 ∧ s.link 3 = FILESYSTEM_LASTCLUSTER)) = some true := by decide +kernel
  have hmeets : fileSystem.Meets InPlace start calls := by decide +kernel
  obtain ⟨s, hs, hfacts⟩ := Option.map_eq_some_iff.1 hrun
  have hreach := StepSystem.reachVia_exec calls (boot_init _ _ (by decide) (by decide)) hmeets hs
  exact ⟨s, hreach, clusters_owned hreach, of_decide_eq_true hfacts⟩

/-- **A handle that has lost its place.** Two handles on a file of one full cluster both stand behind it. Each of
them puts a cluster there when it goes on writing, and the cluster of the first is in no chain any more. -/
theorem clusters_leaked : ¬ ∀ s, fileSystem.Reach s → ClustersOwned s := by
  intro h
  let start : State := boot (fun _ => 0) (fun _ => 0) 40
  let a : FileName := ⟨[97], by decide⟩
  let h0 : Fin FILESYSTEM_HANDLE_MAXCOUNT := ⟨0, by decide⟩
  let h1 : Fin FILESYSTEM_HANDLE_MAXCOUNT := ⟨1, by decide⟩
  let calls : List Call := [.kOpenFile a 'w' fun _ => 0, .kOpenFile a 'r' fun _ => 0,
    .kWriteFile (fun _ => 1) 1 4096 h0, .kWriteFile (fun _ => 2) 1 4096 h1,
    .kWriteFile (fun _ => 3) 1 1 h0, .kWriteFile (fun _ => 4) 1 1 h1]
  have hrun : (fileSystem.exec start calls).map (fun s => decide
      (s.manager.dwTotalClusterCount = 4 ∧ (∀ i < FILESYSTEM_MAXDIRECTORYENTRYCOUNT, s.startOf i ≠ 0 → i = 0) ∧
        s.startOf 0 = 1 ∧ s.link 1 = 3 ∧ s.link 3 = FILESYSTEM_LASTCLUSTER ∧
        s.link 2 = FILESYSTEM_LASTCLUSTER)) = some true := by decide +kernel
  obtain ⟨s, hs, hfacts⟩ := Option.map_eq_some_iff.1 hrun
  obtain ⟨htotal, hused, hstart, hlink1, hlink3, hlink2⟩ := of_decide_eq_true hfacts
  obtain ⟨chain, hchain, -, hcovered⟩ := h s (StepSystem.reach_exec calls (boot_init _ _ (by decide) (by decide)) hs)
  obtain ⟨i, ⟨hi, hmem⟩, -⟩ := hcovered 2 (by decide) (by rw [htotal]; decide) (by rw [hlink2]; decide)
  obtain rfl := hused i hi.1 hi.2
  -- the chain of the only file is known
  have hknown : Chain s.link FILESYSTEM_LASTCLUSTER (s.startOf 0) [1, 3] := by
    refine ⟨hstart, by decide, ?_⟩
    rw [hlink1]
    exact ⟨rfl, by decide, hlink3⟩
  rw [(hchain 0 hi).1.unique hknown] at hmem
  revert hmem
  decide

end Mint
