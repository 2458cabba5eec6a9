import SkyOS.Mint.Names
import SkyOS.Mint.Sessions

/-!
# Seeking past the end (`kSeekFile`, `:1115-:1281`)

Where the target is in a cluster behind the one in which the file ends, `kSeekFile` goes to the end and writes zeros up to
the target. Where it is in the same cluster, the file does not grow, and the cursor stands behind its end.

| here | there |
| --- | --- |
| `SeekRight` | the file ends at the target, the cursor is there, and zeros are before it |
| `PastCluster` | the target is in a cluster behind the one in which the file ends |
| `ReadInside` | `kReadFile` returns bytes of the file |
-/

namespace Mint

open Bytes Machine LinkChain

variable {s s' : State} {chain chain' : Nat → List Nat} {k i size off : Nat}

/-! ## Writing zeros -/

variable {count total : Nat} {fh : FileHandle}

/-- **`kWriteZero`** puts `n` zeros behind the file: all, or as many as there are clusters for. -/
theorem writeZeros_placed {rounds : Nat} (h : Placed s chain k i size size) (hrounds : count ≤ rounds)
    (hlt : size + count < 2 ^ 32) : ∃ n chain' s', n ≤ count ∧
      writeZeros k rounds s count = some (decide (n = count), s') ∧
      Placed s' chain' k i (size + n) (size + n) ∧ Beside s s' chain chain' k i ∧
      (chain' i).length + s'.freeCount = (chain i).length + s.freeCount ∧
      (n < count → s'.freeCount = 0 ∧ size + n = FILESYSTEM_CLUSTERSIZE * (chain' i).length) ∧
      ∀ x < size + n, s'.fileByte (chain' i) x = if size ≤ x then 0 else s.fileByte (chain i) x := by
  induction rounds generalizing s chain size count with
  | zero =>
    obtain rfl : count = 0 := by omega
    exact ⟨0, chain, s, le_refl 0, rfl, h, (relinked_buffer h.sound.ready s.buffer).toKept.beside (fun _ _ => rfl) k,
      rfl, fun hlt => absurd hlt (Nat.lt_irrefl 0), fun x hx => (if_neg (by omega)).symm⟩
  | succ rounds ih =>
    rw [writeZeros]
    by_cases hdone : count = 0
    · subst hdone
      rw [if_pos rfl]
      exact ⟨0, chain, s, le_refl 0, rfl, h,
        (relinked_buffer h.sound.ready s.buffer).toKept.beside (fun _ _ => rfl) k, rfl,
        fun hlt => absurd hlt (Nat.lt_irrefl 0), fun x hx => (if_neg (by omega)).symm⟩
    · rw [if_neg hdone]
      dsimp only
      have hmin : min count FILESYSTEM_CLUSTERSIZE ≤ count ∧ 0 < min count FILESYSTEM_CLUSTERSIZE := by
        unfold FILESYSTEM_CLUSTERSIZE
        omega
      generalize min count FILESYSTEM_CLUSTERSIZE = m at hmin ⊢
      have hm : u32 (1 * m) = m := by rw [Nat.one_mul]; exact u32_of_lt (by omega)
      obtain ⟨n₁, chain₁, s₁, hn₁, hwrite, h₁, hbeside₁, hfree₁, hshort₁, -, hbytes₁⟩ :=
        kWriteFile_placed h (fun _ => 0) 1 m Nat.one_ne_zero (by rw [hm]; omega)
      rw [hm] at hn₁ hshort₁
      rw [show max size (size + n₁) = size + n₁ by omega] at h₁ hbytes₁
      have hzero₁ : ∀ x < size + n₁, s₁.fileByte (chain₁ i) x = if size ≤ x then 0 else s.fileByte (chain i) x := by
        intro x hx
        rw [hbytes₁ x hx]
        by_cases hle : size ≤ x
        · rw [if_pos ⟨hle, hx⟩, if_pos hle]
        · rw [if_neg (fun hand => hle hand.1), if_neg hle]
      rw [hwrite, Option.bind_some, Nat.div_one]
      by_cases hall : n₁ = m
      · subst hall
        rw [if_pos rfl]
        obtain ⟨n₂, chain₂, s₂, hn₂, hloop, h₂, hbeside₂, hfree₂, hshort₂, hbytes₂⟩ :=
          ih h₁ (show count - n₁ ≤ rounds by omega) (by omega)
        rw [Nat.add_assoc] at h₂ hshort₂ hbytes₂
        refine ⟨n₁ + n₂, chain₂, s₂, by omega, ?_, h₂, hbeside₁.trans hbeside₂, hfree₂.trans hfree₁,
          fun hlt => hshort₂ (by omega), fun x hx => ?_⟩
        · have hdecide : decide (n₂ = count - n₁) = decide (n₁ + n₂ = count) := decide_eq_decide.2 (by omega)
          rw [hloop, hdecide]
        · rw [hbytes₂ x hx]
          by_cases hle : size + n₁ ≤ x
          · rw [if_pos hle, if_pos (by omega)]
          · rw [if_neg hle, hzero₁ x (by omega)]
      · rw [if_neg hall]
        exact ⟨n₁, chain₁, s₁, by omega, by rw [decide_eq_false (by omega)], h₁, hbeside₁, hfree₁,
          fun _ => hshort₁ (by omega), hzero₁⟩

/-! ## One seek -/

theorem setHandle_self (s : State) (k : Nat) : s.setHandle k (s.manager.pstHandlePool k) = s := by
  unfold State.setHandle
  rw [Function.update_eq_self]

theorem placeHandle_eq {fh' : FileHandle} {n start p c x : Nat}
    (h : { placeHandle fh n start p c with dwCurrentOffset := x } = fh') :
    placeHandle fh n start p c = { fh' with dwCurrentOffset := fh.dwCurrentOffset } := by
  rw [← h]
  unfold placeHandle
  split
  · rfl
  · split <;> rfl

variable {dest : Nat} {iOffset iOrigin : Int}

theorem Placed.walk_to_end (h : Placed s chain k i size off) (hfile : fh.dwFileSize = size)
    (hstart : fh.dwStartClusterIndex = s.startOf i)
    (hext : size / FILESYSTEM_CLUSTERSIZE < dest / FILESYSTEM_CLUSTERSIZE) : ∃ n start p c s₁,
      seekMoves (fh.placed (chain i) off) dest = (n, start) ∧ moveClusters s 0 start n = (some (p, c), s₁) ∧
      placeHandle (fh.placed (chain i) off) n start p c = { fh.placed (chain i) size with dwCurrentOffset := off } ∧
      Relinked s s₁ s.link := by
  have hsize_lt := h.size_lt
  have hsize_le := h.size_le
  have hstart₀ : fh.dwStartClusterIndex = (chain i).getD 0 FILESYSTEM_LASTCLUSTER :=
    hstart.trans (h.sound.getD_zero h.used).symm
  have hdiv : off / FILESYSTEM_CLUSTERSIZE ≤ size / FILESYSTEM_CLUSTERSIZE := Nat.div_le_div_right h.off_le
  have hjn : off / FILESYSTEM_CLUSTERSIZE + (size / FILESYSTEM_CLUSTERSIZE - off / FILESYSTEM_CLUSTERSIZE) =
      size / FILESYSTEM_CLUSTERSIZE := by omega
  have hmoves : seekMoves (fh.placed (chain i) off) dest =
      (size / FILESYSTEM_CLUSTERSIZE - off / FILESYSTEM_CLUSTERSIZE,
        (chain i).getD (off / FILESYSTEM_CLUSTERSIZE) FILESYSTEM_LASTCLUSTER) := by
    unfold seekMoves
    rw [show (fh.placed (chain i) off).dwFileSize = fh.dwFileSize from rfl, hfile,
      show (fh.placed (chain i) off).dwCurrentOffset = off from rfl]
    rw [if_pos hext, sub32_of_le hdiv (by unfold FILESYSTEM_CLUSTERSIZE; omega)]
    rfl
  have hn : off / FILESYSTEM_CLUSTERSIZE + (size / FILESYSTEM_CLUSTERSIZE - off / FILESYSTEM_CLUSTERSIZE) ≤
      (chain i).length := by
    rw [hjn]
    unfold FILESYSTEM_CLUSTERSIZE at hsize_le ⊢
    omega
  obtain ⟨p, s₁, hmove, h₁, hp⟩ := moveClusters_placed h.sound h.used hn 0
  have hlast : FILESYSTEM_LASTCLUSTER ∉ chain i := fun hmem => h.sound.ne_last (h.sound.inUse_of_mem hmem) rfl
  exact ⟨_, _, p, _, s₁, hmoves, hmove, placeHandle_eq (placeHandle_placed hlast (h.sound.owns.chained i h.used).nodup
    (h.sound.length_pos h.used) hstart₀ hjn (.inl rfl) hp), h₁⟩

/-- **A seek that extends** goes to the end of the file and puts zeros behind it. -/
theorem kSeekFile_past (h : Placed s chain k i size off) (iOffset iOrigin : Int)
    (hext : size / FILESYSTEM_CLUSTERSIZE < dest / FILESYSTEM_CLUSTERSIZE) (hlt : dest < 2 ^ 32)
    (hreal : ∀ fh : FileHandle, fh.dwFileSize = size → fh.dwCurrentOffset = off → realOffset fh iOffset iOrigin = dest) :
    ∃ n chain' s', size + n ≤ dest ∧ kSeekFile s k iOffset iOrigin = some (0, s') ∧
      Placed s' chain' k i (size + n) (size + n) ∧ Beside s s' chain chain' k i ∧
      (chain' i).length + s'.freeCount = (chain i).length + s.freeCount ∧
      (size + n < dest → s'.freeCount = 0 ∧ size + n = FILESYSTEM_CLUSTERSIZE * (chain' i).length) ∧
      ∀ x < size + n, s'.fileByte (chain' i) x = if size ≤ x then 0 else s.fileByte (chain i) x := by
  obtain ⟨fh, hpool, hentry, hfile, hstart⟩ := h.handle
  have hlt_dest : size < dest := by
    unfold FILESYSTEM_CLUSTERSIZE at hext
    omega
  have hreal' : realOffset (fh.placed (chain i) off) iOffset iOrigin = dest := hreal _ hfile rfl
  obtain ⟨m, start, p, c, s₁, hmoves, hmove, hplaced, h₁⟩ := h.walk_to_end hfile hstart hext
  have hsound₁ := h.sound.kept h₁.toKept h₁.links
  have h₂ : Placed (s₁.setHandle k ⟨.file, fh.placed (chain i) size⟩) chain k i size size :=
    hsound₁.placed (h.fits.kept h₁.toKept) ((h₁.toKept.used i).2 h.used)
      ((h₁.toKept.sizeOf h.used.1).trans h.sizeOf) (le_refl size) hentry hfile
      (hstart.trans (h₁.toKept.startOf h.used.1).symm)
  have hbytes₁ : s₁.fileByte (chain i) = s.fileByte (chain i) := by
    funext y
    rw [State.fileByte, h₁.bytes]
    rfl
  have hfree₁ : s₁.freeCount = s.freeCount := freeCount_same h₁.toSteady h₁.links
  obtain ⟨n, chain₃, s₃, hn₃, hzero, h₃, hbeside₃, hfree₃, hshort₃, hbytes₃⟩ :=
    writeZeros_placed h₂ (Nat.le_refl (dest - size)) (by omega)
  have hbeside := ((h₁.toKept.beside (fun _ _ => rfl) k).setHandle _).trans hbeside₃
  rw [show (s₁.setHandle k ⟨.file, fh.placed (chain i) size⟩).freeCount = s₁.freeCount from rfl, hfree₁] at hfree₃
  refine ⟨n, chain₃, s₃, by omega, ?_, h₃, hbeside, hfree₃, fun hlt => hshort₃ (by omega), fun x hx => ?_⟩
  · unfold kSeekFile
    rw [hpool]
    dsimp only
    rw [if_neg (by simp), hreal', hmoves]
    dsimp only
    rw [hmove]
    dsimp only
    rw [hplaced, if_pos (by change fh.dwFileSize / _ < _; rw [hfile]; exact hext)]
    change Option.map _ (kWriteZero (s₁.setHandle k
      ⟨.file, { fh.placed (chain i) size with dwCurrentOffset := fh.dwFileSize }⟩) k (sub32 dest fh.dwFileSize)) = _
    rw [hfile, show ({ fh.placed (chain i) size with dwCurrentOffset := size } : FileHandle) = fh.placed (chain i) size
      from rfl, kWriteZero, sub32_of_le (Nat.le_of_lt hlt_dest) hlt, hzero, Option.map_some]
    by_cases hall : n = dest - size
    · rw [if_pos (decide_eq_true hall)]
      obtain ⟨fh₃, hpool₃, -⟩ := h₃.handle
      have hsame : (⟨.file, { fh₃.placed (chain₃ i) (size + n) with dwCurrentOffset := dest }⟩ : MFile) =
          s₃.manager.pstHandlePool k := by
        rw [hpool₃, show dest = size + n by omega]
        rfl
      rw [show (s₃.manager.pstHandlePool k).stFileHandle = fh₃.placed (chain₃ i) (size + n) by rw [hpool₃], hsame,
        setHandle_self]
    · rw [if_neg (by rw [decide_eq_false hall]; exact Bool.false_ne_true)]
  · rw [hbytes₃ x hx]
    split
    · rfl
    · exact congrFun hbytes₁ x

/-! ## When a seek past the end is right -/

def State.targetOf (s : State) (k : Nat) (iOffset iOrigin : Int) : Nat :=
  target (s.manager.pstHandlePool k).stFileHandle.dwFileSize (s.manager.pstHandlePool k).stFileHandle.dwCurrentOffset
    iOffset iOrigin

/-- The file ends at `dest`, for the handle and in the root directory, with clusters up to there, and the cursor is
there. -/
structure EndsAt (s : State) (k dest : Nat) : Prop where
  size : (s.manager.pstHandlePool k).stFileHandle.dwFileSize = dest
  entry : s.sizeOf (s.entryOf k) = dest
  clusters : dest ≤ FILESYSTEM_CLUSTERSIZE * (s.clustersOf k).length
  cursor : (s.manager.pstHandlePool k).stFileHandle.dwCurrentOffset = dest

/-- After the seek the file ends at the target, where the cursor is, and from the old end on it holds zeros. -/
def SeekRight (s : State) (k : Nat) (iOffset iOrigin : Int) : Prop := ∃ r s',
  kSeekFile s k iOffset iOrigin = some (r, s') ∧ EndsAt s' k (s.targetOf k iOffset iOrigin) ∧
  ∀ x, (s.manager.pstHandlePool k).stFileHandle.dwFileSize ≤ x → x < s.targetOf k iOffset iOrigin →
    s'.fileByte (s'.clustersOf k) x = 0

/-- The target is an offset, in a cluster behind the one in which the file ends. -/
def PastCluster (s : State) (k : Nat) (iOffset iOrigin : Int) : Prop :=
  (s.manager.pstHandlePool k).stFileHandle.dwFileSize / FILESYSTEM_CLUSTERSIZE <
    s.targetOf k iOffset iOrigin / FILESYSTEM_CLUSTERSIZE ∧ s.targetOf k iOffset iOrigin < 2 ^ 32

def HasRoom (s : State) (k : Nat) (iOffset iOrigin : Int) : Prop :=
  s.targetOf k iOffset iOrigin ≤ FILESYSTEM_CLUSTERSIZE * ((s.clustersOf k).length + s.freeCount)

section

variable (h : Placed s chain k i size off)
include h

theorem Placed.entryOf : s.entryOf k = i := by
  obtain ⟨fh, hpool, hentry, -⟩ := h.handle
  unfold State.entryOf
  rw [hpool]
  exact hentry

theorem Placed.clustersOf : s.clustersOf k = chain i := by
  unfold State.clustersOf
  rw [h.entryOf]
  exact h.sound.chainOf_eq h.used

theorem Placed.fields : (s.manager.pstHandlePool k).stFileHandle.dwFileSize = size ∧
    (s.manager.pstHandlePool k).stFileHandle.dwCurrentOffset = off := by
  obtain ⟨fh, hpool, -, hfile, -⟩ := h.handle
  rw [hpool]
  exact ⟨hfile, rfl⟩

theorem Placed.targetOf (iOffset iOrigin : Int) :
    s.targetOf k iOffset iOrigin = target size off iOffset iOrigin := by
  unfold State.targetOf
  rw [h.fields.1, h.fields.2]

end

theorem Placed.endsAt (h : Placed s chain k i size size) : EndsAt s k size := by
  refine ⟨h.fields.1, ?_, ?_, h.fields.2⟩
  · rw [h.entryOf]
    exact h.sizeOf
  · rw [h.clustersOf]
    exact h.size_le

theorem not_extends (hlow : -2 ^ 31 ≤ iOffset) (hhigh : iOffset < 2 ^ 31)
    (hoff : fh.dwCurrentOffset ≤ fh.dwFileSize) (hsize : fh.dwFileSize < 2 ^ 32)
    (hpast : ¬(fh.dwFileSize / FILESYSTEM_CLUSTERSIZE <
      target fh.dwFileSize fh.dwCurrentOffset iOffset iOrigin / FILESYSTEM_CLUSTERSIZE ∧
      target fh.dwFileSize fh.dwCurrentOffset iOffset iOrigin < 2 ^ 32)) : ¬Extends fh iOffset iOrigin := by
  unfold Extends
  by_cases hlt : target fh.dwFileSize fh.dwCurrentOffset iOffset iOrigin < 2 ^ 32
  · rw [realOffset_eq hlow hhigh hlt]
    exact fun hext => hpast ⟨hext, hlt⟩
  · have hle : realOffset fh iOffset iOrigin ≤ fh.dwFileSize := by
      have hmove : ∀ base ≤ fh.dwFileSize, ¬(base + iOffset).toNat < 2 ^ 32 → moveFrom base iOffset ≤ fh.dwFileSize := by
        intro base hbase hwrap
        unfold moveFrom
        split
        · exact Nat.zero_le _
        · omega
      unfold target at hlt
      unfold realOffset
      by_cases h0 : iOrigin = 0
      · rw [if_pos h0] at hlt
        omega
      · rw [if_neg h0] at hlt
        rw [if_neg h0]
        by_cases h1 : iOrigin = 1
        · rw [if_pos h1] at hlt
          rw [if_pos h1]
          exact hmove _ hoff hlt
        · rw [if_neg h1] at hlt
          rw [if_neg h1]
          by_cases h2 : iOrigin = 2
          · rw [if_pos h2] at hlt
            rw [if_pos h2]
            exact hmove _ le_rfl hlt
          · rw [if_neg h2]
            exact Nat.zero_le _
    exact Nat.not_lt.2 (Nat.div_le_div_right hle)

/-- **A seek past the end is right exactly when it goes to a later cluster** and there are clusters for it. -/
theorem seekRight_iff (h : Placed s chain k i size off) (hlow : -2 ^ 31 ≤ iOffset)
    (hhigh : iOffset < 2 ^ 31) (hpast : size < s.targetOf k iOffset iOrigin) :
    SeekRight s k iOffset iOrigin ↔ PastCluster s k iOffset iOrigin ∧ HasRoom s k iOffset iOrigin := by
  obtain ⟨hfile, hcursor⟩ := h.fields
  by_cases hcluster : PastCluster s k iOffset iOrigin
  · have hdest := h.targetOf iOffset iOrigin
    have hcluster' := hcluster
    unfold PastCluster at hcluster'
    unfold SeekRight HasRoom
    rw [hfile] at hcluster' ⊢
    rw [h.clustersOf]
    generalize s.targetOf k iOffset iOrigin = dest at *
    obtain ⟨n, chain', s', hn, hseek, hplaced, -, hfree, hshort, hbytes⟩ := kSeekFile_past h iOffset iOrigin hcluster'.1
      hcluster'.2 fun fh hsize hoff => by
        rw [hdest] at hcluster' ⊢
        rw [← hsize, ← hoff] at hcluster' ⊢
        exact realOffset_eq hlow hhigh hcluster'.2
    rw [hseek]
    constructor
    · rintro ⟨r, s₁, heq, hends, -⟩
      cases heq
      refine ⟨hcluster, ?_⟩
      have hclusters := hends.clusters
      rw [hplaced.clustersOf] at hclusters
      rw [← hfree]
      exact Nat.le_trans hclusters (Nat.mul_le_mul_left _ (Nat.le_add_right _ _))
    · rintro ⟨-, hroom⟩
      obtain rfl : size + n = dest := by
        by_contra hne
        obtain ⟨hnone, hend⟩ := hshort (by omega)
        rw [hnone, Nat.add_zero] at hfree
        rw [← hfree, ← hend] at hroom
        omega
      refine ⟨0, s', rfl, hplaced.endsAt, fun x hle hx => ?_⟩
      rw [hplaced.clustersOf, hbytes x hx, if_pos hle]
  · refine iff_of_false ?_ fun hand => hcluster hand.1
    rintro ⟨r, s', hseek, hends, -⟩
    have hext : ¬Extends (s.manager.pstHandlePool k).stFileHandle iOffset iOrigin :=
      not_extends hlow hhigh (by rw [hfile, hcursor]; exact h.off_le) (by rw [hfile]; exact h.size_lt) hcluster
    have hsame := (kSeekFile_onlyFile h.sound.ready hext hseek).2.2
    rw [hends.size, hfile] at hsame
    omega

/-! ## Reading -/

/-- Each byte that `kReadFile` returns is one of the file. -/
def ReadInside (s : State) (pvBuffer : Memory) (dwSize dwCount k : Nat) : Prop :=
  ∀ x < (kReadFile s pvBuffer dwSize dwCount k).1.1,
    (s.manager.pstHandlePool k).stFileHandle.dwCurrentOffset + x < (s.manager.pstHandlePool k).stFileHandle.dwFileSize

def ReadsNothing (s : State) (dwSize dwCount k : Nat) : Prop :=
  (s.manager.pstHandlePool k).bType ≠ .file ∨
  (s.manager.pstHandlePool k).stFileHandle.dwCurrentClusterIndex = FILESYSTEM_LASTCLUSTER ∨
  u32 (dwSize * dwCount) = 0 ∨ s.faults.head? = some true

theorem readRound_count (s : State) (fh : FileHandle) (pv : Memory) (h : count < total) :
    (s.faults.head? = some true → (readRound s fh pv total count).1 = false ∧
      (readRound s fh pv total count).2.2.1 = count) ∧
    (s.faults.head? ≠ some true → count < (readRound s fh pv total count).2.2.1 ∧
      (readRound s fh pv total count).2.2.1 ≤ total) := by
  unfold readRound kReadCluster readHDDSector
  constructor
  · intro hfault
    rw [if_pos hfault]
    exact ⟨rfl, rfl⟩
  · intro hok
    rw [if_neg hok]
    have hmod : fh.dwCurrentOffset % FILESYSTEM_CLUSTERSIZE < FILESYSTEM_CLUSTERSIZE := Nat.mod_lt _ (by decide)
    dsimp only
    omega

theorem readLoop_count (s : State) (fh : FileHandle) (pv : Memory) (rounds : Nat)
    (h : count ≤ total) : count ≤ (readLoop total rounds s fh pv count).2.1 ∧
      (readLoop total rounds s fh pv count).2.1 ≤ total := by
  induction rounds generalizing s fh pv count with
  | zero => exact ⟨le_rfl, h⟩
  | succ rounds ih =>
    rw [readLoop]
    split
    · exact ⟨le_rfl, h⟩
    · obtain ⟨hfault, hok⟩ := readRound_count s fh pv (show count < total by omega)
      have hround : count ≤ (readRound s fh pv total count).2.2.1 ∧ (readRound s fh pv total count).2.2.1 ≤ total := by
        by_cases hf : s.faults.head? = some true
        · rw [(hfault hf).2]
          exact ⟨le_rfl, h⟩
        · exact ⟨Nat.le_of_lt (hok hf).1, (hok hf).2⟩
      generalize readRound s fh pv total count = result at hround ⊢
      obtain ⟨go, pv₁, count₁, fh₁, s₁⟩ := result
      cases go with
      | false => exact hround
      | true =>
        obtain ⟨hle, hle'⟩ := ih s₁ fh₁ pv₁ hround.2
        exact ⟨Nat.le_trans hround.1 hle, hle'⟩

theorem readLoop_pos (s : State) (fh : FileHandle) (pv : Memory) (hpos : 0 < total) (rounds : Nat) :
    (readLoop total (rounds + 1) s fh pv 0).2.1 = 0 ↔ s.faults.head? = some true := by
  obtain ⟨hfault, hok⟩ := readRound_count s fh pv hpos
  rw [readLoop, if_neg (Nat.ne_of_lt hpos)]
  generalize readRound s fh pv total 0 = result at hfault hok ⊢
  obtain ⟨go, pv₁, count₁, fh₁, s₁⟩ := result
  constructor
  · intro hzero
    by_contra hf
    have hlt := (hok hf).1
    have hle := (hok hf).2
    cases go with
    | false => exact Nat.lt_irrefl 0 (hzero ▸ hlt)
    | true =>
      have hcount := (readLoop_count s₁ fh₁ pv₁ rounds hle).1
      dsimp only at hzero hlt hcount
      omega
  · intro hf
    obtain ⟨hgo, hcount⟩ := hfault hf
    subst hgo
    exact hcount

theorem readLoop_behind (s : State) (fh : FileHandle) (pv : Memory)
    (hbehind : fh.dwFileSize < fh.dwCurrentOffset) :
    (∀ x < (readLoop total total s fh pv 0).2.1, fh.dwCurrentOffset + x < fh.dwFileSize) ↔
      total = 0 ∨ s.faults.head? = some true := by
  have hnothing : (∀ x < (readLoop total total s fh pv 0).2.1, fh.dwCurrentOffset + x < fh.dwFileSize) ↔
      (readLoop total total s fh pv 0).2.1 = 0 := by
    constructor
    · intro hall
      by_contra hne
      have hfirst := hall 0 (Nat.pos_of_ne_zero hne)
      omega
    · intro hzero x hx
      omega
  rw [hnothing]
  cases total with
  | zero => exact iff_of_true rfl (.inl rfl)
  | succ total =>
    rw [readLoop_pos s fh pv (Nat.succ_pos total) total]
    exact ⟨.inr, fun h => h.resolve_left (Nat.succ_ne_zero total)⟩

/-- **A read is inside the file exactly when the cursor is not behind its end**, or nothing is read: for every state and
every handle. -/
theorem kReadFile_inside_iff (s : State) (pvBuffer : Memory) (dwSize dwCount k : Nat)
    (hoff : (s.manager.pstHandlePool k).stFileHandle.dwCurrentOffset < 2 ^ 32)
    (hsize : (s.manager.pstHandlePool k).stFileHandle.dwFileSize < 2 ^ 32) :
    ReadInside s pvBuffer dwSize dwCount k ↔ (s.manager.pstHandlePool k).stFileHandle.dwCurrentOffset ≤
      (s.manager.pstHandlePool k).stFileHandle.dwFileSize ∨ ReadsNothing s dwSize dwCount k := by
  unfold ReadInside ReadsNothing kReadFile
  generalize s.manager.pstHandlePool k = file at *
  obtain ⟨bType, fh⟩ := file
  dsimp only at *
  by_cases htype : bType = .file
  · rw [if_neg (not_not.2 htype)]
    by_cases hstop : fh.dwCurrentOffset = fh.dwFileSize ∨ fh.dwCurrentClusterIndex = FILESYSTEM_LASTCLUSTER
    · rw [if_pos hstop]
      refine iff_of_true nofun (hstop.imp (fun heq => Nat.le_of_eq heq) fun hlast => .inr (.inl hlast))
    · rw [if_neg hstop]
      obtain ⟨-, hlast⟩ := not_or.1 hstop
      by_cases hinside : fh.dwCurrentOffset ≤ fh.dwFileSize
      · refine iff_of_true (fun x hx => ?_) (.inl hinside)
        have hle : min (u32 (dwSize * dwCount)) (sub32 fh.dwFileSize fh.dwCurrentOffset) ≤
            fh.dwFileSize - fh.dwCurrentOffset := by
          rw [sub32_of_le hinside hsize]
          exact Nat.min_le_right _ _
        have hx' := Nat.lt_of_lt_of_le hx (readLoop_count s fh pvBuffer _ (Nat.zero_le _)).2
        omega
      · -- a first byte would be behind the end
        have hleft : 0 < sub32 fh.dwFileSize fh.dwCurrentOffset := by
          unfold sub32 u32
          omega
        have htotal : min (u32 (dwSize * dwCount)) (sub32 fh.dwFileSize fh.dwCurrentOffset) = 0 ↔
            u32 (dwSize * dwCount) = 0 := by omega
        refine (readLoop_behind s fh pvBuffer (by omega)).trans ?_
        rw [htotal]
        constructor
        · exact fun h => .inr (.inr (.inr h))
        · rintro (hle | hno | hend | h)
          · exact absurd hle hinside
          · exact absurd htype hno
          · exact absurd hend hlast
          · exact h
  · rw [if_pos htype]
    exact iff_of_true nofun (.inr (.inl htype))

end Mint
