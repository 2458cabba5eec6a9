import SkyOS.Fat32.FATReadFile

/-!
# The widths of `FATReadFile` (`fat32.cpp:680`)

The size of a cluster and the number returned are of 16 bits, the request, the size of the file and the bytes passed of
32. A cluster of 64 KB has size 0, so that the loop goes through the chain and delivers nothing; a call that delivers
64 KB and more returns what is left of their number modulo `2^16`; and at the end of a file of almost 4 GB the sum that
is compared with its size wraps around, and the loop goes on behind it.

| here | there |
| --- | --- |
| `Returns` | the loop comes to its end, in some number of rounds |
| `WidthRight` | a call is as its caller takes it |
| `Reads k` | the next `k` clusters can be read |
| `fromCount` | what the call delivers from the buffer if it is for more |
| `WidthSuits` | the requests that are answered right |
-/

namespace Fat32

open Machine Bytes Nat

variable (disk : HardDisk) (fi : FATInfo)

/-! ## One call -/

/-- `FATReadFile` (:680), without a bound on the rounds. -/
def Returns (file : FATOpenFileInfo) (sizeInBytes : Nat) (file' : FATOpenFileInfo) (bytes : List UInt8) (returned : Nat) :
    Prop :=
  ∃ rounds totReadBytes, readLoop disk fi rounds (fromBuffer fi file sizeInBytes).1 sizeInBytes
      (fromBuffer fi file sizeInBytes).2.2 (fromBuffer fi file sizeInBytes).2.1 = some (file', bytes, totReadBytes) ∧
    returned = totReadBytes % 2 ^ 16

inductive Opened (first fileSize : Nat) : FATOpenFileInfo → Prop where
  | fileOpen (sectorBuffer buffer : Memory) : Opened first fileSize (fatFileOpen sectorBuffer buffer first fileSize)
  | readFile {file file' : FATOpenFileInfo} {sizeInBytes returned : Nat} {bytes : List UInt8}
      (h : Opened first fileSize file) (hsize : sizeInBytes < 2 ^ 32)
      (hreturns : Returns disk fi file sizeInBytes file' bytes returned) : Opened first fileSize file'

/-- The call returns, stores no more than it is asked for, and returns the number of the bytes stored. -/
def WidthRight (file : FATOpenFileInfo) (sizeInBytes : Nat) : Prop :=
  ∃ file' bytes, Returns disk fi file sizeInBytes file' bytes bytes.length ∧ bytes.length ≤ sizeInBytes

/-! ## What is asked of the request -/

def Reads : Nat → FATOpenFileInfo → Prop
  | 0, _ => True
  | k + 1, file => ∃ file', fatReadFileCluster disk fi file = some (file', true) ∧ Reads k file'

namespace FATOpenFileInfo

def left (file : FATOpenFileInfo) : Nat := file.fileSize - file.totalBytesPassed

def inBuffer (file : FATOpenFileInfo) : Nat := if file.bufferIsValid then fi.bufferSize - file.bufferOffset else 0

def fromCount (file : FATOpenFileInfo) : Nat := file.clamp (file.inBuffer fi)

def beforeLast (file : FATOpenFileInfo) : Nat :=
  file.fromCount fi + fi.bufferSize * ((file.left - file.fromCount fi) / fi.bufferSize)

/-- The bytes passed and those of the round in which the file ends add up to `2^32` and more. -/
def Overruns (file : FATOpenFileInfo) (sizeInBytes : Nat) : Prop :=
  2 ^ 32 ≤ file.totalBytesPassed + file.inBuffer fi ∨
    2 ^ 32 ≤ file.totalBytesPassed + file.beforeLast fi + min fi.bufferSize (sizeInBytes - file.beforeLast fi)

end FATOpenFileInfo

/-- The chain, or the disk, gives out before 64 KB have been delivered. Or, with clusters of less than 64 KB, less than
that is asked for or left, without an overrun; with clusters of 64 KB, nothing is asked for. -/
def WidthSuits (file : FATOpenFileInfo) (sizeInBytes : Nat) : Prop :=
  (∃ k, file.fromCount fi + k * fi.bufferSize < 2 ^ 16 ∧ ¬ Reads disk fi (k + 1) file) ∨
    if fi.bufferSize = 0 then sizeInBytes = 0
    else sizeInBytes < 2 ^ 16 ∨ file.left < 2 ^ 16 ∧ ¬ file.Overruns fi sizeInBytes

/-! ## Open files -/

variable {disk fi} {file file' : FATOpenFileInfo} {n tot rounds : Nat} {out : List UInt8}

structure Sound (fi : FATInfo) (file : FATOpenFileInfo) : Prop where
  size : file.fileSize < 2 ^ 32
  passed : file.totalBytesPassed ≤ file.fileSize
  offset : file.bufferIsValid = true → file.bufferOffset ≤ fi.bufferSize

theorem bufferSize_lt (fi : FATInfo) : fi.bufferSize < 2 ^ 16 := mod_lt _ (by decide)

variable {ok : Bool}

theorem fatReadFileCluster_frame (h : fatReadFileCluster disk fi file = some (file', ok)) :
    file'.fileSize = file.fileSize ∧ file'.totalBytesPassed = file.totalBytesPassed ∧
      if ok then file'.bufferOffset = 0 else
        file'.bufferOffset = file.bufferOffset ∧ file'.bufferIsValid = file.bufferIsValid := by
  unfold fatReadFileCluster nextCluster at h
  dsimp only at h
  split_ifs at h <;> cases h <;> exact ⟨rfl, rfl, by simp⟩

theorem fatReadFileCluster_isSome (hsector : fi.bpb.bytesPerSector = 512) (file : FATOpenFileInfo) :
    ∃ r, fatReadFileCluster disk fi file = some r := by
  unfold fatReadFileCluster nextCluster
  dsimp only
  split_ifs
  all_goals first | exact ⟨_, rfl⟩ | exact absurd (fi.entry_fits hsector _) (Nat.not_le.2 ‹_›)

def SameChain (file file' : FATOpenFileInfo) : Prop :=
  file'.sectorBuffer = file.sectorBuffer ∧ file'.bufferedFATSector = file.bufferedFATSector ∧
    file'.buffer = file.buffer ∧ file'.currentCluster = file.currentCluster

theorem SameChain.symm (h : SameChain file file') : SameChain file' file :=
  ⟨h.1.symm, h.2.1.symm, h.2.2.1.symm, h.2.2.2.symm⟩

variable {next : FATOpenFileInfo} {size : Nat}

theorem SameChain.read (h : SameChain file file')
    (hread : fatReadFileCluster disk fi file = some (next, ok)) :
    ∃ next', fatReadFileCluster disk fi file' = some (next', ok) ∧ SameChain next next' := by
  obtain ⟨hsector, hbuffered, hbuffer, hcluster⟩ := h
  unfold fatReadFileCluster nextCluster at hread ⊢
  dsimp only at hread ⊢
  rw [hsector, hbuffered, hbuffer, hcluster]
  split_ifs at hread ⊢ <;> cases hread <;> exact ⟨_, rfl, by simp [SameChain, *]⟩

theorem SameChain.reads (k : Nat) : ∀ {file file' : FATOpenFileInfo}, SameChain file file' →
    (Reads disk fi k file ↔ Reads disk fi k file') := by
  have hone : ∀ {file file' : FATOpenFileInfo}, SameChain file file' → Reads disk fi k file → Reads disk fi k file' := by
    induction k with
    | zero => exact fun _ _ => trivial
    | succ k ih =>
      rintro file file' h ⟨next, hread, hreads⟩
      obtain ⟨next', hread', hnext⟩ := h.read hread
      exact ⟨next', hread', ih hnext hreads⟩
  exact fun {_ _} h => ⟨hone h, hone h.symm⟩

theorem reads_succ_iff (hread : fatReadFileCluster disk fi file = some (next, true))
    (hsame : SameChain next file') (k : Nat) : Reads disk fi (k + 1) file ↔ Reads disk fi k file' := by
  rw [← hsame.reads k]
  constructor
  · rintro ⟨next', hread', hreads⟩
    rw [hread] at hread'
    cases hread'
    exact hreads
  · exact fun hreads => ⟨next, hread, hreads⟩

theorem not_reads_succ (hread : fatReadFileCluster disk fi file = some (next, false)) (k : Nat) :
    ¬ Reads disk fi (k + 1) file := by
  rintro ⟨next', hread', -⟩
  rw [hread] at hread'
  cases hread'

/-! ## One round -/

def request (fi : FATInfo) (sizeInBytes tot : Nat) : Nat :=
  if u32 (tot + fi.bufferSize) > sizeInBytes then sub32 sizeInBytes tot else fi.bufferSize

theorem request_le (hmore : tot < n) (hn : n < 2 ^ 32) : request fi n tot ≤ fi.bufferSize := by
  unfold request
  rw [sub32_of_le (Nat.le_of_lt hmore) hn]
  unfold u32
  split <;> omega

theorem readLoop_succ (hmore : tot < n) (rounds : Nat) (out : List UInt8)
    (hread : fatReadFileCluster disk fi file = some (next, true)) :
    readLoop disk fi (rounds + 1) file n tot out =
      if u32 (next.totalBytesPassed + request fi n tot) > next.fileSize then
        readLoop disk fi rounds
          { next.pass (sub32 next.fileSize next.totalBytesPassed) with bufferIsValid := false }
          (sub32 next.fileSize next.totalBytesPassed) (u32 (tot + sub32 next.fileSize next.totalBytesPassed))
          (out ++ slice next.buffer 0 (sub32 next.fileSize next.totalBytesPassed))
      else
        readLoop disk fi rounds (next.pass (request fi n tot)) n (u32 (tot + request fi n tot))
          (out ++ slice next.buffer 0 (request fi n tot)) := by
  rw [readLoop, if_pos hmore, hread]
  rfl

theorem readLoop_fails (hmore : tot < n) (rounds : Nat) (out : List UInt8)
    (hread : fatReadFileCluster disk fi file = some (file', false)) :
    readLoop disk fi (rounds + 1) file n tot out = some (file', out, tot) := by
  rw [readLoop, if_pos hmore, hread]

theorem readLoop_grows (rounds : Nat) : ∀ {file file' : FATOpenFileInfo} {n tot tot' : Nat} {out out' : List UInt8},
    readLoop disk fi rounds file n tot out = some (file', out', tot') → out.length ≤ out'.length := by
  induction rounds with
  | zero =>
    intro file file' n tot tot' out out' h
    rw [readLoop] at h
    split at h
    · cases h
    · cases h
      exact le_rfl
  | succ rounds ih =>
    intro file file' n tot tot' out out' h
    by_cases hmore : tot < n
    · cases hread : fatReadFileCluster disk fi file with
      | none =>
        rw [readLoop, if_pos hmore, hread] at h
        cases h
      | some r =>
        obtain ⟨next, _ | _⟩ := r
        · rw [readLoop_fails hmore rounds out hread] at h
          cases h
          exact le_rfl
        · rw [readLoop_succ hmore rounds out hread] at h
          split at h
          · exact (List.length_append ▸ Nat.le_add_right _ _).trans (ih h)
          · exact (List.length_append ▸ Nat.le_add_right _ _).trans (ih h)
    · rw [readLoop_done (Nat.le_of_not_lt hmore)] at h
      cases h
      exact le_rfl

/-! ## The loop -/

/-- The loop ends with what a call for `size` bytes is to end with. -/
def LoopRight (disk : HardDisk) (fi : FATInfo) (size : Nat) (file : FATOpenFileInfo) (n tot : Nat) (out : List UInt8) :
    Prop :=
  ∃ rounds file' out' tot', readLoop disk fi rounds file n tot out = some (file', out', tot') ∧
    out'.length = tot' % 2 ^ 16 ∧ out'.length ≤ size

theorem loopRight_done (hdone : n ≤ tot) :
    LoopRight disk fi size file n tot out ↔ out.length = tot % 2 ^ 16 ∧ out.length ≤ size := by
  constructor
  · rintro ⟨rounds, file', out', tot', hloop, hright⟩
    rw [readLoop_done hdone] at hloop
    cases hloop
    exact hright
  · exact fun hright => ⟨0, file, out, tot, readLoop_done hdone 0 out, hright⟩

theorem loopRight_fails (hmore : tot < n)
    (hread : fatReadFileCluster disk fi file = some (file', false)) :
    LoopRight disk fi size file n tot out ↔ out.length = tot % 2 ^ 16 ∧ out.length ≤ size := by
  constructor
  · rintro ⟨rounds, file'', out', tot', hloop, hright⟩
    cases rounds with
    | zero =>
      rw [readLoop, if_pos hmore] at hloop
      cases hloop
    | succ rounds =>
      rw [readLoop_fails hmore rounds out hread] at hloop
      cases hloop
      exact hright
  · exact fun hright => ⟨1, file', out, tot, readLoop_fails hmore 0 out hread, hright⟩

theorem loopRight_succ (hmore : tot < n)
    (hread : fatReadFileCluster disk fi file = some (next, true)) : LoopRight disk fi size file n tot out ↔
      if u32 (next.totalBytesPassed + request fi n tot) > next.fileSize then
        LoopRight disk fi size { next.pass (sub32 next.fileSize next.totalBytesPassed) with bufferIsValid := false }
          (sub32 next.fileSize next.totalBytesPassed) (u32 (tot + sub32 next.fileSize next.totalBytesPassed))
          (out ++ slice next.buffer 0 (sub32 next.fileSize next.totalBytesPassed))
      else
        LoopRight disk fi size (next.pass (request fi n tot)) n (u32 (tot + request fi n tot))
          (out ++ slice next.buffer 0 (request fi n tot)) := by
  have hzero : ∀ r, readLoop disk fi 0 file n tot out ≠ some r := fun r h => by
    rw [readLoop, if_pos hmore] at h
    cases h
  unfold LoopRight
  rw [← or_exists_add_one, or_iff_right (by rintro ⟨_, _, _, h, -⟩; exact hzero _ h)]
  simp only [readLoop_succ hmore _ out hread]
  split <;> rfl

/-- 64 KB that have been stored are too many for the number returned. -/
theorem not_loopRight (hout : 2 ^ 16 ≤ out.length) : ¬ LoopRight disk fi size file n tot out := by
  rintro ⟨rounds, file', out', tot', hloop, hreturned, -⟩
  have hgrows := readLoop_grows rounds hloop
  omega

def FATOpenFileInfo.wholeClusters (fi : FATInfo) (file : FATOpenFileInfo) : Nat :=
  fi.bufferSize * (file.left / fi.bufferSize)

/-- `WidthSuits` in the loop, of clusters of less than 64 KB. -/
def LoopSuits (disk : HardDisk) (fi : FATInfo) (file : FATOpenFileInfo) (n tot : Nat) : Prop :=
  (∃ k, tot + k * fi.bufferSize < 2 ^ 16 ∧ ¬ Reads disk fi (k + 1) file) ∨ n < 2 ^ 16 ∨
    tot + file.left < 2 ^ 16 ∧
      file.totalBytesPassed + file.wholeClusters fi + min fi.bufferSize (n - tot - file.wholeClusters fi) < 2 ^ 32

/-! Where the next cluster can be read, `b` bytes are asked of it. -/

section

variable {next : FATOpenFileInfo} (hread : fatReadFileCluster disk fi file = some (next, true)) {b : Nat}
  (hb : b = min fi.bufferSize (n - tot))

include hread in
theorem givesOut_iff : (∃ k, tot + k * fi.bufferSize < 2 ^ 16 ∧ ¬ Reads disk fi (k + 1) file) ↔
    ∃ k, tot + fi.bufferSize + k * fi.bufferSize < 2 ^ 16 ∧ ¬ Reads disk fi (k + 1) (next.pass b) := by
  have hreads : ∀ k, Reads disk fi (k + 1) file ↔ Reads disk fi k (next.pass b) :=
    reads_succ_iff hread ⟨rfl, rfl, rfl, rfl⟩
  have hfirst : ¬ (tot + 0 * fi.bufferSize < 2 ^ 16 ∧ ¬ Reads disk fi (0 + 1) file) := fun h => h.2 ((hreads 0).2 trivial)
  rw [← or_exists_add_one, or_iff_right hfirst]
  refine exists_congr fun k => ?_
  rw [hreads, succ_mul, Nat.add_comm (k * fi.bufferSize), Nat.add_assoc]

include hread hb

theorem loopSuits_last (hend : file.left < b) (hsum : file.totalBytesPassed + b < 2 ^ 32) :
    LoopSuits disk fi file n tot ↔ tot + file.left < 2 ^ 16 := by
  have hwhole : file.wholeClusters fi = 0 := by
    rw [FATOpenFileInfo.wholeClusters, div_eq_of_lt (by omega), Nat.mul_zero]
  unfold LoopSuits
  rw [givesOut_iff (b := b) hread, hwhole]
  constructor
  · rintro (⟨k, hk, -⟩ | h | h)
    · omega
    · omega
    · exact h.1
  · exact fun h => .inr (.inr ⟨h, by omega⟩)

theorem not_loopSuits (hmore : tot < n) (hlarge : 2 ^ 16 ≤ tot + b)
    (hover : file.left < b → 2 ^ 32 ≤ file.totalBytesPassed + b) : ¬ LoopSuits disk fi file n tot := by
  unfold LoopSuits
  rw [givesOut_iff (b := b) hread]
  rintro (⟨k, hk, -⟩ | h | ⟨h, hsum⟩)
  · omega
  · omega
  · have hwhole : file.wholeClusters fi = 0 := by
      rw [FATOpenFileInfo.wholeClusters, div_eq_of_lt (by omega), Nat.mul_zero]
    rw [hwhole] at hsum
    omega

theorem loopSuits_next (hpos : 0 < fi.bufferSize) (hmore : tot < n) (hsmall : tot + b < 2 ^ 16)
    (hsize : file.fileSize < 2 ^ 32) (hpassed : file.totalBytesPassed ≤ file.fileSize)
    (hnextSize : next.fileSize = file.fileSize) (hnextPassed : next.totalBytesPassed = file.totalBytesPassed)
    (hover : file.left < b → 2 ^ 32 ≤ file.totalBytesPassed + b) :
    LoopSuits disk fi (next.pass b) n (tot + b) ↔ LoopSuits disk fi file n tot := by
  by_cases hn : n < 2 ^ 16
  · exact iff_of_true (.inr (.inl hn)) (.inr (.inl hn))
  obtain rfl : b = fi.bufferSize := by omega
  have hpassed' : (next.pass fi.bufferSize).totalBytesPassed = u32 (file.totalBytesPassed + fi.bufferSize) := by
    rw [← hnextPassed]
    rfl
  have hleft' : (next.pass fi.bufferSize).left = file.fileSize - u32 (file.totalBytesPassed + fi.bufferSize) := by
    rw [FATOpenFileInfo.left, hpassed', ← hnextSize]
    rfl
  unfold LoopSuits
  rw [givesOut_iff (b := fi.bufferSize) hread, or_iff_right (a := n < 2 ^ 16) hn, or_iff_right (a := n < 2 ^ 16) hn]
  refine or_congr_right ?_
  rw [hpassed', hleft', FATOpenFileInfo.wholeClusters, FATOpenFileInfo.wholeClusters, hleft']
  unfold FATOpenFileInfo.left at hover ⊢
  by_cases hin : file.fileSize - file.totalBytesPassed < fi.bufferSize
  · -- the sum has wrapped around
    have hu32 : u32 (file.totalBytesPassed + fi.bufferSize) = file.totalBytesPassed + fi.bufferSize - 2 ^ 32 := by
      unfold u32
      omega
    have hwhole : (file.fileSize - file.totalBytesPassed) / fi.bufferSize = 0 := div_eq_of_lt hin
    rw [hwhole, hu32]
    omega
  · obtain ⟨rest, hrest⟩ : ∃ rest, file.fileSize - file.totalBytesPassed = fi.bufferSize + rest :=
      ⟨file.fileSize - file.totalBytesPassed - fi.bufferSize, by omega⟩
    have hdiv : (fi.bufferSize + rest) / fi.bufferSize = rest / fi.bufferSize + 1 := add_div_left rest hpos
    rw [u32_of_lt (by omega), show file.fileSize - (file.totalBytesPassed + fi.bufferSize) = rest by omega, hrest, hdiv,
      mul_succ]
    generalize fi.bufferSize * (rest / fi.bufferSize) = whole
    omega

end

section

variable (hsector : fi.bpb.bytesPerSector = 512) (hpos : 0 < fi.bufferSize) (hn : n < 2 ^ 32)

include hsector hpos hn

theorem loopRight_iff : ∀ {file : FATOpenFileInfo} {tot : Nat} {out : List UInt8}, file.fileSize < 2 ^ 32 →
    file.totalBytesPassed ≤ file.fileSize → tot ≤ n → tot < 2 ^ 16 → out.length = tot →
    (LoopRight disk fi n file n tot out ↔ LoopSuits disk fi file n tot) := by
  intro file tot out hsize hpassed hle htot hout
  induction hmeasure : 2 ^ 16 - tot using Nat.strong_induction_on generalizing file tot out with
  | _ measure ih =>
    have hbuffer := bufferSize_lt fi
    rcases Nat.eq_or_lt_of_le hle with rfl | hmore
    · rw [loopRight_done le_rfl, hout, mod_eq_of_lt htot]
      exact iff_of_true ⟨rfl, le_rfl⟩ (.inr (.inl htot))
    obtain ⟨⟨next, ok⟩, hread⟩ := @fatReadFileCluster_isSome disk _ hsector file
    cases ok with
    | false =>
      rw [loopRight_fails hmore hread, hout, mod_eq_of_lt htot]
      exact iff_of_true ⟨rfl, hle⟩ (.inl ⟨0, by omega, not_reads_succ hread 0⟩)
    | true =>
      obtain ⟨hnextSize, hnextPassed, -⟩ := fatReadFileCluster_frame hread
      obtain ⟨b, hb⟩ : ∃ b, request fi n tot = b := ⟨_, rfl⟩
      have hb' : b = min fi.bufferSize (n - tot) := by
        rw [← hb, request, u32_of_lt (by omega), sub32_of_le hle hn]
        split <;> omega
      have hleft : sub32 file.fileSize file.totalBytesPassed = file.left := sub32_of_le hpassed hsize
      have hleftSum : file.totalBytesPassed + file.left = file.fileSize := by
        unfold FATOpenFileInfo.left
        omega
      rw [loopRight_succ hmore hread, hb, hnextSize, hnextPassed, hleft]
      by_cases hend : u32 (file.totalBytesPassed + b) > file.fileSize
      · have hsum : file.left < b ∧ file.totalBytesPassed + b < 2 ^ 32 := by
          unfold u32 at hend
          omega
        rw [if_pos hend, u32_of_lt (by omega), loopRight_done (Nat.le_add_left _ _), List.length_append, length_slice, hout,
          loopSuits_last hread hb' hsum.1 hsum.2]
        omega
      · have hover : file.left < b → 2 ^ 32 ≤ file.totalBytesPassed + b := fun hlt => by
          unfold u32 at hend
          omega
        have hlength : (out ++ slice next.buffer 0 b).length = tot + b := by
          rw [List.length_append, length_slice, hout]
        rw [if_neg hend, u32_of_lt (by omega)]
        by_cases hlarge : 2 ^ 16 ≤ tot + b
        · exact iff_of_false (not_loopRight (hlength ▸ hlarge)) (not_loopSuits hread hb' hmore hlarge hover)
        · rw [← loopSuits_next hread hb' hpos hmore (by omega) hsize hpassed hnextSize hnextPassed hover]
          have hpassed' : (next.pass b).totalBytesPassed ≤ (next.pass b).fileSize := by
            change u32 (next.totalBytesPassed + b) ≤ next.fileSize
            rw [hnextPassed, hnextSize]
            omega
          exact ih _ (by omega) (hnextSize ▸ hsize) hpassed' (by omega) (by omega) hlength rfl

end

/-! With clusters of 64 KB a round delivers nothing, and only the end of the chain ends the loop. -/

section

variable (hsector : fi.bpb.bytesPerSector = 512) (hzero : fi.bufferSize = 0) (hn : 0 < n)

include hzero hn

theorem loopRight_emptyRound (hsize : file.fileSize < 2 ^ 32) (hpassed : file.totalBytesPassed ≤ file.fileSize)
    (hread : fatReadFileCluster disk fi file = some (next, true)) :
    (∀ rounds, readLoop disk fi (rounds + 1) file n 0 [] = readLoop disk fi rounds (next.pass 0) n 0 []) ∧
      (∀ k, Reads disk fi (k + 1) file ↔ Reads disk fi k (next.pass 0)) ∧
      (next.pass 0).fileSize < 2 ^ 32 ∧ (next.pass 0).totalBytesPassed ≤ (next.pass 0).fileSize := by
  obtain ⟨hnextSize, hnextPassed, -⟩ := fatReadFileCluster_frame hread
  have hrequest : request fi n 0 = 0 := by
    rw [request, hzero]
    exact if_neg (Nat.not_lt_zero n)
  have hsum : u32 (next.totalBytesPassed + 0) = file.totalBytesPassed := by
    rw [hnextPassed, Nat.add_zero, u32_of_lt (by omega)]
  have hpassed' : (next.pass 0).totalBytesPassed ≤ (next.pass 0).fileSize := by
    change u32 (next.totalBytesPassed + 0) ≤ next.fileSize
    rw [hsum, hnextSize]
    exact hpassed
  refine ⟨fun rounds => ?_, reads_succ_iff hread ⟨rfl, rfl, rfl, rfl⟩, hnextSize ▸ hsize, hpassed'⟩
  rw [readLoop_succ hn rounds [] hread, hrequest, hsum, hnextSize, if_neg (by omega)]
  rfl

include hsector

theorem loopRight_empty_iff (hsize : file.fileSize < 2 ^ 32) (hpassed : file.totalBytesPassed ≤ file.fileSize) :
    LoopRight disk fi n file n 0 [] ↔ ∃ k, ¬ Reads disk fi (k + 1) file := by
  constructor
  · rintro ⟨rounds, file', out', tot', hloop, hright⟩
    induction rounds generalizing file with
    | zero =>
      rw [readLoop, if_pos hn] at hloop
      cases hloop
    | succ rounds ih =>
      obtain ⟨⟨next, ok⟩, hread⟩ := @fatReadFileCluster_isSome disk _ hsector file
      cases ok with
      | false => exact ⟨0, not_reads_succ hread 0⟩
      | true =>
        obtain ⟨hround, hreads, hsize', hpassed'⟩ := loopRight_emptyRound hzero hn hsize hpassed hread
        obtain ⟨k, hk⟩ := ih hsize' hpassed' (hround rounds ▸ hloop)
        exact ⟨k + 1, mt (hreads (k + 1)).1 hk⟩
  · rintro ⟨k, hk⟩
    induction k generalizing file with
    | zero =>
      obtain ⟨⟨next, ok⟩, hread⟩ := @fatReadFileCluster_isSome disk _ hsector file
      cases ok with
      | false => exact (loopRight_fails hn hread).2 ⟨rfl, zero_le n⟩
      | true => exact absurd ⟨next, hread, trivial⟩ hk
    | succ k ih =>
      obtain ⟨⟨next, ok⟩, hread⟩ := @fatReadFileCluster_isSome disk _ hsector file
      cases ok with
      | false => exact (loopRight_fails hn hread).2 ⟨rfl, zero_le n⟩
      | true =>
        obtain ⟨hround, hreads, hsize', hpassed'⟩ := loopRight_emptyRound hzero hn hsize hpassed hread
        obtain ⟨rounds, file', out', tot', hloop, hright⟩ :=
          ih hsize' hpassed' (mt (hreads (k + 1)).2 hk)
        exact ⟨rounds + 1, file', out', tot', (hround rounds).trans hloop, hright⟩

end

/-! ## The buffer -/

theorem clamp_eq (hsound : Sound fi file) {b : Nat} (hb : b < 2 ^ 32) :
    file.clamp b = if file.left < b ∧ file.totalBytesPassed + b < 2 ^ 32 then file.left else b := by
  obtain ⟨hsize, hpassed, -⟩ := hsound
  have hleft : sub32 file.fileSize file.totalBytesPassed = file.left := sub32_of_le hpassed hsize
  have hend : u32 (file.totalBytesPassed + b) > file.fileSize ↔ file.left < b ∧ file.totalBytesPassed + b < 2 ^ 32 := by
    unfold u32 FATOpenFileInfo.left
    omega
  unfold FATOpenFileInfo.clamp
  rw [hleft]
  exact if_congr hend rfl rfl

theorem fromBuffer_sound (hsound : Sound fi file) (n : Nat) :
    ∃ file1 f, fromBuffer fi file n = (file1, slice file.buffer file.bufferOffset f, f) ∧ Sound fi file1 ∧
      SameChain file file1 ∧ f = file.clamp (min n (file.inBuffer fi)) ∧ file1.fileSize = file.fileSize ∧
      file1.totalBytesPassed = u32 (file.totalBytesPassed + f) := by
  have hbuffer := bufferSize_lt fi
  have hclamp := clamp_eq hsound (b := min n (file.inBuffer fi))
  obtain ⟨hsize, hpassed, hoffset⟩ := hsound
  cases hvalid : file.bufferIsValid with
  | false =>
    have hzero : min n (file.inBuffer fi) = 0 := by
      simp [FATOpenFileInfo.inBuffer, hvalid]
    rw [hzero] at hclamp ⊢
    refine ⟨file, 0, by simp [fromBuffer, hvalid, slice], ⟨hsize, hpassed, hoffset⟩, ⟨rfl, rfl, rfl, rfl⟩, ?_, rfl, ?_⟩
    · rw [hclamp (by decide), if_neg (by omega)]
    · rw [Nat.add_zero, u32_of_lt (by omega)]
  | true =>
    have hinside := hoffset hvalid
    have hrest : file.inBuffer fi = fi.bufferSize - file.bufferOffset := by
      rw [FATOpenFileInfo.inBuffer, if_pos hvalid]
    have hasked : (if fi.bufferSize - file.bufferOffset ≥ n then n else fi.bufferSize - file.bufferOffset)
        = min n (file.inBuffer fi) := by
      rw [hrest]
      split <;> omega
    obtain ⟨f, hf⟩ : ∃ f, file.clamp (min n (file.inBuffer fi)) = f := ⟨_, rfl⟩
    have hle : f ≤ file.inBuffer fi ∧ (file.left < f → 2 ^ 32 ≤ file.totalBytesPassed + f) := by
      rw [← hf, hclamp (by omega)]
      split <;> omega
    have hpassed' : u32 (file.totalBytesPassed + f) ≤ file.fileSize := by
      unfold FATOpenFileInfo.left at hle
      unfold u32
      omega
    refine ⟨{ file.pass f with bufferIsValid := decide ((file.pass f).bufferOffset < fi.bufferSize) }, f, ?_,
      ⟨hsize, hpassed', fun hmore => Nat.le_of_lt (of_decide_eq_true hmore)⟩, ⟨rfl, rfl, rfl, rfl⟩, hf.symm, rfl, rfl⟩
    rw [fromBuffer, hvalid, if_pos rfl, sub32_of_le hinside (by omega)]
    dsimp only
    rw [hasked, hf]

theorem widthRight_iff_loopRight : WidthRight disk fi file n ↔
    LoopRight disk fi n (fromBuffer fi file n).1 n (fromBuffer fi file n).2.2 (fromBuffer fi file n).2.1 := by
  constructor
  · rintro ⟨file', bytes, ⟨rounds, tot, hloop, hreturned⟩, hle⟩
    exact ⟨rounds, file', bytes, tot, hloop, hreturned, hle⟩
  · rintro ⟨rounds, file', bytes, tot, hloop, hreturned, hle⟩
    exact ⟨file', bytes, ⟨rounds, tot, hloop, hreturned⟩, hle⟩

theorem loopSuits_iff_widthSuits (hsound : Sound fi file) (hpos : 0 < fi.bufferSize) (hn : 2 ^ 16 ≤ n)
    {file1 : FATOpenFileInfo} {f : Nat} (hf : f = file.fromCount fi) (hsame : SameChain file file1)
    (hsize1 : file1.fileSize = file.fileSize) (hpassed1 : file1.totalBytesPassed = u32 (file.totalBytesPassed + f)) :
    LoopSuits disk fi file1 n f ↔ WidthSuits disk fi file n := by
  have hbuffer := bufferSize_lt fi
  have hinside : file.inBuffer fi ≤ fi.bufferSize := by
    unfold FATOpenFileInfo.inBuffer
    split <;> omega
  have hclamp := clamp_eq hsound (b := file.inBuffer fi) (by omega)
  have hcount : f = file.clamp (file.inBuffer fi) := hf
  obtain ⟨hsize, hpassed, -⟩ := hsound
  unfold LoopSuits WidthSuits
  rw [if_neg hpos.ne', ← hf, or_iff_right (a := n < 2 ^ 16) (Nat.not_lt.2 hn),
    or_iff_right (a := n < 2 ^ 16) (Nat.not_lt.2 hn)]
  refine or_congr (exists_congr fun k => and_congr_right' (not_congr (hsame.symm.reads (k + 1)))) ?_
  unfold FATOpenFileInfo.Overruns FATOpenFileInfo.beforeLast FATOpenFileInfo.wholeClusters
  rw [← hf, hpassed1]
  by_cases hwrap : 2 ^ 32 ≤ file.totalBytesPassed + file.inBuffer fi
  · -- the bytes passed begin again, in front of the end of the file
    rw [if_neg (by omega)] at hclamp
    have hleft1 : 2 ^ 16 ≤ file1.left := by
      unfold FATOpenFileInfo.left
      rw [hsize1, hpassed1, hcount, hclamp]
      unfold u32
      omega
    exact iff_of_false (fun h => by omega) (fun h => h.2 (.inl hwrap))
  · have hfle : f ≤ file.left ∧ f ≤ file.inBuffer fi := by
      rw [hcount, hclamp]
      split <;> omega
    have hleft : file.left = file.fileSize - file.totalBytesPassed := rfl
    have hsum : u32 (file.totalBytesPassed + f) = file.totalBytesPassed + f := u32_of_lt (by omega)
    have hleft1 : file1.left = file.left - f := by
      rw [hleft, FATOpenFileInfo.left, hsize1, hpassed1, hsum, sub_add_eq]
    rw [hleft1, hsum]
    generalize fi.bufferSize * ((file.left - f) / fi.bufferSize) = whole
    omega

theorem Sound.widthRight_iff (hsound : Sound fi file) (hsector : fi.bpb.bytesPerSector = 512) (hn : n < 2 ^ 32) :
    WidthRight disk fi file n ↔ WidthSuits disk fi file n := by
  have hbuffer := bufferSize_lt fi
  obtain ⟨file1, f, hfrom, hsound1, hsame, hf, hsize1, hpassed1⟩ := fromBuffer_sound hsound n
  have hinside : file.inBuffer fi ≤ fi.bufferSize := by
    unfold FATOpenFileInfo.inBuffer
    split <;> omega
  have hle : f ≤ min n (file.inBuffer fi) := by
    rw [hf, clamp_eq hsound (by omega)]
    split <;> omega
  rw [widthRight_iff_loopRight, hfrom]
  dsimp only
  rcases Nat.eq_zero_or_pos fi.bufferSize with hzero | hpos
  · obtain rfl : f = 0 := by omega
    have hempty : file.inBuffer fi = 0 := by omega
    have hcount : file.fromCount fi = 0 := by
      rw [hempty, Nat.min_zero] at hf
      rw [FATOpenFileInfo.fromCount, hempty, ← hf]
    rcases Nat.eq_zero_or_pos n with rfl | hmore
    · rw [loopRight_done (le_refl 0)]
      refine iff_of_true ⟨rfl, le_refl 0⟩ (.inr ?_)
      rw [if_pos hzero]
    · rw [show slice file.buffer file.bufferOffset 0 = [] from rfl,
        loopRight_empty_iff hsector hzero hmore hsound1.size hsound1.passed]
      unfold WidthSuits
      rw [if_pos hzero, or_iff_left hmore.ne', hcount, hzero]
      refine exists_congr fun k => ?_
      rw [hsame.reads (k + 1), and_iff_right (by omega)]
  · rw [loopRight_iff hsector hpos hn hsound1.size hsound1.passed (by omega) (by omega) (length_slice _ _ _)]
    by_cases hsmall : n < 2 ^ 16
    · refine iff_of_true (.inr (.inl hsmall)) (.inr ?_)
      rw [if_neg hpos.ne']
      exact .inl hsmall
    · have hall : min n (file.inBuffer fi) = file.inBuffer fi := by omega
      exact loopSuits_iff_widthSuits hsound hpos (by omega) (by rw [hf, hall]; rfl) hsame hsize1 hpassed1

/-! ## Calls -/

theorem readLoop_sound (rounds : Nat) : ∀ {file file' : FATOpenFileInfo} {n tot tot' : Nat} {out out' : List UInt8},
    Sound fi file → n < 2 ^ 32 → readLoop disk fi rounds file n tot out = some (file', out', tot') → Sound fi file' := by
  induction rounds with
  | zero =>
    intro file file' n tot tot' out out' hsound _ h
    rw [readLoop] at h
    split at h
    · cases h
    · cases h
      exact hsound
  | succ rounds ih =>
    intro file file' n tot tot' out out' hsound hn h
    by_cases hmore : tot < n
    · cases hread : fatReadFileCluster disk fi file with
      | none =>
        rw [readLoop, if_pos hmore, hread] at h
        cases h
      | some r =>
        obtain ⟨next, _ | _⟩ := r
        · rw [readLoop_fails hmore rounds out hread] at h
          cases h
          obtain ⟨hnextSize, hnextPassed, hoffset, hvalid⟩ := fatReadFileCluster_frame hread
          exact ⟨hnextSize ▸ hsound.size, hnextPassed ▸ hnextSize ▸ hsound.passed, hoffset ▸ hvalid ▸ hsound.offset⟩
        · obtain ⟨hnextSize, hnextPassed, hoffset⟩ := fatReadFileCluster_frame hread
          obtain ⟨hsize, hpassed, -⟩ := hsound
          have hoffset : next.bufferOffset = 0 := hoffset
          have hnextLt : next.fileSize < 2 ^ 32 := hnextSize ▸ hsize
          have hnextLe : next.totalBytesPassed ≤ next.fileSize := hnextPassed ▸ hnextSize ▸ hpassed
          rw [readLoop_succ hmore rounds out hread] at h
          split at h
          next hend =>
            have hrest : sub32 next.fileSize next.totalBytesPassed = next.fileSize - next.totalBytesPassed :=
              sub32_of_le hnextLe hnextLt
            have hall : u32 (next.totalBytesPassed + sub32 next.fileSize next.totalBytesPassed) = next.fileSize := by
              rw [hrest, Nat.add_sub_cancel' hnextLe, u32_of_lt hnextLt]
            have hsound' : Sound fi
                { next.pass (sub32 next.fileSize next.totalBytesPassed) with bufferIsValid := false } :=
              ⟨hnextLt, Nat.le_of_eq hall, fun hvalid => Bool.noConfusion hvalid⟩
            exact ih hsound' (by omega) h
          next hinside =>
            have hrequest : request fi n tot ≤ fi.bufferSize := request_le hmore hn
            have hoff : (next.bufferOffset + request fi n tot) % 2 ^ 16 ≤ fi.bufferSize := by
              rw [hoffset]
              omega
            have hsound' : Sound fi (next.pass (request fi n tot)) :=
              ⟨hnextLt, Nat.le_of_not_gt hinside, fun _ => hoff⟩
            exact ih hsound' hn h
    · rw [readLoop_done (Nat.le_of_not_lt hmore)] at h
      cases h
      exact hsound

theorem Opened.sound {first fileSize : Nat} (hsize : fileSize < 2 ^ 32) (h : Opened disk fi first fileSize file) :
    Sound fi file := by
  induction h with
  | fileOpen sectorBuffer buffer => exact ⟨hsize, zero_le _, fun hvalid => nomatch hvalid⟩
  | @readFile file file' n returned bytes _ hn hreturns ih =>
    obtain ⟨rounds, tot, hloop, -⟩ := hreturns
    obtain ⟨file1, f, hfrom, hsound1, -⟩ := fromBuffer_sound ih n
    rw [hfrom] at hloop
    exact readLoop_sound rounds hsound1 hn hloop

/-- **The widths of `FATReadFile`**: with sectors of 512 bytes, exactly these requests are answered right. -/
theorem width_right_iff {first fileSize : Nat} (hsector : fi.bpb.bytesPerSector = 512) (hsize : fileSize < 2 ^ 32)
    (h : Opened disk fi first fileSize file) (hn : n < 2 ^ 32) :
    WidthRight disk fi file n ↔ WidthSuits disk fi file n :=
  (h.sound hsize).widthRight_iff hsector hn

theorem width_right_smallVolume : WidthRight smallDisk (smallVolume 512) smallFile 515 :=
  (width_right_iff rfl (by decide) (.fileOpen (fun _ => 0) (fun _ => 0)) (by decide)).2
    (Or.inr (Or.inl (by decide)))

def wideVolume : FATInfo :=
  { smallVolume 512 with bpb := { (smallVolume 512).bpb with sectorsPerCluster := 64, totalSectors16 := 200 } }

def wideFile : FATOpenFileInfo := fatFileOpen (fun _ => 0) (fun _ => 0) 2 65536

/-- A file of 64 KB, in two clusters, is read at once, and 0 is returned. -/
theorem fatReadFile_returns_none_of_64KB :
    ¬ ∀ (disk : HardDisk) (fi : FATInfo) (first fileSize : Nat) (file : FATOpenFileInfo) (n : Nat),
      1 ≤ fi.bpb.sectorsPerCluster → fi.bpb.sectorsPerCluster ≤ 128 → fi.bpb.bytesPerSector = 512 →
      fileSize < 2 ^ 32 → Opened disk fi first fileSize file → n < 2 ^ 32 → WidthRight disk fi file n := by
  intro hclaim
  have hopened : Opened smallDisk wideVolume 2 65536 wideFile := .fileOpen _ _
  have hright : WidthSuits smallDisk wideVolume wideFile 65536 :=
    ((hopened.sound (by decide)).widthRight_iff rfl (by decide)).1
      (hclaim smallDisk wideVolume 2 65536 wideFile 65536 (by decide) (by decide) rfl (by decide) hopened (by decide))
  rcases hright with ⟨k, hk, hends⟩ | hsuits
  · have hcount : wideFile.fromCount wideVolume = 0 := rfl
    have hsize : wideVolume.bufferSize = 32768 := rfl
    have hfirst : Reads smallDisk wideVolume 1 wideFile := ⟨_, rfl, trivial⟩
    have hsecond : Reads smallDisk wideVolume 2 wideFile := ⟨_, rfl, _, rfl, trivial⟩
    rw [hcount, hsize] at hk
    obtain rfl | rfl : k = 0 ∨ k = 1 := by omega
    · exact hends hfirst
    · exact hends hsecond
  · rw [if_neg (by decide)] at hsuits
    rcases hsuits with hsmall | ⟨hleft, -⟩
    · exact absurd hsmall (by decide)
    · exact absurd hleft (by decide)

end Fat32
