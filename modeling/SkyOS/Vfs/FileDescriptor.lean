import Mathlib.Tactic.Common
import SkyOS.Lib.Machine
import SkyOS.Lib.StepSystem

/-!
# The cursor of a file descriptor (`SkyCore/FileDescriptor.cpp`, `SkyCore/VNode.cpp:81`)

A descriptor keeps a position in a node of length `len`. `Seek` sets it, `Read` and `Write` transfer bytes there and
advance it; the node clamps the size to its length. `off_t` is `int`, and so are the sizes.

| here | there |
| --- | --- |
| `fMapped` | the bytes at `fMappedAddress`, the file and whatever follows it |
| `Copy` | what `CopyUser` is called with: `rep movsb` takes the size as an unsigned number |

Page accesses succeed, so that `CopyUser` does.
-/

namespace Vnode

open Machine

def SEEK_SET : Int32 := 0

def SEEK_CUR : Int32 := 1

def SEEK_END : Int32 := 2

def E_ERROR : Int := -1

abbrev Memory := Int → UInt8

/-- A call of `CopyUser`: so many bytes between a buffer and the mapped file at `offset`. -/
structure Copy where
  offset : Int
  count : Nat
  deriving DecidableEq

/-- `CopyUser` (`Thread.cpp:118`, `SystemCall.cpp:194`). -/
def CopyUser (dest src : Memory) (count : Nat) : Memory := fun i => if 0 ≤ i ∧ i < count then src i else dest i

/-- `int` as `unsigned int` -/
def asUnsigned (count : Int) : Nat := (count % 2 ^ 32).toNat

/-- `CachedOffset` (`VNode.cpp:111`). -/
def CachedOffset (fMapped : Memory) (offset : Int) : Memory := fun i => fMapped (offset + i)

/-- The size clamped to the length (`VNode.cpp:87`). -/
def clamp (len offset count : Int) : Int := if toInt32 (offset + count) > len then toInt32 (len - offset) else count

structure Result where
  ret : Int
  copy : Option Copy
  memory : Memory

/-- `CachedRead` (`VNode.cpp:81`): the memory is the buffer. -/
def CachedRead (len : Int) (fMapped : Memory) (offset : Int) (data : Memory) (count : Int) : Result :=
  if offset > len then ⟨E_ERROR, none, data⟩
  else
    let count := clamp len offset count
    ⟨count, some ⟨offset, asUnsigned count⟩, CopyUser data (CachedOffset fMapped offset) (asUnsigned count)⟩

/-- `CachedWrite` (`VNode.cpp:96`): the memory is the mapped file. -/
def CachedWrite (len : Int) (fMapped : Memory) (offset : Int) (data : Memory) (count : Int) : Result :=
  if offset > len then ⟨E_ERROR, none, fMapped⟩
  else
    let count := clamp len offset count
    ⟨count, some ⟨offset, asUnsigned count⟩,
      fun i => CopyUser (CachedOffset fMapped offset) data (asUnsigned count) (i - offset)⟩

/-- `FileDescriptor` and the bytes of its node. -/
structure FileDescriptor where
  fCurrentPosition : Int
  fMapped : Memory

namespace FileDescriptor

/-- `newOffset` (`FileDescriptor.cpp:39`). -/
def newOffset (len : Int) (fd : FileDescriptor) (diff whence : Int32) : Int :=
  let newOffset := -1
  if whence = SEEK_SET then diff.toInt
  else if whence = SEEK_CUR then toInt32 (fd.fCurrentPosition + diff.toInt)
  else if whence = SEEK_END then toInt32 (len - newOffset)
  else newOffset

/-- `Seek` (:37), which returns the position. -/
def Seek (len : Int) (fd : FileDescriptor) (diff whence : Int32) : FileDescriptor :=
  let newOffset := fd.newOffset len diff whence
  if newOffset ≥ 0 ∧ newOffset < len then { fd with fCurrentPosition := newOffset } else fd

/-- The position after a transfer (:73, :83). -/
def advance (fd : FileDescriptor) (size : Int) : FileDescriptor :=
  if size > 0 then { fd with fCurrentPosition := toInt32 (fd.fCurrentPosition + size) } else fd

/-- `Read` (:70). -/
def Read (len : Int) (fd : FileDescriptor) (buf : Memory) (size : Int) : Result × FileDescriptor :=
  let r := CachedRead len fd.fMapped fd.fCurrentPosition buf size
  (r, fd.advance r.ret)

/-- `Write` (:79). -/
def Write (len : Int) (fd : FileDescriptor) (buf : Memory) (size : Int) : Result × FileDescriptor :=
  let r := CachedWrite len fd.fMapped fd.fCurrentPosition buf size
  (r, { fd.advance r.ret with fMapped := r.memory })

end FileDescriptor

inductive Call where
  | seek (diff whence : Int32)
  | read (buf : Memory) (size : Int32)
  | write (buf : Memory) (size : Int32)

open FileDescriptor

def Call.run (len : Int) (fd : FileDescriptor) : Call → FileDescriptor
  | seek diff whence => fd.Seek len diff whence
  | read buf size => (fd.Read len buf size.toInt).2
  | write buf size => (fd.Write len buf size.toInt).2

/-- A descriptor on a node of length `len`. -/
def descriptor (len : Int) : StepSystem FileDescriptor Call where
  init fd := fd.fCurrentPosition = 0
  step fd call := some (call.run len fd)

namespace FileDescriptor

/-! ## What the calls should do -/

def base (len : Int) (fd : FileDescriptor) (whence : Int32) : Option Int :=
  if whence = SEEK_SET then some 0
  else if whence = SEEK_CUR then some fd.fCurrentPosition
  else if whence = SEEK_END then some len
  else none

/-- A seek moves to the base and `diff` if that is in the file, and nowhere else. -/
def SeekRight (len : Int) (fd : FileDescriptor) (diff whence : Int32) : Prop :=
  (fd.Seek len diff whence).fCurrentPosition =
    match fd.base len whence with
    | some base => if 0 ≤ base + diff.toInt ∧ base + diff.toInt ≤ len then base + diff.toInt else fd.fCurrentPosition
    | none => fd.fCurrentPosition

/-- A transfer of `size` bytes: those that are left at most, at the position, and none if the size is negative. -/
structure TransferRight (len : Int) (fd : FileDescriptor) (size : Int) (r : Result) (fd' : FileDescriptor) : Prop where
  copy : 0 ≤ size → r.copy = some ⟨fd.fCurrentPosition, (min size (len - fd.fCurrentPosition)).toNat⟩
  advance : 0 ≤ size → fd'.fCurrentPosition = fd.fCurrentPosition + min size (len - fd.fCurrentPosition)
  negative : size < 0 → ∀ copy ∈ r.copy, copy.count = 0

def Right (len : Int) (fd : FileDescriptor) (call : Call) : Prop :=
  (0 ≤ (call.run len fd).fCurrentPosition ∧ (call.run len fd).fCurrentPosition ≤ len) ∧
  match call with
  | .seek diff whence => fd.SeekRight len diff whence
  | .read buf size => fd.TransferRight len size.toInt (fd.Read len buf size.toInt).1 (fd.Read len buf size.toInt).2
  | .write buf size => fd.TransferRight len size.toInt (fd.Write len buf size.toInt).1 (fd.Write len buf size.toInt).2

/-- A seek does not go to the end of the file from elsewhere, and if it counts from the end not anywhere else in it
either; a size is not negative and does not reach beyond the offsets. -/
def Fits (len : Int) (fd : FileDescriptor) : Call → Prop
  | .seek diff whence =>
    if whence = SEEK_SET then diff.toInt = len → fd.fCurrentPosition = len
    else if whence = SEEK_CUR then fd.fCurrentPosition + diff.toInt = len → fd.fCurrentPosition = len
    else if whence = SEEK_END then 0 ≤ len + diff.toInt → len + diff.toInt ≤ len → len + diff.toInt = fd.fCurrentPosition
    else True
  | .read _ size | .write _ size => 0 ≤ size.toInt ∧ fd.fCurrentPosition + size.toInt < 2 ^ 31

instance (len : Int) (fd : FileDescriptor) : (call : Call) → Decidable (fd.Fits len call)
  | .seek _ whence => by
    unfold Fits
    infer_instance
  | .read _ _ | .write _ _ => inferInstanceAs (Decidable (_ ∧ _))

def InFile (len : Int) (fd : FileDescriptor) : Prop := 0 ≤ fd.fCurrentPosition ∧ fd.fCurrentPosition ≤ len

/-! ## One call -/

section

variable {len : Int} (hlen : IsInt32 len) {fd : FileDescriptor} (h : fd.InFile len)

include hlen h

theorem seek_from {target : Int} (h0 : -2 ^ 31 ≤ target) (h1 : target < 2 ^ 32) :
    ((if toInt32 target ≥ 0 ∧ toInt32 target < len then { fd with fCurrentPosition := toInt32 target }
      else fd).fCurrentPosition = if 0 ≤ target ∧ target ≤ len then target else fd.fCurrentPosition) ↔
    (target = len → fd.fCurrentPosition = len) := by
  obtain ⟨hpos, hle⟩ := h
  obtain ⟨-, hmax⟩ := hlen
  unfold toInt32
  by_cases hin : 0 ≤ target ∧ target < len
  · rw [if_pos (by omega), if_pos (by omega)]
    dsimp only
    constructor <;> omega
  · rw [if_neg (by omega)]
    split <;> constructor <;> omega

/-- **Seek.** -/
theorem seek_iff (diff whence : Int32) : fd.SeekRight len diff whence ↔ fd.Fits len (.seek diff whence) := by
  have hd0 := Int32.le_toInt diff
  have hd1 := Int32.toInt_lt diff
  obtain ⟨hpos, hle⟩ := id h
  obtain ⟨-, hmax⟩ := id hlen
  unfold SeekRight base Fits Seek newOffset
  by_cases hset : whence = SEEK_SET
  · have hdiff : toInt32 diff.toInt = diff.toInt := toInt32_of_isInt32 ⟨hd0, hd1⟩
    have := seek_from hlen h (by omega : -2 ^ 31 ≤ diff.toInt) (by omega)
    rw [hdiff] at this
    simpa only [if_pos hset, Int.zero_add] using this
  by_cases hcur : whence = SEEK_CUR
  · have := seek_from hlen h (by omega : -2 ^ 31 ≤ fd.fCurrentPosition + diff.toInt) (by omega)
    simpa only [if_neg hset, if_pos hcur] using this
  by_cases hend : whence = SEEK_END
  · -- one byte behind the end, wherever the seek should go
    have hnever : ¬ (toInt32 (len - -1) ≥ 0 ∧ toInt32 (len - -1) < len) := by
      unfold toInt32
      omega
    simp only [if_neg hset, if_neg hcur, if_pos hend, if_neg hnever]
    split
    · rename_i hin
      exact ⟨fun hsame _ _ => hsame.symm, fun hfits => (hfits hin.1 hin.2).symm⟩
    · rename_i hout
      exact iff_of_true rfl fun h0 hmost => absurd ⟨h0, hmost⟩ hout
  · simp only [if_neg hset, if_neg hcur, if_neg hend]
    rw [if_neg (by omega)]
    exact iff_of_true rfl trivial

variable {size : Int}

omit hlen in
theorem clamp_of_fits (h0 : 0 ≤ size) (hsize : fd.fCurrentPosition + size < 2 ^ 31) :
    clamp len fd.fCurrentPosition size = min size (len - fd.fCurrentPosition) := by
  obtain ⟨hpos, hle⟩ := h
  unfold clamp toInt32
  split <;> omega

omit hlen in
theorem clamp_of_not_fits (hsize : IsInt32 size)
    (hnot : ¬ (0 ≤ size ∧ fd.fCurrentPosition + size < 2 ^ 31)) : clamp len fd.fCurrentPosition size = size := by
  obtain ⟨hpos, hle⟩ := h
  obtain ⟨hmin, hsmax⟩ := hsize
  unfold clamp toInt32
  split <;> omega

/-- **A transfer**, whichever way the bytes go. -/
theorem transfer_iff (hsize : IsInt32 size) {r : Result} {fd' : FileDescriptor}
    (hret : r.ret = clamp len fd.fCurrentPosition size)
    (hcopy : r.copy = some ⟨fd.fCurrentPosition, asUnsigned (clamp len fd.fCurrentPosition size)⟩)
    (hfd : fd'.fCurrentPosition = (fd.advance r.ret).fCurrentPosition) :
    fd'.InFile len ∧ fd.TransferRight len size r fd' ↔ 0 ≤ size ∧ fd.fCurrentPosition + size < 2 ^ 31 := by
  obtain ⟨hpos, hle⟩ := id h
  obtain ⟨-, hmax⟩ := id hlen
  obtain ⟨hmin, hsmax⟩ := id hsize
  constructor
  · rintro ⟨-, hright⟩
    by_contra hnot
    rw [clamp_of_not_fits h hsize hnot] at hcopy
    by_cases h0 : 0 ≤ size
    · -- the whole size is copied
      have hbytes := hright.copy h0
      rw [hcopy] at hbytes
      have hcount : asUnsigned size = (min size (len - fd.fCurrentPosition)).toNat :=
        congrArg Copy.count (Option.some.inj hbytes)
      unfold asUnsigned at hcount
      omega
    · -- all but a few bytes of the address space are copied
      have hcount : asUnsigned size = 0 := hright.negative (by omega) _ hcopy
      unfold asUnsigned at hcount
      omega
  · rintro ⟨h0, hfits⟩
    rw [clamp_of_fits h h0 hfits] at hret hcopy
    have hadvance : fd'.fCurrentPosition = fd.fCurrentPosition + min size (len - fd.fCurrentPosition) := by
      rw [hfd, hret, advance]
      split
      · dsimp only
        unfold toInt32
        omega
      · omega
    refine ⟨⟨by omega, by omega⟩, ?_, fun _ => hadvance, fun hneg => by omega⟩
    intro _
    rw [hcopy]
    unfold asUnsigned
    congr 2
    omega

/-- **One call** does what it should if and only if it fits. -/
theorem right_iff (call : Call) : fd.Right len call ↔ fd.Fits len call := by
  cases call with
  | seek diff whence =>
    rw [Right, seek_iff hlen h]
    refine and_iff_right ?_
    change (fd.Seek len diff whence).InFile len
    unfold Seek
    dsimp only
    split
    · rename_i hin
      exact ⟨hin.1, Int.le_of_lt hin.2⟩
    · exact h
  | read buf size =>
    have hin : ¬ fd.fCurrentPosition > len := Int.not_lt.2 h.2
    refine transfer_iff hlen h ⟨Int32.le_toInt size, Int32.toInt_lt size⟩ ?_ ?_ rfl
    · simp only [Read, CachedRead, if_neg hin]
    · simp only [Read, CachedRead, if_neg hin]
  | write buf size =>
    have hin : ¬ fd.fCurrentPosition > len := Int.not_lt.2 h.2
    refine transfer_iff hlen h ⟨Int32.le_toInt size, Int32.toInt_lt size⟩ ?_ ?_ rfl
    · simp only [Write, CachedWrite, if_neg hin]
    · simp only [Write, CachedWrite, if_neg hin]

end

/-- **Every run whose calls fit** keeps the position in the file, and from there a call moves the position and
transfers bytes as it should if and only if it fits. -/
theorem cursor_right {len : Int} (h0 : 0 ≤ len) (hlen : IsInt32 len) {fd : FileDescriptor}
    (hrun : (descriptor len).ReachVia (Fits len) fd) : fd.InFile len ∧ ∀ call, fd.Right len call ↔ fd.Fits len call := by
  have hin : fd.InFile len := by
    refine hrun.invariant (InFile len) ?_ ?_
    · intro fd hinit
      have hzero : fd.fCurrentPosition = 0 := hinit
      exact ⟨by omega, by omega⟩
    · intro fd call fd' h hfits hs
      cases hs
      exact ((right_iff hlen h call).2 hfits).1
  exact ⟨hin, right_iff hlen hin⟩

/-- A file of ten bytes: a read, a seek back and a write at the end of it. -/
theorem cursor_right_ten : ∃ fd, (descriptor 10).exec ⟨0, fun _ => 0⟩
      [.read (fun _ => 0) 4, .seek 3 SEEK_CUR, .seek (-2) SEEK_CUR, .write (fun _ => 7) 100, .seek 11 SEEK_END] = some fd ∧
    fd.fCurrentPosition = 10 ∧ fd.Right 10 (.seek 0 SEEK_END) := by
  let calls : List Call :=
    [.read (fun _ => 0) 4, .seek 3 SEEK_CUR, .seek (-2) SEEK_CUR, .write (fun _ => 7) 100, .seek 11 SEEK_END]
  have hrun : ((descriptor 10).exec ⟨0, fun _ => 0⟩ calls).map (fun fd => decide (fd.fCurrentPosition = 10 ∧
      fd.Fits 10 (.seek 0 SEEK_END))) = some true := by
    decide +kernel
  obtain ⟨fd, hs, hfacts⟩ := Option.map_eq_some_iff.1 hrun
  obtain ⟨hpos, hfits⟩ := of_decide_eq_true hfacts
  have hinit : (descriptor 10).init ⟨0, fun _ => 0⟩ := rfl
  have hmeets : (descriptor 10).Meets (Fits 10) ⟨0, fun _ => 0⟩ calls := by decide +kernel
  obtain ⟨-, hiff⟩ := cursor_right (by decide) (by decide) (StepSystem.reachVia_exec calls (.init hinit) hmeets hs)
  exact ⟨fd, hs, hpos, (hiff _).2 hfits⟩

/-- A new descriptor on a file of ten bytes: a seek to its end leaves the position at 0. -/
theorem seek_end : ¬ ∀ fd, (descriptor 10).Reach fd → ∀ call, fd.Right 10 call := by
  intro h
  have hinit : (descriptor 10).init ⟨0, fun _ => 0⟩ := rfl
  have hseek : SeekRight 10 ⟨0, fun _ => 0⟩ 0 SEEK_END := (h _ (.init hinit) (.seek 0 SEEK_END)).2
  have hmoved : (0 : Int) = 10 := hseek
  omega

end FileDescriptor

end Vnode
