import Mathlib.Algebra.Group.Nat.Defs
import Mathlib.Order.Interval.Set.Basic
import SkyOS.Lib.Bytes
import SkyOS.Lib.Machine

/-!
# The RAM disk's sectors (`FileSystem/RAMDisk.cpp`)

The sector functions below the MINT file system. Both compute how many sectors can be moved, copy that many and
return the number.

| here | there |
| --- | --- |
| `RDDMANAGER.pbBuffer` | the bytes from `pbBuffer` on |
| a buffer argument | the bytes from `pcBuffer` on |
| `Transfer` | the arguments of the `memcpy` on the disk's side |

What the code computes is the number of sectors left *behind* the request: one whose own length is no longer left there
is cut short, and one that reaches beyond the end wraps and is not cut at all.
-/

namespace RamDisk

open Machine Bytes

/-! ## The source -/

/-- `RDDMANAGER` (RAMDisk.h:26). -/
structure RDDMANAGER where
  pbBuffer : Memory
  dwTotalSectorCount : Nat

/-- `MIN` (CommonLib/math.h:73). -/
def MIN (x y : Nat) : Nat := if x < y then x else y

/-- What a call moves: the number it returns, the first byte of the disk and the number of bytes. -/
structure Transfer where
  count : Int
  first : Nat
  bytes : Nat
deriving DecidableEq, Repr

/-- The bytes of the disk that the `memcpy` touches. -/
def Transfer.touched (t : Transfer) : Set Nat := Set.Ico t.first (t.first + t.bytes)

/-- The clamp and the arguments of `memcpy`, the same in both functions (:57-:61, :76-:80). -/
def transferred (dwTotalSectorCount dwLBA : Nat) (iSectorCount : Int) : Transfer :=
  let iRealCount :=
    toInt32 (MIN (sub32 dwTotalSectorCount (u32 (dwLBA + dword iSectorCount))) (dword iSectorCount))
  ⟨iRealCount, u32 (dwLBA * 512), dword (iRealCount * 512)⟩

/-- `kReadRDDSector` (:50): the result and the caller's buffer. -/
def kReadRDDSector (m : RDDMANAGER) (dwLBA : Nat) (iSectorCount : Int) (pcBuffer : Memory) : Int × Memory :=
  let t := transferred m.dwTotalSectorCount dwLBA iSectorCount
  (t.count, copy pcBuffer 0 m.pbBuffer t.first t.bytes)

/-- `kWriteRDDSector` (:69): the result and the disk. -/
def kWriteRDDSector (m : RDDMANAGER) (dwLBA : Nat) (iSectorCount : Int) (pcBuffer : Memory) : Int × RDDMANAGER :=
  let t := transferred m.dwTotalSectorCount dwLBA iSectorCount
  (t.count, { m with pbBuffer := copy m.pbBuffer t.first pcBuffer 0 t.bytes })

/-! ## What a transfer should be -/

/-- The sectors from `dwLBA` on that a request of `n` should move. -/
def readable (total dwLBA n : Nat) : Nat := if dwLBA < total then min n (total - dwLBA) else 0

/-- The number returned is the number of sectors that should be moved, exactly their bytes are touched, and they are
bytes of the disk. -/
def TransferRight (total dwLBA n : Nat) (t : Transfer) : Prop :=
  t.count = readable total dwLBA n ∧
  t.touched = Set.Ico (dwLBA * 512) (dwLBA * 512 + readable total dwLBA n * 512) ∧
  t.touched ⊆ Set.Ico 0 (total * 512)

/-- A read that moves what it should, into the caller's buffer and nowhere else. -/
def ReadRight (m : RDDMANAGER) (dwLBA n : Nat) : Prop :=
  TransferRight m.dwTotalSectorCount dwLBA n (transferred m.dwTotalSectorCount dwLBA n) ∧
  ∀ pcBuffer, kReadRDDSector m dwLBA n pcBuffer =
    ((readable m.dwTotalSectorCount dwLBA n : Int),
      copy pcBuffer 0 m.pbBuffer (dwLBA * 512) (readable m.dwTotalSectorCount dwLBA n * 512))

/-- A write that moves what it should, to its place on the disk and nowhere else. -/
def WriteRight (m : RDDMANAGER) (dwLBA n : Nat) : Prop :=
  TransferRight m.dwTotalSectorCount dwLBA n (transferred m.dwTotalSectorCount dwLBA n) ∧
  ∀ pcBuffer, kWriteRDDSector m dwLBA n pcBuffer =
    ((readable m.dwTotalSectorCount dwLBA n : Int),
      ⟨copy m.pbBuffer (dwLBA * 512) pcBuffer 0 (readable m.dwTotalSectorCount dwLBA n * 512),
        m.dwTotalSectorCount⟩)

/-- When the clamp is right: the request's length is left behind the request once more, or the request starts past the
end and ends exactly one turn of the 32-bit range behind it. -/
def Clamped (total dwLBA n : Nat) : Prop :=
  (dwLBA < total ∧ dwLBA + 2 * n ≤ total ∧ dwLBA < 2 ^ 23 ∧ n < 2 ^ 23) ∨ (total ≤ dwLBA ∧ dwLBA + n = total + 2 ^ 32)
  deriving Decidable

/-! ## The clamp -/

def leftBehind (total dwLBA n : Nat) : Nat :=
  if dwLBA + n ≤ total then min n (total - (dwLBA + n))
  else if dwLBA + n ≤ total + 2 ^ 32 then min n (total + 2 ^ 32 - (dwLBA + n))
  else min n (total + 2 ^ 33 - (dwLBA + n))

section

variable {total dwLBA n : Nat}

theorem leftBehind_le : leftBehind total dwLBA n ≤ n := by
  unfold leftBehind
  split
  · exact Nat.min_le_left _ _
  · split <;> exact Nat.min_le_left _ _

/-- On the disk the clamp leaves the request as it is exactly when its length fits behind it once more. -/
theorem leftBehind_eq_readable (hn : n < 2 ^ 31) (hpos : 0 < n) (hstart : dwLBA < total) :
    leftBehind total dwLBA n = readable total dwLBA n ↔ dwLBA + 2 * n ≤ total := by
  unfold leftBehind readable
  rw [if_pos hstart]
  split
  · omega
  · rw [if_pos (by omega)]
    omega

variable (ht : total < 2 ^ 32) (hl : dwLBA < 2 ^ 32) (hn : n < 2 ^ 31)
include ht hl hn

theorem min_sub32 : MIN (sub32 total (u32 (dwLBA + n))) n = leftBehind total dwLBA n := by
  unfold MIN sub32 u32 leftBehind
  split <;> split <;> (try split) <;> omega

theorem transferred_eq : transferred total dwLBA n =
    ⟨leftBehind total dwLBA n, u32 (dwLBA * 512), u32 (leftBehind total dwLBA n * 512)⟩ := by
  have hle : leftBehind total dwLBA n ≤ n := leftBehind_le
  have hint : toInt32 (leftBehind total dwLBA n) = leftBehind total dwLBA n :=
    toInt32_of_isInt32 ⟨by omega, by omega⟩
  have hbytes : dword ((leftBehind total dwLBA n : Int) * 512) = u32 (leftBehind total dwLBA n * 512) := by
    unfold dword u32
    omega
  simp only [transferred, dword_natCast (show n < 2 ^ 32 by omega), min_sub32 ht hl hn, hint, hbytes]

/-- Past the end nothing should be moved; the clamp says so for one length only. -/
theorem leftBehind_eq_zero (hpos : 0 < n) (hstart : total ≤ dwLBA) :
    leftBehind total dwLBA n = 0 ↔ dwLBA + n = total + 2 ^ 32 := by
  unfold leftBehind
  rw [if_neg (by omega)]
  split <;> omega

end

/-! ## Intervals of bytes -/

theorem ico_eq_ico_iff {a b c d : Nat} (h : c < d) : Set.Ico a b = Set.Ico c d ↔ a = c ∧ b = d := by
  constructor
  · intro heq
    have hmem : ∀ x, (a ≤ x ∧ x < b) ↔ (c ≤ x ∧ x < d) := fun x => Set.ext_iff.1 heq x
    have hc := hmem c
    have hd := hmem (d - 1)
    have ha := hmem a
    have hb := hmem (b - 1)
    omega
  · rintro ⟨rfl, rfl⟩
    rfl

/-! ## Right requests -/

section

variable {total dwLBA n : Nat} (ht : total < 2 ^ 32) (hl : dwLBA < 2 ^ 32) (hpos : 0 < n) (hn : n < 2 ^ 31)
include ht hl hpos hn

theorem transferred_of_clamped (h : Clamped total dwLBA n) :
    transferred total dwLBA n = ⟨readable total dwLBA n, u32 (dwLBA * 512), readable total dwLBA n * 512⟩ ∧
      (readable total dwLBA n = 0 ∨ u32 (dwLBA * 512) = dwLBA * 512 ∧ (dwLBA + readable total dwLBA n) ≤ total) := by
  rw [transferred_eq ht hl hn]
  rcases h with ⟨hstart, hfits, hsmall, hcount⟩ | ⟨hstart, hturn⟩
  · have heq := (leftBehind_eq_readable hn hpos hstart).2 hfits
    have hread : readable total dwLBA n = n := by
      unfold readable
      rw [if_pos hstart]
      omega
    rw [heq, hread, u32_of_lt (show n * 512 < 2 ^ 32 by omega)]
    exact ⟨rfl, .inr ⟨u32_of_lt (by omega), by omega⟩⟩
  · have heq := (leftBehind_eq_zero ht hl hn hpos hstart).2 hturn
    have hread : readable total dwLBA n = 0 := if_neg (by omega)
    rw [heq, hread]
    exact ⟨rfl, .inl rfl⟩

theorem transferRight_iff : TransferRight total dwLBA n (transferred total dwLBA n) ↔ Clamped total dwLBA n := by
  constructor
  · rintro ⟨hcount, htouched, -⟩
    rw [transferred_eq ht hl hn] at hcount htouched
    have heq : leftBehind total dwLBA n = readable total dwLBA n := Int.ofNat_inj.1 hcount
    by_cases hstart : dwLBA < total
    · have hfits := (leftBehind_eq_readable hn hpos hstart).1 heq
      have hread : readable total dwLBA n = n := by
        unfold readable
        rw [if_pos hstart]
        omega
      simp only [Transfer.touched, heq, hread] at htouched
      -- the interval is not empty, so both its ends are right
      have hends := (ico_eq_ico_iff (show dwLBA * 512 < dwLBA * 512 + n * 512 by omega)).1 htouched
      unfold u32 at hends
      exact .inl ⟨hstart, hfits, by omega, by omega⟩
    · have hread : readable total dwLBA n = 0 := if_neg hstart
      have hend : total ≤ dwLBA := Nat.not_lt.1 hstart
      exact .inr ⟨hend, (leftBehind_eq_zero ht hl hn hpos hend).1 (heq.trans hread)⟩
  · intro h
    obtain ⟨heq, hplace⟩ := transferred_of_clamped ht hl hpos hn h
    rw [heq]
    rcases hplace with hzero | ⟨hfirst, hend⟩
    · simp [TransferRight, Transfer.touched, hzero]
    · refine ⟨rfl, by simp [Transfer.touched, hfirst], ?_⟩
      intro x hx
      have hx' : u32 (dwLBA * 512) ≤ x ∧ x < u32 (dwLBA * 512) + readable total dwLBA n * 512 := hx
      rw [hfirst] at hx'
      exact ⟨Nat.zero_le x, by omega⟩

end

theorem copy_zero_bytes (dst : Memory) (a : Nat) (src : Memory) (b : Nat) : copy dst a src b 0 = dst := by
  funext x
  exact copy_outside dst src b (by omega)

theorem copy_place {dst src : Memory} {a a' b b' n : Nat} (h : n = 0 ∨ a = a' ∧ b = b') :
    copy dst a src b n = copy dst a' src b' n := by
  rcases h with rfl | ⟨rfl, rfl⟩
  · rw [copy_zero_bytes, copy_zero_bytes]
  · rfl

/-- **A transfer is right exactly when the request fits the disk twice**, for reading and for writing, for every disk,
every start and every positive count. -/
theorem sectors_right_iff (m : RDDMANAGER) (dwLBA n : Nat) (ht : m.dwTotalSectorCount < 2 ^ 32) (hl : dwLBA < 2 ^ 32)
    (hpos : 0 < n) (hn : n < 2 ^ 31) :
    (ReadRight m dwLBA n ↔ Clamped m.dwTotalSectorCount dwLBA n) ∧
      (WriteRight m dwLBA n ↔ Clamped m.dwTotalSectorCount dwLBA n) := by
  have hiff := transferRight_iff ht hl hpos hn
  refine ⟨⟨fun h => hiff.1 h.1, fun h => ⟨hiff.2 h, fun pcBuffer => ?_⟩⟩,
    ⟨fun h => hiff.1 h.1, fun h => ⟨hiff.2 h, fun pcBuffer => ?_⟩⟩⟩
  · obtain ⟨heq, hplace⟩ := transferred_of_clamped ht hl hpos hn h
    simp only [kReadRDDSector, heq]
    refine Prod.ext rfl (copy_place ?_)
    rcases hplace with hzero | ⟨hfirst, -⟩
    · exact Or.inl (by rw [hzero])
    · exact Or.inr ⟨rfl, hfirst⟩
  · obtain ⟨heq, hplace⟩ := transferred_of_clamped ht hl hpos hn h
    simp only [kWriteRDDSector, heq]
    refine Prod.ext rfl (congrArg (RDDMANAGER.mk · m.dwTotalSectorCount) (copy_place ?_))
    rcases hplace with hzero | ⟨hfirst, -⟩
    · exact Or.inl (by rw [hzero])
    · exact Or.inr ⟨hfirst, rfl⟩

theorem sectors_right_iff_disk :
    ReadRight ⟨fun _ => 0, 16384⟩ 8192 8 ∧ WriteRight ⟨fun _ => 0, 16384⟩ 8192 8 := by
  have hiff := sectors_right_iff ⟨fun _ => 0, 16384⟩ 8192 8 (by decide) (by decide) (by decide) (by decide)
  exact ⟨hiff.1.2 (by decide), hiff.2.2 (by decide)⟩

/-- The last cluster of the 8 MB disk cannot be read. -/
theorem read_last_cluster_wrong : ¬ReadRight ⟨fun _ => 0, 16384⟩ 16376 8 := by
  intro h
  have hcount : (transferred 16384 16376 8).count = (readable 16384 16376 8 : Int) := h.1.1
  revert hcount
  decide

end RamDisk
