import SkyOS.Windowing.Blit

/-!
# Copying without scaling (`Surface::blit`, `WindowingSystem/Surface.cpp:74`)

Rectangles of one size, anywhere. Each is cut to its surface without regard to the other: if one sticks out where the
other does not, they are moved against each other, or what is left has two sizes and is scaled.

| here | there |
| --- | --- |
| `Blitted` | what the comment above the function promises |
| `src'`, `dst'` | the arguments after they are fixed |
| `CopiesFrom`, `CopiesWithin` | when the code does what it promises |
-/

namespace Windowing

open Machine BlockMoves List Int

namespace Surface

variable {s t : Surface} {a : Int}

/-! ## What should be copied -/

def counterpart (src dst : Rect) (p : Int × Int) : Int × Int := (p.1 - dst.left + src.left, p.2 - dst.top + src.top)

/-- The pixels of the rectangle that are in the surface and have one in the source. -/
def Copies (s t : Surface) (src dst : Rect) (p : Int × Int) : Prop :=
  s.Inside p ∧ dst.contains p.1 p.2 = true ∧ t.Inside (counterpart src dst p)

/-- These pixels are what they were in the source, and no other byte has changed. -/
structure Blitted (s t : Surface) (src dst : Rect) (mem mem' : Bits) : Prop where
  copied : ∀ p, s.Copies t src dst p → ∀ k : Int, 0 ≤ k ∧ k < 3 →
    mem' (s.addr p.1 p.2 + k) = mem (t.addr (counterpart src dst p).1 (counterpart src dst p).2 + k)
  kept : ∀ a, (∀ p, s.Copies t src dst p → ∀ k : Int, 0 ≤ k ∧ k < 3 → a ≠ s.addr p.1 p.2 + k) → mem' a = mem a

structure Takes (s t : Surface) (src dst : Rect) (origin : Int → Int) : Prop where
  copied : ∀ p, s.Copies t src dst p → ∀ k : Int, 0 ≤ k ∧ k < 3 →
    origin (s.addr p.1 p.2 + k) = t.addr (counterpart src dst p).1 (counterpart src dst p).2 + k
  kept : ∀ a, (∀ p, s.Copies t src dst p → ∀ k : Int, 0 ≤ k ∧ k < 3 → a ≠ s.addr p.1 p.2 + k) → origin a = a

variable {src dst : Rect} {j : Nat}

variable {origin : Int → Int} {p : Int × Int} {l i : Nat} {m : Move}

theorem blitted_iff :
    (∀ mem, s.Blitted t src dst mem fun a => mem (origin a)) ↔ s.Takes t src dst origin := by
  constructor
  · have hbytes : (0 : UInt8) ≠ 1 := by decide
    exact fun h => ⟨fun p hp k hk => eq_of_forall_mem hbytes fun mem => (h mem).copied p hp k hk,
      fun a ha => eq_of_forall_mem hbytes fun mem => (h mem).kept a ha⟩
  · exact fun h mem => ⟨fun p hp k hk => congrArg mem (h.copied p hp k hk), fun a ha => congrArg mem (h.kept a ha)⟩

theorem contains_fixed {r : Rect} :
    (s.fixed r).contains p.1 p.2 = true ↔ r.contains p.1 p.2 = true ∧ s.Inside p := by
  simp only [Rect.contains_iff, fixed, Inside]
  omega

theorem within_fixed {r : Rect} (h : (s.fixed r).valid = true) : (s.fixed r).Within s := by
  refine ⟨h, ?_⟩
  simp only [fixed]
  omega

theorem copies_iff (hsize : SameSize src dst) : s.Copies t src dst p ↔
    (s.fixed dst).contains p.1 p.2 = true ∧
      (t.fixed src).contains (counterpart src dst p).1 (counterpart src dst p).2 = true := by
  rw [contains_fixed, contains_fixed, Copies]
  have hsource : dst.contains p.1 p.2 = true →
      src.contains (counterpart src dst p).1 (counterpart src dst p).2 = true := by
    unfold SameSize at hsize
    simp only [Rect.contains_iff, counterpart]
    omega
  constructor
  · exact fun ⟨hp, hin, hq⟩ => ⟨⟨hin, hp⟩, hsource hin, hq⟩
  · exact fun ⟨⟨hin, hp⟩, _, hq⟩ => ⟨hp, hin, hq⟩

def CutAlike (src dst src' dst' : Rect) : Prop :=
  dst'.left - dst.left = src'.left - src.left ∧ dst'.top - dst.top = src'.top - src.top

/-- **From another surface.** `src'` and `dst'` are what is left of the rectangles. -/
def CopiesFrom (src dst src' dst' : Rect) : Prop :=
  (dst'.valid = false ∧ ¬ (SameSize src' dst' ∧ dst'.right + 1 < dst'.left ∧ dst'.top ≤ dst'.bottom)) ∨
    ((dst'.valid = true ∧ src'.valid = true) ∧ CutAlike src dst src' dst') ∧
      (SameSize src' dst' ∨
        (dst'.right = dst'.left ∨ src'.right - src'.left = dst'.right - dst'.left ∨
          src'.right - src'.left = dst'.right - dst'.left + 1) ∧
        (dst'.bottom = dst'.top ∨ src'.bottom - src'.top = dst'.bottom - dst'.top + 1 ∨
          (dst'.bottom - dst'.top = 1 ∧ src'.bottom - src'.top = 3)))

theorem unscaled_iff (hsrc : src.valid = true) (hdst : dst.valid = true) :
    ((∀ j : Nat, j < dst.right - dst.left + 1 → columnOf src dst j = j) ∧
      ∀ l : Nat, l < dst.bottom - dst.top + 1 → lineOf src dst l = l) ↔ SameSize src dst ∨
        (dst.right = dst.left ∨ src.right - src.left = dst.right - dst.left ∨
          src.right - src.left = dst.right - dst.left + 1) ∧
        (dst.bottom = dst.top ∨ src.bottom - src.top = dst.bottom - dst.top + 1 ∨
          (dst.bottom - dst.top = 1 ∧ src.bottom - src.top = 3)) := by
  simp only [Rect.valid_iff] at hsrc hdst
  by_cases hsize : SameSize src dst
  · exact iff_of_true ⟨fun j _ => if_pos hsize, fun l _ => if_pos hsize⟩ (.inl hsize)
  · obtain ⟨c, hc⟩ := eq_ofNat_of_zero_le (a := src.right - src.left + 1) (by omega)
    obtain ⟨d, hd⟩ := eq_ofNat_of_zero_le (a := dst.right - dst.left + 1) (by omega)
    obtain ⟨c', hc'⟩ := eq_ofNat_of_zero_le (a := src.bottom - src.top + 1) (by omega)
    obtain ⟨d', hd'⟩ := eq_ofNat_of_zero_le (a := dst.bottom - dst.top + 1) (by omega)
    have hcolumns := @sourceColumn_id_iff c d (by omega)
    have hlines := @sourceLine_id_iff c' d' (by omega)
    simp only [columnOf, lineOf, if_neg hsize, hc, hd, hc', hd', Nat.cast_lt, hcolumns, hlines,
      or_iff_right hsize]
    omega

variable {src dst : Rect}

theorem holds_shown (hallowed : ∀ m ∈ s.movesFrom t src dst, s.Allowed t m) (hdst : dst.Within s)
    (hin : j < dst.right - dst.left + 1 ∧ l < dst.bottom - dst.top + 1) :
    t.Holds (t.addr (src.left + columnOf src dst j) (src.top + lineOf src dst l)) := by
  obtain ⟨m, hm, ha⟩ := @exists_mem_movesFrom s t src dst j l hin 0 (by omega)
  obtain ⟨-, hx, hy⟩ := hdst
  obtain ⟨j', l', hin', k, hk, haddr, horigin⟩ := origin_of_mem_movesFrom hm ha
  obtain ⟨⟨hj, hl⟩, rfl⟩ := addr_inj (by omega) (by omega) (by omega) hk haddr
  obtain rfl : j = j' := by omega
  obtain rfl : l = l' := by omega
  have hread := ((hallowed m hm).of_covers ha).2
  rw [horigin, Int.add_zero] at hread
  exact hread

theorem takes_of_copiesFrom (hapart : s.Apart t) (hsize : SameSize src dst)
    (h : CopiesFrom src dst (t.fixed src) (s.fixed dst)) :
    (∀ m ∈ s.movesFrom t (t.fixed src) (s.fixed dst), s.Allowed t m) ∧
      s.Takes t src dst (trace (s.movesFrom t (t.fixed src) (s.fixed dst))) := by
  rcases h with ⟨hinvalid, hsmall⟩ | ⟨⟨⟨hdst, hsrc⟩, hleft, htop⟩, hsame⟩
  · have hnone : ∀ m ∈ s.movesFrom t (t.fixed src) (s.fixed dst), ∀ a, ¬ m.Covers a := by
      intro m hm a ha
      obtain ⟨j, l, hin, -⟩ := origin_of_mem_movesFrom hm ha
      simp only [Rect.valid, ge_iff_le, decide_eq_false_iff_not] at hinvalid
      omega
    refine ⟨fun m hm => ?_, fun p hp => ?_, fun a _ => trace_of_not_covers fun m hm => hnone m hm a⟩
    · refine allowed_of_covers ?_ fun a ha => absurd ha (hnone m hm a)
      unfold movesFrom at hm
      split at hm
      · next hequal =>
        obtain ⟨l, hl, rfl⟩ := mem_map.1 hm
        rw [mem_range'_1] at hl
        by_contra hneg
        refine hsmall ⟨hequal, ?_⟩
        simp only at hneg
        omega
      · obtain ⟨l, -, hline⟩ := mem_flatMap.1 hm
        obtain ⟨j, -, hpixel⟩ := mem_flatMap.1 hline
        exact size_nonneg_of_mem_pixelMoves hpixel
    · obtain ⟨hin, -⟩ := (copies_iff hsize).1 hp
      simp only [Rect.valid, ge_iff_le, decide_eq_false_iff_not] at hinvalid
      rw [Rect.contains_iff] at hin
      omega
  · have hwithin := within_fixed hdst
    have hallowed := allowed_movesFrom (within_fixed hsrc) hwithin
    obtain ⟨hcolumn, hline⟩ := (unscaled_iff hsrc hdst).2 hsame
    refine ⟨hallowed, fun p hp k hk => ?_, fun a ha => ?_⟩
    · obtain ⟨hin, -⟩ := (copies_iff hsize).1 hp
      rw [Rect.contains_iff] at hin
      obtain ⟨j, hj⟩ := eq_ofNat_of_zero_le (a := p.1 - (s.fixed dst).left) (by omega)
      obtain ⟨l, hl⟩ := eq_ofNat_of_zero_le (a := p.2 - (s.fixed dst).top) (by omega)
      have hshown := @trace_movesFrom s t (t.fixed src) (s.fixed dst) hapart hwithin hallowed j l (by omega) k hk
      have hp : p = ((s.fixed dst).left + j, (s.fixed dst).top + l) :=
        Prod.ext (by simp only; omega) (by simp only; omega)
      have hq : counterpart src dst p = ((t.fixed src).left + j, (t.fixed src).top + l) := by
        unfold counterpart
        exact Prod.ext (by simp only; omega) (by simp only; omega)
      rw [hcolumn j (by omega), hline l (by omega)] at hshown
      rw [hq, hp]
      exact hshown
    · refine trace_of_not_covers fun m hm hcovers => ?_
      obtain ⟨j, l, ⟨hj, hl⟩, k, hk, rfl, -⟩ := origin_of_mem_movesFrom hm hcovers
      refine ha ((s.fixed dst).left + j, (s.fixed dst).top + l) ((copies_iff hsize).2 ⟨?_, ?_⟩) k hk rfl
      · simp only [Rect.contains_iff]
        omega
      · have hj' := columnOf_lt hsrc hj
        have hl' := lineOf_lt hsrc hl
        rw [hcolumn j hj] at hj'
        rw [hline l hl] at hl'
        simp only [Rect.contains_iff, counterpart]
        omega

/-- What is drawn comes from the other surface, so it has to be a pixel to copy, and be drawn from its counterpart. -/
theorem copies_of_takes {src' dst' : Rect} (hapart : s.Apart t) (hdst : dst'.Within s)
    (hallowed : ∀ m ∈ s.movesFrom t src' dst', s.Allowed t m)
    (htakes : s.Takes t src dst (trace (s.movesFrom t src' dst')))
    (hin : j < dst'.right - dst'.left + 1 ∧ l < dst'.bottom - dst'.top + 1) :
    s.Copies t src dst (dst'.left + j, dst'.top + l) ∧
      t.addr (src'.left + columnOf src' dst' j) (src'.top + lineOf src' dst' l) =
        t.addr (dst'.left + j - dst.left + src.left) (dst'.top + l - dst.top + src.top) := by
  have hinside : s.Inside (dst'.left + j, dst'.top + l) := inside_of_within hdst hin.1 hin.2
  have hshown := @trace_movesFrom s t src' dst' hapart hdst hallowed j l hin 0 (by omega)
  have hcopies : s.Copies t src dst (dst'.left + j, dst'.top + l) := by
    by_contra hnot
    have hkept := htakes.kept (s.addr (dst'.left + j) (dst'.top + l) + 0) fun p hp k hk haddr => ?_
    · have hwritten := holds_addr hinside (k := 0) (by omega)
      rw [← hkept, hshown, Int.add_zero] at hwritten
      exact hapart _ ⟨hwritten, holds_shown hallowed hdst hin⟩
    · obtain ⟨⟨hx, hy⟩, -⟩ := addr_inj hinside.1 hp.1.1 (by omega) hk haddr
      exact hnot ((Prod.ext hx hy : (dst'.left + j, dst'.top + l) = p) ▸ hp)
  have hcopied := htakes.copied _ hcopies 0 (by omega)
  rw [hshown, Int.add_zero, Int.add_zero] at hcopied
  exact ⟨hcopies, hcopied⟩

theorem copiesFrom_of_takes (hapart : s.Apart t) (hsize : SameSize src dst)
    (hallowed : ∀ m ∈ s.movesFrom t (t.fixed src) (s.fixed dst), s.Allowed t m)
    (htakes : s.Takes t src dst (trace (s.movesFrom t (t.fixed src) (s.fixed dst)))) :
    CopiesFrom src dst (t.fixed src) (s.fixed dst) := by
  have hcopies : ∀ p, s.Copies t src dst p ↔ _ := fun p => copies_iff hsize
  have hsrcWithin := @within_fixed t src
  have hdstWithin := @within_fixed s dst
  generalize t.fixed src = src' at *
  generalize s.fixed dst = dst' at *
  by_cases hdst : dst'.valid = true
  · have hshown : ∀ {j l : Nat}, (j < dst'.right - dst'.left + 1 ∧ l < dst'.bottom - dst'.top + 1) → _ ∧ _ :=
      fun hin => copies_of_takes hapart (hdstWithin hdst) hallowed htakes hin
    simp only [hcopies, Rect.contains_iff, counterpart] at hshown
    have hvalid := hdst
    simp only [Rect.valid_iff] at hvalid
    obtain ⟨⟨-, hfirst⟩, hcorner⟩ := @hshown 0 0 (by omega)
    have hsrc : src'.valid = true := by
      simp only [Rect.valid_iff]
      omega
    obtain ⟨-, hx, -⟩ := hsrcWithin hsrc
    have hplace : ∀ {j l : Nat}, (j < dst'.right - dst'.left + 1 ∧ l < dst'.bottom - dst'.top + 1) →
        src'.left + columnOf src' dst' j = dst'.left + j - dst.left + src.left ∧
          src'.top + lineOf src' dst' l = dst'.top + l - dst.top + src.top := by
      intro j l hin
      obtain ⟨⟨-, hcounterpart⟩, haddr⟩ := hshown hin
      have hcolumn := @columnOf_lt src' dst' j hsrc hin.1
      exact Prod.mk.inj (addr_pixel_inj (p := (_, _)) (q := (_, _)) (by simp only; omega) (by simp only; omega) haddr)
    have hcut := @hplace 0 0 (by omega)
    rw [columnOf_zero, lineOf_zero] at hcut
    refine .inr ⟨⟨⟨hdst, hsrc⟩, by unfold CutAlike; omega⟩, (unscaled_iff hsrc hdst).1 ⟨fun j hj => ?_, fun l hl => ?_⟩⟩
    · have := (@hplace j 0 (by omega)).1
      omega
    · have := (@hplace 0 l (by omega)).2
      omega
  · refine .inl ⟨Bool.eq_false_iff.2 hdst, fun hlarge => ?_⟩
    obtain ⟨hequal, hwidth, hlines⟩ := hlarge
    have hmove := (hallowed _ (by
      unfold movesFrom
      rw [if_pos hequal]
      exact mem_map_of_mem (mem_range'_1.2 ⟨le_refl 0, by omega⟩))).1
    simp only at hmove
    omega

/-! ## Within one surface -/

def lineMove (s : Surface) (src dst : Rect) (i : Nat) : Move :=
  ⟨s.addr dst.left (dst.top + i), s.addr src.left (src.top + i), (src.right - src.left) * 3⟩

def movesWithin (s : Surface) (src dst : Rect) : List Move :=
  if dst.top > src.top ∧ dst.top < src.bottom then
    (List.range (src.bottom - src.top + 1).toNat).reverse.map (s.lineMove src dst)
  else (List.range (src.bottom - src.top + 1).toNat).map (s.lineMove src dst)

theorem moveWithin_eq (s : Surface) (src dst : Rect) (mem : Bits) :
    s.moveWithin src dst mem = run (s.Allowed s) (s.movesWithin src dst) mem := by
  have hoffset : ∀ y, s.bits + src.left * 3 + y * s.stride +
      ((dst.left - src.left) * 3 + (dst.top - src.top) * s.stride) = s.addr dst.left (dst.top - src.top + y) := by
    intro y
    unfold addr
    ring
  unfold moveWithin movesWithin
  by_cases hup : dst.top > src.top ∧ dst.top < src.bottom
  · rw [if_pos hup, if_pos hup]
    have hloop := moveLoop_eq s s ((src.right - src.left) * 3) (-s.stride) (-s.stride)
      (s.addr dst.left (dst.top - src.top + src.bottom)) (s.addr src.left src.bottom)
      (src.bottom - src.top + 1).toNat 0 mem
    simp only [Nat.cast_zero, Int.zero_mul, Int.add_zero] at hloop
    simp only [hoffset]
    refine hloop.trans (congrArg (fun ms => run (s.Allowed s) ms mem) ?_)
    rw [lineMoves, range_eq_range', reverse_range', map_map, ← range_eq_range']
    refine map_congr_left fun i hi => ?_
    have hcast : ((0 + (src.bottom - src.top + 1).toNat - 1 - i : Nat) : Int) = src.bottom - src.top - i := by
      rw [mem_range] at hi
      omega
    rw [Function.comp_apply, lineMove, hcast, Move.mk.injEq]
    unfold addr
    exact ⟨by ring, by ring, rfl⟩
  · rw [if_neg hup, if_neg hup]
    have hloop := moveLoop_eq s s ((src.right - src.left) * 3) s.stride s.stride
      (s.addr dst.left (dst.top - src.top + src.top)) (s.addr src.left src.top) (src.bottom - src.top + 1).toNat 0 mem
    simp only [Nat.cast_zero, Int.zero_mul, Int.add_zero] at hloop
    simp only [hoffset]
    refine hloop.trans (congrArg (fun ms => run (s.Allowed s) ms mem) ?_)
    rw [lineMoves, ← range_eq_range']
    refine map_congr_left fun i _ => ?_
    unfold lineMove addr
    rw [Move.mk.injEq]
    exact ⟨by ring, by ring, rfl⟩

theorem mem_movesWithin :
    m ∈ s.movesWithin src dst ↔ ∃ i : Nat, i < src.bottom - src.top + 1 ∧ s.lineMove src dst i = m := by
  have hrange : ∀ i : Nat, i < (src.bottom - src.top + 1).toNat ↔ i < src.bottom - src.top + 1 := by omega
  unfold movesWithin
  split
  · simp only [mem_map, mem_reverse, mem_range, hrange]
  · simp only [mem_map, mem_range, hrange]

theorem movesWithin_eq_cons (hlines : src.top ≤ src.bottom) : ∃ (i : Nat) (rest : List Move),
    i < src.bottom - src.top + 1 ∧ s.movesWithin src dst = s.lineMove src dst i :: rest ∧
      ∀ m ∈ rest, ∃ i', i' ≠ i ∧ s.lineMove src dst i' = m := by
  obtain ⟨n, hn⟩ := eq_ofNat_of_zero_le (Int.sub_nonneg.2 hlines)
  have hrounds : (src.bottom - src.top + 1).toNat = n + 1 := by omega
  unfold movesWithin
  rw [hrounds]
  split
  · rw [range_succ, reverse_append, reverse_singleton, singleton_append, map_cons]
    refine ⟨n, _, by omega, rfl, fun m hm => ?_⟩
    obtain ⟨i, hi, rfl⟩ := mem_map.1 hm
    rw [mem_reverse, mem_range] at hi
    exact ⟨i, Nat.ne_of_lt hi, rfl⟩
  · rw [range_succ_eq_map, map_cons]
    refine ⟨0, _, by omega, rfl, fun m hm => ?_⟩
    rw [map_map] at hm
    obtain ⟨i, -, rfl⟩ := mem_map.1 hm
    exact ⟨i + 1, Nat.succ_ne_zero i, rfl⟩

theorem covers_lineMove : (s.lineMove src dst i).Covers a ↔ ∃ j : Nat, j < src.right - src.left ∧
    ∃ k : Int, (0 ≤ k ∧ k < 3) ∧ a = s.addr (dst.left + j) (dst.top + i) + k := by
  have haddr : ∀ j : Nat, s.addr (dst.left + j) (dst.top + i) = s.addr dst.left (dst.top + i) + j * 3 := by
    intro j
    unfold addr
    ring
  simp only [Move.Covers, lineMove, haddr]
  constructor
  · intro ha
    obtain ⟨j, hj⟩ := eq_ofNat_of_zero_le (a := (a - s.addr dst.left (dst.top + i)) / 3) (by omega)
    exact ⟨j, by omega, a - s.addr dst.left (dst.top + i) - j * 3, by omega, by omega⟩
  · rintro ⟨j, hj, k, hk, rfl⟩
    omega

theorem origin_lineMove (hj : j < src.right - src.left) {k : Int} (hk : 0 ≤ k ∧ k < 3) :
    (s.lineMove src dst i).origin (s.addr (dst.left + j) (dst.top + i) + k) =
      s.addr (src.left + j) (src.top + i) + k := by
  rw [Move.origin_of_covers (covers_lineMove.2 ⟨j, hj, k, hk, rfl⟩)]
  unfold lineMove addr
  ring

def offset (s : Surface) (src dst : Rect) : Int := (dst.left - src.left) * 3 + (dst.top - src.top) * s.stride

theorem sub_of_mem_movesWithin {m : Move} (hm : m ∈ s.movesWithin src dst) : m.dst - m.src = s.offset src dst := by
  obtain ⟨i, -, rfl⟩ := mem_movesWithin.1 hm
  unfold lineMove addr offset
  ring

/-- The first line of the source must not be copied over its last one before that is read. -/
def Overlaps (src dst : Rect) : Prop :=
  (dst.top = src.bottom ∧ src.top < dst.top) ∧ dst.left - src.left < src.right - src.left ∧
    src.left - dst.left < src.right - src.left

/-- **Within one surface.** `src'` and `dst'` are what is left of the rectangles. -/
def CopiesWithin (s : Surface) (src dst src' dst' : Rect) : Prop :=
  src'.bottom < src'.top ∨
    (src'.left ≤ src'.right ∧ (src'.left = src'.right ∨ s.offset src' dst' = 0)) ∧
      ((∀ p, ¬ s.Copies s src dst p) ∨ dst.left = src.left ∧ dst.top = src.top) ∨
    ((src'.left < src'.right ∧ CutAlike src dst src' dst') ∧
      dst'.right - dst'.left + 1 = src'.right - src'.left ∧ src'.bottom - src'.top ≤ dst'.bottom - dst'.top) ∧
        ¬ Overlaps src' dst'

theorem undisturbed_movesWithin (hsrc : src.Within s) (hdst : dst.Within s)
    (hright : dst.left + (src.right - src.left) ≤ s.width) (hoverlap : ¬ Overlaps src dst) :
    Undisturbed (s.movesWithin src dst) := by
  have hfree : ∀ i i' : Nat, i < src.bottom - src.top + 1 → i' < src.bottom - src.top + 1 →
      (dst.top > src.top ∧ dst.top < src.bottom → i' < i) → (¬ (dst.top > src.top ∧ dst.top < src.bottom) → i < i') →
        ∀ a, (s.lineMove src dst i').Covers a → ¬ (s.lineMove src dst i).Covers ((s.lineMove src dst i').origin a) ∧
          ((s.lineMove src dst i).Covers a → (s.lineMove src dst i).origin a = (s.lineMove src dst i').origin a) := by
    intro i i' hi hi' hup hdown a ha
    obtain ⟨-, hx, -⟩ := hsrc
    obtain ⟨-, hx', -⟩ := hdst
    obtain ⟨j, hj, k, hk, rfl⟩ := covers_lineMove.1 ha
    rw [origin_lineMove hj hk]
    refine ⟨fun hread => ?_, fun hwritten => ?_⟩
    · obtain ⟨j', hj', k', hk', haddr⟩ := covers_lineMove.1 hread
      obtain ⟨⟨hcolumn, hline⟩, -⟩ := addr_inj (by omega) (by omega) hk hk' haddr
      by_cases hdirection : dst.top > src.top ∧ dst.top < src.bottom
      · have := hup hdirection
        omega
      · have := hdown hdirection
        exact hoverlap ⟨by omega, by omega, by omega⟩
    · obtain ⟨j', hj', k', hk', haddr⟩ := covers_lineMove.1 hwritten
      obtain ⟨⟨-, hline⟩, -⟩ := addr_inj (by omega) (by omega) hk hk' haddr
      by_cases hdirection : dst.top > src.top ∧ dst.top < src.bottom
      · have := hup hdirection
        omega
      · have := hdown hdirection
        omega
  unfold Undisturbed movesWithin
  split
  · next hdirection =>
    rw [pairwise_map, pairwise_reverse]
    refine pairwise_lt_range.imp_of_mem fun {i i'} hi hi' hlt => ?_
    rw [mem_range] at hi hi'
    exact hfree i' i (by omega) (by omega) (fun _ => hlt) (fun h => absurd hdirection h)
  · next hdirection =>
    rw [pairwise_map]
    refine pairwise_lt_range.imp_of_mem fun {i i'} hi hi' hlt => ?_
    rw [mem_range] at hi hi'
    exact hfree i i' (by omega) (by omega) (fun h => absurd h hdirection) (fun _ => hlt)

/-- Leaving everything as it is is right where there is nothing to copy, or nowhere to copy it to. -/
theorem takes_of_still (horigin : ∀ a, origin a = a) : s.Takes s src dst origin ↔
    (∀ p, ¬ s.Copies s src dst p) ∨ dst.left = src.left ∧ dst.top = src.top := by
  constructor
  · intro h
    by_cases hnone : ∀ p, ¬ s.Copies s src dst p
    · exact .inl hnone
    · push Not at hnone
      obtain ⟨p, hp⟩ := hnone
      have hcopied := h.copied p hp 0 (by omega)
      rw [horigin, Int.add_zero, Int.add_zero] at hcopied
      have hsame := addr_pixel_inj hp.1.1 hp.2.2.1 hcopied
      rw [Prod.ext_iff] at hsame
      simp only [counterpart] at hsame
      exact .inr (by omega)
  · rintro (hnone | ⟨hleft, htop⟩)
    · exact ⟨fun p hp => absurd hp (hnone p), fun a _ => horigin a⟩
    · refine ⟨fun p _ k _ => ?_, fun a _ => horigin a⟩
      have hsame : counterpart src dst p = p := by
        unfold counterpart
        exact Prod.ext (by simp only; omega) (by simp only; omega)
      rw [horigin, hsame]

theorem trace_of_offset (h : s.offset src dst = 0) (a : Int) : trace (s.movesWithin src dst) a = a := by
  obtain ⟨n, htrace, -⟩ := trace_of_shift (fun m hm => sub_of_mem_movesWithin hm) a
  rw [htrace, h, Int.mul_zero, Int.sub_zero]

section

-- what is left of the rectangles, from which the pixels to copy are known
variable {src' dst' : Rect} (hcopies : ∀ p, s.Copies s src dst p ↔ dst'.contains p.1 p.2 = true ∧
  src'.contains (counterpart src dst p).1 (counterpart src dst p).2 = true)

include hcopies

theorem takes_of_empty (hlines : src'.bottom < src'.top) : (∀ m ∈ s.movesWithin src' dst', s.Allowed s m) ∧
    s.Takes s src dst (trace (s.movesWithin src' dst')) := by
  have hnone : ∀ m, m ∉ s.movesWithin src' dst' := by
    intro m hm
    obtain ⟨i, hi, -⟩ := mem_movesWithin.1 hm
    omega
  refine ⟨fun m hm => absurd hm (hnone m), ?_⟩
  refine (takes_of_still fun a => trace_of_not_covers fun m hm => absurd hm (hnone m)).2 (.inl fun p hp => ?_)
  have hin := ((hcopies p).1 hp).2
  rw [Rect.contains_iff] at hin
  omega

omit hcopies in
theorem takes_of_unmoved (hsrc : src'.Within s) (hstill : src'.left = src'.right ∨ s.offset src' dst' = 0)
    (hplace : (∀ p, ¬ s.Copies s src dst p) ∨ dst.left = src.left ∧ dst.top = src.top) :
    (∀ m ∈ s.movesWithin src' dst', s.Allowed s m) ∧ s.Takes s src dst (trace (s.movesWithin src' dst')) := by
  have hvalid := hsrc.1
  simp only [Rect.valid_iff] at hvalid
  have hsize : ∀ m ∈ s.movesWithin src' dst', 0 ≤ m.size := by
    intro m hm
    obtain ⟨i, -, rfl⟩ := mem_movesWithin.1 hm
    simp only [lineMove]
    omega
  rcases hstill with hnarrow | hoffset
  · have hnone : ∀ m ∈ s.movesWithin src' dst', ∀ a, ¬ m.Covers a := by
      intro m hm a ha
      obtain ⟨i, -, rfl⟩ := mem_movesWithin.1 hm
      obtain ⟨j, hj, -⟩ := covers_lineMove.1 ha
      omega
    exact ⟨fun m hm => allowed_of_covers (hsize m hm) fun a ha => absurd ha (hnone m hm a),
      (takes_of_still fun a => trace_of_not_covers fun m hm => hnone m hm a).2 hplace⟩
  · refine ⟨fun m hm => allowed_of_covers (hsize m hm) fun a ha => ?_,
      (takes_of_still (trace_of_offset hoffset)).2 hplace⟩
    have hshift := sub_of_mem_movesWithin hm
    have horigin : m.origin a = a := by
      rw [Move.origin_of_covers ha]
      omega
    obtain ⟨i, hi, rfl⟩ := mem_movesWithin.1 hm
    obtain ⟨j, hj, k, hk, rfl⟩ := covers_lineMove.1 ha
    have hread := @holds_of_within s src' hsrc j i (by omega) hi k hk
    rw [horigin]
    rw [origin_lineMove hj hk] at horigin
    rw [horigin] at hread
    exact ⟨hread, hread⟩

theorem takes_of_moved (hsrc : src'.Within s) (hdst : dst'.Within s) (hcut : CutAlike src dst src' dst')
    (hwidth : dst'.right - dst'.left + 1 = src'.right - src'.left)
    (hheight : src'.bottom - src'.top ≤ dst'.bottom - dst'.top) (hoverlap : ¬ Overlaps src' dst') :
    (∀ m ∈ s.movesWithin src' dst', s.Allowed s m) ∧ s.Takes s src dst (trace (s.movesWithin src' dst')) := by
  obtain ⟨hleft, htop⟩ := hcut
  have hundisturbed := undisturbed_movesWithin hsrc hdst (by have := hdst.2; omega) hoverlap
  refine ⟨fun m hm => allowed_of_covers ?_ fun a ha => ?_, fun p hp k hk => ?_, fun a ha => ?_⟩
  · obtain ⟨i, -, rfl⟩ := mem_movesWithin.1 hm
    have hvalid := hsrc.1
    simp only [Rect.valid_iff] at hvalid
    simp only [lineMove]
    omega
  · obtain ⟨i, hi, rfl⟩ := mem_movesWithin.1 hm
    obtain ⟨j, hj, k, hk, rfl⟩ := covers_lineMove.1 ha
    rw [origin_lineMove hj hk]
    exact ⟨holds_of_within hdst (by omega) (by omega) hk, holds_of_within hsrc (by omega) hi hk⟩
  · obtain ⟨hin, hin'⟩ := (hcopies p).1 hp
    simp only [Rect.contains_iff, counterpart] at hin hin'
    obtain ⟨j, hj⟩ := eq_ofNat_of_zero_le (a := p.1 - dst'.left) (by omega)
    obtain ⟨i, hi⟩ := eq_ofNat_of_zero_le (a := p.2 - dst'.top) (by omega)
    have hp : p = (dst'.left + j, dst'.top + i) := Prod.ext (by simp only; omega) (by simp only; omega)
    have hq : counterpart src dst p = (src'.left + j, src'.top + i) := by
      unfold counterpart
      exact Prod.ext (by simp only; omega) (by simp only; omega)
    have hmem : s.lineMove src' dst' i ∈ s.movesWithin src' dst' := mem_movesWithin.2 ⟨i, by omega, rfl⟩
    rw [hq, hp, hundisturbed.trace_eq hmem (covers_lineMove.2 ⟨j, by omega, k, hk, rfl⟩), origin_lineMove (by omega) hk]
  · refine trace_of_not_covers fun m hm hcovers => ?_
    obtain ⟨i, hi, rfl⟩ := mem_movesWithin.1 hm
    obtain ⟨j, hj, k, hk, rfl⟩ := covers_lineMove.1 hcovers
    refine ha (dst'.left + j, dst'.top + i) ((hcopies _).2 ?_) k hk rfl
    simp only [Rect.contains_iff, counterpart]
    omega

omit hcopies in
/-- What is moved away from where it was is to be copied. -/
theorem exists_copies_of_covers (hoffset : s.offset src' dst' ≠ 0)
    (htakes : s.Takes s src dst (trace (s.movesWithin src' dst'))) (hm : m ∈ s.movesWithin src' dst')
    (ha : m.Covers a) : ∃ p, s.Copies s src dst p ∧ ∃ k : Int, (0 ≤ k ∧ k < 3) ∧ a = s.addr p.1 p.2 + k := by
  by_contra hnone
  push Not at hnone
  have hkept := htakes.kept a hnone
  obtain ⟨n, htrace, hpos⟩ := trace_of_shift (fun m hm => @sub_of_mem_movesWithin s src' dst' m hm) a
  rw [htrace] at hkept
  have hzero : n * s.offset src' dst' = 0 := by omega
  rcases Int.mul_eq_zero.1 hzero with hn | hshift
  · have := hpos ⟨m, hm, ha⟩
    omega
  · exact hoffset hshift

-- lines are moved, and not onto themselves
variable (hsrc : src'.Within s) (hcolumns : src'.left < src'.right) (hoffset : s.offset src' dst' ≠ 0)
  (htakes : s.Takes s src dst (trace (s.movesWithin src' dst')))

include hsrc hcolumns hoffset htakes

/-- No line goes beyond the right end: the pixel there, or at the begin of the next line, would be to copy. -/
theorem right_of_takes : dst'.left + (src'.right - src'.left) ≤ s.width := by
  by_contra hright
  obtain ⟨hvalid, hx, -⟩ := hsrc
  simp only [Rect.valid_iff] at hvalid
  obtain ⟨j, hj⟩ := eq_ofNat_of_zero_le (a := max s.width dst'.left - dst'.left) (by omega)
  have hcovers : (s.lineMove src' dst' 0).Covers (s.addr (dst'.left + j) (dst'.top + (0 : Nat)) + 0) :=
    covers_lineMove.2 ⟨j, by omega, 0, by omega, rfl⟩
  obtain ⟨p, hp, k, hk, haddr⟩ :=
    exists_copies_of_covers hoffset htakes (mem_movesWithin.2 ⟨0, by omega, rfl⟩) hcovers
  have hin := ((hcopies p).1 hp).1
  have hinside := hp.1.1
  have hfits := s.fits
  rw [Rect.contains_iff] at hin
  have hbeyond : (p.2 - dst'.top) * s.stride = (s.width - p.1) * 3 - k := by
    have hcolumn : dst'.left + (j : Int) = s.width := by omega
    unfold addr at haddr
    simp only [hcolumn, Nat.cast_zero, Int.add_zero] at haddr
    rw [Int.sub_mul]
    omega
  rcases Int.lt_or_le 0 (p.2 - dst'.top) with hpos | hneg
  · have := le_mul_of_one_le_left (a := p.2 - dst'.top) (b := s.stride) (by omega) (by omega)
    omega
  · have := mul_nonpos_of_nonpos_of_nonneg (a := p.2 - dst'.top) (b := s.stride) (by omega) (by omega)
    omega

variable (hleft : 0 ≤ dst'.left)

include hleft

theorem copies_of_line {i j : Nat} (hi : i < src'.bottom - src'.top + 1) (hj : j < src'.right - src'.left) :
    s.Copies s src dst (dst'.left + j, dst'.top + i) := by
  have hright := right_of_takes hcopies hsrc hcolumns hoffset htakes
  obtain ⟨p, hp, k, hk, haddr⟩ := exists_copies_of_covers hoffset htakes (mem_movesWithin.2 ⟨i, hi, rfl⟩)
    (covers_lineMove.2 ⟨j, hj, 0, by omega, rfl⟩)
  obtain ⟨⟨hx, hy⟩, -⟩ := addr_inj (by omega) hp.1.1 (by omega) hk haddr
  exact (Prod.ext hx hy : (dst'.left + (j : Int), dst'.top + (i : Int)) = p) ▸ hp

theorem cutAlike_of_takes : CutAlike src dst src' dst' := by
  have hright := right_of_takes hcopies hsrc hcolumns hoffset htakes
  have hvalid := hsrc.1
  simp only [Rect.valid_iff] at hvalid
  obtain ⟨i, rest, hi, hmoves, hrest⟩ := @movesWithin_eq_cons s src' dst' hvalid.2
  have hp := @copies_of_line s src dst src' dst' hcopies hsrc hcolumns hoffset htakes hleft i 0 hi (by omega)
  have hcopied := htakes.copied _ hp 0 (by omega)
  have hstay : trace rest (s.addr (dst'.left + (0 : Nat)) (dst'.top + i) + 0) =
      s.addr (dst'.left + (0 : Nat)) (dst'.top + i) + 0 := by
    refine trace_of_not_covers fun m hm hcovers => ?_
    obtain ⟨i', hne, rfl⟩ := hrest m hm
    obtain ⟨j, hj, k, hk, haddr⟩ := covers_lineMove.1 hcovers
    obtain ⟨⟨-, hline⟩, -⟩ := addr_inj (by omega) (by omega) (by omega) hk haddr
    omega
  rw [hmoves, trace, hstay, origin_lineMove (by omega) (by omega), Int.add_zero, Int.add_zero] at hcopied
  obtain ⟨-, hx, -⟩ := hsrc
  have hsame := @addr_pixel_inj s (src'.left + (0 : Nat), src'.top + i) _ (by simp only; omega) hp.2.2.1 hcopied
  simp only [counterpart, Prod.mk.injEq] at hsame
  unfold CutAlike
  omega

theorem width_of_takes : dst'.right - dst'.left + 1 = src'.right - src'.left := by
  obtain ⟨hcutLeft, hcutTop⟩ := cutAlike_of_takes hcopies hsrc hcolumns hoffset htakes hleft
  have hvalid := hsrc.1
  simp only [Rect.valid_iff] at hvalid
  obtain ⟨n, hn⟩ := eq_ofNat_of_zero_le (a := src'.right - src'.left) (by omega)
  have hlast := (hcopies _).1 (@copies_of_line s src dst src' dst' hcopies hsrc hcolumns hoffset htakes hleft 0 (n - 1)
    (by omega) (by omega))
  simp only [Rect.contains_iff, counterpart] at hlast
  by_contra hwidth
  -- the column after the last one that is copied
  have hp : s.Copies s src dst (dst'.left + n, dst'.top) := by
    rw [hcopies]
    simp only [Rect.contains_iff, counterpart]
    omega
  have hcopied := htakes.copied _ hp 0 (by omega)
  rw [trace_of_not_covers, Int.add_zero, Int.add_zero] at hcopied
  · have hsame := addr_pixel_inj hp.1.1 hp.2.2.1 hcopied
    simp only [counterpart, Prod.mk.injEq] at hsame
    have hstill : dst'.left - src'.left = 0 ∧ dst'.top - src'.top = 0 := by omega
    refine hoffset ?_
    rw [offset, hstill.1, hstill.2]
    ring
  · intro m hm hcovers
    obtain ⟨i, -, rfl⟩ := mem_movesWithin.1 hm
    obtain ⟨j, hj, k, hk, haddr⟩ := covers_lineMove.1 hcovers
    have hinside := hp.1.1
    obtain ⟨⟨hcolumn, -⟩, -⟩ := addr_inj (by omega) (by omega) (by omega) hk haddr
    omega

theorem height_of_takes : src'.bottom - src'.top ≤ dst'.bottom - dst'.top := by
  have hvalid := hsrc.1
  simp only [Rect.valid_iff] at hvalid
  obtain ⟨i, hi⟩ := eq_ofNat_of_zero_le (a := src'.bottom - src'.top) (by omega)
  have hin := ((hcopies _).1 (@copies_of_line s src dst src' dst' hcopies hsrc hcolumns hoffset htakes hleft i 0
    (by omega) (by omega))).1
  rw [Rect.contains_iff] at hin
  simp only at hin
  omega

/-- A byte of the first line that has been copied over the last one would be copied a second time. -/
theorem not_overlaps_of_takes : ¬ Overlaps src' dst' := by
  rintro ⟨⟨hlast, hbelow⟩, hnear, hnear'⟩
  obtain ⟨hcutLeft, hcutTop⟩ := cutAlike_of_takes hcopies hsrc hcolumns hoffset htakes hleft
  obtain ⟨n, hn⟩ := eq_ofNat_of_zero_le (a := src'.bottom - src'.top) (by omega)
  obtain ⟨j, hj⟩ := eq_ofNat_of_zero_le (a := max src'.left dst'.left - src'.left) (by omega)
  obtain ⟨j', hj'⟩ := eq_ofNat_of_zero_le (a := max src'.left dst'.left - dst'.left) (by omega)
  have hmoves : s.movesWithin src' dst' =
      (List.range n).map (s.lineMove src' dst') ++ [s.lineMove src' dst' n] := by
    have hrounds : (src'.bottom - src'.top + 1).toNat = n + 1 := by omega
    rw [movesWithin, if_neg (by omega), hrounds, range_succ, map_append]
    rfl
  have hp := @copies_of_line s src dst src' dst' hcopies hsrc hcolumns hoffset htakes hleft n j (by omega) (by omega)
  have hcopied := htakes.copied _ hp 0 (by omega)
  have hsame : s.addr (src'.left + j) (src'.top + n) + 0 = s.addr (dst'.left + j') (dst'.top + (0 : Nat)) + 0 := by
    have hx : src'.left + (j : Int) = dst'.left + j' := by omega
    have hy : src'.top + (n : Int) = dst'.top + (0 : Nat) := by omega
    rw [hx, hy]
  have hfirst : (s.lineMove src' dst' 0).Covers (s.addr (src'.left + j) (src'.top + n) + 0) := by
    rw [hsame]
    exact covers_lineMove.2 ⟨j', by omega, 0, by omega, rfl⟩
  have hmem : s.lineMove src' dst' 0 ∈ (List.range n).map (s.lineMove src' dst') :=
    mem_map_of_mem (mem_range.2 (by omega))
  obtain ⟨times, htrace, hpos⟩ := @trace_of_shift ((List.range n).map (s.lineMove src' dst')) _
    (fun m hm => @sub_of_mem_movesWithin s src' dst' m (hmoves ▸ mem_append_left _ hm))
    (s.addr (src'.left + j) (src'.top + n) + 0)
  have hplace : counterpart src dst (dst'.left + j, dst'.top + n) = (src'.left + j, src'.top + n) := by
    unfold counterpart
    exact Prod.ext (by simp only; omega) (by simp only; omega)
  rw [hmoves, trace_append, trace, trace, origin_lineMove (by omega) (by omega), htrace, hplace] at hcopied
  simp only at hcopied
  have htimes := hpos ⟨_, hmem, hfirst⟩
  have hzero : times * s.offset src' dst' = 0 := by omega
  rcases Int.mul_eq_zero.1 hzero with htimes' | hshift
  · omega
  · exact hoffset hshift

end

theorem copiesWithin_of_takes (hsize : SameSize src dst)
    (hallowed : ∀ m ∈ s.movesWithin (s.fixed src) (s.fixed dst), s.Allowed s m)
    (htakes : s.Takes s src dst (trace (s.movesWithin (s.fixed src) (s.fixed dst)))) :
    s.CopiesWithin src dst (s.fixed src) (s.fixed dst) := by
  have hcopies : ∀ p, s.Copies s src dst p ↔ _ := fun p => copies_iff hsize
  have hsrcWithin := @within_fixed s src
  have hleft : 0 ≤ (s.fixed dst).left := by
    simp only [fixed]
    omega
  generalize s.fixed src = src' at *
  generalize s.fixed dst = dst' at *
  by_cases hlines : src'.bottom < src'.top
  · exact .inl hlines
  have hcolumns : src'.left ≤ src'.right := by
    have hfirst := (hallowed _ (mem_movesWithin.2 ⟨0, by omega, rfl⟩)).1
    simp only [lineMove] at hfirst
    omega
  by_cases hstill : src'.left = src'.right ∨ s.offset src' dst' = 0
  · refine .inr (.inl ⟨⟨hcolumns, hstill⟩, (takes_of_still fun a => ?_).1 htakes⟩)
    rcases hstill with hnarrow | hoffset
    · refine trace_of_not_covers fun m hm ha => ?_
      obtain ⟨i, -, rfl⟩ := mem_movesWithin.1 hm
      obtain ⟨j, hj, -⟩ := covers_lineMove.1 ha
      omega
    · exact trace_of_offset hoffset a
  · obtain ⟨hwide, hoffset⟩ := not_or.1 hstill
    have hmoved : src'.left < src'.right := by omega
    have hsrc := hsrcWithin (by simp only [Rect.valid_iff]; omega)
    exact .inr (.inr ⟨⟨⟨hmoved, cutAlike_of_takes hcopies hsrc hmoved hoffset htakes hleft⟩,
      width_of_takes hcopies hsrc hmoved hoffset htakes hleft,
      height_of_takes hcopies hsrc hmoved hoffset htakes hleft⟩,
      not_overlaps_of_takes hcopies hsrc hmoved hoffset htakes hleft⟩)

theorem takes_of_copiesWithin (hsize : SameSize src dst) (h : s.CopiesWithin src dst (s.fixed src) (s.fixed dst)) :
    (∀ m ∈ s.movesWithin (s.fixed src) (s.fixed dst), s.Allowed s m) ∧
      s.Takes s src dst (trace (s.movesWithin (s.fixed src) (s.fixed dst))) := by
  have hcopies : ∀ p, s.Copies s src dst p ↔ _ := fun p => copies_iff hsize
  have hsrcWithin := @within_fixed s src
  have hdstWithin := @within_fixed s dst
  generalize s.fixed src = src' at *
  generalize s.fixed dst = dst' at *
  by_cases hlines : src'.bottom < src'.top
  · exact takes_of_empty hcopies hlines
  rcases h with hempty | ⟨⟨hcolumns, hstill⟩, hplace⟩ | ⟨⟨⟨hcolumns, hcut⟩, hwidth, hheight⟩, hoverlap⟩
  · exact absurd hempty hlines
  · have hsrc := hsrcWithin (by simp only [Rect.valid_iff]; omega)
    exact takes_of_unmoved hsrc hstill hplace
  · have hsrc := hsrcWithin (by simp only [Rect.valid_iff]; omega)
    have hdst := hdstWithin (by simp only [Rect.valid_iff]; omega)
    exact takes_of_moved hcopies hsrc hdst hcut hwidth hheight hoverlap

end Surface

/-! ## The whole function -/

namespace Source

variable {s : Surface} {source : Source} {src dst : Rect}

def moves (s : Surface) (src dst : Rect) : Source → List Move
  | this => s.movesWithin (s.fixed src) (s.fixed dst)
  | other t => s.movesFrom t (t.fixed src) (s.fixed dst)

def Apart (s : Surface) : Source → Prop
  | this => True
  | other t => s.Apart t

def Suits (s : Surface) (src dst : Rect) : Source → Prop
  | this => s.CopiesWithin src dst (s.fixed src) (s.fixed dst)
  | other t => Surface.CopiesFrom src dst (t.fixed src) (s.fixed dst)

theorem blit_eq (hcolor : (source.surface s).colorSpace = s.colorSpace) (src dst : Rect) (mem : Bits) :
    s.blit source src dst mem = if ∀ i ∈ source.ints s src dst, IsInt32 i then
      run (s.Allowed (source.surface s)) (source.moves s src dst) mem else none := by
  unfold Surface.blit
  rw [if_neg (not_not.2 hcolor)]
  cases source with
  | this =>
    simp only [surface, moves, Surface.moveWithin_eq]
    rfl
  | other t =>
    simp only [surface, moves, Surface.moveFrom_eq]
    rfl

theorem suits_iff (hapart : source.Apart s) (hsize : Surface.SameSize src dst) : source.Suits s src dst ↔
    (∀ m ∈ source.moves s src dst, s.Allowed (source.surface s) m) ∧
      s.Takes (source.surface s) src dst (trace (source.moves s src dst)) := by
  cases source with
  | this => exact ⟨Surface.takes_of_copiesWithin hsize, fun h => Surface.copiesWithin_of_takes hsize h.1 h.2⟩
  | other t =>
    exact ⟨Surface.takes_of_copiesFrom hapart hsize, fun h => Surface.copiesFrom_of_takes hapart hsize h.1 h.2⟩

/-- **Copying without scaling.** For rectangles of one size, every pixel that has a counterpart gets what that was, no
other byte changes and none outside the surfaces is touched, exactly where no `int` overflows and the cut rectangles
suit. -/
theorem blit_copies_iff (hs : s.colorSpace = .kRGB24) (ht : (source.surface s).colorSpace = .kRGB24)
    (hapart : source.Apart s)
    (hsize : dst.right - dst.left = src.right - src.left ∧ dst.bottom - dst.top = src.bottom - src.top) :
    (∀ mem, ∃ mem', s.blit source src dst mem = some mem' ∧ s.Blitted (source.surface s) src dst mem mem') ↔
      (∀ i ∈ source.ints s src dst, IsInt32 i) ∧ source.Suits s src dst := by
  simp only [blit_eq (ht.trans hs.symm), run_eq, suits_iff hapart hsize, ← Surface.blitted_iff]
  constructor
  · intro h
    have hints : ∀ i ∈ source.ints s src dst, IsInt32 i := by
      obtain ⟨mem', hblit, -⟩ := h black
      by_contra hnot
      rw [if_neg hnot] at hblit
      cases hblit
    have hallowed : ∀ m ∈ source.moves s src dst, s.Allowed (source.surface s) m := by
      obtain ⟨mem', hblit, -⟩ := h black
      by_contra hnot
      rw [if_pos hints, if_neg hnot] at hblit
      cases hblit
    refine ⟨hints, hallowed, fun mem => ?_⟩
    obtain ⟨mem', hblit, hblitted⟩ := h mem
    rw [if_pos hints, if_pos hallowed] at hblit
    obtain rfl := Option.some.inj hblit
    exact hblitted
  · rintro ⟨hints, hallowed, hblitted⟩ mem
    exact ⟨_, by rw [if_pos hints, if_pos hallowed], hblitted mem⟩

def smallBuffer : Surface := ⟨.kRGB24, 6, 6, 0x2000, 18, by decide⟩

theorem apart_smallBuffer : eightByEight.Apart smallBuffer := by
  intro a
  simp only [Surface.Holds, eightByEight, smallBuffer]
  omega

/-- A rectangle that sticks out of both surfaces, as far to the left and one line further below: the scaler shows every
line once. -/
theorem blit_copies_iff_small : (other smallBuffer).Suits eightByEight ⟨-1, 0, 4, 5⟩ ⟨-1, 3, 4, 8⟩ ∧
    ∀ mem, ∃ mem', eightByEight.blit (other smallBuffer) ⟨-1, 0, 4, 5⟩ ⟨-1, 3, 4, 8⟩ mem = some mem' ∧
      eightByEight.Blitted smallBuffer ⟨-1, 0, 4, 5⟩ ⟨-1, 3, 4, 8⟩ mem mem' := by
  have hsuits : (other smallBuffer).Suits eightByEight ⟨-1, 0, 4, 5⟩ ⟨-1, 3, 4, 8⟩ := by
    unfold Suits Surface.CopiesFrom Surface.CutAlike
    decide
  exact ⟨hsuits, (@blit_copies_iff eightByEight (other smallBuffer) ⟨-1, 0, 4, 5⟩ ⟨-1, 3, 4, 8⟩ rfl rfl
    apart_smallBuffer (by decide)).2 ⟨by decide, hsuits⟩⟩

/-- **The last column is left out** within a surface. -/
theorem last_column_left : ¬ ∀ mem, ∃ mem', eightByEight.blit this ⟨0, 0, 1, 0⟩ ⟨4, 0, 5, 0⟩ mem = some mem' ∧
    eightByEight.Blitted eightByEight ⟨0, 0, 1, 0⟩ ⟨4, 0, 5, 0⟩ mem mem' := by
  intro h
  obtain ⟨mem', hblit, hblitted⟩ := h fun a => if a = 0x1003 then 1 else 0
  have hcopies : eightByEight.Copies eightByEight ⟨0, 0, 1, 0⟩ ⟨4, 0, 5, 0⟩ (5, 0) := by
    unfold Surface.Copies
    decide
  have hcopied := hblitted.copied (5, 0) hcopies 0 (by decide)
  have hbyte : (eightByEight.blit this ⟨0, 0, 1, 0⟩ ⟨4, 0, 5, 0⟩ fun a => if a = 0x1003 then 1 else 0).map
      (fun mem' => mem' 0x100f) = some 0 := by decide +kernel
  rw [hblit, Option.map_some] at hbyte
  exact absurd (hcopied.symm.trans (Option.some.inj hbyte)) (by decide)

end Source

end Windowing
