import Mathlib.Data.List.Basic
import SkyOS.Stdio.Stream

/-!
# `fgets` (`kfileio.cpp:128`)

A call takes characters from the stream until a newline or until its budget is used up, which carriage returns take from
as well, and says that there was no line if it has met the end or stored nothing. So a last line without a newline is
lost, a byte 0xFF, which as a `char` is `EOF`, ends the reading, and so does a call that has used up its budget on
carriage returns.

| here | there |
| --- | --- |
| `n` | `max - 1`: what a call takes at most |
| `dst` | the bytes stored before the terminating zero |
| `readLines` | a caller that goes on until `NULL`, for some rounds; `none` if it has not come to it |
| `IsPiece` | what a call takes from the stream |
-/

namespace Stdio

open Machine Bytes List Option Nat

def CR : UInt8 := 0x0D
def LF : UInt8 := 0x0A

/-! ## The source -/

section

variable (mem : Memory)

/-- The loop (:137), with `c` as it is before it: what is stored, `c` behind it, and the stream. -/
def fgetsLoop : Nat → Int → FILE → Option (List UInt8 × Int × FILE)
  | 0, c, fp => some ([], c, fp)
  | max + 1, _, fp => do
    let (c, fp) ← fgetc mem fp
    if c = EOF then return ([], c, fp)
    else if c = 0x0D then fgetsLoop max c fp
    else if c = 0x0A then return ([(Int8.ofInt c).toUInt8], c, fp)
    else
      let (dst, c', fp) ← fgetsLoop max c fp
      return ((Int8.ofInt c).toUInt8 :: dst, c', fp)

/-- Whether there is a line (`NULL` if not), the bytes written to `dst`, and the stream. -/
def fgets (max : Int) (fp : FILE) : Option (Bool × List UInt8 × FILE) :=
  (fgetsLoop mem (max - 1).toNat 0 fp).map fun (dst, c, fp) => (!(dst.isEmpty || c == EOF), dst ++ [0], fp)

/-! ## Reading to the end -/

def cString (bytes : List UInt8) : List UInt8 := bytes.takeWhile fun c => c ≠ 0

/-- The strings delivered by `fgets` until it returns `NULL`, one behind the other. -/
def readLines (max : Int) : Nat → FILE → Option (List UInt8)
  | 0, _ => none
  | rounds + 1, fp => do
    let (line, dst, fp) ← fgets mem max fp
    if line then return cString dst ++ (← readLines max rounds fp) else return []

/-- The reading comes to its end with all of the content but the carriage returns, and no call writes more than `max`
bytes. -/
structure LosesNothing (max : Int) (m : Module) (content : List UInt8) : Prop where
  delivered : ∃ rounds, readLines mem max rounds (openModule m) = some (content.filter fun c => c ≠ CR)
  writes : ∀ fp line dst fp', fgets mem max fp = some (line, dst, fp') → dst.length ≤ max

end

/-- At most `n` bytes, with a newline at most at the end; all of `n` if there is none; and not carriage returns only. -/
structure IsPiece (n : Nat) (piece : List UInt8) : Prop where
  length_le : piece.length ≤ n
  inner : LF ∉ piece.dropLast
  ends : piece.getLast? = some LF ∨ piece.length = n
  stores : ∃ c ∈ piece, c ≠ CR

/-! ## One call -/

/-- What a call takes from the bytes ahead, and what it leaves. -/
def lineOf : Nat → List UInt8 → List UInt8 × List UInt8
  | 0, bytes => ([], bytes)
  | _ + 1, [] => ([], [])
  | n + 1, c :: bytes => if c = LF then ([c], bytes) else (c :: (lineOf n bytes).1, (lineOf n bytes).2)

def MeetsEnd (n : Nat) (bytes : List UInt8) : Prop := (lineOf n bytes).1.length < n ∧ LF ∉ (lineOf n bytes).1

variable {mem : Memory} {n : Nat} {bytes : List UInt8}

theorem lineOf_append (n : Nat) (bytes : List UInt8) : (lineOf n bytes).1 ++ (lineOf n bytes).2 = bytes := by
  induction n generalizing bytes with
  | zero => rfl
  | succ n ih =>
    cases bytes with
    | nil => rfl
    | cons c bytes =>
      rw [lineOf]
      split
      · rfl
      · rw [cons_append, ih]

theorem toInt8_eq_iff {c d : UInt8} {x : Int} (hd : d.toInt8.toInt = x) : c.toInt8.toInt = x ↔ c = d := by
  rw [← hd, Int8.toInt_inj]
  exact ⟨fun h => Int8.ofUInt8.inj h, fun h => h ▸ rfl⟩

theorem toInt8_eq_EOF_iff (c : UInt8) : c.toInt8.toInt = EOF ↔ c = 0xFF := toInt8_eq_iff (by decide)

theorem toInt8_eq_CR_iff (c : UInt8) : c.toInt8.toInt = 0x0D ↔ c = CR := toInt8_eq_iff (by decide)

theorem toInt8_eq_LF_iff (c : UInt8) : c.toInt8.toInt = 0x0A ↔ c = LF := toInt8_eq_iff (by decide)

theorem ofInt_toInt8 (c : UInt8) : (Int8.ofInt c.toInt8.toInt).toUInt8 = c := by
  rw [Int8.ofInt_toInt, UInt8.toUInt8_toInt8]

/-- **The loop** on bytes without `EOF` among them. -/
theorem fgetsLoop_spec (n : Nat) : ∀ {fp : FILE} {bytes : List UInt8} (c : Int), Ahead mem fp bytes → 0xFF ∉ bytes →
    c ≠ EOF → ∃ c' fp', fgetsLoop mem n c fp = some ((lineOf n bytes).1.filter fun c => c ≠ CR, c', fp') ∧
      Ahead mem fp' (lineOf n bytes).2 ∧ (c' = EOF ↔ MeetsEnd n bytes) := by
  unfold MeetsEnd
  induction n with
  | zero =>
    intro fp bytes c hahead _ hc
    exact ⟨c, fp, rfl, hahead, iff_of_false hc fun h => Nat.not_lt_zero _ h.1⟩
  | succ n ih =>
    intro fp bytes c hahead hbytes hc
    cases bytes with
    | nil =>
      obtain ⟨fp', hgetc, hahead'⟩ := fgetc_nil hahead
      refine ⟨EOF, fp', ?_, hahead', iff_of_true rfl ⟨succ_pos n, not_mem_nil⟩⟩
      simp only [fgetsLoop, hgetc, bind_eq_bind, bind_some, if_true, lineOf]
      rfl
    | cons d bytes =>
      obtain ⟨fp', hgetc, hahead'⟩ := fgetc_cons hahead
      obtain ⟨hd, hrest⟩ := not_or.1 (mt mem_cons.2 hbytes)
      have hEOF : d.toInt8.toInt ≠ EOF := fun he => hd ((toInt8_eq_EOF_iff d).1 he).symm
      obtain ⟨c', fp'', hloop, hahead'', hend⟩ := ih d.toInt8.toInt hahead' hrest hEOF
      rw [fgetsLoop, hgetc, lineOf]
      simp only [bind_eq_bind, bind_some, if_neg hEOF, toInt8_eq_CR_iff, toInt8_eq_LF_iff, ofInt_toInt8]
      by_cases hCR : d = CR
      · -- a carriage return takes from the budget
        have hLF : d ≠ LF := by
          rw [hCR]
          decide
        refine ⟨c', fp'', ?_, ?_, ?_⟩
        · rw [if_pos hCR, hloop, if_neg hLF, filter_cons_of_neg (by simpa using hCR)]
        · rw [if_neg hLF]
          exact hahead''
        · rw [hend, if_neg hLF, length_cons, Nat.add_lt_add_iff_right, mem_cons, not_or, and_iff_right hLF.symm]
      by_cases hLF : d = LF
      · refine ⟨d.toInt8.toInt, fp', ?_, ?_, ?_⟩
        · rw [if_neg hCR, if_pos hLF, if_pos hLF, filter_cons_of_pos (by simpa using hCR), filter_nil]
          rfl
        · rw [if_pos hLF]
          exact hahead'
        · rw [if_pos hLF]
          exact iff_of_false hEOF fun h => h.2 (mem_cons.2 (.inl hLF.symm))
      · refine ⟨c', fp'', ?_, ?_, ?_⟩
        · rw [if_neg hCR, if_neg hLF, hloop, if_neg hLF, filter_cons_of_pos (by simpa using hCR)]
          rfl
        · rw [if_neg hLF]
          exact hahead''
        · rw [hend, if_neg hLF, length_cons, Nat.add_lt_add_iff_right, mem_cons, not_or,
            and_iff_right (Ne.symm hLF)]

variable {fp : FILE} {max : Int}

variable {fp' : FILE} {p : List UInt8}

theorem fgetc_char {c : Int} (h : fgetc mem fp = some (c, fp')) : ∃ b : UInt8, b.toInt8.toInt = c := by
  rw [fgetc, map_eq_some_iff] at h
  obtain ⟨⟨readCount, buf, t⟩, -, he⟩ := h
  obtain ⟨rfl, -⟩ := Prod.mk.inj he
  split
  · exact ⟨0xFF, rfl⟩
  · exact ⟨buf.headD 0, rfl⟩

theorem fgetsLoop_stores (n : Nat) : ∀ {c c' : Int} {fp fp' : FILE} {dst : List UInt8},
    fgetsLoop mem n c fp = some (dst, c', fp') → dst.length ≤ n ∧ 0xFF ∉ dst := by
  induction n with
  | zero =>
    intro c c' fp fp' dst h
    cases h
    exact ⟨le_rfl, not_mem_nil⟩
  | succ n ih =>
    intro c c' fp fp' dst h
    rw [fgetsLoop] at h
    obtain ⟨⟨d, t⟩, hgetc, h⟩ := bind_eq_some_iff.1 h
    obtain ⟨b, rfl⟩ := fgetc_char hgetc
    simp only [toInt8_eq_EOF_iff, toInt8_eq_CR_iff, toInt8_eq_LF_iff, ofInt_toInt8] at h
    split_ifs at h with hEOF hCR hLF
    · cases h
      exact ⟨zero_le _, not_mem_nil⟩
    · obtain ⟨hlength, hstored⟩ := ih h
      exact ⟨le_succ_of_le hlength, hstored⟩
    · cases h
      exact ⟨succ_le_succ (zero_le n), fun hmem => hEOF (mem_singleton.1 hmem).symm⟩
    · obtain ⟨⟨dst', d', t'⟩, hloop, h⟩ := bind_eq_some_iff.1 h
      cases h
      obtain ⟨hlength, hstored⟩ := ih hloop
      exact ⟨succ_le_succ hlength, mt mem_cons.1 (not_or.2 ⟨fun he => hEOF he.symm, hstored⟩)⟩

theorem fgets_spec (max : Int) (h : Ahead mem fp bytes) (hbytes : 0xFF ∉ bytes) :
    ∃ line fp', fgets mem max fp =
        some (line, (lineOf (max - 1).toNat bytes).1.filter (fun c => c ≠ CR) ++ [0], fp') ∧
      Ahead mem fp' (lineOf (max - 1).toNat bytes).2 ∧
      (line = true ↔ (lineOf (max - 1).toNat bytes).1.filter (fun c => c ≠ CR) ≠ [] ∧
        ¬ MeetsEnd (max - 1).toNat bytes) := by
  obtain ⟨c, fp', hloop, hahead, hend⟩ := fgetsLoop_spec (max - 1).toNat 0 h hbytes (by decide)
  refine ⟨_, fp', by rw [fgets, hloop, map_some], hahead, ?_⟩
  rw [← hend, Bool.not_eq_true', Bool.or_eq_false_iff, isEmpty_eq_false_iff, beq_eq_false_iff_ne]

/-! ## Pieces -/

def InPieces (n : Nat) (bytes : List UInt8) : Prop :=
  ∃ (pieces : List (List UInt8)) (rest : List UInt8), bytes = pieces.flatten ++ rest ∧
    (∀ piece ∈ pieces, IsPiece n piece) ∧ ∀ c ∈ rest, c = CR

theorem length_lineOf_le (n : Nat) (bytes : List UInt8) : (lineOf n bytes).1.length ≤ n := by
  induction n generalizing bytes with
  | zero => exact le_rfl
  | succ n ih =>
    cases bytes with
    | nil => exact zero_le _
    | cons c bytes =>
      rw [lineOf]
      split
      · exact succ_le_succ (zero_le n)
      · exact succ_le_succ (ih bytes)

theorem lineOf_inner (n : Nat) (bytes : List UInt8) : LF ∉ (lineOf n bytes).1.dropLast := by
  induction n generalizing bytes with
  | zero => exact not_mem_nil
  | succ n ih =>
    cases bytes with
    | nil => exact not_mem_nil
    | cons c bytes =>
      rw [lineOf]
      split
      · exact not_mem_nil
      · rename_i hc
        cases hline : (lineOf n bytes).1 with
        | nil => exact not_mem_nil
        | cons d line =>
          rw [dropLast_cons_cons, ← hline, mem_cons, not_or]
          exact ⟨Ne.symm hc, ih bytes⟩

theorem getLast?_of_mem (h : LF ∈ p) (hinner : LF ∉ p.dropLast) : p.getLast? = some LF := by
  by_contra hlast
  exact hinner (List.mem_dropLast_of_mem_of_ne_getLast? h (Ne.symm hlast))

theorem isPiece_lineOf (hend : ¬ MeetsEnd n bytes) (hstores : (lineOf n bytes).1.filter (fun c => c ≠ CR) ≠ []) :
    IsPiece n (lineOf n bytes).1 where
  length_le := length_lineOf_le n bytes
  inner := lineOf_inner n bytes
  ends := by
    by_cases hLF : LF ∈ (lineOf n bytes).1
    · exact .inl (getLast?_of_mem hLF (lineOf_inner n bytes))
    · refine .inr (Nat.le_antisymm (length_lineOf_le n bytes) (Nat.le_of_not_lt fun hlt => hend ⟨hlt, hLF⟩))
  stores := by
    obtain ⟨c, hc⟩ := exists_mem_of_ne_nil _ hstores
    rw [mem_filter, decide_eq_true_iff] at hc
    exact ⟨c, hc⟩

theorem lineOf_piece (hlength : p.length ≤ n) (hinner : LF ∉ p.dropLast)
    (hends : p.getLast? = some LF ∨ p.length = n) (rest : List UInt8) : lineOf n (p ++ rest) = (p, rest) := by
  induction n generalizing p with
  | zero =>
    rw [length_eq_zero_iff.1 (le_zero.1 hlength)]
    rfl
  | succ n ih =>
    cases p with
    | nil =>
      rcases hends with hends | hends
      · cases hends
      · cases hends
    | cons c p =>
      rw [cons_append, lineOf]
      by_cases hc : c = LF
      · -- a newline in front of others would be an inner one
        cases p with
        | nil =>
          rw [if_pos hc]
          rfl
        | cons d p =>
          rw [dropLast_cons_cons] at hinner
          exact absurd (mem_cons.2 (.inl hc.symm)) hinner
      · rw [if_neg hc]
        have hrest : lineOf n (p ++ rest) = (p, rest) := by
          cases p with
          | nil =>
            refine ih (zero_le _) not_mem_nil (.inr ?_)
            rcases hends with hends | hends
            · exact absurd (Option.some.inj hends) hc
            · exact Nat.succ.inj hends
          | cons d p =>
            rw [dropLast_cons_cons, mem_cons, not_or] at hinner
            rw [List.getLast?_cons_cons] at hends
            exact ih (le_of_succ_le_succ hlength) hinner.2 (hends.imp_right Nat.succ.inj)
        rw [hrest]

theorem inPieces_iff (hbytes : ∃ c ∈ bytes, c ≠ CR) : InPieces n bytes ↔
    ((lineOf n bytes).1.filter (fun c => c ≠ CR) ≠ [] ∧ ¬ MeetsEnd n bytes) ∧ InPieces n (lineOf n bytes).2 := by
  constructor
  · rintro ⟨pieces, rest, rfl, hpieces, hrest⟩
    cases pieces with
    | nil =>
      obtain ⟨c, hc, hne⟩ := hbytes
      exact absurd (hrest c hc) hne
    | cons p pieces =>
      have hp := hpieces p (.head _)
      have hline := lineOf_piece hp.length_le hp.inner hp.ends (pieces.flatten ++ rest)
      rw [flatten_cons, append_assoc, MeetsEnd, hline]
      refine ⟨⟨?_, ?_⟩, pieces, rest, rfl, fun q hq => hpieces q (mem_cons_of_mem p hq), hrest⟩
      · obtain ⟨c, hc, hne⟩ := hp.stores
        exact ne_nil_of_mem (mem_filter.2 ⟨hc, decide_eq_true hne⟩)
      · rintro ⟨hlt, hLF⟩
        rcases hp.ends with hends | hends
        · exact hLF (List.mem_of_getLast? hends)
        · exact absurd hends (Nat.ne_of_lt hlt)
  · rintro ⟨⟨hstores, hend⟩, pieces, rest, hsplit, hpieces, hrest⟩
    refine ⟨(lineOf n bytes).1 :: pieces, rest, ?_, ?_, hrest⟩
    · rw [flatten_cons, append_assoc, ← hsplit, lineOf_append]
    · exact forall_mem_cons.2 ⟨isPiece_lineOf hend hstores, hpieces⟩

theorem inPieces_of_returns (h : ∀ c ∈ bytes, c = CR) : InPieces n bytes :=
  ⟨[], bytes, rfl, fun _ hp => absurd hp not_mem_nil, h⟩

/-! ## The whole reading -/

theorem cString_append_zero {s : List UInt8} (h : 0 ∉ s) : cString (s ++ [0]) = s := by
  unfold cString
  rw [takeWhile_append_of_pos]
  · exact append_nil s
  · intro c hc
    exact decide_eq_true fun he => h (he ▸ hc)

theorem readLines_iff : ∀ {bytes : List UInt8} {fp : FILE}, Ahead mem fp bytes →
    0xFF ∉ bytes → 0 ∉ bytes → ((∃ rounds, readLines mem max rounds fp = some (bytes.filter fun c => c ≠ CR)) ↔
      InPieces (max - 1).toNat bytes) := by
  intro bytes
  induction hlength : bytes.length using Nat.strong_induction_on generalizing bytes with
  | _ length ih =>
    intro fp hahead hEOF hzero
    obtain ⟨line, fp', hfgets, hahead', hline⟩ := fgets_spec max hahead hEOF
    have hsplit := lineOf_append (max - 1).toNat bytes
    have hstored : (0 : UInt8) ∉ (lineOf (max - 1).toNat bytes).1.filter (fun c => c ≠ CR) := fun hmem =>
      hzero (hsplit ▸ mem_append_left _ (mem_of_mem_filter hmem))
    have hround : ∀ rounds, readLines mem max (rounds + 1) fp =
        if line then (readLines mem max rounds fp').map
          ((lineOf (max - 1).toNat bytes).1.filter (fun c => c ≠ CR) ++ ·) else some [] := fun rounds => by
      rw [readLines, hfgets, bind_eq_bind, bind_some]
      dsimp only
      rw [cString_append_zero hstored]
      cases line with
      | false => rfl
      | true =>
        rw [if_pos rfl, if_pos rfl, map_eq_bind]
        rfl
    rw [← or_exists_add_one, or_iff_right (fun h => nomatch h)]
    simp only [hround]
    by_cases hreturns : ∀ c ∈ bytes, c = CR
    · -- nothing but carriage returns: this call is the last one
      have hnone : bytes.filter (fun c => c ≠ CR) = [] := filter_eq_nil_iff.2 fun c hc => by
        simpa using hreturns c hc
      have hempty : (lineOf (max - 1).toNat bytes).1.filter (fun c => c ≠ CR) = [] :=
        filter_eq_nil_iff.2 fun c hc => by
          simpa using hreturns c (hsplit ▸ mem_append_left _ hc)
      rw [hnone, Bool.eq_false_iff.2 (mt hline.1 fun h => h.1 hempty)]
      exact iff_of_true ⟨0, rfl⟩ (inPieces_of_returns hreturns)
    have hbytes : ∃ c ∈ bytes, c ≠ CR := by
      simpa only [not_forall, exists_prop] using hreturns
    rw [inPieces_iff hbytes, ← hline]
    cases line with
    | false =>
      refine iff_of_false ?_ fun h => Bool.false_ne_true h.1
      rintro ⟨rounds, he⟩
      obtain ⟨c, hc, hne⟩ := hbytes
      have hmem : c ∈ bytes.filter fun c => c ≠ CR := mem_filter.2 ⟨hc, decide_eq_true hne⟩
      rw [← Option.some.inj he] at hmem
      exact absurd hmem not_mem_nil
    | true =>
      have htaken : (lineOf (max - 1).toNat bytes).1 ≠ [] := fun hnil => (hline.1 rfl).1 (by rw [hnil, filter_nil])
      have hshort : (lineOf (max - 1).toNat bytes).2.length < length := by
        have hsum := congrArg List.length hsplit
        rw [length_append] at hsum
        have hpos := length_pos_iff.2 htaken
        omega
      have hrest := ih _ hshort rfl hahead' (fun h => hEOF (hsplit ▸ mem_append_right _ h))
        (fun h => hzero (hsplit ▸ mem_append_right _ h))
      rw [and_iff_right rfl, ← hrest]
      refine exists_congr fun rounds => ?_
      have hfilter : bytes.filter (fun c => c ≠ CR) = (lineOf (max - 1).toNat bytes).1.filter (fun c => c ≠ CR) ++
          (lineOf (max - 1).toNat bytes).2.filter (fun c => c ≠ CR) := by
        conv_lhs => rw [← hsplit, filter_append]
      rw [if_pos rfl, hfilter, map_eq_some_iff]
      constructor
      · rintro ⟨rest, hread, he⟩
        rw [hread, append_cancel_left he]
      · exact fun hread => ⟨_, hread, rfl⟩

/-- A byte 0xFF is never delivered. -/
theorem readLines_noEOF (rounds : Nat) : ∀ {fp : FILE} {s : List UInt8},
    readLines mem max rounds fp = some s → 0xFF ∉ s := by
  induction rounds with
  | zero =>
    intro fp s h
    cases h
  | succ rounds ih =>
    intro fp s h
    rw [readLines] at h
    obtain ⟨⟨line, dst, fp'⟩, hfgets, h⟩ := bind_eq_some_iff.1 h
    cases line with
    | false =>
      cases h
      exact not_mem_nil
    | true =>
      obtain ⟨rest, hrest, h⟩ := bind_eq_some_iff.1 h
      cases h
      rw [fgets, map_eq_some_iff] at hfgets
      obtain ⟨⟨stored, c, t⟩, hloop, he⟩ := hfgets
      obtain ⟨-, rfl, -⟩ : _ ∧ stored ++ [0] = dst ∧ t = fp' := by simpa only [Prod.mk.injEq] using he
      rw [mem_append, not_or]
      refine ⟨fun hmem => ?_, ih hrest⟩
      have hmem := ( takeWhile_prefix _).subset hmem
      rw [mem_append, mem_singleton] at hmem
      exact hmem.elim (fgetsLoop_stores _ hloop).2 (by decide)

theorem readLines_large (hmax : 2 ≤ max) (fp : FILE) (hpos : fp._position ≤ fp._fileLength)
    (hplaced : Placed fp) (hlarge : 2 ^ 31 ≤ fp._fileLength - fp._position) (rounds : Nat) :
    readLines mem max rounds fp = none := by
  cases rounds with
  | zero => rfl
  | succ rounds =>
    obtain ⟨n, hn⟩ : ∃ n, (max - 1).toNat = n + 1 := ⟨(max - 2).toNat, by omega⟩
    rw [readLines, fgets, hn, fgetsLoop, fgetc_large hpos hplaced hlarge]
    rfl

theorem fgets_writes (hmax : 2 ≤ max) {line : Bool} {dst : List UInt8}
    (h : fgets mem max fp = some (line, dst, fp')) : dst.length ≤ max := by
  rw [fgets, map_eq_some_iff] at h
  obtain ⟨⟨stored, c, t⟩, hloop, he⟩ := h
  obtain ⟨-, rfl, -⟩ : _ ∧ stored ++ [0] = dst ∧ t = fp' := by simpa only [Prod.mk.injEq] using he
  have hstored := (fgetsLoop_stores _ hloop).1
  rw [length_append, length_singleton]
  omega

/-- **Reading line by line** loses nothing exactly if the file is smaller than 2^31 bytes, no byte of it is 0xFF, and
it is made of pieces, with nothing but carriage returns behind the last one. -/
theorem losesNothing_iff {mem : Memory} {start : Nat} {content : List UInt8} (hmem : Holds mem start content)
    (hend : start + content.length < 2 ^ 32) (hzero : 0 ∉ content) {max : Int} (hmax : 2 ≤ max) :
    LosesNothing mem max ⟨start, start + content.length⟩ content ↔
      content.length < 2 ^ 31 ∧ 0xFF ∉ content ∧ InPieces (max - 1).toNat content := by
  have hlength : start + content.length - start = content.length := Nat.add_sub_cancel_left _ _
  have hopen : openModule ⟨start, start + content.length⟩ = ⟨⟨start, start + content.length⟩, content.length, 0, 0⟩ := by
    rw [openModule, sub32_of_le (Nat.le_add_right _ _) hend, hlength]
  have hlines : LosesNothing mem max ⟨start, start + content.length⟩ content ↔
      ∃ rounds, readLines mem max rounds (openModule ⟨start, start + content.length⟩) =
        some (content.filter fun c => c ≠ CR) :=
    ⟨fun h => h.delivered, fun h => ⟨h, fun _ _ _ _ => fgets_writes hmax⟩⟩
  rw [hlines]
  by_cases hsmall : content.length < 2 ^ 31
  · rw [and_iff_right hsmall]
    by_cases hEOF : 0xFF ∈ content
    · refine iff_of_false ?_ fun h => h.1 hEOF
      rintro ⟨rounds, hread⟩
      exact readLines_noEOF rounds hread (List.mem_filter.2 ⟨hEOF, rfl⟩)
    · rw [and_iff_right hEOF]
      have hahead := ahead_open mem (m := ⟨start, start + content.length⟩) (Nat.le_add_right _ _) hend
        (by rwa [hlength])
      rw [hlength, hmem] at hahead
      exact readLines_iff hahead hEOF hzero
  · refine iff_of_false ?_ fun h => hsmall h.1
    rintro ⟨rounds, hread⟩
    rw [hopen, readLines_large hmax ⟨⟨start, start + content.length⟩, content.length, 0, 0⟩ (Nat.zero_le _) hend
      (Nat.le_of_not_lt hsmall)] at hread
    cases hread

/-- A line cut behind its carriage return, and one of two bytes. -/
theorem losesNothing_lines : LosesNothing (ofList 4096 [97, 0x0D, 0x0A, 98, 0x0A]) 3 ⟨4096, 4101⟩
    [97, 0x0D, 0x0A, 98, 0x0A] :=
  (losesNothing_iff (holds_ofList 4096 _) (by decide) (by decide) (by decide)).2
    ⟨by decide, by decide, [[97, 0x0D], [0x0A], [98, 0x0A]], [], rfl, by
      simp only [List.forall_mem_cons, List.not_mem_nil, false_implies, implies_true, and_true]
      exact ⟨⟨by decide, by decide, by decide, by decide⟩, ⟨by decide, by decide, by decide, by decide⟩,
        ⟨by decide, by decide, by decide, by decide⟩⟩, fun _ h => absurd h List.not_mem_nil⟩

/-- A last line without a newline. -/
theorem fgets_loses_line : ¬ ∀ (mem : Memory) (start : Nat) (content : List UInt8), Holds mem start content →
    start + content.length < 2 ^ 32 → 0 ∉ content → ∀ max : Int, 2 ≤ max →
      LosesNothing mem max ⟨start, start + content.length⟩ content := by
  intro h
  obtain ⟨rounds, hread⟩ := (h (ofList 4096 [97]) 4096 [97] (holds_ofList 4096 [97]) (by decide) (by decide) 80
    (by decide)).delivered
  have hfgets : fgets (ofList 4096 [97]) 80 (openModule ⟨4096, 4097⟩) =
      some (false, [97, 0], ⟨⟨4096, 4097⟩, 1, 1, 1⟩) := by decide +kernel
  cases rounds with
  | zero => cases hread
  | succ rounds =>
    rw [readLines, List.length_singleton, hfgets] at hread
    exact absurd (Option.some.inj hread) (by decide)

end Stdio
