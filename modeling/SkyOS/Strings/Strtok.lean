import Mathlib.Data.List.Chain
import Mathlib.Data.List.TakeWhile
import SkyOS.Strings.PatternSearch

/-!
# Tokenising a string (`CommonLib/string.cpp`)

`strtok` skips delimiters when it is given a string, and not when it goes on; `strtok_r` skips them in every call, with
`strspn`, which returns 0 where it comes to the end of the string. Both write a terminator over the delimiter behind a
token.

| here | there |
| --- | --- |
| `Memory.mem` | the string with its terminator; a pointer is an index |
| `Memory.save` | `lastToken`, `*save_ptr`; `none` is the null pointer |
| `none` as a result | a read or a write outside the string |
-/

namespace Strtok

open StrUtil (CString)
open List Option

abbrev Str := List UInt8

/-! ## The code -/

/-- `strpbrk` (`string.cpp:198`), from a place on; the distance of the delimiter. -/
def strpbrk (str : Str) : Str → Option (Option Nat)
  | [] => none
  | c :: strSrc =>
    if c = 0 then some none
    else if c ∈ str then some (some 0)
    else (strpbrk str strSrc).map fun n => n.map (· + 1)

/-- `strspn` (:246); `n` is `t - strSrc`. -/
def strspnFrom (str : Str) : Nat → Str → Option Nat
  | _, [] => none
  | n, c :: t => if c = 0 then some 0 else if c ∈ str then strspnFrom str (n + 1) t else some n

def strspn (str strSrc : Str) : Option Nat := strspnFrom str 0 strSrc

/-- `strcspn` (:671). -/
def strcspn (s2 : Str) : Str → Option Nat
  | [] => none
  | c :: s1 => if c ∈ s2 ∨ c = 0 then some 0 else (strcspn s2 s1).map (· + 1)

structure Memory where
  mem : Str
  save : Option Nat

def Tokenizer := Option Nat → Memory → Option (Option Nat × Memory)

/-- `strtok` (:215). -/
def strtok (delimit : Str) : Tokenizer := fun s1 m =>
  (match s1 with
    | none => some m.save
    | some s1 => (strspn delimit (m.mem.drop s1)).map fun n => some (s1 + n)).bind fun
  | none => some (none, m)
  | some s1 =>
    (strpbrk delimit (m.mem.drop s1)).map fun
    | some tmp => (some s1, ⟨m.mem.set (s1 + tmp) 0, some (s1 + tmp + 1)⟩)
    | none => (some s1, { m with save := none })

/-- `strtok_r` (:764). -/
def strtok_r (delim : Str) : Tokenizer := fun s m =>
  (s.or m.save).bind fun s =>
    m.mem[s]?.bind fun c =>
      if c = 0 then some (none, { m with save := some s })
      else
        (strspn delim (m.mem.drop s)).bind fun n =>
          let s := s + n
          m.mem[s]?.bind fun c =>
            if c = 0 then some (none, { m with save := some s })
            else
              (strcspn delim (m.mem.drop s)).bind fun n =>
                let tail := s + n
                m.mem[tail]?.map fun c =>
                  if c = 0 then (some s, { m with save := some tail })
                  else (some s, ⟨m.mem.set tail 0, some (tail + 1)⟩)

/-- The calls, the first with `s`, until one of them returns null: what they return, and the memory then. -/
def collect (tok : Tokenizer) : Nat → Option Nat → Memory → Option (List Nat × Str)
  | 0, _, _ => none
  | calls + 1, s, m =>
    (tok s m).bind fun
    | (none, m) => some ([], m.mem)
    | (some t, m) => (collect tok calls none m).map fun (ts, mem) => (t :: ts, mem)

/-! ## What it should be -/

/-- The maximal runs of characters that are not in `d`. -/
def runs (d s : Str) : List Str := (s.splitOnP (· ∈ d)).filter (· ≠ [])

def text (mem : Str) (p : Nat) : Str := (mem.drop p).takeWhile (· ≠ 0)

def Yields (tok : Tokenizer) (s : CString) (save : Option Nat) (tokens : List Str) : Prop :=
  ∃ ts mem, collect tok (s.bytes.length + 2) (some 0) ⟨s.bytes ++ [0], save⟩ = some (ts, mem) ∧
    ts.map (text mem) = tokens

def StrspnRight (d s : CString) : Prop :=
  strspn d.bytes (s.bytes ++ [0]) = some (s.bytes.takeWhile (· ∈ d.bytes)).length

/-- The string does not end with a delimiter, and behind the delimiters in front no two are next to each other. -/
def Single (d s : Str) : Prop :=
  (∃ c ∈ s.getLast?, c ∉ d) ∧ (s.dropWhile (· ∈ d)).IsChain fun x y => x ∉ d ∨ y ∉ d

/-! ## The searches -/

section Searches

variable {d a b : Str} {x : UInt8}

theorem exists_first {p : UInt8 → Prop} [DecidablePred p] {s : Str} (h : ∃ c ∈ s, p c) :
    ∃ a c b, s = a ++ c :: b ∧ (∀ x ∈ a, ¬ p x) ∧ p c := by
  induction s with
  | nil => simp at h
  | cons x s ih =>
    by_cases hx : p x
    · exact ⟨[], x, s, rfl, by simp, hx⟩
    · obtain ⟨c, hmem, hc⟩ := h
      rcases mem_cons.1 hmem with rfl | hmem
      · exact absurd hc hx
      · obtain ⟨a, c, b, rfl, ha, hc⟩ := ih ⟨c, hmem, hc⟩
        exact ⟨x :: a, c, b, rfl, forall_mem_cons.2 ⟨hx, ha⟩, hc⟩

theorem exists_first_notMem {s : Str} (h : ∃ c ∈ s, c ∉ d) : ∃ u c b, s = u ++ c :: b ∧ (∀ x ∈ u, x ∈ d) ∧ c ∉ d := by
  obtain ⟨u, c, b, hsplit, hu, hc⟩ := exists_first h
  exact ⟨u, c, b, hsplit, fun x hx => not_not.1 (hu x hx), hc⟩

theorem mem_of_not_exists {s : Str} (h : ¬ ∃ c ∈ s, c ∉ d) : ∀ c ∈ s, c ∈ d :=
  fun c hc => not_not.1 fun hd => h ⟨c, hc, hd⟩

theorem noZero_split (h0 : 0 ∉ a ++ x :: b) : 0 ∉ a ∧ x ≠ 0 ∧ 0 ∉ b := by
  rw [mem_append, mem_cons, not_or, not_or] at h0
  exact ⟨h0.1, Ne.symm h0.2.1, h0.2.2⟩

theorem strpbrk_skip (ha : ∀ c ∈ a, c ∉ d) (h0 : 0 ∉ a) (b : Str) :
    strpbrk d (a ++ b) = (strpbrk d b).map fun n => n.map (a.length + ·) := by
  induction a with
  | nil =>
    cases h : strpbrk d b with
    | none => simp [h]
    | some n => cases n <;> simp [h]
  | cons c a ih =>
    have hc : c ≠ 0 := by
      rintro rfl
      exact h0 (.head _)
    rw [cons_append, strpbrk, if_neg hc, if_neg (ha c mem_cons_self),
      ih (fun c hc => ha c (.tail _ hc)) fun hc => h0 (.tail _ hc), Option.map_map]
    congr 1
    funext n
    cases n with
    | none => rfl
    | some n => simp; omega

theorem strpbrk_found (hx : x ∈ d) (hx0 : x ≠ 0) (b : Str) : strpbrk d (x :: b) = some (some 0) := by
  rw [strpbrk, if_neg hx0, if_pos hx]

theorem strcspn_skip (ha : ∀ c ∈ a, c ∉ d) (h0 : 0 ∉ a) (b : Str) :
    strcspn d (a ++ b) = (strcspn d b).map (a.length + ·) := by
  induction a with
  | nil => simp
  | cons c a ih =>
    have hc : c ≠ 0 := by
      rintro rfl
      exact h0 (.head _)
    rw [cons_append, strcspn, if_neg (not_or.2 ⟨ha c mem_cons_self, hc⟩),
      ih (fun c hc => ha c (.tail _ hc)) fun hc => h0 (.tail _ hc), Option.map_map]
    congr 1
    funext n
    simp; omega

section

variable (ha : ∀ c ∈ a, c ∈ d) (h0 : 0 ∉ a)
include ha h0

theorem strspnFrom_skip (n : Nat) (b : Str) :
    strspnFrom d n (a ++ b) = strspnFrom d (n + a.length) b := by
  induction a generalizing n with
  | nil => rfl
  | cons c a ih =>
    have hc : c ≠ 0 := by
      rintro rfl
      exact h0 (.head _)
    rw [cons_append, strspnFrom, if_neg hc, if_pos (ha c mem_cons_self),
      ih (fun c hc => ha c (.tail _ hc)) fun hc => h0 (.tail _ hc), length_cons,
      Nat.add_assoc, Nat.add_comm 1]

theorem strspn_all : strspn d (a ++ [0]) = some 0 := by
  rw [strspn, strspnFrom_skip ha h0]
  rfl

theorem strspn_found (hx : x ∉ d) (hx0 : x ≠ 0) (b : Str) :
    strspn d (a ++ x :: b) = some a.length := by
  rw [strspn, strspnFrom_skip ha h0, strspnFrom, if_neg hx0, if_neg hx, Nat.zero_add]

end

end Searches

/-! ## Pieces and tokens -/

section Pieces

variable {d : Str}

theorem splitOnP_cons (d : Str) (c : UInt8) (s : Str) :
    (c :: s).splitOnP (· ∈ d) =
      if c ∈ d then [] :: s.splitOnP (· ∈ d) else (s.splitOnP (· ∈ d)).modifyHead (c :: ·) := by
  rw [splitOnP_cons_eq_if_modifyHead, if_congr (decide_eq_true_iff (p := c ∈ d)) rfl rfl]

theorem nil_notMem_iff (s : Str) :
    [] ∉ s.splitOnP (· ∈ d) ↔ (∃ c ∈ s.head?, c ∉ d) ∧ [] ∉ (s.splitOnP (· ∈ d)).tail := by
  cases s with
  | nil => simp
  | cons c s =>
    rw [splitOnP_cons]
    by_cases hc : c ∈ d
    · simp [hc]
    · obtain ⟨p, ps, hps⟩ := exists_cons_of_ne_nil (splitOnP_ne_nil (· ∈ d) s)
      simp [hc, hps]

theorem nil_notMem_tail_iff (s : Str) :
    [] ∉ (s.splitOnP (· ∈ d)).tail ↔ (∀ c ∈ s.getLast?, c ∉ d) ∧ s.IsChain fun x y => x ∉ d ∨ y ∉ d := by
  induction s with
  | nil => simp [splitOnP_nil]
  | cons c s ih =>
    rw [splitOnP_cons, isChain_cons]
    by_cases hc : c ∈ d
    · rw [if_pos hc, tail_cons, nil_notMem_iff, ih]
      cases s with
      | nil => simp [hc]
      | cons x s => simp [hc, and_left_comm]
    · have htail : ((s.splitOnP (· ∈ d)).modifyHead (c :: ·)).tail = (s.splitOnP (· ∈ d)).tail := by
        cases s.splitOnP (· ∈ d) <;> rfl
      rw [if_neg hc, htail, ih]
      cases s with
      | nil => simp [hc]
      | cons x s => simp [hc]

theorem pieces_nonempty_iff (s : Str) :
    [] ∉ s.splitOnP (· ∈ d) ↔
      (∃ c ∈ s.head?, c ∉ d) ∧ (∃ c ∈ s.getLast?, c ∉ d) ∧ s.IsChain fun x y => x ∉ d ∨ y ∉ d := by
  rw [nil_notMem_iff, nil_notMem_tail_iff]
  cases s with
  | nil => simp
  | cons c s =>
    have hlast : (c :: s).getLast? = some ((c :: s).getLast (cons_ne_nil c s)) := List.getLast?_eq_some_getLast _
    rw [hlast]
    simp

theorem runs_append {u : Str} (hu : ∀ c ∈ u, c ∈ d) (s : Str) : runs d (u ++ s) = runs d s := by
  induction u with
  | nil => rfl
  | cons c u ih =>
    rw [cons_append, runs, splitOnP_cons, if_pos (hu c mem_cons_self), filter_cons_of_neg (by simp)]
    exact ih fun x hx => hu x (mem_cons_of_mem c hx)

theorem runs_all {s : Str} (hs : ∀ c ∈ s, c ∈ d) : runs d s = [] := by
  have := runs_append hs []
  rw [append_nil] at this
  rw [this, runs, splitOnP_nil]
  rfl

theorem runs_found {a : Str} {x : UInt8} (ha : ∀ c ∈ a, c ∉ d) (hne : a ≠ []) (hx : x ∈ d) (s : Str) :
    runs d (a ++ x :: s) = a :: runs d s := by
  rw [runs, splitOnP_append_cons_of_forall_mem (by simpa using ha) x (by simpa using hx),
    filter_cons_of_pos (by simpa using hne)]
  rfl

theorem runs_last {a : Str} (ha : ∀ c ∈ a, c ∉ d) (hne : a ≠ []) : runs d a = [a] := by
  rw [runs, splitOnP_eq_singleton (by simpa using ha), filter_cons_of_pos (by simpa using hne)]
  rfl

end Pieces

/-! ## Runs of `strtok` -/

theorem text_append {a : Str} (h0 : 0 ∉ a) (front t : Str) : text (front ++ (a ++ 0 :: t)) front.length = a := by
  rw [text, drop_left, takeWhile_append_of_pos, takeWhile_cons_of_neg (by simp), append_nil]
  intro c hc
  simpa using fun hzero : c = 0 => h0 (hzero ▸ hc)

theorem collect_congr {tok : Tokenizer} {s s' : Option Nat} {m m' : Memory} (h : tok s m = tok s' m') (calls : Nat) :
    collect tok (calls + 1) s m = collect tok (calls + 1) s' m' := by
  rw [collect, collect, h]

theorem collect_some {tok : Tokenizer} {s : Option Nat} {m m' : Memory} {t calls : Nat} {ts : List Nat} {mem : Str}
    (h : tok s m = some (some t, m')) (hrest : collect tok calls none m' = some (ts, mem)) :
    collect tok (calls + 1) s m = some (t :: ts, mem) := by
  rw [collect, h]
  simp only [bind_some, hrest, map_some]

theorem collect_none {tok : Tokenizer} {s : Option Nat} {m m' : Memory} (h : tok s m = some (none, m')) (calls : Nat) :
    collect tok (calls + 1) s m = some ([], m'.mem) := by
  rw [collect, h]
  rfl

section StrtokRuns

variable {d a : Str} {x : UInt8}

theorem strtok_found (ha : ∀ c ∈ a, c ∉ d) (h0 : 0 ∉ a) (hx : x ∈ d) (hx0 : x ≠ 0) (front s : Str) :
    strtok d none ⟨front ++ (a ++ x :: s), some front.length⟩ =
      some (some front.length, ⟨front ++ (a ++ 0 :: s), some (front.length + a.length + 1)⟩) := by
  have hset : (front ++ (a ++ x :: s)).set (front.length + a.length) 0 = front ++ (a ++ 0 :: s) := by
    rw [set_append_right _ _ (by omega), set_append_right _ _ (by omega), Nat.add_sub_cancel_left,
      Nat.sub_self, set_cons_zero]
  simp only [strtok, bind_some, drop_left, strpbrk_skip ha h0, strpbrk_found hx hx0, map_some,
    Nat.add_zero, hset]

theorem strtok_last (ha : ∀ c ∈ a, c ∉ d) (h0 : 0 ∉ a) (front : Str) :
    strtok d none ⟨front ++ (a ++ [0]), some front.length⟩ = some (some front.length, ⟨front ++ (a ++ [0]), none⟩) := by
  have hend : strpbrk d [0] = some none := rfl
  simp only [strtok, bind_some, drop_left, strpbrk_skip ha h0, hend, map_some, map_none]

/-- Going on, `strtok` returns every piece, the empty ones among them. -/
theorem strtok_collect {s : Str} (h0 : 0 ∉ s) (front : Str) {calls : Nat} (hcalls : s.length + 2 ≤ calls) :
    ∃ ts t, collect (strtok d) calls none ⟨front ++ (s ++ [0]), some front.length⟩ = some (ts, front ++ t) ∧
      ts.map (text (front ++ t)) = s.splitOnP (· ∈ d) := by
  induction hn : s.length using Nat.strong_induction_on generalizing s front calls with
  | _ n ih =>
    obtain ⟨calls, rfl⟩ : ∃ k, calls = k + 1 := ⟨calls - 1, by omega⟩
    by_cases hs : ∃ c ∈ s, c ∈ d
    · obtain ⟨a, x, b, rfl, ha, hx⟩ := exists_first hs
      obtain ⟨ha0, hx0, hb0⟩ := noZero_split h0
      rw [length_append, length_cons] at hcalls hn
      obtain ⟨ts, t, hcollect, htexts⟩ := @ih b.length (by omega) b hb0 (front ++ (a ++ [0])) calls (by omega) rfl
      have hfront : (front ++ (a ++ [0])).length = front.length + a.length + 1 := by simp; omega
      have hmem (t : Str) : front ++ (a ++ [0]) ++ t = front ++ (a ++ 0 :: t) := by simp
      rw [hfront, hmem, hmem] at hcollect
      rw [hmem] at htexts
      refine ⟨front.length :: ts, a ++ 0 :: t, ?_, ?_⟩
      · rw [append_assoc, cons_append]
        exact collect_some (strtok_found ha ha0 hx hx0 front (b ++ [0])) hcollect
      · rw [map_cons, text_append ha0, htexts,
          splitOnP_append_cons_of_forall_mem (by simpa using ha) x (by simpa using hx)]
    · have hs : ∀ c ∈ s, c ∉ d := fun c hc hd => hs ⟨c, hc, hd⟩
      obtain ⟨calls, rfl⟩ : ∃ k, calls = k + 1 := ⟨calls - 1, by omega⟩
      have hend : strtok d none ⟨front ++ (s ++ [0]), none⟩ = some (none, ⟨front ++ (s ++ [0]), none⟩) := rfl
      refine ⟨[front.length], s ++ [0], ?_, ?_⟩
      · exact collect_some (strtok_last hs h0 front) (collect_none hend calls)
      · rw [map_singleton, text_append h0, splitOnP_eq_singleton (by simpa using hs)]

theorem strtok_first {mem : Str} {n : Nat} (h : strspn d mem = some n) (save : Option Nat) :
    strtok d (some 0) ⟨mem, save⟩ = strtok d none ⟨mem, some n⟩ := by
  simp only [strtok, drop_zero, h, map_some, bind_some, Nat.zero_add]

/-- What `strtok` takes for the string: all of it, where it has nothing but delimiters. -/
def scanned (d s : Str) : Str := if ∃ c ∈ s, c ∉ d then s.dropWhile (· ∈ d) else s

theorem dropWhile_found {u b : Str} (hu : ∀ c ∈ u, c ∈ d) (hx : x ∉ d) :
    (u ++ x :: b).dropWhile (· ∈ d) = x :: b := by
  rw [dropWhile_append_of_pos (by simpa using hu), dropWhile_cons_of_neg (by simpa using hx)]

theorem strtok_yields (d s : CString) (save : Option Nat) (tokens : List Str) :
    Yields (strtok d.bytes) s save tokens ↔ (scanned d.bytes s.bytes).splitOnP (· ∈ d.bytes) = tokens := by
  have hcollect : ∃ ts mem,
      collect (strtok d.bytes) (s.bytes.length + 2) (some 0) ⟨s.bytes ++ [0], save⟩ = some (ts, mem) ∧
        ts.map (text mem) = (scanned d.bytes s.bytes).splitOnP (· ∈ d.bytes) := by
    by_cases hs : ∃ c ∈ s.bytes, c ∉ d.bytes
    · obtain ⟨u, x, b, hsplit, hu, hx⟩ := exists_first_notMem hs
      have h0 := s.noZero
      rw [scanned, if_pos hs, hsplit, dropWhile_found hu hx]
      rw [hsplit] at h0
      obtain ⟨hu0, hx0, -⟩ := noZero_split h0
      have hb0 : 0 ∉ x :: b := fun h => h0 (mem_append_right _ h)
      have hspan : strspn d.bytes (u ++ x :: b ++ [0]) = some u.length := by
        rw [append_assoc, cons_append]
        exact strspn_found hu hu0 hx hx0 _
      have hlength : (x :: b).length + 2 ≤ (u ++ x :: b).length + 1 + 1 := by
        rw [length_append]
        omega
      obtain ⟨ts, t, hcollect, htexts⟩ := strtok_collect hb0 u hlength
      refine ⟨ts, u ++ t, ?_, htexts⟩
      rw [collect_congr (strtok_first hspan save), append_assoc]
      exact hcollect
    · have hall := mem_of_not_exists hs
      rw [scanned, if_neg hs]
      obtain ⟨ts, t, hcollect, htexts⟩ :=
        strtok_collect (d := d.bytes) s.noZero [] (Nat.le_refl (s.bytes.length + 1 + 1))
      refine ⟨ts, t, ?_, htexts⟩
      rw [collect_congr (strtok_first (strspn_all hall s.noZero) save)]
      exact hcollect
  obtain ⟨ts, mem, hcollect, htexts⟩ := hcollect
  constructor
  · rintro ⟨ts', mem', hcollect', htexts'⟩
    cases hcollect.symm.trans hcollect'
    exact htexts.symm.trans htexts'
  · rintro rfl
    exact ⟨ts, mem, hcollect, htexts⟩

theorem runs_eq_iff (s : Str) : s.splitOnP (· ∈ d) = runs d s ↔ [] ∉ s.splitOnP (· ∈ d) := by
  rw [runs, eq_comm, filter_eq_self]
  constructor
  · exact fun h hnil => absurd rfl (of_decide_eq_true (h [] hnil))
  · exact fun h a ha => decide_eq_true fun hnil => h (hnil ▸ ha)

/-- `strtok` returns the tokens exactly if the string has single delimiters between them. -/
theorem strtok_right_iff (d s : CString) (save : Option Nat) :
    Yields (strtok d.bytes) s save (runs d.bytes s.bytes) ↔ Single d.bytes s.bytes := by
  rw [strtok_yields]
  by_cases hs : ∃ c ∈ s.bytes, c ∉ d.bytes
  · obtain ⟨u, x, b, hsplit, hu, hx⟩ := exists_first_notMem hs
    rw [scanned, if_pos hs, Single, hsplit, dropWhile_found hu hx, runs_append hu, runs_eq_iff, pieces_nonempty_iff]
    have hlast : (u ++ x :: b).getLast? = (x :: b).getLast? := List.getLast?_append_of_ne_nil _ (cons_ne_nil x b)
    rw [hlast, and_iff_right]
    exact ⟨x, rfl, hx⟩
  · have hall := mem_of_not_exists hs
    refine iff_of_false ?_ ?_
    · rw [runs_all hall]
      exact splitOnP_ne_nil _ _
    · rintro ⟨⟨c, hc, hd⟩, -⟩
      exact hd (hall c (List.mem_of_getLast? hc))

end StrtokRuns

/-! ## Runs of `strtok_r` -/

section StrtokRRuns

variable {d u a : Str} {x : UInt8}

theorem strtok_r_null (front : Str) :
    strtok_r d none ⟨front ++ [0], some front.length⟩ = some (none, ⟨front ++ [0], some front.length⟩) := by
  have hget : (front ++ [0])[front.length]? = some 0 := List.getElem?_concat_length
  simp only [strtok_r, none_or, bind_some, hget, if_true]

theorem getElem_append (front : Str) (c : UInt8) (s : Str) : (front ++ c :: s)[front.length]? = some c := by
  rw [List.getElem?_append_right le_rfl, Nat.sub_self, List.getElem?_cons_zero]

theorem strtok_r_scan {b rest : Str} {e f : UInt8} (hspan : strspn d (u ++ (a ++ e :: rest)) = some u.length)
    (hstart : u ++ (a ++ e :: rest) = f :: b) (hf : f ≠ 0) (htoken : ∃ c t, a ++ e :: rest = c :: t ∧ c ≠ 0)
    (ha : ∀ c ∈ a, c ∉ d) (ha0 : 0 ∉ a) (he : e ∈ d ∨ e = 0) (front : Str) :
    strtok_r d none ⟨front ++ (u ++ (a ++ e :: rest)), some front.length⟩ =
      if e = 0 then
        some (some (front.length + u.length),
          ⟨front ++ (u ++ (a ++ e :: rest)), some (front.length + u.length + a.length)⟩)
      else
        some (some (front.length + u.length),
          ⟨front ++ (u ++ (a ++ 0 :: rest)), some (front.length + u.length + a.length + 1)⟩) := by
  have hfirst : (front ++ (u ++ (a ++ e :: rest)))[front.length]? = some f := by
    rw [hstart]
    exact getElem_append front f b
  obtain ⟨c, t, hcut, hc⟩ := htoken
  have hsecond : (front ++ (u ++ (a ++ e :: rest)))[front.length + u.length]? = some c := by
    rw [hcut, ← append_assoc, ← length_append]
    exact getElem_append _ c t
  have hthird : (front ++ (u ++ (a ++ e :: rest)))[front.length + u.length + a.length]? = some e := by
    rw [← append_assoc, ← append_assoc, ← length_append, ← length_append]
    exact getElem_append _ e rest
  have hdrop : (front ++ (u ++ (a ++ e :: rest))).drop (front.length + u.length) = a ++ e :: rest := by
    rw [← append_assoc, ← length_append, drop_left]
  have hcspan : strcspn d (a ++ e :: rest) = some a.length := by
    rw [strcspn_skip ha ha0, strcspn, if_pos he]
    rfl
  have hset : (front ++ (u ++ (a ++ e :: rest))).set (front.length + u.length + a.length) 0 =
      front ++ (u ++ (a ++ 0 :: rest)) := by
    rw [set_append_right _ _ (by omega), set_append_right _ _ (by omega),
      set_append_right _ _ (by omega),
      show front.length + u.length + a.length - front.length - u.length - a.length = 0 by omega, set_cons_zero]
  simp only [strtok_r, none_or, bind_some, hfirst, if_neg hf, drop_left, hspan, hsecond, if_neg hc,
    hdrop, hcspan, hthird, map_some, hset]
  split <;> rfl

/-- The delimiters at the end but one, or all the delimiters where there is nothing else. -/
def extra (d s : Str) : Nat :=
  if ∃ c ∈ s, c ∉ d then (s.reverse.takeWhile (· ∈ d)).length - 1 else s.length

theorem extra_all {s : Str} (h : ∀ c ∈ s, c ∈ d) : extra d s = s.length := by
  refine if_neg ?_
  rintro ⟨c, hc, hd⟩
  exact hd (h c hc)

theorem extra_last {a : Str} (ha : ∀ c ∈ a, c ∉ d) (hne : a ≠ []) (u : Str) : extra d (u ++ a) = 0 := by
  obtain ⟨b, c, rfl⟩ := (eq_nil_or_concat' a).resolve_left hne
  have hc : c ∉ d := ha c (mem_append_right _ (.head _))
  rw [extra, if_pos ⟨c, mem_append_right _ (mem_append_right _ mem_cons_self), hc⟩,
    ← append_assoc, reverse_concat, takeWhile_cons_of_neg (by simpa using hc)]
  rfl

theorem extra_found {a : Str} (ha : ∀ c ∈ a, c ∉ d) (hne : a ≠ []) (hx : x ∈ d) (u s : Str) :
    extra d (u ++ (a ++ x :: s)) = extra d s := by
  obtain ⟨b, c, rfl⟩ := (eq_nil_or_concat' a).resolve_left hne
  have hc : c ∉ d := ha c (mem_append_right _ (.head _))
  have hreverse : (u ++ (b ++ [c] ++ x :: s)).reverse = s.reverse ++ (x :: c :: (b.reverse ++ u.reverse)) := by simp
  rw [extra, if_pos ⟨c, by simp, hc⟩, hreverse]
  by_cases hs : ∃ c ∈ s, c ∉ d
  · obtain ⟨y, hy, hyd⟩ := hs
    obtain ⟨s₁, z, s₂, hsplit, hs₁, hz⟩ := exists_first_notMem (s := s.reverse) ⟨y, mem_reverse.2 hy, hyd⟩
    have hall : ∀ c ∈ s₁, decide (c ∈ d) = true := fun c hc => decide_eq_true (hs₁ c hc)
    rw [extra, if_pos ⟨y, hy, hyd⟩, hsplit, append_assoc, takeWhile_append_of_pos hall,
      takeWhile_append_of_pos hall, cons_append, takeWhile_cons_of_neg (by simpa using hz),
      takeWhile_cons_of_neg (by simpa using hz)]
  · have hall := mem_of_not_exists hs
    rw [extra_all hall, takeWhile_append_of_pos (by simpa using hall),
      takeWhile_cons_of_pos (by simpa using hx), takeWhile_cons_of_neg (by simpa using hc),
      length_append, length_reverse]
    rfl

/-- `strtok_r` returns the tokens, and an empty one for each delimiter at the end but the first. -/
theorem strtok_r_collect {s : Str} (h0 : 0 ∉ s) (front : Str) {calls : Nat} (hcalls : s.length + 2 ≤ calls) :
    ∃ ts t, collect (strtok_r d) calls none ⟨front ++ (s ++ [0]), some front.length⟩ = some (ts, front ++ t) ∧
      ts.map (text (front ++ t)) = runs d s ++ List.replicate (extra d s) [] := by
  induction hn : s.length using Nat.strong_induction_on generalizing s front calls with
  | _ n ih =>
    obtain ⟨calls, rfl⟩ : ∃ k, calls = k + 1 := ⟨calls - 1, by omega⟩
    by_cases hs : ∃ c ∈ s, c ∉ d
    · obtain ⟨u, y, b, rfl, hu, hy⟩ := exists_first_notMem hs
      obtain ⟨hu0, hy0, -⟩ := noZero_split h0
      have hyb0 : 0 ∉ y :: b := fun h => h0 (mem_append_right _ h)
      rw [runs_append hu]
      have hstart : ∃ f t, u ++ (y :: b ++ [0]) = f :: t ∧ f ≠ 0 := by
        cases u with
        | nil => exact ⟨y, b ++ [0], rfl, hy0⟩
        | cons f u => exact ⟨f, _, rfl, fun hf => hu0 (hf ▸ (.head _))⟩
      obtain ⟨f, t₀, hstart, hf⟩ := hstart
      by_cases hb : ∃ c ∈ y :: b, c ∈ d
      · obtain ⟨a, x, s, hsplit, ha, hx⟩ := exists_first hb
        have hne : a ≠ [] := by
          rintro rfl
          exact hy ((List.cons.inj hsplit).1 ▸ hx)
        have hfirst : ∃ c t, a ++ x :: (s ++ [0]) = c :: t ∧ c ≠ 0 :=
          ⟨y, b ++ [0], by rw [← cons_append, ← append_assoc, ← hsplit, cons_append], hy0⟩
        rw [hsplit] at hyb0
        obtain ⟨ha0, hx0, hs0⟩ := noZero_split hyb0
        have hspan := strspn_found hu hu0 hy hy0 (b ++ [0])
        rw [← cons_append, hsplit, append_assoc, cons_append] at hspan
        rw [hsplit, append_assoc, cons_append] at hstart
        rw [hsplit, length_append, length_append, length_cons] at hcalls hn
        have hstep := strtok_r_scan hspan hstart hf hfirst ha ha0 (.inl hx) front
        rw [if_neg hx0] at hstep
        obtain ⟨ts, t, hcollect, htexts⟩ :=
          @ih s.length (by omega) s hs0 (front ++ (u ++ (a ++ [0]))) calls (by omega) rfl
        have hfront : (front ++ (u ++ (a ++ [0]))).length = front.length + u.length + a.length + 1 := by simp; omega
        have hmem (t : Str) : front ++ (u ++ (a ++ [0])) ++ t = front ++ (u ++ (a ++ 0 :: t)) := by simp
        rw [hfront, hmem, hmem] at hcollect
        rw [hmem] at htexts
        rw [hsplit, runs_found ha hne hx, extra_found ha hne hx]
        refine ⟨(front.length + u.length) :: ts, u ++ (a ++ 0 :: t), ?_, ?_⟩
        · rw [append_assoc, append_assoc, cons_append]
          exact collect_some hstep hcollect
        · have htext := text_append ha0 (front ++ u) t
          rw [length_append, append_assoc] at htext
          rw [map_cons, htext, htexts, cons_append]
      · have ha : ∀ c ∈ y :: b, c ∉ d := fun c hc hd => hb ⟨c, hc, hd⟩
        obtain ⟨calls, rfl⟩ : ∃ k, calls = k + 1 := ⟨calls - 1, by omega⟩
        have hspan := strspn_found hu hu0 hy hy0 (b ++ [0])
        have hstep := strtok_r_scan (a := y :: b) hspan hstart hf ⟨y, _, rfl, hy0⟩ ha hyb0 (.inr rfl) front
        rw [if_pos rfl] at hstep
        have hend := strtok_r_null (d := d) (front ++ (u ++ y :: b))
        rw [length_append, length_append, append_assoc, append_assoc, ← Nat.add_assoc] at hend
        rw [runs_last ha (cons_ne_nil y b), extra_last ha (cons_ne_nil y b) u]
        refine ⟨[front.length + u.length], u ++ (y :: b ++ [0]), ?_, ?_⟩
        · rw [append_assoc]
          exact collect_some hstep (collect_none hend calls)
        · have htext := text_append hyb0 (front ++ u) []
          rw [length_append, append_assoc] at htext
          rw [map_singleton, htext]
          rfl
    · have hall := mem_of_not_exists hs
      rw [runs_all hall, extra_all hall, nil_append]
      cases s with
      | nil =>
        exact ⟨[], [0], collect_none (strtok_r_null front) calls, rfl⟩
      | cons c s =>
        obtain ⟨-, hc0, hs0⟩ := noZero_split (a := []) h0
        have htail : ∀ x ∈ s, x ∈ d := fun x hx => hall x (mem_cons_of_mem c hx)
        rw [length_cons] at hcalls hn
        obtain ⟨ts, t, hcollect, htexts⟩ := @ih s.length (by omega) s hs0 (front ++ [0]) calls (by omega) rfl
        have hmem (t : Str) : front ++ [0] ++ t = front ++ ([] ++ 0 :: t) := append_assoc _ _ _
        rw [length_append, length_singleton, hmem, hmem] at hcollect
        rw [hmem, runs_all htail, extra_all htail] at htexts
        have htexts : ts.map (text (front ++ 0 :: t)) = List.replicate s.length [] := htexts
        have hspan : strspn d ([] ++ ([] ++ c :: (s ++ [0]))) = some 0 := strspn_all hall h0
        have hstep := strtok_r_scan hspan rfl hc0 ⟨c, s ++ [0], rfl, hc0⟩ (by simp) (by simp)
          (.inl (hall c (.head _))) front
        rw [if_neg hc0] at hstep
        refine ⟨front.length :: ts, 0 :: t, collect_some hstep hcollect, ?_⟩
        rw [map_cons, length_cons, replicate_succ, ← htexts]
        exact congrArg (· :: _) (text_append (a := []) (by simp) front t)

end StrtokRRuns

/-- `strtok_r` returns the tokens exactly if the string does not end with two delimiters or consist of them. -/
theorem strtok_r_right_iff (d s : CString) (save : Option Nat) :
    Yields (strtok_r d.bytes) s save (runs d.bytes s.bytes) ↔ extra d.bytes s.bytes = 0 := by
  obtain ⟨ts, mem, hcollect, htexts⟩ :=
    strtok_r_collect (d := d.bytes) s.noZero [] (Nat.le_refl (s.bytes.length + 2))
  have hfirst : collect (strtok_r d.bytes) (s.bytes.length + 2) (some 0) ⟨s.bytes ++ [0], save⟩ = some (ts, mem) :=
    hcollect
  have htexts : ts.map (text mem) = runs d.bytes s.bytes ++ List.replicate (extra d.bytes s.bytes) [] := htexts
  constructor
  · rintro ⟨ts', mem', hcollect', htexts'⟩
    cases hfirst.symm.trans hcollect'
    have hlength := congrArg List.length (htexts.symm.trans htexts')
    rw [length_append, length_replicate] at hlength
    omega
  · intro hextra
    refine ⟨ts, mem, hfirst, ?_⟩
    rw [htexts, hextra, replicate_zero, append_nil]

/-- `strspn` counts the delimiters in front exactly if something is behind them, or nothing is there. -/
theorem strspn_right_iff (d s : CString) : StrspnRight d s ↔ s.bytes = [] ∨ ∃ c ∈ s.bytes, c ∉ d.bytes := by
  unfold StrspnRight
  by_cases hs : ∃ c ∈ s.bytes, c ∉ d.bytes
  · obtain ⟨u, x, b, hsplit, hu, hx⟩ := exists_first_notMem hs
    have h0 := s.noZero
    rw [hsplit] at h0
    obtain ⟨hu0, hx0, -⟩ := noZero_split h0
    refine iff_of_true ?_ (.inr hs)
    rw [hsplit, append_assoc, cons_append, strspn_found hu hu0 hx hx0,
      takeWhile_append_of_pos (by simpa using hu), takeWhile_cons_of_neg (by simpa using hx), append_nil]
  · have hall := mem_of_not_exists hs
    have htake : s.bytes.takeWhile (· ∈ d.bytes) = s.bytes := takeWhile_eq_self_iff.2 (by simpa using hall)
    rw [strspn_all hall s.noZero, htake, or_iff_left hs, Option.some.injEq, eq_comm, length_eq_zero_iff]

theorem Single.extra_eq_zero {d s : Str} (h : Single d s) : extra d s = 0 := by
  obtain ⟨⟨c, hc, hd⟩, -⟩ := h
  obtain ⟨a, rfl⟩ := List.getLast?_eq_some_iff.1 hc
  exact extra_last (by simpa using hd) (cons_ne_nil c []) a

/-- Both tokenisers return the tokens, and `strspn` is right, exactly if the string has single delimiters between its
tokens and none behind them. -/
theorem tokenisers_right_iff (d s : CString) (save : Option Nat) :
    (Yields (strtok d.bytes) s save (runs d.bytes s.bytes) ∧
        Yields (strtok_r d.bytes) s save (runs d.bytes s.bytes) ∧ StrspnRight d s) ↔ Single d.bytes s.bytes := by
  rw [strtok_right_iff, strtok_r_right_iff, strspn_right_iff]
  constructor
  · exact fun h => h.1
  · intro h
    refine ⟨h, h.extra_eq_zero, Or.inr ?_⟩
    obtain ⟨⟨c, hc, hd⟩, -⟩ := h
    exact ⟨c, List.mem_of_getLast? hc, hd⟩

/-- `a,,b` has two tokens, `strtok` returns three. -/
theorem strtok_empty_token :
    Yields (strtok [44]) ⟨[97, 44, 44, 98], by decide, by decide⟩ none [[97], [], [98]] ∧
      ¬ Yields (strtok [44]) ⟨[97, 44, 44, 98], by decide, by decide⟩ none (runs [44] [97, 44, 44, 98]) := by
  have hrun : collect (strtok [44]) 6 (some 0) ⟨[97, 44, 44, 98, 0], none⟩ = some ([0, 2, 3], [97, 0, 0, 98, 0]) := by
    decide
  refine ⟨⟨_, _, hrun, by decide⟩, ?_⟩
  rintro ⟨ts, mem, hcollect, htexts⟩
  cases hrun.symm.trans hcollect
  exact absurd htexts (by decide)

end Strtok
