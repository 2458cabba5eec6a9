import SkyOS.Strings.PatternSearch

/-!
# The tokens of a string (`CommonLib/str_util.cpp`)

`str_total_tokens` counts the runs of separators, and one more where the string does not end with a separator.
`str_get_token_info` goes from one run of separators to the next, and is content to come to the end of the string, so
that behind a separator at the end there is one more empty token.

| here | there |
| --- | --- |
| `some none` | the null pointer |
| `none` as a result | a read behind the terminator, a write outside the buffer |
-/

namespace StrUtil

open List Option

/-! ## The code -/

def totalFrom (ch : UInt8) : UInt8 → Nat → List UInt8 → Nat
  | prev, result, [] => if prev ≠ ch then result + 1 else result
  | prev, result, c :: src => totalFrom ch c (if c = ch ∧ prev ≠ c then result + 1 else result) src

/-- `str_total_tokens` (`str_util.cpp:309`). -/
def str_total_tokens (src : CString) (ch : UInt8) : Nat := totalFrom ch 0 0 src.bytes

/-- `strchr` (`string.cpp:178`), which finds the terminator too. -/
def strchr (character : UInt8) : List UInt8 → Option (List UInt8)
  | [] => if 0 = character then some [] else none
  | c :: str => if c = character then some (c :: str) else strchr character str

/-- The loop over consecutive separators (`str_util.cpp:339`). -/
def skipSeparators (token_separator : UInt8) : List UInt8 → Option (List UInt8)
  | [] => if 0 = token_separator then none else some []
  | c :: start => if c = token_separator then skipSeparators token_separator start else some (c :: start)

/-- The loop to the start of the token (:334). -/
def tokenStart (token_separator : UInt8) : List UInt8 → Nat → Option (Option (List UInt8))
  | src, 0 => some (some src)
  | src, token_no + 1 =>
    match strchr token_separator src with
    | none => some none
    | some start => (skipSeparators token_separator start).bind fun src => tokenStart token_separator src token_no

/-- The loop for the token's size (:350). -/
def tokenLen (token_separator : UInt8) : List UInt8 → Nat
  | [] => 0
  | c :: src => if c = token_separator then 0 else tokenLen token_separator src + 1

/-- `str_get_token_info` (:329): the token and its size. -/
def str_get_token_info (src : List UInt8) (token_no : Nat) (token_separator : UInt8) :
    Option (Option (List UInt8 × Nat)) :=
  (tokenStart token_separator src token_no).map fun token => token.map fun src => (src, tokenLen token_separator src)

def store (buf : List UInt8) (i : Nat) (b : UInt8) : Option (List UInt8) :=
  if i < buf.length then some (buf.set i b) else none

/-- `strncpy` (`string.cpp:149`), which always writes `count` bytes. -/
def strncpy (buf : List UInt8) (p : Nat) : List UInt8 → Nat → Option (List UInt8)
  | _, 0 => some buf
  | [], count + 1 => (store buf p 0).bind fun buf => strncpy buf (p + 1) [] count
  | c :: string2, count + 1 => (store buf p c).bind fun buf => strncpy buf (p + 1) string2 count

/-- `str_get_token` (`str_util.cpp:357`): whether it returns the buffer, and the buffer. -/
def str_get_token (src : CString) (token_no : Nat) (token_separator : UInt8) (buf : List UInt8) :
    Option (Bool × List UInt8) :=
  (str_get_token_info src.bytes token_no token_separator).bind fun
    | some (token, token_len) =>
      let token_len := if buf.length < token_len then buf.length else token_len
      (strncpy buf 0 token token_len).bind fun buf => (store buf token_len 0).map fun buf => (true, buf)
    | none => (store buf 0 0).map fun buf => (false, buf)

/-! ## What it should be -/

def collapse (sep : UInt8) : List UInt8 → List UInt8
  | [] => []
  | c :: s => if c = sep ∧ s.head? = some sep then collapse sep s else c :: collapse sep s

def pieces (sep : UInt8) (s : List UInt8) : List (List UInt8) := (collapse sep s).splitOn sep

def text (buf : List UInt8) : List UInt8 := buf.takeWhile (· ≠ 0)

/-- `str_total_tokens` counts the pieces, `str_get_token` gives them, and no others, and writes to the buffer only. -/
structure TokensRight (src : CString) (sep : UInt8) (buf : List UInt8) : Prop where
  total : str_total_tokens src sep = (pieces sep src.bytes).length
  get : ∀ n < 2 ^ 32, ∃ found buf', str_get_token src n sep buf = some (found, buf') ∧
    (found = true ↔ n < str_total_tokens src sep) ∧ (found = true → (pieces sep src.bytes)[n]? = some (text buf'))

/-! ## Pieces -/

section Pieces

variable {sep c : UInt8} {s : List UInt8}

theorem pieces_nil (sep : UInt8) : pieces sep [] = [[]] := rfl

theorem pieces_cons_of_ne (h : c ≠ sep) (s : List UInt8) :
    pieces sep (c :: s) = (pieces sep s).modifyHead (c :: ·) := by
  rw [pieces, collapse, if_neg fun hc => h hc.1, splitOn_cons_eq_if_modifyHead, if_neg (by simpa using h)]
  rfl

theorem pieces_sep_sep (sep : UInt8) (s : List UInt8) : pieces sep (sep :: sep :: s) = pieces sep (sep :: s) := by
  rw [pieces, collapse, if_pos ⟨rfl, rfl⟩]
  rfl

theorem pieces_sep (h : s.head? ≠ some sep) : pieces sep (sep :: s) = [] :: pieces sep s := by
  rw [pieces, collapse, if_neg fun hc => h hc.2, splitOn_cons_eq_if_modifyHead, if_pos (beq_self_eq_true sep)]
  rfl

theorem pieces_ne_nil (sep : UInt8) (s : List UInt8) : pieces sep s ≠ [] := splitOn_ne_nil _ _

theorem pieces_run (sep : UInt8) (s : List UInt8) :
    pieces sep (sep :: s) = [] :: pieces sep (s.dropWhile (· = sep)) := by
  induction s with
  | nil => exact pieces_sep (by simp)
  | cons c s ih =>
    by_cases hc : c = sep
    · subst hc
      rw [pieces_sep_sep, ih, dropWhile_cons_of_pos (by simp)]
    · rw [dropWhile_cons_of_neg (by simpa using hc), pieces_sep (by simpa using hc)]

theorem pieces_eq (sep : UInt8) (s : List UInt8) :
    pieces sep s = s.takeWhile (· ≠ sep) ::
      if sep ∈ s then pieces sep ((s.dropWhile (· ≠ sep)).dropWhile (· = sep)) else [] := by
  induction s with
  | nil => rfl
  | cons c s ih =>
    by_cases hc : c = sep
    · subst hc
      rw [pieces_run, takeWhile_cons_of_neg (by simp), dropWhile_cons_of_neg (by simp),
        dropWhile_cons_of_pos (by simp), if_pos mem_cons_self]
    · rw [pieces_cons_of_ne hc, ih, takeWhile_cons_of_pos (by simpa using hc),
        dropWhile_cons_of_pos (by simpa using hc), modifyHead_cons]
      have hmem : sep ∈ c :: s ↔ sep ∈ s := by
        rw [mem_cons, or_iff_right fun h => hc h.symm]
      rw [if_congr hmem rfl rfl]

end Pieces

/-! ## Counting -/

theorem totalFrom_add (ch prev : UInt8) (m n : Nat) (s : List UInt8) :
    totalFrom ch prev (m + n) s = m + totalFrom ch prev n s := by
  induction s generalizing prev n with
  | nil =>
    rw [totalFrom, totalFrom]
    split <;> omega
  | cons c s ih =>
    rw [totalFrom, totalFrom]
    split
    · exact ih c (n + 1)
    · exact ih c n

def endsWith (sep prev : UInt8) (s : List UInt8) : Prop := (prev :: s).getLast? = some sep
  deriving Decidable

theorem endsWith_cons (sep prev c : UInt8) (s : List UInt8) : endsWith sep prev (c :: s) ↔ endsWith sep c s := by
  rw [endsWith, endsWith, List.getLast?_cons_cons]

theorem totalFrom_eq (sep prev : UInt8) (s : List UInt8) :
    totalFrom sep prev 0 s + (if prev = sep then 1 else 0) + (if endsWith sep prev s then 1 else 0) =
      (pieces sep (if prev = sep then prev :: s else s)).length := by
  induction s generalizing prev with
  | nil =>
    have hends : endsWith sep prev [] ↔ prev = sep := by simp [endsWith]
    rw [totalFrom, if_congr hends rfl rfl]
    by_cases h : prev = sep
    · subst h
      simp [pieces_run, pieces_nil]
    · simp [h, pieces_nil]
  | cons c s ih =>
    have ih := ih c
    rw [totalFrom, if_congr (endsWith_cons sep prev c s) rfl rfl]
    by_cases hc : c = sep
    · subst hc
      rw [if_pos rfl, if_pos rfl] at ih
      by_cases h : prev = c
      · subst h
        rw [if_neg (by simp), if_pos rfl, if_pos rfl, pieces_sep_sep]
        exact ih
      · have hrun : totalFrom c c 1 s = 1 + totalFrom c c 0 s := totalFrom_add c c 1 0 s
        rw [if_pos ⟨rfl, h⟩, if_neg h, if_neg h, Nat.zero_add]
        omega
    · rw [if_neg hc, if_neg hc] at ih
      rw [if_neg fun h => hc h.1]
      by_cases h : prev = sep
      · subst h
        rw [if_pos rfl, if_pos rfl, pieces_sep (by simpa using hc), pieces_cons_of_ne hc, length_cons,
          length_modifyHead]
        omega
      · rw [if_neg h, if_neg h, pieces_cons_of_ne hc, length_modifyHead]
        exact ih

variable {sep : UInt8} {buf : List UInt8}

theorem total_eq (src : CString) (hsep : sep ≠ 0) :
    str_total_tokens src sep + (if src.bytes.getLast? = some sep then 1 else 0) = (pieces sep src.bytes).length := by
  have htotal := totalFrom_eq sep 0 src.bytes
  have hends : endsWith sep 0 src.bytes ↔ src.bytes.getLast? = some sep := by
    unfold endsWith
    cases src.bytes with
    | nil => simp [hsep.symm]
    | cons c s => rw [List.getLast?_cons_cons]
  rw [if_congr hends rfl rfl, if_neg hsep.symm, if_neg hsep.symm, Nat.add_zero] at htotal
  exact htotal

theorem length_pieces_le (sep : UInt8) (s : List UInt8) : (pieces sep s).length ≤ s.length + 1 := by
  induction s with
  | nil => exact le_refl _
  | cons c s ih =>
    rw [length_cons]
    by_cases hc : c = sep
    · subst hc
      cases s with
      | nil =>
        rw [pieces_sep (by simp)]
        exact le_rfl
      | cons d s =>
        by_cases hd : d = c
        · subst hd
          rw [pieces_sep_sep]
          exact le_trans ih (Nat.le_succ _)
        · rw [pieces_sep (by simpa using hd), length_cons]
          omega
    · rw [pieces_cons_of_ne hc, length_modifyHead]
      omega

/-! ## Finding a token -/

variable {s piece : List UInt8} {i : Nat} {src : CString}

section Find

variable {sep : UInt8}

theorem strchr_eq (hsep : sep ≠ 0) (s : List UInt8) :
    strchr sep s = if sep ∈ s then some (s.dropWhile (· ≠ sep)) else none := by
  induction s with
  | nil => exact if_neg hsep.symm
  | cons c s ih =>
    by_cases hc : c = sep
    · subst hc
      rw [strchr, if_pos rfl, if_pos mem_cons_self, dropWhile_cons_of_neg (by simp)]
    · have hmem : sep ∈ c :: s ↔ sep ∈ s := by
        rw [mem_cons, or_iff_right fun h => hc h.symm]
      rw [strchr, if_neg hc, ih, dropWhile_cons_of_pos (by simpa using hc), if_congr hmem rfl rfl]

theorem skipSeparators_eq (hsep : sep ≠ 0) (s : List UInt8) :
    skipSeparators sep s = some (s.dropWhile (· = sep)) := by
  induction s with
  | nil => exact if_neg hsep.symm
  | cons c s ih =>
    by_cases hc : c = sep
    · rw [skipSeparators, if_pos hc, ih, dropWhile_cons_of_pos (by simpa using hc)]
    · rw [skipSeparators, if_neg hc, dropWhile_cons_of_neg (by simpa using hc)]

theorem tokenLen_eq (sep : UInt8) (s : List UInt8) : tokenLen sep s = (s.takeWhile (· ≠ sep)).length := by
  induction s with
  | nil => rfl
  | cons c s ih =>
    by_cases hc : c = sep
    · rw [tokenLen, if_pos hc, takeWhile_cons_of_neg (by simpa using hc), length_nil]
    · rw [tokenLen, if_neg hc, ih, takeWhile_cons_of_pos (by simpa using hc), length_cons]

theorem tokenStart_eq (hsep : sep ≠ 0) (s : List UInt8) (n : Nat) :
    ∃ token, tokenStart sep s n = some token ∧ token.map (·.takeWhile (· ≠ sep)) = (pieces sep s)[n]? := by
  induction n generalizing s with
  | zero =>
    refine ⟨some s, rfl, ?_⟩
    rw [pieces_eq, List.getElem?_cons_zero, map_some]
  | succ n ih =>
    rw [tokenStart, strchr_eq hsep, pieces_eq, List.getElem?_cons_succ]
    by_cases hmem : sep ∈ s
    · obtain ⟨token, htoken, hpiece⟩ := ih ((s.dropWhile (· ≠ sep)).dropWhile (· = sep))
      rw [if_pos hmem, if_pos hmem]
      refine ⟨token, ?_, hpiece⟩
      dsimp only
      rw [skipSeparators_eq hsep]
      exact htoken
    · rw [if_neg hmem, if_neg hmem]
      exact ⟨none, rfl, rfl⟩

theorem strchr_zero (h0 : 0 ∉ s) : strchr 0 s = some [] := by
  induction s with
  | nil => rfl
  | cons c s ih =>
    have hc : c ≠ 0 := by
      rintro rfl
      exact h0 (.head _)
    rw [strchr, if_neg hc]
    exact ih fun h => h0 (mem_cons_of_mem c h)

end Find

/-! ## Copying a token -/

theorem store_of_lt (h : i < buf.length) (b : UInt8) :
    store buf i b = some (buf.set i b) := if_pos h

theorem store_of_ge (h : buf.length ≤ i) (b : UInt8) : store buf i b = none :=
  if_neg (Nat.not_lt.2 h)

theorem strncpy_eq (buf : List UInt8) (p : Nat) (s : List UInt8) (count : Nat) (hs : count ≤ s.length)
    (hbuf : p + count ≤ buf.length) :
    strncpy buf p s count = some (buf.take p ++ s.take count ++ buf.drop (p + count)) := by
  induction count generalizing buf p s with
  | zero => simp [strncpy]
  | succ count ih =>
    cases s with
    | nil => simp at hs
    | cons c s =>
      have hp : p < buf.length := by omega
      rw [length_cons] at hs
      rw [strncpy, store_of_lt hp, bind_some,
        ih (buf.set p c) (p + 1) s (by omega) (by rw [length_set]; omega)]
      have htake : (buf.set p c).take (p + 1) = buf.take p ++ [c] := by
        rw [take_set, take_add_one, List.getElem?_eq_getElem hp, toList_some,
          set_append_right _ _ (by rw [length_take]; omega), length_take, min_eq_left (by omega),
          Nat.sub_self]
        rfl
      rw [htake, drop_set_of_lt (by omega), take_succ_cons, append_assoc (buf.take p),
        singleton_append, Nat.add_right_comm p 1 count, Nat.add_assoc p count 1]

/-- A token that leaves room for its end is copied; any other is written behind the end of the buffer. -/
theorem copied_eq (buf s : List UInt8) (len : Nat) (hlen : len ≤ s.length) :
    ((strncpy buf 0 s (if buf.length < len then buf.length else len)).bind fun buf' =>
        store buf' (if buf.length < len then buf.length else len) 0) =
      if len < buf.length then some (s.take len ++ 0 :: buf.drop (len + 1)) else none := by
  have hcount : (if buf.length < len then buf.length else len) = min len buf.length := by
    split <;> omega
  rw [hcount, strncpy_eq buf 0 s _ (by omega) (by omega), bind_some, take_zero, nil_append,
    Nat.zero_add]
  have hlength : (s.take (min len buf.length) ++ buf.drop (min len buf.length)).length = buf.length := by
    rw [length_append, length_take, length_drop]
    omega
  by_cases hlt : len < buf.length
  · rw [if_pos hlt, store_of_lt (by rw [hlength]; omega), min_eq_left (by omega)]
    have htake : (s.take len).length = len := by rw [length_take, min_eq_left hlen]
    rw [set_append_right _ _ (by omega), htake, Nat.sub_self, drop_eq_getElem_cons hlt, set_cons_zero]
  · rw [if_neg hlt, store_of_ge (by rw [hlength]; omega)]

theorem str_get_token_eq (src : CString) (hsep : sep ≠ 0) (n : Nat) (buf : List UInt8) :
    str_get_token src n sep buf =
      match (pieces sep src.bytes)[n]? with
      | some piece => if piece.length < buf.length then some (true, piece ++ 0 :: buf.drop (piece.length + 1)) else none
      | none => (store buf 0 0).map fun buf => (false, buf) := by
  obtain ⟨token, htoken, hpiece⟩ := tokenStart_eq hsep src.bytes n
  unfold str_get_token str_get_token_info
  rw [htoken, ← hpiece]
  cases token with
  | none => rfl
  | some s =>
    have hlen : (s.takeWhile (· ≠ sep)).length ≤ s.length := (takeWhile_sublist _).length_le
    have htake : s.take (s.takeWhile (· ≠ sep)).length = s.takeWhile (· ≠ sep) :=
      (prefix_iff_eq_take.1 ( takeWhile_prefix _)).symm
    have hcopied := copied_eq buf s (s.takeWhile (· ≠ sep)).length hlen
    simp only [map_some, bind_some, tokenLen_eq]
    have hresult := congrArg (Option.map fun buf => (true, buf)) hcopied
    rw [Option.map_bind, htake] at hresult
    refine hresult.trans ?_
    split <;> rfl

/-! ## When the functions agree -/

theorem zero_notMem_pieces (h0 : 0 ∉ s) {n : Nat}
    (h : (pieces sep s)[n]? = some piece) : 0 ∉ piece := by
  induction n generalizing s with
  | zero =>
    rw [pieces_eq, List.getElem?_cons_zero] at h
    cases h
    exact fun hmem => h0 ((takeWhile_sublist _).subset hmem)
  | succ n ih =>
    rw [pieces_eq, List.getElem?_cons_succ] at h
    split at h
    · refine ih (fun hmem => h0 ?_) h
      exact (dropWhile_sublist _).subset ((dropWhile_sublist _).subset hmem)
    · cases h

theorem text_terminated (h0 : 0 ∉ piece) (rest : List UInt8) :
    text (piece ++ 0 :: rest) = piece := by
  unfold text
  rw [takeWhile_append_of_pos, takeWhile_cons_of_neg (by simp), append_nil]
  intro c hc
  simpa using fun hzero : c = 0 => h0 (hzero ▸ hc)

theorem tokensRight_of_fits (src : CString) (hsep : sep ≠ 0)
    (hend : src.bytes.getLast? ≠ some sep) (hfits : ∀ piece ∈ pieces sep src.bytes, piece.length < buf.length) :
    TokensRight src sep buf := by
  have htotal := total_eq src hsep
  rw [if_neg hend, Nat.add_zero] at htotal
  refine ⟨htotal, fun n _ => ?_⟩
  rw [str_get_token_eq src hsep, htotal]
  cases hn : (pieces sep src.bytes)[n]? with
  | none =>
    obtain ⟨piece, hpiece⟩ := exists_mem_of_ne_nil _ (pieces_ne_nil sep src.bytes)
    have hpos := hfits piece hpiece
    refine ⟨false, buf.set 0 0, by rw [store_of_lt (by omega), map_some], ?_, fun h => nomatch h⟩
    exact iff_of_false Bool.false_ne_true (by rw [Nat.not_lt]; exact List.getElem?_eq_none_iff.1 hn)
  | some piece =>
    have hlt := (List.getElem?_eq_some_iff.1 hn).1
    refine ⟨true, piece ++ 0 :: buf.drop (piece.length + 1), if_pos (hfits piece (List.mem_of_getElem? hn)),
      iff_of_true rfl hlt, fun _ => ?_⟩
    rw [text_terminated (zero_notMem_pieces src.noZero hn)]

theorem sep_ne_zero_of_right (h : TokensRight src sep buf) :
    sep ≠ 0 := by
  rintro rfl
  obtain ⟨found, buf', hget, -⟩ := h.get 1 (by decide)
  unfold str_get_token str_get_token_info tokenStart at hget
  rw [strchr_zero src.noZero] at hget
  cases hget

theorem fits_of_right (h : TokensRight src sep buf) :
    ∀ piece ∈ pieces sep src.bytes, piece.length < buf.length := by
  intro piece hpiece
  obtain ⟨n, hn⟩ := List.mem_iff_getElem?.1 hpiece
  have hlt := (List.getElem?_eq_some_iff.1 hn).1
  have hlength := length_pieces_le sep src.bytes
  have hsrc := src.length_lt
  obtain ⟨found, buf', hget, -⟩ := h.get n (by omega)
  rw [str_get_token_eq src (sep_ne_zero_of_right h), hn] at hget
  exact (ite_none_right_eq_some.1 hget).1

/-- The two functions agree, and stay inside the buffer, exactly if the separator is not the terminator, the string does
not end with a separator, and each piece is shorter than the buffer. -/
theorem tokensRight_iff (src : CString) (sep : UInt8) (buf : List UInt8) :
    TokensRight src sep buf ↔
      sep ≠ 0 ∧ src.bytes.getLast? ≠ some sep ∧ ∀ piece ∈ pieces sep src.bytes, piece.length < buf.length := by
  constructor
  · intro h
    have hsep := sep_ne_zero_of_right h
    refine ⟨hsep, fun hend => ?_, fits_of_right h⟩
    have htotal := total_eq src hsep
    rw [if_pos hend, h.total] at htotal
    omega
  · rintro ⟨hsep, hend, hfits⟩
    exact tokensRight_of_fits src hsep hend hfits

/-- `a,` has one token, and yet a token with number 1. -/
theorem token_behind_end :
    str_total_tokens ⟨[97, 44], by decide, by decide⟩ 44 = 1 ∧
      str_get_token ⟨[97, 44], by decide, by decide⟩ 1 44 [1, 2, 3, 4] = some (true, [0, 2, 3, 4]) ∧
      ¬ TokensRight ⟨[97, 44], by decide, by decide⟩ 44 [1, 2, 3, 4] := by
  have htotal : str_total_tokens ⟨[97, 44], by decide, by decide⟩ 44 = 1 := by decide
  have hget : str_get_token ⟨[97, 44], by decide, by decide⟩ 1 44 [1, 2, 3, 4] = some (true, [0, 2, 3, 4]) := by decide
  refine ⟨htotal, hget, fun hright => ?_⟩
  obtain ⟨found, buf', hget', hfound, -⟩ := hright.get 1 (by decide)
  cases hget.symm.trans hget'
  rw [htotal] at hfound
  exact absurd (hfound.1 rfl) (by decide)

end StrUtil
