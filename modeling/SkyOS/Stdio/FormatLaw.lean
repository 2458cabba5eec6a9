import SkyOS.Stdio.Directives

/-!
# Two formats in a row (`kfileio.cpp:566`)

One call of `fscanf` with the formats `A` and `B` behind one another goes on with `B` where `A` has come to
(`scan_append`). A call with `A` and then one with `B` does the same, but that the second one starts a byte later: the
character that the first one had in hand is gone, as the `ungetc` at its end is commented out. Whether this shows
depends on what `B` makes of the bytes with and without that character.

| here | there |
| --- | --- |
| `bytesAhead` | the content of the stream from its cursor on |
| `a`, `b` | the pointers for the fields of `A` and of `B` |
-/

namespace Stdio

open Machine Bytes List

def bytesAhead (mem : Memory) (stream : FILE) : List UInt8 :=
  slice mem (stream.module.ModuleStart + stream._position) (stream._fileLength - stream._position)

/-- If the first call assigns all fields of `A`, the two calls assign what the one call assigns, where it does. -/
def Composes (mem : Memory) (buf : Nat) (stream : FILE) (A B : List Directive) (a b : List Nat) : Prop :=
  ∀ resultA fieldsA streamA, vfscanf mem buf stream (text A) a = some (resultA, fieldsA, streamA) →
    fieldsA.length = fieldCount A →
    ∃ resultB fieldsB streamB, vfscanf mem buf streamA (text B) b = some (resultB, fieldsB, streamB) ∧
      ∃ result streamAB, vfscanf mem buf stream (text A ++ text B) (a ++ b) = some (result, fieldsA ++ fieldsB, streamAB)

/-- What `B` yields from the byte on behind the one that is next is what the whole format yields for it. -/
def LosesNoField (A B : List Directive) (bytes : List UInt8) : Prop :=
  (scan B (scan A bytes).rest.tail).fields =
    if (scan A bytes).complete then (scan B (scan A bytes).rest).fields else []
  deriving Decidable

variable {mem : Memory} {stream : FILE} {A B : List Directive} {bytes : List UInt8} {a b : List Nat}

variable {c : UInt8}

theorem dropSpace_cons (hc : isspace (charOf c) = true) (bytes : List UInt8) :
    dropSpace (c :: bytes) = dropSpace bytes := dropWhile_cons_of_pos hc

theorem dropSpace_ended (h : Ended bytes) : dropSpace bytes = bytes := by
  cases bytes with
  | nil => rfl
  | cons c bytes =>
    have hc : charOf c = EOF := h
    exact dropWhile_cons_of_neg (by rw [hc]; decide)

theorem scan_ended (h : Ended bytes) (format : List Directive) : (scan format bytes).fields = [] := by
  cases format with
  | nil => rfl
  | cons directive format => rw [scan, if_pos h]

/-- A space in front makes no difference to a format that begins with white space or a conversion. -/
theorem fields_behind_space {directive : Directive} (hdirective : ∀ c, directive ≠ .ordinary c)
    (hc : isspace (charOf c) = true) (format : List Directive) (bytes : List UInt8) :
    (scan (directive :: format) (c :: bytes)).fields = (scan (directive :: format) bytes).fields := by
  have hscan : directive.scan (c :: bytes) = directive.scan bytes := by
    cases directive with
    | ordinary c => exact absurd rfl (hdirective c)
    | white | d | x | s => simp only [Directive.scan, dropSpace_cons hc]
  have hspace : ¬ Ended (c :: bytes) := fun he => by
    have hEOF : charOf c = EOF := he
    rw [hEOF] at hc
    exact absurd hc (by decide)
  rw [scan, if_neg hspace, hscan, scan]
  by_cases hended : Ended bytes
  · rw [if_pos hended]
    have hnone : (directive.scan bytes).fields = [] ∧ (scan format (directive.scan bytes).rest).fields = [] := by
      cases directive with
      | ordinary c => exact absurd rfl (hdirective c)
      | white =>
        refine ⟨rfl, scan_ended ?_ format⟩
        rw [Directive.scan, dropSpace_ended hended]
        exact hended
      | d | x | s =>
        simp only [Directive.scan, dropSpace_ended hended, if_pos hended]
        exact ⟨trivial, scan_ended hended format⟩
    dsimp only
    split
    · dsimp only
      rw [hnone.1, hnone.2]
      rfl
    · exact hnone.1
  · rw [if_neg hended]

theorem text_append (A B : List Directive) : text (A ++ B) = text A ++ text B := flatMap_append

theorem fieldCount_append (A B : List Directive) : fieldCount (A ++ B) = fieldCount A + fieldCount B := countP_append

theorem zip_inj {fs gs : List Field} (hf : fs.length ≤ b.length) (hg : gs.length ≤ b.length) :
    b.zip fs = b.zip gs ↔ fs = gs := by
  constructor
  · intro h
    have hmap := congrArg (List.map Prod.snd) h
    rwa [map_snd_zip hf, map_snd_zip hg] at hmap
  · exact fun h => h ▸ rfl

/-- **The law**, on a file of fewer than 2^31 bytes from the cursor on. -/
theorem composes_ahead (buf : Nat) (h : Ahead mem stream bytes) (ha : a.length = fieldCount A)
    (hb : b.length = fieldCount B) :
    Composes mem buf stream A B a b ↔ ((scan A bytes).fields.length = fieldCount A → LosesNoField A B bytes) := by
  obtain ⟨resultA, streamA, hA, haheadA⟩ := vfscanf_spec buf A h ha.ge
  obtain ⟨resultB, streamB, hB, -⟩ := vfscanf_spec buf B haheadA hb.ge
  obtain ⟨result, streamAB, hAB, -⟩ := @vfscanf_spec mem bytes buf (A ++ B) stream (a ++ b) h
    (by rw [length_append, fieldCount_append, ha, hb])
  rw [text_append] at hAB
  have hleA := scan_fields_le A bytes
  have hleB := scan_fields_le B (scan A bytes).rest.tail
  have hleB' := scan_fields_le B (scan A bytes).rest
  have hwhole : (scan (A ++ B) bytes).fields = (scan A bytes).fields ++
      if (scan A bytes).complete then (scan B (scan A bytes).rest).fields else [] := by
    rw [scan_append]
    split
    · rfl
    · exact (append_nil _).symm
  constructor
  · intro hlaw hall
    obtain ⟨resultB', fieldsB, streamB', hB', result', streamAB', hAB'⟩ := hlaw _ _ _ hA (by rw [length_zip]; omega)
    rw [hB] at hB'
    obtain ⟨-, rfl, -⟩ : _ ∧ _ = fieldsB ∧ _ := by simpa only [Option.some.injEq, Prod.mk.injEq] using hB'
    rw [hAB, hwhole] at hAB'
    obtain ⟨-, hfields, -⟩ : _ ∧ _ = _ ∧ _ := by simpa only [Option.some.injEq, Prod.mk.injEq] using hAB'
    rw [zip_append (ha.trans hall.symm)] at hfields
    refine ((zip_inj ?_ ?_).1 (append_cancel_left hfields)).symm
    · split
      · omega
      · exact Nat.zero_le _
    · omega
  · intro hsuits resultA' fieldsA streamA' hA' hall
    rw [hA] at hA'
    obtain ⟨-, rfl, rfl⟩ : _ ∧ _ = fieldsA ∧ streamA = streamA' := by
      simpa only [Option.some.injEq, Prod.mk.injEq] using hA'
    rw [length_zip] at hall
    have hall' : (scan A bytes).fields.length = fieldCount A := by omega
    refine ⟨resultB, _, streamB, hB, result, streamAB, ?_⟩
    rw [hAB, hwhole, zip_append (ha.trans hall'.symm), ← hsuits hall']

/-- **Two formats in a row** do what one does exactly where the file is too large to be read at all, not all fields of
`A` are there, or the byte that is lost makes no difference to `B`. -/
theorem composes_iff (mem : Memory) (buf : Nat) {stream : FILE} (hpos : stream._position ≤ stream._fileLength)
    (hplaced : Placed stream) (A B : List Directive) {a b : List Nat} (ha : a.length = fieldCount A)
    (hb : b.length = fieldCount B) : Composes mem buf stream A B a b ↔
      2 ^ 31 ≤ (bytesAhead mem stream).length ∨ (scan A (bytesAhead mem stream)).fields.length < fieldCount A ∨
        LosesNoField A B (bytesAhead mem stream) := by
  have hlength : (bytesAhead mem stream).length = stream._fileLength - stream._position := length_slice _ _ _
  by_cases hsmall : (bytesAhead mem stream).length < 2 ^ 31
  · have hle := scan_fields_le A (bytesAhead mem stream)
    have hall : (scan A (bytesAhead mem stream)).fields.length < fieldCount A ↔
        ¬ (scan A (bytesAhead mem stream)).fields.length = fieldCount A := by omega
    have hahead : Ahead mem stream (bytesAhead mem stream) := ⟨hpos, hplaced, rfl, hsmall⟩
    rw [composes_ahead buf hahead ha hb, or_iff_right (by omega), hall, imp_iff_not_or]
  · refine iff_of_true (fun resultA fieldsA streamA hA => ?_) (Or.inl (by omega))
    rw [vfscanf, Scan.getc, fgetc_large hpos hplaced (by omega)] at hA
    cases hA

/-- The space behind the first number is lost, and nothing else. -/
theorem composes_iff_twoNumbers :
    Composes (ofList 4096 [49, 50, 32, 51, 52]) 0 (openModule ⟨4096, 4101⟩) [.d] [.d] [8] [16] := by
  have hplaced : Placed (openModule ⟨4096, 4101⟩) := show 4096 + 5 < 2 ^ 32 by decide
  have hscan : scan [.d] (bytesAhead (ofList 4096 [49, 50, 32, 51, 52]) (openModule ⟨4096, 4101⟩)) =
      ⟨[.int 12], true, [32, 51, 52]⟩ := by decide +kernel
  refine (composes_iff _ 0 (by decide) hplaced [.d] [.d] rfl rfl).2 (Or.inr (Or.inr ?_))
  rw [LosesNoField, hscan]
  exact (fields_behind_space (fun _ => Directive.noConfusion) rfl [] [51, 52]).symm

/-- `%d` and `,%d` on `1,2`: the comma is lost. -/
theorem fscanf_loses_comma : ¬ ∀ (mem : Memory) (buf : Nat) (stream : FILE), stream._position ≤ stream._fileLength →
    Placed stream → ∀ (A B : List Directive) (a b : List Nat), a.length = fieldCount A → b.length = fieldCount B →
      Composes mem buf stream A B a b := by
  intro h
  have hplaced : Placed (openModule ⟨4096, 4099⟩) := show 4096 + 3 < 2 ^ 32 by decide
  have hA : vfscanf (ofList 4096 [49, 44, 50]) 0 (openModule ⟨4096, 4099⟩) (text [.d]) [8] =
      some (1, [(8, .int 1)], ⟨⟨4096, 4099⟩, 3, 0, 2⟩) := by decide +kernel
  have hB : vfscanf (ofList 4096 [49, 44, 50]) 0 ⟨⟨4096, 4099⟩, 3, 0, 2⟩ (text [.ordinary ⟨44, by decide⟩, .d]) [16] =
      some (0, [], ⟨⟨4096, 4099⟩, 3, 0, 3⟩) := by decide +kernel
  have hAB : vfscanf (ofList 4096 [49, 44, 50]) 0 (openModule ⟨4096, 4099⟩)
      (text [.d] ++ text [.ordinary ⟨44, by decide⟩, .d]) [8, 16] =
        some (2, [(8, .int 1), (16, .int 2)], ⟨⟨4096, 4099⟩, 3, 1, 3⟩) := by decide +kernel
  obtain ⟨resultB, fieldsB, streamB, hB', result, streamAB, hAB'⟩ :=
    h _ 0 _ (by decide) hplaced [.d] [.ordinary ⟨44, by decide⟩, .d] [8] [16] rfl rfl _ _ _ hA rfl
  rw [hB] at hB'
  cases hB'
  rw [List.singleton_append, hAB] at hAB'
  cases hAB'

end Stdio
