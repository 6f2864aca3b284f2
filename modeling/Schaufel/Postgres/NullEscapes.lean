import Mathlib.Algebra.Group.Nat.Even
import Mathlib.Tactic.IntervalCases
import Schaufel.Foundation.JsonText
import Schaufel.Postgres.Passes

/-!
# `repair_null_escape` and JSON

`repair_null_escape` looks for six characters and knows nothing of JSON.  In a string of a JSON text
these characters are an escape only if the backslash is not escaped itself, which the number of
backslashes right before it decides.  If every occurrence is an escape the text stays well formed;
an occurrence behind an escaped backslash loses its second backslash, and the first one then escapes
a question mark.
-/

namespace Schaufel

open JsonText (Piece unicodeEscape replacePiece)

/-! ### Backslashes before a position -/

/-- The number of backslashes at the end. -/
def backslashRun (before : List UInt8) : Nat :=
  (before.reverse.takeWhile (· = JsonText.backslash)).length

/-- The six characters stand at `i`, and their backslash is not escaped itself. -/
def NullEscapeAt (text : List UInt8) (i : Nat) : Prop :=
  nullEscape <+: text.drop i ∧ Even (backslashRun (text.take i))

theorem backslashRun_backslash (before : List UInt8) :
    backslashRun (before ++ [JsonText.backslash]) = backslashRun before + 1 := by
  simp [backslashRun]

theorem backslashRun_of_ne (before : List UInt8) {b : UInt8} (hb : b ≠ JsonText.backslash) :
    backslashRun (before ++ [b]) = 0 := by
  simp [backslashRun, hb]

theorem ne_backslash_of_isHexDigit {b : UInt8} (hb : JsonText.isHexDigit b = true) :
    b ≠ JsonText.backslash := by
  rintro rfl
  exact absurd hb (by decide)

/-- A piece leaves the number even. -/
theorem even_backslashRun_append {before piece : List UInt8} (hbefore : Even (backslashRun before))
    (hpiece : Piece piece) : Even (backslashRun (before ++ piece)) := by
  cases hpiece with
  | byte hb _ =>
    rw [backslashRun_of_ne before hb]
    exact Even.zero
  | @simple b hb =>
    rw [List.append_cons]
    by_cases hslash : b = JsonText.backslash
    · rw [hslash, backslashRun_backslash, backslashRun_backslash]
      exact hbefore.add even_two
    · rw [backslashRun_of_ne _ hslash]
      exact Even.zero
  | @unicode digits hlength hdigits =>
    obtain ⟨a, b, c, d, rfl⟩ := List.length_eq_four.mp hlength
    have hd := ne_backslash_of_isHexDigit (List.all_eq_true.mp hdigits d (by simp))
    rw [show before ++ unicodeEscape [a, b, c, d] = before ++ unicodeEscape [a, b, c] ++ [d] by
      simp [unicodeEscape], backslashRun_of_ne _ hd]
    exact Even.zero

/-! ### The search over the pieces of a text -/

/-- Question marks for the six characters. -/
def sixMarks : List UInt8 := List.replicate 6 questionMark

/-- At an escape of two characters the search finds nothing, unless the second one is a backslash
that the six characters start with. -/
theorem overwritten_simple {b : UInt8} (hb : b ∈ JsonText.simpleEscapes) {rest out : List UInt8}
    (hsecond : ¬ nullEscape <+: b :: rest) (h : Overwritten nullEscape questionMark rest out) :
    Overwritten nullEscape questionMark ([JsonText.backslash, b] ++ rest)
      ([JsonText.backslash, b] ++ out) := by
  refine .miss ?_ (.miss hsecond h)
  intro hprefix
  have hu : 117 = b := (List.cons_prefix_cons.mp (List.cons_prefix_cons.mp hprefix).2).1
  exact absurd hb (hu ▸ by decide)

/-- At an escape with digits the search finds nothing, unless the digits are zeros. -/
theorem overwritten_unicode {digits : List UInt8} (hlength : digits.length = 4)
    (hdigits : digits.all JsonText.isHexDigit = true) (hne : digits ≠ [48, 48, 48, 48])
    {rest out : List UInt8} (h : Overwritten nullEscape questionMark rest out) :
    Overwritten nullEscape questionMark (unicodeEscape digits ++ rest)
      (unicodeEscape digits ++ out) := by
  have hdigit : ∀ b ∈ digits, b ≠ JsonText.backslash :=
    fun b hb => ne_backslash_of_isHexDigit (List.all_eq_true.mp hdigits b hb)
  refine .miss ?_ (Overwritten.append_left (s := 117 :: digits) ?_ h)
  · intro hprefix
    have hzeros : [48, 48, 48, 48] <+: digits ++ rest :=
      (List.cons_prefix_cons.mp (List.cons_prefix_cons.mp hprefix).2).2
    have hdigits' := List.prefix_of_prefix_length_le hzeros (List.prefix_append digits rest)
      (by simp [hlength])
    exact hne (hdigits'.eq_of_length (by simp [hlength])).symm
  · intro hmem
    rcases List.mem_cons.mp hmem with hu | hmem
    · exact absurd hu (by decide)
    · exact hdigit _ hmem rfl

/-- If no occurrence is behind an odd number of backslashes, the search replaces the pieces that are
the escape. -/
theorem overwritten_pieces {pieces : List (List UInt8)} (hpieces : ∀ p ∈ pieces, Piece p)
    {before : List UInt8} (hbefore : Even (backslashRun before))
    (heven : ∀ i, nullEscape <+: pieces.flatten.drop i →
      Even (backslashRun (before ++ pieces.flatten.take i))) :
    Overwritten nullEscape questionMark pieces.flatten
      (pieces.map (replacePiece [48, 48, 48, 48] sixMarks)).flatten := by
  induction pieces generalizing before with
  | nil => exact .nil
  | cons piece pieces ih =>
    rw [List.forall_mem_cons] at hpieces
    have hrest : Overwritten nullEscape questionMark pieces.flatten
        (pieces.map (replacePiece [48, 48, 48, 48] sixMarks)).flatten := by
      refine ih hpieces.2 (even_backslashRun_append hbefore hpieces.1) fun i hi => ?_
      have hi' := heven (piece.length + i)
      rw [List.flatten_cons, List.drop_length_add_append, List.take_length_add_append] at hi'
      rw [List.append_assoc]
      exact hi' hi
    rw [List.map_cons, List.flatten_cons, List.flatten_cons]
    cases hpieces.1 with
    | @byte b hb _ =>
      rw [replacePiece, if_neg (by simp [unicodeEscape])]
      exact hrest.append_left (List.mem_singleton.not.mpr (Ne.symm hb))
    | @simple b hb =>
      have hu : b ≠ 117 := by
        rintro rfl
        exact absurd hb (by decide)
      rw [replacePiece, if_neg (by simp [unicodeEscape, hu])]
      refine overwritten_simple hb ?_ hrest
      -- here the backslash would be escaped
      intro hprefix
      have hodd : Even (backslashRun (before ++ [JsonText.backslash])) := heven 1 hprefix
      rw [backslashRun_backslash, Nat.even_add_one] at hodd
      exact hodd hbefore
    | @unicode digits hlength hdigits =>
      rw [replacePiece]
      split_ifs with hnull
      · rw [hnull]
        exact .hit hrest
      · exact overwritten_unicode hlength hdigits (fun h => hnull (h ▸ rfl)) hrest

/-! ### Texts -/

/-- What `repair_null_escape` is to leave of a JSON text. -/
structure NullEscapesRepaired (text out : List UInt8) : Prop where
  /-- It is a JSON text again. -/
  wellFormed : JsonText.WellFormed out
  /-- The length is kept. -/
  length_eq : out.length = text.length
  /-- No escape is left. -/
  no_escape : ∀ i, ¬ NullEscapeAt out i
  /-- A byte changes only if it belongs to an escape. -/
  changed : ∀ i, out[i]? ≠ text[i]? → ∃ j, NullEscapeAt text j ∧ j ≤ i ∧ i < j + nullEscape.length

theorem zero_notMem_of_piece {piece : List UInt8} (h : Piece piece) : 0 ∉ piece := by
  cases h with
  | byte _ hb => simpa using Ne.symm hb
  | @simple b hb =>
    have hzero : b ≠ 0 := by
      rintro rfl
      exact absurd hb (by decide)
    simpa [JsonText.backslash] using Ne.symm hzero
  | @unicode digits _ hdigits =>
    intro hmem
    rcases List.mem_cons.mp hmem with hzero | hmem
    · exact absurd hzero (by decide)
    · rcases List.mem_cons.mp hmem with hzero | hmem
      · exact absurd hzero (by decide)
      · exact absurd (List.all_eq_true.mp hdigits 0 hmem) (by decide)

/-- A JSON text has no null byte. -/
theorem zero_notMem_of_wellFormed {text : List UInt8} (h : JsonText.WellFormed text) :
    0 ∉ text := by
  obtain ⟨pieces, hpieces, rfl⟩ := h.exists_pieces
  intro hmem
  obtain ⟨piece, hpiece, hzero⟩ := List.mem_flatten.mp hmem
  exact zero_notMem_of_piece (hpieces piece hpiece) hzero

/-- An element that is a question mark. -/
def questionElement : JsonText.Element := .plain '?' (by decide)

/-- If every occurrence is an escape, the text stays well formed. -/
theorem wellFormed_repairNullEscape {text : List UInt8} (h : JsonText.WellFormed text)
    (hescape : ∀ i, nullEscape <+: text.drop i → NullEscapeAt text i) :
    JsonText.WellFormed (repairNullEscape text).2 := by
  obtain ⟨text', ⟨pieces, hpieces, htext, htext'⟩, hwell⟩ :=
    h.replace [48, 48, 48, 48] (List.replicate 6 questionElement)
  have hsearch := @overwritten_pieces pieces hpieces [] Even.zero fun i hi => by
    rw [← htext] at hi ⊢
    exact (hescape i hi).2
  rw [← htext] at hsearch
  have hout :=
    (repairNullEscape_overwritten (zero_notMem_of_wellFormed h)).unique (by decide) hsearch
  rw [hout]
  rwa [htext'] at hwell

/-- The characters of an occurrence. -/
theorem getElem?_of_nullEscape {text : List UInt8} {i : Nat} (h : nullEscape <+: text.drop i)
    {m : Nat} (hm : m < nullEscape.length) : text[i + m]? = nullEscape[m]? := by
  rw [← List.getElem?_drop, List.prefix_iff_getElem?.mp h m hm, List.getElem?_eq_getElem hm]

/-- No occurrence starts within another one. -/
theorem not_nullEscape_within {text : List UInt8} {i j : Nat} (hi : nullEscape <+: text.drop i)
    (hj : nullEscape <+: text.drop j) (hlt : i < j) : i + nullEscape.length ≤ j := by
  by_contra hwithin
  obtain ⟨m, rfl⟩ := Nat.exists_eq_add_of_lt hlt
  have hm : m + 1 < nullEscape.length := by omega
  have hslash := getElem?_of_nullEscape hj (m := 0) (by decide)
  rw [Nat.add_zero, Nat.add_assoc, getElem?_of_nullEscape hi hm] at hslash
  have hm' : m < 5 := Nat.lt_of_succ_lt_succ hm
  interval_cases m <;> exact absurd hslash (by decide)

/-- The text is repaired as it should be exactly if every occurrence of the six characters is an
escape. -/
theorem repair_null_escape_keeps_json_iff {text : List UInt8} (h : JsonText.WellFormed text) :
    NullEscapesRepaired text (repairNullEscape text).2 ↔
      ∀ i, nullEscape <+: text.drop i → NullEscapeAt text i := by
  have hsearch := repairNullEscape_overwritten (zero_notMem_of_wellFormed h)
  have hnone := hsearch.not_infix (by decide) (by decide)
  constructor
  · intro hrepaired i hi
    have hchanged : ∃ m < nullEscape.length, (repairNullEscape text).2[i + m]? ≠ text[i + m]? := by
      by_contra hsame
      push Not at hsame
      refine hnone (List.IsInfix.trans (List.IsPrefix.isInfix ?_) (List.drop_suffix i _).isInfix)
      rw [List.prefix_iff_getElem?]
      intro m hm
      rw [List.getElem?_drop, hsame m hm, getElem?_of_nullEscape hi hm, List.getElem?_eq_getElem hm]
    -- the byte that has changed belongs to an escape, which can only be this one
    obtain ⟨m, hm, hne⟩ := hchanged
    obtain ⟨j, hj, hle, hlt⟩ := hrepaired.changed (i + m) hne
    rcases Nat.lt_trichotomy i j with hij | rfl | hij
    · have := not_nullEscape_within hi hj.1 hij
      omega
    · exact hj
    · have := not_nullEscape_within hj.1 hi hij
      omega
  · intro hescape
    refine ⟨wellFormed_repairNullEscape h hescape, hsearch.marked.length_eq, ?_, ?_⟩
    · intro i hi
      exact hnone (hi.1.isInfix.trans (List.drop_suffix i _).isInfix)
    · intro i hi
      obtain ⟨j, hle, hlt, hj⟩ := hsearch.exists_of_ne hi
      exact ⟨j, hescape j hj, hle, hlt⟩

instance (text : List UInt8) (i : Nat) : Decidable (NullEscapeAt text i) :=
  inferInstanceAs (Decidable (_ ∧ _))

/-- The positions of a text are enough to find the occurrences. -/
theorem forall_nullEscapeAt {text : List UInt8}
    (h : ∀ i < text.length, nullEscape <+: text.drop i → NullEscapeAt text i) (i : Nat)
    (hi : nullEscape <+: text.drop i) : NullEscapeAt text i := by
  refine h i ?_ hi
  have hlength := hi.length_le
  rw [List.length_drop, show nullEscape.length = 6 from rfl] at hlength
  omega

/-- A string with one escape, `"\u0000"`. -/
theorem repair_null_escape_keeps_escape :
    JsonText.WellFormed [34, 92, 117, 48, 48, 48, 48, 34] ∧
      NullEscapesRepaired [34, 92, 117, 48, 48, 48, 48, 34] [34, 63, 63, 63, 63, 63, 63, 34] := by
  have htext : JsonText.WellFormed [34, 92, 117, 48, 48, 48, 48, 34] :=
    ⟨[⟨[], .string [.unicode [48, 48, 48, 48] rfl rfl], rfl⟩], [], .string, rfl, rfl⟩
  exact ⟨htext, (repair_null_escape_keeps_json_iff htext).mpr (forall_nullEscapeAt (by decide))⟩

/-- An escaped backslash and the letters `u0000`, `"\\u0000"`: what is left is no JSON text. -/
theorem escaped_backslash_breaks_json :
    JsonText.WellFormed [34, 92, 92, 117, 48, 48, 48, 48, 34] ∧
      (repairNullEscape [34, 92, 92, 117, 48, 48, 48, 48, 34]).2 =
        [34, 92, 63, 63, 63, 63, 63, 63, 34] ∧
      ¬ JsonText.WellFormed [34, 92, 63, 63, 63, 63, 63, 63, 34] := by
  refine ⟨?_, by decide, ?_⟩
  · have hzero : 0x20 ≤ '0'.toNat ∧ '0' ≠ '"' ∧ '0' ≠ '\\' := by decide
    exact ⟨[⟨[], .string [.simple 92 (by decide), .plain 'u' (by decide), .plain '0' hzero,
      .plain '0' hzero, .plain '0' hzero, .plain '0' hzero], rfl⟩], [], .string, rfl, rfl⟩
  · intro hwell
    obtain ⟨pieces, hpieces, htext⟩ := hwell.exists_pieces
    obtain ⟨pieces', hpieces', htext'⟩ := JsonText.exists_pieces_of_cons (by decide) hpieces htext
    exact absurd (JsonText.escape_of_cons hpieces' htext') (by decide)

end Schaufel
