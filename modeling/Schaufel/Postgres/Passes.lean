import Schaufel.Foundation.Overwrite
import Schaufel.Postgres.Model

/-!
# The sanitising passes together

`postgres_producer_produce` runs `repair_null_escape` and then `sanitize_utf8` over a payload.  The
first pass is a search that overwrites every occurrence of `\u0000` before the first null byte; the
second one only writes question marks, none of which is in an occurrence, so it brings none back.
-/

namespace Schaufel

/-! ### `repair_null_escape` -/

/-- What a match starts with. -/
theorem exists_of_nullEscape {c : UInt8} {rest : List UInt8}
    (h : nullEscape.isPrefixOf (c :: rest) = true) :
    c = 92 ∧ ∃ after, rest = [117, 48, 48, 48, 48] ++ after := by
  obtain ⟨after, hafter⟩ := List.isPrefixOf_iff_prefix.mp h
  obtain ⟨rfl, hrest⟩ := List.cons.inj hafter
  exact ⟨rfl, after, hrest.symm⟩

/-- The bytes of a match are overwritten. -/
theorem repairNullEscapeLoop_append (tail after : List UInt8) :
    repairNullEscapeLoop tail.length (tail ++ after) =
      ((repairNullEscapeLoop 0 after).1,
        List.replicate tail.length questionMark ++ (repairNullEscapeLoop 0 after).2) := by
  induction tail with
  | nil => rfl
  | cons c tail ih =>
    rw [List.length_cons, List.cons_append, repairNullEscapeLoop, ih]
    rfl

/-- Without a null byte the whole buffer is searched. -/
theorem repairNullEscape_overwritten {buf : List UInt8} (h : 0 ∉ buf) :
    Overwritten nullEscape questionMark buf (repairNullEscape buf).2 := by
  rw [repairNullEscape]
  induction hlength : buf.length using Nat.strong_induction_on generalizing buf with
  | _ n ih =>
    cases buf with
    | nil => exact .nil
    | cons c rest =>
      rw [List.length_cons] at hlength
      have hzero : c ≠ 0 := fun hc => h (hc ▸ List.mem_cons_self)
      have hrest : 0 ∉ rest := fun hr => h (List.mem_cons_of_mem _ hr)
      rw [repairNullEscapeLoop, if_neg hzero]
      split_ifs with hmatch
      · -- the loop goes on behind the match
        obtain ⟨rfl, after, rfl⟩ := exists_of_nullEscape hmatch
        rw [List.length_append] at hlength
        have hzero' : 0 ∉ after := fun ha => hrest (List.mem_append_right _ ha)
        rw [show (5 : ℕ) = [(117 : UInt8), 48, 48, 48, 48].length from rfl,
          repairNullEscapeLoop_append]
        exact .hit (ih after.length (by omega) hzero' rfl)
      · refine .miss ?_ (ih rest.length (by omega) hrest rfl)
        rwa [← List.isPrefixOf_iff_prefix]

/-- Without a match nothing happens. -/
theorem repairNullEscape_of_not_infix {buf : List UInt8} (h : ¬ nullEscape <:+: buf) :
    repairNullEscape buf = (false, buf) := by
  rw [repairNullEscape]
  induction buf with
  | nil => rfl
  | cons c rest ih =>
    rw [List.infix_cons_iff, not_or, ← List.isPrefixOf_iff_prefix] at h
    rw [repairNullEscapeLoop, if_neg h.1, ih h.2, ite_self]

/-- The search neither writes a null byte nor overwrites one. -/
theorem zero_mem_repairNullEscapeLoop {pending : Nat} {buf : List UInt8}
    (hpending : ∀ c ∈ buf.take pending, c ≠ 0) :
    0 ∈ (repairNullEscapeLoop pending buf).2 ↔ 0 ∈ buf := by
  have hmark : (0 : UInt8) ≠ questionMark := by decide
  induction buf generalizing pending with
  | nil => simp [repairNullEscapeLoop]
  | cons c rest ih =>
    cases pending with
    | succ pending =>
      simp only [List.take_succ_cons, List.forall_mem_cons] at hpending
      have hrest := ih hpending.2
      rw [repairNullEscapeLoop, List.mem_cons, List.mem_cons, or_iff_right hmark,
        or_iff_right (Ne.symm hpending.1)]
      exact hrest
    | zero =>
      rw [repairNullEscapeLoop]
      split_ifs with hzero hmatch
      · rfl
      · obtain ⟨rfl, after, rfl⟩ := exists_of_nullEscape hmatch
        rw [List.mem_cons, List.mem_cons, or_iff_right hmark, or_iff_right (by decide)]
        exact ih (by simp)
      · have hrest : 0 ∈ (repairNullEscapeLoop 0 rest).2 ↔ 0 ∈ rest := ih (by simp)
        exact List.mem_cons.trans ((or_congr_right hrest).trans List.mem_cons.symm)

theorem zero_mem_repairNullEscape (buf : List UInt8) : 0 ∈ (repairNullEscape buf).2 ↔ 0 ∈ buf :=
  zero_mem_repairNullEscapeLoop (by simp)

/-! ### Both passes -/

/-- Repairing a text only writes marks. -/
theorem Utf8.Repair.marked {mark : UInt8} {bytes out : List UInt8}
    (h : Utf8.Repair mark bytes out) : Marked mark bytes out := by
  induction h with
  | nil => exact .nil
  | ascii _ _ ih => exact .cons (.inl rfl) ih
  | sequence _ _ ih => exact (Marked.refl mark _).append ih
  | bad _ _ _ ih => exact .cons (.inr rfl) ih

/-- What the passes leave of a payload. -/
structure BothPassed (bytes text : List UInt8) : Prop where
  /-- The length is kept. -/
  length_eq : text.length = bytes.length
  /-- What is left is well formed. -/
  wellFormed : Utf8.WellFormed text
  /-- The six characters are nowhere in it. -/
  no_escape : ¬ nullEscape <:+: text
  /-- A byte that changes becomes a question mark. -/
  changed : ∀ (i : Nat) (b : UInt8), bytes[i]? = some b → text[i]? ≠ some b →
    text[i]? = some questionMark
  /-- The first pass has nothing left to do. -/
  repaired : repairNullEscape text = (false, text)
  /-- The second pass has nothing left to do. -/
  sanitised : sanitizeUtf8 text = (0, text)

/-- A message is rejected for a null byte. -/
theorem sanitizedText_eq_none_iff (bytes : List UInt8) :
    sanitizedText bytes = none ↔ 0 ∈ bytes := by
  rw [← zero_mem_repairNullEscape, ← sanitizeUtf8_eq_neg_one_iff, sanitizedText]
  show (if _ then _ else _) = none ↔ _
  split_ifs with hcode
  · exact iff_of_true rfl hcode
  · exact iff_of_false (by simp) hcode

/-- A message without a null byte goes through both passes. -/
theorem sanitizedText_of_zero_notMem {bytes : List UInt8} (h : 0 ∉ bytes) :
    sanitizedText bytes = some (sanitizeUtf8 (repairNullEscape bytes).2).2 := by
  have hcode := mt (sanitizedText_eq_none_iff bytes).mp h
  rw [sanitizedText] at hcode ⊢
  split_ifs at hcode ⊢ with hreject
  · exact absurd rfl hcode
  · rfl

/-- A message is rejected exactly for a null byte; of any other one the passes leave a text that
neither of them would change again. -/
theorem passes_compose (bytes : List UInt8) :
    (sanitizedText bytes = none ↔ 0 ∈ bytes) ∧
      ∀ text, sanitizedText bytes = some text → BothPassed bytes text := by
  refine ⟨sanitizedText_eq_none_iff bytes, fun text htext => ?_⟩
  have hbytes : 0 ∉ bytes := by
    rw [← sanitizedText_eq_none_iff, htext]
    simp
  rw [sanitizedText_of_zero_notMem hbytes, Option.some.injEq] at htext
  have hmark : questionMark ∉ nullEscape := by decide
  have hrepaired : 0 ∉ (repairNullEscape bytes).2 := mt (zero_mem_repairNullEscape bytes).mp hbytes
  have hsearch := repairNullEscape_overwritten hbytes
  have hmarked := (sanitizeUtf8Loop_repair hrepaired false).1.marked
  have hsanitised := sanitised_of_zero_notMem hrepaired
  -- the second pass brings no occurrence back
  have hnone : ¬ nullEscape <:+: (sanitizeUtf8 (repairNullEscape bytes).2).2 :=
    fun hinfix => hsearch.not_infix (by decide) hmark (hmarked.isInfix hmark hinfix)
  have hboth := hsearch.marked.trans hmarked
  subst htext
  exact ⟨hboth.length_eq, hsanitised.wellFormed, hnone, fun i b => hboth.getElem?_eq,
    repairNullEscape_of_not_infix hnone, hsanitised.again⟩

/-- An escape behind a byte that is no character. -/
theorem passes_compose_escape :
    sanitizedText [0xFF, 92, 117, 48, 48, 48, 48] = some [63, 63, 63, 63, 63, 63, 63] ∧
      BothPassed [0xFF, 92, 117, 48, 48, 48, 48] [63, 63, 63, 63, 63, 63, 63] :=
  ⟨by decide, (passes_compose _).2 _ (by decide)⟩

end Schaufel
