import Mathlib.Data.List.Basic
import Mathlib.Tactic.TypeStar

/-!
# Separators and escapes

A text in which an escape symbol protects the symbol behind it is cut at the separators that are not
protected (`splitUnescaped`).  An encoder that doubles symbols (`doubled`) keeps the fields apart as
they were, if it doubles the escape symbol and does not touch the separator
(`splitUnescaped_doubled`).
-/

namespace Schaufel

variable {α : Type*} [DecidableEq α]

/-- Cut a text at every separator that no escape symbol protects. -/
def splitUnescaped (esc sep : α) : List α → List (List α)
  | [] => [[]]
  | c :: rest =>
    if c = sep then [] :: splitUnescaped esc sep rest
    else if c = esc then
      match rest with
      | [] => [[c]]
      | c' :: rest' => (splitUnescaped esc sep rest').modifyHead fun l => c :: c' :: l
    else (splitUnescaped esc sep rest).modifyHead (List.cons c)

theorem splitUnescaped_sep (esc sep : α) (rest : List α) :
    splitUnescaped esc sep (sep :: rest) = [] :: splitUnescaped esc sep rest := by
  cases rest <;> simp [splitUnescaped]

theorem splitUnescaped_esc {esc sep : α} (h : esc ≠ sep) (c : α) (rest : List α) :
    splitUnescaped esc sep (esc :: c :: rest) =
      (splitUnescaped esc sep rest).modifyHead fun l => esc :: c :: l := by
  simp [splitUnescaped, h]

theorem splitUnescaped_plain {esc sep c : α} (hsep : c ≠ sep) (hesc : c ≠ esc) (rest : List α) :
    splitUnescaped esc sep (c :: rest) =
      (splitUnescaped esc sep rest).modifyHead (List.cons c) := by
  cases rest <;> simp [splitUnescaped, hsep, hesc]

/-- Write the symbols of a set twice. -/
def doubled (p : α → Bool) (text : List α) : List α :=
  text.flatMap fun c => if p c then [c, c] else [c]

omit [DecidableEq α] in
theorem doubled_cons (p : α → Bool) (c : α) (text : List α) :
    doubled p (c :: text) = (if p c then [c, c] else [c]) ++ doubled p text := rfl

omit [DecidableEq α] in
theorem doubled_append (p : α → Bool) (text text' : List α) :
    doubled p (text ++ text') = doubled p text ++ doubled p text' := by
  simp [doubled]

omit [DecidableEq α] in
/-- A text stays as it is exactly if it has none of the symbols. -/
theorem doubled_eq_self_iff {p : α → Bool} {text : List α} :
    doubled p text = text ↔ ∀ c ∈ text, p c = false := by
  constructor
  · intro h c hc
    have hlen : ∀ l : List α, (doubled p l).length = l.length + l.countP p := by
      intro l
      induction l with
      | nil => rfl
      | cons a l ih =>
        rw [doubled_cons, List.length_append, ih, List.countP_cons, List.length_cons]
        split <;> simp <;> omega
    have hcount : text.countP p = 0 := by
      have := hlen text
      rw [h] at this
      omega
    simpa using List.countP_eq_zero.mp hcount c hc
  · intro h
    induction text with
    | nil => rfl
    | cons a l ih =>
      rw [doubled_cons, h a (by simp), ih fun c hc => h c (List.mem_cons_of_mem a hc)]
      rfl

/-! ### Fields -/

theorem splitOn_cons (sep c : α) (text : List α) :
    (c :: text).splitOn sep =
      if c = sep then [] :: text.splitOn sep else (text.splitOn sep).modifyHead (List.cons c) := by
  simp only [List.splitOn_eq_splitOnP, List.splitOnP_cons_eq_if_modifyHead, beq_iff_eq]

/-- A separator ends a field. -/
theorem splitOn_append_sep (sep : α) (text rest : List α) :
    (text ++ sep :: rest).splitOn sep = text.splitOn sep ++ rest.splitOn sep := by
  induction text with
  | nil => simp [splitOn_cons]
  | cons c text ih =>
    rw [List.cons_append, splitOn_cons, splitOn_cons, ih]
    split
    · rfl
    · cases h : text.splitOn sep with
      | nil => exact absurd h (List.splitOnP_ne_nil _ _)
      | cons field fields => rfl

/-- A separator at the end opens one more field. -/
theorem splitOn_concat (sep : α) (text : List α) :
    (text ++ [sep]).splitOn sep = text.splitOn sep ++ [[]] := by
  rw [splitOn_append_sep]
  simp

/-- A symbol of a field is one of the text. -/
theorem mem_of_mem_splitOn {sep c : α} {text field : List α} (hfield : field ∈ text.splitOn sep)
    (hc : c ∈ field) : c ∈ text := by
  induction text generalizing field with
  | nil =>
    obtain rfl : field = [] := by simpa using hfield
    exact hc
  | cons d text ih =>
    rw [splitOn_cons] at hfield
    split at hfield
    · rcases List.mem_cons.mp hfield with rfl | hfield
      · cases hc
      · exact List.mem_cons_of_mem d (ih hfield hc)
    · cases hsplit : text.splitOn sep with
      | nil => exact absurd hsplit (List.splitOnP_ne_nil _ _)
      | cons first fields =>
        rw [hsplit] at hfield
        rcases List.mem_cons.mp hfield with rfl | hfield
        · rcases List.mem_cons.mp hc with rfl | hc
          · exact List.mem_cons_self
          · exact List.mem_cons_of_mem d (ih (hsplit ▸ List.mem_cons_self) hc)
        · exact List.mem_cons_of_mem d (ih (hsplit ▸ List.mem_cons_of_mem first hfield) hc)

/-- There is one field exactly if there is no separator. -/
theorem splitOn_eq_singleton_iff {sep : α} {text field : List α} :
    text.splitOn sep = [field] ↔ sep ∉ text ∧ field = text := by
  have hsingle : sep ∉ text → text.splitOn sep = [text] := by
    intro h
    rw [List.splitOn_eq_splitOnP]
    refine List.splitOnP_eq_singleton fun c hc => beq_false_of_ne ?_
    rintro rfl
    exact h hc
  constructor
  · intro h
    have hlen : ∀ l : List α, (l.splitOn sep).length = l.count sep + 1 := by
      intro l
      induction l with
      | nil => rfl
      | cons c l ih =>
        rw [splitOn_cons, List.count_cons]
        by_cases hc : c = sep
        · simp [hc, ih]
        · simp [hc, ih]
    have hnot : sep ∉ text := by
      have := hlen text
      rw [h, List.length_singleton] at this
      exact List.count_eq_zero.mp (by omega)
    refine ⟨hnot, ?_⟩
    rw [hsingle hnot] at h
    exact (List.cons.inj h).1.symm
  · rintro ⟨hnot, rfl⟩
    exact hsingle hnot

/-- The fields of an encoded text are the encoded fields of the text. -/
theorem splitUnescaped_doubled {p : α → Bool} {esc sep : α} (hesc : p esc = true)
    (hsep : p sep = false) (text : List α) :
    splitUnescaped esc sep (doubled p text) = (text.splitOn sep).map (doubled p) := by
  have hmap : ∀ (c : α) (l : List (List α)), (l.modifyHead (List.cons c)).map (doubled p) =
      (l.map (doubled p)).modifyHead fun x => (if p c then [c, c] else [c]) ++ x := by
    intro c l
    cases l <;> simp [doubled_cons]
  induction text with
  | nil => rfl
  | cons c text ih =>
    rw [splitOn_cons]
    by_cases hc : c = sep
    · subst hc
      rw [doubled_cons, hsep, if_pos rfl, List.map_cons, ← ih]
      exact splitUnescaped_sep esc c _
    · rw [if_neg hc, hmap, ← ih, doubled_cons]
      by_cases hp : p c = true
      · rw [if_pos hp]
        by_cases he : c = esc
        · subst he
          exact splitUnescaped_esc hc c _
        · rw [List.cons_append, List.cons_append, splitUnescaped_plain hc he,
            splitUnescaped_plain hc he, List.modifyHead_modifyHead]
          rfl
      · have he : c ≠ esc := by
          rintro rfl
          exact hp hesc
        rw [if_neg hp]
        exact splitUnescaped_plain hc he _

end Schaufel
