import Mathlib.Computability.RegularExpressions

/-!
# The symbols of a regular expression

A word that matches a regular expression has symbols of the expression only.  The two commonest
expressions match what one expects: a product of symbols matches one word, and a sum of symbols,
repeated once or more, matches the words over these symbols.
-/

namespace Schaufel

variable {α : Type}

/-- The symbols of a regular expression. -/
def symbols : RegularExpression α → List α
  | .zero => []
  | .epsilon => []
  | .char a => [a]
  | .plus P Q => symbols P ++ symbols Q
  | .comp P Q => symbols P ++ symbols Q
  | .star P => symbols P

theorem mem_symbols_of_matches {P : RegularExpression α} {word : List α} (h : word ∈ P.matches') :
    ∀ a ∈ word, a ∈ symbols P := by
  induction P generalizing word with
  | zero => cases h
  | epsilon =>
    obtain rfl : word = [] := h
    exact List.forall_mem_nil _
  | char a =>
    obtain rfl : word = [a] := h
    exact List.forall_mem_singleton.mpr (.head _)
  | plus P Q hP hQ =>
    intro a ha
    rcases h with h | h
    · exact List.mem_append_left _ (hP h a ha)
    · exact List.mem_append_right _ (hQ h a ha)
  | comp P Q hP hQ =>
    obtain ⟨u, hu, v, hv, rfl⟩ := Language.mem_mul.mp h
    intro a ha
    rcases List.mem_append.mp ha with ha | ha
    · exact List.mem_append_left _ (hP hu a ha)
    · exact List.mem_append_right _ (hQ hv a ha)
  | star P hP =>
    obtain ⟨words, rfl, hwords⟩ := Language.mem_kstar.mp h
    intro a ha
    obtain ⟨word, hword, ha⟩ := List.mem_flatten.mp ha
    exact hP (hwords word hword) a ha

/-! ### Words and classes -/

/-- A word, symbol after symbol. -/
theorem mem_matches'_word {word w : List α} :
    w ∈ (word.foldr (fun a P => RegularExpression.char a * P) 1).matches' ↔ w = word := by
  induction word generalizing w with
  | nil => rfl
  | cons a word ih =>
    rw [List.foldr_cons, RegularExpression.matches'_mul, Language.mem_mul]
    constructor
    · rintro ⟨u, hu, v, hv, rfl⟩
      obtain rfl : u = [a] := hu
      rw [ih.mp hv]
      rfl
    · rintro rfl
      exact ⟨[a], rfl, word, ih.mpr rfl, rfl⟩

/-- One of some symbols. -/
theorem mem_matches'_class {as : List α} {w : List α} :
    w ∈ (as.foldr (fun a P => RegularExpression.char a + P) 0).matches' ↔ ∃ a ∈ as, w = [a] := by
  induction as with
  | nil =>
    refine ⟨fun h => (by cases h), ?_⟩
    rintro ⟨a, ha, -⟩
    cases ha
  | cons a as ih =>
    rw [List.foldr_cons, RegularExpression.matches'_add, Language.mem_add, ih]
    constructor
    · rintro (h | ⟨b, hb, rfl⟩)
      · exact ⟨a, List.mem_cons_self, h⟩
      · exact ⟨b, List.mem_cons_of_mem a hb, rfl⟩
    · rintro ⟨b, hb, rfl⟩
      rcases List.mem_cons.mp hb with rfl | hb
      · exact Or.inl rfl
      · exact Or.inr ⟨b, hb, rfl⟩

/-- Any number of some symbols. -/
theorem mem_matches'_star_class {as w : List α} :
    w ∈ (as.foldr (fun a P => RegularExpression.char a + P) 0).star.matches' ↔ ∀ a ∈ w, a ∈ as := by
  rw [RegularExpression.matches'_star, Language.mem_kstar]
  constructor
  · rintro ⟨words, rfl, hwords⟩ a ha
    obtain ⟨word, hword, ha⟩ := List.mem_flatten.mp ha
    obtain ⟨b, hb, rfl⟩ := mem_matches'_class.mp (hwords word hword)
    rwa [List.mem_singleton.mp ha]
  · intro h
    refine ⟨w.map fun a => [a], (List.flatMap_singleton' w).symm, fun word hword => ?_⟩
    obtain ⟨a, ha, rfl⟩ := List.mem_map.mp hword
    exact mem_matches'_class.mpr ⟨a, h a ha, rfl⟩

/-- One or more of some symbols. -/
theorem mem_matches'_mul_star_class {as w : List α} :
    w ∈ ((as.foldr (fun a P => RegularExpression.char a + P) 0) *
      (as.foldr (fun a P => RegularExpression.char a + P) 0).star).matches' ↔
      w ≠ [] ∧ ∀ a ∈ w, a ∈ as := by
  rw [RegularExpression.matches'_mul, Language.mem_mul]
  constructor
  · rintro ⟨u, hu, v, hv, rfl⟩
    obtain ⟨a, ha, rfl⟩ := mem_matches'_class.mp hu
    exact ⟨by simp, List.forall_mem_cons.mpr ⟨ha, mem_matches'_star_class.mp hv⟩⟩
  · rintro ⟨hne, h⟩
    cases w with
    | nil => exact absurd rfl hne
    | cons a w =>
      obtain ⟨ha, hw⟩ := List.forall_mem_cons.mp h
      exact ⟨[a], mem_matches'_class.mpr ⟨a, ha, rfl⟩, w, mem_matches'_star_class.mpr hw, rfl⟩

end Schaufel
