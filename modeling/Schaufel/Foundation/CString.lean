import Mathlib.Data.List.Basic

/-!
# C strings

A C string is given by its bytes without the terminator; `ascii` writes one down, and the predicates
are those of `ctype.h` in the C locale.
-/

namespace Schaufel

/-- A C string without its terminator. -/
abbrev CString := List UInt8

/-- The bytes of a name. -/
def ascii (name : String) : CString := name.toList.map fun c => UInt8.ofNat c.toNat

/-- `isspace`. -/
def isSpace (c : UInt8) : Bool := c = 32 || (9 ≤ c && c ≤ 13)

/-- `isdigit`. -/
def isDigit (c : UInt8) : Bool := 48 ≤ c && c ≤ 57

theorem isDigit_iff (c : UInt8) : isDigit c = true ↔ 48 ≤ c.toNat ∧ c.toNat < 58 := by
  unfold isDigit
  simp only [Bool.and_eq_true, decide_eq_true_eq, UInt8.le_iff_toNat_le]
  exact and_congr_right fun _ => Nat.lt_succ_iff.symm

theorem isSpace_of_le {c : UInt8} (h : 48 ≤ c.toNat) : isSpace c = false := by
  unfold isSpace
  simp only [Bool.or_eq_false_iff, Bool.and_eq_false_iff, decide_eq_false_iff_not,
    UInt8.le_iff_toNat_le, ← UInt8.toNat_inj]
  refine ⟨?_, .inr ?_⟩
  · show c.toNat ≠ 32
    omega
  · show ¬ c.toNat ≤ 13
    omega

/-- A text of one class up to a character of no such class. -/
theorem takeWhile_of_stop {p : UInt8 → Bool} {ds rest : CString} (hds : ∀ c ∈ ds, p c = true)
    (hrest : ∀ c ∈ rest.head?, p c = false) : (ds ++ rest).takeWhile p = ds := by
  rw [List.takeWhile_append_of_pos hds]
  cases rest with
  | nil => simp
  | cons c rest =>
    have hc : p c = false := hrest c rfl
    simp [hc]

theorem dropWhile_of_stop {p : UInt8 → Bool} {ds rest : CString} (hds : ∀ c ∈ ds, p c = true)
    (hrest : ∀ c ∈ rest.head?, p c = false) : (ds ++ rest).dropWhile p = rest := by
  rw [List.dropWhile_append_of_pos hds]
  cases rest with
  | nil => rfl
  | cons c rest =>
    have hc : p c = false := hrest c rfl
    simp [hc]

end Schaufel
