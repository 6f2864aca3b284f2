import Mathlib.Data.Int.Basic
import Schaufel.Foundation.CString
import Schaufel.Foundation.Digits

/-!
# The number at the beginning of a text

The functions of the C library that read a number in base 10 skip blanks, take a sign and stop at
the first character that is no digit.  `leadingNumber` is what the digits denote and `signedNumber`
what is read.
-/

namespace Schaufel

/-- The number that the digits at the beginning of a text denote. -/
def leadingNumber (s : CString) : Nat :=
  (s.takeWhile isDigit).foldl (fun n c => n * 10 + (c.toNat - 48)) 0

/-- The number at the beginning of a text: blanks, a sign and digits, and 0 if there are no
digits. -/
def signedNumber : CString → ℤ
  | [] => 0
  | c :: s =>
    if isSpace c then signedNumber s
    else if c = 45 then -(leadingNumber s : ℤ)
    else if c = 43 then leadingNumber s
    else leadingNumber (c :: s)

theorem leadingNumber_lt (s : CString) : leadingNumber s < 10 ^ s.length := by
  refine Nat.lt_of_lt_of_le (ofDigits_lt fun c hc => ?_) (Nat.pow_le_pow_right (by decide) ?_)
  · exact ((isDigit_iff c).mp (List.all_eq_true.mp List.all_takeWhile c hc)).2
  · exact (List.takeWhile_sublist _).length_le

theorem natAbs_signedNumber_lt (s : CString) : (signedNumber s).natAbs < 10 ^ s.length := by
  induction s with
  | nil => decide
  | cons c s ih =>
    have hmono : 10 ^ s.length ≤ 10 ^ (c :: s).length := Nat.pow_le_pow_right (by decide) (by simp)
    have hrest := leadingNumber_lt s
    have hall := leadingNumber_lt (c :: s)
    unfold signedNumber
    split_ifs <;> omega

/-- The digits end at a character that is none. -/
theorem leadingNumber_append {sep : UInt8} (hsep : isDigit sep = false) (x rest : CString) :
    leadingNumber (x ++ sep :: rest) = leadingNumber x := by
  have htake : (x ++ sep :: rest).takeWhile isDigit = x.takeWhile isDigit := by
    induction x with
    | nil => simp [hsep]
    | cons c x ih =>
      rw [List.cons_append, List.takeWhile_cons, List.takeWhile_cons, ih]
  rw [leadingNumber, htake, leadingNumber]

/-- The number at the beginning is that of the field, unless the field is blank and a minus behind
it is taken for a sign. -/
theorem signedNumber_append {sep : UInt8} (hdigit : isDigit sep = false)
    (hspace : isSpace sep = false) (hplus : sep ≠ 43) (x rest : CString) :
    signedNumber (x ++ sep :: rest) = signedNumber x ∨
      sep = 45 ∧ signedNumber x = 0 ∧
      signedNumber (x ++ sep :: rest) = -(leadingNumber rest : ℤ) := by
  induction x with
  | nil =>
    by_cases hminus : sep = 45
    · refine .inr ⟨hminus, rfl, ?_⟩
      rw [List.nil_append, signedNumber, hspace, if_neg Bool.false_ne_true, if_pos hminus]
    · refine .inl ?_
      have hnone : leadingNumber (sep :: rest) = 0 := leadingNumber_append hdigit [] rest
      simp [signedNumber, hspace, hminus, hplus, hnone]
  | cons c x ih =>
    rw [List.cons_append]
    unfold signedNumber
    split_ifs
    · exact ih
    · rw [leadingNumber_append hdigit]
      exact .inl rfl
    · rw [leadingNumber_append hdigit]
      exact .inl rfl
    · rw [← List.cons_append, leadingNumber_append hdigit]
      exact .inl rfl

/-- Digits are read as what they denote. -/
theorem signedNumber_digits {x : CString} (h : ∀ c ∈ x, isDigit c = true) :
    signedNumber x = ofDigits 10 x := by
  cases x with
  | nil => rfl
  | cons c x =>
    have hc := (isDigit_iff c).mp (h c List.mem_cons_self)
    have hsign : ∀ b : UInt8, b.toNat < 48 → c ≠ b := by
      rintro b hb rfl
      omega
    have htake : (c :: x).takeWhile isDigit = c :: x := by
      simpa using @takeWhile_of_stop isDigit (c :: x) [] h (by simp)
    rw [signedNumber, isSpace_of_le hc.1, if_neg Bool.false_ne_true, if_neg (hsign 45 (by decide)),
      if_neg (hsign 43 (by decide)), leadingNumber, htake, ofDigits]

end Schaufel
