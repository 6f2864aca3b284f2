import Schaufel.Foundation.BigEndian
import Schaufel.Foundation.DecimalPrefix

/-!
# Timestamps

`_json_to_pqtimestamp` turns a text such as `2019-11-05T11:31:34.25Z` into the eight bytes of a
PostgreSQL timestamp, the microseconds since 2000-01-01.  It exists twice, in
`src/hooks/jsonexport.c` and in `src/exports.c`; the two differ in the largest second they take.

The fields of the calendar are of type `uint32_t`, as is the sum of seconds, and they wrap around as
these do; `strtoul` has the 64 bits of an `unsigned long`.  A text is a C string, given by its bytes
without the terminator, and the byte behind the end of it is 0.
-/

namespace Schaufel

/-! ### `strtoul` -/

/-- `strtoul` and `strtoull` in base 10: the value, and whether `errno` is set. -/
def strtoul (s : CString) : UInt64 × Bool :=
  let s := s.dropWhile isSpace
  let negative := s.head? = some 45
  let s := if negative ∨ s.head? = some 43 then s.tail else s
  let n := leadingNumber s
  if 2 ^ 64 ≤ n then (0xFFFFFFFFFFFFFFFF, true)
  else (if negative then -UInt64.ofNat n else UInt64.ofNat n, false)

/-! ### The calendar -/

/-- The leap years of the table and of the month loop; `year` counts from 2000. -/
def isLeapYear (year : UInt32) : Bool :=
  (year % 4 = 0 && year % 100 ≠ 0) || year % 400 = 0

/-- Entry `i` of the table that `_leapyear` builds: the leap days of the years before `i`. -/
def leapyears : Nat → UInt32
  | 0 => 0
  | i + 1 => leapyears i + if isLeapYear (UInt32.ofNat i) then 1 else 0

/-- The days of month `i`, as the month loop has them. -/
def daysOfMonth (year : UInt32) (i : UInt8) : UInt32 :=
  if i = 2 then if isLeapYear year then 29 else 28
  else if i < 8 then 30 + (i % 2).toUInt32
  else 30 + ((i + 1) % 2).toUInt32

/-- The days of the months before `month`. -/
def daysBefore (year month : UInt32) : UInt32 :=
  (List.range' 1 (month.toNat - 1)).foldl (fun yday i => yday + daysOfMonth year (UInt8.ofNat i)) 0

/-- The fields of `tm`. -/
structure Calendar where
  year : UInt32
  month : UInt32
  day : UInt32
  hour : UInt32
  minute : UInt32
  second : UInt32
  micro : UInt64
  deriving DecidableEq, Repr

/-- The seconds since 2000-01-01, in `uint32_t`. -/
def Calendar.seconds (tm : Calendar) : UInt32 :=
  let year := tm.year - 2000
  let yday := daysBefore year tm.month + tm.day
  tm.second + tm.minute * 60 + tm.hour * 3600 + (yday - 1) * 86400 + leapyears year.toNat * 86400 +
    year * 31536000

/-- The microseconds since 2000-01-01. -/
def Calendar.epoch (tm : Calendar) : UInt64 :=
  tm.seconds.toUInt64 * 1000000 + tm.micro

/-! ### `_json_to_pqtimestamp` -/

/-- The byte at a position; behind the end is the terminator. -/
def charAt (ts : CString) (i : Nat) : UInt8 := ts.getD i 0

/-- The text has the length and the separators of a timestamp. -/
def timestampShape (ts : CString) : Bool :=
  20 ≤ ts.length && ts.length ≤ 31 && charAt ts 4 = 45 && charAt ts 7 = 45 && charAt ts 10 = 84 &&
    charAt ts 13 = 58 && charAt ts 16 = 58 && (charAt ts 19 = 46 || charAt ts 19 = 90) &&
    charAt ts (ts.length - 1) = 90

/-- The six characters that the fraction is read from: zeros, overwritten from the left. -/
def fraction (ts : CString) : CString :=
  let bytes := min 6 (ts.length - 1 - 20)
  (ts.drop 20).take bytes ++ List.replicate (6 - bytes) 48

/-- The microseconds of a timestamp, and whether `errno` is set. -/
def micro (ts : CString) : UInt64 × Bool :=
  if charAt ts 20 ≠ 90 ∧ charAt ts 19 ≠ 90 then strtoul (fraction ts) else (0, false)

/-- The fields read from a text, `none` if `errno` is set. -/
def parseCalendar (ts : CString) : Option Calendar :=
  let year := strtoul ts
  let month := strtoul (ts.drop 5)
  let day := strtoul (ts.drop 8)
  let hour := strtoul (ts.drop 11)
  let minute := strtoul (ts.drop 14)
  let second := strtoul (ts.drop 17)
  if year.2 || month.2 || day.2 || hour.2 || minute.2 || second.2 || (micro ts).2 then none
  else some ⟨year.1.toUInt32, month.1.toUInt32, day.1.toUInt32, hour.1.toUInt32, minute.1.toUInt32,
    second.1.toUInt32, (micro ts).1⟩

/-- The checks of the fields; `maxSecond` is the largest second. -/
def Calendar.inRange (maxSecond : UInt32) (tm : Calendar) : Bool :=
  2000 ≤ tm.year && tm.year ≤ 4027 && 1 ≤ tm.month && tm.month ≤ 12 && tm.day ≤ 31 &&
  tm.hour ≤ 23 &&
    tm.minute ≤ 59 && tm.second ≤ maxSecond && !(tm.month = 2 && 29 < tm.day)

/-- The eight bytes of a timestamp, `none` if the text is refused. -/
def pqtimestamp (maxSecond : UInt32) (ts : CString) : Option (List UInt8) :=
  if timestampShape ts then
    match parseCalendar ts with
    | none => none
    | some tm => if tm.inRange maxSecond then some (bigEndian 8 tm.epoch.toNat) else none
  else none

/-- `_json_to_pqtimestamp` of the hook, which takes leap seconds. -/
def Jsonexport.jsonToPqtimestamp : CString → Option (List UInt8) := pqtimestamp 60

/-- `_json_to_pqtimestamp` of the exports producer, which does not. -/
def Exports.jsonToPqtimestamp : CString → Option (List UInt8) := pqtimestamp 59

/-- The text denotes a leap second. -/
def IsLeapSecond (ts : CString) : Prop := (parseCalendar ts).map Calendar.second = some 60

instance (ts : CString) : Decidable (IsLeapSecond ts) :=
  inferInstanceAs (Decidable (_ = _))

theorem length_pqtimestamp {maxSecond : UInt32} {ts : CString} {bytes : List UInt8}
    (h : pqtimestamp maxSecond ts = some bytes) : bytes.length = 8 := by
  unfold pqtimestamp at h
  split at h
  · split at h
    · cases h
    · split at h
      · obtain rfl := Option.some.inj h
        exact length_bigEndian 8 _
      · cases h
  · cases h

theorem Calendar.inRange_59 (tm : Calendar) :
    tm.inRange 59 = (tm.inRange 60 && tm.second ≠ 60) := by
  have hsecond : tm.second ≤ 59 ↔ tm.second ≤ 60 ∧ tm.second ≠ 60 := by
    rw [UInt32.le_iff_toNat_le, UInt32.le_iff_toNat_le, ← UInt32.toNat_inj.ne]
    show tm.second.toNat ≤ 59 ↔ tm.second.toNat ≤ 60 ∧ tm.second.toNat ≠ 60
    omega
  unfold Calendar.inRange
  rw [Bool.eq_iff_iff]
  simp only [Bool.and_eq_true, decide_eq_true_eq, hsecond]
  tauto

/-- The exports producer takes the timestamps of the hook without the leap seconds. -/
theorem Exports.jsonToPqtimestamp_eq (ts : CString) :
    Exports.jsonToPqtimestamp ts =
      if IsLeapSecond ts then none else Jsonexport.jsonToPqtimestamp ts := by
  have hsecond : ∀ tm, parseCalendar ts = some tm → (IsLeapSecond ts ↔ tm.second = 60) := by
    intro tm htm
    simp [IsLeapSecond, htm]
  unfold Exports.jsonToPqtimestamp Jsonexport.jsonToPqtimestamp pqtimestamp
  cases timestampShape ts with
  | false => simp
  | true =>
    cases hparse : parseCalendar ts with
    | none => simp
    | some tm =>
      by_cases hleap : tm.second = 60
      · simp [Calendar.inRange_59, hsecond tm hparse, hleap]
      · simp [Calendar.inRange_59, hsecond tm hparse, hleap]

end Schaufel
