import Mathlib.Tactic.IntervalCases
import Schaufel.Foundation.Digits
import Schaufel.Foundation.Gregorian
import Schaufel.Json.Timestamp

/-!
# Instants

The texts that `_json_to_pqtimestamp` is meant for are the instants of the Gregorian calendar from
the year 2000 to the year 4027.  It takes each of them, and computes the seconds in 32 bits: the
outcome is the exact number of microseconds as long as there are fewer than `2 ^ 32` seconds, that
is until 2136-02-07T06:28:15Z.
-/

open Finset

namespace Schaufel

/-- An instant in UTC, with up to ten digits of a fraction of a second. -/
structure Instant where
  year : Nat
  month : Nat
  day : Nat
  hour : Nat
  minute : Nat
  second : Nat
  fraction : List (Fin 10)
  /-- The years that `_json_to_pqtimestamp` admits. -/
  year_mem : 2000 ≤ year ∧ year ≤ 4027
  month_mem : 1 ≤ month ∧ month ≤ 12
  day_mem : 1 ≤ day ∧ day ≤ Gregorian.daysInMonth year month
  hour_lt : hour < 24
  minute_lt : minute < 60
  second_lt : second < 60
  length_fraction : fraction.length ≤ 10

namespace Instant

/-- The digits of the fraction. -/
def fractionText (t : Instant) : CString := t.fraction.map fun d => digit d.val

/-- What stands behind the seconds: `Z`, or a point, the fraction and `Z`. -/
def zone (t : Instant) : CString :=
  if t.fraction = [] then [90] else 46 :: (t.fractionText ++ [90])

/-- The instant as a text: `YYYY-MM-DDThh:mm:ssZ`, or with a fraction. -/
def text (t : Instant) : CString :=
  toDigits 4 t.year ++ 45 :: (toDigits 2 t.month ++ 45 :: (toDigits 2 t.day ++ 84 ::
    (toDigits 2 t.hour ++ 58 :: (toDigits 2 t.minute ++ 58 :: (toDigits 2 t.second ++ t.zone)))))

/-- The seconds since 2000-01-01T00:00:00Z. -/
def seconds (t : Instant) : Nat :=
  Gregorian.dayNumber t.year t.month t.day * 86400 + t.hour * 3600 + t.minute * 60 + t.second

/-- The microseconds of the fraction, rounded down. -/
def micro (t : Instant) : Nat := ofDigits 10 t.fractionText * 10 ^ 6 / 10 ^ t.fraction.length

/-- The microseconds since 2000-01-01T00:00:00Z. -/
def microseconds (t : Instant) : Nat := t.seconds * 1000000 + t.micro

end Instant

/-! ### Reading numbers -/

/-- `strtoul` reads digits as what they denote. -/
theorem strtoul_digits {ds rest : CString} (hne : ds ≠ []) (hds : ∀ c ∈ ds, isDigit c = true)
    (hrest : ∀ c ∈ rest.head?, isDigit c = false) (hlt : ofDigits 10 ds < 2 ^ 64) :
    strtoul (ds ++ rest) = (UInt64.ofNat (ofDigits 10 ds), false) := by
  obtain ⟨c, ds, rfl⟩ := List.exists_cons_of_ne_nil hne
  have hc := (isDigit_iff c).mp (hds c List.mem_cons_self)
  have hspace : isSpace c = false := isSpace_of_le hc.1
  have hsign : ∀ b : UInt8, b.toNat < 48 → c ≠ b := by
    rintro b hb rfl
    omega
  have hlead : leadingNumber (c :: ds ++ rest) = ofDigits 10 (c :: ds) := by
    rw [leadingNumber, takeWhile_of_stop hds hrest, ofDigits]
  have hminus := hsign 45 (by decide)
  have hplus := hsign 43 (by decide)
  simp only [strtoul, List.cons_append, List.dropWhile_cons, hspace, Bool.false_eq_true, if_false,
    List.head?_cons, Option.some.injEq, hminus, hplus, or_self]
  rw [List.cons_append] at hlead
  rw [hlead, if_neg (by omega)]

theorem strtoul_toDigits {width n : Nat} {rest : CString} (hwidth : 0 < width) (hn : n < 10 ^ width)
    (hlt : n < 2 ^ 64) (hrest : ∀ c ∈ rest.head?, isDigit c = false) :
    strtoul (toDigits width n ++ rest) = (UInt64.ofNat n, false) := by
  have hvalue : ofDigits 10 (toDigits width n) = n := by
    rw [ofDigits_toDigits, Nat.mod_eq_of_lt hn]
  have hne : toDigits width n ≠ [] := by
    intro hnil
    have := length_toDigits width n
    rw [hnil, List.length_nil] at this
    omega
  have hdigits : ∀ c ∈ toDigits width n, isDigit c = true := fun c hc =>
    (isDigit_iff c).mpr (toNat_of_mem_toDigits hc)
  rw [strtoul_digits hne hdigits hrest (lt_of_eq_of_lt hvalue hlt), hvalue]

/-! ### The calendar in 32 bits -/

theorem isLeapYear_ofNat {n : Nat} (h : n < 2 ^ 32) :
    isLeapYear (UInt32.ofNat n) = decide (Gregorian.IsLeap n) := by
  have hmod : ∀ k : Nat, k < 2 ^ 32 → (UInt32.ofNat n % UInt32.ofNat k = 0 ↔ n % k = 0) := by
    intro k hk
    rw [← UInt32.toNat_inj, UInt32.toNat_mod, UInt32.toNat_ofNat', UInt32.toNat_ofNat',
      Nat.mod_eq_of_lt h, Nat.mod_eq_of_lt hk]
    rfl
  have h₄ := hmod 4 (by decide)
  have h₁₀₀ := hmod 100 (by decide)
  have h₄₀₀ := hmod 400 (by decide)
  rw [Bool.eq_iff_iff, isLeapYear, decide_eq_true_iff, Gregorian.IsLeap]
  simp only [Bool.or_eq_true, Bool.and_eq_true, decide_eq_true_eq, ne_eq]
  change (UInt32.ofNat n % UInt32.ofNat 4 = 0 ∧ ¬ UInt32.ofNat n % UInt32.ofNat 100 = 0) ∨
    UInt32.ofNat n % UInt32.ofNat 400 = 0 ↔ _
  rw [h₄, h₁₀₀, h₄₀₀]
  omega

/-- The table of leap years counts the leap days. -/
theorem leapyears_eq {n : Nat} (h : n < 2 ^ 32) :
    leapyears n = UInt32.ofNat (∑ i ∈ range n, if Gregorian.IsLeap i then 1 else 0) := by
  induction n with
  | zero => rfl
  | succ n ih =>
    rw [leapyears, ih (by omega), sum_range_succ, UInt32.ofNat_add, isLeapYear_ofNat (by omega)]
    by_cases hleap : Gregorian.IsLeap n <;> simp [hleap]

/-- The month loop knows how long the months are. -/
theorem daysOfMonth_eq {n i : Nat} (hn : n < 2 ^ 32) (hi : 1 ≤ i ∧ i ≤ 12) :
    daysOfMonth (UInt32.ofNat n) (UInt8.ofNat i) =
      UInt32.ofNat (Gregorian.daysInMonth (2000 + n) i) := by
  obtain ⟨hi, hi'⟩ := hi
  unfold daysOfMonth Gregorian.daysInMonth
  rw [isLeapYear_ofNat hn]
  simp only [Gregorian.isLeap_add, decide_eq_true_eq]
  by_cases hleap : Gregorian.IsLeap n
  · simp only [hleap, if_true]
    interval_cases i <;> rfl
  · simp only [hleap, if_false]
    interval_cases i <;> rfl

theorem daysBefore_eq {n month : Nat} (hn : n < 2 ^ 32) (hmonth : 1 ≤ month ∧ month ≤ 12) :
    daysBefore (UInt32.ofNat n) (UInt32.ofNat month) =
      UInt32.ofNat (∑ m ∈ Ico 1 month, Gregorian.daysInMonth (2000 + n) m) := by
  have hloop : ∀ k ≤ 11, (List.range' 1 k).foldl
      (fun yday i => yday + daysOfMonth (UInt32.ofNat n) (UInt8.ofNat i)) 0 =
        UInt32.ofNat (∑ m ∈ Ico 1 (k + 1), Gregorian.daysInMonth (2000 + n) m) := by
    intro k hk
    induction k with
    | zero => rfl
    | succ k ih =>
      rw [List.range'_concat, List.foldl_append, ih (by omega),
        sum_Ico_succ_top (show 1 ≤ k + 1 by omega), UInt32.ofNat_add, List.foldl_cons,
        List.foldl_nil, Nat.one_mul, Nat.add_comm 1 k, daysOfMonth_eq hn (by omega)]
  have htoNat : (UInt32.ofNat month).toNat = month := by
    rw [UInt32.toNat_ofNat', Nat.mod_eq_of_lt (by omega)]
  rw [daysBefore, htoNat, hloop (month - 1) (by omega), Nat.sub_add_cancel hmonth.1]

/-! ### What becomes of an instant -/

namespace Instant

variable (t : Instant)

theorem length_fractionText : t.fractionText.length = t.fraction.length := List.length_map _

theorem toNat_of_mem_fractionText {c : UInt8} (h : c ∈ t.fractionText) :
    48 ≤ c.toNat ∧ c.toNat < 58 := by
  obtain ⟨d, -, rfl⟩ := List.mem_map.mp h
  have hd := d.isLt
  rw [toNat_digit hd]
  omega

/-- Only the zone has no fixed length. -/
theorem length_text : t.text.length = 19 + t.zone.length := by
  simp only [text, List.length_append, List.length_cons, length_toDigits]
  omega

theorem day_le : t.day ≤ 31 ∧ (t.month = 2 → t.day ≤ 29) := by
  have hday := t.day_mem.2
  refine ⟨hday.trans (Gregorian.daysInMonth_le _ _), fun hmonth => hday.trans ?_⟩
  rw [Gregorian.daysInMonth, if_pos hmonth]
  split_ifs <;> decide

/-- What stands behind the seconds is no digit. -/
theorem zone_head : ∀ c ∈ t.zone.head?, isDigit c = false := by
  unfold zone
  split_ifs
  · simp only [List.head?_cons, Option.mem_some_iff, forall_eq']
    decide
  · simp only [List.head?_cons, Option.mem_some_iff, forall_eq']
    decide

theorem zone_cases :
    (t.fraction = [] ∧ t.zone = [90]) ∨
      ∃ d ds, t.fraction = d :: ds ∧
        t.zone = 46 :: digit d.val :: (ds.map (fun d => digit d.val) ++ [90]) := by
  unfold zone
  cases h : t.fraction with
  | nil => exact .inl ⟨rfl, rfl⟩
  | cons d ds =>
    refine .inr ⟨d, ds, rfl, ?_⟩
    rw [if_neg (List.cons_ne_nil d ds), fractionText, h]
    rfl

theorem charAt_text_add (k : Nat) : charAt t.text (k + 19) = t.zone.getD k 0 := rfl

theorem charAt_text_zone : charAt t.text 19 = t.zone.getD 0 0 := rfl

/-- The text has the shape of a timestamp. -/
theorem timestampShape_text : timestampShape t.text = true := by
  have hlength := t.length_text
  have hseparators : charAt t.text 4 = 45 ∧ charAt t.text 7 = 45 ∧ charAt t.text 10 = 84 ∧
      charAt t.text 13 = 58 ∧ charAt t.text 16 = 58 := ⟨rfl, rfl, rfl, rfl, rfl⟩
  obtain ⟨h₄, h₇, h₁₀, h₁₃, h₁₆⟩ := hseparators
  have hzone : 1 ≤ t.zone.length ∧ t.zone.length ≤ 12 ∧
      (t.zone.getD 0 0 = 46 ∨ t.zone.getD 0 0 = 90) ∧ t.zone.getD (t.zone.length - 1) 0 = 90 := by
    have hfraction := t.length_fraction
    rcases t.zone_cases with ⟨-, hzone⟩ | ⟨d, ds, hds, hzone⟩
    · rw [hzone]
      decide
    · rw [hds, List.length_cons] at hfraction
      rw [hzone]
      simp only [List.length_cons, List.length_append, List.length_map, List.length_nil]
      refine ⟨by omega, by omega, .inl rfl, ?_⟩
      simp
  have hlast : t.text.length - 1 = (t.zone.length - 1) + 19 := by omega
  unfold timestampShape
  rw [h₄, h₇, h₁₀, h₁₃, h₁₆, charAt_text_zone, hlast, charAt_text_add, hzone.2.2.2]
  simp only [Bool.and_eq_true, Bool.or_eq_true, decide_eq_true_eq, and_true, hzone.2.2.1]
  omega

/-- The fraction, cut or filled up to six digits, in microseconds. -/
theorem micro_eq :
    t.micro = ofDigits 10 (t.fractionText.take 6 ++ List.replicate (6 - t.fraction.length) 48) := by
  have hlength := t.length_fractionText
  rw [ofDigits_append_zeros, ofDigits_take fun c hc => (t.toNat_of_mem_fractionText hc).2, hlength,
    micro]
  by_cases hle : t.fraction.length ≤ 6
  · obtain ⟨k, hk⟩ := Nat.exists_eq_add_of_le hle
    rw [hk, Nat.add_sub_cancel_left, Nat.sub_eq_zero_of_le (Nat.le_add_right _ k), pow_zero,
      Nat.div_one, Nat.pow_add, ← Nat.mul_assoc, Nat.mul_right_comm,
      Nat.mul_div_cancel _ (Nat.pow_pos (by decide))]
  · obtain ⟨k, hk⟩ := Nat.exists_eq_add_of_le (Nat.le_of_not_le hle)
    rw [hk, Nat.add_sub_cancel_left, Nat.sub_eq_zero_of_le (Nat.le_add_right 6 k), pow_zero,
      Nat.mul_one, Nat.pow_add, Nat.mul_comm (10 ^ 6) (10 ^ k),
      Nat.mul_div_mul_right _ _ (by decide)]

/-- The digits that are read are the fraction, cut or filled up. -/
theorem fraction_text (h : t.fraction ≠ []) :
    Schaufel.fraction t.text =
      t.fractionText.take 6 ++ List.replicate (6 - t.fraction.length) 48 := by
  have hzone : t.zone = 46 :: (t.fractionText ++ [90]) := if_neg h
  have hdrop : t.text.drop 20 = t.fractionText ++ [90] := by
    show t.zone.drop 1 = _
    rw [hzone]
    rfl
  have hlength : t.text.length = t.fraction.length + 21 := by
    rw [length_text, hzone, List.length_cons, List.length_append, length_fractionText]
    simp only [List.length_cons, List.length_nil]
    omega
  have hbytes : min 6 (t.text.length - 1 - 20) = min 6 t.fraction.length := by omega
  rw [Schaufel.fraction, hdrop, hbytes,
    List.take_append_of_le_length (by rw [length_fractionText]; exact Nat.min_le_right _ _)]
  congr 1
  · rw [← length_fractionText, List.take_eq_take_iff]
    omega
  · congr 1
    omega

theorem isDigit_of_mem_fraction {c : UInt8}
    (h : c ∈ t.fractionText.take 6 ++ List.replicate (6 - t.fraction.length) 48) :
    isDigit c = true := by
  rcases List.mem_append.mp h with h | h
  · exact (isDigit_iff c).mpr (t.toNat_of_mem_fractionText (List.mem_of_mem_take h))
  · obtain rfl := List.eq_of_mem_replicate h
    rfl

theorem length_fraction_eq :
    (t.fractionText.take 6 ++ List.replicate (6 - t.fraction.length) 48).length = 6 := by
  rw [List.length_append, List.length_take, List.length_replicate, length_fractionText]
  omega

theorem micro_lt : t.micro < 1000000 := by
  rw [micro_eq]
  refine (ofDigits_lt fun c hc => ((isDigit_iff c).mp (t.isDigit_of_mem_fraction hc)).2).trans_eq ?_
  rw [length_fraction_eq]
  rfl

/-- The microseconds are read from six digits. -/
theorem micro_text : Schaufel.micro t.text = (UInt64.ofNat t.micro, false) := by
  rcases t.zone_cases with ⟨hnil, hzone⟩ | ⟨d, ds, hds, hzone⟩
  · have h₁₉ : charAt t.text 19 = 90 := by
      show t.zone.getD 0 0 = 90
      rw [hzone]
      rfl
    have hzero : t.micro = 0 := by
      simp [micro, fractionText, hnil, ofDigits]
    rw [Schaufel.micro, if_neg (by simp [h₁₉]), hzero]
    rfl
  · have hne : t.fraction ≠ [] := hds ▸ List.cons_ne_nil d ds
    have h₁₉ : charAt t.text 19 ≠ 90 := by
      rw [charAt_text_zone, hzone, List.getD_cons_zero]
      decide
    have h₂₀ : charAt t.text 20 ≠ 90 := by
      rw [show charAt t.text 20 = t.zone.getD 1 0 from rfl, hzone]
      intro heq
      have hd := congrArg UInt8.toNat heq
      rw [List.getD_cons_succ, List.getD_cons_zero, toNat_digit d.isLt] at hd
      have : (90 : UInt8).toNat = 90 := rfl
      omega
    have hread := @strtoul_digits _ [] ?_ (fun c => t.isDigit_of_mem_fraction) (by simp) ?_
    · rw [Schaufel.micro, if_pos ⟨h₂₀, h₁₉⟩, t.fraction_text hne, micro_eq]
      simpa using hread
    · exact List.ne_nil_of_length_pos (by rw [length_fraction_eq]; decide)
    · rw [← micro_eq]
      exact t.micro_lt.trans (by decide)

/-- The fields are read as they were written. -/
theorem parseCalendar_text :
    parseCalendar t.text = some ⟨.ofNat t.year, .ofNat t.month, .ofNat t.day, .ofNat t.hour,
      .ofNat t.minute, .ofNat t.second, .ofNat t.micro⟩ := by
  obtain ⟨hyear, hyear'⟩ := t.year_mem
  obtain ⟨hmonth, hmonth'⟩ := t.month_mem
  obtain ⟨hday, -⟩ := t.day_le
  have hhour := t.hour_lt
  have hminute := t.minute_lt
  have hsecond := t.second_lt
  have hsep : ∀ b : UInt8, isDigit b = false →
      ∀ rest : CString, ∀ c ∈ (b :: rest).head?, isDigit c = false := by
    rintro b hb rest _ ⟨⟩
    exact hb
  have h₀ : strtoul t.text = (.ofNat t.year, false) :=
    strtoul_toDigits (by decide) (by omega) (by omega) (hsep _ (by decide) _)
  have h₅ : strtoul (t.text.drop 5) = (.ofNat t.month, false) :=
    strtoul_toDigits (by decide) (by omega) (by omega) (hsep _ (by decide) _)
  have h₈ : strtoul (t.text.drop 8) = (.ofNat t.day, false) :=
    strtoul_toDigits (by decide) (by omega) (by omega) (hsep _ (by decide) _)
  have h₁₁ : strtoul (t.text.drop 11) = (.ofNat t.hour, false) :=
    strtoul_toDigits (by decide) (by omega) (by omega) (hsep _ (by decide) _)
  have h₁₄ : strtoul (t.text.drop 14) = (.ofNat t.minute, false) :=
    strtoul_toDigits (by decide) (by omega) (by omega) (hsep _ (by decide) _)
  have h₁₇ : strtoul (t.text.drop 17) = (.ofNat t.second, false) :=
    strtoul_toDigits (by decide) (by omega) (by omega) t.zone_head
  simp [parseCalendar, h₀, h₅, h₈, h₁₁, h₁₄, h₁₇, micro_text]

/-- The fields of an instant in `tm`. -/
def calendar : Calendar :=
  ⟨.ofNat t.year, .ofNat t.month, .ofNat t.day, .ofNat t.hour, .ofNat t.minute, .ofNat t.second,
    .ofNat t.micro⟩

theorem inRange_calendar {maxSecond : UInt32} (h : 59 ≤ maxSecond) :
    t.calendar.inRange maxSecond = true := by
  obtain ⟨hyear, hyear'⟩ := t.year_mem
  obtain ⟨hmonth, hmonth'⟩ := t.month_mem
  obtain ⟨hday, hfebruary⟩ := t.day_le
  have hhour := t.hour_lt
  have hminute := t.minute_lt
  have hsecond := t.second_lt
  have hmax : 59 ≤ maxSecond.toNat := h
  have hmod : ∀ n, n < 2 ^ 32 → n % 2 ^ 32 = n := fun n => Nat.mod_eq_of_lt
  simp only [Calendar.inRange, calendar, Bool.and_eq_true, Bool.not_eq_true', Bool.and_eq_false_iff,
    decide_eq_true_eq, decide_eq_false_iff_not, UInt32.le_iff_toNat_le, UInt32.lt_iff_toNat_lt,
    ← UInt32.toNat_inj, UInt32.toNat_ofNat', UInt32.reduceToNat]
  rw [hmod t.year (by omega), hmod t.month (by omega), hmod t.day (by omega),
    hmod t.hour (by omega), hmod t.minute (by omega), hmod t.second (by omega)]
  omega

/-- The sum of seconds is the exact one, computed in 32 bits. -/
theorem seconds_calendar : t.calendar.seconds = UInt32.ofNat t.seconds := by
  obtain ⟨n, hn⟩ := Nat.exists_eq_add_of_le t.year_mem.1
  have hlt : n < 2 ^ 32 := by
    have := t.year_mem.2
    omega
  have hyear : t.calendar.year - 2000 = UInt32.ofNat n := by
    rw [show n = t.year - 2000 by omega, UInt32.ofNat_sub t.year_mem.1]
    rfl
  have htoNat : (UInt32.ofNat n).toNat = n := by
    rw [UInt32.toNat_ofNat', Nat.mod_eq_of_lt hlt]
  have hyday : daysBefore (UInt32.ofNat n) t.calendar.month + t.calendar.day - 1 =
      UInt32.ofNat (∑ m ∈ Ico 1 t.month, Gregorian.daysInMonth (2000 + n) m + (t.day - 1)) := by
    rw [← Nat.add_sub_assoc t.day_mem.1, UInt32.ofNat_sub (le_add_left t.day_mem.1),
      UInt32.ofNat_add, ← daysBefore_eq hlt t.month_mem]
    rfl
  unfold Calendar.seconds
  simp only [hyear, hyday, htoNat, leapyears_eq hlt]
  change UInt32.ofNat t.second + UInt32.ofNat t.minute * UInt32.ofNat 60 +
    UInt32.ofNat t.hour * UInt32.ofNat 3600 + _ * UInt32.ofNat 86400 + _ * UInt32.ofNat 86400 +
    _ * UInt32.ofNat 31536000 = _
  simp only [← UInt32.ofNat_mul, ← UInt32.ofNat_add]
  rw [Instant.seconds, Gregorian.dayNumber, hn, Gregorian.sum_daysInYear]
  congr 1
  ring

/-- The bytes of an instant: the seconds are taken modulo `2 ^ 32`. -/
theorem pqtimestamp_text {maxSecond : UInt32} (h : 59 ≤ maxSecond) :
    pqtimestamp maxSecond t.text =
      some (bigEndian 8 (t.seconds % 2 ^ 32 * 1000000 + t.micro)) := by
  have hmicro := t.micro_lt
  have hepoch : t.calendar.epoch.toNat = t.seconds % 2 ^ 32 * 1000000 + t.micro := by
    rw [Calendar.epoch, seconds_calendar, UInt64.toNat_add, UInt64.toNat_mul, UInt32.toNat_toUInt64,
      UInt32.toNat_ofNat', show t.calendar.micro = UInt64.ofNat t.micro from rfl,
      UInt64.toNat_ofNat', show (1000000 : UInt64).toNat = 1000000 from rfl]
    omega
  rw [pqtimestamp, if_pos t.timestampShape_text, parseCalendar_text]
  show (if t.calendar.inRange maxSecond = true then some (bigEndian 8 t.calendar.epoch.toNat)
    else none) = _
  rw [if_pos (t.inRange_calendar h), hepoch]

theorem microseconds_lt : t.microseconds < 2 ^ 64 := by
  have hdays := Gregorian.dayNumber_le t.year t.month t.day
  have hyear := t.year_mem.2
  have hmonth := t.month_mem.2
  have hday := t.day_le.1
  have hhour := t.hour_lt
  have hminute := t.minute_lt
  have hsecond := t.second_lt
  have hmicro := t.micro_lt
  unfold microseconds seconds
  omega

/-- The bytes are those of the exact number of microseconds as long as the seconds fit. -/
theorem pqtimestamp_text_iff {maxSecond : UInt32} (h : 59 ≤ maxSecond) :
    pqtimestamp maxSecond t.text = some (bigEndian 8 t.microseconds) ↔ t.seconds < 2 ^ 32 := by
  have hmicro := t.micro_lt
  have hlt := t.microseconds_lt
  rw [pqtimestamp_text t h, Option.some.injEq]
  constructor
  · intro heq
    have hvalue := congrArg ofBigEndian heq
    rw [ofBigEndian_bigEndian (by omega), ofBigEndian_bigEndian (by omega), microseconds] at hvalue
    omega
  · intro hseconds
    rw [Nat.mod_eq_of_lt hseconds]
    rfl

end Instant

/-! ### The limit of the conversion -/

/-- The first instant that does not fit. -/
def wrappedInstant : Instant where
  year := 2136
  month := 2
  day := 7
  hour := 6
  minute := 28
  second := 16
  fraction := []
  year_mem := by decide
  month_mem := by decide
  day_mem := by decide
  hour_lt := by decide
  minute_lt := by decide
  second_lt := by decide
  length_fraction := by decide

/-- 2136-02-07T06:28:16Z becomes the beginning of the year 2000, in both copies of the function. -/
theorem wrapped_instant_is_epoch :
    wrappedInstant.seconds = 2 ^ 32 ∧
      Jsonexport.jsonToPqtimestamp wrappedInstant.text = some (bigEndian 8 0) ∧
      Exports.jsonToPqtimestamp wrappedInstant.text = some (bigEndian 8 0) ∧
      bigEndian 8 0 ≠ bigEndian 8 wrappedInstant.microseconds := by
  decide +kernel

/-- Both copies of `_json_to_pqtimestamp` take every instant, and their bytes are those of the exact
number of microseconds exactly if its seconds fit into 32 bits. -/
theorem timestamp_exact_iff (t : Instant) :
    (Jsonexport.jsonToPqtimestamp t.text).isSome = true ∧
      (Exports.jsonToPqtimestamp t.text).isSome = true ∧
      (Jsonexport.jsonToPqtimestamp t.text = some (bigEndian 8 t.microseconds) ↔
        t.seconds < 2 ^ 32) ∧
      (Exports.jsonToPqtimestamp t.text = some (bigEndian 8 t.microseconds) ↔
        t.seconds < 2 ^ 32) := by
  refine ⟨?_, ?_, t.pqtimestamp_text_iff (by decide), t.pqtimestamp_text_iff (by decide)⟩
  · rw [Jsonexport.jsonToPqtimestamp, t.pqtimestamp_text (by decide)]
    rfl
  · rw [Exports.jsonToPqtimestamp, t.pqtimestamp_text (by decide)]
    rfl

end Schaufel
