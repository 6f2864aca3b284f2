import Mathlib.Data.List.GetD
import Schaufel.Json.Instants

/-!
# Texts that pass for timestamps

`_json_to_pqtimestamp` looks for the separators at fixed positions and leaves the fields between
them to `strtoul`, which skips blanks, takes a sign and stops at the first character that is no
digit.  What is behind the seconds is only checked at its first and its last character, and the day
is compared with 31 or
29.  So more than the timestamps of the calendar is taken.

## Main results

* `pqtimestamp_isSome_iff`: the texts that are taken, by the numbers at the beginning of their
  fields.
* `only_real_timestamps_iff`: the texts on which the verdict is that of the calendar.
-/

namespace Schaufel

/-! ### The number that `strtoul` reads -/

/-- `strtoul` behind the sign. -/
theorem strtoul_of_not_space {c : UInt8} (hspace : isSpace c = false) (s : CString)
    (h : (signedNumber (c :: s)).natAbs < 2 ^ 32) :
    (strtoul (c :: s)).2 = false ∧
      ((strtoul (c :: s)).1.toUInt32.toNat : ℤ) = signedNumber (c :: s) % 2 ^ 32 := by
  simp only [signedNumber, hspace, Bool.false_eq_true, if_false] at h ⊢
  simp only [strtoul, List.dropWhile_cons, hspace, Bool.false_eq_true, if_false, List.head?_cons,
    Option.some.injEq]
  by_cases hminus : c = 45
  · subst hminus
    simp only [if_true, Int.natAbs_neg, Int.natAbs_natCast] at h
    simp only [true_or, if_true, List.tail_cons, if_neg (show ¬ 2 ^ 64 ≤ leadingNumber s by omega)]
    refine ⟨trivial, ?_⟩
    rw [UInt64.toNat_toUInt32, UInt64.toNat_neg, UInt64.toNat_ofNat',
      show UInt64.size = 2 ^ 64 from rfl]
    omega
  · by_cases hplus : c = 43
    · subst hplus
      simp only [hminus, if_false, if_true, Int.natAbs_natCast] at h ⊢
      simp only [or_true, if_true, List.tail_cons,
        if_neg (show ¬ 2 ^ 64 ≤ leadingNumber s by omega)]
      refine ⟨trivial, ?_⟩
      rw [UInt64.toNat_toUInt32, UInt64.toNat_ofNat']
      omega
    · simp only [hminus, hplus, if_false, Int.natAbs_natCast] at h ⊢
      simp only [or_self, if_false, if_neg (show ¬ 2 ^ 64 ≤ leadingNumber (c :: s) by omega)]
      refine ⟨trivial, ?_⟩
      rw [UInt64.toNat_toUInt32, UInt64.toNat_ofNat']
      omega

/-- A number of fewer than 32 bits is read, and a negative one wraps around. -/
theorem toNat_strtoul {s : CString} (h : (signedNumber s).natAbs < 2 ^ 32) :
    (strtoul s).2 = false ∧ ((strtoul s).1.toUInt32.toNat : ℤ) = signedNumber s % 2 ^ 32 := by
  induction s with
  | nil => exact ⟨rfl, rfl⟩
  | cons c s ih =>
    by_cases hspace : isSpace c = true
    · have hskip : strtoul (c :: s) = strtoul s := by
        simp only [strtoul, List.dropWhile_cons, hspace, if_true]
      rw [signedNumber, if_pos hspace] at h ⊢
      rw [hskip]
      exact ih h
    · exact strtoul_of_not_space (by simpa using hspace) s h

/-! ### The parts of a text -/

/-- The fields of a text, and what stands behind the seconds. -/
structure TimestampParts where
  year : CString
  month : CString
  day : CString
  hour : CString
  minute : CString
  second : CString
  zone : CString

namespace TimestampParts

variable (p : TimestampParts)

def fromSecond : CString := p.second ++ p.zone

def fromMinute : CString := p.minute ++ 58 :: p.fromSecond

def fromHour : CString := p.hour ++ 58 :: p.fromMinute

def fromDay : CString := p.day ++ 84 :: p.fromHour

def fromMonth : CString := p.month ++ 45 :: p.fromDay

/-- The text of some parts. -/
def text : CString := p.year ++ 45 :: p.fromMonth

/-- The fields have their widths, and the zone begins with a point or a `Z`, ends with a `Z` and has
at most ten characters in between. -/
structure Shaped : Prop where
  year : p.year.length = 4
  month : p.month.length = 2
  day : p.day.length = 2
  hour : p.hour.length = 2
  minute : p.minute.length = 2
  second : p.second.length = 2
  zone_head : p.zone.head? = some 46 ∨ p.zone.head? = some 90
  zone_last : p.zone.getLast? = some 90
  zone_length : p.zone.length ≤ 12

/-- What `_json_to_pqtimestamp` asks of the parts: the numbers at the beginning of the fields are in
their ranges. -/
structure Admitted (maxSecond : UInt32) : Prop where
  shaped : p.Shaped
  year : 2000 ≤ signedNumber p.year ∧ signedNumber p.year ≤ 4027
  month : 1 ≤ signedNumber p.month ∧ signedNumber p.month ≤ 12
  day : 0 ≤ signedNumber p.day ∧ signedNumber p.day ≤ 31
  february : signedNumber p.month = 2 → signedNumber p.day ≤ 29
  hour : 0 ≤ signedNumber p.hour ∧ signedNumber p.hour ≤ 23
  minute : 0 ≤ signedNumber p.minute ∧ signedNumber p.minute ≤ 59
  second : 0 ≤ signedNumber p.second ∧ signedNumber p.second ≤ maxSecond.toNat

/-- The fields are digits, and the zone is `Z`, or a point, up to ten digits and `Z`. -/
structure Written : Prop where
  fields : ∀ field ∈ [p.year, p.month, p.day, p.hour, p.minute, p.second],
      ∀ c ∈ field, isDigit c = true
  zone : p.zone = [90] ∨
    ∃ fraction : CString, (∀ c ∈ fraction, isDigit c = true) ∧ fraction.length ≤ 10 ∧
      p.zone = 46 :: (fraction ++ [90])

/-- A timestamp of the calendar. -/
structure Real : Prop where
  written : p.Written
  length_year : p.year.length = 4
  length_fields : ∀ field ∈ [p.month, p.day, p.hour, p.minute, p.second], field.length = 2
  year : 2000 ≤ ofDigits 10 p.year ∧ ofDigits 10 p.year ≤ 4027
  month : 1 ≤ ofDigits 10 p.month ∧ ofDigits 10 p.month ≤ 12
  day : 1 ≤ ofDigits 10 p.day ∧
    ofDigits 10 p.day ≤ Gregorian.daysInMonth (ofDigits 10 p.year) (ofDigits 10 p.month)
  hour : ofDigits 10 p.hour ≤ 23
  minute : ofDigits 10 p.minute ≤ 59
  second : ofDigits 10 p.second ≤ 60

end TimestampParts

/-- The text is a timestamp of the calendar. -/
def RealTimestamp (ts : CString) : Prop := ∃ p : TimestampParts, ts = p.text ∧ p.Real

/-! ### The shape -/

/-- A separator cuts a field off. -/
theorem drop_eq_of_charAt {ts : CString} {i width : ℕ} {c : UInt8} (hc : c ≠ 0)
    (h : charAt ts (i + width) = c) :
    ((ts.drop i).take width).length = width ∧
      ts.drop i = (ts.drop i).take width ++ c :: ts.drop (i + width + 1) := by
  have hlt : i + width < ts.length := by
    by_contra hle
    rw [charAt, List.getD_eq_default _ _ (Nat.le_of_not_lt hle)] at h
    exact hc h.symm
  rw [charAt, List.getD_eq_getElem _ _ hlt] at h
  refine ⟨?_, ?_⟩
  · rw [List.length_take, List.length_drop]
    omega
  · rw [← h, ← List.drop_eq_getElem_cons hlt, ← List.drop_drop, List.take_append_drop]

/-- The separator behind a field. -/
theorem charAt_field {field : CString} {width : ℕ} (h : field.length = width) (c : UInt8)
    (rest : CString) : charAt (field ++ c :: rest) width = c := by
  rw [charAt, List.getD_append_right _ _ _ _ h.le, h, Nat.sub_self, List.getD_cons_zero]

/-- The characters behind a field and its separator. -/
theorem charAt_append {field : CString} {width : ℕ} (h : field.length = width) (c : UInt8)
    (rest : CString) (k : ℕ) : charAt (field ++ c :: rest) (width + 1 + k) = charAt rest k := by
  rw [charAt, charAt, List.getD_append_right _ _ _ _ (by omega),
    show width + 1 + k - field.length = k + 1 by omega, List.getD_cons_succ]

theorem charAt_last {ts : CString} (h : ts ≠ []) (c : UInt8) :
    charAt ts (ts.length - 1) = c ↔ ts.getLast? = some c := by
  have hlt : ts.length - 1 < ts.length := Nat.sub_lt (List.length_pos_iff.mpr h) Nat.one_pos
  rw [List.getLast?_eq_getElem?, List.getElem?_eq_getElem hlt, Option.some.injEq, charAt,
    List.getD_eq_getElem _ _ hlt]

namespace TimestampParts

variable {p : TimestampParts}

theorem Shaped.zone_ne_nil (h : p.Shaped) : p.zone ≠ [] := by
  intro hnil
  have hlast := h.zone_last
  rw [hnil] at hlast
  cases hlast

theorem Shaped.length_text (h : p.Shaped) : p.text.length = 19 + p.zone.length := by
  simp only [text, fromMonth, fromDay, fromHour, fromMinute, fromSecond, List.length_append,
    List.length_cons, h.year, h.month, h.day, h.hour, h.minute, h.second]
  omega

/-- The zone as its first character and the rest. -/
theorem Shaped.exists_zone (h : p.Shaped) :
    ∃ c rest, p.zone = c :: rest ∧ (c = 46 ∨ c = 90) := by
  obtain ⟨c, rest, hzone⟩ := List.exists_cons_of_ne_nil h.zone_ne_nil
  have hhead := h.zone_head
  rw [hzone, List.head?_cons, Option.some.injEq, Option.some.injEq] at hhead
  exact ⟨c, rest, hzone, hhead⟩

/-- What follows each field. -/
theorem Shaped.drop_text (h : p.Shaped) :
    p.text.drop 5 = p.fromMonth ∧ p.text.drop 8 = p.fromDay ∧ p.text.drop 11 = p.fromHour ∧
      p.text.drop 14 = p.fromMinute ∧ p.text.drop 17 = p.fromSecond := by
  have hdrop : ∀ (field : CString) (c : UInt8) (rest : CString) (k : ℕ),
      (field ++ c :: rest).drop (field.length + 1 + k) = rest.drop k := by
    intro field c rest k
    rw [← List.drop_drop, ← List.singleton_append, ← List.append_assoc, List.drop_left' (by simp)]
  have hyear := hdrop p.year 45 p.fromMonth
  have hmonth := hdrop p.month 45 p.fromDay
  have hday := hdrop p.day 84 p.fromHour
  have hhour := hdrop p.hour 58 p.fromMinute
  have hminute := hdrop p.minute 58 p.fromSecond
  rw [h.year] at hyear
  rw [h.month] at hmonth
  rw [h.day] at hday
  rw [h.hour] at hhour
  rw [h.minute] at hminute
  refine ⟨hyear 0, (hyear 3).trans (hmonth 0), (hyear 6).trans ((hmonth 3).trans (hday 0)), ?_, ?_⟩
  · exact (hyear 9).trans ((hmonth 6).trans ((hday 3).trans (hhour 0)))
  · exact (hyear 12).trans ((hmonth 9).trans ((hday 6).trans ((hhour 3).trans (hminute 0))))

theorem Shaped.getLast?_text (h : p.Shaped) : p.text.getLast? = some 90 := by
  have hlast : ∀ (field : CString) (c : UInt8) (rest : CString), rest.getLast? = some 90 →
      (field ++ c :: rest).getLast? = some 90 := by
    intro field c rest hrest
    rw [List.getLast?_append, List.getLast?_cons, hrest]
    rfl
  have hzone : p.fromSecond.getLast? = some 90 := by
    rw [fromSecond, List.getLast?_append, h.zone_last]
    rfl
  exact hlast _ _ _ (hlast _ _ _ (hlast _ _ _ (hlast _ _ _ (hlast _ _ _ hzone))))

theorem Shaped.timestampShape_text (h : p.Shaped) : timestampShape p.text = true := by
  obtain ⟨c, rest, hzone, hc⟩ := h.exists_zone
  have hlength := h.length_text
  have hzone_length := h.zone_length
  have hzone_pos : 0 < p.zone.length := List.length_pos_iff.mpr h.zone_ne_nil
  have h₄ : charAt p.text 4 = 45 := charAt_field h.year 45 p.fromMonth
  have h₅ : ∀ k, charAt p.text (5 + k) = charAt p.fromMonth k := charAt_append h.year 45 p.fromMonth
  have h₈ : ∀ k, charAt p.text (5 + (3 + k)) = charAt p.fromDay k := fun k =>
    (h₅ (3 + k)).trans (charAt_append h.month 45 p.fromDay k)
  have h₁₁ : ∀ k, charAt p.text (5 + (3 + (3 + k))) = charAt p.fromHour k := fun k =>
    (h₈ (3 + k)).trans (charAt_append h.day 84 p.fromHour k)
  have h₁₄ : ∀ k, charAt p.text (5 + (3 + (3 + (3 + k)))) = charAt p.fromMinute k := fun k =>
    (h₁₁ (3 + k)).trans (charAt_append h.hour 58 p.fromMinute k)
  have h₁₇ : ∀ k, charAt p.text (5 + (3 + (3 + (3 + (3 + k))))) = charAt p.fromSecond k := fun k =>
    (h₁₄ (3 + k)).trans (charAt_append h.minute 58 p.fromSecond k)
  have h₇ : charAt p.text 7 = 45 := (h₅ 2).trans (charAt_field h.month 45 p.fromDay)
  have h₁₀ : charAt p.text 10 = 84 := (h₈ 2).trans (charAt_field h.day 84 p.fromHour)
  have h₁₃ : charAt p.text 13 = 58 := (h₁₁ 2).trans (charAt_field h.hour 58 p.fromMinute)
  have h₁₆ : charAt p.text 16 = 58 := (h₁₄ 2).trans (charAt_field h.minute 58 p.fromSecond)
  have h₁₉ : charAt p.text 19 = c := by
    refine (h₁₇ 2).trans ?_
    rw [fromSecond, hzone]
    exact charAt_field h.second c rest
  have hne : p.text ≠ [] := List.ne_nil_of_length_pos (by omega)
  have hlast := (charAt_last hne 90).mpr h.getLast?_text
  simp only [timestampShape, Bool.and_eq_true, Bool.or_eq_true, decide_eq_true_eq]
  rw [h₄, h₇, h₁₀, h₁₃, h₁₆, h₁₉]
  exact ⟨⟨⟨⟨⟨⟨⟨⟨by omega, by omega⟩, rfl⟩, rfl⟩, rfl⟩, rfl⟩, rfl⟩, hc⟩, hlast⟩

end TimestampParts

/-- The texts with the length and the separators of a timestamp. -/
theorem timestampShape_iff {ts : CString} :
    timestampShape ts = true ↔ ∃ p : TimestampParts, ts = p.text ∧ p.Shaped := by
  refine ⟨fun h => ?_, fun ⟨p, hts, hp⟩ => hts ▸ hp.timestampShape_text⟩
  simp only [timestampShape, Bool.and_eq_true, Bool.or_eq_true, decide_eq_true_eq] at h
  obtain ⟨⟨⟨⟨⟨⟨⟨⟨hmin, hmax⟩, h₄⟩, h₇⟩, h₁₀⟩, h₁₃⟩, h₁₆⟩, h₁₉⟩, hlast⟩ := h
  have hne : ts ≠ [] := List.ne_nil_of_length_pos (by omega)
  rw [charAt_last hne] at hlast
  obtain ⟨hyear, hrest₀⟩ := @drop_eq_of_charAt ts 0 4 45 (by decide) h₄
  obtain ⟨hmonth, hrest₅⟩ := @drop_eq_of_charAt ts 5 2 45 (by decide) h₇
  obtain ⟨hday, hrest₈⟩ := @drop_eq_of_charAt ts 8 2 84 (by decide) h₁₀
  obtain ⟨hhour, hrest₁₁⟩ := @drop_eq_of_charAt ts 11 2 58 (by decide) h₁₃
  obtain ⟨hminute, hrest₁₄⟩ := @drop_eq_of_charAt ts 14 2 58 (by decide) h₁₆
  have hrest₁₇ : ts.drop 17 = (ts.drop 17).take 2 ++ ts.drop 19 := by
    rw [← List.drop_drop (i := 2) (j := 17), List.take_append_drop]
  refine ⟨⟨(ts.drop 0).take 4, (ts.drop 5).take 2, (ts.drop 8).take 2, (ts.drop 11).take 2,
    (ts.drop 14).take 2, (ts.drop 17).take 2, ts.drop 19⟩, ?_, hyear, hmonth, hday, hhour, hminute,
    ?_, ?_, ?_, ?_⟩
  · show ts = _ ++ 45 :: (_ ++ 45 :: (_ ++ 84 :: (_ ++ 58 :: (_ ++ 58 :: (_ ++ _)))))
    rw [← hrest₁₇, ← hrest₁₄, ← hrest₁₁, ← hrest₈, ← hrest₅, ← hrest₀, List.drop_zero]
  · rw [List.length_take, List.length_drop]
    omega
  · have hlt : 19 < ts.length := by omega
    rw [charAt, List.getD_eq_getElem _ _ hlt] at h₁₉
    show (ts.drop 19).head? = _ ∨ (ts.drop 19).head? = _
    rw [List.head?_drop, List.getElem?_eq_getElem hlt, Option.some.injEq, Option.some.injEq]
    exact h₁₉
  · show (ts.drop 19).getLast? = _
    rw [List.getLast?_drop, if_neg (by omega), hlast]
  · show (ts.drop 19).length ≤ 12
    rw [List.length_drop]
    omega

/-! ### The texts that are taken -/

namespace TimestampParts

variable {p : TimestampParts}

/-- A field before a separator other than a minus is read alone. -/
theorem signedNumber_field {c : UInt8} (hc : c = 84 ∨ c = 58 ∨ c = 46 ∨ c = 90)
    (field rest : CString) : signedNumber (field ++ c :: rest) = signedNumber field := by
  have hclass : isDigit c = false ∧ isSpace c = false ∧ c ≠ 43 ∧ c ≠ 45 := by
    rcases hc with rfl | rfl | rfl | rfl <;> decide
  rcases signedNumber_append hclass.1 hclass.2.1 hclass.2.2.1 field rest with h | ⟨h, -⟩
  · exact h
  · exact absurd h hclass.2.2.2

/-- A field before a minus may be blank; the number is not positive then. -/
theorem signedNumber_minus (field field' rest : CString) {c : UInt8} (hc : c = 84 ∨ c = 45) :
    signedNumber (field ++ 45 :: (field' ++ c :: rest)) = signedNumber field ∨
      signedNumber field = 0 ∧ signedNumber (field ++ 45 :: (field' ++ c :: rest)) ≤ 0 ∧
        (signedNumber (field ++ 45 :: (field' ++ c :: rest))).natAbs < 10 ^ field'.length := by
  have hdigit : isDigit c = false := by rcases hc with rfl | rfl <;> decide
  rcases @signedNumber_append 45 (by decide) (by decide) (by decide) field
    (field' ++ c :: rest) with
    h | ⟨-, hzero, h⟩
  · exact .inl h
  · have hlt := leadingNumber_lt field'
    rw [h, leadingNumber_append hdigit, Int.natAbs_neg, Int.natAbs_natCast]
    exact .inr ⟨hzero, by omega, hlt⟩

/-- The numbers that are read.  A blank year or month goes on behind the minus, and is not
positive. -/
structure Reads (p : TimestampParts) : Prop where
  year : signedNumber p.text = signedNumber p.year ∨
      signedNumber p.year = 0 ∧ signedNumber p.text ≤ 0
  month : signedNumber p.fromMonth = signedNumber p.month ∨
    signedNumber p.month = 0 ∧ signedNumber p.fromMonth ≤ 0
  day : signedNumber p.fromDay = signedNumber p.day
  hour : signedNumber p.fromHour = signedNumber p.hour
  minute : signedNumber p.fromMinute = signedNumber p.minute
  second : signedNumber p.fromSecond = signedNumber p.second
  /-- All of them are small. -/
  small : ∀ s ∈ [p.text, p.fromMonth, p.fromDay, p.fromHour, p.fromMinute, p.fromSecond],
    (signedNumber s).natAbs < 10000

theorem Shaped.reads (h : p.Shaped) : p.Reads := by
  obtain ⟨c, rest, hzone, hc⟩ := h.exists_zone
  have hpow : ∀ {width : ℕ}, width ≤ 4 → 10 ^ width ≤ 10000 := fun hwidth =>
    Nat.pow_le_pow_right (by decide) hwidth
  have hlt : ∀ {field : CString} {width : ℕ}, field.length = width → width ≤ 4 →
      (signedNumber field).natAbs < 10000 := fun hfield hwidth =>
    (natAbs_signedNumber_lt _).trans_le (hpow (hfield.trans_le hwidth))
  have hyear : signedNumber p.text = signedNumber p.year ∨ signedNumber p.year = 0 ∧
      signedNumber p.text ≤ 0 ∧ (signedNumber p.text).natAbs < 10 ^ p.month.length :=
    signedNumber_minus p.year p.month p.fromDay (.inr rfl)
  have hmonth : signedNumber p.fromMonth = signedNumber p.month ∨ signedNumber p.month = 0 ∧
      signedNumber p.fromMonth ≤ 0 ∧ (signedNumber p.fromMonth).natAbs < 10 ^ p.day.length :=
    signedNumber_minus p.month p.day p.fromHour (.inl rfl)
  have hday : signedNumber p.fromDay = signedNumber p.day := signedNumber_field (by decide) _ _
  have hhour : signedNumber p.fromHour = signedNumber p.hour := signedNumber_field (by decide) _ _
  have hminute : signedNumber p.fromMinute = signedNumber p.minute :=
    signedNumber_field (by decide) _ _
  have hsecond : signedNumber p.fromSecond = signedNumber p.second := by
    rw [fromSecond, hzone]
    exact signedNumber_field (.inr (.inr hc)) _ _
  refine ⟨hyear.imp_right fun h => ⟨h.1, h.2.1⟩, hmonth.imp_right fun h => ⟨h.1, h.2.1⟩, hday,
    hhour, hminute, hsecond, ?_⟩
  simp only [List.forall_mem_cons, hday, hhour, hminute, hsecond]
  refine ⟨?_, ?_, hlt h.day (by decide), hlt h.hour (by decide), hlt h.minute (by decide),
    hlt h.second (by decide), List.forall_mem_nil _⟩
  · rcases hyear with hsame | ⟨-, -, hrest⟩
    · rw [hsame]
      exact hlt h.year (by decide)
    · exact hrest.trans_le (hpow (h.month.trans_le (by decide)))
  · rcases hmonth with hsame | ⟨-, -, hrest⟩
    · rw [hsame]
      exact hlt h.month (by decide)
    · exact hrest.trans_le (hpow (h.day.trans_le (by decide)))

/-- `errno` is not set by the fraction. -/
theorem micro_errno (ts : CString) : (micro ts).2 = false := by
  unfold micro
  split_ifs
  · refine (toNat_strtoul ?_).1
    have hlength : (fraction ts).length ≤ 6 := by
      rw [fraction, List.length_append, List.length_take, List.length_replicate]
      omega
    have hlt := natAbs_signedNumber_lt (fraction ts)
    have hpow : 10 ^ (fraction ts).length ≤ 10 ^ 6 := Nat.pow_le_pow_right (by decide) hlength
    omega
  · rfl

/-- The calendar that is read from the parts. -/
def calendar (p : TimestampParts) : Calendar :=
  ⟨(strtoul p.text).1.toUInt32, (strtoul p.fromMonth).1.toUInt32, (strtoul p.fromDay).1.toUInt32,
    (strtoul p.fromHour).1.toUInt32, (strtoul p.fromMinute).1.toUInt32,
    (strtoul p.fromSecond).1.toUInt32, (micro p.text).1⟩

theorem Shaped.strtoul_eq (h : p.Shaped) :
    ∀ s ∈ [p.text, p.fromMonth, p.fromDay, p.fromHour, p.fromMinute, p.fromSecond],
      (strtoul s).2 = false ∧ ((strtoul s).1.toUInt32.toNat : ℤ) = signedNumber s % 2 ^ 32 := by
  intro s hs
  have hsmall := h.reads.small s hs
  exact toNat_strtoul (by omega)

theorem Shaped.parseCalendar_text (h : p.Shaped) : parseCalendar p.text = some p.calendar := by
  obtain ⟨hd₅, hd₈, hd₁₁, hd₁₄, hd₁₇⟩ := h.drop_text
  have herrno := h.strtoul_eq
  simp only [List.forall_mem_cons] at herrno
  obtain ⟨⟨h₀, -⟩, ⟨h₅, -⟩, ⟨h₈, -⟩, ⟨h₁₁, -⟩, ⟨h₁₄, -⟩, ⟨h₁₇, -⟩, -⟩ := herrno
  simp only [parseCalendar, hd₅, hd₈, hd₁₁, hd₁₄, hd₁₇, h₀, h₅, h₈, h₁₁, h₁₄, h₁₇, micro_errno,
    Bool.or_self, Bool.false_eq_true, if_false, calendar]

/-- A negative number wraps around to one that is out of every range. -/
theorem wrapped_le_iff {v : ℕ} {z : ℤ} (hv : (v : ℤ) = z % 2 ^ 32) (hz : z.natAbs < 10000) {hi : ℕ}
    (hhi : hi ≤ 10000) : v ≤ hi ↔ 0 ≤ z ∧ z ≤ hi := by
  omega

/-- A range of positive numbers does not see whether a blank field was read past its end. -/
theorem wrapped_mem_iff {v : ℕ} {z number : ℤ} (hv : (v : ℤ) = z % 2 ^ 32) (hz : z.natAbs < 10000)
    (hnumber : z = number ∨ number = 0 ∧ z ≤ 0) {lo hi : ℕ} (hlo : 1 ≤ lo) (hhi : hi ≤ 10000) :
    lo ≤ v ∧ v ≤ hi ↔ lo ≤ number ∧ number ≤ hi := by
  omega

/-- The checks of the fields, in terms of the numbers in the text. -/
theorem Shaped.inRange_iff (h : p.Shaped) {maxSecond : UInt32} (hmax : maxSecond.toNat ≤ 60) :
    p.calendar.inRange maxSecond = true ↔ p.Admitted maxSecond := by
  obtain ⟨ryear, rmonth, rday, rhour, rminute, rsecond, hsmall⟩ := h.reads
  have hvalues := h.strtoul_eq
  simp only [List.forall_mem_cons] at hvalues hsmall
  obtain ⟨⟨-, h₀⟩, ⟨-, h₅⟩, ⟨-, h₈⟩, ⟨-, h₁₁⟩, ⟨-, h₁₄⟩, ⟨-, h₁₇⟩, -⟩ := hvalues
  obtain ⟨hs₀, hs₅, hs₈, hs₁₁, hs₁₄, hs₁₇, -⟩ := hsmall
  rw [rday] at h₈ hs₈
  rw [rhour] at h₁₁ hs₁₁
  rw [rminute] at h₁₄ hs₁₄
  rw [rsecond] at h₁₇ hs₁₇
  have hyear := @wrapped_mem_iff _ _ _ h₀ hs₀ ryear 2000 4027 (by decide) (by decide)
  have hmonth := @wrapped_mem_iff _ _ _ h₅ hs₅ rmonth 1 12 (by decide) (by decide)
  have htwo := @wrapped_mem_iff _ _ _ h₅ hs₅ rmonth 2 2 (by decide) (by decide)
  have hday := @wrapped_le_iff _ _ h₈ hs₈ 31 (by decide)
  have hfebruary := @wrapped_le_iff _ _ h₈ hs₈ 29 (by decide)
  have hhour := @wrapped_le_iff _ _ h₁₁ hs₁₁ 23 (by decide)
  have hminute := @wrapped_le_iff _ _ h₁₄ hs₁₄ 59 (by decide)
  have hsecond := @wrapped_le_iff _ _ h₁₇ hs₁₇ maxSecond.toNat (hmax.trans (by decide))
  simp only [Calendar.inRange, calendar, Bool.and_eq_true, Bool.not_eq_true', Bool.and_eq_false_iff,
    decide_eq_true_eq, decide_eq_false_iff_not, UInt32.le_iff_toNat_le, UInt32.lt_iff_toNat_lt,
    ← UInt32.toNat_inj, UInt32.reduceToNat]
  constructor
  · rintro ⟨⟨⟨⟨⟨⟨⟨⟨hy, hy'⟩, hm⟩, hm'⟩, hd⟩, hh⟩, hmin⟩, hs⟩, hf⟩
    refine ⟨h, hyear.mp ⟨hy, hy'⟩, hmonth.mp ⟨hm, hm'⟩, hday.mp hd, fun heq => ?_, hhour.mp hh,
      hminute.mp hmin, hsecond.mp hs⟩
    have hm₂ := le_antisymm_iff.mpr (htwo.mpr ⟨heq.ge, heq.le⟩).symm
    exact (hfebruary.mp (Nat.le_of_not_lt (hf.resolve_left (not_not_intro hm₂)))).2
  · rintro ⟨-, hy, hm, hd, hf, hh, hmin, hs⟩
    refine ⟨⟨⟨⟨⟨⟨⟨⟨(hyear.mpr hy).1, (hyear.mpr hy).2⟩, (hmonth.mpr hm).1⟩, (hmonth.mpr hm).2⟩,
      hday.mpr hd⟩, hhour.mpr hh⟩, hminute.mpr hmin⟩, hsecond.mpr hs⟩, not_and_or.mp ?_⟩
    rintro ⟨hm₂, hlate⟩
    have heq := htwo.mp ⟨hm₂.ge, hm₂.le⟩
    exact absurd (hfebruary.mpr ⟨hd.1, hf (le_antisymm heq.2 heq.1)⟩) (Nat.not_le_of_lt hlate)

end TimestampParts

/-- The texts that are taken. -/
theorem pqtimestamp_isSome_iff {maxSecond : UInt32} (hmax : maxSecond.toNat ≤ 60) (ts : CString) :
    (pqtimestamp maxSecond ts).isSome = true ↔
      ∃ p : TimestampParts, ts = p.text ∧ p.Admitted maxSecond := by
  constructor
  · intro h
    unfold pqtimestamp at h
    by_cases hshape : timestampShape ts = true
    · obtain ⟨p, rfl, hp⟩ := timestampShape_iff.mp hshape
      rw [if_pos hshape, hp.parseCalendar_text] at h
      by_cases hrange : p.calendar.inRange maxSecond = true
      · exact ⟨p, rfl, (hp.inRange_iff hmax).mp hrange⟩
      · simp [hrange] at h
    · rw [if_neg hshape] at h
      cases h
  · rintro ⟨p, rfl, hp⟩
    rw [pqtimestamp, if_pos hp.shaped.timestampShape_text, hp.shaped.parseCalendar_text]
    dsimp only
    rw [if_pos ((hp.shaped.inRange_iff hmax).mpr hp)]
    rfl

/-! ### The timestamps of the calendar -/

namespace TimestampParts

variable {p q : TimestampParts}

/-- The parts of a text are determined by it. -/
theorem Shaped.text_inj (hp : p.Shaped) (hq : q.Shaped) (h : p.text = q.text) : p = q := by
  obtain ⟨hyear, h⟩ := List.append_inj h (hp.year.trans hq.year.symm)
  obtain ⟨hmonth, h⟩ := List.append_inj (List.cons.inj h).2 (hp.month.trans hq.month.symm)
  obtain ⟨hday, h⟩ := List.append_inj (List.cons.inj h).2 (hp.day.trans hq.day.symm)
  obtain ⟨hhour, h⟩ := List.append_inj (List.cons.inj h).2 (hp.hour.trans hq.hour.symm)
  obtain ⟨hminute, h⟩ := List.append_inj (List.cons.inj h).2 (hp.minute.trans hq.minute.symm)
  obtain ⟨hsecond, hzone⟩ := List.append_inj (List.cons.inj h).2 (hp.second.trans hq.second.symm)
  cases p
  cases q
  simp only [mk.injEq]
  exact ⟨hyear, hmonth, hday, hhour, hminute, hsecond, hzone⟩

/-- The numbers of a text that is written in digits. -/
theorem Written.signedNumber_eq (h : p.Written) :
    ∀ field ∈ [p.year, p.month, p.day, p.hour, p.minute, p.second],
      signedNumber field = ofDigits 10 field := fun field hfield =>
  signedNumber_digits (h.fields field hfield)

theorem Real.shaped (h : p.Real) : p.Shaped := by
  have hlength := h.length_fields
  simp only [List.forall_mem_cons] at hlength
  obtain ⟨hmonth, hday, hhour, hminute, hsecond, -⟩ := hlength
  refine ⟨h.length_year, hmonth, hday, hhour, hminute, hsecond, ?_, ?_, ?_⟩
  · rcases h.written.zone with hzone | ⟨fraction, -, -, hzone⟩
    · exact .inr (by rw [hzone]; rfl)
    · exact .inl (by rw [hzone]; rfl)
  · rcases h.written.zone with hzone | ⟨fraction, -, -, hzone⟩
    · rw [hzone]
      rfl
    · rw [hzone, ← List.cons_append, List.getLast?_append]
      rfl
  · rcases h.written.zone with hzone | ⟨fraction, -, hfraction, hzone⟩
    · rw [hzone]
      decide
    · rw [hzone, List.length_cons, List.length_append, List.length_singleton]
      omega

/-- The day is one of its month. -/
def DayExists (p : TimestampParts) : Prop :=
  1 ≤ signedNumber p.day ∧
    signedNumber p.day ≤
      Gregorian.daysInMonth (signedNumber p.year).toNat (signedNumber p.month).toNat

/-- What is missing from a text that is taken to be a timestamp of the calendar. -/
theorem real_iff : p.Real ↔ p.Admitted 60 ∧ p.Written ∧ p.DayExists := by
  constructor
  · intro h
    have hnumbers := h.written.signedNumber_eq
    simp only [List.forall_mem_cons] at hnumbers
    obtain ⟨hy, hm, hd, hh, hmin, hs, -⟩ := hnumbers
    obtain ⟨hyear, hyear'⟩ := h.year
    obtain ⟨hmonth, hmonth'⟩ := h.month
    obtain ⟨hday, hday'⟩ := h.day
    have hhour := h.hour
    have hminute := h.minute
    have hsecond := h.second
    have hlong := Gregorian.daysInMonth_le (ofDigits 10 p.year) (ofDigits 10 p.month)
    have hfebruary : ofDigits 10 p.month = 2 →
        Gregorian.daysInMonth (ofDigits 10 p.year) (ofDigits 10 p.month) ≤ 29 := by
      intro htwo
      rw [Gregorian.daysInMonth, if_pos htwo]
      split_ifs <;> decide
    refine ⟨⟨h.shaped, ?_, ?_, ?_, fun htwo => ?_, ?_, ?_, ?_⟩, h.written, ?_⟩
    · omega
    · omega
    · omega
    · have := hfebruary (by omega)
      omega
    · omega
    · omega
    · have hmax : (60 : UInt32).toNat = 60 := rfl
      omega
    · rw [DayExists, hy, hm, hd, Int.toNat_natCast, Int.toNat_natCast]
      omega
  · rintro ⟨h, hwritten, hday, hday'⟩
    have hnumbers := hwritten.signedNumber_eq
    simp only [List.forall_mem_cons] at hnumbers
    obtain ⟨hy, hm, hd, hh, hmin, hs, -⟩ := hnumbers
    obtain ⟨hshaped, hyear, hmonth, -, -, hhour, hminute, hsecond⟩ := h
    have hmax : (60 : UInt32).toNat = 60 := rfl
    rw [hy, hm, hd, Int.toNat_natCast, Int.toNat_natCast] at hday'
    rw [hd] at hday
    refine ⟨hwritten, hshaped.year, ?_, ?_, ?_, ?_, ?_, ?_, ?_⟩
    · simp only [List.forall_mem_cons]
      exact ⟨hshaped.month, hshaped.day, hshaped.hour, hshaped.minute, hshaped.second,
        List.forall_mem_nil _⟩
    · omega
    · omega
    · omega
    · omega
    · omega
    · omega

theorem Admitted.mono {maxSecond maxSecond' : UInt32} (h : p.Admitted maxSecond)
    (hle : maxSecond.toNat ≤ maxSecond'.toNat) : p.Admitted maxSecond' := by
  obtain ⟨hshaped, hyear, hmonth, hday, hfebruary, hhour, hminute, hsecond⟩ := h
  exact ⟨hshaped, hyear, hmonth, hday, hfebruary, hhour, hminute, hsecond.1, by omega⟩

end TimestampParts

/-- A text that is taken although it is no timestamp of the calendar: a field is not written in
digits, or what stands behind the seconds is no fraction, or there is no such day. -/
def Slips (maxSecond : UInt32) (ts : CString) : Prop :=
  ∃ p : TimestampParts, ts = p.text ∧ p.Admitted maxSecond ∧ (¬ p.Written ∨ ¬ p.DayExists)

theorem not_realTimestamp_of_slips {maxSecond : UInt32} {ts : CString} (h : Slips maxSecond ts) :
    ¬ RealTimestamp ts := by
  rintro ⟨q, hq, hreal⟩
  obtain ⟨p, rfl, hadmitted, hbad⟩ := h
  obtain rfl := hadmitted.shaped.text_inj hreal.shaped hq
  obtain ⟨-, hwritten, hday⟩ := TimestampParts.real_iff.mp hreal
  exact hbad.elim (· hwritten) (· hday)

/-- A text that does not slip through is a timestamp of the calendar if it is taken. -/
theorem realTimestamp_of_not_slips {maxSecond : UInt32} (hmax : maxSecond.toNat ≤ 60) {ts : CString}
    (h : ¬ Slips maxSecond ts) (htaken : (pqtimestamp maxSecond ts).isSome = true) :
    RealTimestamp ts := by
  obtain ⟨p, rfl, hadmitted⟩ := (pqtimestamp_isSome_iff hmax ts).mp htaken
  refine ⟨p, rfl, TimestampParts.real_iff.mpr ⟨hadmitted.mono hmax, ?_⟩⟩
  by_contra hbad
  exact h ⟨p, rfl, hadmitted, not_and_or.mp hbad⟩

theorem pqtimestamp_isSome_of_slips {maxSecond : UInt32} (hmax : maxSecond.toNat ≤ 60)
    {ts : CString} (h : Slips maxSecond ts) : (pqtimestamp maxSecond ts).isSome = true := by
  obtain ⟨p, rfl, hadmitted, -⟩ := h
  exact (pqtimestamp_isSome_iff hmax _).mpr ⟨p, rfl, hadmitted⟩

/-- The hook takes exactly the timestamps of the calendar, except for the texts that slip through.
The exports producer also refuses leap seconds. -/
theorem only_real_timestamps_iff (ts : CString) :
    (((Jsonexport.jsonToPqtimestamp ts).isSome = true ↔ RealTimestamp ts) ↔ ¬ Slips 60 ts) ∧
      (((Exports.jsonToPqtimestamp ts).isSome = true ↔ RealTimestamp ts) ↔
        ¬ Slips 59 ts ∧ ¬ (RealTimestamp ts ∧ IsLeapSecond ts)) := by
  have hreal : RealTimestamp ts → (Jsonexport.jsonToPqtimestamp ts).isSome = true := by
    rintro ⟨p, rfl, hp⟩
    exact (pqtimestamp_isSome_iff (by decide) _).mpr ⟨p, rfl, (TimestampParts.real_iff.mp hp).1⟩
  refine ⟨⟨fun h hslips => ?_, fun h => ⟨realTimestamp_of_not_slips (by decide) h, hreal⟩⟩,
    ⟨fun h => ⟨fun hslips => ?_, fun hleap => ?_⟩, fun h => ⟨?_, fun hts => ?_⟩⟩⟩
  · exact not_realTimestamp_of_slips hslips (h.mp (pqtimestamp_isSome_of_slips (by decide) hslips))
  · exact not_realTimestamp_of_slips hslips (h.mp (pqtimestamp_isSome_of_slips (by decide) hslips))
  · have htaken := h.mpr hleap.1
    rw [Exports.jsonToPqtimestamp_eq, if_pos hleap.2] at htaken
    cases htaken
  · exact realTimestamp_of_not_slips (by decide) h.1
  · rw [Exports.jsonToPqtimestamp_eq, if_neg fun hleap => h.2 ⟨hts, hleap⟩]
    exact hreal hts

/-- A day that does not exist. -/
def missingDay : TimestampParts where
  year := ascii "2021"
  month := ascii "02"
  day := ascii "29"
  hour := ascii "00"
  minute := ascii "00"
  second := ascii "00"
  zone := ascii "Z"

/-- Signs, blanks and letters in the place of numbers. -/
def carelessText : TimestampParts where
  year := ascii "2021"
  month := ascii "+1"
  day := ascii "??"
  hour := ascii " -"
  minute := ascii " +"
  second := ascii "6x"
  zone := ascii "ZulutimeZ"

/-- Both are taken by the hook and by the producer. -/
theorem careless_timestamps_taken :
    (Jsonexport.jsonToPqtimestamp missingDay.text).isSome = true ∧
      (Exports.jsonToPqtimestamp missingDay.text).isSome = true ∧ ¬ RealTimestamp missingDay.text ∧
      (Jsonexport.jsonToPqtimestamp carelessText.text).isSome = true ∧
      (Exports.jsonToPqtimestamp carelessText.text).isSome = true ∧
      ¬ RealTimestamp carelessText.text := by
  have hmissing : missingDay.Admitted 60 := by
    refine ⟨⟨rfl, rfl, rfl, rfl, rfl, rfl, ?_, rfl, ?_⟩, ?_, ?_, ?_, ?_, ?_, ?_, ?_⟩ <;> decide
  have hcareless : carelessText.Admitted 60 := by
    refine ⟨⟨rfl, rfl, rfl, rfl, rfl, rfl, ?_, rfl, ?_⟩, ?_, ?_, ?_, ?_, ?_, ?_, ?_⟩ <;> decide
  have hday : ¬ missingDay.DayExists := by
    unfold TimestampParts.DayExists
    decide
  have hday' : ¬ carelessText.DayExists := by
    unfold TimestampParts.DayExists
    decide
  exact ⟨by decide +kernel, by decide +kernel,
    not_realTimestamp_of_slips ⟨_, rfl, hmissing, .inr hday⟩, by decide +kernel, by decide +kernel,
    not_realTimestamp_of_slips ⟨_, rfl, hcareless, .inr hday'⟩⟩

end Schaufel
