import Mathlib.Data.List.TakeWhile
import Schaufel.Foundation.Run
import Schaufel.Postgres.Model

/-!
# What PostgreSQL reads from a COPY stream in text format

The postgres producer escapes a text as an SQL literal and strips the quotes.  The reader of the
stream follows other rules: a row ends at a newline and a column at a tab, unless a backslash stands
before it, and the escapes of a value are undone (`copyRows`).

The server also takes a carriage return, or one with a newline behind it, for the end of a line
(`serverRows`).  The first line says how all lines end; another end, if no backslash stands before
it, is an error, and then no row is read at all.  A line `\.` ends the data.

Writer and reader agree on backslashes and on nothing else.  The reader finds one row for each line
of the text, one column for each field of a line, and every quote twice (`copyRows_doubled`).  So
does the server if there is no carriage return (`serverRows_doubled`), and no value that it reads
has one (`not_mem_of_serverRows`).
-/

namespace Schaufel

/-! ### The reader -/

/-- The reader of a value, between two bytes. -/
inductive EscapeState
  | plain
  /-- Behind a backslash. -/
  | escaped
  /-- In an octal escape of some digits. -/
  | octal (digits : Nat) (value : UInt8)
  /-- In a hexadecimal escape of some digits. -/
  | hex (digits : Nat) (value : UInt8)
  deriving DecidableEq, Repr

def isOctalDigit (c : UInt8) : Bool := 48 ≤ c && c ≤ 55

/-- The value of a hexadecimal digit. -/
def hexDigit? (c : UInt8) : Option UInt8 :=
  if 48 ≤ c ∧ c ≤ 57 then some (c - 48)
  else if 65 ≤ c ∧ c ≤ 70 then some (c - 55)
  else if 97 ≤ c ∧ c ≤ 102 then some (c - 87)
  else none

/-- The control characters `\b`, `\f`, `\n`, `\r`, `\t` and `\v`; any other character stands for
itself. -/
def controlChar (c : UInt8) : UInt8 :=
  if c = 98 then 8
  else if c = 102 then 12
  else if c = 110 then 10
  else if c = 114 then 13
  else if c = 116 then 9
  else if c = 118 then 11
  else c

/-- What an escape stands for if it ends here; `\x` without digits is an `x`. -/
def EscapeState.flush : EscapeState → List UInt8
  | .plain => []
  | .escaped => []
  | .octal _ value => [value]
  | .hex 0 _ => [120]
  | .hex (_ + 1) value => [value]

/-- Read a byte that no escape reaches. -/
def feedPlain (c : UInt8) : List UInt8 × EscapeState :=
  if c = backslash then ([], .escaped) else ([c], .plain)

/-- Read a byte. -/
def EscapeState.feed : EscapeState → UInt8 → List UInt8 × EscapeState
  | .plain, c => feedPlain c
  | .escaped, c =>
    if isOctalDigit c then ([], .octal 1 (c - 48))
    else if c = 120 then ([], .hex 0 0)
    else ([controlChar c], .plain)
  | .octal digits value, c =>
    if digits < 3 ∧ isOctalDigit c then ([], .octal (digits + 1) (value * 8 + (c - 48)))
    else ((EscapeState.octal digits value).flush ++ (feedPlain c).1, (feedPlain c).2)
  | .hex digits value, c =>
    match hexDigit? c with
    | some d =>
      if digits < 2 then ([], .hex (digits + 1) (value * 16 + d))
      else ((EscapeState.hex digits value).flush ++ (feedPlain c).1, (feedPlain c).2)
    | none => ((EscapeState.hex digits value).flush ++ (feedPlain c).1, (feedPlain c).2)

/-- Undo the escapes of a value. -/
def unescape : EscapeState → List UInt8 → List UInt8
  | st, [] => st.flush
  | st, c :: rest => (st.feed c).1 ++ unescape (st.feed c).2 rest

/-- A value of a column; `\N` is NULL. -/
def copyValue (raw : List UInt8) : Option (List UInt8) :=
  if raw = [92, 78] then none else some (unescape .plain raw)

/-- The lines of a stream.  The last newline ends the last line. -/
def copyLines (stream : List UInt8) : List (List UInt8) :=
  let pieces := splitUnescaped backslash newline stream
  if pieces.getLast? = some [] then pieces.dropLast else pieces

/-- The rows of a stream, with the values of their columns. -/
def copyRows (stream : List UInt8) : List (List (Option (List UInt8))) :=
  (copyLines stream).map fun line => (splitUnescaped backslash tab line).map copyValue

example : copyRows [97, 92, 92, 9, 92, 78, 10, 92, 120, 52, 49, 92, 116, 10] =
    [[some [97, 92], none], [some [65, 9]]] := by decide

/-! ### The reader of the server -/

def carriageReturn : UInt8 := 13

/-- How the lines of a stream end. -/
inductive Eol
  | nl
  | cr
  | crnl
  deriving DecidableEq, Repr

/-- The line `\.`, which ends the data. -/
def endMarker : List UInt8 := [92, 46]

/-- A line before the others, unless it ends the data. -/
def endLine (line : List UInt8) (lines : Option (List (List UInt8))) : Option (List (List UInt8)) :=
  if line = endMarker then some [] else lines.map (List.cons line)

/-- The lines of a stream, in which `line` has been read of the first one; `eol` is how lines end,
if that is known, and `cr` says that the newline to come belongs to a carriage return.  The byte
behind a backslash is a part of the line.  `none` is an error: a line does not end as the others
do. -/
def serverLines : Option Eol → Bool → List UInt8 → List UInt8 → Option (List (List UInt8))
  | _, _, line, [] => some (if line = [] ∨ line = endMarker then [] else [line])
  | eol, cr, line, c :: rest =>
    if c = backslash then
      match rest with
      | [] => some [line ++ [c]]
      | c' :: rest' => serverLines eol false (line ++ [c, c']) rest'
    else if c = newline then
      let style := if cr then Eol.crnl else .nl
      if eol = none ∨ eol = some style then endLine line (serverLines (some style) false [] rest)
      else none
    else if c = carriageReturn then
      if rest.head? = some newline then serverLines eol true line rest
      else if eol = none ∨ eol = some .cr then endLine line (serverLines (some .cr) false [] rest)
      else none
    else serverLines eol false (line ++ [c]) rest

/-- The rows that the server reads from a stream, if it reads it. -/
def serverRows (stream : List UInt8) : Option (List (List (Option (List UInt8)))) :=
  (serverLines none false [] stream).map fun lines =>
    lines.map fun line => (splitUnescaped backslash tab line).map copyValue

example : serverRows [97, 13, 10, 98, 9, 92, 13, 13, 10, 92, 46, 13, 10, 99] =
    some [[some [97]], [some [98], some [13]]] := by decide

example : serverRows [97, 10, 98, 13, 99, 10] = none := by decide

section Steps

variable (eol : Option Eol) (cr : Bool) (line rest : List UInt8)

theorem serverLines_escaped (c : UInt8) :
    serverLines eol cr line (backslash :: c :: rest) =
      serverLines eol false (line ++ [backslash, c]) rest := by
  simp [serverLines]

theorem serverLines_newline :
    serverLines eol cr line (newline :: rest) =
      if eol = none ∨ eol = some (if cr then Eol.crnl else .nl) then
        endLine line (serverLines (some (if cr then Eol.crnl else .nl)) false [] rest)
      else none := by
  have hne : newline ≠ backslash := by decide
  cases rest <;> simp [serverLines, hne]

theorem serverLines_cr :
    serverLines eol cr line (carriageReturn :: rest) =
      if rest.head? = some newline then serverLines eol true line rest
      else if eol = none ∨ eol = some .cr then endLine line (serverLines (some .cr) false [] rest)
      else none := by
  have hne : carriageReturn ≠ backslash := by decide
  have hne' : carriageReturn ≠ newline := by decide
  cases rest <;> simp [serverLines, hne, hne']

theorem serverLines_plain {c : UInt8} (hb : c ≠ backslash) (hn : c ≠ newline)
    (hr : c ≠ carriageReturn) :
    serverLines eol cr line (c :: rest) = serverLines eol false (line ++ [c]) rest := by
  cases rest <;> simp [serverLines, hb, hn, hr]

end Steps

/-! ### Reading what the producer writes -/

theorem unescape_backslashes (rest : List UInt8) :
    unescape .plain (backslash :: backslash :: rest) = backslash :: unescape .plain rest := rfl

theorem unescape_plain {c : UInt8} (h : c ≠ backslash) (rest : List UInt8) :
    unescape .plain (c :: rest) = c :: unescape .plain rest := by
  simp [unescape, EscapeState.feed, feedPlain, h]

/-- Undoing the escapes turns two backslashes into one and leaves quotes doubled. -/
theorem unescape_doubled (text : List UInt8) :
    unescape .plain (doubled isSpecial text) = doubled (fun c => c = quote) text := by
  induction text with
  | nil => rfl
  | cons c text ih =>
    rw [doubled_cons, doubled_cons]
    by_cases hb : c = backslash
    · subst hb
      exact (unescape_backslashes _).trans (congrArg _ ih)
    by_cases hq : c = quote
    · subst hq
      exact (unescape_plain hb _).trans
        (congrArg _ ((unescape_plain hb _).trans (congrArg _ ih)))
    · have hspecial : isSpecial c = false := by simp [isSpecial, hb, hq]
      simp only [hspecial, hq, decide_false, Bool.false_eq_true, if_false]
      exact (unescape_plain hb _).trans (congrArg _ ih)

/-- No text is written as `\N`. -/
theorem doubled_ne_null (text : List UInt8) : doubled isSpecial text ≠ [92, 78] := by
  intro h
  cases text with
  | nil => exact absurd h (by decide)
  | cons c text =>
    rw [doubled_cons] at h
    by_cases hc : isSpecial c = true
    · -- A doubled byte is followed by itself, and `\` is not `N`.
      rw [if_pos hc] at h
      simp only [List.cons_append, List.cons.injEq] at h
      exact absurd (h.1.symm.trans h.2.1) (by decide)
    · rw [if_neg hc] at h
      simp only [List.cons_append, List.cons.injEq] at h
      obtain ⟨rfl, -⟩ := h
      exact hc (by decide)

theorem copyValue_doubled (text : List UInt8) :
    copyValue (doubled isSpecial text) = some (doubled (fun c => c = quote) text) := by
  rw [copyValue, if_neg (doubled_ne_null text), unescape_doubled]

theorem copyLines_doubled (text : List UInt8) :
    copyLines (doubled isSpecial text ++ [newline]) =
      (text.splitOn newline).map (doubled isSpecial) := by
  have henc : doubled isSpecial text ++ [newline] = doubled isSpecial (text ++ [newline]) := by
    rw [doubled_append]
    rfl
  have hsplit : splitUnescaped backslash newline (doubled isSpecial text ++ [newline]) =
      (text.splitOn newline).map (doubled isSpecial) ++ [[]] := by
    rw [henc, splitUnescaped_doubled (by decide) (by decide), splitOn_concat, List.map_append]
    rfl
  simp [copyLines, hsplit]

/-- What is read for a text: a row for each of its lines, a column for each field of a line, and the
quotes doubled. -/
theorem copyRows_doubled (text : List UInt8) :
    copyRows (doubled isSpecial text ++ [newline]) =
      (text.splitOn newline).map fun line =>
        (line.splitOn tab).map fun field => some (doubled (fun c => c = quote) field) := by
  rw [copyRows, copyLines_doubled, List.map_map]
  refine List.map_congr_left fun line _ => ?_
  rw [Function.comp_apply, splitUnescaped_doubled (by decide) (by decide), List.map_map]
  exact List.map_congr_left fun field _ => copyValue_doubled field

/-- One row with one value is read, and the value is the text, exactly if the text has no quote, no
tab and no newline. -/
theorem copyRows_doubled_eq_iff (text : List UInt8) :
    copyRows (doubled isSpecial text ++ [newline]) = [[some text]] ↔
      ∀ c ∈ text, c ≠ quote ∧ c ≠ tab ∧ c ≠ newline := by
  rw [copyRows_doubled, List.map_eq_singleton_iff]
  simp only [splitOn_eq_singleton_iff, List.map_eq_singleton_iff, Option.some.injEq]
  constructor
  · rintro ⟨line, ⟨hnewline, rfl⟩, field, ⟨htab, rfl⟩, hquote⟩ c hc
    refine ⟨by simpa using doubled_eq_self_iff.mp hquote c hc, ?_, ?_⟩
    · rintro rfl
      exact htab hc
    · rintro rfl
      exact hnewline hc
  · intro h
    refine ⟨text, ⟨fun hc => (h _ hc).2.2 rfl, rfl⟩, text, ⟨fun hc => (h _ hc).2.1 rfl, rfl⟩, ?_⟩
    exact doubled_eq_self_iff.mpr fun c hc => by simpa using (h c hc).1

/-! ### What the server reads -/

theorem doubled_concat (line : List UInt8) (c : UInt8) :
    doubled isSpecial (line ++ [c]) =
      doubled isSpecial line ++ if isSpecial c then [c, c] else [c] := by
  rw [doubled_append, doubled_cons]
  simp [doubled]

/-- A byte of the text that ends no line goes to the line. -/
theorem serverLines_doubled_cons {c : UInt8} (hn : c ≠ newline) (hr : c ≠ carriageReturn)
    (eol : Option Eol) (cr : Bool) (line text : List UInt8) :
    serverLines eol cr (doubled isSpecial line) (doubled isSpecial (c :: text)) =
      serverLines eol false (doubled isSpecial (line ++ [c])) (doubled isSpecial text) := by
  rw [doubled_cons, doubled_concat]
  by_cases hb : c = backslash
  · subst hb
    exact serverLines_escaped eol cr _ _ _
  by_cases hq : c = quote
  · subst hq
    refine (serverLines_plain eol cr _ _ hb hn hr).trans ?_
    refine (serverLines_plain eol false _ _ hb hn hr).trans ?_
    rw [List.append_assoc]
    rfl
  · have hspecial : isSpecial c = false := by simp [isSpecial, hb, hq]
    rw [hspecial]
    exact serverLines_plain eol cr _ _ hb hn hr

/-- No text is written as the line that ends the data. -/
theorem doubled_ne_endMarker (text : List UInt8) : doubled isSpecial text ≠ endMarker := by
  intro h
  cases text with
  | nil => exact absurd h (by decide)
  | cons c text =>
    rw [doubled_cons] at h
    by_cases hc : isSpecial c = true
    · rw [if_pos hc] at h
      simp only [List.cons_append, endMarker, List.cons.injEq] at h
      exact absurd (h.1.symm.trans h.2.1) (by decide)
    · rw [if_neg hc] at h
      simp only [List.cons_append, endMarker, List.cons.injEq] at h
      obtain ⟨rfl, -⟩ := h
      exact hc (by decide)

theorem endLine_doubled (line : List UInt8) (lines : Option (List (List UInt8))) :
    endLine (doubled isSpecial line) lines = lines.map (List.cons (doubled isSpecial line)) :=
  if_neg (doubled_ne_endMarker line)

/-- The first line of what is written for a text. -/
theorem copyLines_doubled_append {line : List UInt8} (hline : newline ∉ line) (text : List UInt8) :
    copyLines (doubled isSpecial (line ++ newline :: text)) =
      doubled isSpecial line :: copyLines (doubled isSpecial text) := by
  rw [copyLines, copyLines, splitUnescaped_doubled (by decide) (by decide),
    splitUnescaped_doubled (by decide) (by decide), splitOn_append_sep,
    splitOn_eq_singleton_iff.mpr ⟨hline, rfl⟩, List.singleton_append, List.map_cons]
  cases hsplit : text.splitOn newline with
  | nil => exact absurd hsplit (List.splitOnP_ne_nil _ _)
  | cons field fields =>
    simp only [List.map_cons, List.getLast?_cons_cons, List.dropLast_cons_cons]
    split_ifs <;> rfl

/-- Without carriage returns the server reads the lines of the text. -/
theorem serverLines_doubled {text : List UInt8} (hr : carriageReturn ∉ text) {eol : Option Eol}
    (heol : eol = none ∨ eol = some .nl) {line : List UInt8} (hline : newline ∉ line) :
    serverLines eol false (doubled isSpecial line) (doubled isSpecial text) =
      some (copyLines (doubled isSpecial (line ++ text))) := by
  -- the line that was read is a line without a newline before the text
  induction text generalizing eol line with
  | nil =>
    rw [List.append_nil, copyLines, splitUnescaped_doubled (by decide) (by decide),
      splitOn_eq_singleton_iff.mpr ⟨hline, rfl⟩]
    refine congrArg some ?_
    simp [doubled_ne_endMarker]
  | cons c text ih =>
    rw [List.mem_cons, not_or] at hr
    obtain ⟨hc, hr⟩ := hr
    by_cases hn : c = newline
    · subst hn
      refine (serverLines_newline eol false _ _).trans ?_
      rw [if_pos (by simpa using heol), endLine_doubled, copyLines_doubled_append hline]
      exact congrArg _ (ih hr (Or.inr rfl) List.not_mem_nil)
    · rw [serverLines_doubled_cons hn (Ne.symm hc), ih hr heol, List.append_assoc]
      · rfl
      · simpa [Ne.symm hn] using hline

/-- No line that the server reads from what is written for a text has a carriage return. -/
theorem not_mem_of_serverLines {text : List UInt8} {eol : Option Eol} {cr : Bool}
    {line : List UInt8} {lines : List (List UInt8)} (hline : carriageReturn ∉ line)
    (h : serverLines eol cr (doubled isSpecial line) (doubled isSpecial text) = some lines) :
    ∀ l ∈ lines, ∃ l', l = doubled isSpecial l' ∧ carriageReturn ∉ l' := by
  induction text generalizing eol cr line lines with
  | nil =>
    obtain rfl := Option.some.inj h
    intro l hl
    split_ifs at hl
    · cases hl
    · exact ⟨line, List.mem_singleton.mp hl, hline⟩
  | cons c text ih =>
    -- the line ends here, and the others follow
    have hend : ∀ {eol' : Option Eol}, endLine (doubled isSpecial line)
        (serverLines eol' false [] (doubled isSpecial text)) = some lines →
        ∀ l ∈ lines, ∃ l', l = doubled isSpecial l' ∧ carriageReturn ∉ l' := by
      intro eol' hrest
      rw [endLine_doubled] at hrest
      obtain ⟨lines', hlines', rfl⟩ := Option.map_eq_some_iff.mp hrest
      exact List.forall_mem_cons.mpr ⟨⟨line, rfl, hline⟩, ih List.not_mem_nil hlines'⟩
    by_cases hn : c = newline
    · subst hn
      replace h := (serverLines_newline eol cr _ _).symm.trans h
      split_ifs at h
      all_goals exact hend h
    by_cases hr : c = carriageReturn
    · subst hr
      replace h := (serverLines_cr eol cr _ _).symm.trans h
      split_ifs at h
      · exact ih hline h
      · exact hend h
    · rw [serverLines_doubled_cons hn hr] at h
      exact ih (by simpa [Ne.symm hr] using hline) h

/-- No value that the server reads from what is written for a text has a carriage return. -/
theorem not_mem_of_serverRows {text : List UInt8} {rows : List (List (Option (List UInt8)))}
    (h : serverRows (doubled isSpecial text) = some rows) :
    ∀ row ∈ rows, ∀ value ∈ row, ∀ bytes ∈ value, carriageReturn ∉ bytes := by
  obtain ⟨lines, hlines, rfl⟩ := Option.map_eq_some_iff.mp h
  intro row hrow value hvalue bytes hbytes hmem
  obtain ⟨l, hl, rfl⟩ := List.mem_map.mp hrow
  obtain ⟨line, rfl, hline⟩ := not_mem_of_serverLines List.not_mem_nil hlines l hl
  rw [splitUnescaped_doubled (by decide) (by decide), List.map_map] at hvalue
  obtain ⟨field, hfield, rfl⟩ := List.mem_map.mp hvalue
  rw [Function.comp_apply, copyValue_doubled] at hbytes
  obtain rfl := Option.some.inj hbytes
  -- a byte of a field is a byte of the line
  obtain ⟨c, hc, hmem⟩ := List.mem_flatMap.mp hmem
  obtain rfl : carriageReturn = c := by
    split at hmem <;> simpa using hmem
  exact hline (mem_of_mem_splitOn hfield hc)

/-- Without carriage returns the server reads the rows of the text. -/
theorem serverRows_doubled {text : List UInt8} (hr : carriageReturn ∉ text) :
    serverRows (doubled isSpecial text) = some (copyRows (doubled isSpecial text)) :=
  congrArg _ (serverLines_doubled hr (Or.inl rfl) List.not_mem_nil)

/-- The server reads one row with one value, and the value is the text, exactly if the text has no
quote, no tab, no newline and no carriage return. -/
theorem serverRows_doubled_eq_iff (text : List UInt8) :
    serverRows (doubled isSpecial text ++ [newline]) = some [[some text]] ↔
      ∀ c ∈ text, c ≠ quote ∧ c ≠ tab ∧ c ≠ newline ∧ c ≠ carriageReturn := by
  have henc : doubled isSpecial text ++ [newline] = doubled isSpecial (text ++ [newline]) := by
    rw [doubled_append]
    rfl
  have hread : carriageReturn ∉ text → serverRows (doubled isSpecial text ++ [newline]) =
      some (copyRows (doubled isSpecial text ++ [newline])) := by
    intro hr
    rw [henc]
    exact serverRows_doubled (by simpa using ⟨hr, by decide⟩)
  constructor
  · intro h c hc
    have hr : carriageReturn ∉ text :=
      not_mem_of_serverRows (henc ▸ h) [some text] (by simp) (some text) (by simp) text rfl
    rw [hread hr, Option.some_inj, copyRows_doubled_eq_iff] at h
    obtain ⟨hquote, htab, hnewline⟩ := h c hc
    exact ⟨hquote, htab, hnewline, ne_of_mem_of_not_mem hc hr⟩
  · intro h
    have hr : carriageReturn ∉ text := fun hmem => (h _ hmem).2.2.2 rfl
    rw [hread hr, (copyRows_doubled_eq_iff text).mpr]
    exact fun c hc => ⟨(h c hc).1, (h c hc).2.1, (h c hc).2.2.1⟩

/-! ### What the producer writes -/

theorem strlen_eq_length {s : List UInt8} (h : ∀ c ∈ s, c ≠ 0) : strlen s = s.length := by
  rw [strlen, List.takeWhile_eq_self_iff.mpr]
  simpa using h

theorem doubled_ne_zero {text : List UInt8} (h : ∀ c ∈ text, c ≠ 0) :
    ∀ c ∈ doubled isSpecial text, c ≠ 0 := by
  intro c hc
  obtain ⟨a, ha, hca⟩ := List.mem_flatMap.mp hc
  have : c = a := by
    split at hca <;> simpa using hca
  exact this ▸ h a ha

/-- The row of a literal is the text between the quotes and a newline. -/
theorem literalRow_escapeLiteral {text : List UInt8} (h : ∀ c ∈ text, c ≠ 0) :
    literalRow (escapeLiteral text) = some [doubled isSpecial text, [newline]] := by
  have hzero := doubled_ne_zero h
  have hlen : strlen (escapeLiteral text) = (escapeLiteral text).length := by
    refine strlen_eq_length fun c hc => ?_
    rw [escapeLiteral, List.mem_append, List.mem_cons, List.mem_append, List.mem_singleton] at hc
    rcases hc with hc | rfl | hc | rfl
    · split at hc
      · rcases List.mem_pair.mp hc with rfl | rfl <;> decide
      · cases hc
    · decide
    · exact hzero c hc
    · decide
  by_cases hb : backslash ∈ text
  · rw [literalRow, hlen]
    simp [escapeLiteral, hb]
  · rw [literalRow, hlen]
    simp [escapeLiteral, hb, quote]

/-- The text that goes to the stream has no null byte. -/
theorem sanitizedText_ne_zero {bytes text : List UInt8} (h : sanitizedText bytes = some text) :
    ∀ c ∈ text, c ≠ 0 := by
  rw [sanitizedText] at h
  split at h
  · cases h
  · rename_i hret
    obtain rfl := Option.some.inj h
    exact sanitizeUtf8_ne_zero hret

/-- The row of an accepted message in a text format. -/
theorem postgresVerdict_eq_row {pq : Libpq} {fmt : Format} {p : Payload} {row : Row}
    (hfmt : fmt ≠ .binary) (h : postgresVerdict pq fmt p = some (.row row ())) :
    ∃ text, sanitizedText p.bytes = some text ∧ row = [doubled isSpecial text, [newline]] := by
  rw [postgresVerdict, if_neg hfmt] at h
  split at h
  · cases h
  split at h
  · cases h
  rename_i text htext
  split at h
  · cases h
  rename_i lit hlit
  refine ⟨text, htext, ?_⟩
  rw [pq.escape_spec text lit hlit, literalRow_escapeLiteral (sanitizedText_ne_zero htext)] at h
  simpa using h.symm

/-- A message of one quote puts two quotes on the stream, and two quotes are read from it. -/
theorem quote_is_doubled :
    (exec (CopyState.step (postgresConf .total .json "COPY" false)) (.init ())
        [.produce ⟨[quote], 0⟩ (true, true)]).map CopyState.master =
      some [.command "COPY", .data [quote, quote], .data [newline]] ∧
    sanitizedText [quote] = some [quote] ∧
    copyRows [quote, quote, newline] = [[some [quote, quote]]] := by
  decide

/-- In the json format, an accepted message is read from the stream as one row whose only value is
the sanitised payload exactly if the sanitised payload has no quote, no tab and no newline; the
server, for which a carriage return ends a line too, reads it so exactly if the sanitised payload
has none of the four. -/
theorem copy_text_lossless_iff (pq : Libpq) (p : Payload) (row : Row)
    (h : postgresVerdict pq .json p = some (.row row ())) :
    ∃ text, sanitizedText p.bytes = some text ∧
      (copyRows row.flatten = [[some text]] ↔ ∀ c ∈ text, c ≠ quote ∧ c ≠ tab ∧ c ≠ newline) ∧
      (serverRows row.flatten = some [[some text]] ↔
        ∀ c ∈ text, c ≠ quote ∧ c ≠ tab ∧ c ≠ newline ∧ c ≠ carriageReturn) := by
  obtain ⟨text, htext, rfl⟩ := postgresVerdict_eq_row (by decide) h
  refine ⟨text, htext, ?_⟩
  rw [show [doubled isSpecial text, [newline]].flatten =
    doubled isSpecial text ++ [newline] by simp]
  exact ⟨copyRows_doubled_eq_iff text, serverRows_doubled_eq_iff text⟩

/-- The message `{"a\n":1}`, in which the newline is escaped as JSON has it. -/
theorem copy_text_lossless_json_object :
    postgresVerdict .total .json ⟨[123, 34, 97, 92, 110, 34, 58, 49, 125], 0⟩ =
      some (.row [[123, 34, 97, 92, 92, 110, 34, 58, 49, 125], [newline]] ()) ∧
    ∃ text, sanitizedText [123, 34, 97, 92, 110, 34, 58, 49, 125] = some text ∧
      (copyRows [[123, 34, 97, 92, 92, 110, 34, 58, 49, 125], [newline]].flatten = [[some text]] ↔
        ∀ c ∈ text, c ≠ quote ∧ c ≠ tab ∧ c ≠ newline) ∧
      (serverRows [[123, 34, 97, 92, 92, 110, 34, 58, 49, 125], [newline]].flatten =
          some [[some text]] ↔
        ∀ c ∈ text, c ≠ quote ∧ c ≠ tab ∧ c ≠ newline ∧ c ≠ carriageReturn) :=
  ⟨by decide, copy_text_lossless_iff .total ⟨[123, 34, 97, 92, 110, 34, 58, 49, 125], 0⟩ _
    (by decide)⟩

end Schaufel
