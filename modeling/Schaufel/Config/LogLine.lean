import Mathlib.Algebra.Order.Ring.Nat
import Schaufel.Foundation.CString

/-!
# The lines of the log

`logger_log` of `src/utils/logger.c` puts a timestamp and a formatted text into a buffer of
`LOG_BUFFER_SIZE + 2` bytes, a newline and a null byte behind them, and hands the buffer to the
sink; `log_fd` writes all of it but the null byte.

`vsnprintf` returns the length that the text would have had.  A line of `LOG_BUFFER_SIZE - 1` bytes
fits.  Of a longer one `vsnprintf` writes `LOG_BUFFER_SIZE - 1` bytes and a null byte, but the
newline is put at the position `LOG_BUFFER_SIZE`, one behind that null byte, which is so written to
the log.

## Main results

* `loggerLog_isSome_iff`: nothing is written outside of the buffer, as long as the lengths are an
  `int`.
* `log_line_iff`: the line is well-formed exactly if it fits.
-/

namespace Schaufel

/-- `LOG_BUFFER_SIZE` of `src/utils/logger.h`. -/
def logBufferSize : Nat := 4096

/-- `log_buffer`. -/
structure LogBuffer where
  bytes : List UInt8
  length_bytes : bytes.length = logBufferSize + 2

/-- A text without a null byte that `vsnprintf` can format: its length is an `int`. -/
structure LogText where
  bytes : List UInt8
  noNul : 0 ∉ bytes
  length_lt : bytes.length < 2 ^ 31

/-- What `strftime` has put into the buffer: there is room for a null byte behind it. -/
structure LogStamp where
  bytes : List UInt8
  noNul : 0 ∉ bytes
  length_lt : bytes.length < logBufferSize

namespace LogBuffer

/-- Bytes are written to a position; `none` if they do not lie inside the buffer. -/
def store (buf : LogBuffer) (pos : Nat) (new : List UInt8) : Option LogBuffer :=
  if h : pos + new.length ≤ logBufferSize + 2 then
    some ⟨buf.bytes.take pos ++ new ++ buf.bytes.drop (pos + new.length), by
      have := buf.length_bytes
      simp only [List.length_append, List.length_take, List.length_drop]
      omega⟩
  else none

/-- `buffer_set_timestamp`: the buffer, and the length of the timestamp.  There is none if the
logger has no timestamps, or if `strftime` had no room for it; what it leaves in the buffer then is
as good as anything. -/
def setTimestamp (buf : LogBuffer) : Option LogStamp → Option (LogBuffer × Nat)
  | none => (buf.store 0 [0]).map fun buf => (buf, 0)
  | some stamp => (buf.store 0 (stamp.bytes ++ [0])).map fun buf => (buf, stamp.bytes.length)

/-- `vsnprintf` to a position of the buffer: the buffer, and the length that the text has. -/
def vsnprintf (buf : LogBuffer) (pos size : Nat) (text : LogText) : Option (LogBuffer × Nat) :=
  if size = 0 then some (buf, text.bytes.length)
  else (buf.store pos (text.bytes.take (size - 1) ++ [0])).map fun buf => (buf, text.bytes.length)

end LogBuffer

/-- `logger_log`: the buffer and the length that the sink gets.  It is `none` if a byte is written
outside of the buffer, or if the sum of the lengths is no `int`, of which C says nothing. -/
def loggerLog (buf : LogBuffer) (stamp : Option LogStamp) (text : LogText) :
    Option (LogBuffer × Nat) := do
  let (buf, len) ← buf.setTimestamp stamp
  let (buf, n) ← buf.vsnprintf len (logBufferSize - len) text
  let len := len + n
  if 2 ^ 31 ≤ len then none
  else
    let len := if len > logBufferSize then logBufferSize else len
    let buf ← buf.store len [10]
    let buf ← buf.store (len + 1) [0]
    some (buf, len + 2)

/-- `log_fd`: the bytes that are written to the file. -/
def logFd (buf : LogBuffer) (len : Nat) : List UInt8 :=
  let len := if len > logBufferSize + 2 then logBufferSize + 2 else len
  buf.bytes.take (len - 1)

/-! ### What is in the buffer -/

/-- The bytes of a timestamp. -/
def stampBytes (stamp : Option LogStamp) : List UInt8 := stamp.elim [] LogStamp.bytes

/-- The timestamp and the text. -/
def logLine (stamp : Option LogStamp) (text : LogText) : List UInt8 :=
  stampBytes stamp ++ text.bytes

namespace LogBuffer

/-- What is written behind the first bytes of the buffer is there, and they are still there. -/
theorem exists_store {buf : LogBuffer} {l : List UInt8} (h : l <+: buf.bytes) {new : List UInt8}
    (hle : l.length + new.length ≤ logBufferSize + 2) :
    ∃ buf', buf.store l.length new = some buf' ∧ l ++ new <+: buf'.bytes := by
  have hl := List.prefix_iff_eq_take.mp h
  rw [store, dif_pos hle]
  refine ⟨_, rfl, buf.bytes.drop (l.length + new.length), ?_⟩
  show l ++ new ++ buf.bytes.drop (l.length + new.length) =
    buf.bytes.take l.length ++ new ++ buf.bytes.drop (l.length + new.length)
  rw [← hl]

theorem exists_setTimestamp (buf : LogBuffer) (stamp : Option LogStamp) :
    ∃ buf', buf.setTimestamp stamp = some (buf', (stampBytes stamp).length) ∧
      stampBytes stamp <+: buf'.bytes := by
  have hnil : [] <+: buf.bytes := List.nil_prefix
  cases stamp with
  | none =>
    obtain ⟨buf', hstore, -⟩ :=
      exists_store hnil (show [].length + [(0 : UInt8)].length ≤ _ by decide)
    refine ⟨buf', ?_, List.nil_prefix⟩
    rw [setTimestamp, show (0 : Nat) = ([] : List UInt8).length from rfl, hstore]
    rfl
  | some stamp =>
    have hlt := stamp.length_lt
    have hle : ([] : List UInt8).length + (stamp.bytes ++ [0]).length ≤ logBufferSize + 2 := by
      simp only [List.length_append, List.length_singleton, List.length_nil]
      omega
    obtain ⟨buf', hstore, hbytes⟩ := exists_store hnil hle
    refine ⟨buf', ?_, (List.prefix_append _ _).trans hbytes⟩
    rw [setTimestamp, show (0 : Nat) = ([] : List UInt8).length from rfl, hstore]
    rfl

theorem length_stampBytes_lt (stamp : Option LogStamp) :
    (stampBytes stamp).length < logBufferSize := by
  cases stamp with
  | none => decide
  | some stamp => exact stamp.length_lt

/-- `vsnprintf` leaves as much of the line as fits, and a null byte. -/
theorem exists_vsnprintf {buf : LogBuffer} {stamp : Option LogStamp}
    (h : stampBytes stamp <+: buf.bytes) (text : LogText) :
    ∃ buf',
      buf.vsnprintf (stampBytes stamp).length (logBufferSize - (stampBytes stamp).length) text =
        some (buf', text.bytes.length) ∧
      (logLine stamp text).take (logBufferSize - 1) ++ [0] <+: buf'.bytes := by
  have hlt := length_stampBytes_lt stamp
  have htake : (logLine stamp text).take (logBufferSize - 1) =
      stampBytes stamp ++ text.bytes.take (logBufferSize - (stampBytes stamp).length - 1) := by
    rw [logLine, List.take_append, List.take_of_length_le (by omega), Nat.sub_right_comm]
  have hle : (stampBytes stamp).length +
      (text.bytes.take (logBufferSize - (stampBytes stamp).length - 1) ++ [0]).length ≤
        logBufferSize + 2 := by
    simp only [List.length_append, List.length_take, List.length_singleton]
    omega
  obtain ⟨buf', hstore, hbytes⟩ := exists_store h hle
  refine ⟨buf', ?_, ?_⟩
  · rw [vsnprintf, if_neg (by omega), hstore]
    rfl
  · rw [htake, List.append_assoc]
    exact hbytes

/-- The newline and the null byte behind the first bytes of the buffer. -/
theorem exists_finish {buf : LogBuffer} {l : List UInt8} (h : l <+: buf.bytes)
    (hle : l.length ≤ logBufferSize) :
    ∃ buf₁ buf₂, buf.store l.length [10] = some buf₁ ∧ buf₁.store (l.length + 1) [0] = some buf₂ ∧
      logFd buf₂ (l.length + 2) = l ++ [10] := by
  obtain ⟨buf₁, hstore₁, hbytes₁⟩ :=
    exists_store h (show _ + [(10 : UInt8)].length ≤ _ by simp; omega)
  obtain ⟨buf₂, hstore₂, hbytes₂⟩ :=
    exists_store hbytes₁ (show _ + [(0 : UInt8)].length ≤ _ by simp; omega)
  refine ⟨buf₁, buf₂, hstore₁, by simpa using hstore₂, ?_⟩
  have hprefix : l ++ [10] <+: buf₂.bytes := (List.prefix_append _ _).trans hbytes₂
  rw [logFd, if_neg (by omega), List.prefix_iff_eq_take.mp hprefix]
  simp

end LogBuffer

variable (buf : LogBuffer) (stamp : Option LogStamp) (text : LogText)

variable {stamp text} in
/-- The newline is put behind `l`, the bytes in the buffer up to the length of the line or of the
buffer. -/
theorem exists_loggerLog {l : List UInt8}
    (hl : l <+: (logLine stamp text).take (logBufferSize - 1) ++ [0])
    (hlength : l.length = min (logLine stamp text).length logBufferSize)
    (hint : (logLine stamp text).length < 2 ^ 31) :
    ∃ buf', loggerLog buf stamp text = some (buf', l.length + 2) ∧
      logFd buf' (l.length + 2) = l ++ [10] := by
  obtain ⟨buf₁, hstamp, hbytes⟩ := buf.exists_setTimestamp stamp
  obtain ⟨buf₂, htext, hbytes₂⟩ := LogBuffer.exists_vsnprintf hbytes text
  obtain ⟨buf₃, buf₄, hnewline, hnull, hline⟩ :=
    LogBuffer.exists_finish (hl.trans hbytes₂) (by omega)
  refine ⟨buf₄, ?_, hline⟩
  have hsum : (stampBytes stamp).length + text.bytes.length = (logLine stamp text).length := by
    rw [logLine, List.length_append]
  have hclamp : (if (logLine stamp text).length > logBufferSize then logBufferSize
      else (logLine stamp text).length) = l.length := by
    split_ifs <;> omega
  simp only [loggerLog, hstamp, htext, Option.bind_eq_bind, Option.bind_some, hsum, hclamp,
    hnewline, hnull]
  rw [if_neg (by omega)]

/-- A line that fits is written as it is. -/
theorem loggerLog_of_fits (h : (logLine stamp text).length < logBufferSize) :
    ∃ buf', loggerLog buf stamp text = some (buf', (logLine stamp text).length + 2) ∧
      logFd buf' ((logLine stamp text).length + 2) = logLine stamp text ++ [10] := by
  apply exists_loggerLog
  · rw [List.take_of_length_le (by omega)]
    exact List.prefix_append _ _
  · omega
  · exact Nat.lt_trans h (by decide)

/-- Of a line that is too long the null byte of `vsnprintf` is written as well. -/
theorem loggerLog_of_long (h : logBufferSize ≤ (logLine stamp text).length)
    (hint : (logLine stamp text).length < 2 ^ 31) :
    ∃ buf', loggerLog buf stamp text = some (buf', logBufferSize + 2) ∧
      logFd buf' (logBufferSize + 2) =
        (logLine stamp text).take (logBufferSize - 1) ++ [0] ++ [10] := by
  have hsize : 0 < logBufferSize := by decide
  have hlength : ((logLine stamp text).take (logBufferSize - 1) ++ [0]).length = logBufferSize := by
    rw [List.length_append, List.length_take, List.length_singleton]
    omega
  have hline := exists_loggerLog buf (List.prefix_refl _) (by rw [hlength]; omega) hint
  rwa [hlength] at hline

/-- Without an overflow every byte is written inside the buffer. -/
theorem loggerLog_isSome_iff :
    (loggerLog buf stamp text).isSome = true ↔ (logLine stamp text).length < 2 ^ 31 := by
  constructor
  · intro h
    by_contra hge
    obtain ⟨buf₁, hstamp, hbytes⟩ := buf.exists_setTimestamp stamp
    obtain ⟨buf₂, htext, -⟩ := LogBuffer.exists_vsnprintf hbytes text
    rw [logLine, List.length_append, Nat.not_lt] at hge
    simp only [loggerLog, hstamp, htext, bind, Option.bind_some, if_pos hge] at h
    cases h
  · intro hint
    rcases Nat.lt_or_ge (logLine stamp text).length logBufferSize with hfits | hlong
    · obtain ⟨buf', hlog, -⟩ := loggerLog_of_fits buf stamp text hfits
      rw [hlog]
      rfl
    · obtain ⟨buf', hlog, -⟩ := loggerLog_of_long buf stamp text hlong hint
      rw [hlog]
      rfl

/-! ### Well-formed lines -/

/-- Every byte is written inside the buffer, and the log gets a beginning of the line, all of it if
it fits, with one newline behind it and without null bytes. -/
def LineWellFormed : Prop :=
  ∃ buf' len start, loggerLog buf stamp text = some (buf', len) ∧ logFd buf' len = start ++ [10] ∧
    start <+: logLine stamp text ∧ 0 ∉ logFd buf' len ∧
      ((logLine stamp text).length ≤ logBufferSize - 1 → start = logLine stamp text)

theorem noNul_logLine : 0 ∉ logLine stamp text := by
  rw [logLine, List.mem_append, not_or]
  refine ⟨?_, text.noNul⟩
  cases stamp with
  | none => exact List.not_mem_nil
  | some stamp => exact stamp.noNul

theorem not_lineWellFormed_of_long (h : logBufferSize ≤ (logLine stamp text).length) :
    ¬ LineWellFormed buf stamp text := by
  rintro ⟨buf', len, start, hlog, -, -, hnul, -⟩
  have hint : (logLine stamp text).length < 2 ^ 31 := by
    rw [← loggerLog_isSome_iff buf, hlog]
    rfl
  obtain ⟨buf'', hlog', hline⟩ := loggerLog_of_long buf stamp text h hint
  rw [hlog] at hlog'
  obtain ⟨rfl, rfl⟩ := Prod.mk.inj (Option.some.inj hlog')
  apply hnul
  rw [hline]
  simp

/-- A line is well-formed in the log exactly if it fits. -/
theorem log_line_iff :
    LineWellFormed buf stamp text ↔ (logLine stamp text).length ≤ logBufferSize - 1 := by
  have hsize : 0 < logBufferSize := by decide
  constructor
  · intro hline
    by_contra hlong
    exact not_lineWellFormed_of_long buf stamp text (by omega) hline
  · intro hfits
    obtain ⟨buf', hlog, hline⟩ := loggerLog_of_fits buf stamp text (by omega)
    refine ⟨buf', _, logLine stamp text, hlog, hline, List.prefix_refl _, ?_, fun _ => rfl⟩
    rw [hline, List.mem_append, not_or]
    exact ⟨noNul_logLine stamp text, by decide⟩

/-- A text of some bytes. -/
def repeated (n : Nat) (h : n < 2 ^ 31) : LogText :=
  ⟨List.replicate n 97, fun hmem => absurd (List.eq_of_mem_replicate hmem) (by decide), by
    rwa [List.length_replicate]⟩

/-- An empty buffer. -/
def LogBuffer.zeros : LogBuffer := ⟨List.replicate (logBufferSize + 2) 0, List.length_replicate⟩

theorem logLine_repeated {n : Nat} (h : n < 2 ^ 31) :
    logLine none (repeated n h) = List.replicate n 97 := rfl

/-- A text of 4096 bytes is written with a null byte before the newline. -/
theorem long_line_has_null :
    (∃ buf', loggerLog .zeros none (repeated 4096 (by decide)) = some (buf', 4098) ∧
      logFd buf' 4098 = List.replicate 4095 97 ++ [0] ++ [10]) ∧
    ¬ LineWellFormed .zeros none (repeated 4096 (by decide)) := by
  have hlength : (logLine none (repeated 4096 (by decide))).length = logBufferSize := by
    rw [logLine_repeated, List.length_replicate]
    rfl
  refine ⟨?_, not_lineWellFormed_of_long _ _ _ (Nat.le_of_eq hlength.symm)⟩
  obtain ⟨buf', hlog, hline⟩ :=
    loggerLog_of_long .zeros none (repeated 4096 (by decide)) (Nat.le_of_eq hlength.symm)
      (by rw [hlength]; decide)
  rw [logLine_repeated, List.take_replicate] at hline
  exact ⟨buf', hlog, hline⟩

end Schaufel
