import Schaufel.Foundation.Utf8

/-!
# The sanitising passes of `src/utils/helper.c`

Before a payload goes to PostgreSQL, `repair_null_escape` overwrites every `\u0000` of the string
with question marks, and `sanitize_utf8` overwrites every byte that is not part of a well-formed
UTF-8 sequence.  Both work in place and from left to right, and never look at a byte they have
passed, so they are recursions along the list of bytes; a counter stands for the bytes of a match or
of a sequence that are still to be passed.
-/

namespace Schaufel

/-- `'?'`. -/
def questionMark : UInt8 := 63

/-! ### `repair_null_escape` -/

/-- The six characters `\u0000`. -/
def nullEscape : List UInt8 := [92, 117, 48, 48, 48, 48]

/-- The loop of `repair_null_escape`; `pending` bytes of a match are still to be overwritten.  A
null byte ends the string, and so does the end of the list, behind which the terminator is. -/
def repairNullEscapeLoop : Nat → List UInt8 → Bool × List UInt8
  | _, [] => (false, [])
  | pending + 1, _ :: rest =>
    let r := repairNullEscapeLoop pending rest
    (r.1, questionMark :: r.2)
  | 0, c :: rest =>
    if c = 0 then (false, c :: rest)
    else if nullEscape.isPrefixOf (c :: rest) then
      (true, questionMark :: (repairNullEscapeLoop 5 rest).2)
    else
      let r := repairNullEscapeLoop 0 rest
      (r.1, c :: r.2)

/-- `repair_null_escape`: whether anything was replaced, and the buffer afterwards. -/
def repairNullEscape (buf : List UInt8) : Bool × List UInt8 := repairNullEscapeLoop 0 buf

/-! ### `sanitize_utf8` -/

/-- The length of the sequence a lead byte announces, 0 for a byte that leads no sequence. -/
def seqlen (c₀ : UInt8) : Nat :=
  if c₀ &&& 0xE0 = 0xC0 then 2
  else if c₀ &&& 0xF0 = 0xE0 then 3
  else if c₀ &&& 0xF8 = 0xF0 then 4
  else 0

/-- A continuation byte. -/
def isContinuation (c : UInt8) : Bool := c &&& 0xC0 = 0x80

/-- The variable `valid`: the lead byte `c₀` and the bytes behind it start with a well-formed
sequence of more than one byte. -/
def validSequence (c₀ : UInt8) (rest : List UInt8) : Bool :=
  let c₁ := rest.getD 0 0
  let c₂ := rest.getD 1 0
  let c₃ := rest.getD 2 0
  2 ≤ seqlen c₀ && seqlen c₀ ≤ rest.length + 1 && isContinuation c₁ &&
    match seqlen c₀ with
    | 2 => c₀ ≥ 0xC2
    | 3 => isContinuation c₂ && !(c₀ = 0xE0 && c₁ < 0xA0) && !(c₀ = 0xED && c₁ > 0x9F)
    | 4 => isContinuation c₂ && isContinuation c₃ && c₀ ≤ 0xF4 && !(c₀ = 0xF0 && c₁ < 0x90) &&
        !(c₀ = 0xF4 && c₁ > 0x8F)
    | _ => true

/-- The loop of `sanitize_utf8`; `pending` bytes of a well-formed sequence are still to be
passed. -/
def sanitizeUtf8Loop : Nat → List UInt8 → Bool → Int × List UInt8
  | _, [], dirty => (if dirty then 1 else 0, [])
  | pending + 1, c :: rest, dirty =>
    let r := sanitizeUtf8Loop pending rest dirty
    (r.1, c :: r.2)
  | 0, c₀ :: rest, dirty =>
    if c₀ = 0 then (-1, c₀ :: rest)
    else if c₀ < 0x80 then
      let r := sanitizeUtf8Loop 0 rest dirty
      (r.1, c₀ :: r.2)
    else if validSequence c₀ rest then
      let r := sanitizeUtf8Loop (seqlen c₀ - 1) rest dirty
      (r.1, c₀ :: r.2)
    else
      let r := sanitizeUtf8Loop 0 rest true
      (r.1, questionMark :: r.2)

/-- `sanitize_utf8`: the return value and the buffer afterwards. -/
def sanitizeUtf8 (buf : List UInt8) : Int × List UInt8 := sanitizeUtf8Loop 0 buf false

/-! ### Well-formed sequences -/

theorem isContinuation_ne_zero {c : UInt8} (h : isContinuation c = true) : c ≠ 0 := by
  rintro rfl
  simp [isContinuation] at h

theorem seqlen_cases (c₀ : UInt8) :
    seqlen c₀ = 0 ∨ seqlen c₀ = 2 ∨ seqlen c₀ = 3 ∨ seqlen c₀ = 4 := by
  unfold seqlen
  split_ifs <;> simp

/-- What holds of the 256 byte values holds of every byte. -/
theorem forall_byte {P : UInt8 → Prop} (h : ∀ n < 256, P (UInt8.ofNat n)) (c : UInt8) : P c := by
  have hc := h c.toNat c.toNat_lt
  rwa [UInt8.ofNat_toNat] at hc

theorem isContinuation_iff (c : UInt8) : isContinuation c = true ↔ Utf8.Tail c := by
  refine forall_byte (P := fun c => isContinuation c = true ↔ 0x80 ≤ c.toNat ∧ c.toNat ≤ 0xBF) ?_ c
  decide +kernel

/-- The masks of `sanitize_utf8` as ranges. -/
theorem seqlen_eq (c₀ : UInt8) :
    seqlen c₀ = if c₀.toNat < 0xC0 then 0 else if c₀.toNat < 0xE0 then 2
      else if c₀.toNat < 0xF0 then 3 else if c₀.toNat < 0xF8 then 4 else 0 := by
  refine forall_byte (P := fun c₀ => seqlen c₀ =
    if c₀.toNat < 0xC0 then 0 else if c₀.toNat < 0xE0 then 2
    else if c₀.toNat < 0xF0 then 3 else if c₀.toNat < 0xF8 then 4 else 0) ?_ c₀
  decide +kernel

/-- The checks of a sequence of two bytes are its line in the table. -/
theorem validSequence_two {c₀ : UInt8} (h : seqlen c₀ = 2) (c₁ : UInt8) (after : List UInt8) :
    validSequence c₀ (c₁ :: after) = true ↔ Utf8.Table [c₀, c₁] := by
  have hlead : c₀.toNat ≤ 0xDF := by
    rw [seqlen_eq] at h
    split_ifs at h <;> omega
  simp only [validSequence, h, Utf8.Table, isContinuation_iff, UInt8.le_iff_toNat_le,
    List.getD_cons_zero, List.length_cons, Bool.and_eq_true, decide_eq_true_eq]
  have hlength : 2 ≤ after.length + 1 + 1 := by omega
  tauto

/-- The checks of a sequence of three bytes are its line in the table. -/
theorem validSequence_three {c₀ : UInt8} (h : seqlen c₀ = 3) (c₁ c₂ : UInt8) (after : List UInt8) :
    validSequence c₀ (c₁ :: c₂ :: after) = true ↔ Utf8.Table [c₀, c₁, c₂] := by
  have hlead : 0xE0 ≤ c₀.toNat ∧ c₀.toNat ≤ 0xEF := by
    rw [seqlen_eq] at h
    split_ifs at h <;> omega
  simp [validSequence, h, Utf8.Table, isContinuation_iff, UInt8.lt_iff_toNat_lt, ← UInt8.toNat_inj]
  tauto

/-- The checks of a sequence of four bytes are its line in the table. -/
theorem validSequence_four {c₀ : UInt8} (h : seqlen c₀ = 4) (c₁ c₂ c₃ : UInt8)
    (after : List UInt8) :
    validSequence c₀ (c₁ :: c₂ :: c₃ :: after) = true ↔ Utf8.Table [c₀, c₁, c₂, c₃] := by
  have hlead : 0xF0 ≤ c₀.toNat := by
    rw [seqlen_eq] at h
    split_ifs at h <;> omega
  simp [validSequence, h, Utf8.Table, isContinuation_iff, UInt8.le_iff_toNat_le,
    UInt8.lt_iff_toNat_lt, ← UInt8.toNat_inj]
  tauto

/-- A sequence that is accepted is well formed, and is as long as its lead byte announces. -/
theorem exists_of_validSequence {c₀ : UInt8} {rest : List UInt8}
    (h : validSequence c₀ rest = true) :
    ∃ tail after, rest = tail ++ after ∧ Utf8.Multibyte (c₀ :: tail) ∧
      tail.length = seqlen c₀ - 1 := by
  have hlength : 2 ≤ seqlen c₀ ∧ seqlen c₀ ≤ rest.length + 1 := by
    unfold validSequence at h
    simp only [Bool.and_eq_true, decide_eq_true_eq] at h
    exact h.1.1
  rcases seqlen_cases c₀ with hn | hn | hn | hn <;> rw [hn] at hlength ⊢
  · omega
  · match rest, hlength.2 with
    | c₁ :: after, _ =>
      have htable := (validSequence_two hn c₁ after).mp h
      exact ⟨[c₁], after, rfl, Utf8.multibyte_iff_table.mpr htable, rfl⟩
  · match rest, hlength.2 with
    | c₁ :: c₂ :: after, _ =>
      have htable := (validSequence_three hn c₁ c₂ after).mp h
      exact ⟨[c₁, c₂], after, rfl, Utf8.multibyte_iff_table.mpr htable, rfl⟩
  · match rest, hlength.2 with
    | c₁ :: c₂ :: c₃ :: after, _ =>
      have htable := (validSequence_four hn c₁ c₂ c₃ after).mp h
      exact ⟨[c₁, c₂, c₃], after, rfl, Utf8.multibyte_iff_table.mpr htable, rfl⟩

/-- The variable `valid` says whether a well-formed sequence starts here. -/
theorem validSequence_iff (c₀ : UInt8) (rest : List UInt8) :
    validSequence c₀ rest = true ↔ Utf8.Starts (c₀ :: rest) := by
  constructor
  · intro h
    obtain ⟨tail, after, rfl, hseq, -⟩ := exists_of_validSequence h
    exact ⟨c₀ :: tail, after, hseq, rfl⟩
  · rintro ⟨seq, after, hseq, heq⟩
    have htable := hseq.table
    match seq, htable with
    | [a, b], htable =>
      obtain ⟨rfl, rfl⟩ := List.cons.inj heq
      have hn : seqlen c₀ = 2 := by
        rw [seqlen_eq, if_neg (by have := htable.1; omega), if_pos (by have := htable.2.1; omega)]
      exact (validSequence_two hn b after).mpr htable
    | [a, b, c], htable =>
      obtain ⟨rfl, rfl⟩ := List.cons.inj heq
      have hn : seqlen c₀ = 3 := by
        have := htable.1
        rw [seqlen_eq, if_neg (by omega), if_neg (by omega), if_pos (by have := htable.2.1; omega)]
      exact (validSequence_three hn b c after).mpr htable
    | [a, b, c, d], htable =>
      obtain ⟨rfl, rfl⟩ := List.cons.inj heq
      have hn : seqlen c₀ = 4 := by
        have := htable.1
        rw [seqlen_eq, if_neg (by omega), if_neg (by omega), if_neg (by omega),
          if_pos (by have := htable.2.1; omega)]
      exact (validSequence_four hn b c d after).mpr htable

/-- The bytes of a well-formed sequence behind its lead byte are continuation bytes. -/
theorem isContinuation_of_validSequence {c₀ : UInt8} {rest : List UInt8}
    (h : validSequence c₀ rest = true) :
    ∀ c ∈ rest.take (seqlen c₀ - 1), isContinuation c = true := by
  obtain ⟨tail, after, rfl, hseq, hlength⟩ := exists_of_validSequence h
  rw [← hlength, List.take_left]
  intro c hc
  obtain ⟨_, _, heq, -, htail⟩ := hseq.exists_lead
  obtain ⟨-, rfl⟩ := List.cons.inj heq
  exact (isContinuation_iff c).mpr (htail c hc)

/-! ### What is left -/

/-- Unless `sanitize_utf8` refuses the buffer, it leaves no null byte. -/
theorem sanitizeUtf8Loop_ne_zero {pending : Nat} {buf : List UInt8} {dirty : Bool}
    (hpending : ∀ c ∈ buf.take pending, c ≠ 0)
    (h : (sanitizeUtf8Loop pending buf dirty).1 ≠ -1) :
    ∀ c ∈ (sanitizeUtf8Loop pending buf dirty).2, c ≠ 0 := by
  induction buf generalizing pending dirty with
  | nil => simp [sanitizeUtf8Loop]
  | cons c₀ rest ih =>
    cases pending with
    | succ pending =>
      simp only [sanitizeUtf8Loop] at h ⊢
      simp only [List.take_succ_cons, List.forall_mem_cons] at hpending
      exact List.forall_mem_cons.mpr ⟨hpending.1, ih hpending.2 h⟩
    | zero =>
      simp only [sanitizeUtf8Loop] at h ⊢
      by_cases hzero : c₀ = 0
      · simp [hzero] at h
      rw [if_neg hzero] at h ⊢
      by_cases hascii : c₀ < 0x80
      · rw [if_pos hascii] at h ⊢
        exact List.forall_mem_cons.mpr ⟨hzero, ih (by simp) h⟩
      rw [if_neg hascii] at h ⊢
      by_cases hvalid : validSequence c₀ rest = true
      · rw [if_pos hvalid] at h ⊢
        have hrest := fun c hc =>
          isContinuation_ne_zero (isContinuation_of_validSequence hvalid c hc)
        exact List.forall_mem_cons.mpr ⟨hzero, ih hrest h⟩
      · rw [if_neg hvalid] at h ⊢
        exact List.forall_mem_cons.mpr ⟨by decide, ih (by simp) h⟩

theorem sanitizeUtf8_ne_zero {buf : List UInt8} (h : (sanitizeUtf8 buf).1 ≠ -1) :
    ∀ c ∈ (sanitizeUtf8 buf).2, c ≠ 0 :=
  sanitizeUtf8Loop_ne_zero (by simp) h

/-! ### The whole pass -/

/-- The bytes of a sequence are passed as they are. -/
theorem sanitizeUtf8Loop_append (tail after : List UInt8) (dirty : Bool) :
    sanitizeUtf8Loop tail.length (tail ++ after) dirty =
      ((sanitizeUtf8Loop 0 after dirty).1, tail ++ (sanitizeUtf8Loop 0 after dirty).2) := by
  induction tail with
  | nil => rfl
  | cons c tail ih =>
    rw [List.length_cons, List.cons_append, sanitizeUtf8Loop, ih]
    rfl

/-- A buffer is refused exactly for a null byte. -/
theorem sanitizeUtf8Loop_eq_neg_one_iff {pending : Nat} {buf : List UInt8} {dirty : Bool}
    (hpending : ∀ c ∈ buf.take pending, c ≠ 0) :
    (sanitizeUtf8Loop pending buf dirty).1 = -1 ↔ 0 ∈ buf := by
  induction buf generalizing pending dirty with
  | nil => cases dirty <;> simp [sanitizeUtf8Loop]
  | cons c₀ rest ih =>
    rw [List.mem_cons]
    cases pending with
    | succ pending =>
      simp only [List.take_succ_cons, List.forall_mem_cons] at hpending
      rw [sanitizeUtf8Loop, ih hpending.2, or_iff_right (Ne.symm hpending.1)]
    | zero =>
      rw [sanitizeUtf8Loop]
      by_cases hzero : c₀ = 0
      · simp [hzero]
      rw [if_neg hzero, or_iff_right (Ne.symm hzero)]
      split_ifs with hascii hvalid
      · exact ih (by simp)
      · exact ih fun c hc => isContinuation_ne_zero (isContinuation_of_validSequence hvalid c hc)
      · exact ih (by simp)

/-- Without a null byte the pass repairs the buffer; it reports whether it changed anything. -/
theorem sanitizeUtf8Loop_repair {buf : List UInt8} (h : 0 ∉ buf) (dirty : Bool) :
    Utf8.Repair questionMark buf (sanitizeUtf8Loop 0 buf dirty).2 ∧
      ((sanitizeUtf8Loop 0 buf dirty).1 = 0 ↔
        dirty = false ∧ (sanitizeUtf8Loop 0 buf dirty).2 = buf) ∧
      ((sanitizeUtf8Loop 0 buf dirty).1 = 0 ∨ (sanitizeUtf8Loop 0 buf dirty).1 = 1) := by
  induction hlength : buf.length using Nat.strong_induction_on generalizing buf dirty with
  | _ n ih =>
    cases buf with
    | nil =>
      refine ⟨.nil, ?_, ?_⟩
      · cases dirty <;> simp [sanitizeUtf8Loop]
      · cases dirty <;> simp [sanitizeUtf8Loop]
    | cons c₀ rest =>
      rw [List.length_cons] at hlength
      have hzero : c₀ ≠ 0 := fun hc => h (hc ▸ List.mem_cons_self)
      have hrest : 0 ∉ rest := fun hr => h (List.mem_cons_of_mem _ hr)
      rw [sanitizeUtf8Loop, if_neg hzero]
      split_ifs with hascii hvalid
      · obtain ⟨hrepair, hcode, hvalue⟩ := ih rest.length (by omega) hrest dirty rfl
        refine ⟨.ascii (UInt8.lt_iff_toNat_lt.mp hascii) hrepair, ?_, hvalue⟩
        simpa using hcode
      · -- the loop goes on behind the sequence
        obtain ⟨tail, after, rfl, hseq, htail⟩ := exists_of_validSequence hvalid
        rw [← htail, sanitizeUtf8Loop_append]
        rw [List.length_append] at hlength
        have hafter : 0 ∉ after := fun ha => hrest (List.mem_append_right _ ha)
        obtain ⟨hrepair, hcode, hvalue⟩ := ih after.length (by omega) hafter dirty rfl
        refine ⟨.sequence hseq hrepair, ?_, hvalue⟩
        simpa using hcode
      · obtain ⟨hrepair, hcode, hvalue⟩ := ih rest.length (by omega) hrest true rfl
        have hbyte : 0x80 ≤ c₀.toNat := by
          rw [UInt8.lt_iff_toNat_lt] at hascii
          exact Nat.le_of_not_lt hascii
        refine ⟨.bad hbyte ?_ hrepair, ?_, hvalue⟩
        · rwa [validSequence_iff] at hvalid
        · have hmark : questionMark ≠ c₀ := by
            rintro rfl
            exact absurd hbyte (by decide)
          simp [hcode, hmark]

/-- What `sanitize_utf8` leaves of a buffer without a null byte. -/
structure Sanitised (buf : List UInt8) (result : Int × List UInt8) : Prop where
  /-- The length is kept. -/
  length_eq : result.2.length = buf.length
  /-- What is left is well formed. -/
  wellFormed : Utf8.WellFormed result.2
  /-- A byte changes exactly if it is no ASCII character and not inside a well-formed sequence of
  the buffer. -/
  changed_iff : ∀ (i : Nat) (b : UInt8), buf[i]? = some b →
    (result.2[i]? ≠ some b ↔ 0x80 ≤ b ∧ ¬ Utf8.Inside buf i)
  /-- A byte that changes becomes a question mark. -/
  changed : ∀ (i : Nat) (b : UInt8), buf[i]? = some b →
    result.2[i]? ≠ some b → result.2[i]? = some questionMark
  /-- The return value is 0 exactly if the buffer was well formed. -/
  zero_iff : result.1 = 0 ↔ Utf8.WellFormed buf
  /-- Otherwise it is 1. -/
  zero_or_one : result.1 = 0 ∨ result.1 = 1
  /-- There is nothing left for a second call. -/
  again : sanitizeUtf8 result.2 = (0, result.2)

theorem sanitizeUtf8_eq_neg_one_iff (buf : List UInt8) : (sanitizeUtf8 buf).1 = -1 ↔ 0 ∈ buf :=
  sanitizeUtf8Loop_eq_neg_one_iff (by simp)

theorem sanitised_of_zero_notMem {buf : List UInt8} (hbuf : 0 ∉ buf) :
    Sanitised buf (sanitizeUtf8 buf) := by
  have hmark : questionMark.toNat < 0x80 := by decide
  obtain ⟨hrepair, hcode, hvalue⟩ := sanitizeUtf8Loop_repair hbuf false
  have hwell := hrepair.wellFormed hmark
  have hzero : 0 ∉ (sanitizeUtf8 buf).2 := by
    intro hmem
    refine sanitizeUtf8_ne_zero ?_ 0 hmem rfl
    rwa [ne_eq, sanitizeUtf8_eq_neg_one_iff]
  refine ⟨hrepair.length_eq, hwell, ?_, ?_, ?_, ?_, ?_⟩
  · intro i b hb
    obtain ⟨hmarked, hkept⟩ := hrepair.getElem? i
    constructor
    · intro hne
      by_contra hnot
      rw [not_and_or, not_not, UInt8.not_le, UInt8.lt_iff_toNat_lt] at hnot
      exact hne (hkept b hb hnot)
    · rintro ⟨hle, hinside⟩ heq
      have hb' := (hmarked b hb (UInt8.le_iff_toNat_le.mp hle) hinside).symm.trans heq
      obtain rfl := Option.some.inj hb'
      exact absurd hle (by decide)
  · intro i b hb hne
    obtain ⟨hmarked, hkept⟩ := hrepair.getElem? i
    have hnot : ¬ (b.toNat < 0x80 ∨ Utf8.Inside buf i) := fun h => hne (hkept b hb h)
    rw [not_or, Nat.not_lt] at hnot
    exact hmarked b hb hnot.1 hnot.2
  · refine hcode.trans ⟨fun h => ?_, fun h => ⟨rfl, hrepair.eq_of_wellFormed h⟩⟩
    exact h.2 ▸ hwell
  · exact hvalue
  · obtain ⟨hrepair', hcode', -⟩ := sanitizeUtf8Loop_repair hzero false
    have hsame := hrepair'.eq_of_wellFormed hwell
    exact Prod.ext (hcode'.mpr ⟨rfl, hsame⟩) hsame

/-- `sanitize_utf8` refuses exactly the buffers with a null byte, and repairs the others. -/
theorem sanitize_utf8_exact (buf : List UInt8) :
    ((sanitizeUtf8 buf).1 = -1 ↔ 0 ∈ buf) ∧ (0 ∉ buf → Sanitised buf (sanitizeUtf8 buf)) :=
  ⟨sanitizeUtf8_eq_neg_one_iff buf, sanitised_of_zero_notMem⟩

/-- A sequence that breaks off: both its bytes are overwritten, the letter behind them is kept. -/
theorem sanitize_utf8_exact_truncated :
    0 ∉ ([0xE2, 0x82, 0x41] : List UInt8) ∧ sanitizeUtf8 [0xE2, 0x82, 0x41] = (1, [63, 63, 0x41]) ∧
      Sanitised [0xE2, 0x82, 0x41] (sanitizeUtf8 [0xE2, 0x82, 0x41]) :=
  ⟨by decide, by decide, (sanitize_utf8_exact _).2 (by decide)⟩

end Schaufel
