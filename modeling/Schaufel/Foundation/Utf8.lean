import Mathlib.Data.List.Basic
import Mathlib.Tactic.NormNum

/-!
# UTF-8

A byte sequence is well formed if it is the encoding of a list of Unicode scalar values.  `Char` has
no surrogates and nothing above `U+10FFFF`, and a scalar value has one encoding only, so that
overlong forms and truncated sequences are not well formed.

`Repair` describes what it means to overwrite, from left to right, the bytes that belong to no
character.  Since a lead byte is never a continuation byte, a well-formed sequence cannot start
within another one; so the bytes that are kept do not depend on where the reading starts.
-/

namespace Schaufel.Utf8

/-- The encoding of a list of characters. -/
def WellFormed (bytes : List UInt8) : Prop :=
  ∃ text : List Char, bytes = text.flatMap String.utf8EncodeChar

/-- The encoding of one character that takes more than one byte. -/
def Multibyte (seq : List UInt8) : Prop :=
  ∃ c : Char, 0x80 ≤ c.toNat ∧ seq = String.utf8EncodeChar c

/-- Position `i` is inside a well-formed sequence of more than one byte. -/
def Inside (bytes : List UInt8) (i : Nat) : Prop :=
  ∃ before seq after, bytes = before ++ (seq ++ after) ∧ Multibyte seq ∧ before.length ≤ i ∧
    i < before.length + seq.length

/-! ### The table of well-formed sequences -/

/-- A continuation byte. -/
def Tail (b : UInt8) : Prop := 0x80 ≤ b.toNat ∧ b.toNat ≤ 0xBF

/-- The sequences of two, three and four bytes, by the ranges of their bytes. -/
def Table : List UInt8 → Prop
  | [a, b] => 0xC2 ≤ a.toNat ∧ a.toNat ≤ 0xDF ∧ Tail b
  | [a, b, c] => 0xE0 ≤ a.toNat ∧ a.toNat ≤ 0xEF ∧ Tail b ∧ Tail c ∧
      (a.toNat = 0xE0 → 0xA0 ≤ b.toNat) ∧ (a.toNat = 0xED → b.toNat ≤ 0x9F)
  | [a, b, c, d] => 0xF0 ≤ a.toNat ∧ a.toNat ≤ 0xF4 ∧ Tail b ∧ Tail c ∧ Tail d ∧
      (a.toNat = 0xF0 → 0x90 ≤ b.toNat) ∧ (a.toNat = 0xF4 → b.toNat ≤ 0x8F)
  | _ => False

theorem toNat_isValidChar (c : Char) :
    c.toNat < 0xD800 ∨ (0xDFFF < c.toNat ∧ c.toNat < 0x110000) := c.valid

/-- A scalar value is a character. -/
theorem exists_char {v : Nat} (h : v < 0xD800 ∨ (0xDFFF < v ∧ v < 0x110000)) :
    ∃ c : Char, c.toNat = v := by
  have hlt : v < UInt32.size := by
    have : UInt32.size = 4294967296 := rfl
    omega
  exact ⟨⟨UInt32.ofNatLT v hlt, h⟩, rfl⟩

theorem encode_eq (c : Char) :
    String.utf8EncodeChar c =
      if c.toNat ≤ 0x7F then [UInt8.ofNat c.toNat]
      else if c.toNat ≤ 0x7FF then
        [UInt8.ofNat (c.toNat / 64 % 32 + 192), UInt8.ofNat (c.toNat % 64 + 128)]
      else if c.toNat ≤ 0xFFFF then
        [UInt8.ofNat (c.toNat / 4096 % 16 + 224), UInt8.ofNat (c.toNat / 64 % 64 + 128),
          UInt8.ofNat (c.toNat % 64 + 128)]
      else
        [UInt8.ofNat (c.toNat / 262144 % 8 + 240), UInt8.ofNat (c.toNat / 4096 % 64 + 128),
          UInt8.ofNat (c.toNat / 64 % 64 + 128), UInt8.ofNat (c.toNat % 64 + 128)] := rfl

/-- A byte given by its value. -/
theorem ofNat_eq {n : Nat} {b : UInt8} (h : n = b.toNat) : UInt8.ofNat n = b := by
  rw [h, UInt8.ofNat_toNat]

/-- Encodings of more than one byte are in the table. -/
theorem Multibyte.table {seq : List UInt8} (h : Multibyte seq) : Table seq := by
  obtain ⟨c, hc, rfl⟩ := h
  have hvalid := toNat_isValidChar c
  rw [encode_eq, if_neg (by omega)]
  split_ifs with htwo hthree
  · simp only [Table, Tail, UInt8.toNat_ofNat']
    omega
  · simp only [Table, Tail, UInt8.toNat_ofNat']
    omega
  · simp only [Table, Tail, UInt8.toNat_ofNat']
    omega

theorem multibyte_two {a b : UInt8} (h : Table [a, b]) : Multibyte [a, b] := by
  obtain ⟨ha, ha', hb, hb'⟩ := h
  obtain ⟨c, hc⟩ := exists_char (v := (a.toNat - 0xC0) * 64 + (b.toNat - 0x80)) (by omega)
  refine ⟨c, by omega, ?_⟩
  rw [encode_eq, if_neg (by omega), if_pos (by omega), ofNat_eq (b := a) (by omega),
    ofNat_eq (b := b) (by omega)]

theorem multibyte_three {a b c : UInt8} (h : Table [a, b, c]) : Multibyte [a, b, c] := by
  obtain ⟨ha, ha', ⟨hb, hb'⟩, ⟨hc, hc'⟩, hoverlong, hsurrogate⟩ := h
  obtain ⟨v, hv⟩ := exists_char
    (v := (a.toNat - 0xE0) * 4096 + (b.toNat - 0x80) * 64 + (c.toNat - 0x80)) (by omega)
  refine ⟨v, by omega, ?_⟩
  rw [encode_eq, if_neg (by omega), if_neg (by omega), if_pos (by omega),
    ofNat_eq (b := a) (by omega), ofNat_eq (b := b) (by omega), ofNat_eq (b := c) (by omega)]

theorem multibyte_four {a b c d : UInt8} (h : Table [a, b, c, d]) : Multibyte [a, b, c, d] := by
  obtain ⟨ha, ha', ⟨hb, hb'⟩, ⟨hc, hc'⟩, ⟨hd, hd'⟩, hoverlong, hlast⟩ := h
  obtain ⟨v, hv⟩ := exists_char
    (v := (a.toNat - 0xF0) * 262144 + (b.toNat - 0x80) * 4096 + (c.toNat - 0x80) * 64 +
      (d.toNat - 0x80)) (by omega)
  refine ⟨v, by omega, ?_⟩
  rw [encode_eq, if_neg (by omega), if_neg (by omega), if_neg (by omega),
    ofNat_eq (b := a) (by omega), ofNat_eq (b := b) (by omega), ofNat_eq (b := c) (by omega),
    ofNat_eq (b := d) (by omega)]

/-- The table lists the encodings of more than one byte. -/
theorem multibyte_iff_table {seq : List UInt8} : Multibyte seq ↔ Table seq := by
  refine ⟨Multibyte.table, fun h => ?_⟩
  match seq, h with
  | [_, _], h => exact multibyte_two h
  | [_, _, _], h => exact multibyte_three h
  | [_, _, _, _], h => exact multibyte_four h

/-! ### Where a sequence can start -/

/-- A sequence is a lead byte, which is no continuation byte, and continuation bytes. -/
theorem Multibyte.exists_lead {seq : List UInt8} (h : Multibyte seq) :
    ∃ a tail, seq = a :: tail ∧ 0xC2 ≤ a.toNat ∧ ∀ b ∈ tail, Tail b := by
  have htable := h.table
  match seq, htable with
  | [a, b], htable => exact ⟨a, [b], rfl, htable.1, by simpa using htable.2.2⟩
  | [a, b, c], htable =>
    exact ⟨a, [b, c], rfl, le_trans (by decide) htable.1,
      by simpa using ⟨htable.2.2.1, htable.2.2.2.1⟩⟩
  | [a, b, c, d], htable =>
    exact ⟨a, [b, c, d], rfl, le_trans (by decide) htable.1,
      by simpa using ⟨htable.2.2.1, htable.2.2.2.1, htable.2.2.2.2.1⟩⟩

/-- The bytes of a sequence are no ASCII characters. -/
theorem Multibyte.le_of_mem {seq : List UInt8} (h : Multibyte seq) {b : UInt8} (hb : b ∈ seq) :
    0x80 ≤ b.toNat := by
  obtain ⟨a, tail, rfl, ha, htail⟩ := h.exists_lead
  rcases List.mem_cons.mp hb with rfl | hb
  · omega
  · exact (htail b hb).1

/-- The lead byte decides how many bytes follow. -/
theorem Multibyte.length_tail {a : UInt8} {tail : List UInt8} (h : Multibyte (a :: tail)) :
    tail.length = if a.toNat ≤ 0xDF then 1 else if a.toNat ≤ 0xEF then 2 else 3 := by
  have htable := h.table
  match tail, htable with
  | [b], htable => rw [if_pos htable.2.1]; rfl
  | [b, c], htable =>
    have hlead := htable.1
    rw [if_neg (by omega), if_pos htable.2.1]
    rfl
  | [b, c, d], htable =>
    have hlead := htable.1
    rw [if_neg (by omega), if_neg (by omega)]
    rfl

/-- Two sequences that start at the same place are the same. -/
theorem Multibyte.append_inj {seq seq' rest rest' : List UInt8} (h : Multibyte seq)
    (h' : Multibyte seq') (heq : seq ++ rest = seq' ++ rest') : seq = seq' ∧ rest = rest' := by
  obtain ⟨a, tail, rfl, -, -⟩ := h.exists_lead
  obtain ⟨a', tail', rfl, -, -⟩ := h'.exists_lead
  obtain rfl := (List.cons.inj heq).1
  refine List.append_inj heq ?_
  rw [List.length_cons, List.length_cons, h.length_tail, h'.length_tail]

/-- A sequence starts at the head of the list. -/
def Starts (bytes : List UInt8) : Prop := ∃ seq after, Multibyte seq ∧ bytes = seq ++ after

/-- An ASCII character starts no sequence. -/
theorem not_starts_of_lt {a : UInt8} (ha : a.toNat < 0x80) (rest : List UInt8) :
    ¬ Starts (a :: rest) := by
  rintro ⟨seq, after, hseq, heq⟩
  obtain ⟨b, tail, rfl, hb, -⟩ := hseq.exists_lead
  obtain rfl := (List.cons.inj heq).1
  omega

theorem not_inside_zero {a : UInt8} {rest : List UInt8} (h : ¬ Starts (a :: rest)) :
    ¬ Inside (a :: rest) 0 := by
  rintro ⟨before, seq, after, heq, hseq, hle, -⟩
  obtain rfl := List.length_eq_zero_iff.mp (Nat.le_zero.mp hle)
  exact h ⟨seq, after, hseq, heq⟩

/-- A byte that starts no sequence says nothing about the positions behind it. -/
theorem inside_cons_succ {a : UInt8} {rest : List UInt8} (h : ¬ Starts (a :: rest)) (i : Nat) :
    Inside (a :: rest) (i + 1) ↔ Inside rest i := by
  constructor
  · rintro ⟨before, seq, after, heq, hseq, hle, hlt⟩
    cases before with
    | nil => exact absurd ⟨seq, after, hseq, heq⟩ h
    | cons b before =>
      simp only [List.length_cons] at hle hlt
      exact ⟨before, seq, after, (List.cons.inj heq).2, hseq, by omega, by omega⟩
  · rintro ⟨before, seq, after, rfl, hseq, hle, hlt⟩
    refine ⟨a :: before, seq, after, rfl, hseq, ?_, ?_⟩
    · simpa using hle
    · rw [List.length_cons]
      omega

theorem inside_of_lt {seq : List UInt8} (h : Multibyte seq) (rest : List UInt8) {i : Nat}
    (hi : i < seq.length) : Inside (seq ++ rest) i :=
  ⟨[], seq, rest, rfl, h, Nat.zero_le i, by simpa using hi⟩

/-- No sequence starts within another one. -/
theorem inside_append {seq : List UInt8} (h : Multibyte seq) (rest : List UInt8) (i : Nat) :
    Inside (seq ++ rest) (seq.length + i) ↔ Inside rest i := by
  constructor
  · rintro ⟨before, seq', after, heq, hseq', hle, hlt⟩
    rcases List.append_eq_append_iff.mp heq with ⟨middle, rfl, hrest⟩ | ⟨middle, hmiddle, hrest⟩
    · rw [List.length_append] at hle hlt
      exact ⟨middle, seq', after, hrest, hseq', by omega, by omega⟩
    · cases before with
      | nil =>
        -- the other sequence is this one, and ends before the position
        rw [List.nil_append] at hmiddle
        subst hmiddle
        obtain ⟨rfl, -⟩ := hseq'.append_inj h hrest
        simp only [List.length_nil] at hlt
        omega
      | cons a before =>
        cases middle with
        | nil =>
          rw [List.append_nil] at hmiddle
          subst hmiddle
          exact ⟨[], seq', after, hrest.symm, hseq', Nat.zero_le i, by
            simp only [List.length_nil]
            omega⟩
        | cons b middle =>
          -- a continuation byte would be a lead byte
          obtain ⟨lead, tail, rfl, -, htail⟩ := h.exists_lead
          obtain ⟨lead', tail', rfl, hlead', -⟩ := hseq'.exists_lead
          obtain ⟨-, rfl⟩ := List.cons.inj hmiddle
          obtain ⟨rfl, -⟩ := List.cons.inj hrest
          have := (htail lead' (by simp)).2
          omega
  · rintro ⟨before, seq', after, rfl, hseq', hle, hlt⟩
    refine ⟨seq ++ before, seq', after, by simp, hseq', ?_, ?_⟩
    · rw [List.length_append]
      omega
    · rw [List.length_append]
      omega

/-! ### Well-formed byte sequences -/

theorem wellFormed_nil : WellFormed [] := ⟨[], rfl⟩

theorem wellFormed_cons {a : UInt8} (ha : a.toNat < 0x80) {rest : List UInt8}
    (h : WellFormed rest) : WellFormed (a :: rest) := by
  obtain ⟨text, rfl⟩ := h
  obtain ⟨c, hc⟩ := exists_char (v := a.toNat) (by omega)
  refine ⟨c :: text, ?_⟩
  rw [List.flatMap_cons, encode_eq, if_pos (by omega), ofNat_eq hc]
  rfl

theorem wellFormed_append {seq : List UInt8} (h : Multibyte seq) {rest : List UInt8}
    (hrest : WellFormed rest) : WellFormed (seq ++ rest) := by
  obtain ⟨c, -, rfl⟩ := h
  obtain ⟨text, rfl⟩ := hrest
  exact ⟨c :: text, rfl⟩

/-- A well-formed byte sequence starts with an ASCII character or a longer sequence. -/
theorem WellFormed.cases {bytes : List UInt8} (h : WellFormed bytes) :
    bytes = [] ∨ (∃ a rest, bytes = a :: rest ∧ a.toNat < 0x80 ∧ WellFormed rest) ∨
      ∃ seq rest, bytes = seq ++ rest ∧ Multibyte seq ∧ WellFormed rest := by
  obtain ⟨text, rfl⟩ := h
  cases text with
  | nil => exact .inl rfl
  | cons c text =>
    rw [List.flatMap_cons]
    by_cases hc : c.toNat < 0x80
    · refine .inr (.inl ⟨UInt8.ofNat c.toNat, _, ?_, ?_, text, rfl⟩)
      · rw [encode_eq, if_pos (by omega)]
        rfl
      · rw [UInt8.toNat_ofNat']
        omega
    · exact .inr (.inr ⟨_, _, rfl, ⟨c, by omega, rfl⟩, text, rfl⟩)

theorem WellFormed.of_cons {a : UInt8} (ha : a.toNat < 0x80) {rest : List UInt8}
    (h : WellFormed (a :: rest)) : WellFormed rest := by
  rcases h.cases with hnil | ⟨b, rest', heq, -, hrest⟩ | ⟨seq, rest', heq, hseq, -⟩
  · cases hnil
  · obtain ⟨-, rfl⟩ := List.cons.inj heq
    exact hrest
  · exact absurd ⟨seq, rest', hseq, heq⟩ (not_starts_of_lt ha rest)

theorem WellFormed.of_append {seq : List UInt8} (hseq : Multibyte seq) {rest : List UInt8}
    (h : WellFormed (seq ++ rest)) : WellFormed rest := by
  rcases h.cases with hnil | ⟨b, rest', heq, hb, -⟩ | ⟨seq', rest', heq, hseq', hrest⟩
  · obtain ⟨a, tail, rfl, -, -⟩ := hseq.exists_lead
    cases hnil
  · exact absurd ⟨seq, rest, hseq, heq.symm⟩ (not_starts_of_lt hb rest')
  · obtain ⟨-, rfl⟩ := hseq.append_inj hseq' heq
    exact hrest

theorem WellFormed.starts {a : UInt8} (ha : 0x80 ≤ a.toNat) {rest : List UInt8}
    (h : WellFormed (a :: rest)) : Starts (a :: rest) := by
  rcases h.cases with hnil | ⟨b, rest', heq, hb, -⟩ | ⟨seq, rest', heq, hseq, -⟩
  · cases hnil
  · obtain ⟨rfl, -⟩ := List.cons.inj heq
    omega
  · exact ⟨seq, rest', hseq, heq⟩

/-! ### Repairing -/

/-- `out` is `bytes` with `mark` in the place of every byte that belongs to no character. -/
inductive Repair (mark : UInt8) : List UInt8 → List UInt8 → Prop
  | nil : Repair mark [] []
  /-- An ASCII character stays. -/
  | ascii {a : UInt8} {rest out : List UInt8} : a.toNat < 0x80 → Repair mark rest out →
      Repair mark (a :: rest) (a :: out)
  /-- A well-formed sequence stays. -/
  | sequence {seq rest out : List UInt8} : Multibyte seq → Repair mark rest out →
      Repair mark (seq ++ rest) (seq ++ out)
  /-- Any other byte is overwritten, and reading goes on right behind it. -/
  | bad {a : UInt8} {rest out : List UInt8} : 0x80 ≤ a.toNat → ¬ Starts (a :: rest) →
      Repair mark rest out → Repair mark (a :: rest) (mark :: out)

section Repair

variable {mark : UInt8} {bytes out : List UInt8}

theorem Repair.length_eq (h : Repair mark bytes out) : out.length = bytes.length := by
  induction h with
  | nil => rfl
  | ascii _ _ ih => simp [ih]
  | sequence _ _ ih => simp [ih]
  | bad _ _ _ ih => simp [ih]

/-- The outcome is well formed. -/
theorem Repair.wellFormed (hmark : mark.toNat < 0x80) (h : Repair mark bytes out) :
    WellFormed out := by
  induction h with
  | nil => exact wellFormed_nil
  | ascii ha _ ih => exact wellFormed_cons ha ih
  | sequence hseq _ ih => exact wellFormed_append hseq ih
  | bad _ _ _ ih => exact wellFormed_cons hmark ih

/-- What is well formed already is left alone. -/
theorem Repair.eq_of_wellFormed (h : Repair mark bytes out) (hbytes : WellFormed bytes) :
    out = bytes := by
  induction h with
  | nil => rfl
  | ascii ha _ ih => rw [ih (hbytes.of_cons ha)]
  | sequence hseq _ ih => rw [ih (hbytes.of_append hseq)]
  | bad ha hstarts _ _ => exact absurd (hbytes.starts ha) hstarts

/-- Position by position: a byte is overwritten exactly if it is no ASCII character and not inside a
well-formed sequence. -/
theorem Repair.getElem? (h : Repair mark bytes out) (i : Nat) :
    (∀ a, bytes[i]? = some a → 0x80 ≤ a.toNat → ¬ Inside bytes i → out[i]? = some mark) ∧
      (∀ a, bytes[i]? = some a → (a.toNat < 0x80 ∨ Inside bytes i) → out[i]? = some a) := by
  induction h generalizing i with
  | nil => simp
  | @ascii a rest out ha _ ih =>
    cases i with
    | zero =>
      refine ⟨?_, ?_⟩
      · rintro b hb hle -
        obtain rfl := Option.some.inj hb
        omega
      · rintro b hb -
        exact hb
    | succ i =>
      rw [inside_cons_succ (not_starts_of_lt ha rest)]
      exact ih i
  | @sequence seq rest out hseq _ ih =>
    by_cases hi : i < seq.length
    · refine ⟨?_, ?_⟩
      · intro b _ _ hinside
        exact absurd (inside_of_lt hseq rest hi) hinside
      · intro b hb _
        rw [List.getElem?_append_left hi] at hb ⊢
        exact hb
    · obtain ⟨k, rfl⟩ := Nat.exists_eq_add_of_le (Nat.le_of_not_lt hi)
      rw [inside_append hseq, List.getElem?_append_right (by omega),
        List.getElem?_append_right (by omega), Nat.add_sub_cancel_left]
      exact ih k
  | @bad a rest out ha hstarts _ ih =>
    cases i with
    | zero =>
      refine ⟨fun _ _ _ _ => rfl, ?_⟩
      rintro b hb (hlt | hinside)
      · obtain rfl := Option.some.inj hb
        omega
      · exact absurd hinside (not_inside_zero hstarts)
    | succ i =>
      rw [inside_cons_succ hstarts]
      exact ih i

end Repair

end Schaufel.Utf8
