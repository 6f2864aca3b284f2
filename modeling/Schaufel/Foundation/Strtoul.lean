import Schaufel.Foundation.CString
import Schaufel.Foundation.Digits

/-!
# `strtoul` in base 0

With base 0 the base is taken from the text: hexadecimal behind `0x`, octal behind another `0`,
decimal otherwise.  The digits end at the first character that is no digit of the base, so that `08`
is the number 0 followed by the text `8`.

A `piece` is a text of digits that is read to its end.
-/

namespace Schaufel

/-- The value of a digit; letters go on behind nine. -/
def digitValue (c : UInt8) : Option Nat :=
  if 48 ≤ c ∧ c ≤ 57 then some (c.toNat - 48)
  else if 97 ≤ c ∧ c ≤ 122 then some (c.toNat - 87)
  else if 65 ≤ c ∧ c ≤ 90 then some (c.toNat - 55)
  else none

/-- The digits of a base. -/
def isDigitOf (base : Nat) (c : UInt8) : Bool := (digitValue c).any fun d => decide (d < base)

/-- The number that digits of any base denote. -/
def numberOf (base : Nat) (text : CString) : Nat :=
  text.foldl (fun n c => n * base + (digitValue c).getD 0) 0

/-- The base of a text, and the text of the digits. -/
def detectBase (s : CString) : Nat × CString :=
  match s with
  | 48 :: x :: c :: rest => if (x = 120 ∨ x = 88) ∧ isDigitOf 16 c then (16, c :: rest) else (8, s)
  | 48 :: _ => (8, s)
  | _ => (10, s)

/-- What `strtoul` gives back: the value, the text behind it, and whether `errno` is set. -/
structure Reading where
  value : UInt64
  endptr : CString
  erange : Bool

/-- The sign of a number is skipped. -/
def skipSign (s : CString) : CString := if s.head? = some 45 ∨ s.head? = some 43 then s.tail else s

/-- `strtoul` in base 0. -/
def strtoul0 (s : CString) : Reading :=
  let text := s.dropWhile isSpace
  let (base, digits) := detectBase (skipSign text)
  let n := numberOf base (digits.takeWhile (isDigitOf base))
  let endptr := digits.dropWhile (isDigitOf base)
  if digits.takeWhile (isDigitOf base) = [] then ⟨0, s, false⟩
  else if 2 ^ 64 ≤ n then ⟨0xFFFFFFFFFFFFFFFF, endptr, true⟩
  else ⟨if text.head? = some 45 then -UInt64.ofNat n else UInt64.ofNat n, endptr, false⟩

/-! ### Where it stops -/

theorem detectBase_suffix (s : CString) : (detectBase s).2 <:+ s := by
  unfold detectBase
  split
  · rename_i x c rest
    split
    · exact ⟨[48, x], rfl⟩
    · exact List.suffix_rfl
  · exact List.suffix_rfl
  · exact List.suffix_rfl

theorem skipSign_suffix (s : CString) : skipSign s <:+ s := by
  unfold skipSign
  split
  · exact List.tail_suffix s
  · exact List.suffix_rfl

/-- What follows the number is a part of the text. -/
theorem strtoul0_suffix (s : CString) : (strtoul0 s).endptr <:+ s := by
  have hdigits : ∀ p : UInt8 → Bool, (detectBase (skipSign (s.dropWhile isSpace))).2.dropWhile p <:+
      s :=
    fun p => (List.dropWhile_suffix p).trans <| (detectBase_suffix _).trans <|
      (skipSign_suffix _).trans (List.dropWhile_suffix isSpace)
  simp only [strtoul0]
  split_ifs
  · exact List.suffix_rfl
  · exact hdigits _
  · exact hdigits _
  · exact hdigits _

/-! ### Pieces -/

/-- The base of a text of digits. -/
def pieceBase (ds : CString) : Nat := if ds.head? = some 48 then 8 else 10

/-- A text of digits that is read to its end. -/
def IsPiece (ds : CString) : Prop := ds ≠ [] ∧ ∀ c ∈ ds, isDigitOf (pieceBase ds) c = true

/-- The number that a piece is read as. -/
def pieceValue (ds : CString) : Nat := ofDigits (pieceBase ds) ds

/-- A text that does not go on with a piece. -/
def Ends (ds tail : CString) : Prop :=
  ∀ c ∈ tail.head?, isDigitOf (pieceBase ds) c = false ∧ c ≠ 120 ∧ c ≠ 88

/-- The reading of a number that may be out of range. -/
def readingOf (n : Nat) (tail : CString) : Reading :=
  if 2 ^ 64 ≤ n then ⟨0xFFFFFFFFFFFFFFFF, tail, true⟩ else ⟨UInt64.ofNat n, tail, false⟩

theorem readingOf_of_le {n : Nat} (h : 2 ^ 64 ≤ n) (tail : CString) :
    readingOf n tail = ⟨0xFFFFFFFFFFFFFFFF, tail, true⟩ := if_pos h

theorem readingOf_of_not_le {n : Nat} (h : ¬ 2 ^ 64 ≤ n) (tail : CString) :
    readingOf n tail = ⟨UInt64.ofNat n, tail, false⟩ := if_neg h

theorem endptr_readingOf (n : Nat) (tail : CString) : (readingOf n tail).endptr = tail := by
  unfold readingOf
  split <;> rfl

/-- The digits of a base up to ten. -/
theorem isDigitOf_iff {base : Nat} (hbase : base ≤ 10) (c : UInt8) :
    isDigitOf base c = true ↔ 48 ≤ c.toNat ∧ c.toNat < 48 + base := by
  have h48 : (48 : UInt8).toNat = 48 := rfl
  have h57 : (57 : UInt8).toNat = 57 := rfl
  have h65 : (65 : UInt8).toNat = 65 := rfl
  have h97 : (97 : UInt8).toNat = 97 := rfl
  unfold isDigitOf digitValue
  simp only [UInt8.le_iff_toNat_le, h48, h57, h65, h97]
  split_ifs with hdigit hlower hupper
  · simp only [Option.any_some, decide_eq_true_eq]
    omega
  · simp only [Option.any_some, decide_eq_true_eq]
    omega
  · simp only [Option.any_some, decide_eq_true_eq]
    omega
  · simp only [Option.any_none, Bool.false_eq_true, false_iff]
    omega

theorem pieceBase_le (ds : CString) : pieceBase ds ≤ 10 := by
  unfold pieceBase
  split <;> decide

theorem digitValue_eq {base : Nat} (hbase : base ≤ 10) {c : UInt8} (h : isDigitOf base c = true) :
    digitValue c = some (c.toNat - 48) := by
  have hc := (isDigitOf_iff hbase c).mp h
  unfold digitValue
  rw [if_pos]
  simp only [UInt8.le_iff_toNat_le]
  exact ⟨hc.1, Nat.le_of_lt_succ (by show c.toNat < 58; omega)⟩

theorem numberOf_eq {base : Nat} (hbase : base ≤ 10) {ds : CString}
    (h : ∀ c ∈ ds, isDigitOf base c = true) : numberOf base ds = ofDigits base ds := by
  unfold numberOf ofDigits
  refine List.foldl_ext _ _ 0 fun n c hc => ?_
  rw [digitValue_eq hbase (h c hc)]
  rfl

/-- The base of a piece is found at its beginning. -/
theorem detectBase_piece {ds tail : CString} (hds : IsPiece ds) (htail : Ends ds tail) :
    detectBase (ds ++ tail) = (pieceBase ds, ds ++ tail) := by
  obtain ⟨hne, hdigits⟩ := hds
  obtain ⟨d, ds, rfl⟩ := List.exists_cons_of_ne_nil hne
  by_cases hzero : d = 48
  · subst hzero
    -- The second character is a digit or what ends the piece, so that it is no `x`.
    have hx : ∀ x rest, ds ++ tail = x :: rest → ¬ (x = 120 ∨ x = 88) := by
      intro x rest h
      cases ds with
      | nil =>
        obtain rfl : tail = x :: rest := h
        obtain ⟨-, hlower, hupper⟩ := htail x rfl
        exact not_or.mpr ⟨hlower, hupper⟩
      | cons y ds =>
        obtain rfl : y = x := (List.cons.inj h).1
        have hy := hdigits y (.tail _ (.head _))
        rintro (rfl | rfl) <;> cases hy
    rw [List.cons_append]
    unfold detectBase
    split
    · rename_i x c rest heq
      rw [if_neg fun h => hx x (c :: rest) (List.cons.inj heq).2 h.1]
      rfl
    · rfl
    · rename_i hno
      exact absurd rfl (hno _)
  · have hbase : pieceBase (d :: ds) = 10 := if_neg fun h => hzero (Option.some.inj h)
    rw [hbase, List.cons_append]
    unfold detectBase
    split
    · rename_i heq
      exact absurd (List.cons.inj heq).1 hzero
    · rename_i heq
      exact absurd (List.cons.inj heq).1 hzero
    · rfl

/-- A piece is read to its end. -/
theorem strtoul0_piece {ds tail : CString} (hds : IsPiece ds) (htail : Ends ds tail) :
    strtoul0 (ds ++ tail) = readingOf (pieceValue ds) tail := by
  have hstop : ∀ c ∈ tail.head?, isDigitOf (pieceBase ds) c = false := fun c hc => (htail c hc).1
  have htake := takeWhile_of_stop hds.2 hstop
  have hdrop := dropWhile_of_stop hds.2 hstop
  have hbase := detectBase_piece hds htail
  have hnumber := numberOf_eq (pieceBase_le ds) hds.2
  have hne := hds.1
  -- The first digit is neither a space nor a sign.
  have hfirst : ∀ c ∈ (ds ++ tail).head?, 48 ≤ c.toNat := by
    intro c hc
    rw [List.head?_append_of_ne_nil _ hne] at hc
    exact ((isDigitOf_iff (pieceBase_le ds) c).mp (hds.2 c (List.mem_of_mem_head? hc))).1
  have hspace : (ds ++ tail).dropWhile isSpace = ds ++ tail :=
    @dropWhile_of_stop isSpace [] (ds ++ tail) (List.forall_mem_nil _) fun c hc =>
      isSpace_of_le (hfirst c hc)
  have hsign : ∀ b : UInt8, b.toNat < 48 → (ds ++ tail).head? ≠ some b := by
    intro b hb h
    have := hfirst b h
    omega
  have hskip : skipSign (ds ++ tail) = ds ++ tail :=
    if_neg (not_or.mpr ⟨hsign 45 (by decide), hsign 43 (by decide)⟩)
  simp only [strtoul0, hspace, hskip, hbase, htake, hdrop, hnumber, if_neg hne,
    if_neg (hsign 45 (by decide))]
  rfl

end Schaufel
