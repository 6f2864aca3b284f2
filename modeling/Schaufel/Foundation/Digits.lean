import Mathlib.Algebra.Order.Ring.Nat
import Mathlib.Tactic.Ring

/-!
# Numbers written in digits

`ofDigits base` is the number that ASCII digits denote, and `toDigits width` writes a number in
decimal, with leading zeros.
-/

namespace Schaufel

/-- The ASCII digit of a number below ten. -/
def digit (d : Nat) : UInt8 := UInt8.ofNat (48 + d)

/-- The number that some digits denote. -/
def ofDigits (base : Nat) (text : List UInt8) : Nat :=
  text.foldl (fun n c => n * base + (c.toNat - 48)) 0

/-- The last digits of a number. -/
def toDigits : Nat → Nat → List UInt8
  | 0, _ => []
  | width + 1, n => digit (n / 10 ^ width % 10) :: toDigits width n

theorem toNat_digit {d : Nat} (h : d < 10) : (digit d).toNat = 48 + d := by
  rw [digit, UInt8.toNat_ofNat']
  omega

/-- Digits continue what was read before them. -/
theorem foldl_ofDigits (base start : Nat) (text : List UInt8) :
    text.foldl (fun n c => n * base + (c.toNat - 48)) start =
      start * base ^ text.length + ofDigits base text := by
  induction text generalizing start with
  | nil => simp [ofDigits]
  | cons c text ih =>
    rw [ofDigits, List.foldl_cons, List.foldl_cons, ih, ih (0 * base + (c.toNat - 48)),
      List.length_cons]
    ring

theorem ofDigits_append (base : Nat) (text text' : List UInt8) :
    ofDigits base (text ++ text') =
      ofDigits base text * base ^ text'.length + ofDigits base text' := by
  rw [ofDigits, List.foldl_append, foldl_ofDigits]
  rfl

theorem ofDigits_cons (base : Nat) (c : UInt8) (text : List UInt8) :
    ofDigits base (c :: text) = (c.toNat - 48) * base ^ text.length + ofDigits base text := by
  rw [ofDigits, List.foldl_cons, foldl_ofDigits]
  simp

/-- A number of a smaller base is smaller. -/
theorem ofDigits_le_ofDigits {base base' : Nat} (h : base ≤ base') (text : List UInt8) :
    ofDigits base text ≤ ofDigits base' text := by
  induction text with
  | nil => exact Nat.le_refl _
  | cons c text ih =>
    rw [ofDigits_cons, ofDigits_cons]
    exact Nat.add_le_add (Nat.mul_le_mul_left _ (Nat.pow_le_pow_left h _)) ih

/-- Digits of a smaller base denote the same number only if it has one digit. -/
theorem ofDigits_lt_ofDigits {base base' : Nat} (hpos : 0 < base) (h : base < base')
    {text : List UInt8} (htext : ∀ c ∈ text, c.toNat < 48 + base)
    (hle : base ≤ ofDigits base' text) :
    ofDigits base text < ofDigits base' text := by
  induction text with
  | nil => exact absurd hle (Nat.not_le_of_lt hpos)
  | cons c text ih =>
    rw [List.forall_mem_cons] at htext
    rw [ofDigits_cons] at hle ⊢
    rw [ofDigits_cons]
    have hmono := ofDigits_le_ofDigits (Nat.le_of_lt h) text
    rcases Nat.eq_zero_or_pos (c.toNat - 48) with hzero | hdigit
    · rw [hzero, Nat.zero_mul, Nat.zero_add] at hle ⊢
      rw [Nat.zero_mul, Nat.zero_add]
      exact ih htext.2 hle
    · cases text with
      | nil =>
        simp only [ofDigits, List.length_nil, pow_zero, Nat.mul_one, List.foldl_nil] at hle
        omega
      | cons d text =>
        have hpow : base ^ (d :: text).length < base' ^ (d :: text).length :=
          Nat.pow_lt_pow_left h (Nat.succ_ne_zero _)
        exact Nat.add_lt_add_of_lt_of_le (Nat.mul_lt_mul_of_pos_left hpow hdigit) hmono

/-- A number of one digit is the same in every base. -/
theorem ofDigits_eq_of_lt {base base' : Nat} (h : base ≤ base') {text : List UInt8}
    (hlt : ofDigits base' text < base) : ofDigits base text = ofDigits base' text := by
  induction text with
  | nil => rfl
  | cons c text ih =>
    rw [ofDigits_cons] at hlt ⊢
    rw [ofDigits_cons]
    rcases Nat.eq_zero_or_pos (c.toNat - 48) with hzero | hdigit
    · rw [hzero, Nat.zero_mul, Nat.zero_add] at hlt ⊢
      rw [Nat.zero_mul, Nat.zero_add]
      exact ih hlt
    · cases text with
      | nil => simp [ofDigits]
      | cons d text =>
        -- a digit in front of another one counts for at least the base
        have hpow : base' ≤ base' ^ (d :: text).length := Nat.le_self_pow (Nat.succ_ne_zero _) base'
        have hmul := Nat.le_mul_of_pos_left (base' ^ (d :: text).length) hdigit
        omega

/-- A digit is at most the number. -/
theorem le_ofDigits_of_mem {base : Nat} (hpos : 0 < base) {text : List UInt8} {c : UInt8}
    (h : c ∈ text) : c.toNat - 48 ≤ ofDigits base text := by
  induction text with
  | nil => cases h
  | cons d text ih =>
    rw [ofDigits_cons]
    rcases List.mem_cons.mp h with rfl | h
    · have hmul := Nat.le_mul_of_pos_right (c.toNat - 48) (Nat.pow_pos (n := text.length) hpos)
      omega
    · have := ih h
      omega

/-- Zeros behind the digits shift the number. -/
theorem ofDigits_append_zeros (base : Nat) (text : List UInt8) (k : Nat) :
    ofDigits base (text ++ List.replicate k 48) = ofDigits base text * base ^ k := by
  have hzeros : ofDigits base (List.replicate k 48) = 0 := by
    induction k with
    | zero => rfl
    | succ k ih =>
      rw [List.replicate_succ, ofDigits_cons, ih]
      simp
  rw [ofDigits_append, hzeros, List.length_replicate, Nat.add_zero]

/-- Decimal digits denote a number below the power of ten. -/
theorem ofDigits_lt {text : List UInt8} (h : ∀ c ∈ text, c.toNat < 58) :
    ofDigits 10 text < 10 ^ text.length := by
  induction text with
  | nil => simp [ofDigits]
  | cons c text ih =>
    rw [List.forall_mem_cons] at h
    have hc : (c.toNat - 48) * 10 ^ text.length ≤ 9 * 10 ^ text.length :=
      Nat.mul_le_mul_right _ (by omega)
    have htext := ih h.2
    rw [ofDigits_cons, List.length_cons, pow_succ]
    omega

/-- The first digits of a fraction: those behind them are cut off. -/
theorem ofDigits_take {text : List UInt8} (h : ∀ c ∈ text, c.toNat < 58) (k : Nat) :
    ofDigits 10 (text.take k) = ofDigits 10 text / 10 ^ (text.length - k) := by
  have hrest : ofDigits 10 (text.drop k) < 10 ^ (text.drop k).length :=
    ofDigits_lt fun c hc => h c (List.mem_of_mem_drop hc)
  have hsplit : ofDigits 10 text =
      ofDigits 10 (text.take k) * 10 ^ (text.drop k).length + ofDigits 10 (text.drop k) := by
    rw [← ofDigits_append, List.take_append_drop]
  rw [List.length_drop] at hrest hsplit
  rw [hsplit, Nat.mul_comm, Nat.mul_add_div (Nat.pow_pos (by decide)), Nat.div_eq_of_lt hrest,
    Nat.add_zero]

@[simp] theorem length_toDigits (width n : Nat) : (toDigits width n).length = width := by
  induction width with
  | zero => rfl
  | succ width ih => rw [toDigits, List.length_cons, ih]

theorem toNat_of_mem_toDigits {width n : Nat} {c : UInt8} (h : c ∈ toDigits width n) :
    48 ≤ c.toNat ∧ c.toNat < 58 := by
  induction width with
  | zero => cases h
  | succ width ih =>
    rcases List.mem_cons.mp h with rfl | h
    · have hlt : n / 10 ^ width % 10 < 10 := Nat.mod_lt _ (by decide)
      rw [toNat_digit hlt]
      omega
    · exact ih h

/-- The digits of a number denote it, if there are enough of them. -/
theorem ofDigits_toDigits (width n : Nat) : ofDigits 10 (toDigits width n) = n % 10 ^ width := by
  induction width with
  | zero => simp [toDigits, ofDigits, Nat.mod_one]
  | succ width ih =>
    have hlt : n / 10 ^ width % 10 < 10 := Nat.mod_lt _ (by decide)
    rw [toDigits, ofDigits_cons, ih, length_toDigits, toNat_digit hlt, Nat.mod_pow_succ,
      Nat.add_sub_cancel_left]
    ring

end Schaufel
