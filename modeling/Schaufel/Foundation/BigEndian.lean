import Mathlib.Algebra.Order.Ring.Nat
import Mathlib.Tactic.Ring

/-!
# Big-endian numbers

`bigEndian width n` are the bytes of a number in network order, the bits above the width dropped,
and `ofBigEndian` reads them.  `readNumber` reads a number of a fixed width off the front of a
stream.
-/

namespace Schaufel

/-- The bytes of a number, the most significant one first. -/
def bigEndian : Nat → Nat → List UInt8
  | 0, _ => []
  | width + 1, n => UInt8.ofNat (n / 256 ^ width) :: bigEndian width n

/-- The number with the given bytes. -/
def ofBigEndian (bytes : List UInt8) : Nat :=
  bytes.foldl (fun n c => n * 256 + c.toNat) 0

@[simp] theorem length_bigEndian (width n : Nat) : (bigEndian width n).length = width := by
  induction width with
  | zero => rfl
  | succ width ih => rw [bigEndian, List.length_cons, ih]

/-- The bytes of a number continue what was read before them. -/
theorem foldl_bigEndian (width n start : Nat) :
    (bigEndian width n).foldl (fun n c => n * 256 + c.toNat) start =
      start * 256 ^ width + n % 256 ^ width := by
  induction width generalizing start with
  | zero => simp [bigEndian, Nat.mod_one]
  | succ width ih =>
    rw [bigEndian, List.foldl_cons, ih, UInt8.toNat_ofNat', Nat.mod_pow_succ (b := 256)]
    ring

theorem ofBigEndian_bigEndian {width n : Nat} (h : n < 256 ^ width) :
    ofBigEndian (bigEndian width n) = n := by
  rw [ofBigEndian, foldl_bigEndian, Nat.zero_mul, Nat.zero_add, Nat.mod_eq_of_lt h]

/-- Read a number off the front of a stream. -/
def readNumber (width : Nat) (stream : List UInt8) : Option (Nat × List UInt8) :=
  if width ≤ stream.length then some (ofBigEndian (stream.take width), stream.drop width) else none

theorem readNumber_bigEndian {width n : Nat} (h : n < 256 ^ width) (rest : List UInt8) :
    readNumber width (bigEndian width n ++ rest) = some (n, rest) := by
  have hlen := length_bigEndian width n
  rw [readNumber, if_pos (by rw [List.length_append, hlen]; omega), List.take_left' hlen,
    List.drop_left' hlen, ofBigEndian_bigEndian h]

end Schaufel
