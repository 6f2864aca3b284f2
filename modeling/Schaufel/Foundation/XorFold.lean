import Mathlib.Data.Nat.Bitwise
import Mathlib.SetTheory.Cardinal.Finite

/-!
# Folding numbers by exclusive or

`xorFold n s` folds the upper `n` bits of a number of `n + s` bits onto its lower `n` bits.  For
`s < n` the two parts overlap.

Bit `i` of the result is bit `i` of the number, turned around if bit `s + i` is set.  So the result
and the lowest `s` bits of the number determine its bits one after the other, and every result is
reached from as many numbers as there are choices of `s` bits.
-/

namespace Schaufel

/-- The upper bits of a number, folded onto its lowest `n` bits. -/
def xorFold (n s h : ℕ) : ℕ := (h >>> s) ^^^ (h % 2 ^ n)

variable {n s : ℕ}

theorem testBit_xorFold (h i : ℕ) (hi : i < n) :
    (xorFold n s h).testBit i = (h.testBit (s + i) ^^ h.testBit i) := by
  rw [xorFold, Nat.testBit_xor, Nat.testBit_shiftRight, Nat.testBit_mod_two_pow, decide_eq_true hi,
    Bool.true_and]

theorem xorFold_lt {h : ℕ} (hlt : h < 2 ^ (n + s)) : xorFold n s h < 2 ^ n := by
  refine Nat.xor_lt_two_pow ?_ (Nat.mod_lt _ (Nat.two_pow_pos n))
  rw [Nat.shiftRight_eq_div_pow, Nat.div_lt_iff_lt_mul (Nat.two_pow_pos s), ← pow_add]
  exact hlt

/-- The result and the lowest bits determine the number. -/
theorem eq_of_xorFold_eq (hs : 0 < s) {h h' : ℕ} (hlt : h < 2 ^ (n + s)) (hlt' : h' < 2 ^ (n + s))
    (hfold : xorFold n s h = xorFold n s h') (hlow : h % 2 ^ s = h' % 2 ^ s) : h = h' := by
  refine Nat.eq_of_testBit_eq fun i => ?_
  induction i using Nat.strong_induction_on with
  | _ i ih =>
    rcases Nat.lt_or_ge i s with hi | hi
    · -- one of the lowest bits
      have hbit := congrArg (fun x => x.testBit i) hlow
      simpa [Nat.testBit_mod_two_pow, hi] using hbit
    · rcases Nat.lt_or_ge i (n + s) with hi' | hi'
      · -- the bit that was turned around below tells this one
        obtain ⟨j, rfl⟩ := Nat.exists_eq_add_of_le hi
        have hbit := congrArg (fun x => x.testBit j) hfold
        simp only [testBit_xorFold _ j (show j < n by omega)] at hbit
        rw [ih j (by omega)] at hbit
        exact Bool.xor_left_inj.mp hbit
      · have hpow : 2 ^ (n + s) ≤ 2 ^ i := Nat.pow_le_pow_right (by decide) hi'
        rw [Nat.testBit_lt_two_pow (hlt.trans_le hpow), Nat.testBit_lt_two_pow (hlt'.trans_le hpow)]

/-- Every choice of the result and of the lowest bits is met by one number. -/
theorem xorFold_bijective (hs : 0 < s) :
    Function.Bijective fun h : Fin (2 ^ (n + s)) =>
      ((⟨xorFold n s h, xorFold_lt h.isLt⟩, ⟨h % 2 ^ s, Nat.mod_lt _ (Nat.two_pow_pos s)⟩) :
        Fin (2 ^ n) × Fin (2 ^ s)) := by
  rw [Fintype.bijective_iff_injective_and_card]
  constructor
  · intro h h' heq
    simp only [Prod.mk.injEq, Fin.mk.injEq] at heq
    exact Fin.ext (eq_of_xorFold_eq hs h.isLt h'.isLt heq.1 heq.2)
  · simp [pow_add]

/-- Every result is reached from the same number of numbers. -/
theorem card_xorFold (hs : 0 < s) {v : ℕ} (hv : v < 2 ^ n) :
    Nat.card {h : Fin (2 ^ (n + s)) // xorFold n s h = v} = 2 ^ s := by
  let low : {h : Fin (2 ^ (n + s)) // xorFold n s h = v} → Fin (2 ^ s) :=
    fun h => ⟨h.val % 2 ^ s, Nat.mod_lt _ (Nat.two_pow_pos s)⟩
  have hlow : Function.Bijective low := by
    constructor
    · rintro ⟨h, hh⟩ ⟨h', hh'⟩ heq
      have hmod : h.val % 2 ^ s = h'.val % 2 ^ s := congrArg Fin.val heq
      exact Subtype.ext (Fin.ext (eq_of_xorFold_eq hs h.isLt h'.isLt (hh.trans hh'.symm) hmod))
    · intro r
      obtain ⟨h, hh⟩ := (xorFold_bijective hs).2 (⟨v, hv⟩, r)
      simp only [Prod.mk.injEq, Fin.mk.injEq] at hh
      exact ⟨⟨h, hh.1⟩, hh.2⟩
  rw [Nat.card_eq_of_bijective low hlow, Nat.card_fin]

end Schaufel
