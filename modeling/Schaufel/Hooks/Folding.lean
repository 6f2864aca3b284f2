import Mathlib.Tactic.IntervalCases
import Schaufel.Foundation.XorFold
import Schaufel.Hooks.Fnv

/-!
# Folding a hash into fewer bits

`_fold` computes in 32-bit arithmetic.  For the widths of the table `fold_types` its result is the
exclusive or of the upper bits and the lower bits as numbers, so the marks of a fold are spread
evenly.
-/

namespace Schaufel

variable {n : ℕ}

/-- The mask of `_fold`. -/
theorem toNat_foldMask (hn : n ≤ 31) :
    (((1 : UInt32) <<< UInt32.ofNat n) - 1).toNat = 2 ^ n - 1 := by
  interval_cases n <;> rfl

/-- The distance by which `_fold` shifts. -/
theorem toNat_foldShift (hn₀ : 1 ≤ n) (hn : n ≤ 31) :
    ((32 : UInt32) - UInt32.ofNat n).toNat = 32 - n := by
  interval_cases n <;> rfl

/-- `_fold` as arithmetic of numbers. -/
theorem toNat_foldHash (hn₀ : 1 ≤ n) (hn : n ≤ 31) (h : UInt32) :
    (foldHash (UInt32.ofNat n) h).toNat = xorFold n (32 - n) h.toNat := by
  have hshift : (32 - n) % 32 = 32 - n := Nat.mod_eq_of_lt (by omega)
  rw [foldHash, UInt32.toNat_xor, UInt32.toNat_shiftRight, UInt32.toNat_and, toNat_foldMask hn,
    toNat_foldShift hn₀ hn, hshift, Nat.and_two_pow_sub_one_eq_mod, xorFold]

/-- The hashes of a mark, counted as numbers. -/
theorem card_foldHash (hn₀ : 1 ≤ n) (hn : n ≤ 31) {v : ℕ} (hv : v < 2 ^ n) :
    Nat.card {h : UInt32 // (foldHash (UInt32.ofNat n) h).toNat = v} = 2 ^ (32 - n) := by
  rw [← card_xorFold (n := n) (s := 32 - n) (by omega) hv]
  have hwidth : n + (32 - n) = 32 := by omega
  refine Nat.card_eq_of_bijective
    (fun h => ⟨⟨h.val.toNat, by rw [hwidth]; exact h.val.toNat_lt⟩, ?_⟩) ⟨?_, ?_⟩
  · rw [← toNat_foldHash hn₀ hn]
    exact h.property
  · rintro ⟨h, hh⟩ ⟨h', hh'⟩ heq
    simp only [Subtype.mk.injEq, Fin.mk.injEq] at heq
    exact Subtype.ext (UInt32.toNat_inj.mp heq)
  · rintro ⟨⟨h, hlt⟩, hh⟩
    have hsize : h < 2 ^ 32 := hwidth ▸ hlt
    have hval : (UInt32.ofNat h).toNat = h := UInt32.toNat_ofNat_of_lt' hsize
    refine ⟨⟨UInt32.ofNat h, ?_⟩, ?_⟩
    · rw [toNat_foldHash hn₀ hn, hval]
      exact hh
    · simp only [hval]

/-- The marks of a fold are the numbers of its width, and each of them is the mark of the same
number of hashes. -/
theorem fold_balanced (hn₀ : 1 ≤ n) (hn : n ≤ 31) :
    (∀ h : UInt32, (foldHash (UInt32.ofNat n) h).toNat =
      (h.toNat >>> (32 - n)) ^^^ (h.toNat &&& (2 ^ n - 1))) ∧
    (∀ h : UInt32, (foldHash (UInt32.ofNat n) h).toNat < 2 ^ n) ∧
    ∀ v < 2 ^ n, Nat.card {h : UInt32 // (foldHash (UInt32.ofNat n) h).toNat = v} =
      2 ^ (32 - n) := by
  refine ⟨fun h => ?_, fun h => ?_, fun v hv => card_foldHash hn₀ hn hv⟩
  · rw [toNat_foldHash hn₀ hn, Nat.and_two_pow_sub_one_eq_mod, xorFold]
  · rw [toNat_foldHash hn₀ hn]
    refine xorFold_lt ?_
    rw [show n + (32 - n) = 32 by omega]
    exact h.toNat_lt

/-- Folding to 17 bits, where the two parts overlap. -/
theorem fold17_balanced :
    Nat.card {h : UInt32 // (foldHash (UInt32.ofNat 17) h).toNat = 5} = 2 ^ 15 :=
  (fold_balanced (n := 17) (by decide) (by decide)).2.2 5 (by decide)

end Schaufel
