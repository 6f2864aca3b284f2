import Mathlib.Data.List.Forall2
import Mathlib.Data.List.Basic

/-!
# Two ways to group a list

Every element of a list stands for a group of values, in two ways, and the groups of both ways hold
the same values up to their order.  If a predicate passes from each value of the first way to the
value in its place in the second way, then it also passes back: no value can be made up for by one
of another group.  In the same way, groups that are not larger in the first way have the same size
in both.
-/

namespace Schaufel

variable {α β : Type} {p : β → Bool} {R S : α → List β → Prop}

/-- A predicate that passes from a list to another one in place does not become rarer; it passes
back if it is as rare. -/
theorem countP_of_forall₂_imp {xs ys : List β}
    (h : List.Forall₂ (fun x y => p x = true → p y = true) xs ys) :
    xs.countP p ≤ ys.countP p ∧
      (ys.countP p ≤ xs.countP p → List.Forall₂ (fun x y => p y = true → p x = true) xs ys) := by
  induction h with
  | nil => exact ⟨Nat.le_refl _, fun _ => .nil⟩
  | @cons x y xs ys hxy htail ih =>
    obtain ⟨hle, hback⟩ := ih
    rw [List.countP_cons, List.countP_cons]
    by_cases hx : p x = true
    · rw [if_pos hx, if_pos (hxy hx)]
      exact ⟨by omega, fun hge => .cons (fun _ => hx) (hback (by omega))⟩
    · rw [if_neg hx]
      by_cases hy : p y = true
      · rw [if_pos hy]
        exact ⟨by omega, fun hge => by omega⟩
      · rw [if_neg hy]
        exact ⟨by omega, fun hge => .cons (fun h => absurd h hy) (hback (by omega))⟩

/-- If no group has more values with a property in the first way than in the second, and there are
not more of them in the second way altogether, then no group has more in the second way. -/
theorem countP_flatten_of_le {xs : List α} {as bs : List (List β)} (has : List.Forall₂ R xs as)
    (hbs : List.Forall₂ S xs bs) (hle : ∀ x a b, R x a → S x b → a.countP p ≤ b.countP p) :
    as.flatten.countP p ≤ bs.flatten.countP p ∧
      (bs.flatten.countP p ≤ as.flatten.countP p →
        ∀ x ∈ xs, ∃ a b, R x a ∧ S x b ∧ b.countP p ≤ a.countP p) := by
  induction has generalizing bs with
  | nil =>
    cases hbs
    exact ⟨Nat.le_refl _, fun _ => List.forall_mem_nil _⟩
  | @cons x a xs as hxa htail ih =>
    cases hbs with
    | @cons _ b _ bs hxb hbs =>
      obtain ⟨hrest, hback⟩ := ih hbs
      have hhead := hle x a b hxa hxb
      simp only [List.flatten_cons, List.countP_append]
      refine ⟨by omega, fun hge => List.forall_mem_cons.mpr ⟨?_, hback (by omega)⟩⟩
      exact ⟨a, b, hxa, hxb, by omega⟩

/-- Groups that are not larger in the first way have the same size in both. -/
theorem length_eq_of_perm_flatten {xs : List α} {as bs : List (List β)} (has : List.Forall₂ R xs as)
    (hbs : List.Forall₂ S xs bs) (hle : ∀ x a b, R x a → S x b → a.length ≤ b.length)
    (hperm : as.flatten.Perm bs.flatten) :
    ∀ x ∈ xs, ∃ a b, R x a ∧ S x b ∧ a.length = b.length := by
  intro x hx
  obtain ⟨a, b, ha, hb, hge⟩ := (countP_flatten_of_le (p := fun _ => true) has hbs
    (by simpa only [List.countP_true] using hle)).2 (Nat.le_of_eq (hperm.countP_eq _).symm) x hx
  rw [List.countP_true] at hge
  exact ⟨a, b, ha, hb, Nat.le_antisymm (hle x a b ha hb) hge⟩

/-- The groups of both ways agree on the predicate, in place. -/
theorem forall₂_of_perm_flatten {xs : List α} {as bs : List (List β)} (has : List.Forall₂ R xs as)
    (hbs : List.Forall₂ S xs bs)
    (himp : ∀ x a b, R x a → S x b → List.Forall₂ (fun y z => p y = true → p z = true) a b)
    (hperm : as.flatten.Perm bs.flatten) :
    ∀ x ∈ xs, ∃ a b, R x a ∧ S x b ∧ List.Forall₂ (fun y z => p z = true → p y = true) a b := by
  intro x hx
  obtain ⟨a, b, ha, hb, hge⟩ := (countP_flatten_of_le has hbs fun x a b ha hb =>
    (countP_of_forall₂_imp (himp x a b ha hb)).1).2 (Nat.le_of_eq (hperm.countP_eq p).symm) x hx
  exact ⟨a, b, ha, hb, (countP_of_forall₂_imp (himp x a b ha hb)).2 hge⟩

end Schaufel
