import Mathlib.Data.List.Forall2

/-!
# Lists that correspond to each other

Element by element (`map_eq_of_forall₂`), by the numbers of the elements (`forall₂_of_numbered`),
group by group (`exists_flatten_eq_map`), and by a step that undoes another one
(`mapM_map_eq_some`).  What is there at one place only corresponds by `Option.Rel`.
-/

namespace Schaufel

/-- What two lists that correspond to each other have in common. -/
theorem map_eq_of_forall₂ {α β γ : Type} {R : α → β → Prop} {f : α → γ} {g : β → γ}
    (hR : ∀ a b, R a b → f a = g b) {as : List α} {bs : List β} (h : List.Forall₂ R as bs) :
    as.map f = bs.map g := by
  induction h with
  | nil => rfl
  | cons hab _ ih => rw [List.map_cons, List.map_cons, hR _ _ hab, ih]

theorem exists_of_forall₂ {α β : Type} {R : α → β → Prop} {as : List α} {bs : List β}
    (h : List.Forall₂ R as bs) {b : β} (hb : b ∈ bs) : ∃ a ∈ as, R a b := by
  induction h with
  | nil => cases hb
  | @cons a b' as bs hab _ ih =>
    rcases List.mem_cons.mp hb with rfl | hb
    · exact ⟨a, List.mem_cons_self, hab⟩
    · obtain ⟨a', ha', hR⟩ := ih hb
      exact ⟨a', List.mem_cons_of_mem a ha', hR⟩

/-- Elements that are numbered without a gap correspond to a segment of a list. -/
theorem forall₂_of_numbered {α β γ : Type} {items : List α} {P : α → γ → Prop} {xs : List β}
    {ys : List γ} (num : β → Nat) (off : Nat)
    (h : List.Forall₂ (fun x y => ∃ a, items[num x]? = some a ∧ P a y) xs ys)
    (hnum : ∀ m x, xs[m]? = some x → num x = off + m) :
    List.Forall₂ P ((items.drop off).take ys.length) ys := by
  induction h generalizing off with
  | nil => exact .nil
  | @cons x y xs ys hxy _ ih =>
    obtain ⟨a, ha, hP⟩ := hxy
    rw [hnum 0 x rfl, Nat.add_zero] at ha
    obtain ⟨hlt, rfl⟩ := List.getElem?_eq_some_iff.mp ha
    rw [List.drop_eq_getElem_cons hlt, List.length_cons, List.take_succ_cons]
    refine .cons hP (ih (off + 1) fun m x' hx' => ?_)
    rw [hnum (m + 1) x' hx']
    omega

/-- What is there at one place and its counterpart. -/
theorem optionRel_imp {α β : Type} {R S : α → β → Prop} {o : Option α} {x : Option β}
    (h : Option.Rel R o x) (himp : ∀ a b, x = some b → R a b → S a b) : Option.Rel S o x := by
  cases h with
  | none => exact .none
  | some hab => exact .some (himp _ _ rfl hab)

theorem eq_none_of_optionRel {α β : Type} {R : α → β → Prop} {x : Option β}
    (h : Option.Rel R none x) : x = none := by
  cases h
  rfl

theorem exists_of_optionRel {α β : Type} {R : α → β → Prop} {a : α} {x : Option β}
    (h : Option.Rel R (some a) x) : ∃ b, x = some b ∧ R a b := by
  cases h with
  | some hab => exact ⟨_, rfl, hab⟩

/-- A grouping of mapped elements is a grouping of the elements, mapped. -/
theorem exists_flatten_eq_map {α β : Type} {f : α → β} {groups : List (List β)} {as : List α}
    (h : groups.flatten = as.map f) :
    ∃ gs : List (List α), gs.flatten = as ∧ groups = gs.map (List.map f) := by
  induction groups generalizing as with
  | nil =>
    obtain rfl : as = [] := List.map_eq_nil_iff.mp h.symm
    exact ⟨[], rfl, rfl⟩
  | cons group groups ih =>
    rw [List.flatten_cons] at h
    obtain ⟨as₁, as₂, rfl, rfl, h₂⟩ := List.map_eq_append_iff.mp h.symm
    obtain ⟨gs, rfl, rfl⟩ := ih h₂.symm
    exact ⟨as₁ :: gs, rfl, rfl⟩

/-- A step that undoes what made the elements of a list undoes it for the list. -/
theorem mapM_map_eq_some {α β : Type} {f : α → β} {g : β → Option α} {as : List α}
    (h : ∀ a ∈ as, g (f a) = some a) : (as.map f).mapM g = some as := by
  induction as with
  | nil => rfl
  | cons a as ih =>
    rw [List.forall_mem_cons] at h
    rw [List.map_cons, List.mapM_cons, h.1, ih h.2]
    rfl

end Schaufel
