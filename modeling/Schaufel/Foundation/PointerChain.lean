import Mathlib.Data.List.Nodup
import Mathlib.Logic.Function.Basic

/-!
# Chains of pointers

A linked list in memory is read here as a list of cells together with one pointer function
`f : α → Option α`: `Chain f l` says that `f` leads from every cell of `l` to the next one and from
the last cell to the null pointer.  A doubly linked list is two chains over the same cells, the
forward one along `l` and the backward one along `l.reverse`; a cell that sits in several lists has
one chain for each of them.

The lemmas used by a program are the frame rule `Chain.congr`, the rule `Chain.concat` for
linking a cell behind the last one, the rule `Chain.append` for linking a whole chain behind it and
the rule `Chain.unlink` for splicing a cell out of the middle.
-/

namespace Schaufel

variable {α : Type*}

/-- Following `f` visits the cells of the list one after the other and then ends. -/
def Chain (f : α → Option α) : List α → Prop
  | [] => True
  | a :: l => f a = l.head? ∧ Chain f l

@[simp] theorem chain_nil (f : α → Option α) : Chain f [] := trivial

@[simp] theorem chain_cons (f : α → Option α) (a : α) (l : List α) :
    Chain f (a :: l) ↔ f a = l.head? ∧ Chain f l := Iff.rfl

/-- A chain only depends on the pointers of its own cells. -/
theorem Chain.congr {f g : α → Option α} {l : List α} (h : Chain f l)
    (hfg : ∀ a ∈ l, g a = f a) : Chain g l := by
  induction l with
  | nil => trivial
  | cons a l ih =>
    refine ⟨(hfg a List.mem_cons_self).trans h.1, ih h.2 fun b hb => hfg b ?_⟩
    exact List.mem_cons_of_mem a hb

/-- A final segment of a chain is a chain. -/
theorem Chain.of_append_right {f : α → Option α} {l₁ l₂ : List α} (h : Chain f (l₁ ++ l₂)) :
    Chain f l₂ := by
  induction l₁ with
  | nil => exact h
  | cons a l₁ ih => exact ih h.2

/-- The pointer of a cell inside a chain leads to the cell behind it. -/
theorem Chain.apply_eq {f : α → Option α} {l₁ l₂ : List α} {a : α}
    (h : Chain f (l₁ ++ a :: l₂)) : f a = l₂.head? :=
  h.of_append_right.1

/-- The first cell determines the whole chain. -/
theorem Chain.eq_of_head?_eq {f : α → Option α} {l l' : List α} (h : Chain f l) (h' : Chain f l')
    (hhead : l.head? = l'.head?) : l = l' := by
  induction l generalizing l' with
  | nil => exact (List.head?_eq_none_iff.mp hhead.symm).symm
  | cons a l ih =>
    cases l' with
    | nil => cases hhead
    | cons b l' =>
      obtain rfl : a = b := Option.some.inj hhead
      rw [ih h.2 h'.2 (h.1.symm.trans h'.1)]

section Update

variable [DecidableEq α]

/-- Redirecting the pointer of a cell outside the chain does not change the chain. -/
theorem Chain.update_of_not_mem {f : α → Option α} {l : List α} (h : Chain f l) {b : α}
    (hb : b ∉ l) (v : Option α) : Chain (Function.update f b v) l := by
  refine h.congr fun a ha => ?_
  have hab : a ≠ b := by
    rintro rfl
    exact hb ha
  exact Function.update_of_ne hab v f

/-- Linking a fresh cell behind the last one: only the pointer of the old last cell changes. -/
theorem Chain.concat {f : α → Option α} {l : List α} (h : Chain f l) (hnd : l.Nodup) {a b : α}
    (ha : a ∉ l) (hfa : f a = none) (hb : l.getLast? = some b) :
    Chain (Function.update f b (some a)) (l ++ [a]) := by
  induction l with
  | nil => simp at hb
  | cons x l ih =>
    obtain ⟨hx, hl⟩ := List.nodup_cons.mp hnd
    have ha' : a ∉ l := fun hmem => ha (List.mem_cons_of_mem x hmem)
    cases l with
    | nil =>
      obtain rfl : x = b := by simpa using hb
      have hax : a ≠ x := fun hax => ha (hax ▸ List.mem_cons_self)
      simp [hax, hfa]
    | cons y l =>
      rw [List.getLast?_cons_cons] at hb
      have hxb : x ≠ b := fun hxb => hx (hxb ▸ List.mem_of_getLast? hb)
      refine ⟨?_, ih h.2 hl ha' hb⟩
      rw [Function.update_of_ne hxb, h.1]
      rfl

/-- Linking a chain behind the last cell of another one. -/
theorem Chain.append {f : α → Option α} {l₁ l₂ : List α} (h₁ : Chain f l₁) (h₂ : Chain f l₂)
    (hnd : (l₁ ++ l₂).Nodup) {b : α} (hb : l₁.getLast? = some b) :
    Chain (Function.update f b l₂.head?) (l₁ ++ l₂) := by
  induction l₁ with
  | nil => simp at hb
  | cons x l₁ ih =>
    obtain ⟨hx, hl⟩ := List.nodup_cons.mp hnd
    cases l₁ with
    | nil =>
      obtain rfl : x = b := by simpa using hb
      exact ⟨Function.update_self x l₂.head? f, h₂.update_of_not_mem hx _⟩
    | cons y l₁ =>
      rw [List.getLast?_cons_cons] at hb
      have hxb : x ≠ b := fun hxb => hx (hxb ▸ List.mem_append_left _ (List.mem_of_getLast? hb))
      refine ⟨?_, ih h₁.2 hl hb⟩
      rw [Function.update_of_ne hxb, h₁.1]
      rfl

/-- Splicing a cell out of the middle: the cell before it inherits its pointer. -/
theorem Chain.unlink {f : α → Option α} {l₁ l₂ : List α} {a b : α}
    (h : Chain f (l₁ ++ a :: l₂)) (hnd : (l₁ ++ a :: l₂).Nodup) (hb : l₁.getLast? = some b) :
    Chain (Function.update f b l₂.head?) (l₁ ++ l₂) := by
  induction l₁ with
  | nil => simp at hb
  | cons x l₁ ih =>
    obtain ⟨hx, hl⟩ := List.nodup_cons.mp hnd
    cases l₁ with
    | nil =>
      obtain rfl : x = b := by simpa using hb
      have hx' : x ∉ l₂ := fun hmem => hx (by simp [hmem])
      exact ⟨Function.update_self x l₂.head? f, h.2.2.update_of_not_mem hx' _⟩
    | cons y l₁ =>
      rw [List.getLast?_cons_cons] at hb
      have hmem : b ∈ y :: l₁ := List.mem_of_getLast? hb
      have hxb : x ≠ b := fun hxb => hx (hxb ▸ List.mem_append_left _ hmem)
      refine ⟨?_, ih h.2 hl hb⟩
      rw [Function.update_of_ne hxb, h.1]
      rfl

end Update

end Schaufel
