import Mathlib.Data.List.Induction

/-!
# First-in first-out order by key

A routed queue is one sequence of entries in the order of their arrival; a reader asks for a key and
is handed the oldest entry that has it.  `replay` computes the sequence from the log of the
operations, and a log is `Faithful` when every entry that was handed out was the oldest one of its
key at that moment.

The main result is `Faithful.pushed_filter_eq`: in a faithful log the entries of a key that were
handed out, followed by those still waiting, are the entries of that key that went in, in the same
order.  So no entry is lost, duplicated or overtaken by another one of its key.
-/

namespace Schaufel

/-- An operation on a keyed queue: an entry goes in, or an entry is handed out. -/
inductive FifoOp (α : Type*)
  | push (a : α)
  | pop (a : α)
  deriving DecidableEq, Repr

namespace FifoOp

variable {α κ : Type*} [DecidableEq κ] (key : α → κ)

/-- The effect of an operation on the waiting entries. -/
def apply (es : List α) : FifoOp α → List α
  | .push a => es ++ [a]
  | .pop a => es.eraseP fun e => key e = key a

/-- The entries waiting after the operations of a log. -/
def replay (ops : List (FifoOp α)) : List α := ops.foldl (apply key) []

/-- The entries that went in. -/
def pushed (ops : List (FifoOp α)) : List α :=
  ops.filterMap fun
    | .push a => some a
    | .pop _ => none

/-- The entries that were handed out. -/
def popped (ops : List (FifoOp α)) : List α :=
  ops.filterMap fun
    | .push _ => none
    | .pop a => some a

/-- Every entry that was handed out was the oldest one of its key. -/
def Faithful (ops : List (FifoOp α)) : Prop :=
  ∀ pre a post, ops = pre ++ .pop a :: post →
    (replay key pre).find? (fun e => key e = key a) = some a

@[simp] theorem replay_nil : replay key ([] : List (FifoOp α)) = [] := rfl

theorem replay_concat (ops : List (FifoOp α)) (op : FifoOp α) :
    replay key (ops ++ [op]) = apply key (replay key ops) op := by
  simp [replay]

/-- The oldest entry of a key splits the sequence. -/
theorem exists_split_of_find? {es : List α} {k : κ} {a : α}
    (h : es.find? (fun e => key e = k) = some a) :
    ∃ es₁ es₂, es = es₁ ++ a :: es₂ ∧ key a = k ∧ (∀ e ∈ es₁, key e ≠ k) ∧
      es.eraseP (fun e => key e = k) = es₁ ++ es₂ := by
  obtain ⟨ha, es₁, es₂, rfl, hne⟩ := List.find?_eq_some_iff_append.mp h
  refine ⟨es₁, es₂, rfl, by simpa using ha, fun e he => by simpa using hne e he, ?_⟩
  rw [List.eraseP_append_right, List.eraseP_cons_of_pos (p := fun e => decide (key e = k)) ha]
  exact fun e he => by simpa using hne e he

/-- Conversely, an entry behind entries of other keys only is the oldest one of its key. -/
theorem find?_of_split {es₁ es₂ : List α} {a : α} (hne : ∀ e ∈ es₁, key e ≠ key a) :
    (es₁ ++ a :: es₂).find? (fun e => key e = key a) = some a :=
  List.find?_eq_some_iff_append.mpr
    ⟨by simp, es₁, es₂, rfl, fun e he => by simpa using hne e he⟩

variable {key}

theorem Faithful.of_concat {ops : List (FifoOp α)} {op : FifoOp α}
    (h : Faithful key (ops ++ [op])) :
    Faithful key ops := by
  intro pre a post heq
  exact h pre a (post ++ [op]) (by simp [heq])

/-- A log stays faithful when an entry goes in. -/
theorem Faithful.push {ops : List (FifoOp α)} (h : Faithful key ops) (a : α) :
    Faithful key (ops ++ [.push a]) := by
  intro pre b post heq
  rcases List.eq_nil_or_concat post with rfl | ⟨post, op, rfl⟩
  · have := List.append_inj_right' heq rfl
    simp at this
  · rw [List.concat_eq_append, ← List.cons_append, ← List.append_assoc] at heq
    exact h pre b post (List.append_inj_left' heq rfl)

/-- A log stays faithful when the oldest entry of a key is handed out. -/
theorem Faithful.pop {ops : List (FifoOp α)} (h : Faithful key ops) {a : α}
    (ha : (replay key ops).find? (fun e => key e = key a) = some a) :
    Faithful key (ops ++ [.pop a]) := by
  intro pre b post heq
  rcases List.eq_nil_or_concat post with rfl | ⟨post, op, rfl⟩
  · obtain ⟨rfl, hop⟩ := List.append_inj' heq rfl
    obtain rfl : a = b := by simpa using hop
    exact ha
  · rw [List.concat_eq_append, ← List.cons_append, ← List.append_assoc] at heq
    exact h pre b post (List.append_inj_left' heq rfl)

/-- By key, the entries handed out followed by those still waiting are the entries that went in. -/
theorem Faithful.pushed_filter_eq {ops : List (FifoOp α)} (h : Faithful key ops) (k : κ) :
    (pushed ops).filter (fun e => key e = k) =
      (popped ops).filter (fun e => key e = k) ++ (replay key ops).filter (fun e => key e = k) := by
  induction ops using List.reverseRecOn with
  | nil => rfl
  | append_singleton ops op ih =>
    have ih := ih h.of_concat
    rw [replay_concat]
    cases op with
    | push a =>
      simp only [pushed, popped, List.filterMap_append, List.filterMap_cons, List.filterMap_nil,
        List.append_nil, List.filter_append, apply] at ih ⊢
      rw [ih, List.append_assoc]
    | pop a =>
      obtain ⟨es₁, es₂, hes, -, hne, herase⟩ :=
        exists_split_of_find? key (h ops a [] rfl)
      simp only [pushed, popped, List.filterMap_append, List.filterMap_cons, List.filterMap_nil,
        List.append_nil, List.filter_append, apply] at ih ⊢
      rw [ih, hes, List.append_assoc]
      congr 1
      rw [← hes, herase]
      by_cases hk : key a = k
      · subst hk
        have hnil : es₁.filter (fun e => key e = key a) = [] :=
          List.filter_eq_nil_iff.mpr fun e he => by simpa using hne e he
        simp [hes, hnil]
      · simp [hes, hk]

end FifoOp

end Schaufel
