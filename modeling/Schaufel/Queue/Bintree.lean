import Mathlib.Order.Basic

/-!
# The search tree of `src/utils/bintree.c`

The tree of a queue maps the mark of a message to its `struct Xmark`.  `bin_find` and `bin_search`
hand the work to `tfind` and `tsearch`, which are taken for what their documentation promises: an
ordered map for the comparison function.  Such a map is kept here as the list of its nodes in the
order of `bin_intcomp`.

A node is never removed while threads work on the queue, so a pointer to the data of a node is
represented by the key of the node; `binModify` writes through such a pointer.
-/

namespace Schaufel

/-- `struct node`; the `free` function pointer belongs to the tear-down of the tree. -/
structure Node (β : Type) where
  elem : UInt32
  data : β
  deriving DecidableEq, Repr

/-- `bin_intcomp`: both unsigned keys are converted to `int` and compared there. -/
def binIntcomp (a b : UInt32) : Int :=
  if a.toInt32 < b.toInt32 then -1
  else if b.toInt32 < a.toInt32 then 1
  else 0

/-- The conversion to `int` loses nothing, so only equal keys compare as equal. -/
theorem binIntcomp_eq_zero_iff {a b : UInt32} : binIntcomp a b = 0 ↔ a = b := by
  unfold binIntcomp
  constructor
  · intro h
    have hle : ¬ a.toInt32 < b.toInt32 ∧ ¬ b.toInt32 < a.toInt32 := by
      constructor <;> intro hlt <;> simp [hlt] at h
      split at h <;> simp at h
    have heq : a.toInt32 = b.toInt32 :=
      Int32.le_antisymm (Int32.not_lt.mp hle.2) (Int32.not_lt.mp hle.1)
    simpa using congrArg Int32.toUInt32 heq
  · rintro rfl
    simp

section Tree

variable {β : Type}

/-- `bin_find`: the data of the node whose key compares as equal. -/
def binFind (tree : List (Node β)) (key : UInt32) : Option β :=
  (tree.find? fun n => binIntcomp n.elem key = 0).map Node.data

/-- `bin_search`: find the node with the key of the given one or insert it at its place. -/
def binSearch (node : Node β) : List (Node β) → List (Node β)
  | [] => [node]
  | n :: tree =>
    if binIntcomp node.elem n.elem = 0 then n :: tree
    else if binIntcomp node.elem n.elem < 0 then node :: n :: tree
    else n :: binSearch node tree

/-- Write through the pointer to the data of the node with the given key. -/
def binModify (key : UInt32) (f : β → β) (tree : List (Node β)) : List (Node β) :=
  tree.map fun n => if binIntcomp n.elem key = 0 then { n with data := f n.data } else n

@[simp] theorem binFind_nil (key : UInt32) : binFind ([] : List (Node β)) key = none := rfl

/-- Lookup in a tree with at least one node. -/
theorem binFind_cons (n : Node β) (tree : List (Node β)) (key : UInt32) :
    binFind (n :: tree) key = if n.elem = key then some n.data else binFind tree key := by
  unfold binFind
  rw [List.find?_cons]
  by_cases h : n.elem = key
  · simp [h, binIntcomp_eq_zero_iff.mpr]
  · have hne : ¬ binIntcomp n.elem key = 0 := fun h0 => h (binIntcomp_eq_zero_iff.mp h0)
    simp [h, hne]

/-- Inserting a new key changes the lookup at that key only. -/
theorem binFind_binSearch {tree : List (Node β)} {key : UInt32} (hnew : binFind tree key = none)
    (x : β) (key' : UInt32) :
    binFind (binSearch ⟨key, x⟩ tree) key' =
      if key' = key then some x else binFind tree key' := by
  induction tree with
  | nil => simp [binSearch, binFind_cons, eq_comm]
  | cons n tree ih =>
    rw [binFind_cons] at hnew
    have hne : n.elem ≠ key := by
      intro h
      simp [h] at hnew
    have hne' : ¬ binIntcomp key n.elem = 0 := fun h => hne (binIntcomp_eq_zero_iff.mp h).symm
    rw [if_neg hne] at hnew
    simp only [binSearch, if_neg hne']
    split
    · simp only [binFind_cons, eq_comm]
    · rw [binFind_cons, binFind_cons, ih hnew]
      by_cases hk : n.elem = key'
      · simp [hk, hk ▸ hne]
      · simp [hk]

/-- Writing through the pointer of a node changes the lookup at its key only. -/
theorem binFind_binModify (key : UInt32) (f : β → β) (tree : List (Node β)) (key' : UInt32) :
    binFind (binModify key f tree) key' =
      if key' = key then (binFind tree key).map f else binFind tree key' := by
  induction tree with
  | nil => simp [binModify]
  | cons n tree ih =>
    have hcons : binModify key f (n :: tree) =
        (if binIntcomp n.elem key = 0 then { n with data := f n.data } else n) ::
          binModify key f tree := rfl
    by_cases hn : n.elem = key
    · rw [hcons, if_pos (binIntcomp_eq_zero_iff.mpr hn), binFind_cons, binFind_cons, binFind_cons,
        ih, if_pos hn]
      by_cases hk : key' = key
      · simp [hk, hn]
      · have hk' : key ≠ key' := fun h => hk h.symm
        simp [hk, hn, hk']
    · have hn' : ¬ binIntcomp n.elem key = 0 := fun h => hn (binIntcomp_eq_zero_iff.mp h)
      rw [hcons, if_neg hn', binFind_cons, binFind_cons, binFind_cons, ih, if_neg hn]
      by_cases hk : key' = key
      · simp [hk, hn]
      · simp [hk]

end Tree

end Schaufel
