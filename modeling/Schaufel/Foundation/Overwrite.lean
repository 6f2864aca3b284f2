import Mathlib.Data.List.Forall2
import Mathlib.Data.List.Infix

/-!
# Overwriting the occurrences of a pattern

`Overwritten pat mark` relates a list to the outcome of a search from left to right that writes
`mark` over every occurrence of `pat` it meets and goes on behind it.  `Marked mark` only says that
what has changed has become `mark`.

If `mark` is not in the pattern, overwriting cannot create an occurrence, neither of this pass nor
of a later one.
-/

namespace Schaufel

variable {α : Type*} {pat : List α} {mark : α}

/-! ### Lists with marks -/

/-- `out` is `buf` with `mark` in the place of some elements. -/
def Marked (mark : α) (buf out : List α) : Prop :=
  List.Forall₂ (fun b c => c = b ∨ c = mark) buf out

theorem Marked.refl (mark : α) (buf : List α) : Marked mark buf buf :=
  List.forall₂_same.mpr fun _ _ => .inl rfl

theorem Marked.trans {buf mid out : List α} (h : Marked mark buf mid) (h' : Marked mark mid out) :
    Marked mark buf out := by
  induction h generalizing out with
  | nil => exact h'
  | cons hb _ ih =>
    cases h' with
    | cons hc hrest =>
      refine .cons ?_ (ih hrest)
      rcases hc with rfl | hc
      · exact hb
      · exact .inr hc

theorem Marked.append {buf out buf' out' : List α} (h : Marked mark buf out)
    (h' : Marked mark buf' out') :
    Marked mark (buf ++ buf') (out ++ out') :=
  List.rel_append h h'

theorem Marked.length_eq {buf out : List α} (h : Marked mark buf out) : out.length = buf.length :=
  (List.Forall₂.length_eq h).symm

/-- An element that changes becomes the mark. -/
theorem Marked.getElem?_eq {buf out : List α} (h : Marked mark buf out) {i : ℕ} {b : α}
    (hb : buf[i]? = some b) (hne : out[i]? ≠ some b) : out[i]? = some mark := by
  induction h generalizing i with
  | nil => simp at hb
  | cons hc _ ih =>
    cases i with
    | zero =>
      rcases hc with rfl | rfl
      · exact absurd hb hne
      · rfl
    | succ i => exact ih hb hne

/-- A pattern without the mark that starts here did so before. -/
theorem Marked.isPrefix {buf out : List α} (h : Marked mark buf out) (hpat : mark ∉ pat)
    (hout : pat <+: out) : pat <+: buf := by
  induction h generalizing pat with
  | nil => exact hout
  | cons hc _ ih =>
    cases pat with
    | nil => exact List.nil_prefix
    | cons p pat =>
      obtain ⟨rfl, hrest⟩ := List.cons_prefix_cons.mp hout
      rw [List.mem_cons, not_or] at hpat
      rw [hc.resolve_right (Ne.symm hpat.1), List.cons_prefix_cons]
      exact ⟨rfl, ih hpat.2 hrest⟩

/-- A pattern without the mark that occurs did so before. -/
theorem Marked.isInfix {buf out : List α} (h : Marked mark buf out) (hpat : mark ∉ pat)
    (hout : pat <:+: out) : pat <:+: buf := by
  induction h with
  | nil => exact hout
  | cons hc hrest ih =>
    rcases List.infix_cons_iff.mp hout with hprefix | hinfix
    · exact (Marked.isPrefix (.cons hc hrest) hpat hprefix).isInfix
    · exact List.infix_cons_iff.mpr (.inr (ih hinfix))

/-! ### The search -/

/-- `out` is what the search leaves of `buf`. -/
inductive Overwritten (pat : List α) (mark : α) : List α → List α → Prop
  | nil : Overwritten pat mark [] []
  /-- An occurrence is overwritten as a whole. -/
  | hit {rest out : List α} : Overwritten pat mark rest out →
      Overwritten pat mark (pat ++ rest) (List.replicate pat.length mark ++ out)
  /-- Where none starts, the search goes on. -/
  | miss {a : α} {rest out : List α} : ¬ pat <+: a :: rest → Overwritten pat mark rest out →
      Overwritten pat mark (a :: rest) (a :: out)

theorem marked_replicate (mark : α) (buf : List α) :
    Marked mark buf (List.replicate buf.length mark) := by
  induction buf with
  | nil => exact .nil
  | cons _ _ ih => exact .cons (.inr rfl) ih

theorem Overwritten.marked {buf out : List α} (h : Overwritten pat mark buf out) :
    Marked mark buf out := by
  induction h with
  | nil => exact .nil
  | hit _ ih => exact (marked_replicate mark pat).append ih
  | miss _ _ ih => exact .cons (.inl rfl) ih

/-- No occurrence starts in the marks. -/
theorem infix_of_replicate_append {n : ℕ} {out : List α} (hne : pat ≠ []) (hpat : mark ∉ pat)
    (h : pat <:+: List.replicate n mark ++ out) : pat <:+: out := by
  induction n with
  | zero => exact h
  | succ n ih =>
    rw [List.replicate_succ, List.cons_append] at h
    rcases List.infix_cons_iff.mp h with hprefix | hinfix
    · cases pat with
      | nil => exact absurd rfl hne
      | cons p pat =>
        obtain ⟨rfl, -⟩ := List.cons_prefix_cons.mp hprefix
        exact absurd List.mem_cons_self hpat
    · exact ih hinfix

/-- The search leaves no occurrence. -/
theorem Overwritten.not_infix {buf out : List α} (h : Overwritten pat mark buf out) (hne : pat ≠ [])
    (hpat : mark ∉ pat) : ¬ pat <:+: out := by
  induction h with
  | nil =>
    intro hinfix
    exact hne (List.infix_nil.mp hinfix)
  | hit _ ih =>
    intro hinfix
    exact ih (infix_of_replicate_append hne hpat hinfix)
  | miss hmiss hrest ih =>
    intro hinfix
    rcases List.infix_cons_iff.mp hinfix with hprefix | hinfix
    · exact hmiss (Marked.isPrefix (.cons (.inl rfl) hrest.marked) hpat hprefix)
    · exact ih hinfix

/-- What has changed was in an occurrence. -/
theorem Overwritten.exists_of_ne {buf out : List α} (h : Overwritten pat mark buf out) {i : ℕ}
    (hne : out[i]? ≠ buf[i]?) : ∃ j ≤ i, i < j + pat.length ∧ pat <+: buf.drop j := by
  induction h generalizing i with
  | nil => exact absurd rfl hne
  | @hit rest out _ ih =>
    by_cases hi : i < pat.length
    · exact ⟨0, Nat.zero_le i, by omega, List.prefix_append _ _⟩
    · obtain ⟨k, rfl⟩ := Nat.exists_eq_add_of_le (Nat.le_of_not_lt hi)
      rw [List.getElem?_append_right (by simp), List.getElem?_append_right (by omega),
        List.length_replicate, Nat.add_sub_cancel_left] at hne
      obtain ⟨j, hle, hlt, hj⟩ := ih hne
      refine ⟨pat.length + j, by omega, by omega, ?_⟩
      rwa [List.drop_append, List.drop_eq_nil_of_le (by omega), List.nil_append,
        Nat.add_sub_cancel_left]
  | miss _ _ ih =>
    cases i with
    | zero => exact absurd rfl hne
    | succ i =>
      obtain ⟨j, hle, hlt, hj⟩ := ih hne
      exact ⟨j + 1, by omega, by omega, hj⟩

/-- There is one outcome only. -/
theorem Overwritten.unique {buf out out' : List α} (hne : pat ≠ [])
    (h : Overwritten pat mark buf out) (h' : Overwritten pat mark buf out') : out = out' := by
  induction h generalizing out' with
  | nil =>
    generalize hnil : ([] : List α) = buf at h'
    cases h' with
    | nil => rfl
    | hit _ => exact absurd (List.append_eq_nil_iff.mp hnil.symm).1 hne
    | miss _ _ => cases hnil
  | @hit rest out _ ih =>
    generalize hbuf : pat ++ rest = buf at h'
    cases h' with
    | nil => exact absurd (List.append_eq_nil_iff.mp hbuf).1 hne
    | hit h' =>
      obtain rfl := List.append_cancel_left hbuf
      rw [ih h']
    | miss hmiss _ => exact absurd (hbuf ▸ List.prefix_append pat rest) hmiss
  | @miss a rest out hmiss _ ih =>
    generalize hbuf : a :: rest = buf at h'
    cases h' with
    | nil => cases hbuf
    | hit _ => exact absurd (hbuf ▸ List.prefix_append _ _) hmiss
    | miss _ h' =>
      obtain ⟨rfl, rfl⟩ := List.cons.inj hbuf
      rw [ih h']

/-- Elements that start no occurrence are passed. -/
theorem Overwritten.append_left {p : α} {tail s rest out : List α} (hs : p ∉ s)
    (h : Overwritten (p :: tail) mark rest out) :
    Overwritten (p :: tail) mark (s ++ rest) (s ++ out) := by
  induction s with
  | nil => exact h
  | cons a s ih =>
    rw [List.mem_cons, not_or] at hs
    refine .miss (fun hprefix => hs.1 ?_) (ih hs.2)
    exact (List.cons_prefix_cons.mp hprefix).1

end Schaufel
