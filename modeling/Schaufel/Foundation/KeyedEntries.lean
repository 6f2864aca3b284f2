import Mathlib.Data.List.Nodup
import Mathlib.Data.List.Perm.Basic
import Mathlib.Logic.Function.Basic

/-!
# Maps as lists of entries

A container that is used as a map has entries, each of which has a key, in some order.
`KeyedEntries key f l` says that the entries in `l` have different keys and that the map they stand
for is `f`.  The order of the entries does not count; adding an entry under a new key, removing one
and exchanging one for another of the same key are updates of the map.
-/

namespace Schaufel

variable {κ ν : Type*} {key : ν → κ} {f : κ → Option ν} {l l' : List ν} {k : κ} {c old : ν}

/-- The map of a list of entries with different keys. -/
structure KeyedEntries (key : ν → κ) (f : κ → Option ν) (l : List ν) : Prop where
  distinct : (l.map key).Nodup
  eq_some_iff : ∀ k c, f k = some c ↔ c ∈ l ∧ key c = k

theorem keyedEntries_nil : KeyedEntries key (fun _ => none) [] := by
  refine ⟨List.nodup_nil, fun k c => ?_⟩
  simp

namespace KeyedEntries

theorem perm (h : KeyedEntries key f l) (hperm : l.Perm l') : KeyedEntries key f l' := by
  refine ⟨(hperm.map key).nodup_iff.mp h.distinct, fun k c => ?_⟩
  rw [h.eq_some_iff, hperm.mem_iff]

theorem eq_none_iff (h : KeyedEntries key f l) : f k = none ↔ k ∉ l.map key := by
  constructor
  · intro hnone hmem
    obtain ⟨c, hc, hkey⟩ := List.mem_map.mp hmem
    have hsome := (h.eq_some_iff k c).mpr ⟨hc, hkey⟩
    rw [hnone] at hsome
    cases hsome
  · intro hnot
    rw [Option.eq_none_iff_forall_not_mem]
    intro c hc
    obtain ⟨hmem, hkey⟩ := (h.eq_some_iff k c).mp hc
    exact hnot (List.mem_map.mpr ⟨c, hmem, hkey⟩)

/-- The entries of a map are given by it up to their order. -/
theorem perm_of_keyedEntries (h : KeyedEntries key f l) (h' : KeyedEntries key f l') :
    l.Perm l' := by
  rw [List.perm_ext_iff_of_nodup h.distinct.of_map h'.distinct.of_map]
  intro c
  have hc := h.eq_some_iff (key c) c
  have hc' := h'.eq_some_iff (key c) c
  rw [hc] at hc'
  simpa using hc'

/-- What is under a key is an entry. -/
theorem exists_perm_cons (h : KeyedEntries key f l) (hold : f k = some old) :
    key old = k ∧ ∃ rest, l.Perm (old :: rest) := by
  obtain ⟨hmem, hkey⟩ := (h.eq_some_iff k old).mp hold
  obtain ⟨l₁, l₂, rfl⟩ := List.append_of_mem hmem
  exact ⟨hkey, l₁ ++ l₂, List.perm_middle⟩

variable [DecidableEq κ]

/-- An entry is added under a new key. -/
theorem cons (h : KeyedEntries key f l) (hnew : f (key c) = none) :
    KeyedEntries key (Function.update f (key c) (some c)) (c :: l) := by
  have hnot := h.eq_none_iff.mp hnew
  refine ⟨List.nodup_cons.mpr ⟨hnot, h.distinct⟩, fun k e => ?_⟩
  by_cases hk : k = key c
  · subst hk
    rw [Function.update_self, Option.some_inj]
    constructor
    · rintro rfl
      exact ⟨List.mem_cons_self, rfl⟩
    · rintro ⟨hmem, hkey⟩
      rcases List.mem_cons.mp hmem with rfl | hmem
      · rfl
      · exact absurd (List.mem_map.mpr ⟨e, hmem, hkey⟩) hnot
  · rw [Function.update_of_ne hk, h.eq_some_iff]
    constructor
    · rintro ⟨hmem, hkey⟩
      exact ⟨List.mem_cons_of_mem c hmem, hkey⟩
    · rintro ⟨hmem, hkey⟩
      rcases List.mem_cons.mp hmem with rfl | hmem
      · exact absurd hkey.symm hk
      · exact ⟨hmem, hkey⟩

/-- An entry is removed. -/
theorem tail (h : KeyedEntries key f (c :: l)) :
    KeyedEntries key (Function.update f (key c) none) l := by
  obtain ⟨hnot, hdistinct⟩ := List.nodup_cons.mp h.distinct
  refine ⟨hdistinct, fun k e => ?_⟩
  by_cases hk : k = key c
  · subst hk
    rw [Function.update_self]
    constructor
    · rintro ⟨⟩
    · rintro ⟨hmem, hkey⟩
      exact absurd (List.mem_map.mpr ⟨e, hmem, hkey⟩) hnot
  · rw [Function.update_of_ne hk, h.eq_some_iff]
    constructor
    · rintro ⟨hmem, hkey⟩
      rcases List.mem_cons.mp hmem with rfl | hmem
      · exact absurd hkey.symm hk
      · exact ⟨hmem, hkey⟩
    · rintro ⟨hmem, hkey⟩
      exact ⟨List.mem_cons_of_mem c hmem, hkey⟩

/-- An entry is exchanged for another one of the same key. -/
theorem replace (h : KeyedEntries key f (old :: l)) (hkey : key old = key c) :
    KeyedEntries key (Function.update f (key c) (some c)) (c :: l) := by
  have hcleared := h.tail
  rw [hkey] at hcleared
  have hadded := hcleared.cons (c := c) (Function.update_self _ _ _)
  rwa [Function.update_idem] at hadded

/-- After an insertion there are the new entry and the old ones but the one that was replaced. -/
theorem perm_insert (h : KeyedEntries key f l)
    (h' : KeyedEntries key (Function.update f (key c) (some c)) l') :
    (l' ++ (f (key c)).toList).Perm (c :: l) := by
  cases hold : f (key c) with
  | none =>
    rw [Option.toList_none, List.append_nil]
    exact h'.perm_of_keyedEntries (h.cons hold)
  | some old =>
    obtain ⟨hkey, rest, hperm⟩ := h.exists_perm_cons hold
    have hnew := h'.perm_of_keyedEntries ((h.perm hperm).replace hkey)
    refine (List.perm_append_singleton old l').trans ((hnew.cons old).trans ?_)
    exact (List.Perm.swap c old rest).trans (hperm.symm.cons c)

/-- After a deletion there are the old entries but the one that was deleted. -/
theorem perm_delete (h : KeyedEntries key f l)
    (h' : KeyedEntries key (Function.update f k none) l') :
    (l' ++ (f k).toList).Perm l := by
  cases hold : f k with
  | none =>
    have hsame : Function.update f k none = f := Function.update_eq_self_iff.mpr hold.symm
    rw [hsame] at h'
    rw [Option.toList_none, List.append_nil]
    exact h'.perm_of_keyedEntries h
  | some old =>
    obtain ⟨rfl, rest, hperm⟩ := h.exists_perm_cons hold
    have hleft := h'.perm_of_keyedEntries (h.perm hperm).tail
    exact (List.perm_append_singleton old l').trans ((hleft.cons old).trans hperm.symm)

end KeyedEntries

/-- Entries that were taken out are kept behind others. -/
theorem perm_append_moved {taken : List ν} (h : (l' ++ taken).Perm l) (others : List ν) :
    (l' ++ (others ++ taken)).Perm (l ++ others) := by
  refine List.Perm.trans ?_ (h.append_right others)
  rw [List.append_assoc]
  exact List.perm_append_comm.append_left l'

end Schaufel
