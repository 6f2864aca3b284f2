import Schaufel.Foundation.PointerChain

/-!
# Tables of chains

A table of buckets is an array of pointers, each of which leads to the first cell of a chain.
`Buckets next items bs` says that the pointers in `items` and the pointer function `next` spell out
the lists of cells `bs`, and that no cell is in the table twice.

A program changes a table by taking a cell out of a bucket (`Buckets.unlinkHead`, `Buckets.unlink`),
by putting a cell that is in no bucket in front of one (`Buckets.push`) and by putting a whole
bucket behind another one (`Buckets.merge`).  Each of the rules says how the cells of the table
change, up to their order.
-/

namespace Schaufel

variable {α : Type*} {next : α → Option α} {items : List (Option α)} {bs : List (List α)}
  {i j : Nat} {b b' : List α} {c d : α}

/-! ### Lists of lists -/

/-- What is in a list already is written to it. -/
theorem set_eq_self {l : List α} (h : l[i]? = some c) : l.set i c = l := by
  obtain ⟨hlt, rfl⟩ := List.getElem?_eq_some_iff.mp h
  exact List.set_getElem_self hlt

/-- An entry is replaced by one of the same kind. -/
theorem map_set_eq_self {β : Type*} {f : α → β} {l : List α} (h : l[i]? = some c) (hd : f d = f c) :
    (l.set i d).map f = l.map f := by
  rw [List.map_set]
  apply set_eq_self
  rw [List.getElem?_map, h, Option.map_some, hd]

/-- A list of a list of lists, and the other ones. -/
theorem perm_flatten_eraseIdx (h : bs[i]? = some b) :
    bs.flatten.Perm (b ++ (bs.eraseIdx i).flatten) := by
  induction bs generalizing i with
  | nil => cases h
  | cons b₀ bs ih =>
    cases i with
    | zero =>
      obtain rfl := Option.some.inj h
      exact List.Perm.refl _
    | succ i =>
      have hrest := (ih h).append_left b₀
      rw [List.eraseIdx_cons_succ, List.flatten_cons, List.flatten_cons]
      refine hrest.trans ?_
      rw [← List.append_assoc, ← List.append_assoc]
      exact List.perm_append_comm.append_right _

/-- A list is replaced by another one. -/
theorem perm_flatten_set (h : i < bs.length) (b : List α) :
    (bs.set i b).flatten.Perm (b ++ (bs.eraseIdx i).flatten) := by
  have hset : (bs.set i b)[i]? = some b := List.getElem?_set_self h
  have hperm := perm_flatten_eraseIdx hset
  rwa [List.eraseIdx_set_eq] at hperm

/-- A cell is in one list only. -/
theorem eq_of_mem_of_mem (hnodup : bs.flatten.Nodup) (hi : bs[i]? = some b) (hj : bs[j]? = some b')
    (hb : c ∈ b) (hb' : c ∈ b') : i = j := by
  obtain ⟨hilt, rfl⟩ := List.getElem?_eq_some_iff.mp hi
  obtain ⟨hjlt, rfl⟩ := List.getElem?_eq_some_iff.mp hj
  have hdisjoint := List.pairwise_iff_getElem.mp (List.nodup_flatten.mp hnodup).2
  rcases Nat.lt_trichotomy i j with hlt | heq | hgt
  · exact absurd hb' (hdisjoint i j hilt hjlt hlt hb)
  · exact heq
  · exact absurd hb (hdisjoint j i hjlt hilt hgt hb')

theorem mem_flatten_of_getElem? (hi : bs[i]? = some b) (hc : c ∈ b) : c ∈ bs.flatten :=
  List.mem_flatten.mpr ⟨b, List.mem_of_getElem? hi, hc⟩

/-- A list of lists with empty ones behind it. -/
theorem getElem?_append_replicate {n : Nat} (h : (bs ++ List.replicate n [])[i]? = some b) :
    bs[i]? = some b ∧ i < bs.length ∨ b = [] := by
  rcases Nat.lt_or_ge i bs.length with hlt | hge
  · rw [List.getElem?_append_left hlt] at h
    exact .inl ⟨h, hlt⟩
  · rw [List.getElem?_append_right hge] at h
    exact .inr (List.eq_of_mem_replicate (List.mem_of_getElem? h))

/-! ### Tables -/

/-- The chains of a table. -/
structure Buckets (next : α → Option α) (items : List (Option α)) (bs : List (List α)) : Prop where
  items_eq : items = bs.map List.head?
  chain : ∀ (i : Nat) (b : List α), bs[i]? = some b → Chain next b
  nodup : bs.flatten.Nodup

namespace Buckets

theorem length_eq (h : Buckets next items bs) : items.length = bs.length := by
  rw [h.items_eq, List.length_map]

/-- The pointer to a bucket leads to its first cell. -/
theorem getElem?_items (h : Buckets next items bs) (i : Nat) :
    items[i]? = bs[i]?.map List.head? := by
  rw [h.items_eq, List.getElem?_map]

/-- The buckets after a change of one of them. -/
theorem of_set {next' : α → Option α} {items' : List (Option α)} (h : Buckets next items bs)
    (hi : bs[i]? = some b) (hitems : items.set i b'.head? = items') (hb' : Chain next' b')
    (hnext : ∀ c ∈ bs.flatten, c ∉ b → next' c = next c)
    (hnodup : (bs.set i b').flatten.Nodup) : Buckets next' items' (bs.set i b') := by
  refine ⟨?_, fun j l hl => ?_, hnodup⟩
  · rw [← hitems, h.items_eq, List.map_set]
  · rw [List.getElem?_set] at hl
    split_ifs at hl with hij hlt
    · obtain rfl := Option.some.inj hl
      exact hb'
    · apply (h.chain j l hl).congr
      intro c hc
      apply hnext c (mem_flatten_of_getElem? hl hc)
      exact fun hmem => hij (eq_of_mem_of_mem h.nodup hi hl hmem hc)

/-- Only the pointers of the cells in the table count. -/
theorem congr {next' : α → Option α} (h : Buckets next items bs)
    (hnext : ∀ c ∈ bs.flatten, next' c = next c) :
    Buckets next' items bs := by
  refine ⟨h.items_eq, fun i b hb => ?_, h.nodup⟩
  exact (h.chain i b hb).congr fun c hc => hnext c (mem_flatten_of_getElem? hb hc)

/-- More buckets with nothing in them. -/
theorem append_replicate (h : Buckets next items bs) (n : Nat) :
    Buckets next (items ++ List.replicate n none) (bs ++ List.replicate n []) := by
  refine ⟨?_, fun i b hb => ?_, ?_⟩
  · rw [List.map_append, ← h.items_eq, List.map_replicate]
    rfl
  · rcases getElem?_append_replicate hb with ⟨hb', -⟩ | rfl
    · exact h.chain i b hb'
    · exact chain_nil _
  · rw [List.flatten_append, List.flatten_replicate_nil, List.append_nil]
    exact h.nodup

/-- The cells that are left without a cell of a bucket. -/
theorem perm_cons {kept rest : List α} (hi : bs[i]? = some (kept ++ c :: rest)) :
    bs.flatten.Perm (c :: (bs.set i (kept ++ rest)).flatten) := by
  have hlt := (List.getElem?_eq_some_iff.mp hi).1
  have hset := (perm_flatten_set hlt (kept ++ rest)).symm
  refine (perm_flatten_eraseIdx hi).trans ((List.perm_middle.append_right _).trans ?_)
  exact hset.cons c

/-- The cells with another one in front of a bucket. -/
theorem perm_push (hi : bs[i]? = some b) (c : α) :
    (bs.set i (c :: b)).flatten.Perm (c :: bs.flatten) := by
  have hlt := (List.getElem?_eq_some_iff.mp hi).1
  exact (perm_flatten_set hlt (c :: b)).trans ((perm_flatten_eraseIdx hi).symm.cons c)

/-- The first cell is taken out of a bucket. -/
theorem unlinkHead {rest : List α} (h : Buckets next items bs) (hi : bs[i]? = some (c :: rest)) :
    Buckets next (items.set i rest.head?) (bs.set i rest) := by
  have hperm : bs.flatten.Perm (c :: (bs.set i rest).flatten) := @perm_cons _ _ _ c [] rest hi
  refine h.of_set hi rfl (h.chain i _ hi).2 (fun _ _ _ => rfl) ?_
  exact (List.nodup_cons.mp (hperm.nodup_iff.mp h.nodup)).2

/-- The cells stay the same when a bucket is put behind another one. -/
theorem perm_merge (hi : bs[i]? = some b) (hj : bs[j]? = some b') (hij : i ≠ j) :
    ((bs.set j []).set i (b ++ b')).flatten.Perm bs.flatten := by
  have hi' : (bs.set j [])[i]? = some b := by rw [List.getElem?_set_ne hij.symm, hi]
  have hcleared : (bs.set j []).flatten.Perm (bs.eraseIdx j).flatten :=
    perm_flatten_set (List.getElem?_eq_some_iff.mp hj).1 []
  have hmerged : ((bs.set j []).set i (b ++ b')).flatten.Perm
      (b' ++ (b ++ ((bs.set j []).eraseIdx i).flatten)) := by
    refine (perm_flatten_set (List.getElem?_eq_some_iff.mp hi').1 _).trans ?_
    rw [← List.append_assoc]
    exact List.perm_append_comm.append_right _
  have hrest : (b ++ ((bs.set j []).eraseIdx i).flatten).Perm (bs.eraseIdx j).flatten :=
    (perm_flatten_eraseIdx hi').symm.trans hcleared
  exact (hmerged.trans (hrest.append_left b')).trans (perm_flatten_eraseIdx hj).symm

section Update

variable [DecidableEq α]

/-- A cell behind another one is taken out of a bucket. -/
theorem unlink {kept rest : List α} (h : Buckets next items bs)
    (hi : bs[i]? = some (kept ++ c :: rest)) (hd : kept.getLast? = some d) :
    Buckets (Function.update next d rest.head?) items (bs.set i (kept ++ rest)) := by
  have hkept : d ∈ kept := List.mem_of_getLast? hd
  have hbucket : (kept ++ c :: rest).Nodup :=
    (List.nodup_flatten.mp h.nodup).1 _ (List.mem_of_getElem? hi)
  have hhead : items.set i (kept ++ rest).head? = items := by
    apply set_eq_self
    rw [h.getElem?_items, hi]
    cases kept with
    | nil => cases hkept
    | cons k kept => rfl
  refine h.of_set hi hhead ((h.chain i _ hi).unlink hbucket hd) (fun c' _ hc' => ?_) ?_
  · apply Function.update_of_ne
    rintro rfl
    exact hc' (List.mem_append_left _ hkept)
  · exact (List.nodup_cons.mp ((perm_cons hi).nodup_iff.mp h.nodup)).2

/-- A cell that is in no bucket is put in front of one. -/
theorem push (h : Buckets next items bs) (hi : bs[i]? = some b) (hc : c ∉ bs.flatten) :
    Buckets (Function.update next c b.head?) (items.set i (some c)) (bs.set i (c :: b)) := by
  have hself : c ∉ b := fun hmem => hc (mem_flatten_of_getElem? hi hmem)
  refine h.of_set hi rfl ⟨Function.update_self c b.head? next, ?_⟩ (fun c' hc' _ => ?_) ?_
  · exact (h.chain i b hi).update_of_not_mem hself _
  · apply Function.update_of_ne
    rintro rfl
    exact hc hc'
  · exact (perm_push hi c).nodup_iff.mpr (List.nodup_cons.mpr ⟨hc, h.nodup⟩)

/-- The pointers after a bucket was put behind another one; if that one is empty, none changes. -/
def mergedNext (next : α → Option α) (b b' : List α) : α → Option α :=
  match b.getLast? with
  | none => next
  | some d => Function.update next d b'.head?

/-- A bucket is put behind another one. -/
theorem merge (h : Buckets next items bs) (hi : bs[i]? = some b) (hj : bs[j]? = some b')
    (hij : i ≠ j) :
    Buckets (mergedNext next b b') ((items.set j none).set i (b ++ b').head?)
      ((bs.set j []).set i (b ++ b')) := by
  have hperm := perm_merge hi hj hij
  have hnodup := hperm.nodup_iff.mpr h.nodup
  have hi' : (bs.set j [])[i]? = some b := by rw [List.getElem?_set_ne hij.symm, hi]
  have hbucket : (b ++ b').Nodup := by
    refine (List.nodup_flatten.mp hnodup).1 _ (List.mem_of_getElem? (i := i) ?_)
    exact List.getElem?_set_self (List.getElem?_eq_some_iff.mp hi').1
  have hempty : (bs.set j []).flatten.Nodup := by
    have hsub := perm_flatten_set (List.getElem?_eq_some_iff.mp hj).1 ([] : List α)
    rw [hsub.nodup_iff]
    exact (List.nodup_append.mp ((perm_flatten_eraseIdx hj).nodup_iff.mp h.nodup)).2.1
  have hcleared : Buckets next (items.set j none) (bs.set j []) :=
    h.of_set hj rfl (chain_nil _) (fun _ _ _ => rfl) hempty
  have hchain := h.chain i b hi
  have hchain' := h.chain j b' hj
  unfold mergedNext
  cases hlast : b.getLast? with
  | none =>
    obtain rfl := List.getLast?_eq_none_iff.mp hlast
    exact hcleared.of_set hi' rfl hchain' (fun _ _ _ => rfl) hnodup
  | some d =>
    refine hcleared.of_set hi' rfl (hchain.append hchain' hbucket hlast) (fun c _ hc => ?_) hnodup
    apply Function.update_of_ne
    rintro rfl
    exact hc (List.mem_of_getLast? hlast)

end Update

end Buckets

end Schaufel
