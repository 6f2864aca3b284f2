import Mathlib.Data.List.Perm.Basic
import Mathlib.Logic.Function.Basic
import Schaufel.Foundation.Conveyor
import Schaufel.Foundation.Run

/-!
# Books of numbered items

Sources are issued items, one at a time, and file them on a belt, each under a key of its choice.  A
sink asks for a key and fetches the oldest item of that key; then it finishes with the item or
refuses it.  A source may also drop its item.  `Ledger.step` keeps the books of such a traffic; an
operation that the books do not allow is not a step.

Two invariants hold along every run of the books.  `Ledger.Balanced`: every issued item is at
exactly one place, finished, lost, on the belt or in one pair of hands.  `Ledger.InLanes`: items of
one source that were filed under one key keep their order, up to the sink that finishes with them.

If there is one lane only and nothing is given up, then the items are finished with in the order of
their numbers, and the others follow in order (`Ledger.InLanes.eq_range`).
-/

namespace Schaufel

/-- An entry in the books. -/
inductive LedgerOp (σ τ κ : Type*)
  /-- A source is issued the next item. -/
  | issue (i : σ)
  /-- A source gives its item up. -/
  | drop (i : σ)
  /-- A source puts its item on the belt. -/
  | file (i : σ) (k : κ)
  /-- A sink takes the oldest item of a key. -/
  | fetch (j : τ) (k : κ)
  /-- A sink gives its item up. -/
  | refuse (j : τ)
  /-- A sink is done with its item. -/
  | finish (j : τ)
  deriving DecidableEq, Repr

/-- The entry concerns one of the given sources or sinks. -/
def LedgerOp.Within {σ τ κ : Type*} (is : List σ) (js : List τ) : LedgerOp σ τ κ → Prop
  | .issue i | .drop i | .file i _ => i ∈ is
  | .fetch j _ | .refuse j | .finish j => j ∈ js

/-- The entry gives nothing up, and files under one key only. -/
def LedgerOp.Keeps {σ τ κ : Type*} (k : κ) : LedgerOp σ τ κ → Prop
  | .drop _ | .refuse _ => False
  | .file _ k' => k' = k
  | .issue _ | .fetch _ _ | .finish _ => True

theorem LedgerOp.Within.mono {σ τ κ : Type*} {is is' : List σ} {js js' : List τ}
    {op : LedgerOp σ τ κ} (h : op.Within is js) (his : is ⊆ is') (hjs : js ⊆ js') :
    op.Within is' js' := by
  cases op with
  | issue | drop | file => exact his h
  | fetch | refuse | finish => exact hjs h

/-- Where the items are, by number; an item on the belt or in the hands of a sink has its key with
it. -/
structure Ledger (σ τ κ : Type*) where
  /-- The source each item was issued to. -/
  issued : List σ
  /-- The item in the hands of a source. -/
  source : σ → Option ℕ
  /-- The items on the belt, the oldest first. -/
  belt : List (κ × ℕ)
  /-- The item in the hands of a sink. -/
  sink : τ → Option (κ × ℕ)
  /-- All items that were taken from the belt, in this order. -/
  fetched : List (τ × κ × ℕ)
  /-- The items a sink is done with. -/
  finished : List (τ × κ × ℕ)
  /-- The items that were given up. -/
  lost : List ℕ

namespace Ledger

variable {σ τ κ : Type*}

/-- The books at the beginning. -/
def empty : Ledger σ τ κ := ⟨[], fun _ => none, [], fun _ => none, [], [], []⟩

variable [DecidableEq σ] [DecidableEq τ] [DecidableEq κ]

/-- Make an entry, if the books allow it. -/
def step (l : Ledger σ τ κ) : LedgerOp σ τ κ → Option (Ledger σ τ κ)
  | .issue i =>
    if l.source i = none then
      some { l with
        issued := l.issued ++ [i], source := Function.update l.source i (some l.issued.length) }
    else none
  | .drop i => (l.source i).map fun n =>
    { l with source := Function.update l.source i none, lost := l.lost ++ [n] }
  | .file i k => (l.source i).map fun n =>
    { l with source := Function.update l.source i none, belt := l.belt ++ [(k, n)] }
  | .fetch j k =>
    if l.sink j = none then
      (l.belt.find? fun x => x.1 = k).map fun x =>
        { l with
          belt := l.belt.eraseP fun x => x.1 = k
          sink := Function.update l.sink j (some x)
          fetched := l.fetched ++ [(j, x)] }
    else none
  | .refuse j => (l.sink j).map fun x =>
    { l with sink := Function.update l.sink j none, lost := l.lost ++ [x.2] }
  | .finish j => (l.sink j).map fun x =>
    { l with sink := Function.update l.sink j none, finished := l.finished ++ [(j, x)] }

/-- The entries the books allow. -/
inductive Step (l : Ledger σ τ κ) : LedgerOp σ τ κ → Ledger σ τ κ → Prop
  | issue {i : σ} (hfree : l.source i = none) : Step l (.issue i) { l with
      issued := l.issued ++ [i], source := Function.update l.source i (some l.issued.length) }
  | drop {i : σ} {n : ℕ} (hn : l.source i = some n) : Step l (.drop i) { l with
      source := Function.update l.source i none, lost := l.lost ++ [n] }
  | file {i : σ} {k : κ} {n : ℕ} (hn : l.source i = some n) : Step l (.file i k) { l with
      source := Function.update l.source i none, belt := l.belt ++ [(k, n)] }
  | fetch {j : τ} {k : κ} {n : ℕ} {l₁ l₂ : List (κ × ℕ)} (hfree : l.sink j = none)
      (hbelt : l.belt = l₁ ++ (k, n) :: l₂) (hfirst : ∀ x ∈ l₁, x.1 ≠ k) :
      Step l (.fetch j k) { l with
        belt := l₁ ++ l₂, sink := Function.update l.sink j (some (k, n))
        fetched := l.fetched ++ [(j, k, n)] }
  | refuse {j : τ} {x : κ × ℕ} (hx : l.sink j = some x) : Step l (.refuse j) { l with
      sink := Function.update l.sink j none, lost := l.lost ++ [x.2] }
  | finish {j : τ} {x : κ × ℕ} (hx : l.sink j = some x) : Step l (.finish j) { l with
      sink := Function.update l.sink j none, finished := l.finished ++ [(j, x)] }

/-- The first item of a key splits the belt. -/
theorem find?_belt {belt l₁ l₂ : List (κ × ℕ)} {k : κ} {n : ℕ} (hbelt : belt = l₁ ++ (k, n) :: l₂)
    (hfirst : ∀ x ∈ l₁, x.1 ≠ k) :
    belt.find? (fun x => x.1 = k) = some (k, n) ∧ belt.eraseP (fun x => x.1 = k) = l₁ ++ l₂ := by
  subst hbelt
  constructor
  · exact List.find?_eq_some_iff_append.mpr
      ⟨by simp, l₁, l₂, rfl, fun x hx => by simpa using hfirst x hx⟩
  · rw [List.eraseP_append_right _ fun x hx => by simpa using hfirst x hx,
      List.eraseP_cons_of_pos (by simp)]

theorem step_eq_some_iff {l l' : Ledger σ τ κ} {op : LedgerOp σ τ κ} :
    l.step op = some l' ↔ Step l op l' := by
  constructor
  · intro h
    cases op with
    | issue i =>
      obtain ⟨hfree, hl'⟩ := Option.ite_none_right_eq_some.mp h
      cases hl'
      exact .issue hfree
    | drop i =>
      obtain ⟨n, hn, rfl⟩ := Option.map_eq_some_iff.mp h
      exact .drop hn
    | file i k =>
      obtain ⟨n, hn, rfl⟩ := Option.map_eq_some_iff.mp h
      exact .file hn
    | fetch j k =>
      obtain ⟨hfree, hmap⟩ := Option.ite_none_right_eq_some.mp h
      obtain ⟨⟨k', n⟩, hfind, rfl⟩ := Option.map_eq_some_iff.mp hmap
      obtain ⟨hk, l₁, l₂, hbelt, hfirst⟩ := List.find?_eq_some_iff_append.mp hfind
      obtain rfl : k' = k := by simpa using hk
      have hfirst' : ∀ x ∈ l₁, x.1 ≠ k' := fun x hx => by simpa using hfirst x hx
      rw [(find?_belt hbelt hfirst').2]
      exact .fetch hfree hbelt hfirst'
    | refuse j =>
      obtain ⟨x, hx, rfl⟩ := Option.map_eq_some_iff.mp h
      exact .refuse hx
    | finish j =>
      obtain ⟨x, hx, rfl⟩ := Option.map_eq_some_iff.mp h
      exact .finish hx
  · intro h
    cases h with
    | issue hfree => exact if_pos hfree
    | drop hn | file hn | refuse hn | finish hn => simp only [step, hn, Option.map_some]
    | fetch hfree hbelt hfirst =>
      obtain ⟨hfind, herase⟩ := find?_belt hbelt hfirst
      simp only [step, if_pos hfree, hfind, herase, Option.map_some]

/-! ### Every item is at one place -/

section Hands

variable {α β : Type*} [DecidableEq α]

omit [DecidableEq σ] [DecidableEq τ] [DecidableEq κ] in
/-- What a group of hands holds when one of them is filled. -/
theorem filterMap_update_perm {f : α → Option β} {a : α} {b : β} (hfree : f a = none) :
    ∀ {as : List α}, as.Nodup → a ∈ as →
      (as.filterMap (Function.update f a (some b))).Perm (b :: as.filterMap f)
  | a' :: as, hnodup, hmem => by
    obtain ⟨hnot, hnodup⟩ := List.nodup_cons.mp hnodup
    by_cases ha : a' = a
    · subst ha
      have hrest : as.filterMap (Function.update f a' (some b)) = as.filterMap f :=
        List.filterMap_congr fun x hx => Function.update_of_ne (ne_of_mem_of_not_mem hx hnot) _ _
      rw [List.filterMap_cons_some (Function.update_self ..), List.filterMap_cons_none hfree, hrest]
    · have ih := filterMap_update_perm (b := b) hfree hnodup
        ((List.mem_cons.mp hmem).resolve_left fun h => ha h.symm)
      cases hf : f a' with
      | none =>
        rwa [List.filterMap_cons_none ((Function.update_of_ne ha _ _).trans hf),
          List.filterMap_cons_none hf]
      | some c =>
        rw [List.filterMap_cons_some ((Function.update_of_ne ha _ _).trans hf),
          List.filterMap_cons_some hf]
        exact (ih.cons c).trans (List.Perm.swap b c _)

omit [DecidableEq σ] [DecidableEq τ] [DecidableEq κ] in
/-- What a group of hands held before one of them was emptied. -/
theorem perm_filterMap_update {f : α → Option β} {a : α} {b : β} (hfull : f a = some b)
    {as : List α} (hnodup : as.Nodup) (hmem : a ∈ as) :
    (as.filterMap f).Perm (b :: as.filterMap (Function.update f a none)) := by
  have h := filterMap_update_perm (f := Function.update f a none) (b := b)
    (Function.update_self ..) hnodup hmem
  rwa [Function.update_idem, ← hfull, Function.update_eq_self] at h

omit [DecidableEq σ] [DecidableEq τ] [DecidableEq κ] in
/-- What is noted down of a group of things when one more note is made of one of them. -/
theorem flatMap_update_perm {f : α → List β} {a : α} (b : β) :
    ∀ {as : List α}, as.Nodup → a ∈ as →
      (as.flatMap (Function.update f a (f a ++ [b]))).Perm (as.flatMap f ++ [b])
  | a' :: as, hnodup, hmem => by
    obtain ⟨hnot, hnodup⟩ := List.nodup_cons.mp hnodup
    rw [List.flatMap_cons, List.flatMap_cons, List.append_assoc]
    by_cases ha : a' = a
    · subst ha
      have hrest : as.flatMap (Function.update f a' (f a' ++ [b])) = as.flatMap f :=
        List.flatMap_congr fun x hx => Function.update_of_ne (ne_of_mem_of_not_mem hx hnot) _ _
      rw [Function.update_self, hrest, List.append_assoc]
      exact List.Perm.append_left _ List.perm_append_comm
    · rw [Function.update_of_ne ha]
      exact List.Perm.append_left _ (flatMap_update_perm b hnodup
        ((List.mem_cons.mp hmem).resolve_left fun h => ha h.symm))

end Hands

/-- The items in the books, place by place; `is` and `js` are the sources and sinks at work. -/
def items (is : List σ) (js : List τ) (l : Ledger σ τ κ) : List ℕ :=
  l.finished.map (fun x => x.2.2) ++ l.lost ++ l.belt.map Prod.snd ++
    (js.filterMap l.sink).map Prod.snd ++ is.filterMap l.source

/-- Every item that was issued is at one place, and there are no other items. -/
def Balanced (is : List σ) (js : List τ) (l : Ledger σ τ κ) : Prop :=
  (l.items is js).Perm (List.range l.issued.length)

omit [DecidableEq τ] [DecidableEq κ] in
/-- The item in the hands of a source is nowhere else. -/
theorem Balanced.source_alone {is : List σ} {js : List τ} {l : Ledger σ τ κ} (h : l.Balanced is js)
    (his : is.Nodup) {i : σ} (hi : i ∈ is) {n : ℕ} (hn : l.source i = some n) :
    n ∉ l.finished.map (fun x => x.2.2) ++ l.lost ++ l.belt.map Prod.snd ∧
      (∀ i' ∈ is, i' ≠ i → l.source i' ≠ some n) ∧ ∀ j ∈ js, ∀ k, l.sink j ≠ some (k, n) := by
  -- the items are this one and those of the books without it
  have hperm := (perm_filterMap_update hn his hi).append_left
    (l.finished.map (fun x => x.2.2) ++ l.lost ++ l.belt.map Prod.snd ++
      (js.filterMap l.sink).map Prod.snd)
  have hnodup := (hperm.trans List.perm_middle).nodup_iff.mp (h.nodup_iff.mpr List.nodup_range)
  have hrest := (List.nodup_cons.mp hnodup).1
  simp only [List.mem_append, List.mem_map, List.mem_filterMap, not_or, not_exists,
    not_and] at hrest ⊢
  obtain ⟨⟨⟨⟨hfinished, hlost⟩, hbelt⟩, hsinks⟩, hsources⟩ := hrest
  refine ⟨⟨⟨hfinished, hlost⟩, hbelt⟩, fun i' hi' hne hn' => ?_, fun j hj k hk => ?_⟩
  · exact hsources i' hi' (by rw [Function.update_of_ne hne, hn'])
  · exact hsinks (k, n) ⟨j, hj, hk⟩ rfl

omit [DecidableEq σ] [DecidableEq κ] in
/-- The item in the hands of a sink is nowhere else. -/
theorem Balanced.sink_alone {is : List σ} {js : List τ} {l : Ledger σ τ κ} (h : l.Balanced is js)
    (hjs : js.Nodup) {j : τ} (hj : j ∈ js) {k : κ} {n : ℕ} (hn : l.sink j = some (k, n)) :
    n ∉ l.finished.map (fun x => x.2.2) ++ l.lost ++ l.belt.map Prod.snd ∧
      (∀ i ∈ is, l.source i ≠ some n) ∧ ∀ j' ∈ js, j' ≠ j → ∀ k', l.sink j' ≠ some (k', n) := by
  have hperm := (((perm_filterMap_update hn hjs hj).map Prod.snd).append_left
    (l.finished.map (fun x => x.2.2) ++ l.lost ++ l.belt.map Prod.snd)).append_right
      (is.filterMap l.source)
  have hnodup := (hperm.trans (List.perm_middle.append_right _)).nodup_iff.mp
    (h.nodup_iff.mpr List.nodup_range)
  have hrest : n ∉ l.finished.map (fun x => x.2.2) ++ l.lost ++ l.belt.map Prod.snd ++
      (js.filterMap (Function.update l.sink j none)).map Prod.snd ++ is.filterMap l.source :=
    (List.nodup_cons.mp hnodup).1
  simp only [List.mem_append, List.mem_map, List.mem_filterMap, not_or, not_exists,
    not_and] at hrest ⊢
  obtain ⟨⟨⟨⟨hfinished, hlost⟩, hbelt⟩, hsinks⟩, hsources⟩ := hrest
  refine ⟨⟨⟨hfinished, hlost⟩, hbelt⟩, hsources, fun j' hj' hne k' hk' => ?_⟩
  exact hsinks (k', n) ⟨j', hj', by rw [Function.update_of_ne hne, hk']⟩ rfl

/-- An entry keeps the books balanced. -/
theorem Balanced.step {is : List σ} {js : List τ} {l l' : Ledger σ τ κ} {op : LedgerOp σ τ κ}
    (h : l.Balanced is js) (his : is.Nodup) (hjs : js.Nodup) (hop : op.Within is js)
    (hst : l.step op = some l') : l'.Balanced is js := by
  unfold Balanced items at *
  cases step_eq_some_iff.mp hst with
  | issue hfree =>
    rw [List.length_append, List.length_singleton, List.range_succ]
    refine (List.Perm.append_left _ (filterMap_update_perm hfree his hop)).trans ?_
    exact List.perm_middle.trans ((h.cons _).trans (List.perm_append_singleton _ _).symm)
  | drop hn =>
    refine List.Perm.trans ?_ h
    refine List.Perm.trans ?_ (List.Perm.append_left _ (perm_filterMap_update hn his hop).symm)
    simp only [List.append_assoc, List.singleton_append]
    exact List.Perm.append_left _ (List.Perm.append_left _
      (List.perm_middle.symm.trans (List.Perm.append_left _ List.perm_middle.symm)))
  | file hn =>
    refine List.Perm.trans ?_ h
    refine List.Perm.trans ?_ (List.Perm.append_left _ (perm_filterMap_update hn his hop).symm)
    simp only [List.map_append, List.map_cons, List.map_nil, List.append_assoc,
      List.singleton_append]
    exact List.Perm.append_left _ (List.Perm.append_left _ (List.Perm.append_left _
      List.perm_middle.symm))
  | @fetch j k n l₁ l₂ hfree hbelt hfirst =>
    refine List.Perm.trans ?_ h
    refine List.Perm.append_right _ ?_
    refine (List.Perm.append_left _ ((filterMap_update_perm hfree hjs hop).map _)).trans ?_
    simp only [hbelt, List.map_append, List.map_cons, List.append_assoc]
    refine List.Perm.append_left _ (List.Perm.append_left _ (List.Perm.append_left _ ?_))
    exact List.perm_middle
  | refuse hx =>
    refine List.Perm.trans (List.Perm.append_right _ ?_) h
    refine List.Perm.trans ?_
      (List.Perm.append_left _ ((perm_filterMap_update hx hjs hop).map _).symm)
    simp only [List.map_cons, List.append_assoc, List.singleton_append]
    exact List.Perm.append_left _ (List.Perm.append_left _ List.perm_middle.symm)
  | finish hx =>
    refine List.Perm.trans (List.Perm.append_right _ ?_) h
    refine List.Perm.trans ?_
      (List.Perm.append_left _ ((perm_filterMap_update hx hjs hop).map _).symm)
    simp only [List.map_append, List.map_cons, List.map_nil, List.append_assoc,
      List.singleton_append]
    exact List.Perm.append_left _
      (List.perm_middle.symm.trans (List.Perm.append_left _ List.perm_middle.symm))

omit [DecidableEq σ] [DecidableEq τ] [DecidableEq κ] in
theorem balanced_empty (is : List σ) (js : List τ) : (empty : Ledger σ τ κ).Balanced is js := by
  simp [Balanced, items, empty]

/-- Only the given sources and sinks were at work. -/
structure Staffed (is : List σ) (js : List τ) (l : Ledger σ τ κ) : Prop where
  issued : ∀ i ∈ l.issued, i ∈ is
  finished : ∀ x ∈ l.finished, x.1 ∈ js

theorem Staffed.step {is : List σ} {js : List τ} {l l' : Ledger σ τ κ} {op : LedgerOp σ τ κ}
    (h : l.Staffed is js) (hop : op.Within is js) (hst : l.step op = some l') :
    l'.Staffed is js := by
  cases step_eq_some_iff.mp hst with
  | issue hfree =>
    refine ⟨fun i hi => ?_, h.finished⟩
    rcases List.mem_append.mp hi with hi | hi
    · exact h.issued i hi
    · rw [List.mem_singleton.mp hi]
      exact hop
  | finish hx =>
    refine ⟨h.issued, fun x hx => ?_⟩
    rcases List.mem_append.mp hx with hx | hx
    · exact h.finished x hx
    · rw [List.mem_singleton.mp hx]
      exact hop
  | drop | file | fetch | refuse => exact ⟨h.issued, h.finished⟩

omit [DecidableEq σ] [DecidableEq τ] [DecidableEq κ] in
theorem staffed_empty (is : List σ) (js : List τ) : (empty : Ledger σ τ κ).Staffed is js :=
  ⟨by simp [empty], by simp [empty]⟩

/-! ### Items of one lane keep their order -/

/-- If the two items were issued to one source and filed under one key, then the first one is the
older one. -/
def Before (issued : List σ) (x y : κ × ℕ) : Prop :=
  x.1 = y.1 → issued[x.2]? = issued[y.2]? → x.2 < y.2

/-- Along every lane the items are in order: those taken from the belt, those on the belt, the one
in the hands of the source. -/
structure InLanes (l : Ledger σ τ κ) : Prop where
  /-- A source holds an item that was issued to it. -/
  holder : ∀ i n, l.source i = some n → l.issued[n]? = some i
  /-- What was filed was issued. -/
  below : ∀ x ∈ l.fetched.map Prod.snd ++ l.belt, x.2 < l.issued.length
  /-- What a source has filed is older than what it holds. -/
  last : ∀ i n, l.source i = some n → ∀ x ∈ l.fetched.map Prod.snd ++ l.belt,
    l.issued[x.2]? = some i → x.2 < n
  /-- What was filed is in order, and the belt is behind what was fetched. -/
  lanes : (l.fetched.map Prod.snd ++ l.belt).Pairwise (Before l.issued)
  /-- A sink finishes with its items in the order in which it fetched them. -/
  served : ∀ j, (l.finished.filter (·.1 = j) ++ (l.sink j).toList.map (j, ·)).Sublist
    (l.fetched.filter (·.1 = j))

omit [DecidableEq σ] [DecidableEq κ] in
/-- What one sink has finished with is in order. -/
theorem InLanes.finished_pairwise {l : Ledger σ τ κ} (h : l.InLanes) (j : τ) :
    (l.finished.filter (·.1 = j)).Pairwise fun x y => Before l.issued x.2 y.2 := by
  have hfetched : l.fetched.Pairwise fun x y => Before l.issued x.2 y.2 :=
    List.pairwise_map.mp (List.pairwise_append.mp h.lanes).1
  exact (hfetched.sublist List.filter_sublist).sublist
    ((List.sublist_append_left _ _).trans (h.served j))

omit [DecidableEq σ] [DecidableEq τ] [DecidableEq κ] in
theorem Before.append {issued : List σ} {i : σ} {x y : κ × ℕ} (h : Before issued x y)
    (hx : x.2 < issued.length) (hy : y.2 < issued.length) : Before (issued ++ [i]) x y := by
  intro hkey hsource
  rw [List.getElem?_append_left hx, List.getElem?_append_left hy] at hsource
  exact h hkey hsource

/-- An entry keeps the lanes in order. -/
theorem InLanes.step {l l' : Ledger σ τ κ} {op : LedgerOp σ τ κ} (h : l.InLanes)
    (hst : l.step op = some l') : l'.InLanes := by
  cases step_eq_some_iff.mp hst with
  | @issue i hfree =>
    refine ⟨?_, ?_, ?_, ?_, h.served⟩
    · intro i' n hn
      rcases of_update_some_eq_some hn with ⟨rfl, rfl⟩ | hold
      · simp
      · have hissued := h.holder i' n hold
        rw [List.getElem?_append_left (List.getElem?_eq_some_iff.mp hissued).1]
        exact hissued
    · intro x hx
      have hlt := h.below x hx
      rw [List.length_append]
      omega
    · intro i' n hn x hx hi'
      have hlt := h.below x hx
      rw [List.getElem?_append_left hlt] at hi'
      rcases of_update_some_eq_some hn with ⟨rfl, rfl⟩ | hold
      · exact hlt
      · exact h.last i' n hold x hx hi'
    · exact h.lanes.imp_of_mem fun hx hy hxy => hxy.append (h.below _ hx) (h.below _ hy)
  | @drop i n hn =>
    exact ⟨fun i' n' hn' => h.holder i' n' (of_update_none_eq_some hn').2, h.below,
      fun i' n' hn' => h.last i' n' (of_update_none_eq_some hn').2, h.lanes, h.served⟩
  | @file i k n hn =>
    have hissued := h.holder i n hn
    refine ⟨fun i' n' hn' => h.holder i' n' (of_update_none_eq_some hn').2, ?_, ?_, ?_, h.served⟩
    · intro x hx
      rw [← List.append_assoc] at hx
      rcases List.mem_append.mp hx with hx | hx
      · exact h.below x hx
      · rw [List.mem_singleton.mp hx]
        exact (List.getElem?_eq_some_iff.mp hissued).1
    · intro i' n' hn' x hx hi'
      obtain ⟨hne, hold⟩ := of_update_none_eq_some hn'
      rw [← List.append_assoc] at hx
      rcases List.mem_append.mp hx with hx | hx
      · exact h.last i' n' hold x hx hi'
      · -- the item on its way to the belt belongs to another source
        rw [List.mem_singleton.mp hx] at hi'
        exact absurd (Option.some.inj (hi'.symm.trans hissued)) hne
    · rw [← List.append_assoc]
      refine List.pairwise_append.mpr ⟨h.lanes, List.pairwise_singleton _ _, ?_⟩
      intro x hx y hy hkey hsource
      rw [List.mem_singleton.mp hy] at hsource ⊢
      exact h.last i n hn x hx (hsource.trans hissued)
  | @fetch j k n l₁ l₂ hfree hbelt hfirst =>
    -- the item moves in front of items of other keys only
    have hperm : (l.fetched.map Prod.snd ++ [(k, n)] ++ (l₁ ++ l₂)).Perm
        (l.fetched.map Prod.snd ++ l.belt) := by
      rw [hbelt, List.append_assoc, List.singleton_append]
      exact List.Perm.append_left _ List.perm_middle.symm
    have hmap : (l.fetched ++ [(j, k, n)]).map Prod.snd = l.fetched.map Prod.snd ++ [(k, n)] := by
      simp
    refine ⟨h.holder, ?_, ?_, ?_, ?_⟩
    · intro x hx
      rw [hmap] at hx
      exact h.below x (hperm.mem_iff.mp hx)
    · intro i m hm x hx
      rw [hmap] at hx
      exact h.last i m hm x (hperm.mem_iff.mp hx)
    · rw [hmap]
      have hlanes := h.lanes
      rw [hbelt] at hlanes
      obtain ⟨hfetched, hbelt', hcross⟩ := List.pairwise_append.mp hlanes
      obtain ⟨h₁, h₂, h₁₂⟩ := List.pairwise_append.mp hbelt'
      obtain ⟨hn, h₂⟩ := List.pairwise_cons.mp h₂
      rw [List.append_assoc, List.singleton_append]
      refine List.pairwise_append.mpr ⟨hfetched, List.pairwise_cons.mpr ⟨?_, ?_⟩, ?_⟩
      · intro y hy hkey
        rcases List.mem_append.mp hy with hy | hy
        · exact absurd hkey.symm (hfirst y hy)
        · exact hn y hy hkey
      · exact List.pairwise_append.mpr
          ⟨h₁, h₂, fun x hx y hy => h₁₂ x hx y (List.mem_cons_of_mem _ hy)⟩
      · intro x hx y hy
        refine hcross x hx y ?_
        rcases List.mem_cons.mp hy with rfl | hy
        · simp
        · rcases List.mem_append.mp hy with hy | hy
          · exact List.mem_append_left _ hy
          · exact List.mem_append_right _ (List.mem_cons_of_mem _ hy)
    · intro j'
      rw [List.filter_append]
      by_cases hj : j' = j
      · subst hj
        have hserved := h.served j'
        rw [hfree] at hserved
        simpa using hserved
      · have hj' : ¬ j = j' := fun h => hj h.symm
        simpa [Function.update_of_ne hj, hj'] using h.served j'
  | @refuse j x hx =>
    refine ⟨h.holder, h.below, h.last, h.lanes, fun j' => ?_⟩
    by_cases hj : j' = j
    · subst hj
      simpa using (List.sublist_append_left _ _).trans (h.served j')
    · simpa only [Function.update_of_ne hj] using h.served j'
  | @finish j x hx =>
    refine ⟨h.holder, h.below, h.last, h.lanes, fun j' => ?_⟩
    rw [List.filter_append]
    by_cases hj : j' = j
    · subst hj
      have hserved := h.served j'
      rw [hx] at hserved
      simpa using hserved
    · have hj' : ¬ j = j' := fun h => hj h.symm
      simpa [Function.update_of_ne hj, hj'] using h.served j'

omit [DecidableEq σ] [DecidableEq κ] in
theorem inLanes_empty : (empty : Ledger σ τ κ).InLanes :=
  ⟨by simp [empty], by simp [empty], by simp [empty], List.Pairwise.nil, by simp [empty]⟩

/-! ### One lane -/

/-- Along such entries nothing is lost, and what was filed has the key. -/
theorem keeps_of_exec {k : κ} {ops : List (LedgerOp σ τ κ)} {l : Ledger σ τ κ}
    (hops : ∀ op ∈ ops, op.Keeps k) (h : exec step empty ops = some l) :
    l.lost = [] ∧ ∀ x ∈ l.fetched.map Prod.snd ++ l.belt, x.1 = k := by
  have hrun := exec_induction (s := empty) (P := fun done l => done <+: ops →
    l.lost = [] ∧ ∀ x ∈ l.fetched.map Prod.snd ++ l.belt, x.1 = k) ?_ ?_ h
  · exact hrun (List.prefix_refl _)
  · exact fun _ => ⟨rfl, by simp [empty]⟩
  · intro done l op l' _ ih hst hbegin
    obtain ⟨hlost, hkey⟩ := ih ((List.prefix_append _ _).trans hbegin)
    have hop := hops op (hbegin.subset (by simp))
    cases step_eq_some_iff.mp hst with
    | issue | finish => exact ⟨hlost, hkey⟩
    | drop | refuse => exact hop.elim
    | @file i k' n hn =>
      refine ⟨hlost, fun x hx => ?_⟩
      rw [← List.append_assoc] at hx
      rcases List.mem_append.mp hx with hx | hx
      · exact hkey x hx
      · rw [List.mem_singleton.mp hx]
        exact hop
    | @fetch j k' n l₁ l₂ hfree hbelt hfirst =>
      refine ⟨hlost, fun x hx => hkey x ?_⟩
      rw [hbelt]
      simp only [List.map_append, List.map_cons, List.map_nil, List.mem_append, List.mem_cons,
        List.not_mem_nil, or_false] at hx ⊢
      tauto

omit [DecidableEq σ] [DecidableEq κ] in
/-- With one source, one sink and one key, and if nothing was given up: the finished items, the one
in the hands of the sink, those on the belt and the one in the hands of the source are all items in
order. -/
theorem InLanes.eq_range {i : σ} {j : τ} {k : κ} {l : Ledger σ τ κ} (h : l.InLanes)
    (hbalanced : l.Balanced [i] [j]) (hstaff : l.Staffed [i] [j]) (hlost : l.lost = [])
    (hkey : ∀ x ∈ l.fetched.map Prod.snd ++ l.belt, x.1 = k) :
    l.finished.map (fun x => x.2.2) ++ (l.sink j).toList.map Prod.snd ++ l.belt.map Prod.snd ++
      (l.source i).toList = List.range l.issued.length := by
  have hsource : ∀ n < l.issued.length, l.issued[n]? = some i := by
    intro n hn
    rw [List.getElem?_eq_getElem hn, Option.some_inj]
    exact List.mem_singleton.mp (hstaff.issued _ (List.getElem_mem hn))
  -- what was filed is in order
  have hfiled : (l.fetched.map (fun x => x.2.2) ++ l.belt.map Prod.snd).Pairwise (· < ·) := by
    have hmap : l.fetched.map (fun x => x.2.2) ++ l.belt.map Prod.snd =
        (l.fetched.map Prod.snd ++ l.belt).map Prod.snd := by
      rw [List.map_append, List.map_map]
      rfl
    rw [hmap, List.pairwise_map]
    refine h.lanes.imp_of_mem fun hx hy hxy => hxy ?_ ?_
    · rw [hkey _ hx, hkey _ hy]
    · rw [hsource _ (h.below _ hx), hsource _ (h.below _ hy)]
  -- what the sink has or had is what was fetched
  have hserved : (l.finished.map (fun x => x.2.2) ++ (l.sink j).toList.map Prod.snd).Sublist
      (l.fetched.map fun x => x.2.2) := by
    have hall : l.finished.filter (·.1 = j) = l.finished := by
      rw [List.filter_eq_self]
      intro x hx
      simpa using hstaff.finished x hx
    have hsub := h.served j
    rw [hall] at hsub
    have hmap := (hsub.trans List.filter_sublist).map fun x : τ × κ × ℕ => x.2.2
    rw [List.map_append, List.map_map] at hmap
    exact hmap
  have hpairwise : (l.finished.map (fun x => x.2.2) ++ (l.sink j).toList.map Prod.snd ++
      l.belt.map Prod.snd ++ (l.source i).toList).Pairwise (· < ·) := by
    refine List.pairwise_append.mpr ⟨hfiled.sublist (hserved.append_right _), ?_,
      fun n hn m hm => ?_⟩
    · cases l.source i with
      | none => exact .nil
      | some m => exact List.pairwise_singleton _ _
    · have hm' : l.source i = some m := by simpa using hm
      have hmem : n ∈ l.fetched.map (fun x => x.2.2) ++ l.belt.map Prod.snd :=
        (hserved.append_right _).subset hn
      obtain ⟨x, hx, rfl⟩ : ∃ x ∈ l.fetched.map Prod.snd ++ l.belt, x.2 = n := by
        rcases List.mem_append.mp hmem with hmem | hmem
        · obtain ⟨x, hx, rfl⟩ := List.mem_map.mp hmem
          exact ⟨x.2, List.mem_append_left _ (List.mem_map_of_mem hx), rfl⟩
        · obtain ⟨x, hx, rfl⟩ := List.mem_map.mp hmem
          exact ⟨x, List.mem_append_right _ hx, rfl⟩
      exact h.last i m hm' x hx (hsource _ (h.below x hx))
  -- both sides are in order and have the same items
  have hperm : (l.finished.map (fun x => x.2.2) ++ (l.sink j).toList.map Prod.snd ++
      l.belt.map Prod.snd ++ (l.source i).toList).Perm (List.range l.issued.length) := by
    refine List.Perm.trans ?_ hbalanced
    have hsinks : [j].filterMap l.sink = (l.sink j).toList := by
      cases hj : l.sink j <;> simp [hj]
    have hsources : [i].filterMap l.source = (l.source i).toList := by
      cases hi : l.source i <;> simp [hi]
    rw [items, hlost, hsinks, hsources, List.append_nil]
    refine List.Perm.append_right _ ?_
    rw [List.append_assoc, List.append_assoc]
    exact List.perm_append_comm.append_left _
  refine hperm.eq_of_pairwise (fun a b _ _ hab hba => absurd hba (Nat.lt_asymm hab)) hpairwise ?_
  exact List.pairwise_lt_range

end Ledger

end Schaufel
