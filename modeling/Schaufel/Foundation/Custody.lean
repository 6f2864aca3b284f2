import Schaufel.Foundation.Ownership

/-!
# Resources nobody loses

`Owned` says that whatever can be reached is alive.  This module adds the converse: whatever is
alive can be reached.  `Tracked log hand store` says that every resource a log has allocated was
released, is in the hands of a party or is stored.

`Accounts o ops o'` describes operations of a party that lose nothing, in contrast to `Handling`,
where a party may leak what it holds; `Tracked.run`, `Tracked.push` and `Tracked.pop` are the rules
of a step.  Together the two invariants say which resources were released (`Owned.released_iff`).
-/

namespace Schaufel

variable {ι κ : Type*}

namespace HandleOp

/-- What a party held before and what it has allocated since is still in its hands or was
released. -/
def Accounts (o : Option κ) (ops : List (HandleOp κ)) (o' : Option κ) : Prop :=
  ∀ k, o = some k ∨ k ∈ allocated ops → o' = some k ∨ .release k ∈ ops

theorem Accounts.done (o : Option κ) : Accounts o [] o := by
  rintro k (hk | hk)
  · exact Or.inl hk
  · cases hk

theorem Accounts.trans {o o' o'' : Option κ} {ops ops' : List (HandleOp κ)} (h : Accounts o ops o')
    (h' : Accounts o' ops' o'') : Accounts o (ops ++ ops') o'' := by
  -- whatever the first party ends up with, the second one accounts for
  have hlater : ∀ k, o' = some k ∨ k ∈ allocated ops' → o'' = some k ∨ .release k ∈ ops ++ ops' :=
    fun k hk => (h' k hk).imp_right (List.mem_append_right ops)
  have hfirst : ∀ k, o = some k ∨ k ∈ allocated ops → o'' = some k ∨ .release k ∈ ops ++ ops' := by
    intro k hk
    rcases h k hk with hheld | hrel
    · exact hlater k (Or.inl hheld)
    · exact Or.inr (List.mem_append_left ops' hrel)
  rintro k (hk | hk)
  · exact hfirst k (Or.inl hk)
  · rw [allocated_append] at hk
    rcases List.mem_append.mp hk with hk | hk
    · exact hfirst k (Or.inr hk)
    · exact hlater k (Or.inr hk)

theorem Accounts.release_toList (o : Option κ) : Accounts o (o.toList.map .release) none := by
  cases o with
  | none => exact .done none
  | some k =>
    rintro k' (hk | hk)
    · rw [Option.some.inj hk]
      exact Or.inr (List.mem_singleton_self _)
    · cases hk

theorem Accounts.use_toList (o : Option κ) : Accounts o (o.toList.map .use) o := by
  cases o with
  | none => exact .done none
  | some k =>
    rintro k' (hk | hk)
    · exact Or.inl hk
    · cases hk

theorem Accounts.use (k : κ) : Accounts (some k) [.use k] (some k) := .use_toList (some k)

theorem Accounts.alloc (k : κ) : Accounts none [.alloc k] (some k) := by
  rintro k' (hk | hk)
  · cases hk
  · rw [allocated_singleton_alloc] at hk
    rw [List.mem_singleton.mp hk]
    exact Or.inl rfl

/-- The new resource is allocated before the old one is released. -/
theorem Accounts.replace (k k' : κ) : Accounts (some k) [.alloc k', .release k] (some k') := by
  rintro l (hl | hl)
  · rw [Option.some.inj hl]
    exact Or.inr (List.mem_cons_of_mem _ (List.mem_singleton_self _))
  · rw [List.mem_singleton.mp hl]
    exact Or.inl rfl

/-- In a safe log nothing is released more than once. -/
theorem Safe.count_release_eq_one_iff [DecidableEq κ] {log : List (HandleOp κ)} (h : Safe log)
    {k : κ} :
    log.count (.release k) = 1 ↔ .release k ∈ log := by
  have hle : log.count (.release k) ≤ 1 := by
    induction log with
    | nil => exact Nat.zero_le _
    | cons op log ih =>
      obtain ⟨hop, hrest⟩ := List.pairwise_cons.mp h
      by_cases heq : op = .release k
      · have hnot : .release k ∉ log := fun hmem => by
          have hclash := hop _ hmem
          rw [heq] at hclash
          exact absurd hclash (by simp [clash])
        exact Nat.le_of_eq (by rw [heq, List.count_cons_self, List.count_eq_zero_of_not_mem hnot])
      · rw [List.count_cons_of_ne heq]
        exact ih hrest
  rw [← List.count_pos_iff]
  omega

end HandleOp

open HandleOp

/-- Every resource that was allocated was released, is in the hands of a party or is stored. -/
def Tracked (log : List (HandleOp κ)) (hand : ι → Option κ) (store : List κ) : Prop :=
  ∀ k ∈ allocated log, .release k ∈ log ∨ (∃ t, hand t = some k) ∨ k ∈ store

namespace Tracked

variable {log : List (HandleOp κ)} {hand : ι → Option κ} {store : List κ}

theorem empty : Tracked ([] : List (HandleOp κ)) (fun _ : ι => none) [] := fun _ hk => by cases hk

variable [DecidableEq ι]

/-- A party that loses nothing of its own keeps the invariant. -/
theorem run (h : Tracked log hand store) {t : ι} {ops : List (HandleOp κ)} {o' : Option κ}
    (hops : Accounts (hand t) ops o') : Tracked (log ++ ops) (Function.update hand t o') store := by
  have hself : ∀ k, hand t = some k ∨ k ∈ allocated ops → .release k ∈ log ++ ops ∨
      (∃ t', Function.update hand t o' t' = some k) ∨ k ∈ store := by
    intro k hk
    rcases hops k hk with hheld | hrel
    · exact Or.inr (Or.inl ⟨t, by rw [Function.update_self, hheld]⟩)
    · exact Or.inl (List.mem_append_right log hrel)
  intro k hk
  rw [allocated_append] at hk
  rcases List.mem_append.mp hk with hk | hk
  · rcases h k hk with hrel | ⟨t', ht'⟩ | hstore
    · exact Or.inl (List.mem_append_left ops hrel)
    · by_cases htt : t' = t
      · exact hself k (Or.inl (htt ▸ ht'))
      · exact Or.inr (Or.inl ⟨t', by rw [Function.update_of_ne htt, ht']⟩)
    · exact Or.inr (Or.inr hstore)
  · exact hself k (Or.inr hk)

/-- A party puts what it holds into the store. -/
theorem push (h : Tracked log hand store) (t : ι) :
    Tracked log (Function.update hand t none) (store ++ (hand t).toList) := by
  intro k hk
  rcases h k hk with hrel | ⟨t', ht'⟩ | hstore
  · exact Or.inl hrel
  · by_cases htt : t' = t
    · refine Or.inr (Or.inr (List.mem_append_right _ ?_))
      rw [← htt, ht']
      exact List.mem_singleton_self k
    · exact Or.inr (Or.inl ⟨t', by rw [Function.update_of_ne htt, ht']⟩)
  · exact Or.inr (Or.inr (List.mem_append_left _ hstore))

/-- A party with empty hands takes something out of the store. -/
theorem pop {t : ι} {o : Option κ} {l₁ l₂ : List κ} (h : Tracked log hand (l₁ ++ o.toList ++ l₂))
    (ht : hand t = none) : Tracked log (Function.update hand t o) (l₁ ++ l₂) := by
  intro k hk
  rcases h k hk with hrel | ⟨t', ht'⟩ | hstore
  · exact Or.inl hrel
  · have htt : t' ≠ t := by
      rintro rfl
      exact absurd (ht.symm.trans ht') (by simp)
    exact Or.inr (Or.inl ⟨t', by rw [Function.update_of_ne htt, ht']⟩)
  · rcases List.mem_append.mp hstore with hstore | hstore
    · rcases List.mem_append.mp hstore with hstore | hstore
      · exact Or.inr (Or.inr (List.mem_append_left _ hstore))
      · exact Or.inr (Or.inl ⟨t, by rw [Function.update_self]; exact Option.mem_toList.mp hstore⟩)
    · exact Or.inr (Or.inr (List.mem_append_right _ hstore))

end Tracked

/-- What was released is what is out of reach. -/
theorem Owned.released_iff [DecidableEq κ] {log : List (HandleOp κ)} {hand : ι → Option κ}
    {store : List κ} (h : Owned log hand store) (htracked : Tracked log hand store) {k : κ}
    (hk : k ∈ allocated log) : .release k ∈ log ↔ (∀ t, hand t ≠ some k) ∧ k ∉ store := by
  constructor
  · intro hrel
    exact ⟨fun t ht => (h.hand_live t k ht).2 hrel, fun hs => (h.store_live k hs).2 hrel⟩
  · rintro ⟨hhand, hstore⟩
    rcases htracked k hk with hrel | ⟨t, ht⟩ | hs
    · exact hrel
    · exact absurd ht (hhand t)
    · exact absurd hs hstore

end Schaufel
