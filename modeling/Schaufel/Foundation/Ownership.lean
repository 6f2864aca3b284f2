import Mathlib.Data.List.Nodup
import Mathlib.Logic.Function.Basic

/-!
# Resources with one owner

A log records what happens to resources: they are allocated, used and released.  `Safe log` says
that nothing is used or released after its release.

`Owned log hand store` is the invariant of a discipline that keeps a log safe: every resource that
can still be reached is alive and is reached in one way only, from the hands of one party or from
one place of a common store.  `Handling o ops o'` lists the operations a party may perform on its
own resource; `Owned.run` says that they keep the invariant, `Owned.push` and `Owned.pop` move a
resource into the store and out of it.
-/

namespace Schaufel

variable {ι κ : Type*}

/-- An operation on a resource. -/
inductive HandleOp (κ : Type*)
  | alloc (k : κ)
  | use (k : κ)
  | release (k : κ)
  deriving DecidableEq, Repr

namespace HandleOp

/-- The second operation needs a resource that the first one has released. -/
def clash [DecidableEq κ] : HandleOp κ → HandleOp κ → Bool
  | .release k, .use k' | .release k, .release k' => k = k'
  | _, _ => false

/-- Nothing is used or released after its release. -/
def Safe [DecidableEq κ] (log : List (HandleOp κ)) : Prop :=
  log.Pairwise fun op op' => clash op op' = false

instance [DecidableEq κ] (log : List (HandleOp κ)) : Decidable (Safe log) :=
  inferInstanceAs (Decidable (List.Pairwise _ _))

/-- The resource an operation allocates. -/
def alloc? : HandleOp κ → Option κ
  | .alloc k => some k
  | _ => none

/-- The resources a log has allocated. -/
def allocated (log : List (HandleOp κ)) : List κ := log.filterMap alloc?

@[simp] theorem allocated_append (log log' : List (HandleOp κ)) :
    allocated (log ++ log') = allocated log ++ allocated log' := by
  simp [allocated]

@[simp] theorem allocated_singleton_alloc (k : κ) : allocated [.alloc k] = [k] := rfl

/-- The resource exists and was not released. -/
def Live (log : List (HandleOp κ)) (k : κ) : Prop := k ∈ allocated log ∧ .release k ∉ log

theorem Live.append {log log' : List (HandleOp κ)} {k : κ} (h : Live log k)
    (hrel : .release k ∉ log') : Live (log ++ log') k :=
  ⟨by rw [allocated_append]; exact List.mem_append_left _ h.1, by simp [h.2, hrel]⟩

/-- An operation on a live resource is safe, and so is an allocation. -/
theorem Safe.concat [DecidableEq κ] {log : List (HandleOp κ)} {op : HandleOp κ} (h : Safe log)
    (hop : ∀ k, op = .use k ∨ op = .release k → Live log k) : Safe (log ++ [op]) := by
  refine List.pairwise_append.mpr ⟨h, List.pairwise_singleton _ _, fun op' hop' op'' hop'' => ?_⟩
  obtain rfl := List.mem_singleton.mp hop''
  cases op' with
  | release k' =>
    cases op'' with
    | use k =>
      refine decide_eq_false fun hk => (hop k (Or.inl rfl)).2 ?_
      rwa [← hk]
    | release k =>
      refine decide_eq_false fun hk => (hop k (Or.inr rfl)).2 ?_
      rwa [← hk]
    | alloc k => rfl
  | alloc k' => rfl
  | use k' => rfl

/-- What a party may do with the resource in its hands, from `o` to `o'`. -/
inductive Handling : Option κ → List (HandleOp κ) → Option κ → Prop
  | done (o : Option κ) : Handling o [] o
  | use {k : κ} {ops : List (HandleOp κ)} {o' : Option κ} (h : Handling (some k) ops o') :
      Handling (some k) (.use k :: ops) o'
  | alloc {k : κ} {ops : List (HandleOp κ)} {o' : Option κ} (h : Handling (some k) ops o') :
      Handling none (.alloc k :: ops) o'
  /-- The new resource is allocated before the old one is released. -/
  | replace {k k' : κ} {ops : List (HandleOp κ)} {o' : Option κ} (h : Handling (some k') ops o') :
      Handling (some k) (.alloc k' :: .release k :: ops) o'
  | release {k : κ} {ops : List (HandleOp κ)} {o' : Option κ} (h : Handling none ops o') :
      Handling (some k) (.release k :: ops) o'
  /-- The resource is leaked. -/
  | leak {k : κ} {ops : List (HandleOp κ)} {o' : Option κ} (h : Handling none ops o') :
      Handling (some k) ops o'

theorem Handling.trans {o o' o'' : Option κ} {ops ops' : List (HandleOp κ)} (h : Handling o ops o')
    (h' : Handling o' ops' o'') : Handling o (ops ++ ops') o'' := by
  induction h with
  | done o => exact h'
  | use _ ih => exact .use (ih h')
  | alloc _ ih => exact .alloc (ih h')
  | replace _ ih => exact .replace (ih h')
  | release _ ih => exact .release (ih h')
  | leak _ ih => exact .leak (ih h')

/-- A resource may be released, if there is one. -/
theorem Handling.release_toList (o : Option κ) : Handling o (o.toList.map .release) none := by
  cases o with
  | none => exact .done none
  | some k => exact .release (.done none)

/-- A resource may be used, if there is one. -/
theorem Handling.use_toList (o : Option κ) : Handling o (o.toList.map .use) o := by
  cases o with
  | none => exact .done none
  | some k => exact .use (.done (some k))

theorem Handling.leaked (o : Option κ) : Handling o [] none := by
  cases o with
  | none => exact .done none
  | some k => exact .leak (.done none)

end HandleOp

open HandleOp

/-- Every resource within reach is alive and is reached in one way only. -/
structure Owned [DecidableEq κ] (log : List (HandleOp κ)) (hand : ι → Option κ) (store : List κ) :
    Prop where
  safe : Safe log
  /-- What was released was allocated. -/
  known : ∀ k, .release k ∈ log → k ∈ allocated log
  /-- What a party holds is alive. -/
  hand_live : ∀ t k, hand t = some k → Live log k
  /-- What is stored is alive. -/
  store_live : ∀ k ∈ store, Live log k
  /-- No resource is held by two parties. -/
  hand_inj : ∀ t t' k, hand t = some k → hand t' = some k → t = t'
  /-- What a party holds is not stored. -/
  hand_store : ∀ t k, hand t = some k → k ∉ store
  /-- Nothing is stored twice. -/
  store_nodup : store.Nodup

namespace Owned

variable [DecidableEq κ] {log : List (HandleOp κ)} {hand : ι → Option κ} {store : List κ}

theorem empty : Owned ([] : List (HandleOp κ)) (fun _ : ι => none) [] := by
  constructor <;> simp [Safe]

/-- An operation on a live resource, which is out of reach if it is released. -/
theorem concat (h : Owned log hand store) {op : HandleOp κ}
    (hlive : ∀ k, op = .use k ∨ op = .release k → Live log k)
    (hreach : ∀ k, op = .release k → (∀ t, hand t ≠ some k) ∧ k ∉ store) :
    Owned (log ++ [op]) hand store := by
  refine ⟨h.safe.concat hlive, ?_, ?_, ?_, h.hand_inj, h.hand_store, h.store_nodup⟩
  · intro k hk
    rw [allocated_append]
    apply List.mem_append_left
    rcases List.mem_append.mp hk with hk | hk
    · exact h.known k hk
    · exact (hlive k (Or.inr (List.mem_singleton.mp hk).symm)).1
  · intro t k hk
    refine (h.hand_live t k hk).append fun hmem => ?_
    exact (hreach k (List.mem_singleton.mp hmem).symm).1 t hk
  · intro k hk
    refine (h.store_live k hk).append fun hmem => ?_
    exact (hreach k (List.mem_singleton.mp hmem).symm).2 hk

/-- A resource that was never allocated is out of reach and was not released. -/
theorem fresh (h : Owned log hand store) {k : κ} (hk : k ∉ allocated log) :
    (∀ t, hand t ≠ some k) ∧ k ∉ store ∧ .release k ∉ log :=
  ⟨fun t ht => hk (h.hand_live t k ht).1, fun hs => hk (h.store_live k hs).1,
    fun hr => hk (h.known k hr)⟩

/-- A live resource that is out of reach is released. -/
theorem release (h : Owned log hand store) {k : κ} (hlive : Live log k)
    (hhand : ∀ t, hand t ≠ some k) (hstore : k ∉ store) :
    Owned (log ++ [.release k]) hand store := by
  refine h.concat (fun k' hk' => ?_) fun k' hk' => ?_
  · rcases hk' with hk' | hk' <;> cases hk'
    exact hlive
  · cases hk'
    exact ⟨hhand, hstore⟩

variable [DecidableEq ι]

/-- A party gives its resource away, which is then out of reach of the parties. -/
theorem drop (h : Owned log hand store) (t : ι) :
    Owned log (Function.update hand t none) store ∧
      ∀ k, hand t = some k → ∀ t', Function.update hand t none t' ≠ some k := by
  have hsub : ∀ t' k, Function.update hand t none t' = some k → t' ≠ t ∧ hand t' = some k := by
    intro t' k hk
    by_cases ht : t' = t
    · subst ht
      simp at hk
    · rw [Function.update_of_ne ht] at hk
      exact ⟨ht, hk⟩
  refine ⟨⟨h.safe, h.known, fun t' k hk => h.hand_live t' k (hsub t' k hk).2, h.store_live,
    fun t₁ t₂ k h₁ h₂ => h.hand_inj t₁ t₂ k (hsub t₁ k h₁).2 (hsub t₂ k h₂).2,
    fun t' k hk => h.hand_store t' k (hsub t' k hk).2, h.store_nodup⟩, ?_⟩
  intro k hk t' ht'
  obtain ⟨hne, hold⟩ := hsub t' k ht'
  exact hne (h.hand_inj t' t k hold hk)

/-- A party receives a live resource nobody can reach. -/
theorem receive (h : Owned log hand store) (t : ι) {k : κ} (hlive : Live log k)
    (hhand : ∀ t', hand t' ≠ some k) (hstore : k ∉ store) :
    Owned log (Function.update hand t (some k)) store := by
  have hcases : ∀ t' k', Function.update hand t (some k) t' = some k' →
      (t' = t ∧ k' = k) ∨ (t' ≠ t ∧ hand t' = some k') := by
    intro t' k' hk'
    by_cases ht : t' = t
    · subst ht
      rw [Function.update_self] at hk'
      exact Or.inl ⟨rfl, (Option.some.inj hk').symm⟩
    · rw [Function.update_of_ne ht] at hk'
      exact Or.inr ⟨ht, hk'⟩
  refine ⟨h.safe, h.known, ?_, h.store_live, ?_, ?_, h.store_nodup⟩
  · intro t' k' hk'
    rcases hcases t' k' hk' with ⟨-, rfl⟩ | ⟨-, hold⟩
    · exact hlive
    · exact h.hand_live t' k' hold
  · intro t₁ t₂ k' h₁ h₂
    rcases hcases t₁ k' h₁ with ⟨rfl, rfl⟩ | ⟨-, hold₁⟩ <;>
      rcases hcases t₂ k' h₂ with ⟨rfl, hk⟩ | ⟨-, hold₂⟩
    · rfl
    · exact absurd hold₂ (hhand t₂)
    · rw [hk] at hold₁
      exact absurd hold₁ (hhand t₁)
    · exact h.hand_inj t₁ t₂ k' hold₁ hold₂
  · intro t' k' hk'
    rcases hcases t' k' hk' with ⟨-, rfl⟩ | ⟨-, hold⟩
    · exact hstore
    · exact h.hand_store t' k' hold

/-- A party allocates a new resource and holds it instead of what it held before. -/
theorem alloc (h : Owned log hand store) (t : ι) {k : κ} (hk : k ∉ allocated log) :
    Owned (log ++ [.alloc k]) (Function.update hand t (some k)) store := by
  obtain ⟨hhand, hstore, hrel⟩ := h.fresh hk
  have hown : Owned (log ++ [.alloc k]) hand store := by
    refine h.concat (fun k' hk' => ?_) fun k' hk' => ?_
    · rcases hk' with hk' | hk' <;> cases hk'
    · cases hk'
  exact hown.receive t ⟨by simp, by simp [hrel]⟩ hhand hstore

/-- What a party does with its own resource keeps the invariant, if everything it allocates is
new. -/
theorem run {t : ι} {o o' : Option κ} {ops : List (HandleOp κ)} (hops : Handling o ops o')
    (h : Owned log hand store) (ho : hand t = o) (hfresh : (allocated (log ++ ops)).Nodup) :
    Owned (log ++ ops) (Function.update hand t o') store := by
  -- what is allocated next is new
  have hnew : ∀ {log : List (HandleOp κ)} {k ops}, (allocated (log ++ .alloc k :: ops)).Nodup →
      k ∉ allocated log := by
    intro log k ops hnodup hmem
    rw [allocated_append] at hnodup
    exact (List.nodup_append.mp hnodup).2.2 k hmem k (by simp [allocated, alloc?]) rfl
  induction hops generalizing log hand with
  | done o =>
    rw [List.append_nil, ← ho, Function.update_eq_self]
    exact h
  | @use k ops o' hops ih =>
    have hown : Owned (log ++ [.use k]) hand store := by
      refine h.concat (fun k' hk' => ?_) fun k' hk' => by cases hk'
      rcases hk' with hk' | hk' <;> cases hk'
      exact h.hand_live t k ho
    rw [List.append_cons] at hfresh ⊢
    exact ih hown ho hfresh
  | @alloc k ops o' hops ih =>
    have hown := h.alloc t (hnew hfresh)
    rw [List.append_cons] at hfresh ⊢
    have hend := ih hown (Function.update_self ..) hfresh
    rwa [Function.update_idem] at hend
  | @replace k k' ops o' hops ih =>
    have hne : k ≠ k' := by
      rintro rfl
      exact hnew hfresh (h.hand_live t k ho).1
    obtain ⟨hdrop, hgone⟩ := h.drop t
    have halloc := hdrop.alloc t (hnew hfresh)
    have hown := halloc.release (k := k) ((h.hand_live t k ho).append (by simp)) ?_
      (h.hand_store t k ho)
    · rw [List.append_cons, List.append_cons] at hfresh ⊢
      have hend := ih hown (Function.update_self ..) hfresh
      rwa [Function.update_idem, Function.update_idem] at hend
    · intro t' ht'
      by_cases ht : t' = t
      · subst ht
        rw [Function.update_self] at ht'
        exact hne (Option.some.inj ht').symm
      · rw [Function.update_of_ne ht] at ht'
        exact hgone k ho t' ht'
  | @release k ops o' hops ih =>
    obtain ⟨hdrop, hgone⟩ := h.drop t
    have hown := hdrop.release (h.hand_live t k ho) (hgone k ho) (h.hand_store t k ho)
    rw [List.append_cons] at hfresh ⊢
    have hend := ih hown (Function.update_self ..) hfresh
    rwa [Function.update_idem] at hend
  | @leak k ops o' hops ih =>
    have hend := ih (h.drop t).1 (Function.update_self ..) hfresh
    rwa [Function.update_idem] at hend

/-- A party puts its resource into the store. -/
theorem push (h : Owned log hand store) {t : ι} {k : κ} (hk : hand t = some k) :
    Owned log (Function.update hand t none) (store ++ [k]) := by
  obtain ⟨hdrop, hgone⟩ := h.drop t
  refine ⟨h.safe, h.known, hdrop.hand_live, ?_, hdrop.hand_inj, ?_, ?_⟩
  · intro k' hk'
    rcases List.mem_append.mp hk' with hk' | hk'
    · exact h.store_live k' hk'
    · rw [List.mem_singleton.mp hk']
      exact h.hand_live t k hk
  · intro t' k' hk' hmem
    rcases List.mem_append.mp hmem with hmem | hmem
    · exact hdrop.hand_store t' k' hk' hmem
    · rw [List.mem_singleton.mp hmem] at hk'
      exact hgone k hk t' hk'
  · refine List.nodup_append.mpr ⟨h.store_nodup, List.nodup_singleton k, ?_⟩
    intro k' hk' k'' hk''
    rw [List.mem_singleton.mp hk'']
    rintro rfl
    exact h.hand_store t k' hk hk'

/-- A party takes a resource out of the store. -/
theorem pop (h : Owned log hand store) (t : ι) {k : κ} {l₁ l₂ : List κ}
    (hstore : store = l₁ ++ k :: l₂) :
    Owned log (Function.update hand t (some k)) (l₁ ++ l₂) ∧ Live log k := by
  subst hstore
  have hmem : k ∈ l₁ ++ k :: l₂ := by simp
  have hlive := h.store_live k hmem
  obtain ⟨hnot, hnodup⟩ := List.nodup_cons.mp (List.nodup_middle.mp h.store_nodup)
  have hsub : ∀ k' ∈ l₁ ++ l₂, k' ∈ l₁ ++ k :: l₂ := fun k' hk' =>
    List.perm_middle.symm.subset (List.mem_cons_of_mem k hk')
  have hrest : Owned log hand (l₁ ++ l₂) :=
    ⟨h.safe, h.known, h.hand_live, fun k' hk' => h.store_live k' (hsub k' hk'), h.hand_inj,
      fun t' k' hk' hmem' => h.hand_store t' k' hk' (hsub k' hmem'), hnodup⟩
  exact ⟨hrest.receive t hlive (fun t' ht' => h.hand_store t' k ht' hmem) hnot, hlive⟩

end Owned

end Schaufel
