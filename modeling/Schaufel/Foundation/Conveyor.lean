import Mathlib.Data.List.Basic
import Mathlib.Data.Set.Basic
import Mathlib.Logic.Function.Basic

/-!
# Goods on a conveyor

Feeders take goods, one at a time, and put them on a belt; servers pick them up from the belt and
deal with them.  Every good has a lane and a rank, and the goods of a lane are taken in increasing
rank.

`Conveyor.Ordered` is the invariant of a conveyor on which every lane is fed by one feeder, keeps
its order on the belt and is served by one server at a time: along every lane the ranks increase
from the server over the belt to the feeder.  So everything that was taken before the good in the
hands of a server is done (`Ordered.done_of_le`).  The operations `take`, `put`, `pick`,
`finishFeeder` and `finishServer` keep the invariant.
-/

namespace Schaufel

/-! ### Hands that change -/

section Update

variable {α β : Type*} [DecidableEq α] {f : α → Option β} {a a' : α} {b b' : β}

/-- What the hands hold after a change at `a`. -/
theorem of_update_eq_some {o : Option β} (h : Function.update f a o a' = some b) :
    (a' = a ∧ o = some b) ∨ (a' ≠ a ∧ f a' = some b) := by
  by_cases ha : a' = a
  · subst ha
    rw [Function.update_self] at h
    exact Or.inl ⟨rfl, h⟩
  · rw [Function.update_of_ne ha] at h
    exact Or.inr ⟨ha, h⟩

theorem of_update_some_eq_some (h : Function.update f a (some b) a' = some b') :
    (a' = a ∧ b' = b) ∨ f a' = some b' := by
  rcases of_update_eq_some h with ⟨ha, hnew⟩ | ⟨-, hold⟩
  · exact Or.inl ⟨ha, (Option.some.inj hnew).symm⟩
  · exact Or.inr hold

theorem of_update_none_eq_some (h : Function.update f a none a' = some b) :
    a' ≠ a ∧ f a' = some b := by
  rcases of_update_eq_some h with ⟨-, hnew⟩ | hold
  · cases hnew
  · exact hold

end Update

/-- Feeders `ι`, servers `ι'`, and goods `κ` on their way from the ones to the others. -/
structure Conveyor (ι ι' κ : Type*) where
  /-- The good in the hands of a feeder. -/
  feeder : ι → Option κ
  /-- The goods on the belt, the oldest first. -/
  belt : List κ
  /-- The good in the hands of a server. -/
  server : ι' → Option κ
  /-- The goods taken so far, each with the feeder that took it. -/
  taken : List (ι × κ)
  /-- The goods that are dealt with. -/
  done : Set κ

namespace Conveyor

variable {ι ι' κ : Type*}

/-- If the two goods are of one lane, then the first one has the smaller rank. -/
def Before (lane rank : κ → ℕ) (k k' : κ) : Prop := lane k = lane k' → rank k < rank k'

/-- Along every lane the ranks increase from the server over the belt to the feeder, and no good is
lost. -/
structure Ordered (lane rank : κ → ℕ) (c : Conveyor ι ι' κ) : Prop where
  /-- A lane is fed by one feeder. -/
  sole_feeder : ∀ r ∈ c.taken, ∀ r' ∈ c.taken, lane r.2 = lane r'.2 → r.1 = r'.1
  /-- A lane is served by one server at a time. -/
  sole_server : ∀ j j' k k', c.server j = some k → c.server j' = some k' → lane k = lane k' → j = j'
  /-- A feeder holds the last good of its lane. -/
  feeder_last : ∀ i k, c.feeder i = some k →
    (i, k) ∈ c.taken ∧ ∀ r ∈ c.taken, lane r.2 = lane k → rank r.2 ≤ rank k
  /-- The goods on the belt were taken. -/
  belt_taken : ∀ k ∈ c.belt, ∃ i, (i, k) ∈ c.taken
  /-- The goods of the servers were taken. -/
  server_taken : ∀ j k, c.server j = some k → ∃ i, (i, k) ∈ c.taken
  /-- The belt is in order. -/
  belt_sorted : c.belt.Pairwise (Before lane rank)
  /-- What is on the belt is older than what the feeders hold. -/
  belt_feeder : ∀ k ∈ c.belt, ∀ i k', c.feeder i = some k' → Before lane rank k k'
  /-- What the servers hold is older than what is on the belt. -/
  server_belt : ∀ j k, c.server j = some k → ∀ k' ∈ c.belt, Before lane rank k k'
  /-- What the servers hold is older than what the feeders hold. -/
  server_feeder : ∀ j k i k', c.server j = some k → c.feeder i = some k' → Before lane rank k k'
  /-- Every good taken is done or on its way. -/
  accounted : ∀ r ∈ c.taken,
    r.2 ∈ c.done ∨ (∃ i, c.feeder i = some r.2) ∨ r.2 ∈ c.belt ∨ ∃ j, c.server j = some r.2

variable {lane rank : κ → ℕ} {c : Conveyor ι ι' κ}

/-- What was taken of the lane of a server's good, up to this good, is done or is this good. -/
theorem Ordered.done_of_le (h : c.Ordered lane rank) {j : ι'} {k : κ} (hk : c.server j = some k)
    {r : ι × κ} (hr : r ∈ c.taken) (hlane : lane r.2 = lane k) (hrank : rank r.2 ≤ rank k) :
    r.2 ∈ c.done ∨ r.2 = k := by
  rcases h.accounted r hr with hdone | ⟨i, hi⟩ | hbelt | ⟨j', hj'⟩
  · exact Or.inl hdone
  · have hlt := h.server_feeder j k i r.2 hk hi hlane.symm
    omega
  · have hlt := h.server_belt j k hk r.2 hbelt hlane.symm
    omega
  · obtain rfl := h.sole_server j' j r.2 k hj' hk hlane
    exact Or.inr (Option.some.inj (hj'.symm.trans hk))

/-- The invariant depends on the hands, the belt and the goods taken; more goods may be done. -/
theorem Ordered.congr {c' : Conveyor ι ι' κ} (h : c.Ordered lane rank)
    (hfeeder : c'.feeder = c.feeder) (hbelt : c'.belt = c.belt) (hserver : c'.server = c.server)
    (htaken : c'.taken = c.taken) (hdone : c.done ⊆ c'.done) : c'.Ordered lane rank := by
  obtain ⟨feeder, belt, server, taken, done⟩ := c'
  obtain rfl : feeder = c.feeder := hfeeder
  obtain rfl : belt = c.belt := hbelt
  obtain rfl : server = c.server := hserver
  obtain rfl : taken = c.taken := htaken
  exact ⟨h.sole_feeder, h.sole_server, h.feeder_last, h.belt_taken, h.server_taken, h.belt_sorted,
    h.belt_feeder, h.server_belt, h.server_feeder,
    fun r hr => (h.accounted r hr).imp (fun hr => hdone hr) id⟩

/-- A conveyor on which nothing has happened. -/
theorem ordered_empty (done : Set κ) :
    (⟨fun _ => none, [], fun _ => none, [], done⟩ : Conveyor ι ι' κ).Ordered lane rank := by
  constructor <;> simp

section Operations

variable [DecidableEq ι]

/-- A feeder with empty hands takes the next good of a lane that is its own. -/
theorem Ordered.take (h : c.Ordered lane rank) {i : ι} {k : κ} (hfree : c.feeder i = none)
    (hnext : ∀ r ∈ c.taken, lane r.2 = lane k → r.1 = i ∧ rank r.2 < rank k) :
    Ordered lane rank { c with
      feeder := Function.update c.feeder i (some k), taken := c.taken ++ [(i, k)] } := by
  have hbefore : ∀ k', (∃ i', (i', k') ∈ c.taken) → Before lane rank k' k := by
    rintro k' ⟨i', hmem⟩ hlane
    exact (hnext _ hmem hlane).2
  refine ⟨?_, h.sole_server, ?_, ?_, ?_, h.belt_sorted, ?_, h.server_belt, ?_, ?_⟩
  · intro r hr r' hr' hlane
    rcases List.mem_append.mp hr with hr | hr <;> rcases List.mem_append.mp hr' with hr' | hr'
    · exact h.sole_feeder r hr r' hr' hlane
    · obtain rfl := List.mem_singleton.mp hr'
      exact (hnext r hr hlane).1
    · obtain rfl := List.mem_singleton.mp hr
      exact (hnext r' hr' hlane.symm).1.symm
    · rw [List.mem_singleton.mp hr, List.mem_singleton.mp hr']
  · intro i' k' hk'
    rcases of_update_some_eq_some hk' with ⟨rfl, rfl⟩ | hold
    · refine ⟨by simp, fun r hr hlane => ?_⟩
      rcases List.mem_append.mp hr with hr | hr
      · exact (hnext r hr hlane).2.le
      · rw [List.mem_singleton.mp hr]
    · obtain ⟨hmem, hlast⟩ := h.feeder_last i' k' hold
      refine ⟨List.mem_append_left _ hmem, fun r hr hlane => ?_⟩
      rcases List.mem_append.mp hr with hr | hr
      · exact hlast r hr hlane
      · -- another feeder holds nothing of this lane
        obtain rfl := List.mem_singleton.mp hr
        obtain rfl : i' = i := (hnext _ hmem hlane.symm).1
        cases hfree.symm.trans hold
  · intro k' hk'
    obtain ⟨i', hmem⟩ := h.belt_taken k' hk'
    exact ⟨i', List.mem_append_left _ hmem⟩
  · intro j k' hk'
    obtain ⟨i', hmem⟩ := h.server_taken j k' hk'
    exact ⟨i', List.mem_append_left _ hmem⟩
  · intro k' hk' i' k'' hk''
    rcases of_update_some_eq_some hk'' with ⟨-, rfl⟩ | hk''
    · exact hbefore k' (h.belt_taken k' hk')
    · exact h.belt_feeder k' hk' i' k'' hk''
  · intro j k' i' k'' hk' hk''
    rcases of_update_some_eq_some hk'' with ⟨-, rfl⟩ | hk''
    · exact hbefore k' (h.server_taken j k' hk')
    · exact h.server_feeder j k' i' k'' hk' hk''
  · intro r hr
    rcases List.mem_append.mp hr with hr | hr
    · rcases h.accounted r hr with hdone | ⟨i', hi'⟩ | hrest
      · exact Or.inl hdone
      · have hne : i' ≠ i := by
          rintro rfl
          cases hfree.symm.trans hi'
        exact Or.inr (Or.inl ⟨i', (Function.update_of_ne hne _ _).trans hi'⟩)
      · exact Or.inr (Or.inr hrest)
    · obtain rfl := List.mem_singleton.mp hr
      exact Or.inr (Or.inl ⟨i, Function.update_self ..⟩)

/-- A feeder puts its good on the belt. -/
theorem Ordered.put (h : c.Ordered lane rank) {i : ι} {k : κ} (hk : c.feeder i = some k) :
    Ordered lane rank { c with
      feeder := Function.update c.feeder i none, belt := c.belt ++ [k] } := by
  obtain ⟨hmem, hlast⟩ := h.feeder_last i k hk
  refine ⟨h.sole_feeder, h.sole_server, ?_, ?_, h.server_taken, ?_, ?_, ?_, ?_, ?_⟩
  · exact fun i' k' hk' => h.feeder_last i' k' (of_update_none_eq_some hk').2
  · intro k' hk'
    rcases List.mem_append.mp hk' with hk' | hk'
    · exact h.belt_taken k' hk'
    · exact ⟨i, by rwa [List.mem_singleton.mp hk']⟩
  · refine List.pairwise_append.mpr ⟨h.belt_sorted, List.pairwise_singleton _ _, ?_⟩
    intro k' hk' k'' hk''
    rw [List.mem_singleton.mp hk'']
    exact h.belt_feeder k' hk' i k hk
  · intro k' hk' i' k'' hk''
    obtain ⟨hi', hk''⟩ := of_update_none_eq_some hk''
    rcases List.mem_append.mp hk' with hk' | hk'
    · exact h.belt_feeder k' hk' i' k'' hk''
    · -- no other feeder works on the lane
      intro hlane
      rw [List.mem_singleton.mp hk'] at hlane
      exact absurd (h.sole_feeder _ (h.feeder_last i' k'' hk'').1 _ hmem hlane.symm) hi'
  · intro j k' hk' k'' hk''
    rcases List.mem_append.mp hk'' with hk'' | hk''
    · exact h.server_belt j k' hk' k'' hk''
    · rw [List.mem_singleton.mp hk'']
      exact h.server_feeder j k' i k hk' hk
  · exact fun j k' i' k'' hk' hk'' =>
      h.server_feeder j k' i' k'' hk' (of_update_none_eq_some hk'').2
  · intro r hr
    rcases h.accounted r hr with hdone | ⟨i', hi'⟩ | hbelt | hserver
    · exact Or.inl hdone
    · by_cases hi : i' = i
      · subst hi
        obtain rfl := Option.some.inj (hi'.symm.trans hk)
        exact Or.inr (Or.inr (Or.inl (by simp)))
      · exact Or.inr (Or.inl ⟨i', (Function.update_of_ne hi _ _).trans hi'⟩)
    · exact Or.inr (Or.inr (Or.inl (List.mem_append_left _ hbelt)))
    · exact Or.inr (Or.inr (Or.inr hserver))

/-- A feeder deals with its good itself. -/
theorem Ordered.finishFeeder (h : c.Ordered lane rank) {i : ι}
    (hdone : ∀ k, c.feeder i = some k → k ∈ c.done) :
    Ordered lane rank { c with feeder := Function.update c.feeder i none } := by
  refine ⟨h.sole_feeder, h.sole_server, ?_, h.belt_taken, h.server_taken, h.belt_sorted, ?_,
    h.server_belt, ?_, ?_⟩
  · exact fun i' k' hk' => h.feeder_last i' k' (of_update_none_eq_some hk').2
  · exact fun k' hk' i' k'' hk'' => h.belt_feeder k' hk' i' k'' (of_update_none_eq_some hk'').2
  · exact fun j k' i' k'' hk' hk'' =>
      h.server_feeder j k' i' k'' hk' (of_update_none_eq_some hk'').2
  · intro r hr
    rcases h.accounted r hr with hr | ⟨i', hi'⟩ | hrest
    · exact Or.inl hr
    · by_cases hi : i' = i
      · subst hi
        exact Or.inl (hdone r.2 hi')
      · exact Or.inr (Or.inl ⟨i', (Function.update_of_ne hi _ _).trans hi'⟩)
    · exact Or.inr (Or.inr hrest)

end Operations

section Serving

variable [DecidableEq ι']

/-- A server with empty hands picks up a good of a lane that no server works on; nothing of the lane
lies before it. -/
theorem Ordered.pick (h : c.Ordered lane rank) {j : ι'} {k : κ} {l₁ l₂ : List κ}
    (hsplit : c.belt = l₁ ++ k :: l₂) (hfirst : ∀ k' ∈ l₁, lane k' ≠ lane k)
    (hfree : c.server j = none) (hsole : ∀ j' k', c.server j' = some k' → lane k' ≠ lane k) :
    Ordered lane rank { c with
      belt := l₁ ++ l₂, server := Function.update c.server j (some k) } := by
  have hmem : k ∈ c.belt := by rw [hsplit]; simp
  have hsub : ∀ k' ∈ l₁ ++ l₂, k' ∈ c.belt := by
    intro k' hk'
    rw [hsplit]
    rcases List.mem_append.mp hk' with hk' | hk'
    · exact List.mem_append_left _ hk'
    · exact List.mem_append_right _ (List.mem_cons_of_mem _ hk')
  have hsorted := h.belt_sorted
  rw [hsplit] at hsorted
  obtain ⟨hsorted₁, hsorted₂, hcross⟩ := List.pairwise_append.mp hsorted
  obtain ⟨hk, hsorted₂⟩ := List.pairwise_cons.mp hsorted₂
  refine ⟨h.sole_feeder, ?_, h.feeder_last, fun k' hk' => h.belt_taken k' (hsub k' hk'), ?_, ?_,
    fun k' hk' => h.belt_feeder k' (hsub k' hk'), ?_, ?_, ?_⟩
  · intro j₁ j₂ k₁ k₂ h₁ h₂ hlane
    rcases of_update_some_eq_some h₁ with ⟨rfl, rfl⟩ | hold₁ <;>
      rcases of_update_some_eq_some h₂ with ⟨rfl, rfl⟩ | hold₂
    · rfl
    · exact absurd hlane.symm (hsole j₂ k₂ hold₂)
    · exact absurd hlane (hsole j₁ k₁ hold₁)
    · exact h.sole_server j₁ j₂ k₁ k₂ hold₁ hold₂ hlane
  · intro j' k' hk'
    rcases of_update_some_eq_some hk' with ⟨rfl, rfl⟩ | hk'
    · exact h.belt_taken k' hmem
    · exact h.server_taken j' k' hk'
  · exact List.pairwise_append.mpr
      ⟨hsorted₁, hsorted₂, fun a ha b hb => hcross a ha b (List.mem_cons_of_mem _ hb)⟩
  · intro j' k' hk' k'' hk''
    rcases of_update_some_eq_some hk' with ⟨rfl, rfl⟩ | hk'
    · rcases List.mem_append.mp hk'' with hk'' | hk''
      · exact fun hlane => absurd hlane.symm (hfirst k'' hk'')
      · exact hk k'' hk''
    · exact h.server_belt j' k' hk' k'' (hsub k'' hk'')
  · intro j' k' i k'' hk' hk''
    rcases of_update_some_eq_some hk' with ⟨rfl, rfl⟩ | hk'
    · exact h.belt_feeder k' hmem i k'' hk''
    · exact h.server_feeder j' k' i k'' hk' hk''
  · intro r hr
    rcases h.accounted r hr with hdone | hfeeder | hbelt | ⟨j', hj'⟩
    · exact Or.inl hdone
    · exact Or.inr (Or.inl hfeeder)
    · rw [hsplit] at hbelt
      rcases List.mem_append.mp hbelt with hbelt | hbelt
      · exact Or.inr (Or.inr (Or.inl (List.mem_append_left _ hbelt)))
      · rcases List.mem_cons.mp hbelt with heq | hbelt
        · exact Or.inr (Or.inr (Or.inr ⟨j, by rw [heq]; exact Function.update_self ..⟩))
        · exact Or.inr (Or.inr (Or.inl (List.mem_append_right _ hbelt)))
    · have hne : j' ≠ j := by
        rintro rfl
        cases hfree.symm.trans hj'
      exact Or.inr (Or.inr (Or.inr ⟨j', (Function.update_of_ne hne _ _).trans hj'⟩))

/-- A server has dealt with its good. -/
theorem Ordered.finishServer (h : c.Ordered lane rank) {j : ι'}
    (hdone : ∀ k, c.server j = some k → k ∈ c.done) :
    Ordered lane rank { c with server := Function.update c.server j none } := by
  have hserver : ∀ j' k', Function.update c.server j none j' = some k' → c.server j' = some k' :=
    fun j' k' hk' => (of_update_none_eq_some hk').2
  refine ⟨h.sole_feeder, ?_, h.feeder_last, h.belt_taken, ?_, h.belt_sorted, h.belt_feeder, ?_, ?_,
    ?_⟩
  · exact fun j₁ j₂ k₁ k₂ h₁ h₂ => h.sole_server j₁ j₂ k₁ k₂ (hserver j₁ k₁ h₁) (hserver j₂ k₂ h₂)
  · exact fun j' k' hk' => h.server_taken j' k' (hserver j' k' hk')
  · exact fun j' k' hk' => h.server_belt j' k' (hserver j' k' hk')
  · exact fun j' k' i k'' hk' => h.server_feeder j' k' i k'' (hserver j' k' hk')
  · intro r hr
    rcases h.accounted r hr with hr | hfeeder | hbelt | ⟨j', hj'⟩
    · exact Or.inl hr
    · exact Or.inr (Or.inl hfeeder)
    · exact Or.inr (Or.inr (Or.inl hbelt))
    · by_cases hj : j' = j
      · subst hj
        exact Or.inl (hdone r.2 hj')
      · exact Or.inr (Or.inr (Or.inr ⟨j', (Function.update_of_ne hj _ _).trans hj'⟩))

end Serving

end Conveyor

end Schaufel
