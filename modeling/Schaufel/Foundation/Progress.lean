import Mathlib.Algebra.Order.BigOperators.Group.List
import Mathlib.Algebra.Order.Ring.Nat
import Schaufel.Foundation.Run

/-!
# Budgets of runs

A budget is a natural number read off the state that no step raises.  If some labels lower it, a run
has at most so many of them as the budget says (`exec_budget`).  If every state that is not yet at
rest has a step that lowers it, a state of rest can be reached (`exists_exec_of_descent`).

The budget of a system of parties is a sum over the parties, of which a step changes one summand
(`sum_map_of_eq_off`).
-/

namespace Schaufel

variable {σ α τ : Type*}

/-- A run that starts in a state with the invariant has at most as many working labels as its budget
allows. -/
theorem exec_budget {step : σ → α → Option σ} {P : σ → Prop} {budget : σ → Nat} {works : α → Bool}
    (hstep : ∀ t a t', P t → step t a = some t' → P t' ∧ budget t' + (works a).toNat ≤ budget t)
    {s s' : σ} {acts : List α} (hs : P s) (h : exec step s acts = some s') :
    P s' ∧ budget s' + acts.countP works ≤ budget s := by
  refine exec_induction (P := fun acts s' => P s' ∧ budget s' + acts.countP works ≤ budget s)
    ⟨hs, Nat.le_refl _⟩ ?_ h
  rintro acts t a t' - ⟨ht, hle⟩ hst
  obtain ⟨ht', hle'⟩ := hstep t a t' ht hst
  refine ⟨ht', ?_⟩
  have hcount : [a].countP works = (works a).toNat := by
    cases hw : works a <;> simp [hw]
  rw [List.countP_append, hcount]
  omega

/-- If every state with the invariant is at rest or has a step to one with a smaller budget, then
every state with the invariant has a run to rest. -/
theorem exists_exec_of_descent {step : σ → α → Option σ} {P rest : σ → Prop} (budget : σ → Nat)
    (hstep : ∀ t, P t → rest t ∨ ∃ a t', step t a = some t' ∧ P t' ∧ budget t' < budget t) {s : σ}
    (hs : P s) : ∃ acts s', exec step s acts = some s' ∧ P s' ∧ rest s' := by
  induction hn : budget s using Nat.strongRecOn generalizing s with
  | ind n ih =>
    rcases hstep s hs with hrest | ⟨a, t, hst, ht, hlt⟩
    · exact ⟨[], s, rfl, hs, hrest⟩
    · obtain ⟨acts, s', hexec, hs', hrest⟩ := ih (budget t) (hn ▸ hlt) ht rfl
      exact ⟨a :: acts, s', by rw [exec_cons, hst, Option.bind_some, hexec], hs', hrest⟩

/-- A sum over parties of which one changes its summand. -/
theorem sum_map_of_eq_off {l : List τ} (hl : l.Nodup) {t : τ} (ht : t ∈ l) {f f' : τ → Nat}
    (h : ∀ t' ≠ t, f' t' = f t') : (l.map f').sum + f t = (l.map f).sum + f' t := by
  induction l with
  | nil => cases ht
  | cons u l ih =>
    obtain ⟨hu, hl⟩ := List.nodup_cons.mp hl
    rw [List.map_cons, List.map_cons, List.sum_cons, List.sum_cons]
    by_cases hut : u = t
    · subst hut
      have hsame : l.map f' = l.map f :=
        List.map_congr_left fun t' ht' => h t' fun heq => hu (heq ▸ ht')
      rw [hsame]
      omega
    · have htl : t ∈ l := (List.mem_cons.mp ht).resolve_left (Ne.symm hut)
      have := ih hl htl
      rw [h u hut]
      omega

end Schaufel
