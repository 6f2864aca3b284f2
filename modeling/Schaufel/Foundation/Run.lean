import Mathlib.Data.List.Induction

/-!
# Finite runs of a labelled partial step function

A transition system is given here by a partial step function `step : σ → α → Option σ`: the label
`α` carries the acting party together with every choice the environment makes, and `none` says that
the label is not enabled.  `exec step s acts` performs the labels of `acts` in order.

Every safety statement of the development is an instance of `exec_induction`: a property that holds
of the empty run and is kept by one enabled step holds of every run.
-/

namespace Schaufel

variable {σ α : Type*}

/-- Perform the labels of a list in order, stopping at the first one that is not enabled. -/
def exec (step : σ → α → Option σ) : σ → List α → Option σ
  | s, [] => some s
  | s, a :: acts => (step s a).bind fun s' => exec step s' acts

@[simp] theorem exec_nil (step : σ → α → Option σ) (s : σ) : exec step s [] = some s := rfl

theorem exec_cons (step : σ → α → Option σ) (s : σ) (a : α) (acts : List α) :
    exec step s (a :: acts) = (step s a).bind fun s' => exec step s' acts := rfl

/-- A run over an appended list of labels is the run over the first part followed by the run over
the second. -/
theorem exec_append (step : σ → α → Option σ) (s : σ) (acts acts' : List α) :
    exec step s (acts ++ acts') = (exec step s acts).bind fun s' => exec step s' acts' := by
  induction acts generalizing s with
  | nil => rfl
  | cons a acts ih =>
    rw [List.cons_append, exec_cons, exec_cons]
    cases step s a with
    | none => rfl
    | some s' => exact ih s'

/-- The last step of a run: the labels before it lead to a state in which it is enabled. -/
theorem exec_concat_eq_some {step : σ → α → Option σ} {s s' : σ} {acts : List α} {a : α} :
    exec step s (acts ++ [a]) = some s' ↔
      ∃ t, exec step s acts = some t ∧ step t a = some s' := by
  rw [exec_append]
  simp only [Option.bind_eq_some_iff, exec_cons, exec_nil, Option.bind_fun_some]

/-- Induction along a run, from the first step to the last. -/
theorem exec_induction {step : σ → α → Option σ} {s : σ} {P : List α → σ → Prop}
    (hinit : P [] s)
    (hstep : ∀ acts t a t', exec step s acts = some t → P acts t → step t a = some t' →
      P (acts ++ [a]) t')
    {acts : List α} {s' : σ} (h : exec step s acts = some s') : P acts s' := by
  induction acts using List.reverseRecOn generalizing s' with
  | nil =>
    obtain rfl : s = s' := Option.some.inj h
    exact hinit
  | append_singleton acts a ih =>
    obtain ⟨t, ht, hst⟩ := exec_concat_eq_some.mp h
    exact hstep acts t a s' ht (ih ht) hst

/-- The invariant rule: a predicate that holds initially and is kept by every enabled step holds in
every state a run reaches. -/
theorem exec_invariant {step : σ → α → Option σ} {s : σ} {P : σ → Prop} (hinit : P s)
    (hstep : ∀ t a t', P t → step t a = some t' → P t')
    {acts : List α} {s' : σ} (h : exec step s acts = some s') : P s' :=
  exec_induction (P := fun _ => P) hinit (fun _ t a t' _ hP hst => hstep t a t' hP hst) h

/-- Every step of the run over a list of labels meets a condition. -/
def AllSteps (step : σ → α → Option σ) (R : σ → α → σ → Prop) : σ → List α → Prop
  | _, [] => True
  | s, a :: acts => ∀ s' ∈ step s a, R s a s' ∧ AllSteps step R s' acts

instance AllSteps.decidable (step : σ → α → Option σ) (R : σ → α → σ → Prop)
    [∀ s a s', Decidable (R s a s')] : ∀ s acts, Decidable (AllSteps step R s acts)
  | _, [] => .isTrue trivial
  | s, a :: acts =>
    have : ∀ s', Decidable (R s a s' ∧ AllSteps step R s' acts) := fun s' =>
      have := AllSteps.decidable step R s' acts
      inferInstance
    inferInstanceAs (Decidable (∀ s' ∈ step s a, R s a s' ∧ AllSteps step R s' acts))

/-- The condition holds along a run with one more step exactly if it holds along the run and at that
step. -/
theorem allSteps_concat {step : σ → α → Option σ} {R : σ → α → σ → Prop} {s t t' : σ}
    {acts : List α} {a : α} (ht : exec step s acts = some t) (hst : step t a = some t') :
    AllSteps step R s (acts ++ [a]) ↔ AllSteps step R s acts ∧ R t a t' := by
  induction acts generalizing s with
  | nil =>
    obtain rfl : s = t := Option.some.inj ht
    simp [AllSteps, hst]
  | cons b acts ih =>
    obtain ⟨u, hu, hrest⟩ := Option.bind_eq_some_iff.mp ht
    simp only [List.cons_append, AllSteps, hu, Option.mem_some_iff, forall_eq', ih hrest, and_assoc]

/-- What the steps of a run put out, in order. -/
def outputs {β : Type*} (step : σ → α → Option σ) (out : σ → α → List β) : σ → List α → List β
  | _, [] => []
  | s, a :: acts => out s a ++ (step s a).elim [] fun s' => outputs step out s' acts

theorem outputs_concat {β : Type*} {step : σ → α → Option σ} {out : σ → α → List β} {s t : σ}
    {acts : List α} (a : α) (ht : exec step s acts = some t) :
    outputs step out s (acts ++ [a]) = outputs step out s acts ++ out t a := by
  induction acts generalizing s with
  | nil =>
    obtain rfl : s = t := Option.some.inj ht
    cases h : step s a <;> simp [outputs, h]
  | cons b acts ih =>
    obtain ⟨u, hu, hrest⟩ := Option.bind_eq_some_iff.mp ht
    simp only [List.cons_append, outputs, hu, Option.elim_some, ih hrest, List.append_assoc]

/-- A longer run puts out what its beginning puts out, and then more. -/
theorem outputs_le_append {β : Type*} (step : σ → α → Option σ) (out : σ → α → List β) (s : σ)
    (acts acts' : List α) : outputs step out s acts <+: outputs step out s (acts ++ acts') := by
  induction acts generalizing s with
  | nil => exact List.nil_prefix
  | cons a acts ih =>
    simp only [List.cons_append, outputs]
    refine (List.prefix_append_right_inj _).mpr ?_
    cases step s a with
    | none => exact List.nil_prefix
    | some s' => exact ih s'

/-- A list of labels that is enabled to its end reaches a state, and what holds of every state it
may reach holds of that one. -/
theorem exists_of_exec_isSome {step : σ → α → Option σ} {s : σ} {acts : List α} {P : σ → Prop}
    (h : (exec step s acts).isSome = true) (hP : ∀ s', exec step s acts = some s' → P s') :
    ∃ s', exec step s acts = some s' ∧ P s' := by
  obtain ⟨s', hs'⟩ := Option.isSome_iff_exists.mp h
  exact ⟨s', hs', hP s' hs'⟩

/-- A decidable property of the state that a list of labels reaches can be checked by evaluation;
what follows from it then holds of that state. -/
theorem exists_of_exec_any {step : σ → α → Option σ} {s : σ} {acts : List α} {P Q : σ → Prop}
    [DecidablePred P] (h : (exec step s acts).any (fun s' => decide (P s')) = true)
    (hQ : ∀ s', exec step s acts = some s' → P s' → Q s') :
    ∃ s', exec step s acts = some s' ∧ Q s' := by
  cases hexec : exec step s acts with
  | none => simp [hexec] at h
  | some s' => exact ⟨s', rfl, hQ s' hexec (by simpa [hexec] using h)⟩

end Schaufel
