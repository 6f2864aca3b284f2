import Schaufel.Queue.Refinement

/-!
# The hook points of the queue

The configuration of a queue has two lists of hooks: `postadd` is meant to run in `queue_add` and
`preget` in `queue_get`.  `queue_init` adds both lists to the hook point `postadd`, so that the
preget hooks run before a message is filed, where they may still change its mark, and not when it is
taken out.

`HookContract` says of one step what the configuration asks for.  It is fulfilled along every run
exactly if the preget hooks leave every message alone that the postadd hooks let into the queue.
-/

namespace Schaufel

variable {ι δ μ ε : Type} [DecidableEq ι]

/-- What a configuration asks of a step from `s` to `s'` with the action `a`, after the actions
`acts`. -/
structure HookContract (config : QueueConf δ μ ε) (acts : List (QueueAction ι δ μ ε))
    (s s' : QueueState ι δ μ) (a : QueueAction ι δ μ ε) : Prop where
  /-- `queue_add` runs the postadd hooks and goes on with the message they leave. -/
  addAccepted : ∀ t args p env, a = .add t args (some p) env →
    (hooklistRun config.postadd env args).accept = true →
      s'.call t = .adding args p ∧ s'.held t = some (hooklistRun config.postadd env args).msg ∧
        s'.history = s.history ++ (hooklistRun config.postadd env args).effects.map (.effect t)
  /-- If they refuse, it returns `EBADMSG` and the queue is as it was. -/
  addRefused : ∀ t args p env, a = .add t args (some p) env →
    (hooklistRun config.postadd env args).accept = false →
      s'.call t = .addReturned args .ebadmsg ∧ s'.q = s.q ∧
        s'.history = s.history ++ (hooklistRun config.postadd env args).effects.map (.effect t) ++
          (args.metadata.toList.map (fun h => .effect t (.freeMeta h)) ++ [.discarded t args])
  /-- The message is filed under the mark the hooks left, and taken out by that mark. -/
  routed : RoutedStep config (acts ++ [a]) s s' a.thread
  /-- `queue_get` runs the preget hooks on the message it has taken out. -/
  pregetAccepted : ∀ t env msg, a = .preget t env → s.call t = .taken msg →
    (hooklistRun config.preget env msg).accept = true →
      s'.call t = .getReturned (hooklistRun config.preget env msg).msg .ok ∧
        s'.history = s.history ++ (hooklistRun config.preget env msg).effects.map (.effect t)
  /-- If they refuse, it returns `EBADMSG` and the message is cleared. -/
  pregetRefused : ∀ t env msg, a = .preget t env → s.call t = .taken msg →
    (hooklistRun config.preget env msg).accept = false →
      s'.call t = .getReturned (hooklistRun config.preget env msg).msg .ebadmsg ∧
        (hooklistRun config.preget env msg).msg.data = none ∧
        (hooklistRun config.preget env msg).msg.datalen = 0 ∧
        s'.history = s.history ++ (hooklistRun config.preget env msg).effects.map (.effect t) ++
          [.discarded t msg]

/-- Along every run of the queue that `queue_init` makes of a configuration, hooks run where they
are configured. -/
def HooksAsConfigured (ι : Type) [DecidableEq ι] (config : QueueConf δ μ ε) : Prop :=
  ∀ (acts : List (QueueAction ι δ μ ε)) s,
    exec (QueueState.step config.queueInit) QueueState.init acts = some s →
      ∀ a s', s.step config.queueInit a = some s' → HookContract config acts s s' a

/-- The preget hooks accept every message that the postadd hooks let into the queue, as a caller
gets it, and do nothing with it. -/
def PregetIdle (config : QueueConf δ μ ε) : Prop :=
  ∀ env args env' (caller : Message δ μ), (hooklistRun config.postadd env args).accept = true →
    (hooklistRun config.postadd env args).msg.mark = caller.mark →
      hooklistRun config.preget env'
        (caller.receive (hooklistRun config.postadd env args).msg.entry) =
        ⟨true, caller.receive (hooklistRun config.postadd env args).msg.entry, []⟩

/-! ### Messages in the queue -/

/-- What waits in the queue was let in by the postadd hooks. -/
theorem mem_routed_of_exec {conf : QueueConf δ μ ε} {acts : List (QueueAction ι δ μ ε)}
    {s : QueueState ι δ μ} (h : exec (QueueState.step conf) QueueState.init acts = some s) :
    ∀ e ∈ routed s.history, ∃ env args, (hooklistRun conf.postadd env args).accept = true ∧
      e = (hooklistRun conf.postadd env args).msg.entry := by
  refine exec_induction (P := fun _ (s : QueueState ι δ μ) => ∀ e ∈ routed s.history, ∃ env args,
    (hooklistRun conf.postadd env args).accept = true ∧
      e = (hooklistRun conf.postadd env args).msg.entry) ?_ ?_ h
  · exact List.forall_mem_nil _
  intro acts s a s' hexec ih hstep
  obtain ⟨hrouted, -⟩ := routedStep_of_exec hexec hstep
  cases hrouted with
  | @added args p env _ haccept _ hseq =>
    rw [hseq]
    refine List.forall_mem_append.mpr ⟨ih, List.forall_mem_singleton.mpr ⟨env, args, haccept, rfl⟩⟩
  | taken _ _ hsplit _ _ hseq =>
    rw [hsplit] at ih
    rw [hseq]
    intro e he
    refine ih e ?_
    rcases List.mem_append.mp he with he | he
    · exact List.mem_append_left _ he
    · exact List.mem_append_right _ (List.mem_cons_of_mem _ he)
  | timedOut _ _ hseq | silent _ hseq =>
    rw [hseq]
    exact ih

/-- So was a message that `queue_get` has taken out. -/
theorem taken_of_exec {conf : QueueConf δ μ ε} {acts : List (QueueAction ι δ μ ε)}
    {s : QueueState ι δ μ} (h : exec (QueueState.step conf) QueueState.init acts = some s) {t : ι}
    {msg : Message δ μ} (hcall : s.call t = .taken msg) :
    ∃ env args caller, (hooklistRun conf.postadd env args).accept = true ∧
      (hooklistRun conf.postadd env args).msg.mark = Message.mark caller ∧
      msg = caller.receive (hooklistRun conf.postadd env args).msg.entry := by
  refine exec_induction (P := fun _ (s : QueueState ι δ μ) => ∀ msg, s.call t = .taken msg →
    ∃ env args caller, (hooklistRun conf.postadd env args).accept = true ∧
      (hooklistRun conf.postadd env args).msg.mark = Message.mark caller ∧
      msg = caller.receive (hooklistRun conf.postadd env args).msg.entry) ?_ ?_ h msg hcall
  · intro msg hcall
    cases hcall
  intro acts s a s' hexec ih hstep msg hcall
  obtain ⟨hrouted, hothers⟩ := routedStep_of_exec hexec hstep
  by_cases ht : t = a.thread
  · subst ht
    cases hrouted with
    | added _ _ hret _ | timedOut _ hret _ =>
      rw [hret] at hcall
      cases hcall
    | @taken caller _ e _ _ _ hret hsplit hmark _ _ =>
      have he : e ∈ routed s.history := hsplit ▸ List.mem_append_right _ List.mem_cons_self
      obtain ⟨env, args, haccept, rfl⟩ := mem_routed_of_exec hexec e he
      rw [hret] at hcall
      cases hcall
      exact ⟨env, args, caller, haccept, hmark, rfl⟩
    | silent hret _ =>
      rcases hret with hret | hret
      · exact ih msg (hret ▸ hcall)
      · rw [hcall] at hret
        cases hret
  · have hsame := hothers t ht
    rw [hcall] at hsame
    refine ih msg ?_
    revert hsame
    cases s.call t <;> simp [Call.wakeUp, eq_comm]

/-! ### Idle preget hooks -/

/-- With both lists at their hook points, every step fulfils the contract. -/
theorem hookContract_of_step {config : QueueConf δ μ ε} {acts : List (QueueAction ι δ μ ε)}
    {s s' : QueueState ι δ μ} {a : QueueAction ι δ μ ε}
    (hexec : exec (QueueState.step config) QueueState.init acts = some s)
    (hstep : s.step config a = some s') : HookContract config acts s s' a := by
  have hcases := (queueStep_of_step hstep).2
  refine ⟨?_, ?_, (routedStep_of_exec hexec hstep).1, ?_, ?_⟩
  · rintro t args p env rfl haccept
    cases hcases with
    | addRefused _ _ hrun => rw [haccept] at hrun; cases hrun
    | addAccepted _ _ _ =>
      refine ⟨by simp, ?_, rfl⟩
      simp [QueueState.held, Call.node, msgAt, Queue.store]
  · rintro t args p env rfl hrefuse
    cases hcases with
    | addRefused _ _ _ => exact ⟨by simp, rfl, rfl⟩
    | addAccepted _ _ hrun => rw [hrefuse] at hrun; cases hrun
  · rintro t env msg rfl hcall haccept
    cases hcases with
    | preget hcall' _ =>
      cases hcall.symm.trans hcall'
      exact ⟨by simp, rfl⟩
    | pregetRefused hcall' hrun =>
      cases hcall.symm.trans hcall'
      rw [haccept] at hrun
      cases hrun
  · rintro t env msg rfl hcall hrefuse
    cases hcases with
    | preget hcall' hrun =>
      cases hcall.symm.trans hcall'
      rw [hrefuse] at hrun
      cases hrun
    | pregetRefused hcall' _ =>
      cases hcall.symm.trans hcall'
      obtain ⟨hdata, hdatalen⟩ := hooklistRun_cleared hrefuse
      exact ⟨by simp, hdata, hdatalen, rfl⟩

/-- Preget hooks that leave messages alone may as well run behind the postadd hooks. -/
theorem PregetIdle.hooklistRun_eq {config : QueueConf δ μ ε} (h : PregetIdle config) (env : ε)
    (args : Message δ μ) :
    hooklistRun config.queueInit.postadd env args = hooklistRun config.postadd env args := by
  rw [QueueConf.queueInit, hooksAdd, hooksAdd, List.nil_append, hooklistRun_append]
  by_cases haccept : (hooklistRun config.postadd env args).accept = true
  · -- the message is its own caller
    have hidle := h env args env (hooklistRun config.postadd env args).msg haccept rfl
    change hooklistRun config.preget env (hooklistRun config.postadd env args).msg =
      ⟨true, (hooklistRun config.postadd env args).msg, []⟩ at hidle
    rw [if_pos haccept, hidle]
    simp only [List.append_nil]
    rw [← haccept]
  · rw [if_neg haccept]

/-- The queue that `queue_init` makes takes the steps that are configured, if the preget hooks leave
the messages alone that threads have taken out. -/
theorem PregetIdle.step_eq {config : QueueConf δ μ ε} (h : PregetIdle config) {s : QueueState ι δ μ}
    (htaken : ∀ t env msg, s.call t = .taken msg →
      hooklistRun config.preget env msg = ⟨true, msg, []⟩) (a : QueueAction ι δ μ ε) :
    s.step config.queueInit a = s.step config a := by
  cases a with
  | add t args newmsg env => simp only [QueueState.step, h.hooklistRun_eq]
  | preget t env =>
    simp only [QueueState.step, QueueConf.queueInit, hooklistRun_nil]
    cases hcall : s.call t with
    | taken msg => simp only [htaken t env msg hcall]
    | _ => rfl
  | _ => rfl

theorem PregetIdle.exec_eq {config : QueueConf δ μ ε} (h : PregetIdle config)
    {acts : List (QueueAction ι δ μ ε)} {s : QueueState ι δ μ}
    (hexec : exec (QueueState.step config.queueInit) QueueState.init acts = some s) :
    exec (QueueState.step config) QueueState.init acts = some s ∧
      ∀ a, s.step config.queueInit a = s.step config a := by
  have hstep : ∀ {acts : List (QueueAction ι δ μ ε)} {s : QueueState ι δ μ},
      exec (QueueState.step config) QueueState.init acts = some s →
        ∀ a, s.step config.queueInit a = s.step config a := by
    intro acts s hexec
    refine h.step_eq fun t env msg hcall => ?_
    obtain ⟨env', args, caller, haccept, hmark, rfl⟩ := taken_of_exec hexec hcall
    exact h env' args env caller haccept hmark
  have hrun : exec (QueueState.step config) QueueState.init acts = some s := by
    refine exec_induction (P := fun acts s =>
      exec (QueueState.step config) QueueState.init acts = some s) rfl ?_ hexec
    intro acts s a s' _ ih hs'
    exact exec_concat_eq_some.mpr ⟨s, ih, (hstep ih a).symm.trans hs'⟩
  exact ⟨hrun, hstep hrun⟩

/-! ### Preget hooks that do something -/

/-- A step that changes a frame has not crashed. -/
theorem QueueStep.not_crashed {conf : QueueConf δ μ ε} {s s' : QueueState ι δ μ}
    {a : QueueAction ι δ μ ε} (h : QueueStep conf s a s') (hcr : s.crashed = false) :
    s'.crashed = false ∨ s'.call = s.call := by
  have hadd : ∀ {q : QueueState ι δ μ} {t args p m}, AddOutcome q t args p m s' →
      q.crashed = false →
      q.call = s.call → s'.crashed = false ∨ s'.call = s.call := by
    intro q t args p m hout hq hcall
    cases hout with
    | wait => exact .inl hq
    | link => exact .inl (by simp [QueueState.linked, hq])
    | crash => exact .inr hcall
  have hget : ∀ {q : QueueState ι δ μ} {t msg x}, GetOutcome q t msg x s' → q.crashed = false →
      q.call = s.call → s'.crashed = false ∨ s'.call = s.call := by
    intro q t msg x hout hq hcall
    cases hout with
    | wait | xwait => exact .inl hq
    | take => exact .inl (by simp [QueueState.handed, hq])
    | crash => exact .inr hcall
  cases h with
  | lock _ _ _ h | wakeAdd _ h => exact hadd h hcr rfl
  | getNoMem _ _ h | get _ _ h | wakeGet _ h | wakeXget _ h => exact hget h hcr rfl
  | lockCrash | xtimeoutCrash => exact .inr rfl
  | _ => exact .inl hcr

/-- A further step of a run that has not crashed and in which the frame of the thread changes. -/
theorem step_of_exec {conf : QueueConf δ μ ε} {acts : List (QueueAction ι δ μ ε)}
    {s : QueueState ι δ μ} {a : QueueAction ι δ μ ε}
    (hexec : exec (QueueState.step conf) QueueState.init acts = some s) (hcr : s.crashed = false)
    (hsome : (s.step conf a).isSome = true) :
    ∃ s', s.step conf a = some s' ∧
      exec (QueueState.step conf) QueueState.init (acts ++ [a]) = some s' ∧ FifoStep conf s s' a ∧
      ∀ t, s'.call t ≠ s.call t → s'.crashed = false := by
  obtain ⟨s', hs'⟩ := Option.isSome_iff_exists.mp hsome
  obtain ⟨ps, hinv⟩ := queueInv_of_exec hexec
  have hstep := (queueStep_of_step hs').2
  refine ⟨s', hs', exec_concat_eq_some.mpr ⟨s, hexec, hs'⟩, (hinv.step hstep).2, fun t hne => ?_⟩
  exact (hstep.not_crashed hcr).resolve_right fun heq => hne (congrFun heq t)

/-- A thread outside the queue can call `queue_add`. -/
theorem add_isSome {conf : QueueConf δ μ ε} {s : QueueState ι δ μ} {t : ι} {args : Message δ μ}
    {p : Ptr} {env : ε} (hcr : s.crashed = false) (hcall : (s.call t).outside = true)
    (hp : s.q.heap p = none) : (s.step conf (.add t args (some p) env)).isSome = true := by
  revert hcall
  cases hc : s.call t <;> simp [Call.outside, QueueState.step, hcr, hc, hp]
  all_goals split <;> rfl

/-- A thread in `queue_add` can take the mutex. -/
theorem lock_isSome {conf : QueueConf δ μ ε} {s : QueueState ι δ μ} {t : ι} {args : Message δ μ}
    {p : Ptr} {alloc : Bool} (hcr : s.crashed = false) (hcall : s.call t = .adding args p) :
    (s.step conf (.lock t alloc)).isSome = true := by
  simp only [QueueState.step, hcr, hcall, Bool.false_eq_true, if_false]
  split
  · rfl
  · split <;> rfl

/-- A thread outside the queue can call `queue_get`. -/
theorem get_isSome {conf : QueueConf δ μ ε} {s : QueueState ι δ μ} {t : ι} {msg : Message δ μ}
    {alloc : Bool} (hcr : s.crashed = false) (hcall : (s.call t).outside = true) :
    (s.step conf (.get t msg alloc)).isSome = true := by
  revert hcall
  cases hc : s.call t <;> simp [Call.outside, QueueState.step, hcr, hc]
  all_goals split <;> rfl

/-- A message that the postadd hooks let in can be added to the empty queue and taken out again. -/
theorem HooksAsConfigured.exists_taken {config : QueueConf δ μ ε} (h : HooksAsConfigured ι config)
    (t : ι) {env : ε} {args caller : Message δ μ}
    (haccept : (hooklistRun config.postadd env args).accept = true)
    (hmark : (hooklistRun config.postadd env args).msg.mark = caller.mark) :
    ∃ acts s, exec (QueueState.step config.queueInit) (QueueState.init : QueueState ι δ μ) acts =
      some s ∧
      s.crashed = false ∧
      s.call t = .taken (caller.receive (hooklistRun config.postadd env args).msg.entry) := by
  -- `queue_add` runs its hooks
  have hinit : exec (QueueState.step config.queueInit) (QueueState.init : QueueState ι δ μ) [] =
      some QueueState.init := rfl
  obtain ⟨s₁, hs₁, hexec₁, -, hcr₁⟩ := step_of_exec (a := .add t args (some 0) env) hinit rfl
    (add_isSome rfl rfl rfl)
  obtain ⟨hcall₁, hheld₁, hhist₁⟩ :=
    (h [] QueueState.init rfl _ s₁ hs₁).addAccepted t args 0 env rfl haccept
  have hcr₁ := hcr₁ t (by rw [hcall₁]; intro hc; cases hc)
  have hempty : routed s₁.history = [] := by
    rw [hhist₁, routed_append_of_fifoOps_eq_nil (by simp)]
    rfl
  -- the queue is empty, so it files the message
  obtain ⟨s₂, -, hexec₂, hfifo₂, hcr₂⟩ := step_of_exec (a := .lock t true) hexec₁ hcr₁
    (lock_isSome hcr₁ hcall₁)
  have hadded : s₂.call t = .addReturned args .ok ∧
      routed s₂.history = [(hooklistRun config.postadd env args).msg.entry] := by
    cases hfifo₂ with
    | addBlocked hfrom hfull =>
      rw [hempty, List.length_nil] at hfull
      exact absurd hfull (by decide)
    | added hfrom hcall hhist =>
      cases hfrom with
      | lock hfrom hheld =>
        cases hcall₁.symm.trans hfrom
        cases hheld₁.symm.trans hheld
        exact ⟨hcall, by rw [hhist, routed_queued, hempty]; rfl⟩
    | getBlocked hget | getXblocked hget | taken hget | crashed hget => cases hget
  obtain ⟨hcall₂, hrouted₂⟩ := hadded
  have hcr₂ := hcr₂ t (by rw [hcall₂, hcall₁]; intro hc; cases hc)
  -- the message has the mark that the caller of `queue_get` asks for
  obtain ⟨s₃, -, hexec₃, hfifo₃, hcr₃⟩ := step_of_exec (a := .get t caller true) hexec₂ hcr₂
    (get_isSome hcr₂ (by rw [hcall₂]; rfl))
  have htaken : s₃.call t =
      .taken (caller.receive (hooklistRun config.postadd env args).msg.entry) := by
    cases hfifo₃ with
    | addBlocked hfrom | added hfrom => cases hfrom
    | getBlocked hget hnil =>
      rw [hrouted₂] at hnil
      cases hnil
    | getXblocked hget hnone =>
      cases hget
      rw [hrouted₂] at hnone
      exact absurd hmark (hnone _ (List.mem_singleton.mpr rfl))
    | @taken _ _ _ _ e es₁ es₂ hget hsplit hmark' hold hrest hcall =>
      cases hget
      rw [hrouted₂] at hsplit
      cases es₁ with
      | nil =>
        obtain ⟨rfl, -⟩ := List.cons.inj hsplit
        exact hcall
      | cons f es₁ => simp at hsplit
    | crashed hget hnull hcrash =>
      rcases hnull with ⟨alloc, ha, hx⟩ | ⟨sig, hwait⟩
      · cases ha
        simp only [Queue.xmarkFind] at hx
        split at hx <;> simp at hx
      · cases hget
        rw [hcall₂] at hwait
        cases hwait
  exact ⟨_, s₃, hexec₃, hcr₃ t (by rw [htaken, hcall₂]; intro hc; cases hc), htaken⟩

/-- The preget hooks would have run on the message that was taken out. -/
theorem HooksAsConfigured.pregetIdle {config : QueueConf δ μ ε} (h : HooksAsConfigured ι config)
    (t : ι) : PregetIdle config := by
  intro env args env' caller haccept hmark
  obtain ⟨acts, s, hexec, hcr, hcall⟩ := h.exists_taken t haccept hmark
  -- at this hook point the queue runs no hook
  have hstep : s.step config.queueInit (.preget t env') = some ((s.emit []).setCall t (.getReturned
      (caller.receive (hooklistRun config.postadd env args).msg.entry) .ok)) := by
    simp [QueueState.step, hcr, hcall, QueueConf.queueInit]
  have hcontract := h acts s hexec _ _ hstep
  generalize caller.receive (hooklistRun config.postadd env args).msg.entry =
    msg at hcall hcontract ⊢
  cases hrun : (hooklistRun config.preget env' msg).accept with
  | false =>
    have hret := (hcontract.pregetRefused t env' msg rfl hcall hrun).1
    simp at hret
  | true =>
    obtain ⟨hret, hhist⟩ := hcontract.pregetAccepted t env' msg rfl hcall hrun
    have hmsg : msg = (hooklistRun config.preget env' msg).msg := by simpa using hret
    have heffects : (hooklistRun config.preget env' msg).effects = [] := by simpa using hhist
    rw [← hrun, ← heffects]
    nth_rewrite 3 [hmsg]
    rfl

/-- Files every message under the mark 7. -/
def markSeven : Hook Nat Nat Unit := fun _ msg => ⟨true, { msg with xmark := 7 }, []⟩

/-- A preget hook that sets a mark runs in `queue_add`: a message of the mark 0 is filed under the
mark 7, and a `queue_get` for the mark 0 waits. -/
theorem preget_hook_reroutes :
    (∃ s : QueueState Bool Nat Nat,
      exec (QueueState.step (QueueConf.queueInit ⟨[], [markSeven]⟩)) QueueState.init
        [.add true ⟨some 5, 1, 0, none⟩ (some 0) (), .lock true true,
          .get false ⟨none, 0, 0, none⟩ true] = some s ∧
      s.call false = .getXwait ⟨none, 0, 0, none⟩ 0 false ∧
      routed s.history = [⟨7, some 5, 1, none⟩]) ∧
      ¬ HooksAsConfigured Bool (⟨[], [markSeven]⟩ : QueueConf Nat Nat Unit) := by
  refine ⟨exists_of_exec_any (by decide) fun _ _ h => h, fun h => ?_⟩
  have hidle := h.pregetIdle true () Message.init () Message.init rfl rfl
  exact absurd hidle (by decide)

/-- Hooks run where they are configured exactly if the preget hooks leave every message alone that
the postadd hooks let into the queue. -/
theorem queue_hooks_as_configured_iff (config : QueueConf δ μ ε) (t : ι) :
    HooksAsConfigured ι config ↔ PregetIdle config := by
  refine ⟨fun h => h.pregetIdle t, fun h acts s hexec a s' hstep => ?_⟩
  obtain ⟨hexec', heq⟩ := h.exec_eq hexec
  exact hookContract_of_step hexec' ((heq a).symm.trans hstep)

end Schaufel
