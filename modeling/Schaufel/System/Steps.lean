import Schaufel.Foundation.Run
import Schaufel.Queue.Effects
import Schaufel.System.Model

/-!
# What a step of the system can do

`SystemStep` lists the steps of the threads; the step function is unfolded here only.  A step inside
the queue is a step of the queue model, so the system inherits the invariant of the queue and the
description of its steps: `queueInv_of_system_exec` and `SystemStep.fifo`.
-/

namespace Schaufel

/-- The thread stays at its point while the queue performs the action. -/
def Inside (s : SystemState) : QueueAction Thread Nat Table HookEnv → Prop
  | .lock (.consumer i) _ | .wake (.consumer i) _ => (s.consumers i).pc = .adding
  | .wake (.producer j) _ | .preget (.producer j) _ => (s.producers j).pc = .getting
  | .count .stats _ => True
  | _ => False

/-- The steps of the system. -/
inductive SystemStep (conf : SystemConf) (s : SystemState) : SystemAction → SystemState → Prop
  | consumerInit {i : Nat} {ok : Bool} (hpc : (s.consumers i).pc = .start) :
      SystemStep conf s (.consumerInit i ok)
        (s.setConsumer i ⟨if ok then .await else .exited, Message.init⟩)
  | await {i : Nat} (hpc : (s.consumers i).pc = .await) :
      SystemStep conf s (.await i) (s.setConsumer i ⟨.head, (s.consumers i).msg⟩)
  | consumerHead {i : Nat} (hpc : (s.consumers i).pc = .head) :
      SystemStep conf s (.consumerHead i)
        (s.setConsumer i ⟨if s.consumeState then .consume else .exited, (s.consumers i).msg⟩)
  | consumeFail {i : Nat} {r : ConsumeResult} (hpc : (s.consumers i).pc = .consume) :
      SystemStep conf s (.consume i r) (s.setConsumer i ⟨.exited, (s.consumers i).msg⟩)
  | consume {i : Nat} {r : ConsumeResult} {msg : Msg} {evs : List (Event Thread Nat Table)}
      (hpc : (s.consumers i).pc = .consume) (hfits : r.fits (conf.transactional i) = true)
      (hmsg : consumeMsg (.consumer i) (s.consumers i).msg r = some (msg, evs)) :
      SystemStep conf s (.consume i r)
        ((s.emit evs).setConsumer i ⟨if msg.data.isSome then .preadd else .head, msg⟩)
  | preadd {i : Nat} {env : HookEnv} {r : HookResult Nat Table}
      (hpc : (s.consumers i).pc = .preadd)
      (hr : hooklistRun (scriptHooks (conf.preadd i)) env (s.consumers i).msg = r)
      (haccept : r.accept = true) :
      SystemStep conf s (.preadd i env)
        ((s.emit (r.effects.map (.effect (.consumer i)))).setConsumer i ⟨.add, r.msg⟩)
  | preaddRefused {i : Nat} {env : HookEnv} {r : HookResult Nat Table}
      (hpc : (s.consumers i).pc = .preadd)
      (hr : hooklistRun (scriptHooks (conf.preadd i)) env (s.consumers i).msg = r)
      (haccept : r.accept = false) :
      SystemStep conf s (.preadd i env)
        ((s.emit (r.effects.map (.effect (.consumer i)) ++
          [.discarded (.consumer i) (s.consumers i).msg])).setConsumer i ⟨.head, r.msg⟩)
  | enterAdd {i : Nat} {newmsg : Option Ptr} {env : HookEnv} {q : QueueState Thread Nat Table}
      (hpc : (s.consumers i).pc = .add)
      (hq : s.queue.step conf.queue (.add (.consumer i) (s.consumers i).msg newmsg env) = some q) :
      SystemStep conf s (.queue (.add (.consumer i) (s.consumers i).msg newmsg env))
        { s.setConsumer i ⟨.adding, (s.consumers i).msg⟩ with queue := q }
  | enterGet {j : Nat} {alloc : Bool} {q : QueueState Thread Nat Table}
      (hpc : (s.producers j).pc = .get)
      (hq : s.queue.step conf.queue (.get (.producer j) (s.producers j).msg alloc) = some q) :
      SystemStep conf s (.queue (.get (.producer j) (s.producers j).msg alloc))
        { s.setProducer j ⟨.getting, (s.producers j).msg, (s.producers j).ret⟩ with queue := q }
  | inside {a : QueueAction Thread Nat Table HookEnv} {q : QueueState Thread Nat Table}
      (hin : Inside s a) (hq : s.queue.step conf.queue a = some q) :
      SystemStep conf s (.queue a) { s with queue := q }
  | addReturned {i : Nat} {args : Msg} {ret : Errno} (hpc : (s.consumers i).pc = .adding)
      (hcall : s.queue.call (.consumer i) = .addReturned args ret) :
      SystemStep conf s (.addReturned i)
        (s.setConsumer i ⟨.head, { (s.consumers i).msg with data := none, metadata := none }⟩)
  | producerInit {j : Nat} (hpc : (s.producers j).pc = .start) :
      SystemStep conf s (.producerInit j true) ({ s with produceState := true }.setProducer j
        ⟨.head, { Message.init with xmark := Int64.ofNat (conf.marks.getD j 0).toNat }, .ok⟩)
  | producerInitFail {j : Nat} (hpc : (s.producers j).pc = .start) :
      SystemStep conf s (.producerInit j false) (s.setProducer j ⟨.exited, Message.init, .ok⟩)
  | producerExit {j : Nat} (hpc : (s.producers j).pc = .head)
      (hret : (s.producers j).ret = .etimedout) :
      SystemStep conf s (.producerHead j) (s.setProducer j { s.producers j with pc := .exited })
  | producerHead {j : Nat} (hpc : (s.producers j).pc = .head) :
      SystemStep conf s (.producerHead j) (s.setProducer j { s.producers j with pc := .get })
  | getReturned {j : Nat} {msg : Msg} {ret : Errno} (hpc : (s.producers j).pc = .getting)
      (hcall : s.queue.call (.producer j) = .getReturned msg ret) :
      SystemStep conf s (.getReturned j) (s.setProducer j
        ⟨if ret = .etimedout ∨ ret = .ebadmsg then .head
          else if msg.data.isSome then .postget else .head, msg, ret⟩)
  | postget {j : Nat} {env : HookEnv} {r : HookResult Nat Table}
      (hpc : (s.producers j).pc = .postget)
      (hr : hooklistRun (scriptHooks (conf.postget j)) env (s.producers j).msg = r)
      (haccept : r.accept = true) :
      SystemStep conf s (.postget j env)
        ((s.emit (r.effects.map (.effect (.producer j)))).setProducer j
        { s.producers j with pc := .produce, msg := r.msg })
  | postgetRefused {j : Nat} {env : HookEnv} {r : HookResult Nat Table}
      (hpc : (s.producers j).pc = .postget)
      (hr : hooklistRun (scriptHooks (conf.postget j)) env (s.producers j).msg = r)
      (haccept : r.accept = false) :
      SystemStep conf s (.postget j env) ((s.emit (r.effects.map (.effect (.producer j)) ++
        [.discarded (.producer j) (s.producers j).msg])).setProducer j
          { s.producers j with pc := .head, msg := r.msg })
  | produce {j : Nat} (hpc : (s.producers j).pc = .produce) :
      SystemStep conf s (.produce j)
        ((s.emit [.produced (.producer j) (s.producers j).msg]).setProducer j
        { s.producers j with pc := .callback })
  | callbackAbort {j : Nat} (hpc : (s.producers j).pc = .callback) :
      SystemStep conf s (.callback j false) { s with queue := { s.queue with crashed := true } }
  | callback {j : Nat} {stored : Bool} {msg : Msg} {evs : List (Event Thread Nat Table)}
      (hpc : (s.producers j).pc = .callback)
      (hmsg : callbackRun (.producer j) (s.producers j).msg stored = some (msg, evs)) :
      SystemStep conf s (.callback j stored)
        ((s.emit evs).setProducer j { s.producers j with pc := .release, msg := msg })
  | release {j : Nat} (hpc : (s.producers j).pc = .release) :
      SystemStep conf s (.release j)
        ((s.emit ((s.producers j).msg.release.map (.effect (.producer j)))).setProducer j
          { s.producers j with pc := .head, msg := { (s.producers j).msg with data := none } })
  | stop : SystemStep conf s .stop { s with consumeState := false }
  | joinConsumers (hexit : ∀ i < conf.consumers, (s.consumers i).pc = .exited) :
      SystemStep conf s .joinConsumers { s with consumeState := false, main := .joinProducers }
  | joinProducers (hexit : ∀ j < conf.marks.length, (s.producers j).pc = .exited) :
      SystemStep conf s .joinProducers { s with produceState := false, main := .done }

/-- The actions the queue may perform. -/
theorem enter_cases {s s₁ : SystemState} {a : QueueAction Thread Nat Table HookEnv}
    (h : s.enter a = some s₁) :
    (∃ i newmsg env, a = .add (.consumer i) (s.consumers i).msg newmsg env ∧
        (s.consumers i).pc = .add ∧ s₁ = s.setConsumer i ⟨.adding, (s.consumers i).msg⟩) ∨
      (∃ j alloc, a = .get (.producer j) (s.producers j).msg alloc ∧ (s.producers j).pc = .get ∧
        s₁ = s.setProducer j ⟨.getting, (s.producers j).msg, (s.producers j).ret⟩) ∨
      Inside s a ∧ s₁ = s := by
  cases a with
  | add t args newmsg env =>
    cases t <;> simp only [SystemState.enter, Option.ite_none_right_eq_some, reduceCtorEq] at h
    obtain ⟨⟨hpc, rfl⟩, hs⟩ := h
    exact Or.inl ⟨_, newmsg, env, rfl, hpc, (Option.some.inj hs).symm⟩
  | get t msg alloc =>
    cases t <;> simp only [SystemState.enter, Option.ite_none_right_eq_some, reduceCtorEq] at h
    obtain ⟨⟨hpc, rfl⟩, hs⟩ := h
    exact Or.inr (Or.inl ⟨_, alloc, rfl, hpc, (Option.some.inj hs).symm⟩)
  | lock t alloc =>
    cases t <;> simp only [SystemState.enter, Option.ite_none_right_eq_some, reduceCtorEq] at h
    exact Or.inr (Or.inr ⟨h.1, (Option.some.inj h.2).symm⟩)
  | wake t timeout =>
    cases t <;> simp only [SystemState.enter, Option.ite_none_right_eq_some, reduceCtorEq] at h
    · exact Or.inr (Or.inr ⟨h.1, (Option.some.inj h.2).symm⟩)
    · exact Or.inr (Or.inr ⟨h.1, (Option.some.inj h.2).symm⟩)
  | preget t env =>
    cases t <;> simp only [SystemState.enter, Option.ite_none_right_eq_some, reduceCtorEq] at h
    exact Or.inr (Or.inr ⟨h.1, (Option.some.inj h.2).symm⟩)
  | count t c =>
    cases t <;> simp only [SystemState.enter, reduceCtorEq] at h
    exact Or.inr (Or.inr ⟨trivial, (Option.some.inj h).symm⟩)

/-- Every enabled action is one of the listed steps. -/
theorem systemStep_of_act {conf : SystemConf} {s s' : SystemState} {a : SystemAction}
    (h : s.act conf a = some s') : SystemStep conf s a s' := by
  cases a with
  | consumerInit i ok =>
    obtain ⟨hpc, hs⟩ := Option.ite_none_right_eq_some.mp h
    cases hs
    exact .consumerInit hpc
  | await i =>
    obtain ⟨⟨hpc, -⟩, hs⟩ := Option.ite_none_right_eq_some.mp h
    cases hs
    exact .await hpc
  | consumerHead i =>
    obtain ⟨hpc, hs⟩ := Option.ite_none_right_eq_some.mp h
    cases hs
    exact .consumerHead hpc
  | consume i r =>
    obtain ⟨⟨hpc, hfits⟩, hs⟩ := Option.ite_none_right_eq_some.mp h
    cases hr : consumeMsg (.consumer i) (s.consumers i).msg r with
    | none =>
      rw [hr] at hs
      cases hs
      exact .consumeFail hpc
    | some m =>
      rw [hr] at hs
      cases hs
      exact .consume hpc hfits hr
  | preadd i env =>
    obtain ⟨hpc, hs⟩ := Option.ite_none_right_eq_some.mp h
    cases hr : (hooklistRun (scriptHooks (conf.preadd i)) env (s.consumers i).msg).accept with
    | true =>
      simp only [hr, if_true] at hs
      cases hs
      exact .preadd hpc rfl hr
    | false =>
      simp only [hr, Bool.false_eq_true, if_false] at hs
      cases hs
      exact .preaddRefused hpc rfl hr
  | queue a =>
    obtain ⟨s₁, hs₁, hmap⟩ := Option.bind_eq_some_iff.mp h
    obtain ⟨q, hq, hs'⟩ := Option.map_eq_some_iff.mp hmap
    subst hs'
    rcases enter_cases hs₁ with ⟨i, newmsg, env, rfl, hpc, rfl⟩ | ⟨j, alloc, rfl, hpc, rfl⟩ |
      ⟨hin, rfl⟩
    · exact .enterAdd hpc hq
    · exact .enterGet hpc hq
    · exact .inside hin hq
  | addReturned i =>
    cases hcall : s.queue.call (.consumer i) <;>
      simp only [SystemState.act, hcall, Option.ite_none_right_eq_some, reduceCtorEq] at h
    obtain ⟨hpc, hs⟩ := h
    cases hs
    exact .addReturned hpc hcall
  | producerInit j ok =>
    obtain ⟨hpc, hs⟩ := Option.ite_none_right_eq_some.mp h
    cases ok with
    | true =>
      cases hs
      exact .producerInit hpc
    | false =>
      cases hs
      exact .producerInitFail hpc
  | producerHead j =>
    obtain ⟨hpc, hs⟩ := Option.ite_none_right_eq_some.mp h
    by_cases hexit : s.consumeState = false ∧ (s.producers j).ret = .etimedout
    · rw [if_pos hexit] at hs
      cases hs
      exact .producerExit hpc hexit.2
    · rw [if_neg hexit] at hs
      cases hs
      exact .producerHead hpc
  | getReturned j =>
    cases hcall : s.queue.call (.producer j) <;>
      simp only [SystemState.act, hcall, Option.ite_none_right_eq_some, reduceCtorEq] at h
    obtain ⟨hpc, hs⟩ := h
    cases hs
    exact .getReturned hpc hcall
  | postget j env =>
    obtain ⟨hpc, hs⟩ := Option.ite_none_right_eq_some.mp h
    cases hr : (hooklistRun (scriptHooks (conf.postget j)) env (s.producers j).msg).accept with
    | true =>
      simp only [hr, if_true] at hs
      cases hs
      exact .postget hpc rfl hr
    | false =>
      simp only [hr, Bool.false_eq_true, if_false] at hs
      cases hs
      exact .postgetRefused hpc rfl hr
  | produce j =>
    obtain ⟨hpc, hs⟩ := Option.ite_none_right_eq_some.mp h
    cases hs
    exact .produce hpc
  | callback j stored =>
    obtain ⟨hpc, hs⟩ := Option.ite_none_right_eq_some.mp h
    cases hr : callbackRun (.producer j) (s.producers j).msg stored with
    | none =>
      obtain rfl : stored = false := by
        cases stored with
        | false => rfl
        | true =>
          unfold callbackRun at hr
          split at hr <;> try split at hr
          all_goals simp at hr
      simp only [hr] at hs
      cases hs
      exact .callbackAbort hpc
    | some m =>
      simp only [hr] at hs
      cases hs
      exact .callback hpc hr
  | release j =>
    obtain ⟨hpc, hs⟩ := Option.ite_none_right_eq_some.mp h
    cases hs
    exact .release hpc
  | stop =>
    cases h
    exact .stop
  | joinConsumers =>
    obtain ⟨⟨-, hexit⟩, hs⟩ := Option.ite_none_right_eq_some.mp h
    cases hs
    exact .joinConsumers hexit
  | joinProducers =>
    obtain ⟨⟨-, hexit⟩, hs⟩ := Option.ite_none_right_eq_some.mp h
    cases hs
    exact .joinProducers hexit

/-- Every step of the system is one of the listed steps, and every handle it has allocated is
new. -/
theorem systemStep_of_step {conf : SystemConf} {s s' : SystemState} {a : SystemAction}
    (h : s.step conf a = some s') :
    s.queue.crashed = false ∧ SystemStep conf s a s' ∧ HandlesFresh s'.queue.history := by
  unfold SystemState.step at h
  split at h
  · cases h
  · rename_i hcr
    obtain ⟨hact, hfresh⟩ := Option.filter_eq_some_iff.mp h
    exact ⟨by simpa using hcr, systemStep_of_act hact, by simpa using hfresh⟩

/-! ### The queue inside the system -/

/-- Events the queue does not write. -/
def Event.isLocal {ι δ μ : Type} : Event ι δ μ → Bool
  | .queued .. | .delivered .. | .getLocked .. => false
  | _ => true

theorem fifoOps_eq_nil_of_isLocal {ι δ μ : Type} {evs : List (Event ι δ μ)}
    (h : ∀ e ∈ evs, e.isLocal = true) : fifoOps evs = [] := by
  refine List.filterMap_eq_nil_iff.mpr fun e he => ?_
  have hlocal := h e he
  cases e <;> first | rfl | simp [Event.isLocal] at hlocal

theorem isLocal_effects {ι δ μ : Type} (t : ι) (l : List (Effect δ μ)) :
    ∀ e ∈ l.map (Event.effect t), e.isLocal = true := by
  intro e he
  obtain ⟨x, -, rfl⟩ := List.mem_map.mp he
  rfl

/-- A hook list that refuses a message writes local events. -/
theorem isLocal_refused {ι δ μ : Type} (t : ι) (l : List (Effect δ μ)) (msg : Message δ μ) :
    ∀ e ∈ l.map (Event.effect t) ++ [.discarded t msg], e.isLocal = true := by
  intro e he
  rcases List.mem_append.mp he with he | he
  · exact isLocal_effects t l e he
  · rw [List.mem_singleton.mp he]
    rfl

/-- `consumer_consume` writes local events. -/
theorem isLocal_consumeMsg {t : Thread} {msg msg' : Msg} {r : ConsumeResult}
    {evs : List (Event Thread Nat Table)} (h : consumeMsg t msg r = some (msg', evs)) :
    ∀ e ∈ evs, e.isLocal = true := by
  cases r with
  | fail => cases h
  | nothing =>
    cases h
    simp
  | data buf len =>
    cases h
    simp [Event.isLocal]
  | record part offset payload len table =>
    cases h
    intro e he
    simp only [List.mem_append, List.mem_map, List.mem_singleton] at he
    rcases he with (⟨d, -, rfl⟩ | ⟨x, -, rfl⟩) | rfl <;> rfl

/-- The callback writes local events. -/
theorem isLocal_callbackRun {t : Thread} {msg msg' : Msg} {stored : Bool}
    {evs : List (Event Thread Nat Table)} (h : callbackRun t msg stored = some (msg', evs)) :
    ∀ e ∈ evs, e.isLocal = true := by
  unfold callbackRun at h
  split at h
  · cases h
    simp
  · split at h
    · cases h
      simp [Event.isLocal]
    · split at h
      · cases h
        intro e he
        simp only [List.mem_append, List.mem_cons, List.mem_map, List.not_mem_nil, or_false] at he
        rcases he with (rfl | rfl | rfl) | ⟨d, -, rfl⟩ <;> rfl
      · cases h

/-- What a step of the system does to the queue: local events are written, the process is gone, or
the queue itself moves. -/
theorem SystemStep.queue_cases {conf : SystemConf} {s s' : SystemState} {a : SystemAction}
    (h : SystemStep conf s a s') :
    (∃ evs, (∀ e ∈ evs, e.isLocal = true) ∧ s'.queue = s.queue.emit evs) ∨
      s'.queue = { s.queue with crashed := true } ∨
      ∃ b, a = .queue b ∧ s.queue.step conf.queue b = some s'.queue := by
  cases h with
  | consumerInit | await | consumerHead | consumeFail | addReturned | producerInit
  | producerInitFail | producerExit | producerHead | getReturned | stop | joinConsumers
  | joinProducers => exact Or.inl ⟨[], by simp, (QueueState.emit_nil _).symm⟩
  | consume hpc hfits hmsg => exact Or.inl ⟨_, isLocal_consumeMsg hmsg, rfl⟩
  | preadd | postget | release => exact Or.inl ⟨_, isLocal_effects _ _, rfl⟩
  | preaddRefused | postgetRefused => exact Or.inl ⟨_, isLocal_refused _ _ _, rfl⟩
  | produce => exact Or.inl ⟨_, by simp [Event.isLocal], rfl⟩
  | callbackAbort => exact Or.inr (Or.inl rfl)
  | callback hpc hmsg => exact Or.inl ⟨_, isLocal_callbackRun hmsg, rfl⟩
  | enterAdd hpc hq | enterGet hpc hq | inside hin hq => exact Or.inr (Or.inr ⟨_, rfl, hq⟩)

/-- The invariant rule for properties of the queue inside the system: the property survives local
events and crashes, and the steps of the queue as a routed sequence. -/
theorem system_queue_invariant {conf : SystemConf} {P : QueueState Thread Nat Table → Prop}
    (hinit : P QueueState.init)
    (hemit : ∀ q evs, (∀ e ∈ evs, Event.isLocal e = true) → P q → P (q.emit evs))
    (hcrash : ∀ q, P q → P { q with crashed := true })
    (hstep : ∀ q q' b, q.crashed = false → P q → Spares b.thread q q' →
      FifoStep conf.queue q q' b → P q')
    {acts : List SystemAction} {s : SystemState}
    (h : exec (SystemState.step conf) (SystemState.init conf) acts = some s) :
    (∃ ps, QueueInv s.queue ps) ∧ P s.queue := by
  refine exec_invariant (P := fun s => (∃ ps, QueueInv s.queue ps) ∧ P s.queue)
    ⟨⟨[], queueInv_init⟩, hinit⟩ ?_ h
  rintro s a s' ⟨⟨ps, hinv⟩, hP⟩ hst
  obtain ⟨-, hsys, -⟩ := systemStep_of_step hst
  rcases hsys.queue_cases with ⟨evs, hlocal, hq⟩ | hq | ⟨b, -, hq⟩
  · rw [hq]
    exact ⟨⟨ps, hinv.of_emit (fifoOps_eq_nil_of_isLocal hlocal)⟩, hemit _ _ hlocal hP⟩
  · rw [hq]
    exact ⟨(hinv.of_crash .stats).1, hcrash _ hP⟩
  · obtain ⟨hcr, hqstep⟩ := queueStep_of_step hq
    obtain ⟨⟨hinv', hspares⟩, hfifo⟩ := hinv.step hqstep
    exact ⟨hinv', hstep _ _ b hcr hP hspares hfifo⟩

/-- In every reached state of the system the queue satisfies its invariant. -/
theorem queueInv_of_system_exec {conf : SystemConf} {acts : List SystemAction} {s : SystemState}
    (h : exec (SystemState.step conf) (SystemState.init conf) acts = some s) :
    ∃ ps, QueueInv s.queue ps :=
  (system_queue_invariant (P := fun _ => True) trivial (fun _ _ _ _ => trivial)
    (fun _ _ => trivial) (fun _ _ _ _ _ _ _ => trivial) h).1

end Schaufel
