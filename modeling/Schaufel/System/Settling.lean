import Schaufel.Queue.Alive
import Schaufel.System.Stopping

/-!
# Coming to rest

From every state a run reaches, the stop signal can bring the system to rest: all producers exit,
and every consumer exits or is hung (`shutdown_settles`).  A consumer hangs when it waits for the
first producer and every producer has failed, or when it waits in `queue_add` for room in a full
queue and no producer is left to make room (`Hung`).  Neither wait looks at `consume_state`, so a
hung consumer stays hung whatever happens, and `main` never gets past its first join
(`hung_for_ever`).

The way to rest is a descent along the budget: a producer that has not exited can always act, since
a wait of `queue_get` times out, and so can a consumer that is not hung, once the producers are
gone.
-/

namespace Schaufel

/-! ### Actions that can happen -/

/-- The event allocates a handle. -/
def Event.allocates : Event Thread Nat Table → Bool
  | .effect _ (.newData _) | .effect _ (.newMeta _) => true
  | _ => false

theorem HandlesFresh.append {history evs : List (Event Thread Nat Table)} (h : HandlesFresh history)
    (hevs : ∀ e ∈ evs, e.allocates = false) : HandlesFresh (history ++ evs) := by
  have hdata : allocatedData evs = [] := by
    refine List.filterMap_eq_nil_iff.mpr fun e he => ?_
    have := hevs e he
    cases e with
    | effect t x => cases x <;> first | rfl | cases this
    | _ => rfl
  have htables : allocatedTables evs = [] := by
    refine List.filterMap_eq_nil_iff.mpr fun e he => ?_
    have := hevs e he
    cases e with
    | effect t x => cases x <;> first | rfl | cases this
    | _ => rfl
  have happend : allocatedData (history ++ evs) = allocatedData history ∧
      allocatedTables (history ++ evs) = allocatedTables history := by
    constructor
    · rw [allocatedData, List.filterMap_append]
      exact (congrArg _ hdata).trans (List.append_nil _)
    · rw [allocatedTables, List.filterMap_append]
      exact (congrArg _ htables).trans (List.append_nil _)
  rwa [HandlesFresh, happend.1, happend.2]

theorem handlesFresh_of_exec {conf : SystemConf} {acts : List SystemAction} {s : SystemState}
    (h : exec (SystemState.step conf) (SystemState.init conf) acts = some s) :
    HandlesFresh s.queue.history := by
  refine exec_invariant (P := fun s : SystemState => HandlesFresh s.queue.history) ?_ ?_ h
  · exact ⟨List.nodup_nil, List.nodup_nil⟩
  intro t a t' _ hst
  exact (systemStep_of_step hst).2.2

/-- Some action can happen that brings the system nearer to rest. -/
def CanMove (conf : SystemConf) (s : SystemState) : Prop :=
  ∃ a s', s.step conf a = some s' ∧ s'.queue.crashed = false ∧ s'.budget conf < s.budget conf

theorem step_of_act {conf : SystemConf} {s s' : SystemState} {a : SystemAction}
    (h : s.act conf a = some s') (hup : s.queue.crashed = false)
    (hfresh : HandlesFresh s'.queue.history) : s.step conf a = some s' := by
  rw [SystemState.step, hup, if_neg Bool.false_ne_true, h, Option.filter_some,
    if_pos (decide_eq_true hfresh)]

/-- A working action brings the system nearer to rest. -/
theorem Stopped.canMove {conf : SystemConf} {s s' : SystemState} {a : SystemAction}
    (hs : Stopped conf s) (hup : s.queue.crashed = false) (h : s.act conf a = some s')
    (hup' : s'.queue.crashed = false) {evs : List (Event Thread Nat Table)}
    (hhist : s'.queue.history = s.queue.history ++ evs) (hevs : ∀ e ∈ evs, e.allocates = false)
    (hworks : a.works = true) : CanMove conf s := by
  obtain ⟨acts, hexec⟩ := hs.1
  have hst := step_of_act h hup (by rw [hhist]; exact (handlesFresh_of_exec hexec).append hevs)
  obtain ⟨-, hpost, hturn⟩ := hs.step hst
  have hle := hturn.budget_le hpost hs.2 hup
  rw [hworks] at hle
  exact ⟨a, s', hst, hup', hle⟩

/-- So does a wait that ends. -/
theorem Stopped.canMove_of_payment {conf : SystemConf} {s s' : SystemState} {a : SystemAction}
    (hs : Stopped conf s) (hup : s.queue.crashed = false) (h : s.act conf a = some s')
    (hup' : s'.queue.crashed = false) {evs : List (Event Thread Nat Table)}
    (hhist : s'.queue.history = s.queue.history ++ evs) (hevs : ∀ e ∈ evs, e.allocates = false)
    (hpays : Payment conf s s' 1) : CanMove conf s := by
  obtain ⟨acts, hexec⟩ := hs.1
  have hst := step_of_act h hup (by rw [hhist]; exact (handlesFresh_of_exec hexec).append hevs)
  exact ⟨a, s', hst, hup', hpays.budget_le hs.2 hup hup'⟩

/-- Hooks that do nothing. -/
theorem hooklistRun_scriptHooks_nil (n : Nat) (msg : Msg) :
    hooklistRun (scriptHooks n) [] msg = ⟨true, msg, []⟩ := by
  have hlist : ∀ (l : List Nat) (msg : Msg),
      hooklistRun (l.map scriptHook) [] msg = ⟨true, msg, []⟩ := by
    intro l
    induction l with
    | nil => exact fun _ => rfl
    | cons k l ih =>
      intro msg
      rw [List.map_cons, hooklistRun]
      simp [scriptHook, runOps, ih]
  exact hlist _ msg

theorem allocates_release (t : Thread) (msg : Msg) :
    ∀ e ∈ msg.release.map (Event.effect t), Event.allocates e = false := by
  intro e he
  obtain ⟨x, hx, rfl⟩ := List.mem_map.mp he
  rcases List.mem_append.mp hx with hx | hx
  · obtain ⟨d, -, rfl⟩ := List.mem_map.mp hx
    rfl
  · obtain ⟨m, -, rfl⟩ := List.mem_map.mp hx
    rfl

theorem Getting.allocates_eq_false {q : QueueState Thread Nat Table} {t : Thread} {msg : Msg}
    {evs : List (Event Thread Nat Table)} {b : QueueAction Thread Nat Table HookEnv}
    (h : Getting q t msg evs b) : ∀ e ∈ evs, e.allocates = false := by
  cases h <;> simp [Event.allocates]

/-- The events of a step of the queue whose hooks do nothing. -/
theorem FifoStep.history_quiet {conf : SystemConf} {q q' : QueueState Thread Nat Table}
    {b : QueueAction Thread Nat Table HookEnv} (h : FifoStep conf.queue q q' b)
    (hadd : ∀ t args newmsg env, b = .add t args newmsg env → env = [])
    (hget : ∀ t env, b = .preget t env → env = []) :
    ∃ evs, q'.history = q.history ++ evs ∧ ∀ e ∈ evs, e.allocates = false := by
  have hnothing : ∀ (n : Nat) (msg : Msg), (hooklistRun (scriptHooks n) [] msg).accept = true ∧
      (hooklistRun (scriptHooks n) [] msg).effects = [] := fun n msg => by
    rw [hooklistRun_scriptHooks_nil]
    exact ⟨rfl, rfl⟩
  cases h with
  | addNoMem hout hcall hhist =>
    refine ⟨_, hhist, fun e he => ?_⟩
    simp only [List.mem_append, List.mem_map, List.mem_singleton] at he
    rcases he with ⟨d, -, rfl⟩ | rfl <;> rfl
  | addRefused hout hrun =>
    obtain rfl := hadd _ _ _ _ rfl
    exact absurd (hrun.symm.trans (hnothing _ _).1) (by decide)
  | addAccepted hout hrun hcall hheld hhist =>
    obtain rfl := hadd _ _ _ _ rfl
    refine ⟨_, hhist, fun e he => ?_⟩
    rw [show (hooklistRun conf.queue.postadd [] _).effects = [] from (hnothing _ _).2] at he
    cases he
  | @addFailed t args p hfrom hcall hhist =>
    refine ⟨_, hhist, fun e he => ?_⟩
    rcases List.mem_append.mp he with he | he
    · exact allocates_release t args e he
    · rw [List.mem_singleton.mp he]
      rfl
  | addBlocked hfrom hfull hcall hheld hhist => exact ⟨[], by rw [hhist, List.append_nil], by simp⟩
  | added hfrom hcall hhist => exact ⟨_, hhist, by simp [Event.allocates]⟩
  | getBlocked hfrom hempty hcall hhist => exact ⟨_, hhist, hfrom.allocates_eq_false⟩
  | getXblocked hfrom hnone hcall hhist => exact ⟨_, hhist, hfrom.allocates_eq_false⟩
  | taken hfrom hsplit hmark hold hrest hcall hhist =>
    refine ⟨_, by rw [hhist, List.append_assoc], fun e he => ?_⟩
    rcases List.mem_append.mp he with he | he
    · exact hfrom.allocates_eq_false e he
    · rw [List.mem_singleton.mp he]
      rfl
  | crashed hfrom hnull hcrash hcall hhist => exact ⟨_, hhist, hfrom.allocates_eq_false⟩
  | timedOut hfrom hcall hhist => exact ⟨[], by rw [hhist, List.append_nil], by simp⟩
  | preget hfrom hrun hcall hhist =>
    obtain rfl := hget _ _ rfl
    refine ⟨_, hhist, fun e he => ?_⟩
    rw [show (hooklistRun conf.queue.preget [] _).effects = [] from (hnothing _ _).2] at he
    cases he
  | pregetRefused hfrom hrun =>
    obtain rfl := hget _ _ rfl
    exact absurd (hrun.symm.trans (hnothing _ _).1) (by decide)
  | counted hout hcall hhist => exact ⟨_, hhist, by simp [Event.allocates]⟩

theorem act_queue {conf : SystemConf} {s s₁ : SystemState}
    {b : QueueAction Thread Nat Table HookEnv} {q : QueueState Thread Nat Table}
    (henter : s.enter b = some s₁) (hq : s₁.queue.step conf.queue b = some q) :
    s.act conf (.queue b) = some { s₁ with queue := q } := by
  rw [SystemState.act, henter, Option.bind_some, hq, Option.map_some]

/-! ### Producers -/

/-- `metadata_callback_run` with an offset that can be stored. -/
theorem exists_callbackRun (t : Thread) (msg : Msg) :
    ∃ msg' evs, callbackRun t msg true = some (msg', evs) ∧ ∀ e ∈ evs, e.allocates = false := by
  unfold callbackRun
  cases msg.metadata with
  | none => exact ⟨msg, [], rfl, by simp⟩
  | some tbl =>
    cases htbl : tbl.envelope with
    | none =>
      simp only [htbl]
      exact ⟨msg, [.effect t (.useMeta tbl)], rfl, by simp [Event.allocates]⟩
    | some env =>
      simp only [htbl, if_true]
      refine ⟨_, _, rfl, fun e he => ?_⟩
      simp only [List.mem_append, List.mem_cons, List.mem_map, List.not_mem_nil, or_false] at he
      rcases he with (rfl | rfl | rfl) | ⟨d, -, rfl⟩ <;> rfl

/-- A wait of `queue_get` can time out. -/
theorem canMove_timeout {conf : SystemConf} {s : SystemState} (hs : Stopped conf s)
    (hup : s.queue.crashed = false) {j : Nat} (hj : j < conf.marks.length)
    (hpc : (s.producers j).pc = .getting) (msg : Msg)
    (hrank : (s.queue.call (.producer j)).getRank = 4)
    (hq : s.queue.step conf.queue (.wake (.producer j) true) =
      some (s.queue.setCall (.producer j) (.getReturned msg .etimedout))) : CanMove conf s := by
  have henter : s.enter (.wake (.producer j) true) = some s := if_pos hpc
  refine hs.canMove_of_payment hup (act_queue henter hq) hup (List.append_nil _).symm (by simp)
    (.thread (t := .producer j) (SystemConf.producer_mem_threads hj) (fun t ht => ?_) rfl
      fun _ => ?_)
  · refine unmoved_of_producer (j := j) (fun t ht => ?_) ?_ ?_ ht
    · rw [QueueState.setCall_call, Function.update_of_ne ht]
    · exact fun _ _ => rfl
    · rfl
  · have hreturned : (Call.getReturned msg .etimedout : Call Nat Table).getRank = 2 := rfl
    simp only [SystemState.rank, ProducerThread.rank, hpc, hrank, hreturned,
      QueueState.setCall_call, QueueState.setCall_history, Function.update_self]
    omega

/-- A producer inside `queue_get` can act. -/
theorem canMove_getting {conf : SystemConf} {s : SystemState} (hs : Stopped conf s)
    (hup : s.queue.crashed = false) {j : Nat} (hpc : (s.producers j).pc = .getting) :
    CanMove conf s := by
  obtain ⟨acts, hexec⟩ := hs.1
  have hpost := posted_of_exec hexec hup
  obtain ⟨ps, hinv⟩ := queueInv_of_system_exec hexec
  have hj := hpost.producer j (by rw [hpc]; decide)
  have hin := hpost.inGet hpc
  have hok := hinv.call (.producer j)
  cases hcall : s.queue.call (.producer j) with
  | getWait msg x sig =>
    refine canMove_timeout hs hup hj hpc msg (by rw [hcall]; rfl) ?_
    simp [QueueState.step, hup, hcall, QueueState.getLoop₁]
  | getXwait msg m sig =>
    rw [hcall] at hok
    obtain ⟨y, hy⟩ := Option.isSome_iff_exists.mp hok.2
    refine canMove_timeout hs hup hj hpc msg (by rw [hcall]; rfl) ?_
    simp [QueueState.step, hup, hcall, QueueState.getLoop₂, hy]
  | taken msg =>
    have hq : s.queue.step conf.queue (.preget (.producer j) []) =
        some ((s.queue.emit []).setCall (.producer j) (.getReturned msg .ok)) := by
      simp [QueueState.step, hup, hcall, SystemConf.queue, hooklistRun_scriptHooks_nil]
    have henter : s.enter (.preget (.producer j) []) = some s := if_pos hpc
    exact hs.canMove hup (act_queue henter hq) hup rfl (by simp) rfl
  | getReturned msg ret =>
    have hact : s.act conf (.getReturned j) = some (s.setProducer j
        ⟨if ret = .etimedout ∨ ret = .ebadmsg then .head
          else if msg.data.isSome then .postget else .head, msg, ret⟩) := by
      simp only [SystemState.act, hcall, hpc, if_true]
    exact hs.canMove hup hact hup (List.append_nil _).symm (by simp) rfl
  | idle | adding | addWait | addReturned =>
    rw [hcall] at hin
    cases hin

/-- A producer that has not exited can act. -/
theorem canMove_producer {conf : SystemConf} {s : SystemState} (hs : Stopped conf s)
    (hup : s.queue.crashed = false) {j : Nat} (hlive : (s.producers j).pc ≠ .exited) :
    CanMove conf s := by
  obtain ⟨acts, hexec⟩ := hs.1
  have hpost := posted_of_exec hexec hup
  obtain ⟨ps, hinv⟩ := queueInv_of_system_exec hexec
  have hsame : s.queue.history = s.queue.history ++ [] := (List.append_nil _).symm
  have hnone : ∀ e ∈ ([] : List (Event Thread Nat Table)), e.allocates = false :=
    List.forall_mem_nil _
  cases hpc : (s.producers j).pc with
  | exited => exact absurd hpc hlive
  | start => exact hs.canMove (a := .producerInit j true) hup (if_pos hpc) hup hsame hnone rfl
  | head => exact hs.canMove (a := .producerHead j) hup (if_pos hpc) hup hsame hnone rfl
  | get =>
    have hout := hpost.outside_producer (by rw [hpc]; decide)
    have hsome : (s.queue.step conf.queue (.get (.producer j) (s.producers j).msg true)).isSome =
        true :=
      get_isSome hup hout
    obtain ⟨q, hq⟩ := Option.isSome_iff_exists.mp hsome
    obtain ⟨-, hstep⟩ := queueStep_of_step hq
    obtain ⟨evs, hhist, hevs⟩ := (hinv.step hstep).2.history_quiet (fun _ _ _ _ h => by cases h)
      (fun _ _ h => by cases h)
    have henter : s.enter (.get (.producer j) (s.producers j).msg true) =
        some (s.setProducer j ⟨.getting, (s.producers j).msg, (s.producers j).ret⟩) :=
      if_pos ⟨hpc, rfl⟩
    exact hs.canMove hup (act_queue henter hq) (hinv.get_alive hstep hout hup) hhist hevs rfl
  | getting => exact canMove_getting hs hup hpc
  | postget =>
    have hact : s.act conf (.postget j []) =
        some ((s.emit []).setProducer j { s.producers j with pc := .produce }) := by
      simp [SystemState.act, hpc, hooklistRun_scriptHooks_nil]
    exact hs.canMove hup hact hup rfl hnone rfl
  | produce =>
    exact hs.canMove (a := .produce j) hup (if_pos hpc) hup rfl (by simp [Event.allocates]) rfl
  | callback =>
    obtain ⟨msg, evs, hrun, hevs⟩ := exists_callbackRun (.producer j) (s.producers j).msg
    have hact : s.act conf (.callback j true) =
        some ((s.emit evs).setProducer j { s.producers j with pc := .release, msg := msg }) := by
      simp [SystemState.act, hpc, hrun]
    exact hs.canMove hup hact hup rfl hevs rfl
  | release =>
    exact hs.canMove (a := .release j) hup (if_pos hpc) hup rfl (allocates_release _ _) rfl

/-! ### Consumers -/

/-- Every producer is gone, and the consumer waits for one: for the first one that comes up, or for
one that makes room in the full queue. -/
structure Hung (conf : SystemConf) (s : SystemState) (i : Nat) : Prop where
  producers : ∀ j < conf.marks.length, (s.producers j).pc = .exited
  waits : (s.consumers i).pc = .await ∧ s.produceState = false ∨
    (s.consumers i).pc = .adding ∧
    (∃ args p m sig, s.queue.call (.consumer i) = .addWait args p m sig) ∧
      maxQueueSize < (routed s.queue.history).length

theorem roomy_of_exec {conf : SystemConf} {acts : List SystemAction} {s : SystemState}
    (h : exec (SystemState.step conf) (SystemState.init conf) acts = some s) : s.queue.Roomy := by
  refine exec_induction (P := fun _ (s : SystemState) => s.queue.Roomy) ⟨[], fun a _ => rfl⟩ ?_ h
  intro acts t a t' ht hroomy hst
  obtain ⟨ps, hinv⟩ := queueInv_of_system_exec ht
  obtain ⟨-, hstep, -⟩ := systemStep_of_step hst
  rcases hstep.queue_cases with ⟨evs, -, hq⟩ | hq | ⟨b, -, hq⟩
  · rw [hq]
    exact hroomy
  · rw [hq]
    exact hroomy
  · exact hroomy.step hinv (queueStep_of_step hq).2

/-- A wait of `queue_add` ends when there is room. -/
theorem canMove_addWait {conf : SystemConf} {s : SystemState} (hs : Stopped conf s)
    (hup : s.queue.crashed = false) {i : Nat} (hpc : (s.consumers i).pc = .adding) {args : Msg}
    {p : Ptr} {m : UInt32} {sig : Bool} (hcall : s.queue.call (.consumer i) = .addWait args p m sig)
    (hroom : ¬ maxQueueSize < (routed s.queue.history).length) : CanMove conf s := by
  obtain ⟨acts, hexec⟩ := hs.1
  have hpost := posted_of_exec hexec hup
  obtain ⟨ps, hinv⟩ := queueInv_of_system_exec hexec
  have hi := hpost.consumer i (by rw [hpc]; decide)
  have hq : s.queue.step conf.queue (.wake (.consumer i) false) =
      some (s.queue.addLoop (.consumer i) args p m) := by
    simp [QueueState.step, hup, hcall]
  obtain ⟨-, hstep⟩ := queueStep_of_step hq
  obtain ⟨⟨-, hspares⟩, hfifo⟩ := hinv.step hstep
  obtain ⟨hcr, -⟩ := hinv.adding_alive hstep ⟨args, p, m, sig, hcall⟩
  -- there is room, so the message is queued
  have hadded : (s.queue.addLoop (.consumer i) args p m).call (.consumer i) =
      .addReturned args .ok ∧
      ∃ msg, (s.queue.addLoop (.consumer i) args p m).history =
        s.queue.history ++ [.queued (.consumer i) msg] := by
    cases hfifo with
    | addBlocked hfrom hfull => exact absurd hfull hroom
    | added hfrom hcall' hhist =>
      cases hfrom with
      | wake hcall₀ =>
        cases hcall.symm.trans hcall₀
        exact ⟨hcall', _, hhist⟩
    | getBlocked hfrom | getXblocked hfrom | taken hfrom | crashed hfrom =>
      cases hfrom with
      | wait hcall₀ | xwait hcall₀ => cases hcall.symm.trans hcall₀
  obtain ⟨hcall', msg, hhist⟩ := hadded
  have henter : s.enter (.wake (.consumer i) false) = some s := if_pos hpc
  refine hs.canMove_of_payment hup (act_queue henter hq) (hcr.trans hup) hhist
    (by simp [Event.allocates])
    (.thread (t := .consumer i) (SystemConf.consumer_mem_threads hi) (fun t ht => ?_) rfl
      fun _ => ?_)
  · refine unmoved_of_consumer (i := i) ?_ ?_ ?_ ht
    · exact hspares.calls
    · exact fun _ _ => rfl
    · rfl
  · have hlen : (routed (s.queue.addLoop (.consumer i) args p m).history).length =
        (routed s.queue.history).length + 1 := by
      rw [hhist, routed_queued, List.length_append, List.length_singleton]
    simp only [SystemState.rank, ConsumerThread.rank, hpc, hcall, hcall', hlen, Call.addRank]
    omega

/-- A consumer that has not exited can act, unless it is hung. -/
theorem canMove_consumer {conf : SystemConf} {s : SystemState} (hs : Stopped conf s)
    (hup : s.queue.crashed = false) (hgone : ∀ j < conf.marks.length, (s.producers j).pc = .exited)
    {i : Nat} (hlive : (s.consumers i).pc ≠ .exited) (hhung : ¬ Hung conf s i) :
    CanMove conf s := by
  obtain ⟨acts, hexec⟩ := hs.1
  have hpost := posted_of_exec hexec hup
  obtain ⟨ps, hinv⟩ := queueInv_of_system_exec hexec
  have hsame : s.queue.history = s.queue.history ++ [] := (List.append_nil _).symm
  have hnone : ∀ e ∈ ([] : List (Event Thread Nat Table)), e.allocates = false :=
    List.forall_mem_nil _
  cases hpc : (s.consumers i).pc with
  | exited => exact absurd hpc hlive
  | start => exact hs.canMove (a := .consumerInit i true) hup (if_pos hpc) hup hsame hnone rfl
  | await =>
    have hproducers : s.produceState = true := by
      by_contra hoff
      exact hhung ⟨hgone, Or.inl ⟨hpc, Bool.eq_false_of_not_eq_true hoff⟩⟩
    exact hs.canMove (a := .await i) hup (if_pos ⟨hpc, hproducers⟩) hup hsame hnone rfl
  | head => exact hs.canMove (a := .consumerHead i) hup (if_pos hpc) hup hsame hnone rfl
  | consume => exact hs.canMove (a := .consume i .fail) hup (if_pos ⟨hpc, rfl⟩) hup hsame hnone rfl
  | preadd =>
    have hact : s.act conf (.preadd i []) =
        some ((s.emit []).setConsumer i ⟨.add, (s.consumers i).msg⟩) := by
      simp [SystemState.act, hpc, hooklistRun_scriptHooks_nil]
    exact hs.canMove hup hact hup rfl hnone rfl
  | add =>
    have hout := hpost.outside_consumer (by rw [hpc]; decide)
    obtain ⟨p, hp⟩ := (roomy_of_exec hexec).exists_free
    have hsome :
        (s.queue.step conf.queue (.add (.consumer i) (s.consumers i).msg (some p) [])).isSome =
          true :=
      add_isSome hup hout hp
    obtain ⟨q, hq⟩ := Option.isSome_iff_exists.mp hsome
    obtain ⟨-, hstep⟩ := queueStep_of_step hq
    obtain ⟨evs, hhist, hevs⟩ :=
      (hinv.step hstep).2.history_quiet (fun _ _ _ _ h => by cases h; rfl)
      (fun _ _ h => by cases h)
    have henter : s.enter (.add (.consumer i) (s.consumers i).msg (some p) []) =
        some (s.setConsumer i ⟨.adding, (s.consumers i).msg⟩) := if_pos ⟨hpc, rfl⟩
    exact hs.canMove hup (act_queue henter hq) ((hinv.adding_alive hstep trivial).1.trans hup)
      hhist hevs rfl
  | adding =>
    have hin := hpost.inAdd hpc
    cases hcall : s.queue.call (.consumer i) with
    | adding args p =>
      have hsome : (s.queue.step conf.queue (.lock (.consumer i) true)).isSome = true :=
        lock_isSome hup hcall
      obtain ⟨q, hq⟩ := Option.isSome_iff_exists.mp hsome
      obtain ⟨-, hstep⟩ := queueStep_of_step hq
      obtain ⟨evs, hhist, hevs⟩ := (hinv.step hstep).2.history_quiet (fun _ _ _ _ h => by cases h)
        (fun _ _ h => by cases h)
      have henter : s.enter (.lock (.consumer i) true) = some s := if_pos hpc
      exact hs.canMove hup (act_queue henter hq) ((hinv.adding_alive hstep trivial).1.trans hup)
        hhist hevs rfl
    | addWait args p m sig =>
      exact canMove_addWait hs hup hpc hcall fun hfull =>
        hhung ⟨hgone, Or.inr ⟨hpc, ⟨_, _, _, _, hcall⟩, hfull⟩⟩
    | addReturned args ret =>
      have hact : s.act conf (.addReturned i) =
          some (s.setConsumer i ⟨.head,
            { (s.consumers i).msg with data := none, metadata := none }⟩) := by
        simp only [SystemState.act, hcall, hpc, if_true]
      exact hs.canMove hup hact hup hsame hnone rfl
    | idle | getWait | getXwait | taken | getReturned =>
      rw [hcall] at hin
      cases hin

/-! ### Rest -/

/-- All producers have exited, and every consumer has exited or is hung. -/
def Settled (conf : SystemConf) (s : SystemState) : Prop :=
  (∀ j < conf.marks.length, (s.producers j).pc = .exited) ∧
    ∀ i < conf.consumers, (s.consumers i).pc = .exited ∨ Hung conf s i

/-- From every state a run reaches, the stop signal can bring the system to rest. -/
theorem shutdown_settles (conf : SystemConf) (acts : List SystemAction) (s : SystemState)
    (h : exec (SystemState.step conf) (SystemState.init conf) acts = some s)
    (hup : s.queue.crashed = false) :
    ∃ acts' s', exec (SystemState.step conf) s (.stop :: acts') = some s' ∧
      s'.queue.crashed = false ∧
      Settled conf s' := by
  have hfresh := handlesFresh_of_exec h
  have hstop : s.step conf .stop = some { s with consumeState := false } :=
    step_of_act rfl hup hfresh
  have hstopped : Stopped conf { s with consumeState := false } :=
    ⟨⟨acts ++ [.stop], exec_concat_eq_some.mpr ⟨s, h, hstop⟩⟩, rfl⟩
  have hdescent : ∀ t, Stopped conf t ∧ t.queue.crashed = false → Settled conf t ∨ ∃ a t',
      t.step conf a = some t' ∧ (Stopped conf t' ∧ t'.queue.crashed = false) ∧
        t'.budget conf < t.budget conf := by
    rintro t ⟨ht, hup⟩
    have hmove : CanMove conf t → ∃ a t', t.step conf a = some t' ∧
        (Stopped conf t' ∧ t'.queue.crashed = false) ∧ t'.budget conf < t.budget conf := by
      rintro ⟨a, t', hst, hup', hlt⟩
      exact ⟨a, t', hst, ⟨(ht.step hst).1, hup'⟩, hlt⟩
    by_cases hgone : ∀ j < conf.marks.length, (t.producers j).pc = .exited
    · by_cases hconsumers : ∀ i < conf.consumers, (t.consumers i).pc = .exited ∨ Hung conf t i
      · exact Or.inl ⟨hgone, hconsumers⟩
      · push Not at hconsumers
        obtain ⟨i, -, hlive, hhung⟩ := hconsumers
        exact Or.inr (hmove (canMove_consumer ht hup hgone hlive hhung))
    · push Not at hgone
      obtain ⟨j, -, hlive⟩ := hgone
      exact Or.inr (hmove (canMove_producer ht hup hlive))
  obtain ⟨acts', s', hexec, ⟨-, hup'⟩, hrest⟩ :=
    exists_exec_of_descent (SystemState.budget conf) hdescent ⟨hstopped, hup⟩
  exact ⟨acts', s', by rw [exec_cons, hstop, Option.bind_some, hexec], hup', hrest⟩

/-- A message is queued and another one is being written when the signal arrives. -/
theorem shutdown_settles_relay :
    ∃ s, exec (SystemState.step relayConf) (SystemState.init relayConf) relayRun = some s ∧
      ∃ acts' s', exec (SystemState.step relayConf) s (.stop :: acts') = some s' ∧
        Settled relayConf s' := by
  refine exists_of_exec_any (P := fun s => s.queue.crashed = false) (by decide) ?_
  intro s hs hup
  obtain ⟨acts', s', hexec, -, hsettled⟩ := shutdown_settles relayConf relayRun s hs hup
  exact ⟨acts', s', hexec, hsettled⟩

/-! ### Hanging -/

/-- A step of the queue by a consumer. -/
theorem Posted.adds {conf : SystemConf} {s s' : SystemState}
    {b : QueueAction Thread Nat Table HookEnv} (hpost : Posted conf s)
    (hgone : ∀ j, (s.producers j).pc = .exited) (h : SystemStep conf s (.queue b) s') :
    b.Adds s.queue ∨ ∃ n, b = .count .stats n := by
  have hproducer : ∀ {j pc}, (s.producers j).pc = pc → pc ≠ .exited → False := fun hpc hne =>
    hne (hpc.symm.trans (hgone _))
  cases h with
  | enterAdd hpc hq => exact Or.inl trivial
  | enterGet hpc hq => exact (hproducer hpc (by decide)).elim
  | @inside b q hin hq =>
    cases b with
    | add | get => exact hin.elim
    | lock t alloc => exact Or.inl trivial
    | wake t timeout =>
      cases t with
      | stats => exact hin.elim
      | producer j => exact (hproducer hin (by decide)).elim
      | consumer i =>
        refine Or.inl ?_
        have hadd := hpost.inAdd hin
        obtain ⟨-, hstep⟩ := queueStep_of_step hq
        cases hstep with
        | wakeAdd hcall => exact ⟨_, _, _, _, hcall⟩
        | wakeGet hcall | wakeXget hcall | timeout hcall | xtimeout hcall | xtimeoutCrash hcall =>
          rw [hcall] at hadd
          cases hadd
    | preget t env =>
      cases t with
      | producer j => exact (hproducer hin (by decide)).elim
      | consumer i => exact hin.elim
      | stats => exact hin.elim
    | count t n =>
      cases t with
      | stats => exact Or.inr ⟨n, rfl⟩
      | consumer i => exact hin.elim
      | producer j => exact hin.elim

/-- Frames that agree up to the flag wait alike. -/
theorem Call.addWait_of_wakeUp {δ μ : Type} {c c' : Call δ μ} (h : c'.wakeUp = c.wakeUp)
    {args : Message δ μ} {p : Ptr} {m : UInt32} {sig : Bool} (hc : c = .addWait args p m sig) :
    ∃ args p m sig, c' = .addWait args p m sig := by
  subst hc
  cases c' <;> first | exact ⟨_, _, _, _, rfl⟩ | cases h

/-- No step of the queue gets a hung consumer out of its wait. -/
theorem Hung.of_queue {conf : SystemConf} {s s' : SystemState}
    {b : QueueAction Thread Nat Table HookEnv} {ps : List Ptr} {i : Nat} (h : Hung conf s i)
    (hpost : Posted conf s) (hinv : QueueInv s.queue ps) (hstep : SystemStep conf s (.queue b) s') :
    s'.queue.crashed = false ∧ Hung conf s' i := by
  have hgone : ∀ j, (s.producers j).pc = .exited := fun j =>
    by_contra fun hlive => hlive (h.producers j (hpost.producer j hlive))
  have hq : s.queue.step conf.queue b = some s'.queue := by
    cases hstep <;> assumption
  have hproducers : s'.producers = s.producers ∧ s'.produceState = s.produceState := by
    cases hstep with
    | enterAdd | inside => exact ⟨rfl, rfl⟩
    | @enterGet j alloc q hpc hq => exact absurd (hpc.symm.trans (hgone j)) (by decide)
  have hpc : (s'.consumers i).pc = (s.consumers i).pc := by
    cases hstep with
    | @enterAdd i' newmsg env q hpc hq =>
      have hne : i ≠ i' := by
        rintro rfl
        rcases h.waits with ⟨hpc', -⟩ | ⟨hpc', -⟩ <;> exact absurd (hpc.symm.trans hpc') (by decide)
      exact congrArg ConsumerThread.pc (Function.update_of_ne hne _ _)
    | @enterGet j alloc q hpc hq => exact absurd (hpc.symm.trans (hgone j)) (by decide)
    | inside => rfl
  obtain ⟨hup, hqstep⟩ := queueStep_of_step hq
  obtain ⟨⟨-, hspares⟩, hfifo⟩ := hinv.step hqstep
  -- the queue stays full
  have hqueue : s'.queue.crashed = false ∧ (maxQueueSize < (routed s.queue.history).length →
      routed s'.queue.history = routed s.queue.history ∧ ∀ args p m sig,
        s.queue.call b.thread = .addWait args p m sig →
          ∃ args p m sig, s'.queue.call b.thread = .addWait args p m sig) := by
    rcases hpost.adds hgone hstep with hadds | ⟨n, rfl⟩
    · obtain ⟨hcr, hfull⟩ := hinv.adding_alive hqstep hadds
      refine ⟨hcr.trans hup, fun hlong => ?_⟩
      obtain ⟨hrouted, hwait⟩ := hfull hlong
      exact ⟨hrouted, fun args p m sig hcall => ⟨_, _, _, _, hwait args p m sig hcall⟩⟩
    · cases hfifo with
      | counted hout hcall hhist =>
        refine ⟨?_, fun _ => ⟨?_, fun args p m sig hwait => ⟨args, p, m, sig, hcall.trans hwait⟩⟩⟩
        · generalize s'.queue = q at hqstep ⊢
          cases hqstep
          exact hup
        · rw [hhist, routed_append_of_fifoOps_eq_nil rfl]
      | addBlocked hfrom | added hfrom => cases hfrom
      | getBlocked hfrom | getXblocked hfrom | taken hfrom | crashed hfrom => cases hfrom
  obtain ⟨hcr, hfull⟩ := hqueue
  refine ⟨hcr, ?_, ?_⟩
  · rw [hproducers.1]
    exact h.producers
  · rw [hpc, hproducers.2]
    refine h.waits.imp_right fun ⟨hadding, ⟨args, p, m, sig, hcall⟩, hlong⟩ => ?_
    obtain ⟨hrouted, hwait⟩ := hfull hlong
    refine ⟨hadding, ?_, by rw [hrouted]; exact hlong⟩
    by_cases ht : .consumer i = b.thread
    · rw [ht] at hcall ⊢
      exact hwait args p m sig hcall
    · exact Call.addWait_of_wakeUp (hspares.calls _ ht) hcall

/-- No step gets a hung consumer out of its wait. -/
theorem Hung.step {conf : SystemConf} {s s' : SystemState} {a : SystemAction} {ps : List Ptr}
    {i : Nat} (h : Hung conf s i) (hpost : Posted conf s) (hinv : QueueInv s.queue ps)
    (hst : s.step conf a = some s') : s'.queue.crashed = false ∧ Hung conf s' i := by
  obtain ⟨hup, hstep, -⟩ := systemStep_of_step hst
  -- the producers are gone
  have hgone : ∀ {j pc}, (s.producers j).pc = pc → pc ≠ .exited → False := fun {j pc} hpc hne => by
    have hj := hpost.producer j (by rwa [hpc])
    exact hne (hpc.symm.trans (h.producers j hj))
  -- another consumer moves outside the queue
  have hother : ∀ {i' c evs}, (∀ e ∈ evs, Event.isLocal e = true) → i ≠ i' →
      s'.queue = s.queue.emit evs →
      s'.consumers = Function.update s.consumers i' c → s'.producers = s.producers →
      s'.produceState = s.produceState → s'.queue.crashed = false ∧ Hung conf s' i := by
    intro i' c evs hlocal hne hqueue hc hp hstate
    refine ⟨by rw [hqueue]; exact hup, by rw [hp]; exact h.producers, ?_⟩
    rw [hc, Function.update_of_ne hne, hstate, hqueue, QueueState.emit_call,
      QueueState.emit_history, routed_append_of_fifoOps_eq_nil (fifoOps_eq_nil_of_isLocal hlocal)]
    exact h.waits
  have hne : ∀ {i' pc}, (s.consumers i').pc = pc → pc ≠ .await ∧ pc ≠ .adding → i ≠ i' := by
    rintro i' pc hpc ⟨hawait, hadding⟩ rfl
    rcases h.waits with ⟨hpc', -⟩ | ⟨hpc', -⟩
    · exact hawait (hpc.symm.trans hpc')
    · exact hadding (hpc.symm.trans hpc')
  have hquiet : ∀ e ∈ ([] : List (Event Thread Nat Table)), e.isLocal = true :=
    List.forall_mem_nil _
  have hsame : s.queue = s.queue.emit [] := s.queue.emit_nil.symm
  cases hstep with
  | consumerInit hpc | consumerHead hpc | consumeFail hpc =>
    exact hother hquiet (hne hpc (by decide)) hsame rfl rfl rfl
  | consume hpc hfits hmsg =>
    exact hother (isLocal_consumeMsg hmsg) (hne hpc (by decide)) rfl rfl rfl rfl
  | preadd hpc => exact hother (isLocal_effects _ _) (hne hpc (by decide)) rfl rfl rfl rfl
  | preaddRefused hpc => exact hother (isLocal_refused _ _ _) (hne hpc (by decide)) rfl rfl rfl rfl
  | @await i' hpc =>
    refine hother hquiet ?_ hsame rfl rfl rfl
    rintro rfl
    -- nobody is up
    have hon := (Option.ite_none_right_eq_some.mp (act_of_step hst)).1.2
    rcases h.waits with ⟨-, hoff⟩ | ⟨hpc', -⟩
    · exact absurd (hon.symm.trans hoff) (by decide)
    · exact absurd (hpc.symm.trans hpc') (by decide)
  | @addReturned i' args ret hpc hcall =>
    refine hother hquiet ?_ hsame rfl rfl rfl
    rintro rfl
    rcases h.waits with ⟨hpc', -⟩ | ⟨-, ⟨args', p, m, sig, hcall'⟩, -⟩
    · exact absurd (hpc.symm.trans hpc') (by decide)
    · cases hcall.symm.trans hcall'
  | enterAdd hpc hq => exact h.of_queue hpost hinv (.enterAdd hpc hq)
  | enterGet hpc hq => exact h.of_queue hpost hinv (.enterGet hpc hq)
  | inside hin hq => exact h.of_queue hpost hinv (.inside hin hq)
  | producerInit hpc | producerInitFail hpc | producerExit hpc | producerHead hpc
  | getReturned hpc | postget hpc
  | postgetRefused hpc | produce hpc | callbackAbort hpc | callback hpc | release hpc =>
    exact (hgone hpc (by decide)).elim
  | stop => exact ⟨hup, h.producers, h.waits⟩
  | joinConsumers hexit => exact ⟨hup, h.producers, h.waits⟩
  | joinProducers hexit =>
    exact ⟨hup, h.producers, h.waits.imp_left (And.imp_right fun _ => rfl)⟩

/-- A consumer that waits for a producer when all producers are gone waits for ever: whatever
happens then, the stop signal included, it does not get any further, and `main` never joins it. -/
theorem hung_for_ever (conf : SystemConf) (acts : List SystemAction) (s : SystemState)
    (h : exec (SystemState.step conf) (SystemState.init conf) acts = some s)
    (hup : s.queue.crashed = false) (i : Nat) (hhung : Hung conf s i)
    (acts' : List SystemAction) (s' : SystemState)
    (h' : exec (SystemState.step conf) s acts' = some s') :
    s'.queue.crashed = false ∧ Hung conf s' i ∧ s'.main = .joinConsumers := by
  have hrun : (∃ acts, exec (SystemState.step conf) (SystemState.init conf) acts = some s') ∧
      s'.queue.crashed = false ∧ Hung conf s' i := by
    refine exec_invariant
      (P := fun t => (∃ acts, exec (SystemState.step conf) (SystemState.init conf) acts = some t) ∧
      t.queue.crashed = false ∧ Hung conf t i) ⟨⟨acts, h⟩, hup, hhung⟩ ?_ h'
    rintro t a t' ⟨⟨acts, ht⟩, hup, hhung⟩ hst
    obtain ⟨ps, hinv⟩ := queueInv_of_system_exec ht
    exact ⟨⟨acts ++ [a], exec_concat_eq_some.mpr ⟨t, ht, hst⟩⟩,
      hhung.step (posted_of_exec ht hup) hinv hst⟩
  obtain ⟨⟨acts, hexec⟩, hup', hhung'⟩ := hrun
  refine ⟨hup', hhung', (posted_of_exec hexec hup').main.resolve_right fun hexited => ?_⟩
  rcases hhung'.waits with ⟨hpc, -⟩ | ⟨hpc, -⟩ <;>
    exact absurd (hpc.symm.trans (hexited i)) (by decide)

/-! ### A queue that fills up -/

/-- The system gets from one state to another one while the producers stand still and nobody stops
it. -/
structure Onward (conf : SystemConf) (s s' : SystemState) : Prop where
  run : ∃ acts, exec (SystemState.step conf) s acts = some s'
  up : s'.queue.crashed = false
  producers : s'.producers = s.producers
  consuming : s'.consumeState = s.consumeState

theorem Onward.trans {conf : SystemConf} {s s' s'' : SystemState} (h : Onward conf s s')
    (h' : Onward conf s' s'') : Onward conf s s'' := by
  obtain ⟨acts, hacts⟩ := h.run
  obtain ⟨acts', hacts'⟩ := h'.run
  refine ⟨⟨acts ++ acts', ?_⟩, h'.up, h'.producers.trans h.producers,
    h'.consuming.trans h.consuming⟩
  rw [exec_append, hacts, Option.bind_some, hacts']

theorem Onward.of_act {conf : SystemConf} {s s' : SystemState} {a : SystemAction}
    (hup : s.queue.crashed = false) (hact : s.act conf a = some s')
    (hfresh : HandlesFresh s'.queue.history) (hup' : s'.queue.crashed = false)
    (hproducers : s'.producers = s.producers) (hstate : s'.consumeState = s.consumeState) :
    Onward conf s s' := by
  refine ⟨⟨[a], ?_⟩, hup', hproducers, hstate⟩
  rw [exec_cons, step_of_act hact hup hfresh, Option.bind_some, exec_nil]

theorem Onward.reachable {conf : SystemConf} {acts : List SystemAction} {s s' : SystemState}
    (h : Onward conf s s')
    (hexec : exec (SystemState.step conf) (SystemState.init conf) acts = some s) :
    ∃ acts', exec (SystemState.step conf) (SystemState.init conf) acts' = some s' := by
  obtain ⟨acts', hacts'⟩ := h.run
  refine ⟨acts ++ acts', ?_⟩
  rw [exec_append, hexec, Option.bind_some, hacts']

/-- A consumer can take a message and offer it to `queue_add`. -/
theorem exists_offered {conf : SystemConf} {acts : List SystemAction} {s : SystemState}
    (h : exec (SystemState.step conf) (SystemState.init conf) acts = some s)
    (hup : s.queue.crashed = false) {i : Nat} (hpc : (s.consumers i).pc = .head)
    (hon : s.consumeState = true) (hplain : conf.transactional i = false) :
    ∃ s', Onward conf s s' ∧ (s'.consumers i).pc = .add ∧
      routed s'.queue.history = routed s.queue.history := by
  have hfresh := handlesFresh_of_exec h
  obtain ⟨d, hd⟩ := Infinite.exists_notMem_finset (allocatedData s.queue.history).toFinset
  obtain ⟨s₁, h₁, hc₁, hq₁⟩ : ∃ s₁, Onward conf s s₁ ∧
      s₁.consumers i = ⟨.consume, (s.consumers i).msg⟩ ∧ s₁.queue = s.queue := by
    have hact : s.act conf (.consumerHead i) =
        some (s.setConsumer i ⟨.consume, (s.consumers i).msg⟩) := by
      simp [SystemState.act, hpc, hon]
    exact ⟨_, .of_act hup hact hfresh hup rfl rfl, Function.update_self i _ _, rfl⟩
  obtain ⟨s₂, h₂, hc₂, evs, hq₂, hlocal⟩ : ∃ s₂, Onward conf s₁ s₂ ∧ (s₂.consumers i).pc = .preadd ∧
      ∃ evs, s₂.queue = s.queue.emit evs ∧ fifoOps evs = [] := by
    have hact : s₁.act conf (.consume i (.data d 0)) =
        some ((s₁.emit [.effect (.consumer i) (.newData d),
          .consumed (.consumer i) { (s.consumers i).msg with
            data := some d, datalen := 0 }]).setConsumer i
            ⟨.preadd, { (s.consumers i).msg with data := some d, datalen := 0 }⟩) := by
      simp [SystemState.act, ConsumeResult.fits, hplain, consumeMsg, hc₁]
    have hdata : d ∉ allocatedData s.queue.history := fun hmem => hd (List.mem_toFinset.mpr hmem)
    refine ⟨_, .of_act h₁.up hact ⟨?_, ?_⟩ h₁.up rfl rfl, ?_, _, congrArg (QueueState.emit · _) hq₁,
      rfl⟩
    · simpa [SystemState.emit, SystemState.setConsumer, hq₁, allocatedData] using
        List.Nodup.concat hdata hfresh.1
    · simpa [SystemState.emit, SystemState.setConsumer, hq₁, allocatedTables] using hfresh.2
    · simp [SystemState.setConsumer]
  obtain ⟨s₃, h₃, hc₃, hq₃⟩ : ∃ s₃, Onward conf s₂ s₃ ∧ (s₃.consumers i).pc = .add ∧
      s₃.queue = s₂.queue.emit [] := by
    have hact : s₂.act conf (.preadd i []) =
        some ((s₂.emit []).setConsumer i ⟨.add, (s₂.consumers i).msg⟩) := by
      simp [SystemState.act, hc₂, hooklistRun_scriptHooks_nil]
    have hfresh₂ : HandlesFresh s₂.queue.history := by
      obtain ⟨acts', hacts'⟩ := (h₁.trans h₂).reachable h
      exact handlesFresh_of_exec hacts'
    refine ⟨_, .of_act h₂.up hact ?_ h₂.up rfl rfl, ?_, rfl⟩
    · exact hfresh₂.append (List.forall_mem_nil _)
    · simp [SystemState.setConsumer]
  refine ⟨s₃, (h₁.trans h₂).trans h₃, hc₃, ?_⟩
  rw [hq₃, hq₂, QueueState.emit_history, QueueState.emit_history, List.append_nil,
    routed_append_of_fifoOps_eq_nil hlocal]

/-- The postadd hooks can let the message pass as it is; it gets a node, and the queue is as
before. -/
theorem exists_adding {conf : SystemConf} {acts : List SystemAction} {s : SystemState}
    (h : exec (SystemState.step conf) (SystemState.init conf) acts = some s)
    (hup : s.queue.crashed = false) {i : Nat} (hpc : (s.consumers i).pc = .add) :
    ∃ s', Onward conf s s' ∧ (s'.consumers i).pc = .adding ∧
      (∃ args p, s'.queue.call (.consumer i) = .adding args p) ∧
      routed s'.queue.history = routed s.queue.history := by
  have hout := (posted_of_exec h hup).outside_consumer (by rw [hpc]; decide)
  obtain ⟨p, hp⟩ := (roomy_of_exec h).exists_free
  obtain ⟨ps, hinv⟩ := queueInv_of_system_exec h
  have hsome :
      (s.queue.step conf.queue (.add (.consumer i) (s.consumers i).msg (some p) [])).isSome =
        true :=
    add_isSome hup hout hp
  obtain ⟨q, hq⟩ := Option.isSome_iff_exists.mp hsome
  obtain ⟨-, hstep⟩ := queueStep_of_step hq
  have hcr := (hinv.adding_alive hstep trivial).1.trans hup
  have henter : s.enter (.add (.consumer i) (s.consumers i).msg (some p) []) =
      some (s.setConsumer i ⟨.adding, (s.consumers i).msg⟩) := if_pos ⟨hpc, rfl⟩
  have hfifo := (hinv.step hstep).2
  cases hfifo with
  | addRefused _ hrun =>
    have haccept : (hooklistRun (scriptHooks conf.postadd) [] (s.consumers i).msg).accept =
        true := by
      rw [hooklistRun_scriptHooks_nil]
    exact absurd (haccept.symm.trans hrun) (by decide)
  | addAccepted _ _ hcall _ hhist =>
    have hsame : q.history = s.queue.history := by
      have hnone :
          (hooklistRun (scriptHooks conf.postadd) [] (s.consumers i).msg).effects = [] := by
        rw [hooklistRun_scriptHooks_nil]
      rw [hhist]
      simp [SystemConf.queue, hnone]
    have hfresh : HandlesFresh q.history := by
      rw [hsame]
      exact handlesFresh_of_exec h
    refine ⟨_, .of_act hup (act_queue henter hq) hfresh hcr rfl rfl, ?_, ⟨_, _, hcall⟩,
      congrArg routed hsame⟩
    simp [SystemState.setConsumer]
  | addBlocked hfrom | added hfrom => cases hfrom
  | getBlocked hfrom | getXblocked hfrom | taken hfrom | crashed hfrom => cases hfrom

/-- A consumer that offers a message gets it queued, unless the queue is full and it waits. -/
theorem exists_queued_or_waiting {conf : SystemConf} {acts : List SystemAction} {s : SystemState}
    (h : exec (SystemState.step conf) (SystemState.init conf) acts = some s)
    (hup : s.queue.crashed = false) {i : Nat} (hpc : (s.consumers i).pc = .add) :
    ∃ s', Onward conf s s' ∧ (s'.consumers i).pc = .adding ∧
      ((∃ args ret, s'.queue.call (.consumer i) = .addReturned args ret) ∧
          (routed s.queue.history).length ≤ maxQueueSize ∧
          (routed s'.queue.history).length = (routed s.queue.history).length + 1 ∨
        (∃ args p m sig, s'.queue.call (.consumer i) = .addWait args p m sig) ∧
          maxQueueSize < (routed s'.queue.history).length) := by
  obtain ⟨s₁, h₁, hc₁, ⟨args, p, hcall⟩, hrouted⟩ := exists_adding h hup hpc
  obtain ⟨acts₁, hexec₁⟩ := h₁.reachable h
  obtain ⟨ps₁, hinv₁⟩ := queueInv_of_system_exec hexec₁
  have hsome : (s₁.queue.step conf.queue (.lock (.consumer i) true)).isSome = true :=
    lock_isSome h₁.up hcall
  obtain ⟨q, hq⟩ := Option.isSome_iff_exists.mp hsome
  obtain ⟨-, hstep⟩ := queueStep_of_step hq
  obtain ⟨hcr, hfull⟩ := hinv₁.adding_alive hstep trivial
  have henter : s₁.enter (.lock (.consumer i) true) = some s₁ := if_pos hc₁
  have hfifo := (hinv₁.step hstep).2
  obtain ⟨evs, hhist, hevs⟩ :=
    hfifo.history_quiet (fun _ _ _ _ h => by cases h) (fun _ _ h => by cases h)
  have hfresh : HandlesFresh q.history := by
    rw [hhist]
    exact (handlesFresh_of_exec hexec₁).append hevs
  have honward : Onward conf s₁ { s₁ with queue := q } :=
    .of_act h₁.up (act_queue henter hq) hfresh (hcr.trans h₁.up) rfl rfl
  refine ⟨_, h₁.trans honward, hc₁, ?_⟩
  cases hfifo with
  | addBlocked hfrom hlong hcall' =>
    obtain rfl := hfrom.thread_eq
    exact .inr ⟨⟨_, _, _, _, hcall'⟩, by rw [(hfull hlong).1]; exact hlong⟩
  | added hfrom hcall' hhist' =>
    obtain rfl := hfrom.thread_eq
    have hlength : (routed q.history).length = (routed s₁.queue.history).length + 1 := by
      rw [hhist', routed_queued, List.length_append, List.length_singleton]
    refine .inl ⟨⟨_, _, hcall'⟩, ?_, by rw [hlength, hrouted]⟩
    rw [← hrouted]
    refine Int.not_lt.mp fun hlong => ?_
    rw [(hfull hlong).1] at hlength
    omega
  | getBlocked hfrom | getXblocked hfrom | taken hfrom | crashed hfrom => cases hfrom

/-- In one round of its loop a consumer that nobody stops gets a message queued, or waits in a full
queue. -/
theorem exists_round {conf : SystemConf} {acts : List SystemAction} {s : SystemState}
    (h : exec (SystemState.step conf) (SystemState.init conf) acts = some s)
    (hup : s.queue.crashed = false) {i : Nat} (hpc : (s.consumers i).pc = .head)
    (hon : s.consumeState = true) (hplain : conf.transactional i = false) :
    ∃ s', Onward conf s s' ∧
      ((s'.consumers i).pc = .head ∧ (routed s.queue.history).length ≤ maxQueueSize ∧
          (routed s'.queue.history).length = (routed s.queue.history).length + 1 ∨
        (s'.consumers i).pc = .adding ∧
          (∃ args p m sig, s'.queue.call (.consumer i) = .addWait args p m sig) ∧
          maxQueueSize < (routed s'.queue.history).length) := by
  obtain ⟨s₁, h₁, hc₁, hrouted⟩ := exists_offered h hup hpc hon hplain
  obtain ⟨acts₁, hexec₁⟩ := h₁.reachable h
  obtain ⟨s₂, h₂, hc₂, ⟨⟨args, ret, hcall⟩, hle, hlength⟩ | hwaiting⟩ :=
    exists_queued_or_waiting hexec₁ h₁.up hc₁
  · have hact : s₂.act conf (.addReturned i) =
        some (s₂.setConsumer i ⟨.head,
          { (s₂.consumers i).msg with data := none, metadata := none }⟩) := by
      simp only [SystemState.act, hcall, hc₂, if_true]
    obtain ⟨acts₂, hexec₂⟩ := h₂.reachable hexec₁
    have hfresh : HandlesFresh s₂.queue.history := handlesFresh_of_exec hexec₂
    have h₃ := Onward.of_act h₂.up hact hfresh h₂.up rfl rfl
    refine ⟨_, (h₁.trans h₂).trans h₃, .inl ⟨by simp [SystemState.setConsumer], ?_, ?_⟩⟩
    · rwa [← hrouted]
    · rw [← hrouted]
      exact hlength
  · exact ⟨s₂, h₁.trans h₂, .inr ⟨hc₂, hwaiting⟩⟩

/-- A consumer that nobody stops fills the queue, and waits. -/
theorem exists_waiting {conf : SystemConf} {i : Nat} (hplain : conf.transactional i = false)
    (room : Nat) {acts : List SystemAction} {s : SystemState}
    (h : exec (SystemState.step conf) (SystemState.init conf) acts = some s)
    (hup : s.queue.crashed = false) (hpc : (s.consumers i).pc = .head) (hon : s.consumeState = true)
    (hroom : maxQueueSize < (routed s.queue.history).length + room) :
    ∃ s', Onward conf s s' ∧ (s'.consumers i).pc = .adding ∧
      (∃ args p m sig, s'.queue.call (.consumer i) = .addWait args p m sig) ∧
      maxQueueSize < (routed s'.queue.history).length := by
  -- each round takes one place
  induction room generalizing acts s with
  | zero =>
    obtain ⟨s₁, h₁, ⟨-, hle, -⟩ | hwaiting⟩ := exists_round h hup hpc hon hplain
    · omega
    · exact ⟨s₁, h₁, hwaiting⟩
  | succ room ih =>
    obtain ⟨s₁, h₁, ⟨hpc₁, -, hlength⟩ | hwaiting⟩ := exists_round h hup hpc hon hplain
    · obtain ⟨acts₁, hexec₁⟩ := h₁.reachable h
      obtain ⟨s₂, h₂, hwaiting⟩ := ih hexec₁ h₁.up hpc₁ (h₁.consuming.trans hon) (by omega)
      exact ⟨s₂, h₁.trans h₂, hwaiting⟩
    · exact ⟨s₁, h₁, hwaiting⟩

/-- One consumer, and one producer for the mark 7, which no message has. -/
def idleConf : SystemConf := ⟨1, fun _ => false, [7], 0, 0, fun _ => 0, fun _ => 0⟩

/-- The producer has timed out and comes back to its loop; the consumer has filled the queue. -/
theorem exists_hung_full_queue :
    ∃ acts s, exec (SystemState.step idleConf) (SystemState.init idleConf) acts = some s ∧
      s.queue.crashed = false ∧ (s.consumers 0).pc = .adding ∧ Hung idleConf s 0 := by
  have hstart : ∃ s, exec (SystemState.step idleConf) (SystemState.init idleConf)
      [.producerInit 0 true, .consumerInit 0 true, .await 0, .producerHead 0,
        .queue (.get (.producer 0) ⟨none, 0, 7, none⟩ true), .queue (.wake (.producer 0) true),
        .getReturned 0] = some s ∧
      (s.queue.crashed = false ∧ (s.consumers 0).pc = .head ∧ s.consumeState = true ∧
        (s.producers 0).pc = .head ∧ (s.producers 0).ret = .etimedout) :=
    exists_of_exec_any (by decide) fun _ _ h => h
  obtain ⟨s, hs, hup, hpc, hon, hhead, hret⟩ := hstart
  obtain ⟨s₁, h₁, hadding, hwait, hfull⟩ := exists_waiting (i := 0) rfl 100001 hs hup hpc hon
    (by unfold maxQueueSize; omega)
  obtain ⟨acts₁, hexec₁⟩ := h₁.reachable hs
  have hfresh : HandlesFresh s₁.queue.history := handlesFresh_of_exec hexec₁
  -- the producer sees the stop signal and exits
  have hstop : s₁.act idleConf .stop = some { s₁ with consumeState := false } := rfl
  have hexit : SystemState.act idleConf { s₁ with consumeState := false } (.producerHead 0) =
      some (SystemState.setProducer { s₁ with consumeState := false } 0
        { s.producers 0 with pc := .exited }) := by
    simp [SystemState.act, h₁.producers, hhead, hret]
  refine ⟨acts₁ ++ [.stop, .producerHead 0],
    SystemState.setProducer { s₁ with consumeState := false } 0
    { s.producers 0 with pc := .exited }, ?_, h₁.up, hadding, ?_, .inr ⟨hadding, hwait, hfull⟩⟩
  · rw [exec_append, hexec₁, Option.bind_some, exec_cons, step_of_act hstop h₁.up hfresh,
      Option.bind_some, exec_cons, step_of_act hexit h₁.up hfresh, Option.bind_some, exec_nil]
  · intro j hj
    obtain rfl : j = 0 := Nat.lt_one_iff.mp hj
    simp [SystemState.setProducer]

/-- The only producer fails to come up while the consumer waits for it; or it exits after the stop
signal while the consumer waits in a full queue. -/
theorem hung_for_ever_both_waits :
    (∃ s, exec (SystemState.step relayConf) (SystemState.init relayConf)
        [.consumerInit 0 true, .producerInit 0 false] = some s ∧
      ∀ acts s', exec (SystemState.step relayConf) s acts = some s' →
        Hung relayConf s' 0 ∧ s'.main = .joinConsumers) ∧
    ∃ acts s, exec (SystemState.step idleConf) (SystemState.init idleConf) acts = some s ∧
      (s.consumers 0).pc = .adding ∧
      ∀ acts' s', exec (SystemState.step idleConf) s acts' = some s' →
        Hung idleConf s' 0 ∧ s'.main = .joinConsumers := by
  constructor
  · refine exists_of_exec_any (P := fun s => s.queue.crashed = false ∧
      (∀ j < relayConf.marks.length, (s.producers j).pc = .exited) ∧ (s.consumers 0).pc = .await ∧
        s.produceState = false) (by decide) ?_
    rintro s hs ⟨hup, hgone, hpc, hoff⟩ acts s' hs'
    exact (hung_for_ever relayConf _ s hs hup 0 ⟨hgone, Or.inl ⟨hpc, hoff⟩⟩ acts s' hs').2
  · obtain ⟨acts, s, hs, hup, hpc, hhung⟩ := exists_hung_full_queue
    exact ⟨acts, s, hs, hpc,
      fun acts' s' hs' => (hung_for_ever idleConf acts s hs hup 0 hhung acts' s' hs').2⟩

end Schaufel
