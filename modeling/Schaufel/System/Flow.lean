import Schaufel.Queue.Refinement
import Schaufel.System.Steps

/-!
# Where messages are

`SystemState.hand s t` is the message in the hands of the thread `t`: the message of a consumer from
the head of its loop to the link in `queue_add`, the message of a producer from the moment
`queue_get` has taken it to its release.  Every other message is an entry of the queue.

A consumed message passes four lists of hooks on its way to `producer_produce`: the preadd hooks of
its consumer, the postadd and the preget hooks of the queue and the postget hooks of its producer.
`SystemState.stage s t` says how far the message in the hands of the thread has come; there is no
stage where the thread has the shell of a message only, before `consumer_consume` and behind
`producer_produce`.  Every run of a list of hooks belongs to an action (`SystemAction.hookRun?`).

`FlowStep` describes a step of the system by what it does to hands, stages and queue, by the hooks
it runs and by what it writes to the history.  `ThreadsOk` says that the points of the threads fit
their frames in the queue; under it every step of the system is a `FlowStep` (`SystemStep.flow`).
-/

namespace Schaufel

/-- The message `queue_get` has taken for its caller. -/
def Call.got : Call Nat Table → Option Msg
  | .taken msg | .getReturned msg .ok => some msg
  | _ => none

/-- The message in the hands of a consumer that holds `held` in `queue_add`. -/
def ConsumerThread.hand (c : ConsumerThread) (held : Option Msg) : Option Msg :=
  match c.pc with
  | .head | .consume | .preadd | .add => some c.msg
  | .adding => held
  | .start | .await | .exited => none

/-- The message in the hands of a producer for which `queue_get` has taken `got`. -/
def ProducerThread.hand (p : ProducerThread) (got : Option Msg) : Option Msg :=
  match p.pc with
  | .getting => got
  | .postget | .produce | .callback | .release => some p.msg
  | .start | .head | .get | .exited => none

/-- The message in the hands of a thread. -/
def SystemState.hand (s : SystemState) : Thread → Option Msg
  | .consumer i => (s.consumers i).hand (s.queue.held (.consumer i))
  | .producer j => (s.producers j).hand (s.queue.call (.producer j)).got
  | .stats => none

/-- How far a message has come. -/
inductive Stage
  /-- Consumed. -/
  | fresh
  /-- Accepted by the preadd hooks. -/
  | preadded
  /-- Accepted by the postadd hooks. -/
  | postadded
  /-- Taken out of the queue. -/
  | received
  /-- Accepted by the preget hooks. -/
  | pregot
  /-- Accepted by the postget hooks. -/
  | postgot
  deriving DecidableEq, Repr

/-- The stage of the message that `queue_get` has taken for its caller. -/
def Call.stage : Call Nat Table → Option Stage
  | .taken _ => some .received
  | .getReturned _ .ok => some .pregot
  | _ => none

/-- The stage of the message of a consumer that holds `held` in `queue_add`. -/
def ConsumerThread.stage (c : ConsumerThread) (held : Option Msg) : Option Stage :=
  match c.pc with
  | .preadd => some .fresh
  | .add => some .preadded
  | .adding => held.map fun _ => .postadded
  | .start | .await | .head | .consume | .exited => none

/-- The stage of the message of a producer for which `queue_get` has one at the stage `got`. -/
def ProducerThread.stage (p : ProducerThread) (got : Option Stage) : Option Stage :=
  match p.pc with
  | .getting => got
  | .postget => some .pregot
  | .produce => some .postgot
  | .start | .head | .get | .callback | .release | .exited => none

/-- The stage of the message in the hands of a thread, if it is on its way. -/
def SystemState.stage (s : SystemState) : Thread → Option Stage
  | .consumer i => (s.consumers i).stage (s.queue.held (.consumer i))
  | .producer j => (s.producers j).stage (s.queue.call (.producer j)).stage
  | .stats => none

/-- A consumer has the message in its hands from the head of its loop up to the call of
`queue_add`. -/
theorem SystemState.hand_consumer {s : SystemState} {i : Nat}
    (h : (s.consumers i).pc ∈ [.head, .consume, .preadd, .add]) :
    s.hand (.consumer i) = some (s.consumers i).msg := by
  simp only [List.mem_cons, List.not_mem_nil, or_false] at h
  rcases h with hpc | hpc | hpc | hpc <;> simp [SystemState.hand, ConsumerThread.hand, hpc]

/-- A producer has the message in its hands from the return of `queue_get` up to the release. -/
theorem SystemState.hand_producer {s : SystemState} {j : Nat}
    (h : (s.producers j).pc ∈ [.postget, .produce, .callback, .release]) :
    s.hand (.producer j) = some (s.producers j).msg := by
  simp only [List.mem_cons, List.not_mem_nil, or_false] at h
  rcases h with hpc | hpc | hpc | hpc <;> simp [SystemState.hand, ProducerThread.hand, hpc]

/-- The message of a consumer is on its way from `consume` to the link in `queue_add`. -/
theorem SystemState.stage_consumer {s : SystemState} {i : Nat}
    (h : (s.consumers i).pc ∈ [.start, .await, .head, .consume]) :
    s.stage (.consumer i) = none := by
  simp only [List.mem_cons, List.not_mem_nil, or_false] at h
  rcases h with hpc | hpc | hpc | hpc <;>
    simp only [SystemState.stage, ConsumerThread.stage, hpc]

/-- The message of a producer is on its way up to the end of `produce`. -/
theorem SystemState.stage_producer {s : SystemState} {j : Nat}
    (h : (s.producers j).pc ∈ [.start, .head, .callback, .release]) :
    s.stage (.producer j) = none := by
  simp only [List.mem_cons, List.not_mem_nil, or_false] at h
  rcases h with hpc | hpc | hpc | hpc <;>
    simp only [SystemState.stage, ProducerThread.stage, hpc]

/-- The message of the thread is at the stage it was at, and so are the others. -/
theorem SystemState.stage_eq_of_update {s s' : SystemState} {t : Thread} {st : Option Stage}
    (h : s'.stage = Function.update s.stage t st) (hst : s.stage t = st) : s'.stage = s.stage := by
  rw [h, ← hst, Function.update_eq_self]

/-! ### Points and frames -/

/-- The frame of a consumer inside `queue_add`: it holds what the postadd hooks made of a message
with data. -/
def AddFrame (conf : SystemConf) (held : Option Msg) : Call Nat Table → Prop
  | .adding args _ | .addWait args _ _ _ => args.data.isSome = true ∧
      ∃ env, (hooklistRun (scriptHooks conf.postadd) env args).accept = true ∧
        held = some (hooklistRun (scriptHooks conf.postadd) env args).msg
  | .addReturned .. => held = none
  | _ => False

/-- The point of a consumer fits its message and its frame. -/
def ConsumerFits (conf : SystemConf) (s : SystemState) (i : Nat) : Prop :=
  match (s.consumers i).pc with
  | .start | .await => (s.consumers i).msg = Message.init
  | .head | .consume => (s.consumers i).msg.data = none
  | .preadd | .add => (s.consumers i).msg.data.isSome = true
  | .adding => AddFrame conf (s.queue.held (.consumer i)) (s.queue.call (.consumer i))
  | .exited => True

/-- The frame of a producer: it is never in `queue_add`, what was taken has data, and `queue_get`
does not fail for want of memory. -/
def GetFrame : Call Nat Table → Prop
  | .adding .. | .addWait .. => False
  | .taken msg => msg.data.isSome = true
  | .getReturned _ ret => ret ≠ .enomem
  | _ => True

/-- The frame of a producer fits, the postget hooks get a message with data, a producer that is
about to run the callback has produced its message, and the callback has settled the record. -/
structure ProducerFits (s : SystemState) (j : Nat) : Prop where
  frame : GetFrame (s.queue.call (.producer j))
  data : (s.producers j).pc = .postget → (s.producers j).msg.data.isSome = true
  produced : (s.producers j).pc = .callback →
    .produced (.producer j) (s.producers j).msg ∈ s.queue.history
  settled : (s.producers j).pc = .release → (s.producers j).msg.envelope = none

/-- The points of all threads fit, and every queued message has data. -/
structure ThreadsOk (conf : SystemConf) (s : SystemState) : Prop where
  consumer : ∀ i, ConsumerFits conf s i
  producer : ∀ j, ProducerFits s j
  entries : ∀ e ∈ routed s.queue.history, e.data.isSome = true

/-! ### The flow of messages -/

/-- The lists of hooks on the way of a message. -/
inductive HookPoint
  | preadd
  | postadd
  | preget
  | postget
  deriving DecidableEq, Repr

/-- The number of hooks in a list. -/
def SystemConf.hooks (conf : SystemConf) : Thread → HookPoint → Nat
  | .consumer i, .preadd => conf.preadd i
  | _, .postadd => conf.postadd
  | _, .preget => conf.preget
  | .producer j, .postget => conf.postget j
  | _, _ => 0

/-- A run of a list of hooks: the thread whose message they get, the list, and what the hooks do. -/
structure HookRun where
  thread : Thread
  point : HookPoint
  env : HookEnv
  deriving DecidableEq, Repr

/-- The run of hooks that an action is. -/
def SystemAction.hookRun? : SystemAction → Option HookRun
  | .preadd i env => some ⟨.consumer i, .preadd, env⟩
  | .queue (.add t _ (some _) env) => some ⟨t, .postadd, env⟩
  | .queue (.preget t env) => some ⟨t, .preget, env⟩
  | .postget j env => some ⟨.producer j, .postget, env⟩
  | _ => none

/-- The hooks an action runs: the thread whose message they get, the length of the list and what the
hooks do. -/
def SystemAction.hookPoint? (conf : SystemConf) (a : SystemAction) :
    Option (Thread × Nat × HookEnv) :=
  a.hookRun?.map fun r => (r.thread, conf.hooks r.thread r.point, r.env)

/-- A list of hooks that a thread runs takes a message from one stage to the next. -/
inductive HookPass : Thread → HookPoint → Stage → Stage → Prop
  | preadd (i : Nat) : HookPass (.consumer i) .preadd .fresh .preadded
  | postadd (i : Nat) : HookPass (.consumer i) .postadd .preadded .postadded
  | preget (j : Nat) : HookPass (.producer j) .preget .received .pregot
  | postget (j : Nat) : HookPass (.producer j) .postget .pregot .postgot

/-- The action runs a list of `n` hooks on the message of the thread, which is at the stage
before. -/
structure RunsHooks (conf : SystemConf) (s : SystemState) (a : SystemAction) (t : Thread) (n : Nat)
    (env : HookEnv) (p : HookPoint) (st st' : Stage) : Prop where
  run : a.hookRun? = some ⟨t, p, env⟩
  length : n = conf.hooks t p
  pass : HookPass t p st st'
  stage : s.stage t = some st

/-- Events that concern no message. -/
def Event.isIdle {ι δ μ : Type} : Event ι δ μ → Bool
  | .getLocked .. | .counted .. => true
  | _ => false

/-- What a function reads off events that concern no message, if it reads nothing off them. -/
theorem filterMap_isIdle {ι δ μ β : Type} {f : Event ι δ μ → Option β} {evs : List (Event ι δ μ)}
    (h : ∀ e ∈ evs, e.isIdle = true) (hlock : ∀ t m, f (.getLocked t m) = none)
    (hcount : ∀ t c n, f (.counted t c n) = none) : evs.filterMap f = [] := by
  refine List.filterMap_eq_nil_iff.mpr fun e he => ?_
  have hidle := h e he
  cases e with
  | getLocked t m => exact hlock t m
  | counted t c n => exact hcount t c n
  | _ => cases hidle

/-- A step of the system as seen from the messages. -/
inductive FlowStep (conf : SystemConf) (s s' : SystemState) (a : SystemAction) : Prop
  /-- No message moves. -/
  | idle {evs : List (Event Thread Nat Table)} (hidle : ∀ e ∈ evs, e.isIdle = true)
      (hhand : s'.hand = s.hand) (hhist : s'.queue.history = s.queue.history ++ evs)
      (hstage : s'.stage = s.stage) (hrun : a.hookRun? = none)
  /-- The process is gone. -/
  | crashed {evs : List (Event Thread Nat Table)} (hidle : ∀ e ∈ evs, e.isIdle = true)
      (hcrash : s'.queue.crashed = true) (hhist : s'.queue.history = s.queue.history ++ evs)
      (hrun : a.hookRun? = none)
  /-- A consumer gets an empty message to work with. -/
  | appear {t : Thread} {msg : Msg} (hmsg : msg.data = none ∧ msg.metadata = none)
      (hfrom : s.hand t = none) (hhand : s'.hand = Function.update s.hand t (some msg))
      (hhist : s'.queue.history = s.queue.history)
      (hbefore : s.stage t = none) (hstage : s'.stage = s.stage) (hrun : a.hookRun? = none)
  /-- A message without data is forgotten. -/
  | forget {t : Thread} {msg : Msg} (hfrom : s.hand t = some msg) (hdata : msg.data = none)
      (hhand : s'.hand = Function.update s.hand t none)
      (hhist : s'.queue.history = s.queue.history)
      (hstage : s'.stage = Function.update s.stage t none) (hrun : a.hookRun? = none)
  /-- `consumer_consume`. -/
  | consumed {i : Nat} {r : ConsumeResult} {msg msg' : Msg} {evs : List (Event Thread Nat Table)}
      (hfrom : s.hand (.consumer i) = some msg) (hdata : msg.data = none)
      (hfits : r.fits (conf.transactional i) = true)
      (hmsg : consumeMsg (.consumer i) msg r = some (msg', evs))
      (hhand : s'.hand = Function.update s.hand (.consumer i) (some msg'))
      (hhist : s'.queue.history = s.queue.history ++ evs)
      (hbefore : s.stage (.consumer i) = none)
      (hstage : s'.stage =
        Function.update s.stage (.consumer i) (msg'.data.map fun _ => .fresh))
      (hrun : a.hookRun? = none)
  /-- A list of hooks accepts the message. -/
  | hooked {t : Thread} {n : Nat} {env : HookEnv} {msg : Msg}
      (hpoint : a.hookPoint? conf = some (t, n, env))
      (hfrom : s.hand t = some msg) (hdata : msg.data.isSome = true)
      (haccept : (hooklistRun (scriptHooks n) env msg).accept = true)
      (hhand : s'.hand =
        Function.update s.hand t (some (hooklistRun (scriptHooks n) env msg).msg))
      (hhist : s'.queue.history = s.queue.history ++
        (hooklistRun (scriptHooks n) env msg).effects.map (.effect t))
      (hstage : ∃ p st st', RunsHooks conf s a t n env p st st' ∧
        s'.stage = Function.update s.stage t (some st'))
  /-- A preadd hook refuses the message, which the consumer keeps. -/
  | refusedPreadd {i : Nat} {env : HookEnv} {msg : Msg} (ha : a = .preadd i env)
      (hfrom : s.hand (.consumer i) = some msg)
      (haccept : (hooklistRun (scriptHooks (conf.preadd i)) env msg).accept = false)
      (hhand : s'.hand = Function.update s.hand (.consumer i)
        (some (hooklistRun (scriptHooks (conf.preadd i)) env msg).msg))
      (hhist : s'.queue.history = s.queue.history ++
        ((hooklistRun (scriptHooks (conf.preadd i)) env msg).effects.map (.effect (.consumer i)) ++
          [.discarded (.consumer i) msg]))
      (hbefore : s.stage (.consumer i) = some .fresh)
      (hstage : s'.stage = Function.update s.stage (.consumer i) none)
  /-- A postadd hook refuses the message; `queue_add` frees the metadata once more. -/
  | refusedPostadd {i : Nat} {p : Ptr} {env : HookEnv} {msg : Msg}
      (ha : a = .queue (.add (.consumer i) msg (some p) env))
      (hfrom : s.hand (.consumer i) = some msg)
      (haccept : (hooklistRun (scriptHooks conf.postadd) env msg).accept = false)
      (hhand : s'.hand = Function.update s.hand (.consumer i) none)
      (hhist : s'.queue.history = s.queue.history ++
        ((hooklistRun (scriptHooks conf.postadd) env msg).effects.map (.effect (.consumer i)) ++
          (msg.metadata.toList.map (fun h => .effect (.consumer i) (.freeMeta h)) ++
            [.discarded (.consumer i) msg])))
      (hbefore : s.stage (.consumer i) = some .preadded)
      (hstage : s'.stage = Function.update s.stage (.consumer i) none)
  /-- A preget or postget hook refuses the message. -/
  | refused {j n : Nat} {env : HookEnv} {msg : Msg}
      (hpoint : a.hookPoint? conf = some (.producer j, n, env))
      (hfrom : s.hand (.producer j) = some msg)
      (haccept : (hooklistRun (scriptHooks n) env msg).accept = false)
      (hhand : s'.hand = Function.update s.hand (.producer j) none)
      (hhist : s'.queue.history = s.queue.history ++
        ((hooklistRun (scriptHooks n) env msg).effects.map (.effect (.producer j)) ++
          [.discarded (.producer j) msg]))
      (hstage : (∃ p st st', RunsHooks conf s a (.producer j) n env p st st') ∧
        s'.stage = Function.update s.stage (.producer j) none)
  /-- `queue_add` has no memory for a node. -/
  | noNode {i : Nat} {msg : Msg} (hfrom : s.hand (.consumer i) = some msg)
      (hhand : s'.hand = Function.update s.hand (.consumer i) none)
      (hhist : s'.queue.history = s.queue.history ++
        (msg.data.toList.map (fun d => .effect (.consumer i) (.freeData d)) ++
          [.dropped (.consumer i) msg]))
      (hbefore : s.stage (.consumer i) = some .preadded)
      (hstage : s'.stage = Function.update s.stage (.consumer i) none) (hrun : a.hookRun? = none)
  /-- `queue_add` has no memory for the record of the mark: it releases its arguments, not what the
  postadd hooks made of them. -/
  | noMark {i : Nat} {p : Ptr} {env : HookEnv} {args : Msg}
      (ha : a = .queue (.lock (.consumer i) false))
      (hcall : s.queue.call (.consumer i) = .adding args p)
      (hmark : binFind s.queue.q.xtree
        (hooklistRun (scriptHooks conf.postadd) env args).msg.mark = none)
      (hdata : args.data.isSome = true)
      (haccept : (hooklistRun (scriptHooks conf.postadd) env args).accept = true)
      (hfrom : s.hand (.consumer i) = some (hooklistRun (scriptHooks conf.postadd) env args).msg)
      (hhand : s'.hand = Function.update s.hand (.consumer i) none)
      (hhist : s'.queue.history = s.queue.history ++
        (args.release.map (.effect (.consumer i)) ++ [.dropped (.consumer i) args]))
      (hbefore : s.stage (.consumer i) = some .postadded)
      (hstage : s'.stage = Function.update s.stage (.consumer i) none)
  /-- The message is queued. -/
  | queued {i : Nat} {msg : Msg} (hfrom : s.hand (.consumer i) = some msg)
      (hdata : msg.data.isSome = true)
      (hhand : s'.hand = Function.update s.hand (.consumer i) none)
      (hhist : s'.queue.history = s.queue.history ++ [.queued (.consumer i) msg])
      (hbefore : s.stage (.consumer i) = some .postadded)
      (hstage : s'.stage = Function.update s.stage (.consumer i) none) (hrun : a.hookRun? = none)
  /-- A producer takes the oldest entry of a mark. -/
  | taken {j : Nat} {msg : Msg} {e : Entry Nat Table} {es₁ es₂ : List (Entry Nat Table)}
      {evs : List (Event Thread Nat Table)} (hidle : ∀ e ∈ evs, e.isIdle = true)
      (hfrom : s.hand (.producer j) = none) (hsplit : routed s.queue.history = es₁ ++ e :: es₂)
      (hmark : e.mark = msg.mark) (hold : ∀ f ∈ es₁, f.mark ≠ msg.mark)
      (hrest : routed s'.queue.history = es₁ ++ es₂)
      (hhand : s'.hand = Function.update s.hand (.producer j) (some (msg.receive e)))
      (hhist : s'.queue.history =
        s.queue.history ++ (evs ++ [.delivered (.producer j) (msg.receive e)]))
      (hstage : s'.stage = Function.update s.stage (.producer j) (some .received))
      (hrun : a.hookRun? = none)
  /-- `producer_produce`. -/
  | produced {j : Nat} {msg : Msg} (hfrom : s.hand (.producer j) = some msg)
      (hhand : s'.hand = s.hand)
      (hhist : s'.queue.history = s.queue.history ++ [.produced (.producer j) msg])
      (hbefore : s.stage (.producer j) = some .postgot)
      (hstage : s'.stage = Function.update s.stage (.producer j) none) (hrun : a.hookRun? = none)
  /-- `metadata_callback_run` on a message that was produced. -/
  | callback {j : Nat} {stored : Bool} {msg msg' : Msg} {evs : List (Event Thread Nat Table)}
      (hfrom : s.hand (.producer j) = some msg)
      (hprod : .produced (.producer j) msg ∈ s.queue.history)
      (hmsg : callbackRun (.producer j) msg stored = some (msg', evs))
      (hhand : s'.hand = Function.update s.hand (.producer j) (some msg'))
      (hhist : s'.queue.history = s.queue.history ++ evs)
      (hbefore : s.stage (.producer j) = none)
      (hstage : s'.stage = s.stage) (hrun : a.hookRun? = none)
  /-- The producer frees the message; its record is settled. -/
  | released {j : Nat} {msg : Msg} (hfrom : s.hand (.producer j) = some msg)
      (henv : msg.envelope = none) (hhand : s'.hand = Function.update s.hand (.producer j) none)
      (hhist : s'.queue.history = s.queue.history ++ msg.release.map (.effect (.producer j)))
      (hbefore : s.stage (.producer j) = none)
      (hstage : s'.stage = s.stage) (hrun : a.hookRun? = none)

/-- Neither hands nor stages nor history change. -/
theorem FlowStep.of_same {conf : SystemConf} {s s' : SystemState} {a : SystemAction}
    (hhand : s'.hand = s.hand) (hhist : s'.queue.history = s.queue.history)
    (hstage : s'.stage = s.stage) (hrun : a.hookRun? = none) : FlowStep conf s s' a :=
  @FlowStep.idle conf s s' a [] (by simp) hhand (by rw [hhist, List.append_nil]) hstage hrun

/-- What one thread has does not change, and nothing else does. -/
theorem FlowStep.of_update {conf : SystemConf} {s s' : SystemState} {a : SystemAction} {t : Thread}
    {m : Option Msg} {st : Option Stage} (hhand : s'.hand = Function.update s.hand t m)
    (hm : s.hand t = m) (hhist : s'.queue.history = s.queue.history ++ [])
    (hstage : s'.stage = Function.update s.stage t st) (hst : s.stage t = st)
    (hrun : a.hookRun? = none) : FlowStep conf s s' a := by
  refine .of_same ?_ (by rw [hhist, List.append_nil]) (SystemState.stage_eq_of_update hstage hst)
    hrun
  rw [hhand, ← hm, Function.update_eq_self]

/-! ### Steps of one thread -/

/-- A step of the thread `t`: the other threads keep their records, their frames and their nodes. -/
structure MovesOnly (t : Thread) (s s' : SystemState) : Prop where
  consumers : ∀ i, .consumer i ≠ t → s'.consumers i = s.consumers i
  producers : ∀ j, .producer j ≠ t → s'.producers j = s.producers j
  queue : Spares t s.queue s'.queue

/-- What is read off the record of a thread and its frame changes for the acting thread only, if it
does not look at the wake-up. -/
theorem MovesOnly.view_eq {β : Type} {t : Thread} {s s' : SystemState} (h : MovesOnly t s s')
    {view : SystemState → Thread → β} {c : ConsumerThread → Option Msg → β}
    {p : ProducerThread → Call Nat Table → β} {o : β}
    (hconsumer : ∀ s i, view s (.consumer i) = c (s.consumers i) (s.queue.held (.consumer i)))
    (hproducer : ∀ s j, view s (.producer j) = p (s.producers j) (s.queue.call (.producer j)))
    (hstats : ∀ s, view s .stats = o) (hwake : ∀ r call, p r call.wakeUp = p r call) :
    view s' = Function.update (view s) t (view s' t) := by
  funext t'
  by_cases ht : t' = t
  · rw [ht, Function.update_self]
  · rw [Function.update_of_ne ht]
    cases t' with
    | consumer i => rw [hconsumer, hconsumer, h.consumers i ht, h.queue.held_eq ht]
    | producer j =>
      rw [hproducer, hproducer, h.producers j ht, ← hwake, h.queue.calls _ ht, hwake]
    | stats => rw [hstats, hstats]

/-- Only the hands of the acting thread change. -/
theorem MovesOnly.hand_eq {t : Thread} {s s' : SystemState} (h : MovesOnly t s s') :
    s'.hand = Function.update s.hand t (s'.hand t) :=
  h.view_eq (c := fun r held => r.hand held) (p := fun r call => r.hand call.got)
    (fun _ _ => rfl) (fun _ _ => rfl) (fun _ => rfl) fun r call => by cases call <;> rfl

/-- Only the stage of the acting thread changes. -/
theorem MovesOnly.stage_eq {t : Thread} {s s' : SystemState} (h : MovesOnly t s s') :
    s'.stage = Function.update s.stage t (s'.stage t) :=
  h.view_eq (c := fun r held => r.stage held) (p := fun r call => r.stage call.stage)
    (fun _ _ => rfl) (fun _ _ => rfl) (fun _ => rfl) fun r call => by cases call <;> rfl

/-- What a function reads off the hands changes where the hands change. -/
theorem hand_bind_update {β : Type} {s s' : SystemState} {t : Thread} {m : Option Msg}
    (hhand : s'.hand = Function.update s.hand t m) (f : Msg → Option β) :
    (fun t' => (s'.hand t').bind f) =
      Function.update (fun t' => (s.hand t').bind f) t (m.bind f) := by
  funext t'
  by_cases ht : t' = t
  · subst ht
    rw [hhand, Function.update_self, Function.update_self]
  · rw [hhand, Function.update_of_ne ht, Function.update_of_ne ht]

theorem addFrame_wakeUp {conf : SystemConf} {held : Option Msg} {c : Call Nat Table} :
    AddFrame conf held c.wakeUp ↔ AddFrame conf held c := by
  cases c <;> rfl

theorem getFrame_wakeUp {c : Call Nat Table} : GetFrame c.wakeUp ↔ GetFrame c := by
  cases c <;> rfl

/-- What a step of one thread leaves of the fitting of points and frames. -/
theorem ThreadsOk.of_movesOnly {conf : SystemConf} {t : Thread} {s s' : SystemState}
    {evs : List (Event Thread Nat Table)} (hok : ThreadsOk conf s) (h : MovesOnly t s s')
    (hhist : s'.queue.history = s.queue.history ++ evs)
    (hqueued : ∀ t msg, .queued t msg ∈ evs → msg.data.isSome = true)
    (hconsumer : ∀ i, t = .consumer i → ConsumerFits conf s' i)
    (hproducer : ∀ j, t = .producer j → ProducerFits s' j) : ThreadsOk conf s' := by
  refine ⟨fun i => ?_, fun j => ?_, fun e he => ?_⟩
  · by_cases ht : .consumer i = t
    · exact hconsumer i ht.symm
    · have hfits := hok.consumer i
      unfold ConsumerFits at hfits ⊢
      rwa [h.consumers i ht, h.queue.held_eq ht, ← addFrame_wakeUp, h.queue.calls _ ht,
        addFrame_wakeUp]
  · by_cases ht : .producer j = t
    · exact hproducer j ht.symm
    · refine ⟨?_, fun hpc => ?_, fun hpc => ?_, fun hpc => ?_⟩
      · rw [← getFrame_wakeUp, h.queue.calls _ ht, getFrame_wakeUp]
        exact (hok.producer j).frame
      · rw [h.producers j ht] at hpc ⊢
        exact (hok.producer j).data hpc
      · rw [h.producers j ht] at hpc ⊢
        rw [hhist]
        exact List.mem_append_left _ ((hok.producer j).produced hpc)
      · rw [h.producers j ht] at hpc ⊢
        exact (hok.producer j).settled hpc
  · rw [hhist] at he
    rcases mem_routed_append he with he | ⟨t', msg, hmem, rfl⟩
    · exact hok.entries e he
    · exact hqueued t' msg hmem

/-- A step of a consumer outside the queue. -/
theorem movesOnly_consumer {s s' : SystemState} {i : Nat} {c : ConsumerThread}
    {evs : List (Event Thread Nat Table)} (hc : s'.consumers = Function.update s.consumers i c)
    (hp : s'.producers = s.producers) (hq : s'.queue = s.queue.emit evs) :
    MovesOnly (.consumer i) s s' ∧
      s'.hand = Function.update s.hand (.consumer i) (c.hand (s.queue.held (.consumer i))) ∧
      s'.stage =
        Function.update s.stage (.consumer i) (c.stage (s.queue.held (.consumer i))) := by
  have hmoves : MovesOnly (.consumer i) s s' := by
    refine ⟨fun i' hi' => ?_, fun j _ => by rw [hp], by rw [hq]; exact spares_emit _ _ _⟩
    have hne : i' ≠ i := fun h => hi' (by rw [h])
    rw [hc, Function.update_of_ne hne]
  have hhand : s'.hand (.consumer i) = c.hand (s.queue.held (.consumer i)) := by
    simp only [SystemState.hand, hc, Function.update_self, hq]
    rfl
  have hstage : s'.stage (.consumer i) = c.stage (s.queue.held (.consumer i)) := by
    simp only [SystemState.stage, hc, Function.update_self, hq]
    rfl
  exact ⟨hmoves, hhand ▸ hmoves.hand_eq, hstage ▸ hmoves.stage_eq⟩

/-- A step of a producer outside the queue. -/
theorem movesOnly_producer {s s' : SystemState} {j : Nat} {p : ProducerThread}
    {evs : List (Event Thread Nat Table)} (hc : s'.consumers = s.consumers)
    (hp : s'.producers = Function.update s.producers j p) (hq : s'.queue = s.queue.emit evs) :
    MovesOnly (.producer j) s s' ∧
      s'.hand =
        Function.update s.hand (.producer j) (p.hand (s.queue.call (.producer j)).got) ∧
      s'.stage =
        Function.update s.stage (.producer j) (p.stage (s.queue.call (.producer j)).stage) := by
  have hmoves : MovesOnly (.producer j) s s' := by
    refine ⟨fun i _ => by rw [hc], fun j' hj' => ?_, by rw [hq]; exact spares_emit _ _ _⟩
    have hne : j' ≠ j := fun h => hj' (by rw [h])
    rw [hp, Function.update_of_ne hne]
  have hhand : s'.hand (.producer j) = p.hand (s.queue.call (.producer j)).got := by
    simp only [SystemState.hand, hp, Function.update_self, hq]
    rfl
  have hstage : s'.stage (.producer j) = p.stage (s.queue.call (.producer j)).stage := by
    simp only [SystemState.stage, hp, Function.update_self, hq]
    rfl
  exact ⟨hmoves, hhand ▸ hmoves.hand_eq, hstage ▸ hmoves.stage_eq⟩

/-- Local events queue nothing. -/
theorem queued_not_mem_of_isLocal {evs : List (Event Thread Nat Table)}
    (h : ∀ e ∈ evs, e.isLocal = true) {P : Prop} {t : Thread} {msg : Msg}
    (hmem : .queued t msg ∈ evs) : P := by
  have hlocal := h _ hmem
  simp [Event.isLocal] at hlocal

/-- Points and frames after a step of a consumer outside the queue. -/
theorem ThreadsOk.of_consumer {conf : SystemConf} {s s' : SystemState} {i : Nat}
    {c : ConsumerThread} {evs : List (Event Thread Nat Table)} (hok : ThreadsOk conf s)
    (hc : s'.consumers = Function.update s.consumers i c) (hp : s'.producers = s.producers)
    (hq : s'.queue = s.queue.emit evs) (hlocal : ∀ e ∈ evs, e.isLocal = true)
    (hfits : match c.pc with
      | .start | .await => c.msg = Message.init
      | .head | .consume => c.msg.data = none
      | .preadd | .add => c.msg.data.isSome = true
      | .adding => False
      | .exited => True) : ThreadsOk conf s' := by
  refine hok.of_movesOnly (movesOnly_consumer hc hp hq).1 (by rw [hq]; rfl)
    (fun t msg hmem => queued_not_mem_of_isLocal hlocal hmem) ?_ (by simp)
  rintro i' ⟨⟩
  unfold ConsumerFits
  rw [hc, Function.update_self]
  revert hfits
  cases c.pc <;> simp

/-- Points and frames after a step of a producer outside the queue. -/
theorem ThreadsOk.of_producer {conf : SystemConf} {s s' : SystemState} {j : Nat}
    {p : ProducerThread} {evs : List (Event Thread Nat Table)} (hok : ThreadsOk conf s)
    (hc : s'.consumers = s.consumers) (hp : s'.producers = Function.update s.producers j p)
    (hq : s'.queue = s.queue.emit evs) (hlocal : ∀ e ∈ evs, e.isLocal = true)
    (hdata : p.pc = .postget → p.msg.data.isSome = true)
    (hprod : p.pc = .callback → .produced (.producer j) p.msg ∈ s.queue.history ++ evs)
    (hrel : p.pc = .release → p.msg.envelope = none) : ThreadsOk conf s' := by
  refine hok.of_movesOnly (movesOnly_producer hc hp hq).1 (by rw [hq]; rfl)
    (fun t msg hmem => queued_not_mem_of_isLocal hlocal hmem) (by simp) ?_
  rintro j' ⟨⟩
  refine ⟨?_, ?_, ?_, ?_⟩
  · rw [hq]
    exact (hok.producer j).frame
  · rw [hp, Function.update_self]
    exact hdata
  · rw [hp, hq, Function.update_self]
    exact hprod
  · rw [hp, Function.update_self]
    exact hrel

/-! ### Steps inside the queue -/

/-- A frame that holds no node. -/
theorem held_eq_none {q : QueueState Thread Nat Table} {t : Thread}
    (h : (q.call t).node = none) : q.held t = none := by
  rw [QueueState.held, h]
  rfl

/-- A step of a consumer into or inside `queue_add`: its hands hold what it holds in the queue. -/
theorem flow_adding {conf : SystemConf} {s s' : SystemState} {i : Nat} (hok : ThreadsOk conf s)
    (hc : ∀ i', i' ≠ i → s'.consumers i' = s.consumers i') (hpc : (s'.consumers i).pc = .adding)
    (hp : s'.producers = s.producers) (hspares : Spares (.consumer i) s.queue s'.queue) :
    s'.hand = Function.update s.hand (.consumer i) (s'.queue.held (.consumer i)) ∧
      s'.stage = Function.update s.stage (.consumer i)
        ((s'.queue.held (.consumer i)).map fun _ => .postadded) ∧
      ∀ evs, s'.queue.history = s.queue.history ++ evs →
        (∀ t msg, .queued t msg ∈ evs → msg.data.isSome = true) →
        AddFrame conf (s'.queue.held (.consumer i)) (s'.queue.call (.consumer i)) →
        ThreadsOk conf s' := by
  have hmoves : MovesOnly (.consumer i) s s' :=
    ⟨fun i' hi' => hc i' fun h => hi' (by rw [h]), fun _ _ => by rw [hp], hspares⟩
  refine ⟨?_, ?_, fun evs hhist hqueued hframe => ?_⟩
  · have hself : s'.hand (.consumer i) = s'.queue.held (.consumer i) := by
      simp only [SystemState.hand, ConsumerThread.hand, hpc]
    rw [hmoves.hand_eq, hself]
  · have hself : s'.stage (.consumer i) =
        (s'.queue.held (.consumer i)).map fun _ => .postadded := by
      simp only [SystemState.stage, ConsumerThread.stage, hpc]
    rw [hmoves.stage_eq, hself]
  · refine hok.of_movesOnly hmoves hhist hqueued ?_ (by simp)
    rintro i' ⟨⟩
    simpa only [ConsumerFits, hpc] using hframe

/-- A consumer calls `queue_add`. -/
theorem flow_enterAdd {conf : SystemConf} {s s' : SystemState} {i : Nat} {newmsg : Option Ptr}
    {env : HookEnv} (hok : ThreadsOk conf s) (hpc : (s.consumers i).pc = .add)
    (hc : ∀ i', i' ≠ i → s'.consumers i' = s.consumers i') (hpc' : (s'.consumers i).pc = .adding)
    (hp : s'.producers = s.producers) (hspares : Spares (.consumer i) s.queue s'.queue)
    (h : FifoStep conf.queue s.queue s'.queue (.add (.consumer i) (s.consumers i).msg newmsg env)) :
    ThreadsOk conf s' ∧
      FlowStep conf s s' (.queue (.add (.consumer i) (s.consumers i).msg newmsg env)) := by
  obtain ⟨hhand, hstage, hthreads⟩ := flow_adding hok hc hpc' hp hspares
  have hfrom : s.hand (.consumer i) = some (s.consumers i).msg := by
    simp only [SystemState.hand, ConsumerThread.hand, hpc]
  have hbefore : s.stage (.consumer i) = some .preadded := by
    simp only [SystemState.stage, ConsumerThread.stage, hpc]
  have hdata : (s.consumers i).msg.data.isSome = true := by
    have hfits := hok.consumer i
    simpa only [ConsumerFits, hpc] using hfits
  cases h with
  | addNoMem hout hcall hhist =>
    have hheld : s'.queue.held (.consumer i) = none := held_eq_none (by rw [hcall]; rfl)
    rw [hheld] at hhand hstage
    exact ⟨hthreads _ hhist (by simp) (by rw [hcall]; exact hheld),
      .noNode hfrom hhand hhist hbefore hstage rfl⟩
  | addRefused hout hrun hcall hhist =>
    have hheld : s'.queue.held (.consumer i) = none := held_eq_none (by rw [hcall]; rfl)
    rw [List.append_assoc] at hhist
    rw [hheld] at hhand hstage
    exact ⟨hthreads _ hhist (by simp) (by rw [hcall]; exact hheld),
      .refusedPostadd rfl hfrom hrun hhand hhist hbefore hstage⟩
  | addAccepted hout hrun hcall hheld hhist =>
    refine ⟨hthreads _ hhist (by simp) ?_, .hooked rfl hfrom hdata hrun ?_ hhist
      ⟨.postadd, .preadded, .postadded, ⟨rfl, rfl, .postadd i, hbefore⟩, ?_⟩⟩
    · rw [hcall, hheld]
      exact ⟨hdata, env, hrun, rfl⟩
    · rw [hhand, hheld]
      rfl
    · rw [hstage, hheld]
      rfl
  | addBlocked hadd | added hadd => cases hadd
  | getBlocked hget | getXblocked hget | taken hget | crashed hget => cases hget

/-- A consumer inside `queue_add`. -/
theorem flow_insideAdd {conf : SystemConf} {s s' : SystemState} {i : Nat}
    {b : QueueAction Thread Nat Table HookEnv} (hok : ThreadsOk conf s)
    (hpc : (s.consumers i).pc = .adding) (hin : Inside s b) (hb : b.thread = .consumer i)
    (hc : s'.consumers = s.consumers) (hp : s'.producers = s.producers)
    (hspares : Spares (.consumer i) s.queue s'.queue)
    (h : FifoStep conf.queue s.queue s'.queue b) :
    ThreadsOk conf s' ∧ FlowStep conf s s' (.queue b) := by
  obtain ⟨hhand, hstage, hthreads⟩ :=
    flow_adding hok (fun _ _ => by rw [hc]) (by rw [hc, hpc]) hp hspares
  have hfrom : s.hand (.consumer i) = s.queue.held (.consumer i) := by
    simp only [SystemState.hand, ConsumerThread.hand, hpc]
  have hbefore : s.stage (.consumer i) =
      (s.queue.held (.consumer i)).map fun _ => .postadded := by
    simp only [SystemState.stage, ConsumerThread.stage, hpc]
  have hframe : AddFrame conf (s.queue.held (.consumer i)) (s.queue.call (.consumer i)) := by
    have hfits := hok.consumer i
    simpa only [ConsumerFits, hpc] using hfits
  -- the message in the wait loop is what the postadd hooks made of the arguments
  have hadding : ∀ {t args p msg}, Adding s.queue t args p msg b → t = .consumer i ∧
      s.queue.held (.consumer i) = some msg ∧ args.data.isSome = true ∧
      ∃ env, (hooklistRun (scriptHooks conf.postadd) env args).accept = true ∧
        msg = (hooklistRun (scriptHooks conf.postadd) env args).msg := by
    intro t args p msg hadd
    obtain rfl : t = .consumer i := hadd.thread_eq.symm.trans hb
    cases hadd with
    | lock hcall hheld | wake hcall hheld =>
      rw [hcall, hheld] at hframe
      obtain ⟨hdata, env, haccept, hmsg⟩ := hframe
      exact ⟨rfl, hheld, hdata, env, haccept, Option.some.inj hmsg⟩
  have hrun : (SystemAction.queue b).hookRun? = none := by
    cases b <;> first | rfl | (cases hb; exact hin.elim)
  -- a consumer is never in `queue_get`
  have hgetting : ∀ {t msg evs} {b' : QueueAction Thread Nat Table HookEnv},
      Getting s.queue t msg evs b' → b'.thread = .consumer i → (∃ t x, b' = .wake t x) → False := by
    intro t msg evs b' hget hb' hwake
    obtain rfl : t = .consumer i := hget.thread_eq.symm.trans hb'
    cases hget with
    | call hout =>
      obtain ⟨t, x, hx⟩ := hwake
      cases hx
    | wait hcall | xwait hcall =>
      rw [hcall] at hframe
      exact hframe
  have hwake : ∀ {t msg evs}, Getting s.queue t msg evs b → False := by
    intro t msg evs hget
    refine hgetting hget hb ?_
    cases hget with
    | call hout => exact hin.elim
    | wait hcall | xwait hcall => exact ⟨_, _, rfl⟩
  cases h with
  | addNoMem | addRefused | addAccepted => exact hin.elim
  | addFailed hcallfrom hcall hhist hmark =>
    obtain rfl : _ = Thread.consumer i := hb
    have hheld : s'.queue.held (.consumer i) = none := held_eq_none (by rw [hcall]; rfl)
    rw [hcallfrom] at hframe
    obtain ⟨hdata, env, haccept, hmsg⟩ := hframe
    rw [hheld] at hhand hstage
    rw [hmsg] at hbefore
    exact ⟨hthreads _ hhist (by simp) (by rw [hcall]; exact hheld), .noMark rfl hcallfrom
      (hmark _ hmsg) hdata haccept (hfrom.trans hmsg) hhand hhist hbefore hstage⟩
  | addBlocked hadd hfull hcall hheld hhist =>
    obtain ⟨rfl, hheld₀, hdata, env, haccept, rfl⟩ := hadding hadd
    refine ⟨hthreads [] (by rw [hhist, List.append_nil]) (by simp) ?_,
      .of_same ?_ hhist ?_ hrun⟩
    · rw [hcall, hheld]
      exact ⟨hdata, env, haccept, rfl⟩
    · rw [hhand, hheld, ← hheld₀, ← hfrom, Function.update_eq_self]
    · rw [hstage, hheld, ← hheld₀, ← hbefore, Function.update_eq_self]
  | added hadd hcall hhist =>
    obtain ⟨rfl, hheld₀, hdata, env, haccept, rfl⟩ := hadding hadd
    have hheld : s'.queue.held (.consumer i) = none := held_eq_none (by rw [hcall]; rfl)
    have hdata' := hooklistRun_data_of_accepted haccept hdata
    rw [hheld] at hhand hstage
    rw [hheld₀] at hbefore
    refine ⟨hthreads _ hhist ?_ (by rw [hcall]; exact hheld),
      .queued (hfrom.trans hheld₀) hdata' hhand hhist hbefore hstage hrun⟩
    intro t msg hmem
    cases List.mem_singleton.mp hmem
    exact hdata'
  | getBlocked hget => exact (hwake hget).elim
  | getXblocked hget => exact (hwake hget).elim
  | taken hget => exact (hwake hget).elim
  | crashed hget => exact (hwake hget).elim
  | timedOut hget => exact (hgetting hget hb ⟨_, _, rfl⟩).elim
  | preget | pregetRefused | counted =>
    obtain rfl : _ = Thread.consumer i := hb
    exact hin.elim

/-- A step of a producer into or inside `queue_get`: its hands hold what was taken for it. -/
theorem flow_getting {conf : SystemConf} {s s' : SystemState} {j : Nat} (hok : ThreadsOk conf s)
    (hc : s'.consumers = s.consumers) (hp : ∀ j', j' ≠ j → s'.producers j' = s.producers j')
    (hpc : (s'.producers j).pc = .getting) (hspares : Spares (.producer j) s.queue s'.queue) :
    s'.hand = Function.update s.hand (.producer j) (s'.queue.call (.producer j)).got ∧
      s'.stage = Function.update s.stage (.producer j) (s'.queue.call (.producer j)).stage ∧
      ∀ evs, s'.queue.history = s.queue.history ++ evs → (∀ t msg, .queued t msg ∉ evs) →
        GetFrame (s'.queue.call (.producer j)) → ThreadsOk conf s' := by
  have hmoves : MovesOnly (.producer j) s s' :=
    ⟨fun _ _ => by rw [hc], fun j' hj' => hp j' fun h => hj' (by rw [h]), hspares⟩
  refine ⟨?_, ?_, fun evs hhist hqueued hframe => ?_⟩
  · have hself : s'.hand (.producer j) = (s'.queue.call (.producer j)).got := by
      simp only [SystemState.hand, ProducerThread.hand, hpc]
    rw [hmoves.hand_eq, hself]
  · have hself : s'.stage (.producer j) = (s'.queue.call (.producer j)).stage := by
      simp only [SystemState.stage, ProducerThread.stage, hpc]
    rw [hmoves.stage_eq, hself]
  · refine hok.of_movesOnly hmoves hhist (fun t msg hmem => absurd hmem (hqueued t msg))
      (by simp) ?_
    rintro j' ⟨⟩
    exact ⟨hframe, fun h => by simp [hpc] at h, fun h => by simp [hpc] at h,
      fun h => by simp [hpc] at h⟩

/-- A producer calls `queue_get` with empty hands, or it is inside. -/
def AtGet (s : SystemState) (j : Nat) (b : QueueAction Thread Nat Table HookEnv) : Prop :=
  (∃ msg alloc, b = .get (.producer j) msg alloc) ∧ s.hand (.producer j) = none ∧
      s.stage (.producer j) = none ∨
    Inside s b ∧ s.hand (.producer j) = (s.queue.call (.producer j)).got ∧
      s.stage (.producer j) = (s.queue.call (.producer j)).stage

/-- The hands of a producer that runs a test of a wait loop are empty, and it writes no event that
concerns a message before. -/
theorem AtGet.getting {s : SystemState} {j : Nat} {b b' : QueueAction Thread Nat Table HookEnv}
    {t : Thread} {msg : Msg} {evs : List (Event Thread Nat Table)} (h : AtGet s j b)
    (hget : Getting s.queue t msg evs b') (hb' : b'.thread = .producer j)
    (hb : b' = b ∨ ∃ t x, b' = .wake t x) :
    t = .producer j ∧ (s.hand (.producer j) = none ∧ s.stage (.producer j) = none) ∧
      (SystemAction.queue b').hookRun? = none ∧
      (∀ e ∈ evs, e.isIdle = true) ∧ ∀ t msg, .queued t msg ∉ evs := by
  obtain rfl : t = .producer j := hget.thread_eq.symm.trans hb'
  refine ⟨rfl, ?_, by cases hget <;> rfl, by cases hget <;> simp [Event.isIdle],
    by cases hget <;> simp⟩
  rcases h with ⟨-, hempty⟩ | ⟨hin, hhand, hstage⟩
  · exact hempty
  · cases hget with
    | call hout =>
      rcases hb with rfl | ⟨_, _, hb⟩
      · exact hin.elim
      · cases hb
    | wait hcall | xwait hcall =>
      rw [hhand, hstage, hcall]
      exact ⟨rfl, rfl⟩

/-- A producer into or inside `queue_get`. -/
theorem flow_get {conf : SystemConf} {s s' : SystemState} {j : Nat}
    {b : QueueAction Thread Nat Table HookEnv} (hok : ThreadsOk conf s)
    (hc : s'.consumers = s.consumers) (hp : ∀ j', j' ≠ j → s'.producers j' = s.producers j')
    (hpc : (s'.producers j).pc = .getting) (hspares : Spares (.producer j) s.queue s'.queue)
    (hb : b.thread = .producer j) (hat : AtGet s j b)
    (h : FifoStep conf.queue s.queue s'.queue b) :
    (s'.queue.crashed = false → ThreadsOk conf s') ∧ FlowStep conf s s' (.queue b) := by
  obtain ⟨hhand, hstage, hthreads⟩ := flow_getting hok hc hp hpc hspares
  have hframe : GetFrame (s.queue.call (.producer j)) := (hok.producer j).frame
  -- a producer is never in `queue_add`
  have hadding : ∀ {t args p msg}, Adding s.queue t args p msg b → False := by
    intro t args p msg hadd
    obtain rfl : t = .producer j := hadd.thread_eq.symm.trans hb
    cases hadd with
    | lock hcall | wake hcall =>
      rw [hcall] at hframe
      exact hframe
  have hsame : ∀ {c : Call Nat Table}, s.hand (.producer j) = none ∧ s.stage (.producer j) = none →
      s'.queue.call (.producer j) = c → c.got = none → c.stage = none →
      s'.hand = s.hand ∧ s'.stage = s.stage := by
    rintro c ⟨hnone, hnone'⟩ rfl hgot hgot'
    rw [hhand, hstage, hgot, hgot']
    nth_rewrite 1 [← hnone]
    rw [← hnone', Function.update_eq_self, Function.update_eq_self]
    exact ⟨rfl, rfl⟩
  have hin : ∀ {env msg}, b = .preget (.producer j) env → s.queue.call (.producer j) = .taken msg →
      s.hand (.producer j) = some msg ∧ s.stage (.producer j) = some .received ∧
        msg.data.isSome = true := by
    rintro env msg rfl hcall
    rw [hcall] at hframe
    rcases hat with ⟨⟨_, _, hget⟩, -⟩ | ⟨-, hgot, hgot'⟩
    · cases hget
    · rw [hgot, hgot', hcall]
      exact ⟨rfl, rfl, hframe⟩
  cases h with
  | addNoMem | addRefused | addAccepted =>
    rcases hat with ⟨⟨_, _, hget⟩, -⟩ | ⟨hin, -⟩
    · cases hget
    · obtain rfl : _ = Thread.producer j := hb
      exact hin.elim
  | addFailed hcall =>
    obtain rfl : _ = Thread.producer j := hb
    rw [hcall] at hframe
    exact hframe.elim
  | addBlocked hadd => exact (hadding hadd).elim
  | added hadd => exact (hadding hadd).elim
  | getBlocked hget hnil hcall hhist =>
    obtain ⟨rfl, hnone, hrun, hidle, hqueued⟩ := hat.getting hget hb (Or.inl rfl)
    obtain ⟨hhand', hstage'⟩ := hsame hnone hcall rfl rfl
    exact ⟨fun _ => hthreads _ hhist hqueued (by rw [hcall]; trivial),
      .idle hidle hhand' hhist hstage' hrun⟩
  | getXblocked hget hxnil hcall hhist =>
    obtain ⟨rfl, hnone, hrun, hidle, hqueued⟩ := hat.getting hget hb (Or.inl rfl)
    obtain ⟨hhand', hstage'⟩ := hsame hnone hcall rfl rfl
    exact ⟨fun _ => hthreads _ hhist hqueued (by rw [hcall]; trivial),
      .idle hidle hhand' hhist hstage' hrun⟩
  | taken hget hsplit hmark hold hrest hcall hhist =>
    obtain ⟨rfl, ⟨hnone, -⟩, hrun, hidle, hqueued⟩ := hat.getting hget hb (Or.inl rfl)
    rw [List.append_assoc] at hhist
    refine ⟨fun _ => hthreads _ hhist ?_ ?_,
      .taken hidle hnone hsplit hmark hold hrest ?_ hhist ?_ hrun⟩
    · intro t msg hmem
      rcases List.mem_append.mp hmem with hmem | hmem
      · exact hqueued t msg hmem
      · simp at hmem
    · rw [hcall]
      exact hok.entries _ (by rw [hsplit]; simp)
    · rw [hhand, hcall]
      rfl
    · rw [hstage, hcall]
      rfl
  | crashed hget hnull hcrash hcall hhist =>
    obtain ⟨-, -, hrun, hidle, -⟩ := hat.getting hget hb (Or.inl rfl)
    exact ⟨fun hcr => by simp [hcrash] at hcr, .crashed hidle hcrash hhist hrun⟩
  | timedOut hget hcall hhist =>
    obtain ⟨rfl, hnone, -⟩ := hat.getting hget hb (Or.inr ⟨_, _, rfl⟩)
    obtain ⟨hhand', hstage'⟩ := hsame hnone hcall rfl rfl
    exact ⟨fun _ => hthreads [] (by rw [hhist, List.append_nil]) (by simp)
      (by rw [hcall]; simp [GetFrame]), .of_same hhand' hhist hstage' rfl⟩
  | preget hfrom hrun hcall hhist =>
    obtain rfl : _ = Thread.producer j := hb
    obtain ⟨hmsg, hbefore, hdata⟩ := hin rfl hfrom
    refine ⟨fun _ => hthreads _ hhist (by simp) (by rw [hcall]; simp [GetFrame]),
      .hooked rfl hmsg hdata hrun ?_ hhist
        ⟨.preget, .received, .pregot, ⟨rfl, rfl, .preget j, hbefore⟩, ?_⟩⟩
    · rw [hhand, hcall]
      rfl
    · rw [hstage, hcall]
      rfl
  | pregetRefused hfrom hrun hcall hhist =>
    obtain rfl : _ = Thread.producer j := hb
    obtain ⟨hmsg, hbefore, -⟩ := hin rfl hfrom
    rw [List.append_assoc] at hhist
    refine ⟨fun _ => hthreads _ hhist (by simp) (by rw [hcall]; simp [GetFrame]),
      .refused rfl hmsg hrun ?_ hhist ⟨⟨.preget, .received, .pregot, rfl, rfl, .preget j, hbefore⟩,
        ?_⟩⟩
    · rw [hhand, hcall]
      rfl
    · rw [hstage, hcall]
      rfl
  | counted =>
    rcases hat with ⟨⟨_, _, hget⟩, -⟩ | ⟨hin, -⟩
    · cases hget
    · obtain rfl : _ = Thread.producer j := hb
      exact hin.elim

/-! ### Steps of the system -/

/-- A step that leaves the threads and the frames alone. -/
theorem flow_idle {conf : SystemConf} {s s' : SystemState} {a : SystemAction}
    {evs : List (Event Thread Nat Table)} (hok : ThreadsOk conf s)
    (hc : s'.consumers = s.consumers) (hp : s'.producers = s.producers)
    (hspares : Spares .stats s.queue s'.queue) (hidle : ∀ e ∈ evs, e.isIdle = true)
    (hhist : s'.queue.history = s.queue.history ++ evs) (hrun : a.hookRun? = none) :
    ThreadsOk conf s' ∧ FlowStep conf s s' a := by
  have hmoves : MovesOnly .stats s s' := ⟨fun _ _ => by rw [hc], fun _ _ => by rw [hp], hspares⟩
  refine ⟨hok.of_movesOnly hmoves hhist (fun t msg hmem => ?_) (by simp) (by simp),
    .idle hidle ?_ hhist ?_ hrun⟩
  · have h := hidle _ hmem
    simp [Event.isIdle] at h
  · rw [hmoves.hand_eq]
    exact Function.update_eq_self _ _
  · rw [hmoves.stage_eq]
    exact Function.update_eq_self _ _

/-- A step inside the queue. -/
theorem flow_inside {conf : SystemConf} {s s' : SystemState}
    {b : QueueAction Thread Nat Table HookEnv} (hok : ThreadsOk conf s) (hin : Inside s b)
    (hc : s'.consumers = s.consumers) (hp : s'.producers = s.producers)
    (hspares : Spares b.thread s.queue s'.queue) (h : FifoStep conf.queue s.queue s'.queue b) :
    (s'.queue.crashed = false → ThreadsOk conf s') ∧ FlowStep conf s s' (.queue b) := by
  cases hb : b.thread with
  | consumer i =>
    have hpc : (s.consumers i).pc = .adding := by
      cases b <;> cases hb <;> first | exact hin | exact hin.elim
    rw [hb] at hspares
    obtain ⟨hthreads, hflow⟩ := flow_insideAdd hok hpc hin hb hc hp hspares h
    exact ⟨fun _ => hthreads, hflow⟩
  | producer j =>
    have hpc : (s.producers j).pc = .getting := by
      cases b <;> cases hb <;> first | exact hin | exact hin.elim
    rw [hb] at hspares
    refine flow_get hok hc (fun _ _ => by rw [hp]) (by rw [hp, hpc]) hspares hb
      (Or.inr ⟨hin, ?_, ?_⟩) h
    · simp only [SystemState.hand, ProducerThread.hand, hpc]
    · simp only [SystemState.stage, ProducerThread.stage, hpc]
  | stats =>
    rw [hb] at hspares
    obtain ⟨c, rfl⟩ : ∃ c, b = .count .stats c := by
      cases b <;> cases hb <;> first | exact ⟨_, rfl⟩ | exact hin.elim
    cases h with
    | counted hout hcall hhist =>
      obtain ⟨hthreads, hflow⟩ := flow_idle (a := .queue (.count .stats c)) hok hc hp hspares
        (by simp [Event.isIdle]) hhist rfl
      exact ⟨fun _ => hthreads, hflow⟩
    | addBlocked hadd | added hadd => cases hadd
    | getBlocked hget | getXblocked hget | taken hget | crashed hget => cases hget

/-- The steps of the consumers outside the queue. -/
theorem flow_consumer {conf : SystemConf} {s s' : SystemState} {a : SystemAction} {i : Nat}
    {c : ConsumerThread} (evs : List (Event Thread Nat Table)) (hok : ThreadsOk conf s)
    (hc : s'.consumers = Function.update s.consumers i c) (hp : s'.producers = s.producers)
    (hq : s'.queue = s.queue.emit evs) (hlocal : ∀ e ∈ evs, e.isLocal = true)
    (hfits : match c.pc with
      | .start | .await => c.msg = Message.init
      | .head | .consume => c.msg.data = none
      | .preadd | .add => c.msg.data.isSome = true
      | .adding => False
      | .exited => True)
    (hflow : s'.hand =
      Function.update s.hand (.consumer i) (c.hand (s.queue.held (.consumer i))) →
        s'.queue.history = s.queue.history ++ evs →
        s'.stage =
          Function.update s.stage (.consumer i) (c.stage (s.queue.held (.consumer i))) →
        FlowStep conf s s' a) :
    (s'.queue.crashed = false → ThreadsOk conf s') ∧ FlowStep conf s s' a := by
  obtain ⟨-, hhand, hstage⟩ := movesOnly_consumer hc hp hq
  exact ⟨fun _ => hok.of_consumer hc hp hq hlocal hfits, hflow hhand (by rw [hq]; rfl) hstage⟩

/-- The steps of the producers outside the queue. -/
theorem flow_producer {conf : SystemConf} {s s' : SystemState} {a : SystemAction} {j : Nat}
    {p : ProducerThread} (evs : List (Event Thread Nat Table)) (hok : ThreadsOk conf s)
    (hc : s'.consumers = s.consumers) (hp : s'.producers = Function.update s.producers j p)
    (hq : s'.queue = s.queue.emit evs) (hlocal : ∀ e ∈ evs, e.isLocal = true)
    (hdata : p.pc = .postget → p.msg.data.isSome = true)
    (hprod : p.pc = .callback → .produced (.producer j) p.msg ∈ s.queue.history ++ evs)
    (hrel : p.pc = .release → p.msg.envelope = none)
    (hflow : s'.hand =
      Function.update s.hand (.producer j) (p.hand (s.queue.call (.producer j)).got) →
        s'.queue.history = s.queue.history ++ evs →
        s'.stage =
          Function.update s.stage (.producer j) (p.stage (s.queue.call (.producer j)).stage) →
        FlowStep conf s s' a) :
    (s'.queue.crashed = false → ThreadsOk conf s') ∧ FlowStep conf s s' a := by
  obtain ⟨-, hhand, hstage⟩ := movesOnly_producer hc hp hq
  exact ⟨fun _ => hok.of_producer hc hp hq hlocal hdata hprod hrel,
    hflow hhand (by rw [hq]; rfl) hstage⟩

/-- After `metadata_callback_run` the message has no record any more. -/
theorem callbackRun_envelope {t : Thread} {msg msg' : Msg} {stored : Bool}
    {evs : List (Event Thread Nat Table)} (h : callbackRun t msg stored = some (msg', evs)) :
    msg'.envelope = none := by
  unfold callbackRun at h
  split at h
  · rename_i hnone
    cases h
    simp [Message.envelope, hnone]
  · rename_i tbl htbl
    split at h
    · rename_i hnone
      cases h
      simp [Message.envelope, htbl, hnone]
    · split at h
      · cases h
        rfl
      · cases h

/-- A producer comes back from `queue_get`. -/
theorem flow_getReturned {conf : SystemConf} {s s' : SystemState} {a : SystemAction} {j : Nat}
    {msg : Msg} {ret : Errno} (hok : ThreadsOk conf s) (hpc : (s.producers j).pc = .getting)
    (hcall : s.queue.call (.producer j) = .getReturned msg ret) (hc : s'.consumers = s.consumers)
    (hp : s'.producers = Function.update s.producers j
      ⟨if ret = .etimedout ∨ ret = .ebadmsg then .head
        else if msg.data.isSome then .postget else .head, msg, ret⟩)
    (hq : s'.queue = s.queue.emit []) (hrun : a.hookRun? = none) :
    (s'.queue.crashed = false → ThreadsOk conf s') ∧ FlowStep conf s s' a := by
  have hframe : ret ≠ .enomem := by
    have h := (hok.producer j).frame
    rwa [hcall] at h
  have hgot : s.hand (.producer j) = (Call.getReturned msg ret).got := by
    simp only [SystemState.hand, ProducerThread.hand, hpc, hcall]
  have hbefore : s.stage (.producer j) = (Call.getReturned msg ret).stage := by
    simp only [SystemState.stage, ProducerThread.stage, hpc, hcall]
  refine flow_producer [] hok hc hp hq (by simp) ?_ ?_ ?_ fun hhand hhist hstage => ?_
  · intro hpc'
    by_contra hdata
    simp [hdata] at hpc'
  · intro hpc'
    split at hpc' <;> (try split at hpc') <;> cases hpc'
  · intro hpc'
    split at hpc' <;> (try split at hpc') <;> cases hpc'
  · rw [List.append_nil] at hhist
    have hsame : ∀ m st, s'.hand = Function.update s.hand (.producer j) m →
        s'.stage = Function.update s.stage (.producer j) st →
        s.hand (.producer j) = m → s.stage (.producer j) = st → FlowStep conf s s' a := by
      rintro m st hhand hstage rfl rfl
      exact .of_same (by rw [hhand, Function.update_eq_self]) hhist
        (by rw [hstage, Function.update_eq_self]) hrun
    by_cases hret : ret = .etimedout ∨ ret = .ebadmsg
    · rw [if_pos hret] at hhand hstage
      refine hsame none none hhand hstage (hgot.trans ?_) (hbefore.trans ?_)
      all_goals rcases hret with rfl | rfl <;> rfl
    · obtain rfl : ret = .ok := by
        cases ret with
        | ok => rfl
        | enomem => exact absurd rfl hframe
        | ebadmsg => exact absurd (Or.inr rfl) hret
        | etimedout => exact absurd (Or.inl rfl) hret
      rw [if_neg hret] at hhand hstage
      cases hdata : msg.data with
      | some d =>
        rw [hdata] at hhand hstage
        exact hsame (some msg) (some .pregot) hhand hstage hgot hbefore
      | none =>
        rw [hdata] at hhand hstage
        exact .forget hgot hdata hhand hhist hstage hrun

/-- Every step of the system is a step of the flow of messages, and points and frames fit as long as
the process is there. -/
theorem SystemStep.flow {conf : SystemConf} {s s' : SystemState} {a : SystemAction} {ps : List Ptr}
    (hok : ThreadsOk conf s) (hinv : QueueInv s.queue ps) (h : SystemStep conf s a s') :
    (s'.queue.crashed = false → ThreadsOk conf s') ∧ FlowStep conf s s' a := by
  have hnil : s.queue = s.queue.emit [] := s.queue.emit_nil.symm
  have hfits := hok.consumer
  cases h with
  | @consumerInit i ok hpc =>
    refine flow_consumer [] hok rfl rfl hnil (by simp) ?_ fun hhand hhist hstage =>
      .of_update hhand ?_ hhist hstage ((s.stage_consumer (by simp [hpc])).trans ?_) rfl
    · cases ok <;> trivial
    · cases ok <;> simp [SystemState.hand, ConsumerThread.hand, hpc]
    · cases ok <;> rfl
  | @await i hpc =>
    have hinit : (s.consumers i).msg = Message.init := by
      simpa only [ConsumerFits, hpc] using hfits i
    have hbefore : s.stage (.consumer i) = none := s.stage_consumer (by simp [hpc])
    refine flow_consumer [] hok rfl rfl hnil (by simp) ?_ fun hhand hhist hstage =>
      .appear ?_ ?_ hhand (by rw [hhist, List.append_nil]) hbefore
        (SystemState.stage_eq_of_update hstage hbefore) rfl
    · rw [hinit]
      rfl
    · rw [hinit]
      exact ⟨rfl, rfl⟩
    · simp [SystemState.hand, ConsumerThread.hand, hpc]
  | @consumerHead i hpc =>
    have hdata : (s.consumers i).msg.data = none := by
      simpa only [ConsumerFits, hpc] using hfits i
    have hfrom := s.hand_consumer (i := i) (by simp [hpc])
    cases s.consumeState with
    | true =>
      exact flow_consumer [] hok rfl rfl hnil (by simp) hdata fun hhand hhist hstage =>
        .of_update hhand hfrom hhist hstage (s.stage_consumer (by simp [hpc])) rfl
    | false =>
      exact flow_consumer [] hok rfl rfl hnil (by simp) trivial fun hhand hhist hstage =>
        .forget hfrom hdata hhand (by rw [hhist, List.append_nil]) hstage rfl
  | @consumeFail i r hpc =>
    have hdata : (s.consumers i).msg.data = none := by
      simpa only [ConsumerFits, hpc] using hfits i
    have hfrom := s.hand_consumer (i := i) (by simp [hpc])
    exact flow_consumer [] hok rfl rfl hnil (by simp) trivial fun hhand hhist hstage =>
      .forget hfrom hdata hhand (by rw [hhist, List.append_nil]) hstage rfl
  | @consume i r msg evs hpc hr hmsg =>
    have hdata : (s.consumers i).msg.data = none := by
      simpa only [ConsumerFits, hpc] using hfits i
    have hfrom := s.hand_consumer (i := i) (by simp [hpc])
    refine flow_consumer evs hok rfl rfl rfl (isLocal_consumeMsg hmsg) ?_ fun hhand hhist hstage =>
      .consumed hfrom hdata hr hmsg (hhand.trans ?_) hhist (s.stage_consumer (by simp [hpc]))
        (hstage.trans ?_) rfl
    all_goals cases msg.data <;> rfl
  | @preadd i env r hpc hr haccept =>
    subst hr
    have hdata : (s.consumers i).msg.data.isSome = true := by
      simpa only [ConsumerFits, hpc] using hfits i
    have hfrom := s.hand_consumer (i := i) (by simp [hpc])
    have hbefore : s.stage (.consumer i) = some .fresh := by
      simp only [SystemState.stage, ConsumerThread.stage, hpc]
    exact flow_consumer _ hok rfl rfl rfl (isLocal_effects _ _)
      (hooklistRun_data_of_accepted haccept hdata) fun hhand hhist hstage =>
        .hooked rfl hfrom hdata haccept hhand hhist
          ⟨.preadd, .fresh, .preadded, ⟨rfl, rfl, .preadd i, hbefore⟩, hstage⟩
  | @preaddRefused i env r hpc hr haccept =>
    subst hr
    have hfrom := s.hand_consumer (i := i) (by simp [hpc])
    have hbefore : s.stage (.consumer i) = some .fresh := by
      simp only [SystemState.stage, ConsumerThread.stage, hpc]
    exact flow_consumer _ hok rfl rfl rfl (isLocal_refused _ _ _)
      (hooklistRun_data_of_refused haccept) fun hhand hhist hstage =>
        .refusedPreadd rfl hfrom haccept hhand hhist hbefore hstage
  | @addReturned i args ret hpc hcall =>
    have hheld : s.queue.held (.consumer i) = none := held_eq_none (by rw [hcall]; rfl)
    have hbefore : s.stage (.consumer i) = none := by
      simp only [SystemState.stage, ConsumerThread.stage, hpc, hheld, Option.map_none]
    refine flow_consumer [] hok rfl rfl hnil (by simp) rfl fun hhand hhist hstage =>
      .appear ⟨rfl, rfl⟩ ?_ hhand (by rw [hhist, List.append_nil]) hbefore
        (SystemState.stage_eq_of_update hstage hbefore) rfl
    simp only [SystemState.hand, ConsumerThread.hand, hpc, hheld]
  | @enterAdd i newmsg env q hpc hq =>
    obtain ⟨⟨-, hspares⟩, hfifo⟩ := hinv.step (queueStep_of_step hq).2
    refine (?_ : ThreadsOk _ _ ∧ _).imp (fun h _ => h) id
    exact flow_enterAdd hok hpc (fun i' hi' => Function.update_of_ne hi' _ _)
      (by simp [SystemState.setConsumer]) rfl hspares hfifo
  | @enterGet j alloc q hpc hq =>
    obtain ⟨⟨-, hspares⟩, hfifo⟩ := hinv.step (queueStep_of_step hq).2
    refine flow_get hok rfl (fun j' hj' => Function.update_of_ne hj' _ _)
      (by simp [SystemState.setProducer]) hspares rfl (Or.inl ⟨⟨_, _, rfl⟩, ?_, ?_⟩) hfifo
    · simp only [SystemState.hand, ProducerThread.hand, hpc]
    · simp only [SystemState.stage, ProducerThread.stage, hpc]
  | inside hin hq =>
    obtain ⟨⟨-, hspares⟩, hfifo⟩ := hinv.step (queueStep_of_step hq).2
    exact flow_inside hok hin rfl rfl hspares hfifo
  | @producerInit j hpc =>
    refine flow_producer [] hok rfl rfl hnil (by simp) (by simp) (by simp) (by simp)
      fun hhand hhist hstage =>
        .of_update hhand ?_ hhist hstage (s.stage_producer (by simp [hpc])) rfl
    simp [SystemState.hand, ProducerThread.hand, hpc]
  | @producerInitFail j hpc | @producerExit j hpc hret | @producerHead j hpc =>
    refine flow_producer [] hok rfl rfl hnil (by simp) (by simp) (by simp) (by simp)
      fun hhand hhist hstage =>
        .of_update hhand ?_ hhist hstage (s.stage_producer (by simp [hpc])) rfl
    simp [SystemState.hand, ProducerThread.hand, hpc]
  | getReturned hpc hcall => exact flow_getReturned hok hpc hcall rfl rfl hnil rfl
  | @postget j env r hpc hr haccept =>
    subst hr
    have hfrom := s.hand_producer (j := j) (by simp [hpc])
    have hbefore : s.stage (.producer j) = some .pregot := by
      simp only [SystemState.stage, ProducerThread.stage, hpc]
    exact flow_producer _ hok rfl rfl rfl (isLocal_effects _ _) (by simp) (by simp) (by simp)
      fun hhand hhist hstage => .hooked rfl hfrom ((hok.producer j).data hpc) haccept hhand hhist
        ⟨.postget, .pregot, .postgot, ⟨rfl, rfl, .postget j, hbefore⟩, hstage⟩
  | @postgetRefused j env r hpc hr haccept =>
    subst hr
    have hfrom := s.hand_producer (j := j) (by simp [hpc])
    have hbefore : s.stage (.producer j) = some .pregot := by
      simp only [SystemState.stage, ProducerThread.stage, hpc]
    exact flow_producer _ hok rfl rfl rfl (isLocal_refused _ _ _) (by simp) (by simp) (by simp)
      fun hhand hhist hstage => .refused rfl hfrom haccept hhand hhist
        ⟨⟨.postget, .pregot, .postgot, rfl, rfl, .postget j, hbefore⟩, hstage⟩
  | @produce j hpc =>
    have hfrom := s.hand_producer (j := j) (by simp [hpc])
    have hbefore : s.stage (.producer j) = some .postgot := by
      simp only [SystemState.stage, ProducerThread.stage, hpc]
    refine flow_producer _ hok rfl rfl rfl (by simp [Event.isLocal]) (by simp) (by simp) (by simp)
      fun hhand hhist hstage => .produced hfrom (hhand.trans ?_) hhist hbefore hstage rfl
    rw [ProducerThread.hand, ← hfrom, Function.update_eq_self]
  | @callbackAbort j hpc =>
    exact ⟨fun hcr => by simp at hcr, .crashed (List.forall_mem_nil _) rfl (by simp) rfl⟩
  | @callback j stored msg evs hpc hmsg =>
    have hfrom := s.hand_producer (j := j) (by simp [hpc])
    have hbefore : s.stage (.producer j) = none := s.stage_producer (by simp [hpc])
    exact flow_producer _ hok rfl rfl rfl (isLocal_callbackRun hmsg) (by simp) (by simp)
      (fun _ => callbackRun_envelope hmsg) fun hhand hhist hstage =>
        .callback hfrom ((hok.producer j).produced hpc) hmsg hhand hhist hbefore
          (SystemState.stage_eq_of_update hstage hbefore) rfl
  | @release j hpc =>
    have hfrom := s.hand_producer (j := j) (by simp [hpc])
    have hbefore : s.stage (.producer j) = none := s.stage_producer (by simp [hpc])
    exact flow_producer _ hok rfl rfl rfl (isLocal_effects _ _) (by simp) (by simp) (by simp)
      fun hhand hhist hstage => .released hfrom ((hok.producer j).settled hpc) hhand hhist hbefore
        (SystemState.stage_eq_of_update hstage hbefore) rfl
  | stop | joinConsumers | joinProducers =>
    refine (?_ : ThreadsOk _ _ ∧ _).imp (fun h _ => h) id
    exact flow_idle hok rfl rfl ⟨fun _ _ => rfl, fun _ _ _ _ => rfl⟩ (List.forall_mem_nil _)
      (List.append_nil _).symm rfl

/-- The threads have not started. -/
theorem threadsOk_init (conf : SystemConf) :
    ThreadsOk conf (SystemState.init conf) ∧ (SystemState.init conf).hand = (fun _ => none) ∧
      (SystemState.init conf).stage = fun _ => none := by
  refine ⟨⟨fun i => ?_, fun j => ⟨trivial, ?_, ?_, ?_⟩, fun e he => nomatch he⟩, ?_, ?_⟩
  · by_cases hi : i < conf.consumers <;> simp [ConsumerFits, SystemState.init, hi]
  · by_cases hj : j < conf.marks.length <;> simp [SystemState.init, hj]
  · by_cases hj : j < conf.marks.length <;> simp [SystemState.init, hj]
  · by_cases hj : j < conf.marks.length <;> simp [SystemState.init, hj]
  · funext t
    cases t with
    | consumer i => by_cases hi : i < conf.consumers <;>
        simp [SystemState.hand, ConsumerThread.hand, SystemState.init, hi]
    | producer j => by_cases hj : j < conf.marks.length <;>
        simp [SystemState.hand, ProducerThread.hand, SystemState.init, hj]
    | stats => rfl
  · funext t
    cases t with
    | consumer i => by_cases hi : i < conf.consumers <;>
        simp [SystemState.stage, ConsumerThread.stage, SystemState.init, hi]
    | producer j => by_cases hj : j < conf.marks.length <;>
        simp [SystemState.stage, ProducerThread.stage, SystemState.init, hj]
    | stats => rfl

/-- Induction along a run of the system, by what its steps do to the messages. -/
theorem flow_induction {conf : SystemConf} {P : List SystemAction → SystemState → Prop}
    (hinit : P [] (SystemState.init conf))
    (hstep : ∀ acts s a s', exec (SystemState.step conf) (SystemState.init conf) acts = some s →
      s.step conf a = some s' → P acts s → s.queue.crashed = false → ThreadsOk conf s →
        FlowStep conf s s' a → HandlesFresh s'.queue.history → P (acts ++ [a]) s')
    {acts : List SystemAction} {s : SystemState}
    (h : exec (SystemState.step conf) (SystemState.init conf) acts = some s) : P acts s := by
  have hrun : P acts s ∧ (s.queue.crashed = false → ThreadsOk conf s) := by
    refine exec_induction (P := fun acts s => P acts s ∧
      (s.queue.crashed = false → ThreadsOk conf s))
      ⟨hinit, fun _ => (threadsOk_init conf).1⟩ ?_ h
    rintro acts s a s' hexec ⟨hP, hok⟩ hst
    obtain ⟨hcr, hsys, hfresh⟩ := systemStep_of_step hst
    obtain ⟨ps, hinv⟩ := queueInv_of_system_exec hexec
    obtain ⟨hok', hflow⟩ := hsys.flow (hok hcr) hinv
    exact ⟨hstep acts s a s' hexec hst hP hcr (hok hcr) hflow hfresh, hok'⟩
  exact hrun.1

end Schaufel
