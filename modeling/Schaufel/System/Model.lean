import Mathlib.Data.List.Nodup
import Schaufel.Queue.Model
import Schaufel.System.Hooks

/-!
# The threads of `src/main.c`

The system consists of the `consume` and `produce` threads, the queue they share, the two flags and
`main`, which joins the consumers, clears `consume_state` and joins the producers.  The stop signal
may arrive at any moment.

A thread is at one of the points of its loop (`ConsumerPc`, `ProducerPc`); inside the queue it is in
one of the frames of the queue model.  As in the queue model, an action names the thread together
with every choice the environment makes: what `consumer_consume` returns, what the hooks do, whether
an initialisation or a store of an offset succeeds.

A handle stands for one allocation.  A step that allocates a handle a second time is therefore not a
step of the system: `SystemState.step` ends with that check.
-/

namespace Schaufel

/-- The threads that use the queue. -/
inductive Thread
  | consumer (i : Nat)
  | producer (j : Nat)
  | stats
  deriving DecidableEq, Repr

/-- The points of `consume`. -/
inductive ConsumerPc
  /-- Before `consumer_init`. -/
  | start
  /-- Waiting for the first producer. -/
  | await
  /-- At the test of `consume_state`. -/
  | head
  /-- Before `consumer_consume`. -/
  | consume
  /-- Before the preadd hooks. -/
  | preadd
  /-- Before `queue_add`. -/
  | add
  /-- Inside `queue_add`. -/
  | adding
  | exited
  deriving DecidableEq, Repr

/-- The points of `produce`. -/
inductive ProducerPc
  /-- Before `producer_init`. -/
  | start
  /-- At the exit test. -/
  | head
  /-- Before `queue_get`. -/
  | get
  /-- Inside `queue_get`. -/
  | getting
  /-- Before the postget hooks. -/
  | postget
  /-- Before `producer_produce`. -/
  | produce
  /-- Before `metadata_callback_run`. -/
  | callback
  /-- Before the message is freed. -/
  | release
  | exited
  deriving DecidableEq, Repr

/-- The points of `main` behind the creation of the threads. -/
inductive MainPc
  | joinConsumers
  | joinProducers
  | done
  deriving DecidableEq, Repr

/-- A `consume` thread with its message. -/
structure ConsumerThread where
  pc : ConsumerPc
  msg : Msg
  deriving DecidableEq, Repr

/-- A `produce` thread with its message and the variable `ret`. -/
structure ProducerThread where
  pc : ProducerPc
  msg : Msg
  ret : Errno
  deriving DecidableEq, Repr

/-- The configuration: the number of consumer threads and which of them are transactional, the
`xmark` of every producer thread and the lengths of the hook lists. -/
structure SystemConf where
  consumers : Nat
  transactional : Nat → Bool
  marks : List UInt32
  postadd : Nat
  preget : Nat
  preadd : Nat → Nat
  postget : Nat → Nat

/-- The hook lists of the queue. -/
def SystemConf.queue (conf : SystemConf) : QueueConf Nat Table HookEnv :=
  ⟨scriptHooks conf.postadd, scriptHooks conf.preget⟩

/-- The state of the process. -/
structure SystemState where
  queue : QueueState Thread Nat Table
  consumeState : Bool
  produceState : Bool
  consumers : Nat → ConsumerThread
  producers : Nat → ProducerThread
  main : MainPc

/-- What a call of `consumer_consume` does. -/
inductive ConsumeResult
  /-- It returns -1. -/
  | fail
  /-- It returns 0 and leaves the message alone. -/
  | nothing
  /-- It sets a new buffer. -/
  | data (buf : Nat) (len : Nat)
  /-- `kafka_transactional_consumer_consume`: it sets the payload of a record and files the record;
  `table` is the handle of a new metadata table, if one is needed. -/
  | record (part offset : Nat) (payload : Option Nat) (len : Nat) (table : Nat)
  deriving DecidableEq, Repr

/-- Only a transactional consumer files records, and it hands out nothing else. -/
def ConsumeResult.fits (transactional : Bool) : ConsumeResult → Bool
  | .fail | .nothing => true
  | .data .. => !transactional
  | .record .. => transactional

/-- What happens next. -/
inductive SystemAction
  | consumerInit (i : Nat) (ok : Bool)
  | await (i : Nat)
  | consumerHead (i : Nat)
  | consume (i : Nat) (r : ConsumeResult)
  | preadd (i : Nat) (env : HookEnv)
  /-- A thread inside the queue. -/
  | queue (a : QueueAction Thread Nat Table HookEnv)
  | addReturned (i : Nat)
  | producerInit (j : Nat) (ok : Bool)
  | producerHead (j : Nat)
  | getReturned (j : Nat)
  | postget (j : Nat) (env : HookEnv)
  | produce (j : Nat)
  /-- `metadata_callback_run`; `stored` says whether `rd_kafka_offset_store` succeeds. -/
  | callback (j : Nat) (stored : Bool)
  | release (j : Nat)
  /-- The stop signal. -/
  | stop
  | joinConsumers
  | joinProducers
  deriving DecidableEq, Repr

/-! ### Consuming -/

/-- `kafka_transactional_consumer_consume` inserts into the table of the message, or into a new
one. -/
def fileRecord (msg : Msg) (env : Envelope) (table : Nat) : Table × List (Effect Nat Table) :=
  match msg.metadata with
  | none => (⟨table, some env⟩,
      [.newMeta ⟨table, some env⟩, .useMeta ⟨table, some env⟩, .useMeta ⟨table, some env⟩])
  | some t => (⟨t.id, some env⟩, [.useMeta ⟨t.id, some env⟩, .useMeta ⟨t.id, some env⟩])

/-- The message after `consumer_consume` and what is written to the history; `none` is the return
value -1. -/
def consumeMsg (t : Thread) (msg : Msg) :
    ConsumeResult → Option (Msg × List (Event Thread Nat Table))
  | .fail => none
  | .nothing => some (msg, [])
  | .data buf len =>
    let msg' := { msg with data := some buf, datalen := len }
    some (msg', [.effect t (.newData buf), .consumed t msg'])
  | .record part offset payload len table =>
    let r := fileRecord msg ⟨part, offset, payload⟩ table
    let msg' := { msg with data := payload, datalen := len, metadata := some r.1 }
    some (msg', payload.toList.map (fun d => .effect t (.newData d)) ++ r.2.map (.effect t) ++
      [.consumed t msg'])

/-! ### Releasing -/

/-- `metadata_callback_run` on a message: the message afterwards and what is written to the history.
The callback of a transactional consumer stores the offset and destroys the record, whose payload is
gone with it; `none` is the abort after a failed store. -/
def callbackRun (t : Thread) (msg : Msg) (stored : Bool) :
    Option (Msg × List (Event Thread Nat Table)) :=
  match msg.metadata with
  | none => some (msg, [])
  | some tbl =>
    match tbl.envelope with
    | none => some (msg, [.effect t (.useMeta tbl)])
    | some env =>
      if stored then
        some ({ msg with data := none, metadata := some ⟨tbl.id, none⟩ },
          [.effect t (.useMeta tbl), .effect t (.useMeta tbl), .stored t msg] ++
            env.payload.toList.map fun d => .effect t (.freeData d))
      else none

namespace SystemState

/-- The configured threads are about to start, and consuming is allowed. -/
def init (conf : SystemConf) : SystemState where
  queue := QueueState.init
  consumeState := true
  produceState := false
  consumers i := ⟨if i < conf.consumers then .start else .exited, Message.init⟩
  producers j := ⟨if j < conf.marks.length then .start else .exited, Message.init, .ok⟩
  main := .joinConsumers

/-- Write to the history. -/
def emit (s : SystemState) (es : List (Event Thread Nat Table)) : SystemState :=
  { s with queue := s.queue.emit es }

/-- A consumer continues. -/
def setConsumer (s : SystemState) (i : Nat) (c : ConsumerThread) : SystemState :=
  { s with consumers := Function.update s.consumers i c }

/-- A producer continues. -/
def setProducer (s : SystemState) (j : Nat) (p : ProducerThread) : SystemState :=
  { s with producers := Function.update s.producers j p }

/-- Whether the threads are at a point from which the action of the queue can happen, and where they
are afterwards. -/
def enter (s : SystemState) : QueueAction Thread Nat Table HookEnv → Option SystemState
  | .add (.consumer i) args _ _ =>
    if (s.consumers i).pc = .add ∧ args = (s.consumers i).msg then
      some (s.setConsumer i ⟨.adding, args⟩)
    else none
  | .lock (.consumer i) _ | .wake (.consumer i) _ =>
    if (s.consumers i).pc = .adding then some s else none
  | .get (.producer j) msg _ =>
    if (s.producers j).pc = .get ∧ msg = (s.producers j).msg then
      some (s.setProducer j ⟨.getting, msg, (s.producers j).ret⟩)
    else none
  | .wake (.producer j) _ | .preget (.producer j) _ =>
    if (s.producers j).pc = .getting then some s else none
  | .count .stats _ => some s
  | _ => none

/-- One step of a system, up to the check of the handles. -/
def act (conf : SystemConf) (s : SystemState) : SystemAction → Option SystemState
  | .consumerInit i ok =>
    if (s.consumers i).pc = .start then
      some (s.setConsumer i ⟨if ok then .await else .exited, Message.init⟩)
    else none
  | .await i =>
    if (s.consumers i).pc = .await ∧ s.produceState = true then
      some (s.setConsumer i ⟨.head, (s.consumers i).msg⟩)
    else none
  | .consumerHead i =>
    if (s.consumers i).pc = .head then
      some (s.setConsumer i ⟨if s.consumeState then .consume else .exited, (s.consumers i).msg⟩)
    else none
  | .consume i r =>
    if (s.consumers i).pc = .consume ∧ r.fits (conf.transactional i) then
      match consumeMsg (.consumer i) (s.consumers i).msg r with
      | none => some (s.setConsumer i ⟨.exited, (s.consumers i).msg⟩)
      | some (msg, evs) =>
        some ((s.emit evs).setConsumer i ⟨if msg.data.isSome then .preadd else .head, msg⟩)
    else none
  | .preadd i env =>
    if (s.consumers i).pc = .preadd then
      let msg := (s.consumers i).msg
      let r := hooklistRun (scriptHooks (conf.preadd i)) env msg
      let evs := r.effects.map (.effect (.consumer i))
      if r.accept then some ((s.emit evs).setConsumer i ⟨.add, r.msg⟩)
      else some ((s.emit (evs ++ [.discarded (.consumer i) msg])).setConsumer i ⟨.head, r.msg⟩)
    else none
  | .queue a =>
    (s.enter a).bind fun s' =>
      (s'.queue.step conf.queue a).map fun q => { s' with queue := q }
  | .addReturned i =>
    match s.queue.call (.consumer i) with
    | .addReturned _ _ =>
      if (s.consumers i).pc = .adding then
        some (s.setConsumer i ⟨.head, { (s.consumers i).msg with data := none, metadata := none }⟩)
      else none
    | _ => none
  | .producerInit j ok =>
    if (s.producers j).pc = .start then
      if ok then
        some ({ s with produceState := true }.setProducer j
          ⟨.head, { Message.init with xmark := Int64.ofNat (conf.marks.getD j 0).toNat }, .ok⟩)
      else some (s.setProducer j ⟨.exited, Message.init, .ok⟩)
    else none
  | .producerHead j =>
    let p := s.producers j
    if p.pc = .head then
      some (s.setProducer j
        { p with pc := if s.consumeState = false ∧ p.ret = .etimedout then .exited else .get })
    else none
  | .getReturned j =>
    match s.queue.call (.producer j) with
    | .getReturned msg ret =>
      if (s.producers j).pc = .getting then
        some (s.setProducer j
          ⟨if ret = .etimedout ∨ ret = .ebadmsg then .head
            else if msg.data.isSome then .postget else .head, msg, ret⟩)
      else none
    | _ => none
  | .postget j env =>
    let p := s.producers j
    if p.pc = .postget then
      let r := hooklistRun (scriptHooks (conf.postget j)) env p.msg
      let evs := r.effects.map (.effect (.producer j))
      if r.accept then some ((s.emit evs).setProducer j { p with pc := .produce, msg := r.msg })
      else some ((s.emit (evs ++ [.discarded (.producer j) p.msg])).setProducer j
        { p with pc := .head, msg := r.msg })
    else none
  | .produce j =>
    let p := s.producers j
    if p.pc = .produce then
      some ((s.emit [.produced (.producer j) p.msg]).setProducer j { p with pc := .callback })
    else none
  | .callback j stored =>
    let p := s.producers j
    if p.pc = .callback then
      match callbackRun (.producer j) p.msg stored with
      | none => some { s with queue := { s.queue with crashed := true } }
      | some (msg, evs) => some ((s.emit evs).setProducer j { p with pc := .release, msg := msg })
    else none
  | .release j =>
    let p := s.producers j
    if p.pc = .release then
      some ((s.emit (p.msg.release.map (.effect (.producer j)))).setProducer j
        { p with pc := .head, msg := { p.msg with data := none } })
    else none
  | .stop => some { s with consumeState := false }
  | .joinConsumers =>
    if s.main = .joinConsumers ∧ ∀ i < conf.consumers, (s.consumers i).pc = .exited then
      some { s with consumeState := false, main := .joinProducers }
    else none
  | .joinProducers =>
    if s.main = .joinProducers ∧ ∀ j < conf.marks.length, (s.producers j).pc = .exited then
      some { s with produceState := false, main := .done }
    else none

end SystemState

/-! ### Handles -/

/-- The buffers a history has allocated. -/
def allocatedData (history : List (Event Thread Nat Table)) : List Nat :=
  history.filterMap fun
    | .effect _ (.newData d) => some d
    | _ => none

/-- The metadata tables a history has allocated. -/
def allocatedTables (history : List (Event Thread Nat Table)) : List Nat :=
  history.filterMap fun
    | .effect _ (.newMeta t) => some t.id
    | _ => none

/-- Every handle stands for one allocation. -/
def HandlesFresh (history : List (Event Thread Nat Table)) : Prop :=
  (allocatedData history).Nodup ∧ (allocatedTables history).Nodup

instance (history : List (Event Thread Nat Table)) : Decidable (HandlesFresh history) :=
  inferInstanceAs (Decidable (_ ∧ _))

/-- One step of the system. -/
def SystemState.step (conf : SystemConf) (s : SystemState) (a : SystemAction) :
    Option SystemState :=
  if s.queue.crashed then none
  else (s.act conf a).filter fun s' => HandlesFresh s'.queue.history

end Schaufel
