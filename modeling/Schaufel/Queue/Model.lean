import Mathlib.Logic.Function.Basic
import Schaufel.Queue.Bintree
import Schaufel.Queue.Message

/-!
# The queue of `src/queue.c`

The first part is the memory of a queue: the `struct Queue`, the tree of its `struct Xmark`s and the
heap of list nodes.  Every node sits in two lists at once, the doubly linked list of the queue and
the `xnext` list of its mark.  Dereferencing an address that holds no node is undefined behaviour in
the source; the operations on the memory return `none` there.

The second part is the concurrent system.  The mutex of the queue is held from the lock to the
unlock or to the next wait on a condition variable, so one step of a thread is the code between two
releases of the mutex.  `Call` is the frame of a thread inside `queue_add` or `queue_get` at such a
release, and an `Action` names the thread together with everything the environment decides: the
address `calloc` returns, whether an allocation succeeds, whether a wait ends by a timeout.  A wait
may end at any time, since condition variables have spurious wake-ups.  When the second `calloc` of
`message_list_init` fails the source dereferences its null result and the process is gone; a run of
the model simply ends before that call.
-/

namespace Schaufel

/-- The return values of `queue_add` and `queue_get`. -/
inductive Errno
  | ok
  | enomem
  | ebadmsg
  | etimedout
  deriving DecidableEq, Repr

/-- The address of a list node; the null pointer is `none : Option Ptr`. -/
abbrev Ptr := Nat

/-- `MAX_QUEUE_SIZE` of `src/queue.h`. -/
def maxQueueSize : Int := 100000

/-- `struct MessageList`. -/
structure MessageList (δ μ : Type) where
  msg : Message δ μ
  next : Option Ptr
  prev : Option Ptr
  xnext : Option Ptr
  deriving DecidableEq, Repr

/-- The list nodes in memory. -/
abbrev Heap (δ μ : Type) := Ptr → Option (MessageList δ μ)

/-- Assign to a field of the node at `p`. -/
def assign {δ μ : Type} (h : Heap δ μ) (p : Ptr) (f : MessageList δ μ → MessageList δ μ) :
    Option (Heap δ μ) :=
  (h p).map fun n => Function.update h p (some (f n))

/-- `struct Xmark`; its condition variables are part of the frames of the waiting threads. -/
structure Xmark where
  first : Option Ptr
  last : Option Ptr
  count : Int
  deriving DecidableEq, Repr

/-- `struct Queue` together with the heap its pointers lead into. -/
structure Queue (δ μ : Type) where
  length : Int
  added : Int
  delivered : Int
  first : Option Ptr
  last : Option Ptr
  xtree : List (Node Xmark)
  heap : Heap δ μ

namespace Queue

variable {δ μ : Type}

/-- The queue as `queue_init` leaves it. -/
def init : Queue δ μ := ⟨0, 0, 0, none, none, [], fun _ => none⟩

/-- Write a node. -/
def store (q : Queue δ μ) (p : Ptr) (n : MessageList δ μ) : Queue δ μ :=
  { q with heap := Function.update q.heap p (some n) }

/-- `message_list_free`. -/
def free (q : Queue δ μ) (p : Ptr) : Queue δ μ :=
  { q with heap := Function.update q.heap p none }

/-- Assign to a field of the node at `p`. -/
def modifyNode (q : Queue δ μ) (p : Ptr) (f : MessageList δ μ → MessageList δ μ) :
    Option (Queue δ μ) :=
  (assign q.heap p f).map fun h => { q with heap := h }

/-- Assign to a field of the `struct Xmark` of a mark. -/
def modifyXmark (q : Queue δ μ) (m : UInt32) (f : Xmark → Xmark) : Queue δ μ :=
  { q with xtree := binModify m f q.xtree }

/-- `_xmark_find`: look the mark up and allocate an entry for it when there is none; `alloc` says
whether the allocations succeed.  A failure returns the null pointer and leaves the tree alone. -/
def xmarkFind (q : Queue δ μ) (m : UInt32) (alloc : Bool) : Option (Queue δ μ) :=
  match binFind q.xtree m with
  | some _ => some q
  | none =>
    if alloc then some { q with xtree := binSearch ⟨m, ⟨none, none, 0⟩⟩ q.xtree } else none

/-- `queue_add`: link the new node into the list of its mark. -/
def linkXmark (q : Queue δ μ) (newmsg : Ptr) (m : UInt32) : Option (Queue δ μ) := do
  let x ← binFind q.xtree m
  match x.last with
  | none => some (q.modifyXmark m fun x => { x with last := some newmsg, first := some newmsg })
  | some l =>
    let q ← q.modifyNode l fun n => { n with xnext := some newmsg }
    some (q.modifyXmark m fun x => { x with last := some newmsg })

/-- `queue_add`: link the new node into the list of the queue. -/
def linkGlobal (q : Queue δ μ) (newmsg : Ptr) : Option (Queue δ μ) :=
  match q.last with
  | none => some { q with last := some newmsg, first := some newmsg }
  | some l => do
    let q ← q.modifyNode newmsg fun n => { n with prev := some l }
    let q ← q.modifyNode l fun n => { n with next := some newmsg }
    some { q with last := some newmsg }

/-- `queue_add` behind its wait: link the node twice and count it. -/
def link (q : Queue δ μ) (newmsg : Ptr) (m : UInt32) : Option (Queue δ μ) := do
  let q ← q.linkXmark newmsg m
  let q ← q.linkGlobal newmsg
  let q := q.modifyXmark m fun x => { x with count := x.count + 1 }
  some { q with length := q.length + 1, added := q.added + 1 }

/-- `queue_get`: the node behind the removed one, or the tail of the queue, is told of the node
before it. -/
def relinkNext (q : Queue δ μ) (next prev : Option Ptr) : Option (Queue δ μ) :=
  match next with
  | some n => q.modifyNode n fun r => { r with prev := prev }
  | none => some { q with last := prev }

/-- `queue_get`: the node before the removed one, or the head of the queue, is told of the node
behind it. -/
def relinkPrev (q : Queue δ μ) (next prev : Option Ptr) : Option (Queue δ μ) :=
  match prev with
  | some p => q.modifyNode p fun r => { r with next := next }
  | none => some { q with first := next }

/-- `queue_get`: splice a node with the given neighbours out of the list of the queue. -/
def unlinkGlobal (q : Queue δ μ) (next prev : Option Ptr) : Option (Queue δ μ) := do
  let q ← q.relinkNext next prev
  q.relinkPrev next prev

/-- `queue_get`: the counters, and the tails of lists that have become empty. -/
def settle (q : Queue δ μ) (m : UInt32) : Queue δ μ :=
  let q := { q with length := q.length - 1, delivered := q.delivered + 1 }
  let q := q.modifyXmark m fun x => { x with count := x.count - 1 }
  let q := if q.first = none then { q with last := none, length := 0 } else q
  q.modifyXmark m fun x => if x.first = none then { x with last := none, count := 0 } else x

/-- `queue_get` behind its waits: take the first node of the mark out of both lists, copy its
contents into the message of the caller and free it. -/
def take (q : Queue δ μ) (m : UInt32) (msg : Message δ μ) :
    Option (Queue δ μ × Message δ μ) := do
  let x ← binFind q.xtree m
  let firstrec ← x.first
  let r ← q.heap firstrec
  let q := q.modifyXmark m fun x => { x with first := r.xnext }
  let q ← q.unlinkGlobal r.next r.prev
  let q := q.settle m
  let r ← q.heap firstrec
  some (q.free firstrec,
    { msg with data := r.msg.data, datalen := r.msg.datalen, metadata := r.msg.metadata })

/-- The value of a counter. -/
def read (q : Queue δ μ) : Counter → Int
  | .added => q.added
  | .delivered => q.delivered
  | .length => q.length

/-- `queue_added` and `queue_delivered` reset the counter they have read. -/
def reset (q : Queue δ μ) : Counter → Queue δ μ
  | .added => { q with added := 0 }
  | .delivered => { q with delivered := 0 }
  | .length => q

end Queue

/-! ### Threads -/

/-- The frame of a thread in the queue at a release of the mutex.  The flag of a wait records
whether the condition variable was signalled since the thread started to wait on it. -/
inductive Call (δ μ : Type)
  /-- Outside the queue. -/
  | idle
  /-- In `queue_add`: the postadd hooks accepted the message, the mutex is not yet taken. -/
  | adding (args : Message δ μ) (newmsg : Ptr)
  /-- In `queue_add`: waiting on `q->consumer_cond`. -/
  | addWait (args : Message δ μ) (newmsg : Ptr) (x : UInt32) (signalled : Bool)
  /-- `queue_add` has returned. -/
  | addReturned (args : Message δ μ) (ret : Errno)
  /-- In `queue_get`: waiting on `q->producer_cond`; `x` is the result of `_xmark_find`. -/
  | getWait (msg : Message δ μ) (x : Option UInt32) (signalled : Bool)
  /-- In `queue_get`: waiting on `x->producer_cond`. -/
  | getXwait (msg : Message δ μ) (x : UInt32) (signalled : Bool)
  /-- In `queue_get`: the message is taken and the mutex released. -/
  | taken (msg : Message δ μ)
  /-- `queue_get` has returned. -/
  | getReturned (msg : Message δ μ) (ret : Errno)
  deriving DecidableEq, Repr

/-- The condition variables of a queue. -/
inductive Cond
  | consumer
  | producer
  | xconsumer (m : UInt32)
  | xproducer (m : UInt32)
  deriving DecidableEq, Repr

/-- The condition variable a frame waits on and whether it was signalled meanwhile. -/
def Call.waitsOn {δ μ : Type} : Call δ μ → Option (Cond × Bool)
  | .addWait _ _ _ sig => some (.consumer, sig)
  | .getWait _ _ sig => some (.producer, sig)
  | .getXwait _ m sig => some (.xproducer m, sig)
  | _ => none

/-- Mark a waiting frame as signalled. -/
def Call.wakeUp {δ μ : Type} : Call δ μ → Call δ μ
  | .addWait args p x _ => .addWait args p x true
  | .getWait msg x _ => .getWait msg x true
  | .getXwait msg m _ => .getXwait msg m true
  | c => c

/-- The effect of `pthread_cond_broadcast` on a frame. -/
def Call.signal {δ μ : Type} (cond : Cond) (c : Call δ μ) : Call δ μ :=
  if c.waitsOn.map Prod.fst = some cond then c.wakeUp else c

/-- The configuration of a queue: its two hook lists. -/
structure QueueConf (δ μ ε : Type) where
  postadd : List (Hook δ μ ε)
  preget : List (Hook δ μ ε)

/-- `hooks_add`: the hooks of a list go behind those that a hook point has already. -/
def hooksAdd {δ μ ε : Type} (point hooks : List (Hook δ μ ε)) : List (Hook δ μ ε) := point ++ hooks

/-- The hook lists of a queue as `queue_init` leaves them, from the lists of the configuration.  The
hook point `preget` stays empty. -/
def QueueConf.queueInit {δ μ ε : Type} (config : QueueConf δ μ ε) : QueueConf δ μ ε where
  postadd := hooksAdd (hooksAdd [] config.postadd) config.preget
  preget := []

/-- The state of the system of threads that share one queue. -/
structure QueueState (ι δ μ : Type) where
  q : Queue δ μ
  call : ι → Call δ μ
  /-- A null pointer was dereferenced: the process is gone. -/
  crashed : Bool
  history : List (Event ι δ μ)

/-- What a thread does next, with the choices of the environment. -/
inductive QueueAction (ι δ μ ε : Type)
  /-- Call `queue_add`; `newmsg` is the result of `message_list_init`. -/
  | add (t : ι) (args : Message δ μ) (newmsg : Option Ptr) (env : ε)
  /-- `queue_add` takes the mutex. -/
  | lock (t : ι) (alloc : Bool)
  /-- Call `queue_get`, which takes the mutex. -/
  | get (t : ι) (msg : Message δ μ) (alloc : Bool)
  /-- A wait ends. -/
  | wake (t : ι) (timeout : Bool)
  /-- `queue_get` runs the preget hooks. -/
  | preget (t : ι) (env : ε)
  /-- Call `queue_added`, `queue_delivered` or `queue_length`. -/
  | count (t : ι) (c : Counter)
  deriving DecidableEq, Repr

namespace QueueState

variable {ι δ μ ε : Type} [DecidableEq ι]

/-- No thread is in the queue and the queue is empty. -/
def init : QueueState ι δ μ := ⟨Queue.init, fun _ => .idle, false, []⟩

/-- The thread continues in another frame. -/
def setCall (s : QueueState ι δ μ) (t : ι) (c : Call δ μ) : QueueState ι δ μ :=
  { s with call := Function.update s.call t c }

/-- Write to the history. -/
def emit (s : QueueState ι δ μ) (es : List (Event ι δ μ)) : QueueState ι δ μ :=
  { s with history := s.history ++ es }

/-- `pthread_cond_broadcast`, when `b` holds. -/
def broadcastIf (s : QueueState ι δ μ) (b : Bool) (cond : Cond) : QueueState ι δ μ :=
  if b then { s with call := fun t => (s.call t).signal cond } else s

/-- `queue_add` from the test of its wait loop to the next release of the mutex. -/
def addLoop (s : QueueState ι δ μ) (t : ι) (args : Message δ μ) (newmsg : Ptr) (m : UInt32) :
    QueueState ι δ μ :=
  if s.q.length > maxQueueSize then
    s.setCall t (.addWait args newmsg m false)
  else
    match binFind s.q.xtree m, s.q.heap newmsg, s.q.link newmsg m with
    | some x, some n, some q =>
      let s' := { s with q := q }
      -- the counters are read before they are incremented
      let s' := s'.broadcastIf (s.q.length = 0) .producer
      let s' := s'.broadcastIf (x.count = 0) (.xproducer m)
      (s'.setCall t (.addReturned args .ok)).emit [.queued t n.msg]
    | _, _, _ => { s with crashed := true }

/-- `queue_get` from the test of its second wait loop to the next release of the mutex; `timeout`
says whether the last wait ended by a timeout. -/
def getLoop₂ (s : QueueState ι δ μ) (t : ι) (msg : Message δ μ) (x : Option UInt32)
    (timeout : Bool) : QueueState ι δ μ :=
  match x with
  | none => { s with crashed := true }
  | some m =>
    match binFind s.q.xtree m with
    | none => { s with crashed := true }
    | some x =>
      if x.first = none ∧ timeout = false then
        s.setCall t (.getXwait msg m false)
      else if timeout then
        s.setCall t (.getReturned msg .etimedout)
      else
        match s.q.take m msg with
        | none => { s with crashed := true }
        | some (q, msg') =>
          let s' := { s with q := q }
          let s' := s'.broadcastIf true .consumer
          let s' := s'.broadcastIf true (.xconsumer m)
          (s'.setCall t (.taken msg')).emit [.delivered t msg']

/-- `queue_get` from the test of its first wait loop to the next release of the mutex. -/
def getLoop₁ (s : QueueState ι δ μ) (t : ι) (msg : Message δ μ) (x : Option UInt32)
    (timeout : Bool) : QueueState ι δ μ :=
  if s.q.first = none ∧ timeout = false then
    s.setCall t (.getWait msg x false)
  else if timeout then
    s.setCall t (.getReturned msg .etimedout)
  else
    s.getLoop₂ t msg x false

/-- One step of the system. -/
def step (conf : QueueConf δ μ ε) (s : QueueState ι δ μ) :
    QueueAction ι δ μ ε → Option (QueueState ι δ μ)
  | .add t args newmsg env =>
    if s.crashed then none else
    match s.call t, newmsg with
    | .adding .., _ | .addWait .., _ | .getWait .., _ | .getXwait .., _ | .taken .., _ => none
    | _, none =>
      some ((s.setCall t (.addReturned args .enomem)).emit
        (args.data.toList.map (fun d => .effect t (.freeData d)) ++ [.dropped t args]))
    | _, some p =>
      if (s.q.heap p).isSome then none else
      let r := hooklistRun conf.postadd env args
      let s' := s.emit (r.effects.map (.effect t))
      if r.accept then
        some ({ s' with q := s.q.store p ⟨r.msg, none, none, none⟩ }.setCall t (.adding args p))
      else
        some ((s'.setCall t (.addReturned args .ebadmsg)).emit
          (args.metadata.toList.map (fun h => .effect t (.freeMeta h)) ++ [.discarded t args]))
  | .lock t alloc =>
    if s.crashed then none else
    match s.call t with
    | .adding args p =>
      match s.q.heap p with
      | none => some { s with crashed := true }
      | some n =>
        match s.q.xmarkFind n.msg.mark alloc with
        | none =>
          some (({ s with q := s.q.free p }.setCall t (.addReturned args .enomem)).emit
            (args.release.map (Event.effect t) ++ [Event.dropped t args]))
        | some q => some ({ s with q := q }.addLoop t args p n.msg.mark)
    | _ => none
  | .get t msg alloc =>
    if s.crashed then none else
    match s.call t with
    | .adding .. | .addWait .. | .getWait .. | .getXwait .. | .taken .. => none
    | _ =>
      let s' := s.emit [.getLocked t msg.mark]
      match s.q.xmarkFind msg.mark alloc with
      | none => some (s'.getLoop₁ t msg none false)
      | some q => some ({ s' with q := q }.getLoop₁ t msg (some msg.mark) false)
  | .wake t timeout =>
    if s.crashed then none else
    match s.call t, timeout with
    | .addWait args p m _, false => some (s.addLoop t args p m)
    | .getWait msg x _, b => some (s.getLoop₁ t msg x b)
    | .getXwait msg m _, b => some (s.getLoop₂ t msg (some m) b)
    | _, _ => none
  | .preget t env =>
    if s.crashed then none else
    match s.call t with
    | .taken msg =>
      let r := hooklistRun conf.preget env msg
      let s' := s.emit (r.effects.map (.effect t))
      if r.accept then some (s'.setCall t (.getReturned r.msg .ok))
      else some ((s'.setCall t (.getReturned r.msg .ebadmsg)).emit [.discarded t msg])
    | _ => none
  | .count t c =>
    if s.crashed then none else
    match s.call t with
    | .adding .. | .addWait .. | .getWait .. | .getXwait .. | .taken .. => none
    | _ => some ({ s with q := s.q.reset c }.emit [.counted t c (s.q.read c)])

end QueueState

end Schaufel
