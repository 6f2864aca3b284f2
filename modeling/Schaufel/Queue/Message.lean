import Mathlib.Data.Option.Basic
import Mathlib.Data.List.Basic

/-!
# Messages, hooks and the history of a run

`src/queue.c` keeps a message as a data pointer, its length, a routing mark and a metadata table.
The data type `δ` and the type `μ` of metadata tables are parameters: the queue itself never looks
behind these pointers.

A hook is a function of the message that reports its verdict, the message it leaves behind and the
memory operations it performed on the way.  The extra argument `ε` is whatever the environment
contributes to one call (addresses returned by the allocator, for instance), so that a hook may
behave differently on every call.

`Event` is the vocabulary of the history that the models of the queue and of the threads write while
they run.  No step ever reads the history; it only lets statements speak about the order of things.
-/

namespace Schaufel

/-- `struct Message`: null pointers are `none`. -/
structure Message (δ μ : Type) where
  data : Option δ
  datalen : Nat
  xmark : Int64
  metadata : Option μ
  deriving DecidableEq, Repr

namespace Message

variable {δ μ : Type}

/-- `message_init`: the record comes out of `calloc`. -/
def init : Message δ μ := ⟨none, 0, 0, none⟩

/-- The mark under which the queue files a message: the `int64_t` mark converted to `uint32_t`. -/
def mark (msg : Message δ μ) : UInt32 := msg.xmark.toUInt64.toUInt32

end Message

/-- Memory operations on the resources a message may carry. -/
inductive Effect (δ μ : Type)
  /-- A data buffer is allocated. -/
  | newData (d : δ)
  /-- A data buffer is read. -/
  | useData (d : δ)
  /-- `free(data)`. -/
  | freeData (d : δ)
  /-- `_metadata_init` allocates a table. -/
  | newMeta (m : μ)
  /-- `metadata_find` or `metadata_insert` works on a table. -/
  | useMeta (m : μ)
  /-- `metadata_free` on a table. -/
  | freeMeta (m : μ)
  deriving DecidableEq, Repr

/-- The effects of `free(msg->data)` followed by `metadata_free(&msg->metadata)`; both calls ignore
a null pointer, and neither of them can clear the pointer that is left in the message. -/
def Message.release {δ μ : Type} (msg : Message δ μ) : List (Effect δ μ) :=
  msg.data.toList.map Effect.freeData ++ msg.metadata.toList.map Effect.freeMeta

/-- The counters of a queue that `queue_added`, `queue_delivered` and `queue_length` read. -/
inductive Counter
  | added
  | delivered
  | length
  deriving DecidableEq, Repr

/-- What a run has done so far, in the order in which it happened; `ι` names the threads. -/
inductive Event (ι δ μ : Type)
  /-- A memory operation. -/
  | effect (t : ι) (e : Effect δ μ)
  /-- `consumer_consume` has filled the message of the thread. -/
  | consumed (t : ι) (msg : Message δ μ)
  /-- A hook list refused the message. -/
  | discarded (t : ι) (msg : Message δ μ)
  /-- `queue_add` gave the message up for want of memory. -/
  | dropped (t : ι) (msg : Message δ μ)
  /-- `queue_add` has linked the message into the queue. -/
  | queued (t : ι) (msg : Message δ μ)
  /-- `queue_get` for the given mark has taken the mutex. -/
  | getLocked (t : ι) (mark : UInt32)
  /-- `queue_get` has taken the message out of the queue. -/
  | delivered (t : ι) (msg : Message δ μ)
  /-- A counter of the queue was read. -/
  | counted (t : ι) (c : Counter) (n : Int)
  /-- `producer_produce` was called on the message. -/
  | produced (t : ι) (msg : Message δ μ)
  /-- The callback of the message stored its offset. -/
  | stored (t : ι) (msg : Message δ μ)
  deriving DecidableEq, Repr

/-! ### Hooks -/

/-- The outcome of a hook or of a list of hooks. -/
structure HookResult (δ μ : Type) where
  /-- The return value. -/
  accept : Bool
  /-- The message the hook leaves behind. -/
  msg : Message δ μ
  /-- The memory operations performed. -/
  effects : List (Effect δ μ)
  deriving DecidableEq, Repr

/-- The function `hook` of a `struct hptr`, its context included. -/
abbrev Hook (δ μ ε : Type) := ε → Message δ μ → HookResult δ μ

section Hooks

variable {δ μ ε : Type}

/-- `hooklist_run`: run the hooks in order.  The first one that refuses has the message cleared and
its resources released, and no later hook runs. -/
def hooklistRun : List (Hook δ μ ε) → ε → Message δ μ → HookResult δ μ
  | [], _, msg => ⟨true, msg, []⟩
  | hook :: hooks, env, msg =>
    let r := hook env msg
    if r.accept then
      let rest := hooklistRun hooks env r.msg
      { rest with effects := r.effects ++ rest.effects }
    else
      ⟨false, { r.msg with data := none, datalen := 0 }, r.effects ++ r.msg.release⟩

@[simp] theorem hooklistRun_nil (env : ε) (msg : Message δ μ) :
    hooklistRun [] env msg = ⟨true, msg, []⟩ := rfl

/-- Two lists of hooks in a row: the second runs on what the first leaves, if the first accepts. -/
theorem hooklistRun_append (hooks hooks' : List (Hook δ μ ε)) (env : ε) (msg : Message δ μ) :
    hooklistRun (hooks ++ hooks') env msg =
      if (hooklistRun hooks env msg).accept then
        let rest := hooklistRun hooks' env (hooklistRun hooks env msg).msg
        { rest with effects := (hooklistRun hooks env msg).effects ++ rest.effects }
      else hooklistRun hooks env msg := by
  induction hooks generalizing msg with
  | nil => simp
  | cons hook hooks ih =>
    simp only [List.cons_append, hooklistRun]
    by_cases hhook : (hook env msg).accept = true
    · simp only [hhook, if_true, ih]
      by_cases hrest : (hooklistRun hooks env (hook env msg).msg).accept = true
      · simp [hrest]
      · simp [hrest]
    · simp [hhook]

/-- A message that was refused is cleared. -/
theorem hooklistRun_cleared {hooks : List (Hook δ μ ε)} {env : ε} {msg : Message δ μ}
    (h : (hooklistRun hooks env msg).accept = false) :
    (hooklistRun hooks env msg).msg.data = none ∧ (hooklistRun hooks env msg).msg.datalen = 0 := by
  induction hooks generalizing msg with
  | nil => simp at h
  | cons hook hooks ih =>
    simp only [hooklistRun] at h ⊢
    split at h
    · rw [if_pos ‹_›]
      exact ih h
    · rw [if_neg ‹_›]
      exact ⟨rfl, rfl⟩

/-- A message that was refused carries no data any more. -/
theorem hooklistRun_data_of_refused {hooks : List (Hook δ μ ε)} {env : ε} {msg : Message δ μ}
    (h : (hooklistRun hooks env msg).accept = false) :
    (hooklistRun hooks env msg).msg.data = none :=
  (hooklistRun_cleared h).1

/-- What every hook of a list keeps, the list keeps, if it accepts the message. -/
theorem hooklistRun_invariant {P : Message δ μ → Prop} {hooks : List (Hook δ μ ε)} {env : ε}
    {msg : Message δ μ} (hP : ∀ hook ∈ hooks, ∀ msg, P msg → P (hook env msg).msg) (h : P msg)
    (haccept : (hooklistRun hooks env msg).accept = true) : P (hooklistRun hooks env msg).msg := by
  induction hooks generalizing msg with
  | nil => exact h
  | cons hook hooks ih =>
    simp only [hooklistRun] at haccept ⊢
    split at haccept
    · rw [if_pos ‹_›]
      exact ih (fun g hg => hP g (List.mem_cons_of_mem hook hg))
        (hP hook List.mem_cons_self msg h) haccept
    · cases haccept

/-- What every hook of a list keeps and the clearing of a refused message keeps, the list keeps. -/
theorem hooklistRun_keeps {P : Message δ μ → Prop} {hooks : List (Hook δ μ ε)} {env : ε}
    {msg : Message δ μ} (hP : ∀ hook ∈ hooks, ∀ msg, P msg → P (hook env msg).msg)
    (hclear : ∀ msg : Message δ μ, P msg → P { msg with data := none, datalen := 0 }) (h : P msg) :
    P (hooklistRun hooks env msg).msg := by
  induction hooks generalizing msg with
  | nil => exact h
  | cons hook hooks ih =>
    have hhook := hP hook List.mem_cons_self msg h
    simp only [hooklistRun]
    split
    · exact ih (fun g hg => hP g (List.mem_cons_of_mem hook hg)) hhook
    · exact hclear _ hhook

end Hooks

end Schaufel
