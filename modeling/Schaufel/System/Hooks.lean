import Schaufel.Queue.Message

/-!
# What hooks may do to a message

The threads of `src/main.c` are modelled over handles: a data buffer is the number of its
allocation, and a metadata table is the number of its allocation together with the `rk_message`
entry that a transactional consumer files in it.

A hook is a script of calls to the message and metadata interface followed by a verdict.  The script
is chosen anew for every call, so a list of hooks may do whatever `dummy`, `xmark` and `jsonexport`
can do with a message and in any combination.
-/

namespace Schaufel

/-- The `rd_kafka_message_t` a transactional consumer keeps with a message. -/
structure Envelope where
  /-- The partition the record was read from. -/
  part : Nat
  offset : Nat
  /-- The buffer of the payload, which the record owns. -/
  payload : Option Nat
  deriving DecidableEq, Repr

/-- A metadata table: its handle and the value of its `rk_message` entry.  The `callback` entry is
there exactly when an `rk_message` entry was made. -/
structure Table where
  id : Nat
  envelope : Option Envelope
  deriving DecidableEq, Repr

/-- A message over handles. -/
abbrev Msg := Message Nat Table

/-- One call of a hook to the interface of a message. -/
inductive HookOp
  /-- Read the data. -/
  | read
  /-- `metadata_find`. -/
  | find
  /-- `metadata_insert`; `table` is the handle of a new table, if one is needed. -/
  | insert (table : Nat)
  /-- Set a new buffer and free the old one. -/
  | replace (buf : Nat) (len : Nat)
  /-- `message_set_xmark`. -/
  | setXmark (xmark : Int64)
  deriving DecidableEq, Repr

/-- What a hook does in one call: its calls and its verdict. -/
structure HookScript where
  ops : List HookOp
  accept : Bool
  deriving DecidableEq, Repr

/-- The message and the memory operations after one call. -/
def HookOp.run (msg : Msg) : HookOp → Msg × List (Effect Nat Table)
  | .read => (msg, msg.data.toList.map .useData)
  | .find => (msg, msg.metadata.toList.map .useMeta)
  | .insert table =>
    match msg.metadata with
    | none => ({ msg with metadata := some ⟨table, none⟩ },
        [.newMeta ⟨table, none⟩, .useMeta ⟨table, none⟩])
    | some t => (msg, [.useMeta t])
  | .replace buf len =>
    ({ msg with data := some buf, datalen := len },
      .newData buf :: msg.data.toList.map .freeData)
  | .setXmark xmark => ({ msg with xmark := xmark }, [])

/-- The calls of a script in order. -/
def runOps : List HookOp → Msg → Msg × List (Effect Nat Table)
  | [], msg => (msg, [])
  | op :: ops, msg =>
    let r := op.run msg
    let rest := runOps ops r.1
    (rest.1, r.2 ++ rest.2)

/-- The scripts of the hooks of a list, for one run of the list. -/
abbrev HookEnv := List HookScript

/-- The hook at the position `k` of a list. -/
def scriptHook (k : Nat) : Hook Nat Table HookEnv := fun env msg =>
  let script := env.getD k ⟨[], true⟩
  ⟨script.accept, (runOps script.ops msg).1, (runOps script.ops msg).2⟩

/-- A list of `n` hooks. -/
def scriptHooks (n : Nat) : List (Hook Nat Table HookEnv) := (List.range n).map scriptHook

/-! ### What hooks cannot do -/

/-- The record filed with a message. -/
def Message.envelope (msg : Msg) : Option Envelope := msg.metadata.bind Table.envelope

/-- No call of a hook touches the record, and none of them takes the data away. -/
theorem runOps_keeps (ops : List HookOp) (msg : Msg) :
    (runOps ops msg).1.envelope = msg.envelope ∧
      (msg.data.isSome = true → (runOps ops msg).1.data.isSome = true) := by
  induction ops generalizing msg with
  | nil => exact ⟨rfl, id⟩
  | cons op ops ih =>
    obtain ⟨henv, hdata⟩ := ih (op.run msg).1
    have hop : (op.run msg).1.envelope = msg.envelope ∧
        (msg.data.isSome = true → (op.run msg).1.data.isSome = true) := by
      cases op with
      | read | find => exact ⟨rfl, id⟩
      | insert table =>
        cases hm : msg.metadata with
        | none => simp [HookOp.run, Message.envelope, hm]
        | some t => simp [HookOp.run, hm]
      | replace buf len => exact ⟨rfl, fun _ => rfl⟩
      | setXmark xmark => exact ⟨rfl, id⟩
    exact ⟨henv.trans hop.1, fun h => hdata (hop.2 h)⟩

/-- A list of hooks leaves the record alone, whatever its verdict. -/
theorem hooklistRun_envelope (n : Nat) (env : HookEnv) (msg : Msg) :
    (hooklistRun (scriptHooks n) env msg).msg.envelope = msg.envelope := by
  refine hooklistRun_keeps (P := fun m => m.envelope = msg.envelope) ?_ (fun m h => h) rfl
  rintro hook hhook m henv
  obtain ⟨k, -, rfl⟩ := List.mem_map.mp hhook
  exact (runOps_keeps (env.getD k ⟨[], true⟩).ops m).1.trans henv

/-- A list of hooks that accepts a message with data leaves it with data. -/
theorem hooklistRun_data_of_accepted {n : Nat} {env : HookEnv} {msg : Msg}
    (haccept : (hooklistRun (scriptHooks n) env msg).accept = true)
    (hdata : msg.data.isSome = true) :
    (hooklistRun (scriptHooks n) env msg).msg.data.isSome = true := by
  refine hooklistRun_invariant (P := fun m => m.data.isSome = true) ?_ hdata haccept
  rintro hook hhook m hm
  obtain ⟨k, -, rfl⟩ := List.mem_map.mp hhook
  exact (runOps_keeps (env.getD k ⟨[], true⟩).ops m).2 hm

end Schaufel
