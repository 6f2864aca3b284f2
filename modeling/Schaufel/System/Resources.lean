import Mathlib.Tactic.MkIffOfInductiveProp
import Schaufel.Foundation.Ownership
import Schaufel.System.Flow

/-!
# The resources of messages

Every message carries a data buffer and a metadata table, and the functions on its way release them
on their error paths: `hooklist_run`, `queue_add`, the loop of `produce` and the callback of a
transactional consumer.  A history is a log of operations on these resources; the statement is that
no resource is released twice or touched after its release.

`postadd_releases_twice` is a run in which a postadd hook refuses a message with metadata:
`hooklist_run` and `queue_add` both free the table.  `Benign` excludes this and the other three ways
in which two functions believe they own a resource, and `resources_released_once` shows that there
are no more: a run of benign steps keeps every resource with one owner (`Owned`).
-/

namespace Schaufel

open HandleOp

/-! ### Handles -/

/-- The two kinds of resources of a message. -/
inductive Kind
  | data
  | table
  deriving DecidableEq, Repr

/-- The resource of a kind that a message carries. -/
def Message.handle (kind : Kind) (msg : Msg) : Option Nat :=
  match kind with
  | .data => msg.data
  | .table => msg.metadata.map Table.id

theorem Message.handle_eq_none {msg : Msg} (hdata : msg.data = none) (hmeta : msg.metadata = none)
    (kind : Kind) : msg.handle kind = none := by
  cases kind with
  | data => exact hdata
  | table =>
    rw [Message.handle, hmeta]
    rfl

/-- The resource of a kind that an entry carries. -/
def Entry.handle (kind : Kind) (e : Entry Nat Table) : Option Nat :=
  match kind with
  | .data => e.data
  | .table => e.metadata.map Table.id

/-- What a memory operation does to the resources of a kind. -/
def Effect.op? : Kind → Effect Nat Table → Option (HandleOp Nat)
  | .data, .newData d => some (.alloc d)
  | .data, .useData d => some (.use d)
  | .data, .freeData d => some (.release d)
  | .table, .newMeta t => some (.alloc t.id)
  | .table, .useMeta t => some (.use t.id)
  | .table, .freeMeta t => some (.release t.id)
  | _, _ => none

/-- What an event does to the resources of a kind: to queue, deliver or produce a message is to use
what it carries. -/
def Event.op? (kind : Kind) : Event Thread Nat Table → Option (HandleOp Nat)
  | .effect _ e => e.op? kind
  | .queued _ msg | .delivered _ msg | .produced _ msg => (msg.handle kind).map .use
  | _ => none

/-- The operations of a list of memory operations on the resources of a kind. -/
def effectOps (kind : Kind) (l : List (Effect Nat Table)) : List (HandleOp Nat) :=
  l.filterMap (Effect.op? kind)

/-- The operations of a history on the resources of a kind. -/
def handleOps (kind : Kind) (history : List (Event Thread Nat Table)) : List (HandleOp Nat) :=
  history.filterMap (Event.op? kind)

@[simp] theorem effectOps_append (kind : Kind) (l l' : List (Effect Nat Table)) :
    effectOps kind (l ++ l') = effectOps kind l ++ effectOps kind l' := by
  simp [effectOps]

@[simp] theorem handleOps_append (kind : Kind) (h h' : List (Event Thread Nat Table)) :
    handleOps kind (h ++ h') = handleOps kind h ++ handleOps kind h' := by
  simp [handleOps]

@[simp] theorem handleOps_effects (kind : Kind) (t : Thread) (l : List (Effect Nat Table)) :
    handleOps kind (l.map (Event.effect t)) = effectOps kind l := by
  simp only [handleOps, effectOps, List.filterMap_map]
  rfl

@[simp] theorem handleOps_discarded (kind : Kind) (t : Thread) (msg : Msg) :
    handleOps kind [.discarded t msg] = [] := rfl

/-- What hooks do that refuse a message. -/
theorem handleOps_refused (kind : Kind) (t : Thread) (l : List (Effect Nat Table)) (msg : Msg) :
    handleOps kind (l.map (Event.effect t) ++ [.discarded t msg]) = effectOps kind l := by
  rw [handleOps_append, handleOps_effects, handleOps_discarded, List.append_nil]

@[simp] theorem handleOps_dropped (kind : Kind) (t : Thread) (msg : Msg) :
    handleOps kind [.dropped t msg] = [] := rfl

/-- What a history allocates. -/
theorem nodup_allocated {history : List (Event Thread Nat Table)} (h : HandlesFresh history)
    (kind : Kind) : (allocated (handleOps kind history)).Nodup := by
  rw [allocated, handleOps, List.filterMap_filterMap]
  have huse : ∀ o : Option Nat, (o.map HandleOp.use).bind alloc? = none := fun o => by
    cases o <;> rfl
  cases kind with
  | data =>
    refine Eq.mp (congrArg List.Nodup (List.filterMap_congr fun e _ => ?_)) h.1
    cases e with
    | effect t e => cases e <;> rfl
    | queued t msg | delivered t msg | produced t msg => exact (huse _).symm
    | _ => rfl
  | table =>
    refine Eq.mp (congrArg List.Nodup (List.filterMap_congr fun e _ => ?_)) h.2
    cases e with
    | effect t e => cases e <;> rfl
    | queued t msg | delivered t msg | produced t msg => exact (huse _).symm
    | _ => rfl

/-! ### What the functions do with their resources -/

/-- The release of a message releases what it carries. -/
theorem effectOps_release (kind : Kind) (msg : Msg) :
    effectOps kind msg.release = (msg.handle kind).toList.map .release := by
  obtain ⟨data, datalen, xmark, metadata⟩ := msg
  cases kind <;> cases data <;> cases metadata <;> rfl

/-- A call of a hook works on the resources of its message. -/
theorem HookOp.handling (kind : Kind) (op : HookOp) (msg : Msg) :
    Handling (msg.handle kind) (effectOps kind (op.run msg).2) ((op.run msg).1.handle kind) := by
  obtain ⟨data, datalen, xmark, metadata⟩ := msg
  cases op with
  | read =>
    cases kind with
    | data => cases data <;> exact Handling.use_toList _
    | table => cases data <;> exact .done _
  | find =>
    cases kind with
    | data => cases metadata <;> exact .done _
    | table => cases metadata <;> exact Handling.use_toList _
  | insert table =>
    cases kind with
    | data => cases metadata <;> exact .done _
    | table =>
      cases metadata with
      | none => exact .alloc (.use (.done _))
      | some t => exact .use (.done _)
  | replace buf len =>
    cases kind with
    | data =>
      cases data with
      | none => exact .alloc (.done _)
      | some d => exact .replace (.done _)
    | table => cases data <;> exact .done _
  | setXmark xmark => cases kind <;> exact .done _

theorem runOps_handling (kind : Kind) (ops : List HookOp) (msg : Msg) :
    Handling (msg.handle kind) (effectOps kind (runOps ops msg).2)
      ((runOps ops msg).1.handle kind) := by
  induction ops generalizing msg with
  | nil => exact .done _
  | cons op ops ih =>
    simp only [runOps, effectOps_append]
    exact (op.handling kind msg).trans (ih _)

/-- A list of hooks works on the resources of its message, and releases them if it refuses it. -/
theorem hooklistRun_handling (kind : Kind) (n : Nat) (env : HookEnv) (msg : Msg) :
    Handling (msg.handle kind) (effectOps kind (hooklistRun (scriptHooks n) env msg).effects)
      (if (hooklistRun (scriptHooks n) env msg).accept then
        (hooklistRun (scriptHooks n) env msg).msg.handle kind else none) := by
  unfold scriptHooks
  induction List.range n generalizing msg with
  | nil => exact .done _
  | cons k ks ih =>
    have hhook := runOps_handling kind (env.getD k ⟨[], true⟩).ops msg
    simp only [List.map_cons, hooklistRun]
    split
    · rw [effectOps_append]
      exact hhook.trans (ih _)
    · rw [effectOps_append]
      refine hhook.trans ?_
      rw [effectOps_release]
      exact Handling.release_toList _

/-- Hooks that refuse a message leave nothing of what it carried. -/
theorem hooklistRun_handling_refused (kind : Kind) {n : Nat} {env : HookEnv} {msg : Msg}
    (haccept : (hooklistRun (scriptHooks n) env msg).accept = false) :
    Handling (msg.handle kind) (effectOps kind (hooklistRun (scriptHooks n) env msg).effects)
      none := by
  have hops := hooklistRun_handling kind n env msg
  rwa [haccept] at hops

/-- A list of hooks that accepts a message keeps its table. -/
theorem hooklistRun_table {n : Nat} {env : HookEnv} {msg : Msg} {t : Table}
    (haccept : (hooklistRun (scriptHooks n) env msg).accept = true) (ht : msg.metadata = some t) :
    (hooklistRun (scriptHooks n) env msg).msg.metadata = some t := by
  refine hooklistRun_invariant (P := fun m => m.metadata = some t) ?_ ht haccept
  rintro hook hhook m hm
  obtain ⟨k, -, rfl⟩ := List.mem_map.mp hhook
  have hops : ∀ (ops : List HookOp) (m : Msg), m.metadata = some t →
      (runOps ops m).1.metadata = some t := by
    intro ops
    induction ops with
    | nil => exact fun m hm => hm
    | cons op ops ih =>
      intro m hm
      refine ih _ ?_
      cases op <;> simp [HookOp.run, hm]
  exact hops _ m hm

/-- `consumer_consume` works on the resources of its message, which has no data. -/
theorem consumeMsg_handling {t : Thread} {msg msg' : Msg} {r : ConsumeResult}
    {evs : List (Event Thread Nat Table)} (hdata : msg.data = none)
    (h : consumeMsg t msg r = some (msg', evs)) (kind : Kind) :
    Handling (msg.handle kind) (handleOps kind evs) (msg'.handle kind) := by
  obtain ⟨data, datalen, xmark, metadata⟩ := msg
  obtain rfl : data = none := hdata
  cases r with
  | fail => cases h
  | nothing =>
    cases h
    exact .done _
  | data buf len =>
    cases h
    cases kind with
    | data => exact .alloc (.done _)
    | table => exact .done _
  | record part offset payload len table =>
    cases h
    cases kind with
    | data => cases metadata <;> cases payload <;> first | exact .done _ | exact .alloc (.done _)
    | table =>
      cases metadata with
      | none => cases payload <;> exact .alloc (.use (.use (.done _)))
      | some t => cases payload <;> exact .use (.use (.done _))

/-- The callback works on the resources of its message, if the record still owns the data. -/
theorem callbackRun_handling {t : Thread} {msg msg' : Msg} {stored : Bool}
    {evs : List (Event Thread Nat Table)}
    (hrecord : ∀ env, msg.envelope = some env → env.payload = msg.data)
    (h : callbackRun t msg stored = some (msg', evs)) (kind : Kind) :
    Handling (msg.handle kind) (handleOps kind evs) (msg'.handle kind) := by
  obtain ⟨data, datalen, xmark, metadata⟩ := msg
  cases metadata with
  | none =>
    cases h
    exact .done _
  | some tbl =>
    obtain ⟨id, envelope⟩ := tbl
    cases envelope with
    | none =>
      cases h
      cases kind with
      | data => exact .done _
      | table => exact .use (.done _)
    | some env =>
      obtain ⟨part, offset, payload⟩ := env
      obtain rfl : payload = data := hrecord _ rfl
      cases stored with
      | false => cases h
      | true =>
        cases h
        cases kind with
        | data => cases payload <;> first | exact .done _ | exact .release (.done _)
        | table => cases payload <;> exact .use (.use (.done _))

/-! ### Benign steps -/

/-- A list of hooks that accepts a message with a record leaves its data, which the record owns. -/
def KeepsRecord (n : Nat) (env : HookEnv) (msg : Msg) : Prop :=
  (hooklistRun (scriptHooks n) env msg).accept = true → msg.envelope.isSome = true →
    (hooklistRun (scriptHooks n) env msg).msg.data = msg.data

instance (n : Nat) (env : HookEnv) (msg : Msg) : Decidable (KeepsRecord n env msg) :=
  inferInstanceAs (Decidable (_ → _ → _))

/-- The consumer that runs its preadd hooks, and what they do. -/
def SystemAction.preadd? : SystemAction → Option (Nat × HookEnv)
  | .preadd i env => some (i, env)
  | _ => none

/-- The thread that runs the postadd hooks, and what they do. -/
def SystemAction.postadd? : SystemAction → Option (Thread × HookEnv)
  | .queue (.add t _ (some _) env) => some (t, env)
  | _ => none

/-- The thread that looks for the record of its mark without memory for a new one. -/
def SystemAction.starved? : SystemAction → Option Thread
  | .queue (.lock t false) => some t
  | _ => none

/-- The arguments of `queue_add` before the mutex is taken. -/
def Call.adding? : Call Nat Table → Option Msg
  | .adding args _ => some args
  | _ => none

/-- The step is none of those that leave a resource with two owners. -/
@[mk_iff]
structure Benign (conf : SystemConf) (s : SystemState) (a : SystemAction) : Prop where
  /-- Hooks leave the data of a message with a record alone. -/
  record : ∀ p ∈ a.hookPoint? conf, ∀ msg ∈ s.hand p.1, KeepsRecord p.2.1 p.2.2 msg
  /-- No preadd hook refuses a message that has a table. -/
  preadd : ∀ p ∈ a.preadd?, ∀ msg ∈ s.hand (.consumer p.1),
    (hooklistRun (scriptHooks (conf.preadd p.1)) p.2 msg).accept = false →
      (hooklistRun (scriptHooks (conf.preadd p.1)) p.2 msg).msg.metadata = none
  /-- No postadd hook refuses a message that `queue_add` was called with a table for. -/
  postadd : ∀ p ∈ a.postadd?, ∀ msg ∈ s.hand p.1,
    (hooklistRun (scriptHooks conf.postadd) p.2 msg).accept = false → msg.metadata = none
  /-- `_xmark_find` has memory for the record of a new mark, unless the postadd hooks have left the
  data of the message alone. -/
  memory : ∀ t ∈ a.starved?, ∀ msg ∈ s.hand t, ∀ args ∈ (s.queue.call t).adding?,
    binFind s.queue.q.xtree msg.mark = none → msg.data = args.data

instance (conf : SystemConf) (s : SystemState) (a : SystemAction) : Decidable (Benign conf s a) :=
  decidable_of_iff _ (benign_iff conf s a).symm

/-! ### The invariant -/

/-- Every resource has one owner, a record owns the data of its message, and only transactional
consumers have records. -/
structure Sound (conf : SystemConf) (s : SystemState) : Prop where
  owned : ∀ kind, Owned (handleOps kind s.queue.history)
    (fun t => (s.hand t).bind (Message.handle kind))
    ((routed s.queue.history).filterMap (Entry.handle kind))
  /-- The record of a message in someone's hands owns its data. -/
  record : ∀ t msg env, s.hand t = some msg → msg.envelope = some env → env.payload = msg.data
  /-- The record of a queued message owns its data. -/
  entry : ∀ e ∈ routed s.queue.history, ∀ tbl env, e.metadata = some tbl →
    tbl.envelope = some env → env.payload = e.data
  /-- Other consumers have no records. -/
  plain : ∀ i msg, conf.transactional i = false → s.hand (.consumer i) = some msg →
    msg.envelope = none

/-- A step that leaves the queue alone. -/
theorem Sound.of_hand {conf : SystemConf} {s s' : SystemState} {t : Thread} {m : Option Msg}
    {evs : List (Event Thread Nat Table)} (hs : Sound conf s)
    (hhand : s'.hand = Function.update s.hand t m)
    (hhist : s'.queue.history = s.queue.history ++ evs) (hfifo : fifoOps evs = [])
    (hfresh : HandlesFresh s'.queue.history)
    (hops : ∀ kind, Handling ((s.hand t).bind (Message.handle kind)) (handleOps kind evs)
      (m.bind (Message.handle kind)))
    (hrecord : ∀ msg env, m = some msg → msg.envelope = some env → env.payload = msg.data)
    (hplain : ∀ i msg, t = .consumer i → conf.transactional i = false → m = some msg →
      msg.envelope = none) : Sound conf s' := by
  have hrouted : routed s'.queue.history = routed s.queue.history := by
    rw [hhist, routed_append_of_fifoOps_eq_nil hfifo]
  have hcases : ∀ t' msg, s'.hand t' = some msg →
      (t' = t ∧ m = some msg) ∨ s.hand t' = some msg := by
    intro t' msg hmsg
    rw [hhand] at hmsg
    by_cases ht : t' = t
    · subst ht
      rw [Function.update_self] at hmsg
      exact Or.inl ⟨rfl, hmsg⟩
    · rw [Function.update_of_ne ht] at hmsg
      exact Or.inr hmsg
  refine ⟨fun kind => ?_, ?_, by rw [hrouted]; exact hs.entry, ?_⟩
  · have hnodup := nodup_allocated hfresh kind
    rw [hrouted, hand_bind_update hhand]
    rw [hhist, handleOps_append] at hnodup ⊢
    exact (hs.owned kind).run (hops kind) rfl hnodup
  · intro t' msg env hmsg henv
    rcases hcases t' msg hmsg with ⟨-, hnew⟩ | hold
    · exact hrecord msg env hnew henv
    · exact hs.record t' msg env hold henv
  · intro i msg hi hmsg
    rcases hcases _ msg hmsg with ⟨ht, hnew⟩ | hold
    · exact hplain i msg ht.symm hi hnew
    · exact hs.plain i msg hi hold

/-- A thread gives its message up. -/
theorem Sound.of_gone {conf : SystemConf} {s s' : SystemState} {t : Thread} {msg : Msg}
    {evs : List (Event Thread Nat Table)} (hs : Sound conf s) (hfrom : s.hand t = some msg)
    (hhand : s'.hand = Function.update s.hand t none)
    (hhist : s'.queue.history = s.queue.history ++ evs) (hfifo : fifoOps evs = [])
    (hfresh : HandlesFresh s'.queue.history)
    (hops : ∀ kind, Handling (msg.handle kind) (handleOps kind evs) none) : Sound conf s' := by
  refine hs.of_hand hhand hhist hfifo hfresh (fun kind => ?_) (by simp) (by simp)
  rw [hfrom]
  exact hops kind

/-- A consumer queues its message. -/
theorem Sound.of_queued {conf : SystemConf} {s s' : SystemState} {i : Nat} {msg : Msg}
    (hs : Sound conf s) (hfrom : s.hand (.consumer i) = some msg)
    (hhand : s'.hand = Function.update s.hand (.consumer i) none)
    (hhist : s'.queue.history = s.queue.history ++ [.queued (.consumer i) msg])
    (hfresh : HandlesFresh s'.queue.history) : Sound conf s' := by
  have hrouted : routed s'.queue.history = routed s.queue.history ++ [msg.entry] := by
    rw [hhist, routed_queued]
  have hcases : ∀ t m, s'.hand t = some m → s.hand t = some m := by
    intro t m hm
    rw [hhand] at hm
    by_cases ht : t = .consumer i
    · subst ht
      simp at hm
    · rwa [Function.update_of_ne ht] at hm
  refine ⟨fun kind => ?_, fun t m env hm => hs.record t m env (hcases t m hm), ?_,
    fun i' m hi hm => hs.plain i' m hi (hcases _ m hm)⟩
  · have hnodup := nodup_allocated hfresh kind
    rw [hrouted, hand_bind_update hhand, List.filterMap_append]
    rw [hhist, handleOps_append] at hnodup ⊢
    have hops : handleOps kind [Event.queued (.consumer i) msg] =
        (msg.handle kind).toList.map .use := by
      cases h : msg.handle kind <;> simp [handleOps, Event.op?, h]
    rw [hops] at hnodup ⊢
    have hself : (s.hand (.consumer i)).bind (Message.handle kind) = msg.handle kind := by
      rw [hfrom]
      rfl
    -- the handle is used, and then it moves into the queue
    have hown := (hs.owned kind).run (Handling.use_toList (msg.handle kind)) hself hnodup
    rw [Function.update_eq_self_iff.mpr hself.symm] at hown
    have hentry : [msg.entry].filterMap (Entry.handle kind) = (msg.handle kind).toList := by
      cases kind <;> rfl
    rw [hentry]
    cases hk : msg.handle kind with
    | none =>
      rw [hk] at hown hself
      rw [Option.toList_none, List.append_nil]
      rw [Option.bind_none, Function.update_eq_self_iff.mpr hself.symm]
      exact hown
    | some k =>
      rw [hk] at hown hself
      exact hown.push hself
  · intro e he tbl env htbl henv
    rw [hrouted] at he
    rcases List.mem_append.mp he with he | he
    · exact hs.entry e he tbl env htbl henv
    · obtain rfl := List.mem_singleton.mp he
      refine hs.record _ msg env hfrom ?_
      rw [Message.envelope, show msg.metadata = some tbl from htbl]
      exact henv

/-- A producer takes an entry out of the queue. -/
theorem Sound.of_taken {conf : SystemConf} {s s' : SystemState} {j : Nat} {msg : Msg}
    {e : Entry Nat Table} {es₁ es₂ : List (Entry Nat Table)} {evs : List (Event Thread Nat Table)}
    (hs : Sound conf s) (hidle : ∀ e ∈ evs, e.isIdle = true)
    (hfrom : s.hand (.producer j) = none) (hsplit : routed s.queue.history = es₁ ++ e :: es₂)
    (hrest : routed s'.queue.history = es₁ ++ es₂)
    (hhand : s'.hand = Function.update s.hand (.producer j) (some (msg.receive e)))
    (hhist : s'.queue.history =
      s.queue.history ++ (evs ++ [.delivered (.producer j) (msg.receive e)]))
    (hfresh : HandlesFresh s'.queue.history) : Sound conf s' := by
  have hsub : ∀ f ∈ routed s'.queue.history, f ∈ routed s.queue.history := by
    intro f hf
    rw [hrest] at hf
    rw [hsplit]
    exact List.perm_middle.symm.subset (List.mem_cons_of_mem e hf)
  have hcases : ∀ t m, s'.hand t = some m →
      (t = .producer j ∧ m = msg.receive e) ∨ s.hand t = some m := by
    intro t m hm
    rw [hhand] at hm
    by_cases ht : t = .producer j
    · subst ht
      rw [Function.update_self] at hm
      exact Or.inl ⟨rfl, (Option.some.inj hm).symm⟩
    · rw [Function.update_of_ne ht] at hm
      exact Or.inr hm
  refine ⟨fun kind => ?_, ?_, fun f hf => hs.entry f (hsub f hf), ?_⟩
  · have hnodup := nodup_allocated hfresh kind
    have hops : handleOps kind (evs ++ [Event.delivered (.producer j) (msg.receive e)]) =
        (e.handle kind).toList.map .use := by
      have hnil : handleOps kind evs = [] :=
        filterMap_isIdle hidle (fun _ _ => rfl) fun _ _ _ => rfl
      have hreceive : (msg.receive e).handle kind = e.handle kind := by cases kind <;> rfl
      rw [handleOps_append, hnil]
      cases h : e.handle kind <;> simp [handleOps, Event.op?, hreceive, h]
    have hbind : (some (msg.receive e)).bind (Message.handle kind) = e.handle kind := by
      cases kind <;> rfl
    have hfree : (s.hand (.producer j)).bind (Message.handle kind) = none := by
      rw [hfrom]
      rfl
    have hown := hs.owned kind
    rw [hsplit, List.filterMap_append] at hown
    rw [hrest, hand_bind_update hhand, hbind, List.filterMap_append]
    rw [hhist, handleOps_append, hops] at hnodup ⊢
    cases hk : e.handle kind with
    | none =>
      rw [hk] at hnodup
      rw [List.filterMap_cons_none hk] at hown
      rw [Function.update_eq_self_iff.mpr hfree.symm]
      simpa using hown
    | some k =>
      rw [hk] at hnodup
      rw [List.filterMap_cons_some hk] at hown
      -- the handle moves into the hands, and then it is used
      obtain ⟨hpop, -⟩ := hown.pop (.producer j) rfl
      have hself : Function.update (fun t => (s.hand t).bind (Message.handle kind)) (.producer j)
          (some k) (.producer j) = some k := Function.update_self ..
      have huse := hpop.run (Handling.use_toList (some k)) hself hnodup
      rwa [Function.update_idem] at huse
  · intro t m env hm henv
    rcases hcases t m hm with ⟨-, rfl⟩ | hold
    · obtain ⟨tbl, htbl, henv⟩ := Option.bind_eq_some_iff.mp henv
      exact hs.entry e (by rw [hsplit]; simp) tbl env htbl henv
    · exact hs.record t m env hold henv
  · intro i m hi hm
    rcases hcases _ m hm with ⟨ht, -⟩ | hold
    · cases ht
    · exact hs.plain i m hi hold

/-- `consumer_consume` keeps the invariant. -/
theorem Sound.of_consumed {conf : SystemConf} {s s' : SystemState} {i : Nat} {r : ConsumeResult}
    {msg msg' : Msg} {evs : List (Event Thread Nat Table)} (hs : Sound conf s)
    (hfrom : s.hand (.consumer i) = some msg) (hdata : msg.data = none)
    (hfits : r.fits (conf.transactional i) = true)
    (hmsg : consumeMsg (.consumer i) msg r = some (msg', evs))
    (hhand : s'.hand = Function.update s.hand (.consumer i) (some msg'))
    (hhist : s'.queue.history = s.queue.history ++ evs) (hfresh : HandlesFresh s'.queue.history) :
    Sound conf s' := by
  refine hs.of_hand hhand hhist (fifoOps_eq_nil_of_isLocal (isLocal_consumeMsg hmsg))
    hfresh ?_ ?_ ?_
  · intro kind
    rw [hfrom]
    exact consumeMsg_handling hdata hmsg kind
  · rintro m env ⟨⟩ henv
    cases r with
    | fail => cases hmsg
    | nothing =>
      cases hmsg
      exact hs.record _ _ env hfrom henv
    | data buf len =>
      cases hmsg
      have hplain := hs.plain i msg (by simpa [ConsumeResult.fits] using hfits) hfrom
      exact absurd (hplain.symm.trans henv) (by simp)
    | record part offset payload len table =>
      cases hmsg
      obtain ⟨tbl, htbl, henv⟩ := Option.bind_eq_some_iff.mp henv
      cases htbl
      unfold fileRecord at henv
      split at henv <;> cases henv <;> rfl
  · rintro i' m ⟨⟩ hi ⟨⟩
    cases r with
    | fail => cases hmsg
    | nothing | data buf len =>
      cases hmsg
      exact hs.plain i msg hi hfrom
    | record part offset payload len table => simp [ConsumeResult.fits, hi] at hfits

/-- A list of hooks that accepts the message keeps the invariant. -/
theorem Sound.of_hooked {conf : SystemConf} {s s' : SystemState} {a : SystemAction} {t : Thread}
    {n : Nat} {env : HookEnv} {msg : Msg} (hs : Sound conf s) (hben : Benign conf s a)
    (hpoint : a.hookPoint? conf = some (t, n, env)) (hfrom : s.hand t = some msg)
    (haccept : (hooklistRun (scriptHooks n) env msg).accept = true)
    (hhand : s'.hand = Function.update s.hand t (some (hooklistRun (scriptHooks n) env msg).msg))
    (hhist : s'.queue.history = s.queue.history ++
      (hooklistRun (scriptHooks n) env msg).effects.map (.effect t))
    (hfresh : HandlesFresh s'.queue.history) : Sound conf s' := by
  have henv := hooklistRun_envelope n env msg
  refine hs.of_hand hhand hhist (fifoOps_effects _ _) hfresh ?_ ?_ ?_
  · intro kind
    have hops := hooklistRun_handling kind n env msg
    rw [if_pos haccept] at hops
    rw [hfrom, handleOps_effects]
    exact hops
  · rintro m e ⟨⟩ he
    rw [henv] at he
    have hkeeps := hben.record _ hpoint msg hfrom haccept (by rw [he]; rfl)
    rw [hkeeps]
    exact hs.record t msg e hfrom he
  · rintro i m rfl hi ⟨⟩
    rw [henv]
    exact hs.plain i msg hi hfrom

/-- A benign step keeps the invariant or ends the process without another memory operation. -/
theorem Sound.step {conf : SystemConf} {s s' : SystemState} {a : SystemAction} (hs : Sound conf s)
    (h : FlowStep conf s s' a) (hfresh : HandlesFresh s'.queue.history)
    (hben : Benign conf s a) :
    Sound conf s' ∨ (s'.queue.crashed = true ∧
      ∀ kind, handleOps kind s'.queue.history = handleOps kind s.queue.history) := by
  by_cases hcrash : s'.queue.crashed = true ∧
      ∀ kind, handleOps kind s'.queue.history = handleOps kind s.queue.history
  · exact Or.inr hcrash
  left
  cases h with
  | @idle evs hidle hhand hhist =>
    have hhand' : s'.hand = Function.update s.hand .stats none := by
      rw [hhand]
      exact (Function.update_eq_self_iff.mpr rfl).symm
    have hfifo := filterMap_isIdle (f := Event.fifoOp?) hidle (fun _ _ => rfl) fun _ _ _ => rfl
    refine hs.of_hand hhand' hhist hfifo hfresh (fun kind => ?_) (by simp) (by simp)
    rw [handleOps, filterMap_isIdle hidle (fun _ _ => rfl) fun _ _ _ => rfl]
    exact .done none
  | crashed hidle hcr hhist =>
    refine absurd ⟨hcr, fun kind => ?_⟩ hcrash
    rw [hhist, handleOps_append]
    exact (congrArg _ (filterMap_isIdle hidle (fun _ _ => rfl) fun _ _ _ => rfl)).trans
      (List.append_nil _)
  | @appear t msg hmsg hfrom hhand hhist =>
    have henv : msg.envelope = none := by rw [Message.envelope, hmsg.2]; rfl
    refine hs.of_hand hhand (by rw [hhist, List.append_nil]) rfl hfresh (fun kind => ?_) ?_ ?_
    · rw [hfrom, Option.bind_some, Message.handle_eq_none hmsg.1 hmsg.2]
      exact .done none
    · rintro m env ⟨⟩ he
      exact absurd (henv.symm.trans he) (by simp)
    · rintro i m - - ⟨⟩
      exact henv
  | forget hfrom hdata hhand hhist =>
    exact hs.of_gone hfrom hhand (by rw [hhist, List.append_nil]) rfl hfresh fun kind =>
      Handling.leaked _
  | consumed hfrom hdata hfits hmsg hhand hhist =>
    exact hs.of_consumed hfrom hdata hfits hmsg hhand hhist hfresh
  | hooked hpoint hfrom hdata haccept hhand hhist =>
    exact hs.of_hooked hben hpoint hfrom haccept hhand hhist hfresh
  | @refusedPreadd i env msg ha hfrom haccept hhand hhist =>
    have hmeta := hben.preadd (i, env) (by rw [ha]; rfl) msg hfrom haccept
    have hdata := hooklistRun_data_of_refused haccept
    have henv : (hooklistRun (scriptHooks (conf.preadd i)) env msg).msg.envelope = none := by
      rw [Message.envelope, hmeta]
      rfl
    refine hs.of_hand hhand hhist (by simp) hfresh (fun kind => ?_) ?_ ?_
    · rw [hfrom, handleOps_refused, Option.bind_some, Option.bind_some,
        Message.handle_eq_none hdata hmeta]
      exact hooklistRun_handling_refused kind haccept
    · rintro m e ⟨⟩ he
      exact absurd (henv.symm.trans he) (by simp)
    · rintro i' m - - ⟨⟩
      exact henv
  | @refusedPostadd i p env msg ha hfrom haccept hhand hhist =>
    have hmeta := hben.postadd (.consumer i, env) (by rw [ha]; rfl) msg hfrom haccept
    refine hs.of_gone hfrom hhand hhist (by simp) hfresh fun kind => ?_
    rw [hmeta, Option.toList_none, List.map_nil, List.nil_append, handleOps_refused]
    exact hooklistRun_handling_refused kind haccept
  | @refused j n env msg hpoint hfrom haccept hhand hhist =>
    refine hs.of_gone hfrom hhand hhist (by simp) hfresh fun kind => ?_
    rw [handleOps_refused]
    exact hooklistRun_handling_refused kind haccept
  | @noNode i msg hfrom hhand hhist =>
    refine hs.of_gone hfrom hhand hhist (by simp) hfresh fun kind => ?_
    rw [handleOps_append, handleOps_dropped, List.append_nil]
    obtain ⟨data, datalen, xmark, metadata⟩ := msg
    cases kind with
    | data => cases data <;> exact Handling.release_toList _
    | table => cases data <;> exact Handling.leaked _
  | @noMark i p env args ha hcall hmark hdata haccept hfrom hhand hhist =>
    have hsame :=
      hben.memory (.consumer i) (by rw [ha]; rfl) _ hfrom args (by rw [hcall]; rfl) hmark
    refine hs.of_gone hfrom hhand hhist (by simp) hfresh fun kind => ?_
    rw [handleOps_append, handleOps_dropped, List.append_nil, handleOps_effects, effectOps_release]
    cases kind with
    | data =>
      simp only [Message.handle, hsame]
      exact Handling.release_toList _
    | table =>
      cases hmeta : args.metadata with
      | none =>
        simp only [Message.handle, hmeta]
        exact Handling.leaked _
      | some tbl =>
        simp only [Message.handle, hmeta, hooklistRun_table haccept hmeta]
        exact Handling.release_toList _
  | queued hfrom hdata hhand hhist => exact hs.of_queued hfrom hhand hhist hfresh
  | taken hidle hfrom hsplit hmark hold hrest hhand hhist =>
    exact hs.of_taken hidle hfrom hsplit hrest hhand hhist hfresh
  | @produced j msg hfrom hhand hhist =>
    have hhand' : s'.hand = Function.update s.hand (.producer j) (some msg) := by
      rw [hhand]
      exact (Function.update_eq_self_iff.mpr hfrom.symm).symm
    refine hs.of_hand hhand' hhist rfl hfresh (fun kind => ?_) ?_ (by simp)
    · have hops : handleOps kind [Event.produced (.producer j) msg] =
          (msg.handle kind).toList.map .use := by
        cases h : msg.handle kind <;> simp [handleOps, Event.op?, h]
      rw [hfrom, hops]
      exact Handling.use_toList _
    · rintro m env ⟨⟩ he
      exact hs.record _ msg env hfrom he
  | @callback j stored msg msg' evs hfrom hprod hmsg hhand hhist =>
    refine hs.of_hand hhand hhist (fifoOps_eq_nil_of_isLocal (isLocal_callbackRun hmsg)) hfresh
      (fun kind => ?_) ?_ (by simp)
    · rw [hfrom]
      exact callbackRun_handling (fun env => hs.record _ msg env hfrom) hmsg kind
    · rintro m env ⟨⟩ he
      exact absurd ((callbackRun_envelope hmsg).symm.trans he) (by simp)
  | released hfrom henv hhand hhist =>
    refine hs.of_gone hfrom hhand hhist (fifoOps_effects _ _) hfresh fun kind => ?_
    rw [handleOps_effects, effectOps_release]
    exact Handling.release_toList _

/-! ### Runs -/

/-- Before the first step there are no resources. -/
theorem sound_init (conf : SystemConf) : Sound conf (SystemState.init conf) := by
  have hhand := (threadsOk_init conf).2.1
  refine ⟨fun kind => ?_, by simp [hhand], fun e he => (nomatch he), by simp [hhand]⟩
  rw [hhand]
  exact Owned.empty

/-- A metadata table can be released twice: a postadd hook refuses a message with metadata,
`hooklist_run` frees the table, and `queue_add` frees it again. -/
theorem postadd_releases_twice :
    ∃ s, exec (SystemState.step ⟨1, fun _ => true, [0], 1, 0, fun _ => 0, fun _ => 0⟩)
        (SystemState.init ⟨1, fun _ => true, [0], 1, 0, fun _ => 0, fun _ => 0⟩)
        [.producerInit 0 true, .consumerInit 0 true, .await 0, .consumerHead 0,
          .consume 0 (.record 0 0 (some 0) 5 0), .preadd 0 [],
          .queue (.add (.consumer 0) ⟨some 0, 5, 0, some ⟨0, some ⟨0, 0, some 0⟩⟩⟩ (some 0)
            [⟨[], false⟩])] = some s ∧
      ¬ Safe (handleOps .table s.queue.history) :=
  exists_of_exec_any (by decide) fun _ _ h => h

/-- In every run of benign steps no data buffer and no metadata table is released twice or touched
after its release. -/
theorem resources_released_once (conf : SystemConf) (acts : List SystemAction) (s : SystemState)
    (h : exec (SystemState.step conf) (SystemState.init conf) acts = some s)
    (hbenign : AllSteps (SystemState.step conf) (fun s a _ => Benign conf s a)
      (SystemState.init conf) acts)
    (kind : Kind) : Safe (handleOps kind s.queue.history) := by
  refine (flow_induction
    (P := fun acts s => AllSteps (SystemState.step conf) (fun s a _ => Benign conf s a)
    (SystemState.init conf) acts → (∀ kind, Safe (handleOps kind s.queue.history)) ∧
      (s.queue.crashed = false → Sound conf s)) ?_ ?_ h hbenign).1 kind
  · exact fun _ => ⟨fun kind => ((sound_init conf).owned kind).safe, fun _ => sound_init conf⟩
  · intro acts s a s' hexec hst hs hcr _ hflow hfresh hall
    obtain ⟨hbefore, hben⟩ := (allSteps_concat hexec hst).mp hall
    obtain ⟨hsafe, hsound⟩ := hs hbefore
    rcases (hsound hcr).step hflow hfresh hben with hnext | ⟨hcr', hsame⟩
    · exact ⟨fun kind => (hnext.owned kind).safe, fun _ => hnext⟩
    · refine ⟨fun kind => ?_, fun hcr'' => absurd (hcr'.symm.trans hcr'') (by simp)⟩
      rw [hsame]
      exact hsafe kind

/-- A benign run with hooks that work on data and metadata: a postadd hook adds a table, a preget
hook replaces the data, and the producer releases both. -/
theorem resources_released_once_with_hooks :
    ∃ s, exec (SystemState.step ⟨1, fun _ => false, [0], 1, 1, fun _ => 0, fun _ => 0⟩)
        (SystemState.init ⟨1, fun _ => false, [0], 1, 1, fun _ => 0, fun _ => 0⟩)
        [.producerInit 0 true, .consumerInit 0 true, .await 0, .consumerHead 0,
          .consume 0 (.data 0 5), .preadd 0 [],
          .queue (.add (.consumer 0) ⟨some 0, 5, 0, none⟩ (some 0) [⟨[.insert 0], true⟩]),
          .queue (.lock (.consumer 0) true), .addReturned 0,
          .producerHead 0, .queue (.get (.producer 0) ⟨none, 0, 0, none⟩ true),
          .queue (.preget (.producer 0) [⟨[.read, .find, .replace 1 9], true⟩]), .getReturned 0,
          .postget 0 [], .produce 0, .callback 0 true, .release 0] = some s ∧
      .release 0 ∈ handleOps .data s.queue.history ∧ .release 1 ∈ handleOps .data s.queue.history ∧
      ∀ kind, Safe (handleOps kind s.queue.history) := by
  refine exists_of_exec_any (P := fun s => .release 0 ∈ handleOps .data s.queue.history ∧
    .release 1 ∈ handleOps .data s.queue.history) (by decide) ?_
  rintro s hexec ⟨hfirst, hsecond⟩
  exact ⟨hfirst, hsecond, resources_released_once _ _ s hexec (by decide)⟩

end Schaufel
