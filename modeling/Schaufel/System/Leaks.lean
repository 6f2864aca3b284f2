import Schaufel.Foundation.Custody
import Schaufel.Queue.Teardown
import Schaufel.System.Resources
import Schaufel.System.Stopping

/-!
# What is freed in the end

`Sound` says that the resources within reach are alive.  Here is the converse, over the same runs: a
data buffer or a metadata table that nobody has released is in the hands of a thread or belongs to a
queued entry, so that what is out of reach was released.

For data buffers this holds in every benign run.  Tables do leak: `consume` returns without a look
at the metadata of a message that has no data, and `queue_add` frees nothing but the data if it has
no memory for a node.  `Tidy` excludes steps of these two kinds, and `table_leaks_at_exit` is a run
of a consumer that forgets the table of its last record.

What is still queued when all threads have exited is released by nobody: `queue_free` frees the
memory of the queue itself, all of it and once (`queue_freed_once`), but not the data and the tables
of its entries.
-/

namespace Schaufel

open HandleOp

/-! ### What the functions account for -/

/-- A call of a hook loses nothing its message carries. -/
theorem HookOp.accounts (kind : Kind) (op : HookOp) (msg : Msg) :
    Accounts (msg.handle kind) (effectOps kind (op.run msg).2) ((op.run msg).1.handle kind) := by
  obtain ⟨data, datalen, xmark, metadata⟩ := msg
  cases op with
  | read =>
    cases kind with
    | data => cases data <;> exact Accounts.use_toList _
    | table => cases data <;> exact .done _
  | find =>
    cases kind with
    | data => cases metadata <;> exact .done _
    | table => cases metadata <;> exact Accounts.use_toList _
  | insert table =>
    cases kind with
    | data => cases metadata <;> exact .done _
    | table =>
      cases metadata with
      | none => exact (Accounts.alloc table).trans (.use table)
      | some t => exact .use t.id
  | replace buf len =>
    cases kind with
    | data =>
      cases data with
      | none => exact .alloc buf
      | some d => exact .replace d buf
    | table => cases data <;> exact .done _
  | setXmark xmark => cases kind <;> exact .done _

theorem runOps_accounts (kind : Kind) (ops : List HookOp) (msg : Msg) :
    Accounts (msg.handle kind) (effectOps kind (runOps ops msg).2)
      ((runOps ops msg).1.handle kind) := by
  induction ops generalizing msg with
  | nil => exact .done _
  | cons op ops ih =>
    simp only [runOps, effectOps_append]
    exact (op.accounts kind msg).trans (ih _)

/-- A list of hooks loses nothing its message carries, and releases it all if it refuses the
message. -/
theorem hooklistRun_accounts (kind : Kind) (n : Nat) (env : HookEnv) (msg : Msg) :
    Accounts (msg.handle kind) (effectOps kind (hooklistRun (scriptHooks n) env msg).effects)
      (if (hooklistRun (scriptHooks n) env msg).accept then
        (hooklistRun (scriptHooks n) env msg).msg.handle kind else none) := by
  unfold scriptHooks
  induction List.range n generalizing msg with
  | nil => exact .done _
  | cons k ks ih =>
    have hhook := runOps_accounts kind (env.getD k ⟨[], true⟩).ops msg
    simp only [List.map_cons, hooklistRun]
    split
    · rw [effectOps_append]
      exact hhook.trans (ih _)
    · rw [effectOps_append, effectOps_release]
      exact hhook.trans (.release_toList _)

/-- Hooks that refuse a message have released all it carried. -/
theorem hooklistRun_accounts_refused (kind : Kind) {n : Nat} {env : HookEnv} {msg : Msg}
    (haccept : (hooklistRun (scriptHooks n) env msg).accept = false) :
    Accounts (msg.handle kind) (effectOps kind (hooklistRun (scriptHooks n) env msg).effects)
      none := by
  have hops := hooklistRun_accounts kind n env msg
  rwa [haccept] at hops

/-- `consumer_consume` keeps what it allocates and what the message carried before. -/
theorem consumeMsg_accounts {t : Thread} {msg msg' : Msg} {r : ConsumeResult}
    {evs : List (Event Thread Nat Table)} (hdata : msg.data = none)
    (h : consumeMsg t msg r = some (msg', evs)) (kind : Kind) :
    Accounts (msg.handle kind) (handleOps kind evs) (msg'.handle kind) := by
  obtain ⟨data, datalen, xmark, metadata⟩ := msg
  obtain rfl : data = none := hdata
  cases r with
  | fail => cases h
  | nothing =>
    cases h
    exact .done _
  | data buf len =>
    cases h
    cases kind with
    | data => exact .alloc buf
    | table => exact .done _
  | record part offset payload len table =>
    cases h
    cases kind with
    | data => cases metadata <;> cases payload <;> first | exact .done _ | exact .alloc _
    | table =>
      cases metadata with
      | none =>
        cases payload <;> exact ((Accounts.alloc table).trans (.use table)).trans (.use table)
      | some t => cases payload <;> exact (Accounts.use t.id).trans (.use t.id)

/-- The callback releases the data of the record, which is the data of the message. -/
theorem callbackRun_accounts {t : Thread} {msg msg' : Msg} {stored : Bool}
    {evs : List (Event Thread Nat Table)}
    (hrecord : ∀ env, msg.envelope = some env → env.payload = msg.data)
    (h : callbackRun t msg stored = some (msg', evs)) (kind : Kind) :
    Accounts (msg.handle kind) (handleOps kind evs) (msg'.handle kind) := by
  obtain ⟨data, datalen, xmark, metadata⟩ := msg
  cases metadata with
  | none =>
    cases h
    exact .done _
  | some tbl =>
    obtain ⟨id, envelope⟩ := tbl
    cases envelope with
    | none =>
      cases h
      cases kind with
      | data => exact .done _
      | table => exact .use id
    | some env =>
      obtain ⟨part, offset, payload⟩ := env
      obtain rfl : payload = data := hrecord _ rfl
      cases stored with
      | false => cases h
      | true =>
        cases h
        cases kind with
        | data => cases payload <;> first | exact .done _ | exact Accounts.release_toList _
        | table => cases payload <;> exact (Accounts.use id).trans (.use id)

/-! ### Tidy steps -/

/-- The event records that `queue_add` had no memory. -/
def Event.isDropped {ι δ μ : Type} : Event ι δ μ → Bool
  | .dropped .. => true
  | _ => false

/-- The step loses no table. -/
@[mk_iff]
structure Tidy (conf : SystemConf) (s s' : SystemState) : Prop where
  /-- `queue_add` does not run out of memory. -/
  memory : ∀ e ∈ s'.queue.history, e.isDropped = false
  /-- No thread forgets a message that has a table. -/
  forgotten : ∀ t ∈ conf.threads, ∀ msg ∈ s.hand t, s'.hand t = none →
    s'.queue.history = s.queue.history → msg.metadata = none

instance (conf : SystemConf) (s s' : SystemState) : Decidable (Tidy conf s s') :=
  decidable_of_iff _ (tidy_iff conf s s').symm

/-- Only configured threads have messages. -/
theorem Posted.mem_threads {conf : SystemConf} {s : SystemState} (hs : Posted conf s) {t : Thread}
    {msg : Msg} (ht : s.hand t = some msg) : t ∈ conf.threads := by
  cases t with
  | consumer i =>
    have hi := hs.consumer i fun hpc => by simp [SystemState.hand, ConsumerThread.hand, hpc] at ht
    simp [SystemConf.threads, hi]
  | producer j =>
    have hj := hs.producer j fun hpc => by simp [SystemState.hand, ProducerThread.hand, hpc] at ht
    simp [SystemConf.threads, hj]
  | stats => cases ht

/-! ### The invariant -/

/-- Every resource of a kind that was allocated was released, or it is in the hands of a thread or
in the queue. -/
def NoLeak (kind : Kind) (s : SystemState) : Prop :=
  Tracked (handleOps kind s.queue.history) (fun t => (s.hand t).bind (Message.handle kind))
    ((routed s.queue.history).filterMap (Entry.handle kind))

/-- A step that leaves the queue alone. -/
theorem NoLeak.of_hand {kind : Kind} {s s' : SystemState} {t : Thread} {m : Option Msg}
    {evs : List (Event Thread Nat Table)} (hs : NoLeak kind s)
    (hhand : s'.hand = Function.update s.hand t m)
    (hhist : s'.queue.history = s.queue.history ++ evs) (hfifo : fifoOps evs = [])
    (hops : Accounts ((s.hand t).bind (Message.handle kind)) (handleOps kind evs)
      (m.bind (Message.handle kind))) : NoLeak kind s' := by
  rw [NoLeak, hand_bind_update hhand, hhist, routed_append_of_fifoOps_eq_nil hfifo,
    handleOps_append]
  exact Tracked.run hs hops

/-- A thread gives its message up. -/
theorem NoLeak.of_gone {kind : Kind} {s s' : SystemState} {t : Thread} {msg : Msg}
    {evs : List (Event Thread Nat Table)} (hs : NoLeak kind s) (hfrom : s.hand t = some msg)
    (hhand : s'.hand = Function.update s.hand t none)
    (hhist : s'.queue.history = s.queue.history ++ evs) (hfifo : fifoOps evs = [])
    (hops : Accounts (msg.handle kind) (handleOps kind evs) none) : NoLeak kind s' := by
  refine hs.of_hand hhand hhist hfifo ?_
  rw [hfrom]
  exact hops

/-- A message that is queued or delivered uses what it carries. -/
theorem handleOps_moved (kind : Kind) {e : Event Thread Nat Table} {msg : Msg}
    (he : e.op? kind = (msg.handle kind).map .use) :
    handleOps kind [e] = (msg.handle kind).toList.map .use := by
  cases h : msg.handle kind <;> simp [handleOps, he, h]

/-- A consumer queues its message. -/
theorem NoLeak.of_queued {kind : Kind} {s s' : SystemState} {i : Nat} {msg : Msg}
    (hs : NoLeak kind s) (hfrom : s.hand (.consumer i) = some msg)
    (hhand : s'.hand = Function.update s.hand (.consumer i) none)
    (hhist : s'.queue.history = s.queue.history ++ [.queued (.consumer i) msg]) :
    NoLeak kind s' := by
  have hself : (s.hand (.consumer i)).bind (Message.handle kind) = msg.handle kind := by
    rw [hfrom]
    rfl
  have huse : Accounts ((s.hand (.consumer i)).bind (Message.handle kind))
      ((msg.handle kind).toList.map .use) (msg.handle kind) := by
    rw [hself]
    exact .use_toList _
  have hentry : [msg.entry].filterMap (Entry.handle kind) = (msg.handle kind).toList := by
    cases kind <;> rfl
  -- the handle is used, and then it moves into the queue
  have hmoved := (Tracked.run hs huse).push (.consumer i)
  rw [Function.update_self, Function.update_idem] at hmoved
  rw [NoLeak, hand_bind_update hhand, hhist, routed_queued, handleOps_append,
    handleOps_moved kind rfl, List.filterMap_append, hentry]
  exact hmoved

/-- A producer takes an entry out of the queue. -/
theorem NoLeak.of_taken {kind : Kind} {s s' : SystemState} {j : Nat} {msg : Msg}
    {e : Entry Nat Table} {es₁ es₂ : List (Entry Nat Table)} {evs : List (Event Thread Nat Table)}
    (hs : NoLeak kind s) (hidle : ∀ e ∈ evs, e.isIdle = true)
    (hfrom : s.hand (.producer j) = none) (hsplit : routed s.queue.history = es₁ ++ e :: es₂)
    (hrest : routed s'.queue.history = es₁ ++ es₂)
    (hhand : s'.hand = Function.update s.hand (.producer j) (some (msg.receive e)))
    (hhist : s'.queue.history =
      s.queue.history ++ (evs ++ [.delivered (.producer j) (msg.receive e)])) : NoLeak kind s' := by
  have hreceive : (msg.receive e).handle kind = e.handle kind := by cases kind <;> rfl
  have hnil : handleOps kind evs = [] := filterMap_isIdle hidle (fun _ _ => rfl) fun _ _ _ => rfl
  have hfree : (s.hand (.producer j)).bind (Message.handle kind) = none := by
    rw [hfrom]
    rfl
  have hstore : (routed s.queue.history).filterMap (Entry.handle kind) =
      es₁.filterMap (Entry.handle kind) ++ (e.handle kind).toList ++
        es₂.filterMap (Entry.handle kind) := by
    rw [hsplit, List.filterMap_append, List.filterMap_cons]
    cases e.handle kind <;> simp
  -- the handle moves into the hands, and then it is used
  rw [NoLeak, hstore] at hs
  have hpop := Tracked.pop (t := .producer j) hs hfree
  have huse := hpop.run (t := .producer j)
    (by rw [Function.update_self]; exact Accounts.use_toList (e.handle kind))
  rw [Function.update_idem] at huse
  rw [NoLeak, hand_bind_update hhand, hrest, hhist, handleOps_append, handleOps_append, hnil,
    List.nil_append, handleOps_moved kind rfl, Option.bind_some, hreceive, List.filterMap_append]
  exact huse

/-- A benign step loses no data, and no table if it is tidy. -/
theorem NoLeak.step {conf : SystemConf} {kind : Kind} {s s' : SystemState} {a : SystemAction}
    (hs : NoLeak kind s) (hsound : Sound conf s) (hposted : Posted conf s)
    (h : FlowStep conf s s' a) (hben : Benign conf s a) (htidy : kind = .table → Tidy conf s s')
    (hup : s'.queue.crashed = false) : NoLeak kind s' := by
  cases h with
  | @idle evs hidle hhand hhist =>
    have hhand' : s'.hand = Function.update s.hand .stats none := by
      rw [hhand]
      exact (Function.update_eq_self_iff.mpr rfl).symm
    have hfifo : fifoOps evs = [] := filterMap_isIdle hidle (fun _ _ => rfl) fun _ _ _ => rfl
    have hnil : handleOps kind evs = [] := filterMap_isIdle hidle (fun _ _ => rfl) fun _ _ _ => rfl
    refine hs.of_hand hhand' hhist hfifo ?_
    rw [hnil]
    exact .done none
  | crashed hidle hcr hhist => exact absurd (hcr.symm.trans hup) (by simp)
  | @appear t msg hmsg hfrom hhand hhist =>
    refine hs.of_hand hhand (by rw [hhist, List.append_nil]) rfl ?_
    rw [hfrom, Option.bind_some, Message.handle_eq_none hmsg.1 hmsg.2]
    exact .done none
  | @forget t msg hfrom hdata hhand hhist =>
    have hnone : msg.handle kind = none := by
      cases kind with
      | data => exact hdata
      | table =>
        have hmeta := (htidy rfl).forgotten t (hposted.mem_threads hfrom) msg hfrom
          (by rw [hhand, Function.update_self]) hhist
        rw [Message.handle, hmeta]
        rfl
    refine hs.of_gone hfrom hhand (by rw [hhist, List.append_nil]) rfl ?_
    rw [hnone]
    exact .done none
  | consumed hfrom hdata hfits hmsg hhand hhist =>
    refine hs.of_hand hhand hhist (fifoOps_eq_nil_of_isLocal (isLocal_consumeMsg hmsg)) ?_
    rw [hfrom]
    exact consumeMsg_accounts hdata hmsg kind
  | @hooked t n env msg hpoint hfrom hdata haccept hhand hhist =>
    have hops := hooklistRun_accounts kind n env msg
    rw [if_pos haccept] at hops
    refine hs.of_hand hhand hhist (fifoOps_effects _ _) ?_
    rw [hfrom, handleOps_effects]
    exact hops
  | @refusedPreadd i env msg ha hfrom haccept hhand hhist =>
    have hmeta := hben.preadd (i, env) (by rw [ha]; rfl) msg hfrom haccept
    refine hs.of_hand hhand hhist (by simp) ?_
    rw [hfrom, handleOps_refused, Option.bind_some, Option.bind_some,
      Message.handle_eq_none (hooklistRun_data_of_refused haccept) hmeta]
    exact hooklistRun_accounts_refused kind haccept
  | @refusedPostadd i p env msg ha hfrom haccept hhand hhist =>
    have hmeta := hben.postadd (.consumer i, env) (by rw [ha]; rfl) msg hfrom haccept
    refine hs.of_gone hfrom hhand hhist (by simp) ?_
    rw [hmeta, Option.toList_none, List.map_nil, List.nil_append, handleOps_refused]
    exact hooklistRun_accounts_refused kind haccept
  | refused hpoint hfrom haccept hhand hhist =>
    refine hs.of_gone hfrom hhand hhist (by simp) ?_
    rw [handleOps_refused]
    exact hooklistRun_accounts_refused kind haccept
  | @noNode i msg hfrom hhand hhist =>
    cases kind with
    | data =>
      refine hs.of_gone hfrom hhand hhist (by simp) ?_
      rw [handleOps_append, handleOps_dropped, List.append_nil]
      obtain ⟨data, datalen, xmark, metadata⟩ := msg
      cases data <;> exact Accounts.release_toList _
    | table =>
      have hmem : .dropped (.consumer i) msg ∈ s'.queue.history := by
        rw [hhist]
        simp
      cases (htidy rfl).memory _ hmem
  | @noMark i p env args ha hcall hmark hdata haccept hfrom hhand hhist =>
    cases kind with
    | data =>
      have hsame :=
        hben.memory (.consumer i) (by rw [ha]; rfl) _ hfrom args (by rw [hcall]; rfl) hmark
      refine hs.of_gone hfrom hhand hhist (by simp) ?_
      rw [handleOps_append, handleOps_dropped, List.append_nil, handleOps_effects,
        effectOps_release]
      simp only [Message.handle, hsame]
      exact .release_toList _
    | table =>
      have hmem : .dropped (.consumer i) args ∈ s'.queue.history := by
        rw [hhist]
        simp
      cases (htidy rfl).memory _ hmem
  | queued hfrom hdata hhand hhist => exact hs.of_queued hfrom hhand hhist
  | taken hidle hfrom hsplit hmark hold hrest hhand hhist =>
    exact hs.of_taken hidle hfrom hsplit hrest hhand hhist
  | @produced j msg hfrom hhand hhist =>
    have hhand' : s'.hand = Function.update s.hand (.producer j) (some msg) := by
      rw [hhand]
      exact (Function.update_eq_self_iff.mpr hfrom.symm).symm
    refine hs.of_hand hhand' hhist rfl ?_
    rw [hfrom, handleOps_moved kind rfl]
    exact .use_toList _
  | @callback j stored msg msg' evs hfrom hprod hmsg hhand hhist =>
    refine hs.of_hand hhand hhist (fifoOps_eq_nil_of_isLocal (isLocal_callbackRun hmsg)) ?_
    rw [hfrom]
    exact callbackRun_accounts (fun env => hsound.record _ msg env hfrom) hmsg kind
  | released hfrom henv hhand hhist =>
    refine hs.of_gone hfrom hhand hhist (fifoOps_effects _ _) ?_
    rw [handleOps_effects, effectOps_release]
    exact .release_toList _

/-! ### Runs -/

/-- Both invariants hold in every state a benign run reaches. -/
theorem sound_noLeak_of_exec {conf : SystemConf} {acts : List SystemAction} {s : SystemState}
    {kind : Kind} (h : exec (SystemState.step conf) (SystemState.init conf) acts = some s)
    (hbenign : AllSteps (SystemState.step conf) (fun s a _ => Benign conf s a)
      (SystemState.init conf) acts)
    (htidy : kind = .table →
      AllSteps (SystemState.step conf) (fun s _ s' => Tidy conf s s') (SystemState.init conf) acts)
    (hup : s.queue.crashed = false) : Sound conf s ∧ NoLeak kind s := by
  refine flow_induction (P := fun acts s =>
    AllSteps (SystemState.step conf) (fun s a _ => Benign conf s a) (SystemState.init conf) acts →
      (kind = .table →
        AllSteps (SystemState.step conf) (fun s _ s' => Tidy conf s s') (SystemState.init conf)
          acts) →
        s.queue.crashed = false → Sound conf s ∧ NoLeak kind s) ?_ ?_ h hbenign htidy hup
  · intro _ _ _
    have hhand := (threadsOk_init conf).2.1
    refine ⟨sound_init conf, ?_⟩
    rw [NoLeak, hhand]
    exact Tracked.empty
  · intro acts s a s' hexec hst hs hcr _ hflow hfresh hall htidied hup'
    obtain ⟨hbefore, hben⟩ := (allSteps_concat hexec hst).mp hall
    obtain ⟨hsound, hleak⟩ :=
      hs hbefore (fun hk => ((allSteps_concat hexec hst).mp (htidied hk)).1) hcr
    refine ⟨?_, hleak.step hsound (posted_of_exec hexec hcr) hflow hben
      (fun hk => ((allSteps_concat hexec hst).mp (htidied hk)).2) hup'⟩
    rcases hsound.step hflow hfresh hben with hnext | ⟨hcr', -⟩
    · exact hnext
    · exact absurd (hcr'.symm.trans hup') (by simp)

/-- When all configured threads have exited, there are no others. -/
theorem Posted.exited {conf : SystemConf} {s : SystemState} (hs : Posted conf s)
    (hexited : s.AllExited conf) :
    (∀ i, (s.consumers i).pc = .exited) ∧ ∀ j, (s.producers j).pc = .exited := by
  refine ⟨fun i => ?_, fun j => ?_⟩
  · by_contra hlive
    exact hlive (hexited.2.1 i (hs.consumer i hlive))
  · by_contra hlive
    exact hlive (hexited.2.2 j (hs.producer j hlive))

/-- When all threads have exited, nobody has a message. -/
theorem Posted.hand_eq_none {conf : SystemConf} {s : SystemState} (hs : Posted conf s)
    (hexited : s.AllExited conf) (t : Thread) : s.hand t = none := by
  obtain ⟨hconsumers, hproducers⟩ := hs.exited hexited
  cases t with
  | consumer i => simp [SystemState.hand, ConsumerThread.hand, hconsumers i]
  | producer j => simp [SystemState.hand, ProducerThread.hand, hproducers j]
  | stats => rfl

/-- A transactional consumer reads a record without a payload and exits: the table of the record
stays behind, in nobody's hands. -/
theorem table_leaks_at_exit :
    ∃ s, exec (SystemState.step ⟨1, fun _ => true, [0], 0, 0, fun _ => 0, fun _ => 0⟩)
        (SystemState.init ⟨1, fun _ => true, [0], 0, 0, fun _ => 0, fun _ => 0⟩)
        [.producerInit 0 true, .consumerInit 0 true, .await 0, .consumerHead 0,
          .consume 0 (.record 0 0 none 0 7), .stop, .consumerHead 0] = some s ∧
      (s.consumers 0).pc = .exited ∧ routed s.queue.history = [] ∧
      7 ∈ allocated (handleOps .table s.queue.history) ∧
      .release 7 ∉ handleOps .table s.queue.history :=
  exists_of_exec_any (by decide) fun _ _ h => h

/-- In every state that a run of benign steps reaches without a crash, a data buffer that was
allocated was released, and only once, if and only if no thread has a message with it and no queued
entry holds it.  The same is true of metadata tables if the steps are tidy.  When all threads have
exited, only what is still queued was not released. -/
theorem resource_released_iff (conf : SystemConf) (acts : List SystemAction) (s : SystemState)
    (h : exec (SystemState.step conf) (SystemState.init conf) acts = some s)
    (hbenign : AllSteps (SystemState.step conf) (fun s a _ => Benign conf s a)
      (SystemState.init conf) acts)
    (kind : Kind)
    (htidy : kind = .table →
      AllSteps (SystemState.step conf) (fun s _ s' => Tidy conf s s') (SystemState.init conf) acts)
    (hup : s.queue.crashed = false) (k : Nat)
    (hk : k ∈ allocated (handleOps kind s.queue.history)) :
    ((handleOps kind s.queue.history).count (.release k) = 1 ↔
      (∀ t msg, s.hand t = some msg → msg.handle kind ≠ some k) ∧
        ∀ e ∈ routed s.queue.history, e.handle kind ≠ some k) ∧
    (s.AllExited conf → ((handleOps kind s.queue.history).count (.release k) = 1 ↔
      ∀ e ∈ routed s.queue.history, e.handle kind ≠ some k)) := by
  obtain ⟨hsound, hleak⟩ := sound_noLeak_of_exec h hbenign htidy hup
  have hiff : (handleOps kind s.queue.history).count (.release k) = 1 ↔
      (∀ t msg, s.hand t = some msg → msg.handle kind ≠ some k) ∧
        ∀ e ∈ routed s.queue.history, e.handle kind ≠ some k := by
    rw [Safe.count_release_eq_one_iff (hsound.owned kind).safe,
      (hsound.owned kind).released_iff hleak hk]
    simp only [ne_eq, Option.bind_eq_some_iff, not_exists, not_and, List.mem_filterMap]
  refine ⟨hiff, fun hexited => hiff.trans (and_iff_right fun t msg ht => ?_)⟩
  exact absurd (((posted_of_exec h hup).hand_eq_none hexited t).symm.trans ht) (by simp)

/-- A table that a postadd hook has added and a buffer that a preget hook has put in place of
another one are released when both threads have exited. -/
theorem resource_released_iff_with_hooks :
    ∃ s, exec (SystemState.step ⟨1, fun _ => false, [0], 1, 1, fun _ => 0, fun _ => 0⟩)
        (SystemState.init ⟨1, fun _ => false, [0], 1, 1, fun _ => 0, fun _ => 0⟩)
        [.producerInit 0 true, .consumerInit 0 true, .await 0, .consumerHead 0,
          .consume 0 (.data 0 5), .preadd 0 [],
          .queue (.add (.consumer 0) ⟨some 0, 5, 0, none⟩ (some 0) [⟨[.insert 0], true⟩]),
          .queue (.lock (.consumer 0) true), .addReturned 0,
          .producerHead 0, .queue (.get (.producer 0) ⟨none, 0, 0, none⟩ true),
          .queue (.preget (.producer 0) [⟨[.read, .find, .replace 1 9], true⟩]), .getReturned 0,
          .postget 0 [], .produce 0, .callback 0 true, .release 0, .producerHead 0,
          .queue (.get (.producer 0) ⟨none, 9, 0, some ⟨0, none⟩⟩ true),
          .queue (.wake (.producer 0) true), .getReturned 0, .consumerHead 0, .consume 0 .fail,
          .joinConsumers, .producerHead 0] = some s ∧
      (handleOps .data s.queue.history).count (.release 1) = 1 ∧
      (handleOps .table s.queue.history).count (.release 0) = 1 := by
  refine exists_of_exec_any (P := fun s => s.AllExited ⟨1, fun _ => false, [0], 1, 1, fun _ => 0,
    fun _ => 0⟩ ∧ routed s.queue.history = [] ∧ 1 ∈ allocated (handleOps .data s.queue.history) ∧
    0 ∈ allocated (handleOps .table s.queue.history)) (by decide) ?_
  rintro s hs ⟨hexited, hrouted, hdata, htable⟩
  have hnone : ∀ kind k, ∀ e ∈ routed s.queue.history, e.handle kind ≠ some k := by simp [hrouted]
  have hdata := resource_released_iff _ _ s hs (by decide) .data (by simp) hexited.1 1 hdata
  have htable :=
    resource_released_iff _ _ s hs (by decide) .table (fun _ => by decide) hexited.1 0 htable
  exact ⟨(hdata.2 hexited).mpr (hnone _ _), (htable.2 hexited).mpr (hnone _ _)⟩

/-! ### The end of the queue -/

/-- The thread of the statistics never waits in the queue. -/
theorem SystemStep.stats_idle {conf : SystemConf} {s s' : SystemState} {a : SystemAction}
    {ps : List Ptr} (h : SystemStep conf s a s') (hinv : QueueInv s.queue ps)
    (hidle : s.queue.call .stats = .idle) :
    s'.queue.call .stats = .idle := by
  have hother : ∀ {b : QueueAction Thread Nat Table HookEnv} {q : QueueState Thread Nat Table},
      s.queue.step conf.queue b = some q → Thread.stats ≠ b.thread → q.call .stats = .idle := by
    intro b q hq hne
    have hcalls := (hinv.step (queueStep_of_step hq).2).1.2.calls .stats hne
    rw [hidle] at hcalls
    cases hcall : q.call .stats <;> rw [hcall] at hcalls <;> cases hcalls
  cases h with
  | enterAdd hpc hq => exact hother hq (by simp [QueueAction.thread])
  | enterGet hpc hq => exact hother hq (by simp [QueueAction.thread])
  | @inside b q hin hq =>
    by_cases hstats : Thread.stats = b.thread
    · -- it only reads the counters
      cases b with
      | count t c =>
        obtain ⟨-, hstep⟩ := queueStep_of_step hq
        cases hstep
        exact hidle
      | add t args p env | lock t alloc | get t msg alloc | wake t timeout | preget t env =>
        obtain rfl : .stats = t := hstats
        exact hin.elim
    · exact hother hq hstats
  | _ => exact hidle

/-- In every reached state no node of the queue is lost, and the thread of the statistics is
outside. -/
theorem housed_of_exec {conf : SystemConf} {acts : List SystemAction} {s : SystemState}
    (h : exec (SystemState.step conf) (SystemState.init conf) acts = some s) :
    ∃ ps, QueueInv s.queue ps ∧ Housed s.queue ps ∧ s.queue.call .stats = .idle := by
  refine exec_induction (P := fun _ (s : SystemState) =>
    ∃ ps, QueueInv s.queue ps ∧ Housed s.queue ps ∧ s.queue.call .stats = .idle) ?_ ?_ h
  · exact ⟨[], queueInv_init, ⟨fun p hp => (by cases hp), List.nodup_nil⟩, rfl⟩
  · rintro acts s a s' hexec ⟨ps, hinv, hhoused, hidle⟩ hst
    obtain ⟨-, hsys, -⟩ := systemStep_of_step hst
    obtain ⟨ps', hinv'⟩ := queueInv_of_system_exec (exec_concat_eq_some.mpr ⟨s, hexec, hst⟩)
    refine ⟨ps', hinv', ?_, hsys.stats_idle hinv hidle⟩
    rcases hsys.queue_cases with ⟨evs, -, hq⟩ | hq | ⟨b, -, hq⟩
    · rw [hq] at hinv' ⊢
      exact hhoused.of_heap_eq (t := .stats) hinv hinv' ⟨fun _ _ => rfl, fun _ _ _ _ => rfl⟩ rfl rfl
        hhoused.keys fun _ hp => hp
    · rw [hq] at hinv' ⊢
      exact hhoused.of_heap_eq (t := .stats) hinv hinv' ⟨fun _ _ => rfl, fun _ _ _ _ => rfl⟩ rfl rfl
        hhoused.keys fun _ hp => hp
    · exact hhoused.step hinv hinv' (queueStep_of_step hq).2

/-- `main` has joined all threads before it frees the queue. -/
theorem allExited_of_done {conf : SystemConf} {acts : List SystemAction} {s : SystemState}
    (h : exec (SystemState.step conf) (SystemState.init conf) acts = some s)
    (hup : s.queue.crashed = false) (hmain : s.main = .done) : s.AllExited conf := by
  refine ⟨hup, fun i _ => ?_, ?_⟩
  · rcases (posted_of_exec h hup).main with hjoin | hexited
    · cases hjoin.symm.trans hmain
    · exact hexited i
  · refine exec_invariant (P := fun s : SystemState =>
      s.main = .done → ∀ j < conf.marks.length, (s.producers j).pc = .exited) ?_ ?_ h hmain
    · intro hdone
      cases hdone
    · intro s a s' hs hst hdone j hj
      obtain ⟨-, hsys, -⟩ := systemStep_of_step hst
      have hstays := hsys.exited.2 j
      cases hsys with
      | joinProducers hexit => exact hexit j hj
      | joinConsumers => cases hdone
      | _ => exact hstays (hs hdone j hj)

/-- A thread that has exited is not in the queue. -/
theorem Posted.outside_of_allExited {conf : SystemConf} {s : SystemState} (hs : Posted conf s)
    (hexited : s.AllExited conf) (hidle : s.queue.call .stats = .idle) (t : Thread) :
    (s.queue.call t).outside = true := by
  obtain ⟨hconsumers, hproducers⟩ := hs.exited hexited
  have hpost := hs.post t
  cases t with
  | consumer i => simpa [SystemState.AtPost, hconsumers i] using hpost
  | producer j => simpa [SystemState.AtPost, hproducers j] using hpost
  | stats =>
    rw [hidle]
    rfl

/-- After every run in which `main` has joined all threads, `queue_free` comes to its end without
reading freed memory, whatever shape the tree has: no thread waits on what it destroys, and it frees
every list node with its message and the record and the tree node of every mark exactly once, and
nothing else. -/
theorem queue_freed_once (conf : SystemConf) (acts : List SystemAction) (s : SystemState)
    (h : exec (SystemState.step conf) (SystemState.init conf) acts = some s)
    (hup : s.queue.crashed = false) (hmain : s.main = .done) (root : List (Node Xmark) → Nat)
    (rounds : Nat) (hnodes : (routed s.queue.history).length ≤ rounds)
    (hmarks : s.queue.q.xtree.length ≤ rounds) :
    (∀ t, (s.queue.call t).waitsOn = none) ∧
      ∃ blocks, queueFree root rounds s.queue.q = some blocks ∧ blocks.Nodup ∧
        ∀ b, b ∈ blocks ↔ s.queue.q.owns b = true := by
  obtain ⟨ps, hinv, hhoused, hidle⟩ := housed_of_exec h
  have hout := (posted_of_exec h hup).outside_of_allExited (allExited_of_done h hup hmain) hidle
  refine ⟨fun t => ?_, queueFree_spec hinv hhoused hout root hnodes hmarks⟩
  have hoff := hout t
  cases hcall : s.queue.call t <;> rw [hcall] at hoff <;> first | rfl | cases hoff

/-- Three entries of two marks are still queued when all threads have exited; there is a record of
the mark of the producer, too. -/
theorem queue_freed_once_three_marks :
    ∃ s, exec (SystemState.step ⟨1, fun _ => false, [0], 0, 0, fun _ => 1, fun _ => 0⟩)
        (SystemState.init ⟨1, fun _ => false, [0], 0, 0, fun _ => 1, fun _ => 0⟩)
        [.producerInit 0 true, .consumerInit 0 true, .await 0, .producerHead 0,
          .queue (.get (.producer 0) ⟨none, 0, 0, none⟩ true), .queue (.wake (.producer 0) true),
          .getReturned 0,
          .consumerHead 0, .consume 0 (.data 0 5), .preadd 0 [⟨[.setXmark 7], true⟩],
          .queue (.add (.consumer 0) ⟨some 0, 5, 7, none⟩ (some 3) []),
          .queue (.lock (.consumer 0) true), .addReturned 0,
          .consumerHead 0, .consume 0 (.data 1 5), .preadd 0 [⟨[.setXmark 9], true⟩],
          .queue (.add (.consumer 0) ⟨some 1, 5, 9, none⟩ (some 4) []),
          .queue (.lock (.consumer 0) true), .addReturned 0,
          .consumerHead 0, .consume 0 (.data 2 5), .preadd 0 [⟨[.setXmark 7], true⟩],
          .queue (.add (.consumer 0) ⟨some 2, 5, 7, none⟩ (some 5) []),
          .queue (.lock (.consumer 0) true), .addReturned 0,
          .consumerHead 0, .consume 0 .fail, .joinConsumers, .producerHead 0, .joinProducers] =
            some s ∧
      ∃ blocks, queueFree (fun l => l.length / 2) 3 s.queue.q = some blocks ∧ blocks.Nodup ∧
        (∀ p ∈ [3, 4, 5], .node p ∈ blocks) ∧ ∀ m ∈ [0, 7, 9], .xmark m ∈ blocks := by
  refine exists_of_exec_any (P := fun s => s.queue.crashed = false ∧ s.main = .done ∧
    (routed s.queue.history).length ≤ 3 ∧ s.queue.q.xtree.length ≤ 3 ∧
    ([3, 4, 5].all fun p => s.queue.q.owns (.node p)) = true ∧
    ([0, 7, 9].all fun m => s.queue.q.owns (.xmark m)) = true) (by decide) ?_
  rintro s hs ⟨hup, hmain, hnodes, hmarks, hnode, hmark⟩
  obtain ⟨-, blocks, hfree, hnodup, hmem⟩ :=
    queue_freed_once _ _ s hs hup hmain (fun l => l.length / 2) 3 hnodes hmarks
  rw [List.all_eq_true] at hnode hmark
  exact ⟨blocks, hfree, hnodup, fun p hp => (hmem _).mpr (hnode p hp),
    fun m hm => (hmem _).mpr (hmark m hm)⟩

end Schaufel
