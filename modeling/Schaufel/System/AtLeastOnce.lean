import Schaufel.Foundation.Conveyor
import Schaufel.System.Flow

/-!
# Offsets of transactional consumers

A transactional consumer files the record of every message in its metadata, and the producer that
has handled the message stores the offset of the record.  A restart resumes behind the stored
offset, so when it is stored everything of the partition up to it should have been handled.

The producers store offsets independently of each other.  `offset_overtakes` is a run in which two
producers serve one mark and the later message is stored first.  `offsets_stored_in_order` shows
that the order is kept in every run in which the messages of a partition share a mark and a
producer, no record comes without a payload and `queue_add` has memory: such a run moves the records
of every partition as on a `Conveyor`.
-/

namespace Schaufel

/-! ### Records in a history -/

/-- The record a consumer has taken, with the number of the consumer. -/
def Event.record? : Event Thread Nat Table → Option (Nat × Envelope)
  | .consumed (.consumer i) msg => msg.envelope.map fun env => (i, env)
  | _ => none

/-- The records taken so far. -/
def records (history : List (Event Thread Nat Table)) : List (Nat × Envelope) :=
  history.filterMap Event.record?

/-- Every partition is read by one consumer, in increasing order of the offsets. -/
def InOrder (history : List (Event Thread Nat Table)) : Prop :=
  (records history).Pairwise fun r r' =>
    r.2.part = r'.2.part → r.1 = r'.1 ∧ r.2.offset < r'.2.offset

instance (history : List (Event Thread Nat Table)) : Decidable (InOrder history) :=
  inferInstanceAs (Decidable (List.Pairwise _ _))

/-- The message of the record is passed to `producer_produce` or discarded by a hook. -/
def Event.handles (env : Envelope) : Event Thread Nat Table → Bool
  | .produced _ msg | .discarded _ msg => msg.envelope = some env
  | _ => false

/-- The message of the record was passed to `producer_produce` or discarded by a hook. -/
def Handled (history : List (Event Thread Nat Table)) (env : Envelope) : Prop :=
  ∃ e ∈ history, e.handles env = true

instance (history : List (Event Thread Nat Table)) (env : Envelope) :
    Decidable (Handled history env) :=
  inferInstanceAs (Decidable (∃ e ∈ history, _))

/-- Whenever an offset is stored, every record of the partition up to this offset that was taken
before is handled. -/
def AtLeastOnce (history : List (Event Thread Nat Table)) : Prop :=
  ∀ h t msg env, h ++ [.stored t msg] <+: history → msg.envelope = some env →
    ∀ r ∈ records h, r.2.part = env.part → r.2.offset ≤ env.offset → Handled h r.2

/-- The messages of a partition go one way: they are queued under one mark and delivered to one
producer, every record has a payload, and none of their messages is given up for want of memory. -/
structure SingleLane (history : List (Event Thread Nat Table)) : Prop where
  /-- The messages of a partition are queued under one mark. -/
  mark : ∀ t t' msg msg' env env', .queued t msg ∈ history → .queued t' msg' ∈ history →
    msg.envelope = some env → msg'.envelope = some env' → env.part = env'.part →
      msg.mark = msg'.mark
  /-- The messages of a partition are delivered to one producer. -/
  producer : ∀ t t' msg msg' env env', .delivered t msg ∈ history → .delivered t' msg' ∈ history →
    msg.envelope = some env → msg'.envelope = some env' → env.part = env'.part → t = t'
  /-- No record comes without a payload. -/
  payload : ∀ t msg env, .consumed t msg ∈ history → msg.envelope = some env →
    msg.data.isSome = true
  /-- No message with a record is given up for want of memory. -/
  memory : ∀ t msg, .dropped t msg ∈ history → msg.envelope = none

@[simp] theorem records_append (h h' : List (Event Thread Nat Table)) :
    records (h ++ h') = records h ++ records h' := by
  simp [records]

@[simp] theorem records_effects (t : Thread) (l : List (Effect Nat Table)) :
    records (l.map (Event.effect t)) = [] := by
  simp [records, Event.record?]

@[simp] theorem records_map_effect {β : Type} (t : Thread) (f : β → Effect Nat Table) (l : List β) :
    records (l.map fun b => Event.effect t (f b)) = [] := by
  simp [records, Event.record?]

@[simp] theorem records_cons_effect (t : Thread) (e : Effect Nat Table)
    (h : List (Event Thread Nat Table)) : records (.effect t e :: h) = records h := rfl

theorem records_consumed {i : Nat} {msg : Msg} {o : Option Envelope} (henv : msg.envelope = o) :
    records [.consumed (.consumer i) msg] = o.toList.map fun env => (i, env) := by
  cases o <;> simp [records, Event.record?, henv]

theorem Handled.append {history : List (Event Thread Nat Table)} {env : Envelope}
    (h : Handled history env) (evs : List (Event Thread Nat Table)) :
    Handled (history ++ evs) env := by
  obtain ⟨e, hmem, he⟩ := h
  exact ⟨e, List.mem_append_left _ hmem, he⟩

theorem handled_discarded {history evs : List (Event Thread Nat Table)} (t : Thread) {msg : Msg}
    {env : Envelope} (henv : msg.envelope = some env) (hmem : .discarded t msg ∈ evs) :
    Handled (history ++ evs) env :=
  ⟨.discarded t msg, List.mem_append_right _ hmem, decide_eq_true henv⟩

theorem InOrder.of_append {h h' : List (Event Thread Nat Table)} (hord : InOrder (h ++ h')) :
    InOrder h := by
  unfold InOrder at hord
  rw [records_append] at hord
  exact (List.pairwise_append.mp hord).1

theorem SingleLane.of_append {h h' : List (Event Thread Nat Table)} (hl : SingleLane (h ++ h')) :
    SingleLane h :=
  ⟨fun t t' msg msg' env env' hq hq' =>
      hl.mark t t' msg msg' env env' (List.mem_append_left _ hq) (List.mem_append_left _ hq'),
    fun t t' msg msg' env env' hd hd' =>
      hl.producer t t' msg msg' env env' (List.mem_append_left _ hd) (List.mem_append_left _ hd'),
    fun t msg env hc => hl.payload t msg env (List.mem_append_left _ hc),
    fun t msg hd => hl.memory t msg (List.mem_append_left _ hd)⟩

/-- The event does not leave the lane of one mark and one producer. -/
def Event.inLane (m : UInt32) (t : Thread) : Event Thread Nat Table → Bool
  | .queued _ msg => msg.mark = m
  | .delivered t' _ => t' = t
  | .consumed _ msg => msg.data.isSome
  | .dropped _ _ => false
  | _ => true

/-- All messages have one mark and go to one producer. -/
theorem SingleLane.of_inLane {history : List (Event Thread Nat Table)} {m : UInt32} {t : Thread}
    (h : ∀ e ∈ history, e.inLane m t = true) : SingleLane history where
  mark _ _ _ _ _ _ hq hq' _ _ _ :=
    (of_decide_eq_true (h _ hq)).trans (of_decide_eq_true (h _ hq')).symm
  producer _ _ _ _ _ _ hd hd' _ _ _ :=
    (of_decide_eq_true (h _ hd)).trans (of_decide_eq_true (h _ hd')).symm
  payload _ _ _ hc _ := h _ hc
  memory _ _ hd := absurd (h _ hd) Bool.false_ne_true

/-- More events keep the order of the stores, if every store among them does. -/
theorem AtLeastOnce.append {history evs : List (Event Thread Nat Table)} (h : AtLeastOnce history)
    (hstored : ∀ t msg env, .stored t msg ∈ evs → msg.envelope = some env → records evs = [] ∧
      ∀ r ∈ records history, r.2.part = env.part → r.2.offset ≤ env.offset → Handled history r.2) :
    AtLeastOnce (history ++ evs) := by
  intro h₁ t msg env hpre henv r hr hpart hoffset
  rcases List.prefix_or_prefix_of_prefix hpre (List.prefix_append history evs) with hold | hnew
  · exact h h₁ t msg env hold henv r hr hpart hoffset
  · rcases List.prefix_concat_iff.mp hnew with heq | ⟨evs₁, rfl⟩
    · exact h h₁ t msg env (heq ▸ List.prefix_rfl) henv r hr hpart hoffset
    · rw [List.append_assoc, List.prefix_append_right_inj] at hpre
      obtain ⟨hnil, hhandled⟩ := hstored t msg env (hpre.subset (by simp)) henv
      have hnil₁ : records evs₁ = [] := by
        obtain ⟨evs₂, rfl⟩ := hpre
        simp only [records_append, List.append_eq_nil_iff] at hnil
        exact hnil.1.1
      rw [records_append, hnil₁, List.append_nil] at hr
      exact (hhandled r hr hpart hoffset).append evs₁

/-! ### Records in flight -/

/-- The record of an entry. -/
def Entry.envelope (e : Entry Nat Table) : Option Envelope := e.metadata.bind Table.envelope

/-- The record of a message that still carries its data. -/
def Message.cargo (msg : Msg) : Option Envelope := if msg.data.isSome then msg.envelope else none

/-- The record in the hands of a thread, together with the data of its message. -/
def SystemState.cargo (s : SystemState) (t : Thread) : Option Envelope :=
  (s.hand t).bind Message.cargo

/-- The record in the hands of a thread. -/
def SystemState.paper (s : SystemState) (t : Thread) : Option Envelope :=
  (s.hand t).bind Message.envelope

/-- Consumers feed, the queue is the belt, producers serve. -/
def SystemState.conveyor (s : SystemState) : Conveyor Nat Nat Envelope where
  feeder i := s.cargo (.consumer i)
  belt := (routed s.queue.history).filterMap Entry.envelope
  server j := s.cargo (.producer j)
  taken := records s.queue.history
  done := { env | Handled s.queue.history env }

/-- What is handled stays handled. -/
theorem conveyor_done_subset {s s' : SystemState} {evs : List (Event Thread Nat Table)}
    (hhist : s'.queue.history = s.queue.history ++ evs) : s.conveyor.done ⊆ s'.conveyor.done := by
  intro env h
  have hhandled : Handled s'.queue.history env := by
    rw [hhist]
    exact Handled.append h evs
  exact hhandled

/-- The records of every partition move in order, those of the consumers were taken, and those of
the producers were delivered with their data. -/
structure Lanes (s : SystemState) : Prop where
  ordered : s.conveyor.Ordered Envelope.part Envelope.offset
  /-- A consumer has the record of a message it has taken. -/
  filed : ∀ i env, s.paper (.consumer i) = some env → (i, env) ∈ records s.queue.history
  /-- A producer has a record with its data. -/
  laden : ∀ j env, s.paper (.producer j) = some env → s.cargo (.producer j) = some env
  /-- A producer has the record of a message that was delivered to it. -/
  delivered : ∀ j env, s.cargo (.producer j) = some env →
    ∃ msg, .delivered (.producer j) msg ∈ s.queue.history ∧ msg.envelope = some env

theorem cargo_update {s s' : SystemState} {t : Thread} {m : Option Msg}
    (hhand : s'.hand = Function.update s.hand t m) :
    s'.cargo = Function.update s.cargo t (m.bind Message.cargo) := hand_bind_update hhand _

theorem paper_update {s s' : SystemState} {t : Thread} {m : Option Msg}
    (hhand : s'.hand = Function.update s.hand t m) :
    s'.paper = Function.update s.paper t (m.bind Message.envelope) := hand_bind_update hhand _

theorem Message.cargo_eq_some {msg : Msg} {env : Envelope} :
    msg.cargo = some env ↔ msg.data.isSome = true ∧ msg.envelope = some env := by
  unfold Message.cargo
  split <;> simp_all

/-- A step that takes nothing new and leaves the queue alone: a record leaves the hands of its
thread only when it is handled. -/
theorem Lanes.of_hand {s s' : SystemState} {t : Thread} {m : Option Msg}
    {evs : List (Event Thread Nat Table)} (hl : Lanes s)
    (hhand : s'.hand = Function.update s.hand t m)
    (hhist : s'.queue.history = s.queue.history ++ evs) (hrec : records evs = [])
    (hfifo : fifoOps evs = [])
    (hpaper : ∀ env, m.bind Message.envelope = some env → s.paper t = some env)
    (hcargo : ∀ env, m.bind Message.cargo = some env → s.cargo t = some env)
    (hladen : ∀ j env, t = .producer j → m.bind Message.envelope = some env →
      m.bind Message.cargo = some env)
    (hdone : ∀ env, s.cargo t = some env →
      m.bind Message.cargo = some env ∨ Handled s'.queue.history env) : Lanes s' := by
  have hcargo' := cargo_update hhand
  have hrecords : records s'.queue.history = records s.queue.history := by
    rw [hhist, records_append, hrec, List.append_nil]
  have hrouted : routed s'.queue.history = routed s.queue.history := by
    rw [hhist, routed_append_of_fifoOps_eq_nil hfifo]
  have hbelt : s'.conveyor.belt = s.conveyor.belt := by
    simp only [SystemState.conveyor, hrouted]
  -- the conveyor with the records that are handled by now
  have hord : Conveyor.Ordered Envelope.part Envelope.offset
      { s.conveyor with done := s'.conveyor.done } := 
    hl.ordered.congr rfl rfl rfl rfl (conveyor_done_subset hhist)
  refine ⟨?_, ?_, ?_, ?_⟩
  · by_cases heq : m.bind Message.cargo = s.cargo t
    · have hsame : s'.cargo = s.cargo := by rw [hcargo', heq, Function.update_eq_self]
      refine hord.congr ?_ hbelt ?_ hrecords (fun _ h => h)
      · simp only [SystemState.conveyor, hsame]
      · simp only [SystemState.conveyor, hsame]
    · have hnone : m.bind Message.cargo = none := by
        cases hm : m.bind Message.cargo with
        | none => rfl
        | some env => exact absurd (hm.trans (hcargo env hm).symm) heq
      have hhandled : ∀ env, s.cargo t = some env → Handled s'.queue.history env := by
        intro env henv
        rcases hdone env henv with h | h
        · rw [hnone] at h
          cases h
        · exact h
      rw [hnone] at hcargo'
      cases t with
      | consumer i =>
        refine (hord.finishFeeder (i := i) hhandled).congr ?_ hbelt ?_ hrecords (fun _ h => h)
        · funext i'
          simp only [SystemState.conveyor, hcargo', Function.update_apply, Thread.consumer.injEq]
        · funext j
          simp [SystemState.conveyor, hcargo', Function.update_apply]
      | producer j =>
        refine (hord.finishServer (j := j) hhandled).congr ?_ hbelt ?_ hrecords (fun _ h => h)
        · funext i
          simp [SystemState.conveyor, hcargo', Function.update_apply]
        · funext j'
          simp only [SystemState.conveyor, hcargo', Function.update_apply, Thread.producer.injEq]
      | stats => exact absurd (hnone.trans rfl) heq
  · intro i env henv
    rw [paper_update hhand] at henv
    rw [hrecords]
    rcases of_update_eq_some henv with ⟨rfl, hnew⟩ | ⟨-, hold⟩
    · exact hl.filed i env (hpaper env hnew)
    · exact hl.filed i env hold
  · intro j env henv
    rw [paper_update hhand] at henv
    rw [hcargo']
    rcases of_update_eq_some henv with ⟨rfl, hnew⟩ | ⟨hne, hold⟩
    · rw [Function.update_self]
      exact hladen j env rfl hnew
    · rw [Function.update_of_ne hne]
      exact hl.laden j env hold
  · intro j env henv
    rw [hcargo'] at henv
    have hold : s.cargo (.producer j) = some env := by
      rcases of_update_eq_some henv with ⟨rfl, hnew⟩ | ⟨-, hold⟩
      · exact hcargo env hnew
      · exact hold
    obtain ⟨msg, hmem, hmsg⟩ := hl.delivered j env hold
    exact ⟨msg, by rw [hhist]; exact List.mem_append_left _ hmem, hmsg⟩

/-- A consumer takes the next record of a partition. -/
theorem Lanes.of_record {s s' : SystemState} {i : Nat} {msg : Msg} {env : Envelope}
    {evs : List (Event Thread Nat Table)} (hl : Lanes s) (hfree : s.cargo (.consumer i) = none)
    (hhand : s'.hand = Function.update s.hand (.consumer i) (some msg))
    (hhist : s'.queue.history = s.queue.history ++ evs) (hrec : records evs = [(i, env)])
    (hfifo : fifoOps evs = []) (henv : msg.envelope = some env) (hdata : msg.data.isSome = true)
    (horder : InOrder s'.queue.history) : Lanes s' := by
  have hcargo := cargo_update hhand
  have hmsg : (some msg).bind Message.cargo = some env :=
    Message.cargo_eq_some.mpr ⟨hdata, henv⟩
  rw [hmsg] at hcargo
  have hrecords : records s'.queue.history = records s.queue.history ++ [(i, env)] := by
    rw [hhist, records_append, hrec]
  have hnext : ∀ r ∈ s.conveyor.taken, r.2.part = env.part → r.1 = i ∧ r.2.offset < env.offset := by
    intro r hr hpart
    unfold InOrder at horder
    rw [hrecords] at horder
    exact (List.pairwise_append.mp horder).2.2 r hr (i, env) (by simp) hpart
  refine ⟨(hl.ordered.take hfree hnext).congr ?_ ?_ ?_ hrecords (conveyor_done_subset hhist), ?_,
    ?_, ?_⟩
  · funext i'
    simp only [SystemState.conveyor, hcargo, Function.update_apply, Thread.consumer.injEq]
  · simp only [SystemState.conveyor]
    rw [hhist, routed_append_of_fifoOps_eq_nil hfifo]
  · funext j
    simp [SystemState.conveyor, hcargo, Function.update_apply]
  · intro i' env' henv'
    rw [paper_update hhand] at henv'
    rw [hrecords]
    rcases of_update_eq_some henv' with ⟨hi, hnew⟩ | ⟨-, hold⟩
    · cases hi
      cases henv.symm.trans hnew
      exact List.mem_append_right _ (by simp)
    · exact List.mem_append_left _ (hl.filed i' env' hold)
  · intro j env' henv'
    rw [paper_update hhand, Function.update_of_ne (by simp)] at henv'
    rw [hcargo, Function.update_of_ne (by simp)]
    exact hl.laden j env' henv'
  · intro j env' henv'
    rw [hcargo, Function.update_of_ne (by simp)] at henv'
    obtain ⟨msg', hmem, hmsg'⟩ := hl.delivered j env' henv'
    exact ⟨msg', by rw [hhist]; exact List.mem_append_left _ hmem, hmsg'⟩

/-- A consumer queues its message. -/
theorem Lanes.of_queued {s s' : SystemState} {i : Nat} {msg : Msg} (hl : Lanes s)
    (hfrom : s.hand (.consumer i) = some msg) (hdata : msg.data.isSome = true)
    (hhand : s'.hand = Function.update s.hand (.consumer i) none)
    (hhist : s'.queue.history = s.queue.history ++ [.queued (.consumer i) msg]) : Lanes s' := by
  have hcargo : s'.cargo = Function.update s.cargo (.consumer i) none := cargo_update hhand
  have hpaper : s'.paper = Function.update s.paper (.consumer i) none := paper_update hhand
  have hrecords : records s'.queue.history = records s.queue.history := by
    rw [hhist, records_append]
    exact List.append_nil _
  have hbelt : s'.conveyor.belt = s.conveyor.belt ++ msg.envelope.toList := by
    simp only [SystemState.conveyor]
    rw [hhist, routed_queued, List.filterMap_append]
    congr 1
  have hmono := conveyor_done_subset hhist
  have hself : s.cargo (.consumer i) = msg.envelope := by
    rw [SystemState.cargo, hfrom]
    exact if_pos hdata
  have hfeeder : s'.conveyor.feeder = Function.update s.conveyor.feeder i none := by
    funext i'
    simp only [SystemState.conveyor, hcargo, Function.update_apply, Thread.consumer.injEq]
  have hserver : s'.conveyor.server = s.conveyor.server := by
    funext j
    simp [SystemState.conveyor, hcargo, Function.update_apply]
  refine ⟨?_, ?_, ?_, ?_⟩
  · cases henv : msg.envelope with
    | none =>
      rw [henv] at hbelt hself
      refine hl.ordered.congr ?_ (by simpa using hbelt) hserver hrecords hmono
      rw [hfeeder, Function.update_eq_self_iff.mpr]
      exact hself.symm
    | some env =>
      rw [henv] at hbelt hself
      exact (hl.ordered.put hself).congr hfeeder hbelt hserver hrecords hmono
  · intro i' env' henv'
    rw [hpaper] at henv'
    rw [hrecords]
    rcases of_update_eq_some henv' with ⟨-, hnew⟩ | ⟨-, hold⟩
    · cases hnew
    · exact hl.filed i' env' hold
  · intro j env' henv'
    rw [hpaper, Function.update_of_ne (by simp)] at henv'
    rw [hcargo, Function.update_of_ne (by simp)]
    exact hl.laden j env' henv'
  · intro j env' henv'
    rw [hcargo, Function.update_of_ne (by simp)] at henv'
    obtain ⟨msg', hmem, hmsg'⟩ := hl.delivered j env' henv'
    exact ⟨msg', by rw [hhist]; exact List.mem_append_left _ hmem, hmsg'⟩

/-- An entry that waits was queued. -/
theorem exists_queued_of_mem_routed {history : List (Event Thread Nat Table)} {e : Entry Nat Table}
    (h : e ∈ routed history) : ∃ t msg, .queued t msg ∈ history ∧ e = msg.entry := by
  have happ : e ∈ routed ([] ++ history) := h
  rcases mem_routed_append happ with hnil | hnew
  · cases hnil
  · exact hnew

/-- A producer takes the oldest entry of a mark. -/
theorem Lanes.of_taken {s s' : SystemState} {j : Nat} {msg : Msg} {e : Entry Nat Table}
    {es₁ es₂ : List (Entry Nat Table)} {evs : List (Event Thread Nat Table)} (hl : Lanes s)
    (hdata : e.data.isSome = true) (hlane : SingleLane s'.queue.history)
    (hidle : ∀ e ∈ evs, e.isIdle = true) (hfrom : s.hand (.producer j) = none)
    (hsplit : routed s.queue.history = es₁ ++ e :: es₂) (hmark : e.mark = msg.mark)
    (hold : ∀ f ∈ es₁, f.mark ≠ msg.mark) (hrest : routed s'.queue.history = es₁ ++ es₂)
    (hhand : s'.hand = Function.update s.hand (.producer j) (some (msg.receive e)))
    (hhist : s'.queue.history =
      s.queue.history ++ (evs ++ [.delivered (.producer j) (msg.receive e)])) : Lanes s' := by
  have hmem : ∀ {ev}, ev ∈ s.queue.history → ev ∈ s'.queue.history := fun h => by
    rw [hhist]
    exact List.mem_append_left _ h
  have hdel : .delivered (.producer j) (msg.receive e) ∈ s'.queue.history := by
    rw [hhist]
    simp
  have hself : (msg.receive e).cargo = e.envelope := if_pos hdata
  have hcargo : s'.cargo = Function.update s.cargo (.producer j) e.envelope := by
    rw [cargo_update hhand, ← hself]
    rfl
  have hpaper : s'.paper = Function.update s.paper (.producer j) e.envelope := paper_update hhand
  have hfree : s.cargo (.producer j) = none := by rw [SystemState.cargo, hfrom]; rfl
  have hrecords : records s'.queue.history = records s.queue.history := by
    have hnil : records evs = [] := filterMap_isIdle hidle (fun _ _ => rfl) fun _ _ _ => rfl
    rw [hhist, records_append, records_append, hnil]
    exact List.append_nil _
  have hfeeder : s'.conveyor.feeder = s.conveyor.feeder := by
    funext i
    simp [SystemState.conveyor, hcargo, Function.update_apply]
  have hserver : s'.conveyor.server = Function.update s.conveyor.server j e.envelope := by
    funext j'
    simp only [SystemState.conveyor, hcargo, Function.update_apply, Thread.producer.injEq]
  have hbelt : s'.conveyor.belt = es₁.filterMap Entry.envelope ++ es₂.filterMap Entry.envelope := by
    simp only [SystemState.conveyor, hrest, List.filterMap_append]
  have hbelt₀ : s.conveyor.belt = es₁.filterMap Entry.envelope ++
      (e :: es₂).filterMap Entry.envelope := by
    simp only [SystemState.conveyor, hsplit, List.filterMap_append]
  have hmono := conveyor_done_subset hhist
  refine ⟨?_, ?_, ?_, ?_⟩
  · cases henv : e.envelope with
    | none =>
      rw [List.filterMap_cons_none henv] at hbelt₀
      refine hl.ordered.congr hfeeder (hbelt.trans hbelt₀.symm) ?_ hrecords hmono
      rw [hserver, henv]
      exact Function.update_eq_self_iff.mpr hfree.symm
    | some env =>
      rw [List.filterMap_cons_some henv] at hbelt₀
      rw [henv] at hserver
      refine (hl.ordered.pick hbelt₀ ?_ hfree ?_).congr hfeeder hbelt hserver hrecords hmono
      · -- an older entry of the partition would have the same mark
        intro env' henv' hpart
        obtain ⟨f, hf, hfenv⟩ := List.mem_filterMap.mp henv'
        obtain ⟨t, m, hq, rfl⟩ := exists_queued_of_mem_routed (e := e) (by rw [hsplit]; simp)
        obtain ⟨t', m', hq', rfl⟩ := exists_queued_of_mem_routed (e := f)
          (by rw [hsplit]; exact List.mem_append_left _ hf)
        have hsame := hlane.mark t' t m' m env' env (hmem hq') (hmem hq) hfenv henv hpart
        exact hold _ hf (hsame.trans hmark)
      · -- another producer holds nothing of the partition
        intro j' env' henv' hpart
        obtain ⟨m, hdel', hm⟩ := hl.delivered j' env' henv'
        have hsame := hlane.producer _ _ _ _ env' env (hmem hdel') hdel hm henv hpart
        cases hsame
        exact absurd (hfree.symm.trans henv') (by simp)
  · intro i env henv
    rw [hpaper, Function.update_of_ne (by simp)] at henv
    rw [hrecords]
    exact hl.filed i env henv
  · intro j' env henv
    rw [hpaper] at henv
    rw [hcargo]
    rcases of_update_eq_some henv with ⟨hj, hnew⟩ | ⟨hne, hkept⟩
    · rw [hj, Function.update_self, hnew]
    · rw [Function.update_of_ne hne]
      exact hl.laden j' env hkept
  · intro j' env henv
    rw [hcargo] at henv
    rcases of_update_eq_some henv with ⟨hj, hnew⟩ | ⟨-, hkept⟩
    · cases hj
      exact ⟨_, hdel, hnew⟩
    · obtain ⟨m, hdel', hm⟩ := hl.delivered j' env hkept
      exact ⟨m, hmem hdel', hm⟩

/-! ### Steps -/

/-- A thread gives its message up after the message was handled or lost its record. -/
theorem Lanes.of_gone {s s' : SystemState} {t : Thread} {msg : Msg}
    {evs : List (Event Thread Nat Table)} (hl : Lanes s) (hfrom : s.hand t = some msg)
    (hhand : s'.hand = Function.update s.hand t none)
    (hhist : s'.queue.history = s.queue.history ++ evs) (hrec : records evs = [])
    (hfifo : fifoOps evs = [])
    (hdone : ∀ env, msg.cargo = some env → Handled s'.queue.history env) : Lanes s' := by
  refine hl.of_hand hhand hhist hrec hfifo (by simp) (by simp) (by simp) fun env henv => Or.inr ?_
  rw [SystemState.cargo, hfrom] at henv
  exact hdone env henv

/-- `consumer_consume` keeps the lanes. -/
theorem Lanes.of_consumed {s s' : SystemState} {i : Nat} {r : ConsumeResult} {msg msg' : Msg}
    {evs : List (Event Thread Nat Table)} (hl : Lanes s) (horder : InOrder s'.queue.history)
    (hlane : SingleLane s'.queue.history) (hfrom : s.hand (.consumer i) = some msg)
    (hdata : msg.data = none) (hmsg : consumeMsg (.consumer i) msg r = some (msg', evs))
    (hhand : s'.hand = Function.update s.hand (.consumer i) (some msg'))
    (hhist : s'.queue.history = s.queue.history ++ evs) : Lanes s' := by
  have hfree : s.cargo (.consumer i) = none := by
    rw [SystemState.cargo, hfrom]
    exact if_neg (by simp [hdata])
  have hpaper : s.paper (.consumer i) = msg.envelope := by
    rw [SystemState.paper, hfrom]
    rfl
  cases r with
  | fail => cases hmsg
  | nothing =>
    cases hmsg
    refine hl.of_hand hhand hhist rfl rfl (fun env henv => hpaper.trans henv) ?_ (by simp) ?_
    · intro env henv
      exact absurd (Message.cargo_eq_some.mp henv).1 (by simp [hdata])
    · simp [hfree]
  | data buf len =>
    cases hmsg
    cases henv : msg.envelope with
    | none =>
      refine hl.of_hand hhand hhist ?_ rfl (fun env henv' => hpaper.trans henv') ?_ (by simp) ?_
      · rw [records_cons_effect]
        exact records_consumed henv
      · intro env henv'
        exact absurd ((Message.cargo_eq_some.mp henv').2.symm.trans henv) (by simp)
      · simp [hfree]
    | some env =>
      -- the record would be taken a second time
      have hold : (i, env) ∈ records s.queue.history := hl.filed i env (hpaper.trans henv)
      have hnew : records s'.queue.history = records s.queue.history ++ [(i, env)] := by
        rw [hhist, records_append, records_cons_effect]
        exact congrArg _ (records_consumed henv)
      unfold InOrder at horder
      rw [hnew] at horder
      have hlt := (List.pairwise_append.mp horder).2.2 _ hold (i, env) (by simp) rfl
      exact absurd hlt.2 (lt_irrefl _)
  | record part offset payload len table =>
    cases hmsg
    have henv : ∀ tbl : Table, tbl.envelope = some ⟨part, offset, payload⟩ →
        Message.envelope ({ msg with data := payload, datalen := len, metadata := some tbl }) =
          some ⟨part, offset, payload⟩ := fun tbl htbl => htbl
    have htbl : (fileRecord msg ⟨part, offset, payload⟩ table).1.envelope =
        some ⟨part, offset, payload⟩ := by
      unfold fileRecord
      split <;> rfl
    refine hl.of_record hfree hhand hhist ?_ ?_ (henv _ htbl) ?_ horder
    · simp only [records_append, records_map_effect, records_effects, List.nil_append]
      exact records_consumed (henv _ htbl)
    · simp only [fifoOps_append, fifoOps_map_effect, fifoOps_effects, List.nil_append]
      rfl
    · refine hlane.payload (.consumer i) _ ⟨part, offset, payload⟩ ?_ (henv _ htbl)
      rw [hhist]
      simp

/-- The callback takes and moves nothing. -/
theorem callbackRun_quiet {t : Thread} {msg msg' : Msg} {stored : Bool}
    {evs : List (Event Thread Nat Table)} (h : callbackRun t msg stored = some (msg', evs)) :
    records evs = [] ∧ fifoOps evs = [] := by
  refine ⟨?_, fifoOps_eq_nil_of_isLocal (isLocal_callbackRun h)⟩
  unfold callbackRun at h
  split at h
  · cases h
    rfl
  · split at h
    · cases h
      rfl
    · split at h
      · cases h
        simp [records, Event.record?]
      · cases h

/-- The callback stores the offset of its message. -/
theorem callbackRun_stored {t t' : Thread} {msg msg' m : Msg} {stored : Bool}
    {evs : List (Event Thread Nat Table)} (h : callbackRun t msg stored = some (msg', evs))
    (hmem : .stored t' m ∈ evs) : m = msg := by
  unfold callbackRun at h
  split at h
  · cases h
    simp at hmem
  · split at h
    · cases h
      simp at hmem
    · split at h
      · cases h
        simp at hmem
        exact hmem.2
      · cases h

/-- A step keeps the lanes. -/
theorem Lanes.step {conf : SystemConf} {s s' : SystemState} {a : SystemAction} (hl : Lanes s)
    (hok : ThreadsOk conf s) (h : FlowStep conf s s' a) (hcr : s'.queue.crashed = false)
    (horder : InOrder s'.queue.history) (hlane : SingleLane s'.queue.history) : Lanes s' := by
  cases h with
  | idle hidle hhand hhist =>
    have hrec := filterMap_isIdle (f := Event.record?) hidle (fun _ _ => rfl) fun _ _ _ => rfl
    have hfifo := filterMap_isIdle (f := Event.fifoOp?) hidle (fun _ _ => rfl) fun _ _ _ => rfl
    have hhand' : s'.hand = Function.update s.hand .stats none := by
      rw [hhand]
      exact (Function.update_eq_self_iff.mpr rfl).symm
    exact hl.of_hand hhand' hhist hrec hfifo (by simp) (by simp) (by simp) fun env henv =>
      nomatch henv
  | crashed hidle hcrash hhist => simp [hcrash] at hcr
  | @appear t msg hmsg hfrom hhand hhist =>
    have henv : msg.envelope = none := by
      rw [Message.envelope, hmsg.2]
      rfl
    have hcargo : msg.cargo = none := by simp [Message.cargo, henv]
    refine hl.of_hand hhand (by rw [hhist, List.append_nil]) rfl rfl ?_ ?_ ?_ ?_
    · simp [henv]
    · simp [hcargo]
    · simp [henv]
    · simp [SystemState.cargo, hfrom]
  | forget hfrom hdata hhand hhist =>
    refine hl.of_gone hfrom hhand (by rw [hhist, List.append_nil]) rfl rfl fun env henv => ?_
    exact absurd (Message.cargo_eq_some.mp henv).1 (by simp [hdata])
  | consumed hfrom hdata hfits hmsg hhand hhist =>
    exact hl.of_consumed horder hlane hfrom hdata hmsg hhand hhist
  | @hooked t n env msg hpoint hfrom hdata haccept hhand hhist =>
    have henv := hooklistRun_envelope n env msg
    have hdata' := hooklistRun_data_of_accepted haccept hdata
    have hcargo : (hooklistRun (scriptHooks n) env msg).msg.cargo = msg.cargo := by
      simp only [Message.cargo, henv, hdata, hdata']
    refine hl.of_hand hhand hhist (records_effects _ _) (fifoOps_effects _ _) ?_ ?_ ?_ ?_
    · simp [SystemState.paper, hfrom, henv]
    · simp [SystemState.cargo, hfrom, hcargo]
    · intro j env' _ henv'
      exact Message.cargo_eq_some.mpr ⟨hdata', henv'⟩
    · intro env' henv'
      left
      rw [SystemState.cargo, hfrom] at henv'
      exact hcargo.trans henv'
  | @refusedPreadd i env msg ha hfrom haccept hhand hhist =>
    have hdata := hooklistRun_data_of_refused haccept
    refine hl.of_hand hhand hhist (by simp [records, Event.record?]) (by simp) ?_ ?_ (by simp) ?_
    · simp [SystemState.paper, hfrom, hooklistRun_envelope]
    · intro env' henv'
      exact absurd (Message.cargo_eq_some.mp henv').1 (by simp [hdata])
    · intro env' henv'
      rw [SystemState.cargo, hfrom] at henv'
      rw [hhist]
      exact Or.inr (handled_discarded (.consumer i) (Message.cargo_eq_some.mp henv').2 (by simp))
  | @refusedPostadd i p env msg ha hfrom haccept hhand hhist =>
    refine hl.of_gone hfrom hhand hhist (by simp [records, Event.record?]) (by simp)
      fun env henv => ?_
    rw [hhist]
    exact handled_discarded (.consumer i) (Message.cargo_eq_some.mp henv).2 (by simp)
  | @refused j n env msg hpoint hfrom haccept hhand hhist =>
    refine hl.of_gone hfrom hhand hhist (by simp [records, Event.record?]) (by simp)
      fun env henv => ?_
    rw [hhist]
    exact handled_discarded (.producer j) (Message.cargo_eq_some.mp henv).2 (by simp)
  | @noNode i msg hfrom hhand hhist =>
    refine hl.of_gone hfrom hhand hhist (by simp [records, Event.record?]) (by simp)
      fun env henv => ?_
    have hnone := hlane.memory (.consumer i) msg (by rw [hhist]; simp)
    exact absurd (hnone.symm.trans (Message.cargo_eq_some.mp henv).2) (by simp)
  | @noMark i p env args ha hcall hmark hdata haccept hfrom hhand hhist =>
    refine hl.of_gone hfrom hhand hhist (by simp [records, Event.record?])
      (by simp) fun env' henv => ?_
    have hnone := hlane.memory (.consumer i) args (by rw [hhist]; simp)
    rw [← hooklistRun_envelope conf.postadd env] at hnone
    exact absurd (hnone.symm.trans (Message.cargo_eq_some.mp henv).2) (by simp)
  | queued hfrom hdata hhand hhist => exact hl.of_queued hfrom hdata hhand hhist
  | taken hidle hfrom hsplit hmark hold hrest hhand hhist =>
    refine hl.of_taken (hok.entries _ ?_) hlane hidle hfrom hsplit hmark hold hrest hhand hhist
    rw [hsplit]
    simp
  | @produced j msg hfrom hhand hhist =>
    have hhand' : s'.hand = Function.update s.hand .stats none := by
      rw [hhand]
      exact (Function.update_eq_self_iff.mpr rfl).symm
    exact hl.of_hand hhand' hhist rfl rfl (by simp) (by simp) (by simp) fun env henv => nomatch henv
  | @callback j stored msg msg' evs hfrom hprod hmsg hhand hhist =>
    obtain ⟨hrec, hfifo⟩ := callbackRun_quiet hmsg
    have henv := callbackRun_envelope hmsg
    have hcargo : msg'.cargo = none := by simp [Message.cargo, henv]
    refine hl.of_hand hhand hhist hrec hfifo (by simp [henv]) (by simp [hcargo]) (by simp [henv]) ?_
    intro env henv'
    rw [SystemState.cargo, hfrom] at henv'
    refine Or.inr ⟨.produced (.producer j) msg, ?_, ?_⟩
    · rw [hhist]
      exact List.mem_append_left _ hprod
    · exact decide_eq_true (Message.cargo_eq_some.mp henv').2
  | released hfrom henv hhand hhist =>
    refine hl.of_gone hfrom hhand hhist (records_effects _ _) (fifoOps_effects _ _)
      fun env henv' => ?_
    exact absurd (henv.symm.trans (Message.cargo_eq_some.mp henv').2) (by simp)

/-- A step stores at most the offset of a message in the hands of a producer, which has produced
it. -/
theorem FlowStep.stored {conf : SystemConf} {s s' : SystemState} {a : SystemAction}
    (h : FlowStep conf s s' a) :
    ∃ evs, s'.queue.history = s.queue.history ++ evs ∧ ∀ t msg, .stored t msg ∈ evs →
      records evs = [] ∧ ∃ j, s.hand (.producer j) = some msg ∧
        .produced (.producer j) msg ∈ s.queue.history := by
  cases h with
  | idle hidle hhand hhist | crashed hidle hcrash hhist =>
    refine ⟨_, hhist, fun t msg hmem => ?_⟩
    have h := hidle _ hmem
    simp [Event.isIdle] at h
  | appear _ _ _ hhist | forget _ _ _ hhist =>
    exact ⟨[], by rw [hhist, List.append_nil], by simp⟩
  | @consumed i r msg msg' evs hfrom hdata hfits hmsg hhand hhist =>
    refine ⟨evs, hhist, fun t m hmem => ?_⟩
    cases r <;> cases hmsg <;> simp at hmem
  | taken hidle hfrom hsplit hmark hold hrest hhand hhist =>
    refine ⟨_, hhist, fun t msg hmem => ?_⟩
    rcases List.mem_append.mp hmem with hmem | hmem
    · have h := hidle _ hmem
      simp [Event.isIdle] at h
    · simp at hmem
  | @callback j stored msg msg' evs hfrom hprod hmsg hhand hhist =>
    refine ⟨evs, hhist, fun t m hmem => ⟨(callbackRun_quiet hmsg).1, j, ?_⟩⟩
    obtain rfl : m = msg := callbackRun_stored hmsg hmem
    exact ⟨hfrom, hprod⟩
  | hooked _ _ _ _ _ hhist | refusedPreadd _ _ _ _ hhist | refusedPostadd _ _ _ _ hhist
  | refused _ _ _ _ hhist | noNode _ _ hhist | noMark _ _ _ _ _ _ _ hhist | queued _ _ _ hhist
  | produced _ _ hhist | released _ _ _ hhist =>
    exact ⟨_, hhist, fun t msg hmem => by simp at hmem⟩

/-- A step keeps the order of the stores. -/
theorem AtLeastOnce.step {conf : SystemConf} {s s' : SystemState} {a : SystemAction}
    (h : AtLeastOnce s.queue.history) (hl : Lanes s) (hflow : FlowStep conf s s' a) :
    AtLeastOnce s'.queue.history := by
  obtain ⟨evs, hhist, hstored⟩ := hflow.stored
  rw [hhist]
  refine h.append fun t msg env hmem henv => ?_
  obtain ⟨hrec, j, hhand, hprod⟩ := hstored t msg hmem
  refine ⟨hrec, fun r hr hpart hoffset => ?_⟩
  have hpaper : s.paper (.producer j) = some env := by
    rw [SystemState.paper, hhand]
    exact henv
  rcases hl.ordered.done_of_le (hl.laden j env hpaper) hr hpart hoffset with hdone | heq
  · exact hdone
  · exact ⟨_, hprod, decide_eq_true (by rw [henv, heq])⟩

/-- Before the first step no record is in flight. -/
theorem lanes_init (conf : SystemConf) : Lanes (SystemState.init conf) := by
  have hhand := (threadsOk_init conf).2.1
  have hcargo : (SystemState.init conf).cargo = fun _ => none := by
    funext t
    rw [SystemState.cargo, hhand]
    rfl
  have hpaper : (SystemState.init conf).paper = fun _ => none := by
    funext t
    rw [SystemState.paper, hhand]
    rfl
  refine ⟨?_, by simp [hpaper], by simp [hpaper], by simp [hcargo]⟩
  refine (Conveyor.ordered_empty _).congr ?_ rfl ?_ rfl subset_rfl
  · simp only [SystemState.conveyor, hcargo]
  · simp only [SystemState.conveyor, hcargo]

/-! ### Runs -/

/-- An offset can be stored too early: two producers serve the mark of a partition, and the one with
the second message is done while the other one has not yet produced the first. -/
theorem offset_overtakes :
    ∃ s, exec (SystemState.step ⟨1, fun _ => true, [0, 0], 0, 0, fun _ => 0, fun _ => 0⟩)
        (SystemState.init ⟨1, fun _ => true, [0, 0], 0, 0, fun _ => 0, fun _ => 0⟩)
        [.producerInit 0 true, .producerInit 1 true, .consumerInit 0 true, .await 0,
          .consumerHead 0, .consume 0 (.record 0 0 (some 0) 5 0), .preadd 0 [],
          .queue (.add (.consumer 0) ⟨some 0, 5, 0, some ⟨0, some ⟨0, 0, some 0⟩⟩⟩ (some 0) []),
          .queue (.lock (.consumer 0) true), .addReturned 0,
          .consumerHead 0, .consume 0 (.record 0 1 (some 1) 5 1), .preadd 0 [],
          .queue (.add (.consumer 0) ⟨some 1, 5, 0, some ⟨1, some ⟨0, 1, some 1⟩⟩⟩ (some 1) []),
          .queue (.lock (.consumer 0) true), .addReturned 0,
          .producerHead 0, .queue (.get (.producer 0) ⟨none, 0, 0, none⟩ true),
          .producerHead 1, .queue (.get (.producer 1) ⟨none, 0, 0, none⟩ true),
          .queue (.preget (.producer 1) []), .getReturned 1, .postget 1 [], .produce 1,
          .callback 1 true] = some s ∧
      InOrder s.queue.history ∧ ¬ AtLeastOnce s.queue.history := by
  refine exists_of_exec_any (P := fun s => InOrder s.queue.history ∧
    s.queue.history.take 20 = s.queue.history.take 19 ++
      [.stored (.producer 1) ⟨some 1, 5, 0, some ⟨1, some ⟨0, 1, some 1⟩⟩⟩] ∧
    (0, ⟨0, 0, some 0⟩) ∈ records (s.queue.history.take 19) ∧
    ¬ Handled (s.queue.history.take 19) ⟨0, 0, some 0⟩) (by decide) ?_
  rintro s - ⟨horder, htake, hmem, hnot⟩
  refine ⟨horder, fun h => hnot ?_⟩
  exact h _ _ _ ⟨0, 1, some 1⟩ (htake ▸ List.take_prefix _ _) rfl _ hmem rfl (by decide)

/-- In a run in which the messages of every partition go one way, whenever an offset is stored,
every record of the partition up to this offset that was taken before is handled. -/
theorem offsets_stored_in_order (conf : SystemConf) (acts : List SystemAction) (s : SystemState)
    (h : exec (SystemState.step conf) (SystemState.init conf) acts = some s)
    (horder : InOrder s.queue.history) (hlane : SingleLane s.queue.history) :
    AtLeastOnce s.queue.history := by
  refine (flow_induction (P := fun _ s => InOrder s.queue.history → SingleLane s.queue.history →
    AtLeastOnce s.queue.history ∧ (s.queue.crashed = false → Lanes s)) ?_ ?_ h horder hlane).1
  · refine fun _ _ => ⟨fun h₁ t msg env hpre => ?_, fun _ => lanes_init conf⟩
    exact absurd (List.prefix_nil.mp hpre) (by simp)
  · intro acts s a s' _ _ hs hcr hok hflow _ horder hlane
    obtain ⟨evs, hhist, -⟩ := hflow.stored
    rw [hhist] at horder hlane
    obtain ⟨hstores, hl⟩ := hs horder.of_append hlane.of_append
    rw [← hhist] at horder hlane
    exact ⟨hstores.step (hl hcr) hflow, fun hcr' => (hl hcr).step hok hflow hcr' horder hlane⟩

/-- One producer, two records of a partition, the second of which is taken while the first is on its
way: their offsets are stored one after the other. -/
theorem offsets_stored_in_order_two_records :
    ∃ s, exec (SystemState.step ⟨1, fun _ => true, [0], 0, 0, fun _ => 0, fun _ => 0⟩)
        (SystemState.init ⟨1, fun _ => true, [0], 0, 0, fun _ => 0, fun _ => 0⟩)
        [.producerInit 0 true, .consumerInit 0 true, .await 0,
          .consumerHead 0, .consume 0 (.record 0 7 (some 0) 5 0), .preadd 0 [],
          .queue (.add (.consumer 0) ⟨some 0, 5, 0, some ⟨0, some ⟨0, 7, some 0⟩⟩⟩ (some 0) []),
          .queue (.lock (.consumer 0) true), .addReturned 0,
          .producerHead 0, .queue (.get (.producer 0) ⟨none, 0, 0, none⟩ true),
          .consumerHead 0, .consume 0 (.record 0 8 (some 1) 6 1), .preadd 0 [],
          .queue (.add (.consumer 0) ⟨some 1, 6, 0, some ⟨1, some ⟨0, 8, some 1⟩⟩⟩ (some 1) []),
          .queue (.lock (.consumer 0) true), .addReturned 0,
          .queue (.preget (.producer 0) []), .getReturned 0, .postget 0 [], .produce 0,
          .callback 0 true, .release 0,
          .producerHead 0, .queue (.get (.producer 0) ⟨none, 5, 0, some ⟨0, none⟩⟩ true),
          .queue (.preget (.producer 0) []), .getReturned 0, .postget 0 [], .produce 0,
          .callback 0 true] = some s ∧
      [.stored (.producer 0) ⟨some 0, 5, 0, some ⟨0, some ⟨0, 7, some 0⟩⟩⟩,
        .stored (.producer 0) ⟨some 1, 6, 0, some ⟨1, some ⟨0, 8, some 1⟩⟩⟩].Sublist
          s.queue.history ∧
      AtLeastOnce s.queue.history := by
  refine exists_of_exec_any (P := fun s => InOrder s.queue.history ∧
    (∀ e ∈ s.queue.history, e.inLane 0 (.producer 0) = true) ∧
    [.stored (.producer 0) ⟨some 0, 5, 0, some ⟨0, some ⟨0, 7, some 0⟩⟩⟩,
      .stored (.producer 0) ⟨some 1, 6, 0, some ⟨1, some ⟨0, 8, some 1⟩⟩⟩].Sublist s.queue.history)
    (by decide) ?_
  rintro s hexec ⟨horder, hlane, hstored⟩
  exact ⟨hstored, offsets_stored_in_order _ _ s hexec horder (.of_inLane hlane)⟩

end Schaufel
