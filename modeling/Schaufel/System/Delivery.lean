import Schaufel.Foundation.Correspondence
import Schaufel.System.Shutdown
import Schaufel.System.Transit

/-!
# Delivery

The history of a run keeps the books of a `Ledger`: every consumed message with data is an item, the
consumers are the sources, the producers the sinks, and a message is filed under its mark.  The
actions of a run say which hooks ran and what they did (`hookRuns`); a log gives for every item the
numbers of the runs that had it.  `Kept` and `HandsKept` are the simulation: the events of a run are
entries the books allow, every run of hooks is in the log of one item, and the books agree with the
state, item by item and with the messages themselves, which are what the runs in their log made of
the message consumed.

So the results about the books hold for the program, in every run of any number of threads.

* `message_at_one_place`: a consumed message is produced, lost, queued or in one pair of hands, and
  never at two of these places.
* `produced_from_consumed`: a produced message is what four runs of hooks and the queue made of the
  one consumed message it stems from; no two stem from the same, and no other run has had it.
* `lanes_keep_order`: messages of one consumer and one mark that one producer produces are produced
  in the order in which they were consumed.
-/

namespace Schaufel

/-! ### What a history says -/

/-- A message that was consumed, with the number of the consumer. -/
def Event.intake? : Event Thread Nat Table → Option (Nat × Msg)
  | .consumed (.consumer i) msg => if msg.data.isSome then some (i, msg) else none
  | _ => none

/-- A message that was passed to `producer_produce`, with the number of the producer. -/
def Event.handout? : Event Thread Nat Table → Option (Nat × Msg)
  | .produced (.producer j) msg => some (j, msg)
  | _ => none

/-- The messages with data that were consumed, in order. -/
def intakes (history : List (Event Thread Nat Table)) : List (Nat × Msg) :=
  history.filterMap Event.intake?

/-- The messages that were passed to `producer_produce`, in order. -/
def handouts (history : List (Event Thread Nat Table)) : List (Nat × Msg) :=
  history.filterMap Event.handout?

/-- A message that was given up: refused by a hook, or dropped for want of memory. -/
def Event.isLoss : Event Thread Nat Table → Bool
  | .discarded .. | .dropped .. => true
  | _ => false

/-- The messages that were given up, in order. -/
def losses (history : List (Event Thread Nat Table)) : List (Event Thread Nat Table) :=
  history.filter Event.isLoss

/-- The runs of hooks, in order. -/
def hookRuns (acts : List SystemAction) : List HookRun := acts.filterMap SystemAction.hookRun?

theorem hookRuns_concat (acts : List SystemAction) (a : SystemAction) :
    hookRuns (acts ++ [a]) = hookRuns acts ++ a.hookRun?.toList := by
  rw [hookRuns, List.filterMap_append]
  cases ha : a.hookRun? <;> simp [hookRuns, ha]

/-- The books of a history. -/
def books (history : List (Event Thread Nat Table)) : Option (Ledger Nat Nat UInt32) :=
  exec Ledger.step Ledger.empty (history.filterMap Event.ledgerOp?)

section Histories

variable {h evs : List (Event Thread Nat Table)} {e : Event Thread Nat Table}

/-- What a function reads off a history that goes on with silent events and one more. -/
theorem filterMap_silent_concat {β : Type} (hevs : Silent evs)
    {f : Event Thread Nat Table → Option β} (hf : ∀ e, e.isSilent = true → f e = none) :
    (h ++ (evs ++ [e])).filterMap f = h.filterMap f ++ (f e).toList := by
  rw [List.filterMap_append, List.filterMap_append, hevs.filterMap_eq_nil hf]
  cases hfe : f e <;> simp [hfe]

theorem ledgerOp?_of_isSilent (he : e.isSilent = true) : e.ledgerOp? = none := by
  cases e with
  | consumed t msg =>
    have hdata : msg.data = none := Option.isNone_iff_eq_none.mp he
    cases t <;> simp [Event.ledgerOp?, hdata]
  | effect | getLocked | counted | stored => rfl
  | discarded | dropped | queued | delivered | produced => cases he

theorem intake?_of_isSilent (he : e.isSilent = true) : e.intake? = none := by
  cases e with
  | consumed t msg =>
    have hdata : msg.data = none := Option.isNone_iff_eq_none.mp he
    cases t <;> simp [Event.intake?, hdata]
  | effect | getLocked | counted | stored => rfl
  | discarded | dropped | queued | delivered | produced => cases he

theorem handout?_of_isSilent (he : e.isSilent = true) : e.handout? = none := by
  cases e with
  | consumed | effect | getLocked | counted | stored => rfl
  | discarded | dropped | queued | delivered | produced => cases he

theorem fifoOp?_of_isSilent (he : e.isSilent = true) : e.fifoOp? = none := by
  cases e with
  | consumed | effect | getLocked | counted | stored => rfl
  | discarded | dropped | queued | delivered | produced => cases he

theorem isLoss_of_isSilent (he : e.isSilent = true) : e.isLoss = false := by
  cases e with
  | consumed | effect | getLocked | counted | stored => rfl
  | discarded | dropped | queued | delivered | produced => cases he

theorem losses_silent (hevs : Silent evs) : losses evs = [] :=
  List.filter_eq_nil_iff.mpr fun e he => by simp [isLoss_of_isSilent (hevs e he)]

/-- Silent events leave books, messages and queue alone. -/
theorem silent_append (hevs : Silent evs) : books (h ++ evs) = books h ∧
    intakes (h ++ evs) = intakes h ∧ handouts (h ++ evs) = handouts h ∧
    losses (h ++ evs) = losses h ∧ routed (h ++ evs) = routed h := by
  refine ⟨?_, ?_, ?_, ?_, ?_⟩
  · simp [books, hevs.filterMap_eq_nil fun _ => ledgerOp?_of_isSilent]
  · simp [intakes, hevs.filterMap_eq_nil fun _ => intake?_of_isSilent]
  · simp [handouts, hevs.filterMap_eq_nil fun _ => handout?_of_isSilent]
  · have hnone := losses_silent hevs
    rw [losses] at hnone
    rw [losses, List.filter_append, hnone, List.append_nil]
    rfl
  · exact routed_append_of_fifoOps_eq_nil (hevs.filterMap_eq_nil fun _ => fifoOp?_of_isSilent)

/-- The next entry in the books. -/
theorem books_concat {l l' : Ledger Nat Nat UInt32} {op : LedgerOp Nat Nat UInt32}
    (hbooks : books h = some l) (hevs : Silent evs) (hop : e.ledgerOp? = some op)
    (hst : Ledger.Step l op l') : books (h ++ (evs ++ [e])) = some l' := by
  rw [books, filterMap_silent_concat hevs fun _ => ledgerOp?_of_isSilent, hop]
  exact exec_concat_eq_some.mpr ⟨l, hbooks, Ledger.step_eq_some_iff.mpr hst⟩

theorem intakes_concat (hevs : Silent evs) :
    intakes (h ++ (evs ++ [e])) = intakes h ++ e.intake?.toList :=
  filterMap_silent_concat hevs fun _ => intake?_of_isSilent

theorem handouts_concat (hevs : Silent evs) :
    handouts (h ++ (evs ++ [e])) = handouts h ++ e.handout?.toList :=
  filterMap_silent_concat hevs fun _ => handout?_of_isSilent

theorem losses_concat (hevs : Silent evs) :
    losses (h ++ (evs ++ [e])) = losses h ++ if e.isLoss then [e] else [] := by
  have hnone := losses_silent hevs
  rw [losses] at hnone
  rw [losses, List.filter_append, List.filter_append, hnone, List.nil_append, List.filter_singleton]
  cases e.isLoss <;> rfl

/-- Only queueing and delivering change the queue. -/
theorem routed_concat (hevs : Silent evs) (he : e.fifoOp? = none) :
    routed (h ++ (evs ++ [e])) = routed h := by
  refine routed_append_of_fifoOps_eq_nil ?_
  rw [fifoOps, List.filterMap_append, hevs.filterMap_eq_nil fun _ => fifoOp?_of_isSilent]
  simp [he]

end Histories

/-! ### What becomes of a message -/

section Provenance

variable (conf : SystemConf) (runs : List HookRun)

/-- The log `log'` has one more run than `log`, a later one: the run of the list `p` by the thread
`t` in which the hooks do `env`. -/
def NextRun (t : Thread) (p : HookPoint) (env : HookEnv) (log log' : List Nat) : Prop :=
  ∃ r, log' = log ++ [r] ∧ (∀ r' ∈ log, r' < r) ∧ runs[r]? = some ⟨t, p, env⟩

/-- The next run in the log accepts the message and makes `msg'` of it. -/
def PassesHooks (t : Thread) (p : HookPoint) (log log' : List Nat) (msg msg' : Msg) : Prop :=
  ∃ env, NextRun runs t p env log log' ∧
    (hooklistRun (scriptHooks (conf.hooks t p)) env msg).accept = true ∧
    (hooklistRun (scriptHooks (conf.hooks t p)) env msg).msg = msg'

variable (i j : Nat) (k : UInt32) (orig : Msg) (log : List Nat) (msg : Msg)

/-- The preadd hooks of the consumer `i` and the postadd hooks made `msg` of `orig`. -/
def PastAdd : Prop :=
  ∃ log₁ m, PassesHooks conf runs (.consumer i) .preadd [] log₁ orig m ∧
    PassesHooks conf runs (.consumer i) .postadd log₁ log m msg

/-- The queue handed the message out again that was filed under the mark `k`: data, length, metadata
and mark are the same. -/
def PastQueue : Prop := ∃ m, PastAdd conf runs i orig log m ∧ m.mark = k ∧ msg.entry = m.entry

/-- The preget hooks made `msg` of the message. -/
def PastGet : Prop :=
  ∃ log₁ m, PastQueue conf runs i k orig log₁ m ∧
    PassesHooks conf runs (.producer j) .preget log₁ log m msg

/-- The postget hooks of the producer `j` made `msg` of the message: it has passed every list of
hooks on its way from the consumer `i` to the producer `j`, each once and in order, in the four runs
that its log has. -/
def Carried : Prop :=
  ∃ log₁ m, PastGet conf runs i j k orig log₁ m ∧
    PassesHooks conf runs (.producer j) .postget log₁ log m msg

/-- The message `msg` is at a stage of its way and stems from `orig`. -/
def Reached : Stage → Prop
  | .fresh => log = [] ∧ msg = orig
  | .preadded => PassesHooks conf runs (.consumer i) .preadd [] log orig msg
  | .postadded => PastAdd conf runs i orig log msg
  | .received => PastQueue conf runs i k orig log msg
  | .pregot => PastGet conf runs i j k orig log msg
  | .postgot => Carried conf runs i j k orig log msg

/-- What became of a message that was given up. -/
inductive Lost : Event Thread Nat Table → Prop
  /-- The last run in its log refused it, a run of the thread that had it. -/
  | refused {t : Thread} {p : HookPoint} {env : HookEnv} {st st' : Stage} {log₁ : List Nat}
      (hthread : t = .consumer i ∨ t = .producer j) (hpass : HookPass t p st st')
      (hreached : Reached conf runs i j k orig log₁ msg st) (hrun : NextRun runs t p env log₁ log)
      (haccept : (hooklistRun (scriptHooks (conf.hooks t p)) env msg).accept = false) :
      Lost (.discarded t msg)
  /-- `queue_add` had no memory for it. -/
  | dropped {st : Stage} {args : Msg} (hst : st = .preadded ∨ st = .postadded)
      (hreached : Reached conf runs i j k orig log msg st) : Lost (.dropped (.consumer i) args)

end Provenance

section Provenance

variable {conf : SystemConf} {runs runs' : List HookRun} {i j : Nat} {k : UInt32}
  {orig msg msg' : Msg} {log log' : List Nat} {t : Thread} {p : HookPoint} {env : HookEnv}
  {st st' : Stage}

theorem NextRun.append (h : NextRun runs t p env log log') :
    NextRun (runs ++ runs') t p env log log' := by
  obtain ⟨r, hlog, hlast, hr⟩ := h
  exact ⟨r, hlog, hlast, by rw [List.getElem?_append_left (List.getElem?_eq_some_iff.mp hr).1, hr]⟩

theorem PassesHooks.append (h : PassesHooks conf runs t p log log' msg msg') :
    PassesHooks conf (runs ++ runs') t p log log' msg msg' := by
  obtain ⟨env, hrun, haccept, hmsg⟩ := h
  exact ⟨env, hrun.append, haccept, hmsg⟩

theorem PastAdd.append (h : PastAdd conf runs i orig log msg) :
    PastAdd conf (runs ++ runs') i orig log msg := by
  obtain ⟨log₁, m, h₁, h₂⟩ := h
  exact ⟨log₁, m, h₁.append, h₂.append⟩

theorem PastQueue.append (h : PastQueue conf runs i k orig log msg) :
    PastQueue conf (runs ++ runs') i k orig log msg := by
  obtain ⟨m, h₁, h₂⟩ := h
  exact ⟨m, h₁.append, h₂⟩

theorem PastGet.append (h : PastGet conf runs i j k orig log msg) :
    PastGet conf (runs ++ runs') i j k orig log msg := by
  obtain ⟨log₁, m, h₁, h₂⟩ := h
  exact ⟨log₁, m, h₁.append, h₂.append⟩

theorem Carried.append (h : Carried conf runs i j k orig log msg) :
    Carried conf (runs ++ runs') i j k orig log msg := by
  obtain ⟨log₁, m, h₁, h₂⟩ := h
  exact ⟨log₁, m, h₁.append, h₂.append⟩

/-- Later runs change nothing in what was reached. -/
theorem Reached.append (h : Reached conf runs i j k orig log msg st) :
    Reached conf (runs ++ runs') i j k orig log msg st := by
  cases st with
  | fresh => exact h
  | preadded => exact PassesHooks.append h
  | postadded => exact PastAdd.append h
  | received => exact PastQueue.append h
  | pregot => exact PastGet.append h
  | postgot => exact Carried.append h

theorem Lost.append {e : Event Thread Nat Table} (h : Lost conf runs i j k orig log msg e) :
    Lost conf (runs ++ runs') i j k orig log msg e := by
  cases h with
  | refused hthread hpass hreached hrun haccept =>
    exact .refused hthread hpass hreached.append hrun.append haccept
  | dropped hst hreached => exact .dropped hst hreached.append

/-- The runs in the log of a message have taken place. -/
theorem Reached.lt_length (h : Reached conf runs i j k orig log msg st) :
    ∀ r ∈ log, r < runs.length := by
  have hnext : ∀ {t p env log log'}, NextRun runs t p env log log' → (∀ r ∈ log, r < runs.length) →
      ∀ r ∈ log', r < runs.length := by
    rintro t p env log log' ⟨r, rfl, -, hr⟩ hlog r' hr'
    rcases List.mem_append.mp hr' with hr' | hr'
    · exact hlog r' hr'
    · rw [List.mem_singleton.mp hr']
      exact (List.getElem?_eq_some_iff.mp hr).1
  have hpreadd : ∀ {log msg}, PassesHooks conf runs (.consumer i) .preadd [] log orig msg →
      ∀ r ∈ log, r < runs.length := fun ⟨_, hrun, _⟩ => hnext hrun (by simp)
  have hadd : ∀ {log msg}, PastAdd conf runs i orig log msg → ∀ r ∈ log, r < runs.length :=
    fun ⟨_, _, h₁, _, hrun, _⟩ => hnext hrun (hpreadd h₁)
  have hget : ∀ {log msg}, PastGet conf runs i j k orig log msg → ∀ r ∈ log, r < runs.length :=
    fun ⟨_, _, ⟨_, h₁, _⟩, _, hrun, _⟩ => hnext hrun (hadd h₁)
  cases st with
  | fresh =>
    obtain ⟨rfl, -⟩ : log = [] ∧ _ := h
    simp
  | preadded => exact hpreadd h
  | postadded => exact hadd h
  | received =>
    obtain ⟨m, h₁, -⟩ : PastQueue conf runs i k orig log msg := h
    exact hadd h₁
  | pregot => exact hget h
  | postgot =>
    obtain ⟨log₁, m, h₁, env, hrun, -⟩ : Carried conf runs i j k orig log msg := h
    exact hnext hrun (hget h₁)

/-- The run that takes place now comes after those in the log of the message. -/
theorem Reached.nextRun (h : Reached conf runs i j k orig log msg st) :
    NextRun (runs ++ [⟨t, p, env⟩]) t p env log (log ++ [runs.length]) :=
  ⟨runs.length, rfl, h.lt_length, by simp⟩

/-- A list of hooks takes a message to the next stage. -/
theorem Reached.pass (h : Reached conf runs i j k orig log msg st) (hpass : HookPass t p st st')
    (hconsumer : ∀ i', t = .consumer i' → i' = i) (hproducer : ∀ j', t = .producer j' → j' = j)
    (haccept : (hooklistRun (scriptHooks (conf.hooks t p)) env msg).accept = true) :
    Reached conf (runs ++ [⟨t, p, env⟩]) i j k orig (log ++ [runs.length])
      (hooklistRun (scriptHooks (conf.hooks t p)) env msg).msg st' := by
  have hpasses : PassesHooks conf (runs ++ [⟨t, p, env⟩]) t p log (log ++ [runs.length]) msg
      (hooklistRun (scriptHooks (conf.hooks t p)) env msg).msg := ⟨env, h.nextRun, haccept, rfl⟩
  cases hpass with
  | preadd i' =>
    obtain rfl := hconsumer i' rfl
    obtain ⟨rfl, rfl⟩ : log = [] ∧ msg = orig := h
    exact hpasses
  | postadd i' =>
    obtain rfl := hconsumer i' rfl
    exact ⟨log, msg, PassesHooks.append h, hpasses⟩
  | preget j' =>
    obtain rfl := hproducer j' rfl
    exact ⟨log, msg, PastQueue.append h, hpasses⟩
  | postget j' =>
    obtain rfl := hproducer j' rfl
    exact ⟨log, msg, PastGet.append h, hpasses⟩

end Provenance

/-- The item `n` is a message that was consumed, and `P` holds of its consumer and of the
message. -/
def Origin (history : List (Event Thread Nat Table)) (n : Nat) (P : Nat → Msg → Prop) : Prop :=
  ∃ i orig, (intakes history)[n]? = some (i, orig) ∧ P i orig

theorem Origin.append {h h' : List (Event Thread Nat Table)} {n : Nat} {P : Nat → Msg → Prop}
    (horigin : Origin h n P) : Origin (h ++ h') n P := by
  obtain ⟨i, orig, hn, hP⟩ := horigin
  refine ⟨i, orig, ?_, hP⟩
  rw [intakes, List.filterMap_append, List.getElem?_append_left]
  · exact hn
  · exact (List.getElem?_eq_some_iff.mp hn).1

theorem Origin.imp {h : List (Event Thread Nat Table)} {n : Nat} {P Q : Nat → Msg → Prop}
    (horigin : Origin h n P) (hPQ : ∀ i orig, P i orig → Q i orig) : Origin h n Q := by
  obtain ⟨i, orig, hn, hP⟩ := horigin
  exact ⟨i, orig, hn, hPQ i orig hP⟩

theorem Origin.lt_length {h : List (Event Thread Nat Table)} {n : Nat} {P : Nat → Msg → Prop}
    (horigin : Origin h n P) : n < (intakes h).length := by
  obtain ⟨i, orig, hn, -⟩ := horigin
  exact (List.getElem?_eq_some_iff.mp hn).1

/-! ### The threads at work -/

/-- The numbers of the consumers and of the producers. -/
def SystemConf.sources (conf : SystemConf) : List Nat := List.range conf.consumers

@[inherit_doc SystemConf.sources]
def SystemConf.sinks (conf : SystemConf) : List Nat := List.range conf.marks.length

/-- Threads that are not configured have exited from the beginning. -/
def Configured (conf : SystemConf) (s : SystemState) : Prop :=
  (∀ i, (s.consumers i).pc ≠ .exited → i ∈ conf.sources) ∧
    ∀ j, (s.producers j).pc ≠ .exited → j ∈ conf.sinks

/-- No step brings an exited thread back. -/
theorem SystemStep.exited {conf : SystemConf} {s s' : SystemState} {a : SystemAction}
    (h : SystemStep conf s a s') :
    (∀ i, (s.consumers i).pc = .exited → (s'.consumers i).pc = .exited) ∧
      ∀ j, (s.producers j).pc = .exited → (s'.producers j).pc = .exited := by
  have hconsumer : ∀ {i : Nat} {c : ConsumerThread}, (s.consumers i).pc ≠ .exited →
      ∀ i', (s.consumers i').pc = .exited → (Function.update s.consumers i c i').pc = .exited := by
    intro i c hpc i' hi'
    rwa [Function.update_of_ne (by rintro rfl; exact hpc hi')]
  have hproducer : ∀ {j : Nat} {p : ProducerThread}, (s.producers j).pc ≠ .exited →
      ∀ j', (s.producers j').pc = .exited → (Function.update s.producers j p j').pc = .exited := by
    intro j p hpc j' hj'
    rwa [Function.update_of_ne (by rintro rfl; exact hpc hj')]
  cases h with
  | consumerInit hpc | await hpc | consumerHead hpc | consumeFail hpc | consume hpc | preadd hpc
  | preaddRefused hpc | enterAdd hpc | addReturned hpc =>
    exact ⟨hconsumer (by simp [hpc]), fun _ => id⟩
  | enterGet hpc | producerInit hpc | producerInitFail hpc | producerExit hpc | producerHead hpc
  | getReturned hpc | postget hpc | postgetRefused hpc | produce hpc | callback hpc | release hpc =>
    exact ⟨fun _ => id, hproducer (by simp [hpc])⟩
  | inside | callbackAbort | stop | joinConsumers | joinProducers =>
    exact ⟨fun _ => id, fun _ => id⟩

/-- A thread with a message on its way is configured. -/
theorem Configured.mem {conf : SystemConf} {s : SystemState} (h : Configured conf s)
    {x : Stage × Msg} :
    (∀ i, s.carry (.consumer i) = some x → i ∈ conf.sources) ∧
      ∀ j, s.carry (.producer j) = some x → j ∈ conf.sinks := by
  refine ⟨fun i hi => h.1 i fun hpc => ?_, fun j hj => h.2 j fun hpc => ?_⟩
  · obtain ⟨hstage, -⟩ := carry_eq_some_iff.mp hi
    simp [SystemState.stage, ConsumerThread.stage, hpc] at hstage
  · obtain ⟨hstage, -⟩ := carry_eq_some_iff.mp hj
    simp [SystemState.stage, ProducerThread.stage, hpc] at hstage

/-! ### The simulation -/

section Simulation

variable (conf : SystemConf) (runs : List HookRun) (history : List (Event Thread Nat Table))
  (log : Nat → List Nat)

/-- An item on the belt and the entry of the queue that it is. -/
def OnBelt (x : UInt32 × Nat) (e : Entry Nat Table) : Prop :=
  x.1 = e.mark ∧
    Origin history x.2 fun i orig => ∃ m, PastAdd conf runs i orig (log x.2) m ∧ m.entry = e

/-- An item a producer is done with and the message it has produced. -/
def Delivered (x : Nat × UInt32 × Nat) (out : Nat × Msg) : Prop :=
  x.1 = out.1 ∧
    Origin history x.2.2 fun i orig => Carried conf runs i x.1 x.2.1 orig (log x.2.2) out.2

/-- An item that was given up and the event in which it was. -/
def GivenUp (n : Nat) (e : Event Thread Nat Table) : Prop :=
  Origin history n fun i orig => ∃ j k msg, Lost conf runs i j k orig (log n) msg e

/-- The item of a consumer and the message on its way that it is. -/
def InSource (i : Nat) (x : Stage × Msg) (n : Nat) : Prop :=
  Origin history n fun i' orig => i' = i ∧ Reached conf runs i 0 0 orig (log n) x.2 x.1

/-- The item of a producer and the message on its way that it is. -/
def InSink (j : Nat) (x : Stage × Msg) (y : UInt32 × Nat) : Prop :=
  Origin history y.2 fun i orig => Reached conf runs i j y.1 orig (log y.2) x.2 x.1

/-- The books and the log agree with the history and the runs of hooks. -/
structure Kept (l : Ledger Nat Nat UInt32) : Prop where
  books : books history = some l
  /-- The items are the messages consumed. -/
  issued : l.issued = (intakes history).map Prod.fst
  /-- The belt is the queue. -/
  belt : List.Forall₂ (OnBelt conf runs history log) l.belt (routed history)
  /-- The items that are done are the messages produced. -/
  finished : List.Forall₂ (Delivered conf runs history log) l.finished (handouts history)
  /-- The items that are lost were refused or dropped. -/
  lost : List.Forall₂ (GivenUp conf runs history log) l.lost (losses history)
  /-- Every run of hooks is in the log of one item, once. -/
  runs : ((List.range (intakes history).length).flatMap log).Perm (List.range runs.length)
  /-- The items to come have empty logs. -/
  unborn : ∀ n, (intakes history).length ≤ n → log n = []

/-- The books agree with what the threads have. -/
structure HandsKept (s : SystemState) (l : Ledger Nat Nat UInt32) : Prop where
  source : ∀ i,
      Option.Rel (InSource conf runs s.queue.history log i) (s.carry (.consumer i)) (l.source i)
  sink : ∀ j, Option.Rel (InSink conf runs s.queue.history log j) (s.carry (.producer j)) (l.sink j)

end Simulation

section Simulation

variable {conf : SystemConf} {s s' : SystemState} {l l' : Ledger Nat Nat UInt32}
  {evs : List (Event Thread Nat Table)} {e : Event Thread Nat Table} {runs runs' : List HookRun}
  {h h' : List (Event Thread Nat Table)} {log log' : Nat → List Nat}

/-- Later runs and events change nothing for an item whose log stays. -/
theorem OnBelt.append {x : UInt32 × Nat} {e : Entry Nat Table} (hx : OnBelt conf runs h log x e)
    (hlog : log' x.2 = log x.2) : OnBelt conf (runs ++ runs') (h ++ h') log' x e := by
  refine ⟨hx.1, (hx.2.imp ?_).append⟩
  rintro i orig ⟨m, hpast, hm⟩
  exact ⟨m, hlog ▸ hpast.append, hm⟩

@[inherit_doc OnBelt.append]
theorem Delivered.append {x : Nat × UInt32 × Nat} {out : Nat × Msg}
    (hx : Delivered conf runs h log x out) (hlog : log' x.2.2 = log x.2.2) :
    Delivered conf (runs ++ runs') (h ++ h') log' x out :=
  ⟨hx.1, (hx.2.imp fun _ _ hcarried => hlog ▸ hcarried.append).append⟩

@[inherit_doc OnBelt.append]
theorem GivenUp.append {n : Nat} (hn : GivenUp conf runs h log n e) (hlog : log' n = log n) :
    GivenUp conf (runs ++ runs') (h ++ h') log' n e := by
  refine (Origin.imp hn ?_).append
  rintro i orig ⟨j, k, msg, hlost⟩
  exact ⟨j, k, msg, hlog ▸ hlost.append⟩

@[inherit_doc OnBelt.append]
theorem InSource.append {i : Nat} {x : Stage × Msg} {n : Nat} (hn : InSource conf runs h log i x n)
    (hlog : log' n = log n) : InSource conf (runs ++ runs') (h ++ h') log' i x n :=
  (Origin.imp hn fun _ _ hreached => ⟨hreached.1, hlog ▸ hreached.2.append⟩).append

@[inherit_doc OnBelt.append]
theorem InSink.append {j : Nat} {x : Stage × Msg} {y : UInt32 × Nat}
    (hy : InSink conf runs h log j x y) (hlog : log' y.2 = log y.2) :
    InSink conf (runs ++ runs') (h ++ h') log' j x y :=
  (Origin.imp hy fun _ _ hreached => hlog ▸ hreached.append).append

/-- Silent events change nothing in the books. -/
theorem Kept.silent (hkept : Kept conf runs h log l) (hevs : Silent evs) :
    Kept conf runs (h ++ evs) log l := by
  obtain ⟨hbooks, hintakes, hhandouts, hlosses, hrouted⟩ := silent_append (h := h) hevs
  rw [← List.append_nil runs]
  refine ⟨hbooks.trans hkept.books, by rw [hintakes, hkept.issued], ?_, ?_, ?_, ?_, ?_⟩
  · rw [hrouted]
    exact hkept.belt.imp fun _ _ hx => hx.append rfl
  · rw [hhandouts]
    exact hkept.finished.imp fun _ _ hx => hx.append rfl
  · rw [hlosses]
    exact hkept.lost.imp fun _ _ hx => hx.append rfl
  · rw [hintakes, List.append_nil]
    exact hkept.runs
  · rw [hintakes]
    exact hkept.unborn

/-- A run of hooks on an item that is in the hands of a thread goes into its log. -/
theorem Kept.run {n : Nat} (hkept : Kept conf runs h log l) (run : HookRun)
    (hn : n < (intakes h).length)
    (hapart : n ∉ l.finished.map (fun x => x.2.2) ++ l.lost ++ l.belt.map Prod.snd) :
    Kept conf (runs ++ [run]) h (Function.update log n (log n ++ [runs.length])) l := by
  simp only [List.mem_append, List.mem_map, not_or, not_exists, not_and] at hapart
  obtain ⟨⟨hfinished, hlost⟩, hbelt⟩ := hapart
  have hsame : ∀ {m}, m ≠ n → Function.update log n (log n ++ [runs.length]) m = log m :=
    fun hne => Function.update_of_ne hne _ _
  refine ⟨hkept.books, hkept.issued, ?_, ?_, ?_, ?_, fun m hm => ?_⟩
  · refine ((List.forall₂_and_left _ _).mpr ⟨hbelt, hkept.belt⟩).imp ?_
    rintro x e ⟨hne, hx⟩
    have hx' : OnBelt conf (runs ++ [run]) (h ++ []) _ x e := hx.append (hsame hne)
    rwa [List.append_nil] at hx'
  · refine ((List.forall₂_and_left _ _).mpr ⟨hfinished, hkept.finished⟩).imp ?_
    rintro x out ⟨hne, hx⟩
    have hx' : Delivered conf (runs ++ [run]) (h ++ []) _ x out := hx.append (hsame hne)
    rwa [List.append_nil] at hx'
  · have hlost' : ∀ m ∈ l.lost, m ≠ n := fun m hm => ne_of_mem_of_not_mem hm hlost
    refine ((List.forall₂_and_left _ _).mpr ⟨hlost', hkept.lost⟩).imp ?_
    rintro m e ⟨hne, hm⟩
    have hm' : GivenUp conf (runs ++ [run]) (h ++ []) _ m e := hm.append (hsame hne)
    rwa [List.append_nil] at hm'
  · rw [List.length_append, List.length_singleton, List.range_succ]
    exact (Ledger.flatMap_update_perm _ List.nodup_range (List.mem_range.mpr hn)).trans
      (hkept.runs.append_right _)
  · rw [hsame (by omega)]
    exact hkept.unborn m hm

/-- An entry in the books that concerns neither the messages consumed nor those produced nor the
queue: an item is lost. -/
theorem Kept.lose {op : LedgerOp Nat Nat UInt32} {n : Nat} (hkept : Kept conf runs h log l)
    (hevs : Silent evs) (hop : e.ledgerOp? = some op) (hst : Ledger.Step l op l')
    (hintake : e.intake? = none) (hhandout : e.handout? = none) (hfifo : e.fifoOp? = none)
    (hloss : e.isLoss = true) (hissued : l'.issued = l.issued) (hbelt : l'.belt = l.belt)
    (hfinished : l'.finished = l.finished) (hlost : l'.lost = l.lost ++ [n])
    (hn : GivenUp conf runs h log n e) : Kept conf runs (h ++ (evs ++ [e])) log l' := by
  have hintakes : intakes (h ++ (evs ++ [e])) = intakes h := by
    rw [intakes_concat hevs, hintake, Option.toList_none, List.append_nil]
  rw [← List.append_nil runs]
  refine ⟨books_concat hkept.books hevs hop hst, ?_, ?_, ?_, ?_, ?_, ?_⟩
  · rw [hintakes, hissued, hkept.issued]
  · rw [routed_concat hevs hfifo, hbelt]
    exact hkept.belt.imp fun _ _ hx => hx.append rfl
  · rw [handouts_concat hevs, hhandout, hfinished, Option.toList_none, List.append_nil (handouts h)]
    exact hkept.finished.imp fun _ _ hx => hx.append rfl
  · rw [losses_concat hevs, if_pos hloss, hlost]
    exact List.rel_append (hkept.lost.imp fun _ _ hx => hx.append rfl) (.cons (hn.append rfl) .nil)
  · rw [hintakes, List.append_nil]
    exact hkept.runs
  · rw [hintakes]
    exact hkept.unborn

/-- What the threads have after a step of a consumer that leaves the logs of the others alone. -/
theorem HandsKept.of_consumer {i : Nat} {o : Option (Stage × Msg)} {x : Option Nat}
    (hhands : HandsKept conf runs log s l)
    (hcarry : s'.carry = Function.update s.carry (.consumer i) o)
    (hhist : s'.queue.history = s.queue.history ++ evs) (hsink : l'.sink = l.sink)
    (hsource : l'.source = Function.update l.source i x)
    (hlog : ∀ i' n, i' ≠ i → l.source i' = some n → log' n = log n)
    (hlog' : ∀ j k n, l.sink j = some (k, n) → log' n = log n)
    (hrel : Option.Rel (InSource conf (runs ++ runs') s'.queue.history log' i) o x) :
    HandsKept conf (runs ++ runs') log' s' l' := by
  refine ⟨fun i' => ?_, fun j => ?_⟩
  · by_cases hi : i' = i
    · rw [hi, hcarry, hsource, Function.update_self, Function.update_self]
      exact hrel
    · have hold := hhands.source i'
      rw [hcarry, hsource, hhist, Function.update_of_ne (by simpa using hi),
        Function.update_of_ne hi]
      exact optionRel_imp hold fun _ n hn hin => hin.append (hlog i' n hi hn)
  · have hold := hhands.sink j
    rw [hcarry, hsink, hhist, Function.update_of_ne (by simp)]
    exact optionRel_imp hold fun _ y hy hin => hin.append (hlog' j y.1 y.2 hy)

/-- What the threads have after a step of a producer that leaves the logs of the others alone. -/
theorem HandsKept.of_producer {j : Nat} {o : Option (Stage × Msg)} {x : Option (UInt32 × Nat)}
    (hhands : HandsKept conf runs log s l)
    (hcarry : s'.carry = Function.update s.carry (.producer j) o)
    (hhist : s'.queue.history = s.queue.history ++ evs) (hsource : l'.source = l.source)
    (hsink : l'.sink = Function.update l.sink j x)
    (hlog : ∀ i n, l.source i = some n → log' n = log n)
    (hlog' : ∀ j' k n, j' ≠ j → l.sink j' = some (k, n) → log' n = log n)
    (hrel : Option.Rel (InSink conf (runs ++ runs') s'.queue.history log' j) o x) :
    HandsKept conf (runs ++ runs') log' s' l' := by
  refine ⟨fun i => ?_, fun j' => ?_⟩
  · have hold := hhands.source i
    rw [hcarry, hsource, hhist, Function.update_of_ne (by simp)]
    exact optionRel_imp hold fun _ n hn hin => hin.append (hlog i n hn)
  · by_cases hj : j' = j
    · rw [hj, hcarry, hsink, Function.update_self, Function.update_self]
      exact hrel
    · have hold := hhands.sink j'
      rw [hcarry, hsink, hhist, Function.update_of_ne (by simpa using hj), Function.update_of_ne hj]
      exact optionRel_imp hold fun _ y hy hin => hin.append (hlog' j' y.1 y.2 hj hy)

/-- A consumer has no item if it has no message on its way, and otherwise the one that it is. -/
theorem HandsKept.source_none {i : Nat} (hhands : HandsKept conf runs log s l)
    (h : s.carry (.consumer i) = none) : l.source i = none :=
  eq_none_of_optionRel (h ▸ hhands.source i)

@[inherit_doc HandsKept.source_none]
theorem HandsKept.source_some {i : Nat} {x : Stage × Msg} (hhands : HandsKept conf runs log s l)
    (h : s.carry (.consumer i) = some x) :
    ∃ n, l.source i = some n ∧ InSource conf runs s.queue.history log i x n :=
  exists_of_optionRel (h ▸ hhands.source i)

/-- A producer has no item if it has no message on its way, and otherwise the one that it is. -/
theorem HandsKept.sink_none {j : Nat} (hhands : HandsKept conf runs log s l)
    (h : s.carry (.producer j) = none) : l.sink j = none :=
  eq_none_of_optionRel (h ▸ hhands.sink j)

@[inherit_doc HandsKept.sink_none]
theorem HandsKept.sink_some {j : Nat} {x : Stage × Msg} (hhands : HandsKept conf runs log s l)
    (h : s.carry (.producer j) = some x) :
    ∃ y, l.sink j = some y ∧ InSink conf runs s.queue.history log j x y :=
  exists_of_optionRel (h ▸ hhands.sink j)

/-- A thread with an item is configured. -/
theorem HandsKept.source_mem (hhands : HandsKept conf runs log s l) (hconf : Configured conf s) :
    (∀ {i n}, l.source i = some n → i ∈ conf.sources) ∧
      ∀ {j k n}, l.sink j = some (k, n) → j ∈ conf.sinks := by
  refine ⟨fun {i n} hn => ?_, fun {j k n} hn => ?_⟩
  · cases hcarry : s.carry (.consumer i) with
    | none => simp [hhands.source_none hcarry] at hn
    | some x => exact hconf.mem.1 i hcarry
  · cases hcarry : s.carry (.producer j) with
    | none => simp [hhands.sink_none hcarry] at hn
    | some x => exact hconf.mem.2 j hcarry

/-- A producer takes the oldest entry of a mark: so does the sink in the books. -/
theorem Kept.fetch {j : Nat} {msg : Msg} {e : Entry Nat Table} {es₁ es₂ : List (Entry Nat Table)}
    (hkept : Kept conf runs h log l) (hevs : Silent evs) (hfree : l.sink j = none)
    (hsplit : routed h = es₁ ++ e :: es₂) (hmark : e.mark = msg.mark)
    (hold : ∀ f ∈ es₁, f.mark ≠ msg.mark)
    (hrest : routed (h ++ (evs ++ [.delivered (.producer j) (msg.receive e)])) = es₁ ++ es₂) :
    ∃ l' n, Kept conf runs (h ++ (evs ++ [.delivered (.producer j) (msg.receive e)])) log l' ∧
      Ledger.Step l (.fetch j msg.mark) l' ∧ OnBelt conf runs h log (msg.mark, n) e ∧
      l'.source = l.source ∧ l'.sink = Function.update l.sink j (some (msg.mark, n)) := by
  have hbelt := hkept.belt
  rw [hsplit] at hbelt
  -- the belt splits where the queue splits
  have h₁ := List.forall₂_take_append _ _ _ hbelt
  have h₂ := List.forall₂_drop_append _ _ _ hbelt
  generalize htake : l.belt.take es₁.length = l₁ at h₁
  generalize hdrop : l.belt.drop es₁.length = l₂ at h₂
  have hl : l.belt = l₁ ++ l₂ := by rw [← htake, ← hdrop, List.take_append_drop]
  cases h₂ with
  | @cons x l₂ _ _ hx h₂ =>
    obtain ⟨k, n⟩ := x
    obtain rfl : k = msg.mark := hx.1.trans hmark
    have hfirst : ∀ y ∈ l₁, y.1 ≠ msg.mark := by
      intro y hy
      have hkeys : l₁.map Prod.fst = es₁.map Entry.mark := map_eq_of_forall₂ (fun _ _ h => h.1) h₁
      have hmem := List.mem_map_of_mem (f := Prod.fst) hy
      rw [hkeys] at hmem
      obtain ⟨f, hf, hfy⟩ := List.mem_map.mp hmem
      rw [← hfy]
      exact hold f hf
    have hintakes : intakes (h ++ (evs ++ [.delivered (.producer j) (msg.receive e)])) =
        intakes h := by
      rw [intakes_concat hevs]
      exact List.append_nil _
    have hhandouts : handouts (h ++ (evs ++ [.delivered (.producer j) (msg.receive e)])) =
        handouts h := by
      rw [handouts_concat hevs]
      exact List.append_nil _
    have hlosses : losses (h ++ (evs ++ [.delivered (.producer j) (msg.receive e)])) =
        losses h := by
      rw [losses_concat hevs]
      exact List.append_nil _
    refine ⟨_, n, ?_, .fetch hfree hl hfirst, hx, rfl, rfl⟩
    rw [← List.append_nil runs]
    refine ⟨books_concat hkept.books hevs rfl (.fetch hfree hl hfirst), ?_, ?_, ?_, ?_, ?_, ?_⟩
    · rw [hintakes, hkept.issued]
    · rw [hrest]
      exact List.rel_append (h₁.imp fun _ _ hy => hy.append rfl)
        (h₂.imp fun _ _ hy => hy.append rfl)
    · rw [hhandouts]
      exact hkept.finished.imp fun _ _ hy => hy.append rfl
    · rw [hlosses]
      exact hkept.lost.imp fun _ _ hy => hy.append rfl
    · rw [hintakes, List.append_nil]
      exact hkept.runs
    · rw [hintakes]
      exact hkept.unborn

/-- A message is consumed: the source gets the next item. -/
theorem Kept.issue {i : Nat} {msg : Msg} (hkept : Kept conf runs h log l) (hevs : Silent evs)
    (hdata : msg.data.isSome = true) (hfree : l.source i = none) :
    ∃ l', Kept conf runs (h ++ (evs ++ [.consumed (.consumer i) msg])) log l' ∧
      Ledger.Step l (.issue i) l' ∧ l'.sink = l.sink ∧
      l'.source = Function.update l.source i (some (intakes h).length) ∧
      (intakes (h ++ (evs ++ [.consumed (.consumer i) msg])))[(intakes h).length]? =
        some (i, msg) := by
  have hintake : (Event.consumed (.consumer i) msg).intake? = some (i, msg) := if_pos hdata
  have hop : (Event.consumed (.consumer i) msg).ledgerOp? = some (.issue i) := if_pos hdata
  have hintakes : intakes (h ++ (evs ++ [.consumed (.consumer i) msg])) =
      intakes h ++ [(i, msg)] := by
    rw [intakes_concat hevs, hintake]
    rfl
  have hhandouts : handouts (h ++ (evs ++ [.consumed (.consumer i) msg])) = handouts h := by
    rw [handouts_concat hevs]
    exact List.append_nil _
  have hlosses : losses (h ++ (evs ++ [.consumed (.consumer i) msg])) = losses h := by
    rw [losses_concat hevs]
    exact List.append_nil _
  have hlength : l.issued.length = (intakes h).length := by rw [hkept.issued, List.length_map]
  refine ⟨_, ?_, .issue hfree, rfl, by rw [hlength], by rw [hintakes]; simp⟩
  rw [← List.append_nil runs]
  refine ⟨books_concat hkept.books hevs hop (.issue hfree), ?_, ?_, ?_, ?_, ?_, fun n hn => ?_⟩
  · rw [hintakes, hkept.issued, List.map_append]
    rfl
  · rw [routed_concat hevs rfl]
    exact hkept.belt.imp fun _ _ hx => hx.append rfl
  · rw [hhandouts]
    exact hkept.finished.imp fun _ _ hx => hx.append rfl
  · rw [hlosses]
    exact hkept.lost.imp fun _ _ hx => hx.append rfl
  · rw [hintakes, List.length_append, List.length_singleton, List.range_succ, List.flatMap_append,
      List.flatMap_singleton, hkept.unborn _ le_rfl, List.append_nil, List.append_nil]
    exact hkept.runs
  · rw [hintakes, List.length_append] at hn
    exact hkept.unborn n (by omega)

/-- A message is queued: the source files its item under the mark. -/
theorem Kept.file {i n : Nat} {msg : Msg} (hkept : Kept conf runs h log l)
    (hn : l.source i = some n) (hin : InSource conf runs h log i (.postadded, msg) n) :
    ∃ l', Kept conf runs (h ++ [.queued (.consumer i) msg]) log l' ∧
      Ledger.Step l (.file i msg.mark) l' ∧ l'.sink = l.sink ∧
      l'.source = Function.update l.source i none := by
  have hintakes : intakes (h ++ [.queued (.consumer i) msg]) = intakes h := by
    rw [intakes, List.filterMap_append]
    exact List.append_nil _
  have hhandouts : handouts (h ++ [.queued (.consumer i) msg]) = handouts h := by
    rw [handouts, List.filterMap_append]
    exact List.append_nil _
  have hlosses : losses (h ++ [.queued (.consumer i) msg]) = losses h := by
    rw [losses, List.filter_append]
    exact List.append_nil _
  refine ⟨_, ?_, .file hn, rfl, rfl⟩
  rw [← List.append_nil runs]
  refine ⟨books_concat hkept.books silent_nil rfl (.file hn), ?_, ?_, ?_, ?_, ?_, ?_⟩
  · rw [hintakes, hkept.issued]
  · rw [routed_queued]
    refine List.rel_append (hkept.belt.imp fun _ _ hx => hx.append rfl) (.cons ⟨rfl, ?_⟩ .nil)
    refine (Origin.imp hin ?_).append
    rintro i' orig ⟨rfl, hpast⟩
    exact ⟨msg, PastAdd.append hpast, rfl⟩
  · rw [hhandouts]
    exact hkept.finished.imp fun _ _ hx => hx.append rfl
  · rw [hlosses]
    exact hkept.lost.imp fun _ _ hx => hx.append rfl
  · rw [hintakes, List.append_nil]
    exact hkept.runs
  · rw [hintakes]
    exact hkept.unborn

/-- A message is produced: the sink is done with its item. -/
theorem Kept.finish {j : Nat} {y : UInt32 × Nat} {msg : Msg} (hkept : Kept conf runs h log l)
    (hy : l.sink j = some y) (hin : InSink conf runs h log j (.postgot, msg) y) :
    ∃ l', Kept conf runs (h ++ [.produced (.producer j) msg]) log l' ∧
      Ledger.Step l (.finish j) l' ∧ l'.source = l.source ∧
      l'.sink = Function.update l.sink j none := by
  have hintakes : intakes (h ++ [.produced (.producer j) msg]) = intakes h := by
    rw [intakes, List.filterMap_append]
    exact List.append_nil _
  have hlosses : losses (h ++ [.produced (.producer j) msg]) = losses h := by
    rw [losses, List.filter_append]
    exact List.append_nil _
  refine ⟨_, ?_, .finish hy, rfl, rfl⟩
  rw [← List.append_nil runs]
  refine ⟨books_concat hkept.books silent_nil rfl (.finish hy), ?_, ?_, ?_, ?_, ?_, ?_⟩
  · rw [hintakes, hkept.issued]
  · rw [routed_append_of_fifoOps_eq_nil rfl]
    exact hkept.belt.imp fun _ _ hx => hx.append rfl
  · rw [handouts, List.filterMap_append]
    refine List.rel_append (hkept.finished.imp fun _ _ hx => hx.append rfl) (.cons ⟨rfl, ?_⟩ .nil)
    exact (Origin.imp hin fun _ _ hcarried => Carried.append hcarried).append
  · rw [hlosses]
    exact hkept.lost.imp fun _ _ hx => hx.append rfl
  · rw [hintakes, List.append_nil]
    exact hkept.runs
  · rw [hintakes]
    exact hkept.unborn

/-- The item of a consumer is nowhere else. -/
theorem HandsKept.source_alone (hhands : HandsKept conf runs log s l) (hconf : Configured conf s)
    (hbalanced : l.Balanced conf.sources conf.sinks) {i n : Nat} (hn : l.source i = some n) :
    n ∉ l.finished.map (fun x => x.2.2) ++ l.lost ++ l.belt.map Prod.snd ∧
      (∀ i', i' ≠ i → l.source i' ≠ some n) ∧ ∀ j k, l.sink j ≠ some (k, n) := by
  have hat := hhands.source_mem hconf
  obtain ⟨hapart, hsources, hsinks⟩ := hbalanced.source_alone List.nodup_range (hat.1 hn) hn
  exact ⟨hapart, fun i' hi' hn' => hsources i' (hat.1 hn') hi' hn',
    fun j k hk => hsinks j (hat.2 hk) k hk⟩

/-- The item of a producer is nowhere else. -/
theorem HandsKept.sink_alone (hhands : HandsKept conf runs log s l) (hconf : Configured conf s)
    (hbalanced : l.Balanced conf.sources conf.sinks) {j n : Nat} {k : UInt32}
    (hn : l.sink j = some (k, n)) :
    n ∉ l.finished.map (fun x => x.2.2) ++ l.lost ++ l.belt.map Prod.snd ∧
      (∀ i, l.source i ≠ some n) ∧ ∀ j' k', j' ≠ j → l.sink j' ≠ some (k', n) := by
  have hat := hhands.source_mem hconf
  obtain ⟨hapart, hsources, hsinks⟩ := hbalanced.sink_alone List.nodup_range (hat.2 hn) hn
  exact ⟨hapart, fun i hi => hsources i (hat.1 hi) hi,
    fun j' k' hj' hk' => hsinks j' (hat.2 hk') hj' k' hk'⟩

/-- A run of hooks on the message of a consumer: it goes into the log of its item, and the items of
the other threads keep their logs. -/
theorem HandsKept.run_source {i : Nat} {st : Stage} {msg : Msg}
    (hhands : HandsKept conf runs log s l) (hkept : Kept conf runs s.queue.history log l)
    (hconf : Configured conf s) (hbalanced : l.Balanced conf.sources conf.sinks)
    (hfrom : s.carry (.consumer i) = some (st, msg)) (run : HookRun) :
    ∃ n log', l.source i = some n ∧ log' n = log n ++ [runs.length] ∧
      InSource conf runs s.queue.history log i (st, msg) n ∧
      Kept conf (runs ++ [run]) s.queue.history log' l ∧
      (∀ i' m, i' ≠ i → l.source i' = some m → log' m = log m) ∧
      ∀ j k m, l.sink j = some (k, m) → log' m = log m := by
  obtain ⟨n, hn, hin⟩ := hhands.source_some hfrom
  obtain ⟨hapart, hsources, hsinks⟩ := hhands.source_alone hconf hbalanced hn
  refine ⟨n, Function.update log n (log n ++ [runs.length]), hn, Function.update_self .., hin,
    hkept.run run hin.lt_length hapart, fun i' m hi' hm => ?_, fun j k m hm => ?_⟩
  · exact Function.update_of_ne (by rintro rfl; exact hsources i' hi' hm) _ _
  · exact Function.update_of_ne (by rintro rfl; exact hsinks j k hm) _ _

/-- A run of hooks on the message of a producer. -/
theorem HandsKept.run_sink {j : Nat} {st : Stage} {msg : Msg} (hhands : HandsKept conf runs log s l)
    (hkept : Kept conf runs s.queue.history log l) (hconf : Configured conf s)
    (hbalanced : l.Balanced conf.sources conf.sinks)
    (hfrom : s.carry (.producer j) = some (st, msg)) (run : HookRun) :
    ∃ k n log', l.sink j = some (k, n) ∧ log' n = log n ++ [runs.length] ∧
      InSink conf runs s.queue.history log j (st, msg) (k, n) ∧
      Kept conf (runs ++ [run]) s.queue.history log' l ∧
      (∀ i m, l.source i = some m → log' m = log m) ∧
      ∀ j' k' m, j' ≠ j → l.sink j' = some (k', m) → log' m = log m := by
  obtain ⟨⟨k, n⟩, hn, hin⟩ := hhands.sink_some hfrom
  obtain ⟨hapart, hsources, hsinks⟩ := hhands.sink_alone hconf hbalanced hn
  refine ⟨k, n, Function.update log n (log n ++ [runs.length]), hn, Function.update_self .., hin,
    hkept.run run hin.lt_length hapart, fun i m hm => ?_, fun j' k' m hj' hm => ?_⟩
  · exact Function.update_of_ne (by rintro rfl; exact hsources i hm) _ _
  · exact Function.update_of_ne (by rintro rfl; exact hsinks j' k' hj' hm) _ _

/-- The books of a state that comes next: they have at most one entry more, which concerns a thread
at work, and they agree with the state. -/
def BooksGoOn (conf : SystemConf) (runs : List HookRun) (l : Ledger Nat Nat UInt32)
    (s : SystemState) : Prop :=
  ∃ l' log, Kept conf runs s.queue.history log l' ∧
    (s.queue.crashed = false → HandsKept conf runs log s l') ∧
    (l' = l ∨ ∃ op, Ledger.Step l op l' ∧ op.Within conf.sources conf.sinks)

/-- A list of hooks accepts the message: its run is noted in the log of the item, and the books stay
as they are. -/
theorem HandsKept.hooked {t : Thread} {p : HookPoint} {env : HookEnv} {st st' : Stage} {msg : Msg}
    {evs : List (Event Thread Nat Table)} (hhands : HandsKept conf runs log s l)
    (hkept : Kept conf runs s.queue.history log l) (hconf : Configured conf s)
    (hbalanced : l.Balanced conf.sources conf.sinks) (hevs : Silent evs)
    (hpass : HookPass t p st st') (hfrom : s.carry t = some (st, msg))
    (haccept : (hooklistRun (scriptHooks (conf.hooks t p)) env msg).accept = true)
    (hcarry : s'.carry = Function.update s.carry t
      (some (st', (hooklistRun (scriptHooks (conf.hooks t p)) env msg).msg)))
    (hhist : s'.queue.history = s.queue.history ++ evs) :
    BooksGoOn conf (runs ++ [⟨t, p, env⟩]) l s' := by
  cases t with
  | consumer i =>
    obtain ⟨n, log', hn, hlog', hin, hkept', hsources, hsinks⟩ :=
      hhands.run_source hkept hconf hbalanced hfrom ⟨.consumer i, p, env⟩
    refine ⟨l, log', hhist ▸ hkept'.silent hevs, fun _ => ?_, Or.inl rfl⟩
    refine hhands.of_consumer hcarry hhist rfl (x := some n)
      (by rw [← hn, Function.update_eq_self]) hsources hsinks (.some ?_)
    rw [hhist]
    refine (Origin.imp hin ?_).append
    rintro i' orig ⟨rfl, hreached⟩
    rw [hlog']
    exact ⟨rfl, hreached.pass hpass (fun _ h => by cases h; rfl) (fun _ h => by cases h) haccept⟩
  | producer j =>
    obtain ⟨k, n, log', hn, hlog', hin, hkept', hsources, hsinks⟩ :=
      hhands.run_sink hkept hconf hbalanced hfrom ⟨.producer j, p, env⟩
    refine ⟨l, log', hhist ▸ hkept'.silent hevs, fun _ => ?_, Or.inl rfl⟩
    refine hhands.of_producer hcarry hhist rfl (x := some (k, n))
      (by rw [← hn, Function.update_eq_self]) hsources hsinks (.some ?_)
    rw [hhist]
    refine (Origin.imp hin ?_).append
    intro i orig hreached
    rw [hlog']
    exact hreached.pass hpass (fun _ h => by cases h) (fun _ h => by cases h; rfl) haccept
  | stats => cases hpass

/-- A hook refuses the message: its run is noted in the log of the item, which is lost. -/
theorem HandsKept.refused {t : Thread} {p : HookPoint} {env : HookEnv} {st st' : Stage} {msg : Msg}
    {evs : List (Event Thread Nat Table)} (hhands : HandsKept conf runs log s l)
    (hkept : Kept conf runs s.queue.history log l) (hconf : Configured conf s)
    (hbalanced : l.Balanced conf.sources conf.sinks) (hevs : Silent evs)
    (hpass : HookPass t p st st') (hfrom : s.carry t = some (st, msg))
    (haccept : (hooklistRun (scriptHooks (conf.hooks t p)) env msg).accept = false)
    (hcarry : s'.carry = Function.update s.carry t none)
    (hhist : s'.queue.history = s.queue.history ++ (evs ++ [.discarded t msg])) :
    BooksGoOn conf (runs ++ [⟨t, p, env⟩]) l s' := by
  cases t with
  | consumer i =>
    obtain ⟨n, log', hn, hlog', hin, hkept', hsources, hsinks⟩ :=
      hhands.run_source hkept hconf hbalanced hfrom ⟨.consumer i, p, env⟩
    refine ⟨_, log', ?_, fun _ => ?_, Or.inr ⟨_, .drop hn, hconf.mem.1 i hfrom⟩⟩
    · rw [hhist]
      refine hkept'.lose hevs rfl (.drop hn) rfl rfl rfl rfl rfl rfl rfl rfl (Origin.imp hin ?_)
      rintro i' orig ⟨rfl, hreached⟩
      rw [hlog']
      exact ⟨0, 0, msg, .refused (Or.inl rfl) hpass hreached.append hreached.nextRun haccept⟩
    · exact hhands.of_consumer hcarry hhist rfl rfl hsources hsinks .none
  | producer j =>
    obtain ⟨k, n, log', hn, hlog', hin, hkept', hsources, hsinks⟩ :=
      hhands.run_sink hkept hconf hbalanced hfrom ⟨.producer j, p, env⟩
    refine ⟨_, log', ?_, fun _ => ?_, Or.inr ⟨_, .refuse hn, hconf.mem.2 j hfrom⟩⟩
    · rw [hhist]
      refine hkept'.lose hevs rfl (.refuse hn) rfl rfl rfl rfl rfl rfl rfl rfl (Origin.imp hin ?_)
      intro i orig hreached
      rw [hlog']
      exact ⟨j, k, msg, .refused (Or.inr rfl) hpass hreached.append hreached.nextRun haccept⟩
    · exact hhands.of_producer hcarry hhist rfl rfl hsources hsinks .none
  | stats => cases hpass

/-- One step: the books go on by at most one entry, which concerns a thread at work, a run of hooks
is noted in one log, and both agree with the state afterwards. -/
theorem TransitStep.kept {run? : Option HookRun} (h : TransitStep conf s s' run?)
    (hkept : Kept conf runs s.queue.history log l) (hhands : HandsKept conf runs log s l)
    (hbalanced : l.Balanced conf.sources conf.sinks) (hconf : Configured conf s)
    (hconf' : Configured conf s') : BooksGoOn conf (runs ++ run?.toList) l s' := by
  cases h with
  | quiet hrun hevs hcarry hhist =>
    subst hrun
    have hsame : s'.carry = Function.update s.carry (.consumer 0) (s.carry (.consumer 0)) := by
      rw [hcarry, Function.update_eq_self]
    refine ⟨l, log, ?_, fun _ => ?_, Or.inl rfl⟩
    · rw [hhist, Option.toList_none, List.append_nil]
      exact hkept.silent hevs
    · refine hhands.of_consumer hsame hhist rfl (Function.update_eq_self 0 l.source).symm
        (fun _ _ _ _ => rfl) (fun _ _ _ _ => rfl) ?_
      rw [hhist]
      exact optionRel_imp (hhands.source 0) fun _ _ _ hin => hin.append rfl
  | crashed hrun hevs hcrash hhist =>
    subst hrun
    refine ⟨l, log, ?_, fun hcr => by simp [hcrash] at hcr, Or.inl rfl⟩
    rw [hhist, Option.toList_none, List.append_nil]
    exact hkept.silent hevs
  | @consumed i msg evs hrun hevs hdata hfrom hcarry hhist =>
    subst hrun
    obtain ⟨l', hkept', hst, hsink, hsource, hissued⟩ :=
      hkept.issue hevs hdata (hhands.source_none hfrom)
    have hmem := hconf'.mem.1 i (by rw [hcarry, Function.update_self])
    refine ⟨l', log, ?_, fun _ => ?_, Or.inr ⟨_, hst, hmem⟩⟩
    · rw [hhist, Option.toList_none, List.append_nil]
      exact hkept'
    · refine hhands.of_consumer hcarry hhist hsink hsource (fun _ _ _ _ => rfl)
        (fun _ _ _ _ => rfl) (.some ⟨i, msg, ?_, rfl, ?_, rfl⟩)
      · rw [hhist]
        exact hissued
      · exact hkept.unborn _ le_rfl
  | hooked hrun hevs hpass hfrom haccept hcarry hhist =>
    subst hrun
    exact hhands.hooked hkept hconf hbalanced hevs hpass hfrom haccept hcarry hhist
  | refused hrun hevs hpass hfrom haccept hcarry hhist =>
    subst hrun
    exact hhands.refused hkept hconf hbalanced hevs hpass hfrom haccept hcarry hhist
  | @dropped i st msg args evs hrun hevs hst hfrom hcarry hhist =>
    subst hrun
    obtain ⟨n, hn, hin⟩ := hhands.source_some hfrom
    refine ⟨_, log, ?_, fun _ => ?_, Or.inr ⟨_, .drop hn, hconf.mem.1 i hfrom⟩⟩
    · rw [hhist, Option.toList_none, List.append_nil]
      refine hkept.lose hevs rfl (.drop hn) rfl rfl rfl rfl rfl rfl rfl rfl (Origin.imp hin ?_)
      rintro i' orig ⟨rfl, hreached⟩
      exact ⟨0, 0, msg, .dropped hst hreached⟩
    · exact hhands.of_consumer hcarry hhist rfl rfl (fun _ _ _ _ => rfl) (fun _ _ _ _ => rfl) .none
  | @queued i msg hrun hfrom hcarry hhist =>
    subst hrun
    obtain ⟨n, hn, hin⟩ := hhands.source_some hfrom
    obtain ⟨l', hkept', hst, hsink, hsource⟩ := hkept.file hn hin
    refine ⟨l', log, ?_, fun _ => ?_, Or.inr ⟨_, hst, hconf.mem.1 i hfrom⟩⟩
    · rw [hhist, Option.toList_none, List.append_nil]
      exact hkept'
    · exact hhands.of_consumer hcarry hhist hsink hsource (fun _ _ _ _ => rfl) (fun _ _ _ _ => rfl)
        .none
  | @fetched j msg e es₁ es₂ evs hrun hevs hfrom hsplit hmark hold hrest hcarry hhist =>
    subst hrun
    rw [hhist] at hrest
    obtain ⟨l', n, hkept', hst, hbelt, hsource, hsink⟩ :=
      hkept.fetch hevs (hhands.sink_none hfrom) hsplit hmark hold hrest
    have hmem := hconf'.mem.2 j (by rw [hcarry, Function.update_self])
    refine ⟨l', log, ?_, fun _ => ?_, Or.inr ⟨_, hst, hmem⟩⟩
    · rw [hhist, Option.toList_none, List.append_nil]
      exact hkept'
    · refine hhands.of_producer hcarry hhist hsource hsink (fun _ _ _ => rfl)
        (fun _ _ _ _ _ => rfl) (.some ?_)
      rw [hhist]
      refine (hbelt.2.imp ?_).append
      rintro i orig ⟨m, hpast, hm⟩
      refine ⟨m, hpast.append, ?_, ?_⟩
      · rw [← m.entry_mark, hm, hmark]
      · rw [hm, Message.receive_entry hmark]
  | @produced j msg hrun hfrom hcarry hhist =>
    subst hrun
    obtain ⟨y, hy, hin⟩ := hhands.sink_some hfrom
    obtain ⟨l', hkept', hst, hsource, hsink⟩ := hkept.finish hy hin
    refine ⟨l', log, ?_, fun _ => ?_, Or.inr ⟨_, hst, hconf.mem.2 j hfrom⟩⟩
    · rw [hhist, Option.toList_none, List.append_nil]
      exact hkept'
    · exact hhands.of_producer hcarry hhist hsource hsink (fun _ _ _ => rfl) (fun _ _ _ _ _ => rfl)
        .none

end Simulation

/-! ### Runs -/

/-- What every step keeps, seen as a step of the system and from the messages on their way, holds
along every run. -/
theorem transit_induction {conf : SystemConf} {P : List SystemAction → SystemState → Prop}
    (hinit : P [] (SystemState.init conf))
    (hstep : ∀ acts s a s', s.queue.crashed = false → SystemStep conf s a s' →
      TransitStep conf s s' a.hookRun? → P acts s → P (acts ++ [a]) s')
    {acts : List SystemAction} {s : SystemState}
    (h : exec (SystemState.step conf) (SystemState.init conf) acts = some s) : P acts s := by
  have hrun := flow_induction (P := fun acts s => P acts s ∧ (s.queue.crashed = false → Loaded s))
    ?_ ?_ h
  · exact hrun.1
  · refine ⟨hinit, fun _ t st msg hmsg => ?_⟩
    simp [carry_init conf] at hmsg
  · rintro acts s a s' hexec hst ⟨hP, hload⟩ hcr hok hflow -
    obtain ⟨-, hsys, -⟩ := systemStep_of_step hst
    have htransit := hflow.transit (hload hcr)
    exact ⟨hstep acts s a s' hcr hsys htransit hP, htransit.loaded hok (hload hcr)⟩

/-- The books and the log of a run. -/
structure RunKept (conf : SystemConf) (acts : List SystemAction) (s : SystemState)
    (l : Ledger Nat Nat UInt32) (log : Nat → List Nat) : Prop where
  kept : Kept conf (hookRuns acts) s.queue.history log l
  hands : s.queue.crashed = false → HandsKept conf (hookRuns acts) log s l
  balanced : l.Balanced conf.sources conf.sinks
  staffed : l.Staffed conf.sources conf.sinks
  lanes : l.InLanes

theorem runKept_init (conf : SystemConf) :
    RunKept conf [] (SystemState.init conf) Ledger.empty fun _ => [] := by
  have hcarry := carry_init conf
  refine ⟨⟨rfl, rfl, .nil, .nil, .nil, .nil, fun _ _ => rfl⟩, fun _ => ⟨fun i => ?_, fun j => ?_⟩,
    Ledger.balanced_empty _ _, Ledger.staffed_empty _ _, Ledger.inLanes_empty⟩
  · rw [hcarry]
    exact .none
  · rw [hcarry]
    exact .none

/-- Along every run the books are kept, balanced and in lanes. -/
theorem runKept_of_exec {conf : SystemConf} {acts : List SystemAction} {s : SystemState}
    (h : exec (SystemState.step conf) (SystemState.init conf) acts = some s) :
    ∃ l log, RunKept conf acts s l log := by
  refine (transit_induction (P := fun acts s => Configured conf s ∧
    ∃ l log, RunKept conf acts s l log) ?_ ?_ h).2
  · refine ⟨⟨fun i hi => ?_, fun j hj => ?_⟩, _, _, runKept_init conf⟩
    · by_contra hnot
      exact hi (if_neg (by simpa [SystemConf.sources] using hnot))
    · by_contra hnot
      exact hj (if_neg (by simpa [SystemConf.sinks] using hnot))
  · rintro acts s a s' hcr hsys htransit ⟨hconf, l, log, hl⟩
    have hconf' : Configured conf s' := ⟨fun i hi => hconf.1 i fun hpc => hi (hsys.exited.1 i hpc),
      fun j hj => hconf.2 j fun hpc => hj (hsys.exited.2 j hpc)⟩
    obtain ⟨l', log', hkept', hhands', hbooked⟩ :=
      htransit.kept hl.kept (hl.hands hcr) hl.balanced hconf hconf'
    rw [← hookRuns_concat] at hkept' hhands'
    refine ⟨hconf', l', log', ?_⟩
    rcases hbooked with rfl | ⟨op, hop, hwithin⟩
    · exact ⟨hkept', hhands', hl.balanced, hl.staffed, hl.lanes⟩
    · have hbook := Ledger.step_eq_some_iff.mpr hop
      exact ⟨hkept', hhands', hl.balanced.step List.nodup_range List.nodup_range hwithin hbook,
        hl.staffed.step hwithin hbook, hl.lanes.step hbook⟩

/-- One consumer and one producer without hooks. -/
def relayConf : SystemConf := ⟨1, fun _ => false, [0], 0, 0, fun _ => 0, fun _ => 0⟩

/-- A run in which two messages are consumed and queued and the first one is produced. -/
def relayRun : List SystemAction :=
  [.producerInit 0 true, .consumerInit 0 true, .await 0,
    .consumerHead 0, .consume 0 (.data 0 5), .preadd 0 [],
    .queue (.add (.consumer 0) ⟨some 0, 5, 0, none⟩ (some 0) []), .queue (.lock (.consumer 0) true),
    .addReturned 0, .consumerHead 0, .consume 0 (.data 1 6), .preadd 0 [],
    .queue (.add (.consumer 0) ⟨some 1, 6, 0, none⟩ (some 1) []), .queue (.lock (.consumer 0) true),
    .producerHead 0, .queue (.get (.producer 0) ⟨none, 0, 0, none⟩ true),
    .queue (.preget (.producer 0) []), .getReturned 0, .postget 0 [], .produce 0]

/-- One consumer and one producer of the mark 7, and one hook in every list. -/
def hookedConf : SystemConf := ⟨1, fun _ => false, [7], 1, 1, fun _ => 1, fun _ => 1⟩

/-- A run in which three messages are consumed.  The first one is given the mark 7 by the preadd
hook and new data by the postadd hook, and it is produced; the preadd hook refuses the second one;
the third one is queued. -/
def hookedRun : List SystemAction :=
  [.producerInit 0 true, .consumerInit 0 true, .await 0,
    .consumerHead 0, .consume 0 (.data 0 5), .preadd 0 [⟨[.setXmark 7], true⟩],
    .queue (.add (.consumer 0) ⟨some 0, 5, 7, none⟩ (some 0) [⟨[.replace 9 4], true⟩]),
    .queue (.lock (.consumer 0) true), .addReturned 0,
    .consumerHead 0, .consume 0 (.data 1 6), .preadd 0 [⟨[], false⟩],
    .producerHead 0, .queue (.get (.producer 0) ⟨none, 0, 7, none⟩ true),
    .consumerHead 0, .consume 0 (.data 2 7), .preadd 0 [⟨[.setXmark 7], true⟩],
    .queue (.preget (.producer 0) []), .getReturned 0,
    .queue (.add (.consumer 0) ⟨some 2, 7, 7, none⟩ (some 1) []),
    .queue (.lock (.consumer 0) true), .postget 0 [], .produce 0]

/-- In every state a run reaches, every message that was consumed is at one place: it was produced,
it was refused by a hook or dropped for want of memory, it is queued, or one thread has it.  Item by
item, the message at this place is what the runs of hooks in the log of the item made of the message
consumed.  No message is lost otherwise and none is doubled.  When all threads have exited, nobody
has any. -/
theorem message_at_one_place (conf : SystemConf) (acts : List SystemAction) (s : SystemState)
    (h : exec (SystemState.step conf) (SystemState.init conf) acts = some s)
    (hup : s.queue.crashed = false) :
    ∃ l log, Kept conf (hookRuns acts) s.queue.history log l ∧
      HandsKept conf (hookRuns acts) log s l ∧
      (l.items conf.sources conf.sinks).Perm (List.range (intakes s.queue.history).length) ∧
      (s.AllExited conf → (l.finished.map (fun x => x.2.2) ++ l.lost ++ l.belt.map Prod.snd).Perm
        (List.range (intakes s.queue.history).length)) := by
  obtain ⟨l, log, hl⟩ := runKept_of_exec h
  have hhands := hl.hands hup
  have hperm : (l.items conf.sources conf.sinks).Perm
      (List.range (intakes s.queue.history).length) := by
    have hlength : l.issued.length = (intakes s.queue.history).length := by
      rw [hl.kept.issued, List.length_map]
    exact hlength ▸ hl.balanced
  refine ⟨l, log, hl.kept, hhands, hperm, fun hexit => ?_⟩
  obtain ⟨-, hconsumers, hproducers⟩ := hexit
  -- the hands of the configured threads are empty
  have hsources : conf.sources.filterMap l.source = [] := by
    refine List.filterMap_eq_nil_iff.mpr fun i hi => hhands.source_none (carry_eq_none (Or.inl ?_))
    simp [SystemState.stage, ConsumerThread.stage, hconsumers i (List.mem_range.mp hi)]
  have hsinks : conf.sinks.filterMap l.sink = [] := by
    refine List.filterMap_eq_nil_iff.mpr fun j hj => hhands.sink_none (carry_eq_none (Or.inl ?_))
    simp [SystemState.stage, ProducerThread.stage, hproducers j (List.mem_range.mp hj)]
  simpa [Ledger.items, hsources, hsinks] using hperm

/-- Three messages, of which one is produced, one refused and one queued. -/
theorem message_at_one_place_hooked :
    ∃ s, exec (SystemState.step hookedConf) (SystemState.init hookedConf) hookedRun = some s ∧
      (handouts s.queue.history).length = 1 ∧ (losses s.queue.history).length = 1 ∧
      (routed s.queue.history).length = 1 ∧
      ∃ l log, Kept hookedConf (hookRuns hookedRun) s.queue.history log l ∧
        HandsKept hookedConf (hookRuns hookedRun) log s l ∧ (l.items [0] [0]).Perm [0, 1, 2] := by
  refine exists_of_exec_any (P := fun s => s.queue.crashed = false ∧
    (intakes s.queue.history).length = 3 ∧ (handouts s.queue.history).length = 1 ∧
    (losses s.queue.history).length = 1 ∧ (routed s.queue.history).length = 1) (by decide) ?_
  rintro s hs ⟨hup, hlength, hhandouts, hlosses, hrouted⟩
  obtain ⟨l, log, hkept, hhands, hperm, -⟩ := message_at_one_place hookedConf hookedRun s hs hup
  rw [hlength] at hperm
  exact ⟨hhandouts, hlosses, hrouted, l, log, hkept, hhands, hperm⟩

/-- Every produced message stems from one consumed message, no two from the same.  The preadd hooks
of the consumer, the postadd hooks, the queue, the preget hooks and the postget hooks of the
producer have made it of that message, in four runs of the lists, one after the other, and all of
them have accepted it.  Every run of hooks is on one message, so no other run has had this one. -/
theorem produced_from_consumed (conf : SystemConf) (acts : List SystemAction) (s : SystemState)
    (h : exec (SystemState.step conf) (SystemState.init conf) acts = some s) :
    ∃ l log, books s.queue.history = some l ∧ (l.finished.map fun x => x.2.2).Nodup ∧
      ((List.range (intakes s.queue.history).length).flatMap log).Perm
        (List.range (hookRuns acts).length) ∧
      List.Forall₂ (Delivered conf (hookRuns acts) s.queue.history log) l.finished
        (handouts s.queue.history) := by
  obtain ⟨l, log, hl⟩ := runKept_of_exec h
  refine ⟨l, log, hl.kept.books, ?_, hl.kept.runs, hl.kept.finished⟩
  have hnodup := hl.balanced.nodup_iff.mpr List.nodup_range
  simp only [Ledger.items, List.append_assoc] at hnodup
  exact (List.nodup_append.mp hnodup).1

/-- The produced message is the first one that was consumed, with the mark of the one hook and the
data of the other one; four of the seven runs were on it. -/
theorem produced_from_consumed_hooked :
    ∃ s, exec (SystemState.step hookedConf) (SystemState.init hookedConf) hookedRun = some s ∧
      handouts s.queue.history = [(0, ⟨some 9, 4, 7, none⟩)] ∧ (hookRuns hookedRun).length = 7 ∧
      ∃ l log, books s.queue.history = some l ∧ ([0, 1, 2].flatMap log).Perm (List.range 7) ∧
        List.Forall₂ (Delivered hookedConf (hookRuns hookedRun) s.queue.history log) l.finished
          (handouts s.queue.history) := by
  refine exists_of_exec_any (P := fun s => handouts s.queue.history = [(0, ⟨some 9, 4, 7, none⟩)] ∧
    (intakes s.queue.history).length = 3) (by decide) ?_
  rintro s hs ⟨hhandouts, hlength⟩
  obtain ⟨l, log, hbooks, -, hruns, hfinished⟩ := produced_from_consumed hookedConf hookedRun s hs
  rw [hlength] at hruns
  exact ⟨hhandouts, rfl, l, log, hbooks, hruns, hfinished⟩

/-- Messages that one consumer has consumed and that were queued under one mark are produced by
every producer in the order in which they were consumed: each produced message is what became of the
item it stands for, and the items of one lane are in order. -/
theorem lanes_keep_order (conf : SystemConf) (acts : List SystemAction) (s : SystemState)
    (h : exec (SystemState.step conf) (SystemState.init conf) acts = some s) :
    ∃ l log, books s.queue.history = some l ∧ l.issued = (intakes s.queue.history).map Prod.fst ∧
      List.Forall₂ (Delivered conf (hookRuns acts) s.queue.history log) l.finished
        (handouts s.queue.history) ∧
      ∀ j, (l.finished.filter (·.1 = j)).Pairwise fun x y => Ledger.Before l.issued x.2 y.2 := by
  obtain ⟨l, log, hl⟩ := runKept_of_exec h
  exact ⟨l, log, hl.kept.books, hl.kept.issued, hl.kept.finished, hl.lanes.finished_pairwise⟩

/-- The third message follows the first one. -/
theorem lanes_keep_order_hooked :
    ∃ acts s, exec (SystemState.step hookedConf) (SystemState.init hookedConf) acts = some s ∧
      handouts s.queue.history = [(0, ⟨some 9, 4, 7, none⟩), (0, ⟨some 2, 7, 7, none⟩)] ∧
      ∃ l log, books s.queue.history = some l ∧
        List.Forall₂ (Delivered hookedConf (hookRuns acts) s.queue.history log) l.finished
          (handouts s.queue.history) ∧
        (l.finished.filter (·.1 = 0)).Pairwise fun x y => Ledger.Before l.issued x.2 y.2 := by
  refine ⟨hookedRun ++ [.callback 0 true, .release 0, .producerHead 0,
    .queue (.get (.producer 0) ⟨none, 4, 7, none⟩ true), .queue (.preget (.producer 0) []),
    .getReturned 0, .postget 0 [], .produce 0], ?_⟩
  refine exists_of_exec_any (P := fun s => handouts s.queue.history =
    [(0, ⟨some 9, 4, 7, none⟩), (0, ⟨some 2, 7, 7, none⟩)]) (by decide) ?_
  rintro s hs hhandouts
  obtain ⟨l, log, hbooks, -, hfinished, horder⟩ := lanes_keep_order hookedConf _ s hs
  exact ⟨hhandouts, l, log, hbooks, hfinished, horder 0⟩

end Schaufel
