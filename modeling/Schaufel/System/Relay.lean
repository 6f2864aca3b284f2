import Schaufel.File.Verbatim
import Schaufel.System.Delivery

/-!
# One consumer and one producer

With one consumer thread, one producer thread and one mark the queue is a pipe.  As long as no
message is given up, the messages are produced in the order in which they were consumed, and those
that are still under way follow in order (`relay_in_order`).

Without hooks the messages stay what they are, and none of them is ever refused
(`undisturbed_of_no_hooks`).  A file that is read and written so is copied: what was written is
always a beginning of what was read, and in the end nothing is missing but the messages that are
left in the queue (`file_relayed`).
-/

namespace Schaufel

/-! ### One lane -/

/-- No message was given up, and all of them were queued under one mark. -/
structure Undisturbed (k : UInt32) (history : List (Event Thread Nat Table)) : Prop where
  dropped : ∀ t msg, Event.dropped t msg ∉ history
  discarded : ∀ t msg, Event.discarded t msg ∉ history
  queued : ∀ t msg, Event.queued t msg ∈ history → msg.mark = k

theorem Undisturbed.keeps {k : UInt32} {history : List (Event Thread Nat Table)}
    (h : Undisturbed k history) : ∀ op ∈ history.filterMap Event.ledgerOp?, op.Keeps k := by
  intro op hop
  obtain ⟨e, he, hledger⟩ := List.mem_filterMap.mp hop
  cases e with
  | dropped t msg => exact absurd he (h.dropped t msg)
  | discarded t msg => exact absurd he (h.discarded t msg)
  | queued t msg =>
    cases t with
    | consumer i =>
      obtain rfl := Option.some.inj hledger
      exact h.queued _ msg he
    | producer j => cases hledger
    | stats => cases hledger
  | consumed t msg =>
    cases t with
    | consumer i =>
      obtain ⟨-, hop⟩ := Option.ite_none_right_eq_some.mp hledger
      obtain rfl := Option.some.inj hop
      trivial
    | producer j => cases hledger
    | stats => cases hledger
  | delivered t msg =>
    cases t with
    | producer j =>
      obtain rfl := Option.some.inj hledger
      trivial
    | consumer i => cases hledger
    | stats => cases hledger
  | produced t msg =>
    cases t with
    | producer j =>
      obtain rfl := Option.some.inj hledger
      trivial
    | consumer i => cases hledger
    | stats => cases hledger
  | effect | getLocked | counted | stored => cases hledger

/-- Two lists that make up a range. -/
theorem eq_of_append_eq_range {l₁ l₂ : List Nat} {n : Nat} (h : l₁ ++ l₂ = List.range n) (m : Nat) :
    (∀ x, l₁[m]? = some x → x = m) ∧ ∀ x, l₂[m]? = some x → x = l₁.length + m := by
  refine ⟨fun x hx => ?_, fun x hx => ?_⟩
  · have hlt := (List.getElem?_eq_some_iff.mp hx).1
    have hx' : (l₁ ++ l₂)[m]? = some x := by
      rw [List.getElem?_append_left hlt, hx]
    rw [h] at hx'
    obtain ⟨hlt, rfl⟩ := List.getElem?_eq_some_iff.mp hx'
    exact List.getElem_range hlt
  · have hx' : (l₁ ++ l₂)[l₁.length + m]? = some x := by
      rw [List.getElem?_append_right (Nat.le_add_right _ _), Nat.add_sub_cancel_left, hx]
    rw [h] at hx'
    obtain ⟨hlt, rfl⟩ := List.getElem?_eq_some_iff.mp hx'
    exact List.getElem_range hlt

/-- With one consumer, one producer and one mark, and as long as nothing is given up: the produced
messages stem from the first ones that were consumed, in order, and when both threads have exited
the messages that are left in the queue stem from the others, in order. -/
theorem relay_in_order (conf : SystemConf) (hconsumers : conf.consumers = 1)
    (hproducers : conf.marks.length = 1) (acts : List SystemAction) (s : SystemState)
    (h : exec (SystemState.step conf) (SystemState.init conf) acts = some s)
    (hup : s.queue.crashed = false) (k : UInt32) (hkept : Undisturbed k s.queue.history) :
    List.Forall₂ (fun orig out => ∃ k log, Carried conf (hookRuns acts) 0 0 k orig.2 log out.2)
        ((intakes s.queue.history).take (handouts s.queue.history).length)
          (handouts s.queue.history) ∧
      (s.AllExited conf →
        List.Forall₂ (fun orig e => ∃ log m, PastAdd conf (hookRuns acts) 0 orig.2 log m ∧
          m.entry = e) ((intakes s.queue.history).drop (handouts s.queue.history).length)
            (routed s.queue.history)) := by
  obtain ⟨l, log, hbooks, hhands, hbalanced, hstaff, hlanes⟩ := runKept_of_exec h
  have hsources : conf.sources = [0] := by rw [SystemConf.sources, hconsumers]; rfl
  have hsinks : conf.sinks = [0] := by rw [SystemConf.sinks, hproducers]; rfl
  rw [hsources, hsinks] at hbalanced hstaff
  obtain ⟨hlost, hkey⟩ := Ledger.keeps_of_exec hkept.keeps hbooks.books
  have hrange := hlanes.eq_range hbalanced hstaff hlost hkey
  have hfinished : l.finished.length = (handouts s.queue.history).length :=
    hbooks.finished.length_eq
  -- every item was issued to the one consumer
  have hconsumer : ∀ {n : Nat} {P : Nat → Msg → Prop}, Origin s.queue.history n P →
      ∃ orig : Nat × Msg, (intakes s.queue.history)[n]? = some orig ∧ P 0 orig.2 := by
    rintro n P ⟨i, orig, hn, hP⟩
    have hmem : i ∈ l.issued := by
      rw [hbooks.issued]
      exact List.mem_map.mpr ⟨_, List.mem_of_getElem? hn, rfl⟩
    obtain rfl : i = 0 := by simpa using hstaff.issued i hmem
    exact ⟨_, hn, hP⟩
  rw [List.append_assoc, List.append_assoc] at hrange
  constructor
  · have hdelivered : List.Forall₂ (fun (x : Nat × UInt32 × Nat) (out : Nat × Msg) =>
        ∃ orig, (intakes s.queue.history)[x.2.2]? = some orig ∧
          ∃ k log, Carried conf (hookRuns acts) 0 0 k orig.2 log out.2)
        l.finished (handouts s.queue.history) := by
      refine ((List.forall₂_and_left _ _).mpr ⟨hstaff.finished, hbooks.finished⟩).imp ?_
      rintro x out ⟨hx, hdelivered⟩
      obtain ⟨orig, horig, hcarried⟩ := hconsumer hdelivered.2
      rw [List.mem_singleton.mp hx] at hcarried
      exact ⟨orig, horig, x.2.1, log x.2.2, hcarried⟩
    have hnumbered :=
      forall₂_of_numbered (fun x : Nat × UInt32 × Nat => x.2.2) 0 hdelivered fun m x hx => by
      rw [Nat.zero_add]
      refine (eq_of_append_eq_range hrange m).1 _ ?_
      rw [List.getElem?_map, hx]
      rfl
    rwa [List.drop_zero] at hnumbered
  · rintro ⟨-, hconsumers', hproducers'⟩
    have hsource : l.source 0 = none := by
      refine (hhands hup).source_none (carry_eq_none (Or.inl ?_))
      simp [SystemState.stage, ConsumerThread.stage, hconsumers' 0 (by omega)]
    have hsink : l.sink 0 = none := by
      refine (hhands hup).sink_none (carry_eq_none (Or.inl ?_))
      simp [SystemState.stage, ProducerThread.stage, hproducers' 0 (by omega)]
    simp only [hsource, hsink, Option.toList_none, List.map_nil, List.nil_append,
      List.append_nil] at hrange
    have hlength : (routed s.queue.history).length =
        ((intakes s.queue.history).drop (handouts s.queue.history).length).length := by
      have hcount := congrArg List.length hrange
      rw [List.length_append, List.length_map, List.length_map, List.length_range, hbooks.issued,
        List.length_map, hfinished, hbooks.belt.length_eq] at hcount
      rw [List.length_drop]
      omega
    have hbelt : List.Forall₂ (fun (x : UInt32 × Nat) (e : Entry Nat Table) =>
        ∃ orig, (intakes s.queue.history)[x.2]? = some orig ∧
          ∃ log m, PastAdd conf (hookRuns acts) 0 orig.2 log m ∧ m.entry = e)
        l.belt (routed s.queue.history) := by
      refine hbooks.belt.imp fun x e hbelt => ?_
      obtain ⟨orig, horig, hpast⟩ := hconsumer hbelt.2
      exact ⟨orig, horig, log x.2, hpast⟩
    have hnumbered :=
      forall₂_of_numbered (fun x : UInt32 × Nat => x.2) (handouts s.queue.history).length hbelt
      fun m x hx => by
        have hnum := (eq_of_append_eq_range hrange m).2 x.2 (by rw [List.getElem?_map, hx]; rfl)
        rwa [List.length_map, hfinished] at hnum
    rwa [hlength, List.take_length] at hnumbered

/-! ### Without hooks -/

/-- A thread runs a list with a hook in it. -/
def HasHooks (conf : SystemConf) (t : Thread) : Prop :=
  ∃ p st st', HookPass t p st st' ∧ 0 < conf.hooks t p

/-- No list has a hook in it. -/
def NoHooks (conf : SystemConf) : Prop := ∀ t, ¬ HasHooks conf t

theorem NoHooks.eq_zero {conf : SystemConf} (h : NoHooks conf) {t : Thread} {p : HookPoint}
    {st st' : Stage} (hpass : HookPass t p st st') : conf.hooks t p = 0 := by
  by_contra hne
  exact h t ⟨p, st, st', hpass, Nat.pos_of_ne_zero hne⟩

/-- An empty list of hooks leaves the message alone. -/
theorem PassesHooks.eq_of_zero {conf : SystemConf} {runs : List HookRun} {t : Thread}
    {p : HookPoint} {log log' : List Nat} {msg msg' : Msg}
    (h : PassesHooks conf runs t p log log' msg msg') (hzero : conf.hooks t p = 0) :
    msg' = msg := by
  obtain ⟨env, -, -, rfl⟩ := h
  rw [hzero]
  rfl

/-- The message of a consumer keeps its mark of 0. -/
theorem SystemStep.xmark_eq {conf : SystemConf} (hconf : NoHooks conf) {s s' : SystemState}
    {a : SystemAction} (h : SystemStep conf s a s') (hmark : ∀ i, (s.consumers i).msg.xmark = 0) :
    ∀ i, (s'.consumers i).msg.xmark = 0 := by
  have hupdate : ∀ {i : Nat} {c : ConsumerThread}, c.msg.xmark = 0 →
      ∀ i', (Function.update s.consumers i c i').msg.xmark = 0 := by
    intro i c hc i'
    by_cases hi : i' = i
    · rw [hi, Function.update_self]
      exact hc
    · rw [Function.update_of_ne hi]
      exact hmark i'
  cases h with
  | consumerInit => exact hupdate rfl
  | @await i | @consumerHead i | @consumeFail i | @enterAdd i | @addReturned i =>
    exact hupdate (hmark i)
  | @consume i r msg evs hpc hfits hmsg =>
    refine hupdate ?_
    cases r with
    | fail => cases hmsg
    | nothing | data | record =>
      cases hmsg
      exact hmark i
  | @preadd i env r hpc hr | @preaddRefused i env r hpc hr =>
    have hlist : conf.preadd i = 0 := hconf.eq_zero (.preadd i)
    rw [hlist] at hr
    subst hr
    exact hupdate (hmark i)
  | enterGet | inside | producerInit | producerInitFail | producerExit | producerHead
  | getReturned | postget
  | postgetRefused | produce | callbackAbort | callback | release | stop | joinConsumers
  | joinProducers =>
    exact hmark

/-- What a consumer has on its way right after `consumer_consume` is its message. -/
theorem msg_eq_of_fresh {s : SystemState} {i : Nat} {msg : Msg}
    (h : s.carry (.consumer i) = some (.fresh, msg)) : (s.consumers i).msg = msg := by
  obtain ⟨hstage, hhand⟩ := carry_eq_some_iff.mp h
  simp only [SystemState.stage, ConsumerThread.stage] at hstage
  simp only [SystemState.hand, ConsumerThread.hand] at hhand
  cases hpc : (s.consumers i).pc with
  | preadd =>
    rw [hpc] at hhand
    exact Option.some.inj hhand
  | adding =>
    rw [hpc] at hstage
    obtain ⟨m, -, hm⟩ := Option.map_eq_some_iff.mp hstage
    cases hm
  | start | await | head | consume | add | exited =>
    rw [hpc] at hstage
    cases hstage

/-- No hook has refused a message, and a queued message has the mark 0. -/
def Event.Plain : Event Thread Nat Table → Prop
  | .discarded .. => False
  | .queued _ msg => msg.xmark = 0
  | _ => True

theorem Silent.plain {evs : List (Event Thread Nat Table)} (h : Silent evs) :
    ∀ e ∈ evs, e.Plain := by
  intro e he
  have hsilent := h e he
  cases e with
  | discarded | queued => cases hsilent
  | effect | consumed | dropped | getLocked | delivered | counted | produced | stored => trivial

/-- Without hooks, a step does not refuse a message, and what a consumer has keeps its mark. -/
theorem TransitStep.plain {conf : SystemConf} (hconf : NoHooks conf) {s s' : SystemState}
    {run? : Option HookRun} (h : TransitStep conf s s' run?)
    (hcarry : ∀ i st msg, s.carry (.consumer i) = some (st, msg) → msg.xmark = 0)
    (hmark : ∀ i, (s'.consumers i).msg.xmark = 0) :
    (∃ evs, s'.queue.history = s.queue.history ++ evs ∧ ∀ e ∈ evs, e.Plain) ∧
      (s'.queue.crashed = false →
        ∀ i st msg, s'.carry (.consumer i) = some (st, msg) → msg.xmark = 0) := by
  have hlast : ∀ {evs : List (Event Thread Nat Table)} {e : Event Thread Nat Table}, Silent evs →
      e.Plain →
      ∀ e' ∈ evs ++ [e], e'.Plain := by
    intro evs e hevs he e' he'
    rcases List.mem_append.mp he' with he' | he'
    · exact hevs.plain e' he'
    · rw [List.mem_singleton.mp he']
      exact he
  -- what another thread has is what it had
  have hother : ∀ {t : Thread} {o : Option (Stage × Msg)}, s'.carry = Function.update s.carry t o →
      (∀ i st msg, t = .consumer i → o = some (st, msg) → msg.xmark = 0) →
        ∀ i st msg, s'.carry (.consumer i) = some (st, msg) → msg.xmark = 0 := by
    intro t o hupdate ho i st msg hmsg
    rw [hupdate] at hmsg
    by_cases ht : Thread.consumer i = t
    · rw [ht, Function.update_self] at hmsg
      exact ho i st msg ht.symm hmsg
    · rw [Function.update_of_ne ht] at hmsg
      exact hcarry i st msg hmsg
  cases h with
  | quiet hrun hevs hsame hhist => exact ⟨⟨_, hhist, hevs.plain⟩, fun _ => by rwa [hsame]⟩
  | crashed hrun hevs hcrash hhist =>
    exact ⟨⟨_, hhist, hevs.plain⟩, fun hup => by simp [hcrash] at hup⟩
  | @consumed i msg evs hrun hevs hdata hfrom hupdate hhist =>
    refine ⟨⟨_, hhist, hlast hevs trivial⟩, fun _ => hother hupdate ?_⟩
    rintro i' st msg' ⟨⟩ ⟨⟩
    have hmsg : (s'.consumers i).msg = msg :=
      msg_eq_of_fresh (by rw [hupdate, Function.update_self])
    rw [← hmsg]
    exact hmark i
  | @hooked t p env st st' msg evs hrun hevs hpass hfrom haccept hupdate hhist =>
    refine ⟨⟨_, hhist, hevs.plain⟩, fun _ => hother hupdate ?_⟩
    rintro i _ _ rfl ⟨⟩
    rw [hconf.eq_zero hpass]
    exact hcarry i st msg hfrom
  | refused hrun hevs hpass hfrom haccept =>
    rw [hconf.eq_zero hpass] at haccept
    cases haccept
  | dropped hrun hevs hst hfrom hupdate hhist =>
    exact ⟨⟨_, hhist, hlast hevs trivial⟩, fun _ => hother hupdate (by simp)⟩
  | @queued i msg hrun hfrom hupdate hhist =>
    refine ⟨⟨_, hhist, fun e he => ?_⟩, fun _ => hother hupdate (by simp)⟩
    rw [List.mem_singleton.mp he]
    exact hcarry i _ msg hfrom
  | fetched hrun hevs hfrom hsplit hmark hold hrest hupdate hhist =>
    exact ⟨⟨_, hhist, hlast hevs trivial⟩, fun _ => hother hupdate (by simp)⟩
  | produced hrun hfrom hupdate hhist =>
    exact ⟨⟨_, hhist, hlast silent_nil trivial⟩, fun _ => hother hupdate (by simp)⟩

/-- Without hooks no message is refused, and all of them have the mark 0. -/
theorem undisturbed_of_no_hooks {conf : SystemConf} (hconf : NoHooks conf)
    {acts : List SystemAction} {s : SystemState}
    (h : exec (SystemState.step conf) (SystemState.init conf) acts = some s)
    (hdropped : ∀ t msg, Event.dropped t msg ∉ s.queue.history) :
    Undisturbed 0 s.queue.history := by
  have hrun := transit_induction (P := fun _ s => (∀ i, (s.consumers i).msg.xmark = 0) ∧
    (s.queue.crashed = false → ∀ i st msg, s.carry (.consumer i) = some (st, msg) → msg.xmark = 0) ∧
    ∀ e ∈ s.queue.history, e.Plain) ?_ ?_ h
  · obtain ⟨-, -, hplain⟩ := hrun
    refine ⟨hdropped, fun t msg hmem => hplain _ hmem, fun t msg hmem => ?_⟩
    have hzero : msg.xmark = 0 := hplain _ hmem
    rw [Message.mark, hzero]
    rfl
  · refine ⟨fun _ => rfl, fun _ i st msg hmsg => ?_, fun e he => by cases he⟩
    simp [carry_init conf] at hmsg
  · rintro acts s a s' hcr hsys htransit ⟨hmark, hcarry, hplain⟩
    have hmark' := hsys.xmark_eq hconf hmark
    obtain ⟨⟨evs, hhist, hevs⟩, hcarry'⟩ := htransit.plain hconf (hcarry hcr) hmark'
    refine ⟨hmark', hcarry', fun e he => ?_⟩
    rw [hhist] at he
    rcases List.mem_append.mp he with he | he
    · exact hplain e he
    · exact hevs e he

/-- Without hooks, a message on its way keeps its data and its length. -/
theorem Carried.entry_eq {conf : SystemConf} (hconf : NoHooks conf) {runs : List HookRun}
    {i j : Nat} {k : UInt32} {orig msg : Msg} {log : List Nat}
    (h : Carried conf runs i j k orig log msg) :
    msg.entry = orig.entry := by
  obtain ⟨_, m₄, ⟨_, m₃, ⟨m₂, ⟨_, m₁, h₁, h₂⟩, -, hentry⟩, h₃⟩, h₄⟩ := h
  rw [h₄.eq_of_zero (hconf.eq_zero (.postget j)), h₃.eq_of_zero (hconf.eq_zero (.preget j)), hentry,
    h₂.eq_of_zero (hconf.eq_zero (.postadd i)), h₁.eq_of_zero (hconf.eq_zero (.preadd i))]

theorem PastAdd.eq_of_noHooks {conf : SystemConf} (hconf : NoHooks conf) {runs : List HookRun}
    {i : Nat} {orig msg : Msg} {log : List Nat} (h : PastAdd conf runs i orig log msg) :
    msg = orig := by
  obtain ⟨_, m, h₁, h₂⟩ := h
  rw [h₂.eq_of_zero (hconf.eq_zero (.postadd i)), h₁.eq_of_zero (hconf.eq_zero (.preadd i))]

/-! ### A file is copied -/

/-- A message with the bytes that its buffer holds. -/
def Message.view (contents : Nat → List UInt8) (msg : Msg) : Message (List UInt8) Table :=
  ⟨msg.data.map contents, msg.datalen, msg.xmark, msg.metadata⟩

/-- The payload of a queued message. -/
def Entry.payload (contents : Nat → List UInt8) (e : Entry Nat Table) : List UInt8 :=
  ((e.data.map contents).getD []).take e.datalen

theorem exists_filledMessages {l : List (Message (List UInt8) Table)}
    (h : ∀ msg ∈ l, ∃ buf, msg.data = some buf ∧ msg.datalen ≤ buf.length) :
    ∃ msgs : List (FilledMessage Table), msgs.map (fun msg => msg.toMessage) = l := by
  refine ⟨l.pmap FilledMessage.mk h, ?_⟩
  rw [List.map_pmap]
  exact (List.pmap_eq_map h).trans (List.map_id l)

/-- Buffers that are entered in the queue alike hold the same payload. -/
theorem Message.view_eq_of_entry {m m' : Msg} (contents : Nat → List UInt8)
    (h : m'.entry = m.entry) :
    (m'.view contents).data = (m.view contents).data ∧
      (m'.view contents).datalen = (m.view contents).datalen := by
  obtain ⟨-, hdata, hlen, -⟩ := Entry.mk.inj h
  exact ⟨congrArg (Option.map contents) hdata, hlen⟩

theorem Message.payload_view (contents : Nat → List UInt8) (m : Msg) :
    (m.view contents).payload = m.entry.payload contents := rfl

/-- One thread reads a file and another one writes what it gets from the queue to an empty file,
without hooks and with enough memory.  At any time the file that is written is a beginning of the
one that is read.  When both threads have exited after the end of the file was read, only what is
left in the queue is missing. -/
theorem file_relayed (conf : SystemConf) (hconsumers : conf.consumers = 1)
    (hproducers : conf.marks.length = 1) (hconf : NoHooks conf) (acts : List SystemAction)
    (s : SystemState) (h : exec (SystemState.step conf) (SystemState.init conf) acts = some s)
    (hup : s.queue.crashed = false) (hdropped : ∀ t msg, Event.dropped t msg ∉ s.queue.history)
    (contents : Nat → List UInt8) (content : List UInt8) (calls : List (Message (List UInt8) Table))
    (hread : (intakes s.queue.history).map (fun x => x.2.view contents) = handedOut content calls) :
    ∃ msgs : List (FilledMessage Table), ∃ written,
      msgs.map (fun msg => msg.toMessage) =
        (handouts s.queue.history).map (fun x => x.2.view contents) ∧
      exec fileProducerProduce [] msgs = some written ∧ written <+: content ∧
      (s.AllExited conf → content.length ≤ calls.length →
        written ++ ((routed s.queue.history).map (Entry.payload contents)).flatten = content) := by
  obtain ⟨hout, hleft⟩ := relay_in_order conf hconsumers hproducers acts s h hup 0
    (undisturbed_of_no_hooks hconf h hdropped)
  have hentries := hout.imp fun orig out ⟨k, log, hcarried⟩ => hcarried.entry_eq hconf
  -- what is produced is filled with a line of the file
  have hfilled : ∀ x ∈ handouts s.queue.history,
      (∃ buf, (x.2.view contents).data = some buf ∧ (x.2.view contents).datalen ≤ buf.length) ∧
        (x.2.view contents).payload ≠ [] := by
    intro x hx
    obtain ⟨orig, horig, hentry⟩ := exists_of_forall₂ hentries hx
    have hmem : orig.2.view contents ∈ handedOut content calls := by
      rw [← hread]
      exact List.mem_map.mpr ⟨orig, List.mem_of_mem_take horig, rfl⟩
    obtain ⟨hdata, hlen⟩ := Message.view_eq_of_entry contents hentry
    rw [hdata, hlen, Message.payload_view, hentry]
    exact filled_of_mem_handedOut hmem
  obtain ⟨msgs, hmsgs⟩ := exists_filledMessages
    (List.forall_mem_map.mpr fun x hx => (hfilled x hx).1)
  have hpayloads : msgs.map (fun msg => msg.payload) =
      (handouts s.queue.history).map fun x => x.2.entry.payload contents := by
    have hmap := congrArg (List.map Message.payload) hmsgs
    rwa [List.map_map, List.map_map] at hmap
  have hnonempty : ∀ msg ∈ msgs, msg.payload ≠ [] := by
    intro msg hmsg
    have hmem := List.mem_map_of_mem (f := fun msg => msg.toMessage) hmsg
    rw [hmsgs] at hmem
    obtain ⟨x, hx, heq⟩ := List.mem_map.mp hmem
    rw [← heq]
    exact (hfilled x hx).2
  refine ⟨msgs, _, hmsgs, exec_fileProducerProduce_iff.mpr hnonempty, ?_⟩
  -- the file consists of the lines that were produced, of the others and of what was not read
  obtain ⟨rest, hcontent, hrest⟩ := handedOut_append content calls
  rw [← hread, List.map_map, ← List.take_append_drop (handouts s.queue.history).length
    (intakes s.queue.history), List.map_append, List.flatten_append, List.append_assoc] at hcontent
  have hproduced : ((intakes s.queue.history).take (handouts s.queue.history).length).map
      (Message.payload ∘ fun x => x.2.view contents) = msgs.map fun msg => msg.payload := by
    rw [hpayloads]
    exact map_eq_of_forall₂ (fun orig out hentry => congrArg (Entry.payload contents) hentry.symm)
      hentries
  rw [List.nil_append, ← hproduced]
  refine ⟨⟨_, hcontent⟩, fun hexit hcalls => ?_⟩
  have hrest : rest = [] := List.eq_nil_of_length_eq_zero (by omega)
  have hqueued : ((intakes s.queue.history).drop (handouts s.queue.history).length).map
      (Message.payload ∘ fun x => x.2.view contents) =
        (routed s.queue.history).map (Entry.payload contents) := by
    refine map_eq_of_forall₂ (fun orig e hpast => ?_) (hleft hexit)
    obtain ⟨log, m, hm, rfl⟩ := hpast
    exact congrArg (Entry.payload contents) (congrArg Message.entry (hm.eq_of_noHooks hconf).symm)
  rw [hrest, List.append_nil, hqueued] at hcontent
  exact hcontent

theorem noHooks_relayConf : NoHooks relayConf := by
  rintro t ⟨p, st, st', hpass, hpos⟩
  cases hpass with
  | preadd | postadd | preget | postget => exact Nat.lt_irrefl 0 hpos

/-- The buffers of a file with two lines. -/
def twoLines (buf : Nat) : List UInt8 := if buf = 0 then [97, 10, 0] else [98, 0]

/-- Two lines are read and one of them is written before both threads exit. -/
theorem file_relayed_two_lines :
    ∃ s, exec (SystemState.step relayConf) (SystemState.init relayConf)
        [.producerInit 0 true, .consumerInit 0 true, .await 0,
          .consumerHead 0, .consume 0 (.data 0 2), .preadd 0 [],
          .queue (.add (.consumer 0) ⟨some 0, 2, 0, none⟩ (some 0) []),
          .queue (.lock (.consumer 0) true), .addReturned 0, .producerHead 0,
          .queue (.get (.producer 0) ⟨none, 0, 0, none⟩ true), .queue (.preget (.producer 0) []),
          .getReturned 0, .postget 0 [], .produce 0, .callback 0 true, .release 0, .producerHead 0,
          .queue (.get (.producer 0) ⟨none, 2, 0, none⟩ true), .queue (.wake (.producer 0) true),
          .getReturned 0, .consumerHead 0, .consume 0 (.data 1 1), .preadd 0 [],
          .queue (.add (.consumer 0) ⟨some 1, 1, 0, none⟩ (some 1) []),
          .queue (.lock (.consumer 0) true), .addReturned 0, .consumerHead 0, .consume 0 .fail,
          .joinConsumers, .producerHead 0] = some s ∧
      ∃ msgs : List (FilledMessage Table), ∃ written,
        exec fileProducerProduce [] msgs = some written ∧ written ++ [98] = [97, 10, 98] := by
  refine exists_of_exec_any (P := fun s => s.AllExited relayConf ∧
    (∀ e ∈ s.queue.history, (match e with | .dropped .. => true | _ => false) = false) ∧
    (intakes s.queue.history).map (fun x => x.2.view twoLines) =
      handedOut [97, 10, 98] (List.replicate 3 Message.init) ∧
    (routed s.queue.history).map (Entry.payload twoLines) = [[98]]) (by decide) ?_
  rintro s hs ⟨hexit, hdropped, hread, hrouted⟩
  obtain ⟨msgs, written, -, hwritten, -, hall⟩ :=
    file_relayed relayConf rfl rfl noHooks_relayConf _ s hs
    hexit.1 (fun t msg hmem => nomatch hdropped _ hmem) twoLines _ _ hread
  have hcontent := hall hexit (Nat.le_refl _)
  rw [hrouted] at hcontent
  exact ⟨msgs, written, hwritten, hcontent⟩

end Schaufel
