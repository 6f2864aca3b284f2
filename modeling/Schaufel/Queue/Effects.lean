import Schaufel.Foundation.Run
import Schaufel.Queue.Invariant

/-!
# The effect of a step on the routed sequence

`FifoStep` describes the steps of the queue without its memory: which frame the acting thread had
and gets, which message it holds in `queue_add`, what is written to the history and what is known of
the routed sequence.  `QueueInv.step` is the simulation: from a state that satisfies the invariant
every step of the code keeps the invariant, spares the other threads and is a `FifoStep`.
-/

namespace Schaufel

variable {ι δ μ ε : Type} [DecidableEq ι]

/-- The thread an action belongs to. -/
def QueueAction.thread : QueueAction ι δ μ ε → ι
  | .add t _ _ _ | .lock t _ | .get t _ _ | .wake t _ | .preget t _ | .count t _ => t

/-- The message a thread holds in `queue_add`. -/
def QueueState.held (s : QueueState ι δ μ) (t : ι) : Option (Message δ μ) :=
  (s.call t).node.bind (msgAt s.q.heap)

/-- The message of the caller of `queue_get` after an entry was handed out: the mark stays. -/
def Message.receive (msg : Message δ μ) (e : Entry δ μ) : Message δ μ :=
  { msg with data := e.data, datalen := e.datalen, metadata := e.metadata }

@[simp] theorem Message.receive_mark (msg : Message δ μ) (e : Entry δ μ) :
    (msg.receive e).mark = msg.mark := rfl

theorem Message.receive_entry {msg : Message δ μ} {e : Entry δ μ} (h : e.mark = msg.mark) :
    (msg.receive e).entry = e := by
  obtain ⟨mark, data, datalen, metadata⟩ := e
  obtain rfl : mark = msg.mark := h
  rfl

/-- With the action `a` the thread `t` runs the test of the wait loop of `queue_add`, for the
arguments `args` and the message `msg` in its node `p`. -/
inductive Adding (s : QueueState ι δ μ) (t : ι) (args : Message δ μ) (p : Ptr) (msg : Message δ μ) :
    QueueAction ι δ μ ε → Prop
  | lock {alloc : Bool} (hcall : s.call t = .adding args p) (hheld : s.held t = some msg) :
      Adding s t args p msg (.lock t alloc)
  | wake {sig : Bool} (hcall : s.call t = .addWait args p msg.mark sig)
      (hheld : s.held t = some msg) : Adding s t args p msg (.wake t false)

/-- With the action `a` the thread `t` runs a test of a wait loop of `queue_get` for the message
`msg` of its caller, and has written `evs` to the history just before. -/
inductive Getting (s : QueueState ι δ μ) (t : ι) (msg : Message δ μ) :
    List (Event ι δ μ) → QueueAction ι δ μ ε → Prop
  | call {alloc : Bool} (hout : (s.call t).outside = true) :
      Getting s t msg [.getLocked t msg.mark] (.get t msg alloc)
  | wait {x : Option UInt32} {sig : Bool} (hcall : s.call t = .getWait msg x sig) :
      Getting s t msg [] (.wake t false)
  | xwait {m : UInt32} {sig : Bool} (hcall : s.call t = .getXwait msg m sig) :
      Getting s t msg [] (.wake t false)

/-- The pointer `x` of the thread `t` in `queue_get` is null, since `_xmark_find` had no memory. -/
def NullMark (s : QueueState ι δ μ) (t : ι) (msg : Message δ μ) (a : QueueAction ι δ μ ε) : Prop :=
  (∃ alloc, a = .get t msg alloc ∧ s.q.xmarkFind msg.mark alloc = none) ∨
    ∃ sig, s.call t = .getWait msg none sig

/-- The steps of the queue as a routed sequence. -/
inductive FifoStep (conf : QueueConf δ μ ε) (s s' : QueueState ι δ μ) :
    QueueAction ι δ μ ε → Prop
  /-- `queue_add` has no memory for the node and frees the data. -/
  | addNoMem {t : ι} {args : Message δ μ} {env : ε} (hout : (s.call t).outside = true)
      (hcall : s'.call t = .addReturned args .enomem)
      (hhist : s'.history = s.history ++
        (args.data.toList.map (fun d => .effect t (.freeData d)) ++ [.dropped t args])) :
      FifoStep conf s s' (.add t args none env)
  /-- The postadd hooks refuse the message. -/
  | addRefused {t : ι} {args : Message δ μ} {p : Ptr} {env : ε} (hout : (s.call t).outside = true)
      (hrun : (hooklistRun conf.postadd env args).accept = false)
      (hcall : s'.call t = .addReturned args .ebadmsg)
      (hhist : s'.history = s.history ++ (hooklistRun conf.postadd env args).effects.map (.effect t)
        ++ (args.metadata.toList.map (fun h => .effect t (.freeMeta h)) ++ [.discarded t args])) :
      FifoStep conf s s' (.add t args (some p) env)
  /-- The postadd hooks accept the message. -/
  | addAccepted {t : ι} {args : Message δ μ} {p : Ptr} {env : ε}
      (hout : (s.call t).outside = true)
      (hrun : (hooklistRun conf.postadd env args).accept = true)
      (hcall : s'.call t = .adding args p)
      (hheld : s'.held t = some (hooklistRun conf.postadd env args).msg)
      (hhist : s'.history =
        s.history ++ (hooklistRun conf.postadd env args).effects.map (.effect t)) :
      FifoStep conf s s' (.add t args (some p) env)
  /-- `queue_add` has no memory for the record of the mark and releases its arguments. -/
  | addFailed {t : ι} {args : Message δ μ} {p : Ptr} (hfrom : s.call t = .adding args p)
      (hcall : s'.call t = .addReturned args .enomem)
      (hhist : s'.history = s.history ++
        (args.release.map (Event.effect t) ++ [Event.dropped t args]))
      (hmark : ∀ msg ∈ s.held t, binFind s.q.xtree msg.mark = none) :
      FifoStep conf s s' (.lock t false)
  /-- The queue is full and `queue_add` waits. -/
  | addBlocked {t : ι} {args msg : Message δ μ} {p : Ptr} {a : QueueAction ι δ μ ε}
      (hfrom : Adding s t args p msg a) (hfull : maxQueueSize < (routed s.history).length)
      (hcall : s'.call t = .addWait args p msg.mark false) (hheld : s'.held t = some msg)
      (hhist : s'.history = s.history) : FifoStep conf s s' a
  /-- `queue_add` queues its message and succeeds. -/
  | added {t : ι} {args msg : Message δ μ} {p : Ptr} {a : QueueAction ι δ μ ε}
      (hfrom : Adding s t args p msg a) (hcall : s'.call t = .addReturned args .ok)
      (hhist : s'.history = s.history ++ [.queued t msg]) : FifoStep conf s s' a
  /-- The queue is empty and `queue_get` waits. -/
  | getBlocked {t : ι} {msg : Message δ μ} {x : Option UInt32} {evs : List (Event ι δ μ)}
      {a : QueueAction ι δ μ ε} (hfrom : Getting s t msg evs a) (hempty : routed s.history = [])
      (hcall : s'.call t = .getWait msg x false) (hhist : s'.history = s.history ++ evs) :
      FifoStep conf s s' a
  /-- No entry has the mark and `queue_get` waits. -/
  | getXblocked {t : ι} {msg : Message δ μ} {evs : List (Event ι δ μ)} {a : QueueAction ι δ μ ε}
      (hfrom : Getting s t msg evs a) (hnone : ∀ e ∈ routed s.history, e.mark ≠ msg.mark)
      (hcall : s'.call t = .getXwait msg msg.mark false) (hhist : s'.history = s.history ++ evs) :
      FifoStep conf s s' a
  /-- `queue_get` takes the oldest entry of the mark. -/
  | taken {t : ι} {msg : Message δ μ} {evs : List (Event ι δ μ)} {a : QueueAction ι δ μ ε}
      {e : Entry δ μ} {es₁ es₂ : List (Entry δ μ)} (hfrom : Getting s t msg evs a)
      (hsplit : routed s.history = es₁ ++ e :: es₂) (hmark : e.mark = msg.mark)
      (hold : ∀ f ∈ es₁, f.mark ≠ msg.mark) (hrest : routed s'.history = es₁ ++ es₂)
      (hcall : s'.call t = .taken (msg.receive e))
      (hhist : s'.history = s.history ++ evs ++ [.delivered t (msg.receive e)]) :
      FifoStep conf s s' a
  /-- `queue_get` dereferences the null pointer a failed `_xmark_find` left it. -/
  | crashed {t : ι} {msg : Message δ μ} {evs : List (Event ι δ μ)} {a : QueueAction ι δ μ ε}
      (hfrom : Getting s t msg evs a) (hnull : NullMark s t msg a) (hcrash : s'.crashed = true)
      (hcall : s'.call t = s.call t) (hhist : s'.history = s.history ++ evs) : FifoStep conf s s' a
  /-- A wait of `queue_get` times out. -/
  | timedOut {t : ι} {msg : Message δ μ}
      (hfrom : Getting s t msg [] (.wake t false : QueueAction ι δ μ ε))
      (hcall : s'.call t = .getReturned msg .etimedout) (hhist : s'.history = s.history) :
      FifoStep conf s s' (.wake t true)
  /-- The preget hooks accept the message. -/
  | preget {t : ι} {msg : Message δ μ} {env : ε} (hfrom : s.call t = .taken msg)
      (hrun : (hooklistRun conf.preget env msg).accept = true)
      (hcall : s'.call t = .getReturned (hooklistRun conf.preget env msg).msg .ok)
      (hhist : s'.history =
        s.history ++ (hooklistRun conf.preget env msg).effects.map (.effect t)) :
      FifoStep conf s s' (.preget t env)
  /-- The preget hooks refuse the message. -/
  | pregetRefused {t : ι} {msg : Message δ μ} {env : ε} (hfrom : s.call t = .taken msg)
      (hrun : (hooklistRun conf.preget env msg).accept = false)
      (hcall : s'.call t = .getReturned (hooklistRun conf.preget env msg).msg .ebadmsg)
      (hhist : s'.history = s.history ++ (hooklistRun conf.preget env msg).effects.map (.effect t)
        ++ [.discarded t msg]) :
      FifoStep conf s s' (.preget t env)
  /-- A counter is read. -/
  | counted {t : ι} {c : Counter} (hout : (s.call t).outside = true) (hcall : s'.call t = s.call t)
      (hhist : s'.history = s.history ++ [.counted t c (s.q.read c)]) :
      FifoStep conf s s' (.count t c)

omit [DecidableEq ι] in
theorem Adding.thread_eq {s : QueueState ι δ μ} {t : ι} {args msg : Message δ μ} {p : Ptr}
    {a : QueueAction ι δ μ ε} (h : Adding s t args p msg a) : a.thread = t := by
  cases h <;> rfl

omit [DecidableEq ι] in
theorem Getting.thread_eq {s : QueueState ι δ μ} {t : ι} {msg : Message δ μ}
    {evs : List (Event ι δ μ)} {a : QueueAction ι δ μ ε} (h : Getting s t msg evs a) :
    a.thread = t := by
  cases h <;> rfl

omit [DecidableEq ι] in
theorem Getting.fifoOps_eq_nil {s : QueueState ι δ μ} {t : ι} {msg : Message δ μ}
    {evs : List (Event ι δ μ)} {a : QueueAction ι δ μ ε} (h : Getting s t msg evs a) :
    fifoOps evs = [] := by
  cases h <;> rfl

/-! ### The wait loops -/

/-- The acting thread of an outcome is the only one whose frame changes. -/
theorem QueueState.linked_wakeUp (s : QueueState ι δ μ) {t t' : ι} (ht' : t' ≠ t)
    (args msg : Message δ μ) (m : UInt32) (x : Xmark) (q : Queue δ μ) :
    ((s.linked t args msg m x q).call t').wakeUp = (s.call t').wakeUp := by
  simp only [linked, emit_call, setCall_call, Function.update_of_ne ht', broadcastIf_call]
  split <;> split <;> simp

theorem QueueState.handed_wakeUp (s : QueueState ι δ μ) {t t' : ι} (ht' : t' ≠ t)
    (msg : Message δ μ) (m : UInt32) (q : Queue δ μ) :
    ((s.handed t msg m q).call t').wakeUp = (s.call t').wakeUp := by
  simp [handed, Function.update_of_ne ht']

@[simp] theorem QueueState.linked_q (s : QueueState ι δ μ) (t : ι) (args msg : Message δ μ)
    (m : UInt32) (x : Xmark) (q : Queue δ μ) : (s.linked t args msg m x q).q = q := by
  simp [linked]

@[simp] theorem QueueState.linked_history (s : QueueState ι δ μ) (t : ι) (args msg : Message δ μ)
    (m : UInt32) (x : Xmark) (q : Queue δ μ) :
    (s.linked t args msg m x q).history = s.history ++ [.queued t msg] := by
  simp [linked]

@[simp] theorem QueueState.linked_call_self (s : QueueState ι δ μ) (t : ι) (args msg : Message δ μ)
    (m : UInt32) (x : Xmark) (q : Queue δ μ) :
    (s.linked t args msg m x q).call t = .addReturned args .ok := by
  simp [linked]

@[simp] theorem QueueState.handed_q (s : QueueState ι δ μ) (t : ι) (msg : Message δ μ) (m : UInt32)
    (q : Queue δ μ) : (s.handed t msg m q).q = q := by
  simp [handed]

@[simp] theorem QueueState.handed_history (s : QueueState ι δ μ) (t : ι) (msg : Message δ μ)
    (m : UInt32) (q : Queue δ μ) :
    (s.handed t msg m q).history = s.history ++ [.delivered t msg] := by
  simp [handed]

@[simp] theorem QueueState.handed_call_self (s : QueueState ι δ μ) (t : ι) (msg : Message δ μ)
    (m : UInt32) (q : Queue δ μ) : (s.handed t msg m q).call t = .taken msg := by
  simp [handed]

/-- What the code behind the lock of `queue_add` does, for a thread that holds the message `msg` in
the node `p`. -/
theorem QueueInv.addOutcome {conf : QueueConf δ μ ε} {s s' : QueueState ι δ μ} {ps : List Ptr}
    {t : ι} {args msg : Message δ μ} {p : Ptr} (hinv : QueueInv s ps)
    (hnode : (s.call t).node = some p) (hp : s.q.heap p = some ⟨msg, none, none, none⟩)
    (hfind : (binFind s.q.xtree msg.mark).isSome) (h : AddOutcome s t args p msg.mark s') :
    Keeps t s s' ∧
      ∀ (s₀ : QueueState ι δ μ) (a : QueueAction ι δ μ ε), Adding s₀ t args p msg a →
        s₀.history = s.history → FifoStep conf s₀ s' a := by
  have hmem : p ∉ ps := hinv.not_mem_of_node hnode
  obtain ⟨q', hlink, hspells, hheap, hsome⟩ := link_spec hinv.spells hp hmem hfind
  cases h with
  | wait hlen =>
    have hok : CallOk s.q ps (.addWait args p msg.mark false) := ⟨hmem, ⟨msg, hp, rfl⟩, hfind⟩
    refine ⟨hinv.of_setCall hok fun p' hp' => by rwa [hnode],
      fun s₀ a ha hs₀ => .addBlocked ha ?_ (by simp) ?_ hs₀.symm⟩
    · rwa [hs₀, ← hinv.spells.length]
    · simp [QueueState.held, Call.node, msgAt, hp]
  | crash hcrash =>
    rcases hcrash with hx | hn | hq
    · simp [hx] at hfind
    · simp [hn] at hp
    · simp [hq] at hlink
  | @link x n q hlen hx hn hq =>
    obtain rfl : q' = q := Option.some.inj (hlink.symm.trans hq)
    cases hp.symm.trans hn
    have hne : ∀ t', t' ≠ t → ∀ p', (s.call t').node = some p' → p' ≠ p := by
      rintro t' ht' p' hp' rfl
      exact ht' (hinv.distinct t' t p' hp' hnode)
    have hspares : Spares t s (s.linked t args msg msg.mark x q') := by
      refine ⟨fun t' ht' => s.linked_wakeUp ht' .., fun t' ht' p' hp' => ?_⟩
      rw [QueueState.linked_q]
      exact hheap p' (hinv.not_mem_of_node hp') (hne t' ht' p' hp')
    refine ⟨⟨⟨ps ++ [p], hinv.of_spares hspares ?_ ?_ ?_ ?_ ?_ ?_⟩, hspares⟩, fun s₀ a ha hs₀ => ?_⟩
    · rw [QueueState.linked_q, QueueState.linked_history, routed_queued]
      exact hspells
    · rw [QueueState.linked_history, fifoOps_append]
      exact hinv.faithful.push msg.entry
    · intro t' ht' p' hp' hmem'
      rcases List.mem_append.mp hmem' with hmem' | hmem'
      · exact hinv.not_mem_of_node hp' hmem'
      · exact hne t' ht' p' hp' (List.mem_singleton.mp hmem')
    · intro m hm
      rw [QueueState.linked_q, hsome]
      exact hm
    · rw [QueueState.linked_call_self]
      trivial
    · intro p' hp'
      simp [Call.node] at hp'
    · exact .added ha (by simp) (by simp [hs₀])

/-- What the code behind the lock of `queue_get` does. -/
theorem QueueInv.getOutcome {conf : QueueConf δ μ ε} {s s' : QueueState ι δ μ} {ps : List Ptr}
    {t : ι} {msg : Message δ μ} {x : Option UInt32} (hinv : QueueInv s ps)
    (hx : ∀ m, x = some m → m = msg.mark ∧ (binFind s.q.xtree m).isSome)
    (h : GetOutcome s t msg x s') :
    Keeps t s s' ∧
      ∀ (s₀ : QueueState ι δ μ) (a : QueueAction ι δ μ ε) (evs : List (Event ι δ μ)),
        Getting s₀ t msg evs a → s.history = s₀.history ++ evs → fifoOps evs = [] →
          s.call t = s₀.call t → (x = none → NullMark s₀ t msg a) → FifoStep conf s₀ s' a := by
  have hrouted : ∀ (s₀ : QueueState ι δ μ) (evs : List (Event ι δ μ)),
      s.history = s₀.history ++ evs → fifoOps evs = [] → routed s₀.history = routed s.history := by
    intro s₀ evs hhist hnil
    rw [hhist, routed_append_of_fifoOps_eq_nil hnil]
  cases h with
  | wait hfirst =>
    have hok : CallOk s.q ps (.getWait msg x false) := hx
    refine ⟨hinv.of_setCall hok (by simp [Call.node]), fun s₀ a evs ha hhist hnil _ _ =>
      .getBlocked (x := x) ha ?_ (by simp) (by simp [hhist])⟩
    rw [hrouted s₀ evs hhist hnil]
    have hps : ps = [] := by
      rw [← List.head?_eq_none_iff, ← hinv.spells.list.first, hfirst]
    have hentries := hinv.spells.entries
    simpa [hps] using hentries.symm
  | xwait hm hy hfirst =>
    obtain ⟨rfl, hsome⟩ := hx _ hm
    have hok : CallOk s.q ps (.getXwait msg msg.mark false) := ⟨rfl, hsome⟩
    refine ⟨hinv.of_setCall hok (by simp [Call.node]), fun s₀ a evs ha hhist hnil _ _ =>
      .getXblocked ha ?_ (by simp) (by simp [hhist])⟩
    rw [hrouted s₀ evs hhist hnil]
    exact (hinv.spells.first_eq_none_iff hy).mp hfirst
  | @take m y q msg' hm hy hfirst hq =>
    obtain ⟨rfl, hsome⟩ := hx m hm
    obtain ⟨q', ps', e, es₁, es₂, hes, hmark, hold, htake, hspells, hsub, hheap, hfind⟩ :=
      take_spec hinv.spells hy hfirst msg
    obtain ⟨rfl, rfl⟩ : q' = q ∧ msg.receive e = msg' := by
      simpa [Message.receive] using htake.symm.trans hq
    have hfind? : (routed s.history).find? (fun f => f.mark = (msg.receive e).entry.mark) =
        some (msg.receive e).entry := by
      rw [Message.receive_entry hmark, hes]
      exact FifoOp.find?_of_split Entry.mark (by rwa [hmark])
    have hrest : routed (s.history ++ [.delivered t (msg.receive e)]) = es₁ ++ es₂ := by
      rw [routed_delivered, hes, Message.receive_mark, ← hmark]
      rw [List.eraseP_append_right, List.eraseP_cons_of_pos (by simp)]
      simpa [hmark] using hold
    have hspares : Spares t s (s.handed t (msg.receive e) msg.mark q') := by
      refine ⟨fun t' ht' => s.handed_wakeUp ht' .., fun t' ht' p hp => ?_⟩
      rw [QueueState.handed_q]
      exact hheap p (hinv.not_mem_of_node hp)
    refine ⟨⟨⟨ps', hinv.of_spares hspares ?_ ?_ ?_ ?_ ?_ ?_⟩, hspares⟩,
      fun s₀ a evs ha hhist hnil _ _ => ?_⟩
    · rw [QueueState.handed_q, QueueState.handed_history, hrest]
      exact hspells
    · rw [QueueState.handed_history, fifoOps_append]
      exact hinv.faithful.pop hfind?
    · exact fun t' _ p hp hmem => hinv.not_mem_of_node hp (hsub p hmem)
    · intro m hm
      rw [QueueState.handed_q, hfind]
      exact hm
    · rw [QueueState.handed_call_self]
      trivial
    · intro p hp
      simp [Call.node] at hp
    · refine .taken ha ((hrouted s₀ evs hhist hnil).trans hes) hmark hold ?_ (by simp) ?_
      · rw [QueueState.handed_history, hrest]
      · rw [QueueState.handed_history, hhist]
  | crash hcrash =>
    refine ⟨hinv.of_crash t, fun s₀ a evs ha hhist hnil hcall hnull =>
      .crashed ha (hnull ?_) rfl hcall hhist⟩
    rcases hcrash with hnone | ⟨m, rfl, hcrash⟩
    · exact hnone
    · exfalso
      rcases hcrash with hy | ⟨y, hy, hfirst, hq⟩
      · have hsome := (hx m rfl).2
        simp [hy] at hsome
      · obtain ⟨q', ps', e, es₁, es₂, -, -, -, htake, -⟩ :=
          take_spec hinv.spells hy hfirst msg
        simp [hq] at htake

/-! ### The simulation -/

/-- Every step of the code keeps the invariant, spares the other threads and is a step of the routed
sequence. -/
theorem QueueInv.step {conf : QueueConf δ μ ε} {s s' : QueueState ι δ μ} {ps : List Ptr}
    {a : QueueAction ι δ μ ε} (hinv : QueueInv s ps) (h : QueueStep conf s a s') :
    Keeps a.thread s s' ∧ FifoStep conf s s' a := by
  cases h with
  | @addNoMem t args env hout =>
    refine ⟨hinv.of_quiet rfl rfl rfl (by simp) ?_ (by simp [Call.node]), ?_⟩
    · trivial
    · exact .addNoMem hout (by simp) rfl
  | @addRefused t args p env hout hp hrun =>
    refine ⟨hinv.of_quiet rfl rfl (List.append_assoc ..) (by simp) ?_ (by simp [Call.node]), ?_⟩
    · trivial
    · exact .addRefused hout hrun (by simp) rfl
  | @addAccepted t args p env hout hp hrun =>
    have hmem : p ∉ ps := fun hmem => by
      have hlive := hinv.spells.list.live p hmem
      simp [hp] at hlive
    have hfree : ∀ t', t' ≠ t → (s.call t').node ≠ some p := fun t' _ hnode => by
      have hlive := hinv.isSome_of_node hnode
      simp [hp] at hlive
    refine ⟨hinv.of_write hmem hfree rfl rfl rfl (by simp) ?_ (by simp [Call.node]),
      .addAccepted hout hrun (by simp) ?_ rfl⟩
    · exact ⟨hmem, (hooklistRun conf.postadd env args).msg, by simp [Queue.store]⟩
    · simp [QueueState.held, Call.node, msgAt, Queue.store]
  | lockCrash hcall hp =>
    have hlive := hinv.isSome_of_node (by rw [hcall]; rfl)
    simp [hp] at hlive
  | @lockNoMem t args p n alloc hcall hp hx =>
    have hnode : (s.call t).node = some p := by rw [hcall]; rfl
    have hfree : ∀ t', t' ≠ t → (s.call t').node ≠ some p := fun t' ht' hnode' =>
      ht' (hinv.distinct t' t p hnode' hnode)
    obtain ⟨hmark, rfl⟩ := Queue.xmarkFind_eq_none hx
    refine ⟨hinv.of_write (hinv.not_mem_of_node hnode) hfree rfl rfl rfl (by simp) ?_
      (by simp [Call.node]), .addFailed hcall (by simp) rfl ?_⟩
    · trivial
    · intro msg hmsg
      have hheld : s.held t = some n.msg := by simp [QueueState.held, hnode, msgAt, hp]
      obtain rfl := Option.some.inj (hheld.symm.trans hmsg)
      exact hmark
  | @lock t args p n alloc q s' hcall hp hx hadd =>
    have hnode : (s.call t).node = some p := by rw [hcall]; rfl
    have hok := hinv.call t
    rw [hcall] at hok
    obtain ⟨-, msg, hmsg⟩ := hok
    cases hp.symm.trans hmsg
    obtain ⟨hinv', hspares, hsome, hheap⟩ := hinv.of_xmarkFind t hx
    obtain ⟨hkeeps, hfifo⟩ := hinv'.addOutcome hnode ((congrFun hheap p).trans hmsg) hsome hadd
    refine ⟨hspares.keeps hkeeps, hfifo s _ (.lock hcall ?_) rfl⟩
    simp [QueueState.held, hnode, msgAt, hmsg]
  | @wakeAdd t args p m sig s' hcall hadd =>
    have hnode : (s.call t).node = some p := by rw [hcall]; rfl
    have hok := hinv.call t
    rw [hcall] at hok
    obtain ⟨-, ⟨msg, hmsg, rfl⟩, hsome⟩ := hok
    obtain ⟨hkeeps, hfifo⟩ := hinv.addOutcome hnode hmsg hsome hadd
    refine ⟨hkeeps, hfifo s _ (.wake hcall ?_) rfl⟩
    simp [QueueState.held, hnode, msgAt, hmsg]
  | @getNoMem t msg alloc s' hout hx hget =>
    have hinv' : QueueInv (s.emit [.getLocked t msg.mark]) ps := hinv.of_emit rfl
    obtain ⟨hkeeps, hfifo⟩ := hinv'.getOutcome (fun m hm => by simp at hm) hget
    exact ⟨(spares_emit t s _).keeps hkeeps,
      hfifo s _ _ (.call hout) rfl rfl rfl fun _ => Or.inl ⟨alloc, rfl, hx⟩⟩
  | @get t msg alloc q s' hout hx hget =>
    have hinv' : QueueInv (s.emit [.getLocked t msg.mark]) ps := hinv.of_emit rfl
    obtain ⟨hinv'', hspares, hsome, -⟩ := hinv'.of_xmarkFind t hx
    obtain ⟨hkeeps, hfifo⟩ := hinv''.getOutcome
      (fun m hm => by cases hm; exact ⟨rfl, hsome⟩) hget
    exact ⟨((spares_emit t s _).trans hspares).keeps hkeeps,
      hfifo s _ _ (.call hout) rfl rfl rfl fun h => by cases h⟩
  | @wakeGet t msg x sig s' hcall hget =>
    have hok := hinv.call t
    rw [hcall] at hok
    obtain ⟨hkeeps, hfifo⟩ := hinv.getOutcome hok hget
    refine ⟨hkeeps, hfifo s _ [] (.wait hcall) (List.append_nil _).symm rfl rfl ?_⟩
    rintro rfl
    exact Or.inr ⟨sig, hcall⟩
  | @wakeXget t msg m sig s' hcall hget =>
    have hok := hinv.call t
    rw [hcall] at hok
    obtain ⟨hkeeps, hfifo⟩ := hinv.getOutcome (fun m' hm' => by cases hm'; exact hok) hget
    exact ⟨hkeeps, hfifo s _ [] (.xwait hcall) (List.append_nil _).symm rfl rfl fun h => by cases h⟩
  | @timeout t msg x sig hcall =>
    refine ⟨hinv.of_setCall ?_ (by simp [Call.node]), .timedOut (.wait hcall) (by simp) rfl⟩
    trivial
  | @xtimeout t msg m sig y hcall hy =>
    refine ⟨hinv.of_setCall ?_ (by simp [Call.node]), .timedOut (.xwait hcall) (by simp) rfl⟩
    trivial
  | @xtimeoutCrash t msg m sig hcall hy =>
    have hok := hinv.call t
    rw [hcall] at hok
    have hsome := hok.2
    simp [hy] at hsome
  | preget hcall hrun =>
    refine ⟨hinv.of_quiet rfl rfl rfl (by simp) ?_ (by simp [Call.node]),
      .preget hcall hrun (by simp) rfl⟩
    trivial
  | pregetRefused hcall hrun =>
    refine ⟨hinv.of_quiet rfl rfl (List.append_assoc ..) (by simp) ?_ (by simp [Call.node]),
      .pregetRefused hcall hrun (by simp) rfl⟩
    trivial
  | @count t c hout =>
    refine ⟨(hinv.of_reset t c).2.keeps ⟨⟨ps, (hinv.of_reset t c).1.of_emit rfl⟩,
      spares_emit t _ _⟩, .counted hout rfl rfl⟩

/-- The simulation for runs: every reached state satisfies the invariant. -/
theorem queueInv_of_exec {conf : QueueConf δ μ ε} {acts : List (QueueAction ι δ μ ε)}
    {s : QueueState ι δ μ} (h : exec (QueueState.step conf) QueueState.init acts = some s) :
    ∃ ps, QueueInv s ps := by
  refine exec_invariant (P := fun s => ∃ ps, QueueInv s ps) ⟨[], queueInv_init⟩ ?_ h
  rintro s a s' ⟨ps, hinv⟩ hstep
  exact (hinv.step (queueStep_of_step hstep).2).1.1

end Schaufel
