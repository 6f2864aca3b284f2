import Schaufel.Queue.Effects

/-!
# The queue refines a routed first-in first-out queue

Seen from its callers the queue is one sequence of entries.  `RoutedStep` is the contract of one
step against that sequence: a `queue_add` that succeeds appends the entry of the message the postadd
hooks made of its arguments, a `queue_get` that gets past its waits takes the oldest entry of its
mark, a timeout changes nothing, and no other step touches the sequence.  The contract names the
call a thread is in by the action that started it, so "its arguments" are those the caller passed.

The main result puts the contract together with the representation of the sequence in memory and
with the first-in first-out order by mark.
-/

namespace Schaufel

variable {ι δ μ ε : Type} [DecidableEq ι]

/-- The action starts a call of the thread `t`. -/
def QueueAction.starts (t : ι) : QueueAction ι δ μ ε → Bool
  | .add t' _ _ _ | .get t' _ _ => t' = t
  | _ => false

/-- The call of `queue_add` or `queue_get` that the thread `t` made last. -/
def lastCall (t : ι) (acts : List (QueueAction ι δ μ ε)) : Option (QueueAction ι δ μ ε) :=
  acts.reverse.find? (QueueAction.starts t)

theorem lastCall_concat (t : ι) (acts : List (QueueAction ι δ μ ε)) (a : QueueAction ι δ μ ε) :
    lastCall t (acts ++ [a]) = if a.starts t then some a else lastCall t acts := by
  simp only [lastCall, List.reverse_append, List.reverse_singleton, List.singleton_append,
    List.find?_cons]
  cases a.starts t <;> rfl

/-- An action of another thread does not change the call a thread is in. -/
theorem lastCall_concat_of_ne {t : ι} {a : QueueAction ι δ μ ε} (ht : t ≠ a.thread)
    (acts : List (QueueAction ι δ μ ε)) : lastCall t (acts ++ [a]) = lastCall t acts := by
  have hstart : a.starts t = false := by
    cases a <;> simp_all [QueueAction.starts, QueueAction.thread, eq_comm]
  simp [lastCall_concat, hstart]

/-- The results the contract speaks about. -/
def Call.reports : Call δ μ → Bool
  | .addReturned _ .ok | .taken _ | .getReturned _ .etimedout => true
  | _ => false

/-- The contract of one step of the thread `t`; `acts` are the actions up to and including it. -/
inductive RoutedStep (conf : QueueConf δ μ ε) (acts : List (QueueAction ι δ μ ε))
    (s s' : QueueState ι δ μ) (t : ι) : Prop
  /-- `queue_add` succeeds. -/
  | added {args : Message δ μ} {p : Ptr} {env : ε}
      (hlast : lastCall t acts = some (.add t args (some p) env))
      (haccept : (hooklistRun conf.postadd env args).accept = true)
      (hret : s'.call t = .addReturned args .ok)
      (hseq : routed s'.history =
        routed s.history ++ [(hooklistRun conf.postadd env args).msg.entry])
  /-- `queue_get` gets past its waits. -/
  | taken {msg : Message δ μ} {alloc : Bool} {e : Entry δ μ} {es₁ es₂ : List (Entry δ μ)}
      (hlast : lastCall t acts = some (.get t msg alloc))
      (hret : s'.call t = .taken (msg.receive e)) (hsplit : routed s.history = es₁ ++ e :: es₂)
      (hmark : e.mark = msg.mark) (hold : ∀ f ∈ es₁, f.mark ≠ msg.mark)
      (hseq : routed s'.history = es₁ ++ es₂)
  /-- `queue_get` times out and leaves the message of its caller as it was. -/
  | timedOut {msg : Message δ μ} {alloc : Bool} (hlast : lastCall t acts = some (.get t msg alloc))
      (hret : s'.call t = .getReturned msg .etimedout) (hseq : routed s'.history = routed s.history)
  /-- Everything else: the thread does not return with one of these results. -/
  | silent (hret : s'.call t = s.call t ∨ (s'.call t).reports = false)
      (hseq : routed s'.history = routed s.history)

/-! ### The call a frame belongs to -/

/-- The frame `c` of the thread `t`, which holds the message `held`, belongs to the call `last`. -/
def Explained (conf : QueueConf δ μ ε) (t : ι) (last : Option (QueueAction ι δ μ ε))
    (held : Option (Message δ μ)) : Call δ μ → Prop
  | .adding args p | .addWait args p _ _ => ∃ env, last = some (.add t args (some p) env) ∧
      (hooklistRun conf.postadd env args).accept = true ∧
        held = some (hooklistRun conf.postadd env args).msg
  | .getWait msg _ _ | .getXwait msg _ _ => ∃ alloc, last = some (.get t msg alloc)
  | _ => True

omit [DecidableEq ι] in
theorem explained_wakeUp {conf : QueueConf δ μ ε} {t : ι} {last : Option (QueueAction ι δ μ ε)}
    {held : Option (Message δ μ)} {c : Call δ μ} :
    Explained conf t last held c.wakeUp ↔ Explained conf t last held c := by
  cases c <;> rfl

/-- A thread in the wait loop of `queue_add` holds what the postadd hooks made of its arguments. -/
theorem Adding.explained {conf : QueueConf δ μ ε} {s : QueueState ι δ μ} {t : ι}
    {args msg : Message δ μ} {p : Ptr} {a : QueueAction ι δ μ ε}
    {acts : List (QueueAction ι δ μ ε)} (h : Adding s t args p msg a)
    (hexp : Explained conf t (lastCall t acts) (s.held t) (s.call t)) :
    ∃ env, lastCall t (acts ++ [a]) = some (.add t args (some p) env) ∧
      (hooklistRun conf.postadd env args).accept = true ∧
        msg = (hooklistRun conf.postadd env args).msg := by
  cases h with
  | lock hcall hheld | wake hcall hheld =>
    rw [hcall] at hexp
    obtain ⟨env, hlast, haccept, hmsg⟩ := hexp
    refine ⟨env, ?_, haccept, Option.some.inj (hheld.symm.trans hmsg)⟩
    rw [lastCall_concat]
    exact hlast

/-- A thread in a wait loop of `queue_get` works on the message its caller passed. -/
theorem Getting.explained {conf : QueueConf δ μ ε} {s : QueueState ι δ μ} {t : ι}
    {msg : Message δ μ} {evs : List (Event ι δ μ)} {a : QueueAction ι δ μ ε}
    {acts : List (QueueAction ι δ μ ε)} (h : Getting s t msg evs a)
    (hexp : Explained conf t (lastCall t acts) (s.held t) (s.call t)) :
    ∃ alloc, lastCall t (acts ++ [a]) = some (.get t msg alloc) := by
  cases h with
  | @call alloc hout => exact ⟨alloc, by simp [lastCall_concat, QueueAction.starts]⟩
  | wait hcall | xwait hcall =>
    rw [hcall] at hexp
    obtain ⟨alloc, hlast⟩ := hexp
    exact ⟨alloc, by rw [lastCall_concat]; exact hlast⟩

/-- A thread in `queue_get` whose frame does not change stays explained. -/
theorem Getting.explained_frame {conf : QueueConf δ μ ε} {s : QueueState ι δ μ} {t : ι}
    {msg : Message δ μ} {evs : List (Event ι δ μ)} {a : QueueAction ι δ μ ε}
    {acts : List (QueueAction ι δ μ ε)} (h : Getting s t msg evs a)
    (hexp : Explained conf t (lastCall t acts) (s.held t) (s.call t))
    (held : Option (Message δ μ)) :
    Explained conf t (lastCall t (acts ++ [a])) held (s.call t) := by
  cases h with
  | call hout =>
    revert hout
    cases s.call t <;> simp [Call.outside, Explained]
  | wait hc | xwait hc =>
    rw [hc] at hexp ⊢
    rw [lastCall_concat]
    exact hexp

/-- One step keeps every frame explained and fulfils the contract. -/
theorem FifoStep.routedStep {conf : QueueConf δ μ ε} {s s' : QueueState ι δ μ}
    {a : QueueAction ι δ μ ε} {acts : List (QueueAction ι δ μ ε)} (h : FifoStep conf s s' a)
    (hexp : Explained conf a.thread (lastCall a.thread acts) (s.held a.thread) (s.call a.thread)) :
    RoutedStep conf (acts ++ [a]) s s' a.thread ∧
      Explained conf a.thread (lastCall a.thread (acts ++ [a])) (s'.held a.thread)
        (s'.call a.thread) := by
  cases h with
  | @addNoMem t args env hout hcall hhist =>
    refine ⟨.silent (Or.inr (by rw [QueueAction.thread, hcall]; rfl)) ?_, ?_⟩
    · rw [hhist, routed_append_of_fifoOps_eq_nil (by simp)]
    · rw [QueueAction.thread, hcall]
      trivial
  | @addRefused t args p env hout hrun hcall hhist =>
    refine ⟨.silent (Or.inr (by rw [QueueAction.thread, hcall]; rfl)) ?_, ?_⟩
    · rw [hhist, List.append_assoc, routed_append_of_fifoOps_eq_nil (by simp)]
    · rw [QueueAction.thread, hcall]
      trivial
  | @addAccepted t args p env hout hrun hcall hheld hhist =>
    refine ⟨.silent (Or.inr (by rw [QueueAction.thread, hcall]; rfl)) ?_, ?_⟩
    · rw [hhist, routed_append_of_fifoOps_eq_nil (by simp)]
    · rw [QueueAction.thread, hcall]
      exact ⟨env, by simp [lastCall_concat, QueueAction.starts], hrun, hheld⟩
  | @addFailed t args p hfrom hcall hhist =>
    refine ⟨.silent (Or.inr (by rw [QueueAction.thread, hcall]; rfl)) ?_, ?_⟩
    · rw [hhist, routed_append_of_fifoOps_eq_nil (by simp)]
    · rw [QueueAction.thread, hcall]
      trivial
  | @addBlocked t args msg p a hfrom hfull hcall hheld hhist =>
    obtain rfl := hfrom.thread_eq
    refine ⟨.silent (Or.inr (by rw [hcall]; rfl)) (by rw [hhist]), ?_⟩
    obtain ⟨env, hlast, haccept, rfl⟩ := hfrom.explained hexp
    rw [hcall]
    exact ⟨env, hlast, haccept, hheld⟩
  | @added t args msg p a hfrom hcall hhist =>
    obtain rfl := hfrom.thread_eq
    obtain ⟨env, hlast, haccept, rfl⟩ := hfrom.explained hexp
    refine ⟨.added hlast haccept hcall ?_, ?_⟩
    · rw [hhist, routed_queued]
    · rw [hcall]
      trivial
  | @getBlocked t msg x evs a hfrom hempty hcall hhist =>
    obtain rfl := hfrom.thread_eq
    refine ⟨.silent (Or.inr (by rw [hcall]; rfl)) ?_, ?_⟩
    · rw [hhist, routed_append_of_fifoOps_eq_nil hfrom.fifoOps_eq_nil]
    · rw [hcall]
      exact hfrom.explained hexp
  | @getXblocked t msg evs a hfrom hnone hcall hhist =>
    obtain rfl := hfrom.thread_eq
    refine ⟨.silent (Or.inr (by rw [hcall]; rfl)) ?_, ?_⟩
    · rw [hhist, routed_append_of_fifoOps_eq_nil hfrom.fifoOps_eq_nil]
    · rw [hcall]
      exact hfrom.explained hexp
  | @taken t msg evs a e es₁ es₂ hfrom hsplit hmark hold hrest hcall hhist =>
    obtain rfl := hfrom.thread_eq
    obtain ⟨alloc, hlast⟩ := hfrom.explained hexp
    refine ⟨.taken hlast hcall hsplit hmark hold hrest, ?_⟩
    rw [hcall]
    trivial
  | @crashed t msg evs a hfrom hnull hcrash hcall hhist =>
    obtain rfl := hfrom.thread_eq
    refine ⟨.silent (Or.inl hcall) ?_, ?_⟩
    · rw [hhist, routed_append_of_fifoOps_eq_nil hfrom.fifoOps_eq_nil]
    · rw [hcall]
      exact hfrom.explained_frame hexp _
  | @timedOut t msg hfrom hcall hhist =>
    obtain ⟨alloc, hlast⟩ := hfrom.explained hexp
    have hlast' : lastCall t (acts ++ [.wake t true]) = some (.get t msg alloc) := by
      rw [lastCall_concat] at hlast ⊢
      exact hlast
    refine ⟨.timedOut hlast' hcall (by rw [hhist]), ?_⟩
    rw [QueueAction.thread, hcall]
    trivial
  | @preget t msg env hfrom hrun hcall hhist =>
    refine ⟨.silent (Or.inr (by rw [QueueAction.thread, hcall]; rfl)) ?_, ?_⟩
    · rw [hhist, routed_append_of_fifoOps_eq_nil (by simp)]
    · rw [QueueAction.thread, hcall]
      trivial
  | @pregetRefused t msg env hfrom hrun hcall hhist =>
    refine ⟨.silent (Or.inr (by rw [QueueAction.thread, hcall]; rfl)) ?_, ?_⟩
    · rw [hhist, List.append_assoc, routed_append_of_fifoOps_eq_nil (by simp)]
    · rw [QueueAction.thread, hcall]
      trivial
  | @counted t c hout hcall hhist =>
    refine ⟨.silent (Or.inl hcall) ?_, ?_⟩
    · rw [hhist, routed_append_of_fifoOps_eq_nil rfl]
    · rw [QueueAction.thread, hcall]
      revert hout
      cases s.call t <;> simp [Call.outside, Explained]

omit [DecidableEq ι] in
/-- A spared thread holds the same message. -/
theorem Spares.held_eq {t t' : ι} {s s' : QueueState ι δ μ} (h : Spares t s s') (ht' : t' ≠ t) :
    s'.held t' = s.held t' := by
  rw [QueueState.held, QueueState.held, h.node_eq ht']
  cases hnode : (s.call t').node with
  | none => rfl
  | some p => simp [msgAt, h.heap t' ht' p hnode]

/-- In every reached state all frames are explained by the calls the threads made. -/
theorem explained_of_exec {conf : QueueConf δ μ ε} {acts : List (QueueAction ι δ μ ε)}
    {s : QueueState ι δ μ} (h : exec (QueueState.step conf) QueueState.init acts = some s) (t : ι) :
    Explained conf t (lastCall t acts) (s.held t) (s.call t) := by
  refine exec_induction (P := fun acts (s : QueueState ι δ μ) =>
    Explained conf t (lastCall t acts) (s.held t) (s.call t)) ?_ ?_ h
  · trivial
  intro acts s a s' hexec ih hstep
  obtain ⟨ps, hinv⟩ := queueInv_of_exec hexec
  obtain ⟨⟨-, hspares⟩, hfifo⟩ := hinv.step (queueStep_of_step hstep).2
  by_cases ht : t = a.thread
  · subst ht
    exact (hfifo.routedStep ih).2
  · rw [lastCall_concat_of_ne ht, hspares.held_eq ht, ← explained_wakeUp, hspares.calls t ht,
      explained_wakeUp]
    exact ih

/-- In every reached state a further step fulfils the contract and returns to no other thread. -/
theorem routedStep_of_exec {conf : QueueConf δ μ ε} {acts : List (QueueAction ι δ μ ε)}
    {s s' : QueueState ι δ μ} {a : QueueAction ι δ μ ε}
    (h : exec (QueueState.step conf) QueueState.init acts = some s)
    (hstep : s.step conf a = some s') :
    RoutedStep conf (acts ++ [a]) s s' a.thread ∧
      ∀ t, t ≠ a.thread → (s'.call t).wakeUp = (s.call t).wakeUp := by
  obtain ⟨ps, hinv⟩ := queueInv_of_exec h
  obtain ⟨⟨-, hspares⟩, hfifo⟩ := hinv.step (queueStep_of_step hstep).2
  exact ⟨(hfifo.routedStep (explained_of_exec h a.thread)).1, hspares.calls⟩

/-! ### The refinement -/

/-- The entries that were queued, in order. -/
def queuedEntries (history : List (Event ι δ μ)) : List (Entry δ μ) :=
  FifoOp.pushed (fifoOps history)

/-- The entries that were handed out, in order. -/
def deliveredEntries (history : List (Event ι δ μ)) : List (Entry δ μ) :=
  FifoOp.popped (fifoOps history)

/-- The queue refines a routed first-in first-out queue.  In every state a run reaches, the memory
represents the routed sequence; every further step fulfils the contract and returns to no other
thread; and for every mark, what was handed out followed by what still waits is what was queued, in
the same order. -/
theorem queue_refines_routed_fifo (conf : QueueConf δ μ ε) (acts : List (QueueAction ι δ μ ε))
    (s : QueueState ι δ μ) (h : exec (QueueState.step conf) QueueState.init acts = some s) :
    (∃ ps, Spells s.q ps (routed s.history)) ∧
      (∀ a s', s.step conf a = some s' → RoutedStep conf (acts ++ [a]) s s' a.thread ∧
        ∀ t, t ≠ a.thread → (s'.call t).wakeUp = (s.call t).wakeUp) ∧
      ∀ m, (queuedEntries s.history).filter (fun e => e.mark = m) =
        (deliveredEntries s.history).filter (fun e => e.mark = m) ++
          (routed s.history).filter fun e => e.mark = m := by
  obtain ⟨ps, hinv⟩ := queueInv_of_exec h
  exact ⟨⟨ps, hinv.spells⟩, fun a s' hstep => routedStep_of_exec h hstep,
    fun m => hinv.faithful.pushed_filter_eq m⟩

/-- The refinement for one adder and one getter without hooks: the message of mark 9 is taken while
an older one of mark 7 is queued, then another one of mark 7 is added, and the getter takes the
first of the two. -/
theorem queue_refines_routed_fifo_two_marks :
    ∃ s : QueueState Bool Nat Nat,
      exec (QueueState.step (⟨[], []⟩ : QueueConf Nat Nat Unit)) QueueState.init
        [.add true ⟨some 5, 1, 7, none⟩ (some 0) (), .lock true true,
          .add true ⟨some 6, 1, 9, none⟩ (some 1) (), .lock true true,
          .get false ⟨none, 0, 9, none⟩ false, .preget false (),
          .add true ⟨some 8, 1, 7, none⟩ (some 1) (), .lock true true,
          .get false ⟨none, 0, 7, none⟩ false] = some s ∧
      (deliveredEntries s.history).map Entry.data = [some 6, some 5] ∧
      (∃ ps, Spells s.q ps (routed s.history)) ∧
      ∀ m, (queuedEntries s.history).filter (fun e => e.mark = m) =
        (deliveredEntries s.history).filter (fun e => e.mark = m) ++
          (routed s.history).filter fun e => e.mark = m := by
  refine exists_of_exec_any (P := fun s : QueueState Bool Nat Nat =>
    (deliveredEntries s.history).map Entry.data = [some 6, some 5]) (by decide) ?_
  intro s hs hdelivered
  obtain ⟨hspells, -, hmarks⟩ := queue_refines_routed_fifo ⟨[], []⟩ _ s hs
  exact ⟨hdelivered, hspells, hmarks⟩

end Schaufel
