import Schaufel.Queue.Refinement
import Schaufel.System.Steps

/-!
# Shutdown

A producer leaves its loop when `consume_state` is cleared and its last `queue_get` timed out.  The
timeout may be long past when the flag is read, and the flag may be cleared by a signal while
consumers still add messages, so a message can be left behind.

The positive result says exactly how long a producer keeps the queue clean.  `quietMark t history`
is the mark of the last `queue_get` of the thread `t`, as long as no message of that mark was queued
since that call took the mutex.  A thread that waits in `queue_get` or whose `queue_get` timed out
has seen no entry of its quiet mark (`Drained`), and so nothing of that mark waits any more.
-/

namespace Schaufel

section QuietMark

variable {ι δ μ ε : Type} [DecidableEq ι]

/-- The effect of one event on the quiet mark of the thread `t`. -/
def quietStep (t : ι) (m : Option UInt32) : Event ι δ μ → Option UInt32
  | .getLocked t' m' => if t' = t then some m' else m
  | .queued _ msg => if m = some msg.mark then none else m
  | _ => m

/-- The mark of the last `queue_get` of the thread `t`, unless a message of that mark was queued
since that call took the mutex. -/
def quietMark (t : ι) (history : List (Event ι δ μ)) : Option UInt32 :=
  history.foldl (quietStep t) none

theorem quietMark_concat (t : ι) (history : List (Event ι δ μ)) (e : Event ι δ μ) :
    quietMark t (history ++ [e]) = quietStep t (quietMark t history) e := by
  simp [quietMark]

/-- A quiet mark is older than events that contain no call of the thread, and none of these events
queues a message of that mark. -/
theorem quietMark_append {t : ι} {history evs : List (Event ι δ μ)} {m : UInt32}
    (hget : ∀ m', Event.getLocked t m' ∉ evs) (h : quietMark t (history ++ evs) = some m) :
    quietMark t history = some m ∧ ∀ t' msg, Event.queued t' msg ∈ evs → msg.mark ≠ m := by
  induction evs using List.reverseRecOn with
  | nil => exact ⟨by simpa using h, by simp⟩
  | append_singleton evs e ih =>
    rw [← List.append_assoc, quietMark_concat] at h
    have hget' : ∀ m', Event.getLocked t m' ∉ evs := fun m' hm' =>
      hget m' (List.mem_append_left _ hm')
    have hlast : quietMark t (history ++ evs) = some m ∧
        ∀ t' msg, e = Event.queued t' msg → msg.mark ≠ m := by
      cases e with
      | getLocked t' m' =>
        have ht' : t' ≠ t := by
          rintro rfl
          exact hget m' (by simp)
        exact ⟨by simpa [quietStep, ht'] using h, by simp⟩
      | queued t' msg =>
        have hne : quietMark t (history ++ evs) ≠ some msg.mark := by
          intro heq
          simp [quietStep, heq] at h
        have hm : quietMark t (history ++ evs) = some m := by simpa [quietStep, hne] using h
        refine ⟨hm, ?_⟩
        rintro _ _ ⟨⟩ rfl
        exact hne hm
      | _ => exact ⟨h, by simp⟩
    obtain ⟨hm, hqueued⟩ := ih hget' hlast.1
    refine ⟨hm, fun t' msg hmem => ?_⟩
    rcases List.mem_append.mp hmem with hmem | hmem
    · exact hqueued t' msg hmem
    · exact hlast.2 t' msg (List.mem_singleton.mp hmem).symm

/-- Nothing of the quiet mark of the thread waits. -/
def NothingQuiet (t : ι) (history : List (Event ι δ μ)) : Prop :=
  ∀ m, quietMark t history = some m → ∀ e ∈ routed history, e.mark ≠ m

theorem NothingQuiet.append {t : ι} {history evs : List (Event ι δ μ)} (h : NothingQuiet t history)
    (hget : ∀ m, Event.getLocked t m ∉ evs) : NothingQuiet t (history ++ evs) := by
  intro m hm e he
  obtain ⟨hm, hqueued⟩ := quietMark_append hget hm
  rcases mem_routed_append he with he | ⟨t', msg, hmem, rfl⟩
  · exact h m hm e he
  · exact hqueued t' msg hmem

/-- A call of `queue_get` makes its own mark the quiet one. -/
theorem quietMark_getLocked (t : ι) (history : List (Event ι δ μ)) (m : UInt32) :
    quietMark t (history ++ [.getLocked t m]) = some m := by
  simp [quietMark_concat, quietStep]

omit [DecidableEq ι] in
/-- A step appends to the history, and the only calls it records are those of the acting thread. -/
theorem FifoStep.history_eq {conf : QueueConf δ μ ε} {s s' : QueueState ι δ μ}
    {a : QueueAction ι δ μ ε} (h : FifoStep conf s s' a) :
    ∃ evs, s'.history = s.history ++ evs ∧ ∀ t m, Event.getLocked t m ∈ evs → t = a.thread := by
  have hgetting : ∀ {t msg evs}, Getting s t msg evs a →
      ∀ t' m, Event.getLocked t' m ∈ evs → t' = a.thread := by
    intro t msg evs hfrom t' m hmem
    cases hfrom with
    | call hout =>
      cases List.mem_singleton.mp hmem
      rfl
    | wait | xwait => cases hmem
  cases h with
  | addNoMem hout hcall hhist => exact ⟨_, hhist, by simp⟩
  | addRefused hout hrun hcall hhist =>
    exact ⟨_, by rw [hhist, List.append_assoc], by simp⟩
  | addAccepted hout hrun hcall hheld hhist => exact ⟨_, hhist, by simp⟩
  | addFailed hfrom hcall hhist => exact ⟨_, hhist, by simp⟩
  | addBlocked hfrom hfull hcall hheld hhist => exact ⟨[], by rw [hhist, List.append_nil], by simp⟩
  | added hfrom hcall hhist => exact ⟨_, hhist, by simp⟩
  | getBlocked hfrom hempty hcall hhist => exact ⟨_, hhist, hgetting hfrom⟩
  | getXblocked hfrom hnone hcall hhist => exact ⟨_, hhist, hgetting hfrom⟩
  | taken hfrom hsplit hmark hold hrest hcall hhist =>
    refine ⟨_, by rw [hhist, List.append_assoc], fun t' m hmem => ?_⟩
    rcases List.mem_append.mp hmem with hmem | hmem
    · exact hgetting hfrom t' m hmem
    · cases List.mem_singleton.mp hmem
  | crashed hfrom hnull hcrash hcall hhist => exact ⟨_, hhist, hgetting hfrom⟩
  | timedOut hfrom hcall hhist => exact ⟨[], by rw [hhist, List.append_nil], by simp⟩
  | preget hfrom hrun hcall hhist => exact ⟨_, hhist, by simp⟩
  | pregetRefused hfrom hrun hcall hhist =>
    exact ⟨_, by rw [hhist, List.append_assoc], by simp⟩
  | counted hout hcall hhist => exact ⟨_, hhist, by simp⟩

/-! ### Parked threads -/

/-- The thread waits in `queue_get`, for the message `msg` of its caller. -/
def Call.waitsFor : Call δ μ → Option (Message δ μ)
  | .getWait msg _ _ | .getXwait msg _ _ => some msg
  | _ => none

/-- The thread waits in `queue_get` or its `queue_get` timed out. -/
def Call.parked : Call δ μ → Bool
  | .getWait .. | .getXwait .. | .getReturned _ .etimedout => true
  | _ => false

theorem Call.waitsFor_wakeUp (c : Call δ μ) : c.wakeUp.waitsFor = c.waitsFor := by
  cases c <;> rfl

theorem Call.parked_wakeUp (c : Call δ μ) : c.wakeUp.parked = c.parked := by
  cases c <;> rfl

theorem Call.parked_of_waitsFor {c : Call δ μ} {msg : Message δ μ} (h : c.waitsFor = some msg) :
    c.parked = true := by
  cases c <;> first | rfl | cases h

/-- No parked thread has an entry of its quiet mark to wait for. -/
structure Drained (q : QueueState ι δ μ) : Prop where
  /-- The quiet mark of a waiting thread is the mark it waits for. -/
  mark : ∀ t msg, (q.call t).waitsFor = some msg → ∀ m, quietMark t q.history = some m →
    m = msg.mark
  /-- Nothing of the quiet mark of a parked thread waits. -/
  empty : ∀ t, (q.call t).parked = true → NothingQuiet t q.history

/-- The thread that runs the test of a wait loop waits for the mark that is quiet for it. -/
theorem Getting.quietMark_eq {q : QueueState ι δ μ} {t : ι} {msg : Message δ μ}
    {evs : List (Event ι δ μ)} {a : QueueAction ι δ μ ε} (h : Getting q t msg evs a)
    (hq : Drained q) {m : UInt32} (hm : quietMark t (q.history ++ evs) = some m) :
    m = msg.mark := by
  cases h with
  | call hout =>
    rw [quietMark_getLocked] at hm
    exact (Option.some.inj hm).symm
  | wait hcall | xwait hcall =>
    rw [List.append_nil] at hm
    exact hq.mark t msg (by rw [hcall]; rfl) m hm

/-- What one step does to the acting thread. -/
theorem Drained.acting {conf : QueueConf δ μ ε} {q q' : QueueState ι δ μ}
    {a : QueueAction ι δ μ ε} (hq : Drained q) (h : FifoStep conf q q' a)
    (hcr : q'.crashed = false) :
    (∀ msg, (q'.call a.thread).waitsFor = some msg → ∀ m, quietMark a.thread q'.history = some m →
        m = msg.mark) ∧
      ((q'.call a.thread).parked = true → NothingQuiet a.thread q'.history) := by
  have hbusy : ∀ c : Call δ μ, q'.call a.thread = c → c.parked = false →
      (∀ msg, (q'.call a.thread).waitsFor = some msg →
        ∀ m, quietMark a.thread q'.history = some m → m = msg.mark) ∧
      ((q'.call a.thread).parked = true → NothingQuiet a.thread q'.history) := by
    rintro c hc hpark
    refine ⟨fun msg hmsg => ?_, fun hp => ?_⟩
    · rw [hc] at hmsg
      simp [Call.parked_of_waitsFor hmsg] at hpark
    · simp [hc, hpark] at hp
  cases h with
  | addNoMem hout hcall hhist => exact hbusy _ hcall rfl
  | addRefused hout hrun hcall hhist => exact hbusy _ hcall rfl
  | addAccepted hout hrun hcall hheld hhist => exact hbusy _ hcall rfl
  | addFailed hfrom hcall hhist => exact hbusy _ hcall rfl
  | preget hfrom hrun hcall hhist => exact hbusy _ hcall rfl
  | pregetRefused hfrom hrun hcall hhist => exact hbusy _ hcall rfl
  | addBlocked hfrom hfull hcall hheld hhist =>
    obtain rfl := hfrom.thread_eq
    exact hbusy _ hcall rfl
  | added hfrom hcall hhist =>
    obtain rfl := hfrom.thread_eq
    exact hbusy _ hcall rfl
  | taken hfrom hsplit hmark hold hrest hcall hhist =>
    obtain rfl := hfrom.thread_eq
    exact hbusy _ hcall rfl
  | getBlocked hfrom hempty hcall hhist =>
    obtain rfl := hfrom.thread_eq
    rw [hcall, hhist]
    refine ⟨?_, fun _ m _ e he => ?_⟩
    · rintro _ ⟨⟩ m hm
      exact hfrom.quietMark_eq hq hm
    · rw [routed_append_of_fifoOps_eq_nil hfrom.fifoOps_eq_nil, hempty] at he
      cases he
  | getXblocked hfrom hnone hcall hhist =>
    obtain rfl := hfrom.thread_eq
    rw [hcall, hhist]
    refine ⟨?_, fun _ m hm e he => ?_⟩
    · rintro _ ⟨⟩ m hm
      exact hfrom.quietMark_eq hq hm
    · rw [routed_append_of_fifoOps_eq_nil hfrom.fifoOps_eq_nil] at he
      rw [hfrom.quietMark_eq hq hm]
      exact hnone e he
  | crashed hfrom hnull hcrash hcall hhist => simp [hcrash] at hcr
  | timedOut hfrom hcall hhist =>
    rw [QueueAction.thread, hcall, hhist]
    refine ⟨fun msg hmsg => (by cases hmsg), fun _ => hq.empty _ ?_⟩
    cases hfrom with
    | wait hc | xwait hc =>
      rw [hc]
      rfl
  | @counted t c hout hcall hhist =>
    have hget : ∀ m, (.getLocked t m : Event ι δ μ) ∉ [.counted t c (q.q.read c)] := by simp
    rw [QueueAction.thread, hcall, hhist]
    refine ⟨fun msg hmsg m hm => hq.mark t msg hmsg m (quietMark_append hget hm).1, fun hp => ?_⟩
    exact (hq.empty t hp).append hget

/-- One step keeps every parked thread without entries to wait for. -/
theorem Drained.step {conf : QueueConf δ μ ε} {q q' : QueueState ι δ μ}
    {a : QueueAction ι δ μ ε} (hq : Drained q) (hspares : Spares a.thread q q')
    (h : FifoStep conf q q' a) (hcr : q'.crashed = false) : Drained q' := by
  obtain ⟨evs, hhist, hget⟩ := h.history_eq
  have hother : ∀ t, t ≠ a.thread → ∀ m, Event.getLocked t m ∉ evs := fun t ht m hm =>
    ht (hget t m hm)
  refine ⟨fun t msg hmsg m hm => ?_, fun t hp => ?_⟩
  · by_cases ht : t = a.thread
    · subst ht
      exact (hq.acting h hcr).1 msg hmsg m hm
    · rw [← Call.waitsFor_wakeUp, hspares.calls t ht, Call.waitsFor_wakeUp] at hmsg
      rw [hhist] at hm
      exact hq.mark t msg hmsg m (quietMark_append (hother t ht) hm).1
  · by_cases ht : t = a.thread
    · subst ht
      exact (hq.acting h hcr).2 hp
    · rw [← Call.parked_wakeUp, hspares.calls t ht, Call.parked_wakeUp] at hp
      rw [hhist]
      exact (hq.empty t hp).append (hother t ht)

end QuietMark

/-! ### The threads -/

/-- In every reached state of a live system no parked thread has an entry of its quiet mark. -/
theorem drained_of_exec {conf : SystemConf} {acts : List SystemAction} {s : SystemState}
    (h : exec (SystemState.step conf) (SystemState.init conf) acts = some s)
    (hcr : s.queue.crashed = false) : Drained s.queue := by
  refine (system_queue_invariant (P := fun q => q.crashed = false → Drained q) ?_ ?_ ?_ ?_ h).2 hcr
  · intro _
    refine ⟨fun t msg hmsg => ?_, fun t hp => ?_⟩
    · cases hmsg
    · cases hp
  · intro q evs hlocal hP hcr
    have hget : ∀ t m, Event.getLocked t m ∉ evs := fun t m hm => by
      have := hlocal _ hm
      simp [Event.isLocal] at this
    have hq := hP hcr
    exact ⟨fun t msg hmsg m hm => hq.mark t msg hmsg m (quietMark_append (hget t) hm).1,
      fun t hp => (hq.empty t hp).append (hget t)⟩
  · intro q _ hcr
    cases hcr
  · intro q q' b hcrq hP hspares hfifo hcr
    exact (hP hcrq).step hspares hfifo hcr

/-- What is known of a producer from the point of its loop. -/
structure ProducerOk (s : SystemState) (j : Nat) : Prop where
  /-- Before its loop a producer has no quiet mark, and a producer whose initialisation failed never
  gets one. -/
  fresh : (s.producers j).pc = .start ∨
      (s.producers j).pc = .exited ∧ (s.producers j).ret ≠ .etimedout →
    quietMark (.producer j) s.queue.history = none
  /-- Outside `queue_get` the variable `ret` has the value the last `queue_get` returned. -/
  timedOut : (s.producers j).pc ≠ .getting → (s.producers j).ret = .etimedout →
    (s.queue.call (.producer j)).parked = true

/-- A step that leaves a producer and its frame alone. -/
theorem ProducerOk.of_frame {s s' : SystemState} {j : Nat} (h : ProducerOk s j)
    {evs : List (Event Thread Nat Table)} (hp : s'.producers j = s.producers j)
    (hcall : (s'.queue.call (.producer j)).wakeUp = (s.queue.call (.producer j)).wakeUp)
    (hhist : s'.queue.history = s.queue.history ++ evs)
    (hget : ∀ m, Event.getLocked (.producer j) m ∉ evs) : ProducerOk s' j := by
  refine ⟨fun hpc => ?_, fun hpc hret => ?_⟩
  · rw [hp] at hpc
    cases hm : quietMark (.producer j) s'.queue.history with
    | none => rfl
    | some m =>
      rw [hhist] at hm
      have hnone := h.fresh hpc
      rw [(quietMark_append hget hm).1] at hnone
      cases hnone
  · rw [hp] at hpc hret
    rw [← Call.parked_wakeUp, hcall, Call.parked_wakeUp]
    exact h.timedOut hpc hret

/-- A step in which a producer moves on and keeps `ret`, outside the queue. -/
theorem ProducerOk.of_move {s s' : SystemState} {j : Nat} (h : ProducerOk s j)
    (hret : (s'.producers j).ret = (s.producers j).ret) (hpc : (s.producers j).pc ≠ .getting)
    (hpc' : (s'.producers j).pc ≠ .start ∧
      ((s'.producers j).pc = .exited → (s'.producers j).ret = .etimedout))
    (hcall : s'.queue.call = s.queue.call) : ProducerOk s' j := by
  refine ⟨fun h' => ?_, fun _ hr => ?_⟩
  · rcases h' with h' | ⟨h', hr⟩
    · exact absurd h' hpc'.1
    · exact absurd (hpc'.2 h') hr
  · rw [hcall]
    exact h.timedOut hpc (hret ▸ hr)

/-- Local events do not concern a producer that does not move. -/
theorem ProducerOk.of_local {s s' : SystemState} {j : Nat} (h : ProducerOk s j)
    {evs : List (Event Thread Nat Table)} (hp : s'.producers j = s.producers j)
    (hq : s'.queue = s.queue.emit evs) (hlocal : ∀ e ∈ evs, e.isLocal = true) :
    ProducerOk s' j := by
  refine h.of_frame hp (by rw [hq]; rfl) (by rw [hq]; rfl) fun m hm => ?_
  have := hlocal _ hm
  simp [Event.isLocal] at this

/-- A step of the queue does not concern a producer other than the acting thread. -/
theorem ProducerOk.of_queue {conf : SystemConf} {s s' : SystemState} {j : Nat} {ps : List Ptr}
    {b : QueueAction Thread Nat Table HookEnv} (h : ProducerOk s j) (hinv : QueueInv s.queue ps)
    (hp : s'.producers j = s.producers j) (hq : s.queue.step conf.queue b = some s'.queue)
    (hb : .producer j ≠ b.thread) : ProducerOk s' j := by
  obtain ⟨⟨-, hspares⟩, hfifo⟩ := hinv.step (queueStep_of_step hq).2
  obtain ⟨evs, hhist, hget⟩ := hfifo.history_eq
  exact h.of_frame hp (hspares.calls _ hb) hhist fun m hm => hb (hget _ m hm)

/-- Nothing is known of a producer inside `queue_get`. -/
theorem ProducerOk.of_getting {s : SystemState} {j : Nat} (h : (s.producers j).pc = .getting) :
    ProducerOk s j := by
  refine ⟨fun hpc => ?_, fun hpc => absurd h hpc⟩
  simp [h] at hpc

/-- A producer acts in the queue from inside `queue_get` only. -/
theorem Inside.getting {s : SystemState} {b : QueueAction Thread Nat Table HookEnv} {j : Nat}
    (h : Inside s b) (hb : .producer j = b.thread) : (s.producers j).pc = .getting := by
  cases b with
  | wake t timeout | preget t env =>
    obtain rfl : t = .producer j := hb.symm
    exact h
  | lock t alloc | count t c =>
    obtain rfl : t = .producer j := hb.symm
    exact h.elim
  | add t args newmsg env | get t msg alloc => exact h.elim

/-- Every step keeps what is known of the producers. -/
theorem producerOk_step {conf : SystemConf} {s s' : SystemState} {a : SystemAction} {ps : List Ptr}
    (hs : ∀ j, ProducerOk s j) (hinv : QueueInv s.queue ps) (h : SystemStep conf s a s') (j : Nat) :
    ProducerOk s' j := by
  have hlocal : ∀ (evs : List (Event Thread Nat Table)) (j' : Nat) (p : ProducerThread),
      s'.queue = s.queue.emit evs → (∀ e ∈ evs, e.isLocal = true) →
      s'.producers = Function.update s.producers j' p → p.ret = (s.producers j').ret →
      (s.producers j').pc ≠ .getting → p.pc ≠ .start → (p.pc = .exited → p.ret = .etimedout) →
      ProducerOk s' j := by
    intro evs j' p hq hloc hp hret hpc hstart hexit
    by_cases hj : j = j'
    · subst hj
      have hself : s'.producers j = p := by rw [hp, Function.update_self]
      refine (hs j).of_move (by rw [hself, hret]) hpc ?_ (by rw [hq]; rfl)
      rw [hself]
      exact ⟨hstart, hexit⟩
    · exact (hs j).of_local (by rw [hp, Function.update_of_ne hj]) hq hloc
  have hsame : s.queue = s.queue.emit [] := s.queue.emit_nil.symm
  cases h with
  | consumerInit | await | consumerHead | consumeFail | addReturned | stop | joinConsumers
  | joinProducers => exact (hs j).of_local rfl hsame (by simp)
  | consume hpc hfits hmsg => exact (hs j).of_local rfl rfl (isLocal_consumeMsg hmsg)
  | preadd => exact (hs j).of_local rfl rfl (isLocal_effects _ _)
  | preaddRefused => exact (hs j).of_local rfl rfl (isLocal_refused _ _ _)
  | enterAdd hpc hq => exact (hs j).of_queue hinv rfl hq (by simp [QueueAction.thread])
  | @enterGet j' alloc q hpc hq =>
    by_cases hj : j = j'
    · subst hj
      exact .of_getting (by simp [SystemState.setProducer])
    · refine (hs j).of_queue hinv (Function.update_of_ne hj _ _) hq ?_
      simpa [QueueAction.thread] using hj
  | @inside b q hin hq =>
    by_cases hget : (s.producers j).pc = .getting
    · exact .of_getting hget
    · refine (hs j).of_queue hinv rfl hq ?_
      rintro hb
      exact hget (hin.getting hb)
  | @producerInit j' hpc =>
    by_cases hj : j = j'
    · subst hj
      refine ⟨fun h => ?_, fun _ hr => ?_⟩
      · simp [SystemState.setProducer] at h
      · simp [SystemState.setProducer] at hr
    · exact (hs j).of_local (Function.update_of_ne hj _ _) hsame (by simp)
  | @producerInitFail j' hpc =>
    by_cases hj : j = j'
    · subst hj
      refine ⟨fun _ => (hs j).fresh (Or.inl hpc), fun _ hr => ?_⟩
      simp [SystemState.setProducer] at hr
    · exact (hs j).of_local (Function.update_of_ne hj _ _) hsame (by simp)
  | @producerExit j' hpc hret =>
    exact hlocal [] j' _ hsame (by simp) rfl rfl (by simp [hpc]) (by simp) (fun _ => hret)
  | @producerHead j' hpc =>
    exact hlocal [] j' _ hsame (by simp) rfl rfl (by simp [hpc]) (by simp) (by simp)
  | @getReturned j' msg ret hpc hcall =>
    by_cases hj : j = j'
    · subst hj
      refine ⟨fun h => ?_, fun _ hr => ?_⟩
      · simp only [SystemState.setProducer, Function.update_self] at h
        split at h <;> try split at h
        all_goals simp at h
      · obtain rfl : ret = .etimedout := by simpa [SystemState.setProducer] using hr
        simp only [SystemState.setProducer, hcall]
        rfl
    · exact (hs j).of_local (Function.update_of_ne hj _ _) hsame (by simp)
  | @postget j' env r hpc hr haccept =>
    exact hlocal _ j' _ rfl (isLocal_effects _ _) rfl rfl (by simp [hpc]) (by simp) (by simp)
  | @postgetRefused j' env r hpc hr haccept =>
    exact hlocal _ j' _ rfl (isLocal_refused _ _ _) rfl rfl (by simp [hpc]) (by simp) (by simp)
  | @produce j' hpc =>
    exact hlocal _ j' _ rfl (by simp [Event.isLocal]) rfl rfl (by simp [hpc]) (by simp) (by simp)
  | callbackAbort hpc => exact (hs j).of_frame rfl rfl (List.append_nil _).symm (by simp)
  | @callback j' stored msg evs hpc hmsg =>
    exact hlocal _ j' _ rfl (isLocal_callbackRun hmsg) rfl rfl (by simp [hpc]) (by simp) (by simp)
  | @release j' hpc =>
    exact hlocal _ j' _ rfl (isLocal_effects _ _) rfl rfl (by simp [hpc]) (by simp) (by simp)

/-- In every reached state the points of the producers fit their calls. -/
theorem producerOk_of_exec {conf : SystemConf} {acts : List SystemAction} {s : SystemState}
    (h : exec (SystemState.step conf) (SystemState.init conf) acts = some s) (j : Nat) :
    ProducerOk s j := by
  refine exec_induction (P := fun _ (s : SystemState) => ∀ j, ProducerOk s j) ?_ ?_ h j
  · intro j
    exact ⟨fun _ => rfl, fun _ hr => by cases hr⟩
  · intro acts s a s' hexec hs hst j
    obtain ⟨ps, hinv⟩ := queueInv_of_system_exec hexec
    exact producerOk_step hs hinv (systemStep_of_step hst).2.1 j

/-! ### The end of a run -/

/-- All configured threads have exited, and the process was not killed. -/
def SystemState.AllExited (conf : SystemConf) (s : SystemState) : Prop :=
  s.queue.crashed = false ∧ (∀ i < conf.consumers, (s.consumers i).pc = .exited) ∧
    ∀ j < conf.marks.length, (s.producers j).pc = .exited

instance (conf : SystemConf) (s : SystemState) : Decidable (s.AllExited conf) :=
  inferInstanceAs (Decidable (_ ∧ _ ∧ _))

/-- For every configured mark, some producer has asked for it in its last `queue_get` and took the
mutex after the last message of the mark was queued, or there was no such message. -/
def ServedLast (conf : SystemConf) (history : List (Event Thread Nat Table)) : Prop :=
  ∀ m ∈ conf.marks, (∀ e ∈ queuedEntries history, e.mark ≠ m) ∨
    ∃ j < conf.marks.length, quietMark (.producer j) history = some m

instance (conf : SystemConf) (history : List (Event Thread Nat Table)) :
    Decidable (ServedLast conf history) :=
  -- Not by going through all marks there are.
  List.decidableBAll (fun m => (∀ e ∈ queuedEntries history, e.mark ≠ m) ∨
    ∃ j < conf.marks.length, quietMark (.producer j) history = some m) conf.marks

/-- A message can be left behind: the only producer has timed out on the empty queue and is at its
exit test, the consumer queues a message of the producer's mark and ends, `main` joins it and clears
`consume_state`, and the producer exits on the old timeout. -/
theorem shutdown_leaves_message :
    ∃ s, exec (SystemState.step ⟨1, fun _ => false, [0], 0, 0, fun _ => 0, fun _ => 0⟩)
        (SystemState.init ⟨1, fun _ => false, [0], 0, 0, fun _ => 0, fun _ => 0⟩)
        [.producerInit 0 true, .producerHead 0, .queue (.get (.producer 0) ⟨none, 0, 0, none⟩ true),
          .queue (.wake (.producer 0) true), .getReturned 0,
          .consumerInit 0 true, .await 0, .consumerHead 0, .consume 0 (.data 0 5), .preadd 0 [],
          .queue (.add (.consumer 0) ⟨some 0, 5, 0, none⟩ (some 0) []),
          .queue (.lock (.consumer 0) true), .addReturned 0, .consumerHead 0, .consume 0 .fail,
          .joinConsumers, .producerHead 0] = some s ∧
      s.AllExited ⟨1, fun _ => false, [0], 0, 0, fun _ => 0, fun _ => 0⟩ ∧
      ∃ e ∈ routed s.queue.history, e.mark = 0 :=
  exists_of_exec_any (by decide) fun _ _ h => h

/-- When all threads have exited and every configured mark was served last, nothing is left behind:
the memory of the queue represents a sequence without entries of configured marks, and by mark the
entries handed out are exactly the entries queued. -/
theorem shutdown_leaves_nothing (conf : SystemConf) (acts : List SystemAction) (s : SystemState)
    (h : exec (SystemState.step conf) (SystemState.init conf) acts = some s)
    (hexit : s.AllExited conf) (hserved : ServedLast conf s.queue.history) :
    (∃ ps, Spells s.queue.q ps (routed s.queue.history)) ∧ ∀ m ∈ conf.marks,
      (∀ e ∈ routed s.queue.history, e.mark ≠ m) ∧
        (queuedEntries s.queue.history).filter (fun e => e.mark = m) =
          (deliveredEntries s.queue.history).filter fun e => e.mark = m := by
  obtain ⟨ps, hinv⟩ := queueInv_of_system_exec h
  obtain ⟨hcr, -, hproducers⟩ := hexit
  refine ⟨⟨ps, hinv.spells⟩, fun m hm => ?_⟩
  have horder := hinv.faithful.pushed_filter_eq m
  have hnone : ∀ e ∈ routed s.queue.history, e.mark ≠ m := by
    rcases hserved m hm with hnever | ⟨j, hj, hquiet⟩
    · -- what was never queued cannot wait
      have hnil : (queuedEntries s.queue.history).filter (fun e => e.mark = m) = [] := by
        simpa [List.filter_eq_nil_iff] using hnever
      rw [queuedEntries, horder, List.append_eq_nil_iff] at hnil
      simpa [routed, List.filter_eq_nil_iff] using hnil.2
    · -- the producer has exited, and not through a failed initialisation
      have hok := producerOk_of_exec h j
      have hret : (s.producers j).ret = .etimedout := by
        by_contra hret
        have hfresh := hok.fresh (Or.inr ⟨hproducers j hj, hret⟩)
        rw [hquiet] at hfresh
        cases hfresh
      have hparked := hok.timedOut (by rw [hproducers j hj]; simp) hret
      exact (drained_of_exec h hcr).empty _ hparked m hquiet
  refine ⟨hnone, ?_⟩
  have hnil : (routed s.queue.history).filter (fun e => e.mark = m) = [] := by
    simpa [List.filter_eq_nil_iff] using hnone
  rw [queuedEntries, horder]
  simp only [routed] at hnil
  simp [hnil, deliveredEntries]

/-- One consumer, one producer and one message, which is taken before the producer times out. -/
theorem shutdown_leaves_nothing_one_message :
    ∃ s, exec (SystemState.step ⟨1, fun _ => false, [0], 0, 0, fun _ => 0, fun _ => 0⟩)
        (SystemState.init ⟨1, fun _ => false, [0], 0, 0, fun _ => 0, fun _ => 0⟩)
        [.producerInit 0 true, .consumerInit 0 true, .await 0, .consumerHead 0,
          .consume 0 (.data 0 5), .preadd 0 [],
          .queue (.add (.consumer 0) ⟨some 0, 5, 0, none⟩ (some 0) []),
          .queue (.lock (.consumer 0) true), .addReturned 0, .consumerHead 0, .consume 0 .fail,
          .producerHead 0, .queue (.get (.producer 0) ⟨none, 0, 0, none⟩ true),
          .queue (.preget (.producer 0) []), .getReturned 0, .postget 0 [], .produce 0,
          .callback 0 true, .release 0, .joinConsumers, .producerHead 0,
          .queue (.get (.producer 0) ⟨none, 5, 0, none⟩ true),
          .queue (.wake (.producer 0) true), .getReturned 0, .producerHead 0] = some s ∧
      ∀ e ∈ routed s.queue.history, e.mark ≠ 0 := by
  refine exists_of_exec_any (P := fun s : SystemState =>
    s.AllExited ⟨1, fun _ => false, [0], 0, 0, fun _ => 0, fun _ => 0⟩ ∧
      ServedLast ⟨1, fun _ => false, [0], 0, 0, fun _ => 0, fun _ => 0⟩ s.queue.history)
    (by decide) ?_
  rintro s hs ⟨hexit, hserved⟩
  exact ((shutdown_leaves_nothing _ _ s hs hexit hserved).2 0 (by simp)).1

end Schaufel
