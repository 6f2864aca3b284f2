import Schaufel.System.Flow

/-!
# Turns

`Posted` says where the threads are: inside `queue_add` and `queue_get` exactly at the points of
`consume` and `produce` that say so.  `SystemState.rank` counts how many actions a thread is away
from its exit once `consume_state` is cleared.  A consumer that is about to queue its message has
the actions of the producer on that message in its rank.

`Turn` describes the steps of a system with `Posted` by the thread whose turn it is and by what the
step costs this thread, and `turn_of_step` says that there are no other steps.
-/

namespace Schaufel

/-! ### Where the threads are -/

/-- The frame belongs to a call of `queue_add`. -/
def Call.inAdd {δ μ : Type} : Call δ μ → Bool
  | .adding .. | .addWait .. | .addReturned .. => true
  | _ => false

/-- The frame belongs to a call of `queue_get`. -/
def Call.inGet {δ μ : Type} : Call δ μ → Bool
  | .getWait .. | .getXwait .. | .taken .. | .getReturned .. => true
  | _ => false

/-- The point of a thread fits its frame. -/
def SystemState.AtPost (s : SystemState) : Thread → Prop
  | .consumer i =>
    if (s.consumers i).pc = .adding then (s.queue.call (.consumer i)).inAdd = true
    else (s.queue.call (.consumer i)).outside = true
  | .producer j =>
    if (s.producers j).pc = .getting then (s.queue.call (.producer j)).inGet = true
    else (s.queue.call (.producer j)).outside = true
  | .stats => True

/-- Every thread is at its post, only configured threads run, and `main` waits for the consumers
first. -/
structure Posted (conf : SystemConf) (s : SystemState) : Prop where
  post : ∀ t, s.AtPost t
  consumer : ∀ i, (s.consumers i).pc ≠ .exited → i < conf.consumers
  producer : ∀ j, (s.producers j).pc ≠ .exited → j < conf.marks.length
  main : s.main = .joinConsumers ∨ ∀ i, (s.consumers i).pc = .exited

/-! ### Ranks -/

/-- How far a thread inside `queue_add` is from its exit, the actions on its message included. -/
def Call.addRank {δ μ : Type} : Call δ μ → Nat
  | .adding .. => 14
  | .addWait .. => 13
  | .addReturned .. => 2
  | _ => 0

/-- How far a thread inside `queue_get` is from its exit. -/
def Call.getRank {δ μ : Type} : Call δ μ → Nat
  | .taken .. => 12
  | .getReturned _ ret => if ret = .etimedout then 2 else 11
  | .getWait .. | .getXwait .. => 4
  | _ => 0

/-- How far a consumer is from its exit. -/
def ConsumerThread.rank (c : ConsumerThread) (call : Call Nat Table) : Nat :=
  match c.pc with
  | .consume => 17
  | .preadd => 16
  | .add => 15
  | .adding => call.addRank
  | .start => 3
  | .await => 2
  | .head => 1
  | .exited => 0

/-- How far a producer is from its exit, if it gets no further message. -/
def ProducerThread.rank (p : ProducerThread) (call : Call Nat Table) : Nat :=
  match p.pc with
  | .getting => call.getRank
  | .postget => 10
  | .produce => 9
  | .callback => 8
  | .release | .start => 7
  | .head => if p.ret = .etimedout then 1 else 6
  | .get => 5
  | .exited => 0

/-- How far a thread is from its exit. -/
def SystemState.rank (s : SystemState) : Thread → Nat
  | .consumer i => (s.consumers i).rank (s.queue.call (.consumer i))
  | .producer j => (s.producers j).rank (s.queue.call (.producer j))
  | .stats => 0

/-- How many joins `main` has before it. -/
def MainPc.rank : MainPc → Nat
  | .joinConsumers => 2
  | .joinProducers => 1
  | .done => 0

/-- The configured threads. -/
def SystemConf.threads (conf : SystemConf) : List Thread :=
  (List.range conf.consumers).map .consumer ++ (List.range conf.marks.length).map .producer

/-- The action is not the wake-up of a waiting thread and no look at the counters. -/
def QueueAction.works {ι δ μ ε : Type} : QueueAction ι δ μ ε → Bool
  | .wake .. | .count .. => false
  | _ => true

/-- The action is none of those that a thread may repeat as often as it likes. -/
def SystemAction.works : SystemAction → Bool
  | .queue a => a.works
  | .stop => false
  | _ => true

theorem SystemConf.nodup_threads (conf : SystemConf) : conf.threads.Nodup := by
  refine List.nodup_append.mpr ⟨?_, ?_, ?_⟩
  · exact List.nodup_range.map fun i i' h => Thread.consumer.inj h
  · exact List.nodup_range.map fun j j' h => Thread.producer.inj h
  · rintro t ht t' ht' rfl
    obtain ⟨i, -, rfl⟩ := List.mem_map.mp ht
    obtain ⟨j, -, hj⟩ := List.mem_map.mp ht'
    cases hj

theorem SystemConf.consumer_mem_threads {conf : SystemConf} {i : Nat} (h : i < conf.consumers) :
    .consumer i ∈ conf.threads :=
  List.mem_append_left _ (List.mem_map.mpr ⟨i, List.mem_range.mpr h, rfl⟩)

theorem SystemConf.producer_mem_threads {conf : SystemConf} {j : Nat} (h : j < conf.marks.length) :
    .producer j ∈ conf.threads :=
  List.mem_append_right _ (List.mem_map.mpr ⟨j, List.mem_range.mpr h, rfl⟩)

theorem ConsumerThread.rank_eq {c : ConsumerThread} {pc : ConsumerPc} (h : c.pc = pc)
    (call : Call Nat Table) : c.rank call = ConsumerThread.rank ⟨pc, c.msg⟩ call := by
  rw [ConsumerThread.rank, h]
  rfl

theorem ProducerThread.rank_eq {p : ProducerThread} {pc : ProducerPc} (h : p.pc = pc)
    (call : Call Nat Table) : p.rank call = ProducerThread.rank ⟨pc, p.msg, p.ret⟩ call := by
  rw [ProducerThread.rank, h]
  rfl

section Calls

variable {δ μ : Type}

theorem Call.inAdd_wakeUp (c : Call δ μ) : c.wakeUp.inAdd = c.inAdd := by
  cases c <;> rfl

theorem Call.inGet_wakeUp (c : Call δ μ) : c.wakeUp.inGet = c.inGet := by
  cases c <;> rfl

theorem Call.outside_wakeUp (c : Call δ μ) : c.wakeUp.outside = c.outside := by
  cases c <;> rfl

theorem Call.addRank_wakeUp (c : Call δ μ) : c.wakeUp.addRank = c.addRank := by
  cases c <;> rfl

theorem Call.getRank_wakeUp (c : Call δ μ) : c.wakeUp.getRank = c.getRank := by
  cases c <;> rfl

theorem Call.addRank_pos {c : Call δ μ} (h : c.inAdd = true) : 0 < c.addRank := by
  cases c with
  | adding | addWait | addReturned => exact Nat.succ_pos _
  | _ => cases h

theorem Call.getRank_pos {c : Call δ μ} (h : c.inGet = true) : 0 < c.getRank := by
  cases c with
  | getReturned msg ret => cases ret <;> exact Nat.succ_pos _
  | taken | getWait | getXwait => exact Nat.succ_pos _
  | _ => cases h

/-- No frame belongs to both calls. -/
theorem Call.not_inGet_of_inAdd {c : Call δ μ} (h : c.inAdd = true) : ¬ c.inGet = true := by
  cases c with
  | adding | addWait | addReturned => exact Bool.false_ne_true
  | _ => cases h

end Calls

/-! ### Steps inside the queue -/

/-- What a step of the queue does to the frame of its thread: `l` and `l'` are the numbers of
waiting messages before and after it. -/
def FrameStep {ι δ μ ε : Type} (c c' : Call δ μ) (l l' : Nat) : QueueAction ι δ μ ε → Prop
  | .add .. => c'.inAdd = true ∧ c'.addRank + 10 * l' ≤ 14 + 10 * l
  | .lock .. => c.inAdd = true ∧ c'.inAdd = true ∧ c'.addRank + 10 * l' < c.addRank + 10 * l
  | .get .. => c'.inGet = true ∧ c'.getRank + 10 * l' ≤ 4 + 10 * l
  | .wake .. =>
    (c.inAdd = true ∧ c'.inAdd = true ∧ c'.addRank + 10 * l' ≤ c.addRank + 10 * l) ∨
      (c.inGet = true ∧ c'.inGet = true ∧ c'.getRank + 10 * l' ≤ c.getRank + 10 * l)
  | .preget .. => c.inGet = true ∧ c'.inGet = true ∧ c'.getRank + 10 * l' < c.getRank + 10 * l
  | .count .. => c' = c ∧ l' = l

/-- A test of the wait loop of `queue_add`. -/
theorem Adding.frameStep {ι δ μ ε : Type} {s : QueueState ι δ μ} {t : ι} {args msg : Message δ μ}
    {p : Ptr} {a : QueueAction ι δ μ ε} (h : Adding s t args p msg a) {c' : Call δ μ} {l l' : Nat}
    (hin : c'.inAdd = true) (hcost : c'.addRank + 10 * l' ≤ 13 + 10 * l) :
    FrameStep (s.call t) c' l l' a := by
  cases h with
  | lock hcall =>
    rw [hcall]
    exact ⟨rfl, hin, Nat.lt_of_le_of_lt hcost (Nat.add_lt_add_right (show 13 < 14 by decide) _)⟩
  | wake hcall =>
    rw [hcall]
    exact Or.inl ⟨rfl, hin, hcost⟩

/-- A test of a wait loop of `queue_get`. -/
theorem Getting.frameStep {ι δ μ ε : Type} {s : QueueState ι δ μ} {t : ι} {msg : Message δ μ}
    {evs : List (Event ι δ μ)} {a : QueueAction ι δ μ ε} (h : Getting s t msg evs a) {c' : Call δ μ}
    {l l' : Nat} (hin : c'.inGet = true) (hcost : c'.getRank + 10 * l' ≤ 4 + 10 * l) :
    FrameStep (s.call t) c' l l' a := by
  cases h with
  | call hout => exact ⟨hin, hcost⟩
  | wait hcall | xwait hcall =>
    rw [hcall]
    exact Or.inr ⟨rfl, hin, hcost⟩

/-- Every step of the queue that does not kill the process. -/
theorem FifoStep.frameStep {ι δ μ ε : Type} {conf : QueueConf δ μ ε} {s s' : QueueState ι δ μ}
    {a : QueueAction ι δ μ ε} (h : FifoStep conf s s' a) (hup : s'.crashed = false) :
    FrameStep (s.call a.thread) (s'.call a.thread) (routed s.history).length
      (routed s'.history).length a := by
  have hquiet : ∀ {evs : List (Event ι δ μ)}, s'.history = s.history ++ evs → fifoOps evs = [] →
      routed s'.history = routed s.history := by
    intro evs hhist hnil
    rw [hhist, routed_append_of_fifoOps_eq_nil hnil]
  cases h with
  | @addNoMem t args env hout hcall hhist =>
    rw [hquiet hhist (by simp)]
    exact ⟨by rw [QueueAction.thread, hcall]; rfl,
      by rw [QueueAction.thread, hcall, Call.addRank]; omega⟩
  | addRefused hout hrun hcall hhist =>
    rw [List.append_assoc] at hhist
    rw [hquiet hhist (by simp)]
    exact ⟨by rw [QueueAction.thread, hcall]; rfl,
      by rw [QueueAction.thread, hcall, Call.addRank]; omega⟩
  | addAccepted hout hrun hcall hheld hhist =>
    rw [hquiet hhist (by simp)]
    exact ⟨by rw [QueueAction.thread, hcall]; rfl,
      by rw [QueueAction.thread, hcall]; exact Nat.le_refl _⟩
  | @addFailed t args p hfrom hcall hhist =>
    have hnil : fifoOps (args.release.map (Event.effect t) ++ [Event.dropped t args]) = [] := by
      rw [fifoOps_append, fifoOps_dropped, fifoOps_effects, List.append_nil]
    rw [hquiet hhist hnil, QueueAction.thread, hfrom, hcall]
    exact ⟨rfl, rfl, by rw [Call.addRank, Call.addRank]; omega⟩
  | addBlocked hfrom hfull hcall hheld hhist =>
    rw [hfrom.thread_eq, hhist, hcall]
    exact hfrom.frameStep rfl (Nat.le_refl _)
  | added hfrom hcall hhist =>
    rw [hfrom.thread_eq, hhist, hcall, routed_queued, List.length_append, List.length_singleton]
    exact hfrom.frameStep rfl (by rw [Call.addRank]; omega)
  | getBlocked hfrom hempty hcall hhist =>
    rw [hfrom.thread_eq, hcall, hquiet hhist hfrom.fifoOps_eq_nil]
    exact hfrom.frameStep rfl (Nat.le_refl _)
  | getXblocked hfrom hnone hcall hhist =>
    rw [hfrom.thread_eq, hcall, hquiet hhist hfrom.fifoOps_eq_nil]
    exact hfrom.frameStep rfl (Nat.le_refl _)
  | taken hfrom hsplit hmark hold hrest hcall hhist =>
    rw [hfrom.thread_eq, hcall, hsplit, hrest, List.length_append, List.length_append,
      List.length_cons]
    exact hfrom.frameStep rfl (by rw [Call.getRank]; omega)
  | crashed hfrom hnull hcrash => exact absurd (hup.symm.trans hcrash) (by decide)
  | @timedOut t msg hfrom hcall hhist =>
    rw [QueueAction.thread, hhist, hcall]
    exact hfrom.frameStep rfl (Nat.add_le_add_right (show 2 ≤ 4 by decide) _)
  | preget hfrom hrun hcall hhist =>
    rw [hquiet hhist (by simp), QueueAction.thread, hfrom, hcall]
    exact ⟨rfl, rfl, Nat.add_lt_add_right (show 11 < 12 by decide) _⟩
  | pregetRefused hfrom hrun hcall hhist =>
    rw [List.append_assoc] at hhist
    rw [hquiet hhist (by simp), QueueAction.thread, hfrom, hcall]
    exact ⟨rfl, rfl, Nat.add_lt_add_right (show 11 < 12 by decide) _⟩
  | counted hout hcall hhist =>
    exact ⟨hcall, by rw [hquiet hhist rfl]⟩

/-! ### Turns -/

/-- A step of the system by the thread whose turn it is. -/
inductive Turn (conf : SystemConf) (s : SystemState) (a : SystemAction) (s' : SystemState) : Prop
  /-- A consumer moves on outside the queue. -/
  | consumer {i : Nat} {c : ConsumerThread} {evs : List (Event Thread Nat Table)}
      (hlive : (s.consumers i).pc ≠ .exited) (hout : (s.queue.call (.consumer i)).outside = true)
      (hpc : c.pc ≠ .adding) (hlocal : ∀ e ∈ evs, e.isLocal = true)
      (hqueue : s'.queue = s.queue.emit evs)
      (hconsumers : s'.consumers = Function.update s.consumers i c)
      (hproducers : s'.producers = s.producers) (hmain : s'.main = s.main)
      (hrank : s.consumeState = false → ∀ call, s.queue.call (.consumer i) = call →
        c.rank call < (s.consumers i).rank call)
  /-- A producer moves on outside the queue. -/
  | producer {j : Nat} {p : ProducerThread} {evs : List (Event Thread Nat Table)}
      (hlive : (s.producers j).pc ≠ .exited) (hout : (s.queue.call (.producer j)).outside = true)
      (hpc : p.pc ≠ .getting) (hlocal : ∀ e ∈ evs, e.isLocal = true)
      (hqueue : s'.queue = s.queue.emit evs)
      (hproducers : s'.producers = Function.update s.producers j p)
      (hconsumers : s'.consumers = s.consumers) (hmain : s'.main = s.main)
      (hrank : s.consumeState = false → ∀ call, s.queue.call (.producer j) = call →
        p.rank call < (s.producers j).rank call)
  /-- A consumer is inside `queue_add`. -/
  | add {i : Nat} {b : QueueAction Thread Nat Table HookEnv} (ha : a = .queue b)
      (hup : s'.queue.crashed = false)
      (hpc : (s.consumers i).pc = .add ∨ (s.consumers i).pc = .adding)
      (hpc' : (s'.consumers i).pc = .adding) (hothers : ∀ i' ≠ i, s'.consumers i' = s.consumers i')
      (hproducers : s'.producers = s.producers) (hmain : s'.main = s.main)
      (hspares : Spares (.consumer i) s.queue s'.queue)
      (hin : (s'.queue.call (.consumer i)).inAdd = true)
      (hcost : (s'.queue.call (.consumer i)).addRank + 10 * (routed s'.queue.history).length +
        b.works.toNat ≤
        (s.consumers i).rank (s.queue.call (.consumer i)) + 10 * (routed s.queue.history).length)
  /-- A producer is inside `queue_get`. -/
  | get {j : Nat} {b : QueueAction Thread Nat Table HookEnv} (ha : a = .queue b)
      (hup : s'.queue.crashed = false)
      (hpc : (s.producers j).pc = .get ∨ (s.producers j).pc = .getting)
      (hpc' : (s'.producers j).pc = .getting) (hothers : ∀ j' ≠ j, s'.producers j' = s.producers j')
      (hconsumers : s'.consumers = s.consumers) (hmain : s'.main = s.main)
      (hspares : Spares (.producer j) s.queue s'.queue)
      (hin : (s'.queue.call (.producer j)).inGet = true)
      (hcost : (s'.queue.call (.producer j)).getRank + 10 * (routed s'.queue.history).length +
        b.works.toNat ≤
        (s.producers j).rank (s.queue.call (.producer j)) + 10 * (routed s.queue.history).length)
  /-- The statistics look at the counters. -/
  | count (ha : a.works = false) (hup : s'.queue.crashed = false)
      (hconsumers : s'.consumers = s.consumers) (hproducers : s'.producers = s.producers)
      (hmain : s'.main = s.main) (hspares : Spares .stats s.queue s'.queue)
      (hlen : (routed s'.queue.history).length = (routed s.queue.history).length)
  /-- A signal arrives, or `main` has joined threads. -/
  | main (hqueue : s'.queue = s.queue) (hconsumers : s'.consumers = s.consumers)
      (hproducers : s'.producers = s.producers)
      (hmain : a.works = false ∧ s'.main = s.main ∨
        s'.main.rank < s.main.rank ∧ ∀ i < conf.consumers, (s.consumers i).pc = .exited)
  /-- The process is gone. -/
  | crash {t : Thread} (hcrash : s'.queue.crashed = true)
      (ht : a.works = true → t ∈ conf.threads ∧ 0 < s.rank t)

theorem Posted.outside_consumer {conf : SystemConf} {s : SystemState} (h : Posted conf s) {i : Nat}
    (hpc : (s.consumers i).pc ≠ .adding) : (s.queue.call (.consumer i)).outside = true := by
  have hpost := h.post (.consumer i)
  rwa [SystemState.AtPost, if_neg hpc] at hpost

theorem Posted.inAdd {conf : SystemConf} {s : SystemState} (h : Posted conf s) {i : Nat}
    (hpc : (s.consumers i).pc = .adding) : (s.queue.call (.consumer i)).inAdd = true := by
  have hpost := h.post (.consumer i)
  rwa [SystemState.AtPost, if_pos hpc] at hpost

theorem Posted.outside_producer {conf : SystemConf} {s : SystemState} (h : Posted conf s) {j : Nat}
    (hpc : (s.producers j).pc ≠ .getting) : (s.queue.call (.producer j)).outside = true := by
  have hpost := h.post (.producer j)
  rwa [SystemState.AtPost, if_neg hpc] at hpost

theorem Posted.inGet {conf : SystemConf} {s : SystemState} (h : Posted conf s) {j : Nat}
    (hpc : (s.producers j).pc = .getting) : (s.queue.call (.producer j)).inGet = true := by
  have hpost := h.post (.producer j)
  rwa [SystemState.AtPost, if_pos hpc] at hpost

/-- A step of the queue spares the other threads, and it kills the process or moves its thread. -/
theorem frameStep_of_step {conf : SystemConf} {q q' : QueueState Thread Nat Table} {ps : List Ptr}
    {b : QueueAction Thread Nat Table HookEnv} (hinv : QueueInv q ps)
    (h : q.step conf.queue b = some q') {t : Thread} (ht : b.thread = t) :
    Spares t q q' ∧ (q'.crashed = true ∨ q'.crashed = false ∧ FrameStep (q.call t) (q'.call t)
      (routed q.history).length (routed q'.history).length b) := by
  subst ht
  obtain ⟨⟨-, hspares⟩, hfifo⟩ := hinv.step (queueStep_of_step h).2
  refine ⟨hspares, ?_⟩
  cases hup : q'.crashed with
  | true => exact Or.inl rfl
  | false => exact Or.inr ⟨rfl, hfifo.frameStep hup⟩

/-- A step of the queue inside the system. -/
theorem turn_of_queue {conf : SystemConf} {s s' : SystemState}
    {b : QueueAction Thread Nat Table HookEnv} {ps : List Ptr} (hpost : Posted conf s)
    (hinv : QueueInv s.queue ps) (h : SystemStep conf s (.queue b) s') :
    Turn conf s (.queue b) s' := by
  have hconsumer : ∀ {i pc}, (s.consumers i).pc = pc → pc ≠ .exited →
      .consumer i ∈ conf.threads := by
    intro i pc hpc hne
    exact SystemConf.consumer_mem_threads (hpost.consumer i (by rwa [hpc]))
  have hproducer : ∀ {j pc}, (s.producers j).pc = pc → pc ≠ .exited →
      .producer j ∈ conf.threads := by
    intro j pc hpc hne
    exact SystemConf.producer_mem_threads (hpost.producer j (by rwa [hpc]))
  have hadding : ∀ {i}, (s.consumers i).pc = .adding →
      .consumer i ∈ conf.threads ∧ 0 < s.rank (.consumer i) := by
    intro i hpc
    refine ⟨hconsumer hpc (by decide), ?_⟩
    rw [SystemState.rank, ConsumerThread.rank_eq hpc]
    exact Call.addRank_pos (hpost.inAdd hpc)
  have hgetting : ∀ {j}, (s.producers j).pc = .getting → .producer j ∈ conf.threads ∧
      0 < s.rank (.producer j) := by
    intro j hpc
    refine ⟨hproducer hpc (by decide), ?_⟩
    rw [SystemState.rank, ProducerThread.rank_eq hpc]
    exact Call.getRank_pos (hpost.inGet hpc)
  cases h with
  | @enterAdd i newmsg env q hpc hq =>
    have hrank := ConsumerThread.rank_eq hpc (s.queue.call (.consumer i))
    obtain ⟨hspares, hcrash | ⟨hup, hin, hcost⟩⟩ := frameStep_of_step hinv hq rfl
    · refine .crash hcrash fun _ => ⟨hconsumer hpc (by decide), ?_⟩
      rw [SystemState.rank, hrank]
      exact Nat.succ_pos _
    · refine .add rfl hup (Or.inl hpc) ?_ (fun i' hi' => Function.update_of_ne hi' _ _)
        rfl rfl hspares hin ?_
      · simp [SystemState.setConsumer]
      · rw [hrank]
        exact Nat.le_trans (Nat.succ_le_succ hcost) (Nat.le_of_eq (Nat.add_right_comm 14 _ 1))
  | @enterGet j alloc q hpc hq =>
    have hrank := ProducerThread.rank_eq hpc (s.queue.call (.producer j))
    obtain ⟨hspares, hcrash | ⟨hup, hin, hcost⟩⟩ := frameStep_of_step hinv hq rfl
    · refine .crash hcrash fun _ => ⟨hproducer hpc (by decide), ?_⟩
      rw [SystemState.rank, hrank]
      exact Nat.succ_pos _
    · refine .get rfl hup (Or.inl hpc) ?_ (fun j' hj' => Function.update_of_ne hj' _ _)
        rfl rfl hspares hin ?_
      · simp [SystemState.setProducer]
      · rw [hrank]
        exact Nat.le_trans (Nat.succ_le_succ hcost) (Nat.le_of_eq (Nat.add_right_comm 4 _ 1))
  | @inside b q hin hq =>
    cases b with
    | add t args newmsg env => exact hin.elim
    | get t msg alloc => exact hin.elim
    | lock t alloc =>
      cases t with
      | producer j => exact hin.elim
      | stats => exact hin.elim
      | consumer i =>
        have hpc : (s.consumers i).pc = .adding := hin
        obtain ⟨hspares, hcrash | ⟨hup, -, hin', hcost⟩⟩ := frameStep_of_step hinv hq rfl
        · exact .crash hcrash fun _ => hadding hpc
        · exact .add rfl hup (Or.inr hpc) hpc (fun _ _ => rfl) rfl rfl hspares hin'
            (by rw [ConsumerThread.rank_eq hpc]; exact hcost)
    | wake t timeout =>
      cases t with
      | stats => exact hin.elim
      | consumer i =>
        have hpc : (s.consumers i).pc = .adding := hin
        obtain ⟨hspares, hcrash | ⟨hup, ⟨-, hin', hcost⟩ | ⟨hget, -⟩⟩⟩ :=
          frameStep_of_step hinv hq rfl
        · exact .crash hcrash fun _ => hadding hpc
        · exact .add rfl hup (Or.inr hpc) hpc (fun _ _ => rfl) rfl rfl hspares hin'
            (by rw [ConsumerThread.rank_eq hpc]; exact hcost)
        · exact absurd hget (Call.not_inGet_of_inAdd (hpost.inAdd hpc))
      | producer j =>
        have hpc : (s.producers j).pc = .getting := hin
        obtain ⟨hspares, hcrash | ⟨hup, ⟨hadd, -⟩ | ⟨-, hin', hcost⟩⟩⟩ :=
          frameStep_of_step hinv hq rfl
        · exact .crash hcrash fun _ => hgetting hpc
        · exact absurd (hpost.inGet hpc) (Call.not_inGet_of_inAdd hadd)
        · exact .get rfl hup (Or.inr hpc) hpc (fun _ _ => rfl) rfl rfl hspares hin'
            (by rw [ProducerThread.rank_eq hpc]; exact hcost)
    | preget t env =>
      cases t with
      | consumer i => exact hin.elim
      | stats => exact hin.elim
      | producer j =>
        have hpc : (s.producers j).pc = .getting := hin
        obtain ⟨hspares, hcrash | ⟨hup, -, hin', hcost⟩⟩ := frameStep_of_step hinv hq rfl
        · exact .crash hcrash fun _ => hgetting hpc
        · exact .get rfl hup (Or.inr hpc) hpc (fun _ _ => rfl) rfl rfl hspares hin'
            (by rw [ProducerThread.rank_eq hpc]; exact hcost)
    | count t n =>
      cases t with
      | consumer i => exact hin.elim
      | producer j => exact hin.elim
      | stats =>
        obtain ⟨hspares, hcrash | ⟨hup, -, hlen⟩⟩ := frameStep_of_step hinv hq rfl
        · exact .crash (t := .stats) hcrash fun hworks => by cases hworks
        · exact .count rfl hup rfl rfl rfl hspares hlen

theorem act_of_step {conf : SystemConf} {s s' : SystemState} {a : SystemAction}
    (h : s.step conf a = some s') : s.act conf a = some s' := by
  unfold SystemState.step at h
  split at h
  · cases h
  · exact (Option.filter_eq_some_iff.mp h).1

/-- Every step of a system whose threads are at their posts. -/
theorem turn_of_step {conf : SystemConf} {s s' : SystemState} {a : SystemAction} {ps : List Ptr}
    (hpost : Posted conf s) (hinv : QueueInv s.queue ps) (h : s.step conf a = some s') :
    Turn conf s a s' := by
  obtain ⟨hcr, hstep, -⟩ := systemStep_of_step h
  have hsame : s.queue = s.queue.emit [] := s.queue.emit_nil.symm
  have hnone : ∀ e ∈ ([] : List (Event Thread Nat Table)), e.isLocal = true :=
    List.forall_mem_nil _
  -- a consumer outside the queue moves from one point to another
  have hconsumer : ∀ {i pc pc' msg' evs}, (s.consumers i).pc = pc → pc ≠ .exited ∧ pc ≠ .adding →
      pc' ≠ .adding →
      (∀ e ∈ evs, Event.isLocal e = true) → s'.queue = s.queue.emit evs →
      s'.consumers = Function.update s.consumers i ⟨pc', msg'⟩ → s'.producers = s.producers →
      s'.main = s.main →
      (s.consumeState = false → ∀ msg call,
        ConsumerThread.rank ⟨pc', msg'⟩ call < ConsumerThread.rank ⟨pc, msg⟩ call) →
      Turn conf s a s' := by
    rintro i pc pc' msg' evs rfl ⟨hlive, hne⟩ hne' hlocal hqueue hc hp hm hrank
    exact .consumer hlive (hpost.outside_consumer hne)
      hne' hlocal hqueue hc hp hm fun hoff call _ =>
      hrank hoff (s.consumers i).msg call
  -- and a producer does so
  have hproducer : ∀ {j pc pc' msg' ret' evs}, (s.producers j).pc = pc →
      pc ≠ .exited ∧ pc ≠ .getting →
      pc' ≠ .getting → (∀ e ∈ evs, Event.isLocal e = true) → s'.queue = s.queue.emit evs →
      s'.producers = Function.update s.producers j ⟨pc', msg', ret'⟩ → s'.consumers = s.consumers →
      s'.main = s.main →
      (s.consumeState = false → ∀ call, ProducerThread.rank ⟨pc', msg', ret'⟩ call <
        ProducerThread.rank ⟨pc, (s.producers j).msg, (s.producers j).ret⟩ call) →
      Turn conf s a s' := by
    rintro j pc pc' msg' ret' evs rfl ⟨hlive, hne⟩ hne' hlocal hqueue hp hc hm hrank
    exact .producer hlive (hpost.outside_producer hne)
      hne' hlocal hqueue hp hc hm fun hoff call _ =>
      hrank hoff call
  -- at the exit test the variable `ret` counts
  have hhead : ∀ (p : ProducerThread) (call : Call Nat Table), p.pc = .head → p.rank call ≤ 6 := by
    intro p call hpc
    rw [ProducerThread.rank_eq hpc]
    simp only [ProducerThread.rank]
    split <;> omega
  cases hstep with
  | @consumerInit i ok hpc =>
    refine hconsumer hpc (by decide) ?_ hnone hsame rfl rfl rfl fun _ msg call => ?_
    · cases ok <;> decide
    · cases ok <;> exact Nat.lt_of_sub_eq_succ rfl
  | await hpc =>
    exact hconsumer hpc (by decide) (by decide) hnone hsame rfl rfl rfl fun _ msg call =>
      Nat.lt_of_sub_eq_succ rfl
  | consumerHead hpc =>
    refine hconsumer hpc (by decide) ?_ hnone hsame rfl rfl rfl fun hoff msg call => ?_
    · cases s.consumeState <;> decide
    · rw [hoff]
      exact Nat.lt_of_sub_eq_succ rfl
  | consumeFail hpc =>
    exact hconsumer hpc (by decide) (by decide) hnone hsame rfl rfl rfl fun _ msg call =>
      Nat.lt_of_sub_eq_succ rfl
  | @consume i r msg evs hpc hfits hmsg =>
    refine hconsumer hpc (by decide) ?_ (isLocal_consumeMsg hmsg) rfl rfl rfl rfl
      fun _ msg₀ call => ?_
    · split <;> decide
    · cases msg.data <;> exact Nat.lt_of_sub_eq_succ rfl
  | preadd hpc hr haccept =>
    exact hconsumer hpc (by decide) (by decide) (isLocal_effects _ _) rfl rfl rfl rfl
      fun _ msg call => Nat.lt_of_sub_eq_succ rfl
  | preaddRefused hpc hr haccept =>
    exact hconsumer hpc (by decide) (by decide) (isLocal_refused _ _ _) rfl rfl rfl rfl
      fun _ msg call => Nat.lt_of_sub_eq_succ rfl
  | enterAdd hpc hq => exact turn_of_queue hpost hinv (.enterAdd hpc hq)
  | enterGet hpc hq => exact turn_of_queue hpost hinv (.enterGet hpc hq)
  | inside hin hq => exact turn_of_queue hpost hinv (.inside hin hq)
  | @addReturned i args ret hpc hcall =>
    refine .consumer (by rw [hpc]; decide) (by rw [hcall]; rfl)
      ?_ hnone hsame rfl rfl rfl fun _ call hc => ?_
    · exact fun hadding => by cases hadding
    rw [ConsumerThread.rank_eq hpc, ← hc, hcall]
    exact Nat.lt_of_sub_eq_succ rfl
  | producerInit hpc =>
    exact hproducer hpc (by decide) (by decide) hnone hsame rfl rfl rfl fun _ call =>
      Nat.lt_of_sub_eq_succ rfl
  | producerInitFail hpc =>
    exact hproducer hpc (by decide) (by decide) hnone hsame rfl rfl rfl fun _ call =>
      Nat.lt_of_sub_eq_succ rfl
  | producerExit hpc hret =>
    refine hproducer hpc (by decide) (by decide) hnone hsame rfl rfl rfl fun _ call => ?_
    rw [hret]
    exact Nat.lt_of_sub_eq_succ rfl
  | @producerHead j hpc =>
    refine hproducer hpc (by decide) (by decide) hnone hsame rfl rfl rfl fun hoff call => ?_
    -- after a timeout the producer would have left
    have hret : (s.producers j).ret ≠ .etimedout := by
      intro hret
      have hact := act_of_step h
      rw [SystemState.act, if_pos hpc, if_pos ⟨hoff, hret⟩] at hact
      have hexited := congrArg (fun s => (s.producers j).pc) (Option.some.inj hact)
      simp [SystemState.setProducer] at hexited
    simp [ProducerThread.rank, hret]
  | @getReturned j msg ret hpc hcall =>
    refine .producer (by rw [hpc]; decide) (by rw [hcall]; rfl)
      ?_ hnone hsame rfl rfl rfl fun _ call hc => ?_
    · split
      · exact fun hgetting => by cases hgetting
      · split <;> exact fun hgetting => by cases hgetting
    · rw [ProducerThread.rank_eq hpc, ← hc, hcall]
      by_cases hret : ret = .etimedout
      · simp [ProducerThread.rank, Call.getRank, hret]
      · by_cases hbad : ret = .ebadmsg
        · simp [ProducerThread.rank, Call.getRank, hbad]
        · cases msg.data <;> simp [ProducerThread.rank, Call.getRank, hret, hbad]
  | postget hpc hr haccept =>
    exact hproducer hpc (by decide) (by decide) (isLocal_effects _ _) rfl rfl rfl rfl
      fun _ call => Nat.lt_of_sub_eq_succ rfl
  | postgetRefused hpc hr haccept =>
    exact hproducer hpc (by decide) (by decide) (isLocal_refused _ _ _) rfl rfl rfl rfl
      fun _ call => Nat.lt_of_le_of_lt (hhead _ _ rfl) (Nat.lt_of_sub_eq_succ rfl)
  | produce hpc =>
    exact hproducer hpc (by decide) (by decide) (by simp [Event.isLocal]) rfl rfl rfl rfl
      fun _ call => Nat.lt_of_sub_eq_succ rfl
  | @callbackAbort j hpc =>
    refine .crash (t := .producer j) rfl fun _ =>
      ⟨SystemConf.producer_mem_threads (hpost.producer j ?_), ?_⟩
    · rw [hpc]
      decide
    · rw [SystemState.rank, ProducerThread.rank_eq hpc]
      exact Nat.succ_pos _
  | callback hpc hmsg =>
    exact hproducer hpc (by decide) (by decide) (isLocal_callbackRun hmsg) rfl rfl rfl rfl
      fun _ call => Nat.lt_of_sub_eq_succ rfl
  | release hpc =>
    exact hproducer hpc (by decide) (by decide) (isLocal_effects _ _) rfl rfl rfl rfl
      fun _ call => Nat.lt_of_le_of_lt (hhead _ _ rfl) (Nat.lt_of_sub_eq_succ rfl)
  | stop => exact .main rfl rfl rfl (Or.inl ⟨rfl, rfl⟩)
  | joinConsumers hexit =>
    have hact := act_of_step h
    have hmain := (Option.ite_none_right_eq_some.mp hact).1.1
    exact .main rfl rfl rfl (Or.inr ⟨by rw [hmain]; exact Nat.one_lt_two, hexit⟩)
  | joinProducers hexit =>
    have hact := act_of_step h
    have hmain := (Option.ite_none_right_eq_some.mp hact).1.1
    have hgone := hpost.main.resolve_left (by rw [hmain]; decide)
    exact .main rfl rfl rfl (Or.inr ⟨by rw [hmain]; exact Nat.zero_lt_one, fun i _ => hgone i⟩)

end Schaufel
