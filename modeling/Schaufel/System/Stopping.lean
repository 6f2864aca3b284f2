import Mathlib.Algebra.Order.BigOperators.Group.List
import Mathlib.Algebra.Order.Ring.Nat
import Schaufel.Foundation.Progress
import Schaufel.System.Delivery
import Schaufel.System.Turns

/-!
# After the stop

When `consume_state` is cleared no consumer takes up a further message, and a producer leaves its
loop at the next timeout.  The work that is left then is bounded: `SystemState.budget` adds up the
ranks of the threads and what a producer spends on each queued message.  `Turn.budget_le` is the
step lemma: every action but a wake-up of a waiting thread, a look at the counters and a repeated
signal lowers the budget.  `work_after_stop` is the bound over a whole run.
-/

namespace Schaufel

/-- The actions that are left, if nobody has to wait. -/
def SystemState.budget (conf : SystemConf) (s : SystemState) : Nat :=
  if s.queue.crashed then 0
  else s.main.rank + (conf.threads.map s.rank).sum + 10 * (routed s.queue.history).length

/-! ### One turn -/

/-- A thread whose turn it is not: a flag of its frame may change. -/
def SystemState.Unmoved (s s' : SystemState) : Thread → Prop
  | .consumer i => s'.consumers i = s.consumers i ∧
      (s'.queue.call (.consumer i)).wakeUp = (s.queue.call (.consumer i)).wakeUp
  | .producer j => s'.producers j = s.producers j ∧
      (s'.queue.call (.producer j)).wakeUp = (s.queue.call (.producer j)).wakeUp
  | .stats => True

theorem SystemState.Unmoved.atPost {s s' : SystemState} {t : Thread} (h : s.Unmoved s' t)
    (hpost : s.AtPost t) : s'.AtPost t := by
  cases t with
  | consumer i =>
    obtain ⟨hthread, hcall⟩ := h
    rwa [SystemState.AtPost, hthread, ← Call.inAdd_wakeUp, hcall, Call.inAdd_wakeUp,
      ← Call.outside_wakeUp, hcall, Call.outside_wakeUp]
  | producer j =>
    obtain ⟨hthread, hcall⟩ := h
    rwa [SystemState.AtPost, hthread, ← Call.inGet_wakeUp, hcall, Call.inGet_wakeUp,
      ← Call.outside_wakeUp, hcall, Call.outside_wakeUp]
  | stats => trivial

theorem SystemState.Unmoved.rank_eq {s s' : SystemState} {t : Thread} (h : s.Unmoved s' t) :
    s'.rank t = s.rank t := by
  cases t with
  | consumer i =>
    obtain ⟨hthread, hcall⟩ := h
    rw [SystemState.rank, SystemState.rank, hthread, ConsumerThread.rank, ConsumerThread.rank,
      ← Call.addRank_wakeUp, hcall, Call.addRank_wakeUp]
  | producer j =>
    obtain ⟨hthread, hcall⟩ := h
    rw [SystemState.rank, SystemState.rank, hthread, ProducerThread.rank, ProducerThread.rank,
      ← Call.getRank_wakeUp, hcall, Call.getRank_wakeUp]
  | stats => rfl

/-- When a consumer moves, the others do not. -/
theorem unmoved_of_consumer {s s' : SystemState} {i : Nat}
    (hcall : ∀ t, t ≠ .consumer i → (s'.queue.call t).wakeUp = (s.queue.call t).wakeUp)
    (hc : ∀ i' ≠ i, s'.consumers i' = s.consumers i') (hp : s'.producers = s.producers) {t : Thread}
    (ht : t ≠ .consumer i) : s.Unmoved s' t := by
  cases t with
  | consumer i' => exact ⟨hc i' fun heq => ht (congrArg Thread.consumer heq), hcall _ ht⟩
  | producer j => exact ⟨congrFun hp j, hcall _ ht⟩
  | stats => trivial

/-- When a producer moves, the others do not. -/
theorem unmoved_of_producer {s s' : SystemState} {j : Nat}
    (hcall : ∀ t, t ≠ .producer j → (s'.queue.call t).wakeUp = (s.queue.call t).wakeUp)
    (hp : ∀ j' ≠ j, s'.producers j' = s.producers j') (hc : s'.consumers = s.consumers) {t : Thread}
    (ht : t ≠ .producer j) : s.Unmoved s' t := by
  cases t with
  | consumer i => exact ⟨congrFun hc i, hcall _ ht⟩
  | producer j' => exact ⟨hp j' fun heq => ht (congrArg Thread.producer heq), hcall _ ht⟩
  | stats => trivial

/-- When no consumer and no producer moves. -/
theorem unmoved_of_stats {s s' : SystemState}
    (hcall : ∀ t, t ≠ .stats → (s'.queue.call t).wakeUp = (s.queue.call t).wakeUp)
    (hc : s'.consumers = s.consumers) (hp : s'.producers = s.producers) (t : Thread) :
    s.Unmoved s' t := by
  cases t with
  | consumer i => exact ⟨congrFun hc i, hcall _ fun ht => by cases ht⟩
  | producer j => exact ⟨congrFun hp j, hcall _ fun ht => by cases ht⟩
  | stats => trivial

/-- One thread pays `n` for the action out of its rank, and nobody else is concerned. -/
inductive Payment (conf : SystemConf) (s s' : SystemState) (n : Nat) : Prop
  | thread {t : Thread} (ht : t ∈ conf.threads) (hothers : ∀ t' ≠ t, s.Unmoved s' t')
      (hmain : s'.main = s.main) (hcost : s.consumeState = false →
        s'.rank t + 10 * (routed s'.queue.history).length + n ≤
          s.rank t + 10 * (routed s.queue.history).length)
  | main (hothers : ∀ t, s.Unmoved s' t)
      (hlen : (routed s'.queue.history).length = (routed s.queue.history).length)
      (hcost : s'.main.rank + n ≤ s.main.rank)

theorem Turn.payment {conf : SystemConf} {s s' : SystemState} {a : SystemAction}
    (h : Turn conf s a s') (hpost : Posted conf s) (hup : s'.queue.crashed = false) :
    Payment conf s s' a.works.toNat := by
  have hone : a.works.toNat ≤ 1 := Bool.toNat_le a.works
  cases h with
  | @consumer i c evs hlive hout hpc hlocal hqueue hconsumers hproducers hmain hrank =>
    refine .thread (SystemConf.consumer_mem_threads (hpost.consumer i hlive)) (fun t ht => ?_)
      hmain fun hoff => ?_
    · refine unmoved_of_consumer (fun t _ => by rw [hqueue]; rfl) (fun i' hi' => ?_) hproducers ht
      rw [hconsumers, Function.update_of_ne hi']
    · have hlt := hrank hoff _ rfl
      rw [hqueue, QueueState.emit_history,
        routed_append_of_fifoOps_eq_nil (fifoOps_eq_nil_of_isLocal hlocal), SystemState.rank,
        SystemState.rank, hconsumers, Function.update_self, hqueue, QueueState.emit_call]
      omega
  | @producer j p evs hlive hout hpc hlocal hqueue hproducers hconsumers hmain hrank =>
    refine .thread (SystemConf.producer_mem_threads (hpost.producer j hlive)) (fun t ht => ?_)
      hmain fun hoff => ?_
    · refine unmoved_of_producer (fun t _ => by rw [hqueue]; rfl) (fun j' hj' => ?_) hconsumers ht
      rw [hproducers, Function.update_of_ne hj']
    · have hlt := hrank hoff _ rfl
      rw [hqueue, QueueState.emit_history,
        routed_append_of_fifoOps_eq_nil (fifoOps_eq_nil_of_isLocal hlocal), SystemState.rank,
        SystemState.rank, hproducers, Function.update_self, hqueue, QueueState.emit_call]
      omega
  | @add i b ha hup' hpc hpc' hothers hproducers hmain hspares hin hcost =>
    subst ha
    refine .thread (SystemConf.consumer_mem_threads (hpost.consumer i ?_))
      (fun t ht => unmoved_of_consumer hspares.calls hothers hproducers ht) hmain fun _ => ?_
    · rcases hpc with hpc | hpc <;> rw [hpc] <;> decide
    · rw [SystemState.rank, SystemState.rank, ConsumerThread.rank_eq hpc']
      exact hcost
  | @get j b ha hup' hpc hpc' hothers hconsumers hmain hspares hin hcost =>
    subst ha
    refine .thread (SystemConf.producer_mem_threads (hpost.producer j ?_))
      (fun t ht => unmoved_of_producer hspares.calls hothers hconsumers ht) hmain fun _ => ?_
    · rcases hpc with hpc | hpc <;> rw [hpc] <;> decide
    · rw [SystemState.rank, SystemState.rank, ProducerThread.rank_eq hpc']
      exact hcost
  | count ha hup' hconsumers hproducers hmain hspares hlen =>
    exact .main (unmoved_of_stats hspares.calls hconsumers hproducers) hlen
      (by rw [hmain, ha]; exact Nat.le_refl _)
  | main hqueue hconsumers hproducers hmain =>
    refine .main (unmoved_of_stats (fun t _ => by rw [hqueue]) hconsumers hproducers)
      (by rw [hqueue]) ?_
    rcases hmain with ⟨hworks, hmain⟩ | ⟨hlt, -⟩
    · rw [hworks, hmain]
      exact Nat.le_refl _
    · omega
  | crash hcrash => exact absurd (hup.symm.trans hcrash) (by decide)

theorem SystemState.budget_of_not_crashed {conf : SystemConf} {s : SystemState}
    (h : s.queue.crashed = false) :
    s.budget conf = s.main.rank + (conf.threads.map s.rank).sum + 10 *
      (routed s.queue.history).length := by
  rw [SystemState.budget, h, if_neg Bool.false_ne_true]

theorem Payment.budget_le {conf : SystemConf} {s s' : SystemState} {n : Nat}
    (h : Payment conf s s' n) (hoff : s.consumeState = false) (hup : s.queue.crashed = false)
    (hup' : s'.queue.crashed = false) : s'.budget conf + n ≤ s.budget conf := by
  rw [SystemState.budget_of_not_crashed hup, SystemState.budget_of_not_crashed hup']
  cases h with
  | thread ht hothers hmain hcost =>
    have hsum := sum_map_of_eq_off conf.nodup_threads ht fun t' ht' => (hothers t' ht').rank_eq
    have hcost := hcost hoff
    rw [hmain]
    omega
  | main hothers hlen hcost =>
    have hsame : conf.threads.map s'.rank = conf.threads.map s.rank :=
      List.map_congr_left fun t _ => (hothers t).rank_eq
    rw [hsame, hlen]
    omega

theorem SystemState.le_budget {conf : SystemConf} {s : SystemState} (hup : s.queue.crashed = false)
    {t : Thread} (ht : t ∈ conf.threads) : s.rank t ≤ s.budget conf := by
  rw [SystemState.budget_of_not_crashed hup]
  have hle := List.single_le_sum (fun n _ => Nat.zero_le n) _ (List.mem_map_of_mem (f := s.rank) ht)
  omega

/-- After the stop no action raises the budget, and every working action lowers it. -/
theorem Turn.budget_le {conf : SystemConf} {s s' : SystemState} {a : SystemAction}
    (h : Turn conf s a s') (hpost : Posted conf s) (hoff : s.consumeState = false)
    (hup : s.queue.crashed = false) : s'.budget conf + a.works.toNat ≤ s.budget conf := by
  cases hup' : s'.queue.crashed with
  | false => exact (h.payment hpost hup').budget_le hoff hup hup'
  | true =>
    rw [SystemState.budget, hup', if_pos rfl, Nat.zero_add]
    cases h with
    | consumer _ _ _ _ hqueue | producer _ _ _ _ hqueue =>
      rw [hqueue, QueueState.emit_crashed, hup] at hup'
      cases hup'
    | main hqueue =>
      rw [hqueue, hup] at hup'
      cases hup'
    | add _ hup'' | get _ hup'' | count _ hup'' => exact absurd (hup''.symm.trans hup') (by decide)
    | @crash t hcrash ht =>
      cases hworks : a.works with
      | false => exact Nat.zero_le _
      | true =>
        obtain ⟨hmem, hpos⟩ := ht hworks
        exact Nat.le_trans hpos (SystemState.le_budget hup hmem)

/-- A consumer that has not exited moves to its next post. -/
theorem Posted.of_consumer {conf : SystemConf} {s s' : SystemState} (h : Posted conf s) {i : Nat}
    (hlive : (s.consumers i).pc ≠ .exited) (hself : s'.AtPost (.consumer i))
    (hcall : ∀ t, t ≠ .consumer i → (s'.queue.call t).wakeUp = (s.queue.call t).wakeUp)
    (hc : ∀ i' ≠ i, s'.consumers i' = s.consumers i') (hp : s'.producers = s.producers)
    (hmain : s'.main = s.main) : Posted conf s' := by
  refine ⟨fun t => ?_, fun i' hi' => ?_, by rw [hp]; exact h.producer, Or.inl ?_⟩
  · by_cases ht : t = .consumer i
    · rwa [ht]
    · exact (unmoved_of_consumer hcall hc hp ht).atPost (h.post t)
  · by_cases heq : i' = i
    · exact heq ▸ h.consumer i hlive
    · rw [hc i' heq] at hi'
      exact h.consumer i' hi'
  -- while a consumer lives, `main` waits for it
  · exact hmain.trans (h.main.resolve_right fun hgone => hlive (hgone i))

/-- A producer that has not exited moves to its next post. -/
theorem Posted.of_producer {conf : SystemConf} {s s' : SystemState} (h : Posted conf s) {j : Nat}
    (hlive : (s.producers j).pc ≠ .exited) (hself : s'.AtPost (.producer j))
    (hcall : ∀ t, t ≠ .producer j → (s'.queue.call t).wakeUp = (s.queue.call t).wakeUp)
    (hp : ∀ j' ≠ j, s'.producers j' = s.producers j') (hc : s'.consumers = s.consumers)
    (hmain : s'.main = s.main) : Posted conf s' := by
  refine ⟨fun t => ?_, by rw [hc]; exact h.consumer, fun j' hj' => ?_,
    by rw [hmain, hc]; exact h.main⟩
  · by_cases ht : t = .producer j
    · rwa [ht]
    · exact (unmoved_of_producer hcall hp hc ht).atPost (h.post t)
  · by_cases heq : j' = j
    · exact heq ▸ h.producer j hlive
    · rw [hp j' heq] at hj'
      exact h.producer j' hj'

/-- Nobody moves but `main`. -/
theorem Posted.of_stats {conf : SystemConf} {s s' : SystemState} (h : Posted conf s)
    (hcall : ∀ t, t ≠ .stats → (s'.queue.call t).wakeUp = (s.queue.call t).wakeUp)
    (hc : s'.consumers = s.consumers) (hp : s'.producers = s.producers)
    (hmain : s'.main = s.main ∨ ∀ i < conf.consumers, (s.consumers i).pc = .exited) :
    Posted conf s' := by
  refine ⟨fun t => (unmoved_of_stats hcall hc hp t).atPost (h.post t), by rw [hc]; exact h.consumer,
    by rw [hp]; exact h.producer, ?_⟩
  rw [hc]
  rcases hmain with hmain | hgone
  · rw [hmain]
    exact h.main
  · exact Or.inr fun i => by_contra fun hlive => hlive (hgone i (h.consumer i hlive))

/-- The threads stay at their posts, as long as the process is alive. -/
theorem Turn.posted {conf : SystemConf} {s s' : SystemState} {a : SystemAction}
    (h : Turn conf s a s') (hpost : Posted conf s) (hup : s'.queue.crashed = false) :
    Posted conf s' := by
  cases h with
  | @consumer i c evs hlive hout hpc hlocal hqueue hconsumers hproducers hmain hrank =>
    refine hpost.of_consumer hlive ?_ (fun t _ => by rw [hqueue]; rfl) (fun i' hi' => ?_)
      hproducers hmain
    · rw [SystemState.AtPost, hconsumers, Function.update_self, if_neg hpc, hqueue]
      exact hout
    · rw [hconsumers, Function.update_of_ne hi']
  | @producer j p evs hlive hout hpc hlocal hqueue hproducers hconsumers hmain hrank =>
    refine hpost.of_producer hlive ?_ (fun t _ => by rw [hqueue]; rfl) (fun j' hj' => ?_)
      hconsumers hmain
    · rw [SystemState.AtPost, hproducers, Function.update_self, if_neg hpc, hqueue]
      exact hout
    · rw [hproducers, Function.update_of_ne hj']
  | @add i b ha hup' hpc hpc' hothers hproducers hmain hspares hin hcost =>
    refine hpost.of_consumer ?_ ?_ hspares.calls hothers hproducers hmain
    · rcases hpc with hpc | hpc <;> rw [hpc] <;> decide
    · rwa [SystemState.AtPost, if_pos hpc']
  | @get j b ha hup' hpc hpc' hothers hconsumers hmain hspares hin hcost =>
    refine hpost.of_producer ?_ ?_ hspares.calls hothers hconsumers hmain
    · rcases hpc with hpc | hpc <;> rw [hpc] <;> decide
    · rwa [SystemState.AtPost, if_pos hpc']
  | count ha hup' hconsumers hproducers hmain hspares hlen =>
    exact hpost.of_stats hspares.calls hconsumers hproducers (Or.inl hmain)
  | main hqueue hconsumers hproducers hmain =>
    exact hpost.of_stats (fun t _ => by rw [hqueue]) hconsumers hproducers
      (hmain.imp And.right And.right)
  | crash hcrash => exact absurd (hup.symm.trans hcrash) (by decide)

/-! ### Runs -/

theorem posted_init (conf : SystemConf) : Posted conf (SystemState.init conf) := by
  refine ⟨fun t => ?_, fun i hi => ?_, fun j hj => ?_, Or.inl rfl⟩
  · cases t with
    | consumer i =>
      have hpc : ((SystemState.init conf).consumers i).pc ≠ .adding := by
        simp only [SystemState.init]
        split <;> decide
      rw [SystemState.AtPost, if_neg hpc]
      rfl
    | producer j =>
      have hpc : ((SystemState.init conf).producers j).pc ≠ .getting := by
        simp only [SystemState.init]
        split <;> decide
      rw [SystemState.AtPost, if_neg hpc]
      rfl
    | stats => trivial
  · by_contra hle
    exact hi (if_neg hle)
  · by_contra hle
    exact hj (if_neg hle)

/-- In every reached state the threads are at their posts, unless the process is gone. -/
theorem posted_of_exec {conf : SystemConf} {acts : List SystemAction} {s : SystemState}
    (h : exec (SystemState.step conf) (SystemState.init conf) acts = some s)
    (hup : s.queue.crashed = false) : Posted conf s := by
  refine exec_induction (P := fun _ (s : SystemState) => s.queue.crashed = false → Posted conf s)
    (fun _ => posted_init conf) ?_ h hup
  intro acts t a t' ht hpost hst hup'
  obtain ⟨ps, hinv⟩ := queueInv_of_system_exec ht
  have hpost := hpost (systemStep_of_step hst).1
  exact (turn_of_step hpost hinv hst).posted hpost hup'

/-- A signal is not taken back. -/
theorem SystemStep.consumeState_eq_false {conf : SystemConf} {s s' : SystemState} {a : SystemAction}
    (h : SystemStep conf s a s') (hoff : s.consumeState = false) : s'.consumeState = false := by
  cases h <;> first | exact hoff | rfl

/-- The state is reached by some run, and `consume_state` is cleared. -/
def Stopped (conf : SystemConf) (s : SystemState) : Prop :=
  (∃ acts, exec (SystemState.step conf) (SystemState.init conf) acts = some s) ∧
  s.consumeState = false

theorem Stopped.step {conf : SystemConf} {s s' : SystemState} {a : SystemAction}
    (h : Stopped conf s) (hst : s.step conf a = some s') :
    Stopped conf s' ∧ Posted conf s ∧ Turn conf s a s' := by
  obtain ⟨⟨acts, hexec⟩, hoff⟩ := h
  obtain ⟨hup, hstep, -⟩ := systemStep_of_step hst
  obtain ⟨ps, hinv⟩ := queueInv_of_system_exec hexec
  have hpost := posted_of_exec hexec hup
  exact ⟨⟨⟨acts ++ [a], exec_concat_eq_some.mpr ⟨s, hexec, hst⟩⟩, hstep.consumeState_eq_false hoff⟩,
    hpost, turn_of_step hpost hinv hst⟩

/-- The action is a call of `consumer_consume` by the consumer `i`. -/
def SystemAction.consumes (i : Nat) : SystemAction → Bool
  | .consume i' _ => i' = i
  | _ => false

theorem ConsumerThread.rank_le (c : ConsumerThread) (call : Call Nat Table) : c.rank call ≤ 17 := by
  unfold ConsumerThread.rank
  split
  · decide
  · decide
  · decide
  · cases call <;> simp [Call.addRank]
  all_goals decide

theorem ProducerThread.rank_le (p : ProducerThread) (call : Call Nat Table) : p.rank call ≤ 12 := by
  unfold ProducerThread.rank
  split
  · cases call with
    | getReturned msg ret => cases ret <;> simp [Call.getRank]
    | _ => simp [Call.getRank]
  all_goals first | decide | skip
  split <;> decide

/-- After the stop no consumer comes to `consumer_consume` any more. -/
theorem Turn.consume_of_consume {conf : SystemConf} {s s' : SystemState} {a : SystemAction}
    (h : Turn conf s a s') (hoff : s.consumeState = false) (hup : s'.queue.crashed = false)
    {i : Nat} (hpc : (s'.consumers i).pc = .consume) : (s.consumers i).pc = .consume := by
  cases h with
  | @consumer i' c evs hlive hout hne hlocal hqueue hconsumers hproducers hmain hrank =>
    rw [hconsumers] at hpc
    by_cases heq : i = i'
    · subst heq
      rw [Function.update_self] at hpc
      -- nothing ranks above it
      have hlt := hrank hoff _ rfl
      rw [ConsumerThread.rank_eq hpc] at hlt
      exact absurd hlt (Nat.not_lt.mpr (ConsumerThread.rank_le _ _))
    · rwa [Function.update_of_ne heq] at hpc
  | @add i' b ha hup' hpc₀ hpc' hothers =>
    by_cases heq : i = i'
    · rw [heq, hpc'] at hpc
      cases hpc
    · rwa [hothers i heq] at hpc
  | producer _ _ _ _ _ _ hconsumers | get _ _ _ _ _ hconsumers | count _ _ hconsumers
  | main _ hconsumers =>
    rwa [hconsumers] at hpc
  | crash hcrash => exact absurd (hup.symm.trans hcrash) (by decide)

/-- A call of `consumer_consume` starts there and ends elsewhere. -/
theorem SystemStep.consume_pc {conf : SystemConf} {s s' : SystemState} {i : Nat} {r : ConsumeResult}
    (h : SystemStep conf s (.consume i r) s') :
    (s.consumers i).pc = .consume ∧ (s'.consumers i).pc ≠ .consume := by
  cases h with
  | consumeFail hpc => exact ⟨hpc, by simp [SystemState.setConsumer]⟩
  | @consume i r msg evs hpc hfits hmsg =>
    refine ⟨hpc, ?_⟩
    cases msg.data <;> simp [SystemState.setConsumer]

/-- The budget for calls of `consumer_consume`. -/
def SystemState.consumesLeft (i : Nat) (s : SystemState) : Nat :=
  if s.queue.crashed = false ∧ (s.consumers i).pc = .consume then 1 else 0

theorem Turn.consumesLeft_le {conf : SystemConf} {s s' : SystemState} {a : SystemAction}
    (h : Turn conf s a s') (hstep : SystemStep conf s a s') (hoff : s.consumeState = false)
    (hup : s.queue.crashed = false) (i : Nat) :
    s'.consumesLeft i + (a.consumes i).toNat ≤ s.consumesLeft i := by
  by_cases hleft : s'.queue.crashed = false ∧ (s'.consumers i).pc = .consume
  · have hpc := h.consume_of_consume hoff hleft.1 hleft.2
    rw [SystemState.consumesLeft, if_pos hleft, SystemState.consumesLeft, if_pos ⟨hup, hpc⟩]
    cases a with
    | consume i' r =>
      by_cases heq : i' = i
      · subst heq
        exact absurd hleft.2 hstep.consume_pc.2
      · simp [SystemAction.consumes, heq]
    | _ => exact Nat.le_refl _
  · rw [SystemState.consumesLeft, if_neg hleft, Nat.zero_add]
    cases a with
    | consume i' r =>
      by_cases heq : i' = i
      · subst heq
        rw [SystemState.consumesLeft, if_pos ⟨hup, hstep.consume_pc.1⟩]
        exact Bool.toNat_le _
      · simp [SystemAction.consumes, heq]
    | _ => exact Nat.zero_le _

theorem SystemState.budget_le (conf : SystemConf) (s : SystemState) :
    s.budget conf ≤
      17 * conf.consumers + 12 * conf.marks.length + 10 * (routed s.queue.history).length + 2 := by
  unfold SystemState.budget
  split
  · exact Nat.zero_le _
  · have hmain : s.main.rank ≤ 2 := by
      cases s.main <;> decide
    have hconsumers :=
      List.sum_le_card_nsmul ((List.range conf.consumers).map fun i => s.rank (.consumer i)) 17
      (List.forall_mem_map.mpr fun i _ => (s.consumers i).rank_le _)
    have hproducers := List.sum_le_card_nsmul
      ((List.range conf.marks.length).map fun j => s.rank (.producer j)) 12
      (List.forall_mem_map.mpr fun j _ => (s.producers j).rank_le _)
    rw [List.length_map, List.length_range, Nat.nsmul_eq_mul] at hconsumers hproducers
    rw [SystemConf.threads, List.map_append, List.sum_append, List.map_map, List.map_map]
    simp only [Function.comp_def]
    omega

/-- Once `consume_state` is cleared, every consumer calls `consumer_consume` at most once more.  All
the threads together perform a bounded number of actions, apart from wake-ups of waiting threads,
looks at the counters and further signals: the bound grows with the threads and with the messages in
the queue. -/
theorem work_after_stop (conf : SystemConf) (acts : List SystemAction) (s : SystemState)
    (h : exec (SystemState.step conf) (SystemState.init conf) acts = some s)
    (hoff : s.consumeState = false) (acts' : List SystemAction) (s' : SystemState)
    (h' : exec (SystemState.step conf) s acts' = some s') :
    (∀ i, acts'.countP (SystemAction.consumes i) ≤ 1) ∧
      acts'.countP SystemAction.works ≤
        17 * conf.consumers + 12 * conf.marks.length + 10 * (routed s.queue.history).length +
          2 := by
  have hstopped : Stopped conf s := ⟨⟨acts, h⟩, hoff⟩
  refine ⟨fun i => ?_, ?_⟩
  · have hstep : ∀ t a t', Stopped conf t → t.step conf a = some t' → Stopped conf t' ∧
        t'.consumesLeft i + (a.consumes i).toNat ≤ t.consumesLeft i := by
      intro t a t' ht hst
      obtain ⟨ht', -, hturn⟩ := ht.step hst
      obtain ⟨hup, hstep, -⟩ := systemStep_of_step hst
      exact ⟨ht', hturn.consumesLeft_le hstep ht.2 hup i⟩
    obtain ⟨-, hle⟩ := exec_budget hstep hstopped h'
    have hone : s.consumesLeft i ≤ 1 := by
      unfold SystemState.consumesLeft
      split <;> decide
    omega
  · have hstep : ∀ t a t', Stopped conf t → t.step conf a = some t' → Stopped conf t' ∧
        t'.budget conf + a.works.toNat ≤ t.budget conf := by
      intro t a t' ht hst
      obtain ⟨ht', hpost, hturn⟩ := ht.step hst
      exact ⟨ht', hturn.budget_le hpost ht.2 (systemStep_of_step hst).1⟩
    obtain ⟨-, hle⟩ := exec_budget hstep hstopped h'
    have hbound := s.budget_le conf
    omega

/-- The signal arrives while the one consumer returns from `queue_add` and the one producer has
written its first message. -/
theorem work_after_stop_relay :
    ∃ s s', exec (SystemState.step relayConf) (SystemState.init relayConf) (relayRun ++ [.stop]) =
      some s ∧
      exec (SystemState.step relayConf) s [.addReturned 0, .consumerHead 0, .callback 0 true,
        .release 0] = some s' ∧
      [SystemAction.addReturned 0, .consumerHead 0, .callback 0 true,
        .release 0].countP SystemAction.works ≤
        17 * 1 + 12 * 1 + 10 * 1 + 2 := by
  have hrun : ∃ s,
      exec (SystemState.step relayConf) (SystemState.init relayConf) (relayRun ++ [.stop]) =
        some s ∧
      s.consumeState = false ∧ (routed s.queue.history).length = 1 ∧
      (exec (SystemState.step relayConf) s
        [.addReturned 0, .consumerHead 0, .callback 0 true, .release 0]).isSome = true :=
    exists_of_exec_any (by decide) fun _ _ h => h
  obtain ⟨s, hs, hoff, hlen, hsome⟩ := hrun
  obtain ⟨s', hs'⟩ := Option.isSome_iff_exists.mp hsome
  have hbound := (work_after_stop relayConf _ s hs hoff _ s' hs').2
  rw [hlen] at hbound
  exact ⟨s, s', hs, hs', hbound⟩

end Schaufel
