import Mathlib.Data.Set.Basic
import Schaufel.Queue.Effects

/-!
# No wake-up is lost

`queue_add` broadcasts only when a counter leaves zero, and `queue_get` waits in two stages on two
different condition variables.  A condition variable is read here as the set of threads that wait on
it and were not signalled since: `QueueState.waiters`.  The invariant `NoLostWakeup` says that such
a thread has a reason to wait, `Justified`, in the routed sequence of the moment.

The argument has two halves.  The acting thread goes to sleep right after it has seen the reason
(`FifoStep.justified`).  The other threads lose their reason only through a step that broadcasts on
the condition variable they wait on (`QueueStep.woken`).
-/

namespace Schaufel

variable {ι δ μ ε : Type} [DecidableEq ι]

/-- The threads that wait on a condition variable and were not signalled since. -/
def QueueState.waiters (s : QueueState ι δ μ) (cond : Cond) : Set ι :=
  {t | (s.call t).waitsOn = some (cond, false)}

/-- The reason to wait on a condition variable when the entries `es` wait. -/
def Justified (es : List (Entry δ μ)) : Cond → Prop
  | .producer => es = []
  | .xproducer m => ∀ e ∈ es, e.mark ≠ m
  | .consumer => maxQueueSize < es.length
  | .xconsumer _ => True

/-- Every thread that waits unsignalled has its reason to. -/
def NoLostWakeup (s : QueueState ι δ μ) : Prop :=
  ∀ cond, ∀ t ∈ s.waiters cond, Justified (routed s.history) cond

/-- A broadcast takes the waiters of its own condition variable and leaves the others waiting. -/
theorem Call.waitsOn_signal {c : Call δ μ} {cond cond' : Cond}
    (h : (c.signal cond').waitsOn = some (cond, false)) :
    c.waitsOn = some (cond, false) ∧ cond ≠ cond' := by
  unfold Call.signal at h
  split at h
  · cases c <;> simp [Call.wakeUp, Call.waitsOn] at h
  · rename_i hne
    refine ⟨h, ?_⟩
    rintro rfl
    exact hne (by rw [h]; rfl)

omit [DecidableEq ι] in
theorem QueueState.waiters_broadcastIf {s : QueueState ι δ μ} {b : Bool} {cond cond' : Cond} {t : ι}
    (h : t ∈ (s.broadcastIf b cond').waiters cond) :
    t ∈ s.waiters cond ∧ (b = true → cond ≠ cond') := by
  cases b with
  | false => exact ⟨h, fun hb => absurd hb Bool.false_ne_true⟩
  | true =>
    obtain ⟨hmem, hne⟩ := Call.waitsOn_signal h
    exact ⟨hmem, fun _ => hne⟩

/-! ### The acting thread -/

omit [DecidableEq ι] in
/-- The thread that acts waits only for a reason it has just seen. -/
theorem FifoStep.justified {conf : QueueConf δ μ ε} {s s' : QueueState ι δ μ}
    {a : QueueAction ι δ μ ε} (h : FifoStep conf s s' a) (hs : NoLostWakeup s) {cond : Cond}
    (ht : a.thread ∈ s'.waiters cond) : Justified (routed s'.history) cond := by
  have hwait : (s'.call a.thread).waitsOn = some (cond, false) := ht
  cases h with
  | addNoMem hout hcall | addRefused hout hrun hcall | addAccepted hout hrun hcall
  | addFailed hfrom hcall | timedOut hfrom hcall | preget hfrom hrun hcall
  | pregetRefused hfrom hrun hcall =>
    rw [QueueAction.thread, hcall] at hwait
    cases hwait
  | addBlocked hfrom hfull hcall hheld hhist =>
    rw [hfrom.thread_eq, hcall] at hwait
    cases hwait
    rw [hhist]
    exact hfull
  | added hfrom hcall hhist =>
    rw [hfrom.thread_eq, hcall] at hwait
    cases hwait
  | getBlocked hfrom hempty hcall hhist =>
    rw [hfrom.thread_eq, hcall] at hwait
    cases hwait
    rw [hhist, routed_append_of_fifoOps_eq_nil hfrom.fifoOps_eq_nil]
    exact hempty
  | getXblocked hfrom hnone hcall hhist =>
    rw [hfrom.thread_eq, hcall] at hwait
    cases hwait
    rw [hhist, routed_append_of_fifoOps_eq_nil hfrom.fifoOps_eq_nil]
    exact hnone
  | taken hfrom hsplit hmark hold hrest hcall hhist =>
    rw [hfrom.thread_eq, hcall] at hwait
    cases hwait
  | crashed hfrom hnull hcrash hcall hhist =>
    rw [hfrom.thread_eq, hcall] at hwait
    rw [hhist, routed_append_of_fifoOps_eq_nil hfrom.fifoOps_eq_nil]
    exact hs cond _ hwait
  | counted hout hcall hhist =>
    rw [QueueAction.thread, hcall] at hwait
    rw [hhist, routed_append_of_fifoOps_eq_nil rfl]
    exact hs cond _ hwait

/-! ### The other threads -/

/-- A thread other than `t` that waits after a step has waited before it, and its reason to wait has
survived the step. -/
def StillWaits (t : ι) (s s' : QueueState ι δ μ) : Prop :=
  ∀ t' cond, t' ≠ t → t' ∈ s'.waiters cond →
    t' ∈ s.waiters cond ∧ (Justified (routed s.history) cond → Justified (routed s'.history) cond)

/-- Steps that signal nobody and leave the routed sequence alone. -/
theorem StillWaits.of_update {s s' : QueueState ι δ μ} {t : ι} {c : Call δ μ}
    {evs : List (Event ι δ μ)} (hcall : s'.call = Function.update s.call t c)
    (hhist : s'.history = s.history ++ evs) (hnil : fifoOps evs = []) : StillWaits t s s' := by
  intro t' cond ht' hmem
  have hmem' : (s'.call t').waitsOn = some (cond, false) := hmem
  rw [hcall, Function.update_of_ne ht'] at hmem'
  refine ⟨hmem', fun h => ?_⟩
  rwa [hhist, routed_append_of_fifoOps_eq_nil hnil]

theorem QueueState.mem_waiters_setCall {s : QueueState ι δ μ} {t t' : ι} {c : Call δ μ}
    {evs : List (Event ι δ μ)} {cond : Cond} (ht' : t' ≠ t) :
    t' ∈ ((s.setCall t c).emit evs).waiters cond ↔ t' ∈ s.waiters cond := by
  simp [waiters, Function.update_of_ne ht']

/-- The threads that sleep on after a message was linked. -/
theorem QueueState.waiters_linked {s : QueueState ι δ μ} {t t' : ι} {args msg : Message δ μ}
    {m : UInt32} {x : Xmark} {q : Queue δ μ} {cond : Cond} (ht' : t' ≠ t)
    (h : t' ∈ (s.linked t args msg m x q).waiters cond) :
    t' ∈ s.waiters cond ∧ (s.q.length = 0 → cond ≠ .producer) ∧
      (x.count = 0 → cond ≠ .xproducer m) := by
  obtain ⟨hmem, hx⟩ := waiters_broadcastIf ((mem_waiters_setCall ht').mp h)
  obtain ⟨hmem, hp⟩ := waiters_broadcastIf hmem
  exact ⟨hmem, fun h0 => hp (by simpa using h0), fun h0 => hx (by simpa using h0)⟩

/-- The threads that sleep on after a message was taken. -/
theorem QueueState.waiters_handed {s : QueueState ι δ μ} {t t' : ι} {msg : Message δ μ} {m : UInt32}
    {q : Queue δ μ} {cond : Cond} (ht' : t' ≠ t) (h : t' ∈ (s.handed t msg m q).waiters cond) :
    t' ∈ s.waiters cond ∧ cond ≠ .consumer := by
  obtain ⟨hmem, -⟩ := waiters_broadcastIf ((mem_waiters_setCall ht').mp h)
  obtain ⟨hmem, hc⟩ := waiters_broadcastIf hmem
  exact ⟨hmem, hc rfl⟩

/-- The count of a mark is zero exactly when no entry has the mark. -/
theorem Spells.count_eq_zero_iff {q : Queue δ μ} {ps : List Ptr} {es : List (Entry δ μ)}
    (hs : Spells q ps es) {m : UInt32} {x : Xmark} (hx : binFind q.xtree m = some x) :
    x.count = 0 ↔ ∀ e ∈ es, e.mark ≠ m := by
  rw [← hs.ofMark_eq_nil_iff m, (hs.xmark m x hx).count, Int.natCast_eq_zero,
    List.length_eq_zero_iff]

/-- `queue_add` signals whoever would lose the reason to wait. -/
theorem AddOutcome.stillWaits {s s' : QueueState ι δ μ} {ps : List Ptr} {t : ι}
    {args msg : Message δ μ} {p : Ptr} (hinv : QueueInv s ps)
    (hp : s.q.heap p = some ⟨msg, none, none, none⟩) (h : AddOutcome s t args p msg.mark s') :
    StillWaits t s s' := by
  cases h with
  | wait hlen => exact .of_update rfl (List.append_nil _).symm rfl
  | crash hcrash => exact fun t' cond _ hmem => ⟨hmem, id⟩
  | @link x n q hlen hx hn hq =>
    cases hp.symm.trans hn
    intro t' cond ht' hmem
    obtain ⟨hmem, hlength, hcount⟩ := QueueState.waiters_linked ht' hmem
    refine ⟨hmem, fun hjust => ?_⟩
    rw [QueueState.linked_history, routed_queued]
    cases cond with
    | producer =>
      have hempty : routed s.history = [] := hjust
      exact absurd rfl (hlength (by rw [hinv.spells.length, hempty]; rfl))
    | xproducer m =>
      have hnone : ∀ e ∈ routed s.history, e.mark ≠ m := hjust
      have hm : msg.mark ≠ m := by
        rintro rfl
        exact hcount ((hinv.spells.count_eq_zero_iff hx).mpr hnone) rfl
      intro e he
      rcases List.mem_append.mp he with he | he
      · exact hnone e he
      · rw [List.mem_singleton.mp he]
        exact hm
    | consumer =>
      have hfull : maxQueueSize < (routed s.history).length := hjust
      change maxQueueSize < ((routed s.history ++ [msg.entry]).length : Int)
      rw [List.length_append]
      omega
    | xconsumer m => trivial

/-- `queue_get` signals whoever would lose the reason to wait. -/
theorem GetOutcome.stillWaits {s s' : QueueState ι δ μ} {t : ι} {msg : Message δ μ}
    {x : Option UInt32} (h : GetOutcome s t msg x s') : StillWaits t s s' := by
  cases h with
  | wait hfirst => exact .of_update rfl (List.append_nil _).symm rfl
  | xwait hm hy hfirst => exact .of_update rfl (List.append_nil _).symm rfl
  | crash hcrash => exact fun t' cond _ hmem => ⟨hmem, id⟩
  | @take m y q msg' hm hy hfirst hq =>
    intro t' cond ht' hmem
    obtain ⟨hmem, hne⟩ := QueueState.waiters_handed ht' hmem
    refine ⟨hmem, fun hjust => ?_⟩
    rw [QueueState.handed_history, routed_delivered]
    cases cond with
    | producer =>
      have hempty : routed s.history = [] := hjust
      rw [hempty]
      rfl
    | xproducer m' =>
      have hnone : ∀ e ∈ routed s.history, e.mark ≠ m' := hjust
      exact fun e he => hnone e (List.mem_of_mem_eraseP he)
    | consumer => exact absurd rfl hne
    | xconsumer m' => trivial

/-- Whoever sleeps on after a step still has the reason to. -/
theorem QueueStep.stillWaits {conf : QueueConf δ μ ε} {s s' : QueueState ι δ μ} {ps : List Ptr}
    {a : QueueAction ι δ μ ε} (hinv : QueueInv s ps) (h : QueueStep conf s a s') :
    StillWaits a.thread s s' := by
  cases h with
  | addNoMem | addAccepted | lockNoMem | preget => exact .of_update rfl rfl (by simp)
  | timeout | xtimeout => exact .of_update rfl (List.append_nil _).symm rfl
  | addRefused | pregetRefused => exact .of_update rfl (List.append_assoc ..) (by simp)
  | lockCrash | xtimeoutCrash => exact fun t' cond _ hmem => ⟨hmem, id⟩
  | @lock t args p n alloc q s' hcall hp hx hadd =>
    have hok := hinv.call t
    rw [hcall] at hok
    obtain ⟨-, msg, hmsg⟩ := hok
    cases hp.symm.trans hmsg
    obtain ⟨hinv', -, -, hheap⟩ := hinv.of_xmarkFind t hx
    have hrest := hadd.stillWaits hinv' ((congrFun hheap p).trans hmsg)
    exact fun t' cond ht' hmem => hrest t' cond ht' hmem
  | @wakeAdd t args p m sig s' hcall hadd =>
    have hok := hinv.call t
    rw [hcall] at hok
    obtain ⟨-, ⟨msg, hmsg, rfl⟩, -⟩ := hok
    exact hadd.stillWaits hinv hmsg
  | getNoMem hout hx hget | get hout hx hget =>
    intro t' cond ht' hmem
    obtain ⟨hmem, hjust⟩ := hget.stillWaits t' cond ht' hmem
    refine ⟨hmem, fun h => hjust ?_⟩
    rwa [QueueState.emit_history, routed_append_of_fifoOps_eq_nil rfl]
  | count hout =>
    intro t' cond _ hmem
    refine ⟨hmem, fun h => ?_⟩
    rwa [QueueState.emit_history, routed_append_of_fifoOps_eq_nil rfl]
  | wakeGet hcall hget => exact hget.stillWaits
  | wakeXget hcall hget => exact hget.stillWaits

/-! ### The invariant -/

/-- Every step keeps the reasons of the waiting threads. -/
theorem NoLostWakeup.step {conf : QueueConf δ μ ε} {s s' : QueueState ι δ μ} {ps : List Ptr}
    {a : QueueAction ι δ μ ε} (hs : NoLostWakeup s) (hinv : QueueInv s ps)
    (h : QueueStep conf s a s') : NoLostWakeup s' := by
  intro cond t ht
  by_cases hta : t = a.thread
  · subst hta
    exact (hinv.step h).2.justified hs ht
  · obtain ⟨hmem, hjust⟩ := h.stillWaits hinv t cond hta ht
    exact hjust (hs cond t hmem)

/-- In every state a run reaches, an unsignalled waiter on `q->producer_cond` means an empty queue,
an unsignalled waiter on the `producer_cond` of a mark means that no message of the mark is queued,
and an unsignalled waiter on `q->consumer_cond` means a full queue. -/
theorem no_lost_wakeup (conf : QueueConf δ μ ε) (acts : List (QueueAction ι δ μ ε))
    (s : QueueState ι δ μ) (h : exec (QueueState.step conf) QueueState.init acts = some s) :
    ∃ ps, Spells s.q ps (routed s.history) ∧
      (∀ t ∈ s.waiters .producer, s.q.first = none) ∧
      (∀ m, ∀ t ∈ s.waiters (.xproducer m), ∀ e ∈ routed s.history, e.mark ≠ m) ∧
      ∀ t ∈ s.waiters .consumer, s.q.length > maxQueueSize := by
  have hboth : (∃ ps, QueueInv s ps) ∧ NoLostWakeup s := by
    refine exec_invariant (P := fun s => (∃ ps, QueueInv s ps) ∧ NoLostWakeup s)
      ⟨⟨[], queueInv_init⟩, ?_⟩ ?_ h
    · intro cond t ht
      cases ht
    · rintro s a s' ⟨⟨ps, hinv⟩, hs⟩ hstep
      have hq := (queueStep_of_step hstep).2
      exact ⟨(hinv.step hq).1.1, hs.step hinv hq⟩
  obtain ⟨⟨ps, hinv⟩, hs⟩ := hboth
  refine ⟨ps, hinv.spells, fun t ht => ?_, fun m t ht => hs _ t ht, fun t ht => ?_⟩
  · have hempty : routed s.history = [] := hs _ t ht
    have hentries := hinv.spells.entries
    rw [hempty, List.map_nil, List.map_eq_nil_iff] at hentries
    rw [hinv.spells.list.first, hentries]
    rfl
  · have hfull : maxQueueSize < (routed s.history).length := hs _ t ht
    rw [hinv.spells.length]
    exact hfull

/-- A getter that waits for the mark 7 while a message of the mark 8 is queued. -/
theorem no_lost_wakeup_other_mark :
    ∃ s : QueueState Bool Nat Nat,
      exec (QueueState.step (⟨[], []⟩ : QueueConf Nat Nat Unit)) QueueState.init
        [.add true ⟨some 5, 1, 8, none⟩ (some 0) (), .lock true true,
          .get false ⟨none, 0, 7, none⟩ true] = some s ∧
      false ∈ s.waiters (.xproducer 7) ∧ ∀ e ∈ routed s.history, e.mark ≠ 7 := by
  refine exists_of_exec_isSome rfl fun s hs => ?_
  have hmem : false ∈ s.waiters (.xproducer 7) := by
    cases hs
    rfl
  obtain ⟨ps, -, -, hmark, -⟩ := no_lost_wakeup _ _ s hs
  exact ⟨hmem, hmark 7 false hmem⟩

end Schaufel
