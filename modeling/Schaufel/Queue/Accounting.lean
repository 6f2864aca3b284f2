import Mathlib.Algebra.Order.Ring.Int
import Schaufel.Queue.Effects

/-!
# The counters of the queue

`queue_add` counts in `added`, `queue_get` in `delivered`, both in `length`.  `queue_added` and
`queue_delivered` reset what they have read, and `queue_get` sets `length` to 0 when it takes the
last message.

`Booking` says what a step does to the counters.  A `queue_add` that returns 0 has found at most
`MAX_QUEUE_SIZE` messages after its last wait, whatever the other threads did meanwhile, so `length`
never exceeds that by more than one.

## Main results

* `queue_accounting`: what the counters have and what was read from them adds up to the calls that
  succeeded.
* `counters_fit`: in a run of fewer than `2 ^ 63` steps the counters are numbers of type `int64_t`.
-/

namespace Schaufel

variable {ι δ μ ε : Type} [DecidableEq ι]

/-! ### What the calls of a run return -/

/-- `queue_add` has returned 0. -/
def Call.returnedZero : Call δ μ → Bool
  | .addReturned _ .ok => true
  | _ => false

/-- `queue_get` has taken a message out. -/
def Call.hasTaken : Call δ μ → Bool
  | .taken _ => true
  | _ => false

/-- The threads whose `queue_add` returns 0 with an action. -/
def zeroReturns (conf : QueueConf δ μ ε) (s : QueueState ι δ μ) (a : QueueAction ι δ μ ε) :
    List ι :=
  match a with
  | .lock t _ | .wake t _ =>
    if (s.step conf a).any (fun s' => (s'.call t).returnedZero) then [t] else []
  | _ => []

/-- The threads whose `queue_get` takes a message out with an action. -/
def takes (conf : QueueConf δ μ ε) (s : QueueState ι δ μ) (a : QueueAction ι δ μ ε) : List ι :=
  if (s.step conf a).any (fun s' => (s'.call a.thread).hasTaken) then [a.thread] else []

/-- What the functions that read a counter return with an action. -/
def reads (c : Counter) (s : QueueState ι δ μ) (a : QueueAction ι δ μ ε) : List Int :=
  match a with
  | .count _ c' => if c' = c then [s.q.read c] else []
  | _ => []

/-! ### What a step does to the counters -/

/-- The counters of two queues agree. -/
def SameCounters (q q' : Queue δ μ) : Prop :=
  q'.length = q.length ∧ q'.added = q.added ∧ q'.delivered = q.delivered

theorem SameCounters.trans {q₁ q₂ q₃ : Queue δ μ} (h : SameCounters q₁ q₂)
    (h' : SameCounters q₂ q₃) :
    SameCounters q₁ q₃ :=
  ⟨h'.1.trans h.1, h'.2.1.trans h.2.1, h'.2.2.trans h.2.2⟩

/-- The steps of the queue as entries in its books. -/
inductive Booking (s s' : QueueState ι δ μ) : QueueAction ι δ μ ε → Prop
  /-- `queue_add` returns 0. -/
  | added {t : ι} {a : QueueAction ι δ μ ε} (ha : (∃ alloc, a = .lock t alloc) ∨ a = .wake t false)
      (hcall : (s'.call t).returnedZero = true) (hroom : s.q.length ≤ maxQueueSize)
      (hlength : s'.q.length = s.q.length + 1) (hadded : s'.q.added = s.q.added + 1)
      (hdelivered : s'.q.delivered = s.q.delivered) : Booking s s' a
  /-- `queue_get` takes a message out. -/
  | taken {t : ι} {a : QueueAction ι δ μ ε}
      (ha : (∃ msg alloc, a = .get t msg alloc) ∨ a = .wake t false)
      (hcall : (s'.call t).hasTaken = true) (hlength : s'.q.length = s.q.length - 1)
      (hadded : s'.q.added = s.q.added) (hdelivered : s'.q.delivered = s.q.delivered + 1) :
      Booking s s' a
  /-- A counter is read. -/
  | counted {t : ι} {c : Counter} (hcall : (s'.call t).hasTaken = false) (hq : s'.q = s.q.reset c) :
      Booking s s' (.count t c)
  /-- Nothing is counted. -/
  | silent {a : QueueAction ι δ μ ε} (ha : ∀ t c, a ≠ .count t c)
      (htaken : (s'.call a.thread).hasTaken = false)
      (hzero : ∀ t, (∃ alloc, a = .lock t alloc) ∨ (∃ timeout, a = .wake t timeout) →
        (s'.call t).returnedZero = false)
      (hsame : SameCounters s.q s'.q) : Booking s s' a

namespace Queue

variable {q q' : Queue δ μ} {p : Ptr} {m : UInt32}

theorem modifyNode_counters {f : MessageList δ μ → MessageList δ μ}
    (h : q.modifyNode p f = some q') : SameCounters q q' := by
  obtain ⟨heap, -, rfl⟩ := Option.map_eq_some_iff.mp h
  exact ⟨rfl, rfl, rfl⟩

theorem xmarkFind_counters {alloc : Bool} (h : q.xmarkFind m alloc = some q') :
    SameCounters q q' := by
  unfold xmarkFind at h
  split at h
  · obtain rfl := Option.some.inj h
    exact ⟨rfl, rfl, rfl⟩
  · split_ifs at h
    obtain rfl := Option.some.inj h
    exact ⟨rfl, rfl, rfl⟩

theorem linkXmark_counters (h : q.linkXmark p m = some q') : SameCounters q q' := by
  obtain ⟨x, -, h⟩ := Option.bind_eq_some_iff.mp h
  split at h
  · obtain rfl := Option.some.inj h
    exact ⟨rfl, rfl, rfl⟩
  · obtain ⟨q₁, hq₁, h⟩ := Option.bind_eq_some_iff.mp h
    obtain rfl := Option.some.inj h
    obtain ⟨hlength, hadded, hdelivered⟩ := modifyNode_counters hq₁
    exact ⟨hlength, hadded, hdelivered⟩

theorem linkGlobal_counters (h : q.linkGlobal p = some q') : SameCounters q q' := by
  unfold linkGlobal at h
  split at h
  · obtain rfl := Option.some.inj h
    exact ⟨rfl, rfl, rfl⟩
  · obtain ⟨q₁, hq₁, h⟩ := Option.bind_eq_some_iff.mp h
    obtain ⟨q₂, hq₂, h⟩ := Option.bind_eq_some_iff.mp h
    obtain rfl := Option.some.inj h
    obtain ⟨hlength, hadded, hdelivered⟩ :=
      (modifyNode_counters hq₁).trans (modifyNode_counters hq₂)
    exact ⟨hlength, hadded, hdelivered⟩

/-- A message that is linked is counted once. -/
theorem link_counters (h : q.link p m = some q') :
    q'.length = q.length + 1 ∧ q'.added = q.added + 1 ∧ q'.delivered = q.delivered := by
  obtain ⟨q₁, hq₁, h⟩ := Option.bind_eq_some_iff.mp h
  obtain ⟨q₂, hq₂, h⟩ := Option.bind_eq_some_iff.mp h
  obtain rfl := Option.some.inj h
  obtain ⟨hlength, hadded, hdelivered⟩ := (linkXmark_counters hq₁).trans (linkGlobal_counters hq₂)
  exact ⟨congrArg (· + 1) hlength, congrArg (· + 1) hadded, hdelivered⟩

theorem unlinkGlobal_counters {next prev : Option Ptr} (h : q.unlinkGlobal next prev = some q') :
    SameCounters q q' := by
  obtain ⟨q₁, hq₁, h⟩ := Option.bind_eq_some_iff.mp h
  have hnext : SameCounters q q₁ := by
    unfold relinkNext at hq₁
    split at hq₁
    · exact modifyNode_counters hq₁
    · obtain rfl := Option.some.inj hq₁
      exact ⟨rfl, rfl, rfl⟩
  have hprev : SameCounters q₁ q' := by
    unfold relinkPrev at h
    split at h
    · exact modifyNode_counters h
    · obtain rfl := Option.some.inj h
      exact ⟨rfl, rfl, rfl⟩
  exact hnext.trans hprev

/-- A message that is taken out is counted once. -/
theorem take_counters {msg msg' : Message δ μ} (h : q.take m msg = some (q', msg')) :
    q'.added = q.added ∧ q'.delivered = q.delivered + 1 := by
  obtain ⟨x, -, h⟩ := Option.bind_eq_some_iff.mp h
  obtain ⟨firstrec, -, h⟩ := Option.bind_eq_some_iff.mp h
  obtain ⟨r, -, h⟩ := Option.bind_eq_some_iff.mp h
  obtain ⟨q₁, hq₁, h⟩ := Option.bind_eq_some_iff.mp h
  obtain ⟨r', -, h⟩ := Option.bind_eq_some_iff.mp h
  obtain ⟨-, hadded, hdelivered⟩ := unlinkGlobal_counters hq₁
  obtain ⟨rfl, -⟩ := Prod.mk.inj (Option.some.inj h)
  have hsettle : (q₁.settle m).added = q₁.added ∧ (q₁.settle m).delivered = q₁.delivered + 1 := by
    unfold settle
    dsimp only
    split_ifs
    · exact ⟨rfl, rfl⟩
    · exact ⟨rfl, rfl⟩
  exact ⟨hsettle.1.trans hadded, hsettle.2.trans (congrArg (· + 1) hdelivered)⟩

end Queue

variable {conf : QueueConf δ μ ε} {s s' : QueueState ι δ μ} {a : QueueAction ι δ μ ε}

/-- A thread that holds a node has not returned. -/
theorem Call.of_node {c : Call δ μ} {p : Ptr} (h : c.node = some p) :
    c.hasTaken = false ∧ c.returnedZero = false := by
  cases c with
  | adding | addWait => exact ⟨rfl, rfl⟩
  | _ => cases h

omit [DecidableEq ι] in
/-- A step behind which the acting thread is in a frame that reports nothing. -/
theorem booking_silent {t : ι} (ht : a.thread = t) (ha : ∀ t c, a ≠ .count t c)
    (hquiet : (s'.call t).hasTaken = false ∧ (s'.call t).returnedZero = false)
    (hsame : SameCounters s.q s'.q) : Booking s s' a := by
  refine .silent ha (ht ▸ hquiet.1) ?_ hsame
  rintro t' (⟨alloc, rfl⟩ | ⟨timeout, rfl⟩)
  · obtain rfl : t' = t := ht
    exact hquiet.2
  · obtain rfl : t' = t := ht
    exact hquiet.2

/-- The books behind the lock of `queue_add`; the state `s₀` before the lock has the same
counters. -/
theorem AddOutcome.booking {s₀ : QueueState ι δ μ} {t : ι} {args : Message δ μ} {p : Ptr}
    {m : UInt32} (h : AddOutcome s t args p m s')
    (ha : (∃ alloc, a = .lock t alloc) ∨ a = .wake t false) (hcall : (s.call t).node = some p)
    (hsame : SameCounters s₀.q s.q) : Booking s₀ s' a := by
  have hthread : a.thread = t ∧ ∀ t c, a ≠ .count t c := by
    rcases ha with ⟨alloc, rfl⟩ | rfl <;> simp [QueueAction.thread]
  obtain ⟨hlength₀, hadded₀, hdelivered₀⟩ := hsame
  cases h with
  | wait hlen =>
    have hframe : ((s.setCall t (.addWait args p m false)).call t) = .addWait args p m false := by
      simp
    apply booking_silent hthread.1 hthread.2
    · rw [hframe]
      exact ⟨rfl, rfl⟩
    · exact ⟨hlength₀, hadded₀, hdelivered₀⟩
  | @link x n q hlen hx hn hq =>
    obtain ⟨hlength, hadded, hdelivered⟩ := Queue.link_counters hq
    have hqueue : (s.linked t args n.msg m x q).q = q := by simp [QueueState.linked]
    apply Booking.added ha
    · simp [QueueState.linked, Call.returnedZero]
    · exact hlength₀ ▸ hlen
    · rw [hqueue, hlength, hlength₀]
    · rw [hqueue, hadded, hadded₀]
    · rw [hqueue, hdelivered, hdelivered₀]
  | crash h =>
    exact booking_silent hthread.1 hthread.2 (Call.of_node hcall) ⟨hlength₀, hadded₀, hdelivered₀⟩

/-- The books behind the lock of `queue_get`; `length` counts the messages that wait. -/
theorem GetOutcome.booking {s₀ : QueueState ι δ μ} {t : ι} {msg : Message δ μ} {x : Option UInt32}
    {ps : List Ptr} {es : List (Entry δ μ)} (h : GetOutcome s t msg x s') (hs : Spells s.q ps es)
    (ha : (∃ alloc, a = .get t msg alloc) ∨ a = .wake t false)
    (hcall : (s.call t).hasTaken = false)
    (hzero : a = .wake t false → (s.call t).returnedZero = false) (hsame : SameCounters s₀.q s.q) :
    Booking s₀ s' a := by
  have hthread : a.thread = t ∧ ∀ t c, a ≠ .count t c := by
    rcases ha with ⟨alloc, rfl⟩ | rfl <;> simp [QueueAction.thread]
  cases h with
  | wait hfirst =>
    apply booking_silent hthread.1 hthread.2
    · simp [Call.hasTaken, Call.returnedZero]
    · exact hsame
  | xwait hm hy hfirst =>
    apply booking_silent hthread.1 hthread.2
    · simp [Call.hasTaken, Call.returnedZero]
    · exact hsame
  | @take m y q msg' hm hy hfirst hq =>
    obtain ⟨q', ps', e, es₁, es₂, rfl, -, -, htake, hs', -⟩ := take_spec hs hy hfirst msg
    obtain ⟨rfl, -⟩ := Prod.mk.inj (Option.some.inj (htake.symm.trans hq))
    obtain ⟨hadded, hdelivered⟩ := Queue.take_counters hq
    have hqueue : (s.handed t msg' m q').q = q' := by simp [QueueState.handed]
    have hlength : q'.length = s.q.length - 1 := by
      rw [hs'.length, hs.length]
      simp only [List.length_append, List.length_cons]
      omega
    have hgot : (∃ msg alloc, a = .get t msg alloc) ∨ a = .wake t false := by
      rcases ha with ⟨alloc, hget⟩ | hwake
      · exact .inl ⟨msg, alloc, hget⟩
      · exact .inr hwake
    apply Booking.taken hgot
    · simp [QueueState.handed, Call.hasTaken]
    · rw [hqueue, hlength, hsame.1]
    · rw [hqueue, hadded, hsame.2.1]
    · rw [hqueue, hdelivered, hsame.2.2]
  | crash h =>
    refine .silent hthread.2 (hthread.1 ▸ hcall) ?_ hsame
    rintro t' (⟨alloc, rfl⟩ | ⟨timeout, rfl⟩)
    · rcases ha with ⟨alloc', h⟩ | h <;> cases h
    · rcases ha with ⟨alloc', h⟩ | h
      · cases h
      · cases h
        exact hzero rfl

/-- Every step keeps the books. -/
theorem QueueStep.booking {ps : List Ptr} (h : QueueStep conf s a s') (hinv : QueueInv s ps) :
    Booking s s' a := by
  have hrefl : SameCounters s.q s.q := ⟨rfl, rfl, rfl⟩
  have hout : ∀ t, (s.call t).outside = true → (s.call t).hasTaken = false := by
    intro t ht
    revert ht
    cases s.call t <;> simp [Call.outside, Call.hasTaken]
  cases h with
  | addNoMem hout =>
    refine booking_silent rfl (by simp) ?_ hrefl
    simp [Call.hasTaken, Call.returnedZero, QueueAction.thread]
  | addRefused hout hp hrun =>
    refine booking_silent rfl (by simp) ?_ hrefl
    simp [Call.hasTaken, Call.returnedZero, QueueAction.thread]
  | addAccepted hout hp hrun =>
    refine booking_silent rfl (by simp) ?_ ⟨rfl, rfl, rfl⟩
    simp [Call.hasTaken, Call.returnedZero, QueueAction.thread]
  | lockCrash hcall hp =>
    refine booking_silent rfl (by simp) ?_ hrefl
    simp [Call.hasTaken, Call.returnedZero, QueueAction.thread, hcall]
  | lockNoMem hcall hp hx =>
    refine booking_silent rfl (by simp) ?_ ⟨rfl, rfl, rfl⟩
    simp [Call.hasTaken, Call.returnedZero, QueueAction.thread]
  | lock hcall hp hx hadd =>
    exact hadd.booking (.inl ⟨_, rfl⟩) (by simp [hcall, Call.node]) (Queue.xmarkFind_counters hx)
  | wakeAdd hcall hadd => exact hadd.booking (.inr rfl) (by simp [hcall, Call.node]) hrefl
  | @getNoMem t msg alloc s' hout' hx hget =>
    exact hget.booking hinv.spells (.inl ⟨_, rfl⟩) (hout t hout') (by simp) hrefl
  | @get t msg alloc q s' hout' hx hget =>
    exact hget.booking (xmarkFind_spec hinv.spells hx).1 (.inl ⟨_, rfl⟩) (hout t hout') (by simp)
      (Queue.xmarkFind_counters hx)
  | wakeGet hcall hget =>
    exact hget.booking hinv.spells (.inr rfl) (by simp [hcall, Call.hasTaken])
      (by simp [hcall, Call.returnedZero]) hrefl
  | wakeXget hcall hget =>
    exact hget.booking hinv.spells (.inr rfl) (by simp [hcall, Call.hasTaken])
      (by simp [hcall, Call.returnedZero]) hrefl
  | timeout hcall =>
    refine booking_silent rfl (by simp) ?_ hrefl
    simp [Call.hasTaken, Call.returnedZero, QueueAction.thread]
  | xtimeout hcall hy =>
    refine booking_silent rfl (by simp) ?_ hrefl
    simp [Call.hasTaken, Call.returnedZero, QueueAction.thread]
  | xtimeoutCrash hcall hy =>
    refine booking_silent rfl (by simp) ?_ hrefl
    simp [Call.hasTaken, Call.returnedZero, QueueAction.thread, hcall]
  | preget hcall hrun =>
    refine booking_silent rfl (by simp) ?_ hrefl
    simp [Call.hasTaken, Call.returnedZero, QueueAction.thread]
  | pregetRefused hcall hrun =>
    refine booking_silent rfl (by simp) ?_ hrefl
    simp [Call.hasTaken, Call.returnedZero, QueueAction.thread]
  | count hout' => exact .counted (hout _ hout') rfl

/-! ### Runs -/

/-- The calls of `queue_add` that return 0 in a run. -/
def adds (conf : QueueConf δ μ ε) (acts : List (QueueAction ι δ μ ε)) : List ι :=
  outputs (QueueState.step conf) (zeroReturns conf) QueueState.init acts

/-- The messages taken out in a run, by the threads that get them. -/
def deliveries (conf : QueueConf δ μ ε) (acts : List (QueueAction ι δ μ ε)) : List ι :=
  outputs (QueueState.step conf) (takes conf) QueueState.init acts

/-- The values that `queue_added`, `queue_delivered` or `queue_length` returns in a run. -/
def counts (conf : QueueConf δ μ ε) (c : Counter) (acts : List (QueueAction ι δ μ ε)) : List Int :=
  outputs (QueueState.step conf) (reads c) QueueState.init acts

/-- The books of a state that was reached by some actions. -/
structure Books (conf : QueueConf δ μ ε) (acts : List (QueueAction ι δ μ ε))
    (s : QueueState ι δ μ) : Prop where
  /-- What was read from `added`, and what is there. -/
  added : (counts conf .added acts).sum + s.q.added = (adds conf acts).length
  /-- What was read from `delivered`, and what is there. -/
  delivered : (counts conf .delivered acts).sum + s.q.delivered = (deliveries conf acts).length
  /-- The length is the difference. -/
  length : s.q.length = (adds conf acts).length - (deliveries conf acts).length
  /-- The length is bounded. -/
  bounded : s.q.length ≤ maxQueueSize + 1

theorem books_init : Books conf [] (QueueState.init : QueueState ι δ μ) := by
  refine ⟨rfl, rfl, rfl, ?_⟩
  show (0 : Int) ≤ maxQueueSize + 1
  decide

theorem takes_eq (hstep : s.step conf a = some s') :
    takes conf s a = if (s'.call a.thread).hasTaken then [a.thread] else [] := by
  rw [takes, hstep]
  rfl

/-- A frame reports one thing only. -/
theorem Call.hasTaken_of_returnedZero {c : Call δ μ} (h : c.returnedZero = true) :
    c.hasTaken = false := by
  cases c with
  | taken => cases h
  | _ => rfl

theorem Call.returnedZero_of_hasTaken {c : Call δ μ} (h : c.hasTaken = true) :
    c.returnedZero = false := by
  cases c with
  | taken => rfl
  | _ => cases h

/-- What a step puts out, by its entry in the books: the calls of `queue_add` that return 0, the
messages taken out, and what is read from the counters. -/
theorem Booking.outputs_eq (h : Booking s s' a) (hstep : s.step conf a = some s') :
    ((zeroReturns conf s a).length : Int) = s'.q.added - s.q.added + (reads .added s a).sum ∧
      ((takes conf s a).length : Int) =
        s'.q.delivered - s.q.delivered + (reads .delivered s a).sum ∧
      s'.q.length - s.q.length = (zeroReturns conf s a).length - (takes conf s a).length := by
  cases h with
  | @added t _ ha hcall hroom hlength hadded hdelivered =>
    have htaken := Call.hasTaken_of_returnedZero hcall
    have hthread : a.thread = t := by
      rcases ha with ⟨alloc, rfl⟩ | rfl <;> rfl
    have hzero : zeroReturns conf s a = [t] := by
      rcases ha with ⟨alloc, rfl⟩ | rfl <;> simp [zeroReturns, hstep, hcall]
    have hreads : ∀ c, reads c s a = [] := by
      rcases ha with ⟨alloc, rfl⟩ | rfl <;> simp [reads]
    simp only [hzero, hreads, takes_eq hstep, hthread, htaken, Bool.false_eq_true, if_false,
      List.length_singleton, List.length_nil, List.sum_nil]
    omega
  | @taken t _ ha hcall hlength hadded hdelivered =>
    have hzero := Call.returnedZero_of_hasTaken hcall
    have hthread : a.thread = t := by
      rcases ha with ⟨msg, alloc, rfl⟩ | rfl <;> rfl
    have hreturns : zeroReturns conf s a = [] := by
      rcases ha with ⟨msg, alloc, rfl⟩ | rfl <;> simp [zeroReturns, hstep, hzero]
    have hreads : ∀ c, reads c s a = [] := by
      rcases ha with ⟨msg, alloc, rfl⟩ | rfl <;> simp [reads]
    simp only [hreturns, hreads, takes_eq hstep, hthread, hcall, if_true, List.length_singleton,
      List.length_nil, List.sum_nil]
    omega
  | @counted t c hcall hq =>
    have htakes : takes conf s (.count t c) = [] := by
      rw [takes_eq hstep, QueueAction.thread, hcall]
      rfl
    have hread : ∀ c', (reads c' s (.count t c : QueueAction ι δ μ ε)).sum =
        if c = c' then s.q.read c' else 0 := by
      intro c'
      rw [reads]
      split_ifs <;> simp
    rw [htakes, hq, hread, hread]
    cases c <;> simp [zeroReturns, Queue.reset, Queue.read]
  | silent ha htaken hzero hsame =>
    obtain ⟨hlength, hadded, hdelivered⟩ := hsame
    have htakes : takes conf s a = [] := by simp [takes_eq hstep, htaken]
    have hreturns : zeroReturns conf s a = [] := by
      cases a with
      | lock t alloc => simp [zeroReturns, hstep, hzero t (.inl ⟨alloc, rfl⟩)]
      | wake t timeout => simp [zeroReturns, hstep, hzero t (.inr ⟨timeout, rfl⟩)]
      | _ => rfl
    have hreads : ∀ c, reads c s a = [] := by
      intro c
      cases a with
      | count t c' => exact absurd rfl (ha t c')
      | _ => rfl
    simp [htakes, hreturns, hreads, hlength, hadded, hdelivered]

omit [DecidableEq ι] in
/-- A message is added only where there is room. -/
theorem Booking.bounded (h : Booking s s' a) (hbounded : s.q.length ≤ maxQueueSize + 1) :
    s'.q.length ≤ maxQueueSize + 1 := by
  cases h with
  | added ha hcall hroom hlength hadded hdelivered => omega
  | taken ha hcall hlength hadded hdelivered => omega
  | @counted t c hcall hq =>
    have hlength : (s.q.reset c).length = s.q.length := by cases c <;> rfl
    rw [hq, hlength]
    exact hbounded
  | silent ha htaken hzero hsame =>
    rw [hsame.1]
    exact hbounded

omit [DecidableEq ι] in
/-- A step counts one message at most. -/
theorem Booking.counters_le (h : Booking s s' a) (hadded : 0 ≤ s.q.added)
    (hdelivered : 0 ≤ s.q.delivered) :
    (0 ≤ s'.q.added ∧ s'.q.added ≤ s.q.added + 1) ∧
      (0 ≤ s'.q.delivered ∧ s'.q.delivered ≤ s.q.delivered + 1) := by
  cases h with
  | added ha hcall hroom hlength hadded' hdelivered' => omega
  | taken ha hcall hlength hadded' hdelivered' => omega
  | @counted t c hcall hq =>
    rw [hq]
    cases c <;> simp only [Queue.reset] <;> omega
  | silent ha htaken hzero hsame =>
    obtain ⟨-, hadded', hdelivered'⟩ := hsame
    omega

/-- A counter is no greater than the number of steps, so that 64 bits are enough for fewer than
`2 ^ 63` of them. -/
theorem counters_fit {acts : List (QueueAction ι δ μ ε)}
    (h : exec (QueueState.step conf) QueueState.init acts = some s) :
    (0 ≤ s.q.added ∧ s.q.added ≤ acts.length) ∧
      (0 ≤ s.q.delivered ∧ s.q.delivered ≤ acts.length) := by
  refine exec_induction (P := fun acts (s : QueueState ι δ μ) =>
    (0 ≤ s.q.added ∧ s.q.added ≤ acts.length) ∧ (0 ≤ s.q.delivered ∧ s.q.delivered ≤ acts.length))
      ?_ ?_ h
  · exact ⟨⟨Int.le_refl 0, Int.le_refl 0⟩, Int.le_refl 0, Int.le_refl 0⟩
  intro acts s a s' hexec ih hstep
  obtain ⟨ps, hinv⟩ := queueInv_of_exec hexec
  have hle := ((queueStep_of_step hstep).2.booking hinv).counters_le ih.1.1 ih.2.1
  rw [List.length_append, List.length_singleton]
  push_cast
  omega

/-- The books of a run. -/
theorem books_of_exec {acts : List (QueueAction ι δ μ ε)}
    (h : exec (QueueState.step conf) QueueState.init acts = some s) : Books conf acts s := by
  refine exec_induction (P := fun acts s => Books conf acts s) books_init ?_ h
  intro acts s a s' hexec hbooks hstep
  obtain ⟨ps, hinv⟩ := queueInv_of_exec hexec
  have hbooking := (queueStep_of_step hstep).2.booking hinv
  obtain ⟨hreturns, htakes, hlength⟩ := hbooking.outputs_eq hstep
  have hadds : adds conf (acts ++ [a]) = adds conf acts ++ zeroReturns conf s a :=
    outputs_concat a hexec
  have hdeliveries : deliveries conf (acts ++ [a]) = deliveries conf acts ++ takes conf s a :=
    outputs_concat a hexec
  have hcounts : ∀ c, counts conf c (acts ++ [a]) = counts conf c acts ++ reads c s a :=
    fun c => outputs_concat a hexec
  have hadded := hbooks.added
  have hdelivered := hbooks.delivered
  have hdifference := hbooks.length
  refine ⟨?_, ?_, ?_, hbooking.bounded hbooks.bounded⟩
  · rw [hadds, hcounts, List.sum_append, List.length_append]
    push_cast
    omega
  · rw [hdeliveries, hcounts, List.sum_append, List.length_append]
    push_cast
    omega
  · rw [hadds, hdeliveries, List.length_append, List.length_append]
    push_cast
    omega

/-- The accounting of the queue.  In every state a run reaches, the values that `queue_added`
returned and the one that is in `added` sum up to the calls of `queue_add` that returned 0, those of
`queue_delivered` to the messages taken out, `length` is the difference, and it is at least 0 and at
most `MAX_QUEUE_SIZE + 1`. -/
theorem queue_accounting (conf : QueueConf δ μ ε) (acts : List (QueueAction ι δ μ ε))
    (s : QueueState ι δ μ) (h : exec (QueueState.step conf) QueueState.init acts = some s) :
    (counts conf .added acts).sum + s.q.added = (adds conf acts).length ∧
      (counts conf .delivered acts).sum + s.q.delivered = (deliveries conf acts).length ∧
      s.q.length = (adds conf acts).length - (deliveries conf acts).length ∧
      0 ≤ s.q.length ∧ s.q.length ≤ maxQueueSize + 1 := by
  obtain ⟨hadded, hdelivered, hlength, hbounded⟩ := books_of_exec h
  obtain ⟨ps, hinv⟩ := queueInv_of_exec h
  refine ⟨hadded, hdelivered, hlength, ?_, hbounded⟩
  rw [hinv.spells.length]
  exact Int.natCast_nonneg _

/-- The accounting of one message that is queued, counted, and taken out. -/
theorem queue_accounting_one_message :
    ∃ s : QueueState Bool Nat Nat,
      exec (QueueState.step (⟨[], []⟩ : QueueConf Nat Nat Unit)) QueueState.init
        [.add true ⟨some 5, 1, 7, none⟩ (some 0) (), .lock true true, .count true .added,
          .get false ⟨none, 0, 7, none⟩ false] = some s ∧
      s.q.added = 0 ∧ s.q.delivered = 1 ∧ 0 ≤ s.q.length ∧ s.q.length ≤ maxQueueSize + 1 :=
  exists_of_exec_any (P := fun s => s.q.added = 0 ∧ s.q.delivered = 1) rfl fun s hs hcounters =>
    ⟨hcounters.1, hcounters.2, (queue_accounting _ _ s hs).2.2.2⟩

end Schaufel
