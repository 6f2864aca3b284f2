import Schaufel.Foundation.KeyedFifo
import Schaufel.Queue.Representation
import Schaufel.Queue.Steps

/-!
# The invariant of the queue

The history of a run determines the sequence of entries that should be waiting: `routed` replays the
`queued` and `delivered` events of it.  `QueueInv s ps` says that the memory of the queue represents
exactly that sequence, that every `delivered` event named the oldest entry of its mark, and that the
nodes the threads hold in `queue_add` are live, unlinked and different from each other.

`QueueInv.of_frame` is the only place where the invariant is put together again after a change: the
acting thread is treated by the step at hand, every other thread by the frame conditions.
-/

namespace Schaufel

variable {ι δ μ : Type}

/-! ### The routed sequence of a history -/

/-- What an event does to the routed sequence. -/
def Event.fifoOp? : Event ι δ μ → Option (FifoOp (Entry δ μ))
  | .queued _ msg => some (.push msg.entry)
  | .delivered _ msg => some (.pop msg.entry)
  | _ => none

/-- The operations on the routed sequence that a history records. -/
def fifoOps (history : List (Event ι δ μ)) : List (FifoOp (Entry δ μ)) :=
  history.filterMap Event.fifoOp?

/-- The entries that wait after a history. -/
def routed (history : List (Event ι δ μ)) : List (Entry δ μ) :=
  FifoOp.replay Entry.mark (fifoOps history)

@[simp] theorem fifoOps_append (h h' : List (Event ι δ μ)) :
    fifoOps (h ++ h') = fifoOps h ++ fifoOps h' := by
  simp [fifoOps]

/-- Memory operations do not concern the routed sequence. -/
@[simp] theorem fifoOps_effects (t : ι) (l : List (Effect δ μ)) :
    fifoOps (l.map (Event.effect t)) = [] := by
  simp [fifoOps, Event.fifoOp?]

@[simp] theorem fifoOps_map_effect {β : Type} (t : ι) (f : β → Effect δ μ) (l : List β) :
    fifoOps (l.map fun b => Event.effect t (f b)) = [] := by
  simp [fifoOps, Event.fifoOp?]

@[simp] theorem fifoOps_discarded (t : ι) (msg : Message δ μ) :
    fifoOps [Event.discarded t msg] = [] := rfl

@[simp] theorem fifoOps_dropped (t : ι) (msg : Message δ μ) :
    fifoOps [Event.dropped t msg] = [] := rfl

@[simp] theorem fifoOps_getLocked (t : ι) (m : UInt32) :
    fifoOps [(Event.getLocked t m : Event ι δ μ)] = [] := rfl

/-- Events that are no operations leave the routed sequence alone. -/
theorem routed_append_of_fifoOps_eq_nil {h h' : List (Event ι δ μ)} (hnil : fifoOps h' = []) :
    routed (h ++ h') = routed h := by
  simp [routed, hnil]

theorem routed_queued (h : List (Event ι δ μ)) (t : ι) (msg : Message δ μ) :
    routed (h ++ [.queued t msg]) = routed h ++ [msg.entry] := by
  simp only [routed, fifoOps_append]
  exact FifoOp.replay_concat Entry.mark (fifoOps h) (.push msg.entry)

theorem routed_delivered (h : List (Event ι δ μ)) (t : ι) (msg : Message δ μ) :
    routed (h ++ [.delivered t msg]) = (routed h).eraseP fun e => e.mark = msg.mark := by
  simp only [routed, fifoOps_append]
  exact FifoOp.replay_concat Entry.mark (fifoOps h) (.pop msg.entry)

/-- An entry that waits was there before or was queued since. -/
theorem mem_routed_append {history evs : List (Event ι δ μ)} {e : Entry δ μ}
    (h : e ∈ routed (history ++ evs)) :
    e ∈ routed history ∨ ∃ t msg, Event.queued t msg ∈ evs ∧ e = msg.entry := by
  induction evs using List.reverseRecOn with
  | nil => exact Or.inl (by simpa using h)
  | append_singleton evs ev ih =>
    rw [← List.append_assoc] at h
    have hcases : e ∈ routed (history ++ evs) ∨
        ∃ t msg, ev = Event.queued t msg ∧ e = msg.entry := by
      cases ev with
      | queued t msg =>
        rw [routed_queued] at h
        rcases List.mem_append.mp h with h | h
        · exact Or.inl h
        · exact Or.inr ⟨t, msg, rfl, List.mem_singleton.mp h⟩
      | delivered t msg =>
        rw [routed_delivered] at h
        exact Or.inl (List.mem_of_mem_eraseP h)
      | _ =>
        rw [routed_append_of_fifoOps_eq_nil rfl] at h
        exact Or.inl h
    rcases hcases with h | ⟨t, msg, rfl, rfl⟩
    · rcases ih h with h | ⟨t, msg, hmem, rfl⟩
      · exact Or.inl h
      · exact Or.inr ⟨t, msg, List.mem_append_left _ hmem, rfl⟩
    · exact Or.inr ⟨t, msg, by simp, rfl⟩

/-! ### Frames of threads -/

/-- The node a frame of `queue_add` holds. -/
def Call.node : Call δ μ → Option Ptr
  | .adding _ p | .addWait _ p _ _ => some p
  | _ => none

@[simp] theorem Call.node_wakeUp (c : Call δ μ) : c.wakeUp.node = c.node := by
  cases c <;> rfl

@[simp] theorem Call.wakeUp_wakeUp (c : Call δ μ) : c.wakeUp.wakeUp = c.wakeUp := by
  cases c <;> rfl

/-- A broadcast changes nothing but the flag of a wait. -/
@[simp] theorem Call.wakeUp_signal (cond : Cond) (c : Call δ μ) :
    (c.signal cond).wakeUp = c.wakeUp := by
  unfold Call.signal
  split <;> simp

/-- The frame fits the memory: the node of an adder is live and not linked, and the mark of a waiter
has its `struct Xmark`. -/
def CallOk (q : Queue δ μ) (ps : List Ptr) : Call δ μ → Prop
  | .adding _ p => p ∉ ps ∧ ∃ msg, q.heap p = some ⟨msg, none, none, none⟩
  | .addWait _ p m _ => p ∉ ps ∧ (∃ msg, q.heap p = some ⟨msg, none, none, none⟩ ∧ msg.mark = m) ∧
      (binFind q.xtree m).isSome
  | .getWait msg x _ => ∀ m, x = some m → m = msg.mark ∧ (binFind q.xtree m).isSome
  | .getXwait msg m _ => m = msg.mark ∧ (binFind q.xtree m).isSome
  | _ => True

theorem callOk_wakeUp {q : Queue δ μ} {ps : List Ptr} {c : Call δ μ} :
    CallOk q ps c.wakeUp ↔ CallOk q ps c := by
  cases c <;> rfl

/-- A frame keeps fitting when its node stays in place and no mark loses its record. -/
theorem CallOk.congr {q q' : Queue δ μ} {ps ps' : List Ptr} {c : Call δ μ} (h : CallOk q ps c)
    (hheap : ∀ p, c.node = some p → p ∉ ps' ∧ q'.heap p = q.heap p)
    (hfind : ∀ m, (binFind q.xtree m).isSome → (binFind q'.xtree m).isSome) : CallOk q' ps' c := by
  cases c with
  | adding args p =>
    obtain ⟨hp, hq⟩ := hheap p rfl
    exact ⟨hp, by rw [hq]; exact h.2⟩
  | addWait args p m sig =>
    obtain ⟨hp, hq⟩ := hheap p rfl
    exact ⟨hp, by rw [hq]; exact h.2.1, hfind m h.2.2⟩
  | getWait msg x sig => exact fun m hm => ⟨(h m hm).1, hfind m (h m hm).2⟩
  | getXwait msg m sig => exact ⟨h.1, hfind m h.2⟩
  | idle | addReturned | taken | getReturned => trivial

/-! ### The invariant -/

/-- The memory represents the routed sequence and the frames of all threads fit it. -/
structure QueueInv (s : QueueState ι δ μ) (ps : List Ptr) : Prop where
  /-- The memory represents the sequence the history determines. -/
  spells : Spells s.q ps (routed s.history)
  /-- Only oldest entries of a mark were handed out. -/
  faithful : FifoOp.Faithful Entry.mark (fifoOps s.history)
  /-- Every frame fits. -/
  call : ∀ t, CallOk s.q ps (s.call t)
  /-- No two threads hold the same node. -/
  distinct : ∀ t t' p, (s.call t).node = some p → (s.call t').node = some p → t = t'

/-- A step of the thread `t` leaves the other threads alone: their frames change in the flag of a
wait at most, and the nodes they hold stay as they are. -/
structure Spares (t : ι) (s s' : QueueState ι δ μ) : Prop where
  /-- The frames change in the flag at most. -/
  calls : ∀ t', t' ≠ t → (s'.call t').wakeUp = (s.call t').wakeUp
  /-- The nodes stay as they are. -/
  heap : ∀ t', t' ≠ t → ∀ p, (s.call t').node = some p → s'.q.heap p = s.q.heap p

theorem Spares.node_eq {t t' : ι} {s s' : QueueState ι δ μ} (h : Spares t s s') (ht' : t' ≠ t) :
    (s'.call t').node = (s.call t').node := by
  rw [← Call.node_wakeUp, h.calls t' ht', Call.node_wakeUp]

theorem spares_emit (t : ι) (s : QueueState ι δ μ) (evs : List (Event ι δ μ)) :
    Spares t s (s.emit evs) :=
  ⟨fun _ _ => rfl, fun _ _ _ _ => rfl⟩

theorem Spares.trans {t : ι} {s₁ s₂ s₃ : QueueState ι δ μ} (h : Spares t s₁ s₂)
    (h' : Spares t s₂ s₃) : Spares t s₁ s₃ := by
  refine ⟨fun t' ht' => (h'.calls t' ht').trans (h.calls t' ht'), fun t' ht' p hp => ?_⟩
  have hp' : (s₂.call t').node = some p := (h.node_eq ht').trans hp
  exact (h'.heap t' ht' p hp').trans (h.heap t' ht' p hp)

/-- A step of the thread `t` leads to a state with the invariant and leaves the other threads
alone. -/
def Keeps (t : ι) (s s' : QueueState ι δ μ) : Prop := (∃ ps, QueueInv s' ps) ∧ Spares t s s'

theorem Spares.keeps {t : ι} {s₁ s₂ s₃ : QueueState ι δ μ} (h : Spares t s₁ s₂)
    (h' : Keeps t s₂ s₃) : Keeps t s₁ s₃ :=
  ⟨h'.1, h.trans h'.2⟩

/-- A held node is not linked. -/
theorem QueueInv.not_mem_of_node {s : QueueState ι δ μ} {ps : List Ptr} (hinv : QueueInv s ps)
    {t : ι} {p : Ptr} (hp : (s.call t).node = some p) : p ∉ ps := by
  have hok := hinv.call t
  cases hc : s.call t <;> rw [hc] at hok hp <;> cases hp
  · exact hok.1
  · exact hok.1

/-- A held node is live. -/
theorem QueueInv.isSome_of_node {s : QueueState ι δ μ} {ps : List Ptr} (hinv : QueueInv s ps)
    {t : ι} {p : Ptr} (hp : (s.call t).node = some p) : (s.q.heap p).isSome := by
  have hok := hinv.call t
  cases hc : s.call t <;> rw [hc] at hok hp <;> cases hp
  · obtain ⟨msg, hmsg⟩ := hok.2
    simp [hmsg]
  · obtain ⟨msg, hmsg, -⟩ := hok.2.1
    simp [hmsg]

/-- The frame rule: one thread moves and the others are spared. -/
theorem QueueInv.of_spares {s s' : QueueState ι δ μ} {ps ps' : List Ptr} (hinv : QueueInv s ps)
    {t : ι} (hspares : Spares t s s') (hspells : Spells s'.q ps' (routed s'.history))
    (hfaithful : FifoOp.Faithful Entry.mark (fifoOps s'.history))
    (hps : ∀ t', t' ≠ t → ∀ p, (s.call t').node = some p → p ∉ ps')
    (hfind : ∀ m, (binFind s.q.xtree m).isSome → (binFind s'.q.xtree m).isSome)
    (hcall : CallOk s'.q ps' (s'.call t))
    (hnode : ∀ p, (s'.call t).node = some p → ∀ t', t' ≠ t → (s.call t').node ≠ some p) :
    QueueInv s' ps' := by
  refine ⟨hspells, hfaithful, fun t' => ?_, fun t₁ t₂ p h₁ h₂ => ?_⟩
  · by_cases ht' : t' = t
    · rw [ht']
      exact hcall
    · have hok := (hinv.call t').congr
        (fun p hp => ⟨hps t' ht' p hp, hspares.heap t' ht' p hp⟩) hfind
      rwa [← callOk_wakeUp, hspares.calls t' ht', callOk_wakeUp]
  · by_cases h₁t : t₁ = t <;> by_cases h₂t : t₂ = t
    · rw [h₁t, h₂t]
    · rw [hspares.node_eq h₂t] at h₂
      exact absurd h₂ (hnode p (h₁t ▸ h₁) t₂ h₂t)
    · rw [hspares.node_eq h₁t] at h₁
      exact absurd h₁ (hnode p (h₂t ▸ h₂) t₁ h₁t)
    · rw [hspares.node_eq h₁t] at h₁
      rw [hspares.node_eq h₂t] at h₂
      exact hinv.distinct t₁ t₂ p h₁ h₂

/-- The frame rule for a step that leaves the memory and the routed sequence alone. -/
theorem QueueInv.of_quiet [DecidableEq ι] {s s' : QueueState ι δ μ} {ps : List Ptr}
    (hinv : QueueInv s ps) {t : ι} {c : Call δ μ} {evs : List (Event ι δ μ)} (hq : s'.q = s.q)
    (hcalls : s'.call = Function.update s.call t c) (hhist : s'.history = s.history ++ evs)
    (hnil : fifoOps evs = []) (hok : CallOk s.q ps c)
    (hnode : ∀ p, c.node = some p → (s.call t).node = some p) : Keeps t s s' := by
  have hself : s'.call t = c := by rw [hcalls, Function.update_self]
  have hspares : Spares t s s' :=
    ⟨fun t' ht' => by rw [hcalls, Function.update_of_ne ht'], fun t' _ p _ => by rw [hq]⟩
  refine ⟨⟨ps, hinv.of_spares hspares ?_ ?_ (fun t' _ p hp => hinv.not_mem_of_node hp)
    (fun m h => by rwa [hq]) (by rwa [hq, hself]) fun p hp t' ht' hp' => ?_⟩, hspares⟩
  · rw [hq, hhist, routed_append_of_fifoOps_eq_nil hnil]
    exact hinv.spells
  · rw [hhist, fifoOps_append, hnil, List.append_nil]
    exact hinv.faithful
  · rw [hself] at hp
    exact ht' (hinv.distinct t' t p hp' (hnode p hp))

/-- The thread moves to another frame and nothing else happens. -/
theorem QueueInv.of_setCall [DecidableEq ι] {s : QueueState ι δ μ} {ps : List Ptr}
    (hinv : QueueInv s ps) {t : ι} {c : Call δ μ} (hok : CallOk s.q ps c)
    (hnode : ∀ p, c.node = some p → (s.call t).node = some p) : Keeps t s (s.setCall t c) :=
  hinv.of_quiet rfl rfl (List.append_nil _).symm rfl hok hnode

/-- The process is gone; the memory stays as it was. -/
theorem QueueInv.of_crash {s : QueueState ι δ μ} {ps : List Ptr} (hinv : QueueInv s ps) (t : ι) :
    Keeps t s { s with crashed := true } :=
  ⟨⟨ps, hinv.spells, hinv.faithful, hinv.call, hinv.distinct⟩, fun _ _ => rfl, fun _ _ _ _ => rfl⟩

/-! ### Writes to the memory -/

/-- A write to an address outside the lists does not change what the memory represents. -/
theorem Spells.of_heap {q : Queue δ μ} {ps : List Ptr} {es : List (Entry δ μ)} (hs : Spells q ps es)
    {h : Heap δ μ} (hheap : ∀ a ∈ ps, h a = q.heap a) : Spells { q with heap := h } ps es := by
  have hmsg : ∀ a ∈ ps, msgAt h a = msgAt q.heap a := fun a ha => by rw [msgAt, msgAt, hheap a ha]
  refine ⟨⟨hs.list.nodup, fun p hp => ?_, hs.list.first, hs.list.last, hs.list.next.congr ?_,
    hs.list.prev.congr ?_⟩, ?_, hs.length, fun m x hx => ?_, hs.known⟩
  · have hlive := hs.list.live p hp
    rwa [← hheap p hp] at hlive
  · intro a ha
    simp only [nextOf, hheap a ha]
  · intro a ha
    simp only [prevOf, hheap a (List.mem_reverse.mp ha)]
  · rw [← hs.entries]
    exact List.map_congr_left fun a ha => by rw [hmsg a ha]
  · have hof : ofMark h m ps = ofMark q.heap m ps := ofMark_congr hmsg m
    simp only [hof]
    refine (hs.xmark m x hx).congr fun a ha => ?_
    simp only [xnextOf, hheap a (List.mem_of_mem_filter ha)]

/-- The list of a mark is empty exactly when no entry has the mark. -/
theorem Spells.ofMark_eq_nil_iff {q : Queue δ μ} {ps : List Ptr} {es : List (Entry δ μ)}
    (hs : Spells q ps es) (m : UInt32) : ofMark q.heap m ps = [] ↔ ∀ e ∈ es, e.mark ≠ m := by
  have hmarks : ps.map (fun p => (msgAt q.heap p).map Message.mark) =
      es.map fun e => some e.mark := by
    have hmap := congrArg (List.map (Option.map Entry.mark)) hs.entries
    simpa [Function.comp_def] using hmap
  have hiff : ofMark q.heap m ps = [] ↔
      ∀ v ∈ ps.map (fun p => (msgAt q.heap p).map Message.mark), v ≠ some m := by
    simp [ofMark, List.filter_eq_nil_iff]
  rw [hiff, hmarks]
  simp

/-- The record of a mark has no first node exactly when no entry has the mark. -/
theorem Spells.first_eq_none_iff {q : Queue δ μ} {ps : List Ptr} {es : List (Entry δ μ)}
    (hs : Spells q ps es) {m : UInt32} {x : Xmark} (hx : binFind q.xtree m = some x) :
    x.first = none ↔ ∀ e ∈ es, e.mark ≠ m := by
  rw [← hs.ofMark_eq_nil_iff m, (hs.xmark m x hx).first, List.head?_eq_none_iff]

/-- `_xmark_find` fails only for a mark without a record, and only if there is no memory. -/
theorem Queue.xmarkFind_eq_none {q : Queue δ μ} {m : UInt32} {alloc : Bool}
    (h : q.xmarkFind m alloc = none) : binFind q.xtree m = none ∧ alloc = false := by
  unfold Queue.xmarkFind at h
  split at h
  · cases h
  · rename_i hfind
    refine ⟨hfind, ?_⟩
    by_contra halloc
    rw [if_pos (by simpa using halloc)] at h
    cases h

/-- `_xmark_find` only adds an empty record for a mark that has no message. -/
theorem xmarkFind_spec {q q' : Queue δ μ} {ps : List Ptr} {es : List (Entry δ μ)} {m : UInt32}
    {alloc : Bool} (hs : Spells q ps es) (h : q.xmarkFind m alloc = some q') :
    Spells q' ps es ∧ (binFind q'.xtree m).isSome ∧ q'.heap = q.heap ∧ q'.first = q.first ∧
      q'.length = q.length ∧
      ∀ m', (binFind q.xtree m').isSome → (binFind q'.xtree m').isSome := by
  unfold Queue.xmarkFind at h
  cases hx : binFind q.xtree m with
  | some x =>
    obtain rfl : q = q' := by simpa [hx] using h
    exact ⟨hs, by rw [hx]; rfl, rfl, rfl, rfl, fun _ h => h⟩
  | none =>
    cases alloc with
    | false => simp [hx] at h
    | true =>
      obtain rfl : { q with xtree := binSearch ⟨m, ⟨none, none, 0⟩⟩ q.xtree } = q' := by
        simpa [hx] using h
      have hfind := fun m' => binFind_binSearch hx ⟨none, none, 0⟩ m'
      have hmono : ∀ m', (binFind q.xtree m').isSome →
          (binFind (binSearch ⟨m, ⟨none, none, 0⟩⟩ q.xtree) m').isSome := by
        intro m' hm'
        rw [hfind]
        split
        · rfl
        · exact hm'
      refine ⟨⟨⟨hs.list.nodup, hs.list.live, hs.list.first, hs.list.last, hs.list.next,
        hs.list.prev⟩, hs.entries, hs.length, fun m' x hx' => ?_,
        fun e he => hmono _ (hs.known e he)⟩, by simp [hfind], rfl, rfl, rfl, hmono⟩
      simp only [hfind] at hx'
      split at hx'
      · -- the new record is empty, and no entry can have its mark
        rename_i hm'
        have hnil : ofMark q.heap m' ps = [] := by
          rw [hs.ofMark_eq_nil_iff, hm']
          rintro e he rfl
          have := hs.known e he
          simp [hx] at this
        cases hx'
        exact ⟨by simp [hnil], by simp [hnil], by simp [hnil], by simp [hnil]⟩
      · exact hs.xmark m' x hx'

/-- Events that are no operations may be written at any time. -/
theorem QueueInv.of_emit {s : QueueState ι δ μ} {ps : List Ptr} (hinv : QueueInv s ps)
    {evs : List (Event ι δ μ)} (hnil : fifoOps evs = []) : QueueInv (s.emit evs) ps := by
  refine ⟨?_, ?_, hinv.call, hinv.distinct⟩
  · simpa [routed_append_of_fifoOps_eq_nil hnil] using hinv.spells
  · simpa [hnil] using hinv.faithful

/-- After `_xmark_find` succeeded the invariant holds of the same frames and sequence. -/
theorem QueueInv.of_xmarkFind {s : QueueState ι δ μ} {ps : List Ptr} {q : Queue δ μ} {m : UInt32}
    {alloc : Bool} (hinv : QueueInv s ps) (t : ι) (h : s.q.xmarkFind m alloc = some q) :
    QueueInv { s with q := q } ps ∧ Spares t s { s with q := q } ∧ (binFind q.xtree m).isSome ∧
      q.heap = s.q.heap := by
  obtain ⟨hspells, hsome, hheap, -, -, hmono⟩ := xmarkFind_spec hinv.spells h
  refine ⟨⟨hspells, hinv.faithful, fun t' => (hinv.call t').congr ?_ hmono, hinv.distinct⟩,
    ⟨fun _ _ => rfl, fun _ _ p _ => congrFun hheap p⟩, hsome, hheap⟩
  exact fun p hp => ⟨hinv.not_mem_of_node hp, congrFun hheap p⟩

/-- Resetting a counter does not concern the lists. -/
theorem QueueInv.of_reset {s : QueueState ι δ μ} {ps : List Ptr} (hinv : QueueInv s ps) (t : ι)
    (c : Counter) :
    QueueInv { s with q := s.q.reset c } ps ∧ Spares t s { s with q := s.q.reset c } := by
  have hspells : Spells (s.q.reset c) ps (routed s.history) := by
    obtain ⟨⟨hnodup, hlive, hfirst, hlast, hnext, hprev⟩, hentries, hlength, hxmark, hknown⟩ :=
      hinv.spells
    cases c <;> exact ⟨⟨hnodup, hlive, hfirst, hlast, hnext, hprev⟩, hentries, hlength, hxmark,
      hknown⟩
  have hheap : (s.q.reset c).heap = s.q.heap := by cases c <;> rfl
  have htree : (s.q.reset c).xtree = s.q.xtree := by cases c <;> rfl
  refine ⟨⟨hspells, hinv.faithful, fun t' => (hinv.call t').congr ?_ fun m hm => ?_, hinv.distinct⟩,
    fun _ _ => rfl, fun _ _ p _ => congrFun hheap p⟩
  · exact fun p hp => ⟨hinv.not_mem_of_node hp, congrFun hheap p⟩
  · rwa [htree]

/-- Writing a node at a free address, or freeing a node only `t` holds. -/
theorem QueueInv.of_write [DecidableEq ι] {s s' : QueueState ι δ μ} {ps : List Ptr} {t : ι}
    {p : Ptr} {v : Option (MessageList δ μ)} {c : Call δ μ} {evs : List (Event ι δ μ)}
    (hinv : QueueInv s ps) (hp : p ∉ ps) (hfree : ∀ t', t' ≠ t → (s.call t').node ≠ some p)
    (hq : s'.q = { s.q with heap := Function.update s.q.heap p v })
    (hcalls : s'.call = Function.update s.call t c) (hhist : s'.history = s.history ++ evs)
    (hnil : fifoOps evs = []) (hok : CallOk s'.q ps c)
    (hnode : ∀ p', c.node = some p' → p' = p) : Keeps t s s' := by
  have hself : s'.call t = c := by rw [hcalls, Function.update_self]
  have hheap : ∀ a, a ≠ p → s'.q.heap a = s.q.heap a := by
    intro a ha
    rw [hq]
    exact Function.update_of_ne ha _ _
  have hspares : Spares t s s' := by
    refine ⟨fun t' ht' => by rw [hcalls, Function.update_of_ne ht'], fun t' ht' a ha => hheap a ?_⟩
    rintro rfl
    exact hfree t' ht' ha
  refine ⟨⟨ps, hinv.of_spares hspares ?_ ?_ (fun t' _ a ha => hinv.not_mem_of_node ha) ?_ ?_ ?_⟩,
    hspares⟩
  · rw [hq, hhist, routed_append_of_fifoOps_eq_nil hnil]
    refine hinv.spells.of_heap fun a ha => Function.update_of_ne ?_ _ _
    rintro rfl
    exact hp ha
  · rw [hhist, fifoOps_append, hnil, List.append_nil]
    exact hinv.faithful
  · intro m hm
    rw [hq]
    exact hm
  · rwa [hself]
  · intro a ha t' ht'
    rw [hself] at ha
    rw [hnode a ha]
    exact hfree t' ht'

/-- The invariant of the initial state. -/
theorem queueInv_init : QueueInv (QueueState.init : QueueState ι δ μ) [] := by
  refine ⟨⟨⟨List.nodup_nil, by simp, rfl, rfl, chain_nil _, chain_nil _⟩, rfl, rfl, ?_, ?_⟩, ?_, ?_,
    ?_⟩
  · intro m x hx
    simp [QueueState.init, Queue.init] at hx
  · intro e he
    simp [QueueState.init, routed, fifoOps] at he
  · intro pre a post h
    simp [QueueState.init, fifoOps] at h
  · exact fun _ => trivial
  · intro t t' p hp
    simp [QueueState.init, Call.node] at hp

end Schaufel
