import Schaufel.Postgres.Batches

/-!
# Cancelling the commit worker

`producer_free` cancels the commit worker, waits for its end and commits if `copy` is not 0.  The
worker may be cancelled in its sleep, while it writes to the log, or inside one of the calls that
`commit` makes.  Its cleanup handler only gives the mutex back, so what a commit has put on the
connections before it was cancelled stays there, `copy` is still 1, and `producer_free` makes the
same calls again.

libpq refuses `PQputCopyData` and `PQputCopyEnd` on a connection on which no COPY is going on, and
after `PQputCopyEnd` none is.  Whether it does so is the parameter `refuses` here: it decides what
becomes of the calls that are made again.
-/

namespace Schaufel

variable {σ : Type}

/-! ### Calls of libpq -/

/-- A COPY is going on: a command was not followed by the end of its data. -/
def inCopy (events : List CopyEvent) : Bool :=
  events.foldl (fun going event =>
    match event with
    | .command _ => true
    | .data _ => going
    | .copyEnd => false) false

/-- The calls that `commit` makes. -/
inductive CommitCall
  /-- `PQputCopyData` with the trailer, on the master. -/
  | trailer
  /-- `PQputCopyEnd` on the master. -/
  | masterEnd
  /-- `PQputCopyEnd` on the replica. -/
  | replicaEnd
  deriving DecidableEq, Repr

/-- The calls of `commit` in their order. -/
def CopyConf.commitCalls (conf : CopyConf σ) : List CommitCall :=
  (if conf.cpyfmt = .binary then [.trailer] else []) ++ [.masterEnd] ++
    if conf.replica then [.replicaEnd] else []

/-- What a call leaves on a connection. -/
def putCopy (refuses : Bool) (events : List CopyEvent) (event : CopyEvent) : List CopyEvent :=
  if refuses && !inCopy events then events else events ++ [event]

namespace CopyState

/-- One call of `commit`. -/
def call (refuses : Bool) (s : CopyState σ) : CommitCall → CopyState σ
  | .trailer => { s with master := putCopy refuses s.master (.data bintrailer) }
  | .masterEnd => { s with master := putCopy refuses s.master .copyEnd }
  | .replicaEnd => { s with replica := putCopy refuses s.replica .copyEnd }

/-- `commit`, call by call. -/
def commitBy (refuses : Bool) (conf : CopyConf σ) (s : CopyState σ) : CopyState σ :=
  { conf.commitCalls.foldl (call refuses) s with count := 0, copy := 0, commitIter := 0 }

end CopyState

/-! ### Where the worker is cancelled -/

/-- Where the cancellation takes effect. -/
inductive CancelPoint
  /-- In the sleep, or in `pthread_testcancel`. -/
  | sleep
  /-- While the log is written before a commit. -/
  | log
  /-- Inside call number `k` of a commit, before or after it has put something on its connection. -/
  | call (k : Nat) (done : Bool)
  deriving DecidableEq, Repr

/-- How many calls of the commit have put something on a connection. -/
def CancelPoint.calls : CancelPoint → Nat
  | .sleep => 0
  | .log => 0
  | .call k done => if done then k + 1 else k

namespace CopyState

/-- The state that a worker leaves that is cancelled in the next round; `none` if it does not come
to that point. -/
def cancelled (refuses : Bool) (conf : CopyConf σ) (s : CopyState σ) (point : CancelPoint) :
    Option (CopyState σ) :=
  let s' := { s with commitIter := (s.commitIter + 1) &&& 0xF }
  match point with
  | .sleep => some s
  | .log => if s'.commitIter = 0 ∧ 0 < s'.count then some s' else none
  | .call k done =>
    if (s'.commitIter = 0 ∧ 0 < s'.count) ∧ k < conf.commitCalls.length then
      some ((conf.commitCalls.take (CancelPoint.call k done).calls).foldl (call refuses) s')
    else none

/-- The rest of `producer_free`, once the worker has ended. -/
def freeBy (refuses : Bool) (conf : CopyConf σ) (s : CopyState σ) : CopyState σ :=
  { (if s.copy ≠ 0 then s.commitBy refuses conf else s) with freed := true }

end CopyState

/-- Every batch is closed once: the rows accepted are in batches on the master, each of them closed
by one trailer in the binary format and one end, and the replica has got the end of the batch that
was open. -/
structure ClosedOnce (conf : CopyConf σ) (rows : List Row) (s t : CopyState σ) : Prop where
  master : ∃ groups : List (List Row), groups.flatten = rows ∧
      t.master = groups.flatMap conf.closedBatch
  replica : conf.replica = true → t.replica = s.replica ++ if s.copy = 0 then [] else [.copyEnd]

/-! ### COPY mode -/

@[simp] theorem inCopy_command (events : List CopyEvent) (cpycmd : String) :
    inCopy (events ++ [.command cpycmd]) = true := by
  simp [inCopy]

@[simp] theorem inCopy_data (events : List CopyEvent) (bytes : List UInt8) :
    inCopy (events ++ [.data bytes]) = inCopy events := by
  simp [inCopy]

@[simp] theorem inCopy_copyEnd (events : List CopyEvent) :
    inCopy (events ++ [.copyEnd]) = false := by
  simp [inCopy]

theorem inCopy_row (events : List CopyEvent) (pieces : Row) :
    inCopy (events ++ pieces.map .data) = inCopy events := by
  induction pieces generalizing events with
  | nil => simp
  | cons piece pieces ih =>
    rw [List.map_cons, List.append_cons, ih, inCopy_data]

/-- `copy` says whether a COPY is going on. -/
structure CopyMode (conf : CopyConf σ) (s : CopyState σ) : Prop where
  master : inCopy s.master = decide (s.copy ≠ 0)
  replica : conf.replica = true → inCopy s.replica = decide (s.copy ≠ 0)

section Mode

variable {conf : CopyConf σ} {s t : CopyState σ}

theorem inCopy_opening (conf : CopyConf σ) (events : List CopyEvent) :
    inCopy (events ++ conf.opening) = true := by
  unfold CopyConf.opening
  split
  · rw [List.append_cons, inCopy_data, inCopy_command]
  · exact inCopy_command events conf.cpycmd

theorem inCopy_closing (conf : CopyConf σ) (events : List CopyEvent) :
    inCopy (events ++ conf.closing) = false := by
  rw [CopyConf.closing, ← List.append_assoc, inCopy_copyEnd]

theorem CopyMode.openCopy {ok : Bool × Bool} (h : CopyMode conf s)
    (hopen : s.openCopy conf ok = some t) :
    CopyMode conf t := by
  rcases CopyState.openCopy_eq_some hopen with ⟨-, rfl⟩ | ⟨-, rfl⟩
  · exact h
  · refine ⟨inCopy_opening conf s.master, fun hrep => ?_⟩
    simp only [CopyState.put, hrep, if_true]
    exact inCopy_opening conf s.replica

theorem CopyMode.commit (conf : CopyConf σ) (s : CopyState σ) : CopyMode conf (s.commit conf) := by
  refine ⟨inCopy_closing conf s.master, fun hrep => ?_⟩
  simp only [CopyState.commit, hrep, if_true]
  exact inCopy_copyEnd s.replica

theorem CopyMode.addRow (h : CopyMode conf s) (pieces : Row) :
    CopyMode conf (s.addRow conf pieces) := by
  unfold CopyState.addRow
  simp only
  split
  · exact CopyMode.commit conf _
  · refine ⟨(inCopy_row s.master pieces).trans h.master, fun hrep => ?_⟩
    simp only [CopyState.put, hrep, if_true]
    exact (inCopy_row s.replica pieces).trans (h.replica hrep)

theorem CopyStep.mode {s' : CopyState σ} {a : CopyAction} (h : CopyMode conf s)
    (hstep : CopyStep conf s a s') : CopyMode conf s' := by
  cases hstep with
  | early p ok hverdict => exact h
  | late p ok internal t hverdict hopen =>
    have ht := h.openCopy hopen
    exact ⟨ht.master, ht.replica⟩
  | row p ok pieces internal t hverdict hopen =>
    have ht := (h.openCopy hopen).addRow pieces
    exact ⟨ht.master, ht.replica⟩
  | tick =>
    unfold CopyState.tick
    simp only
    split
    · exact CopyMode.commit conf _
    · exact ⟨h.master, h.replica⟩
  | free =>
    unfold CopyState.free
    simp only
    split
    · have hcommit := CopyMode.commit conf s
      exact ⟨hcommit.master, hcommit.replica⟩
    · exact ⟨h.master, h.replica⟩

theorem copyMode_of_exec {internal : σ} {acts : List CopyAction}
    (hexec : exec (CopyState.step conf) (.init internal) acts = some s) : CopyMode conf s := by
  refine exec_invariant (P := CopyMode conf) ⟨rfl, fun _ => rfl⟩ ?_ hexec
  intro t a t' ht hst
  exact (CopyStep.of_step hst).2.mode ht

end Mode

/-! ### What the calls leave -/

/-- What a call puts on the master. -/
def CommitCall.master : CommitCall → Option CopyEvent
  | .trailer => some (.data bintrailer)
  | .masterEnd => some .copyEnd
  | .replicaEnd => none

/-- What a call puts on the replica. -/
def CommitCall.replica : CommitCall → Option CopyEvent
  | .trailer => none
  | .masterEnd => none
  | .replicaEnd => some .copyEnd

/-- Calls on one connection. -/
def putAll (refuses : Bool) (events evs : List CopyEvent) : List CopyEvent :=
  evs.foldl (putCopy refuses) events

/-- The calls act on each connection by themselves. -/
theorem foldl_call (refuses : Bool) (calls : List CommitCall) (s : CopyState σ) :
    calls.foldl (CopyState.call refuses) s =
      { s with
        master := putAll refuses s.master (calls.filterMap CommitCall.master)
        replica := putAll refuses s.replica (calls.filterMap CommitCall.replica) } := by
  induction calls generalizing s with
  | nil => rfl
  | cons c calls ih =>
    rw [List.foldl_cons, ih]
    cases c <;> rfl

/-- Data and the end of it. -/
def closingWith (datas : List (List UInt8)) : List CopyEvent := datas.map .data ++ [.copyEnd]

section Calls

variable {refuses : Bool} {events : List CopyEvent}

theorem putCopy_of_inCopy (hevents : inCopy events = true) (event : CopyEvent) :
    putCopy refuses events event = events ++ [event] := by
  simp [putCopy, hevents]

/-- Data is taken while a COPY is going on, which does not end it. -/
theorem putAll_data (hevents : inCopy events = true) (datas : List (List UInt8)) :
    putAll refuses events (datas.map .data) = events ++ datas.map .data ∧
      inCopy (events ++ datas.map .data) = true := by
  refine ⟨?_, (inCopy_row events datas).trans hevents⟩
  induction datas generalizing events with
  | nil => simp [putAll]
  | cons data datas ih =>
    have hstep := @ih (events ++ [.data data]) (by rw [inCopy_data, hevents])
    rw [putAll] at hstep ⊢
    rw [List.map_cons, List.foldl_cons, putCopy_of_inCopy hevents, hstep, List.append_assoc,
      List.singleton_append]

/-- Data and an end are taken while a COPY is going on. -/
theorem putAll_closing (hevents : inCopy events = true) (datas : List (List UInt8)) :
    putAll refuses events (closingWith datas) = events ++ closingWith datas := by
  obtain ⟨hdata, hgoing⟩ := @putAll_data refuses events hevents datas
  rw [putAll] at hdata ⊢
  rw [closingWith, List.foldl_append, hdata, List.foldl_cons, List.foldl_nil,
    putCopy_of_inCopy hgoing, List.append_assoc]

/-- Whatever is put on a connection after the end is refused, or not. -/
theorem putAll_of_not_inCopy (hevents : inCopy events = false) (evs : List CopyEvent) :
    putAll refuses events evs = if refuses then events else events ++ evs := by
  cases refuses with
  | true =>
    rw [if_pos rfl, putAll]
    induction evs with
    | nil => rfl
    | cons e evs ih =>
      have hrefused : putCopy true events e = events := by simp [putCopy, hevents]
      rw [List.foldl_cons, hrefused]
      exact ih
  | false =>
    rw [if_neg Bool.false_ne_true, putAll]
    clear hevents
    induction evs generalizing events with
    | nil => simp
    | cons e evs ih =>
      rw [List.foldl_cons, ih]
      simp [putCopy]

/-- What closes a batch is put on a connection twice, the first time only `n` events of it. -/
theorem putAll_twice (hevents : inCopy events = true) (datas : List (List UInt8)) (n : Nat) :
    putAll refuses (putAll refuses events ((closingWith datas).take n)) (closingWith datas) =
      if n ≤ datas.length then events ++ (datas.take n).map .data ++ closingWith datas
      else if refuses then events ++ closingWith datas
      else events ++ closingWith datas ++ closingWith datas := by
  by_cases hn : n ≤ datas.length
  · have htake : (closingWith datas).take n = (datas.take n).map .data := by
      rw [closingWith, List.take_append_of_le_length (by simpa using hn), List.map_take]
    have hdata := @putAll_data refuses events hevents (datas.take n)
    rw [if_pos hn, htake, hdata.1, putAll_closing hdata.2]
  · have hend : inCopy (events ++ closingWith datas) = false := by
      rw [closingWith, ← List.append_assoc, inCopy_copyEnd]
    have hlength : (closingWith datas).length ≤ n := by
      rw [closingWith, List.length_append, List.length_map, List.length_singleton]
      omega
    rw [if_neg hn, List.take_of_length_le hlength, putAll_closing hevents,
      putAll_of_not_inCopy hend]

end Calls

/-- The data of the trailer. -/
def CopyConf.trailerData (conf : CopyConf σ) : List (List UInt8) :=
  if conf.cpyfmt = .binary then [bintrailer] else []

theorem CopyConf.closing_eq (conf : CopyConf σ) : conf.closing = closingWith conf.trailerData := by
  unfold CopyConf.closing CopyConf.trailerData
  split <;> rfl

/-- What the first calls put on the connections: the calls on the master come first, and then the
one on the replica. -/
theorem CopyConf.filterMap_take_commitCalls (conf : CopyConf σ) (n : Nat) :
    (conf.commitCalls.take n).filterMap CommitCall.master = conf.closing.take n ∧
      (conf.commitCalls.take n).filterMap CommitCall.replica =
        if conf.replica = true ∧ conf.closing.length < n then [.copyEnd] else [] := by
  unfold CopyConf.commitCalls CopyConf.closing
  by_cases hfmt : conf.cpyfmt = .binary <;> by_cases hreplica : conf.replica = true <;>
    rcases n with _ | _ | _ | n <;>
    simp [hfmt, hreplica, List.filterMap_cons, CommitCall.master, CommitCall.replica]

/-- What the whole commit puts on the connections. -/
theorem CopyConf.filterMap_commitCalls (conf : CopyConf σ) :
    conf.commitCalls.filterMap CommitCall.master = conf.closing ∧
      conf.commitCalls.filterMap CommitCall.replica =
        if conf.replica = true then [.copyEnd] else [] := by
  unfold CopyConf.commitCalls CopyConf.closing
  by_cases hfmt : conf.cpyfmt = .binary <;> by_cases hreplica : conf.replica = true <;>
    simp [hfmt, hreplica, List.filterMap_cons, CommitCall.master, CommitCall.replica]

/-- What is on the connections after the calls of a commit that was cancelled and the commit of
`producer_free`. -/
theorem freeBy_foldl_call (refuses : Bool) (conf : CopyConf σ) {s : CopyState σ}
    (hcopy : s.copy ≠ 0) (n : Nat) :
    let t := (conf.commitCalls.take n).foldl (CopyState.call refuses) s
    (t.freeBy refuses conf).master =
        putAll refuses (putAll refuses s.master (conf.closing.take n)) conf.closing ∧
      (conf.replica = true → (t.freeBy refuses conf).replica =
        putAll refuses
          (putAll refuses s.replica (if conf.closing.length < n then [.copyEnd] else []))
          [.copyEnd]) := by
  intro t
  have ht : t = (conf.commitCalls.take n).foldl (CopyState.call refuses) s := rfl
  rw [foldl_call, (conf.filterMap_take_commitCalls n).1,
    (conf.filterMap_take_commitCalls n).2] at ht
  have hcopy' : t.copy ≠ 0 := by
    rw [ht]
    exact hcopy
  rw [CopyState.freeBy, if_pos hcopy', CopyState.commitBy, foldl_call, conf.filterMap_commitCalls.1,
    conf.filterMap_commitCalls.2, ht]
  refine ⟨rfl, fun hreplica => ?_⟩
  simp [hreplica]

/-! ### Batches that are closed once -/

/-- The events that are commands. -/
def CopyEvent.isCommand : CopyEvent → Bool
  | .command _ => true
  | .data _ => false
  | .copyEnd => false

section Groups

variable (conf : CopyConf σ)

theorem countP_isCommand_data (datas : List (List UInt8)) :
    (datas.map CopyEvent.data).countP CopyEvent.isCommand = 0 := by
  simp [List.countP_eq_zero, CopyEvent.isCommand]

theorem countP_isCommand_closing : conf.closing.countP CopyEvent.isCommand = 0 := by
  rw [conf.closing_eq, closingWith, List.countP_append, countP_isCommand_data]
  rfl

theorem countP_isCommand_closedBatch (rows : List Row) :
    (conf.closedBatch rows).countP CopyEvent.isCommand = 1 := by
  have hopening : conf.opening.countP CopyEvent.isCommand = 1 := by
    unfold CopyConf.opening
    split <;> rfl
  have hrows : (rows.flatMap (List.map CopyEvent.data)).countP CopyEvent.isCommand = 0 := by
    rw [List.countP_eq_zero]
    intro event hevent
    obtain ⟨row, -, hdata⟩ := List.mem_flatMap.mp hevent
    obtain ⟨bytes, -, rfl⟩ := List.mem_map.mp hdata
    exact Bool.false_ne_true
  rw [CopyConf.closedBatch, CopyConf.openBatch, List.countP_append, List.countP_append, hopening,
    hrows, countP_isCommand_closing]

theorem length_closedBatch (rows : List Row) :
    (conf.closedBatch rows).length =
      conf.opening.length + conf.closing.length + (rows.map List.length).sum := by
  have hrows : (rows.flatMap (List.map CopyEvent.data)).length = (rows.map List.length).sum := by
    rw [List.length_flatMap]
    simp
  rw [CopyConf.closedBatch, CopyConf.openBatch, List.length_append, List.length_append, hrows]
  omega

/-- Closed batches have a command each, and otherwise their rows decide how many events they are. -/
theorem flatMap_closedBatch_count (groups : List (List Row)) :
    (groups.flatMap conf.closedBatch).countP CopyEvent.isCommand = groups.length ∧
      (groups.flatMap conf.closedBatch).length =
        groups.length * (conf.opening.length + conf.closing.length) +
          (groups.flatten.map List.length).sum := by
  induction groups with
  | nil => simp
  | cons rows groups ih =>
    rw [List.flatMap_cons, List.countP_append, List.length_append, ih.1, ih.2,
      countP_isCommand_closedBatch, length_closedBatch, List.flatten_cons, List.map_append,
      List.sum_append, List.length_cons, Nat.add_mul]
    omega

/-- Events without a command cannot be put between closed batches with the same rows. -/
theorem eq_nil_of_closedBatch {groups groups' : List (List Row)}
    (hrows : groups.flatten = groups'.flatten) {before extra after : List CopyEvent}
    (hextra : extra.countP CopyEvent.isCommand = 0)
    (h : before ++ after = groups.flatMap conf.closedBatch)
    (h' : before ++ extra ++ after = groups'.flatMap conf.closedBatch) : extra = [] := by
  obtain ⟨hcount, hlength⟩ := flatMap_closedBatch_count conf groups
  obtain ⟨hcount', hlength'⟩ := flatMap_closedBatch_count conf groups'
  rw [← h, List.countP_append] at hcount
  rw [← h', List.countP_append, List.countP_append, hextra] at hcount'
  have hsame : groups.length = groups'.length := by omega
  rw [← h, List.length_append, hsame, hrows] at hlength
  rw [← h', List.length_append, List.length_append] at hlength'
  exact List.length_eq_zero_iff.mp (by omega)

end Groups

/-! ### Cancellation -/

/-- A worker that is cancelled has made some of the calls of a commit; unless it has made none, rows
were waiting. -/
theorem CopyState.cancelled_eq_some {refuses : Bool} {conf : CopyConf σ} {s t : CopyState σ}
    {point : CancelPoint} (h : s.cancelled refuses conf point = some t) :
    (point.calls = 0 ∨ 0 < s.count) ∧ ∃ iter, t =
      (conf.commitCalls.take point.calls).foldl (CopyState.call refuses) { s with
        commitIter := iter } := by
  unfold CopyState.cancelled at h
  cases point with
  | sleep => exact ⟨.inl rfl, s.commitIter, (Option.some.inj h).symm⟩
  | log =>
    simp only at h
    split_ifs at h with hdue
    exact ⟨.inl rfl, _, (Option.some.inj h).symm⟩
  | call k done =>
    simp only at h
    split_ifs at h with hdue
    exact ⟨.inr hdue.1.2, _, (Option.some.inj h).symm⟩

/-- The end of a batch is put on the replica a second time at most if libpq refuses it. -/
theorem putAll_replica {refuses : Bool} {events : List CopyEvent} (hevents : inCopy events = true)
    {done : Prop} [Decidable done] (h : done → refuses = true) :
    putAll refuses (putAll refuses events (if done then [.copyEnd] else [])) [.copyEnd] =
      events ++ [.copyEnd] := by
  split_ifs with hdone
  · have htwice := @putAll_twice refuses events hevents [] 1
    rw [if_neg (by decide), if_pos (h hdone)] at htwice
    exact htwice
  · exact putAll_closing hevents []

section Batch

variable {conf : CopyConf σ} {s₀ s t : CopyState σ} {acts : List CopyAction}
  {closed : List (List Row)}

/-- Without an open batch nothing is left to close. -/
theorem closedOnce_of_idle (hb : RunBatches conf s₀ acts s ⟨closed, none⟩)
    (hmaster : t.master = s.master) (hreplica : t.replica = s.replica) :
    ClosedOnce conf (acceptedRows conf s₀ acts) s t := by
  have hcopy : s.copy = 0 := hb.inv.copy_eq_zero_iff.mpr rfl
  refine ⟨⟨closed, ?_, ?_⟩, fun _ => ?_⟩
  · rw [← hb.rows, Batches.rows, Batches.waiting, Option.getD_none, List.append_nil]
  · rw [hmaster, hb.inv.master, Batches.events, Option.elim_none, List.append_nil]
  · rw [hreplica, if_pos hcopy, List.append_nil]

/-- The open batch is closed once exactly if nothing was put before its end. -/
theorem closedOnce_iff_of_open {rows : List Row}
    (hb : RunBatches conf s₀ acts s ⟨closed, some rows⟩) {extra : List CopyEvent}
    (hcount : extra.countP CopyEvent.isCommand = 0)
    (hmaster : t.master = s.master ++ extra ++ conf.closing)
    (hreplica : extra = [] → conf.replica = true → t.replica = s.replica ++ [.copyEnd]) :
    ClosedOnce conf (acceptedRows conf s₀ acts) s t ↔ extra = [] := by
  have hcopy : s.copy ≠ 0 := fun hzero => nomatch hb.inv.copy_eq_zero_iff.mp hzero
  have hbatches : s.master ++ conf.closing = (closed ++ [rows]).flatMap conf.closedBatch := by
    simp [hb.inv.master, Batches.events, CopyConf.closedBatch]
  have hflatten : (closed ++ [rows]).flatten = acceptedRows conf s₀ acts := by
    rw [← hb.rows, Batches.rows, Batches.waiting]
    simp
  constructor
  · rintro ⟨⟨groups, hgroups, hevents⟩, -⟩
    exact eq_nil_of_closedBatch conf (hflatten.trans hgroups.symm) hcount hbatches
      (hmaster.symm.trans hevents)
  · rintro rfl
    refine ⟨⟨closed ++ [rows], hflatten, ?_⟩, fun hconf => ?_⟩
    · rw [hmaster, List.append_nil, hbatches]
    · rw [hreplica rfl hconf, if_neg hcopy]

end Batch

/-- Whenever the worker is cancelled, every batch is closed once exactly if the commit had put
nothing on a connection yet, or had put the end on the master and libpq refuses what `producer_free`
puts there again. -/
theorem commit_cancelled_safe_iff (refuses : Bool) (conf : CopyConf σ) (internal : σ)
    (acts : List CopyAction) (s : CopyState σ)
    (hexec : exec (CopyState.step conf) (.init internal) acts = some s) (point : CancelPoint)
    (t : CopyState σ) (hpoint : s.cancelled refuses conf point = some t) :
    ClosedOnce conf (acceptedRows conf (.init internal) acts) s (t.freeBy refuses conf) ↔
      point.calls = 0 ∨ refuses = true ∧ conf.closing.length ≤ point.calls := by
  obtain ⟨⟨closed, current⟩, hb⟩ := exists_runBatches hexec
  have hmode := copyMode_of_exec hexec
  obtain ⟨hwait, iter, ht⟩ := CopyState.cancelled_eq_some hpoint
  cases current with
  | none =>
    -- no batch is open, so there was nothing to commit
    have hcopy : s.copy = 0 := hb.inv.copy_eq_zero_iff.mpr rfl
    have hcalls : point.calls = 0 := by
      refine hwait.resolve_right fun hpos => ?_
      rw [hb.inv.count] at hpos
      exact absurd hpos (Nat.lt_irrefl 0)
    rw [hcalls, List.take_zero, List.foldl_nil] at ht
    have hfree : (t.freeBy refuses conf).master = s.master ∧
        (t.freeBy refuses conf).replica = s.replica := by
      rw [ht, CopyState.freeBy, if_neg (not_not.mpr hcopy)]
      exact ⟨rfl, rfl⟩
    exact iff_of_true (closedOnce_of_idle hb hfree.1 hfree.2) (.inl hcalls)
  | some rows =>
    have hcopy : s.copy ≠ 0 := fun hzero => nomatch hb.inv.copy_eq_zero_iff.mp hzero
    have hgoing : inCopy s.master = true := by rw [hmode.master, decide_eq_true hcopy]
    have hclosing : conf.closing.length = conf.trailerData.length + 1 := by
      rw [conf.closing_eq, closingWith, List.length_append, List.length_map, List.length_singleton]
    obtain ⟨hfree, hfree'⟩ := freeBy_foldl_call refuses conf
      (s := { s with commitIter := iter }) hcopy point.calls
    rw [← ht] at hfree hfree'
    rw [conf.closing_eq, putAll_twice hgoing, ← conf.closing_eq] at hfree
    have hreplica : (conf.closing.length < point.calls → refuses = true) → conf.replica = true →
        (t.freeBy refuses conf).replica = s.replica ++ [.copyEnd] := by
      intro hrefuses hconf
      rw [hfree' hconf]
      exact putAll_replica ((hmode.replica hconf).trans (decide_eq_true hcopy)) hrefuses
    -- the cases are those of `putAll_twice`: before the end, behind it and refused, behind it
    split_ifs at hfree with hn hrefuses
    · rw [closedOnce_iff_of_open hb (countP_isCommand_data _) hfree fun _ => hreplica fun _ =>
        by omega, List.map_eq_nil_iff, List.take_eq_nil_iff, ← List.length_eq_zero_iff]
      omega
    · rw [← List.append_nil s.master] at hfree
      rw [closedOnce_iff_of_open hb rfl hfree fun _ => hreplica fun _ => hrefuses]
      exact iff_of_true rfl (.inr ⟨hrefuses, by omega⟩)
    · have hne : conf.closing ≠ [] := List.ne_nil_of_length_pos (by omega)
      rw [closedOnce_iff_of_open hb (countP_isCommand_closing conf) hfree fun hnil =>
        absurd hnil hne]
      refine iff_of_false hne ?_
      rintro (hzero | ⟨hrefuses', -⟩)
      · omega
      · exact hrefuses hrefuses'

/-- A worker that is cancelled in its sleep while a row is waiting. -/
theorem commit_cancelled_in_sleep :
    ∃ s, exec (CopyState.step (postgresConf .total .binary "COPY" true)) (.init ())
        [.produce ⟨[0, 0], 0⟩ (true, true), .tick] = some s ∧
      ClosedOnce (postgresConf .total .binary "COPY" true)
        (acceptedRows (postgresConf .total .binary "COPY" true) (.init ())
          [.produce ⟨[0, 0], 0⟩ (true, true), .tick])
        s (s.freeBy true (postgresConf .total .binary "COPY" true)) :=
  exists_of_exec_isSome (by decide) fun s hexec =>
    (commit_cancelled_safe_iff true _ () _ s hexec .sleep s rfl).mpr (.inl rfl)

/-- A worker that is cancelled inside the call with the trailer, after it has put it on the
connection: the batch gets a second one, whether or not libpq refuses anything. -/
theorem cancelled_commit_repeats_trailer :
    (∀ refuses : Bool,
      ((exec (CopyState.step (postgresConf .total .binary "COPY" false)) (.init ())
          (.produce ⟨[0, 0], 0⟩ (true, true) :: List.replicate 15 .tick)).bind fun s =>
            s.cancelled refuses (postgresConf .total .binary "COPY" false) (.call 0 true)).map
          (fun t => (t.freeBy refuses (postgresConf .total .binary "COPY" false)).master) =
        some [.command "COPY", .data binheader, .data [0, 0], .data bintrailer, .data bintrailer,
          .copyEnd]) ∧
    ∀ groups : List (List Row), groups.flatten = [[[0, 0]]] →
      groups.flatMap (postgresConf .total .binary "COPY" false).closedBatch ≠
        [.command "COPY", .data binheader, .data [0, 0], .data bintrailer, .data bintrailer,
          .copyEnd] := by
  refine ⟨by decide, fun groups hgroups hevents => ?_⟩
  have hextra :=
    @eq_nil_of_closedBatch Unit (postgresConf .total .binary "COPY" false) [[[[0, 0]]]] groups
    hgroups.symm [.command "COPY", .data binheader, .data [0, 0]] [.data bintrailer]
    [.data bintrailer, .copyEnd] rfl rfl hevents.symm
  cases hextra

end Schaufel
