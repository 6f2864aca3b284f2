import Schaufel.Foundation.Run
import Schaufel.Postgres.Model

/-!
# The batches of a COPY producer

What a producer puts on the master is a sequence of closed batches and at most one open batch
(`Batches`).  Three places close a batch (the row limit, a round of the commit worker,
`producer_free`) and one opens it; `BatchInv` ties the counters of `Meta` to the open batch, and
every step keeps it and appends the row of its message, if there is one, to the rows of the batches
(`CopyStep.batches`).

A row that is not in a closed batch has seen no more rounds of the commit worker than `commit_iter`
counts, since the worker starts to count anew only at a commit or while no row is waiting.

The replica gets the same events as the master, except the trailer of the binary format.
-/

namespace Schaufel

variable {σ : Type}

/-! ### The steps of a producer -/

/-- What one step of a producer does. -/
inductive CopyStep (conf : CopyConf σ) (s : CopyState σ) : CopyAction → CopyState σ → Prop
  | early (p : Payload) (ok : Bool × Bool) (hverdict : conf.verdict s.internal p = some .early) :
      CopyStep conf s (.produce p ok) s
  | late (p : Payload) (ok : Bool × Bool) (internal : σ) (t : CopyState σ)
      (hverdict : conf.verdict s.internal p = some (.late internal))
      (hopen : s.openCopy conf ok = some t) :
      CopyStep conf s (.produce p ok) { t with internal := internal }
  | row (p : Payload) (ok : Bool × Bool) (pieces : Row) (internal : σ) (t : CopyState σ)
      (hverdict : conf.verdict s.internal p = some (.row pieces internal))
      (hopen : s.openCopy conf ok = some t) :
      CopyStep conf s (.produce p ok) { t.addRow conf pieces with internal := internal }
  | tick : CopyStep conf s .tick (s.tick conf)
  | free : CopyStep conf s .free (s.free conf)

theorem CopyStep.of_step {conf : CopyConf σ} {s s' : CopyState σ} {a : CopyAction}
    (h : s.step conf a = some s') : s.freed = false ∧ CopyStep conf s a s' := by
  unfold CopyState.step at h
  by_cases hfreed : s.freed = true
  · rw [if_pos hfreed] at h
    cases h
  rw [if_neg hfreed] at h
  refine ⟨by simpa using hfreed, ?_⟩
  cases a with
  | produce p ok =>
    simp only [CopyState.produce] at h
    split at h
    · cases h
    · rename_i hverdict
      obtain rfl := Option.some.inj h
      exact .early p ok hverdict
    · rename_i internal hverdict
      obtain ⟨t, hopen, rfl⟩ := Option.map_eq_some_iff.mp h
      exact .late p ok internal t hverdict hopen
    · rename_i pieces internal hverdict
      obtain ⟨t, hopen, rfl⟩ := Option.map_eq_some_iff.mp h
      exact .row p ok pieces internal t hverdict hopen
  | tick =>
    obtain rfl := Option.some.inj h
    exact .tick
  | free =>
    obtain rfl := Option.some.inj h
    exact .free

/-- A batch is open afterwards: either it was, or it is opened now. -/
theorem CopyState.openCopy_eq_some {conf : CopyConf σ} {s t : CopyState σ} {ok : Bool × Bool}
    (h : s.openCopy conf ok = some t) :
    s.copy ≠ 0 ∧ t = s ∨ s.copy = 0 ∧ t = { s.put conf conf.opening with copy := 1 } := by
  unfold CopyState.openCopy at h
  by_cases hcopy : s.copy = 0
  · rw [if_pos hcopy] at h
    split at h
    · exact .inr ⟨hcopy, (Option.some.inj h).symm⟩
    · cases h
  · rw [if_neg hcopy] at h
    exact .inl ⟨hcopy, (Option.some.inj h).symm⟩

/-- The row of the message that a step produces, if the producer accepts it. -/
def acceptedRow (conf : CopyConf σ) (s : CopyState σ) : CopyAction → List Row
  | .produce p _ =>
    match conf.verdict s.internal p with
    | some (.row pieces _) => [pieces]
    | _ => []
  | .tick => []
  | .free => []

/-- The rows of the accepted messages of a run, in the order in which they are produced. -/
def acceptedRows (conf : CopyConf σ) : CopyState σ → List CopyAction → List Row :=
  outputs (CopyState.step conf) (acceptedRow conf)

theorem mem_acceptedRow {conf : CopyConf σ} {s : CopyState σ} {p : Payload} {ok : Bool × Bool}
    {pieces : Row} :
    pieces ∈ acceptedRow conf s (.produce p ok) ↔
      ∃ internal, conf.verdict s.internal p = some (.row pieces internal) := by
  rcases hverdict : conf.verdict s.internal p with _ | _ | internal | ⟨pieces', internal⟩ <;>
    simp [acceptedRow, hverdict, eq_comm]

/-- What a call of `produce` puts on the master: a row and what is needed to open and close its
batch, or at most what opens a batch. -/
theorem CopyState.produce_master {conf : CopyConf σ} {s s' : CopyState σ} {p : Payload}
    {ok : Bool × Bool} (h : s.produce conf p ok = some s') :
    (acceptedRow conf s (.produce p ok) = [] →
        s'.master = s.master ∨ s.copy = 0 ∧ s'.master = s.master ++ conf.opening) ∧
      ∀ pieces ∈ acceptedRow conf s (.produce p ok), s'.master =
        s.master ++ (if s.copy = 0 then conf.opening else []) ++ pieces.map .data ++
          if s.count + 1 = 2000 then conf.closing else [] := by
  have hopened : ∀ t, s.openCopy conf ok = some t →
      t.master = s.master ++ (if s.copy = 0 then conf.opening else []) ∧ t.count = s.count := by
    intro t hopen
    rcases CopyState.openCopy_eq_some hopen with ⟨hcopy, rfl⟩ | ⟨hcopy, rfl⟩
    · simp [hcopy]
    · simp [hcopy, CopyState.put]
  unfold CopyState.produce at h
  rcases hverdict : conf.verdict s.internal p with _ | _ | internal | ⟨pieces, internal⟩ <;>
    simp only [acceptedRow, hverdict] at h ⊢
  · cases h
  · obtain rfl := Option.some.inj h
    exact ⟨fun _ => .inl rfl, List.forall_mem_nil _⟩
  · obtain ⟨t, hopen, rfl⟩ := Option.map_eq_some_iff.mp h
    obtain ⟨hmaster, -⟩ := hopened t hopen
    refine ⟨fun _ => ?_, List.forall_mem_nil _⟩
    show t.master = s.master ∨ s.copy = 0 ∧ t.master = s.master ++ conf.opening
    by_cases hcopy : s.copy = 0
    · exact .inr ⟨hcopy, by rw [hmaster, if_pos hcopy]⟩
    · exact .inl (by rw [hmaster, if_neg hcopy, List.append_nil])
  · obtain ⟨t, hopen, rfl⟩ := Option.map_eq_some_iff.mp h
    obtain ⟨hmaster, hcount⟩ := hopened t hopen
    refine ⟨fun hnil => absurd hnil (List.cons_ne_nil _ _), fun pieces' hmem => ?_⟩
    obtain rfl := List.mem_singleton.mp hmem
    show (t.addRow conf pieces').master = _
    unfold CopyState.addRow
    by_cases hfull : s.count + 1 = 2000
    · simp [hcount, hfull, CopyState.commit, CopyState.put, hmaster]
    · simp [hcount, hfull, CopyState.put, hmaster]

/-- The step closes the open batch: its row is the 2000th one, a row is waiting when the worker's
count comes back to 0, or the producer is freed. -/
def Closes (conf : CopyConf σ) (s : CopyState σ) : CopyAction → Prop
  | .produce p ok => acceptedRow conf s (.produce p ok) ≠ [] ∧ s.count + 1 = 2000
  | .tick => (s.commitIter + 1) &&& 0xF = 0 ∧ 0 < s.count
  | .free => s.copy ≠ 0

instance Closes.decidable (conf : CopyConf σ) (s : CopyState σ) :
    (a : CopyAction) → Decidable (Closes conf s a)
  | .produce p ok =>
    inferInstanceAs (Decidable (acceptedRow conf s (.produce p ok) ≠ [] ∧ s.count + 1 = 2000))
  | .tick => inferInstanceAs (Decidable ((s.commitIter + 1) &&& 0xF = 0 ∧ 0 < s.count))
  | .free => inferInstanceAs (Decidable (s.copy ≠ 0))

/-! ### Batches -/

/-- The rows of an open batch, as they stand on the master. -/
def CopyConf.openBatch (conf : CopyConf σ) (rows : List Row) : List CopyEvent :=
  conf.opening ++ rows.flatMap (List.map .data)

/-- A closed batch, as it stands on the master. -/
def CopyConf.closedBatch (conf : CopyConf σ) (rows : List Row) : List CopyEvent :=
  conf.openBatch rows ++ conf.closing

/-- The closed batches and the open batch, if there is one. -/
structure Batches where
  closed : List (List Row)
  current : Option (List Row)

namespace Batches

/-- The events of the batches. -/
def events (conf : CopyConf σ) (b : Batches) : List CopyEvent :=
  b.closed.flatMap conf.closedBatch ++ b.current.elim [] conf.openBatch

/-- The rows that are not committed. -/
def waiting (b : Batches) : List Row := b.current.getD []

/-- All rows. -/
def rows (b : Batches) : List Row := b.closed.flatten ++ b.waiting

theorem length_rows (b : Batches) : b.rows.length = b.closed.flatten.length + b.waiting.length :=
  List.length_append

end Batches

/-- The counters of a producer describe the open batch. -/
structure BatchInv (conf : CopyConf σ) (s : CopyState σ) (b : Batches) : Prop where
  /-- The batches are what is on the master. -/
  master : s.master = b.events conf
  /-- No closed batch has more than 2000 rows. -/
  closed_le : ∀ rows ∈ b.closed, rows.length ≤ 2000
  /-- The open batch is not full. -/
  waiting_lt : b.waiting.length < 2000
  /-- `copy` says whether a batch is open. -/
  copy : s.copy = if b.current.isSome then 1 else 0
  /-- `count` is the number of its rows. -/
  count : s.count = b.waiting.length
  /-- `commit_iter` has four bits. -/
  iter : s.commitIter < 16
  /-- Nothing is open after `producer_free`. -/
  freed : s.freed = true → b.current = none

theorem BatchInv.init (conf : CopyConf σ) (internal : σ) :
    BatchInv conf (.init internal) ⟨[], none⟩ where
  master := rfl
  closed_le _ h := nomatch h
  waiting_lt := by decide
  copy := rfl
  count := rfl
  iter := Nat.zero_lt_succ 15
  freed _ := rfl

section Primitives

variable {conf : CopyConf σ} {s t : CopyState σ} {b : Batches}

/-- A batch is open exactly if `copy` is not 0. -/
theorem BatchInv.copy_eq_zero_iff (h : BatchInv conf s b) : s.copy = 0 ↔ b.current = none := by
  rw [h.copy]
  cases b.current <;> simp

/-- Opening a batch gives the same batches with an open one. -/
theorem BatchInv.openCopy {ok : Bool × Bool} (h : BatchInv conf s b) (hfreed : s.freed = false)
    (hopen : s.openCopy conf ok = some t) :
    BatchInv conf t ⟨b.closed, some b.waiting⟩ ∧ t.commitIter = s.commitIter ∧ t.freed = false := by
  obtain ⟨closed, current⟩ := b
  rcases CopyState.openCopy_eq_some hopen with ⟨hcopy, rfl⟩ | ⟨hcopy, rfl⟩
  · obtain ⟨rows, rfl⟩ : ∃ rows, current = some rows :=
      Option.ne_none_iff_exists'.mp fun hnone => hcopy (h.copy_eq_zero_iff.mpr hnone)
    exact ⟨h, rfl, hfreed⟩
  · obtain rfl : current = none := h.copy_eq_zero_iff.mp hcopy
    refine ⟨⟨?_, h.closed_le, h.waiting_lt, rfl, h.count, h.iter, ?_⟩, rfl, hfreed⟩
    · simp [CopyState.put, h.master, Batches.events, Batches.waiting, CopyConf.openBatch]
    · intro hfreed'
      exact absurd (hfreed.symm.trans hfreed') (by decide)

/-- `commit` closes the open batch. -/
theorem BatchInv.commit {rows : List Row}
    (hmaster : s.master = (Batches.mk b.closed (some rows)).events conf)
    (hclosed : ∀ rows ∈ b.closed, rows.length ≤ 2000) (hrows : rows.length ≤ 2000) :
    BatchInv conf (s.commit conf) ⟨b.closed ++ [rows], none⟩ where
  master := by
    simp [CopyState.commit, hmaster, Batches.events, CopyConf.closedBatch]
  closed_le := by
    intro rows' hmem
    rcases List.mem_append.mp hmem with hmem | hmem
    · exact hclosed rows' hmem
    · rw [List.mem_singleton.mp hmem]
      exact hrows
  waiting_lt := Nat.zero_lt_succ 1999
  copy := rfl
  count := rfl
  iter := Nat.zero_lt_succ 15
  freed _ := rfl

/-- A row joins the open batch; a full batch is closed, and otherwise the worker's count stays as it
is. -/
theorem BatchInv.addRow {rows : List Row} (pieces : Row)
    (h : BatchInv conf s ⟨b.closed, some rows⟩) (hfreed : s.freed = false) :
    ∃ b', BatchInv conf (s.addRow conf pieces) b' ∧
      b'.rows = b.closed.flatten ++ rows ++ [pieces] ∧
      (b'.waiting = [] ∨
        b'.closed = b.closed ∧ (s.addRow conf pieces).commitIter = s.commitIter) := by
  have hcount : s.count = rows.length := h.count
  have hlt : rows.length < 2000 := h.waiting_lt
  have hmaster : (s.put conf (pieces.map .data)).master =
      (Batches.mk b.closed (some (rows ++ [pieces]))).events conf := by
    simp [CopyState.put, h.master, Batches.events, CopyConf.openBatch]
  unfold CopyState.addRow
  by_cases hfull : s.count + 1 = 2000
  · refine ⟨⟨b.closed ++ [rows ++ [pieces]], none⟩, ?_, ?_, .inl rfl⟩
    · simp only [hfull, if_true]
      refine BatchInv.commit (b := b) hmaster h.closed_le ?_
      simp only [List.length_append, List.length_singleton]
      omega
    · simp [Batches.rows, Batches.waiting]
  · refine ⟨⟨b.closed, some (rows ++ [pieces])⟩, ?_, ?_, .inr ⟨rfl, ?_⟩⟩
    · simp only [hfull, if_false]
      refine ⟨hmaster, h.closed_le, ?_, h.copy, ?_, h.iter, ?_⟩
      · simp only [Batches.waiting, Option.getD_some, List.length_append, List.length_singleton]
        omega
      · simp [Batches.waiting, hcount]
      · intro hfreed'
        exact absurd (hfreed.symm.trans hfreed') (by decide)
    · simp [Batches.rows, Batches.waiting]
    · simp [hfull, CopyState.put]

end Primitives

/-- A round of the worker commits the waiting rows or counts, unless no row is waiting. -/
theorem BatchInv.tick {conf : CopyConf σ} {s : CopyState σ} {b : Batches} (h : BatchInv conf s b) :
    ∃ b', BatchInv conf (s.tick conf) b' ∧ b'.rows = b.rows ∧
      (b'.waiting = [] ∨ b'.closed = b.closed ∧ (s.tick conf).commitIter = s.commitIter + 1) := by
  obtain ⟨closed, current⟩ := b
  have hmod : (s.commitIter + 1) &&& 0xF = (s.commitIter + 1) % 16 :=
    Nat.and_two_pow_sub_one_eq_mod (s.commitIter + 1) 4
  have hiter := h.iter
  unfold CopyState.tick
  by_cases hdue : (s.commitIter + 1) &&& 0xF = 0 ∧ 0 < s.count
  · -- A row is waiting, so there is a batch to close.
    obtain ⟨rows, rfl⟩ : ∃ rows, current = some rows := by
      refine Option.ne_none_iff_exists'.mp fun hnone => ?_
      have hcount := h.count
      rw [hnone] at hcount
      exact absurd hdue.2 (by simp [hcount, Batches.waiting])
    refine ⟨⟨closed ++ [rows], none⟩, ?_, ?_, .inl rfl⟩
    · simp only [hdue, and_self, if_true]
      exact BatchInv.commit (b := ⟨closed, some rows⟩) h.master h.closed_le
        (Nat.le_of_lt h.waiting_lt)
    · simp [Batches.rows, Batches.waiting]
  · refine ⟨⟨closed, current⟩, ?_, rfl, ?_⟩
    · rw [if_neg hdue]
      refine ⟨h.master, h.closed_le, h.waiting_lt, h.copy, h.count, ?_, h.freed⟩
      show (s.commitIter + 1) &&& 0xF < 16
      omega
    · rw [if_neg hdue]
      by_cases hzero : (s.commitIter + 1) &&& 0xF = 0
      · left
        have hcount : s.count = 0 := by
          by_contra hne
          exact hdue ⟨hzero, Nat.pos_of_ne_zero hne⟩
        exact List.eq_nil_of_length_eq_zero (h.count.symm.trans hcount)
      · right
        refine ⟨rfl, ?_⟩
        show (s.commitIter + 1) &&& 0xF = s.commitIter + 1
        omega

/-- `producer_free` closes the open batch. -/
theorem BatchInv.free {conf : CopyConf σ} {s : CopyState σ} {b : Batches} (h : BatchInv conf s b) :
    ∃ b', BatchInv conf (s.free conf) b' ∧ b'.rows = b.rows ∧ b'.waiting = [] := by
  obtain ⟨closed, current⟩ := b
  unfold CopyState.free
  cases current with
  | none =>
    have hcopy : s.copy = 0 := h.copy_eq_zero_iff.mpr rfl
    refine ⟨⟨closed, none⟩, ?_, rfl, rfl⟩
    rw [if_neg (by simp [hcopy])]
    exact ⟨h.master, h.closed_le, h.waiting_lt, h.copy, h.count, h.iter, fun _ => rfl⟩
  | some rows =>
    have hcopy : s.copy ≠ 0 := fun hzero => nomatch h.copy_eq_zero_iff.mp hzero
    refine ⟨⟨closed ++ [rows], none⟩, ?_, ?_, rfl⟩
    · rw [if_pos hcopy]
      have hcommit := BatchInv.commit (b := ⟨closed, some rows⟩) h.master h.closed_le
        (Nat.le_of_lt h.waiting_lt)
      exact ⟨hcommit.master, hcommit.closed_le, hcommit.waiting_lt, hcommit.copy, hcommit.count,
        hcommit.iter, fun _ => rfl⟩
    · simp [Batches.rows, Batches.waiting]

/-- The counters do not depend on `internal`. -/
theorem BatchInv.setInternal {conf : CopyConf σ} {s : CopyState σ} {b : Batches}
    (h : BatchInv conf s b) (internal : σ) : BatchInv conf { s with internal := internal } b :=
  ⟨h.master, h.closed_le, h.waiting_lt, h.copy, h.count, h.iter, h.freed⟩

/-- A step appends the row of its message to the rows of the batches.  Afterwards no row is waiting,
or the worker has counted the step if it was a round. -/
theorem CopyStep.batches {conf : CopyConf σ} {s s' : CopyState σ} {a : CopyAction} {b : Batches}
    (h : BatchInv conf s b) (hfreed : s.freed = false) (hstep : CopyStep conf s a s') :
    ∃ b', BatchInv conf s' b' ∧ b'.rows = b.rows ++ acceptedRow conf s a ∧
      (b'.waiting = [] ∨
        b'.closed = b.closed ∧ s'.commitIter = s.commitIter + [a].count .tick) := by
  cases hstep with
  | early p ok hverdict => exact ⟨b, h, by simp [acceptedRow, hverdict], .inr ⟨rfl, rfl⟩⟩
  | late p ok internal t hverdict hopen =>
    obtain ⟨hinv, hiter, -⟩ := h.openCopy hfreed hopen
    exact ⟨_, hinv.setInternal internal,
      by simp [acceptedRow, hverdict, Batches.rows, Batches.waiting], .inr ⟨rfl, hiter⟩⟩
  | row p ok pieces internal t hverdict hopen =>
    obtain ⟨hinv, hiter, hfreed'⟩ := h.openCopy hfreed hopen
    obtain ⟨b', hb', hrows, hwait⟩ := hinv.addRow pieces hfreed'
    refine ⟨b', hb'.setInternal internal, ?_,
      hwait.imp_right fun hsame => ⟨hsame.1, hsame.2.trans hiter⟩⟩
    simpa [acceptedRow, hverdict, Batches.rows] using hrows
  | tick =>
    obtain ⟨b', hb', hrows, hwait⟩ := h.tick
    exact ⟨b', hb', by simpa [acceptedRow] using hrows, by simpa using hwait⟩
  | free =>
    obtain ⟨b', hb', hrows, hwait⟩ := h.free
    exact ⟨b', hb', by simpa [acceptedRow] using hrows, .inl hwait⟩

/-! ### Runs -/

/-- The batches of a run: they hold the accepted rows, and a row that waits has not seen more rounds
of the worker than `commit_iter` counts. -/
structure RunBatches (conf : CopyConf σ) (s₀ : CopyState σ) (acts : List CopyAction)
    (s : CopyState σ) (b : Batches) : Prop where
  /-- The counters describe the open batch. -/
  inv : BatchInv conf s b
  /-- The rows of the batches are the accepted rows. -/
  rows : b.rows = acceptedRows conf s₀ acts
  /-- Row `n`, accepted in `pre`, is waiting; the worker counted the rounds of `mid`. -/
  young : ∀ pre mid n, acts = pre ++ mid → b.closed.flatten.length ≤ n →
    n < (acceptedRows conf s₀ pre).length → mid.count .tick ≤ s.commitIter

/-- The batches of a run, and the batches of the run with one more step. -/
theorem RunBatches.concat {conf : CopyConf σ} {s₀ s s' : CopyState σ} {acts : List CopyAction}
    {a : CopyAction} {b : Batches} (h : RunBatches conf s₀ acts s b)
    (hexec : exec (CopyState.step conf) s₀ acts = some s) (hst : s.step conf a = some s') :
    ∃ b', RunBatches conf s₀ (acts ++ [a]) s' b' := by
  obtain ⟨hfreed, hstep⟩ := CopyStep.of_step hst
  obtain ⟨b', hb', hrows, hwait⟩ := hstep.batches h.inv hfreed
  have hall : b'.rows = acceptedRows conf s₀ (acts ++ [a]) := by
    rw [hrows, h.rows]
    exact (outputs_concat a hexec).symm
  refine ⟨b', hb', hall, ?_⟩
  intro pre mid n hsplit hn hpre
  -- The last step belongs to `mid`, unless `mid` is empty and there is nothing to count.
  rcases List.eq_nil_or_concat mid with rfl | ⟨mid, a', rfl⟩
  · exact Nat.zero_le _
  rw [List.concat_eq_append, ← List.append_assoc] at hsplit
  obtain ⟨hacts, rfl⟩ := List.append_inj' hsplit rfl |>.imp_right fun h => List.singleton_inj.mp h
  have hle : (acceptedRows conf s₀ pre).length ≤ b'.rows.length := by
    rw [hall, hacts, List.append_assoc]
    exact (outputs_le_append _ _ s₀ pre (mid ++ [a])).length_le
  rcases hwait with hnone | ⟨hclosed, hiter⟩
  · rw [b'.length_rows, hnone, List.length_nil] at hle
    omega
  · have hmid := h.young pre mid n hacts (hclosed ▸ hn) hpre
    rw [List.concat_eq_append, List.count_append, hiter]
    omega

/-- Every run has its batches. -/
theorem exists_runBatches {conf : CopyConf σ} {internal : σ} {acts : List CopyAction}
    {s : CopyState σ} (hexec : exec (CopyState.step conf) (.init internal) acts = some s) :
    ∃ b, RunBatches conf (.init internal) acts s b := by
  refine exec_induction (P := fun acts s => ∃ b, RunBatches conf (.init internal) acts s b)
    ?_ ?_ hexec
  · refine ⟨⟨[], none⟩, .init conf internal, rfl, ?_⟩
    intro pre mid n hsplit _ hpre
    obtain ⟨rfl, -⟩ := List.append_eq_nil_iff.mp hsplit.symm
    exact absurd hpre (Nat.not_lt_zero n)
  · rintro acts t a t' ht ⟨b, hb⟩ hst
    exact hb.concat ht hst

/-- For every run of a COPY producer, whatever it makes of messages: the events on the master are
batches of at most 2000 rows, the last of them possibly open; `copy` and `count` describe the open
batch; the rows of the batches are the rows of the accepted messages, in order; a row that is in no
closed batch has seen fewer than 16 rounds of the commit worker; and no batch is open after
`producer_free`. -/
theorem copy_batching (conf : CopyConf σ) (internal : σ) (acts : List CopyAction) (s : CopyState σ)
    (hexec : exec (CopyState.step conf) (.init internal) acts = some s) :
    ∃ b : Batches, s.master = b.events conf ∧
      (∀ rows ∈ b.closed, rows.length ≤ 2000) ∧ (∀ rows ∈ b.current, rows.length ≤ 2000) ∧
      (s.copy = if b.current.isSome then 1 else 0) ∧ s.count = b.waiting.length ∧
      (0 < s.count → s.copy = 1) ∧
      b.rows = acceptedRows conf (.init internal) acts ∧
      (∀ pre mid n, acts = pre ++ mid → b.closed.flatten.length ≤ n →
        n < (acceptedRows conf (.init internal) pre).length → mid.count .tick < 16) ∧
      (s.freed = true → b.current = none) := by
  obtain ⟨b, h⟩ := exists_runBatches hexec
  refine ⟨b, h.inv.master, h.inv.closed_le, ?_, h.inv.copy, h.inv.count, ?_, h.rows, ?_,
    h.inv.freed⟩
  · intro rows hrows
    have hlt := h.inv.waiting_lt
    rw [Batches.waiting, Option.mem_def.mp hrows, Option.getD_some] at hlt
    exact Nat.le_of_lt hlt
  · intro hpos
    rw [h.inv.copy, if_pos]
    by_contra hnone
    rw [h.inv.count, Batches.waiting, Option.not_isSome_iff_eq_none.mp hnone] at hpos
    exact absurd hpos (by decide)
  · intro pre mid n hsplit hn hpre
    exact Nat.lt_of_le_of_lt (h.young pre mid n hsplit hn hpre) h.inv.iter

/-- Two rows with a round of the worker between them, and `producer_free`. -/
theorem copy_batching_two_rows :
    ∃ s, exec (CopyState.step (postgresConf .total .binary "COPY" false)) (.init ())
        [.produce ⟨[0, 0], 0⟩ (true, true), .tick, .produce ⟨[0, 0], 0⟩ (true, true), .free] =
          some s ∧
    ∃ b : Batches, s.master = b.events (postgresConf .total .binary "COPY" false) ∧
      (∀ rows ∈ b.closed, rows.length ≤ 2000) ∧ (∀ rows ∈ b.current, rows.length ≤ 2000) ∧
      (s.copy = if b.current.isSome then 1 else 0) ∧ s.count = b.waiting.length ∧
      (0 < s.count → s.copy = 1) ∧
      b.rows = acceptedRows (postgresConf .total .binary "COPY" false) (.init ())
        [.produce ⟨[0, 0], 0⟩ (true, true), .tick, .produce ⟨[0, 0], 0⟩ (true, true), .free] ∧
      (∀ pre mid n,
        [.produce ⟨[0, 0], 0⟩ (true, true), .tick, .produce ⟨[0, 0], 0⟩ (true, true), .free] =
          pre ++ mid →
        b.closed.flatten.length ≤ n →
        n < (acceptedRows (postgresConf .total .binary "COPY" false) (.init ()) pre).length →
        mid.count .tick < 16) ∧
      (s.freed = true → b.current = none) :=
  exists_of_exec_isSome (by decide) fun s hexec => copy_batching _ () _ s hexec

/-! ### The replica -/

/-- The replica has the events of the master without the trailers: the two are the same if there are
no trailers, and otherwise the master has one event more for each closed batch. -/
structure Mirrored (fmt : Format) (master replica : List CopyEvent) : Prop where
  /-- There is no trailer. -/
  same : fmt ≠ .binary ∨ .copyEnd ∉ master → replica = master
  /-- There is a trailer for each closed batch. -/
  length : fmt = .binary → master.length = replica.length + master.count .copyEnd

theorem Mirrored.eq_iff {fmt : Format} {master replica : List CopyEvent}
    (h : Mirrored fmt master replica) : replica = master ↔ fmt ≠ .binary ∨ .copyEnd ∉ master := by
  refine ⟨fun heq => ?_, h.same⟩
  by_cases hfmt : fmt = .binary
  · right
    have hlen := h.length hfmt
    rw [heq] at hlen
    exact List.count_eq_zero.mp (by omega)
  · exact .inl hfmt

/-- What is put on both keeps them alike. -/
theorem Mirrored.append {fmt : Format} {master replica : List CopyEvent}
    (h : Mirrored fmt master replica) {evs : List CopyEvent} (hevs : .copyEnd ∉ evs) :
    Mirrored fmt (master ++ evs) (replica ++ evs) where
  same hcond := by
    rw [h.same (hcond.imp_right fun hend hmem => hend (List.mem_append_left evs hmem))]
  length hfmt := by
    have hlen := h.length hfmt
    rw [List.length_append, List.length_append, List.count_append, List.count_eq_zero.mpr hevs]
    omega

/-- `commit` puts the trailer on the master only. -/
theorem Mirrored.close {conf : CopyConf σ} {master replica : List CopyEvent}
    (h : Mirrored conf.cpyfmt master replica) :
    Mirrored conf.cpyfmt (master ++ conf.closing) (replica ++ [.copyEnd]) where
  same hcond := by
    have hfmt : conf.cpyfmt ≠ .binary := by
      refine hcond.resolve_right fun hend => hend ?_
      simp [CopyConf.closing]
    rw [h.same (.inl hfmt)]
    simp [CopyConf.closing, hfmt]
  length hfmt := by
    have hlen := h.length hfmt
    have hclosing : conf.closing = [.data bintrailer, .copyEnd] := by
      simp [CopyConf.closing, hfmt]
    have hcount : [CopyEvent.data bintrailer, .copyEnd].count .copyEnd = 1 := by decide
    rw [hclosing, List.count_append, hcount, List.length_append, List.length_append]
    simp only [List.length_cons, List.length_nil]
    omega

section Replica

variable {conf : CopyConf σ} {s t : CopyState σ}

theorem Mirrored.openCopy {ok : Bool × Bool} (hrep : conf.replica = true)
    (h : Mirrored conf.cpyfmt s.master s.replica) (hopen : s.openCopy conf ok = some t) :
    Mirrored conf.cpyfmt t.master t.replica := by
  rcases CopyState.openCopy_eq_some hopen with ⟨-, rfl⟩ | ⟨-, rfl⟩
  · exact h
  · simp only [CopyState.put, hrep, if_true]
    refine h.append ?_
    unfold CopyConf.opening
    split <;> simp

theorem Mirrored.commit (hrep : conf.replica = true) (h : Mirrored conf.cpyfmt s.master s.replica) :
    Mirrored conf.cpyfmt (s.commit conf).master (s.commit conf).replica := by
  simp only [CopyState.commit, hrep, if_true]
  exact h.close

theorem Mirrored.addRow (hrep : conf.replica = true) (h : Mirrored conf.cpyfmt s.master s.replica)
    (pieces : Row) :
    Mirrored conf.cpyfmt (s.addRow conf pieces).master (s.addRow conf pieces).replica := by
  have hput : Mirrored conf.cpyfmt (s.put conf (pieces.map .data)).master
      (s.put conf (pieces.map .data)).replica := by
    simp only [CopyState.put, hrep, if_true]
    exact h.append (by simp)
  unfold CopyState.addRow
  simp only
  split
  · exact Mirrored.commit hrep hput
  · exact hput

/-- Every step keeps the replica as the master without the trailers. -/
theorem CopyStep.mirrored {s' : CopyState σ} {a : CopyAction} (hrep : conf.replica = true)
    (h : Mirrored conf.cpyfmt s.master s.replica) (hstep : CopyStep conf s a s') :
    Mirrored conf.cpyfmt s'.master s'.replica := by
  cases hstep with
  | early p ok hverdict => exact h
  | late p ok internal t hverdict hopen =>
    have ht : Mirrored conf.cpyfmt t.master t.replica := h.openCopy hrep hopen
    exact ht
  | row p ok pieces internal t hverdict hopen =>
    have ht : Mirrored conf.cpyfmt t.master t.replica := h.openCopy hrep hopen
    exact ht.addRow hrep pieces
  | tick =>
    unfold CopyState.tick
    simp only
    split
    · exact Mirrored.commit hrep h
    · exact h
  | free =>
    unfold CopyState.free
    simp only
    split
    · exact Mirrored.commit hrep h
    · exact h

end Replica

theorem count_copyEnd_opening (conf : CopyConf σ) : conf.opening.count .copyEnd = 0 := by
  unfold CopyConf.opening
  split <;> simp

theorem count_copyEnd_closing (conf : CopyConf σ) : conf.closing.count .copyEnd = 1 := by
  unfold CopyConf.closing
  split <;> decide

/-- A copy end is put on the master by the steps that close a batch, and by no others. -/
theorem count_copyEnd_of_step {conf : CopyConf σ} {s s' : CopyState σ} {a : CopyAction}
    (h : s.step conf a = some s') :
    s'.master.count .copyEnd = s.master.count .copyEnd + if Closes conf s a then 1 else 0 := by
  obtain ⟨hfreed, hstep⟩ := CopyStep.of_step h
  cases a with
  | produce p ok =>
    rw [CopyState.step, if_neg (by simp [hfreed])] at h
    obtain ⟨hnone, hrow⟩ := CopyState.produce_master h
    cases hacc : acceptedRow conf s (.produce p ok) with
    | nil =>
      rw [if_neg fun hcl : Closes conf s (.produce p ok) => hcl.1 hacc]
      rcases hnone hacc with hmaster | ⟨-, hmaster⟩
      · rw [hmaster, Nat.add_zero]
      · rw [hmaster, List.count_append, count_copyEnd_opening]
    | cons pieces rest =>
      have hdata : (pieces.map CopyEvent.data).count .copyEnd = 0 :=
        List.count_eq_zero.mpr (by simp)
      have hopen : (if s.copy = 0 then conf.opening else []).count .copyEnd = 0 := by
        split
        · exact count_copyEnd_opening conf
        · rfl
      rw [hrow pieces (by simp [hacc]), List.count_append, List.count_append, List.count_append,
        hopen, hdata]
      by_cases hfull : s.count + 1 = 2000
      · rw [if_pos hfull, if_pos ⟨by simp [hacc], hfull⟩, count_copyEnd_closing]
      · rw [if_neg hfull, if_neg fun hcl : Closes conf s (.produce p ok) => hfull hcl.2,
          List.count_nil]
  | tick =>
    cases hstep
    by_cases hcl : Closes conf s .tick
    · have hdue : (s.commitIter + 1) &&& 0xF = 0 ∧ 0 < s.count := hcl
      simp [hcl, CopyState.tick, hdue, CopyState.commit, count_copyEnd_closing]
    · have hdue : ¬((s.commitIter + 1) &&& 0xF = 0 ∧ 0 < s.count) := hcl
      simp only [if_neg hcl, CopyState.tick, if_neg hdue, Nat.add_zero]
  | free =>
    cases hstep
    by_cases hcl : Closes conf s .free
    · have hopen : s.copy ≠ 0 := hcl
      simp [hcl, CopyState.free, hopen, CopyState.commit, count_copyEnd_closing]
    · have hopen : ¬s.copy ≠ 0 := hcl
      simp only [if_neg hcl, CopyState.free, if_neg hopen, Nat.add_zero]

/-- No copy end is on the master exactly if no step of the run closes a batch. -/
theorem copyEnd_notMem_master_iff {conf : CopyConf σ} {internal : σ} {acts : List CopyAction}
    {s : CopyState σ} (hexec : exec (CopyState.step conf) (.init internal) acts = some s) :
    .copyEnd ∉ s.master ↔
      AllSteps (CopyState.step conf) (fun s a _ => ¬Closes conf s a) (.init internal) acts := by
  refine exec_induction (P := fun acts s => .copyEnd ∉ s.master ↔
    AllSteps (CopyState.step conf) (fun s a _ => ¬Closes conf s a) (.init internal) acts)
      ?_ ?_ hexec
  · exact ⟨fun _ => trivial, fun _ => List.not_mem_nil⟩
  · intro acts t a t' ht ih hst
    rw [allSteps_concat ht hst, ← ih, ← List.count_eq_zero, ← List.count_eq_zero,
      count_copyEnd_of_step hst]
    by_cases hcl : Closes conf t a <;> simp [hcl]

/-- In the binary format the end of a batch is not the same on the replica. -/
theorem replica_misses_trailer :
    (exec (CopyState.step (postgresConf .total .binary "COPY" true)) (.init ())
        [.produce ⟨[0, 0], 0⟩ (true, true), .free]).map (fun s => (s.master, s.replica)) =
      some ([.command "COPY", .data binheader, .data [0, 0], .data bintrailer, .copyEnd],
        [.command "COPY", .data binheader, .data [0, 0], .copyEnd]) := by
  decide

/-- In every run of a postgres producer with a replica, what is on the replica is what is on the
master exactly if the format is not binary or no step of the run closes a batch. -/
theorem replica_eq_master_iff (pq : Libpq) (fmt : Format) (cpycmd : String) (acts : List CopyAction)
    (s : CopyState Unit)
    (hexec : exec (CopyState.step (postgresConf pq fmt cpycmd true)) (.init ()) acts = some s) :
    s.replica = s.master ↔ fmt ≠ .binary ∨
      AllSteps (CopyState.step (postgresConf pq fmt cpycmd true))
        (fun s a _ => ¬Closes (postgresConf pq fmt cpycmd true) s a) (.init ()) acts := by
  have h : Mirrored fmt s.master s.replica := by
    refine exec_invariant (P := fun s => Mirrored fmt s.master s.replica)
      ⟨fun _ => rfl, fun _ => rfl⟩
      ?_ hexec
    intro t a t' ht hst
    exact (CopyStep.of_step hst).2.mirrored rfl ht
  rw [h.eq_iff, copyEnd_notMem_master_iff hexec]

/-- In the binary format a row is the same on both while the producer is not freed. -/
theorem replica_eq_master_open_batch :
    ∃ s, exec (CopyState.step (postgresConf .total .binary "COPY" true)) (.init ())
        [.produce ⟨[0, 0], 0⟩ (true, true), .tick] = some s ∧ s.replica = s.master := by
  refine exists_of_exec_isSome (by decide) fun s hexec => ?_
  exact (replica_eq_master_iff .total .binary "COPY" _ s hexec).mpr (.inr (by decide))

end Schaufel
