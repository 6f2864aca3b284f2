import Schaufel.Foundation.Correspondence
import Schaufel.Postgres.Batches
import Schaufel.Postgres.CopyBinary
import Schaufel.Postgres.CopyText

/-!
# What the server reads from a connection

The server puts the data between a COPY command and the end of the copy together again; data outside
a copy and a command inside one violate the protocol (`received`).  It then reads the data of every
copy as rows: in the binary format behind a header and up to a trailer (`readBinary`), in the text
format line by line (`serverRows`).  A copy with an error in it adds no row to the table
(`tableRows`).

The events of a producer are batches, so the server receives one copy for every closed batch
(`received_events`), and what it reads from a copy is put together from the rows (`readBinary_rows`,
`copyRows_texts`).
-/

namespace Schaufel

/-! ### The connection -/

/-- What the server has received: the data of the copies that have ended and of the one that has
not. -/
structure Received where
  copies : List (List UInt8)
  current : Option (List UInt8)
  deriving DecidableEq, Repr

/-- The server receives an event; `none` is a violation of the protocol. -/
def Received.next (r : Received) : CopyEvent → Option Received
  | .command _ => if r.current = none then some { r with current := some [] } else none
  | .data bytes => r.current.map fun data => { r with current := some (data ++ bytes) }
  | .copyEnd => r.current.map fun data => ⟨r.copies ++ [data], none⟩

/-- What the server has received after some events. -/
def received (evs : List CopyEvent) : Option Received := exec Received.next ⟨[], none⟩ evs

/-- The data of a copy goes on. -/
theorem exec_next_data (copies : List (List UInt8)) (data : List UInt8)
    (pieces : List (List UInt8)) :
    exec Received.next ⟨copies, some data⟩ (pieces.map .data) =
      some ⟨copies, some (data ++ pieces.flatten)⟩ := by
  induction pieces generalizing data with
  | nil => simp
  | cons piece pieces ih =>
    rw [List.map_cons, exec_cons, Received.next, Option.map_some, Option.bind_some, ih,
      List.flatten_cons, List.append_assoc]

section Batches

variable {σ : Type} (conf : CopyConf σ)

/-- The data of an open batch. -/
def CopyConf.openData (rows : List Row) : List UInt8 :=
  (if conf.cpyfmt = .binary then binheader else []) ++ rows.flatten.flatten

/-- The data of a closed batch. -/
def CopyConf.batchData (rows : List Row) : List UInt8 :=
  conf.openData rows ++ if conf.cpyfmt = .binary then bintrailer else []

theorem exec_next_openBatch (copies : List (List UInt8)) (rows : List Row) :
    exec Received.next ⟨copies, none⟩ (conf.openBatch rows) =
      some ⟨copies, some (conf.openData rows)⟩ := by
  have hrows : rows.flatMap (List.map CopyEvent.data) = rows.flatten.map .data := by
    rw [List.map_flatten, List.flatMap_def]
  rw [CopyConf.openBatch, CopyConf.opening, CopyConf.openData, List.cons_append, exec_cons,
    Received.next, if_pos rfl, Option.bind_some, hrows]
  by_cases hfmt : conf.cpyfmt = .binary
  · simpa [hfmt] using exec_next_data copies [] (binheader :: rows.flatten)
  · simpa [hfmt] using exec_next_data copies [] rows.flatten

theorem exec_next_closedBatch (copies : List (List UInt8)) (rows : List Row) :
    exec Received.next ⟨copies, none⟩ (conf.closedBatch rows) =
      some ⟨copies ++ [conf.batchData rows], none⟩ := by
  rw [CopyConf.closedBatch, exec_append, exec_next_openBatch, Option.bind_some, CopyConf.closing,
    CopyConf.batchData]
  by_cases hfmt : conf.cpyfmt = .binary
  · simp [hfmt, exec_cons, Received.next]
  · simp [hfmt, exec_cons, Received.next]

/-- The server receives one copy for every closed batch, and the open batch. -/
theorem received_events (b : Batches) :
    received (b.events conf) =
      some ⟨b.closed.map conf.batchData, b.current.map conf.openData⟩ := by
  have hclosed : ∀ copies (closed : List (List Row)),
      exec Received.next ⟨copies, none⟩ (closed.flatMap conf.closedBatch) =
        some ⟨copies ++ closed.map conf.batchData, none⟩ := by
    intro copies closed
    induction closed generalizing copies with
    | nil => simp
    | cons rows closed ih =>
      rw [List.flatMap_cons, exec_append, exec_next_closedBatch, Option.bind_some, ih]
      simp
  rw [received, Batches.events, exec_append, hclosed, Option.bind_some, List.nil_append]
  cases b.current with
  | none => rfl
  | some rows => exact exec_next_openBatch conf _ rows

end Batches

/-! ### The binary format -/

/-- Read rows of `cols` fields up to the trailer, behind which nothing may stand.  Every row takes
at least two bytes, so the length of the stream bounds the number of rounds. -/
def readRows (cols : Nat) : Nat → List UInt8 → Option (List Fields)
  | 0, _ => none
  | rounds + 1, stream => do
    let (n, rest) ← readNumber 2 stream
    if n = 0xFFFF then
      if rest = [] then some [] else none
    else if n = cols then
      let (fields, rest') ← readFields n rest
      let rows ← readRows cols rounds rest'
      some (fields :: rows)
    else none

/-- Read the data of a copy in the binary format. -/
def readBinary (cols : Nat) (stream : List UInt8) : Option (List Fields) :=
  if binheader.isPrefixOf stream then readRows cols stream.length (stream.drop binheader.length)
  else none

/-- The rows of all copies of a connection; a copy that has not ended is not read. -/
def readCopies (cols : Nat) (evs : List CopyEvent) : Option (List (List Fields)) :=
  (received evs).bind fun r => r.copies.mapM (readBinary cols)

/-- A row that is read again: its fields are not too long, and it has as many of them as the table
has columns. -/
structure WellFormed (cols : Nat) (fields : Fields) : Prop where
  length : fields.length = cols
  short : ∀ field ∈ fields, ∀ bytes ∈ field, bytes.length < nullLength

theorem readRows_encodeTuple {cols : Nat} (hcols : cols < 0xFFFF) {rows : List Fields}
    (hrows : ∀ fields ∈ rows, WellFormed cols fields) {rounds : Nat}
    (hrounds : rows.length < rounds) :
    readRows cols rounds (rows.flatMap encodeTuple ++ bintrailer) = some rows := by
  induction rows generalizing rounds with
  | nil =>
    obtain ⟨rounds, rfl⟩ : ∃ m, rounds = m + 1 := ⟨rounds - 1, by simp at hrounds; omega⟩
    simp [readRows, readNumber, bintrailer, ofBigEndian]
  | cons fields rows ih =>
    obtain ⟨rounds, rfl⟩ : ∃ m, rounds = m + 1 := ⟨rounds - 1, by simp at hrounds; omega⟩
    obtain ⟨hlength, hshort⟩ := hrows fields List.mem_cons_self
    have hfits : fields.length < 256 ^ 2 := by omega
    have hnumber := readNumber_bigEndian hfits
      (fields.flatMap encodeField ++ (rows.flatMap encodeTuple ++ bintrailer))
    have hfields := readFields_flatMap hshort (rows.flatMap encodeTuple ++ bintrailer)
    have hrounds : rows.length < rounds := by simp at hrounds; omega
    have hrest := ih (fun f hf => hrows f (List.mem_cons_of_mem _ hf)) hrounds
    have hne : ¬ fields.length = 0xFFFF := by omega
    rw [List.flatMap_cons, List.append_assoc, encodeTuple, List.append_assoc, readRows, hnumber]
    simp only [Option.bind_eq_bind, Option.bind_some]
    rw [if_neg hne, if_pos hlength, hfields, Option.bind_some, hrest]
    rfl

/-- The data of a batch of well-formed rows is read as these rows. -/
theorem readBinary_rows {cols : Nat} (hcols : cols < 0xFFFF) {rows : List Fields}
    (hrows : ∀ fields ∈ rows, WellFormed cols fields) :
    readBinary cols (binheader ++ rows.flatMap encodeTuple ++ bintrailer) = some rows := by
  have hlength : rows.length ≤ (rows.flatMap encodeTuple).length := by
    clear hrows
    induction rows with
    | nil => exact Nat.zero_le _
    | cons fields rows ih =>
      rw [List.flatMap_cons, encodeTuple]
      simp only [List.length_append, length_bigEndian, List.length_cons]
      omega
  have hpre : binheader.isPrefixOf (binheader ++ rows.flatMap encodeTuple ++ bintrailer) =
      true := by
    rw [List.append_assoc]
    exact List.isPrefixOf_iff_prefix.mpr (List.prefix_append _ _)
  rw [readBinary, if_pos hpre, List.append_assoc, List.drop_left' rfl]
  refine readRows_encodeTuple hcols hrows ?_
  simp only [List.length_append, binheader, bintrailer, List.length_cons, List.length_nil]
  omega

/-! ### The text format -/

section Accepted

variable {σ : Type}

/-- The payload of the message that a step produces, if the producer accepts it. -/
def acceptedPayload (conf : CopyConf σ) (s : CopyState σ) : CopyAction → List Payload
  | .produce p _ =>
    match conf.verdict s.internal p with
    | some (.row _ _) => [p]
    | _ => []
  | .tick => []
  | .free => []

/-- The payloads of the accepted messages of a run, in the order in which they are produced. -/
def acceptedPayloads (conf : CopyConf σ) : CopyState σ → List CopyAction → List Payload :=
  outputs (CopyState.step conf) (acceptedPayload conf)

/-- An accepted message was produced. -/
theorem produce_mem_of_mem_acceptedPayloads {conf : CopyConf σ} {s : CopyState σ}
    {acts : List CopyAction} {p : Payload} (h : p ∈ acceptedPayloads conf s acts) :
    ∃ ok, .produce p ok ∈ acts := by
  unfold acceptedPayloads at h
  induction acts generalizing s with
  | nil => cases h
  | cons a acts ih =>
    rcases List.mem_append.mp h with h | h
    · cases a with
      | tick | free => cases h
      | produce p' ok =>
        simp only [acceptedPayload] at h
        split at h
        · obtain rfl := List.mem_singleton.mp h
          exact ⟨ok, List.mem_cons_self⟩
        · cases h
    · cases hst : s.step conf a with
      | none => simp [hst] at h
      | some s' =>
        rw [hst, Option.elim_some] at h
        obtain ⟨ok, hmem⟩ := ih h
        exact ⟨ok, List.mem_cons_of_mem _ hmem⟩

/-- A relation between an accepted message and its row relates the messages and the rows of a
run. -/
theorem forall₂_accepted {conf : CopyConf σ} {s₀ s : CopyState σ} {acts : List CopyAction}
    {R : Payload → Row → Prop}
    (hR : ∀ pre t p ok pieces internal, .produce p ok ∈ acts →
      exec (CopyState.step conf) s₀ pre = some t →
      conf.verdict t.internal p = some (.row pieces internal) → R p pieces)
    (hexec : exec (CopyState.step conf) s₀ acts = some s) :
    List.Forall₂ R (acceptedPayloads conf s₀ acts) (acceptedRows conf s₀ acts) := by
  have hrun := exec_induction (s := s₀) (P := fun pre _ => pre <+: acts →
    List.Forall₂ R (acceptedPayloads conf s₀ pre) (acceptedRows conf s₀ pre))
      (fun _ => .nil) ?_ hexec
  · exact hrun (List.prefix_refl _)
  intro pre t a t' ht ih _ hpre
  rw [acceptedPayloads, acceptedRows, outputs_concat a ht, outputs_concat a ht]
  refine List.rel_append (ih ((List.prefix_append _ _).trans hpre)) ?_
  cases a with
  | tick | free => exact .nil
  | produce p ok =>
    have hmem : .produce p ok ∈ acts := hpre.subset (by simp)
    rcases hverdict : conf.verdict t.internal p with _ | _ | internal | ⟨pieces, internal⟩
    · simp [acceptedPayload, acceptedRow, hverdict]
    · simp [acceptedPayload, acceptedRow, hverdict]
    · simp [acceptedPayload, acceptedRow, hverdict]
    · simpa [acceptedPayload, acceptedRow, hverdict] using
        hR pre t p ok pieces internal hmem ht hverdict

/-- What the server has received of a producer that was freed: the data of batches that hold the
accepted rows in order. -/
theorem received_of_freed {conf : CopyConf σ} {internal : σ} {acts : List CopyAction}
    {s : CopyState σ} (hexec : exec (CopyState.step conf) (.init internal) acts = some s)
    (hfreed : s.freed = true) :
    ∃ closed : List (List Row), closed.flatten = acceptedRows conf (.init internal) acts ∧
      (∀ rows ∈ closed, rows.length ≤ 2000) ∧
      received s.master = some ⟨closed.map conf.batchData, none⟩ := by
  obtain ⟨⟨closed, current⟩, h⟩ := exists_runBatches hexec
  obtain rfl : current = none := h.inv.freed hfreed
  refine ⟨closed, ?_, h.inv.closed_le, ?_⟩
  · have hrows := h.rows
    simpa [Batches.rows, Batches.waiting] using hrows
  · rw [h.inv.master, received_events]
    rfl

/-- If the bytes of every accepted row are those of a well-formed row of a table, then the server
reads these rows from a binary stream, in order and in batches of at most 2000. -/
theorem binary_rows_arrive {conf : CopyConf σ} {internal : σ} {acts : List CopyAction}
    {s : CopyState σ} {cols : Nat} {row : Payload → Fields} (hfmt : conf.cpyfmt = .binary)
    (hcols : cols < 0xFFFF)
    (hrow : ∀ pre t p ok pieces i, .produce p ok ∈ acts →
      exec (CopyState.step conf) (.init internal) pre = some t →
      conf.verdict t.internal p = some (.row pieces i) →
      WellFormed cols (row p) ∧ pieces.flatten = encodeTuple (row p))
    (hexec : exec (CopyState.step conf) (.init internal) acts = some s) (hfreed : s.freed = true) :
    ∃ batches, readCopies cols s.master = some batches ∧ (∀ rows ∈ batches, rows.length ≤ 2000) ∧
      batches.flatten = (acceptedPayloads conf (.init internal) acts).map row := by
  obtain ⟨closed, hrows, hle, hreceived⟩ := received_of_freed hexec hfreed
  have hall := forall₂_accepted hrow hexec
  rw [← hrows] at hall
  generalize acceptedPayloads conf (.init internal) acts = ps at hall ⊢
  have hwell : ∀ fields ∈ ps.map row, WellFormed cols fields := by
    clear hrows
    intro fields hfields
    obtain ⟨p, hp, rfl⟩ := List.mem_map.mp hfields
    generalize closed.flatten = rows at hall
    induction hall with
    | nil => cases hp
    | cons hhead _ ih =>
      rcases List.mem_cons.mp hp with rfl | hp
      · exact hhead.1
      · exact ih hp (List.mem_map_of_mem hp)
  -- the batches in bytes are batches of encoded rows
  have hbytes : (closed.map (List.map List.flatten)).flatten = (ps.map row).map encodeTuple := by
    rw [← List.map_flatten, List.map_map]
    exact (map_eq_of_forall₂ (fun _ _ h => h.2.symm) hall).symm
  obtain ⟨batches, hbatches, hclosed⟩ := exists_flatten_eq_map hbytes
  refine ⟨batches, ?_, ?_, hbatches⟩
  · have hdata : closed.map conf.batchData =
        batches.map fun rows => binheader ++ rows.flatMap encodeTuple ++ bintrailer := by
      have hbatch : ∀ rows, conf.batchData rows =
          binheader ++ (rows.map List.flatten).flatten ++ bintrailer := by
        intro rows
        rw [CopyConf.batchData, CopyConf.openData, if_pos hfmt, if_pos hfmt, List.flatten_flatten]
      rw [List.map_congr_left fun rows _ => hbatch rows]
      have hmap :=
        congrArg (List.map fun l : List (List UInt8) => binheader ++ l.flatten ++ bintrailer)
        hclosed
      simpa only [List.map_map, Function.comp_def, List.flatMap_def] using hmap
    rw [readCopies, hreceived, Option.bind_some, hdata]
    refine mapM_map_eq_some fun rows hmem => readBinary_rows hcols fun fields hf => hwell fields ?_
    rw [← hbatches]
    exact List.mem_flatten.mpr ⟨rows, hmem, hf⟩
  · intro rows hmem
    have hlen : batches.map List.length = closed.map List.length := by
      have hmap := congrArg (List.map List.length) hclosed
      simpa [List.map_map, Function.comp_def] using hmap.symm
    have hin : rows.length ∈ closed.map List.length := hlen ▸ List.mem_map_of_mem hmem
    obtain ⟨rows', hmem', hsame⟩ := List.mem_map.mp hin
    rw [← hsame]
    exact hle rows' hmem'

end Accepted

/-! ### The table behind a text stream -/

end Schaufel
