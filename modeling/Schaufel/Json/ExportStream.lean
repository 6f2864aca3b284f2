import Schaufel.Json.Exports
import Schaufel.Postgres.CopyStream

/-!
# From the documents to the table

Two ways lead a JSON document into a table: the exports producer, and the jsonexport hook followed
by the postgres producer in the binary format.  For both, the server reads from the COPY stream of a
whole run the selected fields of the accepted documents, one row each and in order, whatever the
commit worker and the row limit do to the batches (`exports_rows_arrive`, `hook_rows_arrive`).  A
row of 65535 fields would begin like the trailer, so the configuration must have fewer needles than
that.
-/

namespace Schaufel

/-- The fields that are selected in the document of a payload. -/
def documentFields (J : JsonC) (ns : List Needle) (p : Payload) : Fields :=
  (J.parse p.cstring).elim [] (exportedFields J ns)

theorem documentFields_eq {J : JsonC} {ns : List Needle} {p : Payload} {haystack : J.Obj}
    (h : J.parse p.cstring = some haystack) :
    documentFields J ns p = exportedFields J ns haystack := by
  rw [documentFields, h, Option.elim_some]

section Rows

variable {J : JsonC} {settings : List JpointerSetting} {i : Internal}

/-- The row of a document is well formed, and its bytes are the fields. -/
theorem exportedRow_wellFormed (hinit : Jsonexport.init settings = some i)
    (hcount : settings.length ≤ 65535) {haystack : J.Obj}
    (hall : ∀ n ∈ i.used, (n.conf.field J Jsonexport.jsonToPqtimestamp haystack).isSome = true) :
    WellFormed i.fields.toNat (exportedFields J i.needles haystack) ∧
      exportedRow J i haystack = encodeTuple (exportedFields J i.needles haystack) := by
  obtain ⟨hused, hfields, -⟩ := Jsonexport.init_spec hinit hcount
  have hlength : (exportedFields J i.needles haystack).length = i.fields.toNat := by
    rw [exportedFields, List.length_map, hfields]
  refine ⟨⟨hlength, fun field hfield bytes hbytes => ?_⟩, ?_⟩
  · obtain ⟨n, hn, rfl⟩ := List.mem_map.mp hfield
    have hshort := length_exportedField hall n (hused ▸ List.mem_of_mem_filter hn) bytes hbytes
    exact Nat.lt_trans hshort (by decide)
  · rw [exportedRow, encodeTuple, hlength, hused]

/-- Fewer than 65535 needles store fewer than 65535 fields. -/
theorem fields_lt (hinit : Jsonexport.init settings = some i) (hcount : settings.length < 65535) :
    i.fields.toNat < 0xFFFF := by
  obtain ⟨confs, hconfs, rfl⟩ := Option.map_eq_some_iff.mp hinit
  have hlen : confs.length < 65535 := by
    rw [← (mapM_eq_some_iff.mp hconfs).length_eq]
    exact hcount
  have hstores : confs.countP (fun conf => conf.action.store?) ≤ confs.length :=
    List.countP_le_length
  show (UInt16.ofNat (confs.countP fun conf => conf.action.store?)).toNat < 0xFFFF
  rw [UInt16.toNat_ofNat', Nat.mod_eq_of_lt (by omega)]
  omega

end Rows

/-- For every accepted configuration of the exports producer of fewer than 65535 needles and every
run up to `producer_free`: from the stream the server reads, in batches of at most 2000 rows, the
selected fields of the documents that the producer has accepted, in order. -/
theorem exports_rows_arrive (J : JsonC) (host topic : Option CString) (jpointers : Option Jpointers)
    (settings : List JpointerSetting) (i : Internal)
    (hvalidate : Exports.validate host topic jpointers = .ok settings)
    (hinit : Exports.init settings = some i) (hcount : settings.length < 65535) (cpycmd : String)
    (acts : List CopyAction) (s : CopyState Internal)
    (hexec : exec (CopyState.step (Exports.conf J cpycmd)) (.init i) acts = some s)
    (hfreed : s.freed = true) :
    ∃ batches, readCopies i.fields.toNat s.master = some batches ∧
      (∀ rows ∈ batches, rows.length ≤ 2000) ∧
      batches.flatten =
        (acceptedPayloads (Exports.conf J cpycmd) (.init i) acts).map
          (documentFields J i.needles) := by
  obtain ⟨-, hhook, confs, hi, hplain⟩ := Exports.init_eq hvalidate hinit
  have hused : ∀ n ∈ i.used, n.conf.Plain := by
    subst hi
    intro n hn
    obtain ⟨conf, hconf, rfl⟩ := List.mem_map.mp (List.mem_of_mem_take hn)
    exact hplain conf hconf
  refine binary_rows_arrive rfl (fields_lt hhook hcount) ?_ hexec hfreed
  intro pre t p ok pieces internal _ hpre hverdict
  have halike := Exports.alike_of_exec (fun n hn => (hused n hn).2) hpre
  -- the row does not depend on the messages before
  obtain ⟨-, haystack, hparse, hall, -, hbytes⟩ :=
    (Exports.row_iff (halike.forall_used.mpr hused) p pieces.flatten).mp
      ⟨pieces, ⟨internal, hverdict⟩, rfl⟩
  have hfields : ∀ n ∈ i.used,
      (n.conf.field J Jsonexport.jsonToPqtimestamp haystack).isSome = true :=
    fun n hn => ((halike.forall_used (P := fun conf => conf.Accepts J haystack ∧
      (conf.field J Jsonexport.jsonToPqtimestamp haystack).isSome = true)).mp hall n hn).2
  obtain ⟨hwell, hrow⟩ := exportedRow_wellFormed hhook (by omega) hfields
  rw [documentFields_eq hparse]
  exact ⟨hwell, by rw [hbytes, halike.exportedRow_eq, hrow]⟩

/-- A list of one timestamp and two documents, with a round of the commit worker between them. -/
theorem exports_rows_arrive_two_documents :
    ∃ settings i,
      Exports.validate (some (ascii "h")) (some (ascii "t")) (some (.list [timestampSetting])) =
        .ok settings ∧
      Exports.init settings = some i ∧
      ∃ s, exec (CopyState.step (Exports.conf JsonC.strings "COPY")) (.init i)
          [.produce ⟨ascii "\"2016-12-31T23:59:59Z\"", 0⟩ (true, true), .tick,
            .produce ⟨ascii "\"2000-01-01T00:00:00Z\"", 0⟩ (true, true), .free] = some s ∧
        ∃ batches, readCopies i.fields.toNat s.master = some batches ∧
          batches.flatten = [[some [0, 1, 231, 251, 226, 119, 125, 192]],
            [some [0, 0, 0, 0, 0, 0, 0, 0]]] := by
  refine ⟨_, _, rfl, rfl, exists_of_exec_any (P := fun s => s.freed = true) (by decide +kernel) ?_⟩
  intro s hexec hfreed
  obtain ⟨batches, hread, -, hrows⟩ := exports_rows_arrive JsonC.strings (some (ascii "h"))
    (some (ascii "t")) (some (.list [timestampSetting])) _ _ rfl rfl
      (by decide) "COPY" _ s hexec hfreed
  refine ⟨batches, hread, hrows.trans ?_⟩
  decide +kernel

/-- What the hook makes of an accepted message: a well-formed row of the selected fields. -/
theorem hJsonexport_wellFormed {J : JsonC} {settings : List JpointerSetting} {ctx : Internal}
    (hinit : Jsonexport.init settings = some ctx) (hcount : settings.length < 65535)
    {behind : UInt8} {msg msg' : ExportMessage}
    (h : hJsonexport J ctx behind msg = some (true, msg')) :
    WellFormed ctx.fields.toNat (documentFields J ctx.needles msg.payload) ∧
      msg'.payload.bytes = encodeTuple (documentFields J ctx.needles msg.payload) := by
  obtain ⟨-, haystack, hparse, hall⟩ := (hJsonexport_eq_true_iff h).mp rfl
  obtain ⟨hwell, hrow⟩ := exportedRow_wellFormed hinit (by omega) fun n hn => (hall n hn).2
  rw [documentFields_eq hparse]
  exact ⟨hwell, (hJsonexport_payload h hparse).trans hrow⟩

/-- The payload is what the jsonexport hook has made of a message. -/
def Hooked (J : JsonC) (ctx : Internal) (msg : ExportMessage) (p : Payload) : Prop :=
  ∃ behind msg', hJsonexport J ctx behind msg = some (true, msg') ∧ msg'.payload = p

/-- The same for the hook and the postgres producer in the binary format: if every message comes
from the hook, then the server reads from the stream of a run the fields that the hook has selected,
in order. -/
theorem hook_rows_arrive (J : JsonC) (settings : List JpointerSetting) (ctx : Internal)
    (hinit : Jsonexport.init settings = some ctx) (hcount : settings.length < 65535) (pq : Libpq)
    (cpycmd : String) (replica : Bool) (acts : List CopyAction) (s : CopyState Unit)
    (hhook : ∀ p ok, .produce p ok ∈ acts → ∃ msg, Hooked J ctx msg p)
    (hexec : exec (CopyState.step (postgresConf pq .binary cpycmd replica)) (.init ()) acts =
      some s)
    (hfreed : s.freed = true) :
    ∃ batches, readCopies ctx.fields.toNat s.master = some batches ∧
      (∀ rows ∈ batches, rows.length ≤ 2000) ∧
      List.Forall₂ (fun p fields => ∃ msg, Hooked J ctx msg p ∧
          fields = documentFields J ctx.needles msg.payload)
        (acceptedPayloads (postgresConf pq .binary cpycmd replica) (.init ()) acts)
          batches.flatten := by
  -- the fields of a row can be read off its payload
  have hrow : ∀ msg p, Hooked J ctx msg p →
      (decodeTuple p.bytes).getD [] = documentFields J ctx.needles msg.payload := by
    rintro msg p ⟨behind, msg', hmsg', rfl⟩
    obtain ⟨hwell, hbytes⟩ := hJsonexport_wellFormed hinit hcount hmsg'
    have hlt := fields_lt hinit hcount
    rw [hbytes, decodeTuple_encodeTuple (by rw [hwell.length]; omega) hwell.short, Option.getD_some]
  have hpieces : ∀ p pieces internal, (postgresConf pq .binary cpycmd replica).verdict () p =
      some (.row pieces internal) → pieces = [p.bytes] := by
    intro p pieces internal hverdict
    have heq : some (Verdict.row [p.bytes] ()) = some (Verdict.row pieces internal) := hverdict
    exact (Verdict.row.inj (Option.some.inj heq)).1.symm
  have hrows : ∀ pre t p ok pieces internal, .produce p ok ∈ acts →
      exec (CopyState.step (postgresConf pq .binary cpycmd replica)) (.init ()) pre = some t →
      (postgresConf pq .binary cpycmd replica).verdict t.internal p = some (.row pieces internal) →
      WellFormed ctx.fields.toNat ((decodeTuple p.bytes).getD []) ∧
        pieces.flatten = encodeTuple ((decodeTuple p.bytes).getD []) := by
    intro pre t p ok pieces internal hmem _ hverdict
    obtain ⟨msg, hmsg⟩ := hhook p ok hmem
    rw [hpieces p pieces internal hverdict, hrow msg p hmsg]
    obtain ⟨behind, msg', hmsg', rfl⟩ := hmsg
    obtain ⟨hwell, hbytes⟩ := hJsonexport_wellFormed hinit hcount hmsg'
    exact ⟨hwell, by simpa using hbytes⟩
  obtain ⟨batches, hread, hle, hflatten⟩ :=
    binary_rows_arrive rfl (fields_lt hinit hcount) hrows hexec hfreed
  refine ⟨batches, hread, hle, ?_⟩
  rw [hflatten, List.forall₂_map_right_iff, List.forall₂_same]
  intro p hp
  obtain ⟨ok, hmem⟩ := produce_mem_of_mem_acceptedPayloads hp
  obtain ⟨msg, hmsg⟩ := hhook p ok hmem
  exact ⟨msg, hmsg, hrow msg p hmsg⟩

/-- One document, of which the hook selects two fields. -/
theorem hook_rows_arrive_one_document :
    ∃ ctx, Jsonexport.init threeNeedles = some ctx ∧
      ∃ s, exec (CopyState.step (postgresConf .total .binary "COPY" false)) (.init ())
          [.produce ⟨[0, 2, 0, 0, 0, 1, 97, 255, 255, 255, 255], 0⟩ (true, true), .free] = some s ∧
        ∃ batches, readCopies ctx.fields.toNat s.master = some batches ∧
          batches.flatten.length = 1 := by
  refine ⟨_, rfl, exists_of_exec_any (P := fun s => s.freed = true) (by decide) ?_⟩
  intro s hexec hfreed
  obtain ⟨batches, hread, -, hrows⟩ := hook_rows_arrive JsonC.strings threeNeedles _ rfl (by decide)
    .total "COPY" false _ s (fun p ok hmem => by
      obtain ⟨rfl, -⟩ : p = _ ∧ ok = (true, true) := by simpa using hmem
      exact ⟨⟨⟨[34, 97, 34], 0⟩, []⟩, 0, ⟨⟨[0, 2, 0, 0, 0, 1, 97, 255, 255, 255, 255], 0⟩, []⟩,
        by decide +kernel, rfl⟩) hexec hfreed
  exact ⟨batches, hread, hrows.length_eq.symm⟩

end Schaufel
