import Schaufel.Json.Export
import Schaufel.Postgres.Batches

/-!
# The exports producer

`exports_producer_produce` does in one place what `h_jsonexport` and the postgres producer do in
two: it picks the fields of a message and writes them to the COPY stream.  Its needles belong to the
producer and keep the output of the last message; what a message leaves in them is overwritten by
the next one before it is read (`Internal.Alike`), so the row of a message does not depend on the
messages before it.

The manual says that the hook followed by the postgres producer is as good as this producer.  It is,
except for leap seconds, which only the hook takes (`exports_agrees_iff`).
-/

namespace Schaufel

/-! ### The producer -/

/-- What is put on the stream for a needle. -/
def Needle.pieces (n : Needle) : Row :=
  if n.conf.action.store? then
    bigEndian 4 n.length.toNat :: (n.result.map fun bytes => bytes.take n.length.toNat).toList
  else []

/-- A needle after its bytes were put on the stream. -/
def Needle.sent (n : Needle) : Option Needle :=
  if n.conf.action.store? && n.result.isSome then n.free else some n

/-- The row of some needles. -/
def Exports.row (fields : UInt16) (ns : List Needle) : Row :=
  bigEndian 2 fields.toNat :: ns.flatMap Needle.pieces

/-- The needles over which the loops go, replaced. -/
def Internal.setUsed (i : Internal) (ns : List Needle) : Internal :=
  { i with needles := ns ++ i.needles.drop i.ncount.toNat }

/-- What `exports_producer_produce` makes of a message. -/
def Exports.verdict (J : JsonC) (i : Internal) (p : Payload) : Option (Verdict Internal) :=
  if p.terminator ≠ 0 then some .early
  else
    match J.parse p.cstring with
    | none => some (.late i)
    | some haystack =>
      match deref J Exports.jsonToPqtimestamp haystack i.used with
      | none => none
      | some (ret, ns) =>
        if ret ≠ 0 then (freeResults ns).map fun ns' => .late (i.setUsed ns')
        else (ns.mapM Needle.sent).map fun ns' => .row (Exports.row i.fields ns) (i.setUsed ns')

/-- The exports producer; it has no replica and always writes the binary format. -/
def Exports.conf (J : JsonC) (cpycmd : String) : CopyConf Internal :=
  ⟨.binary, cpycmd, false, Exports.verdict J⟩

/-! ### What a message leaves behind -/

/-- The same needles, up to the output of the last message. -/
structure Internal.Alike (i j : Internal) : Prop where
  /-- The configurations and the marks are the same. -/
  keys : i.needles.map Needle.key = j.needles.map Needle.key
  ncount : i.ncount = j.ncount
  fields : i.fields = j.fields

theorem Internal.Alike.refl (i : Internal) : i.Alike i := ⟨rfl, rfl, rfl⟩

theorem Internal.Alike.trans {i j k : Internal} (h : i.Alike j) (h' : j.Alike k) : i.Alike k :=
  ⟨h.keys.trans h'.keys, h.ncount.trans h'.ncount, h.fields.trans h'.fields⟩

theorem Internal.Alike.used {i j : Internal} (h : i.Alike j) :
    i.used.map Needle.key = j.used.map Needle.key := by
  unfold Internal.used
  rw [List.map_take, List.map_take, h.keys, h.ncount]

theorem Internal.setUsed_alike {i : Internal} {ns : List Needle}
    (h : ns.map Needle.key = i.used.map Needle.key) : (i.setUsed ns).Alike i where
  keys := by
    show (ns ++ i.needles.drop i.ncount.toNat).map Needle.key = i.needles.map Needle.key
    rw [List.map_append, h, ← List.map_append, Internal.used, List.take_append_drop]
  ncount := rfl
  fields := rfl

theorem Needle.free_key {n n' : Needle} (h : n.free = some n') : n'.key = n.key := by
  unfold Needle.free at h
  split at h
  · cases h
  all_goals
    obtain rfl := Option.some.inj h
    rfl

theorem Needle.sent_key {n n' : Needle} (h : n.sent = some n') : n'.key = n.key := by
  unfold Needle.sent at h
  split at h
  · exact Needle.free_key h
  · obtain rfl := Option.some.inj h
    rfl

/-- Steps that keep the key of every needle keep the keys of a list. -/
theorem map_key_of_mapM {f : Needle → Option Needle} (hf : ∀ n n', f n = some n' → n'.key = n.key)
    {ns ns' : List Needle} (h : ns.mapM f = some ns') : ns'.map Needle.key = ns.map Needle.key := by
  have hall := mapM_eq_some_iff.mp h
  clear h
  induction hall with
  | nil => rfl
  | cons hn _ ih => rw [List.map_cons, List.map_cons, ih, hf _ _ hn]

/-- What is left in `Meta.internal`. -/
def Verdict.internal {σ : Type} : Verdict σ → Option σ
  | .early => none
  | .late internal => some internal
  | .row _ internal => some internal

/-- A message leaves only output in the needles. -/
theorem Exports.verdict_alike {J : JsonC} {i i' : Internal} {p : Payload} {v : Verdict Internal}
    (hmeta : ∀ n ∈ i.used, n.conf.action ≠ .storeMeta) (h : Exports.verdict J i p = some v)
    (hi' : v.internal = some i') : i'.Alike i := by
  unfold Exports.verdict at h
  split at h
  · obtain rfl := Option.some.inj h
    cases hi'
  split at h
  · obtain rfl := Option.some.inj h
    obtain rfl := Option.some.inj hi'
    exact .refl i
  split at h
  · cases h
  rename_i ret ns hderef
  have hkeys := deref_keeps hmeta hderef
  split at h
  · obtain ⟨ns', hfree, rfl⟩ := Option.map_eq_some_iff.mp h
    obtain rfl := Option.some.inj hi'
    exact Internal.setUsed_alike ((map_key_of_mapM (fun _ _ => Needle.free_key) hfree).trans hkeys)
  · obtain ⟨ns', hsent, rfl⟩ := Option.map_eq_some_iff.mp h
    obtain rfl := Option.some.inj hi'
    exact Internal.setUsed_alike ((map_key_of_mapM (fun _ _ => Needle.sent_key) hsent).trans hkeys)

/-- Only a message changes `Meta.internal`. -/
theorem CopyStep.internal {σ : Type} {conf : CopyConf σ} {s s' : CopyState σ} {a : CopyAction}
    (h : CopyStep conf s a s') :
    s'.internal = s.internal ∨
      ∃ p v, conf.verdict s.internal p = some v ∧ v.internal = some s'.internal := by
  cases h with
  | early p ok hverdict => exact .inl rfl
  | late p ok internal t hverdict hopen => exact .inr ⟨p, _, hverdict, rfl⟩
  | row p ok pieces internal t hverdict hopen => exact .inr ⟨p, _, hverdict, rfl⟩
  | tick =>
    left
    unfold CopyState.tick
    simp only
    split <;> rfl
  | free =>
    left
    unfold CopyState.free
    simp only
    split <;> rfl

/-- The needles that a run of the producer leaves are the needles it started with, up to output. -/
theorem Exports.alike_of_exec {J : JsonC} {cpycmd : String} {i : Internal} {acts : List CopyAction}
    {s : CopyState Internal} (hmeta : ∀ n ∈ i.used, n.conf.action ≠ .storeMeta)
    (h : exec (CopyState.step (Exports.conf J cpycmd)) (.init i) acts = some s) :
    s.internal.Alike i := by
  refine exec_invariant (P := fun s => s.internal.Alike i) (.refl i) ?_ h
  intro t a t' halike hst
  rcases (CopyStep.of_step hst).2.internal with hsame | ⟨p, v, hverdict, hinternal⟩
  · rw [hsame]
    exact halike
  · refine (Exports.verdict_alike ?_ hverdict hinternal).trans halike
    intro n hn
    have hkey : n.key ∈ i.used.map Needle.key := halike.used ▸ List.mem_map_of_mem hn
    obtain ⟨n₀, hn₀, heq⟩ := List.mem_map.mp hkey
    have hconf : n₀.conf = n.conf := congrArg Prod.fst heq
    exact hconf ▸ hmeta n₀ hn₀

/-! ### Leap seconds -/

/-- A needle points to a timestamp that denotes a leap second. -/
def NeedleConf.FindsLeapSecond (J : JsonC) (haystack : J.Obj) (conf : NeedleConf) : Prop :=
  conf.pqtype = .timestamp ∧ ∃ o, conf.found J haystack = some (some o) ∧
  IsLeapSecond (J.getString o)

/-- The producer formats what the hook formats, without the leap seconds. -/
theorem NeedleConf.field_exports {J : JsonC} {haystack : J.Obj} {conf : NeedleConf}
    {field : Option (List UInt8)} :
    conf.field J Exports.jsonToPqtimestamp haystack = some field ↔
      conf.field J Jsonexport.jsonToPqtimestamp haystack = some field ∧
        ¬conf.FindsLeapSecond J haystack := by
  unfold NeedleConf.field NeedleConf.FindsLeapSecond
  rcases conf.found J haystack with _ | _ | o
  · simp
  · simp [NeedleConf.runFormat]
  · cases htype : conf.pqtype with
    | undefined => simp [NeedleConf.runFormat, htype]
    | text => simp [NeedleConf.runFormat, htype]
    | timestamp =>
      by_cases hleap : IsLeapSecond (J.getString o)
      · simp [NeedleConf.runFormat, htype, Exports.jsonToPqtimestamp_eq, hleap]
      · simp [NeedleConf.runFormat, htype, Exports.jsonToPqtimestamp_eq, hleap]

/-! ### The rows of both -/

/-- The row that the hook makes of a document. -/
def exportedRow (J : JsonC) (i : Internal) (haystack : J.Obj) : List UInt8 :=
  bigEndian 2 i.fields.toNat ++ (exportedFields J i.used haystack).flatMap encodeField

/-- The pieces of a needle with a field are the length of the field and its bytes. -/
theorem Needle.flatten_pieces (n : Needle) {field : Option (List UInt8)}
    (h : ∀ bytes ∈ field, bytes.length < 2 ^ 31) :
    (n.filled field).pieces.flatten = if n.conf.action.store? then encodeField field else [] := by
  have hlen := n.length_filled h
  have hconf : (n.filled field).conf = n.conf := rfl
  have hresult : (n.filled field).result = field := rfl
  unfold Needle.pieces
  rw [hconf, hresult, hlen]
  by_cases hstore : n.conf.action.store? = true
  · cases field with
    | none => simp [hstore, encodeField]
    | some bytes => simp [hstore, encodeField]
  · simp [hstore]

theorem Exports.flatten_row (fields : UInt16) {ns : List Needle}
    {f : NeedleConf → Option (List UInt8)}
    (hfield : ∀ n ∈ ns, ∀ bytes ∈ f n.conf, bytes.length < 2 ^ 31) :
    (Exports.row fields (ns.map fun n => n.filled (f n.conf))).flatten =
      bigEndian 2 fields.toNat ++
        ((ns.filter fun n => n.conf.action.store?).map fun n => f n.conf).flatMap encodeField := by
  rw [Exports.row, List.flatten_cons]
  congr 1
  induction ns with
  | nil => rfl
  | cons n ns ih =>
    rw [List.forall_mem_cons] at hfield
    rw [List.map_cons, List.flatMap_cons, List.flatten_append, n.flatten_pieces hfield.1,
      ih hfield.2]
    by_cases hstore : n.conf.action.store? = true
    · simp [hstore]
    · simp [hstore]

theorem Needle.sent_isSome {n : Needle} (h : n.conf.Plain) : ∃ n', n.sent = some n' := by
  unfold Needle.sent
  split
  · exact Needle.free_isSome h.1
  · exact ⟨n, rfl⟩

/-- `_deref` of the producer returns 0 exactly if that of the hook does and no needle points to a
leap second, and the needles are the same then. -/
theorem Exports.deref_eq_zero_iff {J : JsonC} {haystack : J.Obj} {ns ns' : List Needle} :
    deref J Exports.jsonToPqtimestamp haystack ns = some (0, ns') ↔
      (∀ n ∈ ns, ¬n.conf.FindsLeapSecond J haystack) ∧
        deref J Jsonexport.jsonToPqtimestamp haystack ns = some (0, ns') := by
  have hfield : ∀ n : Needle, (n.conf.field J Exports.jsonToPqtimestamp haystack).isSome = true →
      n.conf.field J Exports.jsonToPqtimestamp haystack =
        n.conf.field J Jsonexport.jsonToPqtimestamp haystack ∧
        ¬n.conf.FindsLeapSecond J haystack := by
    intro n hsome
    obtain ⟨field, hfield⟩ := Option.isSome_iff_exists.mp hsome
    obtain ⟨hhook, hleap⟩ := NeedleConf.field_exports.mp hfield
    exact ⟨hfield.trans hhook.symm, hleap⟩
  rw [Schaufel.deref_eq_zero_iff, Schaufel.deref_eq_zero_iff]
  constructor
  · rintro ⟨hall, rfl⟩
    refine ⟨fun n hn => (hfield n (hall n hn).2).2, fun n hn => ⟨(hall n hn).1, ?_⟩, ?_⟩
    · rw [← (hfield n (hall n hn).2).1]
      exact (hall n hn).2
    · exact List.map_congr_left fun n hn => by rw [(hfield n (hall n hn).2).1]
  · rintro ⟨hleap, hall, rfl⟩
    have hsame : ∀ n ∈ ns, n.conf.field J Exports.jsonToPqtimestamp haystack =
        n.conf.field J Jsonexport.jsonToPqtimestamp haystack := by
      intro n hn
      obtain ⟨field, hsome⟩ := Option.isSome_iff_exists.mp (hall n hn).2
      exact (NeedleConf.field_exports.mpr ⟨hsome, hleap n hn⟩).trans hsome.symm
    refine ⟨fun n hn => ⟨(hall n hn).1, ?_⟩, ?_⟩
    · rw [hsame n hn]
      exact (hall n hn).2
    · exact List.map_congr_left fun n hn => by rw [hsame n hn]

/-- The producer makes a row of a message exactly if it ends on a null byte and parses and `_deref`
returns 0. -/
theorem Exports.verdict_eq_row_iff {J : JsonC} {i : Internal} {p : Payload} {pieces : Row}
    (hplain : ∀ n ∈ i.used, n.conf.Plain) :
    (∃ internal, Exports.verdict J i p = some (.row pieces internal)) ↔
      p.terminator = 0 ∧ ∃ haystack ns, J.parse p.cstring = some haystack ∧
        deref J Exports.jsonToPqtimestamp haystack i.used = some (0, ns) ∧
        pieces = Exports.row i.fields ns := by
  constructor
  · rintro ⟨internal, h⟩
    unfold Exports.verdict at h
    by_cases hterm : p.terminator = 0
    · rw [if_neg (not_not.mpr hterm)] at h
      split at h
      · cases h
      rename_i haystack hparse
      split at h
      · cases h
      rename_i ret ns hderef
      split at h
      · obtain ⟨ns', -, heq⟩ := Option.map_eq_some_iff.mp h
        cases heq
      · rename_i hret
        obtain rfl : ret = 0 := not_not.mp hret
        obtain ⟨ns', -, heq⟩ := Option.map_eq_some_iff.mp h
        obtain ⟨rfl, -⟩ := Verdict.row.inj heq
        exact ⟨hterm, haystack, ns, hparse, hderef, rfl⟩
    · rw [if_pos hterm] at h
      cases h
  · rintro ⟨hterm, haystack, ns, hparse, hderef, rfl⟩
    have hkeys := deref_keeps (fun n hn => (hplain n hn).2) hderef
    have hsent : ∃ ns', ns.mapM Needle.sent = some ns' := by
      refine mapM_isSome fun n hn => Needle.sent_isSome ?_
      have hkey : n.key ∈ i.used.map Needle.key := hkeys ▸ List.mem_map_of_mem hn
      obtain ⟨n₀, hn₀, heq⟩ := List.mem_map.mp hkey
      have hconf : n₀.conf = n.conf := congrArg Prod.fst heq
      exact hconf ▸ hplain n₀ hn₀
    obtain ⟨ns', hns'⟩ := hsent
    refine ⟨i.setUsed ns', ?_⟩
    simp [Exports.verdict, hterm, hparse, hderef, hns']

/-- The rows of the producer: those of exportable messages in which no needle points to a leap
second. They have the bytes that the hook writes. -/
theorem Exports.row_iff {J : JsonC} {i : Internal} (hplain : ∀ n ∈ i.used, n.conf.Plain)
    (p : Payload) (bytes : List UInt8) :
    (∃ pieces, (∃ internal, Exports.verdict J i p = some (.row pieces internal)) ∧
        pieces.flatten = bytes) ↔
      p.terminator = 0 ∧ ∃ haystack, J.parse p.cstring = some haystack ∧
        (∀ n ∈ i.used, n.conf.Accepts J haystack ∧
          (n.conf.field J Jsonexport.jsonToPqtimestamp haystack).isSome = true) ∧
        (∀ n ∈ i.used, ¬n.conf.FindsLeapSecond J haystack) ∧ bytes = exportedRow J i haystack := by
  have hbytes : ∀ haystack, (∀ n ∈ i.used, n.conf.Accepts J haystack ∧
      (n.conf.field J Jsonexport.jsonToPqtimestamp haystack).isSome = true) →
      (Exports.row i.fields (i.used.map fun n =>
        n.filled ((n.conf.field J Jsonexport.jsonToPqtimestamp haystack).getD none))).flatten =
        exportedRow J i haystack := by
    intro haystack hall
    exact Exports.flatten_row i.fields
      (f := fun conf => (conf.field J Jsonexport.jsonToPqtimestamp haystack).getD none)
      (length_exportedField fun n hn => (hall n hn).2)
  constructor
  · rintro ⟨pieces, hrow, rfl⟩
    obtain ⟨hterm, haystack, ns, hparse, hderef, rfl⟩ := (Exports.verdict_eq_row_iff hplain).mp hrow
    obtain ⟨hleap, hhook⟩ := Exports.deref_eq_zero_iff.mp hderef
    obtain ⟨hall, rfl⟩ := Schaufel.deref_eq_zero_iff.mp hhook
    exact ⟨hterm, haystack, hparse, hall, hleap, hbytes haystack hall⟩
  · rintro ⟨hterm, haystack, hparse, hall, hleap, rfl⟩
    have hderef := Exports.deref_eq_zero_iff.mpr ⟨hleap, Schaufel.deref_eq_zero_iff.mpr ⟨hall, rfl⟩⟩
    exact ⟨_, (Exports.verdict_eq_row_iff hplain).mpr ⟨hterm, haystack, _, hparse, hderef, rfl⟩,
      hbytes haystack hall⟩

/-- Plain needles without a mark are written. -/
theorem ExportBuffer.writeAll_isSome (b : ExportBuffer) {ns : List Needle}
    (h : ∀ n ∈ ns, n.conf.Plain ∧ n.metadata = false) : ∃ b', b.writeAll ns = some b' := by
  induction ns generalizing b with
  | nil => exact ⟨b, rfl⟩
  | cons n ns ih =>
    rw [List.forall_mem_cons] at h
    obtain ⟨b₁, hb₁, -⟩ := b.write_unmarked h.1.1.1 h.1.2
    obtain ⟨b₂, hb₂⟩ := ih b₁ h.2
    exact ⟨b₂, Option.bind_eq_some_iff.mpr ⟨b₁, hb₁, hb₂⟩⟩

/-- The rows of the hook: those of exportable messages. -/
theorem hJsonexport_row_iff {J : JsonC} {ctx : Internal}
    (hplain : ∀ n ∈ ctx.used, n.conf.Plain ∧ n.metadata = false) (p : Payload) (behind : UInt8)
    (md : Metadata) (bytes : List UInt8) :
    (∃ msg', hJsonexport J ctx behind ⟨p, md⟩ = some (true, msg') ∧ msg'.payload.bytes = bytes) ↔
      p.terminator = 0 ∧ ∃ haystack, J.parse p.cstring = some haystack ∧
        (∀ n ∈ ctx.used, n.conf.Accepts J haystack ∧
          (n.conf.field J Jsonexport.jsonToPqtimestamp haystack).isSome = true) ∧
        bytes = exportedRow J ctx haystack := by
  constructor
  · rintro ⟨msg', h, rfl⟩
    obtain ⟨hterm, haystack, hparse, hall⟩ := (hJsonexport_eq_true_iff h).mp rfl
    exact ⟨hterm, haystack, hparse, hall, hJsonexport_payload h hparse⟩
  · rintro ⟨hterm, haystack, hparse, hall, rfl⟩
    have hderef := Schaufel.deref_eq_zero_iff.mpr ⟨hall, rfl⟩
    have hkeys := deref_keeps (fun n hn => (hplain n hn).1.2) hderef
    have hplain' : ∀ n ∈ ctx.used.map fun n =>
        n.filled ((n.conf.field J Jsonexport.jsonToPqtimestamp haystack).getD none),
        n.conf.Plain ∧ n.metadata = false := by
      intro n hn
      have hkey : n.key ∈ ctx.used.map Needle.key := hkeys ▸ List.mem_map_of_mem hn
      obtain ⟨n₀, hn₀, heq⟩ := List.mem_map.mp hkey
      obtain ⟨hconf, hmark⟩ := Prod.mk.inj heq
      exact ⟨hconf ▸ (hplain n₀ hn₀).1, hmark ▸ (hplain n₀ hn₀).2⟩
    obtain ⟨b, hb⟩ := (ExportBuffer.start ctx.fields md).writeAll_isSome hplain'
    obtain ⟨ns', hfree⟩ := mapM_isSome fun n hn => Needle.free_isSome (hplain' n hn).1.1
    have h : hJsonexport J ctx behind ⟨p, md⟩ = some (true, ⟨⟨b.buf, behind⟩, b.metadata⟩) := by
      simp only [hJsonexport, hterm, hparse, hderef, hb, freeResults, hfree, ne_eq,
        not_true_eq_false, if_false, Option.bind_some, Option.map_some]
    exact ⟨_, h, hJsonexport_payload h hparse⟩

/-! ### The producer and the hook -/

/-- A document in which the hook finds a leap second. -/
def LeapSecondFound (J : JsonC) (ctx : Internal) (p : Payload) : Prop :=
  ∃ haystack, J.parse p.cstring = some haystack ∧
    ∃ n ∈ ctx.used, n.conf.FindsLeapSecond J haystack

/-- What holds of the configurations of the needles holds of them up to output. -/
theorem Internal.Alike.forall_used {i j : Internal} (h : i.Alike j) {P : NeedleConf → Prop} :
    (∀ n ∈ i.used, P n.conf) ↔ ∀ n ∈ j.used, P n.conf := by
  have hconf : i.used.map (fun n => n.conf) = j.used.map fun n => n.conf := by
    have hmap := congrArg (List.map Prod.fst) h.used
    rwa [List.map_map, List.map_map] at hmap
  rw [← List.forall_mem_map (f := fun n : Needle => n.conf) (P := P), hconf, List.forall_mem_map]

theorem Internal.Alike.exportedRow_eq {J : JsonC} {i j : Internal} (h : i.Alike j)
    (haystack : J.Obj) : exportedRow J i haystack = exportedRow J j haystack := by
  have hfields : ∀ ns : List Needle, exportedFields J ns haystack =
      ((ns.map Needle.key).filter fun k => k.1.action.store?).map fun k =>
        (k.1.field J Jsonexport.jsonToPqtimestamp haystack).getD none := by
    intro ns
    rw [exportedFields, List.filter_map, List.map_map]
    rfl
  rw [exportedRow, exportedRow, h.fields, hfields, hfields, h.used]

/-- The element `["", "timestamp"]`. -/
def timestampSetting : JpointerSetting := .array [some [], some (ascii "timestamp")]

/-- Both validators accept a list of one timestamp.  Of the message `"2016-12-31T23:59:60Z"` the
hook makes a row, while the producer opens a batch and refuses the message. -/
theorem leap_second_only_in_hook :
    ∃ settings i,
      Exports.validate (some (ascii "h")) (some (ascii "t")) (some (.list [timestampSetting])) =
        .ok settings ∧
      Jsonexport.validate (some (.list [timestampSetting])) = .ok settings ∧
      Exports.init settings = some i ∧ Jsonexport.init settings = some i ∧
      hJsonexport JsonC.strings i 0 ⟨⟨ascii "\"2016-12-31T23:59:60Z\"", 0⟩, []⟩ =
        some (true, ⟨⟨[0, 1, 0, 0, 0, 8, 0, 1, 231, 251, 226, 134, 192, 0], 0⟩, []⟩) ∧
      (exec (CopyState.step (Exports.conf JsonC.strings "COPY")) (.init i)
          [.produce ⟨ascii "\"2016-12-31T23:59:60Z\"", 0⟩ (true, true)]).map CopyState.master =
        some [.command "COPY", .data binheader] := by
  refine ⟨_, _, rfl, rfl, rfl, rfl, ?_, ?_⟩
  · decide +kernel
  · decide +kernel

/-- For every configuration that both validators accept, after every run of the producer and for
every message: the producer makes a row of the message exactly if the hook accepts it, with the
bytes of the new payload, unless the message is exportable and has a leap second in it; in that case
they differ.  If there is no row, nothing is put on the stream except what opens a batch. -/
theorem exports_agrees_iff (J : JsonC) (host topic : Option CString) (jpointers : Option Jpointers)
    (settings settings' : List JpointerSetting) (i ctx : Internal)
    (hproducer : Exports.validate host topic jpointers = .ok settings)
    (hhook : Jsonexport.validate jpointers = .ok settings')
    (hi : Exports.init settings = some i) (hctx : Jsonexport.init settings' = some ctx)
    (cpycmd : String) (acts : List CopyAction) (s : CopyState Internal)
    (hexec : exec (CopyState.step (Exports.conf J cpycmd)) (.init i) acts = some s)
    (p : Payload) (ok : Bool × Bool) (behind : UInt8) (md : Metadata) :
    ((∀ bytes,
      (∃ pieces ∈ acceptedRow (Exports.conf J cpycmd) s (.produce p ok), pieces.flatten = bytes) ↔
        ∃ msg', hJsonexport J ctx behind ⟨p, md⟩ = some (true, msg') ∧ msg'.payload.bytes = bytes) ↔
      ¬(Exportable J ctx.used p ∧ LeapSecondFound J ctx p)) ∧
    ∀ s', s.produce (Exports.conf J cpycmd) p ok = some s' →
      (acceptedRow (Exports.conf J cpycmd) s (.produce p ok) = [] →
        s'.master = s.master ∨
          s.copy = 0 ∧ s'.master = s.master ++ (Exports.conf J cpycmd).opening) ∧
      ∀ pieces ∈ acceptedRow (Exports.conf J cpycmd) s (.produce p ok), s'.master =
        s.master ++ (if s.copy = 0 then (Exports.conf J cpycmd).opening else []) ++
          pieces.map .data ++
          if s.count + 1 = 2000 then (Exports.conf J cpycmd).closing else [] := by
  refine ⟨?_, fun s' hproduce => CopyState.produce_master hproduce⟩
  obtain ⟨hvalidate, hinit, confs, rfl, hplain⟩ := Exports.init_eq hproducer hi
  obtain rfl : settings = settings' := Except.ok.inj (hvalidate.symm.trans hhook)
  obtain rfl : Internal.ofConfs confs = ctx := Option.some.inj (hinit.symm.trans hctx)
  have hused : ∀ n ∈ (Internal.ofConfs confs).used, n.conf.Plain ∧ n.metadata = false := by
    intro n hn
    obtain ⟨conf, hconf, rfl⟩ := List.mem_map.mp (List.mem_of_mem_take hn)
    exact ⟨hplain conf hconf, rfl⟩
  have halike := Exports.alike_of_exec (fun n hn => (hused n hn).1.2) hexec
  have hrows : ∀ bytes,
      (∃ pieces ∈ acceptedRow (Exports.conf J cpycmd) s (.produce p ok), pieces.flatten = bytes) ↔
        p.terminator = 0 ∧ ∃ haystack, J.parse p.cstring = some haystack ∧
          (∀ n ∈ (Internal.ofConfs confs).used, n.conf.Accepts J haystack ∧
            (n.conf.field J Jsonexport.jsonToPqtimestamp haystack).isSome = true) ∧
          (∀ n ∈ (Internal.ofConfs confs).used, ¬n.conf.FindsLeapSecond J haystack) ∧
          bytes = exportedRow J (.ofConfs confs) haystack := by
    intro bytes
    have hmem : (∃ pieces ∈ acceptedRow (Exports.conf J cpycmd) s (.produce p ok),
        pieces.flatten = bytes) ↔ ∃ pieces, (∃ internal, Exports.verdict J s.internal p =
          some (.row pieces internal)) ∧ pieces.flatten = bytes :=
      exists_congr fun pieces => and_congr_left' mem_acceptedRow
    rw [hmem, Exports.row_iff (halike.forall_used.mpr fun n hn => (hused n hn).1) p bytes]
    refine and_congr_right fun _ => exists_congr fun haystack => and_congr_right fun _ => ?_
    rw [halike.exportedRow_eq]
    exact and_congr
      (halike.forall_used (P := fun conf => conf.Accepts J haystack ∧
        (conf.field J Jsonexport.jsonToPqtimestamp haystack).isSome = true))
      (and_congr_left' (halike.forall_used (P := fun conf => ¬conf.FindsLeapSecond J haystack)))
  have hhooks := hJsonexport_row_iff (J := J) hused p behind md
  constructor
  · rintro hagree ⟨⟨hterm, haystack, hparse, hall⟩, haystack', hparse', n, hn, hleap⟩
    -- the hook makes a row of the message, so the producer would have to
    have hrow := (hhooks _).mpr ⟨hterm, haystack, hparse, hall, rfl⟩
    obtain ⟨-, haystack'', hparse'', -, hnone, -⟩ := (hrows _).mp ((hagree _).mpr hrow)
    obtain rfl : haystack' = haystack'' := Option.some.inj (hparse'.symm.trans hparse'')
    exact hnone n hn hleap
  · intro hnot bytes
    rw [hrows]
    constructor
    · rintro ⟨hterm, haystack, hparse, hall, -, hbytes⟩
      exact (hhooks bytes).mpr ⟨hterm, haystack, hparse, hall, hbytes⟩
    · intro haccept
      obtain ⟨hterm, haystack, hparse, hall, hbytes⟩ := (hhooks bytes).mp haccept
      refine ⟨hterm, haystack, hparse, hall, fun n hn hleap => ?_, hbytes⟩
      exact hnot ⟨⟨hterm, haystack, hparse, hall⟩, haystack, hparse, n, hn, hleap⟩

/-- The list of one timestamp, after a message that was refused for its leap second. -/
theorem exports_agrees_after_leap_second :
    ∃ settings i,
      Exports.validate (some (ascii "h")) (some (ascii "t")) (some (.list [timestampSetting])) =
        .ok settings ∧
      Jsonexport.validate (some (.list [timestampSetting])) = .ok settings ∧
      Exports.init settings = some i ∧ Jsonexport.init settings = some i ∧
      ∃ s, exec (CopyState.step (Exports.conf JsonC.strings "COPY")) (.init i)
          [.produce ⟨ascii "\"2016-12-31T23:59:60Z\"", 0⟩ (true, true)] = some s ∧
        ((∀ bytes, (∃ pieces ∈ acceptedRow (Exports.conf JsonC.strings "COPY") s
              (.produce ⟨ascii "\"2016-12-31T23:59:59Z\"", 0⟩ (true, true)),
              pieces.flatten = bytes) ↔
            ∃ msg', hJsonexport JsonC.strings i 0 ⟨⟨ascii "\"2016-12-31T23:59:59Z\"", 0⟩, []⟩ =
              some (true, msg') ∧ msg'.payload.bytes = bytes) ↔
          ¬(Exportable JsonC.strings i.used ⟨ascii "\"2016-12-31T23:59:59Z\"", 0⟩ ∧
            LeapSecondFound JsonC.strings i ⟨ascii "\"2016-12-31T23:59:59Z\"", 0⟩)) :=
  ⟨_, _, rfl, rfl, rfl, rfl, exists_of_exec_isSome (by decide +kernel) fun s hexec =>
    (exports_agrees_iff JsonC.strings (some (ascii "h")) (some (ascii "t"))
      (some (.list [timestampSetting])) _ _ _ _ rfl rfl rfl rfl "COPY" _ s hexec
      ⟨ascii "\"2016-12-31T23:59:59Z\"", 0⟩ (true, true) 0 []).1⟩

end Schaufel
