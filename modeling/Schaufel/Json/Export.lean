import Schaufel.Json.Config
import Schaufel.Postgres.CopyBinary
import Schaufel.Postgres.Model

/-!
# The jsonexport hook

`h_jsonexport` replaces the payload of a message by a row in the binary COPY format: the number of
fields, and for every needle that stores, the length and the bytes of its field.  The row is written
to a buffer that grows with every write; the number of fields was counted by `_needles`, the lengths
were set by `_deref`, and the position in the buffer is kept by the loop of the hook.

The hook works on a copy of the needles, so nothing of a message is left for the next one.
-/

namespace Schaufel

/-! ### Messages -/

/-- `MTypes`. -/
inductive MType
  | string
  | int
  | bigint
  | func
  | opaqueData
  deriving DecidableEq, Repr

/-- A metadatum: its type, the bytes of its value and their number. -/
structure MDatum where
  type : MType
  value : List UInt8
  len : Nat
  deriving DecidableEq, Repr

/-- The metadata of a message, by key. -/
abbrev Metadata := List (String × MDatum)

/-- `metadata_insert`: an entry with the key is overwritten. -/
def metadataInsert (md : Metadata) (key : String) (datum : MDatum) : Metadata :=
  if md.any fun e => e.1 = key then md.map fun e => if e.1 = key then (key, datum) else e
  else (key, datum) :: md

/-- The part of a message that the hook sees. -/
structure ExportMessage where
  payload : Payload
  metadata : Metadata
  deriving DecidableEq, Repr

/-- The payload as a C string. -/
def Payload.cstring (p : Payload) : CString := p.bytes.takeWhile fun c => c != 0

/-! ### The buffer -/

/-- `realloc`; what it leaves behind the old bytes is 0 here, and is overwritten. -/
def realloc (buf : List UInt8) (len : Nat) : List UInt8 :=
  buf.take len ++ List.replicate (len - buf.length) 0

/-- `memcpy` to a position of a buffer. -/
def memcpy (buf : List UInt8) (pos : Nat) (bytes : List UInt8) : List UInt8 :=
  buf.take pos ++ bytes ++ buf.drop (pos + bytes.length)

/-- The variables of the loop of `h_jsonexport`, and the metadata of the message. -/
structure ExportBuffer where
  buf : List UInt8
  bufpos : Nat
  buflen : Nat
  metadata : Metadata
  deriving DecidableEq, Repr

namespace ExportBuffer

/-- Enlarge the buffer and write to it. -/
def append (b : ExportBuffer) (bytes : List UInt8) : ExportBuffer :=
  { b with
    buf := memcpy (realloc b.buf (b.buflen + bytes.length)) b.bufpos bytes
    bufpos := b.bufpos + bytes.length
    buflen := b.buflen + bytes.length }

/-- The buffer with the number of fields. -/
def start (fields : UInt16) (metadata : Metadata) : ExportBuffer :=
  append ⟨[], 0, 0, metadata⟩ (bigEndian 2 fields.toNat)

/-- A marked needle files its bytes in the metadata; a result that is freed already is a null
pointer, which `memcpy` does not survive. -/
def file (b : ExportBuffer) (n : Needle) : Option ExportBuffer :=
  if n.metadata then
    n.result.map fun bytes =>
      { b with
        metadata := metadataInsert b.metadata "jpointer"
          ⟨.string, bytes.take n.length.toNat ++ [0], n.length.toNat + 1⟩ }
  else some b

/-- One round of the loop of `h_jsonexport`. -/
def write (b : ExportBuffer) (n : Needle) : Option ExportBuffer :=
  if n.conf.action.store? then
    match n.result with
    | none => (b.append (bigEndian 4 n.length.toNat)).file n
    | some bytes =>
      n.free.bind fun n' =>
        ((b.append (bigEndian 4 n.length.toNat)).append (bytes.take n.length.toNat)).file n'
  else some b

/-- The loop of `h_jsonexport`. -/
def writeAll : ExportBuffer → List Needle → Option ExportBuffer
  | b, [] => some b
  | b, n :: ns => (b.write n).bind fun b' => b'.writeAll ns

end ExportBuffer

/-! ### The hook -/

/-- Free the results of the needles; a needle without a type has no function to do it. -/
def freeResults (ns : List Needle) : Option (List Needle) := ns.mapM Needle.free

/-- `h_jsonexport`: the verdict and the message afterwards.  `behind` is the byte that happens to be
behind the new payload, which has no terminator. -/
def hJsonexport (J : JsonC) (ctx : Internal) (behind : UInt8) (msg : ExportMessage) :
    Option (Bool × ExportMessage) :=
  if msg.payload.terminator ≠ 0 then some (false, msg)
  else
    match J.parse msg.payload.cstring with
    | none => (freeResults ctx.used).map fun _ => (false, msg)
    | some haystack =>
      match deref J Jsonexport.jsonToPqtimestamp haystack ctx.used with
      | none => none
      | some (ret, ns) =>
        if ret ≠ 0 then (freeResults ns).map fun _ => (false, msg)
        else
          ((ExportBuffer.start ctx.fields msg.metadata).writeAll ns).bind fun b =>
            (freeResults ns).map fun _ => (true, ⟨⟨b.buf, behind⟩, b.metadata⟩)

/-! ### What is in the buffer -/

/-- The position and the length are the end of the buffer. -/
def ExportBuffer.Packed (b : ExportBuffer) : Prop :=
  b.bufpos = b.buf.length ∧ b.buflen = b.buf.length

namespace ExportBuffer

variable {b b' : ExportBuffer}

theorem Packed.buf_append (h : b.Packed) (bytes : List UInt8) :
    (b.append bytes).buf = b.buf ++ bytes := by
  obtain ⟨hpos, hlen⟩ := h
  have htake : b.buf.take (b.buf.length + bytes.length) = b.buf :=
    List.take_of_length_le (Nat.le_add_right _ _)
  simp [append, memcpy, realloc, hpos, hlen, htake]

theorem Packed.append (h : b.Packed) (bytes : List UInt8) : (b.append bytes).Packed := by
  have hbuf := h.buf_append bytes
  unfold Packed
  rw [hbuf, List.length_append, ← h.1]
  exact ⟨rfl, congrArg (· + bytes.length) (h.2.trans h.1.symm)⟩

theorem packed_start (fields : UInt16) (metadata : Metadata) :
    (start fields metadata).Packed ∧ (start fields metadata).buf = bigEndian 2 fields.toNat :=
  have h : Packed ⟨[], 0, 0, metadata⟩ := ⟨rfl, rfl⟩
  ⟨h.append _, h.buf_append _⟩

theorem buf_file {n : Needle} (h : b.file n = some b') :
    b'.buf = b.buf ∧ (b.Packed → b'.Packed) := by
  unfold file at h
  split at h
  · obtain ⟨bytes, -, rfl⟩ := Option.map_eq_some_iff.mp h
    exact ⟨rfl, id⟩
  · obtain rfl := Option.some.inj h
    exact ⟨rfl, id⟩

/-- A needle that carries no mark files nothing. -/
theorem file_of_unmarked (b : ExportBuffer) {n : Needle} (h : n.metadata = false) :
    b.file n = some b := by
  rw [file, if_neg (by simp [h])]

/-- A needle that does not file its field only writes it. -/
theorem write_unmarked (b : ExportBuffer) {n : Needle} (htype : n.conf.pqtype ≠ .undefined)
    (hmark : n.metadata = false) : ∃ b', b.write n = some b' ∧ b'.metadata = b.metadata := by
  unfold write
  split
  · split
    · exact ⟨_, file_of_unmarked _ hmark, rfl⟩
    · unfold Needle.free
      cases hcase : n.conf.pqtype with
      | undefined => exact absurd hcase htype
      | text => exact ⟨_, file_of_unmarked _ hmark, rfl⟩
      | timestamp => exact ⟨_, file_of_unmarked _ hmark, rfl⟩
  · exact ⟨b, rfl, rfl⟩

end ExportBuffer

/-- A needle with a field writes the length of the field and its bytes. -/
theorem Needle.length_filled (n : Needle) {field : Option (List UInt8)}
    (h : ∀ bytes ∈ field, bytes.length < 2 ^ 31) :
    (n.filled field).length.toNat = field.elim nullLength List.length := by
  cases field with
  | none => rfl
  | some bytes =>
    have hlt := h bytes rfl
    show (UInt32.ofNat bytes.length).toNat = bytes.length
    rw [UInt32.toNat_ofNat']
    exact Nat.mod_eq_of_lt (by omega)

/-- One round appends the field of a needle that stores. -/
theorem ExportBuffer.write_filled {b b' : ExportBuffer} {n : Needle} {field : Option (List UInt8)}
    (hb : b.Packed) (hfield : ∀ bytes ∈ field, bytes.length < 2 ^ 31)
    (h : b.write (n.filled field) = some b') :
    b'.Packed ∧ b'.buf = b.buf ++ if n.conf.action.store? then encodeField field else [] := by
  have hlen := n.length_filled hfield
  have hconf : (n.filled field).conf = n.conf := rfl
  have hresult : (n.filled field).result = field := rfl
  unfold write at h
  rw [hconf, hresult, hlen] at h
  by_cases hstore : n.conf.action.store? = true
  · rw [if_pos hstore] at h ⊢
    cases field with
    | none =>
      obtain ⟨hbuf, hpacked⟩ := buf_file h
      refine ⟨hpacked (hb.append _), ?_⟩
      rw [hbuf, hb.buf_append]
      simp [encodeField]
    | some bytes =>
      obtain ⟨n', -, hfile⟩ := Option.bind_eq_some_iff.mp h
      obtain ⟨hbuf, hpacked⟩ := buf_file hfile
      refine ⟨hpacked ((hb.append _).append _), ?_⟩
      rw [hbuf, (hb.append _).buf_append, hb.buf_append]
      simp [encodeField]
  · rw [if_neg hstore] at h ⊢
    obtain rfl := Option.some.inj h
    exact ⟨hb, (List.append_nil _).symm⟩

/-- The loop appends the fields of the needles that store, in order. -/
theorem ExportBuffer.writeAll_filled {b b' : ExportBuffer} {ns : List Needle}
    {f : NeedleConf → Option (List UInt8)} (hb : b.Packed)
    (hfield : ∀ n ∈ ns, ∀ bytes ∈ f n.conf, bytes.length < 2 ^ 31)
    (h : b.writeAll (ns.map fun n => n.filled (f n.conf)) = some b') :
    b'.buf = b.buf ++
      ((ns.filter fun n => n.conf.action.store?).map fun n => f n.conf).flatMap encodeField := by
  induction ns generalizing b with
  | nil =>
    obtain rfl := Option.some.inj h
    exact (List.append_nil _).symm
  | cons n ns ih =>
    rw [List.forall_mem_cons] at hfield
    obtain ⟨b₁, hwrite, hrest⟩ := Option.bind_eq_some_iff.mp h
    obtain ⟨hpacked, hbuf⟩ := write_filled hb hfield.1 hwrite
    rw [ih hpacked hfield.2 hrest, hbuf, List.append_assoc]
    by_cases hstore : n.conf.action.store? = true
    · simp [hstore]
    · simp [hstore]

/-! ### The verdict of the hook -/

/-- How the hook comes back: it refuses the message and leaves it as it is, or it accepts the
message and replaces the payload. -/
theorem hJsonexport_cases {J : JsonC} {ctx : Internal} {behind : UInt8} {msg msg' : ExportMessage}
    {ok : Bool} (h : hJsonexport J ctx behind msg = some (ok, msg')) :
    ok = false ∧ msg' = msg ∧
        (msg.payload.terminator = 0 → ∀ haystack, J.parse msg.payload.cstring = some haystack →
          ∀ ns, deref J Jsonexport.jsonToPqtimestamp haystack ctx.used ≠ some (0, ns)) ∨
      ok = true ∧ msg.payload.terminator = 0 ∧
        ∃ haystack ns b, J.parse msg.payload.cstring = some haystack ∧
          deref J Jsonexport.jsonToPqtimestamp haystack ctx.used = some (0, ns) ∧
          (ExportBuffer.start ctx.fields msg.metadata).writeAll ns = some b ∧
          msg' = ⟨⟨b.buf, behind⟩, b.metadata⟩ := by
  unfold hJsonexport at h
  by_cases hterm : msg.payload.terminator = 0
  · rw [if_neg (not_not.mpr hterm)] at h
    cases hparse : J.parse msg.payload.cstring with
    | none =>
      simp only [hparse] at h
      obtain ⟨_, -, heq⟩ := Option.map_eq_some_iff.mp h
      obtain ⟨rfl, rfl⟩ := Prod.mk.inj heq
      exact .inl ⟨rfl, rfl, fun _ haystack hsome => nomatch hsome⟩
    | some haystack =>
      simp only [hparse] at h
      cases hderef : deref J Jsonexport.jsonToPqtimestamp haystack ctx.used with
      | none => simp [hderef] at h
      | some r =>
        obtain ⟨ret, ns⟩ := r
        simp only [hderef] at h
        by_cases hret : ret = 0
        · subst hret
          obtain ⟨b, hb, hfree⟩ := Option.bind_eq_some_iff.mp h
          obtain ⟨_, -, heq⟩ := Option.map_eq_some_iff.mp hfree
          obtain ⟨rfl, rfl⟩ := Prod.mk.inj heq
          exact .inr ⟨rfl, hterm, haystack, ns, b, rfl, hderef, hb, rfl⟩
        · rw [if_pos hret] at h
          obtain ⟨_, -, heq⟩ := Option.map_eq_some_iff.mp h
          obtain ⟨rfl, rfl⟩ := Prod.mk.inj heq
          refine .inl ⟨rfl, rfl, fun _ haystack' hsome ns' hzero => ?_⟩
          obtain rfl := Option.some.inj hsome
          rw [hderef] at hzero
          exact hret (Prod.mk.inj (Option.some.inj hzero)).1
  · rw [if_pos hterm] at h
    obtain ⟨rfl, rfl⟩ := Prod.mk.inj (Option.some.inj h)
    exact .inl ⟨rfl, rfl, fun hzero => absurd hzero hterm⟩

/-- What the hook asks of a message: the payload ends on a null byte and parses, every needle
accepts it, and every value that a needle points to can be formatted. -/
def Exportable (J : JsonC) (ns : List Needle) (p : Payload) : Prop :=
  p.terminator = 0 ∧ ∃ haystack, J.parse p.cstring = some haystack ∧
    ∀ n ∈ ns, n.conf.Accepts J haystack ∧
      (n.conf.field J Jsonexport.jsonToPqtimestamp haystack).isSome = true

/-- The fields of a message: those of the needles that store, in order. -/
def exportedFields (J : JsonC) (ns : List Needle) (haystack : J.Obj) : Fields :=
  (ns.filter fun n => n.conf.action.store?).map fun n =>
    (n.conf.field J Jsonexport.jsonToPqtimestamp haystack).getD none

/-- The hook accepts a message exactly if it is exportable. -/
theorem hJsonexport_eq_true_iff {J : JsonC} {ctx : Internal} {behind : UInt8}
    {msg msg' : ExportMessage} {ok : Bool} (h : hJsonexport J ctx behind msg = some (ok, msg')) :
    ok = true ↔ Exportable J ctx.used msg.payload := by
  rcases hJsonexport_cases h with
    ⟨rfl, -, hnot⟩ | ⟨rfl, hterm, haystack, ns, b, hparse, hderef, -, -⟩
  · refine ⟨fun hfalse => absurd hfalse (by decide), ?_⟩
    rintro ⟨hterm, haystack, hparse, hall⟩
    exact absurd (deref_eq_zero_iff.mpr ⟨hall, rfl⟩) (hnot hterm haystack hparse _)
  · exact ⟨fun _ => ⟨hterm, haystack, hparse, (deref_eq_zero_iff.mp hderef).1⟩, fun _ => rfl⟩

/-- The fields of the hook are short enough for their lengths. -/
theorem length_exportedField {J : JsonC} {haystack : J.Obj} {ns : List Needle}
    (h : ∀ n ∈ ns, (n.conf.field J Jsonexport.jsonToPqtimestamp haystack).isSome = true) :
    ∀ n ∈ ns, ∀ bytes ∈ (n.conf.field J Jsonexport.jsonToPqtimestamp haystack).getD none,
      bytes.length < 2 ^ 31 := by
  intro n hn bytes hbytes
  obtain ⟨field, hsome⟩ := Option.isSome_iff_exists.mp (h n hn)
  rw [hsome, Option.getD_some] at hbytes
  obtain rfl := Option.mem_def.mp hbytes
  exact NeedleConf.length_field hsome

/-- The new payload of an accepted message is the number of fields and the fields. -/
theorem hJsonexport_payload {J : JsonC} {ctx : Internal} {behind : UInt8} {msg msg' : ExportMessage}
    (h : hJsonexport J ctx behind msg = some (true, msg')) {haystack : J.Obj}
    (hparse : J.parse msg.payload.cstring = some haystack) :
    msg'.payload.bytes =
      bigEndian 2 ctx.fields.toNat ++ (exportedFields J ctx.used haystack).flatMap encodeField := by
  rcases hJsonexport_cases h with
    ⟨hfalse, -⟩ | ⟨-, -, haystack', ns, b, hparse', hderef, hwrite, rfl⟩
  · cases hfalse
  obtain rfl : haystack' = haystack := Option.some.inj (hparse'.symm.trans hparse)
  obtain ⟨hall, rfl⟩ := deref_eq_zero_iff.mp hderef
  obtain ⟨hpacked, hbuf⟩ := ExportBuffer.packed_start ctx.fields msg.metadata
  have hfield := length_exportedField fun n hn => (hall n hn).2
  have hb := ExportBuffer.writeAll_filled
    (f := fun conf => (conf.field J Jsonexport.jsonToPqtimestamp haystack').getD none)
      hpacked hfield hwrite
  rw [hb, hbuf]
  rfl

/-- A `json-c` for documents that are a string without escapes; the empty pointer resolves to it. -/
def JsonC.strings : JsonC where
  Obj := { s : CString // s.length < 2 ^ 31 }
  parse s :=
    let text := s.tail.dropLast
    if s = 34 :: (text ++ [34]) ∧ text.all (fun c => c ≠ 34 ∧ c ≠ 92 ∧ 32 ≤ c) then
      if h : text.length < 2 ^ 31 then some ⟨text, h⟩ else none
    else none
  pointerGet o pointer := if pointer = [] then some (some o) else none
  getString o := o.1
  length_getString o := o.2

/-- The needles of a configuration of fewer than 65536 elements are all used, and `fields` counts
those that store. -/
theorem Jsonexport.init_spec {settings : List JpointerSetting} {ctx : Internal}
    (hinit : Jsonexport.init settings = some ctx) (hcount : settings.length ≤ 65535) :
    ctx.used = ctx.needles ∧
      ctx.fields.toNat = (ctx.needles.filter fun n => n.conf.action.store?).length ∧
      ctx.needles.length ≤ 65535 := by
  obtain ⟨confs, hconfs, rfl⟩ := Option.map_eq_some_iff.mp hinit
  have hlen : confs.length ≤ 65535 := by
    rw [← (mapM_eq_some_iff.mp hconfs).length_eq]
    exact hcount
  have hstores : confs.countP (fun conf => conf.action.store?) ≤ confs.length :=
    List.countP_le_length
  refine ⟨?_, ?_, ?_⟩
  · unfold Internal.used
    refine List.take_of_length_le ?_
    show (confs.map NeedleConf.fresh).length ≤ (UInt16.ofNat confs.length).toNat
    rw [List.length_map, UInt16.toNat_ofNat', Nat.mod_eq_of_lt (by omega)]
  · show (UInt16.ofNat (confs.countP fun conf => conf.action.store?)).toNat =
      ((confs.map NeedleConf.fresh).filter fun n => n.conf.action.store?).length
    rw [UInt16.toNat_ofNat', Nat.mod_eq_of_lt (by omega), List.filter_map, List.length_map,
      List.countP_eq_length_filter]
    rfl
  · show (confs.map NeedleConf.fresh).length ≤ 65535
    rw [List.length_map]
    exact hlen

/-- A payload that parses but does not end on a null byte is refused, although there is no needle to
refuse it. -/
theorem unterminated_payload_refused :
    (JsonC.strings.parse (Payload.mk [34, 97, 34] 120).cstring).isSome = true ∧
      hJsonexport JsonC.strings (.ofConfs []) 0 ⟨⟨[34, 97, 34], 120⟩, []⟩ =
        some (false, ⟨⟨[34, 97, 34], 120⟩, []⟩) := by
  decide +kernel

/-- Whenever the hook comes back, it has accepted the message exactly if the payload ends on a null
byte and parses, every needle accepts it and every value that is found can be formatted.  The new
payload of an accepted message is read as the fields of the needles that store, with nothing left
over, and a refused message is as it was. -/
theorem jsonexport_exact (J : JsonC) (settings : List JpointerSetting) (ctx : Internal)
    (hinit : Jsonexport.init settings = some ctx) (hcount : settings.length ≤ 65535)
    (behind : UInt8) (msg msg' : ExportMessage) (ok : Bool)
    (h : hJsonexport J ctx behind msg = some (ok, msg')) :
    (ok = true ↔ Exportable J ctx.needles msg.payload) ∧
      (ok = true → ∀ haystack, J.parse msg.payload.cstring = some haystack →
        decodeTuple msg'.payload.bytes = some (exportedFields J ctx.needles haystack)) ∧
      (ok = false → msg' = msg) := by
  obtain ⟨hused, hfields, hlen⟩ := Jsonexport.init_spec hinit hcount
  refine ⟨?_, ?_, ?_⟩
  · rw [← hused]
    exact hJsonexport_eq_true_iff h
  · rintro rfl haystack hparse
    obtain ⟨-, haystack', hparse', hall⟩ := (hJsonexport_eq_true_iff h).mp rfl
    obtain rfl : haystack' = haystack := Option.some.inj (hparse'.symm.trans hparse)
    have hbytes : msg'.payload.bytes = encodeTuple (exportedFields J ctx.needles haystack') := by
      rw [hJsonexport_payload h hparse, hused, hfields, encodeTuple, exportedFields,
        List.length_map]
    rw [hbytes]
    refine decodeTuple_encodeTuple ?_ ?_
    · have hfilter := List.length_filter_le (fun n : Needle => n.conf.action.store?) ctx.needles
      rw [exportedFields, List.length_map]
      omega
    · intro field hfield bytes hmem
      obtain ⟨n, hn, rfl⟩ := List.mem_map.mp hfield
      have hshort := length_exportedField (fun n hn => (hall n hn).2) n
        (hused ▸ List.mem_of_mem_filter hn) bytes hmem
      exact Nat.lt_trans hshort (by decide)
  · rintro rfl
    rcases hJsonexport_cases h with ⟨-, hsame, -⟩ | ⟨htrue, -⟩
    · exact hsame
    · cases htrue

/-- A text, a timestamp that is not found, and a filter that does not store. -/
def threeNeedles : List JpointerSetting :=
  [.array [some [], some (ascii "text"), some (ascii "store"), some (ascii "noop"), some []],
    .array [some (ascii "/t"), some (ascii "timestamp"), some (ascii "store"), some (ascii "noop"),
      some []],
    .array [some [], some (ascii "text"), some (ascii "discard_false"), some (ascii "match"),
      some (ascii "a")]]

/-- The document `"a"` is accepted and becomes two fields, the second of which is NULL. -/
theorem jsonexport_exact_three_needles :
    ∃ ctx, Jsonexport.init threeNeedles = some ctx ∧
      hJsonexport JsonC.strings ctx 0 ⟨⟨[34, 97, 34], 0⟩, []⟩ =
        some (true, ⟨⟨[0, 2, 0, 0, 0, 1, 97, 255, 255, 255, 255], 0⟩, []⟩) ∧
      (true = true ↔ Exportable JsonC.strings ctx.needles ⟨[34, 97, 34], 0⟩) ∧
      (true = true → ∀ haystack, JsonC.strings.parse (Payload.mk [34, 97, 34] 0).cstring =
        some haystack →
        decodeTuple [0, 2, 0, 0, 0, 1, 97, 255, 255, 255, 255] =
          some (exportedFields JsonC.strings ctx.needles haystack)) ∧
      (true = false → ExportMessage.mk ⟨[0, 2, 0, 0, 0, 1, 97, 255, 255, 255, 255], 0⟩ [] =
        ⟨⟨[34, 97, 34], 0⟩, []⟩) :=
  ⟨_, rfl, by decide +kernel, jsonexport_exact JsonC.strings threeNeedles _ rfl (by decide) 0
    ⟨⟨[34, 97, 34], 0⟩, []⟩ ⟨⟨[0, 2, 0, 0, 0, 1, 97, 255, 255, 255, 255], 0⟩, []⟩ true
    (by decide +kernel)⟩

end Schaufel
