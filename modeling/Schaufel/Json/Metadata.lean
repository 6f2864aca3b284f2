import Schaufel.Json.Export

/-!
# Fields that are stored as metadata

A needle with the action `store_meta` also files the bytes of its field in the metadata of the
message, under the key `jpointer`.  The hook does so right after it has written the field to the
payload and has freed the result of the needle.  A text belongs to the document, so it is still
there; the result of a timestamp is a null pointer by then.
-/

namespace Schaufel

/-! ### The table -/

/-- `metadata_insert` replaces the entry of its key and keeps the others. -/
theorem lookup_metadataInsert (md : Metadata) (key other : String) (datum : MDatum) :
    (metadataInsert md key datum).lookup other =
      if other = key then some datum else md.lookup other := by
  unfold metadataInsert
  split_ifs with hany hkey hkey
  · subst hkey
    induction md with
    | nil => simp at hany
    | cons e md ih =>
      rw [List.map_cons]
      by_cases he : e.1 = other
      · simp [he]
      · have he' : (other == e.1) = false := by simpa using Ne.symm he
        rw [if_neg he, List.lookup_cons, he']
        refine ih ?_
        simpa [he] using hany
  · clear hany
    induction md with
    | nil => rfl
    | cons e md ih =>
      rw [List.map_cons, List.lookup_cons, List.lookup_cons, ih]
      by_cases he : e.1 = key
      · have hne : (other == key) = false := by simpa using hkey
        simp [he, hne]
      · simp [he]
  · simp [hkey]
  · have hne : (other == key) = false := by simpa using hkey
    simp [List.lookup_cons, hne]

/-- The datum for the bytes of a field: a string with its terminator. -/
def metaDatum (bytes : List UInt8) : MDatum := ⟨.string, bytes ++ [0], bytes.length + 1⟩

/-- The fields that were filed, one after the other. -/
def fileAll (md : Metadata) (fields : List (List UInt8)) : Metadata :=
  fields.foldl (fun md bytes => metadataInsert md "jpointer" (metaDatum bytes)) md

/-- The last field that was filed is the one that is found. -/
theorem lookup_fileAll (md : Metadata) (fields : List (List UInt8)) (key : String) :
    (fileAll md fields).lookup key =
      if key = "jpointer" then (fields.getLast?.map metaDatum).or (md.lookup key)
        else md.lookup key := by
  induction fields using List.reverseRecOn with
  | nil => simp [fileAll]
  | append_singleton fields bytes ih =>
    rw [fileAll, List.foldl_append, List.foldl_cons, List.foldl_nil, lookup_metadataInsert]
    split_ifs with hkey
    · simp
    · rw [fileAll, if_neg hkey] at ih
      exact ih

/-! ### What the loop files -/

section Loop

variable {f : NeedleConf → Option (List UInt8)}

/-- The field that a needle files. -/
def NeedleConf.filed (f : NeedleConf → Option (List UInt8)) (conf : NeedleConf) :
    Option (List UInt8) :=
  if conf.action = .storeMeta then f conf else none

/-- A needle whose field is freed before it is filed. -/
def NeedleConf.FreedEarly (f : NeedleConf → Option (List UInt8)) (conf : NeedleConf) : Prop :=
  conf.action = .storeMeta ∧ conf.pqtype = .timestamp ∧ (f conf).isSome = true

/-- One round of the loop for a needle that stores metadata and has a field: a text is filed, and a
timestamp is freed already. -/
theorem ExportBuffer.write_marked (b : ExportBuffer) {n : Needle} {bytes : List UInt8}
    (hdefined : n.conf.Defined) (haction : n.conf.action = .storeMeta)
    (hlength : bytes.length < 2 ^ 31) :
    (n.conf.pqtype = .timestamp → b.write (n.filled (some bytes)) = none) ∧
      (n.conf.pqtype ≠ .timestamp → ∃ b', b.write (n.filled (some bytes)) = some b' ∧
        b'.metadata = metadataInsert b.metadata "jpointer" (metaDatum bytes)) := by
  have hlen : (n.filled (some bytes)).length.toNat = bytes.length :=
    @Needle.length_filled n (some bytes) (by simpa using hlength)
  have hstore : (n.filled (some bytes)).conf.action.store? = true := by
    show n.conf.action.store? = true
    rw [haction]
    rfl
  have hmeta : (n.filled (some bytes)).metadata = true := by
    simp [Needle.filled, haction]
  have hwrite : b.write (n.filled (some bytes)) = (n.filled (some bytes)).free.bind fun n' =>
      ((b.append (bigEndian 4 (n.filled (some bytes)).length.toNat)).append
        (bytes.take (n.filled (some bytes)).length.toNat)).file n' := by
    rw [write, if_pos hstore]
    rfl
  refine ⟨fun htype => ?_, fun htype => ?_⟩
  · have hfree : (n.filled (some bytes)).free = some { n.filled (some bytes) with
        result := none } := by
      unfold Needle.free
      rw [show (n.filled (some bytes)).conf.pqtype = .timestamp from htype]
    rw [hwrite, hfree, Option.bind_some, file, if_pos hmeta, Option.map_none]
  · have hfree : (n.filled (some bytes)).free = some (n.filled (some bytes)) := by
      unfold Needle.free
      cases hcase : (n.filled (some bytes)).conf.pqtype with
      | undefined => exact absurd hcase hdefined.pqtype
      | text => rfl
      | timestamp => exact absurd hcase htype
    rw [hwrite, hfree, Option.bind_some, file, if_pos hmeta, hlen, List.take_length]
    refine ⟨_, rfl, ?_⟩
    dsimp only
    rw [List.take_length]
    rfl

/-- One round of the loop: it files the field of a needle that stores metadata, unless the field is
freed already. -/
theorem ExportBuffer.write_metadata (b : ExportBuffer) {n : Needle} (hdefined : n.conf.Defined)
    (hmark : n.metadata = false) (hlength : ∀ bytes ∈ f n.conf, bytes.length < 2 ^ 31) :
    (n.conf.FreedEarly f → b.write (n.filled (f n.conf)) = none) ∧
      (¬ n.conf.FreedEarly f → ∃ b', b.write (n.filled (f n.conf)) = some b' ∧
        b'.metadata = fileAll b.metadata (n.conf.filed f).toList) := by
  by_cases hfiles : n.conf.action = .storeMeta ∧ (f n.conf).isSome = true
  · obtain ⟨bytes, hbytes⟩ := Option.isSome_iff_exists.mp hfiles.2
    obtain ⟨hfreed, hfiled⟩ := b.write_marked hdefined hfiles.1 (hlength bytes hbytes)
    have hfield : n.conf.filed f = some bytes := by rw [NeedleConf.filed, if_pos hfiles.1, hbytes]
    rw [hbytes, hfield]
    exact ⟨fun h => hfreed h.2.1, fun h => hfiled fun htype => h ⟨hfiles.1, htype, hfiles.2⟩⟩
  · have hnone : n.conf.filed f = none := by
      unfold NeedleConf.filed
      split_ifs with haction
      · rw [not_and, Bool.not_eq_true, Option.isSome_eq_false_iff,
          Option.isNone_iff_eq_none] at hfiles
        exact hfiles haction
      · rfl
    have hmark' : (n.filled (f n.conf)).metadata = false := by
      simp only [Needle.filled, hmark, Bool.false_or, Bool.and_eq_false_imp, decide_eq_true_eq]
      intro haction
      simpa [haction] using hfiles
    have hunmarked := b.write_unmarked (n := n.filled (f n.conf)) hdefined.pqtype hmark'
    rw [hnone]
    exact ⟨fun h => absurd ⟨h.1, h.2.2⟩ hfiles, fun _ => hunmarked⟩

/-- The whole loop. -/
theorem ExportBuffer.writeAll_metadata (b : ExportBuffer) {ns : List Needle}
    (hns : ∀ n ∈ ns, n.conf.Defined ∧ n.metadata = false ∧
    ∀ bytes ∈ f n.conf, bytes.length < 2 ^ 31) :
    ((∃ n ∈ ns, n.conf.FreedEarly f) → b.writeAll (ns.map fun n => n.filled (f n.conf)) = none) ∧
      ((∀ n ∈ ns, ¬ n.conf.FreedEarly f) →
        ∃ b', b.writeAll (ns.map fun n => n.filled (f n.conf)) = some b' ∧
          b'.metadata = fileAll b.metadata (ns.filterMap fun n => n.conf.filed f)) := by
  induction ns generalizing b with
  | nil => exact ⟨fun ⟨n, hn, _⟩ => absurd hn List.not_mem_nil, fun _ => ⟨b, rfl, rfl⟩⟩
  | cons n ns ih =>
    rw [List.forall_mem_cons] at hns
    obtain ⟨hdefined, hmark, hlength⟩ := hns.1
    obtain ⟨hfreed, hfiled⟩ := b.write_metadata hdefined hmark hlength
    rw [List.map_cons, writeAll, List.exists_mem_cons_iff, List.forall_mem_cons]
    by_cases hearly : n.conf.FreedEarly f
    · rw [hfreed hearly]
      exact ⟨fun _ => rfl, fun h => absurd hearly h.1⟩
    · obtain ⟨b₁, hb₁, hmd₁⟩ := hfiled hearly
      obtain ⟨hrest, hrest'⟩ := ih b₁ hns.2
      rw [hb₁, Option.bind_some]
      refine ⟨fun h => hrest (h.resolve_left hearly), fun h => ?_⟩
      obtain ⟨b₂, hb₂, hmd₂⟩ := hrest' h.2
      refine ⟨b₂, hb₂, ?_⟩
      rw [hmd₂, hmd₁, fileAll, fileAll, fileAll, ← List.foldl_append]
      cases hcase : n.conf.filed f with
      | none => simp [hcase]
      | some bytes => simp [hcase]

end Loop

/-! ### The hook -/

/-- The field of a needle in a document. -/
def NeedleConf.exported (J : JsonC) (haystack : J.Obj) (conf : NeedleConf) : Option (List UInt8) :=
  (conf.field J Jsonexport.jsonToPqtimestamp haystack).getD none

/-- What a message becomes: the payload holds the fields, the metadata holds the last field of a
needle that stores metadata, as a string with its terminator, and every other entry is as before. -/
structure MetadataRecorded (J : JsonC) (ctx : Internal) (haystack : J.Obj)
    (msg msg' : ExportMessage) : Prop where
  /-- The fields that are written. -/
  payload : msg'.payload.bytes =
    bigEndian 2 ctx.fields.toNat ++ (exportedFields J ctx.used haystack).flatMap encodeField
  /-- The last of those that are stored as metadata, too. -/
  jpointer : ∀ bytes,
      (ctx.used.filterMap fun n => n.conf.filed (NeedleConf.exported J haystack)).getLast? =
      some bytes → msg'.metadata.lookup "jpointer" = some ⟨.string, bytes ++ [0], bytes.length + 1⟩
  /-- The other entries. -/
  other : ∀ key, key ≠ "jpointer" → msg'.metadata.lookup key = msg.metadata.lookup key

/-- The needles of a context carry no mark. -/
theorem Jsonexport.unmarked_of_init {settings : List JpointerSetting} {ctx : Internal}
    (hinit : Jsonexport.init settings = some ctx) : ∀ n ∈ ctx.used, n.metadata = false := by
  obtain ⟨confs, -, rfl⟩ := Option.map_eq_some_iff.mp hinit
  intro n hn
  obtain ⟨conf, -, rfl⟩ := List.mem_map.mp (List.mem_of_mem_take hn)
  rfl

/-- The hook on an exportable message, as far as the loop goes. -/
theorem hJsonexport_of_exportable {J : JsonC} {ctx : Internal} {behind : UInt8}
    {msg : ExportMessage} {haystack : J.Obj} (hdefined : ∀ n ∈ ctx.used, n.conf.Defined)
    (hparse : J.parse msg.payload.cstring = some haystack) (h : Exportable J ctx.used msg.payload) :
    hJsonexport J ctx behind msg =
      ((ExportBuffer.start ctx.fields msg.metadata).writeAll
        (ctx.used.map fun n => n.filled (n.conf.exported J haystack))).map fun b =>
          (true, ⟨⟨b.buf, behind⟩, b.metadata⟩) := by
  obtain ⟨hterm, haystack', hparse', hall⟩ := h
  obtain rfl : haystack' = haystack := Option.some.inj (hparse'.symm.trans hparse)
  have hderef : deref J Jsonexport.jsonToPqtimestamp haystack' ctx.used =
      some (0, ctx.used.map fun n => n.filled (n.conf.exported J haystack')) :=
    deref_eq_zero_iff.mpr ⟨hall, rfl⟩
  obtain ⟨ns', hfree⟩ : ∃ ns', (ctx.used.map fun n => n.filled (n.conf.exported J haystack')).mapM
      Needle.free = some ns' := by
    refine mapM_isSome fun n hn => Needle.free_isSome ?_
    obtain ⟨n₀, hn₀, rfl⟩ := List.mem_map.mp hn
    exact (hdefined n₀ hn₀).pqtype
  simp only [hJsonexport, hterm, hparse, hderef, freeResults, hfree, ne_eq, not_true_eq_false,
    if_false, Option.map_some]
  exact Option.map_eq_bind.symm

section Accepted

variable {J : JsonC} {jpointers : Option Jpointers} {settings : List JpointerSetting}
  {ctx : Internal} (hvalidate : Jsonexport.validate jpointers = .ok settings)
  (hinit : Jsonexport.init settings = some ctx)
include hvalidate hinit

/-- The loop of the hook on an exportable message, for a configuration that was accepted. -/
theorem Jsonexport.writeAll_metadata {msg : ExportMessage} {haystack : J.Obj}
    (hparse : J.parse msg.payload.cstring = some haystack) (h : Exportable J ctx.used msg.payload) :
    ((∃ n ∈ ctx.used, n.conf.FreedEarly (NeedleConf.exported J haystack)) →
        (ExportBuffer.start ctx.fields msg.metadata).writeAll
          (ctx.used.map fun n => n.filled (n.conf.exported J haystack)) = none) ∧
      ((∀ n ∈ ctx.used, ¬ n.conf.FreedEarly (NeedleConf.exported J haystack)) →
        ∃ b, (ExportBuffer.start ctx.fields msg.metadata).writeAll
            (ctx.used.map fun n => n.filled (n.conf.exported J haystack)) = some b ∧
          b.metadata =
            fileAll msg.metadata (ctx.used.filterMap fun n => n.conf.filed
              (NeedleConf.exported J haystack))) := by
  have hdefined := defined_of_validateJpointers Jsonexport.knownAction_store hvalidate hinit
  obtain ⟨-, haystack', hparse', hall⟩ := h
  obtain rfl : haystack' = haystack := Option.some.inj (hparse'.symm.trans hparse)
  have hlength := length_exportedField fun n hn => (hall n hn).2
  refine (ExportBuffer.start ctx.fields msg.metadata).writeAll_metadata fun n hn => ?_
  exact ⟨hdefined n hn, Jsonexport.unmarked_of_init hinit n hn, hlength n hn⟩

/-- Whenever the hook accepts a message, the fields are recorded. -/
theorem metadataRecorded_of_accepted {behind : UInt8} {msg msg' : ExportMessage} {haystack : J.Obj}
    (hparse : J.parse msg.payload.cstring = some haystack)
    (h : hJsonexport J ctx behind msg = some (true, msg')) :
    MetadataRecorded J ctx haystack msg msg' := by
  have hdefined := defined_of_validateJpointers Jsonexport.knownAction_store hvalidate hinit
  have hexportable := (hJsonexport_eq_true_iff h).mp rfl
  have hhook := hJsonexport_of_exportable hdefined hparse hexportable ▸ h
  obtain ⟨b, hb, heq⟩ := Option.map_eq_some_iff.mp hhook
  obtain rfl := (Prod.mk.inj heq).2
  obtain ⟨hfreed, hfiled⟩ := Jsonexport.writeAll_metadata hvalidate hinit hparse hexportable
  have hkept : ∀ n ∈ ctx.used, ¬ n.conf.FreedEarly (NeedleConf.exported J haystack) := by
    intro n hn hearly
    rw [hfreed ⟨n, hn, hearly⟩] at hb
    cases hb
  obtain ⟨b', hb', hmd⟩ := hfiled hkept
  obtain rfl : b' = b := Option.some.inj (hb'.symm.trans hb)
  refine ⟨hJsonexport_payload h hparse, fun bytes hlast => ?_, fun key hkey => ?_⟩
  · show b'.metadata.lookup "jpointer" = _
    rw [hmd, lookup_fileAll, if_pos rfl, hlast]
    rfl
  · show b'.metadata.lookup key = _
    rw [hmd, lookup_fileAll, if_neg hkey]

end Accepted

/-- The last needle that files a field. -/
theorem exists_last_filed {f : NeedleConf → Option (List UInt8)} {ns : List Needle}
    (h : ∃ n ∈ ns, n.conf.action = .storeMeta ∧ f n.conf ≠ none) :
    ∃ before n after bytes, ns = before ++ n :: after ∧ n.conf.action = .storeMeta ∧
      f n.conf = some bytes ∧ (∀ m ∈ after, m.conf.action = .storeMeta → f m.conf = none) ∧
      (ns.filterMap fun n => n.conf.filed f).getLast? = some bytes := by
  induction ns using List.reverseRecOn with
  | nil =>
    obtain ⟨n, hn, -⟩ := h
    cases hn
  | append_singleton ns m ih =>
    rw [List.filterMap_append]
    by_cases hm : m.conf.action = .storeMeta ∧ f m.conf ≠ none
    · obtain ⟨bytes, hbytes⟩ := Option.ne_none_iff_exists'.mp hm.2
      refine ⟨ns, m, [], bytes, rfl, hm.1, hbytes, by simp, ?_⟩
      simp [NeedleConf.filed, hm.1, hbytes]
    · have hrest : ∃ n ∈ ns, n.conf.action = .storeMeta ∧ f n.conf ≠ none := by
        obtain ⟨n, hn, hfiles⟩ := h
        rcases List.mem_append.mp hn with hn | hn
        · exact ⟨n, hn, hfiles⟩
        · obtain rfl := List.mem_singleton.mp hn
          exact absurd hfiles hm
      obtain ⟨before, n, after, bytes, rfl, haction, hbytes, hafter, hlast⟩ := ih hrest
      have hnone : m.conf.action = .storeMeta → f m.conf = none := fun haction =>
        by_contra fun hvalue => hm ⟨haction, hvalue⟩
      have hfiled : m.conf.filed f = none := by
        unfold NeedleConf.filed
        split_ifs with haction
        · exact hnone haction
        · rfl
      refine ⟨before, n, after ++ [m], bytes, by simp, haction, hbytes, fun m' hm' => ?_, ?_⟩
      · rcases List.mem_append.mp hm' with hm' | hm'
        · exact hafter m' hm'
        · obtain rfl := List.mem_singleton.mp hm'
          exact hnone
      · simpa [hfiled] using hlast

/-- Whenever the hook accepts a message in which a needle that stores metadata has a value, the
metadata maps `jpointer` to the field of the last such needle, as a string with its terminator.  The
payload holds the same bytes at the place of this needle, and every other entry of the metadata is
as before. -/
theorem store_meta_recorded (J : JsonC) (jpointers : Option Jpointers)
    (settings : List JpointerSetting) (hvalidate : Jsonexport.validate jpointers = .ok settings)
    (ctx : Internal) (hinit : Jsonexport.init settings = some ctx) (behind : UInt8)
    (msg msg' : ExportMessage) (haystack : J.Obj)
    (hparse : J.parse msg.payload.cstring = some haystack)
    (h : hJsonexport J ctx behind msg = some (true, msg'))
    (hvalue : ∃ n ∈ ctx.used, n.conf.action = .storeMeta ∧ n.conf.exported J haystack ≠ none) :
    (∃ before n after bytes, ctx.used = before ++ n :: after ∧ n.conf.action = .storeMeta ∧
      n.conf.exported J haystack = some bytes ∧
      (∀ m ∈ after, m.conf.action = .storeMeta → m.conf.exported J haystack = none) ∧
      msg'.payload.bytes = bigEndian 2 ctx.fields.toNat ++
        ((exportedFields J before haystack).flatMap encodeField ++
          (bigEndian 4 bytes.length ++ bytes) ++
          (exportedFields J after haystack).flatMap encodeField) ∧
      msg'.metadata.lookup "jpointer" = some ⟨.string, bytes ++ [0], bytes.length + 1⟩) ∧
    ∀ key, key ≠ "jpointer" → msg'.metadata.lookup key = msg.metadata.lookup key := by
  have hrecorded := metadataRecorded_of_accepted hvalidate hinit hparse h
  obtain ⟨before, n, after, bytes, hused, haction, hbytes, hafter, hlast⟩ :=
    exists_last_filed (f := NeedleConf.exported J haystack) hvalue
  refine ⟨⟨before, n, after, bytes, hused, haction, hbytes, hafter, ?_, ?_⟩, hrecorded.other⟩
  · have hstore : n.conf.action.store? = true := by
      rw [haction]
      rfl
    have hfield : (n.conf.field J Jsonexport.jsonToPqtimestamp haystack).getD none = some bytes :=
      hbytes
    rw [hrecorded.payload, hused]
    simp [exportedFields, List.filter_append, hstore, hfield, encodeField]
  · exact hrecorded.jpointer bytes hlast

/-- A pointer to the document that is stored as metadata, too. -/
def storeMetaSetting (pqtype : CString) : JpointerSetting :=
  .array [some [], some pqtype, some (ascii "store_meta")]

/-- The document `"a"` as a text, before a timestamp that is not found: the text is the last field
that is filed, and the entry `xmark` stays. -/
theorem store_meta_recorded_before_null :
    ∃ settings ctx haystack msg',
      Jsonexport.validate (some (.list [storeMetaSetting (ascii "text"),
        .array [some (ascii "/t"), some (ascii "timestamp"), some (ascii "store_meta")]])) =
          .ok settings ∧
      Jsonexport.init settings = some ctx ∧
      hJsonexport JsonC.strings ctx 0 ⟨⟨[34, 97, 34], 0⟩, [("xmark", ⟨.int, [7, 0, 0, 0], 4⟩)]⟩ =
        some (true, msg') ∧
      (∃ before n after bytes, ctx.used = before ++ n :: after ∧ n.conf.action = .storeMeta ∧
        n.conf.exported JsonC.strings haystack = some bytes ∧
        (∀ m ∈ after, m.conf.action = .storeMeta → m.conf.exported JsonC.strings haystack = none) ∧
        msg'.payload.bytes = bigEndian 2 ctx.fields.toNat ++
          ((exportedFields JsonC.strings before haystack).flatMap encodeField ++
            (bigEndian 4 bytes.length ++ bytes) ++
            (exportedFields JsonC.strings after haystack).flatMap encodeField) ∧
        msg'.metadata.lookup "jpointer" = some ⟨.string, bytes ++ [0], bytes.length + 1⟩) ∧
      ∀ key, key ≠ "jpointer" → msg'.metadata.lookup key =
        [("xmark", (⟨.int, [7, 0, 0, 0], 4⟩ : MDatum))].lookup key := by
  refine ⟨_, _, ⟨[97], by decide⟩, ⟨⟨[0, 2, 0, 0, 0, 1, 97, 255, 255, 255, 255], 0⟩,
    [("jpointer", ⟨.string, [97, 0], 2⟩), ("xmark", ⟨.int, [7, 0, 0, 0], 4⟩)]⟩, rfl, rfl, ?_, ?_⟩
  · decide +kernel
  · exact store_meta_recorded JsonC.strings (some (.list [storeMetaSetting (ascii "text"),
        .array [some (ascii "/t"), some (ascii "timestamp"), some (ascii "store_meta")]]))
          _ rfl _ rfl 0
      ⟨⟨[34, 97, 34], 0⟩, [("xmark", ⟨.int, [7, 0, 0, 0], 4⟩)]⟩ _ ⟨[97], by decide⟩ rfl
      (by decide +kernel) (by decide +kernel)

/-- A timestamp with the action `store_meta` is accepted by the validator, and the hook does not
survive the first message that has one. -/
theorem store_meta_timestamp_freed :
    ∃ settings ctx, Jsonexport.validate (some (.list [storeMetaSetting (ascii "timestamp")])) =
        .ok settings ∧
      Jsonexport.init settings = some ctx ∧
      hJsonexport JsonC.strings ctx 0
        ⟨⟨34 :: (ascii "2020-02-29T12:30:45Z" ++ [34]), 0⟩, []⟩ = none :=
  ⟨_, _, rfl, rfl, by decide +kernel⟩

end Schaufel
