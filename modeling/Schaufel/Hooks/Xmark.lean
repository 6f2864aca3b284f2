import Schaufel.Hooks.Registry
import Schaufel.Json.Metadata
import Schaufel.Queue.Message

/-!
# The hook xmark

`h_xmark` marks a message with the hash of one of its metadata, so that equal tokens go to the same
producer thread.  The hash function gets the address of the datum and its length without the
terminator.  `fnv32a_str` reads that many bytes.  `fnv32a_int` reads four bytes whatever the length
is; if the datum has fewer, the mark depends on what happens to be behind it in memory, which is a
parameter here.

## Main results

* `sharding_stable_iff`: equal strings get equal marks, from the bytes of the datum alone, exactly
  if the hash is `fnv32a_str` or the string has at least three bytes.
* `recorded_field_shards`: what the hook jsonexport stores as metadata is such a string.
-/

namespace Schaufel

/-! ### The hook -/

/-- A key, as the table of metadata has it. -/
def keyName (key : CString) : String := String.ofList (key.map fun c => Char.ofNat c.toNat)

/-- `metadata_find`. -/
def metadataFind (md : Option Metadata) (key : CString) : Option MDatum :=
  md.bind fun m => m.lookup (keyName key)

/-- `message_set_xmark` for a mark of 32 bits. -/
def Message.setXmark {δ μ : Type} (msg : Message δ μ) (xmark : UInt32) : Message δ μ :=
  { msg with xmark := xmark.toUInt64.toInt64 }

namespace Hooks

variable {δ : Type}

/-- What a hash function is called with: the memory from the datum on, and `md->len-1`. -/
def hashDatum (hash : List UInt8 → Nat → UInt32) (datum : MDatum) (beyond : List UInt8) : UInt32 :=
  hash (datum.value ++ beyond) (UInt64.ofNat datum.len - 1).toNat

/-- `h_xmark`: the verdict and the message afterwards.  `beyond` is the memory behind the datum, and
the call of a null pointer does not come back. -/
def hXmark (i : XmarkInternal) (beyond : List UInt8) (msg : Message δ Metadata) :
    Option (Bool × Message δ Metadata) :=
  match i.field with
  | none => some (true, msg.setXmark i.xmark)
  | some field =>
    match metadataFind msg.metadata field with
    | none => some (true, msg.setXmark i.xmark)
    | some md =>
      if md.type ≠ .string then some (true, msg.setXmark i.xmark)
      else
        i.hash.bind fun hash => i.fold.map fun fold =>
          (true, msg.setXmark (fold (hashDatum hash md beyond)))

/-! ### What a hash reads -/

/-- The result of a hash function on a string is a matter of the bytes of the datum. -/
def ReadsDatum (hash : List UInt8 → Nat → UInt32) (bytes : List UInt8) : Prop :=
  ∀ beyond₁ beyond₂,
    hashDatum hash (metaDatum bytes) beyond₁ = hashDatum hash (metaDatum bytes) beyond₂

/-- The length without the terminator is not greater than the number of bytes. -/
theorem toNat_len_sub_one_le (bytes : List UInt8) :
    (UInt64.ofNat (metaDatum bytes).len - 1).toNat ≤ bytes.length := by
  show (UInt64.ofNat (bytes.length + 1) - 1).toNat ≤ bytes.length
  rw [UInt64.toNat_sub, UInt64.toNat_ofNat', UInt64.toNat_one]
  omega

/-- `fnv32a_str` stays within the datum. -/
theorem readsDatum_fnv32aStr (bytes : List UInt8) : ReadsDatum fnv32aStr bytes := by
  intro beyond₁ beyond₂
  have hlen := toNat_len_sub_one_le bytes
  have hfits : (UInt64.ofNat (metaDatum bytes).len - 1).toNat ≤ (metaDatum bytes).value.length := by
    rw [metaDatum, List.length_append]
    exact Nat.le_add_right_of_le hlen
  rw [hashDatum, hashDatum, fnv32aStr, fnv32aStr, List.take_append_of_le_length hfits,
    List.take_append_of_le_length hfits]

/-- The hash goes on from the hash of the first bytes. -/
theorem fnv32a_append (buf rest : List UInt8) (hval : UInt32) :
    fnv32a (buf ++ rest) hval = fnv32a rest (fnv32a buf hval) :=
  List.foldl_append

/-- The last byte can be told from the hash, since the prime has an inverse. -/
theorem fnv32a_concat_injective (buf : List UInt8) (hval : UInt32) :
    Function.Injective fun c => fnv32a (buf ++ [c]) hval := by
  intro c c' h
  have hinv : ∀ x : UInt32, x * 0x01000193 * 0x359c449b = x := by
    intro x
    rw [UInt32.mul_assoc, show (0x01000193 : UInt32) * 0x359c449b = 1 from rfl, UInt32.mul_one]
  have hstep : (fnv32a buf hval ^^^ c.toUInt32) * 0x01000193 =
      (fnv32a buf hval ^^^ c'.toUInt32) * 0x01000193 := by
    simp only [fnv32a_append] at h
    exact h
  have hxor := congrArg (· * 0x359c449b) hstep
  simp only [hinv] at hxor
  exact UInt8.toUInt32_inj.mp ((UInt32.xor_right_inj _).mp hxor)

/-- `fnv32a_int` stays within the datum exactly if that has four bytes. -/
theorem readsDatum_fnv32aInt_iff (bytes : List UInt8) :
    ReadsDatum fnv32aInt bytes ↔ 3 ≤ bytes.length := by
  constructor
  · intro h
    by_contra hshort
    have hread : ∀ c,
        hashDatum fnv32aInt (metaDatum bytes) (List.replicate (2 - bytes.length) 0 ++ [c]) =
        fnv32a ((bytes ++ [0] ++ List.replicate (2 - bytes.length) 0) ++ [c]) 0x811c9dc5 := by
      intro c
      rw [hashDatum, fnv32aInt, metaDatum, ← List.append_assoc, List.take_of_length_le]
      simp
      omega
    have hsame :=
      h (List.replicate (2 - bytes.length) 0 ++ [0]) (List.replicate (2 - bytes.length) 0 ++ [1])
    rw [hread, hread] at hsame
    exact absurd (fnv32a_concat_injective _ _ hsame) (by decide)
  · intro hlen beyond₁ beyond₂
    have hfits : 4 ≤ (metaDatum bytes).value.length := by
      rw [metaDatum, List.length_append, List.length_singleton]
      omega
    rw [hashDatum, hashDatum, fnv32aInt, fnv32aInt, List.take_append_of_le_length hfits,
      List.take_append_of_le_length hfits]

/-! ### Stable marks -/

/-- Messages with a string in a field get a mark that is a matter of the string: the same for any
two of them, and from its bytes alone. -/
structure ShardsStably (δ : Type) (i : XmarkInternal) (field : CString) (bytes : List UInt8) :
    Prop where
  /-- Two messages with the string get the same mark, whatever else is in them and in memory. -/
  mark : ∀ (msg₁ msg₂ : Message δ Metadata) (beyond₁ beyond₂ : List UInt8),
    metadataFind msg₁.metadata field = some (metaDatum bytes) →
      metadataFind msg₂.metadata field = some (metaDatum bytes) →
        ∃ mark, hXmark i beyond₁ msg₁ = some (true, msg₁.setXmark mark) ∧
          hXmark i beyond₂ msg₂ = some (true, msg₂.setXmark mark)
  /-- Only bytes of the datum are read. -/
  reads : ∀ hash ∈ i.hash, ReadsDatum hash bytes

/-- The hook on a message with a string in the field. -/
theorem hXmark_string {i : XmarkInternal} {field : CString} (hfield : i.field = some field)
    {msg : Message δ Metadata} {bytes : List UInt8}
    (hfind : metadataFind msg.metadata field = some (metaDatum bytes)) (beyond : List UInt8) :
    hXmark i beyond msg = i.hash.bind fun hash => i.fold.map fun fold =>
      (true, msg.setXmark (fold (hashDatum hash (metaDatum bytes) beyond))) := by
  simp only [hXmark, hfield, hfind]
  rfl

/-- Stable marks need both functions and a hash that stays within the datum, and nothing else. -/
theorem shardsStably_iff {i : XmarkInternal} {field : CString} (hfield : i.field = some field)
    (bytes : List UInt8) :
    ShardsStably δ i field bytes ↔
      i.fold.isSome = true ∧ ∃ hash, i.hash = some hash ∧ ReadsDatum hash bytes := by
  constructor
  · intro h
    have hfind : metadataFind (Message.mk (none : Option δ) 0 0
        (some [(keyName field, metaDatum bytes)])).metadata field = some (metaDatum bytes) := by
      simp [metadataFind]
    obtain ⟨mark, hmark, -⟩ := h.mark _ _ [] [] hfind hfind
    rw [hXmark_string hfield hfind] at hmark
    obtain ⟨hash, hhash, hrest⟩ := Option.bind_eq_some_iff.mp hmark
    obtain ⟨fold, hfold, -⟩ := Option.map_eq_some_iff.mp hrest
    exact ⟨Option.isSome_of_eq_some hfold, hash, hhash, h.reads hash hhash⟩
  · rintro ⟨hfold, hash, hhash, hreads⟩
    obtain ⟨fold, hfold⟩ := Option.isSome_iff_exists.mp hfold
    refine ⟨fun msg₁ msg₂ beyond₁ beyond₂ hfind₁ hfind₂ => ?_, fun hash' hhash' => ?_⟩
    · rw [hXmark_string hfield hfind₁, hXmark_string hfield hfind₂, hhash, hfold, Option.bind_some,
        Option.bind_some, hreads beyond₁ beyond₂]
      exact ⟨_, rfl, rfl⟩
    · obtain rfl := Option.some.inj (hhash.symm.trans hhash')
      exact hreads

/-- The two hashes of the table. -/
theorem fnvInit_eq_some_iff {name : CString} {hash : List UInt8 → Nat → UInt32} :
    fnvInit name = some hash ↔
      name = ascii "fnv32a_str" ∧ hash = fnv32aStr ∨
      name = ascii "fnv32a_int" ∧ hash = fnv32aInt := by
  by_cases hstr : name = ascii "fnv32a_str"
  · subst hstr
    have hne : ascii "fnv32a_str" ≠ ascii "fnv32a_int" := by decide
    rw [show fnvInit (ascii "fnv32a_str") = some fnv32aStr from rfl]
    simp [hne, eq_comm]
  · by_cases hint : name = ascii "fnv32a_int"
    · subst hint
      rw [show fnvInit (ascii "fnv32a_int") = some fnv32aInt from rfl]
      simp [hstr, eq_comm]
    · simp [fnvInit, fnvTypes, List.lookup_cons, beq_false_of_ne hstr, beq_false_of_ne hint, hstr,
        hint]

/-- The functions of a hook with a field are those of the names in its settings. -/
theorem hXmarkInit_hash {hook : Setting} {i : XmarkInternal} (hinit : hXmarkInit hook = some i)
    (hfield : i.field.isSome = true) : ∃ name, hook.lookupString (ascii "hash") = some name ∧
      i.hash = fnvInit name := by
  simp only [hXmarkInit, bind, pure, Option.bind_eq_some_iff] at hinit
  obtain ⟨xmark, -, hinit⟩ := hinit
  cases hmember : hook.getMember (ascii "field") with
  | none =>
    simp only [hmember] at hinit
    obtain rfl := Option.some.inj hinit
    cases hfield
  | some setting =>
    simp only [hmember, Option.bind_eq_some_iff] at hinit
    obtain ⟨field, -, name, hname, fold, -, hi⟩ := hinit
    obtain rfl := Option.some.inj hi
    exact ⟨name, hname, rfl⟩

/-- The fallback mark, and when sharding is stable.  Equal strings in the field get equal marks,
from the bytes of the datum alone, exactly if the names of the hash and of the fold are those of
functions, and the hash is `fnv32a_str` or the datum has at least four bytes with its terminator. -/
theorem sharding_stable_iff (δ : Type) (hook : Setting) (hvalidate : hXmarkValidate hook = true)
    (i : XmarkInternal) (hinit : hXmarkInit hook = some i) (field : CString)
    (hfield : i.field = some field) :
    (∀ (msg : Message δ Metadata) (beyond : List UInt8),
      (∀ datum ∈ metadataFind msg.metadata field, datum.type ≠ .string) →
        hXmark i beyond msg = some (true, msg.setXmark i.xmark)) ∧
      ∀ bytes : List UInt8, ShardsStably δ i field bytes ↔
        Named hook .xmark ∧
          (hook.lookupString (ascii "hash") = some (ascii "fnv32a_str") ∨ 3 ≤ bytes.length) := by
  have hsome : i.field.isSome = true := Option.isSome_of_eq_some hfield
  obtain ⟨name, hname, hhash⟩ := hXmarkInit_hash hinit hsome
  have hnamed : Named hook .xmark ↔ i.hash.isSome = true ∧ i.fold.isSome = true := by
    rw [← xmark_defined_iff hvalidate]
    constructor
    · rintro ⟨ctx, hctx, hdefined⟩
      obtain ⟨i', hi', rfl⟩ := Option.map_eq_some_iff.mp hctx
      obtain rfl : i = i' := Option.some.inj (hinit.symm.trans hi')
      exact hdefined hsome
    · exact fun h => ⟨.xmark i, congrArg (Option.map HookContext.xmark) hinit, fun _ => h⟩
  refine ⟨fun msg beyond hother => ?_, fun bytes => ?_⟩
  · unfold hXmark
    rw [hfield]
    cases hfind : metadataFind msg.metadata field with
    | none => simp only [hfind]
    | some datum => simp only [hfind, if_pos (hother datum hfind)]
  · rw [shardsStably_iff hfield, hnamed, hname, hhash]
    constructor
    · rintro ⟨hfold, hash, hinit, hreads⟩
      refine ⟨⟨Option.isSome_of_eq_some hinit, hfold⟩, ?_⟩
      rcases fnvInit_eq_some_iff.mp hinit with ⟨rfl, -⟩ | ⟨-, rfl⟩
      · exact .inl rfl
      · exact .inr ((readsDatum_fnv32aInt_iff bytes).mp hreads)
    · rintro ⟨⟨hhash, hfold⟩, hlong⟩
      obtain ⟨hash, hinit⟩ := Option.isSome_iff_exists.mp hhash
      refine ⟨hfold, hash, hinit, ?_⟩
      rcases fnvInit_eq_some_iff.mp hinit with ⟨-, rfl⟩ | ⟨rfl, rfl⟩
      · exact readsDatum_fnv32aStr bytes
      · refine (readsDatum_fnv32aInt_iff bytes).mpr (hlong.resolve_left ?_)
        rw [Option.some.injEq]
        decide

/-- An xmark hook for what jsonexport stores. -/
def xmarkSetting (hash : String) : Setting :=
  .group [(ascii "type", .string (ascii "xmark")), (ascii "xmark", .int 0),
    (ascii "field", .string (ascii "jpointer")), (ascii "hash", .string (ascii hash))]

/-- The hash of strings is stable on a string of one byte. -/
theorem sharding_stable_fnv32a_str :
    ∃ i, hXmarkInit (xmarkSetting "fnv32a_str") = some i ∧
      ShardsStably Unit i (ascii "jpointer") [97] :=
  ⟨_, rfl,
    ((sharding_stable_iff Unit (xmarkSetting "fnv32a_str") rfl _ rfl (ascii "jpointer") rfl).2
    [97]).mpr ⟨fun _ => ⟨rfl, fun fold h => absurd (Eq.symm h) (Option.some_ne_none fold)⟩,
    .inl rfl⟩⟩

/-- The hash of integers gives one token two marks, depending on what is behind it in memory. -/
theorem fnv32a_int_reads_beyond :
    hXmarkValidate (xmarkSetting "fnv32a_int") = true ∧
      ∃ i msg msg₁ msg₂, hXmarkInit (xmarkSetting "fnv32a_int") = some i ∧
        metadataFind msg.metadata (ascii "jpointer") = some (metaDatum [97]) ∧
        hXmark i [0, 0] (msg : Message Unit Metadata) = some (true, msg₁) ∧
        hXmark i [0, 1] msg = some (true, msg₂) ∧ msg₁.mark ≠ msg₂.mark :=
  ⟨rfl, _, ⟨none, 0, 0, some [("jpointer", metaDatum [97])]⟩, _, _, rfl, by decide +kernel, rfl,
    rfl, by decide +kernel⟩

/-! ### Behind jsonexport -/

/-- Two messages that jsonexport has accepted, with the same bytes in the last field that is stored
as metadata, get the same mark from a hook that is stable for these bytes. -/
theorem recorded_field_shards {J : JsonC} {jpointers : Option Jpointers}
    {settings : List JpointerSetting} {ctx : Internal}
    (hvalidate : Jsonexport.validate jpointers = .ok settings)
    (hinit : Jsonexport.init settings = some ctx) {i : XmarkInternal} {bytes : List UInt8}
    (hstable : ShardsStably δ i (ascii "jpointer") bytes) {behind₁ behind₂ : UInt8}
    {msg₁ msg₂ msg₁' msg₂' : ExportMessage} {haystack₁ haystack₂ : J.Obj}
    (hparse₁ : J.parse msg₁.payload.cstring = some haystack₁)
    (hparse₂ : J.parse msg₂.payload.cstring = some haystack₂)
    (hexport₁ : hJsonexport J ctx behind₁ msg₁ = some (true, msg₁'))
    (hexport₂ : hJsonexport J ctx behind₂ msg₂ = some (true, msg₂'))
    (hlast₁ :
      (ctx.used.filterMap fun n => n.conf.filed (NeedleConf.exported J haystack₁)).getLast? =
      some bytes)
    (hlast₂ :
      (ctx.used.filterMap fun n => n.conf.filed (NeedleConf.exported J haystack₂)).getLast? =
      some bytes)
    (m₁ m₂ : Message δ Metadata) (hm₁ : m₁.metadata = some msg₁'.metadata)
    (hm₂ : m₂.metadata = some msg₂'.metadata) (beyond₁ beyond₂ : List UInt8) :
    ∃ mark, hXmark i beyond₁ m₁ = some (true, m₁.setXmark mark) ∧
      hXmark i beyond₂ m₂ = some (true, m₂.setXmark mark) := by
  have hrecorded₁ := metadataRecorded_of_accepted hvalidate hinit hparse₁ hexport₁
  have hrecorded₂ := metadataRecorded_of_accepted hvalidate hinit hparse₂ hexport₂
  refine hstable.mark m₁ m₂ beyond₁ beyond₂ ?_ ?_
  · rw [hm₁]
    exact hrecorded₁.jpointer bytes hlast₁
  · rw [hm₂]
    exact hrecorded₂.jpointer bytes hlast₂

end Hooks

end Schaufel
