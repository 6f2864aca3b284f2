import Schaufel.Json.Config

/-!
# JSON null

A pointer that does not resolve becomes a NULL field.  A pointer that resolves to a JSON null is
found, though there is no object: the filters look at the object before they take its string, the
formats do not.  So `_deref` survives a document exactly if every needle that points to a JSON null
turns the message away, or is behind one that does.
-/

namespace Schaufel

section Null

variable (J : JsonC) (timestamp : CString → Option (List UInt8)) (haystack : J.Obj)

/-- `_deref` comes back, and if it returns 0, a needle that points to a JSON null holds a NULL
field. -/
def NullExported (ns : List Needle) : Prop :=
  ∃ ret ns', deref J timestamp haystack ns = some (ret, ns') ∧
    (ret = 0 → ∀ (k : Nat) (n n' : Needle), ns[k]? = some n → ns'[k]? = some n' →
      n.conf.found J haystack = some none → n'.result = none ∧ n'.length = 0xFFFFFFFF)

variable {J timestamp haystack}

/-- A JSON null has no field. -/
theorem NeedleConf.field_of_null {conf : NeedleConf} (h : conf.found J haystack = some none) :
    conf.field J timestamp haystack = none := by
  rw [NeedleConf.field, h]
  rfl

/-- Defined needles export JSON nulls as NULL exactly if `_deref` reaches none. -/
theorem nullExported_iff {ns : List Needle} (hns : ∀ n ∈ ns, n.conf.Defined) :
    NullExported J timestamp haystack ns ↔ ¬ ReachesNull J timestamp haystack ns := by
  rw [← deref_eq_none_iff hns, NullExported]
  constructor
  · rintro ⟨ret, ns', hderef, -⟩
    rw [hderef]
    exact Option.some_ne_none _
  · intro hne
    obtain ⟨⟨ret, ns'⟩, hderef⟩ := Option.ne_none_iff_exists'.mp hne
    refine ⟨ret, ns', hderef, ?_⟩
    rintro rfl k n n' hn - hnull
    -- a loop that ran to its end has met no null
    have hsome := ((deref_eq_zero_iff.mp hderef).1 n (List.mem_of_getElem? hn)).2
    rw [NeedleConf.field_of_null hnull] at hsome
    cases hsome

end Null

/-! ### Both copies of `_deref` -/

/-- A `json-c` for one document, `{"a":null}`: the member `a` is a JSON null, and there is no
other. -/
def JsonC.nullMember : JsonC where
  Obj := Unit
  parse s := if s = ascii "\x7b\"a\":null\x7d" then some () else none
  pointerGet _ pointer :=
    if pointer = [] then some (some ()) else if pointer = ascii "/a" then some none else none
  getString _ := ascii "\x7b \"a\": null \x7d"
  length_getString _ := by decide

/-- The needle list of the pointer `/a`. -/
def memberPointer : Option Jpointers := some (.list [.scalar (some (ascii "/a"))])

/-- A needle that points to the JSON null of `{"a":null}` takes the string of a null pointer, in the
hook and in the producer. -/
theorem null_member_crashes :
    (∃ settings i, Jsonexport.validate memberPointer = .ok settings ∧
      Jsonexport.init settings = some i ∧
      ∃ haystack, JsonC.nullMember.parse (ascii "\x7b\"a\":null\x7d") = some haystack ∧
        deref JsonC.nullMember Jsonexport.jsonToPqtimestamp haystack i.used = none) ∧
      ∃ settings i, Exports.validate (some (ascii "h")) (some (ascii "t")) memberPointer =
        .ok settings ∧
        Exports.init settings = some i ∧
        ∃ haystack, JsonC.nullMember.parse (ascii "\x7b\"a\":null\x7d") = some haystack ∧
          deref JsonC.nullMember Exports.jsonToPqtimestamp haystack i.used = none :=
  ⟨⟨_, _, rfl, rfl, (), rfl, by decide +kernel⟩,
    ⟨_, _, rfl, rfl, (), rfl, by decide +kernel⟩⟩

/-- With the needles of any accepted configuration, `_deref` comes back and exports JSON nulls as
NULL exactly if it comes to no needle that points to a JSON null and lets it through; in both
copies. -/
theorem json_null_exported_iff (J : JsonC) (haystack : J.Obj) (jpointers : Option Jpointers)
    (settings : List JpointerSetting) (i : Internal) :
    (Jsonexport.validate jpointers = .ok settings → Jsonexport.init settings = some i →
      (NullExported J Jsonexport.jsonToPqtimestamp haystack i.used ↔
        ¬ ReachesNull J Jsonexport.jsonToPqtimestamp haystack i.used)) ∧
      ∀ host topic, Exports.validate host topic jpointers = .ok settings →
        Exports.init settings = some i →
        (NullExported J Exports.jsonToPqtimestamp haystack i.used ↔
          ¬ ReachesNull J Exports.jsonToPqtimestamp haystack i.used) := by
  refine ⟨fun hvalidate hinit => ?_, fun host topic hvalidate hinit => ?_⟩
  · exact nullExported_iff
      (defined_of_validateJpointers Jsonexport.knownAction_store hvalidate hinit)
  · obtain ⟨_, -, htopic⟩ := bind_eq_ok_iff.mp hvalidate
    obtain ⟨_, -, hjpointers⟩ := bind_eq_ok_iff.mp htopic
    exact nullExported_iff (defined_of_validateJpointers Exports.knownAction_store hjpointers hinit)

/-- The needle that is configured to discard what has no member `a` with a value. -/
def discardingPointer : Option Jpointers :=
  some (.list [.array [some (ascii "/a"), some (ascii "text"), some (ascii "discard_false"),
    some (ascii "match"), some (ascii "1")]])

/-- A filter that finds nothing to match turns the message away before the null is formatted. -/
theorem json_null_exported_discarded :
    ∃ settings i, Jsonexport.validate discardingPointer = .ok settings ∧
      Jsonexport.init settings = some i ∧
      Exports.validate (some (ascii "h")) (some (ascii "t")) discardingPointer = .ok settings ∧
      Exports.init settings = some i ∧
      (NullExported JsonC.nullMember Jsonexport.jsonToPqtimestamp () i.used ↔
        ¬ ReachesNull JsonC.nullMember Jsonexport.jsonToPqtimestamp () i.used) ∧
      (NullExported JsonC.nullMember Exports.jsonToPqtimestamp () i.used ↔
        ¬ ReachesNull JsonC.nullMember Exports.jsonToPqtimestamp () i.used) :=
  ⟨_, _, rfl, rfl, rfl, rfl,
    (json_null_exported_iff JsonC.nullMember () discardingPointer _ _).1 rfl rfl,
    (json_null_exported_iff JsonC.nullMember () discardingPointer _ _).2 (some (ascii "h"))
      (some (ascii "t")) rfl rfl⟩

end Schaufel
