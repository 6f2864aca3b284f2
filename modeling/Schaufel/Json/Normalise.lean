import Schaufel.Json.Tree

/-!
# Normalised pointers

An element of `jpointers` is a string, an array or a group, and leaves parts out.  What it denotes
are five strings: the pointer, the type, the action, the filter and the data of the filter.  The
validators rotate the list and put an array of these five strings in the place of every element;
data that are given to a filter which needs none are dropped.

## Main results

* `normalise_denoted`: the array of an accepted element.
* `jpointers_normalised`: the validators keep the number and the order of the elements, spell each
  of them out, and leave a list alone that is spelled out.
-/

namespace Schaufel

/-! ### What an element denotes -/

/-- The five strings of an element. -/
structure Jpointer where
  jpointer : CString
  pqtype : CString
  action : CString
  filter : CString
  data : CString
  deriving DecidableEq, Repr

namespace Jpointer

/-- Parts that are left out have defaults. -/
def ofParts (jpointer : CString) (pqtype action filter data : Option CString) : Jpointer :=
  ⟨jpointer, pqtype.getD (ascii "text"), action.getD (ascii "store"), filter.getD (ascii "noop"),
    data.getD (ascii "")⟩

/-- The members of the array that spells the five strings out. -/
def members (p : Jpointer) : List (Option CString) :=
  [some p.jpointer, some p.pqtype, some p.action, some p.filter, some p.data]

/-- The array in the tree of settings. -/
def setting (p : Jpointer) : Setting :=
  .array [.string p.jpointer, .string p.pqtype, .string p.action, .string p.filter, .string p.data]

/-- The data of a filter that needs none are dropped. -/
def effective (p : Jpointer) : Jpointer :=
  if (filtertypeEnum p.filter).needsData then p else { p with data := ascii "" }

/-- The names are in the tables. -/
structure Known (actions : List (ActionType × CString)) (p : Jpointer) : Prop where
  pqtype : knownPqtype p.pqtype = true
  action : knownAction actions p.action = true
  filter : knownFilter p.filter = true

end Jpointer

/-- What an element denotes.  A member of a group that is no string counts as left out. -/
def JpointerSetting.denoted : JpointerSetting → Option Jpointer
  | .scalar value => value.map fun jpointer => .ofParts jpointer none none none none
  | .array members => members[0]?.join.map fun jpointer =>
      .ofParts jpointer members[1]?.join members[2]?.join members[3]?.join members[4]?.join
  | .group members => (lookupString members (ascii "jpointer")).map fun jpointer =>
      .ofParts jpointer (lookupString members (ascii "pqtype"))
        (lookupString members (ascii "action"))
        (lookupString members (ascii "filter")) (lookupString members (ascii "data"))
  | .list => none

/-- What an element in the tree of settings denotes. -/
def Setting.denoted (element : Setting) : Option Jpointer := element.jpointer.denoted

/-- Scalars, arrays and groups.  The members of an array are of one type: either all of them are
strings, or none is. -/
def JpointerSetting.IsElement : JpointerSetting → Prop
  | .scalar _ => True
  | .array members => (∀ m ∈ members, m ≠ none) ∨ ∀ m ∈ members, m = none
  | .group _ => True
  | .list => False

/-! ### The array of an element -/

theorem arrayName_of_string {known : CString → Bool} {default : CString}
    (hdefault : known default = true) {member : Option (Option CString)}
    (hmember : member ≠ some none) {name : Option CString}
    (h : arrayName known default member = .ok name) :
    name = some (member.join.getD default) ∧ known (member.join.getD default) = true := by
  rcases member with _ | _ | c
  · obtain rfl := Except.ok.inj h
    exact ⟨rfl, hdefault⟩
  · exact absurd rfl hmember
  · by_cases hc : known c = true
    · obtain rfl : some c = name := by simpa [arrayName, hc] using h
      exact ⟨rfl, hc⟩
    · simp [arrayName, hc] at h

theorem groupName_eq_ok {known : CString → Bool} {default : CString}
    (hdefault : known default = true) {member : Option CString} {name : CString}
    (h : groupName known default member = .ok name) :
    name = member.getD default ∧ known (member.getD default) = true := by
  cases member with
  | none =>
    obtain rfl := Except.ok.inj h
    exact ⟨rfl, hdefault⟩
  | some c =>
    by_cases hc : known c = true
    · obtain rfl : c = name := by simpa [groupName, hc] using h
      exact ⟨rfl, hc⟩
    · simp [groupName, hc] at h

/-- The data of an accepted element, as a part of the five strings. -/
theorem filterString_eq_ok (p : Jpointer) {data : Option CString} {d : CString}
    (hdata : p.data = data.getD (ascii "")) (h : filterString p.filter data = .ok d) :
    [some p.jpointer, some p.pqtype, some p.action, some p.filter, some d] =
      p.effective.members := by
  unfold filterString at h
  unfold Jpointer.effective
  split at h
  · rename_i hneeds
    have hsome : data = some d := required_eq_ok_iff.mp h
    rw [if_pos hneeds, Jpointer.members, hdata, hsome]
    rfl
  · rename_i hneeds
    obtain rfl := Except.ok.inj h
    rw [if_neg hneeds]
    rfl

section Normalise

variable {actions : List (ActionType × CString)}
  (hstore : knownAction actions (ascii "store") = true)
include hstore

theorem normaliseArray_denoted {members new : List (Option CString)}
    (hstrings : (∀ m ∈ members, m ≠ none) ∨ ∀ m ∈ members, m = none)
    (h : normaliseArray actions members = .ok new) :
    ∃ p, JpointerSetting.denoted (.array members) = some p ∧ p.Known actions ∧
      new = p.effective.members := by
  obtain ⟨jpointer, hjpointer, h⟩ := bind_eq_ok_iff.mp h
  have hfirst := required_eq_ok_iff.mp hjpointer
  have hall : ∀ k : Nat, members[k]? ≠ some none := by
    intro k hk
    rcases hstrings with hstrings | hnone
    · exact hstrings none (List.mem_of_getElem? hk) rfl
    · have hmem := List.mem_of_getElem? (Option.join_eq_some_iff.mp hfirst)
      exact Option.some_ne_none jpointer (hnone _ hmem)
  obtain ⟨pqtype, hpqtype, h⟩ := bind_eq_ok_iff.mp h
  obtain ⟨action, haction, h⟩ := bind_eq_ok_iff.mp h
  obtain ⟨filter, hfilter, h⟩ := bind_eq_ok_iff.mp h
  obtain ⟨rfl, hknown₁⟩ := arrayName_of_string knownPqtype_text (hall 1) hpqtype
  obtain ⟨rfl, hknown₂⟩ := arrayName_of_string hstore (hall 2) haction
  obtain ⟨rfl, hknown₃⟩ := arrayName_of_string knownFilter_noop (hall 3) hfilter
  obtain ⟨data, hdata, h⟩ := bind_eq_ok_iff.mp h
  obtain rfl := Except.ok.inj h
  refine ⟨.ofParts jpointer members[1]?.join members[2]?.join members[3]?.join members[4]?.join, ?_,
    ⟨hknown₁, hknown₂, hknown₃⟩, ?_⟩
  · rw [JpointerSetting.denoted, hfirst]
    rfl
  · exact filterString_eq_ok (.ofParts ..) rfl hdata

theorem normaliseGroup_denoted {members : List (CString × Option CString)}
    {new : List (Option CString)} (h : normaliseGroup actions members = .ok new) :
    ∃ p, JpointerSetting.denoted (.group members) = some p ∧ p.Known actions ∧
      new = p.effective.members := by
  obtain ⟨jpointer, hjpointer, h⟩ := bind_eq_ok_iff.mp h
  obtain ⟨pqtype, hpqtype, h⟩ := bind_eq_ok_iff.mp h
  obtain ⟨action, haction, h⟩ := bind_eq_ok_iff.mp h
  obtain ⟨filter, hfilter, h⟩ := bind_eq_ok_iff.mp h
  obtain ⟨rfl, hknown₁⟩ := groupName_eq_ok knownPqtype_text hpqtype
  obtain ⟨rfl, hknown₂⟩ := groupName_eq_ok hstore haction
  obtain ⟨rfl, hknown₃⟩ := groupName_eq_ok knownFilter_noop hfilter
  obtain ⟨data, hdata, h⟩ := bind_eq_ok_iff.mp h
  obtain rfl := Except.ok.inj h
  refine ⟨.ofParts jpointer (lookupString members (ascii "pqtype"))
    (lookupString members (ascii "action"))
    (lookupString members (ascii "filter")) (lookupString members (ascii "data")), ?_,
    ⟨hknown₁, hknown₂, hknown₃⟩, ?_⟩
  · rw [JpointerSetting.denoted, required_eq_ok_iff.mp hjpointer]
    rfl
  · exact filterString_eq_ok (.ofParts ..) rfl hdata

/-- The array of an accepted element spells out what the element denotes, up to data that nobody
needs. -/
theorem normalise_denoted {child : JpointerSetting} {new : List (Option CString)}
    (hchild : child.IsElement) (h : normalise actions child = .ok new) :
    ∃ p, child.denoted = some p ∧ p.Known actions ∧ new = p.effective.members := by
  cases child with
  | scalar value =>
    obtain ⟨jpointer, hjpointer, h⟩ := bind_eq_ok_iff.mp h
    obtain rfl := Except.ok.inj h
    refine ⟨.ofParts jpointer none none none none, ?_, ⟨knownPqtype_text, hstore, knownFilter_noop⟩,
      rfl⟩
    rw [JpointerSetting.denoted, required_eq_ok_iff.mp hjpointer]
    rfl
  | array members => exact normaliseArray_denoted hstore hchild h
  | group members => exact normaliseGroup_denoted hstore h
  | list => exact hchild.elim

end Normalise

/-! ### Validating again -/

namespace Jpointer

variable {actions : List (ActionType × CString)} {p : Jpointer}

theorem effective_effective : p.effective.effective = p.effective := by
  by_cases hneeds : (filtertypeEnum p.filter).needsData = true
  · rw [show p.effective = p from if_pos hneeds]
    exact if_pos hneeds
  · rw [show p.effective = { p with data := ascii "" } from if_neg hneeds]
    exact if_neg hneeds

theorem Known.effective (h : p.Known actions) : p.effective.Known actions := by
  unfold Jpointer.effective
  split
  · exact h
  · exact ⟨h.pqtype, h.action, h.filter⟩

/-- The data of a filter that needs none are empty. -/
theorem filterString_data (h : p.effective = p) :
    filterString p.filter (some p.data) = .ok p.data := by
  unfold filterString
  split
  · rfl
  · rename_i hneeds
    rw [← h, show p.effective = { p with data := ascii "" } from if_neg hneeds]

/-- An array that is spelled out is left alone. -/
theorem Known.normalise_members (hknown : p.Known actions) (h : p.effective = p) :
    normalise actions (.array p.members) = .ok p.members := by
  refine bind_eq_ok_iff.mpr ⟨p.jpointer, rfl,
    bind_eq_ok_iff.mpr ⟨some p.pqtype, if_pos hknown.pqtype, ?_⟩⟩
  refine bind_eq_ok_iff.mpr ⟨some p.action, if_pos hknown.action, ?_⟩
  refine bind_eq_ok_iff.mpr ⟨some p.filter, if_pos hknown.filter, ?_⟩
  exact bind_eq_ok_iff.mpr ⟨p.data, filterString_data h, rfl⟩

end Jpointer

/-! ### The validators -/

/-- What the validators make of the elements of `jpointers`. -/
structure SpelledOut (actions : List (ActionType × CString)) (elements elements' : List Setting) :
    Prop where
  /-- One array for each element, in order, with the five strings that the element denotes. -/
  denoted : ∃ ps : List Jpointer, elements.map Setting.denoted = ps.map some ∧
    elements' = ps.map fun p => p.effective.setting
  /-- Elements that denote the same five strings become the same array. -/
  forms : ∀ i j : ℕ, elements[i]?.map Setting.denoted = elements[j]?.map Setting.denoted →
    elements'[i]? = elements'[j]?
  /-- The names are in the tables. -/
  known : ∀ element' ∈ elements', ∃ p : Jpointer, element' = p.setting ∧ p.Known actions

theorem spelledOut_of_pointers {actions : List (ActionType × CString)} {elements : List Setting}
    {ps : List Jpointer} (hdenoted : elements.map Setting.denoted = ps.map some)
    (hknown : ∀ p ∈ ps, p.Known actions) :
    SpelledOut actions elements (ps.map fun p => p.effective.setting) := by
  have hget : ∀ i : ℕ, elements[i]?.map Setting.denoted = ps[i]?.map some := by
    intro i
    rw [← List.getElem?_map, ← List.getElem?_map, hdenoted]
  refine ⟨⟨ps, hdenoted, rfl⟩, fun i j hij => ?_, fun element' hmem => ?_⟩
  · rw [hget, hget] at hij
    rw [List.getElem?_map, List.getElem?_map, Option.map_injective (Option.some_injective _) hij]
  · obtain ⟨p, hp, rfl⟩ := List.mem_map.mp hmem
    exact ⟨p.effective, rfl, (hknown p hp).effective⟩

section Validate

variable {actions : List (ActionType × CString)}

/-- The arrays that the loop puts in the places of the elements. -/
theorem exists_pointers_of_validateJpointers (hstore : knownAction actions (ascii "store") = true)
    {children settings : List JpointerSetting} (hchildren : ∀ child ∈ children, child.IsElement)
    (h : validateJpointers actions (some (.list children)) = .ok settings) :
    ∃ ps : List Jpointer, children.map JpointerSetting.denoted = ps.map some ∧
      (∀ p ∈ ps, p.Known actions) ∧ settings = ps.map fun p => .array p.effective.members := by
  obtain ⟨news, hnews, rfl⟩ := validateJpointers_eq_ok_iff.mp h
  clear h
  induction hnews with
  | nil => exact ⟨[], rfl, List.forall_mem_nil _, rfl⟩
  | cons hnew _ ih =>
    rw [List.forall_mem_cons] at hchildren
    obtain ⟨p, hp, hknown, rfl⟩ := normalise_denoted hstore hchildren.1 hnew
    obtain ⟨ps, hps, hknowns, hnews⟩ := ih hchildren.2
    refine ⟨p :: ps, ?_, List.forall_mem_cons.mpr ⟨hknown, hknowns⟩, ?_⟩
    · rw [List.map_cons, List.map_cons, hp, hps]
    · rw [List.map_cons, List.map_cons, hnews]

/-- A list that is spelled out is left alone. -/
theorem validateJpointers_pointers {ps : List Jpointer} (hknown : ∀ p ∈ ps, p.Known actions) :
    validateJpointers actions (some (.list (ps.map fun p => .array p.effective.members))) =
      .ok (ps.map fun p => .array p.effective.members) := by
  refine validateJpointers_eq_ok_iff.mpr ⟨ps.map fun p => p.effective.members, ?_, ?_⟩
  · rw [List.forall₂_map_left_iff, List.forall₂_map_right_iff, List.forall₂_same]
    exact fun p hp => (hknown p hp).effective.normalise_members Jpointer.effective_effective
  · rw [List.map_map]
    rfl

/-- The part of the validators that is common to both, in the tree. -/
theorem spelledOut_of_validateJpointers (hstore : knownAction actions (ascii "store") = true)
    {config : Setting} {elements : List Setting}
    (hlist : config.getMember (ascii "jpointers") = some (.list elements))
    (helements : ∀ element ∈ elements, element.jpointer.IsElement) {settings : List JpointerSetting}
    (h : validateJpointers actions (jpointersOf config) = .ok settings) :
    (∃ elements', (setJpointers config settings).getMember (ascii "jpointers") =
      some (.list elements') ∧
        SpelledOut actions elements elements') ∧
      validateJpointers actions (jpointersOf (setJpointers config settings)) = .ok settings ∧
      setJpointers (setJpointers config settings) settings = setJpointers config settings := by
  have hpointers : jpointersOf config = some (.list (elements.map Setting.jpointer)) := by
    rw [jpointersOf, hlist]
  rw [hpointers] at h
  obtain ⟨ps, hdenoted, hknown, rfl⟩ := exists_pointers_of_validateJpointers hstore
    (List.forall_mem_map.mpr helements) h
  rw [List.map_map] at hdenoted
  have hmember : (setJpointers config (ps.map fun p => .array p.effective.members)).getMember
      (ascii "jpointers") = some (.list (ps.map fun p => p.effective.setting)) := by
    rw [setJpointers, Setting.getMember_set_self (by rw [hlist]; rfl), List.map_map]
    rfl
  refine ⟨⟨_, hmember, spelledOut_of_pointers hdenoted hknown⟩, ?_, Setting.set_set _⟩
  rw [jpointersOf, hmember]
  dsimp only
  rw [List.map_map]
  exact validateJpointers_pointers hknown

end Validate

/-- A list of pointers that a validator accepts keeps its length and its order, every element
becomes the array of the five strings that it denotes, without data that the filter does not need,
the names are in the tables, and the result is accepted as it is. -/
theorem jpointers_normalised (config config' : Setting) (elements : List Setting)
    (hlist : config.getMember (ascii "jpointers") = some (.list elements))
    (helements : ∀ element ∈ elements, element.jpointer.IsElement) :
    (hJsonexportValidate config = .ok config' →
      (∃ elements', config'.getMember (ascii "jpointers") = some (.list elements') ∧
        SpelledOut Jsonexport.actionTypes elements elements') ∧
        hJsonexportValidate config' = .ok config') ∧
    (exporterValidate config = .ok config' →
      (∃ elements', config'.getMember (ascii "jpointers") = some (.list elements') ∧
        SpelledOut Exports.actionTypes elements elements') ∧
        exporterValidate config' = .ok config') := by
  refine ⟨fun h => ?_, fun h => ?_⟩
  · obtain ⟨settings, hsettings, rfl⟩ := map_eq_ok_iff.mp h
    obtain ⟨hspelled, hagain, hsame⟩ :=
      spelledOut_of_validateJpointers Jsonexport.knownAction_store hlist helements hsettings
    exact ⟨hspelled, map_eq_ok_iff.mpr ⟨settings, hagain, hsame⟩⟩
  · obtain ⟨settings, hsettings, rfl⟩ := map_eq_ok_iff.mp h
    obtain ⟨host, hhost, hrest⟩ := bind_eq_ok_iff.mp hsettings
    obtain ⟨topic, htopic, hjpointers⟩ := bind_eq_ok_iff.mp hrest
    obtain ⟨hspelled, hagain, hsame⟩ :=
      spelledOut_of_validateJpointers Exports.knownAction_store hlist helements hjpointers
    refine ⟨hspelled, map_eq_ok_iff.mpr ⟨settings, ?_, hsame⟩⟩
    refine bind_eq_ok_iff.mpr ⟨host, ?_, bind_eq_ok_iff.mpr ⟨topic, ?_, hagain⟩⟩
    · rw [Setting.lookupString, setJpointers, Setting.getMember_set_of_ne (by decide)]
      exact hhost
    · rw [Setting.lookupString, setJpointers, Setting.getMember_set_of_ne (by decide)]
      exact htopic

/-- A hook with some pointers. -/
def withJpointers (elements : List Setting) : Setting :=
  .group [(ascii "jpointers", .list elements)]

/-- One pointer in its three forms. -/
def threeForms : List Setting :=
  [.string (ascii "/a"), .array [.string (ascii "/a"), .string (ascii "text")],
    .group [(ascii "jpointer", .string (ascii "/a")), (ascii "filter", .string (ascii "noop"))]]

theorem three_forms_normalised :
    ∃ config', hJsonexportValidate (withJpointers threeForms) = .ok config' ∧
      (∃ elements', config'.getMember (ascii "jpointers") = some (.list elements') ∧
        SpelledOut Jsonexport.actionTypes threeForms elements') ∧
      hJsonexportValidate config' = .ok config' := by
  have helements : ∀ element ∈ threeForms, element.jpointer.IsElement := by
    simp [threeForms, Setting.jpointer, JpointerSetting.IsElement, Setting.getString]
  exact ⟨_, rfl, (jpointers_normalised (withJpointers threeForms) _ threeForms rfl helements).1 rfl⟩

/-- An array with data for the filter `noop`. -/
def noopWithData : Jpointer := ⟨ascii "/a", ascii "text", ascii "store", ascii "noop", ascii "x"⟩

/-- Five strings that are spelled out already are not kept: the data are dropped. -/
theorem needless_data_dropped :
    noopWithData.setting.denoted = some noopWithData ∧
      hJsonexportValidate (withJpointers [noopWithData.setting]) =
        .ok (withJpointers [Jpointer.setting { noopWithData with data := ascii "" }]) ∧
      { noopWithData with data := ascii "" } ≠ noopWithData :=
  ⟨rfl, rfl, by decide⟩

end Schaufel
