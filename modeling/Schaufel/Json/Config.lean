import Mathlib.Data.List.Forall2
import Schaufel.Config.Verdict
import Schaufel.Json.Needles

/-!
# The configuration of needles

The validators bring every element of the `jpointers` list into the form of an array of five
strings, and `_needles` builds the needles from these arrays.  Both exist in
`src/hooks/jsonexport.c` and in `src/exports.c`, and differ in the table of actions only, which is a
parameter here.

`config_setting_get_string` returns a null pointer for anything that is not a string; it is `none`
here.  Taking the string of a null pointer, or looking it up in a table, does not come back.
-/

namespace Schaufel

/-! ### The tables of names -/

/-- The names of `pq_types`. -/
def pqTypes : List (PqType × CString) := [(.text, ascii "text"), (.timestamp, ascii "timestamp")]

/-- The names of `filter_types`. -/
def filterTypes : List (FilterType × CString) :=
  [(.noop, ascii "noop"), (.matchData, ascii "match"), (.substr, ascii "substr"),
    (.existsKey, ascii "exists")]

/-- The names of `action_types` in the hook. -/
def Jsonexport.actionTypes : List (ActionType × CString) :=
  [(.store, ascii "store"), (.storeTrue, ascii "store_true"),
    (.discardFalse, ascii "discard_false"), (.discardTrue, ascii "discard_true"),
    (.storeMeta, ascii "store_meta")]

/-- The names of `action_types` in the exports producer. -/
def Exports.actionTypes : List (ActionType × CString) :=
  [(.store, ascii "store"), (.storeTrue, ascii "store_true"),
    (.discardFalse, ascii "discard_false"), (.discardTrue, ascii "discard_true")]

/-- The first row of a table with a name. -/
def lookupName {α : Type} (table : List (α × CString)) (name : CString) : Option α :=
  (table.find? fun row => row.2 = name).map Prod.fst

/-- `_pqtype_enum`. -/
def pqtypeEnum (name : CString) : PqType := (lookupName pqTypes name).getD .undefined

/-- `_filtertype_enum`. -/
def filtertypeEnum (name : CString) : FilterType := (lookupName filterTypes name).getD .undefined

/-- `_actiontype_enum`. -/
def actiontypeEnum (actions : List (ActionType × CString)) (name : CString) : ActionType :=
  (lookupName actions name).getD .undefined

/-! ### The validators -/

/-- An element of the `jpointers` list. -/
inductive JpointerSetting
  | scalar (value : Option CString)
  | array (members : List (Option CString))
  | group (members : List (CString × Option CString))
  /-- A list within the list. -/
  | list
  deriving DecidableEq, Repr

/-- `config_setting_lookup_string` in a group. -/
def lookupString (members : List (CString × Option CString)) (name : CString) : Option CString :=
  (members.find? fun m => m.1 = name).bind Prod.snd

/-- A name in an array: the default if the array is too short, refused if it is not in the table.  A
member that is no string takes the place of the default. -/
def arrayName (known : CString → Bool) (default : CString) (member : Option (Option CString)) :
    Except Fault (Option CString) :=
  match member with
  | none => .ok (some default)
  | some none => .ok none
  | some (some name) => if known name then .ok (some name) else .error .refused

/-- A name in a group: the default if there is none, refused if it is not in the table. -/
def groupName (known : CString → Bool) (default : CString) (member : Option CString) :
    Except Fault CString :=
  match member with
  | none => .ok default
  | some name => if known name then .ok name else .error .refused

/-- The string a filter is configured with, if it needs one. -/
def filterString (filter : CString) (data : Option CString) : Except Fault CString :=
  if (filtertypeEnum filter).needsData then required data else .ok (ascii "")

section Validate

variable (actions : List (ActionType × CString))

def knownPqtype (name : CString) : Bool := pqtypeEnum name ≠ .undefined

def knownFilter (name : CString) : Bool := filtertypeEnum name ≠ .undefined

def knownAction (name : CString) : Bool := actiontypeEnum actions name ≠ .undefined

/-- The five strings of an array. -/
def normaliseArray (members : List (Option CString)) : Except Fault (List (Option CString)) := do
  let jpointer ← required members[0]?.join
  let pqtype ← arrayName knownPqtype (ascii "text") members[1]?
  let action ← arrayName (knownAction actions) (ascii "store") members[2]?
  let filter ← arrayName knownFilter (ascii "noop") members[3]?
  match filter with
  | none => .error .crash
  | some name =>
    let data ← filterString name members[4]?.join
    return [some jpointer, pqtype, action, some name, some data]

/-- The five strings of a group. -/
def normaliseGroup (members : List (CString × Option CString)) :
    Except Fault (List (Option CString)) := do
  let jpointer ← required (lookupString members (ascii "jpointer"))
  let pqtype ← groupName knownPqtype (ascii "text") (lookupString members (ascii "pqtype"))
  let action ← groupName (knownAction actions) (ascii "store")
      (lookupString members (ascii "action"))
  let filter ← groupName knownFilter (ascii "noop") (lookupString members (ascii "filter"))
  let data ← filterString filter (lookupString members (ascii "data"))
  return [some jpointer, some pqtype, some action, some filter, some data]

/-- The five strings of an element.  The validator complains about a list and goes on without a
pointer. -/
def normalise : JpointerSetting → Except Fault (List (Option CString))
  | .scalar value => do
    let jpointer ← required value
    return [some jpointer, some (ascii "text"), some (ascii "store"), some (ascii "noop"),
      some (ascii "")]
  | .array members => normaliseArray actions members
  | .group members => normaliseGroup actions members
  | .list =>
    .ok [none, some (ascii "text"), some (ascii "store"), some (ascii "noop"), some (ascii "")]

/-- The loop of the validators: the first element is taken off the list and its array is put at the
end. -/
def validateLoop : Nat → List JpointerSetting → Except Fault (List JpointerSetting)
  | 0, settings => .ok settings
  | _ + 1, [] => .error .refused
  | n + 1, child :: rest => do
    let new ← normalise actions child
    validateLoop n (rest ++ [.array new])

/-- The member `jpointers` of a configuration. -/
inductive Jpointers
  | list (settings : List JpointerSetting)
  | other
  deriving DecidableEq, Repr

/-- The part of the validators that is common to both. -/
def validateJpointers (jpointers : Option Jpointers) : Except Fault (List JpointerSetting) :=
  match jpointers with
  | some (.list settings) => validateLoop actions settings.length settings
  | some .other => .error .refused
  | none => .error .refused

/-! ### `_needles` -/

/-- `filter_data`: the fifth member, if the filter needs it, and a null pointer otherwise. -/
def filterMember (filter : FilterType) (member : Option (Option CString)) :
    Option (Option CString) :=
  if filter.needsData then member else some none

/-- One round of the loop of `_needles`. -/
def needleConf : JpointerSetting → Option NeedleConf
  | .array members => do
    let jpointer ← members[0]?.join
    let pqtype ← members[1]?.join
    let action ← members[2]?.join
    let filter ← members[3]?.join
    let filterData ← filterMember (filtertypeEnum filter) members[4]?
    return ⟨jpointer, pqtypeEnum pqtype, actiontypeEnum actions action, filtertypeEnum filter,
      filterData⟩
  | _ => none

/-- The `Internal` of a hook or of a producer; `fields` is called `rows` in the producer. -/
structure Internal where
  needles : List Needle
  ncount : UInt16
  fields : UInt16
  deriving DecidableEq, Repr

/-- The `Internal` of some needles. -/
def Internal.ofConfs (confs : List NeedleConf) : Internal where
  needles := confs.map NeedleConf.fresh
  ncount := .ofNat confs.length
  fields := .ofNat (confs.countP fun conf => conf.action.store?)

/-- The needles over which the loops go: `ncount` has 16 bits. -/
def Internal.used (i : Internal) : List Needle := i.needles.take i.ncount.toNat

/-- The needles of a configuration and their `Internal`. -/
def buildNeedles (settings : List JpointerSetting) : Option Internal :=
  (settings.mapM (needleConf actions)).map Internal.ofConfs

end Validate

/-- `h_jsonexport_validate`. -/
def Jsonexport.validate (jpointers : Option Jpointers) : Except Fault (List JpointerSetting) :=
  validateJpointers Jsonexport.actionTypes jpointers

/-- `exporter_validate`. -/
def Exports.validate (host topic : Option CString) (jpointers : Option Jpointers) :
    Except Fault (List JpointerSetting) := do
  let _ ← required host
  let _ ← required topic
  validateJpointers Exports.actionTypes jpointers

/-- `h_jsonexport_init`. -/
def Jsonexport.init (settings : List JpointerSetting) : Option Internal :=
  buildNeedles Jsonexport.actionTypes settings

/-- `exports_meta_init`, as far as needles go. -/
def Exports.init (settings : List JpointerSetting) : Option Internal :=
  buildNeedles Exports.actionTypes settings

/-! ### The validators agree -/

/-- `mapM` succeeds exactly if the function does everywhere. -/
theorem mapM_eq_some_iff {α β : Type} {f : α → Option β} {xs : List α} {ys : List β} :
    xs.mapM f = some ys ↔ List.Forall₂ (fun x y => f x = some y) xs ys := by
  induction xs generalizing ys with
  | nil => simp [eq_comm]
  | cons x xs ih =>
    rw [List.mapM_cons, List.forall₂_cons_left_iff]
    simp only [bind, pure, Option.bind_eq_some_iff, Option.some.injEq, ih]
    constructor
    · rintro ⟨y, hy, ys', hys, rfl⟩
      exact ⟨y, ys', hy, hys, rfl⟩
    · rintro ⟨y, ys', hy, hys, rfl⟩
      exact ⟨y, hy, ys', hys, rfl⟩

/-- `mapM` succeeds if every step does. -/
theorem mapM_isSome {α β : Type} {f : α → Option β} {xs : List α}
    (h : ∀ x ∈ xs, ∃ y, f x = some y) : ∃ ys, xs.mapM f = some ys := by
  induction xs with
  | nil => exact ⟨[], rfl⟩
  | cons x xs ih =>
    rw [List.forall_mem_cons] at h
    obtain ⟨y, hy⟩ := h.1
    obtain ⟨ys, hys⟩ := ih h.2
    exact ⟨y :: ys, by simp [List.mapM_cons, hy, hys]⟩

/-- What follows of the right member of every pair holds of the right list. -/
theorem forall_mem_of_forall₂ {α β : Type} {R : α → β → Prop} {P : β → Prop} {xs : List α}
    {ys : List β} (hP : ∀ x y, R x y → P y) (h : List.Forall₂ R xs ys) : ∀ y ∈ ys, P y := by
  induction h with
  | nil => exact List.forall_mem_nil _
  | cons hxy _ ih => exact List.forall_mem_cons.mpr ⟨hP _ _ hxy, ih⟩

/-- Related lists have a property everywhere together. -/
theorem forall_mem_iff_of_forall₂ {α β : Type} {R : α → β → Prop} {P : α → Prop} {Q : β → Prop}
    {xs : List α} {ys : List β} (hPQ : ∀ x y, R x y → (P x ↔ Q y)) (h : List.Forall₂ R xs ys) :
    (∀ x ∈ xs, P x) ↔ ∀ y ∈ ys, Q y := by
  induction h with
  | nil => simp
  | cons hxy _ ih => rw [List.forall_mem_cons, List.forall_mem_cons, hPQ _ _ hxy, ih]

/-- `mapM` succeeds with values of a property exactly if the function does everywhere. -/
theorem exists_mapM_iff {α β : Type} {f : α → Option β} {P : β → Prop} {xs : List α} :
    (∃ ys, xs.mapM f = some ys ∧ ∀ y ∈ ys, P y) ↔ ∀ x ∈ xs, ∃ y, f x = some y ∧ P y := by
  induction xs with
  | nil => simp
  | cons x xs ih =>
    rw [List.forall_mem_cons, ← ih]
    simp only [mapM_eq_some_iff, List.forall₂_cons_left_iff]
    constructor
    · rintro ⟨_, ⟨y, ys, hy, hys, rfl⟩, hP⟩
      rw [List.forall_mem_cons] at hP
      exact ⟨⟨y, hy, hP.1⟩, ys, hys, hP.2⟩
    · rintro ⟨⟨y, hy, hPy⟩, ys, hys, hPys⟩
      exact ⟨y :: ys, ⟨y, ys, hy, hys, rfl⟩, List.forall_mem_cons.mpr ⟨hPy, hPys⟩⟩

/-- The table of the hook starts with the table of the producer. -/
theorem Jsonexport.actionTypes_eq :
    Jsonexport.actionTypes = Exports.actionTypes ++ [(.storeMeta, ascii "store_meta")] := rfl

/-- A name of the producer's table means the same to the hook. -/
theorem Exports.actiontypeEnum_eq {name : CString}
    (h : knownAction Exports.actionTypes name = true) :
    actiontypeEnum Jsonexport.actionTypes name = actiontypeEnum Exports.actionTypes name := by
  unfold knownAction actiontypeEnum lookupName at h
  unfold actiontypeEnum lookupName
  rw [Jsonexport.actionTypes_eq, List.find?_append]
  cases hfind : Exports.actionTypes.find? fun row => row.2 = name with
  | none => simp [hfind] at h
  | some row => rfl

theorem Exports.knownAction_imp {name : CString} (h : knownAction Exports.actionTypes name = true) :
    knownAction Jsonexport.actionTypes name = true := by
  unfold knownAction at h ⊢
  rw [Exports.actiontypeEnum_eq h]
  exact h

/-- The producer has no action that stores metadata. -/
theorem Exports.actiontypeEnum_ne_storeMeta (name : CString) :
    actiontypeEnum Exports.actionTypes name ≠ .storeMeta := by
  have htable : ∀ row ∈ Exports.actionTypes, row.1 ≠ .storeMeta := by decide
  unfold actiontypeEnum lookupName
  cases hfind : Exports.actionTypes.find? fun row => row.2 = name with
  | none => simp
  | some row => exact htable row (List.mem_of_find?_eq_some hfind)

/-- Names in the larger table are accepted as well. -/
theorem arrayName_imp {known known' : CString → Bool} {default : CString}
    {member : Option (Option CString)} {name : Option CString}
    (himp : ∀ c, known c = true → known' c = true) (h : arrayName known default member = .ok name) :
    arrayName known' default member = .ok name := by
  rcases member with _ | _ | c
  · exact h
  · exact h
  · unfold arrayName at h ⊢
    by_cases hc : known c = true
    · simpa [hc, himp c hc] using h
    · simp [hc] at h

theorem groupName_imp {known known' : CString → Bool} {default : CString} {member : Option CString}
    {name : CString} (himp : ∀ c, known c = true → known' c = true)
    (h : groupName known default member = .ok name) :
    groupName known' default member = .ok name := by
  cases member with
  | none => exact h
  | some c =>
    unfold groupName at h ⊢
    by_cases hc : known c = true
    · simpa [hc, himp c hc] using h
    · simp [hc] at h

theorem arrayName_known {known : CString → Bool} {default : CString}
    {member : Option (Option CString)} {name : Option CString} (hdefault : known default = true)
    (h : arrayName known default member = .ok name) : ∀ c ∈ name, known c = true := by
  rcases member with _ | _ | c
  · obtain rfl := Except.ok.inj h
    simpa using hdefault
  · obtain rfl := Except.ok.inj h
    simp
  · unfold arrayName at h
    by_cases hc : known c = true
    · simp only [hc, if_true] at h
      obtain rfl := Except.ok.inj h
      simpa using hc
    · simp [hc] at h

theorem groupName_known {known : CString → Bool} {default : CString} {member : Option CString}
    {name : CString} (hdefault : known default = true)
    (h : groupName known default member = .ok name) : known name = true := by
  cases member with
  | none =>
    obtain rfl := Except.ok.inj h
    exact hdefault
  | some c =>
    unfold groupName at h
    by_cases hc : known c = true
    · simp only [hc, if_true] at h
      obtain rfl := Except.ok.inj h
      exact hc
    · simp [hc] at h

theorem knownPqtype_text : knownPqtype (ascii "text") = true := by decide

theorem knownFilter_noop : knownFilter (ascii "noop") = true := by decide

theorem Jsonexport.knownAction_store :
    knownAction Jsonexport.actionTypes (ascii "store") = true := by
  decide

theorem Exports.knownAction_store : knownAction Exports.actionTypes (ascii "store") = true := by
  decide

/-- Five members: names of a type and of an action, unless they are no strings, the name of a
filter, and a string. -/
def Normalised (actions : List (ActionType × CString)) (new : List (Option CString)) : Prop :=
  ∃ jpointer pqtype action filter data, new = [jpointer, pqtype, action, some filter, some data] ∧
    (∀ name ∈ pqtype, knownPqtype name = true) ∧
    (∀ name ∈ action, knownAction actions name = true) ∧
    knownFilter filter = true

section Normalise

variable {actions : List (ActionType × CString)}
  (hstore : knownAction actions (ascii "store") = true)
include hstore

theorem normaliseArray_normalised {members new : List (Option CString)}
    (h : normaliseArray actions members = .ok new) : Normalised actions new := by
  unfold normaliseArray at h
  obtain ⟨jpointer, -, h⟩ := bind_eq_ok_iff.mp h
  obtain ⟨pqtype, hpqtype, h⟩ := bind_eq_ok_iff.mp h
  obtain ⟨action, haction, h⟩ := bind_eq_ok_iff.mp h
  obtain ⟨filter, hfilter, h⟩ := bind_eq_ok_iff.mp h
  cases filter with
  | none => cases h
  | some name =>
    obtain ⟨data, -, h⟩ := bind_eq_ok_iff.mp h
    obtain rfl := Except.ok.inj h
    exact ⟨_, pqtype, action, name, data, rfl, arrayName_known knownPqtype_text hpqtype,
      arrayName_known hstore haction, arrayName_known knownFilter_noop hfilter name rfl⟩

theorem normaliseGroup_normalised {members : List (CString × Option CString)}
    {new : List (Option CString)} (h : normaliseGroup actions members = .ok new) :
    Normalised actions new := by
  unfold normaliseGroup at h
  obtain ⟨jpointer, -, h⟩ := bind_eq_ok_iff.mp h
  obtain ⟨pqtype, hpqtype, h⟩ := bind_eq_ok_iff.mp h
  obtain ⟨action, haction, h⟩ := bind_eq_ok_iff.mp h
  obtain ⟨filter, hfilter, h⟩ := bind_eq_ok_iff.mp h
  obtain ⟨data, -, h⟩ := bind_eq_ok_iff.mp h
  obtain rfl := Except.ok.inj h
  refine ⟨_, some pqtype, some action, filter, data, rfl, ?_, ?_,
    groupName_known knownFilter_noop hfilter⟩
  · simpa using groupName_known knownPqtype_text hpqtype
  · simpa using groupName_known hstore haction

/-- The array of an element that has only a pointer, or not even that. -/
theorem normalised_default (jpointer : Option CString) :
    Normalised actions [jpointer, some (ascii "text"), some (ascii "store"), some (ascii "noop"),
      some (ascii "")] :=
  ⟨jpointer, some (ascii "text"), some (ascii "store"), ascii "noop", ascii "", rfl,
    by simpa using knownPqtype_text, by simpa using hstore, knownFilter_noop⟩

/-- What the validators put in the place of an element. -/
theorem normalise_normalised {child : JpointerSetting} {new : List (Option CString)}
    (h : normalise actions child = .ok new) : Normalised actions new := by
  cases child with
  | scalar value =>
    obtain ⟨jpointer, -, h⟩ := bind_eq_ok_iff.mp h
    obtain rfl := Except.ok.inj h
    exact normalised_default hstore _
  | array members => exact normaliseArray_normalised hstore h
  | group members => exact normaliseGroup_normalised hstore h
  | list =>
    obtain rfl := Except.ok.inj h
    exact normalised_default hstore _

end Normalise

/-- Five strings; the second is the name of a type and the third a name of the producer's table of
actions, unless they are no strings. -/
def Exports.Known (new : List (Option CString)) : Prop :=
  ∃ jpointer pqtype action filter data, new = [jpointer, pqtype, action, filter, data] ∧
    (∀ name ∈ pqtype, knownPqtype name = true) ∧
    ∀ name ∈ action, knownAction Exports.actionTypes name = true

theorem Exports.known_of_normalised {new : List (Option CString)}
    (h : Normalised Exports.actionTypes new) : Exports.Known new := by
  obtain ⟨jpointer, pqtype, action, filter, data, rfl, hpqtype, haction, -⟩ := h
  exact ⟨jpointer, pqtype, action, some filter, some data, rfl, hpqtype, haction⟩

theorem Exports.normaliseArray_eq {members new : List (Option CString)}
    (h : normaliseArray Exports.actionTypes members = .ok new) :
    normaliseArray Jsonexport.actionTypes members = .ok new := by
  unfold normaliseArray at h ⊢
  obtain ⟨jpointer, hjpointer, h⟩ := bind_eq_ok_iff.mp h
  obtain ⟨pqtype, hpqtype, h⟩ := bind_eq_ok_iff.mp h
  obtain ⟨action, haction, h⟩ := bind_eq_ok_iff.mp h
  refine bind_eq_ok_iff.mpr ⟨jpointer, hjpointer, bind_eq_ok_iff.mpr ⟨pqtype, hpqtype, ?_⟩⟩
  exact bind_eq_ok_iff.mpr ⟨action, arrayName_imp (fun _ => Exports.knownAction_imp) haction, h⟩

theorem Exports.normaliseGroup_eq {members : List (CString × Option CString)}
    {new : List (Option CString)} (h : normaliseGroup Exports.actionTypes members = .ok new) :
    normaliseGroup Jsonexport.actionTypes members = .ok new := by
  unfold normaliseGroup at h ⊢
  obtain ⟨jpointer, hjpointer, h⟩ := bind_eq_ok_iff.mp h
  obtain ⟨pqtype, hpqtype, h⟩ := bind_eq_ok_iff.mp h
  obtain ⟨action, haction, h⟩ := bind_eq_ok_iff.mp h
  refine bind_eq_ok_iff.mpr ⟨jpointer, hjpointer, bind_eq_ok_iff.mpr ⟨pqtype, hpqtype, ?_⟩⟩
  exact bind_eq_ok_iff.mpr ⟨action, groupName_imp (fun _ => Exports.knownAction_imp) haction, h⟩

/-- What the producer makes of an element, the hook makes of it as well. -/
theorem Exports.normalise_eq {child : JpointerSetting} {new : List (Option CString)}
    (h : normalise Exports.actionTypes child = .ok new) :
    normalise Jsonexport.actionTypes child = .ok new ∧ Exports.Known new := by
  refine ⟨?_, Exports.known_of_normalised (normalise_normalised Exports.knownAction_store h)⟩
  cases child with
  | scalar value => exact h
  | array members => exact Exports.normaliseArray_eq h
  | group members => exact Exports.normaliseGroup_eq h
  | list => exact h

/-- The loop of the validators turns every element into its array and keeps the order. -/
theorem validateLoop_eq_ok_iff {actions : List (ActionType × CString)}
    {todo done settings : List JpointerSetting} :
    validateLoop actions todo.length (todo ++ done) = .ok settings ↔
      ∃ news, List.Forall₂ (fun child new => normalise actions child = .ok new) todo news ∧
        settings = done ++ news.map .array := by
  induction todo generalizing done with
  | nil => simp [validateLoop, eq_comm]
  | cons child todo ih =>
    rw [List.length_cons, List.cons_append, validateLoop, bind_eq_ok_iff]
    constructor
    · rintro ⟨new, hnew, h⟩
      rw [List.append_assoc] at h
      obtain ⟨news, hnews, rfl⟩ := ih.mp h
      exact ⟨new :: news, .cons hnew hnews, by simp⟩
    · rintro ⟨news, hnews, rfl⟩
      obtain ⟨new, news', hnew, hnews', rfl⟩ := List.forall₂_cons_left_iff.mp hnews
      refine ⟨new, hnew, ?_⟩
      rw [List.append_assoc]
      exact ih.mpr ⟨news', hnews', by simp⟩

/-- The validators accept a list exactly if they accept its elements. -/
theorem validateJpointers_eq_ok_iff {actions : List (ActionType × CString)}
    {children settings : List JpointerSetting} :
    validateJpointers actions (some (.list children)) = .ok settings ↔
      ∃ news, List.Forall₂ (fun child new => normalise actions child = .ok new) children news ∧
        settings = news.map .array := by
  have hloop := @validateLoop_eq_ok_iff actions children [] settings
  rwa [List.append_nil] at hloop

/-- A needle that is built from an accepted element is defined. -/
theorem needleConf_defined {actions : List (ActionType × CString)} {new : List (Option CString)}
    {conf : NeedleConf} (hnew : Normalised actions new)
    (h : needleConf actions (.array new) = some conf) :
    conf.Defined := by
  obtain ⟨jpointer, pqtype, action, filter, data, rfl, hpqtype, haction, hfilter⟩ := hnew
  simp only [needleConf, bind, pure, Option.bind_eq_some_iff] at h
  obtain ⟨_, -, a₁, h₁, a₂, h₂, a₃, h₃, a₄, h₄, hconf⟩ := h
  obtain rfl : filter = a₃ := by simpa using h₃
  obtain rfl := Option.some.inj hconf
  refine ⟨?_, ?_, ?_, fun hneeds => ?_⟩
  · simpa [knownPqtype] using hpqtype a₁ (by simpa using h₁)
  · simpa [knownAction] using haction a₂ (by simpa using h₂)
  · simpa [knownFilter] using hfilter
  · simp only [filterMember, show (filtertypeEnum filter).needsData = true from hneeds,
      if_true] at h₄
    obtain rfl : some data = a₄ := by simpa using h₄
    rfl

/-- The needles of an accepted configuration are defined. -/
theorem defined_of_validateJpointers {actions : List (ActionType × CString)}
    (hstore : knownAction actions (ascii "store") = true) {jpointers : Option Jpointers}
    {settings : List JpointerSetting} {i : Internal}
    (hvalidate : validateJpointers actions jpointers = .ok settings)
    (hbuild : buildNeedles actions settings = some i) : ∀ n ∈ i.used, n.conf.Defined := by
  obtain ⟨confs, hconfs, rfl⟩ := Option.map_eq_some_iff.mp hbuild
  rcases jpointers with _ | children | _
  · cases hvalidate
  · obtain ⟨news, hnews, rfl⟩ := validateJpointers_eq_ok_iff.mp hvalidate
    have hnormalised : ∀ new ∈ news, Normalised actions new :=
      forall_mem_of_forall₂ (fun _ _ h => normalise_normalised hstore h) hnews
    rw [mapM_eq_some_iff, List.forall₂_map_left_iff] at hconfs
    have hdefined : ∀ conf ∈ confs, conf.Defined := by
      refine forall_mem_of_forall₂ (fun _ _ h => needleConf_defined h.1 h.2)
        ((List.forall₂_and_left news confs).mpr ⟨hnormalised, hconfs⟩)
    intro n hn
    obtain ⟨conf, hconf, rfl⟩ := List.mem_map.mp (List.mem_of_mem_take hn)
    exact hdefined conf hconf
  · cases hvalidate

/-- A needle has a type and does not store metadata. -/
def NeedleConf.Plain (conf : NeedleConf) : Prop :=
  conf.pqtype ≠ .undefined ∧ conf.action ≠ .storeMeta

/-- A needle of the producer is the needle of the hook. -/
theorem Exports.needleConf_eq {new : List (Option CString)} {conf : NeedleConf}
    (hknown : Exports.Known new) (h : needleConf Exports.actionTypes (.array new) = some conf) :
    needleConf Jsonexport.actionTypes (.array new) = some conf ∧ conf.Plain := by
  obtain ⟨jpointer, pqtype, action, filter, data, rfl, htype, hknown⟩ := hknown
  simp only [needleConf, bind, pure, Option.bind_eq_some_iff] at h ⊢
  obtain ⟨a₀, h₀, a₁, h₁, a₂, h₂, a₃, h₃, a₄, h₄, hconf⟩ := h
  have hpqtype : pqtype = some a₁ := by simpa using h₁
  have haction : action = some a₂ := by simpa using h₂
  have hname := Exports.actiontypeEnum_eq (hknown a₂ haction)
  refine ⟨⟨a₀, h₀, a₁, h₁, a₂, h₂, a₃, h₃, a₄, h₄, ?_⟩, ?_⟩
  · rw [hname]
    exact hconf
  · obtain rfl := Option.some.inj hconf
    exact ⟨by simpa [knownPqtype] using htype a₁ hpqtype, Exports.actiontypeEnum_ne_storeMeta a₂⟩

/-- A configuration that the producer accepts is accepted by the hook and gives the same needles,
which are plain. -/
theorem Exports.init_eq {host topic : Option CString} {jpointers : Option Jpointers}
    {settings : List JpointerSetting} {i : Internal}
    (hvalidate : Exports.validate host topic jpointers = .ok settings)
    (hinit : Exports.init settings = some i) :
    Jsonexport.validate jpointers = .ok settings ∧ Jsonexport.init settings = some i ∧
      ∃ confs, i = .ofConfs confs ∧ ∀ conf ∈ confs, conf.Plain := by
  obtain ⟨_, -, htopic⟩ := bind_eq_ok_iff.mp hvalidate
  obtain ⟨_, -, hjpointers⟩ := bind_eq_ok_iff.mp htopic
  obtain ⟨confs, hconfs, rfl⟩ := Option.map_eq_some_iff.mp hinit
  cases jpointers with
  | none => cases hjpointers
  | some jpointers =>
    cases jpointers with
    | other => cases hjpointers
    | list children =>
      obtain ⟨news, hnews, rfl⟩ := validateJpointers_eq_ok_iff.mp hjpointers
      have hknown : ∀ new ∈ news, Exports.Known new :=
        forall_mem_of_forall₂ (fun _ _ h => (Exports.normalise_eq h).2) hnews
      have hneedles : List.Forall₂ (fun new conf =>
          needleConf Jsonexport.actionTypes (.array new) = some conf ∧ conf.Plain)
          news confs := by
        rw [mapM_eq_some_iff, List.forall₂_map_left_iff] at hconfs
        exact ((List.forall₂_and_left news confs).mpr ⟨hknown, hconfs⟩).imp fun _ _ h =>
          Exports.needleConf_eq h.1 h.2
      refine ⟨?_, ?_, confs, rfl, forall_mem_of_forall₂ (fun _ _ h => h.2) hneedles⟩
      · exact validateJpointers_eq_ok_iff.mpr
          ⟨news, hnews.imp fun _ _ h => (Exports.normalise_eq h).1, rfl⟩
      · refine Option.map_eq_some_iff.mpr ⟨confs, ?_, rfl⟩
        rw [mapM_eq_some_iff, List.forall₂_map_left_iff]
        exact hneedles.imp fun _ _ h => h.1

end Schaufel
