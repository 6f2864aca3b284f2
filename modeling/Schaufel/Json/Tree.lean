import Schaufel.Foundation.Settings
import Schaufel.Json.Config

/-!
# Needles in a tree of settings

The `jpointers` of a hook or of a producer are a list in the tree of settings.  The validators put
an array of five strings in the place of each element, and the init functions read these arrays.

Two things go wrong between them.  A list within the list is complained about and becomes an array
without a pointer, and a type or an action that is no string becomes a null pointer; the init
function then takes the string of a null pointer.  The validator itself does that with a filter that
is no string.
-/

namespace Schaufel

/-- What the validators and the init functions see of an element. -/
def Setting.jpointer : Setting → JpointerSetting
  | .array elements => .array (elements.map Setting.getString)
  | .list _ => .list
  | .group members => .group (members.map fun m => (m.1, m.2.getString))
  | s => .scalar s.getString

/-- The element in the tree. -/
def JpointerSetting.setting : JpointerSetting → Setting
  | .scalar value => Setting.stringSetting value
  | .array members => .array (members.map Setting.stringSetting)
  | .group members => .group (members.map fun m => (m.1, Setting.stringSetting m.2))
  | .list => .list []

/-- The member `jpointers` of a configuration. -/
def jpointersOf (config : Setting) : Option Jpointers :=
  match config.getMember (ascii "jpointers") with
  | none => none
  | some (.list elements) => some (.list (elements.map Setting.jpointer))
  | some _ => some .other

/-- The arrays that the validator made replace the elements of `jpointers`. -/
def setJpointers (config : Setting) (settings : List JpointerSetting) : Setting :=
  config.set (ascii "jpointers") (.list (settings.map JpointerSetting.setting))

/-- `h_jsonexport_validate` in the tree. -/
def hJsonexportValidate (config : Setting) : Except Fault Setting :=
  (Jsonexport.validate (jpointersOf config)).map (setJpointers config)

/-- `exporter_validate` in the tree. -/
def exporterValidate (config : Setting) : Except Fault Setting :=
  (Exports.validate (config.lookupString (ascii "host")) (config.lookupString (ascii "topic"))
    (jpointersOf config)).map (setJpointers config)

/-- `h_jsonexport_init` in the tree. -/
def hJsonexportInit (config : Setting) : Option Internal :=
  (config.getMember (ascii "jpointers")).bind fun needlestack =>
    Jsonexport.init (needlestack.elements.map Setting.jpointer)

/-- An array is read as it was written. -/
theorem jpointer_setting_array (new : List (Option CString)) :
    (JpointerSetting.array new).setting.jpointer = .array new := by
  have hcomp : Setting.getString ∘ Setting.stringSetting = id :=
    funext Setting.getString_stringSetting
  rw [JpointerSetting.setting, Setting.jpointer, List.map_map, hcomp, List.map_id]

/-! ### Elements that the init function can read -/

/-- The element has a pointer, and a type and an action that are strings if they are there. -/
def JpointerSetting.Named : JpointerSetting → Prop
  | .list => False
  | .array members => members[1]? ≠ some none ∧ members[2]? ≠ some none
  | .scalar _ => True
  | .group _ => True

theorem arrayName_eq_none_iff {known : CString → Bool} {default : CString}
    {member : Option (Option CString)} {name : Option CString}
    (h : arrayName known default member = .ok name) : name = none ↔ member = some none := by
  rcases member with _ | _ | c
  · obtain rfl := Except.ok.inj h
    simp
  · obtain rfl := Except.ok.inj h
    simp
  · by_cases hc : known c = true
    · obtain rfl : some c = name := by simpa [arrayName, hc] using h
      simp
    · simp [arrayName, hc] at h

section Normalise

variable {actions : List (ActionType × CString)}

/-- The pointer, the type and the action of an accepted element are strings exactly if the element
is named. -/
theorem named_iff {child : JpointerSetting} {new : List (Option CString)}
    (h : normalise actions child = .ok new) :
    child.Named ↔ ∃ jpointer pqtype action filter data,
      new = [some jpointer, some pqtype, some action, filter, data] := by
  cases child with
  | scalar value =>
    obtain ⟨jpointer, -, h⟩ := bind_eq_ok_iff.mp h
    obtain rfl := Except.ok.inj h
    simp [JpointerSetting.Named]
  | array members =>
    obtain ⟨jpointer, -, h⟩ := bind_eq_ok_iff.mp h
    obtain ⟨pqtype, hpqtype, h⟩ := bind_eq_ok_iff.mp h
    obtain ⟨action, haction, h⟩ := bind_eq_ok_iff.mp h
    obtain ⟨filter, -, h⟩ := bind_eq_ok_iff.mp h
    cases filter with
    | none => cases h
    | some name =>
      obtain ⟨data, -, h⟩ := bind_eq_ok_iff.mp h
      obtain rfl := Except.ok.inj h
      rw [JpointerSetting.Named, Ne, Ne, ← arrayName_eq_none_iff hpqtype,
        ← arrayName_eq_none_iff haction]
      cases pqtype with
      | none => simp
      | some pqtype =>
        cases action with
        | none => simp
        | some action => simp
  | group members =>
    obtain ⟨jpointer, -, h⟩ := bind_eq_ok_iff.mp h
    obtain ⟨pqtype, -, h⟩ := bind_eq_ok_iff.mp h
    obtain ⟨action, -, h⟩ := bind_eq_ok_iff.mp h
    obtain ⟨filter, -, h⟩ := bind_eq_ok_iff.mp h
    obtain ⟨data, -, h⟩ := bind_eq_ok_iff.mp h
    obtain rfl := Except.ok.inj h
    simp [JpointerSetting.Named]
  | list =>
    obtain rfl := Except.ok.inj h
    simp [JpointerSetting.Named]

/-- `_needles` gets a needle out of an accepted element exactly if the element is named. -/
theorem needleConf_isSome_iff (hstore : knownAction actions (ascii "store") = true)
    {child : JpointerSetting} {new : List (Option CString)}
    (h : normalise actions child = .ok new) :
    (∃ conf, needleConf actions (.array new) = some conf) ↔ child.Named := by
  rw [named_iff h]
  obtain ⟨jpointer, pqtype, action, filter, data, rfl, -⟩ := normalise_normalised hstore h
  constructor
  · rintro ⟨conf, hconf⟩
    simp only [needleConf, bind, pure, Option.bind_eq_some_iff] at hconf
    obtain ⟨a₀, h₀, a₁, h₁, a₂, h₂, -⟩ := hconf
    obtain rfl : jpointer = some a₀ := by simpa using h₀
    obtain rfl : pqtype = some a₁ := by simpa using h₁
    obtain rfl : action = some a₂ := by simpa using h₂
    exact ⟨a₀, a₁, a₂, some filter, some data, rfl⟩
  · rintro ⟨a₀, a₁, a₂, f, d, heq⟩
    simp only [List.cons.injEq] at heq
    obtain ⟨rfl, rfl, rfl, -⟩ := heq
    by_cases hneeds : (filtertypeEnum filter).needsData = true
    · simp [needleConf, filterMember, hneeds]
    · simp [needleConf, filterMember, hneeds]

end Normalise

/-- The needles of accepted `jpointers` can be built, and are defined, exactly if all elements are
named. -/
theorem needles_defined_iff {children settings : List JpointerSetting}
    (h : Jsonexport.validate (some (.list children)) = .ok settings) :
    (∃ i, Jsonexport.init settings = some i ∧ ∀ n ∈ i.needles, n.conf.Defined) ↔
      ∀ child ∈ children, child.Named := by
  obtain ⟨news, hnews, rfl⟩ := validateJpointers_eq_ok_iff.mp h
  have hbuild : (∃ i, Jsonexport.init (news.map .array) = some i ∧
      ∀ n ∈ i.needles, n.conf.Defined) ↔
      ∃ confs, (news.map .array).mapM (needleConf Jsonexport.actionTypes) = some confs ∧
        ∀ conf ∈ confs, conf.Defined := by
    simp [Jsonexport.init, buildNeedles, Internal.ofConfs, NeedleConf.fresh]
  rw [hbuild, exists_mapM_iff, List.forall_mem_map]
  refine (forall_mem_iff_of_forall₂ (fun child new hnew => ?_) hnews).symm
  rw [← needleConf_isSome_iff Jsonexport.knownAction_store hnew]
  have hnormalised := normalise_normalised Jsonexport.knownAction_store hnew
  exact ⟨fun ⟨conf, hconf⟩ => ⟨conf, hconf, needleConf_defined hnormalised hconf⟩,
    fun ⟨conf, hconf, _⟩ => ⟨conf, hconf⟩⟩

/-- The elements of `jpointers`. -/
def jpointerElements (config : Setting) : List Setting :=
  ((config.getMember (ascii "jpointers")).map Setting.elements).getD []

/-- An accepted hook can be made, with needles that are defined, exactly if all elements of its
`jpointers` are named. -/
theorem jsonexport_defined_iff {config config' : Setting}
    (h : hJsonexportValidate config = .ok config') :
    (∃ i, hJsonexportInit config' = some i ∧ ∀ n ∈ i.needles, n.conf.Defined) ↔
      ∀ child ∈ jpointerElements config, child.jpointer.Named := by
  unfold hJsonexportValidate jpointersOf at h
  split at h
  · cases h
  · rename_i elements hmember
    obtain ⟨settings, hvalidate, rfl⟩ := map_eq_ok_iff.mp h
    obtain ⟨news, -, hsettings⟩ := validateJpointers_eq_ok_iff.mp hvalidate
    have hread : settings.map (Setting.jpointer ∘ JpointerSetting.setting) = settings := by
      rw [hsettings, List.map_map]
      exact List.map_congr_left fun new _ => jpointer_setting_array new
    rw [hJsonexportInit, setJpointers, Setting.getMember_set_self (by rw [hmember]; rfl),
      Option.bind_some, Setting.elements, List.map_map, hread, needles_defined_iff hvalidate,
      List.forall_mem_map, jpointerElements, hmember]
    rfl
  · cases h

/-! ### Where the validators do not come back -/

section Crash

variable {actions : List (ActionType × CString)}

/-- An array with a pointer, a type and an action that are accepted, and a filter that is no
string. -/
def CrashingElement (actions : List (ActionType × CString)) : JpointerSetting → Prop
  | .array members =>
    members[0]?.join.isSome = true ∧ (∀ name ∈ members[1]?.join, knownPqtype name = true) ∧
      (∀ name ∈ members[2]?.join, knownAction actions name = true) ∧ members[3]? = some none
  | _ => False

theorem exists_arrayName_iff {known : CString → Bool} {default : CString}
    {member : Option (Option CString)} :
    (∃ name, arrayName known default member = .ok name) ↔ ∀ c ∈ member.join, known c = true := by
  rcases member with _ | _ | c
  · simp [arrayName]
  · simp [arrayName]
  · by_cases hc : known c = true
    · simp [arrayName, hc]
    · simp [arrayName, hc]

theorem arrayName_ne_crash {known : CString → Bool} {default : CString}
    {member : Option (Option CString)} : arrayName known default member ≠ .error .crash := by
  rcases member with _ | _ | c
  · exact ok_ne_crash _
  · exact ok_ne_crash _
  · by_cases hc : known c = true
    · simp [arrayName, hc]
    · simp [arrayName, hc]

theorem groupName_ne_crash {known : CString → Bool} {default : CString} {member : Option CString} :
    groupName known default member ≠ .error .crash := by
  cases member with
  | none => exact ok_ne_crash _
  | some c =>
    by_cases hc : known c = true
    · simp [groupName, hc]
    · simp [groupName, hc]

theorem filterString_ne_crash (filter : CString) (data : Option CString) :
    filterString filter data ≠ .error .crash := by
  unfold filterString
  split
  · exact required_ne_crash data
  · exact ok_ne_crash _

theorem normaliseArray_eq_crash_iff {members : List (Option CString)} :
    normaliseArray actions members = .error .crash ↔ CrashingElement actions (.array members) := by
  unfold normaliseArray CrashingElement
  rw [bind_eq_crash_iff (required_ne_crash _)]
  constructor
  · rintro ⟨jpointer, hjpointer, h⟩
    obtain ⟨pqtype, hpqtype, h⟩ := (bind_eq_crash_iff arrayName_ne_crash).mp h
    obtain ⟨action, haction, h⟩ := (bind_eq_crash_iff arrayName_ne_crash).mp h
    obtain ⟨filter, hfilter, h⟩ := (bind_eq_crash_iff arrayName_ne_crash).mp h
    refine ⟨by rw [required_eq_ok_iff.mp hjpointer]; rfl, exists_arrayName_iff.mp ⟨pqtype, hpqtype⟩,
      exists_arrayName_iff.mp ⟨action, haction⟩, (arrayName_eq_none_iff hfilter).mp ?_⟩
    cases filter with
    | none => rfl
    | some name =>
      obtain ⟨data, -, h⟩ := (bind_eq_crash_iff (filterString_ne_crash _ _)).mp h
      exact absurd h (ok_ne_crash _)
  · rintro ⟨hjpointer, hpqtype, haction, hfilter⟩
    obtain ⟨jpointer, hjpointer⟩ := Option.isSome_iff_exists.mp hjpointer
    obtain ⟨pqtype, hpqtype⟩ := exists_arrayName_iff.mpr hpqtype
    obtain ⟨action, haction⟩ := exists_arrayName_iff.mpr haction
    refine ⟨jpointer, required_eq_ok_iff.mpr hjpointer, ?_⟩
    refine (bind_eq_crash_iff arrayName_ne_crash).mpr ⟨pqtype, hpqtype, ?_⟩
    refine (bind_eq_crash_iff arrayName_ne_crash).mpr ⟨action, haction, ?_⟩
    exact (bind_eq_crash_iff arrayName_ne_crash).mpr ⟨none, by rw [hfilter]; rfl, rfl⟩

theorem normaliseGroup_ne_crash {members : List (CString × Option CString)} :
    normaliseGroup actions members ≠ .error .crash := by
  unfold normaliseGroup
  rw [Ne, bind_eq_crash_iff (required_ne_crash _)]
  rintro ⟨jpointer, -, h⟩
  obtain ⟨pqtype, -, h⟩ := (bind_eq_crash_iff groupName_ne_crash).mp h
  obtain ⟨action, -, h⟩ := (bind_eq_crash_iff groupName_ne_crash).mp h
  obtain ⟨filter, -, h⟩ := (bind_eq_crash_iff groupName_ne_crash).mp h
  obtain ⟨data, -, h⟩ := (bind_eq_crash_iff (filterString_ne_crash _ _)).mp h
  exact absurd h (ok_ne_crash _)

/-- Only a filter that is no string crashes the validators. -/
theorem normalise_eq_crash_iff {child : JpointerSetting} :
    normalise actions child = .error .crash ↔ CrashingElement actions child := by
  cases child with
  | scalar value =>
    refine iff_of_false (fun h => ?_) id
    obtain ⟨jpointer, -, h⟩ := (bind_eq_crash_iff (required_ne_crash _)).mp h
    exact absurd h (ok_ne_crash _)
  | array members => exact normaliseArray_eq_crash_iff
  | group members => exact iff_of_false normaliseGroup_ne_crash id
  | list => exact iff_of_false (ok_ne_crash _) id

/-- The first element that is not accepted crashes the validator. -/
def Crashing (actions : List (ActionType × CString)) (children : List JpointerSetting) : Prop :=
  ∃ before child after, children = before ++ child :: after ∧
    (∀ b ∈ before, ∃ new, normalise actions b = .ok new) ∧ CrashingElement actions child

theorem crashing_cons {child : JpointerSetting} {rest : List JpointerSetting} :
    Crashing actions (child :: rest) ↔
      CrashingElement actions child ∨
      (∃ new, normalise actions child = .ok new) ∧ Crashing actions rest := by
  constructor
  · rintro ⟨before, bad, after, heq, hbefore, hbad⟩
    cases before with
    | nil =>
      obtain ⟨rfl, rfl⟩ := List.cons.inj heq
      exact .inl hbad
    | cons b before =>
      obtain ⟨rfl, rfl⟩ := List.cons.inj heq
      rw [List.forall_mem_cons] at hbefore
      exact .inr ⟨hbefore.1, before, bad, after, rfl, hbefore.2, hbad⟩
  · rintro (hbad | ⟨hok, before, bad, after, rfl, hbefore, hbad⟩)
    · exact ⟨[], child, rest, rfl, List.forall_mem_nil _, hbad⟩
    · exact ⟨child :: before, bad, after, rfl, List.forall_mem_cons.mpr ⟨hok, hbefore⟩, hbad⟩

theorem validateLoop_eq_crash_iff {todo done : List JpointerSetting} :
    validateLoop actions todo.length (todo ++ done) = .error .crash ↔ Crashing actions todo := by
  induction todo generalizing done with
  | nil =>
    refine iff_of_false (ok_ne_crash _) ?_
    rintro ⟨before, child, after, heq, -⟩
    exact List.cons_ne_nil _ _ (List.append_eq_nil_iff.mp heq.symm).2
  | cons child todo ih =>
    rw [List.length_cons, List.cons_append, validateLoop, bind_eq_error_iff, crashing_cons,
      normalise_eq_crash_iff]
    simp only [List.append_assoc, ih, ← exists_and_right]

/-- The validators come back from their `jpointers`. -/
def JpointersSound (actions : List (ActionType × CString)) (config : Setting) : Prop :=
  ∀ elements, config.getMember (ascii "jpointers") = some (.list elements) →
    ¬ Crashing actions (elements.map Setting.jpointer)

theorem validateJpointers_eq_crash_iff {config : Setting} :
    validateJpointers actions (jpointersOf config) = .error .crash ↔
      ¬ JpointersSound actions config := by
  unfold jpointersOf JpointersSound
  cases hmember : config.getMember (ascii "jpointers") with
  | none => simp [validateJpointers]
  | some jpointers =>
    cases jpointers with
    | list elements =>
      have hloop : validateLoop actions (elements.map Setting.jpointer).length
          (elements.map Setting.jpointer ++ []) = .error .crash ↔ _ := validateLoop_eq_crash_iff
      rw [List.append_nil] at hloop
      simpa [validateJpointers] using hloop
    | _ => simp [validateJpointers]

theorem hJsonexportValidate_eq_crash_iff {config : Setting} :
    hJsonexportValidate config = .error .crash ↔
      ¬ JpointersSound Jsonexport.actionTypes config := by
  rw [hJsonexportValidate, map_eq_error_iff]
  exact validateJpointers_eq_crash_iff

/-- The host and the topic of an exports producer are looked at first. -/
theorem exporterValidate_eq_crash_iff {config : Setting} :
    exporterValidate config = .error .crash ↔
      (config.lookupString (ascii "host")).isSome = true ∧
      (config.lookupString (ascii "topic")).isSome = true ∧
        ¬ JpointersSound Exports.actionTypes config := by
  rw [exporterValidate, map_eq_error_iff, Exports.validate, bind_eq_crash_iff (required_ne_crash _),
    ← validateJpointers_eq_crash_iff]
  simp only [bind_eq_crash_iff (required_ne_crash _), required_eq_ok_iff, Option.isSome_iff_exists]
  exact ⟨fun ⟨host, hhost, topic, htopic, h⟩ => ⟨⟨host, hhost⟩, ⟨topic, htopic⟩, h⟩,
    fun ⟨⟨host, hhost⟩, ⟨topic, htopic⟩, h⟩ => ⟨host, hhost, topic, htopic, h⟩⟩

end Crash

end Schaufel
