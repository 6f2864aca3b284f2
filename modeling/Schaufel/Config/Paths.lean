import Schaufel.Config.Verdict
import Schaufel.Foundation.Settings

/-!
# Default values

`config_create_path` follows a path such as `one/two/three` through the groups of a setting, adds
the groups that are missing and the leaf, and returns the leaf.  It returns a null pointer if the
leaf exists already, and aborts if something on the way is no group.

The leaf is added with the value that the caller gives it afterwards.
-/

namespace Schaufel

/-- The loop of `config_create_path`: the setting afterwards, and whether the leaf was added. -/
def createPath : List CString → Setting → Setting → Option (Setting × Bool)
  | [], _, cur => some (cur, false)
  | [name], leaf, cur =>
    match cur.add name leaf with
    | some cur => some (cur, true)
    | none => some (cur, false)
  | name :: rest, leaf, cur =>
    match cur.getMember name with
    | some found =>
      if found.isGroup then (createPath rest leaf found).map fun r => (cur.set name r.1, r.2)
      else none
    | none =>
      (createPath rest leaf (.group [])).bind fun r =>
        match cur.add name r.1 with
        | some cur => some (cur, r.2)
        -- The null pointer is looked into, unless only the leaf is left.
        | none => if rest.length = 1 then some (cur, false) else none

/-- The names of a path; a path that does not fit into the buffer fails the assertion. -/
def pathNames (path : CString) : Option (List CString) :=
  if path.length < 512 then some (path.splitOn 47) else none

/-- `config_create_path`. -/
def configCreatePath (parent : Setting) (path : CString) (leaf : Setting) :
    Option (Setting × Bool) :=
  (pathNames path).bind fun names => createPath names leaf parent

/-- `config_set_default_string`. -/
def configSetDefaultString (parent : Setting) (path value : CString) : Option Setting :=
  (configCreatePath parent path (.string value)).map Prod.fst

/-- Several default values. -/
def setDefaults (parent : Setting) (defaults : List (CString × CString)) : Option Setting :=
  defaults.foldlM (fun parent d => configSetDefaultString parent d.1 d.2) parent

/-- A null pointer that is dereferenced, or a call of `abort`. -/
def orCrash {α : Type} : Option α → Except Fault α
  | some a => .ok a
  | none => .error .crash

@[simp] theorem orCrash_eq_ok_iff {α : Type} {x : Option α} {a : α} :
    orCrash x = .ok a ↔ x = some a := by
  cases x with
  | none => simp [orCrash]
  | some b => simp [orCrash]

@[simp] theorem orCrash_eq_crash_iff {α : Type} {x : Option α} :
    orCrash x = .error .crash ↔ x = none := by
  cases x with
  | none => simp [orCrash]
  | some b => simp [orCrash]

/-! ### What a default value does -/

variable {parent parent' leaf : Setting} {path group name other value : CString}

/-- A leaf right below a group is added unless there is one. -/
theorem configCreatePath_name (hpath : pathNames path = some [name]) :
    (configCreatePath parent path leaf).map Prod.fst =
      some ((parent.add name leaf).getD parent) := by
  rw [configCreatePath, hpath, Option.bind_some, createPath]
  cases parent.add name leaf with
  | none => rfl
  | some parent' => rfl

/-- A default value in a group. -/
theorem configSetDefaultString_pair (hpath : pathNames path = some [group, name])
    (hgroup : parent.isGroup = true) :
    configSetDefaultString parent path value =
      match parent.getMember group with
      | none => parent.add group (.group [(name, .string value)])
      | some found =>
        if found.isGroup then some (parent.set group ((found.add name (.string value)).getD found))
        else none := by
  rw [configSetDefaultString, configCreatePath, hpath, Option.bind_some]
  cases hfound : parent.getMember group with
  | none =>
    obtain ⟨parent', hadd⟩ := Setting.exists_add hgroup hfound (.group [(name, .string value)])
    simp [createPath, hfound, hadd]
  | some found =>
    by_cases hisgroup : found.isGroup = true
    · cases hadd : found.add name (.string value) with
      | none => simp [createPath, hfound, hisgroup, hadd]
      | some found' => simp [createPath, hfound, hisgroup, hadd]
    · simp [createPath, hfound, hisgroup]

/-- A default value can be set unless something else has the name of the group. -/
theorem configSetDefaultString_isSome_iff (hpath : pathNames path = some [group, name])
    (hgroup : parent.isGroup = true) :
    (configSetDefaultString parent path value).isSome = true ↔
      ∀ found ∈ parent.getMember group, found.isGroup = true := by
  rw [configSetDefaultString_pair hpath hgroup]
  cases hfound : parent.getMember group with
  | none =>
    obtain ⟨parent', hadd⟩ := Setting.exists_add hgroup hfound (.group [(name, .string value)])
    simp [hadd]
  | some found =>
    by_cases hisgroup : found.isGroup = true
    · simp [hisgroup]
    · simp [hisgroup]

/-- What a default value does: the group is added with it, or it is added to the group. -/
theorem configSetDefaultString_cases (hpath : pathNames path = some [group, name])
    (hgroup : parent.isGroup = true) (h : configSetDefaultString parent path value = some parent') :
    (parent.getMember group = none ∧
      parent.add group (.group [(name, .string value)]) = some parent') ∨
      ∃ found, parent.getMember group = some found ∧ found.isGroup = true ∧
        parent' = parent.set group ((found.add name (.string value)).getD found) := by
  rw [configSetDefaultString_pair hpath hgroup] at h
  cases hfound : parent.getMember group with
  | none =>
    rw [hfound] at h
    exact .inl ⟨rfl, h⟩
  | some found =>
    rw [hfound] at h
    by_cases hisgroup : found.isGroup = true
    · exact .inr ⟨found, rfl, hisgroup, by simpa [hisgroup] using h.symm⟩
    · simp [hisgroup] at h

theorem isGroup_configSetDefaultString (hpath : pathNames path = some [group, name])
    (hgroup : parent.isGroup = true) (h : configSetDefaultString parent path value = some parent') :
    parent'.isGroup = true := by
  obtain ⟨-, hadd⟩ | ⟨found, -, -, rfl⟩ := configSetDefaultString_cases hpath hgroup h
  · rw [Setting.isGroup_add hadd, hgroup]
  · rw [Setting.isGroup_set, hgroup]

/-- Where a default value could be set there is a group. -/
theorem isGroup_of_configSetDefaultString (hpath : pathNames path = some [group, name])
    (hgroup : parent.isGroup = true) (h : configSetDefaultString parent path value = some parent') :
    ∀ found ∈ parent'.getMember group, found.isGroup = true := by
  intro found hmem
  obtain ⟨-, hadd⟩ | ⟨old, hold, hisgroup, rfl⟩ := configSetDefaultString_cases hpath hgroup h
  · rw [Setting.getMember_add_self hgroup hadd] at hmem
    obtain rfl := Option.some.inj hmem
    rfl
  · rw [Setting.getMember_set_self (by rw [hold]; rfl)] at hmem
    obtain rfl := Option.some.inj hmem
    rw [Setting.isGroup_getD_add, hisgroup]

/-- A default value in a group changes no other setting. -/
theorem getMember_configSetDefaultString (hpath : pathNames path = some [group, name])
    (hgroup : parent.isGroup = true) (h : configSetDefaultString parent path value = some parent')
    (hne : other ≠ group) : parent'.getMember other = parent.getMember other := by
  obtain ⟨-, hadd⟩ | ⟨found, -, -, rfl⟩ := configSetDefaultString_cases hpath hgroup h
  · exact Setting.getMember_add_of_ne hne hadd
  · exact Setting.getMember_set_of_ne hne

/-- A default value in a group changes no other value of the group. -/
theorem getPath_configSetDefaultString (hpath : pathNames path = some [group, name])
    (hgroup : parent.isGroup = true) (h : configSetDefaultString parent path value = some parent')
    (hne : other ≠ name) : parent'.getPath group other = parent.getPath group other := by
  unfold Setting.getPath
  obtain ⟨hfound, hadd⟩ | ⟨found, hfound, -, rfl⟩ := configSetDefaultString_cases hpath hgroup h
  · rw [hfound, Setting.getMember_add_self hgroup hadd, Option.bind_some,
      Setting.getMember_group_singleton, if_neg hne]
    rfl
  · rw [Setting.getMember_set_self (by rw [hfound]; rfl), hfound]
    exact Setting.getMember_getD_add_of_ne hne

end Schaufel
