import Schaufel.Foundation.CString

/-!
# Trees of settings

A configuration is a tree of typed settings: scalars, arrays of scalars, lists, and groups of named
settings.  The functions are those of a library that hands out pointers into the tree; here an
operation that changes the tree returns the new one, and a setting that is not there is `none`.

A setting is added under its name unless there is one of that name already, or the parent is a
scalar.  Lists and arrays have no names, so that a name is ignored there.
-/

namespace Schaufel

/-- A setting.  `null` is a string to which no value was given; it is only ever read by `getString`,
for which it is no string. -/
inductive Setting
  | int (value : Int32)
  | int64 (value : Int64)
  | float
  | bool (value : Bool)
  | string (value : CString)
  | null
  | array (elements : List Setting)
  | list (elements : List Setting)
  | group (members : List (CString × Setting))
  deriving Repr

namespace Setting

/-! ### Reading -/

def isGroup : Setting → Bool
  | .group _ => true
  | _ => false

def isList : Setting → Bool
  | .list _ => true
  | _ => false

def isScalar : Setting → Bool
  | .array _ => false
  | .list _ => false
  | .group _ => false
  | _ => true

/-- The named settings of a group. -/
def members : Setting → List (CString × Setting)
  | .group members => members
  | _ => []

/-- The settings below a setting, in order. -/
def elements : Setting → List Setting
  | .array elements => elements
  | .list elements => elements
  | .group members => members.map Prod.snd
  | _ => []

/-- The setting of a name. -/
def getMember (s : Setting) (name : CString) : Option Setting := s.members.lookup name

/-- The value of a string. -/
def getString : Setting → Option CString
  | .string value => some value
  | _ => none

/-- The value of an integer that fits into 32 bits. -/
def getInt : Setting → Option Int32
  | .int value => some value
  | .int64 value => if value.toInt32.toInt64 = value then some value.toInt32 else none
  | _ => none

/-- The value of a boolean. -/
def getBool : Setting → Option Bool
  | .bool value => some value
  | _ => none

/-- The string of a name. -/
def lookupString (s : Setting) (name : CString) : Option CString :=
  (s.getMember name).bind getString

/-- The integer of a name. -/
def lookupInt (s : Setting) (name : CString) : Option Int32 := (s.getMember name).bind getInt

/-- The boolean of a name. -/
def lookupBool (s : Setting) (name : CString) : Option Bool := (s.getMember name).bind getBool

/-- The setting of a name in the group of another name. -/
def getPath (s : Setting) (group name : CString) : Option Setting :=
  (s.getMember group).bind fun options => options.getMember name

/-! ### Writing -/

/-- A setting is added below another one. -/
def add (s : Setting) (name : CString) (child : Setting) : Option Setting :=
  match s with
  | .group members =>
    if (members.lookup name).isSome then none else some (.group (members ++ [(name, child)]))
  | .list elements => some (.list (elements ++ [child]))
  | .array elements => if child.isScalar then some (.array (elements ++ [child])) else none
  | _ => none

/-- A member takes another value. -/
def set (s : Setting) (name : CString) (child : Setting) : Setting :=
  match s with
  | .group members => .group (members.map fun m => if m.1 = name then (m.1, child) else m)
  | s => s

/-- A member is taken away. -/
def remove (s : Setting) (name : CString) : Setting :=
  match s with
  | .group members => .group (members.filter fun m => m.1 ≠ name)
  | s => s

/-- A string, or one without a value. -/
def stringSetting : Option CString → Setting
  | some value => .string value
  | none => .null

@[simp] theorem getString_stringSetting (value : Option CString) :
    (stringSetting value).getString = value := by
  cases value with
  | none => rfl
  | some value => rfl

/-! ### What an operation does to the members -/

variable {s s' child : Setting} {name other : CString}

theorem isGroup_of_getMember (h : s.getMember name = some child) : s.isGroup = true := by
  cases s with
  | group members => rfl
  | _ => cases h

theorem getMember_of_lookupString {value : CString} (h : s.lookupString name = some value) :
    s.getMember name = some (.string value) := by
  obtain ⟨child, hchild, hvalue⟩ := Option.bind_eq_some_iff.mp h
  cases child with
  | string v =>
    obtain rfl := Option.some.inj hvalue
    exact hchild
  | _ => cases hvalue

theorem getMember_of_lookupBool {value : Bool} (h : s.lookupBool name = some value) :
    s.getMember name = some (.bool value) := by
  obtain ⟨child, hchild, hvalue⟩ := Option.bind_eq_some_iff.mp h
  cases child with
  | bool v =>
    obtain rfl := Option.some.inj hvalue
    exact hchild
  | _ => cases hvalue

/-- In a group a setting can be added exactly under a name that is free. -/
theorem add_eq_none_iff (hgroup : s.isGroup = true) :
    s.add name child = none ↔ (s.getMember name).isSome := by
  cases s with
  | group members => simp [add, getMember, Setting.members]
  | _ => cases hgroup

@[simp] theorem getMember_group_nil (name : CString) : (Setting.group []).getMember name = none :=
  rfl

theorem getMember_group_cons_of_ne {name other : CString} {child : Setting}
    {members : List (CString × Setting)} (hne : other ≠ name) :
    (Setting.group ((name, child) :: members)).getMember other =
      (Setting.group members).getMember other := by
  have hother : (other == name) = false := by simpa using hne
  simp [getMember, Setting.members, List.lookup_cons, hother]

theorem getMember_group_singleton (name other : CString) (child : Setting) :
    (Setting.group [(name, child)]).getMember other =
      if other = name then some child else none := by
  by_cases h : other = name
  · simp [getMember, Setting.members, h]
  · have hother : (other == name) = false := by simpa using h
    simp [getMember, Setting.members, List.lookup_cons, hother, h]

@[simp] theorem add_group_nil (name : CString) (child : Setting) :
    (Setting.group []).add name child = some (.group [(name, child)]) := rfl

/-- A free name of a group can be used. -/
theorem exists_add (hgroup : s.isGroup = true) (h : s.getMember name = none) (child : Setting) :
    ∃ s', s.add name child = some s' := by
  rw [← Option.ne_none_iff_exists', Ne, add_eq_none_iff hgroup, h]
  simp

theorem getMember_add_self (hgroup : s.isGroup = true) (h : s.add name child = some s') :
    s'.getMember name = some child := by
  cases s with
  | group members =>
    simp only [add] at h
    split at h
    · cases h
    · rename_i hfree
      obtain rfl := Option.some.inj h
      rw [Bool.not_eq_true, Option.isSome_eq_false_iff, Option.isNone_iff_eq_none] at hfree
      simp [getMember, Setting.members, List.lookup_append, hfree]
  | _ => cases hgroup

theorem getMember_add_of_ne (hne : other ≠ name) (h : s.add name child = some s') :
    s'.getMember other = s.getMember other := by
  cases s with
  | group members =>
    simp only [add] at h
    split at h
    · cases h
    · obtain rfl := Option.some.inj h
      have : (other == name) = false := by simpa using hne
      simp [getMember, Setting.members, List.lookup_append, List.lookup_cons, this]
  | list elements =>
    obtain rfl := Option.some.inj h
    rfl
  | array elements =>
    simp only [add] at h
    split at h
    · obtain rfl := Option.some.inj h
      rfl
    · cases h
  | _ => cases h

/-- An added setting leaves the others, also if nothing could be added. -/
theorem getMember_getD_add_of_ne (hne : other ≠ name) :
    ((s.add name child).getD s).getMember other = s.getMember other := by
  cases h : s.add name child with
  | none => rfl
  | some s' => exact getMember_add_of_ne hne h

theorem isGroup_add (h : s.add name child = some s') : s'.isGroup = s.isGroup := by
  cases s with
  | group members =>
    simp only [add] at h
    split at h
    · cases h
    · obtain rfl := Option.some.inj h
      rfl
  | list elements =>
    obtain rfl := Option.some.inj h
    rfl
  | array elements =>
    simp only [add] at h
    split at h
    · obtain rfl := Option.some.inj h
      rfl
    · cases h
  | _ => cases h

theorem isGroup_getD_add : ((s.add name child).getD s).isGroup = s.isGroup := by
  cases h : s.add name child with
  | none => rfl
  | some s' => exact isGroup_add h

@[simp] theorem isGroup_set : (s.set name child).isGroup = s.isGroup := by
  cases s <;> rfl

theorem getMember_set_self (h : (s.getMember name).isSome) :
    (s.set name child).getMember name = some child := by
  cases s with
  | group members =>
    simp only [getMember, Setting.members, set] at h ⊢
    induction members with
    | nil => cases h
    | cons m members ih =>
      obtain ⟨key, value⟩ := m
      rw [List.map_cons]
      by_cases hkey : key = name
      · subst hkey
        rw [if_pos rfl, List.lookup_cons_self]
      · have hne : (name == key) = false := by simpa using Ne.symm hkey
        rw [List.lookup_cons, hne] at h
        rw [if_neg hkey, List.lookup_cons, hne]
        exact ih h
  | _ => cases h

theorem getMember_set_of_ne (hne : other ≠ name) :
    (s.set name child).getMember other = s.getMember other := by
  cases s with
  | group members =>
    simp only [getMember, Setting.members, set]
    induction members with
    | nil => rfl
    | cons m members ih =>
      obtain ⟨key, value⟩ := m
      rw [List.map_cons]
      by_cases hkey : key = name
      · have hother : (other == key) = false := by simpa [hkey] using hne
        rw [if_pos hkey, List.lookup_cons, List.lookup_cons, hother]
        exact ih
      · rw [if_neg hkey, List.lookup_cons, List.lookup_cons, ih]
  | _ => rfl

/-- The last value that a member takes stays. -/
theorem set_set (child' : Setting) : (s.set name child).set name child' = s.set name child' := by
  cases s with
  | group members =>
    rw [set, set, List.map_map]
    congr 1
    refine List.map_congr_left fun m _ => ?_
    by_cases hm : m.1 = name
    · simp [hm]
    · simp [hm]
  | _ => rfl

@[simp] theorem isGroup_remove : (s.remove name).isGroup = s.isGroup := by
  cases s <;> rfl

theorem getMember_remove_self : (s.remove name).getMember name = none := by
  cases s with
  | group members =>
    simp only [getMember, Setting.members, remove, List.lookup_eq_none_iff, List.mem_filter]
    rintro m ⟨-, hm⟩
    have hne : m.1 ≠ name := by simpa using hm
    simpa using Ne.symm hne
  | _ => rfl

theorem getMember_remove_of_ne (hne : other ≠ name) :
    (s.remove name).getMember other = s.getMember other := by
  cases s with
  | group members =>
    simp only [getMember, Setting.members, remove]
    induction members with
    | nil => rfl
    | cons m members ih =>
      obtain ⟨key, value⟩ := m
      by_cases hkey : key = name
      · have hother : (other == key) = false := by simpa [hkey] using hne
        rw [List.filter_cons_of_neg (by simpa using hkey), List.lookup_cons, hother]
        exact ih
      · rw [List.filter_cons_of_pos (by simpa using hkey), List.lookup_cons, List.lookup_cons, ih]
  | _ => rfl

/-! ### Paths of names -/

/-- The names of a group, in order. -/
def names (s : Setting) : List CString := s.members.map Prod.fst

/-- The setting at the end of a path of names. -/
def follow (s : Setting) : List CString → Option Setting
  | [] => some s
  | name :: path => (s.getMember name).bind fun child => child.follow path

@[simp] theorem follow_nil (s : Setting) : s.follow [] = some s := rfl

theorem follow_cons (s : Setting) (name : CString) (path : List CString) :
    s.follow (name :: path) = (s.getMember name).bind fun child => child.follow path := rfl

theorem follow_cons_of_getMember (h : s.getMember name = some child) (path : List CString) :
    s.follow (name :: path) = child.follow path := by
  rw [follow_cons, h, Option.bind_some]

theorem follow_cons_of_free (h : s.getMember name = none) (path : List CString) :
    s.follow (name :: path) = none := by
  rw [follow_cons, h, Option.bind_none]

/-- Paths that start with a name end at the same setting in two groups that have the same member. -/
theorem follow_cons_congr (h : s'.getMember name = s.getMember name) (path : List CString) :
    s'.follow (name :: path) = s.follow (name :: path) := by
  rw [follow_cons, follow_cons, h]

theorem names_add (hgroup : s.isGroup = true) (h : s.add name child = some s') :
    s'.names = s.names ++ [name] := by
  cases s with
  | group members =>
    simp only [add] at h
    split at h
    · cases h
    · obtain rfl := Option.some.inj h
      simp [names, Setting.members]
  | _ => cases hgroup

@[simp] theorem names_set : (s.set name child).names = s.names := by
  cases s with
  | group members =>
    simp only [names, Setting.members, set, List.map_map]
    refine List.map_congr_left fun m _ => ?_
    by_cases hm : m.1 = name
    · simp [hm]
    · simp [hm]
  | _ => rfl

theorem getMember_eq_none_iff : s.getMember name = none ↔ name ∉ s.names := by
  rw [getMember, List.lookup_eq_none_iff, names, List.mem_map]
  constructor
  · rintro h ⟨m, hm, rfl⟩
    simpa using h m hm
  · intro h m hm
    simpa using fun heq : name = m.1 => h ⟨m, hm, heq.symm⟩

/-- A member that takes the value it has. -/
theorem set_getMember (hnodup : s.names.Nodup) (h : s.getMember name = some child) :
    s.set name child = s := by
  cases s with
  | group members =>
    simp only [names, getMember, Setting.members, set] at hnodup h ⊢
    congr 1
    induction members with
    | nil => rfl
    | cons m members ih =>
      obtain ⟨key, value⟩ := m
      rw [List.map_cons, List.nodup_cons] at hnodup
      rw [List.map_cons]
      by_cases hkey : key = name
      · subst hkey
        rw [List.lookup_cons_self] at h
        obtain rfl := Option.some.inj h
        -- no other member has the name
        have hrest : members.map (fun m => if m.1 = key then (m.1, value) else m) =
            members.map id := by
          refine List.map_congr_left fun m hm => if_neg ?_
          rintro rfl
          exact hnodup.1 (List.mem_map.mpr ⟨m, hm, rfl⟩)
        rw [if_pos rfl, hrest, List.map_id]
      · have hne : (name == key) = false := by simpa using Ne.symm hkey
        rw [List.lookup_cons, hne] at h
        rw [if_neg hkey, ih hnodup.2 h]
  | _ => rfl

theorem follow_append (s : Setting) (path path' : List CString) :
    s.follow (path ++ path') = (s.follow path).bind fun child => child.follow path' := by
  induction path generalizing s with
  | nil => rfl
  | cons name path ih =>
    rw [List.cons_append, follow_cons, follow_cons]
    cases s.getMember name with
    | none => rfl
    | some child => exact ih child

/-- There is nothing below a setting without members. -/
theorem follow_of_members_eq_nil (h : s.members = []) {path : List CString} (hne : path ≠ []) :
    s.follow path = none := by
  cases path with
  | nil => exact absurd rfl hne
  | cons name path =>
    apply follow_cons_of_free
    rw [getMember, h]
    rfl

/-- Only groups are on the way to a setting. -/
theorem exists_group_of_follow {path : List CString} {name : CString} {path' : List CString}
    (h : s.follow (path ++ name :: path') = some child) :
    ∃ group, s.follow path = some group ∧ group.isGroup = true := by
  rw [follow_append] at h
  obtain ⟨group, hgroup, hrest⟩ := Option.bind_eq_some_iff.mp h
  obtain ⟨member, hmember, -⟩ := Option.bind_eq_some_iff.mp hrest
  exact ⟨group, hgroup, isGroup_of_getMember hmember⟩

/-- No group that a path leads to has two members of one name. -/
def Distinct (s : Setting) : Prop := ∀ path child, s.follow path = some child → child.names.Nodup

theorem Distinct.getMember (h : s.Distinct) (hchild : s.getMember name = some child) :
    child.Distinct := by
  intro path child' hfollow
  apply h (name :: path)
  rwa [follow_cons_of_getMember hchild]

theorem distinct_of_members (hnodup : s.names.Nodup) (hmembers : ∀ m ∈ s.members, m.2.Distinct) :
    s.Distinct := by
  intro path child hfollow
  cases path with
  | nil =>
    obtain rfl := Option.some.inj hfollow
    exact hnodup
  | cons name path =>
    obtain ⟨member, hmember, hrest⟩ := Option.bind_eq_some_iff.mp hfollow
    obtain ⟨before, after, hsplit, -⟩ := List.lookup_eq_some_iff.mp hmember
    exact hmembers (name, member) (by rw [hsplit]; simp) path child hrest

theorem distinct_of_members_eq_nil (h : s.members = []) : s.Distinct := by
  refine distinct_of_members ?_ fun m hm => ?_
  · rw [names, h]
    exact List.nodup_nil
  · rw [h] at hm
    cases hm

end Setting

end Schaufel
