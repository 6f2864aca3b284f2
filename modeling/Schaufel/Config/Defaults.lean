import Mathlib.Data.List.Nodup
import Schaufel.Config.Paths

/-!
# Default values do not overwrite

`config_set_default_string` gives a value to the setting at the end of a path, unless there is one.
Groups on the way that are missing are created.

A tree is looked at through the paths of names that lead to its settings.  `Created` says what a
tree is afterwards: the value is at the end of the path, a path that is no part of it leads to what
it led to before, and a group on the way keeps its members in their order, with at most one new
member behind them.

## Main results

* `createPath_of_exists`: an existing setting is left as it is.
* `exists_createPath`: a missing one is created.
* `default_string_frame`: both, and that a second default value changes nothing.
-/

namespace Schaufel

variable {s s' child leaf : Setting} {name : CString} {path : List CString}

/-! ### Created settings -/

/-- A setting `leaf` was created at the end of a path. -/
structure Created (path : List CString) (leaf s s' : Setting) : Prop where
  /-- It is there. -/
  leaf : s'.follow path = some leaf
  /-- What is not on the path is as it was. -/
  frame : ∀ other, ¬ other <+: path → s'.follow other = s.follow other
  /-- Groups on the path keep their members, in their order. -/
  kept : ∀ inner group, inner <+: path → s.follow inner = some group →
    ∃ group', s'.follow inner = some group' ∧ group.names <+: group'.names
  /-- There are no two members of one name. -/
  distinct : s'.Distinct

/-- The end of the path. -/
theorem Created.nil (hleaf : leaf.members = []) : Created [] leaf (.group []) leaf := by
  refine ⟨rfl, fun other hother => ?_, fun inner group hinner hgroup => ?_,
    Setting.distinct_of_members_eq_nil hleaf⟩
  · have hne : other ≠ [] := fun hnil => hother (hnil ▸ List.prefix_refl _)
    rw [Setting.follow_of_members_eq_nil hleaf hne, Setting.follow_of_members_eq_nil rfl hne]
  · obtain rfl := List.prefix_nil.mp hinner
    obtain rfl := Option.some.inj hgroup
    exact ⟨leaf, rfl, List.nil_prefix⟩

/-- A setting that was created below a member, which was there or is new. -/
theorem Created.below (hchild : Created path leaf ((s.getMember name).getD (.group [])) child)
    (hself : s'.getMember name = some child)
    (hother : ∀ other, other ≠ name → s'.getMember other = s.getMember other)
    (hnames : s.names <+: s'.names) (hnodup : s'.names.Nodup) (hdistinct : s.Distinct) :
    Created (name :: path) leaf s s' := by
  -- below the member, a path of at least one name leads to the same as before
  have hbelow : ∀ q, q ≠ [] →
      s.follow (name :: q) = ((s.getMember name).getD (.group [])).follow q := by
    intro q hq
    rw [Setting.follow_cons]
    cases s.getMember name with
    | none => exact (Setting.follow_of_members_eq_nil rfl hq).symm
    | some old => rfl
  refine ⟨?_, fun other hprefix => ?_, fun inner group hinner hgroup => ?_,
    fun p child' hfollow => ?_⟩
  · rw [Setting.follow_cons_of_getMember hself, hchild.leaf]
  · cases other with
    | nil => exact absurd List.nil_prefix hprefix
    | cons first other =>
      by_cases hfirst : first = name
      · subst hfirst
        have hprefix' : ¬ other <+: path := fun h => hprefix ((List.prefix_cons_inj first).mpr h)
        have hne : other ≠ [] := fun hnil => hprefix' (hnil ▸ List.nil_prefix)
        rw [Setting.follow_cons_of_getMember hself, hchild.frame other hprefix', hbelow other hne]
      · exact Setting.follow_cons_congr (hother first hfirst) other
  · cases inner with
    | nil =>
      obtain rfl := Option.some.inj hgroup
      exact ⟨s', rfl, hnames⟩
    | cons first inner =>
      obtain ⟨rfl, hinner'⟩ := List.cons_prefix_cons.mp hinner
      rw [Setting.follow_cons_of_getMember hself]
      apply hchild.kept inner group hinner'
      cases hold : s.getMember first with
      | none =>
        rw [Setting.follow_cons_of_free hold] at hgroup
        cases hgroup
      | some old =>
        rwa [Setting.follow_cons_of_getMember hold] at hgroup
  · cases p with
    | nil =>
      obtain rfl := Option.some.inj hfollow
      exact hnodup
    | cons first p =>
      by_cases hfirst : first = name
      · rw [hfirst, Setting.follow_cons_of_getMember hself] at hfollow
        exact hchild.distinct p child' hfollow
      · rw [Setting.follow_cons_congr (hother first hfirst)] at hfollow
        exact hdistinct _ child' hfollow

/-- The groups before the end of a path have settings below them. -/
theorem Created.inner (h : Created path leaf s s') {inner : List CString} (hinner : inner <+: path)
    (hne : inner ≠ path) : ∃ group, s'.follow inner = some group ∧ group.isGroup = true := by
  obtain ⟨rest, rfl⟩ := hinner
  cases rest with
  | nil => exact absurd (List.append_nil inner).symm hne
  | cons first rest => exact Setting.exists_group_of_follow h.leaf

/-! ### The loop over the names -/

/-- The settings on a path that exist are groups, apart from the one at its end. -/
def InnerGroups (s : Setting) (path : List CString) : Prop :=
  ∀ inner, inner <+: path → inner ≠ path → ∀ group ∈ s.follow inner, group.isGroup = true

theorem InnerGroups.getMember (h : InnerGroups s (name :: path))
    (hchild : s.getMember name = some child) :
    InnerGroups child path := by
  intro inner hinner hne group hgroup
  apply h (name :: inner)
  · exact (List.prefix_cons_inj name).mpr hinner
  · exact fun heq => hne (List.cons.inj heq).2
  · rwa [Setting.follow_cons_of_getMember hchild]

theorem innerGroups_nil (s : Setting) : InnerGroups s [] :=
  fun _ hinner hne => absurd (List.prefix_nil.mp hinner) hne

/-- A path into a group, and from a member on, if there is one of that name. -/
theorem innerGroups_cons (hgroup : s.isGroup = true)
    (hmember : ∀ child, s.getMember name = some child → InnerGroups child path) :
    InnerGroups s (name :: path) := by
  intro inner hinner hne group hfollow
  cases inner with
  | nil =>
    obtain rfl := Option.some.inj hfollow
    exact hgroup
  | cons first inner =>
    obtain ⟨rfl, hprefix⟩ := List.cons_prefix_cons.mp hinner
    obtain ⟨child, hchild, hrest⟩ := Option.bind_eq_some_iff.mp hfollow
    exact hmember child hchild inner hprefix (fun heq => hne (heq ▸ rfl)) group hrest

theorem innerGroups_group_nil (path : List CString) : InnerGroups (.group []) path := by
  cases path with
  | nil => exact innerGroups_nil _
  | cons name path =>
    refine innerGroups_cons rfl fun child hchild => ?_
    cases hchild

/-- An existing setting is left as it is. -/
theorem createPath_of_exists (hne : path ≠ []) (hdistinct : s.Distinct)
    (hexists : (s.follow path).isSome = true) : createPath path leaf s = some (s, false) := by
  induction path generalizing s with
  | nil => exact absurd rfl hne
  | cons name path ih =>
    obtain ⟨child, hchild, hrest⟩ : ∃ child, s.getMember name = some child ∧
        (child.follow path).isSome = true := by
      rw [Setting.follow_cons] at hexists
      cases hchild : s.getMember name with
      | none =>
        rw [hchild] at hexists
        cases hexists
      | some child =>
        rw [hchild] at hexists
        exact ⟨child, rfl, hexists⟩
    have hgroup := Setting.isGroup_of_getMember hchild
    cases path with
    | nil =>
      have hnone : s.add name leaf = none := by
        rw [Setting.add_eq_none_iff hgroup, hchild]
        rfl
      rw [createPath, hnone]
    | cons second path =>
      have hisgroup : child.isGroup = true := by
        obtain ⟨last, hlast⟩ := Option.isSome_iff_exists.mp hrest
        obtain ⟨group, hself, hisgroup⟩ :=
          @Setting.exists_group_of_follow child last [] second path hlast
        obtain rfl := Option.some.inj hself
        exact hisgroup
      have hset : s.set name child = s := Setting.set_getMember (hdistinct [] s rfl) hchild
      have hbelow := ih (List.cons_ne_nil _ _) (hdistinct.getMember hchild) hrest
      simp only [createPath, hchild, hisgroup, if_true]
      rw [hbelow, Option.map_some, hset]

/-- What a new member does. -/
theorem Created.of_add (hgroup : s.isGroup = true) (hfree : s.getMember name = none)
    (hdistinct : s.Distinct) (hchild : Created path leaf (.group []) child) :
    ∃ s', s.add name child = some s' ∧ Created (name :: path) leaf s s' := by
  obtain ⟨s', hadd⟩ := Setting.exists_add hgroup hfree child
  have hnames := Setting.names_add hgroup hadd
  refine ⟨s', hadd, .below ?_ (Setting.getMember_add_self hgroup hadd) ?_ ?_ ?_ hdistinct⟩
  · rwa [hfree]
  · exact fun other hne => Setting.getMember_add_of_ne hne hadd
  · rw [hnames]
    exact List.prefix_append _ _
  · rw [hnames, ← List.concat_eq_append]
    exact List.Nodup.concat (Setting.getMember_eq_none_iff.mp hfree) (hdistinct [] s rfl)

/-- A missing setting is created. -/
theorem exists_createPath (hne : path ≠ []) (hleaf : leaf.members = []) (hgroup : s.isGroup = true)
    (hdistinct : s.Distinct) (hinner : InnerGroups s path) (hmissing : s.follow path = none) :
    ∃ s', createPath path leaf s = some (s', true) ∧ Created path leaf s s' := by
  induction path generalizing s with
  | nil => exact absurd rfl hne
  | cons name path ih =>
    cases path with
    | nil =>
      have hfree : s.getMember name = none := by
        rw [Setting.follow_cons] at hmissing
        simpa using hmissing
      obtain ⟨s', hadd, hcreated⟩ := Created.of_add hgroup hfree hdistinct (.nil hleaf)
      refine ⟨s', ?_, hcreated⟩
      rw [createPath, hadd]
    | cons second path =>
      have hne' : second :: path ≠ [] := List.cons_ne_nil _ _
      cases hfound : s.getMember name with
      | none =>
        obtain ⟨child, hpath, hchild⟩ := ih hne' rfl (Setting.distinct_of_members_eq_nil rfl)
          (innerGroups_group_nil _) (Setting.follow_of_members_eq_nil rfl hne')
        obtain ⟨s', hadd, hcreated⟩ := Created.of_add hgroup hfound hdistinct hchild
        refine ⟨s', ?_, hcreated⟩
        simp only [createPath, hfound, hpath, Option.bind_some, hadd]
      | some found =>
        have hisgroup : found.isGroup = true := by
          apply hinner [name]
          · exact (List.prefix_cons_inj name).mpr List.nil_prefix
          · simp
          · exact Setting.follow_cons_of_getMember hfound []
        have hmissing' : found.follow (second :: path) = none := by
          rwa [Setting.follow_cons_of_getMember hfound] at hmissing
        obtain ⟨child, hpath, hchild⟩ :=
          ih hne' hisgroup (hdistinct.getMember hfound) (hinner.getMember hfound) hmissing'
        have hself : (s.set name child).getMember name = some child := by
          apply Setting.getMember_set_self
          rw [hfound]
          rfl
        have hnames : (s.set name child).names = s.names := Setting.names_set
        refine ⟨s.set name child, ?_, .below ?_ hself ?_ ?_ ?_ hdistinct⟩
        · simp only [createPath, hfound, hisgroup, if_true, hpath, Option.map_some]
        · rwa [hfound]
        · exact fun other hother => Setting.getMember_set_of_ne hother
        · exact hnames ▸ List.prefix_refl _
        · exact hnames ▸ hdistinct [] s rfl

/-! ### Default values -/

/-- A configuration: a group, and no group in it has two members of one name. -/
structure ConfigTree where
  root : Setting
  isGroup : root.isGroup = true
  distinct : root.Distinct

/-- The names of settings: a letter or an asterisk, and then letters, digits, asterisks, underscores
and hyphens. -/
def validName : CString → Bool
  | [] => false
  | c :: rest => nameStart c && rest.all fun c => nameStart c || isDigit c || c == 95 || c == 45
where
  nameStart (c : UInt8) : Bool := (65 ≤ c && c ≤ 90) || (97 ≤ c && c ≤ 122) || c == 42

/-- A path of names that fits into the buffer. -/
structure SettingPath where
  names : List CString
  ne_nil : names ≠ []
  valid : ∀ name ∈ names, validName name = true
  length_lt : ([47].intercalate names).length < 512

/-- The names with slashes between them. -/
def SettingPath.text (path : SettingPath) : CString := [47].intercalate path.names

theorem slash_not_mem_of_validName (h : validName name = true) : 47 ∉ name := by
  cases name with
  | nil => exact List.not_mem_nil
  | cons c rest =>
    rw [validName, Bool.and_eq_true, List.all_eq_true] at h
    intro hmem
    rcases List.mem_cons.mp hmem with rfl | hrest
    · exact absurd h.1 (by decide)
    · exact absurd (h.2 47 hrest) (by decide)

/-- The source finds the names of a path again. -/
theorem SettingPath.pathNames_text (path : SettingPath) :
    pathNames path.text = some path.names := by
  rw [pathNames, text, if_pos path.length_lt,
    List.splitOn_intercalate 47 (fun name h => slash_not_mem_of_validName (path.valid name h))
      path.ne_nil]

/-- What a default value does to a tree. -/
structure DefaultSet (tree tree' : ConfigTree) (path : SettingPath) (value : CString) : Prop where
  /-- A tree with a setting at the end of the path is left as it is. -/
  untouched : (tree.root.follow path.names).isSome = true → tree' = tree
  /-- Otherwise the value is put there. -/
  leaf : tree.root.follow path.names = none → tree'.root.follow path.names = some (.string value)
  /-- The groups on the way exist. -/
  inner : ∀ inner, inner <+: path.names → inner ≠ path.names →
    ∃ group, tree'.root.follow inner = some group ∧ group.isGroup = true
  /-- A group on the way that existed keeps its members, in their order. -/
  kept : ∀ inner group, inner <+: path.names → tree.root.follow inner = some group →
    ∃ group', tree'.root.follow inner = some group' ∧ group.names <+: group'.names
  /-- What is not on the path is as it was. -/
  frame : ∀ other, ¬ other <+: path.names → tree'.root.follow other = tree.root.follow other

/-- A default value is set where there is no value; a second one changes nothing. -/
theorem default_string_frame (tree : ConfigTree) (path : SettingPath) (value : CString)
    (hinner : InnerGroups tree.root path.names) :
    ∃ tree' : ConfigTree,
      configSetDefaultString tree.root path.text value = some tree'.root ∧
      DefaultSet tree tree' path value ∧
      ∀ value', configSetDefaultString tree'.root path.text value' = some tree'.root := by
  have hstays : ∀ t : ConfigTree, (t.root.follow path.names).isSome = true →
      ∀ value, configSetDefaultString t.root path.text value = some t.root := by
    intro t hexists value
    rw [configSetDefaultString, configCreatePath, path.pathNames_text, Option.bind_some,
      createPath_of_exists path.ne_nil t.distinct hexists, Option.map_some]
  cases hfollow : tree.root.follow path.names with
  | some old =>
    have hexists : (tree.root.follow path.names).isSome = true := by
      rw [hfollow]
      rfl
    refine ⟨tree, hstays tree hexists value,
      ⟨fun _ => rfl, fun hnone => ?_, fun inner hprefix hne => ?_,
        fun inner group _ hgroup => ⟨group, hgroup, List.prefix_refl _⟩, fun _ _ => rfl⟩,
        hstays tree hexists⟩
    · rw [hnone] at hfollow
      cases hfollow
    · obtain ⟨rest, hrest⟩ := hprefix
      cases rest with
      | nil => exact absurd ((List.append_nil inner).symm.trans hrest) hne
      | cons first rest =>
        rw [← hrest] at hfollow
        exact Setting.exists_group_of_follow hfollow
  | none =>
    obtain ⟨s', hcreate, hcreated⟩ := exists_createPath path.ne_nil
      (show (Setting.string value).members = [] from rfl) tree.isGroup tree.distinct hinner hfollow
    have hgroup : s'.isGroup = true := by
      obtain ⟨group, hself, hisgroup⟩ := hcreated.inner List.nil_prefix path.ne_nil.symm
      obtain rfl := Option.some.inj hself
      exact hisgroup
    refine ⟨⟨s', hgroup, hcreated.distinct⟩, ?_, ⟨fun hsome => ?_, fun _ => hcreated.leaf,
      fun inner => hcreated.inner, hcreated.kept, hcreated.frame⟩, hstays _ ?_⟩
    · rw [configSetDefaultString, configCreatePath, path.pathNames_text, Option.bind_some, hcreate,
        Option.map_some]
    · rw [hfollow] at hsome
      cases hsome
    · rw [hcreated.leaf]
      rfl

/-- A tree with a topic and an option of it. -/
def ConfigTree.withAcks : ConfigTree where
  root := .group [(ascii "topic", .string (ascii "t")),
    (ascii "topic_options", .group [(ascii "acks", .string (ascii "1"))])]
  isGroup := rfl
  distinct := by
    have hleaf : ∀ value, (Setting.string value).Distinct :=
      fun _ => Setting.distinct_of_members_eq_nil rfl
    have hoptions : (Setting.group [(ascii "acks", .string (ascii "1"))]).Distinct :=
      Setting.distinct_of_members (by decide) (List.forall_mem_singleton.mpr (hleaf _))
    refine Setting.distinct_of_members (by decide) (List.forall_mem_cons.mpr ⟨hleaf _, ?_⟩)
    exact List.forall_mem_singleton.mpr hoptions

/-- The path of the option for a consumer without an offset. -/
def SettingPath.autoOffsetReset : SettingPath where
  names := [ascii "topic_options", ascii "auto_offset_reset"]
  ne_nil := List.cons_ne_nil _ _
  valid := by decide
  length_lt := by decide

/-- The option is set in the group that is there, beside the other one, and the topic stays. -/
theorem default_string_beside_option :
    ∃ tree' : ConfigTree,
      configSetDefaultString (.group [(ascii "topic", .string (ascii "t")),
          (ascii "topic_options", .group [(ascii "acks", .string (ascii "1"))])])
        (ascii "topic_options/auto_offset_reset") (ascii "latest") = some tree'.root ∧
      tree'.root.follow [ascii "topic_options", ascii "auto_offset_reset"] =
        some (.string (ascii "latest")) ∧
      tree'.root.follow [ascii "topic_options", ascii "acks"] = some (.string (ascii "1")) ∧
      tree'.root.follow [ascii "topic"] = some (.string (ascii "t")) ∧
      ∀ value', configSetDefaultString tree'.root (ascii "topic_options/auto_offset_reset") value' =
        some tree'.root := by
  have htext : SettingPath.autoOffsetReset.text = ascii "topic_options/auto_offset_reset" := by
    decide
  have hinner : InnerGroups ConfigTree.withAcks.root SettingPath.autoOffsetReset.names := by
    refine innerGroups_cons rfl fun child hchild => ?_
    obtain rfl := Option.some.inj hchild
    exact innerGroups_cons rfl fun child hchild => innerGroups_nil child
  obtain ⟨tree', hset, hdefault, hagain⟩ :=
    default_string_frame .withAcks .autoOffsetReset (ascii "latest") hinner
  rw [htext] at hset hagain
  exact ⟨tree', hset, hdefault.leaf rfl, hdefault.frame _ (by decide), hdefault.frame _ (by decide),
    hagain⟩

end Schaufel
