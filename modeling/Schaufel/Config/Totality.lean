import Schaufel.Config.Validate

/-!
# When a validation comes back

`config_validate` should return true or false for every tree of settings, and judge every entry by
its own type.  It does so exactly if every entry that the loops come to is sound: it is a group, its
hooks come back, it has a type, and the validator of its module comes back.

An entry is come to if all entries before it in its list are accepted by their validators.
-/

namespace Schaufel

/-! ### Sound settings -/

/-- The validator of a module comes back from an entry. -/
def ModuleSound (type : ThreadType) (entry : Setting) : Module → Prop
  | .exports => (entry.lookupString (ascii "host")).isSome = true →
      (entry.lookupString (ascii "topic")).isSome = true → JpointersSound Exports.actionTypes entry
  | .postgres => PostgresSound entry
  | .kafka =>
    match type with
    | .consumer => Kafka.ConsumerSound entry
    | .producer => Kafka.ProducerSound entry
  | .dummy => True
  | .file => True
  | .redis => True

/-- The hooks of an entry, if there are any, are no list, so that the entry is refused; or the hooks
and the validator of the module come back, and the entry has a type. -/
structure EntrySound (type : ThreadType) (entry : Setting) : Prop where
  /-- The entry is a group. -/
  isGroup : entry.isGroup = true
  /-- Everything that is looked at comes back. -/
  comesBack : (∃ hooks ∈ entry.getMember (ascii "hooks"), hooks.isList = false) ∨
    (∀ hooks ∈ entry.getMember (ascii "hooks"), Hooks.HooksSound hooks) ∧
      ∃ kind, entry.lookupString (ascii "type") = some kind ∧
        ∀ m ∈ validatorInit kind, ModuleSound type entry m

/-- The loop goes on behind an entry. -/
def Passes (type : ThreadType) (entry : Setting) : Prop :=
  ∃ s, ThreadLoop.step type .init entry = some s ∧ s.stopped = false

/-- Every entry that the loop comes to is sound. -/
def EntriesSound (type : ThreadType) (entries : List Setting) : Prop :=
  ∀ before entry after, entries = before ++ entry :: after → (∀ e ∈ before, Passes type e) →
    EntrySound type entry

/-- The hook points of the queue come back. -/
def QueueSound (queue : Setting) : Prop :=
  ∀ name ∈ [ascii "postadd", ascii "preget"], ∀ hooks ∈ queue.getMember name, Hooks.HooksSound hooks

/-- The entries of a list of consumers or producers are sound. -/
def ThreadsSound (type : ThreadType) (config : Setting) : Prop :=
  ∀ entries, config.getMember type.name = some (.list entries) → EntriesSound type entries

/-- Every entry was judged by its own type. -/
def OwnTypes (verdicts : List (Setting × CString)) : Prop :=
  ∀ v ∈ verdicts, v.1.lookupString (ascii "type") = some v.2

/-! ### The validators of the modules -/

theorem Module.validate_eq_crash_iff {type : ThreadType} {entry : Setting}
    (hgroup : entry.isGroup = true) (m : Module) :
    m.validate type entry = .error .crash ↔ ¬ ModuleSound type entry m := by
  cases m with
  | dummy => simp [Module.validate, ModuleSound]
  | file => simp only [Module.validate, ModuleSound]; split <;> simp
  | redis => simp only [Module.validate, ModuleSound]; split <;> simp
  | exports => simp [Module.validate, ModuleSound, map_eq_error_iff, exporterValidate_eq_crash_iff]
  | postgres => exact postgresValidate_eq_crash_iff
  | kafka =>
    cases type with
    | consumer =>
      rw [Module.validate, map_eq_error_iff]
      exact Kafka.kafkaConsumerValidator_eq_crash_iff hgroup
    | producer =>
      rw [Module.validate, map_eq_error_iff]
      exact Kafka.kafkaProducerValidator_eq_crash_iff

/-- The validators do not look at the hooks. -/
theorem moduleSound_congr {type : ThreadType} {entry child : Setting} {m : Module}
    (h : ∀ name, name ≠ ascii "hooks" → child.getMember name = entry.getMember name) :
    ModuleSound type child m ↔ ModuleSound type entry m := by
  have hhost := h (ascii "host") (by decide)
  have htopic := h (ascii "topic") (by decide)
  have hthreads := h (ascii "threads") (by decide)
  have hreplica := h (ascii "replica") (by decide)
  have hjpointers := h (ascii "jpointers") (by decide)
  have hgroupid := h (ascii "groupid") (by decide)
  have hoptions := h (ascii "kafka_options") (by decide)
  have hbroker := h (ascii "broker") (by decide)
  have htransactional := h (ascii "transactional") (by decide)
  have hopts := h (ascii "kafka_opts") (by decide)
  cases m with
  | exports =>
    simp only [ModuleSound, JpointersSound, Setting.lookupString, hhost, htopic, hjpointers]
  | postgres =>
    simp only [ModuleSound, PostgresSound, Setting.lookupString, Setting.lookupInt, hhost, htopic,
      hthreads, hreplica]
  | kafka =>
    cases type with
    | consumer =>
      simp only [ModuleSound, Kafka.ConsumerSound, Setting.lookupString, Setting.lookupBool,
        hgroupid, hoptions, hbroker, htransactional, htopic]
    | producer =>
      simp only [ModuleSound, Kafka.ProducerSound, Setting.lookupString, Setting.lookupBool,
        hbroker, htransactional, htopic, hopts]
  | _ => exact Iff.rfl

/-! ### One round of the loop -/

namespace ThreadLoop

variable {type : ThreadType} {s s' : ThreadLoop} {entry child : Setting}

/-- What a judgement does. -/
inductive Judged (type : ThreadType) (s : ThreadLoop) (child : Setting) (kind : CString) :
    ThreadLoop → Prop
  | unknown (hm : validatorInit kind = none) :
      Judged type s child kind (s.record child kind).refused
  | refuses (m : Module) (hm : validatorInit kind = some m)
      (hvalidate : m.validate type child = .error .refused) :
      Judged type s child kind (s.record child kind).refused
  | accepts (m : Module) (child' : Setting) (instances : List Setting)
      (hm : validatorInit kind = some m)
      (hvalidate : m.validate type child = .ok (child', instances)) :
      Judged type s child kind ((s.record child kind).accept child' instances)

/-- A judgement needs a type. -/
theorem Judged.of_judge (h : judge type s child = some s') :
    ∃ kind, s.confStr = some kind ∧ Judged type s child kind s' := by
  unfold judge at h
  split at h
  · cases h
  · rename_i kind hkind
    refine ⟨kind, hkind, ?_⟩
    split at h
    · rename_i hm
      obtain rfl := Option.some.inj h
      exact .unknown hm
    · rename_i m hm
      split at h
      · cases h
      · rename_i hvalidate
        obtain rfl := Option.some.inj h
        exact .refuses m hm hvalidate
      · rename_i child' instances hvalidate
        obtain rfl := Option.some.inj h
        exact .accepts m child' instances hm hvalidate

/-- A judgement by a type whose validator comes back comes back. -/
theorem exists_judge {kind : CString} (hkind : s.confStr = some kind)
    (h : ∀ m ∈ validatorInit kind, m.validate type child ≠ .error .crash) :
    ∃ s', judge type s child = some s' := by
  unfold judge
  rw [hkind]
  rcases hm : validatorInit kind with _ | m
  · exact ⟨_, by simp only [hm]; rfl⟩
  · rcases hvalidate : m.validate type child with (_ | _) | ⟨child', instances⟩
    · exact ⟨_, by simp only [hm, hvalidate]; rfl⟩
    · exact absurd hvalidate (h m hm)
    · exact ⟨_, by simp only [hm, hvalidate]; rfl⟩

theorem Judged.validate_ne_crash {kind : CString} (h : Judged type s child kind s') :
    ∀ m ∈ validatorInit kind, m.validate type child ≠ .error .crash := by
  intro m hmem
  cases h with
  | unknown hm =>
    rw [hm] at hmem
    cases hmem
  | refuses m' hm hvalidate =>
    obtain rfl := Option.some.inj (hm.symm.trans hmem)
    rw [hvalidate]
    exact refused_ne_crash
  | accepts m' child' instances hm hvalidate =>
    obtain rfl := Option.some.inj (hm.symm.trans hmem)
    rw [hvalidate]
    exact ok_ne_crash _

theorem Judged.verdicts {kind : CString} (h : Judged type s child kind s') :
    s'.verdicts = s.verdicts ++ [(child, kind)] := by
  cases h <;> rfl

/-- The loop goes on behind an entry that its validator accepts. -/
theorem Judged.stopped_iff {kind : CString} (h : Judged type s child kind s')
    (hs : s.stopped = false) :
    s'.stopped = false ↔ ∃ m ∈ validatorInit kind, ∃ r, m.validate type child = .ok r := by
  cases h with
  | unknown hm => simp [refused, hm]
  | refuses m hm hvalidate => simp [refused, hm, hvalidate]
  | accepts m child' instances hm hvalidate =>
    exact iff_of_true hs ⟨m, hm, _, hvalidate⟩

/-- The hooks of a group: what is there, or an empty list that is added. -/
theorem exists_hooklist (hgroup : entry.isGroup = true) :
    ∃ child, hooklist entry = some (child, (entry.getMember (ascii "hooks")).getD (.list [])) ∧
      child.isGroup = true ∧
      (child.getMember (ascii "hooks")).isSome = true ∧
      ∀ name, name ≠ ascii "hooks" → child.getMember name = entry.getMember name := by
  unfold hooklist
  cases hmember : entry.getMember (ascii "hooks") with
  | some hooks => exact ⟨entry, rfl, hgroup, by rw [hmember]; rfl, fun _ _ => rfl⟩
  | none =>
    obtain ⟨child, hadd⟩ := Setting.exists_add hgroup hmember (.list [])
    rw [hadd]
    refine ⟨child, rfl, ?_, ?_, fun name hne => Setting.getMember_add_of_ne hne hadd⟩
    · rw [Setting.isGroup_add hadd, hgroup]
    · rw [Setting.getMember_add_self hgroup hadd]
      rfl

/-- What a round does with a group, whatever the variables of the loop are: the hooks are no list,
or they do not come back, or the entry is judged with its hooks. -/
theorem round_cases (type : ThreadType) (hgroup : entry.isGroup = true) :
    ((∃ hooks ∈ entry.getMember (ascii "hooks"), hooks.isList = false) ∧
      ∀ s, round type s entry = some s.refused) ∨
    (¬ (∃ hooks ∈ entry.getMember (ascii "hooks"), hooks.isList = false) ∧
      (¬ ∀ hooks ∈ entry.getMember (ascii "hooks"), Hooks.HooksSound hooks) ∧
      ∀ s, round type s entry = none) ∨
    (¬ (∃ hooks ∈ entry.getMember (ascii "hooks"), hooks.isList = false) ∧
      (∀ hooks ∈ entry.getMember (ascii "hooks"), Hooks.HooksSound hooks) ∧
      ∃ child, child.isGroup = true ∧
        (∀ name, name ≠ ascii "hooks" → child.getMember name = entry.getMember name) ∧
        ∀ s, ∃ ret, round type s entry = judge type { s with ret := ret } child) := by
  obtain ⟨child, hhooklist, hchild, -, hframe⟩ := exists_hooklist hgroup
  -- An empty list in the place of missing hooks changes neither condition.
  have hlist : (∃ hooks ∈ entry.getMember (ascii "hooks"), hooks.isList = false) ↔
      ((entry.getMember (ascii "hooks")).getD (.list [])).isList = false := by
    cases entry.getMember (ascii "hooks") <;> simp [Setting.isList]
  have hsound : (∀ hooks ∈ entry.getMember (ascii "hooks"), Hooks.HooksSound hooks) ↔
      Hooks.HooksSound ((entry.getMember (ascii "hooks")).getD (.list [])) := by
    cases entry.getMember (ascii "hooks") <;> simp [Hooks.HooksSound]
  simp only [round, hhooklist, hlist, hsound]
  generalize (entry.getMember (ascii "hooks")).getD (.list []) = hooks
  rcases hisList : hooks.isList with _ | _
  · exact .inl ⟨rfl, fun s => rfl⟩
  · refine .inr ?_
    have hcrash : Hooks.HooksSound hooks ↔ Hooks.hooksValidate hooks ≠ .error .crash := by
      rw [Ne, Hooks.hooksValidate_eq_crash_iff, not_not]
    rcases hvalidate : Hooks.hooksValidate hooks with (_ | _) | hooks'
    · refine .inr ⟨Bool.false_ne_true.symm, hcrash.mpr ?_, child, hchild, hframe,
        fun s => ⟨false, rfl⟩⟩
      rw [hvalidate]
      exact refused_ne_crash
    · exact .inl ⟨Bool.false_ne_true.symm, fun h => hcrash.mp h hvalidate, fun s => rfl⟩
    · refine .inr ⟨Bool.false_ne_true.symm, hcrash.mpr ?_, child.set (ascii "hooks") hooks', ?_, ?_,
        fun s => ⟨s.ret, rfl⟩⟩
      · rw [hvalidate]
        exact ok_ne_crash hooks'
      · rw [Setting.isGroup_set, hchild]
      · exact fun name hne => (Setting.getMember_set_of_ne hne).trans (hframe name hne)

/-- An entry that is no group: it can hold no hooks, or it is judged without a type of its own. -/
theorem round_of_not_group (type : ThreadType) (hgroup : entry.isGroup = false) :
    (∀ s, round type s entry = none) ∨
      ∃ child, child.lookupString (ascii "type") = none ∧
        ∀ s, round type s entry = judge type s child := by
  cases entry with
  | list elements => exact .inr ⟨.list (elements ++ [.list []]), rfl, fun s => rfl⟩
  | group members => cases hgroup
  | _ => exact .inl fun s => rfl

/-- A judgement leaves the loop running and a type behind. -/
theorem readType_confStr {kind : CString} (hkind : entry.lookupString (ascii "type") = some kind) :
    (s.readType entry).confStr = some kind := by
  rw [readType, hkind]
  rfl

theorem step_eq_round (hs : s.stopped = false) :
    step type s entry = round type (s.readType entry) entry := by
  rw [step, hs]
  rfl

/-- A sound entry is judged by its own type, whatever the variables of the loop are, unless its
hooks are no list. -/
theorem step_of_sound_cases (h : EntrySound type entry) :
    (∀ s, s.stopped = false → step type s entry = some (s.readType entry).refused) ∨
      ∃ child kind, child.lookupString (ascii "type") = some kind ∧
        ∀ s, s.stopped = false → ∃ s', step type s entry = some s' ∧
          s'.verdicts = s.verdicts ++ [(child, kind)] ∧
          (s'.stopped = false ↔ ∃ m ∈ validatorInit kind, ∃ r, m.validate type child = .ok r) := by
  obtain ⟨-, hround⟩ | ⟨hlist, hhooks, -⟩ | ⟨hlist, -, child, hchild, hframe, hround⟩ :=
    round_cases type h.isGroup
  · exact .inl fun s hs => (step_eq_round hs).trans (hround _)
  · exact absurd (h.comesBack.resolve_left hlist).1 hhooks
  · obtain ⟨-, kind, hkind, hmodule⟩ := h.comesBack.resolve_left hlist
    refine .inr ⟨child, kind, ?_, fun s hs => ?_⟩
    · rw [Setting.lookupString, hframe _ (by decide)]
      exact hkind
    · obtain ⟨ret, hjudge⟩ := hround (s.readType entry)
      have hconf : ({ s.readType entry with ret := ret } : ThreadLoop).confStr = some kind :=
        readType_confStr hkind
      have hcomes : ∀ m ∈ validatorInit kind, m.validate type child ≠ .error .crash :=
        fun m hm => by
        rw [Ne, Module.validate_eq_crash_iff hchild, not_not, moduleSound_congr hframe]
        exact hmodule m hm
      obtain ⟨s', hs'⟩ := exists_judge hconf hcomes
      obtain ⟨kind', hkind', hjudged⟩ := Judged.of_judge hs'
      obtain rfl := Option.some.inj (hconf.symm.trans hkind')
      exact ⟨s', by rw [step_eq_round hs, hjudge, hs'], hjudged.verdicts, hjudged.stopped_iff hs⟩

theorem OwnTypes.concat {verdicts : List (Setting × CString)} {child : Setting} {kind : CString} :
    OwnTypes (verdicts ++ [(child, kind)]) ↔
      OwnTypes verdicts ∧ child.lookupString (ascii "type") = some kind := by
  simp [OwnTypes, or_imp, forall_and]

/-- The loop goes on behind a sound entry exactly if it does so at the beginning of a list. -/
theorem step_of_sound (hs : s.stopped = false) (hown : OwnTypes s.verdicts)
    (h : EntrySound type entry) :
    ∃ s', step type s entry = some s' ∧ OwnTypes s'.verdicts ∧
      (s'.stopped = false ↔ Passes type entry) := by
  obtain hrefused | ⟨child, kind, hkind, hstep⟩ := step_of_sound_cases h
  · refine ⟨_, hrefused s hs, hown, iff_of_false (fun hrun => nomatch hrun) ?_⟩
    rintro ⟨s', hs', hrun⟩
    obtain rfl := Option.some.inj ((hrefused .init rfl).symm.trans hs')
    cases hrun
  · obtain ⟨s', hs', hverdicts, hstopped⟩ := hstep s hs
    obtain ⟨t, ht, -, hstopped'⟩ := hstep .init rfl
    refine ⟨s', hs', ?_, ?_⟩
    · rw [hverdicts]
      exact OwnTypes.concat.mpr ⟨hown, hkind⟩
    · rw [hstopped, ← hstopped', Passes, ht]
      simp

/-- An entry that is not sound crashes the validation or is judged by the type of another one. -/
theorem step_of_not_sound (hs : s.stopped = false) (h : ¬ EntrySound type entry)
    (hstep : step type s entry = some s') : ¬ OwnTypes s'.verdicts := by
  rw [step_eq_round hs] at hstep
  by_cases hgroup : entry.isGroup = true
  · obtain ⟨hlist, -⟩ | ⟨-, -, hround⟩ | ⟨hlist, hhooks, child, hchild, hframe, hround⟩ :=
      round_cases type hgroup
    · exact absurd ⟨hgroup, .inl hlist⟩ h
    · rw [hround] at hstep
      cases hstep
    · obtain ⟨ret, hjudge⟩ := hround (s.readType entry)
      rw [hjudge] at hstep
      obtain ⟨kind, hkind, hjudged⟩ := Judged.of_judge hstep
      intro hown
      rw [hjudged.verdicts] at hown
      have hown := (OwnTypes.concat.mp hown).2
      rw [Setting.lookupString, hframe _ (by decide)] at hown
      refine h ⟨hgroup, .inr ⟨hhooks, kind, hown, fun m hm => ?_⟩⟩
      have hcrash := hjudged.validate_ne_crash m hm
      rwa [Ne, Module.validate_eq_crash_iff hchild, not_not, moduleSound_congr hframe] at hcrash
  · obtain hround | ⟨child, hnone, hround⟩ := round_of_not_group type (by simpa using hgroup)
    · rw [hround] at hstep
      cases hstep
    · rw [hround] at hstep
      obtain ⟨kind, hkind, hjudged⟩ := Judged.of_judge hstep
      intro hown
      rw [hjudged.verdicts] at hown
      have hown := (OwnTypes.concat.mp hown).2
      rw [hnone] at hown
      cases hown

/-- Verdicts are never taken back. -/
theorem mem_verdicts_of_step {v : Setting × CString} (hv : v ∈ s.verdicts)
    (hstep : step type s entry = some s') : v ∈ s'.verdicts := by
  have hjudge : ∀ {t t' : ThreadLoop} {child : Setting}, v ∈ t.verdicts →
      judge type t child = some t' →
      v ∈ t'.verdicts := by
    intro t t' child hv h
    obtain ⟨kind, -, hjudged⟩ := Judged.of_judge h
    rw [hjudged.verdicts]
    exact List.mem_append_left _ hv
  unfold step at hstep
  split at hstep
  · obtain rfl := Option.some.inj hstep
    exact hv
  · unfold round at hstep
    split at hstep
    · cases hstep
    · split at hstep
      · split at hstep
        · cases hstep
        · exact hjudge (by exact hv) hstep
        · exact hjudge (by exact hv) hstep
      · obtain rfl := Option.some.inj hstep
        exact hv

/-- A loop that was left stays as it is. -/
theorem exec_of_stopped (hs : s.stopped = true) (entries : List Setting) :
    exec (step type) s entries = some s := by
  induction entries with
  | nil => rfl
  | cons entry entries ih =>
    rw [exec_cons, step, if_pos hs, Option.bind_some, ih]

end ThreadLoop

/-! ### Lists of entries -/

theorem entriesSound_cons {type : ThreadType} {entry : Setting} {entries : List Setting} :
    EntriesSound type (entry :: entries) ↔
      EntrySound type entry ∧ (Passes type entry → EntriesSound type entries) := by
  constructor
  · intro h
    refine ⟨h [] entry entries rfl (List.forall_mem_nil _),
      fun hpasses before e after heq hbefore => ?_⟩
    refine h (entry :: before) e after (by rw [heq]; rfl) ?_
    exact List.forall_mem_cons.mpr ⟨hpasses, hbefore⟩
  · rintro ⟨hentry, hrest⟩ before e after heq hbefore
    cases before with
    | nil =>
      obtain ⟨rfl, -⟩ := List.cons.inj heq
      exact hentry
    | cons b before =>
      obtain ⟨rfl, rfl⟩ := List.cons.inj heq
      rw [List.forall_mem_cons] at hbefore
      exact hrest hbefore.1 before e after rfl hbefore.2

/-- The loop comes back, with every entry judged by its own type, exactly if the entries it comes to
are sound. -/
theorem exec_ownTypes_iff {type : ThreadType} {s : ThreadLoop} (hs : s.stopped = false)
    (hown : OwnTypes s.verdicts) (entries : List Setting) :
    (∃ s', exec (ThreadLoop.step type) s entries = some s' ∧ OwnTypes s'.verdicts) ↔
      EntriesSound type entries := by
  induction entries generalizing s with
  | nil =>
    refine iff_of_true ⟨s, rfl, hown⟩ fun before e after heq => ?_
    exact absurd (List.append_eq_nil_iff.mp heq.symm).2 (List.cons_ne_nil _ _)
  | cons entry entries ih =>
    rw [entriesSound_cons, exec_cons]
    by_cases hsound : EntrySound type entry
    · obtain ⟨t, ht, htown, hpasses⟩ := ThreadLoop.step_of_sound hs hown hsound
      rw [ht, Option.bind_some, and_iff_right hsound, ← hpasses]
      rcases hstopped : t.stopped with _ | _
      · rw [ih hstopped htown]
        simp
      · rw [ThreadLoop.exec_of_stopped hstopped]
        exact iff_of_true ⟨t, rfl, htown⟩ fun h => nomatch h
    · refine iff_of_false ?_ fun h => hsound h.1
      rintro ⟨s', hexec, hown'⟩
      obtain ⟨t, ht, hrest⟩ := Option.bind_eq_some_iff.mp hexec
      refine ThreadLoop.step_of_not_sound hs hsound ht fun v hv => hown' v ?_
      exact exec_invariant (P := fun t => v ∈ t.verdicts) hv
        (fun _ _ _ hv hst => ThreadLoop.mem_verdicts_of_step hv hst) hrest

/-! ### The queue -/

theorem hookPoint_eq_crash_iff {config : Setting} (hgroup : config.isGroup = true)
    {name : CString} :
    hookPoint config name = .error .crash ↔
      ∃ hooks ∈ config.getMember name, ¬ Hooks.HooksSound hooks := by
  unfold hookPoint
  rcases hname : config.getMember name with _ | hooks
  · obtain ⟨config', hadd⟩ := Setting.exists_add hgroup hname (.list [])
    simp [hadd]
  · simp [map_eq_error_iff, Hooks.hooksValidate_eq_crash_iff]

/-- A hook point leaves the other members alone. -/
theorem getMember_hookPoint {config config' : Setting} {name other : CString} (hne : other ≠ name)
    (h : hookPoint config name = .ok config') :
    config'.isGroup = config.isGroup ∧ config'.getMember other = config.getMember other := by
  unfold hookPoint at h
  split at h
  · rw [orCrash_eq_ok_iff] at h
    exact ⟨Setting.isGroup_add h, Setting.getMember_add_of_ne hne h⟩
  · obtain ⟨hooks, -, rfl⟩ := map_eq_ok_iff.mp h
    exact ⟨Setting.isGroup_set, Setting.getMember_set_of_ne hne⟩

theorem refuse_eq_crash_iff {α : Type} {x : Except Fault α} :
    refuse x = .error .crash ↔ x = .error .crash := by
  rcases x with (_ | _) | a <;> simp [refuse]

theorem queueSound_iff {queue : Setting} :
    ¬ QueueSound queue ↔ (∃ hooks ∈ queue.getMember (ascii "postadd"), ¬ Hooks.HooksSound hooks) ∨
      ∃ hooks ∈ queue.getMember (ascii "preget"), ¬ Hooks.HooksSound hooks := by
  simp [QueueSound, imp_iff_not_or, not_or]

theorem queueValidate_eq_crash_iff {queue : Setting} :
    queueValidate queue = .error .crash ↔ ¬ QueueSound queue := by
  rw [queueSound_iff, queueValidate]
  split
  · rename_i hgroup
    rw [← hookPoint_eq_crash_iff hgroup, ← hookPoint_eq_crash_iff hgroup, hookPoints]
    rcases hpostadd : hookPoint queue (ascii "postadd") with (_ | _) | queue'
    · simp [refuse_eq_crash_iff]
    · simp
    · have hne : ascii "preget" ≠ ascii "postadd" := by decide
      obtain ⟨hgroup', hpreget⟩ := getMember_hookPoint hne hpostadd
      simp [hookPoint_eq_crash_iff (hgroup'.trans hgroup), hookPoint_eq_crash_iff hgroup, hpreget]
  · rename_i hgroup
    have hnone : ∀ name, queue.getMember name = none := fun name => by
      rcases h : queue.getMember name with _ | child
      · rfl
      · exact absurd (Setting.isGroup_of_getMember h) hgroup
    simp [hnone]

/-! ### The whole configuration -/

theorem threadValidate_ownTypes_iff {type : ThreadType} {config : Setting} :
    (∃ v, threadValidate type config = some v ∧ OwnTypes v.verdicts) ↔
      ThreadsSound type config := by
  have hempty : OwnTypes [] := List.forall_mem_nil _
  unfold threadValidate ThreadsSound
  split
  · rename_i entries hentries
    simp only [hentries, Option.some.injEq, Setting.list.injEq, forall_eq']
    rw [← exec_ownTypes_iff (s := .init) rfl hempty]
    split
    · rename_i hnil
      exact iff_of_true ⟨_, rfl, hempty⟩ ⟨.init, by rw [hnil]; rfl, hempty⟩
    · simp
  · rename_i hlist
    exact iff_of_true ⟨_, rfl, hempty⟩ fun entries hentries => absurd hentries (hlist entries)

/-- The two lists come back with every entry judged by its own type exactly if each of them does. -/
theorem bind_ownTypes_iff {x y : Option ThreadVerdict} {f : ThreadVerdict → ThreadVerdict → Bool} :
    (∃ v : ConfigVerdict, (do
        let consumers ← x
        let producers ← y
        some ⟨f consumers producers, consumers.verdicts ++ producers.verdicts⟩) = some v ∧
        OwnTypes v.verdicts) ↔
      (∃ v, x = some v ∧ OwnTypes v.verdicts) ∧ ∃ v, y = some v ∧ OwnTypes v.verdicts := by
  cases x with
  | none => simp
  | some consumers =>
    cases y with
    | none => simp
    | some producers => simp [OwnTypes, or_imp, forall_and]

/-- `config_validate` comes back, with every entry judged by its own type, exactly if there is no
logger, so that nothing else is looked at, or the queue and the entries are sound. -/
theorem config_validate_total_iff (config : Setting) :
    (∃ v, configValidate config = some v ∧ OwnTypes v.verdicts) ↔
      config.getMember (ascii "logger") = none ∨
        QueueSound (queueOf config) ∧ ThreadsSound .consumer config ∧
        ThreadsSound .producer config := by
  rw [← threadValidate_ownTypes_iff, ← threadValidate_ownTypes_iff, configValidate]
  rcases config.getMember (ascii "logger") with _ | logger
  · exact iff_of_true ⟨_, rfl, List.forall_mem_nil _⟩ (.inl rfl)
  · rw [or_iff_right (Option.some_ne_none logger)]
    dsimp only
    have hqueue : queueValidate (queueOf config) = .error .crash ↔ _ := queueValidate_eq_crash_iff
    by_cases hsound : QueueSound (queueOf config)
    · -- neither the logger nor the queue crashes, and both loops are run
      rw [and_iff_right hsound]
      rcases hlogger : loggerValidate logger with (_ | _) | l
      · rcases hverdict : queueValidate (queueOf config) with (_ | _) | q
        · exact bind_ownTypes_iff
        · exact absurd hsound (hqueue.mp hverdict)
        · exact bind_ownTypes_iff
      · exact absurd hlogger (loggerValidate_ne_crash logger)
      · rcases hverdict : queueValidate (queueOf config) with (_ | _) | q
        · exact bind_ownTypes_iff
        · exact absurd hsound (hqueue.mp hverdict)
        · exact bind_ownTypes_iff
    · rw [hqueue.mpr hsound]
      refine iff_of_false ?_ fun h => hsound h.1
      rcases loggerValidate logger with (_ | _) | l <;> simp

/-- A configuration with a logger and one list of entries. -/
def withEntries (type : ThreadType) (entries : List Setting) : Setting :=
  .group [(ascii "logger", .group [(ascii "type", .string (ascii "null"))]),
    (type.name, .list entries)]

/-- A kafka consumer without a topic crashes the validation, and an entry without a type is judged
by the type of the entry before it. -/
theorem validation_not_total :
    configValidate (withEntries .consumer
      [.group [(ascii "type", .string (ascii "kafka")), (ascii "threads", .int 1),
        (ascii "broker", .string (ascii "b"))]]) = none ∧
    ∃ v ∈ configValidate (withEntries .consumer
      [.group [(ascii "type", .string (ascii "dummy")), (ascii "threads", .int 1)],
        .group [(ascii "threads", .int 1)]]), ∃ child, (child, ascii "dummy") ∈ v.verdicts ∧
          child.getMember (ascii "type") = none := by
  refine ⟨rfl, _, rfl, _, .tail _ (.head _), rfl⟩

end Schaufel
