import Schaufel.Config.Accepted
import Schaufel.Foundation.Grouping

/-!
# Producers for the masters of a host list

A postgres producer whose host names several masters stands for one producer for each of them.  The
validator turns the entry into the producer of the first master and appends the others to the list.
They should agree with the entry on everything but their host and their replica.

What is copied is the topic and the number of threads.  A producer of another master loses all other
settings of the entry, so that it writes with the default user, to the default database, in the
default format, without a mark and without hooks.  A list of 2 ^ 31 masters, the longest that is
parsed, has only the producer of the first one, since the number of masters is compared as an `int`.
-/

namespace Schaufel

/-! ### Faithful expansions -/

/-- The entry is a postgres producer. -/
def IsPostgres (entry : Setting) : Prop :=
  (entry.lookupString (ascii "type")).bind validatorInit = some .postgres

/-- The settings of an entry that have a clause of their own in `MasterCopy`. -/
def namedSettings : List CString :=
  [ascii "type", ascii "host", ascii "replica", ascii "topic", ascii "threads", ascii "hooks"]

/-- Producer `i` of an entry with these masters and replicas. -/
structure MasterCopy (entry : Setting) (masters replicas : List CString) (i : Nat) (e : Setting) :
    Prop where
  /-- It is a postgres producer, too. -/
  type : IsPostgres e
  /-- Its host is master `i`. -/
  host : e.lookupString (ascii "host") = masters[i]?
  /-- Its replica is replica `i`, if there are that many. -/
  replica : ∀ r ∈ replicas[i]?, e.lookupString (ascii "replica") = some r
  /-- Otherwise the host list gives it none, and it has what the entry has. -/
  noReplica : replicas[i]? = none →
      e.getMember (ascii "replica") = entry.getMember (ascii "replica")
  /-- It has the topic of the entry. -/
  topic : e.lookupString (ascii "topic") = entry.lookupString (ascii "topic")
  /-- It has the number of threads of the entry. -/
  threads : e.lookupInt (ascii "threads") = entry.lookupInt (ascii "threads")
  /-- It has the hooks of the entry, as they are checked. -/
  hooks : Hooks.hooksLoop (hookElements entry) = .ok (hookElements e)
  /-- It has all other settings of the entry. -/
  others : ∀ name, name ∉ namedSettings → e.getMember name = entry.getMember name

/-- A list of producers with one entry only. -/
def alone (entry : Setting) : Setting := .group [(ThreadType.producer.name, .list [entry])]

/-- A producer of another type. -/
structure Unaffected (entry e : Setting) : Prop where
  /-- It is what the validation makes of it in a list of its own: no other producer has an effect on
  it. -/
  alone : ∃ v, threadValidate .producer (alone entry) = some v ∧ v.entries = [e]
  /-- A producer whose validator sets no defaults keeps all its settings; its hooks are as they are
  checked. -/
  keeps : (entry.lookupString (ascii "type")).bind validatorInit ∈
    [some Module.dummy, some .file, some .redis] → Prepared entry e

/-- What a producer should be replaced by: a postgres producer by one producer for each master. -/
inductive Expanded (entry : Setting) : List Setting → Prop
  | postgres (hosts : CString) (group : List Setting) (htype : IsPostgres entry)
      (hhost : entry.lookupString (ascii "host") = some hosts)
      (hlength : group.length = (hostMasters hosts).length)
      (hcopy : ∀ i e, group[i]? = some e →
      MasterCopy entry (hostMasters hosts) (hostReplicas hosts) i e) :
      Expanded entry group
  | other (e : Setting) (htype : ¬ IsPostgres entry) (h : Unaffected entry e) : Expanded entry [e]

/-- A list of producers is replaced by the expansions of its entries. -/
def Faithful (entries result : List Setting) : Prop :=
  ∃ groups, List.Forall₂ Expanded entries groups ∧ result.Perm groups.flatten

/-- The settings of an entry that a producer of another master gets. -/
def copiedSettings : List CString :=
  [ascii "type", ascii "host", ascii "topic", ascii "threads", ascii "hooks"]

/-- An entry that a producer of another master agrees with. -/
structure Plain (entry : Setting) : Prop where
  /-- There are no hooks. -/
  hooks : hookElements entry = []
  /-- There are no settings that are not copied. -/
  others : ∀ name, name ∉ copiedSettings → entry.getMember name = none

/-! ### What the validator makes of an entry -/

/-- The producer of the first master. -/
structure FirstMaster (config : Setting) (masters replicas : List CString) (e : Setting) :
    Prop where
  host : e.lookupString (ascii "host") = masters[0]?
  replica : ∀ r ∈ replicas[0]?, e.lookupString (ascii "replica") = some r
  noReplica : replicas[0]? = none →
      e.getMember (ascii "replica") = config.getMember (ascii "replica")
  others : ∀ name, name ≠ ascii "host" → name ≠ ascii "replica" →
      e.getMember name = config.getMember name

/-- A producer of another master. -/
structure OtherMaster (topic : CString) (threads : Int32) (masters replicas : List CString)
    (i : Nat) (e : Setting) : Prop where
  type : e.lookupString (ascii "type") = some (ascii "postgres")
  host : e.lookupString (ascii "host") = masters[i]?
  replica : e.getMember (ascii "replica") = replicas[i]?.map .string
  topic : e.lookupString (ascii "topic") = some topic
  threads : e.lookupInt (ascii "threads") = some threads
  others : ∀ name,
      name ∉ [ascii "type", ascii "host", ascii "replica", ascii "topic", ascii "threads"] →
    e.getMember name = none

theorem otherMaster_postgresInstance {topic : CString} {threads : Int32}
    {master replica : Option StrArray} {masters replicas : List CString}
    (hmaster : Stores master masters) (hreplica : Stores replica replicas)
    (hfit : replicas.length ≤ 2 ^ 31) (i : Nat) :
    OtherMaster topic threads masters replicas i
      (postgresInstance topic threads master replica i) := by
  rw [postgresInstance, hmaster.2, hreplica.2]
  have hhost := Setting.getString_stringSetting masters[i]?
  rcases hr : replicas[i]? with _ | r
  · rw [if_neg (by simp), List.append_nil]
    refine ⟨rfl, hhost, by rw [hr]; rfl, rfl, rfl, fun name hname => ?_⟩
    simp only [List.mem_cons, List.not_mem_nil, or_false, not_or] at hname
    obtain ⟨htype, hhost, -, htopic, hthreads⟩ := hname
    rw [Setting.getMember_group_cons_of_ne htype, Setting.getMember_group_cons_of_ne hhost,
      Setting.getMember_group_cons_of_ne htopic, Setting.getMember_group_cons_of_ne hthreads]
    rfl
  · have hsome : hostCount replica ≠ 0 := by
      rw [Ne, hreplica.hostCount_eq_zero_iff hfit]
      rintro rfl
      cases hr
    rw [if_pos ⟨hsome, rfl⟩]
    refine ⟨rfl, hhost, by rw [hr]; rfl, rfl, rfl, fun name hname => ?_⟩
    simp only [List.mem_cons, List.not_mem_nil, or_false, not_or] at hname
    obtain ⟨htype, hhost, hreplica, htopic, hthreads⟩ := hname
    rw [List.cons_append, List.cons_append, List.cons_append, List.cons_append, List.nil_append,
      Setting.getMember_group_cons_of_ne htype, Setting.getMember_group_cons_of_ne hhost,
      Setting.getMember_group_cons_of_ne htopic, Setting.getMember_group_cons_of_ne hthreads,
      Setting.getMember_group_cons_of_ne hreplica]
    rfl

/-- What `postgres_validate` makes of a producer that it accepts. -/
structure MastersOf (config : Setting) (result : Setting × List Setting) (hosts topic : CString)
    (threads : Int32) : Prop where
  hasHost : config.lookupString (ascii "host") = some hosts
  hasThreads : config.lookupInt (ascii "threads") = some threads
  hasTopic : config.lookupString (ascii "topic") = some topic
  /-- A replica of the entry is not mixed with replicas of the host list. -/
  noConflict : hostReplicas hosts = [] ∨ config.getMember (ascii "replica") = none
  hasMaster : (hostMasters hosts).length ≠ 0
  /-- The masters fit into an array. -/
  fits : (hostMasters hosts).length ≤ 2 ^ 31
  /-- There is one producer for each master, if the number of masters is an `int`. -/
  length : result.2.length + 1 = producersFor (hostMasters hosts).length
  first : FirstMaster config (hostMasters hosts) (hostReplicas hosts) result.1
  rest : ∀ i e, result.2[i]? = some e →
    OtherMaster topic threads (hostMasters hosts) (hostReplicas hosts) (i + 1) e

theorem firstMaster_addReplica {config config' : Setting} {hosts : CString}
    {master replica : Option StrArray} {masters replicas : List CString}
    (hhost : config.lookupString (ascii "host") = some hosts) (hmaster : Stores master masters)
    (hreplica : Stores replica replicas) (hfit : replicas.length ≤ 2 ^ 31)
    (h : addReplica (config.set (ascii "host") (Setting.stringSetting (arrayGet master 0)))
      replica =
      .ok config') :
    FirstMaster config masters replicas config' ∧
      (replicas = [] ∨ config.getMember (ascii "replica") = none) := by
  have hne : ascii "replica" ≠ ascii "host" := by decide
  have hmember := Setting.getMember_of_lookupString hhost
  have hgroup := Setting.isGroup_of_getMember hmember
  rw [hmaster.2] at h
  have hhost' : (config.set (ascii "host") (Setting.stringSetting masters[0]?)).lookupString
      (ascii "host") =
      masters[0]? := by
    rw [Setting.lookupString, Setting.getMember_set_self (by rw [hmember]; rfl)]
    exact Setting.getString_stringSetting _
  unfold addReplica at h
  rw [hreplica.2] at h
  split_ifs at h with hused
  · obtain rfl := Except.ok.inj h
    have hnil := (hreplica.hostCount_eq_zero_iff hfit).mp hused
    refine ⟨⟨hhost', ?_, fun _ => Setting.getMember_set_of_ne hne, fun name hname _ => ?_⟩,
      .inl hnil⟩
    · rw [hnil]
      simp
    · exact Setting.getMember_set_of_ne hname
  · rw [orCrash_eq_ok_iff] at h
    have hgroup' : (config.set (ascii "host") (Setting.stringSetting masters[0]?)).isGroup =
        true := by
      rw [Setting.isGroup_set, hgroup]
    have hfree : (config.set (ascii "host") (Setting.stringSetting masters[0]?)).getMember
        (ascii "replica") =
        none := by
      rw [← Option.not_isSome_iff_eq_none, ← Setting.add_eq_none_iff hgroup', h]
      simp
    refine ⟨⟨?_, fun r hr => ?_, fun hnone => ?_, fun name hname hname' => ?_⟩, .inr ?_⟩
    · rw [Setting.lookupString, Setting.getMember_add_of_ne hne.symm h]
      exact hhost'
    · rw [Setting.lookupString, Setting.getMember_add_self hgroup' h, hr]
      rfl
    · exact absurd ((hreplica.hostCount_eq_zero_iff hfit).mpr (by simpa using hnone)) hused
    · rw [Setting.getMember_add_of_ne hname' h, Setting.getMember_set_of_ne hname]
    · rwa [Setting.getMember_set_of_ne hne] at hfree

theorem mastersOf_postgresValidate {config : Setting} {result : Setting × List Setting}
    (h : postgresValidate config = .ok result) :
    ∃ hosts topic threads, MastersOf config result hosts topic threads := by
  unfold postgresValidate at h
  split at h
  · rename_i hosts threads hhost hthreads
    obtain ⟨master, hm, h⟩ := bind_eq_ok_iff.mp h
    obtain ⟨replica, hr, h⟩ := bind_eq_ok_iff.mp h
    rw [orCrash_eq_ok_iff] at hm hr
    have hfit := hostsFit_of_parseHostinfo hm hr
    obtain ⟨master', replica', hm', hr', hmaster, hreplica⟩ := exists_hostArrays hfit
    obtain rfl := Option.some.inj (hm.symm.trans hm')
    obtain rfl := Option.some.inj (hr.symm.trans hr')
    unfold postgresExpand at h
    split at h
    · cases h
    · rename_i topic htopic
      split_ifs at h with hconflict hnone
      obtain ⟨config', hadd, rfl⟩ := map_eq_ok_iff.mp h
      obtain ⟨hfirst, hfree⟩ := firstMaster_addReplica hhost hmaster hreplica hfit.replicas hadd
      have hmasters : (hostMasters hosts).length ≠ 0 := by
        rwa [hmaster.hostCount_eq_zero_iff hfit.masters, ← List.length_eq_zero_iff] at hnone
      refine ⟨hosts, topic, threads, hhost, hthreads, htopic, hfree, hmasters, hfit.masters, ?_,
        hfirst, fun i e he => ?_⟩
      · rw [List.length_map, List.length_range', hostCount, hmaster.1]
        rfl
      · rw [List.getElem?_map, Option.map_eq_some_iff] at he
        obtain ⟨j, hj, rfl⟩ := he
        obtain ⟨hlt, hget⟩ := List.getElem?_eq_some_iff.mp hj
        rw [List.getElem_range', Nat.one_mul, Nat.add_comm] at hget
        rw [← hget]
        exact otherMaster_postgresInstance hmaster hreplica hfit.replicas (i + 1)
  · cases h

/-! ### Producers that are produced -/

/-- The producers that the validation makes of an entry. -/
def Produced (entry : Setting) (group : List Setting) : Prop :=
  ∃ result, Accepted .producer entry result ∧ group = result.1 :: result.2

theorem produced_of_threadValidate {config : Setting} {entries : List Setting} {v : ThreadVerdict}
    (hentries : config.getMember ThreadType.producer.name = some (.list entries))
    (hv : threadValidate .producer config = some v) (haccepted : v.accepted = true) :
    ∃ groups, List.Forall₂ Produced entries groups ∧ v.entries.Perm groups.flatten := by
  obtain ⟨results, hresults, hv⟩ := accepted_of_threadValidate hentries hv haccepted
  refine ⟨results.map fun result => result.1 :: result.2, ?_, ?_⟩
  · rw [List.forall₂_map_right_iff]
    exact hresults.imp fun entry result h => ⟨result, h, rfl⟩
  · rw [hv, ← List.flatMap_def]
    exact List.map_append_flatMap_perm results Prod.fst Prod.snd

/-- The validator gets the settings of the entry. -/
theorem Prepared.lookupString {entry child : Setting} (h : Prepared entry child) {name : CString}
    (hne : name ≠ ascii "hooks") : child.lookupString name = entry.lookupString name := by
  rw [Setting.lookupString, h.others name hne]
  rfl

/-- An accepted postgres producer goes through `postgres_validate`. -/
theorem Accepted.masters {entry : Setting} {result : Setting × List Setting}
    (h : Accepted .producer entry result) (htype : IsPostgres entry) :
    ∃ child hosts topic threads, Prepared entry child ∧
      MastersOf child result hosts topic threads := by
  obtain ⟨child, kind, m, hprepared, hkind, hm, hvalidate⟩ := h.validated
  have hpostgres : m = .postgres := by
    rw [IsPostgres, hkind, Option.bind_some, hm] at htype
    exact Option.some.inj htype
  rw [hpostgres] at hvalidate
  obtain ⟨hosts, topic, threads, hmasters⟩ := mastersOf_postgresValidate hvalidate
  exact ⟨child, hosts, topic, threads, hprepared, hmasters⟩

/-- What becomes of an accepted producer in a list of its own. -/
theorem Accepted.alone {entry : Setting} {result : Setting × List Setting}
    (h : Accepted .producer entry result) :
    ∃ v, threadValidate .producer (alone entry) = some v ∧ v.entries = result.1 :: result.2 := by
  obtain ⟨child, kind, hstep⟩ := h.step .init rfl
  have hentries : (Schaufel.alone entry).getMember ThreadType.producer.name =
      some (.list [entry]) := rfl
  simp only [threadValidate, hentries, if_neg (List.cons_ne_nil entry []), exec_cons, hstep]
  exact ⟨_, rfl, rfl⟩

/-- An accepted producer of another type appends nothing. -/
theorem Accepted.unaffected {entry : Setting} {result : Setting × List Setting}
    (h : Accepted .producer entry result) (htype : ¬ IsPostgres entry) :
    result.2 = [] ∧ Unaffected entry result.1 := by
  obtain ⟨child, kind, m, hprepared, hkind, hm, hvalidate⟩ := h.validated
  have hmodule : (entry.lookupString (ascii "type")).bind validatorInit = some m := by
    rw [hkind, Option.bind_some, hm]
  have hresult : result.2 = [] ∧ (m ∈ [Module.dummy, .file, .redis] → result.1 = child) := by
    cases m with
    | postgres => exact absurd hmodule htype
    | dummy => 
      obtain rfl := Except.ok.inj hvalidate
      exact ⟨rfl, fun _ => rfl⟩
    | file =>
      rw [Module.validate] at hvalidate
      split_ifs at hvalidate
      obtain rfl := Except.ok.inj hvalidate
      exact ⟨rfl, fun _ => rfl⟩
    | redis =>
      rw [Module.validate] at hvalidate
      split_ifs at hvalidate
      obtain rfl := Except.ok.inj hvalidate
      exact ⟨rfl, fun _ => rfl⟩
    | exports =>
      obtain ⟨config, -, rfl⟩ := map_eq_ok_iff.mp hvalidate
      exact ⟨rfl, fun hmem => by simp at hmem⟩
    | kafka =>
      obtain ⟨config, -, rfl⟩ := map_eq_ok_iff.mp hvalidate
      exact ⟨rfl, fun hmem => by simp at hmem⟩
  obtain ⟨hnil, hsame⟩ := hresult
  refine ⟨hnil, ?_, fun hmem => ?_⟩
  · obtain ⟨v, hv, hentries⟩ := h.alone
    exact ⟨v, hv, by rw [hentries, hnil]⟩
  · rw [hmodule] at hmem
    rw [hsame (by simpa using hmem)]
    exact hprepared

/-- The producer of the first master agrees with the entry. -/
theorem MastersOf.copy_first {entry child : Setting} {result : Setting × List Setting}
    {hosts topic : CString} {threads : Int32} (h : MastersOf child result hosts topic threads)
    (hprepared : Prepared entry child) (htype : IsPostgres entry) :
    MasterCopy entry (hostMasters hosts) (hostReplicas hosts) 0 result.1 := by
  have hothers : ∀ name, name ≠ ascii "host" → name ≠ ascii "replica" → name ≠ ascii "hooks" →
      result.1.getMember name = entry.getMember name := fun name hhost hreplica hhooks =>
    (h.first.others name hhost hreplica).trans (hprepared.others name hhooks)
  refine ⟨?_, h.first.host, h.first.replica, fun hnone => ?_, ?_, ?_, ?_, fun name hname => ?_⟩
  · rw [IsPostgres, Setting.lookupString, hothers _ (by decide) (by decide) (by decide)]
    exact htype
  · rw [h.first.noReplica hnone]
    exact hprepared.others _ (by decide)
  · rw [Setting.lookupString, hothers _ (by decide) (by decide) (by decide)]
    rfl
  · rw [Setting.lookupInt, hothers _ (by decide) (by decide) (by decide)]
    rfl
  · rw [hookElements_congr (h.first.others _ (by decide) (by decide))]
    exact hprepared.hooks
  · simp only [namedSettings, List.mem_cons, List.not_mem_nil, or_false, not_or] at hname
    exact hothers name hname.2.1 hname.2.2.1 hname.2.2.2.2.2

/-- A producer of another master agrees with a plain entry. -/
theorem OtherMaster.copy {entry e : Setting} {masters replicas : List CString} {topic : CString}
    {threads : Int32} {i : Nat} (h : OtherMaster topic threads masters replicas i e)
    (htopic : entry.lookupString (ascii "topic") = some topic)
    (hthreads : entry.lookupInt (ascii "threads") = some threads) (hplain : Plain entry) :
    MasterCopy entry masters replicas i e := by
  refine ⟨?_, h.host, fun r hr => ?_, fun hnone => ?_, ?_, ?_, ?_, fun name hname => ?_⟩
  · rw [IsPostgres, h.type]
    rfl
  · rw [Setting.lookupString, h.replica, hr]
    rfl
  · rw [h.replica, hnone, hplain.others _ (by decide)]
    rfl
  · rw [h.topic, htopic]
  · rw [h.threads, hthreads]
  · rw [hplain.hooks, hookElements, h.others _ (by decide)]
    rfl
  · simp only [namedSettings, List.mem_cons, List.not_mem_nil, or_false, not_or] at hname
    rw [h.others name (by simp [hname]), hplain.others name (by simp [copiedSettings, hname])]

/-- There is one producer for each master if the number of masters is an `int`, and one in all if
not. -/
theorem MastersOf.length_eq {config : Setting} {result : Setting × List Setting}
    {hosts topic : CString} {threads : Int32} (h : MastersOf config result hosts topic threads) :
    result.2.length + 1 =
      if (hostMasters hosts).length < 2 ^ 31 then (hostMasters hosts).length else 1 :=
  h.length.trans (producersFor_eq h.hasMaster h.fits)

/-- An entry is expanded faithfully if it has nothing to lose. -/
theorem Produced.expanded {entry : Setting} {group : List Setting} (h : Produced entry group)
    (hplain : IsPostgres entry → ∀ hosts ∈ entry.lookupString (ascii "host"),
      2 ≤ (hostMasters hosts).length → (hostMasters hosts).length < 2 ^ 31 ∧ Plain entry) :
    Expanded entry group := by
  obtain ⟨result, haccepted, rfl⟩ := h
  by_cases htype : IsPostgres entry
  · obtain ⟨child, hosts, topic, threads, hprepared, hmasters⟩ := haccepted.masters htype
    have hhost : entry.lookupString (ascii "host") = some hosts :=
      (hprepared.lookupString (by decide)).symm.trans hmasters.hasHost
    have hsome := hmasters.hasMaster
    have hlength := hmasters.length_eq
    have hlt : (hostMasters hosts).length < 2 ^ 31 := by
      by_cases htwo : 2 ≤ (hostMasters hosts).length
      · exact (hplain htype hosts hhost htwo).1
      · omega
    rw [if_pos hlt] at hlength
    refine .postgres hosts _ htype hhost hlength fun i e he => ?_
    cases i with
    | zero =>
      obtain rfl := Option.some.inj he
      exact hmasters.copy_first hprepared htype
    | succ i =>
      rw [List.getElem?_cons_succ] at he
      have hi := (List.getElem?_eq_some_iff.mp he).1
      refine (hmasters.rest i e he).copy ?_ ?_ (hplain htype hosts hhost (by omega)).2
      · exact (hprepared.lookupString (by decide)).symm.trans hmasters.hasTopic
      · rw [← hmasters.hasThreads, Setting.lookupInt, Setting.lookupInt,
          hprepared.others _ (by decide)]
  · obtain ⟨hnil, hunaffected⟩ := haccepted.unaffected htype
    rw [hnil]
    exact .other result.1 htype hunaffected

/-! ### What a producer of another master loses -/

/-- A property that passes from a producer of the validation to the producer it should be. -/
structure Passed (p : Setting → Bool) : Prop where
  /-- Two copies for one master have it both or not at all. -/
  copy : ∀ {entry e e' masters replicas i}, MasterCopy entry masters replicas i e →
    MasterCopy entry masters replicas i e' → p e = true → p e' = true
  /-- A producer of another master does not have it without the entry. -/
  other : ∀ {entry e e' topic threads masters replicas i},
      OtherMaster topic threads masters replicas i e →
    MasterCopy entry masters replicas i e' → p e = true → p e' = true

/-- The entry has a setting. -/
def hasMember (name : CString) (entry : Setting) : Bool := (entry.getMember name).isSome

/-- The entry has hooks. -/
def hasHooks (entry : Setting) : Bool := !(hookElements entry).isEmpty

/-- A copy has a replica from the host list or from the entry. -/
theorem MasterCopy.hasReplica_iff {entry e : Setting} {masters replicas : List CString} {i : Nat}
    (h : MasterCopy entry masters replicas i e) :
    hasMember (ascii "replica") e = true ↔
      (∃ r, replicas[i]? = some r) ∨
      hasMember (ascii "replica") entry = true ∧ replicas[i]? = none := by
  rcases hr : replicas[i]? with _ | r
  · simp [hasMember, h.noReplica hr]
  · have hmember := Setting.getMember_of_lookupString (h.replica r hr)
    simp [hasMember, hmember]

theorem passed_hasMember {name : CString} (hname : name ∉ copiedSettings) :
    Passed (hasMember name) := by
  by_cases hreplica : name = ascii "replica"
  · subst hreplica
    refine ⟨fun h h' => ?_, fun h h' he => ?_⟩
    · rw [h.hasReplica_iff, h'.hasReplica_iff]
      exact id
    · rw [hasMember, h.replica, Option.isSome_map] at he
      exact h'.hasReplica_iff.mpr (.inl (Option.isSome_iff_exists.mp he))
  · simp only [copiedSettings, List.mem_cons, List.not_mem_nil, or_false, not_or] at hname
    have hnamed : name ∉ namedSettings := by simp [namedSettings, hname, hreplica]
    refine ⟨fun h h' => ?_, fun h h' he => ?_⟩
    · rw [hasMember, hasMember, h.others name hnamed, h'.others name hnamed]
      exact id
    · rw [hasMember, h.others name (by simp [hname, hreplica])] at he
      cases he

theorem OtherMaster.hookElements {e : Setting} {masters replicas : List CString} {topic : CString}
    {threads : Int32} {i : Nat} (h : OtherMaster topic threads masters replicas i e) :
    hookElements e = [] := by
  rw [Schaufel.hookElements, h.others _ (by decide)]
  rfl

theorem passed_hasHooks : Passed hasHooks := by
  refine ⟨fun h h' => ?_, fun h h' he => ?_⟩
  · rw [hasHooks, hasHooks, Except.ok.inj (h.hooks.symm.trans h'.hooks)]
    exact id
  · rw [hasHooks, h.hookElements] at he
    cases he

/-- The number of masters of a postgres producer is an `int`. -/
def IntMasters (entry : Setting) : Prop :=
  IsPostgres entry → ∀ hosts ∈ entry.lookupString (ascii "host"),
  (hostMasters hosts).length < 2 ^ 31

/-- The validation never makes more producers of an entry than it should. -/
theorem Produced.length_le {entry : Setting} {group expansion : List Setting}
    (hgroup : Produced entry group) (hexpansion : Expanded entry expansion) :
    group.length ≤ expansion.length ∧ (group.length = expansion.length → IntMasters entry) := by
  obtain ⟨result, haccepted, rfl⟩ := hgroup
  cases hexpansion with
  | postgres hosts expansion htype hhost hlength hcopy =>
    obtain ⟨child, hosts', topic, threads, hprepared, hmasters⟩ := haccepted.masters htype
    obtain rfl : hosts' = hosts := Option.some.inj <| hmasters.hasHost.symm.trans
      ((hprepared.lookupString (by decide)).trans hhost)
    have hsome := hmasters.hasMaster
    have hcount := hmasters.length_eq
    rw [List.length_cons, hcount, hlength]
    refine ⟨by split_ifs <;> omega, fun heq _ hosts hhost' => ?_⟩
    obtain rfl := Option.some.inj (hhost.symm.trans hhost')
    by_contra hlt
    rw [if_neg hlt] at heq
    omega
  | other e htype h =>
    obtain ⟨hnil, -⟩ := haccepted.unaffected htype
    rw [hnil]
    exact ⟨Nat.le_refl _, fun _ htype' => absurd htype' htype⟩

/-- In a faithful expansion the numbers of masters are `int`s. -/
theorem Faithful.intMasters {entries : List Setting} {groups : List (List Setting)}
    {result : List Setting} (h : Faithful entries result)
    (hgroups : List.Forall₂ Produced entries groups) (hperm : result.Perm groups.flatten) :
    ∀ entry ∈ entries, IntMasters entry := by
  intro entry hentry
  obtain ⟨expansions, hexpansions, hperm'⟩ := h
  obtain ⟨group, expansion, hgroup, hexpansion, hlength⟩ :=
    length_eq_of_perm_flatten hgroups hexpansions (fun _ _ _ hgroup hexpansion =>
      (hgroup.length_le hexpansion).1) (hperm.symm.trans hperm') entry hentry
  exact (hgroup.length_le hexpansion).2 hlength

/-- The producers of the validation have such a property in no place where it should not be. -/
theorem Produced.forall₂_of_passed {p : Setting → Bool} (hp : Passed p) {entry : Setting}
    {group expansion : List Setting} (hgroup : Produced entry group) (hint : IntMasters entry)
    (hexpansion : Expanded entry expansion) :
    List.Forall₂ (fun e e' => p e = true → p e' = true) group expansion := by
  obtain ⟨result, haccepted, rfl⟩ := hgroup
  cases hexpansion with
  | postgres hosts group htype hhost hlength hcopy =>
    obtain ⟨child, hosts', topic, threads, hprepared, hmasters⟩ := haccepted.masters htype
    obtain rfl : hosts' = hosts := Option.some.inj <| hmasters.hasHost.symm.trans
      ((hprepared.lookupString (by decide)).trans hhost)
    have hcount := hmasters.length_eq
    rw [if_pos (hint htype _ hhost)] at hcount
    refine List.forall₂_iff_get.mpr ⟨hcount.trans hlength.symm, fun i hi hi' => ?_⟩
    have hcopy := hcopy i _ (List.getElem?_eq_getElem hi')
    cases i with
    | zero => exact hp.copy (hmasters.copy_first hprepared htype) hcopy
    | succ i =>
      exact hp.other (hmasters.rest i _ (List.getElem?_eq_getElem (Nat.lt_of_succ_lt_succ hi)))
        hcopy
  | other e htype h =>
    obtain ⟨hnil, hunaffected⟩ := haccepted.unaffected htype
    obtain ⟨v, hv, hentries⟩ := haccepted.alone
    obtain ⟨v', hv', hentries'⟩ := h.alone
    obtain rfl := Option.some.inj (hv.symm.trans hv')
    rw [← hentries', hentries]
    exact List.forall₂_same.mpr fun _ _ h => h

/-- In a faithful expansion, the producer of the second master has such a property if it should. -/
theorem Faithful.second {entries : List Setting} {groups : List (List Setting)}
    {result : List Setting} (h : Faithful entries result)
    (hgroups : List.Forall₂ Produced entries groups) (hperm : result.Perm groups.flatten)
    {entry : Setting} (hentry : entry ∈ entries) (htype : IsPostgres entry) {hosts : CString}
    (hhost : entry.lookupString (ascii "host") = some hosts) (htwo : 2 ≤ (hostMasters hosts).length)
    {p : Setting → Bool} (hp : Passed p) :
    (hostReplicas hosts = [] ∨ entry.getMember (ascii "replica") = none) ∧
      ∃ e e' topic threads, OtherMaster topic threads (hostMasters hosts) (hostReplicas hosts) 1 e ∧
        MasterCopy entry (hostMasters hosts) (hostReplicas hosts) 1 e' ∧
        (p e' = true → p e = true) := by
  have hint := h.intMasters hgroups hperm
  obtain ⟨expansions, hexpansions, hperm'⟩ := h
  have himp : ∀ entry group expansion, IntMasters entry ∧ Produced entry group →
      Expanded entry expansion →
      List.Forall₂ (fun e e' => p e = true → p e' = true) group expansion :=
    fun _ _ _ hgroup hexpansion => hgroup.2.forall₂_of_passed hp hgroup.1 hexpansion
  obtain ⟨group, expansion, ⟨-, r, haccepted, rfl⟩, hexpansion, hback⟩ :=
    forall₂_of_perm_flatten ((List.forall₂_and_left _ _).mpr ⟨hint, hgroups⟩) hexpansions himp
      (hperm.symm.trans hperm') entry hentry
  obtain ⟨child, hosts', topic, threads, hprepared, hmasters⟩ := haccepted.masters htype
  obtain rfl : hosts' = hosts := Option.some.inj <| hmasters.hasHost.symm.trans
    ((hprepared.lookupString (by decide)).trans hhost)
  cases hexpansion with
  | other e htype' => exact absurd htype htype'
  | postgres hosts'' _ htype' hhost' hlength hcopy =>
    obtain rfl := Option.some.inj (hhost'.symm.trans hhost)
    have hrest : 0 < r.2.length := by
      have hcount := hmasters.length_eq
      rw [if_pos (hint entry hentry htype _ hhost)] at hcount
      omega
    have hsecond : 1 < expansion.length := by omega
    refine ⟨?_, r.2[0], expansion[1], topic, threads, ?_, ?_, ?_⟩
    · rw [← hprepared.others _ (by decide)]
      exact hmasters.noConflict
    · exact hmasters.rest 0 _ (List.getElem?_eq_getElem hrest)
    · exact hcopy 1 _ (List.getElem?_eq_getElem hsecond)
    · exact (List.forall₂_iff_get.mp hback).2 1 (Nat.succ_lt_succ hrest) hsecond

/-- An accepted list of producers is expanded faithfully exactly if no postgres producer of several
masters has something to lose, and their number is an `int`. -/
theorem postgres_expansion_faithful_iff {config : Setting} {entries : List Setting}
    {v : ThreadVerdict}
    (hentries : config.getMember ThreadType.producer.name = some (.list entries))
    (hv : threadValidate .producer config = some v) (haccepted : v.accepted = true) :
    Faithful entries v.entries ↔
      ∀ entry ∈ entries, IsPostgres entry → ∀ hosts ∈ entry.lookupString (ascii "host"),
        2 ≤ (hostMasters hosts).length → (hostMasters hosts).length < 2 ^ 31 ∧ Plain entry := by
  obtain ⟨groups, hgroups, hperm⟩ := produced_of_threadValidate hentries hv haccepted
  constructor
  · intro h entry hentry htype hosts hhost htwo
    refine ⟨h.intMasters hgroups hperm entry hentry htype hosts hhost, ?_, fun name hname => ?_⟩
    · obtain ⟨-, e, e', topic, threads, hother, hcopy, hback⟩ :=
        h.second hgroups hperm hentry htype hhost htwo passed_hasHooks
      have hnil : hookElements e' = [] := by
        by_contra hne
        have hhooks := hback (by simpa [hasHooks] using hne)
        rw [hasHooks, hother.hookElements] at hhooks
        cases hhooks
      have hloop := hcopy.hooks
      rwa [hnil, Hooks.hooksLoop_eq_ok_iff, List.forall₂_nil_right_iff] at hloop
    · obtain ⟨hconflict, e, e', topic, threads, hother, hcopy, hback⟩ :=
        h.second hgroups hperm hentry htype hhost htwo (passed_hasMember hname)
      by_contra hsome
      have hhas : hasMember name entry = true := Option.isSome_iff_ne_none.mpr hsome
      by_cases hreplica : name = ascii "replica"
      · subst hreplica
        have hnone : (hostReplicas hosts)[1]? = none := by rw [hconflict.resolve_right hsome]; rfl
        have hmember := hback (hcopy.hasReplica_iff.mpr (.inr ⟨hhas, hnone⟩))
        rw [hasMember, hother.replica, hnone] at hmember
        cases hmember
      · simp only [copiedSettings, List.mem_cons, List.not_mem_nil, or_false, not_or] at hname
        have hnamed : name ∉ namedSettings := by simp [namedSettings, hname, hreplica]
        have hmember := hback (by rw [hasMember, hcopy.others name hnamed]; exact hhas)
        rw [hasMember, hother.others name (by simp [hname, hreplica])] at hmember
        cases hmember
  · intro hplain
    refine ⟨groups, ?_, hperm⟩
    refine ((List.forall₂_and_left _ _).mpr ⟨hplain, hgroups⟩).imp ?_
    rintro entry group ⟨hplain, hproduced⟩
    exact hproduced.expanded hplain

/-- A postgres producer with two masters, one replica and further settings. -/
def twoMasters (settings : List (CString × Setting)) : Setting :=
  .group ([(ascii "type", .string (ascii "postgres")), (ascii "threads", .int 5),
    (ascii "topic", .string (ascii "15")), (ascii "host", .string (ascii "a:1,b:2;c:3"))] ++
      settings)

/-- The producer of the second master in such a list. -/
def secondMaster : Setting :=
  .group [(ascii "type", .string (ascii "postgres")), (ascii "host", .string (ascii "b:2")),
    (ascii "topic", .string (ascii "15")), (ascii "threads", .int 5)]

theorem plain_twoMasters : Plain (twoMasters []) := by
  refine ⟨rfl, fun name hname => ?_⟩
  simp only [copiedSettings, List.mem_cons, List.not_mem_nil, or_false, not_or] at hname
  obtain ⟨htype, hhost, htopic, hthreads, -⟩ := hname
  rw [twoMasters, List.append_nil, Setting.getMember_group_cons_of_ne htype,
    Setting.getMember_group_cons_of_ne hthreads, Setting.getMember_group_cons_of_ne htopic,
    Setting.getMember_group_cons_of_ne hhost]
  rfl

/-- Two masters without further settings are expanded faithfully. -/
theorem plain_masters_expanded :
    ∃ e verdicts, threadValidate .producer (alone (twoMasters [])) =
      some ⟨true, [e, secondMaster], verdicts⟩ ∧
      Faithful [twoMasters []] [e, secondMaster] := by
  refine ⟨_, _, rfl, ?_⟩
  refine (@postgres_expansion_faithful_iff (alone (twoMasters [])) [twoMasters []]
    ⟨true, _, _⟩ rfl rfl
    rfl).mpr ?_
  rintro entry hentry - hosts hhost -
  obtain rfl := List.mem_singleton.mp hentry
  obtain rfl := Option.some.inj hhost
  exact ⟨by decide, plain_twoMasters⟩

/-- The producer of a second master loses the user of the entry. -/
theorem second_master_loses_user :
    ∃ e verdicts,
      threadValidate .producer (alone (twoMasters [(ascii "user", .string (ascii "u"))])) =
        some ⟨true, [e, secondMaster], verdicts⟩ ∧
      ¬ Faithful [twoMasters [(ascii "user", .string (ascii "u"))]] [e, secondMaster] := by
  refine ⟨_, _, rfl, ?_⟩
  rintro ⟨groups, hgroups, hperm⟩
  obtain ⟨group, rest, hexpanded, hrest, rfl⟩ := List.forall₂_cons_left_iff.mp hgroups
  obtain rfl := List.forall₂_nil_left_iff.mp hrest
  have hmem := hperm.subset (.tail _ (.head _))
  rw [List.flatten_singleton] at hmem
  cases hexpanded with
  | other e htype => exact htype rfl
  | postgres hosts _ htype hhost hlength hcopy =>
    obtain ⟨i, hi⟩ := List.mem_iff_getElem?.mp hmem
    have huser := (hcopy i secondMaster hi).others (ascii "user") (by decide)
    cases huser

end Schaufel
