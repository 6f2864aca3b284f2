import Schaufel.Config.Paths
import Schaufel.Postgres.HostLists

/-!
# Producers for host lists

The host of a postgres producer is a list of masters and optionally a list of replicas.  The
validator replaces the host by the first master and appends a producer for each of the others to the
list it is called for.
-/

namespace Schaufel

/-! ### The validator -/

/-- The number of hosts of an array, converted to an `int`: `m` and `r` of `postgres_validate`. -/
def hostCount (array : Option StrArray) : Int32 := Int32.ofNat (arrayUsed array)

/-- The number of producers that a number of masters stands for: the first one and one for each
round of the loop over the others, which compares its index to an `int`. -/
def producersFor (masters : Nat) : Nat := ((Int32.ofNat masters).toInt - 1).toNat + 1

/-- The first replica is added to the producer.  A setting of that name that is no string is in the
way, and a null pointer is written to. -/
def addReplica (config : Setting) (replica : Option StrArray) : Except Fault Setting :=
  if hostCount replica = 0 then .ok config
  else orCrash (config.add (ascii "replica") (Setting.stringSetting (arrayGet replica 0)))

/-- A producer for another master. -/
def postgresInstance (topic : CString) (threads : Int32) (master replica : Option StrArray)
    (i : Nat) :
    Setting :=
  .group ([(ascii "type", .string (ascii "postgres")),
      (ascii "host", Setting.stringSetting (arrayGet master i)),
      (ascii "topic", .string topic), (ascii "threads", .int threads)] ++
    if hostCount replica ≠ 0 ∧ (arrayGet replica i).isSome then
      [(ascii "replica", Setting.stringSetting (arrayGet replica i))]
    else [])

/-- The part of `postgres_validate` behind the parsing of the host: the producer afterwards, and the
producers appended to the list it is in.  An array takes 2 ^ 31 masters, the `int` of their number
is then negative, and no producer is appended. -/
def postgresExpand (config : Setting) (threads : Int32) (master replica : Option StrArray) :
    Except Fault (Setting × List Setting) :=
  match config.lookupString (ascii "topic") with
  | none => .error .refused
  | some topic =>
    if (config.lookupString (ascii "replica")).isSome ∧ hostCount replica ≠ 0 then .error .refused
    else if hostCount master = 0 then .error .refused
    else
      (addReplica (config.set (ascii "host") (Setting.stringSetting (arrayGet master 0)))
        replica).map
        fun config =>
          (config, (List.range' 1 ((hostCount master).toInt - 1).toNat).map
            (postgresInstance topic threads master replica))

/-- `postgres_validate`. -/
def postgresValidate (config : Setting) : Except Fault (Setting × List Setting) :=
  match config.lookupString (ascii "host"), config.lookupInt (ascii "threads") with
  | some hosts, some threads => do
    let master ← orCrash (parseHostinfoMaster hosts)
    let replica ← orCrash (parseHostinfoReplica hosts)
    postgresExpand config threads master replica
  | _, _ => .error .refused

/-! ### Where the validator does not come back -/

/-- The lists of a host string fit into arrays. -/
structure HostsFit (hosts : CString) : Prop where
  lists : (tokens 59 hosts).length ≤ 2 ^ 31
  masters : (hostMasters hosts).length ≤ 2 ^ 31
  replicas : (hostReplicas hosts).length ≤ 2 ^ 31

/-- The hosts of a producer fit into arrays; and one that passes the checks and names replicas has
no setting `replica` of another type. -/
def PostgresSound (config : Setting) : Prop :=
  ∀ hosts, config.lookupString (ascii "host") = some hosts →
    (config.lookupInt (ascii "threads")).isSome = true →
    HostsFit hosts ∧ ((config.lookupString (ascii "topic")).isSome = true →
      hostMasters hosts ≠ [] → hostReplicas hosts ≠ [] →
      ∀ replica ∈ config.getMember (ascii "replica"), replica.getString.isSome = true)

/-- As many producers as masters, unless the number of masters is no `int`. -/
theorem producersFor_eq {masters : Nat} (hpos : masters ≠ 0) (hfit : masters ≤ 2 ^ 31) :
    producersFor masters = if masters < 2 ^ 31 then masters else 1 := by
  split_ifs with hlt
  · rw [producersFor, Int32.toInt_ofNat_of_lt hlt]
    omega
  · obtain rfl : masters = 2 ^ 31 := by omega
    decide

/-- The `int` is 0 only for an empty list. -/
theorem Stores.hostCount_eq_zero_iff {array : Option StrArray} {vals : List CString}
    (h : Stores array vals) (hfit : vals.length ≤ 2 ^ 31) : hostCount array = 0 ↔ vals = [] := by
  rw [hostCount, h.1, ← List.length_eq_zero_iff]
  refine ⟨fun hzero => ?_, fun hzero => by rw [hzero]; rfl⟩
  have hmod : vals.length % 2 ^ 32 = 0 := congrArg (fun i : Int32 => i.toBitVec.toNat) hzero
  omega

/-- The arrays of a host string. -/
theorem exists_hostArrays {hosts : CString} (h : HostsFit hosts) :
    ∃ master replica, parseHostinfoMaster hosts = some master ∧
      parseHostinfoReplica hosts = some replica ∧
      Stores master (hostMasters hosts) ∧ Stores replica (hostReplicas hosts) := by
  obtain ⟨master, hmaster, hmasters, -⟩ := exists_parseHostinfo h.lists h.masters
  obtain ⟨replica, hreplica, hreplicas, -⟩ := exists_parseHostinfo h.lists h.replicas
  exact ⟨master, replica, hmaster, hreplica, hmasters, hreplicas⟩

/-- Host strings that do not fit are not parsed to the end. -/
theorem hostsFit_of_parseHostinfo {hosts : CString} {master replica : Option StrArray}
    (hmaster : parseHostinfoMaster hosts = some master)
    (hreplica : parseHostinfoReplica hosts = some replica) : HostsFit hosts := by
  have hm : ¬ _ :=
    mt parseHostinfo_eq_none_iff.mpr (Option.ne_none_iff_exists'.mpr ⟨master, hmaster⟩)
  have hr : ¬ _ :=
    mt parseHostinfo_eq_none_iff.mpr (Option.ne_none_iff_exists'.mpr ⟨replica, hreplica⟩)
  rw [not_or, Nat.not_lt, Nat.not_lt] at hm hr
  exact ⟨hm.1, hm.2, hr.2⟩

theorem addReplica_eq_crash_iff {config : Setting} {replica : Option StrArray}
    (hgroup : config.isGroup = true) :
    addReplica config replica = .error .crash ↔
      hostCount replica ≠ 0 ∧ (config.getMember (ascii "replica")).isSome = true := by
  unfold addReplica
  by_cases hused : hostCount replica = 0
  · simp [hused]
  · rw [if_neg hused, orCrash_eq_crash_iff, Setting.add_eq_none_iff hgroup]
    simp [hused]

theorem postgresExpand_eq_crash_iff {config : Setting} {threads : Int32}
    {master replica : Option StrArray} (hgroup : config.isGroup = true) :
    postgresExpand config threads master replica = .error .crash ↔
      (config.lookupString (ascii "topic")).isSome = true ∧ hostCount master ≠ 0 ∧
      hostCount replica ≠ 0 ∧
        ∃ r ∈ config.getMember (ascii "replica"), r.getString = none := by
  unfold postgresExpand
  cases htopic : config.lookupString (ascii "topic") with
  | none => simp
  | some topic =>
    have hstring : (∃ r ∈ config.getMember (ascii "replica"), r.getString = none) ↔
        (config.getMember (ascii "replica")).isSome = true ∧
        config.lookupString (ascii "replica") = none := by
      rw [Setting.lookupString]
      cases config.getMember (ascii "replica") with
      | none => simp
      | some r => simp
    rw [hstring]
    by_cases hconflict : (config.lookupString (ascii "replica")).isSome = true ∧
      hostCount replica ≠ 0
    · obtain ⟨r, hr⟩ := Option.isSome_iff_exists.mp hconflict.1
      simp [hconflict.2, hr]
    · simp only [if_neg hconflict]
      by_cases hmaster : hostCount master = 0
      · simp [hmaster]
      · rw [if_neg hmaster, map_eq_error_iff,
          addReplica_eq_crash_iff (by rw [Setting.isGroup_set, hgroup]),
          Setting.getMember_set_of_ne (by decide)]
        simp only [Option.isSome_some, true_and, ne_eq, hmaster, not_false_eq_true]
        refine and_congr_right fun hused => (and_iff_left ?_).symm
        rw [← Option.not_isSome_iff_eq_none]
        exact fun hsome => hconflict ⟨hsome, hused⟩

/-- Only hosts that do not fit and a setting `replica` that is no string keep the validator from
coming back. -/
theorem postgresValidate_eq_crash_iff {config : Setting} :
    postgresValidate config = .error .crash ↔ ¬ PostgresSound config := by
  unfold postgresValidate PostgresSound
  cases hhost : config.lookupString (ascii "host") with
  | none => simp
  | some hosts =>
    have hgroup := Setting.isGroup_of_getMember (Setting.getMember_of_lookupString hhost)
    cases hthreads : config.lookupInt (ascii "threads") with
    | none => simp
    | some threads =>
      simp only [Option.isSome_some, forall_const, Option.some.injEq, forall_eq']
      by_cases hfit : HostsFit hosts
      · obtain ⟨master, replica, hmaster, hreplica, hmasters, hreplicas⟩ := exists_hostArrays hfit
        simp only [hmaster, hreplica, orCrash, bind, Except.bind,
          postgresExpand_eq_crash_iff hgroup, ne_eq, hmasters.hostCount_eq_zero_iff hfit.masters,
          hreplicas.hostCount_eq_zero_iff hfit.replicas]
        constructor
        · rintro ⟨htopic, hne, hne', r, hr, hnone⟩ ⟨-, hsound⟩
          have := hsound htopic hne hne' r hr
          rw [hnone] at this
          cases this
        · intro hunsound
          simp only [hfit, true_and, not_forall] at hunsound
          obtain ⟨htopic, hne, hne', r, hr, hnone⟩ := hunsound
          exact ⟨htopic, hne, hne', r, hr, by simpa using hnone⟩
      · refine iff_of_true ?_ fun h => hfit h.1
        cases hmaster : parseHostinfoMaster hosts with
        | none => rfl
        | some master =>
          cases hreplica : parseHostinfoReplica hosts with
          | none => rfl
          | some replica => exact absurd (hostsFit_of_parseHostinfo hmaster hreplica) hfit

end Schaufel
