import Mathlib.Algebra.BigOperators.Group.List.Basic
import Schaufel.Kafka.TopicPartitions
import Schaufel.Postgres.Expansion

/-!
# The threads of a configuration

After the validation `main` counts the threads of the consumers and of the producers
(`get_thread_count`), allocates an array for each of the two, and fills it with `init_threads`,
which goes through the entries once more.  Both functions read the number of threads of an entry
into a variable that keeps its value if there is none; `init_threads` reads an `int` into the lower
half of a `uint64_t`.

The array must be long enough, and `main` joins as many threads as were counted, so the two
functions have to agree.  `threads_started` says that they do after the validation, and that every
entry gets the threads it asks for, and so do the entries that the validation has appended for other
masters.
-/

namespace Schaufel

/-! ### The model -/

/-- One round of the loop of `get_thread_count`, on `j` and `result`; the sum of two `int`s may not
overflow. -/
def threadCountStep (s : Int32 × Int32) (entry : Setting) : Option (Int32 × Int32) :=
  let j := (entry.lookupInt (ascii "threads")).getD s.1
  if -2 ^ 31 ≤ s.2.toInt + j.toInt ∧ s.2.toInt + j.toInt < 2 ^ 31 then some (j, s.2 + j) else none

/-- `get_thread_count` on the entries of a list. -/
def getThreadCount (entries : List Setting) : Option Int32 :=
  (exec threadCountStep (0, 0) entries).map Prod.snd

/-- An `int` is written to the address of a `uint64_t`, the lower half of which it takes. -/
def writeInt (i : UInt64) (value : Int32) : UInt64 :=
  (i &&& 0xFFFFFFFF00000000) ||| value.toUInt32.toUInt64

/-- One round of the outer loop of `init_threads`, on `thread_index` and the instances the threads
get. -/
def initThreadsStep (s : UInt64 × List Setting) (entry : Setting) : UInt64 × List Setting :=
  let i := ((entry.lookupInt (ascii "threads")).map (writeInt s.1)).getD s.1
  (i, s.2 ++ List.replicate i.toNat entry)

/-- `init_threads`: the instance that each thread is created with, in order. -/
def initThreads (entries : List Setting) : List Setting := (entries.foldl initThreadsStep (0, [])).2

/-- The number of threads of an entry. -/
def threadsOf (entry : Setting) : Nat := ((entry.lookupInt (ascii "threads")).getD 0).toInt.toNat

/-- The number of entries that an entry stands for: a postgres producer has one for each master, if
their number is an `int`. -/
def copiesOf (entry : Setting) : Nat :=
  match (entry.lookupString (ascii "type")).bind validatorInit with
  | some .postgres =>
    producersFor (hostMasters ((entry.lookupString (ascii "host")).getD [])).length
  | _ => 1

/-! ### Reading the numbers -/

/-- The upper half of a small number is zero. -/
theorem and_upper_half {i : UInt64} (hi : i.toNat < 2 ^ 32) : i &&& 0xFFFFFFFF00000000 = 0 := by
  have hmask : (0xFFFFFFFF00000000 : UInt64).toNat = (2 ^ 32 - 1) <<< 32 := by decide
  rw [← UInt64.toNat_inj, UInt64.toNat_and, hmask]
  refine Nat.eq_of_testBit_eq fun j => ?_
  rw [Nat.testBit_and, Nat.testBit_shiftLeft]
  by_cases hj : 32 ≤ j
  · have hlt : i.toNat < 2 ^ j := Nat.lt_of_lt_of_le hi (Nat.pow_le_pow_right (by decide) hj)
    rw [Nat.testBit_lt_two_pow hlt]
    simp
  · simp [hj]

/-- A positive number is the whole value of the variable, whose upper half was zero before. -/
theorem toNat_writeInt {i : UInt64} (hi : i.toNat < 2 ^ 32) {n : Int32} (hn : 0 < n.toInt) :
    (writeInt i n).toNat = n.toInt.toNat := by
  have hsign : n.toInt = _ := BitVec.toInt_eq_toNat_cond n.toBitVec
  have hlow : (writeInt i n).toNat = n.toBitVec.toNat := by
    rw [writeInt, and_upper_half hi, UInt64.zero_or, UInt32.toNat_toUInt64]
    rfl
  rw [hlow]
  split_ifs at hsign <;> omega

/-- The entry has a positive number of threads. -/
theorem ThreadLoop.threadsOk_iff {entry : Setting} :
    threadsOk entry = true ↔ ∃ n, entry.lookupInt (ascii "threads") = some n ∧ 0 < n.toInt := by
  simp only [threadsOk, Option.any_eq_true, decide_eq_true_eq, Int32.lt_iff_toInt_lt]
  rfl

theorem threadsOf_eq {entry : Setting} {n : Int32}
    (h : entry.lookupInt (ascii "threads") = some n) :
    threadsOf entry = n.toInt.toNat := by
  rw [threadsOf, h]
  rfl

/-- The loop of `init_threads`: the upper half of `thread_index` stays zero. -/
theorem initThreads_foldl {entries : List Setting}
    (hok : ∀ e ∈ entries, ThreadLoop.threadsOk e = true) {i : UInt64} (hi : i.toNat < 2 ^ 32)
    (created : List Setting) :
    (entries.foldl initThreadsStep (i, created)).2 =
      created ++ entries.flatMap fun e => List.replicate (threadsOf e) e := by
  induction entries generalizing i created with
  | nil => rw [List.foldl_nil, List.flatMap_nil, List.append_nil]
  | cons entry entries ih =>
    obtain ⟨n, hn, hpos⟩ := ThreadLoop.threadsOk_iff.mp (hok entry List.mem_cons_self)
    have hvalue := toNat_writeInt hi hpos
    have hbound := n.toInt_lt
    have hstep : initThreadsStep (i, created) entry =
        (writeInt i n, created ++ List.replicate (threadsOf entry) entry) := by
      simp only [initThreadsStep, hn, Option.map_some, Option.getD_some, hvalue, threadsOf_eq hn]
    rw [List.foldl_cons, hstep, ih (fun e he => hok e (List.mem_cons_of_mem _ he)) (by omega),
      List.flatMap_cons, List.append_assoc]

/-- The loop of `get_thread_count`: the sum is right as long as it is an `int`. -/
theorem exec_threadCountStep {entries : List Setting}
    (hok : ∀ e ∈ entries, ThreadLoop.threadsOk e = true) {s : Int32 × Int32} {m : Nat}
    (hs : s.2.toInt = m) :
    (m + (entries.map threadsOf).sum < 2 ^ 31 → ∃ s', exec threadCountStep s entries = some s' ∧
        s'.2.toInt = (m + (entries.map threadsOf).sum : Nat)) ∧
      (2 ^ 31 ≤ m + (entries.map threadsOf).sum → exec threadCountStep s entries = none) := by
  induction entries generalizing s m with
  | nil =>
    have hbound := s.2.toInt_lt
    refine ⟨fun _ => ⟨s, rfl, by simpa using hs⟩, fun hlarge => ?_⟩
    simp only [List.map_nil, List.sum_nil, Nat.add_zero] at hlarge
    omega
  | cons entry entries ih =>
    obtain ⟨n, hn, hpos⟩ := ThreadLoop.threadsOk_iff.mp (hok entry List.mem_cons_self)
    have hthreads := threadsOf_eq hn
    rw [List.map_cons, List.sum_cons, exec_cons, ← Nat.add_assoc]
    have hstep : threadCountStep s entry =
        if -2 ^ 31 ≤ s.2.toInt + n.toInt ∧ s.2.toInt + n.toInt < 2 ^ 31 then some (n, s.2 + n)
        else none := by
      rw [threadCountStep, hn]
      rfl
    by_cases hfits : m + threadsOf entry < 2 ^ 31
    · rw [hstep, if_pos ⟨by omega, by omega⟩, Option.bind_some]
      refine ih (fun e he => hok e (List.mem_cons_of_mem _ he)) (s := (n, s.2 + n)) ?_
      rw [Int32.toInt_add, hs, Int.bmod_eq_of_le (by omega) (by omega)]
      omega
    · rw [hstep, if_neg (fun hint => by omega)]
      exact ⟨fun hsmall => by omega, fun _ => rfl⟩

/-! ### What the validators leave alone -/

namespace Kafka

/-- The settings that `kafka_validator` may change. -/
def kafkaSettings : List CString := [ascii "topic", ascii "partitions", ascii "kafka_options"]

variable {config config' : Setting} {name : CString}

theorem getMember_splitTopic {topic : CString} (hname : name ∉ kafkaSettings)
    (h : splitTopic config topic = .ok config') :
    config'.getMember name = config.getMember name := by
  simp only [kafkaSettings, List.mem_cons, List.not_mem_nil, or_false, not_or] at hname
  obtain ⟨htopic, hpartitions, hoptions⟩ := hname
  unfold splitTopic at h
  split at h
  · cases h
  · obtain rfl := Except.ok.inj h
    rfl
  · split at h
    · cases h
    · obtain ⟨config₁, hadd, hdisable⟩ := bind_eq_ok_iff.mp h
      rw [getMember_disableAutoCommit hoptions hdisable,
        Setting.getMember_add_of_ne hpartitions (orCrash_eq_ok_iff.mp hadd),
        Setting.getMember_set_of_ne htopic]

theorem getMember_checkPartitions (hne : name ≠ ascii "partitions")
    (h : checkPartitions config = .ok config') :
    config'.getMember name = config.getMember name := by
  unfold checkPartitions at h
  split at h
  · obtain rfl := Except.ok.inj h
    rfl
  · split at h
    · obtain rfl := Except.ok.inj h
      rfl
    · cases h
  · split at h
    · cases h
    · rw [Setting.getMember_add_of_ne hne (orCrash_eq_ok_iff.mp h),
        Setting.getMember_remove_of_ne hne]
  · cases h

theorem getMember_kafkaValidator (hname : name ∉ kafkaSettings)
    (h : kafkaValidator config = .ok config') :
    config'.getMember name = config.getMember name := by
  obtain ⟨broker, -, h⟩ := bind_eq_ok_iff.mp h
  obtain ⟨topic, -, h⟩ := bind_eq_ok_iff.mp h
  obtain ⟨config₁, hsplit, hcheck⟩ := bind_eq_ok_iff.mp h
  have hne : name ≠ ascii "partitions" := fun heq => hname (by simp [kafkaSettings, heq])
  rw [getMember_checkPartitions hne hcheck, getMember_splitTopic hname hsplit]

theorem getMember_createOptions {defaults : List (CString × CString)} {options : Setting}
    (hdefaults : setDefaults (.group []) defaults = some options)
    (hne : name ≠ ascii "kafka_options") (h : createOptions config defaults = some config') :
    config'.getMember name = config.getMember name := by
  rw [createOptions_eq hdefaults] at h
  obtain rfl := Option.some.inj h
  exact Setting.getMember_getD_add_of_ne hne

theorem getMember_transactionalConsumer (hne : name ≠ ascii "kafka_options")
    (h : transactionalConsumer config = .ok config') :
    config'.getMember name = config.getMember name := by
  unfold transactionalConsumer at h
  split at h
  · split at h
    · cases h
    · exact getMember_createOptions rfl hne (orCrash_eq_ok_iff.mp h)
  · obtain rfl := Except.ok.inj h
    rfl

theorem getMember_transactionalProducer (hne : name ≠ ascii "kafka_options")
    (h : transactionalProducer config = .ok config') :
    config'.getMember name = config.getMember name := by
  unfold transactionalProducer at h
  split at h
  · obtain ⟨config₁, hcreate, h⟩ := bind_eq_ok_iff.mp h
    split at h
    · cases h
    · obtain rfl := Except.ok.inj h
      exact getMember_createOptions rfl hne (orCrash_eq_ok_iff.mp hcreate)
  · obtain rfl := Except.ok.inj h
    rfl

theorem getMember_disableHighLevel (hgroup : config.isGroup = true)
    (hne : name ≠ ascii "kafka_options") (h : disableHighLevel config = .ok config') :
    config'.getMember name = config.getMember name := by
  unfold disableHighLevel at h
  split at h
  · obtain rfl := Except.ok.inj h
    rfl
  · exact getMember_configSetDefaultString pathNames_enableAutoCommit hgroup
      (orCrash_eq_ok_iff.mp h) hne

/-- Both validators change only the topic, the partitions and the options. -/
theorem getMember_validators (type : ThreadType) (hgroup : config.isGroup = true)
    (hname : name ∉ kafkaSettings)
    (h : (match type with
      | .consumer => kafkaConsumerValidator config
      | .producer => kafkaProducerValidator config) = .ok config') :
    config'.getMember name = config.getMember name := by
  have hne : name ≠ ascii "kafka_options" := fun heq => hname (by simp [kafkaSettings, heq])
  cases type with
  | consumer =>
    obtain ⟨config₁, hdisable, h⟩ := bind_eq_ok_iff.mp h
    obtain ⟨config₂, htransactional, h⟩ := bind_eq_ok_iff.mp h
    rw [getMember_kafkaValidator hname h, getMember_transactionalConsumer hne htransactional,
      getMember_disableHighLevel hgroup hne hdisable]
  | producer =>
    obtain ⟨config₁, htransactional, h⟩ := bind_eq_ok_iff.mp h
    rw [getMember_kafkaValidator hname h, getMember_transactionalProducer hne htransactional]

end Kafka

/-! ### The threads of an accepted list -/

/-- An entry as the validation leaves it, with the entries it appends: as many as `copiesOf` says,
each with the threads of the entry. -/
structure Staffed (entry : Setting) (result : Setting × List Setting) : Prop where
  length : result.2.length + 1 = copiesOf entry
  threads : ∀ e ∈ result.1 :: result.2,
      e.lookupInt (ascii "threads") = entry.lookupInt (ascii "threads")

/-- An entry of a type other than postgres stands for itself. -/
theorem Staffed.single {entry e : Setting} {m : Module}
    (hm : (entry.lookupString (ascii "type")).bind validatorInit = some m) (hother : m ≠ .postgres)
    (hthreads : e.getMember (ascii "threads") = entry.getMember (ascii "threads")) :
    Staffed entry (e, []) := by
  refine ⟨?_, fun e' he => ?_⟩
  · rw [copiesOf, hm]
    split
    · rename_i heq
      exact absurd (Option.some.inj heq) hother
    · rfl
  · rw [List.mem_singleton.mp he, Setting.lookupInt, hthreads]
    rfl

/-- A postgres producer and the producers of its other masters have its threads: the first one keeps
the setting, the others get a copy of it. -/
theorem MastersOf.staffed {entry child : Setting} {result : Setting × List Setting}
    {hosts topic : CString} {threads : Int32} (h : MastersOf child result hosts topic threads)
    (hprepared : Prepared entry child) (hpostgres : IsPostgres entry) : Staffed entry result := by
  have hmember := hprepared.others (ascii "threads") (by decide)
  have hhost : entry.lookupString (ascii "host") = some hosts :=
    (hprepared.lookupString (by decide)).symm.trans h.hasHost
  have hown : entry.lookupInt (ascii "threads") = some threads := by
    rw [← h.hasThreads, Setting.lookupInt, Setting.lookupInt, hmember]
  refine ⟨?_, fun e he => ?_⟩
  · rw [IsPostgres] at hpostgres
    rw [h.length, copiesOf, hpostgres, hhost]
    rfl
  · rcases List.mem_cons.mp he with rfl | he
    · rw [Setting.lookupInt, h.first.others _ (by decide) (by decide), hmember]
      rfl
    · obtain ⟨i, hi⟩ := List.mem_iff_getElem?.mp he
      rw [(h.rest i e hi).threads, hown]

theorem Accepted.staffed {type : ThreadType} {entry : Setting} {result : Setting × List Setting}
    (h : Accepted type entry result) : Staffed entry result := by
  obtain ⟨child, kind, m, hprepared, hkind, hm, hvalidate⟩ := h.validated
  have hmodule : (entry.lookupString (ascii "type")).bind validatorInit = some m := by
    rw [hkind, Option.bind_some, hm]
  have hthreads := hprepared.others (ascii "threads") (by decide)
  cases m with
  | postgres =>
    obtain ⟨hosts, topic, threads, hmasters⟩ := mastersOf_postgresValidate hvalidate
    exact hmasters.staffed hprepared hmodule
  | dummy =>
    obtain rfl := Except.ok.inj hvalidate
    exact .single hmodule (fun h => by cases h) hthreads
  | file =>
    rw [Module.validate] at hvalidate
    split_ifs at hvalidate
    obtain rfl := Except.ok.inj hvalidate
    exact .single hmodule (fun h => by cases h) hthreads
  | redis =>
    rw [Module.validate] at hvalidate
    split_ifs at hvalidate
    obtain rfl := Except.ok.inj hvalidate
    exact .single hmodule (fun h => by cases h) hthreads
  | exports =>
    obtain ⟨config, hexports, rfl⟩ := map_eq_ok_iff.mp hvalidate
    obtain ⟨settings, -, rfl⟩ := map_eq_ok_iff.mp hexports
    exact .single hmodule (fun h => by cases h)
      ((Setting.getMember_set_of_ne (by decide)).trans hthreads)
  | kafka =>
    obtain ⟨config, hkafka, rfl⟩ := map_eq_ok_iff.mp hvalidate
    exact .single hmodule (fun h => by cases h)
      ((Kafka.getMember_validators type hprepared.isGroup (by decide) hkafka).trans hthreads)

/-- A loop that refuses nothing has seen a positive number of threads in every entry. -/
theorem ThreadLoop.threadsOk_of_exec {type : ThreadType} {s s' : ThreadLoop}
    {entries : List Setting} (hs : s.stopped = false) (h : exec (step type) s entries = some s')
    (hret : s'.ret = true) : ∀ e ∈ entries, threadsOk e = true := by
  induction entries generalizing s with
  | nil => exact fun e he => absurd he List.not_mem_nil
  | cons entry entries ih =>
    rw [exec_cons] at h
    obtain ⟨t, ht, hrest⟩ := Option.bind_eq_some_iff.mp h
    have htret := ret_of_exec hrest hret
    obtain ⟨result, -, hstopped, -⟩ := accepted_of_step hs ht htret
    have hread := readType_ret_of_step hs ht htret
    rw [readType, Bool.and_eq_true, Bool.and_eq_true] at hread
    exact List.forall_mem_cons.mpr ⟨hread.1.2, ih hstopped hrest⟩

/-- Each entry of an accepted list has a positive number of threads. -/
theorem threadsOk_of_threadValidate {type : ThreadType} {config : Setting} {entries : List Setting}
    {v : ThreadVerdict} (hentries : config.getMember type.name = some (.list entries))
    (hv : threadValidate type config = some v) (haccepted : v.accepted = true) :
    ∀ e ∈ entries, ThreadLoop.threadsOk e = true := by
  simp only [threadValidate, hentries] at hv
  split at hv
  · obtain rfl := Option.some.inj hv
    cases haccepted
  · obtain ⟨s, hexec, rfl⟩ := Option.map_eq_some_iff.mp hv
    exact ThreadLoop.threadsOk_of_exec rfl hexec haccepted

/-- The threads of the entries that an entry stands for. -/
theorem Staffed.sum_threads {entry : Setting} {result : Setting × List Setting}
    (h : Staffed entry result) :
    ((result.1 :: result.2).map threadsOf).sum = copiesOf entry * threadsOf entry := by
  have hreplicate : (result.1 :: result.2).map threadsOf =
      List.replicate (copiesOf entry) (threadsOf entry) := by
    refine List.eq_replicate_iff.mpr ⟨by rw [List.length_map]; exact h.length, ?_⟩
    simp only [List.mem_map, forall_exists_index, and_imp, forall_apply_eq_imp_iff₂]
    intro e he
    rw [threadsOf, h.threads e he]
    rfl
  rw [hreplicate, List.sum_replicate, Nat.nsmul_eq_mul]

theorem sum_threads_of_staffed {entries : List Setting} {results : List (Setting × List Setting)}
    (h : List.Forall₂ Staffed entries results) :
    ((results.map Prod.fst ++ results.flatMap Prod.snd).map threadsOf).sum =
      (entries.map fun e => copiesOf e * threadsOf e).sum := by
  rw [((List.map_append_flatMap_perm results Prod.fst Prod.snd).map threadsOf).sum_eq]
  induction h with
  | nil => rfl
  | cons hstaffed hrest ih =>
    rw [List.flatMap_cons, List.map_append, List.sum_append, ih, hstaffed.sum_threads,
      List.map_cons, List.sum_cons]

/-- The entries of the validated list have a positive number of threads, too. -/
theorem threadsOk_of_staffed {entries : List Setting} {results : List (Setting × List Setting)}
    (h : List.Forall₂ Staffed entries results)
    (hok : ∀ e ∈ entries, ThreadLoop.threadsOk e = true) :
    ∀ e ∈ results.map Prod.fst ++ results.flatMap Prod.snd, ThreadLoop.threadsOk e = true := by
  intro e he
  rw [(List.map_append_flatMap_perm results Prod.fst Prod.snd).mem_iff] at he
  induction h with
  | nil => exact absurd he List.not_mem_nil
  | cons hstaffed hrest ih =>
    obtain ⟨hentry, hentries⟩ := List.forall_mem_cons.mp hok
    rw [List.flatMap_cons, List.mem_append] at he
    rcases he with he | he
    · rw [ThreadLoop.threadsOk, hstaffed.threads e he]
      exact hentry
    · exact ih hentries he

/-- After the validation every entry gets the threads it asks for, at least one, in the order of the
list, and as many threads are created as `get_thread_count` counts: for each entry of the
configuration its number of threads, once for each entry it stands for.  The count is no `int` only
if that sum is none. -/
theorem threads_started (type : ThreadType) (config : Setting) (entries : List Setting)
    (v : ThreadVerdict) (hentries : config.getMember type.name = some (.list entries))
    (hv : threadValidate type config = some v) (haccepted : v.accepted = true) :
    (initThreads v.entries = v.entries.flatMap fun e => List.replicate (threadsOf e) e) ∧
      (∀ e ∈ v.entries, e ∈ initThreads v.entries) ∧
      (initThreads v.entries).length = (entries.map fun e => copiesOf e * threadsOf e).sum ∧
      (getThreadCount v.entries).map Int32.toInt =
        if (initThreads v.entries).length < 2 ^ 31 then some ((initThreads v.entries).length : Int)
        else none := by
  obtain ⟨results, hresults, hlist⟩ := accepted_of_threadValidate hentries hv haccepted
  have hstaffed : List.Forall₂ Staffed entries results :=
    hresults.imp fun entry result h => h.staffed
  have hok : ∀ e ∈ v.entries, ThreadLoop.threadsOk e = true := by
    rw [hlist]
    exact threadsOk_of_staffed hstaffed (threadsOk_of_threadValidate hentries hv haccepted)
  have hcreated : initThreads v.entries = v.entries.flatMap fun e =>
      List.replicate (threadsOf e) e :=
    (initThreads_foldl hok (by decide) []).trans (List.nil_append _)
  have hlength : (initThreads v.entries).length = (v.entries.map threadsOf).sum := by
    rw [hcreated, List.length_flatMap]
    simp only [List.length_replicate]
  refine ⟨hcreated, fun e he => ?_, ?_, ?_⟩
  · obtain ⟨n, hn, hpos⟩ := ThreadLoop.threadsOk_iff.mp (hok e he)
    rw [hcreated, List.mem_flatMap]
    exact ⟨e, he, List.mem_replicate.mpr ⟨by rw [threadsOf_eq hn]; omega, rfl⟩⟩
  · rw [hlength, hlist, sum_threads_of_staffed hstaffed]
  · obtain ⟨hsmall, hlarge⟩ := exec_threadCountStep hok (s := (0, 0)) (m := 0) rfl
    rw [Nat.zero_add, ← hlength] at hsmall hlarge
    split_ifs with hfits
    · obtain ⟨s, hexec, hsum⟩ := hsmall hfits
      rw [getThreadCount, hexec, Option.map_some, Option.map_some, hsum]
    · rw [getThreadCount, hlarge (Nat.le_of_not_lt hfits)]
      rfl

/-- A postgres producer with two masters, and a producer with two threads. -/
def mixedProducers : List Setting :=
  [twoMasters [], .group [(ascii "type", .string (ascii "dummy")), (ascii "threads", .int 2)]]

/-- Two masters with five threads each, and a producer with two threads. -/
theorem threads_started_two_masters :
    ∃ v, threadValidate .producer (.group [(ThreadType.producer.name, .list mixedProducers)]) =
      some v ∧
      (initThreads v.entries).length = 12 ∧
      (getThreadCount v.entries).map Int32.toInt = some 12 := by
  obtain ⟨v, hv, haccepted⟩ : ∃ v, threadValidate .producer
      (.group [(ThreadType.producer.name, .list mixedProducers)]) = some v ∧ v.accepted = true :=
    ⟨_, rfl, rfl⟩
  obtain ⟨-, -, hlength, hcount⟩ := threads_started .producer
    (.group [(ThreadType.producer.name, .list mixedProducers)]) mixedProducers v rfl hv haccepted
  have htotal : (mixedProducers.map fun e => copiesOf e * threadsOf e).sum = 12 := by decide
  rw [htotal] at hlength
  rw [hlength] at hcount
  exact ⟨v, hv, hlength, hcount⟩

end Schaufel
