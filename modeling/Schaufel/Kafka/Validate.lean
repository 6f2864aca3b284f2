import Mathlib.Computability.RegularExpressions
import Schaufel.Config.Paths

/-!
# The validators of kafka consumers and producers

`kafka_validator` splits a topic such as `events.3:0-5,7` into its name and the list of partitions
behind the colon, and the validators of consumers and producers set some options of librdkafka
before that.  The rest of the defaults is set by `kafka_consumer_init` and `kafka_producer_init`.

The regular expressions are those of the source.  The second one has a `?` behind its `+`, which
makes the whole list optional.
-/

namespace Schaufel

open RegularExpression in
/-- One of some characters. -/
def charClass (cs : CString) : RegularExpression UInt8 := cs.foldr (fun c r => char c + r) 0

/-- A regular expression one or more times. -/
def oneOrMore (r : RegularExpression UInt8) : RegularExpression UInt8 := r * r.star

/-- A regular expression at most once. -/
def atMostOnce (r : RegularExpression UInt8) : RegularExpression UInt8 := 1 + r

/-- `[0-9]+`. -/
def digitsRegex : RegularExpression UInt8 := oneOrMore (charClass (ascii "0123456789"))

/-- `([0-9]+(-[0-9]+)?,?)`. -/
def partitionRegex : RegularExpression UInt8 :=
  digitsRegex * atMostOnce (.char 45 * digitsRegex) * atMostOnce (.char 44)

/-- `[[:alnum:]._-]`. -/
def nameClass : CString :=
  ascii "0123456789ABCDEFGHIJKLMNOPQRSTUVWXYZabcdefghijklmnopqrstuvwxyz._-"

/-- `^([[:alnum:]._-]+)(:(([0-9]+(-[0-9]+)?,?)+))?$`. -/
def topicRegex : RegularExpression UInt8 :=
  oneOrMore (charClass nameClass) * atMostOnce (.char 58 * oneOrMore partitionRegex)

/-- `^([0-9]+(-[0-9]+)?,?)+?$`. -/
def partitionsRegex : RegularExpression UInt8 := atMostOnce (oneOrMore partitionRegex)

/-- The name in a topic, and the list behind the colon if there is one: the sub-matches 1 and 3.  A
name has no colon, so that the first colon of the topic is where sub-match 2 begins. -/
def matchTopic (topic : CString) : Option (CString × Option CString) :=
  if topicRegex.rmatch topic then
    some (topic.takeWhile (· ≠ 58),
      if topic.contains 58 then some (topic.dropWhile (· ≠ 58)).tail else none)
  else none

namespace Kafka

/-! ### The validators -/

/-- The topic.  A topic that is missing is looked into without a test. -/
def topicOf (config : Setting) : Except Fault CString :=
  match config.getMember (ascii "topic") with
  | none => .error .crash
  | some topic => required topic.getString

/-- `kafka_options.enable_auto_commit` becomes `"false"`; a value that is no string stays. -/
def setAutoCommit (options : Setting) : Setting :=
  match options.getMember (ascii "enable_auto_commit") with
  | none => (options.add (ascii "enable_auto_commit") (.string (ascii "false"))).getD options
  | some (.string _) => options.set (ascii "enable_auto_commit") (.string (ascii "false"))
  | some _ => options

/-- Partitions that are assigned by hand need `enable_auto_commit` to be off. -/
def disableAutoCommit (config : Setting) : Except Fault Setting :=
  match config.getMember (ascii "kafka_options") with
  | none => orCrash (config.add (ascii "kafka_options") (setAutoCommit (.group [])))
  | some (.group members) =>
    .ok (config.set (ascii "kafka_options") (setAutoCommit (.group members)))
  | some _ => .error .refused

/-- A topic with a list of partitions is cut at the colon, and the list becomes `partitions`. -/
def splitTopic (config : Setting) (topic : CString) : Except Fault Setting :=
  match matchTopic topic with
  | none => .error .refused
  | some (_, none) => .ok config
  | some (name, some spec) =>
    match config.getMember (ascii "partitions") with
    | some _ => .error .refused
    | none => do
      let config ← orCrash ((config.set (ascii "topic") (.string name)).add (ascii "partitions")
          (.string spec))
      disableAutoCommit config

/-- A number in decimal, as `snprintf` writes it. -/
def decimal (value : Int32) : CString := ascii (toString value.toInt)

/-- `partitions` is a list, or a number that is made one. -/
def checkPartitions (config : Setting) : Except Fault Setting :=
  match config.getMember (ascii "partitions") with
  | none => .ok config
  | some (.string spec) => if partitionsRegex.rmatch spec then .ok config else .error .refused
  | some (.int value) =>
    if value < 0 then .error .refused
    else orCrash ((config.remove (ascii "partitions")).add (ascii "partitions")
      (.string (decimal value)))
  | some _ => .error .refused

/-- `kafka_validator`. -/
def kafkaValidator (config : Setting) : Except Fault Setting := do
  let _ ← required (config.lookupString (ascii "broker"))
  let topic ← topicOf config
  let config ← splitTopic config topic
  checkPartitions config

/-- `config_create_path` for the group `kafka_options`, and default values in the new group.  If
there is a setting of that name already the path is a null pointer and nothing is set. -/
def createOptions (config : Setting) (defaults : List (CString × CString)) : Option Setting :=
  (setDefaults (.group []) defaults).bind fun options =>
    (configCreatePath config (ascii "kafka_options") options).map Prod.fst

/-- Without a group there is no high level consumer. -/
def disableHighLevel (config : Setting) : Except Fault Setting :=
  match config.lookupString (ascii "groupid") with
  | some _ => .ok config
  | none =>
    orCrash (configSetDefaultString config (ascii "kafka_options/enable_auto_commit")
      (ascii "false"))

/-- What a transactional consumer needs. -/
def transactionalConsumer (config : Setting) : Except Fault Setting :=
  if config.lookupBool (ascii "transactional") = some true then
    match config.lookupString (ascii "groupid") with
    | none => .error .refused
    | some _ => orCrash (createOptions config [(ascii "enable_auto_offset_store", ascii "false")])
  else .ok config

/-- `kafka_consumer_validator`. -/
def kafkaConsumerValidator (config : Setting) : Except Fault Setting := do
  let config ← disableHighLevel config
  let config ← transactionalConsumer config
  kafkaValidator config

/-- The name up to the first of the separators `:./`, which is what `config_setting_get_member`
compares. -/
def memberName (name : CString) : CString := name.takeWhile fun c => c ≠ 58 && c ≠ 46 && c ≠ 47

/-- What a transactional producer needs. -/
def transactionalProducer (config : Setting) : Except Fault Setting :=
  if config.lookupBool (ascii "transactional") = some true then do
    let config ← orCrash (createOptions config [(ascii "enable_idempotence", ascii "true")])
    match config.lookupString (memberName (ascii "kafka_opts/transactional_id")) with
    | some _ => .error .refused
    | none => .ok config
  else .ok config

/-- `kafka_producer_validator`. -/
def kafkaProducerValidator (config : Setting) : Except Fault Setting := do
  let config ← transactionalProducer config
  kafkaValidator config

/-! ### The defaults of the init functions -/

/-- `kafka_consumer_defaults`. -/
def kafkaConsumerDefaults (config : Setting) : Option Setting :=
  (createOptions config [(ascii "enable_auto_commit", ascii "true"),
      (ascii "enable_auto_offset_store", ascii "true"),
      (ascii "auto_commit_interval_ms", ascii "5000")]).bind
    fun config => configSetDefaultString config (ascii "topic_options/auto_offset_reset")
      (ascii "latest")

/-- `kafka_producer_defaults`. -/
def kafkaProducerDefaults (config : Setting) : Option Setting :=
  setDefaults config [(ascii "kafka_options/compression_codec", ascii "lz4"),
    (ascii "kafka_options/queue_buffering_max_ms", ascii "1000")]

/-! ### What `kafka_validator` leaves alone -/

/-- Options that are there stay there, except `enable_auto_commit`, and so do the options of the
topic. -/
structure KeepsOptions (config config' : Setting) : Prop where
  isGroup : config'.isGroup = config.isGroup
  topicOptions : config'.getMember (ascii "topic_options") =
      config.getMember (ascii "topic_options")
  options : ∀ found, config.getMember (ascii "kafka_options") = some found →
    ∃ found', config'.getMember (ascii "kafka_options") = some found' ∧
      found'.isGroup = found.isGroup ∧
      ∀ name, name ≠ ascii "enable_auto_commit" → found'.getMember name = found.getMember name

variable {config config' config'' : Setting}

theorem KeepsOptions.refl (config : Setting) : KeepsOptions config config :=
  ⟨rfl, rfl, fun found h => ⟨found, h, rfl, fun _ _ => rfl⟩⟩

theorem KeepsOptions.trans (h : KeepsOptions config config') (h' : KeepsOptions config' config'') :
    KeepsOptions config config'' := by
  refine ⟨h'.isGroup.trans h.isGroup, h'.topicOptions.trans h.topicOptions, fun found hfound => ?_⟩
  obtain ⟨found', hfound', hgroup', hname'⟩ := h.options found hfound
  obtain ⟨found'', hfound'', hgroup'', hname''⟩ := h'.options found' hfound'
  exact ⟨found'', hfound'', hgroup''.trans hgroup',
    fun name hne => (hname'' name hne).trans (hname' name hne)⟩

/-- A change of other settings keeps the options. -/
theorem KeepsOptions.of_getMember (hgroup : config'.isGroup = config.isGroup)
    (hmember : ∀ name ∈ [ascii "topic_options", ascii "kafka_options"],
      config'.getMember name = config.getMember name) : KeepsOptions config config' := by
  refine ⟨hgroup, hmember _ (by simp), fun found hfound => ⟨found, ?_, rfl, fun _ _ => rfl⟩⟩
  rw [hmember _ (by simp), hfound]

theorem isGroup_setAutoCommit (options : Setting) :
    (setAutoCommit options).isGroup = options.isGroup := by
  unfold setAutoCommit
  split
  · exact Setting.isGroup_getD_add
  · exact Setting.isGroup_set
  · rfl

theorem getMember_setAutoCommit (options : Setting) {name : CString}
    (hne : name ≠ ascii "enable_auto_commit") :
    (setAutoCommit options).getMember name = options.getMember name := by
  unfold setAutoCommit
  split
  · exact Setting.getMember_getD_add_of_ne hne
  · exact Setting.getMember_set_of_ne hne
  · rfl

theorem disableAutoCommit_keeps (h : disableAutoCommit config = .ok config') :
    KeepsOptions config config' := by
  unfold disableAutoCommit at h
  split at h
  · rename_i hnone
    have hadd := orCrash_eq_ok_iff.mp h
    refine ⟨Setting.isGroup_add hadd, Setting.getMember_add_of_ne (by decide) hadd,
      fun found hfound => ?_⟩
    rw [hnone] at hfound
    cases hfound
  · rename_i members hmembers
    obtain rfl := Except.ok.inj h
    refine ⟨Setting.isGroup_set, Setting.getMember_set_of_ne (by decide), fun found hfound => ?_⟩
    obtain rfl := Option.some.inj (hmembers.symm.trans hfound)
    refine ⟨_, Setting.getMember_set_self (by rw [hmembers]; rfl), isGroup_setAutoCommit _, ?_⟩
    exact fun name hne => getMember_setAutoCommit _ hne
  · cases h

theorem splitTopic_keeps {topic : CString} (h : splitTopic config topic = .ok config') :
    KeepsOptions config config' := by
  unfold splitTopic at h
  split at h
  · cases h
  · obtain rfl := Except.ok.inj h
    exact .refl config
  · split at h
    · cases h
    · obtain ⟨config₁, hadd, hdisable⟩ := bind_eq_ok_iff.mp h
      have hadd := orCrash_eq_ok_iff.mp hadd
      refine (KeepsOptions.of_getMember ?_ ?_).trans (disableAutoCommit_keeps hdisable)
      · rw [Setting.isGroup_add hadd, Setting.isGroup_set]
      · intro name hname
        have hne : name ≠ ascii "partitions" ∧ name ≠ ascii "topic" := by
          rcases List.mem_pair.mp hname with rfl | rfl <;> decide
        rw [Setting.getMember_add_of_ne hne.1 hadd, Setting.getMember_set_of_ne hne.2]

theorem checkPartitions_keeps (h : checkPartitions config = .ok config') :
    KeepsOptions config config' := by
  unfold checkPartitions at h
  split at h
  · obtain rfl := Except.ok.inj h
    exact .refl config
  · split at h
    · obtain rfl := Except.ok.inj h
      exact .refl config
    · cases h
  · split at h
    · cases h
    · have hadd := orCrash_eq_ok_iff.mp h
      refine KeepsOptions.of_getMember ?_ ?_
      · rw [Setting.isGroup_add hadd, Setting.isGroup_remove]
      · intro name hname
        have hne : name ≠ ascii "partitions" := by
          rcases List.mem_pair.mp hname with rfl | rfl <;> decide
        rw [Setting.getMember_add_of_ne hne hadd, Setting.getMember_remove_of_ne hne]
  · cases h

theorem kafkaValidator_keeps (h : kafkaValidator config = .ok config') :
    KeepsOptions config config' := by
  obtain ⟨broker, -, h⟩ := bind_eq_ok_iff.mp h
  obtain ⟨topic, -, h⟩ := bind_eq_ok_iff.mp h
  obtain ⟨config₁, hsplit, hcheck⟩ := bind_eq_ok_iff.mp h
  exact (splitTopic_keeps hsplit).trans (checkPartitions_keeps hcheck)

/-- The path of the option that turns the commits of librdkafka off. -/
theorem pathNames_enableAutoCommit : pathNames (ascii "kafka_options/enable_auto_commit") =
    some [ascii "kafka_options", ascii "enable_auto_commit"] := by decide

/-- The path of the option for a consumer without an offset. -/
theorem pathNames_autoOffsetReset : pathNames (ascii "topic_options/auto_offset_reset") =
    some [ascii "topic_options", ascii "auto_offset_reset"] := by decide

/-- The group is created with its default values, or nothing happens. -/
theorem createOptions_eq {defaults : List (CString × CString)} {options : Setting}
    (hdefaults : setDefaults (.group []) defaults = some options) :
    createOptions config defaults =
      some ((config.add (ascii "kafka_options") options).getD config) := by
  have hpath : pathNames (ascii "kafka_options") = some [ascii "kafka_options"] := by decide
  rw [createOptions, hdefaults, Option.bind_some, configCreatePath_name hpath]

theorem isGroup_of_lookupBool {name : CString} {value : Bool}
    (h : config.lookupBool name = some value) :
    config.isGroup = true := Setting.isGroup_of_getMember (Setting.getMember_of_lookupBool h)

/-! ### Where the validators do not come back -/

theorem disableAutoCommit_ne_crash (hgroup : config.isGroup = true) :
    disableAutoCommit config ≠ .error .crash := by
  unfold disableAutoCommit
  split
  · rename_i hnone
    obtain ⟨config', hadd⟩ := Setting.exists_add hgroup hnone (setAutoCommit (.group []))
    rw [hadd]
    exact ok_ne_crash config'
  · exact ok_ne_crash _
  · exact refused_ne_crash

theorem splitTopic_ne_crash (hgroup : config.isGroup = true) (topic : CString) :
    splitTopic config topic ≠ .error .crash := by
  unfold splitTopic
  split
  · exact refused_ne_crash
  · exact ok_ne_crash config
  · rename_i name spec hmatch
    split
    · exact refused_ne_crash
    · rename_i hnone
      have hgroup' : (config.set (ascii "topic") (.string name)).isGroup = true := by
        rw [Setting.isGroup_set, hgroup]
      have hfree : (config.set (ascii "topic") (.string name)).getMember (ascii "partitions") =
          none := by
        rw [Setting.getMember_set_of_ne (by decide), hnone]
      obtain ⟨config', hadd⟩ := Setting.exists_add hgroup' hfree (.string spec)
      rw [hadd]
      exact disableAutoCommit_ne_crash (by rw [Setting.isGroup_add hadd, hgroup'])

theorem checkPartitions_ne_crash (hgroup : config.isGroup = true) :
    checkPartitions config ≠ .error .crash := by
  unfold checkPartitions
  split
  · exact ok_ne_crash config
  · split
    · exact ok_ne_crash config
    · exact refused_ne_crash
  · rename_i value hvalue
    split
    · exact refused_ne_crash
    · have hgroup' : (config.remove (ascii "partitions")).isGroup = true := by
        rw [Setting.isGroup_remove, hgroup]
      obtain ⟨config', hadd⟩ := Setting.exists_add hgroup' Setting.getMember_remove_self
        (.string (decimal value))
      rw [hadd]
      exact ok_ne_crash config'
  · exact refused_ne_crash

/-- Only a topic that is missing crashes `kafka_validator`. -/
theorem kafkaValidator_eq_crash_iff :
    kafkaValidator config = .error .crash ↔
      (config.lookupString (ascii "broker")).isSome = true ∧
      config.getMember (ascii "topic") = none := by
  rw [kafkaValidator, bind_eq_crash_iff (required_ne_crash _)]
  simp only [required_eq_ok_iff, Option.isSome_iff_exists, exists_and_right]
  refine and_congr_right fun _ => ?_
  rw [bind_eq_error_iff, topicOf]
  cases hmember : config.getMember (ascii "topic") with
  | none => simp
  | some topic =>
    refine iff_of_false ?_ (by simp)
    have hgroup := Setting.isGroup_of_getMember hmember
    rintro (hrequired | ⟨name, -, h⟩)
    · exact required_ne_crash _ hrequired
    · obtain ⟨config', hsplit, hcheck⟩ := (bind_eq_crash_iff (splitTopic_ne_crash hgroup name)).mp h
      exact checkPartitions_ne_crash (by rw [(splitTopic_keeps hsplit).isGroup, hgroup]) hcheck

/-- The validator of consumers comes back: without a group `kafka_options` is a group, if it is
there, and a topic is there when it is looked at. -/
def ConsumerSound (config : Setting) : Prop :=
  (config.lookupString (ascii "groupid") = none →
    ∀ options ∈ config.getMember (ascii "kafka_options"), options.isGroup = true) ∧
  ((config.lookupString (ascii "broker")).isSome = true →
    (config.lookupBool (ascii "transactional") = some true →
      (config.lookupString (ascii "groupid")).isSome = true) →
    (config.getMember (ascii "topic")).isSome = true)

/-- The validator of producers comes back: a topic is there when it is looked at. -/
def ProducerSound (config : Setting) : Prop :=
  (config.lookupString (ascii "broker")).isSome = true →
    (config.lookupBool (ascii "transactional") = some true →
      config.lookupString (ascii "kafka_opts") = none) →
    (config.getMember (ascii "topic")).isSome = true

/-- `createOptions` changes no setting but `kafka_options`. -/
theorem exists_createOptions (config : Setting) {defaults : List (CString × CString)}
    {options : Setting} (hdefaults : setDefaults (.group []) defaults = some options) :
    ∃ config', createOptions config defaults = some config' ∧
      ∀ name, name ≠ ascii "kafka_options" → config'.getMember name = config.getMember name :=
  ⟨_, createOptions_eq hdefaults, fun _ hne => Setting.getMember_getD_add_of_ne hne⟩

theorem transactionalConsumer_kafkaValidator_eq_crash_iff (config : Setting) :
    transactionalConsumer config >>= kafkaValidator = .error .crash ↔
      (config.lookupString (ascii "broker")).isSome = true ∧
        (config.lookupBool (ascii "transactional") = some true →
          (config.lookupString (ascii "groupid")).isSome = true) ∧
        config.getMember (ascii "topic") = none := by
  unfold transactionalConsumer
  by_cases htransactional : config.lookupBool (ascii "transactional") = some true
  · rw [if_pos htransactional]
    cases hgroupid : config.lookupString (ascii "groupid") with
    | none => simp [htransactional, bind, Except.bind]
    | some groupid =>
      obtain ⟨config', hcreate, hmember⟩ := exists_createOptions config
        (show setDefaults (.group []) [(ascii "enable_auto_offset_store", ascii "false")] =
          some _ from rfl)
      simp only [hcreate, orCrash, bind, Except.bind, kafkaValidator_eq_crash_iff,
        Setting.lookupString, hmember _ (show ascii "broker" ≠ ascii "kafka_options" by decide),
        hmember _ (show ascii "topic" ≠ ascii "kafka_options" by decide)]
      simp
  · rw [if_neg htransactional]
    simp [bind, Except.bind, kafkaValidator_eq_crash_iff, htransactional]

theorem not_consumerSound_iff : ¬ ConsumerSound config ↔
    (config.lookupString (ascii "groupid") = none ∧
      ¬ ∀ options ∈ config.getMember (ascii "kafka_options"), options.isGroup = true) ∨
    (config.lookupString (ascii "broker")).isSome = true ∧
      (config.lookupBool (ascii "transactional") = some true →
        (config.lookupString (ascii "groupid")).isSome = true) ∧
      config.getMember (ascii "topic") = none := by
  rw [ConsumerSound, Classical.not_and_iff_not_or_not, Classical.not_imp, Classical.not_imp,
    Classical.not_imp, Option.not_isSome_iff_eq_none]

theorem kafkaConsumerValidator_eq_crash_iff (hgroup : config.isGroup = true) :
    kafkaConsumerValidator config = .error .crash ↔ ¬ ConsumerSound config := by
  rw [not_consumerSound_iff, kafkaConsumerValidator, disableHighLevel]
  cases hgroupid : config.lookupString (ascii "groupid") with
  | some groupid =>
    have h := transactionalConsumer_kafkaValidator_eq_crash_iff config
    rw [hgroupid] at h
    simpa [bind, Except.bind] using h
  | none =>
    have hsome : (configSetDefaultString config (ascii "kafka_options/enable_auto_commit")
        (ascii "false")).isSome = true ↔ _ :=
      configSetDefaultString_isSome_iff pathNames_enableAutoCommit hgroup
    rw [← hsome, Option.not_isSome_iff_eq_none]
    cases hdefault : configSetDefaultString config (ascii "kafka_options/enable_auto_commit")
      (ascii "false") with
    | none => simp [orCrash, bind, Except.bind]
    | some config' =>
      have hmember : ∀ name, name ≠ ascii "kafka_options" →
          config'.getMember name = config.getMember name :=
        fun name => getMember_configSetDefaultString pathNames_enableAutoCommit hgroup hdefault
      have h := transactionalConsumer_kafkaValidator_eq_crash_iff config'
      simp only [Setting.lookupString, Setting.lookupBool] at h hgroupid ⊢
      rw [hmember _ (by decide), hmember _ (by decide), hmember _ (by decide),
        hmember _ (by decide), hgroupid] at h
      simpa [orCrash, bind, Except.bind] using h

theorem kafkaProducerValidator_eq_crash_iff :
    kafkaProducerValidator config = .error .crash ↔ ¬ ProducerSound config := by
  have hname : memberName (ascii "kafka_opts/transactional_id") = ascii "kafka_opts" := by decide
  rw [ProducerSound, Classical.not_imp, Classical.not_imp, Option.not_isSome_iff_eq_none,
    kafkaProducerValidator, transactionalProducer, hname]
  by_cases htransactional : config.lookupBool (ascii "transactional") = some true
  · obtain ⟨config', hcreate, hmember⟩ := exists_createOptions config
      (show setDefaults (.group []) [(ascii "enable_idempotence", ascii "true")] = some _ from rfl)
    have hopts : config'.lookupString (ascii "kafka_opts") =
        config.lookupString (ascii "kafka_opts") := by
      rw [Setting.lookupString, Setting.lookupString, hmember _ (by decide)]
    rw [if_pos htransactional, hcreate]
    simp only [orCrash, bind, Except.bind, hopts]
    cases hid : config.lookupString (ascii "kafka_opts") with
    | some value => simp [htransactional]
    | none =>
      simp only [kafkaValidator_eq_crash_iff, Setting.lookupString,
        hmember _ (show ascii "broker" ≠ ascii "kafka_options" by decide),
        hmember _ (show ascii "topic" ≠ ascii "kafka_options" by decide)]
      simp
  · rw [if_neg htransactional]
    simp [bind, Except.bind, kafkaValidator_eq_crash_iff, htransactional]

end Kafka

end Schaufel
