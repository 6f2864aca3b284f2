import Schaufel.Kafka.Validate

/-!
# The options of transactional consumers and producers

A transactional consumer must not store offsets by itself, and a transactional producer must be
idempotent.  The validators set these options in the group `kafka_options` only if they have to
create the group: if there is one already, `config_create_path` returns a null pointer, and so do
the defaults of the init functions.  A user who sets any other option of librdkafka loses the safety
option.

The validator of the producer looks for the transactional id under a name that is not the one it is
read from, so that it is never found.
-/

namespace Schaufel

namespace Kafka

/-- The option that the user has set. -/
def option (config : Setting) (name : CString) : Option Setting :=
  config.getPath (ascii "kafka_options") name

/-- In the configuration `after`, an option has the value the user gave it in `config`, or else
`value`. -/
def SafeOption (config after : Setting) (name value : CString) : Prop :=
  option after name = some ((option config name).getD (.string value))

variable {config config' config'' : Setting}

/-! ### The group `kafka_options` -/

/-- Nothing happens if there is a setting of that name. -/
theorem createOptions_of_isSome {defaults : List (CString × CString)} {options : Setting}
    (hdefaults : setDefaults (.group []) defaults = some options) (hgroup : config.isGroup = true)
    (h : (config.getMember (ascii "kafka_options")).isSome = true) :
    createOptions config defaults = some config := by
  rw [createOptions_eq hdefaults, (Setting.add_eq_none_iff hgroup).mpr h]
  rfl

/-- The configuration after `config_create_path` for `kafka_options` and one option in the new
group. -/
structure Created (config config' : Setting) (name value : CString) : Prop where
  isGroup : config'.isGroup = true
  topicOptions : config'.getMember (ascii "topic_options") =
      config.getMember (ascii "topic_options")
  created : config.getMember (ascii "kafka_options") = none →
    config'.getMember (ascii "kafka_options") = some (.group [(name, .string value)])
  kept : (config.getMember (ascii "kafka_options")).isSome = true → config' = config

theorem created_of_createOptions {name value : CString} (hgroup : config.isGroup = true)
    (hdefaults : setDefaults (.group []) [(name, value)] = some (.group [(name, .string value)]))
    (h : createOptions config [(name, value)] = some config') :
    Created config config' name value := by
  cases hmember : config.getMember (ascii "kafka_options") with
  | none =>
    rw [createOptions_eq hdefaults] at h
    obtain ⟨config₁, hadd⟩ := Setting.exists_add hgroup hmember (.group [(name, .string value)])
    obtain rfl : config₁ = config' := by simpa [hadd] using h
    refine ⟨?_, Setting.getMember_add_of_ne (by decide) hadd, fun _ => ?_, fun hsome => ?_⟩
    · rw [Setting.isGroup_add hadd, hgroup]
    · exact Setting.getMember_add_self hgroup hadd
    · rw [hmember] at hsome
      cases hsome
  | some found =>
    have hsome : (config.getMember (ascii "kafka_options")).isSome = true := by rw [hmember]; rfl
    rw [createOptions_of_isSome hdefaults hgroup hsome] at h
    obtain rfl := Option.some.inj h
    refine ⟨hgroup, rfl, fun hnone => ?_, fun _ => rfl⟩
    rw [hmember] at hnone
    cases hnone

/-- The options after the validator: those of the new group, or those of the user. -/
theorem option_of_created {name value other : CString}
    (hcreated : Created config config' name value) (hkeeps : KeepsOptions config' config'')
    (hother : other ≠ ascii "enable_auto_commit") :
    (config''.getMember (ascii "kafka_options")).isSome = true ∧
      option config'' other =
        if config.getMember (ascii "kafka_options") = none then
          if other = name then some (.string value) else none
        else option config other := by
  cases hmember : config.getMember (ascii "kafka_options") with
  | none =>
    obtain ⟨found, hfound, -, hname⟩ := hkeeps.options _ (hcreated.created hmember)
    refine ⟨by rw [hfound]; rfl, ?_⟩
    rw [option, Setting.getPath, hfound, Option.bind_some, hname other hother, if_pos rfl,
      Setting.getMember_group_singleton]
  | some found =>
    obtain rfl := hcreated.kept (by rw [hmember]; rfl)
    obtain ⟨found', hfound', -, hname⟩ := hkeeps.options found hmember
    refine ⟨by rw [hfound']; rfl, ?_⟩
    rw [option, Setting.getPath, hfound', Option.bind_some, hname other hother, if_neg (by simp),
      option, Setting.getPath, hmember, Option.bind_some]

/-- The option is safe exactly if the group was created or the user has set it. -/
theorem safeOption_iff {after : Setting} {name value : CString}
    (h : option after name = if config.getMember (ascii "kafka_options") = none then
      some (.string value)
      else option config name) :
    SafeOption config after name value ↔
      config.getMember (ascii "kafka_options") = none ∨ (option config name).isSome = true := by
  rw [SafeOption, h]
  by_cases hmember : config.getMember (ascii "kafka_options") = none
  · have hnone : option config name = none := by rw [option, Setting.getPath, hmember]; rfl
    simp [hmember, hnone]
  · rw [if_neg hmember]
    cases hoption : option config name with
    | none => simp [hmember]
    | some user => simp

/-! ### Transactional consumers -/

/-- A transactional consumer that is accepted has a group, and the options of a new group. -/
theorem created_of_consumer (htransactional : config.lookupBool (ascii "transactional") = some true)
    (h : kafkaConsumerValidator config = .ok config') :
    ∃ config₁, Created config config₁ (ascii "enable_auto_offset_store") (ascii "false") ∧
      KeepsOptions config₁ config' := by
  obtain ⟨config₀, hgroupid, h⟩ := bind_eq_ok_iff.mp h
  obtain ⟨config₁, hoptions, hvalidator⟩ := bind_eq_ok_iff.mp h
  have hgroup := isGroup_of_lookupBool htransactional
  have hkeeps := kafkaValidator_keeps hvalidator
  unfold disableHighLevel at hgroupid
  split at hgroupid
  · rename_i hsome
    obtain rfl := Except.ok.inj hgroupid
    rw [transactionalConsumer, if_pos htransactional, hsome] at hoptions
    exact ⟨config₁, created_of_createOptions hgroup rfl (orCrash_eq_ok_iff.mp hoptions), hkeeps⟩
  · -- Without a group the default changes `kafka_options` only, and the consumer is refused.
    rename_i hnone
    have hdefault := orCrash_eq_ok_iff.mp hgroupid
    have hmember : ∀ name, name ≠ ascii "kafka_options" →
        config₀.getMember name = config.getMember name :=
      fun name => getMember_configSetDefaultString pathNames_enableAutoCommit hgroup hdefault
    rw [Setting.lookupBool, ← hmember _ (by decide)] at htransactional
    rw [Setting.lookupString, ← hmember _ (by decide)] at hnone
    rw [transactionalConsumer, Setting.lookupBool, if_pos htransactional, Setting.lookupString,
      hnone] at hoptions
    cases hoptions

/-- The defaults of the consumer: the options are there already, and the options of the topic must
be a group. -/
theorem consumerDefaults_spec (hgroup : config.isGroup = true)
    (hoptions : (config.getMember (ascii "kafka_options")).isSome = true) :
    ((kafkaConsumerDefaults config).isSome = true ↔
      ∀ found ∈ config.getMember (ascii "topic_options"), found.isGroup = true) ∧
    ∀ after, kafkaConsumerDefaults config = some after →
      ∀ name, option after name = option config name := by
  rw [kafkaConsumerDefaults, createOptions_of_isSome rfl hgroup hoptions, Option.bind_some]
  refine ⟨configSetDefaultString_isSome_iff pathNames_autoOffsetReset hgroup,
    fun after hafter name => ?_⟩
  rw [option, option, Setting.getPath, Setting.getPath,
    getMember_configSetDefaultString pathNames_autoOffsetReset hgroup hafter (by decide)]

/-! ### Transactional producers -/

theorem created_of_producer (htransactional : config.lookupBool (ascii "transactional") = some true)
    (h : kafkaProducerValidator config = .ok config') :
    ∃ config₁, Created config config₁ (ascii "enable_idempotence") (ascii "true") ∧
      KeepsOptions config₁ config' := by
  obtain ⟨config₁, hoptions, hvalidator⟩ := bind_eq_ok_iff.mp h
  have hgroup := isGroup_of_lookupBool htransactional
  rw [transactionalProducer, if_pos htransactional] at hoptions
  obtain ⟨config₂, hcreate, hid⟩ := bind_eq_ok_iff.mp hoptions
  have hcreated := created_of_createOptions hgroup rfl (orCrash_eq_ok_iff.mp hcreate)
  split at hid
  · cases hid
  · obtain rfl := Except.ok.inj hid
    exact ⟨config₂, hcreated, kafkaValidator_keeps hvalidator⟩

/-- The defaults of the producer: `kafka_options` must be a group, and two options are set. -/
theorem producerDefaults_spec (hgroup : config.isGroup = true) :
    ((kafkaProducerDefaults config).isSome = true ↔
      ∀ found ∈ config.getMember (ascii "kafka_options"), found.isGroup = true) ∧
    ∀ after, kafkaProducerDefaults config = some after →
      ∀ name, name ≠ ascii "compression_codec" → name ≠ ascii "queue_buffering_max_ms" →
        option after name = option config name := by
  have hcodec : pathNames (ascii "kafka_options/compression_codec") =
      some [ascii "kafka_options", ascii "compression_codec"] := by decide
  have hbuffer : pathNames (ascii "kafka_options/queue_buffering_max_ms") =
      some [ascii "kafka_options", ascii "queue_buffering_max_ms"] := by decide
  have hdefaults : kafkaProducerDefaults config =
      (configSetDefaultString config (ascii "kafka_options/compression_codec") (ascii "lz4")).bind
        fun config₁ => configSetDefaultString config₁ (ascii "kafka_options/queue_buffering_max_ms")
          (ascii "1000") := by
    simp [kafkaProducerDefaults, setDefaults]
  rw [hdefaults, ← configSetDefaultString_isSome_iff hcodec hgroup]
  cases hfirst : configSetDefaultString config (ascii "kafka_options/compression_codec")
    (ascii "lz4") with
  | none => simp
  | some config₁ =>
    have hgroup₁ := isGroup_configSetDefaultString hcodec hgroup hfirst
    refine ⟨?_, fun after hafter name hne hne' => ?_⟩
    · simp only [Option.bind_some, Option.isSome_some, iff_true]
      rw [configSetDefaultString_isSome_iff hbuffer hgroup₁]
      exact isGroup_of_configSetDefaultString hcodec hgroup hfirst
    · rw [option, getPath_configSetDefaultString hbuffer hgroup₁ hafter hne',
        getPath_configSetDefaultString hcodec hgroup hfirst hne, option]

/-! ### When the options are safe -/

theorem consumer_safe_iff (htransactional : config.lookupBool (ascii "transactional") = some true)
    (h : kafkaConsumerValidator config = .ok config') :
    (∃ after, kafkaConsumerDefaults config' = some after ∧
        SafeOption config after (ascii "enable_auto_offset_store") (ascii "false")) ↔
      (config.getMember (ascii "kafka_options") = none ∨
          (option config (ascii "enable_auto_offset_store")).isSome = true) ∧
        ∀ found ∈ config.getMember (ascii "topic_options"), found.isGroup = true := by
  obtain ⟨config₁, hcreated, hkeeps⟩ := created_of_consumer htransactional h
  obtain ⟨hsome, hoption⟩ := option_of_created hcreated hkeeps
    (show ascii "enable_auto_offset_store" ≠ ascii "enable_auto_commit" by decide)
  rw [if_pos rfl] at hoption
  obtain ⟨hreturns, hframe⟩ := consumerDefaults_spec (hkeeps.isGroup.trans hcreated.isGroup) hsome
  rw [hkeeps.topicOptions, hcreated.topicOptions] at hreturns
  constructor
  · rintro ⟨after, hafter, hsafe⟩
    refine ⟨(safeOption_iff ((hframe after hafter _).trans hoption)).mp hsafe, hreturns.mp ?_⟩
    rw [hafter]
    rfl
  · rintro ⟨hcond, htopic⟩
    obtain ⟨after, hafter⟩ := Option.isSome_iff_exists.mp (hreturns.mpr htopic)
    exact ⟨after, hafter, (safeOption_iff ((hframe after hafter _).trans hoption)).mpr hcond⟩

/-- The options are a group after the validator if the validator has created them or the user has
set one of them. -/
theorem isGroup_options {name value other : CString} (hcreated : Created config config' name value)
    (hkeeps : KeepsOptions config' config'')
    (h : config.getMember (ascii "kafka_options") = none ∨ (option config other).isSome = true) :
    ∀ found ∈ config''.getMember (ascii "kafka_options"), found.isGroup = true := by
  intro found hfound
  cases hmember : config.getMember (ascii "kafka_options") with
  | none =>
    obtain ⟨found', hfound', hgroup, -⟩ := hkeeps.options _ (hcreated.created hmember)
    obtain rfl := Option.some.inj (hfound'.symm.trans hfound)
    exact hgroup
  | some user =>
    obtain rfl := hcreated.kept (by rw [hmember]; rfl)
    obtain ⟨found', hfound', hgroup, -⟩ := hkeeps.options user hmember
    obtain rfl := Option.some.inj (hfound'.symm.trans hfound)
    obtain ⟨set, hset⟩ := Option.isSome_iff_exists.mp (h.resolve_left (by simp [hmember]))
    rw [option, Setting.getPath, hmember, Option.bind_some] at hset
    rw [hgroup, Setting.isGroup_of_getMember hset]

theorem producer_safe_iff (htransactional : config.lookupBool (ascii "transactional") = some true)
    (h : kafkaProducerValidator config = .ok config') :
    (∃ after, kafkaProducerDefaults config' = some after ∧
        SafeOption config after (ascii "enable_idempotence") (ascii "true") ∧
        option after (ascii "transactional_id") = none) ↔
      config.getMember (ascii "kafka_options") = none ∨
        (option config (ascii "enable_idempotence")).isSome = true ∧
          option config (ascii "transactional_id") = none := by
  obtain ⟨config₁, hcreated, hkeeps⟩ := created_of_producer htransactional h
  have hoption := (option_of_created hcreated hkeeps
    (show ascii "enable_idempotence" ≠ ascii "enable_auto_commit" by decide)).2
  have hid := (option_of_created hcreated hkeeps
    (show ascii "transactional_id" ≠ ascii "enable_auto_commit" by decide)).2
  rw [if_pos rfl] at hoption
  rw [if_neg (show ascii "transactional_id" ≠ ascii "enable_idempotence" by decide)] at hid
  obtain ⟨hreturns, hframe⟩ := producerDefaults_spec (hkeeps.isGroup.trans hcreated.isGroup)
  have hsafe_iff : ∀ after, kafkaProducerDefaults config' = some after →
      (SafeOption config after (ascii "enable_idempotence") (ascii "true") ↔
        config.getMember (ascii "kafka_options") = none ∨
          (option config (ascii "enable_idempotence")).isSome = true) := fun after hafter =>
    safeOption_iff ((hframe after hafter _ (by decide) (by decide)).trans hoption)
  have hid_eq : ∀ after, kafkaProducerDefaults config' = some after →
      option after (ascii "transactional_id") =
        if config.getMember (ascii "kafka_options") = none then none
        else option config (ascii "transactional_id") := fun after hafter =>
    (hframe after hafter _ (by decide) (by decide)).trans hid
  constructor
  · rintro ⟨after, hafter, hsafe, hnone⟩
    rw [hsafe_iff after hafter] at hsafe
    rw [hid_eq after hafter] at hnone
    by_cases hmember : config.getMember (ascii "kafka_options") = none
    · exact .inl hmember
    · rw [if_neg hmember] at hnone
      exact .inr ⟨hsafe.resolve_left hmember, hnone⟩
  · intro hcond
    have hset : config.getMember (ascii "kafka_options") = none ∨
        (option config (ascii "enable_idempotence")).isSome = true := hcond.imp_right And.left
    obtain ⟨after, hafter⟩ := Option.isSome_iff_exists.mp
      (hreturns.mpr (isGroup_options hcreated hkeeps hset))
    refine ⟨after, hafter, (hsafe_iff after hafter).mpr hset, ?_⟩
    rw [hid_eq after hafter]
    by_cases hmember : config.getMember (ascii "kafka_options") = none
    · rw [if_pos hmember]
    · rw [if_neg hmember, (hcond.resolve_left hmember).2]

/-- A consumer with some other option of librdkafka. -/
def carelessConsumer : Setting :=
  .group [(ascii "broker", .string (ascii "b")), (ascii "topic", .string (ascii "t")),
    (ascii "groupid", .string (ascii "g")), (ascii "transactional", .bool true),
    (ascii "kafka_options", .group [(ascii "fetch_min_bytes", .string (ascii "1"))])]

/-- A producer with a transactional id. -/
def transactionalIdProducer : Setting :=
  .group [(ascii "broker", .string (ascii "b")), (ascii "topic", .string (ascii "t")),
    (ascii "transactional", .bool true),
    (ascii "kafka_options", .group [(ascii "transactional_id", .string (ascii "x"))])]

/-- The consumer is accepted and its offset store is not turned off.  The producer is accepted with
its transactional id, and is not idempotent. -/
theorem safety_options_missing :
    (((kafkaConsumerValidator carelessConsumer).toOption.bind kafkaConsumerDefaults).map
      fun after =>
        (option after (ascii "enable_auto_offset_store")).isSome) = some false ∧
      (((kafkaProducerValidator transactionalIdProducer).toOption.bind kafkaProducerDefaults).map
        fun after =>
        ((option after (ascii "enable_idempotence")).isSome,
          (option after (ascii "transactional_id")).isSome)) = some (false, true) := by
  decide +kernel

/-- The options of an accepted transactional consumer are safe after the init functions exactly if
the user has set the option or has no setting `kafka_options`; the init function returns if the
options of the topic are a group.  The same holds of a producer, which must have no transactional
id. -/
theorem transactional_options_safe_iff {config : Setting}
    (htransactional : config.lookupBool (ascii "transactional") = some true) :
    (∀ config', kafkaConsumerValidator config = .ok config' →
      ((∃ after, kafkaConsumerDefaults config' = some after ∧
          SafeOption config after (ascii "enable_auto_offset_store") (ascii "false")) ↔
        (config.getMember (ascii "kafka_options") = none ∨
            (option config (ascii "enable_auto_offset_store")).isSome = true) ∧
          ∀ found ∈ config.getMember (ascii "topic_options"), found.isGroup = true)) ∧
    ∀ config', kafkaProducerValidator config = .ok config' →
      ((∃ after, kafkaProducerDefaults config' = some after ∧
          SafeOption config after (ascii "enable_idempotence") (ascii "true") ∧
          option after (ascii "transactional_id") = none) ↔
        config.getMember (ascii "kafka_options") = none ∨
          (option config (ascii "enable_idempotence")).isSome = true ∧
            option config (ascii "transactional_id") = none) :=
  ⟨fun _ h => consumer_safe_iff htransactional h, fun _ h => producer_safe_iff htransactional h⟩

/-- A consumer without options of its own. -/
def plainConsumer : Setting :=
  .group [(ascii "broker", .string (ascii "b")), (ascii "topic", .string (ascii "t")),
    (ascii "groupid", .string (ascii "g")), (ascii "transactional", .bool true)]

theorem transactional_options_safe_plain :
    ∃ consumer after producer after', kafkaConsumerValidator plainConsumer = .ok consumer ∧
      kafkaConsumerDefaults consumer = some after ∧
      SafeOption plainConsumer after (ascii "enable_auto_offset_store") (ascii "false") ∧
      kafkaProducerValidator plainConsumer = .ok producer ∧
      kafkaProducerDefaults producer = some after' ∧
      SafeOption plainConsumer after' (ascii "enable_idempotence") (ascii "true") := by
  obtain ⟨hconsumer, hproducer⟩ := transactional_options_safe_iff
    (show plainConsumer.lookupBool (ascii "transactional") = some true by decide)
  obtain ⟨consumer, hvalid⟩ : ∃ consumer, kafkaConsumerValidator plainConsumer = .ok consumer :=
    ⟨_, rfl⟩
  obtain ⟨producer, hvalid'⟩ : ∃ producer, kafkaProducerValidator plainConsumer = .ok producer :=
    ⟨_, rfl⟩
  obtain ⟨after, hafter, hsafe⟩ := (hconsumer consumer hvalid).mpr ⟨.inl rfl, fun _ h => nomatch h⟩
  obtain ⟨after', hafter', hsafe', -⟩ := (hproducer producer hvalid').mpr (.inl rfl)
  exact ⟨consumer, after, producer, after', hvalid, hafter, hsafe, hvalid', hafter', hsafe'⟩

end Kafka

end Schaufel
