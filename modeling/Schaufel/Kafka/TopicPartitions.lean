import Schaufel.Foundation.Alphabet
import Schaufel.Kafka.PartitionLists
import Schaufel.Kafka.Validate

/-!
# From a topic to its partitions

`kafka_validator` cuts a topic at its colon, and `kafka_consumer_init` expands the list behind it.
-/

namespace Schaufel.Kafka

variable {config config' : Setting} {name : CString} {items : List Item}

/-- The part of `kafka_consumer_init` that expands the partitions, if there are any; `none` says
that the program aborts. -/
def consumerPartitions (config : Setting) : Option (Option (List Int32)) :=
  (kafkaConsumerDefaults config).bind fun config =>
    match config.getMember (ascii "partitions") with
    | none => some none
    | some kpart => (explodePartitions kpart.getString).map some

/-! ### The validator -/

/-- A topic that matches has at most one colon. -/
theorem count_colon_of_rmatch {topic : CString} (h : topicRegex.rmatch topic = true) :
    topic.count 58 ≤ 1 := by
  rw [RegularExpression.rmatch_iff_matches'] at h
  obtain ⟨a, ha, b, hb, rfl⟩ := Language.mem_mul.mp h
  have hname : (58 : UInt8) ∉ a := fun hmem =>
    absurd (mem_symbols_of_matches ha _ hmem) (by decide)
  rw [List.count_append, List.count_eq_zero_of_not_mem hname, Nat.zero_add]
  rcases hb with hb | hb
  · obtain rfl : b = [] := hb
    decide
  · obtain ⟨colon, hcolon, w, hw, rfl⟩ := Language.mem_mul.mp hb
    obtain rfl : colon = [58] := hcolon
    have hlist : (58 : UInt8) ∉ w := fun hmem =>
      absurd (mem_symbols_of_matches hw _ hmem) (by decide)
    rw [List.count_append, List.count_eq_zero_of_not_mem hlist]
    decide

/-- A topic with a list behind its last colon is cut there. -/
theorem matchTopic_eq {spec : CString} (h : topicRegex.rmatch (name ++ 58 :: spec) = true) :
    matchTopic (name ++ 58 :: spec) = some (name, some spec) := by
  have hcount := count_colon_of_rmatch h
  rw [List.count_append, List.count_cons_self] at hcount
  have hname : (58 : UInt8) ∉ name := List.count_eq_zero.mp (by omega)
  have hds : ∀ c ∈ name, decide (c ≠ 58) = true := fun c hc => by
    rw [decide_eq_true_eq]
    rintro rfl
    exact hname hc
  have hstop : ∀ c ∈ (58 :: spec).head?, decide (c ≠ 58) = false := by
    rintro c ⟨⟩
    rfl
  rw [matchTopic, if_pos h, takeWhile_of_stop hds hstop, dropWhile_of_stop hds hstop,
    if_pos (by simp)]
  rfl

theorem getMember_disableAutoCommit {other : CString} (hne : other ≠ ascii "kafka_options")
    (h : disableAutoCommit config = .ok config') :
    config'.getMember other = config.getMember other := by
  unfold disableAutoCommit at h
  split at h
  · exact Setting.getMember_add_of_ne hne (orCrash_eq_ok_iff.mp h)
  · obtain rfl := Except.ok.inj h
    exact Setting.getMember_set_of_ne hne
  · cases h

/-- A topic with a list of partitions is split into the two. -/
theorem split_of_splitTopic {spec : CString} {topic : Setting}
    (htopic : config.getMember (ascii "topic") = some topic)
    (h : splitTopic config (name ++ 58 :: spec) = .ok config') :
    config'.getMember (ascii "topic") = some (.string name) ∧
      config'.getMember (ascii "partitions") = some (.string spec) := by
  have hmatch : topicRegex.rmatch (name ++ 58 :: spec) = true := by
    by_contra hno
    rw [splitTopic, matchTopic, if_neg hno] at h
    cases h
  rw [splitTopic, matchTopic_eq hmatch] at h
  dsimp only at h
  split at h
  · cases h
  · obtain ⟨config₁, hadd, hdisable⟩ := bind_eq_ok_iff.mp h
    have hadd := orCrash_eq_ok_iff.mp hadd
    have hgroup := Setting.isGroup_of_getMember htopic
    have hne : ascii "topic" ≠ ascii "partitions" := by decide
    constructor
    · rw [getMember_disableAutoCommit (by decide) hdisable, Setting.getMember_add_of_ne hne hadd,
        Setting.getMember_set_self (by rw [htopic]; rfl)]
    · rw [getMember_disableAutoCommit (by decide) hdisable]
      exact Setting.getMember_add_self (by rw [Setting.isGroup_set, hgroup]) hadd

/-- What `kafka_validator` leaves of a topic with a list of partitions. -/
theorem split_of_kafkaValidator {spec : CString}
    (htopic : config.lookupString (ascii "topic") = some (name ++ 58 :: spec))
    (h : kafkaValidator config = .ok config') :
    config'.getMember (ascii "topic") = some (.string name) ∧
      config'.getMember (ascii "partitions") = some (.string spec) := by
  have hmember := Setting.getMember_of_lookupString htopic
  obtain ⟨broker, -, h⟩ := bind_eq_ok_iff.mp h
  obtain ⟨topic, hof, h⟩ := bind_eq_ok_iff.mp h
  obtain ⟨config₁, hsplit, hcheck⟩ := bind_eq_ok_iff.mp h
  obtain rfl : name ++ 58 :: spec = topic := by
    rw [topicOf, hmember] at hof
    exact Except.ok.inj hof
  obtain ⟨htopic', hpartitions⟩ := split_of_splitTopic hmember hsplit
  -- the list has been checked already, and is left alone
  rw [checkPartitions, hpartitions] at hcheck
  dsimp only at hcheck
  split at hcheck
  · obtain rfl := Except.ok.inj hcheck
    exact ⟨htopic', hpartitions⟩
  · cases hcheck

/-- The defaults of a consumer leave the partitions alone. -/
theorem getMember_kafkaConsumerDefaults {after : Setting} (hgroup : config.isGroup = true)
    (h : kafkaConsumerDefaults config = some after) :
    after.getMember (ascii "partitions") = config.getMember (ascii "partitions") := by
  rw [kafkaConsumerDefaults, createOptions_eq rfl, Option.bind_some] at h
  rw [getMember_configSetDefaultString pathNames_autoOffsetReset
    (Setting.isGroup_getD_add.trans hgroup) h
    (by decide)]
  exact Setting.getMember_getD_add_of_ne (by decide)

/-- A topic `name:spec` that is accepted is split into name and list, and the consumer expands the
list; the array is the list as it is written exactly if the list is read so. -/
theorem partitions_expanded_iff
    (htopic : config.lookupString (ascii "topic") = some (name ++ 58 :: specText items))
    (hvalid : kafkaValidator config = .ok config') :
    config'.lookupString (ascii "topic") = some name ∧
      config'.lookupString (ascii "partitions") = some (specText items) ∧
      (consumerPartitions config' = (kafkaConsumerDefaults config').bind fun _ =>
        (explodePartitions (some (specText items))).map some) ∧
      (AsWritten items (explodePartitions (some (specText items))) ↔ ReadAsWritten items) := by
  obtain ⟨htopic', hpartitions⟩ := split_of_kafkaValidator htopic hvalid
  refine ⟨?_, ?_, ?_, asWritten_iff items⟩
  · rw [Setting.lookupString, htopic']
    rfl
  · rw [Setting.lookupString, hpartitions]
    rfl
  · rw [consumerPartitions]
    rcases hdefaults : kafkaConsumerDefaults config' with _ | after
    · rfl
    · have hgroup := Setting.isGroup_of_getMember htopic'
      rw [Option.bind_some, getMember_kafkaConsumerDefaults hgroup hdefaults, hpartitions]
      rfl

/-- A number of one digit. -/
def oneDigit (c : UInt8) (h : isDigit c = true) : Item :=
  .number ⟨[c], List.cons_ne_nil _ _, List.forall_mem_singleton.mpr h⟩

/-- A consumer of a topic. -/
def consumerOf (topic : CString) : Setting :=
  .group [(ascii "broker", .string (ascii "b")), (ascii "topic", .string topic)]

/-- A single partition is assigned. -/
theorem single_partition_expanded :
    ∃ config', kafkaValidator (consumerOf (ascii "t:5")) = .ok config' ∧
      config'.lookupString (ascii "topic") = some (ascii "t") ∧
      config'.lookupString (ascii "partitions") = some (ascii "5") ∧
      AsWritten [oneDigit 53 rfl] (explodePartitions (some (ascii "5"))) := by
  obtain ⟨config', hvalid⟩ : ∃ config', kafkaValidator (consumerOf (ascii "t:5")) = .ok config' :=
    ⟨_, rfl⟩
  obtain ⟨htopic, hpartitions, -, hwritten⟩ :=
    @partitions_expanded_iff (consumerOf (ascii "t:5")) config' (ascii "t") [oneDigit 53 rfl]
      rfl hvalid
  refine ⟨config', hvalid, htopic, hpartitions,
    hwritten.mpr (.inl ⟨by decide, ⟨?_, by decide⟩, ?_⟩)⟩
  · unfold NumbersFit
    decide
  · unfold Numeral.ReadsOctal
    decide

/-- Two partitions abort. -/
theorem two_partitions_abort :
    ∃ config', kafkaValidator (consumerOf (ascii "t:1,2")) = .ok config' ∧
      config'.lookupString (ascii "partitions") =
        some (specText [oneDigit 49 rfl, oneDigit 50 rfl]) ∧
      Fits [oneDigit 49 rfl, oneDigit 50 rfl] ∧
      ¬ AsWritten [oneDigit 49 rfl, oneDigit 50 rfl]
        (explodePartitions (config'.lookupString (ascii "partitions"))) := by
  have hfits : Fits [oneDigit 49 rfl, oneDigit 50 rfl] := by
    unfold Fits NumbersFit
    decide
  refine ⟨_, rfl, rfl, hfits, ?_⟩
  rintro (⟨-, hreturns⟩ | ⟨hunfit, -⟩)
  · exact absurd (explodePartitions_many (oneDigit 49 rfl) (oneDigit 50 rfl) [])
      (hreturns ▸ Option.some_ne_none _)
  · exact hunfit hfits

end Schaufel.Kafka
