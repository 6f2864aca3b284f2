import Schaufel.Config.Logger

/-!
# From the configuration of the logger to its sink

`logger_init` of `src/utils/logger.c` reads the configuration again that `logger_validate` has
accepted. `logger_validate` compares the type in lower case, `logger_init` as it is written; and the
loop of `logger_validate` over the facilities stops before the last row of the table, so that it
never finds out that a facility is missing, while the loop of `logger_init` goes on to the last row,
which has no name.
-/

namespace Schaufel

/-- Why `logger_init` does not come back. -/
inductive LoggerFault
  /-- `exit(1)`. -/
  | exited
  /-- A pointer is dereferenced that is null or was never set. -/
  | crashed
  deriving DecidableEq, Repr

/-- Where the log goes. -/
inductive LogSink
  | file (fname : CString) (mode : UInt32)
  | stderr
  | stdout
  | null
  | syslog (ident : CString) (facility : Int)
  deriving DecidableEq, Repr

/-- The type for which a sink is meant. -/
def LogSink.type : LogSink → CString
  | .file _ _ => ascii "file"
  | .stderr => ascii "stderr"
  | .stdout => ascii "stdout"
  | .null => ascii "null"
  | .syslog _ _ => ascii "syslog"

/-- `strncmp(a, b, n) == 0`: the first `n` bytes are the same, up to the terminators. -/
def sameStart (a b : CString) (n : Nat) : Bool := (a ++ [0]).take n = (b ++ [0]).take n

/-- The loop of `logger_init` over the facilities.  Behind the rows there is the one with a null
pointer for a name, which `strcmp` would read. -/
def facilityInitLoop (facility : CString) : List (CString × Int) → Except LoggerFault Int
  | [] => .error .crashed
  | row :: rest =>
    if row.1 = facility then .ok row.2
    else if row.2 > -1 then facilityInitLoop facility rest
    else .ok row.2

/-- The branch of `logger_init` for syslog. -/
def syslogSink (config : Setting) : Except LoggerFault LogSink :=
  match config.lookupString (ascii "facility"), config.lookupString (ascii "ident") with
  | some facility, some ident =>
    (facilityInitLoop facility facilitynames).bind fun res =>
      if res = -1 then .error .exited else .ok (.syslog ident res)
  | _, _ => .error .exited

/-- The branch of `logger_init` for a file, which can be opened; there is none at a null pointer. -/
def fileSink (config : Setting) : Except LoggerFault LogSink :=
  match config.lookupString (ascii "file") with
  | some fname => .ok (.file fname (loggerMode config))
  | none => .error .exited

/-- The branches of `logger_init`. -/
def loggerSink (config : Setting) (type : CString) : Except LoggerFault LogSink :=
  if sameStart type (ascii "file") 4 then fileSink config
  else if sameStart type (ascii "stderr") 6 then .ok .stderr
  else if sameStart type (ascii "stdout") 6 then .ok .stdout
  else if sameStart type (ascii "null") 6 then .ok .null
  else if sameStart type (ascii "syslog") 6 then syslogSink config
  else .error .exited

/-- `logger_init`. -/
def loggerInit (config : Setting) : Except LoggerFault LogSink :=
  match config.lookupString (ascii "type") with
  | some type => loggerSink config type
  | none => .error .crashed

/-! ### The type -/

/-- The types that `logger_validate` accepts. -/
def loggerTypes : List CString :=
  [ascii "file", ascii "stdout", ascii "stderr", ascii "null", ascii "syslog"]

/-- The words that `logger_init` compares a type with, and how much of them. -/
def loggerTests : List (CString × Nat) :=
  [(ascii "file", 4), (ascii "stderr", 6), (ascii "stdout", 6), (ascii "null", 6),
    (ascii "syslog", 6)]

/-- Strings that start alike do so in lower case. -/
theorem sameStart_strlwr {a b : CString} {n : Nat} (h : sameStart a b n = true) :
    sameStart (strlwr a) (strlwr b) n = true := by
  have hlower : ∀ s : CString, (strlwr s ++ [0]).take n = ((s ++ [0]).take n).map toLower := by
    intro s
    rw [List.map_take, List.map_append]
    rfl
  simp only [sameStart, decide_eq_true_eq] at h ⊢
  rw [hlower, hlower, h]

/-- Strings of the same length that start alike over that length are the same. -/
theorem eq_of_sameStart {a b : CString} {n : Nat} (hlength : a.length = b.length)
    (hn : b.length ≤ n) (h : sameStart a b n = true) : a = b := by
  have htake := of_decide_eq_true h
  have htake' := congrArg (List.take b.length) htake
  rw [List.take_take, List.take_take, Nat.min_eq_left hn, ← hlength, List.take_left, hlength,
    List.take_left] at htake'
  exact htake'

/-- `logger_init` knows an accepted type only if it is written in lower case. -/
theorem loggerSink_of_ne (config : Setting) {type : CString} (hlower : strlwr type ∈ loggerTypes)
    (hne : strlwr type ≠ type) : loggerSink config type = .error .exited := by
  have hwords : ∀ lower ∈ loggerTypes, ∀ test ∈ loggerTests, sameStart lower test.1 test.2 = true →
      lower = test.1 := by
    decide
  have hlengths : ∀ test ∈ loggerTests, strlwr test.1 = test.1 ∧ test.1.length ≤ test.2 := by decide
  have hfalse : ∀ test ∈ loggerTests, ¬ sameStart type test.1 test.2 = true := by
    intro test htest hsame
    have hsame' := sameStart_strlwr hsame
    rw [(hlengths test htest).1] at hsame'
    have hword := hwords _ hlower test htest hsame'
    have hlength : type.length = test.1.length := by rw [← hword, strlwr, List.length_map]
    exact hne (hword.trans (eq_of_sameStart hlength (hlengths test htest).2 hsame).symm)
  simp only [loggerTests, List.forall_mem_cons, List.not_mem_nil, false_imp_iff, implies_true,
    and_true] at hfalse
  obtain ⟨hfile, hstderr, hstdout, hnull, hsyslog⟩ := hfalse
  rw [loggerSink, if_neg hfile, if_neg hstderr, if_neg hstdout, if_neg hnull, if_neg hsyslog]

/-! ### The facility -/

/-- The loop finds the facilities of the table, and no other one. -/
theorem facilityInitLoop_spec (facility : CString) {rows : List (CString × Int)}
    (hrows : ∀ row ∈ rows, -1 < row.2) :
    (facility ∈ rows.map Prod.fst ∧ ∃ res, facilityInitLoop facility rows = .ok res ∧ res ≠ -1) ∨
      (facility ∉ rows.map Prod.fst ∧ facilityInitLoop facility rows = .error .crashed) := by
  induction rows with
  | nil => exact .inr ⟨by simp, rfl⟩
  | cons row rest ih =>
    rw [List.forall_mem_cons] at hrows
    rw [facilityInitLoop, List.map_cons, List.mem_cons]
    split_ifs with hname hvalue
    · exact .inl ⟨.inl hname.symm, row.2, rfl, by omega⟩
    · rcases ih hrows.2 with ⟨hmem, hres⟩ | ⟨hmem, hcrash⟩
      · exact .inl ⟨.inr hmem, hres⟩
      · exact .inr ⟨not_or.mpr ⟨Ne.symm hname, hmem⟩, hcrash⟩
    · omega

/-- Syslog is opened exactly for a facility of the table. -/
theorem syslogSink_iff {config : Setting} {facility ident : CString}
    (hfacility : config.lookupString (ascii "facility") = some facility)
    (hident : config.lookupString (ascii "ident") = some ident) :
    (∃ sink, syslogSink config = .ok sink ∧ sink.type = ascii "syslog") ↔
      facility ∈ facilitynames.map Prod.fst := by
  rw [syslogSink, hfacility, hident]
  dsimp only
  rcases @facilityInitLoop_spec facility facilitynames (by decide) with
    ⟨hmem, res, hres, hne⟩ | ⟨hmem, hcrash⟩
  · rw [hres]
    refine iff_of_true ⟨.syslog ident res, ?_, rfl⟩ hmem
    exact if_neg hne
  · rw [hcrash]
    refine iff_of_false ?_ hmem
    rintro ⟨sink, hsink, -⟩
    cases hsink

/-! ### What `logger_validate` leaves -/

/-- A string that was there or was added, and nothing else. -/
structure Defaulted (name value : CString) (config config' : Setting) : Prop where
  isGroup : config'.isGroup = true
  lookup : config'.lookupString name = some ((config.lookupString name).getD value)
  other : ∀ other ≠ name, config'.getMember other = config.getMember other

theorem Defaulted.of_add {name value : CString} {config config' : Setting}
    (hgroup : config.isGroup = true) (hnone : config.getMember name = none)
    (h : config.add name (.string value) = some config') :
    Defaulted name value config config' := by
  refine ⟨(Setting.isGroup_add h).trans hgroup, ?_,
    fun other hne => Setting.getMember_add_of_ne hne h⟩
  rw [Setting.lookupString, Setting.lookupString, Setting.getMember_add_self hgroup h, hnone]
  rfl

theorem Defaulted.of_string {name value given : CString} {config : Setting}
    (hgroup : config.isGroup = true) (h : config.getMember name = some (.string given)) :
    Defaulted name value config config := by
  refine ⟨hgroup, ?_, fun _ _ => rfl⟩
  rw [Setting.lookupString, h]
  rfl

theorem defaulted_of_loggerFacility {config config' : Setting} (hgroup : config.isGroup = true)
    (h : loggerFacility config = .ok config') :
    Defaulted (ascii "facility") (ascii "daemon") config config' := by
  unfold loggerFacility at h
  split at h
  · rename_i hnone
    exact .of_add hgroup hnone (orCrash_eq_ok_iff.mp h)
  · rename_i facility hfacility
    split_ifs at h
    obtain rfl := Except.ok.inj h
    exact .of_string hgroup hfacility
  · cases h

theorem defaulted_of_loggerIdent {config config' : Setting} (hgroup : config.isGroup = true)
    (h : loggerIdent config = .ok config') :
    Defaulted (ascii "ident") (ascii "schaufel") config config' := by
  unfold loggerIdent at h
  split at h
  · rename_i hnone
    exact .of_add hgroup hnone (orCrash_eq_ok_iff.mp h)
  · rename_i ident hident
    obtain rfl := Except.ok.inj h
    exact .of_string hgroup hident
  · cases h

/-- What is accepted for syslog: the facility that was given or the default one, and an ident. -/
theorem syslog_of_validate {config config' : Setting} (hgroup : config.isGroup = true)
    (h : loggerFacility config >>= loggerIdent = .ok config') :
    (∃ ident, config'.lookupString (ascii "ident") = some ident) ∧
      config'.lookupString (ascii "facility") =
        some ((config.lookupString (ascii "facility")).getD (ascii "daemon")) ∧
      config'.lookupString (ascii "type") = config.lookupString (ascii "type") := by
  obtain ⟨config₁, hfacility, hident⟩ := bind_eq_ok_iff.mp h
  have hfirst := defaulted_of_loggerFacility hgroup hfacility
  have hsecond := defaulted_of_loggerIdent hfirst.isGroup hident
  refine ⟨⟨_, hsecond.lookup⟩, ?_, ?_⟩
  · rw [Setting.lookupString, hsecond.other _ (by decide)]
    exact hfirst.lookup
  · rw [Setting.lookupString, hsecond.other _ (by decide), hfirst.other _ (by decide)]
    rfl

/-- The cases in which a type is accepted. -/
theorem loggerOfType_eq_ok {config config' : Setting} {lower : CString}
    (h : loggerOfType config lower = .ok config') :
    (lower = ascii "file" ∧ config' = config ∧
      ∃ fname, config.lookupString (ascii "file") = some fname) ∨
      (lower ∈ [ascii "stdout", ascii "stderr", ascii "null"] ∧ config' = config) ∨
      (lower = ascii "syslog" ∧ loggerFacility config >>= loggerIdent = .ok config') := by
  unfold loggerOfType at h
  split_ifs at h with hfile hstdout hstderr hnull hsyslog
  · unfold loggerFile at h
    split_ifs at h with hbits hmode hnone
    obtain rfl := Except.ok.inj h
    rw [Option.isNone_iff_eq_none, ← ne_eq, Option.ne_none_iff_exists'] at hnone
    exact .inl ⟨hfile, rfl, hnone⟩
  · exact .inr (.inl ⟨by simp [hstdout], (Except.ok.inj h).symm⟩)
  · exact .inr (.inl ⟨by simp [hstderr], (Except.ok.inj h).symm⟩)
  · exact .inr (.inl ⟨by simp [hnull], (Except.ok.inj h).symm⟩)
  · exact .inr (.inr ⟨hsyslog, h⟩)

/-- An accepted type is one of the types of a logger, in lower case. -/
theorem mem_loggerTypes_of_ok {config config' : Setting} {lower : CString}
    (h : loggerOfType config lower = .ok config') : lower ∈ loggerTypes := by
  rcases loggerOfType_eq_ok h with ⟨rfl, -⟩ | ⟨hplain, -⟩ | ⟨rfl, -⟩
  · decide
  · clear h
    revert lower
    decide
  · decide

/-- The validation leaves the type alone. -/
theorem lookupString_type_of_ok {config config' : Setting} {lower : CString}
    (hgroup : config.isGroup = true) (h : loggerOfType config lower = .ok config') :
    config'.lookupString (ascii "type") = config.lookupString (ascii "type") := by
  rcases loggerOfType_eq_ok h with ⟨-, rfl, -⟩ | ⟨-, rfl⟩ | ⟨-, hsyslog⟩
  · rfl
  · rfl
  · exact (syslog_of_validate hgroup hsyslog).2.2

/-! ### Validation and initialisation -/

/-- A facility that the table has, where one is given. -/
def KnownFacility (config : Setting) : Prop :=
  ∀ facility ∈ config.lookupString (ascii "facility"), facility ∈ facilitynames.map Prod.fst

/-- What the validation of a logger is to guarantee. -/
structure LoggerReady (config config' : Setting) (type : CString) : Prop where
  /-- `logger_init` selects the sink of the type. -/
  sink : ∃ sink, loggerInit config' = .ok sink ∧ sink.type = strlwr type
  /-- No other facility is accepted than those of the table. -/
  facility : strlwr type = ascii "syslog" → KnownFacility config

/-- The facility of syslog is in the table exactly if none is given or the one that is given is. -/
theorem knownFacility_iff (config : Setting) :
    (config.lookupString (ascii "facility")).getD (ascii "daemon") ∈ facilitynames.map Prod.fst ↔
      KnownFacility config := by
  unfold KnownFacility
  cases config.lookupString (ascii "facility") with
  | none => exact iff_of_true (by decide) (by simp)
  | some facility => simp

/-- The sinks that need nothing but their type. -/
theorem loggerSink_plain (config : Setting) {type : CString}
    (h : type ∈ [ascii "stdout", ascii "stderr", ascii "null"]) :
    ∃ sink, loggerSink config type = .ok sink ∧ sink.type = type := by
  simp only [List.mem_cons, List.not_mem_nil, or_false] at h
  rcases h with rfl | rfl | rfl
  · exact ⟨.stdout, rfl, rfl⟩
  · exact ⟨.stderr, rfl, rfl⟩
  · exact ⟨.null, rfl, rfl⟩

/-- A logger that `logger_validate` accepts is initialised as it should be exactly if its type is
written in lower case and, for syslog, its facility is in the table. -/
theorem logger_ready_iff {config config' : Setting} {type : CString}
    (htype : config.lookupString (ascii "type") = some type)
    (h : loggerValidate config = .ok config') :
    LoggerReady config config' type ↔
      strlwr type = type ∧ (type = ascii "syslog" → KnownFacility config) := by
  rw [loggerValidate, htype] at h
  change loggerOfType config (strlwr type) = .ok config' at h
  have hgroup := Setting.isGroup_of_getMember (Setting.getMember_of_lookupString htype)
  have hinit : loggerInit config' = loggerSink config' type := by
    rw [loggerInit, lookupString_type_of_ok hgroup h, htype]
  by_cases hlower : strlwr type = type
  · rw [and_iff_right hlower]
    refine ⟨fun hready htype => hready.facility (hlower.trans htype), fun hknown => ⟨?_, ?_⟩⟩
    · rw [hinit, hlower]
      rw [hlower] at h
      rcases loggerOfType_eq_ok h with ⟨rfl, rfl, fname, hfname⟩ | ⟨hplain, rfl⟩ | ⟨rfl, hsyslog⟩
      · refine ⟨.file fname (loggerMode config'), ?_, rfl⟩
        show fileSink config' = _
        rw [fileSink, hfname]
      · exact loggerSink_plain config' hplain
      · obtain ⟨⟨ident, hident⟩, hfacility, -⟩ := syslog_of_validate hgroup hsyslog
        exact (syslogSink_iff hfacility hident).mpr ((knownFacility_iff config).mpr (hknown rfl))
    · exact fun hsyslog => hknown (hlower.symm.trans hsyslog)
  · refine iff_of_false ?_ fun hcond => hlower hcond.1
    rintro ⟨⟨sink, hsink, -⟩, -⟩
    rw [hinit, loggerSink_of_ne config' (mem_loggerTypes_of_ok h) hlower] at hsink
    cases hsink

/-- A logger for the facility that is taken if none is given. -/
theorem logger_ready_syslog :
    ∃ config', loggerValidate (.group [(ascii "type", .string (ascii "syslog"))]) = .ok config' ∧
      LoggerReady (.group [(ascii "type", .string (ascii "syslog"))]) config' (ascii "syslog") :=
  ⟨_, rfl, (logger_ready_iff rfl rfl).mpr
    ⟨by decide, fun _ => (knownFacility_iff _).mp (by decide)⟩⟩

/-- Two loggers that are accepted: `logger_init` exits for a type that is not written in lower case,
and compares a facility that is not in the table with a null pointer. -/
theorem accepted_loggers_fail :
    loggerValidate (.group [(ascii "type", .string (ascii "FILE")),
      (ascii "file", .string (ascii "log"))]) =
        .ok (.group [(ascii "type", .string (ascii "FILE")),
          (ascii "file", .string (ascii "log"))]) ∧
      loggerInit (.group [(ascii "type", .string (ascii "FILE")),
        (ascii "file", .string (ascii "log"))]) =
        .error .exited ∧
      ∃ config', loggerValidate (.group [(ascii "type", .string (ascii "syslog")),
          (ascii "facility", .string (ascii "local8"))]) = .ok config' ∧
        loggerInit config' = .error .crashed :=
  ⟨rfl, rfl, _, rfl, rfl⟩

end Schaufel
