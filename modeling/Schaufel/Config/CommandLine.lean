import Mathlib.Data.List.TakeWhile
import Schaufel.Config.Validate
import Schaufel.Foundation.Alphabet
import Schaufel.Foundation.Strtoul

/-!
# The command line

`config_merge` puts the options of the command line on top of a configuration file.  A logger that
is given by `-l` is parsed by `logger_parse` with a regular expression, and whatever does not match
is the name of a file.  The options of a consumer or of a producer make up a list with one entry,
which takes the place of the list of the file.

* `loggerParse_accepted`: `logger_validate` accepts every logger of the command line, also one with
  a syslog facility that does not exist.
* `config_merged`: where `config_merge` aborts, and what it makes of a configuration.
-/

namespace Schaufel

/-! ### The logger -/

/-- A word. -/
def wordRegex (word : CString) : RegularExpression UInt8 := word.foldr (fun c r => .char c * r) 1

/-- `[0-7]`. -/
def octalClass : CString := ascii "01234567"

/-- `[[:alnum:]]`. -/
def alnumClass : CString := ascii "0123456789ABCDEFGHIJKLMNOPQRSTUVWXYZabcdefghijklmnopqrstuvwxyz"

/-- `.`, which is any character. -/
def anyClass : CString := (List.range 255).map fun n => UInt8.ofNat (n + 1)

/-- `^(STDOUT$|STDERR$|NULL$)`. -/
def streamRegex : RegularExpression UInt8 :=
  wordRegex (ascii "STDOUT") + wordRegex (ascii "STDERR") + wordRegex (ascii "NULL")

/-- `^(FILE):([0-7]{3,4}:)?(.+$)`. -/
def fileRegex : RegularExpression UInt8 :=
  wordRegex (ascii "FILE") * .char 58 *
    atMostOnce (charClass octalClass * charClass octalClass * charClass octalClass *
      atMostOnce (charClass octalClass) * .char 58) * oneOrMore (charClass anyClass)

/-- `^(SYSLOG(:[^:]+)?(:[[:alnum:]]+$)|SYSLOG$)`. -/
def syslogRegex : RegularExpression UInt8 :=
  wordRegex (ascii "SYSLOG") *
    atMostOnce (.char 58 * oneOrMore (charClass (anyClass.filter (· ≠ 58)))) *
    (.char 58 * oneOrMore (charClass alnumClass)) + wordRegex (ascii "SYSLOG")

/-- A standard stream, or none at all. -/
def loggerStream (c : CString) : Option CString :=
  if c = ascii "STDOUT" then some (ascii "stdout")
  else if c = ascii "STDERR" then some (ascii "stderr")
  else if c = ascii "NULL" then some (ascii "null")
  else none

/-- The mode and the name of a log file: the sub-matches 3 and 4 in the text behind `FILE:`. -/
def modeOf (s : CString) : Option CString × CString :=
  match s.dropWhile (isDigitOf 8) with
  | 58 :: file =>
    if (s.takeWhile (isDigitOf 8)).length ∈ [3, 4] ∧ file ≠ [] then
      (some (s.takeWhile (isDigitOf 8)), file)
    else (none, s)
  | _ => (none, s)

/-- The ident and the facility of syslog: the sub-matches 6 and 7 in the text behind `SYSLOG:`. -/
def identOf (s : CString) : Option CString × CString :=
  if s.contains 58 then (some (s.takeWhile (· ≠ 58)), (s.dropWhile (· ≠ 58)).tail) else (none, s)

/-- A log file with the bits of a mode; the program aborts if one of the special bits is set. -/
def loggerModeFile (digits : Option CString) (file : CString) : Option Setting :=
  match digits with
  | none => some (.group [(ascii "type", .string (ascii "file")), (ascii "file", .string file)])
  | some digits =>
    let m := UInt32.ofNat (numberOf 8 digits)
    if m &&& 0o7000 ≠ 0 then none
    else some (.group [(ascii "type", .string (ascii "file")), (ascii "mode", .int m.toInt32),
      (ascii "file", .string file)])

/-- Syslog with what stands behind the colons.  The ident is cut at 510 characters. -/
def loggerSyslog : CString → Setting
  | [] => .group [(ascii "type", .string (ascii "syslog"))]
  | _ :: s =>
    .group ([(ascii "type", .string (ascii "syslog")), (ascii "facility", .string (identOf s).2)] ++
      (identOf s).1.toList.map fun ident => (ascii "ident", .string (ident.take 510)))

/-- `logger_parse`; `none` says that the program aborts. -/
def loggerParse (c : CString) : Option Setting :=
  if streamRegex.rmatch c then
    (loggerStream c).map fun type => .group [(ascii "type", .string type)]
  else if fileRegex.rmatch c then loggerModeFile (modeOf (c.drop 5)).1 (modeOf (c.drop 5)).2
  else if syslogRegex.rmatch c then some (loggerSyslog (c.drop 6))
  else some (.group [(ascii "type", .string (ascii "file")), (ascii "file", .string c),
    (ascii "mode", .int 0o640)])

/-! ### The options -/

/-- The options of a consumer or of a producer. -/
structure SideOptions where
  /-- `input` or `output`, 0 if the option is not given. -/
  module : UInt8
  threads : Int32
  broker : Option CString
  host : Option CString
  groupid : Option CString
  topic : Option CString
  file : Option CString
  /-- 0 if the option is not given. -/
  pipeline : Int32
  user : Option CString

/-- `struct Options`, as far as `config_merge` reads it. -/
structure Options where
  logger : Option CString
  consumers : SideOptions
  producers : SideOptions

/-- The options of one type of threads. -/
def Options.side (o : Options) : ThreadType → SideOptions
  | .consumer => o.consumers
  | .producer => o.producers

/-- `module_to_string`; the program aborts if there is no such module. -/
def moduleToString (module : UInt8) : Option CString :=
  if module = 100 then some (ascii "dummy")
  else if module = 114 then some (ascii "redis")
  else if module = 107 then some (ascii "kafka")
  else if module = 112 then some (ascii "postgres")
  else if module = 102 then some (ascii "file")
  else none

/-- The settings of the entry of a consumer or of a producer, each if it is given. -/
def SideOptions.settings (o : SideOptions) (type : CString) : List (CString × Option Setting) :=
  [(ascii "type", some (.string type)), (ascii "threads", some (.int o.threads)),
    (ascii "broker", o.broker.map .string), (ascii "host", o.host.map .string),
    (ascii "groupid", o.groupid.map .string), (ascii "topic", o.topic.map .string),
    (ascii "file", o.file.map .string),
    (ascii "pipeline", if o.pipeline = 0 then none else some (.int o.pipeline)),
    (ascii "user", o.user.map .string)]

/-- A group of the settings that are given. -/
def givenGroup (settings : List (CString × Option Setting)) : Setting :=
  .group (settings.filterMap fun s => s.2.map fun value => (s.1, value))

/-- The entry of a consumer or of a producer. -/
def sideEntry (o : SideOptions) (type : CString) : Setting := givenGroup (o.settings type)

/-- `_add_node` with a name: a member of that name is replaced. -/
def addNode (config : Setting) (name : CString) (child : Setting) : Option Setting :=
  (config.remove name).add name child

/-- The part of `config_merge` for consumers or producers. -/
def mergeSide (type : ThreadType) (o : SideOptions) (config : Setting) : Option Setting :=
  if o.module = 0 then some config
  else (moduleToString o.module).bind fun kind =>
    addNode config type.name (.list [sideEntry o kind])

/-- The part of `config_merge` for the logger. -/
def mergeLogger (logger : Option CString) (config : Setting) : Option Setting := do
  let config ← match logger with
    | none => some config
    | some c => (loggerParse c).bind (addNode config (ascii "logger"))
  match config.getMember (ascii "logger") with
  | some _ => some config
  | none => addNode config (ascii "logger") (.group [(ascii "type", .string (ascii "stderr"))])

/-- `config_merge` behind the reading of the file; `none` says that the program aborts. -/
def configMerge (config : Setting) (o : Options) : Option Setting := do
  let config ← mergeLogger o.logger config
  let config ← mergeSide .consumer o.consumers config
  mergeSide .producer o.producers config

/-! ### Loggers of the command line -/

theorem mem_streamRegex {c : CString} (h : streamRegex.rmatch c = true) :
    c = ascii "STDOUT" ∨ c = ascii "STDERR" ∨ c = ascii "NULL" := by
  rw [RegularExpression.rmatch_iff_matches'] at h
  rcases h with (h | h) | h
  · exact Or.inl (mem_matches'_word.mp h)
  · exact Or.inr (Or.inl (mem_matches'_word.mp h))
  · exact Or.inr (Or.inr (mem_matches'_word.mp h))

theorem mem_anyClass {a : UInt8} (h : a ≠ 0) : a ∈ anyClass := by
  have hpos : a.toNat ≠ 0 := fun h0 => h (UInt8.toNat_inj.mp h0)
  have hlt := a.toNat_lt
  refine List.mem_map.mpr ⟨a.toNat - 1, List.mem_range.mpr (by omega), ?_⟩
  rw [Nat.sub_add_cancel (by omega), UInt8.ofNat_toNat]

/-- Whatever stands behind the word and the colon is a file, with a mode or without. -/
theorem rmatch_fileRegex_iff {c : CString} (hc : 0 ∉ c) :
    fileRegex.rmatch c = true ↔ ∃ file, c = ascii "FILE:" ++ file ∧ file ≠ [] := by
  rw [RegularExpression.rmatch_iff_matches']
  constructor
  · intro h
    obtain ⟨u, hu, file, hfile, rfl⟩ := Language.mem_mul.mp h
    obtain ⟨w, hw, mode, -, rfl⟩ := Language.mem_mul.mp hu
    obtain ⟨name, hname, colon, hcolon, rfl⟩ := Language.mem_mul.mp hw
    obtain rfl := mem_matches'_word.mp hname
    obtain rfl : colon = [58] := hcolon
    refine ⟨mode ++ file, by simp [ascii], fun hnil => ?_⟩
    exact (mem_matches'_mul_star_class.mp hfile).1 (List.append_eq_nil_iff.mp hnil).2
  · rintro ⟨file, rfl, hne⟩
    refine Language.mem_mul.mpr ⟨ascii "FILE" ++ [58] ++ [],
      Language.mem_mul.mpr ⟨_, ?_, [], Or.inl rfl, rfl⟩, file,
      mem_matches'_mul_star_class.mpr ⟨hne, fun a ha => ?_⟩, by simp [ascii]⟩
    · exact Language.mem_mul.mpr ⟨_, mem_matches'_word.mpr rfl, [58], rfl, rfl⟩
    · refine mem_anyClass ?_
      rintro rfl
      exact hc (List.mem_append_right _ ha)

/-- A file with a mode that has one of the special bits. -/
def SpecialMode (c : CString) : Prop :=
  ∃ digits file, c = ascii "FILE:" ++ digits ++ 58 :: file ∧ digits.length ∈ [3, 4] ∧
    (∀ d ∈ digits, isDigitOf 8 d = true) ∧ file ≠ [] ∧ 0o1000 ≤ numberOf 8 digits

/-- The mode of a file is what stands before the first colon, if it is three or four octal
digits. -/
theorem modeOf_eq_some_iff {s digits file : CString} :
    modeOf s = (some digits, file) ↔ s = digits ++ 58 :: file ∧ digits.length ∈ [3, 4] ∧
      (∀ d ∈ digits, isDigitOf 8 d = true) ∧ file ≠ [] := by
  constructor
  · intro h
    unfold modeOf at h
    split at h
    · rename_i rest hdrop
      split at h
      · rename_i hcond
        cases h
        refine ⟨?_, hcond.1, fun d hd => List.mem_takeWhile_imp hd, hcond.2⟩
        rw [← hdrop, List.takeWhile_append_dropWhile]
      · cases h
    · cases h
  · rintro ⟨rfl, hlength, hdigits, hne⟩
    have hstop : ∀ c ∈ (58 :: file).head?, isDigitOf 8 c = false := by
      rintro c ⟨⟩
      rfl
    rw [modeOf, dropWhile_of_stop hdigits hstop, takeWhile_of_stop hdigits hstop]
    exact if_pos ⟨hlength, hne⟩

/-- Octal digits make a number below a power of eight. -/
theorem ofDigits_octal_lt {digits : CString} (h : ∀ d ∈ digits, isDigitOf 8 d = true) :
    ofDigits 8 digits < 8 ^ digits.length := by
  induction digits with
  | nil => exact Nat.one_pos
  | cons d digits ih =>
    obtain ⟨hd, hdigits⟩ := List.forall_mem_cons.mp h
    have hvalue := (isDigitOf_iff (by decide) d).mp hd
    have hle : (d.toNat - 48) * 8 ^ digits.length ≤ 7 * 8 ^ digits.length :=
      Nat.mul_le_mul_right _ (by omega)
    have hrest := ih hdigits
    rw [ofDigits_cons, List.length_cons, Nat.pow_succ]
    omega

/-- Three or four octal digits make a mode. -/
theorem numberOf_lt_of_mode {digits : CString} (hlength : digits.length ∈ [3, 4])
    (hdigits : ∀ d ∈ digits, isDigitOf 8 d = true) : numberOf 8 digits < 0o10000 := by
  rw [numberOf_eq (by decide) hdigits]
  refine Nat.lt_of_lt_of_le (ofDigits_octal_lt hdigits) ?_
  simp only [List.mem_cons, List.not_mem_nil, or_false] at hlength
  rcases hlength with h | h <;> rw [h] <;> decide

/-- The special bits of a mode are those of its fourth digit. -/
theorem special_bits_iff {m : Nat} (hm : m < 0o10000) :
    UInt32.ofNat m &&& 0o7000 ≠ 0 ↔ 0o1000 ≤ m := by
  have hbits : ∀ high < 64, ∀ low < 64, (64 * high + low) &&& 0o7000 ≠ 0 ↔ 8 ≤ high := by
    decide +kernel
  have hm' := hbits (m / 64) (by omega) (m % 64) (by omega)
  rw [Nat.div_add_mod] at hm'
  have hnat : UInt32.ofNat m &&& 0o7000 ≠ 0 ↔ m &&& 0o7000 ≠ 0 := by
    rw [Ne, Ne, ← UInt32.toNat_inj, UInt32.toNat_and, UInt32.toNat_ofNat',
      Nat.mod_eq_of_lt (by omega)]
    rfl
  rw [hnat, hm']
  omega

/-- `logger_parse` aborts on files with special modes only. -/
theorem loggerParse_eq_none_iff {c : CString} (hc : 0 ∉ c) :
    loggerParse c = none ↔ SpecialMode c := by
  have hstream : ∀ c, streamRegex.rmatch c = true → loggerStream c ≠ none := by
    intro c h
    rcases mem_streamRegex h with rfl | rfl | rfl <;> decide
  -- no stream looks like a file
  have hfile : ∀ file, streamRegex.rmatch (ascii "FILE:" ++ file) = false := by
    intro file
    by_contra h
    rcases mem_streamRegex (by simpa using h) with h | h | h <;> simp [ascii] at h
  unfold loggerParse
  split_ifs with h₁ h₂ h₃
  · refine iff_of_false (by simpa using hstream c h₁) ?_
    rintro ⟨digits, file, rfl, -⟩
    rw [List.append_assoc, hfile] at h₁
    cases h₁
  · obtain ⟨text, rfl, hne⟩ := (rmatch_fileRegex_iff hc).mp h₂
    have hdrop : (ascii "FILE:" ++ text).drop 5 = text := List.drop_left' rfl
    have hspecial : SpecialMode (ascii "FILE:" ++ text) ↔
        ∃ digits file, modeOf text = (some digits, file) ∧
          0o1000 ≤ numberOf 8 digits := by
      simp only [SpecialMode, List.append_assoc, List.append_cancel_left_eq, modeOf_eq_some_iff,
        and_assoc]
    rw [hspecial, hdrop]
    rcases hmode : modeOf text with ⟨mode, file⟩
    cases mode with
    | none => simp [loggerModeFile]
    | some digits =>
      obtain ⟨-, hlength, hdigits, -⟩ := modeOf_eq_some_iff.mp hmode
      rw [loggerModeFile, ite_eq_left_iff]
      simp only [reduceCtorEq, imp_false, not_not,
        special_bits_iff (numberOf_lt_of_mode hlength hdigits), Prod.mk.injEq, Option.some.injEq]
      constructor
      · exact fun h => ⟨digits, file, ⟨rfl, rfl⟩, h⟩
      · rintro ⟨d, f, ⟨rfl, rfl⟩, h⟩
        exact h
  · refine iff_of_false (by simp) ?_
    rintro ⟨digits, file, rfl, -, -, hne, -⟩
    refine h₂ ((rmatch_fileRegex_iff hc).mpr ⟨digits ++ 58 :: file, List.append_assoc .., by simp⟩)
  · refine iff_of_false (by simp) ?_
    rintro ⟨digits, file, rfl, -, -, hne, -⟩
    refine h₂ ((rmatch_fileRegex_iff hc).mpr ⟨digits ++ 58 :: file, List.append_assoc .., by simp⟩)

theorem facilityLoop_ne {facility : CString} {rows : List (CString × Int)} {res : Int}
    (hrows : ∀ row ∈ rows, row.2 ≠ -1) (h : rows ≠ [] ∨ res ≠ -1) :
    facilityLoop facility rows res ≠ -1 := by
  induction rows generalizing res with
  | nil => exact h.resolve_left fun hne => hne rfl
  | cons row rows ih =>
    obtain ⟨hrow, hrows⟩ := List.forall_mem_cons.mp hrows
    rw [facilityLoop]
    split
    · exact hrow
    · exact ih hrows (Or.inr hrow)

/-- A log file is accepted with a mode that has no special bits. -/
theorem loggerValidate_file {config : Setting} {file : CString} (mode : Nat)
    (htype : config.lookupString (ascii "type") = some (ascii "file"))
    (hfile : config.lookupString (ascii "file") = some file)
    (hmode : loggerMode config = UInt32.ofNat mode) (hlt : mode < 0o1000) :
    loggerValidate config = .ok config := by
  have hlower : strlwr (ascii "file") = ascii "file" := by decide
  have hopen : loggerValidate config = loggerOfType config (strlwr (ascii "file")) := by
    rw [loggerValidate, htype]
    rfl
  have hspecial : ¬ UInt32.ofNat mode &&& 0o7000 ≠ 0 := by
    rw [special_bits_iff (by omega)]
    omega
  have hle : ¬ UInt32.ofNat mode > 0o7777 := by
    rw [gt_iff_lt, UInt32.lt_iff_toNat_lt, UInt32.toNat_ofNat', Nat.mod_eq_of_lt (by omega)]
    exact Nat.not_lt.mpr (by show mode ≤ 4095; omega)
  rw [hopen, hlower, loggerOfType, if_pos rfl, loggerFile, hmode, if_neg hspecial, if_neg hle,
    hfile]
  rfl

/-- Syslog is accepted with any facility. -/
theorem loggerValidate_syslog (text : CString) :
    ∃ logger, loggerValidate (loggerSyslog text) = .ok logger := by
  cases text with
  | nil => exact ⟨_, rfl⟩
  | cons c s =>
    have hfacility : facilityLoop (identOf s).2 facilitynames (-1) ≠ -1 :=
      facilityLoop_ne (by decide) (Or.inl (by decide))
    have hopen : loggerValidate (loggerSyslog (c :: s)) =
        loggerFacility (loggerSyslog (c :: s)) >>= loggerIdent := rfl
    have hkeeps : loggerFacility (loggerSyslog (c :: s)) = .ok (loggerSyslog (c :: s)) :=
      if_neg hfacility
    rw [hopen, hkeeps, loggerSyslog]
    cases (identOf s).1 with
    | none => exact ⟨_, rfl⟩
    | some ident => exact ⟨_, rfl⟩

/-- `logger_validate` accepts every logger of the command line. -/
theorem loggerParse_accepted {c : CString} {logger : Setting} (h : loggerParse c = some logger) :
    ∃ logger', loggerValidate logger = .ok logger' := by
  unfold loggerParse at h
  split_ifs at h with h₁ h₂ h₃
  · obtain ⟨type, htype, rfl⟩ := Option.map_eq_some_iff.mp h
    unfold loggerStream at htype
    split_ifs at htype <;> cases htype <;> exact ⟨_, rfl⟩
  · rcases hmode : modeOf (c.drop 5) with ⟨mode, file⟩
    rw [hmode] at h
    cases mode with
    | none =>
      cases h
      exact ⟨_, loggerValidate_file 0o640 rfl rfl rfl (by decide)⟩
    | some digits =>
      obtain ⟨-, hlength, hdigits, -⟩ := modeOf_eq_some_iff.mp hmode
      have hlt := numberOf_lt_of_mode hlength hdigits
      simp only [loggerModeFile] at h
      split_ifs at h with hspecial
      cases h
      refine ⟨_, loggerValidate_file (numberOf 8 digits) rfl rfl ?_ ?_⟩
      · show (UInt32.ofNat (numberOf 8 digits)).toInt32.toUInt32 = _
        exact UInt32.toUInt32_toInt32 _
      · rw [special_bits_iff hlt] at hspecial
        omega
  · cases h
    exact loggerValidate_syslog _
  · cases h
    exact ⟨_, loggerValidate_file 0o640 rfl rfl rfl (by decide)⟩

/-! ### The merged configuration -/

/-- A named node takes the place of a member, and the others stay. -/
theorem addNode_spec {config : Setting} (hgroup : config.isGroup = true) (name : CString)
    (child : Setting) :
    ∃ config', addNode config name child = some config' ∧ config'.isGroup = true ∧
      config'.getMember name = some child ∧
      ∀ other, other ≠ name → config'.getMember other = config.getMember other := by
  have hgroup' : (config.remove name).isGroup = true := by rw [Setting.isGroup_remove, hgroup]
  obtain ⟨config', hadd⟩ := Setting.exists_add hgroup' Setting.getMember_remove_self child
  refine ⟨config', hadd, (Setting.isGroup_add hadd).trans hgroup',
    Setting.getMember_add_self hgroup' hadd, fun other hne => ?_⟩
  rw [Setting.getMember_add_of_ne hne hadd, Setting.getMember_remove_of_ne hne]

/-- What is given is found, and what is not is missing. -/
theorem getMember_givenGroup {settings : List (CString × Option Setting)}
    (hnodup : (settings.map Prod.fst).Nodup) {s : CString × Option Setting} (hs : s ∈ settings) :
    (givenGroup settings).getMember s.1 = s.2 := by
  rw [givenGroup, Setting.getMember, Setting.members]
  induction settings with
  | nil => cases hs
  | cons r settings ih =>
    obtain ⟨hfree, hnodup⟩ := List.nodup_cons.mp hnodup
    rcases List.mem_cons.mp hs with rfl | hs
    · cases hvalue : s.2 with
      | some value => simp [hvalue]
      | none =>
        rw [List.filterMap_cons_none (by rw [hvalue]; rfl), List.lookup_eq_none_iff]
        rintro ⟨key, value⟩ hmem
        obtain ⟨r, hr, hrvalue⟩ := List.mem_filterMap.mp hmem
        obtain ⟨v, -, hv⟩ := Option.map_eq_some_iff.mp hrvalue
        cases hv
        simpa using fun heq : s.1 = r.1 => hfree (List.mem_map.mpr ⟨r, hr, heq.symm⟩)
    · have hne : s.1 ≠ r.1 := fun heq => hfree (List.mem_map.mpr ⟨s, hs, heq⟩)
      have hne' : (s.1 == r.1) = false := by simpa using hne
      cases hvalue : r.2 with
      | some value =>
        rw [List.filterMap_cons_some (by rw [hvalue]; rfl), List.lookup_cons, hne']
        exact ih hnodup hs
      | none =>
        rw [List.filterMap_cons_none (by rw [hvalue]; rfl)]
        exact ih hnodup hs

/-- The entry of the command line has the options that are given. -/
theorem getMember_sideEntry {o : SideOptions} {type : CString} {s : CString × Option Setting}
    (hs : s ∈ o.settings type) : (sideEntry o type).getMember s.1 = s.2 := by
  have hkeys : (o.settings type).map Prod.fst = [ascii "type", ascii "threads", ascii "broker",
    ascii "host", ascii "groupid", ascii "topic", ascii "file", ascii "pipeline", ascii "user"] :=
    rfl
  exact getMember_givenGroup (by rw [hkeys]; decide) hs

/-- What `config_merge` makes of one list of threads. -/
structure SideMerged (type : ThreadType) (o : SideOptions) (config config' : Setting) : Prop where
  isGroup : config'.isGroup = true
  /-- The list of the file stays if the command line has none. -/
  same : o.module = 0 → config'.getMember type.name = config.getMember type.name
  /-- Otherwise the list has one entry, that of the command line. -/
  given : o.module ≠ 0 → ∃ kind, moduleToString o.module = some kind ∧
    config'.getMember type.name = some (.list [sideEntry o kind])
  others : ∀ name, name ≠ type.name → config'.getMember name = config.getMember name

theorem mergeSide_spec (type : ThreadType) (o : SideOptions) {config : Setting}
    (hgroup : config.isGroup = true) :
    (mergeSide type o config = none ↔ o.module ≠ 0 ∧ moduleToString o.module = none) ∧
      ∀ config', mergeSide type o config = some config' → SideMerged type o config config' := by
  unfold mergeSide
  by_cases hmodule : o.module = 0
  · rw [if_pos hmodule]
    refine ⟨by simp [hmodule], ?_⟩
    rintro config' ⟨⟩
    exact ⟨hgroup, fun _ => rfl, fun hne => absurd hmodule hne, fun _ _ => rfl⟩
  · rw [if_neg hmodule]
    cases hkind : moduleToString o.module with
    | none => exact ⟨by simp [hmodule], fun config' h => by cases h⟩
    | some kind =>
      obtain ⟨config₁, hadd, hgroup₁, hself, hothers⟩ :=
        addNode_spec hgroup type.name (.list [sideEntry o kind])
      rw [Option.bind_some, hadd]
      refine ⟨by simp, ?_⟩
      rintro config' ⟨⟩
      exact ⟨hgroup₁, fun h => absurd h hmodule,
        fun _ => ⟨kind, hkind, hself⟩, hothers⟩

/-- What `config_merge` does to the logger. -/
theorem mergeLogger_spec (logger : Option CString) (hlogger : ∀ c ∈ logger, 0 ∉ c)
    {config : Setting} (hgroup : config.isGroup = true) :
    (mergeLogger logger config = none ↔ ∃ c ∈ logger, SpecialMode c) ∧
      ∀ config', mergeLogger logger config = some config' → config'.isGroup = true ∧
        (∃ found, config'.getMember (ascii "logger") = some found ∧
          (found ∈ config.getMember (ascii "logger") ∧ logger = none ∨
            ∃ accepted, loggerValidate found = .ok accepted)) ∧
        ∀ other, other ≠ ascii "logger" → config'.getMember other = config.getMember other := by
  cases logger with
  | none =>
    cases hfound : config.getMember (ascii "logger") with
    | some found =>
      have hmerge : mergeLogger none config = some config := by simp [mergeLogger, hfound]
      rw [hmerge]
      refine ⟨by simp, ?_⟩
      rintro config' ⟨⟩
      exact ⟨hgroup, ⟨found, hfound, Or.inl ⟨rfl, rfl⟩⟩, fun _ _ => rfl⟩
    | none =>
      obtain ⟨config₁, hadd, hgroup₁, hself, hothers⟩ := addNode_spec hgroup (ascii "logger")
        (.group [(ascii "type", .string (ascii "stderr"))])
      have hmerge : mergeLogger none config = some config₁ := by simp [mergeLogger, hfound, hadd]
      rw [hmerge]
      refine ⟨by simp, ?_⟩
      rintro config' ⟨⟩
      exact ⟨hgroup₁, ⟨_, hself, Or.inr ⟨_, rfl⟩⟩, hothers⟩
  | some c =>
    have hnone := loggerParse_eq_none_iff (hlogger c rfl)
    cases hparse : loggerParse c with
    | none =>
      have hmerge : mergeLogger (some c) config = none := by simp [mergeLogger, hparse]
      rw [hmerge]
      exact ⟨by simp [← hnone, hparse], fun config' h => by cases h⟩
    | some found =>
      obtain ⟨config₁, hadd, hgroup₁, hself, hothers⟩ := addNode_spec hgroup (ascii "logger") found
      have hmerge : mergeLogger (some c) config = some config₁ := by
        simp [mergeLogger, hparse, hadd, hself]
      rw [hmerge]
      refine ⟨by simp [← hnone, hparse], ?_⟩
      rintro config' ⟨⟩
      exact ⟨hgroup₁, ⟨found, hself, Or.inr (loggerParse_accepted hparse)⟩, hothers⟩

/-- `config_merge` aborts exactly on a logger with a special file mode and on the letter of a module
that does not exist.  Otherwise there is a logger afterwards: that of the file if the command line
has none, or one that `logger_validate` accepts.  Each list of threads is that of the file, or it
has one entry, which has the options of the command line that are given and nothing else.  All other
settings are those of the file. -/
theorem config_merged (config : Setting) (hgroup : config.isGroup = true) (o : Options)
    (hlogger : ∀ c ∈ o.logger, 0 ∉ c) :
    (configMerge config o = none ↔ (∃ c ∈ o.logger, SpecialMode c) ∨
      ∃ type, (o.side type).module ≠ 0 ∧ moduleToString (o.side type).module = none) ∧
    ∀ config', configMerge config o = some config' →
      (∃ found, config'.getMember (ascii "logger") = some found ∧
        (found ∈ config.getMember (ascii "logger") ∧ o.logger = none ∨
          ∃ accepted, loggerValidate found = .ok accepted)) ∧
      (∀ type, (o.side type).module = 0 →
        config'.getMember type.name = config.getMember type.name) ∧
      (∀ type, (o.side type).module ≠ 0 → ∃ kind, moduleToString (o.side type).module = some kind ∧
        config'.getMember type.name = some (.list [sideEntry (o.side type) kind]) ∧
        ∀ s ∈ (o.side type).settings kind, (sideEntry (o.side type) kind).getMember s.1 = s.2) ∧
      ∀ name, name ∉ [ascii "logger", ascii "consumers", ascii "producers"] →
        config'.getMember name = config.getMember name := by
  obtain ⟨hnone₁, hspec₁⟩ := mergeLogger_spec o.logger hlogger hgroup
  cases h₁ : mergeLogger o.logger config with
  | none =>
    have hmerge : configMerge config o = none := by simp [configMerge, h₁]
    rw [hmerge]
    exact ⟨iff_of_true rfl (Or.inl (hnone₁.mp h₁)), fun config' h => by cases h⟩
  | some config₁ =>
    have hspecial : ¬ ∃ c ∈ o.logger, SpecialMode c := fun h => by
      rw [hnone₁.mpr h] at h₁
      cases h₁
    obtain ⟨hgroup₁, ⟨found, hfound, hlogger₁⟩, hothers₁⟩ := hspec₁ config₁ h₁
    obtain ⟨hnone₂, hspec₂⟩ := mergeSide_spec .consumer o.consumers hgroup₁
    cases h₂ : mergeSide .consumer o.consumers config₁ with
    | none =>
      have hmerge : configMerge config o = none := by simp [configMerge, h₁, h₂]
      rw [hmerge]
      exact ⟨iff_of_true rfl (Or.inr ⟨.consumer, hnone₂.mp h₂⟩), fun config' h => by cases h⟩
    | some config₂ =>
      have hmerged₂ := hspec₂ config₂ h₂
      obtain ⟨hnone₃, hspec₃⟩ := mergeSide_spec .producer o.producers hmerged₂.isGroup
      have hmerge : configMerge config o = mergeSide .producer o.producers config₂ := by
        simp [configMerge, h₁, h₂]
      have hknown : ¬ (o.consumers.module ≠ 0 ∧ moduleToString o.consumers.module = none) :=
        fun h => by
        rw [hnone₂.mpr h] at h₂
        cases h₂
      rw [hmerge, hnone₃]
      refine ⟨⟨fun h => Or.inr ⟨.producer, h⟩, ?_⟩, fun config' h₃ => ?_⟩
      · rintro (h | ⟨type, h⟩)
        · exact absurd h hspecial
        · cases type with
          | consumer => exact absurd h hknown
          | producer => exact h
      · have hmerged₃ := hspec₃ config' h₃
        -- each part leaves the settings of the others alone
        have hconsumers : config'.getMember ThreadType.consumer.name =
            config₂.getMember ThreadType.consumer.name := hmerged₃.others _ (by decide)
        have hproducers : config₂.getMember ThreadType.producer.name =
            config.getMember ThreadType.producer.name :=
          (hmerged₂.others _ (by decide)).trans (hothers₁ _ (by decide))
        refine ⟨⟨found, ?_, hlogger₁⟩, fun type hzero => ?_, fun type hgiven => ?_,
          fun name hname => ?_⟩
        · rw [hmerged₃.others _ (by decide), hmerged₂.others _ (by decide), hfound]
        · cases type with
          | consumer =>
            rw [hconsumers, hmerged₂.same hzero]
            exact hothers₁ _ (by decide)
          | producer => exact (hmerged₃.same hzero).trans hproducers
        · have hside : ∃ kind, moduleToString (o.side type).module = some kind ∧
              config'.getMember type.name = some (.list [sideEntry (o.side type) kind]) := by
            cases type with
            | consumer =>
              rw [hconsumers]
              exact hmerged₂.given hgiven
            | producer => exact hmerged₃.given hgiven
          obtain ⟨kind, hkind, hlist⟩ := hside
          exact ⟨kind, hkind, hlist, fun s hs => getMember_sideEntry hs⟩
        · simp only [List.mem_cons, List.not_mem_nil, or_false, not_or] at hname
          rw [hmerged₃.others name hname.2.2, hmerged₂.others name hname.2.1, hothers₁ name hname.1]

/-- A file producer of the command line takes the place of those of the file, and the consumers
stay. -/
theorem config_merged_file_producer :
    ∃ config', configMerge
        (.group [(ascii "consumers", .list []), (ascii "producers", .list [])])
        ⟨none, ⟨0, 0, none, none, none, none, none, 0, none⟩,
          ⟨102, 1, none, none, none, none, some (ascii "out"), 0, none⟩⟩ = some config' ∧
      config'.getMember (ascii "consumers") = some (.list []) ∧
      config'.getMember (ascii "producers") =
        some (.list [.group [(ascii "type", .string (ascii "file")), (ascii "threads", .int 1),
          (ascii "file", .string (ascii "out"))]]) := by
  obtain ⟨hnone, hsome⟩ := config_merged
    (.group [(ascii "consumers", .list []), (ascii "producers", .list [])]) rfl
    ⟨none, ⟨0, 0, none, none, none, none, none, 0, none⟩,
      ⟨102, 1, none, none, none, none, some (ascii "out"), 0, none⟩⟩ (by simp)
  have hne : ¬ _ := mt hnone.mp ?_
  · obtain ⟨config', hmerge⟩ := Option.ne_none_iff_exists'.mp hne
    obtain ⟨-, hsame, hgiven, -⟩ := hsome config' hmerge
    obtain ⟨kind, hkind, hlist, -⟩ := hgiven .producer (by decide)
    obtain rfl : ascii "file" = kind := Option.some.inj hkind
    exact ⟨config', hmerge, hsame .consumer rfl, hlist⟩
  · rintro (⟨c, hc, -⟩ | ⟨type, hmodule, hunknown⟩)
    · cases hc
    · cases type with
      | consumer => exact hmodule rfl
      | producer => cases hunknown

end Schaufel
