import Schaufel.Config.Paths

/-!
# The configuration of the logger

`logger_validate` of `src/utils/logger.c`: a logger writes to a file, to one of the standard
streams, to syslog, or nowhere.  Default values are added for syslog.
-/

namespace Schaufel

/-- `tolower`. -/
def toLower (c : UInt8) : UInt8 := if 65 ≤ c ∧ c ≤ 90 then c + 32 else c

/-- `strlwr`. -/
def strlwr (s : CString) : CString := s.map toLower

/-- The table `facilitynames` of `syslog.h` without its last row, which has a null pointer for a
name. -/
def facilitynames : List (CString × Int) :=
  [(ascii "auth", 32), (ascii "authpriv", 80), (ascii "cron", 72), (ascii "daemon", 24),
    (ascii "ftp", 88), (ascii "kern", 0), (ascii "lpr", 48), (ascii "mail", 16),
    (ascii "mark", 192), (ascii "news", 56), (ascii "security", 32), (ascii "syslog", 40),
    (ascii "user", 8), (ascii "uucp", 64), (ascii "local0", 128), (ascii "local1", 136),
    (ascii "local2", 144), (ascii "local3", 152), (ascii "local4", 160), (ascii "local5", 168),
    (ascii "local6", 176), (ascii "local7", 184)]

/-- The loop over the facilities: `res` is the value of the last row that was looked at. -/
def facilityLoop (facility : CString) : List (CString × Int) → Int → Int
  | [], res => res
  | row :: rest, _ => if row.1 = facility then row.2 else facilityLoop facility rest row.2

/-- The mode of a log file: 0640 if none is set. -/
def loggerMode (config : Setting) : UInt32 :=
  ((config.lookupInt (ascii "mode")).map Int32.toUInt32).getD 0o640

/-- A log file. -/
def loggerFile (config : Setting) : Except Fault Setting :=
  if loggerMode config &&& 0o7000 ≠ 0 then .error .refused
  else if loggerMode config > 0o7777 then .error .refused
  else if (config.lookupString (ascii "file")).isNone then .error .refused
  else .ok config

/-- The facility of syslog. -/
def loggerFacility (config : Setting) : Except Fault Setting :=
  match config.getMember (ascii "facility") with
  | none => orCrash (config.add (ascii "facility") (.string (ascii "daemon")))
  | some (.string facility) =>
    if facilityLoop facility facilitynames (-1) = -1 then .error .refused else .ok config
  | some _ => .error .refused

/-- The name under which syslog is written. -/
def loggerIdent (config : Setting) : Except Fault Setting :=
  match config.getMember (ascii "ident") with
  | none => orCrash (config.add (ascii "ident") (.string (ascii "schaufel")))
  | some (.string _) => .ok config
  | some _ => .error .refused

/-- The branches of `logger_validate`. -/
def loggerOfType (config : Setting) (type : CString) : Except Fault Setting :=
  if type = ascii "file" then loggerFile config
  else if type = ascii "stdout" then .ok config
  else if type = ascii "stderr" then .ok config
  else if type = ascii "null" then .ok config
  else if type = ascii "syslog" then loggerFacility config >>= loggerIdent
  else .error .refused

/-- `logger_validate`. -/
def loggerValidate (config : Setting) : Except Fault Setting := do
  let type ← required (config.lookupString (ascii "type"))
  loggerOfType config (strlwr type)

/-- A setting that is missing in a group can be added. -/
theorem orCrash_add_ne_crash {config child : Setting} {name : CString}
    (hgroup : config.isGroup = true) (h : config.getMember name = none) :
    orCrash (config.add name child) ≠ .error .crash := by
  obtain ⟨config', hadd⟩ := Setting.exists_add hgroup h child
  rw [hadd]
  exact ok_ne_crash config'

theorem loggerFacility_spec {config : Setting} (hgroup : config.isGroup = true) :
    loggerFacility config ≠ .error .crash ∧
      ∀ config', loggerFacility config = .ok config' → config'.isGroup = true := by
  unfold loggerFacility
  split
  · rename_i hnone
    refine ⟨orCrash_add_ne_crash hgroup hnone, fun config' h => ?_⟩
    rw [Setting.isGroup_add (orCrash_eq_ok_iff.mp h), hgroup]
  · split
    · exact ⟨refused_ne_crash, fun _ h => nomatch h⟩
    · refine ⟨ok_ne_crash config, fun config' h => ?_⟩
      obtain rfl := Except.ok.inj h
      exact hgroup
  · exact ⟨refused_ne_crash, fun _ h => nomatch h⟩

theorem loggerIdent_ne_crash {config : Setting} (hgroup : config.isGroup = true) :
    loggerIdent config ≠ .error .crash := by
  unfold loggerIdent
  split
  · rename_i hnone
    exact orCrash_add_ne_crash hgroup hnone
  · exact ok_ne_crash config
  · exact refused_ne_crash

theorem loggerFile_ne_crash (config : Setting) : loggerFile config ≠ .error .crash := by
  unfold loggerFile
  split_ifs
  · exact refused_ne_crash
  · exact refused_ne_crash
  · exact refused_ne_crash
  · exact ok_ne_crash config

theorem loggerOfType_ne_crash {config : Setting} (hgroup : config.isGroup = true) (type : CString) :
    loggerOfType config type ≠ .error .crash := by
  unfold loggerOfType
  split_ifs
  · exact loggerFile_ne_crash config
  · exact ok_ne_crash config
  · exact ok_ne_crash config
  · exact ok_ne_crash config
  · rw [Ne, bind_eq_error_iff]
    rintro (hfacility | ⟨config', hfacility, hident⟩)
    · exact (loggerFacility_spec hgroup).1 hfacility
    · exact loggerIdent_ne_crash ((loggerFacility_spec hgroup).2 config' hfacility) hident
  · exact refused_ne_crash

/-- `logger_validate` always comes back. -/
theorem loggerValidate_ne_crash (config : Setting) : loggerValidate config ≠ .error .crash := by
  rw [loggerValidate, Ne, bind_eq_error_iff]
  rintro (hrequired | ⟨type, htype, h⟩)
  · exact required_ne_crash _ hrequired
  · have hmember := Setting.getMember_of_lookupString (required_eq_ok_iff.mp htype)
    exact loggerOfType_ne_crash (Setting.isGroup_of_getMember hmember) _ h

end Schaufel
