import Schaufel.Config.Logger
import Schaufel.Foundation.Run
import Schaufel.Hooks.Registry
import Schaufel.Kafka.Validate
import Schaufel.Postgres.Hosts

/-!
# Validation of a configuration

`config_validate` checks the logger, the queue, the consumers and the producers, and goes on with
the next of them whatever the verdict is.  `_thread_validate` goes through a list of consumers or
producers: it checks threads and type, the hooks, and calls the validator of the module that the
first letter of the type stands for.  It stops at the first entry that its validator refuses.

The type is held in a variable that an entry without a type does not set.  Entries may be appended
to the list while the loop runs over it, and it does not come to these.
-/

namespace Schaufel

/-! ### The queue -/

/-- A check that is made after a refusal. -/
def refuse {α : Type} : Except Fault α → Except Fault α
  | .error .crash => .error .crash
  | _ => .error .refused

/-- A hook point of the queue; an empty list is added if there is none. -/
def hookPoint (config : Setting) (name : CString) : Except Fault Setting :=
  match config.getMember name with
  | none => orCrash (config.add name (.list []))
  | some hooks => (Hooks.hooksValidate hooks).map (config.set name)

/-- The hook point `preget` is checked whatever the verdict on `postadd` is. -/
def hookPoints (config : Setting) : Except Fault Setting :=
  match hookPoint config (ascii "postadd") with
  | .ok config => hookPoint config (ascii "preget")
  | .error .refused => refuse (hookPoint config (ascii "preget"))
  | .error .crash => .error .crash

/-- `queue_validate`. -/
def queueValidate (config : Setting) : Except Fault Setting :=
  if config.isGroup then hookPoints config else .error .refused

/-! ### The validators of the modules -/

/-- The modules that have validators. -/
inductive Module
  | dummy
  | file
  | exports
  | postgres
  | redis
  | kafka
  deriving DecidableEq, Repr

/-- `validator_init`: only the first letter counts. -/
def validatorInit (kind : CString) : Option Module :=
  match kind.head? with
  | some 100 => some .dummy
  | some 102 => some .file
  | some 101 => some .exports
  | some 112 => some .postgres
  | some 114 => some .redis
  | some 107 => some .kafka
  | _ => none

/-- `file_validate`. -/
def fileValidate (config : Setting) : Bool :=
  decide ((config.lookupInt (ascii "threads")).getD 0 ≤ 1) &&
    ((config.lookupString (ascii "file")).any fun fname => !fname.isEmpty)

/-- `redis_validator`. -/
def redisValidator (config : Setting) : Bool :=
  (config.lookupString (ascii "host")).isSome && (config.lookupString (ascii "topic")).isSome

/-- Consumers and producers. -/
inductive ThreadType
  | consumer
  | producer
  deriving DecidableEq, Repr

/-- The list a type of threads is configured in. -/
def ThreadType.name : ThreadType → CString
  | .consumer => ascii "consumers"
  | .producer => ascii "producers"

/-- The columns `validate_consumer` and `validate_producer`: the entry afterwards, and the entries
appended to its list. -/
def Module.validate (type : ThreadType) (config : Setting) :
    Module → Except Fault (Setting × List Setting)
  | .dummy => .ok (config, [])
  | .file => if fileValidate config then .ok (config, []) else .error .refused
  | .exports => (exporterValidate config).map fun config => (config, [])
  | .postgres => postgresValidate config
  | .redis => if redisValidator config then .ok (config, []) else .error .refused
  | .kafka =>
    (match type with
      | .consumer => Kafka.kafkaConsumerValidator config
      | .producer => Kafka.kafkaProducerValidator config).map fun config => (config, [])

/-! ### The loop over consumers or producers -/

/-- The variables of `_thread_validate`, with a record of the verdicts. -/
structure ThreadLoop where
  /-- The verdict so far. -/
  ret : Bool
  /-- `conf_str`. -/
  confStr : Option CString
  /-- The loop was left. -/
  stopped : Bool
  /-- The entries behind the loop. -/
  done : List Setting
  /-- The entries appended to the list. -/
  appended : List Setting
  /-- Every entry that was judged, with the type by which it was. -/
  verdicts : List (Setting × CString)

/-- The variables before the loop. -/
def ThreadLoop.init : ThreadLoop :=
  { ret := true, confStr := none, stopped := false, done := [], appended := [], verdicts := [] }

/-- The hooks of an entry; an empty list is added if there are none.  An entry that can hold no
setting is `none`. -/
def hooklist (child : Setting) : Option (Setting × Setting) :=
  match child.getMember (ascii "hooks") with
  | some hooks => some (child, hooks)
  | none => (child.add (ascii "hooks") (.list [])).map fun child => (child, .list [])

namespace ThreadLoop

/-- The number of threads of an entry is positive. -/
def threadsOk (child : Setting) : Bool :=
  (child.lookupInt (ascii "threads")).any fun n => decide (0 < n)

/-- The part of the loop before the hooks: threads and type.  An entry without a type leaves
`conf_str`. -/
def readType (s : ThreadLoop) (child : Setting) : ThreadLoop :=
  { s with
    ret := s.ret && threadsOk child && (child.lookupString (ascii "type")).isSome
    confStr := (child.lookupString (ascii "type")).or s.confStr }

/-- The loop is left with a refusal. -/
def refused (s : ThreadLoop) : ThreadLoop := { s with ret := false, stopped := true }

/-- An entry is judged by a type. -/
def record (s : ThreadLoop) (child : Setting) (kind : CString) : ThreadLoop :=
  { s with verdicts := s.verdicts ++ [(child, kind)] }

/-- An entry is accepted, and entries are appended to the list. -/
def accept (s : ThreadLoop) (child : Setting) (instances : List Setting) : ThreadLoop :=
  { s with done := s.done ++ [child], appended := s.appended ++ instances }

/-- The part of the loop behind the hooks: the validator of the type in `conf_str`. -/
def judge (type : ThreadType) (s : ThreadLoop) (child : Setting) : Option ThreadLoop :=
  match s.confStr with
  | none => none
  | some kind =>
    match validatorInit kind with
    | none => some (s.record child kind).refused
    | some m =>
      match m.validate type child with
      | .error .crash => none
      | .error .refused => some (s.record child kind).refused
      | .ok (child', instances) => some ((s.record child kind).accept child' instances)

/-- One round of the loop. -/
def round (type : ThreadType) (s : ThreadLoop) (child : Setting) : Option ThreadLoop :=
  match hooklist child with
  | none => none
  | some (child, hooks) =>
    if hooks.isList then
      match Hooks.hooksValidate hooks with
      | .error .crash => none
      | .error .refused => judge type { s with ret := false } child
      | .ok hooks => judge type s (child.set (ascii "hooks") hooks)
    else some s.refused

/-- One round, unless the loop was left. -/
def step (type : ThreadType) (s : ThreadLoop) (child : Setting) : Option ThreadLoop :=
  if s.stopped then some s else round type (s.readType child) child

end ThreadLoop

/-- The outcome of `_thread_validate`: the verdict, the list afterwards, and the record of
verdicts. -/
structure ThreadVerdict where
  accepted : Bool
  entries : List Setting
  verdicts : List (Setting × CString)

/-- `_thread_validate`. -/
def threadValidate (type : ThreadType) (config : Setting) : Option ThreadVerdict :=
  match config.getMember type.name with
  | some (.list entries) =>
    if entries = [] then some ⟨false, [], []⟩
    else (exec (ThreadLoop.step type) .init entries).map fun s =>
      ⟨s.ret, s.done ++ s.appended, s.verdicts⟩
  | _ => some ⟨false, [], []⟩

/-! ### The configuration -/

/-- The group `queue`; an empty group is added if there is none. -/
def queueOf (config : Setting) : Setting := (config.getMember (ascii "queue")).getD (.group [])

/-- The outcome of `config_validate`. -/
structure ConfigVerdict where
  accepted : Bool
  verdicts : List (Setting × CString)

/-- `config_validate`; `none` says that it does not come back. -/
def configValidate (config : Setting) : Option ConfigVerdict :=
  match config.getMember (ascii "logger") with
  | none => some ⟨false, []⟩
  | some logger =>
    match loggerValidate logger, queueValidate (queueOf config) with
    | .error .crash, _ => none
    | _, .error .crash => none
    | l, q => do
      let consumers ← threadValidate .consumer config
      let producers ← threadValidate .producer config
      some ⟨l.isOk && q.isOk && consumers.accepted && producers.accepted,
        consumers.verdicts ++ producers.verdicts⟩

end Schaufel
