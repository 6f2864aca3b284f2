import Schaufel.Foundation.Escape
import Schaufel.Postgres.Sanitize

/-!
# The COPY producers

`src/postgres.c` and `src/exports.c` write rows to a COPY stream.  A producer opens a batch with the
COPY command, writes rows, and closes the batch after 2000 rows, when the commit worker finds that
it has been open long enough, and at the end.  `src/utils/postgres.c` closes it.

Everything a producer does to its connections happens under the mutex of its `Meta`, so a run is a
sequence of calls of `produce` and rounds of the commit worker, with `producer_free` at its end.
What becomes of a message is the business of the producer (`Verdict`): it may be refused before or
after the batch is opened, and an accepted message is a row, written in one or more pieces.  The
exports producer keeps its needles in `Meta.internal`; the type of that is a parameter.

If a COPY command fails the process aborts; such a call has no state after it.  Nothing else is
known of `libpq` than what it makes of a literal (`Libpq`).
-/

namespace Schaufel

/-- `postgres_format`, also the values of `Meta.cpyfmt`. -/
inductive Format
  | json
  | csv
  | binary
  deriving DecidableEq, Repr

/-- The data of a message: the bytes `buf[0..len)` and the byte `buf[len]` behind them. -/
structure Payload where
  bytes : List UInt8
  terminator : UInt8
  deriving DecidableEq, Repr

/-- A row, as the pieces in which it is written. -/
abbrev Row := List (List UInt8)

/-- What becomes of a message, with what is left in `Meta.internal`. -/
inductive Verdict (σ : Type)
  /-- It is refused before the mutex is taken. -/
  | early
  /-- It is refused after the batch was opened. -/
  | late (internal : σ)
  /-- It is a row. -/
  | row (pieces : Row) (internal : σ)
  deriving DecidableEq, Repr

/-! ### Literals -/

def newline : UInt8 := 10

def tab : UInt8 := 9

def quote : UInt8 := 39

def backslash : UInt8 := 92

/-- The bytes `PQescapeLiteral` doubles. -/
def isSpecial (c : UInt8) : Bool := c = quote || c = backslash

/-- The literal of a text: its quotes and backslashes are doubled, it stands in quotes, and ` E`
stands before it exactly if there is a backslash. -/
def escapeLiteral (text : List UInt8) : List UInt8 :=
  (if backslash ∈ text then [32, 69] else []) ++ quote :: (doubled isSpecial text ++ [quote])

/-- `PQescapeLiteral` of a connection: it may fail, and if it does not, it returns the literal. -/
structure Libpq where
  escape : List UInt8 → Option (List UInt8)
  escape_spec : ∀ text lit, escape text = some lit → lit = escapeLiteral text

/-- A `libpq` that never fails. -/
def Libpq.total : Libpq where
  escape text := some (escapeLiteral text)
  escape_spec _ _ h := (Option.some.inj h).symm

/-- `strlen`. -/
def strlen (s : List UInt8) : Nat := (s.takeWhile fun c => c != 0).length

/-- The row of a literal: the literal without its quotes, and a newline.  Anything that is not a
literal aborts the process. -/
def literalRow (lit : List UInt8) : Option Row :=
  if lit.getD 0 0 = 32 ∧ lit.getD 1 0 = 69 then
    some [(lit.drop 3).take (strlen lit - 4), [newline]]
  else if lit.getD 0 0 = quote then some [(lit.drop 1).take (strlen lit - 2), [newline]]
  else none

/-- The text `postgres_producer_produce` makes of a payload, `none` if there is a null byte in
it. -/
def sanitizedText (bytes : List UInt8) : Option (List UInt8) :=
  let r := sanitizeUtf8 (repairNullEscape bytes).2
  if r.1 = -1 then none else some r.2

/-- What `postgres_producer_produce` makes of a message. -/
def postgresVerdict (pq : Libpq) (fmt : Format) (p : Payload) : Option (Verdict Unit) :=
  if fmt = .binary then some (.row [p.bytes] ())
  else if p.terminator ≠ 0 then some .early
  else
    match sanitizedText p.bytes with
    | none => some .early
    | some text =>
      match pq.escape text with
      | none => some .early
      | some lit => (literalRow lit).map fun row => .row row ()

/-! ### Batches -/

/-- What is put on a connection. -/
inductive CopyEvent
  | command (cpycmd : String)
  | data (bytes : List UInt8)
  | copyEnd
  deriving DecidableEq, Repr

/-- A producer: its format, its COPY command, whether it has a replica, and what it makes of a
message (`none` if the process does not survive it). -/
structure CopyConf (σ : Type) where
  cpyfmt : Format
  cpycmd : String
  replica : Bool
  verdict : σ → Payload → Option (Verdict σ)

/-- The postgres producer; it has no `internal`. -/
def postgresConf (pq : Libpq) (fmt : Format) (cpycmd : String) (replica : Bool) : CopyConf Unit :=
  ⟨fmt, cpycmd, replica, fun _ => postgresVerdict pq fmt⟩

/-- The magic of the binary format, the flags and the extension area. -/
def binheader : List UInt8 := [80, 71, 67, 79, 80, 89, 10, 255, 13, 10, 0, 0, 0, 0, 0, 0, 0, 0, 0]

/-- The end of the data in the binary format. -/
def bintrailer : List UInt8 := [255, 255]

/-- The `Meta` of a producer, with everything that was put on its connections. -/
structure CopyState (σ : Type) where
  copy : Nat
  count : Nat
  commitIter : Nat
  internal : σ
  master : List CopyEvent
  replica : List CopyEvent
  freed : Bool
  deriving DecidableEq, Repr

section Producer

variable {σ : Type}

/-- What opens a batch. -/
def CopyConf.opening (conf : CopyConf σ) : List CopyEvent :=
  .command conf.cpycmd :: if conf.cpyfmt = .binary then [.data binheader] else []

/-- What closes a batch on the master. -/
def CopyConf.closing (conf : CopyConf σ) : List CopyEvent :=
  (if conf.cpyfmt = .binary then [.data bintrailer] else []) ++ [.copyEnd]

namespace CopyState

/-- The state after `producer_init`. -/
def init (internal : σ) : CopyState σ := ⟨0, 0, 0, internal, [], [], false⟩

/-- Put events on the master, and on the replica if there is one. -/
def put (conf : CopyConf σ) (s : CopyState σ) (evs : List CopyEvent) : CopyState σ :=
  { s with
    master := s.master ++ evs
    replica := if conf.replica then s.replica ++ evs else s.replica }

/-- `commit`: the trailer goes to the master only. -/
def commit (conf : CopyConf σ) (s : CopyState σ) : CopyState σ :=
  { s with
    master := s.master ++ conf.closing
    replica := if conf.replica then s.replica ++ [.copyEnd] else s.replica
    count := 0
    copy := 0
    commitIter := 0 }

/-- Open a batch if there is none; `ok` says whether the COPY command succeeds on the master and on
the replica. -/
def openCopy (conf : CopyConf σ) (s : CopyState σ) (ok : Bool × Bool) : Option (CopyState σ) :=
  if s.copy = 0 then
    if ok.1 && (!conf.replica || ok.2) then some { s.put conf conf.opening with copy := 1 }
    else none
  else some s

/-- Write a row, and close the batch if it is full. -/
def addRow (conf : CopyConf σ) (s : CopyState σ) (pieces : Row) : CopyState σ :=
  let s' := { s.put conf (pieces.map .data) with count := s.count + 1 }
  if s'.count = 2000 then s'.commit conf else s'

/-- `postgres_producer_produce` and `exports_producer_produce`. -/
def produce (conf : CopyConf σ) (s : CopyState σ) (p : Payload) (ok : Bool × Bool) :
    Option (CopyState σ) :=
  match conf.verdict s.internal p with
  | none => none
  | some .early => some s
  | some (.late internal) => (s.openCopy conf ok).map fun s' => { s' with internal := internal }
  | some (.row pieces internal) =>
    (s.openCopy conf ok).map fun s' => { s'.addRow conf pieces with internal := internal }

/-- One round of `commit_worker`. -/
def tick (conf : CopyConf σ) (s : CopyState σ) : CopyState σ :=
  let s' := { s with commitIter := (s.commitIter + 1) &&& 0xF }
  if s'.commitIter = 0 ∧ 0 < s'.count then s'.commit conf else s'

/-- `postgres_producer_free` and `exports_producer_free`. -/
def free (conf : CopyConf σ) (s : CopyState σ) : CopyState σ :=
  { (if s.copy ≠ 0 then s.commit conf else s) with freed := true }

end CopyState

/-- What happens to a producer. -/
inductive CopyAction
  /-- A message is produced; `ok` says whether a COPY command succeeds on the master and on the
  replica. -/
  | produce (p : Payload) (ok : Bool × Bool)
  | tick
  | free
  deriving DecidableEq, Repr

/-- One step of a producer; nothing happens after `producer_free`. -/
def CopyState.step (conf : CopyConf σ) (s : CopyState σ) (a : CopyAction) : Option (CopyState σ) :=
  if s.freed then none
  else
    match a with
    | .produce p ok => s.produce conf p ok
    | .tick => some (s.tick conf)
    | .free => some (s.free conf)

end Producer

end Schaufel
