import Buzz.Audit.Service
import Mathlib.Logic.Function.Basic

/-!
# The database under concurrent appends

The service behind the calls of `log`: a pool of connections, advisory locks that belong
to a session and can be taken several times by it, and transactions that take effect as a
whole when they are committed. A call that fails has no effect, and a session may end at
any moment: its transaction and its locks are gone, and every later call on its connection
fails.

The ghost field records the entries that were committed with the call that made them.
-/
namespace Audit

open Lib Nostr Relay

/-- What of Postgres is not decided here: the hash that makes a lock key of a name, which
may collide, and what a column gives back for a value. `JSONB` keeps numbers as decimals: what
is read back is the same number, but it need not be written as it was, as `1e16` comes back as
`10000000000000000` and `-0.0` as `0.0`. -/
structure Postgres where
  hashtextextended : String → Int
  jsonb : Json → Json
  /-- The literal that is written for a number that was read back. -/
  numeric : NumberLiteral → NumberLiteral
  timestamptz : DateTime → DateTime
  jsonb_equal : ∀ value, (jsonb value).Equal (value.mapNumbers numeric)
  numeric_same : ∀ literal, (numeric literal).SameNumber literal
  timestamptz_eq : ∀ t, toStoragePrecision t = t → timestamptz t = t

namespace Postgres

variable (pg : Postgres)

/-- Every number of the value is written as it was when it is read back. -/
def KeepsNumbers (value : Json) : Prop := ∀ literal ∈ value.numbers, pg.numeric literal = literal

def lockKey (community : Uuid) : Int := pg.hashtextextended (lockName ⟨community⟩)

/-- The row of an entry. -/
def store (entry : AuditEntry) : Row where
  communityId := entry.communityId
  seq := entry.seq
  hash := entry.hash
  prevHash := entry.prevHash
  action := entry.action.asStr
  actorPubkey := entry.actorPubkey
  objectId := entry.objectId
  detail := some (pg.jsonb entry.detail)
  createdAt := pg.timestamptz entry.createdAt

end Postgres

/-- An entry that was committed, with the call of `log`. -/
structure Commit (ι : Type) where
  call : ι
  entry : AuditEntry
  /-- Whether the call was told. -/
  reported : Bool

structure Database (ι : Type) where
  /-- The committed rows of `audit_log`, oldest first. -/
  rows : List Row := []
  /-- Ghost: what was committed, oldest first. -/
  commits : List (Commit ι) := []
  /-- The calls that have taken a connection from the pool. -/
  users : Conn → Option ι := fun _ => none
  /-- The connection that holds a lock, and how many more times it has taken it. -/
  locks : Int → Option (Conn × Nat) := fun _ => none
  /-- The entries that the open transaction of a connection has inserted. -/
  transactions : Conn → Option (List AuditEntry) := fun _ => none

/-- What the database and the clock leave open about one call. -/
structure Choice where
  /-- The sessions that end before the call is served. -/
  ended : List Conn := []
  /-- How the call fails, if it does. -/
  fault : Option Fault := none
  /-- Whether a commit that fails has taken effect all the same. -/
  late : Bool := false
  /-- The connection that the pool hands out. -/
  conn : Conn := 0
  now : DateTime := 0

namespace Database

variable {ι : Type}

def endSession (s : Database ι) (conn : Conn) : Database ι :=
  { s with
    users := Function.update s.users conn none
    locks := fun key => (s.locks key).filter (·.1 ≠ conn)
    transactions := Function.update s.transactions conn none }

/-- The session takes the lock, unless another one has it. -/
def lock (s : Database ι) (conn : Conn) (key : Int) : Option (Database ι) :=
  match s.locks key with
  | none => some { s with locks := Function.update s.locks key (some (conn, 0)) }
  | some (holder, more) =>
    if holder = conn then
      some { s with locks := Function.update s.locks key (some (conn, more + 1)) }
    else none

/-- The session gives the lock back once, if it has it. -/
def unlock (s : Database ι) (conn : Conn) (key : Int) : Database ι :=
  match s.locks key with
  | some (holder, more) =>
    if holder = conn then
      let left := match more with
        | 0 => none
        | more + 1 => some (conn, more)
      { s with locks := Function.update s.locks key left }
    else s
  | none => s

/-- The primary key or the unique hash of the row is taken. -/
def Taken (rows : List Row) (row : Row) : Prop :=
  ∃ other ∈ rows, other.communityId = row.communityId ∧
    (other.seq = row.seq ∨ other.hash = row.hash)

instance (rows : List Row) (row : Row) : Decidable (Taken rows row) :=
  inferInstanceAs (Decidable (∃ other ∈ rows, _))

variable (pg : Postgres)

/-- The rows that a statement on the connection sees. -/
def visible (s : Database ι) (conn : Conn) : List Row :=
  s.rows ++ ((s.transactions conn).getD []).map pg.store

def insert (s : Database ι) (conn : Conn) (entry : AuditEntry) : Option (Database ι) := do
  let pending ← s.transactions conn
  if Taken (s.visible pg conn) (pg.store entry) then none
  else some { s with
    transactions := Function.update s.transactions conn (some (pending ++ [entry])) }

/-- The rows of the transaction become visible, all at once. -/
def commit (s : Database ι) (i : ι) (conn : Conn) (reported : Bool) : Option (Database ι) := do
  let pending ← s.transactions conn
  if ∃ entry ∈ pending, Taken s.rows (pg.store entry) then none
  else some { s with
    rows := s.rows ++ pending.map pg.store
    commits := s.commits ++ pending.map fun entry => ⟨i, entry, reported⟩
    transactions := Function.update s.transactions conn none }

/-- A call on a connection fails when the choice says so, and it cannot but fail when the
call has lost the connection. -/
def onConn [DecidableEq ι] {α : Type} (s : Database ι) (i : ι) (choice : Choice) (conn : Conn)
    (served : Option (α × Database ι)) : Option (Except Fault α × Database ι) :=
  match choice.fault with
  | some fault => some (.error fault, s)
  | none =>
    if s.users conn = some i then served.map fun (reply, s') => (.ok reply, s') else none

variable [DecidableEq ι]

/-- The answer to a commit may be lost after it has taken effect. -/
def onCommit (s : Database ι) (i : ι) (choice : Choice) (conn : Conn) :
    Option (Except Fault Unit × Database ι) :=
  match choice.fault with
  | some fault =>
    if choice.late ∧ s.users conn = some i then (s.commit pg i conn false).map (.error fault, ·)
    else some (.error fault, s)
  | none => if s.users conn = some i then (s.commit pg i conn true).map (.ok (), ·) else none

def perform (i : ι) (choice : Choice) (s : Database ι) : (op : Op) → Option (Reply op × Database ι)
  | .acquire =>
    match choice.fault with
    | some fault => some (.error fault, s)
    | none =>
      if (s.users choice.conn).isSome then none
      else some (.ok choice.conn,
        { s with users := Function.update s.users choice.conn (some i) })
  | .lock conn name =>
    s.onConn i choice conn ((s.lock conn (pg.hashtextextended name)).map ((), ·))
  | .begin conn =>
    s.onConn i choice conn
      (some ((), { s with transactions := Function.update s.transactions conn (some []) }))
  | .selectHead conn community =>
    s.onConn i choice conn (some (selectHead (s.visible pg conn) community, s))
  | .now => some (choice.now, s)
  | .insert conn entry => s.onConn i choice conn ((s.insert pg conn entry).map ((), ·))
  | .commit conn => s.onCommit pg i choice conn
  | .rollback conn =>
    if s.users conn = some i then
      some ((), { s with transactions := Function.update s.transactions conn none })
    else some ((), s)
  | .unlock conn name =>
    s.onConn i choice conn (some ((), s.unlock conn (pg.hashtextextended name)))
  | .release conn =>
    if s.users conn = some i then some ((), { s with users := Function.update s.users conn none })
    else some ((), s)

def service : Service Op Reply ι (Database ι) Choice where
  serve i choice s op := perform pg i choice (choice.ended.foldl endSession s) op

end Database

end Audit
