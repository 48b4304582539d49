import Buzz.Audit.Entry
import Buzz.Lib.Compare
import Buzz.Lib.Guard
import Buzz.Lib.Prog

/-!
# The audit service

`AuditService` of `buzz-audit/src/service.rs`: `log` as a program over the calls it makes
to the database, and `verify_chain` as a function of the rows that its query returns. What
answers the calls is not decided here; a query of `verify_chain` or `get_entries` that
fails is left out.
-/
namespace Audit

open Lib Nostr Relay

/-! ### Rows -/

/-- A row of `audit_log`, which has the primary key `(community_id, seq)`. -/
structure Row where
  communityId : Uuid
  seq : Int
  hash : Bytes
  prevHash : Option Bytes
  action : String
  actorPubkey : Option Bytes
  objectId : Option String
  detail : Option Json
  createdAt : DateTime

def rowToAuditEntry (row : Row) : Except Fault AuditEntry := do
  let action ← okOr (AuditAction.fromStr row.action) (.error .unknownAction)
  -- `row.get` panics on a column that is NULL.
  let detail ← okOr row.detail .panic
  pure {
    communityId := row.communityId
    seq := row.seq
    hash := row.hash
    prevHash := row.prevHash
    action
    actorPubkey := row.actorPubkey
    objectId := row.objectId
    detail
    createdAt := row.createdAt }

/-- `ORDER BY seq ASC`. -/
def orderBySeq (rows : List Row) : List Row := sortBy (fun a b => compare a.seq b.seq) rows

/-- The rows that `verify_chain` fetches. -/
def selectRange (rows : List Row) (community : Uuid) (fromSeq toSeq : Int) : List Row :=
  orderBySeq (rows.filter fun row =>
    row.communityId = community ∧ fromSeq ≤ row.seq ∧ row.seq ≤ toSeq)

/-- The head of a chain: `ORDER BY seq DESC LIMIT 1`. -/
def selectHead (rows : List Row) (community : Uuid) : Option (Int × Bytes) :=
  let chain := rows.filter (·.communityId = community)
  (sortBy (fun a b => compare b.seq a.seq) chain).head?.map fun row => (row.seq, row.hash)

/-! ### Calls to the database -/

/-- A connection of the pool. -/
abbrev Conn := Nat

inductive Op where
  /-- `pool.acquire()`. -/
  | acquire
  /-- `SELECT pg_advisory_lock(hashtextextended($1, 0))`. -/
  | lock (conn : Conn) (name : String)
  | begin (conn : Conn)
  | selectHead (conn : Conn) (community : Uuid)
  /-- `Utc::now()`. -/
  | now
  | insert (conn : Conn) (entry : AuditEntry)
  | commit (conn : Conn)
  /-- The transaction is dropped before it is committed. -/
  | rollback (conn : Conn)
  /-- `SELECT pg_advisory_unlock(hashtextextended($1, 0))`. -/
  | unlock (conn : Conn) (name : String)
  /-- The connection is dropped and goes back to the pool. -/
  | release (conn : Conn)

abbrev Reply : Op → Type
  | .acquire => Except Fault Conn
  | .selectHead _ _ => Except Fault (Option (Int × Bytes))
  | .now => DateTime
  | .rollback _ | .release _ => Unit
  | .lock _ _ | .begin _ | .insert _ _ | .commit _ | .unlock _ _ => Except Fault Unit

abbrev AuditM := Task Op Reply Fault

abbrev ask (op : Op) : AuditM (Reply op) := Task.ask op

/-! ### Appending -/

def auditLockNamespace : String := "buzz_audit:"

def lockName (community : CommunityId) : String := auditLockNamespace ++ community.uuid.toString

section

variable (hashing : Hashing)

/-- The entry that follows the head of the chain. -/
def nextEntry (head : Option (Int × Bytes)) (entry : NewAuditEntry) (now : DateTime) :
    AuditEntry :=
  let (prevSeq, prevHash) := match head with
    | some (seq, hash) => (seq, some hash)
    | none => (0, none)
  let auditEntry : AuditEntry := {
    communityId := entry.communityId.uuid
    seq := prevSeq + 1
    hash := []
    prevHash
    action := entry.action
    actorPubkey := entry.actorPubkey
    objectId := entry.objectId
    detail := entry.detail
    createdAt := toStoragePrecision now }
  { auditEntry with hash := hashing.computeHash auditEntry }

/-- `log_inner` from the start of its transaction on. -/
def appendIn (conn : Conn) (entry : NewAuditEntry) : AuditM AuditEntry := do
  let head ← Task.reply (ask (.selectHead conn entry.communityId.uuid))
  let now ← ask .now
  let auditEntry := nextEntry hashing head entry now
  Task.reply (ask (.insert conn auditEntry))
  Task.reply (ask (.commit conn))
  pure auditEntry

def logInner (conn : Conn) (entry : NewAuditEntry) : AuditM AuditEntry := do
  Task.reply (ask (.begin conn))
  let result ← Task.attempt (appendIn hashing conn entry)
  match result with
  | .ok auditEntry => pure auditEntry
  | .error fault =>
    ask (.rollback conn)
    throw fault

/-- `log` while it has a connection. The lock is released whatever became of `log_inner`,
and what becomes of the release is ignored. -/
def logOn (conn : Conn) (entry : NewAuditEntry) : AuditM AuditEntry := do
  let lockKey := lockName entry.communityId
  Task.reply (ask (.lock conn lockKey))
  let result ← Task.attempt (logInner hashing conn entry)
  let _ ← ask (.unlock conn lockKey)
  Task.ofExcept id result

def log (entry : NewAuditEntry) : AuditM AuditEntry := do
  let conn ← Task.reply (ask .acquire)
  let result ← Task.attempt (logOn hashing conn entry)
  ask (.release conn)
  Task.ofExcept id result

/-! ### Verification -/

/-- The loop of `verify_chain`, with the hash of the row before. -/
def verifyRows : Option Bytes → List Row → Except Fault Bool
  | _, [] => .ok true
  | expectedPrev, row :: rest => do
    let entry ← rowToAuditEntry row
    ensure (expectedPrev.all fun expected => entry.prevHash = some expected)
      (.error (.chainViolation entry.seq))
    ensure (hashing.computeHash entry = entry.hash) (.error (.hashMismatch entry.seq))
    verifyRows (some entry.hash) rest

def verifyChain (rows : List Row) (community : CommunityId) (fromSeq toSeq : Int) :
    Except Fault Bool :=
  let found := selectRange rows community.uuid fromSeq toSeq
  if found.isEmpty then .ok false else verifyRows hashing none found

end

/-! ### A row and its entry -/

theorem rowToAuditEntry_eq_ok {row : Row} {entry : AuditEntry} :
    rowToAuditEntry row = .ok entry ↔
      row = {
        communityId := entry.communityId
        seq := entry.seq
        hash := entry.hash
        prevHash := entry.prevHash
        action := entry.action.asStr
        actorPubkey := entry.actorPubkey
        objectId := entry.objectId
        detail := some entry.detail
        createdAt := entry.createdAt } := by
  simp only [rowToAuditEntry, bind_eq_ok, okOr_eq_ok, AuditAction.fromStr_eq_some]
  constructor
  · rintro ⟨action, named, detail, present, same⟩
    cases same
    cases row
    simp_all
  · rintro rfl
    exact ⟨entry.action, rfl, entry.detail, rfl, rfl⟩

/-- The row is read as an entry whose hash it holds. -/
def Row.Intact (hashing : Hashing) (row : Row) : Prop :=
  ∃ entry, rowToAuditEntry row = .ok entry ∧ hashing.computeHash entry = row.hash

theorem verifyRows_cons {hashing : Hashing} {expected : Option Bytes} {row : Row}
    {rest : List Row} :
    verifyRows hashing expected (row :: rest) = .ok true ↔
      (∀ hash ∈ expected, row.prevHash = some hash) ∧ row.Intact hashing ∧
        verifyRows hashing (some row.hash) rest = .ok true := by
  rw [verifyRows]
  simp only [bind_eq_ok, ensure_eq_ok, Row.Intact, Option.all_eq_true]
  constructor
  · rintro ⟨entry, read, -, linked, -, hashed, later⟩
    have same := rowToAuditEntry_eq_ok.mp read
    subst same
    exact ⟨fun hash member => by simpa using linked hash member, ⟨entry, read, hashed⟩, later⟩
  · rintro ⟨linked, ⟨entry, read, hashed⟩, later⟩
    have same := rowToAuditEntry_eq_ok.mp read
    subst same
    exact ⟨entry, read, (), fun hash member => by simpa using linked hash member, (), hashed, later⟩

end Audit
