import Buzz.Replica.Fence
import Buzz.Relay.Subscription
import Buzz.Lib.Log
import Buzz.Lib.Run

/-!
# The writer and its probes

The writer's database as the log of its commits, with the transactions that are open, and the
pods whose `run_probe` loops take samples of it. A statement of a probe is one action: its clock
reading, its scan of the open transactions, its token and, after a regression, its rotation of the
epoch; what a token statement returns is read by an action of its own. The writer can be restored
to an earlier commit, and the log that is abandoned then stays readable.

A commit has a serial number that no statement reads: it tells the commits of two timelines apart.
-/
namespace Replica

open Lib Nostr Relay

/-- The part of a row of `thread_metadata` that pages read. -/
structure ThreadPlace where
  rootEventId : EventId
  depth : Nat
  broadcast : Bool
deriving DecidableEq

/-- A row of `events`, with its place in a thread. -/
structure Row where
  communityId : CommunityId
  id : EventId
  createdAt : Int
  channelId : Option Uuid
  kind : Kind
  thread : Option ThreadPlace := none
  /-- A row of `thread_metadata` has its event's channel. -/
  threaded : thread.isSome = true → channelId.isSome = true := by decide
deriving DecidableEq

/-- `events_created_at_floor_guard`: the row may be committed. -/
def Row.floorGuard (row : Row) (clockTimestamp : Int) : Bool :=
  row.channelId.isNone || clockTimestamp - secs createdAtFloorSecs ≤ row.createdAt

/-- The primary key. -/
def Row.key (row : Row) : CommunityId × Int × EventId := (row.communityId, row.createdAt, row.id)

structure Commit where
  serial : Nat
  /-- The row of `replica_heartbeat`. -/
  token : Int
  epoch : Uuid
  /-- The commit is of that row. -/
  beats : Bool := false
  rows : List Row := []
  deleted : List (CommunityId × EventId) := []
deriving DecidableEq

/-- The rows of a log, deleted or not, the oldest first. -/
def stored : List Commit → List Row
  | [] => []
  | c :: older => stored older ++ c.rows

theorem stored_append (newer log : List Commit) : stored (newer ++ log) = stored log ++ stored newer := by
  induction newer with
  | nil => simp [stored]
  | cons c rest ih => simp [stored, ih]

def Keyed (log : List Commit) : Prop := ((stored log).map Row.key).Nodup

instance (log : List Commit) : Decidable (Keyed log) :=
  inferInstanceAs (Decidable ((stored log).map Row.key).Nodup)

/-- A transaction: the guard is still to run for some of its rows. -/
structure Transaction where
  id : Nat
  start : Int
  unchecked : List Row := []
  checked : List Row := []
  deleted : List (CommunityId × EventId) := []
deriving DecidableEq

structure Writer where
  now : Int
  /-- The newest commit first. -/
  log : List Commit
  transactions : List Transaction := []
  abandoned : List (List Commit) := []
  nextSerial : Nat
  /-- The next serial number when the writer was restored last. -/
  restoredAt : Nat := 0

namespace Writer

/-- The heartbeat table has just been created. -/
def initial (now : Int) (epoch : Uuid) (rows : List Row) : Writer :=
  { now, log := [{ serial := 0, token := 0, epoch, rows }], nextSerial := 1 }

variable (w : Writer)

/-- What can be read: the log and what has been abandoned of it. -/
def timelines : List (List Commit) := w.log :: w.abandoned

def modify (id : Nat) (change : Transaction → Transaction) : Writer :=
  { w with transactions := w.transactions.map fun t => if t.id = id then change t else t }

def finish (id : Nat) : Writer := { w with transactions := w.transactions.filter (·.id ≠ id) }

/-- The next commit, after `head`. -/
def append (c : Commit) : Writer :=
  { w with log := { c with serial := w.nextSerial } :: w.log, nextSerial := w.nextSerial + 1 }

/-- The oldest `xact_start` of the activity scan. -/
def oldestXactStart : Option Int := (w.transactions.map (·.start)).min?

/-- What the clients of the writer do. -/
inductive Request where
  | tick (now : Int)
  | start (id : Nat)
  | insert (id : Nat) (row : Row)
  | softDelete (id : Nat) (key : CommunityId × EventId)
  | check (id : Nat) (row : Row)
  | commit (id : Nat)
  | rollback (id : Nat)
deriving DecidableEq

/-- A transaction that fails the guard is rolled back, and one that repeats a key cannot commit. -/
def serve : Request → Option Writer
  | .tick now => if w.now ≤ now then some { w with now } else none
  | .start id =>
    if w.transactions.any (·.id = id) then none
    else some { w with transactions := { id, start := w.now } :: w.transactions }
  | .insert id row => some (w.modify id fun t => { t with unchecked := row :: t.unchecked })
  | .softDelete id key => some (w.modify id fun t => { t with deleted := key :: t.deleted })
  -- The guard of the deferred trigger, by the clock of this moment.
  | .check id row =>
    if row.floorGuard w.now then some (w.modify id fun t =>
      if row ∈ t.unchecked then
        { t with unchecked := t.unchecked.erase row, checked := row :: t.checked }
      else t)
    else some (w.finish id)
  | .commit id => do
    let t ← w.transactions.find? (·.id = id)
    let head ← w.log.head?
    let c := { head with beats := false, rows := t.checked, deleted := t.deleted }
    if t.unchecked = [] ∧ Keyed (c :: w.log) then some ((w.finish id).append c) else none
  | .rollback id => some (w.finish id)

/-- The open transactions are lost. -/
def restore (dropped : Nat) : Option Writer :=
  if dropped < w.log.length then
    some { w with
      log := w.log.drop dropped
      transactions := []
      abandoned := w.log :: w.abandoned
      restoredAt := w.nextSerial }
  else none

/-- `SET token = token + 1`, and `epoch` if it is rotated. -/
def updateHeartbeat (epoch : Option Uuid) : Option (Writer × Commit) := do
  let head ← w.log.head?
  let w' := w.append
    { serial := 0, token := head.token + 1, epoch := epoch.getD head.epoch, beats := true }
  let beat ← w'.log.head?
  some (w', beat)

def knows (epoch : Uuid) : Bool := w.timelines.any (·.any (·.epoch = epoch))

/-- The heartbeat counts the commits of each timeline that are its own. -/
structure Sane (w : Writer) : Prop where
  counted : ∀ log ∈ w.timelines, Counted (·.token) (·.beats = true) log
  serial : ∀ log ∈ w.timelines, ∀ c ∈ log, c.serial < w.nextSerial
  restoredAt : w.restoredAt ≤ w.nextSerial

theorem sane_initial (now : Int) (epoch : Uuid) (rows : List Row) :
    Sane (.initial now epoch rows) where
  counted log member := by
    rw [timelines, initial, List.mem_singleton] at member
    rw [member]
    exact List.pairwise_singleton _ _
  serial log member c here := by
    rw [timelines, initial, List.mem_singleton] at member
    rw [member, List.mem_singleton] at here
    rw [here]
    exact Nat.one_pos
  restoredAt := Nat.zero_le _

/-! ### What a request does -/

section

variable {w w' : Writer} {head c : Commit}

/-- A commit is appended, and nothing is lost. -/
structure Grows (w w' : Writer) (head c : Commit) : Prop where
  head : w.log.head? = some head
  log : w'.log = c :: w.log
  serial : c.serial = w.nextSerial
  nextSerial : w'.nextSerial = w.nextSerial + 1
  abandoned : w'.abandoned = w.abandoned
  restoredAt : w'.restoredAt = w.restoredAt
  now : w'.now = w.now

/-- The log is left alone. -/
structure Idles (w w' : Writer) : Prop where
  log : w'.log = w.log
  nextSerial : w'.nextSerial = w.nextSerial
  abandoned : w'.abandoned = w.abandoned
  restoredAt : w'.restoredAt = w.restoredAt
  now : w.now ≤ w'.now

theorem updateHeartbeat_eq_some {epoch : Option Uuid}
    (updated : w.updateHeartbeat epoch = some (w', c)) : ∃ head, Grows w w' head c ∧
      c.token = head.token + 1 ∧ c.epoch = epoch.getD head.epoch ∧ c.beats = true ∧ c.rows = [] ∧
      w'.transactions = w.transactions := by
  unfold updateHeartbeat at updated
  cases first : w.log.head? with
  | none =>
    rw [first] at updated
    cases updated
  | some head =>
    rw [first] at updated
    cases updated
    exact ⟨head, ⟨first, rfl, rfl, rfl, rfl, rfl, rfl⟩, rfl, rfl, rfl, rfl, rfl⟩

theorem mem_timelines_of_grows (grows : Grows w w' head c) {log : List Commit}
    (member : log ∈ w'.timelines) : log = c :: w.log ∨ log ∈ w.timelines := by
  unfold timelines at member ⊢
  rw [grows.log, grows.abandoned] at member
  rcases List.mem_cons.mp member with rfl | old
  · exact Or.inl rfl
  · exact Or.inr (List.mem_cons_of_mem _ old)

theorem Sane.grow (sane : Sane w) (grows : Grows w w' head c) (counts : head.token ≤ c.token)
    (raises : c.beats = true → head.token < c.token) : Sane w' where
  counted log member := by
    -- Only the current timeline gets longer.
    rcases mem_timelines_of_grows grows member with rfl | old
    · exact (sane.counted w.log List.mem_cons_self).cons grows.head counts raises
    · exact sane.counted log old
  serial log member d here := by
    rw [grows.nextSerial]
    rcases mem_timelines_of_grows grows member with rfl | old
    · rcases List.mem_cons.mp here with rfl | older
      · rw [grows.serial]
        exact Nat.lt_succ_self _
      · exact Nat.lt_succ_of_lt (sane.serial w.log List.mem_cons_self d older)
    · exact Nat.lt_succ_of_lt (sane.serial log old d here)
  restoredAt := by
    rw [grows.restoredAt, grows.nextSerial]
    exact Nat.le_succ_of_le sane.restoredAt

theorem serve_eq_some {request : Request} (served : w.serve request = some w') :
    Idles w w' ∨ ∃ head c, Grows w w' head c ∧ c.token = head.token ∧ c.epoch = head.epoch ∧
      c.beats = false ∧ (∃ t ∈ w.transactions, c.rows = t.checked) ∧ Keyed w'.log := by
  -- The commit is the only request that writes to the log.
  cases request with
  | tick now =>
    simp only [serve, Option.ite_none_right_eq_some] at served
    obtain ⟨later, served⟩ := served
    cases served
    exact Or.inl ⟨rfl, rfl, rfl, rfl, later⟩
  | start id =>
    simp only [serve, Option.ite_none_left_eq_some] at served
    obtain ⟨_, served⟩ := served
    cases served
    exact Or.inl ⟨rfl, rfl, rfl, rfl, Int.le_refl _⟩
  | insert id row =>
    cases served
    exact Or.inl ⟨rfl, rfl, rfl, rfl, Int.le_refl _⟩
  | softDelete id key =>
    cases served
    exact Or.inl ⟨rfl, rfl, rfl, rfl, Int.le_refl _⟩
  | check id row =>
    simp only [serve] at served
    split at served
    · cases served
      exact Or.inl ⟨rfl, rfl, rfl, rfl, Int.le_refl _⟩
    · cases served
      exact Or.inl ⟨rfl, rfl, rfl, rfl, Int.le_refl _⟩
  | commit id =>
    simp only [serve, Option.bind_eq_bind, Option.bind_eq_some_iff, Option.ite_none_right_eq_some]
      at served
    obtain ⟨t, open', head, first, ⟨_, keyed⟩, served⟩ := served
    cases served
    refine Or.inr ⟨head, _, ⟨first, rfl, rfl, rfl, rfl, rfl, rfl⟩, rfl, rfl, rfl,
      ⟨t, List.mem_of_find?_eq_some open', rfl⟩, keyed⟩
  | rollback id =>
    cases served
    exact Or.inl ⟨rfl, rfl, rfl, rfl, Int.le_refl _⟩

theorem Sane.idle (sane : Sane w) (idles : Idles w w') : Sane w' := by
  have same : w'.timelines = w.timelines := by
    rw [timelines, timelines, idles.log, idles.abandoned]
  refine ⟨?_, ?_, ?_⟩
  · rw [same]
    exact sane.counted
  · rw [same, idles.nextSerial]
    exact sane.serial
  · rw [idles.restoredAt, idles.nextSerial]
    exact sane.restoredAt

theorem Sane.serve (sane : Sane w) {request : Request} (served : w.serve request = some w') :
    Sane w' := by
  rcases serve_eq_some served with idles | ⟨head, c, grows, sameToken, _, quiet, -⟩
  · exact sane.idle idles
  · -- A transaction leaves the token alone.
    refine sane.grow grows (Int.le_of_eq sameToken.symm) fun beats => ?_
    rw [quiet] at beats
    cases beats

theorem Sane.updateHeartbeat (sane : Sane w) {epoch : Option Uuid}
    (updated : w.updateHeartbeat epoch = some (w', c)) : Sane w' := by
  obtain ⟨head, grows, token, -⟩ := updateHeartbeat_eq_some updated
  exact sane.grow grows (by omega) fun _ => by omega

end

end Writer

/-! ### Probes -/

/-- How far `probe_once` is. -/
inductive Phase where
  | idle
  | sampled (sampledAt : Int)
  | scanned (sampledAt : Int) (oldestXactStart : Option Int)
  | beaten (wall : Int) (committedAt : Int) (beat : Commit)
  | regressed (wall : Int)
  | rotated (wall : Int) (committedAt : Int) (beat : Commit)
deriving DecidableEq

structure Pod where
  fence : ReplicaFence := {}
  phase : Phase := .idle
  /-- The commits of the tokens that have been recorded, the newest first. -/
  recorded : List Commit := []
deriving DecidableEq

/-- The retained entries with the commits of their tokens, the newest first. -/
def Pod.cited (p : Pod) : List (TokenEntry × Commit) := p.fence.ring.reverse.zip p.recorded

namespace Pod

variable {p : Pod} {pair : TokenEntry × Commit} {beat : Commit}

theorem cited_eq_nil (empty : p.fence.ring = []) : p.cited = [] := by
  rw [cited, empty]
  rfl

private theorem mem_zip_of_append {α β : Type} {l l' : List α} {r : List β} {pair : α × β}
    (member : pair ∈ l.zip r) : pair ∈ (l ++ l').zip r := by
  -- Along both lists: a longer one pairs what it paired before.
  induction l generalizing r with
  | nil => cases member
  | cons a l ih =>
    cases r with
    | nil => cases member
    | cons b r =>
      rw [List.zip_cons_cons] at member
      rw [List.cons_append, List.zip_cons_cons]
      rcases List.mem_cons.mp member with rfl | later
      · exact List.mem_cons_self
      · exact List.mem_cons_of_mem _ (ih later)

theorem mem_zip_retain {f : ReplicaFence} {entry : TokenEntry} {recorded : List Commit}
    (member : pair ∈ (f.retain entry).ring.reverse.zip (beat :: recorded)) :
    pair = (entry, beat) ∨ pair ∈ f.ring.reverse.zip recorded := by
  unfold ReplicaFence.retain at member
  rw [List.reverse_append, List.reverse_singleton, List.singleton_append, List.zip_cons_cons] at member
  rcases List.mem_cons.mp member with new | old
  · exact Or.inl new
  · right
    -- Newest first, the oldest entry is the last one of the zip.
    split at old
    · cases ring : f.ring with
      | nil =>
        rw [ring] at old
        exact old
      | cons oldest rest =>
        rw [ring, List.tail_cons] at old
        rw [List.reverse_cons]
        exact mem_zip_of_append old
    · exact old

theorem mem_cited_record {fence : ReplicaFence} {token wall committedAt : Int} {epoch : Uuid}
    (record : p.fence.record token epoch committedAt wall = (fence, .recorded))
    (member : pair ∈ (⟨fence, .idle, beat :: p.recorded⟩ : Pod).cited) :
    pair = (⟨token, committedAt, wall⟩, beat) ∨ pair ∈ p.cited ∧ p.fence.epoch = some epoch ∧
      ∀ last ∈ p.fence.ring.getLast?, last.token < token := by
  -- Another epoch starts a ring, a larger token goes on with it, a smaller one is refused.
  rcases p.fence.record_cases token epoch committedAt wall with
    ⟨_, same⟩ | ⟨own, larger, same⟩ | ⟨_, _, same⟩
  · rw [same] at record
    cases record
    left
    simpa [Pod.cited] using member
  · rw [same] at record
    cases record
    exact (mem_zip_retain member).imp_right fun old => ⟨old, own, larger⟩
  · rw [same] at record
    cases record

theorem length_record {fence : ReplicaFence} {token wall committedAt : Int} {epoch : Uuid}
    (record : p.fence.record token epoch committedAt wall = (fence, .recorded))
    (length : p.fence.ring.length ≤ p.recorded.length) :
    fence.ring.length ≤ (beat :: p.recorded).length := by
  rcases p.fence.record_cases token epoch committedAt wall with
    ⟨_, same⟩ | ⟨_, _, same⟩ | ⟨_, _, same⟩
  · rw [same] at record
    cases record
    exact Nat.succ_le_succ (Nat.zero_le _)
  · rw [same] at record
    cases record
    simp only [ReplicaFence.retain, List.length_append, List.length_cons, List.length_nil]
    split
    · rw [List.length_tail]
      omega
    · omega
  · rw [same] at record
    cases record

theorem exists_own (length : p.fence.ring.length ≤ p.recorded.length) {entry : TokenEntry}
    (member : entry ∈ p.fence.ring) :
    ∃ own, (entry, own) ∈ p.cited := by
  obtain ⟨k, inside, here⟩ := List.mem_iff_getElem.mp (List.mem_reverse.mpr member)
  have bound : k < p.recorded.length := by
    rw [List.length_reverse] at inside
    omega
  -- The entry stands where its commit does.
  have position : k < p.cited.length := by
    rw [Pod.cited, List.length_zip]
    omega
  refine ⟨p.recorded[k], ?_⟩
  have same : p.cited[k] = (entry, p.recorded[k]) := by
    simp only [Pod.cited, List.getElem_zip, here]
  rw [← same]
  exact List.getElem_mem position

end Pod

inductive Statement where
  | sample
  | scan
  | beat (committedAt : Int)
  | receive
  | rotate (committedAt : Int) (epoch : Uuid)
  | receiveRotated
  /-- The statement, or what it returns, does not go through: `run_probe` closes the fence. -/
  | fail
deriving DecidableEq

/-- One statement of the loop of a pod. -/
def Pod.probe (p : Pod) (w : Writer) : Statement → Option (Pod × Writer)
  | .sample =>
    match p.phase with
    | .idle => some ({ p with phase := .sampled w.now }, w)
    | _ => none
  | .scan =>
    match p.phase with
    | .sampled sampledAt => some ({ p with phase := .scanned sampledAt w.oldestXactStart }, w)
    | _ => none
  | .beat committedAt =>
    match p.phase with
    | .scanned sampledAt oldest => do
      let (w, beat) ← w.updateHeartbeat none
      some ({ p with phase := .beaten (fenceWall sampledAt oldest) committedAt beat }, w)
    | _ => none
  | .receive =>
    match p.phase with
    | .beaten wall committedAt beat =>
      match p.fence.record beat.token beat.epoch committedAt wall with
      | (fence, .recorded) => some (⟨fence, .idle, beat :: p.recorded⟩, w)
      | (fence, .tokenRegression) => some ({ p with fence, phase := .regressed wall }, w)
    | _ => none
  | .rotate committedAt epoch =>
    match p.phase with
    | .regressed wall =>
      -- `gen_random_uuid` does not repeat itself.
      if w.knows epoch then none
      else do
        let (w, beat) ← w.updateHeartbeat (some epoch)
        some ({ p with phase := .rotated wall committedAt beat }, w)
    | _ => none
  | .receiveRotated =>
    match p.phase with
    | .rotated wall committedAt beat =>
      some (⟨(p.fence.record beat.token beat.epoch committedAt wall).1, .idle,
        beat :: p.recorded⟩, w)
    | _ => none
  | .fail => some ({ p with fence := p.fence.close, phase := .idle }, w)

structure System (ι : Type) where
  writer : Writer
  pods : ι → Pod

inductive Action (ι : Type) where
  | serve (request : Writer.Request)
  | probe (pod : ι) (statement : Statement)
  | restore (dropped : Nat)
deriving DecidableEq

namespace System

variable {ι : Type} [DecidableEq ι]

def initial (now : Int) (epoch : Uuid) (rows : List Row) : System ι :=
  ⟨.initial now epoch rows, fun _ => {}⟩

def step (s : System ι) : Action ι → Option (System ι)
  | .serve request => do some { s with writer := ← s.writer.serve request }
  | .probe pod statement => do
    let (p, writer) ← (s.pods pod).probe s.writer statement
    some ⟨writer, Function.update s.pods pod p⟩
  | .restore dropped => do some { s with writer := ← s.writer.restore dropped }

end System

end Replica
