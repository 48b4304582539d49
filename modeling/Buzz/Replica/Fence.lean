import Buzz.Nostr.Event

/-!
# The replica fence

`replica_fence.rs` of `buzz-db`. A probe commits a heartbeat token on the writer and retains it
with a wall: every channel row created up to the wall is in a reader's snapshot once the snapshot
shows that token. The ring keeps the last tokens of one epoch, the oldest first; `record` adds to
it and `resolve` finds the strongest proof that an observed heartbeat supports.
-/
namespace Replica

open Nostr

/-- Seconds as the microseconds that a `DateTime<Utc>` counts. -/
def secs (n : Int) : Int := n * 1000000

def createdAtFloorSecs : Int := 960
def fenceClockMarginSecs : Int := 5
/-- In the milliseconds of the pod's monotonic clock. -/
def fenceStaleness : Int := 30000
def ringCapacity : Nat := 120

structure TokenEntry where
  token : Int
  /-- An `Instant`: read just before the token was committed. -/
  committedAt : Int
  fenceWall : Int
deriving DecidableEq

/-- `FenceInner`: the lock is held for the whole of each operation. -/
structure ReplicaFence where
  epoch : Option Uuid := none
  ring : List TokenEntry := []
deriving DecidableEq

inductive RecordOutcome where
  | recorded
  | tokenRegression
deriving DecidableEq

inductive ResolveOutcome where
  | proved (entry : TokenEntry)
  | epochMismatch
  | tokenBehind
deriving DecidableEq

namespace ReplicaFence

def close (f : ReplicaFence) : ReplicaFence := { f with ring := [] }

/-- `push_back`, after a `pop_front` when the ring is full. -/
def retain (f : ReplicaFence) (entry : TokenEntry) : ReplicaFence :=
  { f with ring := (if f.ring.length = ringCapacity then f.ring.tail else f.ring) ++ [entry] }

def record (f : ReplicaFence) (token : Int) (epoch : Uuid) (committedAt : Int)
    (fenceWall : Int) : ReplicaFence × RecordOutcome :=
  let entry : TokenEntry := ⟨token, committedAt, fenceWall⟩
  if f.epoch ≠ some epoch then
    (({ epoch := some epoch, ring := [] } : ReplicaFence).retain entry, .recorded)
  else if f.ring.getLast?.any (token ≤ ·.token) then ({ f with ring := [] }, .tokenRegression)
  else (f.retain entry, .recorded)

def resolve (f : ReplicaFence) (observedToken : Int) (observedEpoch : Uuid) : ResolveOutcome :=
  if f.epoch.any (· ≠ observedEpoch) then .epochMismatch
  else match f.ring.reverse.find? (·.token ≤ observedToken) with
    | none => .tokenBehind
    | some entry => .proved entry

/-- The newest entry, unless the probe has stopped. -/
def newest (f : ReplicaFence) (now : Int) : Option TokenEntry :=
  f.ring.getLast?.filter fun entry => now - entry.committedAt ≤ fenceStaleness

@[simp] theorem ring_close (f : ReplicaFence) : f.close.ring = [] := rfl

@[simp] theorem epoch_retain (f : ReplicaFence) (entry : TokenEntry) :
    (f.retain entry).epoch = f.epoch := rfl

/-- A proof cites a retained entry that the observed token has reached, under one epoch. -/
theorem resolve_eq_proved {f : ReplicaFence} {token : Int} {epoch : Uuid} {entry : TokenEntry}
    (proved : f.resolve token epoch = .proved entry) :
    entry ∈ f.ring ∧ entry.token ≤ token ∧ ∀ own ∈ f.epoch, own = epoch := by
  unfold resolve at proved
  split at proved
  next => cases proved
  next matching =>
    split at proved
    next => cases proved
    next found first =>
      cases proved
      refine ⟨by simpa using List.mem_of_find?_eq_some first, by simpa using List.find?_some first,
        ?_⟩
      intro own has
      rw [Option.mem_def] at has
      simpa [has] using matching

variable {f : ReplicaFence} {token : Int} {epoch : Uuid} {committedAt : Int} {wall : Int}

/-- A sample is taken as the first of its epoch, or after a smaller token, or refused. -/
theorem record_cases (f : ReplicaFence) (token : Int) (epoch : Uuid) (committedAt : Int)
    (wall : Int) :
    (f.epoch ≠ some epoch ∧ f.record token epoch committedAt wall =
        ({ epoch := some epoch, ring := [⟨token, committedAt, wall⟩] }, .recorded)) ∨
      (f.epoch = some epoch ∧ (∀ last ∈ f.ring.getLast?, last.token < token) ∧
        f.record token epoch committedAt wall = (f.retain ⟨token, committedAt, wall⟩, .recorded)) ∨
      (f.epoch = some epoch ∧ (∃ last ∈ f.ring.getLast?, token ≤ last.token) ∧
        f.record token epoch committedAt wall = ({ f with ring := [] }, .tokenRegression)) := by
  by_cases same : f.epoch = some epoch
  · right
    by_cases back : f.ring.getLast?.any (token ≤ ·.token) = true
    · right
      refine ⟨same, ?_, by simp [record, same, back]⟩
      simpa [Option.any_eq_true] using back
    · left
      refine ⟨same, ?_, by simp [record, same, back]⟩
      intro last newest
      rw [Option.mem_def] at newest
      simpa [newest] using back
  · left
    exact ⟨same, by simp [record, same, retain, ringCapacity]⟩

theorem epoch_of_recorded {fence : ReplicaFence}
    (recorded : f.record token epoch committedAt wall = (fence, .recorded)) :
    fence.epoch = some epoch := by
  rcases f.record_cases token epoch committedAt wall with
    ⟨_, same⟩ | ⟨own, _, same⟩ | ⟨_, _, same⟩
  · rw [same] at recorded
    cases recorded
    rfl
  · rw [same] at recorded
    cases recorded
    exact own
  · rw [same] at recorded
    cases recorded

theorem ring_of_tokenRegression {fence : ReplicaFence}
    (refused : f.record token epoch committedAt wall = (fence, .tokenRegression)) :
    fence.ring = [] := by
  rcases f.record_cases token epoch committedAt wall with
    ⟨_, same⟩ | ⟨_, _, same⟩ | ⟨_, _, same⟩
  · rw [same] at refused
    cases refused
  · rw [same] at refused
    cases refused
  · rw [same] at refused
    cases refused
    rfl

end ReplicaFence

/-- `min(oldest_xact_start, S) - floor - clock_margin`. -/
def fenceWall (sampleS : Int) (oldestXactStart : Option Int) : Int :=
  let lower := match oldestXactStart with
    | some oldest => min oldest sampleS
    | none => sampleS
  lower - secs createdAtFloorSecs - secs fenceClockMarginSecs

theorem fenceWall_lt_sample (sampleS : Int) (oldest : Option Int) :
    fenceWall sampleS oldest < sampleS - secs createdAtFloorSecs := by
  cases oldest <;> simp only [fenceWall, secs, createdAtFloorSecs, fenceClockMarginSecs] <;> omega

end Replica
