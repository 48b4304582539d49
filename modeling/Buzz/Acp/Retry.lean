import Buzz.Acp.Harness

/-!
# Retry accounting

`retry_counts` is meant to count the failed turns of a channel since its last successful
one, so that a batch that keeps failing is dead-lettered. `mark_complete` cannot tell a
successful turn from any other: it takes an active `retry_after` throttle as the sign of
a failure. The ledger records what really happened, and `counted_iff_keepsCount` says
when the two agree: along a whole run exactly when every single step keeps the count.

What goes wrong is a turn that was completed without success while no throttle was
active, above all a batch that found no agent after the backoff of its channel had
passed (`unassigned_batch_resets_count`).
-/
namespace Acp

open Nostr Lib

/-- How a batch was handed back. -/
inductive Outcome where
  | succeeded
  | failed
  | deadLettered
  /-- No agent was free. -/
  | unassigned
  | cancelled
deriving DecidableEq

/-- The harness with a record of the turns. -/
structure Ledger where
  harness : Harness
  /-- The latest clock reading. -/
  clock : Instant := 0
  /-- How the batches whose `mark_complete` is due were handed back, oldest first. -/
  handed : List (Uuid × Outcome) := []
  /-- Requeue failures since the last successful turn, dead-letter or `drain_channel`. -/
  failures : Uuid → Nat := fun _ => 0

/-- The clock reading of an action. -/
def Action.reading : Action → Option Instant
  | .flushNext now | .requeue _ now _ | .markComplete _ now | .hasFlushableWork now
  | .extendInFlightDeadline _ now _ | .compactExpiredState now => some now
  | _ => none

namespace EventQueue

/-- The value of the retry counter. -/
def retryCount (q : EventQueue) (channel : Uuid) : Nat := (q.retryCounts.lookup channel).getD 0

/-- The backoff of the channel has not passed. -/
def Throttled (q : EventQueue) (channel : Uuid) (now : Instant) : Prop :=
  ∃ deadline, q.retryAfter.lookup channel = some deadline ∧ now < deadline

end EventQueue

namespace Ledger

def start (mode : DedupMode) (deadline : Duration) : Ledger :=
  { harness := Harness.start mode deadline }

/-- How the action hands a batch back. -/
def outcome (l : Ledger) : Action → Option (Uuid × Outcome)
  | .succeed b => some (b.channelId, .succeeded)
  | .requeue b now nanos =>
    some (b.channelId,
      if (l.harness.queue.requeue now nanos b).1.isSome then .deadLettered else .failed)
  | .requeuePreserveTimestamps b => some (b.channelId, .unassigned)
  | .requeueAsCancelled b _ => some (b.channelId, .cancelled)
  | _ => none

def perform (l : Ledger) (a : Action) : Ledger where
  harness := l.harness.perform a
  clock := a.reading.getD l.clock
  handed := match a with
    | .markComplete channel _ => l.handed.eraseP (·.1 = channel)
    | _ => l.handed ++ (l.outcome a).toList
  failures := match a with
    | .requeue b now nanos =>
      Function.update l.failures b.channelId
        (if (l.harness.queue.requeue now nanos b).1.isSome then 0
          else l.failures b.channelId + 1)
    | .markComplete channel _ =>
      if l.handed.lookup channel = some .succeeded then Function.update l.failures channel 0
      else l.failures
    | .drainChannel channel => Function.update l.failures channel 0
    | _ => l.failures

/-- The harness protocol. -/
def Allowed (l : Ledger) (a : Action) : Prop := l.harness.Allowed a

/-- Clock readings do not decrease, and a failed turn is completed before its backoff has passed. -/
def Timely (l : Ledger) (a : Action) : Prop :=
  (∀ now ∈ a.reading, l.clock ≤ now) ∧
  match a with
  | .markComplete channel now =>
    l.handed.lookup channel = some .failed → l.harness.queue.Throttled channel now
  | _ => True

/-- The counter of every channel is the number of its failures. -/
def Counted (l : Ledger) : Prop :=
  ∀ channel, l.harness.queue.retryCount channel = l.failures channel

/-- The step is none of those that go wrong. A counter that is not zero is
* not completed by a successful turn while the channel is throttled, nor by any other turn while
  it is not,
* not compacted away: the channel is throttled, has queued events or is in flight. -/
def KeepsCount (l : Ledger) : Action → Prop
  | .markComplete channel now =>
    l.harness.queue.retryCount channel = 0 ∨
      (l.handed.lookup channel = some .succeeded ↔ ¬l.harness.queue.Throttled channel now)
  | .compactExpiredState now => ∀ channel,
    l.harness.queue.retryCount channel = 0 ∨ l.harness.queue.Throttled channel now ∨
      l.harness.queue.queues.row channel ≠ [] ∨ channel ∈ l.harness.queue.inFlightChannels
  | _ => True

end Ledger

/-! ### What each operation does to the counters -/

namespace EventQueue

variable (q : EventQueue)

theorem retryCounts_expireInFlight (now : Instant) :
    (q.expireInFlight now).retryCounts = q.retryCounts := by
  have one (q : EventQueue) (channel : Uuid) :
      (q.expireChannel channel).retryCounts = q.retryCounts := by
    unfold expireChannel recoverWithheldForExpiredChannel
    split <;> rfl
  unfold expireInFlight
  induction q.expiredChannels now generalizing q with
  | nil => rfl
  | cons channel rest ih => rw [List.foldl_cons, ih, one]

theorem retryCounts_flushNext (now : Instant) :
    (q.flushNext now).2.retryCounts = q.retryCounts := by
  rw [← retryCounts_expireInFlight q now]
  rcases flushNext_cases q now with
    ⟨channel, _, flushed⟩ | ⟨_, ⟨channel, _, flushed⟩ | ⟨_, nothing⟩⟩
  · rw [flushed]; rfl
  · rw [flushed]; rfl
  · rw [nothing]

theorem retryCount_requeue (now : Instant) (nanos : Nat) (b : FlushBatch) (channel : Uuid) :
    (q.requeue now nanos b).2.retryCount channel =
      if channel = b.channelId then
        (if (q.requeue now nanos b).1.isSome then 0 else q.retryCount b.channelId + 1)
      else q.retryCount channel := by
  rw [requeue_fst]
  unfold requeue retryCount
  dsimp only
  split
  next dead =>
    rw [Map.lookup_erase_ite]
    split <;> simp
  next retried =>
    simp only [pushFront, Map.lookup_insert_ite]
    split <;> simp

theorem retryCount_markComplete (now : Instant) (completed channel : Uuid) :
    (q.markComplete now completed).retryCount channel = 0 ∧ channel = completed ∧
        ¬q.Throttled completed now ∨
      (q.markComplete now completed).retryCount channel = q.retryCount channel ∧
        (channel = completed → q.Throttled completed now) := by
  -- The counter is erased in the two branches without an active throttle.
  have erased : ((q.retryCounts.erase completed).lookup channel).getD 0 =
      if channel = completed then 0 else q.retryCount channel := by
    rw [Map.lookup_erase_ite]
    split <;> simp [retryCount]
  unfold markComplete retryCount
  dsimp only
  split
  next deadline stored =>
    split
    next active => exact Or.inr ⟨rfl, fun _ => ⟨deadline, stored, active⟩⟩
    next passed =>
      have free : ¬q.Throttled completed now := by
        rintro ⟨deadline', stored', active⟩
        rw [stored] at stored'
        cases stored'
        exact passed active
      dsimp only
      rw [erased]
      by_cases same : channel = completed
      · exact Or.inl ⟨if_pos same, same, free⟩
      · exact Or.inr ⟨if_neg same, fun eq => absurd eq same⟩
  next absent =>
    have free : ¬q.Throttled completed now := by
      rintro ⟨deadline', stored', -⟩
      rw [absent] at stored'
      cases stored'
    dsimp only
    rw [erased]
    by_cases same : channel = completed
    · exact Or.inl ⟨if_pos same, same, free⟩
    · exact Or.inr ⟨if_neg same, fun eq => absurd eq same⟩

theorem retryCount_drainChannel (drained channel : Uuid) :
    (q.drainChannel drained).2.retryCount channel =
      if channel = drained then 0 else q.retryCount channel := by
  simp only [drainChannel, retryCount, Map.lookup_erase_ite]
  split <;> simp

/-- Compaction keeps the counters of the channels that are throttled, queued or in flight. -/
theorem retryCount_compactExpiredState (now : Instant) (channel : Uuid) :
    (q.compactExpiredState now).retryCount channel = q.retryCount channel ∧
        (q.Throttled channel now ∨ q.queues.row channel ≠ [] ∨ channel ∈ q.inFlightChannels) ∨
      (q.compactExpiredState now).retryCount channel = 0 ∧
        ¬(q.Throttled channel now ∨ q.queues.row channel ≠ [] ∨ channel ∈ q.inFlightChannels) := by
  have throttle : channel ∈ q.retryAfter.retain (fun _ deadline => decide (now < deadline)) ↔
      q.Throttled channel now := by
    rw [← AList.lookup_isSome, Map.lookup_retain, Option.isSome_filter, Option.any_eq_true]
    simp [Throttled]
  simp only [compactExpiredState, retryCount, Map.lookup_retain]
  by_cases busy : q.Throttled channel now ∨ q.queues.row channel ≠ [] ∨
      channel ∈ q.inFlightChannels
  · left
    have kept : (decide (channel ∈ q.retryAfter.retain fun _ deadline => decide (now < deadline)) ||
        !(q.queues.row channel).isEmpty || decide (channel ∈ q.inFlightChannels)) = true := by
      simpa [throttle, or_assoc] using busy
    refine ⟨?_, busy⟩
    cases q.retryCounts.lookup channel with
    | none => rfl
    | some count => rw [Option.filter_some, if_pos kept]
  · right
    have idle : (decide (channel ∈ q.retryAfter.retain fun _ deadline => decide (now < deadline)) ||
        !(q.queues.row channel).isEmpty || decide (channel ∈ q.inFlightChannels)) = false := by
      rw [Bool.eq_false_iff]
      intro kept
      apply busy
      simpa [throttle, or_assoc] using kept
    refine ⟨?_, busy⟩
    cases q.retryCounts.lookup channel with
    | none => rfl
    | some count => rw [Option.filter_some, if_neg (by simp [idle])]; rfl

end EventQueue

/-! ### One step -/

namespace Ledger

variable {l : Ledger} {a : Action}

private theorem counted_of_same (counted : l.Counted)
    (counts : (l.perform a).harness.queue.retryCounts = l.harness.queue.retryCounts)
    (failures : (l.perform a).failures = l.failures) : (l.perform a).Counted := by
  intro channel
  rw [EventQueue.retryCount, counts, failures]
  exact counted channel

private theorem counted_requeue (counted : l.Counted) (b : FlushBatch) (now : Instant)
    (nanos : Nat) : (l.perform (.requeue b now nanos)).Counted := by
  intro channel
  apply (EventQueue.retryCount_requeue l.harness.queue now nanos b channel).trans
  by_cases same : channel = b.channelId
  · subst same
    simp only [perform, Function.update_self, counted b.channelId, if_true]
  · simp only [perform, Function.update_of_ne same, same, if_false]
    exact counted channel

private theorem counted_drainChannel (counted : l.Counted) (drained : Uuid) :
    (l.perform (.drainChannel drained)).Counted := by
  intro channel
  apply (EventQueue.retryCount_drainChannel l.harness.queue drained channel).trans
  by_cases same : channel = drained
  · subst same
    simp only [perform, Function.update_self, if_true]
  · simp only [perform, Function.update_of_ne same, same, if_false]
    exact counted channel

/-- Completing a turn keeps the count unless the throttle gives the wrong sign. -/
private theorem counted_markComplete_iff (counted : l.Counted) (completed : Uuid) (now : Instant) :
    (l.perform (.markComplete completed now)).Counted ↔
      l.KeepsCount (.markComplete completed now) := by
  have count (channel : Uuid) := l.harness.queue.retryCount_markComplete now completed channel
  have failures : (l.perform (.markComplete completed now)).failures =
      if l.handed.lookup completed = some .succeeded then Function.update l.failures completed 0
      else l.failures := rfl
  -- The other channels are not concerned.
  have others (channel : Uuid) (other : channel ≠ completed) :
      (l.perform (.markComplete completed now)).harness.queue.retryCount channel =
        (l.perform (.markComplete completed now)).failures channel := by
    rw [failures]
    rcases count channel with ⟨-, same, -⟩ | ⟨kept, -⟩
    · exact absurd same other
    · apply kept.trans
      rw [counted channel]
      split
      next => rw [Function.update_of_ne other]
      next => rfl
  have here : (l.perform (.markComplete completed now)).Counted ↔
      (l.harness.queue.markComplete now completed).retryCount completed =
        if l.handed.lookup completed = some .succeeded then 0
        else l.harness.queue.retryCount completed := by
    constructor
    · intro after
      apply (after completed).trans
      rw [failures]
      split
      next => rw [Function.update_self]
      next => exact (counted completed).symm
    · intro same channel
      by_cases other : channel = completed
      · subst other
        apply same.trans
        rw [failures]
        split
        next => rw [Function.update_self]
        next => exact counted channel
      · exact others channel other
  rw [here, KeepsCount]
  rcases count completed with ⟨reset, -, free⟩ | ⟨kept, throttled⟩
  · rw [reset]
    by_cases success : l.handed.lookup completed = some .succeeded
    · simp [success, free]
    · simp only [success, if_false, free, not_false_eq_true, iff_true, or_false]
      exact eq_comm
  · have throttled := throttled rfl
    rw [kept]
    by_cases success : l.handed.lookup completed = some .succeeded
    · simp [success, throttled]
    · simp [success, throttled]

private theorem counted_compactExpiredState_iff (counted : l.Counted) (now : Instant) :
    (l.perform (.compactExpiredState now)).Counted ↔ l.KeepsCount (.compactExpiredState now) := by
  refine forall_congr' fun channel => ?_
  change (l.harness.queue.compactExpiredState now).retryCount channel = l.failures channel ↔ _
  rw [← counted channel]
  rcases l.harness.queue.retryCount_compactExpiredState now channel with ⟨kept, busy⟩ | ⟨lost, idle⟩
  · rw [kept]
    exact iff_of_true rfl (Or.inr busy)
  · rw [lost]
    constructor
    · exact fun zero => Or.inl zero.symm
    · rintro (zero | busy)
      · exact zero.symm
      · exact absurd busy idle

/-- A step keeps the count exactly when it is none of those that go wrong. -/
theorem counted_perform_iff (allowed : l.Allowed a) (counted : l.Counted) :
    (l.perform a).Counted ↔ l.KeepsCount a := by
  have same (counts : (l.perform a).harness.queue.retryCounts = l.harness.queue.retryCounts)
      (failures : (l.perform a).failures = l.failures) (keeps : l.KeepsCount a) :
      (l.perform a).Counted ↔ l.KeepsCount a :=
    iff_of_true (counted_of_same counted counts failures) keeps
  cases a with
  | push event =>
    apply same _ rfl trivial
    simp only [perform, Harness.perform, EventQueue.push]
    split <;> rfl
  | flushNext now => exact same (l.harness.queue.retryCounts_flushNext now) rfl trivial
  | succeed b => exact same rfl rfl trivial
  | requeue b now nanos => exact iff_of_true (counted_requeue counted b now nanos) trivial
  | requeuePreserveTimestamps b => exact same rfl rfl trivial
  | requeueAsCancelled b reason => exact same rfl rfl trivial
  | markComplete channel now => exact counted_markComplete_iff counted channel now
  | markNativeSteerPending channel eventId =>
    apply same _ rfl trivial
    simp only [perform, Harness.perform, EventQueue.markNativeSteerPending]
    split <;> rfl
  | releaseNativeSteer channel eventId =>
    apply same _ rfl trivial
    simp only [perform, Harness.perform, EventQueue.releaseNativeSteer]
    split <;> rfl
  | removeEvent channel eventId => exact same rfl rfl trivial
  | drainChannel channel => exact iff_of_true (counted_drainChannel counted channel) trivial
  | hasFlushableWork now => exact same (l.harness.queue.retryCounts_expireInFlight now) rfl trivial
  | extendInFlightDeadline channel now maxTurnSecs =>
    apply same _ rfl trivial
    simp only [perform, Harness.perform, EventQueue.extendInFlightDeadline]
    split
    next => rfl
    next => split <;> rfl
  | compactExpiredState now => exact counted_compactExpiredState_iff counted now
  | rehash queue =>
    refine iff_of_true (fun channel => ?_) trivial
    have entries : queue.retryCounts.entries.Perm l.harness.queue.retryCounts.entries :=
      allowed.retryCounts.symm
    apply Eq.trans _ (counted channel)
    exact congrArg (·.getD 0) (AList.perm_lookup entries)

/-! ### Whole runs -/

/-- With the counter the failures decide over the dead letter. -/
theorem Counted.requeue (counted : l.Counted) (b : FlushBatch) (now : Instant) (nanos : Nat) :
    (l.harness.queue.requeue now nanos b).1 = some b ↔ maxRetries ≤ l.failures b.channelId := by
  rw [EventQueue.requeue_fst, ← counted b.channelId]
  change (if maxRetries < l.harness.queue.retryCount b.channelId + 1 then some b else none) =
    some b ↔ _
  split
  next dead => exact iff_of_true rfl (by omega)
  next retried => exact iff_of_false (by simp) (by omega)

private theorem counted_run_iff {actions : List Action}
    (allowed : Along perform Allowed l actions) (counted : l.Counted) :
    (∀ before after, actions = before ++ after → (before.foldl perform l).Counted) ↔
      Along perform KeepsCount l actions := by
  induction actions generalizing l with
  | nil =>
    refine iff_of_true (fun before after split => ?_) trivial
    obtain ⟨rfl, -⟩ := List.append_eq_nil_iff.mp split.symm
    exact counted
  | cons a rest ih =>
    obtain ⟨here, later⟩ := allowed
    have step := counted_perform_iff here counted
    constructor
    · intro everywhere
      have next : (l.perform a).Counted := everywhere [a] rest rfl
      refine ⟨step.mp next, (ih later next).mp fun before after split => ?_⟩
      exact everywhere (a :: before) after (by rw [split]; rfl)
    · rintro ⟨keeps, along⟩ before after split
      have next : (l.perform a).Counted := step.mpr keeps
      cases before with
      | nil => exact counted
      | cons a' before =>
        obtain ⟨rfl, rest⟩ := List.cons.inj split
        exact (ih later next).mpr along before after rest

theorem counted_start (mode : DedupMode) (deadline : Duration) : (start mode deadline).Counted :=
  fun _ => rfl

/-- Along a run of the harness every counter is the number of failures, and the failure after
`maxRetries` of them dead-letters its batch, exactly when every step keeps the count. -/
theorem counted_iff_keepsCount (mode : DedupMode) (deadline : Duration) (actions : List Action)
    (allowed : Along perform Allowed (start mode deadline) actions) :
    (∀ before after, actions = before ++ after →
      (before.foldl perform (start mode deadline)).Counted ∧
      ∀ b now nanos,
        ((before.foldl perform (start mode deadline)).harness.queue.requeue now nanos b).1 = some b ↔
          maxRetries ≤ (before.foldl perform (start mode deadline)).failures b.channelId) ↔
      Along perform KeepsCount (start mode deadline) actions := by
  rw [← counted_run_iff allowed (counted_start mode deadline)]
  constructor
  · intro both before after split
    exact (both before after split).1
  · intro counted before after split
    have here := counted before after split
    exact ⟨here, here.requeue⟩

/-! ### A batch that finds no agent -/

/-- An event of a fixed channel. -/
def poison : QueuedEvent :=
  let id := Hex64.repeated 'a' (Eq.refl true)
  ⟨⟨7⟩, ⟨id, id, 1700000000, 9, [], "hello"⟩, 10, "mention"⟩

def poisonBatch : FlushBatch := ⟨⟨7⟩, [poison.toBatchEvent], [], none⟩

/-- The batch fails once and is completed in time. -/
def failedOnce : List Action :=
  [.push poison, .flushNext 20, .requeue poisonBatch 30 0, .markComplete ⟨7⟩ 40]

/-- When its backoff has passed it is flushed again, and no agent is free. -/
def foundNoAgent : List Action :=
  failedOnce ++ [Action.flushNext 5000000000, Action.requeuePreserveTimestamps poisonBatch,
    Action.markComplete ⟨7⟩ 5000000001]

def defaultStart : Ledger := start .queue (Duration.fromSecs defaultInFlightDeadlineSecs)

theorem counted_failedOnce :
    (failedOnce.foldl perform defaultStart).Counted ∧
      (failedOnce.foldl perform defaultStart).failures ⟨7⟩ = 1 := by
  have allowed : Along perform Allowed defaultStart failedOnce := by
    simp only [failedOnce, Along, Allowed, Harness.Allowed]
    refine ⟨?_, ?_, ?_, ?_, ?_⟩ <;> decide
  have keeps : Along perform KeepsCount defaultStart failedOnce := by
    simp only [failedOnce, Along, KeepsCount]
    refine ⟨trivial, trivial, trivial, Or.inr ?_, trivial⟩
    refine iff_of_false (by decide) (not_not.mpr ⟨_, rfl, by decide⟩)
  exact ⟨((counted_iff_keepsCount .queue _ failedOnce allowed).mpr keeps failedOnce [] (by simp)).1,
    by decide⟩

/-- The count starts anew, although no turn has succeeded. -/
theorem unassigned_batch_resets_count :
    ¬∀ (mode : DedupMode) (deadline : Duration) (actions : List Action),
      Along perform Allowed (start mode deadline) actions →
      Along perform Timely (start mode deadline) actions →
      ∀ before after, actions = before ++ after →
        (before.foldl perform (start mode deadline)).Counted := by
  intro safe
  have allowed : Along perform Allowed defaultStart foundNoAgent := by
    simp only [foundNoAgent, failedOnce, List.cons_append, List.nil_append, Along, Allowed,
      Harness.Allowed]
    refine ⟨?_, ?_, ?_, ?_, ?_, ?_, ?_, ?_⟩ <;> decide
  have timely : Along perform Timely defaultStart foundNoAgent := by
    simp only [foundNoAgent, failedOnce, List.cons_append, List.nil_append, Along, Timely]
    refine ⟨⟨by decide, trivial⟩, ⟨by decide, trivial⟩, ⟨by decide, trivial⟩,
      ⟨by decide, fun _ => ⟨_, rfl, by decide⟩⟩, ⟨by decide, trivial⟩, ⟨by decide, trivial⟩,
      ⟨by decide, fun failed => absurd failed (by decide)⟩, trivial⟩
  have counted := safe .queue _ foundNoAgent allowed timely foundNoAgent [] (by simp) ⟨7⟩
  revert counted
  decide

end Ledger

end Acp
