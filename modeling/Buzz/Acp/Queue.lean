import Buzz.Lib.Run
import Buzz.Lib.Tally
import Buzz.Nostr.Event
import Mathlib.Data.Finset.Erase
import Mathlib.Data.Finset.Insert
import Mathlib.Data.List.MinMax
import Mathlib.Data.List.Sort

/-!
# The ACP event queue

Per-channel event queues with per-channel in-flight tracking
(`buzz-acp/src/queue.rs`). Operations that read a clock take the reading as an
argument; a hash map is visited in the order of its entries. The logging is left
out, except that the events a full queue trims, which the source only logs, are
collected in the ghost field `trimmed`.
-/
namespace Acp

open Nostr Lib

/-- Maximum events queued per channel before events are dropped. -/
def maxPendingPerChannel : Nat := 500
/-- Maximum events drained into a single batch. -/
def maxBatchEvents : Nat := 50
/-- Maximum retry attempts before a batch is dead-lettered. -/
def maxRetries : Nat := 10
def baseRetryDelaySecs : Nat := 5
def maxRetryDelaySecs : Nat := 300
/-- Buffer added to the maximum turn duration to derive the in-flight deadline. -/
def inFlightDeadlineBufferSecs : Nat := 100
def defaultInFlightDeadlineSecs : Nat := 7300

inductive DedupMode where
  | drop
  | queue
deriving DecidableEq

structure QueuedEvent where
  channelId : Uuid
  event : Event
  receivedAt : Instant
  promptTag : String
deriving DecidableEq

structure BatchEvent where
  event : Event
  promptTag : String
  receivedAt : Instant
deriving DecidableEq

/-- An event id with the channel it is queued for. -/
abbrev Item := Uuid × EventId

def QueuedEvent.itemIn (channel : Uuid) (qe : QueuedEvent) : Item := (channel, qe.event.id)
def BatchEvent.itemIn (channel : Uuid) (be : BatchEvent) : Item := (channel, be.event.id)

/-- The item of an event in the channel it names. -/
def QueuedEvent.item (qe : QueuedEvent) : Item := qe.itemIn qe.channelId

def QueuedEvent.toBatchEvent (qe : QueuedEvent) : BatchEvent :=
  ⟨qe.event, qe.promptTag, qe.receivedAt⟩

def BatchEvent.toQueuedEvent (be : BatchEvent) (channelId : Uuid) : QueuedEvent :=
  ⟨channelId, be.event, be.receivedAt, be.promptTag⟩

/-- Why a batch's prior turn was cancelled. -/
inductive CancelReason where
  | interrupt
  | steer
deriving DecidableEq

/-- A batch of events to prompt the agent with. -/
structure FlushBatch where
  channelId : Uuid
  events : List BatchEvent
  /-- Events of a cancelled batch merged into this one. -/
  cancelledEvents : List BatchEvent
  cancelReason : Option CancelReason
deriving DecidableEq

structure EventQueue where
  queues : Map Uuid (List QueuedEvent) := ∅
  inFlightChannels : Finset Uuid := ∅
  inFlightDeadlines : Map Uuid Instant := ∅
  inFlightBatchSizes : Map Uuid Nat := ∅
  retryAfter : Map Uuid Instant := ∅
  retryCounts : Map Uuid Nat := ∅
  dedupMode : DedupMode
  cancelledBatches : Map Uuid (List BatchEvent) := ∅
  cancelReasons : Map Uuid CancelReason := ∅
  /-- Events withheld from `queues` while a native steer is in flight for them. -/
  withheldNativeSteer : Map Uuid (List QueuedEvent) := ∅
  inFlightDeadline : Duration := Duration.fromSecs defaultInFlightDeadlineSecs
  /-- Ghost: what the per-channel cap has trimmed. -/
  trimmed : List Item := []
deriving DecidableEq

namespace EventQueue

def new (dedupMode : DedupMode) : EventQueue := { dedupMode := dedupMode }

/-- Extend the deadline of an in-flight channel, never moving it backward. -/
def extendInFlightDeadline (q : EventQueue) (now : Instant) (channelId : Uuid)
    (maxTurnSecs : Nat) : EventQueue :=
  match q.inFlightDeadlines.lookup channelId with
  | none => q
  | some current =>
    let extended := now + Duration.fromSecs (maxTurnSecs + inFlightDeadlineBufferSecs)
    if current < extended then
      { q with inFlightDeadlines := q.inFlightDeadlines.insert channelId extended }
    else q

/-- Returns whether the event was accepted. -/
def push (q : EventQueue) (event : QueuedEvent) : Bool × EventQueue :=
  if q.dedupMode = .drop ∧ event.channelId ∈ q.inFlightChannels then (false, q)
  else
    let queue := q.queues.row event.channelId
    -- a full queue drops its oldest event to make room
    let surplus := if maxPendingPerChannel ≤ queue.length then 1 else 0
    (true, { q with
      queues := q.queues.insert event.channelId (queue.drop surplus ++ [event])
      trimmed := q.trimmed ++ (queue.take surplus).map (QueuedEvent.itemIn event.channelId) })

/-- Put events back at the front of their channel's queue, in order, and trim the
back of the queue to the cap. -/
def pushFront (q : EventQueue) (channelId : Uuid) (events : List QueuedEvent) : EventQueue :=
  let queue := events ++ q.queues.row channelId
  { q with
    queues := q.queues.insert channelId (queue.take maxPendingPerChannel)
    trimmed := q.trimmed ++
      (queue.drop maxPendingPerChannel).map (QueuedEvent.itemIn channelId) }

/-- Release all withheld events of an expired channel to the front of its queue. -/
def recoverWithheldForExpiredChannel (q : EventQueue) (channelId : Uuid) : EventQueue :=
  match q.withheldNativeSteer.lookup channelId with
  | none => q
  | some entries =>
    pushFront { q with withheldNativeSteer := q.withheldNativeSteer.erase channelId }
      channelId entries

/-- Auto-expire one in-flight entry that missed `mark_complete`. -/
def expireChannel (q : EventQueue) (channelId : Uuid) : EventQueue :=
  recoverWithheldForExpiredChannel { q with
    inFlightBatchSizes := q.inFlightBatchSizes.erase channelId
    inFlightChannels := q.inFlightChannels.erase channelId
    inFlightDeadlines := q.inFlightDeadlines.erase channelId } channelId

def expiredChannels (q : EventQueue) (now : Instant) : List Uuid :=
  (q.inFlightDeadlines.entries.filter fun e => e.2 ≤ now).map Sigma.fst

/-- The expiry block that `flush_next` and `has_flushable_work` start with. -/
def expireInFlight (q : EventQueue) (now : Instant) : EventQueue :=
  (q.expiredChannels now).foldl expireChannel q

/-- The channel has queued events, is not in flight and is not throttled. -/
def isReady (q : EventQueue) (now : Instant) (channelId : Uuid) (queue : List QueuedEvent) :
    Bool :=
  !queue.isEmpty && channelId ∉ q.inFlightChannels &&
    (q.retryAfter.lookup channelId).all (· ≤ now)

/-- The ready channel whose head event has the oldest `received_at`. -/
def oldestReady (q : EventQueue) (now : Instant) : Option Uuid :=
  ((q.queues.entries.filter fun e => q.isReady now e.1 e.2).argmin
    fun e => (e.2.head?.map (·.receivedAt)).getD 0).map Sigma.fst

/-- The first channel with cancelled events that is not in flight. -/
def cancelledReady (q : EventQueue) : Option Uuid :=
  q.cancelledBatches.keys.find? (· ∉ q.inFlightChannels)

def markInFlight (q : EventQueue) (now : Instant) (channelId : Uuid) (size : Nat) : EventQueue :=
  { q with
    inFlightChannels := insert channelId q.inFlightChannels
    inFlightDeadlines := q.inFlightDeadlines.insert channelId (now + q.inFlightDeadline)
    inFlightBatchSizes := q.inFlightBatchSizes.insert channelId size }

/-- The fallback of `flush_next`: re-dispatch a cancelled batch unchanged. -/
def flushCancelled (q : EventQueue) (now : Instant) (channelId : Uuid) :
    FlushBatch × EventQueue :=
  let cancelled := q.cancelledBatches.row channelId
  let cancelReason := q.cancelReasons.lookup channelId
  let q := { q with
    cancelledBatches := q.cancelledBatches.erase channelId
    cancelReasons := q.cancelReasons.erase channelId }
  (⟨channelId, cancelled, [], cancelReason⟩, q.markInFlight now channelId cancelled.length)

/-- Drain a batch from the front of the channel's queue, sorted by creation time,
and merge the channel's cancelled events into it. -/
def flushChannel (q : EventQueue) (now : Instant) (channelId : Uuid) : FlushBatch × EventQueue :=
  let queue := q.queues.row channelId
  let drainCount := min maxBatchEvents queue.length
  let events := ((queue.take drainCount).map QueuedEvent.toBatchEvent).insertionSort
    fun a b => a.event.createdAt ≤ b.event.createdAt
  let q := { q with queues := q.queues.put channelId (queue.drop drainCount) }
  let q := q.markInFlight now channelId events.length
  let cancelledEvents := q.cancelledBatches.row channelId
  let cancelReason :=
    if cancelledEvents.isEmpty then none else q.cancelReasons.lookup channelId
  (⟨channelId, events, cancelledEvents, cancelReason⟩, { q with
    cancelledBatches := q.cancelledBatches.erase channelId
    cancelReasons := q.cancelReasons.erase channelId })

def flushNext (q : EventQueue) (now : Instant) : Option FlushBatch × EventQueue :=
  let q := q.expireInFlight now
  match q.oldestReady now with
  | some channelId =>
    let (batch, q) := q.flushChannel now channelId
    (some batch, q)
  | none =>
    match q.cancelledReady with
    | some channelId =>
      let (batch, q) := q.flushCancelled now channelId
      (some batch, q)
    | none => (none, q)

def markComplete (q : EventQueue) (now : Instant) (channelId : Uuid) : EventQueue :=
  let q := { q with
    inFlightChannels := q.inFlightChannels.erase channelId
    inFlightDeadlines := q.inFlightDeadlines.erase channelId
    inFlightBatchSizes := q.inFlightBatchSizes.erase channelId }
  match q.retryAfter.lookup channelId with
  | some deadline =>
    -- an active throttle means the channel was requeued: its counter stays
    if now < deadline then q
    else { q with
      retryAfter := q.retryAfter.erase channelId
      retryCounts := q.retryCounts.erase channelId }
  | none => { q with retryCounts := q.retryCounts.erase channelId }

/-- Backoff before jitter: doubled each attempt, capped. -/
def backoffSecs (attempt : Nat) : Nat :=
  min (baseRetryDelaySecs * 2 ^ min (attempt - 1) 6) maxRetryDelaySecs

/-- The backoff times `0.8 + (nanos / u32::MAX) * 0.4`, where `nanos` are the
subsecond nanoseconds of the wall clock. The source's `f64` product is taken
exactly here and then rounded to nanoseconds. -/
def jitteredDelay (attempt nanos : Nat) : Duration :=
  let u32Max := 4294967295
  (2 * Duration.fromSecs (backoffSecs attempt) * (8 * u32Max + 4 * nanos) + 10 * u32Max) /
    (20 * u32Max)

/-- Re-queue a batch that failed to process. Returns the batch when it is
dead-lettered instead. -/
def requeue (q : EventQueue) (now : Instant) (nanos : Nat) (batch : FlushBatch) :
    Option FlushBatch × EventQueue :=
  let channelId := batch.channelId
  let attempt := (q.retryCounts.lookup channelId).getD 0 + 1
  if maxRetries < attempt then
    (some batch, { q with
      retryCounts := q.retryCounts.erase channelId
      retryAfter := q.retryAfter.erase channelId })
  else
    let q := { q with retryCounts := q.retryCounts.insert channelId attempt }
    let q := q.pushFront channelId (batch.events.map (·.toQueuedEvent channelId))
    (none, { q with
      retryAfter := q.retryAfter.insert channelId (now + jitteredDelay attempt nanos) })

def requeuePreserveTimestamps (q : EventQueue) (batch : FlushBatch) : EventQueue :=
  q.pushFront batch.channelId (batch.events.map (·.toQueuedEvent batch.channelId))

/-- Store a cancelled batch to be merged into the next one of its channel. -/
def requeueAsCancelled (q : EventQueue) (batch : FlushBatch) (reason : CancelReason) :
    EventQueue :=
  { q with
    cancelledBatches := q.cancelledBatches.insert batch.channelId
      (q.cancelledBatches.row batch.channelId ++ batch.cancelledEvents ++ batch.events)
    cancelReasons := q.cancelReasons.insert batch.channelId reason }

def hasFlushableWork (q : EventQueue) (now : Instant) : Bool × EventQueue :=
  let q := q.expireInFlight now
  (q.queues.entries.any (fun e => q.isReady now e.1 e.2) ||
    q.cancelledBatches.keys.any (· ∉ q.inFlightChannels), q)

/-- Drop all events of a channel that are not in flight. Returns the ids of the
queued ones. -/
def drainChannel (q : EventQueue) (channelId : Uuid) : List String × EventQueue :=
  ((q.queues.row channelId).map (·.event.id.toHex), { q with
    queues := q.queues.erase channelId
    retryAfter := q.retryAfter.erase channelId
    retryCounts := q.retryCounts.erase channelId
    cancelledBatches := q.cancelledBatches.erase channelId
    cancelReasons := q.cancelReasons.erase channelId
    withheldNativeSteer := q.withheldNativeSteer.erase channelId })

/-- Withhold a queued event. Returns whether it was found. -/
def markNativeSteerPending (q : EventQueue) (channelId : Uuid) (eventId : String) :
    Bool × EventQueue :=
  let named := fun qe : QueuedEvent => decide (qe.event.id.toHex = eventId)
  match (q.queues.row channelId).find? named with
  | none => (false, q)
  | some qe => (true, { q with
      queues := q.queues.put channelId ((q.queues.row channelId).eraseP named)
      withheldNativeSteer := q.withheldNativeSteer.insert channelId
        (q.withheldNativeSteer.row channelId ++ [qe]) })

/-- Release a withheld event back to the front of its queue. -/
def releaseNativeSteer (q : EventQueue) (channelId : Uuid) (eventId : String) : EventQueue :=
  let named := fun qe : QueuedEvent => decide (qe.event.id.toHex = eventId)
  match (q.withheldNativeSteer.row channelId).find? named with
  | none => q
  | some qe =>
    pushFront { q with
      withheldNativeSteer := q.withheldNativeSteer.put channelId
        ((q.withheldNativeSteer.row channelId).eraseP named) } channelId [qe]

/-- Drop an event by id from the side table and the queue of its channel. -/
def removeEvent (q : EventQueue) (channelId : Uuid) (eventId : String) : EventQueue :=
  let others := fun qe : QueuedEvent => decide (qe.event.id.toHex ≠ eventId)
  { q with
    withheldNativeSteer := q.withheldNativeSteer.filterRow channelId others
    queues := q.queues.filterRow channelId others }

/-- Drop expired throttles, and the retry counters of idle channels. -/
def compactExpiredState (q : EventQueue) (now : Instant) : EventQueue :=
  let q := { q with retryAfter := q.retryAfter.retain fun _ deadline => decide (now < deadline) }
  { q with retryCounts := q.retryCounts.retain fun channelId _ =>
      decide (channelId ∈ q.retryAfter) || !(q.queues.row channelId).isEmpty ||
        decide (channelId ∈ q.inFlightChannels) }

end EventQueue

end Acp
