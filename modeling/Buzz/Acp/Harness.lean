import Buzz.Acp.Conservation
import Buzz.Lib.Run

/-!
# The harness around the queue

The main loop of the harness as a machine: it pushes events with fresh ids,
flushes, hands each batch back at most once and then completes its channel, and
in between calls whatever else the queue offers, with any clock readings. A hash
map may be visited in another order at every call, which is the action `rehash`.
The ghost fields record what was accepted, what was disposed of and which
batches were returned.

`balance` is the whole accounting: an action creates nothing but the event it
pushes and loses nothing but `leaked`.
-/
namespace Acp

open Nostr Lib

structure Harness where
  queue : EventQueue
  /-- Batches returned by `flush_next` and not handed back yet. -/
  outstanding : List FlushBatch := []
  /-- Channels whose batch was handed back and whose `mark_complete` is due. -/
  completing : List Uuid := []
  /-- Ghost: the events whose `push` returned true. -/
  pushed : List QueuedEvent := []
  /-- Ghost: items of succeeded and dead-lettered batches, and what
  `remove_event` and `drain_channel` took out. -/
  disposed : List Item := []
  /-- Ghost: every batch returned so far. -/
  delivered : List FlushBatch := []

inductive Action where
  | push (event : QueuedEvent)
  | flushNext (now : Instant)
  | succeed (batch : FlushBatch)
  | requeue (batch : FlushBatch) (now : Instant) (nanos : Nat)
  | requeuePreserveTimestamps (batch : FlushBatch)
  | requeueAsCancelled (batch : FlushBatch) (reason : CancelReason)
  | markComplete (channel : Uuid) (now : Instant)
  | markNativeSteerPending (channel : Uuid) (eventId : String)
  | releaseNativeSteer (channel : Uuid) (eventId : String)
  | removeEvent (channel : Uuid) (eventId : String)
  | drainChannel (channel : Uuid)
  | hasFlushableWork (now : Instant)
  | extendInFlightDeadline (channel : Uuid) (now : Instant) (maxTurnSecs : Nat)
  | compactExpiredState (now : Instant)
  | rehash (queue : EventQueue)

/-- The same queue with the entries of its maps in another order. -/
structure EventQueue.Rehashed (q q' : EventQueue) : Prop where
  queues : q.queues.entries.Perm q'.queues.entries
  inFlightChannels : q.inFlightChannels = q'.inFlightChannels
  inFlightDeadlines : q.inFlightDeadlines.entries.Perm q'.inFlightDeadlines.entries
  inFlightBatchSizes : q.inFlightBatchSizes.entries.Perm q'.inFlightBatchSizes.entries
  retryAfter : q.retryAfter.entries.Perm q'.retryAfter.entries
  retryCounts : q.retryCounts.entries.Perm q'.retryCounts.entries
  dedupMode : q.dedupMode = q'.dedupMode
  cancelledBatches : q.cancelledBatches.entries.Perm q'.cancelledBatches.entries
  cancelReasons : q.cancelReasons.entries.Perm q'.cancelReasons.entries
  withheldNativeSteer : q.withheldNativeSteer.entries.Perm q'.withheldNativeSteer.entries
  inFlightDeadline : q.inFlightDeadline = q'.inFlightDeadline
  trimmed : q.trimmed = q'.trimmed

namespace Harness

/-- A new harness; the in-flight deadline comes from the configuration. -/
def start (mode : DedupMode) (deadline : Duration) : Harness :=
  { queue := { EventQueue.new mode with inFlightDeadline := deadline } }

/-- The batch leaves the harness and its channel is due to be completed. -/
def handBack (s : Harness) (b : FlushBatch) (queue : EventQueue) (disposed : List Item) :
    Harness :=
  { s with
    queue := queue
    outstanding := s.outstanding.erase b
    completing := s.completing ++ [b.channelId]
    disposed := s.disposed ++ disposed }

def perform (s : Harness) : Action → Harness
  | .push event =>
    let (accepted, queue) := s.queue.push event
    { s with queue := queue, pushed := if accepted then s.pushed ++ [event] else s.pushed }
  | .flushNext now =>
    let (batch, queue) := s.queue.flushNext now
    { s with
      queue := queue
      outstanding := s.outstanding ++ batch.toList
      delivered := s.delivered ++ batch.toList }
  | .succeed b => s.handBack b s.queue b.items
  | .requeue b now nanos =>
    let (dead, queue) := s.queue.requeue now nanos b
    s.handBack b queue (dead.toList.flatMap FlushBatch.items)
  | .requeuePreserveTimestamps b => s.handBack b (s.queue.requeuePreserveTimestamps b) []
  | .requeueAsCancelled b reason => s.handBack b (s.queue.requeueAsCancelled b reason) []
  | .markComplete channel now =>
    { s with
      queue := s.queue.markComplete now channel
      completing := s.completing.erase channel }
  | .markNativeSteerPending channel eventId =>
    { s with queue := (s.queue.markNativeSteerPending channel eventId).2 }
  | .releaseNativeSteer channel eventId =>
    { s with queue := s.queue.releaseNativeSteer channel eventId }
  | .removeEvent channel eventId =>
    { s with
      queue := s.queue.removeEvent channel eventId
      disposed := s.disposed ++ s.queue.removedBy channel eventId }
  | .drainChannel channel =>
    { s with
      queue := (s.queue.drainChannel channel).2
      disposed := s.disposed ++ s.queue.drainedBy channel }
  | .hasFlushableWork now => { s with queue := (s.queue.hasFlushableWork now).2 }
  | .extendInFlightDeadline channel now maxTurnSecs =>
    { s with queue := s.queue.extendInFlightDeadline now channel maxTurnSecs }
  | .compactExpiredState now => { s with queue := s.queue.compactExpiredState now }
  | .rehash queue => { s with queue := queue }

/-- The protocol: pushed ids are fresh, only outstanding batches are handed back,
and a channel is completed after its batch was. -/
def Allowed (s : Harness) : Action → Prop
  | .push event => event.event.id ∉ s.pushed.map (·.event.id)
  | .succeed b | .requeue b _ _ | .requeuePreserveTimestamps b | .requeueAsCancelled b _ =>
    b ∈ s.outstanding
  | .markComplete channel _ => channel ∈ s.completing
  | .rehash queue => s.queue.Rehashed queue
  | _ => True

/-! ### Accounting -/

/-- The items of the outstanding batches. -/
def inHand (s : Harness) : Multiset Item := ↑(s.outstanding.flatMap FlushBatch.items)

/-- The items that can still be delivered. -/
def live (s : Harness) : Multiset Item :=
  s.queue.queued + s.queue.withheld + s.queue.cancelled + s.inHand

/-- The items that left for good, by disposal or by the cap. -/
def settled (s : Harness) : Multiset Item := ↑s.queue.trimmed + ↑s.disposed

def accepted (s : Harness) : Multiset Item := ↑(s.pushed.map QueuedEvent.item)

/-- The item an action brings in. -/
def entering (s : Harness) : Action → Multiset Item
  | .push event => if (s.queue.push event).1 then {event.item} else 0
  | _ => 0

/-- The items an action loses: the cancelled events of a batch that is put back. -/
def leaked (s : Harness) : Action → Multiset Item
  | .requeue b now nanos => if (s.queue.requeue now nanos b).1.isSome then 0 else ↑b.cancelledItems
  | .requeuePreserveTimestamps b => ↑b.cancelledItems
  | _ => 0

theorem accepted_perform (s : Harness) (a : Action) :
    (s.perform a).accepted = s.accepted + s.entering a := by
  cases a with
  | push event =>
    simp only [perform, accepted, entering]
    split
    next => simp [← Multiset.coe_add]
    next => simp
  | _ => simp [perform, accepted, entering, handBack]

private theorem live_add_settled (s : Harness) :
    s.live + s.settled = s.queue.holdings + s.inHand + ↑s.disposed := by
  simp only [live, settled, EventQueue.holdings]
  abel

private theorem inHand_erase {s : Harness} {b : FlushBatch} (member : b ∈ s.outstanding) :
    s.inHand = ↑((s.outstanding.erase b).flatMap FlushBatch.items) + ↑b.items := by
  rw [inHand, Multiset.coe_add, Multiset.coe_eq_coe]
  refine ((List.perm_cons_erase member).flatMap_right FlushBatch.items).trans ?_
  rw [List.flatMap_cons]
  exact List.perm_append_comm

/-- The ways to hand a batch back differ in what re-enters the queue and in what is
disposed of; the rest of the batch is leaked. -/
private theorem balance_handBack {s : Harness} {b : FlushBatch} (member : b ∈ s.outstanding)
    (queue : EventQueue) (disposed : List Item) (lost : Multiset Item)
    (conserved : queue.holdings + ↑disposed + lost = s.queue.holdings + ↑b.items) :
    (s.handBack b queue disposed).live + (s.handBack b queue disposed).settled + lost =
      s.live + s.settled := by
  rw [live_add_settled, live_add_settled, inHand_erase member]
  simp only [handBack, inHand, ← Multiset.coe_add]
  calc _ = (queue.holdings + ↑disposed + lost) +
          (↑((s.outstanding.erase b).flatMap FlushBatch.items) + ↑s.disposed) := by abel
    _ = _ := by rw [conserved]; abel

/-- Every action keeps the books: what is live or settled afterwards, together with
what the action leaked, was there before or has just been pushed. -/
theorem balance {s : Harness} {a : Action} (allowed : s.Allowed a) :
    (s.perform a).live + (s.perform a).settled + s.leaked a =
      s.live + s.settled + s.entering a := by
  cases a with
  | push event =>
    rw [live_add_settled, live_add_settled]
    simp only [perform, inHand, leaked, entering, EventQueue.holdings_push]
    abel
  | flushNext now =>
    have flushed := s.queue.holdings_flushNext now
    rw [live_add_settled, live_add_settled, ← flushed]
    simp only [perform, inHand, leaked, entering, EventQueue.flushedItems, List.flatMap_append,
      ← Multiset.coe_add]
    cases (s.queue.flushNext now).1 with
    | none => simp
    | some b => simp only [Option.toList_some, List.flatMap_singleton, Option.map_some,
        Option.getD_some]; abel
  | succeed b =>
    have conserved : s.queue.holdings + ↑b.items + 0 = s.queue.holdings + ↑b.items := by simp
    simpa only [perform, leaked, entering, add_zero] using
      balance_handBack allowed s.queue b.items 0 conserved
  | requeue b now nanos =>
    have requeued := s.queue.holdings_requeue now nanos b
    have conserved : (s.queue.requeue now nanos b).2.holdings +
        ↑((s.queue.requeue now nanos b).1.toList.flatMap FlushBatch.items) +
        s.leaked (.requeue b now nanos) = s.queue.holdings + ↑b.items := by
      rw [requeued, leaked, EventQueue.requeue_fst]
      split
      next => simp
      next =>
        simp only [Option.isSome_none, Bool.false_eq_true, if_false, Option.toList_none,
          List.flatMap_nil, Multiset.coe_nil, FlushBatch.items, ← Multiset.coe_add]
        abel
    simpa only [perform, entering, add_zero] using balance_handBack allowed _ _ _ conserved
  | requeuePreserveTimestamps b =>
    simp only [entering, add_zero]
    refine balance_handBack allowed _ _ _ ?_
    simp only [EventQueue.holdings_requeuePreserveTimestamps, leaked, FlushBatch.items,
      ← Multiset.coe_add, Multiset.coe_nil]
    abel
  | requeueAsCancelled b reason =>
    simp only [entering, add_zero]
    refine balance_handBack allowed _ _ _ ?_
    simp [EventQueue.holdings_requeueAsCancelled, leaked]
  | markComplete channel now =>
    rw [live_add_settled, live_add_settled]
    simp [perform, inHand, leaked, entering, EventQueue.holdings_markComplete]
  | markNativeSteerPending channel eventId =>
    rw [live_add_settled, live_add_settled]
    simp [perform, inHand, leaked, entering, EventQueue.holdings_markNativeSteerPending]
  | releaseNativeSteer channel eventId =>
    rw [live_add_settled, live_add_settled]
    simp [perform, inHand, leaked, entering, EventQueue.holdings_releaseNativeSteer]
  | removeEvent channel eventId =>
    rw [live_add_settled, live_add_settled, ← s.queue.holdings_removeEvent channel eventId]
    simp only [perform, inHand, leaked, entering, ← Multiset.coe_add]
    abel
  | drainChannel channel =>
    rw [live_add_settled, live_add_settled, ← s.queue.holdings_drainChannel channel]
    simp only [perform, inHand, leaked, entering, ← Multiset.coe_add]
    abel
  | hasFlushableWork now =>
    rw [live_add_settled, live_add_settled]
    simp [perform, inHand, leaked, entering, EventQueue.holdings_hasFlushableWork]
  | extendInFlightDeadline channel now maxTurnSecs =>
    rw [live_add_settled, live_add_settled]
    simp [perform, inHand, leaked, entering, EventQueue.holdings_extendInFlightDeadline]
  | compactExpiredState now =>
    rw [live_add_settled, live_add_settled]
    simp [perform, inHand, leaked, entering, EventQueue.holdings_compactExpiredState]
  | rehash queue =>
    have same : queue.holdings = s.queue.holdings := by
      simp only [EventQueue.holdings, EventQueue.queued, EventQueue.withheld,
        EventQueue.cancelled, Map.tally_perm _ allowed.queues,
        Map.tally_perm _ allowed.withheldNativeSteer, Map.tally_perm _ allowed.cancelledBatches,
        allowed.trimmed]
    rw [live_add_settled, live_add_settled]
    simp [perform, inHand, leaked, entering, same]

end Harness

end Acp
