import Buzz.Acp.Queue

/-!
# The queue conserves its events

`holdings` counts the
items of the three stores and of the trim ghost together, and each operation is
given one equation: what it holds afterwards and hands out is what it held
before and was handed. The equations are all a proof about the harness needs;
the two operations that put a batch back without its cancelled events show as
the equations in which those are missing.
-/
namespace Acp

open Nostr Lib

namespace FlushBatch

def eventItems (b : FlushBatch) : List Item := b.events.map (BatchEvent.itemIn b.channelId)
def cancelledItems (b : FlushBatch) : List Item :=
  b.cancelledEvents.map (BatchEvent.itemIn b.channelId)
def items (b : FlushBatch) : List Item := b.eventItems ++ b.cancelledItems
/-- The ids of the events the batch carries. -/
def ids (b : FlushBatch) : List EventId := b.items.map Prod.snd

end FlushBatch

namespace EventQueue

def queued (q : EventQueue) : Multiset Item := q.queues.tally QueuedEvent.itemIn
def withheld (q : EventQueue) : Multiset Item := q.withheldNativeSteer.tally QueuedEvent.itemIn
def cancelled (q : EventQueue) : Multiset Item := q.cancelledBatches.tally BatchEvent.itemIn

/-- Everything in the three stores, and what the cap trimmed. -/
def holdings (q : EventQueue) : Multiset Item :=
  q.queued + q.withheld + q.cancelled + ↑q.trimmed

variable (q : EventQueue)

/-! ### Moving items between a row and the rest of its table -/

private theorem coe_take_add_drop (n : Nat) (xs : List Item) :
    (↑(xs.take n) + ↑(xs.drop n) : Multiset Item) = ↑xs := by
  rw [Multiset.coe_add, List.take_append_drop]

@[simp] private theorem map_itemIn_toQueuedEvent (channel : Uuid) (events : List BatchEvent) :
    (events.map (·.toQueuedEvent channel)).map (QueuedEvent.itemIn channel) =
      events.map (BatchEvent.itemIn channel) := by
  rw [List.map_map]
  rfl

@[simp] private theorem map_itemIn_toBatchEvent (channel : Uuid) (events : List QueuedEvent) :
    (events.map QueuedEvent.toBatchEvent).map (BatchEvent.itemIn channel) =
      events.map (QueuedEvent.itemIn channel) := by
  rw [List.map_map]
  rfl

private theorem map_find_eraseP {α β : Type} (f : α → β) {test : α → Bool} {xs : List α} {x : α}
    (found : xs.find? test = some x) :
    (↑(xs.map f) : Multiset β) = {f x} + ↑((xs.eraseP test).map f) := by
  obtain ⟨passes, before, after, rfl, fails⟩ := List.find?_eq_some_iff_append.mp found
  have erased : (before ++ x :: after).eraseP test = before ++ after := by
    rw [List.eraseP_append_right _ fun b member => by simpa using fails b member,
      List.eraseP_cons_of_pos passes]
  rw [erased, Multiset.singleton_add, Multiset.cons_coe, Multiset.coe_eq_coe, ← List.map_cons]
  exact List.perm_middle.map f

/-! ### One equation per operation -/

theorem holdings_pushFront (channel : Uuid) (events : List QueuedEvent) :
    (q.pushFront channel events).holdings =
      q.holdings + ↑(events.map (QueuedEvent.itemIn channel)) := by
  have parts := coe_take_add_drop maxPendingPerChannel
    ((events ++ q.queues.row channel).map (QueuedEvent.itemIn channel))
  rw [← List.map_take, ← List.map_drop, List.map_append, ← Multiset.coe_add] at parts
  have table := q.queues.tally_eq_row_add QueuedEvent.itemIn channel
  simp only [holdings, pushFront, queued, withheld, cancelled, Map.tally_insert,
    ← Multiset.coe_add, table]
  -- the trimmed back of the queue moves to the ghost, the rest stays in the row
  calc _ = (↑(((events ++ q.queues.row channel).take maxPendingPerChannel).map
              (QueuedEvent.itemIn channel)) +
            ↑(((events ++ q.queues.row channel).drop maxPendingPerChannel).map
              (QueuedEvent.itemIn channel))) +
          (Map.tally QueuedEvent.itemIn (q.queues.erase channel) +
            q.withheldNativeSteer.tally QueuedEvent.itemIn +
            q.cancelledBatches.tally BatchEvent.itemIn + ↑q.trimmed) := by abel
    _ = _ := by rw [parts]; abel

theorem holdings_push (event : QueuedEvent) :
    (q.push event).2.holdings =
      q.holdings + if (q.push event).1 then {event.item} else 0 := by
  unfold push
  split
  next => simp
  next =>
    dsimp only
    generalize (if maxPendingPerChannel ≤ (q.queues.row event.channelId).length then 1 else 0) = n
    have parts := coe_take_add_drop n
      ((q.queues.row event.channelId).map (QueuedEvent.itemIn event.channelId))
    rw [← List.map_take, ← List.map_drop] at parts
    have table := q.queues.tally_eq_row_add QueuedEvent.itemIn event.channelId
    simp only [holdings, queued, withheld, cancelled, Map.tally_insert, List.map_append,
      ← Multiset.coe_add, table, ← parts, if_true, List.map_singleton, Multiset.coe_singleton,
      QueuedEvent.item]
    abel

private theorem holdings_recoverWithheld (channel : Uuid) :
    (q.recoverWithheldForExpiredChannel channel).holdings = q.holdings := by
  cases found : q.withheldNativeSteer.lookup channel with
  | none => simp only [recoverWithheldForExpiredChannel, found]
  | some entries =>
    have table := q.withheldNativeSteer.tally_eq_row_add QueuedEvent.itemIn channel
    rw [Map.row, found, Option.getD_some] at table
    simp only [recoverWithheldForExpiredChannel, found]
    rw [holdings_pushFront]
    simp only [holdings, queued, withheld, cancelled, table]
    abel

private theorem holdings_expireChannel (channel : Uuid) :
    (q.expireChannel channel).holdings = q.holdings :=
  holdings_recoverWithheld _ channel

theorem holdings_expireInFlight (now : Instant) :
    (q.expireInFlight now).holdings = q.holdings := by
  unfold expireInFlight
  generalize q.expiredChannels now = channels
  induction channels generalizing q with
  | nil => rfl
  | cons channel channels ih => rw [List.foldl_cons, ih, holdings_expireChannel]

private theorem holdings_flushCancelled (now : Instant) (channel : Uuid) :
    (q.flushCancelled now channel).2.holdings + ↑(q.flushCancelled now channel).1.items =
      q.holdings := by
  have table := q.cancelledBatches.tally_eq_row_add BatchEvent.itemIn channel
  simp only [flushCancelled, markInFlight, holdings, queued, withheld, cancelled, table,
    FlushBatch.items, FlushBatch.eventItems, FlushBatch.cancelledItems, List.map_nil,
    List.append_nil]
  abel

private theorem holdings_flushChannel (now : Instant) (channel : Uuid) :
    (q.flushChannel now channel).2.holdings + ↑(q.flushChannel now channel).1.items =
      q.holdings := by
  have queueTable := q.queues.tally_eq_row_add QueuedEvent.itemIn channel
  have cancelTable := q.cancelledBatches.tally_eq_row_add BatchEvent.itemIn channel
  generalize drained : min maxBatchEvents (q.queues.row channel).length = n
  have parts := coe_take_add_drop n ((q.queues.row channel).map (QueuedEvent.itemIn channel))
  rw [← List.map_take, ← List.map_drop] at parts
  -- sorting the batch permutes it
  have sorted : (↑((((q.queues.row channel).take n).map QueuedEvent.toBatchEvent).insertionSort
      (fun a b => a.event.createdAt ≤ b.event.createdAt) |>.map (BatchEvent.itemIn channel)) :
      Multiset Item) = ↑(((q.queues.row channel).take n).map (QueuedEvent.itemIn channel)) := by
    rw [← map_itemIn_toBatchEvent]
    exact Multiset.coe_eq_coe.mpr ((List.perm_insertionSort _ _).map _)
  simp only [flushChannel, drained, markInFlight, holdings, queued, withheld, cancelled,
    Map.tally_put, FlushBatch.items, FlushBatch.eventItems, FlushBatch.cancelledItems,
    ← Multiset.coe_add, sorted, queueTable, cancelTable, ← parts]
  abel

/-- What a flush can do after the expiry: drain a ready channel, re-dispatch a
cancelled batch when no channel is ready, or find nothing. -/
theorem flushNext_cases (now : Instant) :
    (∃ channel, (q.expireInFlight now).oldestReady now = some channel ∧
        q.flushNext now = (some ((q.expireInFlight now).flushChannel now channel).1,
          ((q.expireInFlight now).flushChannel now channel).2)) ∨
      (q.expireInFlight now).oldestReady now = none ∧
        ((∃ channel, (q.expireInFlight now).cancelledReady = some channel ∧
            q.flushNext now = (some ((q.expireInFlight now).flushCancelled now channel).1,
              ((q.expireInFlight now).flushCancelled now channel).2)) ∨
          (q.expireInFlight now).cancelledReady = none ∧
            q.flushNext now = (none, q.expireInFlight now)) := by
  cases ready : (q.expireInFlight now).oldestReady now with
  | some channel => exact Or.inl ⟨channel, rfl, by simp only [flushNext, ready]⟩
  | none =>
    refine Or.inr ⟨rfl, ?_⟩
    cases fallback : (q.expireInFlight now).cancelledReady with
    | some channel => exact Or.inl ⟨channel, rfl, by simp only [flushNext, ready, fallback]⟩
    | none => exact Or.inr ⟨rfl, by simp only [flushNext, ready, fallback]⟩

/-- The items of the batch a flush returns, if any. -/
def flushedItems (now : Instant) : Multiset Item :=
  ((q.flushNext now).1.map fun b => (↑b.items : Multiset Item)).getD 0

theorem holdings_flushNext (now : Instant) :
    (q.flushNext now).2.holdings + q.flushedItems now = q.holdings := by
  rw [← holdings_expireInFlight q now, flushedItems]
  rcases flushNext_cases q now with
    ⟨channel, _, flushed⟩ | ⟨_, ⟨channel, _, flushed⟩ | ⟨_, nothing⟩⟩
  · rw [flushed]; exact holdings_flushChannel _ now channel
  · rw [flushed]; exact holdings_flushCancelled _ now channel
  · rw [nothing]; simp

theorem holdings_markComplete (now : Instant) (channel : Uuid) :
    (q.markComplete now channel).holdings = q.holdings := by
  unfold markComplete
  dsimp only
  split
  · split <;> rfl
  · rfl

theorem requeue_fst (now : Instant) (nanos : Nat) (b : FlushBatch) :
    (q.requeue now nanos b).1 =
      if maxRetries < (q.retryCounts.lookup b.channelId).getD 0 + 1 then some b else none := by
  unfold requeue
  dsimp only
  split <;> rfl

/-- A batch handed back without being dead-lettered re-enters without its
cancelled events. -/
theorem holdings_requeue (now : Instant) (nanos : Nat) (b : FlushBatch) :
    (q.requeue now nanos b).2.holdings =
      q.holdings + if (q.requeue now nanos b).1.isSome then 0 else ↑b.eventItems := by
  unfold requeue
  dsimp only
  split
  next => simp [holdings, queued, withheld, cancelled]
  next =>
    have moved := holdings_pushFront { q with
      retryCounts := q.retryCounts.insert b.channelId
        ((q.retryCounts.lookup b.channelId).getD 0 + 1) } b.channelId
      (b.events.map (·.toQueuedEvent b.channelId))
    rw [map_itemIn_toQueuedEvent] at moved
    simpa [holdings, queued, withheld, cancelled, FlushBatch.eventItems] using moved

theorem holdings_requeuePreserveTimestamps (b : FlushBatch) :
    (q.requeuePreserveTimestamps b).holdings = q.holdings + ↑b.eventItems := by
  rw [requeuePreserveTimestamps, holdings_pushFront, map_itemIn_toQueuedEvent]
  rfl

theorem holdings_requeueAsCancelled (b : FlushBatch) (reason : CancelReason) :
    (q.requeueAsCancelled b reason).holdings = q.holdings + ↑b.items := by
  have table := q.cancelledBatches.tally_eq_row_add BatchEvent.itemIn b.channelId
  simp only [requeueAsCancelled, holdings, queued, withheld, cancelled, Map.tally_insert, table,
    List.map_append, ← Multiset.coe_add, FlushBatch.items, FlushBatch.eventItems,
    FlushBatch.cancelledItems]
  abel

theorem holdings_hasFlushableWork (now : Instant) :
    (q.hasFlushableWork now).2.holdings = q.holdings :=
  holdings_expireInFlight q now

theorem holdings_markNativeSteerPending (channel : Uuid) (eventId : String) :
    (q.markNativeSteerPending channel eventId).2.holdings = q.holdings := by
  cases found : (q.queues.row channel).find? fun qe => decide (qe.event.id.toHex = eventId) with
  | none => simp only [markNativeSteerPending, found]
  | some qe =>
    have queueTable := q.queues.tally_eq_row_add QueuedEvent.itemIn channel
    have sideTable := q.withheldNativeSteer.tally_eq_row_add QueuedEvent.itemIn channel
    have taken := map_find_eraseP (QueuedEvent.itemIn channel) found
    simp only [markNativeSteerPending, found, holdings, queued, withheld, cancelled,
      Map.tally_put, Map.tally_insert, List.map_append, List.map_singleton, ← Multiset.coe_add,
      Multiset.coe_singleton, queueTable, sideTable, taken]
    abel

theorem holdings_releaseNativeSteer (channel : Uuid) (eventId : String) :
    (q.releaseNativeSteer channel eventId).holdings = q.holdings := by
  cases found : (q.withheldNativeSteer.row channel).find?
      fun qe => decide (qe.event.id.toHex = eventId) with
  | none => simp only [releaseNativeSteer, found]
  | some qe =>
    have sideTable := q.withheldNativeSteer.tally_eq_row_add QueuedEvent.itemIn channel
    have taken := map_find_eraseP (QueuedEvent.itemIn channel) found
    simp only [releaseNativeSteer, found]
    rw [holdings_pushFront]
    simp only [holdings, queued, withheld, cancelled, Map.tally_put, List.map_singleton,
      Multiset.coe_singleton, sideTable, taken]
    abel

/-- The items `remove_event` takes out: those of the channel with this id. -/
def removedBy (channel : Uuid) (eventId : String) : List Item :=
  ((q.withheldNativeSteer.row channel ++ q.queues.row channel).filter
    fun qe => decide (qe.event.id.toHex = eventId)).map (QueuedEvent.itemIn channel)

theorem holdings_removeEvent (channel : Uuid) (eventId : String) :
    (q.removeEvent channel eventId).holdings + ↑(q.removedBy channel eventId) = q.holdings := by
  have side := q.withheldNativeSteer.tally_filterRow QueuedEvent.itemIn channel
    fun qe => decide (qe.event.id.toHex ≠ eventId)
  have main := q.queues.tally_filterRow QueuedEvent.itemIn channel
    fun qe => decide (qe.event.id.toHex ≠ eventId)
  simp only [decide_not, Bool.not_not] at side main
  simp only [removeEvent, removedBy, List.filter_append, List.map_append, ← Multiset.coe_add,
    holdings, queued, withheld, cancelled, ← side, ← main, decide_not]
  abel

/-- The items `drain_channel` drops: all of the channel's in the three stores. -/
def drainedBy (channel : Uuid) : List Item :=
  (q.queues.row channel).map (QueuedEvent.itemIn channel) ++
    (q.withheldNativeSteer.row channel).map (QueuedEvent.itemIn channel) ++
    (q.cancelledBatches.row channel).map (BatchEvent.itemIn channel)

theorem holdings_drainChannel (channel : Uuid) :
    (q.drainChannel channel).2.holdings + ↑(q.drainedBy channel) = q.holdings := by
  have queueTable := q.queues.tally_eq_row_add QueuedEvent.itemIn channel
  have sideTable := q.withheldNativeSteer.tally_eq_row_add QueuedEvent.itemIn channel
  have cancelTable := q.cancelledBatches.tally_eq_row_add BatchEvent.itemIn channel
  simp only [drainChannel, drainedBy, holdings, queued, withheld, cancelled, ← Multiset.coe_add,
    queueTable, sideTable, cancelTable]
  abel

theorem holdings_extendInFlightDeadline (now : Instant) (channel : Uuid) (maxTurnSecs : Nat) :
    (q.extendInFlightDeadline now channel maxTurnSecs).holdings = q.holdings := by
  unfold extendInFlightDeadline
  split
  · rfl
  · dsimp only
    split <;> rfl

theorem holdings_compactExpiredState (now : Instant) :
    (q.compactExpiredState now).holdings = q.holdings := rfl

end EventQueue

end Acp
