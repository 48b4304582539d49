import Buzz.Acp.Representation

/-!
# Fairness across channels

`flush_next` compares the heads of the queues only, so it finds the oldest pending event when
every queue is in the order of arrival (`Ordered`). A queue comes out of this order when something
is put in front of it that does not belong there: a batch, which is sorted by creation time, or an
event that was withheld while older events stayed behind.

`picksOldest_run`: a run that puts in front only what fits there is fair. `Replay` shows a run in
which a batch comes back out of order and another channel is served first.
-/
namespace Acp

open Nostr Lib

/-- Every event of the batch arrived at a time in `P`. -/
def FlushBatch.Within (b : FlushBatch) (P : Instant → Prop) : Prop :=
  (∀ be ∈ b.events, P be.receivedAt) ∧ ∀ be ∈ b.cancelledEvents, P be.receivedAt

namespace EventQueue

/-- Events in the order in which they arrived. -/
def InOrder (events : List QueuedEvent) : Prop := events.Pairwise fun a b => a.receivedAt ≤ b.receivedAt

/-- The events are in order, and none of them is later than an event of the queue. -/
def FitsBefore (events queue : List QueuedEvent) : Prop :=
  InOrder events ∧ ∀ a ∈ events, ∀ b ∈ queue, a.receivedAt ≤ b.receivedAt

def Ordered (q : EventQueue) : Prop := ∀ channel, InOrder (q.queues.row channel)

/-- The channel has queued events, is not in flight and is not throttled. -/
structure Flushable (q : EventQueue) (now : Instant) (channel : Uuid) : Prop where
  pending : q.queues.row channel ≠ []
  idle : channel ∉ q.inFlightChannels
  unthrottled : ∀ deadline, q.retryAfter.lookup channel = some deadline → deadline ≤ now

/-- A flush takes a channel that holds the oldest event of all flushable ones. -/
def PicksOldest (q : EventQueue) (now : Instant) : Prop :=
  ∀ b, (q.flushNext now).1 = some b →
    ∀ channel, (q.expireInFlight now).Flushable now channel →
      ∀ qe ∈ (q.expireInFlight now).queues.row channel,
        (q.expireInFlight now).Flushable now b.channelId ∧
          ∃ oldest ∈ (q.expireInFlight now).queues.row b.channelId, oldest.receivedAt ≤ qe.receivedAt

variable {q : EventQueue}

/-! ### The oldest head -/

theorem isReady_iff {now : Instant} {channel : Uuid} {queue : List QueuedEvent}
    (stored : q.queues.lookup channel = some queue) :
    q.isReady now channel queue = true ↔ q.Flushable now channel := by
  have row : q.queues.row channel = queue := by rw [Map.row, stored]; rfl
  simp only [isReady, Bool.and_eq_true, Bool.not_eq_true', List.isEmpty_eq_false_iff,
    decide_eq_true_eq, Option.all_eq_true]
  constructor
  · rintro ⟨⟨pending, idle⟩, unthrottled⟩
    exact ⟨by rwa [row], idle, unthrottled⟩
  · rintro ⟨pending, idle, unthrottled⟩
    exact ⟨⟨by rwa [row] at pending, idle⟩, unthrottled⟩

private theorem mem_due {now : Instant} {channel : Uuid} (flushable : q.Flushable now channel) :
    ⟨channel, q.queues.row channel⟩ ∈ q.queues.entries.filter fun e => q.isReady now e.1 e.2 := by
  have pending := flushable.pending
  cases stored : q.queues.lookup channel with
  | none => exact absurd (by rw [Map.row, stored]; rfl) pending
  | some queue =>
    have row : q.queues.row channel = queue := by rw [Map.row, stored]; rfl
    rw [row]
    exact List.mem_filter.mpr ⟨(Map.mem_entries_iff _ _ _).mpr stored,
      (isReady_iff stored).mpr flushable⟩

private theorem head_le {queue : List QueuedEvent} (ordered : InOrder queue) {qe : QueuedEvent}
    (member : qe ∈ queue) : (queue.head?.map (·.receivedAt)).getD 0 ≤ qe.receivedAt := by
  cases queue with
  | nil => cases member
  | cons head rest =>
    rcases List.mem_cons.mp member with rfl | later
    · exact le_rfl
    · exact List.rel_of_pairwise_cons ordered later

private theorem head_mem {queue : List QueuedEvent} (some : queue ≠ []) :
    ∃ head ∈ queue, (queue.head?.map (·.receivedAt)).getD 0 = head.receivedAt := by
  cases queue with
  | nil => exact absurd rfl some
  | cons head rest => exact ⟨head, List.mem_cons_self, rfl⟩

theorem oldestReady_le {now : Instant} {chosen channel : Uuid} (ordered : q.Ordered)
    (ready : q.oldestReady now = some chosen) (flushable : q.Flushable now channel)
    {qe : QueuedEvent} (member : qe ∈ q.queues.row channel) :
    q.Flushable now chosen ∧ ∃ oldest ∈ q.queues.row chosen, oldest.receivedAt ≤ qe.receivedAt := by
  obtain ⟨⟨chosen, queue⟩, least, rfl⟩ := Option.map_eq_some_iff.mp ready
  -- The search looked at the flushable channel too, so its head is not older than the chosen one.
  have first := List.le_of_mem_argmin (mem_due flushable) least
  obtain ⟨inside, isReady⟩ := List.mem_filter.mp (List.argmin_mem least)
  have stored : q.queues.lookup chosen = some queue := (Map.mem_entries_iff _ _ _).mp inside
  have row : q.queues.row chosen = queue := by rw [Map.row, stored]; rfl
  have taken := (isReady_iff stored).mp isReady
  refine ⟨taken, ?_⟩
  have pending := taken.pending
  rw [row] at pending ⊢
  obtain ⟨head, inQueue, same⟩ := head_mem pending
  refine ⟨head, inQueue, ?_⟩
  calc head.receivedAt = _ := same.symm
    _ ≤ _ := first
    _ ≤ qe.receivedAt := head_le (ordered channel) member

theorem picksOldest_of_ordered {now : Instant} (ordered : (q.expireInFlight now).Ordered) :
    q.PicksOldest now := by
  intro b flushed channel flushable qe member
  rcases flushNext_cases q now with ⟨chosen, ready, same⟩ | ⟨none, _⟩
  · rw [same] at flushed
    cases flushed
    exact oldestReady_le ordered ready flushable member
  · -- without a ready channel the flush takes from no queue
    have empty := List.argmin_eq_none.mp (Option.map_eq_none_iff.mp none)
    have inside := mem_due flushable
    rw [empty] at inside
    cases inside

/-! ### What keeps the queues in order -/

theorem InOrder.append {front queue : List QueuedEvent} (fits : FitsBefore front queue)
    (ordered : InOrder queue) : InOrder (front ++ queue) :=
  List.pairwise_append.mpr ⟨fits.1, ordered, fits.2⟩

theorem Ordered.of_sublist {q' : EventQueue} (ordered : q.Ordered)
    (rows : ∀ channel, (q'.queues.row channel).Sublist (q.queues.row channel)) : q'.Ordered :=
  fun channel => (ordered channel).sublist (rows channel)

theorem Ordered.pushFront (ordered : q.Ordered) {channel : Uuid} {events : List QueuedEvent}
    (fits : FitsBefore events (q.queues.row channel)) : (q.pushFront channel events).Ordered := by
  intro channel'
  simp only [EventQueue.pushFront, Map.row_insert]
  split
  next => exact (InOrder.append fits (ordered channel)).sublist (List.take_sublist _ _)
  next => exact ordered channel'

theorem Ordered.push (ordered : q.Ordered) {event : QueuedEvent}
    (latest : ∀ qe ∈ q.queues.row event.channelId, qe.receivedAt ≤ event.receivedAt) :
    (q.push event).2.Ordered := by
  unfold EventQueue.push
  split
  next => exact ordered
  next =>
    intro channel
    simp only [Map.row_insert]
    split
    next =>
      -- What the cap cuts off is the front, and the new event is the latest.
      refine List.pairwise_append.mpr ⟨(ordered _).sublist (List.drop_sublist _ _),
        List.pairwise_singleton _ _, fun qe member last same => ?_⟩
      rw [List.mem_singleton.mp same]
      exact latest qe (List.mem_of_mem_drop member)
    next => exact ordered channel

/-- What the expiry puts in front of the queues fits there. -/
def RecoversInOrder (q : EventQueue) (now : Instant) : Prop :=
  ∀ channel, q.Expired now channel →
    FitsBefore (q.withheldNativeSteer.row channel) (q.queues.row channel)

theorem recoversInOrder_of_empty {now : Instant} (idle : q.inFlightDeadlines.entries = []) :
    q.RecoversInOrder now := by
  rintro channel ⟨deadline, stored, _⟩
  rw [← Map.mem_entries_iff, idle] at stored
  cases stored

instance (events queue : List QueuedEvent) : Decidable (FitsBefore events queue) :=
  inferInstanceAs (Decidable (List.Pairwise _ events ∧ ∀ a ∈ events, ∀ b ∈ queue, _))

theorem Ordered.expireChannel (ordered : q.Ordered) {channel : Uuid}
    (fits : FitsBefore (q.withheldNativeSteer.row channel) (q.queues.row channel)) :
    (q.expireChannel channel).Ordered := by
  unfold EventQueue.expireChannel recoverWithheldForExpiredChannel
  split
  next => exact ordered
  next entries stored =>
    have row : q.withheldNativeSteer.row channel = entries := by
      rw [Map.row, show q.withheldNativeSteer.lookup channel = some entries from stored]
      rfl
    rw [row] at fits
    exact Ordered.pushFront ordered fits

theorem Ordered.expireInFlight (ordered : q.Ordered) {now : Instant}
    (recovers : q.RecoversInOrder now) : (q.expireInFlight now).Ordered := by
  have nodup : (q.expiredChannels now).Nodup :=
    q.inFlightDeadlines.nodupKeys.sublist List.filter_sublist
  have fits : ∀ channel ∈ q.expiredChannels now,
      FitsBefore (q.withheldNativeSteer.row channel) (q.queues.row channel) :=
    fun channel member => recovers channel (mem_expiredChannels.mp member)
  clear recovers
  unfold EventQueue.expireInFlight
  -- the channels that are still to come have the rows that they had before
  generalize q.expiredChannels now = channels at nodup fits
  induction channels generalizing q with
  | nil => exact ordered
  | cons channel channels ih =>
    obtain ⟨absent, nodup⟩ := List.nodup_cons.mp nodup
    refine ih (ordered.expireChannel (fits channel List.mem_cons_self)) nodup fun later member => ?_
    have other : later ∉ [channel] := fun same => absent (List.mem_singleton.mp same ▸ member)
    have same := sameTables_foldl_expireChannel other q
    have withheld : (q.expireChannel channel).withheldNativeSteer.row later =
        q.withheldNativeSteer.row later := by
      rw [Map.row, Map.row]
      exact congrArg (Option.getD · []) same.withheldNativeSteer
    have queue : (q.expireChannel channel).queues.row later = q.queues.row later := by
      rw [Map.row, Map.row]
      exact congrArg (Option.getD · []) same.queues
    rw [withheld, queue]
    exact fits later (List.mem_cons_of_mem channel member)

theorem Ordered.flushNext (ordered : q.Ordered) {now : Instant} (recovers : q.RecoversInOrder now) :
    (q.flushNext now).2.Ordered := by
  have expired := ordered.expireInFlight recovers
  -- A flush takes the front of one queue, or only cancelled events, or nothing.
  rcases flushNext_cases q now with
    ⟨chosen, _, flushed⟩ | ⟨_, ⟨chosen, _, flushed⟩ | ⟨_, nothing⟩⟩
  · rw [flushed]
    refine expired.of_sublist fun channel => ?_
    simp only [flushChannel, markInFlight, Map.row_put]
    split
    next here => exact here ▸ List.drop_sublist _ _
    next => exact List.Sublist.refl _
  · rw [flushed]
    exact expired
  · rw [nothing]
    exact expired

theorem Ordered.requeue (ordered : q.Ordered) {now : Instant} {nanos : Nat} {b : FlushBatch}
    (fits : (q.retryCounts.lookup b.channelId).getD 0 + 1 ≤ maxRetries →
      FitsBefore (b.events.map (·.toQueuedEvent b.channelId)) (q.queues.row b.channelId)) :
    (q.requeue now nanos b).2.Ordered := by
  unfold EventQueue.requeue
  dsimp only
  split
  next => exact ordered
  -- Only a batch that is not dead-lettered is put in front.
  next alive =>
    have counted (counts : Map Uuid Nat) : ({ q with retryCounts := counts } : EventQueue).Ordered :=
      ordered
    exact (counted _).pushFront (fits (by omega))

theorem Ordered.markComplete (ordered : q.Ordered) (now : Instant) (channel : Uuid) :
    (q.markComplete now channel).Ordered := by
  unfold EventQueue.markComplete
  dsimp only
  split
  · split
    · exact ordered
    · exact ordered
  · exact ordered

theorem Ordered.markNativeSteerPending (ordered : q.Ordered) (channel : Uuid) (eventId : String) :
    (q.markNativeSteerPending channel eventId).2.Ordered := by
  unfold EventQueue.markNativeSteerPending
  dsimp only
  split
  next => exact ordered
  next =>
    refine ordered.of_sublist fun channel' => ?_
    simp only [Map.row_put]
    split
    next here => exact here ▸ List.eraseP_sublist
    next => exact List.Sublist.refl _

theorem Ordered.releaseNativeSteer (ordered : q.Ordered) {channel : Uuid} {eventId : String}
    (fits : ∀ qe, (q.withheldNativeSteer.row channel).find? (·.event.id.toHex = eventId) = some qe →
      FitsBefore [qe] (q.queues.row channel)) :
    (q.releaseNativeSteer channel eventId).Ordered := by
  unfold EventQueue.releaseNativeSteer
  dsimp only
  split
  next => exact ordered
  next qe found => exact Ordered.pushFront ordered (fits qe found)

theorem Ordered.removeEvent (ordered : q.Ordered) (channel : Uuid) (eventId : String) :
    (q.removeEvent channel eventId).Ordered := by
  refine ordered.of_sublist fun channel' => ?_
  simp only [EventQueue.removeEvent, Map.row_filterRow]
  split
  next here => exact here ▸ List.filter_sublist
  next => exact List.Sublist.refl _

theorem Ordered.drainChannel (ordered : q.Ordered) (channel : Uuid) :
    (q.drainChannel channel).2.Ordered := by
  refine ordered.of_sublist fun channel' => ?_
  simp only [EventQueue.drainChannel, Map.row_erase]
  split
  next => exact List.nil_sublist _
  next => exact List.Sublist.refl _

theorem Ordered.extendInFlightDeadline (ordered : q.Ordered) (now : Instant) (channel : Uuid)
    (maxTurnSecs : Nat) : (q.extendInFlightDeadline now channel maxTurnSecs).Ordered := by
  unfold EventQueue.extendInFlightDeadline
  split
  · exact ordered
  · dsimp only
    split
    · exact ordered
    · exact ordered

theorem row_perm {m m' : Map Uuid (List QueuedEvent)} (perm : m.entries.Perm m'.entries)
    (channel : Uuid) : m.row channel = m'.row channel := by
  rw [Map.row, Map.row, AList.perm_lookup perm]

theorem Ordered.rehashed {q' : EventQueue} (ordered : q.Ordered) (rehashed : q.Rehashed q') :
    q'.Ordered := by
  intro channel
  rw [← row_perm rehashed.queues channel]
  exact ordered channel

/-! ### What the queue stores -/

/-- Every event of the three stores arrived at a time in `P`. -/
structure Stored (P : Instant → Prop) (q : EventQueue) : Prop where
  queues : ∀ channel, ∀ qe ∈ q.queues.row channel, P qe.receivedAt
  withheld : ∀ channel, ∀ qe ∈ q.withheldNativeSteer.row channel, P qe.receivedAt
  cancelled : ∀ channel, ∀ be ∈ q.cancelledBatches.row channel, P be.receivedAt

variable {P P' : Instant → Prop}

theorem Stored.imp (stored : q.Stored P) (weaker : ∀ t, P t → P' t) : q.Stored P' where
  queues channel qe member := weaker _ (stored.queues channel qe member)
  withheld channel qe member := weaker _ (stored.withheld channel qe member)
  cancelled channel be member := weaker _ (stored.cancelled channel be member)

theorem Stored.pushFront (stored : q.Stored P) {channel : Uuid} {events : List QueuedEvent}
    (within : ∀ qe ∈ events, P qe.receivedAt) : (q.pushFront channel events).Stored P := by
  refine { stored with queues := fun channel' qe member => ?_ }
  simp only [EventQueue.pushFront, Map.row_insert] at member
  split at member
  next =>
    rcases List.mem_append.mp (List.mem_of_mem_take member) with new | old
    · exact within qe new
    · exact stored.queues channel qe old
  next => exact stored.queues channel' qe member

theorem Stored.push (stored : q.Stored P) {event : QueuedEvent} (within : P event.receivedAt) :
    (q.push event).2.Stored P := by
  unfold EventQueue.push
  split
  next => exact stored
  next =>
    refine { stored with queues := fun channel qe member => ?_ }
    simp only [Map.row_insert] at member
    split at member
    next =>
      rcases List.mem_append.mp member with old | new
      · exact stored.queues _ qe (List.mem_of_mem_drop old)
      · rw [List.mem_singleton.mp new]
        exact within
    next => exact stored.queues channel qe member

theorem Stored.expireInFlight (stored : q.Stored P) (now : Instant) :
    (q.expireInFlight now).Stored P := by
  unfold EventQueue.expireInFlight
  generalize q.expiredChannels now = channels
  -- Along the expired channels: what was withheld goes into the queue, and nothing comes from
  -- outside.
  induction channels generalizing q with
  | nil => exact stored
  | cons channel channels ih =>
    refine ih ?_
    unfold EventQueue.expireChannel recoverWithheldForExpiredChannel
    split
    next => exact { stored with }
    next entries found =>
      apply Stored.pushFront
      · refine { stored with withheld := fun channel' qe member => ?_ }
        simp only [Map.row_erase] at member
        split at member
        next => cases member
        next => exact stored.withheld channel' qe member
      · intro qe member
        refine stored.withheld channel qe ?_
        rw [Map.row, show q.withheldNativeSteer.lookup channel = some entries from found]
        exact member

private theorem Stored.takeCancelled (stored : q.Stored P) (channel : Uuid) :
    ∀ channel', ∀ be ∈ Map.row (q.cancelledBatches.erase channel) channel', P be.receivedAt := by
  intro channel' be member
  rw [Map.row_erase] at member
  split at member
  next => cases member
  next => exact stored.cancelled channel' be member

/-- A flush takes the events of its batch from the stores. -/
theorem Stored.flushNext (stored : q.Stored P) (now : Instant) :
    (q.flushNext now).2.Stored P ∧ ∀ b, (q.flushNext now).1 = some b → b.Within P := by
  have expired := stored.expireInFlight now
  rcases flushNext_cases q now with
    ⟨chosen, _, flushed⟩ | ⟨_, ⟨chosen, _, flushed⟩ | ⟨_, nothing⟩⟩
  · rw [flushed]
    refine ⟨⟨fun channel qe member => ?_, expired.withheld, expired.takeCancelled chosen⟩, ?_⟩
    · simp only [flushChannel, markInFlight, Map.row_put] at member
      split at member
      next => exact expired.queues chosen qe (List.mem_of_mem_drop member)
      next => exact expired.queues channel qe member
    · -- The events of the batch are a front part of the queue, only sorted anew.
      rintro b same
      cases same
      refine ⟨fun be member => ?_, expired.cancelled chosen⟩
      obtain ⟨qe, inside, rfl⟩ := List.mem_map.mp ((List.mem_insertionSort _).mp member)
      exact expired.queues chosen qe (List.mem_of_mem_take inside)
  · rw [flushed]
    refine ⟨⟨expired.queues, expired.withheld, expired.takeCancelled chosen⟩, ?_⟩
    rintro b same
    cases same
    exact ⟨expired.cancelled chosen, fun be member => by cases member⟩
  · rw [nothing]
    refine ⟨expired, ?_⟩
    rintro b same
    cases same

private theorem within_putBack {b : FlushBatch} (within : b.Within P) :
    ∀ qe ∈ b.events.map (·.toQueuedEvent b.channelId), P qe.receivedAt := by
  intro qe member
  obtain ⟨be, inside, rfl⟩ := List.mem_map.mp member
  exact within.1 be inside

theorem Stored.requeue (stored : q.Stored P) (now : Instant) (nanos : Nat) {b : FlushBatch}
    (within : b.Within P) : (q.requeue now nanos b).2.Stored P := by
  unfold EventQueue.requeue
  dsimp only
  split
  next => exact { stored with }
  next =>
    have counted (counts : Map Uuid Nat) :
        ({ q with retryCounts := counts } : EventQueue).Stored P := { stored with }
    exact { (counted _).pushFront (within_putBack within) with }

theorem Stored.requeueAsCancelled (stored : q.Stored P) {b : FlushBatch} (reason : CancelReason)
    (within : b.Within P) : (q.requeueAsCancelled b reason).Stored P := by
  refine { stored with cancelled := fun channel be member => ?_ }
  simp only [EventQueue.requeueAsCancelled, Map.row_insert] at member
  split at member
  next =>
    rcases List.mem_append.mp member with old | new
    · rcases List.mem_append.mp old with old | new
      · exact stored.cancelled _ be old
      · exact within.2 be new
    · exact within.1 be new
  next => exact stored.cancelled channel be member

theorem Stored.markComplete (stored : q.Stored P) (now : Instant) (channel : Uuid) :
    (q.markComplete now channel).Stored P := by
  unfold EventQueue.markComplete
  dsimp only
  split
  · split
    · exact { stored with }
    · exact { stored with }
  · exact { stored with }

theorem Stored.markNativeSteerPending (stored : q.Stored P) (channel : Uuid) (eventId : String) :
    (q.markNativeSteerPending channel eventId).2.Stored P := by
  unfold EventQueue.markNativeSteerPending
  dsimp only
  split
  next => exact stored
  next qe found =>
    refine ⟨fun channel' qe' member => ?_, fun channel' qe' member => ?_, stored.cancelled⟩
    · simp only [Map.row_put] at member
      split at member
      next => exact stored.queues channel qe' (List.eraseP_sublist.subset member)
      next => exact stored.queues channel' qe' member
    · simp only [Map.row_insert] at member
      split at member
      next =>
        rcases List.mem_append.mp member with old | new
        · exact stored.withheld channel qe' old
        · rw [List.mem_singleton.mp new]
          exact stored.queues channel qe (List.mem_of_find?_eq_some found)
      next => exact stored.withheld channel' qe' member

theorem Stored.releaseNativeSteer (stored : q.Stored P) (channel : Uuid) (eventId : String) :
    (q.releaseNativeSteer channel eventId).Stored P := by
  unfold EventQueue.releaseNativeSteer
  dsimp only
  split
  next => exact stored
  next qe found =>
    apply Stored.pushFront
    · refine { stored with withheld := fun channel' qe' member => ?_ }
      simp only [Map.row_put] at member
      split at member
      next => exact stored.withheld channel qe' (List.eraseP_sublist.subset member)
      next => exact stored.withheld channel' qe' member
    · intro qe' member
      rw [List.mem_singleton.mp member]
      exact stored.withheld channel qe (List.mem_of_find?_eq_some found)

theorem Stored.removeEvent (stored : q.Stored P) (channel : Uuid) (eventId : String) :
    (q.removeEvent channel eventId).Stored P := by
  refine ⟨fun channel' qe member => ?_, fun channel' qe member => ?_, stored.cancelled⟩
  · simp only [EventQueue.removeEvent, Map.row_filterRow] at member
    split at member
    next => exact stored.queues channel qe (List.mem_of_mem_filter member)
    next => exact stored.queues channel' qe member
  · simp only [EventQueue.removeEvent, Map.row_filterRow] at member
    split at member
    next => exact stored.withheld channel qe (List.mem_of_mem_filter member)
    next => exact stored.withheld channel' qe member

theorem Stored.drainChannel (stored : q.Stored P) (channel : Uuid) :
    (q.drainChannel channel).2.Stored P := by
  refine ⟨fun channel' qe member => ?_, fun channel' qe member => ?_, stored.takeCancelled channel⟩
  · simp only [EventQueue.drainChannel, Map.row_erase] at member
    split at member
    next => cases member
    next => exact stored.queues channel' qe member
  · simp only [EventQueue.drainChannel, Map.row_erase] at member
    split at member
    next => cases member
    next => exact stored.withheld channel' qe member

theorem Stored.extendInFlightDeadline (stored : q.Stored P) (now : Instant) (channel : Uuid)
    (maxTurnSecs : Nat) : (q.extendInFlightDeadline now channel maxTurnSecs).Stored P := by
  unfold EventQueue.extendInFlightDeadline
  split
  · exact stored
  · dsimp only
    split
    · exact { stored with }
    · exact stored

theorem Stored.rehashed {q' : EventQueue} (stored : q.Stored P) (rehashed : q.Rehashed q') :
    q'.Stored P where
  queues channel qe member := by
    rw [← row_perm rehashed.queues channel] at member
    exact stored.queues channel qe member
  withheld channel qe member := by
    rw [← row_perm rehashed.withheldNativeSteer channel] at member
    exact stored.withheld channel qe member
  cancelled channel be member := by
    rw [Map.row, ← AList.perm_lookup rehashed.cancelledBatches] at member
    exact stored.cancelled channel be member

end EventQueue

/-! ### Runs -/

namespace Harness

open EventQueue

/-- The time of an accepted push. -/
def Arrived (s : Harness) (t : Instant) : Prop := ∃ p ∈ s.pushed, p.receivedAt = t

/-- No push is earlier than a push that was accepted before. -/
def Arrives (s : Harness) : Action → Prop
  | .push event => ∀ p ∈ s.pushed, p.receivedAt ≤ event.receivedAt
  | _ => True

/-- What the action puts in front of a queue fits there: a batch that comes back and is not
dead-lettered, a withheld event that is released, or one that is recovered at an expiry. -/
def PutsInOrder (s : Harness) : Action → Prop
  | .requeue b _ _ =>
    (s.queue.retryCounts.lookup b.channelId).getD 0 + 1 ≤ maxRetries →
      FitsBefore (b.events.map (·.toQueuedEvent b.channelId)) (s.queue.queues.row b.channelId)
  | .requeuePreserveTimestamps b =>
    FitsBefore (b.events.map (·.toQueuedEvent b.channelId)) (s.queue.queues.row b.channelId)
  | .releaseNativeSteer channel eventId => ∀ qe,
    (s.queue.withheldNativeSteer.row channel).find? (·.event.id.toHex = eventId) = some qe →
      FitsBefore [qe] (s.queue.queues.row channel)
  | .flushNext now | .hasFlushableWork now => s.queue.RecoversInOrder now
  | _ => True

/-- The queues are in order, and everything in the stores and in the batches has arrived. -/
structure Tidy (s : Harness) : Prop where
  ordered : s.queue.Ordered
  stored : s.queue.Stored s.Arrived
  delivered : ∀ b ∈ s.delivered, b.Within s.Arrived

variable {s : Harness} {a : Action}

theorem tidy_start (mode : DedupMode) (deadline : Duration) : (start mode deadline).Tidy where
  ordered _ := List.Pairwise.nil
  stored := ⟨fun _ _ member => (List.not_mem_nil member).elim,
    fun _ _ member => (List.not_mem_nil member).elim,
    fun _ _ member => (List.not_mem_nil member).elim⟩
  delivered _ member := by cases member

private theorem Tidy.push (tidy : s.Tidy) {event : QueuedEvent} (arrives : s.Arrives (.push event)) :
    (s.perform (.push event)).Tidy := by
  have latest : ∀ qe ∈ s.queue.queues.row event.channelId, qe.receivedAt ≤ event.receivedAt := by
    intro qe member
    obtain ⟨p, inside, same⟩ := tidy.stored.queues _ qe member
    exact same ▸ arrives p inside
  -- A refused push leaves the queue as it was, an accepted one arrives.
  cases accepted : (s.queue.push event).1 with
  | false =>
    have same : s.perform (.push event) = { s with queue := (s.queue.push event).2 } := by
      simp only [perform, accepted, Bool.false_eq_true, if_false]
    have unchanged : (s.queue.push event).2 = s.queue := by
      unfold EventQueue.push at accepted ⊢
      split at accepted
      next refused => rw [if_pos refused]
      next => cases accepted
    rw [same, unchanged]
    exact tidy
  | true =>
    have same : s.perform (.push event) =
        { s with queue := (s.queue.push event).2, pushed := s.pushed ++ [event] } := by
      simp only [perform, accepted, if_true]
    rw [same]
    have grows : ∀ t, s.Arrived t → Arrived { s with
        queue := (s.queue.push event).2, pushed := s.pushed ++ [event] } t := by
      rintro t ⟨p, member, at_⟩
      exact ⟨p, List.mem_append_left _ member, at_⟩
    refine ⟨tidy.ordered.push latest, ?_, fun b member => ?_⟩
    · exact (tidy.stored.imp grows).push
        ⟨event, List.mem_append_right _ (List.mem_singleton_self _), rfl⟩
    · obtain ⟨events, cancelled⟩ := tidy.delivered b member
      exact ⟨fun be member => grows _ (events be member),
        fun be member => grows _ (cancelled be member)⟩

theorem Tidy.perform (tidy : s.Tidy) (returned : s.Returned a) (arrives : s.Arrives a)
    (puts : s.PutsInOrder a) : (s.perform a).Tidy := by
  obtain ⟨ordered, stored, delivered⟩ := tidy
  -- Order is kept by what is put in front, and times only move between the stores.
  cases a with
  | push event => exact Tidy.push ⟨ordered, stored, delivered⟩ arrives
  | flushNext now =>
    obtain ⟨stays, taken⟩ := stored.flushNext now
    refine ⟨ordered.flushNext puts, stays, fun b member => ?_⟩
    rcases List.mem_append.mp member with old | new
    · exact delivered b old
    · exact taken b (Option.mem_toList.mp new)
  | succeed b => exact ⟨ordered, stored, delivered⟩
  | requeue b now nanos =>
    exact ⟨ordered.requeue puts, stored.requeue now nanos (delivered b returned), delivered⟩
  | requeuePreserveTimestamps b =>
    exact ⟨ordered.pushFront puts, stored.pushFront (within_putBack (delivered b returned)),
      delivered⟩
  | requeueAsCancelled b reason =>
    exact ⟨ordered, stored.requeueAsCancelled reason (delivered b returned), delivered⟩
  | markComplete channel now =>
    exact ⟨ordered.markComplete now channel, stored.markComplete now channel, delivered⟩
  | markNativeSteerPending channel eventId =>
    exact ⟨ordered.markNativeSteerPending channel eventId,
      stored.markNativeSteerPending channel eventId, delivered⟩
  | releaseNativeSteer channel eventId =>
    exact ⟨ordered.releaseNativeSteer puts, stored.releaseNativeSteer channel eventId, delivered⟩
  | removeEvent channel eventId =>
    exact ⟨ordered.removeEvent channel eventId, stored.removeEvent channel eventId, delivered⟩
  | drainChannel channel =>
    exact ⟨ordered.drainChannel channel, stored.drainChannel channel, delivered⟩
  | hasFlushableWork now =>
    exact ⟨ordered.expireInFlight puts, stored.expireInFlight now, delivered⟩
  | extendInFlightDeadline channel now maxTurnSecs =>
    exact ⟨ordered.extendInFlightDeadline now channel maxTurnSecs,
      stored.extendInFlightDeadline now channel maxTurnSecs, delivered⟩
  | compactExpiredState now => exact ⟨ordered, { stored with }, delivered⟩
  | rehash queue => exact ⟨ordered.rehashed returned, stored.rehashed returned, delivered⟩

/-- After a run that puts only in front what fits there, a flush is fair, if what it recovers
itself fits too. -/
theorem picksOldest_run (mode : DedupMode) (deadline : Duration) (actions : List Action)
    (run : Along perform (fun s a => s.Returned a ∧ s.Arrives a ∧ s.PutsInOrder a)
      (start mode deadline) actions) (now : Instant)
    (recovers : (actions.foldl perform (start mode deadline)).PutsInOrder (.flushNext now)) :
    (actions.foldl perform (start mode deadline)).queue.PicksOldest now := by
  -- The run keeps the queues in order; the last flush recovers in order before it looks.
  have tidy : (actions.foldl perform (start mode deadline)).Tidy :=
    run.invariant (fun _ _ allowed tidy => tidy.perform allowed.1 allowed.2.1 allowed.2.2)
      (tidy_start mode deadline)
  exact picksOldest_of_ordered (tidy.ordered.expireInFlight recovers)

/-! ### A replay -/

namespace Replay

/-- Two events of one channel, the later one created first, and between them one of another. -/
def sample (digit : Char) (hex : isLowerHexDigit digit = true) (channel : Uuid) (createdAt : Nat)
    (receivedAt : Instant) : QueuedEvent :=
  let id := Hex64.repeated digit hex
  ⟨channel, ⟨id, id, createdAt, 9, [], "hello"⟩, receivedAt, "mention"⟩

def oldest : QueuedEvent := sample 'a' (Eq.refl true) ⟨1⟩ 1700000010 1
def between : QueuedEvent := sample 'b' (Eq.refl true) ⟨2⟩ 1700000020 2
def newest : QueuedEvent := sample 'c' (Eq.refl true) ⟨1⟩ 1700000005 3

def initial : Harness := start .queue (Duration.fromSecs defaultInFlightDeadlineSecs)

def pushes : List Action := [.push oldest, .push between, .push newest]

/-- The batch that comes back, sorted by creation time. -/
def batch : FlushBatch := ⟨⟨1⟩, [newest.toBatchEvent, oldest.toBatchEvent], [], none⟩

def broughtBack : List Action :=
  pushes ++
    [Action.flushNext 10, Action.requeuePreserveTimestamps batch, Action.markComplete ⟨1⟩ 11]

/-- Every batch is handed back once and every push is later than the one before, and yet channel 2
is served although channel 1 holds the oldest event. -/
theorem not_picksOldest :
    Along perform (fun s a => s.Returned a ∧ s.Arrives a) initial broughtBack ∧
      ¬ (broughtBack.foldl perform initial).queue.PicksOldest 12 := by
  refine ⟨?_, fun picks => ?_⟩
  · simp only [broughtBack, pushes, List.cons_append, List.nil_append, Along, Returned, Arrives]
    refine ⟨⟨?_, ?_⟩, ⟨?_, ?_⟩, ⟨?_, ?_⟩, ⟨?_, ?_⟩, ⟨?_, ?_⟩, ⟨?_, ?_⟩, ?_⟩ <;> decide
  · generalize final : broughtBack.foldl perform initial = s at picks
    have flushed : (s.queue.flushNext 12).1 = some ⟨⟨2⟩, [between.toBatchEvent], [], none⟩ := by
      subst final; decide
    have flushable : (s.queue.expireInFlight 12).Flushable 12 ⟨1⟩ := by
      subst final
      exact ⟨by decide, by decide, by decide⟩
    have member : oldest ∈ (s.queue.expireInFlight 12).queues.row ⟨1⟩ := by subst final; decide
    have row : (s.queue.expireInFlight 12).queues.row ⟨2⟩ = [between] := by subst final; decide
    -- What the flush took is later than the head of channel 1.
    obtain ⟨-, found, inside, least⟩ := picks _ flushed _ flushable _ member
    rw [row, List.mem_singleton] at inside
    subst inside
    exact absurd least (by decide)

/-- The same batch with its events in the order of arrival. -/
def keptOrder : List Action :=
  [.push oldest, .push between, .flushNext 10,
    .requeuePreserveTimestamps ⟨⟨1⟩, [oldest.toBatchEvent], [], none⟩, .markComplete ⟨1⟩ 11]

theorem picksOldest_keptOrder : (keptOrder.foldl perform initial).queue.PicksOldest 12 := by
  refine picksOldest_run .queue _ keptOrder ?_ 12 (recoversInOrder_of_empty (by decide))
  simp only [keptOrder, Along, Returned, Arrives, PutsInOrder]
  refine ⟨⟨?_, ?_, ?_⟩, ⟨?_, ?_, ?_⟩, ⟨?_, ?_, recoversInOrder_of_empty (by decide)⟩, ⟨?_, ?_, ?_⟩,
    ⟨?_, ?_, ?_⟩, ?_⟩ <;> decide

end Replay

end Harness

end Acp
