import Buzz.Acp.Harness

/-!
# The representation of the event queue

Nine maps keyed by channel move together through every operation (`Represents`): the
three in-flight tables have the same channels, no stored list is empty, a queue is within
its cap and holds events of its own channel, and a cancelled batch has its reason.

`representation`: this holds in every state that a run reaches, with any clock readings
and with any batches handed back that a flush returned before. From it follows what a
flush returns and that it leaves the tables of other channels alone, except where the
in-flight entry of the channel has expired.
-/
namespace Acp

open Nostr Lib

namespace EventQueue

/-- A stored queue: not empty, within the cap, of its own channel. -/
structure QueueOk (channel : Uuid) (queue : List QueuedEvent) : Prop where
  nonempty : queue ≠ []
  capped : queue.length ≤ maxPendingPerChannel
  own : ∀ qe ∈ queue, qe.channelId = channel

/-- Withheld events: not empty, of their own channel. -/
structure WithheldOk (channel : Uuid) (entries : List QueuedEvent) : Prop where
  nonempty : entries ≠ []
  own : ∀ qe ∈ entries, qe.channelId = channel

/-- The representation invariant. -/
structure Represents (q : EventQueue) : Prop where
  deadlines : ∀ channel, channel ∈ q.inFlightDeadlines ↔ channel ∈ q.inFlightChannels
  batchSizes : ∀ channel, channel ∈ q.inFlightBatchSizes ↔ channel ∈ q.inFlightChannels
  queues : ∀ channel queue, q.queues.lookup channel = some queue → QueueOk channel queue
  withheld : ∀ channel entries, q.withheldNativeSteer.lookup channel = some entries →
    WithheldOk channel entries
  cancelled : ∀ channel events, q.cancelledBatches.lookup channel = some events → events ≠ []
  reasons : ∀ channel, channel ∈ q.cancelReasons ↔ channel ∈ q.cancelledBatches

theorem represents_new (mode : DedupMode) : (new mode).Represents where
  deadlines := by simp [new]
  batchSizes := by simp [new]
  queues := by simp [new]
  withheld := by simp [new]
  cancelled := by simp [new]
  reasons := by simp [new]

variable {q : EventQueue}

/-! ### Rows of the queue table -/

theorem Represents.row (represents : q.Represents) (channel : Uuid) :
    (q.queues.row channel).length ≤ maxPendingPerChannel ∧
      ∀ qe ∈ q.queues.row channel, qe.channelId = channel := by
  unfold Map.row
  cases stored : q.queues.lookup channel with
  | none => simp
  | some queue =>
    have ok := represents.queues channel queue stored
    exact ⟨ok.capped, ok.own⟩

/-- Writing a row that is dropped when it is empty. -/
private theorem lookup_put {m : Map Uuid (List QueuedEvent)} {channel channel' : Uuid}
    {row queue : List QueuedEvent} (stored : (m.put channel row).lookup channel' = some queue) :
    (channel' = channel ∧ queue = row ∧ row ≠ []) ∨
      (channel' ≠ channel ∧ m.lookup channel' = some queue) := by
  unfold Map.put at stored
  split at stored
  next =>
    rw [Map.lookup_erase_ite] at stored
    split at stored
    next => cases stored
    next other => exact Or.inr ⟨other, stored⟩
  next some =>
    rw [Map.lookup_insert_ite] at stored
    split at stored
    next same =>
      cases stored
      exact Or.inl ⟨same, rfl, by simpa using some⟩
    next other => exact Or.inr ⟨other, stored⟩

private theorem lookup_filterRow {m : Map Uuid (List QueuedEvent)} {channel channel' : Uuid}
    {test : QueuedEvent → Bool} {queue : List QueuedEvent}
    (stored : (m.filterRow channel test).lookup channel' = some queue) :
    ∃ old, m.lookup channel' = some old ∧ queue.Sublist old ∧ (queue ≠ [] ∨ queue = old) := by
  unfold Map.filterRow at stored
  split at stored
  next present =>
    rcases lookup_put stored with ⟨rfl, rfl, some⟩ | ⟨-, old⟩
    · obtain ⟨old, found⟩ := Option.isSome_iff_exists.mp (AList.lookup_isSome.mpr present)
      refine ⟨old, found, ?_, Or.inl some⟩
      rw [Map.row, found]
      exact List.filter_sublist
    · exact ⟨queue, old, List.Sublist.refl _, Or.inr rfl⟩
  next => exact ⟨queue, stored, List.Sublist.refl _, Or.inr rfl⟩

theorem represents_pushFront (represents : q.Represents) {channel : Uuid}
    {events : List QueuedEvent} (some : events ≠ []) (own : ∀ qe ∈ events, qe.channelId = channel) :
    (q.pushFront channel events).Represents := by
  refine { represents with queues := ?_ }
  intro channel' queue stored
  simp only [pushFront, Map.lookup_insert_ite] at stored
  split at stored
  next same =>
    subst same
    cases stored
    refine ⟨?_, List.length_take_le _ _, ?_⟩
    · -- The first of the events is within the cap.
      cases events with
      | nil => exact absurd rfl some
      | cons first rest => simp [maxPendingPerChannel]
    · intro qe member
      rcases List.mem_append.mp (List.mem_of_mem_take member) with new | old
      · exact own qe new
      · exact (represents.row channel').2 qe old
  next => exact represents.queues channel' queue stored

/-! ### The operations -/

theorem represents_push (represents : q.Represents) (event : QueuedEvent) :
    (q.push event).2.Represents := by
  unfold push
  split
  next => exact represents
  next =>
    refine { represents with queues := ?_ }
    intro channel queue stored
    rw [Map.lookup_insert_ite] at stored
    split at stored
    next same =>
      subst same
      cases stored
      obtain ⟨capped, own⟩ := represents.row event.channelId
      refine ⟨by simp, ?_, ?_⟩
      · -- A full queue has lost its oldest event before.
        rw [List.length_append, List.length_drop, List.length_singleton]
        split
        next full => unfold maxPendingPerChannel at capped ⊢; omega
        next => omega
      · intro qe member
        rcases List.mem_append.mp member with old | new
        · exact own qe (List.mem_of_mem_drop old)
        · rw [List.mem_singleton.mp new]
    next => exact represents.queues channel queue stored

theorem represents_expireChannel (represents : q.Represents) (channel : Uuid) :
    (q.expireChannel channel).Represents := by
  -- The three in-flight tables lose the channel together.
  have released : ({ q with
      inFlightBatchSizes := q.inFlightBatchSizes.erase channel
      inFlightChannels := q.inFlightChannels.erase channel
      inFlightDeadlines := q.inFlightDeadlines.erase channel } : EventQueue).Represents :=
    { represents with
      deadlines := fun c => by simp [AList.mem_erase, represents.deadlines]
      batchSizes := fun c => by simp [AList.mem_erase, represents.batchSizes] }
  unfold expireChannel recoverWithheldForExpiredChannel
  split
  next => exact released
  next entries stored =>
    have ok := represents.withheld channel entries stored
    apply represents_pushFront _ ok.nonempty ok.own
    refine { released with withheld := ?_ }
    intro channel' entries' stored'
    rw [Map.lookup_erase_ite] at stored'
    split at stored'
    next => cases stored'
    next => exact represents.withheld channel' entries' stored'

theorem represents_expireInFlight (represents : q.Represents) (now : Instant) :
    (q.expireInFlight now).Represents := by
  unfold expireInFlight
  induction q.expiredChannels now generalizing q with
  | nil => exact represents
  | cons channel rest ih => exact ih (represents_expireChannel represents channel)

private theorem represents_markInFlight (represents : q.Represents) (now : Instant) (channel : Uuid)
    (size : Nat) : (q.markInFlight now channel size).Represents :=
  { represents with
    deadlines := fun c => by simp [markInFlight, represents.deadlines]
    batchSizes := fun c => by simp [markInFlight, represents.batchSizes] }

private theorem represents_takeCancelled (represents : q.Represents) (channel : Uuid) :
    ({ q with
      cancelledBatches := q.cancelledBatches.erase channel
      cancelReasons := q.cancelReasons.erase channel } : EventQueue).Represents := by
  refine { represents with cancelled := ?_, reasons := ?_ }
  · intro channel' events stored
    rw [Map.lookup_erase_ite] at stored
    split at stored
    next => cases stored
    next => exact represents.cancelled channel' events stored
  · intro channel'
    simp [AList.mem_erase, represents.reasons]

theorem represents_flushCancelled (represents : q.Represents) (now : Instant) (channel : Uuid) :
    (q.flushCancelled now channel).2.Represents :=
  represents_markInFlight (represents_takeCancelled represents channel) now channel _

theorem represents_flushChannel (represents : q.Represents) (now : Instant) (channel : Uuid) :
    (q.flushChannel now channel).2.Represents := by
  unfold flushChannel
  apply represents_takeCancelled
  apply represents_markInFlight
  refine { represents with queues := ?_ }
  intro channel' queue stored
  rcases lookup_put stored with ⟨rfl, rfl, some⟩ | ⟨-, old⟩
  · obtain ⟨capped, own⟩ := represents.row channel'
    refine ⟨some, ?_, fun qe member => own qe (List.mem_of_mem_drop member)⟩
    rw [List.length_drop]
    omega
  · exact represents.queues channel' queue old

theorem represents_flushNext (represents : q.Represents) (now : Instant) :
    (q.flushNext now).2.Represents := by
  have expired := represents_expireInFlight represents now
  rcases flushNext_cases q now with
    ⟨channel, _, flushed⟩ | ⟨_, ⟨channel, _, flushed⟩ | ⟨_, nothing⟩⟩
  · rw [flushed]; exact represents_flushChannel expired now channel
  · rw [flushed]; exact represents_flushCancelled expired now channel
  · rw [nothing]; exact expired

theorem represents_markComplete (represents : q.Represents) (now : Instant) (channel : Uuid) :
    (q.markComplete now channel).Represents := by
  have released : ({ q with
      inFlightChannels := q.inFlightChannels.erase channel
      inFlightDeadlines := q.inFlightDeadlines.erase channel
      inFlightBatchSizes := q.inFlightBatchSizes.erase channel } : EventQueue).Represents :=
    { represents with
      deadlines := fun c => by simp [AList.mem_erase, represents.deadlines]
      batchSizes := fun c => by simp [AList.mem_erase, represents.batchSizes] }
  unfold markComplete
  dsimp only
  split
  next =>
    split
    next => exact released
    next => exact { released with }
  next => exact { released with }

private theorem represents_putBack (represents : q.Represents) {b : FlushBatch}
    (some : b.events ≠ []) :
    (q.pushFront b.channelId (b.events.map (·.toQueuedEvent b.channelId))).Represents := by
  apply represents_pushFront represents
  · simpa using some
  · intro qe member
    obtain ⟨be, -, rfl⟩ := List.mem_map.mp member
    rfl

theorem represents_requeue (represents : q.Represents) (now : Instant) (nanos : Nat)
    {b : FlushBatch} (some : b.events ≠ []) : (q.requeue now nanos b).2.Represents := by
  unfold requeue
  dsimp only
  split
  next => exact { represents with }
  next =>
    have counted (counts : Map Uuid Nat) :
        ({ q with retryCounts := counts } : EventQueue).Represents := { represents with }
    exact { represents_putBack (counted _) some with }

theorem represents_requeueAsCancelled (represents : q.Represents) {b : FlushBatch}
    (reason : CancelReason) (some : b.events ≠ []) :
    (q.requeueAsCancelled b reason).Represents := by
  refine { represents with cancelled := ?_, reasons := ?_ }
  · intro channel events stored
    simp only [requeueAsCancelled, Map.lookup_insert_ite] at stored
    split at stored
    next => cases stored; simp [some]
    next => exact represents.cancelled channel events stored
  · intro channel
    simp [requeueAsCancelled, represents.reasons]

theorem represents_markNativeSteerPending (represents : q.Represents) (channel : Uuid)
    (eventId : String) : (q.markNativeSteerPending channel eventId).2.Represents := by
  unfold markNativeSteerPending
  dsimp only
  split
  next => exact represents
  next qe found =>
    obtain ⟨capped, own⟩ := represents.row channel
    refine { represents with queues := ?_, withheld := ?_ }
    · intro channel' queue stored
      rcases lookup_put stored with ⟨rfl, rfl, some⟩ | ⟨-, old⟩
      · have rest := List.eraseP_sublist (p := fun qe : QueuedEvent =>
          decide (qe.event.id.toHex = eventId)) (l := q.queues.row channel')
        exact ⟨some, rest.length_le.trans capped, fun qe member => own qe (rest.subset member)⟩
      · exact represents.queues channel' queue old
    · intro channel' entries stored
      rw [Map.lookup_insert_ite] at stored
      split at stored
      next same =>
        subst same
        cases stored
        refine ⟨by simp, fun qe' member => ?_⟩
        rcases List.mem_append.mp member with old | new
        · unfold Map.row at old
          cases table : q.withheldNativeSteer.lookup channel' with
          | none => rw [table] at old; cases old
          | some entries =>
            rw [table] at old
            exact (represents.withheld channel' entries table).own qe' old
        · rw [List.mem_singleton.mp new]
          exact own qe (List.mem_of_find?_eq_some found)
      next => exact represents.withheld channel' entries stored

theorem represents_releaseNativeSteer (represents : q.Represents) (channel : Uuid)
    (eventId : String) : (q.releaseNativeSteer channel eventId).Represents := by
  unfold releaseNativeSteer
  dsimp only
  split
  next => exact represents
  next qe found =>
    -- What is withheld for the channel belongs to it.
    have own : ∀ qe ∈ q.withheldNativeSteer.row channel, qe.channelId = channel := by
      unfold Map.row
      cases table : q.withheldNativeSteer.lookup channel with
      | none => simp
      | some entries => exact (represents.withheld channel entries table).own
    apply represents_pushFront
    · refine { represents with withheld := ?_ }
      intro channel' entries stored
      rcases lookup_put stored with ⟨rfl, rfl, some⟩ | ⟨-, old⟩
      · have rest := List.eraseP_sublist (p := fun qe : QueuedEvent =>
          decide (qe.event.id.toHex = eventId)) (l := q.withheldNativeSteer.row channel')
        exact ⟨some, fun qe member => own qe (rest.subset member)⟩
      · exact represents.withheld channel' entries old
    · simp
    · intro qe' member
      rw [List.mem_singleton.mp member]
      exact own qe (List.mem_of_find?_eq_some found)

theorem represents_removeEvent (represents : q.Represents) (channel : Uuid) (eventId : String) :
    (q.removeEvent channel eventId).Represents := by
  refine { represents with queues := ?_, withheld := ?_ }
  · intro channel' queue stored
    obtain ⟨old, table, rest, some⟩ := lookup_filterRow stored
    have ok := represents.queues channel' old table
    refine ⟨?_, rest.length_le.trans ok.capped, fun qe member => ok.own qe (rest.subset member)⟩
    rcases some with some | rfl
    · exact some
    · exact ok.nonempty
  · intro channel' entries stored
    obtain ⟨old, table, rest, some⟩ := lookup_filterRow stored
    have ok := represents.withheld channel' old table
    refine ⟨?_, fun qe member => ok.own qe (rest.subset member)⟩
    rcases some with some | rfl
    · exact some
    · exact ok.nonempty

theorem represents_drainChannel (represents : q.Represents) (channel : Uuid) :
    (q.drainChannel channel).2.Represents := by
  have taken := represents_takeCancelled represents channel
  refine { taken with queues := ?_, withheld := ?_ }
  · intro channel' queue stored
    simp only [drainChannel, Map.lookup_erase_ite] at stored
    split at stored
    next => cases stored
    next => exact represents.queues channel' queue stored
  · intro channel' entries stored
    simp only [drainChannel, Map.lookup_erase_ite] at stored
    split at stored
    next => cases stored
    next => exact represents.withheld channel' entries stored

theorem represents_extendInFlightDeadline (represents : q.Represents) (now : Instant)
    (channel : Uuid) (maxTurnSecs : Nat) :
    (q.extendInFlightDeadline now channel maxTurnSecs).Represents := by
  unfold extendInFlightDeadline
  split
  next => exact represents
  next current stored =>
    dsimp only
    split
    next =>
      -- Only a channel that has a deadline gets a later one.
      have inFlight : channel ∈ q.inFlightChannels := by
        rw [← represents.deadlines, ← AList.lookup_isSome, stored]
        rfl
      refine { represents with deadlines := fun c => ?_ }
      simp only [AList.mem_insert, represents.deadlines]
      constructor
      · rintro (rfl | member)
        · exact inFlight
        · exact member
      · exact Or.inr
    next => exact represents

theorem represents_rehashed {q' : EventQueue} (represents : q.Represents)
    (rehashed : q.Rehashed q') : q'.Represents where
  deadlines channel := by
    rw [← AList.mem_of_perm rehashed.inFlightDeadlines, ← rehashed.inFlightChannels]
    exact represents.deadlines channel
  batchSizes channel := by
    rw [← AList.mem_of_perm rehashed.inFlightBatchSizes, ← rehashed.inFlightChannels]
    exact represents.batchSizes channel
  queues channel queue stored := by
    rw [← AList.perm_lookup rehashed.queues] at stored
    exact represents.queues channel queue stored
  withheld channel entries stored := by
    rw [← AList.perm_lookup rehashed.withheldNativeSteer] at stored
    exact represents.withheld channel entries stored
  cancelled channel events stored := by
    rw [← AList.perm_lookup rehashed.cancelledBatches] at stored
    exact represents.cancelled channel events stored
  reasons channel := by
    rw [← AList.mem_of_perm rehashed.cancelReasons, ← AList.mem_of_perm rehashed.cancelledBatches]
    exact represents.reasons channel

/-! ### Other channels -/

/-- The in-flight entry of the channel has passed its deadline. -/
def Expired (q : EventQueue) (now : Instant) (channel : Uuid) : Prop :=
  ∃ deadline, q.inFlightDeadlines.lookup channel = some deadline ∧ deadline ≤ now

/-- The two queues have the same tables for the channel. -/
structure SameTables (channel : Uuid) (q q' : EventQueue) : Prop where
  queues : q'.queues.lookup channel = q.queues.lookup channel
  inFlightChannels : channel ∈ q'.inFlightChannels ↔ channel ∈ q.inFlightChannels
  inFlightDeadlines : q'.inFlightDeadlines.lookup channel = q.inFlightDeadlines.lookup channel
  inFlightBatchSizes : q'.inFlightBatchSizes.lookup channel = q.inFlightBatchSizes.lookup channel
  retryAfter : q'.retryAfter.lookup channel = q.retryAfter.lookup channel
  retryCounts : q'.retryCounts.lookup channel = q.retryCounts.lookup channel
  cancelledBatches : q'.cancelledBatches.lookup channel = q.cancelledBatches.lookup channel
  cancelReasons : q'.cancelReasons.lookup channel = q.cancelReasons.lookup channel
  withheldNativeSteer :
    q'.withheldNativeSteer.lookup channel = q.withheldNativeSteer.lookup channel

theorem SameTables.refl (channel : Uuid) (q : EventQueue) : SameTables channel q q :=
  ⟨rfl, Iff.rfl, rfl, rfl, rfl, rfl, rfl, rfl, rfl⟩

theorem SameTables.trans {channel : Uuid} {q q' q'' : EventQueue}
    (first : SameTables channel q q') (second : SameTables channel q' q'') :
    SameTables channel q q'' where
  queues := second.queues.trans first.queues
  inFlightChannels := second.inFlightChannels.trans first.inFlightChannels
  inFlightDeadlines := second.inFlightDeadlines.trans first.inFlightDeadlines
  inFlightBatchSizes := second.inFlightBatchSizes.trans first.inFlightBatchSizes
  retryAfter := second.retryAfter.trans first.retryAfter
  retryCounts := second.retryCounts.trans first.retryCounts
  cancelledBatches := second.cancelledBatches.trans first.cancelledBatches
  cancelReasons := second.cancelReasons.trans first.cancelReasons
  withheldNativeSteer := second.withheldNativeSteer.trans first.withheldNativeSteer

private theorem sameTables_expireChannel {channel expired : Uuid} (other : channel ≠ expired)
    (q : EventQueue) : SameTables channel q (q.expireChannel expired) := by
  unfold expireChannel recoverWithheldForExpiredChannel
  split
  next =>
    exact { SameTables.refl channel q with
      inFlightChannels := by simp [other]
      inFlightDeadlines := AList.lookup_erase_ne other
      inFlightBatchSizes := AList.lookup_erase_ne other }
  next =>
    exact { SameTables.refl channel q with
      queues := AList.lookup_insert_ne other
      inFlightChannels := by simp [pushFront, other]
      inFlightDeadlines := AList.lookup_erase_ne other
      inFlightBatchSizes := AList.lookup_erase_ne other
      withheldNativeSteer := AList.lookup_erase_ne other }

theorem mem_expiredChannels {now : Instant} {channel : Uuid} :
    channel ∈ q.expiredChannels now ↔ q.Expired now channel := by
  simp only [expiredChannels, List.mem_map, List.mem_filter, decide_eq_true_eq]
  constructor
  · rintro ⟨⟨channel, deadline⟩, ⟨inside, passed⟩, rfl⟩
    exact ⟨deadline, (Map.mem_entries_iff _ _ _).mp inside, passed⟩
  · rintro ⟨deadline, stored, passed⟩
    exact ⟨⟨channel, deadline⟩, ⟨(Map.mem_entries_iff _ _ _).mpr stored, passed⟩, rfl⟩

theorem sameTables_foldl_expireChannel {channel : Uuid} {expired : List Uuid}
    (absent : channel ∉ expired) (q : EventQueue) :
    SameTables channel q (expired.foldl expireChannel q) := by
  induction expired generalizing q with
  | nil => exact SameTables.refl channel q
  | cons first rest ih =>
    have other : channel ≠ first := fun same => absent (by simp [same])
    have later : channel ∉ rest := fun member => absent (List.mem_cons_of_mem first member)
    exact (sameTables_expireChannel other q).trans (ih later (q.expireChannel first))

theorem sameTables_expireInFlight {now : Instant} {channel : Uuid}
    (active : ¬q.Expired now channel) : SameTables channel q (q.expireInFlight now) := by
  apply sameTables_foldl_expireChannel
  rw [mem_expiredChannels]
  exact active

private theorem lookup_put_ne {m : Map Uuid (List QueuedEvent)} {channel other : Uuid}
    (different : channel ≠ other) (row : List QueuedEvent) :
    (m.put other row).lookup channel = m.lookup channel := by
  unfold Map.put
  split
  next => exact AList.lookup_erase_ne different
  next => exact AList.lookup_insert_ne different

private theorem sameTables_flushChannel {channel flushed : Uuid} (other : channel ≠ flushed)
    (q : EventQueue) (now : Instant) : SameTables channel q (q.flushChannel now flushed).2 :=
  { SameTables.refl channel q with
    queues := lookup_put_ne other _
    inFlightChannels := by simp [flushChannel, markInFlight, other]
    inFlightDeadlines := AList.lookup_insert_ne other
    inFlightBatchSizes := AList.lookup_insert_ne other
    cancelledBatches := AList.lookup_erase_ne other
    cancelReasons := AList.lookup_erase_ne other }

private theorem sameTables_flushCancelled {channel flushed : Uuid} (other : channel ≠ flushed)
    (q : EventQueue) (now : Instant) : SameTables channel q (q.flushCancelled now flushed).2 :=
  { SameTables.refl channel q with
    inFlightChannels := by simp [flushCancelled, markInFlight, other]
    inFlightDeadlines := AList.lookup_insert_ne other
    inFlightBatchSizes := AList.lookup_insert_ne other
    cancelledBatches := AList.lookup_erase_ne other
    cancelReasons := AList.lookup_erase_ne other }

theorem sameTables_flushNext {now : Instant} {channel : Uuid}
    (other : ∀ b, (q.flushNext now).1 = some b → channel ≠ b.channelId)
    (active : ¬q.Expired now channel) : SameTables channel q (q.flushNext now).2 := by
  have expiry := sameTables_expireInFlight active
  rcases flushNext_cases q now with
    ⟨flushed, _, same⟩ | ⟨_, ⟨flushed, _, same⟩ | ⟨_, same⟩⟩
  · rw [same] at other ⊢
    exact expiry.trans (sameTables_flushChannel (other _ rfl) _ now)
  · rw [same] at other ⊢
    exact expiry.trans (sameTables_flushCancelled (other _ rfl) _ now)
  · rw [same]
    exact expiry

/-! ### What a flush returns -/

private theorem of_oldestReady {now : Instant} {channel : Uuid}
    (ready : q.oldestReady now = some channel) :
    channel ∉ q.inFlightChannels ∧ q.queues.row channel ≠ [] := by
  obtain ⟨⟨channel', queue⟩, least, rfl⟩ := Option.map_eq_some_iff.mp ready
  obtain ⟨inside, isReady⟩ := List.mem_filter.mp (List.argmin_mem least)
  simp only [EventQueue.isReady, Bool.and_eq_true, Bool.not_eq_true', List.isEmpty_eq_false_iff,
    decide_eq_true_eq] at isReady
  obtain ⟨⟨some, idle⟩, -⟩ := isReady
  refine ⟨idle, ?_⟩
  rw [Map.row, (Map.mem_entries_iff _ _ _).mp inside]
  exact some

private theorem events_flushChannel (now : Instant) {channel : Uuid}
    (some : q.queues.row channel ≠ []) : (q.flushChannel now channel).1.events ≠ [] := by
  intro none
  have length : (q.flushChannel now channel).1.events.length =
      min maxBatchEvents (q.queues.row channel).length := by
    simp [flushChannel, List.length_insertionSort]
  have positive : 0 < (q.queues.row channel).length := List.length_pos_of_ne_nil some
  rw [none, List.length_nil] at length
  unfold maxBatchEvents at length
  omega

/-- A flush returns a batch with events, of a channel that was not in flight or had expired. -/
theorem flushNext_returns (represents : q.Represents) {now : Instant} {b : FlushBatch}
    (returned : (q.flushNext now).1 = some b) :
    b.events ≠ [] ∧ (b.channelId ∈ q.inFlightChannels → q.Expired now b.channelId) := by
  -- A channel that is in flight and has not expired is still in flight behind the expiry.
  have expired {channel : Uuid} (idle : channel ∉ (q.expireInFlight now).inFlightChannels)
      (inFlight : channel ∈ q.inFlightChannels) : q.Expired now channel := by
    by_contra active
    exact idle ((sameTables_expireInFlight active).inFlightChannels.mpr inFlight)
  rcases flushNext_cases q now with
    ⟨channel, ready, same⟩ | ⟨_, ⟨channel, ready, same⟩ | ⟨_, same⟩⟩
  · rw [same] at returned
    cases returned
    obtain ⟨idle, some⟩ := of_oldestReady ready
    exact ⟨events_flushChannel now some, expired idle⟩
  · rw [same] at returned
    cases returned
    have idle : channel ∉ (q.expireInFlight now).inFlightChannels := by
      simpa using List.find?_some ready
    have present : channel ∈ (q.expireInFlight now).cancelledBatches :=
      AList.mem_keys.mp (List.mem_of_find?_eq_some ready)
    obtain ⟨events, stored⟩ := Option.isSome_iff_exists.mp (AList.lookup_isSome.mpr present)
    refine ⟨?_, expired idle⟩
    change (q.expireInFlight now).cancelledBatches.row channel ≠ []
    rw [Map.row, stored]
    exact (represents_expireInFlight represents now).cancelled channel events stored
  · rw [same] at returned
    cases returned

end EventQueue

/-! ### Runs -/

namespace Harness

/-- Any operation with any clock reading; what is handed back was returned by a flush. -/
def Returned (s : Harness) : Action → Prop
  | .succeed b | .requeue b _ _ | .requeuePreserveTimestamps b | .requeueAsCancelled b _ =>
    b ∈ s.delivered
  | .rehash queue => s.queue.Rehashed queue
  | _ => True

/-- The queue is well represented and every batch that was returned has events. -/
structure Kept (s : Harness) : Prop where
  represents : s.queue.Represents
  delivered : ∀ b ∈ s.delivered, b.events ≠ []

theorem kept_start (mode : DedupMode) (deadline : Duration) : (start mode deadline).Kept where
  represents := { EventQueue.represents_new mode with }
  delivered := by simp [start]

theorem Kept.perform {s : Harness} {a : Action} (kept : s.Kept) (returned : s.Returned a) :
    (s.perform a).Kept := by
  have queue := kept.represents
  cases a with
  | push event => exact ⟨EventQueue.represents_push queue event, kept.delivered⟩
  | flushNext now =>
    refine ⟨EventQueue.represents_flushNext queue now, fun b member => ?_⟩
    rcases List.mem_append.mp member with old | new
    · exact kept.delivered b old
    · exact (EventQueue.flushNext_returns queue (Option.mem_toList.mp new)).1
  | succeed b => exact ⟨queue, kept.delivered⟩
  | requeue b now nanos =>
    exact ⟨EventQueue.represents_requeue queue now nanos (kept.delivered b returned),
      kept.delivered⟩
  | requeuePreserveTimestamps b =>
    exact ⟨EventQueue.represents_putBack queue (kept.delivered b returned), kept.delivered⟩
  | requeueAsCancelled b reason =>
    exact ⟨EventQueue.represents_requeueAsCancelled queue reason (kept.delivered b returned),
      kept.delivered⟩
  | markComplete channel now =>
    exact ⟨EventQueue.represents_markComplete queue now channel, kept.delivered⟩
  | markNativeSteerPending channel eventId =>
    exact ⟨EventQueue.represents_markNativeSteerPending queue channel eventId, kept.delivered⟩
  | releaseNativeSteer channel eventId =>
    exact ⟨EventQueue.represents_releaseNativeSteer queue channel eventId, kept.delivered⟩
  | removeEvent channel eventId =>
    exact ⟨EventQueue.represents_removeEvent queue channel eventId, kept.delivered⟩
  | drainChannel channel =>
    exact ⟨EventQueue.represents_drainChannel queue channel, kept.delivered⟩
  | hasFlushableWork now =>
    exact ⟨EventQueue.represents_expireInFlight queue now, kept.delivered⟩
  | extendInFlightDeadline channel now maxTurnSecs =>
    exact ⟨EventQueue.represents_extendInFlightDeadline queue now channel maxTurnSecs,
      kept.delivered⟩
  | compactExpiredState now => exact ⟨{ queue with }, kept.delivered⟩
  | rehash queue' => exact ⟨EventQueue.represents_rehashed queue returned, kept.delivered⟩

/-- In every state that a run reaches the tables fit together, and a flush returns a batch with
events of a channel that was free, and touches no other channel but the expired ones. -/
theorem representation (mode : DedupMode) (deadline : Duration) (actions : List Action)
    (run : Along perform Returned (start mode deadline) actions) :
    let q := (actions.foldl perform (start mode deadline)).queue
    q.Represents ∧ ∀ now,
      (∀ b, (q.flushNext now).1 = some b →
        b.events ≠ [] ∧ (b.channelId ∈ q.inFlightChannels → q.Expired now b.channelId)) ∧
      ∀ channel, (∀ b, (q.flushNext now).1 = some b → channel ≠ b.channelId) →
        ¬q.Expired now channel → EventQueue.SameTables channel q (q.flushNext now).2 := by
  have kept : (actions.foldl perform (start mode deadline)).Kept :=
    run.invariant (fun _ _ returned kept => kept.perform returned) (kept_start mode deadline)
  refine ⟨kept.represents, fun now => ⟨fun b returned => ?_, fun channel other active => ?_⟩⟩
  · exact EventQueue.flushNext_returns kept.represents returned
  · exact EventQueue.sameTables_flushNext other active

/-- An event that arrived at a fixed time. -/
def mention : QueuedEvent :=
  let id := Hex64.repeated 'c' (Eq.refl true)
  ⟨⟨7⟩, ⟨id, id, 1700000000, 9, [], "hello"⟩, 10, "mention"⟩

/-- A batch is handed back twice, before the time at which it was flushed. -/
def handedBackTwice : List Action :=
  let batch : FlushBatch := ⟨⟨7⟩, [mention.toBatchEvent], [], none⟩
  [.push mention, .flushNext 20, .requeue batch 5 0, .requeueAsCancelled batch .interrupt,
    .markComplete ⟨7⟩ 1]

theorem represents_handedBackTwice :
    let start := start .queue (Duration.fromSecs defaultInFlightDeadlineSecs)
    (handedBackTwice.foldl perform start).queue.Represents ∧
      ⟨7⟩ ∈ (handedBackTwice.foldl perform start).queue.cancelReasons := by
  intro start
  have run : Along perform Returned start handedBackTwice := by
    simp only [handedBackTwice, Along, Returned]
    refine ⟨?_, ?_, ?_, ?_, ?_, ?_⟩ <;> decide
  exact ⟨(representation .queue _ handedBackTwice run).1, by decide⟩

end Harness

end Acp
