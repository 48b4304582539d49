import Buzz.Acp.Representation

/-!
# Polling and flushing

`has_flushable_work` and `flush_next` begin with the same expiry and then look for a
ready channel, one to answer and the other to dispatch. Both visit hash maps, whose order
the source does not fix: `Polls` and `Flushes` say what the two can do when the tables are
visited in any order.

`polling_agrees`: in every state, the answer is whether a flush finds a batch, the poll has
only the effect of the expiry, and a flush behind the poll can return exactly what a flush
alone can.
-/
namespace Acp

open Nostr Lib

namespace EventQueue

variable {q q' q'' : EventQueue} {now : Instant} {channel : Uuid}

/-! ### Any order of the tables -/

/-- The same queue, whatever the order of its tables. What was trimmed is only logged. -/
structure Alike (q q' : EventQueue) : Prop where
  tables : ∀ channel, SameTables channel q q'
  dedupMode : q'.dedupMode = q.dedupMode
  inFlightDeadline : q'.inFlightDeadline = q.inFlightDeadline

theorem SameTables.symm (same : SameTables channel q q') : SameTables channel q' q where
  queues := same.queues.symm
  inFlightChannels := same.inFlightChannels.symm
  inFlightDeadlines := same.inFlightDeadlines.symm
  inFlightBatchSizes := same.inFlightBatchSizes.symm
  retryAfter := same.retryAfter.symm
  retryCounts := same.retryCounts.symm
  cancelledBatches := same.cancelledBatches.symm
  cancelReasons := same.cancelReasons.symm
  withheldNativeSteer := same.withheldNativeSteer.symm

theorem Alike.refl (q : EventQueue) : q.Alike q :=
  ⟨fun channel => SameTables.refl channel q, rfl, rfl⟩

/-- `flush_next` behind its expiry block. -/
def flushReady (q : EventQueue) (now : Instant) : Option FlushBatch × EventQueue :=
  match q.oldestReady now with
  | some channelId => ((q.flushChannel now channelId).1, (q.flushChannel now channelId).2)
  | none =>
    match q.cancelledReady with
    | some channelId => ((q.flushCancelled now channelId).1, (q.flushCancelled now channelId).2)
    | none => (none, q)

/-- `has_flushable_work` behind its expiry block. -/
def anyReady (q : EventQueue) (now : Instant) : Bool :=
  q.queues.entries.any (fun e => q.isReady now e.1 e.2) ||
    q.cancelledBatches.keys.any (· ∉ q.inFlightChannels)

/-- The poll can answer so and leave the queue so. -/
def Polls (q : EventQueue) (now : Instant) (answer : Bool) (polled : EventQueue) : Prop :=
  ∃ visited seen, q.Alike visited ∧ (visited.expireInFlight now).Alike seen ∧
    (answer, polled) = (seen.anyReady now, seen)

/-- The flush can return that and leave the queue so. -/
def Flushes (q : EventQueue) (now : Instant) (result : Option FlushBatch) (flushed : EventQueue) :
    Prop :=
  ∃ visited seen, q.Alike visited ∧ (visited.expireInFlight now).Alike seen ∧
    (result, flushed) = seen.flushReady now

theorem hasFlushableWork_eq (q : EventQueue) (now : Instant) :
    q.hasFlushableWork now = ((q.expireInFlight now).anyReady now, q.expireInFlight now) := rfl

theorem polls_hasFlushableWork (q : EventQueue) (now : Instant) :
    q.Polls now (q.hasFlushableWork now).1 (q.hasFlushableWork now).2 :=
  ⟨q, _, Alike.refl q, Alike.refl _, by rw [hasFlushableWork_eq]⟩

/-! ### What the expiry does -/

/-- The channel is no longer in flight, and what was withheld from it is at the front of its queue,
which is cut at the cap. -/
structure Released (channel : Uuid) (q q' : EventQueue) : Prop where
  queues : q'.queues.lookup channel = match q.withheldNativeSteer.lookup channel with
    | none => q.queues.lookup channel
    | some entries => some ((entries ++ q.queues.row channel).take maxPendingPerChannel)
  inFlightChannels : channel ∉ q'.inFlightChannels
  inFlightDeadlines : q'.inFlightDeadlines.lookup channel = none
  inFlightBatchSizes : q'.inFlightBatchSizes.lookup channel = none
  withheldNativeSteer : q'.withheldNativeSteer.lookup channel = none
  retryAfter : q'.retryAfter.lookup channel = q.retryAfter.lookup channel
  retryCounts : q'.retryCounts.lookup channel = q.retryCounts.lookup channel
  cancelledBatches : q'.cancelledBatches.lookup channel = q.cancelledBatches.lookup channel
  cancelReasons : q'.cancelReasons.lookup channel = q.cancelReasons.lookup channel

theorem released_expireChannel (channel : Uuid) (q : EventQueue) :
    Released channel q (q.expireChannel channel) := by
  unfold expireChannel recoverWithheldForExpiredChannel
  -- The hold is merged back only where the channel has one.
  cases withheld : q.withheldNativeSteer.lookup channel with
  | none =>
    exact {
      queues := by rw [withheld]
      inFlightChannels := Finset.notMem_erase channel _
      inFlightDeadlines := AList.lookup_erase channel _
      inFlightBatchSizes := AList.lookup_erase channel _
      withheldNativeSteer := withheld
      retryAfter := rfl, retryCounts := rfl, cancelledBatches := rfl, cancelReasons := rfl }
  | some entries =>
    exact {
      queues := by
        rw [withheld]
        exact AList.lookup_insert _
      inFlightChannels := Finset.notMem_erase channel _
      inFlightDeadlines := AList.lookup_erase channel _
      inFlightBatchSizes := AList.lookup_erase channel _
      withheldNativeSteer := AList.lookup_erase channel _
      retryAfter := rfl, retryCounts := rfl, cancelledBatches := rfl, cancelReasons := rfl }

theorem Released.congr {p p' : EventQueue} (released : Released channel q q')
    (before : SameTables channel p q) (after : SameTables channel q' p') :
    Released channel p p' where
  queues := by
    rw [after.queues, released.queues, before.withheldNativeSteer, Map.row, Map.row, before.queues]
  inFlightChannels := fun member =>
    released.inFlightChannels (after.inFlightChannels.mp member)
  inFlightDeadlines := after.inFlightDeadlines.trans released.inFlightDeadlines
  inFlightBatchSizes := after.inFlightBatchSizes.trans released.inFlightBatchSizes
  withheldNativeSteer := after.withheldNativeSteer.trans released.withheldNativeSteer
  retryAfter := after.retryAfter.trans (released.retryAfter.trans before.retryAfter)
  retryCounts := after.retryCounts.trans (released.retryCounts.trans before.retryCounts)
  cancelledBatches :=
    after.cancelledBatches.trans (released.cancelledBatches.trans before.cancelledBatches)
  cancelReasons := after.cancelReasons.trans (released.cancelReasons.trans before.cancelReasons)

theorem Released.sameTables (released : Released channel q q') (released' : Released channel q q'') :
    SameTables channel q' q'' where
  queues := released'.queues.trans released.queues.symm
  inFlightChannels := iff_of_false released'.inFlightChannels released.inFlightChannels
  inFlightDeadlines := released'.inFlightDeadlines.trans released.inFlightDeadlines.symm
  inFlightBatchSizes := released'.inFlightBatchSizes.trans released.inFlightBatchSizes.symm
  retryAfter := released'.retryAfter.trans released.retryAfter.symm
  retryCounts := released'.retryCounts.trans released.retryCounts.symm
  cancelledBatches := released'.cancelledBatches.trans released.cancelledBatches.symm
  cancelReasons := released'.cancelReasons.trans released.cancelReasons.symm
  withheldNativeSteer := released'.withheldNativeSteer.trans released.withheldNativeSteer.symm

/-- What the expiry makes of a queue: the expired channels are released, and nothing else changes. -/
structure ExpiresTo (q : EventQueue) (now : Instant) (q' : EventQueue) : Prop where
  released : ∀ channel, q.Expired now channel → Released channel q q'
  others : ∀ channel, ¬ q.Expired now channel → SameTables channel q q'
  dedupMode : q'.dedupMode = q.dedupMode
  inFlightDeadline : q'.inFlightDeadline = q.inFlightDeadline

theorem released_foldl_expireChannel {expired : List Uuid} (member : channel ∈ expired)
    (distinct : expired.Nodup) (q : EventQueue) :
    Released channel q (expired.foldl expireChannel q) := by
  -- Along the drain: the channel is released by its own step, and the steps of the others leave its
  -- tables alone.
  induction expired generalizing q with
  | nil => cases member
  | cons first rest ih =>
    obtain ⟨absent, distinct⟩ := List.nodup_cons.mp distinct
    rw [List.foldl_cons]
    by_cases own : channel = first
    · subst own
      exact (released_expireChannel channel q).congr (SameTables.refl channel q)
        (sameTables_foldl_expireChannel absent _)
    · have later : channel ∈ rest := (List.mem_cons.mp member).resolve_left own
      have before := sameTables_foldl_expireChannel (mt List.mem_singleton.mp own) q
      exact (ih later distinct (q.expireChannel first)).congr before (SameTables.refl channel _)

theorem nodup_expiredChannels (q : EventQueue) (now : Instant) : (q.expiredChannels now).Nodup :=
  List.Nodup.sublist (List.filter_sublist.map Sigma.fst) q.inFlightDeadlines.nodupKeys

theorem settings_expireChannel (q : EventQueue) (channel : Uuid) :
    (q.expireChannel channel).dedupMode = q.dedupMode ∧
      (q.expireChannel channel).inFlightDeadline = q.inFlightDeadline := by
  unfold expireChannel recoverWithheldForExpiredChannel
  split <;> exact ⟨rfl, rfl⟩

theorem settings_foldl_expireChannel (expired : List Uuid) (q : EventQueue) :
    (expired.foldl expireChannel q).dedupMode = q.dedupMode ∧
      (expired.foldl expireChannel q).inFlightDeadline = q.inFlightDeadline := by
  induction expired generalizing q with
  | nil => exact ⟨rfl, rfl⟩
  | cons first rest ih =>
    obtain ⟨mode, deadline⟩ := settings_expireChannel q first
    obtain ⟨mode', deadline'⟩ := ih (q.expireChannel first)
    exact ⟨mode'.trans mode, deadline'.trans deadline⟩

theorem expiresTo_expireInFlight (q : EventQueue) (now : Instant) :
    q.ExpiresTo now (q.expireInFlight now) where
  released _ expired := released_foldl_expireChannel (mem_expiredChannels.mpr expired)
    (nodup_expiredChannels q now) q
  others _ active := sameTables_expireInFlight active
  dedupMode := (settings_foldl_expireChannel (q.expiredChannels now) q).1
  inFlightDeadline := (settings_foldl_expireChannel (q.expiredChannels now) q).2

/-! ### The expiry in any order -/

theorem Alike.expired (alike : q.Alike q') : q'.Expired now channel ↔ q.Expired now channel := by
  rw [Expired, Expired, (alike.tables channel).inFlightDeadlines]

theorem ExpiresTo.congr {p p' : EventQueue} (expires : q.ExpiresTo now q') (before : p.Alike q)
    (after : q'.Alike p') : p.ExpiresTo now p' where
  released channel expired :=
    (expires.released channel (before.expired.mpr expired)).congr (before.tables channel)
      (after.tables channel)
  others channel active :=
    ((before.tables channel).trans
      (expires.others channel fun expired => active (before.expired.mp expired))).trans
        (after.tables channel)
  dedupMode := after.dedupMode.trans (expires.dedupMode.trans before.dedupMode)
  inFlightDeadline :=
    after.inFlightDeadline.trans (expires.inFlightDeadline.trans before.inFlightDeadline)

theorem ExpiresTo.alike (expires : q.ExpiresTo now q') (expires' : q.ExpiresTo now q'') :
    q'.Alike q'' where
  tables channel := by
    by_cases expired : q.Expired now channel
    · exact (expires.released channel expired).sameTables (expires'.released channel expired)
    · exact (expires.others channel expired).symm.trans (expires'.others channel expired)
  dedupMode := expires'.dedupMode.trans expires.dedupMode.symm
  inFlightDeadline := expires'.inFlightDeadline.trans expires.inFlightDeadline.symm

/-- Behind the expiry nothing is left to expire. -/
theorem ExpiresTo.settled (expires : q.ExpiresTo now q') : ¬ q'.Expired now channel := by
  by_cases expired : q.Expired now channel
  · rintro ⟨deadline, stored, -⟩
    rw [(expires.released channel expired).inFlightDeadlines] at stored
    cases stored
  · rw [Expired, (expires.others channel expired).inFlightDeadlines]
    exact expired

theorem ExpiresTo.again (expires : q.ExpiresTo now q') :
    q'.ExpiresTo now q'' ↔ q.ExpiresTo now q'' := by
  -- Nothing is left to expire, so the expired queue expires to itself.
  have still : q'.ExpiresTo now q' :=
    ⟨fun _ expired => absurd expired expires.settled, fun channel _ => SameTables.refl channel q',
      rfl, rfl⟩
  constructor
  · intro expires'
    exact expires.congr (Alike.refl q) (still.alike expires')
  · intro expires'
    exact still.congr (Alike.refl q') (expires.alike expires')

/-- What the two operations see behind the expiry. -/
theorem exists_visited_iff {seen : EventQueue} :
    (∃ visited, q.Alike visited ∧ (visited.expireInFlight now).Alike seen) ↔
      q.ExpiresTo now seen := by
  constructor
  · rintro ⟨visited, before, after⟩
    exact (expiresTo_expireInFlight visited now).congr before after
  · intro expires
    exact ⟨q, Alike.refl q, (expiresTo_expireInFlight q now).alike expires⟩

theorem polls_iff {answer : Bool} {polled : EventQueue} :
    q.Polls now answer polled ↔ q.ExpiresTo now polled ∧ answer = polled.anyReady now := by
  constructor
  · rintro ⟨visited, seen, before, after, same⟩
    obtain ⟨rfl, rfl⟩ := Prod.mk.inj same
    exact ⟨exists_visited_iff.mp ⟨visited, before, after⟩, rfl⟩
  · rintro ⟨expires, rfl⟩
    obtain ⟨visited, before, after⟩ := exists_visited_iff.mpr expires
    exact ⟨visited, polled, before, after, rfl⟩

theorem flushes_iff {result : Option FlushBatch} {flushed : EventQueue} :
    q.Flushes now result flushed ↔
      ∃ seen, q.ExpiresTo now seen ∧ (result, flushed) = seen.flushReady now := by
  constructor
  · rintro ⟨visited, seen, before, after, same⟩
    exact ⟨seen, exists_visited_iff.mp ⟨visited, before, after⟩, same⟩
  · rintro ⟨seen, expires, same⟩
    obtain ⟨visited, before, after⟩ := exists_visited_iff.mpr expires
    exact ⟨visited, seen, before, after, same⟩

/-! ### Ready channels -/

/-- The channel has queued events, is not in flight and is not throttled. -/
def Ready (q : EventQueue) (now : Instant) (channel : Uuid) : Prop :=
  ∃ queue, q.queues.lookup channel = some queue ∧ q.isReady now channel queue = true

/-- The channel has cancelled events and is not in flight. -/
def Cancelled (q : EventQueue) (channel : Uuid) : Prop :=
  channel ∈ q.cancelledBatches ∧ channel ∉ q.inFlightChannels

/-- When the head of the channel's queue was received. -/
def headReceivedAt (q : EventQueue) (channel : Uuid) : Option Instant :=
  (q.queues.row channel).head?.map (·.receivedAt)

private theorem mem_ready {entry : Sigma fun _ : Uuid => List QueuedEvent} :
    entry ∈ q.queues.entries.filter (fun e => q.isReady now e.1 e.2) ↔
      q.queues.lookup entry.1 = some entry.2 ∧ q.isReady now entry.1 entry.2 = true := by
  rw [List.mem_filter, ← Map.mem_entries_iff]

theorem oldestReady_eq_none : q.oldestReady now = none ↔ ∀ channel, ¬ q.Ready now channel := by
  rw [oldestReady, Option.map_eq_none_iff, List.argmin_eq_none, List.eq_nil_iff_forall_not_mem]
  constructor
  · rintro empty channel ⟨queue, stored, ready⟩
    exact empty ⟨channel, queue⟩ (mem_ready.mpr ⟨stored, ready⟩)
  · intro idle entry member
    obtain ⟨stored, ready⟩ := mem_ready.mp member
    exact idle entry.1 ⟨entry.2, stored, ready⟩

private theorem headReceivedAt_of_ready {queue : List QueuedEvent}
    (stored : q.queues.lookup channel = some queue) (ready : q.isReady now channel queue = true) :
    q.headReceivedAt channel = some ((queue.head?.map (·.receivedAt)).getD 0) := by
  rw [headReceivedAt, Map.row, stored, Option.getD_some]
  cases queue with
  | nil => simp [isReady] at ready
  | cons event rest => rfl

theorem oldestReady_eq_some (chosen : q.oldestReady now = some channel) :
    q.Ready now channel ∧ ∀ other, q.Ready now other → ∃ head head',
      q.headReceivedAt channel = some head ∧ q.headReceivedAt other = some head' ∧ head ≤ head' := by
  obtain ⟨entry, least, rfl⟩ := Option.map_eq_some_iff.mp chosen
  obtain ⟨stored, ready⟩ := mem_ready.mp (List.argmin_mem least)
  refine ⟨⟨entry.2, stored, ready⟩, ?_⟩
  rintro other ⟨queue, stored', ready'⟩
  -- The other channel was a candidate of the search too, so its head is no older.
  have candidate : (⟨other, queue⟩ : Sigma fun _ : Uuid => List QueuedEvent) ∈
      q.queues.entries.filter fun e => q.isReady now e.1 e.2 := mem_ready.mpr ⟨stored', ready'⟩
  have oldest := List.le_of_mem_argmin candidate least
  exact ⟨_, _, headReceivedAt_of_ready stored ready, headReceivedAt_of_ready stored' ready', oldest⟩

theorem cancelledReady_eq_none : q.cancelledReady = none ↔ ∀ channel, ¬ q.Cancelled channel := by
  simp only [cancelledReady, List.find?_eq_none, AList.mem_keys, decide_eq_true_eq, Cancelled,
    not_and]

theorem cancelled_of_cancelledReady (chosen : q.cancelledReady = some channel) :
    q.Cancelled channel :=
  ⟨AList.mem_keys.mp (List.mem_of_find?_eq_some chosen), by simpa using List.find?_some chosen⟩

theorem anyReady_iff :
    q.anyReady now = true ↔ (∃ channel, q.Ready now channel) ∨ ∃ channel, q.Cancelled channel := by
  simp only [anyReady, Bool.or_eq_true, List.any_eq_true, decide_eq_true_eq]
  constructor
  · rintro (⟨⟨channel, queue⟩, member, ready⟩ | found)
    · exact Or.inl ⟨channel, queue, (Map.mem_entries_iff _ _ _).mp member, ready⟩
    · exact Or.inr found
  · rintro (⟨channel, queue, stored, ready⟩ | found)
    · exact Or.inl ⟨⟨channel, queue⟩, (Map.mem_entries_iff _ _ _).mpr stored, ready⟩
    · exact Or.inr found

/-! ### What a flush returns -/

/-- A batch of a ready channel with the oldest head, else one of cancelled events, else none. -/
inductive Chooses (q : EventQueue) (now : Instant) : Option FlushBatch → Prop where
  | oldest (channel : Uuid) (ready : q.Ready now channel)
      (least : ∀ other, q.Ready now other → ∃ head head', q.headReceivedAt channel = some head ∧
        q.headReceivedAt other = some head' ∧ head ≤ head') :
      Chooses q now (some (q.flushChannel now channel).1)
  | cancelled (channel : Uuid) (idle : ∀ other, ¬ q.Ready now other)
      (cancelled : q.Cancelled channel) : Chooses q now (some (q.flushCancelled now channel).1)
  | nothing (idle : ∀ other, ¬ q.Ready now other) (uncancelled : ∀ other, ¬ q.Cancelled other) :
      Chooses q now none

theorem chooses_flushReady (q : EventQueue) (now : Instant) :
    q.Chooses now (q.flushReady now).1 := by
  unfold flushReady
  cases chosen : q.oldestReady now with
  | some channel =>
    obtain ⟨ready, least⟩ := oldestReady_eq_some chosen
    exact Chooses.oldest channel ready least
  | none =>
    have idle := oldestReady_eq_none.mp chosen
    cases fallback : q.cancelledReady with
    | some channel => exact Chooses.cancelled channel idle (cancelled_of_cancelledReady fallback)
    | none => exact Chooses.nothing idle (cancelledReady_eq_none.mp fallback)

theorem Chooses.anyReady {result : Option FlushBatch} (chooses : q.Chooses now result) :
    q.anyReady now = result.isSome := by
  rw [Bool.eq_iff_iff, anyReady_iff]
  cases chooses with
  | oldest channel ready => exact iff_of_true (Or.inl ⟨channel, ready⟩) rfl
  | cancelled channel _ cancelled => exact iff_of_true (Or.inr ⟨channel, cancelled⟩) rfl
  | nothing idle uncancelled =>
    refine iff_of_false ?_ Bool.false_ne_true
    rintro (⟨channel, ready⟩ | ⟨channel, cancelled⟩)
    · exact idle channel ready
    · exact uncancelled channel cancelled

/-! ### The choice in any order -/

theorem Alike.ready (alike : q.Alike q') : q'.Ready now channel ↔ q.Ready now channel := by
  have same := alike.tables channel
  simp only [Ready, isReady, same.queues, same.inFlightChannels, same.retryAfter]

theorem Alike.cancelled (alike : q.Alike q') : q'.Cancelled channel ↔ q.Cancelled channel := by
  have same := alike.tables channel
  rw [Cancelled, Cancelled, ← AList.lookup_isSome, ← AList.lookup_isSome, same.cancelledBatches,
    same.inFlightChannels]

theorem Alike.headReceivedAt (alike : q.Alike q') :
    q'.headReceivedAt channel = q.headReceivedAt channel := by
  simp only [EventQueue.headReceivedAt, Map.row, (alike.tables channel).queues]

theorem Alike.flushChannel (alike : q.Alike q') :
    (q'.flushChannel now channel).1 = (q.flushChannel now channel).1 := by
  have same := alike.tables channel
  simp only [EventQueue.flushChannel, markInFlight, Map.row, same.queues, same.cancelledBatches,
    same.cancelReasons]
  rfl

theorem Alike.flushCancelled (alike : q.Alike q') :
    (q'.flushCancelled now channel).1 = (q.flushCancelled now channel).1 := by
  have same := alike.tables channel
  simp only [EventQueue.flushCancelled, Map.row, same.cancelledBatches, same.cancelReasons]

theorem Chooses.congr {result : Option FlushBatch} (chooses : q.Chooses now result)
    (alike : q.Alike q') : q'.Chooses now result := by
  cases chooses with
  | oldest channel ready least =>
    rw [← alike.flushChannel]
    refine Chooses.oldest channel (alike.ready.mpr ready) fun other ready' => ?_
    rw [alike.headReceivedAt, alike.headReceivedAt]
    exact least other (alike.ready.mp ready')
  | cancelled channel idle cancelled =>
    rw [← alike.flushCancelled]
    exact Chooses.cancelled channel (fun other ready => idle other (alike.ready.mp ready))
      (alike.cancelled.mpr cancelled)
  | nothing idle uncancelled =>
    exact Chooses.nothing (fun other ready => idle other (alike.ready.mp ready))
      fun other cancelled => uncancelled other (alike.cancelled.mp cancelled)

/-- The same result, up to the choice between heads that were received at the same time and between
channels that have only cancelled events to offer. -/
inductive SameChoice (q : EventQueue) (now : Instant) :
    Option FlushBatch → Option FlushBatch → Prop where
  | same (result : Option FlushBatch) : SameChoice q now result result
  | heads (b b' : FlushBatch) (head : Instant) (other : b.channelId ≠ b'.channelId)
      (ready : q.Ready now b.channelId) (ready' : q.Ready now b'.channelId)
      (received : q.headReceivedAt b.channelId = some head)
      (received' : q.headReceivedAt b'.channelId = some head) : SameChoice q now (some b) (some b')
  | cancelled (b b' : FlushBatch) (other : b.channelId ≠ b'.channelId)
      (idle : ∀ channel, ¬ q.Ready now channel) (cancelled : q.Cancelled b.channelId)
      (cancelled' : q.Cancelled b'.channelId) : SameChoice q now (some b) (some b')

theorem Chooses.sameChoice {result result' : Option FlushBatch} (chooses : q.Chooses now result)
    (chooses' : q.Chooses now result') : q.SameChoice now result result' := by
  cases chooses with
  | oldest channel ready least =>
    cases chooses' with
    | oldest channel' ready' least' =>
      by_cases same : channel = channel'
      · subst same
        exact SameChoice.same _
      · -- Each head is at most the other.
        obtain ⟨head, head', received, received', atMost⟩ := least channel' ready'
        obtain ⟨_, _, again', again, atLeast⟩ := least' channel ready
        obtain rfl := Option.some.inj (received.symm.trans again)
        obtain rfl := Option.some.inj (received'.symm.trans again')
        obtain rfl := le_antisymm atMost atLeast
        exact SameChoice.heads _ _ head same ready ready' received received'
    | cancelled channel' idle => exact absurd ready (idle channel)
    | nothing idle => exact absurd ready (idle channel)
  | cancelled channel idle cancelled =>
    cases chooses' with
    | oldest channel' ready' => exact absurd ready' (idle channel')
    | cancelled channel' idle' cancelled' =>
      by_cases same : channel = channel'
      · subst same
        exact SameChoice.same _
      · exact SameChoice.cancelled _ _ same idle cancelled cancelled'
    | nothing _ uncancelled => exact absurd cancelled (uncancelled channel)
  | nothing idle uncancelled =>
    cases chooses' with
    | oldest channel' ready' => exact absurd ready' (idle channel')
    | cancelled channel' _ cancelled' => exact absurd cancelled' (uncancelled channel')
    | nothing => exact SameChoice.same _

theorem Flushes.chooses {result : Option FlushBatch} {flushed polled : EventQueue}
    (flushes : q.Flushes now result flushed) (expires : q.ExpiresTo now polled) :
    polled.Chooses now result := by
  obtain ⟨seen, expires', same⟩ := flushes_iff.mp flushes
  obtain rfl : result = (seen.flushReady now).1 := congrArg Prod.fst same
  exact (chooses_flushReady seen now).congr (expires'.alike expires)

/-- A poll and a flush agree: the poll expires the channels that are due and changes nothing else,
it answers whether a flush returns a batch, and a flush behind it can do just what a flush alone
can, which differs only in the choice between equal heads or between cancelled batches. -/
theorem polling_agrees (q : EventQueue) (now : Instant) {answer : Bool} {polled : EventQueue}
    (polls : q.Polls now answer polled) :
    q.ExpiresTo now polled ∧
    (∀ result flushed, q.Flushes now result flushed → (answer = true ↔ ∃ b, result = some b)) ∧
    (∀ result flushed, polled.Flushes now result flushed ↔ q.Flushes now result flushed) ∧
    (∀ result flushed result' flushed', polled.Flushes now result flushed →
      q.Flushes now result' flushed' → polled.SameChoice now result result') := by
  obtain ⟨expires, rfl⟩ := polls_iff.mp polls
  -- The flush behind the poll finds nothing more to expire.
  have behind : ∀ result flushed,
      polled.Flushes now result flushed ↔ q.Flushes now result flushed := by
    intro result flushed
    rw [flushes_iff, flushes_iff]
    simp only [expires.again]
  refine ⟨expires, ?_, behind, ?_⟩
  · intro result flushed flushes
    rw [(flushes.chooses expires).anyReady, Option.isSome_iff_exists]
  · intro result flushed result' flushed' flushes flushes'
    exact (((behind result flushed).mp flushes).chooses expires).sameChoice
      (flushes'.chooses expires)

/-- The first batch is never handed back, and the steer of a later event never answered. -/
def stuck : EventQueue :=
  ([.push Harness.mention, .flushNext 20, .push Harness.mention,
    .markNativeSteerPending ⟨7⟩ Harness.mention.event.id.toHex].foldl Harness.perform
      (Harness.start .queue 100)).queue

theorem polling_agrees_stuck :
    let polled := (stuck.hasFlushableWork 120).2
    ((stuck.hasFlushableWork 120).1 = true ∧ stuck.withheldNativeSteer.row ⟨7⟩ ≠ []) ∧
    stuck.ExpiresTo 120 polled ∧
    (∀ result flushed, stuck.Flushes 120 result flushed →
      ((stuck.hasFlushableWork 120).1 = true ↔ ∃ b, result = some b)) ∧
    (∀ result flushed, polled.Flushes 120 result flushed ↔ stuck.Flushes 120 result flushed) ∧
    (∀ result flushed result' flushed', polled.Flushes 120 result flushed →
      stuck.Flushes 120 result' flushed' → polled.SameChoice 120 result result') := by
  refine ⟨⟨by decide, by decide⟩, ?_⟩
  exact polling_agrees stuck 120 (polls_hasFlushableWork stuck 120)

end EventQueue

end Acp
