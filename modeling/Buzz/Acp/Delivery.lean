import Buzz.Acp.Harness

/-!
# What a run of the harness delivers

Summed over a run, the balance of the single actions says that the accepted
items are the live ones, the settled ones and those leaked on the way. Accepted
ids are distinct, so the three parts are disjoint and without repetition. Both
results are read off that: an event is lost exactly when some action leaked it,
and an event that is withheld or settled is in no batch.
-/
namespace Acp

open Nostr Lib

namespace EventQueue

variable {q : EventQueue} {x : Item}

theorem mem_withheld_iff :
    x ∈ q.withheld ↔ ∃ qe ∈ q.withheldNativeSteer.row x.1, qe.event.id = x.2 := by
  obtain ⟨channel, id⟩ := x
  rw [withheld, Map.mem_tally_iff]
  constructor
  · rintro ⟨k, qe, member, same⟩
    simp only [QueuedEvent.itemIn, Prod.mk.injEq] at same
    obtain ⟨rfl, rfl⟩ := same
    exact ⟨qe, member, rfl⟩
  · rintro ⟨qe, member, rfl⟩
    exact ⟨channel, qe, member, rfl⟩

/-! ### The trim ghost only grows -/

theorem trimmed_prefix_pushFront (q : EventQueue) (channel : Uuid) (events : List QueuedEvent) :
    q.trimmed <+: (q.pushFront channel events).trimmed :=
  List.prefix_append _ _

private theorem trimmed_prefix_expireChannel (q : EventQueue) (channel : Uuid) :
    q.trimmed <+: (q.expireChannel channel).trimmed := by
  unfold expireChannel recoverWithheldForExpiredChannel
  split
  · exact List.prefix_rfl
  · exact trimmed_prefix_pushFront _ channel _

theorem trimmed_prefix_expireInFlight (q : EventQueue) (now : Instant) :
    q.trimmed <+: (q.expireInFlight now).trimmed := by
  unfold expireInFlight
  generalize q.expiredChannels now = channels
  induction channels generalizing q with
  | nil => exact List.prefix_rfl
  | cons channel channels ih =>
    exact (trimmed_prefix_expireChannel q channel).trans (ih (q.expireChannel channel))

theorem trimmed_prefix_push (q : EventQueue) (event : QueuedEvent) :
    q.trimmed <+: (q.push event).2.trimmed := by
  unfold push
  split
  · exact List.prefix_rfl
  · exact List.prefix_append _ _

theorem trimmed_flushNext (q : EventQueue) (now : Instant) :
    (q.flushNext now).2.trimmed = (q.expireInFlight now).trimmed := by
  rcases flushNext_cases q now with
    ⟨channel, _, flushed⟩ | ⟨_, ⟨channel, _, flushed⟩ | ⟨_, nothing⟩⟩
  · rw [flushed]; rfl
  · rw [flushed]; rfl
  · rw [nothing]

theorem trimmed_prefix_requeue (q : EventQueue) (now : Instant) (nanos : Nat) (b : FlushBatch) :
    q.trimmed <+: (q.requeue now nanos b).2.trimmed := by
  unfold requeue
  dsimp only
  split
  · exact List.prefix_rfl
  · exact List.prefix_append _ _

theorem trimmed_prefix_releaseNativeSteer (q : EventQueue) (channel : Uuid) (eventId : String) :
    q.trimmed <+: (q.releaseNativeSteer channel eventId).trimmed := by
  unfold releaseNativeSteer
  dsimp only
  split
  · exact List.prefix_rfl
  · exact List.prefix_append _ _

/-! ### What takes a withheld event out of the side table -/

private theorem withheld_expireChannel (q : EventQueue) (channel : Uuid) :
    (q.expireChannel channel).withheldNativeSteer = q.withheldNativeSteer.erase channel := by
  unfold expireChannel recoverWithheldForExpiredChannel
  split
  next absent =>
    ext1
    exact (List.kerase_of_notMem_keys (AList.lookup_eq_none.mp absent)).symm
  next => rfl

theorem mem_withheld_expireInFlight {now : Instant} (member : x ∈ q.withheld)
    (inTime : x.1 ∉ q.expiredChannels now) : x ∈ (q.expireInFlight now).withheld := by
  unfold expireInFlight
  generalize q.expiredChannels now = channels at inTime
  induction channels generalizing q with
  | nil => exact member
  | cons channel channels ih =>
    have other : x.1 ≠ channel := fun h => inTime (by simp [h])
    refine ih ?_ fun later => inTime (by simp [later])
    rw [mem_withheld_iff] at member ⊢
    rwa [withheld_expireChannel, Map.row_erase, if_neg other]

theorem withheld_flushNext (q : EventQueue) (now : Instant) :
    (q.flushNext now).2.withheld = (q.expireInFlight now).withheld := by
  rcases flushNext_cases q now with
    ⟨channel, _, flushed⟩ | ⟨_, ⟨channel, _, flushed⟩ | ⟨_, nothing⟩⟩
  · rw [flushed]; rfl
  · rw [flushed]; rfl
  · rw [nothing]

theorem mem_withheld_markNativeSteerPending (channel : Uuid) (eventId : String)
    (member : x ∈ q.withheld) : x ∈ (q.markNativeSteerPending channel eventId).2.withheld := by
  unfold markNativeSteerPending
  dsimp only
  split
  · exact member
  · rw [mem_withheld_iff] at member ⊢
    obtain ⟨qe, inside, same⟩ := member
    refine ⟨qe, ?_, same⟩
    dsimp only
    rw [Map.row_insert]
    split
    next here => exact List.mem_append_left _ (here ▸ inside)
    next => exact inside

theorem mem_withheld_releaseNativeSteer {channel : Uuid} {eventId : String}
    (member : x ∈ q.withheld) (other : ¬ (channel = x.1 ∧ eventId = x.2.toHex)) :
    x ∈ (q.releaseNativeSteer channel eventId).withheld := by
  unfold releaseNativeSteer
  dsimp only
  split
  · exact member
  · rw [mem_withheld_iff] at member ⊢
    obtain ⟨qe, inside, same⟩ := member
    refine ⟨qe, ?_, same⟩
    simp only [pushFront]
    rw [Map.row_put]
    split
    next here =>
      refine (List.mem_eraseP_of_neg fun named => ?_).mpr (here ▸ inside)
      exact other ⟨here.symm, by rw [← same]; exact (of_decide_eq_true named).symm⟩
    next => exact inside

theorem mem_withheld_removeEvent (channel : Uuid) (eventId : String) (member : x ∈ q.withheld) :
    x ∈ (q.removeEvent channel eventId).withheld ∨ x ∈ q.removedBy channel eventId := by
  obtain ⟨qe, inside, same⟩ := mem_withheld_iff.mp member
  by_cases named : channel = x.1 ∧ qe.event.id.toHex = eventId
  · right
    obtain ⟨rfl, rfl⟩ := named
    refine List.mem_map.mpr ⟨qe, ?_, by rw [QueuedEvent.itemIn, same]⟩
    simp [inside]
  · left
    rw [mem_withheld_iff]
    refine ⟨qe, ?_, same⟩
    simp only [removeEvent]
    rw [Map.row_filterRow]
    split
    next here =>
      refine List.mem_filter.mpr ⟨here ▸ inside, ?_⟩
      simpa [here] using named
    next => exact inside

theorem mem_withheld_drainChannel (channel : Uuid) (member : x ∈ q.withheld) :
    x ∈ (q.drainChannel channel).2.withheld ∨ x ∈ q.drainedBy channel := by
  obtain ⟨qe, inside, same⟩ := mem_withheld_iff.mp member
  by_cases here : x.1 = channel
  · right
    subst here
    have item : QueuedEvent.itemIn x.1 qe = x := by rw [QueuedEvent.itemIn, same]
    simp only [drainedBy, List.mem_append, List.mem_map]
    exact Or.inl (Or.inr ⟨qe, inside, item⟩)
  · left
    rw [mem_withheld_iff]
    refine ⟨qe, ?_, same⟩
    simp only [drainChannel]
    rwa [Map.row_erase, if_neg here]

end EventQueue

namespace Harness

variable {s : Harness} {a : Action} {x : Item}

/-! ### One action -/

theorem settled_le_perform (allowed : s.Allowed a) : s.settled ≤ (s.perform a).settled := by
  have grow : ∀ (s' : Harness), s.queue.trimmed <+: s'.queue.trimmed →
      s.disposed <+: s'.disposed → s.settled ≤ s'.settled := by
    intro s' trimmed disposed
    exact add_le_add (Multiset.coe_le.mpr trimmed.sublist.subperm)
      (Multiset.coe_le.mpr disposed.sublist.subperm)
  cases a with
  | push event => exact grow _ (EventQueue.trimmed_prefix_push _ _) List.prefix_rfl
  | flushNext now =>
    refine grow _ ?_ List.prefix_rfl
    simp only [perform, EventQueue.trimmed_flushNext]
    exact EventQueue.trimmed_prefix_expireInFlight _ _
  | succeed b => exact grow _ List.prefix_rfl (List.prefix_append _ _)
  | requeue b now nanos =>
    exact grow _ (EventQueue.trimmed_prefix_requeue _ _ _ _) (List.prefix_append _ _)
  | requeuePreserveTimestamps b =>
    exact grow _ (EventQueue.trimmed_prefix_pushFront _ _ _) (List.prefix_append _ _)
  | requeueAsCancelled b reason => exact grow _ List.prefix_rfl (List.prefix_append _ _)
  | markComplete channel now =>
    refine grow _ ?_ List.prefix_rfl
    simp only [perform, EventQueue.markComplete]
    split
    · split <;> exact List.prefix_rfl
    · exact List.prefix_rfl
  | markNativeSteerPending channel eventId =>
    refine grow _ ?_ List.prefix_rfl
    simp only [perform, EventQueue.markNativeSteerPending]
    split <;> exact List.prefix_rfl
  | releaseNativeSteer channel eventId =>
    exact grow _ (EventQueue.trimmed_prefix_releaseNativeSteer _ _ _) List.prefix_rfl
  | removeEvent channel eventId => exact grow _ List.prefix_rfl (List.prefix_append _ _)
  | drainChannel channel => exact grow _ List.prefix_rfl (List.prefix_append _ _)
  | hasFlushableWork now =>
    exact grow _ (EventQueue.trimmed_prefix_expireInFlight _ _) List.prefix_rfl
  | extendInFlightDeadline channel now maxTurnSecs =>
    refine grow _ ?_ List.prefix_rfl
    simp only [perform, EventQueue.extendInFlightDeadline]
    split
    · exact List.prefix_rfl
    · split <;> exact List.prefix_rfl
  | compactExpiredState now => exact grow _ List.prefix_rfl List.prefix_rfl
  | rehash queue => exact grow _ (by simp [perform, allowed.trimmed]) List.prefix_rfl

theorem live_perform_le (allowed : s.Allowed a) :
    (s.perform a).live ≤ s.live + s.entering a := by
  have books := balance allowed
  obtain ⟨newly, grown⟩ := Multiset.le_iff_exists_add.mp (settled_le_perform allowed)
  rw [grown] at books
  have cancelled : (s.perform a).live + (newly + s.leaked a) = s.live + s.entering a := by
    apply add_right_cancel (b := s.settled)
    calc _ = (s.perform a).live + (s.settled + newly) + s.leaked a := by abel
      _ = s.live + s.settled + s.entering a := books
      _ = _ := by abel
  rw [← cancelled]
  exact Multiset.le_add_right _ _

/-- Neither a release of the event nor the recovery of its expired channel. -/
def NotMovedBack (x : Item) (s : Harness) : Action → Prop
  | .releaseNativeSteer channel eventId => ¬ (channel = x.1 ∧ eventId = x.2.toHex)
  | .flushNext now | .hasFlushableWork now => x.1 ∉ s.queue.expiredChannels now
  | _ => True

/-- A withheld event stays in the side table until it is moved back or disposed of. -/
theorem withheld_or_disposed (allowed : s.Allowed a) (kept : NotMovedBack x s a)
    (now : x ∈ s.queue.withheld ∨ x ∈ s.disposed) :
    x ∈ (s.perform a).queue.withheld ∨ x ∈ (s.perform a).disposed := by
  rcases now with member | gone
  · cases a with
    | push event =>
      left
      simp only [perform, EventQueue.push]
      split <;> exact member
    | flushNext now =>
      left
      simp only [perform, EventQueue.withheld_flushNext]
      exact EventQueue.mem_withheld_expireInFlight member kept
    | requeue b now nanos =>
      left
      simp only [perform, handBack, EventQueue.requeue]
      split <;> exact member
    | markComplete channel now =>
      left
      simp only [perform, EventQueue.markComplete]
      split
      · split <;> exact member
      · exact member
    | markNativeSteerPending channel eventId =>
      exact Or.inl (EventQueue.mem_withheld_markNativeSteerPending channel eventId member)
    | releaseNativeSteer channel eventId =>
      exact Or.inl (EventQueue.mem_withheld_releaseNativeSteer member kept)
    | removeEvent channel eventId =>
      rcases EventQueue.mem_withheld_removeEvent channel eventId member with stays | taken
      · exact Or.inl stays
      · exact Or.inr (List.mem_append_right _ taken)
    | drainChannel channel =>
      rcases EventQueue.mem_withheld_drainChannel channel member with stays | taken
      · exact Or.inl stays
      · exact Or.inr (List.mem_append_right _ taken)
    | hasFlushableWork now =>
      exact Or.inl (EventQueue.mem_withheld_expireInFlight member kept)
    | extendInFlightDeadline channel now maxTurnSecs =>
      left
      simp only [perform, EventQueue.extendInFlightDeadline]
      split
      · exact member
      · split <;> exact member
    | rehash queue =>
      left
      have same := Map.tally_perm QueuedEvent.itemIn allowed.withheldNativeSteer
      exact (same ▸ member : x ∈ Map.tally QueuedEvent.itemIn queue.withheldNativeSteer)
    | _ => exact Or.inl member
  · right
    cases a with
    | succeed b => exact List.mem_append_left _ gone
    | requeue b now nanos => exact List.mem_append_left _ gone
    | requeuePreserveTimestamps b => exact List.mem_append_left _ gone
    | requeueAsCancelled b reason => exact List.mem_append_left _ gone
    | removeEvent channel eventId => exact List.mem_append_left _ gone
    | drainChannel channel => exact List.mem_append_left _ gone
    | _ => exact gone

/-! ### Runs -/

/-- Accepted ids are distinct, and every accepted item is live, settled or lost. -/
structure Books (s : Harness) (lost : Multiset Item) : Prop where
  distinct : (s.pushed.map (·.event.id)).Nodup
  balanced : s.accepted = s.live + s.settled + lost

theorem books_start (mode : DedupMode) (deadline : Duration) : (start mode deadline).Books 0 where
  distinct := List.nodup_nil
  balanced := rfl

theorem Books.perform {lost : Multiset Item} (books : s.Books lost) (allowed : s.Allowed a) :
    (s.perform a).Books (lost + s.leaked a) where
  distinct := by
    cases a with
    | push event =>
      simp only [Harness.perform]
      split
      next =>
        rw [List.map_append, List.nodup_append]
        refine ⟨books.distinct, by simp, ?_⟩
        intro id old id' new same
        rw [List.map_singleton, List.mem_singleton] at new
        exact allowed (new ▸ same ▸ old)
      next => exact books.distinct
    | _ => exact books.distinct
  balanced := by
    rw [accepted_perform, books.balanced]
    calc _ = (s.live + s.settled + s.entering a) + lost := by abel
      _ = _ := by rw [← balance allowed]; abel

/-- The action does not put a batch back that carries cancelled events: `requeue`
short of the dead-letter limit and `requeue_preserve_timestamps` need
`cancelled_events` to be empty. -/
def KeepsCancelled (s : Harness) : Action → Prop
  | .requeue b _ _ => b.cancelledEvents = [] ∨
      maxRetries < (s.queue.retryCounts.lookup b.channelId).getD 0 + 1
  | .requeuePreserveTimestamps b => b.cancelledEvents = []
  | _ => True

theorem leaked_eq_zero_iff (s : Harness) (a : Action) : s.leaked a = 0 ↔ s.KeepsCancelled a := by
  cases a with
  | requeue b now nanos =>
    simp only [leaked, KeepsCancelled, EventQueue.requeue_fst]
    split
    next exhausted => simp [exhausted]
    next retried => simp [retried, FlushBatch.cancelledItems]
  | requeuePreserveTimestamps b => simp [leaked, KeepsCancelled, FlushBatch.cancelledItems]
  | _ => simp [leaked, KeepsCancelled]

/-- The books of a run: nothing is lost exactly when no action put back a batch
without its cancelled events. -/
theorem books_run {lost : Multiset Item} {actions : List Action} (books : s.Books lost)
    (run : Along perform Allowed s actions) :
    ∃ lost', (actions.foldl perform s).Books lost' ∧
      (lost' = 0 ↔ lost = 0 ∧ Along perform KeepsCancelled s actions) := by
  induction actions generalizing s lost with
  | nil => exact ⟨lost, books, by simp [Along]⟩
  | cons a rest ih =>
    obtain ⟨lost', final, iff⟩ := ih (books.perform run.1) run.2
    refine ⟨lost', final, ?_⟩
    rw [iff, Along, ← leaked_eq_zero_iff, ← and_assoc, ← Multiset.card_eq_zero,
      Multiset.card_add, Nat.add_eq_zero_iff, Multiset.card_eq_zero, Multiset.card_eq_zero]

theorem exists_books {mode : DedupMode} {deadline : Duration} {actions : List Action}
    (run : Along perform Allowed (start mode deadline) actions) :
    ∃ lost, (actions.foldl perform (start mode deadline)).Books lost :=
  (books_run (books_start mode deadline) run).imp fun _ both => both.1

/-! ### No loss -/

/-- Where an accepted event can be: in one of the stores, in an outstanding batch,
trimmed by the cap, or disposed of explicitly. -/
def Accounted (s : Harness) (x : Item) : Prop :=
  x ∈ s.queue.queued ∨ x ∈ s.queue.withheld ∨ x ∈ s.queue.cancelled ∨
    (∃ b ∈ s.outstanding, x ∈ b.eventItems ∨ x ∈ b.cancelledItems) ∨
    x ∈ s.queue.trimmed ∨ x ∈ s.disposed

theorem accounted_iff : s.Accounted x ↔ x ∈ s.live + s.settled := by
  simp only [Accounted, live, settled, inHand, FlushBatch.items, Multiset.mem_add,
    Multiset.mem_coe, List.mem_flatMap, List.mem_append, or_assoc]

/-- In every run, no accepted event has been lost at the end if and only if no
action put a batch back without its cancelled events. -/
theorem accounted_iff_keepsCancelled (mode : DedupMode) (deadline : Duration)
    (actions : List Action) (run : Along perform Allowed (start mode deadline) actions) :
    (∀ e ∈ (actions.foldl perform (start mode deadline)).pushed,
        (actions.foldl perform (start mode deadline)).Accounted e.item) ↔
      Along perform KeepsCancelled (start mode deadline) actions := by
  obtain ⟨lost, books, iff⟩ := books_run (books_start mode deadline) run
  generalize actions.foldl perform (start mode deadline) = final at books
  rw [show Along perform KeepsCancelled (start mode deadline) actions ↔ lost = 0 by simp [iff]]
  have nodup : final.accepted.Nodup := by
    have ids : ((final.pushed.map QueuedEvent.item).map Prod.snd).Nodup := by
      rw [List.map_map]
      exact books.distinct
    exact Multiset.coe_nodup.mpr ids.of_map
  have mem_accepted : ∀ x, x ∈ final.accepted ↔ ∃ e ∈ final.pushed, e.item = x := by
    simp [accepted]
  constructor
  · intro accounted
    -- a lost item is accepted, so it would be accounted for a second time
    refine Multiset.eq_zero_of_forall_notMem fun x member => ?_
    have isAccepted : x ∈ final.accepted := by
      rw [books.balanced]
      exact Multiset.mem_add.mpr (Or.inr member)
    obtain ⟨e, pushed, rfl⟩ := (mem_accepted x).mp isAccepted
    have elsewhere := accounted_iff.mp (accounted e pushed)
    rw [books.balanced, Multiset.nodup_add] at nodup
    exact Multiset.disjoint_left.mp nodup.2.2 elsewhere member
  · rintro rfl e pushed
    rw [accounted_iff, ← add_zero (final.live + final.settled), ← books.balanced, mem_accepted]
    exact ⟨e, pushed, rfl⟩

/-! ### A merged batch that is handed back -/

/-- A mention with the given id in a fixed channel. -/
def sampleEvent (digit : Char) (hex : isLowerHexDigit digit = true) (receivedAt : Instant) :
    QueuedEvent :=
  let id := Hex64.repeated digit hex
  ⟨⟨7⟩, ⟨id, id, 1700000000, 9, [], "hello"⟩, receivedAt, "mention"⟩

def first : QueuedEvent := sampleEvent 'a' (Eq.refl true) 10
def second : QueuedEvent := sampleEvent 'b' (Eq.refl true) 40

def defaultStart : Harness :=
  start .queue (Duration.fromSecs defaultInFlightDeadlineSecs)

/-- The first event is cancelled and comes back merged into a batch with the
second; `handBack` says what then happens to the merged batch. -/
def mergedRun (handBack : FlushBatch → Action) : List Action :=
  let batch : FlushBatch := ⟨⟨7⟩, [first.toBatchEvent], [], none⟩
  let merged : FlushBatch := ⟨⟨7⟩, [second.toBatchEvent], [first.toBatchEvent], some .steer⟩
  [.push first, .flushNext 20, .requeueAsCancelled batch .steer, .markComplete ⟨7⟩ 30,
    .push second, .flushNext 50, handBack merged, .markComplete ⟨7⟩ 60]

/-- A second cancel keeps both events. -/
theorem accounted_second_cancel :
    Along perform Allowed defaultStart (mergedRun (.requeueAsCancelled · .steer)) ∧
      ∀ e ∈ ((mergedRun (.requeueAsCancelled · .steer)).foldl perform defaultStart).pushed,
        ((mergedRun (.requeueAsCancelled · .steer)).foldl perform defaultStart).Accounted
          e.item := by
  have run : Along perform Allowed defaultStart (mergedRun (.requeueAsCancelled · .steer)) := by
    simp only [mergedRun, Along, Allowed]
    refine ⟨?_, ?_, ?_, ?_, ?_, ?_, ?_, ?_, ?_⟩ <;> decide
  refine ⟨run, (accounted_iff_keepsCancelled .queue _ _ run).mpr ?_⟩
  simp [mergedRun, Along, KeepsCancelled]

/-- When no agent is free for the merged batch, the cancelled event is lost. -/
theorem cancelled_event_lost :
    ¬ ∀ (deadline : Duration) (actions : List Action),
      Along perform Allowed (start .queue deadline) actions →
        ∀ e ∈ (actions.foldl perform (start .queue deadline)).pushed,
          (actions.foldl perform (start .queue deadline)).Accounted e.item := by
  intro safe
  have run : Along perform Allowed defaultStart (mergedRun .requeuePreserveTimestamps) := by
    simp only [mergedRun, Along, Allowed]
    refine ⟨?_, ?_, ?_, ?_, ?_, ?_, ?_, ?_, ?_⟩ <;> decide
  have pushed : first ∈ ((mergedRun .requeuePreserveTimestamps).foldl perform defaultStart).pushed :=
    by decide
  have accounted := safe _ _ run first pushed
  rw [accounted_iff] at accounted
  revert accounted
  decide

/-! ### No double delivery -/

variable {lost : Multiset Item}

theorem Books.nodup_ids (books : s.Books lost) : (s.accepted.map Prod.snd).Nodup := by
  have ids : s.accepted.map Prod.snd = ↑(s.pushed.map (·.event.id)) := by
    rw [accepted, Multiset.map_coe, List.map_map]
    rfl
  rw [ids]
  exact Multiset.coe_nodup.mpr books.distinct

theorem Books.nodup_live (books : s.Books lost) : (s.live.map Prod.snd).Nodup := by
  have ids := books.nodup_ids
  rw [books.balanced, Multiset.map_add, Multiset.map_add, Multiset.nodup_add,
    Multiset.nodup_add] at ids
  exact ids.1.1

theorem Books.not_inHand (books : s.Books lost) (member : x ∈ s.queue.withheld ∨ x ∈ s.disposed) :
    x.2 ∉ s.inHand.map Prod.snd := by
  intro handed
  have ids := books.nodup_ids
  have parts : s.accepted = s.inHand + (s.queue.withheld + ↑s.disposed +
      (s.queue.queued + s.queue.cancelled + ↑s.queue.trimmed + lost)) := by
    rw [books.balanced, live, settled]
    abel
  rw [parts, Multiset.map_add, Multiset.nodup_add] at ids
  refine Multiset.disjoint_left.mp ids.2.2 handed (Multiset.mem_map_of_mem _ ?_)
  rw [Multiset.mem_add, Multiset.mem_add, Multiset.mem_coe]
  exact Or.inl member

theorem delivered_perform (s : Harness) (a : Action) :
    (s.perform a).delivered = s.delivered ∨
      ∃ b ∈ (s.perform a).outstanding, (s.perform a).delivered = s.delivered ++ [b] := by
  cases a with
  | flushNext now =>
    cases flushed : (s.queue.flushNext now).1 with
    | none => exact Or.inl (by simp [perform, flushed])
    | some b => exact Or.inr ⟨b, by simp [perform, flushed], by simp [perform, flushed]⟩
  | _ => exact Or.inl rfl

/-- An invariant that keeps an id out of the outstanding batches keeps it out of
every batch returned from then on. -/
private theorem barred_run {P : Harness → Action → Prop} {I : Harness → Prop} {id : EventId}
    (step : ∀ t a, P t a → I t → I (t.perform a))
    (bars : ∀ t, I t → id ∉ t.inHand.map Prod.snd) {later : List Action}
    (run : Along perform P s later) (holds : I s) :
    ∃ new, (later.foldl perform s).delivered = s.delivered ++ new ∧ ∀ b ∈ new, id ∉ b.ids := by
  induction later generalizing s with
  | nil => exact ⟨[], by simp, by simp⟩
  | cons a rest ih =>
    have after := step s a run.1 holds
    obtain ⟨new, extended, barred⟩ := ih run.2 after
    rcases delivered_perform s a with same | ⟨b, outstanding, grown⟩
    · exact ⟨new, by rw [List.foldl_cons, extended, same], barred⟩
    · refine ⟨b :: new, by rw [List.foldl_cons, extended, grown]; simp, ?_⟩
      intro b' member
      rcases List.mem_cons.mp member with rfl | later
      · intro carried
        obtain ⟨x, inside, rfl⟩ := List.mem_map.mp carried
        exact bars _ after (Multiset.mem_map_of_mem _
          (Multiset.mem_coe.mpr (List.mem_flatMap.mpr ⟨b', outstanding, inside⟩)))
      · exact barred b' later

/-- An accepted id that is no longer live. -/
def Absent (id : EventId) (s : Harness) : Prop :=
  id ∈ s.pushed.map (·.event.id) ∧ id ∉ s.live.map Prod.snd

theorem pushed_prefix_perform (s : Harness) (a : Action) : s.pushed <+: (s.perform a).pushed := by
  cases a with
  | push event =>
    simp only [perform]
    split
    · exact List.prefix_append _ _
    · exact List.prefix_rfl
  | _ => exact List.prefix_rfl

theorem Absent.perform {id : EventId} (absent : Absent id s) (allowed : s.Allowed a) :
    Absent id (s.perform a) := by
  refine ⟨((pushed_prefix_perform s a).map _).subset absent.1, fun member => ?_⟩
  have came : id ∈ (s.live + s.entering a).map Prod.snd :=
    Multiset.mem_of_le (Multiset.map_le_map (live_perform_le allowed)) member
  rw [Multiset.map_add, Multiset.mem_add] at came
  rcases came with old | new
  · exact absent.2 old
  · cases a with
    | push event =>
      simp only [entering] at new
      split at new
      · have same : id = event.event.id := by simpa [QueuedEvent.item, QueuedEvent.itemIn] using new
        exact allowed (same ▸ absent.1)
      · simp at new
    | _ => simp [entering] at new

/-- `remove_event` is called while the event is neither in an outstanding batch nor
among the cancelled events: the two places it does not look at. -/
def RemovesInTime (s : Harness) : Action → Prop
  | .removeEvent channel eventId =>
    ∀ x ∈ s.queue.cancelled + s.inHand, ¬ (x.1 = channel ∧ x.2.toHex = eventId)
  | _ => True

private theorem not_mem_removed_row (m : Map Uuid (List QueuedEvent)) (x : Item) :
    x ∉ Map.tally QueuedEvent.itemIn (m.filterRow x.1 fun qe => decide (qe.event.id.toHex ≠ x.2.toHex)) := by
  rw [Map.mem_tally_iff]
  rintro ⟨k, qe, inside, same⟩
  obtain rfl : k = x.1 := congrArg Prod.fst same
  have named : qe.event.id = x.2 := congrArg Prod.snd same
  rw [Map.row_filterRow, if_pos rfl] at inside
  have other := (List.mem_filter.mp inside).2
  simp [named] at other

theorem absent_removeEvent (books : s.Books lost) {e : QueuedEvent} (pushed : e ∈ s.pushed)
    (inTime : s.RemovesInTime (.removeEvent e.channelId e.event.id.toHex)) :
    Absent e.event.id (s.perform (.removeEvent e.channelId e.event.id.toHex)) := by
  have allowed : s.Allowed (.removeEvent e.channelId e.event.id.toHex) := trivial
  refine ⟨List.mem_map_of_mem pushed, fun member => ?_⟩
  obtain ⟨x, isLive, sameId⟩ := Multiset.mem_map.mp member
  -- only the event itself has its id
  have wasLive : x ∈ s.live := by
    simpa [entering] using Multiset.mem_of_le (live_perform_le allowed) isLive
  have isAccepted : x ∈ s.accepted := by
    rw [books.balanced, Multiset.mem_add, Multiset.mem_add]
    exact Or.inl (Or.inl wasLive)
  obtain ⟨e', pushed', rfl⟩ : ∃ e' ∈ s.pushed, e'.item = x := by simpa [accepted] using isAccepted
  have same : e' = e := List.inj_on_of_nodup_map books.distinct pushed' pushed sameId
  subst same
  simp only [live, perform, Multiset.mem_add] at isLive
  rcases isLive with ((queued | withheld) | cancelled) | handed
  · exact not_mem_removed_row s.queue.queues e'.item queued
  · exact not_mem_removed_row s.queue.withheldNativeSteer e'.item withheld
  · exact inTime _ (Multiset.mem_add.mpr (Or.inl cancelled)) ⟨rfl, rfl⟩
  · exact inTime _ (Multiset.mem_add.mpr (Or.inr handed)) ⟨rfl, rfl⟩

private theorem barred_of_new {id : EventId} {old new all : List FlushBatch} (split : all = old ++ new)
    (barred : ∀ b ∈ new, id ∉ b.ids) : ∀ b ∈ all.drop old.length, id ∉ b.ids := by
  subst split
  simpa using barred

/-- In every run in which each `remove_event` comes in time, ids occur at most once
among the stores and the outstanding batches; a withheld event is in no batch
until it is moved back; and a removed event is in no later batch. -/
theorem delivered_at_most_once (mode : DedupMode) (deadline : Duration)
    (before later : List Action)
    (run : Along perform Allowed (start mode deadline) (before ++ later))
    (inTime : Along perform RemovesInTime (start mode deadline) (before ++ later)) :
    let middle := before.foldl perform (start mode deadline)
    let final := later.foldl perform middle
    (final.live.map Prod.snd).Nodup ∧
      (∀ x ∈ middle.queue.withheld, Along perform (NotMovedBack x) middle later →
        ∀ b ∈ final.delivered.drop middle.delivered.length, x.2 ∉ b.ids) ∧
      (∀ e ∈ middle.pushed,
        later.head? = some (.removeEvent e.channelId e.event.id.toHex) →
          ∀ b ∈ final.delivered.drop middle.delivered.length, e.event.id ∉ b.ids) := by
  intro middle final
  obtain ⟨runBefore, runLater⟩ := Along.append_iff.mp run
  obtain ⟨lost, books⟩ := exists_books runBefore
  obtain ⟨lost', finalBooks, _⟩ := books_run books runLater
  refine ⟨finalBooks.nodup_live, fun x member kept => ?_, fun e pushed removed => ?_⟩
  · -- along the rest of the run the event is withheld or disposed of
    obtain ⟨new, extended, barred⟩ := barred_run
      (I := fun t => (∃ lost, t.Books lost) ∧ (x ∈ t.queue.withheld ∨ x ∈ t.disposed))
      (fun t a both holds => ⟨holds.1.imp' _ fun _ => (·.perform both.1),
        withheld_or_disposed both.1 both.2 holds.2⟩)
      (fun t holds => holds.1.elim fun _ books => books.not_inHand holds.2)
      (runLater.and kept) ⟨⟨lost, books⟩, Or.inl member⟩
    exact barred_of_new extended barred
  · cases later with
    | nil => cases removed
    | cons a rest =>
      obtain rfl : a = .removeEvent e.channelId e.event.id.toHex := by simpa using removed
      have timely := (Along.append_iff.mp inTime).2.1
      obtain ⟨new, extended, barred⟩ := barred_run
        (fun t a allowed absent => Absent.perform absent allowed)
        (fun t absent handed => absent.2 (by
          rw [live, Multiset.map_add]
          exact Multiset.mem_add.mpr (Or.inr handed)))
        runLater.2 (absent_removeEvent books pushed timely)
      exact barred_of_new extended barred

/-- The second event arrives while the first is being worked on and is withheld
for a native steer. -/
def steerRun : List Action :=
  [.push first, .flushNext 20, .push second,
    .markNativeSteerPending ⟨7⟩ second.event.id.toHex]

/-- The steer succeeds, the first batch fails, and the next batch is without the
second event. -/
theorem steered_event_not_redelivered :
    let later : List Action := [.removeEvent ⟨7⟩ second.event.id.toHex,
      .requeue ⟨⟨7⟩, [first.toBatchEvent], [], none⟩ 50 0, .markComplete ⟨7⟩ 60,
      .flushNext 5000000000]
    ∀ b ∈ ((later.foldl perform (steerRun.foldl perform defaultStart)).delivered.drop
        (steerRun.foldl perform defaultStart).delivered.length), second.event.id ∉ b.ids := by
  intro later
  have run : Along perform Allowed defaultStart (steerRun ++ later) := by
    simp only [steerRun, later, List.cons_append, List.nil_append, Along, Allowed]
    refine ⟨?_, ?_, ?_, ?_, ?_, ?_, ?_, ?_, ?_⟩ <;> decide
  have inTime : Along perform RemovesInTime defaultStart (steerRun ++ later) := by
    simp only [steerRun, later, List.cons_append, List.nil_append, Along, RemovesInTime]
    refine ⟨?_, ?_, ?_, ?_, ?_, ?_, ?_, ?_, ?_⟩ <;> decide
  exact (delivered_at_most_once .queue _ steerRun later run inTime).2.2 second (by decide) rfl

/-- The steered turn hangs: the withheld event is recovered, dispatched and
cancelled before the late acknowledgement removes it, and the removal does not
reach the cancelled events. -/
theorem removed_event_redelivered :
    ¬ ∀ (deadline : Duration) (before later : List Action),
      Along perform Allowed (start .queue deadline) (before ++ later) →
        let middle := before.foldl perform (start .queue deadline)
        let final := later.foldl perform middle
        (final.live.map Prod.snd).Nodup ∧
          (∀ x ∈ middle.queue.withheld, Along perform (NotMovedBack x) middle later →
            ∀ b ∈ final.delivered.drop middle.delivered.length, x.2 ∉ b.ids) ∧
          (∀ e ∈ middle.pushed,
            later.head? = some (.removeEvent e.channelId e.event.id.toHex) →
              ∀ b ∈ final.delivered.drop middle.delivered.length, e.event.id ∉ b.ids) := by
  intro safe
  let recovered : FlushBatch := ⟨⟨7⟩, [second.toBatchEvent], [], none⟩
  let hung : List Action := steerRun ++ [Action.flushNext 7300000000020,
    Action.requeueAsCancelled recovered .interrupt, Action.markComplete ⟨7⟩ 7300000000030]
  let later : List Action := [.removeEvent ⟨7⟩ second.event.id.toHex, .flushNext 7300000000040]
  have run : Along perform Allowed defaultStart (hung ++ later) := by
    simp only [hung, steerRun, later, List.cons_append, List.nil_append, Along, Allowed]
    refine ⟨?_, ?_, ?_, ?_, ?_, ?_, ?_, ?_, ?_, ?_⟩ <;> decide
  have barred := (safe _ hung later run).2.2 second (by decide) rfl
  revert barred
  decide

end Harness

end Acp
