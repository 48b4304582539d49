import Buzz.Db.Threads
import Buzz.Lib.Table

/-!
# One root for a thread

What the rows of `thread_metadata` say about each other, and when it stays true. A reply goes
astray in two ways. Its parent has no row of its own although its tags name another root, so that
the parent gets the row of a root; or its root is not found, so that the row that is meant to make
sure of the root has the time of the parent and is a second one.
-/
namespace Db

open Lib Nostr Relay

namespace ThreadStore

def stored (s : ThreadStore) (community : CommunityId) (id : EventId) : Bool :=
  s.events.any fun row => row.communityId = community ∧ row.event.id = id

/-- A new reply to a parent in its channel whose root is not the parent, and either the parent
has no row, or the root is not found and has another time than the parent. -/
def strays (ids : Catalogue) (s : ThreadStore) : ThreadAction → Bool
  | .ingest community id (some channel) luck =>
    requiresHChannelScope (ids.event id).kind && !s.stored community id &&
      match lastMarked "reply" (ids.event id) with
      | none => false
      | some parent =>
        let root := (lastMarked "root" (ids.event id)).getD parent
        root ≠ parent && (s.getEventById community parent).any fun parentRow =>
          parentRow.channelId = some channel &&
            match s.threads.find? (·.isAbout community parent) with
            | none => namedRoot parentRow.event = some root
            | some row => row.rootEventId = some root && row.depth < 100 &&
              !(luck.rootLookup && (s.getEventById community root).isSome) &&
              asI64 (ids.event root).createdAt ≠ asI64 (ids.event parent).createdAt
  | _ => false

end ThreadStore

/-- Threads never cross channels and have one root. -/
structure OneRoot (s : ThreadStore) : Prop where
  parent : ∀ row ∈ s.threads, ∀ parent ∈ row.parentEventId,
    ∃ parentRow ∈ s.threads, parentRow.communityId = row.communityId ∧ parentRow.eventId = parent ∧
      row.rootEventId = some (parentRow.rootEventId.getD parent) ∧
      row.depth = parentRow.depth + 1 ∧ row.depth ≤ 100
  ancestors : ∀ row ∈ s.threads, ∀ id, row.parentEventId = some id ∨ row.rootEventId = some id →
    ∀ event ∈ s.events, event.communityId = row.communityId → event.event.id = id →
      event.channelId = some row.channelId
  unique : ∀ row ∈ s.threads, ∀ row' ∈ s.threads, row.communityId = row'.communityId →
    row.eventId = row'.eventId → row = row'
  channel : ∀ row ∈ s.threads, ∀ event ∈ s.events, event.communityId = row.communityId →
    event.event.id = row.eventId → event.channelId = some row.channelId

/-! ### Lineages -/

/-- A row without its counters. -/
abbrev Lineage := CommunityId × ThreadMetadataParams

def ThreadMetadata.lineage (row : ThreadMetadata) : Lineage :=
  (row.communityId, row.toThreadMetadataParams)

namespace Lineage

/-- The event that it is the lineage of. -/
def subject (a : Lineage) : CommunityId × EventId := (a.1, a.2.eventId)

def key (a : Lineage) : CommunityId × Int × EventId := (a.1, a.2.eventCreatedAt, a.2.eventId)

end Lineage

def lineages (rows : List ThreadMetadata) : List Lineage := rows.map ThreadMetadata.lineage

theorem lineages_updateThread {rows : List ThreadMetadata} {community : CommunityId} {id : EventId}
    {set : ThreadMetadata → ThreadMetadata} (kept : ∀ row, (set row).lineage = row.lineage) :
    lineages (updateThread rows community id set) = lineages rows := by
  unfold lineages updateThread
  rw [List.map_map]
  refine List.map_congr_left fun row _ => ?_
  rw [Function.comp_apply]
  split
  · -- The counters are no part of a lineage.
    exact kept row
  · rfl

theorem any_key_iff {rows : List ThreadMetadata} {key : CommunityId × Int × EventId} :
    rows.any (·.key = key) = true ↔ ∃ a ∈ lineages rows, a.key = key := by
  simp only [List.any_eq_true, decide_eq_true_eq, lineages, List.mem_map]
  constructor
  · rintro ⟨row, member, same⟩
    exact ⟨row.lineage, ⟨row, member, rfl⟩, same⟩
  · rintro ⟨_, ⟨row, member, rfl⟩, same⟩
    exact ⟨row, member, same⟩

theorem addThread_of_key {rows : List ThreadMetadata} {row : ThreadMetadata}
    (taken : ∃ a ∈ lineages rows, a.key = row.key) : addThread rows row = rows := by
  unfold addThread
  rw [if_pos (any_key_iff.mpr taken)]

theorem lineages_addThread {rows : List ThreadMetadata} {row : ThreadMetadata}
    (free : ∀ a ∈ lineages rows, a.key ≠ row.key) :
    lineages (addThread rows row) = lineages rows ++ [row.lineage] := by
  unfold addThread
  rw [if_neg]
  · exact List.map_append
  · intro taken
    obtain ⟨a, member, same⟩ := any_key_iff.mp taken
    exact free a member same

private theorem lineages_tellAncestors {rows : List ThreadMetadata} {community : CommunityId}
    {m : ThreadMetadataParams} {parent root : EventId} (now : Int)
    (isParent : m.parentEventId = some parent) (isRoot : m.rootEventId = some root)
    (rooted : root ≠ parent → ∃ a ∈ lineages rows,
      a.key = (community, m.rootEventCreatedAt.getD m.eventCreatedAt, root)) :
    lineages (tellAncestors rows community m now) =
      lineages (addThread rows (.stub community parent
        (m.parentEventCreatedAt.getD m.eventCreatedAt) m.channelId)) := by
  -- The row that would make sure of the root finds its key taken.
  have taken (other : root ≠ parent) : ∃ a ∈ lineages (addThread rows (.stub community parent
      (m.parentEventCreatedAt.getD m.eventCreatedAt) m.channelId)),
      a.key = (community, m.rootEventCreatedAt.getD m.eventCreatedAt, root) := by
    obtain ⟨a, member, same⟩ := rooted other
    refine ⟨a, ?_, same⟩
    unfold addThread
    split
    · exact member
    · unfold lineages
      rw [List.map_append]
      exact List.mem_append_left _ member
  simp only [tellAncestors, isParent, isRoot]
  rw [lineages_updateThread, lineages_updateThread]
  · split
    next other => rw [addThread_of_key (taken other)]
    next => rfl
  · exact fun _ => rfl
  · exact fun _ => rfl

/-! ### Threads as lineages -/

/-- Every lineage has its event, and those of its parent and its root, in its channel. -/
structure Threaded (events : List EventRow) (lines : List Lineage) : Prop where
  unique : (lines.map Lineage.subject).Nodup
  stored : ∀ a ∈ lines, ∃ row ∈ events, row.communityId = a.1 ∧ row.event.id = a.2.eventId ∧
    row.channelId = some a.2.channelId ∧ row.createdAt = a.2.eventCreatedAt
  reply : ∀ a ∈ lines, ∀ parent ∈ a.2.parentEventId, ∃ b ∈ lines, b.subject = (a.1, parent) ∧
    b.2.channelId = a.2.channelId ∧ a.2.rootEventId = some (b.2.rootEventId.getD parent) ∧
    a.2.depth = b.2.depth + 1 ∧ a.2.depth ≤ 100
  root : ∀ a ∈ lines, ∀ root ∈ a.2.rootEventId, ∃ b ∈ lines, b.subject = (a.1, root) ∧
    b.2.channelId = a.2.channelId

namespace Threaded

variable {events events' : List EventRow} {lines lines' : List Lineage}

theorem keep (threaded : Threaded events lines) (kept : ∀ row ∈ events, ∃ row' ∈ events',
    row'.communityId = row.communityId ∧ row'.event.id = row.event.id ∧
      row'.channelId = row.channelId ∧ row'.createdAt = row.createdAt) : Threaded events' lines :=
  { threaded with
    stored := fun a member => by
      obtain ⟨row, stored, community, id, channel, createdAt⟩ := threaded.stored a member
      obtain ⟨row', stored', community', id', channel', createdAt'⟩ := kept row stored
      exact ⟨row', stored', community'.trans community, id'.trans id, channel'.trans channel,
        createdAt'.trans createdAt⟩ }

theorem perm (threaded : Threaded events lines) (same : lines.Perm lines') :
    Threaded events lines' where
  unique := (same.map _).nodup_iff.mp threaded.unique
  stored a member := threaded.stored a (same.mem_iff.mpr member)
  reply a member parent given := by
    obtain ⟨b, member', facts⟩ := threaded.reply a (same.mem_iff.mpr member) parent given
    exact ⟨b, same.mem_iff.mp member', facts⟩
  root a member root given := by
    obtain ⟨b, member', facts⟩ := threaded.root a (same.mem_iff.mpr member) root given
    exact ⟨b, same.mem_iff.mp member', facts⟩

theorem add (threaded : Threaded events lines) {a : Lineage}
    (fresh : ∀ b ∈ lines, b.subject ≠ a.subject)
    (stored : ∃ row ∈ events, row.communityId = a.1 ∧ row.event.id = a.2.eventId ∧
      row.channelId = some a.2.channelId ∧ row.createdAt = a.2.eventCreatedAt)
    (reply : ∀ parent ∈ a.2.parentEventId, ∃ b ∈ lines, b.subject = (a.1, parent) ∧
      b.2.channelId = a.2.channelId ∧ a.2.rootEventId = some (b.2.rootEventId.getD parent) ∧
      a.2.depth = b.2.depth + 1 ∧ a.2.depth ≤ 100)
    (root : ∀ root ∈ a.2.rootEventId, ∃ b ∈ lines, b.subject = (a.1, root) ∧
      b.2.channelId = a.2.channelId) : Threaded events (lines ++ [a]) where
  unique := by
    rw [List.map_append, List.nodup_append]
    refine ⟨threaded.unique, List.pairwise_singleton _ _, ?_⟩
    rintro _ old _ new same
    obtain ⟨b, member, rfl⟩ := List.mem_map.mp old
    rw [List.map_singleton, List.mem_singleton] at new
    exact fresh b member (same.trans new)
  stored b member := by
    rcases List.mem_append.mp member with old | new
    · exact threaded.stored b old
    · rw [List.mem_singleton.mp new]
      exact stored
  reply b member parent given := by
    -- Ancestors are looked for among the old lineages.
    have found : ∃ b' ∈ lines, b'.subject = (b.1, parent) ∧ b'.2.channelId = b.2.channelId ∧
        b.2.rootEventId = some (b'.2.rootEventId.getD parent) ∧
        b.2.depth = b'.2.depth + 1 ∧ b.2.depth ≤ 100 := by
      rcases List.mem_append.mp member with old | new
      · exact threaded.reply b old parent given
      · rw [List.mem_singleton.mp new] at given ⊢
        exact reply parent given
    obtain ⟨b', old, facts⟩ := found
    exact ⟨b', List.mem_append_left _ old, facts⟩
  root b member r given := by
    have found : ∃ b' ∈ lines, b'.subject = (b.1, r) ∧ b'.2.channelId = b.2.channelId := by
      rcases List.mem_append.mp member with old | new
      · exact threaded.root b old r given
      · rw [List.mem_singleton.mp new] at given ⊢
        exact root r given
    obtain ⟨b', old, facts⟩ := found
    exact ⟨b', List.mem_append_left _ old, facts⟩

end Threaded

/-- The events are what their ids name, each of them once. -/
structure Cataloged (ids : Catalogue) (events : List EventRow) : Prop where
  event : ∀ row ∈ events, row.event = ids.event row.event.id ∧
    fromTimestamp (asI64 row.event.createdAt) = some row.createdAt
  keys : (events.map EventRow.key).Nodup

namespace Cataloged

variable {ids : Catalogue} {events : List EventRow} {row row' : EventRow}

theorem createdAt (cataloged : Cataloged ids events) (member : row ∈ events) :
    row.createdAt = asI64 (ids.event row.event.id).createdAt := by
  obtain ⟨same, time⟩ := cataloged.event row member
  rw [← same]
  exact (fromTimestamp_eq_some.mp time).1.symm

theorem eq_of_id (cataloged : Cataloged ids events) (member : row ∈ events) (member' : row' ∈ events)
    (community : row.communityId = row'.communityId) (id : row.event.id = row'.event.id) :
    row = row' := by
  refine Table.eq_of_key cataloged.keys member member' ?_
  have time : row.createdAt = row'.createdAt := by
    rw [cataloged.createdAt member, cataloged.createdAt member', id]
  simp only [EventRow.key, EventRow.stamp, community, id, time]

end Cataloged

/-- What the steps keep that do not stray. -/
structure Tidy (ids : Catalogue) (s : ThreadStore) : Prop where
  events : Cataloged ids s.events
  threads : Threaded s.events (lineages s.threads)

/-! ### What the steps read -/

namespace ThreadStore

variable {s : ThreadStore} {community : CommunityId} {id : EventId}

theorem getEventById_eq_some {row : EventRow} (found : s.getEventById community id = some row) :
    row ∈ s.events ∧ row.communityId = community ∧ row.event.id = id := by
  have member := List.argmax_mem (Option.mem_def.mpr found)
  rw [List.mem_filter, decide_eq_true_eq] at member
  exact ⟨member.1, member.2.1, member.2.2.1⟩

theorem getThreadMetadataByEvent_eq_some {pick : Nat} {row : ThreadMetadata}
    (found : s.getThreadMetadataByEvent community id pick = some row) :
    row ∈ s.threads ∧ row.communityId = community ∧ row.eventId = id := by
  have member := List.mem_of_getElem? found
  rw [List.mem_filter, ThreadMetadata.isAbout, decide_eq_true_eq] at member
  exact member

theorem getThreadMetadataByEvent_eq_none {pick : Nat}
    (absent : s.getThreadMetadataByEvent community id pick = none) {row : ThreadMetadata}
    (member : row ∈ s.threads) : row.isAbout community id = false := by
  rw [getThreadMetadataByEvent, List.getElem?_eq_none_iff] at absent
  have empty : (s.threads.filter (·.isAbout community id)).length = 0 := by
    by_contra some
    exact absurd (Nat.mod_lt pick (Nat.pos_of_ne_zero some)) (Nat.not_lt.mpr absent)
  have none := List.filter_eq_nil_iff.mp (List.length_eq_zero_iff.mp empty) row member
  simpa using none

theorem stored_iff : s.stored community id = true ↔
    ∃ row ∈ s.events, row.communityId = community ∧ row.event.id = id := by
  simp only [stored, List.any_eq_true, decide_eq_true_eq]

end ThreadStore

theorem Threaded.eq_of_subject {events : List EventRow} {rows : List ThreadMetadata}
    (threaded : Threaded events (lineages rows)) {row row' : ThreadMetadata} (member : row ∈ rows)
    (member' : row' ∈ rows) (community : row.communityId = row'.communityId)
    (id : row.eventId = row'.eventId) : row = row' := by
  have nodup : (rows.map fun row => row.lineage.subject).Nodup := by
    have unique := threaded.unique
    rwa [lineages, List.map_map] at unique
  refine Table.eq_of_key nodup member member' ?_
  simp only [ThreadMetadata.lineage, Lineage.subject, community, id]

/-! ### What a step does -/

section

variable {s s' : ThreadStore} {community : CommunityId} {event : Event} {luck : Luck}

/-- The row of `events` that an accepted event gets. -/
def EventRow.ofEvent (community : CommunityId) (event : Event) (channelId : Option Uuid)
    (createdAt : Int) : EventRow :=
  { communityId := community, event, createdAt, channelId, dTag := extractDTag event }

theorem insert_eq_ok {channelId : Option Uuid} {threadMeta : Option ThreadMetadataParams} {now : Int}
    {isNew : Bool} (inserted : insertEventWithThreadMetadata s community event channelId threadMeta now =
      .ok (s', isNew)) :
    ∃ createdAt, fromTimestamp (asI64 event.createdAt) = some createdAt ∧
      (s' = s ∨ (∀ row ∈ s.events,
          row.key ≠ (EventRow.ofEvent community event channelId createdAt).key) ∧
        s'.events = s.events ++ [EventRow.ofEvent community event channelId createdAt] ∧
        s'.threads = threadMeta.elim s.threads fun m => insertThread s.threads community m now) := by
  simp only [insertEventWithThreadMetadata, bind_eq_ok, ensure_eq_ok, okOr_eq_ok] at inserted
  obtain ⟨_, _, _, _, createdAt, time, inserted⟩ := inserted
  refine ⟨createdAt, time, ?_⟩
  split at inserted
  next =>
    cases inserted
    exact Or.inl rfl
  next free =>
    cases inserted
    refine Or.inr ⟨fun row member same => free ?_, rfl, ?_⟩
    · exact List.any_eq_true.mpr ⟨row, member, decide_eq_true same⟩
    · cases threadMeta with
      | none => rfl
      | some m => rfl

/-- What a resolved ancestry has been read off. -/
structure Resolved (s : ThreadStore) (community : CommunityId) (luck : Luck) (event : Event)
    (channel : Uuid) (parent : EventId) (parentRow : EventRow) (m : ThreadMetadataParams) : Prop where
  reply : lastMarked "reply" event = some parent
  found : s.getEventById community parent = some parentRow
  inChannel : parentRow.channelId = some channel
  eventId : m.eventId = event.id
  eventCreatedAt : m.eventCreatedAt = instant event luck.now
  channelId : m.channelId = channel
  parentId : m.parentEventId = some parent
  parentCreatedAt : m.parentEventCreatedAt = some (instant parentRow.event luck.now)
  rootId : m.rootEventId = some ((lastMarked "root" event).getD parent)
  ancestry : (∃ row, s.getThreadMetadataByEvent community parent luck.pick = some row ∧
      (lastMarked "root" event).getD parent = row.rootEventId.getD parent ∧
      m.depth = row.depth + 1 ∧ m.depth ≤ 100 ∧
      m.rootEventCreatedAt = some (rootCreated s community luck
        ((lastMarked "root" event).getD parent) (instant parentRow.event luck.now))) ∨
    s.getThreadMetadataByEvent community parent luck.pick = none ∧
      (lastMarked "root" event).getD parent = (namedRoot parentRow.event).getD parent ∧
      ((lastMarked "root" event).getD parent = parent → m.depth = 1)

theorem resolve_eq_ok {channel : Uuid} {m : ThreadMetadataParams}
    (resolved : resolveNip10ThreadMeta s community luck event channel = .ok (some m)) :
    ∃ parent parentRow, Resolved s community luck event channel parent parentRow m := by
  unfold resolveNip10ThreadMeta at resolved
  cases reply : lastMarked "reply" event with
  | none =>
    rw [reply] at resolved
    cases resolved
  | some parent =>
    rw [reply] at resolved
    simp only [bind_eq_ok, okOr_eq_ok] at resolved
    obtain ⟨parentRow, found, _, inChannel, ⟨root, rootCreatedAt, depth⟩, traced, made⟩ := resolved
    obtain rfl := Option.some.inj (Except.ok.inj made)
    -- A parent without a channel is refused.
    have channel' : parentRow.channelId = some channel := by
      unfold checkParentChannel at inChannel
      split at inChannel
      next parentChannel here =>
        rw [here, ensure_eq_ok.mp inChannel]
      next => cases inChannel
    -- The client's root has been compared with the one that the parent leads to.
    refine ⟨parent, parentRow, reply, found, channel', rfl, rfl, rfl, rfl, rfl, ?_, ?_⟩
    · unfold ancestry at traced
      split at traced
      next row _ =>
        simp only [bind_eq_ok, ensure_eq_ok] at traced
        obtain ⟨_, same, _, _, traced⟩ := traced
        cases traced
        exact congrArg some same.symm
      next =>
        simp only [bind_eq_ok, ensure_eq_ok] at traced
        obtain ⟨_, same, traced⟩ := traced
        split at traced
        next => cases traced; exact congrArg some same.symm
        next => cases traced; exact congrArg some same.symm
    · unfold ancestry at traced
      split at traced
      next row here =>
        simp only [bind_eq_ok, ensure_eq_ok] at traced
        obtain ⟨_, same, _, shallow, traced⟩ := traced
        cases traced
        exact Or.inl ⟨row, here, same, rfl, Int.not_lt.mp shallow, by rw [same]⟩
      next absent =>
        simp only [bind_eq_ok, ensure_eq_ok] at traced
        obtain ⟨_, same, traced⟩ := traced
        refine Or.inr ⟨absent, same, fun top => ?_⟩
        rw [if_pos (same.symm.trans top)] at traced
        cases traced
        rfl

end

/-! ### A new event -/

section

variable {ids : Catalogue} {s : ThreadStore} {community : CommunityId} {luck : Luck}
  {channel : Uuid} {parent : EventId} {parentRow : EventRow} {id : EventId}
  {m : ThreadMetadataParams}

theorem Cataloged.instant_eq {events : List EventRow} {row : EventRow}
    (cataloged : Cataloged ids events) (member : row ∈ events) (now : Int) :
    instant row.event now = row.createdAt := by
  rw [instant, (cataloged.event row member).2, Option.getD_some]

theorem Tidy.lineage_key (tidy : Tidy ids s) {a : Lineage} (member : a ∈ lineages s.threads) :
    a.key = (a.1, asI64 (ids.event a.2.eventId).createdAt, a.2.eventId) := by
  obtain ⟨row, stored, _, sameId, _, time⟩ := tidy.threads.stored a member
  rw [Lineage.key, ← time, tidy.events.createdAt stored, sameId]

theorem Tidy.fresh (tidy : Tidy ids s) (new : s.stored community id = false) {a : Lineage}
    (member : a ∈ lineages s.threads) : a.subject ≠ (community, id) := by
  rintro same
  obtain ⟨row, stored, community', sameId, _⟩ := tidy.threads.stored a member
  have here : s.stored community id = true := ThreadStore.stored_iff.mpr
    ⟨row, stored, community'.trans (congrArg Prod.fst same), sameId.trans (congrArg Prod.snd same)⟩
  rw [new] at here
  cases here

/-- The root, if it is another one than the parent, is found with its own time or with that of
the parent, which is the same then. -/
private theorem rootCreated_eq (tidy : Tidy ids s) {root : EventId} {parentCreated : Int}
    (settled : luck.rootLookup = true ∧ (s.getEventById community root).isSome = true ∨
      parentCreated = asI64 (ids.event root).createdAt) :
    rootCreated s community luck root parentCreated = asI64 (ids.event root).createdAt := by
  unfold rootCreated
  cases looked : (if luck.rootLookup then s.getEventById community root else none) with
  | some row =>
    have found : s.getEventById community root = some row := by
      split at looked
      · exact looked
      · cases looked
    obtain ⟨member, _, sameId⟩ := ThreadStore.getEventById_eq_some found
    have time := tidy.events.createdAt member
    rw [sameId] at time
    simp only [(tidy.events.event row member).2, Option.getD_some]
    exact time
  | none =>
    -- The root is not found: the time is that of the parent.
    rcases settled with ⟨goes, found⟩ | same
    · rw [if_pos goes] at looked
      rw [looked] at found
      cases found
    · exact same

/-- The lineage of a new reply, when it does not stray: its own row is added, and one for a
parent that had none. -/
theorem Tidy.lineages_insertThread (tidy : Tidy ids s) (now : Int)
    (resolved : Resolved s community luck (ids.event id) channel parent parentRow m)
    (new : s.stored community id = false)
    (rooted : (lastMarked "root" (ids.event id)).getD parent ≠ parent →
      ∃ a ∈ lineages s.threads, a.subject = (community, (lastMarked "root" (ids.event id)).getD parent) ∧
        m.rootEventCreatedAt = some (asI64
          (ids.event ((lastMarked "root" (ids.event id)).getD parent)).createdAt)) :
    lineages (insertThread s.threads community m now) = lineages (addThread
      (s.threads ++ [{ m with communityId := community }])
      (.stub community parent parentRow.createdAt channel)) := by
  -- The event is new, so no row has its key.
  have free : ¬ s.threads.any (·.key = ({ m with communityId := community } : ThreadMetadata).key) = true := by
    intro taken
    obtain ⟨a, member, same⟩ := any_key_iff.mp taken
    refine tidy.fresh new member ?_
    have subject := congrArg (fun key : CommunityId × Int × EventId => (key.1, key.2.2)) same
    refine subject.trans ?_
    exact congrArg (Prod.mk community) (resolved.eventId.trans (ids.id_event id))
  obtain ⟨stored, _, _⟩ := ThreadStore.getEventById_eq_some resolved.found
  unfold insertThread
  rw [if_neg free, lineages_tellAncestors now resolved.parentId resolved.rootId]
  · rw [resolved.parentCreatedAt, Option.getD_some, tidy.events.instant_eq stored, resolved.channelId]
  · intro other
    obtain ⟨a, member, subject, created⟩ := rooted other
    refine ⟨a, ?_, ?_⟩
    · unfold lineages
      rw [List.map_append]
      exact List.mem_append_left _ member
    · obtain ⟨sameCommunity, sameId⟩ := Prod.mk.inj subject
      rw [tidy.lineage_key member, created, Option.getD_some, sameCommunity, sameId]

private theorem Tidy.grown (tidy : Tidy ids s) (row : EventRow) :
    Threaded (s.events ++ [row]) (lineages s.threads) :=
  tidy.threads.keep fun old member => ⟨old, List.mem_append_left _ member, rfl, rfl, rfl, rfl⟩

private theorem stored_ofEvent {createdAt : Int} (events : List EventRow)
    (resolved : Resolved s community luck (ids.event id) channel parent parentRow m)
    (time : fromTimestamp (asI64 (ids.event id).createdAt) = some createdAt) :
    ∃ row ∈ events ++ [EventRow.ofEvent community (ids.event id) (some channel) createdAt],
      row.communityId = community ∧ row.event.id = m.eventId ∧
        row.channelId = some m.channelId ∧ row.createdAt = m.eventCreatedAt := by
  refine ⟨_, List.mem_append_right _ (List.mem_singleton.mpr rfl), rfl, resolved.eventId.symm,
    congrArg some resolved.channelId.symm, ?_⟩
  rw [resolved.eventCreatedAt, instant, time, Option.getD_some]
  rfl

private theorem Tidy.under (tidy : Tidy ids s) (now : Int) {createdAt : Int} {row : ThreadMetadata}
    (resolved : Resolved s community luck (ids.event id) channel parent parentRow m)
    (new : s.stored community id = false)
    (time : fromTimestamp (asI64 (ids.event id).createdAt) = some createdAt)
    (member : row ∈ s.threads) (subject : row.lineage.subject = (community, parent))
    (root : (lastMarked "root" (ids.event id)).getD parent = row.rootEventId.getD parent)
    (depth : m.depth = row.depth + 1) (shallow : m.depth ≤ 100)
    (rootTime : (lastMarked "root" (ids.event id)).getD parent ≠ parent → m.rootEventCreatedAt =
      some (asI64 (ids.event ((lastMarked "root" (ids.event id)).getD parent)).createdAt)) :
    Threaded (s.events ++ [EventRow.ofEvent community (ids.event id) (some channel) createdAt])
      (lineages (insertThread s.threads community m now)) := by
  have line : row.lineage ∈ lineages s.threads := List.mem_map_of_mem member
  obtain ⟨sameCommunity, sameId⟩ := Prod.mk.inj subject
  obtain ⟨stored, community', parentId⟩ := ThreadStore.getEventById_eq_some resolved.found
  -- The row of the parent is in its channel.
  have inChannel : row.channelId = channel := by
    obtain ⟨event, stored', community'', id', channel', _⟩ := tidy.threads.stored _ line
    have same := tidy.events.eq_of_id stored' stored
      (community''.trans (sameCommunity.trans community'.symm)) (id'.trans (sameId.trans parentId.symm))
    rw [same, resolved.inChannel] at channel'
    exact (Option.some.inj channel').symm
  -- The stub of the parent finds the parent's own row.
  have key : row.lineage.key = (community, parentRow.createdAt, parent) := by
    rw [tidy.lineage_key line, tidy.events.createdAt stored, parentId, sameCommunity, sameId]
  -- The root is the parent itself, or the root that the parent's row names.
  have ancestor : ∃ a ∈ lineages s.threads,
      a.subject = (community, (lastMarked "root" (ids.event id)).getD parent) ∧
        a.2.channelId = channel := by
    rw [root]
    cases named : row.rootEventId with
    | none => exact ⟨row.lineage, line, subject, inChannel⟩
    | some r =>
      obtain ⟨a, member', subject', channel'⟩ := tidy.threads.root _ line r named
      refine ⟨a, member', subject'.trans ?_, channel'.trans inChannel⟩
      exact congrArg (·, r) sameCommunity
  -- So the row of the reply is all that is added.
  have lines : lineages (insertThread s.threads community m now) =
      lineages s.threads ++ [(community, m)] := by
    rw [tidy.lineages_insertThread now resolved new fun other => ?_, addThread_of_key]
    · exact List.map_append
    · refine ⟨row.lineage, ?_, ?_⟩
      · unfold lineages
        rw [List.map_append]
        exact List.mem_append_left _ line
      · exact key
    · obtain ⟨a, member', subject', _⟩ := ancestor
      exact ⟨a, member', subject', rootTime other⟩
  rw [lines]
  refine (tidy.grown _).add (fun b old => ?_) (stored_ofEvent _ resolved time)
    (fun p given => ?_) fun r given => ?_
  · refine fun same => tidy.fresh new old (same.trans ?_)
    exact congrArg (Prod.mk community) (resolved.eventId.trans (ids.id_event id))
  · obtain rfl := Option.some.inj (resolved.parentId.symm.trans given)
    refine ⟨row.lineage, line, subject, inChannel.trans resolved.channelId.symm, ?_, depth, shallow⟩
    exact resolved.rootId.trans (congrArg some root)
  · obtain rfl := Option.some.inj (resolved.rootId.symm.trans given)
    obtain ⟨a, member', subject', channel'⟩ := ancestor
    exact ⟨a, member', subject', channel'.trans resolved.channelId.symm⟩

private theorem Tidy.beside (tidy : Tidy ids s) (now : Int) {createdAt : Int}
    (resolved : Resolved s community luck (ids.event id) channel parent parentRow m)
    (new : s.stored community id = false)
    (time : fromTimestamp (asI64 (ids.event id).createdAt) = some createdAt)
    (absent : ∀ row ∈ s.threads, row.isAbout community parent = false)
    (top : (lastMarked "root" (ids.event id)).getD parent = parent) (depth : m.depth = 1) :
    Threaded (s.events ++ [EventRow.ofEvent community (ids.event id) (some channel) createdAt])
      (lineages (insertThread s.threads community m now)) := by
  obtain ⟨stored, community', parentId⟩ := ThreadStore.getEventById_eq_some resolved.found
  -- The parent is stored and the reply is not.
  have other : id ≠ parent := by
    rintro rfl
    have here : s.stored community id = true :=
      ThreadStore.stored_iff.mpr ⟨parentRow, stored, community', parentId⟩
    rw [new] at here
    cases here
  have unknown : ∀ a ∈ lineages s.threads, a.subject ≠ (community, parent) := by
    intro a line same
    obtain ⟨row, member, rfl⟩ := List.mem_map.mp line
    have about := absent row member
    obtain ⟨sameCommunity, sameId⟩ := Prod.mk.inj same
    rw [ThreadMetadata.isAbout, decide_eq_false_iff_not] at about
    exact about ⟨sameCommunity, sameId⟩
  have mine : Lineage.subject (community, m) = (community, id) :=
    congrArg (Prod.mk community) (resolved.eventId.trans (ids.id_event id))
  -- The reply's row goes first, and then the stub of the parent.
  have lines : lineages (insertThread s.threads community m now) = (lineages s.threads ++
      [(community, m)]) ++ [(ThreadMetadata.stub community parent parentRow.createdAt channel).lineage] := by
    rw [tidy.lineages_insertThread now resolved new fun different => absurd top different,
      lineages_addThread]
    · exact congrArg (· ++ _) List.map_append
    · intro a line same
      have subject : a.subject = (community, parent) :=
        congrArg (fun key : CommunityId × Int × EventId => (key.1, key.2.2)) same
      unfold lineages at line
      rw [List.map_append] at line
      rcases List.mem_append.mp line with old | own
      · exact unknown a old subject
      · rw [List.map_singleton, List.mem_singleton] at own
        rw [own] at subject
        exact other (congrArg Prod.snd (mine.symm.trans subject))
  -- The row of the parent is added first, then the reply.
  have parents := (tidy.grown (.ofEvent community (ids.event id) (some channel) createdAt)).add
    (a := (ThreadMetadata.stub community parent parentRow.createdAt channel).lineage) unknown
    ⟨parentRow, List.mem_append_left _ stored, community', parentId, resolved.inChannel, rfl⟩
    (fun _ given => by cases given) fun _ given => by cases given
  have replies := parents.add (a := (community, m)) (fun b member => ?_)
    (stored_ofEvent _ resolved time) (fun p given => ?_) fun r given => ?_
  · rw [lines]
    refine replies.perm ?_
    rw [List.append_assoc, List.append_assoc]
    exact (List.perm_append_left_iff _).mpr List.perm_append_comm
  · rcases List.mem_append.mp member with old | stub
    · rw [mine]
      exact tidy.fresh new old
    · rw [List.mem_singleton.mp stub, mine]
      exact fun same => other (congrArg Prod.snd same).symm
  · obtain rfl := Option.some.inj (resolved.parentId.symm.trans given)
    refine ⟨_, List.mem_append_right _ (List.mem_singleton.mpr rfl), rfl, resolved.channelId.symm,
      resolved.rootId.trans (congrArg some top), ?_, ?_⟩
    · rw [depth]
      rfl
    · rw [depth]
      decide
  · obtain rfl := Option.some.inj (resolved.rootId.symm.trans given)
    rw [top]
    exact ⟨_, List.mem_append_right _ (List.mem_singleton.mpr rfl), rfl, resolved.channelId.symm⟩

theorem Cataloged.grow {events : List EventRow} (cataloged : Cataloged ids events)
    {channelId : Option Uuid} {createdAt : Int}
    (time : fromTimestamp (asI64 (ids.event id).createdAt) = some createdAt)
    (free : ∀ row ∈ events,
      row.key ≠ (EventRow.ofEvent community (ids.event id) channelId createdAt).key) :
    Cataloged ids (events ++ [EventRow.ofEvent community (ids.event id) channelId createdAt]) where
  event row member := by
    rcases List.mem_append.mp member with old | new
    · exact cataloged.event row old
    · rw [List.mem_singleton.mp new]
      refine ⟨?_, time⟩
      show ids.event id = ids.event (ids.event id).id
      rw [ids.id_event]
  keys := by
    rw [List.map_append, List.nodup_append]
    refine ⟨cataloged.keys, List.pairwise_singleton _ _, ?_⟩
    rintro _ old _ new same
    obtain ⟨row, member, rfl⟩ := List.mem_map.mp old
    rw [List.map_singleton, List.mem_singleton] at new
    exact free row member (same.trans new)

/-- An event whose key is free is not stored: its time is a part of it. -/
theorem Cataloged.not_stored (cataloged : Cataloged ids s.events) {channelId : Option Uuid}
    {createdAt : Int} (time : fromTimestamp (asI64 (ids.event id).createdAt) = some createdAt)
    (free : ∀ row ∈ s.events,
      row.key ≠ (EventRow.ofEvent community (ids.event id) channelId createdAt).key) :
    s.stored community id = false := by
  rw [Bool.eq_false_iff]
  intro here
  obtain ⟨row, member, sameCommunity, sameId⟩ := ThreadStore.stored_iff.mp here
  have sameTime : row.createdAt = createdAt := by
    rw [cataloged.createdAt member, sameId, (fromTimestamp_eq_some.mp time).1]
  refine free row member ?_
  simp only [EventRow.key, EventRow.stamp, EventRow.ofEvent, sameCommunity, sameTime, sameId,
    ids.id_event]

/-- What a new reply can rely on that does not stray and whose root is not its parent. -/
private theorem rely_of_straight
    (resolved : Resolved s community luck (ids.event id) channel parent parentRow m)
    (channelScoped : requiresHChannelScope (ids.event id).kind = true)
    (new : s.stored community id = false)
    (straight : s.strays ids (.ingest community id (some channel) luck) = false)
    (other : (lastMarked "root" (ids.event id)).getD parent ≠ parent) :
    (s.threads.find? (·.isAbout community parent) = none →
      namedRoot parentRow.event ≠ some ((lastMarked "root" (ids.event id)).getD parent)) ∧
    ∀ row, s.threads.find? (·.isAbout community parent) = some row →
      row.rootEventId = some ((lastMarked "root" (ids.event id)).getD parent) → row.depth < 100 →
      luck.rootLookup = true ∧ (s.getEventById community
          ((lastMarked "root" (ids.event id)).getD parent)).isSome = true ∨
        asI64 (ids.event parent).createdAt =
          asI64 (ids.event ((lastMarked "root" (ids.event id)).getD parent)).createdAt := by
  simp only [ThreadStore.strays, channelScoped, new, resolved.reply, resolved.found,
    Option.any_some, resolved.inChannel, Bool.not_false, Bool.true_and, decide_true, ne_eq, other,
    not_false_eq_true] at straight
  constructor
  · intro absent
    rw [absent] at straight
    simpa using straight
  · intro row found named deep
    rw [found] at straight
    -- Otherwise the reply would stray by the root's time.
    by_contra neither
    rw [not_or] at neither
    simp only [named, deep, decide_true, Bool.true_and, Bool.and_eq_false_iff, Bool.not_eq_false',
      decide_eq_false_iff_not, not_not, Bool.and_eq_true] at straight
    rcases straight with found | same
    · exact neither.1 found
    · exact neither.2 same.symm

private theorem Tidy.replied (tidy : Tidy ids s) (now : Int) {createdAt : Int}
    (resolved : Resolved s community luck (ids.event id) channel parent parentRow m)
    (channelScoped : requiresHChannelScope (ids.event id).kind = true)
    (new : s.stored community id = false)
    (time : fromTimestamp (asI64 (ids.event id).createdAt) = some createdAt)
    (straight : s.strays ids (.ingest community id (some channel) luck) = false) :
    Threaded (s.events ++ [EventRow.ofEvent community (ids.event id) (some channel) createdAt])
      (lineages (insertThread s.threads community m now)) := by
  obtain ⟨stored, _, parentId⟩ := ThreadStore.getEventById_eq_some resolved.found
  have rely := rely_of_straight resolved channelScoped new straight
  -- The parent has a row, or its tags name the root.
  rcases resolved.ancestry with ⟨row, picked, root, depth, shallow, created⟩ | ⟨none, root, depth⟩
  · obtain ⟨member, sameCommunity, sameId⟩ :=
      ThreadStore.getThreadMetadataByEvent_eq_some picked
    refine tidy.under now resolved new time member (Prod.ext sameCommunity sameId) root depth
      shallow fun other => ?_
    -- The row that the database picked is the only one.
    have only : s.threads.find? (·.isAbout community parent) = some row := by
      cases found : s.threads.find? (·.isAbout community parent) with
      | none =>
        have none := List.find?_eq_none.mp found row member
        rw [ThreadMetadata.isAbout, decide_eq_true_eq] at none
        exact absurd ⟨sameCommunity, sameId⟩ none
      | some row' =>
        have about := List.find?_some found
        rw [ThreadMetadata.isAbout, decide_eq_true_eq] at about
        rw [tidy.threads.eq_of_subject (List.mem_of_find?_eq_some found) member
          (about.1.trans sameCommunity.symm) (about.2.trans sameId.symm)]
    have named : row.rootEventId = some ((lastMarked "root" (ids.event id)).getD parent) := by
      rw [root] at other ⊢
      cases own : row.rootEventId with
      | none =>
        rw [own] at other
        exact absurd rfl other
      | some r => rfl
    rw [created, tidy.events.instant_eq stored, tidy.events.createdAt stored, parentId]
    exact congrArg some (rootCreated_eq tidy ((rely other).2 row only named (by omega)))
  · have absent (row : ThreadMetadata) (member : row ∈ s.threads) :
        row.isAbout community parent = false :=
      ThreadStore.getThreadMetadataByEvent_eq_none none member
    -- A parent without a row that names another root would make the reply stray.
    have top : (lastMarked "root" (ids.event id)).getD parent = parent := by
      by_contra other
      refine (rely other).1 (List.find?_eq_none.mpr fun row member => ?_) ?_
      · rw [absent row member]
        exact Bool.false_ne_true
      · rw [root] at other ⊢
        cases named : namedRoot parentRow.event with
        | none =>
          rw [named] at other
          exact absurd rfl other
        | some r => rfl
    exact tidy.beside now resolved new time absent top (depth top)

/-! ### Runs -/

theorem ingest_eq_ok {event : Event} {channelId : Option Uuid} {s' : ThreadStore}
    (accepted : ingest s community event channelId luck = .ok s') :
    ∃ threadMeta isNew, threadMetaOf s community event channelId luck = .ok threadMeta ∧
      insertEventWithThreadMetadata s community event channelId threadMeta luck.now =
        .ok (s', isNew) := by
  unfold ingest at accepted
  cases traced : threadMetaOf s community event channelId luck with
  | error text =>
    rw [traced] at accepted
    cases accepted
  | ok threadMeta =>
    rw [traced] at accepted
    cases inserted : insertEventWithThreadMetadata s community event channelId threadMeta luck.now with
    | error e =>
      simp only [Except.mapError, bind, Except.bind, inserted] at accepted
      cases accepted
    | ok result =>
      simp only [Except.mapError, bind, Except.bind, inserted] at accepted
      obtain rfl := Except.ok.inj accepted
      exact ⟨threadMeta, result.2, rfl, inserted⟩

theorem threadMetaOf_eq_some {event : Event} {channelId : Option Uuid}
    (traced : threadMetaOf s community event channelId luck = .ok (some m)) :
    ∃ channel, channelId = some channel ∧ requiresHChannelScope event.kind = true ∧
      resolveNip10ThreadMeta s community luck event channel = .ok (some m) := by
  unfold threadMetaOf at traced
  cases channelId with
  | none => cases traced
  | some channel =>
    simp only at traced
    split at traced
    next channelScoped => exact ⟨channel, rfl, channelScoped, traced⟩
    next => cases traced

theorem Tidy.ingest (tidy : Tidy ids s) {channelId : Option Uuid} {s' : ThreadStore}
    (accepted : ingest s community (ids.event id) channelId luck = .ok s')
    (straight : s.strays ids (.ingest community id channelId luck) = false) : Tidy ids s' := by
  obtain ⟨threadMeta, isNew, traced, inserted⟩ := ingest_eq_ok accepted
  -- An event that is stored already changes nothing.
  obtain ⟨createdAt, time, rfl | ⟨free, events, threads⟩⟩ := insert_eq_ok inserted
  · exact tidy
  · refine ⟨?_, ?_⟩
    · rw [events]
      exact tidy.events.grow time free
    · rw [events, threads]
      cases threadMeta with
      | none => exact tidy.grown _
      | some m =>
        obtain ⟨channel, rfl, channelScoped, resolved⟩ := threadMetaOf_eq_some traced
        obtain ⟨parent, parentRow, resolved⟩ := resolve_eq_ok resolved
        exact tidy.replied _ resolved channelScoped (tidy.events.not_stored time free) time
          straight

theorem Cataloged.softDeleteEvent (cataloged : Cataloged ids s.events) (community : CommunityId)
    (id : EventId) : Cataloged ids (s.softDeleteEvent community id).1.events where
  event row member := by
    obtain ⟨old, stored, rfl⟩ := List.mem_map.mp member
    have facts := cataloged.event old stored
    split
    · exact facts
    · exact facts
  keys := by
    have kept : ((s.softDeleteEvent community id).1.events.map EventRow.key) =
        s.events.map EventRow.key := by
      unfold ThreadStore.softDeleteEvent
      rw [List.map_map]
      refine List.map_congr_left fun row _ => ?_
      rw [Function.comp_apply]
      split
      · rfl
      · rfl
    rw [kept]
    exact cataloged.keys

theorem Tidy.softDeleteEvent (tidy : Tidy ids s) (community : CommunityId) (id : EventId) :
    Tidy ids (s.softDeleteEvent community id).1 where
  events := tidy.events.softDeleteEvent community id
  threads := tidy.threads.keep fun row member => by
    refine ⟨_, List.mem_map_of_mem member, ?_⟩
    split
    · exact ⟨rfl, rfl, rfl, rfl⟩
    · exact ⟨rfl, rfl, rfl, rfl⟩

theorem Tidy.updateThread (tidy : Tidy ids s) (community : CommunityId) (id : EventId)
    {set : ThreadMetadata → ThreadMetadata} (kept : ∀ row, (set row).lineage = row.lineage) :
    Tidy ids { s with threads := Db.updateThread s.threads community id set } where
  events := tidy.events
  threads := by
    rw [lineages_updateThread kept]
    exact tidy.threads

theorem Tidy.softDeleteEventAndUpdateThread (tidy : Tidy ids s) (community : CommunityId)
    (id : EventId) (parent root : Option EventId) :
    Tidy ids (s.softDeleteEventAndUpdateThread community id parent root) := by
  have deleted := tidy.softDeleteEvent community id
  simp only [ThreadStore.softDeleteEventAndUpdateThread]
  split
  · cases parent with
    | none => exact deleted
    | some parent =>
      -- One of the counters goes down, or both do.
      cases root with
      | none =>
        refine deleted.updateThread community parent ?_
        exact fun _ => rfl
      | some root =>
        refine (deleted.updateThread community parent ?_).updateThread community root ?_
        · exact fun _ => rfl
        · exact fun _ => rfl
  · exact deleted

theorem Tidy.perform (tidy : Tidy ids s) (action : ThreadAction)
    (straight : s.strays ids action = false) : Tidy ids (s.perform ids action) := by
  cases action with
  | ingest community id channelId luck =>
    simp only [ThreadStore.perform]
    cases accepted : Db.ingest s community (ids.event id) channelId luck with
    | ok s' => exact tidy.ingest accepted straight
    | error e => exact tidy
  | softDelete community id => exact tidy.softDeleteEvent community id
  | softDeleteAndUpdateThread community id parent root =>
    exact tidy.softDeleteEventAndUpdateThread community id parent root

theorem Tidy.empty : Tidy ids {} where
  events := { event := by simp, keys := List.nodup_nil }
  threads := { unique := List.nodup_nil, stored := by simp [lineages], reply := by simp [lineages],
               root := by simp [lineages] }

private theorem Tidy.channel_of (tidy : Tidy ids s) {a : Lineage} (line : a ∈ lineages s.threads)
    {row : EventRow} (stored : row ∈ s.events) (subject : a.subject = (row.communityId, row.event.id)) :
    row.channelId = some a.2.channelId := by
  obtain ⟨row', stored', community', id', channel', _⟩ := tidy.threads.stored a line
  obtain ⟨sameCommunity, sameId⟩ := Prod.mk.inj subject
  rw [tidy.events.eq_of_id stored stored' (sameCommunity.symm.trans community'.symm)
    (sameId.symm.trans id'.symm)]
  exact channel'

theorem Tidy.oneRoot (tidy : Tidy ids s) : OneRoot s where
  parent row member parent given := by
    obtain ⟨b, line, subject, _, root, depth, shallow⟩ :=
      tidy.threads.reply _ (List.mem_map_of_mem member) parent given
    obtain ⟨parentRow, here, rfl⟩ := List.mem_map.mp line
    obtain ⟨sameCommunity, sameId⟩ := Prod.mk.inj subject
    exact ⟨parentRow, here, sameCommunity, sameId, root, depth, shallow⟩
  ancestors row member id given event stored community sameId := by
    have line : row.lineage ∈ lineages s.threads := List.mem_map_of_mem member
    -- The parent and the root have rows in the channel of the reply.
    have ancestor : ∃ b ∈ lineages s.threads, b.subject = (row.communityId, id) ∧
        b.2.channelId = row.channelId := by
      rcases given with parent | root
      · obtain ⟨b, there, subject, channel, _⟩ := tidy.threads.reply _ line id parent
        exact ⟨b, there, subject, channel⟩
      · exact tidy.threads.root _ line id root
    obtain ⟨b, there, subject, channel⟩ := ancestor
    rw [← channel]
    exact tidy.channel_of there stored (by rw [subject, community, sameId])
  unique row member row' member' := tidy.threads.eq_of_subject member member'
  channel row member event stored community sameId :=
    tidy.channel_of (List.mem_map_of_mem member) stored (Prod.ext community.symm sameId.symm)

end

/-- In a run from the empty store none of whose replies goes astray, threads never cross channels
and have one root. -/
theorem threads_have_one_root (ids : Catalogue) (actions : List ThreadAction)
    (straight : Along (ThreadStore.perform ids) (fun s a => s.strays ids a = false) {} actions) :
    OneRoot (actions.foldl (ThreadStore.perform ids) {}) :=
  (straight.invariant (fun _ action here tidy => Tidy.perform tidy action here) Tidy.empty).oneRoot

namespace Sample

def idA : EventId := Hex64.repeated 'a' (Eq.refl true)
def idB : EventId := Hex64.repeated 'b' (Eq.refl true)
def idC : EventId := Hex64.repeated 'c' (Eq.refl true)

/-- A message, its reply and the reply to that. -/
def thread (id : EventId) : Event where
  id
  pubkey := idA
  createdAt := if id = idB then 20 else if id = idC then 30 else 10
  kind := 9
  tags :=
    if id = idB then [["e", idA.toHex, "", "reply"]]
    else if id = idC then [["e", idA.toHex, "", "root"], ["e", idB.toHex, "", "reply"]]
    else []
  content := ""

def ids : Catalogue where
  event := thread
  id_event _ := rfl

def post (id : EventId) : ThreadAction := .ingest ⟨⟨1⟩⟩ id (some ⟨7⟩) { now := 1 }

end Sample

/-- A thread of three messages whose last one is deleted in the end. -/
theorem threads_have_one_root_nested : OneRoot
    ([Sample.post Sample.idA, Sample.post Sample.idB, Sample.post Sample.idC,
      .softDeleteAndUpdateThread ⟨⟨1⟩⟩ Sample.idC (some Sample.idB) (some Sample.idA)].foldl
      (ThreadStore.perform Sample.ids) {}) :=
  threads_have_one_root Sample.ids _ (by decide +kernel)

/-- The root is deleted before the reply to its reply: that reply gives it a second row. -/
theorem root_gets_second_row : ¬ OneRoot
    ([Sample.post Sample.idA, Sample.post Sample.idB, .softDelete ⟨⟨1⟩⟩ Sample.idA,
      Sample.post Sample.idC].foldl (ThreadStore.perform Sample.ids) {}) := by
  intro one
  -- The second row has the time of the parent.
  have twice : ∃ row ∈ ([Sample.post Sample.idA, Sample.post Sample.idB,
      .softDelete ⟨⟨1⟩⟩ Sample.idA, Sample.post Sample.idC].foldl
        (ThreadStore.perform Sample.ids) {}).threads,
      ∃ row' ∈ ([Sample.post Sample.idA, Sample.post Sample.idB,
        .softDelete ⟨⟨1⟩⟩ Sample.idA, Sample.post Sample.idC].foldl
          (ThreadStore.perform Sample.ids) {}).threads,
      row.communityId = row'.communityId ∧ row.eventId = row'.eventId ∧
        row.eventCreatedAt ≠ row'.eventCreatedAt := by decide +kernel
  obtain ⟨row, member, row', member', community, id, other⟩ := twice
  exact other (congrArg (·.eventCreatedAt) (one.unique row member row' member' community id))

end Db
