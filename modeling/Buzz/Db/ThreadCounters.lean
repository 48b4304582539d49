import Buzz.Db.ThreadRoots

/-!
# The counters of threads

The rows of `thread_metadata` count the replies to an event and the descendants of a root. Both
counters are moved by the id of the event, while its rows are kept by id and time, so a row that
comes later than the first one starts at zero. The counters are those of the live events as long as
no such row comes while the others count something, and no longer.

A submission is resolved first and stored by a transaction of its own, with whatever happens in
between. Who deletes an event has looked up its stored parent and root.
-/
namespace Db

open Lib Nostr Relay

/-- What is counted: the replies to a parent, or the descendants of a root. -/
inductive Tie where
  | reply
  | descendant
deriving DecidableEq

namespace Tie

def ancestor : Tie → ThreadMetadata → Option EventId
  | .reply => fun row => row.parentEventId
  | .descendant => fun row => row.rootEventId

def counter : Tie → ThreadMetadata → Int
  | .reply => fun row => row.replyCount
  | .descendant => fun row => row.descendantCount

end Tie

/-- The row with what the event replies to. -/
def replyRow (rows : List ThreadMetadata) (community : CommunityId) (id : EventId) :
    Option ThreadMetadata :=
  rows.find? fun row => row.isAbout community id && row.parentEventId.isSome

namespace ThreadStore

def storedAncestor (s : ThreadStore) (tie : Tie) (community : CommunityId) (id : EventId) :
    Option EventId :=
  (replyRow s.threads community id).bind tie.ancestor

/-- The deletion of an event by someone who has looked up its ancestors. -/
def deleteReply (s : ThreadStore) (community : CommunityId) (id : EventId) : ThreadStore :=
  s.softDeleteEventAndUpdateThread community id (s.storedAncestor .reply community id)
    (s.storedAncestor .descendant community id)

/-- The live events whose stored parent, or root, is this one. -/
def liveReplies (s : ThreadStore) (tie : Tie) (community : CommunityId) (id : EventId) : Nat :=
  s.events.countP fun row => row.communityId = community ∧ row.deleted = false ∧
    s.storedAncestor tie community row.event.id = some id

/-- Every row of every event counts what is live. -/
def Counted (s : ThreadStore) : Prop :=
  ∀ tie : Tie, ∀ row ∈ s.threads,
    tie.counter row = s.liveReplies tie row.communityId row.eventId

/-- The event gets a row. -/
def admits (s : ThreadStore) (community : CommunityId) (event : Event) : Bool :=
  event.kind ≠ kindAuth && !isEphemeral event.kind &&
    (fromTimestamp (asI64 event.createdAt)).any fun createdAt =>
      !s.events.any (·.key = (EventRow.ofEvent community event none createdAt).key)

end ThreadStore

/-! ### Rows that are made -/

def ThreadMetadataParams.row (m : ThreadMetadataParams) (community : CommunityId) : ThreadMetadata :=
  { m with communityId := community }

/-- The rows that a reply makes sure of for its ancestors. -/
def stubs (community : CommunityId) (m : ThreadMetadataParams) : List ThreadMetadata :=
  match m.parentEventId with
  | none => []
  | some parent =>
    .stub community parent (m.parentEventCreatedAt.getD m.eventCreatedAt) m.channelId ::
      match m.rootEventId with
      | some root =>
        if root ≠ parent then
          [.stub community root (m.rootEventCreatedAt.getD m.eventCreatedAt) m.channelId]
        else []
      | none => []

/-- A row is made for an event that has another one, which counts something. -/
def ThreadStore.splits (s : ThreadStore) (community : CommunityId) (m : ThreadMetadataParams) : Bool :=
  let free (row : ThreadMetadata) := !s.threads.any (·.key = row.key)
  free (m.row community) && (m.row community :: stubs community m).any fun row => free row &&
    s.threads.any fun old => old.isAbout community row.eventId &&
      (old.replyCount ≠ 0 || old.descendantCount ≠ 0)

/-! ### Runs -/

/-- A submission whose ancestry has been resolved. -/
structure Submission where
  communityId : CommunityId
  id : EventId
  channelId : Option Uuid
  threadMeta : Option ThreadMetadataParams
deriving DecidableEq

structure Threading where
  store : ThreadStore := {}
  /-- Any of them may be stored, at any later time and again. -/
  resolved : List Submission := []
deriving DecidableEq

inductive ThreadingAction where
  | resolve (community : CommunityId) (id : EventId) (channel : Uuid) (luck : Luck)
  /-- An event that nobody resolves an ancestry for. -/
  | submit (community : CommunityId) (id : EventId) (channelId : Option Uuid)
  | insert (n : Nat) (now : Int)
  | softDelete (community : CommunityId) (id : EventId)
deriving DecidableEq

namespace Threading

def perform (ids : Catalogue) (t : Threading) : ThreadingAction → Threading
  | .resolve community id channel luck =>
    match resolveNip10ThreadMeta t.store community luck (ids.event id) channel with
    | .ok threadMeta =>
      { t with resolved := t.resolved ++ [⟨community, id, some channel, threadMeta⟩] }
    | .error _ => t
  | .submit community id channelId =>
    { t with resolved := t.resolved ++ [⟨community, id, channelId, none⟩] }
  | .insert n now =>
    match t.resolved[n]? with
    | none => t
    | some sub =>
      match insertEventWithThreadMetadata t.store sub.communityId (ids.event sub.id) sub.channelId
          sub.threadMeta now with
      | .ok (store, _) => { t with store }
      | .error _ => t
  | .softDelete community id => { t with store := t.store.deleteReply community id }

/-- A row is made beside one that counts something. -/
def splits (ids : Catalogue) (t : Threading) : ThreadingAction → Bool
  | .insert n _ => t.resolved[n]?.any fun sub =>
      t.store.admits sub.communityId (ids.event sub.id) &&
        sub.threadMeta.any fun m => t.store.splits sub.communityId m
  | _ => false

/-- No counter of an ancestor of a live event that is deleted is zero, so that `GREATEST` has
nothing to do. -/
def Unclamped (t : Threading) : ThreadingAction → Prop
  | .softDelete community id =>
    (t.store.softDeleteEvent community id).2 = true → ∀ (tie : Tie) (ancestor : EventId),
      t.store.storedAncestor tie community id = some ancestor →
        ∀ row ∈ t.store.threads, row.isAbout community ancestor = true → 0 < tie.counter row
  | _ => True

end Threading

/-! ### Maps of rows -/

section

variable {rows more : List ThreadMetadata} {set : ThreadMetadata → ThreadMetadata}
  {community : CommunityId} {id : EventId} {tie : Tie}

theorem Tie.ancestor_congr {row row' : ThreadMetadata} (same : row.lineage = row'.lineage)
    (tie : Tie) : tie.ancestor row = tie.ancestor row' := by
  have params := congrArg Prod.snd same
  cases tie with
  | reply => exact congrArg ThreadMetadataParams.parentEventId params
  | descendant => exact congrArg ThreadMetadataParams.rootEventId params

theorem ThreadMetadata.isAbout_congr {row row' : ThreadMetadata} (same : row.lineage = row'.lineage) :
    row.isAbout community id = row'.isAbout community id := by
  obtain ⟨sameCommunity, params⟩ := Prod.mk.inj same
  have sameId : row.eventId = row'.eventId := congrArg ThreadMetadataParams.eventId params
  rw [ThreadMetadata.isAbout, ThreadMetadata.isAbout, sameCommunity, sameId]

theorem isAbout_iff {row : ThreadMetadata} :
    row.isAbout community id = true ↔ row.communityId = community ∧ row.eventId = id := by
  rw [ThreadMetadata.isAbout, decide_eq_true_eq]

theorem replyRow_map (kept : ∀ row, (set row).lineage = row.lineage) :
    replyRow (rows.map set) community id = (replyRow rows community id).map set := by
  have same : (fun row : ThreadMetadata => row.isAbout community id && row.parentEventId.isSome) ∘
      set = fun row => row.isAbout community id && row.parentEventId.isSome := by
    funext row
    rw [Function.comp_apply, ThreadMetadata.isAbout_congr (kept row)]
    exact congrArg (fun parent => row.isAbout community id && Option.isSome parent)
      (Tie.ancestor_congr (kept row) .reply)
  rw [replyRow, List.find?_map, same]
  rfl

theorem bind_ancestor_map (kept : ∀ row, (set row).lineage = row.lineage)
    (found : Option ThreadMetadata) : (found.map set).bind tie.ancestor = found.bind tie.ancestor := by
  cases found with
  | none => rfl
  | some row => exact tie.ancestor_congr (kept row)

theorem replyRow_append : replyRow (rows ++ more) community id =
    (replyRow rows community id).or (replyRow more community id) :=
  List.find?_append

theorem replyRow_eq_none (plain : ∀ row ∈ rows, row.isAbout community id = true →
    row.parentEventId = none) : replyRow rows community id = none := by
  refine List.find?_eq_none.mpr fun row member found => ?_
  rw [Bool.and_eq_true] at found
  rw [plain row member found.1] at found
  cases found.2

theorem replyRow_eq_some {row : ThreadMetadata} (found : replyRow rows community id = some row) :
    row ∈ rows ∧ row.communityId = community ∧ row.eventId = id ∧ row.parentEventId ≠ none := by
  have holds := List.find?_some found
  rw [Bool.and_eq_true, isAbout_iff] at holds
  refine ⟨List.mem_of_find?_eq_some found, holds.1.1, holds.1.2, ?_⟩
  rw [← Option.isSome_iff_ne_none]
  exact holds.2

end

/-! ### What an insertion does to the rows -/

/-- The event of the two that a tie leads to. -/
def Tie.pick (parent root : EventId) : Tie → EventId
  | .reply => parent
  | .descendant => root

/-- A row that has been told of a reply. -/
def told (community : CommunityId) (parent root : EventId) (now : Int) (row : ThreadMetadata) :
    ThreadMetadata :=
  { row with
    replyCount := row.replyCount + if row.isAbout community parent then 1 else 0
    lastReplyAt := if row.isAbout community parent then some now else row.lastReplyAt
    descendantCount := row.descendantCount + if row.isAbout community root then 1 else 0 }

section

variable {rows news : List ThreadMetadata} {community : CommunityId} {m : ThreadMetadataParams}
  {parent root : EventId} {now : Int}

theorem lineage_told (row : ThreadMetadata) :
    (told community parent root now row).lineage = row.lineage := rfl

theorem counter_told (tie : Tie) (row : ThreadMetadata) :
    tie.counter (told community parent root now row) =
      tie.counter row + if row.isAbout community (tie.pick parent root) then 1 else 0 := by
  cases tie with
  | reply => rfl
  | descendant => rfl

theorem exists_foldl_addThread (rows news : List ThreadMetadata) :
    ∃ rest, news.foldl addThread rows = rows ++ rest ∧
      (∀ row ∈ rest, row ∈ news ∧ ∀ old ∈ rows, old.key ≠ row.key) ∧
      ∀ row ∈ news, ∃ made ∈ rows ++ rest, made.key = row.key := by
  induction news generalizing rows with
  | nil => exact ⟨[], by simp⟩
  | cons row news ih =>
    rw [List.foldl_cons]
    by_cases taken : rows.any (·.key = row.key) = true
    · obtain ⟨rest, folded, fresh, made⟩ := ih rows
      have kept : addThread rows row = rows := if_pos taken
      refine ⟨rest, by rw [kept, folded], fun new member => ?_, ?_⟩
      · exact ⟨List.mem_cons_of_mem _ (fresh new member).1, (fresh new member).2⟩
      · refine List.forall_mem_cons.mpr ⟨?_, made⟩
        obtain ⟨old, member, same⟩ := List.any_eq_true.mp taken
        exact ⟨old, List.mem_append_left _ member, of_decide_eq_true same⟩
    · obtain ⟨rest, folded, fresh, made⟩ := ih (rows ++ [row])
      have grown : addThread rows row = rows ++ [row] := if_neg taken
      have free (old : ThreadMetadata) (member : old ∈ rows) : old.key ≠ row.key := fun same =>
        taken (List.any_eq_true.mpr ⟨old, member, decide_eq_true same⟩)
      refine ⟨row :: rest, by rw [grown, folded, List.append_assoc]; rfl, ?_, ?_⟩
      · refine List.forall_mem_cons.mpr ⟨⟨List.mem_cons_self, free⟩, fun new member => ?_⟩
        obtain ⟨listed, other⟩ := fresh new member
        exact ⟨List.mem_cons_of_mem _ listed, fun old here => other old (by simp [here])⟩
      · refine List.forall_mem_cons.mpr ⟨⟨row, by simp, rfl⟩, fun new member => ?_⟩
        obtain ⟨row', here, same⟩ := made new member
        exact ⟨row', by simpa using here, same⟩

theorem tellAncestors_eq (isParent : m.parentEventId = some parent)
    (isRoot : m.rootEventId = some root) :
    tellAncestors rows community m now =
      ((stubs community m).foldl addThread rows).map (told community parent root now) := by
  simp only [tellAncestors, stubs, isParent, isRoot]
  have twice (rows : List ThreadMetadata) :
      updateThread (updateThread rows community parent fun row =>
        { row with replyCount := row.replyCount + 1, lastReplyAt := some now }) community root
          (fun row => { row with descendantCount := row.descendantCount + 1 }) =
        rows.map (told community parent root now) := by
    rw [updateThread, updateThread, List.map_map]
    refine List.map_congr_left fun row _ => ?_
    rw [Function.comp_apply]
    have same : ThreadMetadata.isAbout community root
        { row with replyCount := row.replyCount + 1, lastReplyAt := some now } =
          row.isAbout community root := rfl
    by_cases first : row.isAbout community parent = true
    · by_cases second : row.isAbout community root = true
      · simp [told, first, second, same]
      · simp [told, first, second, same]
    · by_cases second : row.isAbout community root = true
      · simp [told, first, second]
      · simp [told, first, second]
  rw [twice]
  split <;> rfl

theorem insertThread_eq (isParent : m.parentEventId = some parent)
    (isRoot : m.rootEventId = some root)
    (free : rows.any (·.key = (m.row community).key) = false) :
    ∃ rest, insertThread rows community m now =
        (rows ++ m.row community :: rest).map (told community parent root now) ∧
      (∀ row ∈ rest, row ∈ stubs community m ∧ ∀ old ∈ rows, old.key ≠ row.key) ∧
      ∀ row ∈ stubs community m, ∃ made ∈ rows ++ m.row community :: rest, made.key = row.key := by
  obtain ⟨rest, folded, fresh, made⟩ :=
    exists_foldl_addThread (rows ++ [m.row community]) (stubs community m)
  refine ⟨rest, ?_, fun row member => ?_, fun row member => ?_⟩
  · have own : insertThread rows community m now =
        tellAncestors (rows ++ [m.row community]) community m now :=
      if_neg fun taken => Bool.false_ne_true (free.symm.trans taken)
    rw [own, tellAncestors_eq isParent isRoot, folded, List.append_assoc]
    rfl
  · exact ⟨(fresh row member).1, fun old here => (fresh row member).2 old (by simp [here])⟩
  · obtain ⟨row', here, same⟩ := made row member
    exact ⟨row', by simpa using here, same⟩

theorem insertThread_of_taken (taken : rows.any (·.key = (m.row community).key) = true) :
    insertThread rows community m now = rows := if_pos taken

theorem stub_of_mem_stubs {row : ThreadMetadata} (member : row ∈ stubs community m) :
    row.communityId = community ∧ row.parentEventId = none ∧ ∀ tie : Tie, tie.counter row = 0 := by
  have zero (id : EventId) (createdAt : Int) (channelId : Uuid) (tie : Tie) :
      tie.counter (.stub community id createdAt channelId) = 0 := by
    cases tie with
    | reply => rfl
    | descendant => rfl
  unfold stubs at member
  split at member
  · cases member
  · rcases List.mem_cons.mp member with rfl | member
    · exact ⟨rfl, rfl, zero _ _ _⟩
    · split at member
      · split at member
        · rw [List.mem_singleton.mp member]
          exact ⟨rfl, rfl, zero _ _ _⟩
        · cases member
      · cases member

theorem counter_of_made {rest : List ThreadMetadata}
    (fresh : ∀ row ∈ rest, row ∈ stubs community m) {row : ThreadMetadata}
    (member : row ∈ m.row community :: rest) (tie : Tie) :
    row.communityId = community ∧ tie.counter row = 0 := by
  rcases List.mem_cons.mp member with rfl | later
  · cases tie with
    | reply => exact ⟨rfl, rfl⟩
    | descendant => exact ⟨rfl, rfl⟩
  · have stub := stub_of_mem_stubs (fresh row later)
    exact ⟨stub.1, stub.2.2 tie⟩

end

theorem exists_stub (community : CommunityId) {m : ThreadMetadataParams} {parent root : EventId}
    (isParent : m.parentEventId = some parent) (isRoot : m.rootEventId = some root) (tie : Tie) :
    ∃ row ∈ stubs community m, row.isAbout community (tie.pick parent root) = true := by
  simp only [stubs, isParent, isRoot]
  have first (createdAt : Int) (rest : List ThreadMetadata) :
      ∃ row ∈ ThreadMetadata.stub community parent createdAt m.channelId :: rest,
        row.isAbout community parent = true :=
    ⟨_, List.mem_cons_self, isAbout_iff.mpr ⟨rfl, rfl⟩⟩
  cases tie with
  | reply => exact first _ _
  | descendant =>
    by_cases same : root = parent
    · rw [Tie.pick, same]
      exact first _ _
    · rw [if_pos same]
      exact ⟨_, List.mem_cons_of_mem _ (List.mem_singleton.mpr rfl), isAbout_iff.mpr ⟨rfl, rfl⟩⟩

/-! ### What is live -/

namespace ThreadStore

variable {ids : Catalogue} {s : ThreadStore} {community : CommunityId} {id : EventId} {tie : Tie}

/-- What a sequence of insertions and deletions keeps that makes no row beside a counting one. -/
structure Sound (ids : Catalogue) (s : ThreadStore) : Prop where
  events : Cataloged ids s.events
  counted : s.Counted
  /-- An event with an ancestry is stored. -/
  stored : ∀ row ∈ s.threads, row.parentEventId ≠ none → s.stored row.communityId row.eventId = true
  /-- Its ancestors have rows. -/
  known : ∀ row ∈ s.threads, row.parentEventId ≠ none → ∀ tie : Tie, ∀ id ∈ tie.ancestor row,
    ∃ row' ∈ s.threads, row'.isAbout row.communityId id = true

theorem Sound.liveReplies_eq_zero (sound : s.Sound ids)
    (absent : ∀ row ∈ s.threads, row.isAbout community id = false) :
    s.liveReplies tie community id = 0 := by
  refine List.countP_eq_zero.mpr fun event _ live => ?_
  rw [decide_eq_true_eq] at live
  obtain ⟨row, found, ancestor⟩ := Option.bind_eq_some_iff.mp live.2.2
  obtain ⟨member, rfl, -, reply⟩ := replyRow_eq_some found
  obtain ⟨row', there, about⟩ := sound.known row member reply tie id ancestor
  rw [absent row' there] at about
  cases about

theorem Sound.replyRow_eq_none (sound : s.Sound ids) (new : s.stored community id = false) :
    replyRow s.threads community id = none := by
  refine Db.replyRow_eq_none fun row member about => ?_
  obtain ⟨rfl, rfl⟩ := isAbout_iff.mp about
  by_contra reply
  rw [sound.stored row member reply] at new
  cases new

theorem stored_append {s' : ThreadStore} {event : EventRow}
    (events : s'.events = s.events ++ [event]) (stored : s.stored community id = true) :
    s'.stored community id = true := by
  obtain ⟨row, member, facts⟩ := stored_iff.mp stored
  exact stored_iff.mpr ⟨row, events ▸ List.mem_append_left _ member, facts⟩

theorem liveReplies_append {s' : ThreadStore} {event : EventRow}
    (events : s'.events = s.events ++ [event])
    (kept : ∀ row ∈ s.events, row.communityId = community →
      s'.storedAncestor tie community row.event.id = s.storedAncestor tie community row.event.id) :
    s'.liveReplies tie community id = s.liveReplies tie community id +
      if event.communityId = community ∧ event.deleted = false ∧
        s'.storedAncestor tie community event.event.id = some id then 1 else 0 := by
  rw [liveReplies, liveReplies, events, List.countP_append, List.countP_singleton]
  congr 1
  · refine List.countP_congr fun row member => ?_
    simp only [decide_eq_true_eq]
    refine and_congr_right fun inside => ?_
    rw [kept row member inside]
  · simp only [decide_eq_true_eq]

/-! ### Insertions -/

section

variable {s' : ThreadStore} {m : ThreadMetadataParams} {parent root : EventId} {now : Int}
  {rest : List ThreadMetadata}

theorem storedAncestor_insert
    (threads : s'.threads =
      (s.threads ++ m.row community :: rest).map (told community parent root now))
    (isParent : m.parentEventId = some parent) (isRoot : m.rootEventId = some root)
    (plain : ∀ row ∈ rest, row.parentEventId = none)
    (absent : replyRow s.threads community m.eventId = none) (c : CommunityId) (e : EventId) :
    s'.storedAncestor tie c e =
      if c = community ∧ e = m.eventId then some (tie.pick parent root)
      else s.storedAncestor tie c e := by
  rw [storedAncestor, threads, replyRow_map lineage_told, bind_ancestor_map lineage_told,
    replyRow_append]
  split
  next here =>
    obtain ⟨rfl, rfl⟩ := here
    have own : replyRow (m.row c :: rest) c m.eventId = some (m.row c) := by
      refine List.find?_cons_of_pos ?_
      rw [Bool.and_eq_true, isAbout_iff]
      exact ⟨⟨rfl, rfl⟩, Option.isSome_iff_exists.mpr ⟨parent, isParent⟩⟩
    rw [absent, own, Option.none_or, Option.bind_some]
    cases tie with
    | reply => exact isParent
    | descendant => exact isRoot
  next elsewhere =>
    have none : replyRow (m.row community :: rest) c e = none := by
      refine Db.replyRow_eq_none fun row member about => ?_
      rcases List.mem_cons.mp member with rfl | later
      · obtain ⟨rfl, rfl⟩ := isAbout_iff.mp about
        exact absurd ⟨rfl, rfl⟩ elsewhere
      · exact plain row later
    rw [none, Option.or_none]
    rfl

theorem splits_iff : s.splits community m = true ↔
    s.threads.any (·.key = (m.row community).key) = false ∧
      ∃ row ∈ m.row community :: stubs community m, (∀ old ∈ s.threads, old.key ≠ row.key) ∧
        ∃ old ∈ s.threads, old.isAbout community row.eventId = true ∧
          ∃ tie : Tie, tie.counter old ≠ 0 := by
  have counts (old : ThreadMetadata) :
      (∃ tie : Tie, tie.counter old ≠ 0) ↔ old.replyCount ≠ 0 ∨ old.descendantCount ≠ 0 := by
    constructor
    · rintro ⟨tie | tie, nonzero⟩
      · exact Or.inl nonzero
      · exact Or.inr nonzero
    · rintro (nonzero | nonzero)
      · exact ⟨.reply, nonzero⟩
      · exact ⟨.descendant, nonzero⟩
  simp only [splits, Bool.and_eq_true, Bool.not_eq_true', counts, List.any_eq_true,
    Bool.or_eq_true, decide_eq_true_eq]
  refine and_congr_right fun _ => exists_congr fun row => and_congr_right fun _ =>
    and_congr_left fun _ => ?_
  simp only [List.any_eq_false, decide_eq_true_eq]

theorem Sound.counts_nothing (sound : s.Sound ids) (together : s.splits community m = false)
    (free : s.threads.any (·.key = (m.row community).key) = false) {row : ThreadMetadata}
    (listed : row ∈ m.row community :: stubs community m)
    (fresh : ∀ old ∈ s.threads, old.key ≠ row.key) :
    s.liveReplies tie community row.eventId = 0 := by
  by_cases absent : ∀ old ∈ s.threads, old.isAbout community row.eventId = false
  · exact sound.liveReplies_eq_zero absent
  · simp only [not_forall, Bool.not_eq_false] at absent
    obtain ⟨old, member, about⟩ := absent
    obtain ⟨inside, same⟩ := isAbout_iff.mp about
    -- The row that is there counts nothing.
    have zero : tie.counter old = 0 := by
      by_contra counts
      have split := splits_iff.mpr ⟨free, row, listed, fresh, old, member, about, tie, counts⟩
      rw [together] at split
      cases split
    have count := sound.counted tie old member
    rw [zero, inside, same] at count
    exact_mod_cast count.symm

section

variable {channelId : Option Uuid} {createdAt : Int}
  (time : fromTimestamp (asI64 (ids.event id).createdAt) = some createdAt)
  (free : ∀ row ∈ s.events,
    row.key ≠ (EventRow.ofEvent community (ids.event id) channelId createdAt).key)
  (events : s'.events =
    s.events ++ [EventRow.ofEvent community (ids.event id) channelId createdAt])

include time free events

theorem Sound.appended (sound : s.Sound ids) (threads : s'.threads = s.threads) :
    s'.Sound ids where
  events := events ▸ sound.events.grow time free
  counted tie row member := by
    rw [threads] at member
    have same (c : CommunityId) (e : EventId) :
        s'.storedAncestor tie c e = s.storedAncestor tie c e := by
      rw [storedAncestor, storedAncestor, threads]
    rw [liveReplies_append events fun _ _ _ => same _ _, if_neg]
    · exact sound.counted tie row member
    · rintro ⟨inside, -, ancestor⟩
      have none := sound.replyRow_eq_none (sound.events.not_stored time free)
      rw [same, ← inside] at ancestor
      change (replyRow s.threads community (ids.event id).id).bind tie.ancestor = _ at ancestor
      rw [ids.id_event, none] at ancestor
      cases ancestor
  stored row member reply := stored_append events (sound.stored row (threads ▸ member) reply)
  known row member reply tie id isAncestor := by
    rw [threads] at member ⊢
    exact sound.known row member reply tie id isAncestor

theorem Sound.inserted (sound : s.Sound ids) (isSelf : m.eventId = id)
    (isParent : m.parentEventId = some parent) (isRoot : m.rootEventId = some root)
    (together : s.splits community m = false)
    (threads : s'.threads = insertThread s.threads community m now) : s'.Sound ids := by
  have new := sound.events.not_stored time free
  have absent : replyRow s.threads community m.eventId = none :=
    sound.replyRow_eq_none (isSelf ▸ new)
  by_cases taken : s.threads.any (·.key = (m.row community).key) = true
  · -- The event was known by a reply: its ancestry is not stored.
    exact sound.appended time free events (threads.trans (insertThread_of_taken taken))
  rw [Bool.not_eq_true] at taken
  obtain ⟨rest, rows, fresh, stubbed⟩ := insertThread_eq isParent isRoot taken
  rw [rows] at threads
  have ancestor (tie : Tie) := @storedAncestor_insert s community tie s' m parent root now rest
    threads isParent isRoot (fun row member => (stub_of_mem_stubs (fresh row member).1).2.1) absent
  -- A row that is made counts nothing, and nothing is live that it would count.
  have made (tie : Tie) (row : ThreadMetadata) (member : row ∈ m.row community :: rest) :
      row.communityId = community ∧ tie.counter row = 0 ∧
        s.liveReplies tie community row.eventId = 0 := by
    obtain ⟨inside, zero⟩ := counter_of_made (fun row later => (fresh row later).1) member tie
    refine ⟨inside, zero, ?_⟩
    rcases List.mem_cons.mp member with rfl | later
    · exact sound.counts_nothing together taken List.mem_cons_self fun old there same =>
        List.any_eq_false.mp taken old there (decide_eq_true same)
    · obtain ⟨stub, other⟩ := fresh row later
      exact sound.counts_nothing together taken (List.mem_cons_of_mem _ stub) other
  refine ⟨events ▸ sound.events.grow time free, ?_, ?_, ?_⟩
  · intro tie row member
    rw [threads] at member
    obtain ⟨row, base, rfl⟩ := List.mem_map.mp member
    have before : tie.counter row = s.liveReplies tie row.communityId row.eventId := by
      rcases List.mem_append.mp base with old | new
      · exact sound.counted tie row old
      · obtain ⟨inside, zero, none⟩ := made tie row new
        rw [zero, inside, none]
        rfl
    have others : ∀ event ∈ s.events, event.communityId = row.communityId →
        s'.storedAncestor tie row.communityId event.event.id =
          s.storedAncestor tie row.communityId event.event.id := by
      intro event there inside
      rw [ancestor, if_neg]
      rintro ⟨rfl, same⟩
      have here := stored_iff.mpr ⟨event, there, inside, same.trans isSelf⟩
      rw [new] at here
      cases here
    change tie.counter (told community parent root now row) =
      s'.liveReplies tie row.communityId row.eventId
    rw [counter_told, before, liveReplies_append events others, Int.natCast_add, ancestor]
    congr 1
    have own : (EventRow.ofEvent community (ids.event id) channelId createdAt).event.id =
        m.eventId := (ids.id_event id).trans isSelf.symm
    by_cases about : row.isAbout community (tie.pick parent root) = true
    · obtain ⟨inside, same⟩ := isAbout_iff.mp about
      rw [if_pos about, if_pos ⟨inside.symm, rfl, by rw [if_pos ⟨inside, own⟩, same]⟩]
      rfl
    · rw [if_neg about, if_neg]
      · rfl
      · rintro ⟨inside, -, found⟩
        rw [if_pos ⟨inside.symm, own⟩] at found
        exact about (isAbout_iff.mpr ⟨inside.symm, (Option.some.inj found).symm⟩)
  · intro row member reply
    rw [threads] at member
    obtain ⟨row, base, rfl⟩ := List.mem_map.mp member
    rcases List.mem_append.mp base with old | new
    · exact stored_append events (sound.stored row old reply)
    · rcases List.mem_cons.mp new with rfl | later
      · refine stored_iff.mpr ⟨_, events ▸ List.mem_append_right _ (List.mem_singleton.mpr rfl),
          rfl, ?_⟩
        exact (ids.id_event id).trans isSelf.symm
      · exact absurd (stub_of_mem_stubs (fresh row later).1).2.1 reply
  · intro row member reply tie e isAncestor
    rw [threads] at member ⊢
    obtain ⟨row, base, rfl⟩ := List.mem_map.mp member
    rw [tie.ancestor_congr (lineage_told row)] at isAncestor
    -- Both the old ancestors and those of the new reply are among the rows.
    have there : ∃ row' ∈ s.threads ++ m.row community :: rest,
        row'.isAbout row.communityId e = true := by
      rcases List.mem_append.mp base with old | new
      · obtain ⟨row', here, about⟩ := sound.known row old reply tie e isAncestor
        exact ⟨row', List.mem_append_left _ here, about⟩
      · rcases List.mem_cons.mp new with rfl | later
        · have picked : tie.pick parent root = e := by
            cases tie with
            | reply => exact Option.some.inj (isParent.symm.trans isAncestor)
            | descendant => exact Option.some.inj (isRoot.symm.trans isAncestor)
          obtain ⟨stub, listed, about⟩ := exists_stub community isParent isRoot tie
          obtain ⟨row', here, same⟩ := stubbed stub listed
          obtain ⟨inside, isPicked⟩ := isAbout_iff.mp about
          obtain ⟨sameCommunity, others⟩ := Prod.mk.inj same
          exact ⟨row', here, isAbout_iff.mpr ⟨sameCommunity.trans inside,
            (congrArg Prod.snd others).trans (isPicked.trans picked)⟩⟩
        · exact absurd (stub_of_mem_stubs (fresh row later).1).2.1 reply
    obtain ⟨row', here, about⟩ := there
    exact ⟨_, List.mem_map_of_mem here, about⟩

end

end

/-! ### Deletions -/

/-- A row that has been told of a deletion, by the ancestors of the event. -/
def untold (community : CommunityId) (ancestor : Tie → Option EventId) (row : ThreadMetadata) :
    ThreadMetadata :=
  { row with
    replyCount :=
      if (ancestor .reply).any (row.isAbout community) then max (row.replyCount - 1) 0
      else row.replyCount
    descendantCount :=
      if (ancestor .descendant).any (row.isAbout community) then max (row.descendantCount - 1) 0
      else row.descendantCount }

theorem lineage_untold (community : CommunityId) (ancestor : Tie → Option EventId)
    (row : ThreadMetadata) : (untold community ancestor row).lineage = row.lineage := rfl

theorem counter_untold (community : CommunityId) (ancestor : Tie → Option EventId) (tie : Tie)
    (row : ThreadMetadata) : tie.counter (untold community ancestor row) =
      if (ancestor tie).any (row.isAbout community) then max (tie.counter row - 1) 0
      else tie.counter row := by
  cases tie with
  | reply => rfl
  | descendant => rfl

theorem events_deleteReply : (s.deleteReply community id).events =
    (s.softDeleteEvent community id).1.events := by
  simp only [deleteReply, softDeleteEventAndUpdateThread]
  split
  · split
    · rfl
    · split <;> rfl
  · rfl

theorem threads_deleteReply : (s.deleteReply community id).threads =
    if (s.softDeleteEvent community id).2 then
      s.threads.map (untold community (s.storedAncestor · community id))
    else s.threads := by
  simp only [deleteReply, softDeleteEventAndUpdateThread]
  split
  next deleted =>
    cases parent : s.storedAncestor .reply community id with
    | none =>
      -- Without a parent there is no root.
      have root : s.storedAncestor .descendant community id = none := by
        unfold storedAncestor at parent ⊢
        cases found : replyRow s.threads community id with
        | none => rfl
        | some row =>
          rw [found] at parent
          exact absurd parent (replyRow_eq_some found).2.2.2
      have same : untold community (s.storedAncestor · community id) = fun row => row := by
        funext row
        simp [untold, parent, root]
      rw [same, List.map_id']
      rfl
    | some parent' =>
      cases root : s.storedAncestor .descendant community id with
      | none =>
        refine List.map_congr_left fun row _ => ?_
        by_cases about : row.isAbout community parent' = true
        · simp [untold, parent, root, about]
        · simp [untold, parent, root, about]
      | some root' =>
        simp only [updateThread, List.map_map]
        refine List.map_congr_left fun row _ => ?_
        rw [Function.comp_apply]
        have same : ThreadMetadata.isAbout community root'
            { row with replyCount := max (row.replyCount - 1) 0 } =
              row.isAbout community root' := rfl
        by_cases first : row.isAbout community parent' = true
        · by_cases second : row.isAbout community root' = true
          · simp [untold, parent, root, first, second, same]
          · simp [untold, parent, root, first, second, same]
        · by_cases second : row.isAbout community root' = true
          · simp [untold, parent, root, first, second]
          · simp [untold, parent, root, first, second]
  next => rfl

theorem storedAncestor_deleteReply (c : CommunityId) (e : EventId) :
    (s.deleteReply community id).storedAncestor tie c e = s.storedAncestor tie c e := by
  rw [storedAncestor, threads_deleteReply]
  split
  · rw [replyRow_map (lineage_untold _ _), bind_ancestor_map (lineage_untold _ _)]
    rfl
  · rfl

/-- Exactly the event that is deleted is no longer live. -/
theorem liveReplies_deleteReply (cataloged : Cataloged ids s.events) (c : CommunityId)
    (i : EventId) : (s.deleteReply community id).liveReplies tie c i +
      (if (s.softDeleteEvent community id).2 = true ∧ c = community ∧
        s.storedAncestor tie community id = some i then 1 else 0) = s.liveReplies tie c i := by
  let target (row : EventRow) : Bool := row.communityId = community ∧ row.event.id = id
  let live (row : EventRow) : Bool := row.communityId = c ∧ row.deleted = false ∧
    s.storedAncestor tie c row.event.id = some i
  have after : (s.deleteReply community id).liveReplies tie c i =
      s.events.countP fun row => live row && !target row := by
    rw [liveReplies, events_deleteReply]
    simp only [softDeleteEvent, List.countP_map, storedAncestor_deleteReply]
    refine List.countP_congr fun row _ => ?_
    by_cases here : row.communityId = community ∧ row.event.id = id
    · simp [here, target]
    · have missed : target row = false := decide_eq_false here
      simp only [Function.comp_apply, if_neg here, missed, Bool.not_false, Bool.and_true]
      rfl
  rw [after]
  by_cases deleted : (s.softDeleteEvent community id).2 = true
  · obtain ⟨row, member, facts⟩ := List.any_eq_true.mp deleted
    simp only [decide_eq_true_eq, Bool.not_eq_true'] at facts
    obtain ⟨inside, isTarget, alive⟩ := facts
    have others : ∀ other ∈ s.events, other ≠ row → (live other && !target other) = live other := by
      intro other there different
      have missed : target other = false := by
        rw [Bool.eq_false_iff]
        intro hit
        obtain ⟨sameCommunity, sameId⟩ := of_decide_eq_true hit
        exact different (cataloged.eq_of_id there member (sameCommunity.trans inside.symm)
          (sameId.trans isTarget.symm))
      rw [missed, Bool.not_false, Bool.and_true]
    have counts := Table.countP_add_ite (cataloged.keys.of_map _) member others
    have gone : (live row && !target row) = false := by simp [target, inside, isTarget]
    have was : live row = true ↔ c = community ∧ s.storedAncestor tie community id = some i := by
      simp only [live, decide_eq_true_eq, inside, alive, isTarget, true_and]
      constructor
      · rintro ⟨rfl, ancestor⟩
        exact ⟨rfl, ancestor⟩
      · rintro ⟨rfl, ancestor⟩
        exact ⟨rfl, ancestor⟩
    rw [gone] at counts
    simp only [was, Bool.false_eq_true, if_false, Nat.add_zero] at counts
    simp only [deleted, true_and]
    exact counts
  · rw [if_neg fun ⟨now, _⟩ => deleted now, Nat.add_zero]
    -- Whatever has the id is deleted already.
    refine List.countP_congr fun row member => ?_
    have idle : live row = true → target row = false := by
      intro alive
      rw [Bool.eq_false_iff]
      intro hit
      refine deleted (List.any_eq_true.mpr ⟨row, member, ?_⟩)
      have facts := of_decide_eq_true hit
      have up := (of_decide_eq_true alive).2.1
      simp [facts, up]
    rw [Bool.and_eq_true, Bool.not_eq_true']
    exact ⟨fun both => both.1, fun alive => ⟨alive, idle alive⟩⟩

theorem Sound.unclamped (sound : s.Sound ids) (deleted : (s.softDeleteEvent community id).2 = true)
    {ancestor : EventId} (stored : s.storedAncestor tie community id = some ancestor)
    {row : ThreadMetadata} (member : row ∈ s.threads)
    (about : row.isAbout community ancestor = true) :
    tie.counter row = (s.deleteReply community id).liveReplies tie community ancestor + 1 := by
  obtain ⟨inside, same⟩ := isAbout_iff.mp about
  have live := @liveReplies_deleteReply ids s community id tie sound.events community ancestor
  rw [if_pos ⟨deleted, rfl, stored⟩] at live
  rw [sound.counted tie row member, inside, same, ← live]
  rfl

theorem lineages_deleteReply : lineages (s.deleteReply community id).threads = lineages s.threads := by
  rw [threads_deleteReply]
  split
  · rw [lineages, List.map_map]
    rfl
  · rfl

theorem exists_of_deleteReply {row : ThreadMetadata}
    (member : row ∈ (s.deleteReply community id).threads) :
    ∃ old ∈ s.threads, old.lineage = row.lineage := by
  have line : row.lineage ∈ lineages (s.deleteReply community id).threads :=
    List.mem_map_of_mem member
  rw [lineages_deleteReply] at line
  exact List.mem_map.mp line

theorem stored_deleteReply (c : CommunityId) (e : EventId) :
    (s.deleteReply community id).stored c e = s.stored c e := by
  simp only [stored, events_deleteReply, softDeleteEvent, List.any_map]
  congr 1
  funext row
  rw [Function.comp_apply]
  split <;> rfl

theorem Sound.deleteReply (sound : s.Sound ids) (community : CommunityId) (id : EventId) :
    (s.deleteReply community id).Sound ids where
  events := by
    rw [events_deleteReply]
    exact sound.events.softDeleteEvent community id
  counted tie row member := by
    have live := @liveReplies_deleteReply ids s community id tie sound.events
    rw [threads_deleteReply] at member
    split at member
    next deleted =>
      obtain ⟨row, old, rfl⟩ := List.mem_map.mp member
      change _ = (((s.deleteReply community id).liveReplies tie row.communityId row.eventId : Nat) :
        Int)
      rw [counter_untold]
      split
      next about =>
        obtain ⟨ancestor, stored, about⟩ := (Option.any_eq_true _ _).mp about
        obtain ⟨inside, same⟩ := isAbout_iff.mp about
        rw [sound.unclamped deleted stored old about, inside, same]
        omega
      next other =>
        have same := live row.communityId row.eventId
        rw [if_neg, Nat.add_zero] at same
        · rw [same]
          exact sound.counted tie row old
        · rintro ⟨-, inside, stored⟩
          exact other ((Option.any_eq_true _ _).mpr ⟨_, stored, isAbout_iff.mpr ⟨inside, rfl⟩⟩)
    next still =>
      have same := live row.communityId row.eventId
      rw [if_neg fun facts => still facts.1, Nat.add_zero] at same
      rw [same]
      exact sound.counted tie row member
  stored row member reply := by
    obtain ⟨old, there, same⟩ := exists_of_deleteReply member
    obtain ⟨sameCommunity, params⟩ := Prod.mk.inj same
    have sameId : old.eventId = row.eventId := congrArg ThreadMetadataParams.eventId params
    rw [stored_deleteReply, ← sameCommunity, ← sameId]
    exact sound.stored old there fun plain =>
      reply ((Tie.ancestor_congr same .reply).symm.trans plain)
  known row member reply tie e isAncestor := by
    obtain ⟨old, there, same⟩ := exists_of_deleteReply member
    rw [← Tie.ancestor_congr same] at isAncestor
    obtain ⟨other, here, about⟩ := sound.known old there
      (fun plain => reply ((Tie.ancestor_congr same .reply).symm.trans plain)) tie e isAncestor
    have line : other.lineage ∈ lineages (s.deleteReply community id).threads := by
      rw [lineages_deleteReply]
      exact List.mem_map_of_mem here
    obtain ⟨other', member', kept⟩ := List.mem_map.mp line
    refine ⟨other', member', ?_⟩
    have sameCommunity : old.communityId = row.communityId := congrArg Prod.fst same
    rw [ThreadMetadata.isAbout_congr kept, ← sameCommunity]
    exact about

end ThreadStore

/-! ### Steps -/

namespace ThreadStore

variable {ids : Catalogue} {s : ThreadStore} {community : CommunityId} {id : EventId}
  {channelId : Option Uuid} {threadMeta : Option ThreadMetadataParams} {now : Int}

theorem insert_of_admits (admits : s.admits community (ids.event id) = true) :
    ∃ createdAt, fromTimestamp (asI64 (ids.event id).createdAt) = some createdAt ∧
      (∀ row ∈ s.events,
        row.key ≠ (EventRow.ofEvent community (ids.event id) channelId createdAt).key) ∧
      insertEventWithThreadMetadata s community (ids.event id) channelId threadMeta now =
        .ok (⟨s.events ++ [EventRow.ofEvent community (ids.event id) channelId createdAt],
          threadMeta.elim s.threads fun m => insertThread s.threads community m now⟩, true) := by
  simp only [ThreadStore.admits, Bool.and_eq_true, decide_eq_true_eq, Bool.not_eq_true'] at admits
  obtain ⟨⟨auth, ephemeral⟩, rest⟩ := admits
  obtain ⟨createdAt, time, free⟩ := (Option.any_eq_true _ _).mp rest
  rw [Bool.not_eq_true'] at free
  refine ⟨createdAt, time, fun row member same => ?_, ?_⟩
  · exact List.any_eq_false.mp free row member (decide_eq_true same)
  · have untaken : ¬ (s.events.any (·.key = (EventRow.ofEvent community (ids.event id) channelId
        createdAt).key) = true) := fun taken => Bool.false_ne_true (free.symm.trans taken)
    simp only [insertEventWithThreadMetadata, bind_eq_ok, ensure_eq_ok, okOr_eq_ok]
    refine ⟨(), auth, (), ephemeral, createdAt, time, ?_⟩
    split
    next taken => exact absurd taken untaken
    next =>
      cases threadMeta with
      | none => rfl
      | some m => rfl

theorem insert_of_not_admits (refused : s.admits community (ids.event id) = false)
    {s' : ThreadStore} {isNew : Bool}
    (inserted : insertEventWithThreadMetadata s community (ids.event id) channelId threadMeta now =
      .ok (s', isNew)) : s' = s := by
  obtain ⟨createdAt, time, same | ⟨free, -⟩⟩ := insert_eq_ok inserted
  · exact same
  · simp only [insertEventWithThreadMetadata, bind_eq_ok, ensure_eq_ok, okOr_eq_ok] at inserted
    obtain ⟨_, auth, _, ephemeral, -⟩ := inserted
    have untaken : s.events.any
        (·.key = (EventRow.ofEvent community (ids.event id) none createdAt).key) = false :=
      List.any_eq_false.mpr fun row member taken => free row member (of_decide_eq_true taken)
    have admits : s.admits community (ids.event id) = true := by
      rw [ThreadStore.admits, time, Option.any_some, untaken, ephemeral]
      simp [auth]
    rw [refused] at admits
    cases admits

end ThreadStore

namespace Threading

variable {ids : Catalogue} {t : Threading}

/-- What the runs keep that make no row beside a counting one. -/
structure Sound (ids : Catalogue) (t : Threading) : Prop where
  store : t.store.Sound ids
  resolved : ∀ sub ∈ t.resolved, ∀ m, sub.threadMeta = some m → m.eventId = sub.id ∧
    ∃ parent root, m.parentEventId = some parent ∧ m.rootEventId = some root

theorem Sound.empty : Sound ids {} where
  store :=
    { events := Tidy.empty.events
      counted := fun _ _ member => absurd member List.not_mem_nil
      stored := fun _ member => absurd member List.not_mem_nil
      known := fun _ member => absurd member List.not_mem_nil }
  resolved _ member := absurd member List.not_mem_nil

theorem Sound.submitted (sound : t.Sound ids) {sub : Submission}
    (new : ∀ m, sub.threadMeta = some m → m.eventId = sub.id ∧
      ∃ parent root, m.parentEventId = some parent ∧ m.rootEventId = some root) :
    Sound ids { t with resolved := t.resolved ++ [sub] } where
  store := sound.store
  resolved other member := by
    rcases List.mem_append.mp member with old | here
    · exact sound.resolved other old
    · rw [List.mem_singleton.mp here]
      exact new

theorem perform_insert_of_admits {n : Nat} {now : Int} {sub : Submission}
    (found : t.resolved[n]? = some sub)
    (admits : t.store.admits sub.communityId (ids.event sub.id) = true) :
    ∃ createdAt, fromTimestamp (asI64 (ids.event sub.id).createdAt) = some createdAt ∧
      (∀ row ∈ t.store.events, row.key ≠
        (EventRow.ofEvent sub.communityId (ids.event sub.id) sub.channelId createdAt).key) ∧
      t.perform ids (.insert n now) =
        { t with
          store := ⟨t.store.events ++
            [EventRow.ofEvent sub.communityId (ids.event sub.id) sub.channelId createdAt],
            sub.threadMeta.elim t.store.threads fun m =>
              insertThread t.store.threads sub.communityId m now⟩ } := by
  obtain ⟨createdAt, time, free, inserted⟩ := @ThreadStore.insert_of_admits ids t.store
    sub.communityId sub.id sub.channelId sub.threadMeta now admits
  refine ⟨createdAt, time, free, ?_⟩
  simp only [Threading.perform, found, inserted]

theorem perform_insert_of_not_admits {n : Nat} {now : Int} {sub : Submission}
    (found : t.resolved[n]? = some sub)
    (refused : t.store.admits sub.communityId (ids.event sub.id) = false) :
    t.perform ids (.insert n now) = t := by
  simp only [Threading.perform, found]
  split
  next store isNew inserted => rw [ThreadStore.insert_of_not_admits refused inserted]
  next => rfl

theorem Sound.insert (sound : t.Sound ids) {n : Nat} {now : Int}
    (together : t.splits ids (.insert n now) = false) : (t.perform ids (.insert n now)).Sound ids := by
  cases found : t.resolved[n]? with
  | none =>
    simp only [Threading.perform, found]
    exact sound
  | some sub =>
    by_cases admits : t.store.admits sub.communityId (ids.event sub.id) = true
    · simp only [Threading.splits, found, Option.any_some, admits, Bool.true_and] at together
      obtain ⟨createdAt, time, free, performed⟩ :=
        @perform_insert_of_admits ids t n now sub found admits
      rw [performed]
      refine ⟨?_, sound.resolved⟩
      cases given : sub.threadMeta with
      | none => exact sound.store.appended time free rfl rfl
      | some m =>
        rw [given, Option.any_some] at together
        obtain ⟨isSelf, parent, root, isParent, isRoot⟩ :=
          sound.resolved sub (List.mem_of_getElem? found) m given
        exact sound.store.inserted time free rfl isSelf isParent isRoot together rfl
    · rw [Bool.not_eq_true] at admits
      rw [perform_insert_of_not_admits found admits]
      exact sound

theorem Sound.perform (sound : t.Sound ids) (action : ThreadingAction)
    (together : t.splits ids action = false) : (t.perform ids action).Sound ids := by
  cases action with
  | resolve community id channel luck =>
    simp only [Threading.perform]
    split
    next threadMeta resolved =>
      refine sound.submitted fun m here => ?_
      change threadMeta = some m at here
      subst here
      obtain ⟨parent, _, facts⟩ := resolve_eq_ok resolved
      exact ⟨facts.eventId.trans (ids.id_event id), parent, _, facts.parentId, facts.rootId⟩
    next => exact sound
  | submit community id channelId => exact sound.submitted nofun
  | insert n now => exact sound.insert together
  | softDelete community id => exact ⟨sound.store.deleteReply community id, sound.resolved⟩

theorem Sound.unclamped (sound : t.Sound ids) (action : ThreadingAction) : t.Unclamped action := by
  cases action with
  | softDelete community id =>
    intro deleted tie ancestor stored row member about
    rw [sound.store.unclamped deleted stored member about]
    exact Int.natCast_pos.mpr (Nat.succ_pos _)
  | _ => trivial

/-- The row that is made and the one that counts something cannot both be right. -/
theorem Sound.not_counted (sound : t.Sound ids) {action : ThreadingAction}
    (splits : t.splits ids action = true) : ¬ (t.perform ids action).store.Counted := by
  cases action with
  | insert n now =>
    obtain ⟨sub, found, both⟩ := (Option.any_eq_true _ _).mp splits
    obtain ⟨admits, rest⟩ := Bool.and_eq_true_iff.mp both
    obtain ⟨m, given, splits⟩ := (Option.any_eq_true _ _).mp rest
    obtain ⟨-, parent, root, isParent, isRoot⟩ :=
      sound.resolved sub (List.mem_of_getElem? found) m given
    obtain ⟨free, row, listed, fresh, old, there, about, tie, nonzero⟩ :=
      ThreadStore.splits_iff.mp splits
    obtain ⟨createdAt, -, -, performed⟩ := @perform_insert_of_admits ids t n now sub found admits
    obtain ⟨rest, threads, stub, stubbed⟩ := @insertThread_eq _ _ _ _ _ now isParent isRoot free
    rw [performed, given, Option.elim_some, threads]
    intro counted
    -- The row has been made, if not with this content then with this key.
    have made : ∃ made ∈ m.row sub.communityId :: rest, made.key = row.key := by
      rcases List.mem_cons.mp listed with rfl | later
      · exact ⟨_, List.mem_cons_self, rfl⟩
      · obtain ⟨made, member, same⟩ := stubbed row later
        rcases List.mem_append.mp member with before | new
        · exact absurd same (fresh made before)
        · exact ⟨made, new, same⟩
    obtain ⟨made, new, same⟩ := made
    obtain ⟨inside, zero⟩ := counter_of_made (fun row later => (stub row later).1) new tie
    have sameId : made.eventId = row.eventId := congrArg (fun key => key.2.2) same
    obtain ⟨oldInside, oldId⟩ := isAbout_iff.mp about
    -- Both rows are told the same, and the same is live.
    have told : made.isAbout sub.communityId (tie.pick parent root) =
        old.isAbout sub.communityId (tie.pick parent root) := by
      rw [ThreadMetadata.isAbout, ThreadMetadata.isAbout, inside, sameId, oldInside, oldId]
    have one := counted tie _ (List.mem_map_of_mem (List.mem_append_right _ new))
    have other := counted tie _ (List.mem_map_of_mem (List.mem_append_left _ there))
    have live : ∀ row : ThreadMetadata, row.communityId = sub.communityId →
        ∀ id, row.eventId = id → (Db.told sub.communityId parent root now row).communityId =
          sub.communityId ∧ (Db.told sub.communityId parent root now row).eventId = id :=
      fun _ inside _ same => ⟨inside, same⟩
    rw [counter_told, (live made inside _ sameId).1, (live made inside _ sameId).2, zero, told] at one
    rw [counter_told, (live old oldInside _ oldId).1, (live old oldInside _ oldId).2, ← one] at other
    exact nonzero (by omega)
  | _ => cases splits

end Threading

/-- In a run all counters are what is live, and no deletion needs the clamp, exactly as long as no
row is made for an event that has another one which counts something. -/
theorem Threading.counters_exact_iff (ids : Catalogue) (actions : List ThreadingAction) :
    ((∀ n, ((actions.take n).foldl (Threading.perform ids) {}).store.Counted) ∧
      Along (Threading.perform ids) Threading.Unclamped {} actions) ↔
    Along (Threading.perform ids) (fun t a => t.splits ids a = false) {} actions := by
  have general : ∀ t : Threading, t.Sound ids →
      (((∀ n, ((actions.take n).foldl (Threading.perform ids) t).store.Counted) ∧
        Along (Threading.perform ids) Threading.Unclamped t actions) ↔
      Along (Threading.perform ids) (fun t a => t.splits ids a = false) t actions) := by
    induction actions with
    | nil => exact fun t sound => ⟨fun _ => trivial, fun _ => ⟨fun n => by simpa using sound.store.counted, trivial⟩⟩
    | cons action rest ih =>
      intro t sound
      constructor
      · rintro ⟨counted, unclamped⟩
        -- A step that splits shows at once.
        have together : t.splits ids action = false := by
          rw [Bool.eq_false_iff]
          exact fun splits => sound.not_counted splits (counted 1)
        refine ⟨together, (ih _ (sound.perform action together)).mp ⟨fun n => ?_, unclamped.2⟩⟩
        exact counted (n + 1)
      · rintro ⟨together, later⟩
        obtain ⟨counted, unclamped⟩ := (ih _ (sound.perform action together)).mpr later
        refine ⟨fun n => ?_, sound.unclamped action, unclamped⟩
        cases n with
        | zero => exact sound.store.counted
        | succ n => exact counted n
  exact general {} Threading.Sound.empty

namespace Sample

/-- A thread whose root is deleted before the reply to its reply comes. -/
def orphaned : List ThreadingAction :=
  [.submit ⟨⟨1⟩⟩ idA (some ⟨7⟩), .insert 0 1, .resolve ⟨⟨1⟩⟩ idB ⟨7⟩ { now := 1 }, .insert 1 1,
    .softDelete ⟨⟨1⟩⟩ idA, .resolve ⟨⟨1⟩⟩ idC ⟨7⟩ { now := 1 }, .insert 2 1]

end Sample

/-- The root gets a second row, which has missed the first reply. -/
theorem orphaned_miscounted :
    ¬ (Sample.orphaned.foldl (Threading.perform Sample.ids) {}).store.Counted := by
  intro counted
  have wrong : ∃ row ∈ (Sample.orphaned.foldl (Threading.perform Sample.ids) {}).store.threads,
      row.descendantCount ≠ (Sample.orphaned.foldl (Threading.perform Sample.ids) {}).store.liveReplies
        .descendant row.communityId row.eventId := by decide +kernel
  obtain ⟨row, member, differs⟩ := wrong
  exact differs (counted .descendant row member)

end Db
