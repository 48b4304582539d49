import Buzz.Replica.Coverage
import Buzz.Lib.Compare
import Buzz.Lib.Guard
import Buzz.Lib.Table
import Mathlib.Data.String.Basic

/-!
# Pages that a replica serves

`route_read`, `get_channel_window_with_session` and `get_thread_replies` of `buzz-db`. A page of a
replica has every row that the writer would put on it or in front of it; soft deletes are outside
the fence, so a page can still show a row that the writer no longer has, and ends earlier for it.
-/
namespace Replica

open Lib Nostr Relay

/-! ### Rows -/

/-- The rows that are not deleted. -/
def live : List Commit → List Row
  | [] => []
  | c :: older =>
    (live older ++ c.rows).filter fun row => (row.communityId, row.id) ∉ c.deleted

theorem mem_live_append {newer log : List Commit} {row : Row} (member : row ∈ live (newer ++ log)) :
    row ∈ live log ∨ ∃ c ∈ newer, row ∈ c.rows := by
  induction newer with
  | nil => exact Or.inl member
  | cons c rest ih =>
    rcases List.mem_append.mp (List.mem_of_mem_filter member) with before | new
    · refine (ih before).imp_right ?_
      rintro ⟨d, inside, here⟩
      exact ⟨d, List.mem_cons_of_mem _ inside, here⟩
    · exact Or.inr ⟨c, List.mem_cons_self, new⟩

theorem live_sublist (log : List Commit) : (live log).Sublist (stored log) := by
  induction log with
  | nil => exact List.Sublist.refl _
  | cons c older ih => exact List.filter_sublist.trans (ih.append_right c.rows)

theorem Keyed.live {log : List Commit} (keyed : Keyed log) : ((live log).map Row.key).Nodup :=
  keyed.sublist ((live_sublist log).map Row.key)

theorem Keyed.suffix {log snapshot : List Commit} (keyed : Keyed log) (earlier : snapshot <:+ log) :
    Keyed snapshot := by
  obtain ⟨newer, rfl⟩ := earlier
  refine keyed.sublist (List.Sublist.map Row.key ?_)
  rw [stored_append]
  exact List.sublist_append_left _ _

/-! ### Queries -/

structure WindowQuery where
  communityId : CommunityId
  channelId : Uuid
  limit : Nat
  cursor : Option (Int × EventId) := none
  kindFilter : Option (List Kind) := none
deriving DecidableEq

structure ChannelWindow where
  rows : List Row
  hasMore : Bool
  nextCursor : Option (Int × EventId)
deriving DecidableEq

/-- `tm.depth IS NULL OR tm.depth = 0 OR (tm.depth = 1 AND tm.broadcast = true)`. -/
def topLevel : Option ThreadPlace → Bool
  | none => true
  | some place => place.depth = 0 || (place.depth = 1 && place.broadcast)

def WindowQuery.selects (q : WindowQuery) (row : Row) : Bool :=
  row.communityId = q.communityId && row.channelId = some q.channelId && topLevel row.thread &&
    (q.cursor.all fun (ts, id) =>
      row.createdAt < ts || (row.createdAt = ts && id.toHex < row.id.toHex)) &&
    q.kindFilter.all fun kinds => kinds = [] || kinds.contains row.kind

/-- `ORDER BY e.created_at DESC, e.id ASC`. -/
def windowOrder (a b : Row) : Ordering :=
  (compare b.createdAt a.createdAt).then (compare a.id.toHex b.id.toHex)

instance : Std.TransCmp windowOrder := by
  unfold windowOrder
  infer_instance

theorem eq_of_windowOrder {a b : Row} (tie : windowOrder a b = .eq) :
    a.createdAt = b.createdAt ∧ a.id = b.id := by
  obtain ⟨time, id⟩ := Ordering.then_eq_eq.mp tie
  exact ⟨(compare_eq_iff_eq.mp time).symm, Hex64.toHex_injective (compare_eq_iff_eq.mp id)⟩

def getChannelWindowOn (log : List Commit) (q : WindowQuery) : ChannelWindow :=
  let fetched := (sortBy windowOrder ((live log).filter q.selects)).take (q.limit + 1)
  let rows := fetched.take q.limit
  let hasMore : Bool := q.limit < fetched.length
  { rows, hasMore
    nextCursor := if hasMore then rows.getLast?.map fun row => (row.createdAt, row.id) else none }

structure ThreadQuery where
  communityId : CommunityId
  rootEventId : EventId
  depthLimit : Option Nat := none
  limit : Nat
  /-- The bytes decode to a time, with or without an id, or to nothing. -/
  cursor : Option (Option (Int × Option EventId)) := none
deriving DecidableEq

def afterCursor (row : Row) : Int × Option EventId → Bool
  | (ts, some id) => ts < row.createdAt || (row.createdAt = ts && id.toHex < row.id.toHex)
  | (ts, none) => ts < row.createdAt

def ThreadQuery.selects (q : ThreadQuery) (row : Row) : Bool :=
  row.communityId = q.communityId &&
    (row.thread.any fun place =>
      place.rootEventId = q.rootEventId && q.depthLimit.all (place.depth ≤ ·)) &&
    q.cursor.join.all (afterCursor row)

/-- `ORDER BY tm.event_created_at ASC, tm.event_id ASC`. -/
def replyOrder (a b : Row) : Ordering :=
  (compare a.createdAt b.createdAt).then (compare a.id.toHex b.id.toHex)

instance : Std.TransCmp replyOrder := by
  unfold replyOrder
  infer_instance

theorem eq_of_replyOrder {a b : Row} (tie : replyOrder a b = .eq) :
    a.createdAt = b.createdAt ∧ a.id = b.id := by
  obtain ⟨time, id⟩ := Ordering.then_eq_eq.mp tie
  exact ⟨compare_eq_iff_eq.mp time, Hex64.toHex_injective (compare_eq_iff_eq.mp id)⟩

theorem createdAt_le_of_replyOrder {a b : Row} (le : (replyOrder a b).isLE = true) :
    a.createdAt ≤ b.createdAt := by
  by_contra above
  rw [replyOrder, compare_gt_iff_gt.mpr (not_le.mp above)] at le
  cases le

theorem replyOrder_of_lt {a b : Row} (less : a.createdAt < b.createdAt) :
    (replyOrder a b).isLE = true := by
  rw [replyOrder, compare_lt_iff_lt.mpr less]
  rfl

def getThreadRepliesOn (log : List Commit) (q : ThreadQuery) : List Row :=
  (sortBy replyOrder ((live log).filter q.selects)).take q.limit

/-! ### Routes -/

inductive RoutePredicate where
  | bounded
  | covered (upper : Int)
  | coveredPostVerified
  | boundedOrCovered (upper : Int)
deriving DecidableEq

/-- What a request meets: the fence twice, the session of the read pool and the writer. -/
structure Reader where
  hasReadPool : Bool := true
  replicaReadMaxAge : Option Int := none
  precheckFence : ReplicaFence
  precheckNow : Int
  fence : ReplicaFence
  now : Int
  /-- The snapshot of the transaction, or why there is none. -/
  session : Except String (List Commit)
  /-- The query of the page fails on the replica. -/
  replicaError : Bool := false
  writer : List Commit

inductive Source where
  | replica
  | writer
deriving DecidableEq

namespace Reader

variable (r : Reader)

def provedReader : Except String (List Commit × TokenEntry) := do
  let snapshot ← r.session
  let observed ← okOr snapshot.head? "reader_validation_error"
  match r.fence.resolve observed.token observed.epoch with
  | .proved entry => pure (snapshot, entry)
  | .epochMismatch => .error "reader_validation_error"
  | .tokenBehind => .error "reader_token_behind"

def boundedPrecheck (newest : TokenEntry) : Except String Unit :=
  match r.replicaReadMaxAge with
  | some budget => ensure (r.precheckNow - newest.committedAt ≤ budget) "stale"
  | none => .error "disabled"

def coveredPrecheck (newest : TokenEntry) (upper : Int) : Except String Unit :=
  ensure (upper ≤ newest.fenceWall) "stale"

def precheck (newest : TokenEntry) : RoutePredicate → Except String Unit
  | .bounded => r.boundedPrecheck newest
  | .covered upper => coveredPrecheck newest upper
  | .coveredPostVerified => .ok ()
  | .boundedOrCovered upper =>
    match coveredPrecheck newest upper with
    | .ok () => .ok ()
    | .error _ => r.boundedPrecheck newest

def boundedHolds (entry : TokenEntry) : Bool :=
  r.replicaReadMaxAge.any (r.now - entry.committedAt ≤ ·)

def verdict (entry : TokenEntry) : RoutePredicate → Option String
  | .bounded => if r.boundedHolds entry then some "fresh" else none
  | .covered upper => if upper ≤ entry.fenceWall then some "covered" else none
  | .coveredPostVerified => some "covered"
  | .boundedOrCovered upper =>
    if upper ≤ entry.fenceWall then some "covered"
    else if r.boundedHolds entry then some "fresh" else none

/-- The session and its entry, or why the writer is asked. -/
def routeRead (predicate : RoutePredicate) : Except String (List Commit × TokenEntry) := do
  ensure (r.hasReadPool = true) "disabled"
  let newest ← okOr (r.precheckFence.newest r.precheckNow) "uninitialized"
  r.precheck newest predicate
  let (snapshot, entry) ← r.provedReader
  let _ ← okOr (r.verdict entry predicate) "stale"
  pure (snapshot, entry)

/-- `RoutePredicate::from_channel_cursor`. -/
def fromChannelCursor : Option (Int × EventId) → RoutePredicate
  | some (ts, _) => .covered ts
  | none => .bounded

def getChannelWindow (q : WindowQuery) : ChannelWindow × Source :=
  match r.routeRead (fromChannelCursor q.cursor) with
  | .ok (snapshot, _) =>
    if r.replicaError then (getChannelWindowOn r.writer q, .writer)
    else (getChannelWindowOn snapshot q, .replica)
  | .error _ => (getChannelWindowOn r.writer q, .writer)

/-- A full page that ends at or below the wall. -/
def verified (q : ThreadQuery) (entry : TokenEntry) (replies : List Row) : Bool :=
  q.limit ≤ replies.length && replies.getLast?.any (·.createdAt ≤ entry.fenceWall)

def getThreadReplies (q : ThreadQuery) : List Row × Source :=
  match r.routeRead (if q.cursor.isSome then .coveredPostVerified else .bounded) with
  | .ok (snapshot, entry) =>
    if r.replicaError then (getThreadRepliesOn r.writer q, .writer)
    else
      let replies := getThreadRepliesOn snapshot q
      if q.cursor.isNone || verified q entry replies then (replies, .replica)
      else (getThreadRepliesOn r.writer q, .writer)
  | .error _ => (getThreadRepliesOn r.writer q, .writer)

theorem routeRead_eq_ok {predicate : RoutePredicate} {snapshot : List Commit} {entry : TokenEntry}
    (routed : r.routeRead predicate = .ok (snapshot, entry)) : r.session = .ok snapshot ∧
      (∃ newest, snapshot.head? = some newest ∧
        r.fence.resolve newest.token newest.epoch = .proved entry) ∧
      (r.verdict entry predicate).isSome = true := by
  simp only [routeRead, bind_eq_ok, okOr_eq_ok] at routed
  obtain ⟨_, _, _, _, _, _, ⟨part, found⟩, proved, reason, verdict, returned⟩ := routed
  cases returned
  simp only [provedReader, bind_eq_ok, okOr_eq_ok] at proved
  obtain ⟨session, opened, newest, first, resolved⟩ := proved
  split at resolved
  next resolution =>
    cases resolved
    exact ⟨opened, ⟨newest, first, resolution⟩, by rw [verdict]; rfl⟩
  next => cases resolved
  next => cases resolved

theorem getChannelWindow_eq_replica {q : WindowQuery} {ts : Int} {id : EventId}
    (paged : q.cursor = some (ts, id)) (served : (r.getChannelWindow q).2 = .replica) :
    ∃ snapshot newest entry, r.session = .ok snapshot ∧ snapshot.head? = some newest ∧
      r.fence.resolve newest.token newest.epoch = .proved entry ∧ ts ≤ entry.fenceWall ∧
      (r.getChannelWindow q).1 = getChannelWindowOn snapshot q := by
  unfold getChannelWindow at served ⊢
  rw [paged, fromChannelCursor] at served ⊢
  cases routed : r.routeRead (.covered ts) with
  | error reason =>
    rw [routed] at served
    cases served
  | ok result =>
    obtain ⟨snapshot, entry⟩ := result
    obtain ⟨session, ⟨newest, first, proved⟩, verdict⟩ := r.routeRead_eq_ok routed
    rw [routed] at served
    simp only at served ⊢
    split at served
    next => cases served
    next goes =>
      refine ⟨snapshot, newest, entry, session, first, proved, ?_, by rw [if_neg goes]⟩
      -- The verdict on the proved entry let the cursor pass.
      by_contra above
      rw [Reader.verdict, if_neg above] at verdict
      cases verdict

theorem getThreadReplies_eq_replica {q : ThreadQuery} (paged : q.cursor.isSome = true)
    (served : (r.getThreadReplies q).2 = .replica) :
    ∃ snapshot newest entry, r.session = .ok snapshot ∧ snapshot.head? = some newest ∧
      r.fence.resolve newest.token newest.epoch = .proved entry ∧
      verified q entry (getThreadRepliesOn snapshot q) = true ∧
      (r.getThreadReplies q).1 = getThreadRepliesOn snapshot q := by
  unfold getThreadReplies at served ⊢
  rw [if_pos paged] at served ⊢
  have given : q.cursor.isNone = false := by
    rw [Option.isNone_eq_false_iff]
    exact paged
  cases routed : r.routeRead .coveredPostVerified with
  | error reason =>
    rw [routed] at served
    cases served
  | ok result =>
    obtain ⟨snapshot, entry⟩ := result
    obtain ⟨session, ⟨newest, first, proved⟩, _⟩ := r.routeRead_eq_ok routed
    rw [routed] at served
    simp only [given, Bool.false_or] at served ⊢
    split at served
    next => cases served
    next goes =>
      rw [if_neg goes]
      split at served
      next full =>
        exact ⟨snapshot, newest, entry, session, first, proved, full, by rw [if_pos full]⟩
      next => cases served

end Reader

/-! ### Complete pages -/

section

variable {snapshot newer log : List Commit} {wall : Int} {row : Row}

/-- What is committed after the snapshot is above the wall. -/
def Complete (snapshot log : List Commit) (wall : Int) : Prop :=
  ∃ newer, log = newer ++ snapshot ∧ ∀ c ∈ newer, ∀ row ∈ c.rows,
    row.channelId.isSome = true → wall < row.createdAt

theorem Complete.suffix (complete : Complete snapshot log wall) : snapshot <:+ log := by
  obtain ⟨newer, rfl, -⟩ := complete
  exact List.suffix_append _ _

theorem Complete.mem_live (complete : Complete snapshot log wall) (member : row ∈ live log)
    (channel : row.channelId.isSome = true) (old : row.createdAt ≤ wall) : row ∈ live snapshot := by
  obtain ⟨newer, rfl, above⟩ := complete
  rcases mem_live_append member with here | ⟨c, inside, late⟩
  · exact here
  · exact absurd (above c inside row late channel) (Int.not_lt.mpr old)

theorem Complete.mem_commit (complete : Complete snapshot log wall) {c : Commit} (inside : c ∈ log)
    (member : row ∈ c.rows) (channel : row.channelId.isSome = true) (old : row.createdAt ≤ wall) :
    c ∈ snapshot := by
  obtain ⟨newer, rfl, above⟩ := complete
  rcases List.mem_append.mp inside with late | here
  · exact absurd (above c late row member channel) (Int.not_lt.mpr old)
  · exact here

/-- A row is on the page; or else the page is full, all of it comes no later, and it shows a row
that the writer has deleted. -/
def OnOrAfter (order : Row → Row → Ordering) (limit : Nat) (page : List Row) (log : List Commit)
    (row : Row) : Prop :=
  row ∈ page ∨ page.length = limit ∧ (∀ r ∈ page, (order r row).isLE = true) ∧
    ∃ r ∈ page, r ∉ live log

/-- Of two pages with the same query the writer's has no room for a row that a whole page of its
own rows comes before. -/
theorem onOrAfter_of_take {order : Row → Row → Ordering} [Std.TransCmp order]
    (separates : ∀ a b, order a b = .eq → a.createdAt = b.createdAt ∧ a.id = b.id)
    {selects : Row → Bool} (community : CommunityId)
    (inCommunity : ∀ row, selects row = true → row.communityId = community)
    (keyed : Keyed log) (earlier : snapshot <:+ log) {limit : Nat}
    (member : row ∈ (sortBy order ((live log).filter selects)).take limit)
    (found : row ∈ (sortBy order ((live snapshot).filter selects)).take limit ∨
      ((sortBy order ((live snapshot).filter selects)).take limit).length = limit ∧
        ∀ r ∈ (sortBy order ((live snapshot).filter selects)).take limit,
          (order r row).isLE = true) :
    OnOrAfter order limit ((sortBy order ((live snapshot).filter selects)).take limit) log row := by
  rcases found with here | ⟨full, before⟩
  · exact Or.inl here
  by_cases missing : row ∈ (sortBy order ((live snapshot).filter selects)).take limit
  · exact Or.inl missing
  refine Or.inr ⟨full, before, ?_⟩
  -- Otherwise the writer's own rows fill the page before this one.
  by_contra none
  push Not at none
  have mine := (sortBy_perm order _).mem_iff.mp (List.mem_of_mem_take member)
  obtain ⟨alive, selected⟩ := List.mem_filter.mp mine
  -- Every row of the page is alive on the writer and selected there.
  have shown (r : Row) (shows : r ∈ (sortBy order ((live snapshot).filter selects)).take limit) :
      r ∈ (live log).filter selects := by
    have there := (sortBy_perm order _).mem_iff.mp (List.mem_of_mem_take shows)
    exact List.mem_filter.mpr ⟨none r shows, (List.mem_filter.mp there).2⟩
  rw [← full] at member
  refine not_mem_take_sortBy ?_ shown (fun r shows => ?_) member
  · have nodup : (live snapshot).Nodup := (keyed.suffix earlier).live.of_map _
    exact ((sortBy_perm order _).nodup_iff.mpr (nodup.filter _)).sublist (List.take_sublist _ _)
  · cases compared : order r row with
    | lt => rfl
    | gt =>
      have le := before r shows
      rw [compared] at le
      cases le
    | eq =>
      -- The key of a row is its own.
      obtain ⟨time, id⟩ := separates r row compared
      obtain ⟨alive', selected'⟩ := List.mem_filter.mp (shown r shows)
      have same : r = row := by
        refine Table.eq_of_key keyed.live alive' alive ?_
        rw [Row.key, Row.key, inCommunity r selected', inCommunity row selected, time, id]
      exact absurd (same ▸ shows) missing

theorem window_complete {q : WindowQuery} {ts : Int} {id : EventId} (keyed : Keyed log)
    (complete : Complete snapshot log wall) (paged : q.cursor = some (ts, id)) (below : ts ≤ wall)
    (member : row ∈ (getChannelWindowOn log q).rows) :
    OnOrAfter windowOrder q.limit (getChannelWindowOn snapshot q).rows log row := by
  have rows (log : List Commit) : (getChannelWindowOn log q).rows =
      (sortBy windowOrder ((live log).filter q.selects)).take q.limit := by
    simp only [getChannelWindowOn, List.take_take]
    rw [Nat.min_eq_left (Nat.le_succ _)]
  rw [rows] at member ⊢
  have selected := (sortBy_perm windowOrder _).mem_iff.mp (List.mem_of_mem_take member)
  obtain ⟨alive, selects⟩ := List.mem_filter.mp selected
  have facts := selects
  simp only [WindowQuery.selects, paged, Option.all_some, Bool.and_eq_true, Bool.or_eq_true,
    decide_eq_true_eq] at facts
  obtain ⟨⟨⟨⟨_, channel⟩, _⟩, before⟩, _⟩ := facts
  -- The row comes after the cursor, which is at or below the wall.
  have old : row.createdAt ≤ wall := by omega
  have here := complete.mem_live alive (by rw [channel]; rfl) old
  refine onOrAfter_of_take (fun _ _ => eq_of_windowOrder) q.communityId (fun r chosen => ?_) keyed
    complete.suffix member (mem_take_sortBy (List.mem_filter.mpr ⟨here, selects⟩) q.limit)
  simp only [WindowQuery.selects, Bool.and_eq_true, decide_eq_true_eq] at chosen
  exact chosen.1.1.1.1

theorem replies_complete {q : ThreadQuery} {entry : TokenEntry} (keyed : Keyed log)
    (complete : Complete snapshot log entry.fenceWall)
    (verified : Reader.verified q entry (getThreadRepliesOn snapshot q) = true)
    (member : row ∈ getThreadRepliesOn log q) :
    OnOrAfter replyOrder q.limit (getThreadRepliesOn snapshot q) log row := by
  have selected := (sortBy_perm replyOrder _).mem_iff.mp (List.mem_of_mem_take member)
  obtain ⟨alive, selects⟩ := List.mem_filter.mp selected
  refine onOrAfter_of_take (fun _ _ => eq_of_replyOrder) q.communityId (fun r chosen => ?_) keyed
    complete.suffix member ?_
  · simp only [ThreadQuery.selects, Bool.and_eq_true, decide_eq_true_eq] at chosen
    exact chosen.1.1
  -- A row below the wall is in the snapshot.
  by_cases old : row.createdAt ≤ entry.fenceWall
  · have placed : row.thread.isSome = true := by
      simp only [ThreadQuery.selects, Bool.and_eq_true] at selects
      exact Option.isSome_of_any selects.1.2
    have here := complete.mem_live alive (row.threaded placed) old
    exact mem_take_sortBy (List.mem_filter.mpr ⟨here, selects⟩) q.limit
  · -- The whole page is at or below the wall, and the row is above it.
    simp only [Reader.verified, Bool.and_eq_true, decide_eq_true_eq, Option.any_eq_true] at verified
    obtain ⟨full, last, ends, low⟩ := verified
    refine Or.inr ⟨Nat.le_antisymm (List.length_take_le _ _) full, fun r here => ?_⟩
    have sorted : (getThreadRepliesOn snapshot q).Pairwise
        fun a b => (replyOrder a b).isLE = true :=
      (sorted_sortBy _).sublist (List.take_sublist _ _)
    have below : r.createdAt ≤ last.createdAt := by
      obtain ⟨older, split⟩ := List.getLast?_eq_some_iff.mp ends
      change r ∈ getThreadRepliesOn snapshot q at here
      rw [split] at here sorted
      rcases List.mem_append.mp here with before | same
      · exact createdAt_le_of_replyOrder
          ((List.pairwise_append.mp sorted).2.2 r before last List.mem_cons_self)
      · rw [List.mem_singleton.mp same]
    exact replyOrder_of_lt (by omega)

end

/-! ### Runs -/

/-- Along one timeline a proved entry covers the rows up to its wall, and a page that a replica
serves has every row that the writer returns for the same cursor, up to where it ends if it is
full. -/
theorem replica_coverage {ι : Type} [DecidableEq ι] (now : Int) (epoch : Uuid) (rows : List Row)
    (keyed : (rows.map Row.key).Nodup) (actions later : List (Action ι)) (s s' : System ι)
    (ran : Trace.after (Trace.restrict System.oneTimeline System.step) (.initial now epoch rows)
      actions = some s)
    (goesOn : Trace.after (Trace.restrict System.oneTimeline System.step) s later = some s')
    (pod : ι) (r : Reader) (own : r.fence = (s.pods pod).fence)
    (replays : ∀ snapshot, r.session = .ok snapshot → snapshot <:+ s.writer.log) :
    (∀ snapshot, snapshot <:+ s.writer.log → ∀ newest entry, snapshot.head? = some newest →
      (s.pods pod).fence.resolve newest.token newest.epoch = .proved entry →
      ∀ c ∈ s'.writer.log, ∀ row ∈ c.rows, row.channelId.isSome = true →
        row.createdAt ≤ entry.fenceWall → c ∈ snapshot) ∧
    (∀ q : WindowQuery, q.cursor.isSome = true → (r.getChannelWindow q).2 = .replica →
      ∀ row ∈ (getChannelWindowOn s'.writer.log q).rows,
        OnOrAfter windowOrder q.limit (r.getChannelWindow q).1.rows s'.writer.log row) ∧
    ∀ q : ThreadQuery, q.cursor.isSome = true → (r.getThreadReplies q).2 = .replica →
      ∀ row ∈ getThreadRepliesOn s'.writer.log q,
        OnOrAfter replyOrder q.limit (r.getThreadReplies q).1 s'.writer.log row := by
  have covered : s.Covered := (System.Covered.run (System.covered_initial now epoch keyed) ran).1
  have unique : Keyed s'.writer.log := (covered.run goesOn).1.keyed
  -- What the fence of the pod proves, a later writer bears out.
  have complete {snapshot : List Commit} (earlier : snapshot <:+ s.writer.log) {newest : Commit}
      {entry : TokenEntry} (first : snapshot.head? = some newest)
      (proved : (s.pods pod).fence.resolve newest.token newest.epoch = .proved entry) :
      Complete snapshot s'.writer.log entry.fenceWall :=
    covered.proved goesOn earlier first proved
  refine ⟨fun snapshot earlier newest entry first proved c inside row member channel old => ?_,
    fun q paged served row member => ?_, fun q paged served row member => ?_⟩
  · exact (complete earlier first proved).mem_commit inside member channel old
  · obtain ⟨⟨ts, id⟩, cursor⟩ := Option.isSome_iff_exists.mp paged
    obtain ⟨snapshot, newest, entry, session, first, proved, below, page⟩ :=
      r.getChannelWindow_eq_replica cursor served
    rw [own] at proved
    rw [page]
    exact window_complete unique (complete (replays snapshot session) first proved) cursor below member
  · obtain ⟨snapshot, newest, entry, session, first, proved, verified, page⟩ :=
      r.getThreadReplies_eq_replica paged served
    rw [own] at proved
    rw [page]
    exact replies_complete unique (complete (replays snapshot session) first proved) verified member

namespace Sample

def community : CommunityId := ⟨⟨1⟩⟩
def channel : Uuid := ⟨7⟩

def message (digit : Char) (hex : isLowerHexDigit digit = true) (createdAt : Int) : Row :=
  { communityId := community, id := .repeated digit hex, createdAt := secs createdAt
    channelId := some channel, kind := 9 }

/-- Two messages and a deletion of the later one, long after both. -/
def later : Row := message 'a' (Eq.refl true) 20
def earlier : Row := message 'b' (Eq.refl true) 10

/-- A probe of the only pod. -/
def handshake : List (Action Unit) :=
  [.probe () .sample, .probe () .scan, .probe () (.beat 0), .probe () .receive]

def deletion : List (Action Unit) :=
  [.serve (.start 0), .serve (.softDelete 0 (community, later.id)), .serve (.commit 0)]

/-- A page of one message. -/
def query : WindowQuery :=
  { communityId := community, channelId := channel, limit := 1
    cursor := some (secs 30, later.id) }

def reader (s : System Unit) : Reader where
  precheckFence := (s.pods ()).fence
  precheckNow := 0
  fence := (s.pods ()).fence
  now := 0
  session := .ok s.writer.log
  writer := s.writer.log

end Sample

theorem replica_coverage_window : ∃ s s' : System Unit,
    ((Sample.reader s).getChannelWindow Sample.query).2 = .replica ∧
    ∀ row ∈ (getChannelWindowOn s'.writer.log Sample.query).rows, OnOrAfter windowOrder 1
      ((Sample.reader s).getChannelWindow Sample.query).1.rows s'.writer.log row := by
  have reached : ∃ s ∈ Trace.after (Trace.restrict System.oneTimeline System.step)
      (.initial (secs 2000) ⟨1⟩ [Sample.later, Sample.earlier]) Sample.handshake,
      ∃ s' ∈ Trace.after (Trace.restrict System.oneTimeline System.step) s Sample.deletion,
        ((Sample.reader s).getChannelWindow Sample.query).2 = .replica := by
    decide
  obtain ⟨s, ran, s', goesOn, served⟩ := reached
  refine ⟨s, s', served, ?_⟩
  have keyed : ([Sample.later, Sample.earlier].map Row.key).Nodup := by decide
  refine (replica_coverage (secs 2000) ⟨1⟩ [Sample.later, Sample.earlier] keyed Sample.handshake
    Sample.deletion s s' ran goesOn () (Sample.reader s) rfl ?_).2.1 Sample.query rfl served
  rintro snapshot opened
  obtain rfl := Except.ok.inj opened
  exact List.suffix_refl _

/-- The message that the replica shows has been deleted on the writer, which shows the one before
it instead. -/
theorem replica_page_misses_row : ∃ s s' : System Unit,
    Trace.after (Trace.restrict System.oneTimeline System.step)
      (.initial (secs 2000) ⟨1⟩ [Sample.later, Sample.earlier]) Sample.handshake = some s ∧
    Trace.after (Trace.restrict System.oneTimeline System.step) s Sample.deletion = some s' ∧
    ((Sample.reader s).getChannelWindow Sample.query).2 = .replica ∧
    Sample.earlier ∈ (getChannelWindowOn s'.writer.log Sample.query).rows ∧
    Sample.earlier ∉ ((Sample.reader s).getChannelWindow Sample.query).1.rows := by
  have reached : ∃ s ∈ Trace.after (Trace.restrict System.oneTimeline System.step)
      (.initial (secs 2000) ⟨1⟩ [Sample.later, Sample.earlier]) Sample.handshake,
      ∃ s' ∈ Trace.after (Trace.restrict System.oneTimeline System.step) s Sample.deletion,
        ((Sample.reader s).getChannelWindow Sample.query).2 = .replica ∧
        Sample.earlier ∈ (getChannelWindowOn s'.writer.log Sample.query).rows ∧
        Sample.earlier ∉ ((Sample.reader s).getChannelWindow Sample.query).1.rows := by
    decide
  obtain ⟨s, ran, s', goesOn, facts⟩ := reached
  exact ⟨s, s', ran, goesOn, facts⟩

end Replica
