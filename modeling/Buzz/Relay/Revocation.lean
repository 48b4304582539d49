import Buzz.Relay.FanOut

/-!
# Revocation and the subscribers of a channel

`remove_channel_subscriptions_scoped` narrows the stored scopes of one connection in
place and withdraws one channel's index entries. `revocation_exact`: it takes away what
it should and nothing else, it reports each subscription it touched, and the removals
that come later still find every index entry.

`indexes_never_leak` reads the invariant of the registry as a statement about memory:
an index holds a pair under a key exactly when the live entry of the pair produces that
key, and never an empty list. So the connections filed for a channel are the ones with a
live subscription that can receive an event of it.
-/
namespace Relay

open Nostr Lib

namespace SubEntry

/-- What a revocation of the channel leaves of an entry. -/
def narrowed (channel : Uuid) (e : SubEntry) : Option SubEntry :=
  match e.scope with
  | .global => some e
  | .channels ids =>
    if ids.filter (· ≠ channel) = [] then none
    else some { e with scope := .channels (ids.filter (· ≠ channel)) }

/-- What a revocation of the channel reports for an entry. -/
def update (channel : Uuid) (sub : SubId) (e : SubEntry) : Option ChannelSubscriptionUpdate :=
  match e.scope with
  | .global => none
  | .channels ids => some ⟨sub, (ids.filter (· ≠ channel)).isEmpty⟩

theorem narrowed_keeps {e e' : SubEntry} {channel : Uuid} (narrowed : e.narrowed channel = some e') :
    e'.communityId = e.communityId ∧ e'.filters = e.filters := by
  unfold SubEntry.narrowed at narrowed
  split at narrowed
  next => cases narrowed; exact ⟨rfl, rfl⟩
  next =>
    split at narrowed
    next => cases narrowed
    next => cases narrowed; exact ⟨rfl, rfl⟩

private theorem matchesChannel_narrowed (e : SubEntry) {channel : Uuid} {routed : Option Uuid}
    (other : routed ≠ some channel) :
    (∃ e', e.narrowed channel = some e' ∧ e'.scope.matchesChannel routed = true) ↔
      e.scope.matchesChannel routed = true := by
  obtain ⟨filters, c, scope⟩ := e
  cases scope with
  | global => simp [narrowed]
  | channels ids =>
    -- A channel that routes the event is not the revoked one, so it survives the filter.
    have kept (id : Uuid) (event : routed = some id) : id ∈ ids.filter (· ≠ channel) ↔ id ∈ ids := by
      have different : id ≠ channel := by
        rintro rfl
        exact other event
      simp [different]
    cases routed with
    | none => simp [narrowed, SubscriptionScope.matchesChannel]
    | some id =>
      have survives := kept id rfl
      by_cases nothing : ids.filter (· ≠ channel) = []
      · have absent : id ∉ ids := by
          intro member
          have there := survives.mpr member
          rw [nothing] at there
          cases there
        simp only [narrowed, if_pos nothing, SubscriptionScope.matchesChannel]
        simp [absent]
      · simp only [narrowed, if_neg nothing, SubscriptionScope.matchesChannel, decide_eq_true_eq]
        rw [← survives]
        constructor
        · rintro ⟨e', stored, routes⟩
          cases stored
          exact of_decide_eq_true routes
        · intro routes
          exact ⟨_, rfl, decide_eq_true routes⟩

theorem deliverable_narrowed (e : SubEntry) {c : CommunityId} {channel : Uuid} {ev : StoredEvent}
    (other : ¬(c = e.communityId ∧ ev.channelId = some channel)) :
    (∃ e', e.narrowed channel = some e' ∧ e'.Deliverable c ev) ↔ e.Deliverable c ev := by
  by_cases foreign : c = e.communityId
  · have elsewhere : ev.channelId ≠ some channel := fun same => other ⟨foreign, same⟩
    have routes := matchesChannel_narrowed e elsewhere
    constructor
    · rintro ⟨e', narrowed, owned, routed, matched⟩
      obtain ⟨sameCommunity, sameFilters⟩ := narrowed_keeps narrowed
      rw [sameCommunity] at owned
      rw [sameFilters] at matched
      exact ⟨owned, routes.mp ⟨e', narrowed, routed⟩, matched⟩
    · rintro ⟨owned, routed, matched⟩
      obtain ⟨e', narrowed, routed'⟩ := routes.mpr routed
      obtain ⟨sameCommunity, sameFilters⟩ := narrowed_keeps narrowed
      exact ⟨e', narrowed, by rw [sameCommunity, owned], routed', by rw [sameFilters, matched]⟩
  · -- Neither the entry nor what is left of it belongs to the community.
    constructor
    · rintro ⟨e', narrowed, owned, -⟩
      rw [(narrowed_keeps narrowed).1] at owned
      exact absurd owned.symm foreign
    · rintro ⟨owned, -⟩
      exact absurd owned.symm foreign

theorem not_mem_of_narrowed {e e' : SubEntry} {channel : Uuid}
    (narrowed : e.narrowed channel = some e') : e'.scope.matchesChannel (some channel) = false := by
  obtain ⟨filters, c, scope⟩ := e
  cases scope with
  | global => cases narrowed; rfl
  | channels ids =>
    simp only [SubEntry.narrowed] at narrowed
    split at narrowed
    next => cases narrowed
    next =>
      cases narrowed
      simp [SubscriptionScope.matchesChannel]

end SubEntry

namespace SubscriptionRegistry

variable {r : SubscriptionRegistry} {c : CommunityId} {conn : ConnId} {channel : Uuid}

/-! ### The revocation loop -/

/-- One round reports and narrows the entry it is given, and leaves all others alone. -/
theorem revokeOne_spec (r : SubscriptionRegistry) (c : CommunityId) (conn : ConnId)
    (channel : Uuid) (sub : SubId) :
    (r.revokeOne c conn channel sub).1 = (r.live (conn, sub)).bind (SubEntry.update channel sub) ∧
      ∀ v, (r.revokeOne c conn channel sub).2.live v =
        if v = (conn, sub) then (r.live v).bind (SubEntry.narrowed channel) else r.live v := by
  rcases revokeOne_cases r c conn channel sub with
    ⟨unchanged, global⟩ | ⟨filters, c', ids, was, subs', revoked, now⟩
  · rw [unchanged]
    cases stored : r.live (conn, sub) with
    | none =>
      refine ⟨rfl, fun v => ?_⟩
      split
      next same => rw [same, stored]; rfl
      next => rfl
    | some e =>
      have scope := global e stored
      refine ⟨by simp [SubEntry.update, scope], fun v => ?_⟩
      split
      next same => rw [same, stored]; simp [SubEntry.narrowed, scope]
      next => rfl
  · rw [revoked, was]
    refine ⟨rfl, fun v => ?_⟩
    rw [live_withdraw, now]
    split
    next same =>
      rw [same, was]
      simp [SubEntry.narrowed]
    next => rfl

/-- The loop over distinct subscriptions: each is reported and narrowed once. -/
private theorem revoke_loop (subs : List SubId) (distinct : subs.Nodup)
    (updates : List ChannelSubscriptionUpdate) (s : SubscriptionRegistry) :
    let outcome := subs.foldl (fun (updates, r) subId =>
      let (update, r) := r.revokeOne c conn channel subId
      (updates ++ update.toList, r)) (updates, s)
    outcome.1 = updates ++
        subs.filterMap (fun sub => (s.live (conn, sub)).bind (SubEntry.update channel sub)) ∧
      ∀ v, outcome.2.live v =
        if v.1 = conn ∧ v.2 ∈ subs then (s.live v).bind (SubEntry.narrowed channel)
        else s.live v := by
  induction subs generalizing updates s with
  | nil => simp
  | cons sub subs ih =>
    obtain ⟨fresh, distinct⟩ := List.nodup_cons.mp distinct
    obtain ⟨reported, stored⟩ := revokeOne_spec s c conn channel sub
    obtain ⟨later, rest⟩ := ih distinct
      (updates ++ (s.revokeOne c conn channel sub).1.toList) (s.revokeOne c conn channel sub).2
    -- The round does not touch the subscriptions that are still to come.
    have untouched (sub' : SubId) (member : sub' ∈ subs) :
        (s.revokeOne c conn channel sub).2.live (conn, sub') = s.live (conn, sub') := by
      rw [stored, if_neg]
      intro same
      apply fresh
      rw [← (Prod.mk.inj same).2]
      exact member
    refine ⟨?_, fun v => ?_⟩
    · rw [List.foldl_cons]
      apply later.trans
      have same : subs.filterMap (fun sub' => ((s.revokeOne c conn channel sub).2.live
            (conn, sub')).bind (SubEntry.update channel sub')) =
          subs.filterMap (fun sub' => (s.live (conn, sub')).bind (SubEntry.update channel sub')) := by
        apply List.filterMap_congr
        intro sub' member
        rw [untouched sub' member]
      rw [same, reported, List.filterMap_cons]
      cases (s.live (conn, sub)).bind (SubEntry.update channel sub) <;> simp
    · rw [List.foldl_cons]
      apply (rest v).trans
      obtain ⟨conn', sub'⟩ := v
      by_cases here : conn' = conn
      · subst here
        by_cases member : sub' ∈ subs
        · simp [member, untouched sub' member]
        · simp [member, stored]
      · simp [here, stored]

theorem mem_subscriptionsOfChannel {sub : SubId} :
    sub ∈ r.subscriptionsOfChannel c conn channel ↔ ∃ e, r.live (conn, sub) = some e ∧
      e.communityId = c ∧ channel ∈ e.scope.channelIds := by
  unfold subscriptionsOfChannel
  cases table : r.subs.lookup conn with
  | none => simp [live, table]
  | some connSubs =>
    simp only [List.mem_filterMap, live_of_lookup table]
    constructor
    · rintro ⟨⟨sub', e⟩, inside, chosen⟩
      split at chosen
      next guard =>
        cases chosen
        exact ⟨e, (Map.mem_entries_iff connSubs _ _).mp inside, guard⟩
      next => cases chosen
    · rintro ⟨e, stored, guard⟩
      exact ⟨⟨sub, e⟩, (Map.mem_entries_iff connSubs _ _).mpr stored, if_pos guard⟩

theorem nodup_subscriptionsOfChannel (r : SubscriptionRegistry) (c : CommunityId) (conn : ConnId)
    (channel : Uuid) : (r.subscriptionsOfChannel c conn channel).Nodup := by
  unfold subscriptionsOfChannel
  cases r.subs.lookup conn with
  | none => exact List.nodup_nil
  | some connSubs =>
    -- The chosen ids are keys of the connection's table, each at most once.
    have keys : ∀ entries : List (Sigma fun _ : SubId => SubEntry),
        (entries.filterMap fun entry =>
          if entry.2.communityId = c ∧ channel ∈ entry.2.scope.channelIds then some entry.1
          else none).Sublist entries.keys := by
      intro entries
      induction entries with
      | nil => exact List.Sublist.slnil
      | cons entry rest ih =>
        rw [List.filterMap_cons, List.keys_cons]
        split
        next => exact ih.cons entry.1
        next chosen =>
          split at chosen
          next => cases chosen; exact ih.cons_cons entry.1
          next => cases chosen
    exact (keys connSubs.entries).nodup connSubs.keys_nodup

theorem live_removeChannelSubscriptionsScoped (r : SubscriptionRegistry) (c : CommunityId)
    (conn : ConnId) (channel : Uuid) (v : ConnId × SubId) :
    (r.removeChannelSubscriptionsScoped c conn channel).2.live v =
      if v.1 = conn ∧ v.2 ∈ r.subscriptionsOfChannel c conn channel then
        (r.live v).bind (SubEntry.narrowed channel)
      else r.live v :=
  (revoke_loop _ (nodup_subscriptionsOfChannel r c conn channel) [] r).2 v

theorem updates_removeChannelSubscriptionsScoped (r : SubscriptionRegistry) (c : CommunityId)
    (conn : ConnId) (channel : Uuid) :
    (r.removeChannelSubscriptionsScoped c conn channel).1 =
      (r.subscriptionsOfChannel c conn channel).filterMap fun sub =>
        (r.live (conn, sub)).bind (SubEntry.update channel sub) :=
  (revoke_loop _ (nodup_subscriptionsOfChannel r c conn channel) [] r).1

/-! ### What a revocation takes away -/

theorem not_scanned_revoked {ev : StoredEvent} (routed : ev.channelId = some channel)
    (sub : SubId) :
    ¬(r.removeChannelSubscriptionsScoped c conn channel).2.Scanned c ev (conn, sub) := by
  rintro ⟨e, stored, community, routes, -⟩
  rw [routed] at routes
  rw [live_removeChannelSubscriptionsScoped] at stored
  split at stored
  next =>
    obtain ⟨old, -, narrowed⟩ := Option.bind_eq_some_iff.mp stored
    rw [SubEntry.not_mem_of_narrowed narrowed] at routes
    cases routes
  next spared =>
    -- A subscription that was not chosen does not have the channel in its scope.
    apply spared
    refine ⟨rfl, mem_subscriptionsOfChannel.mpr ⟨e, stored, community, ?_⟩⟩
    cases scope : e.scope with
    | global => rw [scope] at routes; cases routes
    | channels ids => rw [scope] at routes; exact of_decide_eq_true routes

theorem scanned_revoked_iff {c' : CommunityId} {ev : StoredEvent}
    (other : ¬(c' = c ∧ ev.channelId = some channel)) (v : ConnId × SubId) :
    (r.removeChannelSubscriptionsScoped c conn channel).2.Scanned c' ev v ↔ r.Scanned c' ev v := by
  unfold Scanned
  rw [live_removeChannelSubscriptionsScoped]
  split
  next chosen =>
    obtain ⟨e, stored, community, -⟩ := mem_subscriptionsOfChannel.mp chosen.2
    have stored : r.live v = some e := by rw [← stored, ← chosen.1]
    rw [stored, Option.bind_some]
    rw [← community] at other
    have same := e.deliverable_narrowed other
    constructor
    · intro found
      exact ⟨e, rfl, same.mp found⟩
    · rintro ⟨_, ⟨⟩, passes⟩
      exact same.mpr passes
  next => rfl

/-! ### What a revocation reports -/

/-- Each chosen subscription is reported, as removed when nothing is left of its scope. -/
theorem mem_updates_revoked {u : ChannelSubscriptionUpdate} :
    u ∈ (r.removeChannelSubscriptionsScoped c conn channel).1 ↔
      ∃ e, r.live (conn, u.subId) = some e ∧ e.communityId = c ∧ channel ∈ e.scope.channelIds ∧
        (u.removed = true ↔ ∀ id ∈ e.scope.channelIds, id = channel) := by
  rw [updates_removeChannelSubscriptionsScoped, List.mem_filterMap]
  -- A scope of which nothing is left has only the revoked channel.
  have only (ids : List Uuid) :
      (ids.filter (· ≠ channel)).isEmpty = true ↔ ∀ id ∈ ids, id = channel := by
    simp [List.isEmpty_iff]
  obtain ⟨sub, removed⟩ := u
  constructor
  · rintro ⟨sub', chosen, reported⟩
    obtain ⟨e, stored, community, inScope⟩ := mem_subscriptionsOfChannel.mp chosen
    rw [stored, Option.bind_some, SubEntry.update] at reported
    cases scope : e.scope with
    | global => rw [scope] at reported; cases reported
    | channels ids =>
      rw [scope] at reported inScope
      cases reported
      refine ⟨e, stored, community, by rw [scope]; exact inScope, ?_⟩
      rw [scope]
      exact only ids
  · rintro ⟨e, stored, community, inScope, exact'⟩
    refine ⟨sub, mem_subscriptionsOfChannel.mpr ⟨e, stored, community, inScope⟩, ?_⟩
    dsimp only at stored
    rw [stored, Option.bind_some, SubEntry.update]
    cases scope : e.scope with
    | global => rw [scope] at inScope; cases inScope
    | channels ids =>
      rw [scope] at exact'
      have same : (ids.filter (· ≠ channel)).isEmpty = removed := by
        rw [Bool.eq_iff_iff, only ids]
        exact exact'.symm
      dsimp only
      rw [same]

theorem nodup_updates_revoked :
    ((r.removeChannelSubscriptionsScoped c conn channel).1.map
      ChannelSubscriptionUpdate.subId).Nodup := by
  rw [updates_removeChannelSubscriptionsScoped]
  -- The ids that are reported are chosen ones, in their order.
  have ids : ∀ subs : List SubId, ((subs.filterMap fun sub =>
      (r.live (conn, sub)).bind (SubEntry.update channel sub)).map
        ChannelSubscriptionUpdate.subId).Sublist subs := by
    intro subs
    induction subs with
    | nil => exact List.Sublist.slnil
    | cons sub subs ih =>
      rw [List.filterMap_cons]
      split
      next => exact ih.cons sub
      next update reported =>
        obtain ⟨e, -, reported⟩ := Option.bind_eq_some_iff.mp reported
        have same : update.subId = sub := by
          unfold SubEntry.update at reported
          split at reported
          next => cases reported
          next => cases reported; rfl
        rw [List.map_cons, same]
        exact ih.cons_cons sub
  exact (ids _).nodup (nodup_subscriptionsOfChannel r c conn channel)

/-! ### Nothing is left behind -/

/-- Some index files the pair. -/
def Filed (r : SubscriptionRegistry) (v : ConnId × SubId) : Prop :=
  (∃ k, v ∈ r.channelKindIndex.filed k) ∨ (∃ k, v ∈ r.channelWildcardIndex.filed k) ∨
    (∃ k, v ∈ r.globalKindIndex.filed k) ∨ (∃ k, v ∈ r.globalPKindIndex.filed k) ∨
    ∃ k, v ∈ r.globalWildcardIndex.filed k

theorem not_filed (indexed : r.Indexed) {v : ConnId × SubId} (gone : r.live v = none) :
    ¬r.Filed v := by
  have stale {κ : Type} [DecidableEq κ] {idx : Index κ (ConnId × SubId)}
      {keys : SubEntry → List κ} (exact' : idx.Exact keys r.live) (k : κ) : v ∉ idx.filed k := by
    intro member
    obtain ⟨e, stored, -⟩ := (exact'.mem_iff k v).mp member
    rw [gone] at stored
    cases stored
  rintro (⟨k, member⟩ | ⟨k, member⟩ | ⟨k, member⟩ | ⟨k, member⟩ | ⟨k, member⟩)
  · exact stale indexed.channelKind k member
  · exact stale indexed.channelWildcard k member
  · exact stale indexed.globalKind k member
  · exact stale indexed.globalPKind k member
  · exact stale indexed.globalWildcard k member

theorem indexed_calls (indexed : r.Indexed) (calls : List Call) : (calls.foldl call r).Indexed := by
  induction calls generalizing r with
  | nil => exact indexed
  | cons op calls ih => exact ih (indexed_call indexed op)

/-- Revoking a channel is complete and exact: its events no longer reach the connection, every
other fan-out finds the same pairs, the touched subscriptions are reported, and whatever is called
later, removing a subscription or the connection leaves no index entry. -/
theorem revocation_exact (calls : List Call) (c : CommunityId) (conn : ConnId) (channel : Uuid) :
    let revoked := (run calls).removeChannelSubscriptionsScoped c conn channel
    (∀ ev, ev.channelId = some channel → ∀ sub, (conn, sub) ∉ revoked.2.fanOutScoped c ev) ∧
    (∀ c' ev, ¬(c' = c ∧ ev.channelId = some channel) → ∀ v,
      v ∈ revoked.2.fanOutScoped c' ev ↔ v ∈ (run calls).fanOutScoped c' ev) ∧
    (revoked.1.map ChannelSubscriptionUpdate.subId).Nodup ∧
    (∀ sub removed, ⟨sub, removed⟩ ∈ revoked.1 ↔ ∃ e, (run calls).live (conn, sub) = some e ∧
      e.communityId = c ∧ channel ∈ e.scope.channelIds ∧
      (removed = true ↔ ∀ id ∈ e.scope.channelIds, id = channel)) ∧
    ∀ later : List Call, ∀ sub,
      ¬((later.foldl call revoked.2).removeSubscription conn sub).2.Filed (conn, sub) ∧
      ¬((later.foldl call revoked.2).removeConnection conn).2.Filed (conn, sub) := by
  have before : (run calls).Indexed := indexed_run calls
  have after := indexed_removeChannelSubscriptionsScoped before c conn channel
  refine ⟨?_, ?_, nodup_updates_revoked, fun sub removed => mem_updates_revoked, ?_⟩
  · intro ev routed sub delivered
    exact not_scanned_revoked routed sub ((mem_fanOutScoped after c ev _).mp delivered)
  · intro c' ev other v
    rw [mem_fanOutScoped after, mem_fanOutScoped before]
    exact scanned_revoked_iff other v
  · intro later sub
    have reached := indexed_calls after later
    constructor
    · apply not_filed (indexed_removeSubscription reached conn sub)
      rw [live_removeSubscription, if_pos rfl]
    · apply not_filed (indexed_removeConnection reached conn)
      rw [live_removeConnection, if_pos rfl]

/-! ### The subscribers of a channel -/

private theorem mem_kindConns (entries : List (Sigma fun _ : CommunityId × IndexKey =>
      List (ConnId × SubId))) (conns : List ConnId) (conn : ConnId) :
    conn ∈ entries.foldl (fun conns entry =>
        if entry.1.1 = c ∧ entry.1.2.channelId = channel then
          (entry.2.map Prod.fst).foldl pushNew conns
        else conns) conns ↔
      conn ∈ conns ∨ ∃ entry ∈ entries, (entry.1.1 = c ∧ entry.1.2.channelId = channel) ∧
        conn ∈ entry.2.map Prod.fst := by
  induction entries generalizing conns with
  | nil => simp
  | cons entry rest ih =>
    rw [List.foldl_cons, ih]
    split
    next here =>
      rw [mem_foldl_pushNew]
      simp only [List.mem_cons, exists_eq_or_imp, here, true_and, and_self]
      tauto
    next elsewhere =>
      simp only [List.mem_cons, exists_eq_or_imp, elsewhere, false_and, false_or]

private theorem nodup_kindConns (entries : List (Sigma fun _ : CommunityId × IndexKey =>
      List (ConnId × SubId))) (conns : List ConnId) (nodup : conns.Nodup) :
    (entries.foldl (fun conns entry =>
        if entry.1.1 = c ∧ entry.1.2.channelId = channel then
          (entry.2.map Prod.fst).foldl pushNew conns
        else conns) conns).Nodup := by
  induction entries generalizing conns with
  | nil => exact nodup
  | cons entry rest ih =>
    apply ih
    dsimp only
    split
    next => exact nodup_foldl_pushNew _ _ nodup
    next => exact nodup

theorem nodup_channelSubscriberConnsScoped (r : SubscriptionRegistry) (c : CommunityId)
    (channel : Uuid) : (r.channelSubscriberConnsScoped c channel).Nodup := by
  unfold channelSubscriberConnsScoped
  dsimp only
  split
  next => exact nodup_kindConns _ _ List.nodup_nil
  next => exact nodup_foldl_pushNew _ _ (nodup_kindConns _ _ List.nodup_nil)

/-- A connection is listed exactly when one of the two channel indexes files it. -/
theorem mem_channelSubscriberConnsScoped :
    conn ∈ r.channelSubscriberConnsScoped c channel ↔
      ∃ sub, (∃ kind, (conn, sub) ∈ r.channelKindIndex.filed (c, ⟨channel, kind⟩)) ∨
        (conn, sub) ∈ r.channelWildcardIndex.filed (c, channel) := by
  have byKind : (∃ entry ∈ r.channelKindIndex.entries,
      (entry.1.1 = c ∧ entry.1.2.channelId = channel) ∧ conn ∈ entry.2.map Prod.fst) ↔
      ∃ sub kind, (conn, sub) ∈ r.channelKindIndex.filed (c, ⟨channel, kind⟩) := by
    constructor
    · rintro ⟨⟨⟨c', channel', kind⟩, filed⟩, inside, ⟨rfl, rfl⟩, member⟩
      obtain ⟨⟨conn', sub⟩, there, rfl⟩ := List.mem_map.mp member
      refine ⟨sub, kind, ?_⟩
      rw [Index.filed, (Map.mem_entries_iff _ _ _).mp inside]
      exact there
    · rintro ⟨sub, kind, member⟩
      cases stored : r.channelKindIndex.lookup (c, ⟨channel, kind⟩) with
      | none => rw [Index.filed, stored] at member; cases member
      | some filed =>
        rw [Index.filed, stored] at member
        exact ⟨⟨_, filed⟩, (Map.mem_entries_iff _ _ _).mpr stored, ⟨rfl, rfl⟩,
          List.mem_map_of_mem member⟩
  unfold channelSubscriberConnsScoped
  dsimp only
  cases stored : r.channelWildcardIndex.lookup (c, channel) with
  | none =>
    rw [mem_kindConns, byKind]
    simp [Index.filed, stored]
  | some filed =>
    rw [mem_foldl_pushNew, mem_kindConns, byKind]
    simp only [Index.filed, stored, Option.getD_some, List.not_mem_nil, false_or, List.mem_map,
      Prod.exists, exists_and_right, exists_eq_right]
    rw [exists_or]

/-- After any sequence of calls every index files exactly the live subscriptions, each under
exactly the keys its entry produces, no key has an empty list, and the connections that are listed
for a channel are those with a live subscription that can receive an event of it. -/
theorem indexes_never_leak (calls : List Call) :
    let r := run calls
    r.channelKindIndex.Exact SubEntry.channelKindKeys r.live ∧
    r.channelWildcardIndex.Exact SubEntry.channelWildcardKeys r.live ∧
    r.globalKindIndex.Exact SubEntry.globalKindKeys r.live ∧
    r.globalPKindIndex.Exact SubEntry.globalPKindKeys r.live ∧
    r.globalWildcardIndex.Exact SubEntry.globalWildcardKeys r.live ∧
    ∀ c channel, (r.channelSubscriberConnsScoped c channel).Nodup ∧
      ∀ conn, conn ∈ r.channelSubscriberConnsScoped c channel ↔
        ∃ sub e, r.live (conn, sub) = some e ∧ e.communityId = c ∧
          channel ∈ e.scope.channelIds ∧ extractKindsFromFilters e.filters ≠ some [] := by
  have indexed := indexed_run calls
  refine ⟨indexed.channelKind, indexed.channelWildcard, indexed.globalKind, indexed.globalPKind,
    indexed.globalWildcard, fun c channel => ⟨nodup_channelSubscriberConnsScoped _ c channel, ?_⟩⟩
  intro conn
  rw [mem_channelSubscriberConnsScoped]
  refine exists_congr fun sub => ?_
  simp only [indexed.channelKind.mem_iff, indexed.channelWildcard.mem_iff]
  constructor
  · rintro (⟨kind, e, stored, key⟩ | ⟨e, stored, key⟩)
    · -- Filed by kind: the extracted kinds contain the one of the key.
      unfold SubEntry.channelKindKeys at key
      split at key
      next ids kinds scope extracted =>
        obtain ⟨id, inScope, key⟩ := List.mem_flatMap.mp key
        obtain ⟨kind', member, same⟩ := List.mem_map.mp key
        cases same
        refine ⟨e, stored, rfl, by rw [scope]; exact inScope, ?_⟩
        rw [extracted]
        rintro ⟨⟩
        cases member
      next => cases key
    · -- Filed as a wildcard: some filter has no kinds at all.
      unfold SubEntry.channelWildcardKeys at key
      split at key
      next ids scope extracted =>
        obtain ⟨id, inScope, same⟩ := List.mem_map.mp key
        cases same
        exact ⟨e, stored, rfl, by rw [scope]; exact inScope, by simp [extracted]⟩
      next => cases key
  · rintro ⟨⟨filters, c', scope⟩, stored, rfl, inScope, receives⟩
    cases scope with
    | global => cases inScope
    | channels ids =>
      cases extracted : extractKindsFromFilters filters with
      | none =>
        refine Or.inr ⟨_, stored, ?_⟩
        simp only [SubEntry.channelWildcardKeys, extracted, List.mem_map]
        exact ⟨channel, inScope, rfl⟩
      | some kinds =>
        cases kinds with
        | nil => exact absurd extracted receives
        | cons kind kinds =>
          refine Or.inl ⟨kind, _, stored, ?_⟩
          simp only [SubEntry.channelKindKeys, extracted, List.mem_flatMap, List.mem_map]
          exact ⟨channel, inScope, kind, List.mem_cons_self, rfl⟩

end SubscriptionRegistry

end Relay
