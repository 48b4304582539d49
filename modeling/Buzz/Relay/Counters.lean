import Buzz.Lib.Census
import Buzz.Lib.Run
import Buzz.Relay.Revocation
import Mathlib.Data.Set.Card

/-!
# The counters of the registry

`total_subscriptions`, `total_connections` and `per_community_subscriptions` of
`buzz-relay/src/subscription.rs`. The registry keeps a table for each connection and counts the
tables as connections, so a table that has become empty is counted, too.
-/
namespace Relay

open Lib Nostr

namespace SubscriptionRegistry

/-- The total number of active subscriptions across all connections. -/
def totalSubscriptions (r : SubscriptionRegistry) : Nat :=
  (r.subs.entries.map fun connEntry => connEntry.2.entries.length).sum

/-- The total number of connections with at least one active subscription. -/
def totalConnections (r : SubscriptionRegistry) : Nat := r.subs.entries.length

def perCommunitySubscriptions (r : SubscriptionRegistry) : Map CommunityId Nat :=
  r.subs.entries.foldl (fun counts connEntry =>
    connEntry.2.entries.foldl (fun counts entry => Map.bump counts entry.2.communityId) counts) ∅

/-! ### What is to be counted -/

/-- The connection has an active subscription. -/
def Active (r : SubscriptionRegistry) (conn : ConnId) : Prop := ∃ sub, (r.live (conn, sub)).isSome

/-- The counters are those of the live subscriptions. -/
structure Counts (r : SubscriptionRegistry) : Prop where
  subscriptions : r.totalSubscriptions = {v | (r.live v).isSome}.ncard
  connections : r.totalConnections = {conn | r.Active conn}.ncard
  community : ∀ c, (r.perCommunitySubscriptions.lookup c).getD 0 =
    {v | ∃ e, r.live v = some e ∧ e.communityId = c}.ncard
  communities : r.perCommunitySubscriptions.total = r.totalSubscriptions

/-! ### The live subscriptions as a list -/

section

variable (r : SubscriptionRegistry)

def liveEntries : List ((ConnId × SubId) × SubEntry) :=
  r.subs.entries.flatMap fun connEntry =>
    connEntry.2.entries.map fun entry => ((connEntry.1, entry.1), entry.2)

theorem mem_liveEntries {v : ConnId × SubId} {e : SubEntry} :
    (v, e) ∈ r.liveEntries ↔ r.live v = some e := by
  obtain ⟨conn, sub⟩ := v
  simp only [liveEntries, List.mem_flatMap, List.mem_map]
  constructor
  · rintro ⟨⟨conn', table⟩, stored, ⟨sub', e'⟩, listed, same⟩
    obtain ⟨⟨rfl, rfl⟩, rfl⟩ := by simpa using same
    rw [live_of_lookup ((Map.mem_entries_iff _ _ _).mp stored)]
    exact (Map.mem_entries_iff _ _ _).mp listed
  · intro here
    obtain ⟨table, stored, entry⟩ := Option.bind_eq_some_iff.mp here
    exact ⟨⟨conn, table⟩, (Map.mem_entries_iff _ _ _).mpr stored, ⟨sub, e⟩,
      (Map.mem_entries_iff _ _ _).mpr entry, rfl⟩

theorem nodup_liveEntries : (r.liveEntries.map Prod.fst).Nodup := by
  have tables : r.subs.entries.Pairwise fun a b => a.1 ≠ b.1 :=
    List.pairwise_map.mp r.subs.nodupKeys
  rw [liveEntries, List.map_flatMap, List.nodup_flatMap]
  constructor
  · rintro ⟨conn, table⟩ -
    have entries : table.entries.Pairwise fun a b => a.1 ≠ b.1 :=
      List.pairwise_map.mp table.nodupKeys
    rw [List.map_map, List.Nodup, List.pairwise_map]
    apply entries.imp
    intro a b differ same
    exact differ (Prod.mk.inj same).2
  · apply tables.imp
    intro a b differ v first second
    simp only [List.map_map, List.mem_map, Function.comp_apply] at first second
    obtain ⟨_, -, rfl⟩ := first
    obtain ⟨_, -, same⟩ := second
    exact differ (Prod.mk.inj same).1.symm

theorem totalSubscriptions_eq : r.totalSubscriptions = r.liveEntries.length := by
  simp [totalSubscriptions, liveEntries, List.length_flatMap]

theorem perCommunitySubscriptions_eq :
    r.perCommunitySubscriptions = Map.census ∅ (r.liveEntries.map (·.2.communityId)) := by
  simp only [perCommunitySubscriptions, liveEntries, Map.census, List.map_flatMap, List.map_map,
    List.foldl_flatMap, List.foldl_map, Function.comp_def]

end

private theorem ncard_eq_length {α : Type} [DecidableEq α] {s : Set α} {l : List α}
    (distinct : l.Nodup) (members : ∀ a, a ∈ s ↔ a ∈ l) : s.ncard = l.length := by
  have same : s = (l.toFinset : Set α) := by
    ext a
    simp [members]
  rw [same, Set.ncard_coe_finset, List.toFinset_card_of_nodup distinct]

variable {r : SubscriptionRegistry}

private theorem ncard_live (test : SubEntry → Bool) :
    {v | ∃ e, r.live v = some e ∧ test e = true}.ncard =
      (r.liveEntries.filter (test ·.2)).length := by
  have below : ((r.liveEntries.filter (test ·.2)).map Prod.fst).Nodup :=
    (List.filter_sublist.map _).nodup r.nodup_liveEntries
  rw [ncard_eq_length below, List.length_map]
  intro v
  simp [mem_liveEntries]

/-- Every table has an entry. -/
def NoneEmpty (r : SubscriptionRegistry) : Prop := ∀ conn, (r.subs.lookup conn).isSome → r.Active conn

theorem counts_iff : r.Counts ↔ r.NoneEmpty := by
  have keys : ∀ conn, conn ∈ r.subs.keys ↔ (r.subs.lookup conn).isSome := fun conn => by
    rw [AList.lookup_isSome, AList.mem_keys]
  have stored : {conn | r.Active conn} ⊆ (r.subs.keys.toFinset : Set ConnId) := by
    rintro conn ⟨sub, here⟩
    obtain ⟨table, found, -⟩ := Option.bind_eq_some_iff.mp (Option.get_mem here)
    simp [keys, found]
  have count : r.totalConnections = (r.subs.keys.toFinset : Set ConnId).ncard := by
    have distinct : r.subs.keys.Nodup := r.subs.nodupKeys
    rw [Set.ncard_coe_finset, List.toFinset_card_of_nodup distinct]
    simp [totalConnections, AList.keys, List.keys]
  constructor
  · intro counts conn found
    have equal := Set.eq_of_subset_of_ncard_le stored
      (by rw [← count, counts.connections]) (Finset.finite_toSet _)
    have member : conn ∈ (r.subs.keys.toFinset : Set ConnId) := by simpa [keys] using found
    rw [← equal] at member
    exact member
  · intro full
    refine ⟨?_, ?_, ?_, ?_⟩
    · have all := ncard_live (r := r) fun _ => true
      simp only [and_true, List.filter_true, ← Option.isSome_iff_exists] at all
      rw [totalSubscriptions_eq, all]
    · rw [count]
      congr 1
      apply Set.Subset.antisymm _ stored
      intro conn member
      exact full conn ((keys conn).mp (by simpa using member))
    · intro c
      have own := ncard_live (r := r) fun e => e.communityId = c
      simp only [decide_eq_true_eq] at own
      rw [perCommunitySubscriptions_eq, Map.getD_census, own, ← List.countP_eq_length_filter,
        List.count, List.countP_map]
      simp [Function.comp_def, Bool.beq_eq_decide_eq]
    · have empty : Map.total (∅ : Map CommunityId Nat) = 0 := rfl
      rw [perCommunitySubscriptions_eq, Map.total_census, totalSubscriptions_eq, List.length_map,
        empty, Nat.zero_add]

/-! ### What the operations do to the tables -/

/-- The connection has a table. -/
def Stored (r : SubscriptionRegistry) (conn : ConnId) : Prop := (r.subs.lookup conn).isSome

theorem Active.stored {conn : ConnId} (active : r.Active conn) : r.Stored conn := by
  obtain ⟨sub, here⟩ := active
  obtain ⟨table, found, -⟩ := Option.bind_eq_some_iff.mp (Option.get_mem here)
  simp only at found
  simp [Stored, found]

theorem stored_removeSubscription (conn : ConnId) (sub : SubId) (conn' : ConnId) :
    (r.removeSubscription conn sub).2.Stored conn' ↔ r.Stored conn' := by
  rcases removeSubscription_cases r conn sub with
    ⟨-, unchanged⟩ | ⟨connSubs, e, table, -, removed⟩
  · rw [unchanged]
  · rw [removed]
    simp only [Stored, withdraw, Map.lookup_insert_ite]
    by_cases same : conn' = conn
    · subst same
      simp [table]
    · simp [same]

theorem stored_registerWithScope (c : CommunityId) (conn : ConnId) (sub : SubId)
    (filters : List Filter) (scope : SubscriptionScope) (conn' : ConnId) :
    (r.registerWithScope c conn sub filters scope).2.Stored conn' ↔
      conn' = conn ∨ r.Stored conn' := by
  have before := stored_removeSubscription (r := r) conn sub conn'
  simp only [registerWithScope, index_eq_file, Stored, file, Map.lookup_upsert] at before ⊢
  rw [← before]
  by_cases same : conn' = conn
  · simp [same]
  · simp [same]

theorem live_registerWithScope (c : CommunityId) (conn : ConnId) (sub : SubId)
    (filters : List Filter) (scope : SubscriptionScope) (v : ConnId × SubId) :
    (r.registerWithScope c conn sub filters scope).2.live v =
      if v = (conn, sub) then some ⟨filters, c, scope⟩ else r.live v := by
  have gone := live_removeSubscription r conn sub v
  simp only [registerWithScope, index_eq_file, live_file]
  generalize (r.removeSubscription conn sub).2 = s at gone
  obtain ⟨conn', sub'⟩ := v
  rw [Map.upsert, live_insert]
  by_cases sameConn : conn' = conn
  · subst sameConn
    by_cases sameSub : sub' = sub
    · subst sameSub
      simp
    · have other : (conn', sub') ≠ (conn', sub) := fun same => sameSub (Prod.mk.inj same).2
      rw [if_neg other] at gone ⊢
      rw [if_pos rfl, AList.lookup_insert_ne sameSub, ← gone]
      cases table : s.subs.lookup conn' <;> simp [live, table]
  · have other : (conn', sub') ≠ (conn, sub) := fun same => sameConn (Prod.mk.inj same).1
    rw [if_neg other] at gone ⊢
    rw [if_neg sameConn, gone]

theorem stored_removeConnection (conn conn' : ConnId) :
    (r.removeConnection conn).2.Stored conn' → conn' ≠ conn ∧ r.Stored conn' := by
  have unchanged : ∀ (entries : List (Sigma fun _ : SubId => SubEntry))
      (s : SubscriptionRegistry), (s.removeEntries conn entries).2.subs = s.subs := by
    intro entries
    induction entries with
    | nil => intro s; rfl
    | cons first rest ih => intro s; rw [removeEntries_snd_cons, ih]; rfl
  cases table : r.subs.lookup conn with
  | none =>
    have same : (r.removeConnection conn).2 = r := by simp [removeConnection, table]
    rw [same]
    intro stored
    refine ⟨?_, stored⟩
    rintro rfl
    simp [Stored, table] at stored
  | some connSubs =>
    simp only [removeConnection, table, Stored, unchanged, Map.lookup_erase_ite]
    split
    next => simp
    next differ => exact fun stored => ⟨differ, stored⟩

theorem stored_revokeOne (c : CommunityId) (conn : ConnId) (channel : Uuid) (sub : SubId)
    (conn' : ConnId) : (r.revokeOne c conn channel sub).2.Stored conn' ↔ r.Stored conn' := by
  unfold revokeOne
  cases table : r.subs.lookup conn with
  | none => simp
  | some connSubs =>
    cases entry : connSubs.lookup sub with
    | none => simp [entry]
    | some e =>
      obtain ⟨filters, c', scope⟩ := e
      cases scope with
      | global => simp [entry]
      | channels ids =>
        by_cases same : conn' = conn
        · subst same
          simp only [entry, removeFromIndex_eq_withdraw]
          split <;> simp [Stored, withdraw, table]
        · simp only [entry, removeFromIndex_eq_withdraw]
          split <;> simp [Stored, withdraw, AList.lookup_insert_ne same]

theorem stored_removeChannelSubscriptionsScoped (c : CommunityId) (conn : ConnId) (channel : Uuid)
    (conn' : ConnId) :
    (r.removeChannelSubscriptionsScoped c conn channel).2.Stored conn' ↔ r.Stored conn' := by
  have loop : ∀ (subs : List SubId) (s : SubscriptionRegistry),
      (subs.foldl (fun r sub => (r.revokeOne c conn channel sub).2) s).Stored conn' ↔
        s.Stored conn' := by
    intro subs
    induction subs with
    | nil => exact fun _ => Iff.rfl
    | cons sub subs ih =>
      intro s
      rw [List.foldl_cons, ih]
      exact stored_revokeOne c conn channel sub conn'
  rw [removeChannelSubscriptionsScoped_snd]
  exact loop _ r

/-! ### Runs -/

/-- The call takes the last subscription of a connection that stays. -/
def Empties (r : SubscriptionRegistry) : Call → Prop
  | .removeSubscription conn sub =>
    (r.live (conn, sub)).isSome ∧ ∀ sub', (r.live (conn, sub')).isSome → sub' = sub
  | .removeChannelSubscriptionsScoped c conn channel =>
    r.Active conn ∧ ∀ sub e, r.live (conn, sub) = some e →
      e.communityId = c ∧ channel ∈ e.scope.channelIds ∧ ∀ id ∈ e.scope.channelIds, id = channel
  | _ => False

private theorem narrowed_eq_none {e : SubEntry} {channel : Uuid} (names : channel ∈ e.scope.channelIds) :
    e.narrowed channel = none ↔ ∀ id ∈ e.scope.channelIds, id = channel := by
  obtain ⟨filters, c, scope⟩ := e
  cases scope with
  | global => simp [SubscriptionScope.channelIds] at names
  | channels ids => simp [SubEntry.narrowed, SubscriptionScope.channelIds]

private theorem isSome_live_revoked (c : CommunityId) (conn : ConnId) (channel : Uuid) (sub : SubId) :
    ((r.removeChannelSubscriptionsScoped c conn channel).2.live (conn, sub)).isSome ↔
      ∃ e, r.live (conn, sub) = some e ∧ ¬ (e.communityId = c ∧ channel ∈ e.scope.channelIds ∧
        ∀ id ∈ e.scope.channelIds, id = channel) := by
  rw [live_removeChannelSubscriptionsScoped]
  simp only [true_and, mem_subscriptionsOfChannel]
  cases here : r.live (conn, sub) with
  | none => simp
  | some e =>
    simp only [Option.some.injEq, exists_eq_left', Option.bind_some]
    by_cases concerned : e.communityId = c ∧ channel ∈ e.scope.channelIds
    · rw [if_pos concerned]
      simp only [concerned.1, concerned.2, true_and]
      rw [← narrowed_eq_none concerned.2, Option.isSome_iff_ne_none]
    · rw [if_neg concerned]
      tauto

theorem noneEmpty_call (full : r.NoneEmpty) (op : Call) :
    (r.call op).NoneEmpty ↔ ¬ r.Empties op := by
  have registered (c : CommunityId) (conn : ConnId) (sub : SubId) (filters : List Filter)
      (scope : SubscriptionScope) : (r.registerWithScope c conn sub filters scope).2.NoneEmpty := by
    intro conn' stored
    rcases (stored_registerWithScope c conn sub filters scope conn').mp stored with rfl | stored
    · exact ⟨sub, by simp [live_registerWithScope]⟩
    · obtain ⟨sub', here⟩ := full conn' stored
      refine ⟨sub', ?_⟩
      rw [live_registerWithScope]
      split
      next => rfl
      next => exact here
  cases op with
  | registerScoped c conn sub filters channel => exact iff_of_true (registered _ _ _ _ _) id
  | registerChannelsScoped c conn sub filters channels => exact iff_of_true (registered _ _ _ _ _) id
  | removeConnection conn =>
    refine iff_of_true ?_ id
    intro conn' stored
    obtain ⟨differ, stored⟩ := stored_removeConnection conn conn' stored
    obtain ⟨sub, here⟩ := full conn' stored
    exact ⟨sub, by simpa [call, live_removeConnection, differ] using here⟩
  | removeSubscription conn sub =>
    have after (conn' : ConnId) (sub' : SubId) :
        ((r.call (.removeSubscription conn sub)).live (conn', sub')).isSome ↔
          (r.live (conn', sub')).isSome ∧ ¬ (conn' = conn ∧ sub' = sub) := by
      rw [call, live_removeSubscription]
      split
      next same => simp_all
      next differ => simp_all
    constructor
    · rintro kept ⟨here, only⟩
      have stored := (stored_removeSubscription conn sub conn).mpr (Active.stored ⟨sub, here⟩)
      obtain ⟨sub', left⟩ := kept conn stored
      obtain ⟨left, differ⟩ := (after conn sub').mp left
      exact differ ⟨rfl, only sub' left⟩
    · intro spares conn' stored
      obtain ⟨sub', here⟩ := full conn' ((stored_removeSubscription conn sub conn').mp stored)
      by_contra gone
      have last (sub'' : SubId) (left : (r.live (conn', sub'')).isSome) : conn' = conn ∧ sub'' = sub := by
        by_contra differ
        exact gone ⟨sub'', (after conn' sub'').mpr ⟨left, differ⟩⟩
      obtain ⟨rfl, rfl⟩ := last sub' here
      exact spares ⟨here, fun sub'' left => (last sub'' left).2⟩
  | removeChannelSubscriptionsScoped c conn channel =>
    constructor
    · rintro kept ⟨active, only⟩
      obtain ⟨sub, left⟩ := kept conn
        ((stored_removeChannelSubscriptionsScoped c conn channel conn).mpr active.stored)
      obtain ⟨e, here, survives⟩ := (isSome_live_revoked c conn channel sub).mp left
      exact survives (only sub e here)
    · intro spares conn' stored
      obtain ⟨sub, here⟩ := full conn'
        ((stored_removeChannelSubscriptionsScoped c conn channel conn').mp stored)
      by_cases other : conn' = conn
      · subst other
        by_contra gone
        refine spares ⟨⟨sub, here⟩, fun sub' e found => ?_⟩
        by_contra survives
        exact gone ⟨sub', (isSome_live_revoked c conn' channel sub').mpr ⟨e, found, survives⟩⟩
      · exact ⟨sub, by simpa [call, live_removeChannelSubscriptionsScoped, other] using here⟩

/-- In every state of a run the counters are those of the live subscriptions exactly if no call of
the run empties the table of a connection. -/
theorem counts_along_iff (calls : List Call) :
    (∀ before, before <+: calls → (run before).Counts) ↔
      Along call (fun r op => ¬ r.Empties op) {} calls := by
  have start : NoneEmpty {} := by simp [NoneEmpty]
  -- by induction on the calls, from any registry without an empty table
  have general : ∀ s : SubscriptionRegistry, s.NoneEmpty →
      ((∀ before, before <+: calls → (before.foldl call s).NoneEmpty) ↔
        Along call (fun r op => ¬ r.Empties op) s calls) := by
    induction calls with
    | nil =>
      intro s full
      simp [Along, full]
    | cons op calls ih =>
      intro s full
      constructor
      · intro all
        have here := all [op] (by simp)
        refine ⟨(noneEmpty_call full op).mp here, (ih _ here).mp fun before inside => ?_⟩
        exact all (op :: before) (List.cons_prefix_cons.mpr ⟨rfl, inside⟩)
      · rintro ⟨spares, later⟩ before inside
        have here := (noneEmpty_call full op).mpr spares
        cases before with
        | nil => exact full
        | cons first before =>
          obtain ⟨rfl, rest⟩ := List.cons_prefix_cons.mp inside
          exact (ih _ here).mpr later before rest
  simp only [counts_iff]
  exact general {} start

/-! ### A closed subscription -/

namespace Sample

/-- A connection opens one subscription and closes it. -/
def openedAndClosed : List Call :=
  [.registerScoped ⟨⟨1⟩⟩ ⟨2⟩ "feed" [{}] none, .removeSubscription ⟨2⟩ "feed"]

end Sample

/-- It is still counted as a connection with an active subscription. -/
theorem counts_openedAndClosed : (run Sample.openedAndClosed).totalConnections = 1 ∧
    (∀ conn, ¬ (run Sample.openedAndClosed).Active conn) ∧
    ¬ (run Sample.openedAndClosed).Counts := by
  have tables : (run Sample.openedAndClosed).subs =
      (∅ : Map ConnId (Map SubId SubEntry)).insert ⟨2⟩ ∅ := AList.ext rfl
  have inactive (conn : ConnId) : ¬ (run Sample.openedAndClosed).Active conn := by
    rintro ⟨sub, here⟩
    simp only [live, tables, Map.lookup_insert_ite] at here
    split at here <;> simp at here
  refine ⟨by decide, inactive, fun counts => inactive ⟨2⟩ ?_⟩
  exact counts_iff.mp counts ⟨2⟩ (by rw [tables]; rfl)

end SubscriptionRegistry

end Relay
