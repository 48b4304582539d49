import Buzz.Relay.Subscription

/-!
# The indexes mirror the live subscriptions

Filing and withdrawing a subscription touch five indexes, but only ever under
the keys its filters, community and scope produce. `file` and `withdraw` state
that as two bulk operations, the source's loops are shown equal to them, and
every registry operation then keeps each index `Exact` for the live table.
-/
namespace Relay

open Nostr Lib

namespace SubEntry

/-! ### The keys of a subscription in each index -/

def channelKindKeys (e : SubEntry) : List (CommunityId × IndexKey) :=
  match e.scope, extractKindsFromFilters e.filters with
  | .channels ids, some kinds =>
    ids.flatMap fun channel => kinds.map fun kind => (e.communityId, ⟨channel, kind⟩)
  | _, _ => []

def channelWildcardKeys (e : SubEntry) : List (CommunityId × Uuid) :=
  match e.scope, extractKindsFromFilters e.filters with
  | .channels ids, none => ids.map fun channel => (e.communityId, channel)
  | _, _ => []

def globalPKindKeys (e : SubEntry) : List GlobalPKindIndexKey :=
  match e.scope, extractGlobalPKindIndexKeys e.communityId e.filters with
  | .global, some keys => keys
  | _, _ => []

def globalKindKeys (e : SubEntry) : List (CommunityId × Kind) :=
  match e.scope, extractGlobalPKindIndexKeys e.communityId e.filters,
    extractKindsFromFilters e.filters with
  | .global, none, some kinds => kinds.map fun kind => (e.communityId, kind)
  | _, _, _ => []

def globalWildcardKeys (e : SubEntry) : List CommunityId :=
  match e.scope, extractGlobalPKindIndexKeys e.communityId e.filters,
    extractKindsFromFilters e.filters with
  | .global, none, none => [e.communityId]
  | _, _, _ => []

variable (filters : List Filter) (c : CommunityId) (ids : List Uuid)

@[simp] theorem channelKindKeys_global : channelKindKeys ⟨filters, c, .global⟩ = [] := rfl

@[simp] theorem channelWildcardKeys_global : channelWildcardKeys ⟨filters, c, .global⟩ = [] := rfl

@[simp] theorem globalPKindKeys_channels :
    globalPKindKeys ⟨filters, c, .channels ids⟩ = [] := rfl

@[simp] theorem globalKindKeys_channels : globalKindKeys ⟨filters, c, .channels ids⟩ = [] := rfl

@[simp] theorem globalWildcardKeys_channels :
    globalWildcardKeys ⟨filters, c, .channels ids⟩ = [] := rfl

end SubEntry

namespace SubscriptionRegistry

/-- Push the pair under all keys of the entry. -/
def file (r : SubscriptionRegistry) (v : ConnId × SubId) (e : SubEntry) :
    SubscriptionRegistry := { r with
  channelKindIndex := r.channelKindIndex.pushAll e.channelKindKeys v
  channelWildcardIndex := r.channelWildcardIndex.pushAll e.channelWildcardKeys v
  globalKindIndex := r.globalKindIndex.pushAll e.globalKindKeys v
  globalPKindIndex := r.globalPKindIndex.pushAll e.globalPKindKeys v
  globalWildcardIndex := r.globalWildcardIndex.pushAll e.globalWildcardKeys v }

/-- Filter the pair out of the lists of all keys of the entry. -/
def withdraw (r : SubscriptionRegistry) (v : ConnId × SubId) (e : SubEntry) :
    SubscriptionRegistry := { r with
  channelKindIndex := r.channelKindIndex.retainAll e.channelKindKeys v
  channelWildcardIndex := r.channelWildcardIndex.retainAll e.channelWildcardKeys v
  globalKindIndex := r.globalKindIndex.retainAll e.globalKindKeys v
  globalPKindIndex := r.globalPKindIndex.retainAll e.globalPKindKeys v
  globalWildcardIndex := r.globalWildcardIndex.retainAll e.globalWildcardKeys v }

/-! ### The source's loops are bulk operations -/

private theorem foldl_indexChannel (r : SubscriptionRegistry) (v : ConnId × SubId)
    (filters : List Filter) (c : CommunityId) (ids : List Uuid) :
    ids.foldl (fun r channel => r.indexChannel v filters c channel) r =
      r.file v ⟨filters, c, .channels ids⟩ := by
  induction ids generalizing r with
  | nil =>
    cases kinds : extractKindsFromFilters filters <;>
      simp [file, SubEntry.channelKindKeys, SubEntry.channelWildcardKeys, kinds, Index.pushAll]
  | cons channel ids ih =>
    rw [List.foldl_cons, ih]
    cases kinds : extractKindsFromFilters filters with
    | none =>
      simp [file, indexChannel, SubEntry.channelKindKeys, SubEntry.channelWildcardKeys, kinds,
        Index.pushAll]
    | some ks =>
      cases ks <;>
        simp [file, indexChannel, SubEntry.channelKindKeys, SubEntry.channelWildcardKeys, kinds,
          Index.pushAll, List.foldl_map, List.foldl_append]

private theorem indexGlobal_eq_file (r : SubscriptionRegistry) (v : ConnId × SubId)
    (filters : List Filter) (c : CommunityId) :
    r.indexGlobal v filters c = r.file v ⟨filters, c, .global⟩ := by
  unfold indexGlobal
  cases pKeys : extractGlobalPKindIndexKeys c filters with
  | some keys =>
    simp [file, SubEntry.globalKindKeys, SubEntry.globalPKindKeys, SubEntry.globalWildcardKeys,
      pKeys, Index.pushAll]
  | none =>
    cases kinds : extractKindsFromFilters filters with
    | none =>
      simp [file, SubEntry.globalKindKeys, SubEntry.globalPKindKeys, SubEntry.globalWildcardKeys,
        pKeys, kinds, Index.pushAll]
    | some ks =>
      cases ks <;>
        simp [file, SubEntry.globalKindKeys, SubEntry.globalPKindKeys,
          SubEntry.globalWildcardKeys, pKeys, kinds, Index.pushAll, List.foldl_map]

theorem index_eq_file (r : SubscriptionRegistry) (v : ConnId × SubId) (filters : List Filter)
    (c : CommunityId) (scope : SubscriptionScope) :
    r.index v filters c scope = r.file v ⟨filters, c, scope⟩ := by
  cases scope with
  | channels ids => exact foldl_indexChannel r v filters c ids
  | global => exact indexGlobal_eq_file r v filters c

private theorem foldl_unindexChannel (r : SubscriptionRegistry) (v : ConnId × SubId)
    (filters : List Filter) (c : CommunityId) (ids : List Uuid) :
    ids.foldl (fun r channel => r.unindexChannel v filters c channel) r =
      r.withdraw v ⟨filters, c, .channels ids⟩ := by
  induction ids generalizing r with
  | nil =>
    cases kinds : extractKindsFromFilters filters <;>
      simp [withdraw, SubEntry.channelKindKeys, SubEntry.channelWildcardKeys, kinds,
        Index.retainAll]
  | cons channel ids ih =>
    rw [List.foldl_cons, ih]
    cases kinds : extractKindsFromFilters filters with
    | none =>
      simp [withdraw, unindexChannel, SubEntry.channelKindKeys, SubEntry.channelWildcardKeys,
        kinds, Index.retainAll]
    | some ks =>
      cases ks <;>
        simp [withdraw, unindexChannel, SubEntry.channelKindKeys, SubEntry.channelWildcardKeys,
          kinds, Index.retainAll, List.foldl_map, List.foldl_append]

theorem removeFromIndex_eq_withdraw (r : SubscriptionRegistry) (conn : ConnId) (sub : SubId)
    (filters : List Filter) (c : CommunityId) (scope : SubscriptionScope) :
    r.removeFromIndex conn sub filters c scope = r.withdraw (conn, sub) ⟨filters, c, scope⟩ := by
  unfold removeFromIndex
  cases scope with
  | channels ids => exact foldl_unindexChannel r (conn, sub) filters c ids
  | global =>
    cases pKeys : extractGlobalPKindIndexKeys c filters with
    | some keys =>
      simp [withdraw, SubEntry.globalKindKeys, SubEntry.globalPKindKeys,
        SubEntry.globalWildcardKeys, pKeys, Index.retainAll]
    | none =>
      cases kinds : extractKindsFromFilters filters with
      | none =>
        simp [withdraw, SubEntry.globalKindKeys, SubEntry.globalPKindKeys,
          SubEntry.globalWildcardKeys, pKeys, kinds, Index.retainAll]
      | some ks =>
        cases ks <;>
          simp [withdraw, SubEntry.globalKindKeys, SubEntry.globalPKindKeys,
            SubEntry.globalWildcardKeys, pKeys, kinds, Index.retainAll, List.foldl_map]

/-! ### The live table under each update of `subs` -/

theorem live_insert (r : SubscriptionRegistry) (conn : ConnId) (connSubs : Map SubId SubEntry)
    (v : ConnId × SubId) :
    ({ r with subs := r.subs.insert conn connSubs } : SubscriptionRegistry).live v =
      if v.1 = conn then connSubs.lookup v.2 else r.live v := by
  simp only [live, Map.lookup_insert_ite]
  split <;> simp

theorem live_erase (r : SubscriptionRegistry) (conn : ConnId) (v : ConnId × SubId) :
    ({ r with subs := r.subs.erase conn } : SubscriptionRegistry).live v =
      if v.1 = conn then none else r.live v := by
  simp only [live, Map.lookup_erase_ite]
  split <;> simp

@[simp] theorem live_withdraw (r : SubscriptionRegistry) (v w : ConnId × SubId) (e : SubEntry) :
    (r.withdraw v e).live w = r.live w := rfl

@[simp] theorem live_file (r : SubscriptionRegistry) (v w : ConnId × SubId) (e : SubEntry) :
    (r.file v e).live w = r.live w := rfl

theorem live_of_lookup {r : SubscriptionRegistry} {conn : ConnId} {connSubs : Map SubId SubEntry}
    (found : r.subs.lookup conn = some connSubs) (sub : SubId) :
    r.live (conn, sub) = connSubs.lookup sub := by
  simp [live, found]

theorem live_of_lookup_none {r : SubscriptionRegistry} {v : ConnId × SubId}
    (absent : r.subs.lookup v.1 = none) : r.live v = none := by
  simp [live, absent]

/-! ### The invariant -/

/-- Every index of the registry files exactly the entries of `live`. -/
structure IndexedBy (r : SubscriptionRegistry) (live : ConnId × SubId → Option SubEntry) :
    Prop where
  channelKind : r.channelKindIndex.Exact SubEntry.channelKindKeys live
  channelWildcard : r.channelWildcardIndex.Exact SubEntry.channelWildcardKeys live
  globalKind : r.globalKindIndex.Exact SubEntry.globalKindKeys live
  globalPKind : r.globalPKindIndex.Exact SubEntry.globalPKindKeys live
  globalWildcard : r.globalWildcardIndex.Exact SubEntry.globalWildcardKeys live

/-- The indexes mirror the live subscriptions. -/
def Indexed (r : SubscriptionRegistry) : Prop := r.IndexedBy r.live

theorem indexed_new : ({} : SubscriptionRegistry).Indexed where
  channelKind := .empty _
  channelWildcard := .empty _
  globalKind := .empty _
  globalPKind := .empty _
  globalWildcard := .empty _

variable {r : SubscriptionRegistry} {live live' : ConnId × SubId → Option SubEntry}

theorem IndexedBy.file (mirrors : r.IndexedBy live) (v : ConnId × SubId) (e : SubEntry)
    (fresh : live v = none) (added : live' v = some e)
    (others : ∀ w, w ≠ v → live' w = live w) : (r.file v e).IndexedBy live' where
  channelKind := mirrors.channelKind.add v e fresh added others
  channelWildcard := mirrors.channelWildcard.add v e fresh added others
  globalKind := mirrors.globalKind.add v e fresh added others
  globalPKind := mirrors.globalPKind.add v e fresh added others
  globalWildcard := mirrors.globalWildcard.add v e fresh added others

/-- Going from `old` to `new`, a subscription loses exactly the keys of `d`. -/
def Loses {κ : Type} (keys : SubEntry → List κ) (old new : Option SubEntry) (d : SubEntry) :
    Prop :=
  ∀ k, (∃ e, new = some e ∧ k ∈ keys e) ↔ (∃ e, old = some e ∧ k ∈ keys e) ∧ k ∉ keys d

theorem IndexedBy.remove (mirrors : r.IndexedBy live) (v : ConnId × SubId) (e : SubEntry)
    (was : live v = some e) (gone : live' v = none) (others : ∀ w, w ≠ v → live' w = live w) :
    (r.withdraw v e).IndexedBy live' := by
  have loses : ∀ {κ : Type} (keys : SubEntry → List κ), Loses keys (live v) (live' v) e := by
    intro κ keys k
    simp [was, gone]
  exact {
    channelKind := mirrors.channelKind.withdraw v _ (loses _) others
    channelWildcard := mirrors.channelWildcard.withdraw v _ (loses _) others
    globalKind := mirrors.globalKind.withdraw v _ (loses _) others
    globalPKind := mirrors.globalPKind.withdraw v _ (loses _) others
    globalWildcard := mirrors.globalWildcard.withdraw v _ (loses _) others }

private theorem channelKind_narrowed (filters : List Filter) (c : CommunityId) (ids : List Uuid)
    (channel : Uuid) (k : CommunityId × IndexKey) :
    k ∈ SubEntry.channelKindKeys ⟨filters, c, .channels (ids.filter (· ≠ channel))⟩ ↔
      k ∈ SubEntry.channelKindKeys ⟨filters, c, .channels ids⟩ ∧
        k ∉ SubEntry.channelKindKeys ⟨filters, c, .channels [channel]⟩ := by
  cases kinds : extractKindsFromFilters filters with
  | none => simp [SubEntry.channelKindKeys, kinds]
  | some ks =>
    simp only [SubEntry.channelKindKeys, kinds, List.mem_flatMap, List.mem_filter, List.mem_map,
      List.mem_singleton, decide_eq_true_eq]
    constructor
    · rintro ⟨other, ⟨member, different⟩, kind, inside, rfl⟩
      refine ⟨⟨other, member, kind, inside, rfl⟩, ?_⟩
      rintro ⟨_, rfl, kind', _, same⟩
      simp only [Prod.mk.injEq, IndexKey.mk.injEq, true_and] at same
      exact different same.1.symm
    · rintro ⟨⟨other, member, kind, inside, rfl⟩, kept⟩
      refine ⟨other, ⟨member, ?_⟩, kind, inside, rfl⟩
      rintro rfl
      exact kept ⟨other, rfl, kind, inside, rfl⟩

private theorem channelWildcard_narrowed (filters : List Filter) (c : CommunityId)
    (ids : List Uuid) (channel : Uuid) (k : CommunityId × Uuid) :
    k ∈ SubEntry.channelWildcardKeys ⟨filters, c, .channels (ids.filter (· ≠ channel))⟩ ↔
      k ∈ SubEntry.channelWildcardKeys ⟨filters, c, .channels ids⟩ ∧
        k ∉ SubEntry.channelWildcardKeys ⟨filters, c, .channels [channel]⟩ := by
  cases kinds : extractKindsFromFilters filters with
  | some ks => simp [SubEntry.channelWildcardKeys, kinds]
  | none =>
    simp only [SubEntry.channelWildcardKeys, kinds, List.mem_filter, List.mem_map,
      List.mem_singleton, decide_eq_true_eq]
    constructor
    · rintro ⟨other, ⟨member, different⟩, rfl⟩
      refine ⟨⟨other, member, rfl⟩, ?_⟩
      rintro ⟨_, rfl, same⟩
      simp only [Prod.mk.injEq, true_and] at same
      exact different same.symm
    · rintro ⟨⟨other, member, rfl⟩, kept⟩
      refine ⟨other, ⟨member, ?_⟩, rfl⟩
      rintro rfl
      exact kept ⟨other, rfl, rfl⟩

/-- Withdrawing a subscription from one channel, when its stored scope is
narrowed by that channel or, if nothing is left of it, the entry is dropped. -/
theorem IndexedBy.narrow (mirrors : r.IndexedBy live) (v : ConnId × SubId)
    (filters : List Filter) (c : CommunityId) (ids : List Uuid) (channel : Uuid)
    (was : live v = some ⟨filters, c, .channels ids⟩)
    (now : live' v = some ⟨filters, c, .channels (ids.filter (· ≠ channel))⟩ ∨
      (ids.filter (· ≠ channel) = [] ∧ live' v = none))
    (others : ∀ w, w ≠ v → live' w = live w) :
    (r.withdraw v ⟨filters, c, .channels [channel]⟩).IndexedBy live' := by
  -- keys that are additive in the channel list are lost for exactly this channel
  have loses : ∀ {κ : Type} (keys : SubEntry → List κ), keys ⟨filters, c, .channels []⟩ = [] →
      (∀ k, k ∈ keys ⟨filters, c, .channels (ids.filter (· ≠ channel))⟩ ↔
        k ∈ keys ⟨filters, c, .channels ids⟩ ∧ k ∉ keys ⟨filters, c, .channels [channel]⟩) →
      Loses keys (live v) (live' v) ⟨filters, c, .channels [channel]⟩ := by
    intro κ keys none narrowed k
    have left := narrowed k
    rcases now with kept | ⟨nothing, gone⟩
    · simpa [was, kept] using left
    · rw [nothing, none] at left
      simpa [was, gone] using left
  exact {
    channelKind := mirrors.channelKind.withdraw v _
      (loses _ (by cases kinds : extractKindsFromFilters filters <;>
        simp [SubEntry.channelKindKeys, kinds]) (channelKind_narrowed filters c ids channel)) others
    channelWildcard := mirrors.channelWildcard.withdraw v _
      (loses _ (by cases kinds : extractKindsFromFilters filters <;>
        simp [SubEntry.channelWildcardKeys, kinds])
        (channelWildcard_narrowed filters c ids channel)) others
    globalKind := mirrors.globalKind.withdraw v _ (loses _ rfl (by simp)) others
    globalPKind := mirrors.globalPKind.withdraw v _ (loses _ rfl (by simp)) others
    globalWildcard := mirrors.globalWildcard.withdraw v _ (loses _ rfl (by simp)) others }

/-! ### Every operation keeps the invariant -/

/-- What `remove_subscription` can do: nothing, when the pair is not live, or drop
the entry and withdraw it from all of its keys. -/
theorem removeSubscription_cases (r : SubscriptionRegistry) (conn : ConnId) (sub : SubId) :
    (r.live (conn, sub) = none ∧ r.removeSubscription conn sub = (none, r)) ∨
      ∃ connSubs e, r.subs.lookup conn = some connSubs ∧ connSubs.lookup sub = some e ∧
        r.removeSubscription conn sub = (some ⟨e.communityId, e.scope⟩,
          ({ r with subs := r.subs.insert conn (connSubs.erase sub) } :
            SubscriptionRegistry).withdraw (conn, sub) e) := by
  cases table : r.subs.lookup conn with
  | none => exact Or.inl ⟨by simp [live, table], by simp [removeSubscription, table]⟩
  | some connSubs =>
    cases entry : connSubs.lookup sub with
    | none =>
      exact Or.inl ⟨by rw [live_of_lookup table, entry], by simp [removeSubscription, table, entry]⟩
    | some e =>
      refine Or.inr ⟨connSubs, e, rfl, entry, ?_⟩
      simp [removeSubscription, table, entry, removeFromIndex_eq_withdraw]

theorem live_removeSubscription (r : SubscriptionRegistry) (conn : ConnId) (sub : SubId)
    (v : ConnId × SubId) :
    (r.removeSubscription conn sub).2.live v = if v = (conn, sub) then none else r.live v := by
  rcases removeSubscription_cases r conn sub with
    ⟨absent, unchanged⟩ | ⟨connSubs, e, table, _, removed⟩
  · rw [unchanged]
    split
    next same => rw [same, absent]
    next => rfl
  · obtain ⟨conn', sub'⟩ := v
    simp only [removed, live_withdraw, live_insert, Prod.mk.injEq]
    by_cases sameConn : conn' = conn
    · subst sameConn
      simp [Map.lookup_erase_ite, live_of_lookup table]
    · simp [sameConn]

theorem indexed_removeSubscription (indexed : r.Indexed) (conn : ConnId) (sub : SubId) :
    (r.removeSubscription conn sub).2.Indexed := by
  have gone := live_removeSubscription r conn sub
  rcases removeSubscription_cases r conn sub with
    ⟨_, unchanged⟩ | ⟨connSubs, e, table, entry, removed⟩
  · rw [unchanged]; exact indexed
  · rw [removed] at gone ⊢
    have mirrors : ({ r with subs := r.subs.insert conn (connSubs.erase sub) } :
        SubscriptionRegistry).IndexedBy r.live := { indexed with }
    apply mirrors.remove (conn, sub) e
    · rw [live_of_lookup table, entry]
    · simp [gone]
    · intro w different
      rw [gone, if_neg different]

theorem indexed_registerWithScope (indexed : r.Indexed) (c : CommunityId) (conn : ConnId)
    (sub : SubId) (filters : List Filter) (scope : SubscriptionScope) :
    (r.registerWithScope c conn sub filters scope).2.Indexed := by
  have cleared := indexed_removeSubscription indexed conn sub
  have gone := live_removeSubscription r conn sub
  simp only [registerWithScope, index_eq_file]
  generalize (r.removeSubscription conn sub).2 = s at cleared gone
  have mirrors : ∀ subs', ({ s with subs := subs' } : SubscriptionRegistry).IndexedBy s.live :=
    fun _ => { cleared with }
  apply (mirrors _).file (conn, sub) ⟨filters, c, scope⟩
  · simp [gone]
  · rw [live_file, Map.upsert, live_insert]
    simp
  · rintro ⟨conn', sub'⟩ different
    rw [live_file, Map.upsert, live_insert]
    split
    next same =>
      subst same
      have other : sub' ≠ sub := fun h => different (by rw [h])
      rw [AList.lookup_insert_ne other]
      cases table : s.subs.lookup conn' <;> simp [live, table]
    next => rfl

theorem removeEntries_snd_nil (r : SubscriptionRegistry) (conn : ConnId) :
    (r.removeEntries conn []).2 = r := rfl

theorem removeEntries_snd_cons (r : SubscriptionRegistry) (conn : ConnId)
    (first : Sigma fun _ : SubId => SubEntry) (rest : List (Sigma fun _ : SubId => SubEntry)) :
    (r.removeEntries conn (first :: rest)).2 =
      ((r.withdraw (conn, first.1) first.2).removeEntries conn rest).2 := by
  -- the list of removed scopes is an accumulator the registry does not depend on
  have forget (entries : List (Sigma fun _ : SubId => SubEntry)) (r : SubscriptionRegistry) :
      (r.removeEntries conn entries).2 = entries.foldl (fun r e =>
        r.removeFromIndex conn e.1 e.2.filters e.2.communityId e.2.scope) r :=
    (List.foldl_hom Prod.snd fun _ _ => rfl).symm
  rw [forget, forget, List.foldl_cons, removeFromIndex_eq_withdraw]

private theorem indexedBy_removeEntries (r : SubscriptionRegistry) (conn : ConnId)
    (base : ConnId × SubId → Option SubEntry) (entries : List (Sigma fun _ : SubId => SubEntry))
    (distinct : entries.NodupKeys)
    (mirrors : r.IndexedBy fun v => if v.1 = conn then entries.dlookup v.2 else base v) :
    (r.removeEntries conn entries).2.IndexedBy fun v => if v.1 = conn then none else base v := by
  induction entries generalizing r with
  | nil =>
    rw [removeEntries_snd_nil]
    simpa using mirrors
  | cons first rest ih =>
    obtain ⟨sub, e⟩ := first
    rw [List.nodupKeys_cons] at distinct
    have step : (r.withdraw (conn, sub) e).IndexedBy
        fun v => if v.1 = conn then rest.dlookup v.2 else base v := by
      apply mirrors.remove (conn, sub) e
      · simp
      · simpa using List.dlookup_eq_none.mpr distinct.1
      · rintro ⟨conn', sub'⟩ different
        by_cases same : conn' = conn
        · subst same
          have other : sub' ≠ sub := fun h => different (by rw [h])
          simp [List.dlookup_cons_ne rest (⟨sub, e⟩ : Sigma fun _ : SubId => SubEntry) other]
        · simp [same]
    rw [removeEntries_snd_cons]
    exact ih (r.withdraw (conn, sub) e) distinct.2 step

theorem live_removeConnection (r : SubscriptionRegistry) (conn : ConnId) (v : ConnId × SubId) :
    (r.removeConnection conn).2.live v = if v.1 = conn then none else r.live v := by
  cases table : r.subs.lookup conn with
  | none =>
    have same : (r.removeConnection conn).2 = r := by simp [removeConnection, table]
    rw [same]
    by_cases here : v.1 = conn
    · rw [if_pos here, live_of_lookup_none (here ▸ table)]
    · rw [if_neg here]
  | some connSubs =>
    have unchanged : ∀ (entries : List (Sigma fun _ : SubId => SubEntry))
        (s : SubscriptionRegistry), (s.removeEntries conn entries).2.subs = s.subs := by
      intro entries
      induction entries with
      | nil => intro s; rfl
      | cons first rest ih => intro s; rw [removeEntries_snd_cons, ih]; rfl
    simp only [removeConnection, table, live, unchanged]
    exact live_erase r conn v

theorem indexed_removeConnection (indexed : r.Indexed) (conn : ConnId) :
    (r.removeConnection conn).2.Indexed := by
  have gone : (r.removeConnection conn).2.live = fun v => if v.1 = conn then none else r.live v :=
    funext (live_removeConnection r conn)
  unfold Indexed
  rw [gone]
  unfold removeConnection
  cases table : r.subs.lookup conn with
  | none =>
    have same : (fun v => if v.1 = conn then none else r.live v) = r.live := by
      funext v
      split
      next h => exact (live_of_lookup_none (h ▸ table)).symm
      next => rfl
    rw [same]
    exact indexed
  | some connSubs =>
    have same : r.live = fun v => if v.1 = conn then connSubs.entries.dlookup v.2
        else r.live v := by
      funext v
      split
      next h => subst h; exact live_of_lookup table v.2
      next => rfl
    have before : ({ r with subs := r.subs.erase conn } : SubscriptionRegistry).IndexedBy
        fun v => if v.1 = conn then connSubs.entries.dlookup v.2 else r.live v := by
      rw [← same]
      exact { indexed with }
    exact indexedBy_removeEntries _ conn r.live connSubs.entries connSubs.nodupKeys before

/-- What one round of a revocation can do: nothing, when the subscription is not
live or not channel-scoped, or take the channel out of its scope and indexes. -/
theorem revokeOne_cases (r : SubscriptionRegistry) (c : CommunityId) (conn : ConnId)
    (channel : Uuid) (sub : SubId) :
    (r.revokeOne c conn channel sub = (none, r) ∧
        ∀ e, r.live (conn, sub) = some e → e.scope = .global) ∨
      ∃ filters c' ids, r.live (conn, sub) = some ⟨filters, c', .channels ids⟩ ∧
        ∃ subs', r.revokeOne c conn channel sub =
            (some ⟨sub, (ids.filter (· ≠ channel)).isEmpty⟩,
              ({ r with subs := subs' } : SubscriptionRegistry).withdraw (conn, sub)
                ⟨filters, c, .channels [channel]⟩) ∧
          ∀ v, ({ r with subs := subs' } : SubscriptionRegistry).live v =
            if v = (conn, sub) then
              (if ids.filter (· ≠ channel) = [] then none
                else some ⟨filters, c', .channels (ids.filter (· ≠ channel))⟩)
            else r.live v := by
  cases table : r.subs.lookup conn with
  | none => exact Or.inl ⟨by simp [revokeOne, table], by simp [live, table]⟩
  | some connSubs =>
    cases entry : connSubs.lookup sub with
    | none => exact Or.inl ⟨by simp [revokeOne, table, entry], by simp [live, table, entry]⟩
    | some e =>
      obtain ⟨filters, c', scope⟩ := e
      cases scope with
      | global => exact Or.inl ⟨by simp [revokeOne, table, entry], by simp [live, table, entry]⟩
      | channels ids =>
        refine Or.inr ⟨filters, c', ids, by rw [live_of_lookup table, entry], ?_⟩
        have stored : ∀ (connSubs' : Map SubId SubEntry) (v : ConnId × SubId),
            (∀ s, s ≠ sub → connSubs'.lookup s = connSubs.lookup s) →
            ({ r with subs := r.subs.insert conn connSubs' } : SubscriptionRegistry).live v =
              if v = (conn, sub) then connSubs'.lookup sub else r.live v := by
          rintro connSubs' ⟨conn', sub'⟩ elsewhere
          rw [live_insert]
          by_cases sameConn : conn' = conn
          · subst sameConn
            by_cases sameSub : sub' = sub
            · subst sameSub
              simp
            · simp [sameSub, live_of_lookup table, elsewhere sub' sameSub]
          · simp [sameConn]
        by_cases nothing : ids.filter (· ≠ channel) = []
        · refine ⟨r.subs.insert conn (connSubs.erase sub), ?_, fun v => ?_⟩
          · simp only [revokeOne, table, entry, removeFromIndex_eq_withdraw, nothing,
              List.isEmpty_nil, if_true, withdraw, AList.insert_insert]
          · rw [stored _ v fun s other => AList.lookup_erase_ne other, AList.lookup_erase,
              if_pos nothing]
        · refine ⟨r.subs.insert conn (connSubs.insert sub
            ⟨filters, c', .channels (ids.filter (· ≠ channel))⟩), ?_, fun v => ?_⟩
          · have kept : (ids.filter (· ≠ channel)).isEmpty = false := by simpa using nothing
            simp only [revokeOne, table, entry, kept, removeFromIndex_eq_withdraw,
              Bool.false_eq_true, if_false]
          · rw [stored _ v fun s other => AList.lookup_insert_ne other, AList.lookup_insert,
              if_neg nothing]

/-- The subscription, if live, belongs to the community: what the revocation loop
relies on when it recomputes keys from its own argument. -/
def OwnedBy (r : SubscriptionRegistry) (c : CommunityId) (v : ConnId × SubId) : Prop :=
  ∀ e, r.live v = some e → e.communityId = c

theorem indexed_revokeOne (indexed : r.Indexed) (c : CommunityId) (conn : ConnId) (channel : Uuid)
    (sub : SubId) (owned : r.OwnedBy c (conn, sub)) :
    (r.revokeOne c conn channel sub).2.Indexed := by
  rcases revokeOne_cases r c conn channel sub with
    ⟨unchanged, -⟩ | ⟨filters, c', ids, was, subs', revoked, now⟩
  · rw [unchanged]; exact indexed
  · have same : c' = c := owned _ was
    subst same
    have mirrors : ({ r with subs := subs' } : SubscriptionRegistry).IndexedBy r.live :=
      { indexed with }
    rw [revoked]
    apply mirrors.narrow (conn, sub) filters c' ids channel was
    · rw [live_withdraw, now, if_pos rfl]
      split
      next nothing => exact Or.inr ⟨nothing, rfl⟩
      next => exact Or.inl rfl
    · intro w different
      rw [live_withdraw, now, if_neg different]

theorem ownedBy_revokeOne (c : CommunityId) (conn : ConnId) (channel : Uuid) (sub : SubId)
    (v : ConnId × SubId) (owned : r.OwnedBy c v) :
    (r.revokeOne c conn channel sub).2.OwnedBy c v := by
  rcases revokeOne_cases r c conn channel sub with
    ⟨unchanged, -⟩ | ⟨filters, c', ids, was, subs', revoked, now⟩
  · rw [unchanged]; exact owned
  · intro e stored
    rw [revoked, live_withdraw, now] at stored
    split at stored
    next same =>
      split at stored
      next => cases stored
      next =>
        cases stored
        exact owned ⟨filters, c', .channels ids⟩ (same ▸ was)
    next => exact owned e stored

theorem ownedBy_of_mem_subscriptionsOfChannel {c : CommunityId} {conn : ConnId} {channel : Uuid}
    {sub : SubId} (member : sub ∈ r.subscriptionsOfChannel c conn channel) :
    r.OwnedBy c (conn, sub) := by
  intro e stored
  unfold subscriptionsOfChannel at member
  cases table : r.subs.lookup conn with
  | none => simp [table] at member
  | some connSubs =>
    simp only [table, List.mem_filterMap] at member
    obtain ⟨⟨sub', e'⟩, inside, chosen⟩ := member
    split at chosen
    next guard =>
      cases chosen
      rw [live_of_lookup table, (Map.mem_entries_iff connSubs _ _).mp inside] at stored
      cases stored
      exact guard.1
    next => cases chosen

theorem removeChannelSubscriptionsScoped_snd (r : SubscriptionRegistry) (c : CommunityId)
    (conn : ConnId) (channel : Uuid) :
    (r.removeChannelSubscriptionsScoped c conn channel).2 =
      (r.subscriptionsOfChannel c conn channel).foldl
        (fun r sub => (r.revokeOne c conn channel sub).2) r :=
  (List.foldl_hom Prod.snd fun _ _ => rfl).symm

theorem indexed_removeChannelSubscriptionsScoped (indexed : r.Indexed) (c : CommunityId)
    (conn : ConnId) (channel : Uuid) :
    (r.removeChannelSubscriptionsScoped c conn channel).2.Indexed := by
  -- over the loop, the subscriptions still to be visited stay in the community
  have loop : ∀ (subs : List SubId) (s : SubscriptionRegistry), s.Indexed →
      (∀ sub ∈ subs, s.OwnedBy c (conn, sub)) →
      (subs.foldl (fun r sub => (r.revokeOne c conn channel sub).2) s).Indexed := by
    intro subs
    induction subs with
    | nil => intro s holds _; exact holds
    | cons sub subs ih =>
      intro s holds owned
      rw [List.foldl_cons]
      apply ih
      · exact indexed_revokeOne holds c conn channel sub (owned sub (by simp))
      · intro later member
        exact ownedBy_revokeOne c conn channel sub _ (owned later (by simp [member]))
  rw [removeChannelSubscriptionsScoped_snd]
  exact loop _ r indexed fun sub member => ownedBy_of_mem_subscriptionsOfChannel member

theorem indexed_call (indexed : r.Indexed) (op : Call) : (r.call op).Indexed := by
  cases op with
  | registerScoped c conn sub filters channel =>
    exact indexed_registerWithScope indexed c conn sub filters _
  | registerChannelsScoped c conn sub filters channels =>
    exact indexed_registerWithScope indexed c conn sub filters _
  | removeSubscription conn sub => exact indexed_removeSubscription indexed conn sub
  | removeConnection conn => exact indexed_removeConnection indexed conn
  | removeChannelSubscriptionsScoped c conn channel =>
    exact indexed_removeChannelSubscriptionsScoped indexed c conn channel

/-- In every reachable registry the five indexes mirror the live subscriptions. -/
theorem indexed_run (calls : List Call) : (run calls).Indexed := by
  have steps : ∀ s : SubscriptionRegistry, s.Indexed → (calls.foldl call s).Indexed := by
    induction calls with
    | nil => exact fun _ holds => holds
    | cons op calls ih => exact fun s holds => ih (s.call op) (indexed_call holds op)
  exact steps {} indexed_new

end SubscriptionRegistry

end Relay
