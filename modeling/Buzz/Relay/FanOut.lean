import Buzz.Relay.SubscriptionInvariant

/-!
# Fan-out through the indexes equals the naive scan

`push_match` re-checks the stored entry of each candidate, so nothing outside
the naive scan is delivered, whatever the indexes hold. For the converse, the
key under which a matching subscription is filed has to be one that `fan_out`
looks up: this is shown for each of the five indexes from the filter that
matched, and the invariant of the registry turns it into a candidate.
-/
namespace Relay

open Nostr Lib

/-- The naive scan's test: the entry belongs to the community, its scope matches
the event's channel and one of its filters matches the event. -/
def SubEntry.Deliverable (e : SubEntry) (c : CommunityId) (ev : StoredEvent) : Prop :=
  e.communityId = c ∧ e.scope.matchesChannel ev.channelId = true ∧ filtersMatch e.filters ev = true

namespace SubscriptionRegistry

variable {r : SubscriptionRegistry} {c : CommunityId} {ev : StoredEvent}

/-- Naive scan: the pair is live and its entry passes the test. -/
def Scanned (r : SubscriptionRegistry) (c : CommunityId) (ev : StoredEvent)
    (v : ConnId × SubId) : Prop :=
  ∃ e, r.live v = some e ∧ e.Deliverable c ev

/-! ### The candidate loop -/

/-- A candidate is delivered to exactly when the scan would find it. -/
private theorem pushMatch_cases (r : SubscriptionRegistry) (c : CommunityId) (ev : StoredEvent)
    (results : List (ConnId × SubId)) (v : ConnId × SubId) :
    (r.Scanned c ev v ∧ r.pushMatch c ev results v = pushNew results v) ∨
      (¬ r.Scanned c ev v ∧ r.pushMatch c ev results v = results) := by
  cases table : r.subs.lookup v.1 with
  | none =>
    right
    exact ⟨by simp [Scanned, live, table], by simp [pushMatch, table]⟩
  | some connSubs =>
    cases entry : connSubs.lookup v.2 with
    | none =>
      right
      exact ⟨by simp [Scanned, live, table, entry], by simp [pushMatch, table, entry]⟩
    | some e =>
      by_cases passes : e.Deliverable c ev
      · left
        refine ⟨⟨e, by simp [live, table, entry], passes⟩, ?_⟩
        simp only [pushMatch, table, entry]
        exact if_pos passes
      · right
        refine ⟨by simpa [Scanned, live, table, entry] using passes, ?_⟩
        simp only [pushMatch, table, entry]
        exact if_neg passes

private theorem mem_pushMatch (results : List (ConnId × SubId)) (v w : ConnId × SubId) :
    w ∈ r.pushMatch c ev results v ↔ w ∈ results ∨ (w = v ∧ r.Scanned c ev w) := by
  rcases pushMatch_cases r c ev results v with ⟨found, pushed⟩ | ⟨missed, kept⟩
  · rw [pushed, mem_pushNew]
    constructor
    · rintro (old | rfl)
      · exact Or.inl old
      · exact Or.inr ⟨rfl, found⟩
    · rintro (old | ⟨rfl, _⟩)
      · exact Or.inl old
      · exact Or.inr rfl
  · rw [kept]
    constructor
    · exact Or.inl
    · rintro (old | ⟨rfl, found⟩)
      · exact old
      · exact absurd found missed

private theorem nodup_pushMatch (results : List (ConnId × SubId)) (v : ConnId × SubId)
    (nodup : results.Nodup) : (r.pushMatch c ev results v).Nodup := by
  rcases pushMatch_cases r c ev results v with ⟨_, pushed⟩ | ⟨_, kept⟩
  · rw [pushed]; exact nodup_pushNew results v nodup
  · rw [kept]; exact nodup

theorem mem_foldl_pushMatch (candidates results : List (ConnId × SubId)) (w : ConnId × SubId) :
    w ∈ candidates.foldl (r.pushMatch c ev) results ↔
      w ∈ results ∨ (w ∈ candidates ∧ r.Scanned c ev w) := by
  induction candidates generalizing results with
  | nil => simp
  | cons v candidates ih =>
    rw [List.foldl_cons, ih, mem_pushMatch, List.mem_cons]
    tauto

theorem nodup_foldl_pushMatch (candidates results : List (ConnId × SubId))
    (nodup : results.Nodup) : (candidates.foldl (r.pushMatch c ev) results).Nodup := by
  induction candidates generalizing results with
  | nil => exact nodup
  | cons v candidates ih => exact ih _ (nodup_pushMatch results v nodup)

/-- The pairs `fan_out_scoped` visits, in order: those filed under the keys of the
event in the two channel indexes or in the three global ones. -/
def candidates (r : SubscriptionRegistry) (c : CommunityId) (ev : StoredEvent) :
    List (ConnId × SubId) :=
  match ev.channelId with
  | some channel =>
    r.channelKindIndex.filed (c, ⟨channel, ev.event.kind⟩) ++
      r.channelWildcardIndex.filed (c, channel)
  | none =>
    ((eventPTagValues ev).flatMap fun p => r.globalPKindIndex.filed ⟨c, ev.event.kind, p⟩) ++
      r.globalKindIndex.filed (c, ev.event.kind) ++ r.globalWildcardIndex.filed c

/-- All the loops of `fan_out_scoped` share one result vector and one `seen` set. -/
theorem fanOutScoped_eq (r : SubscriptionRegistry) (c : CommunityId) (ev : StoredEvent) :
    r.fanOutScoped c ev = (r.candidates c ev).foldl (r.pushMatch c ev) [] := by
  unfold fanOutScoped candidates
  cases ev.channelId with
  | some channel => simp only [List.foldl_append]
  | none => simp only [List.foldl_append, List.foldl_flatMap]

/-! ### The key of a matching subscription is looked up -/

private theorem kind_mem_extracted {filters : List Filter} {f : Filter} {kinds : List Kind}
    (member : f ∈ filters) (matched : filterMatchOne f ev = true)
    (extracted : extractKindsFromFilters filters = some kinds) : ev.event.kind ∈ kinds := by
  obtain ⟨own, constrained, included⟩ := mem_collectNew extracted member
  exact included _ (kind_mem_of_match matched constrained)

private theorem mem_eventPTagValues {t : Tag} {p : String} (member : t ∈ ev.event.tags)
    (kind : Tag.kind t = some "p") (content : Tag.content t = some p) : p ∈ eventPTagValues ev := by
  rw [eventPTagValues, mem_foldl_pushNew]
  right
  simp only [List.mem_filterMap, List.mem_filter, decide_eq_true_eq]
  exact ⟨t, ⟨member, kind⟩, content⟩

/-- A matching filter that is filed by `(kind, #p)` is filed under the event's
kind and one of its `p` tag values. -/
private theorem pKind_mem_extracted {filters : List Filter} {f : Filter}
    {keys : List GlobalPKindIndexKey} (member : f ∈ filters)
    (matched : filterMatchOne f ev = true)
    (extracted : extractGlobalPKindIndexKeys c filters = some keys) :
    ∃ p ∈ eventPTagValues ev, (⟨c, ev.event.kind, p⟩ : GlobalPKindIndexKey) ∈ keys := by
  obtain ⟨own, contributes, included⟩ := mem_collectNew extracted member
  cases constrained : f.kinds with
  | none => simp [filterPKindKeys, constrained] at contributes
  | some kinds =>
    have kindMem := kind_mem_of_match matched constrained
    have some_kind : kinds ≠ [] := List.ne_nil_of_mem kindMem
    cases values : f.genericTags.lookup SingleLetterTag.p with
    | none => simp [filterPKindKeys, constrained, some_kind, values] at contributes
    | some pValues =>
      -- `#p` in the filter: the event has to carry one of the values in a p tag
      obtain ⟨before, after, split, _⟩ := List.lookup_eq_some_iff.mp values
      have tagged : genericTagMatches .p pValues ev = true :=
        genericTag_of_match matched (by simp [split])
      have carried : tagMatches "p" pValues ev.event = true := by
        by_contra absent
        simp [genericTagMatches, absent] at tagged
      obtain ⟨p, inside, t, tagMem, kind, content⟩ := (tagMatches_iff _ _ _).mp carried
      have some_value : pValues ≠ [] := List.ne_nil_of_mem inside
      have keysOwn : own = kinds.flatMap fun kind => pValues.map fun p => ⟨c, kind, p⟩ := by
        simpa [filterPKindKeys, constrained, some_kind, values, some_value] using contributes.symm
      refine ⟨p, mem_eventPTagValues tagMem kind content, included _ ?_⟩
      rw [keysOwn, List.mem_flatMap]
      exact ⟨ev.event.kind, kindMem, List.mem_map.mpr ⟨p, inside, rfl⟩⟩

private theorem candidate_of_channel (indexed : r.Indexed) {v : ConnId × SubId}
    {filters : List Filter} {ids : List Uuid} {channel : Uuid}
    (stored : r.live v = some ⟨filters, c, .channels ids⟩) (routed : ev.channelId = some channel)
    (inScope : channel ∈ ids) (matches_ : filtersMatch filters ev = true) :
    v ∈ r.candidates c ev := by
  obtain ⟨f, member, matched⟩ := (filtersMatch_iff filters ev).mp matches_
  simp only [candidates, routed, List.mem_append]
  cases extracted : extractKindsFromFilters filters with
  | none =>
    right
    rw [indexed.channelWildcard.mem_iff]
    refine ⟨_, stored, ?_⟩
    simpa [SubEntry.channelWildcardKeys, extracted] using inScope
  | some kinds =>
    left
    rw [indexed.channelKind.mem_iff]
    refine ⟨_, stored, ?_⟩
    simp only [SubEntry.channelKindKeys, extracted, List.mem_flatMap, List.mem_map]
    exact ⟨channel, inScope, ev.event.kind, kind_mem_extracted member matched extracted, rfl⟩

private theorem candidate_of_global (indexed : r.Indexed) {v : ConnId × SubId}
    {filters : List Filter} (stored : r.live v = some ⟨filters, c, .global⟩)
    (routed : ev.channelId = none) (matches_ : filtersMatch filters ev = true) :
    v ∈ r.candidates c ev := by
  obtain ⟨f, member, matched⟩ := (filtersMatch_iff filters ev).mp matches_
  simp only [candidates, routed, List.mem_append, List.mem_flatMap]
  cases pKeys : extractGlobalPKindIndexKeys c filters with
  | some keys =>
    left; left
    obtain ⟨p, carried, key⟩ := pKind_mem_extracted member matched pKeys
    refine ⟨p, carried, ?_⟩
    rw [indexed.globalPKind.mem_iff]
    exact ⟨_, stored, by simpa [SubEntry.globalPKindKeys, pKeys] using key⟩
  | none =>
    cases extracted : extractKindsFromFilters filters with
    | some kinds =>
      left; right
      have kindMem := kind_mem_extracted member matched extracted
      rw [indexed.globalKind.mem_iff]
      exact ⟨_, stored, by simpa [SubEntry.globalKindKeys, pKeys, extracted] using kindMem⟩
    | none =>
      right
      rw [indexed.globalWildcard.mem_iff]
      exact ⟨_, stored, by simp [SubEntry.globalWildcardKeys, pKeys, extracted]⟩

/-- Nothing the scan would find is missed by the indexes. -/
theorem candidate_of_scanned (indexed : r.Indexed) {v : ConnId × SubId}
    (scanned : r.Scanned c ev v) : v ∈ r.candidates c ev := by
  obtain ⟨⟨filters, c', scope⟩, stored, community, routed, matches_⟩ := scanned
  obtain rfl : c' = c := community
  cases scope with
  | global =>
    cases channel : ev.channelId with
    | none => exact candidate_of_global indexed stored channel matches_
    | some id => simp [SubscriptionScope.matchesChannel, channel] at routed
  | channels ids =>
    cases channel : ev.channelId with
    | none => simp [SubscriptionScope.matchesChannel, channel] at routed
    | some id =>
      have inScope : id ∈ ids := by simpa [SubscriptionScope.matchesChannel, channel] using routed
      exact candidate_of_channel indexed stored channel inScope matches_

/-- Fan-out finds what the scan finds. -/
theorem mem_fanOutScoped (indexed : r.Indexed) (c : CommunityId) (ev : StoredEvent)
    (v : ConnId × SubId) : v ∈ r.fanOutScoped c ev ↔ r.Scanned c ev v := by
  rw [fanOutScoped_eq, mem_foldl_pushMatch]
  constructor
  · rintro (nothing | ⟨_, scanned⟩)
    · simp at nothing
    · exact scanned
  · intro scanned
    exact Or.inr ⟨candidate_of_scanned indexed scanned, scanned⟩

/-- After any sequence of calls, `fan_out_scoped` delivers each event once to
exactly the live subscriptions a scan of the whole registry would find. -/
theorem fanOutScoped_eq_scan (calls : List Call) (c : CommunityId) (ev : StoredEvent) :
    ((run calls).fanOutScoped c ev).Nodup ∧
      ∀ v, v ∈ (run calls).fanOutScoped c ev ↔
        ∃ e, (run calls).live v = some e ∧ e.communityId = c ∧
          e.scope.matchesChannel ev.channelId = true ∧ filtersMatch e.filters ev = true := by
  constructor
  · rw [fanOutScoped_eq]
    exact nodup_foldl_pushMatch _ [] List.nodup_nil
  · exact mem_fanOutScoped (indexed_run calls) c ev

end SubscriptionRegistry

end Relay
