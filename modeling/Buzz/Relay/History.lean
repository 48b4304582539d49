import Buzz.Relay.FanOut
import Buzz.Relay.Pushdown

/-!
# Historical delivery of a REQ

The last phase of `handle_req`: one query a filter, each row of its page checked against the
filter, the channels of the request and the reader, every event sent once. A filter whose `#h`
values are all of one channel takes the channel of the whole subscription, so the scope of a REQ
holds where that of a COUNT is lost. What is delivered is compared with what the subscription
would have been sent live.
-/
namespace Relay

open Lib Nostr Db

/-! ### The delivery -/

/-- What the delivery reads besides the filters. -/
structure HistoryEnv where
  community : CommunityId
  reader : PublicKey
  /-- The channels of the request, confirmed and within the token's scope. -/
  accessible : List Uuid
  rows : List Row
  /-- The error, if the call for this query fails. -/
  unavailable : EventQuery → Option DbError := fun _ => none
  /-- An event is stored once in a community. -/
  unique : (rows.map fun r => (r.communityId, r.event.id)).Nodup

namespace HistoryEnv

def perFilterChannel (filters : List ReqFilter) (f : ReqFilter) : Option Uuid :=
  (extractChannelIdFromFilter f).or (extractChannelIdFromFilters filters)

def historicalQuery (env : HistoryEnv) (filters : List ReqFilter) (f : ReqFilter) : EventQuery :=
  let channel := perFilterChannel filters f
  setSharedGatedReader f env.reader
    (applyChannelScopeToQuery (filterToQueryParams f channel env.community) f channel
      env.accessible)

/-- The checks on one row of a page. -/
def accepts (env : HistoryEnv) (f : ReqFilter) (r : Row) : Bool :=
  filtersMatch [f.filter] r.stored && r.channelId.all (env.accessible.contains ·) &&
    eventVisibleToReader r.event env.reader

/-- `seen_ids` holds the ids of the events sent so far. -/
def deliverRow (env : HistoryEnv) (f : ReqFilter) (sent : List Row) (r : Row) : List Row :=
  if env.accepts f r && !(sent.map (·.event.id)).contains r.event.id then sent ++ [r] else sent

def query (env : HistoryEnv) (q : EventQuery) : Except DbError (List Row) :=
  match env.unavailable q with
  | some e => .error e
  | none => queryEventsOn env.rows q

/-- A failed query ends the delivery with the events sent until then. -/
def deliverFrom (env : HistoryEnv) (all : List ReqFilter) : List Row → List ReqFilter → List Row
  | sent, [] => sent
  | sent, f :: filters =>
    match env.query (env.historicalQuery all f) with
    | .error _ => sent
    | .ok events => deliverFrom env all (events.foldl (env.deliverRow f) sent) filters

/-- The events sent before EOSE. -/
def deliver (env : HistoryEnv) (filters : List ReqFilter) : List Row :=
  env.deliverFrom filters [] filters

/-- The entry that the request files with the registry. -/
def subscription (env : HistoryEnv) (filters : List ReqFilter) : SubEntry where
  filters := filters.map (·.filter)
  communityId := env.community
  scope := match extractChannelIdsFromFilters filters with
    | some requested => .channels (requested.filter (env.accessible.contains ·))
    | none => .global

/-! ### What is due -/

/-- The scope that the delivery computes from `#h`. -/
def ScopeAllows (env : HistoryEnv) (filters : List ReqFilter) (f : ReqFilter)
    (channel : Option Uuid) : Prop :=
  match perFilterChannel filters f with
  | some own => channel = some own
  | none => match f.get .h with
    | some values => ∃ c ∈ channel, c ∈ values.filterMap Uuid.parse ∧ c ∈ env.accessible
    | none => ∀ c ∈ channel, c ∈ env.accessible

/-- A live event of the community that is global or in an accessible channel, is visible to the
reader, matches the filter and is allowed by its scope. -/
structure Due (env : HistoryEnv) (filters : List ReqFilter) (f : ReqFilter) (r : Row) : Prop where
  community : r.communityId = env.community
  live : r.deleted = false
  accessible : ∀ c ∈ r.channelId, c ∈ env.accessible
  matches_ : filterMatchOne f.filter r.stored = true
  scope : env.ScopeAllows filters f r.channelId
  visible : eventVisibleToReader r.event env.reader = true

/-- The query of the filter succeeds and its candidates fit on one page. -/
structure OnePage (env : HistoryEnv) (filters : List ReqFilter) (f : ReqFilter) : Prop where
  available : env.unavailable (env.historicalQuery filters f) = none
  fits : ((env.rows.filter (env.historicalQuery filters f).queryWhere).length : Int) ≤
    (env.historicalQuery filters f).limitVal

variable {env : HistoryEnv} {filters : List ReqFilter} {f : ReqFilter} {r : Row}

private theorem fromFilter_historicalQuery (env : HistoryEnv) (filters : List ReqFilter)
    (f : ReqFilter) : FromFilter f env.community (env.historicalQuery filters f) :=
  ((FromFilter.filterToQueryParams f _ env.community).applyChannelScopeToQuery _
    _).setSharedGatedReader _

private theorem gate_historicalQuery (env : HistoryEnv) (filters : List ReqFilter) (f : ReqFilter)
    (other : PublicKey) (gate : (env.historicalQuery filters f).sharedGatedReader = some other) : other = env.reader :=
  eq_of_sharedGatedReader (sharedGatedReader_applyChannelScope _ _ _ _) gate

private theorem channelClause_iff (channel : Option Uuid) :
    (env.historicalQuery filters f).channelClause channel = true ↔
      env.ScopeAllows filters f channel := by
  unfold historicalQuery ScopeAllows
  rw [channelClause_setSharedGatedReader]
  cases own : perFilterChannel filters f with
  | some u =>
    simp only [applyChannelScopeToQuery, Option.isSome_some, if_true]
    exact EventQuery.channelClause_of_channel rfl rfl
  | none =>
    cases named : f.get .h with
    | none =>
      simp only [applyChannelScopeToQuery, Option.isSome_none, named]
      rw [if_neg Bool.false_ne_true]
      refine (EventQuery.channelClause_of_ids rfl rfl rfl).trans ?_
      cases channel <;> simp [filterToQueryParams]
    | some values =>
      simp only [applyChannelScopeToQuery, Option.isSome_none, named]
      rw [if_neg Bool.false_ne_true]
      refine (EventQuery.channelClause_of_ids rfl rfl rfl).trans ?_
      simp

/-- Of the events that are due, the query misses those that it cannot find by its clauses. -/
private theorem queryWhere_iff (due : env.Due filters f r) :
    (env.historicalQuery filters f).queryWhere r = true ↔ ¬ Missed f r := by
  have from_ := fromFilter_historicalQuery env filters f
  have gate := sharedClause_of_visible due.visible (gate_historicalQuery env filters f)
  rw [from_.queryWhere_iff, from_.countWhere_iff, channelClause_iff, ← selects_iff due.matches_]
  constructor
  · rintro ⟨⟨-, -, -, selects⟩, -⟩
    exact selects
  · intro selects
    exact ⟨⟨due.community, due.live, due.scope, selects⟩, gate⟩

private theorem due_of_accepts (selected : (env.historicalQuery filters f).queryWhere r = true)
    (accepted : env.accepts f r = true) : env.Due filters f r := by
  have from_ := fromFilter_historicalQuery env filters f
  obtain ⟨community, live, scope, -⟩ := from_.countWhere_iff.mp (from_.queryWhere_iff.mp selected).1
  simp only [accepts, Bool.and_eq_true] at accepted
  obtain ⟨⟨matched, inside⟩, visible⟩ := accepted
  refine ⟨community, live, ?_, by simpa [filtersMatch] using matched,
    (channelClause_iff _).mp scope, visible⟩
  intro c here
  rw [here] at inside
  simpa using inside

private theorem accepts_of_due (due : env.Due filters f r) : env.accepts f r = true := by
  have inside : r.channelId.all (env.accessible.contains ·) = true := by
    have accessible := due.accessible
    cases channel : r.channelId with
    | none => rfl
    | some c => simpa using accessible c channel
  rw [accepts, inside, due.visible]
  simp [filtersMatch, due.matches_]

/-! ### What is sent -/

/-- A row of the request's community. -/
def Own (env : HistoryEnv) (r : Row) : Prop := r ∈ env.rows ∧ r.communityId = env.community

private theorem eq_of_id {a b : Row} (ownA : env.Own a) (ownB : env.Own b)
    (same : a.event.id = b.event.id) : a = b :=
  List.inj_on_of_nodup_map env.unique ownA.1 ownB.1
    (Prod.ext (ownA.2.trans ownB.2.symm) same)

/-- An accepted row is sent unless it has been: no other event has its id. -/
private theorem mem_deliverRow {sent : List Row} {a : Row} (ownSent : ∀ b ∈ sent, env.Own b)
    (own : env.Own a) : r ∈ env.deliverRow f sent a ↔
      r ∈ sent ∨ (r = a ∧ env.accepts f a = true) := by
  unfold deliverRow
  split
  next taken =>
    have accepted : env.accepts f a = true := ((Bool.and_eq_true _ _).mp taken).1
    simp [accepted]
  next left_ =>
    constructor
    · exact Or.inl
    · rintro (old | ⟨rfl, accepted⟩)
      · exact old
      · -- its id is taken, so the row itself has been sent
        have seen : (sent.map (·.event.id)).contains r.event.id = true := by
          simpa [accepted] using left_
        obtain ⟨b, member, same⟩ := List.mem_map.mp (List.contains_iff_mem.mp seen)
        rw [← eq_of_id (ownSent b member) own same]
        exact member

private theorem mem_foldl_deliverRow {events sent : List Row} (ownSent : ∀ b ∈ sent, env.Own b)
    (own : ∀ a ∈ events, env.Own a) : r ∈ events.foldl (env.deliverRow f) sent ↔
      r ∈ sent ∨ (r ∈ events ∧ env.accepts f r = true) := by
  induction events generalizing sent with
  | nil => simp
  | cons a events ih =>
    have ownA := own a (by simp)
    have ownNext : ∀ b ∈ env.deliverRow f sent a, env.Own b := by
      intro b member
      rcases (mem_deliverRow ownSent ownA).mp member with old | ⟨rfl, -⟩
      · exact ownSent b old
      · exact ownA
    rw [List.foldl_cons, ih ownNext (fun b member => own b (by simp [member])),
      mem_deliverRow ownSent ownA, List.mem_cons]
    constructor
    · rintro ((old | ⟨rfl, accepted⟩) | ⟨later, accepted⟩)
      · exact Or.inl old
      · exact Or.inr ⟨Or.inl rfl, accepted⟩
      · exact Or.inr ⟨Or.inr later, accepted⟩
    · rintro (old | ⟨rfl | later, accepted⟩)
      · exact Or.inl (Or.inl old)
      · exact Or.inl (Or.inr ⟨rfl, accepted⟩)
      · exact Or.inr ⟨later, accepted⟩

/-- A filter whose candidates fit on one page sends those that are due and can be found. -/
private theorem query_onePage (page : env.OnePage filters f) : ∃ events,
    env.query (env.historicalQuery filters f) = .ok events ∧
      (∀ a ∈ events, env.Own a) ∧ ∀ r, (r ∈ events ∧ env.accepts f r = true) ↔
        r ∈ env.rows ∧ env.Due filters f r ∧ ¬ Missed f r := by
  have from_ := fromFilter_historicalQuery env filters f
  have fits := page.fits
  have limit : 0 ≤ (env.historicalQuery filters f).limitVal := by omega
  refine ⟨_, by rw [query, page.available]; exact from_.queryEventsOn_eq env.rows limit, ?_⟩
  -- nothing is cut off
  rw [List.take_of_length_le (by
    rw [(sortBy_perm pageOrder _).length_eq]
    omega)]
  have member (r : Row) : r ∈ sortBy pageOrder
        (env.rows.filter (env.historicalQuery filters f).queryWhere) ↔
      r ∈ env.rows ∧ (env.historicalQuery filters f).queryWhere r = true := by
    rw [(sortBy_perm pageOrder _).mem_iff, List.mem_filter]
  constructor
  · intro a listed
    obtain ⟨row, selected⟩ := (member a).mp listed
    exact ⟨row, (from_.countWhere_iff.mp (from_.queryWhere_iff.mp selected).1).1⟩
  · intro r
    rw [member]
    constructor
    · rintro ⟨⟨row, selected⟩, accepted⟩
      have due := due_of_accepts selected accepted
      exact ⟨row, due, (queryWhere_iff due).mp selected⟩
    · rintro ⟨row, due, found⟩
      exact ⟨⟨row, (queryWhere_iff due).mpr found⟩, accepts_of_due due⟩

private theorem mem_deliverFrom {all sent : _} (ownSent : ∀ b ∈ sent, env.Own b)
    (pages : ∀ f ∈ filters, env.OnePage all f) : r ∈ env.deliverFrom all sent filters ↔
      r ∈ sent ∨ (r ∈ env.rows ∧ ∃ f ∈ filters, env.Due all f r ∧ ¬ Missed f r) := by
  induction filters generalizing sent with
  | nil => simp [deliverFrom]
  | cons f filters ih =>
    obtain ⟨events, ok, own, due⟩ := query_onePage (pages f (by simp))
    have ownNext : ∀ b ∈ events.foldl (env.deliverRow f) sent, env.Own b := by
      intro b member
      rcases (mem_foldl_deliverRow ownSent own).mp member with old | ⟨listed, -⟩
      · exact ownSent b old
      · exact own b listed
    simp only [deliverFrom, ok]
    rw [ih ownNext (fun g member => pages g (by simp [member])), mem_foldl_deliverRow ownSent own,
      due]
    constructor
    · rintro ((old | ⟨row, here⟩) | ⟨row, g, member, there⟩)
      · exact Or.inl old
      · exact Or.inr ⟨row, f, by simp, here⟩
      · exact Or.inr ⟨row, g, by simp [member], there⟩
    · rintro (old | ⟨row, g, member, there⟩)
      · exact Or.inl (Or.inl old)
      · rcases List.mem_cons.mp member with rfl | later
        · exact Or.inl (Or.inr ⟨row, there⟩)
        · exact Or.inr ⟨row, g, later, there⟩

/-- History sends the events that are due under some filter and can be found by its query. -/
theorem mem_deliver (pages : ∀ f ∈ filters, env.OnePage filters f) :
    r ∈ env.deliver filters ↔
      r ∈ env.rows ∧ ∃ f ∈ filters, env.Due filters f r ∧ ¬ Missed f r := by
  rw [deliver, mem_deliverFrom (by simp) pages]
  simp

/-! ### What would have been sent live -/

private theorem perFilterChannel_none (open_ : f.get .h = none) : perFilterChannel [f] f = none := by
  simp [perFilterChannel, extractChannelIdFromFilter, extractChannelIdFromFilters, open_]

private theorem perFilterChannel_some {values : List String} {u : Uuid}
    (named : f.get .h = some values) (own : perFilterChannel [f] f = some u) :
    u ∈ values.filterMap Uuid.parse ∧ ∀ c ∈ values.filterMap Uuid.parse, c = u := by
  unfold perFilterChannel at own
  rcases Option.or_eq_some_iff.mp own with single | ⟨-, all⟩
  · simp only [extractChannelIdFromFilter, named, Option.bind_eq_bind, Option.bind_some,
      Option.bind_eq_some_iff, Option.guard_eq_some'] at single
    obtain ⟨-, one, value, first, parsed⟩ := single
    obtain ⟨value', rfl⟩ := List.length_eq_one_iff.mp one
    cases first
    simp [parsed]
  · simp only [extractChannelIdFromFilters, List.map_cons, List.map_nil, named, Option.getD_some,
      List.flatten_cons, List.flatten_nil, List.append_nil, Option.bind_eq_bind,
      Option.bind_eq_some_iff, Option.guard_eq_some'] at all
    obtain ⟨-, -, first, head, -, same, result⟩ := all
    cases result
    refine ⟨List.mem_of_mem_head? head, ?_⟩
    intro c valid
    simpa using List.all_eq_true.mp same c valid

/-- Live routing has the scope of history for a filter with `#h`, and only global events
otherwise. -/
private theorem matchesChannel_iff (inside : ∀ c ∈ r.channelId, c ∈ env.accessible) :
    (env.subscription [f]).scope.matchesChannel r.channelId = true ↔
      env.ScopeAllows [f] f r.channelId ∧ (f.get .h ≠ none ∨ r.channelId = none) := by
  cases named : f.get .h with
  | none =>
    have extracted : extractChannelIdsFromFilters [f] = none := by
      rw [extractChannelIds_single, named]; rfl
    simp only [subscription, extracted, ScopeAllows, perFilterChannel_none named, named]
    cases r.channelId <;> simp [SubscriptionScope.matchesChannel]
  | some values =>
    obtain ⟨requested, extracted⟩ : ∃ requested, extractChannelIdsFromFilters [f] = some requested :=
      ⟨_, by rw [extractChannelIds_single, named]; rfl⟩
    have routed : (env.subscription [f]).scope.matchesChannel r.channelId = true ↔
        ∃ c ∈ r.channelId, c ∈ values.filterMap Uuid.parse ∧ c ∈ env.accessible := by
      simp only [subscription, extracted, ← mem_extractChannelIds named extracted]
      cases r.channelId <;> simp [SubscriptionScope.matchesChannel]
    rw [routed]
    simp only [ne_eq, reduceCtorEq, not_false_eq_true, true_or, and_true]
    unfold ScopeAllows
    cases own : perFilterChannel [f] f with
    | none => simp [named]
    | some u =>
      obtain ⟨requestedU, only⟩ := perFilterChannel_some named own
      constructor
      · rintro ⟨c, here, valid, -⟩
        rw [only c valid] at here
        exact here
      · intro here
        exact ⟨u, here, requestedU, inside u here⟩

/-- The instants of the filters are not read as ones before the epoch. -/
def Unwrapped (f : ReqFilter) : Prop := ∀ u ∈ f.filter.until_, (u : Int) < 2 ^ 64 + minSecs

private theorem missed_iff (unwrapped : Unwrapped f) : Missed f r ↔ Unindexed f r := by
  constructor
  · intro missed
    cases missed with
    | wrappedUntil until_ constrained wrapped =>
      have early := unwrapped until_ constrained
      omega
    | unindexed lost => exact lost
  · exact .unindexed

/-- An event that is due satisfies the SQL unless what the filter asks for is not indexed; if the
candidates of each filter fit on one page, history sends exactly these events; and a subscription
with one filter is routed live the events that its history has, if the filter has `#h`, and the
global ones among them otherwise. -/
theorem history_exact (unwrapped : ∀ f ∈ filters, Unwrapped f)
    (pages : ∀ f ∈ filters, env.OnePage filters f) :
    (∀ f ∈ filters, ∀ r ∈ env.rows, env.Due filters f r → ¬ Unindexed f r →
        (env.historicalQuery filters f).queryWhere r = true) ∧
    (∀ r, r ∈ env.deliver filters ↔
      r ∈ env.rows ∧ ∃ f ∈ filters, env.Due filters f r ∧ ¬ Unindexed f r) ∧
    (∀ f, filters = [f] → ∀ (calls : List SubscriptionRegistry.Call) (v : ConnId × SubId),
      (SubscriptionRegistry.run calls).live v = some (env.subscription [f]) →
      ∀ r ∈ env.rows, r.communityId = env.community → r.deleted = false →
        (∀ c ∈ r.channelId, c ∈ env.accessible) →
        eventVisibleToReader r.event env.reader = true → ¬ Unindexed f r →
          (v ∈ (SubscriptionRegistry.run calls).fanOutScoped env.community r.stored ↔
            r ∈ env.deliver [f] ∧ (f.get .h ≠ none ∨ r.channelId = none))) := by
  have sent (r : Row) : r ∈ env.deliver filters ↔
      r ∈ env.rows ∧ ∃ f ∈ filters, env.Due filters f r ∧ ¬ Unindexed f r := by
    rw [mem_deliver pages]
    constructor
    · rintro ⟨row, f, member, due, found⟩
      exact ⟨row, f, member, due, fun lost => found ((missed_iff (unwrapped f member)).mpr lost)⟩
    · rintro ⟨row, f, member, due, found⟩
      exact ⟨row, f, member, due, fun lost => found ((missed_iff (unwrapped f member)).mp lost)⟩
  refine ⟨?_, sent, ?_⟩
  · intro f member r _ due found
    apply (queryWhere_iff due).mpr
    exact fun missed => found ((missed_iff (unwrapped f member)).mp missed)
  · rintro f rfl calls v registered r row own live inside visible found
    rw [sent, SubscriptionRegistry.mem_fanOutScoped (SubscriptionRegistry.indexed_run calls)]
    have scanned : (SubscriptionRegistry.run calls).Scanned env.community r.stored v ↔
        (env.subscription [f]).scope.matchesChannel r.channelId = true ∧
          filterMatchOne f.filter r.stored = true := by
      simp [SubscriptionRegistry.Scanned, registered, SubEntry.Deliverable, subscription,
        filtersMatch]
    rw [scanned, matchesChannel_iff inside]
    constructor
    · rintro ⟨⟨scope, place⟩, matched⟩
      exact ⟨⟨row, f, by simp, ⟨own, live, inside, matched, scope, visible⟩, found⟩, place⟩
    · rintro ⟨⟨-, g, member, due, -⟩, place⟩
      obtain rfl := List.mem_singleton.mp member
      exact ⟨⟨due.scope, place⟩, due.matches_⟩

/-! ### Events that history or live routing leave out -/

namespace Sample

def channel : Uuid := ⟨0xaaaaaaaaaaaaaaaaaaaaaaaaaaaaaaaa⟩

def community : CommunityId := ⟨⟨1⟩⟩

/-- A message in the channel. -/
def message : Row where
  communityId := community
  event :=
    { id := Hex64.repeated 'c' (Eq.refl true)
      pubkey := Hex64.repeated 'd' (Eq.refl true)
      createdAt := 1700000000
      kind := 9
      tags := [["p", "alice"]]
      content := "" }
  channelId := some channel

/-- A global NIP-33 event with two `d` tags. -/
def article : Row where
  communityId := community
  event :=
    { id := Hex64.repeated 'e' (Eq.refl true)
      pubkey := Hex64.repeated 'd' (Eq.refl true)
      createdAt := 1700000000
      kind := 30023
      tags := [["d", "first"], ["d", "second"]]
      content := "" }

def history (rows : List Row)
    (unique : (rows.map fun r => (r.communityId, r.event.id)).Nodup) : HistoryEnv where
  community := community
  reader := Hex64.repeated 'a' (Eq.refl true)
  accessible := [channel]
  rows := rows
  unique := unique

/-- `{"kinds":[30023],"#d":["second"]}`. -/
def second : ReqFilter where
  filter := { kinds := some [30023], genericTags := [(.d, ["second"])] }
  limit_lt := ReqFilter.unlimited

/-- `{"kinds":[9],"#p":["alice"]}`. -/
def alice : ReqFilter where
  filter := { kinds := some [9], genericTags := [(.p, ["alice"])] }
  limit_lt := ReqFilter.unlimited

/-- `{"kinds":[kind]}`. -/
def ofKind (kind : Kind) : ReqFilter where
  filter := { kinds := some [kind] }
  keys_nodup := by simp
  values_nodup := by simp
  authors_nodup := by simp
  since_lt := by simp
  until_lt := by simp
  limit_lt := ReqFilter.unlimited

def messages : ReqFilter := ofKind 9

def both : HistoryEnv := history [message, article] (by decide)

/-- A connection that subscribes with one filter without `#h`. -/
def subscribe : List SubscriptionRegistry.Call :=
  [.registerScoped community ⟨7⟩ "sub" [messages.filter] none]

end Sample

open Sample in
/-- Two events that are due and that no query finds, and a message that history sends and live
routing does not. -/
theorem history_leaves_out :
    (both.Due [second] second article ∧
      (both.historicalQuery [second] second).queryWhere article = false) ∧
    (both.Due [alice] alice message ∧
      (both.historicalQuery [alice] alice).queryWhere message = false) ∧
    both.deliver [messages] = [message] ∧
    (SubscriptionRegistry.run subscribe).live (⟨7⟩, "sub") = some (both.subscription [messages]) ∧
    (SubscriptionRegistry.run subscribe).fanOutScoped both.community message.stored = [] := by
  have global : both.ScopeAllows [second] second none := by
    simp [ScopeAllows, show perFilterChannel [second] second = none by decide,
      show second.get .h = none by decide]
  have inside : both.ScopeAllows [alice] alice (some channel) := by
    simp [ScopeAllows, show perFilterChannel [alice] alice = none by decide,
      show alice.get .h = none by decide, show channel ∈ both.accessible by decide]
  refine ⟨⟨⟨rfl, rfl, by decide, by decide, global, by decide⟩, by decide⟩,
    ⟨⟨rfl, rfl, by decide, by decide, inside, by decide⟩, by decide⟩, ?_⟩
  decide

open Sample in
theorem history_exact_messages : Unwrapped messages ∧ both.OnePage [messages] messages ∧
    ∀ r, r ∈ both.deliver [messages] ↔
      r ∈ both.rows ∧ ∃ f ∈ [messages], both.Due [messages] f r ∧ ¬ Unindexed f r := by
  have unwrapped : Unwrapped messages := by simp [Unwrapped, messages, ofKind]
  have page : both.OnePage [messages] messages := ⟨rfl, by decide⟩
  exact ⟨unwrapped, page,
    (history_exact (by simpa using unwrapped) (by simpa using page)).2.1⟩

end HistoryEnv

end Relay
