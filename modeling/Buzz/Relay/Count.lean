import Buzz.Relay.Pushdown

/-!
# COUNT

`handle_count`: the gates on the request, the channels the reader may count in, and for each
filter either an SQL count or a bounded page of candidates with the checks of REQ on every row.
The total is kept as the list of the events that were added to it. A call to the database may
fail; the request is then closed without a count.
-/
namespace Relay

open Lib Nostr Db

/-! ### The handler -/

structure AuthContext where
  pubkey : PublicKey
  /-- The channels that a scoped token is good for. -/
  channelIds : Option (List Uuid) := none

/-- What the handler reads besides the request. -/
structure CountEnv where
  community : CommunityId
  auth : Option AuthContext
  /-- `get_accessible_channel_ids_cached`. -/
  accessible : Except DbError (List Uuid)
  isMember : Uuid → Except DbError Bool
  rows : List Row
  /-- The error, if the call for this query fails. -/
  unavailable : EventQuery → Option DbError := fun _ => none

inductive CountReply where
  | closed (message : String)
  | count (total : Nat)
deriving DecidableEq

def tokenAllows (token : Option (List Uuid)) (channel : Uuid) : Bool :=
  token.all (·.contains channel)

/-- Whether the channel may be read, and the request's channels with it. -/
def resolveRequestLocalAccess (accessible : List Uuid) (channel : Uuid) (tokenAllows : Bool)
    (dbIsMember : Option Bool) : Bool × List Uuid :=
  if !tokenAllows then (false, accessible)
  else if accessible.contains channel then (true, accessible)
  else match dbIsMember with
    | some true => (true, accessible ++ [channel])
    | _ => (false, accessible)

def countFallbackCandidateLimit : Nat := 5000

def applyCountFallbackLimit (q : EventQuery) : EventQuery :=
  { q with
    limit := some (countFallbackCandidateLimit + 1)
    maxLimit := some (countFallbackCandidateLimit + 1) }

def countFallbackExceeded (candidates : Nat) : Bool := countFallbackCandidateLimit < candidates

/-- Whether the filter is counted in SQL. -/
def countsInSql (f : ReqFilter) (reader : PublicKey) : Bool :=
  let needsAuthorOnlyFiltering := filterCanMatchAuthorOnlyKinds f
  let needsSharedGateFiltering := filterCanMatchSharedGatedKinds f
  let needsResultGatedFiltering :=
    filterCanMatchResultGatedKinds f && !resultGatedCountSafeForPushdown f reader
  filterFullyPushable f && (!needsAuthorOnlyFiltering || authorIsSelf f reader) &&
    !needsResultGatedFiltering && !needsSharedGateFiltering

namespace CountEnv

/-- The call for membership of one channel that a filter names. -/
def confirmChannel (env : CountEnv) (ctx : AuthContext) (accessible : List Uuid) (channel : Uuid) :
    Except CountReply (List Uuid) :=
  let allows := tokenAllows ctx.channelIds channel
  if accessible.contains channel then .ok accessible
  else if allows then
    match env.isMember channel with
    | .ok member => .ok (resolveRequestLocalAccess accessible channel allows (some member)).2
    | .error _ => .error (.closed "error: database error")
  else .ok (resolveRequestLocalAccess accessible channel allows none).2

/-- The channels of the request once those of the filter are confirmed. -/
def confirmFilter (env : CountEnv) (ctx : AuthContext) (accessible : List Uuid) (f : ReqFilter) :
    Except CountReply (List Uuid) :=
  match extractChannelIdsFromFilters [f] with
  | some requested => requested.foldlM (env.confirmChannel ctx) accessible
  | none => .ok accessible

/-- The query of a filter, or `none` if no channel it names may be read. -/
def countQuery (env : CountEnv) (ctx : AuthContext) (accessible : List Uuid) (f : ReqFilter) :
    Option EventQuery :=
  let query := buildEventQueryFromFilter f env.community
  match extractChannelIdsFromFilters [f] with
  | some requested =>
    match requested.filter (accessible.contains ·) with
    | [] => none
    | first :: _ =>
      let channelId := if requested.length = 1 then some first else none
      some (setSharedGatedReader f ctx.pubkey
        (applyChannelScopeToQuery query f channelId accessible))
  | none =>
    some (setSharedGatedReader f ctx.pubkey { query with channelIds := some accessible })

/-- The SQL count, as the rows it counts. -/
def countPushed (env : CountEnv) (query : EventQuery) : Except CountReply (List Row) :=
  match env.unavailable query with
  | some e => .error (.closed ("error: " ++ e.toString))
  | none => .ok (countedOn env.rows query)

/-- A bounded page of candidates, each checked as REQ checks it. -/
def countFallback (env : CountEnv) (ctx : AuthContext) (f : ReqFilter) (q : EventQuery) :
    Except CountReply (List Row) :=
  match env.unavailable q with
  | some e => .error (.closed ("error: " ++ e.toString))
  | none =>
    match queryEventsOn env.rows q with
    | .error e => .error (.closed ("error: " ++ e.toString))
    | .ok storedEvents =>
      if countFallbackExceeded storedEvents.length then
        .error (.closed "restricted: count filter requires narrower constraints")
      else
        .ok (storedEvents.filter fun se =>
          filtersMatch [f.filter] se.stored && eventVisibleToReader se.event ctx.pubkey)

/-- The events that one filter adds to the total. -/
def countFilter (env : CountEnv) (ctx : AuthContext) (accessible : List Uuid) (f : ReqFilter) :
    Except CountReply (List Row) :=
  match env.countQuery ctx accessible f with
  | none => .ok []
  | some query =>
    if countsInSql f ctx.pubkey then env.countPushed query
    else env.countFallback ctx f (applyCountFallbackLimit query)

/-- The loop over the filters: a channel confirmed for one is accessible to all after it. -/
def countFilters (env : CountEnv) (ctx : AuthContext) :
    List Uuid → List ReqFilter → Except CountReply (List (ReqFilter × Row))
  | _, [] => .ok []
  | accessible, f :: filters => do
    let accessible ← env.confirmFilter ctx accessible f
    let added ← env.countFilter ctx accessible f
    let rest ← countFilters env ctx accessible filters
    return added.map (f, ·) ++ rest

/-- The channels of the request before the first filter. -/
def initialAccess (env : CountEnv) (ctx : AuthContext) : Except CountReply (List Uuid) :=
  match env.accessible with
  | .ok ids => .ok (ids.filter (tokenAllows ctx.channelIds))
  | .error _ => .error (.closed "error: database error")

/-- The events that a request adds to its total, or how it is closed. -/
def counted (env : CountEnv) (filters : List ReqFilter) :
    Except CountReply (List (ReqFilter × Row)) := do
  let ctx ← okOr env.auth (.closed "auth-required: not authenticated")
  ensure (pGatedFiltersAuthorized filters ctx.pubkey)
    (.closed "restricted: p-gated kinds require #p tag matching your pubkey")
  ensure (engramFiltersAuthorized filters ctx.pubkey)
    (.closed "restricted: agent-engram reads require authors=[self] or #p=[self]")
  ensure (authorOnlyFiltersAuthorized filters ctx.pubkey)
    (.closed "restricted: author-only kinds require authors=[self]")
  let _ ← (extractChannelIdsFromFiltersLimited filters).mapError fun _ =>
    .closed "restricted: too many explicit channels"
  let accessible ← env.initialAccess ctx
  env.countFilters ctx accessible filters

def handleCount (env : CountEnv) (filters : List ReqFilter) : CountReply :=
  match env.counted filters with
  | .ok added => .count added.length
  | .error reply => reply

end CountEnv

/-! ### The rows that the query of a filter selects -/

/-- Several values of `#h`, one of them or more well formed, name a single channel. -/
def Respelled (f : ReqFilter) : Prop :=
  ∃ channel values, extractChannelIdsFromFilters [f] = some [channel] ∧ f.get .h = some values ∧
    values.length ≠ 1

/-- What the channel clause asks of a row. -/
def InScope (accessible : List Uuid) (f : ReqFilter) (channel : Option Uuid) : Prop :=
  match extractChannelIdsFromFilters [f] with
  | none => ∀ c ∈ channel, c ∈ accessible
  | some requested => (∃ c ∈ requested, c ∈ accessible) ∧
      (Respelled f ∨ ∃ c ∈ channel, c ∈ requested ∧ c ∈ accessible)

/-- What the query of a filter asks of a row. -/
structure Picked (env : CountEnv) (accessible : List Uuid) (f : ReqFilter) (r : Row) : Prop where
  community : r.communityId = env.community
  live : r.deleted = false
  scope : InScope accessible f r.channelId
  selects : Selects f r

namespace CountEnv

variable {env : CountEnv} {ctx : AuthContext} {accessible : List Uuid} {f : ReqFilter} {r : Row}
  {q : EventQuery}

private theorem channelIdFromFilter_of_ne {values : List String}
    (named : f.get .h = some values) (several : values.length ≠ 1) :
    extractChannelIdFromFilter f = none := by
  simp [extractChannelIdFromFilter, named, several]

theorem fromFilter_countQuery (query : env.countQuery ctx accessible f = some q) :
    FromFilter f env.community q := by
  have built := FromFilter.filterToQueryParams f (extractChannelIdFromFilter f) env.community
  simp only [countQuery] at query
  split at query
  next =>
    split at query
    next => cases query
    next =>
      cases query
      exact (built.applyChannelScopeToQuery _ _).setSharedGatedReader _
  next =>
    cases query
    refine FromFilter.setSharedGatedReader ?_ _
    exact ⟨built.fields, built.until_, built.nothing, built.cursor, built.offset, built.globalOnly⟩

private theorem channelClause_single {u : Uuid} {values : List String} (named : f.get .h = some values)
    (extracted : extractChannelIdsFromFilters [f] = some [u]) (c : CommunityId)
    (channel : Option Uuid) : (buildEventQueryFromFilter f c).channelClause channel = true ↔
      Respelled f ∨ channel = some u := by
  by_cases one : values.length = 1
  · obtain ⟨value, rfl⟩ := List.length_eq_one_iff.mp one
    have parsed : Uuid.parse value = some u := by
      have valid := (mem_extractChannelIds (c := u) named extracted).mp (by simp)
      simpa using valid
    have own : (buildEventQueryFromFilter f c).channelId = some u := by
      simpa [buildEventQueryFromFilter, filterToQueryParams, extractChannelIdFromFilter, named]
        using parsed
    have apart : ¬ Respelled f := by
      rintro ⟨_, values, _, other, several⟩
      rw [named] at other
      cases other
      exact several rfl
    rw [EventQuery.channelClause_of_channel own rfl]
    simp [apart]
  · -- the builder wants a single value, and adds no clause at all
    have open_ : (buildEventQueryFromFilter f c).channelId = none :=
      channelIdFromFilter_of_ne named one
    have respelled : Respelled f := ⟨u, values, extracted, named, one⟩
    simp [EventQuery.channelClause_of_none open_ rfl rfl, respelled]

private theorem channelClause_several {values : List String} {requested : List Uuid}
    (named : f.get .h = some values)
    (extracted : extractChannelIdsFromFilters [f] = some requested) (several : requested ≠ [])
    (apart : requested.length ≠ 1) (c : CommunityId) (channel : Option Uuid) :
    (applyChannelScopeToQuery (buildEventQueryFromFilter f c) f none accessible).channelClause
        channel = true ↔ ∃ u ∈ channel, u ∈ requested ∧ u ∈ accessible := by
  have many : values.length ≠ 1 := by
    intro one
    obtain ⟨value, rfl⟩ := List.length_eq_one_iff.mp one
    apply apart
    obtain ⟨first, member⟩ := List.exists_mem_of_ne_nil requested several
    have valid := (mem_extractChannelIds named extracted).mp member
    have parsed : Uuid.parse value = some first := by simpa using valid
    rw [extractChannelIds_single, named] at extracted
    cases extracted
    simp [parsed, pushNew]
  have open_ : (applyChannelScopeToQuery (buildEventQueryFromFilter f c) f none
      accessible).channelId = none := by
    simp only [applyChannelScopeToQuery, Option.isSome_none, named]
    exact channelIdFromFilter_of_ne named many
  have ids : (applyChannelScopeToQuery (buildEventQueryFromFilter f c) f none
      accessible).channelIds =
        some ((values.filterMap Uuid.parse).filter (accessible.contains ·)) := by
    simp [applyChannelScopeToQuery, named]
  have only : (applyChannelScopeToQuery (buildEventQueryFromFilter f c) f none
      accessible).channelIdsIncludeGlobal = false := by
    simp [applyChannelScopeToQuery, named]
  have any : (applyChannelScopeToQuery (buildEventQueryFromFilter f c) f none
      accessible).globalOnly = false := by
    simp [applyChannelScopeToQuery, named]
    rfl
  rw [EventQuery.channelClause_of_ids open_ any ids, only]
  simp [mem_extractChannelIds named extracted]

/-- Its channel clause is the scope of the filter. -/
private theorem channelClause_iff (query : env.countQuery ctx accessible f = some q)
    (channel : Option Uuid) : q.channelClause channel = true ↔ InScope accessible f channel := by
  simp only [countQuery] at query
  unfold InScope
  cases named : f.get .h with
  | none =>
    have extracted : extractChannelIdsFromFilters [f] = none := by rw [extractChannelIds_single, named]; rfl
    have open_ : extractChannelIdFromFilter f = none := by
      simp [extractChannelIdFromFilter, named]
    simp only [extracted] at query ⊢
    cases query
    rw [channelClause_setSharedGatedReader, EventQuery.channelClause_of_ids open_ rfl rfl]
    cases channel <;> simp [buildEventQueryFromFilter, filterToQueryParams]
  | some values =>
    obtain ⟨requested, extracted⟩ : ∃ requested, extractChannelIdsFromFilters [f] = some requested :=
      ⟨_, by rw [extractChannelIds_single, named]; rfl⟩
    simp only [extracted] at query ⊢
    split at query
    next => cases query
    next first others authorized =>
      have member : first ∈ requested.filter (accessible.contains ·) :=
        authorized ▸ List.mem_cons_self
      rw [List.mem_filter, List.contains_iff_mem] at member
      have some_ : ∃ c ∈ requested, c ∈ accessible := ⟨first, member⟩
      cases query
      rw [channelClause_setSharedGatedReader]
      by_cases single : requested.length = 1
      · obtain ⟨u, rfl⟩ := List.length_eq_one_iff.mp single
        obtain rfl : first = u := by simpa using member.1
        simp only [if_pos single, applyChannelScopeToQuery, Option.isSome_some, if_true]
        rw [channelClause_single named extracted]
        simp [member.2]
      · have apart : ¬ Respelled f := by
          rintro ⟨_, _, other, _⟩
          rw [extracted] at other
          cases other
          exact single rfl
        rw [if_neg single,
          channelClause_several named extracted (List.ne_nil_of_mem member.1) single]
        simp [apart, some_]

private theorem not_inScope (skipped : env.countQuery ctx accessible f = none)
    (channel : Option Uuid) : ¬ InScope accessible f channel := by
  simp only [countQuery] at skipped
  unfold InScope
  split at skipped
  next requested extracted =>
    split at skipped
    next authorized =>
      rw [extracted]
      rintro ⟨⟨c, named, member⟩, _⟩
      have kept : c ∈ requested.filter (accessible.contains ·) := by simp [named, member]
      rw [authorized] at kept
      cases kept
    next => cases skipped
  next => cases skipped

theorem countWhere_iff (query : env.countQuery ctx accessible f = some q) :
    q.countWhere r = true ↔ Picked env accessible f r := by
  rw [(fromFilter_countQuery query).countWhere_iff, channelClause_iff query]
  constructor
  · rintro ⟨community, live, scope, selects⟩
    exact ⟨community, live, scope, selects⟩
  · rintro ⟨community, live, scope, selects⟩
    exact ⟨community, live, scope, selects⟩

/-! ### The events that one filter adds -/

/-- The test that a filter's answer makes on a row: the clauses of its query and, off the SQL
path, the checks of REQ. -/
def adds (env : CountEnv) (ctx : AuthContext) (accessible : List Uuid) (f : ReqFilter) (r : Row) :
    Bool :=
  (env.countQuery ctx accessible f).any fun q => q.countWhere r &&
    (countsInSql f ctx.pubkey ||
      (filterMatchOne f.filter r.stored && eventVisibleToReader r.event ctx.pubkey))

theorem adds_iff : env.adds ctx accessible f r = true ↔ Picked env accessible f r ∧
    (countsInSql f ctx.pubkey = true ∨ (filterMatchOne f.filter r.stored = true ∧
      eventVisibleToReader r.event ctx.pubkey = true)) := by
  unfold adds
  cases query : env.countQuery ctx accessible f with
  | none =>
    simp only [Option.any_none, Bool.false_eq_true, false_iff]
    rintro ⟨picked, _⟩
    exact not_inScope query r.channelId picked.scope
  | some q => simp [countWhere_iff query]

private theorem sharedGatedReader_countQuery (query : env.countQuery ctx accessible f = some q)
    (reader : PublicKey) (gate : q.sharedGatedReader = some reader) : reader = ctx.pubkey := by
  simp only [countQuery] at query
  split at query
  next =>
    split at query
    next => cases query
    next =>
      cases query
      exact eq_of_sharedGatedReader (sharedGatedReader_applyChannelScope _ _ _ _) gate
  next =>
    cases query
    exact eq_of_sharedGatedReader rfl gate

/-- The gate of the SQL never withholds what the check on the row lets through. -/
theorem queryWhere_and_checked (query : env.countQuery ctx accessible f = some q) (r : Row) :
    (q.queryWhere r && (filterMatchOne f.filter r.stored &&
        eventVisibleToReader r.event ctx.pubkey)) =
      (q.countWhere r && (filterMatchOne f.filter r.stored &&
        eventVisibleToReader r.event ctx.pubkey)) := by
  have queried : q.queryWhere r = (q.countWhere r && q.sharedClause r) := by
    rw [Bool.eq_iff_iff, (fromFilter_countQuery query).queryWhere_iff, Bool.and_eq_true]
  rw [queried]
  cases visible : eventVisibleToReader r.event ctx.pubkey with
  | false => simp
  | true => simp [sharedClause_of_visible visible (sharedGatedReader_countQuery query)]

private theorem queryEventsOn_fallback {c : CommunityId} (from_ : FromFilter f c q)
    (rows : List Row) : queryEventsOn rows (applyCountFallbackLimit q) =
      .ok ((sortBy pageOrder (rows.filter q.queryWhere)).take (countFallbackCandidateLimit + 1)) := by
  have limited : FromFilter f c (applyCountFallbackLimit q) :=
    ⟨from_.fields, from_.until_, from_.nothing, from_.cursor, from_.offset, from_.globalOnly⟩
  have page : (applyCountFallbackLimit q).limitVal = countFallbackCandidateLimit + 1 := rfl
  rw [limited.queryEventsOn_eq rows (by rw [page]; omega), page]
  rfl

/-- A page within the budget is not cut off: the fallback checks every candidate. -/
private theorem countFallback_eq_ok {c : CommunityId} (from_ : FromFilter f c q)
    {added : List Row} : env.countFallback ctx f (applyCountFallbackLimit q) = .ok added ↔
    env.unavailable (applyCountFallbackLimit q) = none ∧
      (env.rows.filter q.queryWhere).length ≤ countFallbackCandidateLimit ∧
      added = (sortBy pageOrder (env.rows.filter q.queryWhere)).filter fun se =>
        filtersMatch [f.filter] se.stored && eventVisibleToReader se.event ctx.pubkey := by
  have length := (sortBy_perm pageOrder (env.rows.filter q.queryWhere)).length_eq
  unfold countFallback
  split
  next error failed => simp [failed]
  next available =>
    rw [queryEventsOn_fallback from_]
    simp only [countFallbackExceeded, decide_eq_true_eq, List.length_take, length, available,
      true_and]
    split
    next exceeded =>
      constructor
      · intro ok
        cases ok
      · rintro ⟨within, -⟩
        omega
    next within =>
      rw [List.take_of_length_le (by omega)]
      constructor
      · intro ok
        cases ok
        exact ⟨by omega, rfl⟩
      · rintro ⟨-, rfl⟩
        rfl

theorem countFilter_perm {added : List Row} (ok : env.countFilter ctx accessible f = .ok added) :
    added.Perm (env.rows.filter (env.adds ctx accessible f)) := by
  unfold countFilter at ok
  unfold adds
  split at ok
  next skipped =>
    cases ok
    simp [skipped]
  next q query =>
    have from_ := fromFilter_countQuery query
    simp only [query, Option.any_some]
    split at ok
    next fast =>
      unfold countPushed at ok
      split at ok
      next => cases ok
      next =>
        cases ok
        rw [from_.countedOn_eq]
        simp [fast]
    next slow =>
      obtain ⟨-, -, rfl⟩ := (countFallback_eq_ok from_).mp ok
      refine ((sortBy_perm _ _).filter _).trans ?_
      rw [List.filter_filter]
      apply List.Perm.of_eq
      apply List.filter_congr
      intro r _
      have single : filtersMatch [f.filter] r.stored = filterMatchOne f.filter r.stored := by
        simp [filtersMatch]
      have slow' : countsInSql f ctx.pubkey = false := by simpa using slow
      rw [single, slow', Bool.false_or, Bool.and_comm]
      exact queryWhere_and_checked query r

/-! ### What the reader may count -/

/-- The channel is in the cached list or the reader is confirmed as a member, and the token is
good for it. -/
def mayRead (env : CountEnv) (ctx : AuthContext) (channel : Uuid) : Bool :=
  tokenAllows ctx.channelIds channel &&
    ((env.accessible.toOption.any (·.contains channel)) ||
      (env.isMember channel).toOption.any id)

/-- The row is global or in a channel that the reader may read. -/
def readable (env : CountEnv) (ctx : AuthContext) (r : Row) : Bool :=
  r.channelId.all (env.mayRead ctx)

/-- What an event has to be for the filter to count it. -/
structure Permitted (env : CountEnv) (ctx : AuthContext) (f : ReqFilter) (r : Row) : Prop where
  community : r.communityId = env.community
  readable : env.readable ctx r = true
  matches_ : filterMatchOne f.filter r.stored = true
  visible : eventVisibleToReader r.event ctx.pubkey = true

theorem mayRead_initial {ids : List Uuid} (ok : env.initialAccess ctx = .ok ids) :
    ∀ c ∈ ids, env.mayRead ctx c = true := by
  unfold initialAccess at ok
  split at ok
  next cached listed =>
    cases ok
    intro c member
    obtain ⟨known, allowed⟩ := List.mem_filter.mp member
    simp [mayRead, listed, Except.toOption, known, allowed]
  next => cases ok

private theorem mayRead_confirmChannel {channel : Uuid} {ids : List Uuid}
    (before : ∀ c ∈ accessible, env.mayRead ctx c = true)
    (ok : env.confirmChannel ctx accessible channel = .ok ids) :
    ∀ c ∈ ids, env.mayRead ctx c = true := by
  simp only [confirmChannel] at ok
  split at ok
  next =>
    cases ok
    exact before
  next unknown =>
    split at ok
    next allowed =>
      split at ok
      next member answer =>
        cases ok
        have fresh : accessible.contains channel = false := by simpa using unknown
        simp only [resolveRequestLocalAccess, allowed, fresh]
        cases member with
        | false => exact before
        | true =>
          intro c listed
          rcases List.mem_append.mp listed with old | new
          · exact before c old
          · obtain rfl := List.mem_singleton.mp new
            simp [mayRead, allowed, answer, Except.toOption]
      next => cases ok
    next denied =>
      cases ok
      have denied' : tokenAllows ctx.channelIds channel = false := by simpa using denied
      simpa [resolveRequestLocalAccess, denied'] using before

private theorem mayRead_confirmFilter {ids : List Uuid}
    (before : ∀ c ∈ accessible, env.mayRead ctx c = true)
    (ok : env.confirmFilter ctx accessible f = .ok ids) :
    ∀ c ∈ ids, env.mayRead ctx c = true := by
  unfold confirmFilter at ok
  split at ok
  next requested named =>
    -- every channel that joins the list has been confirmed
    clear named
    induction requested generalizing accessible with
    | nil =>
      cases ok
      exact before
    | cons channel requested ih =>
      rw [List.foldlM_cons] at ok
      obtain ⟨next, first, rest⟩ := bind_eq_ok.mp ok
      exact ih (mayRead_confirmChannel before first) rest
  next =>
    cases ok
    exact before

/-! ### Which events are permitted -/

/-- A filter that is counted in SQL needs none of the checks on single events. -/
private theorem visible_of_countsInSql (fast : countsInSql f ctx.pubkey = true)
    (reads : Reads f r) : eventVisibleToReader r.event ctx.pubkey = true := by
  simp only [countsInSql, Bool.and_eq_true, Bool.not_eq_true', Bool.or_eq_true] at fast
  obtain ⟨⟨⟨-, authorOnly⟩, result⟩, shared⟩ := fast
  have own : isAuthorOnlyEvent r.event ctx.pubkey = false := by
    by_contra foreign
    simp only [isAuthorOnlyEvent, Bool.not_eq_false, Bool.and_eq_true, List.contains_iff_mem,
      bne_iff_ne] at foreign
    have gated : filterCanMatchAuthorOnlyKinds f = true :=
      filterCanMatchKinds_of_reads reads foreign.1
    have self : authorIsSelf f ctx.pubkey = true := by simpa [gated] using authorOnly
    obtain ⟨authors, constrained, only⟩ := (Option.any_eq_true _ _).mp self
    have all := List.all_eq_true.mp ((Bool.and_eq_true _ _).mp only).2 _
      (reads.authors authors constrained)
    exact foreign.2 (by simpa using all)
  have ungated : isUnsharedGatedEvent r.event ctx.pubkey = false := by
    by_contra foreign
    simp only [isUnsharedGatedEvent, Bool.not_eq_false, Bool.and_eq_true, List.contains_iff_mem]
      at foreign
    have gated : filterCanMatchSharedGatedKinds f = true :=
      filterCanMatchKinds_of_reads reads foreign.1.1
    simp [gated] at shared
  have addressed : readerAuthorizedForEvent r.event ctx.pubkey = true := by
    unfold readerAuthorizedForEvent
    by_cases kind : r.event.kind ∈ resultGatedKinds
    · have gated : filterCanMatchResultGatedKinds f = true :=
        filterCanMatchKinds_of_reads reads kind
      have self : pIsSelf f ctx.pubkey = true := by
        simpa [gated, resultGatedCountSafeForPushdown] using result
      obtain ⟨values, constrained, only⟩ := (Option.any_eq_true _ _).mp self
      obtain ⟨value, requested, t, tag, carries⟩ :=
        tagMatches_iff_tagValue.mp (tagMatches_of_reads reads constrained (by decide))
      have all := List.all_eq_true.mp ((Bool.and_eq_true _ _).mp only).2 value requested
      obtain rfl : value = ctx.pubkey.toHex := by simpa using all
      obtain ⟨name, content⟩ := tagValue_eq_some.mp carries
      rw [Bool.or_eq_true]
      right
      apply List.any_eq_true.mpr
      exact ⟨t, tag, by simpa [content] using name⟩
    · simp only [resultGatedKinds, List.mem_cons, List.not_mem_nil, or_false] at kind
      simp [not_or.mp kind]
  simp [eventVisibleToReader, own, ungated, addressed]

private theorem pushable_of_countsInSql (fast : countsInSql f ctx.pubkey = true) :
    filterFullyPushable f = true := by
  simp only [countsInSql, Bool.and_eq_true] at fast
  exact fast.1.1.1

/-- A row that the SQL of a filter selects matches it, and is visible, unless it is misread. -/
theorem checked_iff_of_selects (fast : countsInSql f ctx.pubkey = true) (selects : Selects f r) :
    (filterMatchOne f.filter r.stored = true ∧ eventVisibleToReader r.event ctx.pubkey = true) ↔
      ¬ Misread f r := by
  rw [← filterMatchOne_eq_false_iff (pushable_of_countsInSql fast) selects, Bool.not_eq_false]
  refine and_iff_left_of_imp fun matched => ?_
  exact visible_of_countsInSql fast (filterMatchOne_iff.mp matched)

/-- How an event that a filter adds can be one it should not: several spellings of one channel
leave the query without a channel clause, and the SQL misreads the filter. -/
def Stray (env : CountEnv) (ctx : AuthContext) (f : ReqFilter) (r : Row) : Prop :=
  (Respelled f ∧ env.readable ctx r = false) ∨ (countsInSql f ctx.pubkey = true ∧ Misread f r)

private theorem readable_iff : env.readable ctx r = true ↔
    ∀ c ∈ r.channelId, env.mayRead ctx c = true := by
  unfold readable
  cases r.channelId <;> simp

/-- Unless its channel is respelled, a filter adds rows of readable channels only. -/
private theorem readable_of_inScope (before : ∀ c ∈ accessible, env.mayRead ctx c = true)
    (scope : InScope accessible f r.channelId) (apart : ¬ Respelled f) :
    env.readable ctx r = true := by
  apply readable_iff.mpr
  intro c here
  unfold InScope at scope
  split at scope
  next => exact before c (scope c here)
  next =>
    obtain ⟨-, respelled | ⟨c', here', -, member⟩⟩ := scope
    · exact absurd respelled apart
    · obtain rfl : c = c' := Option.some.inj (here.symm.trans here')
      exact before c member

/-- An event that a filter adds is permitted unless it strays. -/
theorem permitted_iff (before : ∀ c ∈ accessible, env.mayRead ctx c = true)
    (added : env.adds ctx accessible f r = true) :
    env.Permitted ctx f r ↔ ¬ env.Stray ctx f r := by
  obtain ⟨picked, path⟩ := adds_iff.mp added
  constructor
  · rintro permitted (⟨-, hidden⟩ | ⟨fast, misread⟩)
    · simp [permitted.readable] at hidden
    · exact (checked_iff_of_selects fast picked.selects).mp
        ⟨permitted.matches_, permitted.visible⟩ misread
  · intro kept
    have readable : env.readable ctx r = true := by
      by_cases respelled : Respelled f
      · by_contra hidden
        exact kept (Or.inl ⟨respelled, by simpa using hidden⟩)
      · exact readable_of_inScope before picked.scope respelled
    have checked : filterMatchOne f.filter r.stored = true ∧
        eventVisibleToReader r.event ctx.pubkey = true := by
      rcases path with fast | checked
      · apply (checked_iff_of_selects fast picked.selects).mpr
        exact fun misread => kept (Or.inr ⟨fast, misread⟩)
      · exact checked
    exact ⟨picked.community, readable, checked.1, checked.2⟩

/-! ### Whole requests -/

/-- The filters of a request from here on, each with the channels that are accessible when it is
counted. -/
def scopesFrom (env : CountEnv) (ctx : AuthContext) :
    List Uuid → List ReqFilter → List (ReqFilter × List Uuid)
  | _, [] => []
  | accessible, f :: filters =>
    match env.confirmFilter ctx accessible f with
    | .ok accessible => (f, accessible) :: scopesFrom env ctx accessible filters
    | .error _ => []

def scopes (env : CountEnv) (ctx : AuthContext) (filters : List ReqFilter) :
    List (ReqFilter × List Uuid) :=
  match env.initialAccess ctx with
  | .ok accessible => env.scopesFrom ctx accessible filters
  | .error _ => []

theorem mayRead_scopesFrom {filters : List ReqFilter} {s : ReqFilter × List Uuid}
    (before : ∀ c ∈ accessible, env.mayRead ctx c = true)
    (reached : s ∈ env.scopesFrom ctx accessible filters) :
    ∀ c ∈ s.2, env.mayRead ctx c = true := by
  induction filters generalizing accessible with
  | nil => cases reached
  | cons f filters ih =>
    cases confirmed : env.confirmFilter ctx accessible f with
    | error reply => simp [scopesFrom, confirmed] at reached
    | ok accessible' =>
      have inside := mayRead_confirmFilter before confirmed
      simp only [scopesFrom, confirmed, List.mem_cons] at reached
      rcases reached with rfl | later
      · exact inside
      · exact ih inside later

/-- The same request on another database. -/
def onRows (env : CountEnv) (rows : List Row) : CountEnv := { env with rows := rows }

variable {filters : List ReqFilter} {added : List (ReqFilter × Row)}

theorem countFilters_cons :
    env.countFilters ctx accessible (f :: filters) = .ok added ↔
      ∃ accessible' own rest, env.confirmFilter ctx accessible f = .ok accessible' ∧
        env.countFilter ctx accessible' f = .ok own ∧
        env.countFilters ctx accessible' filters = .ok rest ∧ added = own.map (f, ·) ++ rest := by
  simp only [countFilters, bind_eq_ok]
  constructor
  · rintro ⟨accessible', confirmed, own, counted, rest, others, result⟩
    cases result
    exact ⟨accessible', own, rest, confirmed, counted, others, rfl⟩
  · rintro ⟨accessible', own, rest, confirmed, counted, others, rfl⟩
    exact ⟨accessible', confirmed, own, counted, rest, others, rfl⟩

/-- Every event of the total is permitted exactly if no event strays under the filter that adds
it. -/
private theorem countFilters_permitted_iff (before : ∀ c ∈ accessible, env.mayRead ctx c = true)
    (ok : env.countFilters ctx accessible filters = .ok added) :
    (∀ entry ∈ added, env.Permitted ctx entry.1 entry.2) ↔
      ∀ s ∈ env.scopesFrom ctx accessible filters, ∀ r ∈ env.rows,
        env.adds ctx s.2 s.1 r = true → ¬ env.Stray ctx s.1 r := by
  induction filters generalizing accessible added with
  | nil =>
    cases ok
    simp [scopesFrom]
  | cons f filters ih =>
    obtain ⟨accessible', own, rest, confirmed, counted, others, rfl⟩ := countFilters_cons.mp ok
    have inside := mayRead_confirmFilter before confirmed
    have member (r : Row) : r ∈ own ↔ r ∈ env.rows ∧ env.adds ctx accessible' f r = true := by
      rw [(countFilter_perm counted).mem_iff, List.mem_filter]
    have here : (∀ r ∈ own, env.Permitted ctx f r) ↔
        ∀ r ∈ env.rows, env.adds ctx accessible' f r = true → ¬ env.Stray ctx f r := by
      constructor
      · intro all r row counts
        exact (permitted_iff inside counts).mp (all r ((member r).mpr ⟨row, counts⟩))
      · intro all r listed
        obtain ⟨row, counts⟩ := (member r).mp listed
        exact (permitted_iff inside counts).mpr (all r row counts)
    simp only [scopesFrom, confirmed, List.forall_mem_append, List.forall_mem_map,
      List.forall_mem_cons]
    rw [ih inside others, here]

section Databases

variable {rows part : List Row}

theorem scopesFrom_onRows : (env.onRows rows).scopesFrom ctx accessible filters =
    env.scopesFrom ctx accessible filters := by
  induction filters generalizing accessible with
  | nil => rfl
  | cons f filters ih =>
    have same : (env.onRows rows).confirmFilter ctx accessible f =
        env.confirmFilter ctx accessible f := rfl
    simp only [scopesFrom, same, ih]

/-- On another database a filter is answered as well, if its candidates stay within the budget. -/
private theorem countFilter_onRows {own : List Row} (ok : env.countFilter ctx accessible f = .ok own)
    (within : ∀ q : EventQuery,
      (env.rows.filter q.queryWhere).length ≤ countFallbackCandidateLimit →
        (rows.filter q.queryWhere).length ≤ countFallbackCandidateLimit) :
    ∃ own', (env.onRows rows).countFilter ctx accessible f = .ok own' := by
  unfold countFilter at ok ⊢
  have sameQuery : (env.onRows rows).countQuery ctx accessible f =
      env.countQuery ctx accessible f := rfl
  rw [sameQuery]
  split at ok
  next => exact ⟨[], by simp⟩
  next q query =>
    split at ok
    next fast =>
      unfold countPushed at ok
      split at ok
      next => cases ok
      next available => exact ⟨_, by simp [fast, countPushed, onRows, available]; rfl⟩
    next slow =>
      have from_ := fromFilter_countQuery query
      obtain ⟨available, fits, -⟩ := (countFallback_eq_ok from_).mp ok
      exact ⟨_, by
        simp only [slow]
        exact (countFallback_eq_ok from_).mpr ⟨available, within q fits, rfl⟩⟩

theorem countFilters_onRows (ok : env.countFilters ctx accessible filters = .ok added)
    (within : ∀ q : EventQuery,
      (env.rows.filter q.queryWhere).length ≤ countFallbackCandidateLimit →
        (rows.filter q.queryWhere).length ≤ countFallbackCandidateLimit) :
    ∃ added', (env.onRows rows).countFilters ctx accessible filters = .ok added' := by
  induction filters generalizing accessible added with
  | nil => exact ⟨[], rfl⟩
  | cons f filters ih =>
    obtain ⟨accessible', own, rest, confirmed, counted, others, rfl⟩ := countFilters_cons.mp ok
    obtain ⟨own', counted'⟩ := countFilter_onRows counted within
    obtain ⟨rest', others'⟩ := ih others
    exact ⟨_, countFilters_cons.mpr ⟨accessible', own', rest', confirmed, counted', others', rfl⟩⟩

theorem countFilters_part (below : part.Sublist env.rows)
    (ok : env.countFilters ctx accessible filters = .ok added) :
    ∃ added', (env.onRows part).countFilters ctx accessible filters = .ok added' :=
  countFilters_onRows ok fun _ fits => ((below.filter _).length_le).trans fits

/-- The database without the events that the reader may not read. -/
def withoutUnreadable (env : CountEnv) (ctx : AuthContext) : CountEnv :=
  env.onRows (env.rows.filter (env.readable ctx))

/-- If a filter adds readable rows only, it adds as many without the others. -/
private theorem countFilter_withoutUnreadable {own : List Row}
    (ok : env.countFilter ctx accessible f = .ok own)
    (readable : ∀ r ∈ own, env.readable ctx r = true) :
    ∃ own', (env.withoutUnreadable ctx).countFilter ctx accessible f = .ok own' ∧
      own'.length = own.length := by
  obtain ⟨own', ok'⟩ :
      ∃ own', (env.withoutUnreadable ctx).countFilter ctx accessible f = .ok own' :=
    countFilter_onRows ok fun _ fits => ((List.filter_sublist.filter _).length_le).trans fits
  refine ⟨own', ok', ?_⟩
  have counted := countFilter_perm ok
  rw [(countFilter_perm ok').length_eq, counted.length_eq]
  have sameTest : (env.withoutUnreadable ctx).adds ctx accessible f = env.adds ctx accessible f := rfl
  have sameRows : (env.withoutUnreadable ctx).rows = env.rows.filter (env.readable ctx) := rfl
  rw [sameTest, sameRows, List.filter_filter]
  congr 1
  apply List.filter_congr
  intro r row
  cases counts : env.adds ctx accessible f r with
  | false => simp
  | true =>
    have listed : r ∈ own := counted.mem_iff.mpr (List.mem_filter.mpr ⟨row, counts⟩)
    simp [readable r listed]

private theorem countFilters_withoutUnreadable
    (ok : env.countFilters ctx accessible filters = .ok added)
    (permitted : ∀ entry ∈ added, env.Permitted ctx entry.1 entry.2) :
    ∃ added', (env.withoutUnreadable ctx).countFilters ctx accessible filters = .ok added' ∧
      added'.length = added.length := by
  induction filters generalizing accessible added with
  | nil =>
    cases ok
    exact ⟨[], rfl, rfl⟩
  | cons f filters ih =>
    obtain ⟨accessible', own, rest, confirmed, counted, others, rfl⟩ := countFilters_cons.mp ok
    obtain ⟨own', counted', sameOwn⟩ := countFilter_withoutUnreadable counted fun r listed =>
      (permitted (f, r) (by simp [listed])).readable
    obtain ⟨rest', others', sameRest⟩ := ih others fun entry listed =>
      permitted entry (by simp [listed])
    refine ⟨own'.map (f, ·) ++ rest', ?_, by simp [sameOwn, sameRest]⟩
    exact countFilters_cons.mpr ⟨accessible', own', rest', confirmed, counted', others', rfl⟩

/-- The query of a filter with its channels in one spelling selects readable rows only. -/
private theorem filter_readable_queried (before : ∀ c ∈ accessible, env.mayRead ctx c = true)
    (apart : ¬ Respelled f) (query : env.countQuery ctx accessible f = some q) :
    (rows.filter (env.readable ctx)).filter q.countWhere = rows.filter q.countWhere ∧
      (rows.filter (env.readable ctx)).filter q.queryWhere = rows.filter q.queryWhere := by
  have readable {r : Row} (counts : q.countWhere r = true) : env.readable ctx r = true :=
    readable_of_inScope before ((countWhere_iff query).mp counts).scope apart
  rw [List.filter_filter, List.filter_filter]
  constructor
  all_goals
    apply List.filter_congr
    intro r _
  · cases counts : q.countWhere r with
    | false => rfl
    | true => simp [readable counts]
  · cases queried : q.queryWhere r with
    | false => rfl
    | true => simp [readable ((fromFilter_countQuery query).queryWhere_iff.mp queried).1]

private theorem countFilter_readable (before : ∀ c ∈ accessible, env.mayRead ctx c = true)
    (apart : ¬ Respelled f) : (env.onRows rows).countFilter ctx accessible f =
      (env.onRows (rows.filter (env.readable ctx))).countFilter ctx accessible f := by
  have sameQuery (rows : List Row) : (env.onRows rows).countQuery ctx accessible f =
      env.countQuery ctx accessible f := rfl
  unfold countFilter
  rw [sameQuery, sameQuery]
  cases query : env.countQuery ctx accessible f with
  | none => rfl
  | some q =>
    have from_ := fromFilter_countQuery query
    obtain ⟨sameCount, samePage⟩ : (rows.filter (env.readable ctx)).filter q.countWhere =
        rows.filter q.countWhere ∧
      (rows.filter (env.readable ctx)).filter q.queryWhere = rows.filter q.queryWhere :=
      filter_readable_queried before apart query
    have pushed : (env.onRows rows).countPushed q =
        (env.onRows (rows.filter (env.readable ctx))).countPushed q := by
      simp only [countPushed, onRows, from_.countedOn_eq, sameCount]
    have fallback : (env.onRows rows).countFallback ctx f (applyCountFallbackLimit q) =
        (env.onRows (rows.filter (env.readable ctx))).countFallback ctx f
          (applyCountFallbackLimit q) := by
      simp only [countFallback, onRows, queryEventsOn_fallback from_, samePage]
    simp only [pushed, fallback]

/-- Where no channel is spelled several times, the unreadable rows make no difference at all. -/
private theorem countFilters_readable (before : ∀ c ∈ accessible, env.mayRead ctx c = true)
    (apart : ∀ s ∈ env.scopesFrom ctx accessible filters, ¬ Respelled s.1) :
    (env.onRows rows).countFilters ctx accessible filters =
      (env.onRows (rows.filter (env.readable ctx))).countFilters ctx accessible filters := by
  induction filters generalizing accessible with
  | nil => rfl
  | cons f filters ih =>
    have sameConfirm (rows : List Row) : (env.onRows rows).confirmFilter ctx accessible f =
        env.confirmFilter ctx accessible f := rfl
    simp only [countFilters, sameConfirm]
    cases confirmed : env.confirmFilter ctx accessible f with
    | error reply => rfl
    | ok accessible' =>
      simp only [scopesFrom, confirmed, List.forall_mem_cons] at apart
      have inside := mayRead_confirmFilter before confirmed
      have here : (env.onRows rows).countFilter ctx accessible' f =
          (env.onRows (rows.filter (env.readable ctx))).countFilter ctx accessible' f :=
        countFilter_readable inside apart.1
      simp only [bind, Except.bind, here, ih inside apart.2]

end Databases

theorem counted_eq_ok (auth : env.auth = some ctx) :
    env.counted filters = .ok added ↔
      (pGatedFiltersAuthorized filters ctx.pubkey = true ∧
        engramFiltersAuthorized filters ctx.pubkey = true ∧
        authorOnlyFiltersAuthorized filters ctx.pubkey = true ∧
        ∃ channels, extractChannelIdsFromFiltersLimited filters = .ok channels) ∧
      ∃ ids, env.initialAccess ctx = .ok ids ∧ env.countFilters ctx ids filters = .ok added := by
  simp only [counted, auth, bind_eq_ok, okOr_eq_ok, ensure_eq_ok, mapError_eq_ok,
    Option.some.injEq, exists_eq_left']
  tauto

private theorem counted_eq_countFilters {ids : List Uuid} (auth : env.auth = some ctx)
    (gates : pGatedFiltersAuthorized filters ctx.pubkey = true ∧
      engramFiltersAuthorized filters ctx.pubkey = true ∧
      authorOnlyFiltersAuthorized filters ctx.pubkey = true ∧
      ∃ channels, extractChannelIdsFromFiltersLimited filters = .ok channels)
    (initial : env.initialAccess ctx = .ok ids) :
    env.counted filters = env.countFilters ctx ids filters := by
  obtain ⟨pGated, engram, authorOnly, channels, limited⟩ := gates
  simp only [counted, auth, okOr, pGated, engram, authorOnly, limited, initial, ensure, if_true,
    Except.mapError, bind, Except.bind]

/-- Several values of `#h` name one channel, which is accessible, and an event that the reader may
not read can satisfy the rest of the filter. -/
structure Unscoped (env : CountEnv) (ctx : AuthContext) (accessible : List Uuid) (f : ReqFilter) :
    Prop where
  respelled : Respelled f
  named : ∃ requested, extractChannelIdsFromFilters [f] = some requested ∧
    ∃ c ∈ requested, c ∈ accessible
  foreign : ∃ r : Row, env.readable ctx r = false ∧ Selects f r ∧
    (countsInSql f ctx.pubkey = true ∨ (filterMatchOne f.filter r.stored = true ∧
      eventVisibleToReader r.event ctx.pubkey = true))

/-- What the answer to a request may rest on in a database: every event that is added is of the
community, global or in a channel the reader may read, matches its filter and is visible, and
without the unreadable events the count is the same. -/
def Discreet (env : CountEnv) (ctx : AuthContext) (filters : List ReqFilter) (rows : List Row) :
    Prop :=
  ∀ added, (env.onRows rows).counted filters = .ok added →
    (∀ entry ∈ added, (env.onRows rows).Permitted ctx entry.1 entry.2) ∧
      (env.onRows (rows.filter (env.readable ctx))).handleCount filters = .count added.length

/-- An unreadable row comes in through a filter that is unscoped. -/
private theorem unscoped_of_adds (before : ∀ c ∈ accessible, env.mayRead ctx c = true)
    (added : env.adds ctx accessible f r = true) (hidden : env.readable ctx r = false) :
    env.Unscoped ctx accessible f := by
  obtain ⟨picked, path⟩ := adds_iff.mp added
  have scope := picked.scope
  have respelled : Respelled f := by
    by_contra apart
    simp [readable_of_inScope before scope apart] at hidden
  unfold InScope at scope
  refine ⟨respelled, ?_, r, hidden, picked.selects, path⟩
  split at scope
  next extracted =>
    obtain ⟨channel, values, named, -⟩ := respelled
    rw [extracted] at named
    cases named
  next requested extracted => exact ⟨requested, extracted, scope.1⟩

private theorem exists_added_of_unscoped (unscoped : env.Unscoped ctx accessible f) :
    ∃ r : Row, env.readable ctx r = false ∧ env.adds ctx accessible f r = true := by
  obtain ⟨respelled, ⟨requested, extracted, named⟩, r, hidden, selects, path⟩ := unscoped
  let row : Row := { r with communityId := env.community, deleted := false }
  refine ⟨row, hidden, adds_iff.mpr ⟨⟨rfl, rfl, ?_, ?_⟩, path⟩⟩
  · unfold InScope
    rw [extracted]
    exact ⟨named, Or.inl respelled⟩
  · exact ⟨selects.kinds, selects.authors, selects.ids, selects.since, selects.until_, selects.e,
      selects.p, selects.d⟩

/-- For a request that is answered with a count: in every database in which, of what the reader may
read, there is at most what is here, whatever else it holds, the answer is discreet, exactly if no
filter is unscoped and no selected row is misread by the SQL. Where no filter spells a channel
several times, the answer is that of the readable rows alone, whether or not it is a count. -/
theorem count_permitted_iff (auth : env.auth = some ctx) (answered : env.counted filters = .ok added) :
    ((∀ rows : List Row, (∀ r ∈ rows, env.readable ctx r = true → r ∈ env.rows) →
        env.Discreet ctx filters rows) ↔
      (∀ s ∈ env.scopes ctx filters, ¬ env.Unscoped ctx s.2 s.1) ∧
        ∀ s ∈ env.scopes ctx filters, countsInSql s.1 ctx.pubkey = true →
          ∀ r ∈ env.rows, Picked env s.2 s.1 r → ¬ Misread s.1 r) ∧
    ((∀ s ∈ env.scopes ctx filters, ¬ Respelled s.1) → ∀ rows : List Row,
      (env.onRows rows).handleCount filters =
        (env.onRows (rows.filter (env.readable ctx))).handleCount filters) := by
  obtain ⟨gates, ids, initial, loop⟩ := (counted_eq_ok auth).mp answered
  have scopes_eq : env.scopes ctx filters = env.scopesFrom ctx ids filters := by
    simp [scopes, initial]
  have before := mayRead_initial initial
  have onRows_before (rows : List Row) : ∀ c ∈ ids, (env.onRows rows).mayRead ctx c = true := before
  have counted_eq (rows : List Row) : (env.onRows rows).counted filters =
      (env.onRows rows).countFilters ctx ids filters :=
    counted_eq_countFilters auth gates initial
  rw [scopes_eq]
  refine ⟨⟨fun discreet => ⟨?_, ?_⟩, ?_⟩, ?_⟩
  · -- a row that comes in unscoped is alone in the database and is counted
    rintro s reached unscoped
    obtain ⟨r, hidden, adds⟩ := exists_added_of_unscoped unscoped
    obtain ⟨added', loop'⟩ : ∃ added', (env.onRows [r]).countFilters ctx ids filters = .ok added' :=
      countFilters_onRows loop fun q _ =>
        (List.length_filter_le _ _).trans (by simp [countFallbackCandidateLimit])
    have known : ∀ r' ∈ [r], env.readable ctx r' = true → r' ∈ env.rows := by
      simp [hidden]
    have permitted := (discreet [r] known added' ((counted_eq _).trans loop')).1
    have kept := (countFilters_permitted_iff (onRows_before [r]) loop').mp permitted s
    rw [scopesFrom_onRows] at kept
    exact kept reached r (List.mem_singleton_self r) adds (Or.inl ⟨unscoped.respelled, hidden⟩)
  · intro s reached fast r row picked misread
    have permitted := (discreet env.rows (fun _ row _ => row) added answered).1
    have kept := (countFilters_permitted_iff before loop).mp permitted s reached r row
    exact kept (adds_iff.mpr ⟨picked, Or.inl fast⟩) (Or.inr ⟨fast, misread⟩)
  · rintro ⟨inScope, read⟩ rows known added' counted'
    have loop' := (counted_eq rows).symm.trans counted'
    have permitted : ∀ entry ∈ added', (env.onRows rows).Permitted ctx entry.1 entry.2 := by
      refine (countFilters_permitted_iff (onRows_before rows) loop').mpr ?_
      rw [scopesFrom_onRows]
      intro s reached r row counts stray
      have adds : env.adds ctx s.2 s.1 r = true := counts
      have readable : env.readable ctx r = true := by
        by_contra unreadable
        have inside := mayRead_scopesFrom before reached
        exact inScope s reached (unscoped_of_adds inside adds (by simpa using unreadable))
      rcases stray with ⟨-, hidden⟩ | ⟨fast, misread⟩
      · cases readable.symm.trans hidden
      · exact read s reached fast r (known r row readable) (adds_iff.mp adds).1 misread
    obtain ⟨fewer, loop'', same⟩ := countFilters_withoutUnreadable loop' permitted
    refine ⟨permitted, ?_⟩
    have counted'' := (counted_eq (rows.filter (env.readable ctx))).trans loop''
    simp [handleCount, counted'', same]
  · intro apart rows
    have same : (env.onRows rows).countFilters ctx ids filters = _ :=
      countFilters_readable before apart
    simp only [handleCount, counted_eq, same]

/-! ### One channel in two spellings -/

namespace Sample

/-- A channel of the reader. -/
def general : Uuid := ⟨0xaaaaaaaaaaaaaaaaaaaaaaaaaaaaaaaa⟩

/-- A channel that the reader is no member of. -/
def secret : Uuid := ⟨0xbbbbbbbbbbbbbbbbbbbbbbbbbbbbbbbb⟩

def reader : AuthContext := { pubkey := Hex64.repeated 'a' (Eq.refl true) }

def community : CommunityId := ⟨⟨1⟩⟩

/-- A message in a channel, with the `h` tag it came with. -/
def message (channel : Uuid) : Row where
  communityId := community
  event :=
    { id := Hex64.repeated 'c' (Eq.refl true)
      pubkey := Hex64.repeated 'd' (Eq.refl true)
      createdAt := 1700000000
      kind := 9
      tags := [["h", channel.toString]]
      content := "" }
  channelId := some channel
  storable := ⟨(by decide : (9 : Kind) ≠ kindAuth), (by decide : isEphemeral 9 = false)⟩
  inRange := (by decide : ((1700000000 : Nat) : Int) ≤ maxSecs)

/-- `{"kinds":[7,9],"#h":["aaaaaaaa-..."]}`. -/
def spelledOnce : ReqFilter where
  filter :=
    { kinds := some [7, 9], genericTags := [(.h, ["aaaaaaaa-aaaa-aaaa-aaaa-aaaaaaaaaaaa"])] }
  limit_lt := ReqFilter.unlimited

/-- `{"kinds":[9],"#h":["AAAAAAAA-...","aaaaaaaa-..."]}`. -/
def spelledTwice : ReqFilter where
  filter :=
    { kinds := some [9]
      genericTags := [(.h, ["AAAAAAAA-AAAA-AAAA-AAAA-AAAAAAAAAAAA",
        "aaaaaaaa-aaaa-aaaa-aaaa-aaaaaaaaaaaa"])] }
  limit_lt := ReqFilter.unlimited

/-- The reader is in `general` only. -/
def relay (rows : List Row) : CountEnv where
  community := community
  auth := some reader
  accessible := .ok [general]
  isMember := fun _ => .ok false
  rows := rows

end Sample

open Sample in
/-- The count of `general` in two spellings is that of the whole community. -/
theorem count_spelledTwice : (relay [message secret]).handleCount [spelledTwice] = .count 1 ∧
    ((relay [message secret]).onRows []).handleCount [spelledTwice] = .count 0 ∧
    (relay [message secret]).readable reader (message secret) = false := by
  decide

open Sample in
theorem count_permitted_general : (relay [message general]).auth = some reader ∧
    (relay [message general]).counted [spelledOnce] = .ok [(spelledOnce, message general)] ∧
    ((∀ rows : List Row,
        (∀ r ∈ rows, (relay [message general]).readable reader r = true → r ∈ [message general]) →
          (relay [message general]).Discreet reader [spelledOnce] rows) ↔
      (∀ s ∈ (relay [message general]).scopes reader [spelledOnce],
          ¬ (relay [message general]).Unscoped reader s.2 s.1) ∧
        ∀ s ∈ (relay [message general]).scopes reader [spelledOnce],
          countsInSql s.1 reader.pubkey = true → ∀ r ∈ [message general],
            Picked (relay [message general]) s.2 s.1 r → ¬ Misread s.1 r) := by
  have counted : (relay [message general]).counted [spelledOnce] =
      .ok [(spelledOnce, message general)] := by decide
  exact ⟨rfl, counted, (count_permitted_iff rfl counted).1⟩

end CountEnv

end Relay
