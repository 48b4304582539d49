import Buzz.Relay.Count

/-!
# The SQL count against the checked count

For a filter that is counted in SQL, the number of rows that its query counts is compared with
two references: the page of the fallback without its limit, whose rows are selected by the same
clauses and then checked, and the events of the accessible channels that match the filter and
are visible. The first can only be smaller, so one test on rows decides it; the second can differ
either way, so it is compared on every part of the database.
-/
namespace Relay

open Lib Nostr Db

section Counting

variable {α : Type} {p q : α → Bool} {l : List α}

private theorem length_filter_and_iff :
    (l.filter p).length = (l.filter fun a => p a && q a).length ↔
      ∀ a ∈ l, p a = true → q a = true := by
  have fewer : (l.filter fun a => p a && q a) = (l.filter p).filter q := by
    rw [List.filter_filter]
    apply List.filter_congr
    intro a _
    exact Bool.and_comm _ _
  rw [fewer, eq_comm, List.length_filter_eq_length_iff]
  simp only [List.mem_filter, and_imp]

/-- Two tests count the same on every part of a list exactly if they agree on its elements. -/
private theorem length_filter_parts_iff :
    (∀ part : List α, part.Sublist l → (part.filter p).length = (part.filter q).length) ↔
      ∀ a ∈ l, p a = q a := by
  constructor
  · intro same a member
    have single := same [a] (List.singleton_sublist.mpr member)
    cases hp : p a <;> cases hq : q a <;> simp_all
  · intro agree part below
    congr 1
    apply List.filter_congr
    intro a member
    exact agree a (below.subset member)

end Counting

namespace CountEnv

variable {env : CountEnv} {ctx : AuthContext} {accessible : List Uuid} {f : ReqFilter} {r : Row}
  {q : EventQuery}

/-- The filter has no `#h`, or a single value that names an accessible channel. -/
def PlainScope (accessible : List Uuid) (f : ReqFilter) : Prop :=
  f.get .h = none ∨
    ∃ value channel, f.get .h = some [value] ∧ Uuid.parse value = some channel ∧
      channel ∈ accessible

/-- The test of the fallback: the clauses of the query, then the filter and the reader. -/
def checked (ctx : AuthContext) (f : ReqFilter) (q : EventQuery) (r : Row) : Bool :=
  q.queryWhere r && (filterMatchOne f.filter r.stored && eventVisibleToReader r.event ctx.pubkey)

/-- A live event of the community, in an accessible channel or, unless the filter names one, in
none, that matches the filter and is visible. -/
def expected (env : CountEnv) (ctx : AuthContext) (accessible : List Uuid) (f : ReqFilter)
    (r : Row) : Bool :=
  r.communityId == env.community && !r.deleted &&
    (match r.channelId with
      | some channel => accessible.contains channel
      | none => (f.get .h).isNone) &&
    filterMatchOne f.filter r.stored && eventVisibleToReader r.event ctx.pubkey

/-- The event carries the `h` tag of the channel that the filter names but lies in another. -/
def Elsewhere (f : ReqFilter) (r : Row) : Prop :=
  ∃ value channel, f.get .h = some [value] ∧ Uuid.parse value = some channel ∧
    r.channelId ≠ some channel

private theorem inScope_iff (plain : PlainScope accessible f) : InScope accessible f r.channelId ↔
    (match r.channelId with
      | some channel => accessible.contains channel
      | none => (f.get .h).isNone) = true ∧ ¬ Elsewhere f r := by
  unfold InScope
  rcases plain with open_ | ⟨value, channel, named, parsed, member⟩
  · have extracted : extractChannelIdsFromFilters [f] = none := by rw [extractChannelIds_single, open_]; rfl
    have here : ¬ Elsewhere f r := by
      rintro ⟨value, _, named, _⟩
      simp [open_] at named
    rw [extracted]
    cases r.channelId <;> simp [here, open_]
  · have extracted : extractChannelIdsFromFilters [f] = some [channel] := by
      rw [extractChannelIds_single, named]
      simp [parsed, pushNew]
    have apart : ¬ Respelled f := by
      rintro ⟨_, values, _, other, several⟩
      rw [named] at other
      cases other
      exact several rfl
    have elsewhere : Elsewhere f r ↔ r.channelId ≠ some channel := by
      constructor
      · rintro ⟨value', channel', named', parsed', other⟩
        rw [named] at named'
        cases named'
        rw [parsed] at parsed'
        cases parsed'
        exact other
      · exact fun other => ⟨value, channel, named, parsed, other⟩
    rw [extracted, elsewhere]
    cases r.channelId with
    | none => simp [apart, member, named]
    | some own =>
      simp only [apart, false_or, ne_eq, not_not, List.contains_iff_mem, List.mem_singleton,
        Option.mem_def, Option.some.injEq]
      constructor
      · rintro ⟨-, c, rfl, rfl, _⟩
        exact ⟨member, rfl⟩
      · rintro ⟨inside, rfl⟩
        exact ⟨⟨own, rfl, inside⟩, own, rfl, rfl, inside⟩

private theorem picked_iff (plain : PlainScope accessible f) : Picked env accessible f r ↔
    (r.communityId = env.community ∧ r.deleted = false ∧
      (match r.channelId with
        | some channel => accessible.contains channel
        | none => (f.get .h).isNone) = true) ∧ ¬ Elsewhere f r ∧ Selects f r := by
  constructor
  · rintro ⟨community, live, scope, selects⟩
    obtain ⟨inside, here⟩ := (inScope_iff plain).mp scope
    exact ⟨⟨community, live, inside⟩, here, selects⟩
  · rintro ⟨⟨community, live, inside⟩, here, selects⟩
    exact ⟨community, live, (inScope_iff plain).mpr ⟨inside, here⟩, selects⟩

private theorem expected_iff : env.expected ctx accessible f r = true ↔
    (r.communityId = env.community ∧ r.deleted = false ∧
      (match r.channelId with
        | some channel => accessible.contains channel
        | none => (f.get .h).isNone) = true) ∧
      filterMatchOne f.filter r.stored = true ∧
      eventVisibleToReader r.event ctx.pubkey = true := by
  simp only [expected, Bool.and_eq_true, beq_iff_eq, Bool.not_eq_true', and_assoc]

/-- On one row the SQL and the reference agree unless the row is misread or missed. -/
private theorem countWhere_eq_expected_iff (fast : countsInSql f ctx.pubkey = true)
    (plain : PlainScope accessible f) (query : env.countQuery ctx accessible f = some q) :
    q.countWhere r = env.expected ctx accessible f r ↔
      (Picked env accessible f r → ¬ Misread f r) ∧
        (env.expected ctx accessible f r = true → ¬ Missed f r ∧ ¬ Elsewhere f r) := by
  rw [Bool.eq_iff_iff, countWhere_iff query]
  constructor
  · rintro ⟨toExpected, toPicked⟩
    constructor
    · intro picked
      apply (checked_iff_of_selects fast picked.selects).mp
      exact (expected_iff.mp (toExpected picked)).2
    · intro due
      obtain ⟨-, here, selects⟩ := (picked_iff plain).mp (toPicked due)
      exact ⟨(selects_iff (expected_iff.mp due).2.1).mp selects, here⟩
  · rintro ⟨read, found⟩
    constructor
    · intro picked
      have inside := ((picked_iff plain).mp picked).1
      exact expected_iff.mpr
        ⟨inside, (checked_iff_of_selects fast picked.selects).mpr (read picked)⟩
    · intro due
      obtain ⟨inside, matched, -⟩ := expected_iff.mp due
      obtain ⟨kept, here⟩ := found due
      exact (picked_iff plain).mpr ⟨inside, here, (selects_iff matched).mpr kept⟩

/-- The SQL count of a filter is that of the checked page without its limit exactly if no selected
row is misread; and it is the number of matching visible events of the accessible channels, on
every part of the database, exactly if moreover none of these events is missed. -/
theorem count_exact_iff (fast : countsInSql f ctx.pubkey = true)
    (plain : PlainScope accessible f) (query : env.countQuery ctx accessible f = some q) :
    (countEventsOn env.rows q = (env.rows.filter (checked ctx f q)).length ↔
      ∀ r ∈ env.rows, Picked env accessible f r → ¬ Misread f r) ∧
    ((∀ part : List Row, part.Sublist env.rows →
        countEventsOn part q = (part.filter (env.expected ctx accessible f)).length) ↔
      ∀ r ∈ env.rows, (Picked env accessible f r → ¬ Misread f r) ∧
        (env.expected ctx accessible f r = true → ¬ Missed f r ∧ ¬ Elsewhere f r)) := by
  have from_ := fromFilter_countQuery query
  have counted (rows : List Row) : countEventsOn rows q = (rows.filter q.countWhere).length := by
    rw [countEventsOn, from_.countedOn_eq]
  constructor
  · have sameTest : (env.rows.filter (checked ctx f q)) = env.rows.filter fun r =>
        q.countWhere r &&
          (filterMatchOne f.filter r.stored && eventVisibleToReader r.event ctx.pubkey) := by
      apply List.filter_congr
      intro r _
      exact queryWhere_and_checked query r
    rw [counted, sameTest, length_filter_and_iff]
    constructor
    · intro all r row picked
      apply (checked_iff_of_selects fast picked.selects).mp
      simpa using all r row ((countWhere_iff query).mpr picked)
    · intro all r row counts
      have picked := (countWhere_iff query).mp counts
      simpa using (checked_iff_of_selects fast picked.selects).mpr (all r row picked)
  · simp only [counted]
    rw [length_filter_parts_iff]
    constructor
    · intro agree r row
      exact (countWhere_eq_expected_iff fast plain query).mp (agree r row)
    · intro agree r row
      exact (countWhere_eq_expected_iff fast plain query).mpr (agree r row)

/-! ### A list without authors -/

namespace Sample

/-- `{"kinds":[9],"authors":[]}`: no event has an author in the list. -/
def noAuthors : ReqFilter where
  filter := { kinds := some [9], authors := some [] }
  limit_lt := ReqFilter.unlimited

/-- `{"kinds":[9],"authors":["dd..."]}`: the author of the message. -/
def oneAuthor : ReqFilter where
  filter := { kinds := some [9], authors := some [Hex64.repeated 'd' (Eq.refl true)] }
  limit_lt := ReqFilter.unlimited

/-- The query of a filter without `#h`. -/
def sampleQuery (f : ReqFilter) : EventQuery :=
  { filterToQueryParams f none community with channelIds := some [general] }

end Sample

open Sample in
/-- The message is counted under a list of authors that it cannot be in. -/
theorem count_noAuthors : countsInSql noAuthors reader.pubkey = true ∧
    (relay [message general]).countQuery reader [general] noAuthors = some (sampleQuery noAuthors) ∧
    countEventsOn [message general] (sampleQuery noAuthors) = 1 ∧
    ([message general].filter (checked reader noAuthors (sampleQuery noAuthors))).length = 0 ∧
    ([message general].filter
      ((relay [message general]).expected reader [general] noAuthors)).length = 0 := by
  decide

open Sample in
theorem count_exact_oneAuthor : countsInSql oneAuthor reader.pubkey = true ∧
    countEventsOn [message general] (sampleQuery oneAuthor) = 1 ∧
    ((countEventsOn (relay [message general]).rows (sampleQuery oneAuthor) =
        ((relay [message general]).rows.filter
          (checked reader oneAuthor (sampleQuery oneAuthor))).length) ↔
      ∀ r ∈ (relay [message general]).rows, Picked (relay [message general]) [general] oneAuthor r →
        ¬ Misread oneAuthor r) := by
  have fast : countsInSql oneAuthor reader.pubkey = true := by decide
  have query : (relay [message general]).countQuery reader [general] oneAuthor =
      some (sampleQuery oneAuthor) := by decide
  exact ⟨fast, by decide, (count_exact_iff fast (Or.inl rfl) query).1⟩

end CountEnv

end Relay
