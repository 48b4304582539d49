import Buzz.Relay.Query

/-!
# A filter read twice

`filter_match_one` reads a filter over the tags of an event; the query built from the filter
reads it over columns, mention rows and JSONB containment. Both are conjunctions over the fields
of the filter, so they are compared field by field: `Misread` lists how a row can satisfy the
clauses without matching the filter, and `Missed` how it can match without satisfying them.
-/
namespace Relay

open Lib Nostr Db

variable {f : ReqFilter} {r : Row}

/-! ### The two readings, field by field -/

/-- What `filter_match_one` asks of a row. -/
structure Reads (f : ReqFilter) (r : Row) : Prop where
  kinds : ∀ ks ∈ f.filter.kinds, r.event.kind ∈ ks
  authors : ∀ authors ∈ f.filter.authors, r.event.pubkey ∈ authors
  ids : ∀ ids ∈ f.filter.ids, r.event.id ∈ ids
  since : ∀ s ∈ f.filter.since, s ≤ r.event.createdAt
  until_ : ∀ u ∈ f.filter.until_, r.event.createdAt ≤ u
  tags : ∀ entry ∈ f.filter.genericTags, genericTagMatches entry.1 entry.2 r.stored = true

/-- What the clauses of the query ask of a row, community, deletion and channel aside. -/
structure Selects (f : ReqFilter) (r : Row) : Prop where
  kinds : ∀ ks ∈ f.filter.kinds, r.event.kind ∈ ks
  authors : ∀ authors ∈ f.filter.authors, authors ≠ [] → r.event.pubkey ∈ authors
  ids : ∀ ids ∈ f.filter.ids, ids ≠ [] → r.event.id ∈ ids
  since : ∀ s ∈ f.filter.since, ∀ t ∈ fromTimestamp (asI64 s), t ≤ r.createdAt
  until_ : ∀ u ∈ f.filter.until_, ∀ t ∈ fromTimestamp (asI64 u), r.createdAt ≤ t
  e : ∀ values ∈ f.get .e, values ≠ [] →
    ∃ value ∈ values, tagsContain r.event.tags "e" value = true
  p : ∀ value, f.get .p = some [value] → toAsciiLowercase value ∈ r.mentions
  d : filterIsNip33Only f = true → ∀ values ∈ f.get .d, values ≠ [] →
    ∃ value ∈ values, r.dTag = some value

private theorem hexStartsWith_iff (id candidate : EventId) :
    hexStartsWith id candidate = true ↔ candidate = id := by
  have lengths : candidate.toHex.toList.length = id.toHex.toList.length := by
    rw [String.length_toList, String.length_toList, candidate.length_eq, id.length_eq]
  constructor
  · intro starts
    have start := List.isPrefixOf_iff_prefix.mp starts
    apply Hex64.toHex_injective
    exact String.toList_injective (start.eq_of_length lengths)
  · rintro rfl
    exact List.isPrefixOf_iff_prefix.mpr (List.prefix_refl _)

private theorem all_iff {α : Type} {o : Option α} {p : α → Bool} :
    o.all p = true ↔ ∀ a ∈ o, p a = true := by
  cases o <;> simp

theorem filterMatchOne_iff : filterMatchOne f.filter r.stored = true ↔ Reads f r := by
  simp only [filterMatchOne, Bool.and_eq_true, all_iff, List.all_eq_true, List.any_eq_true,
    hexStartsWith_iff, exists_eq_right, decide_eq_true_eq, gt_iff_lt, not_lt]
  constructor
  · rintro ⟨⟨⟨⟨⟨kinds, authors⟩, since⟩, until_⟩, ids⟩, tags⟩
    exact ⟨kinds, authors, ids, since, until_, tags⟩
  · rintro ⟨kinds, authors, ids, since, until_, tags⟩
    exact ⟨⟨⟨⟨⟨kinds, authors⟩, since⟩, until_⟩, ids⟩, tags⟩

/-- A filter that matches an event of a gated kind is one that can. -/
theorem filterCanMatchKinds_of_reads {gated : List Kind} (reads : Reads f r)
    (kind : r.event.kind ∈ gated) : filterCanMatchKinds gated f = true := by
  apply all_iff.mpr
  intro ks constrained
  apply List.any_eq_true.mpr
  exact ⟨r.event.kind, reads.kinds ks constrained, List.contains_iff_mem.mpr kind⟩

/-! ### The clauses of the query -/

section Clauses

@[simp] private theorem nonEmpty_none {α : Type} : nonEmpty (none : Option (List α)) = none := rfl

@[simp] private theorem nonEmpty_nil {α : Type} : nonEmpty (some ([] : List α)) = none := rfl

@[simp] private theorem nonEmpty_cons {α : Type} (a : α) (l : List α) :
    nonEmpty (some (a :: l)) = some (a :: l) := rfl

private theorem bind_all {α β : Type} {o : Option α} {g : α → Option β} {p : β → Bool} :
    (o.bind g).all p = true ↔ ∀ a ∈ o, ∀ b ∈ g a, p b = true := by
  cases o <;> simp [all_iff]

private theorem nonEmpty_all {α : Type} {o : Option (List α)} {p : List α → Bool} :
    (nonEmpty o).all p = true ↔ ∀ l ∈ o, l ≠ [] → p l = true := by
  cases o with
  | none => simp
  | some l => cases l <;> simp

private theorem authors_clause (c : CommunityId) (ch : Option Uuid) :
    ((filterToQueryParams f ch c).pubkey.all (fun pk => r.event.pubkey == pk) = true ∧
      (filterToQueryParams f ch c).authors.all (fun as => as.contains r.event.pubkey) = true) ↔
      ∀ authors ∈ f.filter.authors, authors ≠ [] → r.event.pubkey ∈ authors := by
  simp only [filterToQueryParams]
  match f.filter.authors with
  | none => simp
  | some [] => simp
  | some [author] => simp
  | some (author :: other :: rest) => simp

private theorem p_clause (c : CommunityId) (ch : Option Uuid) :
    (filterToQueryParams f ch c).pTagHex.all
        (fun p => r.mentions.contains (toAsciiLowercase p)) = true ↔
      ∀ value, f.get .p = some [value] → toAsciiLowercase value ∈ r.mentions := by
  simp only [filterToQueryParams]
  match f.get .p with
  | none => simp
  | some [] => simp
  | some [value] => simp
  | some (value :: other :: rest) => simp

private theorem d_clause (c : CommunityId) (ch : Option Uuid) :
    (filterToQueryParams f ch c).dTagClause r.dTag = true ↔
      (filterIsNip33Only f = true → ∀ values ∈ f.get .d, values ≠ [] →
        ∃ value ∈ values, r.dTag = some value) := by
  by_cases nip33 : filterIsNip33Only f = true
  · simp only [filterToQueryParams, EventQuery.dTagClause, nip33, if_true]
    match f.get .d with
    | none => simp
    | some [] => simp
    | some [value] => simp
    | some (value :: other :: rest) => cases r.dTag <;> simp
  · simp [filterToQueryParams, EventQuery.dTagClause, nip33]

/-- A built query never has one of the empty lists that stand for no rows, unless the filter
names no kind. -/
theorem matchesNothing_iff (c : CommunityId) (ch : Option Uuid) :
    (filterToQueryParams f ch c).matchesNothing = true ↔ f.filter.kinds = some [] := by
  have filled {α : Type} [BEq α] (o : Option (List α)) : (nonEmpty o == some []) = false := by
    cases o with
    | none => rfl
    | some l => cases l <;> rfl
  have authors : ((filterToQueryParams f ch c).authors == some []) = false := by
    simp only [filterToQueryParams]
    match f.filter.authors with
    | none => rfl
    | some [] => rfl
    | some [author] => rfl
    | some (author :: other :: rest) => rfl
  simp only [EventQuery.matchesNothing, authors, Bool.or_eq_true, Bool.or_false]
  simp [filterToQueryParams, filled]

theorem fieldWhere_iff (c : CommunityId) (ch : Option Uuid) :
    ((filterToQueryParams f ch c).fieldWhere r = true ∧
      (filterToQueryParams f ch c).until_.all (fun u => r.createdAt ≤ u) = true) ↔
      r.communityId = c ∧ r.deleted = false ∧ Selects f r := by
  have authors := authors_clause (f := f) (r := r) c ch
  have p := p_clause (f := f) (r := r) c ch
  have d := d_clause (f := f) (r := r) c ch
  have ids : (filterToQueryParams f ch c).ids.all (fun ids => ids.contains r.event.id) = true ↔
      ∀ ids ∈ f.filter.ids, ids ≠ [] → r.event.id ∈ ids := by
    simp only [filterToQueryParams, nonEmpty_all, List.contains_iff_mem]
  have e : (filterToQueryParams f ch c).eTags.all
        (fun es => es.any (tagsContain r.event.tags "e" ·)) = true ↔
      ∀ values ∈ f.get .e, values ≠ [] →
        ∃ value ∈ values, tagsContain r.event.tags "e" value = true := by
    simp only [filterToQueryParams, nonEmpty_all, List.any_eq_true]
  have since : (filterToQueryParams f ch c).since.all (fun s => s ≤ r.createdAt) = true ↔
      ∀ s ∈ f.filter.since, ∀ t ∈ fromTimestamp (asI64 s), t ≤ r.createdAt := by
    simp only [filterToQueryParams, bind_all, decide_eq_true_eq]
  have until_ : (filterToQueryParams f ch c).until_.all (fun u => r.createdAt ≤ u) = true ↔
      ∀ u ∈ f.filter.until_, ∀ t ∈ fromTimestamp (asI64 u), r.createdAt ≤ t := by
    simp only [filterToQueryParams, bind_all, decide_eq_true_eq]
  have kinds : (filterToQueryParams f ch c).kinds.all (fun ks => ks.contains r.event.kind) = true ↔
      ∀ ks ∈ f.filter.kinds, r.event.kind ∈ ks := by
    simp only [filterToQueryParams, all_iff, List.contains_iff_mem]
  have community : (filterToQueryParams f ch c).communityId = c := rfl
  simp only [EventQuery.fieldWhere, Bool.and_eq_true, p, d, ids, e, since, until_, kinds, community,
    beq_iff_eq, Bool.not_eq_true']
  constructor
  · rintro ⟨⟨⟨⟨⟨⟨⟨⟨⟨⟨own, live⟩, p⟩, kinds⟩, pk⟩, as⟩, ids⟩, e⟩, since⟩, d⟩, until_⟩
    exact ⟨own, live, kinds, authors.mp ⟨pk, as⟩, ids, since, until_, e, p, d⟩
  · rintro ⟨own, live, selects⟩
    obtain ⟨pk, as⟩ := authors.mpr selects.authors
    exact ⟨⟨⟨⟨⟨⟨⟨⟨⟨⟨own, live⟩, selects.p⟩, selects.kinds⟩, pk⟩, as⟩, selects.ids⟩, selects.e⟩,
      selects.since⟩, selects.d⟩, selects.until_⟩

/-- The query of a filter, up to its channels, its gate and its page. -/
structure FromFilter (f : ReqFilter) (c : CommunityId) (q : EventQuery) : Prop where
  fields : ∀ r, q.fieldWhere r = (filterToQueryParams f none c).fieldWhere r
  until_ : q.until_ = (filterToQueryParams f none c).until_
  nothing : q.matchesNothing = (filterToQueryParams f none c).matchesNothing
  cursor : q.beforeId = none
  offset : q.offset = none
  globalOnly : q.globalOnly = false

namespace FromFilter

variable {c : CommunityId} {q : EventQuery}

theorem filterToQueryParams (f : ReqFilter) (ch : Option Uuid) (c : CommunityId) :
    FromFilter f c (filterToQueryParams f ch c) :=
  ⟨fun _ => rfl, rfl, rfl, rfl, rfl, rfl⟩

theorem applyChannelScopeToQuery (from_ : FromFilter f c q) (ch : Option Uuid)
    (accessible : List Uuid) : FromFilter f c (applyChannelScopeToQuery q f ch accessible) := by
  unfold Relay.applyChannelScopeToQuery
  split
  · exact from_
  · split <;> exact ⟨from_.fields, from_.until_, from_.nothing, from_.cursor, from_.offset,
      from_.globalOnly⟩

theorem setSharedGatedReader (from_ : FromFilter f c q) (reader : PublicKey) :
    FromFilter f c (setSharedGatedReader f reader q) := by
  unfold Relay.setSharedGatedReader
  split
  · exact ⟨from_.fields, from_.until_, from_.nothing, from_.cursor, from_.offset,
      from_.globalOnly⟩
  · exact from_

theorem countWhere_iff (from_ : FromFilter f c q) :
    q.countWhere r = true ↔ r.communityId = c ∧ r.deleted = false ∧
      q.channelClause r.channelId = true ∧ Selects f r := by
  have fields := fieldWhere_iff (f := f) (r := r) c none
  simp only [EventQuery.countWhere, Bool.and_eq_true, from_.fields, from_.until_]
  rw [and_assoc, fields]
  tauto

theorem queryWhere_iff (from_ : FromFilter f c q) :
    q.queryWhere r = true ↔ q.countWhere r = true ∧ q.sharedClause r = true := by
  simp [EventQuery.queryWhere, EventQuery.countWhere, EventQuery.untilClause, from_.cursor]

/-- The early return for an empty list only spares a query without rows. -/
theorem countedOn_eq (from_ : FromFilter f c q) (rows : List Row) :
    countedOn rows q = rows.filter q.countWhere := by
  unfold countedOn
  split
  next nothing =>
    rw [from_.nothing, matchesNothing_iff] at nothing
    symm
    apply List.filter_eq_nil_iff.mpr
    intro r _ counted
    have selects := (from_.countWhere_iff.mp counted).2.2.2
    simpa using selects.kinds [] nothing
  next => rfl

/-- A query without a cursor is a page of the rows that its clause admits. -/
theorem queryEventsOn_eq (from_ : FromFilter f c q) (rows : List Row) (page : 0 ≤ q.limitVal) :
    queryEventsOn rows q =
      .ok ((sortBy pageOrder (rows.filter q.queryWhere)).take q.limitVal.toNat) := by
  have first : ¬ (q.beforeId.isSome = true ∧ q.until_ = none) := by simp [from_.cursor]
  have second : ¬ (q.globalOnly = true ∧ q.channelId.isSome = true) := by simp [from_.globalOnly]
  by_cases nothing : q.matchesNothing = true
  · have empty : rows.filter q.queryWhere = [] := by
      apply List.filter_eq_nil_iff.mpr
      intro r _ queried
      have selects := (from_.countWhere_iff.mp (from_.queryWhere_iff.mp queried).1).2.2.2
      rw [from_.nothing, matchesNothing_iff] at nothing
      simpa using selects.kinds [] nothing
    have sorted : sortBy pageOrder ([] : List Row) = [] := rfl
    simp only [queryEventsOn, ensure, first, second, not_false_eq_true, if_true, nothing, empty,
      sorted, List.take_nil]
    rfl
  · simp only [queryEventsOn, ensure, first, second, not_false_eq_true, if_true, nothing, page,
      from_.offset, Option.getD_none, List.drop_zero]
    rfl

end FromFilter

end Clauses

/-! ### The shared gate -/

theorem sharedClause_of_visible {q : EventQuery} {reader : PublicKey}
    (visible : eventVisibleToReader r.event reader = true)
    (gate : ∀ other ∈ q.sharedGatedReader, other = reader) : q.sharedClause r = true := by
  unfold EventQuery.sharedClause
  cases gated : q.sharedGatedReader with
  | none => rfl
  | some other =>
    obtain rfl := gate other gated
    simp only [Option.all_some]
    by_cases kind : sharedGatedKinds.contains r.event.kind = true
    · by_cases own : r.event.pubkey = other
      · simp [own]
      · have shared : eventIsShared r.event = true := by
          simp only [eventVisibleToReader, isUnsharedGatedEvent, kind, Bool.and_eq_true] at visible
          simpa [own] using visible.1.2
        have contains : tagsContain r.event.tags "shared" "true" = true := by
          simp only [eventIsShared, Bool.and_eq_true, beq_iff_eq] at shared
          obtain ⟨t, single⟩ := List.length_eq_one_iff.mp shared.2
          have member : t ∈ r.event.tags.filter fun t => Tag.kind t = some "shared" := by
            simp [single]
          have exact_ : t = ["shared", "true"] := by
            simpa using List.all_eq_true.mp shared.1 t member
          apply List.any_eq_true.mpr
          exact ⟨t, (List.mem_filter.mp member).1, by simp [exact_]⟩
        simp [contains]
    · have free : r.event.kind ∉ sharedGatedKinds := by simpa using kind
      simp [free]

/-! ### Where they part -/

/-- The ways in which a row that satisfies the clauses fails to match the filter. -/
inductive Misread (f : ReqFilter) (r : Row) : Prop where
  /-- `authors: []` and `ids: []` are matched by no event and leave no clause. -/
  | noAuthors (empty : f.filter.authors = some [])
  | noIds (empty : f.filter.ids = some [])
  /-- No stored event is that late, but the instant is dropped or read as a negative one. -/
  | lateSince (since : Timestamp) (constrained : f.filter.since = some since)
      (late : maxSecs < since)
  /-- A tag without values is matched by no event and leaves no clause. -/
  | noValues (key : SingleLetterTag) (empty : f.get key = some [])
  /-- A value stands beside an `"e"` in some tag, but in no `e` tag is it the second string. -/
  | otherPosition (values : List String) (constrained : f.get .e = some values)
      (unmatched : tagMatches "e" values r.event = false)
  /-- The key is mentioned in another letter case only. -/
  | otherCase (value : String) (constrained : f.get .p = some [value])
      (unmatched : tagMatches "p" [value] r.event = false)
  /-- The column of an event without a `d` tag is the empty text. -/
  | noDTag (values : List String) (constrained : f.get .d = some values) (empty : "" ∈ values)
      (absent : r.event.tags.findSome? (tagValue "d") = none)
  /-- The channel is named by another text than the event's own `h` tags, or than the canonical
  one if it has none. -/
  | otherChannelText (values : List String) (constrained : f.get .h = some values)
      (unmatched : genericTagMatches .h values r.stored = false)

/-- What the filter asks for is not in the columns and rows that the clauses look at. -/
inductive Unindexed (f : ReqFilter) (r : Row) : Prop where
  /-- Only texts of sixty-four hex digits are mentioned, and only if their insert succeeded. -/
  | notMentioned (value : String) (constrained : f.get .p = some [value])
      (absent : isHexPubkey value = false ∨ r.mentioned = false)
  /-- Only the first `d` tag is in the column. -/
  | laterDTag (nip33 : filterIsNip33Only f = true) (values : List String)
      (constrained : f.get .d = some values) (first : String)
      (column : r.event.tags.findSome? (tagValue "d") = some first) (other : first ∉ values)

/-- The ways in which a row that matches the filter fails to satisfy the clauses. -/
inductive Missed (f : ReqFilter) (r : Row) : Prop where
  /-- The instant is read as one before the epoch. -/
  | wrappedUntil (until_ : Timestamp) (constrained : f.filter.until_ = some until_)
      (wrapped : 2 ^ 64 + minSecs ≤ until_)
  | unindexed (lost : Unindexed f r)

section Tags

private theorem genericTagMatches_iff {key : SingleLetterTag} {values : List String}
    (notH : key ≠ .h) :
    genericTagMatches key values r.stored = tagMatches key.toString values r.event := by
  have name : key.toString ≠ "h" := fun same =>
    notH (SingleLetterTag.toString_injective (same.trans SingleLetterTag.h_toString.symm))
  simp [genericTagMatches, name]

theorem tagValue_eq_some {name value : String} {t : Tag} :
    tagValue name t = some value ↔ Tag.kind t = some name ∧ Tag.content t = some value := by
  unfold tagValue
  split <;> simp_all

theorem tagMatches_iff_tagValue {name : String} {values : List String} {event : Event} :
    tagMatches name values event = true ↔
      ∃ value ∈ values, ∃ t ∈ event.tags, tagValue name t = some value := by
  simp only [tagMatches_iff, tagValue_eq_some]

/-- What an `e` tag carries, its containment finds. -/
private theorem tagsContain_of_tagValue {value : String} {t : Tag} (member : t ∈ r.event.tags)
    (carries : tagValue "e" t = some value) : tagsContain r.event.tags "e" value = true := by
  obtain ⟨kind, content⟩ := tagValue_eq_some.mp carries
  apply List.any_eq_true.mpr
  refine ⟨t, member, ?_⟩
  have name : "e" ∈ t := List.mem_of_mem_head? kind
  have second : value ∈ t := List.mem_of_getElem? content
  simp [name, second]

private theorem genericTagMatches_nil (key : SingleLetterTag) :
    genericTagMatches key [] r.stored = false := by
  have none_ : tagMatches key.toString [] r.stored.event = false := rfl
  unfold genericTagMatches
  rw [if_neg (by rw [none_]; exact Bool.false_ne_true)]
  split
  · split
    · rfl
    · split <;> rfl
  · rfl

theorem tagMatches_of_reads {key : SingleLetterTag} {values : List String}
    (reads : Reads f r) (constrained : f.get key = some values) (notH : key ≠ .h) :
    tagMatches key.toString values r.event = true := by
  have named : genericTagMatches key values r.stored = tagMatches key.toString values r.event :=
    genericTagMatches_iff notH
  rw [← named]
  exact reads.tags (key, values) (ReqFilter.get_eq_some.mp constrained)

end Tags

/-- One entry of the filter's tags that a selected row does not match. -/
private theorem misread_of_tag {entry : SingleLetterTag × List String}
    (pushable : filterFullyPushable f = true) (selects : Selects f r)
    (member : entry ∈ f.filter.genericTags)
    (unmatched : genericTagMatches entry.1 entry.2 r.stored = false) : Misread f r := by
  obtain ⟨key, values⟩ := entry
  have constrained : f.get key = some values := ReqFilter.get_eq_some.mpr member
  by_cases empty : values = []
  · exact .noValues key (empty ▸ constrained)
  have pushed := (Bool.and_eq_true _ _).mp pushable |>.1
  have shape := List.all_eq_true.mp pushed (key, values) member
  by_cases isH : key = .h
  · subst isH
    exact .otherChannelText values constrained unmatched
  rw [genericTagMatches_iff isH] at unmatched
  by_cases isP : key = .p
  · subst isP
    obtain ⟨value, rfl⟩ : ∃ value, values = [value] := by
      match values, empty with
      | [value], _ => exact ⟨value, rfl⟩
      | _ :: _ :: _, _ => simp at shape
    exact .otherCase value constrained unmatched
  by_cases isE : key = .e
  · subst isE
    exact .otherPosition values constrained unmatched
  by_cases isD : key = .d
  · subst isD
    have nip33 : filterIsNip33Only f = true := by simpa [empty] using shape
    obtain ⟨value, requested, column⟩ := selects.d nip33 values constrained empty
    cases first : r.event.tags.findSome? (tagValue "d") with
    | none =>
      -- no `d` tag, so the column holds the empty text
      have blank : value = "" := by
        simp only [Row.dTag, extractDTag, first] at column
        split at column <;> simp_all
      exact .noDTag values constrained (blank ▸ requested) first
    | some own =>
      -- the column is the value of a `d` tag, which the filter then matches
      have same : own = value := by
        simp only [Row.dTag, extractDTag, first] at column
        split at column <;> simp_all
      obtain ⟨t, tag, carries⟩ := List.exists_of_findSome?_eq_some first
      have matched : tagMatches "d" values r.event = true :=
        tagMatches_iff_tagValue.mpr ⟨value, requested, t, tag, same ▸ carries⟩
      simp [matched] at unmatched
  -- any other tag is pushable without values only
  have other : values.isEmpty = true := by
    have notH : key.toString ≠ "h" := fun same =>
      isH (SingleLetterTag.toString_injective same)
    have notP : key.toString ≠ "p" := fun same =>
      isP (SingleLetterTag.toString_injective same)
    have notE : key.toString ≠ "e" := fun same =>
      isE (SingleLetterTag.toString_injective same)
    have notD : key.toString ≠ "d" := fun same =>
      isD (SingleLetterTag.toString_injective same)
    simpa [notH, notP, notE, notD] using shape
  exact absurd (List.isEmpty_iff.mp other) empty

/-- On a filter that counts as fully pushable, a row that satisfies the clauses matches unless it
is misread. -/
theorem filterMatchOne_eq_false_iff (pushable : filterFullyPushable f = true)
    (selects : Selects f r) : filterMatchOne f.filter r.stored = false ↔ Misread f r := by
  rw [← Bool.not_eq_true, filterMatchOne_iff]
  constructor
  · intro rejected
    by_contra exact_
    apply rejected
    refine ⟨selects.kinds, ?_, ?_, ?_, ?_, ?_⟩
    · intro authors constrained
      by_cases empty : authors = []
      · exact absurd (.noAuthors (empty ▸ constrained)) exact_
      · exact selects.authors authors constrained empty
    · intro ids constrained
      by_cases empty : ids = []
      · exact absurd (.noIds (empty ▸ constrained)) exact_
      · exact selects.ids ids constrained empty
    · intro since constrained
      by_cases late : maxSecs < since
      · exact absurd (.lateSince since constrained late) exact_
      · have range := asI64_of_lt (n := since) (by unfold maxSecs at late; omega)
        have bound := selects.since since constrained since
          (fromTimestamp_eq_some.mpr ⟨range, by unfold minSecs; omega, by omega⟩)
        simpa [Row.createdAt] using bound
    · intro until_ constrained
      have stored := r.inRange
      by_cases late : maxSecs < until_
      · exact Int.ofNat_le.mp (by omega)
      · have range := asI64_of_lt (n := until_) (by unfold maxSecs at late; omega)
        have bound := selects.until_ until_ constrained until_
          (fromTimestamp_eq_some.mpr ⟨range, by unfold minSecs; omega, by omega⟩)
        simpa [Row.createdAt] using bound
    · intro entry member
      by_contra unmatched
      exact exact_ (misread_of_tag pushable selects member (by simpa using unmatched))
  · rintro misread reads
    cases misread with
    | noAuthors empty => simpa using reads.authors [] empty
    | noIds empty => simpa using reads.ids [] empty
    | lateSince since constrained late =>
      have early : (since : Int) ≤ r.event.createdAt := Int.ofNat_le.mpr (reads.since since constrained)
      have stored := r.inRange
      omega
    | noValues key empty =>
      have matched := reads.tags _ (ReqFilter.get_eq_some.mp empty)
      simp [genericTagMatches_nil] at matched
    | otherPosition values constrained unmatched =>
      have matched := tagMatches_of_reads reads constrained (by decide)
      simp [unmatched] at matched
    | otherCase value constrained unmatched =>
      have matched := tagMatches_of_reads reads constrained (by decide)
      simp [unmatched] at matched
    | noDTag values constrained empty absent =>
      have matched := tagMatches_of_reads reads constrained (by decide)
      obtain ⟨value, _, t, tag, carries⟩ := tagMatches_iff_tagValue.mp matched
      have nothing := List.findSome?_eq_none_iff.mp absent t tag
      simp_all
    | otherChannelText values constrained unmatched =>
      have matched := reads.tags _ (ReqFilter.get_eq_some.mp constrained)
      simp [unmatched] at matched


/-! ### Mention rows -/

section Mentions

private theorem toLower_of_ascii : ∀ n < 128,
    isAsciiHexDigit (Char.ofNat n).toLower = isAsciiHexDigit (Char.ofNat n) ∧
      (Char.ofNat n).toLower.utf8Size = (Char.ofNat n).utf8Size := by decide

private theorem toLower_hex (c : Char) :
    isAsciiHexDigit c.toLower = isAsciiHexDigit c ∧ c.toLower.utf8Size = c.utf8Size := by
  by_cases ascii : c.toNat < 128
  · rw [← Char.ofNat_toNat c]
    exact toLower_of_ascii c.toNat ascii
  · -- only ASCII letters have a lower case here
    have unchanged : c.toLower = c := by
      unfold Char.toLower
      split
      next upper =>
        have bound : c.toNat ≤ 90 := UInt32.le_iff_toNat_le.mp upper.2
        omega
      next => rfl
    rw [unchanged]
    exact ⟨rfl, rfl⟩

private theorem isHexPubkey_toAsciiLowercase (s : String) :
    isHexPubkey (toAsciiLowercase s) = isHexPubkey s := by
  have digits : (s.toList.map Char.toLower).all isAsciiHexDigit = s.toList.all isAsciiHexDigit := by
    rw [List.all_map]
    congr 1
    funext c
    exact (toLower_hex c).1
  have sizes : (s.toList.map Char.toLower).map Char.utf8Size = s.toList.map Char.utf8Size := by
    rw [List.map_map]
    apply List.map_congr_left
    intro c _
    exact (toLower_hex c).2
  simp only [isHexPubkey, toAsciiLowercase, byteLen, String.toList_ofList, digits, sizes]

/-- A key that a `p` tag carries is indexed unless it is malformed or its insert failed. -/
private theorem mem_mentions_iff {value : String}
    (carried : tagMatches "p" [value] r.event = true) :
    toAsciiLowercase value ∈ r.mentions ↔ isHexPubkey value = true ∧ r.mentioned = true := by
  obtain ⟨own, member, t, tag, carries⟩ := tagMatches_iff_tagValue.mp carried
  obtain rfl : own = value := by simpa using member
  unfold Row.mentions
  split
  next indexed =>
    simp only [mentionPubkeys, List.mem_map, List.mem_filter, List.mem_filterMap, indexed, and_true]
    constructor
    · rintro ⟨other, ⟨_, hex⟩, same⟩
      rw [← isHexPubkey_toAsciiLowercase, ← same, isHexPubkey_toAsciiLowercase]
      exact hex
    · intro hex
      exact ⟨own, ⟨⟨t, tag, carries⟩, hex⟩, rfl⟩
  next bare => simp [bare]

end Mentions

private theorem isParameterizedReplaceable_of_nip33 (nip33 : filterIsNip33Only f = true)
    (reads : Reads f r) : isParameterizedReplaceable r.event.kind = true := by
  obtain ⟨ks, constrained, all⟩ := (Option.any_eq_true _ _).mp nip33
  obtain ⟨-, replaceable⟩ := (Bool.and_eq_true _ _).mp all
  exact List.all_eq_true.mp replaceable _ (reads.kinds ks constrained)

private theorem not_unindexed_of_selects (reads : Reads f r) (selects : Selects f r) :
    ¬ Unindexed f r := by
  intro lost
  cases lost with
  | notMentioned value constrained absent =>
    have indexed := selects.p value constrained
    have carried := tagMatches_of_reads reads constrained (by decide)
    obtain ⟨hex, mentioned⟩ := (mem_mentions_iff carried).mp indexed
    simp [hex, mentioned] at absent
  | laterDTag nip33 values constrained first column other =>
    have carried := tagMatches_of_reads reads constrained (by decide)
    obtain ⟨value, requested, _⟩ := tagMatches_iff_tagValue.mp carried
    obtain ⟨value, requested, stored⟩ :=
      selects.d nip33 values constrained (List.ne_nil_of_mem requested)
    have same : first = value := by
      simp only [Row.dTag, extractDTag, column] at stored
      split at stored <;> simp_all
    exact other (same ▸ requested)

/-- A row that matches the filter satisfies the clauses unless it is missed. -/
theorem selects_iff (matched : filterMatchOne f.filter r.stored = true) :
    Selects f r ↔ ¬ Missed f r := by
  have reads := filterMatchOne_iff.mp matched
  constructor
  · rintro selects missed
    cases missed with
    | wrappedUntil until_ constrained wrapped =>
      have bound : (until_ : Int) < 2 ^ 64 := mod_cast f.until_lt until_ constrained
      have negative := asI64_of_le (n := until_) (by unfold minSecs at wrapped; omega) (by omega)
      have before := selects.until_ until_ constrained ((until_ : Int) - 2 ^ 64)
        (fromTimestamp_eq_some.mpr ⟨negative, by omega, by unfold maxSecs; omega⟩)
      have stored : 0 ≤ r.createdAt := Int.natCast_nonneg _
      omega
    | unindexed lost => exact not_unindexed_of_selects reads selects lost
  · intro found
    refine ⟨reads.kinds, fun authors constrained _ => reads.authors authors constrained,
      fun ids constrained _ => reads.ids ids constrained, ?_, ?_, ?_, ?_, ?_⟩
    · intro since constrained t instant
      obtain ⟨rfl, _, _⟩ := fromTimestamp_eq_some.mp instant
      have early : (since : Int) ≤ r.event.createdAt :=
        Int.ofNat_le.mpr (reads.since since constrained)
      have stored := r.inRange
      rw [asI64_of_lt (by unfold maxSecs at stored; omega)]
      exact early
    · intro until_ constrained t instant
      obtain ⟨same, low, high⟩ := fromTimestamp_eq_some.mp instant
      have late : (r.event.createdAt : Int) ≤ until_ :=
        Int.ofNat_le.mpr (reads.until_ until_ constrained)
      have bound : (until_ : Int) < 2 ^ 64 := mod_cast f.until_lt until_ constrained
      by_cases small : (until_ : Int) < 2 ^ 63
      · rw [asI64_of_lt (by omega)] at same
        rw [← same]
        exact late
      · rw [asI64_of_le (by omega) (by omega)] at same
        exact absurd (.wrappedUntil until_ constrained (by omega)) found
    · intro values constrained _
      have carried := tagMatches_of_reads reads constrained (by decide)
      obtain ⟨value, requested, t, tag, carries⟩ := tagMatches_iff_tagValue.mp carried
      exact ⟨value, requested, tagsContain_of_tagValue tag carries⟩
    · intro value constrained
      have carried := tagMatches_of_reads reads constrained (by decide)
      apply (mem_mentions_iff carried).mpr
      by_contra absent
      apply found
      refine .unindexed (.notMentioned value constrained ?_)
      rw [not_and_or] at absent
      simpa using absent
    · intro nip33 values constrained _
      have carried := tagMatches_of_reads reads constrained (by decide)
      obtain ⟨value, requested, t, tag, carries⟩ := tagMatches_iff_tagValue.mp carried
      obtain ⟨first, column⟩ : ∃ first, r.event.tags.findSome? (tagValue "d") = some first := by
        cases column : r.event.tags.findSome? (tagValue "d") with
        | none => simp [List.findSome?_eq_none_iff.mp column t tag] at carries
        | some first => exact ⟨first, rfl⟩
      have kind := isParameterizedReplaceable_of_nip33 nip33 reads
      refine ⟨first, ?_, by simp [Row.dTag, extractDTag, kind, column]⟩
      by_contra other
      exact found (.unindexed (.laterDTag nip33 values constrained first column other))

end Relay
