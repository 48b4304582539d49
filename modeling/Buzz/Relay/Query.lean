import Buzz.Db.Events

/-!
# From a filter to a query

The part of `handlers/req.rs` that REQ and COUNT share: the channels a filter names, the query
built from it, the gates on the filters of a request and the visibility of one event to one
reader. A filter's `#h` values are read in four places, each with its own treatment of malformed
and repeated values.
-/
namespace Nostr

/-! ### UUID texts -/

def hexValue (c : Char) : Option Nat :=
  if '0' ≤ c ∧ c ≤ '9' then some (c.toNat - '0'.toNat)
  else if 'a' ≤ c ∧ c ≤ 'f' then some (c.toNat - 'a'.toNat + 10)
  else if 'A' ≤ c ∧ c ≤ 'F' then some (c.toNat - 'A'.toNat + 10)
  else none

namespace Uuid

/-- Thirty-two hex digits in either case. -/
def parseSimple (digits : List Char) : Option Uuid := do
  guard (digits.length = 32)
  let values ← digits.mapM hexValue
  return ⟨BitVec.ofNat 128 (values.foldl (fun n v => 16 * n + v) 0)⟩

/-- The groups 8-4-4-4-12 with their hyphens. -/
def parseHyphenated (s : List Char) : Option Uuid := do
  guard (s.length = 36)
  guard (s[8]? = some '-' ∧ s[13]? = some '-' ∧ s[18]? = some '-' ∧ s[23]? = some '-')
  parseSimple (s.take 8 ++ (s.drop 9).take 4 ++ (s.drop 14).take 4 ++ (s.drop 19).take 4 ++
    s.drop 24)

/-- `Uuid::from_str`: plain digits, the hyphenated form, and that form in braces or as a URN. -/
def parse (text : String) : Option Uuid :=
  let s := text.toList
  if s.length = 32 then parseSimple s
  else if s.length = 38 ∧ s.head? = some '{' ∧ s.getLast? = some '}' then
    parseHyphenated s.tail.dropLast
  else if s.length = 45 ∧ "urn:uuid:".toList <+: s then parseHyphenated (s.drop 9)
  else parseHyphenated s

end Uuid

namespace SingleLetterTag

def h : SingleLetterTag := ⟨'h', by decide⟩
def e : SingleLetterTag := ⟨'e', by decide⟩
def d : SingleLetterTag := ⟨'d', by decide⟩

@[simp] theorem h_toString : h.toString = "h" := rfl
@[simp] theorem e_toString : e.toString = "e" := rfl
@[simp] theorem d_toString : d.toString = "d" := rfl

theorem toString_injective : Function.Injective toString := by
  rintro ⟨c, _⟩ ⟨c', _⟩ same
  have chars := congrArg String.toList same
  simp only [toString, String.toList_singleton, List.cons.injEq, and_true] at chars
  subst chars
  rfl

end SingleLetterTag

end Nostr

namespace Relay

open Lib Nostr Db

/-! ### Filters of a request -/

/-- A filter as a request carries it: its sets are `BTreeSet`s, its tags a map, its numbers
`u64`s. -/
structure ReqFilter where
  filter : Filter
  limit : Option Nat := none
  search : Option String := none
  keys_nodup : (filter.genericTags.map Prod.fst).Nodup := by decide
  values_nodup : ∀ entry ∈ filter.genericTags, entry.2.Nodup := by decide
  authors_nodup : ∀ authors ∈ filter.authors, authors.Nodup := by decide
  since_lt : ∀ since ∈ filter.since, since < 2 ^ 64 := by decide
  until_lt : ∀ until_ ∈ filter.until_, until_ < 2 ^ 64 := by decide
  limit_lt : ∀ l ∈ limit, l < 2 ^ 64 := by decide
deriving DecidableEq

theorem ReqFilter.unlimited : ∀ l ∈ (none : Option Nat), l < 2 ^ 64 := by simp

/-- `generic_tags.get(&key)`. -/
def ReqFilter.get (f : ReqFilter) (key : SingleLetterTag) : Option (List String) :=
  f.filter.genericTags.lookup key

private theorem lookup_eq_some {κ β : Type} [DecidableEq κ] {entries : List (κ × β)} {key : κ}
    {value : β} (nodup : (entries.map Prod.fst).Nodup) :
    entries.lookup key = some value ↔ (key, value) ∈ entries := by
  induction entries with
  | nil => simp
  | cons entry entries ih =>
    obtain ⟨fresh, rest⟩ := List.nodup_cons.mp nodup
    rw [List.lookup_cons, List.mem_cons]
    by_cases here : key = entry.1
    · -- no later entry has this key again
      have absent : (key, value) ∉ entries := fun later =>
        fresh (here ▸ List.mem_map_of_mem (f := Prod.fst) later)
      have same : (key == entry.1) = true := by simpa using here
      simp only [same, Option.some.injEq]
      constructor
      · rintro rfl
        exact Or.inl (Prod.ext here rfl)
      · rintro (rfl | later)
        · rfl
        · exact absurd later absent
    · have other : (key == entry.1) = false := by simpa using here
      simp only [other, ih rest]
      constructor
      · exact Or.inr
      · rintro (rfl | later)
        · exact absurd rfl here
        · exact later

theorem ReqFilter.get_eq_some {f : ReqFilter} {key : SingleLetterTag} {values : List String} :
    f.get key = some values ↔ (key, values) ∈ f.filter.genericTags :=
  lookup_eq_some f.keys_nodup

/-! ### Channels named by a filter -/

def maxExplicitChannelValues : Nat := 128

/-- The channel of a filter with a single `#h` value. -/
def extractChannelIdFromFilter (f : ReqFilter) : Option Uuid := do
  let values ← f.get .h
  guard (values.length = 1)
  Uuid.parse (← values.head?)

/-- The distinct channels of filters that all have `#h`; malformed values are dropped. -/
def extractChannelIdsFromFilters (filters : List ReqFilter) : Option (List Uuid) :=
  collectNew (fun f => (f.get .h).map (·.filterMap Uuid.parse)) filters

theorem extractChannelIds_single (f : ReqFilter) :
    extractChannelIdsFromFilters [f] =
      (f.get .h).map fun values => (values.filterMap Uuid.parse).foldl pushNew [] := by
  simp only [extractChannelIdsFromFilters, collectNew, List.foldlM_cons, List.foldlM_nil,
    Option.map_map]
  cases f.get .h <;> rfl

theorem mem_extractChannelIds {f : ReqFilter} {requested : List Uuid} {values : List String} {c : Uuid}
    (named : f.get .h = some values) (extracted : extractChannelIdsFromFilters [f] = some requested) :
    c ∈ requested ↔ c ∈ values.filterMap Uuid.parse := by
  rw [extractChannelIds_single, named] at extracted
  cases extracted
  simp [mem_foldl_pushNew]

/-- The budget counts every value, also malformed and repeated ones. -/
def extractChannelIdsFromFiltersLimited (filters : List ReqFilter) :
    Except Unit (Option (List Uuid)) := do
  ensure ((filters.map fun f => ((f.get .h).getD []).length).sum ≤ maxExplicitChannelValues) ()
  return extractChannelIdsFromFilters filters

/-- The channel of a subscription whose filters all name one and the same channel. -/
def extractChannelIdFromFilters (filters : List ReqFilter) : Option Uuid := do
  let channels := filters.map fun f => ((f.get .h).getD []).filterMap Uuid.parse
  guard (channels.all (· ≠ []))
  let first ← channels.flatten.head?
  guard (channels.flatten.all (· = first))
  return first

/-! ### The query of a filter -/

def filterIsNip33Only (f : ReqFilter) : Bool :=
  f.filter.kinds.any fun ks => ks ≠ [] && ks.all isParameterizedReplaceable

/-- `Some(values)` unless there are none. -/
def nonEmpty {α : Type} (values : Option (List α)) : Option (List α) :=
  values.filter (¬ ·.isEmpty)

def filterToQueryParams (f : ReqFilter) (channelId : Option Uuid) (community : CommunityId) :
    EventQuery where
  communityId := community
  channelId := channelId
  kinds := f.filter.kinds
  since := f.filter.since.bind fun s => fromTimestamp (asI64 s)
  until_ := f.filter.until_.bind fun u => fromTimestamp (asI64 u)
  limit := some ((f.limit.map fun l => min (asI64 l) defaultMaxPageLimit).getD defaultMaxPageLimit)
  pubkey := match f.filter.authors with
    | some [author] => some author
    | _ => none
  authors := match f.filter.authors with
    | some [_] => none
    | authors => nonEmpty authors
  ids := nonEmpty f.filter.ids
  eTags := nonEmpty (f.get .e)
  pTagHex := match f.get .p with
    | some [value] => some value
    | _ => none
  dTag := if filterIsNip33Only f then
      match f.get .d with
      | some [value] => some value
      | _ => none
    else none
  dTags := if filterIsNip33Only f then
      match f.get .d with
      | some [_] => none
      | values => nonEmpty values
    else none

def applyChannelScopeToQuery (q : EventQuery) (f : ReqFilter) (channelId : Option Uuid)
    (accessible : List Uuid) : EventQuery :=
  if channelId.isSome then q
  else match f.get .h with
    | some values =>
      { q with
        channelIds := some ((values.filterMap Uuid.parse).filter (accessible.contains ·))
        channelIdsIncludeGlobal := false }
    | none => { q with channelIds := some accessible }

@[simp] theorem sharedGatedReader_applyChannelScope (q : EventQuery) (f : ReqFilter)
    (channelId : Option Uuid) (accessible : List Uuid) :
    (applyChannelScopeToQuery q f channelId accessible).sharedGatedReader =
      q.sharedGatedReader := by
  unfold applyChannelScopeToQuery
  split
  · rfl
  · split <;> rfl

def buildEventQueryFromFilter (f : ReqFilter) (community : CommunityId) : EventQuery :=
  filterToQueryParams f (extractChannelIdFromFilter f) community

/-- Whether the SQL of the filter is meant to stand for the whole filter. -/
def filterFullyPushable (f : ReqFilter) : Bool :=
  (f.filter.genericTags.all fun entry =>
    match entry.1.toString with
    | "h" => true
    | "p" => entry.2.length ≤ 1
    | "d" => entry.2.isEmpty || filterIsNip33Only f
    | "e" => true
    | _ => entry.2.isEmpty) &&
  f.search.isNone

/-! ### Gates -/

def kindAgentEngram : Kind := 30174
def kindEventReminder : Kind := 30300
def kindPushLease : Kind := 30350
def kindPrivateManagedAgent : Kind := 30179
def kindDmVisibility : Kind := 30622
def kindAgentTurnMetric : Kind := 44200
def kindAgentObserverFrame : Kind := 24200
def kindMemberAddedNotification : Kind := 44100
def kindMemberRemovedNotification : Kind := 44101
def kindGiftWrap : Kind := 1059

def authorOnlyKinds : List Kind := [kindEventReminder, kindPushLease, kindPrivateManagedAgent]

def resultGatedKinds : List Kind := [kindDmVisibility, kindAgentTurnMetric]

def pGatedKinds : List Kind :=
  [kindAgentObserverFrame, kindMemberAddedNotification, kindMemberRemovedNotification,
    kindGiftWrap, kindDmVisibility, kindAgentTurnMetric]

/-- A filter without kinds matches every kind. -/
def filterCanMatchKinds (gated : List Kind) (f : ReqFilter) : Bool :=
  f.filter.kinds.all fun ks => ks.any (gated.contains ·)

def filterCanMatchAuthorOnlyKinds (f : ReqFilter) : Bool := filterCanMatchKinds authorOnlyKinds f

def filterCanMatchSharedGatedKinds (f : ReqFilter) : Bool := filterCanMatchKinds sharedGatedKinds f

def filterCanMatchResultGatedKinds (f : ReqFilter) : Bool := filterCanMatchKinds resultGatedKinds f

/-- `#p` is not empty and has no value but the reader's key. -/
def pIsSelf (f : ReqFilter) (reader : PublicKey) : Bool :=
  (f.get .p).any fun values => ¬ values.isEmpty && values.all (· == reader.toHex)

/-- `authors` is not empty and names nobody but the reader. Both hex forms are in lower case, so
`eq_ignore_ascii_case` is equality. -/
def authorIsSelf (f : ReqFilter) (reader : PublicKey) : Bool :=
  f.filter.authors.any fun authors => ¬ authors.isEmpty && authors.all (· == reader)

def resultGatedCountSafeForPushdown (f : ReqFilter) (reader : PublicKey) : Bool := pIsSelf f reader

def pGatedFiltersAuthorized (filters : List ReqFilter) (reader : PublicKey) : Bool :=
  filters.all fun f =>
    let explicitlyNoIdsExemption := f.filter.kinds.any fun ks =>
      ks.any fun k => k == kindDmVisibility || k == kindAgentTurnMetric
    !filterCanMatchKinds pGatedKinds f ||
      (!explicitlyNoIdsExemption && f.filter.ids.any (¬ ·.isEmpty)) || pIsSelf f reader

def engramFiltersAuthorized (filters : List ReqFilter) (reader : PublicKey) : Bool :=
  filters.all fun f =>
    f.filter.ids.any (¬ ·.isEmpty) || !filterCanMatchKinds [kindAgentEngram] f ||
      authorIsSelf f reader || pIsSelf f reader

def authorOnlyFiltersAuthorized (filters : List ReqFilter) (reader : PublicKey) : Bool :=
  filters.all fun f =>
    !(f.filter.kinds.any fun ks => ¬ ks.isEmpty && ks.all (authorOnlyKinds.contains ·)) ||
      authorIsSelf f reader

/-- `query.shared_gated_reader = Some(reader)` if the filter can match a shared-gated kind. -/
def setSharedGatedReader (f : ReqFilter) (reader : PublicKey) (q : EventQuery) : EventQuery :=
  if filterCanMatchSharedGatedKinds f then { q with sharedGatedReader := some reader } else q

@[simp] theorem channelClause_setSharedGatedReader (f : ReqFilter) (reader : PublicKey)
    (q : EventQuery) (channel : Option Uuid) :
    (setSharedGatedReader f reader q).channelClause channel = q.channelClause channel := by
  unfold setSharedGatedReader
  split <;> rfl

theorem eq_of_sharedGatedReader {f : ReqFilter} {reader other : PublicKey} {q : EventQuery}
    (ungated : q.sharedGatedReader = none)
    (gate : (setSharedGatedReader f reader q).sharedGatedReader = some other) :
    other = reader := by
  unfold setSharedGatedReader at gate
  split at gate
  · exact (Option.some.inj gate).symm
  · simp [ungated] at gate

/-! ### Visibility of one event -/

def isAuthorOnlyEvent (event : Event) (reader : PublicKey) : Bool :=
  authorOnlyKinds.contains event.kind && event.pubkey != reader

/-- Exactly one `shared` tag, and that is `["shared", "true"]`. -/
def eventIsShared (event : Event) : Bool :=
  let shared := event.tags.filter fun t => Tag.kind t = some "shared"
  shared.all (· == ["shared", "true"]) && shared.length == 1

def isUnsharedGatedEvent (event : Event) (reader : PublicKey) : Bool :=
  sharedGatedKinds.contains event.kind && event.pubkey != reader && !eventIsShared event

def readerAuthorizedForEvent (event : Event) (reader : PublicKey) : Bool :=
  !(event.kind == kindDmVisibility || event.kind == kindAgentTurnMetric) ||
    event.tags.any fun t => Tag.kind t = some "p" && Tag.content t == some reader.toHex

def eventVisibleToReader (event : Event) (reader : PublicKey) : Bool :=
  !isAuthorOnlyEvent event reader && !isUnsharedGatedEvent event reader &&
    readerAuthorizedForEvent event reader

end Relay
