import Buzz.Nostr.Event

/-!
# NIP-01 filters

Filters are OR-ed and the fields of one filter are AND-ed. The sets of a filter
are lists; its generic tags are the entries of a map from single-letter tags to
value sets. `#h` falls back to the stored channel for an event without `h`
tags.
-/
namespace Nostr

/-- A tag name of one ASCII letter, in either case. -/
structure SingleLetterTag where
  letter : Char
  isAlpha : letter.isAlpha = true
deriving DecidableEq

namespace SingleLetterTag

def toString (t : SingleLetterTag) : String := String.singleton t.letter

/-- `SingleLetterTag::lowercase(Alphabet::P)`. -/
def p : SingleLetterTag := ⟨'p', by decide⟩

@[simp] theorem p_toString : p.toString = "p" := rfl

end SingleLetterTag

structure Filter where
  ids : Option (List EventId) := none
  authors : Option (List PublicKey) := none
  kinds : Option (List Kind) := none
  since : Option Timestamp := none
  until_ : Option Timestamp := none
  genericTags : List (SingleLetterTag × List String) := []
deriving DecidableEq

/-- `starts_with` on the hex forms: both are 64 digits, so this is equality. -/
def hexStartsWith (id candidate : EventId) : Bool :=
  candidate.toHex.toList.isPrefixOf id.toHex.toList

/-- Some tag of the event with this name carries one of the values. -/
def tagMatches (name : String) (values : List String) (ev : Event) : Bool :=
  values.any fun value =>
    ((ev.tags.filter fun t => Tag.kind t = some name).filterMap Tag.content).any (· = value)

/-- The check `filter_match_one` makes for one entry of `generic_tags`. -/
def genericTagMatches (key : SingleLetterTag) (values : List String) (ev : StoredEvent) : Bool :=
  if tagMatches key.toString values ev.event then true
  else if key.toString = "h" then
    -- explicit h tags are authoritative; only without any does the channel count
    if ev.event.tags.any fun t => Tag.kind t = some "h" then false
    else match ev.channelId with
      | some channel => values.any (· = channel.toString)
      | none => false
  else false

def filterMatchOne (f : Filter) (ev : StoredEvent) : Bool :=
  (f.kinds.all fun kinds => ev.event.kind ∈ kinds) &&
  (f.authors.all fun authors => ev.event.pubkey ∈ authors) &&
  (f.since.all fun since => ¬ ev.event.createdAt < since) &&
  (f.until_.all fun until_ => ¬ ev.event.createdAt > until_) &&
  (f.ids.all fun ids => ids.any fun id => hexStartsWith ev.event.id id) &&
  f.genericTags.all fun entry => genericTagMatches entry.1 entry.2 ev

def filtersMatch (filters : List Filter) (ev : StoredEvent) : Bool :=
  filters.any fun f => filterMatchOne f ev

/-! ### What a match implies -/

theorem filtersMatch_iff (filters : List Filter) (ev : StoredEvent) :
    filtersMatch filters ev = true ↔ ∃ f ∈ filters, filterMatchOne f ev = true := by
  simp [filtersMatch, List.any_eq_true]

theorem kind_mem_of_match {f : Filter} {ev : StoredEvent} {kinds : List Kind}
    (matched : filterMatchOne f ev = true) (constrained : f.kinds = some kinds) :
    ev.event.kind ∈ kinds := by
  simp only [filterMatchOne, Bool.and_eq_true] at matched
  simpa [constrained] using matched.1.1.1.1.1

theorem genericTag_of_match {f : Filter} {ev : StoredEvent} {key : SingleLetterTag}
    {values : List String} (matched : filterMatchOne f ev = true)
    (constrained : (key, values) ∈ f.genericTags) : genericTagMatches key values ev = true := by
  simp only [filterMatchOne, Bool.and_eq_true, List.all_eq_true] at matched
  exact matched.2 (key, values) constrained

theorem tagMatches_iff (name : String) (values : List String) (ev : Event) :
    tagMatches name values ev = true ↔
      ∃ value ∈ values, ∃ t ∈ ev.tags, Tag.kind t = some name ∧ Tag.content t = some value := by
  simp only [tagMatches, List.any_eq_true, List.mem_filterMap, List.mem_filter,
    decide_eq_true_eq, exists_eq_right, and_assoc]

end Nostr
