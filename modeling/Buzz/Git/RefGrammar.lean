import Buzz.Git.RefPattern
import Mathlib.Data.List.Forall2

/-!
# The grammar of ref patterns

What `RefPattern::parse` accepts and what `matches` lets pass, told without the parser: `IsPattern`
is the grammar, and `Covers` says which segments of a ref a pattern stands for.
-/
namespace Git

open Lib

namespace RefPattern

/-- A literal segment. -/
structure IsLiteral (part : String) : Prop where
  some : part ≠ ""
  safe : ∀ c ∈ part.toList, isAsciiAlphanumeric c ∨ c = '.' ∨ c = '_' ∨ c = '-'

/-- Literals and `*`, and at the end possibly `**`. -/
inductive IsSegments : List String → Prop where
  | nil : IsSegments []
  | recursive {part : String} (here : part = "**") : IsSegments [part]
  | wildcard {part : String} {rest : List String} (here : part = "*") (later : IsSegments rest) :
      IsSegments (part :: rest)
  | literal {part : String} {rest : List String} (here : IsLiteral part) (later : IsSegments rest) :
      IsSegments (part :: rest)

def wildcards (parts : List String) : Nat := parts.countP fun part => part = "*" ∨ part = "**"

structure IsPattern (s : String) : Prop where
  short : byteLen s ≤ 256
  refs : startsWith "refs/" s = true
  segments : IsSegments (segmentsOf s)
  few : wildcards (segmentsOf s) ≤ 3

/-- The segments of a pattern stand for the segments of a ref. -/
inductive Covers : List String → List String → Prop where
  | nil : Covers [] []
  | recursive {part : String} (here : part = "**") (segment : String) (rest : List String) :
      Covers [part] (segment :: rest)
  | wildcard {part : String} (here : part = "*") (segment : String) {parts segments : List String}
      (later : Covers parts segments) : Covers (part :: parts) (segment :: segments)
  | literal {part : String} (single : part ≠ "*") (simple : part ≠ "**")
      {parts segments : List String} (later : Covers parts segments) :
      Covers (part :: parts) (part :: segments)

/-! ### What the parser accepts -/

theorem IsLiteral.not_mem {part : String} (literal : IsLiteral part) {c : Char}
    (special : c = '*' ∨ c = '?' ∨ c = '[' ∨ c = ']') : c ∉ part.toList := by
  intro member
  have safe := literal.safe c member
  rcases special with rfl | rfl | rfl | rfl <;> revert safe <;> decide

theorem IsLiteral.ne {part : String} (literal : IsLiteral part) : part ≠ "*" ∧ part ≠ "**" := by
  refine ⟨?_, ?_⟩ <;> rintro rfl <;> exact literal.not_mem (.inl rfl) (by decide)

private theorem isLiteral_iff {part : String} : IsLiteral part ↔ part ≠ "" ∧
    (part.toList.any fun c => c == '*' || c == '?' || c == '[' || c == ']') = false ∧
    (part.toList.all fun c => isAsciiAlphanumeric c || c == '.' || c == '_' || c == '-') = true := by
  constructor
  · intro literal
    refine ⟨literal.some, ?_, ?_⟩
    · rw [List.any_eq_false]
      intro c member special
      refine literal.not_mem ?_ member
      simpa [or_assoc] using special
    · rw [List.all_eq_true]
      intro c member
      simpa [or_assoc] using literal.safe c member
  · rintro ⟨some, -, safe⟩
    refine ⟨some, fun c member => ?_⟩
    simpa [or_assoc] using List.all_eq_true.mp safe c member

private theorem map_eq_ok {result : Except PatternError (List PatternSegment)}
    {segment : PatternSegment} {segments : List PatternSegment}
    (read : result.map (segment :: ·) = .ok segments) :
    ∃ rest, result = .ok rest ∧ segments = segment :: rest := by
  cases result with
  | error e => cases read
  | ok rest =>
    cases read
    exact ⟨rest, rfl, rfl⟩

private theorem map_isOk {result : Except PatternError (List PatternSegment)}
    {segment : PatternSegment} :
    (∃ segments, result.map (segment :: ·) = .ok segments) ↔ ∃ segments, result = .ok segments := by
  cases result with
  | error e => simp [Except.map]
  | ok rest => simp [Except.map]

private theorem isSegments_wildcard {rest : List String} :
    IsSegments ("*" :: rest) ↔ IsSegments rest := by
  refine ⟨fun segments => ?_, .wildcard rfl⟩
  cases segments with
  | recursive here => exact absurd here (by decide)
  | wildcard _ later => exact later
  | literal here _ => exact absurd rfl here.ne.1

private theorem isSegments_recursive {rest : List String} :
    IsSegments ("**" :: rest) ↔ rest = [] := by
  refine ⟨fun segments => ?_, fun last => last ▸ .recursive rfl⟩
  cases segments with
  | recursive _ => rfl
  | wildcard here _ => exact absurd here (by decide)
  | literal here _ => exact absurd rfl here.ne.2

private theorem isSegments_literal {part : String} {rest : List String} (single : part ≠ "*")
    (simple : part ≠ "**") : IsSegments (part :: rest) ↔ IsLiteral part ∧ IsSegments rest := by
  refine ⟨fun segments => ?_, fun ⟨here, later⟩ => .literal here later⟩
  cases segments with
  | recursive here => exact absurd here simple
  | wildcard here _ => exact absurd here single
  | literal here later => exact ⟨here, later⟩

theorem parseSegments_isOk_iff {counted : Nat} (within : counted ≤ 3) (parts : List String) :
    (∃ segments, parseSegments counted parts = .ok segments) ↔
      IsSegments parts ∧ counted + wildcards parts ≤ 3 := by
  -- On the segments, with the wildcards counted so far; the cases are those of the parser.
  induction parts generalizing counted with
  | nil =>
    refine ⟨fun _ => ⟨.nil, within⟩, fun _ => ⟨[], rfl⟩⟩
  | cons part rest ih =>
    have three : maxWildcardsPerPattern = 3 := rfl
    unfold parseSegments
    by_cases recursive : part = "**"
    · subst recursive
      have count : wildcards ("**" :: rest) = wildcards rest + 1 := by simp [wildcards]
      rw [if_pos rfl, isSegments_recursive, count]
      -- `**` ends the pattern, so the rest has to be empty.
      by_cases last : rest = []
      · rw [if_neg (not_not.mpr last)]
        subst last
        by_cases room : counted + 1 > maxWildcardsPerPattern
        · rw [if_pos room]
          simp [wildcards]
          omega
        · rw [if_neg room, map_isOk, ih (by omega)]
          simp [wildcards, IsSegments.nil]
      · simp [last]
    · rw [if_neg recursive]
      by_cases wildcard : part = "*"
      · subst wildcard
        have count : wildcards ("*" :: rest) = wildcards rest + 1 := by simp [wildcards]
        rw [if_pos rfl, isSegments_wildcard, count]
        by_cases room : counted + 1 > maxWildcardsPerPattern
        · rw [if_pos room]
          simp only [reduceCtorEq, exists_false, false_iff, not_and]
          omega
        · rw [if_neg room, map_isOk, ih (by omega)]
          refine and_congr_right fun _ => ?_
          omega
      · have count : wildcards (part :: rest) = wildcards rest := by
          simp [wildcards, wildcard, recursive]
        rw [if_neg wildcard, isSegments_literal wildcard recursive, count, isLiteral_iff, and_assoc,
          and_assoc, and_assoc]
        -- A literal has to pass the three checks one after the other.
        split
        next empty => simp [empty]
        next some =>
          split
          next special => simp [special]
          next plain =>
            split
            next unsafeChar =>
              rw [Bool.not_eq_true'] at unsafeChar
              rw [unsafeChar]
              simp
            next safe =>
              rw [Bool.not_eq_true', Bool.not_eq_false] at safe
              rw [Bool.not_eq_true] at plain
              rw [map_isOk, ih within, plain, safe]
              simp [some]

theorem parse_isOk_iff (s : String) : (∃ p, parse s = .ok p) ↔ IsPattern s := by
  have none : 0 ≤ 3 := by decide
  have segments := parseSegments_isOk_iff none (segmentsOf s)
  have pattern : IsPattern s ↔ byteLen s ≤ 256 ∧ startsWith "refs/" s = true ∧
      IsSegments (segmentsOf s) ∧ wildcards (segmentsOf s) ≤ 3 :=
    ⟨fun ⟨short, refs, segments, few⟩ => ⟨short, refs, segments, few⟩,
      fun ⟨short, refs, segments, few⟩ => ⟨short, refs, segments, few⟩⟩
  rw [Nat.zero_add] at segments
  rw [pattern, ← segments]
  unfold parse
  split
  -- The empty text is refused first, and it does not start with `refs/` either.
  next empty =>
    subst empty
    simp [show startsWith "refs/" "" = false by decide]
  next =>
    split
    next long =>
      have long : ¬ byteLen s ≤ 256 := by unfold maxPatternLength at long; omega
      simp [long]
    next short =>
      have short : byteLen s ≤ 256 := by unfold maxPatternLength at short; omega
      split
      next other =>
        rw [Bool.not_eq_true'] at other
        simp [other]
      next refs =>
        rw [Bool.not_eq_true', Bool.not_eq_false] at refs
        split
        next e failed => simp [failed]
        next segments parsed => simp [short, refs, parsed]

/-! ### What the matcher lets pass -/

end RefPattern

/-- A segment as it is written. -/
def PatternSegment.text : PatternSegment → String
  | .literal text => text
  | .wildcard => "*"
  | .recursiveWildcard => "**"

/-- A segment that stands for one segment of a ref. -/
def PatternSegment.Fits : PatternSegment → String → Prop
  | .literal text, part => text = part
  | .wildcard, _ => True
  | .recursiveWildcard, _ => False

namespace RefPattern

theorem text_parseSegments {counted : Nat} {parts : List String} {segments : List PatternSegment}
    (parsed : parseSegments counted parts = .ok segments) :
    segments.map PatternSegment.text = parts ∧
      ∀ text, .literal text ∈ segments → text ≠ "*" ∧ text ≠ "**" := by
  induction parts generalizing counted segments with
  | nil =>
    cases parsed
    simp
  | cons part rest ih =>
    -- each branch that succeeds goes on with the other parts
    have add {segment : PatternSegment} {counted' : Nat} (here : segment.text = part)
        (literal : ∀ text, .literal text = segment → text ≠ "*" ∧ text ≠ "**")
        (read : (parseSegments counted' rest).map (segment :: ·) = .ok segments) :
        segments.map PatternSegment.text = part :: rest ∧
          ∀ text, .literal text ∈ segments → text ≠ "*" ∧ text ≠ "**" := by
      obtain ⟨later, readLater, rfl⟩ := map_eq_ok read
      obtain ⟨texts, literals⟩ := ih readLater
      refine ⟨by rw [List.map_cons, here, texts], fun text member => ?_⟩
      rcases List.mem_cons.mp member with same | behind
      · exact literal text same
      · exact literals text behind
    unfold parseSegments at parsed
    split at parsed
    next recursive =>
      split at parsed
      · cases parsed
      · split at parsed
        · cases parsed
        · have here : PatternSegment.recursiveWildcard.text = part := recursive.symm
          exact add here (fun _ same => by cases same) parsed
    next simple =>
      split at parsed
      next wildcard =>
        split at parsed
        · cases parsed
        · have here : PatternSegment.wildcard.text = part := wildcard.symm
          exact add here (fun _ same => by cases same) parsed
      next single =>
        split at parsed
        · cases parsed
        · split at parsed
          · cases parsed
          · split at parsed
            · cases parsed
            · have here : (PatternSegment.literal part).text = part := rfl
              refine add here (fun text same => ?_) parsed
              cases same
              exact ⟨single, simple⟩

theorem covers_nil_iff {segments : List String} : Covers [] segments ↔ segments = [] := by
  refine ⟨fun covers => ?_, fun none => none ▸ .nil⟩
  cases covers
  rfl

theorem covers_single_iff {parts segments : List String} :
    Covers ("*" :: parts) segments ↔ ∃ segment rest, segments = segment :: rest ∧
      Covers parts rest := by
  -- A variable in place of the text, so that the cases can be told apart.
  generalize first : "*" = part
  constructor
  · intro covers
    cases covers with
    | recursive here => exact absurd (first.trans here) (by decide)
    | wildcard _ segment later => exact ⟨segment, _, rfl, later⟩
    | literal single _ _ => exact absurd first.symm single
  · rintro ⟨segment, rest, rfl, later⟩
    exact .wildcard first.symm segment later

theorem covers_literal_iff {part : String} (single : part ≠ "*") (simple : part ≠ "**")
    {parts segments : List String} :
    Covers (part :: parts) segments ↔ ∃ rest, segments = part :: rest ∧ Covers parts rest := by
  constructor
  · intro covers
    cases covers with
    | recursive here => exact absurd here simple
    | wildcard here => exact absurd here single
    | literal _ _ later => exact ⟨_, rfl, later⟩
  · rintro ⟨rest, rfl, later⟩
    exact .literal single simple later

theorem covers_final_iff {segments : List String} : Covers ["**"] segments ↔ segments ≠ [] := by
  generalize first : "**" = part
  constructor
  · intro covers
    cases covers with
    | recursive _ segment rest => exact List.cons_ne_nil segment rest
    | wildcard here => exact absurd (first.trans here) (by decide)
    | literal _ simple _ => exact absurd first.symm simple
  · intro some
    obtain ⟨segment, rest, rfl⟩ := List.exists_cons_of_ne_nil some
    exact .recursive first.symm segment rest

theorem allMatch_zip {segments : List PatternSegment} {parts : List String}
    (reachable : .recursiveWildcard ∉ segments) (sameLength : parts.length = segments.length) :
    allMatch (segments.zip parts) = some true ↔ List.Forall₂ PatternSegment.Fits segments parts := by
  -- Side by side: the two lists have one length, and no `**` is met.
  induction segments generalizing parts with
  | nil =>
    rw [List.length_nil, List.length_eq_zero_iff] at sameLength
    simp [sameLength, allMatch]
  | cons segment rest ih =>
    cases parts with
    | nil => cases sameLength
    | cons part parts =>
      have tail := ih (fun member => reachable (List.mem_cons_of_mem _ member))
        (Nat.succ.inj sameLength)
      rw [List.zip_cons_cons, List.forall₂_cons, ← tail]
      cases segment with
      | literal text =>
        rw [allMatch, PatternSegment.Fits]
        by_cases same : text = part
        · simp [same]
        · simp [same]
      | wildcard => simp [allMatch, PatternSegment.Fits]
      | recursiveWildcard => exact absurd List.mem_cons_self reachable

/-- Without `**` a pattern stands for as many segments as it has. -/
theorem covers_iff_forall₂ {segments : List PatternSegment} {parts : List String}
    (reachable : .recursiveWildcard ∉ segments)
    (literals : ∀ text, .literal text ∈ segments → text ≠ "*" ∧ text ≠ "**") :
    Covers (segments.map PatternSegment.text) parts ↔
      List.Forall₂ PatternSegment.Fits segments parts := by
  -- On the pattern; a literal is none of the two wildcards.
  induction segments generalizing parts with
  | nil => rw [List.map_nil, List.forall₂_nil_left_iff, covers_nil_iff]
  | cons segment rest ih =>
    have tail (parts : List String) : Covers (rest.map PatternSegment.text) parts ↔
        List.Forall₂ PatternSegment.Fits rest parts :=
      ih (fun member => reachable (List.mem_cons_of_mem _ member))
        (fun text member => literals text (List.mem_cons_of_mem _ member))
    rw [List.map_cons, List.forall₂_cons_left_iff]
    cases segment with
    | recursiveWildcard => exact absurd List.mem_cons_self reachable
    | wildcard =>
      change Covers ("*" :: _) _ ↔ _
      rw [covers_single_iff]
      constructor
      · rintro ⟨part, later, rfl, covers⟩
        exact ⟨part, later, trivial, (tail _).mp covers, rfl⟩
      · rintro ⟨part, later, -, fits, rfl⟩
        exact ⟨part, later, rfl, (tail _).mpr fits⟩
    | literal text =>
      obtain ⟨single, simple⟩ := literals text List.mem_cons_self
      change Covers (text :: _) _ ↔ _
      rw [covers_literal_iff single simple]
      constructor
      · rintro ⟨later, rfl, covers⟩
        exact ⟨text, later, rfl, (tail _).mp covers, rfl⟩
      · rintro ⟨part, later, rfl, fits, rfl⟩
        exact ⟨later, rfl, (tail _).mpr fits⟩

/-- A final `**` stands for all segments that are left, of which there is at least one. -/
theorem covers_recursive_iff {front : List PatternSegment} {parts : List String}
    (reachable : .recursiveWildcard ∉ front)
    (literals : ∀ text, .literal text ∈ front → text ≠ "*" ∧ text ≠ "**") :
    Covers (front.map PatternSegment.text ++ ["**"]) parts ↔
      front.length < parts.length ∧
        List.Forall₂ PatternSegment.Fits front (parts.take front.length) := by
  -- On the segments in front of `**`, each of which takes one segment of the ref.
  induction front generalizing parts with
  | nil =>
    rw [List.map_nil, List.nil_append, covers_final_iff]
    simp [List.length_pos_iff]
  | cons segment rest ih =>
    have tail (parts : List String) : Covers (rest.map PatternSegment.text ++ ["**"]) parts ↔
        rest.length < parts.length ∧
          List.Forall₂ PatternSegment.Fits rest (parts.take rest.length) :=
      ih (fun member => reachable (List.mem_cons_of_mem _ member))
        (fun text member => literals text (List.mem_cons_of_mem _ member))
    rw [List.map_cons, List.cons_append]
    cases segment with
    | recursiveWildcard => exact absurd List.mem_cons_self reachable
    | wildcard =>
      change Covers ("*" :: _) _ ↔ _
      rw [covers_single_iff]
      constructor
      · rintro ⟨part, later, rfl, covers⟩
        obtain ⟨longer, fits⟩ := (tail _).mp covers
        exact ⟨Nat.succ_lt_succ longer, .cons trivial fits⟩
      · rintro ⟨longer, fits⟩
        obtain ⟨part, later, rfl⟩ := List.exists_cons_of_length_pos (Nat.zero_lt_of_lt longer)
        rw [List.length_cons, List.take_succ_cons, List.forall₂_cons] at fits
        exact ⟨part, later, rfl, (tail _).mpr ⟨Nat.lt_of_succ_lt_succ longer, fits.2⟩⟩
    | literal text =>
      obtain ⟨single, simple⟩ := literals text List.mem_cons_self
      change Covers (text :: _) _ ↔ _
      rw [covers_literal_iff single simple]
      constructor
      · rintro ⟨later, rfl, covers⟩
        obtain ⟨longer, fits⟩ := (tail _).mp covers
        exact ⟨Nat.succ_lt_succ longer, .cons rfl fits⟩
      · rintro ⟨longer, fits⟩
        obtain ⟨part, later, rfl⟩ := List.exists_cons_of_length_pos (Nat.zero_lt_of_lt longer)
        rw [List.length_cons, List.take_succ_cons, List.forall₂_cons] at fits
        obtain ⟨rfl, fits⟩ := fits
        exact ⟨later, rfl, (tail _).mpr ⟨Nat.lt_of_succ_lt_succ longer, fits⟩⟩

theorem matchSegments_iff (p : RefPattern)
    (literals : ∀ text, .literal text ∈ p.segments → text ≠ "*" ∧ text ≠ "**")
    (parts : List String) :
    p.matchSegments parts = some true ↔ Covers (p.segments.map PatternSegment.text) parts := by
  unfold matchSegments
  split
  next recursive =>
    -- With `**` at the end the rest of the pattern has none.
    obtain ⟨front, all⟩ := List.getLast?_eq_some_iff.mp recursive
    have reachable : .recursiveWildcard ∉ front := by
      have last := p.recursiveLast
      rwa [all, List.dropLast_concat] at last
    have inFront : ∀ text, .literal text ∈ front → text ≠ "*" ∧ text ≠ "**" :=
      fun text member => literals text (all ▸ List.mem_append_left _ member)
    have length : p.segments.length - 1 = front.length := by simp [all]
    rw [length, all, List.map_append]
    change _ ↔ Covers (front.map PatternSegment.text ++ ["**"]) parts
    rw [covers_recursive_iff reachable inFront]
    dsimp only
    split
    next short => simp [Nat.not_lt.mpr short]
    next enough =>
      have enough := Nat.lt_of_not_le enough
      rw [List.take_left, allMatch_zip reachable (by simp; omega)]
      simp [enough]
  next simple =>
    -- `**` stands only at the end, and it does not stand there.
    have reachable : .recursiveWildcard ∉ p.segments := by
      intro member
      have last := p.recursiveLast
      rcases List.eq_nil_or_concat p.segments with none | ⟨front, final, all⟩
      · rw [none] at member
        cases member
      · rw [all, List.concat_eq_append] at member last simple
        rw [List.dropLast_concat] at last
        rcases List.mem_append.mp member with inside | same
        · exact last inside
        · exact simple (by rw [← List.mem_singleton.mp same, List.getLast?_concat])
    rw [covers_iff_forall₂ reachable literals]
    split
    next different =>
      simp only [reduceCtorEq, Option.some.injEq, false_iff]
      exact fun fits => different fits.length_eq.symm
    next same => exact allMatch_zip reachable (not_not.mp same)

/-- The parser accepts the grammar, and the matcher gives every accepted pattern its meaning. -/
theorem parse_matches_exact (s : String) :
    ((∃ p, parse s = .ok p) ↔ IsPattern s) ∧
      ∀ p, parse s = .ok p → ∀ refName,
        (p.matchSegments (segmentsOf refName)).isSome = true ∧
          (p.matchesRef refName = true ↔ Covers (segmentsOf s) (segmentsOf refName)) := by
  refine ⟨parse_isOk_iff s, fun p parsed refName => ⟨p.isSome_matchSegments _, ?_⟩⟩
  -- The segments of an accepted pattern were read from its text.
  obtain ⟨segments, read, same⟩ : ∃ segments, parseSegments 0 (segmentsOf s) = .ok segments ∧
      p.segments = segments := by
    unfold parse at parsed
    split at parsed
    · cases parsed
    · split at parsed
      · cases parsed
      · split at parsed
        · cases parsed
        · split at parsed
          next => cases parsed
          next segments read =>
            cases parsed
            exact ⟨segments, read, rfl⟩
  obtain ⟨texts, literals⟩ := text_parseSegments read
  rw [← texts, ← same, ← matchSegments_iff p (same ▸ literals)]
  unfold matchesRef
  rw [← Option.some_inj, Option.some_get]

end RefPattern

end Git
