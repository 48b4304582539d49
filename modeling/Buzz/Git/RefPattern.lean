import Buzz.Lib.Text

/-!
# Ref patterns

A validated pattern for git refs: literal segments, `*` for one segment, and a final
`**` for one or more. A `RefPattern` carries the fact that its recursive wildcard is last,
so the arms of the matcher that the source marks unreachable are not reached.
-/
namespace Git

open Lib

def maxPatternLength : Nat := 256
def maxWildcardsPerPattern : Nat := 3

/-- A single segment in a ref pattern. -/
inductive PatternSegment where
  | literal (text : String)
  | wildcard
  | recursiveWildcard
  deriving DecidableEq, Repr

inductive PatternError where
  | empty
  | tooLong
  | missingRefsPrefix
  | invalidSegment (segment : String)
  | tooManyWildcards
  deriving DecidableEq, Repr

/-- A validated ref pattern. -/
structure RefPattern where
  raw : String
  segments : List PatternSegment
  recursiveLast : .recursiveWildcard ∉ segments.dropLast
  deriving DecidableEq

namespace RefPattern

/-- `s.split('/')`. -/
def segmentsOf (s : String) : List String := (s.toList.splitOn '/').map String.ofList

/-- The segments of a pattern, from the parts that are left and the wildcards counted so far. -/
def parseSegments (wildcards : Nat) : List String → Except PatternError (List PatternSegment)
  | [] => .ok []
  | part :: rest =>
    if part = "**" then
      if rest ≠ [] then .error (.invalidSegment "** must be the last segment")
      else if wildcards + 1 > maxWildcardsPerPattern then .error .tooManyWildcards
      else (parseSegments (wildcards + 1) rest).map (.recursiveWildcard :: ·)
    else if part = "*" then
      if wildcards + 1 > maxWildcardsPerPattern then .error .tooManyWildcards
      else (parseSegments (wildcards + 1) rest).map (.wildcard :: ·)
    else if part = "" then .error (.invalidSegment "")
    else if part.toList.any fun c => c == '*' || c == '?' || c == '[' || c == ']' then
      -- Partial globs are not allowed.
      .error (.invalidSegment part)
    else if !part.toList.all fun c => isAsciiAlphanumeric c || c == '.' || c == '_' || c == '-' then
      .error (.invalidSegment part)
    else (parseSegments wildcards rest).map (.literal part :: ·)

private theorem map_cons_eq_ok {result : Except PatternError (List PatternSegment)}
    {segment : PatternSegment} {segments : List PatternSegment}
    (parsed : result.map (segment :: ·) = .ok segments) :
    ∃ rest, result = .ok rest ∧ segments = segment :: rest := by
  cases result with
  | error e => simp [Except.map] at parsed
  | ok rest => exact ⟨rest, rfl, by simpa [Except.map, eq_comm] using parsed⟩

theorem parseSegments_cons {wildcards : Nat} {part : String} {rest : List String}
    {segments : List PatternSegment}
    (parsed : parseSegments wildcards (part :: rest) = .ok segments) :
    ∃ segment wildcards' later, parseSegments wildcards' rest = .ok later ∧
      segments = segment :: later ∧ (segment = .recursiveWildcard → rest = []) := by
  unfold parseSegments at parsed
  split at parsed
  · split at parsed
    · cases parsed
    next last =>
      split at parsed
      · cases parsed
      · obtain ⟨later, read, same⟩ := map_cons_eq_ok parsed
        exact ⟨_, _, later, read, same, fun _ => not_not.mp last⟩
  · split at parsed
    · split at parsed
      · cases parsed
      · obtain ⟨later, read, same⟩ := map_cons_eq_ok parsed
        exact ⟨_, _, later, read, same, nofun⟩
    · split at parsed
      · cases parsed
      · split at parsed
        · cases parsed
        · split at parsed
          · cases parsed
          · obtain ⟨later, read, same⟩ := map_cons_eq_ok parsed
            exact ⟨_, _, later, read, same, nofun⟩

theorem recursiveLast_parseSegments {wildcards : Nat} {parts : List String}
    {segments : List PatternSegment} (parsed : parseSegments wildcards parts = .ok segments) :
    PatternSegment.recursiveWildcard ∉ segments.dropLast := by
  induction parts generalizing wildcards segments with
  | nil =>
    cases parsed
    simp
  | cons part rest ih =>
    obtain ⟨segment, wildcards', later, read, rfl, last⟩ := parseSegments_cons parsed
    have tail := ih read
    cases later with
    | nil => simp
    | cons next more =>
      rw [List.dropLast_cons_of_ne_nil (by simp), List.mem_cons, not_or]
      refine ⟨fun recursive => ?_, tail⟩
      -- A recursive wildcard leaves no parts, and no parts give no segments.
      rw [last recursive.symm] at read
      cases read

/-- Parse and validate a ref pattern string. -/
def parse (pattern : String) : Except PatternError RefPattern :=
  if pattern = "" then .error .empty
  else if byteLen pattern > maxPatternLength then .error .tooLong
  else if !startsWith "refs/" pattern then .error .missingRefsPrefix
  else
    match parsed : parseSegments 0 (segmentsOf pattern) with
    | .error e => .error e
    | .ok segments => .ok ⟨pattern, segments, recursiveLast_parseSegments parsed⟩

/-- Pairs of a segment and a part, up to the first that differs; `none` stands for the
`unreachable!()` of the source. -/
def allMatch : List (PatternSegment × String) → Option Bool
  | [] => some true
  | (.wildcard, _) :: rest => allMatch rest
  | (.literal text, part) :: rest => if text = part then allMatch rest else some false
  | (.recursiveWildcard, _) :: _ => none

/-- The body of `matches`. -/
def matchSegments (p : RefPattern) (refSegments : List String) : Option Bool :=
  if p.segments.getLast? = some .recursiveWildcard then
    let prefixLen := p.segments.length - 1
    if refSegments.length ≤ prefixLen then some false
    else allMatch ((p.segments.take prefixLen).zip (refSegments.take prefixLen))
  else if refSegments.length ≠ p.segments.length then some false
  else allMatch (p.segments.zip refSegments)

theorem isSome_allMatch {pairs : List (PatternSegment × String)}
    (reachable : ∀ pair ∈ pairs, pair.1 ≠ .recursiveWildcard) : (allMatch pairs).isSome := by
  induction pairs with
  | nil => rfl
  | cons pair rest ih =>
    have tail := ih fun pair member => reachable pair (List.mem_cons_of_mem _ member)
    have here := reachable pair List.mem_cons_self
    obtain ⟨segment, part⟩ := pair
    cases segment with
    | literal text =>
      unfold allMatch
      split
      · exact tail
      · rfl
    | wildcard => exact tail
    | recursiveWildcard => exact absurd rfl here

theorem isSome_matchSegments (p : RefPattern) (refSegments : List String) :
    (p.matchSegments refSegments).isSome := by
  unfold matchSegments
  split
  · dsimp only
    split
    · rfl
    · apply isSome_allMatch
      rintro ⟨segment, part⟩ member rfl
      apply p.recursiveLast
      rw [List.dropLast_eq_take]
      exact (List.of_mem_zip member).1
  next notRecursive =>
    split
    · rfl
    · apply isSome_allMatch
      rintro ⟨segment, part⟩ member rfl
      have inside := (List.of_mem_zip member).1
      rcases List.eq_nil_or_concat p.segments with none | ⟨front, last, all⟩
      · simp [none] at inside
      · have front' := p.recursiveLast
        rw [all, List.concat_eq_append, List.dropLast_concat] at front'
        rw [all, List.concat_eq_append, List.mem_append, List.mem_singleton] at inside
        rcases inside with inside | same
        · exact front' inside
        · exact notRecursive (by simp [all, same])

/-- `matches`: whether this pattern matches a given ref name. -/
def matchesRef (p : RefPattern) (refName : String) : Bool :=
  (p.matchSegments (segmentsOf refName)).get (p.isSome_matchSegments _)

end RefPattern

end Git
