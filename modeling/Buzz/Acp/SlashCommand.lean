import Buzz.Lib.Slice
import Mathlib.Data.List.Sort
import Mathlib.Logic.Relation

/-!
# Slash commands

`extract_slash_command` of `buzz-acp/src/queue.rs`: the slash command that a message starts with,
behind the mentions in front of it. Texts are kept by their characters, and a slice that would
panic, or a loop that would not end, is an error.
-/
namespace Acp

open Lib

/-- How the extraction can fail to return. -/
inductive Halt
  | outOfBoundary
  | endless
deriving DecidableEq

/-- The characters of a plain mention. -/
def isMentionChar (c : Char) : Bool := isAsciiAlphanumeric c || c == '.' || c == '-' || c == '_'

/-- `text[n..]`. -/
def sliceFrom (n : Nat) (text : List Char) : Except Halt (List Char) :=
  match sliceBytes n text with
  | some rest => .ok rest
  | none => .error .outOfBoundary

/-- Longest-first, so "Dawn Smith" wins over "Dawn". -/
def sortNames (knownNames : List String) : List String :=
  (knownNames.filter (trim · ≠ "")).mergeSort (fun a b => byteLen b ≤ byteLen a)

/-- The length of a known name behind an `@`, which must end at whitespace or at the end. -/
def matchName (afterAt : List Char) (name : String) : Except Halt (Option Nat) :=
  match getBytes (byteLen name) afterAt with
  | none => .ok none
  | some candidate =>
    if ! eqIgnoreAsciiCase candidate name.toList then .ok none
    else do
      match (← sliceFrom (byteLen name) afterAt).head? with
      | none => return some (byteLen name)
      | some c => return if isWhiteSpace c then some (byteLen name) else none

/-- `names.iter().find_map(..)`. -/
def findName (afterAt : List Char) : List String → Except Halt (Option Nat)
  | [] => .ok none
  | name :: names => do
    match ← matchName afterAt name with
    | some len => return some len
    | none => findName afterAt names

/-- The single-word fallback. -/
def wordLen (afterAt : List Char) : Option Nat :=
  let len := (findBytes (! isMentionChar ·) afterAt).getD (size afterAt)
  if 0 < len then some len else none

/-- What one turn of the loop does. -/
inductive Turn
  | strip (rest : List Char)
  /-- A bare `@` is not a mention. -/
  | bare
  | settled
deriving DecidableEq

/-- A NIP-27 inline reference. -/
def startsReference (rest : List Char) : Bool :=
  "nostr:npub1".toList.isPrefixOf rest || "nostr:nprofile1".toList.isPrefixOf rest

def turn (names : List String) (rest : List Char) : Except Halt Turn :=
  if startsReference rest then do
    return .strip (trimStart (← sliceFrom ((findBytes isWhiteSpace rest).getD (size rest)) rest))
  else
    match rest with
    | '@' :: afterAt => do
      match (← findName afterAt names).or (wordLen afterAt) with
      | some len => return .strip (trimStart (← sliceFrom len afterAt))
      | none => return .bare
    | _ => return .settled

/-- The loop, for at most `fuel` turns. -/
def stripMentions (names : List String) : Nat → List Char → Except Halt (Option (List Char))
  | 0, _ => .error .endless
  | fuel + 1, rest => do
    match ← turn names rest with
    | .strip rest => stripMentions names fuel rest
    | .bare => return none
    | .settled => return some rest

/-- A slash and an ASCII alphanumeric. -/
def startsCommand : List Char → Bool
  | '/' :: c :: _ => isAsciiAlphanumeric c
  | _ => false

def extractSlashCommand (content : String) (knownNames : List String) :
    Except Halt (Option String) := do
  let names := sortNames knownNames
  match ← stripMentions names (content.length + 1) (trimStart content.toList) with
  | some rest => return if startsCommand rest then some (String.ofList rest) else none
  | none => return none

/-! ## The purpose -/

/-- A mention token. -/
inductive Mention (knownNames : List String) : List Char → Prop
  | name {name : String} {spelled : List Char} (known : name ∈ knownNames)
      (same : eqIgnoreAsciiCase spelled name.toList) : Mention knownNames ('@' :: spelled)
  | word {word : List Char} (some : word ≠ []) (plain : ∀ c ∈ word, isMentionChar c) :
      Mention knownNames ('@' :: word)
  | reference {token : List Char} (starts : startsReference token)
      (whole : ∀ c ∈ token, isWhiteSpace c = false) : Mention knownNames token

/-- Whitespace and mention tokens that whitespace ends. -/
inductive Leading (knownNames : List String) : List Char → Prop
  | nil : Leading knownNames []
  | space {c : Char} {rest : List Char} (blank : isWhiteSpace c) (more : Leading knownNames rest) :
      Leading knownNames (c :: rest)
  | mention {token rest : List Char} {c : Char} (mention : Mention knownNames token)
      (blank : isWhiteSpace c) (more : Leading knownNames rest) :
      Leading knownNames (token ++ c :: rest)

/-- `before` ends where a token can start. -/
def Apart (before : List Char) : Prop := ∀ c ∈ before.getLast?, isWhiteSpace c

/-- `command` is the slash command that `content` starts with. -/
structure Leads (content : String) (knownNames : List String) (command : String) : Prop where
  slash : startsCommand command.toList
  behind : ∃ before, content.toList = before ++ command.toList ∧ Apart before ∧
    Leading knownNames before

/-- Slash commands are recognised as they should be. -/
structure Recognised (content : String) (knownNames : List String) : Prop where
  returns : ∃ found, extractSlashCommand content knownNames = .ok found
  stable : ∀ others : List String, (∀ name, name ∈ others ↔ name ∈ knownNames) →
    extractSlashCommand content others = extractSlashCommand content knownNames
  leads : ∀ command, extractSlashCommand content knownNames = .ok (some command) →
    Leads content knownNames command

/-- The loop strips a mention and comes to `behind`. -/
def Strips (names : List String) (rest behind : List Char) : Prop :=
  turn names rest = .ok (.strip behind)

/-- The loop comes from `rest` to `behind`. -/
def Reaches (names : List String) : List Char → List Char → Prop :=
  Relation.ReflTransGen (Strips names)

/-- A plain mention whose word runs into the text `tail` behind it. -/
structure RunsInto (names : List String) (word tail : List Char) : Prop where
  unnamed : findName (word ++ tail) names = .ok none
  spelled : word ≠ []
  plain : ∀ c ∈ word, isMentionChar c
  stuck : ∀ c ∈ tail.head?, isMentionChar c = false ∧ isWhiteSpace c = false
  more : tail ≠ []

/-- On the way to a slash command stands a plain mention with text stuck to it. -/
def Glued (content : String) (knownNames : List String) : Prop :=
  ∃ word tail command, Reaches (sortNames knownNames) (trimStart content.toList)
      ('@' :: (word ++ tail)) ∧ RunsInto (sortNames knownNames) word tail ∧
    Reaches (sortNames knownNames) tail command ∧ startsCommand command

/-! ## Names -/

/-- `afterAt` starts with the name, and the mention ends there. -/
def Matches (afterAt : List Char) (name : String) : Prop :=
  ∃ spelled tail, afterAt = spelled ++ tail ∧ size spelled = byteLen name ∧
    eqIgnoreAsciiCase spelled name.toList ∧ ∀ c ∈ tail.head?, isWhiteSpace c

/-- `len` is the length of the longest name that `afterAt` starts with. -/
def Longest (afterAt : List Char) (names : List String) (len : Nat) : Prop :=
  (∃ name ∈ names, Matches afterAt name ∧ byteLen name = len) ∧
    ∀ name ∈ names, Matches afterAt name → byteLen name ≤ len

theorem sliceFrom_size (before behind : List Char) :
    sliceFrom (size before) (before ++ behind) = .ok behind := by
  rw [sliceFrom, sliceBytes_size]

theorem matchName_of_matches {afterAt : List Char} {name : String}
    (fits : Matches afterAt name) : matchName afterAt name = .ok (some (byteLen name)) := by
  obtain ⟨spelled, tail, rfl, sized, same, ends⟩ := fits
  have candidate : getBytes (byteLen name) (spelled ++ tail) = some spelled :=
    getBytes_eq_some_iff.mpr ⟨List.prefix_append spelled tail, sized⟩
  rw [matchName, candidate]
  simp only [same, Bool.not_true, Bool.false_eq_true, if_false]
  rw [← sized, sliceFrom_size]
  cases tail with
  | nil => rfl
  | cons c tail => simp [bind, Except.bind, ends c (by simp), pure, Except.pure]

theorem matchName_of_not_matches {afterAt : List Char} {name : String}
    (misses : ¬ Matches afterAt name) : matchName afterAt name = .ok none := by
  rw [matchName]
  cases taken : getBytes (byteLen name) afterAt with
  | none => rfl
  | some candidate =>
    obtain ⟨⟨tail, rfl⟩, sized⟩ := getBytes_eq_some_iff.mp taken
    cases same : eqIgnoreAsciiCase candidate name.toList with
    | false => simp [same]
    | true =>
      simp only [same, Bool.not_true, Bool.false_eq_true, if_false]
      rw [← sized, sliceFrom_size]
      cases tail with
      | nil => exact absurd ⟨candidate, [], rfl, sized, same, by simp⟩ misses
      | cons c tail =>
        cases blank : isWhiteSpace c with
        | true => exact absurd ⟨candidate, c :: tail, rfl, sized, same, by simp [blank]⟩ misses
        | false => simp [bind, Except.bind, blank, pure, Except.pure]

theorem findName_longest (afterAt : List Char) {names : List String}
    (sorted : names.Pairwise fun a b => byteLen b ≤ byteLen a) :
    ∃ found, findName afterAt names = .ok found ∧
      ∀ len, found = some len ↔ Longest afterAt names len := by
  induction names with
  | nil => exact ⟨none, rfl, by simp [Longest]⟩
  | cons name names ih =>
    obtain ⟨shorter, sorted⟩ := List.pairwise_cons.mp sorted
    by_cases fits : Matches afterAt name
    · have step : findName afterAt (name :: names) = .ok (some (byteLen name)) := by
        rw [findName, matchName_of_matches fits]
        rfl
      refine ⟨_, step, fun len => ?_⟩
      constructor
      · rintro ⟨⟩
        refine ⟨⟨name, by simp, fits, rfl⟩, fun other member _ => ?_⟩
        rcases List.mem_cons.mp member with rfl | later
        · exact le_refl _
        · exact shorter other later
      · rintro ⟨⟨other, member, _, rfl⟩, most⟩
        have low : byteLen name ≤ byteLen other := most name (by simp) fits
        have high : byteLen other ≤ byteLen name := by
          rcases List.mem_cons.mp member with rfl | later
          · exact le_refl _
          · exact shorter other later
        rw [le_antisymm low high]
    · obtain ⟨found, run, exact⟩ := ih sorted
      have step : findName afterAt (name :: names) = .ok found := by
        rw [findName, matchName_of_not_matches fits]
        exact run
      refine ⟨found, step, fun len => (exact len).trans ?_⟩
      simp [Longest, fits]

theorem sorted_sortNames (knownNames : List String) :
    (sortNames knownNames).Pairwise fun a b => byteLen b ≤ byteLen a := by
  have sorted := @List.pairwise_mergeSort _ (fun a b : String => decide (byteLen b ≤ byteLen a))
    (fun a b c ab bc => by simp only [decide_eq_true_eq] at *; omega)
    (fun a b => by simp only [Bool.or_eq_true, decide_eq_true_eq]; omega)
    (knownNames.filter (trim · ≠ ""))
  exact sorted.imp fun order => by simpa using order

@[simp] theorem mem_sortNames {name : String} {knownNames : List String} :
    name ∈ sortNames knownNames ↔ name ∈ knownNames ∧ trim name ≠ "" := by
  simp [sortNames]

/-- The order of the names and their repetition do not matter. -/
theorem findName_sortNames_congr (afterAt : List Char) {others knownNames : List String}
    (same : ∀ name, name ∈ others ↔ name ∈ knownNames) :
    findName afterAt (sortNames others) = findName afterAt (sortNames knownNames) := by
  obtain ⟨found, run, exact⟩ := findName_longest afterAt (sorted_sortNames others)
  obtain ⟨found', run', exact'⟩ := findName_longest afterAt (sorted_sortNames knownNames)
  have lengths : ∀ len, Longest afterAt (sortNames others) len ↔
      Longest afterAt (sortNames knownNames) len := by
    intro len
    simp [Longest, same]
  rw [run, run']
  congr 1
  apply Option.ext
  intro len
  rw [exact, exact', lengths]

theorem turn_sortNames_congr (rest : List Char) {others knownNames : List String}
    (same : ∀ name, name ∈ others ↔ name ∈ knownNames) :
    turn (sortNames others) rest = turn (sortNames knownNames) rest := by
  unfold turn
  split
  · rfl
  split
  · rw [findName_sortNames_congr _ same]
  · rfl

theorem stripMentions_sortNames_congr {others knownNames : List String}
    (same : ∀ name, name ∈ others ↔ name ∈ knownNames) (fuel : Nat) (rest : List Char) :
    stripMentions (sortNames others) fuel rest =
      stripMentions (sortNames knownNames) fuel rest := by
  induction fuel generalizing rest with
  | zero => rfl
  | succ fuel ih =>
    simp only [stripMentions, turn_sortNames_congr rest same, ih]

/-! ## One turn -/

theorem not_isMentionChar_of_isWhiteSpace {c : Char} (blank : isWhiteSpace c) :
    isMentionChar c = false := by
  cases plain : isMentionChar c with
  | false => rfl
  | true =>
    simp only [isWhiteSpace, isMentionChar, isAsciiAlphanumeric, Bool.or_eq_true, Bool.and_eq_true,
      decide_eq_true_eq, beq_iff_eq, Char.le_def, UInt32.le_iff_toNat_le, Char.ext_iff,
      UInt32.ext_iff, Char.toNat] at blank plain
    simp at blank plain
    omega

/-- A mention and the whitespace behind it. -/
structure Stripped (names : List String) (rest behind : List Char) : Prop where
  parts : ∃ token space, rest = token ++ (space ++ behind) ∧ Mention names token ∧
    (∀ c ∈ space, isWhiteSpace c) ∧
    (space = [] → behind ≠ [] → ∃ word, token = '@' :: word ∧ RunsInto names word behind)
  trimmed : ∀ c ∈ behind.head?, isWhiteSpace c = false

theorem Mention.ne_nil {names : List String} {token : List Char} (mention : Mention names token) :
    token ≠ [] := by
  rintro rfl
  cases mention with
  | reference starts whole => simp [startsReference] at starts

theorem Stripped.length_lt {names : List String} {rest behind : List Char}
    (stripped : Stripped names rest behind) : behind.length < rest.length := by
  obtain ⟨token, space, rfl, mention, -, -⟩ := stripped.parts
  have some := List.length_pos_of_ne_nil mention.ne_nil
  simp only [List.length_append]
  omega

private theorem head_trimStart (text : List Char) :
    ∀ c ∈ (trimStart text).head?, isWhiteSpace c = false := by
  intro c head
  obtain ⟨rest, shape⟩ := List.head?_eq_some_iff.mp head
  exact plain_of_trimStart shape

private theorem stripped_of_ends {names : List String} {token tail : List Char}
    (mention : Mention names token) (ends : ∀ c ∈ tail.head?, isWhiteSpace c) :
    Stripped names (token ++ tail) (trimStart tail) := by
  obtain ⟨space, blank, parts⟩ := trimStart_parts tail
  refine ⟨⟨token, space, by rw [← parts], mention, blank, ?_⟩, head_trimStart tail⟩
  rintro rfl more
  obtain ⟨c, rest, shape⟩ := List.exists_cons_of_ne_nil more
  have plain := plain_of_trimStart shape
  rw [shape, List.nil_append] at parts
  rw [ends c (by simp [parts])] at plain
  cases plain

private theorem prefix_takeWhile {start rest : List Char} {p : Char → Bool}
    (starts : start.isPrefixOf rest) (all : ∀ c ∈ start, p c) :
    start.isPrefixOf (rest.takeWhile p) := by
  obtain ⟨tail, rfl⟩ := List.isPrefixOf_iff_prefix.mp starts
  rw [List.takeWhile_append_of_pos all]
  exact List.isPrefixOf_iff_prefix.mpr (List.prefix_append start _)

private theorem stops_dropWhile (p : Char → Bool) (text : List Char) :
    ∀ c ∈ (text.dropWhile p).head?, p c = false := by
  intro c head
  have stops := List.head?_dropWhile_not p text
  rw [Option.mem_def] at head
  rw [head] at stops
  simpa using stops

theorem mention_of_startsReference (names : List String) {rest : List Char}
    (starts : startsReference rest) : Mention names (rest.takeWhile (! isWhiteSpace ·)) := by
  have whole : ∀ c ∈ rest.takeWhile (! isWhiteSpace ·), isWhiteSpace c = false :=
    fun c member => by simpa using List.mem_takeWhile_imp member
  refine .reference ?_ whole
  rw [startsReference, Bool.or_eq_true] at starts ⊢
  exact starts.imp
    (fun starts => prefix_takeWhile starts (List.all_eq_true.mp (by decide)))
    (fun starts => prefix_takeWhile starts (List.all_eq_true.mp (by decide)))

theorem turn_of_startsReference (names : List String) {rest : List Char}
    (starts : startsReference rest) : ∃ behind, turn names rest = .ok (.strip behind) ∧
      Stripped names rest behind := by
  have ends : ∀ c ∈ (rest.dropWhile (! isWhiteSpace ·)).head?, isWhiteSpace c := by
    intro c head
    simpa using stops_dropWhile (! isWhiteSpace ·) rest c head
  have stripped := stripped_of_ends (mention_of_startsReference names starts) ends
  rw [List.takeWhile_append_dropWhile] at stripped
  refine ⟨_, ?_, stripped⟩
  unfold turn
  rw [if_pos starts, sliceFrom, sliceBytes_findBytes]
  rfl

theorem turn_of_findName {names : List String} {afterAt : List Char} {len : Nat}
    (other : startsReference ('@' :: afterAt) = false)
    (found : findName afterAt names = .ok (some len)) (longest : Longest afterAt names len) :
    ∃ behind, turn names ('@' :: afterAt) = .ok (.strip behind) ∧
      Stripped names ('@' :: afterAt) behind := by
  obtain ⟨⟨name, known, ⟨spelled, tail, rfl, sized, same, ends⟩, rfl⟩, -⟩ := longest
  refine ⟨_, ?_, stripped_of_ends (.name known same) ends⟩
  simp only [turn, other, Bool.false_eq_true, if_false, found, bind, Except.bind, Option.some_or]
  rw [← sized, sliceFrom_size]
  rfl

theorem wordLen_eq (afterAt : List Char) :
    wordLen afterAt = if 0 < size (afterAt.takeWhile isMentionChar) then
      some (size (afterAt.takeWhile isMentionChar)) else none := by
  simp only [wordLen, findBytes_getD, Bool.not_not]

theorem turn_of_wordLen {names : List String} {afterAt : List Char}
    (other : startsReference ('@' :: afterAt) = false)
    (found : findName afterAt names = .ok none) :
    (∃ behind, turn names ('@' :: afterAt) = .ok (.strip behind) ∧
      Stripped names ('@' :: afterAt) behind) ∨ turn names ('@' :: afterAt) = .ok .bare := by
  have parts := List.takeWhile_append_dropWhile (p := isMentionChar) (l := afterAt)
  have plain : ∀ c ∈ afterAt.takeWhile isMentionChar, isMentionChar c :=
    fun _ => List.mem_takeWhile_imp
  have stops := stops_dropWhile isMentionChar afterAt
  have len := wordLen_eq afterAt
  generalize afterAt.takeWhile isMentionChar = word at parts plain len
  generalize afterAt.dropWhile isMentionChar = tail at parts stops
  subst parts
  by_cases none : word = []
  · subst none
    rw [List.nil_append] at other found len ⊢
    right
    simp [turn, other, found, bind, Except.bind, len, pure, Except.pure]
  have pos : 0 < size word := Nat.pos_of_ne_zero fun zero => none (size_eq_zero_iff.mp zero)
  have step : turn names ('@' :: (word ++ tail)) = .ok (.strip (trimStart tail)) := by
    simp only [turn, other, Bool.false_eq_true, if_false, found, bind, Except.bind, len, if_pos pos,
      Option.none_or, sliceFrom_size, pure, Except.pure]
  refine .inl ⟨_, step, ?_⟩
  by_cases ends : ∀ c ∈ tail.head?, isWhiteSpace c
  · exact stripped_of_ends (.word none plain) ends
  · -- The word runs into the text behind it.
    match tail with
    | [] => exact absurd (by simp) ends
    | c :: rest =>
      have glued : isWhiteSpace c = false := by simpa using ends
      rw [trimStart_eq_self glued]
      refine ⟨⟨'@' :: word, [], rfl, .word none plain, by simp, fun _ _ => ⟨word, rfl, ?_⟩⟩,
        by simpa using glued⟩
      exact ⟨found, none, plain, by simpa [glued] using stops, by simp⟩

theorem turn_cases {names : List String}
    (sorted : names.Pairwise fun a b => byteLen b ≤ byteLen a) (rest : List Char) :
    (∃ behind, turn names rest = .ok (.strip behind) ∧ Stripped names rest behind) ∨
      turn names rest = .ok .bare ∨ turn names rest = .ok .settled := by
  cases starts : startsReference rest with
  | true => exact .inl (turn_of_startsReference names starts)
  | false =>
    match rest with
    | [] => exact .inr (.inr rfl)
    | c :: afterAt =>
      by_cases mentioned : c = '@'
      · subst mentioned
        obtain ⟨found, run, exact⟩ := findName_longest afterAt sorted
        cases found with
        | some len => exact .inl (turn_of_findName starts run ((exact len).mp rfl))
        | none => exact (turn_of_wordLen starts run).imp id .inl
      · refine .inr (.inr ?_)
        simp [turn, starts, mentioned, pure, Except.pure]


/-! ## The loop -/

theorem stripped_of_strips {names : List String}
    (sorted : names.Pairwise fun a b => byteLen b ≤ byteLen a) {rest behind : List Char}
    (strips : Strips names rest behind) : Stripped names rest behind := by
  rcases turn_cases sorted rest with ⟨other, run, stripped⟩ | run | run
  · cases run.symm.trans strips
    exact stripped
  · cases run.symm.trans strips
  · cases run.symm.trans strips

/-- With as many turns as there are characters left, the loop comes to its end. -/
theorem stripMentions_returns {names : List String}
    (sorted : names.Pairwise fun a b => byteLen b ≤ byteLen a) {fuel : Nat} {rest : List Char}
    (enough : rest.length < fuel) : stripMentions names fuel rest = .ok none ∨
      ∃ last, stripMentions names fuel rest = .ok (some last) ∧ Reaches names rest last := by
  induction fuel generalizing rest with
  | zero => exact absurd enough (Nat.not_lt_zero _)
  | succ fuel ih =>
    rw [stripMentions]
    rcases turn_cases sorted rest with ⟨behind, run, stripped⟩ | run | run
    · rw [run]
      refine (ih (Nat.lt_of_lt_of_le stripped.length_lt (Nat.le_of_lt_succ enough))).imp id ?_
      rintro ⟨last, settled, reaches⟩
      exact ⟨last, settled, .head run reaches⟩
    · rw [run]
      exact .inl rfl
    · rw [run]
      exact .inr ⟨rest, rfl, .refl⟩

theorem stripMentions_of_reaches {names : List String}
    (sorted : names.Pairwise fun a b => byteLen b ≤ byteLen a) {fuel : Nat}
    {rest last : List Char} (enough : rest.length < fuel) (reaches : Reaches names rest last)
    (command : startsCommand last) : stripMentions names fuel rest = .ok (some last) := by
  induction reaches using Relation.ReflTransGen.head_induction_on generalizing fuel with
  | refl =>
    cases fuel with
    | zero => exact absurd enough (Nat.not_lt_zero _)
    | succ fuel =>
      match last with
      | [] => cases command
      | c :: rest =>
        by_cases slash : c = '/'
        · subst slash
          rfl
        · cases rest <;> simp [startsCommand, slash] at command
  | head strips _ ih =>
    cases fuel with
    | zero => exact absurd enough (Nat.not_lt_zero _)
    | succ fuel =>
      rw [stripMentions, strips]
      exact ih (Nat.lt_of_lt_of_le (stripped_of_strips sorted strips).length_lt
        (Nat.le_of_lt_succ enough))

private theorem enough_turns (content : String) :
    (trimStart content.toList).length < content.length + 1 :=
  Nat.lt_succ_of_le ((List.dropWhile_suffix _).length_le.trans_eq String.length_toList)

theorem extractSlashCommand_returns (content : String) (knownNames : List String) :
    ∃ found, extractSlashCommand content knownNames = .ok found := by
  unfold extractSlashCommand
  dsimp only
  rcases stripMentions_returns (sorted_sortNames knownNames) (enough_turns content) with
    run | ⟨last, run, -⟩
  · exact ⟨none, by rw [run]; rfl⟩
  · exact ⟨if startsCommand last then some (String.ofList last) else none, by rw [run]; rfl⟩

/-- A slash command is what the loop comes to. -/
theorem extractSlashCommand_eq_some_iff {content : String} {knownNames : List String}
    {command : String} : extractSlashCommand content knownNames = .ok (some command) ↔
      Reaches (sortNames knownNames) (trimStart content.toList) command.toList ∧
        startsCommand command.toList := by
  unfold extractSlashCommand
  dsimp only
  constructor
  · intro found
    rcases stripMentions_returns (sorted_sortNames knownNames) (enough_turns content) with
      run | ⟨last, run, reaches⟩
    · rw [run] at found
      cases found
    · rw [run] at found
      cases starts : startsCommand last with
      | false => simp [starts, bind, Except.bind, pure, Except.pure] at found
      | true =>
        simp only [starts, bind, Except.bind, pure, Except.pure, if_true, Except.ok.injEq,
          Option.some.injEq] at found
        rw [← found, String.toList_ofList]
        exact ⟨reaches, starts⟩
  · rintro ⟨reaches, starts⟩
    rw [stripMentions_of_reaches (sorted_sortNames knownNames) (enough_turns content) reaches
      starts]
    simp [bind, Except.bind, starts, pure, Except.pure]

/-! ## What stands in front -/

theorem Mention.mono {names more : List String} (known : ∀ name ∈ names, name ∈ more)
    {token : List Char} (mention : Mention names token) : Mention more token := by
  cases mention with
  | name member same => exact .name (known _ member) same
  | word some plain => exact .word some plain
  | reference starts whole => exact .reference starts whole

theorem Leading.append_space {names : List String} {space rest : List Char}
    (blank : ∀ c ∈ space, isWhiteSpace c) (more : Leading names rest) :
    Leading names (space ++ rest) := by
  induction space with
  | nil => exact more
  | cons c space ih =>
    exact .space (blank c (by simp)) (ih fun d member => blank d (by simp [member]))

theorem Leading.apart {names : List String} {before : List Char} (leading : Leading names before) :
    Apart before := by
  have ends : ∀ (c : Char) (rest : List Char), isWhiteSpace c → Apart rest →
      Apart (c :: rest) := by
    intro c rest blank apart
    cases rest with
    | nil => simpa [Apart] using blank
    | cons d rest => simpa [Apart] using apart
  induction leading with
  | nil => simp [Apart]
  | space blank _ ih => exact ends _ _ blank ih
  | @mention token rest c _ blank _ ih =>
    have tail := ends c rest blank ih
    simpa [Apart, List.getLast?_append] using tail

/-- Where no word runs into the text behind it, only mentions and whitespace are stripped. -/
theorem leading_of_reaches {knownNames : List String} {rest last : List Char}
    (reaches : Reaches (sortNames knownNames) rest last) (command : startsCommand last)
    (apart : ∀ word tail, Reaches (sortNames knownNames) rest ('@' :: (word ++ tail)) →
      RunsInto (sortNames knownNames) word tail → ¬ Reaches (sortNames knownNames) tail last) :
    ∃ before, rest = before ++ last ∧ Leading knownNames before := by
  induction reaches using Relation.ReflTransGen.head_induction_on with
  | refl => exact ⟨[], rfl, .nil⟩
  | @head rest behind strips more ih =>
    obtain ⟨before, parts, leading⟩ := ih fun word tail reaches =>
      apart word tail (.head strips reaches)
    obtain ⟨token, space, shape, mention, blank, glued⟩ :=
      (stripped_of_strips (sorted_sortNames knownNames) strips).parts
    have known : Mention knownNames token :=
      mention.mono fun name member => (mem_sortNames.mp member).1
    match space with
    | c :: space =>
      refine ⟨token ++ c :: (space ++ before), by simp [shape, parts], ?_⟩
      exact .mention known (blank c (by simp))
        (.append_space (fun d member => blank d (by simp [member])) leading)
    | [] =>
      -- Nothing strips to a command where no text is left.
      have some : behind ≠ [] := by
        rintro rfl
        obtain ⟨-, rfl⟩ := List.append_eq_nil_iff.mp parts.symm
        cases command
      obtain ⟨word, rfl, runsInto⟩ := glued rfl some
      have here : rest = '@' :: (word ++ behind) := by simpa using shape
      exact absurd more (apart word behind (here ▸ .refl) runsInto)

theorem leads_of_not_glued {content : String} {knownNames : List String}
    (unglued : ¬ Glued content knownNames) {command : String}
    (found : extractSlashCommand content knownNames = .ok (some command)) :
    Leads content knownNames command := by
  obtain ⟨reaches, starts⟩ := extractSlashCommand_eq_some_iff.mp found
  obtain ⟨before, parts, leading⟩ := leading_of_reaches reaches starts
    fun word tail here runsInto more => unglued ⟨word, tail, _, here, runsInto, more, starts⟩
  obtain ⟨space, blank, shape⟩ := trimStart_parts content.toList
  have all : Leading knownNames (space ++ before) := .append_space blank leading
  exact ⟨starts, space ++ before, by rw [shape, parts, List.append_assoc], all.apart, all⟩

/-! ## What the words run into -/

/-- The text behind the last whitespace. -/
def lastRun (text : List Char) : List Char :=
  (text.reverse.takeWhile (! isWhiteSpace ·)).reverse

theorem lastRun_append {front text : List Char} (apart : Apart front)
    (whole : ∀ c ∈ text, isWhiteSpace c = false) : lastRun (front ++ text) = text := by
  have run : text.reverse.takeWhile (! isWhiteSpace ·) = text.reverse :=
    List.takeWhile_eq_self_iff.mpr fun c member => by simp [whole c (List.mem_reverse.mp member)]
  have stops : front.reverse.takeWhile (! isWhiteSpace ·) = [] := by
    cases shape : front.reverse with
    | nil => rfl
    | cons c rest =>
      have last : isWhiteSpace c := apart c (by simp [List.getLast?_eq_head?_reverse, shape])
      rw [List.takeWhile_cons_of_neg (by simp [last])]
  rw [lastRun, List.reverse_append, List.takeWhile_append_of_pos, stops, List.append_nil,
    List.reverse_reverse]
  exact fun c member => by simp [whole c (List.mem_reverse.mp member)]

theorem lastRun_append_cons (front rest : List Char) {c : Char} (blank : isWhiteSpace c) :
    lastRun (front ++ c :: rest) = lastRun rest := by
  have stops : (c :: front.reverse).takeWhile (! isWhiteSpace ·) = [] :=
    List.takeWhile_cons_of_neg (by simp [blank])
  rw [lastRun, lastRun, List.reverse_append, List.reverse_cons, List.append_assoc,
    List.singleton_append, List.takeWhile_append, stops, List.append_nil]
  split
  next whole =>
    rw [(List.takeWhile_prefix _).eq_of_length whole]
  · rfl

theorem at_of_toLower {c : Char} (lower : c.toLower = '@') : c = '@' := by
  delta Char.toLower at lower
  split at lower
  next upper =>
    have low : 65 ≤ c.val.toNat := upper.1
    have high : c.val.toNat ≤ 90 := upper.2
    have value : (c.val + 32).toNat = 64 := congrArg (UInt32.toNat ∘ Char.val) lower
    rw [UInt32.toNat_add, show UInt32.toNat 32 = 32 from rfl] at value
    omega
  · exact lower

theorem not_mem_spelled {spelled : List Char} {name : String}
    (same : eqIgnoreAsciiCase spelled name.toList) (free : '@' ∉ name.toList) :
    '@' ∉ spelled := by
  intro member
  have lower : spelled.map Char.toLower = name.toList.map Char.toLower := eq_of_beq same
  have image : Char.toLower '@' ∈ name.toList.map Char.toLower :=
    lower ▸ List.mem_map_of_mem member
  obtain ⟨c, inside, equal⟩ := List.mem_map.mp image
  exact free (at_of_toLower (equal.trans (by decide)) ▸ inside)

private theorem not_isMentionChar_at : isMentionChar '@' = false := by decide

/-- Inside of a mention, an `@` stands in a reference. -/
theorem Mention.lastRun_ne {knownNames : List String}
    (free : ∀ name ∈ knownNames, '@' ∉ name.toList) {front rest : List Char}
    (mention : Mention knownNames (front ++ '@' :: rest)) : (lastRun front).head? ≠ some '@' := by
  generalize shape : front ++ '@' :: rest = token at mention
  have inner : ∀ {text : List Char}, '@' ∉ text → front ++ '@' :: rest = '@' :: text →
      (lastRun front).head? ≠ some '@' := by
    intro text absent same
    cases front with
    | nil => simp [lastRun]
    | cons c front =>
      cases same
      simp at absent
  cases mention with
  | name known same => exact inner (not_mem_spelled same (free _ known)) shape
  | word some plain =>
    refine inner (fun member => ?_) shape
    have := plain _ member
    rw [not_isMentionChar_at] at this
    cases this
  | reference starts whole =>
    subst shape
    rw [← List.nil_append front, lastRun_append (by simp [Apart])
      fun c member => whole c (by simp [member])]
    cases front with
    | nil => simp
    | cons c front =>
      intro head
      cases head
      simp [startsReference] at starts

theorem Leading.lastRun_ne {knownNames : List String}
    (free : ∀ name ∈ knownNames, '@' ∉ name.toList) {text : List Char}
    (leading : Leading knownNames text) {front rest : List Char}
    (shape : text = front ++ '@' :: rest) : (lastRun front).head? ≠ some '@' := by
  induction leading generalizing front with
  | nil => simp at shape
  | @space c text blank _ ih =>
    cases front with
    | nil => simp [lastRun]
    | cons d front =>
      obtain ⟨rfl, parts⟩ := List.cons.inj shape
      rw [← List.nil_append (c :: front), lastRun_append_cons [] front blank]
      exact ih parts
  | @mention token text c mention blank _ ih =>
    rcases List.append_eq_append_iff.mp shape with ⟨behind, parts, tail⟩ | ⟨inside, parts, tail⟩
    · cases behind with
      | nil =>
        cases tail
        cases blank
      | cons d behind =>
        obtain ⟨rfl, more⟩ := List.cons.inj tail
        rw [parts, lastRun_append_cons token behind blank]
        exact ih more
    · cases inside with
      | nil =>
        cases tail
        cases blank
      | cons d inside =>
        obtain ⟨rfl, -⟩ := List.cons.inj tail
        exact Mention.lastRun_ne free (parts ▸ mention)

theorem startsReference_at (text : List Char) : startsReference ('@' :: text) = false := by
  simp [startsReference, List.isPrefixOf]

theorem Mention.at_or_reference {names : List String} {token : List Char}
    (mention : Mention names token) :
    (∃ text, token = '@' :: text) ∨ ∃ text, token = 'n' :: text := by
  cases mention with
  | name => exact .inl ⟨_, rfl⟩
  | word => exact .inl ⟨_, rfl⟩
  | reference starts whole =>
    cases token with
    | nil => simp [startsReference] at starts
    | cons c text =>
      have head : c = 'n' := by
        simp only [startsReference, Bool.or_eq_true, List.isPrefixOf_iff_prefix] at starts
        rcases starts with ⟨_, same⟩ | ⟨_, same⟩
        · exact (List.cons.inj same).1.symm
        · exact (List.cons.inj same).1.symm
      exact .inr ⟨text, by rw [head]⟩

theorem suffix_of_reaches {knownNames : List String} {rest last : List Char}
    (reaches : Reaches (sortNames knownNames) rest last) : last <:+ rest := by
  induction reaches using Relation.ReflTransGen.head_induction_on with
  | refl => exact List.suffix_refl last
  | head strips _ ih =>
    obtain ⟨token, space, rfl, -⟩ :=
      (stripped_of_strips (sorted_sortNames knownNames) strips).parts
    exact ih.trans ((List.suffix_append space _).trans (List.suffix_append token _))

/-- A word that runs into the text behind it is stripped by itself. -/
theorem RunsInto.strips {names : List String} {word tail : List Char}
    (runsInto : RunsInto names word tail) : Strips names ('@' :: (word ++ tail)) tail := by
  have taken : (word ++ tail).takeWhile isMentionChar = word := by
    rw [List.takeWhile_append_of_pos runsInto.plain]
    cases tail with
    | nil => simp
    | cons c tail => simp [(runsInto.stuck c rfl).1]
  have trimmed : trimStart tail = tail := by
    cases tail with
    | nil => rfl
    | cons c tail => exact trimStart_eq_self (runsInto.stuck c rfl).2
  have pos : 0 < size word :=
    Nat.pos_of_ne_zero fun zero => runsInto.spelled (size_eq_zero_iff.mp zero)
  have len : wordLen (word ++ tail) = some (size word) := by
    rw [wordLen_eq, taken, if_pos pos]
  simp only [Strips, turn, startsReference_at, Bool.false_eq_true, if_false, runsInto.unnamed,
    bind, Except.bind, len, Option.none_or, sliceFrom_size, trimmed, pure, Except.pure]

/-- A word that runs into a command, or into another mention, is in no leading text. -/
theorem not_leading_of_runsInto {knownNames : List String}
    (free : ∀ name ∈ knownNames, '@' ∉ name.toList) {front word tail last before : List Char}
    (runsInto : RunsInto (sortNames knownNames) word tail)
    (reaches : Reaches (sortNames knownNames) tail last) (apart : Apart front)
    (parts : front ++ '@' :: (word ++ tail) = before ++ last) : ¬ Leading knownNames before := by
  intro leading
  rcases Relation.ReflTransGen.cases_head reaches with rfl | ⟨behind, strips, more⟩
  · -- The command is stuck to the word.
    have shape : before = front ++ '@' :: word :=
      (@List.append_cancel_right _ _ tail _ (by simpa using parts)).symm
    have ends := leading.apart
    obtain ⟨c, inside⟩ := Option.ne_none_iff_exists'.mp
      (mt List.getLast?_eq_none_iff.mp runsInto.spelled)
    have blank : isWhiteSpace c :=
      ends c (by simp [shape, List.getLast?_append, List.getLast?_cons, inside])
    have plain := runsInto.plain c (List.mem_of_getLast? inside)
    rw [not_isMentionChar_of_isWhiteSpace blank] at plain
    cases plain
  · -- Another mention is stuck to it, and that one starts with an `@`.
    obtain ⟨token, space, rfl, mention, -⟩ :=
      (stripped_of_strips (sorted_sortNames knownNames) strips).parts
    obtain ⟨middle, rfl⟩ := suffix_of_reaches more
    rcases mention.at_or_reference with ⟨text, rfl⟩ | ⟨text, rfl⟩
    · have shape : before = (front ++ '@' :: word) ++ '@' :: (text ++ (space ++ middle)) :=
        (@List.append_cancel_right _ _ last _ (by simpa using parts)).symm
      apply leading.lastRun_ne free shape
      rw [lastRun_append apart]
      · rfl
      · intro c member
        cases blank : isWhiteSpace c with
        | false => rfl
        | true =>
          rcases List.mem_cons.mp member with rfl | inside
          · cases blank
          · have plain := runsInto.plain c inside
            rw [not_isMentionChar_of_isWhiteSpace blank] at plain
            cases plain
    · have stuck := (runsInto.stuck 'n' (by simp)).1
      cases stuck

/-- A glued text is not read as mentions. -/
theorem not_leading_of_reaches {knownNames : List String}
    (free : ∀ name ∈ knownNames, '@' ∉ name.toList) {rest word tail last front before : List Char}
    (reaches : Reaches (sortNames knownNames) rest ('@' :: (word ++ tail)))
    (runsInto : RunsInto (sortNames knownNames) word tail)
    (more : Reaches (sortNames knownNames) tail last) (apart : Apart front)
    (parts : front ++ rest = before ++ last) : ¬ Leading knownNames before := by
  induction reaches using Relation.ReflTransGen.head_induction_on generalizing front with
  | refl => exact not_leading_of_runsInto free runsInto more apart parts
  | @head rest behind strips later ih =>
    obtain ⟨token, space, rfl, mention, blank, glued⟩ :=
      (stripped_of_strips (sorted_sortNames knownNames) strips).parts
    by_cases none : space = []
    · -- This word is glued already.
      have some : behind ≠ [] := by
        rintro rfl
        exact absurd (List.suffix_nil.mp (suffix_of_reaches later)) (by simp)
      obtain ⟨first, rfl, stuck⟩ := glued none some
      subst none
      exact not_leading_of_runsInto free stuck (later.trans (.head runsInto.strips more)) apart
        (by simpa using parts)
    · refine @ih (front ++ token ++ space) ?_ (by simpa using parts)
      intro c last
      rw [List.getLast?_append_of_ne_nil _ none] at last
      exact blank c (List.mem_of_getLast? last)

theorem not_leads_of_glued {content : String} {knownNames : List String}
    (free : ∀ name ∈ knownNames, '@' ∉ name.toList) (glued : Glued content knownNames) :
    ∃ command, extractSlashCommand content knownNames = .ok (some command) ∧
      ¬ Leads content knownNames command := by
  obtain ⟨word, tail, last, reaches, runsInto, more, starts⟩ := glued
  have whole := reaches.trans (.head runsInto.strips more)
  refine ⟨String.ofList last, extractSlashCommand_eq_some_iff.mpr ?_, ?_⟩
  · rw [String.toList_ofList]
    exact ⟨whole, starts⟩
  rintro ⟨-, before, parts, -, leading⟩
  obtain ⟨space, blank, shape⟩ := trimStart_parts content.toList
  have apart : Apart space := fun c last => blank c (List.mem_of_getLast? last)
  refine not_leading_of_reaches free reaches runsInto more apart ?_ leading
  rw [← shape, parts, String.toList_ofList]

/-! ## Exactness -/

/-- Slash commands are recognised where no plain mention on the way to one has text stuck to it.
Elsewhere they are not, when no known name has an `@` inside. -/
theorem recognised_of_not_glued (content : String) (knownNames : List String) :
    (¬ Glued content knownNames → Recognised content knownNames) ∧
      ((∀ name ∈ knownNames, '@' ∉ name.toList) →
        (Recognised content knownNames ↔ ¬ Glued content knownNames)) := by
  have holds : ¬ Glued content knownNames → Recognised content knownNames := fun unglued =>
    { returns := extractSlashCommand_returns content knownNames
      stable := fun others same => by
        simp only [extractSlashCommand, stripMentions_sortNames_congr same]
      leads := fun command found => leads_of_not_glued unglued found }
  refine ⟨holds, fun free => ⟨fun recognised glued => ?_, holds⟩⟩
  obtain ⟨command, found, misread⟩ := not_leads_of_glued free glued
  exact misread (recognised.leads command found)

namespace Sample

def names : List String := ["Dawn Smith", "Dawn"]

def content : String := "@Dawn Smith /goal go"

theorem sortNames_names : sortNames names = names := by
  have kept : names.filter (trim · ≠ "") = names := by decide
  rw [sortNames, kept]
  exact List.mergeSort_of_pairwise (by decide)

theorem strips : Strips names (trimStart content.toList) "/goal go".toList := by
  unfold Strips
  decide

theorem not_glued : ¬ Glued content names := by
  rintro ⟨word, tail, last, reaches, runsInto, -⟩
  rw [sortNames_names] at reaches runsInto
  rcases Relation.ReflTransGen.cases_head reaches with start | ⟨behind, first, more⟩
  · have text : word ++ tail = "Dawn Smith /goal go".toList := by
      have whole : trimStart content.toList = '@' :: "Dawn Smith /goal go".toList := by
        decide
      rw [whole] at start
      exact (List.cons.inj start).2.symm
    have named : findName "Dawn Smith /goal go".toList names = .ok (some 10) := by decide
    have unnamed := runsInto.unnamed
    rw [text, named] at unnamed
    cases unnamed
  · cases strips.symm.trans first
    rcases Relation.ReflTransGen.cases_head more with stop | ⟨next, again, -⟩
    · exact absurd ((congrArg List.head? stop).trans List.head?_cons) (by decide)
    · have settled : turn names "/goal go".toList = .ok .settled := by decide
      cases settled.symm.trans again

end Sample

theorem recognised_of_not_glued_sample :
    Recognised Sample.content Sample.names ∧
      (Recognised Sample.content Sample.names ↔ ¬ Glued Sample.content Sample.names) :=
  ⟨(recognised_of_not_glued Sample.content Sample.names).1 Sample.not_glued,
    (recognised_of_not_glued Sample.content Sample.names).2 (by decide)⟩

/-- A path stuck to a mention is run as a command. -/
theorem path_recognised :
    extractSlashCommand "@Eva/goal" [] = .ok (some "/goal") ∧ ¬ Recognised "@Eva/goal" [] := by
  have found : extractSlashCommand "@Eva/goal" [] = .ok (some "/goal") := by
    apply extractSlashCommand_eq_some_iff.mpr
    refine ⟨.single ?_, by decide⟩
    simp only [Strips, sortNames, List.filter_nil, List.mergeSort_nil]
    decide
  refine ⟨found, fun recognised => ?_⟩
  obtain ⟨-, before, parts, apart, -⟩ := recognised.leads _ found
  have shape : before = "@Eva".toList :=
    (@List.append_cancel_right _ _ "/goal".toList _ parts).symm
  have blank : isWhiteSpace 'a' := apart 'a' (by rw [shape]; decide)
  cases blank

end Acp
