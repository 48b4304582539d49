import Buzz.Board.Rank
import Buzz.Board.Update

/-!
# Ranks in the CLI

`crates/buzz-cli/src/commands/rank.rs`, which calls itself a verbatim port of Desktop's `rank.ts`.
Rust indexes and compares strings by UTF-8 bytes; a slice that is out of range or that cuts a
character, a subtraction below zero and an index past the alphabet panic, which is `none` here.

`rankBetween_agree` says that the two implementations agree on all strings and that the port never
panics.
-/
namespace Board

open Lib

/-- The UTF-8 bytes of a string. -/
def bytes (s : String) : List Nat :=
  s.toList.flatMap fun c => (String.utf8EncodeChar c).map UInt8.toNat

namespace Cli

/-- `is_char_boundary`: the end, or a byte that does not continue a character. -/
def isCharBoundary (s : List Nat) (i : Nat) : Bool :=
  match s[i]? with
  | none => i == s.length
  | some b => !(0x80 ≤ b && b < 0xc0)

/-- `s.get(i..).unwrap_or("")`. -/
def getFrom (s : List Nat) (i : Nat) : List Nat := if isCharBoundary s i then s.drop i else []

/-- The loop over the shared start. -/
def shared (lower upper : List Nat) : Nat := Desktop.shared lower upper

def copied (lower : List Nat) : Option (List Nat) → Nat
  | none => 0
  | some upper => shared lower upper

/-- `usize::from(b - LOWEST)`, where the subtraction is one of `u8`. -/
def digitOf (b : Nat) : Option Nat := if lowest ≤ b then some (b - lowest) else none

def lowerDigit (lower : List Nat) : Option Nat :=
  match lower.head? with
  | none => some 0
  | some b => digitOf b

def upperDigit (upper : Option (List Nat)) : Option Nat :=
  match upper.bind List.head? with
  | none => some base
  | some b => digitOf b

/-- `DIGITS[i]`. -/
def digitAt (i : Nat) : Option (List Nat) := if i < base then some [lowest + i] else none

theorem length_getFrom_le (s : List Nat) (i : Nat) : (getFrom s i).length ≤ s.length - i := by
  unfold getFrom
  split <;> simp

/-- `f64::round` is exact here, and rounds a half up. -/
def midpoint (lower : List Nat) (upper : Option (List Nat)) : Option (List Nat) :=
  let n := copied lower upper
  if _copies : 0 < n then
    let whole := upper.getD []
    if isCharBoundary whole n then
      (midpoint (getFrom lower n) (upper.map (·.drop n))).map (whole.take n ++ ·)
    else none
  else match _low : lowerDigit lower, _high : upperDigit upper with
    | some l, some u =>
      if u < l then none
      else if _wide : 1 < u - l then digitAt ((l + u + 1) / 2)
      else if upper.any (1 < ·.length) then
        if isCharBoundary (upper.getD []) 1 then some ((upper.getD []).take 1) else none
      else (digitAt l).bind fun digit => (midpoint (getFrom lower 1) none).map (digit ++ ·)
    | _, _ => none
termination_by (upper.elim 0 (·.length + 1), lower.length)
decreasing_by
  · cases upper with
    | none => exact absurd _copies (Nat.lt_irrefl 0)
    | some u =>
      have bound := Desktop.shared_le lower u
      have copies : 0 < Desktop.shared lower u := _copies
      rw [Prod.lex_def]
      left
      change (u.drop (Desktop.shared lower u)).length + 1 < u.length + 1
      rw [List.length_drop]
      omega
  · rw [Prod.lex_def]
    cases upper with
    | some u =>
      left
      simp
    | none =>
      -- An empty lower bound counts as zero, so the gap below the end is wide.
      right
      refine ⟨rfl, ?_⟩
      cases lower with
      | nil =>
        cases _low
        cases _high
        exact absurd (by decide) _wide
      | cons b rest =>
        have := length_getFrom_le (b :: rest) 1
        rw [List.length_cons] at this ⊢
        omega

inductive RankError where
  | alphabet (label rank : String)
  | trailing (label rank : String)
  | order (before after : String)
deriving DecidableEq

/-- The text of the error, for a way to quote strings. -/
def RankError.message (quote : String → String) : RankError → String
  | .alphabet label rank =>
    "board " ++ label ++ " rank must use the a-z alphabet, received " ++ quote rank
  | .trailing label rank => "board " ++ label ++ " rank must not end in 'a', received " ++ quote rank
  | .order before after =>
    "board rank " ++ quote before ++ " must sort before " ++ quote after ++ " to insert between them"

def assertRank (rank label : String) : Except RankError Unit := do
  ensure (bytes rank ≠ [] ∧ (bytes rank).all (fun b => lowest ≤ b && b < lowest + base) = true)
    (.alphabet label rank)
  ensure ((bytes rank).getLast? ≠ some lowest) (.trailing label rank)

/-- The result, or none when it panics. -/
def rankBetween (before after : Option String) : Option (Except RankError String) :=
  let checks : Except RankError Unit := do
    if let some b := before then assertRank b "predecessor"
    if let some a := after then assertRank a "successor"
    if let (some b, some a) := (before, after) then ensure (bytes b < bytes a) (.order b a)
  match checks with
  | .error e => some (.error e)
  | .ok () =>
    if before = none ∧ after = none then some (.ok rankFirst)
    else (midpoint (bytes (before.getD "")) (after.map bytes)).map fun r => .ok (ofCodes r)

/-! ### The checks -/

private theorem bytes_char (c : Char) :
    (c.toNat < 0x80 ∧ (String.utf8EncodeChar c).map UInt8.toNat = [c.toNat]) ∨
      (0x80 ≤ c.toNat ∧ ∃ b ∈ (String.utf8EncodeChar c).map UInt8.toNat, 0xc0 ≤ b) := by
  have bound (n : Nat) (small : n < 256) : (UInt8.ofNat n).toNat = n := by
    simp [Nat.mod_eq_of_lt small]
  have value : c.val.toNat = c.toNat := rfl
  unfold String.utf8EncodeChar
  simp only [value]
  split
  · exact Or.inl ⟨by omega, by simp [bound _ (show c.toNat < 256 by omega)]⟩
  · refine Or.inr ⟨by omega, ?_⟩
    split
    · exact ⟨_, List.mem_cons_self, by rw [bound _ (by omega)]; omega⟩
    · split
      · exact ⟨_, List.mem_cons_self, by rw [bound _ (by omega)]; omega⟩
      · exact ⟨_, List.mem_cons_self, by rw [bound _ (by omega)]; omega⟩

theorem bytes_of_letters {s : String} (letters : ∀ c ∈ s.toList, c.toNat < lowest + base) :
    bytes s = s.toList.map Char.toNat := by
  rw [bytes, List.map_eq_flatMap]
  refine List.flatMap_congr fun c member => ?_
  have letter := letters c member
  rcases bytes_char c with ⟨-, single⟩ | ⟨large, -⟩
  · exact single
  · simp only [lowest, base] at letter
    omega

theorem all_bytes_iff {s : String} :
    (bytes s).all (fun b => lowest ≤ b && b < lowest + base) = true ↔
      ∀ c ∈ s.toList, lowest ≤ c.toNat ∧ c.toNat < lowest + base := by
  simp only [List.all_eq_true, bytes, List.mem_flatMap, forall_exists_index, and_imp,
    Bool.and_eq_true, decide_eq_true_eq]
  constructor
  · intro letters c member
    rcases bytes_char c with ⟨-, single⟩ | ⟨-, b, first, large⟩
    · exact letters c.toNat c member (by simp [single])
    · have := letters b c member first
      simp only [lowest, base] at this
      omega
  · intro letters b c member byte
    have letter := letters c member
    rcases bytes_char c with ⟨-, single⟩ | ⟨large, -⟩
    · rw [single, List.mem_singleton] at byte
      rw [byte]
      exact letter
    · simp only [lowest, base] at letter
      omega

theorem isValidRank_eq (rank : String) : isValidRank rank = Desktop.isValidRank rank := rfl

theorem assertRank_eq_ok {rank label : String} {u : Unit} :
    assertRank rank label = .ok u ↔ isValidRank rank = true := by
  rw [isValidRank_eq, ← @Desktop.assertRank_eq_ok rank label u]
  simp only [assertRank, Desktop.assertRank, bind_eq_ok, ensure_eq_ok, all_bytes_iff,
    Desktop.matchesRankPattern_iff, Desktop.endsLowest, decide_eq_false_iff_not]
  refine exists_congr fun _ => ?_
  -- Once all characters are letters, bytes, code units and characters are the same.
  by_cases letters : ∀ c ∈ rank.toList, lowest ≤ c.toNat ∧ c.toNat < lowest + base
  · have small := fun c member => (letters c member).2
    rw [bytes_of_letters small, units_of_letters small, ne_eq, List.map_eq_nil_iff,
      String.toList_eq_nil_iff]
  · simp only [letters, and_false, false_and]

/-! ### The midpoint -/

private theorem isCharBoundary_codes {digits : List Nat} (small : ∀ d ∈ digits, d < base) {i : Nat}
    (inside : i ≤ digits.length) : isCharBoundary (codes digits) i = true := by
  unfold isCharBoundary
  split
  next ends =>
    have : (codes digits).length ≤ i := List.getElem?_eq_none_iff.mp ends
    rw [codes, List.length_map] at this ⊢
    simp [Nat.le_antisymm inside this]
  next b byte =>
    obtain ⟨d, digit, rfl⟩ := List.mem_map.mp (List.mem_of_getElem? byte)
    have := small d digit
    have ascii : lowest + d < 0x80 := by
      simp only [lowest, base] at this ⊢
      omega
    simp [Nat.not_le.mpr ascii]

private theorem getFrom_codes {digits : List Nat} (small : ∀ d ∈ digits, d < base) (i : Nat) :
    getFrom (codes digits) i = codes (digits.drop i) := by
  unfold getFrom
  by_cases inside : i ≤ digits.length
  · rw [if_pos (isCharBoundary_codes small inside), codes, codes, List.map_drop]
  · have past : (codes digits).length ≤ i := by
      rw [codes, List.length_map]
      omega
    rw [List.drop_eq_nil_of_le past, List.drop_eq_nil_of_le (by omega : digits.length ≤ i)]
    simp

private theorem lowerDigit_codes (digits : List Nat) :
    lowerDigit (codes digits) = some (digits.headD 0) := by
  cases digits with
  | nil => rfl
  | cons d rest => simp [lowerDigit, digitOf]

private theorem digitAt_of_lt {d : Nat} (small : d < base) : digitAt d = some [lowest + d] :=
  if_pos small

private theorem midpoint_of_digits {lower : List Nat} {upper : Option (List Nat)} {l u : Nat}
    (start : copied lower upper = 0) (low : lowerDigit lower = some l)
    (high : upperDigit upper = some u) :
    midpoint lower upper =
      if u < l then none
      else if 1 < u - l then digitAt ((l + u + 1) / 2)
      else if upper.any (1 < ·.length) then
        if isCharBoundary (upper.getD []) 1 then some ((upper.getD []).take 1) else none
      else (digitAt l).bind fun digit => (midpoint (getFrom lower 1) none).map (digit ++ ·) := by
  rw [midpoint]
  simp only [start, Nat.lt_irrefl, dite_false]
  split
  next l' u' low' high' =>
    obtain rfl : l = l' := Option.some.inj (low.symm.trans low')
    obtain rfl : u = u' := Option.some.inj (high.symm.trans high')
    rfl
  next missing => exact absurd high (missing l u low)

theorem midpoint_none {lower : List Nat} (fraction : IsFraction base lower) :
    midpoint (codes lower) none = some (codes (above base lower)) := by
  induction lower with
  | nil => rw [midpoint_of_digits (l := 0) (u := base) rfl rfl rfl]; rfl
  | cons d rest ih =>
    have digit := fraction.below d (by simp)
    have tail : midpoint (getFrom (codes (d :: rest)) 1) none = some (codes (above base rest)) := by
      rw [getFrom_codes fraction.below]
      exact ih fraction.tail
    rw [midpoint_of_digits (u := base) rfl (lowerDigit_codes _) rfl, List.headD_cons, above,
      if_neg (by omega)]
    by_cases wide : 1 < base - d
    · rw [if_pos wide, if_pos wide, digitAt_of_lt (by omega)]
      rfl
    · rw [if_neg wide, if_neg wide, tail, digitAt_of_lt digit]
      rfl

private theorem midpoint_shared {lower upper : List Nat} (low : ∀ d ∈ lower, d < base)
    (high : ∀ d ∈ upper, d < base) {n : Nat} (counts : Desktop.shared (codes lower) (codes upper) = n) :
    midpoint (codes lower) (some (codes upper)) =
      (midpoint (codes (lower.drop n)) (some (codes (upper.drop n)))).map
        (codes (upper.take n) ++ ·) := by
  have inside : n ≤ upper.length := by
    have := Desktop.shared_le (codes lower) (codes upper)
    rw [counts, codes, List.length_map] at this
    exact this
  by_cases some : 0 < n
  · have copies : copied (codes lower) (Option.some (codes upper)) = n := counts
    rw [midpoint]
    simp only [copies, some, dite_true, Option.getD_some, Option.map_some]
    rw [if_pos (isCharBoundary_codes high inside), getFrom_codes low]
    simp only [codes, ← List.map_drop, ← List.map_take]
  · obtain rfl : n = 0 := by omega
    exact Option.map_id'.symm

private theorem midpoint_cons_of_same {lower upper : List Nat} {u : Nat}
    (low : ∀ d ∈ lower, d < base) (high : ∀ d ∈ u :: upper, d < base)
    (same : (codes lower).headD lowest = lowest + u) :
    midpoint (codes lower) (some (codes (u :: upper))) =
      (midpoint (codes lower.tail) (some (codes upper))).map ((lowest + u) :: ·) := by
  have tail : (codes lower).tail = codes lower.tail := List.map_tail.symm
  generalize more : Desktop.shared (codes lower.tail) (codes upper) = n
  have counts : Desktop.shared (codes lower) (codes (u :: upper)) = n + 1 := by
    simp only [codes_cons, Desktop.shared, same, if_true, tail, more]
  rw [midpoint_shared low high counts,
    midpoint_shared (fun d member => low d (List.mem_of_mem_tail member))
      (fun d member => high d (List.mem_cons_of_mem u member)) more,
    ← List.drop_tail, List.drop_succ_cons, Option.map_map]
  rfl

theorem midpoint_some {lower upper : List Nat} (low : IsFraction base lower)
    (high : IsFraction base upper) (less : lower < upper) :
    midpoint (codes lower) (some (codes upper)) = some (codes (between base lower upper)) := by
  induction upper generalizing lower with
  | nil => exact absurd less (List.not_lt_nil _)
  | cons u upper ih =>
    have digit := high.below u (by simp)
    have order := headD_le_of_lt less
    have head : (codes lower).headD lowest = lowest + lower.headD 0 := by cases lower <;> rfl
    rw [between]
    by_cases same : lower.headD 0 = u
    · have rest := ih low.tail high.tail (tail_lt_of_headD less high same)
      rw [if_pos same, midpoint_cons_of_same low.below high.below (by rw [head, same]), rest]
      rfl
    · have start : copied (codes lower) (some (codes (u :: upper))) = 0 := by
        have differ : (codes lower).headD lowest ≠ lowest + u := by
          rw [head]
          omega
        simp only [copied, shared, codes_cons, Desktop.shared, differ, if_false]
      have upperIs : upperDigit (some (codes (u :: upper))) = some u := by
        simp [upperDigit, digitOf]
      rw [if_neg same, midpoint_of_digits start (lowerDigit_codes lower) upperIs, if_neg (by omega)]
      by_cases wide : 1 < u - lower.headD 0
      · rw [if_pos wide, if_pos wide, digitAt_of_lt (by omega)]
        rfl
      · rw [if_neg wide, if_neg wide]
        by_cases more : upper = []
        · subst more
          have tail : midpoint (getFrom (codes lower) 1) none =
              some (codes (above base lower.tail)) := by
            rw [getFrom_codes low.below, List.drop_one]
            exact midpoint_none low.tail
          rw [tail, digitAt_of_lt (show lower.headD 0 < base by omega)]
          rfl
        · have long : 0 < upper.length := List.length_pos_iff.mpr more
          have boundary : isCharBoundary (codes (u :: upper)) 1 = true :=
            isCharBoundary_codes high.below (by simp)
          rw [Option.getD_some, if_pos boundary]
          simp [codes, long, more]

/-! ### Agreement -/

theorem bytes_spell {digits : List Nat} (small : ∀ d ∈ digits, d < base) :
    bytes (spell digits) = codes digits := by
  rw [bytes_of_letters, map_toNat_spell small]
  intro c member
  have code : c.toNat ∈ codes digits := by
    rw [← map_toNat_spell small]
    exact List.mem_map_of_mem member
  obtain ⟨d, digit, same⟩ := List.mem_map.mp code
  rw [← same]
  exact Nat.add_lt_add_left (small d digit) lowest

theorem bounds_of_checks {before after : Option String}
    (lower : ∀ b ∈ before, isValidRank b = true) (upper : ∀ a ∈ after, isValidRank a = true)
    (order : ∀ b ∈ before, ∀ a ∈ after, bytes b < bytes a) :
    ∃ b a, before = Option.map spell b ∧ after = Option.map spell a ∧ Bounds b a := by
  obtain ⟨b, rfl, low⟩ := Desktop.exists_digits lower
  obtain ⟨a, rfl, high⟩ := Desktop.exists_digits upper
  refine ⟨b, a, rfl, rfl, low, high, ?_⟩
  rintro digits rfl digits' rfl
  have less := order _ rfl _ rfl
  rwa [bytes_spell (low _ rfl).1.below, bytes_spell (high _ rfl).1.below, codes_lt_codes] at less

theorem midpoint_bounds {before after : Option (List Nat)} (bounds : Bounds before after)
    (some : ¬ (before = none ∧ after = none)) :
    midpoint (codes (before.getD [])) (after.map codes) = Option.some (codes (middle before after)) := by
  cases after with
  | none =>
    cases before with
    | none => exact absurd ⟨rfl, rfl⟩ some
    | some b => exact midpoint_none bounds.fraction_lower
  | some a =>
    have same : middle before (Option.some a) = between base (before.getD []) a := by
      cases before <;> rfl
    rw [same]
    exact midpoint_some bounds.fraction_lower (bounds.upper a rfl).1 (bounds.getD_lt rfl)

private theorem rankBetween_cases (before after : Option String) :
    (∃ e, rankBetween before after = some (.error e)) ∨
      ∃ b a, before = Option.map spell b ∧ after = Option.map spell a ∧ Bounds b a := by
  unfold rankBetween
  simp only
  split
  next e failed => exact Or.inl ⟨e, rfl⟩
  next passed =>
    right
    apply bounds_of_checks <;> cases before <;> cases after <;>
      simp_all [assertRank_eq_ok, -bind_pure_comp]

theorem rankBetween_spell {before after : Option (List Nat)} (bounds : Bounds before after) :
    rankBetween (before.map spell) (after.map spell) = some (.ok (spell (middle before after))) := by
  have asserts {digits : List Nat} (valid : IsFraction base digits ∧ digits ≠ []) (label : String) :
      assertRank (spell digits) label = .ok () :=
    assertRank_eq_ok.mpr (Desktop.isValidRank_spell valid.1 valid.2)
  have lowerBytes : bytes ((before.map spell).getD "") = codes (before.getD []) := by
    cases before with
    | none => rfl
    | some b => exact bytes_spell (bounds.lower b rfl).1.below
  have upperBytes : (after.map spell).map bytes = after.map codes := by
    cases after with
    | none => rfl
    | some a => exact congrArg some (bytes_spell (bounds.upper a rfl).1.below)
  by_cases empty : before = none ∧ after = none
  · obtain ⟨rfl, rfl⟩ := empty
    rfl
  · have some : ¬ (before.map spell = none ∧ after.map spell = none) := by simpa using empty
    unfold rankBetween
    rw [if_neg some, lowerBytes, upperBytes, midpoint_bounds bounds empty]
    cases before with
    | none =>
      cases after with
      | none => exact absurd ⟨rfl, rfl⟩ empty
      | some a =>
        simp only [Option.map_some, Option.map_none, asserts (bounds.upper a rfl)]
        rfl
    | some b =>
      cases after with
      | none =>
        simp only [Option.map_some, Option.map_none, asserts (bounds.lower b rfl)]
        rfl
      | some a =>
        have less : bytes (spell b) < bytes (spell a) := by
          rw [bytes_spell (bounds.lower b rfl).1.below, bytes_spell (bounds.upper a rfl).1.below,
            codes_lt_codes]
          exact bounds.order b rfl a rfl
        simp only [Option.map_some, asserts (bounds.lower b rfl), asserts (bounds.upper a rfl),
          ensure, less, if_true]
        rfl

end Cli

/-- The CLI and Desktop accept the same ranks and compute the same rank between two strings, or
both refuse, and the port never panics. -/
theorem rankBetween_agree (before after : Option String) :
    (∀ rank, Cli.rankBetween before after = some (.ok rank) ↔
      Desktop.rankBetween before after = .ok rank) ∧
    Cli.rankBetween before after ≠ none ∧
    (∀ rank, Cli.isValidRank rank = Desktop.isValidRank rank) ∧
    ∀ rank label, Cli.assertRank rank label = .ok () ↔ Desktop.assertRank rank label = .ok () := by
  refine ⟨fun rank => ⟨?_, ?_⟩, ?_, Cli.isValidRank_eq, fun rank label => ?_⟩
  · intro answered
    rcases Cli.rankBetween_cases before after with ⟨e, failed⟩ | ⟨b, a, rfl, rfl, bounds⟩
    · rw [failed] at answered
      cases answered
    · rw [Cli.rankBetween_spell bounds] at answered
      cases answered
      exact Desktop.rankBetween_spell bounds
  · intro answered
    obtain ⟨b, a, rfl, rfl, bounds⟩ := Desktop.bounds_of_rankBetween answered
    rw [Desktop.rankBetween_spell bounds] at answered
    cases answered
    exact Cli.rankBetween_spell bounds
  · rcases Cli.rankBetween_cases before after with ⟨e, failed⟩ | ⟨b, a, rfl, rfl, bounds⟩
    · rw [failed]
      nofun
    · rw [Cli.rankBetween_spell bounds]
      nofun
  · rw [Cli.assertRank_eq_ok, Desktop.assertRank_eq_ok, Cli.isValidRank_eq]

end Board
