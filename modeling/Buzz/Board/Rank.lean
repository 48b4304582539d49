import Buzz.Lib.Fraction
import Buzz.Board.Publish

/-!
# Ranks in Desktop

`desktop/src/features/board/state/rank.ts`. A rank is a string over `a`-`z` that does not end in
`a`: a fraction in base 26. JavaScript indexes and compares strings by UTF-16 code units, so
`midpoint` works on these; what is no letter it takes for `-1`.

`rankBetween` turns out to be `Lib.between` on the digits, and a column that is only changed by
insertions stays in order.
-/
namespace Board

open Lib

/-- The UTF-16 code units of a string. -/
def units (s : String) : List Nat :=
  s.toList.flatMap fun c =>
    if c.toNat < 0x10000 then [c.toNat]
    else [0xd800 + (c.toNat - 0x10000) / 0x400, 0xdc00 + (c.toNat - 0x10000) % 0x400]

def base : Nat := 26

/-- The code of `a`. -/
def lowest : Nat := 97

def rankFirst : String := "n"

/-- The text of ASCII codes. -/
def ofCodes (codes : List Nat) : String := String.ofList (codes.map Char.ofNat)

namespace Desktop

/-- `DIGITS.indexOf(unit)`. -/
def indexOf (unit : Option Nat) : Int :=
  match unit with
  | none => -1
  | some u => if lowest ≤ u ∧ u < lowest + base then u - lowest else -1

/-- `DIGITS[i]`, which is `undefined` outside of the alphabet. -/
def digitAt (i : Int) : List Nat :=
  if 0 ≤ i ∧ i < base then [lowest + i.toNat] else units "undefined"

/-- How far the loop over the shared start runs: `(lower[shared] ?? LOWEST) === upper[shared]`. -/
def shared : List Nat → List Nat → Nat
  | _, [] => 0
  | lower, u :: upper => if lower.headD lowest = u then shared lower.tail upper + 1 else 0

theorem shared_le (lower upper : List Nat) : shared lower upper ≤ upper.length := by
  induction upper generalizing lower with
  | nil => exact Nat.le_refl 0
  | cons u upper ih =>
    unfold shared
    split
    · exact Nat.succ_le_succ (ih _)
    · exact Nat.zero_le _

/-- `lower ? DIGITS.indexOf(lower[0]) : 0`. -/
def lowerDigit (lower : List Nat) : Int := if lower = [] then 0 else indexOf lower.head?

/-- `upper !== null ? DIGITS.indexOf(upper[0]) : BASE`. -/
def upperDigit (upper : Option (List Nat)) : Int :=
  match upper with
  | none => base
  | some u => indexOf u.head?

/-- Without an upper bound nothing is copied. -/
def copied (lower : List Nat) : Option (List Nat) → Nat
  | none => 0
  | some upper => shared lower upper

/-- `Math.round` is exact here, and rounds a half up. -/
def midpoint (lower : List Nat) (upper : Option (List Nat)) : List Nat :=
  let n := copied lower upper
  if _copies : 0 < n then
    (upper.getD []).take n ++ midpoint (lower.drop n) (upper.map (·.drop n))
  else if wide : 1 < upperDigit upper - lowerDigit lower then
    digitAt ((lowerDigit lower + upperDigit upper + 1) / 2)
  else if upper.any (1 < ·.length) then (upper.getD []).take 1
  else digitAt (lowerDigit lower) ++ midpoint lower.tail none
termination_by (upper.elim 0 (·.length + 1), lower.length)
decreasing_by
  · cases upper with
    | none => exact absurd _copies (Nat.lt_irrefl 0)
    | some u =>
      have bound := shared_le lower u
      have copies : 0 < shared lower u := _copies
      rw [Prod.lex_def]
      left
      change (u.drop (shared lower u)).length + 1 < u.length + 1
      rw [List.length_drop]
      omega
  · rw [Prod.lex_def]
    cases upper with
    | some u =>
      left
      simp
    | none =>
      -- An empty lower bound counts as zero, so the gap below the end is wide.
      right
      refine ⟨rfl, ?_⟩
      cases lower with
      | nil => simp [upperDigit, lowerDigit, base] at wide
      | cons d rest => simp

/-- `RANK_PATTERN.test(rank)`. -/
def matchesRankPattern (rank : String) : Bool :=
  units rank ≠ [] && (units rank).all fun u => lowest ≤ u && u < lowest + base

/-- `rank.endsWith(LOWEST)`. -/
def endsLowest (rank : String) : Bool := (units rank).getLast? = some lowest

def assertRank (rank label : String) : Except String Unit := do
  ensure (matchesRankPattern rank = true)
    ("Board " ++ label ++ " rank must use the a-z alphabet, received \"" ++ rank ++ "\".")
  ensure (endsLowest rank = false)
    ("Board " ++ label ++ " rank must not end in \"a\", received \"" ++ rank ++ "\".")

/-- An error is the message of the `Error` that is thrown. -/
def rankBetween (before after : Option String) : Except String String := do
  if let some b := before then assertRank b "predecessor"
  if let some a := after then assertRank a "successor"
  if let (some b, some a) := (before, after) then
    ensure (units b < units a)
      ("Board rank \"" ++ b ++ "\" must sort before \"" ++ a ++ "\" to insert between them.")
  if before = none ∧ after = none then return rankFirst
  return ofCodes (midpoint (units (before.getD "")) (after.map units))

/-- Insert a rank at a position; a position past the end is the end. -/
def insertAt (column : List String) (position : Nat) : Except String (List String) := do
  let i := min position column.length
  let rank ← rankBetween (if i = 0 then none else column[i - 1]?) column[i]?
  return column.take i ++ rank :: column.drop i

end Desktop

/-! ### Ranks as fractions -/

/-- The codes of digits. -/
def codes (digits : List Nat) : List Nat := digits.map (lowest + ·)

/-- The rank of a fraction. -/
def spell (digits : List Nat) : String := ofCodes (codes digits)

@[simp] theorem codes_nil : codes [] = [] := rfl

@[simp] theorem codes_cons (d : Nat) (rest : List Nat) : codes (d :: rest) = (lowest + d) :: codes rest :=
  rfl

@[simp] theorem codes_lt_codes {digits digits' : List Nat} :
    codes digits < codes digits' ↔ digits < digits' := by
  induction digits generalizing digits' with
  | nil => cases digits' <;> simp
  | cons d rest ih =>
    cases digits' with
    | nil => simp
    | cons d' rest' => simp [List.cons_lt_cons_iff, ih]

private theorem toNat_ofNat {d : Nat} (small : d < base) : (Char.ofNat (lowest + d)).toNat = lowest + d := by
  have all : ∀ d : Fin 26, (Char.ofNat (lowest + d)).toNat = lowest + d := by decide
  exact all ⟨d, small⟩

theorem toList_spell (digits : List Nat) :
    (spell digits).toList = digits.map fun d => Char.ofNat (lowest + d) := by
  simp [spell, ofCodes, codes]

theorem map_toNat_spell {digits : List Nat} (small : ∀ d ∈ digits, d < base) :
    (spell digits).toList.map Char.toNat = codes digits := by
  rw [toList_spell, List.map_map, codes]
  exact List.map_congr_left fun d member => toNat_ofNat (small d member)

theorem units_of_letters {s : String} (letters : ∀ c ∈ s.toList, c.toNat < lowest + base) :
    units s = s.toList.map Char.toNat := by
  rw [units, List.map_eq_flatMap]
  refine List.flatMap_congr fun c member => if_pos ?_
  have := letters c member
  simp only [lowest, base] at this
  omega

theorem units_spell {digits : List Nat} (small : ∀ d ∈ digits, d < base) :
    units (spell digits) = codes digits := by
  rw [units_of_letters, map_toNat_spell small]
  intro c member
  rw [toList_spell, List.mem_map] at member
  obtain ⟨d, digit, rfl⟩ := member
  rw [toNat_ofNat (small d digit)]
  exact Nat.add_lt_add_left (small d digit) lowest

@[simp] theorem spell_eq_empty {digits : List Nat} : spell digits = "" ↔ digits = [] := by
  rw [← String.toList_inj, toList_spell]
  simp

theorem spell_lt_spell {digits digits' : List Nat} (small : ∀ d ∈ digits, d < base)
    (small' : ∀ d ∈ digits', d < base) : spell digits < spell digits' ↔ digits < digits' := by
  rw [String.lt_iff_toList_lt, ← codes_lt_codes, ← map_toNat_spell small, ← map_toNat_spell small']
  generalize (spell digits).toList = chars
  generalize (spell digits').toList = chars'
  induction chars generalizing chars' with
  | nil => cases chars' <;> simp
  | cons c rest ih =>
    cases chars' with
    | nil => simp
    | cons c' rest' =>
      have order : c < c' ↔ c.toNat < c'.toNat := UInt32.lt_iff_toNat_lt
      have same : c = c' ↔ c.toNat = c'.toNat := Char.toNat_inj.symm
      simp only [List.map_cons, List.cons_lt_cons_iff, order, same, ih]

private theorem endsWith_a {rank : String} :
    endsWith "a" rank = true ↔ rank.toList.getLast? = some 'a' :=
  List.isSuffixOf_iff_suffix.trans List.singleton_suffix_iff_getLast?_eq_some

private theorem letter_iff {c : Char} :
    ('a' ≤ c && c ≤ 'z') = true ↔ lowest ≤ c.toNat ∧ c.toNat < lowest + base := by
  have lower : 'a' ≤ c ↔ 97 ≤ c.toNat := UInt32.le_iff_toNat_le
  have upper : c ≤ 'z' ↔ c.toNat ≤ 122 := UInt32.le_iff_toNat_le
  simp only [Bool.and_eq_true, decide_eq_true_eq, lower, upper, lowest, base]
  omega

namespace Desktop

theorem isValidRank_spell {digits : List Nat} (fraction : IsFraction base digits)
    (nonempty : digits ≠ []) : isValidRank (spell digits) = true := by
  have letters : ∀ c ∈ (spell digits).toList, ('a' ≤ c && c ≤ 'z') = true := by
    intro c member
    rw [toList_spell, List.mem_map] at member
    obtain ⟨d, digit, rfl⟩ := member
    have small := fraction.below d digit
    rw [letter_iff, toNat_ofNat small]
    omega
  have last : endsWith "a" (spell digits) = false := by
    rw [Bool.eq_false_iff, ne_eq, endsWith_a, toList_spell, List.getLast?_map,
      Option.map_eq_some_iff]
    rintro ⟨d, final, same⟩
    -- The last character is `a` only for the digit zero.
    have small := fraction.below d (List.mem_of_getLast? final)
    have code := congrArg Char.toNat same
    rw [toNat_ofNat small] at code
    obtain rfl : d = 0 := by
      simp only [lowest, show 'a'.toNat = 97 from rfl] at code
      omega
    exact fraction.last final
  simp only [isValidRank, Bool.and_eq_true, decide_eq_true_eq, List.all_eq_true, last]
  exact ⟨⟨by simpa using nonempty, fun c member => by simpa using letters c member⟩, rfl⟩

/-- The valid ranks are the fractions above zero. -/
theorem isValidRank_iff {rank : String} :
    isValidRank rank = true ↔ ∃ digits, IsFraction base digits ∧ digits ≠ [] ∧ rank = spell digits := by
  constructor
  · intro valid
    simp only [isValidRank, Bool.and_eq_true, decide_eq_true_eq, List.all_eq_true] at valid
    obtain ⟨⟨nonempty, letters⟩, last⟩ := valid
    have letters : ∀ c ∈ rank.toList, lowest ≤ c.toNat ∧ c.toNat < lowest + base :=
      fun c member => letter_iff.mp (by simpa using letters c member)
    refine ⟨rank.toList.map (·.toNat - lowest), ⟨?_, ?_⟩, by simpa using nonempty, ?_⟩
    · intro d member
      obtain ⟨c, char, rfl⟩ := List.mem_map.mp member
      have := letters c char
      omega
    · intro zero
      rw [List.getLast?_map, Option.map_eq_some_iff] at zero
      obtain ⟨c, final, same⟩ := zero
      have := letters c (List.mem_of_getLast? final)
      obtain rfl : c = 'a' := Char.toNat_inj.mp (by
        simp only [lowest, show 'a'.toNat = 97 from rfl] at this same ⊢
        omega)
      rw [endsWith_a.mpr final] at last
      cases last
    · rw [← String.toList_inj, toList_spell, List.map_map]
      have back : ∀ c ∈ rank.toList, c = Char.ofNat (lowest + (c.toNat - lowest)) := by
        intro c member
        have := letters c member
        rw [show lowest + (c.toNat - lowest) = c.toNat by omega, Char.ofNat_toNat]
      exact (List.map_id _).symm.trans (List.map_congr_left back)
  · rintro ⟨digits, fraction, nonempty, rfl⟩
    exact isValidRank_spell fraction nonempty

/-! ### The checks -/

theorem matchesRankPattern_iff {rank : String} :
    matchesRankPattern rank = true ↔
      rank ≠ "" ∧ ∀ c ∈ rank.toList, lowest ≤ c.toNat ∧ c.toNat < lowest + base := by
  have empty : units rank = [] ↔ rank = "" := by
    rw [units, List.flatMap_eq_nil_iff, ← String.toList_eq_nil_iff]
    constructor
    · intro none
      rw [List.eq_nil_iff_forall_not_mem]
      intro c member
      have := none c member
      split at this <;> cases this
    · intro none
      simp [none]
  simp only [matchesRankPattern, Bool.and_eq_true, decide_eq_true_eq, List.all_eq_true, ne_eq, empty]
  refine and_congr_right fun _ => ?_
  simp only [units, List.mem_flatMap, forall_exists_index, and_imp]
  constructor
  · intro letters c member
    have first := letters
    by_cases plain : c.toNat < 0x10000
    · exact letters c.toNat c member (by simp [plain])
    · have high := letters (0xd800 + (c.toNat - 0x10000) / 0x400) c member (by simp [plain])
      simp only [lowest, base] at high
      omega
  · intro letters u c member unit
    have letter := letters c member
    rw [if_pos (by simp only [lowest, base] at letter; omega), List.mem_singleton] at unit
    rw [unit]
    exact letter

theorem assertRank_eq_ok {rank label : String} {u : Unit} :
    assertRank rank label = .ok u ↔ isValidRank rank = true := by
  have last (letters : ∀ c ∈ rank.toList, lowest ≤ c.toNat ∧ c.toNat < lowest + base) :
      endsLowest rank = endsWith "a" rank := by
    rw [Bool.eq_iff_iff, endsWith_a, endsLowest, decide_eq_true_eq,
      units_of_letters fun c member => (letters c member).2, List.getLast?_map]
    constructor
    · intro ends
      obtain ⟨c, final, code⟩ := Option.map_eq_some_iff.mp ends
      have letter : c = 'a' := Char.toNat_inj.mp (code.trans rfl)
      rw [final, letter]
    · intro ends
      rw [ends]
      rfl
  have valid : isValidRank rank = true ↔
      (rank ≠ "" ∧ ∀ c ∈ rank.toList, lowest ≤ c.toNat ∧ c.toNat < lowest + base) ∧
        endsWith "a" rank = false := by
    simp only [isValidRank, Bool.and_eq_true, decide_eq_true_eq, Bool.not_eq_true',
      List.all_eq_true, ← letter_iff]
  rw [valid]
  simp only [assertRank, bind_eq_ok, ensure_eq_ok, matchesRankPattern_iff]
  constructor
  · rintro ⟨-, letters, final⟩
    exact ⟨letters, by rw [← last letters.2, final]⟩
  · rintro ⟨letters, final⟩
    exact ⟨(), letters, by rw [last letters.2, final]⟩

/-! ### The midpoint -/

private theorem indexOf_code {d : Nat} (small : d < base) : indexOf (some (lowest + d)) = d := by
  simp only [indexOf]
  rw [if_pos ⟨by omega, by omega⟩]
  omega

private theorem digitAt_ofNat {d : Nat} (small : d < base) : digitAt d = [lowest + d] := by
  rw [digitAt, if_pos ⟨by omega, by exact_mod_cast small⟩]
  rfl

private theorem lowerDigit_codes {digits : List Nat} (fraction : IsFraction base digits) :
    lowerDigit (codes digits) = (digits.headD 0 : Nat) := by
  cases digits with
  | nil => rfl
  | cons d rest => simpa [lowerDigit] using indexOf_code (fraction.below d (by simp))

private theorem round_half {d e : Nat} : ((d : Int) + (e : Int) + 1) / 2 = ((d + e + 1) / 2 : Nat) := by
  omega

theorem midpoint_none {lower : List Nat} (fraction : IsFraction base lower) :
    midpoint (codes lower) none = codes (above base lower) := by
  induction lower with
  | nil =>
    rw [midpoint]
    decide
  | cons d rest ih =>
    have digit := fraction.below d (by simp)
    rw [midpoint]
    simp only [copied, Nat.lt_irrefl, dite_false, lowerDigit_codes fraction, List.headD_cons,
      upperDigit, Option.any_none, Bool.false_eq_true, if_false]
    rw [above]
    by_cases wide : 1 < base - d
    · rw [dif_pos (by omega), if_pos wide, round_half, digitAt_ofNat (by omega)]
      rfl
    · rw [dif_neg (by omega), if_neg wide, digitAt_ofNat digit]
      exact congrArg ((lowest + d) :: ·) (ih fraction.tail)

theorem midpoint_cons_of_same {lower upper : List Nat} {u : Nat} (same : lower.headD lowest = u) :
    midpoint lower (some (u :: upper)) = u :: midpoint lower.tail (some upper) := by
  have counts : copied lower (some (u :: upper)) = shared lower.tail upper + 1 := by
    simp only [copied, shared, same, if_true]
  rw [midpoint]
  simp only [counts, Nat.succ_pos, dite_true, Option.getD_some, List.take_succ_cons,
    Option.map_some, List.cons_append, ← List.drop_tail]
  congr 1
  by_cases more : 0 < shared lower.tail upper
  · conv_rhs => rw [midpoint]
    simp only [copied, more, dite_true, Option.getD_some, Option.map_some, List.tail_cons]
  · rw [Nat.eq_zero_of_not_pos more]
    rfl

private theorem tail_codes (digits : List Nat) : (codes digits).tail = codes digits.tail :=
  List.map_tail.symm

private theorem headD_codes (digits : List Nat) :
    (codes digits).headD lowest = lowest + digits.headD 0 := by
  cases digits <;> rfl

theorem midpoint_some {lower upper : List Nat} (low : IsFraction base lower)
    (high : IsFraction base upper) (less : lower < upper) :
    midpoint (codes lower) (some (codes upper)) = codes (between base lower upper) := by
  induction upper generalizing lower with
  | nil => exact absurd less (List.not_lt_nil _)
  | cons u upper ih =>
    have digit := high.below u (by simp)
    have order := headD_le_of_lt less
    rw [between]
    by_cases same : lower.headD 0 = u
    · have head : (codes lower).headD lowest = lowest + u := by rw [headD_codes, same]
      have rest := ih low.tail high.tail (tail_lt_of_headD less high same)
      rw [if_pos same, codes_cons, midpoint_cons_of_same head, codes_cons, tail_codes, rest]
    · have differ : (codes lower).headD lowest ≠ lowest + u := by
        rw [headD_codes]
        omega
      have start : copied (codes lower) (some (codes (u :: upper))) = 0 := by
        simp only [copied, codes_cons, shared, differ, if_false]
      have upperIs : upperDigit (some (codes (u :: upper))) = (u : Int) := by
        simpa [upperDigit] using indexOf_code digit
      rw [if_neg same, midpoint]
      simp only [start, Nat.lt_irrefl, dite_false, upperIs, lowerDigit_codes low]
      by_cases wide : 1 < u - lower.headD 0
      · rw [dif_pos (by omega), if_pos wide, round_half, digitAt_ofNat (by omega)]
        rfl
      · rw [dif_neg (by omega), if_neg wide]
        by_cases more : upper = []
        · subst more
          simp only [codes_cons, codes_nil, Option.any_some, List.length_singleton,
            Nat.lt_irrefl, decide_false, Bool.false_eq_true, if_false, ne_eq, not_true,
            digitAt_ofNat (show lower.headD 0 < base by omega)]
          rw [tail_codes, midpoint_none low.tail]
          rfl
        · have long : 0 < upper.length := List.length_pos_iff.mpr more
          simp [codes, long, more]

end Desktop

/-! ### Between two ranks -/

/-- The digits between two fractions, either of which may be missing. -/
def middle : Option (List Nat) → Option (List Nat) → List Nat
  | none, none => [13]
  | before, none => above base (before.getD [])
  | before, some after => between base (before.getD []) after

/-- Bounds between which a rank is asked for. -/
structure Bounds (before after : Option (List Nat)) : Prop where
  lower : ∀ b ∈ before, IsFraction base b ∧ b ≠ []
  upper : ∀ a ∈ after, IsFraction base a ∧ a ≠ []
  order : ∀ b ∈ before, ∀ a ∈ after, b < a

namespace Bounds

variable {before after : Option (List Nat)}

theorem fraction_lower (bounds : Bounds before after) : IsFraction base (before.getD []) := by
  cases before with
  | none => exact IsFraction.nil
  | some b => exact (bounds.lower b rfl).1

theorem getD_lt (bounds : Bounds before after) {a : List Nat} (given : after = some a) :
    before.getD [] < a := by
  cases before with
  | none =>
    obtain ⟨d, rest, rfl⟩ := List.exists_cons_of_ne_nil (bounds.upper a given).2
    exact List.nil_lt_cons _ _
  | some b => exact bounds.order b rfl a given

theorem middle_spec (bounds : Bounds before after) :
    IsFraction base (middle before after) ∧ middle before after ≠ [] ∧
      (∀ b ∈ before, b < middle before after) ∧ ∀ a ∈ after, middle before after < a := by
  have large : 2 ≤ base := by decide
  cases after with
  | none =>
    cases before with
    | none => exact ⟨⟨by decide, by decide⟩, by decide, nofun, nofun⟩
    | some b =>
      refine ⟨isFraction_above large (bounds.lower b rfl).1, above_ne_nil b, ?_, nofun⟩
      rintro _ ⟨⟩
      exact lt_above
  | some a =>
    obtain ⟨fraction, nonempty, lower, upper⟩ :=
      between_spec large bounds.fraction_lower (bounds.upper a rfl).1 (bounds.getD_lt rfl)
    have same : middle before (some a) = between base (before.getD []) a := by cases before <;> rfl
    rw [same]
    refine ⟨fraction, nonempty, ?_, ?_⟩
    · rintro b rfl
      exact lower
    · rintro _ ⟨⟩
      exact upper

end Bounds

namespace Desktop

theorem rankBetween_spell {before after : Option (List Nat)} (bounds : Bounds before after) :
    rankBetween (before.map spell) (after.map spell) = .ok (spell (middle before after)) := by
  have small {digits : List Nat} (fraction : IsFraction base digits) :=
    units_spell fraction.below
  have asserts {digits : List Nat} (valid : IsFraction base digits ∧ digits ≠ []) (label : String) :
      assertRank (spell digits) label = .ok () :=
    assertRank_eq_ok.mpr (isValidRank_spell valid.1 valid.2)
  cases before with
  | none =>
    cases after with
    | none => rfl
    | some a =>
      have valid := bounds.upper a rfl
      have less : ([] : List Nat) < a := bounds.getD_lt rfl
      unfold rankBetween
      simp only [Option.map_some, Option.map_none, asserts valid, small valid.1,
        reduceCtorEq, and_false, if_false, Option.getD_none]
      exact congrArg (fun r => Except.ok (ofCodes r)) (midpoint_some IsFraction.nil valid.1 less)
  | some b =>
    have valid := bounds.lower b rfl
    cases after with
    | none =>
      unfold rankBetween
      simp only [Option.map_some, Option.map_none, asserts valid, small valid.1,
        reduceCtorEq, false_and, if_false, Option.getD_some]
      exact congrArg (fun r => Except.ok (ofCodes r)) (midpoint_none valid.1)
    | some a =>
      have valid' := bounds.upper a rfl
      have less := bounds.order b rfl a rfl
      unfold rankBetween
      simp only [Option.map_some, asserts valid, asserts valid', small valid.1,
        small valid'.1, codes_lt_codes, less, ensure, if_true, reduceCtorEq, false_and, if_false,
        Option.getD_some]
      exact congrArg (fun r => Except.ok (ofCodes r)) (midpoint_some valid.1 valid'.1 less)

theorem exists_digits {rank : Option String} (valid : ∀ r ∈ rank, isValidRank r = true) :
    ∃ digits : Option (List Nat), rank = digits.map spell ∧
      ∀ d ∈ digits, IsFraction base d ∧ d ≠ [] := by
  cases rank with
  | none => exact ⟨none, rfl, nofun⟩
  | some r =>
    obtain ⟨digits, fraction, nonempty, rfl⟩ := isValidRank_iff.mp (valid r rfl)
    refine ⟨some digits, rfl, ?_⟩
    rintro _ ⟨⟩
    exact ⟨fraction, nonempty⟩

theorem exists_bounds {before after : Option String} (lower : ∀ b ∈ before, isValidRank b = true)
    (upper : ∀ a ∈ after, isValidRank a = true) (order : ∀ b ∈ before, ∀ a ∈ after, b < a) :
    ∃ b a, before = Option.map spell b ∧ after = Option.map spell a ∧ Bounds b a := by
  obtain ⟨b, rfl, low⟩ := exists_digits lower
  obtain ⟨a, rfl, high⟩ := exists_digits upper
  refine ⟨b, a, rfl, rfl, low, high, ?_⟩
  rintro digits rfl digits' rfl
  exact (spell_lt_spell (low _ rfl).1.below (high _ rfl).1.below).mp (order _ rfl _ rfl)

theorem rankBetween_spec {before after : Option String} (lower : ∀ b ∈ before, isValidRank b = true)
    (upper : ∀ a ∈ after, isValidRank a = true) (order : ∀ b ∈ before, ∀ a ∈ after, b < a) :
    ∃ rank, rankBetween before after = .ok rank ∧ isValidRank rank = true ∧
      (∀ b ∈ before, b < rank) ∧ ∀ a ∈ after, rank < a := by
  obtain ⟨b, a, rfl, rfl, bounds⟩ := exists_bounds lower upper order
  obtain ⟨fraction, nonempty, below, above⟩ := bounds.middle_spec
  refine ⟨_, rankBetween_spell bounds, isValidRank_spell fraction nonempty, ?_, ?_⟩
  · intro rank given
    obtain ⟨digits, rfl, rfl⟩ := Option.map_eq_some_iff.mp given
    exact (spell_lt_spell (bounds.lower _ rfl).1.below fraction.below).mpr (below _ rfl)
  · intro rank given
    obtain ⟨digits, rfl, rfl⟩ := Option.map_eq_some_iff.mp given
    exact (spell_lt_spell fraction.below (bounds.upper _ rfl).1.below).mpr (above _ rfl)

theorem bounds_of_rankBetween {before after : Option String} {rank : String}
    (answered : rankBetween before after = .ok rank) :
    ∃ b a, before = Option.map spell b ∧ after = Option.map spell a ∧ Bounds b a := by
  have valid : (∀ b ∈ before, isValidRank b = true) ∧ (∀ a ∈ after, isValidRank a = true) ∧
      ∀ b ∈ before, ∀ a ∈ after, units b < units a := by
    unfold rankBetween at answered
    cases before <;> cases after <;>
      simp_all [assertRank_eq_ok, -bind_pure_comp]
  obtain ⟨lower, upper, order⟩ := valid
  obtain ⟨b, rfl, low⟩ := exists_digits lower
  obtain ⟨a, rfl, high⟩ := exists_digits upper
  refine ⟨b, a, rfl, rfl, low, high, ?_⟩
  rintro digits rfl digits' rfl
  have less := order _ rfl _ rfl
  rwa [units_spell (low _ rfl).1.below, units_spell (high _ rfl).1.below, codes_lt_codes] at less

/-! ### Insertions into a column -/

/-- The ranks of a column are valid and strictly increasing. -/
structure Ordered (column : List String) : Prop where
  valid : ∀ rank ∈ column, isValidRank rank = true
  increasing : column.Pairwise (· < ·)

variable {column : List String} {i : Nat} {rank : String}

private theorem lt_of_predecessor (increasing : column.Pairwise (· < ·)) (fits : i ≤ column.length)
    (lower : ∀ b ∈ if i = 0 then none else column[i - 1]?, b < rank) {before : String}
    (member : before ∈ column.take i) : before < rank := by
  obtain ⟨j, inside, rfl⟩ := List.mem_iff_getElem.mp member
  rw [List.length_take] at inside
  have bound : i - 1 < column.length := by omega
  have last : column[i - 1]? = some column[i - 1] := List.getElem?_eq_getElem bound
  have below : column[i - 1] < rank := lower _ (by rw [if_neg (by omega), last]; rfl)
  rw [List.getElem_take]
  rcases Nat.lt_or_ge j (i - 1) with earlier | final
  · exact (List.pairwise_iff_getElem.mp increasing j (i - 1) _ _ earlier).trans below
  · obtain rfl : j = i - 1 := by omega
    exact below

private theorem lt_of_successor (increasing : column.Pairwise (· < ·))
    (upper : ∀ a ∈ column[i]?, rank < a) {after : String} (member : after ∈ column.drop i) :
    rank < after := by
  obtain ⟨j, inside, rfl⟩ := List.mem_iff_getElem.mp member
  rw [List.length_drop] at inside
  have bound : i < column.length := by omega
  have above : rank < column[i] := upper _ (List.getElem?_eq_getElem bound)
  rw [List.getElem_drop]
  rcases Nat.eq_zero_or_pos j with rfl | later
  · exact above
  · exact above.trans (List.pairwise_iff_getElem.mp increasing i (i + j) _ _ (by omega))

theorem Ordered.insertAt (ordered : Ordered column) (position : Nat) :
    ∃ longer, Desktop.insertAt column position = .ok longer ∧ Ordered longer ∧
      column.Sublist longer ∧ longer.length = column.length + 1 := by
  generalize place : min position column.length = i
  obtain ⟨rank, between, valid, lower, upper⟩ : ∃ rank,
      rankBetween (if i = 0 then none else column[i - 1]?) column[i]? = .ok rank ∧
        isValidRank rank = true ∧ (∀ b ∈ if i = 0 then none else column[i - 1]?, b < rank) ∧
        ∀ a ∈ column[i]?, rank < a := by
    refine rankBetween_spec ?_ ?_ ?_
    · intro b given
      split at given
      · cases given
      · exact ordered.valid b (List.mem_of_getElem? given)
    · intro a given
      exact ordered.valid a (List.mem_of_getElem? given)
    · intro b given a given'
      split at given
      · cases given
      · obtain ⟨here, rfl⟩ := List.getElem?_eq_some_iff.mp given
        obtain ⟨there, rfl⟩ := List.getElem?_eq_some_iff.mp given'
        exact List.pairwise_iff_getElem.mp ordered.increasing (i - 1) i _ _ (by omega)
  have parts := List.take_append_drop i column
  refine ⟨column.take i ++ rank :: column.drop i, ?_, ⟨?_, ?_⟩, ?_, ?_⟩
  · rw [Desktop.insertAt]
    simp only [place, between]
    rfl
  · intro r member
    rcases List.mem_append.mp member with front | back
    · exact ordered.valid r (List.mem_of_mem_take front)
    · rcases List.mem_cons.mp back with rfl | back
      · exact valid
      · exact ordered.valid r (List.mem_of_mem_drop back)
  · have increasing := ordered.increasing
    rw [← parts, List.pairwise_append] at increasing
    obtain ⟨front, back, across⟩ := increasing
    refine List.pairwise_append.mpr ⟨front, List.pairwise_cons.mpr ⟨?_, back⟩, ?_⟩
    · exact fun after member => lt_of_successor ordered.increasing upper member
    · intro before member after member'
      have below := lt_of_predecessor ordered.increasing (by omega) lower member
      rcases List.mem_cons.mp member' with rfl | later
      · exact below
      · exact across before member after later
  · conv_lhs => rw [← parts]
    exact (List.Sublist.refl _).append (List.sublist_cons_self _ _)
  · rw [List.length_append, List.length_cons, List.length_take, List.length_drop]
    omega

theorem Ordered.insertions (ordered : Ordered column) (positions : List Nat) :
    ∃ longer, positions.foldlM Desktop.insertAt column = .ok longer ∧ Ordered longer ∧
      column.Sublist longer ∧ longer.length = column.length + positions.length := by
  induction positions generalizing column with
  | nil => exact ⟨column, rfl, ordered, List.Sublist.refl _, rfl⟩
  | cons position rest ih =>
    obtain ⟨next, inserted, nextOrdered, keeps, length⟩ := ordered.insertAt position
    obtain ⟨longer, inserts, longerOrdered, keeps', length'⟩ := ih nextOrdered
    refine ⟨longer, ?_, longerOrdered, keeps.trans keeps', ?_⟩
    · rw [List.foldlM_cons, inserted]
      exact inserts
    · rw [length', length, List.length_cons]
      omega

/-- Between any two ranks there is another one, and a column that grows by insertions, wherever
they are made, keeps all its ranks valid, distinct and in order. -/
theorem rankBetween_dense :
    (∀ before after : Option String, (∀ b ∈ before, isValidRank b = true) →
      (∀ a ∈ after, isValidRank a = true) → (∀ b ∈ before, ∀ a ∈ after, b < a) →
      ∃ rank, rankBetween before after = .ok rank ∧ isValidRank rank = true ∧
        (∀ b ∈ before, b < rank) ∧ ∀ a ∈ after, rank < a) ∧
    ∀ (column : List String) (positions : List Nat), Ordered column →
      ∃ longer, positions.foldlM insertAt column = .ok longer ∧ Ordered longer ∧
        column.Sublist longer ∧ longer.length = column.length + positions.length :=
  ⟨fun _ _ lower upper order => rankBetween_spec lower upper order,
    fun _ positions ordered => ordered.insertions positions⟩

theorem rankBetween_dense_samples :
    (∃ rank, rankBetween (some "h") (some "i") = .ok rank ∧ isValidRank rank = true ∧
      (∀ b ∈ some "h", b < rank) ∧ ∀ a ∈ some "i", rank < a) ∧
    ∃ longer, [0, 1, 0].foldlM insertAt ["n"] = .ok longer ∧ Ordered longer ∧
      ["n"].Sublist longer ∧ longer.length = 4 := by
  refine ⟨rankBetween_dense.1 (some "h") (some "i") ?_ ?_ ?_,
    rankBetween_dense.2 ["n"] [0, 1, 0] ⟨by decide, by decide⟩⟩
  · rintro _ ⟨⟩
    decide
  · rintro _ ⟨⟩
    decide
  · rintro _ ⟨⟩ _ ⟨⟩
    decide

end Desktop

end Board
