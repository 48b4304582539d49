import Mathlib.Data.List.Infix
import Mathlib.Data.List.TakeWhile
import Mathlib.Data.String.Basic
import Mathlib.Algebra.Ring.Int.Defs
import Mathlib.Algebra.Ring.Nat

/-!
# Text

The string operations of the sources, by their characters. `String` is ordered by
code points, which is the byte order of its UTF-8 form.
-/
namespace Lib

/-- `s.len()`: the length in UTF-8 bytes. -/
def byteLen (s : String) : Nat := (s.toList.map Char.utf8Size).sum

/-- `s.starts_with(start)`. -/
def startsWith (start s : String) : Bool := start.toList.isPrefixOf s.toList

/-- `s.strip_prefix(start)`. -/
def stripStart (start s : String) : Option String :=
  if startsWith start s then some (String.ofList (s.toList.drop start.toList.length)) else none

/-- `s.ends_with(ending)`. -/
def endsWith (ending s : String) : Bool := ending.toList.isSuffixOf s.toList

/-- `s.strip_suffix(ending)`. -/
def stripEnd (ending s : String) : Option String :=
  if endsWith ending s then
    some (String.ofList (s.toList.take (s.toList.length - ending.toList.length)))
  else none

/-- `s.contains(part)`. -/
def containsText (part s : String) : Bool := decide (part.toList <:+: s.toList)

/-- `s` without the characters in `isSpace` at either end. -/
def trimBy (isSpace : Char → Bool) (s : String) : String :=
  String.ofList ((s.toList.dropWhile isSpace).reverse.dropWhile isSpace).reverse

/-- `char::is_whitespace`: the Unicode property White_Space. -/
def isWhiteSpace (c : Char) : Bool :=
  let n := c.toNat
  (0x09 ≤ n && n ≤ 0x0d) || n == 0x20 || n == 0x85 || n == 0xa0 || n == 0x1680 ||
    (0x2000 ≤ n && n ≤ 0x200a) || n == 0x2028 || n == 0x2029 || n == 0x202f || n == 0x205f ||
    n == 0x3000

/-- `str::trim`. -/
def trim (s : String) : String := trimBy isWhiteSpace s

/-- The text before the first `sep` and the text behind it. -/
def splitOnce (sep : Char) (s : String) : Option (String × String) :=
  match s.toList.dropWhile (· ≠ sep) with
  | [] => none
  | _ :: rest => some (String.ofList (s.toList.takeWhile (· ≠ sep)), String.ofList rest)

/-- `char::is_ascii_hexdigit`. -/
def isAsciiHexDigit (c : Char) : Bool :=
  ('0' ≤ c && c ≤ '9') || ('a' ≤ c && c ≤ 'f') || ('A' ≤ c && c ≤ 'F')

/-- `char::is_ascii_alphanumeric`. -/
def isAsciiAlphanumeric (c : Char) : Bool :=
  ('0' ≤ c && c ≤ '9') || ('a' ≤ c && c ≤ 'z') || ('A' ≤ c && c ≤ 'Z')

/-- `str::parse::<u64>`: decimal digits, which may follow a plus sign. -/
def parseU64 (s : String) : Option Nat :=
  let digits := match s.toList with
    | '+' :: rest => rest
    | chars => chars
  if digits ≠ [] ∧ digits.all Char.isDigit then
    let n := digits.foldl (fun n c => n * 10 + (c.toNat - '0'.toNat)) 0
    if n < 2 ^ 64 then some n else none
  else none

theorem toList_of_spelled {s : String} {chars : List Char} (spelled : s = String.ofList chars) :
    s.toList = chars := by
  rw [spelled, String.toList_ofList]

theorem toList_of_parts {s t : String} {chars chars' : List Char} (spelled : s = String.ofList chars)
    (spelled' : t = String.ofList chars') : (s ++ t).toList = chars ++ chars' := by
  rw [String.toList_append, toList_of_spelled spelled, toList_of_spelled spelled']

@[simp] theorem fromUTF8?_toUTF8 (s : String) : String.fromUTF8? s.toUTF8 = some s := by
  exact dif_pos s.isValidUTF8

theorem stripStart_append (start rest : String) : stripStart start (start ++ rest) = some rest := by
  simp [stripStart, startsWith]

private theorem dropWhile_eq_self {α : Type} {p : α → Bool} {l : List α}
    (none : ∀ a ∈ l, p a = false) : l.dropWhile p = l := by
  cases l with
  | nil => rfl
  | cons a rest => rw [List.dropWhile_cons_of_neg (by simp [none a])]

theorem trimBy_eq_self {isSpace : Char → Bool} {s : String}
    (none : ∀ c ∈ s.toList, isSpace c = false) : trimBy isSpace s = s := by
  unfold trimBy
  rw [dropWhile_eq_self none, dropWhile_eq_self (by simpa using none)]
  simp

theorem trimBy_ne_empty_iff {isSpace : Char → Bool} {s : String} :
    trimBy isSpace s ≠ "" ↔ ∃ c ∈ s.toList, isSpace c = false := by
  unfold trimBy
  rw [ne_eq, String.ofList_eq_empty_iff, List.reverse_eq_nil_iff, List.dropWhile_eq_nil_iff]
  simp only [List.mem_reverse, not_forall, Bool.not_eq_true]
  constructor
  · rintro ⟨c, member, shown⟩
    exact ⟨c, (List.dropWhile_suffix _).subset member, shown⟩
  · rintro ⟨c, member, shown⟩
    have parts := List.takeWhile_append_dropWhile (p := isSpace) (l := s.toList)
    rw [← parts, List.mem_append] at member
    rcases member with front | rest
    · -- What is dropped from the front is space.
      have space := List.mem_takeWhile_imp front
      rw [shown] at space
      cases space
    · exact ⟨c, rest, shown⟩

theorem mem_of_splitOnce {sep c : Char} {s before behind : String}
    (found : splitOnce sep s = some (before, behind)) (member : c ∈ behind.toList) :
    c ∈ s.toList := by
  unfold splitOnce at found
  split at found
  · cases found
  next first rest dropped =>
    cases found
    rw [String.toList_ofList] at member
    apply (List.dropWhile_suffix (p := (· ≠ sep)) (l := s.toList)).subset
    rw [dropped]
    exact List.mem_cons_of_mem first member

theorem splitOnce_append {sep : Char} {before : String} (free : sep ∉ before.toList)
    (behind : String) :
    splitOnce sep (before ++ (String.singleton sep ++ behind)) = some (before, behind) := by
  have apart : ∀ c ∈ before.toList, (decide (c ≠ sep)) = true :=
    fun c member => decide_eq_true fun same => free (same ▸ member)
  have text : (before ++ (String.singleton sep ++ behind)).toList =
      before.toList ++ sep :: behind.toList := by simp
  have dropped : (before.toList ++ sep :: behind.toList).dropWhile (· ≠ sep) =
      sep :: behind.toList := by
    rw [List.dropWhile_append_of_pos apart]
    simp
  have taken : (before.toList ++ sep :: behind.toList).takeWhile (· ≠ sep) = before.toList := by
    rw [List.takeWhile_append_of_pos apart]
    simp
  unfold splitOnce
  rw [text, dropped, taken]
  simp

theorem byteLen_eq_length {s : String} (ascii : ∀ c ∈ s.toList, c.utf8Size = 1) :
    byteLen s = s.length := by
  have ones : s.toList.map Char.utf8Size = List.replicate s.toList.length 1 := by
    rw [List.eq_replicate_iff]
    simpa using ascii
  simp [byteLen, ones, String.length_toList]

end Lib
