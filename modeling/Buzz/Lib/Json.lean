import Buzz.Lib.Text
import Mathlib.Data.List.TakeWhile
import Mathlib.Tactic.IntervalCases

/-!
# JSON

Values, the compact printer and the parser of the standard grammar. An object
keeps its members in order and with repetitions, because readers differ in what
they make of a repeated name; a number keeps its literal. The parser takes a
bound on the nesting of arrays and objects.

`parse_print` is the round trip: a value that is not nested too deeply is read
back from its printed form.
-/
namespace Lib

namespace Number

/-- The characters of number literals. -/
def isPart (c : Char) : Bool :=
  c.isDigit || c == '-' || c == '+' || c == '.' || c == 'e' || c == 'E'

def exponentOk : List Char → Bool
  | [] => true
  | c :: rest =>
    let digits := if rest.head? = some '+' ∨ rest.head? = some '-' then rest.tail else rest
    (c == 'e' || c == 'E') && !digits.isEmpty && digits.all Char.isDigit

def fractionOk : List Char → Bool
  | [] => true
  | c :: rest =>
    if c = '.' then rest.head?.any Char.isDigit && exponentOk (rest.dropWhile Char.isDigit)
    else exponentOk (c :: rest)

def integerOk : List Char → Bool
  | [] => false
  | c :: rest =>
    if c = '0' then fractionOk rest
    else c.isDigit && fractionOk (rest.dropWhile Char.isDigit)

/-- The number grammar: no leading zeros, digits on both sides of a point. -/
def literalOk (text : List Char) : Bool :=
  integerOk (if text.head? = some '-' then text.tail else text)

end Number

/-- A number as it is written. -/
structure NumberLiteral where
  text : List Char
  parts : text.all Number.isPart = true
  valid : Number.literalOk text = true
deriving DecidableEq

namespace NumberLiteral

private theorem isDigit_of_mem_toDigits {n : Nat} {c : Char} (member : c ∈ Nat.toDigits 10 n) :
    c.isDigit = true := Nat.isDigit_of_mem_toDigits (by decide) (by decide) member

private theorem toDigits_head (n : Nat) :
    n = 0 ∨ ∃ c rest, Nat.toDigits 10 n = c :: rest ∧ c ≠ '0' := by
  induction n using Nat.strongRecOn with
  | _ n ih =>
    rcases Nat.lt_or_ge n 10 with small | large
    · rw [Nat.toDigits_of_lt_base small]
      interval_cases n <;> simp [Nat.digitChar]
    · rw [Nat.toDigits_of_base_le (by decide) large]
      rcases ih (n / 10) (by omega) with zero | ⟨c, rest, head, nonzero⟩
      · omega
      · exact Or.inr ⟨c, rest ++ [(n % 10).digitChar], by simp [head], nonzero⟩

/-- The decimal literal of a natural number. -/
def ofNat (n : Nat) : NumberLiteral where
  text := Nat.toDigits 10 n
  parts := by
    rw [List.all_eq_true]
    intro c member
    simp [Number.isPart, isDigit_of_mem_toDigits member]
  valid := by
    rcases toDigits_head n with rfl | ⟨c, rest, head, nonzero⟩
    · rfl
    · have digit : c.isDigit = true := isDigit_of_mem_toDigits (n := n) (by simp [head])
      have unsigned : c ≠ '-' := by
        rintro rfl
        simp [Char.isDigit] at digit
      have dropped : rest.dropWhile Char.isDigit = [] := by
        rw [List.dropWhile_eq_nil_iff]
        exact fun c member => isDigit_of_mem_toDigits (n := n) (by simp [head, member])
      simp [head, Number.literalOk, Number.integerOk, digit, unsigned, nonzero, dropped,
        Number.fractionOk]

/-- The value of a literal without sign, point or exponent. -/
def toNat? (literal : NumberLiteral) : Option Nat :=
  if literal.text.all Char.isDigit then some (Nat.ofDigitChars 10 literal.text 0) else none

@[simp] theorem toNat?_ofNat (n : Nat) : (ofNat n).toNat? = some n := by
  have digits : (Nat.toDigits 10 n).all Char.isDigit = true := by
    rw [List.all_eq_true]
    exact fun c member => isDigit_of_mem_toDigits member
  simp [toNat?, ofNat, digits, Nat.ofDigitChars_ten_toDigits]

/-- The number as an integer times a power of ten. -/
def scientific (literal : NumberLiteral) : Int × Int :=
  let negative := literal.text.head? = some '-'
  let unsigned := if negative then literal.text.tail else literal.text
  let whole := unsigned.takeWhile Char.isDigit
  let afterWhole := unsigned.dropWhile Char.isDigit
  let (fraction, afterFraction) := if afterWhole.head? = some '.' then
    (afterWhole.tail.takeWhile Char.isDigit, afterWhole.tail.dropWhile Char.isDigit)
  else ([], afterWhole)
  let digits : Int := Nat.ofDigitChars 10 (whole ++ fraction) 0
  let power := afterFraction.tail.filter Char.isDigit
  let exponent : Int := Nat.ofDigitChars 10 power 0
  (if negative then -digits else digits,
    (if '-' ∈ afterFraction.tail then -exponent else exponent) - fraction.length)

/-- The literals are of one number, as `1e2`, `100` and `100.0` are. -/
def SameNumber (a b : NumberLiteral) : Prop :=
  a.scientific.1 * (10 ^ (a.scientific.2 - b.scientific.2).toNat : Nat) =
    b.scientific.1 * (10 ^ (b.scientific.2 - a.scientific.2).toNat : Nat)

instance (a b : NumberLiteral) : Decidable (SameNumber a b) :=
  inferInstanceAs (Decidable ((_ : Int) = _))

theorem SameNumber.refl (literal : NumberLiteral) : SameNumber literal literal := rfl

end NumberLiteral

inductive Json where
  | null
  | bool (b : Bool)
  | num (literal : NumberLiteral)
  | str (s : String)
  | arr (items : List Json)
  | obj (members : List (String × Json))

namespace Json

/-! ### Strings -/

def hexDigitChar (n : Nat) : Char := if n < 10 then Char.ofNat (48 + n) else Char.ofNat (87 + n)

def hexValue (c : Char) : Option Nat :=
  if c.isDigit then some (c.toNat - 48)
  else if 'a' ≤ c ∧ c ≤ 'f' then some (c.toNat - 87)
  else if 'A' ≤ c ∧ c ≤ 'F' then some (c.toNat - 55)
  else none

/-- Quotes, backslashes and control characters are escaped. -/
def escapeChar (c : Char) : List Char :=
  if c = '"' then ['\\', '"']
  else if c = '\\' then ['\\', '\\']
  else if c.toNat < 0x20 then
    match c.toNat with
    | 8 => ['\\', 'b']
    | 9 => ['\\', 't']
    | 10 => ['\\', 'n']
    | 12 => ['\\', 'f']
    | 13 => ['\\', 'r']
    | n => ['\\', 'u', '0', '0', hexDigitChar (n / 16), hexDigitChar (n % 16)]
  else [c]

def printString (s : String) : List Char := '"' :: s.toList.flatMap escapeChar ++ ['"']

/-- The character a one-letter escape stands for. -/
def unescape (c : Char) : Option Char :=
  match c with
  | '"' => some '"'
  | '\\' => some '\\'
  | '/' => some '/'
  | 'b' => some (Char.ofNat 8)
  | 'f' => some (Char.ofNat 12)
  | 'n' => some (Char.ofNat 10)
  | 'r' => some (Char.ofNat 13)
  | 't' => some (Char.ofNat 9)
  | _ => none

/-- Four hex digits. -/
def hex4 (a b c d : Char) : Option Nat := do
  let a ← hexValue a
  let b ← hexValue b
  let c ← hexValue c
  let d ← hexValue d
  some (((a * 16 + b) * 16 + c) * 16 + d)

/-- One character of a string. A high surrogate needs the low one behind it; a
raw control character is refused. -/
def readChar : List Char → Option (Char × List Char)
  | '\\' :: 'u' :: a :: b :: c :: d :: rest => do
    let code ← hex4 a b c d
    if 0xd800 ≤ code ∧ code < 0xdc00 then
      match rest with
      | '\\' :: 'u' :: a :: b :: c :: d :: rest => do
        let low ← hex4 a b c d
        if 0xdc00 ≤ low ∧ low < 0xe000 then
          some (Char.ofNat (0x10000 + (code - 0xd800) * 0x400 + (low - 0xdc00)), rest)
        else none
      | _ => none
    else if 0xdc00 ≤ code ∧ code < 0xe000 then none
    else some (Char.ofNat code, rest)
  | '\\' :: escaped :: rest => (unescape escaped).map (·, rest)
  | c :: rest => if c = '\\' ∨ c.toNat < 0x20 then none else some (c, rest)
  | [] => none

/-- The characters up to the closing quote. -/
def parseChars : Nat → List Char → Option (List Char × List Char)
  | 0, _ => none
  | fuel + 1, text =>
    if text.head? = some '"' then some ([], text.tail)
    else do
      let (c, rest) ← readChar text
      let (chars, rest) ← parseChars fuel rest
      some (c :: chars, rest)

private theorem readChar_control {n : Nat} (small : n < 0x20) (tail : List Char) :
    readChar (escapeChar (Char.ofNat n) ++ tail) = some (Char.ofNat n, tail) := by
  interval_cases n <;> rfl

private theorem readChar_escapeChar (c : Char) (tail : List Char) :
    readChar (escapeChar c ++ tail) = some (c, tail) := by
  by_cases control : c.toNat < 0x20
  · rw [← Char.ofNat_toNat c]
    exact readChar_control control tail
  · unfold escapeChar
    split
    next quote => subst quote; rfl
    next plain =>
      split
      next slash => subst slash; rfl
      next unescaped => simp [readChar, unescaped, control]

private theorem escapeChar_head (c : Char) :
    ∃ first rest, escapeChar c = first :: rest ∧ first ≠ '"' := by
  unfold escapeChar
  split
  next => exact ⟨_, _, rfl, by decide⟩
  next plain =>
    repeat' split
    all_goals first
      | exact ⟨_, _, rfl, by decide⟩
      | exact ⟨_, _, rfl, plain⟩

private theorem parseChars_printed (s : List Char) (rest : List Char) {fuel : Nat}
    (enough : s.length < fuel) :
    parseChars fuel (s.flatMap escapeChar ++ '"' :: rest) = some (s, rest) := by
  induction s generalizing fuel with
  | nil =>
    obtain ⟨fuel, rfl⟩ := Nat.exists_eq_add_of_lt enough
    simp [parseChars]
  | cons c s ih =>
    obtain ⟨fuel, rfl⟩ : ∃ k, fuel = k + 1 := ⟨fuel - 1, by simp at enough; omega⟩
    obtain ⟨first, later, written, plain⟩ := escapeChar_head c
    have head : (escapeChar c ++ (s.flatMap escapeChar ++ '"' :: rest)).head? ≠ some '"' := by
      simp [written, plain]
    rw [List.flatMap_cons, List.append_assoc, parseChars, if_neg head, readChar_escapeChar]
    have shorter : s.length < fuel := by simpa using enough
    simp [ih shorter]

private theorem length_le_printed (s : List Char) : s.length ≤ (s.flatMap escapeChar).length := by
  induction s with
  | nil => simp
  | cons c s ih =>
    obtain ⟨first, later, written, -⟩ := escapeChar_head c
    simp only [List.flatMap_cons, List.length_append, written, List.length_cons]
    omega

/-- The string behind an opening quote. -/
def parseString (text : List Char) : Option (String × List Char) :=
  (parseChars text.length text).map fun read => (String.ofList read.1, read.2)

theorem parseString_printed (s : String) (rest : List Char) :
    parseString (s.toList.flatMap escapeChar ++ '"' :: rest) = some (s, rest) := by
  have enough := length_le_printed s.toList
  rw [parseString, parseChars_printed s.toList rest
    (by simp only [List.length_append, List.length_cons]; omega)]
  simp

/-! ### Values -/

mutual
/-- The compact form: no space between the tokens. -/
def print : Json → List Char
  | .null => ['n', 'u', 'l', 'l']
  | .bool true => ['t', 'r', 'u', 'e']
  | .bool false => ['f', 'a', 'l', 's', 'e']
  | .num literal => literal.text
  | .str s => printString s
  | .arr [] => ['[', ']']
  | .arr (item :: rest) => '[' :: (item.print ++ printItems rest)
  | .obj [] => ['\x7b', '\x7d']
  | .obj ((name, value) :: rest) =>
    '\x7b' :: (printString name ++ ':' :: (value.print ++ printMembers rest))

/-- The further items of an array and its end. -/
def printItems : List Json → List Char
  | [] => [']']
  | item :: rest => ',' :: (item.print ++ printItems rest)

/-- The further members of an object and its end. -/
def printMembers : List (String × Json) → List Char
  | [] => ['\x7d']
  | (name, value) :: rest =>
    ',' :: (printString name ++ ':' :: (value.print ++ printMembers rest))
end

mutual
/-- How deep arrays and objects are nested. -/
def nesting : Json → Nat
  | .null | .bool _ | .num _ | .str _ => 0
  | .arr items => nestingItems items + 1
  | .obj members => nestingMembers members + 1

def nestingItems : List Json → Nat
  | [] => 0
  | item :: rest => max item.nesting (nestingItems rest)

def nestingMembers : List (String × Json) → Nat
  | [] => 0
  | (_, value) :: rest => max value.nesting (nestingMembers rest)
end

def isSpace (c : Char) : Bool := c == ' ' || c == '\n' || c == '\r' || c == '\t'

def skipSpace (text : List Char) : List Char := text.dropWhile isSpace

/-- A number, as far as its characters reach. -/
def parseNumber (text : List Char) : Option (Json × List Char) :=
  let literal := text.takeWhile Number.isPart
  if valid : literal.all Number.isPart = true ∧ Number.literalOk literal = true then
    some (.num ⟨literal, valid.1, valid.2⟩, text.dropWhile Number.isPart)
  else none

def parseScalar : List Char → Option (Json × List Char)
  | '"' :: rest => (parseString rest).map fun read => (.str read.1, read.2)
  | 'n' :: 'u' :: 'l' :: 'l' :: rest => some (.null, rest)
  | 't' :: 'r' :: 'u' :: 'e' :: rest => some (.bool true, rest)
  | 'f' :: 'a' :: 'l' :: 's' :: 'e' :: rest => some (.bool false, rest)
  | text => parseNumber text

/-- The items of an array after its first bracket or a comma. -/
def parseItems (value : List Char → Option (Json × List Char)) :
    Nat → List Char → Option (List Json × List Char)
  | 0, _ => none
  | fuel + 1, text => do
    let (item, rest) ← value text
    match skipSpace rest with
    | ',' :: rest =>
      let (items, rest) ← parseItems value fuel rest
      some (item :: items, rest)
    | ']' :: rest => some ([item], rest)
    | _ => none

/-- The members of an object after its first brace or a comma. -/
def parseMembers (value : List Char → Option (Json × List Char)) :
    Nat → List Char → Option (List (String × Json) × List Char)
  | 0, _ => none
  | fuel + 1, text =>
    match skipSpace text with
    | '"' :: rest => do
      let (name, rest) ← parseString rest
      match skipSpace rest with
      | ':' :: rest =>
        let (item, rest) ← value rest
        match skipSpace rest with
        | ',' :: rest =>
          let (members, rest) ← parseMembers value fuel rest
          some ((name, item) :: members, rest)
        | '\x7d' :: rest => some ([(name, item)], rest)
        | _ => none
      | _ => none
    | _ => none

/-- A value with at most `depth` levels of arrays and objects. -/
def parseValue : Nat → List Char → Option (Json × List Char)
  | 0, text => parseScalar (skipSpace text)
  | depth + 1, text =>
    match skipSpace text with
    | '[' :: rest =>
      match skipSpace rest with
      | ']' :: rest => some (.arr [], rest)
      | _ => (parseItems (parseValue depth) rest.length rest).map fun read => (.arr read.1, read.2)
    | '\x7b' :: rest =>
      match skipSpace rest with
      | '\x7d' :: rest => some (.obj [], rest)
      | _ =>
        (parseMembers (parseValue depth) rest.length rest).map fun read => (.obj read.1, read.2)
    | text => parseScalar text

/-- A text that is one value. -/
def parse (depth : Nat) (text : List Char) : Option Json := do
  let (value, rest) ← parseValue depth text
  if skipSpace rest = [] then some value else none

/-! ### The round trip -/

/-- What can follow a value: the end of the text or a character that no number goes on with. -/
def Ends (rest : List Char) : Prop := rest.takeWhile Number.isPart = []

theorem ends_nil : Ends [] := rfl

theorem ends_cons {c : Char} {rest : List Char} (other : Number.isPart c = false) :
    Ends (c :: rest) := by simp [Ends, other]

private theorem parseNumber_printed (literal : NumberLiteral) {rest : List Char}
    (ends : Ends rest) : parseNumber (literal.text ++ rest) = some (.num literal, rest) := by
  have parts : ∀ c ∈ literal.text, Number.isPart c = true := List.all_eq_true.mp literal.parts
  have taken : (literal.text ++ rest).takeWhile Number.isPart = literal.text := by
    rw [List.takeWhile_append_of_pos parts, ends, List.append_nil]
  have dropped : (literal.text ++ rest).dropWhile Number.isPart = rest := by
    have whole := List.takeWhile_append_dropWhile (p := Number.isPart) (l := literal.text ++ rest)
    rw [taken] at whole
    exact List.append_cancel_left whole
  unfold parseNumber
  simp only [taken, dropped, literal.parts, literal.valid, and_self, dite_true]

private theorem literal_head (literal : NumberLiteral) :
    ∃ c rest, literal.text = c :: rest ∧ (c.isDigit = true ∨ c = '-') := by
  have valid := literal.valid
  unfold Number.literalOk at valid
  cases text : literal.text with
  | nil => simp [text, Number.integerOk] at valid
  | cons c rest =>
    refine ⟨c, rest, rfl, ?_⟩
    by_cases minus : c = '-'
    · exact Or.inr minus
    · simp only [text, List.head?_cons, Option.some.injEq, minus, if_false, Number.integerOk]
        at valid
      split at valid
      next zero => subst zero; exact Or.inl rfl
      next => exact Or.inl (Bool.and_eq_true_iff.mp valid).1

private theorem isDigit_range {c : Char} (digit : c.isDigit = true) :
    48 ≤ c.toNat ∧ c.toNat ≤ 57 := by
  simpa [Char.isDigit, UInt32.le_iff_toNat_le] using digit

private theorem print_head (value : Json) :
    ∃ c rest, value.print = c :: rest ∧ isSpace c = false ∧ c ≠ ']' := by
  cases value with
  | null => exact ⟨_, _, by rw [print], by decide, by decide⟩
  | bool b => cases b <;> exact ⟨_, _, by rw [print], by decide, by decide⟩
  | num literal =>
    obtain ⟨c, rest, text, digit | minus⟩ := literal_head literal
    · refine ⟨c, rest, by rw [print, text], ?_, ?_⟩
      · have range := isDigit_range digit
        simp only [isSpace, Bool.or_eq_false_iff, beq_eq_false_iff_ne]
        refine ⟨⟨⟨?_, ?_⟩, ?_⟩, ?_⟩ <;> (rintro rfl; revert range; decide)
      · rintro rfl; revert digit; decide
    · exact ⟨c, rest, by rw [print, text], by rw [minus]; decide, by rw [minus]; decide⟩
  | str s => exact ⟨_, _, by rw [print, printString]; rfl, by decide, by decide⟩
  | arr items => cases items <;> exact ⟨_, _, by rw [print], by decide, by decide⟩
  | obj members =>
    rcases members with _ | ⟨⟨name, value⟩, rest⟩ <;>
      exact ⟨_, _, by rw [print], by decide, by decide⟩

private theorem skipSpace_cons {c : Char} {rest : List Char} (other : isSpace c = false) :
    skipSpace (c :: rest) = c :: rest := by simp [skipSpace, other]

private theorem skipSpace_print (value : Json) (rest : List Char) :
    skipSpace (value.print ++ rest) = value.print ++ rest := by
  obtain ⟨c, later, text, other, -⟩ := print_head value
  rw [text, List.cons_append, skipSpace_cons other]

private theorem parseScalar_number (literal : NumberLiteral) {rest : List Char} (ends : Ends rest) :
    parseScalar (literal.text ++ rest) = some (.num literal, rest) := by
  obtain ⟨c, later, text, start⟩ := literal_head literal
  rw [← parseNumber_printed literal ends]
  rw [text, List.cons_append]
  unfold parseScalar
  -- Every other branch needs a first character that is no digit and no sign.
  split
  all_goals first
    | rfl
    | next same =>
      injection same with first
      subst first
      rcases start with digit | minus
      · exact absurd digit (by decide)
      · exact absurd minus (by decide)

private theorem parseValue_scalar {value : Json} {rest : List Char} (depth : Nat) {c : Char}
    {later : List Char} (text : value.print ++ rest = c :: later) (list : c ≠ '[')
    (object : c ≠ '\x7b') (scalar : parseScalar (value.print ++ rest) = some (value, rest)) :
    parseValue depth (value.print ++ rest) = some (value, rest) := by
  cases depth with
  | zero => rw [parseValue, skipSpace_print, scalar]
  | succ depth =>
    rw [parseValue, skipSpace_print, ← scalar, text]
    split
    next same => injection same with first; exact absurd first list
    next same => injection same with first; exact absurd first object
    next => rfl

private theorem length_printItems (items : List Json) :
    items.length < (printItems items).length := by
  induction items with
  | nil => simp [printItems]
  | cons item rest ih =>
    simp only [printItems, List.length_cons, List.length_append]
    omega

private theorem length_printMembers (members : List (String × Json)) :
    members.length < (printMembers members).length := by
  induction members with
  | nil => simp [printMembers]
  | cons member rest ih =>
    simp only [printMembers, List.length_cons, List.length_append]
    omega

private theorem ends_printItems (items : List Json) (rest : List Char) :
    Ends (printItems items ++ rest) := by
  cases items with
  | nil => exact ends_cons (by decide)
  | cons item later => rw [printItems]; exact ends_cons (by decide)

private theorem ends_printMembers (members : List (String × Json)) (rest : List Char) :
    Ends (printMembers members ++ rest) := by
  cases members with
  | nil => exact ends_cons (by decide)
  | cons member later =>
    obtain ⟨name, value⟩ := member
    rw [printMembers]
    exact ends_cons (by decide)

mutual
/-- A printed value is read back, whatever comes after it. The recursion follows the
printer: one case for each form, one lemma for each kind of sequence. -/
theorem parseValue_print : ∀ (value : Json) (depth : Nat) (rest : List Char),
    value.nesting ≤ depth → Ends rest → parseValue depth (value.print ++ rest) = some (value, rest)
  | .null, depth, rest, _, _ =>
    parseValue_scalar depth (by rw [print]; rfl) (by decide) (by decide) (by rw [print]; rfl)
  | .bool true, depth, rest, _, _ =>
    parseValue_scalar depth (by rw [print]; rfl) (by decide) (by decide) (by rw [print]; rfl)
  | .bool false, depth, rest, _, _ =>
    parseValue_scalar depth (by rw [print]; rfl) (by decide) (by decide) (by rw [print]; rfl)
  | .num literal, depth, rest, _, ends => by
    obtain ⟨c, later, text, start⟩ := literal_head literal
    have other : c ≠ '[' ∧ c ≠ '\x7b' := by
      rcases start with digit | minus
      · constructor <;> (rintro rfl; revert digit; decide)
      · rw [minus]; decide
    refine parseValue_scalar depth (by rw [print, text, List.cons_append]) other.1 other.2 ?_
    rw [print]
    exact parseScalar_number literal ends
  | .str s, depth, rest, _, _ => by
    refine parseValue_scalar depth (by rw [print, printString, List.cons_append]; rfl) (by decide)
      (by decide) ?_
    rw [print, printString, List.cons_append, List.cons_append, List.append_assoc, parseScalar,
      List.singleton_append, parseString_printed, Option.map_some]
  | .arr [], depth + 1, rest, _, _ => by rw [print]; rfl
  | .arr (item :: items), depth + 1, rest, shallow, _ => by
    rw [nesting, nestingItems, Nat.add_le_add_iff_right, Nat.max_le] at shallow
    have read := parseItems_printed items item depth rest
      (item.print ++ (printItems items ++ rest)).length
      (by have := length_printItems items; simp only [List.length_append]; omega)
      (fun rest ends => parseValue_print item depth rest shallow.1 ends) shallow.2
    obtain ⟨c, later, text, other, open_⟩ := print_head item
    rw [print, List.cons_append, List.append_assoc, parseValue, skipSpace_cons (by decide)]
    simp only [skipSpace_print, read, Option.map_some]
    rw [text, List.cons_append]
    split
    next same => injection same with first; exact absurd first open_
    next => rfl
  | .obj [], depth + 1, rest, _, _ => by rw [print]; rfl
  | .obj ((name, value) :: members), depth + 1, rest, shallow, _ => by
    rw [nesting, nestingMembers, Nat.add_le_add_iff_right, Nat.max_le] at shallow
    have read := parseMembers_printed members name value depth rest
      (printString name ++ ':' :: (value.print ++ (printMembers members ++ rest))).length
      (by have := length_printMembers members
          simp only [List.length_append, List.length_cons]; omega)
      (fun rest ends => parseValue_print value depth rest shallow.1 ends) shallow.2
    have quoted (later : List Char) :
        skipSpace (printString name ++ later) = printString name ++ later := by
      rw [printString, List.cons_append, List.cons_append, skipSpace_cons (by decide)]
    rw [print, List.cons_append, List.append_assoc, List.cons_append, List.append_assoc, parseValue,
      skipSpace_cons (by decide)]
    simp only [quoted, read, Option.map_some]
    rw [printString, List.cons_append, List.cons_append]
    rfl

theorem parseItems_printed : ∀ (items : List Json) (item : Json) (depth : Nat) (rest : List Char)
    (fuel : Nat), items.length < fuel →
    (∀ rest, Ends rest → parseValue depth (item.print ++ rest) = some (item, rest)) →
    nestingItems items ≤ depth →
    parseItems (parseValue depth) fuel (item.print ++ (printItems items ++ rest)) =
      some (item :: items, rest)
  | [], item, depth, rest, fuel + 1, _, first, _ => by
    rw [parseItems, first _ (ends_printItems [] rest)]
    rfl
  | next :: items, item, depth, rest, fuel + 1, enough, first, shallow => by
    rw [nestingItems, Nat.max_le] at shallow
    have read := parseItems_printed items next depth rest fuel (by simpa using enough)
      (fun rest ends => parseValue_print next depth rest shallow.1 ends) shallow.2
    rw [parseItems, first _ (ends_printItems (next :: items) rest), printItems, List.cons_append,
      List.append_assoc]
    simp only [bind, Option.bind, skipSpace_cons (c := ',') (by decide), read]

theorem parseMembers_printed : ∀ (members : List (String × Json)) (name : String) (value : Json)
    (depth : Nat) (rest : List Char) (fuel : Nat), members.length < fuel →
    (∀ rest, Ends rest → parseValue depth (value.print ++ rest) = some (value, rest)) →
    nestingMembers members ≤ depth →
    parseMembers (parseValue depth) fuel
        (printString name ++ ':' :: (value.print ++ (printMembers members ++ rest))) =
      some ((name, value) :: members, rest)
  | [], name, value, depth, rest, fuel + 1, _, first, _ => by
    rw [parseMembers, printString, List.cons_append, List.cons_append,
      skipSpace_cons (by decide), List.append_assoc, List.singleton_append]
    simp only [parseString_printed, bind, Option.bind, skipSpace_cons (c := ':') (by decide),
      first _ (ends_printMembers [] rest)]
    rfl
  | (next, item) :: members, name, value, depth, rest, fuel + 1, enough, first, shallow => by
    rw [nestingMembers, Nat.max_le] at shallow
    have read := parseMembers_printed members next item depth rest fuel (by simpa using enough)
      (fun rest ends => parseValue_print item depth rest shallow.1 ends) shallow.2
    rw [parseMembers, printString, List.cons_append, List.cons_append,
      skipSpace_cons (by decide), List.append_assoc, List.singleton_append]
    simp only [parseString_printed, bind, Option.bind, skipSpace_cons (c := ':') (by decide),
      first _ (ends_printMembers ((next, item) :: members) rest)]
    rw [printMembers, List.cons_append, List.append_assoc, List.cons_append, List.append_assoc]
    simp only [skipSpace_cons (c := ',') (by decide), read]
end

/-- The round trip. -/
theorem parse_print {value : Json} {depth : Nat} (shallow : value.nesting ≤ depth) :
    parse depth value.print = some value := by
  have read := parseValue_print value depth [] shallow ends_nil
  rw [List.append_nil] at read
  rw [parse, read]
  rfl

/-- The UTF-8 bytes of the compact form. -/
def toBytes (value : Json) : ByteArray := (String.ofList value.print).toUTF8

def ofBytes (depth : Nat) (bytes : ByteArray) : Option Json :=
  (String.fromUTF8? bytes).bind fun text => parse depth text.toList

theorem ofBytes_toBytes {value : Json} {depth : Nat} (shallow : value.nesting ≤ depth) :
    ofBytes depth value.toBytes = some value := by
  rw [ofBytes, toBytes, fromUTF8?_toUTF8, Option.bind_some, String.toList_ofList,
    parse_print shallow]

/-! ### More nesting -/

private theorem parseItems_mono {value value' : List Char → Option (Json × List Char)}
    (more : ∀ text read, value text = some read → value' text = some read) {fuel : Nat}
    {text : List Char} {read : List Json × List Char}
    (items : parseItems value fuel text = some read) : parseItems value' fuel text = some read := by
  induction fuel generalizing text read with
  | zero => cases items
  | succ fuel ih =>
    simp only [parseItems, Option.bind_eq_bind, Option.bind_eq_some_iff] at items ⊢
    obtain ⟨⟨item, rest⟩, first, items⟩ := items
    refine ⟨(item, rest), more text _ first, ?_⟩
    dsimp only at items ⊢
    split at items
    next next _ =>
      obtain ⟨later, found, items⟩ := Option.bind_eq_some_iff.mp items
      exact Option.bind_eq_some_iff.mpr ⟨later, ih found, items⟩
    next => exact items
    next => cases items

private theorem parseMembers_mono {value value' : List Char → Option (Json × List Char)}
    (more : ∀ text read, value text = some read → value' text = some read) {fuel : Nat}
    {text : List Char} {read : List (String × Json) × List Char}
    (members : parseMembers value fuel text = some read) :
    parseMembers value' fuel text = some read := by
  induction fuel generalizing text read with
  | zero => cases members
  | succ fuel ih =>
    simp only [parseMembers] at members ⊢
    split at members
    next rest _ =>
      obtain ⟨⟨name, behind⟩, named, members⟩ := Option.bind_eq_some_iff.mp members
      refine Option.bind_eq_some_iff.mpr ⟨(name, behind), named, ?_⟩
      dsimp only at members ⊢
      split at members
      next text' _ =>
        obtain ⟨⟨item, after⟩, first, members⟩ := Option.bind_eq_some_iff.mp members
        refine Option.bind_eq_some_iff.mpr ⟨(item, after), more _ _ first, ?_⟩
        dsimp only at members ⊢
        split at members
        next =>
          obtain ⟨later, found, members⟩ := Option.bind_eq_some_iff.mp members
          exact Option.bind_eq_some_iff.mpr ⟨later, ih found, members⟩
        next => exact members
        next => cases members
      next => cases members
    next => cases members

private theorem parseScalar_bracket {c : Char} {rest : List Char} (bracket : c = '[' ∨ c = '\x7b') :
    parseScalar (c :: rest) = none := by
  rcases bracket with rfl | rfl
  · simp [parseScalar, parseNumber, Number.isPart, Number.literalOk, Number.integerOk]
  · simp [parseScalar, parseNumber, Number.isPart, Number.literalOk, Number.integerOk]

private theorem parseValue_succ {depth : Nat} {text : List Char} {read : Json × List Char}
    (value : parseValue depth text = some read) : parseValue (depth + 1) text = some read := by
  induction depth generalizing text read with
  | zero =>
    simp only [parseValue] at value ⊢
    split
    next start => rw [start, parseScalar_bracket (Or.inl rfl)] at value; cases value
    next start => rw [start, parseScalar_bracket (Or.inr rfl)] at value; cases value
    next => exact value
  | succ depth ih =>
    rw [parseValue] at value ⊢
    split at value
    next =>
      split at value
      next => exact value
      next =>
        obtain ⟨items, found, same⟩ := Option.map_eq_some_iff.mp value
        exact Option.map_eq_some_iff.mpr ⟨items, parseItems_mono (fun _ _ => ih) found, same⟩
    next =>
      split at value
      next => exact value
      next =>
        obtain ⟨members, found, same⟩ := Option.map_eq_some_iff.mp value
        exact Option.map_eq_some_iff.mpr ⟨members, parseMembers_mono (fun _ _ => ih) found, same⟩
    next => exact value

/-- A reader that allows more nesting reads at least as much. -/
theorem parse_mono {depth depth' : Nat} {text : List Char} {value : Json} (less : depth ≤ depth')
    (read : parse depth text = some value) : parse depth' text = some value := by
  induction depth', less using Nat.le_induction with
  | base => exact read
  | succ depth' _ ih =>
    obtain ⟨result, found, ends⟩ := Option.bind_eq_some_iff.mp ih
    exact Option.bind_eq_some_iff.mpr ⟨result, parseValue_succ found, ends⟩

/-! ### Reading members -/

/-- The member of that name; of several, the last. -/
def get? : Json → String → Option Json
  | .obj members, name => (members.reverse.find? (·.1 = name)).map (·.2)
  | _, _ => none

def asStr : Json → Option String
  | .str s => some s
  | _ => none

def isObject : Json → Bool
  | .obj _ => true
  | _ => false

/-- An object with the members that are there: a field without a value is left out. -/
def ofFields (fields : List (String × Option Json)) : Json :=
  .obj (fields.filterMap fun field => field.2.map fun value => (field.1, value))

theorem get?_ofFields {fields : List (String × Option Json)} (distinct : (fields.map Prod.fst).Nodup)
    (name : String) : (ofFields fields).get? name = (fields.lookup name).join := by
  let members (fields : List (String × Option Json)) : List (String × Json) :=
    fields.filterMap fun field => field.2.map fun value => (field.1, value)
  change ((members fields).reverse.find? (·.1 = name)).map (·.2) = (fields.lookup name).join
  induction fields with
  | nil => rfl
  | cons field rest ih =>
    obtain ⟨fresh, distinct⟩ := List.nodup_cons.mp distinct
    have later := ih distinct
    obtain ⟨first, value⟩ := field
    by_cases same : name = first
    · -- No later field has the name.
      subst same
      have absent : (members rest).reverse.find? (·.1 = name) = none := by
        rw [List.find?_eq_none]
        rintro ⟨name', value'⟩ inside same
        obtain ⟨⟨name'', value''⟩, member, kept⟩ :=
          List.mem_filterMap.mp (List.mem_reverse.mp inside)
        obtain ⟨_, -, kept⟩ := Option.map_eq_some_iff.mp kept
        cases kept
        exact fresh (List.mem_map.mpr ⟨_, member, by simpa using same⟩)
      cases value with
      | none => simpa [members, List.lookup_cons] using absent
      | some value =>
        simp only [members] at absent
        simp [members, List.find?_append, absent]
    · have miss : first ≠ name := fun same' => same same'.symm
      have skipped : (name == first) = false := by simpa using same
      cases value with
      | none => simpa [members, List.lookup_cons, skipped] using later
      | some _ =>
        simpa [members, List.lookup_cons, skipped, List.find?_append, miss] using later

mutual
/-- A value is not nested deeper than its text is long. -/
theorem nesting_le_print : ∀ value : Json, value.nesting ≤ value.print.length
  | .null | .bool _ | .num _ | .str _ => Nat.zero_le _
  | .arr [] => by simp [nesting, nestingItems, print]
  | .arr (item :: rest) => by
    have first := nesting_le_print item
    have others := nestingItems_le_print rest
    simp only [nesting, nestingItems, print, List.length_cons, List.length_append]
    omega
  | .obj [] => by simp [nesting, nestingMembers, print]
  | .obj ((name, value) :: rest) => by
    have first := nesting_le_print value
    have others := nestingMembers_le_print rest
    simp only [nesting, nestingMembers, print, List.length_cons, List.length_append]
    omega

theorem nestingItems_le_print : ∀ items : List Json, nestingItems items ≤ (printItems items).length
  | [] => Nat.zero_le _
  | item :: rest => by
    have first := nesting_le_print item
    have others := nestingItems_le_print rest
    simp only [nestingItems, printItems, List.length_cons, List.length_append]
    omega

theorem nestingMembers_le_print : ∀ members : List (String × Json),
    nestingMembers members ≤ (printMembers members).length
  | [] => Nat.zero_le _
  | (name, value) :: rest => by
    have first := nesting_le_print value
    have others := nestingMembers_le_print rest
    simp only [nestingMembers, printMembers, List.length_cons, List.length_append]
    omega
end

mutual
/-- All numbers of a value. -/
def numbers : Json → List NumberLiteral
  | .num literal => [literal]
  | .null | .bool _ | .str _ => []
  | .arr items => numbersItems items
  | .obj members => numbersMembers members

def numbersItems : List Json → List NumberLiteral
  | [] => []
  | item :: rest => item.numbers ++ numbersItems rest

def numbersMembers : List (String × Json) → List NumberLiteral
  | [] => []
  | (_, value) :: rest => value.numbers ++ numbersMembers rest
end

end Json

end Lib
