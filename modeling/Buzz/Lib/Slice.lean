import Buzz.Lib.Text

/-!
# Slices

Slices of a text at byte offsets. A text is kept by its characters, and an offset that falls
inside of one is no place to cut.
-/
namespace Lib

/-- The length of a text in UTF-8 bytes. -/
def size (text : List Char) : Nat := (text.map Char.utf8Size).sum

@[simp] theorem size_nil : size [] = 0 := rfl

@[simp] theorem size_cons (c : Char) (text : List Char) :
    size (c :: text) = c.utf8Size + size text := rfl

theorem size_eq_zero_iff {text : List Char} : size text = 0 ↔ text = [] := by
  cases text with
  | nil => simp
  | cons c rest => simp [c.utf8Size_pos.ne']

/-- The text before the byte offset `n` and the text from it on. -/
def splitBytes : Nat → List Char → Option (List Char × List Char)
  | 0, text => some ([], text)
  | _ + 1, [] => none
  | n + 1, c :: text =>
    if c.utf8Size ≤ n + 1 then
      (splitBytes (n + 1 - c.utf8Size) text).map fun (before, behind) => (c :: before, behind)
    else none

/-- `text.get(..n)`. -/
def getBytes (n : Nat) (text : List Char) : Option (List Char) := (splitBytes n text).map (·.1)

/-- `text[n..]`, which panics when it is `none`. -/
def sliceBytes (n : Nat) (text : List Char) : Option (List Char) := (splitBytes n text).map (·.2)

/-- `text.find(p)`: the byte offset of the first character that has `p`. -/
def findBytes (p : Char → Bool) : List Char → Option Nat
  | [] => none
  | c :: text => if p c then some 0 else (findBytes p text).map (c.utf8Size + ·)

/-- `str::trim_start`. -/
def trimStart (text : List Char) : List Char := text.dropWhile isWhiteSpace

/-- `str::eq_ignore_ascii_case`. -/
def eqIgnoreAsciiCase (a b : List Char) : Bool := a.map Char.toLower == b.map Char.toLower

theorem splitBytes_size (before behind : List Char) :
    splitBytes (size before) (before ++ behind) = some (before, behind) := by
  induction before with
  | nil => simp [splitBytes]
  | cons c before ih =>
    obtain ⟨n, pos⟩ : ∃ n, c.utf8Size + size before = n + 1 :=
      Nat.exists_eq_succ_of_ne_zero (by have := c.utf8Size_pos; omega)
    have fits : c.utf8Size ≤ n + 1 := by omega
    have left : n + 1 - c.utf8Size = size before := by omega
    rw [size_cons, pos, List.cons_append, splitBytes, if_pos fits, left, ih]
    rfl

theorem eq_of_splitBytes {n : Nat} {text before behind : List Char}
    (split : splitBytes n text = some (before, behind)) :
    text = before ++ behind ∧ size before = n := by
  induction n, text using splitBytes.induct generalizing before with
  | case1 text =>
    simp only [splitBytes, Option.some.injEq, Prod.mk.injEq] at split
    obtain ⟨rfl, rfl⟩ := split
    simp
  | case2 n => simp [splitBytes] at split
  | case3 n c text fits ih =>
    rw [splitBytes, if_pos fits, Option.map_eq_some_iff] at split
    obtain ⟨⟨inner, behind'⟩, inside, same⟩ := split
    cases same
    obtain ⟨parts, sized⟩ := ih inside
    exact ⟨congrArg _ parts, by rw [size_cons, sized]; omega⟩
  | case4 n c text over_ => simp [splitBytes, over_] at split

theorem sliceBytes_size (before behind : List Char) :
    sliceBytes (size before) (before ++ behind) = some behind := by
  rw [sliceBytes, splitBytes_size]
  rfl

theorem getBytes_eq_some_iff {n : Nat} {text before : List Char} :
    getBytes n text = some before ↔ before <+: text ∧ size before = n := by
  rw [getBytes, Option.map_eq_some_iff]
  constructor
  · rintro ⟨⟨_, behind⟩, split, rfl⟩
    obtain ⟨parts, sized⟩ := eq_of_splitBytes split
    exact ⟨⟨behind, parts.symm⟩, sized⟩
  · rintro ⟨⟨behind, rfl⟩, rfl⟩
    exact ⟨(before, behind), splitBytes_size before behind, rfl⟩

/-- `text.find(p).unwrap_or(text.len())` is where the characters without `p` end. -/
theorem findBytes_getD (p : Char → Bool) (text : List Char) :
    (findBytes p text).getD (size text) = size (text.takeWhile (! p ·)) := by
  induction text with
  | nil => rfl
  | cons c text ih =>
    cases has : p c with
    | true => simp [findBytes, has]
    | false =>
      rw [List.takeWhile_cons_of_pos (by simp [has]), size_cons, size_cons, ← ih]
      cases found : findBytes p text <;> simp [findBytes, has, found]

/-- A text is its first characters without `p` and the slice behind them. -/
theorem sliceBytes_findBytes (p : Char → Bool) (text : List Char) :
    sliceBytes ((findBytes p text).getD (size text)) text = some (text.dropWhile (! p ·)) := by
  rw [findBytes_getD]
  conv_lhs => rw [← List.takeWhile_append_dropWhile (p := (! p ·)) (l := text)]
  rw [show (text.takeWhile (! p ·) ++ text.dropWhile (! p ·)).takeWhile (! p ·) =
    text.takeWhile (! p ·) by rw [List.takeWhile_append_dropWhile], sliceBytes_size]

theorem trimStart_parts (text : List Char) :
    ∃ space, (∀ c ∈ space, isWhiteSpace c) ∧ text = space ++ trimStart text :=
  ⟨text.takeWhile isWhiteSpace, fun _ => List.mem_takeWhile_imp,
    (List.takeWhile_append_dropWhile).symm⟩

theorem trimStart_eq_self {c : Char} {text : List Char} (plain : isWhiteSpace c = false) :
    trimStart (c :: text) = c :: text :=
  List.dropWhile_cons_of_neg (by simp [plain])

theorem plain_of_trimStart {c : Char} {text rest : List Char}
    (trimmed : trimStart text = c :: rest) : isWhiteSpace c = false := by
  have head := List.head?_dropWhile_not isWhiteSpace text
  rw [show text.dropWhile isWhiteSpace = c :: rest from trimmed] at head
  simpa using head

end Lib
