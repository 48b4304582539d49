import Buzz.Lib.Json
import Mathlib.Data.List.Nodup

/-!
# The shape of a value

How deep a value that was read can be nested, which numbers its members hold, and what
stays the same when every number is written in another form. Two values are equal when
they differ only in the order of members and in members that a later one replaces.
-/
namespace Lib

namespace Json

/-! ### A reader with a limit reads no deeper -/

private theorem nesting_parseScalar {text : List Char} {read : Json × List Char}
    (found : parseScalar text = some read) : read.1.nesting = 0 := by
  unfold parseScalar at found
  split at found
  · obtain ⟨s, -, rfl⟩ := Option.map_eq_some_iff.mp found
    rfl
  · cases found
    rfl
  · cases found
    rfl
  · cases found
    rfl
  · unfold parseNumber at found
    dsimp only at found
    split at found
    · cases found
      rfl
    · cases found

private theorem nesting_parseItems {value : List Char → Option (Json × List Char)} {depth : Nat}
    (shallow : ∀ text read, value text = some read → read.1.nesting ≤ depth) {fuel : Nat}
    {text : List Char} {read : List Json × List Char}
    (items : parseItems value fuel text = some read) : nestingItems read.1 ≤ depth := by
  induction fuel generalizing text read with
  | zero => cases items
  | succ fuel ih =>
    simp only [parseItems, Option.bind_eq_bind, Option.bind_eq_some_iff] at items
    obtain ⟨⟨item, rest⟩, first, items⟩ := items
    have here : item.nesting ≤ depth := shallow text _ first
    dsimp only at items
    split at items
    next =>
      obtain ⟨⟨later, behind⟩, found, items⟩ := Option.bind_eq_some_iff.mp items
      cases items
      exact Nat.max_le.mpr ⟨here, ih found⟩
    next =>
      cases items
      exact Nat.max_le.mpr ⟨here, Nat.zero_le _⟩
    next => cases items

private theorem nesting_parseMembers {value : List Char → Option (Json × List Char)} {depth : Nat}
    (shallow : ∀ text read, value text = some read → read.1.nesting ≤ depth) {fuel : Nat}
    {text : List Char} {read : List (String × Json) × List Char}
    (members : parseMembers value fuel text = some read) : nestingMembers read.1 ≤ depth := by
  induction fuel generalizing text read with
  | zero => cases members
  | succ fuel ih =>
    simp only [parseMembers] at members
    split at members
    next =>
      obtain ⟨⟨name, behind⟩, -, members⟩ := Option.bind_eq_some_iff.mp members
      dsimp only at members
      split at members
      next =>
        obtain ⟨⟨item, after⟩, first, members⟩ := Option.bind_eq_some_iff.mp members
        have here : item.nesting ≤ depth := shallow _ _ first
        dsimp only at members
        split at members
        next =>
          obtain ⟨⟨later, behind'⟩, found, members⟩ := Option.bind_eq_some_iff.mp members
          cases members
          exact Nat.max_le.mpr ⟨here, ih found⟩
        next =>
          cases members
          exact Nat.max_le.mpr ⟨here, Nat.zero_le _⟩
        next => cases members
      next => cases members
    next => cases members

private theorem nesting_parseValue {depth : Nat} {text : List Char} {read : Json × List Char}
    (value : parseValue depth text = some read) : read.1.nesting ≤ depth := by
  induction depth generalizing text read with
  | zero =>
    rw [parseValue] at value
    exact Nat.le_of_eq (nesting_parseScalar value)
  | succ depth ih =>
    rw [parseValue] at value
    split at value
    next =>
      split at value
      next =>
        cases value
        exact Nat.succ_le_succ (Nat.zero_le depth)
      next =>
        obtain ⟨items, found, rfl⟩ := Option.map_eq_some_iff.mp value
        exact Nat.succ_le_succ (nesting_parseItems (fun _ _ => ih) found)
    next =>
      split at value
      next =>
        cases value
        exact Nat.succ_le_succ (Nat.zero_le depth)
      next =>
        obtain ⟨members, found, rfl⟩ := Option.map_eq_some_iff.mp value
        exact Nat.succ_le_succ (nesting_parseMembers (fun _ _ => ih) found)
    next =>
      rw [nesting_parseScalar value]
      exact Nat.zero_le _

theorem nesting_le_of_parse {depth : Nat} {text : List Char} {value : Json}
    (read : parse depth text = some value) : value.nesting ≤ depth := by
  obtain ⟨⟨value', rest⟩, found, ends⟩ := Option.bind_eq_some_iff.mp read
  dsimp only at ends
  split at ends
  · cases ends
    exact nesting_parseValue found
  · cases ends

/-! ### Members -/

theorem mem_of_get? {members : List (String × Json)} {name : String} {value : Json}
    (found : (Json.obj members).get? name = some value) : (name, value) ∈ members := by
  obtain ⟨⟨name', value'⟩, first, rfl⟩ := Option.map_eq_some_iff.mp found
  have same : name' = name := by simpa using List.find?_some first
  subst same
  exact List.mem_reverse.mp (List.mem_of_find?_eq_some first)

theorem get?_of_mem {members : List (String × Json)} (nodup : (members.map Prod.fst).Nodup)
    {name : String} {value : Json} (member : (name, value) ∈ members) :
    (Json.obj members).get? name = some value := by
  cases found : (Json.obj members).get? name with
  | none =>
    have missing := List.find?_eq_none.mp (Option.map_eq_none_iff.mp found) (name, value)
      (List.mem_reverse.mpr member)
    simp at missing
  | some value' =>
    have same := List.inj_on_of_nodup_map nodup (mem_of_get? found) member rfl
    rw [(Prod.mk.inj same).2]

theorem nesting_le_of_mem {members : List (String × Json)} {name : String} {value : Json}
    (member : (name, value) ∈ members) : value.nesting ≤ nestingMembers members := by
  induction members with
  | nil => cases member
  | cons first rest ih =>
    rcases List.mem_cons.mp member with rfl | member
    · exact Nat.le_max_left _ _
    · exact Nat.le_trans (ih member) (Nat.le_max_right _ _)

theorem nesting_lt_of_get? {value member : Json} {name : String}
    (found : value.get? name = some member) : member.nesting < value.nesting := by
  cases value with
  | obj members => exact Nat.lt_succ_of_le (nesting_le_of_mem (mem_of_get? found))
  | _ => cases found

theorem nestingItems_le {items : List Json} {depth : Nat}
    (shallow : ∀ item ∈ items, item.nesting ≤ depth) : nestingItems items ≤ depth := by
  induction items with
  | nil => exact Nat.zero_le _
  | cons item rest ih =>
    rw [List.forall_mem_cons] at shallow
    exact Nat.max_le.mpr ⟨shallow.1, ih shallow.2⟩

theorem mem_numbersItems {items : List Json} {l : NumberLiteral} :
    l ∈ numbersItems items ↔ ∃ item ∈ items, l ∈ item.numbers := by
  induction items with
  | nil => simp [numbersItems]
  | cons item rest ih => simp [numbersItems, ih]

theorem nesting_ofFields_le {fields : List (String × Option Json)} {depth : Nat}
    (shallow : ∀ field ∈ fields, ∀ value ∈ field.2, value.nesting ≤ depth) :
    (ofFields fields).nesting ≤ depth + 1 := by
  apply Nat.succ_le_succ
  induction fields with
  | nil => exact Nat.zero_le _
  | cons field rest ih =>
    rw [List.forall_mem_cons] at shallow
    obtain ⟨name, value⟩ := field
    cases value with
    | none => exact ih shallow.2
    | some value => exact Nat.max_le.mpr ⟨shallow.1 value rfl, ih shallow.2⟩

theorem mem_numbers_ofFields {fields : List (String × Option Json)} {l : NumberLiteral} :
    l ∈ (ofFields fields).numbers ↔ ∃ field ∈ fields, ∃ value ∈ field.2, l ∈ value.numbers := by
  change l ∈ numbersMembers _ ↔ _
  induction fields with
  | nil => simp [numbersMembers]
  | cons field rest ih =>
    obtain ⟨name, value⟩ := field
    cases value with
    | none => simp [ih]
    | some value => simp [numbersMembers, ih]

/-! ### Numbers in another form -/

mutual
/-- The value with each number in another form. -/
def mapNumbers (f : NumberLiteral → NumberLiteral) : Json → Json
  | .null => .null
  | .bool b => .bool b
  | .num literal => .num (f literal)
  | .str s => .str s
  | .arr items => .arr (mapNumbersItems f items)
  | .obj members => .obj (mapNumbersMembers f members)

def mapNumbersItems (f : NumberLiteral → NumberLiteral) : List Json → List Json
  | [] => []
  | item :: rest => item.mapNumbers f :: mapNumbersItems f rest

def mapNumbersMembers (f : NumberLiteral → NumberLiteral) :
    List (String × Json) → List (String × Json)
  | [] => []
  | (name, value) :: rest => (name, value.mapNumbers f) :: mapNumbersMembers f rest
end

@[simp] theorem isObject_mapNumbers (f : NumberLiteral → NumberLiteral) (value : Json) :
    (value.mapNumbers f).isObject = value.isObject := by
  cases value <;> rfl

mutual
@[simp] theorem nesting_mapNumbers (f : NumberLiteral → NumberLiteral) :
    ∀ value : Json, (value.mapNumbers f).nesting = value.nesting
  | .null | .bool _ | .num _ | .str _ => rfl
  | .arr items => congrArg (· + 1) (nestingItems_mapNumbers f items)
  | .obj members => congrArg (· + 1) (nestingMembers_mapNumbers f members)

theorem nestingItems_mapNumbers (f : NumberLiteral → NumberLiteral) :
    ∀ items : List Json, nestingItems (mapNumbersItems f items) = nestingItems items
  | [] => rfl
  | item :: rest => congrArg₂ max (nesting_mapNumbers f item) (nestingItems_mapNumbers f rest)

theorem nestingMembers_mapNumbers (f : NumberLiteral → NumberLiteral) :
    ∀ members : List (String × Json),
      nestingMembers (mapNumbersMembers f members) = nestingMembers members
  | [] => rfl
  | (_, value) :: rest =>
    congrArg₂ max (nesting_mapNumbers f value) (nestingMembers_mapNumbers f rest)
end

mutual
@[simp] theorem numbers_mapNumbers (f : NumberLiteral → NumberLiteral) :
    ∀ value : Json, (value.mapNumbers f).numbers = value.numbers.map f
  | .null | .bool _ | .num _ | .str _ => rfl
  | .arr items => numbersItems_mapNumbers f items
  | .obj members => numbersMembers_mapNumbers f members

theorem numbersItems_mapNumbers (f : NumberLiteral → NumberLiteral) :
    ∀ items : List Json, numbersItems (mapNumbersItems f items) = (numbersItems items).map f
  | [] => rfl
  | item :: rest => by
    rw [mapNumbersItems, numbersItems, numbersItems, List.map_append, numbers_mapNumbers f item,
      numbersItems_mapNumbers f rest]

theorem numbersMembers_mapNumbers (f : NumberLiteral → NumberLiteral) :
    ∀ members : List (String × Json),
      numbersMembers (mapNumbersMembers f members) = (numbersMembers members).map f
  | [] => rfl
  | (_, value) :: rest => by
    rw [mapNumbersMembers, numbersMembers, numbersMembers, List.map_append,
      numbers_mapNumbers f value, numbersMembers_mapNumbers f rest]
end

mutual
/-- Writing the numbers in one form and then in another. -/
theorem mapNumbers_mapNumbers (f g : NumberLiteral → NumberLiteral) :
    ∀ value : Json, (value.mapNumbers f).mapNumbers g = value.mapNumbers (g ∘ f)
  | .null | .bool _ | .num _ | .str _ => rfl
  | .arr items => congrArg Json.arr (mapNumbersItems_mapNumbers f g items)
  | .obj members => congrArg Json.obj (mapNumbersMembers_mapNumbers f g members)

theorem mapNumbersItems_mapNumbers (f g : NumberLiteral → NumberLiteral) :
    ∀ items : List Json,
      mapNumbersItems g (mapNumbersItems f items) = mapNumbersItems (g ∘ f) items
  | [] => rfl
  | item :: rest =>
    congrArg₂ List.cons (mapNumbers_mapNumbers f g item) (mapNumbersItems_mapNumbers f g rest)

theorem mapNumbersMembers_mapNumbers (f g : NumberLiteral → NumberLiteral) :
    ∀ members : List (String × Json),
      mapNumbersMembers g (mapNumbersMembers f members) = mapNumbersMembers (g ∘ f) members
  | [] => rfl
  | (name, value) :: rest =>
    congrArg₂ List.cons (congrArg (Prod.mk name) (mapNumbers_mapNumbers f g value))
      (mapNumbersMembers_mapNumbers f g rest)
end

mutual
@[simp] theorem mapNumbers_id : ∀ value : Json, value.mapNumbers id = value
  | .null | .bool _ | .num _ | .str _ => rfl
  | .arr items => congrArg Json.arr (mapNumbersItems_id items)
  | .obj members => congrArg Json.obj (mapNumbersMembers_id members)

theorem mapNumbersItems_id : ∀ items : List Json, mapNumbersItems id items = items
  | [] => rfl
  | item :: rest => congrArg₂ List.cons (mapNumbers_id item) (mapNumbersItems_id rest)

theorem mapNumbersMembers_id :
    ∀ members : List (String × Json), mapNumbersMembers id members = members
  | [] => rfl
  | (name, value) :: rest =>
    congrArg₂ List.cons (congrArg (Prod.mk name) (mapNumbers_id value)) (mapNumbersMembers_id rest)
end

mutual
/-- Two forms give one value exactly when they agree on its numbers. -/
theorem mapNumbers_eq_iff {f g : NumberLiteral → NumberLiteral} :
    ∀ {value : Json}, value.mapNumbers f = value.mapNumbers g ↔ ∀ l ∈ value.numbers, f l = g l
  | .null | .bool _ | .str _ => by simp [mapNumbers, numbers]
  | .num literal => by simp [mapNumbers, numbers]
  | .arr items => by
    rw [mapNumbers, mapNumbers, Json.arr.injEq, mapNumbersItems_eq_iff, numbers]
  | .obj members => by
    rw [mapNumbers, mapNumbers, Json.obj.injEq, mapNumbersMembers_eq_iff, numbers]

theorem mapNumbersItems_eq_iff {f g : NumberLiteral → NumberLiteral} :
    ∀ {items : List Json}, mapNumbersItems f items = mapNumbersItems g items ↔
      ∀ l ∈ numbersItems items, f l = g l
  | [] => by simp [mapNumbersItems, numbersItems]
  | item :: rest => by
    rw [mapNumbersItems, mapNumbersItems, List.cons.injEq, mapNumbers_eq_iff,
      mapNumbersItems_eq_iff, numbersItems, List.forall_mem_append]

theorem mapNumbersMembers_eq_iff {f g : NumberLiteral → NumberLiteral} :
    ∀ {members : List (String × Json)}, mapNumbersMembers f members = mapNumbersMembers g members ↔
      ∀ l ∈ numbersMembers members, f l = g l
  | [] => by simp [mapNumbersMembers, numbersMembers]
  | (name, value) :: rest => by
    rw [mapNumbersMembers, mapNumbersMembers, List.cons.injEq, Prod.mk.injEq, mapNumbers_eq_iff,
      mapNumbersMembers_eq_iff, numbersMembers, List.forall_mem_append]
    simp
end

/-! ### Equal values -/

/-- The same value: of the members of an object only what is found under each name counts. -/
inductive Equal : Json → Json → Prop
  | null : Equal .null .null
  | bool (b : Bool) : Equal (.bool b) (.bool b)
  | num (literal : NumberLiteral) : Equal (.num literal) (.num literal)
  | str (s : String) : Equal (.str s) (.str s)
  | arr {items items' : List Json} (same : List.Forall₂ Equal items items') :
    Equal (.arr items) (.arr items')
  | obj {members members' : List (String × Json)}
    (same : ∀ name, Option.Rel Equal ((Json.obj members).get? name) ((Json.obj members').get? name)) :
    Equal (.obj members) (.obj members')

mutual
theorem Equal.refl : ∀ value : Json, Equal value value
  | .null => .null
  | .bool b => .bool b
  | .num literal => .num literal
  | .str s => .str s
  | .arr items => .arr (equalItems_refl items)
  | .obj members => .obj fun name => by
    cases found : (Json.obj members).get? name with
    | none => exact .none
    | some value => exact .some (equalMembers_refl members name value (mem_of_get? found))

theorem equalItems_refl : ∀ items : List Json, List.Forall₂ Equal items items
  | [] => .nil
  | item :: rest => .cons (Equal.refl item) (equalItems_refl rest)

theorem equalMembers_refl : ∀ (members : List (String × Json)) (name : String) (value : Json),
    (name, value) ∈ members → Equal value value
  | (_, value') :: rest, name, value, member => by
    rcases List.mem_cons.mp member with same | member
    · cases same
      exact Equal.refl value'
    · exact equalMembers_refl rest name value member
end

end Json

end Lib
