import Buzz.Lib.Compare
import Buzz.Lib.Json
import Buzz.Lib.Latest

/-!
# The library of a scripting language

What `Number`, `JSON`, `Map` and plain objects do in ECMAScript. A `Map` visits its
entries in the order in which their keys were first set. A plain object visits its
array indices first, it inherits the members of `Object.prototype`, and an assignment
of a number to `__proto__` has no effect.
-/
namespace Lib

/-- `Number(text)`, where the result is a safe integer. -/
structure JsNumber where
  safeInteger : String → Option Int
  /-- A decimal numeral is read as its value. -/
  decimal : ∀ n : Nat, n < 2 ^ 53 → safeInteger (toString n) = some n

/-- `s.length`: the number of UTF-16 code units. -/
def utf16Length (s : String) : Nat := (s.toList.map fun c => if c.toNat < 0x10000 then 1 else 2).sum

/-- `JSON.parse`: nesting has no limit of its own, and a text cannot nest deeper than it is long. -/
def jsonParse (text : String) : Option Json := Json.parse (127 + text.length) text.toList

/-- `JSON.stringify`. -/
def jsonStringify (value : Json) : String := String.ofList value.print

theorem jsonParse_jsonStringify (value : Json) : jsonParse (jsonStringify value) = some value := by
  unfold jsonParse jsonStringify
  rw [String.toList_ofList, String.length_ofList]
  apply Json.parse_print
  have shallow := value.nesting_le_print
  omega

/-! ### Maps -/

structure JsMap (κ α : Type) where
  entries : List (κ × α)
  nodup : (entries.map Prod.fst).Nodup

namespace JsMap

variable {κ α : Type} [DecidableEq κ]

def empty : JsMap κ α := ⟨[], List.nodup_nil⟩

def get (m : JsMap κ α) (k : κ) : Option α := m.entries.lookup k

def keys (m : JsMap κ α) : List κ := m.entries.map Prod.fst

def values (m : JsMap κ α) : List α := m.entries.map Prod.snd

def set (m : JsMap κ α) (k : κ) (v : α) : JsMap κ α :=
  ⟨setEntry m.entries k v, nodup_setEntry m.nodup k v⟩

def delete (m : JsMap κ α) (k : κ) : JsMap κ α :=
  ⟨m.entries.filter (·.1 ≠ k), m.nodup.sublist (List.filter_sublist.map Prod.fst)⟩

theorem mem_entries {m : JsMap κ α} {k : κ} {v : α} : (k, v) ∈ m.entries ↔ m.get k = some v := by
  obtain ⟨entries, nodup⟩ := m
  change (k, v) ∈ entries ↔ entries.lookup k = some v
  induction entries with
  | nil => simp
  | cons entry rest ih =>
    obtain ⟨k', v'⟩ := entry
    have absent : k' ∉ rest.map Prod.fst := (List.nodup_cons.mp nodup).1
    rw [List.lookup_cons, List.mem_cons]
    split
    next same =>
      -- The key is the first entry's, so no later entry has it.
      have same : k = k' := eq_of_beq same
      subst same
      have elsewhere : (k, v) ∉ rest := fun member => absent (List.mem_map_of_mem member)
      simp [elsewhere, eq_comm]
    next other =>
      have other : k ≠ k' := by simpa using other
      simpa [other] using ih (List.nodup_cons.mp nodup).2

theorem get_set (m : JsMap κ α) (k k' : κ) (v : α) :
    (m.set k v).get k' = if k' = k then some v else m.get k' := by
  ext v'
  rw [← mem_entries, set, mem_setEntry, mem_entries]
  split
  next same => simp [same, eq_comm]
  next other => simp [other]

theorem mem_delete {m : JsMap κ α} {k k' : κ} {v : α} :
    (k', v) ∈ (m.delete k).entries ↔ (k', v) ∈ m.entries ∧ k' ≠ k := by
  simp [delete]

/-- The value of a key that is an array index in canonical form. -/
def arrayIndex (k : String) : Option Nat :=
  if k.toList.all Char.isDigit ∧ toString (Nat.ofDigitChars 10 k.toList 0) = k ∧
      Nat.ofDigitChars 10 k.toList 0 < 2 ^ 32 - 1 then
    some (Nat.ofDigitChars 10 k.toList 0)
  else none

/-- `Object.entries`: the array indices in ascending order, then the other keys as they were added. -/
def objectEntries {α : Type} (m : JsMap String α) : List (String × α) :=
  sortBy (fun a b => compare ((arrayIndex a.1).getD 0) ((arrayIndex b.1).getD 0))
      (m.entries.filter fun entry => (arrayIndex entry.1).isSome) ++
    m.entries.filter fun entry => (arrayIndex entry.1).isNone

theorem mem_objectEntries {α : Type} {m : JsMap String α} {entry : String × α} :
    entry ∈ m.objectEntries ↔ entry ∈ m.entries := by
  simp only [objectEntries, List.mem_append, (sortBy_perm _ _).mem_iff, List.mem_filter]
  cases arrayIndex entry.1 <;> simp

end JsMap

/-! ### Plain objects that hold numbers -/

abbrev Record := JsMap String Nat

namespace Record

/-- The members of `Object.prototype`. -/
def inherited : List String :=
  ["constructor", "__defineGetter__", "__defineSetter__", "hasOwnProperty", "__lookupGetter__",
    "__lookupSetter__", "isPrototypeOf", "propertyIsEnumerable", "toString", "valueOf",
    "__proto__", "toLocaleString"]

/-- `r[k] = v`. -/
def assign (r : Record) (k : String) (v : Nat) : Record := if k = "__proto__" then r else r.set k v

/-- `r[k]`, where a member that is no number is none of the numbers and not `undefined`. -/
inductive Member where
  | number (n : Nat)
  | other
  | undefined
deriving DecidableEq

def read (r : Record) (k : String) : Member :=
  match r.get k with
  | some n => .number n
  | none => if k ∈ inherited then .other else .undefined

theorem mem_assign {r : Record} {k k' : String} {v v' : Nat}
    (member : (k', v') ∈ (r.assign k v).entries) : (k', v') = (k, v) ∨ (k', v') ∈ r.entries := by
  unfold assign at member
  split at member
  next => exact Or.inr member
  next =>
    rcases mem_setEntry.mp member with ⟨rfl, rfl⟩ | ⟨-, old⟩
    · exact Or.inl rfl
    · exact Or.inr old

end Record

end Lib
