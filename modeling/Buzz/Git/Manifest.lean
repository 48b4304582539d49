import Buzz.Lib.Guard
import Buzz.Lib.Json
import Buzz.Lib.Sorted
import Buzz.Nostr.Event

/-!
# Manifests

The published state of a repository (`buzz-relay/src/api/git/manifest.rs`): the
symbolic head, the refs, the keys of the packs that cover them and the digest of
the manifest it supersedes. `canonicalBytes` is the serialized form that
`validate`d manifests are stored in; `fromBytes_canonicalBytes` reads it back.
-/
namespace Git

open Lib

abbrev Refs := BTreeMap String String

def manifestVersion : UInt32 := 1
def maxManifestPacks : Nat := 128
def packCompactionThreshold : Nat := maxManifestPacks * 3 / 4
def maxManifestRefs : Nat := 10000

structure Manifest where
  version : UInt32
  head : String
  refs : Refs
  packs : List String
  parent : Option String
deriving DecidableEq

inductive ManifestError where
  | serde
  | unsupportedVersion (got expected : UInt32)
  | unsafeRefName (name : String)
  | malformedOid (refname oid : String)
  | emptyHead
  | malformedParent (parent : String)
  | tooManyPacks (got max : Nat)
  | tooManyRefs (got max : Nat)
  | malformedPackKey (key : String)
deriving DecidableEq

def isSafeRefname (s : String) : Bool :=
  startsWith "refs/" s &&
    !(containsText ".." s || containsText "//" s || startsWith "/" s || endsWith "/" s) &&
    s.toList.all fun c => isAsciiAlphanumeric c || c == '/' || c == '_' || c == '.' || c == '-'

def isHexOid (s : String) : Bool :=
  (byteLen s == 40 || byteLen s == 64) && s.toList.all isAsciiHexDigit

def isManifestDigest (s : String) : Bool := byteLen s == 64 && s.toList.all Nostr.isLowerHexDigit

def isPackKey (s : String) : Bool := (stripStart "packs/" s).any isManifestDigest

/-- `repos/<community>/<owner>/<repo>/pointer`, without the `.git` of the name. -/
def pointerKey (community : Nostr.Uuid) (owner repo : String) : String :=
  let repo := (stripEnd ".git" repo).getD repo
  "repos/" ++ community.toString ++ "/" ++ owner ++ "/" ++ repo ++ "/pointer"

namespace Manifest

def validateRef (entry : String × String) : Except ManifestError Unit := do
  ensure (isSafeRefname entry.1) (.unsafeRefName entry.1)
  ensure (isHexOid entry.2) (.malformedOid entry.1 entry.2)

def validateParent : Option String → Except ManifestError Unit
  | some parent => ensure (isManifestDigest parent) (.malformedParent parent)
  | none => .ok ()

def validate (m : Manifest) : Except ManifestError Unit := do
  ensure (m.packs.length ≤ maxManifestPacks) (.tooManyPacks m.packs.length maxManifestPacks)
  ensure (m.refs.len ≤ maxManifestRefs) (.tooManyRefs m.refs.len maxManifestRefs)
  ensure (m.head ≠ "") .emptyHead
  ensure (isSafeRefname m.head) (.unsafeRefName m.head)
  m.refs.entries.forM validateRef
  m.packs.forM fun pack => ensure (isPackKey pack) (.malformedPackKey pack)
  validateParent m.parent

/-- A manifest that passes `validate`. -/
def Valid (m : Manifest) : Prop := m.validate = .ok ()

instance (m : Manifest) : Decidable m.Valid := inferInstanceAs (Decidable (_ = _))

theorem Valid.packs_le {m : Manifest} (valid : m.Valid) : m.packs.length ≤ maxManifestPacks := by
  simp only [Valid, validate, bind_eq_ok, ensure_eq_ok] at valid
  obtain ⟨-, bound, -⟩ := valid
  exact bound

/-! ### Serialization -/

/-- `derive(Serialize)`: the fields in declaration order. -/
def toJson (m : Manifest) : Json :=
  .obj [
    ("version", .num (NumberLiteral.ofNat m.version.toNat)),
    ("head", .str m.head),
    ("refs", .obj (m.refs.entries.map fun entry => (entry.1, .str entry.2))),
    ("packs", .arr (m.packs.map .str)),
    ("parent", (m.parent.map Json.str).getD .null)]

def canonicalBytes (m : Manifest) : ByteArray :=
  { m with packs := sortDedup m.packs }.toJson.toBytes

/-- A struct field: given once, or missing. -/
def field (members : List (String × Json)) (name : String) :
    Except ManifestError (Option Json) :=
  match members.filter (·.1 = name) with
  | [] => .ok none
  | [(_, value)] => .ok (some value)
  | _ => .error .serde

def stringOf : Json → Except ManifestError String
  | .str s => .ok s
  | _ => .error .serde

def versionOf : Json → Except ManifestError UInt32
  | .num literal =>
    match literal.toNat? with
    | some n => if n < UInt32.size then .ok (UInt32.ofNat n) else .error .serde
    | none => .error .serde
  | _ => .error .serde

def refOf (member : String × Json) : Except ManifestError (String × String) :=
  (stringOf member.2).map (member.1, ·)

def refsOf : Json → Except ManifestError Refs
  | .obj members => (members.mapM refOf).map BTreeMap.ofList
  | _ => .error .serde

def packsOf : Json → Except ManifestError (List String)
  | .arr items => items.mapM stringOf
  | _ => .error .serde

def parentOf : Json → Except ManifestError (Option String)
  | .null => .ok none
  | value => do
    let parent ← stringOf value
    pure (some parent)

def fieldsOf (version head refs packs parent : Json) : Except ManifestError Manifest := do
  let version ← versionOf version
  let head ← stringOf head
  let refs ← refsOf refs
  let packs ← packsOf packs
  let parent ← parentOf parent
  pure { version, head, refs, packs, parent }

/-- `derive(Deserialize)`: a struct is an object, where unknown members are ignored
and only the optional `parent` may be missing, or the array of its fields. -/
def ofJson : Json → Except ManifestError Manifest
  | .obj members => do
    let version ← field members "version"
    let head ← field members "head"
    let refs ← field members "refs"
    let packs ← field members "packs"
    let parent ← field members "parent"
    let version ← okOr version .serde
    let head ← okOr head .serde
    let refs ← okOr refs .serde
    let packs ← okOr packs .serde
    fieldsOf version head refs packs (parent.getD .null)
  | .arr [version, head, refs, packs, parent] => fieldsOf version head refs packs parent
  | _ => .error .serde

/-- The nesting that `serde_json` accepts. -/
def serdeNesting : Nat := 127

def fromSlice (bytes : ByteArray) : Except ManifestError Manifest :=
  match Json.ofBytes serdeNesting bytes with
  | some value => ofJson value
  | none => .error .serde

def fromBytes (bytes : ByteArray) : Except ManifestError Manifest := do
  let m ← fromSlice bytes
  ensure (m.version = manifestVersion) (.unsupportedVersion m.version manifestVersion)
  pure m

/-! ### The round trip -/

private theorem nesting_strings (strings : List String) :
    Json.nestingItems (strings.map Json.str) = 0 := by
  induction strings with
  | nil => rfl
  | cons s rest ih => simp [Json.nestingItems, Json.nesting, ih]

private theorem nesting_stringMembers (entries : List (String × String)) :
    Json.nestingMembers (entries.map fun entry => (entry.1, Json.str entry.2)) = 0 := by
  induction entries with
  | nil => rfl
  | cons entry rest ih => simp [Json.nestingMembers, Json.nesting, ih]

private theorem nesting_toJson (m : Manifest) : m.toJson.nesting ≤ serdeNesting := by
  have parent : ((m.parent.map Json.str).getD .null).nesting = 0 := by
    cases m.parent <;> simp [Json.nesting]
  simp [toJson, serdeNesting, Json.nesting, Json.nestingMembers, nesting_strings,
    nesting_stringMembers, parent]

private theorem mapM_stringOf (strings : List String) :
    (strings.map Json.str).mapM stringOf = Except.ok strings := by
  induction strings with
  | nil => rfl
  | cons s rest ih =>
    rw [List.map_cons, List.mapM_cons, ih]
    rfl

private theorem mapM_refOf (entries : List (String × String)) :
    (entries.map fun entry => (entry.1, Json.str entry.2)).mapM refOf = Except.ok entries := by
  induction entries with
  | nil => rfl
  | cons entry rest ih =>
    rw [List.map_cons, List.mapM_cons, ih]
    rfl

private theorem refsOf_entries (refs : Refs) :
    refsOf (.obj (refs.entries.map fun entry => (entry.1, Json.str entry.2))) = .ok refs := by
  rw [refsOf, mapM_refOf, Except.map, BTreeMap.ofList_entries]

private theorem parentOf_printed (parent : Option String) :
    parentOf ((parent.map Json.str).getD .null) = .ok parent := by
  cases parent <;> rfl

theorem ofJson_toJson (m : Manifest) : ofJson m.toJson = .ok m := by
  have version : versionOf (.num (NumberLiteral.ofNat m.version.toNat)) = .ok m.version := by
    simp [versionOf, m.version.toNat_lt]
  have fields : fieldsOf (.num (NumberLiteral.ofNat m.version.toNat)) (.str m.head)
      (.obj (m.refs.entries.map fun entry => (entry.1, Json.str entry.2)))
      (.arr (m.packs.map .str)) ((m.parent.map Json.str).getD .null) = .ok m := by
    simp only [fieldsOf, version, stringOf, refsOf_entries, packsOf, mapM_stringOf,
      parentOf_printed, bind, Except.bind, pure, Except.pure]
  simp only [ofJson, toJson, ← fields]
  rfl

/-- The stored form is read back, with the packs in their canonical order. -/
theorem fromBytes_canonicalBytes {m : Manifest} (current : m.version = manifestVersion) :
    fromBytes m.canonicalBytes = .ok { m with packs := sortDedup m.packs } := by
  have sliced : fromSlice m.canonicalBytes = .ok { m with packs := sortDedup m.packs } := by
    rw [fromSlice, canonicalBytes, Json.ofBytes_toBytes (nesting_toJson _)]
    exact ofJson_toJson _
  simp [fromBytes, sliced, current, ensure, bind, Except.bind, pure, Except.pure]

end Manifest

end Git
