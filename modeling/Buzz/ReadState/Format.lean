import Buzz.Lib.Script
import Buzz.Lib.Text
import Buzz.Nostr.Event

/-!
# Read-state blobs

The format of a read-state event
(`desktop/src/features/channels/readState/readStateFormat.ts`, `readStateSnapshot.ts`):
which decrypted texts are blobs, and what is left of their contexts. Decryption is
`nip44DecryptFromSelf`, `none` where it throws.
-/
namespace ReadState

open Lib Nostr

structure ReadStateBlob where
  clientId : String
  contexts : Record

def readStateDTagPrefix : String := "read-state:"
def maxContexts : Nat := 10000
def readStateMaxPlaintextBytes : Nat := 32768
def readStateMaxSlots : Nat := 8
def msgPrefix : String := "msg:"
def threadPrefix : String := "thread:"

/-- The value of a JSON number that is a safe integer. -/
def safeInteger (js : JsNumber) : Json → Option Int
  | .num literal => js.safeInteger (String.ofList literal.text)
  | _ => none

/-- The members of a JSON object: of several with one name the last. -/
def members : Json → Option (JsMap String Json)
  | .obj entries => some (entries.foldl (fun m entry => m.set entry.1 entry.2) JsMap.empty)
  | _ => none

/-- `isValidBlob`, with the client id and the contexts of a valid one. -/
def isValidBlob (js : JsNumber) (obj : Json) : Option (String × JsMap String Json) := do
  let record ← members obj
  let clientId ← (record.get "client_id").bind Json.asStr
  let contexts ← (record.get "contexts").bind members
  if (record.get "v").bind (safeInteger js) = some 1 ∧ clientId ≠ "" ∧ utf16Length clientId ≤ 64 ∧
      contexts.keys.length ≤ maxContexts then
    some (clientId, contexts)
  else none

/-- A timestamp that `sanitizeContexts` keeps. -/
def timestampOf (js : JsNumber) (value : Json) : Option Nat :=
  (safeInteger js value).bind fun n =>
    if 0 ≤ n ∧ n ≤ 4294967295 then some n.toNat else none

def sanitizeContexts (js : JsNumber) (contexts : JsMap String Json) : Record :=
  contexts.objectEntries.foldl (fun result entry =>
    if byteLen entry.1 > 256 then result
    else match timestampOf js entry.2 with
      | some timestamp => result.assign entry.1 timestamp
      | none => result) JsMap.empty

def isValidReadStateDTag (value : String) : Bool :=
  match stripStart readStateDTagPrefix value with
  | none => false
  | some slotId =>
    0 < slotId.length ∧ slotId.length ≤ 64 ∧ slotId.toList.all (·.toNat ≤ 0x7f)

structure ParsedReadStateEvent where
  dTag : String
  blob : ReadStateBlob
  createdAt : Timestamp

/-- The value of the only `d` tag. -/
def dTagOf (event : Event) : Option String :=
  match event.tags.filter (·.kind = some "d") with
  | [tag] => tag.content
  | _ => none

def parseReadStateEvent (js : JsNumber) (decrypt : String → Option String) (event : Event)
    (pubkey : PublicKey) : Option ParsedReadStateEvent := do
  let dTag ← dTagOf event
  if event.pubkey = pubkey ∧ isValidReadStateDTag dTag ∧
      (event.tags.filter fun tag => tag.kind = some "t" ∧ tag.content = some "read-state").length
        = 1 then
    let plaintext ← decrypt event.content
    let parsed ← jsonParse plaintext
    let (clientId, contexts) ← isValidBlob js parsed
    some { dTag, blob := { clientId, contexts := sanitizeContexts js contexts },
           createdAt := event.createdAt }
  else none

/-! ### What a blob says when it is read back -/

/-- `{ v: 1, client_id, contexts }`. -/
def ReadStateBlob.toJson (blob : ReadStateBlob) : Json :=
  .obj [("v", .num (NumberLiteral.ofNat 1)), ("client_id", .str blob.clientId),
    ("contexts", .obj (blob.contexts.objectEntries.map fun entry =>
      (entry.1, .num (NumberLiteral.ofNat entry.2))))]

private theorem mem_members {entries : List (String × Json)} {record : JsMap String Json}
    (read : members (.obj entries) = some record) {k : String} {value : Json}
    (member : (k, value) ∈ record.entries) : (k, value) ∈ entries := by
  cases read
  have inside : ∀ (rest : List (String × Json)) (start : JsMap String Json),
      (k, value) ∈ (rest.foldl (fun m entry => m.set entry.1 entry.2) start).entries →
      (k, value) ∈ start.entries ∨ (k, value) ∈ rest := by
    intro rest
    induction rest with
    | nil => exact fun start there => Or.inl there
    | cons entry rest ih =>
      intro start there
      rcases ih _ there with here | later
      · rcases mem_setEntry.mp here with ⟨rfl, rfl⟩ | ⟨-, old⟩
        · exact Or.inr List.mem_cons_self
        · exact Or.inl old
      · exact Or.inr (List.mem_cons_of_mem _ later)
  rcases inside entries JsMap.empty member with none | there
  · cases none
  · exact there

/-- Sanitizing only leaves entries out. -/
theorem mem_sanitizeContexts {js : JsNumber} {contexts : JsMap String Json} {k : String}
    {timestamp : Nat} (member : (k, timestamp) ∈ (sanitizeContexts js contexts).entries) :
    ∃ value, (k, value) ∈ contexts.entries ∧ timestampOf js value = some timestamp := by
  have inside : ∀ (rest : List (String × Json)) (start : Record),
      (k, timestamp) ∈ (rest.foldl (fun result entry =>
        if byteLen entry.1 > 256 then result
        else match timestampOf js entry.2 with
          | some timestamp => result.assign entry.1 timestamp
          | none => result) start).entries →
      (k, timestamp) ∈ start.entries ∨
        ∃ value, (k, value) ∈ rest ∧ timestampOf js value = some timestamp := by
    intro rest
    induction rest with
    | nil => exact fun start there => Or.inl there
    | cons entry rest ih =>
      intro start there
      rcases ih _ there with here | ⟨value, later, read⟩
      · dsimp only at here
        split at here
        next => exact Or.inl here
        next =>
          split at here
          next kept read =>
            rcases Record.mem_assign here with same | old
            · obtain ⟨rfl, rfl⟩ := Prod.mk.inj same
              exact Or.inr ⟨entry.2, List.mem_cons_self, read⟩
            · exact Or.inl old
          next => exact Or.inl here
      · exact Or.inr ⟨value, List.mem_cons_of_mem _ later, read⟩
  rcases inside _ _ member with none | ⟨value, there, read⟩
  · cases none
  · exact ⟨value, JsMap.mem_objectEntries.mp there, read⟩

private theorem timestampOf_ofNat {js : JsNumber} {n timestamp : Nat} (small : n < 2 ^ 53)
    (read : timestampOf js (.num (NumberLiteral.ofNat n)) = some timestamp) : timestamp = n := by
  obtain ⟨value, whole, kept⟩ := Option.bind_eq_some_iff.mp read
  have same : value = n := Option.some.inj (whole.symm.trans (js.decimal n small))
  split at kept
  next => cases kept; omega
  next => cases kept

theorem parsed_of_parseReadStateEvent {js : JsNumber} {decrypt : String → Option String}
    {event : Event} {pubkey : PublicKey} {parsed : ParsedReadStateEvent}
    (read : parseReadStateEvent js decrypt event pubkey = some parsed) :
    event.pubkey = pubkey ∧ ∃ plaintext obj clientId contexts,
      decrypt event.content = some plaintext ∧ jsonParse plaintext = some obj ∧
      isValidBlob js obj = some (clientId, contexts) ∧
      parsed.blob.contexts = sanitizeContexts js contexts := by
  obtain ⟨dTag, -, rest⟩ := Option.bind_eq_some_iff.mp read
  split at rest
  next checks =>
    obtain ⟨plaintext, decrypted, rest⟩ := Option.bind_eq_some_iff.mp rest
    obtain ⟨obj, object, rest⟩ := Option.bind_eq_some_iff.mp rest
    obtain ⟨⟨clientId, contexts⟩, valid, done⟩ := Option.bind_eq_some_iff.mp rest
    cases done
    exact ⟨checks.1, plaintext, obj, clientId, contexts, decrypted, object, valid, rfl⟩
  next => cases rest

/-- A blob that was written by this program says nothing else when it is read back. -/
theorem contexts_of_stringified {js : JsNumber} {decrypt : String → Option String} {event : Event}
    {pubkey : PublicKey} {blob : ReadStateBlob} {parsed : ParsedReadStateEvent}
    (written : decrypt event.content = some (jsonStringify blob.toJson))
    (small : ∀ entry ∈ blob.contexts.entries, entry.2 < 2 ^ 53)
    (read : parseReadStateEvent js decrypt event pubkey = some parsed) :
    ∀ entry ∈ parsed.blob.contexts.entries, entry ∈ blob.contexts.entries := by
  obtain ⟨-, plaintext, obj, clientId, contexts, decrypted, object, valid, sanitized⟩ :=
    parsed_of_parseReadStateEvent read
  rw [sanitized]
  -- The object is the one that was written.
  obtain rfl : blob.toJson = obj := by
    rw [written] at decrypted
    cases decrypted
    exact Option.some.inj ((jsonParse_jsonStringify blob.toJson).symm.trans object)
  -- Its contexts are the ones that were written.
  unfold isValidBlob at valid
  obtain ⟨record, isRecord, valid⟩ := Option.bind_eq_some_iff.mp valid
  obtain ⟨_, -, valid⟩ := Option.bind_eq_some_iff.mp valid
  obtain ⟨_, found, valid⟩ := Option.bind_eq_some_iff.mp valid
  split at valid
  next =>
    cases valid
    obtain ⟨value, member, isObject⟩ := Option.bind_eq_some_iff.mp found
    have there := mem_members isRecord (JsMap.mem_entries.mpr member)
    simp only [List.mem_cons, Prod.mk.injEq, List.not_mem_nil, or_false] at there
    obtain ⟨named, -⟩ | ⟨named, -⟩ | ⟨-, rfl⟩ := there
    · simp at named
    · simp at named
    · rintro ⟨k, timestamp⟩ kept
      obtain ⟨value, there, read⟩ := mem_sanitizeContexts kept
      obtain ⟨⟨k', n⟩, old, same⟩ := List.mem_map.mp (mem_members isObject there)
      cases same
      have old := JsMap.mem_objectEntries.mp old
      rw [timestampOf_ofNat (small _ old) read]
      exact old
  next => cases valid

end ReadState
