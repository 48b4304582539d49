import Buzz.ReadState.Format

/-!
# The byte budget of a blob

Which contexts are published
(`desktop/src/features/channels/readState/readStateManager.ts`): a blob that is too
long loses its oldest `msg:` and then its oldest `thread:` entries, and channel keys
that do not fit into one blob are dealt out over several slots.

Whatever is cut or dealt out, nothing is published that was not given.
-/
namespace ReadState

open Lib

/-- The length of the blob in bytes. -/
def blobBytes (clientId : String) (contexts : Record) : Nat :=
  byteLen (jsonStringify (ReadStateBlob.toJson { clientId, contexts }))

def oldestFirst (a b : String × Nat) : Ordering := compare a.2 b.2

/-- The keys to evict, by an estimate of what each entry contributes. -/
def toEvict (maxBytes : Nat) : Int → List (String × Nat) → List String
  | _, [] => []
  | currentBytes, (key, ts) :: rest =>
    if currentBytes ≤ maxBytes then []
    else
      key :: toEvict maxBytes
        (currentBytes - (utf16Length key + 3 + (toString ts).length + 1 : Nat)) rest

structure TrimResult where
  contexts : Record
  evicted : Nat
  fitsAfterTrim : Bool

def trimContextsToBudget (contexts : Record) (clientId : String) (maxBytes : Nat) : TrimResult :=
  let currentBytes := blobBytes clientId contexts
  if currentBytes ≤ maxBytes then { contexts, evicted := 0, fitsAfterTrim := true }
  else
    let entries := contexts.objectEntries
    let msgEntries := entries.filter fun entry => startsWith msgPrefix entry.1
    let threadEntries := entries.filter fun entry =>
      !startsWith msgPrefix entry.1 && startsWith threadPrefix entry.1
    let evict :=
      toEvict maxBytes currentBytes (sortBy oldestFirst msgEntries ++ sortBy oldestFirst threadEntries)
    let trimmed := evict.foldl JsMap.delete contexts
    { contexts := trimmed, evicted := evict.length,
      fitsAfterTrim := blobBytes clientId trimmed ≤ maxBytes }

/-- Set all the entries, in their order. -/
def assignAll (contexts : Record) (entries : List (String × Nat)) : Record :=
  entries.foldl (fun c entry => Record.assign c entry.1 entry.2) contexts

/-- Deal the entries out over `count` slots. -/
def distribute (channelEntries : List (String × Nat)) (count : Nat) : List Record :=
  (List.range count).map fun slot =>
    assignAll JsMap.empty
      ((channelEntries.zipIdx.filter fun entry => entry.2 % count = slot).map Prod.fst)

/-- Whether some slot is too long. -/
def tooLong (clientId : String) (maxBytes : Nat) (slots : List Record) : Bool :=
  slots.any fun c => maxBytes < blobBytes clientId c

/-- The number of slots after at most `room` were added. -/
def growSlots (channelEntries : List (String × Nat)) (clientId : String) (maxBytes : Nat) :
    Nat → Nat → Nat
  | 0, slotCount => slotCount
  | room + 1, slotCount =>
    if tooLong clientId maxBytes (distribute channelEntries slotCount) then
      growSlots channelEntries clientId maxBytes room (slotCount + 1)
    else slotCount

structure SlotSplitResult where
  slots : List Record
  extraSlotIds : List String

/-- The `n`-th call of `slotIdGenerator` returns `slotIdGenerator n`. -/
def splitContextsIntoBudgetedSlots (channelEntries threadMsgEntries : List (String × Nat))
    (clientId : String) (initialSlotCount maxSlots maxBytes : Nat)
    (slotIdGenerator : Nat → String) : Option SlotSplitResult :=
  let slotCount :=
    growSlots channelEntries clientId maxBytes (maxSlots - initialSlotCount) initialSlotCount
  let extraSlotIds := (List.range (slotCount - initialSlotCount)).map slotIdGenerator
  let slotContexts := distribute channelEntries slotCount
  if tooLong clientId maxBytes slotContexts then none
  else
    match slotContexts with
    | [] => some { slots := [], extraSlotIds }
    | primary :: others =>
      let trimmed :=
        (trimContextsToBudget (assignAll primary threadMsgEntries) clientId maxBytes).contexts
      some { slots := trimmed :: others, extraSlotIds }

/-! ### Nothing is added -/

private theorem mem_foldl_delete {contexts : Record} {keys : List String} {entry : String × Nat}
    (member : entry ∈ (keys.foldl JsMap.delete contexts).entries) : entry ∈ contexts.entries := by
  induction keys generalizing contexts with
  | nil => exact member
  | cons key rest ih => exact (JsMap.mem_delete.mp (ih member)).1

theorem mem_trimContextsToBudget {contexts : Record} {clientId : String} {maxBytes : Nat}
    {entry : String × Nat}
    (member : entry ∈ (trimContextsToBudget contexts clientId maxBytes).contexts.entries) :
    entry ∈ contexts.entries := by
  unfold trimContextsToBudget at member
  dsimp only at member
  split at member
  next => exact member
  next => exact mem_foldl_delete member

theorem mem_assignAll {contexts : Record} {entries : List (String × Nat)} {entry : String × Nat}
    (member : entry ∈ (assignAll contexts entries).entries) :
    entry ∈ contexts.entries ∨ entry ∈ entries := by
  unfold assignAll at member
  induction entries generalizing contexts with
  | nil => exact Or.inl member
  | cons head rest ih =>
    rcases ih member with here | later
    · rcases Record.mem_assign here with same | old
      · exact Or.inr (List.mem_cons.mpr (Or.inl same))
      · exact Or.inl old
    · exact Or.inr (List.mem_cons_of_mem _ later)

private theorem mem_distribute {channelEntries : List (String × Nat)} {count : Nat} {slot : Record}
    (dealt : slot ∈ distribute channelEntries count) {entry : String × Nat}
    (member : entry ∈ slot.entries) : entry ∈ channelEntries := by
  obtain ⟨number, -, rfl⟩ := List.mem_map.mp dealt
  rcases mem_assignAll member with none | there
  · cases none
  · obtain ⟨⟨entry, position⟩, kept, rfl⟩ := List.mem_map.mp there
    exact List.fst_mem_of_mem_zipIdx (List.mem_of_mem_filter kept)

theorem mem_splitContextsIntoBudgetedSlots {channelEntries threadMsgEntries : List (String × Nat)}
    {clientId : String} {initialSlotCount maxSlots maxBytes : Nat} {slotIdGenerator : Nat → String}
    {result : SlotSplitResult}
    (split : splitContextsIntoBudgetedSlots channelEntries threadMsgEntries clientId
      initialSlotCount maxSlots maxBytes slotIdGenerator = some result)
    {slot : Record} (published : slot ∈ result.slots) {entry : String × Nat}
    (member : entry ∈ slot.entries) : entry ∈ channelEntries ∨ entry ∈ threadMsgEntries := by
  unfold splitContextsIntoBudgetedSlots at split
  dsimp only at split
  split at split
  next => cases split
  next =>
    split at split
    next => cases split; cases published
    next primary others dealt =>
      cases split
      rcases List.mem_cons.mp published with same | other
      · rw [same] at member
        rcases mem_assignAll (mem_trimContextsToBudget member) with channel | threadMsg
        · exact Or.inl (mem_distribute (dealt ▸ List.mem_cons_self) channel)
        · exact Or.inr threadMsg
      · exact Or.inl (mem_distribute (dealt ▸ List.mem_cons_of_mem _ other) member)

end ReadState
