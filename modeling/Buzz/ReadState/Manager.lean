import Buzz.Lib.Index
import Buzz.Lib.Run
import Buzz.ReadState.Budget

/-!
# The read-state manager

`ReadStateManager` (`desktop/src/features/channels/readState/readStateManager.ts`) as
a machine. Its methods run to the next `await` without interruption, so a call that is
under way is the point at which it waits, and `resume` runs it from there to its next
`await` with whatever the call it waited for has returned. Between two such steps any
other call can be made or resumed. The debounce timer may fire whenever it is set.

The ghost field `published` records the events that were signed for publication.
Local storage, listeners and logs are left out: the manager reads storage only when it
is constructed.
-/
namespace ReadState

open Lib Nostr

/-- What a manager is constructed with, and how it decrypts. -/
structure Client where
  js : JsNumber
  decrypt : String → Option String
  pubkey : PublicKey
  clientId : String

structure ReadStateManager where
  slotId : String
  extraSlotIds : List String
  effectiveState : JsMap String Nat
  publishableContextIds : List String
  lastPublishedContexts : Record := JsMap.empty
  debounceTimer : Bool := false
  maxFetchedCreatedAt : Timestamp := 0
  contextSourceCreatedAt : JsMap String Timestamp
  pendingSyncedAdvances : List String := []
  destroyed : Bool := false
  recentlyPublishedIds : List EventId := []

def publishedIdMemory : Nat := 64

/-- Own blobs by their `d` tag, with the time of their event. -/
abbrev OwnBlobs := JsMap String (ReadStateBlob × Timestamp)

/-- A call at the point where it waits. `publishing` says that `publish` is the caller. -/
inductive Task where
  | merging (publishing : Bool) (batch rest : List Event) (own : OwnBlobs)
  | checking (publishing : Bool) (rest : List Event) (own : OwnBlobs)
  | incoming (event : Event)
  | fetching
  | building
  | deleting (rest : List String) (contexts : Record)
  | encrypting (slotId : String) (contexts : Record) (rest : List (String × Record))
  | signing (slotId : String) (contexts : Record) (rest : List (String × Record))
      (ciphertext : String) (createdAt : Timestamp)
  | sending (contexts : Record) (rest : List (String × Record)) (createdAt : Timestamp)
      (event : Event)

/-- What the call that a task waits for returns; `none` and `false` where it throws. -/
inductive Reply where
  | parsed (freshSlotId : String)
  | fetched (events : Option (List Event))
  | returned (freshSlotIds : Nat → String)
  | encrypted (ciphertext : Option String) (now : Timestamp)
  | signed (event : Option Event)
  | sent (accepted : Bool)

namespace ReadStateManager

/-! ### Contexts -/

/-- Returns whether the context was advanced. -/
def applyRemoteContextTimestamp (m : ReadStateManager) (contextId : String) (timestamp : Nat)
    (eventCreatedAt : Timestamp) : ReadStateManager × Bool :=
  let sourceCreatedAt := (m.contextSourceCreatedAt.get contextId).getD 0
  let current := (m.effectiveState.get contextId).getD 0
  let next := max current timestamp
  ({ m with
      effectiveState :=
        if next = current then m.effectiveState else m.effectiveState.set contextId next
      contextSourceCreatedAt :=
        if eventCreatedAt > sourceCreatedAt then
          m.contextSourceCreatedAt.set contextId eventCreatedAt
        else m.contextSourceCreatedAt }, next ≠ current)

def schedulePublish (m : ReadStateManager) : ReadStateManager :=
  if m.destroyed then m else { m with debounceTimer := true }

def advanceContext (m : ReadStateManager) (contextId : String) (unixTimestamp : Nat)
    (publishable : Bool) : ReadStateManager :=
  if m.destroyed then m
  else
    let current := (m.effectiveState.get contextId).getD 0
    let published :=
      { m with publishableContextIds := pushNew m.publishableContextIds contextId }
    if unixTimestamp ≤ current then
      if ¬publishable ∨ contextId ∈ m.publishableContextIds then m else schedulePublish published
    else if publishable then
      schedulePublish
        { published with effectiveState := m.effectiveState.set contextId unixTimestamp }
    else { m with effectiveState := m.effectiveState.set contextId unixTimestamp }

def markContextRead (m : ReadStateManager) (contextId : String) (unixTimestamp : Nat)
    (now : Timestamp) : ReadStateManager :=
  let m := advanceContext m contextId unixTimestamp true
  { m with contextSourceCreatedAt :=
      m.contextSourceCreatedAt.set contextId (max now (m.maxFetchedCreatedAt + 1)) }

def seedContextRead (m : ReadStateManager) (contextId : String) (unixTimestamp : Nat) :
    ReadStateManager :=
  advanceContext m contextId unixTimestamp false

/-! ### Merging -/

/-- One context of a fetched blob. -/
def mergeContext (createdAt : Timestamp) (m : ReadStateManager) (entry : String × Nat) :
    ReadStateManager :=
  let (m, advanced) := applyRemoteContextTimestamp m entry.1 entry.2 createdAt
  if advanced then
    { m with
      pendingSyncedAdvances := pushNew m.pendingSyncedAdvances entry.1
      publishableContextIds := pushNew m.publishableContextIds entry.1 }
  else m

/-- One context of an incoming blob, and whether anything has changed so far. -/
def incomingContext (createdAt : Timestamp) (state : ReadStateManager × Bool)
    (entry : String × Nat) : ReadStateManager × Bool :=
  let (m, advanced) := applyRemoteContextTimestamp state.1 entry.1 entry.2 createdAt
  let m :=
    if advanced then { m with pendingSyncedAdvances := pushNew m.pendingSyncedAdvances entry.1 }
    else m
  ({ m with publishableContextIds := pushNew m.publishableContextIds entry.1 },
    state.2 || advanced || !m.publishableContextIds.contains entry.1)

def observe (m : ReadStateManager) (createdAt : Timestamp) : ReadStateManager :=
  { m with maxFetchedCreatedAt := max m.maxFetchedCreatedAt createdAt }

def keepOwn (own : OwnBlobs) (parsed : ParsedReadStateEvent) : OwnBlobs :=
  match own.get parsed.dTag with
  | none => own.set parsed.dTag (parsed.blob, parsed.createdAt)
  | some existing =>
    if parsed.createdAt > existing.2 then own.set parsed.dTag (parsed.blob, parsed.createdAt)
    else own

/-- The union of several contexts: the greater timestamp of each key. -/
def unionContexts (all : List Record) : Record :=
  all.foldl (fun union contexts =>
    contexts.objectEntries.foldl (fun union entry =>
      match Record.read union entry.1 with
      | .undefined => Record.assign union entry.1 entry.2
      | .number existing =>
        if entry.2 > existing then Record.assign union entry.1 entry.2 else union
      | .other => union) union) JsMap.empty

def returnMerge (m : ReadStateManager) (publishing : Bool) : ReadStateManager × Option Task :=
  (m, if publishing then some .building else none)

/-- The end of `mergeEvents`. -/
def finishMerge (m : ReadStateManager) (publishing : Bool) (own : OwnBlobs) :
    ReadStateManager × Option Task :=
  let blobs := own.values.map Prod.fst
  let m :=
    if own.entries = [] then m
    else
      { m with
        publishableContextIds :=
          (blobs.flatMap fun blob => blob.contexts.objectEntries.map Prod.fst).foldl pushNew
            m.publishableContextIds
        lastPublishedContexts := unionContexts (blobs.map ReadStateBlob.contexts) }
  returnMerge m publishing

def continueCheck (m : ReadStateManager) (publishing : Bool) (rest : List Event) (own : OwnBlobs) :
    ReadStateManager × Option Task :=
  if rest = [] then finishMerge m publishing own else (m, some (.checking publishing rest own))

def continueMerge (m : ReadStateManager) (publishing : Bool) (batch rest : List Event)
    (own : OwnBlobs) : ReadStateManager × Option Task :=
  if rest = [] then continueCheck m publishing batch own
  else (m, some (.merging publishing batch rest own))

def mergeEvents (m : ReadStateManager) (publishing : Bool) (events : List Event) :
    ReadStateManager × Option Task :=
  if m.destroyed then returnMerge m publishing
  else continueMerge m publishing events events JsMap.empty

/-! ### Publishing -/

def rememberPublishedId (m : ReadStateManager) (id : EventId) : ReadStateManager :=
  let ids := pushNew m.recentlyPublishedIds id
  { m with recentlyPublishedIds := if ids.length > publishedIdMemory then ids.tail else ids }

def isIdenticalToLastPublished (m : ReadStateManager) (contexts : Record) : Bool :=
  m.lastPublishedContexts.keys.length = contexts.keys.length ∧
    contexts.entries.all fun entry =>
      Record.read m.lastPublishedContexts entry.1 = .number entry.2

/-- The entries that this client may publish. -/
def publishableEntries (m : ReadStateManager) : List (String × Nat) :=
  m.effectiveState.entries.filter (·.1 ∈ m.publishableContextIds)

variable (client : Client)

def currentContexts (m : ReadStateManager) : Option Record :=
  let result := trimContextsToBudget (assignAll JsMap.empty m.publishableEntries) client.clientId
    readStateMaxPlaintextBytes
  if result.fitsAfterTrim then some result.contexts else none

/-- The slots with their contexts, and the extra slot ids that are now in use. -/
def splitContextsIntoSlots (m : ReadStateManager) (freshSlotIds : Nat → String) :
    Option (List (String × Record) × List String) :=
  let isThreadMsg (entry : String × Nat) :=
    startsWith msgPrefix entry.1 || startsWith threadPrefix entry.1
  let allSlotIds := m.slotId :: m.extraSlotIds
  (splitContextsIntoBudgetedSlots (m.publishableEntries.filter fun entry => !isThreadMsg entry)
    (m.publishableEntries.filter isThreadMsg) client.clientId allSlotIds.length readStateMaxSlots
    readStateMaxPlaintextBytes freshSlotIds).map fun result =>
      ((allSlotIds ++ result.extraSlotIds).zip result.slots, m.extraSlotIds ++ result.extraSlotIds)

/-- Publish the next slot, if one is left. -/
def nextSlot : List (String × Record) → Option Task
  | [] => none
  | (slotId, contexts) :: rest => some (.encrypting slotId contexts rest)

def publishSplitSlots (m : ReadStateManager) (freshSlotIds : Nat → String) :
    ReadStateManager × Option Task :=
  match splitContextsIntoSlots client m freshSlotIds with
  | none => (m, none)
  | some (slots, extraSlotIds) =>
    let m := { m with extraSlotIds }
    if isIdenticalToLastPublished m (unionContexts (slots.map Prod.snd)) then (m, none)
    else ({ m with lastPublishedContexts := JsMap.empty }, nextSlot slots)

/-- The end of `publish`, when one slot is enough. -/
def publishSingle (m : ReadStateManager) (contexts : Record) : ReadStateManager × Option Task :=
  if isIdenticalToLastPublished m contexts then (m, none)
  else (m, nextSlot [(m.slotId, contexts)])

/-- The bookkeeping of an accepted slot. -/
def accepted (m : ReadStateManager) (contexts : Record) (createdAt : Timestamp) (event : Event) :
    ReadStateManager :=
  let entries := contexts.objectEntries
  { m with
    contextSourceCreatedAt := entries.foldl (fun times entry =>
      if Record.read m.lastPublishedContexts entry.1 = .number entry.2 then times
      else times.set entry.1 createdAt) m.contextSourceCreatedAt
    lastPublishedContexts := assignAll m.lastPublishedContexts entries
    maxFetchedCreatedAt := max m.maxFetchedCreatedAt event.createdAt }

/-! ### Calls and their continuation -/

def parseEvent (event : Event) : Option ParsedReadStateEvent :=
  parseReadStateEvent client.js client.decrypt event client.pubkey

/-- `handleIncomingEvent` up to the decryption. -/
def handleIncomingEvent (m : ReadStateManager) (event : Event) : ReadStateManager × Option Task :=
  if m.destroyed ∨ event.pubkey ≠ client.pubkey then (m, none)
  else if event.id ∈ m.recentlyPublishedIds then
    ({ m with recentlyPublishedIds := m.recentlyPublishedIds.erase event.id }, none)
  else (m, some (.incoming event))

/-- `handleIncomingEvent` behind the decryption. -/
def applyIncoming (m : ReadStateManager) (parsed : ParsedReadStateEvent) : ReadStateManager :=
  let (m, anyAdvanced) :=
    parsed.blob.contexts.objectEntries.foldl (incomingContext parsed.createdAt)
      (observe m parsed.createdAt, false)
  if anyAdvanced ∧ parsed.blob.clientId ≠ client.clientId then schedulePublish m else m

/-- A task goes on with the reply it waited for. -/
def resume (m : ReadStateManager) : Task → Reply → ReadStateManager × Option Task
  | .merging publishing batch (event :: rest) own, .parsed _ =>
    if m.destroyed then returnMerge m publishing
    else match parseEvent client event with
      | none => continueMerge m publishing batch rest own
      | some parsed =>
        let m := parsed.blob.contexts.objectEntries.foldl (mergeContext parsed.createdAt)
          (observe m parsed.createdAt)
        continueMerge m publishing batch rest
          (if parsed.blob.clientId = client.clientId then keepOwn own parsed else own)
  | .checking publishing (event :: rest) own, .parsed freshSlotId =>
    if m.destroyed then returnMerge m publishing
    else match parseEvent client event with
      | none => continueCheck m publishing rest own
      | some parsed =>
        -- Another client on our slot makes us move to a fresh one.
        if parsed.dTag = readStateDTagPrefix ++ m.slotId ∧ parsed.blob.clientId ≠ client.clientId
        then finishMerge { m with slotId := freshSlotId } publishing own
        else continueCheck m publishing rest own
  | .incoming event, .parsed _ =>
    match parseEvent client event with
    | none => (m, none)
    | some parsed => if m.destroyed then (m, none) else (applyIncoming client m parsed, none)
  | .fetching, .fetched (some events) => mergeEvents m true events
  | .fetching, .fetched none => (m, some .building)
  | .building, .returned freshSlotIds =>
    if m.destroyed then (m, none)
    else match currentContexts client m with
      | none => publishSplitSlots client m freshSlotIds
      | some contexts =>
        if m.extraSlotIds = [] then publishSingle m contexts
        else (m, some (.deleting m.extraSlotIds contexts))
  | .deleting (_ :: slotId :: rest) contexts, .sent _ =>
    (m, some (.deleting (slotId :: rest) contexts))
  | .deleting _ contexts, .sent _ =>
    publishSingle { m with extraSlotIds := [], lastPublishedContexts := JsMap.empty } contexts
  | .encrypting slotId contexts rest, .encrypted (some ciphertext) now =>
    (m, some (.signing slotId contexts rest ciphertext (max now (m.maxFetchedCreatedAt + 1))))
  | .encrypting _ _ rest, .encrypted none _ => (m, nextSlot rest)
  | .signing _ contexts rest _ createdAt, .signed (some event) =>
    (rememberPublishedId m event.id, some (.sending contexts rest createdAt event))
  | .signing _ _ rest _ _, .signed none => (m, nextSlot rest)
  | .sending contexts rest createdAt event, .sent true =>
    (accepted m contexts createdAt event, nextSlot rest)
  | .sending _ rest _ _, .sent false => (m, nextSlot rest)
  | task, _ => (m, some task)

end ReadStateManager

/-! ### The machine -/

structure World where
  manager : ReadStateManager
  tasks : List Task := []
  /-- Ghost: the events signed for publication. -/
  published : List Event := []

inductive Action where
  | markContextRead (contextId : String) (unixTimestamp : Nat) (now : Timestamp)
  | seedContextRead (contextId : String) (unixTimestamp : Nat)
  | mergeEvents (events : List Event)
  | handleIncomingEvent (event : Event)
  | debounce
  | resume (task : Nat) (reply : Reply)
  | destroy

/-- The event that a task has signed when it goes on. -/
def signedEvents : Task → Reply → List Event
  | .signing .., .signed (some event) => [event]
  | _, _ => []

namespace World

/-- A call has run to its first `await`. -/
def start (w : World) (outcome : ReadStateManager × Option Task) : World :=
  { w with manager := outcome.1, tasks := w.tasks ++ outcome.2.toList }

open ReadStateManager in
def perform (client : Client) (w : World) : Action → World
  | .markContextRead contextId unixTimestamp now =>
    { w with manager := markContextRead w.manager contextId unixTimestamp now }
  | .seedContextRead contextId unixTimestamp =>
    { w with manager := seedContextRead w.manager contextId unixTimestamp }
  | .mergeEvents events => w.start (ReadStateManager.mergeEvents w.manager false events)
  | .handleIncomingEvent event =>
    w.start (ReadStateManager.handleIncomingEvent client w.manager event)
  | .debounce =>
    if w.manager.debounceTimer then
      w.start ({ w.manager with debounceTimer := false }, some .fetching)
    else w
  | .resume i reply =>
    match w.tasks[i]? with
    | none => w
    | some task =>
      let outcome := ReadStateManager.resume client w.manager task reply
      { manager := outcome.1
        tasks := w.tasks.take i ++ outcome.2.toList ++ w.tasks.drop (i + 1)
        published := w.published ++ signedEvents task reply }
  | .destroy =>
    -- A pending publish is started at once.
    let m := { w.manager with destroyed := true }
    if m.debounceTimer then w.start ({ m with debounceTimer := false }, some .fetching)
    else { w with manager := m }

end World

end ReadState
