import Buzz.Lib.Grow
import Buzz.ReadState.Manager

/-!
# Read state converges

`converges`: in every run of a manager, however its calls interleave at their `await`s,
no context's timestamp ever decreases; when all calls have run to their end, the
effective state is the pointwise maximum of what it was and of all timestamps that
were supplied; and two managers that were supplied with the same timestamps, in any
order and any number of times, hold the same state.

A step raises the effective state by what it absorbs (`Raised`). What a call that
waits has still to absorb is `owed`, so that the maximum of the state and of what is
owed changes only by what is supplied. The one step that absorbs nothing of what it
was given is the dropped echo: it is an event that the manager published itself, whose
contexts it has reached already (`Sound`).
-/
namespace ReadState

open Lib Nostr ReadStateManager

/-- The contexts that an event supplies. -/
def contextsOf (client : Client) (event : Event) : List (String × Nat) :=
  match parseEvent client event with
  | some parsed => parsed.blob.contexts.entries
  | none => []

/-! ### What a step raises -/

/-- The step raises the state by the marks and remembers no new event. -/
structure Raised (m : ReadStateManager) (marks : List (String × Nat)) (m' : ReadStateManager) :
    Prop where
  state : m'.effectiveState.get = pointwiseMax m.effectiveState.get marks
  destroyed : m'.destroyed = m.destroyed
  ids : m'.recentlyPublishedIds = m.recentlyPublishedIds

namespace Raised

variable {m m' m'' : ReadStateManager} {marks marks' : List (String × Nat)}

theorem refl (m : ReadStateManager) : Raised m [] m := ⟨(pointwiseMax_nil _).symm, rfl, rfl⟩

theorem trans (first : Raised m marks m') (second : Raised m' marks' m'') :
    Raised m (marks ++ marks') m'' where
  state := by rw [second.state, first.state, pointwiseMax_append]
  destroyed := second.destroyed.trans first.destroyed
  ids := second.ids.trans first.ids

theorem congr (raised : Raised m marks m') (same : ∀ mark, mark ∈ marks ↔ mark ∈ marks') :
    Raised m marks' m' :=
  ⟨raised.state.trans (pointwiseMax_congr _ same), raised.destroyed, raised.ids⟩

theorem keep (raised : Raised m marks m') (state : m''.effectiveState = m'.effectiveState)
    (destroyed : m''.destroyed = m'.destroyed)
    (ids : m''.recentlyPublishedIds = m'.recentlyPublishedIds) : Raised m marks m'' :=
  ⟨by rw [state, raised.state], destroyed.trans raised.destroyed, ids.trans raised.ids⟩

end Raised

theorem raised_schedulePublish {m m' : ReadStateManager} {marks : List (String × Nat)}
    (raised : Raised m marks m') : Raised m marks (schedulePublish m') := by
  unfold schedulePublish
  split
  next => exact raised
  next => exact raised.keep rfl rfl rfl

private theorem get_set_eq_pointwiseMax {state : JsMap String Nat} {k : String} {t : Nat}
    (above : (state.get k).getD 0 < t) : (state.set k t).get = pointwiseMax state.get [(k, t)] := by
  funext k'
  rw [JsMap.get_set, pointwiseMax_single]
  by_cases same : k' = k
  · simp [same, above]
  · simp [same]

private theorem get_eq_pointwiseMax {state : JsMap String Nat} {k : String} {t : Nat}
    (reached : t ≤ (state.get k).getD 0) : state.get = pointwiseMax state.get [(k, t)] := by
  refine (pointwiseMax_eq_self fun k' t' member => ?_).symm
  obtain ⟨rfl, rfl⟩ := Prod.mk.inj (List.mem_singleton.mp member)
  exact reached

theorem raised_advanceContext {m : ReadStateManager} (alive : m.destroyed = false) (k : String)
    (t : Nat) (publishable : Bool) :
    Raised m [(k, t)] (advanceContext m k t publishable) := by
  unfold advanceContext
  rw [if_neg (by simp [alive])]
  dsimp only
  split
  next reached =>
    have unchanged : Raised m [(k, t)] m := ⟨get_eq_pointwiseMax reached, rfl, rfl⟩
    split
    next => exact unchanged
    next => exact raised_schedulePublish (unchanged.keep rfl rfl rfl)
  next above =>
    have set := get_set_eq_pointwiseMax (not_le.mp above)
    split
    next => exact raised_schedulePublish ⟨set, rfl, rfl⟩
    next => exact ⟨set, rfl, rfl⟩

theorem raised_markContextRead {m : ReadStateManager} (alive : m.destroyed = false) (k : String)
    (t : Nat) (now : Timestamp) : Raised m [(k, t)] (markContextRead m k t now) :=
  (raised_advanceContext alive k t true).keep rfl rfl rfl

theorem raised_applyRemoteContextTimestamp (m : ReadStateManager) (k : String) (t : Nat)
    (createdAt : Timestamp) :
    Raised m [(k, t)] (applyRemoteContextTimestamp m k t createdAt).1 := by
  refine ⟨?_, rfl, rfl⟩
  dsimp only [applyRemoteContextTimestamp]
  split
  next unchanged => exact get_eq_pointwiseMax (max_eq_left_iff.mp unchanged)
  next advanced =>
    have above : (m.effectiveState.get k).getD 0 < t := by
      by_contra reached
      exact advanced (max_eq_left (not_lt.mp reached))
    rw [max_eq_right above.le]
    exact get_set_eq_pointwiseMax above

theorem raised_mergeContext (createdAt : Timestamp) (m : ReadStateManager) (entry : String × Nat) :
    Raised m [entry] (mergeContext createdAt m entry) := by
  have raised := raised_applyRemoteContextTimestamp m entry.1 entry.2 createdAt
  unfold mergeContext
  dsimp only
  split
  next => exact raised.keep rfl rfl rfl
  next => exact raised

theorem raised_incomingContext (createdAt : Timestamp) (state : ReadStateManager × Bool)
    (entry : String × Nat) : Raised state.1 [entry] (incomingContext createdAt state entry).1 := by
  have raised := raised_applyRemoteContextTimestamp state.1 entry.1 entry.2 createdAt
  unfold incomingContext
  dsimp only
  split
  next => exact raised.keep rfl rfl rfl
  next => exact raised.keep rfl rfl rfl

theorem raised_foldl {σ : Type} {p : σ → ReadStateManager}
    {step : σ → String × Nat → σ}
    (raises : ∀ s entry, Raised (p s) [entry] (p (step s entry)))
    (entries : List (String × Nat)) (s : σ) :
    Raised (p s) entries (p (entries.foldl step s)) := by
  induction entries generalizing s with
  | nil => exact Raised.refl _
  | cons entry rest ih => exact (raises s entry).trans (ih (step s entry))

theorem raised_merged (m : ReadStateManager) (parsed : ParsedReadStateEvent) :
    Raised m parsed.blob.contexts.entries
      (parsed.blob.contexts.objectEntries.foldl (mergeContext parsed.createdAt)
        (observe m parsed.createdAt)) := by
  have seen : Raised m [] (observe m parsed.createdAt) := (Raised.refl m).keep rfl rfl rfl
  have pass := raised_foldl (p := id) (raised_mergeContext parsed.createdAt)
    parsed.blob.contexts.objectEntries (observe m parsed.createdAt)
  exact (seen.trans pass).congr fun mark => JsMap.mem_objectEntries

theorem raised_applyIncoming (client : Client) (m : ReadStateManager)
    (parsed : ParsedReadStateEvent) :
    Raised m parsed.blob.contexts.entries (applyIncoming client m parsed) := by
  have seen : Raised m [] (observe m parsed.createdAt) := (Raised.refl m).keep rfl rfl rfl
  have pass := raised_foldl (p := Prod.fst) (raised_incomingContext parsed.createdAt)
    parsed.blob.contexts.objectEntries (observe m parsed.createdAt, false)
  have raised := (seen.trans pass).congr fun mark => JsMap.mem_objectEntries
  unfold applyIncoming
  dsimp only
  split
  next => exact raised_schedulePublish raised
  next => exact raised

theorem handleIncomingEvent_cases (client : Client) (m : ReadStateManager) (event : Event) :
    handleIncomingEvent client m event = (m, none) ∨
    handleIncomingEvent client m event =
      ({ m with recentlyPublishedIds := m.recentlyPublishedIds.erase event.id }, none) ∨
    handleIncomingEvent client m event = (m, some (.incoming event)) := by
  unfold handleIncomingEvent
  split
  next => exact Or.inl rfl
  next =>
    split
    next => exact Or.inr (Or.inl rfl)
    next => exact Or.inr (Or.inr rfl)

/-! ### What a waiting call has still to do -/

/-- The events that a reply brings. -/
def fetchedEvents : Task → Reply → List Event
  | .fetching, .fetched (some events) => events
  | _, _ => []

/-- The timestamps that an action marks itself. -/
def Action.marks : Action → List (String × Nat)
  | .markContextRead contextId unixTimestamp _ => [(contextId, unixTimestamp)]
  | .seedContextRead contextId unixTimestamp => [(contextId, unixTimestamp)]
  | _ => []

section Calls

variable (client : Client)

namespace Task

/-- The contexts it has still to absorb. -/
def owed : Task → List (String × Nat)
  | .merging _ _ rest _ => rest.flatMap (contextsOf client)
  | .incoming event => contextsOf client event
  | _ => []

/-- The contexts it has still to publish. -/
def slots : Task → List Record
  | .deleting _ contexts => [contexts]
  | .encrypting _ contexts rest => contexts :: rest.map Prod.snd
  | .signing _ contexts rest _ _ => contexts :: rest.map Prod.snd
  | .sending _ rest _ _ => rest.map Prod.snd
  | _ => []

/-- The text that is published for a slot. -/
def plaintext (contexts : Record) : String :=
  jsonStringify (ReadStateBlob.toJson { clientId := client.clientId, contexts })

/-- What is to be signed is the ciphertext of its slot. -/
def Encrypted : Task → Prop
  | .signing _ contexts _ ciphertext _ =>
    client.decrypt ciphertext = some (plaintext client contexts)
  | _ => True

end Task

/-- What a task absorbs when it goes on. -/
def absorbed : Task → Reply → List (String × Nat)
  | .merging _ _ (event :: _) _, .parsed _ => contextsOf client event
  | .incoming event, .parsed _ => contextsOf client event
  | _, _ => []

/-- What the reply supplies. -/
def suppliedTo (task : Task) (reply : Reply) : List (String × Nat) :=
  (fetchedEvents task reply).flatMap (contextsOf client)

/-- Encryption to oneself can be undone, and what is signed is the event that was asked for. -/
def Genuine : Task → Reply → Prop
  | .encrypting _ contexts _, .encrypted (some ciphertext) _ =>
    client.decrypt ciphertext = some (Task.plaintext client contexts)
  | .signing slotId _ _ ciphertext createdAt, .signed (some event) =>
    event.content = ciphertext ∧ event.pubkey = client.pubkey ∧ event.createdAt = createdAt ∧
      event.kind = 30078 ∧
      event.tags = [["d", readStateDTagPrefix ++ slotId], ["t", "read-state"]]
  | _, _ => True

/-- What going on does. -/
structure Outcome (m : ReadStateManager) (task : Task) (reply : Reply)
    (outcome : ReadStateManager × Option Task) : Prop where
  state : outcome.1.effectiveState.get =
    pointwiseMax m.effectiveState.get (absorbed client task reply)
  destroyed : outcome.1.destroyed = m.destroyed
  ids : ∀ id ∈ outcome.1.recentlyPublishedIds,
    id ∈ m.recentlyPublishedIds ∨ ∃ event ∈ signedEvents task reply, event.id = id
  owed : ∀ mark, mark ∈ task.owed client ++ suppliedTo client task reply ↔
    mark ∈ absorbed client task reply ++ outcome.2.toList.flatMap (Task.owed client)
  slots : ∀ next ∈ outcome.2, ∀ contexts ∈ next.slots,
    contexts ∈ task.slots ∨ ∀ entry ∈ contexts.entries, entry ∈ m.effectiveState.entries
  encrypted : ∀ next ∈ outcome.2, next.Encrypted client

/-- The rest of a merge that owes those contexts. -/
structure Merges (m : ReadStateManager) (owes : List (String × Nat))
    (outcome : ReadStateManager × Option Task) : Prop where
  raised : Raised m [] outcome.1
  owed : outcome.2.toList.flatMap (Task.owed client) = owes
  slots : ∀ next ∈ outcome.2, next.slots = []
  encrypted : ∀ next ∈ outcome.2, next.Encrypted client

end Calls

section Merge

variable {client : Client}

theorem merges_returnMerge (m : ReadStateManager) (publishing : Bool) :
    Merges client m [] (returnMerge m publishing) := by
  cases publishing with
  | false => exact ⟨Raised.refl m, rfl, by simp [returnMerge], by simp [returnMerge]⟩
  | true =>
    refine ⟨Raised.refl m, rfl, ?_, ?_⟩
    · rintro next ⟨⟩
      rfl
    · rintro next ⟨⟩
      trivial

theorem merges_finishMerge (m : ReadStateManager) (publishing : Bool) (own : OwnBlobs) :
    Merges client m [] (finishMerge m publishing own) := by
  unfold finishMerge
  dsimp only
  split
  next => exact merges_returnMerge m publishing
  next =>
    have rest (m' : ReadStateManager) : Merges client m' [] (returnMerge m' publishing) :=
      merges_returnMerge m' publishing
    exact ⟨(Raised.refl m).keep rfl rfl rfl, (rest _).owed, (rest _).slots, (rest _).encrypted⟩

theorem merges_continueCheck (m : ReadStateManager) (publishing : Bool) (rest : List Event)
    (own : OwnBlobs) : Merges client m [] (continueCheck m publishing rest own) := by
  unfold continueCheck
  split
  next => exact merges_finishMerge m publishing own
  next =>
    refine ⟨Raised.refl m, rfl, ?_, ?_⟩
    · rintro next ⟨⟩
      rfl
    · rintro next ⟨⟩
      trivial

theorem merges_continueMerge (m : ReadStateManager) (publishing : Bool) (batch rest : List Event)
    (own : OwnBlobs) :
    Merges client m (rest.flatMap (contextsOf client))
      (continueMerge m publishing batch rest own) := by
  unfold continueMerge
  split
  next done =>
    subst done
    exact merges_continueCheck m publishing batch own
  next =>
    refine ⟨Raised.refl m, by simp [Task.owed], ?_, ?_⟩
    · rintro next ⟨⟩
      rfl
    · rintro next ⟨⟩
      trivial

theorem merges_mergeEvents {m : ReadStateManager} (alive : m.destroyed = false)
    (publishing : Bool) (events : List Event) :
    Merges client m (events.flatMap (contextsOf client)) (mergeEvents m publishing events) := by
  unfold mergeEvents
  rw [if_neg (by simp [alive])]
  exact merges_continueMerge m publishing events events JsMap.empty

end Merge

/-! ### Going on -/

section Resume

variable {client : Client} {m m' : ReadStateManager} {task : Task} {reply : Reply}

private theorem Outcome.idle (nothing : absorbed client task reply = [])
    (silent : suppliedTo client task reply = []) (encrypted : task.Encrypted client) :
    Outcome client m task reply (m, some task) where
  state := by rw [nothing, pointwiseMax_nil]
  destroyed := rfl
  ids _ member := Or.inl member
  owed := by simp [nothing, silent]
  slots := by
    rintro next ⟨⟩ contexts member
    exact Or.inl member
  encrypted := by
    rintro next ⟨⟩
    exact encrypted

private theorem Merges.outcome {owes : List (String × Nat)}
    {outcome : ReadStateManager × Option Task} (merges : Merges client m' owes outcome)
    (raised : Raised m (absorbed client task reply) m')
    (owed : ∀ mark, mark ∈ task.owed client ++ suppliedTo client task reply ↔
      mark ∈ absorbed client task reply ++ owes) :
    Outcome client m task reply outcome where
  state := by rw [merges.raised.state, pointwiseMax_nil, raised.state]
  destroyed := merges.raised.destroyed.trans raised.destroyed
  ids id member := by
    rw [merges.raised.ids, raised.ids] at member
    exact Or.inl member
  owed := by rw [merges.owed]; exact owed
  slots next given contexts member := by
    rw [merges.slots next given] at member
    cases member
  encrypted := merges.encrypted

private theorem Outcome.waits {next : Task} (kept : Raised m [] m')
    (nothing : absorbed client task reply = []) (silent : suppliedTo client task reply = [])
    (idle : task.owed client = []) (idle' : next.owed client = [])
    (known : ∀ contexts ∈ next.slots, contexts ∈ task.slots ∨
      ∀ entry ∈ contexts.entries, entry ∈ m.effectiveState.entries)
    (encrypted : next.Encrypted client) : Outcome client m task reply (m', some next) where
  state := by rw [nothing, kept.state]
  destroyed := kept.destroyed
  ids id member := by
    rw [kept.ids] at member
    exact Or.inl member
  owed := by simp [nothing, silent, idle, idle']
  slots := by
    rintro next ⟨⟩ contexts member
    exact known contexts member
  encrypted := by
    rintro next ⟨⟩
    exact encrypted

private theorem Outcome.publishes {slots : List (String × Record)} (kept : Raised m [] m')
    (nothing : absorbed client task reply = []) (silent : suppliedTo client task reply = [])
    (idle : task.owed client = [])
    (known : ∀ slot ∈ slots, slot.2 ∈ task.slots ∨
      ∀ entry ∈ slot.2.entries, entry ∈ m.effectiveState.entries) :
    Outcome client m task reply (m', nextSlot slots) where
  state := by rw [nothing, kept.state]
  destroyed := kept.destroyed
  ids id member := by
    rw [kept.ids] at member
    exact Or.inl member
  owed := by
    rw [nothing, silent, idle]
    cases slots <;> simp [nextSlot, Task.owed]
  slots := by
    intro next given contexts member
    cases slots with
    | nil => cases given
    | cons slot rest =>
      cases given
      rcases List.mem_cons.mp member with rfl | member
      · exact known slot List.mem_cons_self
      · obtain ⟨slot, there, rfl⟩ := List.mem_map.mp member
        exact known slot (List.mem_cons_of_mem _ there)
  encrypted := by
    intro next given
    cases slots with
    | nil => cases given
    | cons slot rest => cases given; trivial

private theorem Outcome.finished (kept : Raised m [] m')
    (nothing : absorbed client task reply = []) (silent : suppliedTo client task reply = [])
    (idle : task.owed client = []) : Outcome client m task reply (m', none) :=
  have no : ∀ slot ∈ ([] : List (String × Record)), slot.2 ∈ task.slots ∨
      ∀ entry ∈ slot.2.entries, entry ∈ m.effectiveState.entries := by simp
  Outcome.publishes kept nothing silent idle no

theorem mem_publishableEntries {entry : String × Nat} (member : entry ∈ m.publishableEntries) :
    entry ∈ m.effectiveState.entries := List.mem_of_mem_filter member

theorem mem_currentContexts {contexts : Record} (current : currentContexts client m = some contexts) :
    ∀ entry ∈ contexts.entries, entry ∈ m.effectiveState.entries := by
  intro entry member
  unfold currentContexts at current
  dsimp only at current
  split at current
  next =>
    rw [← Option.some.inj current] at member
    rcases mem_assignAll (mem_trimContextsToBudget member) with none | there
    · cases none
    · exact mem_publishableEntries there
  next => cases current

theorem mem_splitContextsIntoSlots {fresh : Nat → String} {slots : List (String × Record)}
    {ids : List String} (split : splitContextsIntoSlots client m fresh = some (slots, ids)) :
    ∀ slot ∈ slots, ∀ entry ∈ slot.2.entries, entry ∈ m.effectiveState.entries := by
  intro slot published entry member
  obtain ⟨result, dealt, same⟩ := Option.map_eq_some_iff.mp split
  obtain ⟨rfl, -⟩ := Prod.mk.inj same
  rcases mem_splitContextsIntoBudgetedSlots dealt (List.of_mem_zip published).2 member with
    channel | threadMsg
  · exact mem_publishableEntries (List.mem_of_mem_filter channel)
  · exact mem_publishableEntries (List.mem_of_mem_filter threadMsg)

private theorem publishSingle_outcome {contexts : Record} (kept : Raised m [] m')
    (nothing : absorbed client task reply = []) (silent : suppliedTo client task reply = [])
    (idle : task.owed client = [])
    (known : contexts ∈ task.slots ∨ ∀ entry ∈ contexts.entries, entry ∈ m.effectiveState.entries) :
    Outcome client m task reply (publishSingle m' contexts) := by
  unfold publishSingle
  split
  next => exact Outcome.finished kept nothing silent idle
  next => exact Outcome.publishes kept nothing silent idle (by simpa using known)

private theorem publishSplitSlots_outcome {fresh : Nat → String}
    (nothing : absorbed client task reply = []) (silent : suppliedTo client task reply = [])
    (idle : task.owed client = []) :
    Outcome client m task reply (publishSplitSlots client m fresh) := by
  unfold publishSplitSlots
  split
  next => exact Outcome.finished (Raised.refl m) nothing silent idle
  next slots ids split =>
    have kept {m' : ReadStateManager} (state : m'.effectiveState = m.effectiveState)
        (destroyed : m'.destroyed = m.destroyed)
        (ids : m'.recentlyPublishedIds = m.recentlyPublishedIds) : Raised m [] m' :=
      (Raised.refl m).keep state destroyed ids
    dsimp only
    split
    next => exact Outcome.finished (kept rfl rfl rfl) nothing silent idle
    next =>
      exact Outcome.publishes (kept rfl rfl rfl) nothing silent idle fun slot published =>
        Or.inr (mem_splitContextsIntoSlots split slot published)

private theorem resume_merging (alive : m.destroyed = false) (publishing : Bool)
    (batch : List Event) (event : Event) (rest : List Event) (own : OwnBlobs) (fresh : String) :
    Outcome client m (.merging publishing batch (event :: rest) own) (.parsed fresh)
      (resume client m (.merging publishing batch (event :: rest) own) (.parsed fresh)) := by
  unfold resume
  dsimp only
  rw [if_neg (by simp [alive])]
  split
  next unread =>
    have none : contextsOf client event = [] := by simp [contextsOf, unread]
    refine (merges_continueMerge m publishing batch rest own).outcome ?_ ?_
    · rw [absorbed, none]
      exact Raised.refl m
    · simp [Task.owed, suppliedTo, fetchedEvents, absorbed, none]
  next parsed read =>
    have contexts : contextsOf client event = parsed.blob.contexts.entries := by
      simp [contextsOf, read]
    refine (merges_continueMerge _ publishing batch rest _).outcome ?_ ?_
    · rw [absorbed, contexts]
      exact raised_merged m parsed
    · simp [Task.owed, suppliedTo, fetchedEvents, absorbed]

private theorem resume_checking (alive : m.destroyed = false) (publishing : Bool) (event : Event)
    (rest : List Event) (own : OwnBlobs) (fresh : String) :
    Outcome client m (.checking publishing (event :: rest) own) (.parsed fresh)
      (resume client m (.checking publishing (event :: rest) own) (.parsed fresh)) := by
  unfold resume
  dsimp only
  rw [if_neg (by simp [alive])]
  have outcome {m' : ReadStateManager} {outcome : ReadStateManager × Option Task}
      (kept : Raised m [] m') (merges : Merges client m' [] outcome) :
      Outcome client m (.checking publishing (event :: rest) own) (.parsed fresh) outcome :=
    merges.outcome kept (by simp [Task.owed, suppliedTo, fetchedEvents, absorbed])
  split
  next => exact outcome (Raised.refl m) (merges_continueCheck m publishing rest own)
  next =>
    split
    next =>
      refine outcome ?_ (merges_finishMerge _ publishing own)
      exact (Raised.refl m).keep rfl rfl rfl
    next => exact outcome (Raised.refl m) (merges_continueCheck m publishing rest own)

private theorem resume_incoming (alive : m.destroyed = false) (event : Event) (fresh : String) :
    Outcome client m (.incoming event) (.parsed fresh)
      (resume client m (.incoming event) (.parsed fresh)) := by
  unfold resume
  dsimp only
  simp only [if_neg (show ¬m.destroyed = true by simp [alive])]
  have outcome {m' : ReadStateManager} (raised : Raised m (contextsOf client event) m') :
      Outcome client m (.incoming event) (.parsed fresh) (m', none) := by
    refine Merges.outcome ⟨Raised.refl m', rfl, by simp, by simp⟩ raised ?_
    simp [Task.owed, suppliedTo, fetchedEvents, absorbed]
  split
  next unread =>
    refine outcome ?_
    simp only [contextsOf, unread]
    exact Raised.refl m
  next parsed read =>
    refine outcome ?_
    simp only [contextsOf, read]
    exact raised_applyIncoming client m parsed

private theorem resume_building (alive : m.destroyed = false) (fresh : Nat → String) :
    Outcome client m .building (.returned fresh) (resume client m .building (.returned fresh)) := by
  unfold resume
  dsimp only
  rw [if_neg (by simp [alive])]
  split
  next => exact publishSplitSlots_outcome rfl rfl rfl
  next contexts current =>
    have known := mem_currentContexts current
    split
    next => exact publishSingle_outcome (Raised.refl m) rfl rfl rfl (Or.inr known)
    next =>
      refine Outcome.waits (Raised.refl m) rfl rfl rfl rfl (fun contexts' member => ?_) trivial
      rw [List.mem_singleton.mp member]
      exact Or.inr known

private theorem resume_deleting (rest : List String) (contexts : Record) (accepted : Bool) :
    Outcome client m (.deleting rest contexts) (.sent accepted)
      (resume client m (.deleting rest contexts) (.sent accepted)) := by
  have last : Outcome client m (.deleting rest contexts) (.sent accepted)
      (publishSingle { m with extraSlotIds := [], lastPublishedContexts := JsMap.empty }
        contexts) :=
    publishSingle_outcome ((Raised.refl m).keep rfl rfl rfl) rfl rfl rfl
      (Or.inl (List.mem_singleton_self contexts))
  match rest with
  | [] => exact last
  | [_] => exact last
  | _ :: _ :: _ =>
    exact Outcome.waits (Raised.refl m) rfl rfl rfl rfl (fun _ member => Or.inl member) trivial

private theorem resume_signing (slotId : String) (contexts : Record)
    (rest : List (String × Record)) (ciphertext : String) (createdAt : Timestamp)
    (event : Option Event) :
    Outcome client m (.signing slotId contexts rest ciphertext createdAt) (.signed event)
      (resume client m (.signing slotId contexts rest ciphertext createdAt) (.signed event)) := by
  cases event with
  | none =>
    exact Outcome.publishes (Raised.refl m) rfl rfl rfl fun slot later =>
      Or.inl (List.mem_cons_of_mem _ (List.mem_map_of_mem later))
  | some event =>
    refine ⟨(Raised.refl m).state, rfl, ?_, fun _ => Iff.rfl, ?_, ?_⟩
    · -- The id of the event is remembered, and perhaps the oldest one forgotten.
      intro id member
      have pushed : id ∈ pushNew m.recentlyPublishedIds event.id := by
        change id ∈ (rememberPublishedId m event.id).recentlyPublishedIds at member
        unfold rememberPublishedId at member
        dsimp only at member
        split at member
        next => exact List.mem_of_mem_tail member
        next => exact member
      rcases (mem_pushNew _ _ _).mp pushed with old | new
      · exact Or.inl old
      · exact Or.inr ⟨event, List.mem_singleton_self event, new.symm⟩
    · rintro next ⟨⟩ contexts' member
      exact Or.inl (List.mem_cons_of_mem _ member)
    · rintro next ⟨⟩
      trivial

theorem resume_outcome (alive : m.destroyed = false) (encrypted : task.Encrypted client)
    (genuine : Genuine client task reply) :
    Outcome client m task reply (resume client m task reply) := by
  have other (same : resume client m task reply = (m, some task))
      (nothing : absorbed client task reply = []) (silent : suppliedTo client task reply = []) :
      Outcome client m task reply (resume client m task reply) :=
    same ▸ Outcome.idle nothing silent encrypted
  have kept : Raised m [] m := Raised.refl m
  cases task with
  | merging publishing batch rest own =>
    cases rest with
    | nil => cases reply <;> exact other rfl rfl rfl
    | cons event rest =>
      cases reply with
      | parsed fresh => exact resume_merging alive publishing batch event rest own fresh
      | _ => exact other rfl rfl rfl
  | checking publishing rest own =>
    cases rest with
    | nil => cases reply <;> exact other rfl rfl rfl
    | cons event rest =>
      cases reply with
      | parsed fresh => exact resume_checking alive publishing event rest own fresh
      | _ => exact other rfl rfl rfl
  | incoming event =>
    cases reply with
    | parsed fresh => exact resume_incoming alive event fresh
    | _ => exact other rfl rfl rfl
  | fetching =>
    cases reply with
    | fetched events =>
      cases events with
      | none => exact Outcome.waits kept rfl rfl rfl rfl (fun _ member => Or.inl member) trivial
      | some events =>
        refine (merges_mergeEvents alive true events).outcome kept ?_
        simp [Task.owed, suppliedTo, fetchedEvents, absorbed]
    | _ => exact other rfl rfl rfl
  | building =>
    cases reply with
    | returned fresh => exact resume_building alive fresh
    | _ => exact other rfl rfl rfl
  | deleting rest contexts =>
    cases reply with
    | sent accepted => exact resume_deleting rest contexts accepted
    | _ => rcases rest with _ | ⟨_, _ | _⟩ <;> exact other rfl rfl rfl
  | encrypting slotId contexts rest =>
    cases reply with
    | encrypted ciphertext now =>
      cases ciphertext with
      | none =>
        exact Outcome.publishes kept rfl rfl rfl fun slot later =>
          Or.inl (List.mem_cons_of_mem _ (List.mem_map_of_mem later))
      | some ciphertext =>
        exact Outcome.waits kept rfl rfl rfl rfl (fun _ member => Or.inl member) genuine
    | _ => exact other rfl rfl rfl
  | signing slotId contexts rest ciphertext createdAt =>
    cases reply with
    | signed event => exact resume_signing slotId contexts rest ciphertext createdAt event
    | _ => exact other rfl rfl rfl
  | sending contexts rest createdAt event =>
    cases reply with
    | sent accepted =>
      cases accepted with
      | false =>
        exact Outcome.publishes kept rfl rfl rfl fun slot later =>
          Or.inl (List.mem_map_of_mem later)
      | true =>
        refine Outcome.publishes (kept.keep rfl rfl rfl) rfl rfl rfl fun slot later => ?_
        exact Or.inl (List.mem_map_of_mem later)
    | _ => exact other rfl rfl rfl

end Resume

/-! ### Runs -/

namespace World

section Definitions

variable (client : Client) (w : World)

/-- The contexts that the calls under way have still to absorb. -/
def owed : List (String × Nat) := w.tasks.flatMap (Task.owed client)

/-- The events that an action hands to the manager. -/
def received : Action → List Event
  | .mergeEvents events => events
  | .handleIncomingEvent event => [event]
  | .resume i reply => w.tasks[i]?.elim [] fun task => fetchedEvents task reply
  | _ => []

/-- The timestamps that an action supplies. -/
def supplied (a : Action) : List (String × Nat) :=
  a.marks ++ (w.received a).flatMap (contextsOf client)

/-- The timestamps that an action raises the state by. -/
def absorbs : Action → List (String × Nat)
  | .resume i reply => w.tasks[i]?.elim [] fun task => absorbed client task reply
  | a => a.marks

/-- Marks are timestamps of the format, an event id identifies its event, and encryption and
signing do what they are asked to. -/
def Honest : Action → Prop
  | .markContextRead _ unixTimestamp _ => unixTimestamp ≤ 4294967295
  | .seedContextRead _ unixTimestamp => unixTimestamp ≤ 4294967295
  | .handleIncomingEvent event => ∀ own ∈ w.published, own.id = event.id → own = event
  | .resume i reply => ∀ task ∈ w.tasks[i]?, Genuine client task reply
  | .mergeEvents _ | .debounce | .destroy => True

/-- The state has reached the marks. -/
def Reached (marks : List (String × Nat)) : Prop :=
  ∀ k t, (k, t) ∈ marks → t ≤ (w.manager.effectiveState.get k).getD 0

/-- What the manager publishes and has published it has reached. -/
structure Sound : Prop where
  alive : w.manager.destroyed = false
  small : ∀ k, (w.manager.effectiveState.get k).getD 0 < 2 ^ 53
  slots : ∀ task ∈ w.tasks, ∀ contexts ∈ task.slots, w.Reached contexts.entries
  encrypted : ∀ task ∈ w.tasks, task.Encrypted client
  published : ∀ event ∈ w.published, w.Reached (contextsOf client event)
  remembered : ∀ id ∈ w.manager.recentlyPublishedIds, ∃ event ∈ w.published, event.id = id

end Definitions

variable {client : Client} {w w' : World} {a : Action}

theorem Reached.grow {marks more : List (String × Nat)} (reached : w.Reached marks)
    (state : w'.manager.effectiveState.get = pointwiseMax w.manager.effectiveState.get more) :
    w'.Reached marks := by
  intro k t member
  rw [state]
  exact (reached k t member).trans (le_pointwiseMax _ _ k)

theorem contextsOf_le {event : Event} {k : String} {t : Nat}
    (member : (k, t) ∈ contextsOf client event) : t ≤ 4294967295 := by
  unfold contextsOf at member
  split at member
  next parsed read =>
    obtain ⟨-, _, _, _, contexts, -, -, -, sanitized⟩ := parsed_of_parseReadStateEvent read
    rw [sanitized] at member
    obtain ⟨value, -, kept⟩ := mem_sanitizeContexts member
    obtain ⟨n, -, bounded⟩ := Option.bind_eq_some_iff.mp kept
    split at bounded
    next => cases bounded; omega
    next => cases bounded
  next => cases member

theorem contextsOf_foreign {event : Event} (foreign : event.pubkey ≠ client.pubkey) :
    contextsOf client event = [] := by
  unfold contextsOf
  split
  next parsed read => exact absurd (parsed_of_parseReadStateEvent read).1 foreign
  next => rfl

theorem absorbed_le {task : Task} {reply : Reply} {k : String} {t : Nat}
    (member : (k, t) ∈ absorbed client task reply) : t ≤ 4294967295 := by
  unfold absorbed at member
  split at member
  next => exact contextsOf_le member
  next => exact contextsOf_le member
  next => cases member

private theorem tasks_split {tasks : List Task} {i : Nat} {task : Task}
    (found : tasks[i]? = some task) : tasks = tasks.take i ++ task :: tasks.drop (i + 1) := by
  obtain ⟨inside, rfl⟩ := List.getElem?_eq_some_iff.mp found
  rw [← List.drop_eq_getElem_cons inside, List.take_append_drop]

/-- Every action raises the state by what it absorbs. -/
theorem perform_state (sound : w.Sound client) (honest : w.Honest client a) (open' : a ≠ .destroy) :
    (w.perform client a).manager.effectiveState.get =
      pointwiseMax w.manager.effectiveState.get (w.absorbs client a) := by
  cases a with
  | markContextRead k t now => exact (raised_markContextRead sound.alive k t now).state
  | seedContextRead k t => exact (raised_advanceContext sound.alive k t false).state
  | mergeEvents events =>
    have merges : Merges client w.manager _ _ := merges_mergeEvents sound.alive false events
    exact merges.raised.state
  | handleIncomingEvent event =>
    dsimp only [perform, start, absorbs, Action.marks]
    rw [pointwiseMax_nil]
    rcases handleIncomingEvent_cases client w.manager event with same | same | same <;> rw [same]
  | debounce =>
    dsimp only [perform, absorbs, Action.marks]
    rw [pointwiseMax_nil]
    split <;> rfl
  | resume i reply =>
    dsimp only [perform, absorbs]
    split
    next missing => rw [missing]; exact (pointwiseMax_nil _).symm
    next task found =>
      rw [found]
      have member : task ∈ w.tasks := List.mem_of_getElem? found
      exact (resume_outcome sound.alive (sound.encrypted task member) (honest task found)).state
  | destroy => exact absurd rfl open'

theorem echo_reached (sound : w.Sound client) {event : Event}
    (honest : w.Honest client (.handleIncomingEvent event))
    (remembered : event.id ∈ w.manager.recentlyPublishedIds) :
    w.Reached (contextsOf client event) := by
  obtain ⟨own, signed, same⟩ := sound.remembered event.id remembered
  rw [← honest own signed same]
  exact sound.published own signed

/-- The maximum of the state and of what is owed changes only by what is supplied. -/
theorem perform_owed (sound : w.Sound client) (honest : w.Honest client a) (open' : a ≠ .destroy) :
    pointwiseMax (w.perform client a).manager.effectiveState.get ((w.perform client a).owed client) =
      pointwiseMax w.manager.effectiveState.get (w.owed client ++ w.supplied client a) := by
  have balanced (same : ∀ mark, mark ∈ w.absorbs client a ++ (w.perform client a).owed client ↔
      mark ∈ w.owed client ++ w.supplied client a) :
      pointwiseMax (w.perform client a).manager.effectiveState.get
          ((w.perform client a).owed client) =
        pointwiseMax w.manager.effectiveState.get (w.owed client ++ w.supplied client a) := by
    rw [perform_state sound honest open', ← pointwiseMax_append]
    exact pointwiseMax_congr _ same
  cases a with
  | markContextRead k t now =>
    refine balanced fun mark => ?_
    simp only [absorbs, supplied, received, List.flatMap_nil, List.append_nil, List.mem_append]
    exact or_comm
  | seedContextRead k t =>
    refine balanced fun mark => ?_
    simp only [absorbs, supplied, received, List.flatMap_nil, List.append_nil, List.mem_append]
    exact or_comm
  | mergeEvents events =>
    have merges : Merges client w.manager _ _ := merges_mergeEvents sound.alive false events
    refine balanced fun mark => ?_
    simp only [absorbs, supplied, received, Action.marks, owed, perform, start,
      List.flatMap_append, merges.owed, List.nil_append]
  | handleIncomingEvent event =>
    by_cases foreign : event.pubkey = client.pubkey
    · by_cases echo : event.id ∈ w.manager.recentlyPublishedIds
      · -- Nothing is absorbed, and nothing was to be.
        have reached : pointwiseMax w.manager.effectiveState.get (contextsOf client event) =
            w.manager.effectiveState.get :=
          pointwiseMax_eq_self (echo_reached sound honest echo)
        have commuted : pointwiseMax w.manager.effectiveState.get
            (w.owed client ++ contextsOf client event) =
            pointwiseMax w.manager.effectiveState.get (contextsOf client event ++ w.owed client) :=
          pointwiseMax_congr _ fun mark => by simp only [List.mem_append, or_comm]
        have given : w.supplied client (.handleIncomingEvent event) = contextsOf client event := by
          simp [supplied, received, Action.marks]
        rw [given, commuted, pointwiseMax_append, reached]
        simp [perform, start, handleIncomingEvent, sound.alive, foreign, echo, owed]
      · refine balanced fun mark => ?_
        simp [perform, start, handleIncomingEvent, sound.alive, foreign, echo, owed, absorbs,
          supplied, received, Action.marks, Task.owed]
    · refine balanced fun mark => ?_
      simp [perform, start, handleIncomingEvent, foreign, owed, absorbs, supplied,
        received, Action.marks, contextsOf_foreign foreign]
  | debounce =>
    refine balanced fun mark => ?_
    dsimp only [perform]
    split
    next => simp [start, owed, absorbs, supplied, received, Action.marks, Task.owed]
    next => simp [absorbs, supplied, received, Action.marks]
  | resume i reply =>
    refine balanced fun mark => ?_
    dsimp only [perform, absorbs, supplied, received, Action.marks]
    split
    next missing => simp [missing]
    next task found =>
      have member : task ∈ w.tasks := List.mem_of_getElem? found
      have same := (resume_outcome sound.alive (sound.encrypted task member)
        (honest task found)).owed mark
      rw [found]
      simp only [owed, Option.elim_some, List.nil_append]
      conv_rhs => rw [tasks_split found]
      simp only [suppliedTo, List.flatMap_append, List.flatMap_cons, List.mem_append] at same ⊢
      clear balanced sound honest open' found member
      grind
  | destroy => exact absurd rfl open'

/-! ### What is published has been reached -/

private theorem absorbs_le (honest : w.Honest client a) {k : String} {t : Nat}
    (member : (k, t) ∈ w.absorbs client a) : t ≤ 4294967295 := by
  cases a with
  | markContextRead k' t' now =>
    obtain ⟨-, rfl⟩ := Prod.mk.inj (List.mem_singleton.mp member)
    exact honest
  | seedContextRead k' t' =>
    obtain ⟨-, rfl⟩ := Prod.mk.inj (List.mem_singleton.mp member)
    exact honest
  | resume i reply =>
    dsimp only [absorbs] at member
    cases found : w.tasks[i]? with
    | none => rw [found] at member; cases member
    | some task => rw [found] at member; exact absorbed_le member
  | mergeEvents events => cases member
  | handleIncomingEvent event => cases member
  | debounce => cases member
  | destroy => cases member

theorem reached_of_entries {contexts : Record}
    (known : ∀ entry ∈ contexts.entries, entry ∈ w.manager.effectiveState.entries) :
    w.Reached contexts.entries := by
  intro k t member
  rw [JsMap.mem_entries.mp (known _ member)]
  exact le_rfl

/-- What has to be shown of an action: new tasks and new events bring only what is reached. -/
private theorem Sound.step (sound : w.Sound client) (honest : w.Honest client a)
    (open' : a ≠ .destroy) (alive : (w.perform client a).manager.destroyed = false)
    (tasks : ∀ task ∈ (w.perform client a).tasks, task ∈ w.tasks ∨
      (∀ contexts ∈ task.slots, w.Reached contexts.entries) ∧ task.Encrypted client)
    (published : ∀ event ∈ (w.perform client a).published,
      event ∈ w.published ∨ w.Reached (contextsOf client event))
    (remembered : ∀ id ∈ (w.perform client a).manager.recentlyPublishedIds,
      ∃ event ∈ (w.perform client a).published, event.id = id) :
    (w.perform client a).Sound client where
  alive := alive
  small k := by
    rw [perform_state sound honest open']
    have marks : top (w.absorbs client a) k ≤ 4294967295 :=
      top_le_iff.mpr fun t member => absorbs_le honest member
    have before := sound.small k
    have raised := getD_pointwiseMax w.manager.effectiveState.get (w.absorbs client a) k
    simp only [Nat.bot_eq_zero] at raised
    omega
  slots task member contexts given := by
    have state := perform_state sound honest open'
    rcases tasks task member with old | ⟨new, -⟩
    · exact (sound.slots task old contexts given).grow state
    · exact (new contexts given).grow state
  encrypted task member := by
    rcases tasks task member with old | ⟨-, new⟩
    · exact sound.encrypted task old
    · exact new
  published event member := by
    have state := perform_state sound honest open'
    rcases published event member with old | new
    · exact (sound.published event old).grow state
    · exact new.grow state
  remembered := remembered

private theorem signed_reached (sound : w.Sound client) {task : Task} {reply : Reply}
    (member : task ∈ w.tasks) (genuine : Genuine client task reply) {event : Event}
    (signed : event ∈ signedEvents task reply) : w.Reached (contextsOf client event) := by
  unfold signedEvents at signed
  split at signed
  next slotId contexts rest ciphertext createdAt event' =>
    obtain rfl := List.mem_singleton.mp signed
    have reached : w.Reached contexts.entries := sound.slots _ member contexts List.mem_cons_self
    have encrypted : client.decrypt ciphertext = some (Task.plaintext client contexts) :=
      sound.encrypted _ member
    intro k t supplied
    unfold contextsOf at supplied
    split at supplied
    next parsed read =>
      have written : client.decrypt event.content = some (Task.plaintext client contexts) := by
        rw [genuine.1]
        exact encrypted
      refine reached k t (contexts_of_stringified written ?_ read _ supplied)
      rintro ⟨k', t'⟩ there
      exact (reached k' t' there).trans_lt (sound.small k')
    next => cases supplied
  next => cases signed

theorem perform_sound (sound : w.Sound client) (honest : w.Honest client a) (open' : a ≠ .destroy) :
    (w.perform client a).Sound client := by
  -- A call that starts brings at most one task, with nothing to publish.
  have starts (outcome : ReadStateManager × Option Task)
      (same : w.perform client a = w.start outcome)
      (alive : outcome.1.destroyed = false)
      (ids : ∀ id ∈ outcome.1.recentlyPublishedIds, id ∈ w.manager.recentlyPublishedIds)
      (slots : ∀ next ∈ outcome.2, next.slots = [])
      (encrypted : ∀ next ∈ outcome.2, next.Encrypted client) :
      (w.perform client a).Sound client := by
    refine sound.step honest open' (by rw [same]; exact alive) ?_ ?_ ?_
    · rw [same]
      intro task member
      rcases List.mem_append.mp member with old | new
      · exact Or.inl old
      · have next : task ∈ outcome.2 := Option.mem_toList.mp new
        refine Or.inr ⟨fun contexts given => ?_, encrypted task next⟩
        rw [slots task next] at given
        cases given
    · rw [same]
      exact fun event member => Or.inl member
    · rw [same]
      exact fun id member => sound.remembered id (ids id member)
  -- A mark raises the state and nothing else.
  have marks (marks : List (String × Nat)) (m : ReadStateManager) (raised : Raised w.manager marks m)
      (same : w.perform client a = w.start (m, none)) : (w.perform client a).Sound client := by
    refine starts (m, none) same (raised.destroyed.trans sound.alive) ?_ (by simp) (by simp)
    intro id member
    rwa [raised.ids] at member
  cases a with
  | markContextRead k t now =>
    exact marks _ _ (raised_markContextRead sound.alive k t now) (by simp [perform, start])
  | seedContextRead k t =>
    exact marks _ _ (raised_advanceContext sound.alive k t false)
      (by simp [perform, start, seedContextRead])
  | mergeEvents events =>
    have merges : Merges client w.manager _ _ := merges_mergeEvents sound.alive false events
    refine starts _ rfl (merges.raised.destroyed.trans sound.alive) ?_ merges.slots merges.encrypted
    intro id member
    rwa [merges.raised.ids] at member
  | handleIncomingEvent event =>
    rcases handleIncomingEvent_cases client w.manager event with same | same | same
    · exact marks [] w.manager (Raised.refl _) (by simp [perform, same])
    · refine starts _ rfl ?_ ?_ ?_ ?_ <;> rw [same]
      · exact sound.alive
      · exact fun id member => List.mem_of_mem_erase member
      · simp
      · simp
    · refine starts _ rfl ?_ ?_ ?_ ?_ <;> rw [same]
      · exact sound.alive
      · exact fun id member => member
      · rintro next ⟨⟩
        rfl
      · rintro next ⟨⟩
        trivial
  | debounce =>
    by_cases set : w.manager.debounceTimer = true
    · refine starts ({ w.manager with debounceTimer := false }, some .fetching)
        (by simp [perform, set]) sound.alive (fun id member => member) ?_ ?_
      · rintro next ⟨⟩
        rfl
      · rintro next ⟨⟩
        trivial
    · exact marks [] w.manager (Raised.refl _) (by simp [perform, start, set])
  | resume i reply =>
    cases found : w.tasks[i]? with
    | none => exact marks [] w.manager (Raised.refl _) (by simp [perform, start, found])
    | some task =>
      have member : task ∈ w.tasks := List.mem_of_getElem? found
      have outcome := resume_outcome sound.alive (sound.encrypted task member) (honest task found)
      have same : w.perform client (.resume i reply) =
          { manager := (ReadStateManager.resume client w.manager task reply).1
            tasks := w.tasks.take i ++
              (ReadStateManager.resume client w.manager task reply).2.toList ++ w.tasks.drop (i + 1)
            published := w.published ++ signedEvents task reply } := by
        simp only [perform, found]
      refine sound.step honest open' ?_ ?_ ?_ ?_
      · rw [same]
        exact outcome.destroyed.trans sound.alive
      · rw [same]
        intro next there
        simp only [List.mem_append, Option.mem_toList] at there
        rcases there with (before | new) | after
        · exact Or.inl (List.mem_of_mem_take before)
        · refine Or.inr ⟨fun contexts given => ?_, outcome.encrypted next new⟩
          rcases outcome.slots next new contexts given with old | entries
          · exact sound.slots task member contexts old
          · exact reached_of_entries entries
        · exact Or.inl (List.mem_of_mem_drop after)
      · rw [same]
        intro event there
        rcases List.mem_append.mp there with old | new
        · exact Or.inl old
        · exact Or.inr (signed_reached sound member (honest task found) new)
      · rw [same]
        intro id there
        rcases outcome.ids id there with old | ⟨event, new, rfl⟩
        · obtain ⟨event, signed, rfl⟩ := sound.remembered id old
          exact ⟨event, List.mem_append_left _ signed, rfl⟩
        · exact ⟨event, List.mem_append_right _ new, rfl⟩
  | destroy => exact absurd rfl open'

/-- A manager that has been constructed and has read local storage: what it has read are times
that a date can hold, it has published nothing and no call is under way. -/
structure Fresh (w : World) : Prop where
  tasks : w.tasks = []
  published : w.published = []
  remembered : w.manager.recentlyPublishedIds = []
  alive : w.manager.destroyed = false
  dates : ∀ entry ∈ w.manager.effectiveState.entries, entry.2 ≤ 8640000000000

theorem Fresh.sound (fresh : w.Fresh) : w.Sound client where
  alive := fresh.alive
  small k := by
    cases found : w.manager.effectiveState.get k with
    | none => simp
    | some t =>
      have date := fresh.dates (k, t) (JsMap.mem_entries.mpr found)
      simp only [Option.getD_some]
      omega
  slots := by simp [fresh.tasks]
  encrypted := by simp [fresh.tasks]
  published := by simp [fresh.published]
  remembered := by simp [fresh.remembered]

/-- The calls that supply timestamps have run to their end. -/
def Settled (w : World) : Prop :=
  ∀ task ∈ w.tasks, match task with
    | .merging .. | .incoming .. => False
    | _ => True

theorem Settled.owed (settled : w.Settled) : w.owed client = [] := by
  rw [World.owed, List.flatMap_eq_nil_iff]
  intro task member
  have idle := settled task member
  cases task <;> first | rfl | exact idle.elim

/-- A step of an honest run in which the manager is in use. -/
def InUse (client : Client) (w : World) (a : Action) : Prop := w.Honest client a ∧ a ≠ .destroy

/-- The events that actions hand to the manager. -/
def receivedBy (client : Client) : World → List Action → List Event
  | _, [] => []
  | w, a :: rest => w.received a ++ receivedBy client (w.perform client a) rest

variable {actions : List Action}

theorem run_sound (run : Along (perform client) (InUse client) w actions) (sound : w.Sound client) :
    (actions.foldl (perform client) w).Sound client :=
  run.invariant (fun _ _ step sound => perform_sound sound step.1 step.2) sound

theorem run_grows (run : Along (perform client) (InUse client) w actions) (sound : w.Sound client)
    (k : String) :
    (w.manager.effectiveState.get k).getD 0 ≤
      ((actions.foldl (perform client) w).manager.effectiveState.get k).getD 0 := by
  induction actions generalizing w with
  | nil => exact le_rfl
  | cons a rest ih =>
    obtain ⟨⟨honest, open'⟩, later⟩ := run
    have step := le_pointwiseMax w.manager.effectiveState.get (w.absorbs client a) k
    rw [← perform_state sound honest open'] at step
    exact step.trans (ih later (perform_sound sound honest open'))

theorem run_owed (run : Along (perform client) (InUse client) w actions) (sound : w.Sound client) :
    pointwiseMax (actions.foldl (perform client) w).manager.effectiveState.get
        ((actions.foldl (perform client) w).owed client) =
      pointwiseMax w.manager.effectiveState.get (w.owed client ++ actions.flatMap Action.marks ++
        (receivedBy client w actions).flatMap (contextsOf client)) := by
  induction actions generalizing w with
  | nil => simp [receivedBy]
  | cons a rest ih =>
    obtain ⟨⟨honest, open'⟩, later⟩ := run
    rw [List.foldl_cons, ih later (perform_sound sound honest open'), List.append_assoc,
      pointwiseMax_append, perform_owed sound honest open', ← pointwiseMax_append]
    refine pointwiseMax_congr _ fun mark => ?_
    simp only [supplied, receivedBy, List.flatMap_cons, List.flatMap_append, List.mem_append]
    tauto

end World

/-- A manager at work: what it did up to some moment, and what it does from then on. -/
structure Session (client : Client) where
  start : World
  boot : List Action
  calls : List Action
  fresh : start.Fresh
  inUse : Along (World.perform client) (World.InUse client) start (boot ++ calls)

namespace Session

variable {client : Client} (s : Session client)

def initial : World := s.boot.foldl (World.perform client) s.start

/-- Where the manager is when it has made those calls. -/
def after (calls : List Action) : World := calls.foldl (World.perform client) s.initial

def final : World := s.after s.calls

/-- The timestamps of its own marks. -/
def marks : List (String × Nat) := s.calls.flatMap Action.marks

def received : List Event := s.initial.receivedBy client s.calls

/-- The timestamps that were supplied: by calls under way at the beginning, by marks and by
events. -/
def supplied : List (String × Nat) :=
  s.initial.owed client ++ s.marks ++ s.received.flatMap (contextsOf client)

theorem run : Along (World.perform client) (World.InUse client) s.initial s.calls :=
  (Along.append_iff.mp s.inUse).2

theorem sound_initial : s.initial.Sound client :=
  World.run_sound (Along.append_iff.mp s.inUse).1 s.fresh.sound

theorem final_eq (settled : s.final.Settled) :
    s.final.manager.effectiveState.get =
      pointwiseMax s.initial.manager.effectiveState.get s.supplied := by
  have balance := World.run_owed s.run s.sound_initial
  have owed : (s.calls.foldl (World.perform client) s.initial).owed client = [] := settled.owed
  rw [owed, pointwiseMax_nil] at balance
  exact balance

end Session

/-- Read state is a grow-only map: no timestamp decreases, the final state is the pointwise maximum
of the initial one and of what was supplied, and managers that were supplied with the same agree. -/
theorem converges (client : Client) (s : Session client) :
    (∀ before middle later, s.calls = before ++ middle ++ later → ∀ k,
      ((s.after before).manager.effectiveState.get k).getD 0 ≤
        ((s.after (before ++ middle)).manager.effectiveState.get k).getD 0) ∧
    (s.final.Settled → s.final.manager.effectiveState.get =
      pointwiseMax s.initial.manager.effectiveState.get s.supplied) ∧
    ∀ (clientId : String) (t : Session { client with clientId }),
      s.initial.Settled → t.initial.Settled →
      s.initial.manager.effectiveState.get = t.initial.manager.effectiveState.get →
      (∀ mark, mark ∈ s.marks ↔ mark ∈ t.marks) →
      (∀ event, event ∈ s.received ↔ event ∈ t.received) →
      s.final.Settled → t.final.Settled →
      s.final.manager.effectiveState.get = t.final.manager.effectiveState.get := by
  refine ⟨?_, s.final_eq, ?_⟩
  · intro before middle later split k
    have run := s.run
    rw [split, List.append_assoc] at run
    obtain ⟨first, rest⟩ := Along.append_iff.mp run
    have sound : (s.after before).Sound client := World.run_sound first s.sound_initial
    have grows := World.run_grows (Along.append_iff.mp rest).1 sound k
    rw [Session.after, Session.after, List.foldl_append]
    exact grows
  · intro clientId t still still' initial marks received settled settled'
    rw [s.final_eq settled, t.final_eq settled', initial]
    refine pointwiseMax_congr _ fun mark => ?_
    simp only [Session.supplied, still.owed, still'.owed, List.nil_append, List.mem_append, marks,
      List.mem_flatMap, received]
    rfl

/-! ### A session -/

instance (client : Client) (task : Task) (reply : Reply) : Decidable (Genuine client task reply) := by
  unfold Genuine
  split <;> infer_instance

instance (client : Client) (w : World) (a : Action) : Decidable (w.Honest client a) := by
  unfold World.Honest
  split <;> infer_instance

instance (client : Client) (w : World) (a : Action) : Decidable (w.InUse client a) :=
  have : Decidable (a ≠ .destroy) := match a with
    | .destroy => isFalse fun differ => differ rfl
    | .markContextRead .. | .seedContextRead .. | .mergeEvents .. | .handleIncomingEvent ..
    | .debounce | .resume .. => isTrue nofun
  inferInstanceAs (Decidable (w.Honest client a ∧ a ≠ .destroy))

namespace Sample

def safeInteger (text : String) : Option Int :=
  if text.toList.all Char.isDigit then some (Int.ofNat (Nat.ofDigitChars 10 text.toList 0))
  else none

theorem safeInteger_toString (n : Nat) : safeInteger (toString n) = some (n : Int) := by
  have digits : (toString n).toList = Nat.toDigits 10 n := by simp
  have all : (Nat.toDigits 10 n).all Char.isDigit = true := by
    rw [List.all_eq_true]
    exact fun c member => Nat.isDigit_of_mem_toDigits (by decide) (by decide) member
  rw [safeInteger, digits, if_pos all, Nat.ofDigitChars_ten_toDigits]
  rfl

def decimals : JsNumber where
  safeInteger := safeInteger
  decimal n _ := safeInteger_toString n

def blob (clientId : String) (timestamp : Nat) : ReadStateBlob :=
  { clientId, contexts := JsMap.empty.set "c" timestamp }

def client : Client where
  js := decimals
  decrypt ciphertext :=
    if ciphertext = "A1" then some (jsonStringify (blob "mine" 5).toJson)
    else if ciphertext = "B2" then some (jsonStringify (blob "other" 9).toJson)
    else none
  pubkey := .repeated '1' (Eq.refl true)
  clientId := "mine"

def event (id : EventId) (ciphertext slot : String) (createdAt : Timestamp) : Event where
  id := id
  pubkey := client.pubkey
  createdAt := createdAt
  kind := 30078
  tags := [["d", readStateDTagPrefix ++ slot], ["t", "read-state"]]
  content := ciphertext

def own : Event := event (.repeated 'a' (Eq.refl true)) "A1" "s" 100
def foreign : Event := event (.repeated 'b' (Eq.refl true)) "B2" "t" 101

def start : World where
  manager :=
    { slotId := "s", extraSlotIds := [], effectiveState := JsMap.empty.set "c" 3,
      publishableContextIds := [], contextSourceCreatedAt := JsMap.empty }

/-- A mark is published, its echo is dropped, and the blob of another client is merged. -/
def calls : List Action :=
  [.markContextRead "c" 5 100, .debounce, .resume 0 (.fetched (some [])),
    .resume 0 (.returned fun _ => ""), .resume 0 (.encrypted (some "A1") 100),
    .resume 0 (.signed (some own)), .handleIncomingEvent own, .handleIncomingEvent foreign,
    .resume 0 (.sent true), .resume 0 (.parsed "")]

def session : Session client where
  start := start
  boot := []
  calls := calls
  fresh := ⟨rfl, rfl, rfl, rfl, by decide⟩
  inUse := by decide

end Sample

open Sample in
theorem converges_session :
    session.final.manager.effectiveState.get =
      pointwiseMax session.initial.manager.effectiveState.get session.supplied ∧
    session.final.manager.effectiveState.get "c" = some 9 := by
  have settled : session.final.Settled := by
    have none : session.final.tasks = [] := List.isEmpty_iff.mp (by decide)
    intro task member
    rw [none] at member
    cases member
  exact ⟨(converges client session).2.1 settled, by decide⟩

end ReadState
