import Buzz.ReadState.Convergence

/-!
# Teardown

`destroy` raises the flag `destroyed` and then starts `publish` for a pending change.
`publish` looks at the flag when it is back from the fetch of its own blobs, so the
publish that `destroy` starts ends there: it never gets to the contexts it was
started for. What is handed to the relay after `destroy` was already in the hands of a
call that was under way.
-/
namespace ReadState

open Lib Nostr

namespace Task

/-- The contexts that a call has taken up to hand them to `publishEvent`. -/
def carried : Task → List Record
  | .deleting _ contexts => [contexts]
  | .encrypting _ contexts rest => contexts :: rest.map Prod.snd
  | .signing _ contexts rest _ _ => contexts :: rest.map Prod.snd
  | .sending contexts rest _ _ => contexts :: rest.map Prod.snd
  | _ => []

/-- `publishEvent` has been called with these contexts. -/
def HandsOver (contexts : Record) : Task → Prop
  | .sending handed _ _ _ => handed = contexts
  | _ => False

theorem HandsOver.carried {contexts : Record} {task : Task} (handed : task.HandsOver contexts) :
    contexts ∈ task.carried := by
  cases task with
  | sending => exact List.mem_cons.mpr (Or.inl (Eq.symm handed))
  | _ => cases handed

end Task

namespace World

variable (client : Client)

/-- The place of a call among the tasks after an action; `none` when it has returned. -/
def follow (w : World) (i : Nat) : Action → Option Nat
  | .resume j reply =>
    match w.tasks[j]? with
    | none => some i
    | some task =>
      match (ReadStateManager.resume client w.manager task reply).2 with
      | some _ => some i
      | none => if i = j then none else if j < i then some (i - 1) else some i
  | _ => some i

/-- The call at a place, as it stands after some actions. -/
def callAfter (w : World) (i : Nat) : List Action → Option Task
  | [] => w.tasks[i]?
  | a :: rest => (w.follow client i a).bind fun i => callAfter (w.perform client a) i rest

/-- The publish that `destroy` starts, as it stands after some actions. -/
def flush (w : World) (actions : List Action) : Option Task :=
  (w.perform client .destroy).callAfter client w.tasks.length actions

/-- The publish that `destroy` starts gets to hand over contexts, in some run. -/
def FlushPublishes (w : World) : Prop :=
  ∃ actions task contexts, w.flush client actions = some task ∧ task.HandsOver contexts

end World

/-! ### A destroyed manager -/

namespace ReadStateManager

theorem markContextRead_destroyed (m : ReadStateManager) (contextId : String)
    (unixTimestamp : Nat) (now : Timestamp) (destroyed : m.destroyed = true) :
    (markContextRead m contextId unixTimestamp now).destroyed = true := by
  simp [markContextRead, advanceContext, destroyed]

theorem seedContextRead_destroyed (m : ReadStateManager) (contextId : String)
    (unixTimestamp : Nat) (destroyed : m.destroyed = true) :
    (seedContextRead m contextId unixTimestamp).destroyed = true := by
  simp [seedContextRead, advanceContext, destroyed]

/-- Only the publish of a started merge is left of it. -/
theorem mergeEvents_destroyed {m : ReadStateManager} (destroyed : m.destroyed = true)
    (publishing : Bool) (events : List Event) :
    mergeEvents m publishing events = (m, if publishing then some .building else none) := by
  simp [mergeEvents, returnMerge, destroyed]

theorem carried_nextSlot (rest : List (String × Record)) :
    (nextSlot rest).toList.flatMap Task.carried = rest.map Prod.snd := by
  -- The call goes on with the slots it still has.
  cases rest with
  | nil => rfl
  | cons slot rest => simp [nextSlot, Task.carried]

/-- What a call does after `destroy`: the manager stays destroyed, and the call goes on with
contexts it had taken up before. -/
structure Ends (m : ReadStateManager) (task : Task) (outcome : ReadStateManager × Option Task) :
    Prop where
  destroyed : outcome.1.destroyed = true
  carried : ∀ left ∈ outcome.2, ∀ contexts ∈ left.carried, contexts ∈ task.carried

theorem Ends.returns {m m' : ReadStateManager} (task : Task) (destroyed : m'.destroyed = true) :
    Ends m task (m', none) where
  destroyed := destroyed
  carried left member := by cases member

theorem Ends.next {m m' : ReadStateManager} {task : Task} {rest : List (String × Record)}
    (destroyed : m'.destroyed = true)
    (within : ∀ contexts ∈ rest.map Prod.snd, contexts ∈ task.carried) :
    Ends m task (m', nextSlot rest) where
  destroyed := destroyed
  carried left member contexts inside := by
    -- The next slot carries what was left of the same list.
    apply within
    rw [← carried_nextSlot, List.mem_flatMap]
    exact ⟨left, Option.mem_toList.mpr member, inside⟩

theorem Ends.goes {m m' : ReadStateManager} {task left : Task} (destroyed : m'.destroyed = true)
    (within : ∀ contexts ∈ left.carried, contexts ∈ task.carried) :
    Ends m task (m', some left) where
  destroyed := destroyed
  carried other member := by
    cases member
    exact within

theorem Ends.returnMerge {m : ReadStateManager} (task : Task) (destroyed : m.destroyed = true)
    (publishing : Bool) : Ends m task (returnMerge m publishing) := by
  cases publishing with
  | true => exact .goes destroyed fun contexts inside => by cases inside
  | false => exact .returns task destroyed

theorem Ends.publishSingle {m m' : ReadStateManager} {task : Task} {contexts : Record}
    (destroyed : m'.destroyed = true) (taken : contexts ∈ task.carried) :
    Ends m task (publishSingle m' contexts) := by
  unfold ReadStateManager.publishSingle
  split
  · exact .returns task destroyed
  · refine .next destroyed fun other inside => ?_
    rw [List.map_singleton, List.mem_singleton] at inside
    rwa [inside]

theorem resume_destroyed (client : Client) {m : ReadStateManager} (destroyed : m.destroyed = true)
    (task : Task) (reply : Reply) : Ends m task (resume client m task reply) := by
  -- One case for each point at which a call waits.
  unfold resume
  split
  next publishing batch event rest own slot =>
    rw [if_pos destroyed]
    exact .returnMerge _ destroyed publishing
  next publishing event rest own slot =>
    rw [if_pos destroyed]
    exact .returnMerge _ destroyed publishing
  next event slot =>
    split
    next => exact .returns _ destroyed
    next =>
      rw [if_pos destroyed]
      exact .returns _ destroyed
  next events =>
    rw [mergeEvents_destroyed destroyed]
    exact .returnMerge _ destroyed true
  next => exact .goes destroyed fun contexts inside => by cases inside
  next => -- This is where the publish that `destroy` started ends.
    rw [if_pos destroyed]
    exact .returns _ destroyed
  next => exact .goes destroyed fun contexts inside => inside
  next slots contexts reply _ => exact .publishSingle destroyed (by simp [Task.carried])
  next => exact .goes destroyed fun contexts inside => inside
  next => exact .next destroyed fun contexts inside => List.mem_cons_of_mem _ inside
  next => exact .goes destroyed fun contexts inside => inside
  next => exact .next destroyed fun contexts inside => List.mem_cons_of_mem _ inside
  next => exact .next destroyed fun contexts inside => List.mem_cons_of_mem _ inside
  next => exact .next destroyed fun contexts inside => List.mem_cons_of_mem _ inside
  next => exact .goes destroyed fun contexts inside => inside

end ReadStateManager

namespace World

variable {client : Client}

/-- After `destroy`, every call at work carries contexts that are known by now. -/
structure Closing (known : Record → Prop) (w : World) : Prop where
  destroyed : w.manager.destroyed = true
  known : ∀ task ∈ w.tasks, ∀ contexts ∈ task.carried, known contexts

theorem Closing.start {known : Record → Prop} {w : World} (closing : w.Closing known)
    {m : ReadStateManager} {task : Option Task} (destroyed : m.destroyed = true)
    (idle : ∀ started ∈ task, started.carried = []) : (w.start (m, task)).Closing known where
  destroyed := destroyed
  known other member contexts inside := by
    rcases List.mem_append.mp member with earlier | started
    · exact closing.known other earlier contexts inside
    · rw [idle other (Option.mem_toList.mp started)] at inside
      cases inside

theorem Closing.perform {known : Record → Prop} {w : World} (closing : w.Closing known)
    (a : Action) : (w.perform client a).Closing known := by
  have destroyed := closing.destroyed
  -- No action of a destroyed manager starts a call that carries contexts.
  cases a with
  | markContextRead contextId unixTimestamp now =>
    exact ⟨ReadStateManager.markContextRead_destroyed _ _ _ _ destroyed, closing.known⟩
  | seedContextRead contextId unixTimestamp =>
    exact ⟨ReadStateManager.seedContextRead_destroyed _ _ _ destroyed, closing.known⟩
  | mergeEvents events =>
    simp only [World.perform, ReadStateManager.mergeEvents_destroyed destroyed]
    exact closing.start destroyed fun started member => by cases member
  | handleIncomingEvent event =>
    have ignored : ReadStateManager.handleIncomingEvent client w.manager event =
        (w.manager, none) := by
      simp [ReadStateManager.handleIncomingEvent, destroyed]
    simp only [World.perform, ignored]
    exact closing.start destroyed fun started member => by cases member
  | debounce =>
    simp only [World.perform]
    split
    · refine closing.start destroyed fun started member => ?_
      cases member
      rfl
    · exact closing
  | resume i reply =>
    simp only [World.perform]
    split
    next => exact closing
    -- The resumed call goes on with contexts of its own, the others wait as before.
    next task found =>
      have ends := ReadStateManager.resume_destroyed client destroyed task reply
      refine ⟨ends.destroyed, fun other member contexts inside => ?_⟩
      rw [List.mem_append, List.mem_append] at member
      rcases member with (before | left) | after
      · exact closing.known other (List.mem_of_mem_take before) contexts inside
      · exact closing.known task (List.mem_of_getElem? found) contexts
          (ends.carried other (Option.mem_toList.mp left) contexts inside)
      · exact closing.known other (List.mem_of_mem_drop after) contexts inside
  | destroy =>
    simp only [World.perform]
    split
    · refine closing.start rfl fun started member => ?_
      cases member
      rfl
    · exact ⟨rfl, closing.known⟩

private theorem getElem?_start {w : World} {i : Nat} {task : Task}
    (found : w.tasks[i]? = some task) (outcome : ReadStateManager × Option Task) :
    (w.start outcome).tasks[i]? = some task := by
  obtain ⟨inside, rfl⟩ := List.getElem?_eq_some_iff.mp found
  simp only [start, List.getElem?_append_left inside, found]

private theorem tasks_goes {α : Type} {xs : List α} {i j : Nat} (inside : j < xs.length) (x : α) :
    (xs.take j ++ [x] ++ xs.drop (j + 1))[i]? = if j = i then some x else xs[i]? := by
  -- The task is replaced where it stands.
  have placed : xs.take j ++ [x] ++ xs.drop (j + 1) = xs.set j x := by
    rw [List.set_eq_take_append_cons_drop, if_pos inside, List.append_assoc,
      List.singleton_append]
  rw [placed, List.getElem?_set]
  split
  · rfl
  · rfl

private theorem tasks_returns {α : Type} (xs : List α) (i j : Nat) (other : i ≠ j) :
    (xs.take j ++ xs.drop (j + 1))[if j < i then i - 1 else i]? = xs[i]? := by
  rw [← List.eraseIdx_eq_take_drop_succ, List.getElem?_eraseIdx]
  split
  next before => rw [if_neg (by omega), Nat.sub_add_cancel (by omega)]
  next => rw [if_pos (by omega)]

theorem Closing.follow {known : Record → Prop} {w : World} (closing : w.Closing known) {i i' : Nat}
    {task : Task} (found : w.tasks[i]? = some task) (a : Action)
    (follows : w.follow client i a = some i') :
    ∃ left, (w.perform client a).tasks[i']? = some left ∧
      ∀ contexts ∈ left.carried, contexts ∈ task.carried := by
  -- The other actions leave the call alone, at its place or one place earlier.
  have kept {tasks : List Task} (same : tasks[i']? = some task) :
      ∃ left, tasks[i']? = some left ∧ ∀ contexts ∈ left.carried, contexts ∈ task.carried :=
    ⟨task, same, fun contexts inside => inside⟩
  cases a with
  | resume j reply =>
    unfold World.follow at follows
    simp only [World.perform]
    cases resumed : w.tasks[j]? with
    | none =>
      simp only [resumed, Option.some.injEq] at follows
      subst follows
      exact kept found
    | some resumedTask =>
      obtain ⟨inside, -⟩ := List.getElem?_eq_some_iff.mp resumed
      have ends := ReadStateManager.resume_destroyed client closing.destroyed resumedTask reply
      simp only [resumed] at follows
      dsimp only
      -- The resumed call goes on in its place, or returns and the later ones move up.
      cases left : (ReadStateManager.resume client w.manager resumedTask reply).2 with
      | some next =>
        simp only [left, Option.some.injEq] at follows
        subst follows
        rw [Option.toList_some, tasks_goes inside]
        split
        next same =>
          rw [← same, resumed, Option.some.injEq] at found
          subst found
          exact ⟨next, rfl, ends.carried next left⟩
        next => exact kept found
      | none =>
        simp only [left] at follows
        rw [Option.toList_none, List.append_nil]
        by_cases other : i = j
        · rw [if_pos other] at follows
          cases follows
        · rw [if_neg other, ← apply_ite some, Option.some.injEq] at follows
          subst follows
          exact kept ((tasks_returns w.tasks i j other).trans found)
  | markContextRead contextId unixTimestamp now =>
    cases follows
    exact kept found
  | seedContextRead contextId unixTimestamp =>
    cases follows
    exact kept found
  | mergeEvents events =>
    cases follows
    exact kept (getElem?_start found _)
  | handleIncomingEvent event =>
    cases follows
    exact kept (getElem?_start found _)
  | debounce =>
    cases follows
    simp only [World.perform]
    split
    · exact kept (getElem?_start found _)
    · exact kept found
  | destroy =>
    cases follows
    simp only [World.perform]
    split
    · exact kept (getElem?_start found _)
    · exact kept found

theorem Closing.callAfter {known : Record → Prop} {w : World} (closing : w.Closing known) {i : Nat}
    {task left : Task} (found : w.tasks[i]? = some task) {actions : List Action}
    (after : w.callAfter client i actions = some left) :
    ∀ contexts ∈ left.carried, contexts ∈ task.carried := by
  -- Along the actions: each leaves the call with a part of what it carried.
  induction actions generalizing w i task with
  | nil =>
    rw [World.callAfter, found, Option.some.injEq] at after
    subst after
    exact fun contexts inside => inside
  | cons a rest ih =>
    rw [World.callAfter, Option.bind_eq_some_iff] at after
    obtain ⟨i', follows, after⟩ := after
    obtain ⟨next, found', within⟩ := closing.follow found a follows
    intro contexts inside
    exact within contexts (ih (closing.perform a) found' after contexts inside)

theorem Closing.run {known : Record → Prop} {w : World} (closing : w.Closing known)
    (actions : List Action) : (actions.foldl (World.perform client) w).Closing known := by
  -- Along the actions.
  induction actions generalizing w with
  | nil => exact closing
  | cons a rest ih => exact ih (closing.perform a)

end World

open World in
/-- No run lets the publish that `destroy` starts hand over any contexts. What calls hand
over after `destroy`, they had taken up before it. -/
theorem destroy_never_publishes (client : Client) (w : World)
    (pending : w.manager.debounceTimer = true) :
    ¬ w.FlushPublishes client ∧
      ∀ actions : List Action, ∀ task ∈ (actions.foldl (perform client) (w.perform client .destroy)).tasks,
        ∀ contexts, task.HandsOver contexts → ∃ earlier ∈ w.tasks, contexts ∈ earlier.carried := by
  have destroyed : w.perform client .destroy =
      w.start ({ w.manager with destroyed := true, debounceTimer := false }, some .fetching) := by
    simp only [World.perform, pending, if_true]
  -- At the moment of `destroy` the known contexts are those of the calls at work.
  have closing : (w.perform client .destroy).Closing fun contexts =>
      ∃ earlier ∈ w.tasks, contexts ∈ earlier.carried := by
    rw [destroyed]
    refine ⟨rfl, fun task member contexts inside => ?_⟩
    rcases List.mem_append.mp member with earlier | flush
    · exact ⟨task, earlier, inside⟩
    · rw [Option.toList_some, List.mem_singleton] at flush
      subst flush
      cases inside
  constructor
  · rintro ⟨actions, task, contexts, after, handed⟩
    -- The flush begins behind these calls, with nothing taken up.
    have flush : (w.perform client .destroy).tasks[w.tasks.length]? = some .fetching := by
      simp [destroyed, start]
    have taken := closing.callAfter flush after contexts handed.carried
    cases taken
  · intro actions task member contexts handed
    exact (closing.run actions).known task member contexts handed.carried

namespace Sample

/-- A mark that waits for the debounce. -/
def marked : World := start.perform client (.markContextRead "c" 5 100)

/-- The fetch of the own blobs succeeds, and so would the encryption and the signature. -/
def flushed : List Action :=
  [.resume 0 (.fetched (some [])), .resume 0 (.returned fun _ => ""),
    .resume 0 (.encrypted (some "A1") 100), .resume 0 (.signed (some own))]

end Sample

open Sample in
theorem destroy_never_publishes_marked :
    ¬ marked.FlushPublishes client ∧ marked.tasks.length = 0 :=
  ⟨(destroy_never_publishes client marked (by decide)).1, by decide⟩

open Sample in
/-- The debounce would have published the mark. -/
theorem destroy_loses_mark :
    marked.manager.debounceTimer = true ∧
      (∃ contexts, ReadStateManager.currentContexts client marked.manager = some contexts ∧
        ReadStateManager.isIdenticalToLastPublished marked.manager contexts = false) ∧
      (flushed.foldl (World.perform client) (marked.perform client .debounce)).published = [own] ∧
      (flushed.foldl (World.perform client) (marked.perform client .destroy)).published = [] ∧
      (flushed.foldl (World.perform client) (marked.perform client .destroy)).tasks.length = 0 := by
  have current : (ReadStateManager.currentContexts client marked.manager).any (fun contexts =>
      !ReadStateManager.isIdenticalToLastPublished marked.manager contexts) = true := by
    decide
  refine ⟨by decide, ?_, by decide, by decide, by decide⟩
  rw [Option.any_eq_true] at current
  obtain ⟨contexts, found, other⟩ := current
  exact ⟨contexts, found, by simpa using other⟩

end ReadState
