import Buzz.Relay.Cluster

/-!
# History and live delivery together

A subscription is registered before its history is read, so an event that the history misses is
fanned out to it, if the fan-out happens on its pod at all. For an event of another pod that takes
the Redis subscription of the topic. `retain_topic` only hands a command to the subscriber task:
the history can be read before Redis delivers the topic, and an event that is stored and
published in between reaches nobody (`gap_before_subscribe`).
-/
namespace Relay

open Lib Nostr Db PubSub

variable {ι κ η : Type} [DecidableEq ι] [DecidableEq κ] [DecidableEq η]

abbrev Load.Run (load : Load ι κ η) := Trace load.perform

/-! ### What is asked -/

namespace Load

variable (load : Load ι κ η)

/-- The event matches a filter of the request, and the reader may have it: the query of the
filter selects it, history and live delivery let it pass, and the scope of the subscription
covers its channel. -/
structure Wanted (k : κ) (e : η) (filter : Nat) : Prop where
  selected : ∃ f, (load.request k).filters[filter]? = some f ∧
    (((load.request k).env {}).historicalQuery (load.request k).filters f).queryWhere
      (load.event e).row = true ∧
    ((load.request k).env {}).accepts f (load.event e).row = true
  community : (load.event e).row.communityId = (load.request k).community
  scope : (load.request k).scope.matchesChannel (load.event e).row.channelId = true
  admitted : load.access.admits (load.request k).community (load.event e).row.stored
    (load.request k).conn = true
  owned : load.access.owns (load.event e).row.event (load.request k).conn = true

variable {load} (run : load.Run)

/-- The page of the filter is not cut off before the event. -/
def NotCutOff (k : κ) (e : η) (filter : Nat) : Prop :=
  ∀ n failure f page, run.action n = .read k filter failure →
    (load.request k).filters[filter]? = some f →
    (load.event e).row ∈ (run.state n).table.rows →
    queryEventsOn (run.state n).table.rows
      (((load.request k).env (run.state n).table).historicalQuery (load.request k).filters f) =
      .ok page → (load.event e).row ∈ page

/-- From its registration on the subscription stays as it is. -/
def StaysOpen (k : κ) : Prop :=
  ∀ n, (run.state n).requests k ≠ .arrived →
    ((run.state n).registry (load.request k).pod).live
      ((load.request k).conn, (load.request k).sub) = some (load.request k).entry

/-- The request has its EOSE, the event has been fanned out, and no message about it waits. -/
structure Finished (k : κ) (e : η) (n : Nat) : Prop where
  served : ∃ sent, (run.state n).requests k = .served sent
  done : (run.state n).events e = .done
  consumed : ((load.event e).row.communityId, (load.event e).row.stored) ∉
    (run.state n).inbox (load.request k).pod

/-- The client has been sent the event, as history or live. -/
def Delivered (k : κ) (e : η) (n : Nat) : Prop :=
  (∃ sent, (run.state n).requests k = .served sent ∧
    ∃ r ∈ sent, r.event.id = (load.event e).row.event.id) ∨
  ⟨((load.request k).conn, (load.request k).sub), (load.event e).row.communityId,
      (load.event e).row.stored⟩ ∈ (run.state n).frames (load.request k).pod

/-- The event is accepted on the pod of the request, or it is stored when the query of the filter
reads, or Redis delivers its topic to that pod when it is published. -/
def Caught (k : κ) (e : η) (filter : Nat) : Prop :=
  (load.event e).pod = (load.request k).pod ∨
  (∃ n failure, run.action n = .read k filter failure ∧
    (load.event e).row ∈ (run.state n).table.rows) ∨
  (∃ n, run.action n = .publish e ∧ ((run.state n).pubsub (load.request k).pod).receives
    (eventTopic (load.event e).row.communityId (load.event e).row.channelId) = true)

end Load

/-! ### What an action does -/

def Accepted.key (a : Accepted ι) : CommunityId × EventId := (a.row.communityId, a.row.event.id)

theorem Table.insert_eq_some {t t' : Table} {r : Row} (inserted : t.insert r = some t') :
    (r.communityId, r.event.id) ∉ t.rows.map (fun r => (r.communityId, r.event.id)) ∧
      t'.rows = t.rows ++ [r] := by
  unfold insert at inserted
  split at inserted
  next fresh =>
    cases inserted
    exact ⟨fresh, rfl⟩
  next => cases inserted

/-- A request whose history has not begun. -/
def Progress.Early : Progress → Prop
  | .arrived | .retaining _ | .announcing _ _ => True
  | .reading _ | .served _ | .failed _ => False

/-- A registered request that has read nothing yet. -/
def Progress.Opening : Progress → Prop
  | .retaining _ | .announcing _ _ => True
  | .reading r => r = {}
  | .arrived | .served _ | .failed _ => False

namespace Load

variable (load : Load ι κ η)

/-- The actions with what they ask for. -/
inductive Moves (c : Cluster ι κ η) : ClusterAction ι κ η → Cluster ι κ η → Prop
  | register {k} (arrived : c.requests k = .arrived) :
    Moves c (.register k) { c with
      registry := Function.update c.registry (load.request k).pod
        ((c.registry (load.request k).pod).call (load.request k).registration)
      requests := Function.update c.requests k (retained (load.request k).topics) }
  | retain {k pod topics progress} (open_ : c.requests k = .retaining topics)
      (opening : progress.Opening) :
    Moves c (.retain k) { c with
      pubsub := pod, requests := Function.update c.requests k progress }
  | announce {k pod topic rest} (open_ : c.requests k = .announcing topic rest) :
    Moves c (.announce k) { c with
      pubsub := pod, requests := Function.update c.requests k (retained rest) }
  | read {k filter failure r progress} (open_ : c.requests k = .reading r)
      (read : read (load.request k) c.table r filter failure = some progress) :
    Moves c (.read k filter failure) { c with requests := Function.update c.requests k progress }
  | pass {k r progress} (open_ : c.requests k = .reading r)
      (passed : pass (load.request k) c.table r = some progress) :
    Moves c (.pass k) { c with requests := Function.update c.requests k progress }
  | store {e table} (accepted : c.events e = .accepted)
      (inserted : c.table.insert (load.event e).row = some table) :
    Moves c (.store e) { c with table, events := Function.update c.events e .stored }
  | publish {e} (stored : c.events e = .stored) :
    Moves c (.publish e) { c with
      marked := Function.update c.marked (load.event e).pod (c.marked (load.event e).pod ++
        [((load.event e).row.communityId, (load.event e).row.event.id)])
      inbox := fun p =>
        if (c.pubsub p).receives
          (eventTopic (load.event e).row.communityId (load.event e).row.channelId) then
          c.inbox p ++ [((load.event e).row.communityId, (load.event e).row.stored)]
        else c.inbox p
      events := Function.update c.events e .published }
  | fanOut {e} (published : c.events e = .published) :
    Moves c (.fanOut e) { c with
      frames := Function.update c.frames (load.event e).pod (c.frames (load.event e).pod ++
        (load.frames (c.registry (load.event e).pod) (load.event e).row.communityId
          (load.event e).row.stored).filter fun frame =>
          load.access.owns (load.event e).row.event frame.recipient.1)
      events := Function.update c.events e .done }
  | echo {pod community stored rest} (first : c.inbox pod = (community, stored) :: rest)
      (own : (community, stored.event.id) ∈ c.marked pod) :
    Moves c (.consume pod) { c with
      inbox := Function.update c.inbox pod rest
      marked := Function.update c.marked pod
        ((c.marked pod).filter (· ≠ (community, stored.event.id))) }
  | consume {pod community stored rest} (first : c.inbox pod = (community, stored) :: rest)
      (foreign : (community, stored.event.id) ∉ c.marked pod) :
    Moves c (.consume pod) { c with
      inbox := Function.update c.inbox pod rest
      frames := Function.update c.frames pod
        (c.frames pod ++ load.frames (c.registry pod) community stored) }
  | pubsub {pod action pubsub} : Moves c (.pubsub pod action) { c with pubsub }
  | call {pod call} : Moves c (.call pod call) { c with
      registry := Function.update c.registry pod ((c.registry pod).call call) }
  | idle : Moves c .idle c

variable {load} {c c' : Cluster ι κ η} {a : ClusterAction ι κ η}

theorem opening_retained (rest : List EventTopicKey) : (retained rest).Opening := by
  cases rest <;> simp [retained, Progress.Opening]

theorem moves_of_perform (performed : load.perform c a = some c') : load.Moves c a c' := by
  cases a with
  | register k =>
    simp only [perform] at performed
    split at performed
    next arrived =>
      cases performed
      exact .register arrived
    next => cases performed
  | retain k =>
    simp only [perform] at performed
    split at performed
    next topic rest open_ =>
      cases performed
      apply Moves.retain open_
      split
      · trivial
      · exact opening_retained rest
    next => cases performed
  | announce k =>
    simp only [perform] at performed
    split at performed
    next topic rest open_ =>
      obtain ⟨sent, -, rfl⟩ := Option.map_eq_some_iff.mp performed
      exact .announce open_
    next => cases performed
  | read k filter failure =>
    simp only [perform] at performed
    split at performed
    next r open_ =>
      obtain ⟨progress, read, rfl⟩ := Option.map_eq_some_iff.mp performed
      exact .read open_ read
    next => cases performed
  | pass k =>
    simp only [perform] at performed
    split at performed
    next r open_ =>
      obtain ⟨progress, passed, rfl⟩ := Option.map_eq_some_iff.mp performed
      exact .pass open_ passed
    next => cases performed
  | store e =>
    simp only [perform] at performed
    split at performed
    next accepted =>
      obtain ⟨table, inserted, rfl⟩ := Option.map_eq_some_iff.mp performed
      exact .store accepted inserted
    next => cases performed
  | publish e =>
    simp only [perform] at performed
    split at performed
    next stored =>
      cases performed
      exact .publish stored
    next => cases performed
  | fanOut e =>
    simp only [perform] at performed
    split at performed
    next published =>
      cases performed
      exact .fanOut published
    next => cases performed
  | consume pod =>
    simp only [perform] at performed
    split at performed
    next => cases performed
    next community stored rest first =>
      split at performed
      next own =>
        cases performed
        exact .echo first own
      next foreign =>
        cases performed
        exact .consume first foreign
  | pubsub pod action =>
    obtain ⟨next, -, rfl⟩ := Option.map_eq_some_iff.mp performed
    exact .pubsub
  | call pod call =>
    cases performed
    exact .call
  | idle =>
    cases performed
    exact .idle

theorem Moves.rows (moves : load.Moves c a c') : c'.table.rows = c.table.rows ∨
    ∃ e, a = .store e ∧ c'.table.rows = c.table.rows ++ [(load.event e).row] := by
  cases moves with
  | store accepted inserted => exact Or.inr ⟨_, rfl, (Table.insert_eq_some inserted).2⟩
  | _ => exact Or.inl rfl

theorem Moves.rows_subset (moves : load.Moves c a c') : c.table.rows ⊆ c'.table.rows := by
  rcases moves.rows with same | ⟨e, -, grown⟩
  · rw [same]
    exact List.Subset.refl _
  · rw [grown]
    exact List.subset_append_left _ _

theorem Moves.stores {e : η} (moves : load.Moves c (.store e) c') :
    (load.event e).key ∉ c.table.rows.map (fun r => (r.communityId, r.event.id)) ∧
      (load.event e).row ∈ c'.table.rows := by
  cases moves with
  | store accepted inserted =>
    obtain ⟨fresh, rows⟩ := Table.insert_eq_some inserted
    exact ⟨fresh, by simp [rows]⟩

theorem Moves.frames (moves : load.Moves c a c') (pod : ι) : c.frames pod <+: c'.frames pod := by
  cases moves with
  | @fanOut e published =>
    by_cases here : pod = (load.event e).pod
    · subst here
      simp
    · simp [Function.update_of_ne here]
  | @consume here community stored rest first foreign =>
    by_cases same : pod = here
    · subst same
      simp
    · simp [Function.update_of_ne same]
  | _ => exact List.prefix_rfl

theorem Moves.stage (moves : load.Moves c a c') (e : η) : c'.events e = c.events e ∨
    (a = .store e ∧ c.events e = .accepted ∧ c'.events e = .stored) ∨
    (a = .publish e ∧ c.events e = .stored ∧ c'.events e = .published) ∨
    (a = .fanOut e ∧ c.events e = .published ∧ c'.events e = .done) := by
  cases moves with
  | @store e' _ before | @publish e' before | @fanOut e' before =>
    by_cases same : e = e'
    · subst same
      simp [before]
    · simp [Function.update_of_ne same]
  | _ => exact Or.inl rfl

theorem Moves.fansOut {e : η} (moves : load.Moves c (.fanOut e) c') :
    c'.frames (load.event e).pod = c.frames (load.event e).pod ++
      (load.frames (c.registry (load.event e).pod) (load.event e).row.communityId
        (load.event e).row.stored).filter fun frame =>
        load.access.owns (load.event e).row.event frame.recipient.1 := by
  cases moves with
  | fanOut published => simp

theorem Moves.publishes {e : η} (moves : load.Moves c (.publish e) c') :
    c.events e = .stored ∧ ∀ pod,
      (c.pubsub pod).receives
        (eventTopic (load.event e).row.communityId (load.event e).row.channelId) = true →
      ((load.event e).row.communityId, (load.event e).row.stored) ∈ c'.inbox pod := by
  cases moves with
  | publish stored => exact ⟨stored, fun pod receives => by simp [receives]⟩

theorem Moves.leaves_inbox (moves : load.Moves c a c') {pod : ι} {m : CommunityId × StoredEvent}
    (waiting : m ∈ c.inbox pod) (gone : m ∉ c'.inbox pod) :
    (m.1, m.2.event.id) ∈ c.marked pod ∨
      c'.frames pod = c.frames pod ++ load.frames (c.registry pod) m.1 m.2 := by
  cases moves with
  | publish stored =>
    simp only at gone
    split at gone
    · exact absurd (List.mem_append_left _ waiting) gone
    · exact absurd waiting gone
  | @echo here community stored rest first own =>
    by_cases same : pod = here
    · subst same
      rw [first, List.mem_cons] at waiting
      rcases waiting with rfl | later
      · exact Or.inl own
      · exact absurd later (by simpa using gone)
    · exact absurd waiting (by simpa [Function.update_of_ne same] using gone)
  | @consume here community stored rest first foreign =>
    by_cases same : pod = here
    · subst same
      rw [first, List.mem_cons] at waiting
      rcases waiting with rfl | later
      · exact Or.inr (by simp)
      · exact absurd later (by simpa using gone)
    · exact absurd waiting (by simpa [Function.update_of_ne same] using gone)
  | _ => exact absurd waiting gone

/-! ### Every state of a run -/

variable (load) in
structure Sound (c : Cluster ι κ η) : Prop where
  indexed : ∀ pod, (c.registry pod).Indexed
  stored : ∀ e, c.events e ≠ .accepted → (load.event e).row ∈ c.table.rows
  /-- A stored event has its key for itself. -/
  distinct : ∀ e e', c.events e ≠ .accepted → c.events e' ≠ .accepted →
    (load.event e).key = (load.event e').key → e = e'
  marked : ∀ pod, ∀ key ∈ c.marked pod, ∃ e, (load.event e).pod = pod ∧
    (load.event e).key = key ∧ c.events e ≠ .accepted
  /-- The pages that were passed on were read. -/
  pages : ∀ k r, c.requests k = .reading r → ∀ j < r.next, r.pages j ≠ none

omit [DecidableEq ι] [DecidableEq κ] [DecidableEq η] in
theorem sound_initial : load.Sound .initial where
  indexed _ := SubscriptionRegistry.indexed_new
  stored _ later := absurd rfl later
  distinct _ _ later := absurd rfl later
  marked _ _ member := by cases member
  pages _ _ reading := by cases reading

theorem Moves.accepted_before (moves : load.Moves c a c') {e : η} (still : c'.events e = .accepted) :
    c.events e = .accepted := by
  rcases moves.stage e with same | ⟨-, before, -⟩ | ⟨-, -, after⟩ | ⟨-, -, after⟩
  · exact same.symm.trans still
  · exact before
  · rw [still] at after
    cases after
  · rw [still] at after
    cases after

private theorem indexed_update {registry : ι → SubscriptionRegistry}
    (indexed : ∀ pod, (registry pod).Indexed) (here : ι) (call : SubscriptionRegistry.Call)
    (pod : ι) : (Function.update registry here ((registry here).call call) pod).Indexed := by
  by_cases same : pod = here
  · subst same
    rw [Function.update_self]
    exact SubscriptionRegistry.indexed_call (indexed pod) call
  · rw [Function.update_of_ne same]
    exact indexed pod

theorem Sound.indexed_step (sound : load.Sound c) (moves : load.Moves c a c') (pod : ι) :
    (c'.registry pod).Indexed := by
  cases moves with
  | register | call => exact indexed_update sound.indexed _ _ pod
  | _ => exact sound.indexed pod

theorem Moves.stored_cases (moves : load.Moves c a c') {e : η} (later : c'.events e ≠ .accepted) :
    c.events e ≠ .accepted ∨ a = .store e := by
  rcases moves.stage e with same | ⟨store, -⟩ | ⟨-, before, -⟩ | ⟨-, before, -⟩
  · rw [same] at later
    exact Or.inl later
  · exact Or.inr store
  · simp [before]
  · simp [before]

theorem Sound.stored_step (sound : load.Sound c) (moves : load.Moves c a c') (e : η)
    (later : c'.events e ≠ .accepted) : (load.event e).row ∈ c'.table.rows := by
  rcases moves.stored_cases later with before | rfl
  · exact moves.rows_subset (sound.stored e before)
  · exact moves.stores.2

theorem Sound.distinct_step (sound : load.Sound c) (moves : load.Moves c a c') (e e' : η)
    (later : c'.events e ≠ .accepted) (later' : c'.events e' ≠ .accepted)
    (same : (load.event e).key = (load.event e').key) : e = e' := by
  have taken : ∀ {e : η}, c.events e ≠ .accepted →
      (load.event e).key ∈ c.table.rows.map (fun r => (r.communityId, r.event.id)) :=
    fun before => List.mem_map.mpr ⟨_, sound.stored _ before, rfl⟩
  rcases moves.stored_cases later with before | rfl
  · rcases moves.stored_cases later' with before' | rfl
    · exact sound.distinct e e' before before' same
    · exact absurd (taken before) (same ▸ moves.stores.1)
  · rcases moves.stored_cases later' with before' | again
    · exact absurd (taken before') (same ▸ moves.stores.1)
    · exact ClusterAction.store.inj again

theorem Moves.marked_cases (moves : load.Moves c a c') {pod : ι} {key : CommunityId × EventId}
    (member : key ∈ c'.marked pod) : key ∈ c.marked pod ∨
      ∃ e, a = .publish e ∧ (load.event e).pod = pod ∧ (load.event e).key = key := by
  cases moves with
  | @publish e stored =>
    by_cases here : pod = (load.event e).pod
    · subst here
      simp only [Function.update_self, List.mem_append, List.mem_singleton] at member
      rcases member with old | rfl
      · exact Or.inl old
      · exact Or.inr ⟨e, rfl, rfl, rfl⟩
    · simp only [Function.update_of_ne here] at member
      exact Or.inl member
  | @echo here community stored rest first own =>
    by_cases same : pod = here
    · subst same
      simp only [Function.update_self] at member
      exact Or.inl (List.mem_of_mem_filter member)
    · simp only [Function.update_of_ne same] at member
      exact Or.inl member
  | _ => exact Or.inl member

theorem Sound.marked_step (sound : load.Sound c) (moves : load.Moves c a c') (pod : ι)
    (key : CommunityId × EventId) (member : key ∈ c'.marked pod) :
    ∃ e, (load.event e).pod = pod ∧ (load.event e).key = key ∧ c'.events e ≠ .accepted := by
  rcases moves.marked_cases member with old | ⟨e, rfl, here, named⟩
  · obtain ⟨e, here, named, stored⟩ := sound.marked pod key old
    exact ⟨e, here, named, fun still => stored (moves.accepted_before still)⟩
  · cases moves with
    | publish stored => exact ⟨e, here, named, by simp⟩

/-! ### The pages of a request -/

omit [DecidableEq ι] in
theorem read_eq_some {req : Request ι} {t : Table} {r : Reading} {filter : Nat}
    {failure : Option DbError} {progress : Progress}
    (read : read req t r filter failure = some progress) :
    ∃ f page, req.filters[filter]? = some f ∧ r.pages filter = none ∧
      (∀ events, page = .ok events →
        queryEventsOn t.rows ((req.env t).historicalQuery req.filters f) = .ok events) ∧
      progress = .reading { r with pages := Function.update r.pages filter (some page) } := by
  unfold Load.read at read
  split at read
  next f found unread =>
    cases read
    refine ⟨f, _, found, unread, ?_, rfl⟩
    intro events ok
    cases failure with
    | none => exact ok
    | some error => cases ok
  next => cases read

omit [DecidableEq ι] in
theorem pass_eq_some {req : Request ι} {t : Table} {r : Reading} {progress : Progress}
    (passed : pass req t r = some progress) :
    (req.filters.length ≤ r.next ∧ progress = .served r.sent) ∨ progress = .failed r.sent ∨
      ∃ f events, req.filters[r.next]? = some f ∧ r.pages r.next = some (.ok events) ∧
        progress = .reading { r with
          next := r.next + 1, sent := events.foldl ((req.env t).deliverRow f) r.sent } := by
  unfold pass at passed
  split at passed
  next past =>
    cases passed
    exact Or.inl ⟨List.getElem?_eq_none_iff.mp past, rfl⟩
  next f found =>
    split at passed
    next => cases passed
    next =>
      cases passed
      exact Or.inr (Or.inl rfl)
    next events page =>
      cases passed
      exact Or.inr (Or.inr ⟨f, events, found, page, rfl⟩)

theorem Moves.reads {k : κ} {filter : Nat} {failure : Option DbError}
    (moves : load.Moves c (.read k filter failure) c') :
    ∃ r, c.requests k = .reading r ∧
      Load.read (load.request k) c.table r filter failure = some (c'.requests k) := by
  cases moves with
  | read open_ read => exact ⟨_, open_, by simpa using read⟩

theorem Moves.request (moves : load.Moves c a c') (k : κ) :
    c'.requests k = c.requests k ∨
    ((c.requests k).Early ∧ (c'.requests k).Opening) ∨
    (∃ r filter failure, a = .read k filter failure ∧ c.requests k = .reading r ∧
      Load.read (load.request k) c.table r filter failure = some (c'.requests k)) ∨
    (∃ r, c.requests k = .reading r ∧
      Load.pass (load.request k) c.table r = some (c'.requests k)) := by
  cases moves with
  | @register k' open_ =>
    by_cases same : k = k'
    · subst same
      simp [open_, Progress.Early, opening_retained]
    · simp [Function.update_of_ne same]
  | @announce k' _ _ rest open_ =>
    by_cases same : k = k'
    · subst same
      simp [open_, Progress.Early, opening_retained]
    · simp [Function.update_of_ne same]
  | @retain k' _ _ _ open_ opening =>
    by_cases same : k = k'
    · subst same
      simp [open_, Progress.Early, opening]
    · simp [Function.update_of_ne same]
  | @read k' filter failure r progress open_ read =>
    by_cases same : k = k'
    · subst same
      simp [open_, read]
    · simp [Function.update_of_ne same]
  | @pass k' r progress open_ passed =>
    by_cases same : k = k'
    · subst same
      simp [open_, passed]
    · simp [Function.update_of_ne same]
  | _ => exact Or.inl rfl

theorem Sound.pages_step (sound : load.Sound c) (moves : load.Moves c a c') (k : κ) (r : Reading)
    (reading : c'.requests k = .reading r) (j : Nat) (passed : j < r.next) : r.pages j ≠ none := by
  rcases moves.request k with same | ⟨-, opening⟩ | ⟨r₀, filter, failure, -, before, read⟩ |
    ⟨r₀, before, pass⟩
  · exact sound.pages k r (same.symm.trans reading) j passed
  · rw [reading] at opening
    cases opening
    cases passed
  · obtain ⟨f, page, -, -, -, next⟩ := read_eq_some read
    cases reading.symm.trans next
    by_cases now : j = filter
    · simp [now]
    · simpa [Function.update_of_ne now] using sound.pages k r₀ before j passed
  · rcases pass_eq_some pass with ⟨-, next⟩ | next | ⟨f, events, -, page, next⟩
    · cases reading.symm.trans next
    · cases reading.symm.trans next
    · cases reading.symm.trans next
      rcases Nat.lt_succ_iff_lt_or_eq.mp passed with earlier | rfl
      · exact sound.pages k r₀ before j earlier
      · simp [page]

theorem Sound.step (sound : load.Sound c) (moves : load.Moves c a c') : load.Sound c' where
  indexed := sound.indexed_step moves
  stored := sound.stored_step moves
  distinct := sound.distinct_step moves
  marked := sound.marked_step moves
  pages := sound.pages_step moves

/-! ### The history -/

/-- The event is on the page of the filter that has been read, or among what was sent. -/
def Held (row : Row) (filter : Nat) : Progress → Prop
  | .reading r =>
    (r.next ≤ filter ∧ ∃ page, r.pages filter = some page ∧ ∀ events, page = .ok events → row ∈ events) ∨
      row.event.id ∈ r.sent.map (·.event.id)
  | .served sent => row.event.id ∈ sent.map (·.event.id)
  | .failed _ => True
  | .arrived | .retaining _ | .announcing _ _ => False

theorem sent_deliverRow (env : HistoryEnv) (f : ReqFilter) {sent : List Row} (r : Row) {id : EventId}
    (old : id ∈ sent.map (·.event.id)) : id ∈ (env.deliverRow f sent r).map (·.event.id) := by
  unfold HistoryEnv.deliverRow
  split
  · simp only [List.map_append, List.mem_append]
    exact Or.inl old
  · exact old

theorem sent_foldl (env : HistoryEnv) (f : ReqFilter) (events : List Row) {sent : List Row}
    {id : EventId} (old : id ∈ sent.map (·.event.id)) :
    id ∈ (events.foldl (env.deliverRow f) sent).map (·.event.id) := by
  induction events generalizing sent with
  | nil => exact old
  | cons r events ih => exact ih (sent_deliverRow env f r old)

theorem sent_of_mem (env : HistoryEnv) (f : ReqFilter) {events sent : List Row} {row : Row}
    (member : row ∈ events) (accepts : env.accepts f row = true) :
    row.event.id ∈ (events.foldl (env.deliverRow f) sent).map (·.event.id) := by
  induction events generalizing sent with
  | nil => cases member
  | cons r events ih =>
    rcases List.mem_cons.mp member with rfl | later
    · rw [List.foldl_cons]
      apply sent_foldl
      unfold HistoryEnv.deliverRow
      split
      next => simp
      next seen => simpa [accepts] using seen
    · exact ih later

section

variable {k : κ} {e : η} {filter : Nat}

/-- What holds the event keeps it: the page is passed on before EOSE, and the row is accepted. -/
theorem Wanted.held_step (wanted : load.Wanted k e filter) (moves : load.Moves c a c')
    (held : Held (load.event e).row filter (c.requests k)) :
    Held (load.event e).row filter (c'.requests k) := by
  obtain ⟨f, found, -, accepts⟩ := wanted.selected
  rcases moves.request k with same | ⟨early, -⟩ | ⟨r, i, failure, -, before, read⟩ |
    ⟨r, before, pass⟩
  · rw [same]
    exact held
  · cases progress : c.requests k with
    | arrived | retaining | announcing =>
      rw [progress] at held
      exact held.elim
    | reading | served | failed =>
      rw [progress] at early
      exact early.elim
  · obtain ⟨_, page, -, unread, -, next⟩ := read_eq_some read
    rw [before] at held
    rw [next]
    rcases held with ⟨early, page', here, good⟩ | sent
    · -- another page: that of the filter has been read
      have other : filter ≠ i := by
        rintro rfl
        rw [unread] at here
        cases here
      exact Or.inl ⟨early, page', by simpa [Function.update_of_ne other] using here, good⟩
    · exact Or.inr sent
  · rw [before] at held
    have inside := (List.getElem?_eq_some_iff.mp found).1
    rcases pass_eq_some pass with ⟨past, next⟩ | next | ⟨g, events, here, page, next⟩
    · rw [next]
      rcases held with ⟨early, -⟩ | sent
      · omega
      · exact sent
    · rw [next]
      trivial
    · rw [next]
      rcases held with ⟨early, page', read, good⟩ | sent
      · by_cases turn : r.next = filter
        · rw [turn] at here page
          cases found.symm.trans here
          cases read.symm.trans page
          exact Or.inr (sent_of_mem _ _ (good events rfl) accepts)
        · exact Or.inl ⟨by simp only; omega, page', read, good⟩
      · exact Or.inr (sent_foldl _ _ _ sent)

/-- The query of the filter has read, or EOSE has been sent. -/
def Begun (filter : Nat) : Progress → Prop
  | .reading r => r.pages filter ≠ none
  | .served _ => True
  | .arrived | .retaining _ | .announcing _ _ | .failed _ => False

theorem read_of_begun (sound : load.Sound c) (moves : load.Moves c a c')
    {f : ReqFilter} (found : (load.request k).filters[filter]? = some f)
    (before : ¬ Begun filter (c.requests k)) (after : Begun filter (c'.requests k)) :
    ∃ failure, a = .read k filter failure := by
  rcases moves.request k with same | ⟨-, opening⟩ | ⟨r, i, failure, rfl, reading, read⟩ |
    ⟨r, reading, pass⟩
  · rw [same] at after
    exact absurd after before
  · cases progress : c'.requests k with
    | arrived | retaining | announcing | failed =>
      rw [progress] at after
      exact after.elim
    | served =>
      rw [progress] at opening
      exact opening.elim
    | reading r =>
      rw [progress] at opening after
      cases opening
      exact absurd rfl after
  · obtain ⟨_, page, -, -, -, next⟩ := read_eq_some read
    by_cases own : filter = i
    · exact ⟨failure, by rw [own]⟩
    · -- the page of another filter
      rw [next] at after
      rw [reading] at before
      exact absurd (by simpa [Begun, Function.update_of_ne own] using after) before
  · rw [reading] at before
    have inside := (List.getElem?_eq_some_iff.mp found).1
    rcases pass_eq_some pass with ⟨past, next⟩ | next | ⟨g, events, -, -, next⟩
    · -- EOSE comes after all pages
      exact absurd (sound.pages k r reading filter (by omega)) before
    · rw [next] at after
      exact after.elim
    · rw [next] at after
      exact absurd after before

theorem served_step (moves : load.Moves c a c') {sent : List Row}
    (served : c.requests k = .served sent) : c'.requests k = .served sent := by
  rcases moves.request k with same | ⟨early, -⟩ | ⟨r, _, _, -, reading, -⟩ | ⟨r, reading, -⟩
  · rw [same, served]
  · rw [served] at early
    exact early.elim
  · cases served.symm.trans reading
  · cases served.symm.trans reading

theorem ne_arrived_step (moves : load.Moves c a c') (later : c.requests k ≠ .arrived) :
    c'.requests k ≠ .arrived := by
  intro arrived
  rcases moves.request k with same | ⟨-, opening⟩ | ⟨r, _, _, -, -, read⟩ | ⟨r, -, pass⟩
  · exact later (same.symm.trans arrived)
  · rw [arrived] at opening
    exact opening
  · obtain ⟨_, _, -, -, -, next⟩ := read_eq_some read
    cases arrived.symm.trans next
  · rcases pass_eq_some pass with ⟨-, next⟩ | next | ⟨_, _, -, -, next⟩ <;>
      cases arrived.symm.trans next

/-! ### A whole run -/

variable {run : load.Run}

theorem moves_at (run : load.Run) (n : Nat) :
    load.Moves (run.state n) (run.action n) (run.state (n + 1)) :=
  moves_of_perform (run.steps n)

theorem sound_at (start : run.state 0 = .initial) (n : Nat) : load.Sound (run.state n) := by
  apply run.invariant (fun _ _ _ performed sound => sound.step (moves_of_perform performed))
    (Nat.zero_le n)
  rw [start]
  exact sound_initial

/-- The event is among what was sent if the query of its filter found it. -/
theorem Wanted.delivered_of_read (wanted : load.Wanted k e filter)
    (whole : NotCutOff run k e filter) {n N : Nat} {failure : Option DbError} {sent : List Row}
    (start : run.state 0 = .initial)
    (reads : run.action n = .read k filter failure)
    (stored : (load.event e).row ∈ (run.state n).table.rows)
    (served : (run.state N).requests k = .served sent) :
    (load.event e).row.event.id ∈ sent.map (·.event.id) := by
  have moves := moves_at run n
  rw [reads] at moves
  obtain ⟨r, before, read⟩ := moves.reads
  have early : n < N := by
    by_contra late
    have still := run.invariant (fun _ _ _ performed => served_step (moves_of_perform performed))
      (Nat.le_of_not_lt late) served
    cases before.symm.trans still
  obtain ⟨f, page, found, unread, good, next⟩ := read_eq_some read
  have held : Held (load.event e).row filter ((run.state (n + 1)).requests k) := by
    rw [next]
    apply Or.inl
    constructor
    · by_contra passed
      exact (sound_at start n).pages k r before filter (Nat.lt_of_not_le passed) unread
    · refine ⟨page, by simp, ?_⟩
      intro events ok
      exact whole n failure f events reads found stored (good events ok)
  have kept := run.invariant (fun _ _ _ performed => wanted.held_step (moves_of_perform performed))
    early held
  rw [served] at kept
  exact kept

theorem exists_read (start : run.state 0 = .initial) {f : ReqFilter}
    (found : (load.request k).filters[filter]? = some f) {N : Nat} {sent : List Row}
    (served : (run.state N).requests k = .served sent) :
    ∃ n < N, ∃ failure, run.action n = .read k filter failure := by
  have unread : ¬ Begun filter ((run.state 0).requests k) := by
    rw [start]
    exact fun begun => begun
  have begun : Begun filter ((run.state N).requests k) := by
    rw [served]
    trivial
  obtain ⟨n, -, early, before, after⟩ := run.exists_start (P := fun c => Begun filter (c.requests k))
    (Nat.zero_le N) unread begun
  exact ⟨n, early, read_of_begun (sound_at start n) (moves_at run n) found before after⟩

/-! ### The live delivery -/

omit [DecidableEq ι] [DecidableEq κ] [DecidableEq η] in
theorem Wanted.deliverable (wanted : load.Wanted k e filter) :
    (load.request k).entry.Deliverable (load.event e).row.communityId (load.event e).row.stored := by
  obtain ⟨f, found, -, accepts⟩ := wanted.selected
  have matched : filtersMatch [f.filter] (load.event e).row.stored = true := by
    simp only [HistoryEnv.accepts, Bool.and_eq_true] at accepts
    exact accepts.1.1
  refine ⟨wanted.community.symm, wanted.scope, ?_⟩
  have member : f.filter ∈ (load.request k).filters.map (·.filter) :=
    List.mem_map_of_mem (List.mem_of_getElem? found)
  simp only [filtersMatch, List.any_cons, List.any_nil, Bool.or_false] at matched
  exact List.any_eq_true.mpr ⟨f.filter, member, matched⟩

/-- The frame of the event for the request. -/
def frame (load : Load ι κ η) (k : κ) (e : η) : Frame :=
  ⟨((load.request k).conn, (load.request k).sub), (load.event e).row.communityId,
    (load.event e).row.stored⟩

omit [DecidableEq ι] [DecidableEq κ] [DecidableEq η] in
theorem Wanted.mem_frames (wanted : load.Wanted k e filter) {registry : SubscriptionRegistry}
    (indexed : registry.Indexed)
    (live : registry.live ((load.request k).conn, (load.request k).sub) =
      some (load.request k).entry) :
    load.frame k e ∈ load.frames registry (load.event e).row.communityId
      (load.event e).row.stored := by
  apply List.mem_map.mpr
  refine ⟨_, ?_, rfl⟩
  apply List.mem_filter.mpr
  constructor
  · rw [SubscriptionRegistry.mem_fanOutScoped indexed]
    exact ⟨_, live, wanted.deliverable⟩
  · rw [wanted.community]
    exact wanted.admitted

theorem frames_mono (run : load.Run) {m n : Nat} (later : m ≤ n) (pod : ι) :
    (run.state m).frames pod ⊆ (run.state n).frames pod := by
  induction later with
  | refl => exact List.Subset.refl _
  | step _ ih => exact List.Subset.trans ih ((moves_at run _).frames pod).subset

theorem accepted_before (run : load.Run) {m n : Nat} (later : m ≤ n)
    (accepted : (run.state n).events e = .accepted) : (run.state m).events e = .accepted := by
  induction later with
  | refl => exact accepted
  | step _ ih => exact ih ((moves_at run _).accepted_before accepted)

theorem done_step (moves : load.Moves c a c') (done : c.events e = .done) :
    c'.events e = .done := by
  rcases moves.stage e with same | ⟨-, before, -⟩ | ⟨-, before, -⟩ | ⟨-, before, -⟩
  · rw [same, done]
  all_goals cases done.symm.trans before

theorem Wanted.framed_of_own (wanted : load.Wanted k e filter) (start : run.state 0 = .initial)
    (stays : StaysOpen run k) {m N : Nat} (order : m ≤ N)
    (registered : (run.state m).requests k ≠ .arrived)
    (before : (run.state m).events e = .accepted) (done : (run.state N).events e = .done)
    (own : (load.event e).pod = (load.request k).pod) :
    load.frame k e ∈ (run.state N).frames (load.request k).pod := by
  have waiting : (run.state m).events e ≠ .done := by
    rw [before]
    decide
  obtain ⟨n, after, early, undone, finishes⟩ :=
    run.exists_start (P := fun c => c.events e = .done) order waiting done
  have open_ : (run.state n).requests k ≠ .arrived :=
    run.invariant (fun _ _ _ performed => ne_arrived_step (moves_of_perform performed)) after
      registered
  apply frames_mono run (show n + 1 ≤ N from early)
  have moves := moves_at run n
  rcases moves.stage e with same | ⟨-, -, next⟩ | ⟨-, -, next⟩ | ⟨acts, -, -⟩
  · exact absurd (same.symm.trans finishes) undone
  · cases finishes.symm.trans next
  · cases finishes.symm.trans next
  · rw [acts] at moves
    have grown := moves.fansOut
    rw [own] at grown
    rw [grown]
    apply List.mem_append_right
    apply List.mem_filter.mpr
    constructor
    · exact wanted.mem_frames ((sound_at start n).indexed _) (stays n open_)
    · exact wanted.owned

theorem Wanted.framed_of_received (wanted : load.Wanted k e filter)
    (start : run.state 0 = .initial) (stays : StaysOpen run k) {n N : Nat}
    (publishes : run.action n = .publish e) (order : n < N)
    (receives : ((run.state n).pubsub (load.request k).pod).receives
      (eventTopic (load.event e).row.communityId (load.event e).row.channelId) = true)
    (registered : (run.state n).requests k ≠ .arrived)
    (consumed : ((load.event e).row.communityId, (load.event e).row.stored) ∉
      (run.state N).inbox (load.request k).pod)
    (foreign : (load.event e).pod ≠ (load.request k).pod) :
    load.frame k e ∈ (run.state N).frames (load.request k).pod := by
  have published := moves_at run n
  rw [publishes] at published
  obtain ⟨stored, arrives⟩ := published.publishes
  obtain ⟨m, after, early, waiting, gone⟩ := run.exists_start
    (P := fun c => ((load.event e).row.communityId, (load.event e).row.stored) ∉
      c.inbox (load.request k).pod)
    (show n + 1 ≤ N from order) (not_not_intro (arrives _ receives)) consumed
  have open_ : (run.state m).requests k ≠ .arrived :=
    run.invariant (fun _ _ _ performed => ne_arrived_step (moves_of_perform performed))
      (Nat.le_of_lt after) registered
  rcases (moves_at run m).leaves_inbox (not_not.mp waiting) gone with marked | grown
  · -- The key is marked by an event of this pod, and no other event has it.
    obtain ⟨e', here, named, later⟩ := (sound_at start m).marked _ _ marked
    have kept : (run.state m).events e ≠ .accepted := by
      intro accepted
      rw [accepted_before run (Nat.le_of_lt after) accepted] at stored
      cases stored
    have same : e' = e := (sound_at start m).distinct e' e later kept named
    rw [same] at here
    exact absurd here foreign
  · apply frames_mono run (show m + 1 ≤ N from early)
    rw [grown]
    apply List.mem_append_right
    exact wanted.mem_frames ((sound_at start m).indexed _) (stays m open_)

end

/-- An event that the pod of a request accepts, that the query of the filter finds stored, or that
is published when Redis delivers its topic to the pod, is sent to the client. -/
theorem delivered_of_caught (run : load.Run) (start : run.state 0 = .initial) {k : κ} {e : η}
    {filter N : Nat} (wanted : load.Wanted k e filter) (whole : NotCutOff run k e filter)
    (stays : StaysOpen run k) (finished : Finished run k e N) (caught : Caught run k e filter) :
    Delivered run k e N := by
  obtain ⟨sent, served⟩ := finished.served
  have history : ∀ n failure, run.action n = .read k filter failure →
      (load.event e).row ∈ (run.state n).table.rows → Delivered run k e N := by
    intro n failure reads stored
    have found := wanted.delivered_of_read whole start reads stored served
    exact Or.inl ⟨sent, served, List.mem_map.mp found⟩
  obtain ⟨f, found, -⟩ := wanted.selected
  obtain ⟨n, early, failure, reads⟩ := exists_read start found served
  by_cases stored : (load.event e).row ∈ (run.state n).table.rows
  · exact history n failure reads stored
  -- The event is stored after the query, so it finds the subscription registered.
  have accepted : (run.state n).events e = .accepted := by
    by_contra later
    exact stored ((sound_at start n).stored e later)
  have moves := moves_at run n
  rw [reads] at moves
  obtain ⟨r, reading, -⟩ := moves.reads
  have registered : (run.state n).requests k ≠ .arrived := by
    rw [reading]
    exact fun arrived => nomatch arrived
  have own : (load.event e).pod = (load.request k).pod → Delivered run k e N := fun same =>
    Or.inr (wanted.framed_of_own start stays (Nat.le_of_lt early) registered accepted
      finished.done same)
  rcases caught with same | ⟨m, failure', again, earlier⟩ | ⟨m, publishes, receives⟩
  · exact own same
  · exact history m failure' again earlier
  · by_cases same : (load.event e).pod = (load.request k).pod
    · exact own same
    have published := moves_at run m
    rw [publishes] at published
    have here := published.publishes.1
    have after : n ≤ m := by
      by_contra before
      rw [accepted_before run (by omega) accepted] at here
      cases here
    have order : m < N := by
      by_contra late
      have still := run.invariant (fun _ _ _ performed => done_step (moves_of_perform performed))
        (Nat.le_of_not_lt late) finished.done
      cases here.symm.trans still
    exact Or.inr (wanted.framed_of_received start stays publishes order receives
      (run.invariant (fun _ _ _ performed => ne_arrived_step (moves_of_perform performed)) after
        registered) finished.consumed same)

end Load

/-! ### Before and after the subscription -/

instance (p : Progress) : Decidable (p = .arrived) :=
  match p with
  | .arrived => isTrue rfl
  | .retaining _ | .announcing _ _ | .reading _ | .served _ | .failed _ =>
    isFalse fun same => nomatch same

namespace Sample

open HistoryEnv.Sample (channel community message)

/-- `{"kinds":[9],"#h":["aaaaaaaa-aaaa-aaaa-aaaa-aaaaaaaaaaaa"]}`. -/
def inChannel : ReqFilter where
  filter := { kinds := some [9], genericTags := [(.h, ["aaaaaaaa-aaaa-aaaa-aaaa-aaaaaaaaaaaa"])] }
  limit_lt := ReqFilter.unlimited

/-- A reader on one pod and a message on the other. -/
def twoPods : Load Bool Unit Unit where
  access :=
    { communityForConn := fun _ => some community
      pubkeyForConn := fun _ => some (Hex64.repeated 'a' (Eq.refl true))
      visibility := fun _ _ => some .openChannel
      isMember := fun _ _ _ => false }
  request _ :=
    { pod := false
      conn := ⟨7⟩
      sub := "sub"
      community := community
      reader := Hex64.repeated 'a' (Eq.refl true)
      accessible := [channel]
      filters := [inChannel] }
  event _ := { pod := true, row := message }

/-- The request up to its `Subscribe` command. -/
def asked : List (ClusterAction Bool Unit Unit) :=
  [.pubsub false (.connect []), .register (), .retain (), .announce ()]

def sent : List (ClusterAction Bool Unit Unit) := [.store (), .publish (), .fanOut ()]

/-- The subscriber takes the command after the event has been published. -/
def late : twoPods.Run :=
  .ofList .initial
    (asked ++ [ClusterAction.read () 0 none] ++ sent ++
      ([.pubsub false (.receive true), .pass (), .pass ()] : List (ClusterAction Bool Unit Unit)))
    .idle (by decide) (fun _ => rfl)

/-- The subscriber takes the command at once. -/
def prompt : twoPods.Run :=
  .ofList .initial
    (asked ++ [ClusterAction.pubsub false (.receive true), ClusterAction.read () 0 none] ++ sent ++
      ([.consume false, .pass (), .pass ()] : List (ClusterAction Bool Unit Unit)))
    .idle (by decide) (fun _ => rfl)

theorem wanted : twoPods.Wanted () () 0 where
  selected := ⟨inChannel, by decide, by decide, by decide⟩
  community := rfl
  scope := by decide
  admitted := by decide
  owned := by decide

def isRead : ClusterAction Bool Unit Unit → Bool
  | .read .. => true
  | _ => false

theorem whole_of_early {run : twoPods.Run}
    (early : ∀ n, isRead (run.action n) = true → message ∉ (run.state n).table.rows) :
    Load.NotCutOff run () () 0 := by
  intro n failure f page reads _ stored
  exact absurd stored (early n (by rw [reads]; rfl))

/-- The subscription is there from its registration on. -/
def Open (c : Cluster Bool Unit Unit) : Prop :=
  c.requests () ≠ .arrived → (c.registry false).live (⟨7⟩, "sub") = some (twoPods.request ()).entry

instance (c : Cluster Bool Unit Unit) : Decidable (Open c) :=
  inferInstanceAs (Decidable (_ → _))

def served : Progress → List Row
  | .served sent => sent
  | _ => []

def isServed : Progress → Bool
  | .served _ => true
  | _ => false

theorem exists_served {p : Progress} (ended : isServed p = true) : ∃ sent, p = .served sent := by
  cases p with
  | served sent => exact ⟨sent, rfl⟩
  | _ => cases ended

theorem late_checked :
    (∀ n < 11, isRead (late.action n) = true → message ∉ (late.state n).table.rows) ∧
      (∀ n ≤ 11, Open (late.state n) ∧
        (late.state n).frames false = [] ∧ served ((late.state n).requests ()) = []) ∧
      isServed ((late.state 11).requests ()) = true ∧ (late.state 11).events () = .done ∧
      (message.communityId, message.stored) ∉ (late.state 11).inbox false := by
  decide

theorem prompt_checked :
    (∀ n < 12, isRead (prompt.action n) = true → message ∉ (prompt.state n).table.rows) ∧
      (∀ n ≤ 12, Open (prompt.state n)) ∧
      isServed ((prompt.state 12).requests ()) = true ∧ (prompt.state 12).events () = .done ∧
      (message.communityId, message.stored) ∉ (prompt.state 12).inbox false := by
  decide

theorem late_whole : Load.NotCutOff late () () 0 :=
  whole_of_early (Trace.forall_ofList
    (P := fun (c : Cluster Bool Unit Unit) a => isRead a = true → message ∉ c.table.rows)
    late_checked.1 (fun _ reads => nomatch reads))

theorem prompt_whole : Load.NotCutOff prompt () () 0 :=
  whole_of_early (Trace.forall_ofList
    (P := fun (c : Cluster Bool Unit Unit) a => isRead a = true → message ∉ c.table.rows)
    prompt_checked.1 (fun _ reads => nomatch reads))

theorem late_open : Load.StaysOpen late () := by
  have within : ∀ n ≤ 11, Open (late.state n) := fun n within => (late_checked.2.1 n within).1
  refine Trace.forall_state_ofList (P := Open) ?_
  exact within

theorem prompt_open : Load.StaysOpen prompt () :=
  Trace.forall_state_ofList (P := Open) prompt_checked.2.1

theorem late_finished : Load.Finished late () () 11 :=
  ⟨exists_served late_checked.2.2.1, late_checked.2.2.2.1, late_checked.2.2.2.2⟩

theorem prompt_finished : Load.Finished prompt () () 12 :=
  ⟨exists_served prompt_checked.2.2.1, prompt_checked.2.2.2.1, prompt_checked.2.2.2.2⟩

theorem late_nothing (n : Nat) :
    (late.state n).frames false = [] ∧ served ((late.state n).requests ()) = [] := by
  have within : ∀ n ≤ 11, (late.state n).frames false = [] ∧
      served ((late.state n).requests ()) = [] := fun n within => (late_checked.2.1 n within).2
  refine Trace.forall_state_ofList
    (P := fun c : Cluster Bool Unit Unit => c.frames false = [] ∧ served (c.requests ()) = []) ?_ n
  exact within

end Sample

/-- The topic is subscribed when the message is published. -/
theorem delivered_prompt : Sample.prompt.action 7 = .publish () ∧
    Load.Delivered Sample.prompt () () 12 := by
  have published : Sample.prompt.action 7 = .publish () := rfl
  exact ⟨published, Load.delivered_of_caught Sample.prompt rfl Sample.wanted Sample.prompt_whole
    Sample.prompt_open Sample.prompt_finished
    (Or.inr (Or.inr ⟨7, published, by decide⟩))⟩

/-- The history is read, the message is stored and published, and only then is the topic
subscribed: the client never gets the message. -/
theorem gap_before_subscribe : Sample.late.state 0 = .initial ∧ Sample.twoPods.Wanted () () 0 ∧
    Load.NotCutOff Sample.late () () 0 ∧ Load.StaysOpen Sample.late () ∧
    Load.Finished Sample.late () () 11 ∧ ∀ n, ¬ Load.Delivered Sample.late () () n := by
  refine ⟨rfl, Sample.wanted, Sample.late_whole, Sample.late_open, Sample.late_finished, ?_⟩
  rintro n (⟨sent, progress, r, member, -⟩ | framed)
  · have nothing := (Sample.late_nothing n).2
    rw [progress] at nothing
    rw [show sent = [] from nothing] at member
    cases member
  · have nothing := (Sample.late_nothing n).1
    rw [show (Sample.late.state n).frames (Sample.twoPods.request ()).pod = [] from nothing] at framed
    cases framed

end Relay
