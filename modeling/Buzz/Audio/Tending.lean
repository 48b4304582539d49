import Buzz.Audio.Owner

/-!
# Who looks after a room

On a pod that owns its huddles a room in the map has peers, or a handler that will let its peer in or
clean up, or it has ended and the handler that ended it will clean up. That is so as long as the
steps are orderly: a remote peer is not the last to leave, nobody is refused from a room that has
no other handler, rooms are removed by those who should and no room is made before the channel of the
last one is archived.
-/
namespace Audio

open Lib Nostr Relay

namespace Stage

/-- The peer was let in, and its handler is not done. -/
def Visited : Stage → Prop
  | inside _ | looked .. | ending _ | exiting _ | cleaned .. => True
  | outside | obtained _ | checked _ | registered .. | failing | gone => False

/-- The handler ended the huddle, and has not sent the event. -/
def Owes : Stage → Prop
  | ending _ | exiting true | cleaned true _ => True
  | _ => False

/-- The handler ended the huddle, and will clean up. -/
def Tidies : Stage → Prop
  | ending _ | exiting true => True
  | _ => False

/-- The peer has left, and its handler is not done. -/
def Exits : Stage → Prop
  | ending _ | exiting _ | cleaned .. => True
  | _ => False

/-- How often the channel was archived and the event sent, when the huddle ended with a handler that
is at this stage. -/
def due : Stage → Nat × Nat
  | ending _ => (0, 0)
  | exiting true | cleaned true _ => (1, 0)
  | _ => (1, 1)

/-- The handler will let its peer into the room, or clean up. -/
def Minds (r : Nat) (stage : Stage) : Prop := stage.awaited = some r ∨ stage = failing

theorem not_minds {stage : Stage} {r : Nat} (awaits : stage.awaited = none)
    (going : stage ≠ failing) : ¬ stage.Minds r := by
  rintro (awaits' | failing)
  · rw [awaits] at awaits'
    cases awaits'
  · exact going failing

theorem eq_of_minds {stage : Stage} {r r' : Nat} (awaits : stage.awaited = some r)
    (minds : stage.Minds r') : r = r' := by
  rcases minds with awaits' | failing
  · exact Option.some.inj (awaits.symm.trans awaits')
  · rw [failing] at awaits
    cases awaits

theorem facts_of_cleanup {old stage : Stage} {emptied : Bool}
    (next : (old = .failing ∧ stage = .gone) ∨
      ∃ archived, old = .exiting archived ∧ stage = .cleaned archived emptied) :
    (stage.Visited → old.Visited) ∧ stage.joined = none ∧ stage.awaited = none ∧
      (stage.Owes → old.Owes) ∧ stage.due = old.due := by
  rcases next with ⟨rfl, rfl⟩ | ⟨archived, rfl, rfl⟩
  · exact ⟨False.elim, rfl, rfl, id, rfl⟩
  · cases archived with
    | true => exact ⟨id, rfl, rfl, id, rfl⟩
    | false => exact ⟨id, rfl, rfl, id, rfl⟩

end Stage

namespace Pod

variable (v : Visitors)

/-- A handler can give up its room without a cleanup: the room has peers, has ended, is not mapped,
or another handler minds it. -/
def Relieved (s : Pod) (c : Uuid) (r : Nat) : Prop :=
  s.rooms (v.key c) ≠ some r ∨ (s.heap r).isEmpty = false ∨ (s.heap r).guard.ended = true ∨
    ∃ d, d ≠ c ∧ v.key d = v.key c ∧ (s.stage d).Minds r

/-- The peer is not let in. -/
def Refuses (s : Pod) (c : Uuid) (r : Nat) : Prop :=
  (v.origin c = .client ∧ ¬ v.Supported c) ∨ ∃ error, v.admission (s.heap r) c none = .error error

/-- The steps that leave nothing behind. -/
def Orderly (s : Pod) : PodAction → Prop
  -- a remote peer is not the last to leave
  | .drop c => ∀ r found, s.stage c = .looked r found →
      ∃ d, d ≠ c ∧ ((s.heap found).peers.lookup d).isSome
  -- a refusal leaves no room that nobody minds
  | .enter c => ∀ r, s.stage c = .checked r → s.Refuses v c r → s.Relieved v c r
  | .check c false => v.origin c = .stream → ∀ r, s.stage c = .obtained r → s.Relieved v c r
  -- a room that has ended is removed by a leaver, and another one only if it is not awaited
  | .cleanup c => ∀ r, s.evicts (v.key c) = some r →
      if (s.heap r).guard.ended then s.stage c ≠ .failing else ∀ d, (s.stage d).awaited ≠ some r
  -- there is no new room before the channel of the last one is archived
  | .getOrCreate c => s.rooms (v.key c) = none →
      ∀ d, v.key d = v.key c → ∀ r, s.stage d ≠ .ending r
  | _ => True

/-- The rooms have handlers that look after them. -/
structure Tended (s : Pod) : Prop where
  owned : ∀ c, v.origin c = .ingress → s.stage c = .outside
  single : ∀ key key' r, s.rooms key = some r → s.rooms key' = some r → key = key'
  isOpen : ∀ c r, (s.stage c).joined = some r → (s.heap r).guard.ended = false
  vacant : ∀ r, (s.heap r).guard.ended = true → (s.heap r).isEmpty = true
  minded : ∀ key r, s.rooms key = some r → (s.heap r).isEmpty = true →
    (s.heap r).guard.ended = false → ∃ d, v.key d = key ∧ (s.stage d).Minds r
  tidied : ∀ key r, s.rooms key = some r → (s.heap r).guard.ended = true →
    ∃ d, v.key d = key ∧ (s.stage d).Tidies
  closing : ∀ c r r', s.stage c = .ending r → s.rooms (v.key c) = some r' →
    (s.heap r').guard.ended = true

end Pod

/-! ### What a handler does -/

namespace Pod

/-- The steps of the handlers on a pod that owns its huddles. -/
inductive Handled (v : Visitors) (s : Pod) : PodAction → Pod → Prop where
  | reuse {c r} (out : s.stage c = .outside) (mine : v.origin c ≠ .ingress)
      (mapped : s.rooms (v.key c) = some r) : Handled v s (.getOrCreate c) (s.move c (.obtained r))
  | create {c} (out : s.stage c = .outside) (mine : v.origin c ≠ .ingress)
      (unmapped : s.rooms (v.key c) = none) :
      Handled v s (.getOrCreate c) ((s.getOrCreate (v.key c)).2.move c (.obtained s.created))
  | pass {c r} (obtained : s.stage c = .obtained r) :
      Handled v s (.check c true) (s.move c (.checked r))
  | fail {c r} (client : v.origin c = .client) (obtained : s.stage c = .obtained r) :
      Handled v s (.check c false) (s.move c .failing)
  | reject {c r} (stream : v.origin c = .stream) (obtained : s.stage c = .obtained r) :
      Handled v s (.check c false) (s.move c .gone)
  | refuse {c r} (checked : s.stage c = .checked r)
      (refused : s.Refuses v c r) : Handled v s (.enter c) (s.move c .gone)
  | enter {c r g peer} (checked : s.stage c = .checked r) (isOpen : (s.heap r).guard.ended = false)
      (still : g.ended = false) :
      Handled v s (.enter c) ((s.setRoom r ((s.heap r).enter g c peer).1).move c (.inside r))
  | leave {c r peer} (client : v.origin c = .client) (inside : s.stage c = .inside r)
      (here : (s.heap r).peers.lookup c = some peer)
      (others : ((s.heap r).without c peer).1.isEmpty = false) :
      Handled v s (.leave c) ((s.setRoom r ((s.heap r).without c peer).1).move c (.exiting false))
  | last {c r peer} (client : v.origin c = .client) (inside : s.stage c = .inside r)
      (here : (s.heap r).peers.lookup c = some peer)
      (nobody : ((s.heap r).without c peer).1.isEmpty = true) :
      Handled v s (.leave c)
        ((s.setRoom r ((s.heap r).without c peer).1.markEnded).move c (.ending r))
  | look {c r} (stream : v.origin c = .stream) (inside : s.stage c = .inside r) :
      Handled v s (.lookup c) (s.move c (.looked r r))
  | drop {c r peer} (looked : s.stage c = .looked r r)
      (here : (s.heap r).peers.lookup c = some peer) :
      Handled v s (.drop c) ((s.setRoom r ((s.heap r).without c peer).1).move c .gone)
  | archive {c r} (ending : s.stage c = .ending r) :
      Handled v s (.archive c true) (s.move c (.exiting true))
  | evict {c r stage} (mapped : s.rooms (v.key c) = some r) (empty : (s.heap r).isEmpty = true)
      (next : (s.stage c = .failing ∧ stage = .gone) ∨
        ∃ archived, s.stage c = .exiting archived ∧ stage = .cleaned archived true) :
      Handled v s (.cleanup c)
        (Pod.move { s with rooms := Function.update s.rooms (v.key c) none } c stage)
  | keep {c stage} (used : ∀ r, s.rooms (v.key c) = some r → (s.heap r).isEmpty = false)
      (next : (s.stage c = .failing ∧ stage = .gone) ∨
        ∃ archived, s.stage c = .exiting archived ∧ stage = .cleaned archived false) :
      Handled v s (.cleanup c) (s.move c stage)
  | emit {c emptied} (cleaned : s.stage c = .cleaned true emptied) :
      Handled v s (.emitEnded c) (s.move c (.cleaned false emptied))
  | finish {c emptied} (cleaned : s.stage c = .cleaned false emptied) :
      Handled v s (.finish c) (s.move c .gone)
  | idle : Handled v s .idle s

end Pod

namespace OwnerPod

variable {v : Visitors} {s s' : OwnerPod} {pod : Pod} {a : PodAction}

theorem handled_of_perform (settled : s.pod.Settled v) (tended : s.pod.Tended v)
    (allowed : v.Allows s a) (performed : v.perform s.pod a = some pod) :
    s.pod.Handled v a pod := by
  cases a with
  | getOrCreate c =>
    simp only [Visitors.perform] at performed
    split at performed
    next out =>
      have mine : v.origin c ≠ .ingress := by
        rcases allowed with stream | ⟨client, -⟩
        · simp [stream]
        · simp [client]
      cases performed
      cases mapped : s.pod.rooms (v.key c) with
      | some r =>
        have same : s.pod.getOrCreate (v.key c) = (r, s.pod) := by simp [Pod.getOrCreate, mapped]
        rw [same]
        exact .reuse out mine mapped
      | none =>
        have new : (s.pod.getOrCreate (v.key c)).1 = s.pod.created := by
          simp [Pod.getOrCreate, mapped]
        rw [new]
        exact .create out mine mapped
    next => cases performed
  | check c passed =>
    simp only [Visitors.perform] at performed
    split at performed
    next r obtained =>
      cases performed
      exact .pass obtained
    next r obtained =>
      cases performed
      by_cases stream : v.origin c = .stream
      · rw [if_pos stream]
        exact .reject stream obtained
      · rw [if_neg stream]
        refine .fail ?_ obtained
        cases origin : v.origin c with
        | client => rfl
        | ingress =>
          rw [tended.owned c origin] at obtained
          cases obtained
        | stream => exact absurd origin stream
    next => cases performed
  | dial c peerIndex => exact allowed.elim
  | enter c =>
    have enters : ∀ r, s.pod.stage c = .checked r → v.enterRoom s.pod c r none = pod →
        s.pod.Handled v (.enter c) pod := by
      rintro r checked rfl
      unfold Visitors.enterRoom
      split
      next room entered =>
        obtain ⟨isOpen, g, peer, still, rfl⟩ := Pod.admission_eq_ok entered
        exact .enter checked isOpen still
      next error refused => exact .refuse checked (Or.inr ⟨error, refused⟩)
    simp only [Visitors.perform] at performed
    split at performed
    next r client checked =>
      split at performed
      · exact enters r checked (Option.some.inj performed)
      next unsupported =>
        cases performed
        exact .refuse checked (Or.inl ⟨client, unsupported⟩)
    next r _ checked => exact enters r checked (Option.some.inj performed)
    next r i ingress registered =>
      rw [tended.owned c ingress] at registered
      cases registered
    next => cases performed
  | leave c =>
    simp only [Visitors.perform] at performed
    split at performed
    next r client inside =>
      have joined : (s.pod.stage c).joined = some r := by
        rw [inside]
        rfl
      have isOpen := tended.isOpen c r joined
      obtain ⟨peer, here⟩ := Option.isSome_iff_exists.mp ((settled.placed c).joined r joined).2
      simp only [Room.removePeerAndCheckEnded, here, Option.map_some, Option.some.injEq] at performed
      have ended : ((s.pod.heap r).without c peer).1.guard.ended = false := isOpen
      simp only [ended, Bool.not_false, Bool.true_and] at performed
      cases nobody : ((s.pod.heap r).without c peer).1.isEmpty with
      | true =>
        simp only [nobody, if_true] at performed
        subst performed
        exact .last client inside here nobody
      | false =>
        simp only [nobody] at performed
        subst performed
        exact .leave client inside here nobody
    next r ingress inside =>
      rw [tended.owned c ingress] at inside
      cases inside
    next => cases performed
  | lookup c =>
    simp only [Visitors.perform] at performed
    split at performed
    next r stream inside =>
      have joined : (s.pod.stage c).joined = some r := by
        rw [inside]
        rfl
      simp only [((settled.placed c).joined r joined).1, Option.some.injEq] at performed
      subst performed
      exact .look stream inside
    next => cases performed
  | drop c =>
    simp only [Visitors.perform] at performed
    split at performed
    next r found looked =>
      obtain rfl := (settled.placed c).found r found looked
      have joined : (s.pod.stage c).joined = some found := by
        rw [looked]
        rfl
      obtain ⟨peer, here⟩ := Option.isSome_iff_exists.mp ((settled.placed c).joined found joined).2
      simp only [Room.removePeer, here, Option.map_some, Option.some.injEq] at performed
      subst performed
      exact .drop looked here
    next => cases performed
  | archive c succeeded =>
    simp only [Visitors.perform] at performed
    split at performed
    next r ending =>
      cases performed
      exact .archive ending
    next => cases allowed
    next => cases performed
  | cleanup c =>
    have cleans : ∀ stage : Bool → Stage, (∀ emptied, (s.pod.stage c = .failing ∧ stage emptied = .gone) ∨
        ∃ archived, s.pod.stage c = .exiting archived ∧ stage emptied = .cleaned archived emptied) →
        (s.pod.cleanupIfEmpty (v.key c)).2.move c (stage (s.pod.cleanupIfEmpty (v.key c)).1) = pod →
        s.pod.Handled v (.cleanup c) pod := by
      rintro stage next rfl
      unfold Pod.cleanupIfEmpty
      split
      next r evicted =>
        obtain ⟨mapped, empty⟩ := Option.filter_eq_some_iff.mp evicted
        exact .evict mapped empty (next true)
      next kept =>
        refine .keep ?_ (next false)
        intro r mapped
        have filtered := Option.filter_eq_none_iff.mp kept r mapped
        simpa using filtered
    simp only [Visitors.perform] at performed
    split at performed
    next failing =>
      exact cleans (fun _ => .gone) (fun _ => Or.inl ⟨failing, rfl⟩) (Option.some.inj performed)
    next archived exiting =>
      exact cleans (.cleaned archived) (fun _ => Or.inr ⟨archived, exiting, rfl⟩)
        (Option.some.inj performed)
    next => cases performed
  | emitEnded c =>
    simp only [Visitors.perform] at performed
    split at performed
    next emptied cleaned =>
      cases performed
      exact .emit cleaned
    next => cases performed
  | finish c =>
    simp only [Visitors.perform] at performed
    split at performed
    next emptied cleaned =>
      cases performed
      exact .finish cleaned
    next => cases performed
  | idle =>
    cases performed
    exact .idle

end OwnerPod

/-! ### The rooms are looked after -/

namespace Pod

variable {v : Visitors} {s pod : Pod} {c : Uuid} {stage : Stage} {r : Nat} {room : Room}

theorem tended_initial : Tended v {} where
  owned _ _ := rfl
  single _ _ _ mapped := by cases mapped
  isOpen _ _ joined := by cases joined
  vacant _ ended := by cases ended
  minded _ _ mapped := by cases mapped
  tidied _ _ mapped := by cases mapped
  closing _ _ _ ending := by cases ending

theorem Tended.mine (tended : s.Tended v) (started : s.stage c ≠ .outside) :
    v.origin c ≠ .ingress := fun ingress => started (tended.owned c ingress)

theorem Tended.move (tended : s.Tended v) (mine : v.origin c ≠ .ingress)
    (joined : ∀ r, stage.joined = some r → (s.stage c).joined = some r)
    (minds : ∀ r, s.rooms (v.key c) = some r → (s.heap r).isEmpty = true →
      (s.heap r).guard.ended = false → (s.stage c).Minds r →
      stage.Minds r ∨ ∃ d, d ≠ c ∧ v.key d = v.key c ∧ (s.stage d).Minds r)
    (tidies : ∀ r, s.rooms (v.key c) = some r → (s.heap r).guard.ended = true →
      (s.stage c).Tidies → stage.Tidies) (going : ∀ r, stage ≠ .ending r) :
    (s.move c stage).Tended v where
  owned d ingress := by
    have other : d ≠ c := fun same => mine (same ▸ ingress)
    rw [stage_move_of_ne _ _ _ other]
    exact tended.owned d ingress
  single := tended.single
  isOpen d r inside := by
    by_cases same : d = c
    · subst same
      rw [stage_move_self] at inside
      exact tended.isOpen d r (joined r inside)
    · rw [stage_move_of_ne _ _ _ same] at inside
      exact tended.isOpen d r inside
  vacant := tended.vacant
  minded key r mapped empty isOpen := by
    obtain ⟨d, rfl, holds⟩ := tended.minded key r mapped empty isOpen
    by_cases same : d = c
    · subst same
      rcases minds r mapped empty isOpen holds with still | ⟨e, other, same, holds⟩
      · exact ⟨d, rfl, by rw [stage_move_self]; exact still⟩
      · exact ⟨e, same, by rw [stage_move_of_ne _ _ _ other]; exact holds⟩
    · exact ⟨d, rfl, by rw [stage_move_of_ne _ _ _ same]; exact holds⟩
  tidied key r mapped ended := by
    obtain ⟨d, rfl, holds⟩ := tended.tidied key r mapped ended
    by_cases same : d = c
    · subst same
      exact ⟨d, rfl, by rw [stage_move_self]; exact tidies r mapped ended holds⟩
    · exact ⟨d, rfl, by rw [stage_move_of_ne _ _ _ same]; exact holds⟩
  closing d r r' ending mapped := by
    by_cases same : d = c
    · subst same
      rw [stage_move_self] at ending
      exact absurd ending (going r)
    · rw [stage_move_of_ne _ _ _ same] at ending
      exact tended.closing d r r' ending mapped

/-- A handler changes its room and goes on. The room has peers then, or has ended with this
handler. -/
theorem Tended.setRoom (tended : s.Tended v) (mapped : s.rooms (v.key c) = some r)
    (mine : v.origin c ≠ .ingress) (isOpen : (s.heap r).guard.ended = false)
    (held : ∀ r', (s.stage c).Minds r' → r' = r) (untidy : ¬ (s.stage c).Tidies)
    (joined : ∀ r', stage.joined = some r' → r' = r)
    (going : ∀ r', stage = .ending r' → room.guard.ended = true)
    (used : room.guard.ended = false → room.isEmpty = false)
    (ended : room.guard.ended = true → room.isEmpty = true ∧ stage.Tidies ∧
      stage.joined = none ∧ ∀ d, d ≠ c → (s.stage d).joined ≠ some r) :
    ((s.setRoom r room).move c stage).Tended v where
  owned d ingress := by
    have other : d ≠ c := fun same => mine (same ▸ ingress)
    rw [stage_move_of_ne _ _ _ other]
    exact tended.owned d ingress
  single := tended.single
  isOpen d r' inside := by
    by_cases same : d = c
    · subst same
      rw [stage_move_self] at inside
      obtain rfl := joined r' inside
      rw [heap_move, heap_setRoom_self]
      apply Bool.eq_false_iff.mpr
      intro finished
      rw [(ended finished).2.2.1] at inside
      cases inside
    · rw [stage_move_of_ne _ _ _ same] at inside
      by_cases here : r' = r
      · subst here
        rw [heap_move, heap_setRoom_self]
        exact Bool.eq_false_iff.mpr fun finished => (ended finished).2.2.2 d same inside
      · rw [heap_move, heap_setRoom_of_ne _ _ _ here]
        exact tended.isOpen d r' inside
  vacant r' finished := by
    by_cases here : r' = r
    · subst here
      rw [heap_move, heap_setRoom_self] at finished ⊢
      exact (ended finished).1
    · rw [heap_move, heap_setRoom_of_ne _ _ _ here] at finished ⊢
      exact tended.vacant r' finished
  minded key r' mapped' empty isOpen := by
    by_cases here : r' = r
    · subst here
      rw [heap_move, heap_setRoom_self] at empty isOpen
      rw [used isOpen] at empty
      cases empty
    · rw [heap_move, heap_setRoom_of_ne _ _ _ here] at empty isOpen
      obtain ⟨d, same, holds⟩ := tended.minded key r' mapped' empty isOpen
      have other : d ≠ c := by
        rintro rfl
        exact here (held r' holds)
      exact ⟨d, same, by rw [stage_move_of_ne _ _ _ other]; exact holds⟩
  tidied key r' mapped' finished := by
    by_cases here : r' = r
    · subst here
      rw [heap_move, heap_setRoom_self] at finished
      exact ⟨c, tended.single _ _ r' mapped mapped', by rw [stage_move_self]; exact (ended finished).2.1⟩
    · rw [heap_move, heap_setRoom_of_ne _ _ _ here] at finished
      obtain ⟨d, same, holds⟩ := tended.tidied key r' mapped' finished
      have other : d ≠ c := by
        rintro rfl
        exact untidy holds
      exact ⟨d, same, by rw [stage_move_of_ne _ _ _ other]; exact holds⟩
  closing d r₁ r' ending mapped' := by
    by_cases here : r' = r
    · subst here
      rw [heap_move, heap_setRoom_self]
      by_cases same : d = c
      · subst same
        rw [stage_move_self] at ending
        exact going r₁ ending
      · rw [stage_move_of_ne _ _ _ same] at ending
        have finished := tended.closing d r₁ r' ending mapped'
        rw [isOpen] at finished
        cases finished
    · rw [heap_move, heap_setRoom_of_ne _ _ _ here]
      have other : d ≠ c := by
        rintro rfl
        exact here (Option.some.inj (mapped'.symm.trans mapped))
      rw [stage_move_of_ne _ _ _ other] at ending
      exact tended.closing d r₁ r' ending mapped'

theorem Tended.create (tended : s.Tended v) (settled : s.Settled v) (out : s.stage c = .outside)
    (mine : v.origin c ≠ .ingress) (unmapped : s.rooms (v.key c) = none)
    (archived : ∀ d, v.key d = v.key c → ∀ r, s.stage d ≠ .ending r) :
    ((s.getOrCreate (v.key c)).2.move c (.obtained s.created)).Tended v := by
  have new : s.getOrCreate (v.key c) = (s.created, { s with
      rooms := Function.update s.rooms (v.key c) (some s.created)
      heap := Function.update s.heap s.created {}
      created := s.created + 1 }) := by
    simp only [Pod.getOrCreate, unmapped]
  rw [new]
  -- the other rooms are older
  have older : ∀ key r, Function.update s.rooms (v.key c) (some s.created) key = some r →
      (key = v.key c ∧ r = s.created) ∨ (key ≠ v.key c ∧ s.rooms key = some r ∧ r ≠ s.created) := by
    intro key r mapped
    rw [Function.update_apply] at mapped
    split at mapped
    next same =>
      cases mapped
      exact Or.inl ⟨same, rfl⟩
    next other => exact Or.inr ⟨other, mapped, Nat.ne_of_lt (settled.numbered key r mapped)⟩
  constructor
  · intro d ingress
    have other : d ≠ c := fun same => mine (same ▸ ingress)
    rw [stage_move_of_ne _ _ _ other]
    exact tended.owned d ingress
  · intro key key' r mapped mapped'
    rcases older key r mapped with ⟨rfl, rfl⟩ | ⟨-, old, differs⟩
    · rcases older key' s.created mapped' with ⟨rfl, -⟩ | ⟨-, -, differs⟩
      · rfl
      · exact absurd rfl differs
    · rcases older key' r mapped' with ⟨-, same⟩ | ⟨-, old', -⟩
      · exact absurd same differs
      · exact tended.single key key' r old old'
  · intro d r inside
    have other : d ≠ c := by
      rintro rfl
      simp [Stage.joined] at inside
    rw [stage_move_of_ne _ _ _ other] at inside
    have mapped := ((settled.placed d).joined r inside).1
    have old := settled.numbered _ r mapped
    simp only [heap_move, Function.update_of_ne (Nat.ne_of_lt old)]
    exact tended.isOpen d r inside
  · intro r finished
    simp only [heap_move, Function.update_apply] at finished ⊢
    split at finished
    · cases finished
    next other =>
      rw [if_neg other]
      exact tended.vacant r finished
  · intro key r mapped empty isOpen
    rcases older key r mapped with ⟨rfl, rfl⟩ | ⟨-, old, differs⟩
    · exact ⟨c, rfl, by rw [stage_move_self]; exact Or.inl rfl⟩
    · simp only [heap_move, Function.update_of_ne differs] at empty isOpen
      obtain ⟨d, same, holds⟩ := tended.minded key r old empty isOpen
      have other : d ≠ c := by
        rintro rfl
        simp [out, Stage.Minds, Stage.awaited] at holds
      exact ⟨d, same, by rw [stage_move_of_ne _ _ _ other]; exact holds⟩
  · intro key r mapped finished
    rcases older key r mapped with ⟨rfl, rfl⟩ | ⟨-, old, differs⟩
    · simp at finished
    · simp only [heap_move, Function.update_of_ne differs] at finished
      obtain ⟨d, same, holds⟩ := tended.tidied key r old finished
      have other : d ≠ c := by
        rintro rfl
        rw [out] at holds
        exact holds
      exact ⟨d, same, by rw [stage_move_of_ne _ _ _ other]; exact holds⟩
  · intro d r r' ending mapped
    have other : d ≠ c := by
      rintro rfl
      simp at ending
    rw [stage_move_of_ne _ _ _ other] at ending
    rcases older (v.key d) r' mapped with ⟨same, -⟩ | ⟨-, old, differs⟩
    · exact absurd ending (archived d same r)
    · simp only [heap_move, Function.update_of_ne differs]
      exact tended.closing d r r' ending old

theorem Tended.evict (tended : s.Tended v) (mine : v.origin c ≠ .ingress)
    (joined : stage.joined = none) (going : ∀ r, stage ≠ .ending r) :
    (Pod.move { s with rooms := Function.update s.rooms (v.key c) none } c stage).Tended v := by
  -- the rooms of the other keys stay, and so do those who look after them
  have kept : ∀ key r, Function.update s.rooms (v.key c) none key = some r →
      key ≠ v.key c ∧ s.rooms key = some r := by
    intro key r mapped
    rw [Function.update_apply] at mapped
    split at mapped
    · cases mapped
    next other => exact ⟨other, mapped⟩
  constructor
  · intro d ingress
    have other : d ≠ c := fun same => mine (same ▸ ingress)
    rw [stage_move_of_ne _ _ _ other]
    exact tended.owned d ingress
  · intro key key' r mapped mapped'
    exact tended.single key key' r (kept key r mapped).2 (kept key' r mapped').2
  · intro d r inside
    have other : d ≠ c := by
      rintro rfl
      simp [joined] at inside
    rw [stage_move_of_ne _ _ _ other] at inside
    exact tended.isOpen d r inside
  · exact tended.vacant
  · intro key r mapped empty isOpen
    obtain ⟨differs, mapped⟩ := kept key r mapped
    obtain ⟨d, rfl, holds⟩ := tended.minded key r mapped empty isOpen
    have other : d ≠ c := fun same => differs (congrArg v.key same)
    exact ⟨d, rfl, by rw [stage_move_of_ne _ _ _ other]; exact holds⟩
  · intro key r mapped finished
    obtain ⟨differs, mapped⟩ := kept key r mapped
    obtain ⟨d, rfl, holds⟩ := tended.tidied key r mapped finished
    have other : d ≠ c := fun same => differs (congrArg v.key same)
    exact ⟨d, rfl, by rw [stage_move_of_ne _ _ _ other]; exact holds⟩
  · intro d r r' ending mapped
    have other : d ≠ c := by
      rintro rfl
      rw [stage_move_self] at ending
      exact going r ending
    rw [stage_move_of_ne _ _ _ other] at ending
    exact tended.closing d r r' ending (kept _ r' mapped).2

theorem Relieved.resolve_unused (relieved : s.Relieved v c r) (mapped : s.rooms (v.key c) = some r)
    (empty : (s.heap r).isEmpty = true) (isOpen : (s.heap r).guard.ended = false) :
    ∃ d, d ≠ c ∧ v.key d = v.key c ∧ (s.stage d).Minds r := by
  rcases relieved with unmapped | used | finished | minded
  · exact absurd mapped unmapped
  · rw [empty] at used
    cases used
  · rw [isOpen] at finished
    cases finished
  · exact minded

theorem isEmpty_without {peer : RosterPeer} {d : Uuid} (other : d ≠ c)
    (here : (room.peers.lookup d).isSome) : (room.without c peer).1.isEmpty = false := by
  apply Room.isEmpty_eq_false
  show ((room.peers.erase c).lookup d).isSome
  rw [AList.lookup_erase_ne other]
  exact here

theorem Tended.handle {a : PodAction} (tended : s.Tended v) (settled : s.Settled v)
    (orderly : s.Orderly v a) (handled : s.Handled v a pod) : pod.Tended v := by
  cases handled with
  | reuse out mine mapped =>
    apply tended.move mine
    · rintro _ ⟨⟩
    · intro r _ _ _ holds
      rw [out] at holds
      exact absurd holds (Stage.not_minds rfl (by rintro ⟨⟩))
    · intro r _ _ holds
      rw [out] at holds
      exact holds.elim
    · rintro _ ⟨⟩
  | create out mine unmapped =>
    exact tended.create settled out mine unmapped (orderly unmapped)
  | @pass c r obtained =>
    apply tended.move (tended.mine (by simp [obtained]))
    · rintro _ ⟨⟩
    · intro r' _ _ _ holds
      rw [obtained] at holds
      exact Or.inl (Or.inl (congrArg some (Stage.eq_of_minds rfl holds)))
    · intro r _ _ holds
      rw [obtained] at holds
      exact holds.elim
    · rintro _ ⟨⟩
  | @fail c r client obtained =>
    apply tended.move (tended.mine (by simp [obtained]))
    · rintro _ ⟨⟩
    · exact fun _ _ _ _ _ => Or.inl (Or.inr rfl)
    · intro r _ _ holds
      rw [obtained] at holds
      exact holds.elim
    · rintro _ ⟨⟩
  | @reject c r stream obtained =>
    apply tended.move (tended.mine (by simp [obtained]))
    · rintro _ ⟨⟩
    · intro r' mapped empty isOpen holds
      rw [obtained] at holds
      obtain rfl := Stage.eq_of_minds rfl holds
      exact Or.inr ((orderly stream r obtained).resolve_unused mapped empty isOpen)
    · intro r _ _ holds
      rw [obtained] at holds
      exact holds.elim
    · rintro _ ⟨⟩
  | @refuse c r checked refused =>
    apply tended.move (tended.mine (by simp [checked]))
    · rintro _ ⟨⟩
    · intro r' mapped empty isOpen holds
      rw [checked] at holds
      obtain rfl := Stage.eq_of_minds rfl holds
      exact Or.inr ((orderly r checked refused).resolve_unused mapped empty isOpen)
    · intro r _ _ holds
      rw [checked] at holds
      exact holds.elim
    · rintro _ ⟨⟩
  | @enter c r g peer checked isOpen still =>
    have awaits : (s.stage c).awaited = some r := by
      rw [checked]
      rfl
    have mapped : s.rooms (v.key c) = some r := by
      rcases ((settled.placed c).awaited r awaits).2 with mapped | finished
      · exact mapped
      · rw [isOpen] at finished
        cases finished
    have open' : ((s.heap r).enter g c peer).1.guard.ended = false := still
    apply tended.setRoom mapped (tended.mine (by simp [checked])) isOpen
    · intro r' holds
      rw [checked] at holds
      exact (Stage.eq_of_minds rfl holds).symm
    · rw [checked]
      exact id
    · exact fun r' joined => (Option.some.inj joined).symm
    · rintro _ ⟨⟩
    · intro _
      apply Room.isEmpty_eq_false (a := c)
      simp [Room.enter]
    · intro finished
      rw [open'] at finished
      cases finished
  | @leave c r peer client inside here others =>
    have joined : (s.stage c).joined = some r := by
      rw [inside]
      rfl
    have isOpen : ((s.heap r).without c peer).1.guard.ended = false := tended.isOpen c r joined
    apply tended.setRoom ((settled.placed c).joined r joined).1 (tended.mine (by simp [inside]))
      (tended.isOpen c r joined)
    · intro r' holds
      rw [inside] at holds
      exact absurd holds (Stage.not_minds rfl (by rintro ⟨⟩))
    · rw [inside]
      exact id
    · rintro _ ⟨⟩
    · rintro _ ⟨⟩
    · exact fun _ => others
    · intro finished
      rw [isOpen] at finished
      cases finished
  | @last c r peer client inside here nobody =>
    have joined : (s.stage c).joined = some r := by
      rw [inside]
      rfl
    apply tended.setRoom ((settled.placed c).joined r joined).1 (tended.mine (by simp [inside]))
      (tended.isOpen c r joined)
    · intro r' holds
      rw [inside] at holds
      exact absurd holds (Stage.not_minds rfl (by rintro ⟨⟩))
    · rw [inside]
      exact id
    · rintro _ ⟨⟩
    · exact fun _ _ => rfl
    · rintro ⟨⟩
    · refine fun _ => ⟨nobody, trivial, rfl, ?_⟩
      intro d other there
      have left : ((s.heap r).without c peer).1.isEmpty = false :=
        isEmpty_without other ((settled.placed d).joined r there).2
      rw [nobody] at left
      cases left
  | @look c r stream inside =>
    apply tended.move (tended.mine (by simp [inside]))
    · rw [inside]
      exact fun _ joined => joined
    · intro r' _ _ _ holds
      rw [inside] at holds
      exact absurd holds (Stage.not_minds rfl (by rintro ⟨⟩))
    · intro r' _ _ holds
      rw [inside] at holds
      exact holds.elim
    · rintro _ ⟨⟩
  | @drop c r peer looked here =>
    have joined : (s.stage c).joined = some r := by
      rw [looked]
      rfl
    have isOpen : ((s.heap r).without c peer).1.guard.ended = false := tended.isOpen c r joined
    obtain ⟨d, other, there⟩ := orderly r r looked
    apply tended.setRoom ((settled.placed c).joined r joined).1 (tended.mine (by simp [looked]))
      (tended.isOpen c r joined)
    · intro r' holds
      rw [looked] at holds
      exact absurd holds (Stage.not_minds rfl (by rintro ⟨⟩))
    · rw [looked]
      exact id
    · rintro _ ⟨⟩
    · rintro _ ⟨⟩
    · exact fun _ => isEmpty_without other there
    · intro finished
      rw [isOpen] at finished
      cases finished
  | @archive c r ending =>
    apply tended.move (tended.mine (by simp [ending]))
    · rintro _ ⟨⟩
    · intro r' _ _ _ holds
      rw [ending] at holds
      exact absurd holds (Stage.not_minds rfl (by rintro ⟨⟩))
    · exact fun _ _ _ _ => trivial
    · rintro _ ⟨⟩
  | @evict c r stage mapped empty next =>
    rcases next with ⟨failing, rfl⟩ | ⟨archived, exiting, rfl⟩
    · exact tended.evict (tended.mine (by simp [failing])) rfl (by rintro _ ⟨⟩)
    · exact tended.evict (tended.mine (by simp [exiting])) rfl (by rintro _ ⟨⟩)
  | @keep c stage used next =>
    have mine : v.origin c ≠ .ingress := by
      rcases next with ⟨failing, -⟩ | ⟨archived, exiting, -⟩
      · exact tended.mine (by simp [failing])
      · exact tended.mine (by simp [exiting])
    apply tended.move mine
    · rcases next with ⟨-, rfl⟩ | ⟨archived, -, rfl⟩
      · rintro _ ⟨⟩
      · rintro _ ⟨⟩
    · intro r mapped empty _ _
      rw [used r mapped] at empty
      cases empty
    · intro r mapped finished _
      have empty := tended.vacant r finished
      rw [used r mapped] at empty
      cases empty
    · rcases next with ⟨-, rfl⟩ | ⟨archived, -, rfl⟩
      · rintro _ ⟨⟩
      · rintro _ ⟨⟩
  | @emit c emptied cleaned =>
    apply tended.move (tended.mine (by simp [cleaned]))
    · rintro _ ⟨⟩
    · intro r' _ _ _ holds
      rw [cleaned] at holds
      exact absurd holds (Stage.not_minds rfl (by rintro ⟨⟩))
    · intro r' _ _ holds
      rw [cleaned] at holds
      exact holds.elim
    · rintro _ ⟨⟩
  | @finish c emptied cleaned =>
    apply tended.move (tended.mine (by simp [cleaned]))
    · rintro _ ⟨⟩
    · intro r' _ _ _ holds
      rw [cleaned] at holds
      exact absurd holds (Stage.not_minds rfl (by rintro ⟨⟩))
    · intro r' _ _ holds
      rw [cleaned] at holds
      exact holds.elim
    · rintro _ ⟨⟩
  | idle => exact tended

end Pod

end Audio
