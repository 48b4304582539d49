import Buzz.Audio.Manager

/-!
# One room for a huddle

A peer is in the room that its key is mapped to, as long as nobody removes an empty room that
another handler is about to let a peer into, and no room that is no longer mapped is opened again.
The flag of an ended room protects a handler that holds it; a room that was never used is removed
without the flag by any handler that fails (`apart_after_cleanup`).
-/
namespace Audio

open Lib Nostr Relay

namespace Pod

/-- No handler is about to let a peer into a room that is not mapped: a room that is removed has
ended or is awaited by no handler, and a room that is opened again is mapped for all that await
it. -/
def Unhurried (v : Visitors) (s : Pod) : PodAction → Prop
  | .cleanup c => ∀ r, s.evicts (v.key c) = some r →
      (s.heap r).guard.ended = true ∨ ∀ d, (s.stage d).awaited ≠ some r
  | .archive c false => ∀ r, s.stage c = .ending r →
      ∀ d, (s.stage d).awaited = some r → s.rooms (v.key d) = some r
  | _ => True

/-- A connection at this stage has a room that is mapped, or ended before its peer is in. -/
structure Placed (s : Pod) (key : RoomKey) (c : Uuid) (stage : Stage) : Prop where
  awaited : ∀ r, stage.awaited = some r →
    r < s.created ∧ (s.rooms key = some r ∨ (s.heap r).guard.ended = true)
  joined : ∀ r, stage.joined = some r →
    s.rooms key = some r ∧ ((s.heap r).peers.lookup c).isSome
  found : ∀ r found, stage = .looked r found → found = r

structure Settled (v : Visitors) (s : Pod) : Prop where
  numbered : ∀ key r, s.rooms key = some r → r < s.created
  placed : ∀ c, s.Placed (v.key c) c (s.stage c)

variable {v : Visitors} {s s' : Pod} {key : RoomKey} {c d : Uuid} {stage : Stage} {r : Nat}
  {room room' : Room}

theorem Placed.of_none (awaits : stage.awaited = none) (inside : stage.joined = none) :
    s.Placed key c stage where
  awaited _ some := by simp [awaits] at some
  joined _ some := by simp [inside] at some
  found _ _ looked := by simp [looked, Stage.joined] at inside

theorem settled_initial : Settled v {} where
  numbered _ _ mapped := by cases mapped
  placed _ := .of_none rfl rfl

theorem Settled.step (settled : Settled v s) (same : s'.stage = s.stage)
    (numbered : ∀ key r, s'.rooms key = some r → r < s'.created)
    (others : ∀ d, d ≠ c → s.Placed (v.key d) d (s.stage d) → s'.Placed (v.key d) d (s.stage d))
    (here : s'.Placed (v.key c) c stage) : Settled v (s'.move c stage) where
  numbered := numbered
  placed d := by
    have placed : s'.Placed (v.key d) d ((s'.move c stage).stage d) := by
      by_cases mine : d = c
      · subst mine
        simpa [move] using here
      · simpa [move, Function.update_of_ne mine, same] using others d mine (settled.placed d)
    exact ⟨placed.awaited, placed.joined, placed.found⟩

theorem Settled.move (settled : Settled v s) (here : s.Placed (v.key c) c stage) :
    Settled v (s.move c stage) :=
  settled.step rfl settled.numbered (fun _ _ placed => placed) here

theorem Placed.setRoom (placed : s.Placed key d stage)
    (ended : stage.awaited = some r → (s.heap r).guard.ended = true →
      s.rooms key = some r ∨ room.guard.ended = true)
    (kept : ((s.heap r).peers.lookup d).isSome → (room.peers.lookup d).isSome) :
    (s.setRoom r room).Placed key d stage where
  awaited r' awaits := by
    obtain ⟨old, mapped | finished⟩ := placed.awaited r' awaits
    · exact ⟨old, Or.inl mapped⟩
    · refine ⟨old, ?_⟩
      by_cases same : r' = r
      · subst same
        simpa [Pod.setRoom] using ended awaits finished
      · exact Or.inr (by simpa [Pod.setRoom, Function.update_of_ne same] using finished)
  joined r' inside := by
    obtain ⟨mapped, member⟩ := placed.joined r' inside
    refine ⟨mapped, ?_⟩
    by_cases same : r' = r
    · subst same
      simpa [Pod.setRoom] using kept member
    · simpa [Pod.setRoom, Function.update_of_ne same] using member
  found := placed.found

/-! ### The steps -/

theorem Settled.getOrCreate (settled : Settled v s) :
    Settled v ((s.getOrCreate (v.key c)).2.move c (.obtained (s.getOrCreate (v.key c)).1)) := by
  unfold Pod.getOrCreate
  split
  next r mapped =>
    apply settled.move
    constructor
    · rintro _ ⟨⟩
      exact ⟨settled.numbered _ r mapped, Or.inl mapped⟩
    · exact fun _ inside => nomatch inside
    · exact fun _ _ looked => nomatch looked
  next unmapped =>
    apply settled.step
    · rfl
    · intro key r mapped
      simp only [Function.update_apply] at mapped
      split at mapped
      · cases mapped
        exact Nat.lt_succ_self _
      · exact Nat.lt_succ_of_lt (settled.numbered key r mapped)
    · -- the others had no room of this key, or an ended one
      intro d _ placed
      have differs : ∀ r, s.rooms (v.key d) = some r → v.key d ≠ v.key c := by
        intro r mapped same
        rw [same, unmapped] at mapped
        cases mapped
      constructor
      · intro r awaits
        obtain ⟨old, which⟩ := placed.awaited r awaits
        refine ⟨Nat.lt_succ_of_lt old, ?_⟩
        simp only [Function.update_of_ne (Nat.ne_of_lt old)]
        rcases which with mapped | finished
        · exact Or.inl (by rw [Function.update_of_ne (differs r mapped)]; exact mapped)
        · exact Or.inr finished
      · intro r inside
        obtain ⟨mapped, member⟩ := placed.joined r inside
        have old := settled.numbered _ r mapped
        simp only [Function.update_of_ne (Nat.ne_of_lt old),
          Function.update_of_ne (differs r mapped)]
        exact ⟨mapped, member⟩
      · exact placed.found
    · constructor
      · rintro _ ⟨⟩
        exact ⟨Nat.lt_succ_self _, Or.inl (Function.update_self ..)⟩
      · exact fun _ inside => nomatch inside
      · exact fun _ _ looked => nomatch looked

theorem admission_eq_ok {index : Option UInt8} (entered : v.admission room c index = .ok room') :
    room.guard.ended = false ∧ ∃ g peer, g.ended = false ∧ room' = (room.enter g c peer).1 := by
  cases index with
  | none =>
    simp only [Visitors.admission] at entered
    cases added : room.addPeer c (v.pubkey c) (v.version c) with
    | error => simp [added, Except.map] at entered
    | ok result =>
      obtain ⟨i, next, delta⟩ := result
      simp only [added, Except.map, Except.ok.injEq] at entered
      subst entered
      exact Room.addPeer_of_ok added
  | some i =>
    simp only [Visitors.admission] at entered
    cases added : room.addPeerAtIndex c (v.pubkey c) (v.version c) i with
    | error => simp [added, Except.map] at entered
    | ok result =>
      obtain ⟨next, delta⟩ := result
      simp only [added, Except.map, Except.ok.injEq] at entered
      subst entered
      exact Room.addPeerAtIndex_of_ok added

theorem Settled.enterRoom (settled : Settled v s) (awaits : (s.stage c).awaited = some r)
    (index : Option UInt8) : Settled v (v.enterRoom s c r index) := by
  unfold Visitors.enterRoom
  split
  next room entered =>
    obtain ⟨isOpen, g, peer, -, rfl⟩ := admission_eq_ok entered
    have mapped : s.rooms (v.key c) = some r := by
      rcases ((settled.placed c).awaited r awaits).2 with mapped | finished
      · exact mapped
      · rw [isOpen] at finished
        cases finished
    apply settled.step
    · rfl
    · exact settled.numbered
    · intro d other placed
      apply placed.setRoom
      · intro _ finished
        rw [isOpen] at finished
        cases finished
      · rw [Room.enter, AList.lookup_insert_ne other]
        exact id
    · constructor
      · rintro _ ⟨⟩
      · rintro _ ⟨⟩
        refine ⟨mapped, ?_⟩
        simp [Pod.setRoom, Room.enter]
      · rintro _ _ ⟨⟩
  next => exact settled.move (.of_none rfl rfl)

theorem removePeer_eq_some {delta : RosterDelta} (removed : room.removePeer c = some (room', delta)) :
    room'.peers = room.peers.erase c ∧
      (room.guard.ended = true → room'.guard.ended = true) := by
  obtain ⟨peer, -, rest⟩ := Option.map_eq_some_iff.mp removed
  cases rest
  exact ⟨rfl, id⟩

theorem removePeerAndCheckEnded_eq_some {delta : RosterDelta} {i : UInt8} {ends : Bool}
    (removed : room.removePeerAndCheckEnded c = some (room', delta, i, ends)) :
    room'.peers = room.peers.erase c ∧
      (room.guard.ended = true → room'.guard.ended = true) := by
  obtain ⟨peer, -, rest⟩ := Option.map_eq_some_iff.mp removed
  simp only [Prod.mk.injEq] at rest
  obtain ⟨rfl, -⟩ := rest
  split
  · exact ⟨rfl, fun _ => rfl⟩
  · exact ⟨rfl, id⟩

theorem Settled.removal (settled : Settled v s)
    (peers : room.peers = (s.heap r).peers.erase c)
    (ended : (s.heap r).guard.ended = true → room.guard.ended = true)
    (awaits : stage.awaited = none) (inside : stage.joined = none) :
    Settled v ((s.setRoom r room).move c stage) := by
  apply settled.step
  · rfl
  · exact settled.numbered
  · intro d other placed
    apply placed.setRoom
    · exact fun _ finished => Or.inr (ended finished)
    · rw [peers, AList.lookup_erase_ne other]
      exact id
  · exact .of_none awaits inside

theorem Settled.clearEnded (settled : Settled v s)
    (mapped : ∀ d, (s.stage d).awaited = some r → s.rooms (v.key d) = some r) :
    Settled v ((s.setRoom r (s.heap r).clearEnded).move c .gone) := by
  apply settled.step
  · rfl
  · exact settled.numbered
  · intro d _ placed
    apply placed.setRoom
    · exact fun awaits _ => Or.inl (mapped d awaits)
    · exact id
  · exact .of_none rfl rfl

theorem Settled.cleanup (settled : Settled v s)
    (unhurried : s.Unhurried v (.cleanup c)) (awaits : stage.awaited = none)
    (inside : stage.joined = none) :
    Settled v ((s.cleanupIfEmpty (v.key c)).2.move c stage) := by
  unfold Pod.cleanupIfEmpty
  split
  next r evicted =>
    obtain ⟨mapped, empty⟩ := Option.filter_eq_some_iff.mp evicted
    apply settled.step
    · rfl
    · intro key r' mapped'
      simp only [Function.update_apply] at mapped'
      split at mapped'
      · cases mapped'
      · exact settled.numbered key r' mapped'
    · intro d _ placed
      constructor
      · intro r' awaits
        obtain ⟨old, which⟩ := placed.awaited r' awaits
        refine ⟨old, ?_⟩
        by_cases same : v.key d = v.key c
        · -- who waits for the room that goes will find that it has ended
          right
          rcases which with mapped' | finished
          · obtain rfl : r' = r := by
              rw [same, mapped] at mapped'
              exact (Option.some.inj mapped').symm
            rcases unhurried r' evicted with finished | unawaited
            · exact finished
            · exact absurd awaits (unawaited d)
          · exact finished
        · simpa only [Function.update_of_ne same] using which
      · intro r' inside
        obtain ⟨mapped', member⟩ := placed.joined r' inside
        have other : v.key d ≠ v.key c := by
          intro same
          rw [same, mapped] at mapped'
          cases mapped'
          rw [Room.lookup_of_isEmpty empty] at member
          cases member
        simp only [Function.update_of_ne other]
        exact ⟨mapped', member⟩
      · exact placed.found
    · exact .of_none awaits inside
  next => exact settled.move (.of_none awaits inside)

theorem Placed.awaiting (placed : s.Placed key c stage) (awaits : stage.awaited = some r)
    {next : Stage} (still : next.awaited = some r) (outside : next.joined = none) :
    s.Placed key c next where
  awaited r' awaits' := by
    rw [still] at awaits'
    cases awaits'
    exact placed.awaited r awaits
  joined _ inside := by simp [outside] at inside
  found _ _ looked := by simp [looked, Stage.joined] at outside

theorem Settled.perform {a : PodAction} (settled : Settled v s) (unhurried : s.Unhurried v a)
    (performed : v.perform s a = some s') : Settled v s' := by
  cases a with
  | getOrCreate c =>
    simp only [Visitors.perform] at performed
    split at performed
    · cases performed
      exact settled.getOrCreate
    · cases performed
  | check c passed =>
    simp only [Visitors.perform] at performed
    split at performed
    next r obtained =>
      cases performed
      apply settled.move
      exact (settled.placed c).awaiting (by rw [obtained]; rfl) rfl rfl
    next r obtained =>
      cases performed
      apply settled.move
      split
      · exact .of_none rfl rfl
      · exact .of_none rfl rfl
    next => cases performed
  | dial c peerIndex =>
    simp only [Visitors.perform] at performed
    split at performed
    next r _ checked =>
      split at performed
      · cases performed
        apply settled.move
        split
        · exact (settled.placed c).awaiting (by rw [checked]; rfl) rfl rfl
        · exact .of_none rfl rfl
      · cases performed
        exact settled.move (.of_none rfl rfl)
    next => cases performed
  | enter c =>
    simp only [Visitors.perform] at performed
    split at performed
    next r _ checked =>
      split at performed
      · cases performed
        exact settled.enterRoom (by rw [checked]; rfl) none
      · cases performed
        exact settled.move (.of_none rfl rfl)
    next r _ checked =>
      cases performed
      exact settled.enterRoom (by rw [checked]; rfl) none
    next r i _ registered =>
      cases performed
      exact settled.enterRoom (by rw [registered]; rfl) (some i)
    next => cases performed
  | leave c =>
    simp only [Visitors.perform] at performed
    split at performed
    next r _ inside =>
      split at performed
      next room delta i ends removed =>
        cases performed
        obtain ⟨peers, ended⟩ := removePeerAndCheckEnded_eq_some removed
        apply settled.removal peers ended
        · split <;> rfl
        · split <;> rfl
      next =>
        cases performed
        exact settled.move (.of_none rfl rfl)
    next r _ inside =>
      split at performed
      next room delta removed =>
        cases performed
        obtain ⟨peers, ended⟩ := removePeer_eq_some removed
        exact settled.removal peers ended rfl rfl
      next =>
        cases performed
        exact settled.move (.of_none rfl rfl)
    next => cases performed
  | lookup c =>
    simp only [Visitors.perform] at performed
    split at performed
    next r _ inside =>
      have here := settled.placed c
      rw [inside] at here
      obtain ⟨mapped, member⟩ := here.joined r rfl
      split at performed
      next found looked =>
        cases performed
        rw [mapped] at looked
        cases looked
        apply settled.move
        constructor
        · exact fun _ awaits => nomatch awaits
        · rintro _ ⟨⟩
          exact ⟨mapped, member⟩
        · rintro _ _ ⟨⟩
          rfl
      next =>
        cases performed
        exact settled.move (.of_none rfl rfl)
    next => cases performed
  | drop c =>
    simp only [Visitors.perform] at performed
    split at performed
    next r found looked =>
      split at performed
      next room delta removed =>
        cases performed
        obtain ⟨peers, ended⟩ := removePeer_eq_some removed
        exact settled.removal peers ended rfl rfl
      next =>
        cases performed
        exact settled.move (.of_none rfl rfl)
    next => cases performed
  | archive c succeeded =>
    simp only [Visitors.perform] at performed
    split at performed
    next =>
      cases performed
      exact settled.move (.of_none rfl rfl)
    next r ending =>
      cases performed
      exact settled.clearEnded (unhurried r ending)
    next => cases performed
  | cleanup c =>
    simp only [Visitors.perform] at performed
    split at performed
    · cases performed
      exact settled.cleanup unhurried rfl rfl
    · cases performed
      exact settled.cleanup unhurried rfl rfl
    · cases performed
  | emitEnded c =>
    simp only [Visitors.perform] at performed
    split at performed
    · cases performed
      exact settled.move (.of_none rfl rfl)
    · cases performed
  | finish c =>
    simp only [Visitors.perform] at performed
    split at performed
    · cases performed
      exact settled.move (.of_none rfl rfl)
    · cases performed
  | idle =>
    cases performed
    exact settled

end Pod

namespace Visitors

variable {v : Visitors}

theorem Run.settled (run : v.Run) (start : run.state 0 = {})
    (unhurried : ∀ n, (run.state n).Unhurried v (run.action n)) (n : Nat) :
    (run.state n).Settled v := by
  induction n with
  | zero =>
    rw [start]
    exact Pod.settled_initial
  | succ n ih => exact ih.perform (unhurried n) (run.steps n)

/-- The peers of one huddle are in one room, the one that their key is mapped to. -/
theorem Run.together (run : v.Run) (start : run.state 0 = {})
    (unhurried : ∀ n, (run.state n).Unhurried v (run.action n)) (n : Nat) {c d : Uuid}
    (same : v.key c = v.key d) {r r' : Nat} (inside : ((run.state n).stage c).joined = some r)
    (other : ((run.state n).stage d).joined = some r') :
    (run.state n).rooms (v.key c) = some r ∧ r' = r ∧
      (((run.state n).heap r).peers.lookup c).isSome ∧
      (((run.state n).heap r).peers.lookup d).isSome := by
  have settled := run.settled start unhurried n
  obtain ⟨mapped, member⟩ := (settled.placed c).joined r inside
  obtain ⟨mapped', member'⟩ := (settled.placed d).joined r' other
  rw [← same, mapped] at mapped'
  cases mapped'
  exact ⟨mapped, rfl, member, member'⟩

end Visitors

namespace Sample

/-- One huddle; dave is a client of another pod. -/
def callers : Visitors where
  key _ := (⟨⟨7⟩⟩, ⟨100⟩)
  origin x := if x = ⟨4⟩ then .stream else .client
  pubkey x := if x = ⟨1⟩ then "alice" else if x = ⟨2⟩ then "bob" else
    if x = ⟨3⟩ then "carol" else "dave"
  version _ := 2

def join (x : Uuid) : List PodAction := [.getOrCreate x, .check x true, .enter x]

/-- Bob's check fails while alice waits for hers. -/
def cleanedUp : callers.Run :=
  .ofList {} (.getOrCreate ⟨1⟩ :: .getOrCreate ⟨2⟩ :: .check ⟨2⟩ false :: .cleanup ⟨2⟩ ::
    .check ⟨1⟩ true :: .enter ⟨1⟩ :: join ⟨3⟩) .idle (by decide) fun _ => rfl

def meetingActions : List PodAction := 
  join ⟨1⟩ ++ join ⟨4⟩ ++ join ⟨2⟩ ++ [PodAction.leave ⟨2⟩, PodAction.cleanup ⟨2⟩]

/-- Alice, dave and bob come, and bob goes. -/
def meeting : callers.Run := .ofList {} meetingActions .idle (by decide) fun _ => rfl

/-- No room is removed or opened again. -/
def Quiet (s : Pod) : PodAction → Prop
  | .cleanup c => s.evicts (callers.key c) = none
  | .archive _ false => False
  | _ => True

instance (s : Pod) (a : PodAction) : Decidable (Quiet s a) :=
  match a with
  | .cleanup c => inferInstanceAs (Decidable (s.evicts (callers.key c) = none))
  | .archive _ false => inferInstanceAs (Decidable False)
  | .archive _ true | .getOrCreate _ | .check .. | .dial .. | .enter _ | .leave _ | .lookup _
  | .drop _ | .emitEnded _ | .finish _ | .idle => inferInstanceAs (Decidable True)

theorem Quiet.unhurried {s : Pod} {a : PodAction} (quiet : Quiet s a) :
    s.Unhurried callers a := by
  cases a with
  | cleanup c =>
    intro r evicted
    cases quiet.symm.trans evicted
  | archive c succeeded =>
    cases succeeded with
    | true => trivial
    | false => exact quiet.elim
  | getOrCreate | check | dial | enter | leave | lookup | drop | emitEnded | finish | idle =>
    trivial

theorem meeting_unhurried (n : Nat) : (meeting.state n).Unhurried callers (meeting.action n) := by
  apply Quiet.unhurried
  apply Trace.forall_ofList (P := Quiet)
  · decide
  · exact fun _ => trivial

end Sample

/-- Alice and dave hear each other. -/
theorem together_alice_dave : (Sample.meeting.state 11).rooms (⟨⟨7⟩⟩, ⟨100⟩) = some 0 ∧
    (((Sample.meeting.state 11).heap 0).peers.lookup ⟨1⟩).isSome ∧
    (((Sample.meeting.state 11).heap 0).peers.lookup ⟨4⟩).isSome := by
  have alice : ((Sample.meeting.state 11).stage ⟨1⟩).joined = some 0 := by decide
  have dave : ((Sample.meeting.state 11).stage ⟨4⟩).joined = some 0 := by decide
  obtain ⟨mapped, -, alice, dave⟩ :=
    Sample.meeting.together rfl Sample.meeting_unhurried 11 rfl alice dave
  exact ⟨mapped, alice, dave⟩

/-- Alice is in a room that nobody finds any more, and carol in another. -/
theorem apart_after_cleanup : ¬ ∀ (v : Visitors) (run : v.Run), run.state 0 = {} →
    ∀ n c d, v.key c = v.key d → ∀ r r', ((run.state n).stage c).joined = some r →
      ((run.state n).stage d).joined = some r' →
      (run.state n).rooms (v.key c) = some r ∧ r' = r := by
  intro together
  have same := together Sample.callers Sample.cleanedUp rfl 9 ⟨1⟩ ⟨3⟩ rfl 0 1
    (by decide) (by decide)
  exact absurd same.2 (by decide)

end Audio
