import Buzz.Audio.Tending

/-!
# What becomes of a huddle

The first peer begins a huddle and the last client to leave ends it; its handler archives the channel
and sends the event, once. After that no client gets into a room of the channel.
-/
namespace Audio

open Lib Nostr Relay

namespace OwnerPod

variable (v : Visitors)

/-- What became of the huddles. -/
structure Told (s : OwnerPod) : Prop where
  begun : ∀ key, 0 < s.joins key → (s.ender key).isSome ∨
    ∃ r, s.pod.rooms key = some r ∧ (s.pod.heap r).isEmpty = false
  visited : ∀ c, (s.pod.stage c).Visited → 0 < s.joins (v.key c)
  closed : ∀ c, (s.ender (v.key c)).isSome → v.origin c = .client →
    (s.pod.stage c).joined = none ∧ ∀ r, (s.pod.stage c).awaited = some r →
      (s.pod.heap r).guard.ended = true ∨
      (s.pod.stage c = .obtained r ∧ 0 < s.archives (v.key c))
  owed : ∀ c, (s.pod.stage c).Owes → s.ender (v.key c) = some c
  due : ∀ key c, s.ender key = some c →
    v.key c = key ∧ (s.archives key, s.ends key) = (s.pod.stage c).due
  early : ∀ key, s.ender key = none → s.archives key = 0 ∧ s.ends key = 0

end OwnerPod

namespace OwnerPod

variable {v : Visitors} {s s' : OwnerPod} {c : Uuid}

theorem told_initial : Told v {} where
  begun _ joined := by cases joined
  visited _ visited := visited.elim
  closed _ finished := by cases finished
  owed _ owes := owes.elim
  due _ _ ended := by cases ended
  early _ _ := ⟨rfl, rfl⟩

theorem Told.step (told : s.Told v) (settled : s.pod.Settled v) {pod : Pod}
    (others : ∀ d, d ≠ c → pod.stage d = s.pod.stage d)
    (used : ∀ key r, s.pod.rooms key = some r → (s.pod.heap r).isEmpty = false →
      ∃ r', pod.rooms key = some r' ∧ (pod.heap r').isEmpty = false)
    (finished : ∀ r, r < s.pod.created → (s.pod.heap r).guard.ended = true →
      (pod.heap r).guard.ended = true)
    (visited : (pod.stage c).Visited → (s.pod.stage c).Visited)
    (closed : (s.ender (v.key c)).isSome → v.origin c = .client →
      (pod.stage c).joined = none ∧ ∀ r, (pod.stage c).awaited = some r →
        (pod.heap r).guard.ended = true ∨
        (pod.stage c = .obtained r ∧ 0 < s.archives (v.key c)))
    (owes : (pod.stage c).Owes → (s.pod.stage c).Owes)
    (due : (pod.stage c).due = (s.pod.stage c).due) : Told v { s with pod } := by
  constructor
  · intro key joined
    rcases told.begun key joined with ended | ⟨r, mapped, peers⟩
    · exact Or.inl ended
    · exact Or.inr (used key r mapped peers)
  · intro d visits
    by_cases here : d = c
    · subst here
      exact told.visited d (visited visits)
    · rw [others d here] at visits
      exact told.visited d visits
  · intro d ended client
    by_cases here : d = c
    · subst here
      exact closed ended client
    · obtain ⟨outside, waits⟩ := told.closed d ended client
      simp only [others d here]
      refine ⟨outside, fun r awaits => ?_⟩
      rcases waits r awaits with ended | unchecked
      · exact Or.inl (finished r ((settled.placed d).awaited r awaits).1 ended)
      · exact Or.inr unchecked
  · intro d owing
    by_cases here : d = c
    · subst here
      exact told.owed d (owes owing)
    · rw [others d here] at owing
      exact told.owed d owing
  · intro key d ended
    obtain ⟨keyed, counted⟩ := told.due key d ended
    refine ⟨keyed, ?_⟩
    by_cases here : d = c
    · subst here
      rw [due]
      exact counted
    · rw [others d here]
      exact counted
  · exact told.early

theorem Told.move (told : s.Told v) (settled : s.pod.Settled v) {stage : Stage}
    (visited : stage.Visited → (s.pod.stage c).Visited)
    (closed : (s.ender (v.key c)).isSome → v.origin c = .client →
      stage.joined = none ∧ ∀ r, stage.awaited = some r → (s.pod.heap r).guard.ended = true ∨
        (stage = .obtained r ∧ 0 < s.archives (v.key c)))
    (owes : stage.Owes → (s.pod.stage c).Owes) (due : stage.due = (s.pod.stage c).due) :
    Told v { s with pod := s.pod.move c stage } := by
  apply told.step (c := c) settled
  · exact fun d other => Pod.stage_move_of_ne _ _ _ other
  · exact fun _ r mapped peers => ⟨r, mapped, peers⟩
  · exact fun _ _ finished => finished
  · rw [Pod.stage_move_self]
    exact visited
  · rw [Pod.stage_move_self]
    exact closed
  · rw [Pod.stage_move_self]
    exact owes
  · rw [Pod.stage_move_self]
    exact due

theorem Told.without (told : s.Told v) (settled : s.pod.Settled v) {r : Nat} {peer : RosterPeer}
    {stage : Stage} (others : ((s.pod.heap r).without c peer).1.isEmpty = false)
    (visited : stage.Visited → (s.pod.stage c).Visited) (joined : stage.joined = none)
    (awaits : stage.awaited = none) (owes : ¬ stage.Owes)
    (due : stage.due = (s.pod.stage c).due) :
    Told v { s with
      pod := (s.pod.setRoom r ((s.pod.heap r).without c peer).1).move c stage } := by
  apply told.step (c := c) settled
  · exact fun d other => Pod.stage_move_of_ne _ _ _ other
  · intro key r' mapped peers
    refine ⟨r', mapped, ?_⟩
    by_cases here : r' = r
    · subst here
      simpa using others
    · simpa [Pod.heap_setRoom_of_ne _ _ _ here] using peers
  · intro r' _ finished
    by_cases here : r' = r
    · subst here
      rw [Pod.heap_move, Pod.heap_setRoom_self]
      exact finished
    · simpa [Pod.heap_setRoom_of_ne _ _ _ here] using finished
  · rw [Pod.stage_move_self]
    exact visited
  · rw [Pod.stage_move_self]
    refine fun _ _ => ⟨joined, fun r' awaits' => ?_⟩
    rw [awaits] at awaits'
    cases awaits'
  · rw [Pod.stage_move_self]
    exact fun owing => absurd owing owes
  · rw [Pod.stage_move_self]
    exact due

theorem Told.create (told : s.Told v) (settled : s.pod.Settled v)
    (out : s.pod.stage c = .outside) (unmapped : s.pod.rooms (v.key c) = none)
    (archived : (s.ender (v.key c)).isSome → 0 < s.archives (v.key c)) :
    Told v { s with pod := (s.pod.getOrCreate (v.key c)).2.move c (.obtained s.pod.created) } := by
  apply told.step (c := c) settled
  · intro d other
    rw [Pod.stage_move_of_ne _ _ _ other]
    simp [Pod.getOrCreate, unmapped]
  · intro key r mapped peers
    have differs : key ≠ v.key c := by
      rintro rfl
      rw [unmapped] at mapped
      cases mapped
    have older := Nat.ne_of_lt (settled.numbered key r mapped)
    refine ⟨r, ?_, ?_⟩
    · simpa [Pod.getOrCreate, unmapped, Function.update_of_ne differs] using mapped
    · simpa [Pod.getOrCreate, unmapped, Function.update_of_ne older] using peers
  · intro r older finished
    simpa [Pod.getOrCreate, unmapped, Function.update_of_ne (Nat.ne_of_lt older)] using finished
  · rw [Pod.stage_move_self]
    exact fun visits => visits.elim
  · intro ended _
    rw [Pod.stage_move_self]
    refine ⟨rfl, fun r awaits => ?_⟩
    cases awaits
    exact Or.inr ⟨rfl, archived ended⟩
  · rw [Pod.stage_move_self]
    exact fun owing => owing.elim
  · rw [Pod.stage_move_self, out]
    rfl

theorem Told.enter (told : s.Told v) (settled : s.pod.Settled v) {r : Nat} {g : AdmissionGuard}
    {peer : RosterPeer} (checked : s.pod.stage c = .checked r)
    (isOpen : (s.pod.heap r).guard.ended = false) :
    Told v { s with
      pod := (s.pod.setRoom r ((s.pod.heap r).enter g c peer).1).move c (.inside r)
      joins := Function.update s.joins (v.key c) (s.joins (v.key c) + 1) } := by
  have awaits : (s.pod.stage c).awaited = some r := by
    rw [checked]
    rfl
  have mapped : s.pod.rooms (v.key c) = some r := by
    rcases ((settled.placed c).awaited r awaits).2 with mapped | finished
    · exact mapped
    · rw [isOpen] at finished
      cases finished
  have peers : ((s.pod.heap r).enter g c peer).1.isEmpty = false := by
    apply Room.isEmpty_eq_false (a := c)
    simp [Room.enter]
  constructor
  · intro key joined
    by_cases here : key = v.key c
    · subst here
      exact Or.inr ⟨r, mapped, by simpa using peers⟩
    · rcases told.begun key (by simpa [Function.update_of_ne here] using joined) with
        ended | ⟨r', mapped', peers'⟩
      · exact Or.inl ended
      · refine Or.inr ⟨r', mapped', ?_⟩
        by_cases same : r' = r
        · subst same
          simpa using peers
        · simpa [Pod.heap_setRoom_of_ne _ _ _ same] using peers'
  · intro d visits
    by_cases same : v.key d = v.key c
    · simp [same]
    · have other : d ≠ c := fun eq => same (congrArg v.key eq)
      rw [Pod.stage_move_of_ne _ _ _ other] at visits
      simpa [Function.update_of_ne same] using told.visited d visits
  · intro d ended client
    by_cases same : d = c
    · -- the huddle has not ended for a client that gets in
      subst same
      rcases (told.closed d ended client).2 r awaits with finished | ⟨obtained, -⟩
      · rw [isOpen] at finished
        cases finished
      · rw [checked] at obtained
        cases obtained
    · obtain ⟨outside, waits⟩ := told.closed d ended client
      rw [Pod.stage_move_of_ne _ _ _ same]
      refine ⟨outside, fun r' awaits' => ?_⟩
      rcases waits r' awaits' with finished | unchecked
      · have other : r' ≠ r := by
          rintro rfl
          rw [isOpen] at finished
          cases finished
        exact Or.inl (by simpa [Pod.heap_setRoom_of_ne _ _ _ other] using finished)
      · exact Or.inr unchecked
  · intro d owing
    have other : d ≠ c := by
      rintro rfl
      rw [Pod.stage_move_self] at owing
      exact owing
    rw [Pod.stage_move_of_ne _ _ _ other] at owing
    exact told.owed d owing
  · intro key d ended
    obtain ⟨keyed, counted⟩ := told.due key d ended
    refine ⟨keyed, ?_⟩
    by_cases same : d = c
    · subst same
      rw [checked] at counted
      rw [Pod.stage_move_self]
      exact counted
    · rw [Pod.stage_move_of_ne _ _ _ same]
      exact counted
  · exact told.early

theorem Told.ongoing (told : s.Told v) {r : Nat} (client : v.origin c = .client)
    (joined : (s.pod.stage c).joined = some r) : s.ender (v.key c) = none := by
  cases ended : s.ender (v.key c) with
  | none => rfl
  | some d =>
    have outside := (told.closed c (by simp [ended]) client).1
    rw [joined] at outside
    cases outside

/-- The last peer leaves, and the huddle ends with its handler. -/
theorem Told.last (told : s.Told v) (settled : s.pod.Settled v) (tended : s.pod.Tended v) {r : Nat}
    {peer : RosterPeer}
    (client : v.origin c = .client) (inside : s.pod.stage c = .inside r)
    (nobody : ((s.pod.heap r).without c peer).1.isEmpty = true) :
    Told v { s with
      pod := (s.pod.setRoom r ((s.pod.heap r).without c peer).1.markEnded).move c (.ending r)
      ender := Function.update s.ender (v.key c) (some c) } := by
  have joined : (s.pod.stage c).joined = some r := by
    rw [inside]
    rfl
  have mapped := ((settled.placed c).joined r joined).1
  have first := told.ongoing client joined
  constructor
  · intro key begun
    by_cases here : key = v.key c
    · subst here
      exact Or.inl (by simp)
    · simp only [Function.update_of_ne here]
      rcases told.begun key begun with ended | ⟨r', mapped', peers⟩
      · exact Or.inl ended
      · -- the room of another key is another room
        have differs : r' ≠ r := by
          rintro rfl
          exact here (tended.single _ _ r' mapped' mapped)
        refine Or.inr ⟨r', mapped', ?_⟩
        simpa [Pod.heap_setRoom_of_ne _ _ _ differs] using peers
  · intro d visits
    by_cases same : d = c
    · subst same
      exact told.visited d (by rw [inside]; trivial)
    · rw [Pod.stage_move_of_ne _ _ _ same] at visits
      exact told.visited d visits
  · intro d ended client'
    by_cases same : d = c
    · subst same
      rw [Pod.stage_move_self]
      exact ⟨rfl, nofun⟩
    · rw [Pod.stage_move_of_ne _ _ _ same]
      by_cases here : v.key d = v.key c
      · constructor
        · rw [Pod.stage_setRoom]
          cases inside' : (s.pod.stage d).joined with
          | none => rfl
          | some r' =>
            obtain ⟨mapped', member⟩ := (settled.placed d).joined r' inside'
            rw [here, mapped] at mapped'
            cases mapped'
            have left : ((s.pod.heap r).without c peer).1.isEmpty = false :=
              Pod.isEmpty_without same member
            rw [nobody] at left
            cases left
        · intro r' awaits
          left
          by_cases this : r' = r
          · subst this
            simp [Room.markEnded]
          · rcases ((settled.placed d).awaited r' awaits).2 with mapped' | finished
            · rw [here, mapped] at mapped'
              exact absurd (Option.some.inj mapped').symm this
            · simpa [Pod.heap_setRoom_of_ne _ _ _ this] using finished
      · simp only [Function.update_of_ne here] at ended
        obtain ⟨outside, waits⟩ := told.closed d ended client'
        refine ⟨outside, fun r' awaits => ?_⟩
        rcases waits r' awaits with finished | unchecked
        · left
          by_cases this : r' = r
          · subst this
            simp [Room.markEnded]
          · simpa [Pod.heap_setRoom_of_ne _ _ _ this] using finished
        · exact Or.inr unchecked
  · intro d owing
    by_cases same : d = c
    · subst same
      simp
    · rw [Pod.stage_move_of_ne _ _ _ same] at owing
      have ended := told.owed d owing
      have differs : v.key d ≠ v.key c := by
        intro eq
        rw [eq, first] at ended
        cases ended
      simpa [Function.update_of_ne differs] using ended
  · intro key d ended
    by_cases here : key = v.key c
    · subst here
      obtain rfl : c = d := by simpa using ended
      obtain ⟨archives, ends⟩ := told.early _ first
      exact ⟨rfl, by simp [archives, ends, Stage.due]⟩
    · simp only [Function.update_of_ne here] at ended
      obtain ⟨keyed, counted⟩ := told.due key d ended
      have other : d ≠ c := by
        rintro rfl
        exact here keyed.symm
      rw [Pod.stage_move_of_ne _ _ _ other]
      exact ⟨keyed, counted⟩
  · intro key none
    have here : key ≠ v.key c := by
      rintro rfl
      simp at none
    exact told.early key (by simpa [Function.update_of_ne here] using none)

theorem Told.count (told : s.Told v) {stage : Stage} {archives ends : RoomKey → Nat}
    (owing : (s.pod.stage c).Owes) (rest : ∀ key, key ≠ v.key c →
      archives key = s.archives key ∧ ends key = s.ends key)
    (more : ∀ key, s.archives key ≤ archives key)
    (counted : (archives (v.key c), ends (v.key c)) = stage.due)
    (visits : (s.pod.stage c).Visited) (joined : stage.joined = none)
    (awaits : stage.awaited = none) :
    Told v { s with pod := s.pod.move c stage, archives, ends } := by
  have ender := told.owed c owing
  constructor
  · exact told.begun
  · intro d visited
    by_cases same : d = c
    · subst same
      exact told.visited d visits
    · rw [Pod.stage_move_of_ne _ _ _ same] at visited
      exact told.visited d visited
  · intro d ended client
    by_cases same : d = c
    · subst same
      rw [Pod.stage_move_self]
      refine ⟨joined, fun r awaits' => ?_⟩
      rw [awaits] at awaits'
      cases awaits'
    · rw [Pod.stage_move_of_ne _ _ _ same]
      obtain ⟨outside, waits⟩ := told.closed d ended client
      refine ⟨outside, fun r awaits' => ?_⟩
      rcases waits r awaits' with finished | ⟨obtained, archived⟩
      · exact Or.inl finished
      · exact Or.inr ⟨obtained, Nat.lt_of_lt_of_le archived (more _)⟩
  · intro d owing'
    by_cases same : d = c
    · subst same
      exact ender
    · rw [Pod.stage_move_of_ne _ _ _ same] at owing'
      exact told.owed d owing'
  · intro key d ended
    by_cases here : key = v.key c
    · subst here
      obtain rfl : c = d := by
        rw [ender] at ended
        exact Option.some.inj ended
      rw [Pod.stage_move_self]
      exact ⟨rfl, counted⟩
    · obtain ⟨keyed, counted'⟩ := told.due key d ended
      have other : d ≠ c := by
        rintro rfl
        exact here keyed.symm
      rw [Pod.stage_move_of_ne _ _ _ other]
      simp only [(rest key here).1, (rest key here).2]
      exact ⟨keyed, counted'⟩
  · intro key none
    have here : key ≠ v.key c := by
      rintro rfl
      rw [ender] at none
      cases none
    simp only [(rest key here).1, (rest key here).2]
    exact told.early key none

theorem Told.congr (told : s.Told v)
    (same : s'.joins = s.joins ∧ s'.archives = s.archives ∧ s'.ends = s.ends ∧ s'.ender = s.ender)
    (pod : s'.pod = s.pod) : s'.Told v := by
  obtain ⟨joins, archives, ends, ender⟩ := same
  constructor
  · rw [joins, ender, pod]
    exact told.begun
  · rw [joins, pod]
    exact told.visited
  · rw [ender, archives, pod]
    exact told.closed
  · rw [ender, pod]
    exact told.owed
  · rw [ender, archives, ends, pod]
    exact told.due
  · rw [ender, archives, ends]
    exact told.early

theorem release_same (session : Uuid) (g : Nat) : (s.release session g).joins = s.joins ∧
    (s.release session g).archives = s.archives ∧ (s.release session g).ends = s.ends ∧
    (s.release session g).ender = s.ender ∧ (s.release session g).pod = s.pod := by
  unfold release
  split
  · split
    · exact ⟨rfl, rfl, rfl, rfl, rfl⟩
    · exact ⟨rfl, rfl, rfl, rfl, rfl⟩
  · exact ⟨rfl, rfl, rfl, rfl, rfl⟩

theorem observe_finish (s : OwnerPod) (pod : Pod) :
    ((v.observe s pod (.finish c)).joins = s.joins ∧
      (v.observe s pod (.finish c)).archives = s.archives ∧
      (v.observe s pod (.finish c)).ends = s.ends ∧
      (v.observe s pod (.finish c)).ender = s.ender) ∧
    (v.observe s pod (.finish c)).pod = s.pod := by
  simp only [Visitors.observe]
  split
  next g _ _ =>
    obtain ⟨joins, archives, ends, ender, same⟩ := release_same (s := s) (v.key c).2 g
    exact ⟨⟨joins, archives, ends, ender⟩, same⟩
  next => exact ⟨⟨rfl, rfl, rfl, rfl⟩, rfl⟩

theorem Told.archived (told : s.Told v) {key : RoomKey} (ended : (s.ender key).isSome)
    (done : ∀ d, v.key d = key → ∀ r, s.pod.stage d ≠ .ending r) : 0 < s.archives key := by
  obtain ⟨d, ender⟩ := Option.isSome_iff_exists.mp ended
  obtain ⟨keyed, counted⟩ := told.due key d ender
  have one : (s.archives key, s.ends key).1 = 1 := by
    rw [counted]
    unfold Stage.due
    split
    next r ending => exact absurd ending (done d keyed r)
    next => rfl
    next => rfl
    next => rfl
  have value : s.archives key = 1 := one
  omega

theorem Told.handle {a : PodAction} {pod : Pod} (told : s.Told v) (settled : s.pod.Settled v)
    (tended : s.pod.Tended v) (orderly : s.pod.Orderly v a) (allowed : v.Allows s a)
    (handled : s.pod.Handled v a pod) : Told v { v.observe s pod a with pod } := by
  cases handled with
  | @reuse c r out mine mapped =>
    apply told.move settled
    · exact fun visits => visits.elim
    · intro ended client
      refine ⟨rfl, fun r' awaits => ?_⟩
      cases awaits
      -- the room has ended, or the archive came before
      cases finished : (s.pod.heap r).guard.ended with
      | true => exact Or.inl rfl
      | false =>
        refine Or.inr ⟨rfl, told.archived ended fun d same r' ending => ?_⟩
        have finished' := tended.closing d r' r ending (by rw [same]; exact mapped)
        rw [finished] at finished'
        cases finished'
    · exact fun owes => owes.elim
    · rw [out]
      rfl
  | @create c out mine unmapped =>
    exact told.create settled out unmapped fun ended => told.archived ended (orderly unmapped)
  | @pass c r obtained =>
    apply told.move settled
    · exact fun visits => visits.elim
    · intro ended client
      refine ⟨rfl, fun r' awaits => ?_⟩
      cases awaits
      have awaited : (s.pod.stage c).awaited = some r := by
        rw [obtained]
        rfl
      rcases (told.closed c ended client).2 r awaited with finished | ⟨-, archived⟩
      · exact Or.inl finished
      · rcases allowed with stream | none
        · rw [client] at stream
          cases stream
        · omega
    · exact fun owes => owes.elim
    · rw [obtained]
      rfl
  | @fail c r client obtained =>
    apply told.move settled
    · exact fun visits => visits.elim
    · exact fun _ _ => ⟨rfl, nofun⟩
    · exact fun owes => owes.elim
    · rw [obtained]
      rfl
  | @reject c r stream obtained =>
    apply told.move settled
    · exact fun visits => visits.elim
    · exact fun _ _ => ⟨rfl, nofun⟩
    · exact fun owes => owes.elim
    · rw [obtained]
      rfl
  | @refuse c r checked refused =>
    simp only [Visitors.observe, Pod.stage_move_self]
    apply told.move settled
    · exact fun visits => visits.elim
    · exact fun _ _ => ⟨rfl, nofun⟩
    · exact fun owes => owes.elim
    · rw [checked]
      rfl
  | @enter c r g peer checked isOpen still =>
    simp only [Visitors.observe, Pod.stage_move_self]
    exact told.enter settled checked isOpen
  | @leave c r peer client inside here others =>
    simp only [Visitors.observe, Pod.stage_move_self]
    apply told.without settled others
    · rw [inside]
      exact fun _ => trivial
    · rfl
    · rfl
    · exact id
    · rw [inside]
      rfl
  | @last c r peer client inside here nobody =>
    simp only [Visitors.observe, Pod.stage_move_self]
    exact told.last settled tended client inside nobody
  | @look c r stream inside =>
    apply told.move settled
    · rw [inside]
      exact fun _ => trivial
    · intro _ client
      rw [client] at stream
      cases stream
    · exact fun owes => owes.elim
    · rw [inside]
      rfl
  | @drop c r peer looked here =>
    obtain ⟨d, other, there⟩ := orderly r r looked
    apply told.without settled (Pod.isEmpty_without other there)
    · exact fun visits => visits.elim
    · rfl
    · rfl
    · exact id
    · rw [looked]
      rfl
  | @archive c r ending =>
    have owing : (s.pod.stage c).Owes := by
      rw [ending]
      trivial
    have counted := (told.due _ c (told.owed c owing)).2
    rw [ending] at counted
    have zero : s.archives (v.key c) = 0 ∧ s.ends (v.key c) = 0 := Prod.mk.inj counted
    simp only [Visitors.observe]
    apply told.count owing
    · exact fun key other => ⟨Function.update_of_ne other .., rfl⟩
    · intro key
      rw [Function.update_apply]
      split
      next same =>
        subst same
        omega
      next => exact Nat.le_refl _
    · simp [zero, Stage.due]
    · rw [ending]
      trivial
    · rfl
    · rfl
  | @evict c r stage mapped empty next =>
    obtain ⟨visits, joined, awaits, owes, due⟩ := Stage.facts_of_cleanup next
    apply told.step (c := c) settled
    · exact fun d other => Pod.stage_move_of_ne _ _ _ other
    · intro key r' mapped' peers
      have differs : key ≠ v.key c := by
        rintro rfl
        rw [mapped] at mapped'
        cases mapped'
        rw [empty] at peers
        cases peers
      refine ⟨r', ?_, peers⟩
      simpa [Function.update_of_ne differs] using mapped'
    · exact fun _ _ finished => finished
    · rw [Pod.stage_move_self]
      exact visits
    · rw [Pod.stage_move_self]
      refine fun _ _ => ⟨joined, fun r' awaits' => ?_⟩
      rw [awaits] at awaits'
      cases awaits'
    · rw [Pod.stage_move_self]
      exact owes
    · rw [Pod.stage_move_self]
      exact due
  | @keep c stage used next =>
    obtain ⟨visits, joined, awaits, owes, due⟩ := Stage.facts_of_cleanup next
    apply told.move settled visits _ owes due
    refine fun _ _ => ⟨joined, fun r' awaits' => ?_⟩
    rw [awaits] at awaits'
    cases awaits'
  | @emit c emptied cleaned =>
    have owing : (s.pod.stage c).Owes := by
      rw [cleaned]
      trivial
    have counted := (told.due _ c (told.owed c owing)).2
    rw [cleaned] at counted
    have one : s.archives (v.key c) = 1 ∧ s.ends (v.key c) = 0 := Prod.mk.inj counted
    simp only [Visitors.observe]
    apply told.count owing
    · exact fun key other => ⟨rfl, Function.update_of_ne other ..⟩
    · exact fun key => Nat.le_refl _
    · simp [one, Stage.due]
    · rw [cleaned]
      trivial
    · rfl
    · rfl
  | @finish c emptied cleaned =>
    obtain ⟨same, pod⟩ := observe_finish (v := v) (c := c) s (s.pod.move c .gone)
    have kept := told.congr same pod
    rw [← pod] at settled cleaned ⊢
    apply kept.move settled
    · exact fun visits => visits.elim
    · exact fun _ _ => ⟨rfl, nofun⟩
    · exact fun owes => owes.elim
    · rw [cleaned]
      rfl
  | idle => exact told

end OwnerPod

end Audio
