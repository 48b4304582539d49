import Buzz.Audio.Ending

/-!
# The end of a huddle

When the last handler has finished, the room is out of the map, the lease is given up and the
channel was archived once, if the steps were orderly and no other community uses the UUID of the
channel. A remote peer that leaves last ends nothing (`left_behind`): the control stream removes it
with `remove_peer`, without the check for the end, the cleanup and the release.
-/
namespace Audio

open Lib Nostr Relay

namespace OwnerPod

variable (v : Visitors)

/-- Until the huddle ends there is one lease, which all that know of it have seen. -/
structure Lone (s : OwnerPod) (key : RoomKey) : Prop where
  cancelled : ∀ e ∈ s.cancelled, e.key ≠ key
  seen : ∀ c g, v.key c = key → (s.ticket c).generation = some g → s.lease key = some g
  entry : ∀ session e, s.entries session = some e → e.key = key → s.lease key = some e.generation
  fresh : ∀ c g, v.key c = key → s.ticket c = .resolved g true →
    ∀ session e, s.entries session = some e → e.key ≠ key
  single : ∀ c d g g', v.key c = key → v.key d = key → s.ticket c = .resolved g true →
    s.ticket d = .resolved g' true → c = d

/-- The room is there for which the lease is held, and somebody is or was in it. -/
def InUse (s : OwnerPod) (e : OwnerEntry) : Prop :=
  ∃ r, s.pod.rooms e.key = some r ∧
    ((s.pod.heap r).isEmpty = false ∨ (s.pod.heap r).guard.ended = true)

/-- A handler is about to release the entry. -/
def Releasing (s : OwnerPod) (e : OwnerEntry) : Prop :=
  ∃ c archived, v.key c = e.key ∧ s.ticket c = .attached e.generation ∧
    s.pod.stage c = .cleaned archived true

/-- An entry of the registry is in use, or about to be released. -/
structure Leased (s : OwnerPod) : Prop where
  client : ∀ c, s.ticket c ≠ .unresolved → v.origin c = .client
  session : ∀ session e, s.entries session = some e → e.key.2 = session ∧ ∃ c, v.key c = e.key
  kept : ∀ session e, s.entries session = some e → s.InUse e ∨ s.Releasing v e
  attached : ∀ c, (s.pod.stage c).Exits → ∃ g, s.ticket c = .attached g
  matched : ∀ c, (s.pod.stage c).Exits → ∀ session e, s.entries session = some e →
    e.key = v.key c → s.ticket c = .attached e.generation
  emptied : ∀ c archived, s.pod.stage c = .cleaned archived true → (s.ender (v.key c)).isSome
  lone : ∀ key, s.ender key = none → s.Lone v key

variable {v} {s s' : OwnerPod} {c : Uuid}

theorem leased_initial : Leased v {} where
  client _ other := absurd rfl other
  session _ _ entry := by cases entry
  kept _ _ entry := by cases entry
  attached _ exits := exits.elim
  matched _ exits := exits.elim
  emptied _ _ cleaned := by cases cleaned
  lone _ _ := {
    cancelled := nofun
    seen := fun _ _ _ seen => by cases seen
    entry := fun _ _ entry => by cases entry
    fresh := fun _ _ _ ticket => by cases ticket
    single := fun _ _ _ _ _ _ ticket => by cases ticket }

theorem Leased.step (leased : s.Leased v)
    (same : s'.ticket = s.ticket ∧ s'.lease = s.lease ∧ s'.entries = s.entries ∧
      s'.cancelled = s.cancelled)
    (ender : ∀ key, s'.ender key = none → s.ender key = none)
    (others : ∀ d, d ≠ c → s'.pod.stage d = s.pod.stage d)
    (exits : (s'.pod.stage c).Exits → (s.pod.stage c).Exits ∨
      (s.ender (v.key c) = none ∧ ∃ g, s.ticket c = .attached g))
    (kept : ∀ session e, s.entries session = some e → s.InUse e → s'.InUse e ∨ s'.Releasing v e)
    (cleaned : ∀ archived, s.pod.stage c = .cleaned archived true →
      ∃ archived', s'.pod.stage c = .cleaned archived' true)
    (emptied : ∀ archived, s'.pod.stage c = .cleaned archived true →
      (s'.ender (v.key c)).isSome) : s'.Leased v := by
  obtain ⟨ticket, lease, entries, cancelled⟩ := same
  have still : ∀ key, (s.ender key).isSome → (s'.ender key).isSome := by
    intro key ended
    cases hasEnded : s'.ender key with
    | some _ => rfl
    | none =>
      rw [ender key hasEnded] at ended
      cases ended
  have exits' : ∀ d, (s'.pod.stage d).Exits → (s.pod.stage d).Exits ∨
      (s.ender (v.key d) = none ∧ ∃ g, s.ticket d = .attached g) := by
    intro d leaves
    by_cases here : d = c
    · subst here
      exact exits leaves
    · rw [others d here] at leaves
      exact Or.inl leaves
  constructor
  · rw [ticket]
    exact leased.client
  · rw [entries]
    exact leased.session
  · intro session e entry
    rw [entries] at entry
    rcases leased.kept session e entry with used | ⟨d, archived, keyed, has, last⟩
    · exact kept session e entry used
    · right
      by_cases here : d = c
      · subst here
        obtain ⟨archived', last'⟩ := cleaned archived last
        exact ⟨d, archived', keyed, by rw [ticket]; exact has, last'⟩
      · exact ⟨d, archived, keyed, by rw [ticket]; exact has, by rw [others d here]; exact last⟩
  · intro d leaves
    rw [ticket]
    rcases exits' d leaves with before | ⟨-, has⟩
    · exact leased.attached d before
    · exact has
  · intro d leaves session e entry keyed
    rw [entries] at entry
    rw [ticket]
    rcases exits' d leaves with before | ⟨ongoing, g, has⟩
    · exact leased.matched d before session e entry keyed
    · -- both have the generation of the one lease
      have lone := leased.lone _ ongoing
      have mine := lone.seen d g rfl (by rw [has]; rfl)
      have its := lone.entry session e entry keyed
      rw [mine] at its
      rw [has, Option.some.inj its]
  · intro d archived last
    by_cases here : d = c
    · subst here
      exact emptied archived last
    · rw [others d here] at last
      exact still _ (leased.emptied d archived last)
  · intro key none
    have lone := leased.lone key (ender key none)
    constructor
    · rw [cancelled]
      exact lone.cancelled
    · rw [ticket, lease]
      exact lone.seen
    · rw [entries, lease]
      exact lone.entry
    · rw [ticket, entries]
      exact lone.fresh
    · rw [ticket]
      exact lone.single

theorem Leased.move (leased : s.Leased v) {stage : Stage} {archives ends : RoomKey → Nat}
    (exits : stage.Exits → (s.pod.stage c).Exits)
    (cleaned : ∀ archived, s.pod.stage c = .cleaned archived true →
      ∃ archived', stage = .cleaned archived' true)
    (emptied : ∀ archived, stage = .cleaned archived true → (s.ender (v.key c)).isSome) :
    Leased v { s with pod := s.pod.move c stage, archives, ends } := by
  apply leased.step (c := c)
  · exact ⟨rfl, rfl, rfl, rfl⟩
  · exact fun _ none => none
  · exact fun d other => Pod.stage_move_of_ne _ _ _ other
  · rw [Pod.stage_move_self]
    exact fun leaves => Or.inl (exits leaves)
  · exact fun _ _ _ used => Or.inl used
  · rw [Pod.stage_move_self]
    exact cleaned
  · rw [Pod.stage_move_self]
    exact emptied

theorem Leased.setRoom (leased : s.Leased v) {stage : Stage} {r : Nat} {room : Room}
    {joins : RoomKey → Nat} {ender : RoomKey → Option Uuid}
    (inUse : room.isEmpty = false ∨ room.guard.ended = true)
    (later : ∀ key, ender key = none → s.ender key = none)
    (exits : stage.Exits → s.ender (v.key c) = none ∧ ∃ g, s.ticket c = .attached g)
    (cleaned : ∀ archived, s.pod.stage c ≠ .cleaned archived true)
    (emptied : ∀ archived, stage ≠ .cleaned archived true) :
    Leased v { s with pod := (s.pod.setRoom r room).move c stage, joins, ender } := by
  apply leased.step (c := c)
  · exact ⟨rfl, rfl, rfl, rfl⟩
  · exact later
  · exact fun d other => Pod.stage_move_of_ne _ _ _ other
  · rw [Pod.stage_move_self]
    exact fun leaves => Or.inr (exits leaves)
  · rintro session e entry ⟨r', mapped, used⟩
    refine Or.inl ⟨r', mapped, ?_⟩
    by_cases here : r' = r
    · subst here
      simpa using inUse
    · simpa [Pod.heap_setRoom_of_ne _ _ _ here] using used
  · exact fun archived last => absurd last (cleaned archived)
  · rw [Pod.stage_move_self]
    exact fun archived last => absurd last (emptied archived)

theorem Leased.create (leased : s.Leased v) (settled : s.pod.Settled v)
    (out : s.pod.stage c = .outside) (unmapped : s.pod.rooms (v.key c) = none) :
    Leased v { s with
      pod := (s.pod.getOrCreate (v.key c)).2.move c (.obtained s.pod.created) } := by
  apply leased.step (c := c)
  · exact ⟨rfl, rfl, rfl, rfl⟩
  · exact fun _ none => none
  · intro d other
    rw [Pod.stage_move_of_ne _ _ _ other]
    simp [Pod.getOrCreate, unmapped]
  · rw [Pod.stage_move_self]
    exact fun leaves => leaves.elim
  · rintro session e entry ⟨r, mapped, used⟩
    have differs : e.key ≠ v.key c := by
      intro same
      rw [same, unmapped] at mapped
      cases mapped
    have older := Nat.ne_of_lt (settled.numbered _ r mapped)
    refine Or.inl ⟨r, ?_, ?_⟩
    · simpa [Pod.getOrCreate, unmapped, Function.update_of_ne differs] using mapped
    · simpa [Pod.getOrCreate, unmapped, Function.update_of_ne older] using used
  · rw [out]
    rintro _ ⟨⟩
  · rw [Pod.stage_move_self]
    rintro _ ⟨⟩

theorem Leased.evict (leased : s.Leased v) (told : s.Told v) {r : Nat} {stage : Stage}
    (mapped : s.pod.rooms (v.key c) = some r) (empty : (s.pod.heap r).isEmpty = true)
    (leaver : (s.pod.heap r).guard.ended = true → s.pod.stage c ≠ .failing)
    (next : (s.pod.stage c = .failing ∧ stage = .gone) ∨
      ∃ archived, s.pod.stage c = .exiting archived ∧ stage = .cleaned archived true) :
    Leased v { s with
      pod := Pod.move { s.pod with
        rooms := Function.update s.pod.rooms (v.key c) none } c stage } := by
  apply leased.step (c := c)
  · exact ⟨rfl, rfl, rfl, rfl⟩
  · exact fun _ none => none
  · exact fun d other => Pod.stage_move_of_ne _ _ _ other
  · rw [Pod.stage_move_self]
    rcases next with ⟨-, rfl⟩ | ⟨archived, exiting, rfl⟩
    · exact fun leaves => leaves.elim
    · rw [exiting]
      exact Or.inl
  · rintro session e entry ⟨r', mapped', used⟩
    by_cases here : e.key = v.key c
    · -- the room was in use because it had ended
      right
      rw [here, mapped] at mapped'
      cases mapped'
      have hasEnded : (s.pod.heap r).guard.ended = true := by
        rcases used with peers | hasEnded
        · rw [empty] at peers
          cases peers
        · exact hasEnded
      rcases next with ⟨failing, -⟩ | ⟨archived, exiting, rfl⟩
      · exact absurd failing (leaver hasEnded)
      · refine ⟨c, archived, here.symm, ?_, Pod.stage_move_self ..⟩
        exact leased.matched c (by rw [exiting]; trivial) session e entry here
    · left
      refine ⟨r', ?_, used⟩
      simpa [Function.update_of_ne here] using mapped'
  · intro archived last
    rcases next with ⟨failing, -⟩ | ⟨archived', exiting, -⟩
    · rw [failing] at last
      cases last
    · rw [exiting] at last
      cases last
  · intro archived last
    rw [Pod.stage_move_self] at last
    rcases next with ⟨-, rfl⟩ | ⟨archived', exiting, -⟩
    · cases last
    · -- somebody was in the room, and nobody is: the huddle has ended
      have began := told.visited c (by rw [exiting]; trivial)
      rcases told.begun _ began with ended | ⟨r', mapped', peers⟩
      · exact ended
      · rw [mapped] at mapped'
        cases mapped'
        rw [empty] at peers
        cases peers

theorem entries_release {session session' : Uuid} {g : Nat} {e : OwnerEntry}
    (entry : (s.release session g).entries session' = some e) :
    s.entries session' = some e ∧ (session' = session → e.generation ≠ g) := by
  unfold release at entry
  split at entry
  next e' found =>
    split at entry
    next =>
      simp only [Function.update_apply] at entry
      split at entry
      · cases entry
      next other => exact ⟨entry, fun same => absurd same other⟩
    next differs =>
      refine ⟨entry, ?_⟩
      rintro rfl
      cases found.symm.trans entry
      exact differs
  next nothing =>
    refine ⟨entry, ?_⟩
    rintro rfl
    cases nothing.symm.trans entry

theorem mem_cancelled_release {session : Uuid} {g : Nat} {e : OwnerEntry}
    (member : e ∈ (s.release session g).cancelled) :
    e ∈ s.cancelled ∨ s.entries session = some e := by
  unfold release at member
  split at member
  next e' found =>
    split at member
    · rcases List.mem_cons.mp member with rfl | before
      · exact Or.inr found
      · exact Or.inl before
    · exact Or.inl member
  next => exact Or.inl member

theorem release_directory (session : Uuid) (g : Nat) :
    (s.release session g).ticket = s.ticket ∧ (s.release session g).lease = s.lease := by
  unfold release
  split
  · split
    · exact ⟨rfl, rfl⟩
    · exact ⟨rfl, rfl⟩
  · exact ⟨rfl, rfl⟩

theorem Leased.release (leased : s.Leased v) {g : Nat} {archived : Bool}
    (cleaned : s.pod.stage c = .cleaned archived true) (mine : s.ticket c = .attached g)
    (unshared : ∀ c d, (v.key c).2 = (v.key d).2 → v.key c = v.key d) :
    Leased v { s.release (v.key c).2 g with pod := s.pod.move c .gone } := by
  obtain ⟨ticket, lease⟩ := release_directory (s := s) (v.key c).2 g
  obtain ⟨-, -, -, ender, -⟩ := release_same (s := s) (v.key c).2 g
  have leaves : ∀ d, ((s.pod.move c .gone).stage d).Exits → d ≠ c ∧ (s.pod.stage d).Exits := by
    intro d exits
    have other : d ≠ c := by
      rintro rfl
      rw [Pod.stage_move_self] at exits
      exact exits
    rw [Pod.stage_move_of_ne _ _ _ other] at exits
    exact ⟨other, exits⟩
  constructor
  · intro d
    show (s.release (v.key c).2 g).ticket d ≠ .unresolved → _
    rw [ticket]
    exact leased.client d
  · exact fun session e entry => leased.session session e (entries_release entry).1
  · intro session e entry
    obtain ⟨before, differs⟩ := entries_release entry
    rcases leased.kept session e before with used | ⟨d, archived', keyed, has, last⟩
    · exact Or.inl used
    · have other : d ≠ c := by
        rintro rfl
        rw [mine] at has
        cases has
        exact differs ((leased.session session e before).1.symm.trans (by rw [keyed])) rfl
      refine Or.inr ⟨d, archived', keyed, ?_, ?_⟩
      · show (s.release (v.key c).2 g).ticket d = _
        rw [ticket]
        exact has
      · show (s.pod.move c .gone).stage d = _
        rw [Pod.stage_move_of_ne _ _ _ other]
        exact last
  · intro d exits
    show ∃ g', (s.release (v.key c).2 g).ticket d = _
    rw [ticket]
    exact leased.attached d (leaves d exits).2
  · intro d exits session e entry keyed
    show (s.release (v.key c).2 g).ticket d = _
    rw [ticket]
    exact leased.matched d (leaves d exits).2 session e (entries_release entry).1 keyed
  · intro d archived' last
    have other : d ≠ c := by
      rintro rfl
      simp at last
    show ((s.release (v.key c).2 g).ender (v.key d)).isSome
    rw [ender]
    rw [Pod.stage_move_of_ne _ _ _ other] at last
    exact leased.emptied d archived' last
  · intro key none
    have ongoing : s.ender key = Option.none := by
      rw [← ender]
      exact none
    have lone := leased.lone key ongoing
    constructor
    · intro e member
      rcases mem_cancelled_release member with before | released
      · exact lone.cancelled e before
      · -- the huddle of the entry has ended
        obtain ⟨session, d, keyed⟩ := leased.session _ e released
        rintro rfl
        have same : v.key d = v.key c := unshared d c (by rw [keyed, session])
        have ended := leased.emptied c archived cleaned
        rw [← same, keyed, ongoing] at ended
        cases ended
    · show ∀ d g', _ → ((s.release (v.key c).2 g).ticket d).generation = _ →
        (s.release (v.key c).2 g).lease key = _
      rw [ticket, lease]
      exact lone.seen
    · intro session e entry keyed
      show (s.release (v.key c).2 g).lease key = _
      rw [lease]
      exact lone.entry session e (entries_release entry).1 keyed
    · intro d g' keyed has session e entry
      refine lone.fresh d g' keyed ?_ session e (entries_release entry).1
      rw [← ticket]
      exact has
    · show ∀ d d' g' g'', _ → _ → (s.release (v.key c).2 g).ticket d = _ →
        (s.release (v.key c).2 g).ticket d' = _ → _
      rw [ticket]
      exact lone.single

theorem Leased.finish (leased : s.Leased v) {emptied : Bool}
    (cleaned : s.pod.stage c = .cleaned false emptied)
    (unshared : ∀ c d, (v.key c).2 = (v.key d).2 → v.key c = v.key d) :
    Leased v { v.observe s (s.pod.move c .gone) (.finish c) with pod := s.pod.move c .gone } := by
  obtain ⟨g, ticket⟩ := leased.attached c (by rw [cleaned]; trivial)
  cases emptied with
  | true =>
    simp only [Visitors.observe, cleaned, ticket]
    exact leased.release cleaned ticket unshared
  | false =>
    simp only [Visitors.observe, cleaned]
    apply leased.move
    · exact fun leaves => leaves.elim
    · rw [cleaned]
      rintro _ ⟨⟩
    · rintro _ ⟨⟩

theorem Leased.handle {a : PodAction} {pod : Pod} (leased : s.Leased v)
    (settled : s.pod.Settled v) (told : s.Told v) (orderly : s.pod.Orderly v a)
    (allowed : v.Allows s a) (unshared : ∀ c d, (v.key c).2 = (v.key d).2 → v.key c = v.key d)
    (handled : s.pod.Handled v a pod) : Leased v { v.observe s pod a with pod } := by
  cases handled with
  | @reuse c r out mine mapped =>
    apply leased.move
    · exact fun leaves => leaves.elim
    · rw [out]
      rintro _ ⟨⟩
    · rintro _ ⟨⟩
  | @create c out mine unmapped => exact leased.create settled out unmapped
  | @pass c r obtained | @fail c r client obtained | @reject c r stream obtained =>
    apply leased.move
    · exact fun leaves => leaves.elim
    · rw [obtained]
      rintro _ ⟨⟩
    · rintro _ ⟨⟩
  | @refuse c r checked refused =>
    simp only [Visitors.observe, Pod.stage_move_self]
    apply leased.move
    · exact fun leaves => leaves.elim
    · rw [checked]
      rintro _ ⟨⟩
    · rintro _ ⟨⟩
  | @enter c r g peer checked isOpen still =>
    simp only [Visitors.observe, Pod.stage_move_self]
    apply leased.setRoom
    · left
      apply Room.isEmpty_eq_false (a := c)
      simp [Room.enter]
    · exact fun _ none => none
    · exact fun leaves => leaves.elim
    · rw [checked]
      rintro _ ⟨⟩
    · rintro _ ⟨⟩
  | @leave c r peer client inside here others =>
    simp only [Visitors.observe, Pod.stage_move_self]
    apply leased.setRoom (Or.inl others)
    · exact fun _ none => none
    · refine fun _ => ⟨told.ongoing client (by rw [inside]; rfl), ?_⟩
      simp only [Visitors.Allows] at allowed
      split at allowed
      next g ticket => exact ⟨g, ticket⟩
      next => exact allowed.elim
    · rw [inside]
      rintro _ ⟨⟩
    · rintro _ ⟨⟩
  | @last c r peer client inside here nobody =>
    simp only [Visitors.observe, Pod.stage_move_self]
    apply leased.setRoom (Or.inr rfl)
    · intro key none
      rw [Function.update_apply] at none
      split at none
      · cases none
      · exact none
    · refine fun _ => ⟨told.ongoing client (by rw [inside]; rfl), ?_⟩
      simp only [Visitors.Allows] at allowed
      split at allowed
      next g ticket => exact ⟨g, ticket⟩
      next => exact allowed.elim
    · rw [inside]
      rintro _ ⟨⟩
    · rintro _ ⟨⟩
  | @look c r stream inside =>
    apply leased.move
    · exact fun leaves => leaves.elim
    · rw [inside]
      rintro _ ⟨⟩
    · rintro _ ⟨⟩
  | @drop c r peer looked here =>
    obtain ⟨d, other, there⟩ := orderly r r looked
    apply leased.setRoom (Or.inl (Pod.isEmpty_without other there))
    · exact fun _ none => none
    · exact fun leaves => leaves.elim
    · rw [looked]
      rintro _ ⟨⟩
    · rintro _ ⟨⟩
  | @archive c r ending =>
    simp only [Visitors.observe]
    apply leased.move
    · rw [ending]
      exact fun _ => trivial
    · rw [ending]
      rintro _ ⟨⟩
    · rintro _ ⟨⟩
  | @evict c r stage mapped empty next =>
    apply leased.evict told mapped empty _ next
    intro hasEnded
    have evicted : s.pod.evicts (v.key c) = some r :=
      Option.filter_eq_some_iff.mpr ⟨mapped, empty⟩
    have leaver := orderly r evicted
    rw [if_pos hasEnded] at leaver
    exact leaver
  | @keep c stage used next =>
    apply leased.move
    · rcases next with ⟨-, rfl⟩ | ⟨archived, exiting, rfl⟩
      · exact fun leaves => leaves.elim
      · rw [exiting]
        exact id
    · intro archived' last
      rcases next with ⟨failing, -⟩ | ⟨archived, exiting, -⟩
      · rw [failing] at last
        cases last
      · rw [exiting] at last
        cases last
    · rcases next with ⟨-, rfl⟩ | ⟨archived, -, rfl⟩
      · rintro _ ⟨⟩
      · rintro _ ⟨⟩
  | @emit c emptied cleaned =>
    simp only [Visitors.observe]
    apply leased.move
    · rw [cleaned]
      exact fun _ => trivial
    · intro archived last
      rw [cleaned] at last
      cases last
      exact ⟨false, rfl⟩
    · intro archived last
      cases last
      exact leased.emptied c true cleaned
  | @finish c emptied cleaned => exact leased.finish cleaned unshared
  | idle => exact leased

/-! ### The tickets -/

theorem Leased.setTicket (leased : s.Leased v) {ticket : Ticket} {lease : RoomKey → Option Nat}
    {generation : RoomKey → Nat} (client : v.origin c = .client)
    (unattached : ∀ g, s.ticket c ≠ .attached g)
    (lone : s.ender (v.key c) = none → Lone v { s.setTicket c ticket with lease, generation } (v.key c))
    (others : ∀ key, key ≠ v.key c → lease key = s.lease key) :
    Leased v { s.setTicket c ticket with lease, generation } := by
  have same : ∀ d g, s.ticket d = .attached g → (s.setTicket c ticket).ticket d = .attached g := by
    intro d g has
    have other : d ≠ c := by
      rintro rfl
      exact unattached g has
    simpa [OwnerPod.setTicket, Function.update_of_ne other] using has
  constructor
  · intro d resolved
    by_cases here : d = c
    · subst here
      exact client
    · exact leased.client d (by simpa [OwnerPod.setTicket, Function.update_of_ne here] using resolved)
  · exact leased.session
  · intro session e entry
    rcases leased.kept session e entry with used | ⟨d, archived, keyed, has, last⟩
    · exact Or.inl used
    · exact Or.inr ⟨d, archived, keyed, same d _ has, last⟩
  · intro d exits
    obtain ⟨g, has⟩ := leased.attached d exits
    exact ⟨g, same d g has⟩
  · intro d exits session e entry keyed
    exact same d _ (leased.matched d exits session e entry keyed)
  · exact leased.emptied
  · intro key none
    by_cases here : key = v.key c
    · subst here
      exact lone none
    · have before := leased.lone key none
      have unchanged : ∀ d, v.key d = key → (s.setTicket c ticket).ticket d = s.ticket d := by
        intro d keyed
        have other : d ≠ c := by
          rintro rfl
          exact here keyed.symm
        simp [OwnerPod.setTicket, Function.update_of_ne other]
      constructor
      · exact before.cancelled
      · intro d g keyed seen
        show lease key = some g
        rw [others key here]
        exact before.seen d g keyed (by rw [← unchanged d keyed]; exact seen)
      · intro session e entry keyed
        show lease key = _
        rw [others key here]
        exact before.entry session e entry keyed
      · intro d g keyed has
        exact before.fresh d g keyed (by rw [← unchanged d keyed]; exact has)
      · intro d d' g g' keyed keyed' has has'
        exact before.single d d' g g' keyed keyed' (by rw [← unchanged d keyed]; exact has)
          (by rw [← unchanged d' keyed']; exact has')

theorem Lone.setTicket {key : RoomKey} {ticket : Ticket} (lone : s.Lone v key)
    (seen : ∀ g, v.key c = key → ticket.generation = some g → s.lease key = some g)
    (given : ∀ g, ticket ≠ .resolved g true) : Lone v (s.setTicket c ticket) key := by
  have earlier : ∀ d g, (s.setTicket c ticket).ticket d = .resolved g true →
      s.ticket d = .resolved g true := by
    intro d g has
    have other : d ≠ c := by
      rintro rfl
      exact given g (by simpa [OwnerPod.setTicket] using has)
    simpa [OwnerPod.setTicket, Function.update_of_ne other] using has
  constructor
  · exact lone.cancelled
  · intro d g keyed has
    by_cases here : d = c
    · subst here
      exact seen g keyed (by simpa [OwnerPod.setTicket] using has)
    · exact lone.seen d g keyed (by simpa [OwnerPod.setTicket, Function.update_of_ne here] using has)
  · exact lone.entry
  · exact fun d g keyed has => lone.fresh d g keyed (earlier d g has)
  · exact fun d d' g g' keyed keyed' has has' =>
      lone.single d d' g g' keyed keyed' (earlier d g has) (earlier d' g' has')

theorem Lone.acquire {g : Nat} {generation : RoomKey → Nat} (lone : s.Lone v (v.key c))
    (free : s.lease (v.key c) = none) :
    Lone v { s.setTicket c (.resolved g true) with
      lease := Function.update s.lease (v.key c) (some g)
      generation } (v.key c) := by
  have nobody : ∀ d, v.key d = v.key c → (s.ticket d).generation = none := by
    intro d keyed
    cases seen : (s.ticket d).generation with
    | none => rfl
    | some g' =>
      have held := lone.seen d g' keyed seen
      rw [free] at held
      cases held
  have unlisted : ∀ session e, s.entries session = some e → e.key ≠ v.key c := by
    intro session e entry keyed
    have held := lone.entry session e entry keyed
    rw [free] at held
    cases held
  have only : ∀ d g', v.key d = v.key c →
      (s.setTicket c (.resolved g true)).ticket d = .resolved g' true → d = c := by
    intro d g' keyed has
    by_contra other
    have before : s.ticket d = .resolved g' true := by
      simpa [OwnerPod.setTicket, Function.update_of_ne other] using has
    have none := nobody d keyed
    rw [before] at none
    cases none
  constructor
  · exact lone.cancelled
  · intro d g' keyed seen
    by_cases here : d = c
    · subst here
      simpa [OwnerPod.setTicket, Ticket.generation] using seen
    · have before : (s.ticket d).generation = some g' := by
        simpa [OwnerPod.setTicket, Function.update_of_ne here] using seen
      rw [nobody d keyed] at before
      cases before
  · exact fun session e entry keyed => absurd keyed (unlisted session e entry)
  · exact fun _ _ _ _ session e entry => unlisted session e entry
  · exact fun d d' g' g'' keyed keyed' has has' =>
      (only d g' keyed has).trans (only d' g'' keyed' has').symm

theorem Leased.attach (leased : s.Leased v) (settled : s.pod.Settled v) (told : s.Told v) {r g : Nat}
    (unshared : ∀ c d, (v.key c).2 = (v.key d).2 → v.key c = v.key d)
    (inside : s.pod.stage c = .inside r) (ticket : s.ticket c = .resolved g true) :
    Leased v ((s.attachSignals (v.key c).2 ⟨v.key c, g⟩).setTicket c (.attached g)) := by
  have client := leased.client c (by simp [ticket])
  have joined : (s.pod.stage c).joined = some r := by
    rw [inside]
    rfl
  have lone := leased.lone _ (told.ongoing client joined)
  have held := lone.seen c g rfl (by rw [ticket]; rfl)
  have free : s.entries (v.key c).2 = none := by
    cases entry : s.entries (v.key c).2 with
    | none => rfl
    | some e =>
      obtain ⟨session, d, keyed⟩ := leased.session _ e entry
      have same : e.key = v.key c := by
        rw [← keyed]
        exact unshared d c (by rw [keyed, session])
      exact absurd same (lone.fresh c g rfl ticket _ e entry)
  have installed : s.attachSignals (v.key c).2 ⟨v.key c, g⟩ = { s with
      entries := Function.update s.entries (v.key c).2 (some ⟨v.key c, g⟩) } := by
    simp only [attachSignals, free]
  rw [installed]
  -- an entry is the new one, or was there
  have listed : ∀ session e, Function.update s.entries (v.key c).2 (some ⟨v.key c, g⟩) session = some e →
      (session = (v.key c).2 ∧ e = ⟨v.key c, g⟩) ∨ s.entries session = some e := by
    intro session e entry
    rw [Function.update_apply] at entry
    split at entry
    next same =>
      cases entry
      exact Or.inl ⟨same, rfl⟩
    next => exact Or.inr entry
  have same : ∀ d g', s.ticket d = .attached g' →
      Function.update s.ticket c (.attached g) d = .attached g' := by
    intro d g' has
    have other : d ≠ c := by
      rintro rfl
      rw [ticket] at has
      cases has
    simpa [Function.update_of_ne other] using has
  have earlier : ∀ d g', Function.update s.ticket c (.attached g) d = .resolved g' true →
      d ≠ c ∧ s.ticket d = .resolved g' true := by
    intro d g' has
    rw [Function.update_apply] at has
    split at has
    · cases has
    next other => exact ⟨other, has⟩
  constructor
  · intro d resolved
    by_cases here : d = c
    · subst here
      exact client
    · exact leased.client d (by simpa [OwnerPod.setTicket, Function.update_of_ne here] using resolved)
  · intro session e entry
    rcases listed session e entry with ⟨rfl, rfl⟩ | before
    · exact ⟨rfl, c, rfl⟩
    · exact leased.session session e before
  · intro session e entry
    rcases listed session e entry with ⟨-, rfl⟩ | before
    · obtain ⟨mapped, member⟩ := (settled.placed c).joined r joined
      exact Or.inl ⟨r, mapped, Or.inl (Room.isEmpty_eq_false member)⟩
    · rcases leased.kept session e before with used | ⟨d, archived, keyed, has, last⟩
      · exact Or.inl used
      · exact Or.inr ⟨d, archived, keyed, same d _ has, last⟩
  · intro d exits
    obtain ⟨g', has⟩ := leased.attached d exits
    exact ⟨g', same d g' has⟩
  · intro d exits session e entry keyed
    rcases listed session e entry with ⟨-, rfl⟩ | before
    · -- who has left saw the same lease
      obtain ⟨g', has⟩ := leased.attached d exits
      have its := lone.seen d g' keyed.symm (by rw [has]; rfl)
      rw [held] at its
      cases its
      exact same d g has
    · exact same d _ (leased.matched d exits session e before keyed)
  · exact leased.emptied
  · intro key none
    have before := leased.lone key none
    constructor
    · exact before.cancelled
    · intro d g' keyed seen
      by_cases here : d = c
      · subst here
        subst keyed
        have eq : g = g' := by simpa [OwnerPod.setTicket, Ticket.generation] using seen
        rw [← eq]
        exact held
      · exact before.seen d g' keyed
          (by simpa [OwnerPod.setTicket, Function.update_of_ne here] using seen)
    · intro session e entry keyed
      rcases listed session e entry with ⟨-, rfl⟩ | old
      · subst keyed
        exact held
      · exact before.entry session e old keyed
    · intro d g' keyed has session e entry
      obtain ⟨other, has⟩ := earlier d g' has
      rcases listed session e entry with ⟨-, rfl⟩ | old
      · rintro rfl
        exact other (before.single d c g' g keyed rfl has ticket)
      · exact before.fresh d g' keyed has session e old
    · intro d d' g' g'' keyed keyed' has has'
      exact before.single d d' g' g'' keyed keyed' (earlier d g' has).2 (earlier d' g'' has').2

theorem Leased.giveBack (leased : s.Leased v) {entry : OwnerEntry} (member : entry ∈ s.cancelled) :
    Leased v { s with
      cancelled := s.cancelled.erase entry
      lease := if s.lease entry.key = some entry.generation then
        Function.update s.lease entry.key none else s.lease } where
  client := leased.client
  session := leased.session
  kept := leased.kept
  attached := leased.attached
  matched := leased.matched
  emptied := leased.emptied
  lone key none := by
    have before := leased.lone key none
    have unchanged : (if s.lease entry.key = some entry.generation then
        Function.update s.lease entry.key Option.none else s.lease) key = s.lease key := by
      split
      · exact Function.update_of_ne (before.cancelled entry member).symm ..
      · rfl
    constructor
    · exact fun e later => before.cancelled e (List.mem_of_mem_erase later)
    · intro d g keyed seen
      exact unchanged.trans (before.seen d g keyed seen)
    · intro session e found keyed
      exact unchanged.trans (before.entry session e found keyed)
    · exact before.fresh
    · exact before.single

/-! ### Whole runs -/

/-- The rooms, the huddles and the leases are as they should be. -/
structure Sound (v : Visitors) (s : OwnerPod) : Prop where
  settled : s.pod.Settled v
  tended : s.pod.Tended v
  told : s.Told v
  leased : s.Leased v

theorem sound_initial : Sound v {} :=
  ⟨Pod.settled_initial, Pod.tended_initial, told_initial, leased_initial⟩

theorem unhurried_of_orderly {a : PodAction} (allowed : v.Allows s a)
    (orderly : s.pod.Orderly v a) : s.pod.Unhurried v a := by
  cases a with
  | cleanup c =>
    intro r evicted
    have known := orderly r evicted
    split at known
    next hasEnded => exact Or.inl hasEnded
    next => exact Or.inr known
  | archive c succeeded =>
    cases allowed
    trivial
  | getOrCreate | check | dial | enter | leave | lookup | drop | emitEnded | finish | idle => trivial

/-- The condition on the steps of the handlers. -/
def Tidy (v : Visitors) (s : OwnerPod) : OwnerAction → Prop
  | .handler a => s.pod.Orderly v a
  | _ => True

theorem Sound.learn (sound : s.Sound v) {ticket : Ticket} (client : v.origin c = .client)
    (unattached : ∀ g, s.ticket c ≠ .attached g) (given : ∀ g, ticket ≠ .resolved g true)
    (seen : ∀ g, ticket.generation = some g → s.lease (v.key c) = some g ∨
      (s.ticket c).generation = some g) : Sound v (s.setTicket c ticket) := by
  refine ⟨sound.settled, sound.tended, sound.told.congr ⟨rfl, rfl, rfl, rfl⟩ rfl, ?_⟩
  apply sound.leased.setTicket client unattached
  · intro none
    have lone := sound.leased.lone _ none
    refine lone.setTicket (fun g _ knows => ?_) given
    rcases seen g knows with held | known
    · exact held
    · exact lone.seen c g rfl known
  · exact fun _ _ => rfl

theorem attachSignals_same (session : Uuid) (lease : OwnerEntry) :
    ((s.attachSignals session lease).joins = s.joins ∧
      (s.attachSignals session lease).archives = s.archives ∧
      (s.attachSignals session lease).ends = s.ends ∧
      (s.attachSignals session lease).ender = s.ender) ∧
    (s.attachSignals session lease).pod = s.pod := by
  unfold attachSignals
  split
  · exact ⟨⟨rfl, rfl, rfl, rfl⟩, rfl⟩
  · exact ⟨⟨rfl, rfl, rfl, rfl⟩, rfl⟩

theorem Sound.perform (sound : s.Sound v) {a : OwnerAction} (tidy : s.Tidy v a)
    (unshared : ∀ c d, (v.key c).2 = (v.key d).2 → v.key c = v.key d)
    (performed : v.performOwner s a = some s') : s'.Sound v := by
  cases a with
  | ownerOf c =>
    simp only [Visitors.performOwner] at performed
    split at performed
    next client ticket =>
      have unattached : ∀ g, s.ticket c ≠ .attached g := by simp [ticket]
      split at performed
      next g held =>
        cases performed
        apply sound.learn client unattached
        · exact nofun
        · intro g' knows
          cases knows
          exact Or.inl held
      next =>
        cases performed
        exact sound.learn client unattached nofun nofun
    next => cases performed
  | acquire c =>
    simp only [Visitors.performOwner] at performed
    split at performed
    next ticket =>
      have client := sound.leased.client c (by simp [ticket])
      have unattached : ∀ g, s.ticket c ≠ .attached g := by simp [ticket]
      split at performed
      next g held =>
        cases performed
        apply sound.learn client unattached
        · exact nofun
        · intro g' knows
          cases knows
          exact Or.inl held
      next free =>
        cases performed
        refine ⟨sound.settled, sound.tended, sound.told.congr ⟨rfl, rfl, rfl, rfl⟩ rfl, ?_⟩
        apply sound.leased.setTicket client unattached
        · exact fun none => (sound.leased.lone _ none).acquire free
        · exact fun key other => Function.update_of_ne other ..
    next => cases performed
  | ready c =>
    simp only [Visitors.performOwner] at performed
    split at performed
    next g ticket =>
      have client := sound.leased.client c (by simp [ticket])
      have unattached : ∀ g, s.ticket c ≠ .attached g := by simp [ticket]
      split at performed
      next =>
        cases performed
        apply sound.learn client unattached
        · exact nofun
        · intro g' knows
          rw [ticket]
          exact Or.inr knows
      next =>
        cases performed
        exact sound.learn client unattached nofun nofun
    next => cases performed
  | attach c =>
    simp only [Visitors.performOwner] at performed
    split at performed
    next r g inside ticket =>
      cases performed
      obtain ⟨same, pod⟩ := attachSignals_same (s := s) (v.key c).2 ⟨v.key c, g⟩
      refine ⟨?_, ?_, sound.told.congr same pod,
        sound.leased.attach sound.settled sound.told unshared inside ticket⟩
      · exact pod.symm ▸ sound.settled
      · exact pod.symm ▸ sound.tended
    next r g inside ticket =>
      cases performed
      apply sound.learn (sound.leased.client c (by simp [ticket])) (by simp [ticket])
      · exact nofun
      · intro g' knows
        rw [ticket]
        exact Or.inr knows
    next => cases performed
  | handler a =>
    simp only [Visitors.performOwner] at performed
    split at performed
    next allowed =>
      obtain ⟨pod, step, rfl⟩ := Option.map_eq_some_iff.mp performed
      have handled := handled_of_perform sound.settled sound.tended allowed step
      constructor
      · exact sound.settled.perform (unhurried_of_orderly allowed tidy) step
      · exact sound.tended.handle sound.settled tidy handled
      · exact sound.told.handle sound.settled sound.tended tidy allowed handled
      · exact sound.leased.handle sound.settled sound.told tidy allowed unshared handled
    next => cases performed
  | giveBack entry =>
    simp only [Visitors.performOwner] at performed
    split at performed
    next member =>
      cases performed
      exact ⟨sound.settled, sound.tended, sound.told.congr ⟨rfl, rfl, rfl, rfl⟩ rfl,
        sound.leased.giveBack member⟩
    next => cases performed

/-- No handler of the huddle is running. -/
def Quiescent (v : Visitors) (s : OwnerPod) (key : RoomKey) : Prop :=
  ∀ c, v.key c = key → s.pod.stage c = .outside ∨ s.pod.stage c = .gone

/-- The room is removed, the lease given up, and the channel archived once if anybody was there. -/
structure WoundUp (s : OwnerPod) (key : RoomKey) : Prop where
  removed : s.pod.rooms key = none
  released : s.entries key.2 = none
  archived : 0 < s.joins key → s.archives key = 1 ∧ s.ends key = 1

theorem Sound.windsUp (sound : s.Sound v)
    (unshared : ∀ c d, (v.key c).2 = (v.key d).2 → v.key c = v.key d)
    (quiet : s.Quiescent v (v.key c))
    (empty : ∀ r, s.pod.rooms (v.key c) = some r → (s.pod.heap r).isEmpty = true) :
    s.WoundUp (v.key c) := by
  -- who looks after a room that is left is a handler that runs
  have removed : s.pod.rooms (v.key c) = none := by
    cases mapped : s.pod.rooms (v.key c) with
    | none => rfl
    | some r =>
      exfalso
      cases hasEnded : (s.pod.heap r).guard.ended with
      | false =>
        obtain ⟨d, keyed, minds⟩ := sound.tended.minded _ r mapped (empty r mapped) hasEnded
        rcases quiet d keyed with out | gone
        · rw [out] at minds
          exact absurd minds (Stage.not_minds rfl nofun)
        · rw [gone] at minds
          exact absurd minds (Stage.not_minds rfl nofun)
      | true =>
        obtain ⟨d, keyed, tidies⟩ := sound.tended.tidied _ r mapped hasEnded
        rcases quiet d keyed with out | gone
        · rw [out] at tidies
          exact tidies
        · rw [gone] at tidies
          exact tidies
  constructor
  · exact removed
  · cases entry : s.entries (v.key c).2 with
    | none => rfl
    | some e =>
      exfalso
      obtain ⟨session, d, keyed⟩ := sound.leased.session _ e entry
      have same : e.key = v.key c := by
        rw [← keyed]
        exact unshared d c (by rw [keyed, session])
      rcases sound.leased.kept _ e entry with ⟨r, mapped, -⟩ | ⟨d', archived, keyed', -, last⟩
      · rw [same, removed] at mapped
        cases mapped
      · rcases quiet d' (keyed'.trans same) with out | gone
        · rw [out] at last
          cases last
        · rw [gone] at last
          cases last
  · intro joined
    rcases sound.told.begun _ joined with ended | ⟨r, mapped, -⟩
    · obtain ⟨d, ender⟩ := Option.isSome_iff_exists.mp ended
      obtain ⟨keyed, counted⟩ := sound.told.due _ d ender
      rcases quiet d keyed with out | gone
      · rw [out] at counted
        exact Prod.mk.inj counted
      · rw [gone] at counted
        exact Prod.mk.inj counted
    · rw [removed] at mapped
      cases mapped

end OwnerPod

namespace Visitors

variable {v : Visitors}

theorem OwnerRun.sound (run : v.OwnerRun) (start : run.state 0 = {})
    (unshared : ∀ c d, (v.key c).2 = (v.key d).2 → v.key c = v.key d)
    (tidy : ∀ n, (run.state n).Tidy v (run.action n)) (n : Nat) : (run.state n).Sound v := by
  induction n with
  | zero =>
    rw [start]
    exact OwnerPod.sound_initial
  | succ n ih => exact ih.perform (tidy n) unshared (run.steps n)

/-- An empty huddle is wound up when its handlers have finished. -/
theorem OwnerRun.woundUp (run : v.OwnerRun) (start : run.state 0 = {})
    (unshared : ∀ c d, (v.key c).2 = (v.key d).2 → v.key c = v.key d)
    (tidy : ∀ n, (run.state n).Tidy v (run.action n)) (n : Nat) (c : Uuid)
    (quiet : (run.state n).Quiescent v (v.key c))
    (empty : ∀ r, (run.state n).pod.rooms (v.key c) = some r →
      ((run.state n).pod.heap r).isEmpty = true) :
    (run.state n).WoundUp (v.key c) :=
  (run.sound start unshared tidy n).windsUp unshared quiet empty

end Visitors

/-! ### A remote peer that leaves last -/

namespace Sample

open Visitors

/-- Alice's huddle, which dave of another pod is in; everybody else has one of their own. -/
def couple : Visitors where
  key x := (⟨⟨7⟩⟩, if x = ⟨4⟩ then ⟨1⟩ else x)
  origin x := if x = ⟨4⟩ then .stream else .client
  pubkey x := if x = ⟨1⟩ then "alice" else "dave"
  version _ := 2

theorem couple_key {c : Uuid} (same : couple.key c = couple.key ⟨1⟩) : c = ⟨1⟩ ∨ c = ⟨4⟩ := by
  have second := congrArg Prod.snd same
  simp only [couple] at second
  split at second
  next dave => exact Or.inr dave
  next => exact Or.inl second

theorem couple_unshared (c d : Uuid) (same : (couple.key c).2 = (couple.key d).2) :
    couple.key c = couple.key d := Prod.ext rfl same

def aliceJoins : List OwnerAction :=
  [OwnerAction.ownerOf ⟨1⟩, OwnerAction.acquire ⟨1⟩] ++ (join ⟨1⟩).map OwnerAction.handler ++
    [OwnerAction.attach ⟨1⟩]

def daveLeaves : List OwnerAction := [.handler (.lookup ⟨4⟩), .handler (.drop ⟨4⟩)]

/-- Dave is there until alice has gone. -/
def remoteLast : couple.OwnerRun :=
  .ofList {} (aliceJoins ++ (join ⟨4⟩).map OwnerAction.handler ++
    [OwnerAction.handler (.leave ⟨1⟩), OwnerAction.handler (.cleanup ⟨1⟩),
      OwnerAction.handler (.finish ⟨1⟩)] ++ daveLeaves)
    (.handler .idle) (by decide) fun _ => rfl

def aliceLastActions : List OwnerAction :=
  aliceJoins ++ (join ⟨4⟩).map OwnerAction.handler ++ daveLeaves ++
    ([.handler (.leave ⟨1⟩), .handler (.archive ⟨1⟩ true), .handler (.cleanup ⟨1⟩),
      .handler (.emitEnded ⟨1⟩), .handler (.finish ⟨1⟩)] : List OwnerAction)

/-- Alice leaves after dave. -/
def aliceLast : couple.OwnerRun :=
  .ofList {} aliceLastActions (.handler .idle) (by decide) fun _ => rfl

/-- Nobody is refused, alice stays when dave leaves, and a leaver removes the room that has ended. -/
def Plain (s : Pod) : PodAction → Prop
  | .getOrCreate c => s.rooms (couple.key c) ≠ none ∨
      couple.key c = couple.key ⟨1⟩ ∧ s.stage ⟨1⟩ = .outside ∧ s.stage ⟨4⟩ = .outside
  | .drop c => c ≠ ⟨1⟩ ∧
      match s.stage c with
      | .looked _ found => ((s.heap found).peers.lookup ⟨1⟩).isSome
      | _ => True
  | .enter c =>
      match s.stage c with
      | .checked r => couple.Supported c ∧ (couple.admission (s.heap r) c none).toOption.isSome
      | _ => True
  | .check _ false => False
  | .cleanup c =>
      match s.evicts (couple.key c) with
      | some r => (s.heap r).guard.ended = true ∧ s.stage c ≠ .failing
      | none => True
  | _ => True

instance (s : Pod) (a : PodAction) : Decidable (Plain s a) := by
  unfold Plain
  match a with
  | .drop c =>
    dsimp only
    cases s.stage c <;> infer_instance
  | .enter c =>
    dsimp only
    cases s.stage c <;> infer_instance
  | .cleanup c =>
    dsimp only
    cases s.evicts (couple.key c) <;> infer_instance
  | .getOrCreate _ | .check _ true | .check _ false | .dial .. | .leave _ | .lookup _ | .archive .. |
    .emitEnded _ | .finish _ | .idle => infer_instance

theorem Plain.orderly {s : Pod} {a : PodAction} (plain : Plain s a) : s.Orderly couple a := by
  unfold Plain at plain
  split at plain
  next c =>
    intro unmapped d same r
    rcases plain with mapped | ⟨hers, alice, dave⟩
    · exact absurd unmapped mapped
    · rcases couple_key (same.trans hers) with rfl | rfl
      · rw [alice]
        exact nofun
      · rw [dave]
        exact nofun
  next c =>
    intro r found looked
    rw [looked] at plain
    exact ⟨⟨1⟩, plain.1.symm, plain.2⟩
  next c =>
    intro r checked refuses
    simp only [checked] at plain
    rcases refuses with ⟨-, unsupported⟩ | ⟨error, refused⟩
    · exact absurd plain.1 unsupported
    · rw [refused] at plain
      exact nomatch plain.2
  next => exact plain.elim
  next c =>
    intro r evicted
    rw [evicted] at plain
    rw [if_pos plain.1]
    exact plain.2
  next other₁ other₂ other₃ other₄ other₅ =>
    unfold Pod.Orderly
    split
    next c => exact absurd rfl (other₂ c)
    next c => exact absurd rfl (other₃ c)
    next c => exact absurd rfl (other₄ c)
    next c => exact absurd rfl (other₅ c)
    next c => exact absurd rfl (other₁ c)
    next => trivial

def Plainly (s : OwnerPod) : OwnerAction → Prop
  | .handler a => Plain s.pod a
  | _ => True

instance (s : OwnerPod) (a : OwnerAction) : Decidable (Plainly s a) :=
  match a with
  | .handler a => inferInstanceAs (Decidable (Plain s.pod a))
  | .ownerOf _ | .acquire _ | .ready _ | .attach _ | .giveBack _ =>
    inferInstanceAs (Decidable True)

theorem Plainly.tidy {s : OwnerPod} {a : OwnerAction} (plainly : Plainly s a) : s.Tidy couple a := by
  cases a with
  | handler a => exact Plain.orderly plainly
  | ownerOf | acquire | ready | attach | giveBack => trivial

theorem aliceLast_tidy (n : Nat) : (aliceLast.state n).Tidy couple (aliceLast.action n) := by
  apply Plainly.tidy
  apply Trace.forall_ofList (P := Plainly)
  · decide
  · exact fun _ => trivial

theorem quiescent_couple {s : OwnerPod} (alice : s.pod.stage ⟨1⟩ = .gone)
    (dave : s.pod.stage ⟨4⟩ = .gone) : s.Quiescent couple (couple.key ⟨1⟩) := by
  intro c same
  rcases couple_key same with rfl | rfl
  · exact Or.inr alice
  · exact Or.inr dave

end Sample

/-- Alice was there, and everything is put away. -/
theorem woundUp_alice : 0 < (Sample.aliceLast.state 16).joins (⟨⟨7⟩⟩, ⟨1⟩) ∧
    (Sample.aliceLast.state 16).WoundUp (⟨⟨7⟩⟩, ⟨1⟩) := by
  have removed : (Sample.aliceLast.state 16).pod.rooms (Sample.couple.key ⟨1⟩) = none := by
    decide
  refine ⟨by decide, ?_⟩
  apply Sample.aliceLast.woundUp rfl Sample.couple_unshared Sample.aliceLast_tidy 16 ⟨1⟩
  · exact Sample.quiescent_couple (by decide) (by decide)
  · intro r mapped
    cases removed.symm.trans mapped

/-- Nobody is in the huddle, and it goes on. -/
theorem left_behind : ¬ ∀ (v : Visitors) (run : v.OwnerRun), run.state 0 = {} → ∀ n c,
    (run.state n).Quiescent v (v.key c) →
    (∀ r, (run.state n).pod.rooms (v.key c) = some r →
      ((run.state n).pod.heap r).isEmpty = true) → (run.state n).WoundUp (v.key c) := by
  intro woundUp
  have mapped : (Sample.remoteLast.state 14).pod.rooms (Sample.couple.key ⟨1⟩) = some 0 := by
    decide
  have same := woundUp Sample.couple Sample.remoteLast rfl 14 ⟨1⟩
    (Sample.quiescent_couple (by decide) (by decide))
    (fun r found => by
      cases mapped.symm.trans found
      decide)
  cases mapped.symm.trans same.removed

end Audio
