import Mathlib.Data.Set.Insert
import Mathlib.Logic.Function.Basic
import Mathlib.Logic.Relation

/-!
# Interest and subscription

Many parties retain and release topics, one worker keeps a connection subscribed to them. The
counts change under a lock, and the worker is told afterwards: by a command that the first
retain of a topic sends when it gets to it, and by a delayed command after the last release. The
worker takes the commands in the order they were sent, and only the second kind looks at the
count again. When the connection is lost the worker starts the next one from the counts.

`Interest.agrees_of_quiet` says when this comes out right: once nothing is on its way, the
connection has the topics that are wanted. It needs that the last release of a topic does not
overtake the command of its first retain.
-/
namespace Lib

inductive Command (τ : Type) where
  | subscribe (topic : τ)
  | unsubscribeIfIdle (topic : τ)
deriving DecidableEq

structure Interest (τ : Type) where
  count : τ → Nat
  /-- Topics whose first retain has not sent its command yet. -/
  unsent : List τ
  /-- Topics whose last release will send its command. -/
  delayed : List τ
  queue : List (Command τ)
  /-- The topics of the connection, none while there is no connection. -/
  actual : Option (Set τ)

namespace Interest

variable {τ : Type}

/-- A move of a party or of the worker. A release must not be the last one of a topic that is
still to be announced. -/
inductive Step [DecidableEq τ] (s : Interest τ) : Interest τ → Prop where
  | retain (t : τ) :
      Step s { s with
        count := Function.update s.count t (s.count t + 1)
        unsent := if s.count t = 0 then s.unsent ++ [t] else s.unsent }
  | release {t : τ} (held : 0 < s.count t) (announced : s.count t = 1 → t ∉ s.unsent) :
      Step s { s with
        count := Function.update s.count t (s.count t - 1)
        delayed := if s.count t = 1 then s.delayed ++ [t] else s.delayed }
  | sendSubscribe {t : τ} (waits : t ∈ s.unsent) :
      Step s { s with unsent := s.unsent.erase t, queue := s.queue ++ [Command.subscribe t] }
  | sendUnsubscribe {t : τ} (waits : t ∈ s.delayed) :
      Step s { s with delayed := s.delayed.erase t, queue := s.queue ++ [Command.unsubscribeIfIdle t] }
  | connect : Step s { s with actual := some {t | 0 < s.count t} }
  | disconnect : Step s { s with actual := none }
  /-- The connection is lost over a command. -/
  | lose {command : Command τ} {rest : List (Command τ)} (next : s.queue = command :: rest) :
      Step s { s with queue := rest, actual := none }
  | subscribe {t : τ} {rest : List (Command τ)} {topics : Set τ}
      (next : s.queue = .subscribe t :: rest) (up : s.actual = some topics) :
      Step s { s with queue := rest, actual := some (insert t topics) }
  | unsubscribe {t : τ} {rest : List (Command τ)} {topics : Set τ}
      (next : s.queue = .unsubscribeIfIdle t :: rest) (idle : s.count t = 0)
      (up : s.actual = some topics) :
      Step s { s with queue := rest, actual := some (topics \ {t}) }
  | keep {t : τ} {rest : List (Command τ)} (next : s.queue = .unsubscribeIfIdle t :: rest)
      (wanted : 0 < s.count t) : Step s { s with queue := rest }

/-- The connection has the topic. -/
def Has (s : Interest τ) (t : τ) : Prop := ∃ topics, s.actual = some topics ∧ t ∈ topics

theorem has_iff {s : Interest τ} {topics : Set τ} (up : s.actual = some topics) (t : τ) :
    s.Has t ↔ t ∈ topics := by
  constructor
  · rintro ⟨now, up', member⟩
    cases up.symm.trans up'
    exact member
  · exact fun member => ⟨topics, up, member⟩

theorem not_has {s : Interest τ} (down : s.actual = none) (t : τ) : ¬ s.Has t := by
  rintro ⟨topics, up, -⟩
  rw [down] at up
  cases up

/-- A topic that is wanted is on its way or already there. -/
def Coming (s : Interest τ) (t : τ) : Prop :=
  t ∈ s.unsent ∨ .subscribe t ∈ s.queue ∨ s.actual = none ∨ s.Has t

/-- Behind the last command to unsubscribe there is none to subscribe. -/
def Revoked (queue : List (Command τ)) (t : τ) : Prop :=
  ∃ before after, queue = before ++ .unsubscribeIfIdle t :: after ∧ .subscribe t ∉ after

/-- A topic that is not wanted will be unsubscribed, or nothing will subscribe it. -/
def Going (s : Interest τ) (t : τ) : Prop :=
  t ∉ s.unsent ∧
    (t ∈ s.delayed ∨ Revoked s.queue t ∨ (.subscribe t ∉ s.queue ∧ ¬ s.Has t))

structure Sound (s : Interest τ) : Prop where
  coming : ∀ t, 0 < s.count t → s.Coming t
  going : ∀ t, s.count t = 0 → s.Going t

/-- Nothing is on its way. -/
structure Quiet (s : Interest τ) : Prop where
  unsent : s.unsent = []
  delayed : s.delayed = []
  queue : s.queue = []

namespace Revoked

variable {queue rest : List (Command τ)} {t t' : τ} {command : Command τ}

theorem append (revoked : Revoked queue t) (other : command ≠ .subscribe t) :
    Revoked (queue ++ [command]) t := by
  obtain ⟨before, after, rfl, none⟩ := revoked
  refine ⟨before, after ++ [command], by simp, ?_⟩
  simpa [none] using other.symm

/-- The head of the queue is done with: it was another command, or nothing behind it
subscribes. -/
theorem tail (revoked : Revoked (command :: rest) t) :
    Revoked rest t ∨ (command = .unsubscribeIfIdle t ∧ .subscribe t ∉ rest) := by
  obtain ⟨before, after, split, none⟩ := revoked
  cases before with
  | nil =>
    obtain ⟨rfl, rfl⟩ := List.cons.inj split
    exact Or.inr ⟨rfl, none⟩
  | cons _ before =>
    obtain ⟨-, rfl⟩ := List.cons.inj split
    exact Or.inl ⟨before, after, rfl, none⟩

end Revoked

namespace Sound

variable {s s' : Interest τ}

/-- A command leaves the queue. What it does to the connection is left open, but for a topic
whose last command it is. -/
theorem tail (sound : s.Sound) {command : Command τ} {rest : List (Command τ)}
    {actual : Option (Set τ)} (next : s.queue = command :: rest)
    (arrives : ∀ t, 0 < s.count t → command = .subscribe t →
      ({ s with queue := rest, actual } : Interest τ).Coming t)
    (stays : ∀ t, 0 < s.count t → s.Has t →
      actual = none ∨ ({ s with queue := rest, actual } : Interest τ).Has t)
    (lost : s.actual = none → actual = none)
    (leaves : ∀ t, s.count t = 0 → command = .unsubscribeIfIdle t →
      ¬ ({ s with queue := rest, actual } : Interest τ).Has t)
    (absent : ∀ t, command ≠ .subscribe t → ¬ s.Has t →
      ¬ ({ s with queue := rest, actual } : Interest τ).Has t) :
    ({ s with queue := rest, actual } : Interest τ).Sound where
  coming t wanted := by
    rcases sound.coming t wanted with unsent | queued | down | has
    · exact Or.inl unsent
    · rw [next] at queued
      rcases List.mem_cons.mp queued with rfl | later
      · exact arrives t wanted rfl
      · exact Or.inr (Or.inl later)
    · exact Or.inr (Or.inr (Or.inl (lost down)))
    · exact Or.inr (Or.inr (stays t wanted has))
  going t idle := by
    obtain ⟨announced, delayed | revoked | ⟨silent, absent'⟩⟩ := sound.going t idle
    · exact ⟨announced, Or.inl delayed⟩
    · rw [next] at revoked
      rcases revoked.tail with later | ⟨rfl, silent⟩
      · exact ⟨announced, Or.inr (Or.inl later)⟩
      · exact ⟨announced, Or.inr (Or.inr ⟨silent, leaves t idle rfl⟩)⟩
    · rw [next, List.mem_cons, not_or] at silent
      exact ⟨announced, Or.inr (Or.inr ⟨silent.2, absent t (Ne.symm silent.1) absent'⟩)⟩

variable [DecidableEq τ]

theorem retain (sound : s.Sound) (t : τ) :
    ({ s with
        count := Function.update s.count t (s.count t + 1)
        unsent := if s.count t = 0 then s.unsent ++ [t] else s.unsent } : Interest τ).Sound where
  coming u wanted := by
    by_cases same : u = t
    · subst same
      by_cases first : s.count u = 0
      · exact Or.inl (by simp [first])
      · simpa [Coming, Has, first] using sound.coming u (by omega)
    · have before : 0 < s.count u := by simpa [same] using wanted
      rcases sound.coming u before with unsent | rest
      · refine Or.inl ?_
        split
        next => exact List.mem_append_left _ unsent
        next => exact unsent
      · exact Or.inr rest
  going u idle := by
    have other : u ≠ t := by
      rintro rfl
      simp at idle
    have before : s.count u = 0 := by simpa [other] using idle
    obtain ⟨announced, rest⟩ := sound.going u before
    refine ⟨?_, rest⟩
    simp only
    split
    next => simp [announced, other]
    next => exact announced

theorem release (sound : s.Sound) {t : τ} (held : 0 < s.count t)
    (announced : s.count t = 1 → t ∉ s.unsent) :
    ({ s with
        count := Function.update s.count t (s.count t - 1)
        delayed := if s.count t = 1 then s.delayed ++ [t] else s.delayed } : Interest τ).Sound where
  coming u wanted := by
    have before : 0 < s.count u := by
      by_cases same : u = t
      · rw [same]
        exact held
      · simpa [same] using wanted
    exact sound.coming u before
  going u idle := by
    by_cases same : u = t
    · -- The last release: its own command is still to come.
      subst same
      have last : s.count u = 1 := by
        simp only [Function.update_self] at idle
        omega
      exact ⟨announced last, Or.inl (by simp [last])⟩
    · have before : s.count u = 0 := by simpa [same] using idle
      obtain ⟨none, delayed | rest⟩ := sound.going u before
      · refine ⟨none, Or.inl ?_⟩
        split
        next => exact List.mem_append_left _ delayed
        next => exact delayed
      · exact ⟨none, Or.inr rest⟩

theorem sendSubscribe (sound : s.Sound) {t : τ} (waits : t ∈ s.unsent) :
    ({ s with unsent := s.unsent.erase t, queue := s.queue ++ [Command.subscribe t] } :
      Interest τ).Sound where
  coming u wanted := by
    rcases sound.coming u wanted with unsent | queued | rest
    · by_cases same : u = t
      · exact Or.inr (Or.inl (by simp [same]))
      · exact Or.inl ((List.mem_erase_of_ne same).mpr unsent)
    · exact Or.inr (Or.inl (List.mem_append_left _ queued))
    · exact Or.inr (Or.inr rest)
  going u idle := by
    obtain ⟨announced, rest⟩ := sound.going u idle
    have other : u ≠ t := by
      rintro rfl
      exact announced waits
    refine ⟨fun member => announced (List.mem_of_mem_erase member), ?_⟩
    rcases rest with delayed | revoked | ⟨silent, absent⟩
    · exact Or.inl delayed
    · exact Or.inr (Or.inl (revoked.append (by simpa using other.symm)))
    · exact Or.inr (Or.inr ⟨by simp [silent, other], absent⟩)

theorem sendUnsubscribe (sound : s.Sound) (t : τ) :
    ({ s with delayed := s.delayed.erase t, queue := s.queue ++ [Command.unsubscribeIfIdle t] } :
      Interest τ).Sound where
  coming u wanted := by
    rcases sound.coming u wanted with unsent | queued | rest
    · exact Or.inl unsent
    · exact Or.inr (Or.inl (List.mem_append_left _ queued))
    · exact Or.inr (Or.inr rest)
  going u idle := by
    obtain ⟨announced, rest⟩ := sound.going u idle
    refine ⟨announced, ?_⟩
    by_cases same : u = t
    · subst same
      exact Or.inr (Or.inl ⟨s.queue, [], rfl, by simp⟩)
    · rcases rest with delayed | revoked | ⟨silent, absent⟩
      · exact Or.inl ((List.mem_erase_of_ne same).mpr delayed)
      · exact Or.inr (Or.inl (revoked.append (by simp)))
      · exact Or.inr (Or.inr ⟨by simp [silent], absent⟩)

omit [DecidableEq τ] in
theorem connect (sound : s.Sound) :
    ({ s with actual := some {t | 0 < s.count t} } : Interest τ).Sound where
  coming u wanted := Or.inr (Or.inr (Or.inr ⟨_, rfl, wanted⟩))
  going u idle := by
    obtain ⟨announced, delayed | revoked | ⟨silent, -⟩⟩ := sound.going u idle
    · exact ⟨announced, Or.inl delayed⟩
    · exact ⟨announced, Or.inr (Or.inl revoked)⟩
    · refine ⟨announced, Or.inr (Or.inr ⟨silent, ?_⟩)⟩
      rw [has_iff rfl, Set.mem_ofPred_eq]
      exact fun wanted => absurd idle (by simpa using wanted.ne')

omit [DecidableEq τ] in
theorem disconnect (sound : s.Sound) : ({ s with actual := none } : Interest τ).Sound where
  coming u _ := Or.inr (Or.inr (Or.inl rfl))
  going u idle := by
    obtain ⟨announced, delayed | revoked | ⟨silent, -⟩⟩ := sound.going u idle
    · exact ⟨announced, Or.inl delayed⟩
    · exact ⟨announced, Or.inr (Or.inl revoked)⟩
    · exact ⟨announced, Or.inr (Or.inr ⟨silent, not_has rfl u⟩)⟩

theorem step (sound : s.Sound) (stepped : s.Step s') : s'.Sound := by
  cases stepped with
  | retain t => exact sound.retain t
  | release held announced => exact sound.release held announced
  | sendSubscribe waits => exact sound.sendSubscribe waits
  | sendUnsubscribe _ => exact sound.sendUnsubscribe _
  | connect => exact sound.connect
  | disconnect => exact sound.disconnect
  | lose next =>
    exact sound.tail next (fun _ _ _ => Or.inr (Or.inr (Or.inl rfl))) (fun _ _ _ => Or.inl rfl)
      (fun _ => rfl) (fun t _ _ => not_has rfl t) (fun t _ _ => not_has rfl t)
  | @subscribe t rest topics next up =>
    apply sound.tail next
    · intro u _ same
      obtain rfl := (Command.subscribe.inj same).symm
      exact Or.inr (Or.inr (Or.inr ((has_iff rfl _).mpr (Set.mem_insert _ topics))))
    · intro u _ has
      have member := (has_iff up u).mp has
      exact Or.inr ((has_iff rfl u).mpr (Set.mem_insert_of_mem t member))
    · intro down
      rw [down] at up
      cases up
    · intro u _ same
      cases same
    · intro u other absent has
      rcases Set.mem_insert_iff.mp ((has_iff rfl u).mp has) with rfl | before
      · exact other rfl
      · exact absent ((has_iff up u).mpr before)
  | @unsubscribe t rest topics next idle up =>
    apply sound.tail next
    · intro u _ same
      cases same
    · intro u wanted has
      have other : u ≠ t := by
        rintro rfl
        omega
      have now : u ∈ topics \ {t} := ⟨(has_iff up u).mp has, other⟩
      exact Or.inr ((has_iff rfl u).mpr now)
    · intro down
      rw [down] at up
      cases up
    · intro u _ same has
      obtain rfl := Command.unsubscribeIfIdle.inj same
      exact ((has_iff rfl _).mp has).2 rfl
    · intro u _ absent has
      exact absent ((has_iff up u).mpr ((has_iff rfl u).mp has).1)
  | @keep t rest next wanted =>
    apply sound.tail next
    · intro u _ same
      cases same
    · exact fun _ _ has => Or.inr has
    · exact id
    · intro u idle same
      cases same
      omega
    · exact fun _ _ absent => absent

end Sound

/-- Nobody has asked for anything yet. -/
def init : Interest τ where
  count _ := 0
  unsent := []
  delayed := []
  queue := []
  actual := none

theorem sound_init : (init : Interest τ).Sound where
  coming t wanted := absurd wanted (by simp [init])
  going t _ := ⟨by simp [init], Or.inr (Or.inr ⟨by simp [init], not_has rfl t⟩)⟩

/-- Once nothing is on its way, the connection has exactly the topics that are wanted. -/
theorem agrees_of_quiet {s : Interest τ} (sound : s.Sound) (quiet : s.Quiet) {topics : Set τ}
    (up : s.actual = some topics) (t : τ) : t ∈ topics ↔ 0 < s.count t := by
  constructor
  · intro member
    by_contra idle
    obtain ⟨-, delayed | ⟨before, after, split, -⟩ | ⟨-, absent⟩⟩ := sound.going t (by omega)
    · simp [quiet.delayed] at delayed
    · simp [quiet.queue] at split
    · exact absent ⟨topics, up, member⟩
  · intro wanted
    rcases sound.coming t wanted with unsent | queued | down | has
    · simp [quiet.unsent] at unsent
    · simp [quiet.queue] at queued
    · rw [down] at up
      cases up
    · exact (has_iff up t).mp has

end Interest

end Lib
