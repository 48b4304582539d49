import Buzz.Audio.Registry

/-!
# Every owner peer watches its lease

A client that is attached watches the tokens of the entry of its session, whose renewer holds the
lease of its huddle until a token is cancelled. It is so when no two communities use one channel
UUID, no entry is replaced, and an entry is released only when no other client uses it. The
registry is keyed by the session alone: a client of a second community gets the tokens of the first
one's lease, and its own lease is thrown away (`unwatched_community`).
-/
namespace Audio

open Lib Nostr Relay

namespace JoinStage

/-- The join goes on with the entry that it found. -/
def Reuses : JoinStage → Prop
  | resolved _ acquired | entered _ acquired => acquired = false
  | reading .. => True
  | _ => False

/-- The client has the tokens of this renewer. -/
def Has (ρ : Nat) : JoinStage → Prop
  | inserted _ ρ' => ρ' = ρ
  | present _ signals => signals.lost = some ρ
  | _ => False

end JoinStage

namespace Registry

/-- No token of the client is cancelled. -/
def Unsignalled (s : Registry) (signals : Signals) : Prop :=
  (∀ ρ R, signals.lost = some ρ → s.renewers[ρ]? = some R → R.lost = false) ∧
    ∀ ρ R, signals.draining = some ρ → s.renewers[ρ]? = some R → R.draining = false

/-- The tokens are those of the entry of the session, whose renewer runs for the lease of the
huddle. -/
def Backed (s : Registry) (key : RoomKey) (signals : Signals) : Prop :=
  ∃ ρ R, signals = ⟨some ρ, some ρ⟩ ∧ s.entries key.2 = some ρ ∧ s.renewers[ρ]? = some R ∧
    R.key = key ∧ R.cancel = false ∧ R.phase = .renewing

/-- The renewer `R` is cancelled between the two states. -/
def Cancels (s s' : Registry) (R : Renewer) : Prop :=
  ∃ (ρ : Nat) (R' : Renewer), s.renewers[ρ]? = some R ∧ R.cancel = false ∧
    s'.renewers[ρ]? = some R' ∧ R'.cancel = true

/-- The entry of the session has this generation. -/
def Finds (s : Registry) (session : Uuid) (generation : Nat) (ρ : Nat) (R : Renewer) : Prop :=
  s.entries session = some ρ ∧ s.renewers[ρ]? = some R ∧ R.generation = generation

variable (v : Joiners)

/-- An entry is removed when no join is about to use it, and released when no other client has its
tokens or the lease was lost; and no entry is replaced. -/
def Prudent (s : Registry) : RegistryAction → Prop
  | .insert c => s.entries (v.key c).2 = none
  | .release c => ∀ g ρ R, s.stage c = .leaving g → s.Finds (v.key c).2 g ρ R →
      ∀ d, v.key d = v.key c → ¬ (s.stage d).Reuses ∧ (R.lost = false → ¬ (s.stage d).Has ρ)
  | .drain item => ∀ ρ R, s.Finds item.session item.generation ρ R →
      ∀ d, (v.key d).2 = item.session → ¬ (s.stage d).Reuses
  | .recheck c => s.isDraining = true → ∀ g ρ' ρ R, s.stage c = .inserted g ρ' →
      s.Finds (v.key c).2 g ρ R → ∀ d, (v.key d).2 = (v.key c).2 → ¬ (s.stage d).Reuses
  | _ => True

structure Guarded (s : Registry) : Prop where
  entry : ∀ session ρ, s.entries session = some ρ → ∃ R, s.renewers[ρ]? = some R ∧
    R.key.2 = session ∧ (∃ c, v.key c = R.key) ∧ R.cancel = false ∧ R.draining = false ∧
    (R.phase = .renewing ∨ R.lost = true)
  reused : ∀ c, (s.stage c).Reuses → (s.entries (v.key c).2).isSome
  read : ∀ c g lost, s.stage c = .reading g lost → lost = s.entries (v.key c).2
  has : ∀ c ρ, (s.stage c).Has ρ → ∃ R, s.renewers[ρ]? = some R ∧ R.key = v.key c ∧
    (R.lost = true ∨ R.draining = true ∨ s.entries (v.key c).2 = some ρ)
  own : ∀ c g ρ, s.stage c = .inserted g ρ → ∀ R, s.renewers[ρ]? = some R → R.generation = g
  signals : ∀ c g signals, s.stage c = .present g signals → ∃ ρ, signals = ⟨some ρ, some ρ⟩
  drains : ∀ item ∈ s.drains, item.key.2 = item.session ∧ ∃ c, v.key c = item.key

variable {v} {s s' : Registry} {c : Uuid} {stage : JoinStage}

theorem guarded_initial : Guarded v {} where
  entry _ _ entry := by cases entry
  reused _ reuses := reuses.elim
  read _ _ _ reading := by cases reading
  has _ _ has := has.elim
  own _ _ _ inserted := by cases inserted
  signals _ _ _ present := by cases present
  drains _ member := by cases member

/-- Between uncancelled tokens and the entry stands the invariant. -/
theorem Guarded.backed (guarded : s.Guarded v) {g : Nat} {signals : Signals}
    (present : s.stage c = .present g signals) (live : s.Unsignalled signals) :
    s.Backed (v.key c) signals := by
  obtain ⟨ρ, rfl⟩ := guarded.signals c g signals present
  obtain ⟨R, found, keyed, state⟩ := guarded.has c ρ (by rw [present]; rfl)
  have unlost := live.1 ρ R rfl found
  have undrained := live.2 ρ R rfl found
  have entry : s.entries (v.key c).2 = some ρ := by
    rcases state with lost | draining | entry
    · rw [unlost] at lost
      cases lost
    · rw [undrained] at draining
      cases draining
    · exact entry
  obtain ⟨R', found', -, -, cancel, -, phase⟩ := guarded.entry _ ρ entry
  rw [found] at found'
  cases found'
  refine ⟨ρ, R, rfl, entry, found, keyed, cancel, ?_⟩
  rcases phase with renewing | lost
  · exact renewing
  · rw [unlost] at lost
    cases lost

/-! ### What the steps keep -/

theorem Guarded.move (guarded : s.Guarded v) {renewers : List Renewer}
    {lease : RoomKey → Option Grant} {counter : RoomKey → Nat}
    (kept : ∀ (ρ : Nat) (R : Renewer), s.renewers[ρ]? = some R → renewers[ρ]? = some R)
    (reused : stage.Reuses → (s.entries (v.key c).2).isSome)
    (read : ∀ g lost, stage = .reading g lost → lost = s.entries (v.key c).2)
    (has : ∀ ρ, stage.Has ρ → (s.stage c).Has ρ ∨ ∃ R, s.renewers[ρ]? = some R ∧
      R.key = v.key c ∧ s.entries (v.key c).2 = some ρ)
    (own : ∀ g ρ, stage ≠ .inserted g ρ)
    (signals : ∀ g signals, stage = .present g signals → ∃ ρ, signals = ⟨some ρ, some ρ⟩) :
    Guarded v { s.move c stage with renewers, lease, counter } := by
  constructor
  · intro session ρ entry
    obtain ⟨R, found, rest⟩ := guarded.entry session ρ entry
    exact ⟨R, kept ρ R found, rest⟩
  · intro d reuses
    by_cases here : d = c
    · subst here
      exact reused (by simpa using reuses)
    · exact guarded.reused d (by simpa [stage_move_of_ne _ _ here] using reuses)
  · intro d g lost reading
    by_cases here : d = c
    · subst here
      exact read g lost (by simpa using reading)
    · exact guarded.read d g lost (by simpa [stage_move_of_ne _ _ here] using reading)
  · intro d ρ holds
    by_cases here : d = c
    · subst here
      rcases has ρ (by simpa using holds) with before | ⟨R, found, keyed, entry⟩
      · obtain ⟨R, found, rest⟩ := guarded.has d ρ before
        exact ⟨R, kept ρ R found, rest⟩
      · exact ⟨R, kept ρ R found, keyed, Or.inr (Or.inr entry)⟩
    · obtain ⟨R, found, rest⟩ :=
        guarded.has d ρ (by simpa [stage_move_of_ne _ _ here] using holds)
      exact ⟨R, kept ρ R found, rest⟩
  · intro d g ρ inserted R found
    by_cases here : d = c
    · subst here
      exact absurd (by simpa using inserted) (own g ρ)
    · have before : s.stage d = .inserted g ρ := by
        simpa [stage_move_of_ne _ _ here] using inserted
      obtain ⟨R', found', -⟩ := guarded.has d ρ (by rw [before]; rfl)
      cases found.symm.trans (kept ρ R' found')
      exact guarded.own d g ρ before R found'
  · intro d g signals' present
    by_cases here : d = c
    · subst here
      exact signals g signals' (by simpa using present)
    · exact guarded.signals d g signals' (by simpa [stage_move_of_ne _ _ here] using present)
  · exact guarded.drains

theorem Guarded.pass (guarded : s.Guarded v) {renewers : List Renewer}
    {lease : RoomKey → Option Grant} {counter : RoomKey → Nat}
    (kept : ∀ (ρ : Nat) (R : Renewer), s.renewers[ρ]? = some R → renewers[ρ]? = some R)
    (reused : ¬ stage.Reuses) (has : ∀ ρ, ¬ stage.Has ρ)
    (absent : ∀ g signals, stage ≠ .present g signals) :
    Guarded v { s.move c stage with renewers, lease, counter } := by
  apply guarded.move kept
  · exact fun reuses => absurd reuses reused
  · rintro g lost rfl
    exact absurd trivial reused
  · exact fun ρ holds => absurd holds (has ρ)
  · rintro g ρ rfl
    exact has ρ rfl
  · exact fun g signals present => absurd present (absent g signals)

theorem getElem?_append {more : List Renewer} {ρ : Nat} {R : Renewer}
    (found : s.renewers[ρ]? = some R) : (s.renewers ++ more)[ρ]? = some R := by
  rw [List.getElem?_append_left (List.getElem?_eq_some_iff.mp found).1]
  exact found

theorem getElem?_update {ρ ρ' : Nat} {f : Renewer → Renewer} {R : Renewer}
    (found : s.renewers[ρ']? = some R) :
    (s.update ρ f).renewers[ρ']? = some (if ρ = ρ' then f R else R) := by
  simp only [update, List.getElem?_modify, found]
  rfl

/-- A renewer goes on: its lease is the same, and it stops only when it is cancelled or tells of
the loss. -/
structure Goes (R R' : Renewer) : Prop where
  key : R'.key = R.key
  generation : R'.generation = R.generation
  cancel : R'.cancel = R.cancel
  draining : R'.draining = R.draining
  lost : R.lost = true → R'.lost = true
  runs : R.cancel = false → (R.phase = .renewing ∨ R.lost = true) →
    (R'.phase = .renewing ∨ R'.lost = true)

theorem Guarded.update (guarded : s.Guarded v) {ρ : Nat} {f : Renewer → Renewer}
    {lease : RoomKey → Option Grant}
    (goes : ∀ R, s.renewers[ρ]? = some R → Goes R (f R)) :
    Guarded v { s.update ρ f with lease } := by
  have went : ∀ (ρ' : Nat) (R : Renewer), s.renewers[ρ']? = some R →
      Goes R (if ρ = ρ' then f R else R) := by
    intro ρ' R found
    split
    next same => exact goes R (same ▸ found)
    next => exact ⟨rfl, rfl, rfl, rfl, id, fun _ => id⟩
  constructor
  · intro session ρ' entry
    obtain ⟨R, found, keyed, ⟨c, whose⟩, cancel, draining, phase⟩ := guarded.entry session ρ' entry
    have next := went ρ' R found
    refine ⟨_, getElem?_update found, ?_, ⟨c, ?_⟩, ?_, ?_, ?_⟩
    · rw [next.key]
      exact keyed
    · rw [next.key]
      exact whose
    · rw [next.cancel]
      exact cancel
    · rw [next.draining]
      exact draining
    · exact next.runs cancel phase
  · exact guarded.reused
  · exact guarded.read
  · intro d ρ' has
    obtain ⟨R, found, keyed, state⟩ := guarded.has d ρ' has
    have next := went ρ' R found
    refine ⟨_, getElem?_update found, next.key.trans keyed, ?_⟩
    rcases state with lost | draining | entry
    · exact Or.inl (next.lost lost)
    · exact Or.inr (Or.inl (next.draining.trans draining))
    · exact Or.inr (Or.inr entry)
  · intro d g ρ' inserted R' found'
    obtain ⟨R, found, -⟩ := guarded.has d ρ' (by rw [show s.stage d = _ from inserted]; rfl)
    cases found'.symm.trans (getElem?_update found)
    rw [(went ρ' R found).generation]
    exact guarded.own d g ρ' inserted R found
  · exact guarded.signals
  · exact guarded.drains

/-- What `remove_if` does when the entry has the generation, and that it does nothing otherwise. -/
theorem removeIf_cases (s : Registry) (session : Uuid) (g : Nat) (drains : Bool) :
    (∃ ρ R, s.Finds session g ρ R ∧ s.removeIf session g drains =
      { s.update ρ fun R => { R with cancel := true, draining := R.draining || drains } with
        entries := Function.update s.entries session none }) ∨
    ((∀ ρ R, ¬ s.Finds session g ρ R) ∧ s.removeIf session g drains = s) := by
  unfold removeIf
  split
  next none =>
    refine Or.inr ⟨?_, rfl⟩
    rintro ρ R ⟨entry, -⟩
    rw [none] at entry
    cases entry
  next ρ entry =>
    split
    next none =>
      refine Or.inr ⟨?_, rfl⟩
      rintro ρ' R ⟨entry', found, -⟩
      rw [entry] at entry'
      cases entry'
      rw [none] at found
      cases found
    next R found =>
      split
      next same => exact Or.inl ⟨ρ, R, ⟨entry, found, same⟩, rfl⟩
      next differs =>
        refine Or.inr ⟨?_, rfl⟩
        rintro ρ' R' ⟨entry', found', same⟩
        rw [entry] at entry'
        cases entry'
        rw [found] at found'
        cases found'
        exact differs same

/-- An entry is removed that no join is about to use. Who has its tokens is told, or the lease was
lost. -/
theorem Guarded.removeIf (guarded : s.Guarded v) {session : Uuid} {g : Nat} {drains : Bool}
    (unused : ∀ ρ R, s.Finds session g ρ R → ∀ d, (v.key d).2 = session → ¬ (s.stage d).Reuses)
    (told : ∀ ρ R, s.Finds session g ρ R → ∀ d, (v.key d).2 = session → (s.stage d).Has ρ →
      drains = true ∨ R.lost = true) : Guarded v (s.removeIf session g drains) := by
  rcases removeIf_cases s session g drains with ⟨ρ, R, finds, removed⟩ | ⟨-, same⟩
  · rw [removed]
    have entry := finds.1
    have found := finds.2.1
    -- two sessions have two renewers
    have only : ∀ session', session' ≠ session → s.entries session' ≠ some ρ := by
      intro session' differs entry'
      obtain ⟨R₁, found₁, keyed₁, -⟩ := guarded.entry session ρ entry
      obtain ⟨R₂, found₂, keyed₂, -⟩ := guarded.entry session' ρ entry'
      rw [found₁] at found₂
      cases found₂
      exact differs (keyed₂.symm.trans keyed₁)
    constructor
    · intro session' ρ' entry'
      simp only [Function.update_apply] at entry'
      split at entry'
      · cases entry'
      next differs =>
        obtain ⟨R', found', rest⟩ := guarded.entry session' ρ' entry'
        have other : ρ ≠ ρ' := by
          rintro rfl
          exact only session' differs entry'
        refine ⟨R', ?_, rest⟩
        have after := getElem?_update (ρ := ρ)
          (f := fun R => { R with cancel := true, draining := R.draining || drains }) found'
        rw [if_neg other] at after
        exact after
    · intro d reuses
      have differs : (v.key d).2 ≠ session := fun same => unused ρ R finds d same reuses
      simpa [Function.update_of_ne differs] using guarded.reused d reuses
    · intro d g' lost reading
      have reuses : (s.stage d).Reuses := by
        rw [show s.stage d = .reading g' lost from reading]
        trivial
      have differs : (v.key d).2 ≠ session := fun same => unused ρ R finds d same reuses
      simpa [Function.update_of_ne differs] using guarded.read d g' lost reading
    · intro d ρ' has
      obtain ⟨R', found', keyed, state⟩ := guarded.has d ρ' has
      refine ⟨_, getElem?_update found', ?_, ?_⟩
      · split
        · exact keyed
        · exact keyed
      · by_cases here : ρ = ρ'
        · subst here
          rw [found] at found'
          cases found'
          rw [if_pos rfl]
          by_cases same : (v.key d).2 = session
          · rcases told ρ R finds d same has with drained | lost
            · exact Or.inr (Or.inl (by simp [drained]))
            · exact Or.inl lost
          · rcases state with lost | draining | entry'
            · exact Or.inl lost
            · exact Or.inr (Or.inl (by simp [draining]))
            · exact absurd entry' (only _ same)
        · rw [if_neg here]
          rcases state with lost | draining | entry'
          · exact Or.inl lost
          · exact Or.inr (Or.inl draining)
          · refine Or.inr (Or.inr ?_)
            have differs : (v.key d).2 ≠ session := by
              intro same
              rw [same, entry] at entry'
              exact here (Option.some.inj entry')
            simpa [Function.update_of_ne differs] using entry'
    · intro d g' ρ' inserted R' found'
      obtain ⟨R₁, found₁, -⟩ := guarded.has d ρ' (by rw [show s.stage d = _ from inserted]; rfl)
      cases found'.symm.trans (getElem?_update found₁)
      have same := guarded.own d g' ρ' inserted R₁ found₁
      split
      · exact same
      · exact same
    · exact guarded.signals
    · exact guarded.drains
  · rw [same]
    exact guarded

theorem Guarded.silence (guarded : s.Guarded v) {ρ : Nat}
    (unlisted : ∀ session, s.entries session ≠ some ρ) :
    Guarded v (s.update ρ fun R => { R with cancel := true, draining := true }) := by
  constructor
  · intro session ρ' entry
    obtain ⟨R, found, rest⟩ := guarded.entry session ρ' entry
    have other : ρ ≠ ρ' := by
      rintro rfl
      exact unlisted session entry
    have after := getElem?_update (ρ := ρ)
      (f := fun R => { R with cancel := true, draining := true }) found
    rw [if_neg other] at after
    exact ⟨R, after, rest⟩
  · exact guarded.reused
  · exact guarded.read
  · intro d ρ' has
    obtain ⟨R, found, keyed, state⟩ := guarded.has d ρ' has
    refine ⟨_, getElem?_update found, ?_, ?_⟩
    · split
      · exact keyed
      · exact keyed
    · split
      · exact Or.inr (Or.inl rfl)
      · exact state
  · intro d g ρ' inserted R' found'
    obtain ⟨R, found, -⟩ := guarded.has d ρ' (by rw [show s.stage d = _ from inserted]; rfl)
    cases found'.symm.trans (getElem?_update found)
    have same := guarded.own d g ρ' inserted R found
    split
    · exact same
    · exact same
  · exact guarded.signals
  · exact guarded.drains

theorem Guarded.insert (guarded : s.Guarded v) {g : Nat} (none : s.entries (v.key c).2 = none) :
    Guarded v { s.move c (.inserted g s.renewers.length) with
      renewers := s.renewers ++ [{ key := v.key c, generation := g }]
      entries := Function.update s.entries (v.key c).2 (some s.renewers.length) } := by
  have new : (s.renewers ++ [({ key := v.key c, generation := g } : Renewer)])[s.renewers.length]? =
      some { key := v.key c, generation := g } := by
    simp
  have elsewhere : ∀ session ρ, s.entries session = some ρ → session ≠ (v.key c).2 := by
    rintro session ρ entry rfl
    rw [none] at entry
    cases entry
  constructor
  · intro session ρ entry
    simp only [Function.update_apply] at entry
    split at entry
    next same =>
      cases entry
      exact ⟨_, new, same.symm, ⟨c, rfl⟩, rfl, rfl, Or.inl rfl⟩
    next =>
      obtain ⟨R, found, rest⟩ := guarded.entry session ρ entry
      exact ⟨R, getElem?_append found, rest⟩
  · intro d reuses
    have other : d ≠ c := by
      rintro rfl
      simp [JoinStage.Reuses] at reuses
    have before := guarded.reused d (by simpa [stage_move_of_ne _ _ other] using reuses)
    obtain ⟨ρ, entry⟩ := Option.isSome_iff_exists.mp before
    simpa [Function.update_of_ne (elsewhere _ ρ entry)] using before
  · intro d g' lost reading
    have other : d ≠ c := by
      rintro rfl
      simp at reading
    have reading : s.stage d = .reading g' lost := by
      simpa [stage_move_of_ne _ _ other] using reading
    have before := guarded.reused d (by rw [reading]; trivial)
    obtain ⟨ρ, entry⟩ := Option.isSome_iff_exists.mp before
    simpa [Function.update_of_ne (elsewhere _ ρ entry)] using guarded.read d g' lost reading
  · intro d ρ has
    by_cases here : d = c
    · subst here
      obtain rfl : s.renewers.length = ρ := by simpa [JoinStage.Has] using has
      exact ⟨_, new, rfl, Or.inr (Or.inr (Function.update_self ..))⟩
    · obtain ⟨R, found, keyed, state⟩ :=
        guarded.has d ρ (by simpa [stage_move_of_ne _ _ here] using has)
      refine ⟨R, getElem?_append found, keyed, ?_⟩
      rcases state with lost | draining | entry
      · exact Or.inl lost
      · exact Or.inr (Or.inl draining)
      · refine Or.inr (Or.inr ?_)
        simpa [Function.update_of_ne (elsewhere _ ρ entry)] using entry
  · intro d g' ρ inserted R found
    by_cases here : d = c
    · subst here
      obtain ⟨rfl, rfl⟩ : g = g' ∧ s.renewers.length = ρ := by simpa using inserted
      cases found.symm.trans new
      rfl
    · have before : s.stage d = .inserted g' ρ := by
        simpa [stage_move_of_ne _ _ here] using inserted
      obtain ⟨R', found', -⟩ := guarded.has d ρ (by rw [before]; rfl)
      cases found.symm.trans (getElem?_append found')
      exact guarded.own d g' ρ before R found'
  · intro d g' signals present
    have other : d ≠ c := by
      rintro rfl
      simp at present
    exact guarded.signals d g' signals (by simpa [stage_move_of_ne _ _ other] using present)
  · exact guarded.drains

theorem removeIf_stage (session : Uuid) (g : Nat) (drains : Bool) :
    (s.removeIf session g drains).stage = s.stage := by
  rcases removeIf_cases s session g drains with ⟨ρ, R, -, removed⟩ | ⟨-, same⟩
  · rw [removed]
    rfl
  · rw [same]

theorem Guarded.retract (guarded : s.Guarded v) {g ρ : Nat} (inserted : s.stage c = .inserted g ρ)
    (unused : ∀ ρ' R, s.Finds (v.key c).2 g ρ' R →
      ∀ d, (v.key d).2 = (v.key c).2 → ¬ (s.stage d).Reuses) :
    Guarded v ((s.removeIf (v.key c).2 g true).update ρ fun R =>
      { R with cancel := true, draining := true }) := by
  apply (guarded.removeIf unused fun _ _ _ _ _ _ => Or.inl rfl).silence
  obtain ⟨R, found, keyed, -⟩ := guarded.has c ρ (by rw [inserted]; rfl)
  have own := guarded.own c g ρ inserted R found
  intro session entry
  rcases removeIf_cases s (v.key c).2 g true with ⟨ρ', R', finds, removed⟩ | ⟨nothing, same⟩
  · rw [removed] at entry
    simp only [Function.update_apply] at entry
    split at entry
    · cases entry
    next differs =>
      -- the renewer belongs to the session of the client
      obtain ⟨R₁, found₁, keyed₁, -⟩ := guarded.entry session ρ entry
      rw [found] at found₁
      cases found₁
      rw [keyed] at keyed₁
      exact differs keyed₁.symm
  · rw [same] at entry
    obtain ⟨R₁, found₁, keyed₁, -⟩ := guarded.entry session ρ entry
    rw [found] at found₁
    cases found₁
    rw [keyed] at keyed₁
    subst keyed₁
    exact nothing ρ R ⟨entry, found, own⟩

theorem Guarded.resolve (guarded : s.Guarded v) (grant : Grant) :
    Guarded v (s.resolve c grant) := by
  unfold Registry.resolve
  split
  · exact guarded.pass (fun _ _ found => found) nofun nofun nofun
  · exact guarded.pass (fun _ _ found => found) nofun nofun nofun

theorem Guarded.keyed (guarded : s.Guarded v) {key : RoomKey} (whose : ∃ c, v.key c = key)
    (unshared : ∀ c d, (v.key c).2 = (v.key d).2 → v.key c = v.key d) {ρ : Nat} {R : Renewer}
    (entry : s.entries key.2 = some ρ) (found : s.renewers[ρ]? = some R) : R.key = key := by
  obtain ⟨c, rfl⟩ := whose
  obtain ⟨R', found', session, ⟨d, keyed⟩, -⟩ := guarded.entry _ ρ entry
  rw [found] at found'
  cases found'
  rw [← keyed]
  exact unshared d c (by rw [keyed, session])

theorem Guarded.perform {a : RegistryAction} (guarded : s.Guarded v) (prudent : s.Prudent v a)
    (unshared : ∀ c d, (v.key c).2 = (v.key d).2 → v.key c = v.key d)
    (performed : v.perform s a = some s') : s'.Guarded v := by
  have same : ∀ (ρ : Nat) (R : Renewer), s.renewers[ρ]? = some R → s.renewers[ρ]? = some R :=
    fun _ _ found => found
  cases a with
  | start c =>
    simp only [Joiners.perform] at performed
    split at performed
    · cases performed
      apply guarded.pass same
      · split <;> exact nofun
      · split <;> exact nofun
      · split <;> exact nofun
    · cases performed
  | ownerOf c =>
    simp only [Joiners.perform] at performed
    split at performed
    · cases performed
      exact guarded.resolve _
    · cases performed
      exact guarded.pass same nofun nofun nofun
    · cases performed
  | acquire c =>
    simp only [Joiners.perform] at performed
    split at performed
    · cases performed
      exact guarded.resolve _
    · cases performed
      exact guarded.pass same nofun nofun nofun
    · cases performed
  | ready c =>
    simp only [Joiners.perform] at performed
    split at performed
    · cases performed
      by_cases listed : (s.entries (v.key c).2).isSome
      · rw [if_pos listed]
        exact guarded.move same (fun _ => listed) nofun nofun nofun nofun
      · rw [if_neg listed]
        exact guarded.pass same nofun nofun nofun
    · cases performed
  | enter c =>
    simp only [Joiners.perform] at performed
    split at performed
    next g acquired resolved =>
      cases performed
      apply guarded.move same
      · intro reuses
        exact guarded.reused c (by rw [resolved]; exact reuses)
      · exact nofun
      · exact nofun
      · exact nofun
      · exact nofun
    next => cases performed
  | fail c =>
    simp only [Joiners.perform] at performed
    split at performed
    all_goals first
      | (cases performed; exact guarded.pass same nofun nofun nofun)
      | cases performed
  | attach c =>
    simp only [Joiners.perform] at performed
    split at performed
    · split at performed
      · cases performed
        exact guarded.pass (fun _ _ found => getElem?_append found) nofun nofun nofun
      · cases performed
        exact guarded.pass same nofun nofun nofun
    · cases performed
  | lookup c =>
    simp only [Joiners.perform] at performed
    split at performed
    next g ρ attaching entry =>
      cases performed
      obtain ⟨R, found, -⟩ := guarded.entry _ ρ entry
      apply guarded.move (fun _ _ found => getElem?_append found)
      · exact nofun
      · exact nofun
      · intro ρ' has
        obtain rfl : ρ = ρ' := Option.some.inj has
        exact Or.inr ⟨R, found, guarded.keyed ⟨c, rfl⟩ unshared entry found, entry⟩
      · exact nofun
      · rintro _ _ ⟨⟩
        exact ⟨ρ, rfl⟩
    next =>
      cases performed
      exact guarded.pass same nofun nofun nofun
    next => cases performed
  | insert c =>
    simp only [Joiners.perform] at performed
    split at performed
    · cases performed
      exact guarded.insert prudent
    · cases performed
  | recheck c =>
    simp only [Joiners.perform] at performed
    split at performed
    next g ρ inserted =>
      cases performed
      split
      next draining =>
        have retracted := guarded.retract inserted fun ρ' R finds =>
          prudent draining g ρ ρ' R inserted finds
        have still : ((s.removeIf (v.key c).2 g true).update ρ fun R =>
            { R with cancel := true, draining := true }).stage c = .inserted g ρ := by
          rw [← inserted]
          exact congrFun (removeIf_stage ..) c
        apply retracted.move (fun _ _ found => found)
        · exact nofun
        · exact nofun
        · intro ρ' has
          left
          rw [still]
          exact Option.some.inj has
        · exact nofun
        · rintro _ _ ⟨⟩
          exact ⟨ρ, rfl⟩
      next =>
        apply guarded.move same
        · exact nofun
        · exact nofun
        · intro ρ' has
          left
          rw [inserted]
          exact Option.some.inj has
        · exact nofun
        · rintro _ _ ⟨⟩
          exact ⟨ρ, rfl⟩
    next => cases performed
  | readLost c =>
    simp only [Joiners.perform] at performed
    split at performed
    next g entered =>
      cases performed
      apply guarded.move same
      · intro _
        exact guarded.reused c (by rw [entered]; rfl)
      · rintro _ _ ⟨⟩
        rfl
      · exact nofun
      · exact nofun
      · exact nofun
    next => cases performed
  | readDraining c =>
    simp only [Joiners.perform] at performed
    split at performed
    next g lost reading =>
      cases performed
      -- the entry is the one that was read before
      obtain rfl := guarded.read c g lost reading
      obtain ⟨ρ, entry⟩ := Option.isSome_iff_exists.mp
        (guarded.reused c (by rw [reading]; trivial))
      obtain ⟨R, found, -⟩ := guarded.entry _ ρ entry
      apply guarded.move same
      · exact nofun
      · exact nofun
      · intro ρ' has
        obtain rfl : ρ = ρ' := Option.some.inj (entry.symm.trans has)
        exact Or.inr ⟨R, found, guarded.keyed ⟨c, rfl⟩ unshared entry found, entry⟩
      · exact nofun
      · rintro _ _ ⟨⟩
        exact ⟨ρ, by rw [entry]⟩
    next => cases performed
  | leave c =>
    simp only [Joiners.perform] at performed
    split at performed
    · cases performed
      exact guarded.pass same nofun nofun nofun
    · cases performed
      exact guarded.pass same nofun nofun nofun
    · cases performed
  | release c =>
    simp only [Joiners.perform] at performed
    split at performed
    next g leaving =>
      cases performed
      have removed : Guarded v (s.removeIf (v.key c).2 g false) := by
        apply guarded.removeIf
        · intro ρ R finds d session
          exact (prudent g ρ R leaving finds d (unshared d c session)).1
        · intro ρ R finds d session has
          right
          cases lost : R.lost with
          | true => rfl
          | false =>
            exact absurd has ((prudent g ρ R leaving finds d (unshared d c session)).2 lost)
      exact removed.pass (fun _ _ found => found) nofun nofun nofun
    next => cases performed
  | finish c =>
    simp only [Joiners.perform] at performed
    split at performed
    · cases performed
      exact guarded.pass same nofun nofun nofun
    · cases performed
  | startDrain =>
    cases performed
    exact ⟨guarded.entry, guarded.reused, guarded.read, guarded.has, guarded.own, guarded.signals,
      guarded.drains⟩
  | collect session =>
    simp only [Joiners.perform] at performed
    split at performed
    next R found =>
      split at performed
      · cases performed
        refine ⟨guarded.entry, guarded.reused, guarded.read, guarded.has, guarded.own,
          guarded.signals, ?_⟩
        intro item member
        rcases List.mem_cons.mp member with rfl | before
        · obtain ⟨ρ, entry, found⟩ := Option.bind_eq_some_iff.mp found
          obtain ⟨R', found', keyed, whose, -⟩ := guarded.entry session ρ entry
          cases found.symm.trans found'
          exact ⟨keyed, whose⟩
        · exact guarded.drains item before
      · cases performed
    next => cases performed
  | drain item =>
    simp only [Joiners.perform] at performed
    split at performed
    · cases performed
      have removed : Guarded v (s.removeIf item.session item.generation true) :=
        guarded.removeIf prudent fun _ _ _ _ _ _ => Or.inl rfl
      refine ⟨removed.entry, removed.reused, removed.read, removed.has, removed.own,
        removed.signals, ?_⟩
      exact fun other member => guarded.drains other (List.mem_of_mem_erase member)
    · cases performed
  | renew ρ answered =>
    simp only [Joiners.perform] at performed
    split at performed
    · split at performed
      · cases performed
      · split at performed
        · cases performed
          exact guarded
        · cases performed
          exact guarded.update fun R _ => ⟨rfl, rfl, rfl, rfl, fun _ => rfl, fun _ _ => Or.inr rfl⟩
    · cases performed
  | noticeCancel ρ =>
    simp only [Joiners.perform] at performed
    split at performed
    next R found =>
      split at performed
      next cancelled =>
        cases performed
        apply guarded.update
        intro R' found'
        cases found.symm.trans found'
        refine ⟨rfl, rfl, rfl, rfl, id, fun uncancelled => ?_⟩
        rw [cancelled.2] at uncancelled
        cases uncancelled
      next => cases performed
    next => cases performed
  | giveBack ρ answered =>
    simp only [Joiners.perform] at performed
    split at performed
    next R found =>
      split at performed
      next callerCancelled leaving =>
        -- a renewer that has left its loop was cancelled or tells of the loss
        have lost : R.cancel = false → (R.phase = .renewing ∨ R.lost = true) → R.lost = true := by
          rintro - (renewing | lost)
          · rw [leaving] at renewing
            cases renewing
          · exact lost
        have goes : ∀ R', s.renewers[ρ]? = some R' → R' = R := by
          intro R' found'
          cases found.symm.trans found'
          rfl
        split at performed
        · split at performed
          · cases performed
            apply guarded.update
            intro R' found'
            obtain rfl := goes R' found'
            exact ⟨rfl, rfl, rfl, rfl, id, fun c p => Or.inr (lost c p)⟩
          · cases performed
            exact guarded.update fun R _ =>
              ⟨rfl, rfl, rfl, rfl, fun _ => rfl, fun _ _ => Or.inr rfl⟩
        · cases performed
          apply guarded.update
          intro R' found'
          obtain rfl := goes R' found'
          refine ⟨rfl, rfl, rfl, rfl, fun l => by simp [l], fun c p => Or.inr ?_⟩
          simp [lost c p]
      next => cases performed
    next => cases performed
  | expire key =>
    cases performed
    exact ⟨guarded.entry, guarded.reused, guarded.read, guarded.has, guarded.own, guarded.signals,
      guarded.drains⟩
  | otherAcquires key =>
    simp only [Joiners.perform] at performed
    split at performed
    · cases performed
      exact ⟨guarded.entry, guarded.reused, guarded.read, guarded.has, guarded.own,
        guarded.signals, guarded.drains⟩
    · cases performed
  | idle =>
    cases performed
    exact guarded

/-- `remove_if` cancels the renewer of the entry with the generation, and no other. -/
theorem finds_of_cancels {session : Uuid} {g : Nat} {drains : Bool} {R : Renewer}
    (cancels : s.Cancels (s.removeIf session g drains) R) : ∃ ρ, s.Finds session g ρ R := by
  obtain ⟨ρ, R', found, uncancelled, after, cancelled⟩ := cancels
  rcases removeIf_cases s session g drains with ⟨ρ₁, R₁, finds, removed⟩ | ⟨-, same⟩
  · rw [removed] at after
    cases after.symm.trans (getElem?_update found)
    split at cancelled
    next same =>
      subst same
      cases finds.2.1.symm.trans found
      exact ⟨ρ₁, finds⟩
    next =>
      rw [uncancelled] at cancelled
      cases cancelled
  · rw [same, found] at after
    cases after
    rw [uncancelled] at cancelled
    cases cancelled

theorem Guarded.of_release (guarded : s.Guarded v)
    (unshared : ∀ c d, (v.key c).2 = (v.key d).2 → v.key c = v.key d) {g : Nat} {R : Renewer}
    (leaving : s.stage c = .leaving g) (performed : v.perform s (.release c) = some s')
    (cancels : s.Cancels s' R) : R.key = v.key c ∧ R.generation = g := by
  simp only [Joiners.perform, leaving, Option.some.injEq] at performed
  subst performed
  have inner : s.Cancels (s.removeIf (v.key c).2 g false) R := cancels
  obtain ⟨ρ, entry, found, same⟩ := finds_of_cancels inner
  exact ⟨guarded.keyed ⟨c, rfl⟩ unshared entry found, same⟩

theorem Guarded.of_drain (guarded : s.Guarded v)
    (unshared : ∀ c d, (v.key c).2 = (v.key d).2 → v.key c = v.key d) {item : DrainItem}
    {R : Renewer} (performed : v.perform s (.drain item) = some s') (cancels : s.Cancels s' R) :
    R.key = item.key ∧ R.generation = item.generation := by
  simp only [Joiners.perform] at performed
  split at performed
  next member =>
    cases performed
    have inner : s.Cancels (s.removeIf item.session item.generation true) R := cancels
    obtain ⟨ρ, entry, found, same⟩ := finds_of_cancels inner
    obtain ⟨session, whose⟩ := guarded.drains item member
    rw [← session] at entry
    exact ⟨guarded.keyed whose unshared entry found, same⟩
  next => cases performed

end Registry

namespace Joiners

variable {v : Joiners}

theorem Run.guarded (run : v.Run) (start : run.state 0 = {})
    (unshared : ∀ c d, (v.key c).2 = (v.key d).2 → v.key c = v.key d)
    (prudent : ∀ n, (run.state n).Prudent v (run.action n)) (n : Nat) :
    (run.state n).Guarded v := by
  induction n with
  | zero =>
    rw [start]
    exact Registry.guarded_initial
  | succ n ih => exact ih.perform (prudent n) unshared (run.steps n)

/-- A peer whose tokens are not cancelled has a running renewer for its own lease, and a release or a
drain cancels only the renewer of the lease that it is about. -/
theorem Run.watched (run : v.Run) (start : run.state 0 = {})
    (unshared : ∀ c d, (v.key c).2 = (v.key d).2 → v.key c = v.key d)
    (prudent : ∀ n, (run.state n).Prudent v (run.action n)) (n : Nat) :
    (∀ c g signals, (run.state n).stage c = .present g signals →
      (run.state n).Unsignalled signals → (run.state n).Backed (v.key c) signals) ∧
    (∀ c g R, run.action n = .release c → (run.state n).stage c = .leaving g →
      (run.state n).Cancels (run.state (n + 1)) R → R.key = v.key c ∧ R.generation = g) ∧
    (∀ item R, run.action n = .drain item →
      (run.state n).Cancels (run.state (n + 1)) R →
      R.key = item.key ∧ R.generation = item.generation) := by
  have guarded := run.guarded start unshared prudent n
  refine ⟨fun c g signals present live => guarded.backed present live, ?_, ?_⟩
  · intro c g R action leaving cancels
    exact guarded.of_release unshared leaving (action ▸ run.steps n) cancels
  · intro item R action cancels
    exact guarded.of_drain unshared (action ▸ run.steps n) cancels

end Joiners

/-! ### Two communities with one channel UUID -/

namespace Sample

open Registry

def acquires (x : Uuid) : List RegistryAction :=
  [.start x, .ownerOf x, .acquire x, .enter x, .attach x, .lookup x]

/-- Alice's channel has the same UUID as bob's, in another community. -/
def twoCommunities : Joiners where
  key x := if x = ⟨1⟩ then (⟨⟨7⟩⟩, ⟨100⟩) else (⟨⟨8⟩⟩, ⟨100⟩)

def twoOwners : twoCommunities.Run :=
  .ofList {} (acquires ⟨1⟩ ++ [RegistryAction.insert ⟨1⟩, RegistryAction.recheck ⟨1⟩] ++ acquires ⟨2⟩) .idle
    (by decide) fun _ => rfl

/-- Alice and bob are in one huddle, everybody else in one of their own. -/
def pair : Joiners where
  key x := (⟨⟨7⟩⟩, if x = ⟨2⟩ then ⟨1⟩ else x)

def reusedActions : List RegistryAction :=
  acquires ⟨1⟩ ++ [RegistryAction.insert ⟨1⟩, RegistryAction.recheck ⟨1⟩] ++
    ([.start ⟨2⟩, .ownerOf ⟨2⟩, .ready ⟨2⟩, .enter ⟨2⟩, .readLost ⟨2⟩, .readDraining ⟨2⟩] :
      List RegistryAction) ++
    [RegistryAction.renew 0 true, RegistryAction.leave ⟨1⟩, RegistryAction.finish ⟨1⟩]

/-- Bob takes the signals of alice's entry, and she leaves. -/
def reused : pair.Run := .ofList {} reusedActions .idle (by decide) fun _ => rfl

/-- Entries are only installed, where there are none. -/
def Installs (s : Registry) : RegistryAction → Prop
  | .insert c => s.entries (pair.key c).2 = none
  | .release _ | .drain _ => False
  | .recheck _ => s.isDraining = false
  | _ => True

instance (s : Registry) (a : RegistryAction) : Decidable (Installs s a) := by
  unfold Installs
  split <;> infer_instance

theorem Installs.prudent {s : Registry} {a : RegistryAction} (installs : Installs s a) :
    s.Prudent pair a := by
  unfold Installs at installs
  split at installs
  next => exact installs
  next => exact installs.elim
  next => exact installs.elim
  next c =>
    intro draining
    rw [installs] at draining
    cases draining
  next other₁ other₂ other₃ other₄ =>
    unfold Prudent
    split
    next c => exact absurd rfl (other₁ c)
    next c => exact absurd rfl (other₂ c)
    next item => exact absurd rfl (other₃ item)
    next c => exact absurd rfl (other₄ c)
    next => trivial

theorem reused_prudent (n : Nat) : (reused.state n).Prudent pair (reused.action n) := by
  apply Installs.prudent
  apply Trace.forall_ofList (P := Installs)
  · decide
  · exact fun _ => trivial

theorem unsignalled {s : Registry} {R : Renewer} (renewer : s.renewers[0]? = some R)
    (lost : R.lost = false) (draining : R.draining = false) :
    s.Unsignalled ⟨some 0, some 0⟩ := by
  constructor
  · rintro ρ R' ⟨⟩ found
    cases renewer.symm.trans found
    exact lost
  · rintro ρ R' ⟨⟩ found
    cases renewer.symm.trans found
    exact draining

end Sample

/-- Bob has the tokens of the lease that alice acquired. -/
theorem watched_bob :
    (Sample.reused.state 17).Backed (⟨⟨7⟩⟩, ⟨1⟩) ⟨some 0, some 0⟩ := by
  have renewer : (Sample.reused.state 17).renewers[0]? =
      some { key := (⟨⟨7⟩⟩, ⟨1⟩), generation := 1 } := by
    decide
  apply (Sample.reused.watched rfl (fun _ _ same => Prod.ext rfl same) Sample.reused_prudent 17).1
    ⟨2⟩ 1 ⟨some 0, some 0⟩
  · decide
  · exact Sample.unsignalled renewer rfl rfl

/-- Bob's lease is thrown away, and he watches the one of another community. -/
theorem unwatched_community : ¬ ∀ (v : Joiners) (run : v.Run), run.state 0 = {} → ∀ n c g signals,
    (run.state n).stage c = .present g signals → (run.state n).Unsignalled signals →
    (run.state n).Backed (v.key c) signals := by
  intro watched
  have renewer : (Sample.twoOwners.state 14).renewers[0]? =
      some { key := (⟨⟨7⟩⟩, ⟨100⟩), generation := 1 } := by
    decide
  have backed := watched Sample.twoCommunities Sample.twoOwners rfl 14 ⟨2⟩ 1 ⟨some 0, some 0⟩
    (by decide) (Sample.unsignalled renewer rfl rfl)
  obtain ⟨ρ, R, same, -, found, keyed, -⟩ := backed
  obtain rfl : 0 = ρ := Option.some.inj (congrArg Signals.lost same)
  cases renewer.symm.trans found
  exact absurd keyed (by decide)

end Audio
