import Mathlib.Data.List.Basic

/-!
# Following a log through snapshots and changes

A source makes changes and sends a follower, over a stream that keeps the order, the changes one
after the other and now and then a snapshot of its whole state. It reads the changes to send at a
cursor of its own; when that has fallen back by more than a window the changes in between are gone,
and a snapshot takes their place. A snapshot may be ahead of the cursor, so that changes come after it
that it has already. The follower takes a change only if it is the next one.

A message is named by the number of changes after which its state is the source's. `Fed` is what
holds of the messages under way; the follower never goes back, and the next change that it meets is
not further away than the window, which is what a follower needs that sees only the number modulo
something.
-/
namespace Lib

/-- What a follower is sent. -/
inductive Feed where
  | snapshot (position : Nat)
  | delta (position : Nat)
deriving DecidableEq

namespace Feed

/-- Where a message takes a follower. -/
def follow (reached : Nat) : Feed → Nat
  | snapshot position => position
  | delta position => if position = reached + 1 then position else reached

/-- The message suits a follower that is here. -/
def Fits (window reached : Nat) : Feed → Prop
  | snapshot position => reached ≤ position
  | delta position => position ≤ reached + 1 ∧ reached < position + window

theorem Fits.le_follow {window reached : Nat} {m : Feed} (fits : m.Fits window reached) :
    reached ≤ m.follow reached := by
  cases m with
  | snapshot position => exact fits
  | delta position =>
    simp only [follow]
    split
    · omega
    · exact Nat.le_refl _

end Feed

open Feed

/-- What holds of the messages on their way to a follower. -/
structure Fed (window count cursor reached : Nat) (stream : List Feed) : Prop where
  each : ∀ before m after, stream = before ++ m :: after →
    m.Fits window (before.foldl follow reached)
  ahead : stream.foldl follow reached ≤ count
  behind : cursor ≤ stream.foldl follow reached

namespace Fed

variable {window count cursor reached : Nat} {stream rest : List Feed} {m : Feed}

/-- Nothing is under way to a follower that has nothing. -/
theorem nil (window count : Nat) : Fed window count 0 0 [] where
  each before _ _ split := by
    cases before with
    | nil => cases split
    | cons => cases split
  ahead := Nat.zero_le _
  behind := Nat.le_refl _

/-- The source has made another change. -/
theorem grow (fed : Fed window count cursor reached stream) : Fed window (count + 1) cursor reached stream :=
  { fed with ahead := Nat.le_succ_of_le fed.ahead }

/-- A message that suits the follower when it has read the others. -/
theorem push (fed : Fed window count cursor reached stream)
    (fits : m.Fits window (stream.foldl follow reached)) {cursor' : Nat}
    (ahead : m.follow (stream.foldl follow reached) ≤ count)
    (behind : cursor' ≤ m.follow (stream.foldl follow reached)) :
    Fed window count cursor' reached (stream ++ [m]) where
  each before m' after split := by
    rcases List.append_eq_append_iff.mp split with ⟨added, rfl, last⟩ | ⟨added, rfl, first⟩
    · -- the message is the new one
      cases added with
      | nil =>
        rw [List.nil_append, List.cons.injEq] at last
        rw [← last.1, List.append_nil]
        exact fits
      | cons x added =>
        have lengths := congrArg List.length last
        simp at lengths
    · cases added with
      | nil =>
        rw [List.nil_append, List.cons.injEq] at first
        rw [first.1]
        simpa using fits
      | cons x added =>
        rw [List.cons_append, List.cons.injEq] at first
        rw [first.1]
        exact fed.each before x added rfl
  ahead := by simpa using ahead
  behind := by simpa using behind

/-- The change at the cursor is sent, which is still within the window. -/
theorem pushDelta (fed : Fed window count cursor reached stream) (more : cursor < count)
    (near : count ≤ cursor + window) :
    Fed window count (cursor + 1) reached (stream ++ [Feed.delta (cursor + 1)]) := by
  have ahead := fed.ahead
  have behind := fed.behind
  apply fed.push
  · constructor
    · omega
    · omega
  · simp only [follow]
    split <;> omega
  · simp only [follow]
    split <;> omega

/-- The cursor has left the changes that it was to send next. -/
theorem restart (fed : Fed window count cursor reached stream) :
    Fed window count 0 reached stream :=
  { fed with behind := Nat.zero_le _ }

/-- A snapshot is sent, and the cursor may be moved. -/
theorem pushSnapshot (fed : Fed window count cursor reached stream) {cursor' : Nat}
    (inside : cursor' ≤ count) : Fed window count cursor' reached (stream ++ [Feed.snapshot count]) :=
  fed.push (m := .snapshot count) fed.ahead (Nat.le_refl _) inside

/-- The follower reads the next message. -/
theorem read (fed : Fed window count cursor reached (m :: stream)) :
    m.Fits window reached ∧ Fed window count cursor (m.follow reached) stream := by
  constructor
  · exact fed.each [] m stream rfl
  · constructor
    · intro before m' after split
      exact fed.each (m :: before) m' after (by rw [split]; rfl)
    · exact fed.ahead
    · exact fed.behind

end Fed

end Lib
