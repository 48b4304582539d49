import Buzz.Audio.Manager

/-!
# The owners of huddles on a pod

`HuddleOwnerRegistry`, its renewers and the joins of local clients (`audio/join.rs` and the owner
path of `audio/handler.rs`), against a directory with one fenced lease for each community and
session. An entry of the registry is keyed by the session alone; its tokens are those of its renewer
here. Reading the signals of an entry is two reads, and attaching a lease four steps. A client that
leaves releases the entry or not, as it removed the room or not.
-/
namespace Audio

open Lib Nostr Relay

/-! ### The directory -/

inductive Holder where
  | this
  | other
deriving DecidableEq

/-- A live lease. -/
structure Grant where
  holder : Holder
  generation : Nat
deriving DecidableEq

/-! ### Renewers -/

inductive RenewerPhase where
  | renewing
  /-- The loop has ended, by the caller's cancel or by a loss; the lease is to be released. -/
  | leaving (callerCancelled : Bool)
  | done
deriving DecidableEq

/-- The renewer of a lease, with the tokens of its `HuddleOwnerEntry`. -/
structure Renewer where
  key : RoomKey
  generation : Nat
  cancel : Bool := false
  lost : Bool := false
  draining : Bool := false
  phase : RenewerPhase := .renewing
deriving DecidableEq

/-- `owner_lost` and `owner_draining`, by the renewers whose tokens they are. -/
structure Signals where
  lost : Option Nat
  draining : Option Nat
deriving DecidableEq

/-- Where the join of a client is. -/
inductive JoinStage where
  | outside
  | resolving
  /-- `owner_of` found nobody. -/
  | unowned
  | seen (generation : Nat)
  | resolved (generation : Nat) (acquired : Bool)
  | entered (generation : Nat) (acquired : Bool)
  /-- `attach_signals` after its first look at the flag. -/
  | attaching (generation : Nat)
  /-- It found no entry. -/
  | installing (generation : Nat)
  | inserted (generation renewer : Nat)
  /-- `lost_for` was read. -/
  | reading (generation : Nat) (lost : Option Nat)
  | present (generation : Nat) (signals : Signals)
  /-- Attached while the pod drains: the drain token is cancelled already. -/
  | drained (generation : Nat)
  | leaving (generation : Nat)
  | gone
deriving DecidableEq

/-- A room that `drain_all` found, with the lease of its entry. -/
structure DrainItem where
  session : Uuid
  generation : Nat
  key : RoomKey
deriving DecidableEq

structure Registry where
  lease : RoomKey → Option Grant := fun _ => none
  /-- The generations of the directory. -/
  counter : RoomKey → Nat := fun _ => 0
  renewers : List Renewer := []
  entries : Uuid → Option Nat := fun _ => none
  isDraining : Bool := false
  drains : List DrainItem := []
  stage : Uuid → JoinStage := fun _ => .outside

inductive RegistryAction where
  /-- The client comes, unless the pod drains. -/
  | start (c : Uuid)
  | ownerOf (c : Uuid)
  | acquire (c : Uuid)
  /-- The check of `resolve_join_owner_ready`. -/
  | ready (c : Uuid)
  | enter (c : Uuid)
  /-- The join is refused, or gives up. -/
  | fail (c : Uuid)
  | attach (c : Uuid)
  | lookup (c : Uuid)
  | insert (c : Uuid)
  | recheck (c : Uuid)
  | readLost (c : Uuid)
  | readDraining (c : Uuid)
  | leave (c : Uuid)
  /-- The leaver removed the room. -/
  | release (c : Uuid)
  | finish (c : Uuid)
  | startDrain
  /-- `drain_all` comes to an entry. -/
  | collect (session : Uuid)
  | drain (item : DrainItem)
  /-- A tick of the renewer, with an answer of the directory or an error. -/
  | renew (renewer : Nat) (answered : Bool)
  | noticeCancel (renewer : Nat)
  | giveBack (renewer : Nat) (answered : Bool)
  /-- The lease runs out, or another pod gives it up. -/
  | expire (key : RoomKey)
  | otherAcquires (key : RoomKey)
  | idle
deriving DecidableEq

namespace Registry

def move (s : Registry) (c : Uuid) (stage : JoinStage) : Registry :=
  { s with stage := Function.update s.stage c stage }

@[simp] theorem stage_move_self (s : Registry) (c : Uuid) (stage : JoinStage) :
    (s.move c stage).stage c = stage := Function.update_self ..

theorem stage_move_of_ne (s : Registry) (stage : JoinStage) {c d : Uuid} (other : d ≠ c) :
    (s.move c stage).stage d = s.stage d := Function.update_of_ne other ..

def update (s : Registry) (ρ : Nat) (f : Renewer → Renewer) : Registry :=
  { s with renewers := s.renewers.modify ρ f }

/-- `remove_if` with the generation, which cancels the renewer; a drain tells the peers before. -/
def removeIf (s : Registry) (session : Uuid) (generation : Nat) (drains : Bool) : Registry :=
  match s.entries session with
  | none => s
  | some ρ =>
    match s.renewers[ρ]? with
    | none => s
    | some R =>
      if R.generation = generation then
        { s.update ρ fun R => { R with cancel := true, draining := R.draining || drains } with
          entries := Function.update s.entries session none }
      else s

/-- A renewer that is cancelled from the start gives back a lease that is not needed. -/
def throwAway (s : Registry) (key : RoomKey) (generation : Nat) : Registry :=
  { s with renewers := s.renewers ++ [{ key, generation, cancel := true }] }

/-- `release` in the directory, fenced by the generation. -/
def releaseLease (s : Registry) (R : Renewer) : Registry :=
  { s with lease := Function.update s.lease R.key none }

/-- The directory has the lease of this renewer. -/
def Holds (s : Registry) (R : Renewer) : Prop := s.lease R.key = some ⟨.this, R.generation⟩

instance (s : Registry) (R : Renewer) : Decidable (s.Holds R) :=
  inferInstanceAs (Decidable (_ = _))

/-- The client learns who owns the session; on the way to another owner it is not followed. -/
def resolve (s : Registry) (c : Uuid) (grant : Grant) : Registry :=
  match grant.holder with
  | .this => s.move c (.seen grant.generation)
  | .other => s.move c .gone

end Registry

/-- The sessions that the clients join. -/
structure Joiners where
  key : Uuid → RoomKey

namespace Joiners

variable (v : Joiners)

def perform (s : Registry) : RegistryAction → Option Registry
  | .start c =>
    match s.stage c with
    | .outside => some (s.move c (if s.isDraining then .gone else .resolving))
    | _ => none
  | .ownerOf c =>
    match s.stage c, s.lease (v.key c) with
    | .resolving, some grant => some (s.resolve c grant)
    | .resolving, none => some (s.move c .unowned)
    | _, _ => none
  | .acquire c =>
    match s.stage c, s.lease (v.key c) with
    | .unowned, some grant => some (s.resolve c grant)
    | .unowned, none =>
      let g := s.counter (v.key c) + 1
      some { s.move c (.resolved g true) with
        lease := Function.update s.lease (v.key c) (some ⟨.this, g⟩)
        counter := Function.update s.counter (v.key c) g }
    | _, _ => none
  | .ready c =>
    match s.stage c with
    | .seen g =>
      some (s.move c (if (s.entries (v.key c).2).isSome then .resolved g false else .resolving))
    | _ => none
  | .enter c =>
    match s.stage c with
    | .resolved g acquired => some (s.move c (.entered g acquired))
    | _ => none
  | .fail c =>
    match s.stage c with
    | .resolving | .unowned | .seen _ | .resolved .. => some (s.move c .gone)
    | _ => none
  | .attach c =>
    match s.stage c with
    | .entered g true =>
      if s.isDraining then some ((s.throwAway (v.key c) g).move c (.drained g))
      else some (s.move c (.attaching g))
    | _ => none
  | .lookup c =>
    match s.stage c, s.entries (v.key c).2 with
    | .attaching g, some ρ =>
      some ((s.throwAway (v.key c) g).move c (.present g ⟨some ρ, some ρ⟩))
    | .attaching g, none => some (s.move c (.installing g))
    | _, _ => none
  | .insert c =>
    match s.stage c with
    | .installing g =>
      some { s.move c (.inserted g s.renewers.length) with
        renewers := s.renewers ++ [{ key := v.key c, generation := g }]
        entries := Function.update s.entries (v.key c).2 (some s.renewers.length) }
    | _ => none
  | .recheck c =>
    match s.stage c with
    | .inserted g ρ =>
      let s' := if s.isDraining then
          (s.removeIf (v.key c).2 g true).update ρ fun R =>
            { R with cancel := true, draining := true }
        else s
      some (s'.move c (.present g ⟨some ρ, some ρ⟩))
    | _ => none
  | .readLost c =>
    match s.stage c with
    | .entered g false => some (s.move c (.reading g (s.entries (v.key c).2)))
    | _ => none
  | .readDraining c =>
    match s.stage c with
    | .reading g lost => some (s.move c (.present g ⟨lost, s.entries (v.key c).2⟩))
    | _ => none
  | .leave c =>
    match s.stage c with
    | .present g _ | .drained g => some (s.move c (.leaving g))
    | _ => none
  | .release c =>
    match s.stage c with
    | .leaving g => some ((s.removeIf (v.key c).2 g false).move c .gone)
    | _ => none
  | .finish c =>
    match s.stage c with
    | .leaving _ => some (s.move c .gone)
    | _ => none
  | .startDrain => some { s with isDraining := true }
  | .collect session =>
    match (s.entries session).bind (s.renewers[·]?) with
    | some R => if s.isDraining then
        some { s with drains := ⟨session, R.generation, R.key⟩ :: s.drains } else none
    | none => none
  | .drain item =>
    if item ∈ s.drains then
      some { s.removeIf item.session item.generation true with drains := s.drains.erase item }
    else none
  | .renew ρ answered =>
    match s.renewers[ρ]? with
    | some R =>
      if R.phase ≠ .renewing then none
      else if answered ∧ s.Holds R then some s
      else some (s.update ρ fun R => { R with lost := true, phase := .leaving false })
    | none => none
  | .noticeCancel ρ =>
    match s.renewers[ρ]? with
    | some R =>
      if R.phase = .renewing ∧ R.cancel then
        some (s.update ρ fun R => { R with phase := .leaving true })
      else none
    | none => none
  | .giveBack ρ answered =>
    match s.renewers[ρ]? with
    | some R =>
      match R.phase with
      | .leaving callerCancelled =>
        if answered then
          if s.Holds R then
            some ((s.update ρ fun R => { R with phase := .done }).releaseLease R)
          else some (s.update ρ fun R => { R with lost := true, phase := .done })
        else
          some (s.update ρ fun R => { R with lost := R.lost || !callerCancelled, phase := .done })
      | _ => none
    | none => none
  | .expire key => some { s with lease := Function.update s.lease key none }
  | .otherAcquires key =>
    match s.lease key with
    | none => some { s with
        lease := Function.update s.lease key (some ⟨.other, s.counter key + 1⟩)
        counter := Function.update s.counter key (s.counter key + 1) }
    | some _ => none
  | .idle => some s

abbrev Run := Trace v.perform

end Joiners

end Audio
