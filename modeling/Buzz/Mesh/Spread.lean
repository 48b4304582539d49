import Buzz.Mesh.Authentic

/-!
# Records spread

A runtime that answers the digest of another one tells it everything it knows, if the answer is
not lost. So what a runtime knows reaches every runtime that is a number of hops away within as
many rounds of exchanges, whatever else happens in between.
-/
namespace Mesh

open Lib Nostr
open Tunnel (RuntimeId)

namespace World

/-- The runtime `a` takes a digest of `b`. -/
def answers (w : World) (a b : RuntimeId) : Action → Bool
  | .receive i => match w.frames[i]? with
    | some ⟨sender, receiver, .digest version _⟩ =>
      sender = b ∧ receiver = a ∧ version = gossipPayloadVersion
    | _ => false
  | _ => false

/-- A delta to `b` is lost. -/
def losesTo (w : World) (b : RuntimeId) : Action → Bool
  | .lose i => match w.frames[i]? with
    | some ⟨_, receiver, .delta _ _⟩ => receiver = b
    | _ => false
  | _ => false

def isDeltaTo (b : RuntimeId) : Frame → Bool
  | ⟨_, receiver, .delta _ _⟩ => receiver = b
  | _ => false

/-- A delta to `b` is on its way. -/
def awaits (w : World) (b : RuntimeId) : Bool := w.frames.any (isDeltaTo b)

variable {schnorr : Schnorr} {relay : PublicKey} {w w' : World} {a b r : RuntimeId} {v : Nat}

/-- A record of `r` that is as new as this is on its way to `b`. -/
def Carries (w : World) (b r : RuntimeId) (v : Nat) : Prop :=
  ∃ frame ∈ w.frames, frame.receiver = b ∧ ∃ records, frame.message = .delta gossipPayloadVersion records ∧
    ∃ record ∈ records, record.runtimeId = r ∧ v ≤ record.version

theorem Knows.mono {v' : Nat} (knows : w.Knows a r v) (older : v' ≤ v) : w.Knows a r v' := by
  obtain ⟨m, here, own | held⟩ := knows
  · exact ⟨m, here, Or.inl ⟨own.1, older.trans own.2⟩⟩
  · exact ⟨m, here, Or.inr (held.mono older)⟩

theorem Carries.awaits (carries : w.Carries b r v) : w.awaits b = true := by
  obtain ⟨⟨sender, receiver, message⟩, member, rfl, records, rfl, -⟩ := carries
  exact List.any_eq_true.mpr ⟨_, member, decide_eq_true rfl⟩

theorem exists_record {m : MeshMembership} (own : m.localRuntimeId = a)
    (known : a = r ∧ v ≤ m.localRecord.version ∨ peerRows.Has m.peers r v) :
    ∃ record ∈ m.records, record.runtimeId = r ∧ v ≤ record.version := by
  rcases known with ⟨rfl, newer⟩ | ⟨peer, found, newer⟩
  · exact ⟨m.localRecord, MeshMembership.mem_records.mpr (Or.inl rfl), m.own.trans own, newer⟩
  · have its := Keyed.key_of_get found
    exact ⟨peer.record, MeshMembership.mem_records.mpr (Or.inr ⟨peer, Keyed.mem_of_get found, rfl⟩),
      its, newer⟩

theorem mem_of_remoteVersions {entries : List GossipDigestEntry}
    (listed : remoteVersions entries r = some v) : ⟨r, v⟩ ∈ entries := by
  obtain ⟨entry, found, rfl⟩ := Option.map_eq_some_iff.mp listed
  obtain rfl : entry.runtimeId = r := by simpa using List.find?_some found
  exact List.mem_reverse.mp (List.mem_of_find?_eq_some found)

/-- After the answer the asker knows everything that the other runtime knew, or is about to. -/
theorem Sound.answered (sound : w.Sound schnorr relay) {action : Action}
    (stepped : w.step schnorr relay action = some w') (answers : w.answers a b action = true)
    (knows : w.Knows a r v) : w'.Knows b r v ∨ w'.Carries b r v := by
  have grows := (sound.step stepped).2
  unfold World.answers at answers
  split at answers
  next i =>
    split at answers
    next sender receiver version entries found =>
      obtain ⟨rfl, rfl, rfl⟩ := of_decide_eq_true answers
      dsimp only [World.step] at stepped
      rw [found] at stepped
      obtain ⟨m, here, known⟩ := knows
      dsimp only at stepped
      rw [here] at stepped
      obtain rfl := Option.some.inj stepped
      obtain ⟨record, member, rfl, newer⟩ := exists_record (sound.own _ m here).1 known
      by_cases sent : (remoteVersions entries record.runtimeId).all (· < record.version)
      · refine Or.inr ⟨_, List.mem_append_right _ List.mem_cons_self, rfl, _, rfl, record, ?_, rfl, newer⟩
        exact mem_deltaOf.mpr ⟨member, sent⟩
      · -- The digest says that the asker has the record.
        cases listed : remoteVersions entries record.runtimeId with
        | none =>
          rw [listed] at sent
          exact absurd rfl sent
        | some v' =>
          rw [listed, Option.all_some, decide_eq_true_eq, Nat.not_lt] at sent
          have has := sound.digests _ (List.mem_of_getElem? found) _ entries rfl _
            (mem_of_remoteVersions listed)
          exact Or.inl (grows.knows (has.mono (newer.trans sent)))
    next => cases answers
  next => cases answers

theorem Sound.knows_applied (sound : w.Sound schnorr relay) {m : MeshMembership}
    (here : w.pods b = some m) {record : GossipRecord} (known : w.Known record)
    (there : w'.pods = (w.setPod b (m.applyGossipRecord record).1).pods) :
    w'.Knows b record.runtimeId record.version := by
  have after : w'.pods b = some (m.applyGossipRecord record).1 := by
    rw [there]
    simp [setPod]
  have ownId := (sound.own b m here).1
  by_cases own : record.runtimeId = m.localRuntimeId
  · obtain ⟨owner, found, newer⟩ := sound.le_of_known known
    rw [own, ownId, here] at found
    cases found
    refine ⟨_, after, Or.inl ⟨ownId.symm.trans own.symm, ?_⟩⟩
    rw [(MeshMembership.frame_applyGossipRecord m record).2.2]
    exact newer
  · refine ⟨_, after, Or.inr ?_⟩
    rw [MeshMembership.peers_applyGossipRecord own]
    exact Renewal.has_absorb_self

theorem mem_eraseIdx_or {α : Type} {l : List α} {i : Nat} {x : α} (member : x ∈ l) :
    x ∈ l.eraseIdx i ∨ l[i]? = some x := by
  obtain ⟨j, found⟩ := List.mem_iff_getElem?.mp member
  by_cases same : j = i
  · exact Or.inr (same ▸ found)
  · exact Or.inl (List.mem_eraseIdx_iff_getElem?.mpr ⟨j, same, found⟩)

theorem mem_set_or {α : Type} {l : List α} {i : Nat} {x y : α} (member : x ∈ l) :
    x ∈ l.set i y ∨ l[i]? = some x := by
  obtain ⟨j, found⟩ := List.mem_iff_getElem?.mp member
  by_cases same : i = j
  · exact Or.inr (same ▸ found)
  · refine Or.inl (List.mem_iff_getElem?.mpr ⟨j, ?_⟩)
    rw [List.getElem?_set_ne same]
    exact found

/-- The frame that is taken has nothing more to say, or the first of its records is applied. The
other frames stay. -/
theorem take_cases {i : Nat} {frame : Frame} (found : w.frames[i]? = some frame)
    (m : MeshMembership) :
    ((∀ record later, frame.message ≠ .delta gossipPayloadVersion (record :: later)) ∧
      ∀ other ∈ w.frames, other ≠ frame → other ∈ (w.take i frame m).frames) ∨
    ∃ record later, frame.message = .delta gossipPayloadVersion (record :: later) ∧
      w.take i frame m = { w.setPod frame.receiver (m.applyGossipRecord record).1 with
        frames := w.frames.set i { frame with message := .delta gossipPayloadVersion later } } := by
  have rest : ∀ other ∈ w.frames, other ≠ frame → other ∈ w.frames.eraseIdx i :=
    fun other member ne => (mem_eraseIdx_or member).resolve_right fun same =>
      ne (Option.some.inj (same.symm.trans found))
  unfold World.take
  cases shape : frame.message with
  | digest version entries =>
    refine Or.inl ⟨fun _ _ => nofun, fun other member ne => ?_⟩
    dsimp only
    split
    next => exact rest other member ne
    next => exact List.mem_append_left _ (rest other member ne)
  | delta version records =>
    dsimp only
    split
    next unknown =>
      refine Or.inl ⟨fun record later same => ?_, rest⟩
      cases same
      exact unknown rfl
    next current =>
      obtain rfl := not_not.mp current
      cases records with
      | nil => exact Or.inl ⟨fun _ _ => nofun, rest⟩
      | cons record later => exact Or.inr ⟨record, later, rfl, rfl⟩

/-- What is on its way to a runtime arrives, unless it is lost. -/
theorem Sound.carried (sound : w.Sound schnorr relay) {action : Action}
    (stepped : w.step schnorr relay action = some w') (kept : w.losesTo b action = false)
    (pending : w.Knows b r v ∨ w.Carries b r v) : w'.Knows b r v ∨ w'.Carries b r v := by
  have grows := (sound.step stepped).2
  rcases pending with knows | ⟨frame, member, rfl, records, shape, record, inside, rfl, newer⟩
  · exact Or.inl (grows.knows knows)
  have stays : frame ∈ w'.frames → w'.Carries frame.receiver record.runtimeId v := fun still =>
    ⟨frame, still, rfl, records, shape, record, inside, rfl, newer⟩
  cases action with
  | boot | write | scan | sign =>
    dsimp only [World.step] at stepped
    split at stepped <;> first | cases stepped | skip
    all_goals first
      | exact Or.inr (stays member)
      | (split at stepped <;> cases stepped; exact Or.inr (stays member))
  | expire =>
    cases stepped
    exact Or.inr (stays member)
  | heartbeat | drain | connection =>
    obtain ⟨m, -, rfl⟩ := Option.map_eq_some_iff.mp stepped
    exact Or.inr (stays member)
  | gossip =>
    obtain ⟨m, -, rfl⟩ := Option.map_eq_some_iff.mp stepped
    exact Or.inr (stays (List.mem_append_left _ member))
  | lose i =>
    cases stepped
    rcases mem_eraseIdx_or (i := i) member with still | lost
    · exact Or.inr (stays still)
    · obtain ⟨sender, receiver, message⟩ := frame
      obtain rfl : message = .delta gossipPayloadVersion records := shape
      simp [losesTo, lost] at kept
  | receive i =>
    dsimp only [World.step] at stepped
    split at stepped
    next => cases stepped
    next taken found =>
      obtain ⟨m, here, rfl⟩ := Option.map_eq_some_iff.mp stepped
      rcases take_cases found m with ⟨nothing, rest⟩ | ⟨first, later, told, taken_eq⟩
      · refine Or.inr (stays (rest frame member ?_))
        rintro rfl
        cases records with
        | nil => cases inside
        | cons record later => exact nothing record later shape
      · rw [taken_eq] at stays ⊢
        rcases mem_set_or member with still | same
        · exact Or.inr (stays still)
        · obtain rfl := Option.some.inj (found.symm.trans same)
          obtain rfl := (GossipMessage.delta.inj (shape.symm.trans told)).2
          rcases List.mem_cons.mp inside with rfl | inside
          · have known := sound.deltas taken member _ _ shape record List.mem_cons_self
            exact Or.inl ((sound.knows_applied here known rfl).mono newer)
          · exact Or.inr ⟨_, List.mem_set (List.getElem?_eq_some_iff.mp found).1 _, rfl, later, rfl,
              record, inside, rfl, newer⟩

end World

/-! ### Rounds -/

section Rounds

variable {schnorr : Schnorr} {relay : PublicKey}

/-- From `s` to `e`, `a` answers a digest of `b`, no delta to `b` is lost after that, and `b` has
applied them all. -/
def Exchange (run : Trace (World.step schnorr relay)) (a b : RuntimeId) (s e : Nat) : Prop :=
  ∃ k, s ≤ k ∧ k < e ∧ (run.state k).answers a b (run.action k) = true ∧
    (∀ j, k < j → j < e → (run.state j).losesTo b (run.action j) = false) ∧
    (run.state e).awaits b = false

variable {run : Trace (World.step schnorr relay)}

theorem sound_state (start : run.state 0 = .initial) (n : Nat) :
    (run.state n).Sound schnorr relay :=
  run.invariant (fun _ _ _ stepped sound => (World.Sound.step sound stepped).1) (Nat.zero_le n)
    (start ▸ World.sound_initial)

theorem pending_state (start : run.state 0 = .initial) {b r : RuntimeId} {v k e : Nat}
    (order : k ≤ e)
    (kept : ∀ j, k ≤ j → j < e → (run.state j).losesTo b (run.action j) = false)
    (pending : (run.state k).Knows b r v ∨ (run.state k).Carries b r v) :
    (run.state e).Knows b r v ∨ (run.state e).Carries b r v := by
  induction order with
  | refl => exact pending
  | @step e order ih =>
    exact (sound_state start e).carried (run.steps e) (kept e order (Nat.lt_succ_self e))
      (ih fun j after before => kept j after (Nat.lt_succ_of_lt before))

theorem knows_state (start : run.state 0 = .initial) {a r : RuntimeId} {v m n : Nat}
    (order : m ≤ n) (knows : (run.state m).Knows a r v) : (run.state n).Knows a r v := by
  induction order with
  | refl => exact knows
  | @step n order ih => exact ((sound_state start n).step (run.steps n)).2.knows ih

theorem knows_of_exchange (start : run.state 0 = .initial) {a b r : RuntimeId} {v s e : Nat}
    (exchange : Exchange run a b s e) (knows : (run.state s).Knows a r v) :
    (run.state e).Knows b r v := by
  obtain ⟨k, after, before, answers, kept, quiet⟩ := exchange
  have told := (sound_state start k).answered (run.steps k) answers (knows_state start after knows)
  rcases pending_state start before (fun j after => kept j (by omega)) told with knows | carries
  · exact knows
  · rw [carries.awaits] at quiet
    cases quiet

/-- What a runtime knows at first is known a number of hops away after as many rounds, and a
record that its runtime has not changed in between is then in that table. -/
theorem record_spreads (run : Trace (World.step schnorr relay)) (start : run.state 0 = .initial)
    (hop : Nat → RuntimeId) (time : Nat → Nat) (d : Nat)
    (rounds : ∀ i < d, Exchange run (hop i) (hop (i + 1)) (time i) (time (i + 1))) :
    (∀ r v, (run.state (time 0)).Knows (hop 0) r v → (run.state (time d)).Knows (hop d) r v) ∧
    ∀ owner owner', (run.state (time 0)).pods (hop 0) = some owner →
      (run.state (time d)).pods (hop 0) = some owner' →
      owner'.localRecord.version = owner.localRecord.version →
      1 < owner.localRecord.version → owner.localRecord.version < maxVersion →
      ∃ m, (run.state (time d)).pods (hop d) = some m ∧ owner'.localRecord ∈ m.records := by
  have spread : ∀ r v, (run.state (time 0)).Knows (hop 0) r v →
      (run.state (time d)).Knows (hop d) r v := by
    intro r v knows
    induction d with
    | zero => exact knows
    | succ d ih =>
      exact knows_of_exchange start (rounds d (Nat.lt_succ_self d))
        (ih fun i before => rounds i (Nat.lt_succ_of_lt before))
  refine ⟨spread, ?_⟩
  intro owner owner' here there unchanged later unsaturated
  have sound := sound_state start (time d)
  have own := ((sound_state start (time 0)).own _ owner here).1
  obtain ⟨m, found, known⟩ := spread (hop 0) owner.localRecord.version
    ⟨owner, here, Or.inl ⟨rfl, Nat.le_refl _⟩⟩
  obtain ⟨record, member, its, newer⟩ := World.exists_record (sound.own _ m found).1 known
  -- No table has a newer version than the runtime itself.
  obtain ⟨owner₁, found₁, bound⟩ := sound.le_of_known (sound.known_of_mem found member)
  rw [its, there] at found₁
  cases found₁
  have version : record.version = owner'.localRecord.version := by omega
  have published' := (sound.own _ owner' there).2.1
  rcases sound.known_of_mem found member with published | ⟨first, -⟩
  · have same := sound.unique record published _ published'
      (its.trans ((sound.own _ owner' there).1.symm.trans owner'.own.symm)) version (by omega)
    exact ⟨m, found, same ▸ member⟩
  · omega

end Rounds

namespace Sample

/-- What holds at a step of the meeting. -/
def atStep (n : Nat) (P : World → Bool) : Bool :=
  (Trace.after (World.step schnorr relay) .initial (meeting.take n)).any P

theorem atStep_iff {run : Trace (World.step schnorr relay)}
    (reached : ∀ n, Trace.after (World.step schnorr relay) .initial (meeting.take n) =
      some (run.state n)) {n : Nat} {P : World → Bool} : atStep n P = P (run.state n) := by
  rw [atStep, reached, Option.any_some]

theorem meeting_steps :
    atStep 4 (fun w => versionAt w one one = some 2) = true ∧
    atStep 5 (fun w => w.answers one two (.receive 0)) = true ∧
    atStep 8 (fun w => w.frames = [] && versionAt w one one = some 2) = true := by
  decide +kernel

end Sample

theorem record_spreads_meeting : ∃ run : Trace (World.step Sample.schnorr Sample.relay),
    run.state 0 = .initial ∧ (run.state 8).Knows Sample.two Sample.one 2 := by
  obtain ⟨w, reached, -⟩ := Option.map_eq_some_iff.mp Sample.met
  obtain ⟨early, answers, late⟩ := Sample.meeting_steps
  have ended : w.frames = [] := by
    have all : Sample.meeting.take 8 = Sample.meeting := rfl
    rw [Sample.atStep, all, reached, Option.any_some] at late
    simp only [Bool.and_eq_true, decide_eq_true_eq] at late
    exact late.1
  have still : w.step Sample.schnorr Sample.relay (.lose 0) = some w := by
    obtain ⟨pods, frames, registry, signed, published⟩ := w
    cases ended
    rfl
  obtain ⟨run, start, states, actions⟩ := Trace.exists_still reached still
  have at_ {n : Nat} {P : World → Bool} (holds : Sample.atStep n P = true) :
      P (run.state n) = true := by
    rwa [Sample.atStep_iff states] at holds
  have knows : (run.state 4).Knows Sample.one Sample.one 2 := by
    obtain ⟨m, here, r, member, its, version⟩ :=
      Sample.exists_of_versionAt (of_decide_eq_true (at_ early))
    have known := (sound_state start 4).knows_of_mem here member
    rwa [its, version] at known
  have exchange : Exchange run Sample.one Sample.two 4 8 := by
    refine ⟨5, by omega, by omega, ?_, ?_, ?_⟩
    · rw [actions]
      exact at_ answers
    · intro j after before
      rw [actions]
      obtain rfl | rfl : j = 6 ∨ j = 7 := by omega
      · rfl
      · rfl
    · have quiet := at_ late
      simp only [Bool.and_eq_true, decide_eq_true_eq] at quiet
      rw [World.awaits, quiet.1]
      rfl
  refine ⟨run, start, ?_⟩
  exact (record_spreads run start (fun i => if i = 0 then Sample.one else Sample.two)
    (fun i => if i = 0 then 4 else 8) 1 (by
      intro i before
      obtain rfl : i = 0 := by omega
      exact exchange)).1 _ _ knows

end Mesh
