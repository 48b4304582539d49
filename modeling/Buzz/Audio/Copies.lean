import Buzz.Audio.Media
import Mathlib.Data.List.Perm.Basic

/-!
# How often a frame is offered

Every copy of a frame is accounted for: it waits in the channel of a remote peer, is on the mesh,
has been offered or was lost. The owner's room offers a frame once to each of its peers, and each
remote peer passes it on to its pod, where it is offered to all clients but the author. So a
client of another pod is offered a frame once for every client of that pod that is not the author
(`offered_once_of_alone`, `not_once_shared`).
-/
namespace Audio

open Lib Nostr

variable {ι : Type} [DecidableEq ι]

/-! ### Counting -/

namespace Media

def offers (s : Media ι) (x : Client ι) (n : Nat) : Nat :=
  s.offered.countP fun o => o.pod = x.pod ∧ o.peer = x.peer ∧ o.packet.frame = n

/-- The offers of copies that came this way. -/
def offersVia (s : Media ι) (via : Hop ι) (x : Client ι) (n : Nat) : Nat :=
  s.offered.countP fun o => o.via = via ∧ o.pod = x.pod ∧ o.peer = x.peer ∧ o.packet.frame = n

def inFlight (s : Media ι) (via : Hop ι) (n : Nat) : Nat :=
  s.network.countP fun d => d.via = via ∧ d.packet.frame = n

def waiting (s : Media ι) (pod : ι) (peer : Uuid) (n : Nat) : Nat :=
  (s.queues pod peer).countP fun k => k.frame = n

def lost (s : Media ι) (via : Hop ι) (n : Nat) : Nat := s.dropped.count (via, n)

end Media

open Media

theorem countP_eq_of_nodup {targets : List Uuid} (nodup : targets.Nodup) (u : Uuid) (P : Prop)
    [Decidable P] : (targets.countP fun v => v = u ∧ P) = if u ∈ targets ∧ P then 1 else 0 := by
  by_cases holds : P
  · simp only [holds, and_true]
    rw [← nodup.count, List.count_eq_countP]
    apply List.countP_congr
    simp
  · simp [holds]

namespace Huddle

variable {s : Media ι} {pod : ι} {targets : List Uuid} {packet : Packet} {via : Hop ι}

theorem offers_offer (nodup : targets.Nodup) (x : Client ι) (n : Nat) :
    (offer s pod targets packet via).offers x n =
      s.offers x n + if x.peer ∈ targets ∧ x.pod = pod ∧ packet.frame = n then 1 else 0 := by
  simp only [Media.offers, offer, List.countP_append, List.countP_map]
  rw [← countP_eq_of_nodup nodup]
  congr 1
  apply List.countP_congr
  intro u _
  simp only [Function.comp, decide_eq_true_eq]
  grind

theorem offersVia_offer (nodup : targets.Nodup) (hop : Hop ι) (x : Client ι) (n : Nat) :
    (offer s pod targets packet via).offersVia hop x n = s.offersVia hop x n +
      if x.peer ∈ targets ∧ x.pod = pod ∧ packet.frame = n ∧ via = hop then 1 else 0 := by
  simp only [Media.offersVia, offer, List.countP_append, List.countP_map]
  rw [← countP_eq_of_nodup nodup]
  congr 1
  apply List.countP_congr
  intro u _
  simp only [Function.comp, decide_eq_true_eq]
  grind

theorem waiting_add_lost_offer (nodup : targets.Nodup) (p : ι) (u : Uuid) (n : Nat) :
    (offer s pod targets packet via).waiting p u n + (offer s pod targets packet via).lost (.sink p u) n =
      s.waiting p u n + s.lost (.sink p u) n +
        if u ∈ targets ∧ p = pod ∧ packet.frame = n then 1 else 0 := by
  have drops : (offer s pod targets packet via).lost (.sink p u) n = s.lost (.sink p u) n +
      if u ∈ targets.filter (fun u => audioChannelCapacity ≤ (s.queues pod u).length) ∧
        p = pod ∧ packet.frame = n then 1 else 0 := by
    simp only [Media.lost, offer, List.count_eq_countP, List.countP_append, List.countP_map]
    rw [← countP_eq_of_nodup (nodup.filter _)]
    congr 1
    apply List.countP_congr
    intro v _
    simp only [Function.comp, beq_iff_eq, Prod.mk.injEq, Hop.sink.injEq, decide_eq_true_eq]
    grind
  rw [drops]
  simp only [Media.waiting, offer, List.mem_filter, decide_eq_false_iff_not, decide_eq_true_eq]
  by_cases here : p = pod
  · subst here
    by_cases target : u ∈ targets
    · by_cases full : audioChannelCapacity ≤ (s.queues p u).length
      · simp [target, full]
        omega
      · simp [target, full, List.countP_append, List.countP_cons]
        omega
    · simp [target]
  · simp [here]

theorem lost_author_offer (n : Nat) :
    (offer s pod targets packet via).lost .author n = s.lost .author n := by
  simp only [Media.lost, offer, List.count_append, Nat.add_eq_left]
  apply List.count_eq_zero.mpr
  simp

@[simp] theorem inFlight_offer (hop : Hop ι) (n : Nat) :
    (offer s pod targets packet via).inFlight hop n = s.inFlight hop n := rfl

/-! ### Where the copies are -/

variable (h : Huddle ι)

/-- The packet is a copy of this frame of this author. -/
def CopyOf (s : Media ι) (k : Packet) (p : RosterPeer) : Prop :=
  ∃ a frame, s.frames[k.frame]? = some (a, frame) ∧ h.Has a p ∧ k.payload = p.peerIndex :: frame

/-- The sink of this peer of the owner's room hands the packet on to a pod. -/
def Relays (k : Packet) (via : Hop ι) (pod : ι) : Prop :=
  ∃ q p, via = .sink h.owner q ∧ (h.room h.owner).peers.lookup q = some p ∧ h.host q = some pod ∧
    k.payload.head? ≠ some p.peerIndex

/-- The peer is in the room and not the author of the packet. -/
def Hears (pod : ι) (u : Uuid) (k : Packet) : Prop :=
  ∃ p, (h.room pod).peers.lookup u = some p ∧ k.payload.head? ≠ some p.peerIndex

structure Traced (s : Media ι) : Prop where
  queues : ∀ pod u, ∀ k ∈ s.queues pod u, (∃ p, h.CopyOf s k p) ∧ h.Hears pod u k
  network : ∀ d ∈ s.network, (∃ p, h.CopyOf s d.packet p) ∧ d.generation = h.generation ∧
    ((d.via = .author ∧ d.dest = h.owner) ∨ h.Relays d.packet d.via d.dest)
  offered : ∀ o ∈ s.offered, (∃ p, h.CopyOf s o.packet p) ∧
    h.Hears o.pod o.peer o.packet ∧ (o.pod = h.owner ∨ h.Relays o.packet o.via o.pod)
  dropped : ∀ e ∈ s.dropped, e.2 < s.frames.length
  floor : ∀ pod, s.floor pod = none ∨ s.floor pod = some h.generation

/-- All copies of a frame are accounted for. -/
structure Balanced (s : Media ι) : Prop where
  /-- The owner's room offers it once to each peer. -/
  first : ∀ n a frame i, s.frames[n]? = some (a, frame) → h.Has a i →
    ∀ q p, (h.room h.owner).peers.lookup q = some p → p.peerIndex ≠ i.peerIndex →
      s.offers ⟨h.owner, q⟩ n + s.inFlight .author n + s.lost .author n = 1
  /-- What a remote peer was offered goes on to each client of its pod. -/
  second : ∀ n a frame i, s.frames[n]? = some (a, frame) → h.Has a i →
    ∀ q p pod, (h.room h.owner).peers.lookup q = some p → h.host q = some pod →
    ∀ x p', (h.room pod).peers.lookup x = some p' → p'.peerIndex ≠ i.peerIndex →
      s.waiting h.owner q n + s.lost (.sink h.owner q) n + s.inFlight (.sink h.owner q) n +
        s.offersVia (.sink h.owner q) ⟨pod, x⟩ n = s.offers ⟨h.owner, q⟩ n

omit [DecidableEq ι] in
theorem traced_initial : h.Traced {} where
  queues _ _ _ member := by cases member
  network _ member := by cases member
  offered _ member := by cases member
  dropped _ member := by cases member
  floor _ := Or.inl rfl

theorem balanced_initial : h.Balanced {} where
  first _ _ _ _ sent := by cases sent
  second _ _ _ _ sent := by cases sent

variable {h} {s' : Media ι}

omit [DecidableEq ι] in
theorem CopyOf.mono {k : Packet} {p : RosterPeer} (copy : h.CopyOf s k p)
    (grown : s.frames <+: s'.frames) : h.CopyOf s' k p := by
  obtain ⟨a, frame, sent, has, payload⟩ := copy
  obtain ⟨rest, whole⟩ := grown
  have inside := (List.getElem?_eq_some_iff.mp sent).1
  refine ⟨a, frame, ?_, has, payload⟩
  rw [← whole, List.getElem?_append_left inside]
  exact sent

omit [DecidableEq ι] in
theorem CopyOf.lt {k : Packet} {p : RosterPeer} (copy : h.CopyOf s k p) :
    k.frame < s.frames.length := by
  obtain ⟨a, frame, sent, -⟩ := copy
  exact (List.getElem?_eq_some_iff.mp sent).1

theorem Traced.offer (traced : h.Traced s) (copy : ∃ p, h.CopyOf s packet p)
    (others : ∀ u ∈ targets, h.Hears pod u packet)
    (route : pod = h.owner ∨ h.Relays packet via pod) :
    h.Traced (Huddle.offer s pod targets packet via) where
  queues p u k member := by
    simp only [Huddle.offer] at member
    split at member
    next accepted =>
      obtain ⟨rfl, target, -⟩ := accepted
      rcases List.mem_append.mp member with old | new
      · exact traced.queues p u k old
      · rw [List.mem_singleton.mp new]
        exact ⟨copy, others u target⟩
    next => exact traced.queues p u k member
  network := traced.network
  offered o member := by
    rcases List.mem_append.mp member with old | new
    · exact traced.offered o old
    · obtain ⟨u, target, rfl⟩ := List.mem_map.mp new
      exact ⟨copy, others u target, route⟩
  dropped e member := by
    rcases List.mem_append.mp member with old | new
    · exact traced.dropped e old
    · obtain ⟨u, -, rfl⟩ := List.mem_map.mp new
      exact copy.choose_spec.lt
  floor := traced.floor

omit [DecidableEq ι] in
theorem Traced.speak (traced : h.Traced s) (spoken : Client ι × List UInt8) :
    h.Traced { s with frames := s.frames ++ [spoken] } := by
  have copies : ∀ k, (∃ p, h.CopyOf s k p) →
      ∃ p, h.CopyOf { s with frames := s.frames ++ [spoken] } k p :=
    fun k ⟨p, copy⟩ => ⟨p, copy.mono (List.prefix_append _ _)⟩
  constructor
  · intro pod u k member
    exact (traced.queues pod u k member).imp (copies k) id
  · intro d member
    exact (traced.network d member).imp (copies _) id
  · intro o member
    exact (traced.offered o member).imp (copies _) id
  · intro e member
    exact Nat.lt_of_lt_of_le (traced.dropped e member) (by simp)
  · exact traced.floor

omit [DecidableEq ι] in
theorem Traced.send (traced : h.Traced s) {d : Datagram ι} (copy : ∃ p, h.CopyOf s d.packet p)
    (generation : d.generation = h.generation)
    (route : (d.via = .author ∧ d.dest = h.owner) ∨ h.Relays d.packet d.via d.dest) :
    h.Traced { s with network := s.network ++ [d] } where
  queues := traced.queues
  network d' member := by
    rcases List.mem_append.mp member with old | new
    · exact traced.network d' old
    · rw [List.mem_singleton.mp new]
      exact ⟨copy, generation, route⟩
  offered := traced.offered
  dropped := traced.dropped
  floor := traced.floor

omit [DecidableEq ι] in
theorem Traced.arrive (traced : h.Traced s) (i : Nat) :
    h.Traced { s with network := s.network.eraseIdx i } where
  queues := traced.queues
  network d member := traced.network d (List.eraseIdx_sublist _ _ |>.subset member)
  offered := traced.offered
  dropped := traced.dropped
  floor := traced.floor

omit [DecidableEq ι] in
theorem Traced.drop (traced : h.Traced s) {via : Hop ι} {n : Nat} (sent : n < s.frames.length) :
    h.Traced { s with dropped := s.dropped ++ [(via, n)] } where
  queues := traced.queues
  network := traced.network
  offered := traced.offered
  dropped e member := by
    rcases List.mem_append.mp member with old | new
    · exact traced.dropped e old
    · rw [List.mem_singleton.mp new]
      exact sent
  floor := traced.floor

theorem Traced.take (traced : h.Traced s) {pod : ι} {peer : Uuid} {rest : List Packet}
    (tail : rest ⊆ s.queues pod peer) :
    h.Traced { s with queues := fun p u => if p = pod ∧ u = peer then rest else s.queues p u } where
  queues p u k member := by
    simp only at member
    split at member
    next here =>
      obtain ⟨rfl, rfl⟩ := here
      exact traced.queues p u k (tail member)
    next => exact traced.queues p u k member
  network := traced.network
  offered := traced.offered
  dropped := traced.dropped
  floor := traced.floor

/-! ### What an action does -/

/-- The peers of a pod that do not have this index. -/
def others (h : Huddle ι) (pod : ι) (index : UInt8) : List Uuid :=
  ((h.room pod).peers.entries.filter fun e => e.2.peerIndex ≠ index).map (·.1)

variable (h) in
inductive Moves (s : Media ι) : Media ι → Prop
  /-- A client of the owner's pod. -/
  | home {x frame p} (has : h.Has x p) (own : x.pod = h.owner) :
    Moves s (offer { s with frames := s.frames ++ [(x, frame)] } h.owner (h.others h.owner p.peerIndex)
      ⟨p.peerIndex :: frame, s.frames.length⟩ .author)
  | abroad {x frame p} (has : h.Has x p) :
    Moves s { s with
      frames := s.frames ++ [(x, frame)]
      network := s.network ++
        [⟨h.owner, h.generation, ⟨p.peerIndex :: frame, s.frames.length⟩, .author⟩] }
  | play {pod peer packet rest} (next : s.queues pod peer = packet :: rest)
      (client : pod = h.owner → h.host peer = none) :
    Moves s { s with queues := fun p u => if p = pod ∧ u = peer then rest else s.queues p u }
  | relay {peer packet rest dest} (next : s.queues h.owner peer = packet :: rest)
      (remote : h.host peer = some dest) :
    Moves s { s with
      queues := fun p u => if p = h.owner ∧ u = peer then rest else s.queues p u
      network := s.network ++ [⟨dest, h.generation, packet, .sink h.owner peer⟩] }
  | arrive {i : Nat} {d p} (next : s.network[i]? = some d) (copy : h.CopyOf s d.packet p) :
    Moves s (offer { s with
        network := s.network.eraseIdx i
        floor := Function.update s.floor d.dest (some h.generation) }
      d.dest (h.others d.dest p.peerIndex) d.packet d.via)
  | lose {i : Nat} {d} (next : s.network[i]? = some d) :
    Moves s { s with
      network := s.network.eraseIdx i, dropped := s.dropped ++ [(d.via, d.packet.frame)] }
  | idle : Moves s s

theorem check_eq {floor : Option UInt64} {generation : UInt64}
    (known : floor = none ∨ floor = some generation) : check floor generation = some generation := by
  rcases known with rfl | rfl
  · rfl
  · simp [check]

omit [DecidableEq ι] in
theorem others_owner {x : Uuid} {p : RosterPeer} (here : (h.room h.owner).peers.lookup x = some p) :
    (h.room h.owner).peers.keys.filter (· ≠ x) = h.others h.owner p.peerIndex := by
  simp only [AList.keys, List.keys, others, List.filter_map]
  congr 1
  apply List.filter_congr
  rintro ⟨u, q⟩ member
  have there := (Map.mem_entries_iff _ _ _).mp member
  simp only [Function.comp, decide_eq_decide, not_iff_not]
  constructor
  · rintro rfl
    rw [here] at there
    rw [Option.some.inj there]
  · intro same
    exact h.distinct h.owner u x q p there here same

omit [DecidableEq ι] in
theorem mem_others {pod : ι} {i : UInt8} {u : Uuid} : u ∈ h.others pod i ↔
    ∃ p, (h.room pod).peers.lookup u = some p ∧ p.peerIndex ≠ i := by
  simp only [others, List.mem_map, List.mem_filter, decide_eq_true_eq]
  constructor
  · rintro ⟨⟨v, p⟩, ⟨member, other⟩, rfl⟩
    exact ⟨p, (Map.mem_entries_iff _ _ _).mp member, other⟩
  · rintro ⟨p, here, other⟩
    exact ⟨⟨u, p⟩, ⟨(Map.mem_entries_iff _ _ _).mpr here, other⟩, rfl⟩

omit [DecidableEq ι] in
theorem nodup_others (h : Huddle ι) (pod : ι) (i : UInt8) : (h.others pod i).Nodup := by
  apply List.Nodup.sublist (List.filter_sublist.map _)
  exact (h.room pod).peers.nodupKeys

theorem moves_of_perform {a : MediaAction ι} (traced : h.Traced s) (performed : h.perform s a = some s') :
    h.Moves s s' := by
  cases a with
  | speak x frame =>
    simp only [perform] at performed
    split at performed
    next => cases performed
    next p here =>
      split at performed
      next own =>
        split at performed
        next client =>
          rw [Option.some.injEq] at performed
          subst performed
          have at_owner : (h.room h.owner).peers.lookup x.peer = some p := own ▸ here
          simp only [broadcastFrame, at_owner, others_owner at_owner]
          exact .home ⟨here, fun _ => client⟩ own
        next => cases performed
      next away =>
        cases performed
        exact .abroad ⟨here, fun own => absurd own away⟩
  | take pod peer =>
    simp only [perform] at performed
    split at performed
    next => cases performed
    next packet rest next =>
      split at performed
      next client =>
        cases performed
        exact .play next fun own => by simpa [own] using client
      next dest remote =>
        cases performed
        by_cases own : pod = h.owner
        · subst own
          exact .relay next (by simpa using remote)
        · simp [own] at remote
  | deliver i =>
    simp only [perform] at performed
    split at performed
    next => cases performed
    next d next =>
      rw [Option.some.injEq] at performed
      subst performed
      obtain ⟨⟨p, copy⟩, generation, -⟩ := traced.network d (List.mem_of_getElem? next)
      obtain ⟨a, frame, sent, has, payload⟩ := copy
      simp only [onMediaDatagram, generation, check_eq (traced.floor d.dest), payload]
      exact .arrive next ⟨a, frame, sent, has, payload⟩
  | lose i =>
    simp only [perform] at performed
    split at performed
    next => cases performed
    next d next =>
      cases performed
      exact .lose next
  | idle =>
    cases performed
    exact .idle

omit [DecidableEq ι] in
theorem hears_of_mem_others {pod : ι} {i : UInt8} {u : Uuid} {k : Packet} (other : u ∈ h.others pod i)
    (head : k.payload.head? = some i) : h.Hears pod u k := by
  obtain ⟨p, here, different⟩ := mem_others.mp other
  refine ⟨p, here, ?_⟩
  rw [head]
  exact fun same => different (Option.some.inj same).symm

theorem Traced.step (traced : h.Traced s) (moves : h.Moves s s') : h.Traced s' := by
  cases moves with
  | @home x frame p has own =>
    apply (traced.speak (x, frame)).offer
    · exact ⟨p, x, frame, by simp, has, rfl⟩
    · exact fun u other => hears_of_mem_others other rfl
    · exact Or.inl rfl
  | @abroad x frame p has =>
    apply (traced.speak (x, frame)).send
    · exact ⟨p, x, frame, by simp, has, rfl⟩
    · rfl
    · exact Or.inl ⟨rfl, rfl⟩
  | play next client =>
    apply traced.take
    rw [next]
    exact List.subset_cons_self _ _
  | @relay peer packet rest dest next remote =>
    obtain ⟨copy, p, here, other⟩ := traced.queues h.owner peer packet (by simp [next])
    have tail : rest ⊆ s.queues h.owner peer := by
      rw [next]
      exact List.subset_cons_self _ _
    exact (traced.take tail).send copy rfl (Or.inr ⟨peer, p, rfl, here, remote, other⟩)
  | @arrive i d p next copy =>
    obtain ⟨-, -, route⟩ := traced.network d (List.mem_of_getElem? next)
    have head : d.packet.payload.head? = some p.peerIndex := by
      obtain ⟨a, frame, -, -, payload⟩ := copy
      rw [payload]
      rfl
    have arrived : h.Traced { s with
        network := s.network.eraseIdx i
        floor := Function.update s.floor d.dest (some h.generation) } :=
      { traced.arrive i with
        floor := fun pod => by
          by_cases here : pod = d.dest
          · simp [here]
          · simpa [Function.update_of_ne here] using traced.floor pod }
    apply arrived.offer ⟨p, copy⟩
    · exact fun u other => hears_of_mem_others other head
    · rcases route with ⟨-, home⟩ | relayed
      · exact Or.inl home
      · exact Or.inr relayed
  | @lose i d next =>
    obtain ⟨⟨p, copy⟩, -⟩ := traced.network d (List.mem_of_getElem? next)
    exact (traced.arrive i).drop copy.lt
  | idle => exact traced

/-! ### The accounts -/

theorem Traced.unsent (traced : h.Traced s) {n : Nat} (later : s.frames.length ≤ n) :
    (∀ x, s.offers x n = 0) ∧ (∀ via x, s.offersVia via x n = 0) ∧
    (∀ via, s.inFlight via n = 0) ∧ (∀ pod u, s.waiting pod u n = 0) ∧
    (∀ via, s.lost via n = 0) := by
  have other : ∀ k : Packet, (∃ p, h.CopyOf s k p) → k.frame ≠ n := by
    rintro k ⟨p, copy⟩ rfl
    exact absurd copy.lt (Nat.not_lt.mpr later)
  refine ⟨fun x => ?_, fun via x => ?_, fun via => ?_, fun pod u => ?_, fun via => ?_⟩
  · apply List.countP_eq_zero.mpr
    intro o member
    have different := other o.packet (traced.offered o member).1
    simp [different]
  · apply List.countP_eq_zero.mpr
    intro o member
    have different := other o.packet (traced.offered o member).1
    simp [different]
  · apply List.countP_eq_zero.mpr
    intro d member
    have different := other d.packet (traced.network d member).1
    simp [different]
  · apply List.countP_eq_zero.mpr
    intro k member
    have different := other k (traced.queues pod u k member).1
    simp [different]
  · apply List.count_eq_zero.mpr
    intro member
    exact absurd (traced.dropped _ member) (Nat.not_lt.mpr later)

theorem inFlight_send (s : Media ι) (d : Datagram ι) (via : Hop ι) (n : Nat) :
    ((s.network ++ [d]).countP fun d => d.via = via ∧ d.packet.frame = n) =
      s.inFlight via n + if d.via = via ∧ d.packet.frame = n then 1 else 0 := by
  rw [List.countP_append, List.countP_singleton]
  simp only [decide_eq_true_eq, Media.inFlight]

theorem inFlight_erase {i : Nat} {d : Datagram ι} (next : s.network[i]? = some d) (via : Hop ι)
    (n : Nat) : s.inFlight via n = ((s.network.eraseIdx i).countP
      fun d => d.via = via ∧ d.packet.frame = n) + if d.via = via ∧ d.packet.frame = n then 1 else 0 := by
  obtain ⟨inside, rfl⟩ := List.getElem?_eq_some_iff.mp next
  rw [Media.inFlight, ← (List.getElem_cons_eraseIdx_perm inside).countP_eq, List.countP_cons]
  simp only [decide_eq_true_eq]

omit [DecidableEq ι] in
theorem frames_cases {x : Client ι × List UInt8} {n : Nat} {y : Client ι × List UInt8}
    (sent : (s.frames ++ [x])[n]? = some y) :
    (n < s.frames.length ∧ s.frames[n]? = some y) ∨ (n = s.frames.length ∧ y = x) := by
  have inside := (List.getElem?_eq_some_iff.mp sent).1
  rw [List.length_append, List.length_singleton] at inside
  by_cases earlier : n < s.frames.length
  · rw [List.getElem?_append_left earlier] at sent
    exact Or.inl ⟨earlier, sent⟩
  · have last : n = s.frames.length := by omega
    subst last
    rw [List.getElem?_append_right (Nat.le_refl _)] at sent
    simp only [Nat.sub_self, List.getElem?_cons_zero, Option.some.injEq] at sent
    exact Or.inr ⟨rfl, sent.symm⟩

theorem Balanced.home (balanced : h.Balanced s) (traced : h.Traced s) {x : Client ι}
    {frame : List UInt8} {p : RosterPeer} (has : h.Has x p) :
    h.Balanced (offer { s with frames := s.frames ++ [(x, frame)] } h.owner
      (h.others h.owner p.peerIndex) ⟨p.peerIndex :: frame, s.frames.length⟩ .author) := by
  have nodup := h.nodup_others h.owner p.peerIndex
  have unsent := traced.unsent (Nat.le_refl _)
  constructor
  · intro n a frame' i sent author q r here other
    rw [offers_offer nodup, inFlight_offer, lost_author_offer]
    rcases frames_cases sent with ⟨earlier, before⟩ | ⟨rfl, same⟩
    · have different : s.frames.length ≠ n := by omega
      simp only [different, and_false, if_false]
      exact balanced.first n a frame' i before author q r here other
    · cases same
      cases has.1.symm.trans author.1
      have target : q ∈ h.others h.owner p.peerIndex := mem_others.mpr ⟨r, here, other⟩
      simp only [target, and_true, if_true]
      show s.offers _ _ + 1 + s.inFlight _ _ + s.lost _ _ = 1
      rw [unsent.1, unsent.2.2.1, unsent.2.2.2.2]
  · intro n a frame' i sent author q r pod here hosted y r' there other
    rw [offers_offer nodup, inFlight_offer, waiting_add_lost_offer nodup, offersVia_offer nodup]
    rcases frames_cases sent with ⟨earlier, before⟩ | ⟨rfl, same⟩
    · have different : s.frames.length ≠ n := by omega
      simp only [different, false_and, and_false, if_false]
      exact balanced.second n a frame' i before author q r pod here hosted y r' there other
    · simp only [and_true, reduceCtorEq, and_false, if_false, Nat.add_zero]
      show s.waiting _ _ _ + s.lost _ _ + _ + s.inFlight _ _ + s.offersVia _ _ _ = s.offers _ _ + _
      rw [unsent.1, unsent.2.1, unsent.2.2.1, unsent.2.2.2.1, unsent.2.2.2.2]
      omega

theorem Balanced.abroad (balanced : h.Balanced s) (traced : h.Traced s) {x : Client ι}
    {frame : List UInt8} {p : RosterPeer} :
    h.Balanced { s with
      frames := s.frames ++ [(x, frame)]
      network := s.network ++
        [⟨h.owner, h.generation, ⟨p.peerIndex :: frame, s.frames.length⟩, .author⟩] } := by
  have unsent := traced.unsent (Nat.le_refl _)
  constructor
  · intro n a frame' i sent author q r here other
    show s.offers _ _ + List.countP _ _ + s.lost _ _ = 1
    rw [inFlight_send]
    rcases frames_cases sent with ⟨earlier, before⟩ | ⟨rfl, same⟩
    · have different : s.frames.length ≠ n := by omega
      simp only [different, and_false, if_false]
      exact balanced.first n a frame' i before author q r here other
    · rw [unsent.1, unsent.2.2.1, unsent.2.2.2.2]
      simp
  · intro n a frame' i sent author q r pod here hosted y r' there other
    show s.waiting _ _ _ + s.lost _ _ + List.countP _ _ + s.offersVia _ _ _ = s.offers _ _
    rw [inFlight_send]
    simp only [reduceCtorEq, false_and, if_false, Nat.add_zero]
    rcases frames_cases sent with ⟨earlier, before⟩ | ⟨rfl, same⟩
    · exact balanced.second n a frame' i before author q r pod here hosted y r' there other
    · rw [unsent.1, unsent.2.1, unsent.2.2.1, unsent.2.2.2.1, unsent.2.2.2.2]

theorem Balanced.play (balanced : h.Balanced s) {pod : ι} {peer : Uuid} {rest : List Packet}
    (client : pod = h.owner → h.host peer = none) :
    h.Balanced { s with queues := fun p u => if p = pod ∧ u = peer then rest else s.queues p u } where
  first := balanced.first
  second n a frame i sent author q r dest here hosted y r' there other := by
    have another : ¬ (h.owner = pod ∧ q = peer) := by
      rintro ⟨rfl, rfl⟩
      rw [client rfl] at hosted
      cases hosted
    have kept := balanced.second n a frame i sent author q r dest here hosted y r' there other
    show List.countP _ (if h.owner = pod ∧ q = peer then rest else s.queues h.owner q) + s.lost _ _ +
      s.inFlight _ _ + s.offersVia _ _ _ = s.offers _ _
    rw [if_neg another]
    exact kept

theorem Balanced.relay (balanced : h.Balanced s) {peer : Uuid} {packet : Packet}
    {rest : List Packet} {dest : ι} (next : s.queues h.owner peer = packet :: rest) :
    h.Balanced { s with
      queues := fun p u => if p = h.owner ∧ u = peer then rest else s.queues p u
      network := s.network ++ [⟨dest, h.generation, packet, .sink h.owner peer⟩] } := by
  constructor
  · intro n a frame i sent author q r here other
    show s.offers _ _ + List.countP _ _ + s.lost _ _ = 1
    rw [inFlight_send]
    simpa using balanced.first n a frame i sent author q r here other
  · intro n a frame i sent author q r pod here hosted y r' there other
    have kept := balanced.second n a frame i sent author q r pod here hosted y r' there other
    show List.countP _ (if h.owner = h.owner ∧ q = peer then rest else s.queues h.owner q) +
      s.lost _ _ + List.countP _ _ + s.offersVia _ _ _ = s.offers _ _
    rw [inFlight_send]
    by_cases same : q = peer
    · subst same
      simp only [Media.waiting, next, List.countP_cons, decide_eq_true_eq] at kept
      simp only [true_and, if_true]
      omega
    · have another : (Hop.sink h.owner peer : Hop ι) ≠ .sink h.owner q := by
        simpa using fun back => same back.symm
      simp only [same, and_false, if_false, another, false_and, Nat.add_zero]
      exact kept

theorem Balanced.lose (balanced : h.Balanced s) {i : Nat} {d : Datagram ι}
    (next : s.network[i]? = some d) :
    h.Balanced { s with
      network := s.network.eraseIdx i, dropped := s.dropped ++ [(d.via, d.packet.frame)] } := by
  have drops : ∀ via n, (s.dropped ++ [(d.via, d.packet.frame)]).count (via, n) =
      s.lost via n + if d.via = via ∧ d.packet.frame = n then 1 else 0 := by
    intro via n
    rw [List.count_append, List.count_singleton]
    simp [Media.lost]
  constructor
  · intro n a frame j sent author q r here other
    have kept := balanced.first n a frame j sent author q r here other
    rw [inFlight_erase next] at kept
    show s.offers _ _ + List.countP _ (s.network.eraseIdx i) + List.count _ _ = 1
    rw [drops]
    omega
  · intro n a frame j sent author q r pod here hosted y r' there other
    have kept := balanced.second n a frame j sent author q r pod here hosted y r' there other
    rw [inFlight_erase next] at kept
    show s.waiting _ _ _ + List.count _ _ + List.countP _ (s.network.eraseIdx i) +
      s.offersVia _ _ _ = s.offers _ _
    rw [drops]
    omega

omit [DecidableEq ι] in
/-- A frame has one author, and the author one index. -/
theorem CopyOf.author {k : Packet} {p i : RosterPeer} {a : Client ι} {frame : List UInt8}
    (copy : h.CopyOf s k p) (sent : s.frames[k.frame]? = some (a, frame)) (has : h.Has a i) : i = p := by
  obtain ⟨b, frame', again, has', -⟩ := copy
  cases sent.symm.trans again
  exact Option.some.inj (has.1.symm.trans has'.1)

/-- A datagram that arrives is offered where it goes: a frame on its way to the owner to the peers
of the owner's room, and one that a remote peer passed on to the clients of its pod. -/
theorem Balanced.arrive (balanced : h.Balanced s) (traced : h.Traced s) {i : Nat} {d : Datagram ι}
    {p : RosterPeer} (next : s.network[i]? = some d) (copy : h.CopyOf s d.packet p) :
    h.Balanced (offer { s with
        network := s.network.eraseIdx i
        floor := Function.update s.floor d.dest (some h.generation) }
      d.dest (h.others d.dest p.peerIndex) d.packet d.via) := by
  have nodup := h.nodup_others d.dest p.peerIndex
  obtain ⟨-, -, route⟩ := traced.network d (List.mem_of_getElem? next)
  constructor
  · intro n a frame j sent author q r here other
    have kept := balanced.first n a frame j sent author q r here other
    rw [inFlight_erase next] at kept
    rw [offers_offer nodup, inFlight_offer, lost_author_offer]
    show s.offers _ _ + _ + List.countP _ (s.network.eraseIdx i) + s.lost _ _ = 1
    rcases route with ⟨forward, home⟩ | ⟨q', r', relayed, there, hosted, -⟩
    · rw [home]
      by_cases same : d.packet.frame = n
      · subst same
        rw [copy.author sent author] at other
        have target : q ∈ h.others h.owner p.peerIndex := mem_others.mpr ⟨r, here, other⟩
        simp only [forward, target, and_true, if_true] at kept ⊢
        omega
      · simp only [same, and_false, if_false] at kept ⊢
        omega
    · have away : h.owner ≠ d.dest := (h.abroad q' r' d.dest there hosted).symm
      simp only [relayed, away, false_and, and_false, reduceCtorEq, if_false] at kept ⊢
      omega
  · intro n a frame j sent author q r pod here hosted y r' there other
    have kept := balanced.second n a frame j sent author q r pod here hosted y r' there other
    rw [inFlight_erase next] at kept
    rw [offers_offer nodup, inFlight_offer, waiting_add_lost_offer nodup, offersVia_offer nodup]
    show s.waiting _ _ _ + s.lost _ _ + _ + List.countP _ (s.network.eraseIdx i) +
      (s.offersVia _ _ _ + _) = s.offers _ _ + _
    rcases route with ⟨forward, home⟩ | ⟨q', r'', relayed, there', hosted', -⟩
    · simp only [forward, reduceCtorEq, false_and, and_false, if_false] at kept ⊢
      omega
    · have away : h.owner ≠ d.dest := (h.abroad q' r'' d.dest there' hosted').symm
      simp only [away, false_and, and_false, if_false, Nat.add_zero]
      by_cases same : d.packet.frame = n ∧ q' = q
      · obtain ⟨rfl, rfl⟩ := same
        rw [copy.author sent author] at other
        cases hosted.symm.trans hosted'
        have target : y ∈ h.others d.dest p.peerIndex := mem_others.mpr ⟨r', there, other⟩
        simp only [relayed, target, and_self, if_true] at kept ⊢
        omega
      · have unrelated : ¬ (d.via = .sink h.owner q ∧ d.packet.frame = n) := by
          rintro ⟨via, named⟩
          rw [relayed] at via
          exact same ⟨named, (Hop.sink.inj via).2⟩
        have unoffered : ¬ (y ∈ h.others d.dest p.peerIndex ∧ pod = d.dest ∧ d.packet.frame = n ∧
            d.via = .sink h.owner q) := fun all => unrelated ⟨all.2.2.2, all.2.2.1⟩
        rw [if_neg unrelated] at kept
        rw [if_neg unoffered]
        omega

theorem Balanced.step (balanced : h.Balanced s) (traced : h.Traced s) (moves : h.Moves s s') :
    h.Balanced s' := by
  cases moves with
  | home has own => exact balanced.home traced has
  | abroad has => exact balanced.abroad traced
  | play next client => exact balanced.play client
  | relay next remote => exact balanced.relay next
  | arrive next copy => exact balanced.arrive traced next copy
  | lose next => exact balanced.lose next
  | idle => exact balanced

theorem traced_and_balanced (run : h.Run) (start : run.state 0 = {}) (n : Nat) :
    h.Traced (run.state n) ∧ h.Balanced (run.state n) := by
  apply run.invariant (I := fun s => h.Traced s ∧ h.Balanced s) _ (Nat.zero_le n)
  · rw [start]
    exact ⟨h.traced_initial, h.balanced_initial⟩
  · rintro s a s' performed ⟨traced, balanced⟩
    have moves := moves_of_perform traced performed
    exact ⟨traced.step moves, balanced.step traced moves⟩

/-! ### What the clients get -/

omit [DecidableEq ι] in
/-- Two clients of the huddle have two indices, wherever they are. -/
theorem Has.index_ne {x a : Client ι} {p i : RosterPeer} (has : h.Has x p) (author : h.Has a i)
    (other : x ≠ a) : p.peerIndex ≠ i.peerIndex := by
  -- The peer of a client in the owner's room, and the pod it belongs to.
  have home : ∀ {y : Client ι} {r : RosterPeer}, h.Has y r → ∃ q r',
      (h.room h.owner).peers.lookup q = some r' ∧ r'.peerIndex = r.peerIndex ∧
      ((y.pod = h.owner ∧ y.peer = q ∧ h.host q = none) ∨ h.host q = some y.pod) := by
    rintro y r ⟨here, client⟩
    by_cases own : y.pod = h.owner
    · exact ⟨y.peer, r, own ▸ here, rfl, Or.inl ⟨own, rfl, client own⟩⟩
    · obtain ⟨q, r', there, hosted, same⟩ := h.registered y.pod y.peer r own here
      exact ⟨q, r', there, same, Or.inr hosted⟩
  intro same
  obtain ⟨q, r, hereX, indexX, placeX⟩ := home has
  obtain ⟨q', r', hereA, indexA, placeA⟩ := home author
  obtain rfl : q = q' := h.distinct h.owner q q' r r' hereX hereA
    (indexX.trans (same.trans indexA.symm))
  apply other
  rcases placeX with ⟨ownX, peerX, noneX⟩ | hostX
  · rcases placeA with ⟨ownA, peerA, -⟩ | hostA
    · cases x
      cases a
      simp_all
    · rw [noneX] at hostA
      cases hostA
  · rcases placeA with ⟨-, -, noneA⟩ | hostA
    · rw [noneA] at hostX
      cases hostX
    · have pods : x.pod = a.pod := Option.some.inj (hostX.symm.trans hostA)
      have peers := h.distinct x.pod x.peer a.peer p i has.1 (pods ▸ author.1) same
      cases x
      cases a
      simp_all

variable (h) in
/-- Every other pod has at most one client besides the author. -/
def Alone (a : Client ι) : Prop :=
  ∀ pod x y p q, pod ≠ h.owner → (h.room pod).peers.lookup x = some p →
    (h.room pod).peers.lookup y = some q → ⟨pod, x⟩ ≠ a → ⟨pod, y⟩ ≠ a → x = y

variable (h) in
/-- No copy of the frame was lost, and none is still on its way. -/
structure Arrived (s : Media ι) (n : Nat) : Prop where
  kept : ∀ e ∈ s.dropped, e.2 ≠ n
  network : ∀ d ∈ s.network, d.packet.frame ≠ n
  sinks : ∀ q pod, h.host q = some pod → ∀ k ∈ s.queues h.owner q, k.frame ≠ n

variable (h) in
/-- The frame is offered once to each client but its author, with the author's index in front. -/
structure OfferedOnce (s : Media ι) (n : Nat) (a : Client ι) (i : RosterPeer)
    (frame : List UInt8) : Prop where
  atMost : ∀ x p, h.Has x p → x ≠ a → s.offers x n ≤ 1
  exactly : h.Arrived s n → ∀ x p, h.Has x p → x ≠ a → s.offers x n = 1
  prefixed : ∀ o ∈ s.offered, o.packet.frame = n → o.packet.payload = i.peerIndex :: frame
  itself : s.offers a n = 0

theorem Arrived.lost {n : Nat} (arrived : h.Arrived s n) (via : Hop ι) : s.lost via n = 0 := by
  apply List.count_eq_zero.mpr
  exact fun member => arrived.kept _ member rfl

theorem Arrived.inFlight {n : Nat} (arrived : h.Arrived s n) (via : Hop ι) : s.inFlight via n = 0 := by
  apply List.countP_eq_zero.mpr
  intro d member
  simp [arrived.network d member]

omit [DecidableEq ι] in
theorem Arrived.waiting {n : Nat} (arrived : h.Arrived s n) {q : Uuid} {pod : ι}
    (hosted : h.host q = some pod) : s.waiting h.owner q n = 0 := by
  apply List.countP_eq_zero.mpr
  intro k member
  simp [arrived.sinks q pod hosted k member]

section

variable {n : Nat} {a : Client ι} {frame : List UInt8} {i : RosterPeer}

/-- Every copy that a client of another pod is offered comes from its own peer. -/
theorem Traced.offers_eq (traced : h.Traced s) (sent : s.frames[n]? = some (a, frame))
    (author : h.Has a i) (alone : h.Alone a) {x : Client ι} {p : RosterPeer} (has : h.Has x p)
    (other : x ≠ a) (away : x.pod ≠ h.owner) {q : Uuid} {r : RosterPeer}
    (here : (h.room h.owner).peers.lookup q = some r) (same : r.peerIndex = p.peerIndex) :
    s.offers x n = s.offersVia (.sink h.owner q) x n := by
  apply List.countP_congr
  intro o member
  simp only [decide_eq_true_eq]
  constructor
  · rintro ⟨pod, peer, named⟩
    obtain ⟨⟨p', copy⟩, -, route⟩ := traced.offered o member
    rcases route with home | ⟨q', r', via, there, hosted, silent⟩
    · exact absurd (pod.symm.trans home) away
    · -- The client of that peer is not the author, so it is the only other one there.
      have index : i = p' := copy.author (named ▸ sent) author
      have head : o.packet.payload.head? = some i.peerIndex := by
        obtain ⟨_, _, -, -, payload⟩ := copy
        rw [payload, index]
        rfl
      have different : r'.peerIndex ≠ i.peerIndex := fun equal => silent (head.trans (by rw [equal]))
      obtain ⟨y, r'', client, equal⟩ := h.admitted q' r' o.pod there hosted
      rw [pod] at client
      have notAuthor : (⟨x.pod, y⟩ : Client ι) ≠ a := by
        rintro rfl
        have indexed : r'' = i := Option.some.inj (client.symm.trans author.1)
        exact different (equal.symm.trans (by rw [indexed]))
      have itself : y = x.peer := alone x.pod y x.peer r'' p away client has.1 notAuthor other
      subst itself
      have shared : r''.peerIndex = p.peerIndex := by
        rw [Option.some.inj (client.symm.trans has.1)]
      have peers : q' = q := h.distinct h.owner q' q r' r there here
        (equal.symm.trans (shared.trans same.symm))
      exact ⟨by rw [via, peers], pod, peer, named⟩
  · rintro ⟨-, pod, peer, named⟩
    exact ⟨pod, peer, named⟩

/-- Where every other pod has at most one client besides the author, each frame is offered once to
each of the others. -/
theorem offered_once_of_alone (run : h.Run) (start : run.state 0 = {}) {N : Nat}
    (sent : (run.state N).frames[n]? = some (a, frame)) (author : h.Has a i) (alone : h.Alone a) :
    h.OfferedOnce (run.state N) n a i frame := by
  obtain ⟨traced, balanced⟩ := traced_and_balanced run start N
  have copies : ∀ x p, h.Has x p → x ≠ a → (run.state N).offers x n ≤ 1 ∧
      (h.Arrived (run.state N) n → (run.state N).offers x n = 1) := by
    rintro ⟨pod, peer⟩ p has other
    have different := has.index_ne author other
    by_cases own : pod = h.owner
    · subst own
      have first := balanced.first n a frame i sent author peer p has.1 different
      constructor
      · omega
      · intro arrived
        rw [arrived.inFlight, arrived.lost] at first
        omega
    · obtain ⟨q, r, here, hosted, same⟩ := h.registered pod peer p own has.1
      have first := balanced.first n a frame i sent author q r here (same ▸ different)
      have second := balanced.second n a frame i sent author q r pod here hosted peer p has.1
        different
      rw [traced.offers_eq sent author alone has other own here same]
      constructor
      · omega
      · intro arrived
        rw [arrived.inFlight, arrived.lost] at first
        rw [arrived.inFlight, arrived.lost, arrived.waiting hosted] at second
        omega
  constructor
  · exact fun x p has other => (copies x p has other).1
  · exact fun arrived x p has other => (copies x p has other).2 arrived
  · intro o member named
    obtain ⟨⟨p, copy⟩, -⟩ := traced.offered o member
    obtain ⟨b, frame', again, has, payload⟩ := copy
    rw [named] at again
    cases sent.symm.trans again
    rw [payload, Option.some.inj (has.1.symm.trans author.1)]
  · apply List.countP_eq_zero.mpr
    intro o member
    simp only [decide_eq_true_eq]
    rintro ⟨pod, peer, named⟩
    obtain ⟨⟨p, copy⟩, ⟨r, here, silent⟩, -⟩ := traced.offered o member
    have index : i = p := copy.author (named ▸ sent) author
    rw [pod, peer] at here
    obtain ⟨_, _, -, -, payload⟩ := copy
    rw [payload, ← index, Option.some.inj (here.symm.trans author.1)] at silent
    exact silent rfl

end

end Huddle

/-! ### Clients that share a pod -/

namespace Sample

/-- A room after these admissions, by id and pubkey. -/
def admitted (peers : List (Uuid × String)) : Room :=
  peers.foldl (fun room peer =>
    match room.addPeer peer.1 peer.2 2 with
    | .ok (_, next, _) => next
    | .error _ => room) {}

def admittedAt (peers : List (Uuid × String × UInt8)) : Room :=
  peers.foldl (fun room peer =>
    match room.addPeerAtIndex peer.1 peer.2.1 2 peer.2.2 with
    | .ok (next, _) => next
    | .error _ => room) {}

theorem distinct_of_nodup {room : Room} (nodup : (room.roster.map (·.peerIndex)).Nodup) (a b : Uuid)
    (p q : RosterPeer) (foundA : room.peers.lookup a = some p)
    (foundB : room.peers.lookup b = some q) (same : p.peerIndex = q.peerIndex) : a = b := by
  rw [Room.roster, List.map_map] at nodup
  have equal := List.inj_on_of_nodup_map nodup ((Map.mem_entries_iff _ _ _).mpr foundA)
    ((Map.mem_entries_iff _ _ _).mpr foundB) same
  exact congrArg Sigma.fst equal

/-- The owner's room: alice is a client of the owner's pod, the others are remote. -/
def ownerRoom : Room := admitted [(⟨1⟩, "alice"), (⟨2⟩, "bob"), (⟨3⟩, "carol")]

/-- Bob and carol are clients of one other pod. -/
def shared : Huddle Bool where
  owner := false
  generation := 1
  room pod := if pod then admittedAt [(⟨12⟩, "bob", 1), (⟨13⟩, "carol", 2)] else ownerRoom
  host peer := if peer = ⟨2⟩ ∨ peer = ⟨3⟩ then some true else none
  distinct pod a b p q := distinct_of_nodup (by cases pod <;> decide) a b p q
  abroad q p pod _ hosted := by
    cases pod with
    | false => split at hosted <;> cases hosted
    | true => decide
  registered pod x p away here := by
    cases pod with
    | false => exact absurd rfl away
    | true =>
      have all : ∀ e ∈ (admittedAt [(⟨12⟩, "bob", 1), (⟨13⟩, "carol", 2)]).peers.entries,
          ∃ e' ∈ ownerRoom.peers.entries, (if e'.1 = ⟨2⟩ ∨ e'.1 = ⟨3⟩ then some true else none) =
            some true ∧ e'.2.peerIndex = e.2.peerIndex := by decide
      obtain ⟨e, member, hosted, same⟩ := all ⟨x, p⟩ ((Map.mem_entries_iff _ _ _).mpr here)
      exact ⟨e.1, e.2, (Map.mem_entries_iff _ _ _).mp member, hosted, same⟩
  admitted q p pod here hosted := by
    cases pod with
    | false => split at hosted <;> cases hosted
    | true =>
      have all : ∀ e ∈ ownerRoom.peers.entries, (if e.1 = ⟨2⟩ ∨ e.1 = ⟨3⟩ then some true else none) =
          some true → ∃ e' ∈ (admittedAt [(⟨12⟩, "bob", 1), (⟨13⟩, "carol", 2)]).peers.entries,
            e'.2.peerIndex = e.2.peerIndex := by decide
      obtain ⟨e, member, same⟩ := all ⟨q, p⟩ ((Map.mem_entries_iff _ _ _).mpr here) hosted
      exact ⟨e.1, e.2, (Map.mem_entries_iff _ _ _).mp member, same⟩

/-- Alice speaks, and both remote peers pass the frame on. -/
def twice : shared.Run :=
  .ofList {} [.speak ⟨false, ⟨1⟩⟩ [7], .take false ⟨2⟩, .take false ⟨3⟩, .deliver 0, .deliver 0] .idle
    (by decide) (fun _ => rfl)

/-- Bob speaks. -/
def once : shared.Run :=
  .ofList {} [.speak ⟨true, ⟨12⟩⟩ [7], .deliver 0, .take false ⟨3⟩, .deliver 0] .idle
    (by decide) (fun _ => rfl)

theorem alone_bob : shared.Alone ⟨true, ⟨12⟩⟩ := by
  intro pod x y p q away hereX hereY otherX otherY
  cases pod with
  | false => exact absurd rfl away
  | true =>
    have all : ∀ e ∈ (admittedAt [(⟨12⟩, "bob", 1), (⟨13⟩, "carol", 2)]).peers.entries,
        e.1 ≠ ⟨12⟩ → e.1 = ⟨13⟩ := by decide
    have carol : ∀ {z : Uuid} {r : RosterPeer}, (shared.room true).peers.lookup z = some r →
        (⟨true, z⟩ : Client Bool) ≠ ⟨true, ⟨12⟩⟩ → z = ⟨13⟩ := by
      intro z r here other
      apply all ⟨z, r⟩ ((Map.mem_entries_iff _ _ _).mpr here)
      rintro rfl
      exact other rfl
    rw [carol hereX otherX, carol hereY otherY]

end Sample

/-- What bob says reaches alice and carol once. -/
theorem offered_once_bob : Sample.once.state 0 = {} ∧
    Sample.shared.OfferedOnce (Sample.once.state 4) 0 ⟨true, ⟨12⟩⟩ ⟨"bob", 1⟩ [7] :=
  ⟨rfl, Huddle.offered_once_of_alone Sample.once rfl (by decide) (by decide)
    Sample.alone_bob⟩

/-- What alice says reaches bob twice: the peers of both clients send it to their pod. -/
theorem not_once_shared : Sample.twice.state 0 = {} ∧
    (Sample.twice.state 5).frames[0]? = some (⟨false, ⟨1⟩⟩, [7]) ∧
    Sample.shared.Has ⟨false, ⟨1⟩⟩ ⟨"alice", 0⟩ ∧ Sample.shared.Has ⟨true, ⟨12⟩⟩ ⟨"bob", 1⟩ ∧
    (Sample.twice.state 5).offers ⟨true, ⟨12⟩⟩ 0 = 2 := by
  refine ⟨rfl, ?_, ?_, ?_, ?_⟩ <;> decide

end Audio
