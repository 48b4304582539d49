import Buzz.ReadState.Trimming

/-!
# Splitting contexts over slots

`splitContextsIntoBudgetedSlots` deals the channel keys out over more and more slots until each slot
fits, and puts the other entries into the first slot, which is trimmed. Every channel key gets into
one slot, except for `__proto__`: an assignment to that name has no effect on a plain object.
-/
namespace ReadState

open Lib

/-! ### Dealing out -/

theorem flatMap_filter_perm {α : Type} (f : α → Nat) (l : List α) (n : Nat) :
    ((List.range n).flatMap fun i => l.filter fun a => f a = i).Perm (l.filter fun a => f a < n) := by
  -- On the bound: below `n + 1` is below `n` or at `n`.
  induction n with
  | zero => simp
  | succ n ih =>
    rw [List.range_succ, List.flatMap_append, List.flatMap_singleton]
    have parts := List.filter_append_perm (fun a => decide (f a < n)) (l.filter fun a => f a < n + 1)
    rw [List.filter_filter, List.filter_filter] at parts
    refine .trans ?_ parts
    refine List.Perm.append ?_ (List.Perm.of_eq (List.filter_congr fun a _ => ?_))
    · refine ih.trans (List.Perm.of_eq (List.filter_congr fun a _ => ?_))
      rw [← Bool.decide_and, decide_eq_decide]
      omega
    · rw [← decide_not, ← Bool.decide_and, decide_eq_decide]
      omega

variable {channelEntries threadMsgEntries : List (String × Nat)}

theorem entries_assignAll (contexts : Record) (entries : List (String × Nat))
    (distinct : ((contexts.entries ++ entries).map Prod.fst).Nodup)
    (assignable : "__proto__" ∉ entries.map Prod.fst) :
    (assignAll contexts entries).entries = contexts.entries ++ entries := by
  -- Along the entries: each key is new to what was assigned before it.
  induction entries generalizing contexts with
  | nil => simp [assignAll]
  | cons entry rest ih =>
    obtain ⟨key, timestamp⟩ := entry
    rw [List.map_cons, List.mem_cons, not_or] at assignable
    have fresh : key ∉ contexts.entries.map Prod.fst := by
      intro member
      rw [List.map_append, List.nodup_append] at distinct
      exact distinct.2.2 key member key (by simp) rfl
    have added : (Record.assign contexts key timestamp).entries =
        contexts.entries ++ [(key, timestamp)] := by
      -- An absent key other than `__proto__` is appended.
      unfold Record.assign
      rw [if_neg (Ne.symm assignable.1)]
      exact if_neg fresh
    change (assignAll (Record.assign contexts key timestamp) rest).entries = _
    rw [ih _ (by rw [added]; simpa using distinct) assignable.2, added]
    simp

/-- The entries of one slot. -/
def share (channelEntries : List (String × Nat)) (count slot : Nat) : List (String × Nat) :=
  (channelEntries.zipIdx.filter fun entry => entry.2 % count = slot).map Prod.fst

theorem share_sublist (channelEntries : List (String × Nat)) (count slot : Nat) :
    (share channelEntries count slot).Sublist channelEntries := by
  have all : channelEntries.zipIdx.map Prod.fst = channelEntries := List.zipIdx_map_fst 0 channelEntries
  conv_rhs => rw [← all]
  exact List.filter_sublist.map _

theorem shares_perm (channelEntries : List (String × Nat)) {count : Nat} (some : 0 < count) :
    ((List.range count).flatMap (share channelEntries count)).Perm channelEntries := by
  have dealt := (flatMap_filter_perm (fun entry : (String × Nat) × Nat => entry.2 % count)
    channelEntries.zipIdx count).map Prod.fst
  rw [List.map_flatMap] at dealt
  refine dealt.trans (List.Perm.of_eq ?_)
  have all : channelEntries.zipIdx.filter (fun entry => entry.2 % count < count) =
      channelEntries.zipIdx := by
    rw [List.filter_eq_self]
    exact fun entry _ => decide_eq_true (Nat.mod_lt _ some)
  rw [all, List.zipIdx_map_fst]

theorem entries_distribute (distinct : (channelEntries.map Prod.fst).Nodup)
    (assignable : "__proto__" ∉ channelEntries.map Prod.fst) (count : Nat) :
    (distribute channelEntries count).map JsMap.entries =
      (List.range count).map (share channelEntries count) := by
  rw [distribute, List.map_map]
  refine List.map_congr_left fun slot _ => ?_
  have part := (share_sublist channelEntries count slot).map Prod.fst
  exact entries_assignAll JsMap.empty (share channelEntries count slot) (distinct.sublist part)
    fun member => assignable (part.subset member)

theorem growSlots_spec (channelEntries : List (String × Nat)) (clientId : String) (maxBytes room count : Nat) :
    count ≤ growSlots channelEntries clientId maxBytes room count ∧
      growSlots channelEntries clientId maxBytes room count ≤ count + room ∧
      (tooLong clientId maxBytes (distribute channelEntries
          (growSlots channelEntries clientId maxBytes room count)) = true →
        growSlots channelEntries clientId maxBytes room count = count + room) := by
  induction room generalizing count with
  | zero => exact ⟨Nat.le_refl _, Nat.le_refl _, fun _ => rfl⟩
  | succ room ih =>
    unfold growSlots
    split
    next =>
      obtain ⟨lower, upper, full⟩ := ih (count + 1)
      exact ⟨by omega, by omega, fun long => by rw [full long]; omega⟩
    next fits => exact ⟨Nat.le_refl _, Nat.le_add_right _ _, fun long => absurd long fits⟩

/-! ### The result -/

/-- What a successful split is. -/
structure Split (channelEntries threadMsgEntries : List (String × Nat)) (clientId : String)
    (initialSlotCount maxBytes : Nat) (result : SlotSplitResult) : Prop where
  count : result.slots.length = initialSlotCount + result.extraSlotIds.length
  fits : ∀ slot ∈ result.slots, blobBytes clientId slot ≤ maxBytes
  channels : ((result.slots.flatMap JsMap.entries).filter isChannel).Perm channelEntries
  others : ∀ (i : Nat) (slot : Record), result.slots[i]? = some slot → ∀ entry ∈ slot.entries,
    isChannel entry = false → i = 0 ∧ entry ∈ threadMsgEntries

/-- The keys as `splitContextsIntoSlots` separates them, all different, and none of them `__proto__`. -/
structure Entries (channelEntries threadMsgEntries : List (String × Nat)) : Prop where
  distinct : ((channelEntries ++ threadMsgEntries).map Prod.fst).Nodup
  channels : ∀ entry ∈ channelEntries, isChannel entry = true
  threadMsgs : ∀ entry ∈ threadMsgEntries, isChannel entry = false
  assignable : "__proto__" ∉ channelEntries.map Prod.fst

theorem Entries.nodup (given : Entries channelEntries threadMsgEntries) :
    (channelEntries.map Prod.fst).Nodup := by
  have distinct := given.distinct
  rw [List.map_append, List.nodup_append] at distinct
  exact distinct.1

theorem entries_primary (given : Entries channelEntries threadMsgEntries) {primary : Record}
    {count slot : Nat} (dealt : primary.entries = share channelEntries count slot) :
    (assignAll primary threadMsgEntries).entries = share channelEntries count slot ++ threadMsgEntries := by
  rw [← dealt]
  have part := ((share_sublist channelEntries count slot).append_right threadMsgEntries).map Prod.fst
  refine entries_assignAll primary threadMsgEntries ?_ ?_
  · rw [dealt]
    exact given.distinct.sublist part
  · intro member
    obtain ⟨entry, inside, named⟩ := List.mem_map.mp member
    -- `__proto__` would count as a channel, and no thread key does.
    have other := given.threadMsgs entry inside
    rw [isChannel, named] at other
    revert other
    decide

/-- Trimming the first slot leaves its share, and it fits when the share alone does. -/
theorem trimmed_primary (given : Entries channelEntries threadMsgEntries) {primary : Record}
    {clientId : String} {count slot maxBytes : Nat}
    (dealt : primary.entries = share channelEntries count slot)
    (alone : blobBytes clientId primary ≤ maxBytes) {trimmed : Record}
    (result : trimmed =
      (trimContextsToBudget (assignAll primary threadMsgEntries) clientId maxBytes).contexts) :
    blobBytes clientId trimmed ≤ maxBytes ∧
      trimmed.entries.filter isChannel = share channelEntries count slot ∧
      ∀ entry ∈ trimmed.entries, isChannel entry = false → entry ∈ threadMsgEntries := by
  obtain ⟨gone, trim⟩ :=
    trimContextsToBudget_trimmed (assignAll primary threadMsgEntries) clientId maxBytes
  have entries := entries_primary given dealt
  have inShare : ∀ entry ∈ share channelEntries count slot, isChannel entry = true :=
    fun entry member => given.channels entry ((share_sublist channelEntries count slot).subset member)
  have channels : (assignAll primary threadMsgEntries).entries.filter isChannel =
      share channelEntries count slot := by
    have none : threadMsgEntries.filter isChannel = [] := by
      rw [List.filter_eq_nil_iff]
      exact fun entry member => by simp [given.threadMsgs entry member]
    rw [entries, List.filter_append, List.filter_eq_self.mpr inShare, none, List.append_nil]
  refine ⟨?_, ?_, fun entry member other => ?_⟩
  · rw [result, ← trim.fits]
    -- Trimming gives up only when nothing but the share is left, which fits.
    by_contra tooLong
    have long := trim.tooLong (Bool.eq_false_iff.mpr tooLong)
    have same : (kept isChannel (assignAll primary threadMsgEntries)).entries = primary.entries :=
      channels.trans dealt.symm
    have bytes := blobBytes_eq clientId (kept isChannel (assignAll primary threadMsgEntries))
    have bytes' := blobBytes_eq clientId primary
    rw [same] at bytes
    omega
  · rw [result, trim.removed, ← channels]
    change ((assignAll primary threadMsgEntries).entries.filter _).filter isChannel = _
    rw [List.filter_filter]
    refine List.filter_congr fun entry member => ?_
    -- What trimming removes is not a channel.
    cases channel : isChannel entry with
    | false => rfl
    | true =>
      have stays := trim.channels entry member channel
      rw [trim.removed] at stays
      exact (List.mem_filter.mp stays).2
  · rw [result, trim.removed] at member
    have inside := (List.mem_filter.mp member).1
    rw [entries] at inside
    rcases List.mem_append.mp inside with here | there
    · rw [inShare entry here] at other
      cases other
    · exact there

theorem split_of_shares (given : Entries channelEntries threadMsgEntries) {clientId : String}
    {initialSlotCount maxBytes rest : Nat} {trimmed : Record} {others : List Record}
    {extraSlotIds : List String} (count : rest + 1 = initialSlotCount + extraSlotIds.length)
    (fits : blobBytes clientId trimmed ≤ maxBytes)
    (short : ∀ slot ∈ others, blobBytes clientId slot ≤ maxBytes)
    (first : trimmed.entries.filter isChannel = share channelEntries (rest + 1) 0)
    (threadMsgs : ∀ entry ∈ trimmed.entries, isChannel entry = false → entry ∈ threadMsgEntries)
    (later : others.map JsMap.entries =
      ((List.range rest).map Nat.succ).map (share channelEntries (rest + 1))) :
    Split channelEntries threadMsgEntries clientId initialSlotCount maxBytes
      { slots := trimmed :: others, extraSlotIds } := by
  -- The later slots hold shares only.
  have laterChannels : ∀ slot ∈ others, ∀ entry ∈ slot.entries, isChannel entry = true := by
    intro slot member entry inside
    have dealtOut : slot.entries ∈ others.map JsMap.entries := List.mem_map_of_mem member
    rw [later] at dealtOut
    obtain ⟨i, -, same⟩ := List.mem_map.mp dealtOut
    rw [← same] at inside
    exact given.channels entry ((share_sublist channelEntries _ i).subset inside)
  refine ⟨?_, ?_, ?_, ?_⟩
  · have slots := congrArg List.length later
    simp only [List.length_map, List.length_range] at slots
    change others.length + 1 = initialSlotCount + extraSlotIds.length
    omega
  · intro slot member
    rcases List.mem_cons.mp member with rfl | member
    · exact fits
    · exact short slot member
  · have all : (others.flatMap JsMap.entries).filter isChannel =
        ((List.range rest).map Nat.succ).flatMap (share channelEntries (rest + 1)) := by
      rw [List.flatMap_def, List.flatMap_def, ← later, List.filter_eq_self]
      intro entry member
      obtain ⟨entries, dealt, here⟩ := List.mem_flatten.mp member
      obtain ⟨slot, inside, rfl⟩ := List.mem_map.mp dealt
      exact laterChannels slot inside entry here
    -- The first share and the later ones are all channel entries.
    have perm := shares_perm channelEntries (Nat.succ_pos rest)
    rw [List.range_succ_eq_map, List.flatMap_cons] at perm
    rw [List.flatMap_cons, List.filter_append, first, all]
    exact perm
  · intro i slot found entry member other
    cases i with
    | zero =>
      obtain rfl : trimmed = slot := Option.some.inj found
      exact ⟨rfl, threadMsgs entry member other⟩
    | succ i =>
      have inside : slot ∈ others := List.mem_of_getElem? found
      rw [laterChannels slot inside entry member] at other
      cases other

/-- A split that succeeds keeps every channel key and fits; one that fails could not have done so with
as many slots as there may be. -/
theorem splitContextsIntoBudgetedSlots_spec (given : Entries channelEntries threadMsgEntries)
    (clientId : String) {initialSlotCount : Nat} (some : 1 ≤ initialSlotCount)
    (maxSlots maxBytes : Nat) (slotIdGenerator : Nat → String) :
    match splitContextsIntoBudgetedSlots channelEntries threadMsgEntries clientId initialSlotCount
      maxSlots maxBytes slotIdGenerator with
    | .some result => Split channelEntries threadMsgEntries clientId initialSlotCount maxBytes result
    | none => ∃ slot ∈ distribute channelEntries (max initialSlotCount maxSlots),
        maxBytes < blobBytes clientId slot := by
  obtain ⟨lower, upper, full⟩ := growSlots_spec channelEntries clientId maxBytes
    (maxSlots - initialSlotCount) initialSlotCount
  unfold splitContextsIntoBudgetedSlots
  dsimp only
  generalize growSlots channelEntries clientId maxBytes (maxSlots - initialSlotCount)
    initialSlotCount = count at *
  by_cases long : tooLong clientId maxBytes (distribute channelEntries count) = true
  · rw [if_pos long]
    -- The slots stop growing early only when they fit, so there are as many as allowed.
    have most : count = max initialSlotCount maxSlots := by
      rw [full long]
      omega
    rw [tooLong, List.any_eq_true] at long
    obtain ⟨slot, member, exceeds⟩ := long
    rw [← most]
    exact ⟨slot, member, of_decide_eq_true exceeds⟩
  · rw [if_neg long]
    have short : ∀ slot ∈ distribute channelEntries count, blobBytes clientId slot ≤ maxBytes := by
      intro slot member
      rw [tooLong, List.any_eq_true, not_exists] at long
      exact not_lt.mp fun exceeds => long slot ⟨member, decide_eq_true exceeds⟩
    -- there is a first slot, whose share has the number zero
    obtain ⟨rest, rfl⟩ : ∃ rest, count = rest + 1 := ⟨count - 1, by omega⟩
    have shares := entries_distribute given.nodup given.assignable (rest + 1)
    rw [List.range_succ_eq_map, List.map_cons] at shares
    cases dealt : distribute channelEntries (rest + 1) with
    | nil =>
      rw [dealt] at shares
      cases shares
    | cons primary others =>
      rw [dealt] at short shares
      rw [List.map_cons, List.cons.injEq] at shares
      dsimp only
      obtain ⟨trimmed, result⟩ : ∃ trimmed, trimmed =
          (trimContextsToBudget (assignAll primary threadMsgEntries) clientId maxBytes).contexts :=
        ⟨_, rfl⟩
      rw [← result]
      obtain ⟨fits, channels, threadMsgs⟩ :=
        trimmed_primary given shares.1 (short primary List.mem_cons_self) result
      refine split_of_shares given ?_ fits (fun slot member => short slot (List.mem_cons_of_mem _ member))
        channels threadMsgs shares.2
      rw [List.length_map, List.length_range]
      omega

namespace Sample

def channels : List (String × Nat) := [("general", 10), ("random", 20)]

def threadMsgs : List (String × Nat) := [("msg:1", 30), ("thread:2", 40)]

theorem entries : Entries channels threadMsgs where
  distinct := by decide
  channels := by decide
  threadMsgs := by decide
  assignable := by decide

/-- A channel that is named like the link to the prototype. -/
def protoChannel : List (String × Nat) := [("__proto__", 10)]

end Sample

theorem splitContextsIntoBudgetedSlots_sample :
    Entries Sample.channels Sample.threadMsgs ∧ 1 ≤ 1 ∧
    match splitContextsIntoBudgetedSlots Sample.channels Sample.threadMsgs "client" 1 8 60
      (fun n => toString n) with
    | .some result => Split Sample.channels Sample.threadMsgs "client" 1 60 result
    | none => ∃ slot ∈ distribute Sample.channels (max 1 8), 60 < blobBytes "client" slot := by
  refine ⟨Sample.entries, Nat.le_refl 1, ?_⟩
  have spec := splitContextsIntoBudgetedSlots_spec Sample.entries "client" (Nat.le_refl 1) 8 60
    fun n => toString n
  revert spec
  generalize splitContextsIntoBudgetedSlots Sample.channels Sample.threadMsgs "client" 1 8 60
    (fun n => toString n) = outcome
  cases outcome with
  | none => exact id
  | some result => exact id

/-- Its marker is lost, and the split succeeds. -/
theorem splitContextsIntoBudgetedSlots_proto :
    (Sample.protoChannel.map Prod.fst).Nodup ∧
    (splitContextsIntoBudgetedSlots Sample.protoChannel [] "client" 1 8 1000
      (fun n => toString n)).map (fun result => result.slots.flatMap JsMap.entries) = some [] := by
  refine ⟨by decide, by decide⟩

end ReadState
