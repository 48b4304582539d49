import Buzz.ReadState.Budget

/-!
# Trimming a blob to its budget

The loop of `trimContextsToBudget` runs on an estimate of what each entry contributes and looks at the
real size only when it is done. The estimate counts UTF-16 code units and no escapes, so it never
exceeds the contribution, and it is exact for a key of ASCII characters that are not escaped: the loop
never stops too early, and for such keys it never evicts too much.
-/
namespace ReadState

open Lib

/-! ### The length of a blob -/

def textBytes (text : List Char) : Nat := (text.map Char.utf8Size).sum

theorem textBytes_append (text text' : List Char) :
    textBytes (text ++ text') = textBytes text + textBytes text' := by
  simp [textBytes]

@[simp] theorem textBytes_cons (c : Char) (text : List Char) :
    textBytes (c :: text) = c.utf8Size + textBytes text := by
  simp [textBytes]

@[simp] theorem textBytes_nil : textBytes [] = 0 := rfl

/-- `,"key":timestamp`, in bytes. -/
def cost (entry : String × Nat) : Nat :=
  textBytes (Json.printString entry.1) + (Nat.toDigits 10 entry.2).length + 2

/-- What the loop takes the entry for. -/
def estimate (entry : String × Nat) : Nat :=
  utf16Length entry.1 + 3 + (toString entry.2).length + 1

def asMember (entry : String × Nat) : String × Json := (entry.1, .num (NumberLiteral.ofNat entry.2))

private theorem textBytes_digits (n : Nat) :
    textBytes (NumberLiteral.ofNat n).text = (Nat.toDigits 10 n).length := by
  -- Digits are ASCII, so each takes one byte.
  have single : ∀ c ∈ Nat.toDigits 10 n, c.utf8Size = 1 := by
    intro c member
    have digit := Nat.isDigit_of_mem_toDigits (by decide) (by decide) member
    simp only [Char.isDigit, Bool.and_eq_true, decide_eq_true_eq] at digit
    have small : c.val ≤ 0x7f := UInt32.le_trans digit.2 (by decide)
    exact Char.utf8Size_eq_one_iff.mpr small
  change ((Nat.toDigits 10 n).map Char.utf8Size).sum = _
  rw [List.map_congr_left single]
  simp

private theorem textBytes_printMembers (entries : List (String × Nat)) :
    textBytes (Json.printMembers (entries.map asMember)) = (entries.map cost).sum + 1 := by
  -- Each further entry brings its comma.
  induction entries with
  | nil => rfl
  | cons entry rest ih =>
    rw [List.map_cons, List.map_cons, List.sum_cons, asMember, Json.printMembers, textBytes_cons,
      textBytes_append, textBytes_cons, textBytes_append, ih, Json.print, textBytes_digits, cost]
    have comma : Char.utf8Size ',' = 1 := by decide
    have colon : Char.utf8Size ':' = 1 := by decide
    omega

private theorem textBytes_print (entries : List (String × Nat)) :
    textBytes (Json.obj (entries.map asMember)).print + (if entries = [] then 0 else 1) =
      (entries.map cost).sum + 2 := by
  cases entries with
  | nil => rfl
  | cons entry rest =>
    rw [List.map_cons, List.map_cons, List.sum_cons, asMember, Json.print, textBytes_cons,
      textBytes_append, textBytes_cons, textBytes_append, textBytes_printMembers, Json.print,
      textBytes_digits, cost, if_neg (by simp)]
    have brace : Char.utf8Size '\x7b' = 1 := by decide
    have colon : Char.utf8Size ':' = 1 := by decide
    omega

/-- The bytes around the entries. -/
def frameBytes (clientId : String) : Nat := blobBytes clientId JsMap.empty

private theorem exists_frame (clientId : String) : ∃ frame, ∀ contexts : Record,
    blobBytes clientId contexts =
      frame + textBytes (Json.obj (contexts.objectEntries.map asMember)).print := by
  refine ⟨textBytes ('\x7b' :: (Json.printString "v" ++ ':' :: ((NumberLiteral.ofNat 1).text ++
    ',' :: (Json.printString "client_id" ++ ':' :: (Json.printString clientId ++
      ',' :: (Json.printString "contexts" ++ [':'])))))) + 1, fun contexts => ?_⟩
  have brace : Char.utf8Size '\x7d' = 1 := by decide
  unfold blobBytes jsonStringify byteLen
  rw [String.toList_ofList]
  change textBytes _ = _
  simp only [ReadStateBlob.toJson, Json.print, Json.printMembers, textBytes_cons, textBytes_append,
    textBytes_nil, brace]
  change _ = _ + textBytes (Json.obj (contexts.objectEntries.map fun entry =>
    (entry.1, Json.num (NumberLiteral.ofNat entry.2)))).print
  omega

private theorem objectEntries_perm (contexts : Record) :
    contexts.objectEntries.Perm contexts.entries := by
  -- The keys that are array indices come first; together with the others they are all entries.
  have parts := List.filter_append_perm (fun entry => (JsMap.arrayIndex entry.1).isSome)
    contexts.entries
  refine .trans ?_ parts
  unfold JsMap.objectEntries
  refine (sortBy_perm _ _).append (List.Perm.of_eq (List.filter_congr fun entry _ => ?_))
  cases JsMap.arrayIndex entry.1 <;> rfl

theorem blobBytes_eq (clientId : String) (contexts : Record) :
    blobBytes clientId contexts + (if contexts.entries = [] then 0 else 1) =
      frameBytes clientId + (contexts.entries.map cost).sum := by
  obtain ⟨frame, split⟩ := exists_frame clientId
  have empty : frameBytes clientId = frame + 2 := split JsMap.empty
  have perm := objectEntries_perm contexts
  have body := textBytes_print contexts.objectEntries
  -- The first comma is missing unless there is no entry at all.
  have none : contexts.objectEntries = [] ↔ contexts.entries = [] := by
    rw [← List.length_eq_zero_iff, perm.length_eq, List.length_eq_zero_iff]
  rw [(perm.map cost).sum_nat, if_congr none rfl rfl] at body
  rw [split, empty]
  omega

/-! ### The estimate -/

/-- A key of ASCII characters that JSON does not escape. -/
def Plain (key : String) : Prop :=
  ∀ c ∈ key.toList, 0x20 ≤ c.toNat ∧ c.toNat < 0x80 ∧ c ≠ '"' ∧ c ≠ '\\'

private theorem units_le_utf8Size (c : Char) :
    (if c.toNat < 0x10000 then 1 else 2) ≤ c.utf8Size := by
  split
  · exact c.utf8Size_pos
  -- Two code units stand for a character of four bytes.
  next large =>
    have four : c.utf8Size = 4 := Char.utf8Size_eq_four_iff.mpr (UInt32.lt_iff_toNat_lt.mpr (by
      change 0xffff < c.toNat
      omega))
    omega

private theorem units_le (c : Char) :
    (if c.toNat < 0x10000 then 1 else 2) ≤ textBytes (Json.escapeChar c) := by
  have first : Char.utf8Size '\\' = 1 := by decide
  by_cases quote : c = '"'
  · subst quote
    decide
  by_cases backslash : c = '\\'
  · subst backslash
    decide
  unfold Json.escapeChar
  rw [if_neg quote, if_neg backslash]
  -- A control character becomes two or six bytes, any other keeps its own.
  by_cases control : c.toNat < 0x20
  · have small : c.toNat < 0x10000 := by omega
    rw [if_pos small, if_pos control]
    split <;> simp only [textBytes_cons, first] <;> omega
  · rw [if_neg control, textBytes_cons]
    exact (units_le_utf8Size c).trans (Nat.le_add_right _ _)

private theorem units_eq {c : Char} (plain : 0x20 ≤ c.toNat ∧ c.toNat < 0x80 ∧ c ≠ '"' ∧ c ≠ '\\') :
    textBytes (Json.escapeChar c) = (if c.toNat < 0x10000 then 1 else 2) := by
  obtain ⟨printable, ascii, noQuote, noBackslash⟩ := plain
  have single : c.utf8Size = 1 := Char.utf8Size_eq_one_iff.mpr (UInt32.le_iff_toNat_le.mpr (by
    change c.toNat ≤ 127
    omega))
  unfold Json.escapeChar
  rw [if_neg noQuote, if_neg noBackslash, if_neg (by omega), if_pos (by omega), textBytes_cons, single]
  rfl

theorem cost_eq (entry : String × Nat) :
    cost entry = textBytes (entry.1.toList.flatMap Json.escapeChar) +
      (toString entry.2).length + 4 := by
  have quote : Char.utf8Size '"' = 1 := by decide
  have digits : (toString entry.2).length = (Nat.toDigits 10 entry.2).length := by
    change (String.ofList (Nat.toDigits 10 entry.2)).length = _
    rw [String.length_ofList]
  rw [cost, Json.printString, List.cons_append, textBytes_cons, textBytes_append, textBytes_cons,
    textBytes_nil, quote, digits]
  omega

theorem estimate_le_cost (entry : String × Nat) : estimate entry ≤ cost entry := by
  -- Character by character.
  have units : ∀ text : List Char, (text.map fun c => if c.toNat < 0x10000 then 1 else 2).sum ≤
      textBytes (text.flatMap Json.escapeChar) := by
    intro text
    induction text with
    | nil => exact Nat.le_refl 0
    | cons c rest ih =>
      rw [List.map_cons, List.sum_cons, List.flatMap_cons, textBytes_append]
      exact Nat.add_le_add (units_le c) ih
  have here := units entry.1.toList
  rw [cost_eq, estimate, utf16Length]
  omega

theorem estimate_eq_cost {entry : String × Nat} (plain : Plain entry.1) :
    estimate entry = cost entry := by
  have units : ∀ text : List Char,
      (∀ c ∈ text, 0x20 ≤ c.toNat ∧ c.toNat < 0x80 ∧ c ≠ '"' ∧ c ≠ '\\') →
      (text.map fun c => if c.toNat < 0x10000 then 1 else 2).sum =
        textBytes (text.flatMap Json.escapeChar) := by
    intro text all
    induction text with
    | nil => rfl
    | cons c rest ih =>
      rw [List.map_cons, List.sum_cons, List.flatMap_cons, textBytes_append, units_eq (all c (by simp)),
        ih fun c member => all c (List.mem_cons_of_mem _ member)]
  have here := units entry.1.toList plain
  rw [cost_eq, estimate, utf16Length]
  omega

/-! ### What is evicted -/

def isMsg (entry : String × Nat) : Bool := startsWith msgPrefix entry.1

def isThread (entry : String × Nat) : Bool :=
  !startsWith msgPrefix entry.1 && startsWith threadPrefix entry.1

/-- An entry that is never evicted. -/
def isChannel (entry : String × Nat) : Bool :=
  !startsWith msgPrefix entry.1 && !startsWith threadPrefix entry.1

/-- The record with the entries that a test keeps. -/
def kept (keep : String × Nat → Bool) (contexts : Record) : Record :=
  ⟨contexts.entries.filter keep, contexts.nodup.sublist (List.filter_sublist.map Prod.fst)⟩

/-- The record without some entries. -/
def without (gone : List (String × Nat)) (contexts : Record) : Record :=
  kept (fun entry => entry ∉ gone) contexts

/-- In the order in which they are evicted. -/
def evictionOrder (contexts : Record) : List (String × Nat) :=
  sortBy oldestFirst (contexts.objectEntries.filter isMsg) ++
    sortBy oldestFirst (contexts.objectEntries.filter isThread)

/-- The loop evicts while the estimate is over the budget. -/
theorem toEvict_eq (maxBytes : Nat) (currentBytes : Int) (entries : List (String × Nat)) :
    ∃ k ≤ entries.length, toEvict maxBytes currentBytes entries = (entries.take k).map Prod.fst ∧
      (k < entries.length → currentBytes - ((entries.take k).map estimate).sum ≤ maxBytes) ∧
      ∀ j < k, (maxBytes : Int) < currentBytes - ((entries.take j).map estimate).sum := by
  -- On the entries in the order of eviction; the estimate goes down with each of them.
  induction entries generalizing currentBytes with
  | nil => exact ⟨0, Nat.le_refl 0, rfl, nofun, nofun⟩
  | cons entry rest ih =>
    unfold toEvict
    split
    -- The loop stops in front of the first entry it does not need.
    next enough => exact ⟨0, Nat.zero_le _, rfl, fun _ => by simpa using enough, nofun⟩
    next tooBig =>
      obtain ⟨k, inside, evicted, stopped, needed⟩ := ih (currentBytes - estimate entry)
      refine ⟨k + 1, Nat.succ_le_succ inside, ?_, fun more => ?_, fun j less => ?_⟩
      · rw [List.take_succ_cons, List.map_cons]
        exact congrArg _ evicted
      · have enough := stopped (Nat.lt_of_succ_lt_succ more)
        rw [List.take_succ_cons, List.map_cons, List.sum_cons]
        push_cast at enough ⊢
        omega
      · cases j with
        | zero => simpa using tooBig
        | succ j =>
          have short := needed j (Nat.lt_of_succ_lt_succ less)
          rw [List.take_succ_cons, List.map_cons, List.sum_cons]
          push_cast at short ⊢
          omega

private theorem foldl_delete (contexts : Record) (keys : List String) :
    (keys.foldl JsMap.delete contexts).entries = contexts.entries.filter (·.1 ∉ keys) := by
  -- Along the keys: a deletion is one more filter.
  induction keys generalizing contexts with
  | nil => simp
  | cons key rest ih =>
    rw [List.foldl_cons, ih, JsMap.delete, List.filter_filter]
    refine List.filter_congr fun entry _ => ?_
    simp [Bool.and_comm]

section

variable (contexts : Record)

theorem perm_evictionOrder :
    contexts.entries.Perm (evictionOrder contexts ++ contexts.entries.filter isChannel) := by
  have objects := objectEntries_perm contexts
  have order : (evictionOrder contexts).Perm
      (contexts.entries.filter isMsg ++ contexts.entries.filter isThread) :=
    ((sortBy_perm _ _).trans (objects.filter _)).append ((sortBy_perm _ _).trans (objects.filter _))
  refine .trans ?_ (order.append_right _).symm
  -- first by `msg:`, and what is left by `thread:`
  have first := List.filter_append_perm isMsg contexts.entries
  have second := List.filter_append_perm (fun entry => startsWith threadPrefix entry.1)
    (contexts.entries.filter fun entry => !isMsg entry)
  rw [List.filter_filter, List.filter_filter] at second
  refine (first.symm.trans (second.symm.append_left _)).trans ?_
  rw [List.append_assoc]
  refine List.Perm.append_left _ ((List.Perm.of_eq ?_).append (List.Perm.of_eq ?_))
  · refine List.filter_congr fun entry _ => ?_
    simp [isThread, isMsg, Bool.and_comm]
  · refine List.filter_congr fun entry _ => ?_
    simp [isChannel, isMsg, Bool.and_comm]

theorem perm_without (k : Nat) :
    (without ((evictionOrder contexts).take k) contexts).entries.Perm
      ((evictionOrder contexts).drop k ++ contexts.entries.filter isChannel) := by
  have all := perm_evictionOrder contexts
  have split := all.filter fun entry => entry ∉ (evictionOrder contexts).take k
  refine split.trans (List.Perm.of_eq ?_)
  -- No entry stands twice, so the filter separates the first `k` from the rest.
  have nodup : (evictionOrder contexts ++ contexts.entries.filter isChannel).Nodup :=
    all.nodup_iff.mp (List.Nodup.of_map _ contexts.nodup)
  rw [← List.take_append_drop k (evictionOrder contexts), List.append_assoc,
    List.nodup_append] at nodup
  conv_lhs => rw [← List.take_append_drop k (evictionOrder contexts), List.append_assoc,
    List.filter_append]
  rw [List.take_append_drop]
  have gone : ((evictionOrder contexts).take k).filter
      (fun entry => entry ∉ (evictionOrder contexts).take k) = [] := by
    rw [List.filter_eq_nil_iff]
    intro entry member
    simpa using member
  have stays : ((evictionOrder contexts).drop k ++ contexts.entries.filter isChannel).filter
      (fun entry => entry ∉ (evictionOrder contexts).take k) =
      (evictionOrder contexts).drop k ++ contexts.entries.filter isChannel := by
    rw [List.filter_eq_self]
    intro entry member
    rw [decide_eq_true_eq]
    exact fun early => nodup.2.2 entry early entry member rfl
  rw [gone, stays, List.nil_append]

/-- The entries were evicted oldest first: of the `msg:` entries, and of the `thread:` entries once
all the others were gone. -/
structure OldestFirst (gone : List (String × Nat)) : Prop where
  split : ∃ msgs threads goneMsgs goneThreads, msgs.Perm (contexts.entries.filter isMsg) ∧
    msgs.Pairwise (fun a b => a.2 ≤ b.2) ∧ threads.Perm (contexts.entries.filter isThread) ∧
    threads.Pairwise (fun a b => a.2 ≤ b.2) ∧ goneMsgs <+: msgs ∧ goneThreads <+: threads ∧
    (goneThreads ≠ [] → goneMsgs = msgs) ∧ gone = goneMsgs ++ goneThreads

theorem oldestFirst_take (k : Nat) : OldestFirst contexts ((evictionOrder contexts).take k) := by
  have objects := objectEntries_perm contexts
  have ascending (l : List (String × Nat)) :
      (sortBy oldestFirst l).Pairwise fun a b => a.2 ≤ b.2 := by
    have : Std.TransCmp oldestFirst := comparesBy compare fun entry : String × Nat => entry.2
    have sorted : (sortBy oldestFirst l).Pairwise fun a b => (oldestFirst a b).isLE = true :=
      sorted_sortBy l
    exact sorted.imp fun {a b} le => Std.isLE_compare.mp le
  refine ⟨sortBy oldestFirst (contexts.objectEntries.filter isMsg),
    sortBy oldestFirst (contexts.objectEntries.filter isThread), _, _,
    (sortBy_perm _ _).trans (objects.filter _), ascending _,
    (sortBy_perm _ _).trans (objects.filter _), ascending _, List.take_prefix _ _,
    List.take_prefix _ _, fun some => ?_, List.take_append⟩
  -- A thread is taken only when all messages have been.
  refine List.take_of_length_le ?_
  rw [ne_eq, List.take_eq_nil_iff, not_or] at some
  omega

theorem mem_evictionOrder {entry : String × Nat} (member : entry ∈ evictionOrder contexts) :
    entry ∈ contexts.entries ∧ isChannel entry = false := by
  -- Each entry is in the order because of its prefix, which a channel does not have.
  rcases List.mem_append.mp member with msg | thread
  · obtain ⟨inside, here⟩ := List.mem_filter.mp ((sortBy_perm _ _).mem_iff.mp msg)
    exact ⟨JsMap.mem_objectEntries.mp inside, by unfold isMsg at here; simp [isChannel, here]⟩
  · obtain ⟨inside, here⟩ := List.mem_filter.mp ((sortBy_perm _ _).mem_iff.mp thread)
    refine ⟨JsMap.mem_objectEntries.mp inside, ?_⟩
    simp only [isThread, Bool.and_eq_true] at here
    simp [isChannel, here.2]

end

/-! ### The trimmed blob -/

/-- What trimming makes of the contexts. -/
structure Trimmed (contexts : Record) (clientId : String) (maxBytes : Nat) (result : TrimResult)
    (gone : List (String × Nat)) : Prop where
  order : OldestFirst contexts gone
  removed : result.contexts.entries = (without gone contexts).entries
  evicted : result.evicted = gone.length
  channels : ∀ entry ∈ contexts.entries, isChannel entry = true → entry ∈ result.contexts.entries
  fits : result.fitsAfterTrim = true ↔ blobBytes clientId result.contexts ≤ maxBytes
  /-- It gives up only when the channels alone are too long. -/
  tooLong : result.fitsAfterTrim = false → maxBytes < blobBytes clientId (kept isChannel contexts)
  /-- When the evicted keys are plain, the last of them could not have stayed. -/
  needed : (∀ entry ∈ gone, Plain entry.1) → ∀ front last, gone = front ++ [last] →
    maxBytes < blobBytes clientId (without front contexts)

private theorem foldl_delete_take (contexts : Record) (k : Nat) :
    (((evictionOrder contexts).take k).map Prod.fst).foldl JsMap.delete contexts =
      without ((evictionOrder contexts).take k) contexts := by
  have entries : ((((evictionOrder contexts).take k).map Prod.fst).foldl JsMap.delete contexts).entries =
      (without ((evictionOrder contexts).take k) contexts).entries := by
    rw [foldl_delete]
    refine List.filter_congr fun entry member => ?_
    rw [decide_eq_decide, not_iff_not]
    constructor
    · intro key
      obtain ⟨other, there, same⟩ := List.mem_map.mp key
      have inside := (mem_evictionOrder contexts (List.mem_of_mem_take there)).1
      rwa [← List.inj_on_of_nodup_map contexts.nodup inside member same]
    · exact fun gone => List.mem_map_of_mem gone
  revert entries
  generalize (((evictionOrder contexts).take k).map Prod.fst).foldl JsMap.delete contexts = trimmed
  intro entries
  cases trimmed
  cases entries
  rfl

private theorem blobBytes_perm (clientId : String) {contexts : Record} {l : List (String × Nat)}
    (perm : contexts.entries.Perm l) :
    blobBytes clientId contexts + (if l = [] then 0 else 1) =
      frameBytes clientId + (l.map cost).sum := by
  have none : contexts.entries = [] ↔ l = [] := by
    rw [← List.length_eq_zero_iff, perm.length_eq, List.length_eq_zero_iff]
  rw [← (perm.map cost).sum_nat, ← blobBytes_eq, if_congr none rfl rfl]

/-- While something evictable is left, the blob is shorter by what was evicted. -/
private theorem blobBytes_without (clientId : String) {contexts : Record} {k : Nat}
    (more : k < (evictionOrder contexts).length) :
    blobBytes clientId (without ((evictionOrder contexts).take k) contexts) +
      (((evictionOrder contexts).take k).map cost).sum = blobBytes clientId contexts := by
  have all := blobBytes_perm clientId (perm_evictionOrder contexts)
  have left := blobBytes_perm clientId (perm_without contexts k)
  -- Both records keep an entry, so they have the same comma to spare.
  have some : (evictionOrder contexts).drop k ++ contexts.entries.filter isChannel ≠ [] := by
    rw [ne_eq, List.append_eq_nil_iff, List.drop_eq_nil_iff, not_and_or]
    exact .inl (by omega)
  have some' : evictionOrder contexts ++ contexts.entries.filter isChannel ≠ [] := by
    rw [ne_eq, List.append_eq_nil_iff, ← List.length_eq_zero_iff]
    omega
  rw [if_neg some, List.map_append, List.sum_append] at left
  rw [if_neg some', List.map_append, List.sum_append] at all
  have parts : ((evictionOrder contexts).map cost).sum =
      (((evictionOrder contexts).take k).map cost).sum +
        (((evictionOrder contexts).drop k).map cost).sum := by
    rw [← List.sum_append, ← List.map_append, List.take_append_drop]
  omega

private theorem sum_estimate_le (l : List (String × Nat)) :
    (l.map estimate).sum ≤ (l.map cost).sum := by
  induction l with
  | nil => exact Nat.le_refl 0
  | cons entry rest ih => simpa using Nat.add_le_add (estimate_le_cost entry) ih

private theorem fitsAfterTrim_iff (contexts : Record) (clientId : String) (maxBytes : Nat) :
    (trimContextsToBudget contexts clientId maxBytes).fitsAfterTrim = true ↔
      blobBytes clientId (trimContextsToBudget contexts clientId maxBytes).contexts ≤ maxBytes := by
  unfold trimContextsToBudget
  dsimp only
  split
  next enough => simp [enough]
  next => simp only [decide_eq_true_eq]

/-- Over the budget, the first few are evicted. -/
private theorem exists_evicted {contexts : Record} {clientId : String} {maxBytes : Nat}
    (tooBig : ¬ blobBytes clientId contexts ≤ maxBytes) :
    ∃ k ≤ (evictionOrder contexts).length,
      (trimContextsToBudget contexts clientId maxBytes).contexts =
        without ((evictionOrder contexts).take k) contexts ∧
      (trimContextsToBudget contexts clientId maxBytes).evicted =
        ((evictionOrder contexts).take k).length ∧
      (k < (evictionOrder contexts).length → (blobBytes clientId contexts : Int) -
        (((evictionOrder contexts).take k).map estimate).sum ≤ maxBytes) ∧
      ∀ j < k, (maxBytes : Int) < blobBytes clientId contexts -
        (((evictionOrder contexts).take j).map estimate).sum := by
  obtain ⟨k, inside, evicted, stopped, needed⟩ :=
    toEvict_eq maxBytes (blobBytes clientId contexts) (evictionOrder contexts)
  refine ⟨k, inside, ?_, ?_, stopped, needed⟩
  · rw [← foldl_delete_take, ← evicted]
    unfold trimContextsToBudget
    dsimp only
    rw [if_neg tooBig]
    rfl
  · rw [← List.length_map Prod.fst, ← evicted]
    unfold trimContextsToBudget
    dsimp only
    rw [if_neg tooBig]
    rfl

theorem trimContextsToBudget_trimmed (contexts : Record) (clientId : String) (maxBytes : Nat) :
    ∃ gone, Trimmed contexts clientId maxBytes (trimContextsToBudget contexts clientId maxBytes)
      gone := by
  have fits := fitsAfterTrim_iff contexts clientId maxBytes
  -- Within the budget nothing is touched.
  by_cases tooBig : blobBytes clientId contexts ≤ maxBytes
  · have same : trimContextsToBudget contexts clientId maxBytes =
        { contexts, evicted := 0, fitsAfterTrim := true } := by
      unfold trimContextsToBudget
      dsimp only
      rw [if_pos tooBig]
    have none : OldestFirst contexts [] := oldestFirst_take contexts 0
    rw [same] at fits ⊢
    refine ⟨[], none, ?_, rfl, fun entry member _ => member, fits, nofun, fun _ front last all => ?_⟩
    · simp [without, kept]
    · simp at all
  · obtain ⟨k, inside, trimmed, evicted, stopped, needed⟩ := exists_evicted tooBig
    rw [trimmed] at fits
    generalize trimContextsToBudget contexts clientId maxBytes = result at *
    refine ⟨(evictionOrder contexts).take k, oldestFirst_take contexts k, by rw [trimmed], evicted,
      fun entry member channel => ?_, by rw [fits, trimmed], fun tooLong => ?_,
      fun plain front last same => ?_⟩
    rw [trimmed]
    · refine List.mem_filter.mpr ⟨member, ?_⟩
      rw [decide_eq_true_eq]
      -- Channels are not in the order of eviction.
      intro gone
      have other := (mem_evictionOrder contexts (List.mem_of_mem_take gone)).2
      rw [channel] at other
      cases other
    · rw [Bool.eq_false_iff, ne_eq, fits, not_le] at tooLong
      rcases Nat.lt_or_ge k (evictionOrder contexts).length with more | all
      · -- the loop has stopped early, and the estimate is not above the contribution
        have enough := stopped more
        have left := blobBytes_without clientId more
        have bound := sum_estimate_le ((evictionOrder contexts).take k)
        omega
      · -- Everything that could go is gone, and what is left are the channels.
        have perm := perm_without contexts k
        rw [List.drop_eq_nil_iff.mpr all, List.nil_append] at perm
        have channels : (kept isChannel contexts).entries.Perm (contexts.entries.filter isChannel) :=
          List.Perm.refl _
        have same := blobBytes_perm clientId perm
        have alone := blobBytes_perm clientId channels
        omega
    · have length : k = front.length + 1 := by
        have lengths := congrArg List.length same
        rw [List.length_take, List.length_append, List.length_singleton] at lengths
        omega
      have front_eq : (evictionOrder contexts).take front.length = front := by
        have shorter := congrArg (List.take front.length) same
        rwa [List.take_take, List.take_left, Nat.min_eq_left (by omega)] at shorter
      have short := needed front.length (by omega)
      have more : front.length < (evictionOrder contexts).length := by omega
      have left := blobBytes_without clientId more
      -- For plain keys the estimate is the contribution, so the loop's reason to go on is a real
      -- one.
      have exactly : (front.map estimate).sum = (front.map cost).sum := by
        refine congrArg List.sum (List.map_congr_left fun entry member => ?_)
        exact estimate_eq_cost (plain entry (by rw [same]; exact List.mem_append_left _ member))
      rw [front_eq] at short left
      omega

end ReadState
