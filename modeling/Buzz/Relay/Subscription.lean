import Buzz.Lib.Index
import Buzz.Nostr.Filter

/-!
# Subscription registry

The registry of active subscriptions and its five fan-out indexes
(`buzz-relay/src/subscription.rs`). A subscription is stored under its
connection and its client-chosen id; which index files it depends on the shape
of its filters and on its server-resolved scope. Each operation is written as
the source computes it, one registry update after the other; a hash map is
visited in the order of its entries. The metrics gauge is left out.
-/
namespace Relay

open Nostr Lib

/-- A connection id is the UUID of its WebSocket connection. -/
abbrev ConnId := Uuid
abbrev SubId := String

structure CommunityId where
  uuid : Uuid
deriving DecidableEq

instance : LawfulBEq (CommunityId × Uuid) := inferInstance

instance : LawfulBEq (CommunityId × EventId) := inferInstance

/-- Server-resolved live-routing scope of a subscription. -/
inductive SubscriptionScope where
  /-- Community-global events only. -/
  | global
  /-- Events from any of these authorised channels. -/
  | channels (ids : List Uuid)
deriving DecidableEq

namespace SubscriptionScope

def matchesChannel : SubscriptionScope → Option Uuid → Bool
  | .global, none => true
  | .channels ids, some channel => channel ∈ ids
  | _, _ => false

def channelIds : SubscriptionScope → List Uuid
  | .global => []
  | .channels ids => ids

end SubscriptionScope

structure IndexKey where
  channelId : Uuid
  kind : Kind
deriving DecidableEq

structure GlobalPKindIndexKey where
  communityId : CommunityId
  kind : Kind
  p : String
deriving DecidableEq

/-- A stored subscription: its filters, community and scope. -/
structure SubEntry where
  filters : List Filter
  communityId : CommunityId
  scope : SubscriptionScope
deriving DecidableEq

structure RemovedSubscription where
  communityId : CommunityId
  scope : SubscriptionScope
deriving DecidableEq

structure ChannelSubscriptionUpdate where
  subId : SubId
  removed : Bool
deriving DecidableEq

structure SubscriptionRegistry where
  subs : Map ConnId (Map SubId SubEntry) := ∅
  channelKindIndex : Index (CommunityId × IndexKey) (ConnId × SubId) := ∅
  channelWildcardIndex : Index (CommunityId × Uuid) (ConnId × SubId) := ∅
  globalKindIndex : Index (CommunityId × Kind) (ConnId × SubId) := ∅
  globalPKindIndex : Index GlobalPKindIndexKey (ConnId × SubId) := ∅
  globalWildcardIndex : Index CommunityId (ConnId × SubId) := ∅

/-! ### Key extraction -/

/-- The union of all `kinds` across the filters, in order of first occurrence,
or `none` when some filter has no `kinds` and so matches every kind. -/
def extractKindsFromFilters (filters : List Filter) : Option (List Kind) :=
  collectNew Filter.kinds filters

/-- The `(kind, #p)` keys one filter contributes: `none` when it cannot be filed
in that index, no key at all when its `kinds` is empty. -/
def filterPKindKeys (communityId : CommunityId) (f : Filter) :
    Option (List GlobalPKindIndexKey) := do
  let kinds ← f.kinds
  if kinds.isEmpty then return []
  let pValues ← f.genericTags.lookup SingleLetterTag.p
  if pValues.isEmpty then none
  return kinds.flatMap fun kind => pValues.map fun p => ⟨communityId, kind, p⟩

def extractGlobalPKindIndexKeys (communityId : CommunityId) (filters : List Filter) :
    Option (List GlobalPKindIndexKey) :=
  collectNew (filterPKindKeys communityId) filters

/-- The distinct `p` tag values of the event, in order. -/
def eventPTagValues (ev : StoredEvent) : List String :=
  ((ev.event.tags.filter fun t => Tag.kind t = some "p").filterMap Tag.content).foldl pushNew []

namespace SubscriptionRegistry

/-! ### Filing and withdrawing a subscription -/

/-- The part of `register_with_scope` that files the subscription under one
channel. -/
def indexChannel (r : SubscriptionRegistry) (v : ConnId × SubId) (filters : List Filter)
    (communityId : CommunityId) (channel : Uuid) : SubscriptionRegistry :=
  match extractKindsFromFilters filters with
  | none => { r with
      channelWildcardIndex := r.channelWildcardIndex.push (communityId, channel) v }
  | some kinds =>
    -- `kinds: []` matches nothing, so the subscription is not filed anywhere
    if kinds.isEmpty then r
    else { r with
      channelKindIndex := kinds.foldl
        (fun idx kind => Index.push idx (communityId, ⟨channel, kind⟩) v) r.channelKindIndex }

/-- The part of `register_with_scope` that files a global subscription. -/
def indexGlobal (r : SubscriptionRegistry) (v : ConnId × SubId) (filters : List Filter)
    (communityId : CommunityId) : SubscriptionRegistry :=
  match extractGlobalPKindIndexKeys communityId filters with
  | some keys => { r with
      globalPKindIndex := keys.foldl (fun idx key => Index.push idx key v) r.globalPKindIndex }
  | none =>
    match extractKindsFromFilters filters with
    | none => { r with globalWildcardIndex := r.globalWildcardIndex.push communityId v }
    | some kinds =>
      if kinds.isEmpty then r
      else { r with
        globalKindIndex := kinds.foldl
          (fun idx kind => Index.push idx (communityId, kind) v) r.globalKindIndex }

/-- File a new subscription in the indexes its scope and filters call for. -/
def index (r : SubscriptionRegistry) (v : ConnId × SubId) (filters : List Filter)
    (communityId : CommunityId) (scope : SubscriptionScope) : SubscriptionRegistry :=
  match scope with
  | .channels ids => ids.foldl (fun r channel => r.indexChannel v filters communityId channel) r
  | .global => r.indexGlobal v filters communityId

/-- One channel's share of `remove_from_index`. -/
def unindexChannel (r : SubscriptionRegistry) (v : ConnId × SubId) (filters : List Filter)
    (communityId : CommunityId) (channel : Uuid) : SubscriptionRegistry :=
  match extractKindsFromFilters filters with
  | none => { r with
      channelWildcardIndex := r.channelWildcardIndex.retain (communityId, channel) v }
  | some kinds =>
    if kinds.isEmpty then r
    else { r with
      channelKindIndex := kinds.foldl
        (fun idx kind => Index.retain idx (communityId, ⟨channel, kind⟩) v) r.channelKindIndex }

/-- Withdraw a subscription from the indexes, recomputing its keys from the
filters and scope it was filed with. -/
def removeFromIndex (r : SubscriptionRegistry) (connId : ConnId) (subId : SubId)
    (filters : List Filter) (communityId : CommunityId) (scope : SubscriptionScope) :
    SubscriptionRegistry :=
  match scope with
  | .channels ids =>
    ids.foldl (fun r channel => r.unindexChannel (connId, subId) filters communityId channel) r
  | .global =>
    match extractGlobalPKindIndexKeys communityId filters with
    | some keys => { r with
        globalPKindIndex := keys.foldl
          (fun idx key => Index.retain idx key (connId, subId)) r.globalPKindIndex }
    | none =>
      match extractKindsFromFilters filters with
      | none => { r with
          globalWildcardIndex := r.globalWildcardIndex.retain communityId (connId, subId) }
      | some kinds =>
        if kinds.isEmpty then r
        else { r with
          globalKindIndex := kinds.foldl
            (fun idx kind => Index.retain idx (communityId, kind) (connId, subId))
            r.globalKindIndex }

/-! ### Operations -/

def removeSubscription (r : SubscriptionRegistry) (connId : ConnId) (subId : SubId) :
    Option RemovedSubscription × SubscriptionRegistry :=
  match r.subs.lookup connId with
  | none => (none, r)
  | some connSubs =>
    match connSubs.lookup subId with
    | none => (none, r)
    | some entry =>
      -- the connection keeps its (possibly empty) table
      let r := { r with subs := r.subs.insert connId (connSubs.erase subId) }
      (some ⟨entry.communityId, entry.scope⟩,
        r.removeFromIndex connId subId entry.filters entry.communityId entry.scope)

def registerWithScope (r : SubscriptionRegistry) (communityId : CommunityId) (connId : ConnId)
    (subId : SubId) (filters : List Filter) (scope : SubscriptionScope) :
    Option RemovedSubscription × SubscriptionRegistry :=
  let (removed, r) := r.removeSubscription connId subId
  let r := { r with
    subs := Map.upsert r.subs connId ∅ fun connSubs =>
      connSubs.insert subId ⟨filters, communityId, scope⟩ }
  (removed, r.index (connId, subId) filters communityId scope)

/-- Replaces any existing subscription with the same id. -/
def registerScoped (r : SubscriptionRegistry) (communityId : CommunityId) (connId : ConnId)
    (subId : SubId) (filters : List Filter) (channelId : Option Uuid) :
    Option RemovedSubscription × SubscriptionRegistry :=
  let scope := (channelId.map fun channel => SubscriptionScope.channels [channel]).getD .global
  r.registerWithScope communityId connId subId filters scope

def registerChannelsScoped (r : SubscriptionRegistry) (communityId : CommunityId)
    (connId : ConnId) (subId : SubId) (filters : List Filter) (channelIds : List Uuid) :
    Option RemovedSubscription × SubscriptionRegistry :=
  r.registerWithScope communityId connId subId filters (.channels channelIds)

/-- Withdraw the subscriptions of a connection one after the other. -/
def removeEntries (r : SubscriptionRegistry) (connId : ConnId)
    (entries : List (Sigma fun _ : SubId => SubEntry)) :
    List RemovedSubscription × SubscriptionRegistry :=
  entries.foldl (fun (removed, r) ⟨subId, entry⟩ =>
    (removed ++ [⟨entry.communityId, entry.scope⟩],
      r.removeFromIndex connId subId entry.filters entry.communityId entry.scope)) ([], r)

def removeConnection (r : SubscriptionRegistry) (connId : ConnId) :
    List RemovedSubscription × SubscriptionRegistry :=
  match r.subs.lookup connId with
  | none => ([], r)
  | some connSubs =>
    let r := { r with subs := r.subs.erase connId }
    r.removeEntries connId connSubs.entries

/-- The subscriptions of `connId` that a revocation of `channelId` concerns. -/
def subscriptionsOfChannel (r : SubscriptionRegistry) (communityId : CommunityId)
    (connId : ConnId) (channelId : Uuid) : List SubId :=
  match r.subs.lookup connId with
  | none => []
  | some connSubs => connSubs.entries.filterMap fun ⟨subId, entry⟩ =>
      if entry.communityId = communityId ∧ channelId ∈ entry.scope.channelIds then some subId
      else none

/-- One round of the revocation loop: narrow the stored scope, withdraw the
subscription from the channel's indexes, and drop it when nothing is left. -/
def revokeOne (r : SubscriptionRegistry) (communityId : CommunityId) (connId : ConnId)
    (channelId : Uuid) (subId : SubId) : Option ChannelSubscriptionUpdate × SubscriptionRegistry :=
  match r.subs.lookup connId with
  | none => (none, r)
  | some connSubs =>
    match connSubs.lookup subId with
    | none => (none, r)
    | some entry =>
      match entry.scope with
      | .global => (none, r)
      | .channels ids =>
        let kept := ids.filter (· ≠ channelId)
        let removed := kept.isEmpty
        let r := { r with
          subs := r.subs.insert connId
            (connSubs.insert subId { entry with scope := .channels kept }) }
        let r := r.removeFromIndex connId subId entry.filters communityId (.channels [channelId])
        let r := if removed then { r with
          subs := r.subs.insert connId (connSubs.erase subId) } else r
        (some ⟨subId, removed⟩, r)

def removeChannelSubscriptionsScoped (r : SubscriptionRegistry) (communityId : CommunityId)
    (connId : ConnId) (channelId : Uuid) :
    List ChannelSubscriptionUpdate × SubscriptionRegistry :=
  (r.subscriptionsOfChannel communityId connId channelId).foldl (fun (updates, r) subId =>
    let (update, r) := r.revokeOne communityId connId channelId subId
    (updates ++ update.toList, r)) ([], r)

/-- The distinct connections that are filed for the channel, in the channel-kind index or as a
wildcard. -/
def channelSubscriberConnsScoped (r : SubscriptionRegistry) (communityId : CommunityId)
    (channelId : Uuid) : List ConnId :=
  let conns := r.channelKindIndex.entries.foldl (fun conns entry =>
    if entry.1.1 = communityId ∧ entry.1.2.channelId = channelId then
      (entry.2.map Prod.fst).foldl pushNew conns
    else conns) []
  match r.channelWildcardIndex.lookup (communityId, channelId) with
  | none => conns
  | some filed => (filed.map Prod.fst).foldl pushNew conns

/-- Deliver to a candidate unless its authoritative entry no longer matches or it
was delivered to already. -/
def pushMatch (r : SubscriptionRegistry) (communityId : CommunityId) (ev : StoredEvent)
    (results : List (ConnId × SubId)) (candidate : ConnId × SubId) : List (ConnId × SubId) :=
  match r.subs.lookup candidate.1 with
  | none => results
  | some connSubs =>
    match connSubs.lookup candidate.2 with
    | none => results
    | some entry =>
      if entry.communityId = communityId ∧ entry.scope.matchesChannel ev.channelId = true ∧
          filtersMatch entry.filters ev = true
      then pushNew results candidate
      else results

/-- The `(conn, sub)` pairs of the community whose subscriptions match the event. -/
def fanOutScoped (r : SubscriptionRegistry) (communityId : CommunityId) (ev : StoredEvent) :
    List (ConnId × SubId) :=
  match ev.channelId with
  | some channel =>
    let results := (r.channelKindIndex.filed (communityId, ⟨channel, ev.event.kind⟩)).foldl
      (r.pushMatch communityId ev) []
    (r.channelWildcardIndex.filed (communityId, channel)).foldl (r.pushMatch communityId ev) results
  | none =>
    let results := (eventPTagValues ev).foldl (fun results p =>
      (r.globalPKindIndex.filed ⟨communityId, ev.event.kind, p⟩).foldl
        (r.pushMatch communityId ev) results) []
    let results := (r.globalKindIndex.filed (communityId, ev.event.kind)).foldl
      (r.pushMatch communityId ev) results
    (r.globalWildcardIndex.filed communityId).foldl (r.pushMatch communityId ev) results

/-! ### Runs -/

/-- A call of one of the registry's mutating operations. -/
inductive Call where
  | registerScoped (communityId : CommunityId) (connId : ConnId) (subId : SubId)
      (filters : List Filter) (channelId : Option Uuid)
  | registerChannelsScoped (communityId : CommunityId) (connId : ConnId) (subId : SubId)
      (filters : List Filter) (channelIds : List Uuid)
  | removeSubscription (connId : ConnId) (subId : SubId)
  | removeConnection (connId : ConnId)
  | removeChannelSubscriptionsScoped (communityId : CommunityId) (connId : ConnId)
      (channelId : Uuid)

def call (r : SubscriptionRegistry) : Call → SubscriptionRegistry
  | .registerScoped c conn sub filters channel => (r.registerScoped c conn sub filters channel).2
  | .registerChannelsScoped c conn sub filters channels =>
    (r.registerChannelsScoped c conn sub filters channels).2
  | .removeSubscription conn sub => (r.removeSubscription conn sub).2
  | .removeConnection conn => (r.removeConnection conn).2
  | .removeChannelSubscriptionsScoped c conn channel =>
    (r.removeChannelSubscriptionsScoped c conn channel).2

/-- The registry after a sequence of calls on a new one. -/
def run (calls : List Call) : SubscriptionRegistry := calls.foldl call {}

/-- The entry stored for a pair, if the subscription is live. -/
def live (r : SubscriptionRegistry) (v : ConnId × SubId) : Option SubEntry :=
  (r.subs.lookup v.1).bind fun connSubs => connSubs.lookup v.2

end SubscriptionRegistry

end Relay
