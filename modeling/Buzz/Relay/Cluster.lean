import Buzz.PubSub.Subscriber
import Buzz.Relay.History

/-!
# Pods that share a database and a Redis

`handle_req` from its registration to EOSE, `dispatch_persistent_event` from the commit of an event
to its local fan-out, and `fan_out_pubsub_event`, on any number of pods. A request registers its
subscription, retains its topics one after the other and then reads its history, a page a filter
at moments of its own. An event is stored, published and then fanned out on its own pod; Redis
hands a published event to the pods that are subscribed to its channel at that moment.

The decisions of the access gate are taken from tables that do not change. A pod never lags so far
behind Redis that messages are dropped.
-/
namespace Relay

open Lib Nostr Db PubSub

/-! ### The access gate -/

inductive Visibility where
  | openChannel
  | privateChannel
deriving DecidableEq

/-- What the gate looks up. -/
structure Access where
  communityForConn : ConnId → Option CommunityId
  pubkeyForConn : ConnId → Option PublicKey
  /-- None when the lookup fails. -/
  visibility : CommunityId → Uuid → Option Visibility
  /-- False also when the lookup fails. -/
  isMember : CommunityId → Uuid → PublicKey → Bool

namespace Access

/-- The tests that `filter_fanout_by_access` makes for one connection. -/
def admits (access : Access) (community : CommunityId) (stored : StoredEvent) (conn : ConnId) :
    Bool :=
  let pubkey := access.pubkeyForConn conn
  access.communityForConn conn = some community &&
  (!authorOnlyKinds.contains stored.event.kind || pubkey = some stored.event.pubkey) &&
  (!sharedGatedKinds.contains stored.event.kind ||
    pubkey.any fun pk => !isUnsharedGatedEvent stored.event pk) &&
  stored.channelId.all fun channel =>
    match access.visibility community channel with
    | some .openChannel => true
    | some .privateChannel => pubkey.any (access.isMember community channel ·)
    | none => false

def filterFanoutByAccess (access : Access) (community : CommunityId) (stored : StoredEvent)
    (recipients : List (ConnId × SubId)) : List (ConnId × SubId) :=
  recipients.filter fun v => access.admits community stored v.1

/-- The owner gate of `dispatch_persistent_event`: the first `p` tag names the owner. -/
def owns (access : Access) (event : Event) (conn : ConnId) : Bool :=
  let owner := if event.kind = kindDmVisibility ∨ event.kind = kindAgentTurnMetric then
      (event.tags.filter fun t => Tag.kind t = some "p").findSome? Tag.content
    else none
  owner.all fun hex => (access.pubkeyForConn conn).any fun pk => pk.toHex = hex

end Access

/-! ### Requests and events -/

/-- A request that has passed the checks before its registration. -/
structure Request (ι : Type) where
  pod : ι
  conn : ConnId
  sub : SubId
  community : CommunityId
  reader : PublicKey
  accessible : List Uuid
  filters : List ReqFilter

/-- An event that a pod has accepted. -/
structure Accepted (ι : Type) where
  pod : ι
  row : Row

/-- The rows of `events`; an event is stored once in a community. -/
structure Table where
  rows : List Row := []
  unique : (rows.map fun r => (r.communityId, r.event.id)).Nodup := by simp

namespace Table

/-- The insert of a new event; none when it is a duplicate. -/
def insert (t : Table) (r : Row) : Option Table :=
  if fresh : (r.communityId, r.event.id) ∉ t.rows.map fun r => (r.communityId, r.event.id) then
    some ⟨t.rows ++ [r], by
      rw [List.map_append, List.nodup_append]
      refine ⟨t.unique, by simp, ?_⟩
      rintro key member _ last rfl
      rw [List.map_singleton, List.mem_singleton] at last
      rw [last] at member
      exact fresh member⟩
  else none

end Table

namespace Request

variable {ι : Type}

def env (req : Request ι) (t : Table) : HistoryEnv where
  community := req.community
  reader := req.reader
  accessible := req.accessible
  rows := t.rows
  unique := t.unique

/-- The scope that the subscription is registered with. -/
def scope (req : Request ι) : SubscriptionScope := ((req.env {}).subscription req.filters).scope

def entry (req : Request ι) : SubEntry := (req.env {}).subscription req.filters

def registration (req : Request ι) : SubscriptionRegistry.Call :=
  match req.scope with
  | .channels ids => .registerChannelsScoped req.community req.conn req.sub
      (req.filters.map (·.filter)) ids
  | .global => .registerScoped req.community req.conn req.sub (req.filters.map (·.filter)) none

/-- The topics that the request retains. -/
def topics (req : Request ι) : List EventTopicKey :=
  match req.scope with
  | .channels ids => ids.map fun channel => ⟨req.community, .channel channel⟩
  | .global => [⟨req.community, .global⟩]

end Request

/-- The topic that an event is published on. -/
def eventTopic (community : CommunityId) (channelId : Option Uuid) : EventTopicKey :=
  match channelId with
  | some channel => ⟨community, .channel channel⟩
  | none => ⟨community, .global⟩

/-- The historical part of a request: the pages read so far, how many of them have been passed on
and the events sent. -/
structure Reading where
  pages : Nat → Option (Except DbError (List Row)) := fun _ => none
  next : Nat := 0
  sent : List Row := []

inductive Progress where
  | arrived
  | retaining (topics : List EventTopicKey)
  /-- `retain_topic` has raised the count from zero and not sent its command. -/
  | announcing (topic : EventTopicKey) (rest : List EventTopicKey)
  | reading (r : Reading)
  /-- EOSE after all pages. -/
  | served (sent : List Row)
  /-- EOSE after a page that failed. -/
  | failed (sent : List Row)

inductive Stage where
  | accepted
  | stored
  | published
  | done
deriving DecidableEq

/-- A frame of the live fan-out. -/
structure Frame where
  recipient : ConnId × SubId
  community : CommunityId
  stored : StoredEvent
deriving DecidableEq

structure Cluster (ι κ η : Type) where
  table : Table
  pubsub : ι → PubSub.Pod
  registry : ι → SubscriptionRegistry
  /-- The messages of Redis that the pod has not fanned out. -/
  inbox : ι → List (CommunityId × StoredEvent)
  /-- `local_event_ids`. -/
  marked : ι → List (CommunityId × EventId)
  frames : ι → List Frame
  requests : κ → Progress
  events : η → Stage

/-- The requests and the events of a run. -/
structure Load (ι κ η : Type) where
  access : Access
  request : κ → Request ι
  event : η → Accepted ι

inductive ClusterAction (ι κ η : Type) where
  | register (k : κ)
  | retain (k : κ)
  | announce (k : κ)
  /-- The query of a filter reads the table; it may fail. -/
  | read (k : κ) (filter : Nat) (failure : Option DbError)
  /-- The next page is passed on, or EOSE is sent. -/
  | pass (k : κ)
  | store (e : η)
  | publish (e : η)
  | fanOut (e : η)
  /-- A message of Redis is fanned out. -/
  | consume (pod : ι)
  /-- The subscriber task, and the topics of other subscriptions. -/
  | pubsub (pod : ι) (action : PubSub.Action)
  /-- Another subscription is registered or removed. -/
  | call (pod : ι) (call : SubscriptionRegistry.Call)
  | idle

namespace Load

variable {ι κ η : Type} [DecidableEq ι] [DecidableEq κ] [DecidableEq η] (load : Load ι κ η)

/-- The frames of a fan-out on a pod. -/
def frames (registry : SubscriptionRegistry) (community : CommunityId) (stored : StoredEvent) :
    List Frame :=
  (load.access.filterFanoutByAccess community stored
    (registry.fanOutScoped community stored)).map fun v => ⟨v, community, stored⟩

/-- What a request does next with its topics: when they are all retained it reads. -/
def retained (rest : List EventTopicKey) : Progress :=
  match rest with
  | [] => .reading {}
  | topics => .retaining topics

def pass (req : Request ι) (t : Table) (r : Reading) : Option Progress :=
  match req.filters[r.next]? with
  | none => some (.served r.sent)
  | some f =>
    match r.pages r.next with
    | none => none
    | some (.error _) => some (.failed r.sent)
    | some (.ok events) =>
      some (.reading { r with
        next := r.next + 1, sent := events.foldl ((req.env t).deliverRow f) r.sent })

def read (req : Request ι) (t : Table) (r : Reading) (filter : Nat) (failure : Option DbError) :
    Option Progress :=
  match req.filters[filter]?, r.pages filter with
  | some f, none =>
    let page := match failure with
      | some e => .error e
      | none => queryEventsOn t.rows ((req.env t).historicalQuery req.filters f)
    some (.reading { r with pages := Function.update r.pages filter (some page) })
  | _, _ => none

def perform (c : Cluster ι κ η) : ClusterAction ι κ η → Option (Cluster ι κ η)
  | .register k =>
    match c.requests k with
    | .arrived =>
      let req := load.request k
      some { c with
        registry := Function.update c.registry req.pod ((c.registry req.pod).call req.registration)
        requests := Function.update c.requests k (retained req.topics) }
    | _ => none
  | .retain k =>
    match c.requests k with
    | .retaining (topic :: rest) =>
      let pod := (load.request k).pod
      some { c with
        pubsub := Function.update c.pubsub pod ((c.pubsub pod).retainTopic topic)
        requests := Function.update c.requests k
          (if (c.pubsub pod).desiredRefcount topic = 0 then .announcing topic rest
            else retained rest) }
    | _ => none
  | .announce k =>
    match c.requests k with
    | .announcing topic rest =>
      let pod := (load.request k).pod
      (PubSub.perform (c.pubsub pod) (.sendSubscribe topic)).map fun sent =>
        { c with
          pubsub := Function.update c.pubsub pod sent
          requests := Function.update c.requests k (retained rest) }
    | _ => none
  | .read k filter failure =>
    match c.requests k with
    | .reading r =>
      (read (load.request k) c.table r filter failure).map fun progress =>
        { c with requests := Function.update c.requests k progress }
    | _ => none
  | .pass k =>
    match c.requests k with
    | .reading r =>
      (pass (load.request k) c.table r).map fun progress =>
        { c with requests := Function.update c.requests k progress }
    | _ => none
  | .store e =>
    match c.events e with
    | .accepted =>
      (c.table.insert (load.event e).row).map fun table =>
        { c with table, events := Function.update c.events e .stored }
    | _ => none
  | .publish e =>
    match c.events e with
    | .stored =>
      let r := (load.event e).row
      let pod := (load.event e).pod
      some { c with
        marked := Function.update c.marked pod (c.marked pod ++ [(r.communityId, r.event.id)])
        inbox := fun p => if (c.pubsub p).receives (eventTopic r.communityId r.channelId) then
            c.inbox p ++ [(r.communityId, r.stored)] else c.inbox p
        events := Function.update c.events e .published }
    | _ => none
  | .fanOut e =>
    match c.events e with
    | .published =>
      let r := (load.event e).row
      let pod := (load.event e).pod
      some { c with
        frames := Function.update c.frames pod (c.frames pod ++
          (load.frames (c.registry pod) r.communityId r.stored).filter fun frame =>
            load.access.owns r.event frame.recipient.1)
        events := Function.update c.events e .done }
    | _ => none
  | .consume pod =>
    match c.inbox pod with
    | [] => none
    | (community, stored) :: rest =>
      -- The echo of an event that was fanned out here already.
      if (community, stored.event.id) ∈ c.marked pod then
        some { c with
          inbox := Function.update c.inbox pod rest
          marked := Function.update c.marked pod
            ((c.marked pod).filter (· ≠ (community, stored.event.id))) }
      else
        some { c with
          inbox := Function.update c.inbox pod rest
          frames := Function.update c.frames pod
            (c.frames pod ++ load.frames (c.registry pod) community stored) }
  | .pubsub pod action =>
    (PubSub.perform (c.pubsub pod) action).map fun next =>
      { c with pubsub := Function.update c.pubsub pod next }
  | .call pod call =>
    some { c with registry := Function.update c.registry pod ((c.registry pod).call call) }
  | .idle => some c

end Load

/-- Nothing has been asked for and nothing stored. -/
def Cluster.initial {ι κ η : Type} : Cluster ι κ η where
  table := {}
  pubsub _ := {}
  registry _ := {}
  inbox _ := []
  marked _ := []
  frames _ := []
  requests _ := .arrived
  events _ := .accepted

end Relay
