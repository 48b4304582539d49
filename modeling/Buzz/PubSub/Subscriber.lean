import Buzz.Lib.Interest
import Buzz.Lib.Map
import Buzz.Lib.Run
import Buzz.Nostr.Uuid
import Buzz.Relay.Subscription
import Mathlib.Data.Finset.Basic

/-!
# The Redis subscriber of a pod

`PubSubManager::retain_topic` and `release_topic` of `buzz-pubsub` and the task that holds the
pub/sub connection (`connect_and_subscribe`). The refcounts are the source of truth. A call
changes them under a lock; the command to the task is sent after that, by the first retain of a
topic itself and by a spawned task some time after the last release.

The task is modelled between two looks at the refcounts: it reads them when a connection starts
and when it takes an `UnsubscribeIfIdle`.
-/
namespace PubSub

open Lib Nostr Relay

/-! ### Topics -/

inductive EventTopic where
  | channel (channelId : Uuid)
  | global
deriving DecidableEq

structure EventTopicKey where
  communityId : CommunityId
  topic : EventTopic
deriving DecidableEq

namespace EventTopicKey

def redisChannel (key : EventTopicKey) : String :=
  match key.topic with
  | .channel channelId => "buzz:" ++ key.communityId.uuid.toString ++ ":channel:" ++ channelId.toString
  | .global => "buzz:" ++ key.communityId.uuid.toString ++ ":global"

theorem redisChannel_injective : Function.Injective redisChannel := by
  rintro ⟨⟨community⟩, topic⟩ ⟨⟨community'⟩, topic'⟩ same
  have lengths := congrArg String.length same
  have chars := congrArg String.toList same
  cases topic with
  | global =>
    cases topic' with
    | global =>
      simp only [redisChannel, String.toList_append, List.append_assoc,
        List.append_cancel_left_eq] at chars
      rw [List.append_cancel_right_eq] at chars
      rw [Uuid.toString_injective (String.toList_injective chars)]
    | channel channelId =>
      simp only [redisChannel, String.length_append, Uuid.length_toString] at lengths
      exact absurd lengths (by decide)
  | channel channelId =>
    cases topic' with
    | global =>
      simp only [redisChannel, String.length_append, Uuid.length_toString] at lengths
      exact absurd lengths (by decide)
    | channel channelId' =>
      simp only [redisChannel, String.toList_append, List.append_assoc,
        List.append_cancel_left_eq] at chars
      have sizes : community.toString.toList.length = community'.toString.toList.length := by
        rw [String.length_toList, String.length_toList, Uuid.length_toString, Uuid.length_toString]
      obtain ⟨first, rest⟩ := List.append_inj chars sizes
      rw [List.append_cancel_left_eq] at rest
      rw [Uuid.toString_injective (String.toList_injective first),
        Uuid.toString_injective (String.toList_injective rest)]

end EventTopicKey

/-! ### The task and the counts -/

abbrev SubscriptionCommand := Command EventTopicKey

/-- A pub/sub connection. -/
structure Connection where
  activeTopics : Finset String
  /-- The channels that Redis delivers on it. -/
  subscribed : Finset String
deriving DecidableEq

namespace Connection

def empty : Connection := ⟨∅, ∅⟩

def subscribe (conn : Connection) (channel : String) : Connection :=
  ⟨insert channel conn.activeTopics, insert channel conn.subscribed⟩

def unsubscribe (conn : Connection) (channel : String) : Connection :=
  ⟨conn.activeTopics.erase channel, conn.subscribed.erase channel⟩

end Connection

/-- Where the subscriber task is. -/
inductive Subscriber where
  /-- Before the first connection, or waiting to reconnect. -/
  | offline
  /-- The topics of the snapshot that are still to be subscribed. -/
  | joining (initialTopics : List EventTopicKey) (conn : Connection)
  /-- In the loop. -/
  | serving (conn : Connection)
  /-- It has read the refcount of the topic as zero. -/
  | leaving (topic : EventTopicKey) (conn : Connection)
deriving DecidableEq

namespace Subscriber

def conn? : Subscriber → Option Connection
  | offline => none
  | joining _ conn | serving conn | leaving _ conn => some conn

end Subscriber

structure Pod where
  desiredTopics : Map EventTopicKey Nat := ∅
  /-- The `Subscribe` commands that a `retain_topic` is about to send. -/
  unsent : List EventTopicKey := []
  /-- The `UnsubscribeIfIdle` commands that a spawned task will send. -/
  delayed : List EventTopicKey := []
  queue : List SubscriptionCommand := []
  subscriber : Subscriber := .offline

/-- `mpsc::channel(4096)`. -/
def commandCapacity : Nat := 4096

namespace Pod

def desiredRefcount (pod : Pod) (topic : EventTopicKey) : Nat :=
  (pod.desiredTopics.lookup topic).getD 0

/-- Redis delivers the channel of the topic to the pod. -/
def receives (pod : Pod) (topic : EventTopicKey) : Bool :=
  pod.subscriber.conn?.any fun conn => topic.redisChannel ∈ conn.subscribed

/-- `retain_topic` up to its send. -/
def retainTopic (pod : Pod) (topic : EventTopicKey) : Pod :=
  let count := (pod.desiredTopics.lookup topic).getD 0
  { pod with
    desiredTopics := pod.desiredTopics.insert topic (count + 1)
    unsent := if count = 0 then pod.unsent ++ [topic] else pod.unsent }

/-- `release_topic` up to the spawned task. -/
def releaseTopic (pod : Pod) (topic : EventTopicKey) : Pod :=
  match pod.desiredTopics.lookup topic with
  | none => pod
  | some count =>
    if count - 1 = 0 then
      { pod with
        desiredTopics := pod.desiredTopics.erase topic
        delayed := pod.delayed ++ [topic] }
    else { pod with desiredTopics := pod.desiredTopics.insert topic (count - 1) }

/-- The topics with a positive count, in the order of the map. -/
def initialTopics (pod : Pod) : List EventTopicKey :=
  pod.desiredTopics.keys.filter fun topic => 0 < pod.desiredRefcount topic

/-- The snapshot is subscribed before the loop starts. -/
def join (pod : Pod) (initialTopics : List EventTopicKey) (conn : Connection) : Pod :=
  match initialTopics with
  | [] => { pod with subscriber := .serving conn }
  | topics => { pod with subscriber := .joining topics conn }

end Pod

inductive Action where
  | retain (topic : EventTopicKey)
  | release (topic : EventTopicKey)
  | sendSubscribe (topic : EventTopicKey)
  | sendUnsubscribe (topic : EventTopicKey)
  /-- A connection is there, and the counts are read. The map visits its keys in any order. -/
  | connect (order : List EventTopicKey)
  /-- The next topic of the snapshot is subscribed, or the connection fails over it. -/
  | subscribeInitial (ok : Bool)
  /-- The next command is taken. -/
  | receive (ok : Bool)
  | unsubscribe (ok : Bool)
  /-- The stream ends. -/
  | disconnect
  /-- A message is passed on, which concerns none of this. -/
  | message
deriving DecidableEq

def perform (pod : Pod) : Action → Option Pod
  | .retain topic => some (pod.retainTopic topic)
  | .release topic => some (pod.releaseTopic topic)
  | .sendSubscribe topic =>
    if topic ∈ pod.unsent ∧ pod.queue.length < commandCapacity then
      some { pod with unsent := pod.unsent.erase topic, queue := pod.queue ++ [Command.subscribe topic] }
    else none
  | .sendUnsubscribe topic =>
    if topic ∈ pod.delayed ∧ pod.queue.length < commandCapacity then
      some { pod with
        delayed := pod.delayed.erase topic, queue := pod.queue ++ [Command.unsubscribeIfIdle topic] }
    else none
  | .connect order =>
    if pod.subscriber = .offline ∧ order.Perm pod.initialTopics then some (pod.join order .empty)
    else none
  | .subscribeInitial ok =>
    match pod.subscriber with
    | .joining (topic :: rest) conn =>
      some (if ok then pod.join rest (conn.subscribe topic.redisChannel)
        else { pod with subscriber := .offline })
    | _ => none
  | .receive ok =>
    match pod.subscriber, pod.queue with
    | .serving conn, .subscribe topic :: rest =>
      if topic.redisChannel ∈ conn.activeTopics then some { pod with queue := rest }
      else if ok then
        some { pod with queue := rest, subscriber := .serving (conn.subscribe topic.redisChannel) }
      else some { pod with queue := rest, subscriber := .offline }
    | .serving conn, .unsubscribeIfIdle topic :: rest =>
      if pod.desiredRefcount topic = 0 then
        some { pod with queue := rest, subscriber := .leaving topic conn }
      else some { pod with queue := rest }
    | _, _ => none
  | .unsubscribe ok =>
    match pod.subscriber with
    | .leaving topic conn =>
      if topic.redisChannel ∈ conn.activeTopics then
        some { pod with
          subscriber := if ok then .serving (conn.unsubscribe topic.redisChannel) else .offline }
      else some { pod with subscriber := .serving conn }
    | _ => none
  | .disconnect =>
    if pod.subscriber = .offline then none else some { pod with subscriber := .offline }
  | .message => some pod

abbrev Run := Trace perform

end PubSub
