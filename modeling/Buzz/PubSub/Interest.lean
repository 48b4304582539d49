import Buzz.PubSub.Subscriber
import Mathlib.Data.Nat.Count

/-!
# Redis subscriptions follow local interest

Every run of one pod: retains and releases of any number of topics, the commands they send, the
task and its reconnects. The task and its connection refine `Lib.Interest`, which says when the
connection ends up with the topics that are wanted.

`Subscribe` does not look at the refcount. When the last release of a topic comes before the
command of its first retain has been sent, that command can be taken after the
`UnsubscribeIfIdle`, and the topic stays subscribed though nobody wants it
(`not_follows_overtaken`).
-/
namespace PubSub

open Lib Nostr Relay

/-! ### What the pod is for -/

namespace Pod

/-- Every command has been taken and none is on its way. -/
structure Quiet (pod : Pod) : Prop where
  unsent : pod.unsent = []
  delayed : pod.delayed = []
  queue : pod.queue = []

/-- The channels of the connection are those of the topics with a positive count. -/
structure Follows (pod : Pod) : Prop where
  subscribed : pod.Quiet → ∀ conn, pod.subscriber = .serving conn → ∀ channel,
    channel ∈ conn.subscribed ↔ ∃ topic : EventTopicKey, 0 < pod.desiredRefcount topic ∧
      topic.redisChannel = channel
  /-- A count that `release_topic` takes one from is not zero. -/
  positive : ∀ topic count, pod.desiredTopics.lookup topic = some count → 0 < count

end Pod

/-- Each release of a topic has a retain before it. -/
def Matched (run : Run) : Prop :=
  ∀ n topic, run.action n = .release topic →
    Nat.count (fun k => run.action k = .release topic) n <
      Nat.count (fun k => run.action k = .retain topic) n

/-- The last release of a topic does not come before the `Subscribe` of its first retain has been
sent. -/
def Announced (pod : Pod) : Action → Prop
  | .release topic => pod.desiredRefcount topic = 1 → topic ∉ pod.unsent
  | _ => True

instance (pod : Pod) (a : Action) : Decidable (Announced pod a) :=
  match a with
  | .release topic =>
    inferInstanceAs (Decidable (pod.desiredRefcount topic = 1 → topic ∉ pod.unsent))
  | .retain _ | .sendSubscribe _ | .sendUnsubscribe _ | .connect _ | .subscribeInitial _
  | .receive _ | .unsubscribe _ | .disconnect | .message => isTrue trivial

/-! ### The task refines the interest -/

namespace Subscriber

/-- The topics of the connection once the task is done with what it does now. -/
def topics : Subscriber → Option (Set EventTopicKey)
  | offline => none
  | joining todo conn => some {t | t ∈ todo ∨ t.redisChannel ∈ conn.activeTopics}
  | serving conn => some {t | t.redisChannel ∈ conn.activeTopics}
  | leaving topic conn => some {t | t.redisChannel ∈ conn.activeTopics ∧ t ≠ topic}

end Subscriber

/-- The task knows what Redis delivers, and it delivers topics. -/
structure Connection.Ok (conn : Connection) : Prop where
  same : conn.activeTopics = conn.subscribed
  named : ∀ channel ∈ conn.activeTopics, ∃ topic : EventTopicKey, topic.redisChannel = channel

namespace Connection.Ok

theorem empty : Connection.empty.Ok := ⟨rfl, by simp [Connection.empty]⟩

theorem subscribe {conn : Connection} (ok : conn.Ok) (topic : EventTopicKey) :
    (conn.subscribe topic.redisChannel).Ok where
  same := by simp [Connection.subscribe, ok.same]
  named channel member := by
    rcases Finset.mem_insert.mp member with rfl | before
    · exact ⟨topic, rfl⟩
    · exact ok.named channel before

theorem unsubscribe {conn : Connection} (ok : conn.Ok) (channel : String) :
    (conn.unsubscribe channel).Ok where
  same := by simp [Connection.unsubscribe, ok.same]
  named other member := ok.named other (Finset.mem_of_mem_erase member)

end Connection.Ok

namespace Pod

structure Ok (pod : Pod) : Prop where
  positive : ∀ topic count, pod.desiredTopics.lookup topic = some count → 0 < count
  conn : ∀ conn, pod.subscriber.conn? = some conn → conn.Ok

def interest (pod : Pod) : Interest EventTopicKey where
  count := pod.desiredRefcount
  unsent := pod.unsent
  delayed := pod.delayed
  queue := pod.queue
  actual := pod.subscriber.topics

variable {pod pod' : Pod}

theorem desiredRefcount_retainTopic (pod : Pod) (topic : EventTopicKey) :
    (pod.retainTopic topic).desiredRefcount =
      Function.update pod.desiredRefcount topic (pod.desiredRefcount topic + 1) := by
  funext t
  by_cases same : t = topic
  · subst same
    simp [desiredRefcount, retainTopic]
  · simp [desiredRefcount, retainTopic, same]

theorem mem_initialTopics {topic : EventTopicKey} :
    topic ∈ pod.initialTopics ↔ 0 < pod.desiredRefcount topic := by
  simp only [initialTopics, List.mem_filter, decide_eq_true_eq, and_iff_right_iff_imp]
  intro wanted
  rw [← AList.mem_keys, ← AList.lookup_isSome]
  cases held : pod.desiredTopics.lookup topic with
  | none => simp [desiredRefcount, held] at wanted
  | some count => rfl

theorem interest_retainTopic (pod : Pod) (topic : EventTopicKey) :
    (pod.retainTopic topic).interest =
      { pod.interest with
        count := Function.update pod.interest.count topic (pod.interest.count topic + 1)
        unsent := if pod.interest.count topic = 0 then pod.interest.unsent ++ [topic]
          else pod.interest.unsent } := by
  unfold interest
  rw [desiredRefcount_retainTopic]
  rfl

/-- A release of a topic that nobody retains does nothing. -/
theorem releaseTopic_of_zero (ok : pod.Ok) {topic : EventTopicKey}
    (zero : pod.desiredRefcount topic = 0) : pod.releaseTopic topic = pod := by
  unfold releaseTopic
  split
  next => rfl
  next count held =>
    have positive := ok.positive topic count held
    simp only [desiredRefcount, held, Option.getD_some] at zero
    omega

theorem interest_releaseTopic {topic : EventTopicKey} (held : 0 < pod.desiredRefcount topic) :
    (pod.releaseTopic topic).interest =
      { pod.interest with
        count := Function.update pod.interest.count topic (pod.interest.count topic - 1)
        delayed := if pod.interest.count topic = 1 then pod.interest.delayed ++ [topic]
          else pod.interest.delayed } := by
  cases present : pod.desiredTopics.lookup topic with
  | none => simp [desiredRefcount, present] at held
  | some count =>
    have known : pod.desiredRefcount topic = count := by simp [desiredRefcount, present]
    rw [known] at held
    -- The last release removes the entry and leaves an unsubscription for later.
    by_cases last : count = 1
    · have counts : ({ pod with
            desiredTopics := pod.desiredTopics.erase topic
            delayed := pod.delayed ++ [topic] } : Pod).desiredRefcount =
          Function.update pod.desiredRefcount topic (count - 1) := by
        funext t
        by_cases same : t = topic
        · subst same
          simp [desiredRefcount, last]
        · simp [desiredRefcount, same]
      simp [releaseTopic, present, last, interest, known]
      simpa [last] using counts
    · have counts : ({ pod with
            desiredTopics := pod.desiredTopics.insert topic (count - 1) } : Pod).desiredRefcount =
          Function.update pod.desiredRefcount topic (count - 1) := by
        funext t
        by_cases same : t = topic
        · subst same
          simp [desiredRefcount]
        · simp [desiredRefcount, same]
      have more : ¬ count - 1 = 0 := by omega
      simp [releaseTopic, present, last, interest, known, more]
      exact counts

theorem topics_join (pod : Pod) (todo : List EventTopicKey) (conn : Connection) :
    (pod.join todo conn).subscriber.topics = (Subscriber.joining todo conn).topics := by
  cases todo with
  | nil => simp [join, Subscriber.topics]
  | cons topic todo => rfl

theorem interest_join (pod : Pod) (todo : List EventTopicKey) (conn : Connection) :
    (pod.join todo conn).interest =
      { pod.interest with actual := (Subscriber.joining todo conn).topics } := by
  rw [← topics_join pod todo conn]
  cases todo <;> rfl

end Pod

namespace Subscriber

theorem redisChannel_mem_subscribe {conn : Connection} {topic t : EventTopicKey} :
    t.redisChannel ∈ (conn.subscribe topic.redisChannel).activeTopics ↔
      t = topic ∨ t.redisChannel ∈ conn.activeTopics := by
  simp [Connection.subscribe, EventTopicKey.redisChannel_injective.eq_iff]

theorem topics_joining_cons (topic : EventTopicKey) (rest : List EventTopicKey)
    (conn : Connection) :
    (joining rest (conn.subscribe topic.redisChannel)).topics =
      (joining (topic :: rest) conn).topics := by
  simp only [topics, redisChannel_mem_subscribe, List.mem_cons, Option.some.injEq]
  ext t
  simp only [Set.mem_ofPred_eq]
  tauto

theorem topics_serving_subscribe (conn : Connection) (topic : EventTopicKey) :
    (serving (conn.subscribe topic.redisChannel)).topics =
      some (insert topic {t | t.redisChannel ∈ conn.activeTopics}) := by
  simp only [topics, redisChannel_mem_subscribe, Option.some.injEq]
  ext t
  simp

theorem topics_serving_unsubscribe (conn : Connection) (topic : EventTopicKey) :
    (serving (conn.unsubscribe topic.redisChannel)).topics = (leaving topic conn).topics := by
  simp only [topics, Connection.unsubscribe, Finset.mem_erase,
    EventTopicKey.redisChannel_injective.ne_iff, Option.some.injEq]
  ext t
  simp [and_comm]

theorem topics_leaving_of_absent {conn : Connection} {topic : EventTopicKey}
    (absent : topic.redisChannel ∉ conn.activeTopics) :
    (leaving topic conn).topics = (serving conn).topics := by
  simp only [topics, Option.some.injEq]
  ext t
  simp only [Set.mem_ofPred_eq, and_iff_left_iff_imp]
  rintro member rfl
  exact absent member

end Subscriber

theorem step_of_perform {pod pod' : Pod} {a : Action} (ok : pod.Ok) (announced : Announced pod a)
    (performed : perform pod a = some pod') :
    pod.interest.Step pod'.interest ∨ pod'.interest = pod.interest := by
  -- An action of a pod is one step of the abstract interest, or none that it can see.
  cases a with
  | retain topic =>
    cases performed
    rw [pod.interest_retainTopic topic]
    exact Or.inl (.retain topic)
  | release topic =>
    cases performed
    by_cases zero : pod.desiredRefcount topic = 0
    · rw [Pod.releaseTopic_of_zero ok zero]
      exact Or.inr rfl
    · have held : 0 < pod.desiredRefcount topic := by omega
      rw [Pod.interest_releaseTopic held]
      exact Or.inl (.release held announced)
  | sendSubscribe topic =>
    simp only [perform] at performed
    split at performed
    next ready =>
      cases performed
      exact Or.inl (.sendSubscribe ready.1)
    next => cases performed
  | sendUnsubscribe topic =>
    simp only [perform] at performed
    split at performed
    next ready =>
      cases performed
      exact Or.inl (.sendUnsubscribe ready.1)
    next => cases performed
  | connect order =>
    simp only [perform] at performed
    split at performed
    next ready =>
      cases performed
      have snapshot : (Subscriber.joining order .empty).topics =
          some {t | 0 < pod.interest.count t} := by
        simp only [Subscriber.topics, Connection.empty, Finset.notMem_empty, or_false,
          ready.2.mem_iff, Pod.mem_initialTopics]
        rfl
      rw [pod.interest_join, snapshot]
      exact Or.inl .connect
    next => cases performed
  | subscribeInitial ok' =>
    simp only [perform] at performed
    split at performed
    next topic rest conn joining =>
      cases performed
      cases ok' with
      | true =>
        rw [if_pos rfl, pod.interest_join, Subscriber.topics_joining_cons, ← joining]
        exact Or.inr rfl
      | false => exact Or.inl .disconnect
    next => cases performed
  | receive ok' =>
    simp only [perform] at performed
    split at performed
    next conn topic rest serving next =>
      have up : pod.interest.actual = some {t | t.redisChannel ∈ conn.activeTopics} := by
        simp only [Pod.interest, serving, Subscriber.topics]
      split at performed
      next there =>
        cases performed
        -- A topic that is subscribed already is a step that adds nothing.
        have same : insert topic {t : EventTopicKey | t.redisChannel ∈ conn.activeTopics} =
            {t | t.redisChannel ∈ conn.activeTopics} := Set.insert_eq_of_mem there
        have moved := Interest.Step.subscribe (s := pod.interest) next up
        rw [same, ← up] at moved
        exact Or.inl moved
      next absent =>
        cases ok' with
        | true =>
          cases performed
          have moved := Interest.Step.subscribe (s := pod.interest) next up
          rw [← Subscriber.topics_serving_subscribe] at moved
          exact Or.inl moved
        | false =>
          cases performed
          -- A failed subscription loses the command with the connection.
          exact Or.inl (.lose next)
    next conn topic rest serving next =>
      have up : pod.interest.actual = some {t | t.redisChannel ∈ conn.activeTopics} := by
        simp only [Pod.interest, serving, Subscriber.topics]
      split at performed
      next idle =>
        cases performed
        exact Or.inl (.unsubscribe next idle up)
      next wanted =>
        cases performed
        exact Or.inl (.keep next (Nat.pos_of_ne_zero wanted))
    next => cases performed
  | unsubscribe ok' =>
    simp only [perform] at performed
    split at performed
    next topic conn leaving =>
      split at performed
      next there =>
        cases performed
        cases ok' with
        | true =>
          refine Or.inr ?_
          simp only [Pod.interest, if_true, Subscriber.topics_serving_unsubscribe, leaving]
          rfl
        | false => exact Or.inl .disconnect
      next absent =>
        cases performed
        refine Or.inr ?_
        simp only [Pod.interest, leaving, Subscriber.topics_leaving_of_absent absent]
        rfl
    next => cases performed
  | disconnect =>
    simp only [perform] at performed
    split at performed
    next => cases performed
    next =>
      cases performed
      exact Or.inl .disconnect
  | message =>
    cases performed
    exact Or.inr rfl

/-! ### The pod keeps its books -/

namespace Pod.Ok

variable {pod pod' : Pod}

theorem initial : ({} : Pod).Ok :=
  ⟨fun topic count held => by simp at held, fun conn there => by cases there⟩

theorem retainTopic (ok : pod.Ok) (topic : EventTopicKey) : (pod.retainTopic topic).Ok where
  positive t count held := by
    simp only [Pod.retainTopic, Map.lookup_insert_ite] at held
    split at held
    next =>
      cases held
      omega
    next => exact ok.positive t count held
  conn := ok.conn

theorem releaseTopic (ok : pod.Ok) (topic : EventTopicKey) : (pod.releaseTopic topic).Ok := by
  unfold Pod.releaseTopic
  split
  next => exact ok
  next count held =>
    split
    next =>
      refine ⟨fun t left there => ?_, ok.conn⟩
      simp only [Map.lookup_erase_ite] at there
      split at there
      next => cases there
      next => exact ok.positive t left there
    next more =>
      refine ⟨fun t left there => ?_, ok.conn⟩
      simp only [Map.lookup_insert_ite] at there
      split at there
      next =>
        cases there
        omega
      next => exact ok.positive t left there

theorem subscriber (ok : pod.Ok) {subscriber : Subscriber} {queue : List SubscriptionCommand}
    (fine : ∀ conn, subscriber.conn? = some conn → conn.Ok) :
    ({ pod with queue, subscriber } : Pod).Ok := ⟨ok.positive, fine⟩

theorem join (ok : pod.Ok) {conn : Connection} (fine : conn.Ok) (todo : List EventTopicKey) :
    (pod.join todo conn).Ok := by
  cases todo with
  | nil => exact ⟨ok.positive, fun _ same => by cases same; exact fine⟩
  | cons topic todo => exact ⟨ok.positive, fun _ same => by cases same; exact fine⟩

theorem perform {a : Action} (ok : pod.Ok) (performed : perform pod a = some pod') : pod'.Ok := by
  -- Without a connection there is nothing to be wrong about it.
  have offline (queue : List SubscriptionCommand) :
      ({ pod with queue, subscriber := .offline } : Pod).Ok :=
    ok.subscriber fun conn there => by cases there
  cases a with
  | retain topic =>
    cases performed
    exact ok.retainTopic topic
  | release topic =>
    cases performed
    exact ok.releaseTopic topic
  | sendSubscribe topic | sendUnsubscribe topic =>
    simp only [PubSub.perform] at performed
    split at performed
    next =>
      cases performed
      exact ⟨ok.positive, ok.conn⟩
    next => cases performed
  | connect order =>
    simp only [PubSub.perform] at performed
    split at performed
    next =>
      cases performed
      exact ok.join .empty order
    next => cases performed
  | subscribeInitial ok' =>
    simp only [PubSub.perform] at performed
    split at performed
    next topic rest conn joining =>
      cases performed
      have fine := ok.conn conn (by rw [joining]; rfl)
      cases ok' with
      | true => exact ok.join (fine.subscribe topic) rest
      | false => exact offline pod.queue
    next => cases performed
  | receive ok' =>
    simp only [PubSub.perform] at performed
    split at performed
    next conn topic rest serving next =>
      have fine := ok.conn conn (by rw [serving]; rfl)
      split at performed
      next =>
        cases performed
        exact ⟨ok.positive, ok.conn⟩
      next =>
        cases ok' with
        | true =>
          cases performed
          exact ok.subscriber fun _ same => by cases same; exact fine.subscribe topic
        | false =>
          cases performed
          exact offline rest
    next conn topic rest serving next =>
      have fine := ok.conn conn (by rw [serving]; rfl)
      split at performed
      next =>
        cases performed
        exact ok.subscriber fun _ same => by cases same; exact fine
      next =>
        cases performed
        exact ⟨ok.positive, ok.conn⟩
    next => cases performed
  | unsubscribe ok' =>
    simp only [PubSub.perform] at performed
    split at performed
    next topic conn leaving =>
      have fine := ok.conn conn (by rw [leaving]; rfl)
      split at performed
      next =>
        cases performed
        cases ok' with
        | true => exact ok.subscriber fun _ same => by cases same; exact fine.unsubscribe _
        | false => exact offline pod.queue
      next =>
        cases performed
        exact ok.subscriber fun _ same => by cases same; exact fine
    next => cases performed
  | disconnect =>
    simp only [PubSub.perform] at performed
    split at performed
    next => cases performed
    next =>
      cases performed
      exact offline pod.queue
  | message =>
    cases performed
    exact ok

end Pod.Ok

/-! ### Every run -/

theorem Pod.Ok.follows {pod : Pod} (ok : pod.Ok) (sound : pod.interest.Sound) : pod.Follows where
  positive := ok.positive
  subscribed quiet conn serving channel := by
    have fine := ok.conn conn (by rw [serving]; rfl)
    have up : pod.interest.actual = some {t | t.redisChannel ∈ conn.activeTopics} := by
      simp only [Pod.interest, serving, Subscriber.topics]
    have agrees := Interest.agrees_of_quiet sound ⟨quiet.unsent, quiet.delayed, quiet.queue⟩ up
    rw [← fine.same]
    constructor
    · intro member
      obtain ⟨topic, rfl⟩ := fine.named channel member
      exact ⟨topic, (agrees topic).mp member, rfl⟩
    · rintro ⟨topic, wanted, rfl⟩
      exact (agrees topic).mpr wanted

/-- In every run that announces a topic before it is released for the last time, the connection
follows the interest. -/
theorem follows_of_announced (run : Run) (start : run.state 0 = {})
    (announced : ∀ n, Announced (run.state n) (run.action n)) (n : Nat) :
    (run.state n).Follows := by
  suffices (run.state n).Ok ∧ (run.state n).interest.Sound from this.1.follows this.2
  induction n with
  | zero =>
    rw [start]
    exact ⟨.initial, Interest.sound_init⟩
  | succ n ih =>
    obtain ⟨ok, sound⟩ := ih
    refine ⟨ok.perform (run.steps n), ?_⟩
    rcases step_of_perform ok (announced n) (run.steps n) with moved | same
    · exact sound.step moved
    · rw [same]
      exact sound

namespace Sample

def topic : EventTopicKey := ⟨⟨⟨0xAAAA⟩⟩, .global⟩

/-- A topic is retained and released, and retained again before the debounce is over. -/
def again : Run :=
  .ofList {} [.connect [], .retain topic, .sendSubscribe topic, .receive true, .release topic,
    .retain topic, .sendUnsubscribe topic, .sendSubscribe topic, .receive true, .receive true]
    .message (by decide) (fun _ => rfl)

/-- The topic is released before its `Subscribe` has been sent. -/
def overtaken : Run :=
  .ofList {} [.connect [], .retain topic, .release topic, .sendUnsubscribe topic, .receive true,
    .unsubscribe true, .sendSubscribe topic, .receive true]
    .message (by decide) (fun _ => rfl)

end Sample

theorem follows_again : (Sample.again.state 10).Follows :=
  follows_of_announced Sample.again rfl
    (Trace.forall_ofList (by decide) fun _ => trivial) 10

/-- A `Subscribe` that is overtaken leaves a subscription behind that nobody wants. -/
theorem not_follows_overtaken :
    ¬ ∀ run : Run, run.state 0 = {} → Matched run → ∀ n, (run.state n).Follows := by
  intro claimed
  have matched : Matched Sample.overtaken := by
    intro n topic released
    match n with
    | 2 =>
      cases released
      decide
    | 0 | 1 | 3 | 4 | 5 | 6 | 7 | _ + 8 => cases released
  have channels : (Sample.overtaken.state 8).subscriber = .serving
      ⟨{Sample.topic.redisChannel}, {Sample.topic.redisChannel}⟩ := by decide
  have nobody : (Sample.overtaken.state 8).desiredTopics = ∅ := AList.ext (by decide)
  have quiet : (Sample.overtaken.state 8).Quiet :=
    ⟨by decide, by decide, by decide⟩
  obtain ⟨topic, wanted, -⟩ := ((claimed Sample.overtaken rfl matched 8).subscribed quiet _ channels
    Sample.topic.redisChannel).mp (Finset.mem_singleton_self _)
  simp [Pod.desiredRefcount, nobody] at wanted

end PubSub
