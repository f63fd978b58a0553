import T2Bus.Directory.Matching
import T2Bus.Server.Acks
import T2Bus.Server.Run

/-!
# Publications

`publish` goes through the subscribers and gives up at the first one it cannot reach. So a publication
reaches every live subscriber, and its Ack has the right count, exactly when all the subscribers can
be reached.

* `pubsOn`, `pubCount`: the publications in a channel, and the number of all;
* `Core.PublishesTo`: what is owed to the live subscribers; `Core.AllReached`: what it takes;
* **`System.publishesTo_iff`**, and `System.not_publishesTo_closed`: a subscriber loses a publication
  because another one has left.
-/

namespace T2Bus

/-- The publication that a delivery puts into an open channel. -/
def Delivery.pub? (d : Delivery) : Option (Conn × PubMsg) :=
  match d.conn, d.msg.content with
  | some conn, .pub params => some (conn, params)
  | _, _ => none

/-- The publications that go into a channel. -/
def pubsOn (out : List Delivery) (conn : Conn) : List PubMsg :=
  ((out.filterMap Delivery.pub?).filter fun x => x.1 = conn).map Prod.snd

/-- The number of publications that go into a channel. -/
def pubCount (out : List Delivery) : ℕ := (out.filterMap Delivery.pub?).length

namespace Core

variable (core : Core) (env : Env)

/-- The client has a subscription that matches the topic. -/
def Matching (d : ClientId) (t : Topic) : Prop :=
  ∃ u, core.directory.Subscribed d u ∧ u.Overlaps t

/-- What leaves the core when `c` publishes `params` with message id `id`. -/
def pubOut (c : ClientId) (id : MsgId) (params : PubMsg) : List Delivery :=
  (Exec.processTask env (.message c ⟨id, .pub params⟩) (.start core)).2.out

/-- The publication goes exactly once into the channel of each matching client that has an open one,
and into no other channel; and the Ack has the number of these clients. -/
structure PublishesTo (c : ClientId) (id : MsgId) (params : PubMsg) : Prop where
  live : ∀ d conn, core.Matching d params.topic → core.reach env d = some conn →
    pubsOn (core.pubOut env c id params) conn = [params]
  other : ∀ conn, (¬ ∃ d, core.Matching d params.topic ∧ core.reach env d = some conn) →
    pubsOn (core.pubOut env c id params) conn = []
  ack : ∃ ack, acks (core.pubOut env c id params) c = [ack] ∧
    ack.numRecipients = some (pubCount (core.pubOut env c id params))

/-- Every matching client is registered and its channel open, and none has id 0. -/
def AllReached (t : Topic) : Prop :=
  ∀ d, core.Matching d t → d ≠ 0 ∧ ∃ conn, core.reach env d = some conn

variable {core env}

/-! ## What a publication puts out -/

/-- The publications among deliveries of one publication. -/
theorem filterMap_pub_deliveries (params : PubMsg) (ids : List ClientId) (core : Core) :
    (core.deliveries env (ids.map fun d => (d, .pub params))).filterMap Delivery.pub? =
      (ids.filterMap (core.reach env)).map fun conn => (conn, params) := by
  induction ids generalizing core with
  | nil => rfl
  | cons d ids ih =>
    have hreach : (core.afterDeliver env d).reach env = core.reach env :=
      funext fun d' => reach_afterDeliver d d'
    rw [List.map_cons, deliveries, List.filterMap_cons, ih, hreach, List.filterMap_cons]
    cases core.reach env d <;> rfl

variable {c : ClientId} {id : MsgId} {params : PubMsg}

/-- The copies of one publication in a channel. -/
theorem pubsOn_eq {out : List Delivery} {chans : List Conn}
    (h : out.filterMap Delivery.pub? = chans.map fun conn => (conn, params)) (conn : Conn) :
    pubsOn out conn = List.replicate (chans.count conn) params := by
  rw [pubsOn, h, List.filter_map, List.map_map, List.count, List.countP_eq_length_filter]
  exact List.map_const'

/-- The subscribers in the order of the loop. -/
def subscribers (core : Core) (env : Env) (t : Topic) : List ClientId :=
  env.order.arrange (core.directory.getSubscribers t)

theorem mem_subscribers (hd : core.directory.Sound) {t : Topic} (ht : t.Valid) {d : ClientId} :
    d ∈ core.subscribers env t ↔ core.Matching d t :=
  (env.order.perm _).mem_iff.trans (Directory.mem_getSubscribers hd ht)

theorem nodup_subscribers (t : Topic) : (core.subscribers env t).Nodup :=
  (env.order.perm _).nodup_iff.mpr (Directory.nodup_getSubscribers _ _)

/-- The loop of `publish` as the core runs it. -/
def pubLoop (core : Core) (env : Env) (params : PubMsg) : Except Fault Unit × Exec :=
  Exec.publishLoop env (.pub params) (core.subscribers env params.topic) (.start core)

variable (core env c id params) in
theorem processContent_pub :
    (Exec.processContent env c ⟨id, .pub params⟩ (.start core)).1 =
      (core.pubLoop env params).1.map fun _ => some (core.subscribers env params.topic).length := by
  have hlen : (core.subscribers env params.topic).length =
      (core.directory.getSubscribers params.topic).length := (env.order.perm _).length_eq
  rw [hlen, pubLoop, subscribers]
  simp only [Exec.processContent, Exec.publish, Exec.start]
  cases Exec.publishLoop env (.pub params)
    (env.order.arrange (core.directory.getSubscribers params.topic)) ⟨core, [], [], []⟩ with
  | mk r s => cases r <;> rfl

/-- What a publication puts out, by its result. -/
theorem pubOut_eq {r : BusResult (Option ℕ)}
    (hr : (Exec.processContent env c ⟨id, .pub params⟩ (.start core)).1 = r.mapError .err) :
    core.pubOut env c id params = core.deliveries env
      ((core.attempts env (core.subscribers env params.topic)).map (fun d => (d, .pub params)) ++
        [(c, .ack (.of id r))]) := by
  rw [pubOut, Exec.processTask, Exec.processMsg_eq hr]
  simp only [Exec.deliverList, Exec.withOwn, Exec.start, List.nil_append, own, sends]
  rfl

variable (c id) in
/-- The publications in the channels when all is delivered. -/
theorem filterMap_pub_pubOut (hreach : ∀ d ∈ core.subscribers env params.topic,
    d ≠ 0 ∧ (core.reach env d).isSome) :
    (core.pubOut env c id params).filterMap Delivery.pub? =
      ((core.subscribers env params.topic).filterMap (core.reach env)).map fun conn =>
        (conn, params) := by
  have hloop : (core.pubLoop env params).1 = .ok () := (Exec.publishLoop_ok _ _).mpr hreach
  have hres : (Exec.processContent env c ⟨id, .pub params⟩ (.start core)).1 =
      (.ok (some (core.subscribers env params.topic).length) : BusResult (Option ℕ)).mapError
        .err := by
    rw [processContent_pub, hloop]
    rfl
  rw [pubOut_eq hres, Exec.attempts_of_reach hreach, deliveries_append, List.filterMap_append,
    filterMap_pub_deliveries]
  simp [deliveries, Delivery.pub?]

/-! ## When a publication reaches everybody -/

/-- If every subscriber is reached, each gets one copy, and the count is right. -/
theorem AllReached.publishesTo (hd : core.directory.Sound) (ht : params.topic.Valid)
    (hinj : ∀ d d' conn, core.protocolServerSenders d = some conn →
      core.protocolServerSenders d' = some conn → d = d')
    (h : core.AllReached env params.topic) : core.PublishesTo env c id params := by
  have hreach : ∀ d ∈ core.subscribers env params.topic, d ≠ 0 ∧ (core.reach env d).isSome := by
    intro d hm
    obtain ⟨h₀, conn, hr⟩ := h d ((mem_subscribers hd ht).mp hm)
    exact ⟨h₀, by rw [hr]; rfl⟩
  have hpubs := filterMap_pub_pubOut c id hreach
  -- the channels of the subscribers, one for each
  have hmem : ∀ conn, conn ∈ (core.subscribers env params.topic).filterMap (core.reach env) ↔
      ∃ d, core.Matching d params.topic ∧ core.reach env d = some conn := by
    intro conn
    rw [List.mem_filterMap]
    exact exists_congr fun d => and_congr_left fun _ => mem_subscribers hd ht
  have hnodup : ((core.subscribers env params.topic).filterMap (core.reach env)).Nodup := by
    refine (nodup_subscribers params.topic).filterMap fun d d' conn h₁ h₂ => ?_
    exact hinj d d' conn (reach_eq_some.mp h₁).1 (reach_eq_some.mp h₂).1
  have hon : ∀ conn, pubsOn (core.pubOut env c id params) conn = List.replicate
      (((core.subscribers env params.topic).filterMap (core.reach env)).count conn) params :=
    pubsOn_eq hpubs
  refine ⟨fun d conn hm hr => ?_, fun conn hno => ?_, ?_⟩
  · rw [hon, List.count_eq_one_of_mem hnodup ((hmem conn).mpr ⟨d, hm, hr⟩)]
    rfl
  · rw [hon, List.count_eq_zero_of_not_mem fun hm => hno ((hmem conn).mp hm)]
    rfl
  · have hloop : (core.pubLoop env params).1 = .ok () := (Exec.publishLoop_ok _ _).mpr hreach
    have hres : (Exec.processContent env c ⟨id, .pub params⟩ (.start core)).1 =
        (.ok (some (core.subscribers env params.topic).length) : BusResult (Option ℕ)).mapError
          .err := by
      rw [processContent_pub, hloop]
      rfl
    refine ⟨_, Exec.acks_message hres, ?_⟩
    rw [pubCount, hpubs, List.length_map, AckMsg.of]
    refine congrArg some (Eq.symm ?_)
    rw [List.length_filterMap_eq_countP, List.countP_eq_length]
    exact fun d hm => (hreach d hm).2

/-- If one is missed, the Ack has no count, or there is none. -/
theorem PublishesTo.allReached (hd : core.directory.Sound) (ht : params.topic.Valid)
    (h : core.PublishesTo env c id params) : core.AllReached env params.topic := by
  have hloop : (core.pubLoop env params).1 = .ok () := by
    obtain ⟨ack, hack, hnum⟩ := h.ack
    have hres := processContent_pub core env c id params
    cases hl : (core.pubLoop env params).1 with
    | ok u => rfl
    | error f =>
      rw [hl] at hres
      cases f with
      | err e =>
        rw [pubOut, Exec.acks_message (r := .error e) hres] at hack
        cases hack
        cases hnum
      | panic =>
        rw [pubOut, Exec.acks_message_panic hres] at hack
        cases hack
  have hreach := (Exec.publishLoop_ok _ _).mp hloop
  intro d hm
  obtain ⟨h₀, hr⟩ := hreach d ((mem_subscribers hd ht).mpr hm)
  exact ⟨h₀, Option.isSome_iff_exists.mp hr⟩

end Core

namespace System

variable {s : System}

/-- **In every reachable state, a publication goes to each live subscriber exactly once and its Ack
counts them, if and only if every subscriber is registered, its channel open, and its id not 0**,
whatever the order of the iteration. -/
theorem publishesTo_iff (h : Reachable s) (order : Order) (c : ClientId) (id : MsgId)
    {params : PubMsg} (ht : params.topic.Valid) :
    s.core.PublishesTo ⟨s.isOpen, order⟩ c id params ↔
      s.core.AllReached ⟨s.isOpen, order⟩ params.topic :=
  ⟨fun hp => hp.allReached h.valid.sound ht, fun hr => hr.publishesTo h.valid.sound ht
    fun _ _ _ => h.conns.senders_injective⟩

/-! ## A publication that a live subscriber misses -/

def feed : Topic := ⟨"p", ⟨"a"⟩⟩

/-- Clients 1 and 2 subscribe; client 3 publishes; before the publication is processed client 1 is
gone, with its Deregister task still queued. -/
def closedSubscriber : List Act :=
  [.connect 0, .process .given, .connect 1, .process .given, .connect 2, .process .given,
    .receive 0 ⟨1, .sub ⟨feed⟩⟩ (by decide), .process .given,
    .receive 1 ⟨1, .sub ⟨feed⟩⟩ (by decide), .process .given,
    .receive 2 ⟨1, .pub ⟨feed, ⟨[1], false⟩⟩⟩ (by decide), .leave 0, .close 0]

/-- The iteration that comes to client 1 first. -/
def reversed : Order := ⟨List.reverse, fun _ => List.reverse_perm _⟩

/-- The publication of the run goes through when client 1 is still there. -/
theorem publishesTo_iff_open : ∃ s, Lts.run step init (closedSubscriber.take 11) = some s ∧
    (s.core.PublishesTo ⟨s.isOpen, reversed⟩ 3 1 ⟨feed, ⟨[1], false⟩⟩ ↔
      s.core.AllReached ⟨s.isOpen, reversed⟩ feed) := by
  have hrun : (Lts.run step init (closedSubscriber.take 11)).isSome := by decide +kernel
  obtain ⟨s, hs⟩ := Option.isSome_iff_exists.mp hrun
  exact ⟨s, hs, publishesTo_iff ⟨_, hs⟩ reversed 3 1 (by decide)⟩

/-- **Client 2 is connected and subscribed, and misses a publication because client 1 has left.** -/
theorem not_publishesTo_closed : ∃ s, Lts.run step init closedSubscriber = some s ∧
    ¬ killTopic.Overlaps feed ∧
    s.core.Matching 2 feed ∧ s.core.reach ⟨s.isOpen, reversed⟩ 2 = some 1 ∧
    pubsOn (s.core.pubOut ⟨s.isOpen, reversed⟩ 3 1 ⟨feed, ⟨[1], false⟩⟩) 1 = [] ∧
    ¬ s.core.PublishesTo ⟨s.isOpen, reversed⟩ 3 1 ⟨feed, ⟨[1], false⟩⟩ := by
  have hrun : (Lts.run step init closedSubscriber).map (fun s =>
      (s.core.directory.getSubscribers feed,
        decide (0 ∈ (s.core.directory.contents killTopic.segments).subscribers),
        s.core.reach ⟨s.isOpen, reversed⟩ 2,
        pubsOn (s.core.pubOut ⟨s.isOpen, reversed⟩ 3 1 ⟨feed, ⟨[1], false⟩⟩) 1)) =
      some ([2, 1], true, some 1, []) := by decide +kernel
  obtain ⟨s, hs, he⟩ := Option.map_eq_some_iff.mp hrun
  simp only [Prod.mk.injEq, decide_eq_true_eq] at he
  obtain ⟨hsubs, hzero, hreach, hpubs⟩ := he
  have hmem : ∀ d, d ∈ s.core.directory.getSubscribers feed ↔ s.core.Matching d feed :=
    fun d => Directory.mem_getSubscribers (Reachable.valid ⟨_, hs⟩).sound (by decide)
  rw [hsubs] at hmem
  have hmatch : s.core.Matching 2 feed := (hmem 2).mp (by decide)
  refine ⟨s, hs, fun ho => ?_, hmatch, hreach, hpubs, fun hp => ?_⟩
  · exact absurd ((hmem 0).mpr ⟨killTopic, hzero, ho⟩) (by decide)
  · have hlive := hp.live 2 1 hmatch hreach
    rw [hpubs] at hlive
    cases hlive

end System

end T2Bus
