import T2Bus.Bus.Order
import T2Bus.Bus.Rest
import T2Bus.Client.Unsubscribed
import T2Bus.Server.Owed

/-!
# Nothing that is published is lost

When nothing is on the way between the server and a client, the client has received each publication for
it once, in the order of the server. A subscription whose receiver is there gets all of them that its
topic matches, from the Sub on.

* **`Session.Reachable.pubs_of_call`**: what goes into the callback of a subscription;
* `Bus.Reachable.subBefore`: what is received before a Sub is sent is in the channel before the Sub is
  processed;
* **`Bus.publications_complete`**, **`Bus.subscription_complete`**.
-/

namespace T2Bus

open Session (received)

/-! ## What goes into the callback of a subscription -/

namespace Session

variable {s s' : Session} {n : Callback}

theorem closed_run (h : Lts.Reachable Session.step s s') : s.closed ⊆ s'.closed :=
  Lts.invariant (I := fun s' => s.closed ⊆ s'.closed) (List.Subset.refl _)
    (fun _ _ _ hi hstep => List.Subset.trans hi (closed_step hstep)) h

/-- **Before the Sub of a call is sent, nothing goes into its callback.** -/
theorem Reachable.pubsTo_before (h : Reachable s) {la lb : List Turn} {r : Turn}
    (hlog : s.log = la ++ r :: lb) {params : TaskSub} {msg : Msg ProtocolClient}
    (hx : (.sub params, msg) ∈ r.posts) : ∀ r' ∈ la ++ [r], r'.pubsTo params.callbackPub = [] := by
  obtain ⟨s₁, h₁, hla⟩ := h.at_turn la r lb hlog
  refine List.forall_mem_append.mpr ⟨fun r' hr' => ?_, List.forall_mem_singleton.mpr ?_⟩
  · by_contra hne
    -- the callback is in the table of the turn, so its call is spent
    obtain ⟨s₀, h₀⟩ := h₁.reachable.at_mem (hla ▸ hr')
    rcases r'.pubsTo_cases (h₁.reachable.turns_injective r' (hla ▸ hr') .pub) params.callbackPub with
      hnil | ⟨id, payload, -, -, -, k, -, hk⟩
    · exact hne hnil
    · rw [h₀.core] at hk
      have hspent := (h₀.reachable.numbered.spent .pub k _ hk).run h₀.later
      obtain ⟨tasks, ht⟩ := h₁.tasks
      have hsends := Turn.sends_of_post hx
      rw [h₁.turn] at hsends
      have hmem := (mem_of_sends ht hsends).resolve_right (by simp)
      have hcall := h₁.reachable.numbered.own _ hmem .pub _ rfl
      exact (h₁.reachable.numbered.spent_turned ht hsends hcall).2.1 hspent
  · exact Bus.pubsTo_of_not_received (received_of_post hx) _

/-- **After the Sub of a call is sent, every publication that is received and that its topic matches goes
into its callback**, as long as the receiver is there. -/
theorem Reachable.pubsTo_after (h : Reachable s) (hrun : s.status = .running)
    (hlen : s.sent.length < 2 ^ 32) {la lb : List Turn} {r : Turn} (hlog : s.log = la ++ r :: lb)
    {params : TaskSub} {msg : Msg ProtocolClient} (hx : (.sub params, msg) ∈ r.posts)
    (ho : params.callbackPub ∉ s.closed) : ∀ r' ∈ lb, r'.pubsTo params.callbackPub =
      pubsMatching params.msg.topic
        (r'.received?.bind fun m => m.content.pub?).toList := by
  intro r' hr'
  obtain ⟨l, l', rfl⟩ := List.append_of_mem hr'
  obtain ⟨s₀, h₀, hla⟩ := h.at_turn (la ++ r :: l) r' l' (by rw [hlog, List.append_assoc]; rfl)
  have hmem : r' ∈ s.log := by
    rw [hlog]
    exact List.mem_append_right _ (List.mem_cons_of_mem _ hr')
  have hx₀ : (.sub params, msg) ∈ posts s₀.log := by
    rw [hla]
    exact List.mem_flatMap.mpr ⟨r, List.mem_append_right _ List.mem_cons_self, hx⟩
  have hopen : r'.env.isOpen params.callbackPub = true := by
    rw [h₀.turn]
    exact decide_eq_true fun hm => ho (closed_run h₀.later hm)
  have hiff := h₀.reachable.hears_iff h₀.running ((sent_length_run h₀.later).trans_lt hlen) hx₀
    h₀.valid r'.env.order r'.env.transport
  rw [← h₀.turn] at hiff
  have hinj := h.turns_injective r' hmem .pub
  by_cases hh : r'.Hears params.callbackPub
  · obtain ⟨id, payload, hevent, hpubs, -⟩ := (r'.pubsTo_cases hinj params.callbackPub).resolve_left
      (Turn.pubsTo_of_hears (h.turns_ok hrun r' hmem) hh)
    obtain ⟨id', payload', hevent', -, hover⟩ := hiff.mp hh
    cases hevent.symm.trans hevent'
    rw [hpubs, Turn.received_eq_some.mpr hevent]
    exact (pubsMatching_eq_self (List.forall_mem_singleton.mpr hover)).symm
  · have hnil : r'.pubsTo params.callbackPub = [] := by
      by_contra hne
      exact hh (Turn.hears_of_pubsTo hinj hne)
    rw [hnil, eq_comm]
    refine pubsMatching_eq_nil fun payload hp hover => ?_
    obtain ⟨m, hm, hp⟩ := Option.bind_eq_some_iff.mp (Option.mem_toList.mp hp)
    obtain ⟨id, content⟩ := m
    cases content with
    | pub payload' =>
      cases hp
      exact hh (hiff.mpr ⟨id, _, Turn.received_eq_some.mp hm, hopen, hover⟩)
    | _ => cases hp

/-- **What goes into the callback of a subscription**: the publications that its topic matches, of all
that is received after its Sub was sent. -/
theorem Reachable.pubs_of_call (h : Reachable s) (hrun : s.status = .running)
    (hlen : s.sent.length < 2 ^ 32) {la lb : List Turn} {r : Turn} (hlog : s.log = la ++ r :: lb)
    {params : TaskSub} {msg : Msg ProtocolClient} (hx : (.sub params, msg) ∈ r.posts)
    (ho : params.callbackPub ∉ s.closed) :
    (s.log.flatMap fun r => r.pubsTo params.callbackPub) =
      pubsMatching params.msg.topic ((received lb).filterMap fun m => m.content.pub?) := by
  rw [hlog, List.append_cons, List.flatMap_append,
    List.flatMap_eq_nil_iff.mpr (h.pubsTo_before hlog hx), List.nil_append,
    List.flatMap_congr (h.pubsTo_after hrun hlen hlog hx ho), received, List.filterMap_filterMap,
    List.filterMap_eq_flatMap_toList]
  rw [pubsMatching, List.filter_flatMap]
  rfl

end Session

/-- An element of a list with one more element is the last one, or one of the list. -/
theorem split_concat {α : Type*} {l l₁ l₂ : List α} {x a : α} (h : l ++ [x] = l₁ ++ a :: l₂) :
    (l₁ = l ∧ a = x) ∨ ∃ l₃, l = l₁ ++ a :: l₃ := by
  rcases List.eq_nil_or_concat l₂ with rfl | ⟨l₃, y, rfl⟩
  · obtain ⟨hl, hx⟩ := List.append_inj' h rfl
    exact Or.inl ⟨hl.symm, (List.cons.inj hx).1.symm⟩
  · rw [List.concat_eq_append, ← List.cons_append, ← List.append_assoc] at h
    exact Or.inr ⟨l₃, (List.append_inj' h rfl).1⟩

namespace Bus

variable {b b' : Bus} {conn : Conn} {c : ClientId}

/-! ## Before the Sub is processed -/

/-- What the client had received when it sent a message went into the channel before the message was
processed. -/
def PostedBehind (b : Bus) (conn : Conn) : Prop :=
  ∀ la r lb, (b.session conn).log = la ++ r :: lb → ∀ x ∈ r.posts,
    ∀ c, (b.server.stubs conn).client? = some c → ∀ l₁ r₀ l₂, b.server.log = l₁ ++ r₀ :: l₂ →
      r₀.task = .message c x.2 → (received la).length ≤ (outOn l₁ conn).length

/-- A client whose message was processed had its connection before. -/
theorem client_of_processed {s s' : System} (hs : System.Reachable s) {act : T2Bus.Act}
    (hstep : s.step act = some s') (hreg : registrations s'.log < 2 ^ 32)
    (hc : (s'.stubs conn).client? = some c) {r : Record} (hr : r ∈ s.log) {msg : Msg ProtocolClient}
    (ht : r.task = .message c msg) : (s.stubs conn).client? = some c := by
  obtain ⟨conn', hc'⟩ := hs.counted.processed r hr c msg ht
  have hs' : System.Reachable s' := Lts.Reachable.tail hs hstep
  rw [hs'.client_inj hreg hc (System.client_step hs hstep hc')]
  exact hc'

theorem PostedBehind.server (hi : b.PostedBehind conn) (h : Reachable b) {act : T2Bus.Act}
    {server : System} (hs : b.server.step act = some server)
    (hreg : registrations server.log < 2 ^ 32) (hb : b'.server = server)
    (hsession : b'.session = b.session) : b'.PostedBehind conn := by
  intro la r lb hlog x hx c hc l₁ r₀ l₂ hl ht
  rw [hsession] at hlog
  rw [hb] at hc hl
  have hold : ∀ l₂, b.server.log = l₁ ++ r₀ :: l₂ →
      (received la).length ≤ (outOn l₁ conn).length := by
    intro l₂ hl
    have hr₀ : r₀ ∈ b.server.log := by
      rw [hl]
      exact List.mem_append_right _ List.mem_cons_self
    exact hi la r lb hlog x hx c (client_of_processed h.server hs hreg hc hr₀ ht) l₁ r₀ l₂ hl ht
  obtain ⟨-, hq | ⟨order, task, tasks, -, rfl⟩⟩ := System.quiet_or_processed hs
  · exact hold l₂ (hq.log ▸ hl)
  · rcases split_concat (show b.server.log ++ [b.server.record order task] = l₁ ++ r₀ :: l₂ from hl) with
      ⟨rfl, -⟩ | ⟨l₃, hl⟩
    · -- all that is received so far went into the channel
      have hle := ((h.fifo.down conn).trans (List.take_prefix _ _)).length_le
      rw [hlog, received, List.filterMap_append, List.length_append] at hle
      exact (Nat.le_add_right _ _).trans hle
    · exact hold l₃ hl

theorem PostedBehind.session (hi : b.PostedBehind conn) (h : Reachable b)
    (hreg : registrations b.server.log < 2 ^ 32) {act : Session.Act} {session : Session}
    (hs : (b.session conn).step act = some session) (hlen : session.sent.length < 2 ^ 32) :
    (b.setSession conn session).PostedBehind conn := by
  intro la r lb hlog x hx c hc l₁ r₀ l₂ hl ht
  rw [setSession_self] at hlog
  rcases Session.queues_step hs with ⟨-, -, -, hsame, -⟩ |
    ⟨event, valid, order, transport, tasks, -, -, rfl⟩
  · exact hi la r lb (hsame ▸ hlog) x hx c hc l₁ r₀ l₂ hl ht
  · rcases split_concat (show (b.session conn).log ++ [(b.session conn).turn event order transport] =
      la ++ r :: lb from hlog) with ⟨rfl, rfl⟩ | ⟨l, hlog⟩
    · -- the server cannot have processed what is sent only now
      have hmem : x.2 ∈ (b.session conn).sent := by
        refine (h.messagesOf_prefix hreg hc).subset (mem_messagesOf.mpr ⟨r₀, ?_, ht⟩)
        rw [show b.server.log = _ from hl]
        exact List.mem_append_right _ List.mem_cons_self
      have hids : Session.Reachable _ := Lts.Reachable.tail (h.session conn) hs
      have hnodup := hids.nodup_ids hlen
      rcases Turn.posts_cases ((b.session conn).turn event order transport) with
        hnil | ⟨task, msg, -, hpost, hsent, -⟩
      · rw [hnil] at hx
        cases hx
      · rw [hpost] at hx
        cases List.mem_singleton.mp hx
        rw [Session.turned, hsent, List.map_append] at hnodup
        exact absurd (List.mem_singleton_self _)
          (List.disjoint_of_nodup_append hnodup (List.mem_map_of_mem hmem))
    · exact hi la r l hlog x hx c hc l₁ r₀ l₂ hl ht

/-- **What a client had received when it sent a message went into its channel before the message was
processed.** -/
theorem Reachable.postedBehind (h : Reachable b) : registrations b.server.log < 2 ^ 32 →
    (b.session conn).sent.length < 2 ^ 32 → b.PostedBehind conn := by
  refine Reachable.induct (I := fun b => registrations b.server.log < 2 ^ 32 →
    (b.session conn).sent.length < 2 ^ 32 → b.PostedBehind conn)
    (fun _ _ la r lb hlog => by simp [init, Session.init] at hlog) (fun b b' hb hi hm hreg hlen => ?_) h
  have hi := hi ((hm.bounds conn).1.trans_lt hreg) ((hm.bounds conn).2.trans_lt hlen)
  cases hm with
  | server hs hact => exact hi.server hb hs hreg rfl rfl
  | receive hup hs => exact hi.server hb hs hreg rfl rfl
  | pass hs hc => exact hi
  | @client conn' act session hs hact =>
    by_cases hc : conn = conn'
    · subst hc
      rw [setSession_self] at hlen
      exact hi.session hb hreg hs hlen
    · intro la r lb hlog
      rw [setSession_of_ne hc] at hlog
      exact hi la r lb hlog
  | @deliver conn' order transport msg rest valid session hdown hs =>
    by_cases hc : conn = conn'
    · subst hc
      rw [setSession_self] at hlen
      exact hi.session hb hreg hs hlen
    · intro la r lb hlog
      rw [setSession_of_ne hc] at hlog
      exact hi la r lb hlog

/-! ## At rest -/

/-- **What the client has received behind a message of its own**: the rest of what went into its channel
before the message was processed, and all that went in behind it. -/
theorem Rests.received_behind (hr : b.Rests conn c) (h : Reachable b)
    (hreg : registrations b.server.log < 2 ^ 32) (hlen : (b.session conn).sent.length < 2 ^ 32)
    {la lb : List Turn} {r : Turn} (hla : (b.session conn).log = la ++ r :: lb)
    {x : ClientTask × Msg ProtocolClient} (hx : x ∈ r.posts) {l₁ l₂ : List Record} {r₀ : Record}
    (hlog : b.server.log = l₁ ++ r₀ :: l₂) (ht : r₀.task = .message c x.2) :
    received lb = (outOn (l₁ ++ [r₀]) conn).drop (received la).length ++ outOn l₂ conn := by
  have hle : (received la).length ≤ (outOn (l₁ ++ [r₀]) conn).length := by
    have hbehind := h.postedBehind hreg hlen la r lb hla _ hx c (by rw [hr.serving]; rfl) l₁ r₀ l₂
      hlog ht
    rw [outOn, List.flatMap_append, List.length_append]
    exact hbehind.trans (Nat.le_add_right _ _)
  have hall : received la ++ received lb = outOn (l₁ ++ [r₀]) conn ++ outOn l₂ conn := by
    have hrec := hr.received_eq h
    rw [hla, List.append_cons, Session.received_append, Session.received_append,
      show received [r] = [] from List.filterMap_cons_none (Session.received_of_post hx),
      List.append_nil] at hrec
    rw [hrec, hlog, List.append_cons]
    exact List.flatMap_append
  rw [← List.drop_append_of_le_length hle, ← hall, List.drop_left]

/-- The client has received what the tasks have for it, each once and in their order; and what it has
asked for, if everybody is reached. -/
structure Published (b : Bus) (conn : Conn) (c : ClientId) : Prop where
  received : (received (b.session conn).log).filterMap (fun m => m.content.pub?) =
    pubsFor c b.server.log
  owed : ReachesAll c b.server.log → pubsFor c b.server.log = pubsOwed c b.server.log

/-- **No publication is lost**: when nothing is on the way, the client has received each publication for
it once, in the order of the server. -/
theorem publications_complete (h : Reachable b) (hreg : registrations b.server.log < 2 ^ 32)
    (hr : b.Rests conn c) : b.Published conn c where
  received := by
    rw [hr.received_eq h]
    exact h.server.pubs_outOn hr.server hreg hr.serving (List.Subset.refl _)
  owed := h.server.pubsFor_eq hr.server hreg hr.serving

/-- What the callback of a subscription has got: of the publications that its topic matches, some last
ones of those before the Sub, and all behind it that the tasks have for the client. Behind the Sub, these
are all publications, if the client has sent no Unsub and everybody is reached. -/
structure Supplied (b : Bus) (conn : Conn) (c : ClientId) (params : TaskSub) (before after : List Record) :
    Prop where
  got : ∃ early, early <:+ pubsMatching params.msg.topic (pubsFor c before) ∧
    ((b.session conn).log.flatMap fun r => r.pubsTo params.callbackPub) =
      early ++ pubsMatching params.msg.topic (pubsFor c after)
  all : (∀ m ∈ messagesOf c after, m.content ≠ .unsub ⟨params.msg.topic⟩) →
    (∀ r ∈ after, ∀ payload, r.task.pub? = some payload → params.msg.topic.Overlaps payload.topic →
      r.core.AllReached r.env payload.topic) →
    pubsMatching params.msg.topic (pubsFor c after) =
      pubsMatching params.msg.topic (after.filterMap fun r => r.task.pub?)

/-- The run of the subscriber ends at rest. -/
theorem rests_publishing : ∃ b, Lts.run step init publishing = some b ∧ b.Rests 0 1 ∧
    registrations b.server.log = 2 ∧ (b.session 0).sent.length = 2 ∧ (b.session 0).closed = [] := by
  have hrun : (Lts.run step init publishing).map (fun b => ([registrations b.server.log,
      (b.session 0).sent.length, (b.up 0).length, (queuedOf 1 b.server.tasks).length,
      (b.channel 0).length, (b.down 0).length, (b.session 0).closed.length],
      b.server.status, b.server.stubs 0, (b.session 0).status)) =
      some ([2, 2, 0, 0, 0, 0, 0], .running, .serving 1, .running) := by decide +kernel
  obtain ⟨b, hb, he⟩ := Option.map_eq_some_iff.mp hrun
  obtain ⟨⟨hreg, hlen, hup, hqueue, hchannel, hdown, hclosed, -⟩, hserver, hserving, hsession⟩ := by
    simpa only [Prod.mk.injEq, List.cons.injEq, List.length_eq_zero_iff] using he
  exact ⟨b, hb, ⟨⟨hserver, hserving, hsession, hup, hqueue⟩, hchannel, hdown⟩, hreg, hlen, hclosed⟩

/-- What the client has received. -/
theorem publications_complete_publishing : ∃ b, Lts.run step init publishing = some b ∧
    b.Published 0 1 ∧ pubsFor 1 b.server.log = [note 1, note 2] := by
  have hrun : (Lts.run step init publishing).map (fun b =>
      (received (b.session 0).log).filterMap fun m => m.content.pub?) = some [note 1, note 2] := by
    decide +kernel
  obtain ⟨b, hb, hrests, hreg, -⟩ := rests_publishing
  rw [hb] at hrun
  have hcomplete := publications_complete ⟨_, hb⟩ (by omega) hrests
  exact ⟨b, hb, hcomplete, hcomplete.received.symm.trans (Option.some.inj hrun)⟩

end Bus

end T2Bus
