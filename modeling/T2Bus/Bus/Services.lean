import T2Bus.Bus.Publications
import T2Bus.Bus.Requests
import T2Bus.Client.Services

/-!
# No request is lost

When nothing is on the way between the server and a client that serves a topic, the callback of the
service has got every request on the topic from its Srv on, under the id that the server holds it with.

* `Bus.Rests.sentBy_eq`: the messages behind a message, at the client and at the server;
* `Bus.Attended`; **`Bus.service_complete`**.
-/

namespace T2Bus

open Session (acked received sentBy)

namespace Bus

variable {b : Bus} {conn : Conn} {c : ClientId}

/-- The messages that the client has sent behind a message of its own are those that the server has
processed behind it. -/
theorem Rests.sentBy_eq (hr : b.Rests conn c) (h : Reachable b)
    (hreg : registrations b.server.log < 2 ^ 32) (hlen : (b.session conn).sent.length < 2 ^ 32)
    {la lb : List Turn} {r : Turn} (hla : (b.session conn).log = la ++ r :: lb)
    {x : ClientTask × Msg ProtocolClient} (hx : x ∈ r.posts) {l₁ l₂ : List Record} {r₀ : Record}
    (hlog : b.server.log = l₁ ++ r₀ :: l₂) (ht : r₀.task = .message c x.2) :
    sentBy lb = messagesOf c l₂ := by
  have hsent : sentBy [r] = [x.2] := by
    rcases r.posts_cases with hnil | ⟨task, msg, -, hpost, hsent, -⟩
    · rw [hnil] at hx
      cases hx
    · rw [hpost] at hx
      cases List.mem_singleton.mp hx
      exact (List.flatMap_singleton _ _).trans hsent
  have hclient : (b.session conn).sent = sentBy la ++ x.2 :: sentBy lb := by
    rw [(h.session conn).sent_eq, hla, List.append_cons, Session.sentBy_append, Session.sentBy_append,
      hsent, List.append_assoc]
    rfl
  have hserver : messagesOf c b.server.log = messagesOf c l₁ ++ x.2 :: messagesOf c l₂ := by
    have hfrom : r₀.task.from? c = some x.2 := from?_eq_some.mpr ht
    rw [hlog, List.append_cons, messagesOf, List.filterMap_append, ← messagesOf, ← messagesOf,
      messagesOf_concat, hfrom, Option.toList_some, List.append_assoc]
    rfl
  -- no message was sent twice, so it splits the list in one place
  have hnodup : (b.session conn).sent.Nodup := ((h.session conn).nodup_ids hlen).of_map
  have heq := hr.messagesOf_eq h hreg
  rw [hserver, hclient] at heq
  rw [hclient, List.nodup_middle, List.nodup_cons, List.mem_append, not_or] at hnodup
  exact ((List.append_cons_inj_of_notMem hnodup.1.1 hnodup.1.2).mp heq.symm).2.2

/-- What the callback of a service has got: of the requests on its topic, some last ones of those before
the Srv, and all behind it that the tasks have for the client. The server waits for the client to respond
to each of them. If the Srv was granted, these are all requests on the topic. -/
structure Attended (b : Bus) (conn : Conn) (c : ClientId) (params : TaskSrv) (before after : List Record) :
    Prop where
  got : ∃ early, early <:+ reqsOn params.msg.topic (reqsFor c before) ∧
    ((b.session conn).log.flatMap fun r => r.reqsTo params.callbackReq) =
      early ++ reqsOn params.msg.topic (reqsFor c after)
  accepted : ∀ r ∈ after, ∀ x, r.reqFor c = some x →
    x.1 = r.core.nextMsgId ∧ ∃ p, r.accepts = some p ∧ p.responderId = c
  all : (∃ a ∈ acked (b.session conn).log params.callbackAck, a.err = none) →
    reqsOn params.msg.topic (reqsFor c after) = reqsOn params.msg.topic (after.filterMap Record.asks?)

/-- A Srv whose call has got an Ack without error was granted. -/
theorem Rests.grants (hr : b.Rests conn c) (h : Reachable b)
    (hreg : registrations b.server.log < 2 ^ 32) (hlen : (b.session conn).sent.length < 2 ^ 32)
    {params : TaskSrv} {msg : Msg ProtocolClient} (hx : (.srv params, msg) ∈ posts (b.session conn).log)
    {a : AckMsg} (ha : a ∈ acked (b.session conn).log params.callbackAck) (herr : a.err = none)
    {r₀ : Record} (hr₀ : r₀ ∈ b.server.log) (ht : r₀.task = .message c msg) :
    r₀.Grants c params.msg.topic := by
  obtain ⟨a', hacked, c', r, hr', hc', ht', hack⟩ :=
    hr.acked_of_post h hreg hlen hx (n := params.callbackAck) rfl
  have hc : (b.server.stubs conn).client? = some c := by rw [hr.serving]; rfl
  cases hc.symm.trans hc'
  cases h.processed_once hreg hlen hc hr₀ hr' ht ht'
  rw [hacked] at ha
  cases List.mem_singleton.mp ha
  obtain ⟨id, content⟩ := msg
  have hcontent : content = .srv params.msg :=
    (Option.some.inj ((h.session conn).posted.content _ hx)).symm
  exact ⟨id, by rw [ht, hcontent], a, hack, herr⟩

/-- **A service misses no request**: when nothing is on the way and the client has sent no Unsrv behind
the Srv, its callback has got every request on the topic that the server has processed behind the Srv. -/
theorem service_complete (h : Reachable b) (hreg : registrations b.server.log < 2 ^ 32)
    (hlen : (b.session conn).sent.length < 2 ^ 32) (hr : b.Rests conn c) {params : TaskSrv}
    {msg : Msg ProtocolClient} (hx : (.srv params, msg) ∈ posts (b.session conn).log) : ∃ l₁ r₀ l₂,
      b.server.log = l₁ ++ r₀ :: l₂ ∧ r₀.task = .message c msg ∧
        ((∀ m ∈ messagesOf c l₂, m.content ≠ .unsrv ⟨params.msg.topic⟩) →
          b.Attended conn c params (l₁ ++ [r₀]) l₂) := by
  have hposted := (h.session conn).posted
  obtain ⟨r₀, hr₀, ht⟩ := mem_messagesOf.mp (hr.messagesOf_eq h hreg ▸ hposted.sent _ hx)
  obtain ⟨l₁, l₂, hlog⟩ := List.append_of_mem hr₀
  have hsplit : b.server.log = (l₁ ++ [r₀]) ++ l₂ := by
    rw [hlog, List.append_cons]
  have hbefore : l₁ ++ [r₀] ⊆ b.server.log := hsplit ▸ List.subset_append_left _ _
  have hafter : l₂ ⊆ b.server.log := hsplit ▸ List.subset_append_right _ _
  refine ⟨l₁, r₀, l₂, hlog, ht, fun hno => ⟨?_, fun r hr' => ?_, fun ⟨a, ha, herr⟩ => ?_⟩⟩
  · obtain ⟨r, hr', hx'⟩ := List.mem_flatMap.mp hx
    obtain ⟨la, lb, hla⟩ := List.append_of_mem hr'
    have hsent := hr.sentBy_eq h hreg hlen hla hx' hlog ht
    rw [(h.session conn).reqs_of_call hr.session hlen hla hx' (hsent ▸ hno),
      hr.received_behind h hreg hlen hla hx' hlog ht, List.filterMap_append, reqsOn_append,
      h.server.reqs_outOn hr.server hreg hr.serving hafter]
    refine ⟨_, ?_, rfl⟩
    rw [← h.server.reqs_outOn hr.server hreg hr.serving hbefore]
    exact ((List.drop_suffix _ _).filterMap _).filter _
  · exact (h.server.passes hr.server hreg hr.serving (hafter hr')).accepted
  · exact h.server.reqsFor_eq hr.server hreg hr.serving hlog
      (hr.grants h hreg hlen hx ha herr hr₀ ht) hno

/-- A service that has got a request. -/
theorem service_complete_requesting : ∃ b, Lts.run step init requesting = some b ∧
    ((b.session 0).log.flatMap fun r => r.reqsTo 0) = [(1, ⟨Session.served, ⟨[1], false⟩⟩)] ∧
    ∃ l₁ r₀ l₂, b.server.log = l₁ ++ r₀ :: l₂ ∧ r₀.task = .message 1 ⟨1, .srv ⟨Session.served⟩⟩ ∧
      ((∀ m ∈ messagesOf 1 l₂, m.content ≠ .unsrv ⟨Session.served⟩) →
        b.Attended 0 1 ⟨⟨Session.served⟩, 0, 0⟩ (l₁ ++ [r₀]) l₂) := by
  have hrun : (Lts.run step init requesting).map (fun b => ([registrations b.server.log,
      (b.session 0).sent.length, (b.up 0).length, (queuedOf 1 b.server.tasks).length,
      (b.channel 0).length, (b.down 0).length],
      b.server.status, b.server.stubs 0, (b.session 0).status)) =
      some ([2, 1, 0, 0, 0, 0], .running, .serving 1, .running) := by decide +kernel
  have hgot : (Lts.run step init requesting).map (fun b =>
      ((posts (b.session 0).log).head?, (b.session 0).log.flatMap fun r => r.reqsTo 0)) =
      some (some (.srv ⟨⟨Session.served⟩, 0, 0⟩, ⟨1, .srv ⟨Session.served⟩⟩),
        [(1, ⟨Session.served, ⟨[1], false⟩⟩)]) := by
    decide +kernel
  obtain ⟨b, hb, he⟩ := Option.map_eq_some_iff.mp hrun
  obtain ⟨⟨hreg, hlen, hup, hqueue, hchannel, hdown, -⟩, hserver, hserving, hsession⟩ := by
    simpa only [Prod.mk.injEq, List.cons.injEq, List.length_eq_zero_iff] using he
  rw [hb] at hgot
  obtain ⟨hpost, hreqs⟩ := Prod.mk.inj (Option.some.inj hgot)
  exact ⟨b, hb, hreqs, service_complete ⟨_, hb⟩ (by omega) (by omega)
    ⟨⟨hserver, hserving, hsession, hup, hqueue⟩, hchannel, hdown⟩ (List.mem_of_mem_head? hpost)⟩

end Bus

end T2Bus
