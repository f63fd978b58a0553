import T2Bus.Bus.Lookups
import T2Bus.Client.Api
import T2Bus.Client.Posts
import T2Bus.Server.Replies

/-!
# Replies reach the call they belong to

A reply that a client receives has come through the channel of its stub, so the server has made it for a
message of this client; and its id leads to the call whose message this is.

* `Bus.AckedBy`, `Bus.RespondedBy`: the reply that the server has made for a message;
* `Bus.Replied`: what the callbacks of the calls have got; **`Bus.replies_reach_calls`**.
-/

namespace T2Bus

open Session (acked rsped received)

namespace Bus

/-- The Ack that the server made when it processed a message of the client. -/
def AckedBy (b : Bus) (conn : Conn) (msg : Msg ProtocolClient) (a : AckMsg) : Prop :=
  ∃ c, ∃ r ∈ b.server.log, (b.server.stubs conn).client? = some c ∧ r.task = .message c msg ∧
    acks r.exec.2.out c = [a]

/-- The response that the server made for a request of the client. -/
def RespondedBy (b : Bus) (conn : Conn) (msg : Msg ProtocolClient) (payload : RspMsg) : Prop :=
  ∃ c i j p params, ∃ r : Record, (b.server.stubs conn).client? = some c ∧
    b.server.log[i]? = some r ∧ r.task = .message c msg ∧ Serves b.server.log i j p params ∧
    payload = ⟨p.requestId, params.status, params.payload⟩

/-- What the calls of a client have got is the server's reply to their own messages. -/
structure Replied (b : Bus) (conn : Conn) : Prop where
  /-- The task of a call was sent in one message. -/
  once : ∀ x ∈ posts (b.session conn).log, ∀ y ∈ posts (b.session conn).log, ∀ n,
    x.1.call? = some n → y.1.call? = some n → x = y
  ackOnce : ∀ n, (acked (b.session conn).log n).length ≤ 1
  ackOwn : ∀ n, ∀ a ∈ acked (b.session conn).log n,
    ∃ task msg, (task, msg) ∈ posts (b.session conn).log ∧ task.call? = some n ∧ b.AckedBy conn msg a
  /-- The client receives the Ack of a request before the response. -/
  ackFirst : ∀ params msg, (.req params, msg) ∈ posts (b.session conn).log →
    ∀ l₁ m l₂ payload, received (b.session conn).log = l₁ ++ m :: l₂ → m.content = .rsp payload →
      payload.reqId = msg.id → ∃ m' ∈ l₁, ∃ a, m'.content = .ack a ∧ a.msgId = msg.id ∧
        a.err = none ∧ b.AckedBy conn msg a
  rspOwn : ∀ n, ∀ payload ∈ rsped (b.session conn).log n,
    ∃ params msg, (.req params, msg) ∈ posts (b.session conn).log ∧ params.callbackRsp = n ∧
      b.RespondedBy conn msg payload
  /-- The `unwrap` of a publication succeeds. -/
  counted : ∀ params msg, (.pub params, msg) ∈ posts (b.session conn).log →
    ∀ a ∈ acked (b.session conn).log params.callbackAck,
      (a.err = none → a.numRecipients.isSome) ∧ publishBytes (.value a) ≠ .error .panic

variable {b : Bus} {conn : Conn} {c : ClientId}

/-- What a client has received is the first part of what went into its channel. -/
theorem Reachable.received_prefix (h : Reachable b) (conn : Conn) :
    received (b.session conn).log <+: outOn b.server.log conn :=
  (h.fifo.down conn).trans (List.take_prefix _ _)

/-- A message that the server has processed is the one that was sent with its id. -/
theorem Reachable.sent_of_processed (h : Reachable b) (hreg : registrations b.server.log < 2 ^ 32)
    (hlen : (b.session conn).sent.length < 2 ^ 32) (hc : (b.server.stubs conn).client? = some c)
    {r : Record} (hr : r ∈ b.server.log) {msg msg' : Msg ProtocolClient} (ht : r.task = .message c msg)
    (hsent : msg' ∈ (b.session conn).sent) (hid : msg.id = msg'.id) : msg = msg' := by
  have hmem : msg ∈ (b.session conn).sent :=
    (h.messagesOf_prefix hreg hc).subset (mem_messagesOf.mpr ⟨r, hr, ht⟩)
  exact List.inj_on_of_nodup_map ((h.session conn).nodup_ids hlen) hmem hsent hid

/-- **An Ack that is received** for a message that was sent is the one that the server made for it. -/
theorem Reachable.ackedBy_of_received (h : Reachable b) (hreg : registrations b.server.log < 2 ^ 32)
    (hlen : (b.session conn).sent.length < 2 ^ 32) {m : Msg ProtocolServer} {a : AckMsg}
    (hm : m ∈ received (b.session conn).log) (ha : m.content = .ack a) {msg : Msg ProtocolClient}
    (hsent : msg ∈ (b.session conn).sent) (hid : a.msgId = msg.id) : b.AckedBy conn msg a := by
  obtain ⟨c, msg', r, hr, hc, ht, hmsg, hack⟩ :=
    h.server.ack_of_outOn ((h.received_prefix conn).subset hm) ha
  have heq : msg' = msg := h.sent_of_processed hreg hlen hc hr ht hsent (hmsg.symm.trans hid)
  exact ⟨c, r, hr, hc, heq ▸ ht, hack⟩

/-- **A response that is received** for a message that was sent is the one that the server made for it. -/
theorem Reachable.respondedBy_of_received (h : Reachable b)
    (hreg : registrations b.server.log < 2 ^ 32) (hlen : (b.session conn).sent.length < 2 ^ 32)
    {m : Msg ProtocolServer} {payload : RspMsg} (hm : m ∈ received (b.session conn).log)
    (hp : m.content = .rsp payload) {msg : Msg ProtocolClient} (hsent : msg ∈ (b.session conn).sent)
    (hid : payload.reqId = msg.id) : b.RespondedBy conn msg payload := by
  obtain ⟨c, i, j, p, params, req, r, hc, hi, ht, hs, hpayload⟩ :=
    h.server.rsp_of_outOn ((h.received_prefix conn).subset hm) hp
  have heq := h.sent_of_processed hreg hlen hc (List.mem_of_getElem? hi) ht hsent hid
  exact ⟨c, i, j, p, params, r, hc, hi, heq ▸ ht, hs, hpayload⟩

/-- An Ack in the callback of a call is the one that the server made for the message of the call. -/
theorem Reachable.ack_of_call (h : Reachable b) (hreg : registrations b.server.log < 2 ^ 32)
    (hlen : (b.session conn).sent.length < 2 ^ 32) {n : Callback} {a : AckMsg}
    (ha : a ∈ acked (b.session conn).log n) : ∃ task msg, (task, msg) ∈ posts (b.session conn).log ∧
      task.call? = some n ∧ b.AckedBy conn msg a := by
  obtain ⟨⟨task, msg⟩, hx, hcall, hid⟩ := (h.session conn).acked_posted ha
  obtain ⟨m, hm, hcontent⟩ := Session.mem_received_of_acked ha
  exact ⟨task, msg, hx, hcall,
    h.ackedBy_of_received hreg hlen hm hcontent ((h.session conn).posted.sent _ hx) hid.symm⟩

/-- **Acknowledgements and responses reach the call they belong to.** -/
theorem replies_reach_calls (h : Reachable b) (hreg : registrations b.server.log < 2 ^ 32)
    (hlen : (b.session conn).sent.length < 2 ^ 32) : b.Replied conn := by
  have hposted := (h.session conn).posted
  refine ⟨hposted.once, (h.session conn).acks_once, fun n a => h.ack_of_call hreg hlen,
    fun params msg hx l₁ m l₂ payload hlog hm hid => ?_, fun n payload hp => ?_,
    fun params msg hx a ha => ?_⟩
  · -- the Ack is ahead of the response in the channel
    obtain ⟨later, hlater⟩ := h.received_prefix conn
    have hout : outOn b.server.log conn = l₁ ++ m :: (l₂ ++ later) := by
      rw [← hlater, hlog, List.append_assoc]
      rfl
    obtain ⟨m', hm', a, hack, hack_id, herr⟩ := h.server.ack_before_rsp hreg hout hm
    have hreceived : m' ∈ received (b.session conn).log := by
      rw [hlog]
      exact List.mem_append_left _ hm'
    have hmsg : a.msgId = msg.id := hack_id.trans hid
    exact ⟨m', hm', a, hack, hmsg, herr,
      h.ackedBy_of_received hreg hlen hreceived hack (hposted.sent _ hx) hmsg⟩
  · obtain ⟨⟨task, msg⟩, hx, hcall, hid⟩ := (h.session conn).rsped_posted hp
    obtain ⟨m, hm, hcontent⟩ := Session.mem_received_of_rsped hp
    cases task with
    | req params =>
      exact ⟨params, msg, hx, Option.some.inj hcall,
        h.respondedBy_of_received hreg hlen hm hcontent (hposted.sent _ hx) hid.symm⟩
    | _ => cases hcall
  · have hcount : a.err = none → a.numRecipients.isSome := by
      intro herr
      obtain ⟨task, msg', hx', hcall, c, r, -, -, ht, hack⟩ := h.ack_of_call hreg hlen ha
      -- the Ack is that of the publication
      cases hposted.once _ hx _ hx' params.callbackAck rfl hcall
      have hcontent : ProtocolClient.pub params.msg = msg.content :=
        Option.some.inj (hposted.content _ hx)
      have ht : r.task = .message c ⟨msg.id, .pub params.msg⟩ := by
        rw [ht, hcontent]
      exact Record.count_of_pub ht hack herr
    refine ⟨hcount, fun hpanic => ?_⟩
    obtain ⟨ack, heq, herr, hnone⟩ := publishBytes_panic.mp hpanic
    cases heq
    rw [hnone] at hcount
    cases hcount herr

/-! ## A request and a publication -/

/-- Client 2 gets the response to its request, and publishes. -/
def replying : List Act :=
  responding.dropLast ++ gets 1 ++ [.client 1 (.publish ⟨Session.served, ⟨[3], false⟩⟩
    Session.served_valid)] ++
  sends 1 (.pub ⟨⟨Session.served, ⟨[3], false⟩⟩, 1⟩) ++ gets 1

/-- The request has its Ack and its response, the publication its Ack with a count. -/
theorem replies_reach_calls_replying : ∃ b, Lts.run step init replying = some b ∧ b.Replied 1 ∧
    acked (b.session 1).log 0 = [⟨1, none, none⟩] ∧
    rsped (b.session 1).log 0 = [⟨1, .ok, ⟨[2], false⟩⟩] ∧
    acked (b.session 1).log 1 = [⟨2, none, some 0⟩] := by
  have hrun : (Lts.run step init replying).map (fun b => (registrations b.server.log,
      (b.session 1).sent.length, acked (b.session 1).log 0, rsped (b.session 1).log 0,
      acked (b.session 1).log 1)) =
      some (2, 2, [⟨1, none, none⟩], [⟨1, .ok, ⟨[2], false⟩⟩], [⟨2, none, some 0⟩]) := by
    decide +kernel
  obtain ⟨b, hb, he⟩ := Option.map_eq_some_iff.mp hrun
  obtain ⟨hreg, hlen, hack, hrsp, hpub⟩ := by simpa only [Prod.mk.injEq] using he
  exact ⟨b, hb, replies_reach_calls ⟨_, hb⟩ (by omega) (by omega), hack, hrsp, hpub⟩

end Bus

end T2Bus
