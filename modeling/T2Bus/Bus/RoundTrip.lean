import T2Bus.Bus.Requests
import T2Bus.Client.Issued
import T2Bus.Client.Request
import T2Bus.Client.Services

/-!
# What a request call returns

`Client::request` returns the error of its Ack, the error of a timeout, or the value that the client
which serves the topic has given to `Client::respond`.

* `Session.outcome`: what a request call finds in its channels; `Client.respondMsg`;
* `Session.Reachable.post_of_rsp`: a response that was sent is that of a `respond` call;
* `Bus.Reachable.acked_of_rsped`, `Bus.Reachable.post_of_answer`;
* `Bus.Forwarded`, `Bus.Returned`, `Bus.Resolved`; **`Bus.request_returns`**.
-/

namespace T2Bus

open Session (acked rsped received)

/-- What a request call that waits long enough finds in its channels. -/
def Session.outcome (s : Session) (n : Callback) : Outcome where
  send _ := .ok ()
  ack :=
    match acked s.log n with
    | a :: _ => .value a
    | [] => .elapsed
  rsp := (rsped s.log n).head?

/-- The response of `Client::respond`; `data` is what the serializer makes of the value. -/
def Client.respondMsg (gzip : Gzip) (requestId : MsgId) (data : List UInt8) : RspMsg :=
  ⟨requestId, .ok, .ofBytes gzip data⟩

namespace Session

variable {s : Session}

/-- A message that was sent is that of a task, or an Unsub of a subscriber that has gone. -/
theorem Reachable.post_of_sent (h : Reachable s) {m : Msg ProtocolClient} (hm : m ∈ s.sent) :
    (∃ task, (task, m) ∈ posts s.log) ∨ ∃ t, m.content = .unsub ⟨t⟩ := by
  rw [h.sent_eq] at hm
  obtain ⟨r, hr, hm⟩ := List.mem_flatMap.mp hm
  rcases r.exec_cases with ⟨task, ht⟩ | ⟨msg, he⟩ | hstart
  · refine Or.inl ⟨task, List.mem_flatMap.mpr ⟨r, hr, ?_⟩⟩
    rw [Turn.posts, ht]
    exact List.mem_map_of_mem hm
  · exact Or.inr (Turn.sent_msg he m hm)
  · rw [hstart] at hm
    cases hm

/-- **A response that was sent is that of a `respond` call.** -/
theorem Reachable.post_of_rsp (h : Reachable s) {id : MsgId} {params : RspMsg}
    (hm : ⟨id, .rsp params⟩ ∈ s.sent) :
    ∃ task, (.rsp task, ⟨id, .rsp params⟩) ∈ posts s.log ∧ task.msg = params := by
  rcases h.post_of_sent hm with ⟨task, hx⟩ | ⟨t, ht⟩
  · have hcontent := h.posted.content _ hx
    cases task with
    | rsp task => exact ⟨task, hx, ProtocolClient.rsp.inj (Option.some.inj hcontent)⟩
    | _ => cases hcontent
  · cases ht

end Session

namespace Bus

variable {b : Bus} {conn : Conn}

/-- The server has passed the request of the client on under `k`, to the client that served the topic. -/
def Forwarded (b : Bus) (conn : Conn) (msg : Msg ProtocolClient) (t : Topic) (k : MsgId) (o : ClientId) :
    Prop :=
  ∃ c i p, ∃ r : Record, (b.server.stubs conn).client? = some c ∧ b.server.log[i]? = some r ∧
    r.task = .message c msg ∧ AcceptsAt b.server.log i k p ∧ p.responderId = o ∧
      r.core.directory.getOwner t = some o

section

variable {R : Type} (gzip : Gzip) (deser : List UInt8 → BusResult R)

/-- A request call that was passed on returns: its timer has fired, or the client that served the topic
has responded. -/
inductive Returned (b : Bus) (k : MsgId) (o : ClientId) (result : Except Fault R) : Prop
  | timeout {r : Record} (hr : r ∈ b.server.log) (ht : r.task = .requestTimeout k)
      (hresult : result = .error (.err .requestFailedTimeout))
  | answer {conn : Conn} {task : TaskRsp} {msg : Msg ProtocolClient}
      (hc : (b.server.stubs conn).client? = some o)
      (hx : (.rsp task, msg) ∈ posts (b.session conn).log) (hid : task.msg.reqId = k)
      (hresult : ∀ data, task.msg = Client.respondMsg gzip k data →
        result = (deser data).mapError .err)

/-- What a request call returns: the error of its Ack, or what has come back from the client that served
the topic. -/
structure Resolved (b : Bus) (conn : Conn) (msg : Msg ProtocolClient) (t : Topic) (n : Callback)
    (result : Except Fault R) : Prop where
  refused : ∀ a ∈ acked (b.session conn).log n, ∀ e, a.err = some e →
    b.AckedBy conn msg a ∧ result = .error (.err (.requestFailed e.display))
  returned : rsped (b.session conn).log n ≠ [] →
    ∃ k o, b.Forwarded conn msg t k o ∧ b.Returned gzip deser k o result

end

/-- **A call whose response has come has got its Ack**, and this without error. -/
theorem Reachable.acked_of_rsped (h : Reachable b) (hreg : registrations b.server.log < 2 ^ 32)
    (hlen : (b.session conn).sent.length < 2 ^ 32) (hrun : (b.session conn).status = .running)
    {params : TaskReq} {msg : Msg ProtocolClient} (hx : (.req params, msg) ∈ posts (b.session conn).log)
    {payload : RspMsg} (hp : payload ∈ rsped (b.session conn).log params.callbackRsp) :
    ∃ a, acked (b.session conn).log params.callbackAck = [a] ∧ a.err = none := by
  obtain ⟨m, hm, hcontent, hid, hresponded⟩ := h.rsp_of_call hreg hlen hx hp
  -- the Ack was in the channel before the response, so the callback does not wait any more
  obtain ⟨l₁, l₂, hsplit⟩ := List.append_of_mem hm
  obtain ⟨later, hlater⟩ := h.received_prefix conn
  obtain ⟨m', hm', a', hack, hackId, -⟩ := h.server.ack_before_rsp hreg
    (show outOn b.server.log conn = l₁ ++ m :: (l₂ ++ later) by
      rw [← hlater, hsplit, List.append_assoc, List.cons_append]) hcontent
  have hreceived : m' ∈ received (b.session conn).log := hsplit ▸ List.mem_append_left _ hm'
  have hne : acked (b.session conn).log params.callbackAck ≠ [] := by
    refine ((h.session conn).waits hrun hlen _ hx _ rfl).resolve_left fun hwait => ?_
    refine h.unacked hreg hlen hrun msg.id (Option.isSome_of_mem hwait) ?_
    exact mem_ackIds.mpr ⟨m', hreceived, a', hack, hackId.trans hid⟩
  obtain ⟨a, ha⟩ := List.length_eq_one_iff.mp
    (le_antisymm ((h.session conn).acks_once _) (List.length_pos_iff.mpr hne))
  obtain ⟨task, msg', hpost, hcall, hby⟩ := h.ack_of_call hreg hlen (ha ▸ List.mem_singleton_self a)
  cases (h.session conn).posted.once _ hx _ hpost _ rfl hcall
  exact ⟨a, ha, err_of_respondedBy h hreg hlen hby hresponded⟩

/-- A response that a task of the server has made is the timeout of the request, or that of a `respond`
call of the client that the request was passed on to. -/
theorem Reachable.post_of_answer (h : Reachable b) (hreg : registrations b.server.log < 2 ^ 32)
    {j : ℕ} {p : PendingResponse} {params : RspMsg} (hj : AnswersAt b.server.log j p params) :
    (∃ r ∈ b.server.log, r.task = .requestTimeout params.reqId ∧ params.status = .timeout) ∨
      ∃ conn task msg, (b.server.stubs conn).client? = some p.responderId ∧
        (.rsp task, msg) ∈ posts (b.session conn).log ∧ task.msg = params := by
  obtain ⟨r, hr, hans⟩ := hj
  have hr := List.mem_of_getElem? hr
  obtain ⟨-, ⟨c, id, ht, hc⟩ | ⟨ht, hparams⟩⟩ := Core.answers_eq_some.mp hans
  · right
    obtain ⟨conn, hconn⟩ := h.server.counted.processed r hr c _ ht
    have hsent : (⟨id, .rsp params⟩ : Msg ProtocolClient) ∈ (b.session conn).sent :=
      (h.messagesOf_prefix hreg hconn).subset (mem_messagesOf.mpr ⟨r, hr, ht⟩)
    obtain ⟨task, hx, htask⟩ := (h.session conn).post_of_rsp hsent
    obtain rfl := hc.resolve_left (h.server.message_ne_zero hreg hr ht)
    exact ⟨conn, task, _, hconn, hx, htask⟩
  · exact Or.inl ⟨r, hr, ht, congrArg RspMsg.status hparams⟩

/-- **A request call returns what the client that serves the topic has responded**, the error of the
server, or that of a timeout. -/
theorem request_returns {R : Type} {gzip : Gzip}
    (hgzip : ∀ data, gzip.decompress (gzip.compress data) = some data)
    (deser : List UInt8 → BusResult R) (h : Reachable b) (hreg : registrations b.server.log < 2 ^ 32)
    (hlen : (b.session conn).sent.length < 2 ^ 32) (hrun : (b.session conn).status = .running)
    {protocol : String} {path : Path} {topic : Topic} (ht : Topic.new protocol path = .ok topic)
    {data : List UInt8} {n : Callback} {msg : Msg ProtocolClient}
    (hx : (Client.requestTask gzip topic data n, msg) ∈ posts (b.session conn).log) :
    b.Resolved gzip deser conn msg topic n
      (Client.request gzip deser protocol path (.ok data) n ((b.session conn).outcome n)) := by
  rw [Client.request_eq gzip deser data n _ ht]
  refine ⟨fun a ha e he => ?_, fun hne => ?_⟩
  · obtain ⟨task, msg', hpost, hcall, hby⟩ := h.ack_of_call hreg hlen ha
    cases (h.session conn).posted.once _ hx _ hpost n rfl hcall
    obtain ⟨a', hacked⟩ := List.length_eq_one_iff.mp
      (le_antisymm ((h.session conn).acks_once n) (List.length_pos_of_mem ha))
    cases List.mem_singleton.mp (hacked ▸ ha)
    refine ⟨hby, ?_⟩
    simp only [Outcome.answer, Session.outcome, hacked, expectAck, he]
    rfl
  · obtain ⟨payload, rest, hrsped⟩ := List.exists_cons_of_ne_nil hne
    have hp : payload ∈ rsped (b.session conn).log n := hrsped ▸ List.mem_cons_self
    obtain ⟨a, hacked, herr⟩ := h.acked_of_rsped hreg hlen hrun hx hp
    obtain ⟨-, -, -, -, c, i, j, p, params, r, hc, hi, htask, hs, hpayload⟩ :=
      h.rsp_of_call hreg hlen hx hp
    have hanswer : ((b.session conn).outcome n).answer (Client.requestTask gzip topic data n) =
        .ok payload := by
      refine Outcome.answer_ok.mpr ⟨rfl, ⟨a, ?_, herr⟩, by rw [Session.outcome, hrsped]; rfl⟩
      simp only [Session.outcome, hacked]
    rw [hanswer, hpayload]
    -- the request was passed on under the id that the response names
    obtain ⟨r', hi', hacc, -⟩ := hs.accepts
    cases hi.symm.trans hi'
    obtain ⟨req, htask', howner, -⟩ := Core.accepts_eq_some.mp hacc
    have hmsg := (Task.message.inj (htask.symm.trans htask')).2
    have hcontent := (h.session conn).posted.content _ hx
    rw [hmsg] at hcontent
    cases hcontent
    refine ⟨params.reqId, p.responderId, ⟨c, i, p, r, hc, hi, htask, hs.accepts, rfl, howner⟩, ?_⟩
    obtain ⟨r'', hr'', ht'', hstatus⟩ | ⟨conn', task, msg', hc', hx', htask''⟩ :=
      h.post_of_answer hreg hs.answers
    · exact .timeout hr'' ht'' (by rw [hstatus])
    · refine .answer hc' hx' (congrArg RspMsg.reqId htask'') fun value hvalue => ?_
      rw [← htask'', hvalue]
      simp only [Client.respondMsg, Payload.toBytes_ofBytes _ hgzip]
      rfl

/-- The request of client 2 holds one byte, and so does the response of client 1. -/
theorem request_returns_replying : ∃ b, Lts.run step init replying = some b ∧
    Client.request ⟨id, some⟩ Except.ok "p" ⟨"a"⟩ (.ok [1]) 0 ((b.session 1).outcome 0) = .ok [2] ∧
    b.Resolved ⟨id, some⟩ Except.ok 1 ⟨1, .req ⟨Session.served, ⟨[1], false⟩⟩⟩ Session.served 0
      (Client.request ⟨id, some⟩ Except.ok "p" ⟨"a"⟩ (.ok [1]) 0 ((b.session 1).outcome 0)) := by
  have hrun : (Lts.run step init replying).map (fun b => ([registrations b.server.log,
      (b.session 1).sent.length], (b.session 1).status, (posts (b.session 1).log).head?)) =
      some ([2, 2], .running, some (.req ⟨⟨Session.served, ⟨[1], false⟩⟩, 0, 0⟩,
        ⟨1, .req ⟨Session.served, ⟨[1], false⟩⟩⟩)) := by
    decide +kernel
  have hgot : (Lts.run step init replying).map (fun b =>
      (acked (b.session 1).log 0, rsped (b.session 1).log 0)) =
      some ([⟨1, none, none⟩], [⟨1, .ok, ⟨[2], false⟩⟩]) := by
    decide +kernel
  obtain ⟨b, hb, he⟩ := Option.map_eq_some_iff.mp hrun
  obtain ⟨⟨hreg, hlen, -⟩, hsession, hpost⟩ := by
    simpa only [Prod.mk.injEq, List.cons.injEq] using he
  rw [hb] at hgot
  obtain ⟨hack, hrsp⟩ := Prod.mk.inj (Option.some.inj hgot)
  refine ⟨b, hb, ?_, request_returns (fun _ => rfl) Except.ok ⟨_, hb⟩ (by omega) (by omega) hsession rfl
    (List.mem_of_mem_head? hpost)⟩
  rw [Session.outcome, hack, hrsp]
  rfl

end Bus

end T2Bus
