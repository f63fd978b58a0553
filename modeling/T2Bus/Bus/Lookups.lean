import T2Bus.Client.Survival
import T2Bus.Bus.Fifo

/-!
# The lookups of the client core

The callbacks of a message that a client receives are there, and so is the local owner of an Unsrv.
For a response this rests on the server: the channel carries one response for a request, and only if
the client has made it.

* `Bus.out_eq`: a channel, cut at the next message;
* **`Bus.Reachable.registered`**: the callbacks of the next message are there;
* **`Bus.lookups_found`**: no client panics.
-/

namespace T2Bus

namespace Bus

variable {b b' : Bus} {conn : Conn} {c : ClientId} {msg : Msg ProtocolServer}
  {rest : List (Msg ProtocolServer)}

/-- What went into a channel, cut at the message that the client receives next. -/
theorem out_eq (h : Reachable b) (hdown : b.down conn = msg :: rest) :
    ∃ later, outOn b.server.log conn =
      Session.received (b.session conn).log ++ msg :: (rest ++ later) := by
  obtain ⟨later, hlater⟩ := List.take_prefix (b.passed conn) (outOn b.server.log conn)
  obtain ⟨out, hout⟩ := h.fifo.down conn
  rw [down, ← hout, List.drop_left] at hdown
  refine ⟨later, ?_⟩
  rw [← hlater, ← hout, hdown, List.append_assoc]
  rfl

theorem mem_of_down (h : Reachable b) (hdown : b.down conn = msg :: rest) :
    msg ∈ outOn b.server.log conn := by
  obtain ⟨later, hout⟩ := out_eq h hdown
  rw [hout]
  exact List.mem_append_right _ List.mem_cons_self

/-- The messages of a client that the server has processed are among those that it has sent. -/
theorem Reachable.messagesOf_prefix (h : Reachable b) (hreg : registrations b.server.log < 2 ^ 32)
    (hc : (b.server.stubs conn).client? = some c) :
    messagesOf c b.server.log <+: (b.session conn).sent := by
  refine List.IsPrefix.trans ?_ (h.fifo.up conn)
  rw [← h.messages hreg hc]
  exact List.prefix_append ..

/-- The response that comes next has not come before. -/
theorem not_answered (h : Reachable b) (hreg : registrations b.server.log < 2 ^ 32)
    (hids : ((b.session conn).sent.map Msg.id).Nodup) (hdown : b.down conn = msg :: rest)
    {payload : RspMsg} (hmsg : msg.content = .rsp payload) :
    ¬ Session.Answered (b.session conn).log payload.reqId := by
  rintro ⟨m, hm, payload', hrsp, hid⟩
  obtain ⟨c, hc⟩ := h.server.client_of_mem_outOn (mem_of_down h hdown)
  have hnodup := h.server.nodup_rspIds hc
    (hids.sublist ((h.messagesOf_prefix hreg hc).sublist.map Msg.id))
  obtain ⟨later, hout⟩ := out_eq h hdown
  rw [hout, rspIds_append, List.nodup_append] at hnodup
  refine hnodup.2.2 payload.reqId ?_ payload.reqId ?_ rfl
  · exact List.mem_filterMap.mpr ⟨m, hm, by rw [hrsp, ← hid]; rfl⟩
  · exact List.mem_filterMap.mpr ⟨msg, List.mem_cons_self, by rw [hmsg]; rfl⟩

/-- **The callbacks of the message that a client receives next are there.** -/
theorem Reachable.registered (h : Reachable b) (hreg : registrations b.server.log < 2 ^ 32)
    (hlen : (b.session conn).sent.length < 2 ^ 32) (hrun : (b.session conn).status = .running)
    (hdown : b.down conn = msg :: rest) : (b.session conn).core.Registered msg.content := by
  have htables := (h.session conn).tables hrun
  have hvalid := h.server.valid_outOn (mem_of_down h hdown)
  obtain ⟨id, content⟩ := msg
  cases content with
  | ack payload => trivial
  | pub payload =>
    intro k hk
    obtain ⟨t, hsub, -⟩ := (Directory.mem_getSubscribers htables.sound hvalid).mp hk
    exact (htables.pubs k t hsub).1
  | req payload => exact fun k hk => (htables.reqs payload.topic k hk).1
  | rsp payload =>
    -- the client has made the request, and this is its first response
    have hids := htables.nodup_ids hlen
    obtain ⟨c, hc⟩ := h.server.client_of_mem_outOn (mem_of_down h hdown)
    obtain ⟨params, hreq⟩ := h.server.req_of_rspIds hc (q := payload.reqId)
      (List.mem_filterMap.mpr ⟨_, mem_of_down h hdown, rfl⟩)
    have hsent := (h.messagesOf_prefix hreg hc).subset hreq
    exact ((h.session conn).awaits hrun _ params hsent).resolve_right
      (not_answered h hreg hids hdown rfl)

/-! ## No client panics -/

/-- The numbers of registrations and of messages only grow. -/
theorem Moves.bounds (h : b.Moves b') (conn : Conn) :
    registrations b.server.log ≤ registrations b'.server.log ∧
      (b.session conn).sent.length ≤ (b'.session conn).sent.length := by
  constructor
  · rcases h.server_step with he | ⟨act, hs⟩
    · rw [he]
    · exact System.registrations_le hs
  · rcases h.session_step conn with he | ⟨act, hs⟩
    · rw [he]
    · exact (Session.sent_step hs).length_le

/-- **The callbacks of every message of the run were there** when a client received it. -/
theorem Reachable.turns_registered (h : Reachable b) : registrations b.server.log < 2 ^ 32 →
    (b.session conn).sent.length < 2 ^ 32 → ∀ r ∈ (b.session conn).log, ∀ msg, r.event = .msg msg →
      r.core.Registered msg.content := by
  refine Reachable.induct (I := fun b => registrations b.server.log < 2 ^ 32 →
    (b.session conn).sent.length < 2 ^ 32 → ∀ r ∈ (b.session conn).log, ∀ msg, r.event = .msg msg →
      r.core.Registered msg.content) (fun _ _ r hr => absurd hr List.not_mem_nil)
    (fun b b' hb hi hm hreg hlen => ?_) h
  have hreg₀ := (hm.bounds conn).1.trans_lt hreg
  have hlen₀ := (hm.bounds conn).2.trans_lt hlen
  have hi := hi hreg₀ hlen₀
  cases hm with
  | server hs hact => exact hi
  | receive hup hs => exact hi
  | pass hs hc => exact hi
  | @client conn' act session hs hact =>
    by_cases hc : conn = conn'
    · subst hc
      rw [setSession_self]
      rcases Session.log_step hs with ⟨event, valid, order, transport, rfl⟩ | hlog
      · obtain ⟨tasks, -, rfl⟩ := Session.step_turn hs
        refine List.forall_mem_append.mpr ⟨hi, List.forall_mem_singleton.mpr fun msg he => ?_⟩
        have he : event = .msg msg := he
        subst he
        exact absurd rfl (hact msg valid order transport)
      · rw [hlog]
        exact hi
    · rw [setSession_of_ne hc]
      exact hi
  | @deliver conn' order transport msg rest valid session hdown hs =>
    by_cases hc : conn = conn'
    · subst hc
      rw [setSession_self]
      have hrun := (Session.step_eq_some.mp hs).1
      obtain ⟨tasks, -, rfl⟩ := Session.step_turn hs
      refine List.forall_mem_append.mpr ⟨hi, List.forall_mem_singleton.mpr fun msg' he => ?_⟩
      cases he
      exact hb.registered hreg₀ hlen₀ hrun hdown
    · rw [setSession_of_ne hc]
      exact hi

/-- No client panics. -/
theorem Reachable.ne_panic (h : Reachable b) (hreg : registrations b.server.log < 2 ^ 32)
    (hlen : (b.session conn).sent.length < 2 ^ 32) : (b.session conn).status ≠ .failed .panic := by
  intro hp
  obtain ⟨r, hr, he⟩ := (h.session conn).failed .panic hp
  exact r.exec_ne_panic ((h.session conn).unsrvOwned hlen r hr) (h.turns_registered hreg hlen r hr) he

/-- **The lookups of a client that runs do not fail**: the owner of an Unsrv is there, so are the
callbacks of the message that it receives next, whatever the order of a fan-out and whichever receivers
are gone by then; and it has not failed in one. -/
theorem lookups_found (h : Reachable b) (hreg : registrations b.server.log < 2 ^ 32)
    (hlen : (b.session conn).sent.length < 2 ^ 32) :
    (b.session conn).status ≠ .failed .panic ∧ ((b.session conn).status = .running →
      (∀ params tasks, (b.session conn).tasks = .unsrv params :: tasks →
        ((b.session conn).core.subscriptions.getOwner params.msg.topic).isSome) ∧
      ∀ msg rest, b.down conn = msg :: rest → (b.session conn).core.Registered msg.content ∧
        ∀ env, (ClientExec.afterReceive env msg (.start (b.session conn).core)).1 ≠
          .error .panic) := by
  refine ⟨h.ne_panic hreg hlen, fun hrun => ⟨fun params tasks ht => ?_, fun msg rest hdown => ?_⟩⟩
  · exact Session.Balanced.unsrvOwned ht ((h.session conn).balanced hrun hlen)
  · have hregistered := h.registered hreg hlen hrun hdown
    exact ⟨hregistered, fun env => ClientExec.afterReceive_ne_panic hregistered⟩

/-! ## A request and its response -/

/-- The client sends a task, on a transport that works, and the server processes the message. -/
def sends (conn : Conn) (task : ClientTask) : List Act :=
  [.client conn (Session.sending task), .receive conn, .server (.process .given)]

/-- The client gets the next message of its channel. -/
def gets (conn : Conn) : List Act := [.pass conn, .deliver conn .given fun _ => .ok ()]

/-- Two clients; client 1 serves a path. -/
def serving : List Act :=
  [.server (.connect 0), .server (.process .given), .server (.connect 1), .server (.process .given),
    .client 0 (.serve Session.served Session.served_valid)] ++
  sends 0 (.srv ⟨⟨Session.served⟩, 0, 0⟩) ++ gets 0

/-- Client 2 makes a request, which client 1 gets. -/
def requesting : List Act :=
  serving ++ [.client 1 (.request ⟨Session.served, ⟨[1], false⟩⟩ Session.served_valid)] ++
  sends 1 (.req ⟨⟨Session.served, ⟨[1], false⟩⟩, 0, 0⟩) ++ gets 0

/-- Client 1 responds, and the response is on its way. -/
def responding : List Act :=
  requesting ++ [.client 0 (.respond ⟨1, .ok, ⟨[2], false⟩⟩)] ++
  sends 0 (.rsp ⟨⟨1, .ok, ⟨[2], false⟩⟩, 1⟩) ++ gets 1 ++ [.pass 1]

/-- A response that is on its way finds its callback. -/
theorem lookups_found_responding : ∃ b, Lts.run step init responding = some b ∧
    (b.session 1).core.Registered (.rsp ⟨1, .ok, ⟨[2], false⟩⟩) := by
  have hrun : (Lts.run step init responding).map (fun b => (registrations b.server.log,
      (b.session 1).sent.length, (b.session 1).status, b.down 1)) =
      some (2, 1, .running, [⟨3, .rsp ⟨1, .ok, ⟨[2], false⟩⟩⟩]) := by rfl
  obtain ⟨b, hb, he⟩ := Option.map_eq_some_iff.mp hrun
  obtain ⟨hreg, hlen, hrunning, hdown⟩ := by simpa only [Prod.mk.injEq] using he
  exact ⟨b, hb, (((lookups_found ⟨_, hb⟩ (by omega) (by omega)).2 hrunning).2 _ _ hdown).1⟩

end Bus

end T2Bus
