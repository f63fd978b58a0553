import T2Bus.Bus.Replies
import T2Bus.Bus.Subscriptions
import T2Bus.Client.Waiting
import T2Bus.Server.Acknowledged

/-!
# A connection at rest

When nothing is on the way between a client and the server, every call that the client has sent is
acknowledged: no Ack is lost.

* `Bus.Rests`: all that was sent in either direction is processed;
  `Bus.Rests.received_eq`: the client has received all that went into its channel;
* `Bus.Reachable.unacked`: a callback in `callbacks_ack` has not been called;
* `Bus.Rests.acked_of_post`, **`Bus.calls_complete`**.
-/

namespace T2Bus

open Session (acked received)

namespace Bus

variable {b b' : Bus} {conn : Conn} {c : ClientId}

/-- Both sides run, and nothing is on the way between them. -/
structure Rests (b : Bus) (conn : Conn) (c : ClientId) : Prop extends Settled b conn c where
  channel : b.channel conn = []
  down : b.down conn = []

/-- The client has received all that went into its channel. -/
theorem Rests.received_eq (hr : b.Rests conn c) (h : Reachable b) :
    received (b.session conn).log = outOn b.server.log conn := by
  have hpassed : (outOn b.server.log conn).take (b.passed conn) = outOn b.server.log conn :=
    List.take_of_length_le (List.drop_eq_nil_iff.mp hr.channel)
  have hdown := (h.fifo.down conn).eq_of_length_le (List.drop_eq_nil_iff.mp hr.down)
  rw [hdown, hpassed]

/-- The Acks that the client has received are those of its messages, in order. -/
theorem Rests.ackIds_received (hr : b.Rests conn c) (h : Reachable b)
    (hreg : registrations b.server.log < 2 ^ 32) :
    ackIds (received (b.session conn).log) = (b.session conn).sent.map Msg.id := by
  rw [hr.received_eq h, h.server.acknowledges hr.server hreg conn c hr.serving,
    hr.messagesOf_eq h hreg]

/-! ## Callbacks that were not called -/

/-- The id of a message that is sent next is not acknowledged yet. -/
theorem Reachable.next_unacked (h : Reachable b) (hreg : registrations b.server.log < 2 ^ 32)
    (hrun : (b.session conn).status = .running) (hlen : (b.session conn).sent.length + 1 < 2 ^ 32) :
    (b.session conn).core.nextMsgId + 1 ∉ ackIds (received (b.session conn).log) := by
  intro hk
  obtain ⟨m, hm, a, hack, hid⟩ := mem_ackIds.mp hk
  obtain ⟨c, msg, r, hr, hc, ht, hmsg, -⟩ :=
    h.server.ack_of_outOn ((h.received_prefix conn).subset hm) hack
  -- the server acknowledges what the client has sent before
  have hsent : msg ∈ (b.session conn).sent :=
    (h.messagesOf_prefix hreg hc).subset (mem_messagesOf.mpr ⟨r, hr, ht⟩)
  exact ((h.session conn).tables hrun).fresh hlen hsent (hmsg.symm.trans hid)

/-- A callback that is there after an action of the client was there before, or its message is the one
that the action has sent. -/
theorem callback_of_client {s s' : Session} {act : Session.Act} (h : s.step act = some s')
    (hact : Silent act) (hrun : s'.status = .running) {k : MsgId}
    (hk : (s'.core.callbacksAck k).isSome) : (s.core.callbacksAck k).isSome ∨
      (k = s.core.nextMsgId + 1 ∧ s'.sent.length = s.sent.length + 1) := by
  rcases Session.queues_step h with ⟨hcore, -⟩ | ⟨event, valid, order, transport, tasks, rfl, -, rfl⟩
  · exact Or.inl (hcore ▸ hk)
  · obtain ⟨n, hn⟩ := Option.isSome_iff_exists.mp hk
    rcases @Turn.callbacks_exec _ .ack k n hn with ⟨task, -, -, hid⟩ | hold
    · refine Or.inr ⟨hid, ?_⟩
      rcases Turn.exec_ok (Session.turned_running.mp hrun) with ⟨-, msg, -, -, hsent⟩ | ⟨msg, he, -⟩
      · change (s.sent ++ (s.turn event order transport).exec.2.sent).length = _
        rw [hsent, List.length_append]
        rfl
      · have he : event = .msg msg := he
        subst he
        exact absurd rfl (hact msg valid order transport)
    · exact Or.inl (Option.isSome_of_mem hold)

/-- A callback that is there after a message was received was there before, and the message is no Ack
for it. -/
theorem callback_of_deliver {r : Turn} {msg : Msg ProtocolServer} (he : r.event = .msg msg) {k : MsgId}
    (hk : (r.exec.2.core.callbacksAck k).isSome) :
    (r.core.callbacksAck k).isSome ∧ msg.content.ackId? ≠ some k := by
  obtain ⟨n, hn⟩ := Option.isSome_iff_exists.mp hk
  refine ⟨?_, fun hid => ?_⟩
  · rcases @Turn.callbacks_exec _ .ack k n hn with ⟨task, hsends, -⟩ | hold
    · rw [Turn.sends?, he] at hsends
      cases hsends
    · exact Option.isSome_of_mem hold
  · obtain ⟨id, content⟩ := msg
    cases content with
    | ack a =>
      cases hid
      rw [Turn.callbacksAck_ack he, Table.remove_self] at hn
      cases hn
    | _ => cases hid

/-- **A callback in `callbacks_ack` waits for an Ack that the client has not received.** -/
theorem Reachable.unacked (h : Reachable b) : registrations b.server.log < 2 ^ 32 →
    (b.session conn).sent.length < 2 ^ 32 → (b.session conn).status = .running →
      ∀ k, ((b.session conn).core.callbacksAck k).isSome →
        k ∉ ackIds (received (b.session conn).log) := by
  refine Reachable.induct (I := fun b => registrations b.server.log < 2 ^ 32 →
    (b.session conn).sent.length < 2 ^ 32 → (b.session conn).status = .running →
      ∀ k, ((b.session conn).core.callbacksAck k).isSome →
        k ∉ ackIds (received (b.session conn).log)) (fun _ _ _ k hk => by cases hk)
    (fun b b' hb hi hm hreg hlen hrun k hk => ?_) h
  have hreg₀ := (hm.bounds conn).1.trans_lt hreg
  have hlen₀ := (hm.bounds conn).2.trans_lt hlen
  cases hm with
  | server hs hact => exact hi hreg₀ hlen₀ hrun k hk
  | receive hup hs => exact hi hreg₀ hlen₀ hrun k hk
  | pass hs hc => exact hi hreg₀ hlen₀ hrun k hk
  | @client conn' act session hs hact =>
    by_cases hc : conn = conn'
    · subst hc
      rw [setSession_self] at hlen hrun hk ⊢
      have hrun₀ := (Session.step_eq_some.mp hs).1
      rw [Session.received_step hs hact]
      rcases callback_of_client hs hact hrun hk with hk | ⟨rfl, hsent⟩
      · exact hi hreg₀ hlen₀ hrun₀ k hk
      · exact hb.next_unacked hreg₀ hrun₀ (hsent ▸ hlen)
    · rw [setSession_of_ne hc] at hlen hrun hk ⊢
      exact hi hreg₀ hlen₀ hrun k hk
  | @deliver conn' order transport msg rest valid session hdown hs =>
    by_cases hc : conn = conn'
    · subst hc
      rw [setSession_self] at hlen hrun hk ⊢
      have hrun₀ := (Session.step_eq_some.mp hs).1
      obtain ⟨tasks, -, rfl⟩ := Session.step_turn hs
      obtain ⟨hold, hne⟩ := callback_of_deliver rfl hk
      rw [Session.turned, Session.received_concat, ackIds_append]
      refine fun hmem => (List.mem_append.mp hmem).elim (hi hreg₀ hlen₀ hrun₀ k hold) fun hmem => ?_
      obtain ⟨m, hm, a, ha, hid⟩ := mem_ackIds.mp hmem
      have hm : m = msg := List.mem_singleton.mp hm
      rw [← hm, ha] at hne
      exact hne (congrArg some hid)
    · rw [setSession_of_ne hc] at hlen hrun hk ⊢
      exact hi hreg₀ hlen₀ hrun k hk

/-! ## No Ack is lost -/

/-- No callback waits for an Ack. -/
theorem Rests.unawaited (hr : b.Rests conn c) (h : Reachable b)
    (hreg : registrations b.server.log < 2 ^ 32) (hlen : (b.session conn).sent.length < 2 ^ 32)
    (k : MsgId) : (b.session conn).core.callbacksAck k = none := by
  by_contra hk
  obtain ⟨n, hn⟩ := Option.ne_none_iff_exists'.mp hk
  refine h.unacked hreg hlen hr.session k (Option.isSome_of_mem hn) ?_
  -- the callback was entered under the id of a message, which is acknowledged by now
  obtain ⟨x, hx, -, hid⟩ := (h.session conn).linked hr.session .ack k n hn
  rw [hr.ackIds_received h hreg, ← hid]
  exact List.mem_map_of_mem ((h.session conn).posted.sent x hx)

/-- A call that has left the client's queue has got one Ack, the one that the server made for it. -/
theorem Rests.acked_of_post (hr : b.Rests conn c) (h : Reachable b)
    (hreg : registrations b.server.log < 2 ^ 32) (hlen : (b.session conn).sent.length < 2 ^ 32)
    {x : ClientTask × Msg ProtocolClient} (hx : x ∈ posts (b.session conn).log) {n : Callback}
    (hn : x.1.call? = some n) :
    ∃ a, acked (b.session conn).log n = [a] ∧ b.AckedBy conn x.2 a := by
  rcases (h.session conn).waits hr.session hlen x hx n hn with hwait | hne
  · rw [hr.unawaited h hreg hlen] at hwait
    cases hwait
  · obtain ⟨a, ha⟩ := List.length_eq_one_iff.mp
      (le_antisymm ((h.session conn).acks_once n) (List.length_pos_iff.mpr hne))
    obtain ⟨task, msg, hpost, hcall, hby⟩ := h.ack_of_call hreg hlen (n := n) (a := a) (by
      rw [ha]
      exact List.mem_singleton_self a)
    cases (h.session conn).posted.once _ hx _ hpost n hn hcall
    exact ⟨a, ha, hby⟩

/-- Every call of the client has got its Ack. -/
structure Complete (b : Bus) (conn : Conn) : Prop where
  none : ∀ k, (b.session conn).core.callbacksAck k = none
  acked : ∀ x ∈ posts (b.session conn).log, ∀ n, x.1.call? = some n →
    ∃ a, acked (b.session conn).log n = [a] ∧ b.AckedBy conn x.2 a
  called : ∀ n < (b.session conn).calls, n ∉ queuedCalls (b.session conn).tasks →
    ∃ x ∈ posts (b.session conn).log, x.1.call? = some n

end Bus

end T2Bus
