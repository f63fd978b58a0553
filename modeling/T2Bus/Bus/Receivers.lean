import T2Bus.Bus.Lookups

/-!
# Receivers that have gone

`after_receive` forwards a message into a callback channel. Acks and responses are lost when the
receiver has gone, and a subscription is cleaned up; but a request whose receiver has gone ends the
session.

* `Session.Receives`: no message has ended the session;
* **`Bus.receives_iff`**, and `Bus.not_receives_forwarderEnded`: a request that comes between the end of
  its forwarding task and the Unsrv.
-/

namespace T2Bus

/-- The messages of the run so far have ended no session: `after_receive` took each of them, and if the
loop has failed, it was not in a turn with a message. -/
structure Session.Receives (s : Session) : Prop where
  messages : ∀ r ∈ s.log, ∀ msg, r.event = .msg msg →
    (ClientExec.afterReceive r.env msg (.start r.core)).1 = .ok ()
  failed : ∀ fault, s.status = .failed fault →
    ∃ r ∈ s.log, r.exec.1 = .error fault ∧ ∀ msg, r.event ≠ .msg msg

namespace Bus

variable {b : Bus} {conn : Conn}

/-- **The messages of a run end no session exactly when every request finds its receiver**: the
callback of its local owner is not closed. From `2 ^ 32` registrations or messages on, the callbacks
have to be there as well. -/
theorem receives_iff (h : Reachable b) (htr : ∀ r ∈ (b.session conn).log, r.env.Reliable) :
    (b.session conn).Receives ↔ ∀ r ∈ (b.session conn).log, ∀ msg, r.event = .msg msg →
      r.core.ReqOpen r.env msg.content ∧
        (2 ^ 32 ≤ registrations b.server.log ∨ 2 ^ 32 ≤ (b.session conn).sent.length →
          r.core.Registered msg.content) := by
  constructor
  · intro hs r hr msg hm
    obtain ⟨hregistered, hopen⟩ :=
      (ClientExec.afterReceive_ok_iff (htr r hr)).mp (hs.messages r hr msg hm)
    exact ⟨hopen, fun _ => hregistered⟩
  · intro hs
    have hmessages : ∀ r ∈ (b.session conn).log, ∀ msg, r.event = .msg msg →
        (ClientExec.afterReceive r.env msg (.start r.core)).1 = .ok () := by
      intro r hr msg hm
      obtain ⟨hopen, hregistered⟩ := hs r hr msg hm
      refine (ClientExec.afterReceive_ok_iff (htr r hr)).mpr ⟨?_, hopen⟩
      by_cases hbound :
          2 ^ 32 ≤ registrations b.server.log ∨ 2 ^ 32 ≤ (b.session conn).sent.length
      · exact hregistered hbound
      · obtain ⟨hreg, hlen⟩ := not_or.mp hbound
        exact h.turns_registered (Nat.lt_of_not_le hreg) (Nat.lt_of_not_le hlen) r hr msg hm
    refine ⟨hmessages, fun fault hf => ?_⟩
    obtain ⟨r, hr, he⟩ := (h.session conn).failed fault hf
    refine ⟨r, hr, he, fun msg hm => ?_⟩
    have hok := hmessages r hr msg hm
    rw [Turn.exec, hm] at he
    change (ClientExec.goesOn (ClientExec.afterReceive r.env msg (.start r.core))).1 = _ at he
    rw [ClientExec.goesOn, hok] at he
    cases he

/-- A request that is received. -/
theorem receives_iff_requesting : ∃ b, Lts.run step init requesting = some b ∧
    ((b.session 0).Receives ↔ ∀ r ∈ (b.session 0).log, ∀ msg, r.event = .msg msg →
      r.core.ReqOpen r.env msg.content ∧
        (2 ^ 32 ≤ registrations b.server.log ∨ 2 ^ 32 ≤ (b.session 0).sent.length →
          r.core.Registered msg.content)) := by
  have hrun : (Lts.run step init requesting).map (fun b =>
      (b.session 0).log.map fun r => r.env.transport) = some (List.replicate 3 fun _ => .ok ()) := rfl
  obtain ⟨b, hb, he⟩ := Option.map_eq_some_iff.mp hrun
  refine ⟨b, hb, receives_iff ⟨_, hb⟩ fun r hr msg => ?_⟩
  have hm : r.env.transport ∈ List.replicate 3 fun _ => .ok () := he ▸ List.mem_map_of_mem hr
  rw [List.eq_of_mem_replicate hm]

/-! ## The forwarding task ends -/

/-- Client 2 makes two requests. Client 1 drops its `RequestSubscription`, so that its forwarding task
ends with the first request; the second one comes before the Unsrv is sent. -/
def forwarderEnded : List Act :=
  serving ++
  [.client 1 (.request ⟨Session.served, ⟨[1], false⟩⟩ Session.served_valid),
    .client 1 (.request ⟨Session.served, ⟨[2], false⟩⟩ Session.served_valid)] ++
  sends 1 (.req ⟨⟨Session.served, ⟨[1], false⟩⟩, 0, 0⟩) ++
  sends 1 (.req ⟨⟨Session.served, ⟨[2], false⟩⟩, 1, 1⟩) ++
  [.client 0 (.dropServe Session.served)] ++ gets 0 ++ [.client 0 (.close 0)] ++ gets 0

/-- **The second request ends the session of client 1**, although the transport works. -/
theorem not_receives_forwarderEnded : ∃ b, Lts.run step init forwarderEnded = some b ∧
    (∀ r ∈ (b.session 0).log, r.env.Reliable) ∧
    (b.session 0).tasks = [.unsrv ⟨⟨Session.served⟩⟩] ∧
    (b.session 0).status = .failed (.err .channelClosed) ∧ ¬ (b.session 0).Receives := by
  have hrun : (Lts.run step init forwarderEnded).map (fun b =>
      ((b.session 0).log.map fun r => r.env.transport, (b.session 0).tasks, (b.session 0).status,
        (b.session 0).log[3]?.map fun r => (r.event,
          (ClientExec.afterReceive r.env ⟨3, .req ⟨Session.served, ⟨[2], false⟩⟩⟩
            (.start r.core)).1))) =
      some (List.replicate 4 fun _ => .ok (), [.unsrv ⟨⟨Session.served⟩⟩],
        .failed (.err .channelClosed), some (.msg ⟨3, .req ⟨Session.served, ⟨[2], false⟩⟩⟩,
          .error (.err .channelClosed))) := by rfl
  obtain ⟨b, hb, he⟩ := Option.map_eq_some_iff.mp hrun
  obtain ⟨htr, htasks, hstatus, hlast⟩ := by simpa only [Prod.mk.injEq] using he
  obtain ⟨r, hr, he⟩ := Option.map_eq_some_iff.mp hlast
  obtain ⟨hevent, hresult⟩ := Prod.mk.inj he
  refine ⟨b, hb, fun r hr msg => ?_, htasks, hstatus, fun h => ?_⟩
  · have hm : r.env.transport ∈ List.replicate 4 fun _ => .ok () := htr ▸ List.mem_map_of_mem hr
    rw [List.eq_of_mem_replicate hm]
  · have hok := h.messages r (List.mem_of_getElem? hr) _ hevent
    rw [hresult] at hok
    cases hok

end Bus

end T2Bus
