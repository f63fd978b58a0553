import T2Bus.Client.Fresh
import T2Bus.Server.Responses
import T2Bus.Server.Survival

/-!
# Fresh ids

The server takes its message ids and its client ids off two counters, as a client does its message ids.
What is pending or registered has an id that was taken before, so an id is fresh until its counter has
come round.

* `System.FreshUntil`: the ids that the processed tasks take; **`System.Reachable.fresh`**;
* **`ids_stay_fresh`**, **`not_ids_stay_fresh`**: clients and server.
-/

namespace T2Bus

namespace System

variable {s s' : System}

/-- A request is pending under the id that a new one takes only when the message ids have come round;
and the id of a new client is 0, or that of a registered one, only when the client ids have. -/
def FreshUntil (log : List Record) : Prop :=
  ∀ i r, log[i]? = some r →
    (idsTaken (log.take i) < 2 ^ 32 → ∀ p, r.accepts = some p →
      r.core.pendingResponses r.core.nextMsgId = none) ∧
    (registrations (log.take i) + 1 < 2 ^ 32 → ∀ conn, r.task = .register conn →
      r.core.nextClientId ≠ 0 ∧ r.core.protocolServerSenders r.core.nextClientId = none)

/-- **What is pending was accepted under another id.** -/
theorem Reachable.pending_nextMsgId (h : Reachable s) (hrun : s.status = .running)
    (hids : idsTaken s.log < 2 ^ 32) : s.core.pendingResponses s.core.nextMsgId = none := by
  by_contra hsome
  obtain ⟨p, hp⟩ := Option.ne_none_iff_exists'.mp hsome
  obtain ⟨i, hw⟩ := h.traced.pending hrun _ p hp
  obtain ⟨r, hr, hacc, hid⟩ := hw.accepts
  have hlt := idsTaken_take_lt hr (Record.out_ne_nil_of_accepts hacc) (lt_of_getElem? hr)
  rw [List.take_length] at hlt
  rw [(h.counted.past i r hr).1, h.counted.msgId] at hid
  have heq := ofNat_inj (hlt.trans hids) hids hid
  omega

/-- **Who is registered has another id.** -/
theorem Reachable.senders_nextClientId (h : Reachable s) (hreg : registrations s.log + 1 < 2 ^ 32) :
    s.core.nextClientId ≠ 0 ∧ s.core.protocolServerSenders s.core.nextClientId = none := by
  rw [h.counted.clientId]
  refine ⟨fun hzero => absurd (ofNat_inj hreg (by decide) hzero) (Nat.succ_ne_zero _), ?_⟩
  · by_contra hsome
    obtain ⟨conn, hc⟩ := Option.ne_none_iff_exists'.mp hsome
    obtain ⟨i, r, hr, htask, hid⟩ := h.counted.client conn _ (h.conns.registered _ conn hc)
    have hlt := registrations_take_lt hr htask (lt_of_getElem? hr)
    rw [List.take_length] at hlt
    rw [(h.counted.past i r hr).2] at hid
    have heq := ofNat_inj (by omega) hreg hid
    omega

/-- **The ids that a server takes are fresh until they come round.** -/
theorem Reachable.freshUntil (h : Reachable s) : FreshUntil s.log := by
  refine Lts.Reachable.induct (I := fun s => FreshUntil s.log) (fun i r hr => by cases hr)
    (fun s act s' hs hi hstep => ?_) h
  obtain ⟨hrun, hq | ⟨order, task, tasks, -, rfl⟩⟩ := quiet_or_processed hstep
  · rw [hq.log]
    exact hi
  · intro i r hr
    change (s.log ++ [s.record order task])[i]? = some r at hr
    change (idsTaken ((s.log ++ [s.record order task]).take i) < 2 ^ 32 → _) ∧
      (registrations ((s.log ++ [s.record order task]).take i) + 1 < 2 ^ 32 → _)
    rcases getElem?_concat_iff.mp hr with hr | ⟨rfl, rfl⟩
    · rw [List.take_append_of_le_length (lt_of_getElem? hr).le]
      exact hi i r hr
    · rw [List.take_left]
      exact ⟨fun hids p _ => Reachable.pending_nextMsgId hs hrun hids,
        fun hreg conn _ => Reachable.senders_nextClientId hs hreg⟩

end System

/-- **Ids stay fresh until their counter has come round**: the `i`-th one that `before_send` takes is
fresh in every run exactly if `i < 2 ^ 32`, and those of pending requests and of clients are. -/
theorem ids_stay_fresh (i : ℕ) {s : System} (h : System.Reachable s) :
    ((∀ s', Session.Reachable s' → ∀ c, (Session.takes s'.log)[i]? = some c → c.Fresh) ↔
      i < 2 ^ 32) ∧ System.FreshUntil s.log :=
  ⟨Session.fresh_iff i, h.freshUntil⟩

/-- A client that subscribes, and a server whose first request is accepted. -/
theorem ids_stay_fresh_first :
    (∃ s c, Lts.run Session.step Session.init
        (Session.subscribing 0 Session.served Session.served_valid) = some s ∧
      (Session.takes s.log)[0]? = some c ∧ c.Fresh) ∧
    ∃ s r, Lts.run System.step System.init System.requested = some s ∧ s.log[3]? = some r ∧
      r.accepts = some ⟨1, 1, 2⟩ ∧ r.core.pendingResponses r.core.nextMsgId = none := by
  have hclient : ((Lts.run Session.step Session.init
      (Session.subscribing 0 Session.served Session.served_valid)).map fun s =>
      ((Session.takes s.log)[0]?).isSome) = some true := by decide +kernel
  have hserver : ((Lts.run System.step System.init System.requested).map fun s =>
      (s.log[3]?).map fun r => (r.accepts, idsTaken (s.log.take 3))) =
      some (some (some ⟨1, 1, 2⟩, 1)) := by decide +kernel
  obtain ⟨s, hs, hc⟩ := Option.map_eq_some_iff.mp hclient
  obtain ⟨c, hc⟩ := Option.isSome_iff_exists.mp hc
  obtain ⟨s', hs', he⟩ := Option.map_eq_some_iff.mp hserver
  obtain ⟨r, hr, he⟩ := Option.map_eq_some_iff.mp he
  obtain ⟨hacc, hids⟩ := Prod.mk.inj he
  have hfresh := ids_stay_fresh 0 ⟨_, hs'⟩
  refine ⟨⟨s, c, hs, hc, hfresh.1.mpr (by decide) s ⟨_, hs⟩ c hc⟩, s', r, hs', hr, hacc, ?_⟩
  exact (hfresh.2 3 r hr).1 (by rw [hids]; decide) _ hacc

/-- **The id of a subscription is taken again** when `2 ^ 32 - 1` messages have been sent behind it, and
its callback is overwritten. -/
theorem not_ids_stay_fresh :
    (∃ s, Lts.run Session.step Session.init
        (Session.subscribing 0 Session.served Session.served_valid) = some s ∧
      s.core.callbacksPub 1 = some 0) ∧
    ∃ s, Lts.run Session.step Session.init (Session.lapping 0 (2 ^ 32 - 1)) = some s ∧
      s.core.callbacksPub 1 = some 1 ∧ ∃ c ∈ Session.takes s.log, ¬ c.Fresh := by
  obtain ⟨hfirst, s, hs, hpub, c, hc, hfresh⟩ :=
    Session.run_lapping 0 (show UInt32.ofNat (2 ^ 32 - 1 + 1) = 0 by decide)
  exact ⟨hfirst, s, hs, hpub, c, List.mem_of_getElem? hc, hfresh⟩

end T2Bus
