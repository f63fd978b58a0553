import T2Bus.Client.Completions
import T2Bus.Client.Fanout
import T2Bus.Client.Survival

/-!
# What the tables of the client hold

The callback of an Ack goes when the Ack comes. That of a response goes when the response comes, but
not when the request is refused; that of served requests never goes.

* `Turn.AckFor`, `Turn.EndsReq`: what a key of the tables waits for; `Session.Outstanding`;
* `Turn.Tidy`: the turn neither receives the refusal of a request nor gives up what a claim owns;
  `Turn.KeepsOwners`: nor does a publication, which needs a reused message id;
* **`Session.Reachable.outstanding`**; `Session.not_outstanding`: a request that is refused, and a topic
  that is served for a while.
-/

namespace T2Bus

open Lts (Since)

theorem ClientTask.eq_srv {task : ClientTask} {t : Topic} (h : task.content? = some (.srv ⟨t⟩)) :
    ∃ params, task = .srv params ∧ params.msg.topic = t := by
  cases task with
  | srv params => exact ⟨params, rfl, congrArg SrvMsg.topic (ProtocolClient.srv.inj (Option.some.inj h))⟩
  | _ => cases h

theorem ClientTask.eq_unsrv {task : ClientTask} {t : Topic}
    (h : task.content? = some (.unsrv ⟨t⟩)) : ∃ params, task = .unsrv params ∧ params.msg.topic = t := by
  cases task with
  | unsrv params =>
    exact ⟨params, rfl, congrArg UnsrvMsg.topic (ProtocolClient.unsrv.inj (Option.some.inj h))⟩
  | _ => cases h

namespace Turn

variable (r : Turn) (k : MsgId)

/-- The turn sends a message under `k`. -/
def SendsUnder : Prop := ∃ msg ∈ r.exec.2.sent, msg.id = k

/-- The turn sends a request under `k`. -/
def SendsReq : Prop := ∃ params, ⟨k, .req params⟩ ∈ r.exec.2.sent

/-- The turn receives an Ack for `k`. -/
def AckFor : Prop := ∃ id payload, r.event = .msg ⟨id, .ack payload⟩ ∧ payload.msgId = k

/-- The turn receives the response to `k`, or an Ack that refuses it. -/
def EndsReq : Prop :=
  (∃ id payload, r.event = .msg ⟨id, .rsp payload⟩ ∧ payload.reqId = k) ∨
    ∃ id payload, r.event = .msg ⟨id, .ack payload⟩ ∧ payload.msgId = k ∧ payload.err ≠ none

/-- The turn receives no Ack that refuses a request which waits for its response, and it sends no Unsrv
that takes from a claim the last topic it owns. -/
structure Tidy : Prop where
  acks : ∀ id payload, r.event = .msg ⟨id, .ack payload⟩ → payload.err ≠ none →
    r.core.callbacksRsp payload.msgId = none
  unsrvs : ∀ params, r.event = .task (.unsrv params) →
    ∀ o, r.core.subscriptions.getOwner params.msg.topic = some o →
      ∃ t, t ≠ params.msg.topic ∧ r.core.subscriptions.getOwner t = some o

/-- A publication removes no subscriber that owns a topic. -/
def KeepsOwners : Prop :=
  ∀ id payload, r.event = .msg ⟨id, .pub payload⟩ →
    ∀ k ∈ r.core.subscriptions.getSubscribers payload.topic, r.core.Gone r.env k →
      ∀ t, r.core.subscriptions.getOwner t ≠ some k

variable {r}

theorem event_of_sends {task : ClientTask} (h : r.sends? = some task) (hne : task ≠ .keepAlive) :
    r.event = .task task := by
  rw [sends?] at h
  cases hevent : r.event with
  | task task' =>
    rw [hevent] at h
    cases task' <;> cases h <;> rfl
  | tick =>
    rw [hevent] at h
    cases h
    exact absurd rfl hne
  | msg msg | lost e | closed =>
    rw [hevent] at h
    cases h

end Turn

namespace Session

/-- **The tables hold only outstanding work**: a key of `callbacks_ack` is a message that was sent, and
no Ack for it has come since; a key of `callbacks_rsp` is a request that was sent, and since then neither
a response nor a refusal has come; a key of `callbacks_req` owns a topic. -/
structure Outstanding (s : Session) : Prop where
  acks : ∀ k, (s.core.callbacksAck k).isSome → Since (·.SendsUnder k) (·.AckFor k) s.log
  rsps : ∀ k, (s.core.callbacksRsp k).isSome → Since (·.SendsReq k) (·.EndsReq k) s.log
  reqs : ∀ k, (s.core.callbacksReq k).isSome → ∃ t, s.core.subscriptions.getOwner t = some k

variable {s : Session} {r : Turn} {tasks : List ClientTask}

theorem outstanding_init : init.Outstanding where
  acks k h := by cases h
  rsps k h := by cases h
  reqs k h := by cases h

/-- A task that is sent takes from no claim the last topic it owns. -/
theorem owns_of_sends {task : ClientTask} {msg : Msg ProtocolClient} {k : MsgId}
    (hsends : r.sends? = some task) (hb : r.core.beforeSend task = (.ok msg, r.exec.2.core))
    (htidy : r.Tidy) (h : ∃ t, r.core.subscriptions.getOwner t = some k) :
    ∃ t, r.exec.2.core.subscriptions.getOwner t = some k := by
  obtain ⟨hs, hcontent⟩ := ClientCore.sends_of_beforeSend hb
  obtain ⟨t, ht⟩ := h
  by_cases hunsrv : msg.content = .unsrv ⟨t⟩
  · -- the claim owns another topic
    rw [hunsrv] at hcontent
    obtain ⟨params, rfl, rfl⟩ := ClientTask.eq_unsrv hcontent
    obtain ⟨u, hne, hu⟩ := htidy.unsrvs params (Turn.event_of_sends hsends (by simp)) k ht
    refine ⟨u, ?_⟩
    have hne' : ProtocolClient.unsrv ⟨params.msg.topic⟩ ≠ .unsrv ⟨u⟩ := by
      simpa using hne.symm
    rw [hs.owner, hunsrv, if_neg (by simp), if_neg hne']
    exact hu
  · refine ⟨t, ?_⟩
    rw [hs.owner, if_neg hunsrv]
    split_ifs with hsrv
    · -- a claim of the topic succeeds only for the claim that owns it
      rw [hsrv] at hcontent
      obtain ⟨params, rfl, rfl⟩ := ClientTask.eq_srv hcontent
      have hne : ClientTask.srv params ≠ .stop := by simp
      have hok := (ClientCore.beforeSend_ok_iff hne).mp ⟨msg, congrArg Prod.fst hb⟩
      rcases hok.1.2 with hnone | hown
      · rw [ht] at hnone
        cases hnone
      · rw [ht] at hown
        rw [hs.id, hown]
    · exact ht

/-- A task that is sent enters its own callbacks, and an Unsrv takes a topic from its owner. -/
theorem Outstanding.sends (hi : s.Outstanding) {task : ClientTask} {msg : Msg ProtocolClient}
    (hcore : r.core = s.core) (hsends : r.sends? = some task)
    (hb : r.core.beforeSend task = (.ok msg, r.exec.2.core)) (hsent : r.exec.2.sent = [msg])
    (htidy : r.Tidy) : (s.turned tasks r).Outstanding := by
  obtain ⟨hs, hcontent⟩ := ClientCore.sends_of_beforeSend hb
  have hevent : ∀ msg, r.event ≠ .msg msg := by
    intro msg he
    rw [Turn.sends?, he] at hsends
    cases hsends
  have hmem : ∀ {m}, m = msg → m ∈ r.exec.2.sent := by
    rintro m rfl
    rw [hsent]
    exact List.mem_singleton_self _
  refine ⟨fun k hk => ?_, fun k hk => ?_, fun k hk => ?_⟩
  · have henter := r.core.callbacks_beforeSend task .ack
    rw [hb] at henter
    obtain ⟨n, hn⟩ := Option.isSome_iff_exists.mp hk
    replace hn : r.exec.2.core.callbacksAck k = some n := hn
    rw [show r.exec.2.core.callbacksAck = _ from henter] at hn
    rcases Table.enter_eq_some hn with ⟨rfl, -⟩ | hold
    · exact Lts.since_of_last ⟨msg, hmem rfl, hs.id⟩
    · rw [hcore] at hold
      refine (hi.acks k (Option.isSome_of_mem hold)).concat ?_
      rintro ⟨id, payload, he, -⟩
      exact hevent _ he
  · rcases (hs.callbacksRsp k).mp hk with hold | ⟨rfl, params, hreq⟩
    · rw [hcore] at hold
      refine (hi.rsps k hold).concat ?_
      rintro (⟨id, payload, he, -⟩ | ⟨id, payload, he, -⟩) <;> exact hevent _ he
    · exact Lts.since_of_last ⟨params, hmem (by rw [← hreq])⟩
  · change ∃ t, r.exec.2.core.subscriptions.getOwner t = some k
    rcases (hs.callbacksReq k).mp hk with hold | ⟨rfl, params, hsrv⟩
    · rw [hcore] at hold
      exact owns_of_sends hsends hb htidy (by rw [hcore]; exact hi.reqs k hold)
    · refine ⟨params.topic, ?_⟩
      rw [hs.owner, if_pos hsrv]

/-- A publication touches no callback but those of subscriptions, and takes a topic only from a
subscriber whose receiver is gone. -/
theorem pubLoop_keeps {env : ClientEnv} {payload : PubMsg} {ids : List MsgId} {core : ClientCore}
    {s' : ClientExec} (h : ClientExec.pubLoop env payload ids (.start core) = (.ok (), s')) :
    s'.core.callbacksAck = core.callbacksAck ∧ s'.core.callbacksRsp = core.callbacksRsp ∧
      s'.core.callbacksReq = core.callbacksReq ∧
      ∀ k, (k ∈ ids → ¬ core.Gone env k) → ∀ t, core.subscriptions.getOwner t = some k →
        s'.core.subscriptions.getOwner t = some k := by
  refine (ClientExec.pubLoop_induct (P := fun s => (∀ k c, s.core.callbacksPub k = some c →
    core.callbacksPub k = some c) ∧ s.core.callbacksAck = core.callbacksAck ∧
    s.core.callbacksRsp = core.callbacksRsp ∧ s.core.callbacksReq = core.callbacksReq ∧
    ∀ k, (k ∈ ids → ¬ core.Gone env k) → ∀ t, core.subscriptions.getOwner t = some k →
      s.core.subscriptions.getOwner t = some k) (fun s c h => h)
    (fun s s' k callback hk hc ho hcl h => ?_) h
    ⟨fun _ _ h => h, rfl, rfl, rfl, fun _ _ _ h => h⟩).2
  obtain ⟨hpub, hack, hrsp, hreq, howner⟩ := h
  refine ClientExec.unsubscribeAll_induct (P := fun s => (∀ k c, s.core.callbacksPub k = some c →
    core.callbacksPub k = some c) ∧ s.core.callbacksAck = core.callbacksAck ∧
    s.core.callbacksRsp = core.callbacksRsp ∧ s.core.callbacksReq = core.callbacksReq ∧
    ∀ k, (k ∈ ids → ¬ core.Gone env k) → ∀ t, core.subscriptions.getOwner t = some k →
      s.core.subscriptions.getOwner t = some k) (fun s t _ h => h) hcl
    ⟨fun k' c hc' => ?_, hack, hrsp, hreq, fun k' hk' t ht => ?_⟩
  · rw [ClientExec.forget_callbacksPub] at hc'
    exact hpub k' c (Table.remove_eq_some.mp hc').2
  · -- the subscriber that is removed is not the owner
    have hne : k' ≠ k := by
      rintro rfl
      exact hk' hk ⟨callback, hpub k' callback hc, ho⟩
    have hold := howner k' hk' t ht
    rw [ClientExec.forget_subscriptions, Directory.getOwner_dropClient, hold,
      if_neg (fun e => hne (Option.some.inj e))]

/-- A message that is received takes the callback it is for, and no served topic. -/
theorem receives_tables {msg : Msg ProtocolServer} (hevent : r.event = .msg msg)
    (hrecv : ClientExec.afterReceive r.env msg (.start r.core) = (.ok (), r.exec.2))
    (hkeeps : r.KeepsOwners) :
    (∀ k, (r.exec.2.core.callbacksAck k).isSome → (r.core.callbacksAck k).isSome ∧ ¬ r.AckFor k) ∧
    (∀ k, (r.exec.2.core.callbacksRsp k).isSome → (r.core.callbacksRsp k).isSome ∧
      ∀ id payload, r.event = .msg ⟨id, .rsp payload⟩ → payload.reqId ≠ k) ∧
    r.exec.2.core.callbacksReq = r.core.callbacksReq ∧
    ∀ k t, r.core.subscriptions.getOwner t = some k →
      r.exec.2.core.subscriptions.getOwner t = some k := by
  have hcallbacks := ClientExec.callbacks_afterReceive r.env msg (.start r.core)
  rw [hrecv] at hcallbacks
  refine ⟨fun k hk => ?_, fun k hk => ?_, ?_⟩
  · obtain ⟨n, hn⟩ := Option.isSome_iff_exists.mp hk
    refine ⟨Option.isSome_of_mem (hcallbacks .ack k n hn), ?_⟩
    rintro ⟨id, payload, he, rfl⟩
    rw [Turn.callbacksAck_ack he, Table.remove_self] at hn
    cases hn
  · obtain ⟨n, hn⟩ := Option.isSome_iff_exists.mp hk
    refine ⟨Option.isSome_of_mem (hcallbacks .rsp k n hn), ?_⟩
    rintro id payload he rfl
    cases hevent.symm.trans he
    rcases ClientExec.afterReceive_ok hrecv with ⟨-, -, hno⟩ | ⟨-, payload', hrsp, hremove⟩ |
      ⟨payload', hpub, -⟩
    · exact hno payload rfl
    · cases hrsp
      rw [hremove] at hn
      exact absurd hn (by simp)
    · cases hpub
  · rcases ClientExec.afterReceive_ok hrecv with ⟨-, ⟨acks, hcore⟩, -⟩ | ⟨-, payload, -, hcore⟩ |
      ⟨payload, hpub, hloop⟩
    · rw [hcore]
      exact ⟨rfl, fun _ _ h => h⟩
    · rw [hcore]
      exact ⟨rfl, fun _ _ h => h⟩
    · obtain ⟨-, -, hreq, howner⟩ := pubLoop_keeps hloop
      refine ⟨hreq, fun k t ht => howner k (fun hk hgone => ?_) t ht⟩
      obtain ⟨id, content⟩ := msg
      obtain rfl : content = .pub payload := hpub
      exact hkeeps id payload hevent k ((r.env.order.perm _).mem_iff.mp hk) hgone t ht

/-- A message that is received leaves only what is still waited for. -/
theorem Outstanding.receives (hi : s.Outstanding) {msg : Msg ProtocolServer} (hcore : r.core = s.core)
    (hevent : r.event = .msg msg)
    (hrecv : ClientExec.afterReceive r.env msg (.start r.core) = (.ok (), r.exec.2))
    (htidy : r.Tidy) (hkeeps : r.KeepsOwners) : (s.turned tasks r).Outstanding := by
  obtain ⟨hack, hrsp, hreq, howner⟩ := receives_tables hevent hrecv hkeeps
  refine ⟨fun k hk => ?_, fun k hk => ?_, fun k hk => ?_⟩
  · obtain ⟨hold, hnot⟩ := hack k hk
    exact (hi.acks k (hcore ▸ hold)).concat hnot
  · obtain ⟨hold, hnot⟩ := hrsp k hk
    refine (hi.rsps k (hcore ▸ hold)).concat ?_
    rintro (⟨id, payload, he, hid⟩ | ⟨id, payload, he, rfl, herr⟩)
    · exact hnot id payload he hid
    · rw [htidy.acks id payload he herr] at hold
      cases hold
  · replace hk : (r.exec.2.core.callbacksReq k).isSome := hk
    rw [hreq, hcore] at hk
    obtain ⟨t, ht⟩ := hi.reqs k hk
    exact ⟨t, howner k t (by rw [hcore]; exact ht)⟩

/-! ## Runs -/

/-- As long as no message id is used twice, a local subscriber owns no topic. -/
theorem Reachable.keepsOwners (h : Reachable s) (hlen : s.sent.length < 2 ^ 32) :
    ∀ r ∈ s.log, r.KeepsOwners := by
  intro r hr id payload hevent k hk hgone t
  obtain ⟨s₀, h₀⟩ := h.at_mem hr
  obtain ⟨c, hc, -⟩ := hgone
  rw [h₀.core] at hc ⊢
  have hlen₀ : s₀.sent.length < 2 ^ 32 := (sent_length_run h₀.later).trans_lt hlen
  obtain ⟨u, hu⟩ := (h₀.reachable.keyed h₀.running k).mp (Option.isSome_of_mem hc)
  exact (h₀.reachable.tables h₀.running).not_owner_of_subscribed hlen₀ hu

/-- The tables hold only outstanding work as long as every turn is tidy and keeps the owners. -/
theorem Reachable.outstanding_of_keepsOwners (h : Reachable s) : s.status = .running →
    (∀ r ∈ s.log, r.Tidy ∧ r.KeepsOwners) → s.Outstanding := by
  refine Lts.Reachable.induct (I := fun s => s.status = .running →
    (∀ r ∈ s.log, r.Tidy ∧ r.KeepsOwners) → s.Outstanding) (fun _ _ => outstanding_init)
    (fun s act s' _ hi hstep hrun' hlog => ?_) h
  obtain ⟨hrun, hq | ⟨event, order, transport, tasks, -, -, rfl⟩⟩ := quiet_or_turned hstep
  · rw [hq.log] at hlog
    have hs := hi hrun hlog
    refine ⟨fun k hk => ?_, fun k hk => ?_, fun k hk => ?_⟩
    · rw [hq.log]
      exact hs.acks k (hq.core ▸ hk)
    · rw [hq.log]
      exact hs.rsps k (hq.core ▸ hk)
    · rw [hq.core]
      exact hs.reqs k (hq.core ▸ hk)
  · obtain ⟨hold, hnew⟩ := List.forall_mem_append.mp hlog
    obtain ⟨htidy, hkeeps⟩ := List.forall_mem_singleton.mp hnew
    have hs := hi hrun hold
    rcases Turn.exec_ok (turned_running.mp hrun') with ⟨task, msg, hsends, hb, hsent⟩ |
      ⟨msg, hevent, hrecv⟩
    · exact hs.sends rfl hsends hb hsent htidy
    · exact hs.receives rfl hevent hrecv htidy hkeeps

/-- **The tables of the client hold only outstanding work** in every run without the refusal of a request
that waits for its response, and without an Unsrv that takes from a claim the last topic it owns. From
`2 ^ 32` messages on, no publication may remove a subscriber that owns a topic. -/
theorem Reachable.outstanding (h : Reachable s) (hrun : s.status = .running)
    (htidy : ∀ r ∈ s.log, r.Tidy)
    (hlong : 2 ^ 32 ≤ s.sent.length → ∀ r ∈ s.log, r.KeepsOwners) : s.Outstanding := by
  refine h.outstanding_of_keepsOwners hrun fun r hr => ⟨htidy r hr, ?_⟩
  by_cases hlen : 2 ^ 32 ≤ s.sent.length
  · exact hlong hlen r hr
  · exact h.keepsOwners (Nat.lt_of_not_le hlen) r hr

/-! ## A request that is refused, and a topic that is served for a while -/

/-- The transport hands over a message. -/
def receiving (msg : Msg ProtocolServer) (valid : (Event.msg msg).Valid) : Act :=
  .turn (.msg msg) valid .given fun _ => .ok ()

/-- A request gets an Ack, and a path is served. -/
def requestedAndServed : List Act :=
  [.request ⟨served, ⟨[], false⟩⟩ served_valid, sending (.req ⟨⟨served, ⟨[], false⟩⟩, 0, 0⟩),
    receiving ⟨0, .ack ⟨1, none, none⟩⟩ trivial, .serve served served_valid,
    sending (.srv ⟨⟨served⟩, 1, 1⟩)]

/-- Nobody serves the topic of a request. -/
def requestRefused : List Act :=
  [.request ⟨served, ⟨[], false⟩⟩ served_valid, sending (.req ⟨⟨served, ⟨[], false⟩⟩, 0, 0⟩),
    receiving ⟨0, .ack ⟨1, some (.serviceNotFound served), none⟩⟩ trivial]

theorem outstanding_requestedAndServed : ∃ s, Lts.run step init requestedAndServed = some s ∧
    (s.core.callbacksRsp 1).isSome ∧ (s.core.callbacksReq 2).isSome ∧ s.Outstanding := by
  have hrun : (Lts.run step init requestedAndServed).map (fun s =>
      (s.status, s.log.map Turn.event, s.sent.length, s.core.callbacksRsp 1, s.core.callbacksReq 2)) =
      some (.running, [.task (.req ⟨⟨served, ⟨[], false⟩⟩, 0, 0⟩), .msg ⟨0, .ack ⟨1, none, none⟩⟩,
        .task (.srv ⟨⟨served⟩, 1, 1⟩)], 2, some 0, some 1) := rfl
  obtain ⟨s, hs, he⟩ := Option.map_eq_some_iff.mp hrun
  obtain ⟨hstatus, hlog, hlen, hrsp, hreq⟩ := by simpa only [Prod.mk.injEq] using he
  refine ⟨s, hs, Option.isSome_of_mem hrsp, Option.isSome_of_mem hreq,
    Reachable.outstanding ⟨_, hs⟩ hstatus (fun r hr => ?_) fun hlong => ?_⟩
  · have hevent := hlog ▸ List.mem_map_of_mem (f := Turn.event) hr
    simp only [List.mem_cons, List.not_mem_nil, or_false] at hevent
    refine ⟨fun id payload h herr => ?_, fun params h => ?_⟩
    · rw [h] at hevent
      simp at hevent
      exact absurd (hevent.2 ▸ rfl) herr
    · rw [h] at hevent
      simp at hevent
  · rw [hlen] at hlong
    exact absurd hlong (by decide)

/-- The callback of a refused request stays, and so does that of a path that is no longer served. -/
theorem not_outstanding :
    (∃ s, Lts.run step init requestRefused = some s ∧ s.status = .running ∧ ¬ s.Outstanding) ∧
      ∃ s, Lts.run step init servedOnce = some s ∧ s.status = .running ∧ ¬ s.Outstanding := by
  constructor
  · have hrun : (Lts.run step init requestRefused).map (fun s =>
        (s.status, s.core.callbacksRsp 1, s.log.getLast?.map fun r => (r.event, r.exec.2.sent))) =
        some (.running, some 0,
          some (.msg ⟨0, .ack ⟨1, some (.serviceNotFound served), none⟩⟩, [])) := rfl
    obtain ⟨s, hs, he⟩ := Option.map_eq_some_iff.mp hrun
    obtain ⟨hstatus, hrsp, hlast⟩ := by simpa only [Prod.mk.injEq] using he
    obtain ⟨r, hr, he⟩ := Option.map_eq_some_iff.mp hlast
    obtain ⟨hevent, hsent⟩ := Prod.mk.inj he
    obtain ⟨log, hlog⟩ := List.getLast?_eq_some_iff.mp hr
    refine ⟨s, hs, hstatus, fun h => ?_⟩
    have hsince := h.rsps 1 (Option.isSome_of_mem hrsp)
    rw [hlog] at hsince
    obtain ⟨params, hm⟩ := hsince.last (Or.inr ⟨_, _, hevent, rfl, by simp⟩)
    rw [hsent] at hm
    cases hm
  · have hrun : (Lts.run step init servedOnce).map (fun s =>
        (s.status, s.core.callbacksReq 1, s.core.subscriptions)) =
        some (.running, some 0,
          (((Directory.new.claim 1 served).2).unclaim 1 served).2) := rfl
    obtain ⟨s, hs, he⟩ := Option.map_eq_some_iff.mp hrun
    obtain ⟨hstatus, hreq, hsubs⟩ := by simpa only [Prod.mk.injEq] using he
    refine ⟨s, hs, hstatus, fun h => ?_⟩
    obtain ⟨t, ht⟩ := h.reqs 1 (Option.isSome_of_mem hreq)
    have hclaim : (Directory.new.claim 1 served).1 = .ok () := by decide
    have howner : (Directory.new.claim 1 served).2.getOwner served = some 1 := by
      rw [Directory.getOwner_claim hclaim, if_pos rfl]
    rw [hsubs, Directory.getOwner_unclaim howner, Directory.getOwner_claim hclaim,
      Directory.getOwner_new] at ht
    split_ifs at ht

end Session

end T2Bus
