import T2Bus.Server.Departed

/-!
# Who serves a topic

A topic is served by the client whose granted Srv has been followed by neither its own Unsrv nor its
deregistration. The log says so; the directory agrees, and so do the Acks and the routing of
requests.

* `Core.getOwner_deliverAll`, `Core.getOwner_own`, `Core.getOwner_processTask`: the owner of a topic
  after a task;
* `Record.Grants`, `Record.Releases`, `ServedBy`: the serving client, by the log;
* `System.Reachable.getOwner_iff`: the directory agrees;
* `Exclusive`, **`System.exclusive`**.
-/

namespace T2Bus

namespace Core

variable {core : Core} {env : Env} {task : Task} {stop : Bool} {c d : ClientId} {t : Topic}

/-! ## The owner after a task -/

/-- A Srv of the client would be granted. -/
def Claimable (core : Core) (c : ClientId) (t : Topic) : Prop :=
  ¬ t.hasWildcard ∧ (core.directory.getOwner t = none ∨ core.directory.getOwner t = some c)

theorem getOwner_afterDeliver :
    (core.afterDeliver env d).directory.getOwner t = some c ↔
      core.directory.getOwner t = some c ∧ ¬ core.Drops env [d] c := by
  rw [afterDeliver, Drops, List.mem_singleton]
  by_cases hd : core.Closed env d
  · rw [if_pos hd]
    change ((core.directory.dropClient d).2).getOwner t = some c ↔ _
    rw [Directory.getOwner_dropClient]
    split_ifs with ho
    · rw [ho]
      refine iff_of_false (by simp) ?_
      rintro ⟨he, hno⟩
      cases he
      exact hno ⟨rfl, hd⟩
    · refine (and_iff_left_of_imp fun h hdrop => ho ?_).symm
      rw [h, hdrop.1]
  · rw [if_neg hd]
    exact (and_iff_left fun (h : c = d ∧ core.Closed env c) => hd (h.1 ▸ h.2)).symm

theorem getOwner_deliverAll (ids : List ClientId) :
    (core.deliverAll env ids).directory.getOwner t = some c ↔
      core.directory.getOwner t = some c ∧ ¬ core.Drops env ids c := by
  induction ids generalizing core with
  | nil => simp [deliverAll]
  | cons d ids ih =>
    rw [deliverAll_cons, ih, getOwner_afterDeliver, drops_cons d ids c]
    tauto

/-- A Srv that is granted makes its sender the owner; an Unsrv frees what its sender owns. -/
theorem getOwner_own (msg : Msg ProtocolClient) :
    (core.own env d msg).directory.getOwner t = some c ↔
      c = d ∧ msg.content = .srv ⟨t⟩ ∧ core.Claimable c t ∨
        core.directory.getOwner t = some c ∧ ¬ (c = d ∧ msg.content = .unsrv ⟨t⟩) := by
  obtain ⟨id, content⟩ := msg
  cases content with
  | srv params =>
    obtain ⟨u⟩ := params
    change (core.directory.claim d u).2.getOwner t = some c ↔ _
    rw [Directory.getOwner_claim_iff, Directory.claim_ok_iff]
    simp only [ProtocolClient.srv.injEq, SrvMsg.mk.injEq, reduceCtorEq, and_false, not_false_eq_true,
      and_true]
    refine or_congr_left (and_congr_right ?_)
    rintro rfl
    exact ⟨fun h => ⟨h.1.symm, h.1 ▸ h.2⟩, fun h => ⟨h.1.symm, h.1 ▸ h.2⟩⟩
  | unsrv params =>
    obtain ⟨u⟩ := params
    change (core.directory.unclaim d u).2.getOwner t = some c ↔ _
    rw [Directory.getOwner_unclaim_iff]
    simp only [reduceCtorEq, false_and, and_false, false_or, ProtocolClient.unsrv.injEq,
      UnsrvMsg.mk.injEq, eq_comm (a := t)]
  | sub params => simp [own, Directory.getOwner_subscribe]
  | unsub params => simp [own, Directory.getOwner_unsubscribe]
  | req params =>
    simp only [own]
    split <;> simp
  | rsp params =>
    simp only [own]
    split <;> simp
  | pub params | stop | keepAlive => simp [own]

variable (core task) in
/-- The owner with a granted Srv and without the owner's own Unsrv. -/
def SettledOwner (c : ClientId) (t : Topic) : Prop :=
  (∃ id, task = .message c ⟨id, .srv ⟨t⟩⟩) ∧ core.Claimable c t ∨
    core.directory.getOwner t = some c ∧ ¬ ∃ id, task = .message c ⟨id, .unsrv ⟨t⟩⟩

/-- **The owner of a topic after a task**: the one it settles, unless the task deregisters it. -/
theorem getOwner_processTask (h : (Exec.processTask env task (.start core)).1 = .ok stop) :
    (Exec.processTask env task (.start core)).2.core.directory.getOwner t = some c ↔
      core.SettledOwner task c t ∧ ¬ core.Departs env task c := by
  rw [Exec.processTask_core h, getOwner_deliverAll]
  cases task with
  | register conn => simp [ownTask, SettledOwner, Departs]
  | deregister d =>
    simp only [ownTask, recipients_deregister, not_drops_nil, not_false_eq_true, and_true,
      SettledOwner, reduceCtorEq, exists_false, false_and, false_or, Departs,
      Task.deregister.injEq, or_false]
    change ((core.directory.dropClient d).2).getOwner t = some c ↔ _
    rw [Directory.getOwner_dropClient]
    split_ifs with ho
    · rw [ho]
      simp
    · refine (and_iff_left_of_imp fun h he => ho ?_).symm
      rw [h, he]
  | message d msg =>
    have hsettled : core.SettledOwner (.message d msg) c t ↔
        (core.own env d msg).directory.getOwner t = some c := by
      rw [getOwner_own, SettledOwner]
      obtain ⟨id, content⟩ := msg
      simp [@eq_comm _ d, and_assoc]
    rw [hsettled]
    simp [ownTask, Departs, Drops, Closed, own_senders]
  | requestTimeout k =>
    have hsettled : core.SettledOwner (.requestTimeout k) c t ↔
        (core.own env 0 ⟨0, .rsp (Exec.timeoutRsp k)⟩).directory.getOwner t = some c := by
      rw [getOwner_own]
      simp [SettledOwner]
    rw [hsettled]
    simp [ownTask, Departs, Drops, Closed, own_senders]

end Core

/-! ## Srv and Req -/

namespace Exec

variable {env : Env} {core : Core} {c : ClientId} {id : MsgId}

variable (env core c id) in
theorem acks_srv (params : SrvMsg) :
    acks (processTask env (.message c ⟨id, .srv params⟩) (.start core)).2.out c =
      [.of id ((core.directory.claim c params.topic).1.map fun _ => none)] :=
  acks_message (noCount_fst _)

variable (env core c id) in
/-- **What a request puts out**: the request to the owner, if there is one, and the Ack. -/
theorem out_req (params : ReqMsg) :
    (processTask env (.message c ⟨id, .req params⟩) (.start core)).2.out =
      match core.directory.getOwner params.topic with
      | some o =>
        [⟨o, ⟨core.nextMsgId, .req params⟩, core.reach env o⟩,
          ⟨c, ⟨core.nextMsgId + 1, .ack (.of id ((core.deliverResult env o).map fun _ => none))⟩,
            core.reach env c⟩]
      | none =>
        [⟨c, ⟨core.nextMsgId, .ack (.of id (.error (.serviceNotFound params.topic)))⟩,
          core.reach env c⟩] := by
  have hfst := request_fst env c (.start core) id params
  have hres : (processContent env c ⟨id, .req params⟩ (.start core)).1 =
      (((request env c id params (.start core)).1.map fun _ => none :
        BusResult (Option ℕ))).mapError .err := noCount_fst _
  change _ = (match core.directory.getOwner params.topic with
    | some o => (core.deliverResult env o).map fun _ => ()
    | none => .error (.serviceNotFound params.topic)) at hfst
  rw [processTask, processMsg_eq hres, hfst]
  simp only [deliverList, withOwn, Exec.start, List.nil_append, Core.sends]
  cases core.directory.getOwner params.topic with
  | none =>
    simp [Core.deliveries, Core.own_nextMsgId, Core.own_reach, Except.map]
  | some o =>
    have hmap : ((core.deliverResult env o).map fun _ => ()).map (fun _ => (none : Option ℕ)) =
        (core.deliverResult env o).map fun _ => none := by
      cases core.deliverResult env o <;> rfl
    simp [Core.deliveries, Core.own_nextMsgId, Core.own_reach, Core.reach_afterDeliver, hmap]

end Exec

def ProtocolServer.isReq : ProtocolServer → Bool
  | .req _ => true
  | .pub _ | .rsp _ | .ack _ => false

/-- The requests that were put into a channel. -/
def requestsIn (out : List Delivery) : List Delivery :=
  out.filter fun d => d.conn.isSome && d.msg.content.isReq

/-! ## The log -/

namespace Record

variable (r : Record)

/-- The task is a Srv that is acknowledged without an error. -/
def Grants (c : ClientId) (t : Topic) : Prop :=
  ∃ id, r.task = .message c ⟨id, .srv ⟨t⟩⟩ ∧ ∃ a, acks r.exec.2.out c = [a] ∧ a.err = none

def Releases (c : ClientId) (t : Topic) : Prop := ∃ id, r.task = .message c ⟨id, .unsrv ⟨t⟩⟩

/-- The client is deregistered by its Deregister task or by a failed delivery. -/
def Deregisters (c : ClientId) : Prop := r.core.Departs r.env r.task c

variable {r}

theorem err_of_srv {c : ClientId} {t : Topic} {id : MsgId}
    (ht : r.task = .message c ⟨id, .srv ⟨t⟩⟩) :
    ∃ a, acks r.exec.2.out c = [a] ∧ (a.err = none ↔ r.core.Claimable c t) := by
  have hacks := Exec.acks_srv r.env r.core c id ⟨t⟩
  rw [exec, ht, hacks]
  refine ⟨_, rfl, ?_⟩
  rw [Core.Claimable, ← Directory.claim_ok_iff]
  cases (r.core.directory.claim c t).1 with
  | ok u => exact iff_of_true rfl rfl
  | error e => simp [Except.map, AckMsg.of]

theorem grants_iff {c : ClientId} {t : Topic} :
    r.Grants c t ↔ (∃ id, r.task = .message c ⟨id, .srv ⟨t⟩⟩) ∧ r.core.Claimable c t := by
  constructor
  · rintro ⟨id, ht, a, ha, herr⟩
    obtain ⟨a', ha', hiff⟩ := err_of_srv ht
    cases ha.symm.trans ha'
    exact ⟨⟨id, ht⟩, hiff.mp herr⟩
  · rintro ⟨⟨id, ht⟩, hclaim⟩
    obtain ⟨a, ha, hiff⟩ := err_of_srv ht
    exact ⟨id, ht, a, ha, hiff.mpr hclaim⟩

end Record

/-- **The client serves the topic**: a Srv of it was granted, and since then it has neither released
the topic nor been deregistered. -/
def ServedBy (log : List Record) (t : Topic) (c : ClientId) : Prop :=
  ∃ (i : ℕ) (r : Record), log[i]? = some r ∧ r.Grants c t ∧ ¬ r.Deregisters c ∧
    ∀ (j : ℕ) (r' : Record), i < j → log[j]? = some r' → ¬ r'.Releases c t ∧ ¬ r'.Deregisters c

theorem servedBy_concat {log : List Record} {r : Record} {t : Topic} {c : ClientId} :
    ServedBy (log ++ [r]) t c ↔
      (r.Grants c t ∨ ServedBy log t c ∧ ¬ r.Releases c t) ∧ ¬ r.Deregisters c := by
  constructor
  · rintro ⟨i, r₀, hi, hg, hd, hsince⟩
    rcases getElem?_concat_iff.mp hi with hi | ⟨rfl, rfl⟩
    · have hlast := hsince log.length r (lt_of_getElem? hi) (getElem?_concat_iff.mpr (.inr ⟨rfl, rfl⟩))
      refine ⟨.inr ⟨⟨i, r₀, hi, hg, hd, fun j r' hij hj => ?_⟩, hlast.1⟩, hlast.2⟩
      exact hsince j r' hij (getElem?_concat_iff.mpr (.inl hj))
    · exact ⟨.inl hg, hd⟩
  · rintro ⟨hg | ⟨⟨i, r₀, hi, hg, hd, hsince⟩, hrel⟩, hdereg⟩
    · refine ⟨log.length, r, getElem?_concat_iff.mpr (.inr ⟨rfl, rfl⟩), hg, hdereg,
        fun j r' hij hj => ?_⟩
      have hlt := lt_of_getElem? hj
      rw [List.length_append, List.length_singleton] at hlt
      omega
    · refine ⟨i, r₀, getElem?_concat_iff.mpr (.inl hi), hg, hd, fun j r' hij hj => ?_⟩
      rcases getElem?_concat_iff.mp hj with hj | ⟨-, rfl⟩
      · exact hsince j r' hij hj
      · exact ⟨hrel, hdereg⟩

namespace System

variable {s : System}

/-- **The directory agrees with the log on who serves a topic.** -/
theorem Reachable.getOwner_iff (h : Reachable s) : s.status = .running →
    ∀ t c, s.core.directory.getOwner t = some c ↔ ServedBy s.log t c := by
  refine Lts.Reachable.induct (I := fun s => s.status = .running →
    ∀ t c, s.core.directory.getOwner t = some c ↔ ServedBy s.log t c)
    (fun _ t c => ?_) (fun s act s' hs hi hstep hrun t c => ?_) h
  · refine iff_of_false (fun ho => ?_) ?_
    · change (Directory.new.subscribe 0 killTopic).getOwner t = some c at ho
      rw [Directory.getOwner_subscribe, Directory.getOwner_new] at ho
      cases ho
    · rintro ⟨i, r, hi, -⟩
      cases hi
  · obtain ⟨hrun', hq | ⟨order, task, tasks, -, rfl⟩⟩ := quiet_or_processed hstep
    · rw [hq.core, hq.log]
      exact hi hrun' t c
    · have hok : (s.record order task).exec.1 = .ok false := status_of_eq_running hrun
      refine (Core.getOwner_processTask hok).trans ?_
      rw [processed, servedBy_concat, Record.grants_iff, ← hi hrun' t c]
      rfl

end System

/-! ## Exclusive serving -/

/-- How the next task, recorded as `r`, treats the client that serves a topic. -/
structure Exclusive (s : System) (r : Record) : Prop where
  unique : ∀ t c d, ServedBy s.log t c → ServedBy s.log t d → c = d
  srv : ∀ c id t, r.task = .message c ⟨id, .srv ⟨t⟩⟩ →
    ∃ a, acks r.exec.2.out c = [a] ∧
      (a.err = none ↔ ¬ t.hasWildcard ∧ ∀ d, ServedBy s.log t d → d = c)
  req : ∀ c id t payload, r.task = .message c ⟨id, .req ⟨t, payload⟩⟩ →
    ∃ a, acks r.exec.2.out c = [a] ∧
      (∀ o conn, ServedBy s.log t o → r.core.reach r.env o = some conn →
        a.err = none ∧ ∃ k, requestsIn r.exec.2.out = [⟨o, ⟨k, .req ⟨t, payload⟩⟩, some conn⟩]) ∧
      (∀ o, ServedBy s.log t o → r.core.reach r.env o = none →
        a.err ≠ none ∧ requestsIn r.exec.2.out = []) ∧
      ((∀ o, ¬ ServedBy s.log t o) →
        a.err = some (.serviceNotFound t) ∧ requestsIn r.exec.2.out = [])
  /-- Nothing but a Srv on the topic, the serving client's Unsrv and its deregistration changes who
  serves it. -/
  other : ∀ t stop, r.exec.1 = .ok stop → (∀ c id, r.task ≠ .message c ⟨id, .srv ⟨t⟩⟩) →
    (∀ c id, r.task = .message c ⟨id, .unsrv ⟨t⟩⟩ → ¬ ServedBy s.log t c) →
      ∀ c, r.exec.2.core.directory.getOwner t = some c ↔
        ServedBy s.log t c ∧ ¬ r.Deregisters c

namespace Record

variable {r : Record} {c : ClientId} {t : Topic} {payload : Payload} {id : MsgId}

theorem req_unserved (ht : r.task = .message c ⟨id, .req ⟨t, payload⟩⟩)
    (ho : r.core.directory.getOwner t = none) :
    (∃ a, acks r.exec.2.out c = [a] ∧ a.err = some (.serviceNotFound t)) ∧
      requestsIn r.exec.2.out = [] := by
  have hout := Exec.out_req r.env r.core c id ⟨t, payload⟩
  simp only [exec, ht, hout, ho]
  simp [acks, AckMsg.of, requestsIn, ProtocolServer.isReq]

theorem req_served {o : ClientId} (ht : r.task = .message c ⟨id, .req ⟨t, payload⟩⟩)
    (ho : r.core.directory.getOwner t = some o) :
    ∃ a, acks r.exec.2.out c = [a] ∧
      (∀ conn, r.core.reach r.env o = some conn → a.err = none ∧
        requestsIn r.exec.2.out = [⟨o, ⟨r.core.nextMsgId, .req ⟨t, payload⟩⟩, some conn⟩]) ∧
      (r.core.reach r.env o = none → a.err ≠ none ∧ requestsIn r.exec.2.out = []) := by
  have hout := Exec.out_req r.env r.core c id ⟨t, payload⟩
  simp only [exec, ht, hout, ho]
  refine ⟨.of id ((r.core.deliverResult r.env o).map fun _ => none), by simp [acks],
    fun conn hr => ?_, fun hr => ?_⟩
  · rw [Exec.deliverResult_ok hr, hr]
    simp [AckMsg.of, Except.map, requestsIn, ProtocolServer.isReq]
  · obtain ⟨e, he⟩ := Exec.deliverResult_error hr
    rw [he, hr]
    simp [AckMsg.of, Except.map, requestsIn, ProtocolServer.isReq]

end Record

namespace System

variable {s : System}

/-- **Exclusive serving**: in every state of a running server, whatever the next task. -/
theorem exclusive (h : Reachable s) (hrun : s.status = .running) (task : Task) (order : Order) :
    Exclusive s (s.record order task) where
  unique t c d hc hd := by
    have hiff := h.getOwner_iff hrun t
    exact Option.some.inj (((hiff c).mpr hc).symm.trans ((hiff d).mpr hd))
  srv c id t htask := by
    obtain ⟨a, ha, hiff⟩ := Record.err_of_srv htask
    refine ⟨a, ha, hiff.trans (and_congr_right fun _ => ?_)⟩
    simp only [← h.getOwner_iff hrun t]
    change s.core.directory.getOwner t = none ∨ s.core.directory.getOwner t = some c ↔ _
    cases s.core.directory.getOwner t with
    | none => simp
    | some o => simp [@eq_comm _ o]
  req c id t payload htask := by
    have hiff := h.getOwner_iff hrun t
    cases ho : s.core.directory.getOwner t with
    | none =>
      obtain ⟨⟨a, ha, herr⟩, hnone⟩ := Record.req_unserved htask ho
      have hno : ∀ o, ¬ ServedBy s.log t o := fun o hs => by
        rw [← hiff o, ho] at hs
        cases hs
      exact ⟨a, ha, fun o conn hs => absurd hs (hno o), fun o hs => absurd hs (hno o),
        fun _ => ⟨herr, hnone⟩⟩
    | some o =>
      obtain ⟨a, ha, hopen, hclosed⟩ := Record.req_served htask ho
      have heq : ∀ o', ServedBy s.log t o' → o' = o := fun o' hs => by
        rw [← hiff o', ho] at hs
        exact (Option.some.inj hs).symm
      refine ⟨a, ha, fun o' conn hs hr => ?_, fun o' hs hr => ?_, fun hno => ?_⟩
      · obtain rfl := heq o' hs
        exact ⟨(hopen conn hr).1, _, (hopen conn hr).2⟩
      · obtain rfl := heq o' hs
        exact hclosed hr
      · exact absurd ((hiff o).mp ho) (hno o)
  other t stop hok hsrv hunsrv c := by
    refine (Core.getOwner_processTask hok).trans (and_congr_left fun _ => ?_)
    rw [Core.SettledOwner, or_iff_right]
    · refine (and_iff_left_of_imp fun ho => ?_).trans (h.getOwner_iff hrun t c)
      rintro ⟨id, htask⟩
      exact hunsrv c id htask ((h.getOwner_iff hrun t c).mp ho)
    · rintro ⟨⟨id, htask⟩, -⟩
      exact hsrv c id htask

/-- A request of client 2 is next, on a topic that client 1 serves. -/
theorem exclusive_requested : ∃ s, Lts.run step init requested.dropLast = some s ∧
    ∃ task, s.tasks = [task] ∧ s.core.directory.getOwner ⟨"p", ⟨"a"⟩⟩ = some 1 ∧
      Exclusive s (s.record .given task) := by
  have hrun : (Lts.run step init requested.dropLast).map (fun s =>
      (s.status, s.tasks.length, s.core.directory.getOwner ⟨"p", ⟨"a"⟩⟩)) =
      some (.running, 1, some 1) := by rfl
  obtain ⟨s, hs, he⟩ := Option.map_eq_some_iff.mp hrun
  obtain ⟨hrunning, hlen, howner⟩ := by simpa only [Prod.mk.injEq] using he
  obtain ⟨task, ht⟩ := List.length_eq_one_iff.mp hlen
  exact ⟨s, hs, task, ht, howner, exclusive ⟨_, hs⟩ hrunning task .given⟩

end System

end T2Bus
