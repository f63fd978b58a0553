import T2Bus.Server.Owed

/-!
# The requests for a client

What goes into the channel of a client that is served are the requests on the topics that it owns. From
the grant of a Srv to the Unsrv these are all requests on the topic.

* `Record.reqFor`, `reqsFor`; **`System.Reachable.reqs_outOn`**: the requests in the channel of a client;
* `System.Reachable.not_deregisters`: a client that is served was never deregistered;
* **`System.Reachable.reqsFor_eq`**: a client whose Srv was granted gets every request.
-/

namespace T2Bus

/-- A request that the server has sent, under its id. -/
def reqOf? (msg : Msg ProtocolServer) : Option (MsgId × ReqMsg) :=
  match msg.content with
  | .req params => some (msg.id, params)
  | .pub _ | .rsp _ | .ack _ => none

/-- The requests on a topic. -/
def reqsOn (t : Topic) (reqs : List (MsgId × ReqMsg)) : List (MsgId × ReqMsg) :=
  reqs.filter fun x => decide (x.2.topic = t)

theorem reqsOn_append (t : Topic) (reqs reqs' : List (MsgId × ReqMsg)) :
    reqsOn t (reqs ++ reqs') = reqsOn t reqs ++ reqsOn t reqs' := List.filter_append reqs reqs'

/-- The request of a Req task. -/
def Task.req? : Task → Option ReqMsg
  | .message _ ⟨_, .req params⟩ => some params
  | .message _ _ | .register _ | .deregister _ | .requestTimeout _ => none

theorem Task.req_eq_some {task : Task} {params : ReqMsg} :
    task.req? = some params ↔ ∃ c id, task = .message c ⟨id, .req params⟩ := by
  obtain _ | _ | ⟨c, id, content⟩ | _ := task
  case message => cases content <;> simp [Task.req?]
  all_goals simp [Task.req?]

namespace Record

variable {r : Record} {conn : Conn} {c : ClientId}

/-- The request of the task, under the id of its delivery. -/
def asks? (r : Record) : Option (MsgId × ReqMsg) := r.task.req?.map fun params => (r.core.nextMsgId, params)

/-- The request that the task has for the client, which owns its topic. -/
def reqFor (r : Record) (c : ClientId) : Option (MsgId × ReqMsg) :=
  r.asks?.filter fun x => decide (r.core.directory.getOwner x.2.topic = some c)

theorem reqFor_eq_some {x : MsgId × ReqMsg} : r.reqFor c = some x ↔
    r.asks? = some x ∧ r.core.directory.getOwner x.2.topic = some c := by
  rw [reqFor, Option.filter_eq_some_iff, decide_eq_true_iff]

/-- **What a task puts into the channel of a client** is what it has for the client. -/
theorem reqsOn_eq (hreach : ∀ d, r.core.reach r.env d = some conn ↔ d = c) :
    (r.outOn conn).filterMap reqOf? = (r.reqFor c).toList := by
  cases hreq : r.task.req? with
  | none =>
    have hnone : r.reqFor c = none := by
      rw [reqFor, asks?, hreq]
      rfl
    rw [hnone]
    refine List.filterMap_eq_nil_iff.mpr fun m hm => ?_
    obtain ⟨d, -, hsent⟩ := mem_outOn hm
    obtain ⟨id, content⟩ := m
    cases content with
    | req params =>
      -- only a Req task sends a request
      rcases hsent with hsent | ⟨ack, hack⟩
      · obtain ⟨d', id', ht⟩ := Core.req_of_mem_taskSends hsent
        rw [Task.req_eq_some.mpr ⟨d', id', ht⟩] at hreq
        cases hreq
      · cases hack
    | _ => rfl
  | some params =>
    obtain ⟨d, id, ht⟩ := Task.req_eq_some.mp hreq
    have hout := Exec.out_req r.env r.core d id params
    rw [← ht, ← exec] at hout
    have hfor : r.reqFor c = if r.core.directory.getOwner params.topic = some c
        then some (r.core.nextMsgId, params) else none := by
      rw [reqFor, asks?, hreq, Option.map_some, Option.filter_some]
      simp only [decide_eq_true_eq]
    rw [outOn, hout, hfor]
    cases ho : r.core.directory.getOwner params.topic with
    | none =>
      rw [if_neg (Option.some_ne_none c).symm]
      simp only [List.filterMap_cons, List.filterMap_nil, Delivery.on?]
      split_ifs <;> rfl
    | some o =>
      have hiff := hreach o
      simp only [List.filterMap_cons, List.filterMap_nil, Delivery.on?, hiff, Option.some.injEq]
      split_ifs <;> rfl

/-- The request that the task has for a client that is reached is accepted. -/
theorem accepts_of_reqFor {x : MsgId × ReqMsg} (h : r.reqFor c = some x)
    (hreach : (r.core.reach r.env c).isSome) :
    x.1 = r.core.nextMsgId ∧ ∃ p, r.accepts = some p ∧ p.responderId = c := by
  obtain ⟨hasks, howner⟩ := reqFor_eq_some.mp h
  obtain ⟨params, hreq, rfl⟩ := Option.map_eq_some_iff.mp hasks
  obtain ⟨d, id, ht⟩ := Task.req_eq_some.mp hreq
  exact ⟨rfl, ⟨id, c, d⟩, Core.accepts_eq_some.mpr ⟨params, ht, howner, hreach⟩, rfl⟩

end Record

/-- The requests of a log that are for the client. -/
def reqsFor (c : ClientId) (log : List Record) : List (MsgId × ReqMsg) :=
  log.filterMap fun r => r.reqFor c

namespace System

variable {s : System} {conn : Conn} {c : ClientId}

/-- A request for a client that is served is accepted, and put into the channel of the client. -/
structure Passes (conn : Conn) (c : ClientId) (r : Record) : Prop where
  out : (r.outOn conn).filterMap reqOf? = (r.reqFor c).toList
  accepted : ∀ x, r.reqFor c = some x →
    x.1 = r.core.nextMsgId ∧ ∃ p, r.accepts = some p ∧ p.responderId = c

/-- **A task puts into the channel of a client that is served the request that it has for the
client.** -/
theorem Reachable.passes (h : Reachable s) (hrun : s.status = .running)
    (hreg : registrations s.log < 2 ^ 32) (hc : s.stubs conn = .serving c) {r : Record}
    (hr : r ∈ s.log) : Passes conn c r := by
  obtain ⟨i, hi⟩ := List.mem_iff_getElem?.mp hr
  refine h.of_served (P := fun conn c _ r => Passes conn c r) (fun conn c log r _ hmsgs hout hfounded => ?_)
    (fun s conn c order task tasks hs hrun hreg _ hc => ?_) hrun hreg conn c hc i r hi
  · have hnone : r.reqFor c = none := by
      refine Option.eq_none_iff_forall_ne_some.mpr fun x hx => ?_
      have hclaimed := hfounded.owner c _ (Record.reqFor_eq_some.mp hx).2
      rw [hmsgs] at hclaimed
      cases hclaimed
    refine ⟨by rw [hout, hnone]; rfl, fun x hx => ?_⟩
    rw [hnone] at hx
    cases hx
  · have hreach := hs.reach_iff hrun hreg hc order
    exact ⟨Record.reqsOn_eq hreach, fun x hx => Record.accepts_of_reqFor hx
      (Option.isSome_of_mem ((hreach c).mpr rfl))⟩

/-- **The requests in the channel of a client that is served** are those that the tasks have for it. -/
theorem Reachable.reqs_outOn (h : Reachable s) (hrun : s.status = .running)
    (hreg : registrations s.log < 2 ^ 32) (hc : s.stubs conn = .serving c) {log : List Record}
    (hlog : log ⊆ s.log) : (outOn log conn).filterMap reqOf? = reqsFor c log := by
  rw [outOn, List.filterMap_flatMap, reqsFor, List.filterMap_eq_flatMap_toList]
  exact List.flatMap_congr fun r hr => (h.passes hrun hreg hc (hlog hr)).out

/-! ## From the grant on -/

/-- A client that was deregistered had a connection. -/
theorem Reachable.client_of_deregisters (h : Reachable s) : s.status = .running →
    registrations s.log < 2 ^ 32 → ∀ r ∈ s.log, r.Deregisters c →
      ∃ conn, (s.stubs conn).client? = some c := by
  refine Lts.Reachable.induct (I := fun s => s.status = .running → registrations s.log < 2 ^ 32 →
    ∀ r ∈ s.log, r.Deregisters c → ∃ conn, (s.stubs conn).client? = some c)
    (fun _ _ r hr => by cases hr) (fun s act s' hs hi hstep hrun' hreg r hr hd => ?_) h
  have hle := (registrations_le hstep).trans_lt hreg
  obtain ⟨hrun, hq | ⟨order, task, tasks, ht, rfl⟩⟩ := quiet_or_processed hstep
  · obtain ⟨conn, hc⟩ := hi hrun hle r (hq.log ▸ hr) hd
    exact ⟨conn, client_step hs hstep hc⟩
  · rcases List.mem_append.mp hr with hr | hr
    · obtain ⟨conn, hc⟩ := hi hrun hle r hr hd
      exact ⟨conn, client_step hs hstep hc⟩
    · cases List.mem_singleton.mp hr
      rcases hd with hd | hd
      · have hd : task = .deregister c := hd
        obtain ⟨conn, hc, -⟩ := (Reachable.served hs hrun hle).leaving c (by
          rw [ht, hd]
          exact List.mem_cons_self)
        exact ⟨conn, client_step hs hstep hc⟩
      · obtain ⟨-, conn, hsender, -⟩ := hd
        exact ⟨conn, client_step hs hstep ((Reachable.conns hs).registered c conn hsender)⟩

/-- **A client that is served was never deregistered.** -/
theorem Reachable.not_deregisters (h : Reachable s) : s.status = .running →
    registrations s.log < 2 ^ 32 → ∀ conn c, s.stubs conn = .serving c →
      ∀ r ∈ s.log, ¬ r.Deregisters c := by
  refine Lts.Reachable.induct (I := fun s => s.status = .running → registrations s.log < 2 ^ 32 →
    ∀ conn c, s.stubs conn = .serving c → ∀ r ∈ s.log, ¬ r.Deregisters c)
    (fun _ _ conn c hc => by cases hc) (fun s act s' hs hi hstep hrun' hreg conn c hc r hr => ?_) h
  have hs' : Reachable s' := Lts.Reachable.tail hs hstep
  have hle := (registrations_le hstep).trans_lt hreg
  obtain ⟨hrun, hq | ⟨order, task, tasks, ht, rfl⟩⟩ := quiet_or_processed hstep
  · exact hi hrun hle conn c (hq.serving conn c hc) r (hq.log ▸ hr)
  · rcases List.mem_append.mp hr with hold | hr
    · rw [processed_stubs] at hc
      split_ifs at hc with hnew
      · -- the client is new, so no task before was about it
        have hnew : task = .register conn := hnew
        cases hc
        subst hnew
        rw [registrations_processed rfl] at hreg
        intro hd
        obtain ⟨conn', hc'⟩ := Reachable.client_of_deregisters hs hrun hle r hold hd
        exact Reachable.client_ne_next hs hreg hc' rfl
      · exact hi hrun hle conn c hc r hold
    · cases List.mem_singleton.mp hr
      have hsender := (hs'.served hrun' hreg).sender conn c hc
      exact ((Core.senders_processTask (status_of_eq_running hrun')).mp hsender).2

/-- The owner that a task finds is the client that serves the topic. -/
theorem Reachable.owner_past (h : Reachable s) : s.status = .running → ∀ i r, s.log[i]? = some r →
    ∀ t c, r.core.directory.getOwner t = some c ↔ ServedBy (s.log.take i) t c := by
  refine Lts.Reachable.induct (I := fun s => s.status = .running → ∀ i r, s.log[i]? = some r →
    ∀ t c, r.core.directory.getOwner t = some c ↔ ServedBy (s.log.take i) t c)
    (fun _ i r hr => by cases hr) (fun s act s' hs hi hstep _ i r hr t c => ?_) h
  obtain ⟨hrun, hq | ⟨order, task, tasks, -, rfl⟩⟩ := quiet_or_processed hstep
  · rw [hq.log] at hr ⊢
    exact hi hrun i r hr t c
  · change (s.log ++ [s.record order task])[i]? = some r at hr
    change _ ↔ ServedBy ((s.log ++ [s.record order task]).take i) t c
    rcases getElem?_concat_iff.mp hr with hr | ⟨rfl, rfl⟩
    · rw [List.take_append_of_le_length (lt_of_getElem? hr).le]
      exact hi hrun i r hr t c
    · rw [List.take_left]
      exact Reachable.getOwner_iff hs hrun t c

/-- **A client whose Srv was granted gets every request on the topic**, as long as it sends no Unsrv. -/
theorem Reachable.reqsFor_eq (h : Reachable s) (hrun : s.status = .running)
    (hreg : registrations s.log < 2 ^ 32) (hc : s.stubs conn = .serving c) {l₁ l₂ : List Record}
    {r₀ : Record} (hlog : s.log = l₁ ++ r₀ :: l₂) {t : Topic} (hgrant : r₀.Grants c t)
    (hno : ∀ m ∈ messagesOf c l₂, m.content ≠ .unsrv ⟨t⟩) :
    reqsOn t (reqsFor c l₂) = reqsOn t (l₂.filterMap Record.asks?) := by
  rw [reqsOn, reqsOn, reqsFor, List.filter_filterMap, List.filter_filterMap]
  refine List.filterMap_congr fun r hr => ?_
  cases hasks : r.asks? with
  | none => rw [Record.reqFor, hasks, Option.filter_none]
  | some x =>
    by_cases ht : x.2.topic = t
    · -- the client owns the topic when the task is processed
      obtain ⟨l, l', rfl⟩ := List.append_of_mem hr
      have hsplit : s.log = (l₁ ++ r₀ :: l) ++ r :: l' := by
        rw [hlog, List.append_assoc, List.cons_append]
      have hi : s.log[(l₁ ++ r₀ :: l).length]? = some r := by
        rw [hsplit, List.getElem?_append_right le_rfl, Nat.sub_self]
        rfl
      have hnever := h.not_deregisters hrun hreg conn c hc
      have hserved : ServedBy (s.log.take (l₁ ++ r₀ :: l).length) t c := by
        rw [hsplit, List.take_left]
        refine ⟨l₁.length, r₀, by simp, hgrant, hnever r₀ (by rw [hlog]; simp), fun j r' hij hj => ?_⟩
        rw [List.getElem?_append_right hij.le, List.getElem?_cons] at hj
        rw [if_neg (Nat.sub_ne_zero_of_lt hij)] at hj
        have hmem := List.mem_of_getElem? hj
        refine ⟨fun ⟨id, htask⟩ => ?_, hnever r' (by rw [hsplit]; simp [hmem])⟩
        exact hno _ (mem_messagesOf.mpr ⟨r', List.mem_append_left _ hmem, htask⟩) rfl
      have howner := (h.owner_past hrun _ r hi t c).mpr hserved
      rw [Record.reqFor_eq_some.mpr ⟨hasks, ht ▸ howner⟩]
    · have hnone : (r.reqFor c).filter (fun x => decide (x.2.topic = t)) = none := by
        refine Option.filter_eq_none_iff.mpr fun y hy => ?_
        cases hasks.symm.trans (Record.reqFor_eq_some.mp hy).1
        simpa using ht
      rw [hnone, Option.filter_some, if_neg (by simpa using ht)]

end System

end T2Bus
