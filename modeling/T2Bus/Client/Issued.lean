import T2Bus.Client.Completions
import T2Bus.Server.Published

/-!
# The publications that a client issues

A client sends its publications in the order in which the application has issued them.

* `Session.Act.pub?`, `Session.Issues`: the publications that were issued, sent or queued;
* **`Session.Issues.step`**.
-/

namespace T2Bus

def ClientTask.pub? : ClientTask → Option PubMsg
  | .pub params => some params.msg
  | .sub _ | .req _ | .rsp _ | .srv _ | .unsub _ | .unsrv _ | .stop | .stopBus _ | .keepAlive => none

/-- The publications among the messages of a client. -/
def sentPubs (sent : List (Msg ProtocolClient)) : List PubMsg :=
  sent.filterMap fun msg => msg.content.pub?

/-- The publications among queued tasks. -/
def queuedPubs (tasks : List ClientTask) : List PubMsg := tasks.filterMap ClientTask.pub?

theorem sentPubs_singleton (msg : Msg ProtocolClient) :
    sentPubs [msg] = msg.content.pub?.toList := by
  rw [sentPubs, List.filterMap_cons]
  cases msg.content.pub? <;> rfl

theorem sentPubs_append (sent sent' : List (Msg ProtocolClient)) :
    sentPubs (sent ++ sent') = sentPubs sent ++ sentPubs sent' := List.filterMap_append

/-- The message of a task is a publication if the task is one. -/
theorem pub_of_content {task : ClientTask} {content : ProtocolClient}
    (h : task.content? = some content) : content.pub? = task.pub? := by
  cases task with
  | stop => cases h
  | _ =>
    cases h
    rfl

namespace ClientExec

variable {env : ClientEnv}

/-- A message that is received makes the client send nothing but Unsubs. -/
theorem sent_afterReceive (msg : Msg ProtocolServer) (core : ClientCore) :
    ∀ m ∈ (afterReceive env msg (.start core)).2.sent, ∃ t, m.content = .unsub ⟨t⟩ := by
  refine (afterReceive_ends (P := fun s => ∀ m ∈ s.sent, ∃ t, m.content = .unsub ⟨t⟩)
    (fun _ _ h => h) (fun _ _ h => h) (fun _ _ h => h) (fun _ _ h => h) (fun s t h => ?_) msg
    (by simp)).elim id ?_
  · exact List.forall_mem_append.mpr ⟨h, List.forall_mem_singleton.mpr ⟨t, rfl⟩⟩
  · rintro ⟨s', h, he⟩
    rw [he]
    exact h

end ClientExec

namespace Turn

variable {r : Turn}

theorem sent_msg {msg : Msg ProtocolServer} (h : r.event = .msg msg) :
    ∀ m ∈ r.exec.2.sent, ∃ t, m.content = .unsub ⟨t⟩ := by
  rw [exec_msg h]
  exact ClientExec.sent_afterReceive msg r.core

theorem sentPubs_msg {msg : Msg ProtocolServer} (h : r.event = .msg msg) :
    sentPubs r.exec.2.sent = [] := by
  refine List.filterMap_eq_nil_iff.mpr fun m hm => ?_
  obtain ⟨t, ht⟩ := sent_msg h m hm
  rw [ht]
  rfl

/-- A turn sends the publication of its task, or fails. -/
theorem sentPubs_exec (r : Turn) : sentPubs r.exec.2.sent = (r.sends?.bind ClientTask.pub?).toList ∨
    sentPubs r.exec.2.sent = [] ∧ r.exec.1 ≠ .ok false := by
  have hmsg : ∀ msg, r.event = .msg msg →
      sentPubs r.exec.2.sent = (r.sends?.bind ClientTask.pub?).toList := by
    intro msg hm
    rw [sentPubs_msg hm, sends?, hm]
    rfl
  by_cases hok : r.exec.1 = .ok false
  · left
    rcases exec_ok hok with ⟨task, msg, ht, hb, hsent⟩ | ⟨msg, hm, -⟩
    · have hpub := pub_of_content (ClientCore.sends_of_beforeSend hb).2
      rw [hsent, ht, Option.bind_some, ← hpub, sentPubs_singleton]
    · exact hmsg msg hm
  · rcases r.exec_cases with ⟨task, ht⟩ | ⟨msg, hm⟩ | hs
    · have hsent : r.exec.2.sent = (ClientExec.send r.env task (.start r.core)).2.sent := by
        rw [exec_sends ht]
        rfl
      rw [hsent]
      rcases ClientExec.send_sent task (.start r.core) with he | ⟨msg, hb, he⟩
      · rw [he]
        exact Or.inr ⟨rfl, hok⟩
      · left
        have hpub := pub_of_content (ClientCore.sends_of_beforeSend (Prod.ext hb rfl)).2
        rw [he, ht, Option.bind_some, ← hpub, ClientExec.start_sent, List.nil_append,
          sentPubs_singleton]
    · exact Or.inl (hmsg msg hm)
    · rw [hs]
      exact Or.inr ⟨rfl, hok⟩

end Turn

namespace Session

variable {s s' : Session} {act : Act} {issued : List PubMsg}

/-- The publication that an action of the application issues. -/
def Act.pub? : Act → Option PubMsg
  | .publish msg _ => some msg
  | .subscribe _ _ | .request _ _ | .respond _ | .serve _ _ | .stopBus | .stop | .acked _ | .giveUp _
  | .dropHandle _ | .dropServe _ | .close _ | .turn _ _ _ _ => none

/-- The publications that were issued are sent in their order, and while the client runs those that are
not sent are queued. -/
structure Issues (s : Session) (issued : List PubMsg) : Prop where
  sent : sentPubs s.sent <+: issued
  queued : s.status = .running → sentPubs s.sent ++ queuedPubs s.tasks = issued

theorem issues_init : Issues init [] := ⟨List.nil_prefix, fun _ => rfl⟩

theorem queuedPubs_queues (s : Session) (act : Act) :
    queuedPubs (s.queues act) = act.pub?.toList := by
  cases act with
  | dropHandle call =>
    rw [queues]
    cases s.handles call <;> rfl
  | _ => rfl

/-- The publication of a turn is the first one in the queue. -/
theorem queuedPubs_tasksAfter {tasks : List ClientTask} {event : Event}
    (ht : tasksAfter s.tasks event = some tasks) (order : Order)
    (transport : Msg ProtocolClient → BusResult Unit) :
    ((s.turn event order transport).sends?.bind ClientTask.pub?).toList ++ queuedPubs tasks =
      queuedPubs s.tasks := by
  rcases tasksAfter_cases ht with ⟨task, rfl, htasks⟩ | ⟨hevent, rfl⟩
  · rw [htasks]
    cases task <;> rfl
  · cases event with
    | task task => exact absurd rfl (hevent task)
    | _ => rfl

/-- **A client sends its publications in the order in which they are issued.** -/
theorem Issues.step (hi : s.Issues issued) (h : s.step act = some s') :
    s'.Issues (issued ++ act.pub?.toList) := by
  have hrun := (step_eq_some.mp h).1
  have hall := hi.queued hrun
  rcases queues_step h with ⟨-, -, hsent, -, ht, -⟩ | ⟨event, valid, order, transport, tasks, rfl, ht, rfl⟩
  · rw [← hall, ← queuedPubs_queues s act, List.append_assoc]
    refine ⟨?_, fun _ => ?_⟩
    · rw [hsent]
      exact List.prefix_append ..
    · rw [hsent, ht, queuedPubs, queuedPubs, queuedPubs, List.filterMap_append]
  · have htasks := queuedPubs_tasksAfter ht order transport
    rw [show (Act.turn event valid order transport).pub? = none from rfl, Option.toList_none,
      List.append_nil, ← hall, ← htasks]
    have hsent : sentPubs (s.turned tasks (s.turn event order transport)).sent =
        sentPubs s.sent ++ sentPubs (s.turn event order transport).exec.2.sent :=
      sentPubs_append _ _
    rcases (s.turn event order transport).sentPubs_exec with he | ⟨he, hfail⟩
    · rw [he] at hsent
      refine ⟨?_, fun _ => ?_⟩
      · rw [hsent, ← List.append_assoc]
        exact List.prefix_append ..
      · rw [hsent]
        exact List.append_assoc ..
    · rw [he, List.append_nil] at hsent
      refine ⟨?_, fun hrun' => absurd (turned_running.mp hrun') hfail⟩
      rw [hsent]
      exact List.prefix_append ..

end Session

end T2Bus
