import T2Bus.Server.Acks
import T2Bus.Server.Subscribers

/-!
# The Acks in a channel

While a client is served its channel carries an Ack for each of its messages that was processed, in
the order of the messages, and no other Ack.

* `ackIds`: the message ids that Acks among messages name;
* `Record.ackIds_outOn`: the Acks that a task puts into a channel;
* **`System.Reachable.acknowledges`**.
-/

namespace T2Bus

/-- The id of the message that is acknowledged. -/
def ProtocolServer.ackId? : ProtocolServer → Option MsgId
  | .ack payload => some payload.msgId
  | .pub _ | .req _ | .rsp _ => none

/-- The message ids of the Acks among messages. -/
def ackIds (msgs : List (Msg ProtocolServer)) : List MsgId :=
  msgs.filterMap fun msg => msg.content.ackId?

theorem ackIds_append (msgs msgs' : List (Msg ProtocolServer)) :
    ackIds (msgs ++ msgs') = ackIds msgs ++ ackIds msgs' := List.filterMap_append

theorem mem_ackIds {msgs : List (Msg ProtocolServer)} {k : MsgId} :
    k ∈ ackIds msgs ↔ ∃ m ∈ msgs, ∃ a, m.content = .ack a ∧ a.msgId = k := by
  rw [ackIds, List.mem_filterMap]
  refine exists_congr fun m => and_congr_right fun _ => ?_
  cases m.content <;> simp [ProtocolServer.ackId?]

/-- The Ack of a message names the message. -/
theorem AckMsg.of_msgId (msgId : MsgId) (r : Except BusError (Option ℕ)) :
    (AckMsg.of msgId r).msgId = msgId := by
  cases r <;> rfl

namespace Record

variable {r : Record} {conn : Conn}

/-- The delivery names no message that it acknowledges in this channel, unless it is an Ack. -/
theorem ackIds_deliveries {core : Core} {env : Env} {l : List (ClientId × ProtocolServer)}
    (h : ∀ x ∈ l, ∀ a, x.2 ≠ .ack a) :
    ackIds ((core.deliveries env l).filterMap (Delivery.on? conn)) = [] := by
  rw [ackIds, List.filterMap_filterMap]
  refine List.filterMap_eq_nil_iff.mpr fun d hd => ?_
  have hno := h _ (Core.mem_deliveries hd).1
  rw [Delivery.on?]
  split_ifs
  · cases hc : d.msg.content with
    | ack a => exact absurd hc (hno a)
    | _ => simp [hc, ProtocolServer.ackId?]
  · rfl

/-- **The Acks that a task puts into a channel**: that of its message, if the channel is the
sender's. -/
theorem ackIds_outOn {stop : Bool} (hok : r.exec.1 = .ok stop) (conn : Conn) :
    ackIds (r.outOn conn) =
      match r.task with
      | .message c msg => if r.core.reach r.env c = some conn then [msg.id] else []
      | _ => [] := by
  obtain ⟨core, env, task⟩ := r
  obtain ⟨acks, heq, hacks, hto⟩ := Exec.processTask_eq env task core
  have hto := hto ⟨stop, hok⟩
  have hout : ackIds (outOn ⟨core, env, task⟩ conn) =
      ackIds ((((core.ownTask env task).deliverAll env
        ((core.taskSends env task).map Prod.fst)).deliveries env
          (acks.map fun a => (a.1, .ack a.2))).filterMap (Delivery.on? conn)) := by
    rw [outOn, exec, heq, Exec.deliverList, Exec.ownExec, List.nil_append, Core.deliveries_append,
      List.filterMap_append, ackIds_append, ackIds_deliveries fun x hx => Core.taskSends_not_ack hx,
      List.nil_append]
  rw [hout]
  rcases hacks with rfl | ⟨c, msg, res, rfl, rfl⟩
  · cases task with
    | message c msg => cases hto
    | _ => rfl
  · have hreach : ((core.ownTask env (.message c msg)).deliverAll env
        ((core.taskSends env (.message c msg)).map Prod.fst)).reach env c = core.reach env c := by
      rw [Core.reach_deliverAll]
      exact Core.own_reach c c msg
    simp only [List.map_cons, List.map_nil, Core.deliveries, hreach, List.filterMap_cons,
      List.filterMap_nil, Delivery.on?]
    split_ifs
    · simp [ackIds, ProtocolServer.ackId?, AckMsg.of_msgId]
    · rfl

end Record

namespace System

variable {s s' : System} {act : Act} {conn : Conn} {c : ClientId}

/-- The channel of a client that is served carries the Acks of its processed messages, in order. -/
def Acknowledges (s : System) : Prop :=
  ∀ conn c, s.stubs conn = .serving c →
    ackIds (outOn s.log conn) = (messagesOf c s.log).map Msg.id

/-- Nothing goes into the channel of a connection that has no client yet. -/
theorem Reachable.outOn_eq_nil (h : Reachable s) (hc : (s.stubs conn).client? = none) :
    outOn s.log conn = [] := by
  refine List.eq_nil_iff_forall_not_mem.mpr fun m hm => ?_
  obtain ⟨c, hc'⟩ := h.client_of_mem_outOn hm
  rw [hc] at hc'
  cases hc'

/-- A client that is served is reached in its own channel, and nobody else is. -/
theorem Reachable.reach_iff (h : Reachable s) (hrun : s.status = .running)
    (hreg : registrations s.log < 2 ^ 32) (hc : s.stubs conn = .serving c) (order : Order)
    (d : ClientId) : s.core.reach ⟨s.isOpen, order⟩ d = some conn ↔ d = c := by
  have hsender := (h.served hrun hreg).sender conn c hc
  rw [Core.reach_eq_some]
  constructor
  · rintro ⟨hd, -⟩
    exact h.conns.senders_injective hd hsender
  · rintro rfl
    refine ⟨hsender, ?_⟩
    change (s.stubs conn).isOpen = true
    rw [hc]
    rfl

theorem Acknowledges.processed (hi : Acknowledges s) (hs : Reachable s) (hrun : s.status = .running)
    {order : Order} {task : Task} {tasks : List Task} (ht : s.tasks = task :: tasks)
    (hok : (s.record order task).exec.1 = .ok false) (hle : registrations s.log < 2 ^ 32)
    (hreg : registrations (s.processed tasks (s.record order task)).log < 2 ^ 32) :
    Acknowledges (s.processed tasks (s.record order task)) := by
  intro conn c hc
  have hout : outOn (s.processed tasks (s.record order task)).log conn =
      outOn s.log conn ++ (s.record order task).outOn conn := by
    rw [System.processed, outOn, List.flatMap_append, List.flatMap_singleton, outOn]
  rw [hout, ackIds_append, Record.ackIds_outOn hok, System.processed, messagesOf_concat, List.map_append]
  rw [processed_stubs] at hc
  split_ifs at hc with hr
  · -- the client is registered now: its channel is empty, and it has sent nothing
    have hr : task = .register conn := hr
    cases hc
    subst hr
    rw [registrations_processed rfl] at hreg
    have hacc : s.stubs conn = .accepted := hs.conns.queued conn (by
      rw [ht, registers_cons]
      exact List.mem_append_left _ (by simp [Task.register?]))
    rw [hs.outOn_eq_nil (by rw [hacc]; rfl),
      show (s.record order (.register conn)).core.nextClientId = s.core.nextClientId from rfl,
      (hs.messagesOf_next hreg).1]
    rfl
  · rw [hi conn c hc]
    congr 1
    cases task with
    | message d msg =>
      have hiff := hs.reach_iff hrun hle hc order d
      change (if s.core.reach ⟨s.isOpen, order⟩ d = some conn then [msg.id] else []) =
        (Task.from? c (.message d msg)).toList.map Msg.id
      by_cases hd : d = c
      · rw [if_pos (hiff.mpr hd), Task.from?, if_pos hd]
        rfl
      · rw [if_neg fun h => hd (hiff.mp h), Task.from?, if_neg hd]
        rfl
    | _ => rfl

/-- **Every processed message of a client that is served is acknowledged in its channel, once and in
order.** -/
theorem Reachable.acknowledges (h : Reachable s) :
    s.status = .running → registrations s.log < 2 ^ 32 → Acknowledges s := by
  refine Lts.Reachable.induct (I := fun s => s.status = .running → registrations s.log < 2 ^ 32 →
    Acknowledges s) (fun _ _ conn c hc => by cases hc) (fun s act s' hs hi hstep hrun hreg => ?_) h
  obtain ⟨hrun', hq | ⟨order, task, tasks, ht, rfl⟩⟩ := quiet_or_processed hstep
  · intro conn c hc
    rw [hq.log]
    exact hi hrun' (hq.log ▸ hreg) conn c (hq.serving conn c hc)
  · have hle : registrations s.log < 2 ^ 32 := (registrations_le hstep).trans_lt hreg
    exact (hi hrun' hle).processed hs hrun' ht (status_of_eq_running hrun) hle hreg

end System

end T2Bus
