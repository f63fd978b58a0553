import T2Bus.Server.Responses

/-!
# What goes through a connection

The messages that a client has sent to the server, and those that the server has put into the client's
channel, are read off the log. When a client uses no message id twice, its channel carries at most one
response for an id, and only if the client made a request with it.

* `messagesOf`, `queuedOf`: the messages of a client that are processed, and those that are queued;
* `outOn`: what went into a channel; `Record.mem_outOn`;
* **`System.Reachable.nodup_rspIds`**, `System.Reachable.req_of_rspIds`.
-/

namespace T2Bus

/-- The message of a task, if it is one of the client. -/
def Task.from? (c : ClientId) : Task → Option (Msg ProtocolClient)
  | .message c' msg => if c' = c then some msg else none
  | .register _ | .deregister _ | .requestTimeout _ => none

/-- The messages of a client that were processed. -/
def messagesOf (c : ClientId) (log : List Record) : List (Msg ProtocolClient) :=
  log.filterMap fun r => r.task.from? c

/-- The messages of a client that are queued. -/
def queuedOf (c : ClientId) (tasks : List Task) : List (Msg ProtocolClient) :=
  tasks.filterMap (Task.from? c)

/-- The message of a delivery, if it went into the channel. -/
def Delivery.on? (conn : Conn) (d : Delivery) : Option (Msg ProtocolServer) :=
  if d.conn = some conn then some d.msg else none

/-- What a task put into a channel. -/
def Record.outOn (r : Record) (conn : Conn) : List (Msg ProtocolServer) :=
  r.exec.2.out.filterMap (Delivery.on? conn)

/-- What went into a channel. -/
def outOn (log : List Record) (conn : Conn) : List (Msg ProtocolServer) :=
  log.flatMap fun r => r.outOn conn

def ProtocolServer.rspId? : ProtocolServer → Option MsgId
  | .rsp payload => some payload.reqId
  | .pub _ | .req _ | .ack _ => none

/-- The request ids of the responses among messages. -/
def rspIds (msgs : List (Msg ProtocolServer)) : List MsgId :=
  msgs.filterMap fun msg => msg.content.rspId?

theorem from?_eq_some {c : ClientId} {task : Task} {msg : Msg ProtocolClient} :
    task.from? c = some msg ↔ task = .message c msg := by
  cases task with
  | message c' msg' =>
    rw [Task.from?]
    split_ifs with h <;> simp [h]
  | _ => simp [Task.from?]

theorem messagesOf_concat (c : ClientId) (log : List Record) (r : Record) :
    messagesOf c (log ++ [r]) = messagesOf c log ++ (r.task.from? c).toList := by
  rw [messagesOf, List.filterMap_append, messagesOf]
  cases h : r.task.from? c <;> simp [h]

theorem rspIds_append (msgs msgs' : List (Msg ProtocolServer)) :
    rspIds (msgs ++ msgs') = rspIds msgs ++ rspIds msgs' := List.filterMap_append

theorem mem_messagesOf {c : ClientId} {log : List Record} {msg : Msg ProtocolClient} :
    msg ∈ messagesOf c log ↔ ∃ r ∈ log, r.task = .message c msg := by
  simp only [messagesOf, List.mem_filterMap, from?_eq_some]

namespace Record

variable {r : Record} {conn : Conn} {q : MsgId}

/-- The responses that a task puts into a channel: the one to the request it answers. -/
theorem rspIds_outOn (r : Record) (conn : Conn) : rspIds (r.outOn conn) =
    (r.answers.bind fun a =>
      if r.core.reach r.env a.1.requesterId = some conn then some a.1.requestId else none).toList := by
  have hfilter : rspIds (r.outOn conn) =
      r.rsps.filterMap fun d => (Delivery.on? conn d).bind fun msg => msg.content.rspId? := by
    rw [rspIds, outOn, List.filterMap_filterMap, rsps, List.filterMap_filter]
    refine List.filterMap_congr fun d _ => ?_
    obtain ⟨clientId, ⟨id, content⟩, conn'⟩ := d
    rw [Delivery.on?]
    cases content <;> by_cases hc : conn' = some conn <;>
      simp [hc, ProtocolServer.isRsp, ProtocolServer.rspId?]
  rw [hfilter, System.rsps_eq]
  cases r.answers with
  | none => rfl
  | some a =>
    simp only [Option.map_some, Option.toList_some, List.filterMap_cons, List.filterMap_nil,
      Delivery.on?, Core.rspDelivery, Core.rspTo, Option.bind_some]
    split_ifs <;> rfl

theorem mem_rspIds_outOn : q ∈ rspIds (r.outOn conn) ↔ ∃ p params,
    r.answers = some (p, params) ∧ r.core.reach r.env p.requesterId = some conn ∧
      p.requestId = q := by
  rw [rspIds_outOn, Option.mem_toList]
  constructor
  · intro h
    obtain ⟨⟨p, params⟩, ha, hq⟩ := Option.bind_eq_some_iff.mp h
    split_ifs at hq with hr
    exact ⟨p, params, ha, hr, Option.some.inj hq⟩
  · rintro ⟨p, params, ha, hr, rfl⟩
    rw [ha, Option.bind_some]
    exact if_pos hr

/-- **What a task puts out**: what it sends, and its Ack. -/
theorem mem_out {d : Delivery} (h : d ∈ r.exec.2.out) :
    ((d.clientId, d.msg.content) ∈ r.core.taskSends r.env r.task ∨
      ∃ ack, d.msg.content = .ack ack) ∧ d.conn = r.core.reach r.env d.clientId := by
  obtain ⟨core, env, task⟩ := r
  have hreach : (core.ownTask env task).reach env d.clientId = core.reach env d.clientId := by
    cases task with
    | register transport => cases h
    | deregister c => cases h
    | message c msg => exact Core.own_reach c d.clientId msg
    | requestTimeout k => exact Core.own_reach 0 d.clientId _
  obtain ⟨acks, heq, -⟩ := Exec.processTask_eq env task core
  rw [exec, heq] at h
  obtain ⟨hmem, hconn⟩ := Core.mem_deliveries h
  refine ⟨(List.mem_append.mp hmem).imp_right fun ha => ?_, hconn.trans hreach⟩
  obtain ⟨⟨c, ack⟩, -, hack⟩ := List.mem_map.mp ha
  exact ⟨ack, (congrArg Prod.snd hack).symm⟩

/-- **A message in a channel** was sent to the client that the channel belongs to. -/
theorem mem_outOn {m : Msg ProtocolServer} (h : m ∈ r.outOn conn) :
    ∃ c, r.core.reach r.env c = some conn ∧
      ((c, m.content) ∈ r.core.taskSends r.env r.task ∨ ∃ ack, m.content = .ack ack) := by
  obtain ⟨d, hd, hon⟩ := List.mem_filterMap.mp h
  rw [Delivery.on?] at hon
  split_ifs at hon with hc
  cases hon
  obtain ⟨hsent, hconn⟩ := mem_out hd
  exact ⟨d.clientId, hconn.symm.trans hc, hsent⟩

end Record

namespace Core

variable {core : Core} {env : Env} {task : Task} {c : ClientId}

/-- A publication that a task sends is its own. -/
theorem pub_of_mem_taskSends {params : PubMsg} (h : (c, .pub params) ∈ core.taskSends env task) :
    ∃ d id, task = .message d ⟨id, .pub params⟩ := by
  obtain _ | _ | ⟨d, id, content⟩ | k := task
  case message =>
    cases content with
    | pub params' =>
      obtain ⟨d', -, he⟩ := List.mem_map.mp h
      cases he
      exact ⟨d, id, rfl⟩
    | req params' =>
      obtain ⟨o, -, he⟩ := Option.map_eq_some_iff.mp (Option.mem_toList.mp h)
      cases he
    | rsp params' =>
      obtain ⟨p, -, he⟩ := Option.map_eq_some_iff.mp (Option.mem_toList.mp h)
      cases he
    | _ => cases h
  case requestTimeout =>
    obtain ⟨p, -, he⟩ := Option.map_eq_some_iff.mp (Option.mem_toList.mp h)
    cases he
  all_goals cases h

/-- A request that a task sends is its own. -/
theorem req_of_mem_taskSends {params : ReqMsg} (h : (c, .req params) ∈ core.taskSends env task) :
    ∃ d id, task = .message d ⟨id, .req params⟩ := by
  obtain _ | _ | ⟨d, id, content⟩ | k := task
  case message =>
    cases content with
    | pub params' =>
      obtain ⟨d', -, he⟩ := List.mem_map.mp h
      cases he
    | req params' =>
      obtain ⟨o, -, he⟩ := Option.map_eq_some_iff.mp (Option.mem_toList.mp h)
      cases he
      exact ⟨d, id, rfl⟩
    | rsp params' =>
      obtain ⟨p, -, he⟩ := Option.map_eq_some_iff.mp (Option.mem_toList.mp h)
      cases he
    | _ => cases h
  case requestTimeout =>
    obtain ⟨p, -, he⟩ := Option.map_eq_some_iff.mp (Option.mem_toList.mp h)
    cases he
  all_goals cases h

end Core

/-- Where a filtered list has no duplicates, an element comes from one place. -/
theorem index_unique {α β : Type*} {l : List α} {f : α → Option β} (h : (l.filterMap f).Nodup)
    {i j : ℕ} {a a' : α} {b : β} (hi : l[i]? = some a) (hj : l[j]? = some a') (ha : f a = some b)
    (ha' : f a' = some b) : i = j := by
  have hpair := List.pairwise_filterMap.mp h
  rw [List.pairwise_iff_getElem] at hpair
  obtain ⟨hi', rfl⟩ := List.getElem?_eq_some_iff.mp hi
  obtain ⟨hj', rfl⟩ := List.getElem?_eq_some_iff.mp hj
  rcases Nat.lt_trichotomy i j with hlt | heq | hlt
  · exact absurd rfl (hpair i j hi' hj' hlt b ha b ha')
  · exact heq
  · exact absurd rfl (hpair j i hj' hi' hlt b ha' b ha)

namespace System

variable {s : System} {conn : Conn} {c : ClientId} {q : MsgId}

/-- A channel with a message in it belongs to a client. -/
theorem Reachable.client_of_mem_outOn (h : Reachable s) {m : Msg ProtocolServer}
    (hm : m ∈ outOn s.log conn) : ∃ c, (s.stubs conn).client? = some c := by
  obtain ⟨r, hr, hm⟩ := List.mem_flatMap.mp hm
  obtain ⟨c, hc, -⟩ := Record.mem_outOn hm
  exact ⟨c, h.conns.logged r hr c conn (Core.reach_eq_some.mp hc).1⟩

/-- A response in a channel leads back to a request of the channel's client. -/
theorem Reachable.serves_of_rspIds (h : Reachable s) (hc : (s.stubs conn).client? = some c)
    {j : ℕ} {r : Record} (hj : s.log[j]? = some r) (hq : q ∈ rspIds (r.outOn conn)) :
    ∃ i p params msg, Serves s.log i j p params ∧
      ∃ r₀, s.log[i]? = some r₀ ∧ r₀.task = .message c ⟨q, .req msg⟩ := by
  obtain ⟨p, params, ha, hr, rfl⟩ := Record.mem_rspIds_outOn.mp hq
  obtain ⟨i, hs⟩ := h.traced.answers j p params ⟨r, hj, ha⟩
  obtain ⟨r₀, hi, hacc, -⟩ := hs.accepts
  obtain ⟨msg, ht, -⟩ := Core.accepts_eq_some.mp hacc
  have hclient := h.conns.logged r (List.mem_of_getElem? hj) p.requesterId conn
    (Core.reach_eq_some.mp hr).1
  cases hc.symm.trans hclient
  exact ⟨i, p, params, msg, hs, r₀, hi, ht⟩

/-- **A response in the channel of a client belongs to a request that the client made.** -/
theorem Reachable.req_of_rspIds (h : Reachable s) (hc : (s.stubs conn).client? = some c)
    (hq : q ∈ rspIds (outOn s.log conn)) : ∃ msg, ⟨q, .req msg⟩ ∈ messagesOf c s.log := by
  rw [rspIds, outOn, List.filterMap_flatMap, List.mem_flatMap] at hq
  obtain ⟨r, hr, hq⟩ := hq
  obtain ⟨j, hj⟩ := List.mem_iff_getElem?.mp hr
  obtain ⟨i, p, params, msg, -, r₀, hi, ht⟩ := h.serves_of_rspIds hc hj hq
  exact ⟨msg, mem_messagesOf.mpr ⟨r₀, List.mem_of_getElem? hi, ht⟩⟩

/-- **The channel of a client that uses no message id twice carries at most one response for each
id.** -/
theorem Reachable.nodup_rspIds (h : Reachable s) (hc : (s.stubs conn).client? = some c)
    (hids : ((messagesOf c s.log).map Msg.id).Nodup) : (rspIds (outOn s.log conn)).Nodup := by
  rw [rspIds, outOn, List.filterMap_flatMap, List.nodup_flatMap]
  constructor
  · intro r _
    change (rspIds (r.outOn conn)).Nodup
    rw [Record.rspIds_outOn]
    cases r.answers.bind _ with
    | none => exact List.nodup_nil
    | some q => exact List.nodup_singleton q
  · rw [List.pairwise_iff_getElem]
    intro j j' hj hj' hlt
    -- two responses for one id would serve the same request
    refine List.disjoint_left.mpr fun q hq hq' => ?_
    obtain ⟨i, p, params, msg, hs, r₀, hi, ht⟩ :=
      h.serves_of_rspIds hc (List.getElem?_eq_getElem hj) hq
    obtain ⟨i', p', params', msg', hs', r₀', hi', ht'⟩ :=
      h.serves_of_rspIds hc (List.getElem?_eq_getElem hj') hq'
    rw [messagesOf, List.map_filterMap] at hids
    have heq : i = i' := index_unique hids hi hi' (b := q) (by rw [ht, from?_eq_some.mpr rfl]; rfl)
      (by rw [ht', from?_eq_some.mpr rfl]; rfl)
    subst heq
    have := hs.unique hs'
    omega

end System

end T2Bus
