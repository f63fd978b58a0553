import T2Bus.Server.Owners

/-!
# What a message leaves alone

Among the subscriptions, the owners and the pending requests of clients with an open channel, a message
changes its sender's share, and a refused one changes nothing. The message ids are `u32`: when they
have come round to one that is still pending, a request that is accepted takes its place.

* `Record.Live`, `Record.LivePending`: the facts that are looked at;
* `Record.Confined`: what the message of a record changes among them;
* `Record.Entitled`: the pending requests that a message may settle; `Record.Settles`: those that it
  does settle; **`Record.confined`**;
* `Record.not_confined_of_accepts`, `Record.not_confined_of_answers`: what ends a request of others;
* `System.not_confined_knocking`, `System.not_confined_crowding`: the ids come round.
-/

namespace T2Bus

namespace Record

variable (r : Record)

/-! ## Frame -/

/-- The client is registered, and its channel is open. -/
def Live (c : ClientId) : Prop := (r.core.reach r.env c).isSome

/-- A request is pending between two clients with open channels. -/
def LivePending (core : Core) (k : MsgId) (p : PendingResponse) : Prop :=
  core.pendingResponses k = some p ∧ r.Live p.requesterId ∧ r.Live p.responderId

/-- The task is a message of `c` that changes, among the facts about live clients, only whether `c` has
the subscription, or owns the topic, that it is about; adds at most the pending request that it
makes; ends only pending requests in `ends`; and changes none of these facts if its Ack carries an
error. -/
structure Confined (c : ClientId) (msg : Msg ProtocolClient)
    (ends : MsgId → PendingResponse → Prop) : Prop where
  subscribed : ∀ d t, r.Live d →
    (r.exec.2.core.directory.Subscribed d t ↔ r.core.directory.Subscribed d t) ∨
      d = c ∧ (msg.content = .sub ⟨t⟩ ∨ msg.content = .unsub ⟨t⟩)
  owner : ∀ d t, r.Live d →
    (r.exec.2.core.directory.getOwner t = some d ↔ r.core.directory.getOwner t = some d) ∨
      d = c ∧ (msg.content = .srv ⟨t⟩ ∨ msg.content = .unsrv ⟨t⟩)
  added : ∀ k p, r.LivePending r.exec.2.core k p → r.LivePending r.core k p ∨
    (∃ params, msg.content = .req params) ∧ k = r.core.nextMsgId ∧ p.requesterId = c
  ended : ∀ k p, r.LivePending r.core k p → r.LivePending r.exec.2.core k p ∨ ends k p
  refused : (∃ a ∈ acks r.exec.2.out c, a.err ≠ none) →
    (∀ d t, r.Live d →
      (r.exec.2.core.directory.Subscribed d t ↔ r.core.directory.Subscribed d t) ∧
        (r.exec.2.core.directory.getOwner t = some d ↔ r.core.directory.getOwner t = some d)) ∧
      ∀ k p, r.LivePending r.exec.2.core k p ↔ r.LivePending r.core k p

/-- The request that a Rsp of its responder answers. -/
def Entitled (c : ClientId) (msg : Msg ProtocolClient) (k : MsgId) (p : PendingResponse) : Prop :=
  ∃ params, msg.content = .rsp params ∧ k = params.reqId ∧ p.responderId = c

/-- The request that a Rsp answers, client id 0 being allowed to answer for anybody, or the one whose
id a new request takes. -/
def Settles (c : ClientId) (msg : Msg ProtocolClient) (k : MsgId) (p : PendingResponse) : Prop :=
  (∃ params, msg.content = .rsp params ∧ k = params.reqId ∧ (c = 0 ∨ p.responderId = c)) ∨
    (∃ params, msg.content = .req params) ∧ k = r.core.nextMsgId

variable {r} {c d : ClientId} {msg : Msg ProtocolClient} {t : Topic} {k : MsgId}
  {p : PendingResponse}

/-- A live client is not deregistered by deliveries. -/
theorem Live.not_drops (h : r.Live d) (ids : List ClientId) :
    ¬ (r.core.own r.env c msg).Drops r.env ids d := by
  rintro ⟨-, conn, hs, ho⟩
  rw [Core.own_senders] at hs
  obtain ⟨conn', hr⟩ := Option.isSome_iff_exists.mp h
  obtain ⟨hs', ho'⟩ := Core.reach_eq_some.mp hr
  cases hs.symm.trans hs'
  exact absurd (ho.symm.trans ho') (by decide)

theorem exec_core_message (ht : r.task = .message c msg) :
    ∃ ids, r.exec.2.core = (r.core.own r.env c msg).deliverAll r.env ids := by
  obtain ⟨ids, hcore⟩ := r.exec_core
  rw [ht] at hcore
  exact ⟨ids, hcore⟩

theorem subscribed_exec (ht : r.task = .message c msg) (hd : r.Live d) :
    r.exec.2.core.directory.Subscribed d t ↔
      (r.core.directory.Subscribed d t ∧ ¬ (d = c ∧ msg.content = .unsub ⟨t⟩)) ∨
        d = c ∧ msg.content = .sub ⟨t⟩ := by
  obtain ⟨ids, hcore⟩ := exec_core_message ht
  rw [hcore, Core.subscribed_deliverAll, and_iff_left (hd.not_drops ids), Core.subscribed_own]

theorem getOwner_exec (ht : r.task = .message c msg) (hd : r.Live d) :
    r.exec.2.core.directory.getOwner t = some d ↔
      d = c ∧ msg.content = .srv ⟨t⟩ ∧ r.core.Claimable d t ∨
        r.core.directory.getOwner t = some d ∧ ¬ (d = c ∧ msg.content = .unsrv ⟨t⟩) := by
  obtain ⟨ids, hcore⟩ := exec_core_message ht
  rw [hcore, Core.getOwner_deliverAll, and_iff_left (hd.not_drops ids), Core.getOwner_own]

theorem livePending_exec (ht : r.task = .message c msg) :
    r.LivePending r.exec.2.core k p ↔
      r.core.settled r.env (.message c msg) k = some p ∧ r.Live p.requesterId ∧
        r.Live p.responderId := by
  obtain ⟨ids, hcore⟩ := exec_core_message ht
  rw [LivePending, hcore, Core.deliverAll_pending, Core.own_pending, and_assoc]
  refine and_congr_right fun _ => ?_
  constructor
  · rintro ⟨-, hlive⟩
    exact hlive
  · rintro ⟨hreq, hresp⟩
    exact ⟨⟨hreq.not_drops ids, hresp.not_drops ids⟩, hreq, hresp⟩

/-! ## Refusals -/

/-- A message whose Ack carries an error. -/
def Refused (r : Record) (c : ClientId) : Prop := ∃ a ∈ acks r.exec.2.out c, a.err ≠ none

/-- The result of a refused message is the error. -/
theorem Refused.error (h : r.Refused c) (ht : r.task = .message c msg) :
    ∃ e, (Exec.processContent r.env c msg (.start r.core)).1 = .error (.err e) := by
  obtain ⟨a, ha, herr⟩ := h
  rw [exec, ht] at ha
  rcases Exec.processContent_fst r.env (.start r.core) c msg with hp | ⟨res, hres⟩
  · rw [Exec.acks_message_panic hp] at ha
    cases ha
  · rw [Exec.acks_message hres] at ha
    cases List.mem_singleton.mp ha
    cases res with
    | ok n => exact absurd rfl herr
    | error e => exact ⟨e, hres⟩

theorem Refused.ne_sub (h : r.Refused c) (ht : r.task = .message c msg) (params : SubMsg) :
    msg.content ≠ .sub params := by
  obtain ⟨e, he⟩ := h.error ht
  obtain ⟨id, content⟩ := msg
  rintro rfl
  cases he

theorem Refused.ne_unsub (h : r.Refused c) (ht : r.task = .message c msg) (params : UnsubMsg) :
    msg.content ≠ .unsub params := by
  obtain ⟨e, he⟩ := h.error ht
  obtain ⟨id, content⟩ := msg
  rintro rfl
  have hok : (r.core.directory.unsubscribe c params.topic).1 = .ok () :=
    Directory.unsubscribeSegments_ok _ _ _
  rw [Exec.processContent, Exec.noCount_fst] at he
  simp [Exec.unsubscribe, Exec.onDirectory, Exec.start, hok, Except.map, Except.mapError] at he

theorem Refused.not_claimable (h : r.Refused c) (ht : r.task = .message c msg)
    (hsrv : msg.content = .srv ⟨t⟩) : ¬ r.core.Claimable c t := by
  obtain ⟨id, content⟩ := msg
  obtain rfl : content = _ := hsrv
  obtain ⟨a, ha, hiff⟩ := err_of_srv ht
  obtain ⟨a', ha', herr⟩ := h
  rw [ha, List.mem_singleton] at ha'
  rwa [← hiff, ← ha']

/-- Only an Unsrv on a wildcard is refused, and nobody owns one. -/
theorem Refused.not_owner (h : r.Refused c) (ht : r.task = .message c msg)
    (hunsrv : msg.content = .unsrv ⟨t⟩) : r.core.directory.getOwner t ≠ some d := by
  obtain ⟨e, he⟩ := h.error ht
  obtain ⟨id, content⟩ := msg
  obtain rfl : content = _ := hunsrv
  intro ho
  have hok := Directory.unclaim_ok (d := r.core.directory) c (Directory.not_hasWildcard_of_getOwner ho)
  rw [Exec.processContent, Exec.noCount_fst] at he
  simp [Exec.unserve, Exec.onDirectory, Exec.start, hok, Except.map, Except.mapError] at he

theorem Refused.not_accepted (h : r.Refused c) (ht : r.task = .message c msg) :
    r.core.accepts r.env (.message c msg) = none := by
  cases hacc : r.core.accepts r.env (.message c msg) with
  | none => rfl
  | some p =>
    obtain ⟨params, hmsg, -⟩ := Core.accepts_eq_some.mp hacc
    obtain ⟨rfl, rfl⟩ := Task.message.inj hmsg
    obtain ⟨a, ha, hnone⟩ := Exec.acks_req.mpr (Option.isSome_of_mem hacc)
    obtain ⟨a', ha', herr⟩ := h
    rw [exec, ht, ha, List.mem_singleton] at ha'
    exact absurd (ha' ▸ hnone) herr

/-- A Rsp that answers a request is refused only if the requester is not reached. -/
theorem Refused.not_live (h : r.Refused c) (ht : r.task = .message c msg) {params : RspMsg}
    (hans : r.core.answers (.message c msg) = some (p, params)) : ¬ r.Live p.requesterId := by
  intro hlive
  obtain ⟨conn, hr⟩ := Option.isSome_iff_exists.mp hlive
  obtain ⟨e, he⟩ := h.error ht
  obtain ⟨id, content⟩ := msg
  cases content with
  | rsp params' =>
    obtain ⟨p', hp', hpp⟩ := Option.map_eq_some_iff.mp hans
    cases hpp
    have hfst := Exec.respond_fst r.env (.start r.core) c params
    rw [show (Exec.start r.core).core.answered c params = some p from hp'] at hfst
    rw [Exec.processContent, Exec.noCount_fst, hfst] at he
    simp [Exec.start, Exec.deliverResult_ok hr, Except.map, Except.mapError] at he
  | _ => cases hans

/-! ## The frame of a message -/

/-- A request that is accepted ends the pending one with its id. -/
theorem not_confined_of_accepts {q : PendingResponse} (ht : r.task = .message c msg)
    (hlive : r.LivePending r.core r.core.nextMsgId p)
    (hacc : r.core.accepts r.env (.message c msg) = some q) (hne : q ≠ p) :
    ¬ r.Confined c msg (Entitled c msg) := by
  intro h
  rcases h.ended _ p hlive with hafter | ⟨params, hrsp, -⟩
  · rcases Core.settled_eq_some.mp ((livePending_exec ht).mp hafter).1 with ⟨hacc', -⟩ | ⟨-, hno, -⟩
    · exact hne (Option.some.inj (hacc.symm.trans hacc'))
    · exact hno _ hacc rfl
  · obtain ⟨params', hreq, -⟩ := Core.accepts_eq_some.mp hacc
    cases hreq
    cases hrsp

/-- A Rsp that is accepted from a client other than the responder ends its pending request. -/
theorem not_confined_of_answers {params : RspMsg} (ht : r.task = .message c msg)
    (hans : r.core.answers (.message c msg) = some (p, params))
    (hlive : r.LivePending r.core params.reqId p) (hne : p.responderId ≠ c) :
    ¬ r.Confined c msg (Entitled c msg) := by
  intro h
  rcases h.ended _ p hlive with hafter | ⟨params', -, -, hresp⟩
  · rcases Core.settled_eq_some.mp ((livePending_exec ht).mp hafter).1 with ⟨hacc, -⟩ | ⟨-, -, hno⟩
    · obtain ⟨params', hreq, -⟩ := Core.accepts_eq_some.mp hacc
      cases hreq
      obtain ⟨-, ⟨c', id, hrsp, -⟩ | ⟨htimeout, -⟩⟩ := Core.answers_eq_some.mp hans
      · cases hrsp
      · cases htimeout
    · exact hno _ _ hans rfl
  · exact hne hresp

end Record

/-! ## The message ids come round -/

namespace System

variable {s : System}

theorem live_record {c : ClientId} {conn : Conn} (order : Order) (task : Task)
    (hc : s.core.protocolServerSenders c = some conn) (ho : s.isOpen conn = true) :
    (s.record order task).Live c :=
  Option.isSome_of_mem (Core.reach_eq_some.mpr ⟨hc, ho⟩)

/-- A keep-alive of the client on connection 2. -/
def knock : List Act := [.receive 2 ⟨0, .keepAlive⟩ (by decide), .process .given]

/-- Knocking takes one message id, for the Ack, and does nothing else. -/
theorem run_knock (hrun : s.status = .running) (ht : s.tasks = []) (hstub : s.stubs 2 = .serving 3)
    (hc : s.core.protocolServerSenders 3 = some 2) :
    ∃ s', Lts.run step s knock = some s' ∧ s'.status = .running ∧ s'.tasks = [] ∧
      s'.stubs = s.stubs ∧ s'.core = s.core.bump := by
  have hreach : s.core.reach ⟨s.isOpen, .given⟩ 3 = some 2 := by
    refine Core.reach_eq_some.mpr ⟨hc, ?_⟩
    change (s.stubs 2).isOpen = true
    rw [hstub]
    rfl
  have hstep : s.step (.receive 2 ⟨0, .keepAlive⟩ (by decide)) =
      some (s.enqueue (.message 3 ⟨0, .keepAlive⟩)) := by
    rw [step, if_pos hrun, stepRunning, hstub]
  have hstep' : (s.enqueue (.message 3 ⟨0, .keepAlive⟩)).step (.process .given) =
      some ((s.enqueue (.message 3 ⟨0, .keepAlive⟩)).processed []
        (s.record .given (.message 3 ⟨0, .keepAlive⟩))) := by
    rw [step, if_pos (by exact hrun), stepRunning, enqueue, ht]
    rfl
  have hexec : (s.record .given (.message 3 ⟨0, .keepAlive⟩)).exec =
      (.ok false, (Exec.start s.core).deliverList ⟨s.isOpen, .given⟩ [(3, .ack ⟨0, none, none⟩)]) := by
    rw [Record.exec, record, Exec.processTask, Exec.processMsg_eq (r := .ok none) rfl]
    simp [Exec.withOwn, Core.own, Core.accepted, Core.sends, AckMsg.of]
  have hknock : Lts.run step s knock = some ((s.enqueue (.message 3 ⟨0, .keepAlive⟩)).processed []
      (s.record .given (.message 3 ⟨0, .keepAlive⟩))) := by
    rw [knock, Lts.run_cons, hstep, Option.bind_some, Lts.run_cons, hstep']
    rfl
  refine ⟨_, hknock, ?_, rfl, ?_, ?_⟩
  · rw [processed, hexec]
    rfl
  · rw [processed, hexec]
    rfl
  · rw [processed, hexec]
    exact Core.afterDeliver_of_reach hreach

theorem run_knocks (n : ℕ) (hrun : s.status = .running) (ht : s.tasks = [])
    (hstub : s.stubs 2 = .serving 3) (hc : s.core.protocolServerSenders 3 = some 2) :
    ∃ s', Lts.run step s (List.replicate n knock).flatten = some s' ∧ s'.status = .running ∧
      s'.tasks = [] ∧ s'.stubs = s.stubs ∧
      s'.core = { s.core with nextMsgId := s.core.nextMsgId + UInt32.ofNat n } := by
  induction n generalizing s with
  | zero => exact ⟨s, rfl, hrun, ht, rfl, by simp⟩
  | succ n ih =>
    obtain ⟨s', hs', hrun', ht', hstubs, hcore⟩ := run_knock hrun ht hstub hc
    obtain ⟨s'', hs'', hrun'', ht'', hstubs', hcore'⟩ := ih hrun' ht' (by rw [hstubs, hstub])
      (by rw [hcore]; exact hc)
    refine ⟨s'', ?_, hrun'', ht'', hstubs'.trans hstubs, ?_⟩
    · rw [List.replicate_succ, List.flatten_cons, Lts.run_append, hs']
      exact hs''
    · rw [hcore', hcore, Core.bump, UInt32.ofNat_add, UInt32.add_comm (UInt32.ofNat n),
        ← UInt32.add_assoc]
      rfl

/-- Client 2 waits for the answer to a request that has id 1, client 3 connects and knocks, and then
makes a request of its own. -/
def knocking (n : ℕ) : List Act :=
  requested ++ [.connect 2, .process .given] ++ (List.replicate n knock).flatten ++
    [.receive 2 ⟨1, .req ⟨⟨"p", ⟨"a"⟩⟩, ⟨[3], false⟩⟩⟩ (by decide)]

/-- When the message ids have come round to 1, the request of client 3 ends that of client 2. -/
theorem not_confined_knocking {n : ℕ} (hn : (3 : UInt32) + UInt32.ofNat n = 1) :
    ∃ s, Lts.run step init (knocking n) = some s ∧ s.status = .running ∧
      ∃ msg, s.tasks = [.message 3 msg] ∧
        ¬ (s.record .given (.message 3 msg)).Confined 3 msg (Record.Entitled 3 msg) := by
  have hsetup : (Lts.run step init (requested ++ [.connect 2, .process .given])).map (fun s =>
      (s.status, s.tasks, s.stubs 0, s.stubs 1, s.stubs 2, s.core.protocolServerSenders 1,
        s.core.protocolServerSenders 2, s.core.protocolServerSenders 3, s.core.nextMsgId,
        s.core.pendingResponses 1, s.core.directory.getOwner ⟨"p", ⟨"a"⟩⟩)) =
      some (.running, [], .serving 1, .serving 2, .serving 3, some 0, some 1, some 2, 3,
        some ⟨1, 1, 2⟩, some 1) := by rfl
  obtain ⟨s, hs, he⟩ := Option.map_eq_some_iff.mp hsetup
  obtain ⟨hrun, ht, hs₀, hs₁, hs₂, h₁, h₂, h₃, hid, hp, ho⟩ := by
    simpa only [Prod.mk.injEq] using he
  obtain ⟨s', hs', hrun', ht', hstubs, hcore⟩ := run_knocks n hrun ht hs₂ h₃
  rw [hid, hn] at hcore
  set msg : Msg ProtocolClient := ⟨1, .req ⟨⟨"p", ⟨"a"⟩⟩, ⟨[3], false⟩⟩⟩ with hmsg
  have hstep : s'.step (.receive 2 msg (by decide)) = some (s'.enqueue (.message 3 msg)) := by
    rw [step, if_pos hrun', stepRunning, hstubs, hs₂]
  have hrun₁ : Lts.run step init (knocking n) = some (s'.enqueue (.message 3 msg)) := by
    rw [knocking, Lts.run_append, Lts.run_append, hs, Option.bind_some, hs', Option.bind_some,
      Lts.run_cons, hstep]
    rfl
  refine ⟨_, hrun₁, hrun', msg, by rw [enqueue, ht']; rfl, ?_⟩
  have hlive : ∀ c conn, s.core.protocolServerSenders c = some conn → s.stubs conn = .serving c →
      ((s'.enqueue (.message 3 msg)).record .given (.message 3 msg)).Live c := by
    intro c conn hc hstub
    refine live_record _ _ ((congrArg (fun core => core.protocolServerSenders c) hcore).trans hc) ?_
    change (s'.stubs conn).isOpen = true
    rw [hstubs, hstub]
    rfl
  have hid' : s'.core.nextMsgId = 1 := by rw [hcore]
  have hp' : s'.core.pendingResponses s'.core.nextMsgId = some ⟨1, 1, 2⟩ := by
    rw [hid', hcore]
    exact hp
  have ho' : s'.core.directory.getOwner ⟨"p", ⟨"a"⟩⟩ = some 1 := by
    rw [hcore]
    exact ho
  -- the id is taken by the request of client 3
  refine Record.not_confined_of_accepts (p := ⟨1, 1, 2⟩) (q := ⟨1, 1, 3⟩) rfl
    ⟨hp', hlive 2 1 h₂ hs₁, hlive 1 0 h₁ hs₀⟩ ?_ (by decide)
  exact Core.accepts_eq_some.mpr ⟨_, rfl, ho', hlive 1 0 h₁ hs₀⟩

/-! ## The client ids come round -/

/-- Connect, and have the registration processed. -/
def joins (conn : Conn) : List Act := [.connect conn, .process .given]

theorem run_joins {conn : Conn} (hrun : s.status = .running) (ht : s.tasks = [])
    (hconn : s.stubs conn = .absent) :
    ∃ s', Lts.run step s (joins conn) = some s' ∧ s'.status = .running ∧ s'.tasks = [] ∧
      s'.stubs = Function.update s.stubs conn (.serving s.core.nextClientId) ∧
      s'.core = { s.core with
        nextClientId := s.core.nextClientId + 1
        protocolServerSenders := s.core.protocolServerSenders.insert s.core.nextClientId conn } := by
  obtain ⟨s₁, hs₁⟩ : ∃ s₁, (s.setStub conn .accepted).enqueue (.register conn) = s₁ := ⟨_, rfl⟩
  have hstep : s.step (.connect conn) = some s₁ := by
    rw [step, if_pos hrun, stepRunning, if_pos hconn, hs₁]
  have hstep' : s₁.step (.process .given) =
      some (s₁.processed [] (s₁.record .given (.register conn))) := by
    rw [← hs₁, step, if_pos (by exact hrun), stepRunning, enqueue, setStub, ht]
    rfl
  have hjoins : Lts.run step s (joins conn) =
      some (s₁.processed [] (s₁.record .given (.register conn))) := by
    rw [joins, Lts.run_cons, hstep, Option.bind_some, Lts.run_cons, hstep']
    rfl
  refine ⟨_, hjoins, ?_⟩
  subst hs₁
  refine ⟨rfl, rfl, ?_, rfl⟩
  funext conn'
  rw [processed_stubs]
  by_cases hc : conn' = conn
  · subst hc
    rw [Function.update_self]
    exact if_pos rfl
  · rw [if_neg, Function.update_of_ne hc]
    · exact setStub_of_ne hc _
    · intro hreg
      cases hreg
      exact hc rfl

/-- After `n` registrations on new connections everybody else is as before. -/
theorem run_crowd (b n : ℕ) (hrun : s.status = .running) (ht : s.tasks = [])
    (hconn : ∀ conn, b ≤ conn → s.stubs conn = .absent) :
    ∃ s', Lts.run step s ((List.range n).flatMap fun i => joins (b + i)) = some s' ∧
      s'.status = .running ∧ s'.tasks = [] ∧ (∀ conn, conn < b → s'.stubs conn = s.stubs conn) ∧
      (∀ conn, b + n ≤ conn → s'.stubs conn = .absent) ∧
      s'.core.nextClientId = s.core.nextClientId + UInt32.ofNat n ∧
      s'.core.pendingResponses = s.core.pendingResponses ∧
      ∀ c, (∀ i, i < n → c ≠ s.core.nextClientId + UInt32.ofNat i) →
        s'.core.protocolServerSenders c = s.core.protocolServerSenders c := by
  induction n with
  | zero => exact ⟨s, rfl, hrun, ht, fun _ _ => rfl, hconn, by simp, rfl, fun _ _ => rfl⟩
  | succ n ih =>
    obtain ⟨s', hs', hrun', ht', hold, hnew, hnext, hpending, hsenders⟩ := ih
    obtain ⟨s'', hs'', hrun'', ht'', hstubs, hcore⟩ := run_joins hrun' ht' (hnew (b + n) le_rfl)
    refine ⟨s'', ?_, hrun'', ht'', fun conn hlt => ?_, fun conn hle => ?_, ?_, ?_, fun c hc => ?_⟩
    · rw [List.range_succ, List.flatMap_append, Lts.run_append, hs', List.flatMap_singleton]
      exact hs''
    · have hne : conn ≠ b + n := by omega
      rw [hstubs, Function.update_of_ne hne, hold conn hlt]
    · have hne : conn ≠ b + n := by omega
      rw [hstubs, Function.update_of_ne hne]
      exact hnew conn (by omega)
    · rw [hcore, UInt32.ofNat_add, ← UInt32.add_assoc, ← hnext]
      rfl
    · rw [hcore]
      exact hpending
    · have hne : c ≠ s'.core.nextClientId := hnext ▸ hc n (Nat.lt_succ_self n)
      rw [hcore]
      exact (Table.insert_of_ne hne _).trans (hsenders c fun i hi => hc i (by omega))

/-- Client 2 waits for the answer of client 1, many others connect, and the last of them answers. -/
def crowding (n : ℕ) : List Act :=
  requested ++ ((List.range n).flatMap fun i => joins (2 + i)) ++ joins (2 + n) ++
    [.receive (2 + n) ⟨1, .rsp ⟨1, .ok, ⟨[3], false⟩⟩⟩ (by decide)]

/-- When the client ids have come round to 0, the Rsp of client 0 ends the request that client 2 has
made to client 1. -/
theorem not_confined_crowding {n : ℕ} (hn : (3 : UInt32) + UInt32.ofNat n = 0)
    (hlt : n + 3 ≤ 2 ^ 32) :
    ∃ s, Lts.run step init (crowding n) = some s ∧ s.status = .running ∧
      ∃ msg, s.tasks = [.message 0 msg] ∧
        ¬ (s.record .given (.message 0 msg)).Confined 0 msg (Record.Entitled 0 msg) := by
  have hsetup : (Lts.run step init requested).map (fun s =>
      (s.status, s.tasks, s.stubs, s.core.protocolServerSenders 1,
        s.core.protocolServerSenders 2, s.core.nextClientId, s.core.pendingResponses 1)) =
      some (.running, [], Function.update (Function.update (Function.update (Function.update
        (fun _ => .absent) 0 .accepted) 0 (.serving 1)) 1 .accepted) 1 (.serving 2),
        some 0, some 1, 3, some ⟨1, 1, 2⟩) := by rfl
  obtain ⟨s, hs, he⟩ := Option.map_eq_some_iff.mp hsetup
  obtain ⟨hrun, ht, hstubs, h₁, h₂, hid, hp⟩ := by simpa only [Prod.mk.injEq] using he
  have hconn : ∀ conn, 2 ≤ conn → s.stubs conn = .absent := by
    intro conn hle
    have h₀ : conn ≠ 0 := (Nat.lt_of_lt_of_le Nat.zero_lt_two hle).ne'
    have h₁ : conn ≠ 1 := (Nat.lt_of_lt_of_le Nat.one_lt_two hle).ne'
    rw [hstubs, Function.update_of_ne h₁, Function.update_of_ne h₁, Function.update_of_ne h₀,
      Function.update_of_ne h₀]
  obtain ⟨s', hs', hrun', ht', hold, hnew, hnext, hpending, hsenders⟩ :=
    run_crowd 2 n hrun ht hconn
  obtain ⟨s'', hs'', hrun'', ht'', hstubs'', hcore⟩ := run_joins hrun' ht' (hnew (2 + n) le_rfl)
  rw [hnext, hid, hn] at hcore hstubs''
  -- the ids that were handed out in the meantime are not those of the two clients
  have hother : ∀ c : ClientId, c.toNat < 3 → c ≠ 0 →
      s''.core.protocolServerSenders c = s.core.protocolServerSenders c := by
    intro c hc h₀
    rw [hcore]
    refine (Table.insert_of_ne h₀ _).trans (hsenders c fun i hi => ?_)
    rw [hid]
    rintro rfl
    have h3 : (3 : UInt32) = UInt32.ofNat 3 := rfl
    rw [h3, ← UInt32.ofNat_add, UInt32.toNat_ofNat', Nat.mod_eq_of_lt (by omega)] at hc
    omega
  set msg : Msg ProtocolClient := ⟨1, .rsp ⟨1, .ok, ⟨[3], false⟩⟩⟩ with hmsg
  have hstub : s''.stubs (2 + n) = .serving 0 := by rw [hstubs'', Function.update_self]
  have hstep : s''.step (.receive (2 + n) msg (by decide)) = some (s''.enqueue (.message 0 msg)) := by
    rw [step, if_pos hrun'', stepRunning, hstub]
  have hrun₁ : Lts.run step init (crowding n) = some (s''.enqueue (.message 0 msg)) := by
    rw [crowding, Lts.run_append, Lts.run_append, Lts.run_append, hs, Option.bind_some, hs',
      Option.bind_some, hs'', Option.bind_some, Lts.run_cons, hstep]
    rfl
  refine ⟨_, hrun₁, hrun'', msg, by rw [enqueue, ht'']; rfl, ?_⟩
  have hlive : ∀ c conn, s''.core.protocolServerSenders c = some conn → conn < 2 →
      (s.stubs conn).isOpen = true →
      ((s''.enqueue (.message 0 msg)).record .given (.message 0 msg)).Live c := by
    intro c conn hc hconn hopen
    refine live_record _ _ hc ?_
    change (s''.stubs conn).isOpen = true
    have hne : conn ≠ 2 + n := (Nat.lt_of_lt_of_le hconn (Nat.le_add_right 2 n)).ne
    rw [hstubs'', Function.update_of_ne hne, hold conn hconn]
    exact hopen
  have hlive₁ := hlive 1 0 ((hother 1 (by decide) (by decide)).trans h₁) (by decide)
    (by rw [hstubs]; rfl)
  have hlive₂ := hlive 2 1 ((hother 2 (by decide) (by decide)).trans h₂) (by decide)
    (by rw [hstubs]; rfl)
  have hwaits : s''.core.pendingResponses 1 = some ⟨1, 1, 2⟩ := by
    rw [hcore]
    exact (congrFun hpending 1).trans hp
  -- client 0 may answer for anybody
  have hans : s''.core.answers (.message 0 msg) = some (⟨1, 1, 2⟩, ⟨1, .ok, ⟨[3], false⟩⟩) :=
    Core.answers_eq_some.mpr ⟨hwaits, .inl ⟨0, 1, rfl, .inl rfl⟩⟩
  exact Record.not_confined_of_answers rfl hans ⟨hwaits, hlive₂, hlive₁⟩ (by decide)

end System

end T2Bus
