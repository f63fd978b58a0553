import T2Bus.Server.Stored

/-!
# Clients that have left

A stub queues the messages of its client and then one Deregister task, so once that task is processed
nothing of the client is still to come, whatever a failed delivery had deregistered before.

* `Core.Gone`: nothing is kept of the client, and nothing is sent to it;
* `System.enqueued`: the tasks in the order in which they were queued; `System.Ordered`;
* **`System.gone_of_deregister`**: after its Deregister task a client is gone for good.
-/

namespace T2Bus

/-- The client that a stub queued the task for. -/
def Task.client? : Task → Option ClientId
  | .message c _ | .deregister c => some c
  | .register _ | .requestTimeout _ => none

/-! ## Nothing is kept -/

namespace Core

/-- The core keeps nothing of the client. -/
structure Gone (core : Core) (c : ClientId) : Prop where
  sender : core.protocolServerSenders c = none
  listed : ¬ core.Listed c
  party : ¬ core.Party c

variable {core : Core} {env : Env} {c : ClientId} {task : Task}

theorem gone_deregisterClient : (core.deregisterClient c).Gone c :=
  ⟨Table.remove_self _ _, fun h => (listed_deregisterClient.mp h).2 rfl,
    fun h => (party_deregisterClient h).2 rfl⟩

theorem Gone.deliverAll (h : core.Gone c) (ids : List ClientId) :
    (core.deliverAll env ids).Gone c := by
  refine ⟨?_, fun hc => h.listed ((listed_deliverAll ids).mp hc).1,
    fun hc => h.party (party_deliverAll hc).1⟩
  rw [deliverAll_senders]
  split_ifs
  · rfl
  · exact h.sender

theorem Gone.own (h : core.Gone c) {d : ClientId} {msg : Msg ProtocolClient} (hd : c ≠ d) :
    (core.own env d msg).Gone c := by
  refine ⟨by rw [own_senders]; exact h.sender, fun hc => ?_, fun hc => ?_⟩
  · exact (listed_own hc).elim h.listed fun h => hd h.1
  · rcases party_own hc with hold | ⟨p, hp, hpc⟩
    · exact h.party hold
    · -- the parties of a new request are its sender and a client with an open channel
      obtain ⟨params, hmsg, -, hreach⟩ := accepts_eq_some.mp
        (show core.accepts env (.message d msg) = some p from hp)
      obtain ⟨rfl, -⟩ := Task.message.inj hmsg
      rcases hpc with hpc | rfl
      · exact hd hpc.symm
      · rw [reach, h.sender] at hreach
        cases hreach

/-- A task of somebody else brings nothing back. -/
theorem Gone.ownTask (h : core.Gone c) (ht : task.client? ≠ some c)
    (hreg : ∀ conn, task = .register conn → c ≠ core.nextClientId) :
    (core.ownTask env task).Gone c := by
  cases task with
  | register conn =>
    exact ⟨(Table.insert_of_ne (hreg conn rfl) conn).trans h.sender, h.listed, h.party⟩
  | deregister d =>
    have hd : c ≠ d := fun he => ht (congrArg some he.symm)
    refine ⟨?_, fun hc => h.listed (listed_deregisterClient.mp hc).1,
      fun hc => h.party (party_deregisterClient hc).1⟩
    rw [Core.ownTask, deregisterClient_senders hd]
    exact h.sender
  | message d msg => exact h.own fun he => ht (congrArg some he.symm)
  | requestTimeout k =>
    refine ⟨by rw [Core.ownTask, own_senders]; exact h.sender, fun hc => ?_, fun hc => ?_⟩
    · exact (listed_own hc).elim h.listed fun h => h.2
    · rcases party_own hc with hc | ⟨p, hp, -⟩
      · exact h.party hc
      · cases hp

/-- Nothing is sent to a client of whom nothing is kept. -/
theorem Gone.not_sent (h : core.Gone c) (hd : core.directory.Sound)
    (hv : ∀ d msg, task = .message d msg → msg.content.Valid) {content : ProtocolServer} :
    (c, content) ∉ core.taskSends env task := by
  have hrsp : ∀ (d : ClientId) (params : RspMsg) (p : PendingResponse),
      core.answered d params = some p → p.requesterId ≠ c := by
    rintro d params p hp rfl
    exact h.party ⟨_, p, (Option.filter_eq_some_iff.mp hp).1, .inl rfl⟩
  obtain _ | _ | ⟨d, id, content'⟩ | k := task
  case register => exact List.not_mem_nil
  case deregister => exact List.not_mem_nil
  case requestTimeout =>
    intro hm
    obtain ⟨p, hp, he⟩ := Option.map_eq_some_iff.mp (Option.mem_toList.mp hm)
    exact hrsp _ _ p hp (congrArg Prod.fst he)
  case message =>
    cases content' with
    | pub params =>
      intro hm
      obtain ⟨d', hd', he⟩ := List.mem_map.mp hm
      cases he
      have hsub := (env.order.perm _).subset (Exec.attempts_sublist.subset hd')
      obtain ⟨t, hsub, -⟩ := (Directory.mem_getSubscribers hd (hv _ _ rfl _ rfl)).mp hsub
      exact h.listed ⟨_, .inl hsub⟩
    | req params =>
      intro hm
      obtain ⟨o, ho, he⟩ := Option.map_eq_some_iff.mp (Option.mem_toList.mp hm)
      cases he
      rw [Directory.getOwner_eq] at ho
      split_ifs at ho
      exact h.listed ⟨_, .inr ho⟩
    | rsp params =>
      intro hm
      obtain ⟨p, hp, he⟩ := Option.map_eq_some_iff.mp (Option.mem_toList.mp hm)
      exact hrsp _ _ p hp (congrArg Prod.fst he)
    | _ => exact List.not_mem_nil

end Core

namespace Record

variable {r : Record} {c : ClientId}

/-- An Ack goes to the sender of the message. -/
theorem ack_mem_out {d : Delivery} {ack : AckMsg} (h : d ∈ r.exec.2.out)
    (hack : d.msg.content = .ack ack) : ∃ msg, r.task = .message d.clientId msg ∧
      ∃ res, ack = .of msg.id res := by
  obtain ⟨acks, heq, hacks, -⟩ := Exec.processTask_eq r.env r.task r.core
  rw [exec, heq] at h
  obtain ⟨hmem, -⟩ := Core.mem_deliveries h
  rw [hack] at hmem
  rcases List.mem_append.mp hmem with hsent | hmem
  · exact absurd rfl (Core.taskSends_not_ack hsent ack)
  · obtain ⟨a, ha, he⟩ := List.mem_map.mp hmem
    rcases hacks with rfl | ⟨c, msg, res, ht, rfl⟩
    · cases ha
    · cases List.mem_singleton.mp ha
      cases he
      exact ⟨msg, ht, res, rfl⟩

/-- A task of somebody else sends nothing to a client of whom nothing is kept. -/
theorem not_sent_of_gone (h : r.core.Gone c) (ht : r.task.client? ≠ some c)
    (hd : r.core.directory.Sound) (hv : ∀ d msg, r.task = .message d msg → msg.content.Valid) :
    ∀ d ∈ r.exec.2.out, d.clientId ≠ c := by
  rintro d hout rfl
  obtain ⟨hsent | ⟨ack, hack⟩, -⟩ := mem_out hout
  · exact h.not_sent hd hv hsent
  · obtain ⟨msg, hmsg, -⟩ := ack_mem_out hout hack
    rw [hmsg] at ht
    exact ht rfl

theorem gone_exec (h : r.core.Gone c) (ht : r.task.client? ≠ some c)
    (hreg : ∀ conn, r.task = .register conn → c ≠ r.core.nextClientId) :
    r.exec.2.core.Gone c := by
  obtain ⟨ids, hcore⟩ := r.exec_core
  rw [hcore]
  exact (h.ownTask ht hreg).deliverAll ids

theorem gone_exec_deregister (h : r.task = .deregister c) : r.exec.2.core.Gone c := by
  obtain ⟨ids, hcore⟩ := r.exec_core
  rw [hcore, h]
  exact Core.gone_deregisterClient.deliverAll ids

end Record

/-! ## Nothing is to come -/

namespace System

variable {s s' : System} {act : Act} {c : ClientId}

/-- The tasks in the order in which they were queued. -/
def enqueued (s : System) : List Task := s.log.map Record.task ++ s.tasks

theorem enqueued_step (h : s.step act = some s') :
    s'.enqueued = s.enqueued ∨
      ∃ task, s'.enqueued = s.enqueued ++ [task] ∧ Quiet s s' ∧ Queues s s' task := by
  obtain ⟨-, hq | ⟨order, task, tasks, ht, rfl⟩⟩ := quiet_or_processed h
  · rw [enqueued, enqueued, hq.log]
    rcases hq.tasks with ht | ⟨task, ht, htask⟩
    · exact .inl (by rw [ht])
    · exact .inr ⟨task, by rw [ht, List.append_assoc], hq, htask⟩
  · refine .inl ?_
    rw [enqueued, enqueued, processed, ht, List.map_append, List.append_assoc]
    rfl

/-- The Deregister task of a client is the last that its stub queues. -/
structure Ordered (s : System) : Prop where
  stub : ∀ c, .deregister c ∈ s.enqueued →
    ∃ conn, (s.stubs conn).client? = some c ∧ ∀ c', s.stubs conn ≠ .serving c'
  last : s.enqueued.Pairwise fun task task' => ∀ c, task = .deregister c → task'.client? ≠ some c

/-- A stub that has stopped serving stays so. -/
theorem Ordered.stopped (hs : Reachable s) (h : s.step act = some s') {conn : Conn}
    (hc : (s.stubs conn).client? = some c) (hno : ∀ c', s.stubs conn ≠ .serving c') :
    (s'.stubs conn).client? = some c ∧ ∀ c', s'.stubs conn ≠ .serving c' := by
  obtain ⟨-, hq | ⟨order, task, tasks, ht, rfl⟩⟩ := quiet_or_processed h
  · exact ⟨(hq.client conn).trans hc, fun c' h' => hno c' (hq.serving conn c' h')⟩
  · refine ⟨hs.conns.client_processed order ht hc, fun c' => ?_⟩
    rw [processed_stubs]
    split_ifs with hr
    · -- a connection that registers has no client yet
      have hm : conn ∈ registers s.tasks := by
        rw [ht, show task = _ from hr]
        exact List.mem_cons_self
      rw [hs.conns.queued conn hm] at hc
      cases hc
    · exact hno c'

theorem ordered_init : Ordered init := ⟨by simp [init, enqueued], by simp [init, enqueued]⟩

theorem Ordered.step (hi : Ordered s) (hs : Reachable s) (hreg : registrations s.log < 2 ^ 32)
    (h : s.step act = some s') : Ordered s' := by
  have hold : ∀ c, .deregister c ∈ s.enqueued →
      ∃ conn, (s'.stubs conn).client? = some c ∧ ∀ c', s'.stubs conn ≠ .serving c' := by
    intro c hm
    obtain ⟨conn, hc, hno⟩ := hi.stub c hm
    exact ⟨conn, stopped hs h hc hno⟩
  rcases enqueued_step h with he | ⟨task, he, hq, htask⟩
  · exact ⟨fun c hm => hold c (he ▸ hm), he ▸ hi.last⟩
  · -- only a stub that is serving queues a task of its client, and it has queued no Deregister
    have hnew : ∀ c, .deregister c ∈ s.enqueued → task.client? ≠ some c := by
      intro c hm hclient
      obtain ⟨conn, hc, hno⟩ := hi.stub c hm
      have hserving : ∃ conn', s.stubs conn' = .serving c := by
        cases task with
        | register conn' => cases hclient
        | requestTimeout k => cases hclient
        | message d msg =>
          cases hclient
          exact htask.2
        | deregister d =>
          cases hclient
          obtain ⟨conn', hs', -⟩ := htask
          exact ⟨conn', hs'⟩
      obtain ⟨conn', hs'⟩ := hserving
      have heq := hs.client_inj hreg hc (show (s.stubs conn').client? = some c by rw [hs']; rfl)
      exact hno c (heq ▸ hs')
    refine ⟨fun c hm => ?_, ?_⟩
    · rw [he, List.mem_append, List.mem_singleton] at hm
      rcases hm with hm | rfl
      · exact hold c hm
      · obtain ⟨conn, -, hf⟩ := htask
        exact ⟨conn, by rw [hf]; rfl, by simp [hf]⟩
    · rw [he, List.pairwise_append]
      refine ⟨hi.last, List.pairwise_singleton _ _, fun task' hm task'' hm' c hd => ?_⟩
      cases List.mem_singleton.mp hm'
      exact hnew c (hd ▸ hm)

theorem Reachable.ordered (h : Reachable s) : registrations s.log < 2 ^ 32 → Ordered s := by
  refine Lts.Reachable.induct (I := fun s => registrations s.log < 2 ^ 32 → Ordered s)
    (fun _ => ordered_init) (fun s act s' hs hi hstep hreg => ?_) h
  have hreg' := (registrations_le hstep).trans_lt hreg
  exact (hi hreg').step hs hreg' hstep

/-! ## Gone for good -/

/-- After the Deregister task of a client nothing is kept of it, and nothing is sent to it. -/
def LeavesNoTrace (s : System) : Prop :=
  ∀ (i : ℕ) (r : Record) (c : ClientId), s.log[i]? = some r → r.task = .deregister c →
    s.core.Gone c ∧ ∀ (j : ℕ) (r' : Record), i < j → s.log[j]? = some r' →
      r'.core.Gone c ∧ ∀ d ∈ r'.exec.2.out, d.clientId ≠ c

theorem LeavesNoTrace.processed {order : Order} {task : Task} {tasks : List Task}
    (hi : LeavesNoTrace s) (hs : Reachable s) (ht : s.tasks = task :: tasks)
    (hreg : registrations (s.processed tasks (s.record order task)).log < 2 ^ 32) :
    LeavesNoTrace (s.processed tasks (s.record order task)) := by
  have hle : registrations s.log < 2 ^ 32 := by
    rw [System.processed, registrations_append] at hreg
    omega
  have hordered := hs.ordered hle
  intro i r c hlog hr
  rcases getElem?_concat_iff.mp hlog with hold | ⟨hend, rfl⟩
  · obtain ⟨hgone, hlater⟩ := hi i r c hold hr
    -- the next task is not the client's, and does not hand out its id
    have hmem : .deregister c ∈ s.log.map Record.task :=
      hr ▸ List.mem_map_of_mem (List.mem_of_getElem? hold)
    have htask : task.client? ≠ some c :=
      (List.pairwise_append.mp hordered.last).2.2 _ hmem task (ht ▸ List.mem_cons_self) c rfl
    have hnext : ∀ conn, task = .register conn → c ≠ s.core.nextClientId := by
      intro conn hconn
      obtain ⟨conn', hc, -⟩ := hordered.stub c (List.mem_append_left _ hmem)
      rw [registrations_processed hconn] at hreg
      exact hs.client_ne_next hreg hc
    have hsent := Record.not_sent_of_gone (r := s.record order task) hgone htask hs.valid.sound
      fun d msg hm => hs.valid.tasks d msg (by
        rw [ht, ← show task = _ from hm]
        exact List.mem_cons_self)
    refine ⟨Record.gone_exec (r := s.record order task) hgone htask hnext, fun j r' hij hj => ?_⟩
    rcases getElem?_concat_iff.mp hj with hj | ⟨-, rfl⟩
    · exact hlater j r' hij hj
    · exact ⟨hgone, hsent⟩
  · refine ⟨Record.gone_exec_deregister hr, fun j r' hij hj => ?_⟩
    have hlt := lt_of_getElem? hj
    rw [System.processed, List.length_append, List.length_singleton] at hlt
    omega

/-- **Once the Deregister task of a client is processed, the client is gone for good**: no later
state keeps anything of it, and no later task sends anything to it. -/
theorem gone_of_deregister (h : Reachable s) (hreg : registrations s.log < 2 ^ 32) {i : ℕ}
    {r : Record} (hi : s.log[i]? = some r) (hr : r.task = .deregister c) :
    s.core.Gone c ∧ ∀ (j : ℕ) (r' : Record), i < j → s.log[j]? = some r' →
      r'.core.Gone c ∧ ∀ d ∈ r'.exec.2.out, d.clientId ≠ c := by
  have htrace : registrations s.log < 2 ^ 32 → LeavesNoTrace s := by
    refine Lts.Reachable.induct (I := fun s => registrations s.log < 2 ^ 32 → LeavesNoTrace s)
      (fun _ i r c hlog => by cases hlog) (fun s act s' hs hi hstep hreg => ?_) h
    have hi := hi ((registrations_le hstep).trans_lt hreg)
    obtain ⟨-, hq | ⟨order, task, tasks, ht, rfl⟩⟩ := quiet_or_processed hstep
    · intro i r c
      rw [hq.core, hq.log]
      exact hi i r c
    · exact hi.processed hs ht hreg
  exact htrace hreg i r c hi hr

/-- Client 1 was deregistered by a failed delivery, subscribed after that, and then its Deregister
task was processed; the second client publishes on the topic. -/
def goneAfterAll : List Act :=
  droppedEarly ++ [.process .given, .connect 1, .process .given,
    .receive 1 ⟨1, .pub ⟨⟨"p", ⟨"a"⟩⟩, ⟨[1], false⟩⟩⟩ (by decide), .process .given]

theorem gone_of_deregister_goneAfterAll : ∃ s, Lts.run step init goneAfterAll = some s ∧
    s.core.Gone 1 ∧ ∀ (j : ℕ) (r' : Record), 3 < j → s.log[j]? = some r' →
      r'.core.Gone 1 ∧ ∀ d ∈ r'.exec.2.out, d.clientId ≠ 1 := by
  have hrun : (Lts.run step init goneAfterAll).map (fun s =>
      (registrations s.log, s.log[3]?.map Record.task)) = some (2, some (.deregister 1)) := by rfl
  obtain ⟨s, hs, he⟩ := Option.map_eq_some_iff.mp hrun
  obtain ⟨hreg, hlog⟩ := Prod.mk.inj he
  obtain ⟨r, hr, ht⟩ := Option.map_eq_some_iff.mp hlog
  exact ⟨s, hs, gone_of_deregister ⟨_, hs⟩ (by rw [hreg]; decide) hr ht⟩

end System

end T2Bus
