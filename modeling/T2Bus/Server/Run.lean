import T2Bus.Lib.Lts
import T2Bus.Server.Step
import Mathlib.Logic.Function.Basic

/-!
# Runs of the server

The core with its task queue, the timers of accepted requests and the client stubs, which work on
their own: each of them is a few actions of a transition system.

* `Stub`: the life of a connection: its Register task, its messages, its one Deregister task, and
  last the end of its channel;
* `System`, `Act`, `System.step`; `Record`: a processed task with the state it was processed in;
* **`System.quiet_or_processed`**: what an action does;
* `System.Conns`, `System.Valid`: which connection belongs to which client; the directory is sound.
-/

namespace T2Bus

/-- How far the client stub of a connection has come. -/
inductive Stub where
  | absent
  /-- The Register task is queued. -/
  | accepted
  | serving (clientId : ClientId)
  /-- The Deregister task is queued, and the channel is about to close. -/
  | finishing (clientId : ClientId)
  | gone (clientId : ClientId)
  deriving DecidableEq

/-- The client id that a stub was given. -/
def Stub.client? : Stub → Option ClientId
  | .absent | .accepted => none
  | .serving c | .finishing c | .gone c => some c

def Stub.isOpen : Stub → Bool
  | .serving _ | .finishing _ => true
  | .absent | .accepted | .gone _ => false

inductive Status where
  | running
  | stopped
  | failed (fault : Fault)
  deriving DecidableEq

/-- What `run` does with the result of `process_task`. -/
def Status.of : Except Fault Bool → Status
  | .ok false => .running
  | .ok true => .stopped
  | .error fault => .failed fault

/-- A task that was processed, with the core and the environment it was processed in. -/
structure Record where
  core : Core
  env : Env
  task : Task

namespace Record

variable (r : Record)

/-- The result of the task, the core afterwards, and what left it. -/
def exec : Except Fault Bool × Exec := Exec.processTask r.env r.task (.start r.core)

def accepts : Option PendingResponse := r.core.accepts r.env r.task

def answers : Option (PendingResponse × RspMsg) := r.core.answers r.task

end Record

structure System where
  core : Core
  tasks : List Task
  timers : List MsgId
  stubs : Conn → Stub
  status : Status
  /-- The processed tasks, oldest first. -/
  log : List Record

inductive Act where
  /-- The listener hands over a connection. -/
  | connect (conn : Conn)
  /-- A client stub receives a message; the wire decoder has checked its topic. -/
  | receive (conn : Conn) (msg : Msg ProtocolClient) (valid : msg.content.Valid)
  /-- A client stub stops serving: the transport or the channel ended, or the client was silent. -/
  | leave (conn : Conn)
  /-- A client stub ends, and its channel with it. -/
  | close (conn : Conn)
  /-- The timer of a request fires. -/
  | fire (k : MsgId)
  /-- The core processes the next task. -/
  | process (order : Order)
  /-- The stop signal arrives. -/
  | stopSignal

namespace System

def init : System where
  core := .new
  tasks := []
  timers := []
  stubs := fun _ => .absent
  status := .running
  log := []

def isOpen (s : System) (conn : Conn) : Bool := (s.stubs conn).isOpen

def setStub (s : System) (conn : Conn) (stub : Stub) : System :=
  { s with stubs := Function.update s.stubs conn stub }

def enqueue (s : System) (task : Task) : System := { s with tasks := s.tasks ++ [task] }

/-- The stubs after some were spawned. -/
def spawn (stubs : Conn → Stub) (spawned : List (ClientId × Conn)) : Conn → Stub :=
  spawned.foldl (fun stubs x => Function.update stubs x.2 (.serving x.1)) stubs

/-- The record of the next task. -/
def record (s : System) (order : Order) (task : Task) : Record := ⟨s.core, ⟨s.isOpen, order⟩, task⟩

/-- The system after the next task. -/
def processed (s : System) (tasks : List Task) (r : Record) : System where
  core := r.exec.2.core
  tasks := tasks
  timers := s.timers ++ r.exec.2.timers
  stubs := spawn s.stubs r.exec.2.stubs
  status := .of r.exec.1
  log := s.log ++ [r]

/-- An action of a running server. -/
def stepRunning (s : System) : Act → Option System
  | .connect conn =>
    if s.stubs conn = .absent then some ((s.setStub conn .accepted).enqueue (.register conn))
    else none
  | .receive conn msg _ =>
    match s.stubs conn with
    | .serving c => some (s.enqueue (.message c msg))
    | _ => none
  | .leave conn =>
    match s.stubs conn with
    | .serving c => some ((s.setStub conn (.finishing c)).enqueue (.deregister c))
    | _ => none
  | .close conn =>
    match s.stubs conn with
    | .finishing c => some (s.setStub conn (.gone c))
    | _ => none
  | .fire k =>
    if k ∈ s.timers then some (({ s with timers := s.timers.erase k }).enqueue (.requestTimeout k))
    else none
  | .process order =>
    match s.tasks with
    | [] => none
    | task :: tasks => some (s.processed tasks (s.record order task))
  | .stopSignal => some { s with status := .stopped }

def step (s : System) (act : Act) : Option System :=
  if s.status = .running then s.stepRunning act else none

/-- The states of the server. -/
def Reachable (s : System) : Prop := Lts.Reachable step init s

/-! ## What an action does -/

variable {s s' : System} {act : Act}

theorem step_eq_some : s.step act = some s' ↔ s.status = .running ∧ s.stepRunning act = some s' := by
  rw [step]
  split_ifs with h <;> simp [h]

theorem setStub_self (conn : Conn) (stub : Stub) : (s.setStub conn stub).stubs conn = stub :=
  Function.update_self ..

theorem setStub_of_ne {conn conn' : Conn} (h : conn' ≠ conn) (stub : Stub) :
    (s.setStub conn stub).stubs conn' = s.stubs conn' := Function.update_of_ne h ..

/-- Where a queued task comes from. -/
def Queues (s s' : System) : Task → Prop
  | .register conn => s.stubs conn = .absent ∧ s'.stubs conn = .accepted
  | .message c msg => msg.content.Valid ∧ ∃ conn, s.stubs conn = .serving c
  | .deregister c => ∃ conn, s.stubs conn = .serving c ∧ s'.stubs conn = .finishing c
  | .requestTimeout k => k ∈ s.timers

/-- What the listener, the stubs and the timers do: they queue at most one task, leave the core
alone, and open no channel. -/
structure Quiet (s s' : System) : Prop where
  core : s'.core = s.core
  log : s'.log = s.log
  status : s'.status = s.status ∨ s'.status = .stopped
  tasks : s'.tasks = s.tasks ∨ ∃ task, s'.tasks = s.tasks ++ [task] ∧ Queues s s' task
  timers : s'.timers ⊆ s.timers
  client : ∀ conn, (s'.stubs conn).client? = (s.stubs conn).client?
  accepted : ∀ conn, s.stubs conn = .accepted → s'.stubs conn = .accepted
  isOpen : ∀ conn, s'.isOpen conn = true → s.isOpen conn = true
  serving : ∀ conn c, s'.stubs conn = .serving c → s.stubs conn = .serving c

/-- The stub of a connection moves on. -/
theorem quiet_setStub {conn : Conn} {stub : Stub} (hc : stub.client? = (s.stubs conn).client?)
    (ha : s.stubs conn ≠ .accepted) (ho : stub.isOpen = true → s.isOpen conn = true)
    (hs : ∀ c, stub ≠ .serving c) {tasks : List Task}
    (ht : tasks = s.tasks ∨ ∃ task, tasks = s.tasks ++ [task] ∧ Queues s (s.setStub conn stub) task) :
    Quiet s { s.setStub conn stub with tasks := tasks } where
  core := rfl
  log := rfl
  status := Or.inl rfl
  tasks := by
    refine ht.imp_right ?_
    rintro ⟨task, htask, hq⟩
    exact ⟨task, htask, by cases task <;> exact hq⟩
  timers := List.Subset.refl _
  client conn' := by
    by_cases h : conn' = conn
    · rw [h, setStub_self, hc]
    · rw [setStub_of_ne h]
  accepted conn' h := by
    rw [setStub_of_ne, h]
    rintro rfl
    exact ha h
  isOpen conn' := by
    by_cases h : conn' = conn
    · rw [h, System.isOpen, setStub_self]
      exact ho
    · rw [System.isOpen, setStub_of_ne h]
      exact id
  serving conn' c h := by
    by_cases hc : conn' = conn
    · rw [hc, setStub_self] at h
      exact absurd h (hs c)
    · rwa [setStub_of_ne hc] at h

/-- **An action is quiet, or the core processes a task.** -/
theorem quiet_or_processed (h : s.step act = some s') :
    s.status = .running ∧ (Quiet s s' ∨ ∃ order task tasks, s.tasks = task :: tasks ∧
      s' = s.processed tasks (s.record order task)) := by
  obtain ⟨hrun, h⟩ := step_eq_some.mp h
  refine ⟨hrun, ?_⟩
  cases act with
  | connect conn =>
    rw [stepRunning] at h
    split_ifs at h with hs
    cases h
    exact Or.inl (quiet_setStub (by rw [hs]; rfl) (by simp [hs]) (by simp [Stub.isOpen]) (by simp)
      (Or.inr ⟨_, rfl, hs, setStub_self ..⟩))
  | receive conn msg hmsg =>
    rw [stepRunning] at h
    cases hs : s.stubs conn with
    | serving c =>
      rw [hs] at h
      cases h
      exact Or.inl ⟨rfl, rfl, Or.inl rfl, Or.inr ⟨_, rfl, hmsg, conn, hs⟩, List.Subset.refl _,
        fun _ => rfl, fun _ => id, fun _ => id, fun _ _ => id⟩
    | _ => simp [hs] at h
  | leave conn =>
    rw [stepRunning] at h
    cases hs : s.stubs conn with
    | serving c =>
      rw [hs] at h
      cases h
      exact Or.inl (quiet_setStub (by rw [hs]; rfl) (by simp [hs])
        (by simp [System.isOpen, hs, Stub.isOpen]) (by simp) (Or.inr ⟨_, rfl, conn, hs, setStub_self ..⟩))
    | _ => simp [hs] at h
  | close conn =>
    rw [stepRunning] at h
    cases hs : s.stubs conn with
    | finishing c =>
      rw [hs] at h
      cases h
      exact Or.inl (quiet_setStub (by rw [hs]; rfl) (by simp [hs]) (by simp [Stub.isOpen])
        (by simp) (Or.inl rfl))
    | _ => simp [hs] at h
  | fire k =>
    rw [stepRunning] at h
    split_ifs at h with hk
    cases h
    exact Or.inl ⟨rfl, rfl, Or.inl rfl, Or.inr ⟨_, rfl, hk⟩, List.erase_subset, fun _ => rfl,
      fun _ => id, fun _ => id, fun _ _ => id⟩
  | process order =>
    rw [stepRunning] at h
    cases ht : s.tasks with
    | nil => simp [ht] at h
    | cons task tasks =>
      rw [ht] at h
      cases h
      exact Or.inr ⟨order, task, tasks, rfl, rfl⟩
  | stopSignal =>
    cases h
    exact Or.inl ⟨rfl, rfl, Or.inr rfl, Or.inl rfl, List.Subset.refl _, fun _ => rfl, fun _ => id,
      fun _ => id, fun _ _ => id⟩

end System

/-! ## One processed task -/

namespace Record

variable (r : Record)

theorem exec_stubs : r.exec.2.stubs = r.task.stubs r.core := by
  obtain ⟨acks, heq, -⟩ := Exec.processTask_eq r.env r.task r.core
  rw [exec, heq]
  rfl

/-- No sender appears but that of the client that the task registers. -/
theorem exec_senders {c : ClientId} {conn : Conn}
    (h : r.exec.2.core.protocolServerSenders c = some conn) :
    r.core.settledSenders r.task c = some conn := by
  obtain ⟨acks, heq, -⟩ := Exec.processTask_eq r.env r.task r.core
  rw [exec, heq, Exec.deliverList, Core.deliverAll_senders] at h
  split_ifs at h
  rw [Exec.ownExec] at h
  cases ht : r.task with
  | register conn' =>
    rw [ht] at h
    exact h
  | deregister d =>
    rw [ht] at h
    exact (Table.remove_eq_some.mp h).2
  | message c' msg =>
    rw [ht] at h
    rwa [Core.ownTask, Core.own_senders] at h
  | requestTimeout k =>
    rw [ht] at h
    rwa [Core.ownTask, Core.own_senders] at h

/-- A task keeps the directory sound. -/
theorem exec_sound (h : r.core.directory.Sound)
    (hmsg : ∀ c msg, r.task = .message c msg → msg.content.Valid) :
    r.exec.2.core.directory.Sound := by
  obtain ⟨acks, heq, -⟩ := Exec.processTask_eq r.env r.task r.core
  rw [exec, heq]
  refine Core.deliverAll_sound ?_ _
  rw [Exec.ownExec]
  cases ht : r.task with
  | register conn => exact h
  | deregister d => exact h.apply (.dropClient d) trivial
  | message c msg => exact Core.own_sound h c (hmsg c msg ht)
  | requestTimeout k => exact Core.own_sound h 0 (by simp [ProtocolClient.Valid, ProtocolClient.topic?])

end Record

/-! ## Connections -/

def Task.register? : Task → Option Conn
  | .register conn => some conn
  | .deregister _ | .message _ _ | .requestTimeout _ => none

/-- The connections whose registration is queued. -/
def registers (tasks : List Task) : List Conn := tasks.filterMap Task.register?

theorem registers_append (tasks : List Task) (task : Task) :
    registers (tasks ++ [task]) = registers tasks ++ task.register?.toList := by
  rw [registers, List.filterMap_append]
  cases task <;> rfl

theorem registers_cons (tasks : List Task) (task : Task) :
    registers (task :: tasks) = task.register?.toList ++ registers tasks := by
  cases task <;> rfl

namespace System

variable {s s' : System} {act : Act}

/-- The connection whose registration is processed gets its stub. -/
theorem processed_stubs (tasks : List Task) (r : Record) (conn : Conn) :
    (s.processed tasks r).stubs conn =
      if r.task = .register conn then .serving r.core.nextClientId else s.stubs conn := by
  rw [processed, r.exec_stubs]
  cases h : r.task with
  | register conn' =>
    by_cases hc : conn = conn'
    · simp [Task.stubs, spawn, hc]
    · simp [Task.stubs, spawn, hc, Ne.symm hc]
  | _ => simp [Task.stubs, spawn]

/-- A sender belongs to the client of its connection, and a connection registers once. -/
structure Conns (s : System) : Prop where
  registered : ∀ c conn, s.core.protocolServerSenders c = some conn →
    (s.stubs conn).client? = some c
  logged : ∀ r ∈ s.log, ∀ c conn, r.core.protocolServerSenders c = some conn →
    (s.stubs conn).client? = some c
  queued : ∀ conn ∈ registers s.tasks, s.stubs conn = .accepted
  once : (registers s.tasks).Nodup

theorem conns_init : Conns init :=
  ⟨by simp [init, Core.new], by simp [init], by simp [init, registers], by simp [init, registers]⟩

/-- A client keeps its connection. -/
theorem Conns.client_processed (hi : Conns s) (order : Order) {task : Task} {tasks : List Task}
    (ht : s.tasks = task :: tasks) {c : ClientId} {conn : Conn}
    (hc : (s.stubs conn).client? = some c) :
    ((s.processed tasks (s.record order task)).stubs conn).client? = some c := by
  rw [processed_stubs, if_neg]
  · exact hc
  · intro hr
    have hm : conn ∈ registers s.tasks := by
      rw [ht, show task = _ from hr]
      exact List.mem_cons_self
    rw [hi.queued conn hm] at hc
    cases hc

theorem Conns.step (hi : Conns s) (h : s.step act = some s') : Conns s' := by
  obtain ⟨-, hq | ⟨order, task, tasks, ht, rfl⟩⟩ := quiet_or_processed h
  · refine ⟨fun c conn hc => ?_, fun r hr c conn hc => ?_, fun conn hm => ?_, ?_⟩
    · rw [hq.client]
      exact hi.registered c conn (hq.core ▸ hc)
    · rw [hq.client]
      exact hi.logged r (hq.log ▸ hr) c conn hc
    · rcases hq.tasks with ht | ⟨task, ht, htask⟩
      · exact hq.accepted conn (hi.queued conn (ht ▸ hm))
      · rw [ht, registers_append, List.mem_append] at hm
        rcases hm with hm | hm
        · exact hq.accepted conn (hi.queued conn hm)
        · cases task with
          | register conn' =>
            cases List.mem_singleton.mp hm
            exact htask.2
          | _ => cases hm
    · rcases hq.tasks with ht | ⟨task, ht, htask⟩
      · exact ht ▸ hi.once
      · rw [ht, registers_append]
        cases task with
        | register conn' =>
          -- the connection is new, so its registration is not queued yet
          refine List.Nodup.append hi.once (List.nodup_singleton conn') ?_
          refine List.disjoint_singleton.mpr fun hm => ?_
          exact absurd (htask.1.symm.trans (hi.queued conn' hm)) (by decide)
        | _ => simpa [Task.register?] using hi.once
  · have hold : ∀ c conn, (s.stubs conn).client? = some c →
        ((s.processed tasks (s.record order task)).stubs conn).client? = some c :=
      fun c conn => hi.client_processed order ht
    refine ⟨fun c conn hc => ?_, fun r hr c conn hc => ?_, fun conn hm => ?_, ?_⟩
    · rcases Core.settledSenders_cases ((s.record order task).exec_senders hc) with
        ⟨htask, hnew⟩ | hc
      · rw [processed_stubs, if_pos htask, hnew]
        rfl
      · exact hold c conn (hi.registered c conn hc)
    · rcases List.mem_append.mp hr with hr | hr
      · exact hold c conn (hi.logged r hr c conn hc)
      · cases List.mem_singleton.mp hr
        exact hold c conn (hi.registered c conn hc)
    · have hmem : conn ∈ registers s.tasks := by
        rw [ht, registers_cons]
        exact List.mem_append_right _ hm
      rw [processed_stubs, if_neg]
      · exact hi.queued conn hmem
      · -- its registration is not queued twice
        intro hr
        have honce := hi.once
        rw [ht, show task = _ from hr, registers_cons] at honce
        exact (List.nodup_cons.mp honce).1 hm
    · have honce := hi.once
      rw [ht, registers_cons] at honce
      exact honce.of_append_right

theorem Reachable.conns (h : Reachable s) : Conns s :=
  Lts.invariant conns_init (fun _ _ _ => Conns.step) h

/-- A client keeps its connection. -/
theorem client_step {act : Act} {conn : Conn} {c : ClientId} (hs : Reachable s)
    (h : s.step act = some s') (hc : (s.stubs conn).client? = some c) : (s'.stubs conn).client? = some c := by
  obtain ⟨-, hq | ⟨order, task, tasks, ht, rfl⟩⟩ := quiet_or_processed h
  · exact (hq.client conn).trans hc
  · exact hs.conns.client_processed order ht hc

/-- Two clients never share a channel. -/
theorem Conns.senders_injective (hi : Conns s) {c d : ClientId} {conn : Conn}
    (hc : s.core.protocolServerSenders c = some conn)
    (hd : s.core.protocolServerSenders d = some conn) : c = d :=
  Option.some.inj ((hi.registered c conn hc).symm.trans (hi.registered d conn hd))

/-! ## The directory -/

/-- The directory is sound, and the queued messages carry valid topics. -/
structure Valid (s : System) : Prop where
  sound : s.core.directory.Sound
  tasks : ∀ c msg, .message c msg ∈ s.tasks → msg.content.Valid

theorem valid_init : Valid init where
  sound := Directory.Sound.new.apply (.subscribe 0 killTopic) (by decide)
  tasks := by simp [init]

theorem Valid.step (hi : Valid s) (h : s.step act = some s') : Valid s' := by
  obtain ⟨-, hq | ⟨order, task, tasks, ht, rfl⟩⟩ := quiet_or_processed h
  · refine ⟨hq.core ▸ hi.sound, fun c msg hm => ?_⟩
    rcases hq.tasks with ht | ⟨task, ht, htask⟩
    · exact hi.tasks c msg (ht ▸ hm)
    · rw [ht, List.mem_append, List.mem_singleton] at hm
      rcases hm with hm | rfl
      · exact hi.tasks c msg hm
      · exact htask.1
  · refine ⟨Record.exec_sound _ hi.sound fun c msg hm => ?_, fun c msg hm => ?_⟩
    · exact hi.tasks c msg (by rw [ht, ← show task = _ from hm]; exact List.mem_cons_self)
    · exact hi.tasks c msg (by rw [ht]; exact List.mem_cons_of_mem _ hm)

theorem Reachable.valid (h : Reachable s) : Valid s :=
  Lts.invariant valid_init (fun _ _ _ => Valid.step) h

end System

end T2Bus
