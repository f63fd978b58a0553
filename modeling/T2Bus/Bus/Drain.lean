import T2Bus.Lib.Rank
import T2Bus.Server.Load
import T2Bus.Client.Size
import T2Bus.Bus.Queues
import T2Bus.Bus.Rest
import Mathlib.Algebra.BigOperators.Ring.Finset

/-!
# The bus comes to rest

While no client connects, no application calls and no keep-alive timer ticks, the server and its clients
can take only so many steps; and when nothing is left to be taken out of a queue, every call has its
Ack.

* `Bus.Act.Inner`: the actions without new work; `Bus.Act.Transfers`: those that empty a queue;
* `Bus.Idle`, `Bus.Within`: the connections that nobody has used; `Bus.rank`;
  **`Bus.lowers_inner`**;
* `Bus.Drained`, **`Bus.drained_of_stuck`**: what is so when no queue can be emptied any further;
* **`Bus.drains`**.
-/

namespace T2Bus

open Session (acked received)

namespace System

variable {s s' : System} {act : Act} {conn : Conn}

/-- A connection comes from the listener. -/
theorem absent_step (hs : Reachable s) (h : s.step act = some s') (hne : act ≠ .connect conn)
    (hc : s.stubs conn = .absent) : s'.stubs conn = .absent := by
  have hset : ∀ {conn'} stub, s.stubs conn' ≠ .absent → (s.setStub conn' stub).stubs conn = .absent := by
    intro conn' stub hno
    rw [setStub_of_ne]
    · exact hc
    · rintro rfl
      exact hno hc
  obtain ⟨-, h⟩ := step_eq_some.mp h
  cases act with
  | connect conn' =>
    rw [stepRunning] at h
    split_ifs at h
    cases h
    change (s.setStub conn' .accepted).stubs conn = .absent
    rw [setStub_of_ne]
    · exact hc
    · rintro rfl
      exact hne rfl
  | receive conn' msg valid =>
    rw [stepRunning] at h
    split at h
    · cases h
      exact hc
    · cases h
  | leave conn' =>
    rw [stepRunning] at h
    split at h
    · rename_i c hc'
      cases h
      exact hset _ (by rw [hc']; simp)
    · cases h
  | close conn' =>
    rw [stepRunning] at h
    split at h
    · rename_i c hc'
      cases h
      exact hset _ (by rw [hc']; simp)
    · cases h
  | fire k =>
    rw [stepRunning] at h
    split_ifs at h
    cases h
    exact hc
  | process order =>
    rw [stepRunning] at h
    cases ht : s.tasks with
    | nil => simp [ht] at h
    | cons task tasks =>
      rw [ht] at h
      cases h
      rw [processed_stubs, if_neg]
      · exact hc
      · intro hr
        have hr : task = .register conn := hr
        have hacc : s.stubs conn = .accepted := hs.conns.queued conn (by
          rw [ht, hr, registers_cons]
          exact List.mem_append_left _ (by simp [Task.register?]))
        rw [hc] at hacc
        cases hacc
  | stopSignal =>
    cases h
    exact hc

end System

namespace Bus

variable {b b' : Bus} {act : Act} {conn : Conn} {c : ClientId} {F : Finset Conn}

/-! ## Actions without new work -/

/-- No application, no new connection and no keep-alive timer takes part in the action. -/
def Act.Inner : Act → Prop
  | .server act => act.Own
  | .client _ (.turn (.task _) _ _ _) => True
  | .client _ _ => False
  | .receive _ | .pass _ | .deliver _ _ _ => True

/-- The next task or message of a queue is taken, and the transport takes what a client sends. -/
def Act.Transfers : Act → Prop
  | .server (.process _) => True
  | .server _ => False
  | .client _ (.turn (.task _) _ _ transport) => ∀ msg, transport msg = .ok ()
  | .client _ _ => False
  | .receive _ | .pass _ => True
  | .deliver _ _ transport => ∀ msg, transport msg = .ok ()

theorem Act.Transfers.inner (h : act.Transfers) : act.Inner := by
  cases act with
  | server act => cases act <;> first | exact h | trivial
  | client conn act =>
    cases act with
    | turn event valid order transport =>
      cases event with
      | task task => trivial
      | _ => exact h
    | _ => exact h
  | receive conn | pass conn | deliver conn order transport => trivial

theorem step_server {act : T2Bus.Act} (h : b.step (.server act) = some b') :
    ∃ server, b.server.step act = some server ∧ b' = { b with server := server } := by
  cases act with
  | receive conn msg valid => cases h
  | _ =>
    obtain ⟨server, hs, rfl⟩ := Option.map_eq_some_iff.mp h
    exact ⟨server, hs, rfl⟩

theorem step_receive (h : b.step (.receive conn) = some b') :
    ∃ c msg rest, b.server.stubs conn = .serving c ∧ b.up conn = msg :: rest ∧
      b' = { b with server := b.server.enqueue (.message c msg), origins := b.origins ++ [conn] } := by
  rw [step] at h
  cases hup : b.up conn with
  | nil => simp [hup] at h
  | cons msg rest =>
    simp only [hup] at h
    split_ifs at h with valid
    obtain ⟨server, hs, rfl⟩ := Option.map_eq_some_iff.mp h
    obtain ⟨c, hc, rfl⟩ := System.step_receive hs
    exact ⟨c, msg, rest, hc, rfl, rfl⟩

theorem step_pass (h : b.step (.pass conn) = some b') :
    ∃ c msg rest, b.server.stubs conn = .serving c ∧ b.channel conn = msg :: rest ∧
      b' = { b with passed := Function.update b.passed conn (b.passed conn + 1) } := by
  rw [step] at h
  split at h
  · rename_i c msg rest hs hc
    cases h
    exact ⟨c, msg, rest, hs, hc, rfl⟩
  · cases h

theorem step_deliver {order : Order} {transport : Msg ProtocolClient → BusResult Unit}
    (h : b.step (.deliver conn order transport) = some b') :
    ∃ msg rest, b.down conn = msg :: rest ∧ (b.session conn).status = .running ∧
      b' = b.setSession conn ((b.session conn).turned (b.session conn).tasks
        ((b.session conn).turn (.msg msg) order transport)) := by
  rw [step] at h
  cases hdown : b.down conn with
  | nil => simp [hdown] at h
  | cons msg rest =>
    simp only [hdown] at h
    split_ifs at h with valid
    obtain ⟨session, hs, rfl⟩ := Option.map_eq_some_iff.mp h
    obtain ⟨tasks, ht, rfl⟩ := Session.step_turn hs
    cases ht
    exact ⟨msg, rest, rfl, (Session.step_eq_some.mp hs).1, rfl⟩

theorem step_task {task : ClientTask} {valid : (Event.task task).Valid} {order : Order}
    {transport : Msg ProtocolClient → BusResult Unit}
    (h : b.step (.client conn (.turn (.task task) valid order transport)) = some b') :
    ∃ tasks, (b.session conn).tasks = task :: tasks ∧ (b.session conn).status = .running ∧
      b' = b.setSession conn ((b.session conn).turned tasks
        ((b.session conn).turn (.task task) order transport)) := by
  obtain ⟨-, session, hs, rfl⟩ := step_client h
  obtain ⟨tasks, ht, rfl⟩ := Session.step_turn hs
  exact ⟨tasks, Session.tasksAfter_task.mp ht, (Session.step_eq_some.mp hs).1, rfl⟩

/-! ## Connections that nobody has used -/

/-- The listener has not seen the connection, and its client has nothing to do. -/
structure Idle (b : Bus) (conn : Conn) : Prop where
  stub : b.server.stubs conn = .absent
  tasks : (b.session conn).tasks = []

/-- A reachable state in which all connections outside `F` are idle. -/
structure Within (F : Finset Conn) (b : Bus) : Prop where
  reachable : Reachable b
  idle : ∀ conn ∉ F, b.Idle conn

/-- **Only finitely many connections are in use.** -/
theorem Reachable.within (h : Reachable b) : ∃ F, Within F b := by
  refine Lts.Reachable.induct (I := fun b => ∃ F, Within F b)
    ⟨∅, Lts.Reachable.refl _, fun conn _ => ⟨rfl, rfl⟩⟩ (fun b act b' hb hi hstep => ?_) h
  obtain ⟨F, hF⟩ := hi
  -- the connection that the action is about
  suffices h : ∃ conn, ∀ conn' ≠ conn, b.Idle conn' → b'.Idle conn' by
    obtain ⟨conn, hidle⟩ := h
    refine ⟨insert conn F, hb.tail hstep, fun conn' hno => ?_⟩
    rw [Finset.mem_insert, not_or] at hno
    exact hidle conn' hno.1 (hF.idle conn' hno.2)
  cases moves_of_step hstep with
  | @server act server hs hact =>
    cases act with
    | connect conn =>
      refine ⟨conn, fun conn' hne hi => ⟨System.absent_step (Reachable.server hb) hs ?_ hi.stub, hi.tasks⟩⟩
      rintro ⟨⟩
      exact hne rfl
    | _ =>
      exact ⟨0, fun conn' _ hi =>
        ⟨System.absent_step (Reachable.server hb) hs (by simp) hi.stub, hi.tasks⟩⟩
  | @receive conn msg rest valid server hup hs =>
    exact ⟨conn, fun conn' _ hi =>
      ⟨System.absent_step (Reachable.server hb) hs (by simp) hi.stub, hi.tasks⟩⟩
  | @client conn act session hs hact =>
    refine ⟨conn, fun conn' hne hi => ⟨hi.stub, ?_⟩⟩
    rw [setSession_of_ne hne]
    exact hi.tasks
  | @pass conn c msg rest hs hc => exact ⟨conn, fun conn' _ hi => ⟨hi.stub, hi.tasks⟩⟩
  | @deliver conn order transport msg rest valid session hdown hs =>
    refine ⟨conn, fun conn' hne hi => ⟨hi.stub, ?_⟩⟩
    rw [setSession_of_ne hne]
    exact hi.tasks

theorem Within.serving (h : Within F b) (hc : b.server.stubs conn = .serving c) : conn ∈ F := by
  by_contra hno
  rw [(h.idle conn hno).stub] at hc
  cases hc

/-- The client of a message that waits has a connection. -/
theorem Within.down (h : Within F b) (hdown : b.down conn ≠ []) : conn ∈ F := by
  by_contra hno
  refine hdown ?_
  rw [Bus.down, h.reachable.server.outOn_eq_nil (by rw [(h.idle conn hno).stub]; rfl)]
  simp

/-! ## The rank -/

/-- What waits between a client and the server, and what the client has to do. -/
noncomputable def load (b : Bus) (conn : Conn) : ℕ :=
  (messageWeight + 1) * (b.up conn).length + 2 * (b.channel conn).length + (b.down conn).length +
    (b.session conn).rank (messageWeight + 1)

/-- What the bus has to do, with the connections in `F`. -/
noncomputable def rank (F : Finset Conn) (b : Bus) : ℕ :=
  b.server.rank F + ∑ conn ∈ F, b.load conn

/-- A task of the server leaves the other queues alone. -/
theorem load_server (h : Reachable b) {act : T2Bus.Act} {server : System}
    (hs : b.server.step act = some server) (hact : ∀ conn msg valid, act ≠ .receive conn msg valid)
    {out : List (Msg ProtocolServer)} (hout : outOn server.log conn = outOn b.server.log conn ++ out) :
    Bus.load { b with server := server } conn = b.load conn + 2 * out.length := by
  have hup := up_server hs hact conn
  have hchannel := h.fifo.channel_server hout
  have hdown := h.fifo.down_server hs conn
  rw [load, load, hup, hchannel, hdown, List.length_append]
  simp only
  omega

/-- A turn of a client leaves the queues of the others alone. -/
theorem load_setSession_of_ne {conn' : Conn} (h : conn' ≠ conn) (session : Session) :
    (b.setSession conn session).load conn' = b.load conn' := by
  rw [load, up, channel, down, arrived, setSession_of_ne h]
  rfl

/-- A turn of a client puts what it sends behind what is on the way, and takes what it receives. -/
theorem load_turned (h : Reachable b) (conn : Conn) (tasks : List ClientTask) (r : Turn)
    (hrec : r.received?.toList.length ≤ (b.down conn).length) :
    (b.setSession conn ((b.session conn).turned tasks r)).load conn + r.received?.toList.length +
        (b.session conn).rank (messageWeight + 1) =
      b.load conn + (messageWeight + 1) * r.exec.2.sent.length +
        ((b.session conn).turned tasks r).rank (messageWeight + 1) := by
  have hup : (b.setSession conn ((b.session conn).turned tasks r)).up conn =
      b.up conn ++ r.exec.2.sent := by rw [h.fifo.up_setSession rfl, if_pos rfl]
  have hdown : (b.setSession conn ((b.session conn).turned tasks r)).down conn =
      (b.down conn).drop r.received?.toList.length := by
    rw [down_setSession (Session.received_concat ..), if_pos rfl]
  have hchannel : (b.setSession conn ((b.session conn).turned tasks r)).channel conn =
      b.channel conn := rfl
  rw [load, load, hup, hdown, hchannel, setSession_self, List.length_append, List.length_drop,
    Nat.mul_add]
  omega

/-- A client that takes a turn is one in `F`. -/
theorem Within.setSession (hb : Within F b) (hF : conn ∈ F) {session : Session}
    (h : Reachable (b.setSession conn session)) : Within F (b.setSession conn session) := by
  refine ⟨h, fun conn' hno => ?_⟩
  have hidle := hb.idle conn' hno
  have hne : conn' ≠ conn := by
    rintro rfl
    exact hno hF
  exact ⟨hidle.stub, by rw [setSession_of_ne hne]; exact hidle.tasks⟩

/-- A client that gets less to do makes the rank smaller. -/
theorem rank_setSession (hF : conn ∈ F) {session : Session}
    (h : (b.setSession conn session).load conn < b.load conn) :
    (b.setSession conn session).rank F < b.rank F := by
  refine Nat.add_lt_add_left (Lts.sum_add_le (i := conn) (d := 1) hF (fun conn' hne => ?_) h) _
  exact (load_setSession_of_ne hne session).le

theorem rank_receive (hb : Within F b) (hc : b.server.stubs conn = .serving c)
    {msg : Msg ProtocolClient} {rest : List (Msg ProtocolClient)} (hup : b.up conn = msg :: rest) :
    Bus.rank F { b with
      server := b.server.enqueue (.message c msg), origins := b.origins ++ [conn] } < b.rank F := by
  have hqueue := hb.reachable.fifo.up_receive (c := c) hup
  have hother : ∀ conn' ≠ conn, Bus.load { b with
      server := b.server.enqueue (.message c msg), origins := b.origins ++ [conn] } conn' =
        b.load conn' := by
    intro conn' hne
    rw [load, load, hqueue, if_neg hne]
    rfl
  have hself : Bus.load { b with
      server := b.server.enqueue (.message c msg), origins := b.origins ++ [conn] } conn +
        (messageWeight + 1) = b.load conn := by
    rw [load, load, hqueue, if_pos rfl, hup, List.length_cons, Nat.mul_succ]
    change _ + 2 * (b.channel conn).length + (b.down conn).length + (b.session conn).rank _ + _ = _
    omega
  have hsum := Lts.sum_add_le (hb.serving hc) (fun conn' hne => (hother conn' hne).le) hself.le
  rw [rank, rank, System.rank_enqueue, Task.weight]
  omega

theorem rank_pass (hb : Within F b) (hc : b.server.stubs conn = .serving c)
    {msg : Msg ProtocolServer} {rest : List (Msg ProtocolServer)} (hchannel : b.channel conn = msg :: rest) :
    Bus.rank F { b with passed := Function.update b.passed conn (b.passed conn + 1) } < b.rank F := by
  have hrest := channel_pass hchannel
  have hdown := hb.reachable.fifo.down_pass hchannel
  refine Nat.add_lt_add_left (Lts.sum_add_le (i := conn) (d := 1) (hb.serving hc)
    (fun conn' hne => ?_) ?_) _
  · rw [load, load, hrest, hdown, if_neg hne, if_neg hne]
    exact le_rfl
  · rw [load, load, hrest, hdown, if_pos rfl, if_pos rfl, hchannel, List.length_cons,
      List.length_append, List.length_singleton]
    change _ * (b.up conn).length + _ + _ + (b.session conn).rank _ + _ ≤ _
    omega

/-- **The actions without new work make the rank smaller.** -/
theorem lowers_inner (F : Finset Conn) : Lts.Lowers step (Within F) Act.Inner (rank F) := by
  intro b act b' hb hact h
  have hreach := hb.reachable.tail h
  cases act with
  | server act =>
    obtain ⟨server, hs, rfl⟩ := step_server h
    have hno : ∀ conn msg valid, act ≠ .receive conn msg valid := by
      rintro conn msg valid rfl
      exact hact
    have habsent : ∀ conn ∉ F, server.stubs conn = .absent := fun conn hc =>
      System.absent_step hb.reachable.server hs (by rintro rfl; exact hact) (hb.idle conn hc).stub
    refine ⟨⟨hreach, fun conn hc => ⟨habsent conn hc, (hb.idle conn hc).tasks⟩⟩, ?_⟩
    obtain ⟨out, hout, hlt⟩ :=
      System.rank_step hb.reachable.server (fun conn hc => (hb.idle conn hc).stub) hs hact
    rw [rank, rank, Finset.sum_congr rfl fun conn _ => load_server hb.reachable hs hno (hout conn),
      Finset.sum_add_distrib, ← Finset.mul_sum]
    simp only
    omega
  | client conn act =>
    cases act with
    | turn event valid order transport =>
      cases event with
      | task task =>
        obtain ⟨tasks, ht, hrun, rfl⟩ := step_task h
        have hF : conn ∈ F := by
          by_contra hno
          rw [(hb.idle conn hno).tasks] at ht
          cases ht
        refine ⟨hb.setSession hF hreach, rank_setSession hF ?_⟩
        have hload := load_turned hb.reachable conn tasks
          ((b.session conn).turn (.task task) order transport) (Nat.zero_le _)
        have hrank := (hb.reachable.session conn).rank_task (messageWeight + 1) order transport hrun ht
        omega
      | _ => cases hact
    | _ => cases hact
  | receive conn =>
    obtain ⟨c, msg, rest, hc, hup, rfl⟩ := step_receive h
    exact ⟨⟨hreach, fun conn' hno => ⟨(hb.idle conn' hno).stub, (hb.idle conn' hno).tasks⟩⟩,
      rank_receive hb hc hup⟩
  | pass conn =>
    obtain ⟨c, msg, rest, hc, hchannel, rfl⟩ := step_pass h
    exact ⟨⟨hreach, fun conn' hno => ⟨(hb.idle conn' hno).stub, (hb.idle conn' hno).tasks⟩⟩,
      rank_pass hb hc hchannel⟩
  | deliver conn order transport =>
    obtain ⟨msg, rest, hdown, hrun, rfl⟩ := step_deliver h
    have hF : conn ∈ F := hb.down (by rw [hdown]; simp)
    refine ⟨hb.setSession hF hreach, rank_setSession hF ?_⟩
    have hload := load_turned hb.reachable conn (b.session conn).tasks
      ((b.session conn).turn (.msg msg) order transport) (by
        rw [hdown]
        exact Nat.succ_le_succ (Nat.zero_le _))
    change _ + 1 + _ = _ at hload
    have hrank := (hb.reachable.session conn).rank_msg (messageWeight + 1) order transport hrun msg
    omega

/-! ## Nothing left to do -/

/-- All queues are empty, as far as there is somebody to empty them, and every call has one Ack. -/
structure Drained (b : Bus) : Prop where
  tasks : b.server.tasks = []
  rests : ∀ conn c, b.server.stubs conn = .serving c → (b.session conn).status = .running →
    b.Rests conn c ∧ (b.session conn).tasks = []
  acked : registrations b.server.log < 2 ^ 32 → ∀ conn c, b.server.stubs conn = .serving c →
    (b.session conn).status = .running → (b.session conn).sent.length < 2 ^ 32 →
      ∀ n < (b.session conn).calls, ∃ a, acked (b.session conn).log n = [a]

/-- What a running server and a running client have not taken, they can take. -/
theorem rests_of_stuck (h : Reachable b) (hstuck : ∀ act : Act, act.Transfers → b.step act = none)
    (hserver : b.server.status = .running) (hc : b.server.stubs conn = .serving c)
    (hsession : (b.session conn).status = .running) (htasks : b.server.tasks = []) :
    b.Rests conn c ∧ (b.session conn).tasks = [] := by
  refine ⟨⟨⟨hserver, hc, hsession, ?_, ?_⟩, ?_, ?_⟩, ?_⟩
  · cases hup : b.up conn with
    | nil => rfl
    | cons msg rest =>
      have hvalid : msg.content.Valid := (h.session conn).sent_valid hsession msg
        (List.mem_of_mem_drop (by rw [← up, hup]; exact List.mem_cons_self))
      have hnone := hstuck (.receive conn) trivial
      simp only [step, hup, dif_pos hvalid, System.step, if_pos hserver, System.stepRunning, hc] at hnone
      cases hnone
  · rw [htasks]
    rfl
  · cases hchannel : b.channel conn with
    | nil => rfl
    | cons msg rest =>
      have hnone := hstuck (.pass conn) trivial
      simp only [step, hchannel, hc] at hnone
      cases hnone
  · cases hdown : b.down conn with
    | nil => rfl
    | cons msg rest =>
      have hmem : msg ∈ outOn b.server.log conn :=
        List.mem_of_mem_take (List.mem_of_mem_drop (by rw [← down, hdown]; exact List.mem_cons_self))
      have hvalid : (Event.msg msg).Valid := h.server.valid_outOn hmem
      have hnone := hstuck (.deliver conn .given fun _ => .ok ()) fun _ => rfl
      simp only [step, hdown, dif_pos hvalid, Session.step, if_pos hsession, Session.stepRunning] at hnone
      cases hnone
  · cases ht : (b.session conn).tasks with
    | nil => rfl
    | cons task tasks =>
      have hnone := hstuck (.client conn (.turn (.task task) trivial .given fun _ => .ok ()))
        fun _ => rfl
      simp only [step, Session.step, if_pos hsession, Session.stepRunning,
        Session.tasksAfter_task.mpr ht] at hnone
      cases hnone

/-- **A bus whose queues cannot be emptied any further is drained**, if its server runs. -/
theorem drained_of_stuck (h : Reachable b) (hstuck : ∀ act : Act, act.Transfers → b.step act = none)
    (hserver : b.server.status = .running) : b.Drained := by
  have htasks : b.server.tasks = [] := by
    cases ht : b.server.tasks with
    | nil => rfl
    | cons task tasks =>
      have hnone := hstuck (.server (.process .given)) trivial
      simp only [step, System.step, if_pos hserver, System.stepRunning, ht] at hnone
      cases hnone
  refine ⟨htasks, fun conn c hc hsession => rests_of_stuck h hstuck hserver hc hsession htasks,
    fun hreg conn c hc hsession hlen n hn => ?_⟩
  obtain ⟨hrests, hqueue⟩ := rests_of_stuck h hstuck hserver hc hsession htasks
  obtain ⟨x, hx, hcall⟩ := ((h.session conn).called hsession n hn).resolve_left
    (by rw [hqueue]; simp [queuedCalls])
  obtain ⟨a, ha, -⟩ := hrests.acked_of_post h hreg hlen hx hcall
  exact ⟨a, ha⟩

end Bus

end T2Bus
