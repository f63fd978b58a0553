import T2Bus.Directory.Matching
import T2Bus.Server.Channels
import Mathlib.Algebra.BigOperators.Group.Finset.Basic
import Mathlib.Algebra.Order.BigOperators.Group.Finset

/-!
# What a task can set off

A publication reaches at most one client for each client id, a request is answered at last by its
timer, and a connection ends once. So what a server has to do weighs something, and what it does of its
own makes that less.

* `Task.weight`, `Stub.weight`, `System.rank`: the weights; `messageWeight`: that of a message;
* **`Record.weight_exec`**: a task weighs more than what it sets off;
* `sum_outOn_le`: a task puts no more into all channels together than it delivers;
* **`System.rank_step`**: what the server does when no client says anything.
-/

namespace T2Bus

/-- What a message can set off: a delivery to every client id and an Ack, each of which goes through two
queues, and a timer. -/
def messageWeight : ℕ := 2 * (2 ^ 32 + 1) + 5

/-- The weight of a task. -/
def Task.weight : Task → ℕ
  | .register _ | .deregister _ => 1
  | .requestTimeout _ => 3
  | .message _ _ => messageWeight

/-- The weight of a connection: its end is still to come. -/
def Stub.weight : Stub → ℕ
  | .absent | .gone _ => 0
  | .finishing _ => 1
  | .accepted | .serving _ => 3

/-! ## One task -/

/-- There are only so many client ids. -/
theorem length_le_of_nodup {ids : List UInt32} (h : ids.Nodup) : ids.length ≤ 2 ^ 32 := by
  have hsub : ids.map UInt32.toNat ⊆ List.range (2 ^ 32) := by
    intro n hn
    obtain ⟨id, -, rfl⟩ := List.mem_map.mp hn
    exact List.mem_range.mpr id.toNat_lt
  have hle := (List.subperm_of_subset (h.map fun _ _ => UInt32.toNat_inj.mp) hsub).length_le
  rwa [List.length_map, List.length_range] at hle

namespace Core

variable {core : Core} {env : Env}

variable (env) in
/-- A message is handed to each client at most once. -/
theorem length_sends_le (c : ClientId) (msg : Msg ProtocolClient) :
    (core.sends env c msg).length ≤ 2 ^ 32 := by
  obtain ⟨id, content⟩ := msg
  cases content with
  | pub params =>
    rw [sends, List.length_map]
    refine length_le_of_nodup (Exec.attempts_sublist.nodup ?_)
    exact (env.order.perm _).nodup_iff.mpr (Directory.nodup_getSubscribers _ _)
  | req params =>
    simp only [sends]
    cases core.directory.getOwner params.topic <;> simp
  | rsp params =>
    simp only [sends]
    cases core.answered c params <;> simp
  | _ => exact Nat.zero_le _

variable (env) in
theorem length_sends_rsp_le (c : ClientId) (id : MsgId) (params : RspMsg) :
    (core.sends env c ⟨id, .rsp params⟩).length ≤ 1 := by
  simp only [sends]
  cases core.answered c params <;> simp

end Core

/-- **A task weighs more than what it sets off**: two for each delivery, four for a timer. -/
theorem Record.weight_exec (r : Record) :
    2 * r.exec.2.out.length + 4 * r.exec.2.timers.length < r.task.weight := by
  obtain ⟨core, env, task⟩ := r
  obtain ⟨acks, heq, hacks, -⟩ := Exec.processTask_eq env task core
  have hout : (Exec.processTask env task (.start core)).2.out.length =
      (core.taskSends env task).length + acks.length := by
    rw [heq, Exec.deliverList, Exec.ownExec, List.nil_append, Core.length_deliveries,
      List.length_append, List.length_map]
  have htimers : (Exec.processTask env task (.start core)).2.timers =
      ((core.accepts env task).map fun _ => core.nextMsgId).toList := by
    rw [heq]
    rfl
  change 2 * (Exec.processTask env task (.start core)).2.out.length +
    4 * (Exec.processTask env task (.start core)).2.timers.length < task.weight
  have hnil (hm : ∀ c msg, task ≠ .message c msg) : acks = [] := by
    rcases hacks with h | ⟨c, msg, _, h, -⟩
    · exact h
    · exact absurd h (hm c msg)
  rw [hout, htimers]
  cases task with
  | message c msg =>
    have hsends := core.length_sends_le env c msg
    have hack : acks.length ≤ 1 := by
      rcases hacks with rfl | ⟨_, _, _, -, rfl⟩
      · exact Nat.zero_le 1
      · exact le_rfl
    have htimer : (((core.accepts env (.message c msg)).map fun _ => core.nextMsgId).toList).length ≤
        1 := by
      cases core.accepts env (.message c msg) <;> simp
    rw [Core.taskSends, Task.weight, messageWeight]
    omega
  | requestTimeout k =>
    have hsends := core.length_sends_rsp_le env 0 0 (Exec.timeoutRsp k)
    obtain rfl := hnil (by simp)
    change 2 * ((core.sends env 0 ⟨0, .rsp (Exec.timeoutRsp k)⟩).length + 0) + 4 * 0 < 3
    omega
  | register conn | deregister d =>
    obtain rfl := hnil (by simp)
    exact Nat.zero_lt_one

/-! ## Channels -/

/-- Each delivery goes into one channel at most. -/
theorem sum_on_le (F : Finset Conn) (out : List Delivery) :
    ∑ conn ∈ F, (out.filterMap (Delivery.on? conn)).length ≤ out.length := by
  induction out with
  | nil => simp
  | cons d out ih =>
    have hcons : ∀ conn, ((d :: out).filterMap (Delivery.on? conn)).length =
        (if d.conn = some conn then 1 else 0) + (out.filterMap (Delivery.on? conn)).length := by
      intro conn
      by_cases h : d.conn = some conn
      · rw [List.filterMap_cons_some (b := d.msg) (by rw [Delivery.on?, if_pos h]), List.length_cons,
          if_pos h, Nat.add_comm]
      · rw [List.filterMap_cons_none (by rw [Delivery.on?, if_neg h]), if_neg h, Nat.zero_add]
    have hone : ∑ conn ∈ F, (if d.conn = some conn then 1 else 0) ≤ 1 := by
      rw [← Finset.sum_filter, ← Finset.card_eq_sum_ones]
      refine Finset.card_le_one.mpr fun a ha b hb => ?_
      have ha := (Finset.mem_filter.mp ha).2
      rw [(Finset.mem_filter.mp hb).2] at ha
      exact (Option.some.inj ha).symm
    rw [Finset.sum_congr rfl fun conn _ => hcons conn, Finset.sum_add_distrib, List.length_cons]
    omega

theorem sum_outOn_le (F : Finset Conn) (r : Record) :
    ∑ conn ∈ F, (r.outOn conn).length ≤ r.exec.2.out.length := sum_on_le F _

/-! ## The server -/

/-- No connection and no client is part of the action. -/
def Act.Own : Act → Prop
  | .connect _ | .receive _ _ _ => False
  | .leave _ | .close _ | .fire _ | .process _ | .stopSignal => True

namespace System

variable {s s' : System} {act : Act} {F : Finset Conn}

/-- What is queued weighs, and what is still to end. -/
def load (s : System) : ℕ :=
  (s.tasks.map Task.weight).sum + 4 * s.timers.length + if s.status = .running then 1 else 0

/-- The load, with the connections in `F`. -/
def rank (F : Finset Conn) (s : System) : ℕ := s.load + ∑ conn ∈ F, (s.stubs conn).weight

theorem load_enqueue (s : System) (task : Task) : (s.enqueue task).load = s.load + task.weight := by
  rw [load, load, enqueue, List.map_append, List.sum_append]
  simp only [List.map_cons, List.map_nil, List.sum_cons, List.sum_nil]
  omega

theorem rank_enqueue (s : System) (task : Task) :
    (s.enqueue task).rank F = s.rank F + task.weight := by
  rw [rank, load_enqueue, rank, Nat.add_right_comm]
  rfl

/-- A stub that moves on takes its weight along. -/
theorem sum_setStub {conn : Conn} (hF : conn ∈ F) (stub : Stub) :
    ∑ c ∈ F, ((s.setStub conn stub).stubs c).weight + (s.stubs conn).weight =
      ∑ c ∈ F, (s.stubs c).weight + stub.weight := by
  rw [← Finset.add_sum_erase F _ hF, ← Finset.add_sum_erase F (fun c => (s.stubs c).weight) hF,
    setStub_self]
  have hsame : ∑ c ∈ F.erase conn, ((s.setStub conn stub).stubs c).weight =
      ∑ c ∈ F.erase conn, (s.stubs c).weight :=
    Finset.sum_congr rfl fun c hc => by rw [setStub_of_ne (Finset.ne_of_mem_erase hc)]
  omega

/-- The load after a task is that of what is left and of what the task has set off. -/
theorem load_processed (order : Order) {task : Task} {tasks : List Task} (ht : s.tasks = task :: tasks)
    (hrun : s.status = .running) :
    (s.processed tasks (s.record order task)).load + 2 * (s.record order task).exec.2.out.length <
      s.load := by
  have hweight := (s.record order task).weight_exec
  change _ < task.weight at hweight
  rw [load, load, ht, if_pos hrun, processed, List.length_append, List.map_cons, List.sum_cons]
  simp only
  split_ifs <;> omega

/-- A registration gives its connection the weight it had. -/
theorem weight_processed (hs : Reachable s) {order : Order} {task : Task} {tasks : List Task}
    (ht : s.tasks = task :: tasks) (conn : Conn) :
    ((s.processed tasks (s.record order task)).stubs conn).weight = (s.stubs conn).weight := by
  rw [processed_stubs]
  split_ifs with hr
  · have hr : task = .register conn := hr
    have hacc : s.stubs conn = .accepted := hs.conns.queued conn (by
      rw [ht, hr, registers_cons]
      exact List.mem_append_left _ (by simp [Task.register?]))
    rw [hacc]
    rfl
  · rfl

/-- **What the server does of its own** makes its rank smaller, by more than what it puts into the
channels. -/
theorem rank_step (hs : Reachable s) (hF : ∀ conn ∉ F, s.stubs conn = .absent)
    (h : s.step act = some s') (hact : act.Own) :
    ∃ out : Conn → List (Msg ProtocolServer), (∀ conn, outOn s'.log conn = outOn s.log conn ++ out conn) ∧
      s'.rank F + 2 * ∑ conn ∈ F, (out conn).length < s.rank F := by
  obtain ⟨hrun, h⟩ := step_eq_some.mp h
  -- a connection that is there is in `F`
  have hmem : ∀ {conn}, s.stubs conn ≠ .absent → conn ∈ F := fun hne => by
    by_contra hno
    exact hne (hF _ hno)
  have hnone : ∀ s' : System, s'.log = s.log → s'.rank F < s.rank F →
      ∃ out : Conn → List (Msg ProtocolServer),
        (∀ conn, outOn s'.log conn = outOn s.log conn ++ out conn) ∧
          s'.rank F + 2 * ∑ conn ∈ F, (out conn).length < s.rank F := by
    refine fun s' hlog hlt => ⟨fun _ => [], fun conn => ?_, ?_⟩
    · rw [hlog, List.append_nil]
    · simpa using hlt
  cases act with
  | connect conn | receive conn msg valid => cases hact
  | leave conn =>
    rw [stepRunning] at h
    split at h
    · rename_i c hc
      cases h
      refine hnone _ rfl ?_
      have hsum := sum_setStub (s := s) (hmem (by rw [hc]; simp)) (.finishing c)
      rw [hc] at hsum
      change _ + 3 = _ + 1 at hsum
      have hload : (s.setStub conn (.finishing c)).load = s.load := rfl
      rw [rank_enqueue, rank, rank, Task.weight]
      omega
    · cases h
  | close conn =>
    rw [stepRunning] at h
    split at h
    · rename_i c hc
      cases h
      refine hnone _ rfl ?_
      have hsum := sum_setStub (s := s) (hmem (by rw [hc]; simp)) (.gone c)
      rw [hc] at hsum
      change _ + 1 = _ + 0 at hsum
      have hload : (s.setStub conn (.gone c)).load = s.load := rfl
      rw [rank, rank]
      omega
    · cases h
  | fire k =>
    rw [stepRunning] at h
    split_ifs at h with hk
    cases h
    refine hnone _ rfl ?_
    have hlen := List.length_erase_of_mem hk
    have hpos := List.length_pos_of_mem hk
    rw [rank_enqueue, rank, rank, load, load, Task.weight]
    simp only
    omega
  | process order =>
    rw [stepRunning] at h
    cases ht : s.tasks with
    | nil => simp [ht] at h
    | cons task tasks =>
      rw [ht] at h
      cases h
      refine ⟨(s.record order task).outOn, fun conn => ?_, ?_⟩
      · rw [System.processed, outOn, List.flatMap_append, List.flatMap_singleton, outOn]
      · have hload := load_processed order ht hrun
        have hsum := sum_outOn_le F (s.record order task)
        rw [rank, rank, Finset.sum_congr rfl fun conn _ => weight_processed hs ht conn]
        omega
  | stopSignal =>
    cases h
    refine hnone _ rfl ?_
    have hload : ({ s with status := .stopped } : System).load < s.load := by
      rw [load, load, if_pos hrun, if_neg (by simp)]
      exact Nat.lt_succ_self _
    exact Nat.add_lt_add_right hload _

end System

end T2Bus
