import T2Bus.Server.Run

/-!
# When the server survives

`run` hands every error of `process_task` up, and a panic ends it as well. A message never causes an
error, and a publication panics only at id 0. A timeout is an error unless its request is still
pending and its requester can be reached.

* `Record.Survives`, `Record.Answerable`, `Record.ReachesKill`; `Record.survives_iff_answerable`;
* **`System.survives_iff`**: a run is free of errors exactly when every timeout is answerable and no
  publication reaches the kill subscription;
* `System.not_survives_answered`: a run in which the timeout of an answered request ends the server.
-/

namespace T2Bus

namespace Record

variable (r : Record)

/-- The task is a `Stop` message. -/
def isStop : Bool :=
  match r.task with
  | .message _ msg => decide (msg.content = .stop)
  | .register _ | .deregister _ | .requestTimeout _ => false

/-- `process_task` returns `Ok`, and asks `run` to end only on a `Stop` message. -/
def Survives : Prop := r.exec.1 = .ok r.isStop

/-- The task is a publication whose delivery comes to id 0: the server's own subscription to
`bus:kill`. -/
def ReachesKill : Prop :=
  ∃ c id params, r.task = .message c ⟨id, .pub params⟩ ∧
    r.core.reachesZero r.env
      (r.env.order.arrange (r.core.directory.getSubscribers params.topic)) = true

/-- If the task is a timeout, its request is still pending, and its requester is registered and its
channel open. -/
def Answerable : Prop :=
  ∀ k, r.task = .requestTimeout k → ∃ p conn, r.core.pendingResponses k = some p ∧
    r.core.protocolServerSenders p.requesterId = some conn ∧ r.env.isOpen conn = true

/-- The task is no publication. -/
def isNotPub : Bool :=
  match r.task with
  | .message _ ⟨_, .pub _⟩ => false
  | _ => true

variable {r}

/-- A message is no error, but it may reach the kill subscription. -/
theorem survives_message {c : ClientId} {msg : Msg ProtocolClient} (ht : r.task = .message c msg) :
    r.Survives ↔ ¬ r.ReachesKill := by
  have hkill : r.ReachesKill ↔
      (Exec.processContent r.env c msg (.start r.core)).1 = .error .panic := by
    rw [Exec.processContent_panic, ReachesKill, ht]
    obtain ⟨id, content⟩ := msg
    simp [Exec.start]
  rw [hkill, Survives, exec, isStop, ht, Exec.processTask]
  rcases Exec.processContent_fst r.env (.start r.core) c msg with
    hp | ⟨res, hres⟩
  · refine iff_of_false ?_ (not_not_intro hp)
    rw [Exec.processMsg]
    cases hc : Exec.processContent r.env c msg (.start r.core) with
    | mk res s' =>
      rw [hc] at hp
      cases hp
      simp
  · rw [Exec.processMsg_eq hres, hres]
    cases res <;> simp [Except.mapError]

/-- **A task survives exactly when it is neither an unanswerable timeout nor a publication that
reaches the kill subscription.** -/
theorem survives_iff_answerable : r.Survives ↔ r.Answerable ∧ ¬ r.ReachesKill := by
  cases ht : r.task with
  | message c msg =>
    have hans : r.Answerable := by simp [Answerable, ht]
    rw [survives_message ht, and_iff_right hans]
  | register conn =>
    refine iff_of_true ?_ ⟨by simp [Answerable, ht], by simp [ReachesKill, ht]⟩
    rw [Survives, exec, isStop, ht]
    rfl
  | deregister d =>
    refine iff_of_true ?_ ⟨by simp [Answerable, ht], by simp [ReachesKill, ht]⟩
    rw [Survives, exec, isStop, ht]
    rfl
  | requestTimeout k =>
    rw [Survives, exec, isStop, ht, Exec.processTask_timeout_ok]
    simp [Answerable, ReachesKill, ht, Core.reach_eq_some, Exec.start]

end Record

namespace System

variable {s s' : System} {act : Act}

/-- The status tells whether a task of the run failed. -/
theorem Reachable.status (h : Reachable s) :
    (∀ fault, s.status ≠ .failed fault) ↔ ∀ r ∈ s.log, ∃ stop, r.exec.1 = .ok stop := by
  refine Lts.invariant (I := fun s => (∀ fault, s.status ≠ .failed fault) ↔
    ∀ r ∈ s.log, ∃ stop, r.exec.1 = .ok stop) (by simp [init]) (fun s act s' hi h => ?_) h
  obtain ⟨hrun, hq⟩ := quiet_or_processed h
  have hold := hi.mp (by simp [hrun])
  rcases hq with hq | ⟨order, task, tasks, -, rfl⟩
  · refine iff_of_true (fun fault hf => ?_) (hq.log ▸ hold)
    rcases hq.status with hs | hs <;> rw [hs] at hf
    · exact hi.mpr hold fault hf
    · cases hf
  · rw [processed, List.forall_mem_append]
    simp only [List.forall_mem_singleton, and_iff_right hold]
    cases (s.record order task).exec.1 with
    | ok stop => cases stop <;> simp [Status.of]
    | error fault => simp [Status.of]

/-- The server is doing well: every task so far survived, and `run` has not returned an error. -/
def Survives (s : System) : Prop := (∀ r ∈ s.log, r.Survives) ∧ ∀ fault, s.status ≠ .failed fault

/-- **A run is free of errors exactly when every timeout that is processed finds its request pending
and its requester within reach, and no publication reaches the kill subscription.** -/
theorem survives_iff (h : Reachable s) :
    s.Survives ↔ ∀ r ∈ s.log, r.Answerable ∧ ¬ r.ReachesKill := by
  constructor
  · exact fun hs r hr => Record.survives_iff_answerable.mp (hs.1 r hr)
  · intro hs
    have hall : ∀ r ∈ s.log, r.Survives := fun r hr => Record.survives_iff_answerable.mpr (hs r hr)
    exact ⟨hall, h.status.mpr fun r hr => ⟨_, hall r hr⟩⟩

/-! ## A timeout in time, and one too late -/

/-- Client 1 serves a topic; client 2 makes a request on it, which is delivered under id 1. -/
def requested : List Act :=
  let topic : Topic := ⟨"p", ⟨"a"⟩⟩
  [.connect 0, .process .given, .connect 1, .process .given,
    .receive 0 ⟨1, .srv ⟨topic⟩⟩ (by decide), .process .given,
    .receive 1 ⟨1, .req ⟨topic, ⟨[1], false⟩⟩⟩ (by decide), .process .given]

/-- The timer fires before there is an answer. -/
def timedOut : List Act := requested ++ [.fire 1, .process .given]

/-- The owner answers before the timer fires. -/
def answered : List Act :=
  requested ++ [.receive 0 ⟨2, .rsp ⟨1, .ok, ⟨[2], false⟩⟩⟩ (by decide), .process .given]

def answeredThenTimeout : List Act := answered ++ [.fire 1, .process .given]

/-- The server survives the timeout of a request without answer. -/
theorem survives_iff_timedOut : ∃ s, Lts.run step init timedOut = some s ∧
    (s.Survives ↔ ∀ r ∈ s.log, r.Answerable ∧ ¬ r.ReachesKill) := by
  have hrun : (Lts.run step init timedOut).isSome := by decide +kernel
  obtain ⟨s, hs⟩ := Option.isSome_iff_exists.mp hrun
  exact ⟨s, hs, survives_iff ⟨_, hs⟩⟩

/-- **The timeout of an answered request ends the server**, without any publication. -/
theorem not_survives_answered : ∃ s, Lts.run step init answeredThenTimeout = some s ∧
    s.log.all Record.isNotPub = true ∧ s.status = .failed (.err .invalidRequestId) ∧
    ¬ s.Survives := by
  have hrun : (Lts.run step init answeredThenTimeout).map
      (fun s => (s.log.all Record.isNotPub, s.status)) =
      some (true, .failed (.err .invalidRequestId)) := by decide +kernel
  obtain ⟨s, hs, he⟩ := Option.map_eq_some_iff.mp hrun
  obtain ⟨hlog, hstatus⟩ := Prod.mk.inj he
  exact ⟨s, hs, hlog, hstatus, fun h => h.2 _ hstatus⟩

end System

end T2Bus
