import T2Bus.Client.Completions

/-!
# The message of an API call

The task of an API call is sent once, in a message whose id is the key of its callbacks. So what goes
into a callback is a reply to the message of its own call.

* `posts`: the messages that were sent for tasks; `Session.rsped`: the responses in a callback;
* **`Session.Reachable.nodup_ids`**: fewer than `2 ^ 32` messages have distinct ids;
* `Session.Reachable.posts_inj`, `Session.Reachable.posts_own`: the messages of the tasks;
* **`Session.Reachable.posted`**, **`Session.Reachable.acked_posted`**,
  **`Session.Reachable.rsped_posted`**.
-/

namespace T2Bus

/-- The messages that a turn has sent for its task. -/
def Turn.posts (r : Turn) : List (ClientTask × Msg ProtocolClient) :=
  match r.sends? with
  | some task => r.exec.2.sent.map fun msg => (task, msg)
  | none => []

/-- The messages that were sent for tasks. -/
def posts (log : List Turn) : List (ClientTask × Msg ProtocolClient) := log.flatMap Turn.posts

theorem posts_concat (log : List Turn) (r : Turn) : posts (log ++ [r]) = posts log ++ r.posts := by
  rw [posts, List.flatMap_append, List.flatMap_singleton, posts]

theorem posts_mono {log log' : List Turn} (h : log <+: log') : posts log ⊆ posts log' := by
  obtain ⟨l, rfl⟩ := h
  rw [posts, posts, List.flatMap_append]
  exact List.subset_append_left _ _

namespace Turn

variable {r : Turn} {task : ClientTask} {msg : Msg ProtocolClient}

/-- A turn has sent its task in one message, with the next id, or it has sent nothing for it. -/
theorem posts_cases (r : Turn) : r.posts = [] ∨ ∃ task msg, r.sends? = some task ∧
    r.posts = [(task, msg)] ∧ r.exec.2.sent = [msg] ∧ task.content? = some msg.content ∧
    msg.id = r.core.nextMsgId + 1 := by
  rw [posts]
  cases ht : r.sends? with
  | none => exact Or.inl rfl
  | some task =>
    have hsent : r.exec.2.sent = (ClientExec.send r.env task (.start r.core)).2.sent := by
      rw [exec_sends ht]
      rfl
    rcases ClientExec.send_sent task (.start r.core) with he | ⟨msg, hb, he⟩
    · left
      rw [hsent, he]
      rfl
    · obtain ⟨hsends, hcontent⟩ := ClientCore.sends_of_beforeSend (Prod.ext hb rfl)
      have hone : r.exec.2.sent = [msg] := hsent.trans he
      refine Or.inr ⟨task, msg, rfl, ?_, hone, hcontent, hsends.id⟩
      simp only [hone, List.map_singleton]

theorem sends_of_post (h : (task, msg) ∈ r.posts) : r.sends? = some task := by
  rcases r.posts_cases with hnil | ⟨task', msg', htask, hpost, -⟩
  · rw [hnil] at h
    cases h
  · rw [hpost] at h
    cases List.mem_singleton.mp h
    exact htask

/-- A turn after which the loop goes on has sent its task. -/
theorem posts_of_ok (hok : r.exec.1 = .ok false) (ht : r.sends? = some task) :
    ∃ msg, r.posts = [(task, msg)] ∧ msg.id = r.core.nextMsgId + 1 := by
  rcases exec_ok hok with ⟨task', msg, ht', hb, hsent⟩ | ⟨msg, hm, -⟩
  · cases ht.symm.trans ht'
    refine ⟨msg, ?_, (ClientCore.sends_of_beforeSend hb).1.id⟩
    rw [posts, ht]
    simp only [hsent, List.map_singleton]
  · rw [sends?, hm] at ht
    cases ht

end Turn

namespace Session

variable {s s' : Session} {act : Act} {n : Callback}

/-! ## Message ids -/

/-- **Message ids count the messages**, also those of a session that has ended. -/
theorem Reachable.ids (h : Reachable s) :
    s.sent.map Msg.id = (List.range s.sent.length).map fun i => UInt32.ofNat (i + 1) := by
  refine Lts.Reachable.induct (I := fun s =>
    s.sent.map Msg.id = (List.range s.sent.length).map fun i => UInt32.ofNat (i + 1)) rfl
    (fun s act s' hs hi hstep => ?_) h
  have hrun := (step_eq_some.mp hstep).1
  rcases queues_step hstep with ⟨-, -, hsent, -⟩ | ⟨event, valid, order, transport, tasks, -, -, rfl⟩
  · rw [hsent]
    exact hi
  · have htables := Reachable.tables hs hrun
    have hcore : (s.turn event order transport).core.Tables s.sent := htables
    change (s.sent ++ (s.turn event order transport).exec.2.sent).map Msg.id =
      (List.range (s.sent ++ (s.turn event order transport).exec.2.sent).length).map _
    generalize s.turn event order transport = r at hcore
    rcases r.exec_cases with ⟨task, ht⟩ | ⟨msg, hm⟩ | hstart
    · rcases r.posts_cases with hnil | ⟨task', msg, ht', -, hsent, -, hid⟩
      · have hsent : r.exec.2.sent = [] := by
          rw [Turn.posts, ht] at hnil
          exact List.map_eq_nil_iff.mp hnil
        rw [hsent, List.append_nil]
        exact hi
      · rw [hsent]
        refine ClientCore.ids_concat hi ?_
        rw [hid, hcore.nextMsgId, UInt32.ofNat_add]
        rfl
    · have hends : ClientExec.Ends (fun s' => s'.core.Tables (s.sent ++ s'.sent))
          (ClientExec.afterReceive r.env msg (.start r.core)).2 := by
        refine ClientExec.afterReceive_ends (fun _ _ h => h) (fun _ _ h => h.withAckRsp _ _)
          (fun _ _ h => h.withAckRsp _ _) (fun _ k h => h.forget k) (fun _ t h => h.unsubscribed t) msg ?_
        rw [ClientExec.start_sent, List.append_nil]
        exact hcore
      rw [Turn.exec_msg hm]
      rcases hends with h | ⟨s', h, he⟩
      · exact h.ids
      · change (s.sent ++ (ClientExec.afterReceive r.env msg (.start r.core)).2.sent).map Msg.id =
          (List.range (s.sent ++ (ClientExec.afterReceive r.env msg (.start r.core)).2.sent).length).map _
        rw [he]
        exact h.ids
    · rw [hstart, ClientExec.start_sent, List.append_nil]
      exact hi

/-- **Fewer than `2 ^ 32` messages have distinct ids.** -/
theorem Reachable.nodup_ids (h : Reachable s) (hlen : s.sent.length < 2 ^ 32) :
    (s.sent.map Msg.id).Nodup := ClientCore.nodup_of_ids h.ids hlen

/-! ## The tasks that were sent -/

/-- What was sent for a task is its message, no call has two, and a call with a message is spent. -/
structure Posted (s : Session) : Prop where
  sent : ∀ x ∈ posts s.log, x.2 ∈ s.sent
  content : ∀ x ∈ posts s.log, x.1.content? = some x.2.content
  once : ∀ x ∈ posts s.log, ∀ y ∈ posts s.log, ∀ n, x.1.call? = some n → y.1.call? = some n → x = y
  spent : ∀ x ∈ posts s.log, ∀ n, x.1.call? = some n → s.Spent n

theorem Posted.step (hi : Posted s) (hs : Reachable s) (h : s.step act = some s') : Posted s' := by
  have hstep := h
  rcases queues_step h with ⟨-, -, hsent, hlog, -⟩ | ⟨event, valid, order, transport, tasks, -, ht, rfl⟩
  · refine ⟨?_, ?_, ?_, fun x hx n hn => (hi.spent x (hlog ▸ hx) n hn).step hstep⟩
    · rw [hlog, hsent]
      exact hi.sent
    · rw [hlog]
      exact hi.content
    · rw [hlog]
      exact hi.once
  · have hposts : posts (s.turned tasks (s.turn event order transport)).log =
        posts s.log ++ (s.turn event order transport).posts := posts_concat _ _
    rcases (s.turn event order transport).posts_cases with
      hnil | ⟨task, msg, htask, hpost, hsent, hcontent, -⟩
    · rw [hnil, List.append_nil] at hposts
      refine ⟨?_, ?_, ?_, fun x hx n hn => (hi.spent x (hposts ▸ hx) n hn).step hstep⟩
      · rw [hposts]
        exact fun x hx => List.mem_append_left _ (hi.sent x hx)
      · rw [hposts]
        exact hi.content
      · rw [hposts]
        exact hi.once
    · rw [hpost] at hposts
      have hspent := fun n hn => (Reachable.numbered hs).spent_turned (n := n) ht htask hn
      -- the call of the task has sent nothing before
      have hnew : ∀ x ∈ posts s.log, ∀ n, x.1.call? = some n → task.call? ≠ some n :=
        fun x hx n hn hcall => (hspent n hcall).2.1 (hi.spent x hx n hn)
      refine ⟨?_, ?_, ?_, ?_⟩
      · rw [hposts]
        refine List.forall_mem_append.mpr ⟨fun x hx => List.mem_append_left _ (hi.sent x hx), ?_⟩
        refine List.forall_mem_singleton.mpr (List.mem_append_right _ ?_)
        rw [hsent]
        exact List.mem_singleton_self _
      · rw [hposts]
        exact List.forall_mem_append.mpr ⟨hi.content, List.forall_mem_singleton.mpr hcontent⟩
      · rw [hposts]
        intro x hx y hy n hxn hyn
        rcases List.mem_append.mp hx with hx | hx <;> rcases List.mem_append.mp hy with hy | hy
        · exact hi.once x hx y hy n hxn hyn
        · cases List.mem_singleton.mp hy
          exact absurd hyn (hnew x hx n hxn)
        · cases List.mem_singleton.mp hx
          exact absurd hxn (hnew y hy n hyn)
        · rw [List.mem_singleton.mp hx, List.mem_singleton.mp hy]
      · rw [hposts]
        refine List.forall_mem_append.mpr ⟨fun x hx n hn => (hi.spent x hx n hn).step hstep, ?_⟩
        exact List.forall_mem_singleton.mpr fun n hn => (hspent n hn).2.2

/-- **An API call has at most one message.** -/
theorem Reachable.posted (h : Reachable s) : Posted s :=
  Lts.Reachable.induct (I := Posted) ⟨by simp [init, posts], by simp [init, posts],
    by simp [init, posts], by simp [init, posts]⟩ (fun _ _ _ hs hi hstep => hi.step hs hstep) h

/-! ## The messages of the tasks -/

/-- The messages that were sent for tasks are some of those that were sent, in order. -/
theorem Reachable.posts_sublist (h : Reachable s) : ((posts s.log).map Prod.snd).Sublist s.sent := by
  refine Lts.Reachable.induct (I := fun s : Session => ((posts s.log).map Prod.snd).Sublist s.sent)
    ?_ (fun s act s' _ hi hstep => ?_) h
  · exact List.Sublist.refl []
  rcases queues_step hstep with ⟨-, -, hsent, hlog, -⟩ | ⟨event, valid, order, transport, tasks, -, -, rfl⟩
  · rw [hsent, hlog]
    exact hi
  · change ((posts (s.log ++ [s.turn event order transport])).map Prod.snd).Sublist
      (s.sent ++ (s.turn event order transport).exec.2.sent)
    rw [posts_concat, List.map_append]
    refine hi.append ?_
    rcases (s.turn event order transport).posts_cases with hnil | ⟨task, msg, -, hpost, hsent, -⟩
    · rw [hnil]
      exact List.nil_sublist _
    · rw [hpost, hsent]
      exact List.Sublist.refl _

/-- No message is sent for two tasks. -/
theorem Reachable.posts_inj (h : Reachable s) (hlen : s.sent.length < 2 ^ 32)
    {x y : ClientTask × Msg ProtocolClient} (hx : x ∈ posts s.log) (hy : y ∈ posts s.log)
    (hid : x.2.id = y.2.id) : x = y := by
  have hnodup : ((posts s.log).map fun x => x.2.id).Nodup := by
    have hids := (h.nodup_ids hlen).sublist (h.posts_sublist.map Msg.id)
    rwa [List.map_map] at hids
  exact List.inj_on_of_nodup_map hnodup hx hy hid

/-- The callbacks of a task that was sent are those of its call. -/
theorem Reachable.posts_own (h : Reachable s) {x : ClientTask × Msg ProtocolClient}
    (hx : x ∈ posts s.log) {kind : Kind} {n : Callback} (hn : x.1.callback? kind = some n) :
    x.1.call? = some n := by
  obtain ⟨task, msg⟩ := x
  obtain ⟨r, hr, hx⟩ := List.mem_flatMap.mp hx
  obtain ⟨s₀, h₀⟩ := h.at_mem hr
  obtain ⟨tasks, ht⟩ := h₀.tasks
  have hsends := Turn.sends_of_post hx
  rw [h₀.turn] at hsends
  rcases mem_of_sends ht hsends with hmem | rfl
  · exact h₀.reachable.numbered.own task hmem kind n hn
  · cases kind <;> cases hn

theorem Spent.run (hs : s.Spent n) (h : Lts.Reachable Session.step s s') : s'.Spent n :=
  Lts.invariant (I := fun s => s.Spent n) hs (fun _ _ _ hi hstep => hi.step hstep) h

theorem received_append (log log' : List Turn) :
    received (log ++ log') = received log ++ received log' := List.filterMap_append

/-- A turn that sends the message of a task receives nothing. -/
theorem received_of_post {r : Turn} {x : ClientTask × Msg ProtocolClient} (hx : x ∈ r.posts) :
    r.received? = none := by
  obtain ⟨task, msg⟩ := x
  refine Option.eq_none_iff_forall_ne_some.mpr fun m hm => ?_
  have hsends := Turn.sends_of_post hx
  rw [Turn.sends?, Turn.received_eq_some.mp hm] at hsends
  cases hsends

/-! ## What goes into the callbacks -/

/-- A callback is entered under the id of the message of its call. -/
def Linked (s : Session) : Prop :=
  ∀ kind k n, s.core.callbacks kind k = some n →
    ∃ x ∈ posts s.log, x.1.callback? kind = some n ∧ x.2.id = k

theorem Reachable.linked (h : Reachable s) : s.status = .running → Linked s := by
  refine Lts.Reachable.induct (I := fun s => s.status = .running → Linked s)
    (fun _ kind k n hk => by cases kind <;> cases hk) (fun s act s' hs hi hstep hrun' => ?_) h
  have hrun := (step_eq_some.mp hstep).1
  rcases queues_step hstep with ⟨hcore, -, -, hlog, -⟩ | ⟨event, valid, order, transport, tasks, -, -, rfl⟩
  · intro kind k n
    rw [hcore, hlog]
    exact hi hrun kind k n
  · intro kind k n hk
    change ∃ x ∈ posts (s.log ++ [s.turn event order transport]), _
    rw [posts_concat]
    rcases Turn.callbacks_exec hk with ⟨task, htask, hn, rfl⟩ | hk
    · obtain ⟨msg, hpost, hid⟩ := Turn.posts_of_ok (turned_running.mp hrun') htask
      refine ⟨(task, msg), List.mem_append_right _ ?_, hn, hid⟩
      rw [hpost]
      exact List.mem_singleton_self _
    · obtain ⟨x, hx, hn, hid⟩ := hi hrun kind k n hk
      exact ⟨x, List.mem_append_left _ hx, hn, hid⟩

/-- The responses that were put into the callback of a call. -/
def rsped (log : List Turn) (n : Callback) : List RspMsg := log.flatMap fun r => r.rspsTo n

/-- A callback in the table of a turn is that of a message that was sent before. -/
theorem Reachable.turns_linked (h : Reachable s) : ∀ r ∈ s.log, ∀ kind k n,
    r.core.callbacks kind k = some n → ∃ x ∈ posts s.log, x.1.callback? kind = some n ∧ x.2.id = k := by
  intro r hr kind k n hk
  obtain ⟨s₀, h₀⟩ := h.at_mem hr
  rw [h₀.core] at hk
  obtain ⟨x, hx, hn⟩ := Reachable.linked h₀.reachable h₀.running kind k n hk
  exact ⟨x, posts_mono (log_run h₀.later) hx, hn⟩

/-- **An Ack in the callback of a call is for the message of the call.** -/
theorem Reachable.acked_posted (h : Reachable s) {a : AckMsg} (ha : a ∈ acked s.log n) :
    ∃ x ∈ posts s.log, x.1.call? = some n ∧ x.2.id = a.msgId := by
  obtain ⟨r, hr, ha⟩ := List.mem_flatMap.mp ha
  rcases @Turn.acksTo_cases r n with hnil | ⟨id, payload, -, hack, hc⟩
  · rw [hnil] at ha
    cases ha
  · rw [hack] at ha
    rw [List.mem_singleton.mp ha]
    exact h.turns_linked r hr .ack payload.msgId n hc

/-- **A response in the callback of a call is for the message of the call.** -/
theorem Reachable.rsped_posted (h : Reachable s) {p : RspMsg} (hp : p ∈ rsped s.log n) :
    ∃ x ∈ posts s.log, x.1.callback? .rsp = some n ∧ x.2.id = p.reqId := by
  obtain ⟨r, hr, hp⟩ := List.mem_flatMap.mp hp
  rw [Turn.rspsTo_eq] at hp
  split at hp
  · split_ifs at hp with hc
    · rw [List.mem_singleton.mp hp]
      exact h.turns_linked r hr .rsp _ n hc
    · cases hp
  · cases hp

/-- An Ack in a callback has been received. -/
theorem mem_received_of_acked {log : List Turn} {a : AckMsg} (ha : a ∈ acked log n) :
    ∃ m ∈ received log, m.content = .ack a := by
  obtain ⟨r, hr, ha⟩ := List.mem_flatMap.mp ha
  rcases @Turn.acksTo_cases r n with hnil | ⟨id, payload, hevent, hack, -⟩
  · rw [hnil] at ha
    cases ha
  · rw [hack] at ha
    cases List.mem_singleton.mp ha
    exact ⟨_, List.mem_filterMap.mpr ⟨r, hr, Turn.received_eq_some.mpr hevent⟩, rfl⟩

/-- A response in a callback has been received. -/
theorem mem_received_of_rsped {log : List Turn} {p : RspMsg} (hp : p ∈ rsped log n) :
    ∃ m ∈ received log, m.content = .rsp p := by
  obtain ⟨r, hr, hp⟩ := List.mem_flatMap.mp hp
  rw [Turn.rspsTo_eq] at hp
  split at hp
  · rename_i id payload hm
    split_ifs at hp
    · cases List.mem_singleton.mp hp
      exact ⟨_, List.mem_filterMap.mpr ⟨r, hr, hm⟩, rfl⟩
    · cases hp
  · cases hp

end Session

end T2Bus
