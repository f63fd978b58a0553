import T2Bus.Client.Posts

/-!
# Subscribe calls and the local directory

The Sub of a `subscribe` call enters its callback and its topic under one id. They stay there as long as
the receiver of the callback does: nothing else removes them.

* `Session.SubscribesTo`: the topic of a call; `Session.SubscribesTo.run`: it stays;
* **`Session.Reachable.handle_of_post`**, **`Session.Reachable.post_of_handle`**: a call and its Sub;
* **`Session.Reachable.heard`**: the entries of the call.
-/

namespace T2Bus

namespace Session

variable {s s' : Session} {act : Act} {call : Callback} {handle : Handle} {t : Topic}

/-! ## Handles -/

/-- A handle belongs to a call that was made. -/
theorem Reachable.handles_lt (h : Reachable s) : ∀ call handle, s.handles call = some handle →
    call < s.calls := by
  refine Lts.Reachable.induct (I := fun s => ∀ call handle, s.handles call = some handle →
    call < s.calls) (fun call handle hc => by cases hc) (fun s act s' hs hi hstep call handle hc => ?_) h
  have hle : s.calls ≤ s'.calls := by
    rcases queues_step hstep with ⟨-, -, -, -, -, hcalls⟩ | ⟨event, valid, order, transport, tasks, -, -, rfl⟩
    · rw [hcalls]
      exact Nat.le_add_right _ _
    · exact le_rfl
  rcases handles_step hstep with he | ⟨topic, valid, rfl, he⟩ | ⟨call', handle', hold, hc', -, he⟩ |
    ⟨params, valid, order, transport, rfl, he⟩
  · exact (hi call handle (he ▸ hc)).trans_le hle
  · have hcalls : s'.calls = s.calls + 1 := by
      obtain ⟨-, hstep⟩ := step_eq_some.mp hstep
      cases hstep
      rfl
    rw [he, Table.insert_apply] at hc
    rw [hcalls]
    split_ifs at hc with heq
    · rw [heq]
      exact Nat.lt_succ_self _
    · exact (hi call handle hc).trans (Nat.lt_succ_self _)
  · rw [he, Table.insert_apply] at hc
    split_ifs at hc with heq
    · exact heq ▸ (hi call' handle' hc').trans_le hle
    · exact (hi call handle hc).trans_le hle
  · rw [he] at hc
    obtain ⟨old, hold, -⟩ := Handles.topic_of_markSent hc
    exact (hi call old hold).trans_le hle

/-- The call has a handle, and subscribes to `t`. -/
def SubscribesTo (s : Session) (call : Callback) (t : Topic) : Prop :=
  ∃ handle, s.handles call = some handle ∧ handle.topic = t

theorem SubscribesTo.unique {u : Topic} (h : s.SubscribesTo call t) (h' : s.SubscribesTo call u) :
    t = u := by
  obtain ⟨handle, hc, rfl⟩ := h
  obtain ⟨handle', hc', rfl⟩ := h'
  cases hc.symm.trans hc'
  rfl

theorem SubscribesTo.step (hs : Reachable s) (ht : s.SubscribesTo call t) (h : s.step act = some s') :
    s'.SubscribesTo call t := by
  obtain ⟨handle, hc, htopic⟩ := ht
  rcases handles_step h with he | ⟨topic, valid, -, he⟩ | ⟨call', handle', hold, hc', -, he⟩ |
    ⟨params, valid, order, transport, -, he⟩
  · exact ⟨handle, he ▸ hc, htopic⟩
  · have hne : call ≠ s.calls := (hs.handles_lt call handle hc).ne
    refine ⟨handle, ?_, htopic⟩
    rw [he, Table.insert_of_ne hne]
    exact hc
  · rw [SubscribesTo, he, Table.insert_apply]
    split_ifs with heq
    · rw [heq, hc'] at hc
      cases hc
      exact ⟨_, rfl, htopic⟩
    · exact ⟨handle, hc, htopic⟩
  · rw [SubscribesTo, he]
    exact Handles.topic_markSent ⟨handle, hc, htopic⟩

/-- **The topic of a call stays.** -/
theorem SubscribesTo.run (hs : Reachable s) (ht : s.SubscribesTo call t)
    (h : Lts.Reachable Session.step s s') : s'.SubscribesTo call t := by
  have hall : Reachable s' ∧ s'.SubscribesTo call t := by
    refine Lts.invariant (I := fun s' => Reachable s' ∧ s'.SubscribesTo call t) ⟨hs, ht⟩
      (fun s act s' hi hstep => ⟨hi.1.tail hstep, hi.2.step hi.1 hstep⟩) h
  exact hall.2

/-! ## The Sub of a call -/

theorem posts_turned {tasks : List ClientTask} {r : Turn} :
    posts (s.turned tasks r).log = posts s.log ++ r.posts := posts_concat _ _

/-- **The Sub that was sent for a call is on its topic.** -/
theorem Reachable.handle_of_post (h : Reachable s) : ∀ params msg, (.sub params, msg) ∈ posts s.log →
    s.SubscribesTo params.callbackPub params.msg.topic := by
  refine Lts.Reachable.induct (I := fun s => ∀ params msg, (.sub params, msg) ∈ posts s.log →
    s.SubscribesTo params.callbackPub params.msg.topic) (fun params msg hx => by cases hx)
    (fun s act s' hs hi hstep params msg hx => ?_) h
  rcases queues_step hstep with ⟨-, -, -, hlog, -⟩ | ⟨event, valid, order, transport, tasks, -, ht, rfl⟩
  · exact (hi params msg (hlog ▸ hx)).step hs hstep
  · rw [posts_turned, List.mem_append] at hx
    rcases hx with hx | hx
    · exact (hi params msg hx).step hs hstep
    · have hmem := (mem_of_sends ht (Turn.sends_of_post hx)).resolve_right (by simp)
      obtain ⟨-, handle, hc, htopic⟩ := (Reachable.calls hs).subs params hmem
      exact SubscribesTo.step hs ⟨handle, hc, htopic⟩ hstep

/-- **The Sub of a handle that has an id was sent.** -/
theorem Reachable.post_of_handle (h : Reachable s) : s.status = .running →
    ∀ call handle, s.handles call = some handle → handle.id.isSome →
      ∃ params msg, (.sub params, msg) ∈ posts s.log ∧ params.callbackPub = call := by
  refine Lts.Reachable.induct (I := fun s => s.status = .running →
    ∀ call handle, s.handles call = some handle → handle.id.isSome →
      ∃ params msg, (.sub params, msg) ∈ posts s.log ∧ params.callbackPub = call)
    (fun _ call handle hc => by cases hc) (fun s act s' hs hi hstep hrun' call handle hc hid => ?_) h
  have hi := hi (step_eq_some.mp hstep).1
  have hgrows : ∀ call, (∃ params msg, (.sub params, msg) ∈ posts s.log ∧ params.callbackPub = call) →
      ∃ params msg, (.sub params, msg) ∈ posts s'.log ∧ params.callbackPub = call := by
    rintro call ⟨params, msg, hx, hcall⟩
    refine ⟨params, msg, ?_, hcall⟩
    rcases queues_step hstep with ⟨-, -, -, hlog, -⟩ | ⟨event, valid, order, transport, tasks, -, ht, rfl⟩
    · exact hlog ▸ hx
    · rw [posts_turned]
      exact List.mem_append_left _ hx
  rcases handles_step hstep with he | ⟨topic, valid, -, he⟩ | ⟨call', handle', hold, hc', -, he⟩ |
    ⟨params, valid, order, transport, rfl, he⟩
  · exact hgrows call (hi call handle (he ▸ hc) hid)
  · rw [he, Table.insert_apply] at hc
    split_ifs at hc
    · cases hc
      cases hid
    · exact hgrows call (hi call handle hc hid)
  · rw [he, Table.insert_apply] at hc
    split_ifs at hc with heq
    · cases hc
      exact hgrows call (heq ▸ hi call' handle' hc' hid)
    · exact hgrows call (hi call handle hc hid)
  · by_cases heq : call = params.callbackPub
    · -- the Sub of the call is sent in this turn
      obtain ⟨tasks, -, rfl⟩ := Option.map_eq_some_iff.mp (step_eq_some.mp hstep).2
      obtain ⟨msg, hpost, -⟩ := Turn.posts_of_ok (turned_running.mp hrun')
        (show (s.turn (.task (.sub params)) order transport).sends? = some (.sub params) from rfl)
      refine ⟨params, msg, ?_, heq.symm⟩
      rw [posts_turned, hpost]
      exact List.mem_append_right _ (List.mem_singleton_self _)
    · have hsame : s'.handles call = s.handles call := by
        rw [he, Handles.markSent]
        cases s.handles params.callbackPub with
        | none => rfl
        | some handle' => exact Table.insert_of_ne heq _
      exact hgrows call (hi call handle (hsame ▸ hc) hid)

end Session

/-! ## The entries of a call -/

/-- The callback and the topic of a call are entered under `k`. -/
def ClientCore.Hears (core : ClientCore) (k : MsgId) (call : Callback) (t : Topic) : Prop :=
  core.callbacksPub k = some call ∧ core.subscriptions.Subscribed k t

/-- A publication keeps the entries of a call whose receiver is there. -/
theorem ClientCore.Hears.pubLoop {env : ClientEnv} {payload : PubMsg} {ids : List MsgId}
    {core : ClientCore} {s' : ClientExec} {k : MsgId} {call : Callback} {t : Topic}
    (h : core.Hears k call t) (ho : env.isOpen call = true)
    (hok : ClientExec.pubLoop env payload ids (.start core) = (.ok (), s')) :
    s'.core.Hears k call t := by
  refine ClientExec.pubLoop_induct (P := fun s => s.core.Hears k call t) (fun s c h => h)
    (fun s s' k' callback _ hc hclosed hcl h => ?_) hok h
  -- the subscriber that is removed has another callback
  have hne : k ≠ k' := by
    rintro rfl
    cases h.1.symm.trans hc
    rw [ho] at hclosed
    cases hclosed
  refine ClientExec.unsubscribeAll_induct (P := fun s => s.core.Hears k call t) (fun s t _ h => h) hcl
    ⟨?_, Directory.subscribed_dropClient.mpr ⟨h.2, hne⟩⟩
  rw [ClientExec.forget_callbacksPub, Table.remove_of_ne hne]
  exact h.1

namespace Session

variable {s s' : Session} {act : Act}

/-- A turn keeps the entries of a call whose receiver is there. -/
theorem hears_turned (htables : s.core.Tables s.sent) {event : Event} {order : Order}
    {transport : Msg ProtocolClient → BusResult Unit}
    (hok : (s.turn event order transport).exec.1 = .ok false)
    (hlen : (s.sent ++ (s.turn event order transport).exec.2.sent).length < 2 ^ 32)
    {m : Msg ProtocolClient} (hm : m ∈ s.sent) {call : Callback} {t : Topic} (ho : call ∉ s.closed)
    (h : s.core.Hears m.id call t) : (s.turn event order transport).exec.2.core.Hears m.id call t := by
  rcases Turn.exec_ok hok with ⟨task, msg, -, hb, hsent⟩ | ⟨msg, -, hrecv⟩
  · rw [hsent, List.length_append, List.length_singleton] at hlen
    have hsame := s.core.sameCallbacks_beforeSend task (htables.fresh hlen hm)
    have hcore : (s.core.beforeSend task).2 = (s.turn event order transport).exec.2.core :=
      congrArg Prod.snd hb
    rw [hcore] at hsame
    exact ⟨hsame.pub.trans h.1, ((ClientCore.sends_of_beforeSend hb).1.subscribed _ t).mpr (Or.inl h.2)⟩
  · rcases ClientExec.afterReceive_ok hrecv with ⟨-, ⟨acks, hcore⟩, -⟩ | ⟨-, payload, -, hcore⟩ |
      ⟨payload, -, hloop⟩
    · rw [hcore]
      exact h
    · rw [hcore]
      exact h
    · exact h.pubLoop (decide_eq_true ho) hloop

/-- A receiver that is gone does not come back. -/
theorem closed_step (h : s.step act = some s') : s.closed ⊆ s'.closed := by
  have hstep := h
  obtain ⟨-, h⟩ := step_eq_some.mp h
  cases act with
  | close callback =>
    cases h
    exact List.subset_cons_self _ _
  | acked call =>
    obtain ⟨topic, id, -, -, rfl⟩ := step_acked hstep
    exact List.Subset.refl _
  | giveUp call =>
    obtain ⟨topic, id, -, rfl⟩ := step_giveUp hstep
    exact List.Subset.refl _
  | dropHandle call =>
    obtain ⟨topic, id, -, rfl⟩ := step_dropHandle hstep
    exact List.Subset.refl _
  | dropServe topic =>
    obtain ⟨-, rfl⟩ := step_dropServe hstep
    exact List.Subset.refl _
  | turn event valid order transport =>
    obtain ⟨tasks, -, rfl⟩ := step_turn hstep
    exact List.Subset.refl _
  | _ =>
    cases h
    exact List.Subset.refl _

/-- The entries of a Sub that a turn has sent. -/
theorem hears_post {r : Turn} (hok : r.exec.1 = .ok false) {params : TaskSub}
    {msg : Msg ProtocolClient} (hx : (.sub params, msg) ∈ r.posts) :
    r.exec.2.core.Hears msg.id params.callbackPub params.msg.topic := by
  rcases r.posts_cases with hnil | ⟨task, msg', htask, hpost, hsent, hcontent, hid⟩
  · rw [hnil] at hx
    cases hx
  · rw [hpost] at hx
    cases List.mem_singleton.mp hx
    rcases Turn.exec_ok hok with ⟨task', msg', htask', hb, hsent'⟩ | ⟨msg', hevent, -⟩
    · cases htask.symm.trans htask'
      cases List.cons.inj (hsent.symm.trans hsent') |>.1
      constructor
      · have hcallbacks := congrFun (r.core.callbacks_beforeSend (.sub params) .pub) msg.id
        rw [hb] at hcallbacks
        refine hcallbacks.trans ?_
        rw [hid]
        exact Table.insert_self _ _ _
      · refine ((ClientCore.sends_of_beforeSend hb).1.subscribed _ _).mpr (Or.inr ⟨rfl, ?_⟩)
        exact (Option.some.inj hcontent).symm
    · rw [Turn.sends?, hevent] at htask
      cases htask

/-- **The entries of a call stay while its receiver is there**: neither the handle nor an Unsub matters.
Fewer than `2 ^ 32` messages have been sent. -/
theorem Reachable.heard (h : Reachable s) : s.status = .running → s.sent.length < 2 ^ 32 →
    ∀ params msg, (.sub params, msg) ∈ posts s.log → params.callbackPub ∉ s.closed →
      s.core.Hears msg.id params.callbackPub params.msg.topic := by
  refine Lts.Reachable.induct (I := fun s => s.status = .running → s.sent.length < 2 ^ 32 →
    ∀ params msg, (.sub params, msg) ∈ posts s.log → params.callbackPub ∉ s.closed →
      s.core.Hears msg.id params.callbackPub params.msg.topic) (fun _ _ params msg hx => by cases hx)
    (fun s act s' hs hi hstep hrun' hlen params msg hx ho => ?_) h
  have hrun := (step_eq_some.mp hstep).1
  have hi := hi hrun ((sent_length_le hstep).trans_lt hlen)
  rcases queues_step hstep with ⟨hcore, -, -, hlog, -⟩ | ⟨event, valid, order, transport, tasks, -, ht, rfl⟩
  · rw [hcore]
    exact hi params msg (hlog ▸ hx) fun hclosed => ho (closed_step hstep hclosed)
  · have hok := turned_running.mp hrun'
    rw [posts_turned, List.mem_append] at hx
    rcases hx with hx | hx
    · exact hears_turned (Reachable.tables hs hrun) hok hlen ((Reachable.posted hs).sent _ hx) ho
        (hi params msg hx ho)
    · exact hears_post hok hx

end Session

end T2Bus
