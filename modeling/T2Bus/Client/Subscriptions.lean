import T2Bus.Client.Tables

/-!
# Subscriptions that are held

Dropping a handle sends an Unsub for its topic, whether or not there are other handles on it. If an
Unsub is sent only when no other handle on the topic is held, the last Sub or Unsub on the topic of a
handle is a Sub.

* `Turn.KeepsHandles`: a turn that cuts off no handle; `Handles.Kept`;
* **`Session.Reachable.held`**; `Session.Reachable.held_sent`: the Sub of a handle that is held is sent.
-/

namespace T2Bus

/-- The turn cuts off no handle: an Unsub that is sent has no other handle on its topic, and a
subscriber that is removed because its receiver is gone has no handle any more. -/
structure Turn.KeepsHandles (r : Turn) : Prop where
  unsub : ∀ params, r.event = .task (.unsub params) → ∀ k, ¬ r.handles.Live k params.msg.topic
  pub : ∀ id payload, r.event = .msg ⟨id, .pub payload⟩ →
    ∀ k ∈ r.core.subscriptions.getSubscribers payload.topic, ∀ callback,
      r.core.callbacksPub k = some callback → r.env.isOpen callback = false →
        ∀ t, ¬ r.handles.Live k t

/-- Every handle that is held has its local subscription, and the last Sub or Unsub on its topic is a
Sub. -/
def Handles.Kept (handles : Handles) (subscriptions : Directory) (sent : List (Msg ProtocolClient)) :
    Prop :=
  ∀ k t, handles.Live k t → subscriptions.Subscribed k t ∧ subbed t sent = true

namespace Handles

variable {handles : Handles} {core : ClientCore} {sent : List (Msg ProtocolClient)}

/-- A subscriber without handle is removed, and Unsubs are sent for the topics it leaves. -/
theorem Kept.cleanup {env : ClientEnv} {s s' : ClientExec} {k : MsgId}
    (h : handles.Kept s.core.subscriptions (sent ++ s.sent)) (hd : s.core.subscriptions.Sound)
    (hk : ∀ t, ¬ handles.Live k t) (hcl : ClientExec.cleanup env k s = (.ok (), s')) :
    handles.Kept s'.core.subscriptions (sent ++ s'.sent) := by
  refine ClientExec.unsubscribeAll_induct
    (P := fun s => handles.Kept s.core.subscriptions (sent ++ s.sent)) (fun s₁ u hu h₁ k' t hl => ?_)
    hcl fun k' t hl => ?_
  · obtain ⟨hsub, hsent⟩ := h₁ k' t hl
    refine ⟨hsub, ?_⟩
    rw [ClientExec.unsubscribed, ← List.append_assoc]
    refine subbed_concat_of_ne hsent fun e => ?_
    -- the topics of a cleanup had no other subscriber
    have hut : u = t := congrArg UnsubMsg.topic (ProtocolClient.unsub.inj e)
    subst hut
    have hlast := (Directory.mem_dropClient hd).mp hu
    exact hk u (hlast.2 k' (h k' u hl).1 ▸ hl)
  · obtain ⟨hsub, hsent⟩ := h k' t hl
    refine ⟨Directory.subscribed_dropClient.mpr ⟨hsub, ?_⟩, hsent⟩
    rintro rfl
    exact hk t hl

theorem Kept.pubLoop {env : ClientEnv} {payload : PubMsg} {ids : List MsgId} {s' : ClientExec}
    (h : handles.Kept core.subscriptions sent) (hd : core.subscriptions.Sound)
    (hclosed : ∀ k ∈ ids, ∀ callback, core.callbacksPub k = some callback →
      env.isOpen callback = false → ∀ t, ¬ handles.Live k t)
    (hok : ClientExec.pubLoop env payload ids (.start core) = (.ok (), s')) :
    handles.Kept s'.core.subscriptions (sent ++ s'.sent) := by
  refine (ClientExec.pubLoop_induct (P := fun s =>
    (∀ k callback, s.core.callbacksPub k = some callback → core.callbacksPub k = some callback) ∧
      s.core.subscriptions.Sound ∧ handles.Kept s.core.subscriptions (sent ++ s.sent))
    (fun s c h => h) (fun s s' k callback hk hc ho hcl h => ?_) hok
    ⟨fun _ _ h => h, hd, by rwa [ClientExec.start_sent, List.append_nil]⟩).2.2
  obtain ⟨hcallbacks, hd, h⟩ := h
  refine ⟨fun k' callback' hc' => ?_, ?_,
    h.cleanup hd (hclosed k hk callback (hcallbacks k callback hc) ho) hcl⟩
  · have hresult := (ClientExec.cleanup_result env k s).2.2
    rw [hcl] at hresult
    rw [hresult, Table.remove_eq_some] at hc'
    exact hcallbacks k' callback' hc'.2
  · exact ClientExec.unsubscribeAll_induct (P := fun s => s.core.subscriptions.Sound)
      (fun s t _ h => h) hcl (hd.apply (.dropClient k) trivial)

end Handles

namespace Turn

variable {r : Turn} {task : ClientTask} {sent : List (Msg ProtocolClient)}

/-- A turn that sends keeps the subscriptions of the handles, and makes that of a handle whose Sub it
sends. -/
theorem kept_sends {msg : Msg ProtocolClient} (h : r.handles.Kept r.core.subscriptions sent)
    (hsub : ∀ params, r.event = .task (.sub params) → ∃ handle,
      r.handles params.callbackPub = some handle ∧ handle.topic = params.msg.topic)
    (hkeeps : r.KeepsHandles) (htask : r.sends? = some task)
    (hb : r.core.beforeSend task = (.ok msg, r.exec.2.core)) :
    r.handlesAfter.Kept r.exec.2.core.subscriptions (sent ++ [msg]) := by
  obtain ⟨hsends, hcontent⟩ := ClientCore.sends_of_beforeSend hb
  -- a handle that was there before the turn keeps its subscription
  have hold : ∀ k t, r.handles.Live k t →
      r.exec.2.core.subscriptions.Subscribed k t ∧ subbed t (sent ++ [msg]) = true := by
    intro k t hl
    obtain ⟨hs, hlast⟩ := h k t hl
    refine ⟨(hsends.subscribed k t).mpr (Or.inl hs), subbed_concat_of_ne hlast fun e => ?_⟩
    rw [e] at hcontent
    obtain ⟨params, rfl, rfl⟩ := ClientTask.eq_unsub hcontent
    obtain ⟨core, handles, env, event⟩ := r
    cases event with
    | task task' =>
      cases task' <;> cases htask
      exact hkeeps.unsub _ rfl k hl
    | _ => cases htask
  intro k t hl
  rcases r.handlesAfter_cases with ⟨params, hev, he⟩ | ⟨-, he⟩
  · rw [he] at hl
    rcases Handles.live_markSent hl with ⟨rfl, handle, hc, htopic⟩ | hl
    · -- the handle whose Sub is sent
      obtain ⟨handle', hc', htopic'⟩ := hsub params hev
      cases hc.symm.trans hc'
      rw [sends?, hev] at htask
      cases htask
      have hmsg : msg.content = .sub ⟨t⟩ := by
        rw [← Option.some.inj hcontent, ← htopic, htopic']
      refine ⟨(hsends.subscribed _ t).mpr (Or.inr ⟨hsends.id.symm, hmsg⟩), ?_⟩
      rw [subbed_concat, hmsg]
      simp [subscribesTo]
    · exact hold k t hl
  · rw [he] at hl
    exact hold k t hl

/-- A turn that receives keeps the subscriptions of the handles. -/
theorem kept_receives {msg : Msg ProtocolServer} (h : r.handles.Kept r.core.subscriptions sent)
    (hd : r.core.subscriptions.Sound) (hkeeps : r.KeepsHandles) (hevent : r.event = .msg msg)
    (hrecv : ClientExec.afterReceive r.env msg (.start r.core) = (.ok (), r.exec.2)) :
    r.handlesAfter.Kept r.exec.2.core.subscriptions (sent ++ r.exec.2.sent) := by
  have hhandles : r.handlesAfter = r.handles := by
    rcases r.handlesAfter_cases with ⟨params, hev, -⟩ | ⟨-, he⟩
    · rw [hevent] at hev
      cases hev
    · exact he
  rw [hhandles]
  rcases ClientExec.afterReceive_ok hrecv with ⟨hsent, ⟨acks, hcore⟩, -⟩ |
    ⟨hsent, payload, -, hcore⟩ | ⟨payload, hpub, hloop⟩
  · rw [hsent, hcore, ClientExec.start_sent, List.append_nil]
    exact h
  · rw [hsent, hcore, ClientExec.start_sent, List.append_nil]
    exact h
  · refine h.pubLoop hd (fun k hk => ?_) hloop
    obtain ⟨id, content⟩ := msg
    cases hpub
    exact hkeeps.pub id payload hevent k ((r.env.order.perm _).mem_iff.mp hk)

end Turn

namespace Session

variable {s s' : Session}

/-- A turn that cuts off no handle keeps their subscriptions. -/
theorem kept_turned (hcalls : s.Calls) (htables : s.core.Tables s.sent)
    (h : s.handles.Kept s.core.subscriptions s.sent) {event : Event} {order : Order}
    {transport : Msg ProtocolClient → BusResult Unit} {tasks : List ClientTask}
    (ht : tasksAfter s.tasks event = some tasks)
    (hok : (s.turn event order transport).exec.1 = .ok false)
    (hkeeps : (s.turn event order transport).KeepsHandles) :
    (s.turned tasks (s.turn event order transport)).handles.Kept
      (s.turned tasks (s.turn event order transport)).core.subscriptions
      (s.turned tasks (s.turn event order transport)).sent := by
  rw [turned]
  rcases Turn.exec_ok hok with ⟨task, msg, htask, hb, hsent⟩ | ⟨msg, hevent, hrecv⟩
  · rw [hsent]
    refine Turn.kept_sends h (fun params hev => (hcalls.subs params ?_).2) hkeeps htask hb
    have hev : event = .task (.sub params) := hev
    subst hev
    rw [tasksAfter_task.mp ht]
    exact List.mem_cons_self
  · exact Turn.kept_receives h htables.sound hkeeps hevent hrecv

/-- **In every run whose turns cut off no handle, the last Sub or Unsub on the topic of a handle that
is held is a Sub.** -/
theorem Reachable.held (h : Reachable s) : s.status = .running → (∀ r ∈ s.log, r.KeepsHandles) →
    s.handles.Kept s.core.subscriptions s.sent := by
  refine Lts.Reachable.induct (I := fun s => s.status = .running → (∀ r ∈ s.log, r.KeepsHandles) →
    s.handles.Kept s.core.subscriptions s.sent) (fun _ _ k t hl => ?_)
    (fun s act s' hs hi hstep hrun' hkeeps => ?_) h
  · obtain ⟨call, handle, hc, -⟩ := hl
    cases hc
  · obtain ⟨hrun, hq | ⟨event, order, transport, tasks, ht, -, rfl⟩⟩ := quiet_or_turned hstep
    · rw [hq.log] at hkeeps
      rw [hq.core, hq.sent]
      exact fun k t hl => hi hrun hkeeps k t (hq.live k t hl)
    · obtain ⟨hold, hnew⟩ := List.forall_mem_append.mp hkeeps
      exact kept_turned (Reachable.calls hs) (Reachable.tables hs hrun) (hi hrun hold) ht
        (turned_running.mp hrun') (List.forall_mem_singleton.mp hnew)

/-- A handle that is held has its Sub sent. -/
theorem Reachable.held_sent (h : Reachable s) : ∀ call handle, s.handles call = some handle →
    handle.hold = .held → handle.id.isSome := by
  refine Lts.invariant (I := fun s => ∀ call handle, s.handles call = some handle →
    handle.hold = .held → handle.id.isSome) (fun call handle hc => by cases hc)
    (fun s act s' hi hstep => ?_) h
  -- a handle that is put in is held only if its Sub is sent, or if it was held before
  have hins : ∀ call (new : Handle), (new.hold = .held → new.id.isSome) →
      ∀ call' handle, (s.handles.insert call new) call' = some handle → handle.hold = .held →
        handle.id.isSome := by
    intro call new hnew call' handle hc hh
    rw [Table.insert_apply] at hc
    split_ifs at hc
    · cases hc
      exact hnew hh
    · exact hi call' handle hc hh
  rcases handles_step hstep with he | ⟨topic, valid, -, he⟩ | ⟨call, handle, hold, hc, hheld, he⟩ |
    ⟨params, valid, order, transport, -, he⟩
  · rw [he]
    exact hi
  · rw [he]
    exact hins _ _ (by simp)
  · rw [he]
    exact hins _ _ hheld
  · rw [he, Handles.markSent]
    cases s.handles params.callbackPub with
    | none => exact hi
    | some handle => exact hins _ _ fun _ => rfl

end Session

end T2Bus
