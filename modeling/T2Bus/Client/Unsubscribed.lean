import T2Bus.Client.Subscribers
import T2Bus.Client.Subscriptions
import T2Bus.Client.Survival

/-!
# Unsubscribing

Dropping a handle queues an Unsub, and `before_send` makes a message of it and no more: the callback and
the topic of the call stay in the tables of the client. So a publication that arrives behind the Unsub
still goes into the callback of the dropped handle if its topic matches and the receiver is there.

* `Turn.Hears`: the local directory has the call for the publication of a turn;
* `Session.Behind`, `Session.Unsubscribes`: the turns behind the Unsub, and what is expected of them;
* **`Session.unsubscribes_iff`**; `Session.not_unsubscribes_sharing`: a client with two subscriptions.
-/

namespace T2Bus

namespace ClientExec

variable {env : ClientEnv} {s s' : ClientExec} {payload : PubMsg}

/-- **A loop that succeeds puts the publication into the callback of every subscriber** whose receiver is
there. -/
theorem mem_calls_pubLoop {ids : List MsgId} (h : pubLoop env payload ids s = (.ok (), s')) {k : MsgId}
    {c : Callback} (hk : k ∈ ids) (hc : s.core.callbacksPub k = some c) (ho : env.isOpen c = true) :
    .pub c payload ∈ s'.calls := by
  induction ids generalizing s with
  | nil => cases hk
  | cons k' ids ih =>
    rw [pubLoop] at h
    cases hc' : s.core.callbacksPub k' with
    | none =>
      rw [hc'] at h
      cases h
    | some c' =>
      simp only [hc'] at h
      split_ifs at h with ho'
      · rcases List.mem_cons.mp hk with rfl | hk
        · cases hc.symm.trans hc'
          obtain ⟨l, -, hcalls, -⟩ := calls_pubLoop ids (s.call (.pub c payload))
          rw [h] at hcalls
          change s'.calls = _ at hcalls
          rw [hcalls]
          exact List.mem_append_left _ (List.mem_append_right _ (List.mem_singleton_self _))
        · exact ih h hk hc
      · -- the subscriber that is removed has another callback
        have hne : k ≠ k' := by
          rintro rfl
          cases hc.symm.trans hc'
          exact ho' ho
        have hcallbacks := (cleanup_result env k' s).2.2
        cases hcl : cleanup env k' s with
        | mk result s₁ =>
          rw [hcl] at h hcallbacks
          cases result with
          | error e => cases h
          | ok u =>
            refine ih h ((List.mem_cons.mp hk).resolve_left hne) ?_
            rw [hcallbacks, Table.remove_of_ne hne]
            exact hc

end ClientExec

namespace Turn

variable {r : Turn} {call : Callback}

/-- The task that the turn takes from the queue. -/
def task? (r : Turn) : Option ClientTask :=
  match r.event with
  | .task task => some task
  | .msg _ | .lost _ | .closed | .tick => none

/-- The turn receives a publication that a local subscription of the call matches, and the receiver of
the call is there. -/
def Hears (r : Turn) (call : Callback) : Prop :=
  ∃ id payload, r.event = .msg ⟨id, .pub payload⟩ ∧ r.env.isOpen call = true ∧
    ∃ k ∈ r.core.subscriptions.getSubscribers payload.topic, r.core.callbacksPub k = some call

/-- What goes into a callback has been heard. -/
theorem hears_of_pubsTo (hinj : ∀ k k' n, r.core.callbacksPub k = some n →
    r.core.callbacksPub k' = some n → k = k') (h : r.pubsTo call ≠ []) : r.Hears call := by
  rcases r.pubsTo_cases hinj call with hnil | ⟨id, payload, hevent, -, ho, hk⟩
  · exact absurd hnil h
  · exact ⟨id, payload, hevent, ho, hk⟩

/-- What is heard goes into the callback, if the loop goes on. -/
theorem pubsTo_of_hears (hok : r.exec.1 = .ok false) (h : r.Hears call) : r.pubsTo call ≠ [] := by
  obtain ⟨id, payload, hevent, ho, k, hk, hc⟩ := h
  rcases exec_ok hok with ⟨task, msg, htask, -⟩ | ⟨msg, hmsg, hrecv⟩
  · rw [sends?, hevent] at htask
    cases htask
  · cases hevent.symm.trans hmsg
    have hmem : .pub call payload ∈ r.exec.2.calls :=
      ClientExec.mem_calls_pubLoop hrecv ((r.env.order.perm _).mem_iff.mpr hk) hc ho
    exact List.ne_nil_of_mem (List.mem_filterMap.mpr ⟨_, hmem, if_pos rfl⟩)

end Turn

namespace Session

/-- The tasks that were taken from the queue, oldest first. -/
def taken (log : List Turn) : List ClientTask := log.filterMap Turn.task?

/-- The turn comes behind the one with the Unsub of a handle on `t` that was dropped in `s₁`: the tasks
that were queued then have been taken, and the Unsub. -/
def Behind (s₁ s : Session) (t : Topic) (r : Turn) : Prop :=
  ∃ l₁ l₂, s.log = s₁.log ++ l₁ ++ r :: l₂ ∧ s₁.tasks ++ [.unsub ⟨⟨t⟩⟩] <+: taken l₁

/-- Nothing that is received behind the Unsub goes into the callback of the dropped handle. -/
def Unsubscribes (s₁ s : Session) (t : Topic) (call : Callback) : Prop :=
  ∀ r, Behind s₁ s t r → r.pubsTo call = []

variable {s₁ s : Session} {t : Topic} {call : Callback}

/-- **A call hears what its topic matches** as long as its receiver is there; the handle and the Unsub do
not matter. Fewer than `2 ^ 32` messages have been sent. -/
theorem Reachable.hears_iff (hs : Reachable s) (hrun : s.status = .running)
    (hlen : s.sent.length < 2 ^ 32) {params : TaskSub} {msg : Msg ProtocolClient}
    (hx : (.sub params, msg) ∈ posts s.log) {event : Event} (hv : event.Valid) (order : Order)
    (transport : Msg ProtocolClient → BusResult Unit) :
    (s.turn event order transport).Hears params.callbackPub ↔
      ∃ id payload, event = .msg ⟨id, .pub payload⟩ ∧
        (s.turn event order transport).env.isOpen params.callbackPub = true ∧
          params.msg.topic.Overlaps payload.topic := by
  have htables := hs.tables hrun
  have ht := hs.handle_of_post params msg hx
  refine exists_congr fun id => exists_congr fun payload => and_congr_right fun hevent =>
    and_congr_right fun ho => ?_
  have hevent : event = .msg ⟨id, .pub payload⟩ := hevent
  subst hevent
  constructor
  · rintro ⟨k, hk, hc⟩
    obtain ⟨u, hsub, hover⟩ := (Directory.mem_getSubscribers htables.sound hv).mp hk
    -- the callback was entered with the Sub of its call, and that was on this topic
    obtain ⟨⟨task, msg'⟩, hx', hcall, hid⟩ := hs.linked hrun .pub k _ hc
    cases task with
    | sub params' =>
      have hsame : msg' = ⟨k, .sub ⟨u⟩⟩ :=
        htables.id_inj hlen (hs.posted.sent _ hx') (htables.pubs k u hsub).2 hid
      have hcontent : ProtocolClient.sub params'.msg = msg'.content :=
        Option.some.inj (hs.posted.content _ hx')
      have htopic : params'.msg.topic = u := by
        rw [hsame] at hcontent
        exact congrArg SubMsg.topic (ProtocolClient.sub.inj hcontent)
      have ht' := hs.handle_of_post params' msg' hx'
      rw [Option.some.inj hcall, htopic] at ht'
      exact ht.unique ht' ▸ hover
    | _ => cases hcall
  · intro hover
    obtain ⟨hc, hsub⟩ := hs.heard hrun hlen params msg hx (of_decide_eq_true ho)
    exact ⟨msg.id, (Directory.mem_getSubscribers htables.sound hv).mpr ⟨_, hsub, hover⟩, hc⟩

/-- **The callback of a handle that was dropped gets nothing more exactly when nothing is heard behind
the Unsub.** Up to `2 ^ 32` messages this means that no publication arrives there that matches the topic
while the receiver is there. -/
theorem unsubscribes_iff {acts : List Act} {id : Option MsgId} (hs₁ : Reachable s₁)
    (hd : s₁.handles call = some ⟨t, id, .held⟩)
    (h : Lts.run step s₁ (.dropHandle call :: acts) = some s) :
    ((∀ r, Behind s₁ s t r → ¬ r.Hears call) → Unsubscribes s₁ s t call) ∧
    (s.status = .running → Unsubscribes s₁ s t call → ∀ r, Behind s₁ s t r → ¬ r.Hears call) ∧
    (s.sent.length < 2 ^ 32 → ∀ r, Behind s₁ s t r → (r.Hears call ↔
      ∃ id payload, r.event = .msg ⟨id, .pub payload⟩ ∧ r.env.isOpen call = true ∧
        t.Overlaps payload.topic)) := by
  have hreach : Lts.Reachable Session.step s₁ s := ⟨_, h⟩
  have hs : Reachable s := Lts.Reachable.trans hs₁ hreach
  have hmem : ∀ r, Behind s₁ s t r → r ∈ s.log := by
    rintro r ⟨l₁, l₂, hlog, -⟩
    rw [hlog]
    exact List.mem_append_right _ List.mem_cons_self
  refine ⟨fun hnone r hr => ?_, fun hrun hun r hr hh => ?_, fun hlen r hr => ?_⟩
  · by_contra hne
    exact hnone r hr (Turn.hears_of_pubsTo (hs.turns_injective r (hmem r hr) .pub) hne)
  · exact Turn.pubsTo_of_hears (hs.turns_ok hrun r (hmem r hr)) hh (hun r hr)
  · obtain ⟨l₁, l₂, hlog, -⟩ := hr
    obtain ⟨s₀, h₀, hlog₀⟩ := hs.at_turn _ r l₂ hlog
    -- the Sub of the handle was sent before it was dropped
    have hrun₁ : s₁.status = .running := by
      obtain ⟨s₂, hs₂, -⟩ := Option.bind_eq_some_iff.mp h
      exact (step_eq_some.mp hs₂).1
    have hid := hs₁.held_sent call _ hd rfl
    obtain ⟨params, msg, hx, hcall⟩ := hs₁.post_of_handle hrun₁ call _ hd hid
    have hx₀ : (.sub params, msg) ∈ posts s₀.log := by
      rw [hlog₀]
      exact posts_mono (List.prefix_append ..) hx
    have htopic : params.msg.topic = t := by
      have ht : s₁.SubscribesTo params.callbackPub t := ⟨_, hcall ▸ hd, rfl⟩
      exact (hs₁.handle_of_post params msg hx).unique ht
    have hiff := Reachable.hears_iff h₀.reachable h₀.running
      ((sent_length_run h₀.later).trans_lt hlen) hx₀ h₀.valid r.env.order r.env.transport
    rw [← h₀.turn, hcall, htopic] at hiff
    exact hiff

/-! ## Two subscriptions that overlap -/

def anyPath : Topic := ⟨"p", ⟨"*"⟩⟩

theorem anyPath_valid : anyPath.Valid := by decide

def note : PubMsg := ⟨served, ⟨[1], false⟩⟩

/-- A turn that receives a message, on a transport that works. -/
def getting (msg : Msg ProtocolServer) (valid : (Event.msg msg).Valid) : Act :=
  .turn (.msg msg) valid .given fun _ => .ok ()

/-- A client subscribes to a path and to all paths. -/
def overlapping : List Act :=
  [.subscribe served served_valid, .subscribe anyPath (by decide), sending (.sub ⟨⟨served⟩, 0, 0⟩),
    sending (.sub ⟨⟨anyPath⟩, 1, 1⟩), getting ⟨1, .ack ⟨1, none, none⟩⟩ trivial,
    getting ⟨2, .ack ⟨2, none, none⟩⟩ trivial, .acked 0, .acked 1]

/-- The Unsub of the first handle is sent and acknowledged, and a publication on the path arrives: the
server still has the other subscription. -/
def leaving : List Act :=
  [sending (.unsub ⟨⟨served⟩⟩), getting ⟨3, .ack ⟨3, none, none⟩⟩ trivial,
    getting ⟨4, .pub note⟩ (by decide)]

/-- If the receiver goes with the handle, nothing goes into the callback behind the Unsub. -/
theorem unsubscribes_iff_closing : ∃ s₁ s, Lts.run step init overlapping = some s₁ ∧
    Lts.run step s₁ (.dropHandle 0 :: .close 0 :: leaving) = some s ∧
    Unsubscribes s₁ s served 0 := by
  have hrun : ((Lts.run step init overlapping).bind fun s₁ =>
      (Lts.run step s₁ (.dropHandle 0 :: .close 0 :: leaving)).map fun s =>
        (s₁.handles 0, (s.log.drop s₁.log.length).all fun r => !r.env.isOpen 0)) =
      some (some ⟨served, some 1, .held⟩, true) := by decide +kernel
  obtain ⟨s₁, hs₁, h⟩ := Option.bind_eq_some_iff.mp hrun
  obtain ⟨s, hs, he⟩ := Option.map_eq_some_iff.mp h
  obtain ⟨hd, hclosed⟩ := Prod.mk.inj he
  refine ⟨s₁, s, hs₁, hs, (unsubscribes_iff ⟨_, hs₁⟩ hd hs).1 ?_⟩
  rintro r ⟨l₁, l₂, hlog, -⟩ ⟨id, payload, -, ho, -⟩
  rw [hlog, List.append_assoc, List.drop_left] at hclosed
  have hr := List.all_eq_true.mp hclosed r (List.mem_append_right _ List.mem_cons_self)
  rw [ho] at hr
  cases hr

/-- **The publication that arrives behind the Unsub goes into the callback of the dropped handle**, whose
channel another subscription shares. -/
theorem not_unsubscribes_sharing : ∃ s₁ s, Lts.run step init overlapping = some s₁ ∧
    s₁.handles 0 = some ⟨served, some 1, .held⟩ ∧
    Lts.run step s₁ (.dropHandle 0 :: leaving) = some s ∧ ¬ Unsubscribes s₁ s served 0 := by
  have hrun : ((Lts.run step init overlapping).bind fun s₁ =>
      (Lts.run step s₁ (.dropHandle 0 :: leaving)).map fun s => (s₁.handles 0, s₁.tasks,
        (s.log.drop s₁.log.length).map fun r => (r.task?, r.pubsTo 0))) =
      some (some ⟨served, some 1, .held⟩, [],
        [(some (.unsub ⟨⟨served⟩⟩), []), (none, []), (none, [note])]) := by decide +kernel
  obtain ⟨s₁, hs₁, h⟩ := Option.bind_eq_some_iff.mp hrun
  obtain ⟨s, hs, he⟩ := Option.map_eq_some_iff.mp h
  obtain ⟨hd, htasks, hturns⟩ := by simpa only [Prod.mk.injEq] using he
  obtain ⟨l, hlog⟩ := log_run ⟨_, hs⟩
  rw [← hlog, List.drop_left] at hturns
  obtain ⟨r₁, l, rfl, h₁, hturns⟩ := List.map_eq_cons_iff.mp hturns
  obtain ⟨r₂, l, rfl, h₂, hturns⟩ := List.map_eq_cons_iff.mp hturns
  obtain ⟨r₃, l, rfl, h₃, -⟩ := List.map_eq_cons_iff.mp hturns
  refine ⟨s₁, s, hs₁, hd, hs, fun hun => ?_⟩
  have hnil : r₃.pubsTo 0 = [] := by
    refine hun r₃ ⟨[r₁, r₂], l, ?_, ?_⟩
    · rw [← hlog, List.append_assoc]
      rfl
    · rw [htasks, taken, List.filterMap_cons_some (Prod.mk.inj h₁).1]
      exact List.prefix_append ..
  rw [(Prod.mk.inj h₃).2] at hnil
  cases hnil

end Session

end T2Bus
