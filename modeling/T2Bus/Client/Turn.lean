import T2Bus.Client.Core
import T2Bus.Directory.Dropped

/-!
# What a turn of the client does

* `ClientTask.SrvClaimable`, `ClientTask.UnsrvOwned`: the tasks that `before_send` accepts,
  `ClientCore.Sends`: what it then changes; **`ClientCore.beforeSend_ok_iff`**,
  **`ClientCore.sends_of_beforeSend`**;
* `ClientExec.pubLoop_induct`, `ClientExec.unsubscribeAll_induct`: rules for the loops;
* `ClientCore.Registered`, `ClientCore.ReqOpen`: the messages that `after_receive` accepts;
  **`ClientExec.afterReceive_ok_iff`**.
-/

namespace T2Bus

/-! ## Sending -/

/-- What the task says to the server. `Stop` says nothing. -/
def ClientTask.content? : ClientTask → Option ProtocolClient
  | .pub params => some (.pub params.msg)
  | .sub params => some (.sub params.msg)
  | .req params => some (.req params.msg)
  | .rsp params => some (.rsp params.msg)
  | .srv params => some (.srv params.msg)
  | .unsub params => some (.unsub params.msg)
  | .unsrv params => some (.unsrv params.msg)
  | .stop => none
  | .stopBus _ => some .stop
  | .keepAlive => some .keepAlive

theorem ClientTask.eq_unsub {task : ClientTask} {t : Topic}
    (h : task.content? = some (.unsub ⟨t⟩)) : ∃ params, task = .unsub params ∧ params.msg.topic = t := by
  cases task with
  | unsub params =>
    refine ⟨params, rfl, ?_⟩
    rw [ProtocolClient.unsub.inj (Option.some.inj h)]
  | _ => cases h

/-- The task carries no topic, or a valid one. -/
def ClientTask.Valid (task : ClientTask) : Prop := ∀ content ∈ task.content?, content.Valid

/-- The topic can be claimed for a callback: it has no wildcards, and no other callback owns it. -/
def ClientCore.Claimable (core : ClientCore) (callbackId : MsgId) (t : Topic) : Prop :=
  ¬ t.hasWildcard ∧
    (core.subscriptions.getOwner t = none ∨ core.subscriptions.getOwner t = some callbackId)

/-- A Srv can be claimed locally under the next message id. -/
def ClientTask.SrvClaimable (core : ClientCore) : ClientTask → Prop
  | .srv params => core.Claimable (core.nextMsgId + 1) params.msg.topic
  | _ => True

/-- An Unsrv finds the local owner of its topic. -/
def ClientTask.UnsrvOwned (core : ClientCore) : ClientTask → Prop
  | .unsrv params => (core.subscriptions.getOwner params.msg.topic).isSome
  | _ => True

namespace ClientCore

variable {core core' : ClientCore} {task : ClientTask} {msg : Msg ProtocolClient}

@[simp] theorem bump_nextMsgId : core.bump.nextMsgId = core.nextMsgId + 1 := rfl

@[simp] theorem bump_callbacksRsp : core.bump.callbacksRsp = core.callbacksRsp := rfl

@[simp] theorem bump_callbacksPub : core.bump.callbacksPub = core.callbacksPub := rfl

@[simp] theorem bump_callbacksReq : core.bump.callbacksReq = core.callbacksReq := rfl

@[simp] theorem bump_subscriptions : core.bump.subscriptions = core.subscriptions := rfl

variable (core) in
theorem message_srv {params : TaskSrv} {result : BusResult Unit} {subscriptions : Directory}
    (h : core.subscriptions.claim core.nextMsgId params.msg.topic = (result, subscriptions)) :
    core.message (.srv params) =
      ((result.map fun _ => (⟨core.nextMsgId, .srv params.msg⟩ : Msg ProtocolClient)).mapError .err,
        { core with
          callbacksAck := core.callbacksAck.insert core.nextMsgId params.callbackAck
          callbacksReq := core.callbacksReq.insert core.nextMsgId params.callbackReq
          subscriptions := subscriptions }) := by
  rw [message]
  simp only [h]
  cases result <;> rfl

variable (core) in
theorem message_unsrv {params : TaskUnsrv} {callbackId : MsgId}
    (h : core.subscriptions.getOwner params.msg.topic = some callbackId) :
    core.message (.unsrv params) = (.ok ⟨core.nextMsgId, .unsrv params.msg⟩,
      { core with
        subscriptions := (core.subscriptions.unclaim callbackId params.msg.topic).2 }) := by
  have hok := Directory.unclaim_ok (d := core.subscriptions) callbackId
    (Directory.not_hasWildcard_of_getOwner h)
  rw [message]
  simp only [h, hok]

/-- **`before_send` accepts** every task but `Stop`, a Srv that cannot be claimed and an Unsrv without
owner. -/
theorem beforeSend_ok_iff (ht : task ≠ .stop) : (∃ msg, (core.beforeSend task).1 = .ok msg) ↔
    task.SrvClaimable core ∧ task.UnsrvOwned core := by
  rw [beforeSend]
  cases task with
  | srv params =>
    have hclaim := Directory.claim_ok_iff (d := core.subscriptions) (c := core.nextMsgId + 1)
      (t := params.msg.topic)
    refine Iff.trans ?_ (hclaim.trans (iff_of_eq (and_true _)).symm)
    cases hc : core.subscriptions.claim (core.nextMsgId + 1) params.msg.topic with
    | mk result subscriptions =>
      rw [message_srv core.bump hc]
      cases result <;> simp [Except.map, Except.mapError]
  | unsrv params =>
    simp only [ClientTask.SrvClaimable, ClientTask.UnsrvOwned, true_and]
    cases ho : core.subscriptions.getOwner params.msg.topic with
    | none => simp [message, ho]
    | some callbackId => simp [message_unsrv core.bump ho]
  | stop => exact absurd rfl ht
  | _ => simp [message, ClientTask.SrvClaimable, ClientTask.UnsrvOwned]

/-- `before_send` panics only on an Unsrv without owner. `Stop` does not come to it. -/
theorem beforeSend_ne_panic (ht : task ≠ .stop) (ho : task.UnsrvOwned core) :
    (core.beforeSend task).1 ≠ .error .panic := by
  rw [beforeSend]
  cases task with
  | srv params =>
    cases hc : core.subscriptions.claim (core.nextMsgId + 1) params.msg.topic with
    | mk result subscriptions =>
      rw [message_srv core.bump hc]
      cases result <;> simp [Except.map, Except.mapError]
  | unsrv params =>
    obtain ⟨callbackId, ho⟩ := Option.isSome_iff_exists.mp ho
    simp [message_unsrv core.bump ho]
  | stop => exact absurd rfl ht
  | _ => simp [message]

/-- What `before_send` changes when it makes `msg`. -/
structure Sends (core : ClientCore) (msg : Msg ProtocolClient) (core' : ClientCore) : Prop where
  id : msg.id = core.nextMsgId + 1
  nextMsgId : core'.nextMsgId = msg.id
  callbacksRsp : ∀ k, (core'.callbacksRsp k).isSome ↔
    (core.callbacksRsp k).isSome ∨ k = msg.id ∧ ∃ params, msg.content = .req params
  callbacksPub : ∀ k, (core'.callbacksPub k).isSome ↔
    (core.callbacksPub k).isSome ∨ k = msg.id ∧ ∃ params, msg.content = .sub params
  callbacksReq : ∀ k, (core'.callbacksReq k).isSome ↔
    (core.callbacksReq k).isSome ∨ k = msg.id ∧ ∃ params, msg.content = .srv params
  subscribed : ∀ k t, core'.subscriptions.Subscribed k t ↔
    core.subscriptions.Subscribed k t ∨ k = msg.id ∧ msg.content = .sub ⟨t⟩
  owner : ∀ t, core'.subscriptions.getOwner t =
    if msg.content = .srv ⟨t⟩ then some msg.id
    else if msg.content = .unsrv ⟨t⟩ then none else core.subscriptions.getOwner t
  sound : core.subscriptions.Sound → msg.content.Valid → core'.subscriptions.Sound

/-- A change that leaves the directory and the callbacks of other kinds alone. -/
theorem sends_plain {content : ProtocolClient} (callbacksAck : Table MsgId Callback)
    (hreq : ∀ params, content ≠ .req params) (hsub : ∀ params, content ≠ .sub params)
    (hsrv : ∀ params, content ≠ .srv params) (hunsrv : ∀ params, content ≠ .unsrv params) :
    Sends core ⟨core.nextMsgId + 1, content⟩ { core.bump with callbacksAck := callbacksAck } where
  id := rfl
  nextMsgId := rfl
  callbacksRsp k := by simp [hreq]
  callbacksPub k := by simp [hsub]
  callbacksReq k := by simp [hsrv]
  subscribed k t := by simp [hsub]
  owner t := by simp [hsrv, hunsrv]
  sound h _ := h

theorem isSome_insert {m : Table MsgId Callback} {id k : MsgId} {callback : Callback} :
    (m.insert id callback k).isSome ↔ (m k).isSome ∨ k = id := by
  rw [Table.insert_apply]
  split_ifs with h <;> simp [h]

/-- **What `before_send` does**: the message has the next id and the content of the task. -/
theorem sends_of_beforeSend (h : core.beforeSend task = (.ok msg, core')) :
    Sends core msg core' ∧ task.content? = some msg.content := by
  rw [beforeSend] at h
  cases task with
  | pub params =>
    cases h
    exact ⟨sends_plain _ (by simp) (by simp) (by simp) (by simp), rfl⟩
  | rsp params =>
    cases h
    exact ⟨sends_plain _ (by simp) (by simp) (by simp) (by simp), rfl⟩
  | unsub params =>
    cases h
    exact ⟨sends_plain _ (by simp) (by simp) (by simp) (by simp), rfl⟩
  | stopBus params =>
    cases h
    exact ⟨sends_plain _ (by simp) (by simp) (by simp) (by simp), rfl⟩
  | keepAlive =>
    cases h
    exact ⟨sends_plain _ (by simp) (by simp) (by simp) (by simp), rfl⟩
  | stop => cases h
  | req params =>
    cases h
    refine ⟨⟨rfl, rfl, fun k => ?_, fun k => ?_, fun k => ?_, fun k t => ?_, fun t => ?_,
      fun h _ => h⟩, rfl⟩
    · simpa using isSome_insert
    all_goals simp
  | sub params =>
    cases h
    refine ⟨⟨rfl, rfl, fun k => ?_, fun k => ?_, fun k => ?_, fun k t => ?_, fun t => ?_,
      fun h hmsg => h.apply (.subscribe _ _) (hmsg _ rfl)⟩, rfl⟩
    · simp
    · simpa using isSome_insert
    · simp
    · rw [Directory.subscribed_subscribe, or_comm]
      refine or_congr_right (and_congr_right fun _ => ?_)
      simp only [ProtocolClient.sub.injEq]
      exact ⟨fun e => by rw [e], fun e => by rw [e]⟩
    · simp [Directory.getOwner_subscribe]
  | srv params =>
    cases hc : core.subscriptions.claim (core.nextMsgId + 1) params.msg.topic with
    | mk result subscriptions =>
      rw [message_srv core.bump hc] at h
      cases result with
      | error e => simp [Except.map, Except.mapError] at h
      | ok u =>
        cases h
        have hclaim : (core.subscriptions.claim (core.nextMsgId + 1) params.msg.topic).1 = .ok () :=
          congrArg Prod.fst hc
        have hsubs : subscriptions =
            (core.subscriptions.claim (core.nextMsgId + 1) params.msg.topic).2 :=
          (congrArg Prod.snd hc).symm
        subst hsubs
        refine ⟨⟨rfl, rfl, fun k => ?_, fun k => ?_, fun k => ?_, fun k t => ?_, fun t => ?_,
          fun h hmsg => h.apply (.claim _ _) (hmsg _ rfl)⟩, rfl⟩
        · simp
        · simp
        · simpa using isSome_insert
        · simp [Directory.subscribed_claim]
        · refine (Directory.getOwner_claim hclaim t).trans ?_
          obtain ⟨⟨topic⟩, _, _⟩ := params
          simp only [ProtocolClient.srv.injEq, SrvMsg.mk.injEq, eq_comm (a := topic), reduceCtorEq,
            if_false]
          rfl
  | unsrv params =>
    cases ho : core.subscriptions.getOwner params.msg.topic with
    | none =>
      simp [message, ho] at h
    | some callbackId =>
      rw [message_unsrv core.bump ho] at h
      cases h
      refine ⟨⟨rfl, rfl, fun k => ?_, fun k => ?_, fun k => ?_, fun k t => ?_, fun t => ?_,
        fun h hmsg => h.apply (.unclaim _ _) (hmsg _ rfl)⟩, rfl⟩
      · simp
      · simp
      · simp
      · simp [Directory.subscribed_unclaim]
      · have hu := Directory.getOwner_unclaim ho t
        refine hu.trans ?_
        obtain ⟨⟨topic⟩⟩ := params
        simp only [ProtocolClient.unsrv.injEq, UnsrvMsg.mk.injEq, eq_comm (a := topic), reduceCtorEq,
          if_false]

/-- The callbacks under `k` are the same. -/
structure SameCallbacks (core core' : ClientCore) (k : MsgId) : Prop where
  ack : core'.callbacksAck k = core.callbacksAck k
  rsp : core'.callbacksRsp k = core.callbacksRsp k
  pub : core'.callbacksPub k = core.callbacksPub k
  req : core'.callbacksReq k = core.callbacksReq k

variable (core) in
/-- **`before_send` leaves the callbacks of other messages alone**, whether or not it succeeds. -/
theorem sameCallbacks_beforeSend (task : ClientTask) {k : MsgId} (hk : k ≠ core.nextMsgId + 1) :
    core.SameCallbacks (core.beforeSend task).2 k := by
  have hins : ∀ (m : Table MsgId Callback) callback,
      m.insert (core.nextMsgId + 1) callback k = m k := fun m callback => Table.insert_of_ne hk callback
  rw [beforeSend]
  cases task with
  | srv params =>
    rw [message_srv core.bump rfl]
    exact ⟨hins _ _, rfl, rfl, hins _ _⟩
  | unsrv params =>
    cases ho : core.subscriptions.getOwner params.msg.topic with
    | none =>
      simp only [message, bump_subscriptions, ho]
      exact ⟨rfl, rfl, rfl, rfl⟩
    | some callbackId =>
      rw [message_unsrv core.bump ho]
      exact ⟨rfl, rfl, rfl, rfl⟩
  | sub params => exact ⟨hins _ _, rfl, hins _ _, rfl⟩
  | req params => exact ⟨hins _ _, hins _ _, rfl, rfl⟩
  | pub params | rsp params | stopBus params => exact ⟨hins _ _, rfl, rfl, rfl⟩
  | unsub params | stop | keepAlive => exact ⟨rfl, rfl, rfl, rfl⟩

end ClientCore

/-- The transport takes every message. -/
def ClientEnv.Reliable (env : ClientEnv) : Prop := ∀ msg, env.transport msg = .ok ()

namespace ClientExec

variable {env : ClientEnv} {s s' : ClientExec} {payload : PubMsg}

/-- What a send that succeeds does. -/
theorem send_ok {task : ClientTask} (h : send env task s = (.ok (), s')) :
    ∃ msg core', s.core.beforeSend task = (.ok msg, core') ∧
      s' = { s with core := core', sent := s.sent ++ [msg] } := by
  rw [send] at h
  cases hb : s.core.beforeSend task with
  | mk result core' =>
    rw [hb] at h
    cases result with
    | error e => cases h
    | ok msg =>
      simp only at h
      cases ht : env.transport msg with
      | error e =>
        rw [ht] at h
        cases h
      | ok u =>
        rw [ht] at h
        cases h
        exact ⟨msg, core', rfl, rfl⟩

theorem send_ok_iff {task : ClientTask} (htr : env.Reliable) :
    (send env task s).1 = .ok () ↔ ∃ msg, (s.core.beforeSend task).1 = .ok msg := by
  rw [send]
  cases hb : s.core.beforeSend task with
  | mk result core' => cases result <;> simp [htr _]

theorem send_ne_panic {task : ClientTask} (ht : task ≠ .stop) (ho : task.UnsrvOwned s.core) :
    (send env task s).1 ≠ .error .panic := by
  have hb := ClientCore.beforeSend_ne_panic ht ho
  rw [send]
  cases he : s.core.beforeSend task with
  | mk result core' =>
    rw [he] at hb
    cases result with
    | error e => simpa using hb
    | ok msg =>
      simp only
      cases env.transport msg <;> simp

@[simp] theorem start_sent (core : ClientCore) : (start core).sent = [] := rfl

@[simp] theorem forget_callbacksPub (k : MsgId) :
    (s.forget k).core.callbacksPub = s.core.callbacksPub.remove k := rfl

@[simp] theorem forget_subscriptions (k : MsgId) :
    (s.forget k).core.subscriptions = (s.core.subscriptions.dropClient k).2 := rfl

/-! ## The loops -/

/-- The state after an Unsub. -/
def unsubscribed (s : ClientExec) (t : Topic) : ClientExec :=
  { s with
    core := s.core.bump
    sent := s.sent ++ [⟨s.core.nextMsgId + 1, .unsub ⟨t⟩⟩] }

variable (env) in
theorem send_unsub (s : ClientExec) (t : Topic) :
    (∃ e, send env (.unsub ⟨⟨t⟩⟩) s = (.error (.err e), { s with core := s.core.bump }) ∧
      ¬ env.Reliable) ∨
      send env (.unsub ⟨⟨t⟩⟩) s = (.ok (), s.unsubscribed t) := by
  rw [send, ClientCore.beforeSend, ClientCore.message]
  simp only
  cases ht : env.transport ⟨s.core.bump.nextMsgId, .unsub ⟨t⟩⟩ with
  | error e =>
    refine Or.inl ⟨e, rfl, fun htr => ?_⟩
    rw [htr] at ht
    cases ht
  | ok u => exact Or.inr rfl

/-- **The rule for the Unsubs of a cleanup.** -/
theorem unsubscribeAll_induct {P : ClientExec → Prop} {topics : List Topic}
    (step : ∀ s, ∀ t ∈ topics, P s → P (s.unsubscribed t))
    (h : unsubscribeAll env topics s = (.ok (), s')) (hs : P s) : P s' := by
  induction topics generalizing s with
  | nil =>
    cases h
    exact hs
  | cons t topics ih =>
    rw [unsubscribeAll] at h
    rcases send_unsub env s t with ⟨e, he, -⟩ | hok
    · rw [he] at h
      cases h
    · rw [hok] at h
      exact ih (fun s u hu => step s u (List.mem_cons_of_mem _ hu)) h
        (step s t List.mem_cons_self hs)

/-- The Unsubs of a cleanup fail only when the transport does, and touch no callback. -/
theorem unsubscribeAll_result (topics : List Topic) (s : ClientExec) :
    (unsubscribeAll env topics s).1 ≠ .error .panic ∧
      (env.Reliable → (unsubscribeAll env topics s).1 = .ok ()) ∧
      (unsubscribeAll env topics s).2.core.callbacksPub = s.core.callbacksPub := by
  induction topics generalizing s with
  | nil => exact ⟨by simp [unsubscribeAll], fun _ => rfl, rfl⟩
  | cons t topics ih =>
    rw [unsubscribeAll]
    rcases send_unsub env s t with ⟨e, he, htr⟩ | hok
    · rw [he]
      exact ⟨by simp, fun h => absurd h htr, rfl⟩
    · rw [hok]
      exact ih (s.unsubscribed t)

variable (env) in
theorem cleanup_result (k : MsgId) (s : ClientExec) :
    (cleanup env k s).1 ≠ .error .panic ∧ (env.Reliable → (cleanup env k s).1 = .ok ()) ∧
      (cleanup env k s).2.core.callbacksPub = s.core.callbacksPub.remove k :=
  unsubscribeAll_result _ (s.forget k)

/-- **The rule for the loop over the subscribers of a publication.** -/
theorem pubLoop_induct {P : ClientExec → Prop} {ids : List MsgId}
    (call : ∀ s c, P s → P (s.call c))
    (clean : ∀ s s' k callback, k ∈ ids → s.core.callbacksPub k = some callback →
      env.isOpen callback = false → cleanup env k s = (.ok (), s') → P s → P s')
    (h : pubLoop env payload ids s = (.ok (), s')) (hs : P s) : P s' := by
  induction ids generalizing s with
  | nil =>
    cases h
    exact hs
  | cons k ids ih =>
    have ih := fun {s} => ih (s := s) fun s s' k callback hk =>
      clean s s' k callback (List.mem_cons_of_mem _ hk)
    rw [pubLoop] at h
    cases hc : s.core.callbacksPub k with
    | none =>
      rw [hc] at h
      cases h
    | some callback =>
      rw [hc] at h
      simp only at h
      cases ho : env.isOpen callback with
      | true =>
        rw [if_pos ho] at h
        exact ih h (call s _ hs)
      | false =>
        rw [if_neg (by rw [ho]; decide)] at h
        cases hcl : cleanup env k s with
        | mk result s₁ =>
          rw [hcl] at h
          cases result with
          | error e => cases h
          | ok u => exact ih h (clean s s₁ k callback List.mem_cons_self hc ho hcl hs)

/-- `P` holds in the end, or did before an Unsub that the transport refused. -/
def Ends (P : ClientExec → Prop) (s : ClientExec) : Prop :=
  P s ∨ ∃ s', P s' ∧ s = { s' with core := s'.core.bump }

variable (env) in
theorem unsubscribeAll_ends {P : ClientExec → Prop} (step : ∀ s t, P s → P (s.unsubscribed t))
    (topics : List Topic) (hs : P s) : Ends P (unsubscribeAll env topics s).2 := by
  induction topics generalizing s with
  | nil => exact Or.inl hs
  | cons t topics ih =>
    rw [unsubscribeAll]
    rcases send_unsub env s t with ⟨e, he, -⟩ | hok
    · rw [he]
      exact Or.inr ⟨s, hs, rfl⟩
    · rw [hok]
      exact ih (step s t hs)

/-- **The rule for the loop over the subscribers of a publication**, whether or not it succeeds. -/
theorem pubLoop_ends {P : ClientExec → Prop} (call : ∀ s c, P s → P (s.call c))
    (forget : ∀ s k, P s → P (s.forget k)) (step : ∀ s t, P s → P (s.unsubscribed t))
    (ids : List MsgId) (hs : P s) : Ends P (pubLoop env payload ids s).2 := by
  induction ids generalizing s with
  | nil => exact Or.inl hs
  | cons k ids ih =>
    rw [pubLoop]
    cases hc : s.core.callbacksPub k with
    | none => exact Or.inl hs
    | some callback =>
      simp only
      split_ifs
      · exact ih (call s _ hs)
      · have hends := unsubscribeAll_ends env step (s.core.subscriptions.dropClient k).1 (forget s k hs)
        have hok : ∀ s', unsubscribeAll env (s.core.subscriptions.dropClient k).1 (s.forget k) =
            (.ok (), s') → P s' := fun s' h => unsubscribeAll_induct (fun s t _ => step s t) h
          (forget s k hs)
        rw [cleanup]
        cases hu : unsubscribeAll env (s.core.subscriptions.dropClient k).1 (s.forget k) with
        | mk result s₁ =>
          rw [hu] at hends
          cases result with
          | error e => exact hends
          | ok u => exact ih (hok s₁ hu)

/-- The loop never misses a callback if all are there at first. -/
theorem pubLoop_ne_panic {ids : List MsgId} (hn : ids.Nodup)
    (h : ∀ k ∈ ids, (s.core.callbacksPub k).isSome) :
    (pubLoop env payload ids s).1 ≠ .error .panic ∧
      (env.Reliable → (pubLoop env payload ids s).1 = .ok ()) := by
  induction ids generalizing s with
  | nil => exact ⟨by simp [pubLoop], fun _ => rfl⟩
  | cons k ids ih =>
    obtain ⟨hk, hrest⟩ := List.forall_mem_cons.mp h
    obtain ⟨hnot, hn⟩ := List.nodup_cons.mp hn
    obtain ⟨callback, hc⟩ := Option.isSome_iff_exists.mp hk
    rw [pubLoop, hc]
    simp only
    split_ifs with ho
    · exact ih hn hrest
    · obtain ⟨hpanic, hok, hcallbacks⟩ := cleanup_result env k s
      cases hcl : cleanup env k s with
      | mk result s₁ =>
        rw [hcl] at hpanic hok hcallbacks
        cases result with
        | error e => exact ⟨hpanic, hok⟩
        | ok u =>
          -- the later ids differ from the one that was removed
          refine ih hn fun k' hk' => ?_
          have hne : k' ≠ k := by
            rintro rfl
            exact hnot hk'
          rw [hcallbacks, Table.remove_of_ne hne]
          exact hrest k' hk'

/-- Every callback of a loop that succeeds was there at first. -/
theorem registered_of_pubLoop {ids : List MsgId} (h : (pubLoop env payload ids s).1 = .ok ()) :
    ∀ k ∈ ids, (s.core.callbacksPub k).isSome := by
  induction ids generalizing s with
  | nil => simp
  | cons k ids ih =>
    rw [pubLoop] at h
    cases hc : s.core.callbacksPub k with
    | none =>
      rw [hc] at h
      cases h
    | some callback =>
      rw [hc] at h
      simp only at h
      refine List.forall_mem_cons.mpr ⟨by rw [hc]; rfl, ?_⟩
      split_ifs at h with ho
      · have hcall := ih h
        exact hcall
      · have hcallbacks := (cleanup_result env k s).2.2
        cases hcl : cleanup env k s with
        | mk result s₁ =>
          rw [hcl] at h hcallbacks
          cases result with
          | error e => cases h
          | ok u =>
            intro k' hk'
            have hsome := ih h k' hk'
            rw [hcallbacks, Table.remove_apply] at hsome
            split_ifs at hsome
            · cases hsome
            · exact hsome

end ClientExec

/-! ## Receiving -/

namespace ClientCore

/-- The callbacks that a message is looked up in are there. -/
def Registered (core : ClientCore) : ProtocolServer → Prop
  | .ack _ => True
  | .rsp payload => (core.callbacksRsp payload.reqId).isSome
  | .pub payload => ∀ k ∈ core.subscriptions.getSubscribers payload.topic, (core.callbacksPub k).isSome
  | .req payload =>
    ∀ k, core.subscriptions.getOwner payload.topic = some k → (core.callbacksReq k).isSome

/-- If the message is a request, the receiver of its local owner is still there. -/
def ReqOpen (core : ClientCore) (env : ClientEnv) : ProtocolServer → Prop
  | .req payload => ∀ k callback, core.subscriptions.getOwner payload.topic = some k →
    core.callbacksReq k = some callback → env.isOpen callback = true
  | .ack _ | .rsp _ | .pub _ => True

end ClientCore

namespace ClientExec

variable {env : ClientEnv} {s s' : ClientExec} {msg : Msg ProtocolServer}

/-- The subscribers in the order of the loop. -/
theorem registered_arrange (core : ClientCore) (order : Order) (payload : PubMsg) :
    core.Registered (.pub payload) ↔
      ∀ k ∈ order.arrange (core.subscriptions.getSubscribers payload.topic),
        (core.callbacksPub k).isSome :=
  forall_congr' fun _ => imp_congr_left (order.perm _).mem_iff.symm

/-- **`after_receive` misses no callback** if those of the message are there. -/
theorem afterReceive_ne_panic (h : s.core.Registered msg.content) :
    (afterReceive env msg s).1 ≠ .error .panic := by
  obtain ⟨id, content⟩ := msg
  cases content with
  | ack payload =>
    simp only [afterReceive]
    cases s.core.callbacksAck payload.msgId <;> simp
  | rsp payload =>
    obtain ⟨callback, hc⟩ := Option.isSome_iff_exists.mp h
    simp [afterReceive, hc]
  | pub payload =>
    exact (pubLoop_ne_panic ((env.order.perm _).nodup_iff.mpr
      (Directory.nodup_getSubscribers _ _)) ((registered_arrange _ _ _).mp h)).1
  | req payload =>
    simp only [afterReceive]
    cases ho : s.core.subscriptions.getOwner payload.topic with
    | none => simp
    | some k =>
      obtain ⟨callback, hc⟩ := Option.isSome_iff_exists.mp (h k ho)
      simp only [hc]
      split_ifs <;> simp

/-- **`after_receive` succeeds**, on a transport that works, exactly when the callbacks of the message
are there and the receiver of a request is not gone. -/
theorem afterReceive_ok_iff (htr : env.Reliable) : (afterReceive env msg s).1 = .ok () ↔
    s.core.Registered msg.content ∧ s.core.ReqOpen env msg.content := by
  obtain ⟨id, content⟩ := msg
  cases content with
  | ack payload =>
    simp only [afterReceive]
    cases s.core.callbacksAck payload.msgId <;> simp [ClientCore.Registered, ClientCore.ReqOpen]
  | rsp payload =>
    simp only [afterReceive, ClientCore.Registered, ClientCore.ReqOpen, and_true]
    cases s.core.callbacksRsp payload.reqId <;> simp
  | pub payload =>
    rw [registered_arrange _ env.order]
    refine Iff.trans ⟨registered_of_pubLoop, fun h => ?_⟩ (iff_of_eq (and_true _)).symm
    exact (pubLoop_ne_panic ((env.order.perm _).nodup_iff.mpr
      (Directory.nodup_getSubscribers _ _)) h).2 htr
  | req payload =>
    simp only [afterReceive, ClientCore.Registered, ClientCore.ReqOpen]
    cases ho : s.core.subscriptions.getOwner payload.topic with
    | none => simp
    | some k =>
      cases hc : s.core.callbacksReq k with
      | none => simp [hc]
      | some callback =>
        have hopen : (∀ k' callback', some k = some k' → s.core.callbacksReq k' = some callback' →
            env.isOpen callback' = true) ↔ env.isOpen callback = true := by
          refine ⟨fun h => h k callback rfl hc, fun h k' callback' hk hc' => ?_⟩
          cases hk
          cases hc.symm.trans hc'
          exact h
        rw [hopen]
        cases ho : env.isOpen callback <;> simp [hc, ho]

/-- **The rule for a message that is received**, whether or not `after_receive` succeeds. -/
theorem afterReceive_ends {P : ClientExec → Prop} (call : ∀ s c, P s → P (s.call c))
    (takeAck : ∀ s k, P s →
      P { s with core := { s.core with callbacksAck := s.core.callbacksAck.remove k } })
    (takeRsp : ∀ s k, P s →
      P { s with core := { s.core with callbacksRsp := s.core.callbacksRsp.remove k } })
    (forget : ∀ s k, P s → P (s.forget k)) (step : ∀ s t, P s → P (s.unsubscribed t))
    (msg : Msg ProtocolServer) (hs : P s) : Ends P (afterReceive env msg s).2 := by
  obtain ⟨id, content⟩ := msg
  cases content with
  | ack payload =>
    left
    simp only [afterReceive]
    split
    · exact call _ _ (takeAck s payload.msgId hs)
    · exact takeAck s payload.msgId hs
  | rsp payload =>
    left
    simp only [afterReceive]
    split
    · exact call _ _ (takeRsp s payload.reqId hs)
    · exact takeRsp s payload.reqId hs
  | pub payload => exact pubLoop_ends call forget step _ hs
  | req payload =>
    left
    simp only [afterReceive]
    split
    · split
      · split_ifs
        · exact call s _ hs
        · exact hs
      · exact hs
    · exact hs

end ClientExec

end T2Bus
