import T2Bus.Client.Unsubscribed

/-!
# Fresh message ids of a client

`before_send` takes the next id, with no look at the ids that are in use. The ids in use were taken
before, so the first `2 ^ 32` ids of a client are fresh; then they come round.

* `ClientCore.Uses`, `ClientCore.Fresh`;
* `Turn.takes`: the cores in which a turn calls `before_send`; `ClientCore.Within`,
  `ClientCore.Takes`: how they are numbered; **`Turn.takes_takes`**, **`Turn.advances`**: a turn;
* `Session.takes`, `Session.Numbering`; **`Session.Reachable.fresh`**: the ids of a session;
* `Session.run_lapping`: the ids come round; **`Session.fresh_iff`**.
-/

namespace T2Bus

namespace ClientCore

/-- The id is a key of a callback table, or stands in the local directory. -/
def Uses (core : ClientCore) (k : MsgId) : Prop :=
  (core.callbacksAck k).isSome ∨ (core.callbacksRsp k).isSome ∨ (core.callbacksPub k).isSome ∨
    (core.callbacksReq k).isSome ∨ (∃ t, core.subscriptions.Subscribed k t) ∨
      ∃ t, core.subscriptions.getOwner t = some k

/-- The id that `before_send` takes next is not in use. -/
def Fresh (core : ClientCore) : Prop := ¬ core.Uses (core.nextMsgId + 1)

/-- The other core is `n` ids further, and uses no id that this one does not. -/
def Within (core : ClientCore) (n : ℕ) (core' : ClientCore) : Prop :=
  core'.nextMsgId = core.nextMsgId + UInt32.ofNat n ∧ ∀ k, core'.Uses k → core.Uses k

/-- A list of cores, each one id further than the one before. -/
def Takes (core : ClientCore) (l : List ClientCore) : Prop :=
  ∀ i c, l[i]? = some c → core.Within i c

end ClientCore

namespace ClientExec

variable (env : ClientEnv)

/-- The cores in which `unsubscribeAll` calls `before_send`. -/
def unsubscribeAllTakes : List Topic → ClientExec → List ClientCore
  | [], _ => []
  | topic :: rest, s =>
    s.core ::
      match send env (.unsub ⟨⟨topic⟩⟩) s with
      | (.ok _, s) => unsubscribeAllTakes rest s
      | (.error _, _) => []

/-- The cores in which `pubLoop` calls `before_send`. -/
def pubLoopTakes (payload : PubMsg) : List MsgId → ClientExec → List ClientCore
  | [], _ => []
  | callbackId :: rest, s =>
    match s.core.callbacksPub callbackId with
    | none => []
    | some callback =>
      if env.isOpen callback then pubLoopTakes payload rest (s.call (.pub callback payload))
      else
        unsubscribeAllTakes env (s.core.subscriptions.dropClient callbackId).1 (s.forget callbackId) ++
          match cleanup env callbackId s with
          | (.ok _, s) => pubLoopTakes payload rest s
          | (.error _, _) => []

end ClientExec

/-- The cores in which the turn calls `before_send`. -/
def Turn.takes (r : Turn) : List ClientCore :=
  match r.event with
  | .msg ⟨_, .pub payload⟩ =>
    ClientExec.pubLoopTakes r.env payload
      (r.env.order.arrange (r.core.subscriptions.getSubscribers payload.topic)) (.start r.core)
  | .task .stop | .msg ⟨_, .ack _⟩ | .msg ⟨_, .rsp _⟩ | .msg ⟨_, .req _⟩ | .lost _ | .closed => []
  | .task _ | .tick => [r.core]

/-! ## The ids of a turn -/

namespace ClientCore

variable {core core' core'' : ClientCore} {l l' : List ClientCore} {n n' : ℕ} {k : MsgId}

theorem within_refl : core.Within 0 core := ⟨by simp, fun _ => id⟩

theorem Within.trans (h : core.Within n core') (h' : core'.Within n' core'') :
    core.Within (n + n') core'' := by
  refine ⟨?_, fun k hk => h.2 k (h'.2 k hk)⟩
  rw [h'.1, h.1, UInt32.ofNat_add, UInt32.add_assoc]

theorem takes_nil : core.Takes [] := fun i c h => by cases h

theorem Within.takes_cons (h : core.Within 1 core') (hl : core'.Takes l) : core.Takes (core :: l) := by
  intro i c hc
  cases i with
  | zero =>
    cases hc
    exact within_refl
  | succ i =>
    rw [Nat.add_comm]
    exact h.trans (hl i c hc)

theorem Takes.append (hl : core.Takes l) (h : core.Within l.length core') (hl' : core'.Takes l') :
    core.Takes (l ++ l') := by
  intro i c hc
  rcases Nat.lt_or_ge i l.length with hi | hi
  · rw [List.getElem?_append_left hi] at hc
    exact hl i c hc
  · rw [List.getElem?_append_right hi] at hc
    have hw := h.trans (hl' _ c hc)
    rwa [Nat.add_sub_cancel' hi] at hw

/-- The removal of a subscriber brings no id into use. -/
theorem within_forget (s : ClientExec) (k : MsgId) : s.core.Within 0 (s.forget k).core := by
  refine ⟨by simp [ClientExec.forget], fun k' => ?_⟩
  refine Or.imp id (Or.imp id (Or.imp (fun h => ?_) (Or.imp id (Or.imp ?_ ?_))))
  · rw [ClientExec.forget_callbacksPub, Table.remove_apply] at h
    split_ifs at h
    · cases h
    · exact h
  · exact Exists.imp fun t h => (Directory.subscribed_dropClient.mp h).1
  · refine Exists.imp fun t h => ?_
    rw [ClientExec.forget_subscriptions, Directory.getOwner_dropClient] at h
    split_ifs at h
    exact h

theorem within_unsubscribed (s : ClientExec) (t : Topic) :
    s.core.Within 1 (s.unsubscribed t).core := ⟨rfl, fun _ => id⟩

/-- What `before_send` brings into use is the id that it takes. -/
theorem uses_of_beforeSend {task : ClientTask} {msg : Msg ProtocolClient}
    (h : core.beforeSend task = (.ok msg, core')) (hk : core'.Uses k) :
    core.Uses k ∨ k = core.nextMsgId + 1 := by
  obtain ⟨hs, -⟩ := sends_of_beforeSend h
  by_cases hid : k = core.nextMsgId + 1
  · exact Or.inr hid
  · have hne : k ≠ msg.id := hs.id ▸ hid
    have hsame := core.sameCallbacks_beforeSend task hid
    rw [h] at hsame
    obtain ⟨hack, hrsp, hpub, hreq⟩ := hsame
    left
    rw [Uses, hack, hrsp, hpub, hreq] at hk
    refine hk.imp id (Or.imp id (Or.imp id (Or.imp id (Or.imp ?_ ?_))))
    · exact Exists.imp fun t ht => ((hs.subscribed k t).mp ht).resolve_right fun hr => hne hr.1
    · refine Exists.imp fun t ht => ?_
      rw [hs.owner] at ht
      split_ifs at ht
      · exact absurd (Option.some.inj ht).symm hne
      · exact ht

end ClientCore

namespace ClientExec

variable {env : ClientEnv} {s s' : ClientExec} {payload : PubMsg}

variable (env) in
theorem takes_unsubscribeAll (topics : List Topic) (s : ClientExec) :
    s.core.Takes (unsubscribeAllTakes env topics s) ∧
      ∀ s', unsubscribeAll env topics s = (.ok (), s') →
        s.core.Within (unsubscribeAllTakes env topics s).length s'.core := by
  induction topics generalizing s with
  | nil =>
    refine ⟨ClientCore.takes_nil, fun s' h => ?_⟩
    cases h
    exact ClientCore.within_refl
  | cons t topics ih =>
    have hone := ClientCore.within_unsubscribed s t
    rw [unsubscribeAllTakes, unsubscribeAll]
    rcases send_unsub env s t with ⟨e, he, -⟩ | hok
    · rw [he]
      refine ⟨hone.takes_cons ClientCore.takes_nil, fun s' h => ?_⟩
      cases h
    · rw [hok]
      obtain ⟨htakes, hwithin⟩ := ih (s.unsubscribed t)
      refine ⟨hone.takes_cons htakes, fun s' h => ?_⟩
      rw [List.length_cons, Nat.add_comm]
      exact hone.trans (hwithin s' h)

variable (env payload) in
/-- **The loop over a publication takes one id after the other**, and brings none into use. -/
theorem takes_pubLoop (ids : List MsgId) (s : ClientExec) :
    s.core.Takes (pubLoopTakes env payload ids s) ∧
      ∀ s', pubLoop env payload ids s = (.ok (), s') →
        s.core.Within (pubLoopTakes env payload ids s).length s'.core := by
  induction ids generalizing s with
  | nil =>
    refine ⟨ClientCore.takes_nil, fun s' h => ?_⟩
    cases h
    exact ClientCore.within_refl
  | cons k ids ih =>
    rw [pubLoopTakes, pubLoop]
    cases hc : s.core.callbacksPub k with
    | none => exact ⟨ClientCore.takes_nil, fun s' h => by cases h⟩
    | some callback =>
      simp only
      split_ifs
      · exact ih (s.call (.pub callback payload))
      · obtain ⟨htakes, hwithin⟩ :=
          takes_unsubscribeAll env (s.core.subscriptions.dropClient k).1 (s.forget k)
        have hforget := ClientCore.within_forget s k
        have htakes : s.core.Takes
            (unsubscribeAllTakes env (s.core.subscriptions.dropClient k).1 (s.forget k)) :=
          ClientCore.takes_nil.append hforget htakes
        cases hcl : cleanup env k s with
        | mk result s₁ =>
          cases result with
          | error e =>
            rw [List.append_nil]
            exact ⟨htakes, fun s' h => by cases h⟩
          | ok u =>
            have hwithin := hforget.trans (hwithin s₁ hcl)
            rw [Nat.zero_add] at hwithin
            obtain ⟨htakes', hwithin'⟩ := ih s₁
            refine ⟨htakes.append hwithin htakes', fun s' h => ?_⟩
            rw [List.length_append]
            exact hwithin.trans (hwithin' s' h)

/-- A message that is received brings no id into use. -/
theorem uses_afterReceive {msg : Msg ProtocolServer} {k : MsgId}
    (h : (afterReceive env msg s).2.core.Uses k) : s.core.Uses k := by
  have hremove : ∀ (m : Table MsgId Callback) j, (m.remove j k).isSome → (m k).isSome := by
    intro m j hk
    rw [Table.remove_apply] at hk
    split_ifs at hk
    · cases hk
    · exact hk
  have hkept : Ends (fun s' => s'.core.Uses k → s.core.Uses k) (afterReceive env msg s).2 :=
    afterReceive_ends (fun s' c h => h) (fun s' j h hk => h (hk.imp (hremove _ j) id))
      (fun s' j h hk => h (hk.imp id (Or.imp (hremove _ j) id)))
      (fun s' j h hk => h ((ClientCore.within_forget s' j).2 k hk)) (fun s' t h => h) msg id
  rcases hkept with hends | ⟨s', hs', he⟩
  · exact hends h
  · rw [he] at h
    exact hs' h

/-- Only a publication makes a client send anything. -/
theorem nextMsgId_afterReceive {msg : Msg ProtocolServer} (h : ∀ payload, msg.content ≠ .pub payload) :
    (afterReceive env msg s).2.core.nextMsgId = s.core.nextMsgId := by
  obtain ⟨id, content⟩ := msg
  cases content with
  | ack payload =>
    simp only [afterReceive]
    cases s.core.callbacksAck payload.msgId <;> rfl
  | rsp payload =>
    simp only [afterReceive]
    cases s.core.callbacksRsp payload.reqId <;> rfl
  | pub payload => exact absurd rfl (h payload)
  | req payload =>
    simp only [afterReceive]
    split
    · split
      · split_ifs <;> rfl
      · rfl
    · rfl

end ClientExec

namespace Turn

variable {r : Turn}

theorem takes_of_sends {task : ClientTask} (h : r.sends? = some task) : r.takes = [r.core] := by
  obtain ⟨core, handles, env, event⟩ := r
  cases event with
  | task task' => cases task' <;> cases h <;> rfl
  | tick => rfl
  | msg msg | lost e | closed => cases h

/-- **A turn takes one id after the other.** -/
theorem takes_takes (r : Turn) : r.core.Takes r.takes := by
  have hone : ClientCore.Takes r.core [r.core] := by
    intro i c hc
    obtain ⟨rfl, rfl⟩ : i = 0 ∧ c = r.core := by
      cases i with
      | zero => exact ⟨rfl, (Option.some.inj hc).symm⟩
      | succ i => cases hc
    exact ClientCore.within_refl
  unfold takes
  split
  · exact (ClientExec.takes_pubLoop _ _ _ _).1
  all_goals first | exact ClientCore.takes_nil | exact hone

/-- **What a turn brings into use** are ids that it takes. -/
theorem advances (hok : r.exec.1 = .ok false) :
    r.exec.2.core.nextMsgId = r.core.nextMsgId + UInt32.ofNat r.takes.length ∧
      ∀ k, r.exec.2.core.Uses k → r.core.Uses k ∨ r.takes.length = 1 ∧ k = r.core.nextMsgId + 1 := by
  rcases exec_ok hok with ⟨task, msg, htask, hb, -⟩ | ⟨msg, hevent, hrecv⟩
  · rw [takes_of_sends htask]
    obtain ⟨hs, -⟩ := ClientCore.sends_of_beforeSend hb
    refine ⟨hs.nextMsgId.trans hs.id, fun k hk => ?_⟩
    exact (ClientCore.uses_of_beforeSend hb hk).imp_right fun h => ⟨rfl, h⟩
  · have huses : ∀ k, r.exec.2.core.Uses k → r.core.Uses k := by
      intro k hk
      rw [exec_msg hevent] at hk
      exact ClientExec.uses_afterReceive hk
    refine ⟨?_, fun k hk => Or.inl (huses k hk)⟩
    by_cases hpub : ∃ payload, msg.content = .pub payload
    · obtain ⟨id, content⟩ := msg
      obtain ⟨payload, rfl⟩ := hpub
      have hloop := (ClientExec.takes_pubLoop r.env payload
        (r.env.order.arrange (r.core.subscriptions.getSubscribers payload.topic)) (.start r.core)).2 _ hrecv
      rw [takes, hevent]
      exact hloop.1
    · have hsame : (ClientExec.afterReceive r.env msg (.start r.core)).2.core.nextMsgId =
          r.core.nextMsgId := ClientExec.nextMsgId_afterReceive fun payload h => hpub ⟨payload, h⟩
      have htakes : r.takes = [] := by
        obtain ⟨id, content⟩ := msg
        rw [takes, hevent]
        cases content with
        | pub payload => exact absurd ⟨payload, rfl⟩ hpub
        | ack payload | rsp payload | req payload => rfl
      rw [exec_msg hevent, htakes]
      exact hsame.trans (by simp)

end Turn

/-! ## The ids of a session -/

namespace Session

variable {s s' : Session}

/-- The cores in which `before_send` was called, oldest first. -/
def takes (log : List Turn) : List ClientCore := log.flatMap Turn.takes

theorem takes_concat (log : List Turn) (r : Turn) : takes (log ++ [r]) = takes log ++ r.takes := by
  rw [takes, List.flatMap_append, List.flatMap_singleton, takes]

/-- The ids in use are among the first `n`. -/
def AmongFirst (core : ClientCore) (n : ℕ) : Prop :=
  ∀ k, core.Uses k → ∃ j < n, k = UInt32.ofNat (j + 1)

/-- The ids count the calls of `before_send`, and those in use were taken before. -/
structure Numbering (s : Session) : Prop where
  running : s.status = .running → s.core.nextMsgId = UInt32.ofNat (takes s.log).length ∧
    AmongFirst s.core (takes s.log).length
  past : ∀ i c, (takes s.log)[i]? = some c → c.nextMsgId = UInt32.ofNat i ∧ AmongFirst c i

theorem not_uses_new (k : MsgId) : ¬ ClientCore.new.Uses k := by
  rintro (h | h | h | h | ⟨t, h⟩ | ⟨t, h⟩)
  · cases h
  · cases h
  · cases h
  · cases h
  · exact Directory.not_subscribed_new h
  · rw [show ClientCore.new.subscriptions.getOwner t = none from Directory.getOwner_new t] at h
    cases h

theorem numbering_init : Numbering init :=
  ⟨fun _ => ⟨rfl, fun k h => absurd h (not_uses_new k)⟩, fun i c h => by cases h⟩

theorem Numbering.step {act : Act} (hi : Numbering s) (h : s.step act = some s') : Numbering s' := by
  obtain ⟨hrun, hq | ⟨event, order, transport, tasks, -, -, rfl⟩⟩ := quiet_or_turned h
  · refine ⟨fun _ => ?_, ?_⟩
    · rw [hq.core, hq.log]
      exact hi.running hrun
    · rw [hq.log]
      exact hi.past
  · obtain ⟨hid, huses⟩ := hi.running hrun
    have hlog : (s.turned tasks (s.turn event order transport)).log =
        s.log ++ [s.turn event order transport] := rfl
    refine ⟨fun hrun' => ?_, fun i c hc => ?_⟩
    · obtain ⟨hid', huses'⟩ := Turn.advances (turned_running.mp hrun')
      rw [hlog, takes_concat, List.length_append]
      refine ⟨?_, fun k hk => ?_⟩
      · rw [UInt32.ofNat_add, ← hid]
        exact hid'
      · rcases huses' k hk with hk | ⟨hone, hk⟩
        · obtain ⟨j, hj, hkj⟩ := huses k hk
          exact ⟨j, by omega, hkj⟩
        · refine ⟨(takes s.log).length, by omega, ?_⟩
          rw [hk, UInt32.ofNat_add, ← hid]
          rfl
    · rw [hlog, takes_concat] at hc
      rcases Nat.lt_or_ge i (takes s.log).length with hlt | hge
      · rw [List.getElem?_append_left hlt] at hc
        exact hi.past i c hc
      · rw [List.getElem?_append_right hge] at hc
        obtain ⟨hcid, hcuses⟩ := (s.turn event order transport).takes_takes _ c hc
        have hcore : (s.turn event order transport).core = s.core := rfl
        rw [hcore] at hcid hcuses
        refine ⟨?_, fun k hk => ?_⟩
        · rw [hcid, hid, ← UInt32.ofNat_add, Nat.add_sub_cancel' hge]
        · obtain ⟨j, hj, hkj⟩ := huses k (hcuses k hk)
          exact ⟨j, by omega, hkj⟩

theorem Reachable.numbering (h : Reachable s) : Numbering s :=
  Lts.invariant numbering_init (fun _ _ _ hi hstep => hi.step hstep) h

/-- **The first `2 ^ 32` ids that a client takes are fresh.** -/
theorem Reachable.fresh (h : Reachable s) {i : ℕ} {c : ClientCore} (hc : (takes s.log)[i]? = some c)
    (hi : i < 2 ^ 32) : c.Fresh := by
  obtain ⟨hid, huses⟩ := h.numbering.past i c hc
  intro hused
  obtain ⟨j, hj, heq⟩ := huses _ hused
  have hnext : c.nextMsgId + 1 = UInt32.ofNat (i + 1) := by
    rw [hid, UInt32.ofNat_add]
    rfl
  have heq := congrArg UInt32.toNat (hnext.symm.trans heq)
  rw [UInt32.toNat_ofNat', UInt32.toNat_ofNat'] at heq
  omega

/-! ## The ids come round -/

/-- A KeepAlive. -/
def ticking : Act := .turn .tick trivial .given fun _ => .ok ()

/-- KeepAlives take ids, and do nothing else. -/
theorem run_ticking (n : ℕ) (hrun : s.status = .running) : ∃ s',
    Lts.run step s (List.replicate n ticking) = some s' ∧ s'.status = .running ∧
      s'.core = { s.core with nextMsgId := s.core.nextMsgId + UInt32.ofNat n } ∧
      s'.tasks = s.tasks ∧ s'.calls = s.calls ∧
      (takes s'.log).length = (takes s.log).length + n := by
  induction n generalizing s with
  | zero => exact ⟨s, rfl, hrun, by simp, rfl, rfl, rfl⟩
  | succ n ih =>
    have hstep : s.step ticking = some (s.turned s.tasks (s.turn .tick .given fun _ => .ok ())) := by
      rw [step, if_pos hrun]
      rfl
    obtain ⟨s', hs', hrun', hcore, htasks, hcalls, hlength⟩ :=
      ih (s := s.turned s.tasks (s.turn .tick .given fun _ => .ok ())) rfl
    refine ⟨s', ?_, hrun', ?_, htasks, hcalls, ?_⟩
    · rw [List.replicate_succ, Lts.run_cons, hstep]
      exact hs'
    · rw [hcore, Nat.add_comm, UInt32.ofNat_add, ← UInt32.add_assoc]
      rfl
    · rw [hlength, Nat.add_comm n, ← Nat.add_assoc]
      refine congrArg (· + n) ?_
      exact (congrArg List.length (takes_concat _ _)).trans List.length_append

/-- A client whose queue is empty subscribes to a topic. -/
def subscribing (call : Callback) (t : Topic) (valid : t.Valid) : List Act :=
  [.subscribe t valid, sending (.sub ⟨⟨t⟩, call, call⟩)]

theorem run_subscribing {t : Topic} (valid : t.Valid) (hrun : s.status = .running)
    (htasks : s.tasks = []) : ∃ s', Lts.run step s (subscribing s.calls t valid) = some s' ∧
      s'.status = .running ∧ s'.tasks = [] ∧ s'.calls = s.calls + 1 ∧
      takes s'.log = takes s.log ++ [s.core] ∧ s'.core.nextMsgId = s.core.nextMsgId + 1 ∧
      s'.core.callbacksPub (s.core.nextMsgId + 1) = some s.calls := by
  obtain ⟨s₁, hs₁⟩ : ∃ s₁, { s.call fun call => .sub ⟨⟨t⟩, call, call⟩ with
      handles := s.handles.insert s.calls ⟨t, none, .waiting⟩ } = s₁ := ⟨_, rfl⟩
  have hcore : s₁.core = s.core := by rw [← hs₁]; rfl
  have hstep : s.step (.subscribe t valid) = some s₁ := by
    rw [step, if_pos hrun, stepRunning, hs₁]
  have hstep' : s₁.step (sending (.sub ⟨⟨t⟩, s.calls, s.calls⟩)) =
      some (s₁.turned [] (s₁.turn (.task (.sub ⟨⟨t⟩, s.calls, s.calls⟩)) .given fun _ => .ok ())) := by
    rw [← hs₁, step, if_pos (by exact hrun)]
    simp [sending, stepRunning, call, enqueue, htasks, tasksAfter]
  refine ⟨_, by rw [subscribing, Lts.run_cons, hstep, Option.bind_some, Lts.run_cons, hstep']; rfl,
    rfl, rfl, by rw [← hs₁]; rfl, ?_, ?_, ?_⟩
  · refine (takes_concat _ _).trans ?_
    rw [← hs₁]
    rfl
  · rw [← hcore]
    rfl
  · rw [← hcore]
    exact Table.insert_self _ _ _

/-- A client that is alive for some time subscribes, is alive for some time again, and subscribes again. -/
def lapping (m n : ℕ) : List Act :=
  List.replicate m ticking ++ subscribing 0 served served_valid ++ List.replicate n ticking ++
    subscribing 1 anyPath anyPath_valid

/-- **The callback of the first subscription is overwritten** by that of the second one, if the ids have
come round between them. -/
theorem run_lapping (m : ℕ) {n : ℕ} (hn : UInt32.ofNat (n + 1) = 0) :
    (∃ s, Lts.run step init (List.replicate m ticking ++ subscribing 0 served served_valid) = some s ∧
      s.core.callbacksPub (UInt32.ofNat (m + 1)) = some 0) ∧
    ∃ s, Lts.run step init (lapping m n) = some s ∧
      s.core.callbacksPub (UInt32.ofNat (m + 1)) = some 1 ∧
      ∃ c, (takes s.log)[m + 1 + n]? = some c ∧ ¬ c.Fresh := by
  obtain ⟨s₀, hs₀, hrun₀, hcore₀, htasks₀, hcalls₀, hlen₀⟩ := run_ticking (s := init) m rfl
  obtain ⟨s₁, hs₁, hrun₁, htasks₁, hcalls₁, htakes₁, hid₁, hpub₁⟩ :=
    run_subscribing served_valid hrun₀ htasks₀
  obtain ⟨s₂, hs₂, hrun₂, hcore₂, htasks₂, hcalls₂, hlen₂⟩ := run_ticking n hrun₁
  obtain ⟨s₃, hs₃, -, -, -, htakes₃, -, hpub₃⟩ := run_subscribing anyPath_valid hrun₂
    (htasks₂.trans htasks₁)
  have hcall : s₂.calls = 1 := by rw [hcalls₂, hcalls₁, hcalls₀]; rfl
  have hcall₀ : s₀.calls = 0 := hcalls₀
  -- the id of both subscriptions
  have hid : s₀.core.nextMsgId + 1 = UInt32.ofNat (m + 1) := by
    rw [hcore₀, UInt32.ofNat_add]
    change 0 + UInt32.ofNat m + 1 = _
    rw [UInt32.zero_add]
    rfl
  have hid' : s₂.core.nextMsgId + 1 = UInt32.ofNat (m + 1) := by
    rw [hcore₂]
    change s₁.core.nextMsgId + UInt32.ofNat n + 1 = _
    rw [hid₁, hid, UInt32.add_assoc]
    have hone : UInt32.ofNat n + 1 = 0 := by
      rw [← hn, UInt32.ofNat_add]
      rfl
    rw [hone, UInt32.add_zero]
  rw [hid, hcall₀] at hpub₁
  rw [hid', hcall] at hpub₃
  rw [hcall₀] at hs₁
  rw [hcall] at hs₃
  have hfirst : Lts.run step init (List.replicate m ticking ++ subscribing 0 served served_valid) =
      some s₁ := by
    rw [Lts.run_append, hs₀]
    exact hs₁
  refine ⟨⟨s₁, hfirst, hpub₁⟩, s₃, ?_, hpub₃, s₂.core, ?_, fun hfresh => hfresh ?_⟩
  · rw [lapping, Lts.run_append, Lts.run_append, hfirst, Option.bind_some, hs₂]
    exact hs₃
  · have hlen : (takes s₂.log).length = m + 1 + n := by
      rw [hlen₂, htakes₁, List.length_append, hlen₀, List.length_singleton]
      change 0 + m + 1 + n = m + 1 + n
      rw [Nat.zero_add]
    rw [htakes₃, ← hlen, List.getElem?_concat_length]
  · -- the callback of the first subscription is there
    rw [hid', hcore₂]
    refine Or.inr (Or.inr (Or.inl ?_))
    change (s₁.core.callbacksPub (UInt32.ofNat (m + 1))).isSome
    rw [hpub₁]
    rfl

/-- **The first `2 ^ 32` ids are fresh in every run**; every later one is in use already in some run. -/
theorem fresh_iff (i : ℕ) : (∀ s, Reachable s → ∀ c, (takes s.log)[i]? = some c → c.Fresh) ↔
    i < 2 ^ 32 := by
  refine ⟨fun h => ?_, fun hi s hs c hc => hs.fresh hc hi⟩
  by_contra hge
  obtain ⟨m, rfl⟩ := Nat.exists_eq_add_of_le (Nat.not_lt.mp hge)
  obtain ⟨-, s, hs, -, c, hc, hfresh⟩ := run_lapping m (n := 2 ^ 32 - 1) (by decide)
  refine hfresh (h s ⟨_, hs⟩ c ?_)
  rw [← hc]
  congr 1
  omega

end Session

end T2Bus
