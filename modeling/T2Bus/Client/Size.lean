import T2Bus.Client.Calls
import T2Bus.Client.Tables
import Mathlib.Data.Set.Card

/-!
# How much a turn sends

A turn sends a message for its task, or an Unsub for each topic that a publication leaves without a
local subscriber. Those are paid for by the local subscriptions that it removes.

* `ClientCore.subs`: the local subscriptions; `ClientCore.size`: their number;
* `ClientExec.size_pubLoop`, **`Turn.size_received`**: what a received message sends, and removes;
* **`Turn.size_sends`**: a task sends at most one message, and adds at most one subscription;
* `Session.rank`; **`Session.Reachable.rank_task`**, **`Session.Reachable.rank_msg`**;
* **`Session.Reachable.sent_valid`**: a message that is sent is one that the decoder accepts.
-/

namespace T2Bus

namespace ClientCore

/-- The local subscriptions. -/
def subs (core : ClientCore) : Set (MsgId × Topic) := {p | core.subscriptions.Subscribed p.1 p.2}

/-- The number of local subscriptions. -/
noncomputable def size (core : ClientCore) : ℕ := core.subs.ncard

/-- The local subscriptions are those of messages that were sent, so there are finitely many. -/
theorem Tables.finite {core : ClientCore} {sent : List (Msg ProtocolClient)} (h : core.Tables sent) :
    core.subs.Finite := by
  refine (List.finite_toSet (sent.filterMap fun msg =>
    match msg.content with
    | .sub params => some (msg.id, params.topic)
    | _ => none)).subset fun p hp => ?_
  exact List.mem_filterMap.mpr ⟨_, (h.pubs p.1 p.2 hp).2, rfl⟩

/-- A task adds at most one local subscription, whether or not it is sent. -/
theorem subs_beforeSend (core : ClientCore) (task : ClientTask) :
    (core.beforeSend task).2.subs ⊆ core.subs ∨
      ∃ p, (core.beforeSend task).2.subs ⊆ insert p core.subs := by
  rw [beforeSend]
  cases task with
  | sub params =>
    refine Or.inr ⟨(core.nextMsgId + 1, params.msg.topic), fun p hp => ?_⟩
    rcases Directory.subscribed_subscribe.mp hp with ⟨h₁, h₂⟩ | h
    · exact Or.inl (Prod.ext h₁ h₂)
    · exact Or.inr h
  | srv params =>
    refine Or.inl fun p hp => ?_
    rw [message_srv core.bump rfl] at hp
    exact Directory.subscribed_claim.mp hp
  | unsrv params =>
    refine Or.inl fun p hp => ?_
    cases ho : core.subscriptions.getOwner params.msg.topic with
    | none =>
      simp only [message, bump_subscriptions, ho] at hp
      exact hp
    | some callbackId =>
      rw [message_unsrv core.bump ho] at hp
      exact Directory.subscribed_unclaim.mp hp
  | _ => exact Or.inl fun p hp => hp

theorem size_beforeSend {core : ClientCore} (hfin : core.subs.Finite) (task : ClientTask) :
    (core.beforeSend task).2.size ≤ core.size + 1 := by
  rcases core.subs_beforeSend task with h | ⟨p, h⟩
  · exact (Set.ncard_le_ncard h hfin).trans (Nat.le_succ _)
  · exact (Set.ncard_le_ncard h (hfin.insert p)).trans (Set.ncard_insert_le p _)

end ClientCore

namespace ClientExec

variable {env : ClientEnv} {s : ClientExec}

variable (env) in
theorem sent_unsubscribeAll (topics : List Topic) (s : ClientExec) :
    (unsubscribeAll env topics s).2.sent.length ≤ s.sent.length + topics.length ∧
      (unsubscribeAll env topics s).2.core.subscriptions = s.core.subscriptions := by
  induction topics generalizing s with
  | nil => exact ⟨le_rfl, rfl⟩
  | cons t topics ih =>
    rw [unsubscribeAll]
    rcases send_unsub env s t with ⟨e, he, -⟩ | hok
    · rw [he]
      exact ⟨Nat.le_add_right _ _, rfl⟩
    · rw [hok]
      obtain ⟨hlen, hsubs⟩ := ih (s.unsubscribed t)
      refine ⟨hlen.trans ?_, hsubs⟩
      rw [unsubscribed, List.length_append, List.length_cons, List.length_cons, List.length_nil]
      omega

/-- The topics that are reported had subscriptions, which are gone. -/
theorem size_forget (hsound : s.core.subscriptions.Sound) (hfin : s.core.subs.Finite) (k : MsgId) :
    (s.core.subscriptions.dropClient k).1.length + (s.forget k).core.size ≤ s.core.size := by
  have hnodup := Directory.nodup_dropClient (c := k) hsound
  have hdropped : ∀ t ∈ (s.core.subscriptions.dropClient k).1, (k, t) ∈ s.core.subs :=
    fun t ht => ((Directory.mem_dropClient hsound).mp ht).1
  have hleft : ∀ p ∈ (s.forget k).core.subs, p ∈ s.core.subs ∧ p.1 ≠ k :=
    fun p hp => Directory.subscribed_dropClient.mp hp
  have hcard : ((fun t => (k, t)) '' {t | t ∈ (s.core.subscriptions.dropClient k).1}).ncard =
      (s.core.subscriptions.dropClient k).1.length := by
    rw [Set.ncard_image_of_injective _ (Prod.mk_right_injective k)]
    classical
    rw [← List.toFinset_card_of_nodup hnodup, ← Set.ncard_coe_finset]
    congr 1
    ext t
    simp
  have hfin₁ : ((fun t => (k, t)) '' {t | t ∈ (s.core.subscriptions.dropClient k).1}).Finite :=
    hfin.subset (by rintro p ⟨t, ht, rfl⟩; exact hdropped t ht)
  have hfin₂ : (s.forget k).core.subs.Finite := hfin.subset fun p hp => (hleft p hp).1
  have hdisj : Disjoint ((fun t => (k, t)) '' {t | t ∈ (s.core.subscriptions.dropClient k).1})
      (s.forget k).core.subs := by
    refine Set.disjoint_left.mpr ?_
    rintro p ⟨t, -, rfl⟩ hp
    exact (hleft _ hp).2 rfl
  rw [← hcard, ClientCore.size, ClientCore.size, ← Set.ncard_union_eq hdisj hfin₁ hfin₂]
  refine Set.ncard_le_ncard ?_ hfin
  rintro p (⟨t, ht, rfl⟩ | hp)
  · exact hdropped t ht
  · exact (hleft p hp).1

/-- **A publication sends no more Unsubs than it removes local subscriptions.** -/
theorem size_pubLoop {payload : PubMsg} (ids : List MsgId) : ∀ s : ClientExec,
    s.core.subscriptions.Sound → s.core.subs.Finite →
      (pubLoop env payload ids s).2.sent.length + (pubLoop env payload ids s).2.core.size ≤
        s.sent.length + s.core.size := by
  induction ids with
  | nil => exact fun s _ _ => le_rfl
  | cons k ids ih =>
    intro s hsound hfin
    rw [pubLoop]
    cases hc : s.core.callbacksPub k with
    | none => exact le_rfl
    | some callback =>
      simp only
      split_ifs
      · exact ih (s.call _) hsound hfin
      · have hforget := size_forget hsound hfin k
        obtain ⟨hlen, hsubs⟩ := sent_unsubscribeAll env
          (s.core.subscriptions.dropClient k).1 (s.forget k)
        have hsame : (cleanup env k s).2.core.size = (s.forget k).core.size := by
          rw [ClientCore.size, ClientCore.subs, cleanup, hsubs]
          rfl
        have hclean : (cleanup env k s).2.sent.length + (cleanup env k s).2.core.size ≤
            s.sent.length + s.core.size := by
          rw [hsame]
          change (cleanup env k s).2.sent.length ≤ s.sent.length + _ at hlen
          omega
        cases hcl : cleanup env k s with
        | mk result s₁ =>
          rw [hcl] at hclean
          cases result with
          | error e => exact hclean
          | ok u =>
            have hs₁ : s₁.core.subscriptions = (s.core.subscriptions.dropClient k).2 := by
              have h := congrArg (fun x => x.2.core.subscriptions) hcl
              exact h.symm.trans hsubs
            refine (ih s₁ ?_ ?_).trans hclean
            · rw [hs₁]
              exact hsound.apply (.dropClient k) trivial
            · refine hfin.subset fun p hp => ?_
              change s₁.core.subscriptions.Subscribed p.1 p.2 at hp
              rw [hs₁] at hp
              exact (Directory.subscribed_dropClient.mp hp).1

end ClientExec

namespace Turn

variable {r : Turn}

/-- **What a received message makes the core send** is paid for by the subscriptions it removes. -/
theorem size_received {msg : Msg ProtocolServer} (hevent : r.event = .msg msg)
    (hsound : r.core.subscriptions.Sound) (hfin : r.core.subs.Finite) :
    r.exec.2.sent.length + r.exec.2.core.size ≤ r.core.size := by
  obtain ⟨id, content⟩ := msg
  rw [exec_msg hevent]
  change (ClientExec.afterReceive r.env ⟨id, content⟩ (.start r.core)).2.sent.length +
    (ClientExec.afterReceive r.env ⟨id, content⟩ (.start r.core)).2.core.size ≤ _
  cases content with
  | pub payload =>
    refine (ClientExec.size_pubLoop _ (.start r.core) hsound hfin).trans ?_
    rw [ClientExec.start_sent, List.length_nil, Nat.zero_add]
    exact le_rfl
  | ack payload =>
    simp only [ClientExec.afterReceive]
    split <;> exact (Nat.zero_add _).le
  | rsp payload =>
    simp only [ClientExec.afterReceive]
    split <;> exact (Nat.zero_add _).le
  | req payload =>
    simp only [ClientExec.afterReceive]
    split
    · split
      · split <;> exact (Nat.zero_add _).le
      · exact (Nat.zero_add _).le
    · exact (Nat.zero_add _).le

/-- **A task makes the core send at most one message**, and adds at most one local subscription. -/
theorem size_sends {task : ClientTask} (hsends : r.sends? = some task) (hfin : r.core.subs.Finite) :
    r.exec.2.sent.length ≤ 1 ∧ r.exec.2.core.size ≤ r.core.size + 1 := by
  rw [exec_sends hsends]
  change (ClientExec.send r.env task (.start r.core)).2.sent.length ≤ 1 ∧
    (ClientExec.send r.env task (.start r.core)).2.core.size ≤ r.core.size + 1
  constructor
  · rcases ClientExec.send_sent task (.start r.core) with he | ⟨msg, -, he⟩
    · rw [he]
      exact Nat.zero_le 1
    · rw [he]
      exact le_rfl
  · rw [(ClientExec.send_core _ _ _).1]
    exact ClientCore.size_beforeSend hfin task

end Turn

namespace Session

variable {s : Session} (K : ℕ) (order : Order) (transport : Msg ProtocolClient → BusResult Unit)

/-- What a client has to do, when a message that it sends weighs `K`: a task can send one and leave a
subscription that sends another. -/
noncomputable def rank (K : ℕ) (s : Session) : ℕ := K * s.core.size + (2 * K + 1) * s.tasks.length

/-- **A task that is taken weighs more than what it sends.** -/
theorem Reachable.rank_task (h : Reachable s) (hrun : s.status = .running) {task : ClientTask}
    {tasks : List ClientTask} (ht : s.tasks = task :: tasks) :
    (s.turned tasks (s.turn (.task task) order transport)).rank K +
      K * (s.turn (.task task) order transport).exec.2.sent.length < s.rank K := by
  have hfin := (h.tables hrun).finite
  have hsize : (s.turn (.task task) order transport).exec.2.sent.length ≤ 1 ∧
      (s.turn (.task task) order transport).exec.2.core.size ≤ s.core.size + 1 := by
    cases task with
    | stop => exact ⟨Nat.zero_le 1, Nat.le_succ _⟩
    | _ => exact Turn.size_sends rfl hfin
  rw [rank, rank, ht, List.length_cons]
  change K * (s.turn (.task task) order transport).exec.2.core.size +
    (2 * K + 1) * tasks.length + _ < _
  have hsent := Nat.mul_le_mul_left K hsize.1
  have hcore := Nat.mul_le_mul_left K hsize.2
  rw [Nat.mul_succ] at hcore ⊢
  omega

/-- **What a message that is received makes the client send** weighs no more than the subscriptions that
are gone. -/
theorem Reachable.rank_msg (h : Reachable s) (hrun : s.status = .running) (msg : Msg ProtocolServer) :
    (s.turned s.tasks (s.turn (.msg msg) order transport)).rank K +
      K * (s.turn (.msg msg) order transport).exec.2.sent.length ≤ s.rank K := by
  have htables := h.tables hrun
  have hsize : (s.turn (.msg msg) order transport).exec.2.sent.length +
      (s.turn (.msg msg) order transport).exec.2.core.size ≤ s.core.size :=
    Turn.size_received rfl htables.sound htables.finite
  have hle := Nat.mul_le_mul_left K hsize
  rw [Nat.mul_add] at hle
  rw [rank, rank]
  change K * (s.turn (.msg msg) order transport).exec.2.core.size +
    (2 * K + 1) * s.tasks.length + _ ≤ _
  omega

/-! ## The topics that are sent -/

/-- The Unsubs of a publication are for topics that the client has subscribed to. -/
theorem unsubs_pubLoop {env : ClientEnv} {payload : PubMsg} {ids : List MsgId} {core : ClientCore}
    {s' : ClientExec} (hsound : core.subscriptions.Sound)
    (h : ClientExec.pubLoop env payload ids (.start core) = (.ok (), s')) :
    ∀ m ∈ s'.sent, ∃ t k, m.content = .unsub ⟨t⟩ ∧ core.subscriptions.Subscribed k t := by
  refine (ClientExec.pubLoop_induct (P := fun s => s.core.subscriptions.Sound ∧
    (∀ k t, s.core.subscriptions.Subscribed k t → core.subscriptions.Subscribed k t) ∧
    ∀ m ∈ s.sent, ∃ t k, m.content = .unsub ⟨t⟩ ∧ core.subscriptions.Subscribed k t)
    (fun s c h => h) (fun s s' k callback _ _ _ hcl h => ?_) h ⟨hsound, fun _ _ h => h, by simp⟩).2.2
  obtain ⟨hsound, hsubs, hsent⟩ := h
  refine ClientExec.unsubscribeAll_induct (P := fun s => s.core.subscriptions.Sound ∧
    (∀ k t, s.core.subscriptions.Subscribed k t → core.subscriptions.Subscribed k t) ∧
    ∀ m ∈ s.sent, ∃ t k, m.content = .unsub ⟨t⟩ ∧ core.subscriptions.Subscribed k t)
    (fun s₁ t ht h => ⟨h.1, h.2.1, fun m hm => ?_⟩) hcl
    ⟨hsound.apply (.dropClient k) trivial,
      fun k' t hk => hsubs k' t (Directory.subscribed_dropClient.mp hk).1, hsent⟩
  rcases List.mem_append.mp hm with hm | hm
  · exact h.2.2 m hm
  · rw [List.mem_singleton.mp hm]
    exact ⟨t, k, rfl, hsubs k t ((Directory.mem_dropClient hsound).mp ht).1⟩

/-- **The topics of the messages that are sent are valid**: the server's decoder takes them. -/
theorem Reachable.sent_valid (h : Reachable s) : s.status = .running →
    ∀ m ∈ s.sent, m.content.Valid := by
  refine Lts.Reachable.induct (I := fun s => s.status = .running → ∀ m ∈ s.sent, m.content.Valid)
    (fun _ m hm => by cases hm) (fun s act s' hs hi hstep hrun' => ?_) h
  obtain ⟨hrun, hq | ⟨event, order, transport, tasks, ht, -, rfl⟩⟩ := quiet_or_turned hstep
  · rw [hq.sent]
    exact hi hrun
  · refine List.forall_mem_append.mpr ⟨hi hrun, ?_⟩
    rcases Turn.exec_ok (turned_running.mp hrun') with ⟨task, msg, htask, hb, hsent⟩ | ⟨msg, -, hrecv⟩
    · rw [hsent]
      refine List.forall_mem_singleton.mpr ?_
      exact Reachable.sends_valid hs ht htask _ (ClientCore.sends_of_beforeSend hb).2
    · rcases ClientExec.afterReceive_ok hrecv with ⟨hsent, -, -⟩ | ⟨hsent, -⟩ | ⟨payload, -, hloop⟩
      · rw [hsent]
        exact fun m hm => by cases hm
      · rw [hsent]
        exact fun m hm => by cases hm
      · have htables := Reachable.tables hs hrun
        intro m hm
        obtain ⟨t, k, hc, hk⟩ := unsubs_pubLoop htables.sound hloop m hm
        -- the Sub of the subscription was sent before
        have hvalid := hi hrun _ (htables.pubs k t hk).2
        rw [hc]
        rintro u ⟨⟩
        exact hvalid t rfl

end Session

end T2Bus
