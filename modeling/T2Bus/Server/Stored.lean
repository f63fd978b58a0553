import T2Bus.Server.Subscribers

/-!
# Where the core keeps a client's id

A client's id is kept as a subscriber or an owner in the directory, and as a party of a pending
request. The core never asks whether the sender of a message is registered, so a message that is
still queued when its sender was deregistered by a failed delivery stores the id again.

* `Core.Listed`, `Core.Party`: the places; what deliveries and a message's own change leave there;
* `Core.Integrity`: every id that is kept has a sender;
* `Record.Known`: what a message stores is a registered client's; **`Record.integrity_exec_iff`**,
  **`System.integrity_iff`**; `System.not_integrity_droppedEarly`.
-/

namespace T2Bus

/-! ## The places -/

namespace Core

/-- The client is a subscriber or an owner at some node of the directory. -/
def Listed (core : Core) (c : ClientId) : Prop :=
  ∃ path, c ∈ (core.directory.contents path).subscribers ∨
    (core.directory.contents path).owner = some c

/-- The client has made, or is to answer, a pending request. -/
def Party (core : Core) (c : ClientId) : Prop :=
  ∃ k p, core.pendingResponses k = some p ∧ (p.requesterId = c ∨ p.responderId = c)

/-- The message enters its sender in the directory. -/
def Enters (core : Core) (c : ClientId) (msg : Msg ProtocolClient) : Prop :=
  match msg.content with
  | .sub _ => True
  | .srv params => ¬ params.topic.hasWildcard ∧
      (core.directory.getOwner params.topic = none ∨
        core.directory.getOwner params.topic = some c)
  | _ => False

variable {core : Core} {env : Env} {c d : ClientId} {msg : Msg ProtocolClient}

theorem listed_deregisterClient :
    (core.deregisterClient d).Listed c ↔ core.Listed c ∧ c ≠ d := by
  have hentry : ∀ path, (c ∈ ((core.directory.contents path).drop d).subscribers ∨
      ((core.directory.contents path).drop d).owner = some c) ↔
        (c ∈ (core.directory.contents path).subscribers ∨
          (core.directory.contents path).owner = some c) ∧ c ≠ d := by
    intro path
    rw [Directory.Entry.drop, List.mem_filter, decide_eq_true_iff, or_and_right]
    refine or_congr_right ?_
    split_ifs with ho
    · simp [ho, @eq_comm _ d]
    · exact ⟨fun h => ⟨h, fun hcd => ho (hcd ▸ h)⟩, And.left⟩
  simp only [Listed, deregisterClient, Directory.contents_dropClient, hentry, exists_and_right]

theorem party_deregisterClient (h : (core.deregisterClient d).Party c) : core.Party c ∧ c ≠ d := by
  obtain ⟨k, p, hp, hc⟩ := h
  rw [deregisterClient, Table.retain_eq_some, Bool.and_eq_true, bne_iff_ne, bne_iff_ne] at hp
  refine ⟨⟨k, p, hp.1, hc⟩, ?_⟩
  rcases hc with rfl | rfl
  · exact hp.2.1
  · exact hp.2.2

theorem deregisterClient_senders (h : c ≠ d) :
    (core.deregisterClient d).protocolServerSenders c = core.protocolServerSenders c :=
  Table.remove_of_ne h

theorem listed_afterDeliver :
    (core.afterDeliver env d).Listed c ↔ core.Listed c ∧ ¬ core.Drops env [d] c := by
  rw [afterDeliver, Drops, List.mem_singleton]
  by_cases hd : core.Closed env d
  · rw [if_pos hd]
    refine listed_deregisterClient.trans (and_congr_right fun _ => ?_)
    exact ⟨fun hne h => hne h.1, fun h e => h ⟨e, e ▸ hd⟩⟩
  · rw [if_neg hd]
    exact (and_iff_left fun (h : c = d ∧ core.Closed env c) => hd (h.1 ▸ h.2)).symm

theorem listed_deliverAll (ids : List ClientId) :
    (core.deliverAll env ids).Listed c ↔ core.Listed c ∧ ¬ core.Drops env ids c := by
  induction ids generalizing core with
  | nil => simp [deliverAll]
  | cons d ids ih =>
    rw [deliverAll_cons, ih, listed_afterDeliver, drops_cons d ids c]
    tauto

theorem party_deliverAll {ids : List ClientId} (h : (core.deliverAll env ids).Party c) :
    core.Party c ∧ ¬ core.Drops env ids c := by
  obtain ⟨k, p, hp, hc⟩ := h
  obtain ⟨hp, hreq, hresp⟩ := (deliverAll_pending ids).mp hp
  refine ⟨⟨k, p, hp, hc⟩, ?_⟩
  rcases hc with rfl | rfl
  · exact hreq
  · exact hresp

/-- A message lists nobody but its sender. -/
theorem listed_own (h : (core.own env d msg).Listed c) :
    core.Listed c ∨ c = d ∧ core.Enters d msg := by
  obtain ⟨id, content⟩ := msg
  obtain ⟨path, h⟩ := h
  cases content with
  | sub params =>
    simp only [own, Directory.subscribe, Directory.contents_subscribeSegments] at h
    split_ifs at h with hp
    · rcases h with h | h
      · rcases List.mem_insert_iff.mp h with rfl | h
        · exact .inr ⟨rfl, trivial⟩
        · exact .inl ⟨_, .inl h⟩
      · exact .inl ⟨_, .inr h⟩
    · exact .inl ⟨path, h⟩
  | unsub params =>
    simp only [own, Directory.unsubscribe, Directory.contents_unsubscribeSegments] at h
    split_ifs at h with hp
    · exact .inl ⟨_, h.imp_left fun h => (List.mem_filter.mp h).1⟩
    · exact .inl ⟨path, h⟩
  | srv params =>
    simp only [own, Directory.claim, (Directory.claimSegments_cases d _ _).2] at h
    split_ifs at h with hp
    · rcases h with h | h
      · exact .inl ⟨_, .inl h⟩
      · exact .inr ⟨(Option.some.inj h).symm, Directory.claim_ok_iff.mp hp.2⟩
    · exact .inl ⟨path, h⟩
  | unsrv params =>
    simp only [own, Directory.unclaim, Directory.contents_unclaimSegments] at h
    split_ifs at h with hp
    · exact .inl ⟨_, h.imp_right fun h => by cases h⟩
    · exact .inl ⟨path, h⟩
  | req params =>
    simp only [own] at h
    split at h
    · exact .inl ⟨path, h⟩
    · exact .inl ⟨path, h⟩
  | rsp params =>
    simp only [own] at h
    split at h
    · exact .inl ⟨path, h⟩
    · exact .inl ⟨path, h⟩
  | pub params | stop | keepAlive => exact .inl ⟨path, h⟩

theorem listed_own_self (h : core.Enters c msg) : (core.own env c msg).Listed c := by
  obtain ⟨id, content⟩ := msg
  cases content with
  | sub params =>
    refine ⟨params.topic.segments, .inl ?_⟩
    exact Directory.subscribed_subscribe.mpr (.inl ⟨rfl, rfl⟩)
  | srv params =>
    have hok := Directory.claim_ok_iff.mpr h
    refine ⟨params.topic.segments, .inr ?_⟩
    simp only [own, Directory.claim, (Directory.claimSegments_cases c _ _).2]
    exact congrArg Directory.Entry.owner (if_pos ⟨trivial, hok⟩)
  | _ => cases h

/-- A message adds no party but those of the request it accepts. -/
theorem party_own (h : (core.own env d msg).Party c) :
    core.Party c ∨ ∃ p, core.accepted env d msg = some p ∧ (p.requesterId = c ∨ p.responderId = c) := by
  obtain ⟨id, content⟩ := msg
  obtain ⟨k, p, hp, hc⟩ := h
  cases content with
  | req params =>
    simp only [own] at hp
    cases ha : core.accepted env d ⟨id, .req params⟩ with
    | none =>
      rw [ha] at hp
      exact .inl ⟨k, p, hp, hc⟩
    | some p' =>
      rw [ha] at hp
      change core.pendingResponses.insert core.nextMsgId p' k = some p at hp
      rw [Table.insert_apply] at hp
      split_ifs at hp
      · cases hp
        exact .inr ⟨_, rfl, hc⟩
      · exact .inl ⟨k, p, hp, hc⟩
  | rsp params =>
    simp only [own] at hp
    split at hp
    · exact .inl ⟨k, p, (Table.remove_eq_some.mp hp).2, hc⟩
    · exact .inl ⟨k, p, hp, hc⟩
  | _ => exact .inl ⟨k, p, hp, hc⟩

/-! ## Integrity -/

/-- Every id that is kept has a sender; the directory keeps the built-in id 0 besides. -/
structure Integrity (core : Core) : Prop where
  listed : ∀ c, core.Listed c → c = 0 ∨ (core.protocolServerSenders c).isSome
  party : ∀ c, core.Party c → (core.protocolServerSenders c).isSome

theorem Integrity.deliverAll (h : core.Integrity) (ids : List ClientId) :
    (core.deliverAll env ids).Integrity := by
  refine ⟨fun c hc => ?_, fun c hc => ?_⟩
  · obtain ⟨hc, hstay⟩ := (listed_deliverAll ids).mp hc
    rw [deliverAll_senders, if_neg hstay]
    exact h.listed c hc
  · obtain ⟨hc, hstay⟩ := party_deliverAll hc
    rw [deliverAll_senders, if_neg hstay]
    exact h.party c hc

theorem integrity_new : new.Integrity := by
  refine ⟨fun c hc => .inl ?_, ?_⟩
  · obtain ⟨path, hc⟩ := hc
    rw [new, Directory.subscribe, Directory.contents_subscribeSegments] at hc
    split_ifs at hc
    · simpa [Directory.contents_new, Directory.Entry.empty] using hc
    · simp [Directory.contents_new, Directory.Entry.empty] at hc
  · rintro c ⟨k, p, hp, -⟩
    cases hp

end Core

namespace Record

variable {r : Record}

/-- The sender of a message that stores it is registered. -/
def Known (r : Record) : Prop :=
  ∀ c msg, r.task = .message c msg →
    (c ≠ 0 ∧ r.core.Enters c msg ∨ (r.core.accepted r.env c msg).isSome) →
      (r.core.protocolServerSenders c).isSome

/-- Whatever a task's result: its own change, then deliveries. -/
theorem exec_core (r : Record) :
    ∃ ids, r.exec.2.core = (r.core.ownTask r.env r.task).deliverAll r.env ids := by
  obtain ⟨acks, heq, -⟩ := Exec.processTask_eq r.env r.task r.core
  rw [exec, heq]
  exact ⟨_, rfl⟩

theorem Known.ownTask (h : r.Known) (hi : r.core.Integrity) :
    (r.core.ownTask r.env r.task).Integrity := by
  cases ht : r.task with
  | register conn =>
    have hgrow : ∀ c, (r.core.protocolServerSenders c).isSome →
        ((r.core.protocolServerSenders.insert r.core.nextClientId conn) c).isSome := by
      intro c hc
      rw [Table.insert_apply]
      split_ifs
      · rfl
      · exact hc
    exact ⟨fun c hc => (hi.listed c hc).imp_right (hgrow c), fun c hc => hgrow c (hi.party c hc)⟩
  | deregister d =>
    refine ⟨fun c hc => ?_, fun c hc => ?_⟩
    · obtain ⟨hc, hne⟩ := Core.listed_deregisterClient.mp hc
      rw [Core.ownTask, Core.deregisterClient_senders hne]
      exact hi.listed c hc
    · obtain ⟨hc, hne⟩ := Core.party_deregisterClient hc
      rw [Core.ownTask, Core.deregisterClient_senders hne]
      exact hi.party c hc
  | message d msg =>
    refine ⟨fun c hc => ?_, fun c hc => ?_⟩
    · rw [Core.ownTask, Core.own_senders]
      rcases Core.listed_own hc with hc | ⟨rfl, henters⟩
      · exact hi.listed c hc
      · exact or_iff_not_imp_left.mpr fun h₀ => h c msg ht (.inl ⟨h₀, henters⟩)
    · rw [Core.ownTask, Core.own_senders]
      rcases Core.party_own hc with hc | ⟨p, hp, hc⟩
      · exact hi.party c hc
      · obtain ⟨params, hmsg, -, hreach⟩ := Core.accepts_eq_some.mp
          (show r.core.accepts r.env (.message d msg) = some p from hp)
        rcases hc with rfl | rfl
        · cases hmsg
          exact h _ _ ht (.inr (Option.isSome_of_mem hp))
        · obtain ⟨conn, hr⟩ := Option.isSome_iff_exists.mp hreach
          exact Option.isSome_of_mem (Core.reach_eq_some.mp hr).1
  | requestTimeout k =>
    refine ⟨fun c hc => ?_, fun c hc => ?_⟩
    · rw [Core.ownTask, Core.own_senders]
      exact hi.listed c ((Core.listed_own hc).resolve_right fun h => h.2)
    · rw [Core.ownTask, Core.own_senders]
      refine hi.party c ((Core.party_own hc).resolve_right ?_)
      rintro ⟨p, hp, -⟩
      cases hp

/-- A task that stores the id of a client without a sender does not deregister it. -/
theorem known_of_integrity (h : r.exec.2.core.Integrity) : r.Known := by
  obtain ⟨ids, hcore⟩ := r.exec_core
  rw [hcore] at h
  intro c msg ht hstores
  rw [ht, Core.ownTask] at h
  by_contra hnone
  have hstay : ¬ (r.core.own r.env c msg).Drops r.env ids c := by
    rintro ⟨-, conn, hs, -⟩
    rw [Core.own_senders] at hs
    exact hnone (Option.isSome_of_mem hs)
  have hsender : ((r.core.own r.env c msg).deliverAll r.env ids).protocolServerSenders c =
      r.core.protocolServerSenders c := by
    rw [Core.deliverAll_senders, if_neg hstay, Core.own_senders]
  rw [← hsender] at hnone
  rcases hstores with ⟨h₀, henters⟩ | hacc
  · have hlisted := (Core.listed_deliverAll ids).mpr ⟨Core.listed_own_self henters, hstay⟩
    exact hnone ((h.listed c hlisted).resolve_left h₀)
  · -- the responder of an accepted request is reached, so it stays too
    obtain ⟨p, hp⟩ := Option.isSome_iff_exists.mp hacc
    obtain ⟨params, hmsg, -, hreach⟩ := Core.accepts_eq_some.mp
      (show r.core.accepts r.env (.message c msg) = some p from hp)
    cases hmsg
    have hresp : ¬ (r.core.own r.env p.requesterId ⟨p.requestId, .req params⟩).Drops r.env ids
        p.responderId := by
      rintro ⟨-, conn, hs, ho⟩
      rw [Core.own_senders] at hs
      obtain ⟨conn', hr⟩ := Option.isSome_iff_exists.mp hreach
      obtain ⟨hs', ho'⟩ := Core.reach_eq_some.mp hr
      cases hs.symm.trans hs'
      exact absurd (ho.symm.trans ho') (by decide)
    have hpending : (r.core.own r.env p.requesterId ⟨p.requestId, .req params⟩).pendingResponses
        r.core.nextMsgId = some p := by
      simp only [Core.own, hp]
      exact Table.insert_self _ _ _
    exact hnone (h.party _
      ⟨_, p, (Core.deliverAll_pending ids).mpr ⟨hpending, hstay, hresp⟩, .inl rfl⟩)

/-- **Integrity after a task** means that what the task stored belongs to a registered client. -/
theorem integrity_exec_iff (h : r.core.Integrity) : r.exec.2.core.Integrity ↔ r.Known := by
  refine ⟨known_of_integrity, fun hk => ?_⟩
  obtain ⟨ids, hcore⟩ := r.exec_core
  rw [hcore]
  exact (hk.ownTask h).deliverAll ids

end Record

namespace System

variable {acts : List Act} {s : System}

/-- Every state on the way of a run has integrity. -/
def Throughout (acts : List Act) : Prop :=
  ∀ as, as <+: acts → ∀ s, Lts.run step init as = some s → s.core.Integrity

theorem throughout_concat {act : Act} :
    Throughout (acts ++ [act]) ↔ Throughout acts ∧
      ∀ s, Lts.run step init (acts ++ [act]) = some s → s.core.Integrity := by
  simp only [Throughout, List.prefix_concat_iff]
  constructor
  · intro h
    exact ⟨fun as ha => h as (.inr ha), fun s hs => h _ (.inl rfl) s hs⟩
  · rintro ⟨hold, hnew⟩ as (rfl | ha) s hs
    · exact hnew s hs
    · exact hold as ha s hs

/-- **A run keeps the integrity of the core exactly when every message that stores its sender is
processed while the sender is registered.** -/
theorem integrity_iff (h : Lts.run step init acts = some s) :
    Throughout acts ↔ ∀ r ∈ s.log, r.Known := by
  refine Lts.run_induct (P := fun acts s => Throughout acts ↔ ∀ r ∈ s.log, r.Known) ?_
    (fun as s act s' hs hi hstep => ?_) h
  · refine iff_of_true (fun as ha s hs => ?_) (by simp [init])
    cases List.prefix_nil.mp ha
    cases hs
    exact Core.integrity_new
  · have hrun := (Lts.run_concat step).mpr ⟨s, hs, hstep⟩
    rw [throughout_concat, hrun]
    simp only [Option.some.injEq, forall_eq']
    obtain ⟨-, hq | ⟨order, task, tasks, -, rfl⟩⟩ := quiet_or_processed hstep
    · rw [hq.core, hq.log, ← hi]
      exact and_iff_left_of_imp fun ht => ht as List.prefix_rfl s hs
    · rw [processed, List.forall_mem_append, List.forall_mem_singleton, ← hi]
      refine and_congr_right fun ht => ?_
      exact Record.integrity_exec_iff (r := s.record order task) (ht as List.prefix_rfl s hs)

/-- A keep-alive and a subscription are still queued when the stub of client 1 has ended. -/
def leftBehind : List Act :=
  let topic : Topic := ⟨"p", ⟨"a"⟩⟩
  [.connect 0, .process .given, .receive 0 ⟨1, .keepAlive⟩ (by decide),
    .receive 0 ⟨2, .sub ⟨topic⟩⟩ (by decide), .leave 0]

/-- While the channel is open both are processed in time. -/
theorem integrity_iff_leftBehind :
    ∃ s, Lts.run step init (leftBehind ++ [.process .given, .process .given]) = some s ∧
      (Throughout (leftBehind ++ [.process .given, .process .given]) ↔ ∀ r ∈ s.log, r.Known) := by
  have hrun : (Lts.run step init (leftBehind ++ [.process .given, .process .given])).isSome := by
    decide +kernel
  obtain ⟨s, hs⟩ := Option.isSome_iff_exists.mp hrun
  exact ⟨s, hs, integrity_iff hs⟩

/-- The channel closes first. The Ack of the keep-alive fails, which deregisters the client, and the
subscription is processed after that. -/
def droppedEarly : List Act := leftBehind ++ [.close 0, .process .given, .process .given]

/-- **A client without a sender is subscribed**, in a state of a running server. -/
theorem not_integrity_droppedEarly : ∃ s, Lts.run step init droppedEarly = some s ∧
    s.status = .running ∧ ¬ s.core.Integrity := by
  have hrun : (Lts.run step init droppedEarly).map (fun s =>
      (s.status, s.core.protocolServerSenders 1,
        decide (1 ∈ (s.core.directory.contents ["p", "a"]).subscribers))) =
      some (.running, none, true) := by rfl
  obtain ⟨s, hs, he⟩ := Option.map_eq_some_iff.mp hrun
  obtain ⟨hrunning, hnone, hsub⟩ := by simpa only [Prod.mk.injEq] using he
  refine ⟨s, hs, hrunning, fun h => ?_⟩
  rcases h.listed 1 ⟨["p", "a"], .inl (of_decide_eq_true hsub)⟩ with h₁ | hsome
  · cases h₁
  · rw [hnone] at hsome
    cases hsome

end System

end T2Bus
