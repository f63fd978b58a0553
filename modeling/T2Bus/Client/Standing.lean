import T2Bus.Client.Outstanding
import T2Bus.Server.Registry

/-!
# What a client has told the server, and its own tables

A topic that the client has told the server to be subscribed to has a local subscriber, and one that it
has told the server to serve has a local owner: what the server sends on such a topic finds somebody.

* `claimant`: the Srv that messages leave as the owner of a topic;
* `ClientCore.Stands`; `ClientCore.Stands.cleanup`, `ClientCore.Stands.pubLoop`: a publication;
* **`Session.Reachable.stands`**.
-/

namespace T2Bus

/-! ## The owner that messages leave -/

/-- What a message makes of the local owner of a topic. -/
def ownerAfter (t : Topic) (owner : Option MsgId) (msg : Msg ProtocolClient) : Option MsgId :=
  match msg.content with
  | .srv params => if params.topic = t then owner.or (some msg.id) else owner
  | .unsrv params => if params.topic = t then none else owner
  | _ => owner

/-- The id of the Srv that messages leave as the owner of a topic. -/
def claimant (t : Topic) (msgs : List (Msg ProtocolClient)) : Option MsgId :=
  msgs.foldl (ownerAfter t) none

theorem claimant_concat (t : Topic) (msgs : List (Msg ProtocolClient)) (msg : Msg ProtocolClient) :
    claimant t (msgs ++ [msg]) = ownerAfter t (claimant t msgs) msg :=
  List.foldl_concat ..

theorem ownerAfter_srv {t : Topic} {owner : Option MsgId} {msg : Msg ProtocolClient}
    (h : msg.content = .srv ⟨t⟩) : ownerAfter t owner msg = owner.or (some msg.id) := by
  simp [ownerAfter, h]

theorem ownerAfter_unsrv {t : Topic} {owner : Option MsgId} {msg : Msg ProtocolClient}
    (h : msg.content = .unsrv ⟨t⟩) : ownerAfter t owner msg = none := by
  simp [ownerAfter, h]

/-- Only a Srv and an Unsrv on the topic matter. -/
theorem ownerAfter_of_ne {t : Topic} {owner : Option MsgId} {msg : Msg ProtocolClient}
    (hsrv : msg.content ≠ .srv ⟨t⟩) (hunsrv : msg.content ≠ .unsrv ⟨t⟩) :
    ownerAfter t owner msg = owner := by
  rw [ownerAfter]
  split
  · rename_i params h
    exact if_neg fun ht => hsrv (by rw [h, ← ht])
  · rename_i params h
    exact if_neg fun ht => hunsrv (by rw [h, ← ht])
  · rfl

/-- An owner stays until its Unsrv. -/
theorem claimant_append {t : Topic} {msgs rest : List (Msg ProtocolClient)} {k : MsgId}
    (h : claimant t msgs = some k) (hno : ∀ m ∈ rest, m.content ≠ .unsrv ⟨t⟩) :
    claimant t (msgs ++ rest) = some k := by
  induction rest generalizing msgs with
  | nil => rwa [List.append_nil]
  | cons m rest ih =>
    obtain ⟨hm, hrest⟩ := List.forall_mem_cons.mp hno
    rw [List.append_cons]
    refine ih ?_ hrest
    rw [claimant_concat, h]
    by_cases hsrv : m.content = .srv ⟨t⟩
    · exact ownerAfter_srv hsrv
    · exact ownerAfter_of_ne hsrv hm

/-- A topic has an owner as long as it is claimed. -/
theorem claimant_isSome (t : Topic) (msgs : List (Msg ProtocolClient)) :
    (claimant t msgs).isSome = claimed t msgs := by
  induction msgs using List.reverseRecOn with
  | nil => rfl
  | append_singleton msgs m ih =>
    rw [claimant_concat, claimed_concat, ← ih]
    obtain ⟨id, content⟩ := m
    cases content with
    | srv params => by_cases ht : params.topic = t <;> simp [ownerAfter, claimsTo, ht]
    | unsrv params => by_cases ht : params.topic = t <;> simp [ownerAfter, claimsTo, ht]
    | _ => simp [ownerAfter, claimsTo]

namespace ClientCore

variable {core core' : ClientCore} {sent : List (Msg ProtocolClient)}

/-- Every topic with a local subscription that the messages leave has a subscriber. -/
def Backed (core : ClientCore) (sent : List (Msg ProtocolClient)) : Prop :=
  ∀ t, subbed t sent = true → ∃ k, core.subscriptions.Subscribed k t

/-- The tables answer for what the messages leave at the server. -/
structure Stands (core : ClientCore) (sent : List (Msg ProtocolClient)) : Prop where
  subs : core.Backed sent
  owner : ∀ t, core.subscriptions.getOwner t = claimant t sent

/-- A Srv is sent only if nobody else owns its topic. -/
theorem owner_of_beforeSend {task : ClientTask} {msg : Msg ProtocolClient} {t : Topic}
    (hb : core.beforeSend task = (.ok msg, core')) (hsrv : msg.content = .srv ⟨t⟩) :
    core.subscriptions.getOwner t = none ∨ core.subscriptions.getOwner t = some msg.id := by
  obtain ⟨hsends, hcontent⟩ := sends_of_beforeSend hb
  rw [hsrv] at hcontent
  obtain ⟨params, rfl, rfl⟩ := ClientTask.eq_srv hcontent
  have hok := (beforeSend_ok_iff (by simp)).mp ⟨msg, congrArg Prod.fst hb⟩
  rw [hsends.id]
  exact hok.1.2

/-- A message that is sent keeps the tables answering. -/
theorem Stands.sends {task : ClientTask} {msg : Msg ProtocolClient} (h : core.Stands sent)
    (hb : core.beforeSend task = (.ok msg, core')) : core'.Stands (sent ++ [msg]) := by
  obtain ⟨hsends, hcontent⟩ := sends_of_beforeSend hb
  refine ⟨fun t ht => ?_, fun t => ?_⟩
  · rw [subbed_concat] at ht
    by_cases hc : msg.content = .sub ⟨t⟩
    · exact ⟨msg.id, (hsends.subscribed _ t).mpr (Or.inr ⟨rfl, hc⟩)⟩
    · obtain ⟨k, hk⟩ := h.subs t (subscribesTo_of_ne ht hc).1
      exact ⟨k, (hsends.subscribed k t).mpr (Or.inl hk)⟩
  · rw [hsends.owner, claimant_concat, ← h.owner t]
    split_ifs with hsrv hunsrv
    · rw [ownerAfter_srv hsrv]
      -- a claim succeeds only if nobody else owns the topic
      rcases owner_of_beforeSend hb hsrv with hnone | hown
      · rw [hnone, Option.none_or]
      · rw [hown, Option.some_or]
    · rw [ownerAfter_unsrv hunsrv]
    · rw [ownerAfter_of_ne hsrv hunsrv]

/-! ## A publication -/

/-- The Unsubs that are sent take back the subscriptions to the topics that have no subscriber. -/
theorem subbed_unsubscribeAll {env : ClientEnv} {topics : List Topic} {s s' : ClientExec}
    (h : ClientExec.unsubscribeAll env topics s = (.ok (), s')) {t : Topic}
    (ht : subbed t (sent ++ s'.sent) = true) : t ∉ topics ∧ subbed t (sent ++ s.sent) = true := by
  induction topics generalizing s with
  | nil =>
    cases h
    exact ⟨List.not_mem_nil, ht⟩
  | cons u topics ih =>
    rw [ClientExec.unsubscribeAll] at h
    rcases ClientExec.send_unsub env s u with ⟨e, he, -⟩ | hok
    · rw [he] at h
      cases h
    · rw [hok] at h
      obtain ⟨hno, hsub⟩ := ih h
      rw [ClientExec.unsubscribed, ← List.append_assoc, subbed_concat] at hsub
      obtain ⟨hsub, hne⟩ := subscribesTo_of_ne hsub (by simp)
      refine ⟨fun hm => ?_, hsub⟩
      rcases List.mem_cons.mp hm with rfl | hm
      · exact hne rfl
      · exact hno hm

/-- A subscriber that is removed leaves its topics to others, or their subscriptions are taken back. -/
theorem Backed.cleanup {env : ClientEnv} {s s' : ClientExec} {k : MsgId}
    (h : s.core.Backed (sent ++ s.sent)) (hd : s.core.subscriptions.Sound)
    (hcl : ClientExec.cleanup env k s = (.ok (), s')) : s'.core.Backed (sent ++ s'.sent) := by
  intro t ht
  obtain ⟨hno, hsub⟩ := subbed_unsubscribeAll hcl ht
  have hsame : s'.core.subscriptions = (s.core.subscriptions.dropClient k).2 :=
    ClientExec.unsubscribeAll_induct
      (P := fun s₁ => s₁.core.subscriptions = (s.core.subscriptions.dropClient k).2)
      (fun s t _ h => h) hcl rfl
  obtain ⟨k₁, hk₁⟩ := h t hsub
  -- if nobody else had the topic, it would be one of the cleanup
  by_contra hnone
  refine hno ((Directory.mem_dropClient hd).mpr ?_)
  have hall : ∀ k', s.core.subscriptions.Subscribed k' t → k' = k := by
    intro k' hk'
    by_contra hne
    exact hnone ⟨k', hsame ▸ Directory.subscribed_dropClient.mpr ⟨hk', hne⟩⟩
  exact ⟨hall k₁ hk₁ ▸ hk₁, hall⟩

/-- A publication keeps every subscription at the server backed. -/
theorem Backed.pubLoop {env : ClientEnv} {payload : PubMsg} {ids : List MsgId} {s' : ClientExec}
    (h : core.Backed sent) (hd : core.subscriptions.Sound)
    (hok : ClientExec.pubLoop env payload ids (.start core) = (.ok (), s')) :
    s'.core.Backed (sent ++ s'.sent) := by
  refine (ClientExec.pubLoop_induct (P := fun s => s.core.subscriptions.Sound ∧
    s.core.Backed (sent ++ s.sent)) (fun s c h => h) (fun s s' k callback _ _ _ hcl h => ⟨?_, ?_⟩) hok
    ⟨hd, by rwa [ClientExec.start_sent, List.append_nil]⟩).2
  · exact ClientExec.unsubscribeAll_induct (P := fun s => s.core.subscriptions.Sound)
      (fun s t _ h => h) hcl (h.1.apply (.dropClient k) trivial)
  · exact h.2.cleanup h.1 hcl

/-- Unsubs do not touch the owner of a topic. -/
theorem claimant_append_unsubs {unsubs : List (Msg ProtocolClient)} {t : Topic}
    (h : ∀ m ∈ unsubs, ∃ u, m.content = .unsub ⟨u⟩) :
    claimant t (sent ++ unsubs) = claimant t sent := by
  induction unsubs using List.reverseRecOn with
  | nil => rw [List.append_nil]
  | append_singleton unsubs m ih =>
    obtain ⟨hold, hm⟩ := List.forall_mem_append.mp h
    obtain ⟨u, hu⟩ := hm m (List.mem_singleton_self m)
    rw [← List.append_assoc, claimant_concat, ownerAfter_of_ne (by simp [hu]) (by simp [hu]), ih hold]

/-- A publication keeps the tables answering. -/
theorem Stands.pubLoop {env : ClientEnv} {payload : PubMsg} {s' : ClientExec} (h : core.Stands sent)
    (htables : core.Tables sent) (hlen : sent.length < 2 ^ 32) (hv : payload.topic.Valid)
    (hok : ClientExec.pubLoop env payload
      (env.order.arrange (core.subscriptions.getSubscribers payload.topic)) (.start core) =
        (.ok (), s')) : s'.core.Stands (sent ++ s'.sent) := by
  refine ⟨h.subs.pubLoop htables.sound hok, fun t => ?_⟩
  rw [getOwner_pubLoop htables hlen hv hok, claimant_append_unsubs (Session.pubLoop_requests hok).2]
  exact h.owner t

end ClientCore

namespace Session

variable {s s' : Session}

/-- **The tables of a client answer for what it has told the server.** -/
theorem Reachable.stands (h : Reachable s) : s.status = .running → s.sent.length < 2 ^ 32 →
    s.core.Stands s.sent := by
  refine Lts.Reachable.induct (I := fun s => s.status = .running → s.sent.length < 2 ^ 32 →
    s.core.Stands s.sent) (fun _ _ => ?_) (fun s act s' hs hi hstep hrun' hlen => ?_) h
  · exact ⟨fun t ht => Bool.noConfusion ht, Directory.getOwner_new⟩
  · have hlen₀ := (sent_length_le hstep).trans_lt hlen
    obtain ⟨hrun, hq | ⟨event, order, transport, tasks, ht, hv, rfl⟩⟩ := quiet_or_turned hstep
    · rw [hq.core, hq.sent]
      exact hi hrun hlen₀
    · have hi := hi hrun hlen₀
      rw [turned]
      rcases Turn.exec_ok (turned_running.mp hrun') with ⟨task, msg, -, hb, hsent⟩ |
        ⟨msg, hevent, hrecv⟩
      · rw [hsent]
        exact hi.sends hb
      · rcases ClientExec.afterReceive_ok hrecv with ⟨hsent, ⟨acks, hcore⟩, -⟩ |
          ⟨hsent, payload, -, hcore⟩ | ⟨payload, hpub, hloop⟩
        · rw [hsent, hcore, ClientExec.start_sent, List.append_nil]
          exact ⟨hi.subs, hi.owner⟩
        · rw [hsent, hcore, ClientExec.start_sent, List.append_nil]
          exact ⟨hi.subs, hi.owner⟩
        · have hvalid : payload.topic.Valid := by
            obtain ⟨id, content⟩ := msg
            cases hpub
            have hevent : event = .msg ⟨id, .pub payload⟩ := hevent
            rw [hevent] at hv
            exact hv
          exact hi.pubLoop (Reachable.tables hs hrun) hlen₀ hvalid hloop

end Session

end T2Bus
