import T2Bus.Client.Session
import T2Bus.Server.Count

/-!
# The tables of the client core

Message ids count the messages that were sent, so as long as there are fewer than `2 ^ 32` of them
every id is used once. A local subscription or owner is the id of a Sub or a Srv, and has a callback.

* `ClientCore.Tables`, kept by a message that is sent and by the removal of a local subscriber;
* `Session.Reachable.tables`; `Tables.id_inj`, `Tables.not_owner_of_subscribed`;
* `Session.Awaits`: the callback of a request is there until its response comes.
-/

namespace T2Bus

/-- What stands in the tables, and where it comes from. -/
structure ClientCore.Tables (core : ClientCore) (sent : List (Msg ProtocolClient)) : Prop where
  nextMsgId : core.nextMsgId = UInt32.ofNat sent.length
  ids : sent.map Msg.id = (List.range sent.length).map fun i => UInt32.ofNat (i + 1)
  sound : core.subscriptions.Sound
  pubs : ∀ k t, core.subscriptions.Subscribed k t →
    (core.callbacksPub k).isSome ∧ ⟨k, .sub ⟨t⟩⟩ ∈ sent
  reqs : ∀ t k, core.subscriptions.getOwner t = some k →
    (core.callbacksReq k).isSome ∧ ⟨k, .srv ⟨t⟩⟩ ∈ sent

namespace ClientCore

variable {core core' : ClientCore} {sent : List (Msg ProtocolClient)} {msg : Msg ProtocolClient}

theorem tables_new : new.Tables [] where
  nextMsgId := rfl
  ids := rfl
  sound := Directory.Sound.new
  pubs _ _ h := absurd h Directory.not_subscribed_new
  reqs t k h := by
    rw [show new.subscriptions.getOwner t = none from Directory.getOwner_new t] at h
    cases h

/-- A message that is sent has the next id. -/
theorem ids_concat (hids : sent.map Msg.id = (List.range sent.length).map fun i => UInt32.ofNat (i + 1))
    (hid : msg.id = UInt32.ofNat (sent.length + 1)) : (sent ++ [msg]).map Msg.id =
      (List.range (sent ++ [msg]).length).map fun i => UInt32.ofNat (i + 1) := by
  rw [List.map_append, hids, List.length_append, List.length_singleton, List.range_succ,
    List.map_append, List.map_singleton, List.map_singleton, hid]

theorem Tables.sends (h : core.Tables sent) (hs : core.Sends msg core') (hv : msg.content.Valid) :
    core'.Tables (sent ++ [msg]) := by
  have hid : msg.id = UInt32.ofNat (sent.length + 1) := by
    rw [hs.id, h.nextMsgId, UInt32.ofNat_add]
    rfl
  refine ⟨?_, ids_concat h.ids hid, hs.sound h.sound hv, fun k t hk => ?_, fun t k hk => ?_⟩
  · rw [hs.nextMsgId, hid, List.length_append, List.length_singleton]
  · rcases (hs.subscribed k t).mp hk with hk | ⟨rfl, hmsg⟩
    · obtain ⟨hc, hm⟩ := h.pubs k t hk
      exact ⟨(hs.callbacksPub k).mpr (Or.inl hc), List.mem_append_left _ hm⟩
    · refine ⟨(hs.callbacksPub _).mpr (Or.inr ⟨rfl, _, hmsg⟩), ?_⟩
      rw [← hmsg]
      exact List.mem_append_right _ (List.mem_singleton_self _)
  · rw [hs.owner] at hk
    split_ifs at hk with hsrv
    · cases hk
      refine ⟨(hs.callbacksReq _).mpr (Or.inr ⟨rfl, _, hsrv⟩), ?_⟩
      rw [← hsrv]
      exact List.mem_append_right _ (List.mem_singleton_self _)
    · obtain ⟨hc, hm⟩ := h.reqs t k hk
      exact ⟨(hs.callbacksReq k).mpr (Or.inl hc), List.mem_append_left _ hm⟩

/-- Other callbacks do not matter. -/
theorem Tables.withAckRsp (h : core.Tables sent) (acks rsps : Table MsgId Callback) :
    { core with callbacksAck := acks, callbacksRsp := rsps }.Tables sent :=
  ⟨h.nextMsgId, h.ids, h.sound, h.pubs, h.reqs⟩

/-! ## A publication -/

theorem Tables.forget {s : ClientExec} (h : s.core.Tables sent) (k : MsgId) :
    (s.forget k).core.Tables sent where
  nextMsgId := h.nextMsgId
  ids := h.ids
  sound := h.sound.apply (.dropClient k) trivial
  pubs k' t hk := by
    obtain ⟨hk, hne⟩ := Directory.subscribed_dropClient.mp hk
    obtain ⟨hc, hm⟩ := h.pubs k' t hk
    refine ⟨?_, hm⟩
    rw [ClientExec.forget_callbacksPub, Table.remove_of_ne hne]
    exact hc
  reqs t k' hk := by
    rw [ClientExec.forget_subscriptions, Directory.getOwner_dropClient] at hk
    split_ifs at hk
    exact h.reqs t k' hk

theorem Tables.unsubscribed {s : ClientExec} (h : s.core.Tables (sent ++ s.sent)) (t : Topic) :
    (s.unsubscribed t).core.Tables (sent ++ (s.unsubscribed t).sent) := by
  have hid : s.core.nextMsgId + 1 = UInt32.ofNat ((sent ++ s.sent).length + 1) := by
    rw [h.nextMsgId, UInt32.ofNat_add]
    rfl
  rw [ClientExec.unsubscribed, ← List.append_assoc]
  refine ⟨?_, ids_concat h.ids hid, h.sound, fun k u hk => ?_, fun u k hk => ?_⟩
  · rw [List.length_append, List.length_singleton]
    exact hid
  · exact ⟨(h.pubs k u hk).1, List.mem_append_left _ (h.pubs k u hk).2⟩
  · exact ⟨(h.reqs u k hk).1, List.mem_append_left _ (h.reqs u k hk).2⟩

/-- A publication keeps the tables. -/
theorem Tables.pubLoop {env : ClientEnv} {payload : PubMsg} {ids : List MsgId} {s' : ClientExec}
    (h : core.Tables sent) (hok : ClientExec.pubLoop env payload ids (.start core) = (.ok (), s')) :
    s'.core.Tables (sent ++ s'.sent) := by
  refine ClientExec.pubLoop_induct (P := fun s => s.core.Tables (sent ++ s.sent)) (fun s c h => h)
    (fun s s' k callback _ _ _ hcl h => ?_) hok (by rwa [ClientExec.start, List.append_nil])
  exact ClientExec.unsubscribeAll_induct (P := fun s => s.core.Tables (sent ++ s.sent))
    (fun s t _ h => h.unsubscribed t) hcl (h.forget k)

/-! ## Ids -/

/-- **Fewer than `2 ^ 32` messages have distinct ids.** -/
theorem nodup_of_ids (hids : sent.map Msg.id = (List.range sent.length).map fun i => UInt32.ofNat (i + 1))
    (hlen : sent.length < 2 ^ 32) : (sent.map Msg.id).Nodup := by
  rw [hids]
  refine List.Nodup.map_on (fun i hi j hj heq => ?_) List.nodup_range
  have hi := List.mem_range.mp hi
  have hj := List.mem_range.mp hj
  have hij := System.ofNat_inj (by omega) (by omega) heq
  omega

theorem Tables.nodup_ids (h : core.Tables sent) (hlen : sent.length < 2 ^ 32) :
    (sent.map Msg.id).Nodup := nodup_of_ids h.ids hlen

theorem Tables.id_inj (h : core.Tables sent) (hlen : sent.length < 2 ^ 32)
    {m m' : Msg ProtocolClient} (hm : m ∈ sent) (hm' : m' ∈ sent) (heq : m.id = m'.id) : m = m' :=
  List.inj_on_of_nodup_map (h.nodup_ids hlen) hm hm' heq

/-- The next id is fresh. -/
theorem Tables.fresh (h : core.Tables sent) (hlen : sent.length + 1 < 2 ^ 32)
    {m : Msg ProtocolClient} (hm : m ∈ sent) : m.id ≠ core.nextMsgId + 1 := by
  have hmem : m.id ∈ (List.range sent.length).map fun i => UInt32.ofNat (i + 1) :=
    h.ids ▸ List.mem_map_of_mem hm
  obtain ⟨i, hi, hid⟩ := List.mem_map.mp hmem
  have hi := List.mem_range.mp hi
  have hnext : core.nextMsgId + 1 = UInt32.ofNat (sent.length + 1) := by
    rw [h.nextMsgId, UInt32.ofNat_add]
    rfl
  rw [← hid, hnext]
  intro heq
  have := System.ofNat_inj (by omega) (by omega) heq
  omega

/-- A local subscriber owns no topic. -/
theorem Tables.not_owner_of_subscribed (h : core.Tables sent) (hlen : sent.length < 2 ^ 32)
    {k : MsgId} {t u : Topic} (hk : core.subscriptions.Subscribed k t) :
    core.subscriptions.getOwner u ≠ some k := by
  intro ho
  have heq := h.id_inj hlen (h.pubs k t hk).2 (h.reqs u k ho).2 rfl
  cases heq

end ClientCore

namespace Session

variable {s s' : Session}

/-- A session with its tables in order. -/
theorem Reachable.tables (h : Reachable s) : s.status = .running → s.core.Tables s.sent := by
  refine Lts.Reachable.induct (I := fun s => s.status = .running → s.core.Tables s.sent)
    (fun _ => ClientCore.tables_new) (fun s act s' hs hi hstep hrun' => ?_) h
  obtain ⟨hrun, hq | ⟨event, order, transport, tasks, ht, -, rfl⟩⟩ := quiet_or_turned hstep
  · rw [hq.core, hq.sent]
    exact hi hrun
  · have hi := hi hrun
    rw [turned_running] at hrun'
    rw [turned]
    rcases Turn.exec_ok hrun' with ⟨task, msg, htask, hb, hsent⟩ | ⟨msg, -, hrecv⟩
    · obtain ⟨hsends, hcontent⟩ := ClientCore.sends_of_beforeSend hb
      rw [hsent]
      refine hi.sends hsends ?_
      exact (Reachable.sends_valid hs ht htask) _ hcontent
    · rcases ClientExec.afterReceive_ok hrecv with ⟨hsent, ⟨acks, hcore⟩, -⟩ |
        ⟨hsent, payload, -, hcore⟩ | ⟨payload, -, hloop⟩
      · rw [hsent, hcore, ClientExec.start_sent, List.append_nil]
        exact hi.withAckRsp acks _
      · rw [hsent, hcore, ClientExec.start_sent, List.append_nil]
        exact hi.withAckRsp _ _
      · exact hi.pubLoop hloop

/-! ## Responses -/

/-- The messages that a session has received. -/
def received (log : List Turn) : List (Msg ProtocolServer) := log.filterMap Turn.received?

/-- The response to a request has come. -/
def Answered (log : List Turn) (k : MsgId) : Prop :=
  ∃ m ∈ received log, ∃ payload, m.content = .rsp payload ∧ payload.reqId = k

/-- The callback of a request is there until its response comes. -/
def Awaits (s : Session) : Prop :=
  ∀ k params, ⟨k, .req params⟩ ∈ s.sent → (s.core.callbacksRsp k).isSome ∨ Answered s.log k

theorem received_concat (log : List Turn) (r : Turn) :
    received (log ++ [r]) = received log ++ r.received?.toList := by
  rw [received, List.filterMap_append, received]
  cases h : r.received? <;> simp [h]

theorem Answered.concat {log : List Turn} {k : MsgId} (h : Answered log k) (r : Turn) :
    Answered (log ++ [r]) k := by
  obtain ⟨m, hm, h⟩ := h
  refine ⟨m, ?_, h⟩
  rw [received_concat]
  exact List.mem_append_left _ hm

/-- A publication touches no request. -/
theorem pubLoop_requests {env : ClientEnv} {payload : PubMsg} {ids : List MsgId} {core : ClientCore}
    {s' : ClientExec} (h : ClientExec.pubLoop env payload ids (.start core) = (.ok (), s')) :
    s'.core.callbacksRsp = core.callbacksRsp ∧ ∀ m ∈ s'.sent, ∃ t, m.content = .unsub ⟨t⟩ := by
  refine ClientExec.pubLoop_induct (P := fun s => s.core.callbacksRsp = core.callbacksRsp ∧
    ∀ m ∈ s.sent, ∃ t, m.content = .unsub ⟨t⟩) (fun s c h => h)
    (fun s s' k callback _ _ _ hcl h => ?_) h ⟨rfl, by simp⟩
  refine ClientExec.unsubscribeAll_induct (P := fun s => s.core.callbacksRsp = core.callbacksRsp ∧
    ∀ m ∈ s.sent, ∃ t, m.content = .unsub ⟨t⟩) (fun s t _ h => ⟨h.1, fun m hm => ?_⟩) hcl h
  rcases List.mem_append.mp hm with hm | hm
  · exact h.2 m hm
  · rw [List.mem_singleton.mp hm]
    exact ⟨t, rfl⟩

theorem Awaits.turned {r : Turn} {tasks : List ClientTask} (hi : Awaits s) (hcore : r.core = s.core)
    (hok : r.exec.1 = .ok false) : Awaits (s.turned tasks r) := by
  intro k params hm
  change _ ∈ s.sent ++ r.exec.2.sent at hm
  change (r.exec.2.core.callbacksRsp k).isSome ∨ Answered (s.log ++ [r]) k
  have hold : ⟨k, .req params⟩ ∈ s.sent → (r.core.callbacksRsp k).isSome ∨
      Answered (s.log ++ [r]) k := by
    rw [hcore]
    exact fun hm => (hi k params hm).imp_right fun h => h.concat r
  rcases Turn.exec_ok hok with ⟨task, msg, -, hb, hsent⟩ | ⟨msg, hevent, hrecv⟩
  · obtain ⟨hsends, -⟩ := ClientCore.sends_of_beforeSend hb
    rw [hsends.callbacksRsp]
    rw [hsent, List.mem_append] at hm
    rcases hm with hm | hm
    · exact (hold hm).imp_left Or.inl
    · cases List.mem_singleton.mp hm
      exact Or.inl (Or.inr ⟨rfl, params, rfl⟩)
  · rcases ClientExec.afterReceive_ok hrecv with ⟨hsent, ⟨acks, hacks⟩, -⟩ |
      ⟨hsent, payload, hrsp, hremove⟩ | ⟨payload, -, hloop⟩
    · rw [hsent, ClientExec.start_sent, List.append_nil] at hm
      rw [hacks]
      exact hold hm
    · rw [hsent, ClientExec.start_sent, List.append_nil] at hm
      have hrsps : r.exec.2.core.callbacksRsp = r.core.callbacksRsp.remove payload.reqId := by
        rw [hremove]
        rfl
      by_cases hk : k = payload.reqId
      · refine Or.inr ⟨msg, ?_, payload, hrsp, hk.symm⟩
        rw [received_concat, Turn.received?, hevent]
        exact List.mem_append_right _ (List.mem_singleton_self _)
      · rw [hrsps, Table.remove_of_ne hk]
        exact hold hm
    · obtain ⟨hrsps, hunsubs⟩ := pubLoop_requests hloop
      rw [hrsps]
      rcases List.mem_append.mp hm with hm | hm
      · exact hold hm
      · obtain ⟨t, ht⟩ := hunsubs _ hm
        cases ht

/-- **The callback of a request stays until its response comes.** -/
theorem Reachable.awaits (h : Reachable s) : s.status = .running → Awaits s := by
  refine Lts.Reachable.induct (I := fun s => s.status = .running → Awaits s) (fun _ k params hm => ?_)
    (fun s act s' _ hi hstep hrun' => ?_) h
  · cases hm
  · obtain ⟨hrun, hq | ⟨event, order, transport, tasks, -, -, rfl⟩⟩ := quiet_or_turned hstep
    · intro k params
      rw [hq.core, hq.sent, hq.log]
      exact hi hrun k params
    · exact (hi hrun).turned rfl (turned_running.mp hrun')

end Session

end T2Bus
