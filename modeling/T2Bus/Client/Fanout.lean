import T2Bus.Client.Unsubscribed

/-!
# A publication and the subscribers of a client

`after_receive` walks over the ids of the subscribers that a publication matches. A callback that is
open gets the publication; an id whose receiver is gone is removed from the tables, and Unsubs are sent
for the topics that it leaves without subscriber.

* `ClientCore.Keyed`: the subscribers in the local directory are the keys of `callbacks_pub`;
* `ClientExec.Fanned`: the state when some of the ids are done; `Fanned.step`: one id more;
  **`ClientExec.pubLoop_fanned`**: the loop;
* `ClientCore.Matches`, `ClientCore.Gone`, `ClientExec.FansOut`;
  **`Session.Reachable.keyed`**, **`Session.Reachable.fans_out`**.
-/

namespace T2Bus

/-- The subscriber ids in the local directory are the keys of `callbacks_pub`. -/
def ClientCore.Keyed (core : ClientCore) : Prop :=
  ∀ k, (core.callbacksPub k).isSome ↔ ∃ t, core.subscriptions.Subscribed k t

/-- The receiver of the callback under `k` is gone. -/
def ClientCore.Gone (core : ClientCore) (env : ClientEnv) (k : MsgId) : Prop :=
  ∃ c, core.callbacksPub k = some c ∧ env.isOpen c = false

/-- A local subscription of `k` matches the topic. -/
def ClientCore.Matches (core : ClientCore) (p : Topic) (k : MsgId) : Prop :=
  ∃ t, core.subscriptions.Subscribed k t ∧ t.Overlaps p

namespace ClientExec

variable {env : ClientEnv} {payload : PubMsg} {core : ClientCore} {s s' : ClientExec}

/-! ## Unsubs -/

/-- **The Unsubs of a cleanup**: one for each topic, and nothing else happens. -/
theorem unsubscribeAll_eq (htr : env.Reliable) (topics : List Topic) (s : ClientExec) :
    ∃ id l, unsubscribeAll env topics s =
        (.ok (), { s with core := { s.core with nextMsgId := id }, sent := s.sent ++ l }) ∧
      l.map Msg.content = topics.map fun t => .unsub ⟨t⟩ := by
  induction topics generalizing s with
  | nil => exact ⟨s.core.nextMsgId, [], by rw [List.append_nil]; rfl, rfl⟩
  | cons t topics ih =>
    rw [unsubscribeAll]
    rcases send_unsub env s t with ⟨e, -, hne⟩ | hok
    · exact absurd htr hne
    · obtain ⟨id, l, heq, hl⟩ := ih (s.unsubscribed t)
      refine ⟨id, ⟨s.core.nextMsgId + 1, .unsub ⟨t⟩⟩ :: l, ?_, ?_⟩
      · rw [hok]
        refine heq.trans ?_
        rw [unsubscribed, List.append_assoc]
        rfl
      · rw [List.map_cons, List.map_cons, hl]

/-! ## The loop -/

/-- The loop over a publication has come through `done`. -/
structure Fanned (env : ClientEnv) (payload : PubMsg) (core : ClientCore) (done : List MsgId)
    (s : ClientExec) : Prop where
  calls : ∃ l : List (MsgId × Callback), s.calls = l.map (fun x => .pub x.2 payload) ∧
    (l.map Prod.fst).Nodup ∧ ∀ x, x ∈ l ↔
      x.1 ∈ done ∧ core.callbacksPub x.1 = some x.2 ∧ env.isOpen x.2 = true
  callbacksPub : ∀ k c, s.core.callbacksPub k = some c ↔
    core.callbacksPub k = some c ∧ ¬ (k ∈ done ∧ core.Gone env k)
  subscribed : ∀ k t, s.core.subscriptions.Subscribed k t ↔
    core.subscriptions.Subscribed k t ∧ ¬ (k ∈ done ∧ core.Gone env k)
  owner : ∀ t k, s.core.subscriptions.getOwner t = some k ↔
    core.subscriptions.getOwner t = some k ∧ ¬ (k ∈ done ∧ core.Gone env k)
  sound : s.core.subscriptions.Sound
  sent : ∃ topics : List Topic, s.sent.map Msg.content = topics.map (fun t => .unsub ⟨t⟩) ∧
    topics.Nodup ∧ ∀ t, t ∈ topics ↔ (∃ k, core.subscriptions.Subscribed k t) ∧
      ∀ k, core.subscriptions.Subscribed k t → k ∈ done ∧ core.Gone env k

theorem fanned_start (hd : core.subscriptions.Sound) : Fanned env payload core [] (.start core) where
  calls := ⟨[], rfl, List.nodup_nil, fun x => by simp⟩
  callbacksPub k c := by simp [start]
  subscribed k t := by simp [start]
  owner t k := by simp [start]
  sound := hd
  sent := by
    refine ⟨[], rfl, List.nodup_nil, fun t => iff_of_false List.not_mem_nil ?_⟩
    rintro ⟨⟨k, hk⟩, hall⟩
    exact List.not_mem_nil (hall k hk).1

/-- A callback that is open gets the publication. -/
theorem Fanned.call {done : List MsgId} {k : MsgId} {c : Callback}
    (h : Fanned env payload core done s) (hk : k ∉ done) (hc : core.callbacksPub k = some c)
    (ho : env.isOpen c = true) : Fanned env payload core (done ++ [k]) (s.call (.pub c payload)) := by
  have hopen : ¬ core.Gone env k := by
    rintro ⟨c', hc', hclosed⟩
    cases hc.symm.trans hc'
    rw [ho] at hclosed
    cases hclosed
  -- the ids that are gone are the same
  have hgone : ∀ k', k' ∈ done ++ [k] ∧ core.Gone env k' ↔ k' ∈ done ∧ core.Gone env k' := by
    refine fun k' => and_congr_left fun hg => ?_
    rw [List.mem_append, List.mem_singleton, or_iff_left]
    rintro rfl
    exact hopen hg
  refine ⟨?_, fun k' c' => ?_, fun k' t => ?_, fun t k' => ?_, h.sound, ?_⟩
  · obtain ⟨l, hcalls, hnodup, hl⟩ := h.calls
    refine ⟨l ++ [(k, c)], ?_, ?_, fun x => ?_⟩
    · rw [ClientExec.call, hcalls, List.map_append]
      rfl
    · rw [List.map_append]
      refine hnodup.append (List.nodup_singleton _) (List.disjoint_singleton.mpr fun hm => hk ?_)
      obtain ⟨x, hx, rfl⟩ := List.mem_map.mp hm
      exact ((hl x).mp hx).1
    · rw [List.mem_append, hl, List.mem_singleton, List.mem_append, List.mem_singleton, or_and_right]
      refine or_congr_right ⟨?_, ?_⟩
      · rintro rfl
        exact ⟨rfl, hc, ho⟩
      · rintro ⟨hxk, hx, -⟩
        rw [hxk, hc] at hx
        exact Prod.ext hxk (Option.some.inj hx).symm
  · rw [hgone]
    exact h.callbacksPub k' c'
  · rw [hgone]
    exact h.subscribed k' t
  · rw [hgone]
    exact h.owner t k'
  · simp only [hgone]
    exact h.sent

/-- The ids that are not removed, when one more has been. -/
theorem not_gone_concat (done : List MsgId) {k : MsgId} (hg : core.Gone env k) (k' : MsgId) :
    ¬ (k' ∈ done ++ [k] ∧ core.Gone env k') ↔ ¬ (k' ∈ done ∧ core.Gone env k') ∧ k' ≠ k := by
  rw [List.mem_append, List.mem_singleton, or_and_right, not_or]
  refine and_congr_right fun _ => not_congr ⟨And.left, ?_⟩
  rintro rfl
  exact ⟨rfl, hg⟩

/-- An id that is removed leaves a topic without subscriber if it was the last one that is left. -/
theorem Fanned.mem_dropClient {done : List MsgId} {k : MsgId} (h : Fanned env payload core done s)
    (hg : core.Gone env k) (t : Topic) : t ∈ (s.core.subscriptions.dropClient k).1 ↔
      core.subscriptions.Subscribed k t ∧ ¬ (k ∈ done ∧ core.Gone env k) ∧
        ∀ k', core.subscriptions.Subscribed k' t → k' ∈ done ++ [k] ∧ core.Gone env k' := by
  rw [Directory.mem_dropClient h.sound, h.subscribed, and_assoc]
  refine and_congr_right fun _ => and_congr_right fun _ => forall_congr' fun k' => ?_
  rw [h.subscribed, and_imp]
  refine imp_congr_right fun _ => ?_
  have hk' := not_gone_concat done hg k'
  tauto

/-- An id whose receiver is gone is removed, and the topics that it leaves without subscriber are
unsubscribed from. -/
theorem Fanned.cleanup {done : List MsgId} {k : MsgId} (h : Fanned env payload core done s)
    (htr : env.Reliable) (hg : core.Gone env k) : ∃ s', cleanup env k s = (.ok (), s') ∧
      Fanned env payload core (done ++ [k]) s' := by
  obtain ⟨id, l, hcl, hl⟩ := unsubscribeAll_eq htr (s.core.subscriptions.dropClient k).1 (s.forget k)
  refine ⟨_, hcl, ?_⟩
  have hgone := not_gone_concat done hg
  refine ⟨?_, fun k' c => ?_, fun k' t => ?_, fun t k' => ?_, h.sound.apply (.dropClient k) trivial, ?_⟩
  · obtain ⟨calls, hcalls, hnodup, hmem⟩ := h.calls
    refine ⟨calls, hcalls, hnodup, fun x => (hmem x).trans ?_⟩
    rw [List.mem_append, List.mem_singleton, or_and_right]
    refine (or_iff_left ?_).symm
    rintro ⟨hxk, hx, ho⟩
    obtain ⟨c, hc, hclosed⟩ := hg
    rw [hxk, hc] at hx
    cases hx
    rw [ho] at hclosed
    cases hclosed
  · rw [hgone, ← and_assoc, ← h.callbacksPub, forget_callbacksPub, Table.remove_eq_some, and_comm]
  · rw [hgone, ← and_assoc, ← h.subscribed, forget_subscriptions, Directory.subscribed_dropClient]
  · rw [hgone, ← and_assoc, ← h.owner, forget_subscriptions, Directory.getOwner_dropClient]
    split_ifs with ho
    · rw [ho]
      refine iff_of_false (by simp) ?_
      rintro ⟨hk, hne⟩
      exact hne (Option.some.inj hk).symm
    · refine (and_iff_left_of_imp ?_).symm
      rintro hk rfl
      exact ho hk
  · obtain ⟨topics, hsent, hnodup, hmem⟩ := h.sent
    have hlast := h.mem_dropClient hg
    refine ⟨topics ++ (s.core.subscriptions.dropClient k).1, ?_, ?_, fun t => ?_⟩
    · rw [List.map_append, List.map_append, hl, ← hsent]
      rfl
    · refine hnodup.append (Directory.nodup_dropClient h.sound) (List.disjoint_left.mpr ?_)
      intro t ht hdrop
      obtain ⟨hsub, hnot, -⟩ := (hlast t).mp hdrop
      exact hnot (((hmem t).mp ht).2 k hsub)
    · rw [List.mem_append, hmem, hlast]
      constructor
      · rintro (⟨hex, hall⟩ | ⟨hsub, -, hall⟩)
        · exact ⟨hex, fun k' hk' => ⟨List.mem_append_left _ (hall k' hk').1, (hall k' hk').2⟩⟩
        · exact ⟨⟨k, hsub⟩, hall⟩
      · rintro ⟨hex, hall⟩
        by_cases hk : core.subscriptions.Subscribed k t ∧ ¬ (k ∈ done ∧ core.Gone env k)
        · exact Or.inr ⟨hk.1, hk.2, hall⟩
        · refine Or.inl ⟨hex, fun k' hk' => ?_⟩
          by_contra hnot
          have hne : k' ≠ k := by
            rintro rfl
            exact hk ⟨hk', hnot⟩
          exact (hgone k').mpr ⟨hnot, hne⟩ (hall k' hk')

/-- **One id of the loop.** -/
theorem Fanned.step {done : List MsgId} {k : MsgId} {c : Callback}
    (h : Fanned env payload core done s) (htr : env.Reliable) (hk : k ∉ done)
    (hc : core.callbacksPub k = some c) : ∃ s', Fanned env payload core (done ++ [k]) s' ∧
      ∀ rest, pubLoop env payload (k :: rest) s = pubLoop env payload rest s' := by
  have hs : s.core.callbacksPub k = some c := (h.callbacksPub k c).mpr ⟨hc, fun hd => hk hd.1⟩
  cases ho : env.isOpen c with
  | true =>
    refine ⟨_, h.call hk hc ho, fun rest => ?_⟩
    rw [pubLoop, hs]
    exact if_pos ho
  | false =>
    obtain ⟨s', hcl, hs'⟩ := h.cleanup htr ⟨c, hc, ho⟩
    refine ⟨s', hs', fun rest => ?_⟩
    rw [pubLoop, hs]
    simp only [ho, hcl, Bool.false_eq_true, if_false]

/-- **The loop comes through all ids** if their callbacks are there at first. -/
theorem pubLoop_fanned {done rest : List MsgId} (h : Fanned env payload core done s)
    (htr : env.Reliable) (hnodup : (done ++ rest).Nodup)
    (hreg : ∀ k ∈ rest, (core.callbacksPub k).isSome) :
    ∃ s', pubLoop env payload rest s = (.ok (), s') ∧ Fanned env payload core (done ++ rest) s' := by
  induction rest generalizing done s with
  | nil => exact ⟨s, rfl, by rwa [List.append_nil]⟩
  | cons k rest ih =>
    obtain ⟨hk, hreg⟩ := List.forall_mem_cons.mp hreg
    obtain ⟨c, hc⟩ := Option.isSome_iff_exists.mp hk
    have hnot : k ∉ done := fun hm =>
      (List.disjoint_of_nodup_append hnodup) hm List.mem_cons_self
    obtain ⟨s₁, h₁, hloop⟩ := h.step htr hnot hc
    rw [List.append_cons] at hnodup ⊢
    rw [hloop]
    exact ih h₁ hnodup hreg

/-! ## A publication -/

/-- What `after_receive` makes of a publication. -/
structure FansOut (env : ClientEnv) (payload : PubMsg) (core : ClientCore) (s : ClientExec) : Prop where
  /-- An open callback of a subscription that matches gets the publication once, -/
  once : ∀ k c, core.Matches payload.topic k → core.callbacksPub k = some c → env.isOpen c = true →
    s.calls.count (.pub c payload) = 1
  /-- and nothing else is put into a callback. -/
  only : ∀ call ∈ s.calls, ∃ k c, call = .pub c payload ∧ core.Matches payload.topic k ∧
    core.callbacksPub k = some c ∧ env.isOpen c = true
  callbacksPub : ∀ k c, s.core.callbacksPub k = some c ↔
    core.callbacksPub k = some c ∧ ¬ (core.Matches payload.topic k ∧ core.Gone env k)
  subscribed : ∀ k t, s.core.subscriptions.Subscribed k t ↔
    core.subscriptions.Subscribed k t ∧ ¬ (core.Matches payload.topic k ∧ core.Gone env k)
  owner : ∀ t k, s.core.subscriptions.getOwner t = some k ↔
    core.subscriptions.getOwner t = some k ∧ ¬ (core.Matches payload.topic k ∧ core.Gone env k)
  /-- The messages are Unsubs, one for each topic whose local subscribers were all gone and matched. -/
  sent : ∃ topics : List Topic, s.sent.map Msg.content = topics.map (fun t => .unsub ⟨t⟩) ∧
    topics.Nodup ∧ ∀ t, t ∈ topics ↔ (∃ k, core.subscriptions.Subscribed k t) ∧
      ∀ k, core.subscriptions.Subscribed k t → core.Matches payload.topic k ∧ core.Gone env k
  keyed : s.core.Keyed

/-- What is left is in order if it was before. -/
theorem keyed_of_removed {P : MsgId → Prop} (h : core.Keyed)
    (hcallbacks : ∀ k c, s.core.callbacksPub k = some c ↔ core.callbacksPub k = some c ∧ ¬ P k)
    (hsubs : ∀ k t, s.core.subscriptions.Subscribed k t ↔
      core.subscriptions.Subscribed k t ∧ ¬ P k) : s.core.Keyed := by
  intro k
  have hk := h k
  rw [Option.isSome_iff_exists] at hk ⊢
  simp only [hcallbacks, hsubs, exists_and_right, hk]

/-- **A publication fans out** from a core whose tables are in order. -/
theorem afterReceive_fansOut (htr : env.Reliable) (hv : payload.topic.Valid)
    (hd : core.subscriptions.Sound) (hkeyed : core.Keyed)
    (hinj : ∀ k k' c, core.callbacksPub k = some c → core.callbacksPub k' = some c → k = k')
    (id : MsgId) : ∃ s, afterReceive env ⟨id, .pub payload⟩ (.start core) = (.ok (), s) ∧
      FansOut env payload core s := by
  have hmem : ∀ k, k ∈ env.order.arrange (core.subscriptions.getSubscribers payload.topic) ↔
      core.Matches payload.topic k :=
    fun k => (env.order.perm _).mem_iff.trans (Directory.mem_getSubscribers hd hv)
  have hnodup : (env.order.arrange (core.subscriptions.getSubscribers payload.topic)).Nodup :=
    (env.order.perm _).nodup_iff.mpr (Directory.nodup_getSubscribers _ _)
  have hreg : ∀ k ∈ env.order.arrange (core.subscriptions.getSubscribers payload.topic),
      (core.callbacksPub k).isSome := by
    intro k hk
    obtain ⟨t, ht, -⟩ := (hmem k).mp hk
    exact (hkeyed k).mpr ⟨t, ht⟩
  have hstart : Fanned env payload core [] (.start core) := fanned_start hd
  obtain ⟨s, hloop, hf⟩ := pubLoop_fanned hstart htr hnodup hreg
  rw [List.nil_append] at hf
  have hcallbacks := hf.callbacksPub
  have hsubs := hf.subscribed
  have howner := hf.owner
  have hsent := hf.sent
  simp only [hmem] at hcallbacks hsubs howner hsent
  obtain ⟨l, hcalls, hl, hx⟩ := hf.calls
  refine ⟨s, hloop, fun k c hk hc ho => ?_, fun call hcall => ?_, hcallbacks, hsubs, howner, hsent,
    keyed_of_removed hkeyed hcallbacks hsubs⟩
  · have hkc : (k, c) ∈ l := (hx (k, c)).mpr ⟨(hmem k).mpr hk, hc, ho⟩
    rw [hcalls]
    refine List.count_eq_one_of_mem ?_ (List.mem_map_of_mem hkc)
    -- the callbacks differ because their ids do
    refine List.Nodup.map_on (fun x hm y hm' heq => ?_) hl.of_map
    have hcb : x.2 = y.2 := (Call.pub.inj heq).1
    exact Prod.ext (hinj x.1 y.1 y.2 (hcb ▸ ((hx x).mp hm).2.1) ((hx y).mp hm').2.1) hcb
  · rw [hcalls] at hcall
    obtain ⟨x, hm, rfl⟩ := List.mem_map.mp hcall
    obtain ⟨hd, hc, ho⟩ := (hx x).mp hm
    exact ⟨x.1, x.2, rfl, (hmem x.1).mp hd, hc, ho⟩

end ClientExec

/-! ## The states of a client -/

namespace ClientCore

variable {core core' : ClientCore}

theorem keyed_new : new.Keyed := fun k => iff_of_false (by simp [new])
  fun ⟨_, h⟩ => Directory.not_subscribed_new h

theorem Keyed.sends {msg : Msg ProtocolClient} (h : core.Keyed) (hs : core.Sends msg core') :
    core'.Keyed := by
  intro k
  simp only [hs.callbacksPub, hs.subscribed, exists_or, h k, exists_and_left]
  refine or_congr_right (and_congr_right fun _ => ?_)
  exact ⟨fun ⟨params, hp⟩ => ⟨params.topic, hp⟩, fun ⟨t, ht⟩ => ⟨⟨t⟩, ht⟩⟩

/-- The removal of a subscriber takes it from both tables. -/
theorem Keyed.forget {s : ClientExec} (h : s.core.Keyed) (k : MsgId) : (s.forget k).core.Keyed := by
  refine ClientExec.keyed_of_removed (P := (· = k)) h (fun k' c => ?_) fun k' t => ?_
  · rw [ClientExec.forget_callbacksPub, Table.remove_eq_some, and_comm]
  · exact Directory.subscribed_dropClient

end ClientCore

namespace Session

variable {s : Session}

/-- **In every state of a client the subscribers in the local directory are the keys of
`callbacks_pub`.** -/
theorem Reachable.keyed (h : Reachable s) : s.status = .running → s.core.Keyed := by
  refine Lts.Reachable.induct (I := fun s => s.status = .running → s.core.Keyed)
    (fun _ => ClientCore.keyed_new) (fun s act s' hs hi hstep hrun' => ?_) h
  obtain ⟨hrun, hq | ⟨event, order, transport, tasks, -, -, rfl⟩⟩ := quiet_or_turned hstep
  · rw [hq.core]
    exact hi hrun
  · have hi := hi hrun
    rw [turned_running] at hrun'
    rw [turned]
    rcases Turn.exec_ok hrun' with ⟨task, msg, -, hb, -⟩ | ⟨msg, -, hrecv⟩
    · exact hi.sends (ClientCore.sends_of_beforeSend hb).1
    · rcases ClientExec.afterReceive_ok hrecv with ⟨-, ⟨acks, hcore⟩, -⟩ | ⟨-, payload, -, hcore⟩ |
        ⟨payload, -, hloop⟩
      · rw [hcore]
        exact hi
      · rw [hcore]
        exact hi
      · refine ClientExec.pubLoop_induct (P := fun s => s.core.Keyed) (fun s c h => h)
          (fun s s' k callback _ _ _ hcl h => ?_) hloop hi
        exact ClientExec.unsubscribeAll_induct (P := fun s => s.core.Keyed) (fun s t _ h => h) hcl
          (h.forget k)

/-- **A publication that a client receives goes once into every open callback that matches; those whose
receiver is gone are removed, and an Unsub is sent for every topic that this leaves without local
subscriber.** -/
theorem Reachable.fans_out (h : Reachable s) (hrun : s.status = .running) {env : ClientEnv}
    (htr : env.Reliable) {payload : PubMsg} (hv : payload.topic.Valid) (id : MsgId) :
    ∃ s', ClientExec.afterReceive env ⟨id, .pub payload⟩ (.start s.core) = (.ok (), s') ∧
      ClientExec.FansOut env payload s.core s' :=
  ClientExec.afterReceive_fansOut htr hv (h.tables hrun).sound (h.keyed hrun)
    (h.numbered.injective .pub) id

/-- The receiver of the first call is gone. -/
def hungUp : ClientEnv := ⟨fun c => decide (c ≠ 0), .given, fun _ => .ok ()⟩

/-- Of two subscriptions that match, the receiver of the first one is gone. -/
theorem fans_out_hungUp : ∃ s, Lts.run step init overlapping = some s ∧
    ∃ s', ClientExec.afterReceive hungUp ⟨4, .pub note⟩ (.start s.core) = (.ok (), s') ∧
      ClientExec.FansOut hungUp note s.core s' ∧
      s'.calls = [.pub 1 note] ∧ s'.sent = [⟨3, .unsub ⟨served⟩⟩] := by
  have hrun : ((Lts.run step init overlapping).map fun s => (s.status,
      (ClientExec.afterReceive hungUp ⟨4, .pub note⟩ (.start s.core)).2.calls,
      (ClientExec.afterReceive hungUp ⟨4, .pub note⟩ (.start s.core)).2.sent)) =
      some (.running, [.pub 1 note], [⟨3, .unsub ⟨served⟩⟩]) := by decide +kernel
  obtain ⟨s, hs, he⟩ := Option.map_eq_some_iff.mp hrun
  obtain ⟨hstatus, hcalls, hsent⟩ := by simpa only [Prod.mk.injEq] using he
  have htr : hungUp.Reliable := fun _ => rfl
  obtain ⟨s', hok, hf⟩ := Reachable.fans_out ⟨_, hs⟩ hstatus htr (show note.topic.Valid by decide) 4
  rw [hok] at hcalls hsent
  exact ⟨s, hs, s', hok, hf, hcalls, hsent⟩

end Session

end T2Bus
