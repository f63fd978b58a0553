import T2Bus.Server.Acknowledged
import T2Bus.Server.Published
import T2Bus.Server.Registry

/-!
# The publications for a client

What goes into the channel of a client that is served are the publications for which the loop of
`publish` comes to it. If everybody is reached, these are the publications that the client has asked for.

* `Core.Gets`, `Record.pubFor`: the loop comes to the client; `Record.pubsOn_eq`;
* **`System.Reachable.delivers`**: the publications in the channel of a client;
* `Owed`, `pubsOwed`: what the messages of a client ask for;
  **`System.Reachable.pubsFor_eq`**: what it gets, if everybody is reached.
-/

namespace T2Bus

namespace Core

variable {core : Core} {env : Env} {c : ClientId} {t : Topic}

/-- The loop of `publish` comes to the client: it is subscribed, and those before it are reached. -/
structure Gets (core : Core) (env : Env) (c : ClientId) (t : Topic) : Prop where
  matching : core.Matching c t
  before : ∀ d ∈ (core.subscribers env t).takeWhile (· ≠ c), d ≠ 0 ∧ (core.reach env d).isSome

/-- The clients that the loop comes to. -/
theorem mem_attempts {ids : List ClientId} (hc : c ≠ 0) : c ∈ core.attempts env ids ↔
    c ∈ ids ∧ ∀ d ∈ ids.takeWhile (· ≠ c), d ≠ 0 ∧ (core.reach env d).isSome := by
  induction ids with
  | nil => simp [attempts]
  | cons d ids ih =>
    by_cases hd : d = c
    · subst hd
      have hmem : d ∈ core.attempts env (d :: ids) := by
        rw [attempts, if_neg hc]
        split_ifs
        · exact List.mem_cons_self
        · exact List.mem_singleton_self d
      refine iff_of_true hmem ⟨List.mem_cons_self, ?_⟩
      simp
    · have htake : (d :: ids).takeWhile (· ≠ c) = d :: ids.takeWhile (· ≠ c) :=
        List.takeWhile_cons_of_pos (by simpa using hd)
      have hmem : c ∈ d :: ids ↔ c ∈ ids := by
        rw [List.mem_cons, or_iff_right (Ne.symm hd)]
      rw [htake, List.forall_mem_cons, hmem, and_left_comm, ← ih, attempts]
      by_cases h₀ : d = 0
      · simp [h₀]
      · cases hr : core.reach env d with
        | none => simp [h₀, Ne.symm hd]
        | some conn => simp [h₀, Ne.symm hd]

/-- If everybody is reached, every subscriber gets the publication. -/
theorem AllReached.gets_iff (hd : core.directory.Sound) (ht : t.Valid) (h : core.AllReached env t) :
    core.Gets env c t ↔ core.Matching c t := by
  refine ⟨Gets.matching, fun hm => ⟨hm, fun d hd' => ?_⟩⟩
  obtain ⟨h₀, conn, hr⟩ := h d ((mem_subscribers hd ht).mp ((List.takeWhile_prefix _).subset hd'))
  exact ⟨h₀, by rw [hr]; rfl⟩

end Core

namespace Record

variable {r : Record} {conn : Conn} {c : ClientId}

/-- The publications that a Pub task puts into a channel. -/
theorem pubsOn_pub {params : PubMsg} (hp : r.task.pub? = some params) :
    pubsOn r.exec.2.out conn =
      List.replicate (((r.core.attempts r.env (r.core.subscribers r.env params.topic)).filterMap
        (r.core.reach r.env)).count conn) params := by
  obtain ⟨d, id, ht⟩ := Task.pub_eq_some.mp hp
  obtain ⟨acks, heq, -⟩ := Exec.processTask_eq r.env r.task r.core
  have hout : r.exec.2.out = r.core.deliveries r.env
      ((r.core.attempts r.env (r.core.subscribers r.env params.topic)).map
        (fun d => (d, .pub params)) ++ acks.map fun a => (a.1, .ack a.2)) := by
    rw [exec, heq, ht]
    rfl
  have hacks : ∀ core : Core, (core.deliveries r.env
      (acks.map fun a => (a.1, .ack a.2))).filterMap Delivery.pub? = [] := by
    intro core
    refine List.filterMap_eq_nil_iff.mpr fun d hd => ?_
    obtain ⟨a, -, ha⟩ := List.mem_map.mp (Core.mem_deliveries hd).1
    have hack : d.msg.content = .ack a.2 := (congrArg Prod.snd ha).symm
    rw [Delivery.pub?, hack]
    cases d.conn <;> rfl
  refine Core.pubsOn_eq ?_ conn
  rw [hout, Core.deliveries_append, List.filterMap_append, hacks, List.append_nil,
    Core.filterMap_pub_deliveries]

open Classical in
/-- The publication that the task has for the client. -/
noncomputable def pubFor (r : Record) (c : ClientId) : Option PubMsg :=
  r.task.pub?.filter fun params => r.core.Gets r.env c params.topic

theorem pubFor_eq_some {params : PubMsg} : r.pubFor c = some params ↔
    r.task.pub? = some params ∧ r.core.Gets r.env c params.topic := by
  classical
  rw [pubFor, Option.filter_eq_some_iff, decide_eq_true_iff]

/-- A Pub task that does not come to the client has nothing for it. -/
theorem pubFor_eq_none {params : PubMsg} (hp : r.task.pub? = some params)
    (hg : ¬ r.core.Gets r.env c params.topic) : r.pubFor c = none := by
  refine Option.eq_none_iff_forall_ne_some.mpr fun params' h => ?_
  obtain ⟨hp', hg'⟩ := pubFor_eq_some.mp h
  cases hp.symm.trans hp'
  exact hg hg'

/-- **What a task puts into the channel of a client** is what it has for the client. -/
theorem pubsOn_eq (hd : r.core.directory.Sound)
    (hv : ∀ params, r.task.pub? = some params → params.topic.Valid) (hc : c ≠ 0)
    (hinj : ∀ d d' conn, r.core.protocolServerSenders d = some conn →
      r.core.protocolServerSenders d' = some conn → d = d')
    (hreach : ∀ d, r.core.reach r.env d = some conn ↔ d = c) :
    pubsOn r.exec.2.out conn = (r.pubFor c).toList := by
  cases hp : r.task.pub? with
  | none =>
    have hsub : (pubsOn r.exec.2.out conn).Sublist r.task.pub?.toList := pubsOn_out hinj
    rw [hp] at hsub
    rw [pubFor, hp, List.eq_nil_of_sublist_nil hsub]
    rfl
  | some params =>
    have hcount : ((r.core.attempts r.env (r.core.subscribers r.env params.topic)).filterMap
        (r.core.reach r.env)).count conn =
          (r.core.attempts r.env (r.core.subscribers r.env params.topic)).count c := by
      rw [List.count_filterMap, List.count]
      refine List.countP_congr fun d _ => ?_
      simp [hreach]
    have hgets : r.core.Gets r.env c params.topic ↔
        c ∈ r.core.attempts r.env (r.core.subscribers r.env params.topic) := by
      rw [Core.mem_attempts hc, Core.mem_subscribers hd (hv params hp)]
      exact ⟨fun h => ⟨h.matching, h.before⟩, fun h => ⟨h.1, h.2⟩⟩
    have hnodup : (r.core.attempts r.env (r.core.subscribers r.env params.topic)).Nodup :=
      (Core.nodup_subscribers params.topic).sublist Exec.attempts_sublist
    rw [pubsOn_pub hp, hcount]
    by_cases hg : r.core.Gets r.env c params.topic
    · rw [List.count_eq_one_of_mem hnodup (hgets.mp hg), pubFor_eq_some.mpr ⟨hp, hg⟩]
      rfl
    · rw [List.count_eq_zero_of_not_mem fun hm => hg (hgets.mpr hm), pubFor_eq_none hp hg]
      rfl

end Record

/-- The publications of a log that are for the client. -/
noncomputable def pubsFor (c : ClientId) (log : List Record) : List PubMsg :=
  log.filterMap fun r => r.pubFor c

namespace System

variable {s : System} {conn : Conn} {c : ClientId}

/-! ## The log of a client that is served -/

/-- **The rule for the records of a client that is served**: what holds of a task that is processed while
the client is served, and of one that was processed before the client has sent anything. -/
theorem Reachable.of_served {P : Conn → ClientId → List Record → Record → Prop}
    (hnew : ∀ conn c log r, c ≠ 0 → messagesOf c log = [] → r.outOn conn = [] →
      FoundedOn r.core.directory log → P conn c log r)
    (hserved : ∀ s conn c order task tasks, Reachable s → s.status = .running →
      registrations s.log < 2 ^ 32 → s.tasks = task :: tasks → s.stubs conn = .serving c →
        P conn c s.log (s.record order task)) (h : Reachable s) :
    s.status = .running → registrations s.log < 2 ^ 32 → ∀ conn c, s.stubs conn = .serving c →
      ∀ i r, s.log[i]? = some r → P conn c (s.log.take i) r := by
  refine Lts.Reachable.induct (I := fun s => s.status = .running → registrations s.log < 2 ^ 32 →
    ∀ conn c, s.stubs conn = .serving c → ∀ i r, s.log[i]? = some r → P conn c (s.log.take i) r)
    (fun _ _ conn c hc => by cases hc) (fun s act s' hs hi hstep hrun hreg conn c hc i r hr => ?_) h
  have hs' : Reachable s' := Lts.Reachable.tail hs hstep
  have hle : registrations s.log < 2 ^ 32 := (registrations_le hstep).trans_lt hreg
  obtain ⟨hrun', hq | ⟨order, task, tasks, ht, rfl⟩⟩ := quiet_or_processed hstep
  · rw [hq.log] at hr ⊢
    exact hi hrun' hle conn c (hq.serving conn c hc) i r hr
  · have hzero : c ≠ 0 := hs'.client_ne_zero hreg (by rw [hc]; rfl)
    have hfounded := (Reachable.founded hs' hrun).past i r hr
    rw [processed_stubs] at hc
    split_ifs at hc with hr'
    · -- the client is registered now: it has sent nothing, and its channel is empty
      have hr' : task = .register conn := hr'
      cases hc
      subst hr'
      rw [registrations_processed rfl] at hreg
      have hacc : s.stubs conn = .accepted := (Reachable.conns hs).queued conn (by
        rw [ht, registers_cons]
        exact List.mem_append_left _ (by simp [Task.register?]))
      have hnil : outOn (s.processed tasks (s.record order (.register conn))).log conn = [] := by
        rw [System.processed, outOn, List.flatMap_append, ← outOn,
          Reachable.outOn_eq_nil hs (by rw [hacc]; rfl)]
        rfl
      have hmsgs : messagesOf s.core.nextClientId
          (s.processed tasks (s.record order (.register conn))).log = [] := by
        rw [System.processed, messagesOf_concat, (Reachable.messagesOf_next hs hreg).1]
        rfl
      refine hnew conn _ _ r hzero ?_ (List.flatMap_eq_nil_iff.mp hnil r (List.mem_of_getElem? hr))
        hfounded
      exact List.eq_nil_of_sublist_nil (hmsgs ▸ (List.take_sublist i _).filterMap _)
    · rcases getElem?_concat_iff.mp hr with hr | ⟨rfl, rfl⟩
      · rw [System.processed, List.take_append_of_le_length (lt_of_getElem? hr).le]
        exact hi hrun' hle conn c hc i r hr
      · rw [System.processed, List.take_left]
        exact hserved s conn c order task tasks hs hrun' hle ht hc

/-- The directory that a task finds is sound, and its topic is valid. -/
theorem Reachable.record_valid (h : Reachable s) {r : Record} (hr : r ∈ s.log) :
    r.core.directory.Sound ∧ ∀ params, r.task.pub? = some params → params.topic.Valid := by
  refine Lts.invariant (I := fun s => Reachable s ∧ ∀ r ∈ s.log, r.core.directory.Sound ∧
    ∀ params, r.task.pub? = some params → params.topic.Valid) ⟨Lts.Reachable.refl _, fun r hr => ?_⟩
    (fun s act s' hi hstep => ⟨hi.1.tail hstep, ?_⟩) h |>.2 r hr
  · cases hr
  · obtain ⟨-, hq | ⟨order, task, tasks, ht, rfl⟩⟩ := quiet_or_processed hstep
    · rw [hq.log]
      exact hi.2
    · refine List.forall_mem_append.mpr ⟨hi.2, List.forall_mem_singleton.mpr
        ⟨hi.1.valid.sound, fun params hp => ?_⟩⟩
      obtain ⟨d, id, htask⟩ := Task.pub_eq_some.mp hp
      have htask : task = .message d ⟨id, .pub params⟩ := htask
      exact hi.1.valid.tasks d _ (by rw [ht, htask]; exact List.mem_cons_self) _ rfl

/-- **The subscriptions of a client that is served, before each task**: those that its messages before
the task leave. -/
theorem Reachable.subscribed_past (h : Reachable s) (hrun : s.status = .running)
    (hreg : registrations s.log < 2 ^ 32) (hc : s.stubs conn = .serving c) {i : ℕ} {r : Record}
    (hr : s.log[i]? = some r) (t : Topic) :
    r.core.directory.Subscribed c t ↔ subbed t (messagesOf c (s.log.take i)) = true := by
  refine h.of_served (P := fun _ c log r => ∀ t, r.core.directory.Subscribed c t ↔
    subbed t (messagesOf c log) = true) (fun _ c log r hzero hmsgs _ hfounded t => ?_)
    (fun s conn c order task tasks hs hrun hreg _ hc t => ?_) hrun hreg conn c hc i r hr t
  · refine ⟨fun ht => (hfounded.subscribed c t ht).resolve_left fun h₀ => hzero h₀.1, fun ht => ?_⟩
    rw [hmsgs] at ht
    cases ht
  · exact hs.subscribed_iff hrun hreg ((hs.served hrun hreg).sender conn c hc) t

/-- **A task puts into the channel of a client that is served what it has for the client.** -/
theorem Reachable.delivers (h : Reachable s) (hrun : s.status = .running)
    (hreg : registrations s.log < 2 ^ 32) (hc : s.stubs conn = .serving c) {r : Record}
    (hr : r ∈ s.log) : (r.outOn conn).filterMap (fun msg => msg.content.pub?) = (r.pubFor c).toList := by
  obtain ⟨i, hi⟩ := List.mem_iff_getElem?.mp hr
  refine h.of_served (P := fun conn c _ r => (r.outOn conn).filterMap (fun msg => msg.content.pub?) =
    (r.pubFor c).toList) (fun conn c log r hzero hmsgs hout hfounded => ?_)
    (fun s conn c order task tasks hs hrun hreg ht hc => ?_) hrun hreg conn c hc i r hi
  · have hnone : r.pubFor c = none := by
      refine Option.eq_none_iff_forall_ne_some.mpr fun params hp => ?_
      obtain ⟨u, hu, -⟩ := (Record.pubFor_eq_some.mp hp).2.matching
      have hsub := (hfounded.subscribed c u hu).resolve_left fun h₀ => hzero h₀.1
      rw [hmsgs] at hsub
      cases hsub
    rw [hout, hnone]
    rfl
  · rw [filterMap_outOn]
    refine Record.pubsOn_eq hs.valid.sound (fun params hp => ?_)
      (hs.client_ne_zero hreg (by rw [hc]; rfl)) (fun _ _ _ => hs.conns.senders_injective)
      (hs.reach_iff hrun hreg hc order)
    obtain ⟨d, id, htask⟩ := Task.pub_eq_some.mp hp
    have htask : task = .message d ⟨id, .pub params⟩ := htask
    exact hs.valid.tasks d _ (by rw [ht, htask]; exact List.mem_cons_self) _ rfl

/-- **The publications in the channel of a client that is served** are those that the tasks have for
it. -/
theorem Reachable.pubs_outOn (h : Reachable s) (hrun : s.status = .running)
    (hreg : registrations s.log < 2 ^ 32) (hc : s.stubs conn = .serving c) {log : List Record}
    (hlog : log ⊆ s.log) :
    (outOn log conn).filterMap (fun msg => msg.content.pub?) = pubsFor c log := by
  rw [outOn, List.filterMap_flatMap, pubsFor, List.filterMap_eq_flatMap_toList]
  exact List.flatMap_congr fun r hr => h.delivers hrun hreg hc (hlog hr)

end System

/-! ## What a client has asked for -/

/-- The messages of a client ask for a publication: its topic matches a subscription that they leave. -/
def Owed (msgs : List (Msg ProtocolClient)) (t : Topic) : Prop :=
  ∃ u, subbed u msgs = true ∧ u.Overlaps t

open Classical in
/-- The publications that the client has asked for, as the messages before them leave it. -/
noncomputable def pubsOwed (c : ClientId) (log : List Record) : List PubMsg :=
  log.zipIdx.filterMap fun x => x.1.task.pub?.filter fun params =>
    Owed (messagesOf c (log.take x.2)) params.topic

open Classical in
/-- The publications that a topic matches. -/
noncomputable def pubsMatching (t : Topic) (pubs : List PubMsg) : List PubMsg :=
  pubs.filter fun params => t.Overlaps params.topic

theorem pubsMatching_append (t : Topic) (pubs pubs' : List PubMsg) :
    pubsMatching t (pubs ++ pubs') = pubsMatching t pubs ++ pubsMatching t pubs' := by
  classical
  exact List.filter_append pubs pubs'

theorem pubsMatching_eq_self {t : Topic} {pubs : List PubMsg}
    (h : ∀ params ∈ pubs, t.Overlaps params.topic) : pubsMatching t pubs = pubs := by
  classical
  exact List.filter_eq_self.mpr fun params hp => decide_eq_true (h params hp)

theorem pubsMatching_eq_nil {t : Topic} {pubs : List PubMsg}
    (h : ∀ params ∈ pubs, ¬ t.Overlaps params.topic) : pubsMatching t pubs = [] := by
  classical
  exact List.filter_eq_nil_iff.mpr fun params hp ho => h params hp (of_decide_eq_true ho)

/-- Everybody is reached whenever a publication for the client is processed. -/
def ReachesAll (c : ClientId) (log : List Record) : Prop :=
  ∀ r ∈ log, ∀ params, r.task.pub? = some params → r.core.Matching c params.topic →
    r.core.AllReached r.env params.topic

namespace System

variable {s : System} {conn : Conn} {c : ClientId}

/-- A task that reaches everybody comes to a client that is served exactly if the client has asked for
it. -/
theorem Reachable.gets_iff (h : Reachable s) (hrun : s.status = .running)
    (hreg : registrations s.log < 2 ^ 32) (hc : s.stubs conn = .serving c) {i : ℕ} {r : Record}
    (hr : s.log[i]? = some r) {params : PubMsg} (hp : r.task.pub? = some params)
    (hall : r.core.Matching c params.topic → r.core.AllReached r.env params.topic) :
    r.core.Gets r.env c params.topic ↔ Owed (messagesOf c (s.log.take i)) params.topic := by
  have hmatching : r.core.Matching c params.topic ↔
      Owed (messagesOf c (s.log.take i)) params.topic :=
    exists_congr fun u => and_congr_left fun _ => h.subscribed_past hrun hreg hc hr u
  rw [← hmatching]
  refine ⟨Core.Gets.matching, fun hm => ?_⟩
  obtain ⟨hsound, hvalid⟩ := h.record_valid (List.mem_of_getElem? hr)
  exact ((hall hm).gets_iff hsound (hvalid params hp)).mpr hm

/-- **If everybody is reached, a client that is served gets what it has asked for.** -/
theorem Reachable.pubsFor_eq (h : Reachable s) (hrun : s.status = .running)
    (hreg : registrations s.log < 2 ^ 32) (hc : s.stubs conn = .serving c)
    (hall : ReachesAll c s.log) : pubsFor c s.log = pubsOwed c s.log := by
  have hzip : s.log = s.log.zipIdx.map Prod.fst := (List.zipIdx_map_fst 0 s.log).symm
  rw [pubsFor, pubsOwed]
  nth_rewrite 1 [hzip]
  rw [List.filterMap_map]
  refine List.filterMap_congr fun x hx => ?_
  have hr : s.log[x.2]? = some x.1 := List.mem_zipIdx_iff_getElem?.mp hx
  rw [Function.comp_apply, Record.pubFor]
  cases hp : x.1.task.pub? with
  | none => rfl
  | some params =>
    have hgets := h.gets_iff hrun hreg hc hr hp (hall x.1 (List.mem_of_getElem? hr) params hp)
    rw [Option.filter_some, Option.filter_some, decide_eq_decide.mpr hgets]

/-- A subscription stays until its Unsub. -/
theorem subbed_append {t : Topic} {msgs rest : List (Msg ProtocolClient)} (h : subbed t msgs = true)
    (hno : ∀ m ∈ rest, m.content ≠ .unsub ⟨t⟩) : subbed t (msgs ++ rest) = true := by
  induction rest generalizing msgs with
  | nil => rwa [List.append_nil]
  | cons m rest ih =>
    obtain ⟨hm, hrest⟩ := List.forall_mem_cons.mp hno
    rw [List.append_cons]
    exact ih (subbed_concat_of_ne h hm) hrest

/-- **A client that has subscribed to a topic and has sent no Unsub gets every publication that the topic
matches**, if everybody is reached. -/
theorem Reachable.pubsMatching_eq (h : Reachable s) (hrun : s.status = .running)
    (hreg : registrations s.log < 2 ^ 32) (hc : s.stubs conn = .serving c) {l₁ l₂ : List Record}
    {r₀ : Record} (hlog : s.log = l₁ ++ r₀ :: l₂) {id : MsgId} {t : Topic}
    (ht : r₀.task = .message c ⟨id, .sub ⟨t⟩⟩) (hno : ∀ m ∈ messagesOf c l₂, m.content ≠ .unsub ⟨t⟩)
    (hall : ∀ r ∈ l₂, ∀ params, r.task.pub? = some params → t.Overlaps params.topic →
      r.core.AllReached r.env params.topic) :
    pubsMatching t (pubsFor c l₂) = pubsMatching t (l₂.filterMap fun r => r.task.pub?) := by
  classical
  rw [pubsMatching, pubsMatching, pubsFor, List.filter_filterMap, List.filter_filterMap]
  refine List.filterMap_congr fun r hr => ?_
  cases hp : r.task.pub? with
  | none => rw [Record.pubFor, hp, Option.filter_none]
  | some params =>
    by_cases hover : t.Overlaps params.topic
    · -- the subscription is there when the task is processed
      obtain ⟨l, l', rfl⟩ := List.append_of_mem hr
      have hsplit : s.log = (l₁ ++ r₀ :: l) ++ r :: l' := by
        rw [hlog, List.append_assoc, List.cons_append]
      have hi : s.log[(l₁ ++ r₀ :: l).length]? = some r := by
        rw [hsplit, List.getElem?_append_right le_rfl, Nat.sub_self]
        rfl
      have hsub : subbed t (messagesOf c (s.log.take (l₁ ++ r₀ :: l).length)) = true := by
        have hfrom : r₀.task.from? c = some ⟨id, .sub ⟨t⟩⟩ := from?_eq_some.mpr ht
        rw [hsplit, List.take_left, List.append_cons, messagesOf, List.filterMap_append, ← messagesOf,
          messagesOf_concat, hfrom, Option.toList_some]
        refine subbed_append ?_ fun m hm => hno m ((List.sublist_append_left _ _).filterMap _ |>.subset hm)
        rw [subbed_concat]
        simp [subscribesTo]
      have hgets := h.gets_iff hrun hreg hc hi hp fun _ => hall r hr params hp hover
      rw [Record.pubFor_eq_some.mpr ⟨hp, hgets.mpr ⟨t, hsub, hover⟩⟩]
    · have hnone : ∀ o : Option PubMsg, (∀ x, o = some x → x = params) →
          ∀ x, o = some x → ¬ (decide (t.Overlaps x.topic) = true) := by
        intro o ho x hx hd
        rw [ho x hx] at hd
        exact hover (of_decide_eq_true hd)
      rw [Option.filter_eq_none_iff.mpr (hnone _ fun x hx => ?_),
        Option.filter_eq_none_iff.mpr (hnone _ fun x hx => (Option.some.inj hx).symm)]
      exact Option.some.inj ((Record.pubFor_eq_some.mp hx).1.symm.trans hp)

end System

end T2Bus
