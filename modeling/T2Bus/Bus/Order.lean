import T2Bus.Client.Issued
import T2Bus.Bus.Lookups

/-!
# The order of the publications

Every queue between the application that publishes and the one that has subscribed keeps the order, and
a publication goes into a channel and into a callback at most once. So what goes into the callback of a
subscription is a subsequence of the Pub tasks, as the core of the server has processed them.

* `Bus.handed`: the publications that went into a callback, with the places of their Pub tasks in the
  log of the server;
* `Bus.pubTasksFrom`, `issued`: the Pub tasks of a connection, and the publications that its application
  has issued;
* `Bus.Ordered`; **`Bus.publications_ordered`**.
-/

namespace T2Bus

/-- The turns that have received a message. -/
def Session.receipts (log : List Turn) : List Turn := log.filter fun r => r.received?.isSome

/-- The messages that were processed, with their places in the log. -/
def messageTasks (log : List Record) : List (ℕ × Msg ProtocolClient) :=
  log.zipIdx.filterMap fun x => x.1.task.message?.map fun m => (x.2, m.2)

namespace Bus

/-- The publications that went into the callback of a call. The `i`-th message that the client has
received is the `i`-th one that went into its channel. -/
def handed (b : Bus) (conn : Conn) (call : Callback) : List (ℕ × PubMsg) :=
  ((Session.receipts (b.session conn).log).zip (placedOut b.server.log conn)).flatMap fun x =>
    (x.1.pubsTo call).map fun params => (x.2.1, params)

/-- The Pub tasks whose message came from a connection, with their places in the log. -/
def pubTasksFrom (b : Bus) (conn : Conn) : List (ℕ × PubMsg) :=
  (b.origins.zip (messageTasks b.server.log)).filterMap fun x =>
    if x.1 = conn then place x.2.1 x.2.2.content.pub? else none

/-- The publication that an action issues at a connection. -/
def Act.issues? (conn : Conn) : Act → Option PubMsg
  | .client conn' act => if conn' = conn then act.pub? else none
  | .server _ | .receive _ | .pass _ | .deliver _ _ _ => none

/-- The publications that an application has issued, in its order. -/
def issued (acts : List Act) (conn : Conn) : List PubMsg := acts.filterMap (Act.issues? conn)

/-- What goes into the callbacks of subscriptions is in the order of the Pub tasks at the server, and so
in the order in which each application has issued it. -/
structure Ordered (b : Bus) (acts : List Act) : Prop where
  /-- `handed` is all that went into the callback. -/
  handed : ∀ conn call, (b.handed conn call).map Prod.snd =
    (b.session conn).log.flatMap fun r => r.pubsTo call
  sublist : ∀ conn call, (b.handed conn call).Sublist (pubTasks b.server.log)
  nodup : ∀ conn call, ((b.handed conn call).map Prod.fst).Nodup
  agree : ∀ conn call conn' call' x y, x ∈ b.handed conn call → y ∈ b.handed conn call →
    x ∈ b.handed conn' call' → y ∈ b.handed conn' call' →
      ([x, y].Sublist (b.handed conn call) ↔ [x, y].Sublist (b.handed conn' call'))
  origin : ∀ x ∈ pubTasks b.server.log, ∃ conn, x ∈ b.pubTasksFrom conn
  issued : ∀ conn, (b.pubTasksFrom conn).map Prod.snd <+: issued acts conn
  inOrder : ∀ source conn call, ((b.handed conn call).filter fun x =>
    decide (x ∈ b.pubTasksFrom source)).Sublist (b.pubTasksFrom source)

variable {b b' : Bus} {conn : Conn} {acts : List Act}

/-! ## What is handed over -/

/-- A turn that has received a message, and the message with its place. -/
def Receives (r : Turn) (x : ℕ × Msg ProtocolServer) : Prop := r.received? = some x.2

theorem pubsTo_of_not_received {r : Turn} (h : r.received? = none) (call : Callback) :
    r.pubsTo call = [] := by
  rw [Turn.pubsTo, Turn.calls_none h, List.filterMap_nil]

theorem flatMap_receipts (log : List Turn) (call : Callback) :
    ((Session.receipts log).flatMap fun r => r.pubsTo call) = log.flatMap fun r => r.pubsTo call := by
  induction log with
  | nil => rfl
  | cons r log ih =>
    rw [Session.receipts, List.filter_cons, List.flatMap_cons, ← ih]
    cases h : r.received? with
    | none =>
      rw [pubsTo_of_not_received h]
      rfl
    | some msg => rfl

theorem forall_receives {log : List Turn} {placed : List (ℕ × Msg ProtocolServer)}
    (h : Session.received log = placed.map Prod.snd) :
    List.Forall₂ Receives (Session.receipts log) placed := by
  induction log generalizing placed with
  | nil =>
    rw [List.map_eq_nil_iff.mp h.symm]
    exact .nil
  | cons r log ih =>
    rw [Session.received, List.filterMap_cons] at h
    rw [Session.receipts, List.filter_cons]
    cases hr : r.received? with
    | none =>
      rw [hr] at h
      exact ih h
    | some msg =>
      rw [hr] at h
      obtain ⟨x, placed, rfl, hx, hplaced⟩ := List.map_eq_cons_iff.mp h.symm
      exact .cons (hr.trans (congrArg some hx.symm)) (ih hplaced.symm)

/-- The turns that have received a message go with the first messages of the channel. -/
theorem Reachable.receives (h : Reachable b) (conn : Conn) : ∃ placed later,
    placedOut b.server.log conn = placed ++ later ∧
      List.Forall₂ Receives (Session.receipts (b.session conn).log) placed := by
  have hdown : Session.received (b.session conn).log <+: (placedOut b.server.log conn).map Prod.snd := by
    rw [map_snd_placedOut]
    exact (h.fifo.down conn).trans (List.take_prefix _ _)
  obtain ⟨placed, ⟨later, hplaced⟩, heq⟩ := List.prefix_map_iff.mp hdown
  exact ⟨placed, later, hplaced.symm, forall_receives heq⟩

/-- All that goes into a callback is handed over. -/
theorem map_handed {turns : List Turn} {placed : List (ℕ × Msg ProtocolServer)}
    (h : List.Forall₂ Receives turns placed) (later : List (ℕ × Msg ProtocolServer)) (call : Callback) :
    ((turns.zip (placed ++ later)).flatMap fun x =>
      (x.1.pubsTo call).map fun params => (x.2.1, params)).map Prod.snd =
      turns.flatMap fun r => r.pubsTo call := by
  induction h with
  | nil => rfl
  | cons _ _ ih =>
    rw [List.cons_append, List.zip_cons_cons, List.flatMap_cons, List.map_append, ih, List.map_map,
      List.flatMap_cons]
    exact congrArg (· ++ _) (List.map_id _)

/-- A turn hands over the publication that it has received, or nothing. -/
theorem handed_turn {r : Turn} {x : ℕ × Msg ProtocolServer} (hx : Receives r x)
    (hinj : ∀ k k' n, r.core.callbacksPub k = some n → r.core.callbacksPub k' = some n → k = k')
    (call : Callback) : ((r.pubsTo call).map fun params => (x.1, params)).Sublist
      (place x.1 x.2.content.pub?).toList := by
  rcases r.pubsTo_cases hinj call with hnil | ⟨id, payload, hevent, hpubs, -⟩
  · rw [hnil]
    exact List.nil_sublist _
  · have hmsg : x.2 = ⟨id, .pub payload⟩ := by
      have hr := Turn.received_eq_some.mpr hevent
      exact Option.some.inj (hx.symm.trans hr)
    rw [hpubs, hmsg]
    exact List.Sublist.refl _

theorem handed_sublist {turns : List Turn} {placed : List (ℕ × Msg ProtocolServer)}
    (h : List.Forall₂ Receives turns placed) (hinj : ∀ r ∈ turns, ∀ k k' n,
      r.core.callbacksPub k = some n → r.core.callbacksPub k' = some n → k = k')
    (later : List (ℕ × Msg ProtocolServer)) (call : Callback) :
    ((turns.zip (placed ++ later)).flatMap fun x =>
      (x.1.pubsTo call).map fun params => (x.2.1, params)).Sublist (placedPubs placed) := by
  induction h with
  | nil => exact List.nil_sublist _
  | @cons r x turns placed hx _ ih =>
    obtain ⟨hr, hturns⟩ := List.forall_mem_cons.mp hinj
    have hcons : placedPubs (x :: placed) =
        (place x.1 x.2.content.pub?).toList ++ placedPubs placed := by
      rw [placedPubs, List.filterMap_cons, placedPubs]
      cases place x.1 x.2.content.pub? <;> rfl
    rw [List.cons_append, List.zip_cons_cons, List.flatMap_cons, hcons]
    exact (handed_turn hx hr call).append (ih hturns)

/-- **What goes into a callback is a subsequence of the Pub tasks.** -/
theorem Reachable.handed_sublist (h : Reachable b) (conn : Conn) (call : Callback) :
    (b.handed conn call).Sublist (pubTasks b.server.log) := by
  obtain ⟨placed, later, hplaced, hall⟩ := h.receives conn
  have hinj : ∀ r ∈ Session.receipts (b.session conn).log, ∀ k k' n,
      r.core.callbacksPub k = some n → r.core.callbacksPub k' = some n → k = k' :=
    fun r hr => (h.session conn).turns_injective r (List.mem_of_mem_filter hr) .pub
  have hpubs := h.server.pubs_placedOut conn
  rw [hplaced, placedPubs, List.filterMap_append] at hpubs
  rw [handed, hplaced]
  exact (Bus.handed_sublist hall hinj later call).trans
    ((List.sublist_append_left _ _).trans hpubs)

theorem Reachable.map_handed (h : Reachable b) (conn : Conn) (call : Callback) :
    (b.handed conn call).map Prod.snd = (b.session conn).log.flatMap fun r => r.pubsTo call := by
  obtain ⟨placed, later, hplaced, hall⟩ := h.receives conn
  rw [handed, hplaced, Bus.map_handed hall, flatMap_receipts]

/-! ## Where the publications come from -/

theorem pubTasks_eq (log : List Record) :
    pubTasks log = (messageTasks log).filterMap fun x => place x.1 x.2.content.pub? := by
  rw [pubTasks, messageTasks, List.filterMap_filterMap]
  refine List.filterMap_congr fun x _ => ?_
  obtain ⟨⟨core, env, task⟩, i⟩ := x
  cases task <;> rfl

theorem map_snd_messageTasks (log : List Record) : (messageTasks log).map Prod.snd =
    ((log.map Record.task).filterMap Task.message?).map Prod.snd := by
  have hlog : log.map Record.task = log.zipIdx.map fun x => x.1.task := by
    conv_lhs => rw [← List.zipIdx_map_fst 0 log, List.map_map]
    rfl
  rw [hlog, messageTasks, List.filterMap_map, List.map_filterMap, List.map_filterMap]
  refine List.filterMap_congr fun x _ => ?_
  simp only [Function.comp_apply, Option.map_map]
  rfl

/-- Every message that was processed has come from a connection. -/
theorem Fifo.map_snd_zip (hi : Fifo b) :
    (b.origins.zip (messageTasks b.server.log)).map Prod.snd = messageTasks b.server.log := by
  refine List.map_snd_zip ?_
  have hlen : (messageTasks b.server.log).length ≤ b.server.arrivals.length := by
    rw [← List.length_map (f := Prod.snd), map_snd_messageTasks, List.length_map, System.arrivals,
      List.filterMap_append, List.length_append]
    exact Nat.le_add_right _ _
  rw [hi.length]
  exact hlen

theorem Fifo.pubTasks_eq (hi : Fifo b) : pubTasks b.server.log =
    (b.origins.zip (messageTasks b.server.log)).filterMap fun x => place x.2.1 x.2.2.content.pub? := by
  rw [Bus.pubTasks_eq, ← hi.map_snd_zip, List.filterMap_map, hi.map_snd_zip]
  rfl

theorem Fifo.pubTasksFrom_sublist (hi : Fifo b) (conn : Conn) :
    (b.pubTasksFrom conn).Sublist (pubTasks b.server.log) := by
  have hfilter : b.pubTasksFrom conn = ((b.origins.zip (messageTasks b.server.log)).filter
      fun x => decide (x.1 = conn)).filterMap fun x => place x.2.1 x.2.2.content.pub? := by
    rw [pubTasksFrom, List.filterMap_filter]
    simp only [decide_eq_true_eq]
  rw [hfilter, hi.pubTasks_eq]
  exact List.filter_sublist.filterMap _

theorem Fifo.origin (hi : Fifo b) {x : ℕ × PubMsg} (hx : x ∈ pubTasks b.server.log) :
    ∃ conn, x ∈ b.pubTasksFrom conn := by
  rw [hi.pubTasks_eq] at hx
  obtain ⟨y, hy, hplace⟩ := List.mem_filterMap.mp hx
  exact ⟨y.1, List.mem_filterMap.mpr ⟨y, hy, by rw [if_pos rfl, hplace]⟩⟩

/-- The Pub tasks of a connection are the first publications that its client has sent. -/
theorem Fifo.pubTasksFrom_prefix (hi : Fifo b) (conn : Conn) :
    (b.pubTasksFrom conn).map Prod.snd <+: sentPubs (b.session conn).sent := by
  have hprefix : (messageTasks b.server.log).map Prod.snd <+: b.server.arrivals.map Prod.snd := by
    rw [map_snd_messageTasks, System.arrivals, List.filterMap_append, List.map_append]
    exact List.prefix_append ..
  have hzip := List.zip_prefix (l := b.origins) hprefix
  have harrived : sentPubs (b.arrived conn) =
      (b.origins.zip (b.server.arrivals.map Prod.snd)).filterMap fun x =>
        if x.1 = conn then x.2.content.pub? else none := by
    rw [sentPubs, arrived, List.filterMap_filterMap, List.zip_map_right, List.filterMap_map]
    refine List.filterMap_congr fun x _ => ?_
    by_cases hx : x.1 = conn <;> simp [hx]
  have hfrom : (b.pubTasksFrom conn).map Prod.snd =
      (b.origins.zip ((messageTasks b.server.log).map Prod.snd)).filterMap fun x =>
        if x.1 = conn then x.2.content.pub? else none := by
    rw [pubTasksFrom, List.map_filterMap, List.zip_map_right, List.filterMap_map]
    refine List.filterMap_congr fun x _ => ?_
    by_cases hx : x.1 = conn
    · simp [hx, place]
    · simp [hx]
  rw [hfrom]
  refine (hzip.filterMap _).trans ?_
  rw [← harrived]
  exact (hi.up conn).filterMap _

/-! ## What the applications issue -/

/-- The steps of the server and of the transports leave the clients alone. -/
theorem session_step_of_not_client {act : Act} (hclient : ∀ conn act', act ≠ .client conn act')
    (hdeliver : ∀ conn order transport, act ≠ .deliver conn order transport)
    (h : b.step act = some b') : b'.session = b.session := by
  cases act with
  | server act =>
    cases act with
    | receive conn msg valid => cases h
    | _ =>
      obtain ⟨server, -, rfl⟩ := Option.map_eq_some_iff.mp h
      rfl
  | client conn act => exact absurd rfl (hclient conn act)
  | deliver conn order transport => exact absurd rfl (hdeliver conn order transport)
  | receive conn =>
    rw [step] at h
    split at h
    · cases h
    · split_ifs at h
      obtain ⟨server, -, rfl⟩ := Option.map_eq_some_iff.mp h
      rfl
  | pass conn =>
    rw [step] at h
    split at h
    · cases h
      rfl
    · cases h

theorem issues_step {act : Act} {issued : List PubMsg} (hi : (b.session conn).Issues issued)
    (h : b.step act = some b') :
    (b'.session conn).Issues (issued ++ (act.issues? conn).toList) := by
  cases act with
  | client conn' act =>
    obtain ⟨-, session, hs, rfl⟩ := step_client h
    by_cases hc : conn = conn'
    · subst hc
      rw [setSession_self, Act.issues?, if_pos rfl]
      exact hi.step hs
    · rw [setSession_of_ne hc, Act.issues?, if_neg (Ne.symm hc), Option.toList_none, List.append_nil]
      exact hi
  | deliver conn' order transport =>
    rw [Act.issues?, Option.toList_none, List.append_nil]
    rw [step] at h
    split at h
    · cases h
    · split_ifs at h
      obtain ⟨session, hs, rfl⟩ := Option.map_eq_some_iff.mp h
      by_cases hc : conn = conn'
      · subst hc
        have hi := hi.step hs
        rw [Session.Act.pub?, Option.toList_none, List.append_nil] at hi
        rwa [setSession_self]
      · rwa [setSession_of_ne hc]
  | server act | receive conn' | pass conn' =>
    rw [Act.issues?, Option.toList_none, List.append_nil, session_step_of_not_client (by simp) (by simp) h]
    exact hi

/-- The publications of a client are sent, or queued, in the order in which they were issued. -/
theorem issues_run (h : Lts.run step init acts = some b) :
    (b.session conn).Issues (issued acts conn) := by
  refine Lts.run_induct (P := fun acts b => (b.session conn).Issues (issued acts conn))
    Session.issues_init (fun as s a s' _ hi hstep => ?_) h
  have hconcat : issued (as ++ [a]) conn = issued as conn ++ (a.issues? conn).toList := by
    rw [issued, List.filterMap_append, List.filterMap_cons, issued]
    cases a.issues? conn <;> rfl
  rw [hconcat]
  exact issues_step hi hstep

/-- **Publications arrive in one global order and never twice.** -/
theorem publications_ordered (h : Lts.run step init acts = some b) : b.Ordered acts := by
  have hb : Reachable b := ⟨acts, h⟩
  have hasymm : ∀ x y : ℕ × PubMsg, x.1 < y.1 → ¬ y.1 < x.1 := fun x y => Nat.lt_asymm
  have hplaces := pairwise_pubTasks b.server.log
  have hnodup : (pubTasks b.server.log).Nodup :=
    hplaces.imp fun hlt he => absurd (he ▸ hlt) (lt_irrefl _)
  refine ⟨hb.map_handed, hb.handed_sublist, fun conn call => ?_,
    fun conn call conn' call' x y hx hy hx' hy' => ?_, fun x => hb.fifo.origin, fun conn => ?_,
    fun source conn call => ?_⟩
  · rw [List.Nodup, List.pairwise_map]
    exact (hplaces.sublist (hb.handed_sublist conn call)).imp Nat.ne_of_lt
  · rw [List.pair_sublist_iff hasymm (hplaces.sublist (hb.handed_sublist conn call)),
      List.pair_sublist_iff hasymm (hplaces.sublist (hb.handed_sublist conn' call'))]
    simp only [hx, hy, hx', hy', true_and]
  · exact (hb.fifo.pubTasksFrom_prefix conn).trans (issues_run h).sent
  · have hsub := hb.fifo.pubTasksFrom_sublist source
    have hfilter := (hb.handed_sublist conn call).filter fun x => decide (x ∈ b.pubTasksFrom source)
    have heq : (pubTasks b.server.log).filter (fun x => decide (x ∈ b.pubTasksFrom source)) =
        b.pubTasksFrom source := by
      convert List.filter_mem_eq hsub hnodup
    rwa [heq] at hfilter

/-! ## Two subscriptions that overlap -/

def anyPath : Topic := ⟨"p", ⟨"*"⟩⟩

theorem anyPath_valid : anyPath.Valid := by decide

def note (n : UInt8) : PubMsg := ⟨Session.served, ⟨[n], false⟩⟩

/-- Client 1 subscribes to a path and to all paths; client 2 publishes at the path twice. -/
def publishing : List Act :=
  [.server (.connect 0), .server (.process .given), .server (.connect 1), .server (.process .given),
    .client 0 (.subscribe Session.served Session.served_valid),
    .client 0 (.subscribe anyPath anyPath_valid)] ++
  sends 0 (.sub ⟨⟨Session.served⟩, 0, 0⟩) ++ sends 0 (.sub ⟨⟨anyPath⟩, 1, 1⟩) ++
  [.client 1 (.publish (note 1) Session.served_valid),
    .client 1 (.publish (note 2) Session.served_valid)] ++
  sends 1 (.pub ⟨note 1, 0⟩) ++ sends 1 (.pub ⟨note 2, 1⟩) ++ gets 0 ++ gets 0 ++ gets 0 ++ gets 0

/-- Both subscriptions get both publications, in their order. -/
theorem publications_ordered_publishing : ∃ b, Lts.run step init publishing = some b ∧ b.Ordered publishing ∧
    b.handed 0 0 = [(4, note 1), (5, note 2)] ∧ b.handed 0 1 = [(4, note 1), (5, note 2)] ∧
    issued publishing 1 = [note 1, note 2] := by
  have hrun : (Lts.run step init publishing).map (fun b => (b.handed 0 0, b.handed 0 1)) =
      some ([(4, note 1), (5, note 2)], [(4, note 1), (5, note 2)]) := by decide +kernel
  obtain ⟨b, hb, he⟩ := Option.map_eq_some_iff.mp hrun
  obtain ⟨h₀, h₁⟩ := Prod.mk.inj he
  exact ⟨b, hb, publications_ordered hb, h₀, h₁, rfl⟩

end Bus

end T2Bus
