import T2Bus.Server.Core

/-!
# Deliveries

Deliveries take message ids and deregister the clients whose channel they find closed, and do
nothing else.

* `Core.reach`, `Core.Closed`: the channel of a client, open or closed;
* `Core.afterDeliver`, `Core.deliverAll`, `Core.deliveries`: the core after deliveries, and what they
  put out; the lemmas say what is left of each field;
* `Exec.deliver_eq`, `Exec.publishLoop_snd`: `deliver` and the loop of `publish` in these terms.
-/

namespace T2Bus

namespace Core

variable (core : Core) (env : Env)

/-! ## Deliveries -/

/-- The open channel of a client. -/
def reach (c : ClientId) : Option Conn := (core.protocolServerSenders c).filter env.isOpen

/-- The client is registered, but its channel is closed. -/
def Closed (c : ClientId) : Prop :=
  ∃ conn, core.protocolServerSenders c = some conn ∧ env.isOpen conn = false

instance (c : ClientId) : Decidable (core.Closed env c) :=
  decidable_of_iff ((core.protocolServerSenders c).any fun conn => !env.isOpen conn)
    (by simp [Closed, Option.any_eq_true])

theorem reach_eq_some {core : Core} {env : Env} {c : ClientId} {conn : Conn} :
    core.reach env c = some conn ↔
      core.protocolServerSenders c = some conn ∧ env.isOpen conn = true := by
  simp [reach, Option.filter_eq_some_iff]

theorem not_closed_of_reach {core : Core} {env : Env} {c : ClientId} {conn : Conn}
    (h : core.reach env c = some conn) : ¬ core.Closed env c := by
  rintro ⟨conn', hs, hc⟩
  obtain ⟨hs', ho⟩ := reach_eq_some.mp h
  rw [hs] at hs'
  cases hs'
  exact absurd (hc.symm.trans ho) (by decide)

/-- The next message id is taken. -/
def bump : Core := { core with nextMsgId := core.nextMsgId + 1 }

/-- The core after a message was delivered, or not, to `c`. -/
def afterDeliver (c : ClientId) : Core :=
  if core.Closed env c then core.bump.deregisterClient c else core.bump

/-- The core after deliveries to `ids`. -/
def deliverAll (ids : List ClientId) : Core := ids.foldl (fun core c => core.afterDeliver env c) core

/-- The deliveries of messages to clients, as they are made from this core. -/
def deliveries : List (ClientId × ProtocolServer) → Core → List Delivery
  | [], _ => []
  | (c, payload) :: rest, core =>
    ⟨c, ⟨core.nextMsgId, payload⟩, core.reach env c⟩ :: deliveries rest (core.afterDeliver env c)

/-- The clients that deliveries to `ids` deregister. -/
def Drops (ids : List ClientId) (c : ClientId) : Prop := c ∈ ids ∧ core.Closed env c

instance (ids : List ClientId) (c : ClientId) : Decidable (core.Drops env ids c) :=
  inferInstanceAs (Decidable (_ ∧ _))

/-- What `deliver` returns. -/
def deliverResult (c : ClientId) : BusResult MsgId :=
  match core.protocolServerSenders c with
  | some client =>
    if env.isOpen client then .ok core.nextMsgId else .error (.deliveryFailed c sendErrorText)
  | none => .error (.unknownClient c)

/-- The clients to whom `publish` hands the message: it stops behind the first one it does not
reach, and before id 0. -/
def attempts : List ClientId → List ClientId
  | [] => []
  | c :: rest =>
    if c = 0 then [] else if (core.reach env c).isSome then c :: attempts rest else [c]

/-- `publish` comes to id 0 before it fails to reach a client. -/
def reachesZero : List ClientId → Bool
  | [] => false
  | c :: rest => decide (c = 0) || (core.reach env c).isSome && reachesZero rest

variable {core env}

theorem afterDeliver_of_reach {c : ClientId} {conn : Conn} (h : core.reach env c = some conn) :
    core.afterDeliver env c = core.bump := if_neg (not_closed_of_reach h)

theorem afterDeliver_senders (c d : ClientId) :
    (core.afterDeliver env c).protocolServerSenders d =
      if core.Drops env [c] d then none else core.protocolServerSenders d := by
  rw [afterDeliver]
  by_cases hd : d = c
  · subst hd
    by_cases h : core.Closed env d <;> simp [h, Drops, bump, deregisterClient]
  · by_cases h : core.Closed env c <;>
      simp [h, Drops, hd, bump, deregisterClient, Table.remove_of_ne]

theorem afterDeliver_closed (c d : ClientId) :
    (core.afterDeliver env c).Closed env d ↔ d ≠ c ∧ core.Closed env d := by
  rw [Closed, afterDeliver_senders]
  split_ifs with h
  · simp [List.mem_singleton.mp h.1]
  · rw [Drops, List.mem_singleton, not_and] at h
    exact ⟨fun hc => ⟨fun hd => h hd hc, hc⟩, fun hc => hc.2⟩

/-- A delivery changes no open channel. -/
theorem reach_afterDeliver (c d : ClientId) :
    (core.afterDeliver env c).reach env d = core.reach env d := by
  rw [reach, afterDeliver_senders]
  split_ifs with h
  · obtain ⟨conn, hs, ho⟩ := h.2
    simp [reach, hs, Option.filter, ho]
  · rfl

@[simp] theorem afterDeliver_nextMsgId (c : ClientId) :
    (core.afterDeliver env c).nextMsgId = core.nextMsgId + 1 := by
  rw [afterDeliver]
  split_ifs <;> rfl

@[simp] theorem afterDeliver_nextClientId (c : ClientId) :
    (core.afterDeliver env c).nextClientId = core.nextClientId := by
  rw [afterDeliver]
  split_ifs <;> rfl

theorem afterDeliver_pending (c : ClientId) {k : MsgId} {p : PendingResponse} :
    (core.afterDeliver env c).pendingResponses k = some p ↔
      core.pendingResponses k = some p ∧ ¬ core.Drops env [c] p.requesterId ∧
        ¬ core.Drops env [c] p.responderId := by
  rw [afterDeliver]
  by_cases h : core.Closed env c
  · rw [if_pos h]
    simp only [deregisterClient, bump, Table.retain_eq_some, Drops, List.mem_singleton]
    by_cases h₁ : p.requesterId = c <;> by_cases h₂ : p.responderId = c <;> simp [h₁, h₂, h]
  · rw [if_neg h]
    have hnot : ∀ d, ¬ core.Drops env [c] d := by
      rintro d ⟨hd, hc⟩
      rw [List.mem_singleton.mp hd] at hc
      exact h hc
    simp [bump, hnot]

theorem drops_cons (c : ClientId) (ids : List ClientId) (d : ClientId) :
    core.Drops env (c :: ids) d ↔
      core.Drops env [c] d ∨ (core.afterDeliver env c).Drops env ids d := by
  simp only [Drops, afterDeliver_closed, List.mem_cons, List.not_mem_nil, or_false]
  tauto

@[simp] theorem not_drops_nil (d : ClientId) : ¬ core.Drops env [] d := fun h => by cases h.1

theorem deliverAll_cons (c : ClientId) (ids : List ClientId) :
    core.deliverAll env (c :: ids) = (core.afterDeliver env c).deliverAll env ids := rfl

@[simp] theorem length_deliveries (l : List (ClientId × ProtocolServer)) (core : Core) :
    (core.deliveries env l).length = l.length := by
  induction l generalizing core with
  | nil => rfl
  | cons d l ih => rw [deliveries, List.length_cons, ih, List.length_cons]

theorem deliveries_append (l l' : List (ClientId × ProtocolServer)) (core : Core) :
    core.deliveries env (l ++ l') =
      core.deliveries env l ++ (core.deliverAll env (l.map Prod.fst)).deliveries env l' := by
  induction l generalizing core with
  | nil => rfl
  | cons d l ih =>
    rw [List.cons_append, deliveries, ih]
    rfl

/-- What was delivered, to whom, and where it went. -/
theorem mem_deliveries {l : List (ClientId × ProtocolServer)} {core : Core} {d : Delivery}
    (h : d ∈ core.deliveries env l) :
    (d.clientId, d.msg.content) ∈ l ∧ d.conn = core.reach env d.clientId := by
  induction l generalizing core with
  | nil => cases h
  | cons x l ih =>
    rw [deliveries, List.mem_cons] at h
    rcases h with rfl | h
    · exact ⟨List.mem_cons_self, rfl⟩
    · obtain ⟨hm, hc⟩ := ih h
      exact ⟨List.mem_cons_of_mem _ hm, hc.trans (reach_afterDeliver _ _)⟩

theorem deliverAll_senders (ids : List ClientId) (d : ClientId) :
    (core.deliverAll env ids).protocolServerSenders d =
      if core.Drops env ids d then none else core.protocolServerSenders d := by
  induction ids generalizing core with
  | nil => simp [deliverAll]
  | cons c ids ih =>
    rw [deliverAll_cons, ih, afterDeliver_senders]
    simp only [drops_cons c ids d]
    by_cases h₁ : core.Drops env [c] d <;>
      by_cases h₂ : (core.afterDeliver env c).Drops env ids d <;> simp [h₁, h₂]

theorem reach_deliverAll (ids : List ClientId) (d : ClientId) :
    (core.deliverAll env ids).reach env d = core.reach env d := by
  induction ids generalizing core with
  | nil => rfl
  | cons c ids ih => rw [deliverAll_cons, ih, reach_afterDeliver]

theorem deliverAll_pending (ids : List ClientId) {k : MsgId} {p : PendingResponse} :
    (core.deliverAll env ids).pendingResponses k = some p ↔
      core.pendingResponses k = some p ∧ ¬ core.Drops env ids p.requesterId ∧
        ¬ core.Drops env ids p.responderId := by
  induction ids generalizing core with
  | nil => simp [deliverAll]
  | cons c ids ih =>
    rw [deliverAll_cons, ih, afterDeliver_pending, drops_cons c ids p.requesterId,
      drops_cons c ids p.responderId]
    tauto

theorem deliverAll_nextMsgId (ids : List ClientId) :
    (core.deliverAll env ids).nextMsgId = core.nextMsgId + UInt32.ofNat ids.length := by
  induction ids generalizing core with
  | nil => simp [deliverAll]
  | cons c ids ih =>
    rw [deliverAll_cons, ih, afterDeliver_nextMsgId, List.length_cons, UInt32.ofNat_add,
      UInt32.add_assoc, UInt32.add_comm 1]
    rfl

@[simp] theorem deliverAll_nextClientId (ids : List ClientId) :
    (core.deliverAll env ids).nextClientId = core.nextClientId := by
  induction ids generalizing core with
  | nil => rfl
  | cons c ids ih => rw [deliverAll_cons, ih, afterDeliver_nextClientId]

theorem afterDeliver_sound (h : core.directory.Sound) (c : ClientId) :
    (core.afterDeliver env c).directory.Sound := by
  rw [afterDeliver]
  split_ifs
  · exact h.apply (.dropClient c) trivial
  · exact h

theorem deliverAll_sound (h : core.directory.Sound) (ids : List ClientId) :
    (core.deliverAll env ids).directory.Sound := by
  induction ids generalizing core with
  | nil => exact h
  | cons c ids ih => exact ih (afterDeliver_sound h c)

end Core

namespace Exec

variable {env : Env} {s : Exec} {c : ClientId} {msg : Msg ProtocolClient}

/-- Deliver the messages one after the other. -/
def deliverList (env : Env) (l : List (ClientId × ProtocolServer)) (s : Exec) : Exec :=
  { s with core := s.core.deliverAll env (l.map Prod.fst), out := s.out ++ s.core.deliveries env l }

@[simp] theorem deliverList_nil : s.deliverList env [] = s := by
  simp [deliverList, Core.deliverAll, Core.deliveries]

theorem deliverList_cons (d : ClientId × ProtocolServer) (l : List (ClientId × ProtocolServer)) :
    s.deliverList env (d :: l) = (s.deliverList env [d]).deliverList env l := by
  simp [deliverList, Core.deliverAll, Core.deliveries]

theorem deliverList_append (l l' : List (ClientId × ProtocolServer)) :
    s.deliverList env (l ++ l') = (s.deliverList env l).deliverList env l' := by
  induction l generalizing s with
  | nil => simp
  | cons d l ih => rw [List.cons_append, deliverList_cons, ih, ← deliverList_cons]

/-- **One delivery**: its result, and the core and the output afterwards. -/
theorem deliver_eq (payload : ProtocolServer) :
    deliver env c payload s = (s.core.deliverResult env c, s.deliverList env [(c, payload)]) := by
  rw [deliver, Core.deliverResult]
  cases h : s.core.protocolServerSenders c with
  | none =>
    have hclosed : ¬ s.core.Closed env c := by simp [Core.Closed, h]
    simp [Core.msg, h, deliverList, Core.deliverAll, Core.deliveries, Core.afterDeliver, hclosed,
      Core.bump, Core.reach]
  | some conn =>
    by_cases ho : env.isOpen conn = true
    · have hclosed : ¬ s.core.Closed env c := by simp [Core.Closed, h, ho]
      simp [Core.msg, h, ho, deliverList, Core.deliverAll, Core.deliveries, Core.afterDeliver,
        hclosed, Core.bump, Core.reach, Option.filter]
    · have hclosed : s.core.Closed env c := ⟨conn, h, by simpa using ho⟩
      simp [Core.msg, h, ho, deliverList, Core.deliverAll, Core.deliveries, Core.afterDeliver,
        hclosed, Core.bump, Core.reach, Option.filter]

theorem deliverResult_ok {core : Core} {conn : Conn} (h : core.reach env c = some conn) :
    core.deliverResult env c = .ok core.nextMsgId := by
  obtain ⟨hs, ho⟩ := Core.reach_eq_some.mp h
  simp [Core.deliverResult, hs, ho]

theorem deliverResult_error {core : Core} (h : core.reach env c = none) :
    ∃ e, core.deliverResult env c = .error e := by
  rw [Core.deliverResult]
  cases hs : core.protocolServerSenders c with
  | none => exact ⟨_, rfl⟩
  | some conn =>
    have ho : ¬ env.isOpen conn = true := fun ho => by simp [Core.reach, hs, Option.filter, ho] at h
    exact ⟨_, if_neg ho⟩

/-! ## Publish -/

theorem attempts_afterDeliver (core : Core) (d : ClientId) (ids : List ClientId) :
    (core.afterDeliver env d).attempts env ids = core.attempts env ids := by
  induction ids with
  | nil => rfl
  | cons c ids ih => rw [Core.attempts, Core.attempts, ih, Core.reach_afterDeliver]

theorem reachesZero_afterDeliver (core : Core) (d : ClientId) (ids : List ClientId) :
    (core.afterDeliver env d).reachesZero env ids = core.reachesZero env ids := by
  induction ids with
  | nil => rfl
  | cons c ids ih => rw [Core.reachesZero, Core.reachesZero, ih, Core.reach_afterDeliver]

variable (env s) in
/-- **The loop of `publish`** delivers to the clients that `attempts` lists. -/
theorem publishLoop_snd (payload : ProtocolServer) (ids : List ClientId) :
    (publishLoop env payload ids s).2 =
      s.deliverList env ((s.core.attempts env ids).map fun d => (d, payload)) := by
  induction ids generalizing s with
  | nil => simp [publishLoop, Core.attempts]
  | cons c ids ih =>
    rw [publishLoop, Core.attempts, deliver_eq]
    by_cases h₀ : c = 0
    · simp [h₀]
    · cases hr : s.core.reach env c with
      | none =>
        obtain ⟨e, he⟩ := deliverResult_error hr
        simp [h₀, he]
      | some conn =>
        have hcore : (s.deliverList env [(c, payload)]).core = s.core.afterDeliver env c := rfl
        simp only [h₀, if_false, deliverResult_ok hr, ih, Option.isSome_some, if_true,
          List.map_cons, hcore, attempts_afterDeliver]
        rw [← deliverList_cons]

/-- The loop succeeds when it reaches every subscriber. -/
theorem publishLoop_ok (payload : ProtocolServer) (ids : List ClientId) :
    (publishLoop env payload ids s).1 = .ok () ↔
      ∀ c ∈ ids, c ≠ 0 ∧ (s.core.reach env c).isSome := by
  induction ids generalizing s with
  | nil => simp [publishLoop]
  | cons c ids ih =>
    rw [publishLoop, deliver_eq, List.forall_mem_cons]
    by_cases h₀ : c = 0
    · simp [h₀]
    · cases hr : s.core.reach env c with
      | none =>
        obtain ⟨e, he⟩ := deliverResult_error hr
        simp [h₀, he]
      | some conn =>
        have hcore : (s.deliverList env [(c, payload)]).core = s.core.afterDeliver env c := rfl
        simp [h₀, deliverResult_ok hr, ih, hcore, Core.reach_afterDeliver]

variable (env s) in
/-- The loop panics exactly when it comes to id 0. -/
theorem publishLoop_panic (payload : ProtocolServer) (ids : List ClientId) :
    (publishLoop env payload ids s).1 = .error .panic ↔ s.core.reachesZero env ids = true := by
  induction ids generalizing s with
  | nil => simp [publishLoop, Core.reachesZero]
  | cons c ids ih =>
    rw [publishLoop, deliver_eq, Core.reachesZero]
    by_cases h₀ : c = 0
    · simp [h₀]
    · cases hr : s.core.reach env c with
      | none =>
        obtain ⟨e, he⟩ := deliverResult_error hr
        simp [h₀, he]
      | some conn =>
        have hcore : (s.deliverList env [(c, payload)]).core = s.core.afterDeliver env c := rfl
        simp [h₀, deliverResult_ok hr, ih, hcore, reachesZero_afterDeliver]

theorem attempts_sublist {core : Core} {ids : List ClientId} :
    (core.attempts env ids).Sublist ids := by
  induction ids with
  | nil => exact List.Sublist.refl _
  | cons c ids ih =>
    rw [Core.attempts]
    split_ifs
    · exact List.nil_sublist _
    · exact ih.cons_cons c
    · exact (List.nil_sublist ids).cons_cons c

theorem attempts_of_reach {core : Core} {ids : List ClientId}
    (h : ∀ c ∈ ids, c ≠ 0 ∧ (core.reach env c).isSome) : core.attempts env ids = ids := by
  induction ids with
  | nil => rfl
  | cons c ids ih =>
    obtain ⟨⟨h₀, hr⟩, hrest⟩ := List.forall_mem_cons.mp h
    rw [Core.attempts, if_neg h₀, if_pos hr, ih hrest]

end Exec

end T2Bus
