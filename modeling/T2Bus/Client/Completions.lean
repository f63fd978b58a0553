import T2Bus.Lib.Sublist
import T2Bus.Client.Calls

/-!
# What goes into the callbacks of a call

The numbers of the calls are unique, so a turn puts a publication into a callback at most once, and an
Ack goes into the callback of a call once in the whole session.

* `Turn.acksTo`, `Turn.rspsTo`, `Turn.pubsTo`: what a turn puts into the callback of a call;
  `Turn.acksTo_eq`, `Turn.rspsTo_eq`, **`Turn.pubsTo_cases`**;
* `Session.acked`; **`Session.Reachable.acks_once`**.
-/

namespace T2Bus

namespace Call

variable (n : Callback)

def ackTo? : Call → Option AckMsg
  | .ack callback payload => if callback = n then some payload else none
  | .rsp _ _ | .pub _ _ | .req _ _ _ => none

def rspTo? : Call → Option RspMsg
  | .rsp callback payload => if callback = n then some payload else none
  | .ack _ _ | .pub _ _ | .req _ _ _ => none

def pubTo? : Call → Option PubMsg
  | .pub callback payload => if callback = n then some payload else none
  | .ack _ _ | .rsp _ _ | .req _ _ _ => none

end Call

namespace Turn

variable (r : Turn) (n : Callback)

/-- The Acks that the turn puts into the callback of a call. -/
def acksTo : List AckMsg := r.exec.2.calls.filterMap (Call.ackTo? n)

/-- The responses that the turn puts into the callback of a call. -/
def rspsTo : List RspMsg := r.exec.2.calls.filterMap (Call.rspTo? n)

/-- The publications that the turn puts into the callback of a call. -/
def pubsTo : List PubMsg := r.exec.2.calls.filterMap (Call.pubTo? n)

end Turn

/-! ## The calls of a publication -/

namespace ClientExec

variable {env : ClientEnv} {s : ClientExec} {payload : PubMsg}

variable (env) in
theorem unsubscribeAll_calls (topics : List Topic) (s : ClientExec) :
    (unsubscribeAll env topics s).2.calls = s.calls := by
  refine (unsubscribeAll_ends env (P := fun s' => s'.calls = s.calls) (fun _ _ h => h) topics rfl).elim
    id ?_
  rintro ⟨s', h, he⟩
  rw [he]
  exact h

/-- **The loop puts the publication into the callbacks of some of the subscribers**, whose receivers are
there, in the order of the loop. -/
theorem calls_pubLoop (ids : List MsgId) (s : ClientExec) : ∃ l : List (MsgId × Callback),
    (l.map Prod.fst).Sublist ids ∧
    (pubLoop env payload ids s).2.calls = s.calls ++ l.map (fun x => .pub x.2 payload) ∧
    ∀ x ∈ l, s.core.callbacksPub x.1 = some x.2 ∧ env.isOpen x.2 = true := by
  have hnone : ∀ (ids : List MsgId) (s s' : ClientExec), s'.calls = s.calls →
      ∃ l : List (MsgId × Callback), (l.map Prod.fst).Sublist ids ∧
        s'.calls = s.calls ++ l.map (fun x => .pub x.2 payload) ∧
        ∀ x ∈ l, s.core.callbacksPub x.1 = some x.2 ∧ env.isOpen x.2 = true :=
    fun ids s s' h => ⟨[], List.nil_sublist _, by rw [h, List.map_nil, List.append_nil],
      fun x hx => absurd hx List.not_mem_nil⟩
  induction ids generalizing s with
  | nil => exact hnone _ s _ rfl
  | cons k ids ih =>
    rw [pubLoop]
    cases hc : s.core.callbacksPub k with
    | none => exact hnone _ s _ rfl
    | some c =>
      simp only
      split_ifs with ho
      · obtain ⟨l, hsub, hcalls, hl⟩ := ih (s.call (.pub c payload))
        refine ⟨(k, c) :: l, hsub.cons_cons k, ?_, List.forall_mem_cons.mpr ⟨⟨hc, ho⟩, hl⟩⟩
        rw [hcalls, List.map_cons, call, List.append_assoc]
        rfl
      · have hcallbacks := (cleanup_result env k s).2.2
        have hcalls := unsubscribeAll_calls env (s.core.subscriptions.dropClient k).1
          (s.forget k)
        rw [← cleanup] at hcalls
        cases hcl : cleanup env k s with
        | mk result s₁ =>
          rw [hcl] at hcallbacks hcalls
          cases result with
          | error e => exact hnone _ s s₁ hcalls
          | ok u =>
            obtain ⟨l, hsub, hcalls₁, hl⟩ := ih s₁
            refine ⟨l, hsub.cons k, ?_, fun x hx => ⟨?_, (hl x hx).2⟩⟩
            · rw [hcalls₁, hcalls]
              rfl
            · have hx := (hl x hx).1
              rw [hcallbacks, Table.remove_eq_some] at hx
              exact hx.2

end ClientExec

/-! ## The callbacks of a turn -/

namespace Turn

variable {r : Turn} {n : Callback}

theorem received_eq_some {msg : Msg ProtocolServer} : r.received? = some msg ↔ r.event = .msg msg := by
  rw [received?]
  cases r.event <;> simp

theorem calls_none (h : r.received? = none) : r.exec.2.calls = [] := by
  rcases r.exec_cases with ⟨task, ht⟩ | ⟨msg, hm⟩ | hs
  · rw [exec_sends ht]
    exact (ClientExec.send_core _ _ _).2
  · rw [received?, hm] at h
    cases h
  · rw [hs]
    rfl

theorem calls_ack {id : MsgId} {payload : AckMsg} (h : r.event = .msg ⟨id, .ack payload⟩) :
    r.exec.2.calls = (r.core.callbacksAck payload.msgId).toList.map fun c => .ack c payload := by
  rw [exec_msg h]
  change (ClientExec.afterReceive r.env ⟨id, .ack payload⟩ (.start r.core)).2.calls = _
  simp only [ClientExec.afterReceive, ClientExec.start]
  cases r.core.callbacksAck payload.msgId <;> rfl

/-- The callback of an Ack is taken out of the table. -/
theorem callbacksAck_ack {id : MsgId} {payload : AckMsg} (h : r.event = .msg ⟨id, .ack payload⟩) :
    r.exec.2.core.callbacksAck = r.core.callbacksAck.remove payload.msgId := by
  rw [exec_msg h]
  change (ClientExec.afterReceive r.env ⟨id, .ack payload⟩ (.start r.core)).2.core.callbacksAck = _
  simp only [ClientExec.afterReceive, ClientExec.start]
  cases r.core.callbacksAck payload.msgId <;> rfl

theorem calls_rsp {id : MsgId} {payload : RspMsg} (h : r.event = .msg ⟨id, .rsp payload⟩) :
    r.exec.2.calls = (r.core.callbacksRsp payload.reqId).toList.map fun c => .rsp c payload := by
  rw [exec_msg h]
  change (ClientExec.afterReceive r.env ⟨id, .rsp payload⟩ (.start r.core)).2.calls = _
  simp only [ClientExec.afterReceive, ClientExec.start]
  cases r.core.callbacksRsp payload.reqId <;> rfl

theorem calls_pub {id : MsgId} {payload : PubMsg} (h : r.event = .msg ⟨id, .pub payload⟩) :
    ∃ l : List (MsgId × Callback),
      (l.map Prod.fst).Sublist
        (r.env.order.arrange (r.core.subscriptions.getSubscribers payload.topic)) ∧
      r.exec.2.calls = l.map (fun x => .pub x.2 payload) ∧
      ∀ x ∈ l, r.core.callbacksPub x.1 = some x.2 ∧ r.env.isOpen x.2 = true := by
  rw [exec_msg h]
  exact ClientExec.calls_pubLoop _ (.start r.core)

theorem calls_req {id : MsgId} {payload : ReqMsg} (h : r.event = .msg ⟨id, .req payload⟩) :
    ∃ l : List Callback, r.exec.2.calls = l.map fun c => .req c id payload := by
  rw [exec_msg h]
  change ∃ l : List Callback,
    (ClientExec.afterReceive r.env ⟨id, .req payload⟩ (.start r.core)).2.calls = _
  simp only [ClientExec.afterReceive]
  split
  · split
    · rename_i c _
      split_ifs
      · exact ⟨[c], rfl⟩
      · exact ⟨[], rfl⟩
    · exact ⟨[], rfl⟩
  · exact ⟨[], rfl⟩

/-- The calls of one kind are no calls of another. -/
theorem filterMap_map_none {α β : Type*} {f : Call → Option β} {g : α → Call} (l : List α)
    (h : ∀ a, f (g a) = none) : (l.map g).filterMap f = [] := by
  rw [List.filterMap_map, List.filterMap_eq_nil_iff]
  exact fun a _ => h a

variable (r n) in
/-- An Ack goes into the callback that is entered for its message. -/
theorem acksTo_eq : r.acksTo n = match r.received? with
    | some ⟨_, .ack payload⟩ => if r.core.callbacksAck payload.msgId = some n then [payload] else []
    | _ => [] := by
  rw [acksTo]
  cases hm : r.received? with
  | none => rw [calls_none hm, List.filterMap_nil]
  | some msg =>
    have he := received_eq_some.mp hm
    obtain ⟨id, content⟩ := msg
    cases content with
    | ack payload =>
      rw [calls_ack he]
      change _ = if r.core.callbacksAck payload.msgId = some n then [payload] else []
      cases r.core.callbacksAck payload.msgId with
      | none => rfl
      | some c => by_cases hc : c = n <;> simp [Call.ackTo?, hc]
    | rsp payload =>
      rw [calls_rsp he]
      exact filterMap_map_none _ fun _ => rfl
    | pub payload =>
      obtain ⟨l, -, hl, -⟩ := calls_pub he
      rw [hl]
      exact filterMap_map_none _ fun _ => rfl
    | req payload =>
      obtain ⟨l, hl⟩ := calls_req he
      rw [hl]
      exact filterMap_map_none _ fun _ => rfl

/-- An Ack that a turn puts into a callback is the one it received. -/
theorem acksTo_cases : r.acksTo n = [] ∨ ∃ id payload, r.event = .msg ⟨id, .ack payload⟩ ∧
    r.acksTo n = [payload] ∧ r.core.callbacksAck payload.msgId = some n := by
  rw [acksTo_eq]
  split
  · rename_i id payload hm
    split_ifs with hc
    · exact Or.inr ⟨id, payload, received_eq_some.mp hm, rfl, hc⟩
    · exact Or.inl rfl
  · exact Or.inl rfl

variable (r n) in
/-- A response goes into the callback that is entered for its request. -/
theorem rspsTo_eq : r.rspsTo n = match r.received? with
    | some ⟨_, .rsp payload⟩ => if r.core.callbacksRsp payload.reqId = some n then [payload] else []
    | _ => [] := by
  rw [rspsTo]
  cases hm : r.received? with
  | none => rw [calls_none hm, List.filterMap_nil]
  | some msg =>
    have he := received_eq_some.mp hm
    obtain ⟨id, content⟩ := msg
    cases content with
    | rsp payload =>
      rw [calls_rsp he]
      change _ = if r.core.callbacksRsp payload.reqId = some n then [payload] else []
      cases r.core.callbacksRsp payload.reqId with
      | none => rfl
      | some c => by_cases hc : c = n <;> simp [Call.rspTo?, hc]
    | ack payload =>
      rw [calls_ack he]
      exact filterMap_map_none _ fun _ => rfl
    | pub payload =>
      obtain ⟨l, -, hl, -⟩ := calls_pub he
      rw [hl]
      exact filterMap_map_none _ fun _ => rfl
    | req payload =>
      obtain ⟨l, hl⟩ := calls_req he
      rw [hl]
      exact filterMap_map_none _ fun _ => rfl

/-- **A turn puts a publication into the callback of a call at most once**, and only if the call has a
local subscription that matches. -/
theorem pubsTo_cases (hinj : ∀ k k' n, r.core.callbacksPub k = some n →
    r.core.callbacksPub k' = some n → k = k') (n : Callback) : r.pubsTo n = [] ∨
    ∃ id payload, r.event = .msg ⟨id, .pub payload⟩ ∧ r.pubsTo n = [payload] ∧
      r.env.isOpen n = true ∧
      ∃ k ∈ r.core.subscriptions.getSubscribers payload.topic, r.core.callbacksPub k = some n := by
  rw [pubsTo]
  cases hm : r.received? with
  | none =>
    left
    rw [calls_none hm, List.filterMap_nil]
  | some msg =>
    have he := received_eq_some.mp hm
    obtain ⟨id, content⟩ := msg
    cases content with
    | ack payload =>
      left
      rw [calls_ack he]
      exact filterMap_map_none _ fun _ => rfl
    | rsp payload =>
      left
      rw [calls_rsp he]
      exact filterMap_map_none _ fun _ => rfl
    | req payload =>
      left
      obtain ⟨l, hl⟩ := calls_req he
      rw [hl]
      exact filterMap_map_none _ fun _ => rfl
    | pub payload =>
      obtain ⟨l, hsub, hl, hopen⟩ := calls_pub he
      have hnodup : l.Nodup := (((r.env.order.perm _).nodup_iff.mpr
        (Directory.nodup_getSubscribers _ _)).sublist hsub).of_map
      have hfilter : r.exec.2.calls.filterMap (Call.pubTo? n) =
          l.filterMap fun x => if x.2 = n then some payload else none := by
        rw [hl, List.filterMap_map]
        rfl
      rw [hfilter]
      by_cases hn : ∃ x ∈ l, x.2 = n
      · obtain ⟨x, hx, rfl⟩ := hn
        obtain ⟨hk, ho⟩ := hopen x hx
        refine Or.inr ⟨id, payload, he, ?_, ho, x.1, ?_, hk⟩
        · refine List.filterMap_eq_singleton hnodup hx (if_pos rfl) fun x' hx' hne => ?_
          -- no other id has the callback
          have heq : x'.2 = x.2 := by
            by_contra h
            exact hne (if_neg h)
          exact Prod.ext (hinj _ _ x.2 (heq ▸ (hopen x' hx').1) hk) heq
        · exact (r.env.order.perm _).mem_iff.mp (hsub.subset (List.mem_map_of_mem hx))
      · refine Or.inl (List.filterMap_eq_nil_iff.mpr fun x hx => if_neg fun h => hn ⟨x, hx, h⟩)

end Turn

/-! ## The callbacks of a session -/

namespace Session

variable {s s' : Session} {act : Act} {n : Callback}

/-- The Acks that were put into the callback of a call. -/
def acked (log : List Turn) (n : Callback) : List AckMsg := log.flatMap fun r => r.acksTo n

/-- No callback is in a table twice, in any turn. -/
theorem Reachable.turns_injective (h : Reachable s) : ∀ r ∈ s.log, ∀ kind k k' n,
    r.core.callbacks kind k = some n → r.core.callbacks kind k' = some n → k = k' := by
  intro r hr
  obtain ⟨s₀, h₀⟩ := h.at_mem hr
  rw [h₀.core]
  exact (Reachable.numbered h₀.reachable).injective

/-- A call that has got its Ack is spent, and waits for none. -/
def AckedOnce (s : Session) : Prop :=
  ∀ n, (acked s.log n).length ≤ 1 ∧
    (acked s.log n ≠ [] → s.Spent n ∧ ∀ k, s.core.callbacksAck k ≠ some n)

theorem acked_concat (log : List Turn) (r : Turn) (n : Callback) :
    acked (log ++ [r]) n = acked log n ++ r.acksTo n := by
  rw [acked, List.flatMap_append, List.flatMap_singleton, acked]

theorem AckedOnce.step (hi : s.AckedOnce) (hs : Reachable s) (h : s.step act = some s') :
    s'.AckedOnce := by
  intro n
  obtain ⟨hlen, hspent⟩ := hi n
  have hstep := h
  rcases queues_step h with ⟨hcore, -, -, hlog, -⟩ | ⟨event, valid, order, transport, tasks, -, ht, rfl⟩
  · rw [hlog]
    refine ⟨hlen, fun hne => ?_⟩
    obtain ⟨hn, hwait⟩ := hspent hne
    exact ⟨hn.step hstep, hcore ▸ hwait⟩
  · have hnum := Reachable.numbered hs
    have hnew : ∀ k, (s.turn event order transport).exec.2.core.callbacksAck k = some n →
        s.Spent n → s.core.callbacksAck k = some n := by
      intro k hk hn
      rcases @Turn.callbacks_exec _ .ack k n hk with ⟨task, htask, hcall, -⟩ | hk
      · exact absurd hn (hnum.spent_turned ht htask hcall).2.1
      · exact hk
    change (acked (s.log ++ [_]) n).length ≤ 1 ∧ (acked (s.log ++ [_]) n ≠ [] → _)
    rw [acked_concat]
    rcases Turn.acksTo_cases with hnil | ⟨id, payload, hevent, hack, hc⟩
    · rw [hnil, List.append_nil]
      refine ⟨hlen, fun hne => ?_⟩
      obtain ⟨hn, hwait⟩ := hspent hne
      exact ⟨hn.step hstep, fun k hk => hwait k (hnew k hk hn)⟩
    · have hnone : acked s.log n = [] := by
        by_contra hne
        exact (hspent hne).2 _ hc
      have hn : s.Spent n := hnum.spent .ack _ n hc
      rw [hnone, hack]
      refine ⟨le_rfl, fun _ => ⟨hn.step hstep, fun k hk => ?_⟩⟩
      -- the entry that the Ack has taken was the only one
      have hkey : k = payload.msgId := hnum.injective .ack k _ n (hnew k hk hn) hc
      change (s.turn event order transport).exec.2.core.callbacksAck k = some n at hk
      rw [Turn.callbacksAck_ack hevent, hkey, Table.remove_self] at hk
      cases hk

/-- **An Ack goes into the callback of a call at most once.** -/
theorem Reachable.acks_once (h : Reachable s) (n : Callback) : (acked s.log n).length ≤ 1 :=
  (Lts.Reachable.induct (I := AckedOnce) (fun _ => ⟨Nat.zero_le _, fun h => absurd rfl h⟩)
    (fun _ _ _ hs hi hstep => hi.step hs hstep) h n).1

end Session

end T2Bus
