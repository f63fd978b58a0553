import T2Bus.Server.Acks
import T2Bus.Server.Run
import T2Bus.Directory.Lookups
import T2Bus.Transport.Length

/-!
# What the server passes on

The decoder of the server accepts a message by the length of its frame, and what the server then
sends has other ids and another envelope. A message at the limit may leave it as one that the decoder
of a client refuses: an id of the server takes up to four bytes more than that of the sender, and the
Ack of a request that nobody serves carries the topic in a longer envelope.

* `Relayed`: the receiver's decoder accepts the frame of a message;
* `BusError.Short`: the errors that carry no text of a client; `processContent_error`: the only other
  error of a message is that of a request that nobody serves;
* `Core.Relayable`: when there is room for what the server sends;
* `Exec.relays_iff`: what one message makes the server send is accepted exactly then;
  **`Record.relays_iff`**: in every run.
-/

namespace T2Bus

open CborCodec

/-- The decoder accepts the frame that the encoder writes of the message. -/
def Relayed (msg : Msg ProtocolServer) : Prop :=
  ∃ h : msg.WellFormed, Readable (serde ProtocolServer) ⟨msg, h⟩ []

theorem relayed_iff {msg : Msg ProtocolServer} (h : msg.WellFormed) :
    Relayed msg ↔ frameLen msg ≤ maxMessageSizeBytes := by
  have hread : Readable (serde ProtocolServer) ⟨msg, h⟩ [] ↔ frameLen msg ≤ maxMessageSizeBytes :=
    readable_of_ser (serde ProtocolServer) rfl []
  exact ⟨fun ⟨_, hr⟩ => hread.mp hr, fun hr => ⟨h, hread.mpr hr⟩⟩

/-- A message that a frame of `n` bytes brings, and that goes on with `b` bytes more and `a` bytes less. -/
theorem relayed_iff_of_length {msg : Msg ProtocolServer} (h : msg.WellFormed) {n a b : ℕ}
    (hlen : frameLen msg + a = n + b) : Relayed msg ↔ n + b ≤ maxMessageSizeBytes + a := by
  rw [relayed_iff h]
  omega

/-! ## Errors -/

/-- The errors of a message that carry nothing of it. -/
def BusError.Short : BusError → Prop
  | .topicAlreadyClaimed | .claimWildcardNotSupported | .invalidRequestId | .unknownClient _ => True
  | .deliveryFailed _ message => message = sendErrorText
  | _ => False

theorem BusError.Short.wellFormed {e : BusError} (h : e.Short) : e.WellFormed := by
  cases e with
  | deliveryFailed clientId message =>
    obtain rfl : message = sendErrorText := h
    change WellSized sendErrorText
    decide
  | topicAlreadyClaimed | claimWildcardNotSupported | invalidRequestId | unknownClient clientId =>
    trivial
  | _ => exact h.elim

theorem BusError.Short.length_le {e : BusError} (h : e.Short) : e.toItem.encode.length ≤ 64 := by
  open Cbor in
  cases e with
  | topicAlreadyClaimed | claimWildcardNotSupported | invalidRequestId => decide
  | unknownClient clientId =>
    have hname : (encodeText "UnknownClient").length = 14 := rfl
    have hid := idLen_le clientId
    simp only [BusError.toItem, length_newtypeVariant, length_encode_uint, hname, idLen] at hid ⊢
    omega
  | deliveryFailed clientId message =>
    obtain rfl : message = sendErrorText := h
    have hname : (encodeText "DeliveryFailed").length = 15 := rfl
    have htext : (encodeText sendErrorText).length = 15 := rfl
    have hlen : headLen (0 + 1 + 1) = 1 := rfl
    have hid := idLen_le clientId
    simp only [BusError.toItem, length_newtypeVariant, length_encode_array, length_encodeItems_cons,
      length_encodeItems_nil, length_encode_uint, length_encode_text, List.length_cons,
      List.length_nil, hname, htext, hlen, idLen] at hid ⊢
    omega
  | _ => exact h.elim

namespace Exec

variable {env : Env} {c : ClientId} {core : Core}

theorem start_core : (Exec.start core).core = core := rfl

theorem deliverResult_short {e : BusError} (h : core.deliverResult env c = .error e) : e.Short := by
  rw [Core.deliverResult] at h
  split at h
  · split_ifs at h
    cases h
    rfl
  · cases h
    trivial

theorem map_deliverResult_short {e : BusError}
    (h : ((core.deliverResult env c).map fun _ => ()) = .error e) : e.Short := by
  cases hr : core.deliverResult env c with
  | ok id =>
    rw [hr] at h
    cases h
  | error e' =>
    rw [hr] at h
    cases h
    exact deliverResult_short hr

theorem publishLoop_short {s : Exec} {payload : ProtocolServer} {ids : List ClientId} {e : BusError}
    (h : (publishLoop env payload ids s).1 = .error (.err e)) : e.Short := by
  induction ids generalizing s with
  | nil => cases h
  | cons c ids ih =>
    rw [publishLoop, deliver_eq] at h
    by_cases h₀ : c = 0
    · simp [h₀] at h
    · rw [if_neg h₀] at h
      cases hr : s.core.deliverResult env c with
      | ok id =>
        rw [hr] at h
        exact ih h
      | error e' =>
        rw [hr] at h
        cases h
        exact deliverResult_short hr

theorem claim_short {d : Directory} {t : Topic} {e : BusError} (h : (d.claim c t).1 = .error e) :
    e.Short := by
  rw [Directory.claim, (Directory.claimSegments_cases c t.segments d).1] at h
  split_ifs at h <;> cases h <;> trivial

theorem unclaimSegments_short {topic : List String} {d : Directory} {e : BusError}
    (h : (Directory.unclaimSegments c topic d).1 = .error e) : e.Short := by
  induction topic generalizing d with
  | nil => cases h
  | cons segment rest ih =>
    rw [Directory.unclaimSegments] at h
    split_ifs at h
    · cases h
      trivial
    · cases hc : d.child? segment with
      | none => simp [hc] at h
      | some child =>
        rw [hc] at h
        exact ih h

/-- The result of a publication is that of its loop, with the number of the subscribers. -/
theorem processContent_pub (id : MsgId) (params : PubMsg) :
    (processContent env c ⟨id, .pub params⟩ (.start core)).1 =
      (publishLoop env (.pub params) (env.order.arrange (core.directory.getSubscribers params.topic))
        (.start core)).1.map fun _ => some (core.directory.getSubscribers params.topic).length := by
  simp only [processContent, publish, start_core]
  cases publishLoop env (.pub params)
      (env.order.arrange (core.directory.getSubscribers params.topic)) (.start core) with
  | mk r s => cases r <;> rfl

/-- The error of an operation that returns no count. -/
theorem noCount_error {r : BusResult Unit × Exec} {e : BusError}
    (h : (noCount r).1 = .error (.err e)) : r.1 = .error e := by
  obtain ⟨r | r, s⟩ := r
  · cases h
    rfl
  · cases h

/-- **The error of a message** is that of a request that nobody serves, or carries nothing of it. -/
theorem processContent_error {msg : Msg ProtocolClient} {e : BusError}
    (h : (processContent env c msg (.start core)).1 = .error (.err e)) :
    (∃ params, msg.content = .req params ∧ core.directory.getOwner params.topic = none ∧
      e = .serviceNotFound params.topic) ∨ e.Short := by
  obtain ⟨id, content⟩ := msg
  cases content with
  | pub params =>
    rw [processContent_pub] at h
    cases hl : (publishLoop env (.pub params)
        (env.order.arrange (core.directory.getSubscribers params.topic)) (.start core)).1 with
    | ok u =>
      rw [hl] at h
      cases h
    | error fault =>
      rw [hl] at h
      cases h
      exact Or.inr (publishLoop_short hl)
  | sub params => cases h
  | unsub params =>
    have hok : (core.directory.unsubscribe c params.topic).1 = .ok () :=
      Directory.unsubscribeSegments_ok _ _ _
    have herr : (core.directory.unsubscribe c params.topic).1 = .error e := noCount_error h
    rw [hok] at herr
    cases herr
  | srv params => exact Or.inr (claim_short (noCount_error h))
  | unsrv params =>
    have herr : (core.directory.unclaim c params.topic).1 = .error e := noCount_error h
    exact Or.inr (unclaimSegments_short herr)
  | req params =>
    have herr := noCount_error h
    rw [request_fst, start_core] at herr
    cases ho : core.directory.getOwner params.topic with
    | none =>
      rw [ho] at herr
      cases herr
      exact Or.inl ⟨params, rfl, ho, rfl⟩
    | some o =>
      rw [ho] at herr
      exact Or.inr (map_deliverResult_short herr)
  | rsp params =>
    have herr := noCount_error h
    rw [respond_fst, start_core] at herr
    cases hans : core.answered c params with
    | none =>
      rw [hans] at herr
      cases herr
      exact Or.inr trivial
    | some p =>
      rw [hans] at herr
      exact Or.inr (map_deliverResult_short herr)
  | stop => cases h
  | keepAlive => cases h

/-- The subscribers have different ids. -/
theorem length_getSubscribers_le (d : Directory) (t : Topic) :
    (d.getSubscribers t).length ≤ 2 ^ 32 := by
  have hnodup : ((d.getSubscribers t).map UInt32.toNat).Nodup :=
    (d.nodup_getSubscribers t).map fun _ _ => UInt32.toNat_inj.mp
  have hsub : (d.getSubscribers t).map UInt32.toNat ⊆ List.range (2 ^ 32) := by
    intro k hk
    obtain ⟨c, -, rfl⟩ := List.mem_map.mp hk
    exact List.mem_range.mpr c.toNat_lt
  have hle := (List.subperm_of_subset hnodup hsub).length_le
  rwa [List.length_map, List.length_range] at hle

theorem noCount_ok {r : BusResult Unit × Exec} {n : Option ℕ} (h : (noCount r).1 = .ok n) :
    n = none := by
  obtain ⟨r | r, s⟩ := r <;> cases h
  rfl

theorem processContent_count {msg : Msg ProtocolClient} {n : Option ℕ}
    (h : (processContent env c msg (.start core)).1 = .ok n) : ∀ k ∈ n, k < 2 ^ 64 := by
  have hnone : n = none → ∀ k ∈ n, k < 2 ^ 64 := by
    rintro rfl k hk
    cases hk
  obtain ⟨id, content⟩ := msg
  cases content with
  | pub params =>
    rw [processContent_pub] at h
    cases hl : (publishLoop env (.pub params)
        (env.order.arrange (core.directory.getSubscribers params.topic)) (.start core)).1 with
    | ok u =>
      rw [hl] at h
      cases h
      intro k hk
      cases hk
      exact Nat.lt_of_le_of_lt (length_getSubscribers_le _ _) (by decide)
    | error fault =>
      rw [hl] at h
      cases h
  | sub params | unsub params | srv params | unsrv params | req params | rsp params =>
    exact hnone (noCount_ok h)
  | stop | keepAlive =>
    cases h
    exact hnone rfl

/-- **The Ack of a message is accepted**, unless it carries the topic of a request that nobody
serves. -/
theorem relayed_ack {msg : Msg ProtocolClient} {r : BusResult (Option ℕ)}
    (hr : (processContent env c msg (.start core)).1 = r.mapError .err)
    (hreq : ∀ params, msg.content = .req params → core.directory.getOwner params.topic ≠ none)
    (id : MsgId) : Relayed ⟨id, .ack (.of msg.id r)⟩ := by
  have hle := frameLen_ack_le id (.of msg.id r)
  have hmax : 127 ≤ maxMessageSizeBytes := by decide
  cases r with
  | ok n =>
    have hnull : Cbor.Item.null.encode.length = 1 := rfl
    have hwf : Msg.WellFormed (⟨id, .ack (.of msg.id (.ok n))⟩ : Msg ProtocolServer) :=
      ⟨fun e he => (Option.not_mem_none e he).elim, processContent_count hr⟩
    refine (relayed_iff hwf).mpr (hle.trans ?_)
    simp only [AckMsg.of, optionToItem, hnull]
    omega
  | error e =>
    have hshort : e.Short := by
      refine (processContent_error hr).resolve_left ?_
      rintro ⟨params, hmsg, hnone, -⟩
      exact hreq params hmsg hnone
    have hwf : Msg.WellFormed (⟨id, .ack (.of msg.id (.error e))⟩ : Msg ProtocolServer) := by
      refine ⟨fun e' he => ?_, fun k hk => (Option.not_mem_none k hk).elim⟩
      cases he
      exact hshort.wellFormed
    have hlen := hshort.length_le
    refine (relayed_iff hwf).mpr (hle.trans ?_)
    simp only [AckMsg.of, optionToItem]
    omega

end Exec

/-! ## Room -/

namespace Core

variable (core : Core) (env : Env)

/-- The clients into whose channels `publish` puts the message: those before id 0 and before the first
one that is not reached. -/
def reached (ids : List ClientId) : List ClientId :=
  ids.takeWhile fun c => decide (c ≠ 0) && (core.reach env c).isSome

/-- There is room for what a message makes the server send: the id of the server, or for a publication
each of its ids, is not too long for the frame; nor is the envelope in which the topic of a request
goes back that nobody serves, less the data of the payload. -/
def Relayable (c : ClientId) (msg : Msg ProtocolClient) : Prop :=
  match msg.content with
  | .pub params =>
    ∀ k < (core.reached env (env.order.arrange (core.directory.getSubscribers params.topic))).length,
      frameLen msg + idLen (core.nextMsgId + UInt32.ofNat k) ≤ maxMessageSizeBytes + idLen msg.id
  | .req params =>
    (∀ o ∈ core.directory.getOwner params.topic, (core.reach env o).isSome →
      frameLen msg + idLen core.nextMsgId ≤ maxMessageSizeBytes + idLen msg.id) ∧
    (core.directory.getOwner params.topic = none → (core.reach env c).isSome →
      frameLen msg + 9 + idLen core.nextMsgId ≤ maxMessageSizeBytes + dataLen params.payload.data)
  | .rsp params =>
    ∀ p ∈ core.answered c params, (core.reach env p.requesterId).isSome →
      frameLen msg + (idLen core.nextMsgId + idLen p.requestId) ≤
        maxMessageSizeBytes + (idLen msg.id + idLen params.reqId)
  | _ => True

variable {core env}

/-- Thirteen bytes to spare are enough. -/
theorem relayable_of_le {c : ClientId} {msg : Msg ProtocolClient}
    (h : frameLen msg + 13 ≤ maxMessageSizeBytes) : core.Relayable env c msg := by
  have hid := idLen_pos msg.id
  have hnext := idLen_le core.nextMsgId
  unfold Relayable
  split
  · intro k _
    have hk := idLen_le (core.nextMsgId + UInt32.ofNat k)
    omega
  · next params _ =>
    have hdata := dataLen_pos params.payload.data
    refine ⟨fun _ _ _ => ?_, fun _ _ => ?_⟩ <;> omega
  · next params _ =>
    intro p _ _
    have hp := idLen_le p.requestId
    have hreq := idLen_pos params.reqId
    omega
  · trivial

/-! ## Enqueued messages -/

theorem reached_afterDeliver (c : ClientId) (ids : List ClientId) :
    (core.afterDeliver env c).reached env ids = core.reached env ids := by
  unfold reached
  simp only [reach_afterDeliver]

/-- **The messages that `publish` puts into channels** have consecutive ids. -/
theorem forall_deliveries_attempts (P : Msg ProtocolServer → Prop) (payload : ProtocolServer)
    (ids : List ClientId) :
    (∀ d ∈ core.deliveries env ((core.attempts env ids).map fun c => (c, payload)),
      d.conn.isSome → P d.msg) ↔
      ∀ k < (core.reached env ids).length, P ⟨core.nextMsgId + UInt32.ofNat k, payload⟩ := by
  induction ids generalizing core with
  | nil => simp [attempts, reached, deliveries]
  | cons c ids ih =>
    rw [attempts, reached]
    by_cases h₀ : c = 0
    · simp [h₀, deliveries]
    · cases hr : core.reach env c with
      | none => simp [h₀, hr, deliveries]
      | some conn =>
        have hids : ∀ k, core.nextMsgId + UInt32.ofNat (k + 1) =
            core.nextMsgId + 1 + UInt32.ofNat k := by
          intro k
          rw [UInt32.ofNat_add, UInt32.add_comm (UInt32.ofNat k), ← UInt32.add_assoc]
          rfl
        have hrest := @ih (core.afterDeliver env c)
        rw [Exec.attempts_afterDeliver, reached_afterDeliver, afterDeliver_nextMsgId] at hrest
        rw [if_neg h₀, if_pos Option.isSome_some, List.map_cons, deliveries, List.forall_mem_cons,
          hrest, hr, List.takeWhile_cons_of_pos (by simp [h₀, hr]), List.length_cons,
          Nat.forall_lt_succ_left]
        simp only [hids]
        exact and_congr (by simp) Iff.rfl

/-- The one message that a client is sent. -/
theorem forall_deliveries_singleton (P : Msg ProtocolServer → Prop) (c : ClientId)
    (payload : ProtocolServer) :
    (∀ d ∈ core.deliveries env [(c, payload)], d.conn.isSome → P d.msg) ↔
      ((core.reach env c).isSome → P ⟨core.nextMsgId, payload⟩) := by
  simp [deliveries]

end Core

namespace Exec

variable {env : Env} {core : Core} {c : ClientId} {msg : Msg ProtocolClient}

/-- What a message enqueues: what it makes the core deliver, and its Ack. -/
theorem forall_out {r : BusResult (Option ℕ)}
    (hr : (processContent env c msg (.start core)).1 = r.mapError .err)
    (P : Msg ProtocolServer → Prop) :
    (∀ d ∈ (processTask env (.message c msg) (.start core)).2.out, d.conn.isSome → P d.msg) ↔
      (∀ d ∈ (core.own env c msg).deliveries env (core.sends env c msg), d.conn.isSome → P d.msg) ∧
        ((core.reach env c).isSome →
          P ⟨core.nextMsgId + UInt32.ofNat (core.sends env c msg).length, .ack (.of msg.id r)⟩) := by
  have hreach : ((core.own env c msg).deliverAll env ((core.sends env c msg).map Prod.fst)).reach
      env c = core.reach env c := by
    rw [Core.reach_deliverAll, Core.own_reach]
  have hout : (processTask env (.message c msg) (.start core)).2.out =
      (core.own env c msg).deliveries env
        (core.sends env c msg ++ [(c, .ack (.of msg.id r))]) := by
    rw [processTask, processMsg_eq hr]
    exact List.nil_append _
  rw [hout, Core.deliveries_append, List.forall_mem_append, Core.forall_deliveries_singleton, hreach,
    Core.deliverAll_nextMsgId, Core.own_nextMsgId, List.length_map]

/-- A panic leaves no Ack. -/
theorem out_panic (hp : (processContent env c msg (.start core)).1 = .error .panic) :
    (processTask env (.message c msg) (.start core)).2.out =
      (core.own env c msg).deliveries env (core.sends env c msg) := by
  have hsnd := processContent_snd env (.start core) c msg
  rw [processTask, processMsg]
  cases hc : processContent env c msg (.start core) with
  | mk r s =>
    rw [hc] at hp hsnd
    cases hp
    obtain rfl : s = _ := hsnd
    exact List.nil_append _

theorem relayed_pub_iff {id : MsgId} {params : PubMsg}
    (h : Msg.WellFormed (⟨id, .pub params⟩ : Msg ProtocolClient)) (id' : MsgId) :
    Relayed ⟨id', .pub params⟩ ↔
      frameLen (⟨id, .pub params⟩ : Msg ProtocolClient) + idLen id' ≤
        maxMessageSizeBytes + idLen id := by
  have hwf : Msg.WellFormed (⟨id', .pub params⟩ : Msg ProtocolServer) := h
  exact relayed_iff_of_length hwf (frameLen_forwarded rfl id id')

/-- The messages that a publication enqueues, its Ack apart. -/
theorem relayed_publish_iff {id : MsgId} {params : PubMsg}
    (h : Msg.WellFormed (⟨id, .pub params⟩ : Msg ProtocolClient)) :
    (∀ d ∈ (core.own env c ⟨id, .pub params⟩).deliveries env (core.sends env c ⟨id, .pub params⟩),
      d.conn.isSome → Relayed d.msg) ↔ core.Relayable env c ⟨id, .pub params⟩ :=
  (Core.forall_deliveries_attempts Relayed _ _).trans
    (forall₂_congr fun _ _ => relayed_pub_iff h _)

theorem relayed_req_iff {id : MsgId} {params : ReqMsg}
    (h : Msg.WellFormed (⟨id, .req params⟩ : Msg ProtocolClient)) (id' : MsgId) :
    Relayed ⟨id', .req params⟩ ↔
      frameLen (⟨id, .req params⟩ : Msg ProtocolClient) + idLen id' ≤
        maxMessageSizeBytes + idLen id := by
  have hwf : Msg.WellFormed (⟨id', .req params⟩ : Msg ProtocolServer) := h
  exact relayed_iff_of_length hwf (frameLen_forwarded rfl id id')

theorem relayed_rsp_iff {id : MsgId} {params : RspMsg}
    (h : Msg.WellFormed (⟨id, .rsp params⟩ : Msg ProtocolClient)) (id' reqId' : MsgId) :
    Relayed ⟨id', .rsp { params with reqId := reqId' }⟩ ↔
      frameLen (⟨id, .rsp params⟩ : Msg ProtocolClient) + (idLen id' + idLen reqId') ≤
        maxMessageSizeBytes + (idLen id + idLen params.reqId) := by
  have hwf : Msg.WellFormed (⟨id', .rsp { params with reqId := reqId' }⟩ : Msg ProtocolServer) := h
  exact relayed_iff_of_length hwf (frameLen_rsp id id' reqId' params)

theorem relayed_serviceNotFound_iff {id : MsgId} {params : ReqMsg}
    (h : Msg.WellFormed (⟨id, .req params⟩ : Msg ProtocolClient)) (id' : MsgId) :
    Relayed ⟨id', .ack (.of id (.error (.serviceNotFound params.topic)))⟩ ↔
      frameLen (⟨id, .req params⟩ : Msg ProtocolClient) + 9 + idLen id' ≤
        maxMessageSizeBytes + dataLen params.payload.data := by
  have hwf : Msg.WellFormed (⟨id', .ack (.of id (.error (.serviceNotFound params.topic)))⟩ :
      Msg ProtocolServer) := by
    refine ⟨fun e he => ?_, fun k hk => (Option.not_mem_none k hk).elim⟩
    cases he
    exact h.1
  exact relayed_iff_of_length hwf (frameLen_serviceNotFound id id' params)

/-- The result of a request that nobody serves. -/
theorem processContent_unserved {id : MsgId} {params : ReqMsg}
    (ho : core.directory.getOwner params.topic = none) :
    (processContent env c ⟨id, .req params⟩ (.start core)).1 =
      .error (.err (.serviceNotFound params.topic)) := by
  rw [processContent, noCount_fst, request_fst, start_core, ho]
  rfl

/-- **What a message makes the server send is accepted** by the receivers exactly when there is room
for it. -/
theorem relayed_out_iff (h : msg.WellFormed) :
    (∀ d ∈ (processTask env (.message c msg) (.start core)).2.out, d.conn.isSome → Relayed d.msg) ↔
      core.Relayable env c msg := by
  obtain ⟨id, content⟩ := msg
  rcases processContent_fst env (.start core) c ⟨id, content⟩ with hp | ⟨r, hr⟩
  · obtain ⟨params, hmsg, -⟩ := processContent_panic.mp hp
    obtain rfl : content = .pub params := hmsg
    rw [out_panic hp]
    exact relayed_publish_iff h
  · rw [forall_out hr]
    have hack : (∀ params, content = .req params → core.directory.getOwner params.topic ≠ none) →
        ∀ A : Prop, (A ∧ ((core.reach env c).isSome → Relayed ⟨core.nextMsgId +
          UInt32.ofNat (core.sends env c ⟨id, content⟩).length, .ack (.of id r)⟩)) ↔ A :=
      fun hreq A => and_iff_left fun _ => relayed_ack hr hreq _
    cases content with
    | pub params =>
      rw [hack (by simp)]
      exact relayed_publish_iff h
    | req params =>
      cases ho : core.directory.getOwner params.topic with
      | some o =>
        have hreq : ∀ params', ProtocolClient.req params = .req params' →
            core.directory.getOwner params'.topic ≠ none := by
          rintro params' ⟨⟩ hnone
          exact Option.some_ne_none o (ho.symm.trans hnone)
        have hsends : core.sends env c ⟨id, .req params⟩ = [(o, .req params)] := by
          simp [Core.sends, ho]
        rw [hack hreq, hsends, Core.forall_deliveries_singleton, Core.own_reach, Core.own_nextMsgId,
          relayed_req_iff h]
        simp [Core.Relayable, ho]
      | none =>
        obtain rfl : r = .error (.serviceNotFound params.topic) := by
          rw [processContent_unserved ho] at hr
          cases r <;> cases hr
          rfl
        have hsends : core.sends env c ⟨id, .req params⟩ = [] := by simp [Core.sends, ho]
        rw [hsends, relayed_serviceNotFound_iff h]
        simp [Core.Relayable, Core.deliveries, ho]
    | rsp params =>
      rw [hack (by simp)]
      cases hans : core.answered c params with
      | none =>
        have hsends : core.sends env c ⟨id, .rsp params⟩ = [] := by simp [Core.sends, hans]
        rw [hsends]
        simp [Core.Relayable, Core.deliveries, hans]
      | some p =>
        have hsends : core.sends env c ⟨id, .rsp params⟩ = [Core.rspTo p params] := by
          simp [Core.sends, hans]
        rw [hsends, Core.rspTo, Core.forall_deliveries_singleton, Core.own_reach, Core.own_nextMsgId,
          relayed_rsp_iff h]
        simp [Core.Relayable, hans]
    | _ =>
      rw [hack (by simp)]
      simp [Core.sends, Core.deliveries, Core.Relayable]

end Exec

/-! ## In a run -/

/-- The decoder of the server has read the message from some frame. -/
def Admitted (msg : Msg ProtocolClient) : Prop :=
  ∃ src wire rest, decode (serde ProtocolClient) src = (.ok (some wire), rest) ∧ wire.1 = msg

theorem admitted_of_le {msg : Msg ProtocolClient} (h : msg.WellFormed)
    (hlen : frameLen msg ≤ maxMessageSizeBytes) : Admitted msg := by
  have hser : (serde ProtocolClient).ser ⟨msg, h⟩ = .ok msg.toItem.encode := rfl
  exact ⟨_, ⟨msg, h⟩, [], (decode_frame_iff (serde ProtocolClient) hser).mpr hlen, rfl⟩

namespace Record

variable {r : Record} {c : ClientId} {msg : Msg ProtocolClient}

/-- The decoders of the clients accept the frames of all messages that the task enqueues. -/
def Relays (r : Record) : Prop := ∀ d ∈ r.exec.2.out, d.conn.isSome → Relayed d.msg

end Record

/-! ## A request at the limit -/

/-- A request without payload to the path `aa…a` of `n + 1` characters. -/
def longReq (n : ℕ) : Msg ProtocolClient := ⟨0, .req ⟨⟨"p", ⟨repeatA (n + 1)⟩⟩, ⟨[], false⟩⟩⟩

theorem valid_longReq (n : ℕ) : (longReq n).content.Valid := by
  have hproto : IsProtocol "p" := by decide
  rintro t ⟨⟩
  exact (Topic.valid_iff _).mpr ⟨hproto, (isWord_repeatA n).segments⟩

theorem wellFormed_longReq {n : ℕ} (h : n + 1 < 2 ^ 63) : (longReq n).WellFormed := by
  have hproto : WellSized "p" := by decide
  have hpayload : Payload.WellFormed ⟨[], false⟩ := by decide
  refine ⟨⟨valid_longReq n _ rfl, hproto, ?_⟩, hpayload⟩
  rw [WellSized, utf8ByteSize_repeatA]
  exact h

open Cbor in
theorem frameLen_longReq (n : ℕ) : frameLen (longReq n) = 59 + headLen (n + 1) + n := by
  have hcontent : Content.toItem (longReq n).content = newtypeVariant "Req"
    (addressedToItem ⟨"p", ⟨repeatA (n + 1)⟩⟩ ⟨[], false⟩) := rfl
  have hname : (encodeText "Req").length = 4 := rfl
  have hproto : (encodeText "p").length = 2 := rfl
  have hid : idLen (longReq n).id = 1 := rfl
  have hdata : dataLen [] = 1 := rfl
  have hlen : headLen (0 + 1 + 1) = 1 := rfl
  simp only [frameLen_eq, hcontent, length_newtypeVariant, length_addressedToItem, Topic.toItem,
    length_encode_array, length_encodeItems_cons, length_encodeItems_nil, length_encode_text,
    List.length_cons, List.length_nil, hname, hproto, hid, hdata, hlen]
  rw [length_encodeText, utf8ByteSize_repeatA]
  omega

namespace System

/-- Client 1 connects and sends one message. -/
def sendOne (msg : Msg ProtocolClient) (h : msg.content.Valid) : List Act :=
  [.connect 0, .process .given, .receive 0 msg h, .process .given]

/-- The message is processed by a core that nobody has used before. -/
theorem run_sendOne (msg : Msg ProtocolClient) (h : msg.content.Valid) :
    ∃ s r, Lts.run step init (sendOne msg h) = some s ∧ r ∈ s.log ∧ r.task = .message 1 msg ∧
      r.core.directory = Core.new.directory ∧ r.core.nextMsgId = 0 ∧
      (r.core.reach r.env 1).isSome := by
  refine ⟨_, _, rfl, List.mem_append_right _ (List.mem_singleton_self _), rfl, rfl, rfl, rfl⟩

/-- Nobody serves a topic at first. -/
theorem getOwner_new (path : Path) : Core.new.directory.getOwner ⟨"p", path⟩ = none := rfl

end System

end T2Bus
