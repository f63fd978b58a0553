import T2Bus.Server.Step

/-!
# Acknowledgements

Every message is acknowledged to its sender, unless it makes the core panic; the Ack carries the
result of the message.

* `acks`: the Acks for a client; `Exec.acks_message`, `Exec.acks_message_panic`;
* `Exec.acks_req`: a request is acknowledged without error exactly when it is accepted;
* `Exec.out_rsp_refused`: a response that answers nothing is refused, and that is all.
-/

namespace T2Bus

/-- The Acks for a client. -/
def acks (out : List Delivery) (c : ClientId) : List AckMsg :=
  out.filterMap fun d =>
    match d.msg.content with
    | .ack params => if d.clientId = c then some params else none
    | _ => none

theorem acks_append (out out' : List Delivery) (c : ClientId) :
    acks (out ++ out') c = acks out c ++ acks out' c := List.filterMap_append

namespace Core

variable {core : Core} {env : Env}

/-- A message makes the core deliver no Ack but its own. -/
theorem sends_not_ack {c : ClientId} {msg : Msg ProtocolClient} {x : ClientId × ProtocolServer}
    (hx : x ∈ core.sends env c msg) (a : AckMsg) : x.2 ≠ .ack a := by
  obtain ⟨id, content⟩ := msg
  cases content with
  | pub params =>
    obtain ⟨d, -, rfl⟩ := List.mem_map.mp hx
    exact ProtocolServer.noConfusion
  | req params =>
    obtain ⟨o, -, rfl⟩ := Option.map_eq_some_iff.mp (Option.mem_toList.mp hx)
    exact ProtocolServer.noConfusion
  | rsp params =>
    obtain ⟨p, -, rfl⟩ := Option.map_eq_some_iff.mp (Option.mem_toList.mp hx)
    exact ProtocolServer.noConfusion
  | _ => cases hx

theorem taskSends_not_ack {task : Task} {x : ClientId × ProtocolServer}
    (hx : x ∈ core.taskSends env task) (a : AckMsg) : x.2 ≠ .ack a := by
  cases task with
  | register conn => cases hx
  | deregister c => cases hx
  | message c msg => exact sends_not_ack hx a
  | requestTimeout k =>
    have hsent : x ∈ core.sends env 0 ⟨0, .rsp (Exec.timeoutRsp k)⟩ := hx
    exact sends_not_ack hsent a

theorem acks_deliveries {l : List (ClientId × ProtocolServer)} (h : ∀ x ∈ l, ∀ a, x.2 ≠ .ack a)
    (core : Core) (c : ClientId) : acks (core.deliveries env l) c = [] := by
  refine List.filterMap_eq_nil_iff.mpr fun d hd => ?_
  have hno := h _ (mem_deliveries hd).1
  cases hcontent : d.msg.content with
  | ack a => exact absurd hcontent (hno a)
  | _ => rfl

end Core

namespace Exec

variable {env : Env} {core : Core} {c : ClientId} {msg : Msg ProtocolClient}

/-- **A message is acknowledged once, with its result.** -/
theorem acks_message {r : BusResult (Option ℕ)}
    (hr : (processContent env c msg (.start core)).1 = r.mapError .err) :
    acks (processTask env (.message c msg) (.start core)).2.out c = [.of msg.id r] := by
  rw [processTask, processMsg_eq hr]
  simp only [deliverList, withOwn, Exec.start, List.nil_append, Core.deliveries_append, acks_append]
  rw [Core.acks_deliveries fun x hx => Core.sends_not_ack hx]
  simp [Core.deliveries, acks]

/-- A panic leaves no Ack. -/
theorem acks_message_panic (hr : (processContent env c msg (.start core)).1 = .error .panic) :
    acks (processTask env (.message c msg) (.start core)).2.out c = [] := by
  have hsnd := processContent_snd env (.start core) c msg
  have hout : (processTask env (.message c msg) (.start core)).2 =
      (processContent env c msg (.start core)).2 := by
    rw [processTask, processMsg]
    cases hc : processContent env c msg (.start core) with
    | mk r s =>
      rw [hc] at hr
      cases hr
      rfl
  rw [hout, hsnd]
  exact Core.acks_deliveries (fun x hx => Core.sends_not_ack hx) _ c

/-! ## Requests -/

variable (env c) in
theorem request_fst (s : Exec) (reqId : MsgId) (params : ReqMsg) :
    (request env c reqId params s).1 =
      match s.core.directory.getOwner params.topic with
      | some o => (s.core.deliverResult env o).map fun _ => ()
      | none => .error (.serviceNotFound params.topic) := by
  rw [request]
  cases s.core.directory.getOwner params.topic with
  | none => rfl
  | some o =>
    simp only [deliver_eq]
    cases s.core.deliverResult env o <;> rfl

/-- **A request is acknowledged without error exactly when it is accepted.** -/
theorem acks_req {id : MsgId} {params : ReqMsg} :
    (∃ a, acks (processTask env (.message c ⟨id, .req params⟩) (.start core)).2.out c = [a] ∧
      a.err = none) ↔ (core.accepts env (.message c ⟨id, .req params⟩)).isSome := by
  have hfst := request_fst env c (.start core) id params
  have hproc : ∀ r : BusResult Unit, (request env c id params (.start core)).1 = r →
      (processContent env c ⟨id, .req params⟩ (.start core)).1 =
        (r.map fun _ => none : BusResult (Option ℕ)).mapError .err := by
    rintro r rfl
    exact noCount_fst _
  have hacc : (core.accepts env (.message c ⟨id, .req params⟩)).isSome =
      ((core.directory.getOwner params.topic).filter fun o => (core.reach env o).isSome).isSome := by
    simp [Core.accepts, Core.accepted]
  rw [hacc]
  change _ = (match core.directory.getOwner params.topic with
    | some o => (core.deliverResult env o).map fun _ => ()
    | none => .error (.serviceNotFound params.topic)) at hfst
  cases ho : core.directory.getOwner params.topic with
  | none =>
    rw [ho] at hfst
    rw [acks_message (hproc _ hfst)]
    simp [AckMsg.of, Except.map]
  | some o =>
    rw [ho] at hfst
    rw [acks_message (hproc _ hfst)]
    cases hr : core.reach env o with
    | none =>
      obtain ⟨e, he⟩ := deliverResult_error hr
      simp [he, AckMsg.of, Except.map, Option.filter, hr]
    | some conn => simp [deliverResult_ok hr, AckMsg.of, Except.map, Option.filter, hr]

/-! ## Responses -/

/-- **A response that answers no request of its sender is acknowledged with `InvalidRequestId`, and
nothing else leaves the core.** -/
theorem out_rsp_refused {id : MsgId} {params : RspMsg} (h : core.answered c params = none) :
    (processTask env (.message c ⟨id, .rsp params⟩) (.start core)).2.out =
      [⟨c, ⟨core.nextMsgId, .ack ⟨id, some .invalidRequestId, none⟩⟩, core.reach env c⟩] := by
  have hfst := respond_fst env (.start core) c params
  have hres : (processContent env c ⟨id, .rsp params⟩ (.start core)).1 =
      (.error .invalidRequestId : BusResult (Option ℕ)).mapError .err := by
    rw [show (Exec.start core).core.answered c params = none from h] at hfst
    refine (noCount_fst _).trans ?_
    rw [hfst]
    rfl
  rw [processTask, processMsg_eq hres]
  simp [deliverList, withOwn, Exec.start, Core.own, Core.sends, h, Core.deliveries, AckMsg.of]

end Exec

end T2Bus
