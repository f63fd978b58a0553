import T2Bus.Client.Api
import T2Bus.Client.Core
import T2Bus.Transport.Payload

/-!
# The two request calls

`request` and `request_bytes` queue the same task and wait for the same Ack and response. `request`
looks at the status of the response, `request_bytes` does not.

* `Outcome`: what a request call finds; `Client.request`, `Client.requestBytes`;
* `Client.Agree`, `Outcome.TimesOut`; **`Client.request_agree_iff`**;
  `Client.not_agree_timeout`: a response that tells of a timeout.
-/

namespace T2Bus

/-- The text of tokio's `RecvError`. -/
def recvErrorText : String := "channel closed"

/-- What a request call finds when it queues its task and waits. -/
structure Outcome where
  /-- The core takes the task. -/
  send : ClientTask → BusResult Unit
  ack : Awaited AckMsg
  /-- What comes out of the response channel; `none` if its sender is gone. -/
  rsp : Option RspMsg

/-- `callback_rsp_receiver.await?` -/
def Outcome.response (o : Outcome) : BusResult RspMsg :=
  match o.rsp with
  | some rsp => .ok rsp
  | none => .error (.internalError recvErrorText)

namespace Client

variable {R : Type} (gzip : Gzip) (deser : List UInt8 → BusResult R)

/-- The task of a request; both of its callbacks have the number of the call. -/
def requestTask (topic : Topic) (payload : List UInt8) (call : Callback) : ClientTask :=
  .req ⟨⟨topic, .ofBytes gzip payload⟩, call, call⟩

/-- `Client::request`; `payload` is what the serializer makes of the request. -/
def request (protocol : String) (path : Path) (payload : BusResult (List UInt8)) (call : Callback)
    (o : Outcome) : Except Fault R := do
  let topic ← (Topic.new protocol path).mapError .err
  let payload ← payload.mapError .err
  (o.send (requestTask gzip topic payload call)).mapError .err
  let _ ← (expectAck o.ack).mapError .err
  let rsp ← o.response.mapError .err
  match rsp.status with
  | .ok => do
    let data ← rsp.payload.toBytes gzip
    (deser data).mapError .err
  | .timeout => .error (.err .requestFailedTimeout)

/-- `Client::request_bytes` -/
def requestBytes (topic : Topic) (payload : List UInt8) (call : Callback) (o : Outcome) :
    Except Fault (List UInt8) := do
  (o.send (requestTask gzip topic payload call)).mapError .err
  let _ ← (expectAck o.ack).mapError .err
  let rsp ← o.response.mapError .err
  rsp.payload.toBytes gzip

end Client

namespace Outcome

/-- What the task is answered with, if it is. -/
def answer (o : Outcome) (task : ClientTask) : BusResult RspMsg := do
  o.send task
  let _ ← expectAck o.ack
  o.response

/-- The core takes the task, its Ack has no error, and a response comes, with the status of a
timeout. -/
def TimesOut (o : Outcome) (task : ClientTask) : Prop :=
  o.send task = .ok () ∧ (∃ ack, o.ack = .value ack ∧ ack.err = none) ∧
    ∃ rsp, o.rsp = some rsp ∧ rsp.status = .timeout

theorem expectAck_ok {awaited : Awaited AckMsg} :
    (∃ count, expectAck awaited = .ok count) ↔ ∃ ack, awaited = .value ack ∧ ack.err = none := by
  cases awaited with
  | value ack => cases herr : ack.err <;> simp [expectAck, herr]
  | closed | elapsed => simp [expectAck]

theorem answer_ok {o : Outcome} {task : ClientTask} {rsp : RspMsg} : o.answer task = .ok rsp ↔
    o.send task = .ok () ∧ (∃ ack, o.ack = .value ack ∧ ack.err = none) ∧ o.rsp = some rsp := by
  rw [← expectAck_ok, answer, response]
  cases o.send task with
  | error e => exact iff_of_false (by rintro ⟨⟩) (by rintro ⟨⟨⟩, -⟩)
  | ok u =>
    cases expectAck o.ack with
    | error e => exact iff_of_false (by rintro ⟨⟩) (by rintro ⟨-, ⟨count, ⟨⟩⟩, -⟩)
    | ok count =>
      cases o.rsp with
      | none => exact iff_of_false (by rintro ⟨⟩) (by rintro ⟨-, -, ⟨⟩⟩)
      | some rsp' =>
        refine ⟨fun h => ?_, fun h => ?_⟩
        · cases h
          exact ⟨rfl, ⟨count, rfl⟩, rfl⟩
        · cases h.2.2
          rfl

theorem timesOut_iff (o : Outcome) (task : ClientTask) :
    o.TimesOut task ↔ ∃ rsp, o.answer task = .ok rsp ∧ rsp.status = .timeout := by
  simp only [answer_ok, TimesOut, and_assoc, exists_and_left]

end Outcome

namespace Client

variable {R : Type} {gzip : Gzip} {deser : List UInt8 → BusResult R} {protocol : String} {path : Path}
  {topic : Topic} {payload : List UInt8} {call : Callback} {o : Outcome}

/-- The two calls agree: on errors, on the answer, and on a timeout. -/
structure Agree (deser : List UInt8 → BusResult R) (o : Outcome) (task : ClientTask)
    (bytes : Except Fault (List UInt8)) (typed : Except Fault R) : Prop where
  err : ∀ e, bytes = .error (.err e) → typed = .error (.err e)
  ok : ∀ data, bytes = .ok data → typed = (deser data).mapError .err
  timeout : o.TimesOut task →
    bytes = .error (.err .requestFailedTimeout) ∧ typed = .error (.err .requestFailedTimeout)

variable (gzip topic payload call o) in
theorem requestBytes_eq : requestBytes gzip topic payload call o =
    match o.answer (requestTask gzip topic payload call) with
    | .ok rsp => rsp.payload.toBytes gzip
    | .error e => .error (.err e) := by
  unfold requestBytes Outcome.answer
  cases o.send (requestTask gzip topic payload call) with
  | error e => rfl
  | ok u =>
    cases expectAck o.ack with
    | error e => rfl
    | ok count => cases o.response <;> rfl

variable (gzip deser payload call o) in
theorem request_eq (ht : Topic.new protocol path = .ok topic) :
    request gzip deser protocol path (.ok payload) call o =
      match o.answer (requestTask gzip topic payload call) with
      | .ok rsp =>
        match rsp.status with
        | .ok => rsp.payload.toBytes gzip >>= fun data => (deser data).mapError .err
        | .timeout => .error (.err .requestFailedTimeout)
      | .error e => .error (.err e) := by
  unfold request Outcome.answer
  rw [ht]
  change (do
    (o.send (requestTask gzip topic payload call)).mapError Fault.err
    let _ ← (expectAck o.ack).mapError .err
    let rsp ← o.response.mapError .err
    match rsp.status with
    | .ok => do
      let data ← rsp.payload.toBytes gzip
      (deser data).mapError .err
    | .timeout => .error (.err .requestFailedTimeout)) = _
  cases o.send (requestTask gzip topic payload call) with
  | error e => rfl
  | ok u =>
    cases expectAck o.ack with
    | error e => rfl
    | ok count => cases o.response <;> rfl

/-- **The two request calls agree exactly if** the server does not let the request time out. -/
theorem request_agree_iff (ht : Topic.new protocol path = .ok topic) :
    Agree deser o (requestTask gzip topic payload call) (requestBytes gzip topic payload call o)
      (request gzip deser protocol path (.ok payload) call o) ↔
    ¬ o.TimesOut (requestTask gzip topic payload call) := by
  have hbytes := requestBytes_eq gzip topic payload call o
  have htyped := request_eq gzip deser payload call o ht
  have htime := o.timesOut_iff (requestTask gzip topic payload call)
  cases hanswer : o.answer (requestTask gzip topic payload call) with
  | error e =>
    rw [hanswer] at hbytes htyped htime
    have hnot : ¬ o.TimesOut (requestTask gzip topic payload call) := by
      rw [htime]
      rintro ⟨rsp, ⟨⟩, -⟩
    refine iff_of_true ⟨fun e' he => ?_, fun data hd => ?_, fun h => absurd h hnot⟩ hnot
    · rw [hbytes] at he
      cases he
      exact htyped
    · rw [hbytes] at hd
      cases hd
  | ok rsp =>
    rw [hanswer] at hbytes htyped htime
    simp only at hbytes htyped
    cases hstatus : rsp.status with
    | timeout =>
      have hout := htime.mpr ⟨rsp, rfl, hstatus⟩
      refine iff_of_false (fun hagree => ?_) fun hnot => hnot hout
      -- the bytes of a response are never the error of a timeout
      have hfail := (hagree.timeout hout).1
      rw [hbytes, Payload.toBytes] at hfail
      split_ifs at hfail
      · cases hd : gzip.decompress rsp.payload.data <;> rw [hd] at hfail <;> cases hfail
    | ok =>
      have hnot : ¬ o.TimesOut (requestTask gzip topic payload call) := by
        rw [htime]
        rintro ⟨rsp', hr, htime⟩
        cases hr
        rw [hstatus] at htime
        cases htime
      rw [hstatus, ← hbytes] at htyped
      refine iff_of_true ⟨fun e he => ?_, fun data hd => ?_, fun h => absurd h hnot⟩ hnot
      · rw [htyped, he]
        rfl
      · rw [htyped, hd]
        rfl

/-- A call whose task is taken and acknowledged. -/
def answered (rsp : RspMsg) : Outcome := ⟨fun _ => .ok (), .value ⟨1, none, none⟩, some rsp⟩

/-- A response with a text. -/
theorem request_agree_text :
    Agree deserText (answered ⟨1, .ok, ⟨[97, 98], false⟩⟩) (requestTask noGzip ⟨"text", ⟨"a"⟩⟩ [96] 0)
      (requestBytes noGzip ⟨"text", ⟨"a"⟩⟩ [96] 0 (answered ⟨1, .ok, ⟨[97, 98], false⟩⟩))
      (request noGzip deserText "text" ⟨"a"⟩ (.ok [96]) 0 (answered ⟨1, .ok, ⟨[97, 98], false⟩⟩)) := by
  refine (request_agree_iff (by decide)).mpr ?_
  rintro ⟨-, -, rsp, hr, htime⟩
  cases hr
  cases htime

/-- **The response that the server makes up for a request that times out** is an error of `request`, and
an empty answer of `request_bytes`. -/
theorem not_agree_timeout :
    ¬ Agree deserText (answered ⟨1, .timeout, ⟨[], false⟩⟩) (requestTask noGzip ⟨"text", ⟨"a"⟩⟩ [96] 0)
      (requestBytes noGzip ⟨"text", ⟨"a"⟩⟩ [96] 0 (answered ⟨1, .timeout, ⟨[], false⟩⟩))
      (request noGzip deserText "text" ⟨"a"⟩ (.ok [96]) 0 (answered ⟨1, .timeout, ⟨[], false⟩⟩)) := by
  intro h
  have hfail := (h.timeout ⟨rfl, ⟨_, rfl, rfl⟩, _, rfl, rfl⟩).1
  have hok : requestBytes noGzip ⟨"text", ⟨"a"⟩⟩ [96] 0 (answered ⟨1, .timeout, ⟨[], false⟩⟩) =
      .ok [] := rfl
  rw [hok] at hfail
  cases hfail

end Client

end T2Bus
