import T2Bus.Protocol

/-!
# What an API call returns

An API call waits for its Ack, and fails if the Ack has an error or does not come.

* `Awaited`: what the call finds in its channel; `expectAck`, `publishBytes`: what it returns.
-/

namespace T2Bus

/-- What comes out of a oneshot channel before the timeout. -/
inductive Awaited (α : Type) where
  | value (payload : α)
  /-- The sender is gone. -/
  | closed
  | elapsed

def expectAck : Awaited AckMsg → BusResult (Option ℕ)
  | .value ack =>
    match ack.err with
    | some err => .error (.requestFailed err.display)
    | none => .ok ack.numRecipients
  | .closed => .error .requestFailedChannelClosed
  | .elapsed => .error .requestFailedTimeout

/-- `Client::publish_bytes`, once its task is queued. -/
def publishBytes (awaited : Awaited AckMsg) : Except Fault ℕ :=
  match expectAck awaited with
  | .ok (some numRecipients) => .ok numRecipients
  -- the `unwrap`
  | .ok none => .error .panic
  | .error e => .error (.err e)

/-- A publication panics at an Ack that has neither an error nor a count. -/
theorem publishBytes_panic {awaited : Awaited AckMsg} : publishBytes awaited = .error .panic ↔
    ∃ ack, awaited = .value ack ∧ ack.err = none ∧ ack.numRecipients = none := by
  unfold publishBytes
  cases awaited with
  | value ack =>
    obtain ⟨msgId, err, numRecipients⟩ := ack
    cases err <;> cases numRecipients <;> simp [expectAck]
  | closed => simp [expectAck]
  | elapsed => simp [expectAck]

end T2Bus
