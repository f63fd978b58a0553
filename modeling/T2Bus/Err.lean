import T2Bus.Topic.Basic

/-!
# Errors

`BusError` with its texts, and `BusResult` for what may fail. A `u32` is a `UInt32`, a Rust string a
`String`.
-/

namespace T2Bus

inductive BusError where
  | invalidTopicString (message : String)
  | requestFailedChannelClosed
  | requestFailedTimeout
  | requestFailed (message : String)
  | invalidRequestId
  | topicAlreadyClaimed
  | claimWildcardNotSupported
  | channelClosed
  | serviceNotFound (topic : Topic)
  | deliveryFailed (clientId : UInt32) (message : String)
  | unknownClient (clientId : UInt32)
  | malformedMessage (protocol message : String)
  | unserializableMessage (message : String)
  | ioError (message : String)
  | internalError (message : String)
  | tlsConfigError (message : String)
  | dnsLookupFailed
  | clientTimeout (clientId : UInt32)
  deriving DecidableEq

/-- The text of an error. -/
def BusError.display : BusError → String
  | .invalidTopicString message => "Invalid topic string: " ++ message
  | .requestFailedChannelClosed => "Request failed: Channel closed while awaiting ACK"
  | .requestFailedTimeout => "Request failed: Timeout while awaiting ACK"
  | .requestFailed message => "Request failed: " ++ message
  | .invalidRequestId => "Respond failed: Invalid request ID or requester disconnected"
  | .topicAlreadyClaimed => "Claim topic failed: Already claimed"
  | .claimWildcardNotSupported => "Claim topic failed: Wildcards not supported"
  | .channelClosed => "Channel closed by peer"
  | .serviceNotFound topic => "Service not found: " ++ topic.display
  | .deliveryFailed clientId message =>
    "Message delivery failed: Client #" ++ toString clientId.toNat ++ ": " ++ message
  | .unknownClient clientId => "Message delivery failed: Unknown client " ++ toString clientId.toNat
  | .malformedMessage protocol message =>
    "Deserialize message failed. Protocol: " ++ protocol ++ ". Error: " ++ message
  | .unserializableMessage message => "Serialize message failed: " ++ message
  | .ioError message => "IO error: " ++ message
  | .internalError message => "Internal error: " ++ message
  | .tlsConfigError message => "TLS configuration error: " ++ message
  | .dnsLookupFailed => "DNS lookup failed"
  | .clientTimeout clientId =>
    "Client #" ++ toString clientId.toNat ++
      " timed out, no messages or keep alives for KEEP_ALIVE_TIMEOUT_S"

abbrev BusResult (α : Type) := Except BusError α

/-- How a task can fail: with an error that `?` hands up, or by a panic. -/
inductive Fault where
  | err (e : BusError)
  | panic
  deriving DecidableEq

/-- The text of tokio's `SendError`. -/
def sendErrorText : String := "channel closed"

end T2Bus
