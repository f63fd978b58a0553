import T2Bus.Topic.Syntax

/-!
# Messages

What clients and the server say to each other. Ids and lengths are the source's `u32` and `usize`.
`subbed` is what a sequence of messages makes of the subscription to a topic.
-/

namespace T2Bus

abbrev ClientId := UInt32

abbrev MsgId := UInt32

/-- `MAX_MESSAGE_SIZE_BYTES` -/
def maxMessageSizeBytes : ℕ := 1 <<< 20

structure Payload where
  data : List UInt8
  isCompressed : Bool
  deriving DecidableEq

structure SubMsg where
  topic : Topic
  deriving DecidableEq

structure UnsubMsg where
  topic : Topic
  deriving DecidableEq

structure PubMsg where
  topic : Topic
  payload : Payload
  deriving DecidableEq

structure SrvMsg where
  topic : Topic
  deriving DecidableEq

structure UnsrvMsg where
  topic : Topic
  deriving DecidableEq

structure ReqMsg where
  topic : Topic
  payload : Payload
  deriving DecidableEq

inductive RspMsgStatus where
  | ok
  | timeout
  deriving DecidableEq

structure RspMsg where
  reqId : MsgId
  status : RspMsgStatus
  payload : Payload
  deriving DecidableEq

structure AckMsg where
  msgId : MsgId
  err : Option BusError
  numRecipients : Option ℕ
  deriving DecidableEq

/-- What a client sends to the server. -/
inductive ProtocolClient where
  | sub (params : SubMsg)
  | pub (params : PubMsg)
  | srv (params : SrvMsg)
  | req (params : ReqMsg)
  | rsp (params : RspMsg)
  | unsub (params : UnsubMsg)
  | unsrv (params : UnsrvMsg)
  | stop
  | keepAlive
  deriving DecidableEq

/-- What the server sends to a client. -/
inductive ProtocolServer where
  | pub (params : PubMsg)
  | req (params : ReqMsg)
  | rsp (params : RspMsg)
  | ack (params : AckMsg)
  deriving DecidableEq

structure Msg (T : Type) where
  id : MsgId
  content : T
  deriving DecidableEq

/-- The topic a client message carries. -/
def ProtocolClient.topic? : ProtocolClient → Option Topic
  | .sub params => some params.topic
  | .pub params => some params.topic
  | .srv params => some params.topic
  | .req params => some params.topic
  | .unsub params => some params.topic
  | .unsrv params => some params.topic
  | .rsp _ | .stop | .keepAlive => none

/-- A message whose topic is valid: all that the wire decoder and the client's methods produce. -/
def ProtocolClient.Valid (content : ProtocolClient) : Prop := ∀ t ∈ content.topic?, t.Valid

instance (content : ProtocolClient) : Decidable content.Valid := by
  unfold ProtocolClient.Valid; infer_instance

/-! ## The subscription that messages leave -/

/-- What a message makes of the subscription to a topic. -/
def subscribesTo (t : Topic) (subscribed : Bool) : ProtocolClient → Bool
  | .sub params => subscribed || decide (params.topic = t)
  | .unsub params => subscribed && !decide (params.topic = t)
  | _ => subscribed

/-- What messages make of the subscription to a topic. -/
def subbed (t : Topic) (msgs : List (Msg ProtocolClient)) : Bool :=
  msgs.foldl (fun subscribed msg => subscribesTo t subscribed msg.content) false

theorem subbed_concat (t : Topic) (msgs : List (Msg ProtocolClient)) (msg : Msg ProtocolClient) :
    subbed t (msgs ++ [msg]) = subscribesTo t (subbed t msgs) msg.content :=
  List.foldl_concat ..

/-- A subscription survives every message but its own Unsub. -/
theorem subbed_concat_of_ne {t : Topic} {msgs : List (Msg ProtocolClient)} {msg : Msg ProtocolClient}
    (h : subbed t msgs = true) (hne : msg.content ≠ .unsub ⟨t⟩) : subbed t (msgs ++ [msg]) = true := by
  rw [subbed_concat, h]
  obtain ⟨id, content⟩ := msg
  cases content with
  | unsub params =>
    have ht : params.topic ≠ t := by
      rintro rfl
      exact hne rfl
    simp [subscribesTo, ht]
  | _ => simp [subscribesTo]

/-- After a message that is no Sub on the topic there is a subscription only if there was one, and the
message is no Unsub. -/
theorem subscribesTo_of_ne {t : Topic} {subscribed : Bool} {content : ProtocolClient}
    (h : subscribesTo t subscribed content = true) (hne : content ≠ .sub ⟨t⟩) :
    subscribed = true ∧ content ≠ .unsub ⟨t⟩ := by
  cases content with
  | sub params =>
    have ht : params.topic ≠ t := by
      rintro rfl
      exact hne rfl
    simpa [subscribesTo, ht] using h
  | unsub params =>
    obtain ⟨hs, ht⟩ := by simpa [subscribesTo] using h
    exact ⟨hs, fun e => ht (congrArg UnsubMsg.topic (ProtocolClient.unsub.inj e))⟩
  | _ => simpa [subscribesTo] using h

end T2Bus
