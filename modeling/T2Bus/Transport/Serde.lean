import T2Bus.Lib.Cbor
import T2Bus.Protocol

/-!
# Messages as data items

What `Serialize` and `Deserialize` say about the message types: a struct is a map from field names,
a unit variant its name, any other variant a map from its name, a tuple or a vector an array, and
an absent option null. A topic is a pair, and is checked when it is read.

* `toItem`, `ofItem` for each type, with `ofItem_toItem`;
* `WellFormed`: what the types promise of a value, in a 64-bit address space;
* `Content`: what a message can carry, with its two instances.
-/

namespace T2Bus

open Cbor

/-! ## Shapes -/

def unitVariant (name : String) : Item := .text name

def newtypeVariant (name : String) (item : Item) : Item := .map [(name, item)]

/-- A field of a struct, read with `p`; fields come in any order. -/
def field {α : Type} (name : String) (p : Item → Option α) : Item → Option α
  | .map entries => (entries.lookup name).bind p
  | _ => none

def optionToItem {α : Type} (toItem : α → Item) : Option α → Item
  | some a => toItem a
  | none => .null

def optionOfItem {α : Type} (ofItem : Item → Option α) : Item → Option (Option α)
  | .null => some none
  | item => (ofItem item).map some

def u32OfItem : Item → Option UInt32
  | .uint n => if n < 2 ^ 32 then some (UInt32.ofNat n) else none
  | _ => none

def u8OfItem : Item → Option UInt8
  | .uint n => if n < 2 ^ 8 then some (UInt8.ofNat n) else none
  | _ => none

def usizeOfItem : Item → Option ℕ
  | .uint n => some n
  | _ => none

def textOfItem : Item → Option String
  | .text s => some s
  | _ => none

def boolOfItem : Item → Option Bool
  | .bool b => some b
  | _ => none

def bytesOfItem : Item → Option (List UInt8)
  | .array items => items.mapM u8OfItem
  | _ => none

/-! ## Topics, payloads and errors -/

def Topic.toItem (t : Topic) : Item := .array [.text t.protocol, .text t.path.str]

def Topic.ofItem : Item → Option Topic
  | .array [.text protocol, .text path] => do
    let path ← (Path.new path).toOption
    (Topic.new protocol path).toOption
  | _ => none

def Payload.toItem (p : Payload) : Item :=
  .map [("data", .array (p.data.map fun b => .uint b.toNat)), ("is_compressed", .bool p.isCompressed)]

def Payload.ofItem (item : Item) : Option Payload := do
  let data ← field "data" bytesOfItem item
  let isCompressed ← field "is_compressed" boolOfItem item
  return ⟨data, isCompressed⟩

def BusError.toItem : BusError → Item
  | .invalidTopicString message => newtypeVariant "InvalidTopicString" (.text message)
  | .requestFailedChannelClosed => unitVariant "RequestFailedChannelClosed"
  | .requestFailedTimeout => unitVariant "RequestFailedTimeout"
  | .requestFailed message => newtypeVariant "RequestFailed" (.text message)
  | .invalidRequestId => unitVariant "InvalidRequestId"
  | .topicAlreadyClaimed => unitVariant "TopicAlreadyClaimed"
  | .claimWildcardNotSupported => unitVariant "ClaimWildcardNotSupported"
  | .channelClosed => unitVariant "ChannelClosed"
  | .serviceNotFound topic => newtypeVariant "ServiceNotFound" topic.toItem
  | .deliveryFailed clientId message =>
    newtypeVariant "DeliveryFailed" (.array [.uint clientId.toNat, .text message])
  | .unknownClient clientId => newtypeVariant "UnknownClient" (.uint clientId.toNat)
  | .malformedMessage protocol message =>
    newtypeVariant "MalformedMessage" (.array [.text protocol, .text message])
  | .unserializableMessage message => newtypeVariant "UnserializableMessage" (.text message)
  | .ioError message => newtypeVariant "IOError" (.text message)
  | .internalError message => newtypeVariant "InternalError" (.text message)
  | .tlsConfigError message => newtypeVariant "TlsConfigError" (.text message)
  | .dnsLookupFailed => unitVariant "DnsLookupFailed"
  | .clientTimeout clientId => newtypeVariant "ClientTimeout" (.uint clientId.toNat)

def BusError.ofItem : Item → Option BusError
  | .text name =>
    match name with
    | "RequestFailedChannelClosed" => some .requestFailedChannelClosed
    | "RequestFailedTimeout" => some .requestFailedTimeout
    | "InvalidRequestId" => some .invalidRequestId
    | "TopicAlreadyClaimed" => some .topicAlreadyClaimed
    | "ClaimWildcardNotSupported" => some .claimWildcardNotSupported
    | "ChannelClosed" => some .channelClosed
    | "DnsLookupFailed" => some .dnsLookupFailed
    | _ => none
  | .map [(name, item)] =>
    match name with
    | "InvalidTopicString" => (textOfItem item).map .invalidTopicString
    | "RequestFailed" => (textOfItem item).map .requestFailed
    | "ServiceNotFound" => (Topic.ofItem item).map .serviceNotFound
    | "DeliveryFailed" =>
      match item with
      | .array [clientId, .text message] => (u32OfItem clientId).map (.deliveryFailed · message)
      | _ => none
    | "UnknownClient" => (u32OfItem item).map .unknownClient
    | "MalformedMessage" =>
      match item with
      | .array [.text protocol, .text message] => some (.malformedMessage protocol message)
      | _ => none
    | "UnserializableMessage" => (textOfItem item).map .unserializableMessage
    | "IOError" => (textOfItem item).map .ioError
    | "InternalError" => (textOfItem item).map .internalError
    | "TlsConfigError" => (textOfItem item).map .tlsConfigError
    | "ClientTimeout" => (u32OfItem item).map .clientTimeout
    | _ => none
  | _ => none

/-! ## Message contents -/

/-- `SubMsg`, `UnsubMsg`, `SrvMsg` and `UnsrvMsg` are structs of one field. -/
def topicToItem (t : Topic) : Item := .map [("topic", t.toItem)]

def topicOfItem : Item → Option Topic := field "topic" Topic.ofItem

/-- `PubMsg` and `ReqMsg` have the same two fields. -/
def addressedToItem (t : Topic) (p : Payload) : Item :=
  .map [("topic", t.toItem), ("payload", p.toItem)]

def addressedOfItem (item : Item) : Option (Topic × Payload) := do
  let topic ← field "topic" Topic.ofItem item
  let payload ← field "payload" Payload.ofItem item
  return (topic, payload)

def RspMsgStatus.toItem : RspMsgStatus → Item
  | .ok => unitVariant "Ok"
  | .timeout => unitVariant "Timeout"

def RspMsgStatus.ofItem : Item → Option RspMsgStatus
  | .text "Ok" => some .ok
  | .text "Timeout" => some .timeout
  | _ => none

def RspMsg.toItem (params : RspMsg) : Item :=
  .map [("req_id", .uint params.reqId.toNat), ("status", params.status.toItem),
    ("payload", params.payload.toItem)]

def RspMsg.ofItem (item : Item) : Option RspMsg := do
  let reqId ← field "req_id" u32OfItem item
  let status ← field "status" RspMsgStatus.ofItem item
  let payload ← field "payload" Payload.ofItem item
  return ⟨reqId, status, payload⟩

def AckMsg.toItem (params : AckMsg) : Item :=
  .map [("msg_id", .uint params.msgId.toNat), ("err", optionToItem BusError.toItem params.err),
    ("num_recipients", optionToItem .uint params.numRecipients)]

def AckMsg.ofItem (item : Item) : Option AckMsg := do
  let msgId ← field "msg_id" u32OfItem item
  let err ← field "err" (optionOfItem BusError.ofItem) item
  let numRecipients ← field "num_recipients" (optionOfItem usizeOfItem) item
  return ⟨msgId, err, numRecipients⟩

def ProtocolClient.toItem : ProtocolClient → Item
  | .sub params => newtypeVariant "Sub" (topicToItem params.topic)
  | .pub params => newtypeVariant "Pub" (addressedToItem params.topic params.payload)
  | .srv params => newtypeVariant "Srv" (topicToItem params.topic)
  | .req params => newtypeVariant "Req" (addressedToItem params.topic params.payload)
  | .rsp params => newtypeVariant "Rsp" params.toItem
  | .unsub params => newtypeVariant "Unsub" (topicToItem params.topic)
  | .unsrv params => newtypeVariant "Unsrv" (topicToItem params.topic)
  | .stop => unitVariant "Stop"
  | .keepAlive => unitVariant "KeepAlive"

def ProtocolClient.ofItem : Item → Option ProtocolClient
  | .text "Stop" => some .stop
  | .text "KeepAlive" => some .keepAlive
  | .map [(name, item)] =>
    match name with
    | "Sub" => (topicOfItem item).map fun topic => .sub ⟨topic⟩
    | "Pub" => (addressedOfItem item).map fun p => .pub ⟨p.1, p.2⟩
    | "Srv" => (topicOfItem item).map fun topic => .srv ⟨topic⟩
    | "Req" => (addressedOfItem item).map fun p => .req ⟨p.1, p.2⟩
    | "Rsp" => (RspMsg.ofItem item).map .rsp
    | "Unsub" => (topicOfItem item).map fun topic => .unsub ⟨topic⟩
    | "Unsrv" => (topicOfItem item).map fun topic => .unsrv ⟨topic⟩
    | _ => none
  | _ => none

def ProtocolServer.toItem : ProtocolServer → Item
  | .pub params => newtypeVariant "Pub" (addressedToItem params.topic params.payload)
  | .req params => newtypeVariant "Req" (addressedToItem params.topic params.payload)
  | .rsp params => newtypeVariant "Rsp" params.toItem
  | .ack params => newtypeVariant "Ack" params.toItem

def ProtocolServer.ofItem : Item → Option ProtocolServer
  | .map [(name, item)] =>
    match name with
    | "Pub" => (addressedOfItem item).map fun p => .pub ⟨p.1, p.2⟩
    | "Req" => (addressedOfItem item).map fun p => .req ⟨p.1, p.2⟩
    | "Rsp" => (RspMsg.ofItem item).map .rsp
    | "Ack" => (AckMsg.ofItem item).map .ack
    | _ => none
  | _ => none

/-! ## Well-formed values -/

/-- The size of a string in memory. -/
def WellSized (s : String) : Prop := s.utf8ByteSize < 2 ^ 63

def Topic.WellFormed (t : Topic) : Prop :=
  t.Valid ∧ WellSized t.protocol ∧ WellSized t.path.str

def Payload.WellFormed (p : Payload) : Prop := p.data.length < 2 ^ 63

def BusError.WellFormed : BusError → Prop
  | .invalidTopicString message | .requestFailed message | .deliveryFailed _ message
  | .unserializableMessage message | .ioError message | .internalError message
  | .tlsConfigError message => WellSized message
  | .malformedMessage protocol message => WellSized protocol ∧ WellSized message
  | .serviceNotFound topic => topic.WellFormed
  | _ => True

def AckMsg.WellFormed (params : AckMsg) : Prop :=
  (∀ e ∈ params.err, e.WellFormed) ∧ ∀ n ∈ params.numRecipients, n < 2 ^ 64

def ProtocolClient.WellFormed : ProtocolClient → Prop
  | .sub ⟨topic⟩ | .srv ⟨topic⟩ | .unsub ⟨topic⟩ | .unsrv ⟨topic⟩ => topic.WellFormed
  | .pub ⟨topic, payload⟩ | .req ⟨topic, payload⟩ => topic.WellFormed ∧ payload.WellFormed
  | .rsp params => params.payload.WellFormed
  | .stop | .keepAlive => True

def ProtocolServer.WellFormed : ProtocolServer → Prop
  | .pub ⟨topic, payload⟩ | .req ⟨topic, payload⟩ => topic.WellFormed ∧ payload.WellFormed
  | .rsp params => params.payload.WellFormed
  | .ack params => params.WellFormed

instance (s : String) : Decidable (WellSized s) := inferInstanceAs (Decidable (_ < _))

instance (t : Topic) : Decidable t.WellFormed := inferInstanceAs (Decidable (_ ∧ _))

instance (p : Payload) : Decidable p.WellFormed := inferInstanceAs (Decidable (_ < _))

instance : (e : BusError) → Decidable e.WellFormed
  | .invalidTopicString message | .requestFailed message | .deliveryFailed _ message
  | .unserializableMessage message | .ioError message | .internalError message
  | .tlsConfigError message => inferInstanceAs (Decidable (WellSized message))
  | .malformedMessage protocol message =>
    inferInstanceAs (Decidable (WellSized protocol ∧ WellSized message))
  | .serviceNotFound topic => inferInstanceAs (Decidable topic.WellFormed)
  | .requestFailedChannelClosed | .requestFailedTimeout | .invalidRequestId
  | .topicAlreadyClaimed | .claimWildcardNotSupported | .channelClosed | .unknownClient _
  | .dnsLookupFailed | .clientTimeout _ => inferInstanceAs (Decidable True)

instance (params : AckMsg) : Decidable params.WellFormed := inferInstanceAs (Decidable (_ ∧ _))

instance : DecidablePred ProtocolClient.WellFormed
  | .sub ⟨topic⟩ | .srv ⟨topic⟩ | .unsub ⟨topic⟩ | .unsrv ⟨topic⟩ =>
    inferInstanceAs (Decidable topic.WellFormed)
  | .pub ⟨topic, payload⟩ | .req ⟨topic, payload⟩ =>
    inferInstanceAs (Decidable (topic.WellFormed ∧ payload.WellFormed))
  | .rsp params => inferInstanceAs (Decidable params.payload.WellFormed)
  | .stop | .keepAlive => inferInstanceAs (Decidable True)

instance : DecidablePred ProtocolServer.WellFormed
  | .pub ⟨topic, payload⟩ | .req ⟨topic, payload⟩ =>
    inferInstanceAs (Decidable (topic.WellFormed ∧ payload.WellFormed))
  | .rsp params => inferInstanceAs (Decidable params.payload.WellFormed)
  | .ack params => inferInstanceAs (Decidable params.WellFormed)

/-! ## Round trips -/

@[simp] theorem u32OfItem_toNat (n : UInt32) : u32OfItem (.uint n.toNat) = some n := by
  simp [u32OfItem, n.toNat_lt]

@[simp] theorem u8OfItem_toNat (n : UInt8) : u8OfItem (.uint n.toNat) = some n := by
  simp [u8OfItem, n.toNat_lt]

@[simp] theorem field_map {α : Type} (name : String) (p : Item → Option α)
    (entries : List (String × Item)) :
    field name p (.map entries) = (entries.lookup name).bind p := rfl

theorem bytesOfItem_map (data : List UInt8) :
    bytesOfItem (.array (data.map fun b => .uint b.toNat)) = some data := by
  rw [bytesOfItem]
  induction data with
  | nil => rfl
  | cons b data ih => simp [ih]

theorem optionOfItem_toItem {α : Type} {toItem : α → Item} {ofItem : Item → Option α}
    (hnull : ∀ a, toItem a ≠ .null) {o : Option α} (h : ∀ a ∈ o, ofItem (toItem a) = some a) :
    optionOfItem ofItem (optionToItem toItem o) = some o := by
  cases o with
  | none => rfl
  | some a =>
    have ha := h a rfl
    rw [optionToItem]
    cases hi : toItem a <;> first | exact absurd hi (hnull a) | simp [optionOfItem, ← hi, ha]

/-- Reading a topic checks it, and a valid one passes. -/
theorem Topic.ofItem_toItem {t : Topic} (h : t.Valid) : Topic.ofItem t.toItem = some t := by
  obtain ⟨hproto, hpath⟩ := h
  rw [Path.Valid] at hpath
  simp [Topic.toItem, Topic.ofItem, Path.new, Topic.new, hproto, hpath, Except.toOption]

theorem Payload.ofItem_toItem (p : Payload) : Payload.ofItem p.toItem = some p := by
  simp [Payload.toItem, Payload.ofItem, List.lookup_cons, bytesOfItem_map, boolOfItem]

theorem BusError.ofItem_toItem {e : BusError} (h : e.WellFormed) :
    BusError.ofItem e.toItem = some e := by
  cases e with
  | serviceNotFound topic =>
    exact congrArg (Option.map BusError.serviceNotFound) (Topic.ofItem_toItem h.1)
  | deliveryFailed clientId message =>
    exact congrArg (Option.map (BusError.deliveryFailed · message)) (u32OfItem_toNat clientId)
  | unknownClient clientId =>
    exact congrArg (Option.map BusError.unknownClient) (u32OfItem_toNat clientId)
  | clientTimeout clientId =>
    exact congrArg (Option.map BusError.clientTimeout) (u32OfItem_toNat clientId)
  | _ => rfl

theorem BusError.toItem_ne_null (e : BusError) : e.toItem ≠ .null := by
  cases e <;> exact Item.noConfusion

theorem topicOfItem_toItem {t : Topic} (h : t.Valid) : topicOfItem (topicToItem t) = some t := by
  simp [topicOfItem, topicToItem, Topic.ofItem_toItem h]

theorem addressedOfItem_toItem {t : Topic} (h : t.Valid) (p : Payload) :
    addressedOfItem (addressedToItem t p) = some (t, p) := by
  simp [addressedOfItem, addressedToItem, List.lookup_cons, Topic.ofItem_toItem h,
    Payload.ofItem_toItem p]

theorem RspMsg.ofItem_toItem (params : RspMsg) : RspMsg.ofItem params.toItem = some params := by
  have hstatus : RspMsgStatus.ofItem params.status.toItem = some params.status := by
    cases params.status <;> rfl
  simp [RspMsg.toItem, RspMsg.ofItem, List.lookup_cons, hstatus, Payload.ofItem_toItem]

theorem AckMsg.ofItem_toItem {params : AckMsg} (h : params.WellFormed) :
    AckMsg.ofItem params.toItem = some params := by
  have herr := optionOfItem_toItem BusError.toItem_ne_null
    fun e he => BusError.ofItem_toItem (h.1 e he)
  have hnum : optionOfItem usizeOfItem (optionToItem .uint params.numRecipients) =
      some params.numRecipients :=
    optionOfItem_toItem (fun _ => Item.noConfusion) fun _ _ => rfl
  simp [AckMsg.toItem, AckMsg.ofItem, List.lookup_cons, herr, hnum]

theorem ProtocolClient.ofItem_toItem {content : ProtocolClient} (h : content.WellFormed) :
    ProtocolClient.ofItem content.toItem = some content := by
  cases content with
  | sub params | srv params | unsub params | unsrv params =>
    simp [ProtocolClient.toItem, ProtocolClient.ofItem, newtypeVariant, topicOfItem_toItem h.1]
  | pub params | req params =>
    simp [ProtocolClient.toItem, ProtocolClient.ofItem, newtypeVariant,
      addressedOfItem_toItem h.1.1]
  | rsp params =>
    simp [ProtocolClient.toItem, ProtocolClient.ofItem, newtypeVariant, RspMsg.ofItem_toItem]
  | stop => rfl
  | keepAlive => rfl

theorem ProtocolServer.ofItem_toItem {content : ProtocolServer} (h : content.WellFormed) :
    ProtocolServer.ofItem content.toItem = some content := by
  cases content with
  | pub params | req params =>
    simp [ProtocolServer.toItem, ProtocolServer.ofItem, newtypeVariant,
      addressedOfItem_toItem h.1.1]
  | rsp params =>
    simp [ProtocolServer.toItem, ProtocolServer.ofItem, newtypeVariant, RspMsg.ofItem_toItem]
  | ack params =>
    simp [ProtocolServer.toItem, ProtocolServer.ofItem, newtypeVariant, AckMsg.ofItem_toItem h]

/-! ## Well-formed values fit the format -/

variable {depth : ℕ}

theorem WellSized.fits {s : String} (h : WellSized s) : Item.Fits (depth + 1) (.text s) :=
  .text (Nat.lt_trans h (by decide))

theorem fits_u32 (n : UInt32) : Item.Fits (depth + 1) (.uint n.toNat) :=
  .uint (Nat.lt_trans n.toNat_lt (by decide))

theorem fits_newtypeVariant {name : String} {item : Item} (hn : name.utf8ByteSize < 2 ^ 64)
    (h : item.Fits depth) : (newtypeVariant name item).Fits (depth + 1) :=
  .map (by simp) (by simpa using hn) (by simpa using h)

theorem Topic.fits {t : Topic} (h : t.WellFormed) : t.toItem.Fits (depth + 2) := by
  refine .array (by simp) fun item hi => ?_
  rcases List.mem_pair.mp hi with rfl | rfl
  · exact h.2.1.fits
  · exact h.2.2.fits

theorem Payload.fits {p : Payload} (h : p.WellFormed) : p.toItem.Fits (depth + 3) := by
  refine .map (by simp) (by simp; decide) ?_
  simp only [List.forall_mem_cons, List.not_mem_nil, false_imp_iff, implies_true, and_true]
  refine ⟨.array ?_ fun item hi => ?_, .bool⟩
  · rw [List.length_map]
    exact Nat.lt_trans h (by decide)
  · obtain ⟨b, -, rfl⟩ := List.mem_map.mp hi
    exact .uint (Nat.lt_trans b.toNat_lt (by decide))

theorem BusError.fits {e : BusError} (h : e.WellFormed) : e.toItem.Fits (depth + 3) := by
  cases e with
  | serviceNotFound topic => exact fits_newtypeVariant (by decide) (Topic.fits h)
  | deliveryFailed clientId message =>
    refine fits_newtypeVariant (by decide) (.array (by simp) fun item hi => ?_)
    rcases List.mem_pair.mp hi with rfl | rfl
    · exact fits_u32 clientId
    · exact WellSized.fits h
  | malformedMessage protocol message =>
    refine fits_newtypeVariant (by decide) (.array (by simp) fun item hi => ?_)
    rcases List.mem_pair.mp hi with rfl | rfl
    · exact h.1.fits
    · exact h.2.fits
  | unknownClient clientId | clientTimeout clientId =>
    exact fits_newtypeVariant (by decide) (fits_u32 clientId)
  | invalidTopicString message | requestFailed message | unserializableMessage message
  | ioError message | internalError message | tlsConfigError message =>
    exact fits_newtypeVariant (by decide) (WellSized.fits h)
  | _ => exact .text (by decide)

theorem topicToItem_fits {t : Topic} (h : t.WellFormed) : (topicToItem t).Fits (depth + 3) :=
  .map (by simp) (by simp; decide) (by simpa using Topic.fits h)

theorem addressedToItem_fits {t : Topic} {p : Payload} (ht : t.WellFormed) (hp : p.WellFormed) :
    (addressedToItem t p).Fits (depth + 4) :=
  .map (by simp) (by simp; decide) (by simpa using ⟨Topic.fits ht, Payload.fits hp⟩)

theorem RspMsg.fits {params : RspMsg} (h : params.payload.WellFormed) :
    params.toItem.Fits (depth + 4) := by
  have hstatus : params.status.toItem.Fits (depth + 3) := by
    cases params.status <;> exact .text (by decide)
  exact .map (by simp) (by simp; decide)
    (by simpa using ⟨fits_u32 params.reqId, hstatus, Payload.fits h⟩)

theorem AckMsg.fits {params : AckMsg} (h : params.WellFormed) :
    params.toItem.Fits (depth + 4) := by
  obtain ⟨msgId, err, numRecipients⟩ := params
  have herr : (optionToItem BusError.toItem err).Fits (depth + 3) := by
    cases err with
    | none => exact .null
    | some e => exact BusError.fits (h.1 e rfl)
  have hnum : (optionToItem .uint numRecipients).Fits (depth + 3) := by
    cases numRecipients with
    | none => exact .null
    | some n => exact .uint (h.2 n rfl)
  exact .map (by simp) (by simp; decide) (by simpa using ⟨fits_u32 msgId, herr, hnum⟩)

theorem ProtocolClient.fits {content : ProtocolClient} (h : content.WellFormed) :
    content.toItem.Fits (depth + 5) := by
  cases content with
  | sub params | srv params | unsub params | unsrv params =>
    exact fits_newtypeVariant (by decide) (topicToItem_fits h)
  | pub params | req params =>
    exact fits_newtypeVariant (by decide) (addressedToItem_fits h.1 h.2)
  | rsp params => exact fits_newtypeVariant (by decide) (RspMsg.fits h)
  | stop | keepAlive => exact .text (by decide)

theorem ProtocolServer.fits {content : ProtocolServer} (h : content.WellFormed) :
    content.toItem.Fits (depth + 5) := by
  cases content with
  | pub params | req params =>
    exact fits_newtypeVariant (by decide) (addressedToItem_fits h.1 h.2)
  | rsp params => exact fits_newtypeVariant (by decide) (RspMsg.fits h)
  | ack params => exact fits_newtypeVariant (by decide) (AckMsg.fits h)

/-! ## Messages -/

/-- What a message can carry. -/
class Content (T : Type) where
  toItem : T → Item
  ofItem : Item → Option T
  WellFormed : T → Prop
  decWellFormed : DecidablePred WellFormed
  ofItem_toItem : ∀ {content}, WellFormed content → ofItem (toItem content) = some content
  fits : ∀ {content}, WellFormed content → (toItem content).Fits 255

instance : Content ProtocolClient where
  toItem := ProtocolClient.toItem
  ofItem := ProtocolClient.ofItem
  WellFormed := ProtocolClient.WellFormed
  decWellFormed := inferInstance
  ofItem_toItem := ProtocolClient.ofItem_toItem
  fits := ProtocolClient.fits

instance : Content ProtocolServer where
  toItem := ProtocolServer.toItem
  ofItem := ProtocolServer.ofItem
  WellFormed := ProtocolServer.WellFormed
  decWellFormed := inferInstance
  ofItem_toItem := ProtocolServer.ofItem_toItem
  fits := ProtocolServer.fits

variable {T : Type} [Content T]

def Msg.toItem (msg : Msg T) : Item :=
  .map [("id", .uint msg.id.toNat), ("content", Content.toItem msg.content)]

def Msg.ofItem (item : Item) : Option (Msg T) := do
  let id ← field "id" u32OfItem item
  let content ← field "content" Content.ofItem item
  return ⟨id, content⟩

def Msg.WellFormed (msg : Msg T) : Prop := Content.WellFormed msg.content

instance (msg : Msg T) : Decidable msg.WellFormed := Content.decWellFormed msg.content

theorem Msg.ofItem_toItem {msg : Msg T} (h : msg.WellFormed) :
    Msg.ofItem msg.toItem = some msg := by
  simp [Msg.toItem, Msg.ofItem, List.lookup_cons, Content.ofItem_toItem h]

theorem Msg.fits {msg : Msg T} (h : msg.WellFormed) : msg.toItem.Fits 256 :=
  .map (by simp) (by simp; decide) (by simpa using ⟨fits_u32 msg.id, Content.fits h⟩)

end T2Bus
