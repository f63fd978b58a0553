import T2Bus.Transport.CborCodec

/-!
# The lengths of messages

How long a message is once it is serialized, as far as it depends on what the server changes when it
passes a message on: the ids, which take the more bytes the larger they are, and the envelope.

* `idLen`, `dataLen`, `frameLen`: the bytes of an id, of the data of a payload, of a message;
* `frameLen_forwarded`, `frameLen_rsp`: a message that is passed on, by its length on the way in;
  `frameLen_serviceNotFound`: the Ack that hands the topic of a request back;
* `frameLen_ack_le`: every other Ack is short.
-/

namespace T2Bus

open Cbor

/-- The bytes of an id. -/
def idLen (id : MsgId) : ℕ := headLen id.toNat

theorem idLen_pos (id : MsgId) : 0 < idLen id := headLen_pos _

theorem idLen_le (id : MsgId) : idLen id ≤ 5 := headLen_le_of_lt id.toNat_lt

/-- The bytes of a payload's data; every byte takes one or two. -/
def dataLen (data : List UInt8) : ℕ :=
  (Item.array (data.map fun b => .uint b.toNat)).encode.length

theorem dataLen_pos (data : List UInt8) : 0 < dataLen data := by
  rw [dataLen, length_encode_array]
  exact Nat.add_pos_left (headLen_pos _) _

/-- The bytes of a serialized message, which the header of its frame announces. -/
def frameLen {T : Type} [Content T] (msg : Msg T) : ℕ := msg.toItem.encode.length

/-! ## Envelopes -/

theorem frameLen_eq {T : Type} [Content T] (msg : Msg T) :
    frameLen msg = 12 + idLen msg.id + (Content.toItem msg.content).encode.length := by
  have hid : (encodeText "id").length = 3 := rfl
  have hcontent : (encodeText "content").length = 8 := rfl
  have hlen : headLen (0 + 1 + 1) = 1 := rfl
  simp only [frameLen, Msg.toItem, length_encode_map, length_encodeEntries_cons,
    length_encodeEntries_nil, length_encode_uint, List.length_cons, List.length_nil, hid, hcontent,
    hlen, idLen]
  omega

theorem length_newtypeVariant (name : String) (item : Item) :
    (newtypeVariant name item).encode.length = 1 + (encodeText name).length + item.encode.length := by
  have hlen : headLen (0 + 1) = 1 := rfl
  simp only [newtypeVariant, length_encode_map, length_encodeEntries_cons, length_encodeEntries_nil,
    List.length_cons, List.length_nil, hlen]
  omega

theorem length_addressedToItem (t : Topic) (p : Payload) :
    (addressedToItem t p).encode.length = 36 + t.toItem.encode.length + dataLen p.data := by
  have htopic : (encodeText "topic").length = 6 := rfl
  have hpayload : (encodeText "payload").length = 8 := rfl
  have hdata : (encodeText "data").length = 5 := rfl
  have hcompressed : (encodeText "is_compressed").length = 14 := rfl
  have hlen : headLen (0 + 1 + 1) = 1 := rfl
  have hbool : (Item.bool p.isCompressed).encode.length = 1 := by
    cases p.isCompressed <;> rfl
  simp only [addressedToItem, Payload.toItem, length_encode_map, length_encodeEntries_cons,
    length_encodeEntries_nil, List.length_cons, List.length_nil, htopic, hpayload, hdata, hcompressed,
    hlen, hbool, dataLen]
  omega

theorem length_ackToItem (params : AckMsg) :
    params.toItem.encode.length = 27 + idLen params.msgId +
      (optionToItem BusError.toItem params.err).encode.length +
      (optionToItem .uint params.numRecipients).encode.length := by
  have hid : (encodeText "msg_id").length = 7 := rfl
  have herr : (encodeText "err").length = 4 := rfl
  have hnum : (encodeText "num_recipients").length = 15 := rfl
  have hlen : headLen (0 + 1 + 1 + 1) = 1 := rfl
  simp only [AckMsg.toItem, length_encode_map, length_encodeEntries_cons, length_encodeEntries_nil,
    length_encode_uint, List.length_cons, List.length_nil, hid, herr, hnum, hlen, idLen]
  omega

/-! ## Messages that are passed on -/

/-- The same content under another id. -/
theorem frameLen_forwarded {content : ProtocolClient} {content' : ProtocolServer}
    (h : Content.toItem content' = Content.toItem content) (id id' : MsgId) :
    frameLen ⟨id', content'⟩ + idLen id = frameLen ⟨id, content⟩ + idLen id' := by
  simp only [frameLen_eq, h]
  omega

/-- A response under another id, to another request id. -/
theorem frameLen_rsp (id id' reqId' : MsgId) (params : RspMsg) :
    frameLen ⟨id', ProtocolServer.rsp { params with reqId := reqId' }⟩ +
        (idLen id + idLen params.reqId) =
      frameLen ⟨id, ProtocolClient.rsp params⟩ + (idLen id' + idLen reqId') := by
  have hserver : Content.toItem (ProtocolServer.rsp { params with reqId := reqId' }) =
    newtypeVariant "Rsp" ({ params with reqId := reqId' } : RspMsg).toItem := rfl
  have hclient : Content.toItem (ProtocolClient.rsp params) =
    newtypeVariant "Rsp" params.toItem := rfl
  simp only [frameLen_eq, hserver, hclient, length_newtypeVariant, RspMsg.toItem, length_encode_map,
    length_encodeEntries_cons, length_encode_uint, List.length_cons, idLen]
  omega

/-! ## Acks -/

/-- The Ack of a request that nobody serves: it hands back the topic, and leaves out the payload. -/
theorem frameLen_serviceNotFound (id id' : MsgId) (params : ReqMsg) :
    frameLen ⟨id', ProtocolServer.ack ⟨id, some (.serviceNotFound params.topic), none⟩⟩ +
        dataLen params.payload.data =
      frameLen ⟨id, ProtocolClient.req params⟩ + 9 + idLen id' := by
  have hserver : Content.toItem
      (ProtocolServer.ack ⟨id, some (.serviceNotFound params.topic), none⟩) =
    newtypeVariant "Ack" (AckMsg.toItem ⟨id, some (.serviceNotFound params.topic), none⟩) := rfl
  have hclient : Content.toItem (ProtocolClient.req params) =
    newtypeVariant "Req" (addressedToItem params.topic params.payload) := rfl
  have hack : (encodeText "Ack").length = 4 := rfl
  have hreq : (encodeText "Req").length = 4 := rfl
  have herr : (encodeText "ServiceNotFound").length = 16 := rfl
  have hnull : Item.null.encode.length = 1 := rfl
  simp only [frameLen_eq, hserver, hclient, length_newtypeVariant, length_ackToItem,
    length_addressedToItem, optionToItem, BusError.toItem, hack, hreq, herr, hnull]
  omega

/-- An Ack takes little more than the error it carries. -/
theorem frameLen_ack_le (id : MsgId) (params : AckMsg) :
    frameLen ⟨id, ProtocolServer.ack params⟩ ≤
      63 + (optionToItem BusError.toItem params.err).encode.length := by
  have hserver : Content.toItem (ProtocolServer.ack params) =
    newtypeVariant "Ack" params.toItem := rfl
  have hack : (encodeText "Ack").length = 4 := rfl
  have hnum : (optionToItem .uint params.numRecipients).encode.length ≤ 9 := by
    cases params.numRecipients with
    | none => exact Nat.le_of_ble_eq_true rfl
    | some n =>
      rw [optionToItem, length_encode_uint]
      exact headLen_le n
  have hid := idLen_le id
  have hid' := idLen_le params.msgId
  simp only [frameLen_eq, hserver, length_newtypeVariant, length_ackToItem, hack]
  omega

end T2Bus
