import T2Bus.Transport.Serde

/-!
# The codec

`CborCodec`: a frame is the length of the serialized message, four bytes big-endian, and the
serialized message. The decoder refuses a length above `maxMessageSizeBytes`; the encoder never
looks at it, and writes it `as u32`.

* `Serde`: what the codec takes from the serialization library, with the law that reading inverts
  writing; `serde` is the instance for messages;
* `CborCodec.encode`, `CborCodec.decode`;
* `CborCodec.readable_iff`: the decoder reads a frame exactly when the message is not too long.
-/

namespace T2Bus

open Cbor

/-- Serialization of a type and its inverse. -/
structure Serde (T : Type) where
  ser : T → BusResult Bytes
  deser : Bytes → BusResult T
  deser_ser : ∀ {value bytes}, ser value = .ok bytes → deser bytes = .ok value

/-- A message as the types of the source allow it. -/
abbrev WireMsg (T : Type) [Content T] := {msg : Msg T // msg.WellFormed}

/-- The nesting that the library's reader accepts. -/
def recursionLimit : ℕ := 256

/-- Messages in CBOR. What is left of the input after the first item is ignored. -/
def serde (T : Type) [Content T] : Serde (WireMsg T) where
  ser msg := .ok msg.1.toItem.encode
  deser bytes :=
    match (Item.decode recursionLimit bytes).bind fun (item, _) => Msg.ofItem item with
    | some msg =>
      if h : msg.WellFormed then .ok ⟨msg, h⟩ else .error (.ioError "CBOR deserialization failed.")
    | none => .error (.ioError "CBOR deserialization failed.")
  deser_ser {msg bytes} h := by
    cases h
    have hdec := Item.decode_encode (Msg.fits msg.2) []
    rw [List.append_nil] at hdec
    simp [recursionLimit, hdec, Msg.ofItem_toItem msg.2, msg.2]

namespace CborCodec

variable {T : Type} (s : Serde T)

/-- `put_u32` -/
def putU32 (n : UInt32) : Bytes := beBytes 4 n.toNat

/-- The result and the buffer afterwards. -/
def encode (item : T) (dst : Bytes) : BusResult Unit × Bytes :=
  match s.ser item with
  | .error e => (.error e, dst)
  | .ok bytes => (.ok (), dst ++ (putU32 (UInt32.ofNat bytes.length) ++ bytes))

/-- The result and what stays in the buffer. -/
def decode (src : Bytes) : BusResult (Option T) × Bytes :=
  if src.length < 4 then (.ok none, src)
  else
    let payloadLen := beNat (src.take 4)
    if payloadLen > maxMessageSizeBytes then
      (.error (.ioError "Max message length exceeded"), src)
    else
      let msgLen := payloadLen + 4
      if src.length < msgLen then (.ok none, src)
      else
        match s.deser ((src.take msgLen).drop 4) with
        | .ok msg => (.ok (some msg), src.drop msgLen)
        | .error e => (.error e, src)

/-- What the encoder appends is a whole frame of the value: the decoder reads the value and uses
up the frame. -/
def Readable (value : T) (dst : Bytes) : Prop :=
  ∀ dst', encode s value dst = (.ok (), dst') →
    ∃ frame, dst' = dst ++ frame ∧ decode s frame = (.ok (some value), [])

/-- A frame by the length its header announces. -/
theorem decode_frame (n : UInt32) (bytes : Bytes) :
    decode s (putU32 n ++ bytes) =
      if n.toNat > maxMessageSizeBytes then
        (.error (.ioError "Max message length exceeded"), putU32 n ++ bytes)
      else if bytes.length < n.toNat then (.ok none, putU32 n ++ bytes)
      else
        match s.deser (bytes.take n.toNat) with
        | .ok msg => (.ok (some msg), bytes.drop n.toNat)
        | .error e => (.error e, putU32 n ++ bytes) := by
  have hlen : (putU32 n).length = 4 := length_beBytes 4 _
  have hheader : beNat ((putU32 n ++ bytes).take 4) = n.toNat := by
    rw [List.take_left' hlen, putU32, beNat_beBytes]
    exact Nat.mod_eq_of_lt n.toNat_lt
  have hbody : ((putU32 n ++ bytes).take (n.toNat + 4)).drop 4 = bytes.take n.toNat := by
    rw [List.drop_take, List.drop_left' hlen, Nat.add_sub_cancel]
  have hrest : (putU32 n ++ bytes).drop (n.toNat + 4) = bytes.drop n.toNat := by
    rw [Nat.add_comm, ← List.drop_drop, List.drop_left' hlen]
  have htotal : (putU32 n ++ bytes).length = bytes.length + 4 := by
    rw [List.length_append, hlen, Nat.add_comm]
  simp only [decode, hheader, hbody, hrest, htotal, Nat.add_lt_add_iff_right]
  rw [if_neg (by omega)]

/-- The frame that the encoder writes is read as its value exactly when the serialized value is no
longer than the maximum. -/
theorem decode_frame_iff {value : T} {bytes : Bytes} (hser : s.ser value = .ok bytes) :
    decode s (putU32 (UInt32.ofNat bytes.length) ++ bytes) = (.ok (some value), []) ↔
      bytes.length ≤ maxMessageSizeBytes := by
  have hmax : maxMessageSizeBytes < 2 ^ 32 := by decide
  -- what the header announces
  obtain ⟨n, hn⟩ : ∃ n, (UInt32.ofNat bytes.length).toNat = n := ⟨_, rfl⟩
  have hmod : n = bytes.length % 2 ^ 32 := hn.symm.trans UInt32.toNat_ofNat'
  rw [decode_frame, hn]
  by_cases hle : bytes.length ≤ maxMessageSizeBytes
  · have hlen : n = bytes.length := by omega
    rw [hlen, if_neg (by omega), if_neg (Nat.lt_irrefl _), List.take_length, s.deser_ser hser,
      List.drop_length]
    exact iff_of_true rfl hle
  · refine iff_of_false (fun h => ?_) hle
    split_ifs at h with h₁ h₂
    · simp at h
    · simp at h
    · -- the announced length fits only because it has wrapped: bytes stay in the buffer
      cases hd : s.deser (bytes.take n) with
      | error e => simp [hd] at h
      | ok msg =>
        rw [hd] at h
        have hdrop := congrArg List.length (Prod.mk.inj h).2
        rw [List.length_drop, List.length_nil] at hdrop
        omega

theorem readable_of_ser {value : T} {bytes : Bytes} (hser : s.ser value = .ok bytes)
    (dst : Bytes) : Readable s value dst ↔ bytes.length ≤ maxMessageSizeBytes := by
  simp only [Readable, encode, hser, Prod.mk.injEq, true_and, forall_eq',
    List.append_cancel_left_eq, exists_eq_left']
  exact decode_frame_iff s hser

/-- **The decoder reads what the encoder wrote exactly when the serialized value is no longer than
the maximum**, for every value and every buffer. -/
theorem readable_iff (value : T) (dst : Bytes) :
    Readable s value dst ↔
      ∀ bytes, s.ser value = .ok bytes → bytes.length ≤ maxMessageSizeBytes := by
  cases hser : s.ser value with
  | error e => simp [Readable, encode, hser]
  | ok bytes => simp [readable_of_ser s hser]

/-- A frame between the maximum and `2 ^ 32` bytes is an error at the reader, which keeps it. -/
theorem decode_frame_of_gt {bytes : Bytes} (h : maxMessageSizeBytes < bytes.length)
    (hlt : bytes.length < 2 ^ 32) :
    decode s (putU32 (UInt32.ofNat bytes.length) ++ bytes) =
      (.error (.ioError "Max message length exceeded"),
        putU32 (UInt32.ofNat bytes.length) ++ bytes) := by
  have hn : (UInt32.ofNat bytes.length).toNat = bytes.length :=
    UInt32.toNat_ofNat'.trans (Nat.mod_eq_of_lt hlt)
  rw [decode_frame, hn, if_pos h]

/-! ## A message that no peer accepts -/

/-- `"a".repeat(n)` -/
def repeatA : ℕ → String
  | 0 => ""
  | n + 1 => (repeatA n).push 'a'

theorem utf8ByteSize_repeatA (n : ℕ) : (repeatA n).utf8ByteSize = n := by
  induction n with
  | zero => rfl
  | succ n ih =>
    rw [repeatA, String.utf8ByteSize_push, ih]
    rfl

theorem isWord_repeatA (n : ℕ) : IsWord (repeatA (n + 1)) := by
  refine ⟨by simp [repeatA], fun c hc => ?_⟩
  have ha : ∀ n, c ∈ (repeatA n).toList → c = 'a' := by
    intro n
    induction n with
    | zero => simp [repeatA]
    | succ n ih => simpa [repeatA] using fun h => h.elim ih id
  rw [ha _ hc]
  decide

/-- A subscription to the path `aa…a` of `n + 1` characters. -/
def longSub (n : ℕ) (h : n + 1 < 2 ^ 63) : WireMsg ProtocolClient where
  val := ⟨1, .sub ⟨⟨"p", ⟨repeatA (n + 1)⟩⟩⟩⟩
  property := by
    have hproto : IsProtocol "p" ∧ WellSized "p" := by decide
    refine ⟨?_, hproto.2, ?_⟩
    · exact (Topic.valid_iff _).mpr ⟨hproto.1, (isWord_repeatA n).segments⟩
    · rw [WellSized, utf8ByteSize_repeatA]
      exact h

theorem lt_length_longSub (n : ℕ) (h : n + 1 < 2 ^ 63) :
    n + 1 < (longSub n h).1.toItem.encode.length := by
  have htext := lt_length_encode_text (repeatA (n + 1))
  rw [utf8ByteSize_repeatA] at htext
  simp only [longSub, Msg.toItem, Content.toItem, ProtocolClient.toItem, newtypeVariant,
    topicToItem, Topic.toItem, Item.encode, encodeItems, encodeEntries, List.length_append] at htext ⊢
  omega

/-- A subscription to a path of `2 ^ 20` characters is encoded, and cannot be read. -/
theorem not_readable_longSub :
    ¬ Readable (serde ProtocolClient) (longSub (2 ^ 20 - 1) (by decide)) [] := by
  rw [readable_of_ser (serde ProtocolClient) rfl, Nat.not_le]
  exact Nat.lt_of_le_of_lt (by decide) (lt_length_longSub (2 ^ 20 - 1) (by decide))

end CborCodec

end T2Bus
