import T2Bus.Transport.CborCodec

/-!
# Frames in a stream

A stream arrives in chunks that know nothing of the frames in it. After each chunk the reader
decodes until the decoder asks for more.

* `CborCodec.encodeAll`: the frames of several values, one after the other;
* `CborCodec.drain`, `CborCodec.feed`: the reader's loop on one buffer, and over the chunks;
* `CborCodec.Step`: what one `decode` does to the buffer, and its arithmetic;
* `CborCodec.feed_encodeAll`: however the stream is cut, what was written is read.
-/

namespace T2Bus

open Cbor

namespace CborCodec

variable {T : Type} (s : Serde T)

/-! ## One decode -/

/-- What the header announces. -/
def payloadLen (src : Bytes) : ℕ := beNat (src.take 4)

theorem decode_eq (src : Bytes) :
    decode s src =
      if src.length < 4 then (.ok none, src)
      else if payloadLen src > maxMessageSizeBytes then
        (.error (.ioError "Max message length exceeded"), src)
      else if src.length < payloadLen src + 4 then (.ok none, src)
      else
        match s.deser ((src.take (payloadLen src + 4)).drop 4) with
        | .ok msg => (.ok (some msg), src.drop (payloadLen src + 4))
        | .error e => (.error e, src) :=
  rfl

theorem decode_none {src rest : Bytes} (h : decode s src = (.ok none, rest)) : rest = src := by
  rw [decode_eq] at h
  split_ifs at h
  · exact (Prod.mk.inj h).2.symm
  · cases (Prod.mk.inj h).1
  · exact (Prod.mk.inj h).2.symm
  · split at h <;> cases h

theorem decode_some {src rest : Bytes} {msg : T} (h : decode s src = (.ok (some msg), rest)) :
    4 + payloadLen src ≤ src.length ∧ rest = src.drop (4 + payloadLen src) := by
  rw [decode_eq] at h
  split_ifs at h with _ _ hshort
  · cases (Prod.mk.inj h).1
  · cases (Prod.mk.inj h).1
  · cases (Prod.mk.inj h).1
  · split at h
    · rw [Nat.add_comm 4]
      exact ⟨Nat.le_of_not_lt hshort, (Prod.mk.inj h).2.symm⟩
    · cases h

/-- A machine word holds the two numbers that `decode` computes, whatever its width from 32 bits
on: `payload_len + 4`, computed when the header is there and passes the check, and
`msg_len - buf_len`, computed when the frame is incomplete. -/
def NoWrap (src : Bytes) : Prop :=
  ∀ w, 32 ≤ w → src.length < 2 ^ w → 4 ≤ src.length → payloadLen src ≤ maxMessageSizeBytes →
    (BitVec.ofNat w (payloadLen src) + BitVec.ofNat w 4).toNat = payloadLen src + 4 ∧
      (src.length < payloadLen src + 4 →
        (BitVec.ofNat w (payloadLen src + 4) - BitVec.ofNat w src.length).toNat + src.length =
          payloadLen src + 4)

theorem noWrap (src : Bytes) : NoWrap src := by
  intro w hw hlen _ hmax
  have hmsg : payloadLen src + 4 < 2 ^ w := by
    have hbound : maxMessageSizeBytes + 4 < 2 ^ 32 := by decide
    have hwidth : 2 ^ 32 ≤ 2 ^ w := Nat.pow_le_pow_right (by decide) hw
    omega
  have hpayload : payloadLen src < 2 ^ w := by omega
  have hfour : 4 < 2 ^ w := by omega
  refine ⟨?_, fun hshort => ?_⟩
  · rw [BitVec.toNat_add, BitVec.toNat_ofNat, BitVec.toNat_ofNat, Nat.mod_eq_of_lt hpayload,
      Nat.mod_eq_of_lt hfour, Nat.mod_eq_of_lt hmsg]
  · rw [BitVec.toNat_sub_of_le]
    · rw [BitVec.toNat_ofNat, BitVec.toNat_ofNat, Nat.mod_eq_of_lt hmsg, Nat.mod_eq_of_lt hlen]
      omega
    · rw [BitVec.le_def, BitVec.toNat_ofNat, BitVec.toNat_ofNat, Nat.mod_eq_of_lt hmsg,
        Nat.mod_eq_of_lt hlen]
      omega

/-- What one `decode` does: a buffer that holds no whole frame stays as it is, a message takes
exactly its frame out, and no sum or difference wraps. -/
structure Step (src : Bytes) : Prop where
  none : ∀ rest, decode s src = (.ok none, rest) → rest = src
  some : ∀ msg rest, decode s src = (.ok (some msg), rest) →
    4 + payloadLen src ≤ src.length ∧ rest = src.drop (4 + payloadLen src)
  noWrap : NoWrap src

theorem step (src : Bytes) : Step s src :=
  ⟨fun _ => decode_none s, fun _ _ => decode_some s, CborCodec.noWrap src⟩

/-! ## The reader -/

/-- `decode` until it returns `Ok(None)` or an error: what it returned, and the buffer. -/
def drain (src : Bytes) : BusResult (List T) × Bytes :=
  match _h : decode s src with
  | (.ok none, rest) => (.ok [], rest)
  | (.ok (some msg), rest) =>
    match drain rest with
    | (.ok msgs, rest') => (.ok (msg :: msgs), rest')
    | (.error e, rest') => (.error e, rest')
  | (.error e, rest) => (.error e, rest)
termination_by src.length
decreasing_by
  have hstep := decode_some s _h
  rw [hstep.2, List.length_drop]
  omega

/-- Appends the chunks one at a time, and decodes after each. -/
def feed : List Bytes → Bytes → BusResult (List T) × Bytes
  | [], src => (.ok [], src)
  | chunk :: chunks, src =>
    match drain s (src ++ chunk) with
    | (.ok msgs, rest) =>
      match feed chunks rest with
      | (.ok msgs', rest') => (.ok (msgs ++ msgs'), rest')
      | (.error e, rest') => (.error e, rest')
    | (.error e, rest) => (.error e, rest)

theorem drain_of_none {src rest : Bytes} (h : decode s src = (.ok none, rest)) :
    drain s src = (.ok [], src) := by
  rw [decode_none s h] at h
  rw [drain]
  split
  next h' => rw [h] at h'; cases h'; rfl
  next h' => rw [h] at h'; cases h'
  next h' => rw [h] at h'; cases h'

theorem drain_of_some {src rest rest' : Bytes} {msg : T} {msgs : List T}
    (h : decode s src = (.ok (some msg), rest)) (hrest : drain s rest = (.ok msgs, rest')) :
    drain s src = (.ok (msg :: msgs), rest') := by
  rw [drain]
  split
  next h' => rw [h] at h'; cases h'
  next h' => rw [h] at h'; cases h'; rw [hrest]
  next h' => rw [h] at h'; cases h'

/-! ## The writer -/

/-- Writes the values one after the other. -/
def encodeAll : List T → Bytes → BusResult Unit × Bytes
  | [], dst => (.ok (), dst)
  | value :: values, dst =>
    match encode s value dst with
    | (.ok (), dst') => encodeAll values dst'
    | (.error e, dst') => (.error e, dst')

/-- The value serializes to no more than the maximum. -/
def Sendable (value : T) : Prop :=
  ∃ bytes, s.ser value = .ok bytes ∧ bytes.length ≤ maxMessageSizeBytes

/-- What the encoder appends for the value. -/
def frame (value : T) : Bytes := (encode s value []).2

theorem encode_eq {value : T} (h : Sendable s value) (dst : Bytes) :
    encode s value dst = (.ok (), dst ++ frame s value) := by
  obtain ⟨bytes, hser, -⟩ := h
  simp [encode, frame, hser]

theorem encodeAll_eq {values : List T} (h : ∀ value ∈ values, Sendable s value) (dst : Bytes) :
    encodeAll s values dst = (.ok (), dst ++ values.flatMap (frame s)) := by
  induction values generalizing dst with
  | nil => simp [encodeAll]
  | cons value values ih =>
    rw [List.forall_mem_cons] at h
    rw [encodeAll, encode_eq s h.1, List.flatMap_cons, ← List.append_assoc]
    exact ih h.2 _

/-- The frame is the header and the serialized value. -/
theorem frame_eq {value : T} {bytes : Bytes} (hser : s.ser value = .ok bytes) :
    frame s value = putU32 (UInt32.ofNat bytes.length) ++ bytes := by
  simp [frame, encode, hser]

/-- The decoder takes a whole frame off the front of the buffer. -/
theorem decode_frame_append {value : T} (h : Sendable s value) (tail : Bytes) :
    decode s (frame s value ++ tail) = (.ok (some value), tail) := by
  obtain ⟨bytes, hser, hle⟩ := h
  have hn : (UInt32.ofNat bytes.length).toNat = bytes.length := by
    have hmax : maxMessageSizeBytes < 2 ^ 32 := by decide
    exact UInt32.toNat_ofNat'.trans (Nat.mod_eq_of_lt (by omega))
  rw [frame_eq s hser, List.append_assoc, decode_frame, hn, if_neg (Nat.not_lt.mpr hle),
    if_neg (by simp), List.take_left, List.drop_left, s.deser_ser hser]

/-- It waits while the frame is incomplete, be it in the header or in the body. -/
theorem decode_of_frame_eq {value : T} (h : Sendable s value) {src missing : Bytes}
    (hframe : frame s value = src ++ missing) (hmissing : missing ≠ []) :
    decode s src = (.ok none, src) := by
  obtain ⟨bytes, hser, hle⟩ := h
  have hn : (UInt32.ofNat bytes.length).toNat = bytes.length := by
    have hmax : maxMessageSizeBytes < 2 ^ 32 := by decide
    exact UInt32.toNat_ofNat'.trans (Nat.mod_eq_of_lt (by omega))
  rw [frame_eq s hser] at hframe
  have hheader : (putU32 (UInt32.ofNat bytes.length)).length = 4 := length_beBytes 4 _
  by_cases hshort : src.length < 4
  · rw [decode_eq, if_pos hshort]
  · -- the cut is behind the header: the buffer is the header and a part of the body
    have hle4 : 4 ≤ src.length := Nat.le_of_not_lt hshort
    have hsrc : putU32 (UInt32.ofNat bytes.length) = src.take 4 := by
      have htake := congrArg (List.take 4) hframe
      rwa [List.take_left' hheader, List.take_append_of_le_length hle4] at htake
    have hbody : bytes = src.drop 4 ++ missing := by
      have hdrop := congrArg (List.drop 4) hframe
      rwa [List.drop_left' hheader, List.drop_append_of_le_length hle4] at hdrop
    have hlt : (src.drop 4).length < bytes.length := by
      have hpos := List.length_pos_iff.mpr hmissing
      have hlen := congrArg List.length hbody
      rw [List.length_append] at hlen
      omega
    rw [← List.take_append_drop 4 src, ← hsrc, decode_frame, hn, if_neg (Nat.not_lt.mpr hle),
      if_pos hlt]

/-! ## However the stream is cut -/

/-- The buffer holds the beginning of what is to come. The loop takes the whole frames out and
waits in the middle of the next. -/
theorem drain_of_flatMap_eq {values : List T} (h : ∀ value ∈ values, Sendable s value)
    {src rest : Bytes} (hsrc : values.flatMap (frame s) = src ++ rest) :
    ∃ read unread src', values = read ++ unread ∧ drain s src = (.ok read, src') ∧
      unread.flatMap (frame s) = src' ++ rest ∧ decode s src' = (.ok none, src') := by
  induction values generalizing src with
  | nil =>
    obtain ⟨rfl, rfl⟩ := List.nil_eq_append_iff.mp hsrc
    have hnone : decode s [] = (.ok none, []) := rfl
    exact ⟨[], [], [], rfl, drain_of_none s hnone, rfl, hnone⟩
  | cons value values ih =>
    rw [List.forall_mem_cons] at h
    -- either the frame of the first value is in the buffer, or some of it is missing
    have hcut : (∃ tail, src = frame s value ++ tail ∧ values.flatMap (frame s) = tail ++ rest) ∨
        ∃ missing, missing ≠ [] ∧ frame s value = src ++ missing := by
      rw [List.flatMap_cons, List.append_eq_append_iff] at hsrc
      rcases hsrc with htail | ⟨missing, hframe, hrest⟩
      · exact .inl htail
      · by_cases hnil : missing = []
        · subst hnil
          rw [List.append_nil] at hframe
          exact .inl ⟨[], by rw [hframe, List.append_nil], by rw [hrest]; rfl⟩
        · exact .inr ⟨missing, hnil, hframe⟩
    rcases hcut with ⟨tail, rfl, htail⟩ | ⟨missing, hmissing, hframe⟩
    · obtain ⟨read, unread, src', rfl, hdrain, hunread, hnone⟩ := ih h.2 htail
      have hdecode := decode_frame_append s h.1 tail
      exact ⟨value :: read, unread, src', rfl, drain_of_some s hdecode hdrain, hunread, hnone⟩
    · have hnone := decode_of_frame_eq s h.1 hframe hmissing
      exact ⟨[], value :: values, src, rfl, drain_of_none s hnone, hsrc, hnone⟩

/-- The reader between two chunks: the buffer and the chunks to come are the frames to come. -/
theorem feed_of_flatMap_eq {values : List T} (h : ∀ value ∈ values, Sendable s value)
    {chunks : List Bytes} {src : Bytes} (hnone : decode s src = (.ok none, src))
    (hsrc : values.flatMap (frame s) = src ++ chunks.flatten) :
    feed s chunks src = (.ok values, []) := by
  induction chunks generalizing values src with
  | nil =>
    rw [List.flatten_nil, List.append_nil] at hsrc
    subst hsrc
    cases values with
    | nil => rfl
    | cons value values =>
      rw [List.forall_mem_cons] at h
      rw [List.flatMap_cons, decode_frame_append s h.1] at hnone
      cases hnone
  | cons chunk chunks ih =>
    rw [List.flatten_cons, ← List.append_assoc] at hsrc
    obtain ⟨read, unread, src', rfl, hdrain, hunread, hnone'⟩ := drain_of_flatMap_eq s h hsrc
    have hih := ih (fun value hv => h value (List.mem_append_right _ hv)) hnone' hunread
    rw [feed, hdrain]
    simp only [hih]

/-- **Framing does not depend on how the stream is cut.** Whatever the chunks, the reader yields
exactly the values that were written, in order, without an error, and the buffer ends empty. Each
`decode` on the way, on any buffer, keeps what it cannot read yet and removes what it reads. -/
theorem feed_encodeAll (values : List T) (h : ∀ value ∈ values, Sendable s value)
    (chunks : List Bytes) (hcut : chunks.flatten = (encodeAll s values []).2) :
    feed s chunks [] = (.ok values, []) ∧ ∀ src, Step s src := by
  rw [encodeAll_eq s h, List.nil_append] at hcut
  exact ⟨feed_of_flatMap_eq s h rfl hcut.symm, step s⟩

/-- A subscription and a keep-alive. -/
def subThenKeepAlive : List (WireMsg ProtocolClient) :=
  [⟨⟨1, .sub ⟨⟨"p", ⟨"a/*"⟩⟩⟩⟩, by decide⟩, ⟨⟨2, .keepAlive⟩, by decide⟩]

/-- The stream is cut in the header of the first frame, behind it, and three bytes further on the
rest comes in one piece; one chunk is empty. -/
theorem feed_encodeAll_subThenKeepAlive :
    let stream := (encodeAll (serde ProtocolClient) subThenKeepAlive []).2
    feed (serde ProtocolClient)
        [stream.take 2, [], (stream.drop 2).take 2, (stream.drop 4).take 3, stream.drop 7] [] =
      (.ok subThenKeepAlive, []) := by
  refine (feed_encodeAll (serde ProtocolClient) subThenKeepAlive ?_ _ ?_).1
  · refine List.forall_mem_cons.mpr ⟨⟨_, rfl, by decide +kernel⟩, ?_⟩
    exact List.forall_mem_singleton.mpr ⟨_, rfl, by decide +kernel⟩
  · decide +kernel

end CborCodec

end T2Bus
