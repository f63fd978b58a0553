import T2Bus.Transport.Framing

/-!
# One direction of a connection

A `Framed` transport: the encoder of one end appends frames to a stream of bytes, the network carries
the bytes over in pieces of any size, and the decoder of the other end works on what has arrived.

* `Wire` with `write`, `carry` and `spill`: what the two ends and the network do to it;
* `Wire.Carries`: the bytes on the wire are the frames of a list of values;
* `CborCodec.decode_of_prefix`: what the decoder makes of a part of a frame;
* **`Wire.Carries.decode_some`**, `Wire.Carries.decode_ok`, `Wire.Carries.decode_arrived`: the reader
  takes the first value off, fails only at one that is too long, and has it once its bytes are there.
-/

namespace T2Bus

open Cbor

/-! ## Parts of frames -/

namespace CborCodec

variable {T : Type} (s : Serde T)

/-- The value serializes, and the header can hold its length. -/
def Framable (value : T) : Prop := ∃ bytes, s.ser value = .ok bytes ∧ bytes.length < 2 ^ 32

variable {s} {value : T} {src : Bytes}

theorem Sendable.framable (h : Sendable s value) : Framable s value := by
  obtain ⟨bytes, hser, hle⟩ := h
  have hmax : maxMessageSizeBytes < 2 ^ 32 := by decide
  exact ⟨bytes, hser, by omega⟩

/-- The decoder reads nothing off the beginning of a frame that is too long. -/
theorem decode_of_gt (h : Framable s value) (hlong : ¬ Sendable s value) {missing tail : Bytes}
    (hsrc : src ++ missing = frame s value ++ tail) :
    decode s src = (.ok none, src) ∨ ∃ e, decode s src = (.error e, src) := by
  obtain ⟨bytes, hser, hlt⟩ := h
  have hgt : maxMessageSizeBytes < bytes.length := by
    by_contra hle
    exact hlong ⟨bytes, hser, Nat.le_of_not_lt hle⟩
  rw [decode_eq]
  by_cases hshort : src.length < 4
  · exact .inl (if_pos hshort)
  · -- the header is there, and says how long the frame is
    have hheader : src.take 4 = putU32 (UInt32.ofNat bytes.length) := by
      have hfour : (putU32 (UInt32.ofNat bytes.length)).length = 4 := length_beBytes 4 _
      have htake := congrArg (List.take 4) hsrc
      rwa [frame_eq s hser, List.append_assoc, List.take_left' hfour,
        List.take_append_of_le_length (Nat.le_of_not_lt hshort)] at htake
    have hlen : payloadLen src = bytes.length := by
      rw [payloadLen, hheader, putU32, beNat_beBytes, UInt32.toNat_ofNat', Nat.mod_eq_of_lt hlt]
      exact Nat.mod_eq_of_lt hlt
    rw [if_neg hshort, if_pos (hlen ▸ hgt)]
    exact .inr ⟨_, rfl⟩

/-- **What the decoder makes of the beginning of a frame**, or of the frame with something behind it. -/
theorem decode_of_prefix (h : Framable s value) {missing tail : Bytes}
    (hsrc : src ++ missing = frame s value ++ tail) :
    decode s src = (.ok none, src) ∨
      (∃ rest, src = frame s value ++ rest ∧ rest ++ missing = tail ∧
        decode s src = (.ok (some value), rest)) ∨
      ¬ Sendable s value ∧ ∃ e, decode s src = (.error e, src) := by
  by_cases hs : Sendable s value
  · rcases List.append_eq_append_iff.mp hsrc with ⟨more, hframe, hmissing⟩ | ⟨rest, rfl, htail⟩
    · by_cases hnil : more = []
      · subst hnil
        rw [List.append_nil] at hframe
        refine .inr (.inl ⟨[], by rw [List.append_nil, hframe], hmissing, ?_⟩)
        have hdec := decode_frame_append s hs []
        rwa [List.append_nil, hframe] at hdec
      · exact .inl (decode_of_frame_eq s hs hframe hnil)
    · exact .inr (.inl ⟨rest, rfl, htail.symm, decode_frame_append s hs rest⟩)
  · rcases decode_of_gt h hs hsrc with hnone | herr
    · exact .inl hnone
    · exact .inr (.inr ⟨hs, herr⟩)

end CborCodec

/-! ## The wire -/

structure Wire where
  /-- What the writer has appended, and the reader has not got yet. -/
  flight : Bytes
  /-- The buffer of the reader. -/
  buffer : Bytes
  /-- A write has failed. -/
  broken : Bool

namespace Wire

open CborCodec

def empty : Wire := ⟨[], [], false⟩

/-- The network carries some bytes over. -/
def carry (n : ℕ) (wire : Wire) : Wire :=
  { wire with flight := wire.flight.drop n, buffer := wire.buffer ++ wire.flight.take n }

variable {T : Type} (s : Serde T)

/-- The writer sends some values. -/
def write (values : List T) (wire : Wire) : Wire :=
  { wire with flight := (encodeAll s values wire.flight).2 }

/-- A write fails when some bytes of the frame are out. -/
def spill (value : T) (n : ℕ) (wire : Wire) : Wire :=
  { wire with flight := wire.flight ++ (frame s value).take n, broken := true }

/-- The bytes are the frames of the values, and behind them what a write has left that failed. -/
def Carries (wire : Wire) (values : List T) : Prop :=
  (∀ value ∈ values, Framable s value) ∧
    ∃ spilt, wire.buffer ++ wire.flight = values.flatMap (frame s) ++ spilt ∧
      (spilt = [] ∨ wire.broken = true ∧
        ∃ value missing, Framable s value ∧ missing ≠ [] ∧ frame s value = spilt ++ missing)

variable {s} {wire : Wire} {values : List T}

theorem carries_empty : empty.Carries s [] := ⟨by simp, [], rfl, .inl rfl⟩

theorem Carries.carry (h : wire.Carries s values) (n : ℕ) : (wire.carry n).Carries s values := by
  obtain ⟨hframable, spilt, hbytes, hspilt⟩ := h
  refine ⟨hframable, spilt, ?_, hspilt⟩
  rw [Wire.carry, List.append_assoc, List.take_append_drop]
  exact hbytes

theorem encodeAll_framable {new : List T} (h : ∀ value ∈ new, Framable s value) (dst : Bytes) :
    (encodeAll s new dst).2 = dst ++ new.flatMap (frame s) := by
  induction new generalizing dst with
  | nil => exact (List.append_nil dst).symm
  | cons value new ih =>
    obtain ⟨⟨bytes, hser, -⟩, hnew⟩ := List.forall_mem_cons.mp h
    have hencode : encode s value dst = (.ok (), dst ++ frame s value) := by
      rw [frame_eq s hser, encode, hser]
    rw [encodeAll, hencode, List.flatMap_cons, ← List.append_assoc]
    exact ih hnew _

theorem Carries.write (h : wire.Carries s values) (hb : wire.broken = false) {new : List T}
    (hnew : ∀ value ∈ new, Framable s value) : (wire.write s new).Carries s (values ++ new) := by
  obtain ⟨hframable, spilt, hbytes, hspilt⟩ := h
  obtain rfl : spilt = [] := hspilt.resolve_right (by simp [hb])
  refine ⟨List.forall_mem_append.mpr ⟨hframable, hnew⟩, [], ?_, .inl rfl⟩
  rw [Wire.write, encodeAll_framable hnew, List.flatMap_append, ← List.append_assoc, hbytes,
    List.append_nil, List.append_nil]

theorem Carries.spill (h : wire.Carries s values) (hb : wire.broken = false) {value : T} {n : ℕ}
    (hvalue : Framable s value) (hn : n < (frame s value).length) :
    (wire.spill s value n).Carries s values := by
  obtain ⟨hframable, spilt, hbytes, hspilt⟩ := h
  obtain rfl : spilt = [] := hspilt.resolve_right (by simp [hb])
  refine ⟨hframable, (frame s value).take n, ?_, .inr ⟨rfl, value, (frame s value).drop n, hvalue, ?_,
    (List.take_append_drop n _).symm⟩⟩
  · rw [Wire.spill, ← List.append_assoc, hbytes, List.append_nil]
  · exact List.ne_nil_of_length_pos (by rw [List.length_drop]; omega)

/-! ## Reading -/

/-- What the reader's buffer begins with. -/
theorem Carries.decode_cases (h : wire.Carries s values) :
    decode s wire.buffer = (.ok none, wire.buffer) ∨
      (∃ value rest values', values = value :: values' ∧
        decode s wire.buffer = (.ok (some value), rest) ∧
          ({ wire with buffer := rest } : Wire).Carries s values') ∨
      (∃ value, ¬ Sendable s value ∧ (value ∈ values ∨ wire.broken = true)) ∧
        ∃ e, decode s wire.buffer = (.error e, wire.buffer) := by
  obtain ⟨hframable, spilt, hbytes, hspilt⟩ := h
  cases values with
  | cons value values =>
    rw [List.flatMap_cons, List.append_assoc] at hbytes
    have hhead := List.forall_mem_cons.mp hframable
    rcases decode_of_prefix hhead.1 hbytes with hnone | ⟨rest, -, hrest, hdec⟩ | ⟨hlong, herr⟩
    · exact .inl hnone
    · exact .inr (.inl ⟨value, rest, values, rfl, hdec, hhead.2, spilt, hrest, hspilt⟩)
    · exact .inr (.inr ⟨⟨value, hlong, .inl List.mem_cons_self⟩, herr⟩)
  | nil =>
    rw [List.flatMap_nil, List.nil_append] at hbytes
    rcases hspilt with rfl | ⟨hb, value, missing, hvalue, hmissing, hframe⟩
    · -- nothing is on the wire
      have hnil := List.append_eq_nil_iff.mp hbytes
      rw [hnil.1]
      exact .inl rfl
    · have hsrc : wire.buffer ++ (wire.flight ++ missing) = frame s value ++ [] := by
        rw [← List.append_assoc, hbytes, hframe, List.append_nil]
      rcases decode_of_prefix hvalue hsrc with hnone | ⟨rest, -, hrest, -⟩ | ⟨hlong, herr⟩
      · exact .inl hnone
      · exact absurd (List.append_eq_nil_iff.mp (List.append_eq_nil_iff.mp hrest).2).2 hmissing
      · exact .inr (.inr ⟨⟨value, hlong, .inr hb⟩, herr⟩)

/-- **What the reader takes off is the first value**, and leaves the others. -/
theorem Carries.decode_some (h : wire.Carries s values) {value : T} {rest : Bytes}
    (hdec : decode s wire.buffer = (.ok (some value), rest)) :
    ∃ values', values = value :: values' ∧ ({ wire with buffer := rest } : Wire).Carries s values' := by
  rcases h.decode_cases with hnone | ⟨value', rest', values', hvalues, hdec', hcarries⟩ | ⟨-, e, herr⟩
  · cases hdec.symm.trans hnone
  · cases hdec.symm.trans hdec'
    exact ⟨values', hvalues, hcarries⟩
  · cases hdec.symm.trans herr

/-- The reader fails only at a value that is too long. -/
theorem Carries.decode_ok (h : wire.Carries s values) (hb : wire.broken = false)
    (hsendable : ∀ value ∈ values, Sendable s value) {e : BusError} {rest : Bytes} :
    decode s wire.buffer ≠ (.error e, rest) := by
  intro hdec
  rcases h.decode_cases with hnone | ⟨value, rest', values', -, hdec', -⟩ | ⟨⟨value, hlong, hvalue⟩, -⟩
  · cases hdec.symm.trans hnone
  · cases hdec.symm.trans hdec'
  · rcases hvalue with hvalue | hvalue
    · exact hlong (hsendable value hvalue)
    · rw [hb] at hvalue
      cases hvalue

/-- Once everything has arrived, the reader has the first value. -/
theorem Carries.decode_arrived {value : T} (h : wire.Carries s (value :: values))
    (hflight : wire.flight = []) (hvalue : Sendable s value) :
    ∃ rest, decode s wire.buffer = (.ok (some value), rest) := by
  obtain ⟨-, spilt, hbytes, -⟩ := h
  rw [hflight, List.append_nil, List.flatMap_cons, List.append_assoc] at hbytes
  exact ⟨_, hbytes ▸ decode_frame_append s hvalue _⟩

end Wire

end T2Bus
