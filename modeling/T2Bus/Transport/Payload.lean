import T2Bus.Lib.Cbor
import T2Bus.Protocol

/-!
# Payloads and their bytes

A payload is compressed if it is long. The compressor is a parameter.

* `Gzip`; `Payload.ofBytes`, `Payload.toBytes`: the conversions; **`Payload.toBytes_eq_panic`**;
* `Payload.value?`: the value that a payload holds; `deserText`: texts.
-/

namespace T2Bus

/-- The gzip encoder and decoder; `none` if the bytes are no gzip stream. -/
structure Gzip where
  compress : List UInt8 → List UInt8
  decompress : List UInt8 → Option (List UInt8)

/-- `PAYLOAD_COMPRESSION_THRESHOLD_BYTES` -/
def payloadCompressionThresholdBytes : ℕ := 5000

namespace Payload

variable {P : Type} (gzip : Gzip) (deser : List UInt8 → BusResult P) {p : Payload}

/-- `From<Vec<u8>> for Payload` -/
def ofBytes (data : List UInt8) : Payload :=
  if payloadCompressionThresholdBytes < data.length then ⟨gzip.compress data, true⟩ else ⟨data, false⟩

/-- `From<Payload> for Vec<u8>` -/
def toBytes (p : Payload) : Except Fault (List UInt8) :=
  if p.isCompressed then
    match gzip.decompress p.data with
    | some data => .ok data
    | none => .error .panic
  else .ok p.data

/-- The payload decompresses and deserialises. -/
def value? (p : Payload) : Option P :=
  match p.toBytes gzip with
  | .ok data => (deser data).toOption
  | .error _ => none

/-- **The bytes of a payload come back** if the decoder undoes the encoder. -/
theorem toBytes_ofBytes (h : ∀ data, gzip.decompress (gzip.compress data) = some data)
    (data : List UInt8) : (ofBytes gzip data).toBytes gzip = .ok data := by
  unfold ofBytes toBytes
  split_ifs <;> simp_all

/-- **The conversion panics exactly at what is marked as compressed and is no gzip stream.** -/
theorem toBytes_eq_panic : p.toBytes gzip = .error .panic ↔
    p.isCompressed = true ∧ gzip.decompress p.data = none := by
  unfold toBytes
  cases p.isCompressed <;> cases gzip.decompress p.data <;> simp

end Payload

/-! ## Texts -/

/-- `deser` for a `String` -/
def deserText (data : List UInt8) : BusResult String :=
  match Cbor.Item.decode 256 data with
  | some (.text s, _) => .ok s
  | _ => .error (.ioError "CBOR deserialization failed.")

/-- No bytes are a gzip stream. -/
def noGzip : Gzip := ⟨id, fun _ => none⟩

end T2Bus
