/-
The signed envelope on the wire (`envelope.rs`, protocol spec §3): eight
entries in canonical order, the signature over the other seven.
-/
import Sidevers.Core.SideWire
import Sidevers.Core.VerseWire

namespace Sidevers.Core

open Cbor

/-- `PROTOCOL_VERSION`. -/
def protocolVersion : UInt64 := 1

namespace SignedEnvelope

/-- `to_wire_bytes`. -/
def toWireBytes (e : SignedEnvelope) : List UInt8 :=
  encodeMap
    [⟨key "t", uint e.messageType.byte.toUInt64⟩,
     ⟨key "v", uint e.version⟩,
     ⟨key "to", ProfilePayload.orNull (fun addr => bytes addr.val) e.toSide⟩,
     ⟨key "ts", uint e.timestamp⟩,
     ⟨key "sig", bytes e.sig.val⟩,
     ⟨key "from", bytes e.fromSide.val⟩,
     ⟨key "nonce", bytes e.nonce.val⟩,
     ⟨key "payload", bytes e.payload⟩]

/-- `sign_with`: no field values are refused. -/
def signWith {crypto : Crypto} (messageType : MessageType)
    (side : Signer crypto) (toSide : Option Address) (payload : List UInt8)
    (timestamp : UInt64) (nonce : Nonce) : SignedEnvelope :=
  let unsigned : SignedEnvelope :=
    { version := protocolVersion, messageType, fromSide := side.publicBytes,
      toSide, timestamp, nonce, payload, sig := Bytes.fill _ 0 }
  { unsigned with sig := side.sign (crypto.blake3 unsigned.encodeUnsigned) }

/-- The key every field is introduced by. -/
def expectField (want : String) : Read Unit :=
  expectKey want "envelope map keys not in canonical order"

/-- The message type, one byte. -/
def readType : Read MessageType := do
  let v ← readU64
  if v > 0xFF then
    let n := v.toNat
    throw (.cborDecode s!"message type out of u8 range: {n}")
  return ⟨v.toUInt8⟩

/-- The recipient, which may be null. -/
def readTo : Read (Option Address) := do
  match ← readBytesOrNull with
  | none => return none
  | some b =>
      if h : b.length = publicKeyLen then return some ⟨b, h⟩
      else throw (.badFieldLength "to" publicKeyLen b.length)

/-- The eight fields. -/
def readFields : Read SignedEnvelope := do
  expectEntries 8 fun n => s!"envelope expected 8-key map, got {n}"
  expectField "t"
  let messageType ← readType
  expectField "v"
  let version ← readU64
  expectField "to"
  let toSide ← readTo
  expectField "ts"
  let timestamp ← readU64
  expectField "sig"
  let sig ← readExact "sig" signatureLen
  expectField "from"
  let fromSide ← readExact "from" publicKeyLen
  expectField "nonce"
  let nonce ← readExact "nonce" nonceLen
  expectField "payload"
  let payload ← readBytes
  return { version, messageType, fromSide, toSide, timestamp, nonce, payload,
           sig }

/-- The fields, and nothing after them. -/
def readAll : Read SignedEnvelope := do
  let e ← readFields
  if !(← atEnd) then
    throw (.cborDecode "trailing bytes after envelope")
  return e

/-- `from_wire_bytes`. -/
def fromWireBytes (crypto : Crypto) (wire : List UInt8) :
    Except Error SignedEnvelope := do
  let e ← readAll.value wire
  if e.version ≠ protocolVersion then
    throw (.unsupportedVersion e.version)
  crypto.verify e.fromSide (crypto.blake3 e.encodeUnsigned) e.sig
  if e.toWireBytes ≠ wire then
    throw (.cborNotCanonical "envelope bytes are not canonical re-encode")
  return e

end SignedEnvelope

end Sidevers.Core
