/-
The wire forms of the handshake payloads (`messages/handshake.rs`): their
bytes, where `Core.Handshake` has the payloads over ideal keys.
-/
import Sidevers.Core.PeerWire

namespace Sidevers.Core

open Sidevers.Lib
open Cbor

/-- `EPH_PUB_LEN`. -/
def ephPubLen : Nat := 32

/-- `decode_capabilities`. -/
def decodeCapabilities : Read (BTreeMap String UInt64) :=
  readMap "capabilities keys not in canonical order" readU64

/-- `encode_capabilities`. -/
def encodeCapabilities (map : BTreeMap String UInt64) : List UInt8 :=
  encodeSortedMap uint map

/-- The field `intent`. -/
def readIntent : Read UInt8 := do
  let i ← readU64
  if i > 0xFF then
    let got := i.toNat
    throw (.cborDecode s!"intent out of u8 range: {got}")
  return i.toUInt8

/-- `HelloPayload`, as it is encoded. -/
structure HelloWire where
  vMax : UInt64
  vMin : UInt64
  extensions : List String
  ephPub : Bytes ephPubLen
  intent : UInt8
  capabilities : BTreeMap String UInt64
  deriving DecidableEq

namespace HelloWire

/-- `HelloPayload::encode`. -/
def encode (p : HelloWire) : List UInt8 :=
  encodeMap
    [⟨key "v_max", uint p.vMax⟩,
     ⟨key "v_min", uint p.vMin⟩,
     ⟨key "intent", uint p.intent.toUInt64⟩,
     ⟨key "eph_pub", bytes p.ephPub.val⟩,
     ⟨key "extensions", encodeArray text p.extensions⟩,
     ⟨key "capabilities", encodeCapabilities p.capabilities⟩]

/-- The key every field is introduced by. -/
def expectField (want : String) : Read Unit :=
  expectKey want "HelloPayload keys not in canonical order"

/-- The six fields. -/
def readFields : Read HelloWire := do
  expectEntries 6 fun n => s!"HelloPayload expected 6 keys, got {n}"
  expectField "v_max"
  let vMax ← readU64
  expectField "v_min"
  let vMin ← readU64
  expectField "intent"
  let intent ← readIntent
  expectField "eph_pub"
  let ephPub ← readExact "eph_pub" ephPubLen
  expectField "extensions"
  let extensions ← readArray readText
  expectField "capabilities"
  let capabilities ← decodeCapabilities
  return { vMax, vMin, extensions, ephPub, intent, capabilities }

/-- `HelloPayload::decode`. -/
def decode (wire : List UInt8) : Except Error HelloWire :=
  readFields.whole "HelloPayload" wire

end HelloWire

/-- `HelloBackPayload`, as it is encoded. -/
structure HelloBackWire where
  v : UInt64
  accept : Bool
  reason : Option String
  ephPub : Bytes ephPubLen
  extensions : List String
  capabilities : BTreeMap String UInt64
  deriving DecidableEq

namespace HelloBackWire

/-- `HelloBackPayload::encode`. -/
def encode (p : HelloBackWire) : List UInt8 :=
  encodeMap
    [⟨key "v", uint p.v⟩,
     ⟨key "accept", boolean p.accept⟩,
     ⟨key "reason", ProfilePayload.orNull text p.reason⟩,
     ⟨key "eph_pub", bytes p.ephPub.val⟩,
     ⟨key "extensions", encodeArray text p.extensions⟩,
     ⟨key "capabilities", encodeCapabilities p.capabilities⟩]

/-- The key every field is introduced by. -/
def expectField (want : String) : Read Unit :=
  expectKey want "HelloBackPayload keys not in canonical order"

/-- The six fields. -/
def readFields : Read HelloBackWire := do
  expectEntries 6 fun n => s!"HelloBackPayload expected 6 keys, got {n}"
  expectField "v"
  let v ← readU64
  expectField "accept"
  let accept ← readBool
  expectField "reason"
  let reason ← readOrNull "missing reason" readText
  expectField "eph_pub"
  let ephPub ← readExact "eph_pub" ephPubLen
  expectField "extensions"
  let extensions ← readArray readText
  expectField "capabilities"
  let capabilities ← decodeCapabilities
  return { v, accept, reason, ephPub, extensions, capabilities }

/-- `HelloBackPayload::decode`. -/
def decode (wire : List UInt8) : Except Error HelloBackWire :=
  readFields.whole "HelloBackPayload" wire

end HelloBackWire

/-- `ConfirmPayload`, as it is encoded. -/
structure ConfirmWire where
  proof : Bytes 32
  deriving DecidableEq

namespace ConfirmWire

/-- `ConfirmPayload::encode`. -/
def encode (p : ConfirmWire) : List UInt8 :=
  encodeMap [⟨key "proof", bytes p.proof.val⟩]

/-- The one field. -/
def readFields : Read ConfirmWire := do
  expectEntries 1 fun n => s!"ConfirmPayload expected 1 key, got {n}"
  expectKey "proof" "ConfirmPayload expects 'proof'"
  let proof ← readExact "proof" 32
  return { proof }

/-- `ConfirmPayload::decode`. -/
def decode (wire : List UInt8) : Except Error ConfirmWire :=
  readFields.whole "Confirm" wire

end ConfirmWire

end Sidevers.Core
