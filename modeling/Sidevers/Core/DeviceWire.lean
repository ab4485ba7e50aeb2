/-
The wire forms of the multi-device records (`messages/device.rs`): the bytes
whose hash each of them is signed over, and the codecs of what travels from
one co-holder to the other, a bundle's plaintext and the deltas.
-/
import Sidevers.Core.Device
import Sidevers.Core.VerseWire

namespace Sidevers.Core

open Cbor

/-- `PAIRING_NONCE_LEN`. -/
def pairingNonceLen : Nat := 16

/-- `KEY_NONCE_LEN`. -/
def keyNonceLen : Nat := nonceLen

/-- `encode_single_relationship`. -/
def RelationshipRecord.encode (rec : RelationshipRecord) : List UInt8 :=
  encodeMap
    [⟨key "notes", ProfilePayload.orNull text rec.notes⟩,
     ⟨key "pinned", boolean rec.pinned⟩,
     ⟨key "address", bytes rec.address.val⟩,
     ⟨key "added_at", uint rec.addedAt⟩,
     ⟨key "nickname", ProfilePayload.orNull text rec.nickname⟩,
     ⟨key "capabilities", encodeArray text rec.capabilities⟩,
     ⟨key "introduced_by",
       ProfilePayload.orNull (fun b => bytes b.val) rec.introducedBy⟩]

/-- The key every field is introduced by. -/
def RelationshipRecord.expectField (want : String) : Read Unit :=
  expectKey want "Relationship record keys not in canonical order"

/-- `decode_single_relationship`. -/
def RelationshipRecord.decodeFrom : Read RelationshipRecord := do
  expectEntries 7 fun m => s!"Relationship record expected 7 keys, got {m}"
  expectField "notes"
  let notes ← readOrNull "missing notes" readText
  expectField "pinned"
  let pinned ← readBool
  expectField "address"
  let address ← readExact "address" 32
  expectField "added_at"
  let addedAt ← readU64
  expectField "nickname"
  let nickname ← readOrNull "missing nickname" readText
  expectField "capabilities"
  let capabilities ← readArray readText
  expectField "introduced_by"
  let introducedBy ← readOrNull "missing introduced_by"
    (readExact "introduced_by" 32)
  return { address, nickname, introducedBy, capabilities, notes, pinned,
           addedAt }

/-- `encode_relationship_array`: each record spelled out in place. -/
def encodeRelationshipArray (items : List RelationshipRecord) : List UInt8 :=
  arrayHeader items.length ++ items.flatMap fun rec =>
    encodeMap
      [⟨key "notes", ProfilePayload.orNull text rec.notes⟩,
       ⟨key "pinned", boolean rec.pinned⟩,
       ⟨key "address", bytes rec.address.val⟩,
       ⟨key "added_at", uint rec.addedAt⟩,
       ⟨key "nickname", ProfilePayload.orNull text rec.nickname⟩,
       ⟨key "capabilities", encodeArray text rec.capabilities⟩,
       ⟨key "introduced_by",
         ProfilePayload.orNull (fun b => bytes b.val) rec.introducedBy⟩]

/-- `decode_relationship_array`: each record read in place. -/
def decodeRelationshipArray : Read (List RelationshipRecord) := do
  let n ← readArrayHeader
  readTimes n do
    expectEntries 7 fun m => s!"Relationship record expected 7 keys, got {m}"
    RelationshipRecord.expectField "notes"
    let notes ← readOrNull "missing notes" readText
    RelationshipRecord.expectField "pinned"
    let pinned ← readBool
    RelationshipRecord.expectField "address"
    let address ← readExact "address" 32
    RelationshipRecord.expectField "added_at"
    let addedAt ← readU64
    RelationshipRecord.expectField "nickname"
    let nickname ← readOrNull "missing nickname" readText
    RelationshipRecord.expectField "capabilities"
    let capabilities ← readArray readText
    RelationshipRecord.expectField "introduced_by"
    let introducedBy ← readOrNull "missing introduced_by"
      (readExact "introduced_by" 32)
    return { address, nickname, introducedBy, capabilities, notes, pinned,
             addedAt }

/-- `DeltaOp::encode`: the kind, and the fields of that kind. -/
def DeltaOp.encode : DeltaOp → List UInt8
  | .profileUpdated profileWire =>
      encodeMap
        [⟨key "kind", text "profile_updated"⟩,
         ⟨key "profile_wire", bytes profileWire⟩]
  | .profileCleared => encodeMap [⟨key "kind", text "profile_cleared"⟩]
  | .relationshipUpserted record =>
      encodeMap
        [⟨key "kind", text "relationship_upserted"⟩,
         ⟨key "record", record.encode⟩]
  | .relationshipRemoved address =>
      encodeMap
        [⟨key "kind", text "relationship_removed"⟩,
         ⟨key "address", bytes address.val⟩]
  | .retiredObserved address =>
      encodeMap
        [⟨key "kind", text "retired_observed"⟩,
         ⟨key "address", bytes address.val⟩]
  | .lifecycleChanged state =>
      encodeMap
        [⟨key "kind", text "lifecycle_changed"⟩,
         ⟨key "state", text state⟩]
  | .coHolderAdded devicePubkey dialAddr =>
      encodeMap
        [⟨key "kind", text "cohol_added"⟩,
         ⟨key "dial_addr", text dialAddr⟩,
         ⟨key "device_pubkey", bytes devicePubkey.val⟩]
  | .coHolderRemoved devicePubkey =>
      encodeMap
        [⟨key "kind", text "cohol_removed"⟩,
         ⟨key "device_pubkey", bytes devicePubkey.val⟩]

/-- `expect_key`. -/
def DeltaOp.expectField (want : String) : Read Unit :=
  expectKey want "DeltaOp: keys not in canonical order"

/-- The fields of an op of this kind, in a map of `n` entries. -/
def DeltaOp.decodeFields (n : Nat) (kind : String) : Read DeltaOp := do
  if kind = "profile_updated" then
    if n ≠ 2 then
      throw (.cborDecode "profile_updated expects 2 keys")
    expectField "profile_wire"
    let profileWire ← readBytes
    return .profileUpdated profileWire
  else if kind = "profile_cleared" then
    if n ≠ 1 then
      throw (.cborDecode "profile_cleared expects 1 key")
    return .profileCleared
  else if kind = "relationship_upserted" then
    if n ≠ 2 then
      throw (.cborDecode "relationship_upserted expects 2 keys")
    expectField "record"
    let record ← RelationshipRecord.decodeFrom
    return .relationshipUpserted record
  else if kind = "relationship_removed" then
    if n ≠ 2 then
      throw (.cborDecode "relationship_removed expects 2 keys")
    expectField "address"
    let address ← readExact "address" 32
    return .relationshipRemoved address
  else if kind = "retired_observed" then
    if n ≠ 2 then
      throw (.cborDecode "retired_observed expects 2 keys")
    expectField "address"
    let address ← readExact "address" 32
    return .retiredObserved address
  else if kind = "lifecycle_changed" then
    if n ≠ 2 then
      throw (.cborDecode "lifecycle_changed expects 2 keys")
    expectField "state"
    let state ← readText
    return .lifecycleChanged state
  else if kind = "cohol_added" then
    if n ≠ 3 then
      throw (.cborDecode "cohol_added expects 3 keys")
    expectField "dial_addr"
    let dialAddr ← readText
    expectField "device_pubkey"
    let devicePubkey ← readExact "device_pubkey" 32
    return .coHolderAdded devicePubkey dialAddr
  else if kind = "cohol_removed" then
    if n ≠ 2 then
      throw (.cborDecode "cohol_removed expects 2 keys")
    expectField "device_pubkey"
    let devicePubkey ← readExact "device_pubkey" 32
    return .coHolderRemoved devicePubkey
  else
    throw (.cborDecode s!"DeltaOp: unknown kind '{kind}'")

/-- `DeltaOp::decode`: the kind comes first. -/
def DeltaOp.decodeFrom : Read DeltaOp := do
  let n ← readMapHeader
  if n = 0 then
    throw (.cborDecode "empty DeltaOp map")
  expectKey "kind" "DeltaOp: first key must be 'kind'"
  let kind ← readText
  decodeFields n kind

/-- `StateBundleInner` in full, with the seed and the time. -/
structure SeededStateBundle extends StateBundleInner where
  sideSeed : Bytes 32
  bundledAt : UInt64
  deriving DecidableEq

namespace SeededStateBundle

/-- `StateBundleInner::encode`. -/
def encode (x : SeededStateBundle) : List UInt8 :=
  encodeMap
    [⟨key "profile", ProfilePayload.orNull bytes x.profileWire⟩,
     ⟨key "lifecycle", text x.lifecycle⟩,
     ⟨key "side_seed", bytes x.sideSeed.val⟩,
     ⟨key "bundled_at", uint x.bundledAt⟩,
     ⟨key "co_holders", encodeArray (fun b => bytes b.val) x.coHolders⟩,
     ⟨key "relationships", encodeRelationshipArray x.relationships⟩,
     ⟨key "retired_sides", encodeArray (fun b => bytes b.val) x.retiredSides⟩]

/-- `decode_bytes_array`. -/
def decodeBytesArray : Read (List (Bytes 32)) :=
  readArray (readExact "bytes array item" 32)

/-- The key every field is introduced by. -/
def expectField (want : String) : Read Unit :=
  expectKey want "StateBundleInner keys not in canonical order"

/-- The seven fields. -/
def readFields : Read SeededStateBundle := do
  expectEntries 7 fun n => s!"StateBundleInner expected 7 keys, got {n}"
  expectField "profile"
  let profileWire ← readOrNull "missing profile" readBytes
  expectField "lifecycle"
  let lifecycle ← readText
  expectField "side_seed"
  let sideSeed ← readExact "side_seed" 32
  expectField "bundled_at"
  let bundledAt ← readU64
  expectField "co_holders"
  let coHolders ← decodeBytesArray
  expectField "relationships"
  let relationships ← decodeRelationshipArray
  expectField "retired_sides"
  let retiredSides ← decodeBytesArray
  return { profileWire, relationships, retiredSides, lifecycle, coHolders,
           sideSeed, bundledAt }

/-- The seven fields and nothing after them. -/
def readAll : Read SeededStateBundle := do
  let x ← readFields
  if !(← atEnd) then
    throw (.cborDecode "trailing bytes after StateBundleInner")
  return x

/-- `StateBundleInner::decode`. -/
def decode (wire : List UInt8) : Except Error SeededStateBundle :=
  readAll.value wire

end SeededStateBundle

/-- `PairingRequestPayload` in full, with its signature. -/
structure SignedPairingRequest extends PairingRequestPayload where
  deviceX25519Pubkey : Bytes 32
  signature : Bytes signatureLen
  deriving DecidableEq

/-- `PairingRequestPayload::encode_unsigned`. -/
def SignedPairingRequest.encodeUnsigned (p : SignedPairingRequest) :
    List UInt8 :=
  encodeMap
    [⟨key "side", bytes p.side.val⟩,
     ⟨key "nonce", bytes p.nonce.val⟩,
     ⟨key "device_pubkey", bytes p.devicePubkey.val⟩,
     ⟨key "device_x25519_pubkey", bytes p.deviceX25519Pubkey.val⟩]

namespace SignedPairingRequest

/-- `PairingRequestPayload::sign`. -/
def sign {crypto : Crypto} (side : Address)
    (deviceSigningKey : Signer crypto) (deviceX25519Pubkey : Bytes 32)
    (nonce : Bytes pairingNonceLen) : SignedPairingRequest :=
  let unsigned : SignedPairingRequest :=
    { side, nonce, devicePubkey := deviceSigningKey.publicBytes
      deviceX25519Pubkey, signature := Bytes.fill _ 0 }
  { unsigned with
    signature := deviceSigningKey.sign
      (crypto.blake3 unsigned.encodeUnsigned) }

/-- `PairingRequestPayload::to_wire_bytes`. -/
def toWireBytes (p : SignedPairingRequest) : List UInt8 :=
  encodeMap
    [⟨key "side", bytes p.side.val⟩,
     ⟨key "nonce", bytes p.nonce.val⟩,
     ⟨key "signature", bytes p.signature.val⟩,
     ⟨key "device_pubkey", bytes p.devicePubkey.val⟩,
     ⟨key "device_x25519_pubkey", bytes p.deviceX25519Pubkey.val⟩]

/-- The key every field is introduced by. -/
def expectField (want : String) : Read Unit :=
  expectKey want "PairingRequest keys not in canonical order"

/-- The five fields. -/
def readFields : Read SignedPairingRequest := do
  expectEntries 5 fun n => s!"PairingRequest expected 5 keys, got {n}"
  expectField "side"
  let side ← readExact "side" 32
  expectField "nonce"
  let nonce ← readExact "nonce" pairingNonceLen
  expectField "signature"
  let signature ← readExact "signature" signatureLen
  expectField "device_pubkey"
  let devicePubkey ← readExact "device_pubkey" 32
  expectField "device_x25519_pubkey"
  let deviceX25519Pubkey ← readExact "device_x25519_pubkey" 32
  return { side, nonce, devicePubkey, deviceX25519Pubkey, signature }

/-- The five fields and nothing after them. -/
def readAll : Read SignedPairingRequest := do
  let p ← readFields
  if !(← atEnd) then
    throw (.cborDecode "trailing bytes after PairingRequest")
  return p

/-- `PairingRequestPayload::from_wire_bytes`: parse, verify the signature
under the key in the request, and refuse anything that is not the canonical
form of what was parsed. -/
def fromWireBytes (crypto : Crypto) (wire : List UInt8) :
    Except Error SignedPairingRequest := do
  let p ← readAll.value wire
  crypto.verify p.devicePubkey (crypto.blake3 p.encodeUnsigned) p.signature
  if p.toWireBytes ≠ wire then
    throw (.cborNotCanonical
      "PairingRequest bytes are not canonical re-encode")
  return p

end SignedPairingRequest

/-- `StateBundlePayload`: the inner bundle is sealed to the new device. -/
structure SignedStateBundle where
  side : Address
  recipientDevice : Address
  nonce : Bytes pairingNonceLen
  keyNonce : Bytes keyNonceLen
  sealedState : List UInt8
  signature : Bytes signatureLen
  deriving DecidableEq

/-- `StateBundlePayload::encode_unsigned`. -/
def SignedStateBundle.encodeUnsigned (p : SignedStateBundle) : List UInt8 :=
  encodeMap
    [⟨key "side", bytes p.side.val⟩,
     ⟨key "nonce", bytes p.nonce.val⟩,
     ⟨key "key_nonce", bytes p.keyNonce.val⟩,
     ⟨key "sealed_state", bytes p.sealedState⟩,
     ⟨key "recipient_device", bytes p.recipientDevice.val⟩]

/-- `StateBundlePayload::sign`. -/
def SignedStateBundle.sign {crypto : Crypto} (sideKey : Signer crypto)
    (recipientDevice : Address) (nonce : Bytes pairingNonceLen)
    (keyNonce : Bytes keyNonceLen) (sealedState : List UInt8) :
    SignedStateBundle :=
  let unsigned : SignedStateBundle :=
    { side := sideKey.publicBytes, recipientDevice, nonce, keyNonce
      sealedState, signature := Bytes.fill _ 0 }
  { unsigned with
    signature := sideKey.sign (crypto.blake3 unsigned.encodeUnsigned) }

/-- `StateBundlePayload::to_wire_bytes`. -/
def SignedStateBundle.toWireBytes (p : SignedStateBundle) : List UInt8 :=
  encodeMap
    [⟨key "side", bytes p.side.val⟩,
     ⟨key "nonce", bytes p.nonce.val⟩,
     ⟨key "key_nonce", bytes p.keyNonce.val⟩,
     ⟨key "signature", bytes p.signature.val⟩,
     ⟨key "sealed_state", bytes p.sealedState⟩,
     ⟨key "recipient_device", bytes p.recipientDevice.val⟩]

/-- `DeviceRevokePayload` with its signature. -/
structure SignedDeviceRevoke extends DeviceRevokePayload where
  signature : Bytes signatureLen
  deriving DecidableEq

/-- `DeviceRevokePayload::encode_unsigned`. -/
def SignedDeviceRevoke.encodeUnsigned (p : DeviceRevokePayload) :
    List UInt8 :=
  encodeMap
    [⟨key "side", bytes p.side.val⟩,
     ⟨key "reason", ProfilePayload.orNull text p.reason⟩,
     ⟨key "revoked_at", uint p.revokedAt⟩,
     ⟨key "device_pubkey", bytes p.devicePubkey.val⟩]

/-- `StateDeltaPayload` with its signature. -/
structure SignedStateDelta extends StateDeltaPayload where
  signature : Bytes signatureLen
  deriving DecidableEq

/-- `StateDeltaPayload::encode_unsigned`. -/
def SignedStateDelta.encodeUnsigned (p : StateDeltaPayload) : List UInt8 :=
  encodeMap
    [⟨key "ops", encodeArray DeltaOp.encode p.ops⟩,
     ⟨key "side", bytes p.side.val⟩,
     ⟨key "applied_at", uint p.appliedAt⟩]

namespace SignedStateDelta

/-- `StateDeltaPayload::sign`. -/
def sign {crypto : Crypto} (sideKey : Signer crypto) (ops : List DeltaOp)
    (appliedAt : UInt64) : SignedStateDelta :=
  let unsigned : StateDeltaPayload :=
    { side := sideKey.publicBytes, ops, appliedAt }
  { unsigned with
    signature := sideKey.sign (crypto.blake3 (encodeUnsigned unsigned)) }

/-- `StateDeltaPayload::to_wire_bytes`. -/
def toWireBytes (p : SignedStateDelta) : List UInt8 :=
  encodeMap
    [⟨key "ops", encodeArray DeltaOp.encode p.ops⟩,
     ⟨key "side", bytes p.side.val⟩,
     ⟨key "signature", bytes p.signature.val⟩,
     ⟨key "applied_at", uint p.appliedAt⟩]

/-- The key every field is introduced by. -/
def expectField (want : String) : Read Unit :=
  expectKey want "StateDelta keys not in canonical order"

/-- The four fields. -/
def readFields : Read SignedStateDelta := do
  expectEntries 4 fun n => s!"StateDelta expected 4 keys, got {n}"
  expectField "ops"
  let ops ← readArray DeltaOp.decodeFrom
  expectField "side"
  let side ← readExact "side" 32
  expectField "signature"
  let signature ← readExact "signature" signatureLen
  expectField "applied_at"
  let appliedAt ← readU64
  return { side, ops, appliedAt, signature }

/-- The four fields and nothing after them. -/
def readAll : Read SignedStateDelta := do
  let p ← readFields
  if !(← atEnd) then
    throw (.cborDecode "trailing bytes after StateDelta")
  return p

/-- `StateDeltaPayload::from_wire_bytes`: parse, verify the signature over
the unsigned form, and refuse anything that is not the canonical form of what
was parsed. -/
def fromWireBytes (crypto : Crypto) (wire : List UInt8) :
    Except Error SignedStateDelta := do
  let p ← readAll.value wire
  crypto.verify p.side
    (crypto.blake3 (encodeUnsigned p.toStateDeltaPayload)) p.signature
  if p.toWireBytes ≠ wire then
    throw (.cborNotCanonical "StateDelta bytes are not canonical re-encode")
  return p

end SignedStateDelta

end Sidevers.Core
