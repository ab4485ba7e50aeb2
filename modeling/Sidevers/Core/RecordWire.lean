/-
The wire forms of what a side signs about itself and its devices
(`linkage.rs`, `messages/retirement.rs`, `messages/storage_prefs.rs`,
`messages/public.rs`, `messages/device.rs`). What is signed is in
`Core.SideWire` and `Core.DeviceWire`.

The decoders all parse the whole of the bytes, verify the signature over the
unsigned form, and refuse what is not the canonical form of what they parsed
(`Read.signed`).
-/
import Sidevers.Core.DeviceWire
import Sidevers.Core.SideWire

namespace Sidevers.Core

open Cbor

-- ============================================================ retirements

namespace SignedSideRetirement

/-- `sign`. -/
def sign {crypto : Crypto} (side : Signer crypto) (retiredAt : UInt64)
    (reason : Option String) : SignedSideRetirement :=
  let unsigned : SignedSideRetirement :=
    { side := side.publicBytes, retiredAt, reason
      signature := Bytes.fill _ 0 }
  { unsigned with
    signature := side.sign (crypto.blake3 unsigned.encodeUnsigned) }

/-- `to_wire_bytes`. -/
def toWireBytes (p : SignedSideRetirement) : List UInt8 :=
  encodeMap
    [⟨key "side", bytes p.side.val⟩,
     ⟨key "reason", ProfilePayload.orNull text p.reason⟩,
     ⟨key "signature", bytes p.signature.val⟩,
     ⟨key "retired_at", uint p.retiredAt⟩]

/-- The key every field is introduced by. -/
def expectField (want : String) : Read Unit :=
  expectKey want "SideRetirement keys not in canonical order"

/-- The four fields. -/
def readFields : Read SignedSideRetirement := do
  expectEntries 4 fun n => s!"SideRetirement expected 4 keys, got {n}"
  expectField "side"
  let side ← readExact "side" publicKeyLen
  expectField "reason"
  let reason ← readOrNull "missing reason" readText
  expectField "signature"
  let signature ← readExact "signature" signatureLen
  expectField "retired_at"
  let retiredAt ← readU64
  return { side, retiredAt, reason, signature }

/-- `from_wire_bytes`. -/
def fromWireBytes (crypto : Crypto) (wire : List UInt8) :
    Except Error SignedSideRetirement :=
  readFields.signed "SideRetirement" (fun p => crypto.verify p.side
    (crypto.blake3 p.encodeUnsigned) p.signature) toWireBytes wire

end SignedSideRetirement

-- =============================================================== linkage

namespace SignedLinkageProof

/-- `sign_with`. -/
def signWith {crypto : Crypto} (sideA sideB : Signer crypto)
    (issuedAt : UInt64) (nonce : Bytes linkageNonceLen) :
    SignedLinkageProof :=
  let unsigned : SignedLinkageProof :=
    { sideA := sideA.publicBytes, sideB := sideB.publicBytes, issuedAt, nonce
      sigA := Bytes.fill _ 0, sigB := Bytes.fill _ 0 }
  let digest := crypto.blake3 unsigned.encodeUnsigned
  { unsigned with sigA := sideA.sign digest, sigB := sideB.sign digest }

/-- `to_wire_bytes`. -/
def toWireBytes (p : SignedLinkageProof) : List UInt8 :=
  encodeMap
    [⟨key "nonce", bytes p.nonce.val⟩,
     ⟨key "sig_a", bytes p.sigA.val⟩,
     ⟨key "sig_b", bytes p.sigB.val⟩,
     ⟨key "side_a", bytes p.sideA.val⟩,
     ⟨key "side_b", bytes p.sideB.val⟩,
     ⟨key "issued_at", uint p.issuedAt⟩]

/-- The key every field is introduced by. -/
def expectField (want : String) : Read Unit :=
  expectKey want "LinkageProof keys not in canonical order"

/-- The six fields. -/
def readFields : Read SignedLinkageProof := do
  expectEntries 6 fun n => s!"LinkageProof expected 6 keys, got {n}"
  expectField "nonce"
  let nonce ← readExact "nonce" linkageNonceLen
  expectField "sig_a"
  let sigA ← readExact "sig_a" signatureLen
  expectField "sig_b"
  let sigB ← readExact "sig_b" signatureLen
  expectField "side_a"
  let sideA ← readExact "side_a" publicKeyLen
  expectField "side_b"
  let sideB ← readExact "side_b" publicKeyLen
  expectField "issued_at"
  let issuedAt ← readU64
  return { sideA, sideB, issuedAt, nonce, sigA, sigB }

/-- Both signatures, that of the first side first. -/
def verifyBoth (crypto : Crypto) (p : SignedLinkageProof) :
    Except Error Unit := do
  let digest := crypto.blake3 p.encodeUnsigned
  crypto.verify p.sideA digest p.sigA
  crypto.verify p.sideB digest p.sigB

/-- `from_wire_bytes`. -/
def fromWireBytes (crypto : Crypto) (wire : List UInt8) :
    Except Error SignedLinkageProof :=
  readFields.signed "LinkageProof" (verifyBoth crypto) toWireBytes wire

end SignedLinkageProof

-- ========================================================== preferences

namespace StoragePreferences

/-- `sign`. -/
def sign {crypto : Crypto} (side : Signer crypto)
    (updatedAt maxObjectKib : UInt64) (preferredProviders : List Address)
    (retentionHintSecs : UInt64) : StoragePreferences :=
  let unsigned : StoragePreferences :=
    { side := side.publicBytes, preferredProviders, maxObjectKib
      retentionHintSecs, updatedAt, signature := Bytes.fill _ 0 }
  { unsigned with
    signature := side.sign (crypto.blake3 unsigned.encodeUnsigned) }

/-- `to_wire_bytes`. -/
def toWireBytes (p : StoragePreferences) : List UInt8 :=
  encodeMap
    [⟨key "side", bytes p.side.val⟩,
     ⟨key "signature", bytes p.signature.val⟩,
     ⟨key "updated_at", uint p.updatedAt⟩,
     ⟨key "max_object_kib", uint p.maxObjectKib⟩,
     ⟨key "preferred_providers",
       encodeArray (fun b => bytes b.val) p.preferredProviders⟩,
     ⟨key "retention_hint_secs", uint p.retentionHintSecs⟩]

/-- The key every field is introduced by. -/
def expectField (want : String) : Read Unit :=
  expectKey want "StoragePreferences keys not in canonical order"

/-- The six fields. -/
def readFields : Read StoragePreferences := do
  expectEntries 6 fun n => s!"StoragePreferences expected 6 keys, got {n}"
  expectField "side"
  let side ← readExact "side" publicKeyLen
  expectField "signature"
  let signature ← readExact "signature" signatureLen
  expectField "updated_at"
  let updatedAt ← readU64
  expectField "max_object_kib"
  let maxObjectKib ← readU64
  expectField "preferred_providers"
  let preferredProviders ←
    readArray (readExact "preferred_providers[]" publicKeyLen)
  expectField "retention_hint_secs"
  let retentionHintSecs ← readU64
  return { side, preferredProviders, maxObjectKib, retentionHintSecs,
           updatedAt, signature }

/-- `from_wire_bytes`. -/
def fromWireBytes (crypto : Crypto) (wire : List UInt8) :
    Except Error StoragePreferences :=
  readFields.signed "StoragePreferences" (fun p => crypto.verify p.side
    (crypto.blake3 p.encodeUnsigned) p.signature) toWireBytes wire

end StoragePreferences

-- ======================================================= the public layer

namespace HandleAttestPayload

/-- `sign`. -/
def sign {crypto : Crypto} (sideKey : Signer crypto)
    (handleLocal domain : String) (issuedAt : UInt64) : HandleAttestPayload :=
  let unsigned : HandleAttestPayload :=
    { side := sideKey.publicBytes, handleLocal, domain, issuedAt
      signature := Bytes.fill _ 0 }
  { unsigned with
    signature := sideKey.sign (crypto.blake3 unsigned.encodeUnsigned) }

/-- `to_wire_bytes`. -/
def toWireBytes (p : HandleAttestPayload) : List UInt8 :=
  encodeMap
    [⟨key "side", bytes p.side.val⟩,
     ⟨key "domain", text p.domain⟩,
     ⟨key "issued_at", uint p.issuedAt⟩,
     ⟨key "signature", bytes p.signature.val⟩,
     ⟨key "handle_local", text p.handleLocal⟩]

/-- The key every field is introduced by. -/
def expectField (want : String) : Read Unit :=
  expectKey want "HandleAttest keys not in canonical order"

/-- The five fields. -/
def readFields : Read HandleAttestPayload := do
  expectEntries 5 fun n => s!"HandleAttest expected 5 keys, got {n}"
  expectField "side"
  let side ← readExact "side" publicKeyLen
  expectField "domain"
  let domain ← readText
  expectField "issued_at"
  let issuedAt ← readU64
  expectField "signature"
  let signature ← readExact "signature" signatureLen
  expectField "handle_local"
  let handleLocal ← readText
  return { side, handleLocal, domain, issuedAt, signature }

/-- `from_wire_bytes`. -/
def fromWireBytes (crypto : Crypto) (wire : List UInt8) :
    Except Error HandleAttestPayload :=
  readFields.signed "HandleAttest" (fun p => crypto.verify p.side
    (crypto.blake3 p.encodeUnsigned) p.signature) toWireBytes wire

end HandleAttestPayload

namespace PagePublishPayload

/-- `sign`. -/
def sign {crypto : Crypto} (sideKey : Signer crypto) (slug mime : String)
    (content : List UInt8) (publishedAt : UInt64) : PagePublishPayload :=
  let unsigned : PagePublishPayload :=
    { side := sideKey.publicBytes, slug, mime, content, publishedAt
      signature := Bytes.fill _ 0 }
  { unsigned with
    signature := sideKey.sign (crypto.blake3 unsigned.encodeUnsigned) }

/-- `to_wire_bytes`. -/
def toWireBytes (p : PagePublishPayload) : List UInt8 :=
  encodeMap
    [⟨key "mime", text p.mime⟩,
     ⟨key "side", bytes p.side.val⟩,
     ⟨key "slug", text p.slug⟩,
     ⟨key "content", bytes p.content⟩,
     ⟨key "signature", bytes p.signature.val⟩,
     ⟨key "published_at", uint p.publishedAt⟩]

/-- The key every field is introduced by. -/
def expectField (want : String) : Read Unit :=
  expectKey want "PagePublish keys not in canonical order"

/-- The six fields. -/
def readFields : Read PagePublishPayload := do
  expectEntries 6 fun n => s!"PagePublish expected 6 keys, got {n}"
  expectField "mime"
  let mime ← readText
  expectField "side"
  let side ← readExact "side" publicKeyLen
  expectField "slug"
  let slug ← readText
  expectField "content"
  let content ← readBytes
  expectField "signature"
  let signature ← readExact "signature" signatureLen
  expectField "published_at"
  let publishedAt ← readU64
  return { side, slug, mime, content, publishedAt, signature }

/-- `from_wire_bytes`. -/
def fromWireBytes (crypto : Crypto) (wire : List UInt8) :
    Except Error PagePublishPayload :=
  readFields.signed "PagePublish" (fun p => crypto.verify p.side
    (crypto.blake3 p.encodeUnsigned) p.signature) toWireBytes wire

end PagePublishPayload

namespace AnnouncementPayload

/-- `sign`. -/
def sign {crypto : Crypto} (sideKey : Signer crypto) (body : String)
    (createdAt : UInt64) : AnnouncementPayload :=
  let unsigned : AnnouncementPayload :=
    { side := sideKey.publicBytes, body, createdAt
      signature := Bytes.fill _ 0 }
  { unsigned with
    signature := sideKey.sign (crypto.blake3 unsigned.encodeUnsigned) }

/-- `to_wire_bytes`. -/
def toWireBytes (p : AnnouncementPayload) : List UInt8 :=
  encodeMap
    [⟨key "body", text p.body⟩,
     ⟨key "side", bytes p.side.val⟩,
     ⟨key "signature", bytes p.signature.val⟩,
     ⟨key "created_at", uint p.createdAt⟩]

/-- The key every field is introduced by. -/
def expectField (want : String) : Read Unit :=
  expectKey want "Announcement keys not in canonical order"

/-- The four fields. -/
def readFields : Read AnnouncementPayload := do
  expectEntries 4 fun n => s!"Announcement expected 4 keys, got {n}"
  expectField "body"
  let body ← readText
  expectField "side"
  let side ← readExact "side" publicKeyLen
  expectField "signature"
  let signature ← readExact "signature" signatureLen
  expectField "created_at"
  let createdAt ← readU64
  return { side, body, createdAt, signature }

/-- `from_wire_bytes`. -/
def fromWireBytes (crypto : Crypto) (wire : List UInt8) :
    Except Error AnnouncementPayload :=
  readFields.signed "Announcement" (fun p => crypto.verify p.side
    (crypto.blake3 p.encodeUnsigned) p.signature) toWireBytes wire

end AnnouncementPayload

-- =============================================================== devices

namespace SignedStateBundle

/-- The key every field is introduced by. -/
def expectField (want : String) : Read Unit :=
  expectKey want "StateBundle keys not in canonical order"

/-- The six fields. -/
def readFields : Read SignedStateBundle := do
  expectEntries 6 fun n => s!"StateBundle expected 6 keys, got {n}"
  expectField "side"
  let side ← readExact "side" 32
  expectField "nonce"
  let nonce ← readExact "nonce" pairingNonceLen
  expectField "key_nonce"
  let keyNonce ← readExact "key_nonce" keyNonceLen
  expectField "signature"
  let signature ← readExact "signature" signatureLen
  expectField "sealed_state"
  let sealedState ← readBytes
  expectField "recipient_device"
  let recipientDevice ← readExact "recipient_device" 32
  return { side, recipientDevice, nonce, keyNonce, sealedState, signature }

/-- `StateBundlePayload::from_wire_bytes`. -/
def fromWireBytes (crypto : Crypto) (wire : List UInt8) :
    Except Error SignedStateBundle :=
  readFields.signed "StateBundle" (fun p => crypto.verify p.side
    (crypto.blake3 p.encodeUnsigned) p.signature) toWireBytes wire

end SignedStateBundle

namespace SignedDeviceRevoke

/-- `DeviceRevokePayload::sign`. -/
def sign {crypto : Crypto} (sideKey : Signer crypto)
    (devicePubkey : Bytes 32) (revokedAt : UInt64)
    (reason : Option String) : SignedDeviceRevoke :=
  let unsigned : DeviceRevokePayload :=
    { side := sideKey.publicBytes, devicePubkey, revokedAt, reason }
  { unsigned with
    signature := sideKey.sign (crypto.blake3 (encodeUnsigned unsigned)) }

/-- `DeviceRevokePayload::to_wire_bytes`. -/
def toWireBytes (p : SignedDeviceRevoke) : List UInt8 :=
  encodeMap
    [⟨key "side", bytes p.side.val⟩,
     ⟨key "reason", ProfilePayload.orNull text p.reason⟩,
     ⟨key "signature", bytes p.signature.val⟩,
     ⟨key "revoked_at", uint p.revokedAt⟩,
     ⟨key "device_pubkey", bytes p.devicePubkey.val⟩]

/-- The key every field is introduced by. -/
def expectField (want : String) : Read Unit :=
  expectKey want "DeviceRevoke keys not in canonical order"

/-- The five fields. -/
def readFields : Read SignedDeviceRevoke := do
  expectEntries 5 fun n => s!"DeviceRevoke expected 5 keys, got {n}"
  expectField "side"
  let side ← readExact "side" 32
  expectField "reason"
  let reason ← readOrNull "missing reason" readText
  expectField "signature"
  let signature ← readExact "signature" signatureLen
  expectField "revoked_at"
  let revokedAt ← readU64
  expectField "device_pubkey"
  let devicePubkey ← readExact "device_pubkey" 32
  return { side, devicePubkey, revokedAt, reason, signature }

/-- `DeviceRevokePayload::from_wire_bytes`. -/
def fromWireBytes (crypto : Crypto) (wire : List UInt8) :
    Except Error SignedDeviceRevoke :=
  readFields.signed "DeviceRevoke" (fun p => crypto.verify p.side
    (crypto.blake3 (encodeUnsigned p.toDeviceRevokePayload)) p.signature)
    toWireBytes wire

end SignedDeviceRevoke

end Sidevers.Core
