/-
The unsigned forms of what a side signs about itself (`envelope.rs`,
`linkage.rs`, `messages/retirement.rs`, `messages/storage_prefs.rs`,
`messages/public.rs`): the bytes whose hash each is signed over.
-/
import Sidevers.Core.Verse

namespace Sidevers.Core

open Cbor

/-- `Envelope` in full: any payload, the version and the signature. -/
structure SignedEnvelope where
  version : UInt64
  messageType : MessageType
  fromSide : Address
  toSide : Option Address
  timestamp : UInt64
  nonce : Nonce
  payload : List UInt8
  sig : Bytes signatureLen
  deriving DecidableEq

/-- `Envelope::encode_unsigned`. -/
def SignedEnvelope.encodeUnsigned (e : SignedEnvelope) : List UInt8 :=
  encodeMap
    [⟨key "t", uint e.messageType.byte.toUInt64⟩,
     ⟨key "v", uint e.version⟩,
     ⟨key "to", ProfilePayload.orNull (fun addr => bytes addr.val) e.toSide⟩,
     ⟨key "ts", uint e.timestamp⟩,
     ⟨key "from", bytes e.fromSide.val⟩,
     ⟨key "nonce", bytes e.nonce.val⟩,
     ⟨key "payload", bytes e.payload⟩]

/-- `LINKAGE_NONCE_LEN`. -/
def linkageNonceLen : Nat := 16

/-- `LinkageProof` in full: both sides sign the one unsigned form. -/
structure SignedLinkageProof where
  sideA : Address
  sideB : Address
  issuedAt : UInt64
  nonce : Bytes linkageNonceLen
  sigA : Bytes signatureLen
  sigB : Bytes signatureLen
  deriving DecidableEq

/-- `LinkageProof::encode_unsigned`. -/
def SignedLinkageProof.encodeUnsigned (p : SignedLinkageProof) : List UInt8 :=
  encodeMap
    [⟨key "nonce", bytes p.nonce.val⟩,
     ⟨key "side_a", bytes p.sideA.val⟩,
     ⟨key "side_b", bytes p.sideB.val⟩,
     ⟨key "issued_at", uint p.issuedAt⟩]

/-- `SideRetirementPayload` with its signature. -/
structure SignedSideRetirement where
  side : Address
  retiredAt : UInt64
  reason : Option String
  signature : Bytes signatureLen
  deriving DecidableEq

/-- `SideRetirementPayload::encode_unsigned`. -/
def SignedSideRetirement.encodeUnsigned (p : SignedSideRetirement) :
    List UInt8 :=
  encodeMap
    [⟨key "side", bytes p.side.val⟩,
     ⟨key "reason", ProfilePayload.orNull text p.reason⟩,
     ⟨key "retired_at", uint p.retiredAt⟩]

/-- `StoragePreferences`. -/
structure StoragePreferences where
  side : Address
  preferredProviders : List Address
  maxObjectKib : UInt64
  retentionHintSecs : UInt64
  updatedAt : UInt64
  signature : Bytes signatureLen
  deriving DecidableEq

/-- `StoragePreferences::encode_unsigned`. -/
def StoragePreferences.encodeUnsigned (p : StoragePreferences) : List UInt8 :=
  encodeMap
    [⟨key "side", bytes p.side.val⟩,
     ⟨key "updated_at", uint p.updatedAt⟩,
     ⟨key "max_object_kib", uint p.maxObjectKib⟩,
     ⟨key "preferred_providers",
       encodeArray (fun b => bytes b.val) p.preferredProviders⟩,
     ⟨key "retention_hint_secs", uint p.retentionHintSecs⟩]

-- ======================================================= the public layer

/-- `HandleAttestPayload`. -/
structure HandleAttestPayload where
  side : Address
  handleLocal : String
  domain : String
  issuedAt : UInt64
  signature : Bytes signatureLen
  deriving DecidableEq

/-- `HandleAttestPayload::encode_unsigned`. -/
def HandleAttestPayload.encodeUnsigned (p : HandleAttestPayload) :
    List UInt8 :=
  encodeMap
    [⟨key "side", bytes p.side.val⟩,
     ⟨key "domain", text p.domain⟩,
     ⟨key "issued_at", uint p.issuedAt⟩,
     ⟨key "handle_local", text p.handleLocal⟩]

/-- `PagePublishPayload`. -/
structure PagePublishPayload where
  side : Address
  slug : String
  mime : String
  content : List UInt8
  publishedAt : UInt64
  signature : Bytes signatureLen
  deriving DecidableEq

/-- `PagePublishPayload::encode_unsigned`. -/
def PagePublishPayload.encodeUnsigned (p : PagePublishPayload) : List UInt8 :=
  encodeMap
    [⟨key "mime", text p.mime⟩,
     ⟨key "side", bytes p.side.val⟩,
     ⟨key "slug", text p.slug⟩,
     ⟨key "content", bytes p.content⟩,
     ⟨key "published_at", uint p.publishedAt⟩]

/-- `AnnouncementPayload`. -/
structure AnnouncementPayload where
  side : Address
  body : String
  createdAt : UInt64
  signature : Bytes signatureLen
  deriving DecidableEq

/-- `AnnouncementPayload::encode_unsigned`. -/
def AnnouncementPayload.encodeUnsigned (p : AnnouncementPayload) :
    List UInt8 :=
  encodeMap
    [⟨key "body", text p.body⟩,
     ⟨key "side", bytes p.side.val⟩,
     ⟨key "created_at", uint p.createdAt⟩]

end Sidevers.Core
