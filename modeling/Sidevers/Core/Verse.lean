/-
Verses (`verse.rs`, `messages/verse.rs`, protocol spec §8): contracts, their
hash, and the messages a verse's host receives.

A message here is one that decoded and whose own signature verified: a join
request, a leave and a removal carry the signature of the side they name
(`side`, `issued_by`), a reconsent the envelope sender's.
-/
import Sidevers.Core.Profile
import Sidevers.Core.Envelope

namespace Sidevers.Core

open Sidevers.Lib
open Cbor

-- ========================================================== contracts

/-- `FieldKind`: an opaque tag. -/
abbrev FieldKind := String

/-- `FieldSpec`. -/
structure FieldSpec where
  kind : FieldKind
  label : String
  description : Option String
  validator : Option String
  deriving DecidableEq

/-- `PolicyClause`. -/
structure PolicyClause where
  kind : String
  params : BTreeMap String String
  deriving DecidableEq

/-- `ContractObject`. -/
structure ContractObject where
  verse : Address
  version : UInt64
  title : String
  description : String
  required : List FieldSpec
  «optional» : List FieldSpec
  forbidden : List FieldKind
  «scoped» : List FieldKind
  policies : List PolicyClause
  moderators : List Address
  issuedAt : UInt64
  signature : Bytes signatureLen

/-- `FieldSpec::encode`. -/
def FieldSpec.encode (spec : FieldSpec) : List UInt8 :=
  encodeMap
    [⟨key "kind", text spec.kind⟩,
     ⟨key "label", text spec.label⟩,
     ⟨key "validator", ProfilePayload.orNull text spec.validator⟩,
     ⟨key "description", ProfilePayload.orNull text spec.description⟩]

/-- `PolicyClause::encode`: the parameters sorted by encoded key. -/
def PolicyClause.encode (clause : PolicyClause) : List UInt8 :=
  encodeMap
    [⟨key "kind", text clause.kind⟩,
     ⟨key "params", encodeMap ((clause.params.entries.map fun e =>
        MapEntry.mk (key e.1) (text e.2)).mergeSort
        fun a b => !decide (b.key < a.key))⟩]

/-- An array of encoded items. -/
def encodeArray {α : Type} (encode : α → List UInt8) (items : List α) :
    List UInt8 := arrayHeader items.length ++ items.flatMap encode

namespace ContractObject

/-- `to_wire_bytes`. -/
def toWireBytes (c : ContractObject) : List UInt8 :=
  encodeMap
    [⟨key "title", text c.title⟩,
     ⟨key "verse", bytes c.verse.val⟩,
     ⟨key "scoped", encodeArray text c.scoped⟩,
     ⟨key "version", uint c.version⟩,
     ⟨key "optional", encodeArray FieldSpec.encode c.optional⟩,
     ⟨key "policies", encodeArray PolicyClause.encode c.policies⟩,
     ⟨key "required", encodeArray FieldSpec.encode c.required⟩,
     ⟨key "forbidden", encodeArray text c.forbidden⟩,
     ⟨key "issued_at", uint c.issuedAt⟩,
     ⟨key "signature", bytes c.signature.val⟩,
     ⟨key "moderators", encodeArray (fun m => bytes m.val) c.moderators⟩,
     ⟨key "description", text c.description⟩]

/-- `hash`: what addresses a contract. -/
def hash (crypto : Crypto) (c : ContractObject) : Bytes 32 :=
  crypto.blake3 c.toWireBytes

/-- `is_moderator`: the verse itself or a listed side. -/
def isModerator (c : ContractObject) (side : Address) : Bool :=
  side = c.verse || c.moderators.any fun m => m = side

/-- `is_forbidden`. -/
def isForbidden (c : ContractObject) (kind : FieldKind) : Bool :=
  c.forbidden.any fun k => k = kind

end ContractObject

/-- `MembershipToken`, as the verse signed it. -/
structure MembershipToken where
  verse : Address
  contractHash : Bytes 32
  memberSide : Address
  issuedAt : UInt64
  deriving DecidableEq

-- =========================================================== messages

/-- `JoinRequestPayload`. -/
structure JoinRequestPayload where
  contractHash : Bytes 32
  side : Address
  fields : BTreeMap FieldKind String
  deriving DecidableEq

/-- `JoinDeclinePayload`. -/
structure JoinDeclinePayload where
  contractHash : Bytes 32
  reason : String
  deriving DecidableEq

/-- `VersePostPayload`. -/
structure VersePostPayload where
  nonce : Bytes 12
  ciphertext : List UInt8
  deriving DecidableEq

/-- `DataDisposition`. -/
inductive DataDisposition where
  | retain
  | retract
  | transfer
  deriving DecidableEq, Repr

/-- `VerseLeavePayload`. -/
structure VerseLeavePayload where
  verse : Address
  side : Address
  disposition : DataDisposition
  deriving DecidableEq

/-- `VerseRemovePayload`. -/
structure VerseRemovePayload where
  verse : Address
  side : Address
  issuedBy : Address
  deriving DecidableEq

/-- `VerseReconsentPayload`. -/
structure VerseReconsentPayload where
  contractHash : Bytes 32
  deriving DecidableEq

/-- The payloads a verse's host tells apart. -/
inductive VerseMessage where
  | contractFetch
  | joinRequest (req : JoinRequestPayload)
  | versePost (post : VersePostPayload)
  | verseLeave (leave : VerseLeavePayload)
  | verseRemove (remove : VerseRemovePayload)
  | verseReconsent (recon : VerseReconsentPayload)
  | other

end Sidevers.Core
