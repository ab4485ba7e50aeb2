/-
The wire forms of the verse messages (`verse.rs`, `messages/verse.rs`): what
each is encoded as, and the reader that takes it back.

A payload that is signed carries its signature here, over the hash of its
unsigned form; `Core.Verse` has the same payloads as a host sees them once
that was checked.
-/
import Sidevers.Core.Verse

namespace Sidevers.Core

open Sidevers.Lib
open Cbor

namespace Cbor

/-- The next key must be this one. -/
def expectKey (want msg : String) : Read Unit := do
  if (← readText) ≠ want then
    throw (.cborNotCanonical msg)

/-- The map must have this many entries. -/
def expectEntries (n : Nat) (msg : Nat → String) : Read Unit := do
  let got ← readMapHeader
  if got ≠ n then
    throw (.cborDecode (msg got))

/-- A null, or what the reader reads. -/
def readOrNull {α : Type} (missing : String) (r : Read α) :
    Read (Option α) := do
  if (← ProfilePayload.peekOr missing) = simpleNull then
    let _ ← readBytesOrNull
    return none
  else
    return some (← r)

/-- An array of what the reader reads. -/
def readArray {α : Type} (r : Read α) : Read (List α) := do
  let n ← readArrayHeader
  readTimes n r

/-- The loop over the entries of a map from texts to what the reader reads:
encoded keys strictly increasing. -/
def readMapLoop {V : Type} (unordered : String) (r : Read V) :
    Nat → Option (List UInt8) → Read (List (String × V))
  | 0, _ => return []
  | n + 1, prev => do
      let keyStart ← position
      let k ← readText
      let keyBytes ← slice keyStart (← position)
      if prev.any fun p => decide (¬ p < keyBytes) then
        throw (.cborNotCanonical unordered)
      let v ← r
      return (k, v) :: (← readMapLoop unordered r n (some keyBytes))

/-- A map from texts to what the reader reads. -/
def readMap {V : Type} (unordered : String) (r : Read V) :
    Read (BTreeMap String V) := do
  let n ← readMapHeader
  let entries ← readMapLoop unordered r n none
  return entries.foldl (fun m e => m.insert e.1 e.2) BTreeMap.empty

/-- Such a map, sorted by encoded key. -/
def encodeSortedMap {V : Type} (w : V → List UInt8) (m : BTreeMap String V) :
    List UInt8 :=
  encodeMap ((m.entries.map fun e => MapEntry.mk (key e.1) (w e.2)).mergeSort
    fun a b => !decide (b.key < a.key))

/-- A map of texts. -/
def readTextMap (unordered : String) : Read (BTreeMap String String) :=
  readMap unordered readText

/-- A map of texts, sorted by encoded key. -/
def encodeTextMap (m : BTreeMap String String) : List UInt8 :=
  encodeSortedMap text m

/-- What a reader reads from the start of the bytes; what follows is not
looked at. -/
def Read.value {α : Type} (r : Read α) (wire : List UInt8) :
    Except Error α := (r.on wire).map Prod.fst

/-- What a reader reads from the whole of the bytes: nothing follows. -/
def Read.whole {α : Type} (r : Read α) (what : String) (wire : List UInt8) :
    Except Error α :=
  (do
    let a ← r
    if !(← atEnd) then
      throw (.cborDecode s!"trailing bytes after {what}")
    return a : Read α).value wire

/-- The same of a record that is signed: the signature is verified, and what
is not the canonical form of what was read is refused. -/
def Read.signed {α : Type} (r : Read α) (what : String)
    (verify : α → Except Error Unit) (toWireBytes : α → List UInt8)
    (wire : List UInt8) : Except Error α := do
  let a ← r.whole what wire
  verify a
  if toWireBytes a ≠ wire then
    throw (.cborNotCanonical s!"{what} bytes are not canonical re-encode")
  return a

end Cbor

-- ========================================================== contracts

/-- `FieldSpec::decode_from`. -/
def FieldSpec.decodeFrom : Read FieldSpec := do
  let expectField (want : String) : Read Unit :=
    expectKey want "FieldSpec keys not in canonical order"
  expectEntries 4 fun n => s!"FieldSpec expected 4 keys, got {n}"
  expectField "kind"
  let kind ← readText
  expectField "label"
  let label ← readText
  expectField "validator"
  let validator ← readOrNull "unexpected EOF" readText
  expectField "description"
  let description ← readOrNull "unexpected EOF" readText
  return { kind, label, description, validator }

/-- `PolicyClause::decode_from`. -/
def PolicyClause.decodeFrom : Read PolicyClause := do
  expectEntries 2 fun n => s!"PolicyClause expected 2 keys, got {n}"
  expectKey "kind" "PolicyClause expects 'kind' first"
  let kind ← readText
  expectKey "params" "PolicyClause expects 'params' second"
  let params ← readTextMap "policy params keys not in canonical order"
  return { kind, params }

namespace ContractObject

/-- `encode_unsigned`. -/
def encodeUnsigned (c : ContractObject) : List UInt8 :=
  encodeMap
    [⟨key "title", text c.title⟩,
     ⟨key "verse", bytes c.verse.val⟩,
     ⟨key "scoped", encodeArray text c.scoped⟩,
     ⟨key "version", uint c.version⟩,
     ⟨key "optional", encodeArray FieldSpec.encode c.optional⟩,
     ⟨key "policies", encodeArray PolicyClause.encode c.policies⟩,
     ⟨key "required", encodeArray FieldSpec.encode c.required⟩,
     ⟨key "forbidden", encodeArray text c.forbidden⟩,
     ⟨key "issued_at", uint c.issuedAt⟩,
     ⟨key "moderators", encodeArray (fun m => bytes m.val) c.moderators⟩,
     ⟨key "description", text c.description⟩]

/-- `sign`: no field values are refused. -/
def sign {crypto : Crypto} (verseKey : Signer crypto) (version : UInt64)
    (title description : String) (required «optional» : List FieldSpec)
    (forbidden «scoped» : List FieldKind) (policies : List PolicyClause)
    (moderators : List Address) (issuedAt : UInt64) : ContractObject :=
  let unsigned : ContractObject :=
    { verse := verseKey.publicBytes, version, title, description, required,
      «optional», forbidden, «scoped», policies, moderators, issuedAt,
      signature := Bytes.fill _ 0 }
  { unsigned with
    signature := verseKey.sign (crypto.blake3 unsigned.encodeUnsigned) }

/-- The key every field is introduced by. -/
def expectField (want : String) : Read Unit :=
  expectKey want "ContractObject keys not in canonical order"

/-- The twelve fields. -/
def readFields : Read ContractObject := do
  expectEntries 12 fun n => s!"ContractObject expected 12 keys, got {n}"
  expectField "title"
  let title ← readText
  expectField "verse"
  let verse ← readExact "verse" publicKeyLen
  expectField "scoped"
  let «scoped» ← readArray readText
  expectField "version"
  let version ← readU64
  expectField "optional"
  let «optional» ← readArray FieldSpec.decodeFrom
  expectField "policies"
  let policies ← readArray PolicyClause.decodeFrom
  expectField "required"
  let required ← readArray FieldSpec.decodeFrom
  expectField "forbidden"
  let forbidden ← readArray readText
  expectField "issued_at"
  let issuedAt ← readU64
  expectField "signature"
  let signature ← readExact "signature" signatureLen
  expectField "moderators"
  let moderators ← readArray (readExact "moderator" publicKeyLen)
  expectField "description"
  let description ← readText
  return { verse, version, title, description, required, «optional»,
           forbidden, «scoped», policies, moderators, issuedAt, signature }

/-- `from_wire_bytes`: anything that is not the wire form of what was read is
refused. -/
def fromWireBytes (crypto : Crypto) (wire : List UInt8) :
    Except Error ContractObject := do
  let c ← readFields.value wire
  crypto.verify c.verse (crypto.blake3 c.encodeUnsigned) c.signature
  if c.toWireBytes ≠ wire then
    throw (.cborNotCanonical
      "ContractObject bytes are not canonical re-encode")
  return c

end ContractObject

-- ================================================== membership token

/-- `MembershipToken` with its signature. -/
structure SignedMembershipToken extends MembershipToken where
  signature : Bytes signatureLen
  deriving DecidableEq

namespace SignedMembershipToken

/-- `encode_unsigned`. -/
def encodeUnsigned (t : MembershipToken) : List UInt8 :=
  encodeMap
    [⟨key "verse", bytes t.verse.val⟩,
     ⟨key "member", bytes t.memberSide.val⟩,
     ⟨key "issued_at", uint t.issuedAt⟩,
     ⟨key "contract_hash", bytes t.contractHash.val⟩]

/-- `MembershipToken::sign`. -/
def sign {crypto : Crypto} (verseKey : Signer crypto)
    (contractHash : Bytes 32) (memberSide : Address) (issuedAt : UInt64) :
    SignedMembershipToken :=
  let token : MembershipToken :=
    { verse := verseKey.publicBytes, contractHash, memberSide, issuedAt }
  { token with
    signature := verseKey.sign (crypto.blake3 (encodeUnsigned token)) }

/-- `to_wire_bytes`. -/
def toWireBytes (t : SignedMembershipToken) : List UInt8 :=
  encodeMap
    [⟨key "verse", bytes t.verse.val⟩,
     ⟨key "member", bytes t.memberSide.val⟩,
     ⟨key "issued_at", uint t.issuedAt⟩,
     ⟨key "signature", bytes t.signature.val⟩,
     ⟨key "contract_hash", bytes t.contractHash.val⟩]

/-- The key every field is introduced by. -/
def expectField (want : String) : Read Unit :=
  expectKey want "MembershipToken keys not in canonical order"

/-- The five fields. -/
def readFields : Read SignedMembershipToken := do
  expectEntries 5 fun n => s!"MembershipToken expected 5 keys, got {n}"
  expectField "verse"
  let verse ← readExact "verse" publicKeyLen
  expectField "member"
  let memberSide ← readExact "member" publicKeyLen
  expectField "issued_at"
  let issuedAt ← readU64
  expectField "signature"
  let signature ← readExact "signature" signatureLen
  expectField "contract_hash"
  let contractHash ← readExact "contract_hash" 32
  return { verse, contractHash, memberSide, issuedAt, signature }

/-- `from_wire_bytes`: what follows the fields is not looked at. -/
def fromWireBytes (crypto : Crypto) (wire : List UInt8) :
    Except Error SignedMembershipToken := do
  let t ← readFields.value wire
  crypto.verify t.verse (crypto.blake3 (encodeUnsigned t.toMembershipToken))
    t.signature
  return t

end SignedMembershipToken

-- ==================================================== contracts, carried

/-- `ContractFetchPayload`. -/
structure ContractFetchPayload where
  version : Option UInt64
  deriving DecidableEq

namespace ContractFetchPayload

/-- `encode`. -/
def encode (p : ContractFetchPayload) : List UInt8 :=
  encodeMap [⟨key "version", ProfilePayload.orNull uint p.version⟩]

def readFields : Read ContractFetchPayload := do
  expectEntries 1 fun n => s!"ContractFetch expected 1 key, got {n}"
  expectKey "version" "ContractFetch expects 'version'"
  let version ← readOrNull "missing version" readU64
  return { version }

/-- `decode`. -/
def decode (wire : List UInt8) : Except Error ContractFetchPayload :=
  readFields.value wire

end ContractFetchPayload

/-- What follows the one key of a payload that wraps a contract. -/
def readContractKey (entries : Nat → String) (msg : String) :
    Read (List UInt8) := do
  expectEntries 1 entries
  expectKey "contract" msg
  remaining

/-- `ContractDeliverPayload`. -/
structure ContractDeliverPayload where
  contract : ContractObject

namespace ContractDeliverPayload

/-- `encode`. -/
def encode (p : ContractDeliverPayload) : List UInt8 :=
  encodeMap [⟨key "contract", p.contract.toWireBytes⟩]

/-- `decode`. -/
def decode (crypto : Crypto) (wire : List UInt8) :
    Except Error ContractDeliverPayload := do
  let rest ← (readContractKey
    (fun n => s!"ContractDeliver expected 1 key, got {n}")
    "ContractDeliver expects 'contract'").value wire
  let contract ← ContractObject.fromWireBytes crypto rest
  return { contract }

end ContractDeliverPayload

/-- `VerseAmendPayload`. -/
structure VerseAmendPayload where
  contract : ContractObject

namespace VerseAmendPayload

/-- `encode`. -/
def encode (p : VerseAmendPayload) : List UInt8 :=
  encodeMap [⟨key "contract", p.contract.toWireBytes⟩]

/-- `decode`. -/
def decode (crypto : Crypto) (wire : List UInt8) :
    Except Error VerseAmendPayload := do
  let rest ← (readContractKey
    (fun n => s!"VerseAmend expected 1 key, got {n}")
    "VerseAmend expects 'contract'").value wire
  let contract ← ContractObject.fromWireBytes crypto rest
  return { contract }

end VerseAmendPayload

-- ================================================================ joining

/-- `JoinRequestPayload` with its signature. -/
structure SignedJoinRequest extends JoinRequestPayload where
  signature : Bytes signatureLen
  deriving DecidableEq

namespace SignedJoinRequest

/-- `encode_unsigned`. -/
def encodeUnsigned (p : JoinRequestPayload) : List UInt8 :=
  encodeMap
    [⟨key "side", bytes p.side.val⟩,
     ⟨key "fields", encodeTextMap p.fields⟩,
     ⟨key "contract_hash", bytes p.contractHash.val⟩]

/-- `encode`. -/
def encode (p : SignedJoinRequest) : List UInt8 :=
  encodeMap
    [⟨key "side", bytes p.side.val⟩,
     ⟨key "fields", encodeTextMap p.fields⟩,
     ⟨key "signature", bytes p.signature.val⟩,
     ⟨key "contract_hash", bytes p.contractHash.val⟩]

/-- The key every field is introduced by. -/
def expectField (want : String) : Read Unit :=
  expectKey want "JoinRequest keys not in canonical order"

def readFields : Read SignedJoinRequest := do
  expectEntries 4 fun n => s!"JoinRequest expected 4 keys, got {n}"
  expectField "side"
  let side ← readExact "side" publicKeyLen
  expectField "fields"
  let fields ← readTextMap "field values keys not in canonical order"
  expectField "signature"
  let signature ← readExact "signature" signatureLen
  expectField "contract_hash"
  let contractHash ← readExact "contract_hash" 32
  return { contractHash, side, fields, signature }

/-- `decode`. -/
def decode (crypto : Crypto) (wire : List UInt8) :
    Except Error SignedJoinRequest := do
  let p ← readFields.value wire
  crypto.verify p.side (crypto.blake3 (encodeUnsigned p.toJoinRequestPayload))
    p.signature
  return p

end SignedJoinRequest

/-- `JoinAcceptPayload` on the wire. -/
structure JoinAcceptWire where
  membershipToken : List UInt8
  keyNonce : Bytes 16
  sealedContentKey : List UInt8
  deriving DecidableEq

namespace JoinAcceptWire

/-- `encode`. -/
def encode (p : JoinAcceptWire) : List UInt8 :=
  encodeMap
    [⟨key "key_nonce", bytes p.keyNonce.val⟩,
     ⟨key "membership_token", bytes p.membershipToken⟩,
     ⟨key "sealed_content_key", bytes p.sealedContentKey⟩]

def readFields : Read JoinAcceptWire := do
  expectEntries 3 fun n => s!"JoinAccept expected 3 keys, got {n}"
  expectKey "key_nonce" "expected 'key_nonce' first"
  let keyNonce ← readExact "key_nonce" 16
  expectKey "membership_token" "expected 'membership_token' second"
  let membershipToken ← readBytes
  expectKey "sealed_content_key" "expected 'sealed_content_key' third"
  let sealedContentKey ← readBytes
  return { membershipToken, keyNonce, sealedContentKey }

/-- `decode`. -/
def decode (wire : List UInt8) : Except Error JoinAcceptWire :=
  readFields.value wire

end JoinAcceptWire

namespace JoinDeclinePayload

/-- `encode`. -/
def encode (p : JoinDeclinePayload) : List UInt8 :=
  encodeMap
    [⟨key "reason", text p.reason⟩,
     ⟨key "contract_hash", bytes p.contractHash.val⟩]

def readFields : Read JoinDeclinePayload := do
  expectEntries 2 fun n => s!"JoinDecline expected 2 keys, got {n}"
  expectKey "reason" "expected 'reason' first"
  let reason ← readText
  expectKey "contract_hash" "expected 'contract_hash' second"
  let contractHash ← readExact "contract_hash" 32
  return { contractHash, reason }

/-- `decode`. -/
def decode (wire : List UInt8) : Except Error JoinDeclinePayload :=
  readFields.value wire

end JoinDeclinePayload

-- ================================================================ posting

namespace VersePostPayload

/-- `encode`. -/
def encode (p : VersePostPayload) : List UInt8 :=
  encodeMap
    [⟨key "nonce", bytes p.nonce.val⟩,
     ⟨key "ciphertext", bytes p.ciphertext⟩]

def readFields : Read VersePostPayload := do
  expectEntries 2 fun n => s!"VersePost expected 2 keys, got {n}"
  expectKey "nonce" "expected 'nonce' first"
  let nonce ← readExact "nonce" 12
  expectKey "ciphertext" "expected 'ciphertext' second"
  let ciphertext ← readBytes
  return { nonce, ciphertext }

/-- `decode`. -/
def decode (wire : List UInt8) : Except Error VersePostPayload :=
  readFields.value wire

end VersePostPayload

-- ================================================================ leaving

namespace DataDisposition

/-- `as_str`. -/
def asStr : DataDisposition → String
  | retain => "retain"
  | retract => "retract"
  | transfer => "transfer"

/-- `parse`. -/
def parse (s : String) : Except Error DataDisposition :=
  if s = "retain" then .ok retain
  else if s = "retract" then .ok retract
  else if s = "transfer" then .ok transfer
  else .error (.cborDecode s!"unknown DataDisposition '{s}'")

end DataDisposition

/-- `VerseLeavePayload` in full, with its signature. -/
structure SignedVerseLeave extends VerseLeavePayload where
  membershipHash : Bytes 32
  reason : Option String
  signature : Bytes signatureLen
  deriving DecidableEq

namespace SignedVerseLeave

/-- `encode_unsigned`. -/
def encodeUnsigned (p : SignedVerseLeave) : List UInt8 :=
  encodeMap
    [⟨key "side", bytes p.side.val⟩,
     ⟨key "verse", bytes p.verse.val⟩,
     ⟨key "reason", ProfilePayload.orNull text p.reason⟩,
     ⟨key "disposition", text p.disposition.asStr⟩,
     ⟨key "membership_hash", bytes p.membershipHash.val⟩]

/-- `encode`. -/
def encode (p : SignedVerseLeave) : List UInt8 :=
  encodeMap
    [⟨key "side", bytes p.side.val⟩,
     ⟨key "verse", bytes p.verse.val⟩,
     ⟨key "reason", ProfilePayload.orNull text p.reason⟩,
     ⟨key "signature", bytes p.signature.val⟩,
     ⟨key "disposition", text p.disposition.asStr⟩,
     ⟨key "membership_hash", bytes p.membershipHash.val⟩]

/-- The key every field is introduced by. -/
def expectField (want : String) : Read Unit :=
  expectKey want "VerseLeave keys not in canonical order"

/-- `DataDisposition::parse` of the next text. -/
def readDisposition : Read DataDisposition := do
  let s ← readText
  DataDisposition.parse s

def readFields : Read SignedVerseLeave := do
  expectEntries 6 fun n => s!"VerseLeave expected 6 keys, got {n}"
  expectField "side"
  let side ← readExact "side" publicKeyLen
  expectField "verse"
  let verse ← readExact "verse" publicKeyLen
  expectField "reason"
  let reason ← readOrNull "missing reason" readText
  expectField "signature"
  let signature ← readExact "signature" signatureLen
  expectField "disposition"
  let disposition ← readDisposition
  expectField "membership_hash"
  let membershipHash ← readExact "membership_hash" 32
  return { verse, side, membershipHash, reason, disposition, signature }

/-- `decode`. -/
def decode (crypto : Crypto) (wire : List UInt8) :
    Except Error SignedVerseLeave := do
  let p ← readFields.value wire
  crypto.verify p.side (crypto.blake3 p.encodeUnsigned) p.signature
  return p

end SignedVerseLeave

/-- `VerseRemovePayload` in full, with its signature. -/
structure SignedVerseRemove extends VerseRemovePayload where
  reason : String
  issuedAt : UInt64
  signature : Bytes signatureLen
  deriving DecidableEq

namespace SignedVerseRemove

/-- `encode_unsigned`. -/
def encodeUnsigned (p : SignedVerseRemove) : List UInt8 :=
  encodeMap
    [⟨key "side", bytes p.side.val⟩,
     ⟨key "verse", bytes p.verse.val⟩,
     ⟨key "reason", text p.reason⟩,
     ⟨key "issued_at", uint p.issuedAt⟩,
     ⟨key "issued_by", bytes p.issuedBy.val⟩]

/-- `encode`. -/
def encode (p : SignedVerseRemove) : List UInt8 :=
  encodeMap
    [⟨key "side", bytes p.side.val⟩,
     ⟨key "verse", bytes p.verse.val⟩,
     ⟨key "reason", text p.reason⟩,
     ⟨key "issued_at", uint p.issuedAt⟩,
     ⟨key "issued_by", bytes p.issuedBy.val⟩,
     ⟨key "signature", bytes p.signature.val⟩]

/-- The key every field is introduced by. -/
def expectField (want : String) : Read Unit :=
  expectKey want "VerseRemove keys not in canonical order"

def readFields : Read SignedVerseRemove := do
  expectEntries 6 fun n => s!"VerseRemove expected 6 keys, got {n}"
  expectField "side"
  let side ← readExact "side" publicKeyLen
  expectField "verse"
  let verse ← readExact "verse" publicKeyLen
  expectField "reason"
  let reason ← readText
  expectField "issued_at"
  let issuedAt ← readU64
  expectField "issued_by"
  let issuedBy ← readExact "issued_by" publicKeyLen
  expectField "signature"
  let signature ← readExact "signature" signatureLen
  return { verse, side, reason, issuedBy, issuedAt, signature }

/-- `decode`. -/
def decode (crypto : Crypto) (wire : List UInt8) :
    Except Error SignedVerseRemove := do
  let p ← readFields.value wire
  crypto.verify p.issuedBy (crypto.blake3 p.encodeUnsigned) p.signature
  return p

end SignedVerseRemove

-- ============================================================ reconsenting

/-- `VerseReconsentPayload` with its signature. -/
structure SignedVerseReconsent extends VerseReconsentPayload where
  signature : Bytes signatureLen
  deriving DecidableEq

namespace SignedVerseReconsent

/-- `encode_unsigned`. -/
def encodeUnsigned (p : VerseReconsentPayload) : List UInt8 :=
  encodeMap [⟨key "contract_hash", bytes p.contractHash.val⟩]

/-- `encode`. -/
def encode (p : SignedVerseReconsent) : List UInt8 :=
  encodeMap
    [⟨key "signature", bytes p.signature.val⟩,
     ⟨key "contract_hash", bytes p.contractHash.val⟩]

def readFields : Read SignedVerseReconsent := do
  expectEntries 2 fun n => s!"VerseReconsent expected 2 keys, got {n}"
  expectKey "signature" "expected 'signature' first"
  let signature ← readExact "signature" signatureLen
  expectKey "contract_hash" "expected 'contract_hash' second"
  let contractHash ← readExact "contract_hash" 32
  return { contractHash, signature }

/-- `decode_and_verify`, for the side that is to have signed it. -/
def decodeAndVerify (crypto : Crypto) (sidePubkey : Address)
    (wire : List UInt8) : Except Error SignedVerseReconsent := do
  let p ← readFields.value wire
  crypto.verify sidePubkey
    (crypto.blake3 (encodeUnsigned p.toVerseReconsentPayload)) p.signature
  return p

end SignedVerseReconsent

end Sidevers.Core
