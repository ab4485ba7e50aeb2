/-
How many bytes a wire form has.

A size is computed from the lengths of what the form is made of, by the shape
of the form and without encoding anything (`mapSize`, `arraySize`); each of
the lemmas says that the encoder writes as many.
-/
import Mathlib.Algebra.GroupWithZero.Nat
import Sidevers.Core.DeviceWire
import Sidevers.Core.EnvelopeWire
import Sidevers.Core.PeerWire
import Sidevers.Net.StorageProtocol
import Sidevers.Proofs.CborReads

namespace Sidevers.Proofs

open Sidevers.Core
open Sidevers.Lib
open Sidevers.Net
open Cbor

-- ============================================================= the items

/-- The bytes of a head. -/
def headSize (v : UInt64) : Nat :=
  if v ≤ 23 then 1
  else if v ≤ 0xFF then 2
  else if v ≤ 0xFFFF then 3
  else if v ≤ 0xFFFFFFFF then 5
  else 9

/-- A byte string or a text of so many bytes. -/
def stringSize (n : Nat) : Nat := headSize (UInt64.ofNat n) + n

/-- A text. -/
def textSize (t : String) : Nat := stringSize t.utf8ByteSize

/-- A value that may be null. -/
def orNullSize {α : Type} (size : α → Nat) : Option α → Nat
  | some a => size a
  | none => 1

/-- An array of items of these sizes. -/
def arraySize (items : List Nat) : Nat :=
  headSize (UInt64.ofNat items.length) + items.sum

/-- A map with these keys, and values of these sizes. -/
def mapSize (fields : List (String × Nat)) : Nat :=
  headSize (UInt64.ofNat fields.length)
    + (fields.map fun f => textSize f.1 + f.2).sum

/-- A head is an initial byte and at most eight more. -/
theorem headSize_le (v : UInt64) : headSize v ≤ 9 := by
  unfold headSize
  (repeat' split) <;> omega

/-- The lengths whose head is three bytes. -/
theorem headSize_eq_three {n : Nat} (hlow : 0xFF < n) (hhigh : n ≤ 0xFFFF) :
    headSize (UInt64.ofNat n) = 3 := by
  have hnat : (UInt64.ofNat n).toNat = n :=
    UInt64.toNat_ofNat_of_lt' (Nat.lt_of_le_of_lt hhigh (by decide))
  have h1 : ¬ UInt64.ofNat n ≤ 23 := by
    rw [UInt64.le_iff_toNat_le, hnat]
    exact Nat.not_le.mpr (Nat.lt_trans (by decide) hlow)
  have h2 : ¬ UInt64.ofNat n ≤ 0xFF := by
    rw [UInt64.le_iff_toNat_le, hnat]
    exact Nat.not_le.mpr hlow
  have h3 : UInt64.ofNat n ≤ 0xFFFF := by
    rw [UInt64.le_iff_toNat_le, hnat]
    exact hhigh
  rw [headSize, if_neg h1, if_neg h2, if_pos h3]

theorem le_stringSize (n : Nat) : n ≤ stringSize n := Nat.le_add_left ..

/-- No more than a head is added. -/
theorem stringSize_le (n : Nat) : stringSize n ≤ 9 + n :=
  Nat.add_le_add_right (headSize_le _) n

/-- The writer takes the shortest head there is. -/
theorem length_writeHead (major : UInt8) (v : UInt64) :
    (writeHead major v).length = headSize v := by
  unfold writeHead headSize
  (repeat' split) <;> simp [length_toBeBytes]

@[simp] theorem length_uint (v : UInt64) : (uint v).length = headSize v :=
  length_writeHead ..

@[simp] theorem length_boolean (b : Bool) : (boolean b).length = 1 := rfl

@[simp] theorem length_string (b : List UInt8) :
    (bytes b).length = stringSize b.length := by
  rw [bytes, List.length_append, length_writeHead, stringSize]

/-- A text is as long as its UTF-8. -/
@[simp] theorem length_text (t : String) : (text t).length = textSize t := by
  have hutf8 : t.toUTF8.data.toList.length = t.utf8ByteSize := by simp
  rw [text, List.length_append, length_writeHead, hutf8, textSize, stringSize]

/-- A null is one byte. -/
@[simp] theorem length_orNull {α : Type} (encode : α → List UInt8)
    (a : Option α) :
    (ProfilePayload.orNull encode a).length
      = orNullSize (fun a => (encode a).length) a := by
  cases a <;> rfl

@[simp] theorem length_encodeArray {α : Type} (encode : α → List UInt8)
    (items : List α) :
    (encodeArray encode items).length
      = arraySize (items.map fun a => (encode a).length) := by
  rw [encodeArray, List.length_append, arrayHeader, length_writeHead,
    List.length_flatMap, arraySize, List.length_map]

/-- A map is its head and its entries. -/
@[simp] theorem length_encodeMap (entries : List MapEntry) :
    (encodeMap entries).length = headSize (UInt64.ofNat entries.length)
      + (entries.map fun e => e.key.length + e.value.length).sum := by
  simp [encodeMap, length_writeHead, List.length_flatMap]

@[simp] theorem length_key (t : String) : (key t).length = textSize t :=
  length_text t

@[simp] theorem length_val {n : Nat} (b : Bytes n) : b.val.length = n :=
  b.property

/-- The lengths of fixed byte strings. -/
theorem lengths :
    publicKeyLen = 32 ∧ signatureLen = 64 ∧ nonceLen = 16
      ∧ pairingNonceLen = 16 ∧ keyNonceLen = 16 := ⟨rfl, rfl, rfl, rfl, rfl⟩

-- =========================================================== envelopes

/-- An envelope to a side. -/
def envelopeSize (messageType : MessageType) (timestamp : UInt64)
    (payload : Nat) : Nat :=
  mapSize
    [("t", headSize messageType.byte.toUInt64),
     ("v", headSize Core.protocolVersion), ("to", stringSize 32),
     ("ts", headSize timestamp), ("sig", stringSize 64),
     ("from", stringSize 32), ("nonce", stringSize 16),
     ("payload", stringSize payload)]

/-- All but the four fields whose length varies take 186 bytes. -/
theorem envelopeSize_eq (messageType : MessageType) (timestamp : UInt64)
    (payload : Nat) :
    envelopeSize messageType timestamp payload
      = 186 + headSize messageType.byte.toUInt64 + headSize timestamp
        + stringSize payload := by
  -- the heads of the keys and of the fixed fields, evaluated
  change 1 + (2 + headSize _ + (2 + 1 + (3 + 34 + (3 + headSize _ + (4 + 66
    + (5 + 34 + (6 + 17 + (8 + stringSize payload + 0)))))))) = _
  omega

/-- A signed envelope is as long as its parts say, whoever signed it and
whatever it says. -/
theorem length_signWith {crypto : Crypto} (messageType : MessageType)
    (side : Signer crypto) (toSide : Address) (payload : List UInt8)
    (timestamp : UInt64) (nonce : Nonce) :
    (SignedEnvelope.signWith messageType side (some toSide) payload timestamp
        nonce).toWireBytes.length
      = envelopeSize messageType timestamp payload.length := by
  simp [SignedEnvelope.toWireBytes, SignedEnvelope.signWith, envelopeSize,
    mapSize, orNullSize, lengths]

-- ============================================================ payloads

/-- `StorageHavePayload`, of an object or a part of so many bytes. -/
def haveSize (n : Nat) : Nat :=
  mapSize [("hash", stringSize 32), ("bytes", stringSize n), ("final", 1)]

theorem length_storageHave (p : StorageHavePayload) :
    p.encode.length = haveSize p.bytes.length := by
  simp [StorageHavePayload.encode, haveSize, mapSize]

/-- A have takes 53 bytes beside what it carries. -/
theorem haveSize_eq (n : Nat) : haveSize n = 53 + stringSize n := by
  change 1 + (5 + 34 + (6 + stringSize n + (6 + 1 + 0))) = _
  omega

/-- `StorageMissPayload` without hints. -/
def missSize : Nat :=
  mapSize [("hash", stringSize 32), ("hints", arraySize [])]

theorem length_storageMiss (hash : Bytes 32) :
    (StorageMissPayload.encode ⟨hash, []⟩).length = missSize := by
  simp [StorageMissPayload.encode, missSize, mapSize]

/-- `FieldSpec`. -/
def fieldSpecSize (spec : FieldSpec) : Nat :=
  mapSize
    [("kind", textSize spec.kind), ("label", textSize spec.label),
     ("validator", orNullSize textSize spec.validator),
     ("description", orNullSize textSize spec.description)]

theorem length_fieldSpec (spec : FieldSpec) :
    spec.encode.length = fieldSpecSize spec := by
  simp [FieldSpec.encode, fieldSpecSize, mapSize]

/-- A map of texts. -/
def textMapSize (m : BTreeMap String String) : Nat :=
  mapSize (m.entries.map fun e => (e.1, textSize e.2))

/-- Entries in the order of their keys. -/
theorem length_encodeMap_mergeSort (entries : List MapEntry)
    (le : MapEntry → MapEntry → Bool) :
    (encodeMap (entries.mergeSort le)).length = (encodeMap entries).length := by
  have hperm := List.mergeSort_perm entries le
  rw [length_encodeMap, length_encodeMap, hperm.length_eq,
    (hperm.map _).sum_nat]

/-- In whatever order its entries are written. -/
theorem length_textMap (m : BTreeMap String String) :
    (encodeMap ((m.entries.map fun e =>
      MapEntry.mk (key e.1) (text e.2)).mergeSort
      fun a b => !decide (b.key < a.key))).length = textMapSize m := by
  rw [length_encodeMap_mergeSort]
  simp [textMapSize, mapSize, Function.comp_def]

/-- `PolicyClause`. -/
def policyClauseSize (clause : PolicyClause) : Nat :=
  mapSize
    [("kind", textSize clause.kind), ("params", textMapSize clause.params)]

/-- The parameters are written sorted. -/
theorem length_policyClause (clause : PolicyClause) :
    clause.encode.length = policyClauseSize clause := by
  have hparams := length_textMap clause.params
  rw [PolicyClause.encode, length_encodeMap]
  simp [hparams, policyClauseSize, mapSize, -length_encodeMap]

/-- `ContractObject`. -/
def contractSize (c : ContractObject) : Nat :=
  mapSize
    [("title", textSize c.title), ("verse", stringSize 32),
     ("scoped", arraySize (c.scoped.map textSize)),
     ("version", headSize c.version),
     ("optional", arraySize (c.optional.map fieldSpecSize)),
     ("policies", arraySize (c.policies.map policyClauseSize)),
     ("required", arraySize (c.required.map fieldSpecSize)),
     ("forbidden", arraySize (c.forbidden.map textSize)),
     ("issued_at", headSize c.issuedAt), ("signature", stringSize 64),
     ("moderators", arraySize (c.moderators.map fun _ => stringSize 32)),
     ("description", textSize c.description)]

/-- Nested lists included. -/
theorem length_contract (c : ContractObject) :
    c.toWireBytes.length = contractSize c := by
  simp [ContractObject.toWireBytes, contractSize, mapSize, lengths,
    length_fieldSpec, length_policyClause]

/-- A contract on its way to who fetched it. -/
theorem length_contractDeliver (c : ContractObject) :
    (ContractDeliverPayload.encode ⟨c⟩).length
      = mapSize [("contract", contractSize c)] := by
  simp [ContractDeliverPayload.encode, mapSize, length_contract]

/-- `ProfilePayload`. -/
def profileSize (p : ProfilePayload) : Nat :=
  mapSize
    [("bio", orNullSize textSize p.bio), ("name", orNullSize textSize p.name),
     ("side", stringSize 32),
     ("links", orNullSize (fun l => arraySize (l.map textSize)) p.links),
     ("avatar", orNullSize (fun _ => stringSize 32) p.avatar),
     ("fields", orNullSize (fun f : BTreeMap String (List UInt8) =>
       mapSize (f.entries.map fun e => (e.1, e.2.length))) p.fields),
     ("signature", stringSize 64), ("updated_at", headSize p.updatedAt),
     ("capabilities", arraySize (p.capabilities.keys.map textSize))]

/-- The values are encoded already. -/
theorem length_fieldsSubmap (fields : BTreeMap String (List UInt8)) :
    (ProfilePayload.encodeFieldsSubmap fields).length
      = mapSize (fields.entries.map fun e => (e.1, e.2.length)) := by
  rw [ProfilePayload.encodeFieldsSubmap, length_encodeMap_mergeSort]
  simp [mapSize, Function.comp_def]

theorem length_textArray (items : List String) :
    (ProfilePayload.encodeTextArray items).length
      = arraySize (items.map textSize) := by
  have h := length_encodeArray text items
  simp only [length_text] at h
  exact h

/-- Of the fields that may be null each null takes a byte. -/
theorem length_profile (p : ProfilePayload) :
    p.toWireBytes.length = profileSize p := by
  simp [ProfilePayload.toWireBytes, profileSize, mapSize, lengths,
    length_fieldsSubmap, length_textArray]

-- ============================================================== bundles

/-- `RelationshipRecord`. -/
def relationshipSize (rec : RelationshipRecord) : Nat :=
  mapSize
    [("notes", orNullSize textSize rec.notes), ("pinned", 1),
     ("address", stringSize 32), ("added_at", headSize rec.addedAt),
     ("nickname", orNullSize textSize rec.nickname),
     ("capabilities", arraySize (rec.capabilities.map textSize)),
     ("introduced_by",
       orNullSize (fun _ => stringSize 32) rec.introducedBy)]

theorem length_relationship (rec : RelationshipRecord) :
    rec.encode.length = relationshipSize rec := by
  simp [RelationshipRecord.encode, relationshipSize, mapSize, lengths]

theorem length_relationshipArray (items : List RelationshipRecord) :
    (encodeRelationshipArray items).length
      = arraySize (items.map relationshipSize) := by
  have h := length_encodeArray RelationshipRecord.encode items
  simp only [length_relationship] at h
  exact h

/-- `StateBundleInner`. -/
def bundleSize (x : SeededStateBundle) : Nat :=
  mapSize
    [("profile", orNullSize (fun b => stringSize b.length) x.profileWire),
     ("lifecycle", textSize x.lifecycle), ("side_seed", stringSize 32),
     ("bundled_at", headSize x.bundledAt),
     ("co_holders", arraySize (x.coHolders.map fun _ => stringSize 32)),
     ("relationships", arraySize (x.relationships.map relationshipSize)),
     ("retired_sides", arraySize (x.retiredSides.map fun _ => stringSize 32))]

/-- A state before it is sealed. -/
theorem length_bundle (x : SeededStateBundle) :
    x.encode.length = bundleSize x := by
  simp [SeededStateBundle.encode, bundleSize, mapSize, lengths,
    length_relationshipArray]

/-- `StateBundlePayload`, of a sealed state of so many bytes. -/
def signedBundleSize (sealedState : Nat) : Nat :=
  mapSize
    [("side", stringSize 32), ("nonce", stringSize 16),
     ("key_nonce", stringSize 16), ("signature", stringSize 64),
     ("sealed_state", stringSize sealedState),
     ("recipient_device", stringSize 32)]

/-- The fixed fields around the sealed state. -/
theorem length_signedBundle (p : SignedStateBundle) :
    p.toWireBytes.length = signedBundleSize p.sealedState.length := by
  simp [SignedStateBundle.toWireBytes, signedBundleSize, mapSize, lengths]

-- ================================================================ peers

/-- `PeerInfo`. -/
def peerSize (p : PeerInfo) : Nat :=
  mapSize
    [("address", stringSize 32),
     ("intents", arraySize (p.intents.map fun b => headSize b.toUInt64)),
     ("endpoints", arraySize (p.endpoints.map textSize)),
     ("last_seen", headSize p.lastSeen)]

theorem length_peer (p : PeerInfo) : p.encode.length = peerSize p := by
  simp [PeerInfo.encode, peerSize, mapSize, lengths, encodeU8]

/-- `PeerTellPayload`. -/
def peerTellSize (peers : List PeerInfo) : Nat :=
  mapSize [("peers", arraySize (peers.map peerSize))]

/-- The answer to who asks for peers. -/
theorem length_peerTell (peers : List PeerInfo) :
    (PeerTellPayload.encode ⟨peers⟩).length = peerTellSize peers := by
  simp [PeerTellPayload.encode, peerTellSize, mapSize, length_peer]

/-- `RendezvousAckPayload`. -/
def rendezvousAckSize (endpoints : List String) : Nat :=
  mapSize
    [("target", stringSize 32),
     ("endpoints", arraySize (endpoints.map textSize))]

/-- The answer to who asks for a side's endpoints. -/
theorem length_rendezvousAck (target : Address) (endpoints : List String) :
    (RendezvousAckPayload.encode ⟨target, endpoints⟩).length
      = rendezvousAckSize endpoints := by
  simp [RendezvousAckPayload.encode, rendezvousAckSize, mapSize, lengths]

-- ============================================================== joining

/-- `JoinDeclinePayload`. -/
def joinDeclineSize (reason : String) : Nat :=
  mapSize [("reason", textSize reason), ("contract_hash", stringSize 32)]

theorem length_joinDecline (contractHash : Bytes 32) (reason : String) :
    (JoinDeclinePayload.encode ⟨contractHash, reason⟩).length
      = joinDeclineSize reason := by
  simp [JoinDeclinePayload.encode, joinDeclineSize, mapSize]

/-- `MembershipToken`. -/
def tokenSize (issuedAt : UInt64) : Nat :=
  mapSize
    [("verse", stringSize 32), ("member", stringSize 32),
     ("issued_at", headSize issuedAt), ("signature", stringSize 64),
     ("contract_hash", stringSize 32)]

/-- Only the time varies. -/
theorem length_token (t : SignedMembershipToken) :
    t.toWireBytes.length = tokenSize t.issuedAt := by
  simp [SignedMembershipToken.toWireBytes, tokenSize, mapSize, lengths]

/-- `JoinAcceptPayload`, of a token and a sealed key of so many bytes. -/
def joinAcceptSize (token sealedContentKey : Nat) : Nat :=
  mapSize
    [("key_nonce", stringSize 16), ("membership_token", stringSize token),
     ("sealed_content_key", stringSize sealedContentKey)]

theorem length_joinAccept (p : JoinAcceptWire) :
    p.encode.length = joinAcceptSize p.membershipToken.length
      p.sealedContentKey.length := by
  simp [JoinAcceptWire.encode, joinAcceptSize, mapSize]

end Sidevers.Proofs
