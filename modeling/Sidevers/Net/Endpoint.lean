/-
The Direct and the Storage loop of one endpoint (`serve_direct` and
`serve_storage` in `node.rs`): what they do with an envelope that passed the
gate.

# What is kept

`sent` collects the answers, by the side they are addressed to, and
`surfaced` what went to the node's channels. A payload here is one that
decoded, its own signature verified; one that did not is `other`. The gate's
own bookkeeping (reputation, replay cache) is not part of an endpoint. The
object store's calls succeed.

# Sealing

`SealedPayload` is ideal: it opens for the two sides whose exchange gave the
key, under the nonce it was sealed with, and nobody else makes it open.
-/
import Mathlib.Data.Finset.Basic
import Mathlib.Data.Sym.Sym2
import Sidevers.Net.Side
import Sidevers.Net.StorageProtocol

namespace Sidevers.Net

open Sidevers.Core
open Sidevers.Lib

-- ============================================================ payloads

/-- The ciphertext of a `DIRECT_MESSAGE`. -/
inductive SealedPayload where
  | box (sides : Sym2 Address) (nonce : Nonce) (plaintext : List UInt8)
  | bytes (b : List UInt8)
  deriving DecidableEq

/-- `core_payload::open`. -/
def SealedPayload.open (sealed : SealedPayload) (recipient sender : Address)
    (nonce : Nonce) : Option (List UInt8) :=
  match sealed with
  | .box sides n plaintext =>
      if sides = s(sender, recipient) ∧ n = nonce then some plaintext else none
  | .bytes _ => none

/-- `SideRetirementPayload`. -/
structure SideRetirementPayload where
  side : Address
  reason : Option String
  retiredAt : UInt64
  deriving DecidableEq

/-- `LinkageProof`, both signatures verified. -/
structure LinkageProof where
  sideA : Address
  sideB : Address
  issuedAt : UInt64
  deriving DecidableEq

/-- What `serve_direct` tells apart. -/
inductive DirectPayload where
  | directMessage (sealed : SealedPayload)
  | profileFetch (queried : List UInt8)
  | profileDeliver (profile : ProfilePayload)
  | sideRetirement (record : SideRetirementPayload)
  | linkagePublish (proof : LinkageProof)
  | devicePairingRequest (req : PairingRequestPayload)
  | deviceStateBundle
  | deviceRevoke (record : DeviceRevokePayload)
  | stateDelta (delta : StateDeltaPayload)
  | other
  deriving DecidableEq

/-- What `serve_storage` tells apart; an offer is for the object of a hash. -/
inductive StoragePayload where
  | storageGet (req : StorageGetPayload)
  | storageOffer (hash : Bytes 32)
  | storageRetract (hash : Bytes 32)
  | other
  deriving DecidableEq

-- ============================================================= storage

/-- `ObjectStore`: the bytes, and whether they are pinned. -/
abbrev ObjectStore := Table (Bytes 32) (List UInt8 × Bool)

namespace ObjectStore

/-- `put`: kept as it is if the hash is there. -/
def put (crypto : Crypto) (store : ObjectStore) (bytes : List UInt8) :
    ObjectStore := store.insertOrIgnore (crypto.blake3 bytes) (bytes, false)

/-- `get`, which verifies the hash; an error counts as absent. -/
def get (crypto : Crypto) (store : ObjectStore) (hash : Bytes 32) :
    Option (List UInt8) :=
  match store hash with
  | some (bytes, _) => if crypto.blake3 bytes = hash then some bytes else none
  | none => none

/-- `get_range`, exclusive at its end; an error counts as absent. -/
def getRange (crypto : Crypto) (store : ObjectStore) (hash : Bytes 32)
    (start stop : UInt64) : Option (List UInt8) :=
  match store.get crypto hash with
  | some bytes =>
      if start ≤ stop ∧ stop.toNat ≤ bytes.length then
        some ((bytes.take stop.toNat).drop start.toNat)
      else none
  | none => none

/-- `unpin`. -/
def unpin (store : ObjectStore) (hash : Bytes 32) : ObjectStore :=
  match store hash with
  | some (bytes, _) => store.insert hash (bytes, false)
  | none => store

end ObjectStore

/-- `PublisherTable`: who published an object. -/
abbrev PublisherTable := Table (Bytes 32) (Finset Address)

namespace PublisherTable

/-- `note_publisher`. -/
def notePublisher (t : PublisherTable) (hash : Bytes 32) (side : Address) :
    PublisherTable := t.insert hash (insert side ((t hash).getD ∅))

/-- `has_publisher`. -/
def hasPublisher (t : PublisherTable) (hash : Bytes 32) (side : Address) :
    Bool := (t hash).any fun set => side ∈ set

/-- `drop_publisher`: `true` if others remain. -/
def dropPublisher (t : PublisherTable) (hash : Bytes 32) (side : Address) :
    Bool × PublisherTable :=
  match t hash with
  | none => (false, t)
  | some set =>
      if set.erase side = ∅ then (false, t.erase hash)
      else (true, t.insert hash (set.erase side))

end PublisherTable

-- ============================================================ endpoint

/-- An answer. -/
inductive Reply where
  | profileDeliver (profile : ProfilePayload)
  | deviceStateBundle (devicePubkey : Address) (nonce : Bytes 16)
  | storageHave (payload : StorageHavePayload)
  | storageMiss (hash : Bytes 32)
  | storageWant (hash : Bytes 32) (want : Bool)
  deriving DecidableEq

/-- What a channel of the node received. -/
inductive Surfaced where
  | directMessage (env : Envelope DirectPayload) (plaintext : List UInt8)
  | profile (env : Envelope DirectPayload) (profile : ProfilePayload)
  | linkage (env : Envelope DirectPayload) (proof : LinkageProof)
  deriving DecidableEq

/-- The endpoint of a hosted side. -/
structure Endpoint where
  side : Side
  store : ObjectStore
  provenance : PublisherTable
  sent : List (Address × Reply)
  surfaced : List Surfaced

namespace Endpoint

/-- `capability::DIRECT_MESSAGE`. -/
def capabilityDirectMessage : String := "direct-message"

/-- `capability::STORAGE_HOST`. -/
def capabilityStorageHost : String := "storage-host"

/-- `capability::GOSSIP_RELAY`. -/
def capabilityGossipRelay : String := "gossip-relay"

/-- `capability_allows`: the relationship, the profile, then a default. -/
def capabilityAllows (e : Endpoint) (sender : Address) (token : String) :
    Bool :=
  match e.side.relationships sender with
  | some r => token ∈ r.capabilities
  | none =>
      match e.side.profile with
      | some p => token ∈ p.capabilities
      | none =>
          token = capabilityDirectMessage || token = capabilityStorageHost
            || token = capabilityGossipRelay

/-- An answer is sent, or fails. -/
def reply (e : Endpoint) (sent : Bool) (peer : Address) (r : Reply) :
    Endpoint :=
  if sent then { e with sent := e.sent ++ [(peer, r)] } else e

/-- A message goes to its channel. -/
def surface (e : Endpoint) (s : Surfaced) : Endpoint :=
  { e with surfaced := e.surfaced ++ [s] }

/-- `serve_direct`, on an envelope. `sent` says whether the answer goes out;
`clock` are the readings of the store's writes. -/
def serveDirect (crypto : Crypto) (sent : Bool) (clock : Nat → UInt64)
    (e : Endpoint) (env : Envelope DirectPayload) : Endpoint :=
  match env.payload with
  | .directMessage sealed =>
      if !e.capabilityAllows env.fromSide capabilityDirectMessage then e
      else
        match sealed.open e.side.address env.fromSide env.nonce with
        | none => e
        | some plaintext => e.surface (.directMessage env plaintext)
  | .profileFetch queried =>
      if queried.length ≠ 32 then e
      else if queried ≠ e.side.address.val then e
      else
        match e.side.profile with
        | none => e
        | some p => e.reply sent env.fromSide (.profileDeliver p)
  | .profileDeliver profile =>
      if profile.side ≠ env.fromSide then e
      else e.surface (.profile env profile)
  | .sideRetirement record =>
      if record.side ≠ env.fromSide then e
      else { e with side := e.side.markRetiredSeen record.side (clock 0) }
  | .linkagePublish proof =>
      if env.fromSide ≠ proof.sideA ∧ env.fromSide ≠ proof.sideB then e
      else e.surface (.linkage env proof)
  | .devicePairingRequest req =>
      if req.side ≠ e.side.address then e
      else
        let pending := (e.side.takePendingPairing req.nonce (clock 0)).1
        let e := { e with
          side := e.side.handlePairingRequest req sent (clock 0) }
        match pending with
        | none => e
        | some _ =>
            e.reply sent env.fromSide
              (.deviceStateBundle req.devicePubkey req.nonce)
  | .deviceRevoke record =>
      { e with side := e.side.handleDeviceRevoke record (clock 0) }
  | .deviceStateBundle => e
  | .stateDelta delta =>
      { e with side := e.side.handleStateDelta crypto delta clock }
  | .other => e

/-- `build_storage_response`. -/
def buildStorageResponse (crypto : Crypto) (store : ObjectStore)
    (req : StorageGetPayload) : Reply :=
  let found := match req.range with
    | some r => store.getRange crypto req.hash r.start r.stop
    | none => store.get crypto req.hash
  match found with
  | some bytes => .storageHave ⟨req.hash, bytes, true⟩
  | none => .storageMiss req.hash

/-- `serve_storage`, on an envelope. `followUp` is the second message of an offer,
if one is read on its stream and decodes. -/
def serveStorage (crypto : Crypto) (sent : Bool)
    (followUp : Option StorageHavePayload) (e : Endpoint)
    (env : Envelope StoragePayload) : Endpoint :=
  match env.payload with
  | .storageGet req =>
      e.reply sent env.fromSide (buildStorageResponse crypto e.store req)
  | .storageOffer hash =>
      let alreadyHave := (e.store hash).isSome
      let e := e.reply sent env.fromSide (.storageWant hash (!alreadyHave))
      if !sent || alreadyHave then e
      else
        match followUp with
        | none => e
        | some payload =>
            if payload.hash ≠ hash then e
            else
              let e := { e with store := e.store.put crypto payload.bytes }
              if crypto.blake3 payload.bytes = hash then
                { e with
                  provenance := e.provenance.notePublisher hash env.fromSide }
              else e
  | .storageRetract hash =>
      if !e.provenance.hasPublisher hash env.fromSide then e
      else
        let (othersRemain, provenance) :=
          e.provenance.dropPublisher hash env.fromSide
        let e := { e with provenance }
        if othersRemain then e
        else if (e.store hash).isSome then
          { e with store := e.store.unpin hash }
        else e
  | .other => e

end Endpoint

end Sidevers.Net
