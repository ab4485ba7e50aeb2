/-
What a session answers, and what becomes of it when the answer does not fit a
frame (the serve loops in `node.rs`, `framing.rs`).

The requests are the ones that passed the gates, of a type the session's
intent accepts. Each handler is its answer, the node when the answer is about
to be sent, and the node once it is; the clock, the random bytes and the
stream do not fail. What else happens on the node between two requests may
leave it in any state.

The handlers' other parts are elsewhere: what the Direct and the Storage loop
do to a side in `Sidevers.Net.Endpoint`, the verse server in
`Sidevers.Net.ServeVerse`.
-/
import Mathlib.Data.List.Sort
import Sidevers.Core.DeviceWire
import Sidevers.Core.EnvelopeWire
import Sidevers.Core.PeerWire
import Sidevers.Net.Endpoint
import Sidevers.Net.Pairing
import Sidevers.Net.Session
import Sidevers.Net.Verse

namespace Sidevers.Net

open Sidevers.Core
open Sidevers.Lib
open Cbor

-- ============================================================= framing

/-- `MAX_ENVELOPE_LEN`. -/
def maxEnvelopeLen : Nat := 64 * 1024

/-- `Error::EnvelopeTooLarge`. -/
structure EnvelopeTooLarge where
  got : UInt32
  max : UInt32
  deriving DecidableEq

/-- `send_envelope`: what goes to the stream. -/
def sendEnvelope (env : SignedEnvelope) :
    Except EnvelopeTooLarge (List UInt8) :=
  let wire := env.toWireBytes
  if wire.length > maxEnvelopeLen then
    .error ⟨UInt32.ofNat wire.length, UInt32.ofNat maxEnvelopeLen⟩
  else .ok (toBeBytes 4 (UInt64.ofNat wire.length) ++ wire)

-- ============================================================ chunking

/-- `CHUNK_MAX`. -/
def chunkMax : Nat := 256 * 1024

/-- `chunks`, of a size that is not zero. -/
def chunks (n : Nat) (bytes : List UInt8) : List (List UInt8) :=
  if _h : bytes = [] ∨ n = 0 then []
  else bytes.take n :: chunks n (bytes.drop n)
termination_by bytes.length
decreasing_by
  have hpos := List.length_pos_of_ne_nil (not_or.mp _h).1
  have hn := (not_or.mp _h).2
  rw [List.length_drop]
  omega

/-- `encode_manifest`. -/
def encodeManifest (totalSize : UInt64) (chunks : List (Bytes 32)) :
    List UInt8 :=
  encodeMap
    [⟨key "chunks", encodeArray (fun h => bytes h.val) chunks⟩,
     ⟨key "total_size", uint totalSize⟩]

/-- The objects that `put_chunked` puts, in turn: the bytes, or their chunks
and the manifest. -/
def chunkedObjects (crypto : Crypto) (bytes : List UInt8) :
    List (List UInt8) :=
  if bytes.length ≤ chunkMax then [bytes]
  else
    chunks chunkMax bytes
      ++ [encodeManifest (UInt64.ofNat bytes.length)
        ((chunks chunkMax bytes).map crypto.blake3)]

/-- `put_chunked`, on the store. -/
def putChunked (crypto : Crypto) (store : ObjectStore)
    (bytes : List UInt8) : ObjectStore :=
  (chunkedObjects crypto bytes).foldl (ObjectStore.put crypto) store

-- ============================================================ the node

/-- A hosted verse, as far as its answers go. -/
structure HostedVerse (crypto : Crypto) where
  verseKey : Signer crypto
  contract : ContractObject
  contentKey : Bytes 32

/-- What a node answers from. The lists are what the tables list, in the order
they do. -/
structure ServingNode (crypto : Crypto) where
  side : Signer crypto
  seed : Bytes 32
  profile : Option ProfilePayload
  lifecycle : SideLifecycle
  relationships : List SideRelationship
  retiredSeen : List Address
  coHolders : List Address
  pendingPairings : Table (Bytes 16) PendingPairing
  store : ObjectStore
  peers : List PeerInfo
  verses : Table Address (HostedVerse crypto)

/-- The loop a session is served by, by its intent; that of a verse session
has an index of contract hashes and a default. -/
inductive ServeLoop where
  | direct
  | storage
  | gossip
  | verse (index : Table (Bytes 32) Address) (defaultAddr : Address)

/-- The intent of the loop's sessions. -/
def ServeLoop.intent : ServeLoop → Intent
  | .direct => .direct
  | .storage => .storage
  | .gossip => .gossip
  | .verse _ _ => .verse

/-- The readings of the clock and the random bytes of a handler, in turn. -/
structure ServeIo where
  clock : Nat → UInt64
  nonces : Nat → Bytes 16

/-- What a handler comes to: its answer, if it has one, the node when it is
about to be sent, and the node once it is. -/
structure Response (crypto : Crypto) where
  answer : Option SignedEnvelope
  node : ServingNode crypto
  sent : ServingNode crypto

namespace ServingNode

variable {crypto : Crypto}

/-- No answer. -/
def silent (n : ServingNode crypto) : Response crypto := ⟨none, n, n⟩

/-- An answer that changes nothing. -/
def answering (n : ServingNode crypto) (answer : SignedEnvelope) :
    Response crypto := ⟨some answer, n, n⟩

/-- `sign_response`. -/
def signResponse (n : ServingNode crypto) (peerSide : Address)
    (messageType : MessageType) (payload : List UInt8) (now : UInt64)
    (nonce : Nonce) : SignedEnvelope :=
  .signWith messageType n.side (some peerSide) payload now nonce

-- ============================================================== direct

/-- PROFILE_FETCH. -/
def profileFetch (n : ServingNode crypto) (env : SignedEnvelope)
    (io : ServeIo) : Response crypto :=
  if env.payload.length ≠ 32 then n.silent
  else if env.payload ≠ n.side.publicBytes.val then n.silent
  else
    match n.profile with
    | none => n.silent
    | some profile =>
        n.answering (n.signResponse env.fromSide .profileDeliver
          profile.toWireBytes (io.clock 0) (io.nonces 0))

/-- By address. -/
def byAddress (a b : Address) : Prop := ¬ b.val < a.val

instance : DecidableRel byAddress := fun _ _ =>
  inferInstanceAs (Decidable (¬ _))

/-- The record of a relationship; the capabilities are listed in order. -/
def relationshipRecord (r : SideRelationship) : RelationshipRecord where
  address := r.address
  nickname := r.nickname
  introducedBy := r.introducedBy
  capabilities := r.capabilities.keys
  notes := r.notes
  pinned := r.pinned
  addedAt := r.addedAt

/-- `build_state_bundle_inner`. -/
def buildStateBundleInner (n : ServingNode crypto) (now : UInt64) :
    SeededStateBundle where
  profileWire := n.profile.map ProfilePayload.toWireBytes
  relationships := (n.relationships.map relationshipRecord).insertionSort
    fun a b => byAddress a.address b.address
  retiredSides := n.retiredSeen.insertionSort byAddress
  lifecycle := lifecycleLabel n.lifecycle
  coHolders := n.coHolders.insertionSort byAddress
  sideSeed := n.seed
  bundledAt := now

/-- `take_pending_pairing`. -/
def takePendingPairing (n : ServingNode crypto) (nonce : Bytes 16)
    (now : UInt64) : Option PendingPairing × ServingNode crypto :=
  let live : Table (Bytes 16) PendingPairing := fun nonce =>
    (n.pendingPairings nonce).filter fun p =>
      decide (saturatingSub now p.issuedAt < pairingTtlSecs)
  (live nonce, { n with pendingPairings := live.erase nonce })

/-- DEVICE_PAIRING_REQUEST. -/
def devicePairingRequest (sealTo : Seal crypto) (n : ServingNode crypto)
    (env : SignedEnvelope) (io : ServeIo) : Response crypto :=
  match SignedPairingRequest.fromWireBytes crypto env.payload with
  | .error _ => n.silent
  | .ok req =>
      if req.side ≠ n.side.publicBytes then n.silent
      else
        match n.takePendingPairing req.nonce (io.clock 0) with
        | (none, n) => n.silent
        | (some _, n) =>
            let inner := n.buildStateBundleInner (io.clock 1)
            match sealTo inner.encode n.side req.deviceX25519Pubkey
              (io.nonces 0) stateBundleAad with
            | .error _ => n.silent
            | .ok sealedState =>
                let bundle := SignedStateBundle.sign n.side req.devicePubkey
                  req.nonce (io.nonces 0) sealedState
                { answer := some (n.signResponse env.fromSide
                    .deviceStateBundle bundle.toWireBytes (io.clock 2)
                    (io.nonces 1))
                  node := n
                  sent := { n with
                    coHolders := req.devicePubkey
                      :: n.coHolders.filter (· ≠ req.devicePubkey) } }

-- ============================================================= storage

/-- The object that is asked for, or the part of it. -/
def requestedBytes (n : ServingNode crypto) (req : StorageGetPayload) :
    Option (List UInt8) :=
  match req.range with
  | some r => n.store.getRange crypto req.hash r.start r.stop
  | none => n.store.get crypto req.hash

/-- STORAGE_GET, `build_storage_response`. -/
def storageGet (n : ServingNode crypto) (env : SignedEnvelope)
    (io : ServeIo) : Response crypto :=
  match StorageGetPayload.decode env.payload with
  | .error _ => n.silent
  | .ok req =>
      match n.requestedBytes req with
      | some bytes =>
          n.answering (n.signResponse env.fromSide .storageHave
            (StorageHavePayload.encode ⟨req.hash, bytes, true⟩) (io.clock 0)
            (io.nonces 0))
      | none =>
          n.answering (n.signResponse env.fromSide .storageMiss
            (StorageMissPayload.encode ⟨req.hash, []⟩) (io.clock 0)
            (io.nonces 0))

-- ============================================================== gossip

/-- `PeerTable::sample`. -/
def samplePeers (n : ServingNode crypto) (limit : Nat)
    (intentFilter : Option UInt8) : List PeerInfo :=
  ((n.peers.filter fun p => intentFilter.all (p.intents.contains ·)).insertionSort
    fun a b => b.lastSeen ≤ a.lastSeen).take limit

/-- PEER_ASK. -/
def peerAsk (n : ServingNode crypto) (env : SignedEnvelope) (io : ServeIo) :
    Response crypto :=
  match PeerAskPayload.decode env.payload with
  | .error _ => n.silent
  | .ok req =>
      let peers := n.samplePeers (min req.limit 256).toNat req.intentFilter
      n.answering (n.signResponse env.fromSide .peerTell
        (PeerTellPayload.encode ⟨peers⟩) (io.clock 0) (io.nonces 0))

/-- The endpoints known of a peer. -/
def endpoints (n : ServingNode crypto) (target : Address) : List String :=
  ((n.peers.find? fun p => p.address = target).map (·.endpoints)).getD []

/-- RENDEZVOUS. -/
def rendezvous (n : ServingNode crypto) (env : SignedEnvelope)
    (io : ServeIo) : Response crypto :=
  match RendezvousPayload.decode env.payload with
  | .error _ => n.silent
  | .ok req =>
      n.answering (n.signResponse env.fromSide .rendezvousAck
        (RendezvousAckPayload.encode ⟨req.target, n.endpoints req.target⟩)
        (io.clock 0) (io.nonces 0))

-- =============================================================== verse

/-- CONTRACT_FETCH; the payload is not looked at. -/
def contractFetch (n : ServingNode crypto) (defaultAddr : Address)
    (env : SignedEnvelope) (io : ServeIo) : Response crypto :=
  match n.verses defaultAddr with
  | none => n.silent
  | some host =>
      n.answering (n.signResponse env.fromSide .contractDeliver
        (ContractDeliverPayload.encode ⟨host.contract⟩) (io.clock 0)
        (io.nonces 0))

/-- The host a join request goes to. -/
def joinHost (n : ServingNode crypto) (index : Table (Bytes 32) Address)
    (defaultAddr : Address) (contractHash : Bytes 32) :
    Option (HostedVerse crypto) :=
  ((index contractHash).bind n.verses).or (n.verses defaultAddr)

/-- The associated data of a sealed content key. -/
def verseKeyShareAad : List UInt8 :=
  "sidevers/v1/verse-key-share".toUTF8.data.toList

/-- JOIN_REQUEST. The sealing of the content key may fail the loop. -/
def joinRequest (sealTo : Seal crypto) (n : ServingNode crypto)
    (index : Table (Bytes 32) Address) (defaultAddr : Address)
    (env : SignedEnvelope) (io : ServeIo) : Except Error (Response crypto) :=
  match SignedJoinRequest.decode crypto env.payload with
  | .error _ => .ok n.silent
  | .ok req =>
      match n.joinHost index defaultAddr req.contractHash with
      | none => .ok n.silent
      | some host =>
          match VerseHost.joinProblem crypto host.contract
            req.toJoinRequestPayload with
          | some reason =>
              .ok (n.answering (n.signResponse env.fromSide .joinDecline
                (JoinDeclinePayload.encode
                  ⟨host.contract.hash crypto, reason⟩)
                (io.clock 0) (io.nonces 0)))
          | none =>
              let token := SignedMembershipToken.sign host.verseKey
                (host.contract.hash crypto) req.side (io.clock 0)
              match sealTo host.contentKey.val host.verseKey req.side
                (io.nonces 0) verseKeyShareAad with
              | .error e => .error e
              | .ok sealedContentKey =>
                  let accept : JoinAcceptWire :=
                    { membershipToken := token.toWireBytes
                      keyNonce := io.nonces 0, sealedContentKey }
                  -- the verse signs, not the side that hosts it
                  .ok (n.answering (.signWith .joinAccept host.verseKey
                    (some env.fromSide) accept.encode (io.clock 1)
                    (io.nonces 1)))

end ServingNode

-- =========================================================== the loops

/-- A loop's dispatch of the seven requests. -/
def ServeLoop.respond {crypto : Crypto} (sealTo : Seal crypto)
    (n : ServingNode crypto) (env : SignedEnvelope) (io : ServeIo) :
    ServeLoop → Except Error (Response crypto)
  | .direct =>
      if env.messageType = .profileFetch then .ok (n.profileFetch env io)
      else if env.messageType = .devicePairingRequest then
        .ok (n.devicePairingRequest sealTo env io)
      else .ok n.silent
  | .storage =>
      if env.messageType = .storageGet then .ok (n.storageGet env io)
      else .ok n.silent
  | .gossip =>
      if env.messageType = .peerAsk then .ok (n.peerAsk env io)
      else if env.messageType = .rendezvous then .ok (n.rendezvous env io)
      else .ok n.silent
  | .verse index defaultAddr =>
      if env.messageType = .contractFetch then
        .ok (n.contractFetch defaultAddr env io)
      else if env.messageType = .joinRequest then
        n.joinRequest sealTo index defaultAddr env io
      else .ok n.silent

/-- A session: the node, its loop, and whether it still runs. -/
structure ServingSession (crypto : Crypto) where
  node : ServingNode crypto
  loop : ServeLoop
  up : Bool

/-- What can happen. -/
inductive ServingAction (crypto : Crypto) where
  /-- A request that passed the gates. -/
  | request (env : SignedEnvelope) (io : ServeIo)
  | putChunked (bytes : List UInt8)
  /-- Anything else on the node. -/
  | other (node : ServingNode crypto)

/-- The effect of an action, `none` when it is not enabled. -/
def servingStep {crypto : Crypto} (sealTo : Seal crypto)
    (w : ServingSession crypto) :
    ServingAction crypto → Option (ServingSession crypto)
  | .request env io =>
      if w.up = false ∨ w.loop.intent.accepts env.messageType = false then none
      else
        match w.loop.respond sealTo w.node env io with
        | .error _ => some { w with up := false }
        | .ok response =>
            match response.answer with
            | none => some { w with node := response.node }
            | some answer =>
                match sendEnvelope answer with
                | .ok _ => some { w with node := response.sent }
                | .error _ =>
                    some { w with node := response.node, up := false }
  | .putChunked bytes =>
      let store := Net.putChunked crypto w.node.store bytes
      some { w with node := { w.node with store } }
  | .other node => some { w with node }

end Sidevers.Net
