/-
The asking side of a session (`query_peers`, `request_rendezvous`,
`fetch_contract`, `fetch_object`, `offer_object` in `node.rs`): what is made
of whatever arrives in answer.

The clock, the random bytes and the transport do not fail; the stream that
answers may hold anything, and end anywhere. `fetch_profile` is in
`Sidevers.Net.Publishing`, `request_join` in `Sidevers.Net.Membership`.

`offerExchange` is `offer_object` at one node and the offer's arm of
`serve_storage` at the other: each reads what the other wrote.
-/
import Sidevers.Net.Error
import Sidevers.Net.Ingest
import Sidevers.Net.Serving

namespace Sidevers.Net

open Sidevers.Core
open Sidevers.Lib

-- ============================================================= a session

/-- Why a call on a session fails. -/
inductive CallError where
  | net (e : Error)
  /-- An envelope that does not fit a frame, either way, or a stream that
  ends. -/
  | framing (e : RecvError)
  | storage (e : StorageError)

/-- The answer to a request: an envelope of the expected type, decoded. -/
def awaitAnswer {α : Type} (crypto : Crypto) (expected : MessageType)
    (otherwise : String) (decode : List UInt8 → Except Core.Error α)
    (stream : List UInt8) : Except CallError α :=
  match recvEnvelope crypto stream with
  | .error e => .error (.framing e)
  | .ok resp =>
      if resp.messageType ≠ expected then
        .error (.net (.invariant otherwise))
      else
        match decode resp.payload with
        | .error e => .error (.net (.core e))
        | .ok payload => .ok payload

-- ============================================================== discovery

/-- `query_peers`, on what arrives in answer. -/
def queryPeers (crypto : Crypto) (stream : List UInt8) :
    Except CallError (List PeerInfo) :=
  (awaitAnswer crypto .peerTell "expected PeerTell" PeerTellPayload.decode
    stream).map PeerTellPayload.peers

/-- `request_rendezvous`, on what arrives in answer. -/
def requestRendezvous (crypto : Crypto) (target : Address)
    (stream : List UInt8) : Except CallError (List String) :=
  match awaitAnswer crypto .rendezvousAck "expected RendezvousAck"
    RendezvousAckPayload.decode stream with
  | .error e => .error e
  | .ok ack =>
      if ack.target ≠ target then
        .error (.net (.invariant "RendezvousAck target mismatch"))
      else .ok ack.endpoints

-- ================================================================= verse

/-- `fetch_contract`, on what arrives in answer. -/
def fetchContract (crypto : Crypto) (stream : List UInt8) :
    Except CallError ContractObject :=
  (awaitAnswer crypto .contractDeliver "expected ContractDeliver"
    (ContractDeliverPayload.decode crypto) stream).map
    ContractDeliverPayload.contract

-- =============================================================== storage

/-- `fetch_object`, on what arrives in answer. -/
def fetchObject (crypto : Crypto) (hash : Bytes 32) (stream : List UInt8) :
    Except CallError (Option (List UInt8)) :=
  match recvEnvelope crypto stream with
  | .error e => .error (.framing e)
  | .ok resp =>
      if resp.messageType = .storageHave then
        match StorageHavePayload.decode resp.payload with
        | .error e => .error (.net (.core e))
        | .ok payload =>
            if crypto.blake3 payload.bytes ≠ hash then
              .error (.net (.invariant "storage have: hash mismatch"))
            else .ok (some payload.bytes)
      else if resp.messageType = .storageMiss then .ok none
      else .error (.net (.invariant "unexpected storage response"))

/-- The STORAGE_OFFER of a reference. -/
def storageOfferEnvelope {crypto : Crypto} (side : Signer crypto) (peer : Address)
    (reference : Reference) (io : ServeIo) : SignedEnvelope :=
  .signWith .storageOffer side (some peer)
    (StorageOfferPayload.encode ⟨reference⟩) (io.clock 0) (io.nonces 0)

/-- The STORAGE_HAVE that follows, when it is wanted. -/
def storageHaveEnvelope {crypto : Crypto} (side : Signer crypto) (peer : Address)
    (hash : Bytes 32) (bytes : List UInt8) (io : ServeIo) : SignedEnvelope :=
  .signWith .storageHave side (some peer)
    (StorageHavePayload.encode ⟨hash, bytes, true⟩) (io.clock 1) (io.nonces 1)

/-- `offer_object`, past a WANT of its object: how it ends, what it writes to
the stream, and its store. -/
def sendWanted {crypto : Crypto} (side : Signer crypto) (peer : Address)
    (hash : Bytes 32) (store : ObjectFiles) (io : ServeIo) :
    Except CallError Bool × List UInt8 × ObjectFiles :=
  match store.get crypto hash with
  | (.error e, store) => (.error (.storage e), [], store)
  | (.ok none, store) =>
      (.error (.net (.invariant "offer_object: object not in local store")),
        [], store)
  | (.ok (some bytes), store) =>
      match sendEnvelope (storageHaveEnvelope side peer hash bytes io) with
      | .error e => (.error (.framing (.tooLarge e)), [], store)
      | .ok frame => (.ok true, frame, store)

/-- `offer_object`, past its offer, on what arrives in answer. -/
def offerAnswered {crypto : Crypto} (side : Signer crypto) (peer : Address)
    (hash : Bytes 32) (store : ObjectFiles) (io : ServeIo)
    (stream : List UInt8) :
    Except CallError Bool × List UInt8 × ObjectFiles :=
  match awaitAnswer crypto .storageWant "expected StorageWant"
    StorageWantPayload.decode stream with
  | .error e => (.error e, [], store)
  | .ok want =>
      if want.hash ≠ hash then
        (.error (.net (.invariant "StorageWant hash mismatch")), [], store)
      else if want.want = false then (.ok false, [], store)
      else sendWanted side peer hash store io

/-- The WANT of an offer, as it goes to the stream. -/
def wantFrame {crypto : Crypto} (side : Signer crypto) (peer : Address)
    (io : ServeIo) : Option StorageWantPayload → List UInt8
  | none => []
  | some want =>
      match sendEnvelope (.signWith .storageWant side (some peer) want.encode
        (io.clock 0) (io.nonces 0)) with
      | .error _ => []
      | .ok frame => frame

/-- Both ends of an offer, by the one that makes it and the one it is made
to. -/
structure OfferOutcome where
  offered : Except CallError Bool
  /-- None if the offer is never sent. -/
  served : Option OfferEnd
  store : ObjectFiles
  services : StorageServices

/-- An offer from one node to another, past the other's gates. `failures` are
those of the other's calls; its stream is what the one writes. -/
def offerExchange {crypto : Crypto} (side peer : Signer crypto)
    (reference : Reference) (store : ObjectFiles) (services : StorageServices)
    (io peerIo : ServeIo) (failures : OfferIo) : OfferOutcome :=
  let offer := storageOfferEnvelope side peer.publicBytes reference io
  match sendEnvelope offer with
  | .error e => ⟨.error (.framing (.tooLarge e)), none, store, services⟩
  | .ok _ =>
      let want := (services.serveOffer crypto failures offer).2.1
      let (offered, written, store) := offerAnswered side peer.publicBytes
        reference.hash store io (wantFrame peer side.publicBytes peerIo want)
      let (served, _, services) := services.serveOffer crypto
        { failures with stream := written } offer
      ⟨offered, some served, store, services⟩

end Sidevers.Net
