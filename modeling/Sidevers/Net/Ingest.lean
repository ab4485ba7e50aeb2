/-
One STORAGE_OFFER exchange (`serve_storage` in `node.rs`): the offer, the WANT
that answers it, and the HAVE that may follow on the same stream.

The peer's side of the stream is the bytes that arrive before it ends or
fails. Every call that can fail may fail (`OfferIo`). No other connection
comes in between here; `Sidevers.Net.StorageNode` has them interleaved, with
calls that succeed.
-/
import Sidevers.Core.EnvelopeWire
import Sidevers.Net.Chunking

namespace Sidevers.Net

open Sidevers.Core
open Sidevers.Lib
open Cbor

-- ============================================================= framing

/-- Why `recv_envelope` fails. -/
inductive RecvError where
  /-- The stream ended first, or failed. -/
  | readExact
  | tooLarge (e : EnvelopeTooLarge)
  | core (e : Core.Error)
  deriving DecidableEq

/-- `recv_envelope`, on the bytes that arrive. -/
def recvEnvelope (crypto : Crypto) (stream : List UInt8) :
    Except RecvError SignedEnvelope := do
  if stream.length < 4 then
    throw .readExact
  let len := fromBeBytes (stream.take 4)
  if len = 0 ∨ maxEnvelopeLen < len.toNat then
    throw (.tooLarge ⟨len.toUInt32, UInt32.ofNat maxEnvelopeLen⟩)
  let rest := stream.drop 4
  if rest.length < len.toNat then
    throw .readExact
  match SignedEnvelope.fromWireBytes crypto (rest.take len.toNat) with
  | .error e => throw (.core e)
  | .ok env => return env

-- =========================================================== the store

/-- Which of the calls under `put` fail. A write that fails leaves something at
the blob's path, or nothing. -/
structure PutIo where
  createDirAll : Bool
  write : Option (Option (List UInt8))
  insert : Bool

/-- None does. -/
def PutIo.fine : PutIo := ⟨false, none, false⟩

/-- What a write of the bytes leaves at the blob's path. -/
def PutIo.left (io : PutIo) (bytes : List UInt8) : Option (List UInt8) :=
  io.write.getD (some bytes)

namespace ObjectFiles

/-- `put`. -/
def putIo (crypto : Crypto) (io : PutIo) (s : ObjectFiles)
    (bytes : List UInt8) : Except StorageError (Bytes 32) × ObjectFiles :=
  let hash := crypto.blake3 bytes
  if bytes.length ≤ inlineMax then
    if io.insert then (.error .io, s)
    else (.ok hash, s.insertObject crypto bytes (some bytes) s.unixNow)
  else if io.createDirAll then (.error .io, s)
  else
    match io.write with
    | some left =>
        (.error .io, { s with blobs := Function.update s.blobs hash left })
    | none =>
        let s := s.writeBlob crypto bytes
        if io.insert then (.error .io, s)
        else (.ok hash, s.insertObject crypto bytes none s.unixNow)

end ObjectFiles

-- ======================================================= the exchange

/-- What a Storage session writes: `services.store` and
`services.provenance`. -/
structure StorageServices where
  store : ObjectFiles
  provenance : PublisherTable

/-- What the handler meets: a failure of `has`, one of the WANT on its way
out, what the peer sends after the offer, and the failures of `put`. -/
structure OfferIo where
  has : Bool
  want : Bool
  stream : List UInt8
  put : PutIo

/-- How the exchange ends. -/
inductive OfferEnd where
  /-- The offer does not decode. -/
  | offerUndecoded (e : Core.Error)
  /-- The WANT is not sent, and the session ends. -/
  | unsent
  | alreadyHave
  /-- No envelope follows. -/
  | noFollowUp (e : RecvError)
  | expectedHave (messageType : MessageType)
  | haveUndecoded (e : Core.Error)
  | hashMismatch
  | ingested
  | ingestedElsewhere (addr : Bytes 32)
  | ingestFailed (e : StorageError)
  deriving DecidableEq

namespace StorageServices

/-- Past the WANT: the HAVE, and what is stored of it. -/
def serveHave (crypto : Crypto) (io : OfferIo) (s : StorageServices)
    (peer : Address) (hash : Bytes 32) : OfferEnd × StorageServices :=
  match recvEnvelope crypto io.stream with
  | .error e => (.noFollowUp e, s)
  | .ok haveEnv =>
      if haveEnv.messageType ≠ .storageHave then
        (.expectedHave haveEnv.messageType, s)
      else
        match StorageHavePayload.decode haveEnv.payload with
        | .error e => (.haveUndecoded e, s)
        | .ok payload =>
            if payload.hash ≠ hash then (.hashMismatch, s)
            else
              let (result, store) := s.store.putIo crypto io.put payload.bytes
              let s := { s with store }
              match result with
              | .ok addr =>
                  if addr = hash then
                    (.ingested, { s with
                      provenance := s.provenance.notePublisher addr peer })
                  else (.ingestedElsewhere addr, s)
              | .error e => (.ingestFailed e, s)

/-- The STORAGE_OFFER arm of `serve_storage`: how it ends, the WANT it sends,
and what is written. -/
def serveOffer (crypto : Crypto) (io : OfferIo) (s : StorageServices)
    (env : SignedEnvelope) :
    OfferEnd × Option StorageWantPayload × StorageServices :=
  match StorageOfferPayload.decode env.payload with
  | .error e => (.offerUndecoded e, none, s)
  | .ok offer =>
      let hash := offer.reference.hash
      let alreadyHave := if io.has then false else s.store.has hash
      let want : StorageWantPayload := ⟨hash, !alreadyHave⟩
      if io.want then (.unsent, none, s)
      else if alreadyHave then (.alreadyHave, some want, s)
      else
        let (done, s) := s.serveHave crypto io env.fromSide hash
        (done, some want, s)

end StorageServices

end Sidevers.Net
