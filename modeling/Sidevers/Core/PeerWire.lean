/-
The wire forms of what nodes ask of each other (`messages/peer.rs`,
`messages/rendezvous.rs`, `messages/forward.rs`): peer exchange, rendezvous,
and store-and-forward.
-/
import Sidevers.Core.VerseWire

namespace Sidevers.Core

open Cbor

-- ========================================================== peer exchange

/-- An integer that must fit a byte. -/
def readU8 : Read UInt8 := do
  let v ← readU64
  if v > 0xFF then
    let n := v.toNat
    throw (.cborDecode s!"intent out of u8: {n}")
  return v.toUInt8

/-- An integer that fits a byte. -/
def encodeU8 (b : UInt8) : List UInt8 := uint b.toUInt64

/-- `PeerAskPayload`. -/
structure PeerAskPayload where
  limit : UInt64
  intentFilter : Option UInt8
  deriving DecidableEq

namespace PeerAskPayload

/-- `encode`. -/
def encode (p : PeerAskPayload) : List UInt8 :=
  encodeMap
    [⟨key "limit", uint p.limit⟩,
     ⟨key "intent_filter", ProfilePayload.orNull encodeU8 p.intentFilter⟩]

def readFields : Read PeerAskPayload := do
  expectEntries 2 fun n => s!"PeerAsk expected 2 keys, got {n}"
  expectKey "limit" "expected 'limit' first"
  let limit ← readU64
  expectKey "intent_filter" "expected 'intent_filter' second"
  let intentFilter ← readOrNull "missing intent_filter" readU8
  return { limit, intentFilter }

/-- `decode`. -/
def decode (wire : List UInt8) : Except Error PeerAskPayload :=
  readFields.value wire

end PeerAskPayload

/-- `PeerInfo`. -/
structure PeerInfo where
  address : Address
  intents : List UInt8
  endpoints : List String
  lastSeen : UInt64
  deriving DecidableEq

namespace PeerInfo

/-- `encode`. -/
def encode (p : PeerInfo) : List UInt8 :=
  encodeMap
    [⟨key "address", bytes p.address.val⟩,
     ⟨key "intents", encodeArray encodeU8 p.intents⟩,
     ⟨key "endpoints", encodeArray text p.endpoints⟩,
     ⟨key "last_seen", uint p.lastSeen⟩]

/-- The key every field is introduced by. -/
def expectField (want : String) : Read Unit :=
  expectKey want "PeerInfo keys not in canonical order"

/-- `decode_from`. -/
def decodeFrom : Read PeerInfo := do
  expectEntries 4 fun n => s!"PeerInfo expected 4 keys, got {n}"
  expectField "address"
  let address ← readExact "address" 32
  expectField "intents"
  let intents ← readArray readU8
  expectField "endpoints"
  let endpoints ← readArray readText
  expectField "last_seen"
  let lastSeen ← readU64
  return { address, intents, endpoints, lastSeen }

end PeerInfo

/-- `PeerTellPayload`. -/
structure PeerTellPayload where
  peers : List PeerInfo
  deriving DecidableEq

namespace PeerTellPayload

/-- `encode`. -/
def encode (p : PeerTellPayload) : List UInt8 :=
  encodeMap [⟨key "peers", encodeArray PeerInfo.encode p.peers⟩]

def readFields : Read PeerTellPayload := do
  expectEntries 1 fun n => s!"PeerTell expected 1 key, got {n}"
  expectKey "peers" "expected 'peers'"
  let peers ← readArray PeerInfo.decodeFrom
  return { peers }

/-- `decode`. -/
def decode (wire : List UInt8) : Except Error PeerTellPayload :=
  readFields.value wire

end PeerTellPayload

-- ============================================================= rendezvous

/-- `RendezvousPayload`. -/
structure RendezvousPayload where
  target : Address
  deriving DecidableEq

namespace RendezvousPayload

/-- `encode`. -/
def encode (p : RendezvousPayload) : List UInt8 :=
  encodeMap [⟨key "target", bytes p.target.val⟩]

def readFields : Read RendezvousPayload := do
  expectEntries 1 fun n => s!"Rendezvous expected 1 key, got {n}"
  expectKey "target" "expected 'target'"
  let target ← readExact "target" 32
  return { target }

/-- `decode`. -/
def decode (wire : List UInt8) : Except Error RendezvousPayload :=
  readFields.value wire

end RendezvousPayload

/-- `RendezvousAckPayload`. -/
structure RendezvousAckPayload where
  target : Address
  endpoints : List String
  deriving DecidableEq

namespace RendezvousAckPayload

/-- `encode`. -/
def encode (p : RendezvousAckPayload) : List UInt8 :=
  encodeMap
    [⟨key "target", bytes p.target.val⟩,
     ⟨key "endpoints", encodeArray text p.endpoints⟩]

def readFields : Read RendezvousAckPayload := do
  expectEntries 2 fun n => s!"RendezvousAck expected 2 keys, got {n}"
  expectKey "target" "expected 'target' first"
  let target ← readExact "target" 32
  expectKey "endpoints" "expected 'endpoints' second"
  let endpoints ← readArray readText
  return { target, endpoints }

/-- `decode`. -/
def decode (wire : List UInt8) : Except Error RendezvousAckPayload :=
  readFields.value wire

end RendezvousAckPayload

-- ====================================================== store-and-forward

/-- `ForwardStorePayload`. -/
structure ForwardStorePayload where
  envelope : List UInt8
  recipient : Address
  ttlSecs : UInt64
  deriving DecidableEq

namespace ForwardStorePayload

/-- `encode`. -/
def encode (p : ForwardStorePayload) : List UInt8 :=
  encodeMap
    [⟨key "envelope", bytes p.envelope⟩,
     ⟨key "ttl_secs", uint p.ttlSecs⟩,
     ⟨key "recipient", bytes p.recipient.val⟩]

def readFields : Read ForwardStorePayload := do
  expectEntries 3 fun n => s!"ForwardStore expected 3 keys, got {n}"
  expectKey "envelope" "expected 'envelope' first"
  let envelope ← readBytes
  expectKey "ttl_secs" "expected 'ttl_secs' second"
  let ttlSecs ← readU64
  expectKey "recipient" "expected 'recipient' third"
  let recipient ← readExact "recipient" 32
  return { envelope, recipient, ttlSecs }

/-- `decode`. -/
def decode (wire : List UInt8) : Except Error ForwardStorePayload :=
  readFields.value wire

end ForwardStorePayload

/-- `ForwardDeliverPayload`. -/
structure ForwardDeliverPayload where
  envelope : List UInt8
  storedAt : UInt64
  deriving DecidableEq

namespace ForwardDeliverPayload

/-- `encode`. -/
def encode (p : ForwardDeliverPayload) : List UInt8 :=
  encodeMap
    [⟨key "envelope", bytes p.envelope⟩,
     ⟨key "stored_at", uint p.storedAt⟩]

def readFields : Read ForwardDeliverPayload := do
  expectEntries 2 fun n => s!"ForwardDeliver expected 2 keys, got {n}"
  expectKey "envelope" "expected 'envelope' first"
  let envelope ← readBytes
  expectKey "stored_at" "expected 'stored_at' second"
  let storedAt ← readU64
  return { envelope, storedAt }

/-- `decode`. -/
def decode (wire : List UInt8) : Except Error ForwardDeliverPayload :=
  readFields.value wire

end ForwardDeliverPayload

end Sidevers.Core
