/-
The signed envelope (protocol spec §3), as a receiver sees it once
`from_wire_bytes` has parsed it and verified its signature.

# What is kept

`from_side` is the verified signer, `to_side` the addressee field, and the
payload is a parameter: each component instantiates it with the payloads it
decodes. The protocol version (always 1 after parsing) and the signature
bytes are left out: a value of `Envelope` stands for an envelope whose
signature verified, and who can make one is said where an adversary is
modelled.
-/
import Sidevers.Core.Bytes

namespace Sidevers.Core

universe u

/-- `DEFAULT_MAX_SKEW_SECS`. -/
def defaultMaxSkewSecs : Nat := 300

/-- `SOFT_MAX_SKEW_SECS`: accepted with a warning up to here. -/
def softMaxSkewSecs : Nat := 900

-- ====================================================== message types

/-- Spec §3.5 ranges. -/
inductive MessageCategory where
  | reserved
  | handshake
  | direct
  | storage
  | discovery
  | verse
  | «public»
  | future
  | extension
  deriving DecidableEq, Repr

/-- Message type tag; one byte on the wire. -/
structure MessageType where
  /-- The wire byte. -/
  byte : UInt8
  deriving DecidableEq, Repr

namespace MessageType

def hello : MessageType := ⟨0x10⟩
def helloBack : MessageType := ⟨0x11⟩
def confirm : MessageType := ⟨0x12⟩

def directMessage : MessageType := ⟨0x20⟩
def directReceipt : MessageType := ⟨0x21⟩
def directTyping : MessageType := ⟨0x22⟩
def profileFetch : MessageType := ⟨0x23⟩
def profileDeliver : MessageType := ⟨0x24⟩
def sideRetirement : MessageType := ⟨0x25⟩
def devicePairingRequest : MessageType := ⟨0x26⟩
def deviceStateBundle : MessageType := ⟨0x27⟩
def deviceRevoke : MessageType := ⟨0x28⟩
def stateDelta : MessageType := ⟨0x29⟩
def linkagePublish : MessageType := ⟨0x2A⟩

def storageGet : MessageType := ⟨0x30⟩
def storageHave : MessageType := ⟨0x31⟩
def storageMiss : MessageType := ⟨0x32⟩
def storageOffer : MessageType := ⟨0x33⟩
def storageWant : MessageType := ⟨0x34⟩
def storageRetract : MessageType := ⟨0x35⟩

def peerAsk : MessageType := ⟨0x40⟩
def peerTell : MessageType := ⟨0x41⟩
def rendezvous : MessageType := ⟨0x42⟩
def rendezvousAck : MessageType := ⟨0x43⟩
def forwardStore : MessageType := ⟨0x44⟩
def forwardDeliver : MessageType := ⟨0x45⟩

def contractFetch : MessageType := ⟨0x50⟩
def contractDeliver : MessageType := ⟨0x51⟩
def joinRequest : MessageType := ⟨0x52⟩
def joinAccept : MessageType := ⟨0x53⟩
def joinDecline : MessageType := ⟨0x54⟩
def verseLeave : MessageType := ⟨0x55⟩
def verseRemove : MessageType := ⟨0x56⟩
def versePost : MessageType := ⟨0x57⟩
def verseAmend : MessageType := ⟨0x58⟩
def verseReconsent : MessageType := ⟨0x59⟩

/-- `MessageType::category`. -/
def category (t : MessageType) : MessageCategory :=
  if t.byte ≤ 0x0F then .reserved
  else if t.byte ≤ 0x1F then .handshake
  else if t.byte ≤ 0x2F then .direct
  else if t.byte ≤ 0x3F then .storage
  else if t.byte ≤ 0x4F then .discovery
  else if t.byte ≤ 0x5F then .verse
  else if t.byte ≤ 0x6F then .public
  else if t.byte ≤ 0xEF then .future
  else .extension

end MessageType

-- ========================================================== envelopes

/-- A parsed and verified envelope. -/
structure Envelope (P : Type u) where
  messageType : MessageType
  /-- `from`: the verified signer. -/
  fromSide : Address
  /-- `to`: the addressee, absent on gossip. -/
  toSide : Option Address
  timestamp : Nat
  nonce : Nonce
  payload : P
  deriving DecidableEq

end Sidevers.Core
