/-
A new device takes over a side (`accept_pairing` and `add_side` in `node.rs`).

Whatever the network does is an input: how the dial ends, the bytes that
arrive on the request's stream, whether the new endpoint comes up. Opening the
sealed state (`payload::open`) and the public key of a seed are parameters.
The delta pushed back to the existing device at the end changes nothing here.

The hosted sides are known by their addresses, in the order they were added;
the state of the one that is added is the `Side` that comes back. What replays
the bundle on it is in `Sidevers.Net.Side`.
-/
import Sidevers.Core.Qr
import Sidevers.Core.RecordWire
import Sidevers.Net.Ingest
import Sidevers.Net.Serving

namespace Sidevers.Net

open Sidevers.Core
open Sidevers.Lib
open Cbor

/-- `payload::open`: ciphertext, recipient, sender's key, nonce, and associated
data. -/
abbrev OpenSealed (crypto : Crypto) :=
  List UInt8 → Signer crypto → Address → Bytes keyNonceLen → List UInt8 →
    Except Core.Error (List UInt8)

/-- Why `accept_pairing` fails. -/
inductive AcceptError where
  | recv (e : RecvError)
  | net (e : Error)
  deriving DecidableEq

/-- What a call meets. -/
structure AcceptIo (crypto : Crypto) where
  /-- The fresh device key. -/
  deviceKey : Signer crypto
  /-- How it ends up to the request: the key, the dial, the handshake. -/
  requested : Except Error Unit
  /-- What arrives on the stream before it ends or fails, if that is within
  ten seconds. -/
  stream : Option (List UInt8)
  /-- `build_server_endpoint` and its address. -/
  endpoint : Except Error Unit
  created : UInt64
  clock : Nat → Nat → UInt64
  now : UInt64

/-- The node of the new device: the sides it hosts, and its side store. -/
structure NewDevice where
  hosted : List Address
  store : SideStore

/-- The binding checks, the opening of the state and the check of its seed:
what a bundle brings, and the key of its side. -/
def openBundle {crypto : Crypto} (openSealed : OpenSealed crypto)
    (publicOf : Bytes 32 → Address) (qr : PairingQr)
    (deviceKey : Signer crypto) (bundle : SignedStateBundle) :
    Except Error (SideKey × SeededStateBundle) := do
  let side : Address := qr.side
  if bundle.side ≠ side then
    throw (.invariant "accept_pairing: bundle.side != qr.side")
  if bundle.recipientDevice ≠ deviceKey.publicBytes then
    throw (.invariant "accept_pairing: recipient mismatch")
  if bundle.nonce ≠ qr.nonce then
    throw (.invariant "accept_pairing: nonce mismatch")
  match openSealed bundle.sealedState deviceKey side bundle.keyNonce
      stateBundleAad with
  | .error e => throw (.core e)
  | .ok innerBytes =>
      match SeededStateBundle.decode innerBytes with
      | .error e => throw (.core e)
      | .ok inner =>
          let newSideKey : SideKey := ⟨inner.sideSeed, publicOf inner.sideSeed⟩
          if newSideKey.publicBytes ≠ side then
            throw (.invariant
              "accept_pairing: bundle seed produces wrong pubkey")
          return (newSideKey, inner)

/-- Everything before the side is installed. -/
def awaitBundle {crypto : Crypto} (openSealed : OpenSealed crypto)
    (publicOf : Bytes 32 → Address) (io : AcceptIo crypto) (qr : PairingQr) :
    Except AcceptError (SideKey × SeededStateBundle) :=
  match io.requested with
  | .error e => .error (.net e)
  | .ok () =>
      match io.stream with
      | none =>
          .error (.net (.invariant "accept_pairing: bundle wait timeout"))
      | some stream =>
          match recvEnvelope crypto stream with
          | .error e => .error (.recv e)
          | .ok resp =>
              if resp.messageType ≠ .deviceStateBundle then
                .error (.net (.invariant
                  "accept_pairing: expected DEVICE_STATE_BUNDLE"))
              else
                match SignedStateBundle.fromWireBytes crypto resp.payload with
                | .error e => .error (.net (.core e))
                | .ok bundle =>
                    (openBundle openSealed publicOf qr io.deviceKey
                      bundle).mapError .net

namespace NewDevice

/-- `add_side`: hosted already or not, the side is one more. -/
def addSide (crypto : Crypto) (n : NewDevice) (endpoint : Except Error Unit)
    (key : SideKey) (label : String) (now : UInt64) :
    Except Error Side × NewDevice :=
  match endpoint with
  | .error e => (.error e, n)
  | .ok () =>
      match Side.loadOrCreateM crypto key (some label) now n.store with
      | (.error e, store) => (.error e, { n with store })
      | (.ok side, store) => (.ok side, ⟨n.hosted ++ [side.address], store⟩)

/-- `accept_pairing`. -/
def acceptPairing {crypto : Crypto} (openSealed : OpenSealed crypto)
    (publicOf : Bytes 32 → Address) (n : NewDevice) (io : AcceptIo crypto)
    (qr : PairingQr) : Except AcceptError Side × NewDevice :=
  match awaitBundle openSealed publicOf io qr with
  | .error e => (.error e, n)
  | .ok (newSideKey, inner) =>
      match n.addSide crypto io.endpoint newSideKey "joined" io.created with
      | (.error e, n) => (.error (.net e), n)
      | (.ok side, n) =>
          match side.installBundle crypto inner.toStateBundleInner
            io.deviceKey.publicBytes qr.side qr.dialAddr io.clock io.now with
          | (.error e, side) =>
              (.error (.net (.core e)), { n with store := side.store })
          | (.ok (), side) => (.ok side, { n with store := side.store })

end NewDevice

-- ==================================================== the existing device

/-- What a node answers from is its side's state; the sides seen retired are
the ones the store lists. -/
structure ServingNode.Shows {crypto : Crypto} (n : ServingNode crypto)
    (s : Side) : Prop where
  profile : n.profile = s.profile
  lifecycle : n.lifecycle = s.lifecycle
  relationships : ∀ r, r ∈ n.relationships ↔ ∃ a, s.relationships a = some r
  retiredSeen : ∀ a, a ∈ n.retiredSeen
    ↔ SideStore.keysOf s.store.tables.retiredSidesSeen s.address a ≠ none

/-- The bundle is what the existing device builds of the side. -/
def BuiltFrom (crypto : Crypto) (existing : Side) (inner : SeededStateBundle) :
    Prop :=
  ∃ (n : ServingNode crypto) (now : UInt64),
    n.Shows existing ∧ inner = n.buildStateBundleInner now

end Sidevers.Net
