/-
Pairing a device (`generate_pairing_qr`, DEVICE_PAIRING_REQUEST in
`serve_direct`).

Any number of calls and handlers are under way at once, each at its next
await: the lock of the pending pairings, or the building of the bundle. Both
read the clock before they wait for the lock. The clock is in nanoseconds; the
code sees whole seconds.

A handler begins here past the gates. What the bundle contains is what the
side's state is when it is built; sealing it (`payload::seal`) is a parameter.
The answer and the co-holder record come after, and are left out.
-/
import Sidevers.Core.DeviceWire
import Sidevers.Lib.Run
import Sidevers.Net.Side

namespace Sidevers.Net

open Sidevers.Core
open Sidevers.Lib

/-- `STATE_BUNDLE_AAD`. -/
def stateBundleAad : List UInt8 :=
  "sidevers/v1/device-state-bundle".toUTF8.data.toList

/-- Nanoseconds in a second. -/
def nanos : Nat := 1000000000

/-- `now_unix_seconds`. -/
def unixSeconds (clock : Nat) : UInt64 := UInt64.ofNat (clock / nanos)

/-- `payload::seal`: plaintext, sender, recipient's key, nonce, and associated
data. -/
abbrev Seal (crypto : Crypto) :=
  List UInt8 → Signer crypto → Bytes 32 → Bytes keyNonceLen → List UInt8 →
    Except Error (List UInt8)

/-- A call or a handler at its next await. -/
inductive PairingTask (crypto : Crypto) where
  /-- `add_pending_pairing`, at the lock. -/
  | insert (side : Address) (nonce : Bytes 16) (issuedAt : UInt64)
  /-- A DEVICE_PAIRING_REQUEST that came to an endpoint. -/
  | request (sideKey : Signer crypto) (payload : List UInt8)
  /-- `take_pending_pairing`, at the lock. -/
  | take (sideKey : Signer crypto) (req : SignedPairingRequest) (now : UInt64)
  /-- `build_state_bundle_inner`. -/
  | bundle (sideKey : Signer crypto) (req : SignedPairingRequest)

/-- What is recorded. -/
inductive PairingEvent where
  /-- `random_nonce` for a QR. -/
  | generated (side : Address) (nonce : Bytes 16) (clock : Nat)
  | arrived (side : Address) (payload : List UInt8) (clock : Nat)
  /-- A bundle is sealed to an X25519 key, and signed. -/
  | sealed (recipient : Bytes 32) (bundle : SignedStateBundle)
  deriving DecidableEq

/-- The hosted sides by address, and what is under way. -/
structure PairingNode (crypto : Crypto) where
  clock : Nat
  sides : Address → Side
  tasks : List (PairingTask crypto)
  log : List PairingEvent

/-- A node that starts: no pairing survives a restart. -/
def PairingNode.init {crypto : Crypto} (clock : Nat)
    (sides : Address → Side) : PairingNode crypto :=
  ⟨clock, fun side => { sides side with pendingPairings := .empty }, [], []⟩

/-- What can happen. -/
inductive PairingAction (crypto : Crypto) where
  | advance (nanoseconds : Nat)
  /-- `generate_pairing_qr`, with the nonce it draws. -/
  | generatePairingQr (side : Address) (nonce : Bytes 16)
  | receive (sideKey : Signer crypto) (payload : List UInt8)
  /-- A task goes on. -/
  | resume (i : Nat)
  /-- A bundle is built, unless the store fails; so may the random nonce. -/
  | bundle (i : Nat) (inner : Option SeededStateBundle)
      (keyNonce : Option (Bytes keyNonceLen))

namespace PairingNode

variable {crypto : Crypto}

/-- A hosted side changes. -/
def setSide (w : PairingNode crypto) (address : Address) (side : Side) :
    PairingNode crypto :=
  { w with sides := Function.update w.sides address side }

/-- A task more. -/
def spawn (w : PairingNode crypto) (task : PairingTask crypto) :
    PairingNode crypto := { w with tasks := task :: w.tasks }

/-- An event more. -/
def record (w : PairingNode crypto) (event : PairingEvent) :
    PairingNode crypto := { w with log := w.log ++ [event] }

/-- A task up to its next await. -/
def resume (w : PairingNode crypto) :
    PairingTask crypto → PairingNode crypto
  | .insert side nonce issuedAt =>
      w.setSide side ((w.sides side).addPendingPairing nonce issuedAt)
  | .request sideKey payload =>
      match SignedPairingRequest.fromWireBytes crypto payload with
      | .error _ => w
      | .ok req =>
          if req.side ≠ sideKey.publicBytes then w
          else w.spawn (.take sideKey req (unixSeconds w.clock))
  | .take sideKey req now =>
      let taken := (w.sides sideKey.publicBytes).takePendingPairing
        req.nonce now
      let w := w.setSide sideKey.publicBytes taken.2
      if taken.1.isNone then w else w.spawn (.bundle sideKey req)
  | .bundle _ _ => w

/-- The bundle for a request whose nonce was taken. -/
def releaseBundle (sealTo : Seal crypto) (w : PairingNode crypto)
    (sideKey : Signer crypto) (req : SignedPairingRequest)
    (inner : Option SeededStateBundle)
    (keyNonce : Option (Bytes keyNonceLen)) : PairingNode crypto :=
  match inner, keyNonce with
  | some inner, some keyNonce =>
      match sealTo inner.encode sideKey req.deviceX25519Pubkey keyNonce
        stateBundleAad with
      | .error _ => w
      | .ok sealedState =>
          w.record (.sealed req.deviceX25519Pubkey
            (.sign sideKey req.devicePubkey req.nonce keyNonce sealedState))
  | _, _ => w

end PairingNode

/-- The effect of an action, `none` when it is not enabled. The clock's
seconds fit a `u64`. -/
def pairingStep (crypto : Crypto) (sealTo : Seal crypto)
    (w : PairingNode crypto) :
    PairingAction crypto → Option (PairingNode crypto)
  | .advance nanoseconds =>
      if (w.clock + nanoseconds) / nanos < UInt64.size then
        some { w with clock := w.clock + nanoseconds }
      else none
  | .generatePairingQr side nonce =>
      some ((w.record (.generated side nonce w.clock)).spawn
        (.insert side nonce (unixSeconds w.clock)))
  | .receive sideKey payload =>
      some ((w.record (.arrived sideKey.publicBytes payload w.clock)).spawn
        (.request sideKey payload))
  | .resume i =>
      match w.tasks[i]? with
      | none => none
      | some (.bundle _ _) => none
      | some task =>
          some ({ w with tasks := w.tasks.eraseIdx i }.resume task)
  | .bundle i inner keyNonce =>
      match w.tasks[i]? with
      | some (.bundle sideKey req) =>
          some ({ w with tasks := w.tasks.eraseIdx i }.releaseBundle sealTo
            sideKey req inner keyNonce)
      | _ => none

end Sidevers.Net
