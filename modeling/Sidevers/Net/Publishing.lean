/-
How a hosted side comes by its profile (`side.rs`, `node.rs`), and what a peer
makes of the profile it publishes (`fetch_profile`, the PROFILE_DELIVER arm of
`serve_direct`).

A step is one op of a delta, or one whole bundle: what else happens to a side
has no part in its profile. A delta and a bundle come from a holder of the
side's key, their own signatures verified. `Sidevers.Net.Serving` has the
answer itself (`profileFetch`).
-/
import Sidevers.Net.Ingest
import Sidevers.Net.Serving

namespace Sidevers.Net

open Sidevers.Core
open Sidevers.Lib

-- ======================================================== the other end

/-- Why `fetch_profile` fails, past its request. -/
inductive FetchError where
  | recv (e : RecvError)
  | core (e : Core.Error)
  | invariant (msg : String)
  deriving DecidableEq

/-- `fetch_profile`, on what arrives in answer. -/
def fetchProfile (crypto : Crypto) (target : Address) (stream : List UInt8) :
    Except FetchError ProfilePayload :=
  match recvEnvelope crypto stream with
  | .error e => .error (.recv e)
  | .ok resp =>
      if resp.messageType ≠ .profileDeliver then
        .error (.invariant "expected PROFILE_DELIVER")
      else
        match ProfilePayload.fromWireBytes crypto resp.payload with
        | .error e => .error (.core e)
        | .ok profile =>
            if profile.side ≠ target then
              .error (.invariant "PROFILE_DELIVER: profile.side != target")
            else if profile.side ≠ resp.fromSide then
              .error (.invariant "PROFILE_DELIVER: profile.side != env.from")
            else .ok profile

/-- PROFILE_DELIVER: what is surfaced. -/
def profileDelivered (crypto : Crypto) (env : SignedEnvelope) :
    Option ProfilePayload :=
  match ProfilePayload.fromWireBytes crypto env.payload with
  | .error _ => none
  | .ok profile => if profile.side ≠ env.fromSide then none else some profile

-- ============================================================ the steps

/-- What can happen to a profile. -/
inductive ProfileAction where
  | setLocalProfile (profile : ProfilePayload)
  | applyDelta (op : DeltaOp) (appliedAt now : UInt64)
  | acceptPairing (bundle : StateBundleInner) (devicePubkey existing : Address)
      (dialAddr : String) (clock : Nat → Nat → UInt64) (now : UInt64)
  /-- The node restarts and loads the side. -/
  | reload (label : Option String) (now : UInt64)

/-- Signed by the side it names. -/
def ProfileSigned (crypto : Crypto) (p : ProfilePayload) : Prop :=
  crypto.verify p.side (crypto.blake3 p.encodeUnsigned) p.signature = .ok ()

instance (crypto : Crypto) (p : ProfilePayload) :
    Decidable (ProfileSigned crypto p) :=
  inferInstanceAs (Decidable (_ = _))

/-- One step. A profile set locally is one the side signed, its wire form a
`Vec`; a load may fail. -/
def profileStep (crypto : Crypto) (s : Side) : ProfileAction → Option Side
  | .setLocalProfile p =>
      if p.side = s.address ∧ ProfileSigned crypto p
          ∧ p.toWireBytes.length < 2 ^ 64 then
        some (s.setProfile p)
      else none
  | .applyDelta op appliedAt now =>
      some (s.applyDelta crypto op appliedAt now)
  | .acceptPairing bundle devicePubkey existing dialAddr clock now =>
      some (s.installBundle crypto bundle devicePubkey existing dialAddr clock
        now).2
  | .reload label now =>
      match Side.loadOrCreate crypto s.keypair label now s.store with
      | .ok s' => some s'
      | .error _ => none

end Sidevers.Net
