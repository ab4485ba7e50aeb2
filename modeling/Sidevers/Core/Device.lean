/-
Multi-device payloads (`messages/device.rs`, protocol spec §7.5): what
co-holding devices of one side send each other.

A payload here is one that decoded and whose signature verified against
`side`. `applied_at` is the stamp `StateDeltaPayload` carries for receivers.
-/
import Sidevers.Core.Envelope

namespace Sidevers.Core

/-- `RelationshipRecord`: the wire form of a relationship. -/
structure RelationshipRecord where
  address : Address
  nickname : Option String
  introducedBy : Option Address
  capabilities : List String
  notes : Option String
  pinned : Bool
  addedAt : UInt64
  deriving DecidableEq

/-- `DeltaOp`. -/
inductive DeltaOp where
  | profileUpdated (profileWire : List UInt8)
  | profileCleared
  | relationshipUpserted (record : RelationshipRecord)
  | relationshipRemoved (address : Address)
  | retiredObserved (address : Address)
  | lifecycleChanged (state : String)
  | coHolderAdded (devicePubkey : Address) (dialAddr : String)
  | coHolderRemoved (devicePubkey : Address)
  deriving DecidableEq

/-- `StateDeltaPayload`. -/
structure StateDeltaPayload where
  side : Address
  ops : List DeltaOp
  appliedAt : UInt64
  deriving DecidableEq

/-- `PairingRequestPayload`, without the key the bundle is sealed to. -/
structure PairingRequestPayload where
  side : Address
  devicePubkey : Address
  nonce : Bytes 16
  deriving DecidableEq

/-- `StateBundleInner`, without the seed: what the new device replays. -/
structure StateBundleInner where
  profileWire : Option (List UInt8)
  relationships : List RelationshipRecord
  retiredSides : List Address
  lifecycle : String
  coHolders : List Address
  deriving DecidableEq

/-- `DeviceRevokePayload`. -/
structure DeviceRevokePayload where
  side : Address
  devicePubkey : Address
  revokedAt : UInt64
  reason : Option String
  deriving DecidableEq

end Sidevers.Core
