/-
Per-side state (`side.rs`) and the co-holder operations of the node on it
(`node.rs`).

# Write-through

Every mutator writes the store and the memory. A failing store call is
logged and ignored (`persist`), so the memory is updated either way.

# Clock

`now` is the reading of `now_or_log_zero` (0 when the clock is
unavailable). It stamps local records only; `apply_delta` takes the delta's
own `applied_at` besides, and ignores it.
-/
import Sidevers.Net.SideStore

namespace Sidevers.Net

open Sidevers.Core
open Sidevers.Lib

/-- `CoHolderRecord`. -/
structure CoHolderRecord where
  devicePubkey : Address
  addedAt : UInt64
  addedBy : Option Address
  deriving DecidableEq

/-- `PendingPairing`. -/
structure PendingPairing where
  issuedAt : UInt64

/-- `PAIRING_TTL_SECS`. -/
def pairingTtlSecs : UInt64 := 90

/-- `SideKey`: the seed and the public key derived from it. -/
structure SideKey where
  seed : Bytes 32
  publicBytes : Address

/-- `Side`. -/
structure Side where
  address : Address
  label : Option String
  createdAt : UInt64
  keypair : SideKey
  profile : Option ProfilePayload
  retiredSidesSeen : Table Address Unit
  relationships : RelationshipTable
  lifecycle : SideLifecycle
  lastSendAt : Option UInt64
  isSelfRetired : Bool
  coHolders : Table Address CoHolderRecord
  revokedDevices : Table Address Unit
  pendingPairings : Table (Bytes 16) PendingPairing
  coHolderAddrs : Table Address String
  store : SideStore

namespace Side

-- ==================================================== load or create

/-- The row of a fresh side. -/
def freshRow (key : SideKey) (label : Option String) (now : UInt64) :
    StoredSide where
  address := key.publicBytes
  seed := key.seed
  label := label
  createdAt := now
  lifecycle := "Created"
  lastSendAt := none
  isSelfRetired := false

/-- The defaults of a fresh side. -/
def fresh (key : SideKey) (label : Option String) (now : UInt64)
    (store : SideStore) : Side where
  address := key.publicBytes
  label := label
  createdAt := now
  keypair := key
  profile := none
  retiredSidesSeen := .empty
  relationships := .empty
  lifecycle := .created
  lastSendAt := none
  isSelfRetired := false
  coHolders := .empty
  revokedDevices := .empty
  pendingPairings := .empty
  coHolderAddrs := .empty
  store := store

/-- The co-holder records of the rows read. -/
def coHolderRecords (rows : Table Address (UInt64 × Option Address)) :
    Table Address CoHolderRecord :=
  fun dev => (rows dev).map fun r => ⟨dev, r.1, r.2⟩

/-- `Side::load_or_create`, as a sequence of store calls. -/
def loadOrCreateM (crypto : Crypto) (key : SideKey) (label : Option String)
    (now : UInt64) : StoreM Side := do
  let address := key.publicBytes
  match ← SideStore.loadSide address with
  | some row =>
      let profile ← SideStore.loadProfile crypto address
      let retired ← SideStore.listRetiredSeen address
      let relationships ← SideStore.listRelationships address
      let coHolders ← SideStore.listCoHolders address
      let revoked ← SideStore.listRevokedDevices address
      let coHolderAddrs ← SideStore.listCoHolderAddrs address
      return {
        address := address, label := row.label, createdAt := row.createdAt
        keypair := key, profile := profile, retiredSidesSeen := retired
        relationships := relationships
        lifecycle := parseLifecycle row.lifecycle
        lastSendAt := row.lastSendAt, isSelfRetired := row.isSelfRetired
        coHolders := coHolderRecords coHolders, revokedDevices := revoked
        pendingPairings := .empty, coHolderAddrs := coHolderAddrs
        store := ← get }
  | none =>
      SideStore.upsertSide (freshRow key label now)
      return fresh key label now (← get)

/-- `Side::load_or_create`. -/
def loadOrCreate (crypto : Crypto) (key : SideKey) (label : Option String)
    (now : UInt64) (store : SideStore) : Except Error Side :=
  (loadOrCreateM crypto key label now store).1

/-- A store call whose error is logged and dropped. -/
def persist (s : Side) (call : StoreM Unit) : Side :=
  { s with store := (call s.store).2 }

section persist

variable (s : Side) (c : StoreM Unit)

@[simp] theorem persist_address :
    (s.persist c).address = s.address := rfl

@[simp] theorem persist_keypair :
    (s.persist c).keypair = s.keypair := rfl

@[simp] theorem persist_profile :
    (s.persist c).profile = s.profile := rfl

@[simp] theorem persist_retiredSidesSeen :
    (s.persist c).retiredSidesSeen = s.retiredSidesSeen := rfl

@[simp] theorem persist_relationships :
    (s.persist c).relationships = s.relationships := rfl

@[simp] theorem persist_lifecycle :
    (s.persist c).lifecycle = s.lifecycle := rfl

@[simp] theorem persist_lastSendAt :
    (s.persist c).lastSendAt = s.lastSendAt := rfl

@[simp] theorem persist_isSelfRetired :
    (s.persist c).isSelfRetired = s.isSelfRetired := rfl

@[simp] theorem persist_coHolders :
    (s.persist c).coHolders = s.coHolders := rfl

@[simp] theorem persist_revokedDevices :
    (s.persist c).revokedDevices = s.revokedDevices := rfl

@[simp] theorem persist_coHolderAddrs :
    (s.persist c).coHolderAddrs = s.coHolderAddrs := rfl

end persist

/-- Writing through touches the store only: the update happened, or the call
failed and nothing did. -/
theorem persist_execute (s : Side) (update : Tables → Tables) :
    ∃ t, (t = s.store.tables ∨ t = update s.store.tables)
      ∧ s.persist (SideStore.execute update)
          = { s with store := ⟨t, s.store.faults.tail⟩ } := by
  unfold persist
  rw [SideStore.execute_snd]
  split
  · exact ⟨_, Or.inl rfl, rfl⟩
  · exact ⟨_, Or.inr rfl, rfl⟩

/-- When the next call succeeds, the update happened. -/
theorem persist_execute_of_ok {s : Side} (update : Tables → Tables)
    (h : s.store.faults.head? ≠ some true) :
    s.persist (SideStore.execute update)
      = { s with store := ⟨update s.store.tables, s.store.faults.tail⟩ } := by
  unfold persist
  rw [SideStore.execute_snd, if_neg h]

-- ========================================== profile, retired, contacts

/-- `set_profile`. -/
def setProfile (s : Side) (p : ProfilePayload) : Side :=
  { s.persist (SideStore.upsertProfile s.address p) with profile := some p }

/-- `mark_retired_seen`. -/
def markRetiredSeen (s : Side) (retired : Address) (now : UInt64) : Side :=
  { s.persist (SideStore.addRetiredSeen s.address retired now) with
    retiredSidesSeen := s.retiredSidesSeen.insert retired () }

/-- `add_relationship`. -/
def addRelationship (s : Side) (r : SideRelationship) : Side :=
  { s.persist (SideStore.upsertRelationship s.address r) with
    relationships := s.relationships.put r }

/-- `remove_relationship`. -/
def removeRelationship (s : Side) (addr : Address) : Side :=
  { s.persist (SideStore.deleteRelationship s.address addr) with
    relationships := s.relationships.erase addr }

/-- `update_relationship`: the closure runs on the memory's entry, and what
it left is written under the address it left. -/
def updateRelationship (s : Side) (addr : Address)
    (f : SideRelationship → SideRelationship) :
    Option SideRelationship × Side :=
  match s.relationships addr with
  | none => (none, s)
  | some before =>
      let (changed, relationships) := RelationshipTable.update s.relationships addr f
      let s := { s with relationships }
      if changed then
        match s.relationships addr with
        | some after =>
            (some before,
              s.persist (SideStore.upsertRelationship s.address after))
        | none => (some before, s)
      else (some before, s)

-- =========================================================== lifecycle

/-- `persist_last_send_and_lifecycle`: the whole row, from the memory. -/
def persistLastSendAndLifecycle (s : Side) (last : Option UInt64)
    (lifecycle : SideLifecycle) : Side :=
  s.persist (SideStore.upsertSide
    { address := s.address, seed := s.keypair.seed, label := s.label
      createdAt := s.createdAt, lifecycle := lifecycleLabel lifecycle
      lastSendAt := last, isSelfRetired := s.isSelfRetired })

/-- `persist_lifecycle`. -/
def persistLifecycle (s : Side) (state : SideLifecycle) : Side :=
  s.persistLastSendAndLifecycle s.lastSendAt state

/-- `persist_side_row`. -/
def persistSideRow (s : Side) : Side :=
  s.persistLastSendAndLifecycle s.lastSendAt s.lifecycle

/-- `set_lifecycle`. -/
def setLifecycle (s : Side) (state : SideLifecycle) : Side :=
  ({ s with lifecycle := state }).persistLifecycle state

/-- `refresh_lifecycle`. -/
def refreshLifecycle (s : Side) (now : UInt64) : Side :=
  if s.lifecycle = .retired then s
  else s.setLifecycle (SideLifecycle.derive s.lastSendAt false now)

/-- `touch_send`: stamp, and `Created` becomes `Active`. -/
def touchSend (s : Side) (now : UInt64) : Side :=
  let lifecycle := if s.lifecycle = .created then .active else s.lifecycle
  ({ s with lastSendAt := some now, lifecycle }).persistLastSendAndLifecycle
    (some now) lifecycle

/-- `set_self_retired`. -/
def setSelfRetired (s : Side) : Side :=
  (({ s with isSelfRetired := true }).setLifecycle .retired).persistSideRow

-- ========================================================== co-holders

/-- `add_co_holder`. -/
def addCoHolder (s : Side) (devicePubkey : Address)
    (addedBy : Option Address) (now : UInt64) : Side :=
  { s.persist (SideStore.addCoHolder s.address devicePubkey now addedBy) with
    coHolders := s.coHolders.insert devicePubkey
      ⟨devicePubkey, now, addedBy⟩ }

/-- `remove_co_holder`. -/
def removeCoHolder (s : Side) (devicePubkey : Address) : Side :=
  { s.persist (SideStore.removeCoHolder s.address devicePubkey) with
    coHolders := s.coHolders.erase devicePubkey }

/-- `add_revoked_device`. -/
def addRevokedDevice (s : Side) (devicePubkey : Address) (now : UInt64) :
    Side :=
  { s.persist (SideStore.addRevokedDevice s.address devicePubkey now) with
    revokedDevices := s.revokedDevices.insert devicePubkey () }

/-- `add_pending_pairing`. -/
def addPendingPairing (s : Side) (nonce : Bytes 16) (now : UInt64) : Side :=
  { s with pendingPairings := s.pendingPairings.insert nonce ⟨now⟩ }

/-- `take_pending_pairing`: stale entries are swept first. -/
def takePendingPairing (s : Side) (nonce : Bytes 16) (now : UInt64) :
    Option PendingPairing × Side :=
  let live : Table (Bytes 16) PendingPairing := fun n =>
    (s.pendingPairings n).filter fun p =>
      decide (saturatingSub now p.issuedAt < pairingTtlSecs)
  (live nonce, { s with pendingPairings := live.erase nonce })

/-- `record_co_holder_addr`. -/
def recordCoHolderAddr (s : Side) (devicePubkey : Address)
    (dialAddr : String) (now : UInt64) : Side :=
  { s.persist (SideStore.upsertCoHolderAddr s.address devicePubkey dialAddr
      now) with
    coHolderAddrs := s.coHolderAddrs.insert devicePubkey dialAddr }

/-- The removal of a co-holder's address, in memory and in the store. -/
def dropCoHolderAddr (s : Side) (devicePubkey : Address) : Side :=
  { s.persist (SideStore.removeCoHolderAddr s.address devicePubkey) with
    coHolderAddrs := s.coHolderAddrs.erase devicePubkey }

-- ============================================================= deltas

/-- `ProfileCleared`: the memory first, then the row. -/
def clearProfile (s : Side) : Side :=
  ({ s with profile := none }).persist (SideStore.deleteProfile s.address)

/-- The profile arm of `apply_delta`: newer or equal `updated_at` wins. -/
def applyProfile (s : Side) (p : ProfilePayload) : Side :=
  match s.profile with
  | some cur => if p.updatedAt ≥ cur.updatedAt then s.setProfile p else s
  | none => s.setProfile p

/-- The upsert arm of `apply_delta`: newer or equal `added_at` wins. -/
def applyUpsert (s : Side) (rel : SideRelationship) : Side :=
  match s.relationships rel.address with
  | some e => if rel.addedAt ≥ e.addedAt then s.addRelationship rel else s
  | none => s.addRelationship rel

/-- `Side::apply_delta`. -/
def applyDelta (crypto : Crypto) (s : Side) (op : DeltaOp)
    (_appliedAt now : UInt64) : Side :=
  match op with
  | .profileUpdated wire =>
      match ProfilePayload.fromWireBytes crypto wire with
      | .ok p => s.applyProfile p
      | .error _ => s
  | .profileCleared => s.clearProfile
  | .relationshipUpserted rec => s.applyUpsert (relationshipFromRecord rec)
  | .relationshipRemoved addr => s.removeRelationship addr
  | .retiredObserved addr => s.markRetiredSeen addr now
  | .lifecycleChanged state =>
      -- retirement of the side itself is sticky
      if s.isSelfRetired then s else s.setLifecycle (parseLifecycle state)
  | .coHolderAdded dev dial =>
      if dev = s.address then s
      else if (s.revokedDevices dev).isSome then s
      else (s.addCoHolder dev none now).recordCoHolderAddr dev dial now
  | .coHolderRemoved dev =>
      ((s.removeCoHolder dev).addRevokedDevice dev now).dropCoHolderAddr dev

/-- A delta's ops in order; `clock i` is the reading at the `i`th. -/
def applyOps (crypto : Crypto) (appliedAt : UInt64) (clock : Nat → UInt64) :
    Side → List DeltaOp → Side
  | s, [] => s
  | s, op :: rest =>
      applyOps crypto appliedAt (fun i => clock (i + 1))
        (s.applyDelta crypto op appliedAt (clock 0)) rest

-- ===================================== the node's operations on a side

/-- `STATE_DELTA` in `serve_direct`. -/
def handleStateDelta (crypto : Crypto) (s : Side) (delta : StateDeltaPayload)
    (clock : Nat → UInt64) : Side :=
  if delta.side ≠ s.address then s
  else s.applyOps crypto delta.appliedAt clock delta.ops

/-- `DEVICE_REVOKE` in `serve_direct`. -/
def handleDeviceRevoke (s : Side) (record : DeviceRevokePayload)
    (now : UInt64) : Side :=
  if record.side ≠ s.address then s
  else (s.addRevokedDevice record.devicePubkey now).removeCoHolder
    record.devicePubkey

/-- `Node::revoke_co_holder`; it fails without a clock reading. -/
def revokeCoHolder (s : Side) (devicePubkey : Address)
    (reason : Option String) (clock : Option UInt64) :
    Except Error DeviceRevokePayload × Side :=
  match clock with
  | none => (.error (.core (.invariant "system clock before unix epoch")), s)
  | some now =>
      (.ok ⟨s.address, devicePubkey, now, reason⟩,
        (s.addRevokedDevice devicePubkey now).removeCoHolder devicePubkey)

/-- `DEVICE_PAIRING_REQUEST` in `serve_direct`: the nonce is the consent
token, and the device is recorded once the state bundle went out
(`bundleSent`). -/
def handlePairingRequest (s : Side) (req : PairingRequestPayload)
    (bundleSent : Bool) (now : UInt64) : Side :=
  if req.side ≠ s.address then s
  else
    let (pending, s) := s.takePendingPairing req.nonce now
    match pending with
    | none => s
    | some _ =>
        if bundleSent then
          s.addCoHolder req.devicePubkey (some s.address) now
        else s

/-- `publish_retirement`: nothing without a clock reading. -/
def publishRetirement (s : Side) (clock : Option UInt64) : Side :=
  match clock with
  | none => s
  | some _ => s.setSelfRetired

/-- `retire_side`, on the side it looked up. -/
def retireSide (s : Side) (clock : Option UInt64) : Side :=
  match clock with
  | none => s
  | some _ => s.setLifecycle .retired

/-- A loop over items; `clock i` is the reading at the `i`th. -/
def forEach {α : Type} (f : Side → α → UInt64 → Side) :
    Side → List α → (Nat → UInt64) → Side
  | s, [], _ => s
  | s, item :: rest, clock =>
      forEach f (f s item (clock 0)) rest fun i => clock (i + 1)

/-- The replay of a bundle in `accept_pairing`, up to its lifecycle; a bad
profile ends it. `clock` has the readings of the two loops that take them. -/
def replayBundle (crypto : Crypto) (s : Side) (bundle : StateBundleInner)
    (devicePubkey : Address) (clock : Nat → Nat → UInt64) :
    Except Core.Error Unit × Side :=
  match bundle.profileWire.mapM (ProfilePayload.fromWireBytes crypto) with
  | .error e => (.error e, s)
  | .ok profile =>
      let s := match profile with
        | some p => s.setProfile p
        | none => s
      let s := s.forEach (fun s rec _ =>
        s.addRelationship (relationshipFromRecord rec)) bundle.relationships
        (clock 0)
      let s := s.forEach markRetiredSeen bundle.retiredSides (clock 0)
      let s := s.forEach (fun s dev now =>
        if dev = devicePubkey then s else s.addCoHolder dev none now)
        bundle.coHolders (clock 1)
      (.ok (), s)

/-- `accept_pairing` on the side it added: the replay, the lifecycle as the
bundle has it, and the existing device as a co-holder. -/
def installBundle (crypto : Crypto) (s : Side) (bundle : StateBundleInner)
    (devicePubkey existing : Address) (dialAddr : String)
    (clock : Nat → Nat → UInt64) (now : UInt64) :
    Except Core.Error Unit × Side :=
  match s.replayBundle crypto bundle devicePubkey clock with
  | (.error e, s) => (.error e, s)
  | (.ok (), s) =>
      let s := s.setLifecycle (parseLifecycle bundle.lifecycle)
      (.ok (), (s.recordCoHolderAddr existing dialAddr now).addCoHolder
        existing (some devicePubkey) now)

/-- What `push_delta_to_co_holders` dials for a device: the recorded
address, whether or not the device is in the co-holder set. -/
def pushTarget (s : Side) (devicePubkey : Address) : Option String :=
  s.coHolderAddrs devicePubkey

end Side

end Sidevers.Net
