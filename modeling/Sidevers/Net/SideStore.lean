/-
The per-side database (`side_store.rs`): its tables, the statements the side
runs on them, and the column codecs.

# Rows

A table is keyed by its SQL primary key and a row holds the other columns
with their SQL types (`u64` values pass through `i64`, flags are integers,
capability sets are one text column). Column values are taken to come back
as they went in.

# Failing calls

Every call may fail. The store carries the schedule (`faults`: does the next
call fail?); a failed call changes nothing and returns its error. A store
whose schedule has no failure in it is `Healthy`.
-/
import Sidevers.Core.Profile
import Sidevers.Net.Error
import Sidevers.Net.Relationships

namespace Sidevers.Net

open Sidevers.Core
open Sidevers.Lib

-- =============================================================== rows

/-- `StoredSide`: a row of `sides` in memory. -/
structure StoredSide where
  address : Address
  seed : Bytes 32
  label : Option String
  createdAt : UInt64
  lifecycle : String
  lastSendAt : Option UInt64
  isSelfRetired : Bool

/-- A row of `sides`. -/
structure SideRow where
  seed : Bytes 32
  label : Option String
  createdAt : Int64
  lifecycle : String
  lastSendAt : Option Int64
  isSelfRetired : Int64

/-- A row of `profiles`. -/
structure ProfileRow where
  wireBytes : List UInt8
  updatedAt : Int64

/-- A row of `relationships`. -/
structure RelationshipRow where
  nickname : Option String
  introducedBy : Option Address
  capabilities : String
  notes : Option String
  pinned : Int64
  addedAt : Int64
  peerListenAddr : Option String

/-- A row of `co_holders`. -/
structure CoHolderRow where
  addedAt : Int64
  addedBy : Option Address

/-- A row of `co_holder_addrs`. -/
structure CoHolderAddrRow where
  dialAddr : String
  updatedAt : Int64

/-- The tables a side writes; the first component of a key is the side. -/
structure Tables where
  sides : Table Address SideRow
  profiles : Table Address ProfileRow
  retiredSidesSeen : Table (Address × Address) Int64
  relationships : Table (Address × Address) RelationshipRow
  coHolders : Table (Address × Address) CoHolderRow
  revokedDevices : Table (Address × Address) Int64
  coHolderAddrs : Table (Address × Address) CoHolderAddrRow

/-- A freshly migrated database. -/
def Tables.empty : Tables :=
  ⟨.empty, .empty, .empty, .empty, .empty, .empty, .empty⟩

/-- `SideStore`. -/
structure SideStore where
  tables : Tables
  /-- Which of the calls to come fail; calls past its end succeed. -/
  faults : List Bool

/-- A call of the store. -/
abbrev StoreM (α : Type) := ExceptT Error (StateM SideStore) α

namespace SideStore

/-- No call fails. -/
def Healthy (s : SideStore) : Prop := true ∉ s.faults

instance (s : SideStore) : Decidable s.Healthy :=
  inferInstanceAs (Decidable (true ∉ s.faults))

/-- A statement that writes. -/
def execute (update : Tables → Tables) : StoreM Unit := fun s =>
  match s.faults with
  | true :: rest => (.error (.sqlite "call failed"), ⟨s.tables, rest⟩)
  | _ => (.ok (), ⟨update s.tables, s.faults.tail⟩)

/-- A statement that reads. -/
def query {α : Type} (read : Tables → Except Error α) : StoreM α := fun s =>
  match s.faults with
  | true :: rest => (.error (.sqlite "call failed"), ⟨s.tables, rest⟩)
  | _ => (read s.tables, ⟨s.tables, s.faults.tail⟩)

/-- What a write leaves: one call less to come, and the update unless the
call failed. -/
theorem execute_snd (update : Tables → Tables) (s : SideStore) :
    (execute update s).2
      = ⟨if s.faults.head? = some true then s.tables else update s.tables,
          s.faults.tail⟩ := by
  obtain ⟨tables, faults⟩ := s
  rcases faults with _ | ⟨b, rest⟩
  · rfl
  · cases b <;> rfl

-- ======================================================= column codecs

/-- `as i64` on a flag. -/
def boolToI64 (b : Bool) : Int64 := if b then 1 else 0

/-- `!= 0`. -/
def i64ToBool (i : Int64) : Bool := i != 0

@[simp] theorem i64ToBool_boolToI64 (b : Bool) :
    i64ToBool (boolToI64 b) = b := by
  cases b <;> decide

/-- `encode_capabilities`: the tokens in set order, separated by newlines. -/
def encodeCapabilities (caps : BTreeSet String) : String :=
  String.ofList (List.intercalate ['\n'] (caps.keys.map String.toList))

/-- `decode_capabilities`. -/
def decodeCapabilities (s : String) : BTreeSet String :=
  if s = "" then BTreeMap.empty
  else BTreeSet.ofList ((s.toList.splitOn '\n').map String.ofList)

-- ============================================================== sides

/-- `upsert_side`: a conflict leaves `seed` and `created_at` alone. -/
def upsertSide (s : StoredSide) : StoreM Unit :=
  execute fun t =>
    let row : SideRow :=
      match t.sides s.address with
      | none =>
          { seed := s.seed, label := s.label
            createdAt := s.createdAt.toInt64, lifecycle := s.lifecycle
            lastSendAt := s.lastSendAt.map UInt64.toInt64
            isSelfRetired := boolToI64 s.isSelfRetired }
      | some old =>
          { old with
            label := s.label, lifecycle := s.lifecycle
            lastSendAt := s.lastSendAt.map UInt64.toInt64
            isSelfRetired := boolToI64 s.isSelfRetired }
    { t with sides := t.sides.insert s.address row }

/-- A row of `sides` read back. -/
def decodeSide (address : Address) (row : SideRow) : StoredSide where
  address := address
  seed := row.seed
  label := row.label
  createdAt := row.createdAt.toUInt64
  lifecycle := row.lifecycle
  lastSendAt := row.lastSendAt.map Int64.toUInt64
  isSelfRetired := i64ToBool row.isSelfRetired

/-- `load_side`. -/
def loadSide (address : Address) : StoreM (Option StoredSide) :=
  query fun t => .ok ((t.sides address).map (decodeSide address))

-- =========================================================== profiles

/-- `upsert_profile`. -/
def upsertProfile (side : Address) (p : ProfilePayload) : StoreM Unit :=
  execute fun t => { t with
    profiles := t.profiles.insert side
      ⟨p.toWireBytes, p.updatedAt.toInt64⟩ }

/-- The profile row parsed; it must still verify. -/
def profileOf (crypto : Crypto) (side : Address) (t : Tables) :
    Except Error (Option ProfilePayload) :=
  match t.profiles side with
  | none => .ok none
  | some row =>
      match ProfilePayload.fromWireBytes crypto row.wireBytes with
      | .ok p => .ok (some p)
      | .error e => .error (.core e)

/-- `load_profile`. -/
def loadProfile (crypto : Crypto) (side : Address) :
    StoreM (Option ProfilePayload) := query (profileOf crypto side)

/-- `delete_profile`. -/
def deleteProfile (side : Address) : StoreM Unit :=
  execute fun t => { t with profiles := t.profiles.erase side }

-- ================================================= retired_sides_seen

/-- `add_retired_seen`. -/
def addRetiredSeen (observer retired : Address) (observedAt : UInt64) :
    StoreM Unit :=
  execute fun t => { t with
    retiredSidesSeen := t.retiredSidesSeen.insertOrIgnore
      (observer, retired) observedAt.toInt64 }

/-- The keys of a side's rows. -/
def keysOf {V : Type} (t : Table (Address × Address) V) (side : Address) :
    Table Address Unit := fun k => (t (side, k)).map fun _ => ()

/-- `list_retired_seen`. -/
def listRetiredSeen (observer : Address) : StoreM (Table Address Unit) :=
  query fun t => .ok (keysOf t.retiredSidesSeen observer)

-- ====================================================== relationships

/-- `upsert_relationship`: a conflict updates every column but the key and
`added_at`. -/
def upsertRelationship (side : Address) (r : SideRelationship) :
    StoreM Unit :=
  execute fun t =>
    let addedAt := match t.relationships (side, r.address) with
      | none => r.addedAt.toInt64
      | some old => old.addedAt
    let row : RelationshipRow :=
      { nickname := r.nickname, introducedBy := r.introducedBy
        capabilities := encodeCapabilities r.capabilities
        notes := r.notes, pinned := boolToI64 r.pinned
        addedAt := addedAt, peerListenAddr := r.peerListenAddr }
    { t with
      relationships := t.relationships.insert (side, r.address) row }

/-- `delete_relationship`. -/
def deleteRelationship (side peer : Address) : StoreM Unit :=
  execute fun t =>
    { t with relationships := t.relationships.erase (side, peer) }

/-- A row of `relationships` read back. -/
def decodeRelationship (peer : Address) (row : RelationshipRow) :
    SideRelationship where
  address := peer
  nickname := row.nickname
  introducedBy := row.introducedBy
  capabilities := decodeCapabilities row.capabilities
  notes := row.notes
  pinned := i64ToBool row.pinned
  addedAt := row.addedAt.toUInt64
  peerListenAddr := row.peerListenAddr

/-- The relationships of a side, keyed by peer. -/
def relationshipsOf (side : Address) (t : Tables) : RelationshipTable :=
  fun peer => (t.relationships (side, peer)).map (decodeRelationship peer)

/-- `list_relationships`. -/
def listRelationships (side : Address) : StoreM RelationshipTable :=
  query fun t => .ok (relationshipsOf side t)

-- ========================================= co-holders, revoked devices

/-- `add_co_holder`: `INSERT OR REPLACE`. -/
def addCoHolder (side devicePubkey : Address) (addedAt : UInt64)
    (addedBy : Option Address) : StoreM Unit :=
  execute fun t => { t with
    coHolders := t.coHolders.insert (side, devicePubkey)
      ⟨addedAt.toInt64, addedBy⟩ }

/-- `remove_co_holder`. -/
def removeCoHolder (side devicePubkey : Address) : StoreM Unit :=
  execute fun t =>
    { t with coHolders := t.coHolders.erase (side, devicePubkey) }

/-- The co-holders of a side, keyed by device. -/
def coHoldersOf (side : Address) (t : Tables) :
    Table Address (UInt64 × Option Address) := fun dev =>
  (t.coHolders (side, dev)).map fun r => (r.addedAt.toUInt64, r.addedBy)

/-- `list_co_holders`. -/
def listCoHolders (side : Address) :
    StoreM (Table Address (UInt64 × Option Address)) :=
  query fun t => .ok (coHoldersOf side t)

/-- `add_revoked_device`. -/
def addRevokedDevice (side devicePubkey : Address) (revokedAt : UInt64) :
    StoreM Unit :=
  execute fun t => { t with
    revokedDevices := t.revokedDevices.insertOrIgnore
      (side, devicePubkey) revokedAt.toInt64 }

/-- `list_revoked_devices`. -/
def listRevokedDevices (side : Address) : StoreM (Table Address Unit) :=
  query fun t => .ok (keysOf t.revokedDevices side)

/-- `upsert_co_holder_addr`. -/
def upsertCoHolderAddr (side devicePubkey : Address) (dialAddr : String)
    (updatedAt : UInt64) : StoreM Unit :=
  execute fun t => { t with
    coHolderAddrs := t.coHolderAddrs.insert (side, devicePubkey)
      ⟨dialAddr, updatedAt.toInt64⟩ }

/-- `remove_co_holder_addr`. -/
def removeCoHolderAddr (side devicePubkey : Address) : StoreM Unit :=
  execute fun t =>
    { t with coHolderAddrs := t.coHolderAddrs.erase (side, devicePubkey) }

/-- The dial addresses of a side's co-holders, keyed by device. -/
def coHolderAddrsOf (side : Address) (t : Tables) : Table Address String :=
  fun dev => (t.coHolderAddrs (side, dev)).map CoHolderAddrRow.dialAddr

/-- `list_co_holder_addrs`. -/
def listCoHolderAddrs (side : Address) : StoreM (Table Address String) :=
  query fun t => .ok (coHolderAddrsOf side t)

end SideStore

end Sidevers.Net
