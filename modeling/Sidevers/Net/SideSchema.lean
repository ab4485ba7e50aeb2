/-
The schema of the per-side database and its migrations (`side_store.rs`,
`run_migrations` and the `SCHEMA_…` batches).

An open is the statements it runs, one after the other; the version read
between the first and the others picks them. `stopped` is what a process that
stops between two of them leaves on disk.
-/
import Sidevers.Lib.Sql

namespace Sidevers.Net

open Sidevers.Lib
open Lib.Sql

-- ============================================================ the tables

namespace SideSchema

/-- A column that may be null. -/
def nullable (name type : String) : Column := ⟨name, type, false, .null⟩

/-- `NOT NULL`. -/
def required (name type : String) : Column := ⟨name, type, true, .null⟩

/-- `INTEGER NOT NULL DEFAULT 0`. -/
def flag (name : String) : Column := ⟨name, "INTEGER", true, .integer 0⟩

/-- `REFERENCES sides(address) ON DELETE CASCADE`. -/
def ofSide (column : String) : Reference := ⟨column, "sides", "address"⟩

/-- `SCHEMA_VERSION`. -/
def schemaVersion : Int := 5

def versionTable : TableDef where
  columns := [required "version" "INTEGER"]
  primaryKey := []
  references := []

def sides : TableDef where
  columns :=
    [nullable "address" "BLOB", required "seed" "BLOB", nullable "label" "TEXT",
     required "created_at" "INTEGER", required "lifecycle" "TEXT",
     nullable "last_send_at" "INTEGER", flag "is_self_retired"]
  primaryKey := ["address"]
  references := []

def profiles : TableDef where
  columns :=
    [nullable "side_address" "BLOB", required "wire_bytes" "BLOB",
     required "updated_at" "INTEGER"]
  primaryKey := ["side_address"]
  references := [ofSide "side_address"]

def retiredSidesSeen : TableDef where
  columns :=
    [required "observer_address" "BLOB", required "retired_address" "BLOB",
     required "observed_at" "INTEGER"]
  primaryKey := ["observer_address", "retired_address"]
  references := [ofSide "observer_address"]

/-- `relationships` as version 1 has it. -/
def relationships : TableDef where
  columns :=
    [required "side_address" "BLOB", required "peer_address" "BLOB",
     nullable "nickname" "TEXT", nullable "introduced_by" "BLOB",
     required "capabilities" "TEXT", nullable "notes" "TEXT", flag "pinned",
     required "added_at" "INTEGER"]
  primaryKey := ["side_address", "peer_address"]
  references := [ofSide "side_address"]

def coHolders : TableDef where
  columns :=
    [required "side_address" "BLOB", required "device_pubkey" "BLOB",
     required "added_at" "INTEGER", nullable "added_by" "BLOB"]
  primaryKey := ["side_address", "device_pubkey"]
  references := [ofSide "side_address"]

def revokedDevices : TableDef where
  columns :=
    [required "side_address" "BLOB", required "device_pubkey" "BLOB",
     required "revoked_at" "INTEGER"]
  primaryKey := ["side_address", "device_pubkey"]
  references := [ofSide "side_address"]

def coHolderAddrs : TableDef where
  columns :=
    [required "side_address" "BLOB", required "device_pubkey" "BLOB",
     required "dial_addr" "TEXT", required "updated_at" "INTEGER"]
  primaryKey := ["side_address", "device_pubkey"]
  references := [ofSide "side_address"]

def settings : TableDef where
  columns := [required "key" "TEXT", required "value" "TEXT"]
  primaryKey := ["key"]
  references := []

/-- The column version 4 adds to `relationships`. -/
def peerListenAddr : Column := nullable "peer_listen_addr" "TEXT"

/-- `relationships` since version 4. -/
def relationshipsV4 : TableDef :=
  { relationships with columns := relationships.columns ++ [peerListenAddr] }

def verseMemberships : TableDef where
  columns :=
    [required "side_address" "BLOB", required "verse_address" "BLOB",
     required "contract_hash" "BLOB", required "membership_token" "BLOB",
     required "content_key" "BLOB", required "joined_at" "INTEGER",
     required "role" "TEXT", nullable "name" "TEXT",
     nullable "photo_hash" "BLOB", nullable "dial_addr" "TEXT",
     nullable "verse_seed" "BLOB", nullable "contract_wire" "BLOB"]
  primaryKey := ["side_address", "verse_address"]
  references := [ofSide "side_address"]

-- ======================================================== the migrations

/-- `SCHEMA_V1`. -/
def schemaV1 : List Statement :=
  [.createTable "sides" sides,
   .createTable "profiles" profiles,
   .createTable "retired_sides_seen" retiredSidesSeen,
   .createTable "relationships" relationships,
   .createTable "co_holders" coHolders,
   .createTable "revoked_devices" revokedDevices]

/-- `SCHEMA_V2_DELTA`. -/
def schemaV2Delta : List Statement :=
  [.createTable "co_holder_addrs" coHolderAddrs]

/-- `SCHEMA_V3_DELTA`. -/
def schemaV3Delta : List Statement := [.createTable "settings" settings]

/-- The one statement of `SCHEMA_V4_DELTA`. -/
def addListenAddr : Statement := .addColumn "relationships" peerListenAddr

/-- `SCHEMA_V4_DELTA`. -/
def schemaV4Delta : List Statement := [addListenAddr]

/-- `SCHEMA_V5_DELTA`. -/
def schemaV5Delta : List Statement :=
  [.createTable "verse_memberships" verseMemberships]

/-- The first statement of every open. -/
def createVersionTable : Statement :=
  .createTable "schema_version" versionTable

/-- The version is recorded for the first time. -/
def insertVersion : Statement :=
  .insert "schema_version" [.integer schemaVersion]

/-- The recorded version is replaced. -/
def updateVersion : Statement :=
  .update "schema_version" "version" (.integer schemaVersion)

/-- The statements for the version that was found. -/
def migration : Option Int → List Statement
  | none =>
      schemaV1 ++ schemaV2Delta ++ schemaV3Delta ++ schemaV4Delta
        ++ schemaV5Delta ++ [insertVersion]
  | some v =>
      if v < 2 then
        schemaV2Delta ++ schemaV3Delta ++ schemaV4Delta ++ schemaV5Delta
          ++ [updateVersion]
      else if v < 3 then
        schemaV3Delta ++ schemaV4Delta ++ schemaV5Delta ++ [updateVersion]
      else if v < 4 then schemaV4Delta ++ schemaV5Delta ++ [updateVersion]
      else if v < 5 then schemaV5Delta ++ [updateVersion]
      else []

/-- Why an open fails. -/
inductive OpenError where
  | sql (e : SqlError)
  /-- The recorded version is no integer. -/
  | invalidColumnType
  deriving DecidableEq

/-- `SELECT version FROM schema_version`. -/
def currentVersion (db : Database) : Except OpenError (Option Int) :=
  match queryColumn db "schema_version" "version" with
  | .error e => .error (.sql e)
  | .ok none => .ok none
  | .ok (some (.integer v)) => .ok (some v)
  | .ok (some _) => .error .invalidColumnType

/-- `run_migrations`, what `SideStore::open` does to the database. -/
def runMigrations (db : Database) : Except OpenError Database := do
  let db ← (exec db createVersionTable).mapError .sql
  let current ← currentVersion db
  (execBatch db (migration current)).mapError .sql

/-- The statements an open of the database runs, as far as it gets. -/
def openStatements (db : Database) : List Statement :=
  createVersionTable :: match exec db createVersionTable with
    | .error _ => []
    | .ok db => match currentVersion db with
      | .error _ => []
      | .ok current => migration current

/-- What an open leaves that stops after a number of statements. -/
def stopped (db : Database) (k : Nat) : Database :=
  onDisk db ((openStatements db).take k)

end SideSchema

end Sidevers.Net
