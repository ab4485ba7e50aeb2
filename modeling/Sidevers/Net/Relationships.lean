/-
Local relationships and the lifecycle of a side (`relationships.rs`,
protocol spec §7.4 and §7.8).
-/
import Sidevers.Core.Device
import Sidevers.Lib.BTreeMap
import Sidevers.Lib.Table
import Mathlib.Data.String.Basic

namespace Sidevers.Net

open Sidevers.Core
open Sidevers.Lib

/-- `SideRelationship`. An empty capability set means *block*. -/
structure SideRelationship where
  address : Address
  nickname : Option String
  introducedBy : Option Address
  capabilities : BTreeSet String
  notes : Option String
  pinned : Bool
  addedAt : UInt64
  /-- Last-known endpoint; never on the wire. -/
  peerListenAddr : Option String
  deriving DecidableEq

/-- `RelationshipTable`: keyed by the contact's address. -/
abbrev RelationshipTable := Table Address SideRelationship

/-- `RelationshipTable::insert`: overwrites by address. -/
def RelationshipTable.put (t : RelationshipTable) (r : SideRelationship) :
    RelationshipTable := Table.insert t r.address r

/-- `RelationshipTable::update`: mutates in place under the lock; `true` iff
the entry existed. -/
def RelationshipTable.update (t : RelationshipTable) (address : Address)
    (f : SideRelationship → SideRelationship) : Bool × RelationshipTable :=
  match t address with
  | some r => (true, Table.insert t address (f r))
  | none => (false, t)

/-- `relationship_from_record`. -/
def relationshipFromRecord (rec : RelationshipRecord) : SideRelationship where
  address := rec.address
  nickname := rec.nickname
  introducedBy := rec.introducedBy
  capabilities := BTreeSet.ofList rec.capabilities
  notes := rec.notes
  pinned := rec.pinned
  addedAt := rec.addedAt
  peerListenAddr := none

/-- `SideLifecycle`. -/
inductive SideLifecycle where
  | created
  | active
  | dormant
  | retired
  deriving DecidableEq, Repr

/-- `DORMANT_AFTER_SECS`. -/
def dormantAfterSecs : UInt64 := 90 * 24 * 3600

/-- `u64::saturating_sub`. -/
def saturatingSub (x y : UInt64) : UInt64 := if x < y then 0 else x - y

/-- `SideLifecycle::derive`. -/
def SideLifecycle.derive (lastSendAt : Option UInt64) (retired : Bool)
    (now : UInt64) : SideLifecycle :=
  if retired then .retired
  else match lastSendAt with
    | none => .created
    | some ts =>
        if saturatingSub now ts < dormantAfterSecs then .active else .dormant

/-- `lifecycle_label`. -/
def lifecycleLabel : SideLifecycle → String
  | .created => "Created"
  | .active => "Active"
  | .dormant => "Dormant"
  | .retired => "Retired"

/-- `parse_lifecycle`; the match of `apply_delta` on a lifecycle state is the
same function: unknown labels read as `Created`. -/
def parseLifecycle (s : String) : SideLifecycle :=
  if s = "Active" then .active
  else if s = "Dormant" then .dormant
  else if s = "Retired" then .retired
  else .created

@[simp] theorem parseLifecycle_label (l : SideLifecycle) :
    parseLifecycle (lifecycleLabel l) = l := by
  cases l <;> decide

end Sidevers.Net
