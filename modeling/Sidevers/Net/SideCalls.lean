/-
Calls on one side that are under way at once (`set_profile`, the profile ops
of `apply_delta`, the relationship and co-holder mutators).

A call is at its next await: a statement of the store, or a section under the
lock of a table in memory. Most write the store first and the memory after;
`update_relationship` writes the memory, reads it again, and then the store;
`ProfileCleared` writes the memory first and keeps its lock until the store
has followed. What a call does by itself is in `Sidevers.Net.Side`.

Which call wrote an entry last, in the memory and in the store, is recorded
beside the side (`memoryBy`, `storeBy`); no step reads it.
-/
import Sidevers.Lib.Run
import Sidevers.Net.Side

namespace Sidevers.Net

open Sidevers.Core
open Sidevers.Lib

/-- An entry that the memory and the store both hold. -/
inductive Cell where
  | profile
  | relationship (peer : Address)
  | coHolder (device : Address)
  deriving DecidableEq

/-- A write that goes to both. -/
inductive CellWrite where
  | putProfile (p : ProfilePayload)
  | clearProfile
  | putRelationship (r : SideRelationship)
  | dropRelationship (peer : Address)
  | putCoHolder (r : CoHolderRecord)
  | dropCoHolder (device : Address)

namespace CellWrite

/-- Where it goes. -/
def cell : CellWrite → Cell
  | .putProfile _ | .clearProfile => .profile
  | .putRelationship r => .relationship r.address
  | .dropRelationship peer => .relationship peer
  | .putCoHolder r => .coHolder r.devicePubkey
  | .dropCoHolder device => .coHolder device

/-- The statement of the store. -/
def toStore (s : Side) : CellWrite → Side
  | .putProfile p => s.persist (SideStore.upsertProfile s.address p)
  | .clearProfile => s.persist (SideStore.deleteProfile s.address)
  | .putRelationship r => s.persist (SideStore.upsertRelationship s.address r)
  | .dropRelationship peer =>
      s.persist (SideStore.deleteRelationship s.address peer)
  | .putCoHolder r => s.persist (SideStore.addCoHolder s.address
      r.devicePubkey r.addedAt r.addedBy)
  | .dropCoHolder device =>
      s.persist (SideStore.removeCoHolder s.address device)

/-- The section under the lock of the table in memory. -/
def toMemory (s : Side) : CellWrite → Side
  | .putProfile p => { s with profile := some p }
  | .clearProfile => { s with profile := none }
  | .putRelationship r => { s with relationships := s.relationships.put r }
  | .dropRelationship peer =>
      { s with relationships := s.relationships.erase peer }
  | .putCoHolder r =>
      { s with coHolders := s.coHolders.insert r.devicePubkey r }
  | .dropCoHolder device =>
      { s with coHolders := s.coHolders.erase device }

end CellWrite

/-- A call at its next await. -/
inductive SideCall where
  /-- At the store, the memory to follow. -/
  | storeFirst (write : CellWrite)
  | memorySecond (write : CellWrite)
  /-- `ProfileUpdated`, at the profile it compares with. -/
  | profileUpdated (p : ProfilePayload)
  | profileCleared
  /-- At the store, with the lock of the profile. -/
  | profileClearing
  | updateRelationship (peer : Address)
      (f : SideRelationship → SideRelationship)
  | relationshipUpdating (peer : Address)
      (f : SideRelationship → SideRelationship)
  | relationshipUpdated (peer : Address)
  | relationshipPersisting (peer : Address) (after : SideRelationship)
  | done

/-- The calls. The clock of `add_co_holder` is read at its start. -/
inductive SideRequest where
  | setProfile (p : ProfilePayload)
  | profileUpdated (profileWire : List UInt8)
  | profileCleared
  | addRelationship (r : SideRelationship)
  | removeRelationship (peer : Address)
  | updateRelationship (peer : Address)
      (f : SideRelationship → SideRelationship)
  | addCoHolder (device : Address) (addedBy : Option Address)
      (addedAt : UInt64)
  | removeCoHolder (device : Address)

/-- A call up to its first await. -/
def SideRequest.begin (crypto : Crypto) : SideRequest → SideCall
  | .setProfile p => .storeFirst (.putProfile p)
  | .profileUpdated profileWire =>
      match ProfilePayload.fromWireBytes crypto profileWire with
      | .ok p => .profileUpdated p
      | .error _ => .done
  | .profileCleared => .profileCleared
  | .addRelationship r => .storeFirst (.putRelationship r)
  | .removeRelationship peer => .storeFirst (.dropRelationship peer)
  | .updateRelationship peer f => .updateRelationship peer f
  | .addCoHolder device addedBy addedAt =>
      .storeFirst (.putCoHolder ⟨device, addedAt, addedBy⟩)
  | .removeCoHolder device => .storeFirst (.dropCoHolder device)

/-- Does it have the lock of the profile across an await? -/
def SideCall.locksProfile : SideCall → Bool
  | .profileClearing => true
  | _ => false

/-- The side, and the calls in the order they began. -/
structure SideCalls where
  side : Side
  calls : List SideCall
  memoryBy : Cell → Option Nat
  storeBy : Cell → Option Nat

/-- No call has begun. -/
def SideCalls.start (side : Side) : SideCalls :=
  ⟨side, [], fun _ => none, fun _ => none⟩

/-- What can happen. -/
inductive SideCallsAction where
  | begin (request : SideRequest)
  /-- A call goes on. -/
  | resume (i : Nat)

namespace SideCalls

/-- Is the lock of the profile taken? -/
def profileLocked (w : SideCalls) : Bool := w.calls.any SideCall.locksProfile

/-- A call comes to its next await. -/
def goOn (w : SideCalls) (i : Nat) (call : SideCall) : SideCalls :=
  { w with calls := w.calls.set i call }

/-- A call has written an entry of the memory. -/
def memoryWritten (w : SideCalls) (i : Nat) (cell : Cell) (side : Side) :
    SideCalls :=
  { w with side, memoryBy := Function.update w.memoryBy cell (some i) }

/-- A call writes an entry of the memory. -/
def writeMemory (w : SideCalls) (i : Nat) (write : CellWrite) : SideCalls :=
  w.memoryWritten i write.cell (write.toMemory w.side)

/-- A call writes an entry of the store. -/
def writeStore (w : SideCalls) (i : Nat) (write : CellWrite) : SideCalls :=
  { w with
    side := write.toStore w.side
    storeBy := Function.update w.storeBy write.cell (some i) }

/-- A call up to its next await, `none` while it waits for a lock. -/
def resume (w : SideCalls) (i : Nat) : SideCall → Option SideCalls
  | .storeFirst write =>
      some ((w.writeStore i write).goOn i (.memorySecond write))
  | .memorySecond write =>
      if write.cell = .profile ∧ w.profileLocked then none
      else some ((w.writeMemory i write).goOn i .done)
  | .profileUpdated p =>
      if w.profileLocked then none
      else
        let shouldApply := match w.side.profile with
          | some current => decide (p.updatedAt ≥ current.updatedAt)
          | none => true
        if shouldApply then some (w.goOn i (.storeFirst (.putProfile p)))
        else some (w.goOn i .done)
  | .profileCleared =>
      if w.profileLocked then none
      else some ((w.writeMemory i .clearProfile).goOn i .profileClearing)
  | .profileClearing =>
      some ((w.writeStore i .clearProfile).goOn i .done)
  | .updateRelationship peer f =>
      match w.side.relationships peer with
      | none => some (w.goOn i .done)
      | some _ => some (w.goOn i (.relationshipUpdating peer f))
  | .relationshipUpdating peer f =>
      let (changed, relationships) :=
        RelationshipTable.update w.side.relationships peer f
      if changed then
        some ((w.memoryWritten i (.relationship peer)
          { w.side with relationships }).goOn i (.relationshipUpdated peer))
      else some (w.goOn i .done)
  | .relationshipUpdated peer =>
      match w.side.relationships peer with
      | some after => some (w.goOn i (.relationshipPersisting peer after))
      | none => some (w.goOn i .done)
  | .relationshipPersisting _ after =>
      some ((w.writeStore i (.putRelationship after)).goOn i .done)
  | .done => none

end SideCalls

/-- The effect of an action, `none` when it is not enabled. -/
def sideCallsStep (crypto : Crypto) (w : SideCalls) :
    SideCallsAction → Option SideCalls
  | .begin request =>
      some { w with calls := w.calls ++ [request.begin crypto] }
  | .resume i =>
      match w.calls[i]? with
      | none => none
      | some call => w.resume i call

end Sidevers.Net
