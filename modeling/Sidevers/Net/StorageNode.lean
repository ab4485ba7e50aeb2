/-
The Storage connections of a node (`serve_storage` in `node.rs`), which share
its object store and its publisher table.

# Steps

A connection handles one envelope at a time; any number of connections are at
it at once. A handler is cut where it awaits: a call of the object store or of
the publisher table is one step, and so is an answer that is sent. The lookup
before an unpin is one step with it: objects stay. `Endpoint.serveStorage` is
a handler undisturbed (`Proofs.StorageSteps`).

A call of the object store may fail: a lookup that does counts as not finding
the object, a failed `put` is as good as a HAVE that did not come, and nothing
is unpinned. The gate comes before all this; what it drops is not here.

# What is recorded

`events` is what a peer's offers and retracts came to. A retract counts as
handled when the node takes the peer off the list of publishers, or finds that
it is not on it.
-/
import Sidevers.Lib.Run
import Sidevers.Net.Endpoint

namespace Sidevers.Net

open Sidevers.Core
open Sidevers.Lib

/-- A STORAGE_OFFER that a connection reads, numbered. -/
structure StorageOffer where
  number : Nat
  peer : Address
  hash : Bytes 32
  deriving DecidableEq

/-- What a connection is about to do next, past reading an envelope. -/
inductive StorageTask where
  /-- Answer the offer: `has` has returned. -/
  | asked (offer : StorageOffer) (alreadyHave : Bool)
  /-- Read the HAVE: the WANT is sent. -/
  | wanted (offer : StorageOffer)
  /-- `note_publisher`: `put` has returned the offer's hash. -/
  | ingested (offer : StorageOffer)
  /-- `drop_publisher`: `has_publisher` has returned true. -/
  | published (hash : Bytes 32) (peer : Address)
  /-- `unpin`: `drop_publisher` has returned false. -/
  | emptied (hash : Bytes 32)
  deriving DecidableEq

/-- What came of an envelope. -/
inductive StorageEvent where
  /-- The WANT is sent. -/
  | answered (offer : StorageOffer) (want : Bool)
  /-- A wanted object did not come. -/
  | failed (offer : StorageOffer)
  | retracted (peer : Address) (hash : Bytes 32)
  | unpinned (hash : Bytes 32)
  deriving DecidableEq

/-- The store, the table, and the connections at work, by number. -/
structure StorageNode where
  store : ObjectStore
  provenance : PublisherTable
  tasks : Table Nat StorageTask
  offers : Nat
  events : List StorageEvent

/-- After a start: the store persists, the table does not. -/
def StorageNode.init (store : ObjectStore) : StorageNode :=
  ⟨store, .empty, .empty, 0, []⟩

/-- What can happen. `conn` is the connection that goes on. -/
inductive StorageAction where
  /-- It reads a STORAGE_OFFER and looks the object up, or fails to. -/
  | storageOffer (conn : Nat) (peer : Address) (hash : Bytes 32)
      (looked : Bool)
  /-- It sends the WANT, or fails to. -/
  | sendWant (conn : Nat) (sent : Bool)
  /-- It reads the message that follows, if one is read and decodes, and stores
  the bytes, or fails to. -/
  | storageHave (conn : Nat) (followUp : Option StorageHavePayload)
      (stored : Bool)
  | notePublisher (conn : Nat)
  /-- It reads a STORAGE_RETRACT and looks the publisher up. -/
  | storageRetract (conn : Nat) (peer : Address) (hash : Bytes 32)
  | dropPublisher (conn : Nat)
  /-- It looks the object up and unpins it, or one of the two fails. -/
  | unpin (conn : Nat) (done : Bool)
  /-- The node's owner stores or pins an object. -/
  | ownPut (bytes : List UInt8)
  | ownPin (hash : Bytes 32)

/-- `publishers`. -/
def PublisherTable.publishers (t : PublisherTable) (hash : Bytes 32) :
    Finset Address := (t hash).getD ∅

/-- `pin`. -/
def ObjectStore.pin (store : ObjectStore) (hash : Bytes 32) : ObjectStore :=
  match store hash with
  | some (bytes, _) => store.insert hash (bytes, true)
  | none => store

namespace StorageNode

/-- The connection goes on to its next await. -/
def goOn (w : StorageNode) (conn : Nat) (task : StorageTask) : StorageNode :=
  { w with tasks := w.tasks.insert conn task }

/-- The envelope is handled, or the connection gone. -/
def finish (w : StorageNode) (conn : Nat) : StorageNode :=
  { w with tasks := w.tasks.erase conn }

/-- One event more. -/
def record (w : StorageNode) (event : StorageEvent) : StorageNode :=
  { w with events := w.events ++ [event] }

end StorageNode

/-- The effect of an action, `none` when it is not enabled. -/
def storageStep (crypto : Crypto) (w : StorageNode) :
    StorageAction → Option StorageNode
  | .storageOffer conn peer hash looked =>
      match w.tasks conn with
      | some _ => none
      | none => some { w.goOn conn
          (.asked ⟨w.offers, peer, hash⟩ (looked && (w.store hash).isSome)) with
        offers := w.offers + 1 }
  | .sendWant conn sent =>
      match w.tasks conn with
      | some (.asked offer alreadyHave) =>
          if !sent then some (w.finish conn)
          else
            let w := w.record (.answered offer (!alreadyHave))
            if alreadyHave then some (w.finish conn)
            else some (w.goOn conn (.wanted offer))
      | _ => none
  | .storageHave conn followUp stored =>
      match w.tasks conn with
      | some (.wanted offer) =>
          match followUp with
          | none => some ((w.record (.failed offer)).finish conn)
          | some payload =>
              if payload.hash ≠ offer.hash ∨ stored = false then
                some ((w.record (.failed offer)).finish conn)
              else
                let w := { w with store := w.store.put crypto payload.bytes }
                if crypto.blake3 payload.bytes = offer.hash then
                  some (w.goOn conn (.ingested offer))
                else some ((w.record (.failed offer)).finish conn)
      | _ => none
  | .notePublisher conn =>
      match w.tasks conn with
      | some (.ingested offer) =>
          some { w.finish conn with
            provenance := w.provenance.notePublisher offer.hash offer.peer }
      | _ => none
  | .storageRetract conn peer hash =>
      match w.tasks conn with
      | some _ => none
      | none =>
          if w.provenance.hasPublisher hash peer then
            some (w.goOn conn (.published hash peer))
          else some (w.record (.retracted peer hash))
  | .dropPublisher conn =>
      match w.tasks conn with
      | some (.published hash peer) =>
          let (othersRemain, provenance) :=
            w.provenance.dropPublisher hash peer
          let w := { w.record (.retracted peer hash) with provenance }
          if othersRemain then some (w.finish conn)
          else some (w.goOn conn (.emptied hash))
      | _ => none
  | .unpin conn done =>
      match w.tasks conn with
      | some (.emptied hash) =>
          if done && (w.store hash).isSome then
            some { (w.record (.unpinned hash)).finish conn with
              store := w.store.unpin hash }
          else some (w.finish conn)
      | _ => none
  | .ownPut bytes => some { w with store := w.store.put crypto bytes }
  | .ownPin hash => some { w with store := w.store.pin hash }

end Sidevers.Net
