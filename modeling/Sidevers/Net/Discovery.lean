/-
The peer table (`peers.rs`) of a node, and what fills it.

# Sessions

An entry is made where a handshake returned a session (`handle_connection`,
`dial`, `dial_from`, `dial_pooled`), for the peer that the session names: the
clock is read for it, and the table's lock is taken after that, so that two
handshakes may write in the other order than they read. Whether a session is
returned is up to `InitiatorRun.readHelloBack` and `ResponderRun.readConfirm`:
a dial takes any HelloBack, so the peer it names need not be at the other end.

# The owner

`Node::peers` hands the table to whoever runs the node, who may insert, touch
and remove. What a peer tells in a PEER_TELL is returned to the caller and
written nowhere.

# What is left open

The table is a hash map: which of several entries with the least `last_seen`
it drops, and in which order it lists its entries (`Oldest`, `Lists`).

`log` is what was written, newest first; the code does not keep it.
-/
import Sidevers.Lib.Recency
import Sidevers.Net.Clients
import Sidevers.Net.Handshake

namespace Sidevers.Net

open Sidevers.Core
open Sidevers.Lib

/-- `DEFAULT_MAX_PEERS`. -/
def defaultMaxPeers : Nat := 256

/-- What the entries are compared by. -/
def seenAt (p : PeerInfo) : Nat := p.lastSeen.toNat

/-- `PeerTable`. -/
structure PeerTable where
  inner : Rows Address PeerInfo
  max : Nat

namespace PeerTable

/-- `new`. -/
def new (max : Nat) : PeerTable := ⟨.empty, max⟩

/-- `default`. -/
def default : PeerTable := new defaultMaxPeers

/-- `insert`. -/
def insert (oldest : Oldest Address seenAt) (t : PeerTable)
    (info : PeerInfo) : PeerTable :=
  { t with inner := oldest.note t.max t.inner info.address info }

/-- `touch`; the clock is read under the lock. -/
def touch (t : PeerTable) (address : Address) (now : UInt64) : PeerTable :=
  { t with inner := t.inner.update address fun p =>
      { p with lastSeen := now } }

/-- `get`. -/
def get (t : PeerTable) (address : Address) : Option PeerInfo :=
  t.inner.get address

/-- `remove`. -/
def remove (t : PeerTable) (address : Address) : PeerTable :=
  { t with inner := t.inner.delete address }

/-- `len`. -/
def len (t : PeerTable) : Nat := t.inner.rows.length

/-- The entries, in the order in which the map lists them. -/
def Lists (t : PeerTable) (peers : List PeerInfo) : Prop :=
  peers.Perm (t.inner.rows.map Prod.snd)

end PeerTable

/-- The entry for the peer that a session names. -/
def handshakenPeer (peerSide : Address) (intent : Intent) (endpoint : String)
    (now : UInt64) : PeerInfo :=
  ⟨peerSide, [intent.asU8], [endpoint], now⟩

-- ============================================================= the world

/-- The table, and the sessions that are about to write to it. -/
structure PeerWorld where
  table : PeerTable
  pending : Table Nat PeerInfo
  nextId : Nat
  log : List (Address × PeerInfo)

namespace PeerWorld

/-- A node that was just bound. -/
def init (max : Nat) : PeerWorld := ⟨.new max, .empty, 0, []⟩

/-- A session was returned, and the clock read. -/
def returned (w : PeerWorld) (info : PeerInfo) : PeerWorld :=
  { w with
    pending := w.pending.insert w.nextId info
    nextId := w.nextId + 1 }

/-- `PeerTable::insert`, under its lock. -/
def inserted (oldest : Oldest Address seenAt) (w : PeerWorld)
    (info : PeerInfo) : PeerWorld :=
  { w with
    table := w.table.insert oldest info
    log := (info.address, info) :: w.log }

end PeerWorld

/-- What can happen. -/
inductive PeerAction where
  /-- `dial`, `dial_from` or `dial_pooled` reads the answer to its Hello. -/
  | dial (run : InitiatorRun) (wire : Signed HandshakePayload)
      (timestamp : Nat) (nonce : Nonce) (endpoint : String) (now : UInt64)
  /-- `handle_connection` reads the last message of the handshake. -/
  | accept (run : ResponderRun) (wire : Signed HandshakePayload)
      (endpoint : String) (now : UInt64)
  /-- The entry of a session is inserted. -/
  | insert (id : Nat)
  /-- The owner inserts an entry. -/
  | own (info : PeerInfo)
  | touch (address : Address) (now : UInt64)
  | remove (address : Address)

/-- The step function. -/
def peerStep (oldest : Oldest Address seenAt) (w : PeerWorld) :
    PeerAction → Option PeerWorld
  | .dial run wire timestamp nonce endpoint now =>
      match run.readHelloBack wire timestamp nonce with
      | .error _ => some w
      | .ok done => some (w.returned
          (handshakenPeer done.session.peerSide run.intent endpoint now))
  | .accept run wire endpoint now =>
      match run.readConfirm wire with
      | .error _ => some w
      | .ok session => some (w.returned
          (handshakenPeer session.peerSide session.intent endpoint now))
  | .insert id =>
      match w.pending id with
      | some info =>
          some { w.inserted oldest info with pending := w.pending.erase id }
      | none => none
  | .own info => some (w.inserted oldest info)
  | .touch address now =>
      match w.table.get address with
      | some info =>
          some { w with
            table := w.table.touch address now
            log := (address, { info with lastSeen := now }) :: w.log }
      | none => some w
  | .remove address => some { w with table := w.table.remove address }

end Sidevers.Net
