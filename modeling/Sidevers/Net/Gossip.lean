/-
The registration of Gossip sessions (`serve_gossip` and `GossipGuard` in
`node.rs`).

`active_gossip` has one connection a peer. A loop inserts its own when it
starts; its guard, dropped when the loop returns, spawns a task that removes
the peer's. What a loop answers, stores and fans out between the two does not
touch the map and is left out, as is the mail it delivers first.
-/
import Sidevers.Core.Bytes
import Sidevers.Net.Verse

namespace Sidevers.Net

open Sidevers.Core
open Sidevers.Lib

/-- What a `serve_gossip` loop does next. -/
inductive GossipPc where
  | register
  | serve
  deriving DecidableEq

/-- A running `serve_gossip` loop. -/
structure GossipSession where
  peer : Address
  pc : GossipPc

/-- A node's Gossip sessions. -/
structure GossipNode where
  activeGossip : Table Address ConnId
  sessions : Table ConnId GossipSession
  /-- Dropped guards whose spawned task has not run yet. -/
  cleanups : Table ConnId Address
  nextId : Nat

/-- A node that serves nobody yet. -/
def GossipNode.init : GossipNode := ⟨.empty, .empty, .empty, 0⟩

/-- What can happen. -/
inductive GossipAction where
  /-- A peer's Gossip session starts being served. -/
  | openSession (peer : Address)
  | register (conn : ConnId)
  /-- The loop returns: `accept_one` or an answer failed. -/
  | closeSession (conn : ConnId)
  | cleanup (conn : ConnId)

/-- The step function. -/
def gossipStep (g : GossipNode) : GossipAction → Option GossipNode
  | .openSession peer =>
      some { g with
        sessions := g.sessions.insert g.nextId ⟨peer, .register⟩
        nextId := g.nextId + 1 }
  | .register conn =>
      match g.sessions conn with
      | some ⟨peer, .register⟩ =>
          some { g with
            activeGossip := g.activeGossip.insert peer conn
            sessions := g.sessions.insert conn ⟨peer, .serve⟩ }
      | _ => none
  | .closeSession conn =>
      match g.sessions conn with
      | some ⟨peer, .serve⟩ =>
          some { g with
            sessions := g.sessions.erase conn
            cleanups := g.cleanups.insert conn peer }
      | _ => none
  | .cleanup conn =>
      match g.cleanups conn with
      | some peer =>
          some { g with
            activeGossip := g.activeGossip.erase peer
            cleanups := g.cleanups.erase conn }
      | none => none

end Sidevers.Net
