/-
Broadcasts: the dedup map (`gossip.rs`), the public arm of `serve_gossip` and
`fanout_broadcast` (`node.rs`), over all the sides a node hosts.

Every hosted side has its own replay cache and its own `active_gossip`; the
dedup map, the reputation table, the policy and the clock are the node's. The
gates are those of `Sidevers.Net.Gates`, for sessions of every intent: they
share a side's cache, but only a Gossip session reads a public envelope
(PublicLayer sessions are closed at once).

Behind the gates a public envelope has three awaits: the dedup map, the
policy, and `active_gossip`, which is copied; what is fanned out is what a
task is spawned for. The filters of the two other policies are part of the
last step. The other arms touch nothing of this and are left out, as is the
mail that a loop delivers before it serves.
-/
import Sidevers.Lib.Rows
import Sidevers.Net.Gates
import Sidevers.Net.Session

namespace Sidevers.Net

open Sidevers.Core
open Sidevers.Lib

universe u
variable {P : Type u}

-- ============================================================ the dedup

/-- `DEDUP_TTL_SECS`. -/
def dedupTtlSecs : Nat := 600

/-- `MAX_DEDUP_ENTRIES`. -/
def maxDedupEntries : Nat := 10000

/-- `GossipState`; the subscriptions are asked by nobody here. -/
structure GossipState where
  dedup : Rows Key Nat

namespace GossipState

/-- `GossipState::new`. -/
def new : GossipState := ⟨.empty⟩

/-- The sweep of a large map. -/
def sweep (g : GossipState) (now : Nat) : Rows Key Nat :=
  if maxDedupEntries ≤ g.dedup.rows.length then
    g.dedup.retain fun _ seen => decide (now - seen < dedupTtlSecs)
  else g.dedup

/-- `observe`: `true` if the envelope is the first with its key. -/
def observe (g : GossipState) (env : Envelope P) (now : Nat) :
    Bool × GossipState :=
  let dedup := g.sweep now
  match dedup.get (replayKey env) with
  | none => (true, ⟨dedup.insertOrIgnore (replayKey env) now⟩)
  | some _ => (false, ⟨dedup⟩)

end GossipState

/-- `GossipPropagation`. -/
inductive GossipPropagation where
  /-- `Open`. -/
  | openAll
  | excludeRefused
  | relationshipsOnly
  deriving DecidableEq

-- ============================================================= the node

/-- What a Gossip session does next. -/
inductive BroadcastPc (P : Type u) where
  /-- `accept_one` and the gates. -/
  | serve
  /-- `observe`, for an envelope that is through. -/
  | observe (env : Envelope P)
  /-- `fanout_broadcast`, at the policy; when `observe` read the clock. -/
  | readPolicy (env : Envelope P) (seenAt : Nat)
  /-- At `active_gossip`. -/
  | fanOut (env : Envelope P) (seenAt : Nat) (policy : GossipPropagation)
  deriving DecidableEq

/-- What is recorded. -/
inductive BroadcastEvent (P : Type u) where
  /-- A session's connection goes into `active_gossip`. -/
  | registered (id : SessionId)
  /-- A guard's task removes the peer. -/
  | unregistered (id : SessionId)
  /-- A public envelope is through both gates. -/
  | passed (id : SessionId) (env : Envelope P)
  | observed (id : SessionId) (env : Envelope P) (now : Nat)
  | fannedOut (id : SessionId) (env : Envelope P) (seenAt : Nat)
      (connections : Table Address SessionId)

/-- A node, as far as broadcasts go. -/
structure BroadcastNode (P : Type u) where
  clock : Nat
  gates : GatesNode P
  gossip : GossipState
  gossipPolicy : GossipPropagation
  /-- The keys of the relationship table, by hosted side. -/
  relationships : Address → Table Address Unit
  /-- By hosted side. -/
  activeGossip : Address → Table Address SessionId
  /-- The Gossip sessions. -/
  sessions : Table SessionId (BroadcastPc P)
  /-- Dropped guards whose spawned task has not run yet. -/
  cleanups : List SessionId
  /-- Newest first. -/
  log : List (BroadcastEvent P)

/-- A node that serves nobody yet, on caches its endpoints start with. -/
def BroadcastNode.start (caches : Address → ReplayCache) : BroadcastNode P where
  clock := 0
  gates := .start caches
  gossip := .new
  gossipPolicy := .openAll
  relationships _ := .empty
  activeGossip _ := .empty
  sessions := .empty
  cleanups := []
  log := []

/-- What can happen. -/
inductive BroadcastAction (P : Type u) where
  | tick (now : Nat)
  /-- `serve_gossip` begins. -/
  | register (id : SessionId)
  /-- A session's loop in its gates, or the operator at the reputation. -/
  | gates (a : GatesAction P)
  | observe (id : SessionId)
  | readPolicy (id : SessionId)
  | fanOut (id : SessionId)
  /-- `serve_gossip` returns. -/
  | close (id : SessionId)
  | cleanup (id : SessionId)
  | setGossipPolicy (policy : GossipPropagation)
  | setRelationships (side : Address) (peers : Table Address Unit)

namespace BroadcastNode

variable [DecidableEq P]

/-- Which of the gates' actions there are: Gossip sessions begin and end on
their own, come back from behind the gates before they read on, and read what
their intent accepts; the others read nothing public. The clock is the
node's, or its reading fails. -/
def takes (n : BroadcastNode P) : GatesAction P → Bool
  | .openSession id | .closeSession id => n.sessions id = none
  | .accept id env =>
      match n.sessions id with
      | none => env.messageType.category ≠ .public
      | some pc => pc = .serve && Intent.gossip.accepts env.messageType
  | .meter _ _ clock | .check _ _ clock _ =>
      clock = none || clock = some n.clock
  | .recordSigFailure _ now | .recordMalformed _ now | .refuse _ now =>
      now = n.clock
  | .reinstate _ => true

/-- The public envelope that an action gets through the gates, if any. -/
def letsThrough (n : BroadcastNode P) :
    GatesAction P → Option (SessionId × Envelope P)
  | .check id env clock order =>
      if n.gates.sessions id = some (.check env true)
          ∧ (n.gates.checkFreshnessAndReplay id.endpoint
            ⟨env, clock, order⟩).1 = true
          ∧ env.messageType.category = .public
        then some (id, env) else none
  | _ => none

/-- The session goes on, behind the gates or back before them. -/
def goOn (n : BroadcastNode P) (id : SessionId) (pc : BroadcastPc P) :
    BroadcastNode P := { n with sessions := n.sessions.insert id pc }

/-- Another event. -/
def record (n : BroadcastNode P) (e : BroadcastEvent P) : BroadcastNode P :=
  { n with log := e :: n.log }

/-- Does the policy let a broadcast go to this peer? -/
def propagates (n : BroadcastNode P) (side peer : Address) :
    GossipPropagation → Bool
  | .openAll => true
  | .excludeRefused => !n.gates.reputation.isRefused peer
  | .relationshipsOnly => (n.relationships side peer).isSome

/-- `fanout_broadcast`: the connections a task is spawned for. -/
def fanoutBroadcast (n : BroadcastNode P) (id : SessionId)
    (policy : GossipPropagation) : Table Address SessionId := fun peer =>
  if peer ≠ id.peer ∧ n.propagates id.endpoint peer policy = true then
    n.activeGossip id.endpoint peer
  else none

end BroadcastNode

/-- The effect of an action, `none` when it is not enabled. -/
def broadcastStep [DecidableEq P] (n : BroadcastNode P) :
    BroadcastAction P → Option (BroadcastNode P)
  | .tick now => if n.clock ≤ now then some { n with clock := now } else none
  | .register id =>
      if n.sessions id = none then
        (gatesStep n.gates (.openSession id)).map fun gates =>
          let active := (n.activeGossip id.endpoint).insert id.peer id
          { (n.goOn id .serve).record (.registered id) with
            gates
            activeGossip := Function.update n.activeGossip id.endpoint active }
      else none
  | .gates a =>
      if n.takes a then
        (gatesStep n.gates a).map fun gates =>
          match n.letsThrough a with
          | some (id, env) =>
              { (n.goOn id (.observe env)).record (.passed id env) with gates }
          | none => { n with gates }
      else none
  | .observe id =>
      match n.sessions id with
      | some (.observe env) =>
          let seen := n.gossip.observe env n.clock
          let pc := if seen.1 then .readPolicy env n.clock else .serve
          some { (n.goOn id pc).record (.observed id env n.clock) with
            gossip := seen.2 }
      | _ => none
  | .readPolicy id =>
      match n.sessions id with
      | some (.readPolicy env seenAt) =>
          some (n.goOn id (.fanOut env seenAt n.gossipPolicy))
      | _ => none
  | .fanOut id =>
      match n.sessions id with
      | some (.fanOut env seenAt policy) =>
          some ((n.goOn id .serve).record
            (.fannedOut id env seenAt (n.fanoutBroadcast id policy)))
      | _ => none
  | .close id =>
      if n.sessions id = some .serve then
        (gatesStep n.gates (.closeSession id)).map fun gates =>
          { n with
            gates
            sessions := n.sessions.erase id
            cleanups := id :: n.cleanups }
      else none
  | .cleanup id =>
      if id ∈ n.cleanups then
        let active := (n.activeGossip id.endpoint).erase id.peer
        some { n.record (.unregistered id) with
          activeGossip := Function.update n.activeGossip id.endpoint active
          cleanups := n.cleanups.erase id }
      else none
  | .setGossipPolicy policy => some { n with gossipPolicy := policy }
  | .setRelationships side peers =>
      some { n with
        relationships := Function.update n.relationships side peers }

end Sidevers.Net
