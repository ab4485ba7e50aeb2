/-
The two gates in front of every serve loop of a node (`check_reputation_gate`
and `check_freshness_and_replay_metered` in `node.rs`), over all the sessions
it serves at once.

Every hosted side has an endpoint with a replay cache of its own; they share
one reputation table. Both gates go by the envelope's signer, which need not
be the session's peer: `accept_one` checks the signature and the intent only.

A loop has one envelope at a time. Reading it, the reputation gate and the
replay gate are a step each; for an envelope the first gate dropped, the
third step is the `continue`. What a loop does with an envelope that is
through touches neither table and is left out. The operator reaches the
reputation table through `Node::reputation`.
-/
import Sidevers.Lib.Run
import Sidevers.Net.Gate
import Sidevers.Net.Reputation

namespace Sidevers.Net

open Sidevers.Core
open Sidevers.Lib

universe u
variable {P : Type u}

/-- A session: the hosted side it came in at, the side it is authenticated
as, and which one of those it is. -/
structure SessionId where
  endpoint : Address
  /-- `peer_side`. -/
  peer : Address
  number : Nat
  deriving DecidableEq

/-- What a serve loop does next. -/
inductive GatesPc (P : Type u) where
  /-- `accept_one`. -/
  | accept
  /-- `check_reputation_gate`. -/
  | meter (env : Envelope P)
  /-- `check_freshness_and_replay_metered`, if the first gate let it. -/
  | check (env : Envelope P) (metered : Bool)
  deriving DecidableEq

/-- What the gates of a node keep. -/
structure GatesNode (P : Type u) where
  reputation : ReputationTable
  /-- By hosted side. -/
  gates : Address → Gate
  sessions : Table SessionId (GatesPc P)
  /-- Who let which envelope in, newest first. -/
  admitted : List (SessionId × Envelope P)

/-- A node that serves nobody yet, on caches its endpoints start with. -/
def GatesNode.start (caches : Address → ReplayCache) : GatesNode P :=
  ⟨.new .default, fun side => ⟨caches side, none⟩, .empty, []⟩

/-- What can happen. A clock reading is `none` when it fails. -/
inductive GatesAction (P : Type u) where
  | openSession (id : SessionId)
  /-- `accept_one` returns an envelope. -/
  | accept (id : SessionId) (env : Envelope P)
  | meter (id : SessionId) (env : Envelope P) (clock : Option Nat)
  | check (id : SessionId) (env : Envelope P) (clock : Option Nat)
      (order : IterOrder)
  /-- The loop returns. -/
  | closeSession (id : SessionId)
  | recordSigFailure (peer : Address) (now : Nat)
  | recordMalformed (peer : Address) (now : Nat)
  | refuse (peer : Address) (now : Nat)
  | reinstate (peer : Address)

namespace GatesNode

/-- The loop of a session goes on. -/
def goOn (n : GatesNode P) (id : SessionId) (pc : GatesPc P) : GatesNode P :=
  { n with sessions := n.sessions.insert id pc }

/-- `check_reputation_gate`; a failed clock reading counts as 0. -/
def checkReputationGate (n : GatesNode P) (env : Envelope P)
    (clock : Option Nat) : Bool × GatesNode P :=
  let seen := n.reputation.observeEnvelope env.fromSide (clock.getD 0)
  (seen.1, { n with reputation := seen.2 })

/-- `check_freshness_and_replay_metered` on the cache of an endpoint. -/
def checkFreshnessAndReplay (n : GatesNode P) (side : Address)
    (a : Arrival P) : Bool × GatesNode P :=
  let seen := checkFreshnessAndReplayMetered (n.gates side) a
  (seen.1, { n with gates := Function.update n.gates side seen.2 })

/-- An envelope is through. -/
def letThrough (n : GatesNode P) (id : SessionId) (env : Envelope P) :
    GatesNode P := { n with admitted := (id, env) :: n.admitted }

/-- How a peer stands at the reputation gate. -/
def standing (n : GatesNode P) (peer : Address) : Option PeerReputation :=
  (n.reputation.inner peer).map PeerReputation.standing

@[simp] theorem goOn_sessions (n : GatesNode P) (id : SessionId)
    (pc : GatesPc P) : (n.goOn id pc).sessions id = some pc :=
  Table.insert_self ..

@[simp] theorem goOn_goOn (n : GatesNode P) (id : SessionId)
    (pc pc' : GatesPc P) : (n.goOn id pc).goOn id pc' = n.goOn id pc' := by
  simp [goOn, Table.insert]

theorem goOn_self {n : GatesNode P} {id : SessionId} {pc : GatesPc P}
    (h : n.sessions id = some pc) : n.goOn id pc = n := by
  rw [goOn, Table.insert_eq_self h]

end GatesNode

/-- The effect of an action, `none` when it is not enabled. -/
def gatesStep [DecidableEq P] (n : GatesNode P) :
    GatesAction P → Option (GatesNode P)
  | .openSession id =>
      if n.sessions id = none then some (n.goOn id .accept) else none
  | .accept id env =>
      if n.sessions id = some .accept then some (n.goOn id (.meter env))
      else none
  | .meter id env clock =>
      if n.sessions id = some (.meter env) then
        let metered := n.checkReputationGate env clock
        some (metered.2.goOn id (.check env metered.1))
      else none
  | .check id env clock order =>
      if n.sessions id = some (.check env true) then
        let checked := n.checkFreshnessAndReplay id.endpoint
          ⟨env, clock, order⟩
        if checked.1 then some ((checked.2.letThrough id env).goOn id .accept)
        else some (checked.2.goOn id .accept)
      else if n.sessions id = some (.check env false) then
        some (n.goOn id .accept)
      else none
  | .closeSession id =>
      if n.sessions id = some .accept then
        some { n with sessions := n.sessions.erase id }
      else none
  | .recordSigFailure peer now =>
      some { n with
        reputation := (n.reputation.recordSigFailure peer now).2 }
  | .recordMalformed peer now =>
      some { n with
        reputation := (n.reputation.recordMalformed peer now).2 }
  | .refuse peer now =>
      some { n with reputation := n.reputation.refuse peer now }
  | .reinstate peer =>
      some { n with reputation := n.reputation.reinstate peer }

-- ====================================================== what it does

/-- The loops after an action. -/
def loopsAfter (n : GatesNode P) : GatesAction P → Table SessionId (GatesPc P)
  | .openSession id => n.sessions.insert id .accept
  | .accept id env => n.sessions.insert id (.meter env)
  | .meter id env clock =>
      n.sessions.insert id (.check env (n.checkReputationGate env clock).1)
  | .check id _ _ _ => n.sessions.insert id .accept
  | .closeSession id => n.sessions.erase id
  | _ => n.sessions

/-- The reputation table after an action. -/
def reputationAfter (n : GatesNode P) : GatesAction P → ReputationTable
  | .meter _ env clock =>
      (n.reputation.observeEnvelope env.fromSide (clock.getD 0)).2
  | .recordSigFailure peer now => (n.reputation.recordSigFailure peer now).2
  | .recordMalformed peer now => (n.reputation.recordMalformed peer now).2
  | .refuse peer now => n.reputation.refuse peer now
  | .reinstate peer => n.reputation.reinstate peer
  | _ => n.reputation

theorem gatesStep_after [DecidableEq P] {n n' : GatesNode P}
    {a : GatesAction P} (h : gatesStep n a = some n') :
    n'.sessions = loopsAfter n a ∧ n'.reputation = reputationAfter n a := by
  cases a with
  | openSession id | accept id env | meter id env clock | closeSession id =>
      simp only [gatesStep, Option.ite_none_right_eq_some,
        Option.some.injEq] at h
      obtain ⟨-, rfl⟩ := h
      exact ⟨rfl, rfl⟩
  | check id env clock order =>
      simp only [gatesStep] at h
      split at h
      case isTrue =>
        split at h
        case isTrue =>
          cases h
          exact ⟨rfl, rfl⟩
        case isFalse =>
          cases h
          exact ⟨rfl, rfl⟩
      case isFalse =>
        simp only [Option.ite_none_right_eq_some, Option.some.injEq] at h
        obtain ⟨-, rfl⟩ := h
        exact ⟨rfl, rfl⟩
  | recordSigFailure peer now | recordMalformed peer now | refuse peer now
  | reinstate peer =>
      cases h
      exact ⟨rfl, rfl⟩

theorem gatesStep_sessions [DecidableEq P] {n n' : GatesNode P}
    {a : GatesAction P} (h : gatesStep n a = some n') :
    n'.sessions = loopsAfter n a := (gatesStep_after h).1

theorem gatesStep_reputation [DecidableEq P] {n n' : GatesNode P}
    {a : GatesAction P} (h : gatesStep n a = some n') :
    n'.reputation = reputationAfter n a := (gatesStep_after h).2

end Sidevers.Net
