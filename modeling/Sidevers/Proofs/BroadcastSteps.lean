/-
What a step can do to a broadcast (`Move`), of all that a step does.

Only a Gossip session's loop gets a public envelope through the gates, and
only before it goes behind them (`GatesInv`); so every step is one of the
eight moves of that loop and its guard, or leaves all of this alone.
-/
import Sidevers.Net.Broadcast

namespace Sidevers.Proofs

open Sidevers.Core
open Sidevers.Lib
open Sidevers.Net

universe u
variable {P : Type u}

-- ============================================================= the gates

/-- The envelope a loop is in the gates with. -/
def inGates : GatesPc P → Option (Envelope P)
  | .accept => none
  | .meter env => some env
  | .check env _ => some env

/-- Which envelope a loop meters it has read. -/
theorem meter_pc [DecidableEq P] {n n' : GatesNode P} {id : SessionId}
    {env : Envelope P} {clock : Option Nat}
    (h : gatesStep n (.meter id env clock) = some n') :
    n.sessions id = some (.meter env) := by
  simp only [gatesStep, Option.ite_none_right_eq_some] at h
  exact h.1

/-- A loop with a public envelope in the gates is that of a Gossip session
which is not behind them. -/
def GatesInv (n : BroadcastNode P) : Prop :=
  ∀ id pc env, n.gates.sessions id = some pc → inGates pc = some env →
    n.sessions id = some .serve
      ∨ n.sessions id = none ∧ env.messageType.category ≠ .public

theorem gatesInv_start (caches : Address → ReplayCache) :
    GatesInv (BroadcastNode.start caches : BroadcastNode P) := by
  intro id pc env hpc
  cases hpc

/-- A loop whose session moves is not in the gates then. -/
theorem GatesInv.moved {n n' : BroadcastNode P} {id : SessionId}
    (h : GatesInv n)
    (hgates : ∀ id', id' ≠ id → n'.gates.sessions id' = n.gates.sessions id')
    (hsessions : ∀ id', id' ≠ id → n'.sessions id' = n.sessions id')
    (hout : ∀ pc env, n'.gates.sessions id = some pc →
      inGates pc ≠ some env) : GatesInv n' := by
  intro id' pc env hpc henv
  by_cases hid : id' = id
  · rw [hid] at hpc
    exact absurd henv (hout pc env hpc)
  · rw [hgates id' hid] at hpc
    rw [hsessions id' hid]
    exact h id' pc env hpc henv

/-- A loop that reads next. -/
theorem GatesInv.accepting {n n' : BroadcastNode P} {id : SessionId}
    (h : GatesInv n)
    (hgates : n'.gates.sessions = n.gates.sessions.insert id .accept)
    (hsessions : ∀ id', id' ≠ id → n'.sessions id' = n.sessions id') :
    GatesInv n' := by
  apply h.moved
  · intro id' hid
    rw [hgates]
    exact Table.insert_of_ne _ _ hid
  · exact hsessions
  · intro pc env hpc
    rw [hgates, Table.insert_self] at hpc
    cases hpc
    simp [inGates]

/-- A loop behind the gates is not in them, and goes on behind them or back
before them. -/
theorem GatesInv.behind {n n' : BroadcastNode P} {id : SessionId}
    {pc pc' : BroadcastPc P} (h : GatesInv n) (hpc : n.sessions id = some pc)
    (hbehind : pc ≠ .serve) (hgates : n'.gates = n.gates)
    (hsessions : n'.sessions = n.sessions.insert id pc') : GatesInv n' := by
  apply h.moved
  · exact fun _ _ => by rw [hgates]
  · intro id' hid
    rw [hsessions]
    exact Table.insert_of_ne _ _ hid
  · intro gate env hgate henv
    rw [hgates] at hgate
    rcases h id gate env hgate henv with hserve | ⟨hnone, -⟩
    · rw [hpc, Option.some.injEq] at hserve
      exact hbehind hserve
    · rw [hpc] at hnone
      cases hnone

variable [DecidableEq P]

theorem takes_accept {n : BroadcastNode P} {id : SessionId} {env : Envelope P}
    (h : n.takes (.accept id env) = true) :
    n.sessions id = some .serve
      ∨ n.sessions id = none ∧ env.messageType.category ≠ .public := by
  cases hpc : n.sessions id with
  | none =>
      simp only [BroadcastNode.takes, hpc, decide_eq_true_eq] at h
      exact Or.inr ⟨rfl, h⟩
  | some pc =>
      simp only [BroadcastNode.takes, hpc, Bool.and_eq_true,
        decide_eq_true_eq] at h
      exact Or.inl (congrArg some h.1)

/-- Only an envelope in the gates is let through. -/
theorem letsThrough_some {n : BroadcastNode P} {a : GatesAction P}
    {id : SessionId} {env : Envelope P}
    (h : n.letsThrough a = some (id, env)) :
    n.gates.sessions id = some (.check env true)
      ∧ env.messageType.category = .public
      ∧ ∃ clock order, a = .check id env clock order := by
  cases a with
  | check id' env' clock order =>
      simp only [BroadcastNode.letsThrough, Option.ite_none_right_eq_some,
        Option.some.injEq, Prod.mk.injEq] at h
      obtain ⟨⟨hpc, -, hpublic⟩, rfl, rfl⟩ := h
      exact ⟨hpc, hpublic, clock, order, rfl⟩
  | openSession | accept | meter | closeSession | recordSigFailure
  | recordMalformed | refuse | reinstate => cases h

/-- An action of the gates that lets nothing public through. -/
theorem gatesInv_gates {n : BroadcastNode P} {a : GatesAction P}
    {gates : GatesNode P} (h : GatesInv n) (htakes : n.takes a = true)
    (hstep : gatesStep n.gates a = some gates) :
    GatesInv { n with gates } := by
  have hloops := gatesStep_sessions hstep
  intro id pc env hpc henv
  change gates.sessions id = some pc at hpc
  rw [hloops] at hpc
  cases a with
  | openSession id' | check id' env' clock order =>
      rcases (Table.insert_eq_some_iff ..).mp hpc with ⟨-, rfl⟩ | ⟨-, hpc⟩
      · cases henv
      · exact h id pc env hpc henv
  | accept id' env' =>
      rcases (Table.insert_eq_some_iff ..).mp hpc with ⟨rfl, rfl⟩ | ⟨-, hpc⟩
      · cases henv
        exact takes_accept htakes
      · exact h id pc env hpc henv
  | meter id' env' clock =>
      rcases (Table.insert_eq_some_iff ..).mp hpc with ⟨rfl, rfl⟩ | ⟨-, hpc⟩
      · cases henv
        exact h id _ _ (meter_pc hstep) rfl
      · exact h id pc env hpc henv
  | closeSession id' =>
      exact h id pc env ((Table.erase_eq_some_iff ..).mp hpc).2 henv
  | recordSigFailure | recordMalformed | refuse | reinstate =>
      exact h id pc env hpc henv

/-- An action that lets a public envelope through, to behind the gates. -/
theorem gatesInv_through {n : BroadcastNode P} {a : GatesAction P}
    {gates : GatesNode P} {id : SessionId} {env : Envelope P}
    (h : GatesInv n) (hstep : gatesStep n.gates a = some gates)
    (hthrough : n.letsThrough a = some (id, env)) :
    GatesInv { (n.goOn id (.observe env)).record (.passed id env) with
      gates } := by
  obtain ⟨-, -, clock, order, rfl⟩ := letsThrough_some hthrough
  apply h.accepting
  · exact gatesStep_sessions hstep
  · exact fun id' hid => Table.insert_of_ne _ _ hid

theorem gatesInv_step {n n' : BroadcastNode P} {a : BroadcastAction P}
    (h : GatesInv n) (hstep : broadcastStep n a = some n') :
    GatesInv n' := by
  cases a with
  | tick now =>
      simp only [broadcastStep, Option.ite_none_right_eq_some,
        Option.some.injEq] at hstep
      obtain ⟨-, rfl⟩ := hstep
      exact h
  | cleanup id =>
      simp only [broadcastStep, Option.ite_none_right_eq_some,
        Option.some.injEq] at hstep
      obtain ⟨-, rfl⟩ := hstep
      exact h
  | setGossipPolicy policy | setRelationships side peers =>
      cases hstep
      exact h
  | gates a =>
      simp only [broadcastStep, Option.ite_none_right_eq_some,
        Option.map_eq_some_iff] at hstep
      obtain ⟨htakes, gates, hgates, rfl⟩ := hstep
      cases hthrough : n.letsThrough a with
      | none => exact gatesInv_gates h htakes hgates
      | some passed => exact gatesInv_through h hgates hthrough
  | register id =>
      simp only [broadcastStep, Option.ite_none_right_eq_some,
        Option.map_eq_some_iff] at hstep
      obtain ⟨-, gates, hgates, rfl⟩ := hstep
      apply h.accepting
      · exact gatesStep_sessions hgates
      · exact fun id' hid => Table.insert_of_ne _ _ hid
  | close id =>
      simp only [broadcastStep, Option.ite_none_right_eq_some,
        Option.map_eq_some_iff] at hstep
      obtain ⟨-, gates, hgates, rfl⟩ := hstep
      have hloops := gatesStep_sessions hgates
      apply h.moved
      · intro id' hid
        change gates.sessions id' = _
        rw [hloops]
        exact Table.erase_of_ne _ hid
      · exact fun id' hid => Table.erase_of_ne _ hid
      · intro pc env hpc
        change gates.sessions id = some pc at hpc
        rw [hloops, loopsAfter, Table.erase_self] at hpc
        cases hpc
  | observe id =>
      simp only [broadcastStep] at hstep
      split at hstep
      case h_1 env hpc =>
          cases hstep
          exact h.behind hpc (by simp) rfl rfl
      case h_2 => cases hstep
  | readPolicy id =>
      simp only [broadcastStep] at hstep
      split at hstep
      case h_1 env seenAt hpc =>
          cases hstep
          exact h.behind hpc (by simp) rfl rfl
      case h_2 => cases hstep
  | fanOut id =>
      simp only [broadcastStep] at hstep
      split at hstep
      case h_1 env seenAt policy hpc =>
          cases hstep
          exact h.behind hpc (by simp) rfl rfl
      case h_2 => cases hstep

-- ============================================================ the moves

/-- A broadcast's part in a step. -/
inductive Move (n : BroadcastNode P) : BroadcastNode P → Prop
  /-- None. -/
  | quiet {n' : BroadcastNode P} (clock : n.clock ≤ n'.clock)
      (sessions : n'.sessions = n.sessions) (gossip : n'.gossip = n.gossip)
      (active : n'.activeGossip = n.activeGossip) (log : n'.log = n.log)
      (policy : n'.gossipPolicy = n.gossipPolicy ∨ n'.gossipPolicy = .openAll) :
      Move n n'
  | begins {id : SessionId} {gates : GatesNode P}
      (hnone : n.sessions id = none) :
      Move n { (n.goOn id .serve).record (.registered id) with
        gates
        activeGossip := Function.update n.activeGossip id.endpoint
          ((n.activeGossip id.endpoint).insert id.peer id) }
  | passes {id : SessionId} {env : Envelope P} {gates : GatesNode P}
      (hserve : n.sessions id = some .serve) :
      Move n { (n.goOn id (.observe env)).record (.passed id env) with gates }
  /-- Put to the dedup map, and new to it. -/
  | first {id : SessionId} {env : Envelope P}
      (hpc : n.sessions id = some (.observe env))
      (hnew : (n.gossip.observe env n.clock).1 = true) :
      Move n { (n.goOn id (.readPolicy env n.clock)).record
          (.observed id env n.clock) with
        gossip := (n.gossip.observe env n.clock).2 }
  | again {id : SessionId} {env : Envelope P}
      (hpc : n.sessions id = some (.observe env))
      (hseen : (n.gossip.observe env n.clock).1 = false) :
      Move n { (n.goOn id .serve).record (.observed id env n.clock) with
        gossip := (n.gossip.observe env n.clock).2 }
  | reads {id : SessionId} {env : Envelope P} {seenAt : Nat}
      (hpc : n.sessions id = some (.readPolicy env seenAt)) :
      Move n (n.goOn id (.fanOut env seenAt n.gossipPolicy))
  | fans {id : SessionId} {env : Envelope P} {seenAt : Nat}
      {policy : GossipPropagation}
      (hpc : n.sessions id = some (.fanOut env seenAt policy)) :
      Move n ((n.goOn id .serve).record
        (.fannedOut id env seenAt (n.fanoutBroadcast id policy)))
  | ends {id : SessionId} {gates : GatesNode P}
      (hserve : n.sessions id = some .serve) :
      Move n { n with
        gates
        sessions := n.sessions.erase id
        cleanups := id :: n.cleanups }
  | cleans {id : SessionId} :
      Move n { n.record (.unregistered id) with
        activeGossip := Function.update n.activeGossip id.endpoint
          ((n.activeGossip id.endpoint).erase id.peer)
        cleanups := n.cleanups.erase id }

/-- No step sets a policy other than Open. -/
def StaysOpen : BroadcastAction P → Prop
  | .setGossipPolicy policy => policy = .openAll
  | _ => True

/-- Every step is a move. -/
theorem move_of_step {n n' : BroadcastNode P} {a : BroadcastAction P}
    (hopen : StaysOpen a) (hinv : GatesInv n)
    (h : broadcastStep n a = some n') : Move n n' := by
  cases a with
  | tick now =>
      simp only [broadcastStep, Option.ite_none_right_eq_some,
        Option.some.injEq] at h
      obtain ⟨hle, rfl⟩ := h
      exact .quiet hle rfl rfl rfl rfl (Or.inl rfl)
  | register id =>
      simp only [broadcastStep, Option.ite_none_right_eq_some,
        Option.map_eq_some_iff] at h
      obtain ⟨hnone, gates, -, rfl⟩ := h
      exact .begins hnone
  | gates a =>
      simp only [broadcastStep, Option.ite_none_right_eq_some,
        Option.map_eq_some_iff] at h
      obtain ⟨-, gates, -, rfl⟩ := h
      cases hthrough : n.letsThrough a with
      | none => exact .quiet (Nat.le_refl _) rfl rfl rfl rfl (Or.inl rfl)
      | some passed =>
          obtain ⟨hpc, hpublic, -⟩ := letsThrough_some hthrough
          rcases hinv _ _ _ hpc rfl with hserve | ⟨-, hprivate⟩
          · exact .passes hserve
          · exact absurd hpublic hprivate
  | observe id =>
      simp only [broadcastStep] at h
      split at h
      case h_1 env hpc =>
          rw [Option.some.injEq] at h
          subst h
          cases hseen : (n.gossip.observe env n.clock).1 with
          | true => exact .first hpc hseen
          | false => exact .again hpc hseen
      case h_2 => cases h
  | readPolicy id =>
      simp only [broadcastStep] at h
      split at h
      case h_1 env seenAt hpc =>
          cases h
          exact .reads hpc
      case h_2 => cases h
  | fanOut id =>
      simp only [broadcastStep] at h
      split at h
      case h_1 env seenAt policy hpc =>
          cases h
          exact .fans hpc
      case h_2 => cases h
  | close id =>
      simp only [broadcastStep, Option.ite_none_right_eq_some,
        Option.map_eq_some_iff] at h
      obtain ⟨hserve, gates, -, rfl⟩ := h
      exact .ends hserve
  | cleanup id =>
      simp only [broadcastStep, Option.ite_none_right_eq_some,
        Option.some.injEq] at h
      obtain ⟨-, rfl⟩ := h
      exact .cleans
  | setGossipPolicy policy =>
      cases h
      exact .quiet (Nat.le_refl _) rfl rfl rfl rfl (Or.inr hopen)
  | setRelationships side peers =>
      cases h
      exact .quiet (Nat.le_refl _) rfl rfl rfl rfl (Or.inl rfl)

-- ============================================================== one round

section round

variable {n : BroadcastNode P} {id : SessionId} {env : Envelope P}
  {now : Nat}

/-- What a loop does with a broadcast that is new to the node. -/
def broadcastRound (id : SessionId) (env : Envelope P) (now : Nat) :
    List (BroadcastAction P) :=
  [.gates (.accept id env), .gates (.meter id env (some now)),
    .gates (.check id env (some now) .listed)]
    ++ [.observe id, .readPolicy id, .fanOut id]

/-- What is left of it. -/
def afterRound (n : BroadcastNode P) (id : SessionId) (env : Envelope P)
    (now : Nat) : BroadcastNode P :=
  { n with
    gates := { n.gates with
      reputation := (n.gates.reputation.observeEnvelope env.fromSide now).2
      gates := Function.update n.gates.gates id.endpoint
        (gateStep (n.gates.gates id.endpoint) ⟨env, some now, .listed⟩)
      admitted := (id, env) :: n.gates.admitted }
    gossip := (n.gossip.observe env now).2
    log := .fannedOut id env now (n.fanoutBroadcast id n.gossipPolicy)
      :: .observed id env now :: .passed id env :: n.log }

/-- In the gates. -/
theorem run_through (hserve : n.sessions id = some .serve)
    (hread : n.gates.sessions id = some .accept)
    (hpublic : env.messageType.category = .public) (hclock : n.clock = now)
    (htoken : 1 ≤ n.gates.reputation.available env.fromSide now)
    (hadm : admits (n.gates.gates id.endpoint) ⟨env, some now, .listed⟩
      = true) :
    run broadcastStep n
        [.gates (.accept id env), .gates (.meter id env (some now)),
          .gates (.check id env (some now) .listed)]
      = some { (n.goOn id (.observe env)).record (.passed id env) with
          gates := (afterRound n id env now).gates } := by
  have hmetered := (ReputationTable.observeEnvelope_fst ..).mpr htoken
  have haccepts : Intent.gossip.accepts env.messageType = true := by
    simp [Intent.accepts, hpublic]
  have haccept : broadcastStep n (.gates (.accept id env))
      = some { n with gates := n.gates.goOn id (.meter env) } := by
    simp [broadcastStep, BroadcastNode.takes, hserve, haccepts, gatesStep,
      hread, BroadcastNode.letsThrough]
  have hmeter : broadcastStep { n with gates := n.gates.goOn id (.meter env) }
      (.gates (.meter id env (some now)))
      = some { n with
          gates := (n.gates.checkReputationGate env (some now)).2.goOn id
            (.check env true) } := by
    have hgate : gatesStep (n.gates.goOn id (.meter env))
        (.meter id env (some now))
        = some ((n.gates.checkReputationGate env (some now)).2.goOn id
            (.check env true)) := by
      rw [gatesStep, if_pos (GatesNode.goOn_sessions ..)]
      refine congrArg some ((GatesNode.goOn_goOn
        (n.gates.checkReputationGate env (some now)).2 id (.meter env)
          _).trans ?_)
      exact congrArg (fun ok => GatesNode.goOn _ id (.check env ok)) hmetered
    simp [broadcastStep, BroadcastNode.takes, hclock, hgate,
      BroadcastNode.letsThrough]
  have hback : (n.gates.sessions.insert id (.check env true)).insert id .accept
      = n.gates.sessions := by
    refine (Function.update_idem ..).trans ?_
    exact Table.insert_eq_self hread
  have hcheck : gatesStep
      ((n.gates.checkReputationGate env (some now)).2.goOn id (.check env true))
      (.check id env (some now) .listed)
      = some (afterRound n id env now).gates := by
    rw [gatesStep, if_pos (GatesNode.goOn_sessions ..)]
    refine (if_pos (show admits _ _ = true from hadm)).trans ?_
    refine congrArg some ?_
    simp only [GatesNode.goOn, GatesNode.letThrough,
      GatesNode.checkFreshnessAndReplay, GatesNode.checkReputationGate,
      afterRound, hback]
    rfl
  have hthrough : BroadcastNode.letsThrough { n with
      gates := (n.gates.checkReputationGate env (some now)).2.goOn id
        (.check env true) } (.check id env (some now) .listed)
      = some (id, env) :=
    if_pos ⟨GatesNode.goOn_sessions .., hadm, hpublic⟩
  rw [run_cons, haccept, Option.bind_some, run_cons, hmeter, Option.bind_some,
    run_cons, broadcastStep, if_pos (by simp [BroadcastNode.takes, hclock]),
    hcheck, Option.map_some, hthrough]
  rfl

/-- Behind them, new to the map. -/
theorem run_behind {gates : GatesNode P} (hserve : n.sessions id = some .serve)
    (hopen : n.gossipPolicy = .openAll) (hclock : n.clock = now)
    (hnew : (n.gossip.observe env now).1 = true) :
    run broadcastStep
        { (n.goOn id (.observe env)).record (.passed id env) with gates }
        [.observe id, .readPolicy id, .fanOut id]
      = some { afterRound n id env now with gates } := by
  have hback : (((n.sessions.insert id (.observe env)).insert id
      (.readPolicy env now)).insert id (.fanOut env now .openAll)).insert id
        .serve = n.sessions := by
    unfold Table.insert
    rw [Function.update_idem, Function.update_idem, Function.update_idem]
    exact Table.insert_eq_self hserve
  simp [run_cons, broadcastStep, BroadcastNode.goOn, BroadcastNode.record,
    afterRound, hopen, hclock, hnew, hback]
  rfl

theorem run_broadcastRound (hserve : n.sessions id = some .serve)
    (hread : n.gates.sessions id = some .accept)
    (hpublic : env.messageType.category = .public)
    (hopen : n.gossipPolicy = .openAll) (hclock : n.clock = now)
    (htoken : 1 ≤ n.gates.reputation.available env.fromSide now)
    (hadm : admits (n.gates.gates id.endpoint) ⟨env, some now, .listed⟩ = true)
    (hnew : (n.gossip.observe env now).1 = true) :
    run broadcastStep n (broadcastRound id env now)
      = some (afterRound n id env now) := by
  have hthrough := run_through hserve hread hpublic hclock htoken hadm
  rw [broadcastRound, run_append, hthrough, Option.bind_some]
  exact run_behind hserve hopen hclock hnew

end round

end Sidevers.Proofs
