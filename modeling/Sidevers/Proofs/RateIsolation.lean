/-
Whose envelopes the gates count against whom.

Both gates go by the signer, so an envelope that P signed costs P a token on
whatever session it comes. A party that only has one of P's envelopes can
send it again and again: the reputation gate comes first, and the replay gate
turns the copies away after they have been paid for (`resent_drains`).

Where no copy on another's session finds a token of P's, what P gets through
depends on P's own sessions alone. The proof is a projection: `ownView` is
P's entry, P's sessions and the envelopes P got through for the first time,
and every step moves it by what is P's own in the step (`ownView_step`), so
two runs with the same own steps end in the same view (`view_runs`).
-/
import Sidevers.Net.Gates

namespace Sidevers.Proofs

open Sidevers.Core
open Sidevers.Lib
open Sidevers.Net

universe u
variable {P : Type u}

-- ======================================================= the statement

/-- The session an action is about; the operator's are about none. -/
def sessionOf : GatesAction P → Option SessionId
  | .openSession id => some id
  | .accept id _ => some id
  | .meter id _ _ => some id
  | .check id _ _ _ => some id
  | .closeSession id => some id
  | _ => none

/-- The action without the hash map's iteration order, which is not the
peer's. -/
def unordered : GatesAction P → GatesAction P
  | .check id env clock _ => .check id env clock .listed
  | a => a

/-- What of an action is `p`'s own, or the operator's: what arrives on `p`'s
sessions, and when. -/
def own (p : Address) (a : GatesAction P) : Option (GatesAction P) :=
  match sessionOf a with
  | some id => if id.peer = p then some (unordered a) else none
  | none => some a

/-- The same envelope, as the replay cache of one endpoint goes. -/
def SameKey (x y : SessionId × Envelope P) : Prop :=
  x.1.endpoint = y.1.endpoint ∧ replayKey x.2 = replayKey y.2

instance (x y : SessionId × Envelope P) : Decidable (SameKey x y) :=
  inferInstanceAs (Decidable (_ ∧ _))

/-- An envelope that `p` signed, on a session of its own. -/
def IsOwn (p : Address) (x : SessionId × Envelope P) : Prop :=
  x.1.peer = p ∧ x.2.fromSide = p

instance (p : Address) (x : SessionId × Envelope P) :
    Decidable (IsOwn p x) := inferInstanceAs (Decidable (_ ∧ _))

/-- Does the endpoint's cache hold this envelope's key from the start? -/
def Preloaded (caches : Address → ReplayCache) (x : SessionId × Envelope P) :
    Prop := (caches x.1.endpoint).holds (replayKey x.2)

instance (caches : Address → ReplayCache) (x : SessionId × Envelope P) :
    Decidable (Preloaded caches x) :=
  inferInstanceAs (Decidable (ReplayCache.holds ..))

/-- Of what was let in, newest first: the envelopes of `p` that came from
its own sessions and that their endpoint had not let in before. -/
def firstOwn (p : Address) (caches : Address → ReplayCache) :
    List (SessionId × Envelope P) → List (SessionId × Envelope P)
  | [] => []
  | x :: older =>
      if IsOwn p x ∧ ¬ Preloaded caches x ∧ ∀ y ∈ older, ¬ SameKey y x
        then x :: firstOwn p caches older
      else firstOwn p caches older

/-- Others do not sign for `p`: an envelope of `p` on another's session is
one that `p` sends on its own. -/
def OnlyResent (p : Address) (acts : List (GatesAction P)) : Prop :=
  ∀ id env, GatesAction.accept id env ∈ acts →
    id.peer ≠ p → env.fromSide = p →
      ∃ id', id'.peer = p ∧ GatesAction.accept id' env ∈ acts

/-- A copy of one of `p`'s envelopes that comes on another's session finds
no token of `p`'s at the reputation gate. -/
def Unspent (p : Address) (n : GatesNode P) : GatesAction P → Prop
  | .meter id env clock =>
      id.peer ≠ p → env.fromSide = p →
        n.reputation.available p (clock.getD 0) = 0
  | _ => True

-- ============================================================ the view

/-- What `p` sees of a node. -/
structure OwnView (P : Type u) where
  standing : Option PeerReputation
  sessions : Table SessionId (GatesPc P)
  first : List (SessionId × Envelope P)

/-- How far a loop is, but not how others' envelopes fared. -/
def ownPc (p : Address) : GatesPc P → GatesPc P
  | .check env metered => .check env (metered && decide (env.fromSide = p))
  | pc => pc

/-- The loops of `p`'s sessions. -/
def ownSessions (p : Address) (sessions : Table SessionId (GatesPc P)) :
    Table SessionId (GatesPc P) := fun id =>
  if id.peer = p then (sessions id).map (ownPc p) else none

/-- What `p` sees of this node. -/
def ownView (p : Address) (caches : Address → ReplayCache)
    (n : GatesNode P) : OwnView P :=
  ⟨n.standing p, ownSessions p n.sessions, firstOwn p caches n.admitted⟩

namespace OwnView

/-- The entry of `p` that a call finds, if there was none a fresh one. -/
def entry (v : OwnView P) (now : Nat) : PeerReputation :=
  v.standing.getD (PeerReputation.fresh now defaultBucketCapacity).standing

/-- A call of the reputation table that is about `p`. -/
def call (v : OwnView P) (now : Nat)
    (f : PeerReputation → PeerReputation) : OwnView P :=
  { v with standing := some (f (v.entry now)).standing }

/-- A loop goes on. -/
def goOn (v : OwnView P) (id : SessionId) (pc : GatesPc P) : OwnView P :=
  { v with sessions := v.sessions.insert id pc }

/-- An envelope of `p` at the replay gate. -/
def check (v : OwnView P) (caches : Address → ReplayCache) (id : SessionId)
    (env : Envelope P) (clock : Option Nat) : OwnView P :=
  { v with first :=
      match clock with
      | some now =>
          if absDiff env.timestamp now ≤ softMaxSkewSecs
              ∧ ¬ Preloaded caches (id, env)
              ∧ ∀ y ∈ v.first, ¬ SameKey y (id, env)
            then (id, env) :: v.first
          else v.first
      | none => v.first }

/-- What is own in a step, on the view. -/
def step [DecidableEq P] (p : Address) (caches : Address → ReplayCache)
    (v : OwnView P) : GatesAction P → OwnView P
  | .openSession id => v.goOn id .accept
  | .accept id env => v.goOn id (.meter env)
  | .meter id env clock =>
      if env.fromSide = p then
        (v.call (clock.getD 0) fun rep =>
            (rep.observe .default (clock.getD 0)).2).goOn id
          (.check env ((v.entry (clock.getD 0)).observe .default
            (clock.getD 0)).1)
      else v.goOn id (.check env false)
  | .check id env clock _ =>
      if v.sessions id = some (.check env true)
        then (v.check caches id env clock).goOn id .accept
      else v.goOn id .accept
  | .closeSession id => { v with sessions := v.sessions.erase id }
  | .recordSigFailure peer now =>
      if p = peer then v.call now (·.sigFailed .default now) else v
  | .recordMalformed peer now =>
      if p = peer then v.call now (·.malformed .default now) else v
  | .refuse peer now =>
      if p = peer then v.call now .refuse else v
  | .reinstate peer =>
      if p = peer then
        { v with standing := v.standing.map (·.reinstate.standing) }
      else v

end OwnView

/-- A loop that goes on, seen from `p`: one of its own or not. -/
theorem ownSessions_insert (p : Address)
    (sessions : Table SessionId (GatesPc P)) (id : SessionId)
    (pc : GatesPc P) :
    ownSessions p (sessions.insert id pc)
      = if id.peer = p then (ownSessions p sessions).insert id (ownPc p pc)
        else ownSessions p sessions := by
  funext id'
  by_cases hid : id' = id
  · subst hid
    by_cases hpeer : id'.peer = p
    · simp [ownSessions, hpeer]
    · simp [ownSessions, hpeer]
  · by_cases hpeer : id.peer = p
    · simp [ownSessions, hpeer, hid]
    · simp [ownSessions, hpeer, hid]

theorem ownSessions_erase (p : Address)
    (sessions : Table SessionId (GatesPc P)) (id : SessionId) :
    ownSessions p (sessions.erase id)
      = if id.peer = p then (ownSessions p sessions).erase id
        else ownSessions p sessions := by
  funext id'
  by_cases hid : id' = id
  · subst hid
    by_cases hpeer : id'.peer = p
    · simp [ownSessions, hpeer]
    · simp [ownSessions, hpeer]
  · by_cases hpeer : id.peer = p
    · simp [ownSessions, hpeer, hid]
    · simp [ownSessions, hpeer, hid]

/-- A loop of `n` goes on: the view's own does, another's does not show. -/
theorem ownView_goOn (p : Address) (caches : Address → ReplayCache)
    (n : GatesNode P) (id : SessionId) (pc : GatesPc P) :
    ownView p caches (n.goOn id pc)
      = if id.peer = p then (ownView p caches n).goOn id (ownPc p pc)
        else ownView p caches n := by
  rw [ownView, GatesNode.goOn, ownSessions_insert]
  split <;> rfl

/-- The standings after an entry is written. -/
theorem standing_set (n : GatesNode P) (p q : Address)
    (rep : PeerReputation) :
    ({ n with reputation := n.reputation.set q rep } : GatesNode P).standing p
      = if p = q then some rep.standing else n.standing p := by
  unfold GatesNode.standing
  split
  case isTrue h =>
    subst h
    rw [ReputationTable.set_inner_self]
    rfl
  case isFalse h => rw [ReputationTable.set_inner_of_ne _ _ h]

/-- A call of the table moves the view of the peer it is about. -/
theorem ownView_call {n : GatesNode P} {p q : Address} {now : Nat}
    {caches : Address → ReplayCache}
    (hpolicy : n.reputation.policy = .default)
    {f : PeerReputation → PeerReputation}
    (hf : ∀ rep, (f rep.standing).standing = (f rep).standing) :
    ownView p caches { n with
        reputation := n.reputation.set q (f (n.reputation.entry q now)) }
      = if p = q then (ownView p caches n).call now f
        else ownView p caches n := by
  rw [ownView, standing_set]
  split
  case isTrue h =>
    subst h
    rw [ownView, OwnView.call, OwnView.entry, ← hf, GatesNode.standing,
      ReputationTable.entry, hpolicy]
    cases n.reputation.inner p with
    | none => rfl
    | some rep => rfl
  case isFalse h => rfl

/-- And so does a reinstatement. -/
theorem ownView_reinstate (n : GatesNode P) (p q : Address)
    (caches : Address → ReplayCache) :
    ownView p caches { n with reputation := n.reputation.reinstate q }
      = if p = q then ⟨(n.standing p).map (·.reinstate.standing),
            ownSessions p n.sessions, firstOwn p caches n.admitted⟩
        else ownView p caches n := by
  unfold ReputationTable.reinstate
  cases hrep : n.reputation.inner q with
  | none =>
      by_cases hp : p = q
      · subst hp
        simp [ownView, GatesNode.standing, hrep]
      · rw [if_neg hp]
  | some rep =>
      rw [ownView, standing_set]
      by_cases hp : p = q
      · subst hp
        simp only [GatesNode.standing, hrep, Option.map_some, if_pos]
        rfl
      · rw [if_neg hp, if_neg hp]
        rfl

/-- The entry of `p` that a call finds, in the table and in the view. -/
theorem ownView_entry {n : GatesNode P} (p : Address)
    (caches : Address → ReplayCache)
    (hpolicy : n.reputation.policy = .default) (now : Nat) :
    (ownView p caches n).entry now = (n.reputation.entry p now).standing := by
  rw [OwnView.entry, ownView, GatesNode.standing, ReputationTable.entry,
    hpolicy]
  cases n.reputation.inner p with
  | none => rfl
  | some rep => rfl

/-- An envelope of a peer without a token leaves its view alone. -/
theorem call_of_unavailable {n : GatesNode P} {p : Address} {now : Nat}
    {caches : Address → ReplayCache}
    (hpolicy : n.reputation.policy = .default)
    (hnone : n.reputation.available p now = 0) :
    (ownView p caches n).call now (fun rep => (rep.observe .default now).2)
      = ownView p caches n := by
  unfold ReputationTable.available ReputationTable.entry at hnone
  rw [hpolicy] at hnone
  unfold OwnView.call OwnView.entry ownView GatesNode.standing
  cases hrep : n.reputation.inner p with
  | none =>
      rw [hrep] at hnone
      simp [PeerReputation.available, PeerReputation.fresh,
        PeerReputation.refill, ReputationPolicy.default,
        defaultBucketCapacity] at hnone
  | some rep =>
      rw [hrep, Option.getD_some] at hnone
      have hsame := PeerReputation.observe_of_unavailable (by decide)
        (by decide) hnone
      simp only [Option.map_some, Option.getD_some,
        PeerReputation.observe_standing, hsame]

-- ==================================================== what a step does

section steps

variable {p : Address} {caches : Address → ReplayCache} {n n' : GatesNode P}

/-- The third step: the replay gate of the session's endpoint lets the
envelope in or drops it, or the first gate has dropped it. -/
theorem check_step [DecidableEq P] {id : SessionId} {env : Envelope P}
    {clock : Option Nat} {order : IterOrder}
    (h : gatesStep n (.check id env clock order) = some n') :
    (n.sessions id = some (.check env true)
        ∧ n' = GatesNode.goOn { n with
            gates := Function.update n.gates id.endpoint
              (gateStep (n.gates id.endpoint) ⟨env, clock, order⟩)
            admitted :=
              if admits (n.gates id.endpoint) ⟨env, clock, order⟩ = true
                then (id, env) :: n.admitted else n.admitted } id .accept)
      ∨ n.sessions id = some (.check env false)
        ∧ n' = n.goOn id .accept := by
  simp only [gatesStep] at h
  split at h
  case isTrue hpc =>
    refine Or.inl ⟨hpc, ?_⟩
    split at h
    case isTrue hok =>
      rw [Option.some.injEq] at h
      rw [if_pos (show admits _ _ = true from hok), ← h]
      rfl
    case isFalse hok =>
      rw [Option.some.injEq] at h
      rw [if_neg (show ¬ admits _ _ = true from hok), ← h]
      rfl
  case isFalse =>
    simp only [Option.ite_none_right_eq_some, Option.some.injEq] at h
    exact Or.inr ⟨h.1, h.2.symm⟩

/-- What a cache holds after an arrival: what it held, and the key of an
envelope it let in. -/
theorem holds_gateStep {g : Gate} {a : Arrival P} {k : Key}
    (h : (gateStep g a).replay.holds k) :
    g.replay.holds k ∨ admits g a = true ∧ k = replayKey a.env := by
  have hsweep : ∀ now, (g.replay.sweep now).holds k → g.replay.holds k :=
    fun now hk => List.map_subset _ (List.filter_subset_self _) hk
  rcases gateStep_cases g a with ⟨-, hg⟩ | ⟨now, -, -, hg⟩
    | ⟨now, _, -, hadm, hg⟩
  · rw [hg] at h
    exact Or.inl h
  · rw [hg] at h
    exact Or.inl (hsweep now h)
  · rw [hg] at h
    rcases List.mem_cons.mp h with rfl | hk
    · exact Or.inr ⟨hadm, rfl⟩
    · exact Or.inl (hsweep now
        (((ReplayCache.makeRoom_sublist ..).map _).subset hk))

-- ======================================================= the invariant

/-- What holds of a run in which nobody spends `p`'s tokens. -/
structure OwnInv (p : Address) (caches : Address → ReplayCache)
    (n : GatesNode P) : Prop where
  policy : n.reputation.policy = .default
  /-- Past the reputation gate, `p`'s envelopes are on its own sessions. -/
  metered : ∀ id env, n.sessions id = some (.check env true) →
    env.fromSide = p → id.peer = p
  admitted : ∀ x ∈ n.admitted, x.2.fromSide = p → x.1.peer = p
  /-- A cache holds what it started with and what came in. -/
  seen : ∀ side k, (n.gates side).replay.holds k →
    (caches side).holds k
      ∨ ∃ x ∈ n.admitted, x.1.endpoint = side ∧ replayKey x.2 = k

theorem ownInv_start (p : Address) (caches : Address → ReplayCache) :
    OwnInv p caches (GatesNode.start caches : GatesNode P) where
  policy := rfl
  metered := fun id env h => by cases h
  admitted := fun x h => by cases h
  seen := fun side k h => Or.inl h

/-- The entries of the table do not matter to it. -/
theorem OwnInv.withReputation (hinv : OwnInv p caches n)
    {t : ReputationTable} (hpolicy : t.policy = n.reputation.policy) :
    OwnInv p caches { n with reputation := t } where
  policy := hpolicy.trans hinv.policy
  metered := hinv.metered
  admitted := hinv.admitted
  seen := hinv.seen

/-- Nor does a loop, unless it gets past the reputation gate. -/
theorem OwnInv.goOn (hinv : OwnInv p caches n) {id : SessionId}
    {pc : GatesPc P} (hpc : ∀ env, pc = .check env true →
      env.fromSide = p → id.peer = p) : OwnInv p caches (n.goOn id pc) where
  policy := hinv.policy
  metered := by
    intro id' env h
    rcases (Table.insert_eq_some_iff _).mp h with ⟨rfl, hcheck⟩ | ⟨-, hold⟩
    · exact hpc env hcheck
    · exact hinv.metered id' env hold
  admitted := hinv.admitted
  seen := hinv.seen

/-- An envelope that is past the reputation gate comes to a replay gate. -/
theorem OwnInv.check (hinv : OwnInv p caches n) {id : SessionId}
    {env : Envelope P} (hpc : n.sessions id = some (.check env true))
    (clock : Option Nat) (order : IterOrder) :
    OwnInv p caches { n with
      gates := Function.update n.gates id.endpoint
        (gateStep (n.gates id.endpoint) ⟨env, clock, order⟩)
      admitted :=
        if admits (n.gates id.endpoint) ⟨env, clock, order⟩ = true
          then (id, env) :: n.admitted else n.admitted } where
  policy := hinv.policy
  metered := hinv.metered
  admitted := by
    intro x hx hfrom
    dsimp only at hx
    split at hx
    · rcases List.mem_cons.mp hx with rfl | hx
      · exact hinv.metered id env hpc hfrom
      · exact hinv.admitted x hx hfrom
    · exact hinv.admitted x hx hfrom
  seen := by
    intro side k hk
    dsimp only at hk ⊢
    have hkeep : (n.gates side).replay.holds k →
        (caches side).holds k ∨ ∃ x ∈
          if admits (n.gates id.endpoint) ⟨env, clock, order⟩ = true
            then (id, env) :: n.admitted else n.admitted,
          x.1.endpoint = side ∧ replayKey x.2 = k := by
      intro hold
      rcases hinv.seen side k hold with hstart | ⟨x, hx, hkey⟩
      · exact Or.inl hstart
      · refine Or.inr ⟨x, ?_, hkey⟩
        split
        · exact List.mem_cons_of_mem _ hx
        · exact hx
    by_cases hside : side = id.endpoint
    · subst hside
      rw [Function.update_self] at hk
      rcases holds_gateStep hk with hold | ⟨hadm, rfl⟩
      · exact hkeep hold
      · refine Or.inr ⟨(id, env), ?_, rfl, rfl⟩
        rw [if_pos hadm]
        exact List.mem_cons_self
    · rw [Function.update_of_ne hside] at hk
      exact hkeep hk

theorem ownInv_step [DecidableEq P] {a : GatesAction P}
    (hok : Unspent p n a) (hinv : OwnInv p caches n)
    (h : gatesStep n a = some n') : OwnInv p caches n' := by
  cases a with
  | openSession id =>
      simp only [gatesStep, Option.ite_none_right_eq_some,
        Option.some.injEq] at h
      obtain ⟨-, rfl⟩ := h
      exact hinv.goOn fun _ hpc => by cases hpc
  | accept id env =>
      simp only [gatesStep, Option.ite_none_right_eq_some,
        Option.some.injEq] at h
      obtain ⟨-, rfl⟩ := h
      exact hinv.goOn fun _ hpc => by cases hpc
  | meter id env clock =>
      simp only [gatesStep, Option.ite_none_right_eq_some,
        Option.some.injEq] at h
      obtain ⟨-, rfl⟩ := h
      refine (hinv.withReputation
        (ReputationTable.observeEnvelope_policy ..)).goOn ?_
      intro env' hpc hfrom
      injection hpc with henv hpassed
      subst henv
      -- a copy with a token to spend is what the condition rules out
      by_contra hpeer
      have htoken := (ReputationTable.observeEnvelope_fst ..).mp hpassed
      rw [hfrom, hok hpeer hfrom] at htoken
      exact absurd htoken (by decide)
  | check id env clock order =>
      rcases check_step h with ⟨hpc, rfl⟩ | ⟨-, rfl⟩
      · exact (hinv.check hpc clock order).goOn fun _ hpc => by cases hpc
      · exact hinv.goOn fun _ hpc => by cases hpc
  | closeSession id =>
      simp only [gatesStep, Option.ite_none_right_eq_some,
        Option.some.injEq] at h
      obtain ⟨-, rfl⟩ := h
      exact ⟨hinv.policy, fun id' env h' => hinv.metered id' env
        ((Table.erase_eq_some_iff _).mp h').2, hinv.admitted, hinv.seen⟩
  | recordSigFailure peer now =>
      obtain rfl := Option.some.inj h
      exact hinv.withReputation rfl
  | recordMalformed peer now =>
      obtain rfl := Option.some.inj h
      exact hinv.withReputation rfl
  | refuse peer now =>
      obtain rfl := Option.some.inj h
      exact hinv.withReputation rfl
  | reinstate peer =>
      obtain rfl := Option.some.inj h
      exact hinv.withReputation (ReputationTable.reinstate_policy ..)

-- ======================================================== the view step

omit n n' in
/-- An envelope of `p` that came in has come in a first time, when all of
`p`'s came on its own sessions. -/
theorem exists_firstOwn {x : SessionId × Envelope P} :
    ∀ {log : List (SessionId × Envelope P)},
      (∀ y ∈ log, y.2.fromSide = p → y.1.peer = p) →
      x.2.fromSide = p → ¬ Preloaded caches x → (∃ y ∈ log, SameKey y x) →
      ∃ y ∈ firstOwn p caches log, SameKey y x := by
  intro log hown hfrom hstart
  induction log with
  | nil => exact fun ⟨y, hy, _⟩ => absurd hy (by simp)
  | cons z older ih =>
      intro hsome
      have ih := ih fun y hy => hown y (List.mem_cons_of_mem _ hy)
      by_cases holder : ∃ y ∈ older, SameKey y x
      · obtain ⟨y, hy, hkey⟩ := ih holder
        refine ⟨y, ?_, hkey⟩
        rw [firstOwn]
        split
        · exact List.mem_cons_of_mem _ hy
        · exact hy
      · obtain ⟨y, hy, hkey⟩ := hsome
        rcases List.mem_cons.mp hy with rfl | hy
        · have hsigner : y.2.fromSide = p :=
            (congrArg Key.fromSide hkey.2).trans hfrom
          have hnew : IsOwn p y ∧ ¬ Preloaded caches y
              ∧ ∀ z ∈ older, ¬ SameKey z y := by
            refine ⟨⟨hown y List.mem_cons_self hsigner, hsigner⟩, ?_, ?_⟩
            · rw [Preloaded, hkey.1, hkey.2]
              exact hstart
            · intro z hz hzy
              exact holder ⟨z, hz, hzy.1.trans hkey.1, hzy.2.trans hkey.2⟩
          refine ⟨y, ?_, hkey⟩
          rw [firstOwn, if_pos hnew]
          exact List.mem_cons_self
        · exact absurd ⟨y, hy, hkey⟩ holder

omit n n' in
theorem firstOwn_subset {log : List (SessionId × Envelope P)} :
    firstOwn p caches log ⊆ log := by
  induction log with
  | nil => exact List.Subset.refl _
  | cons x older ih =>
      rw [firstOwn]
      split
      · exact List.cons_subset_cons _ ih
      · exact List.subset_cons_of_subset _ ih

/-- The replay gate lets an envelope of `p` in for the first time exactly
when its timestamp is in the window and it has not come before. -/
theorem firstOwn_check (hinv : OwnInv p caches n) {id : SessionId}
    {env : Envelope P} {clock : Option Nat} {order : IterOrder}
    (hown : IsOwn p (id, env)) :
    firstOwn p caches
        (if admits (n.gates id.endpoint) ⟨env, clock, order⟩ = true
          then (id, env) :: n.admitted else n.admitted)
      = ((ownView p caches n).check caches id env clock).first := by
  have hvacant : (∀ y ∈ firstOwn p caches n.admitted, ¬ SameKey y (id, env))
      → ¬ Preloaded caches (id, env) →
      ¬ (n.gates id.endpoint).replay.holds (replayKey env) := by
    intro hfirst hstart hheld
    rcases hinv.seen _ _ hheld with hheld | ⟨x, hx, hside, hkey⟩
    · exact hstart hheld
    · obtain ⟨y, hy, hyx⟩ := exists_firstOwn hinv.admitted hown.2 hstart
        ⟨x, hx, hside, hkey⟩
      exact hfirst y hy hyx
  cases clock with
  | none =>
      have hdrop : ¬ admits (n.gates id.endpoint) ⟨env, none, order⟩
          = true := by
        rw [admits_iff]
        exact fun ⟨now, hnow, _⟩ => by cases hnow
      rw [if_neg hdrop]
      rfl
  | some now =>
      simp only [OwnView.check]
      by_cases hadm : admits (n.gates id.endpoint) ⟨env, some now, order⟩ = true
      · obtain ⟨now', hnow, hskew, -⟩ := admits_iff.mp hadm
        injection hnow with hnow
        subst hnow
        rw [if_pos hadm, firstOwn]
        by_cases hnew : ¬ Preloaded caches (id, env)
            ∧ ∀ y ∈ n.admitted, ¬ SameKey y (id, env)
        · rw [if_pos ⟨hown, hnew⟩, if_pos ⟨hskew, hnew.1, fun y hy =>
            hnew.2 y (firstOwn_subset hy)⟩]
          rfl
        · rw [if_neg fun h => hnew h.2, if_neg]
          · rfl
          · rintro ⟨-, hstart, hfirst⟩
            refine hnew ⟨hstart, fun y hy hkey => ?_⟩
            obtain ⟨z, hz, hzx⟩ := exists_firstOwn hinv.admitted hown.2 hstart
              ⟨y, hy, hkey⟩
            exact hfirst z hz hzx
      · rw [if_neg hadm, if_neg]
        · rfl
        · rintro ⟨hskew, hstart, hfirst⟩
          refine hadm (admits_iff.mpr ⟨now, rfl, hskew, fun hheld => ?_⟩)
          exact hvacant hfirst hstart
            (List.map_subset _ (List.filter_subset_self _) hheld)

/-- So an envelope at the replay gate moves the view as the view says. -/
theorem ownView_check (hinv : OwnInv p caches n) (id : SessionId)
    (env : Envelope P) (clock : Option Nat) (order : IterOrder) :
    ownView p caches { n with
        gates := Function.update n.gates id.endpoint
          (gateStep (n.gates id.endpoint) ⟨env, clock, order⟩)
        admitted :=
          if admits (n.gates id.endpoint) ⟨env, clock, order⟩ = true
            then (id, env) :: n.admitted else n.admitted }
      = if IsOwn p (id, env)
          then (ownView p caches n).check caches id env clock
        else ownView p caches n := by
  by_cases hown : IsOwn p (id, env)
  · rw [if_pos hown, ownView, firstOwn_check hinv hown]
    rfl
  · have hold : firstOwn p caches ((id, env) :: n.admitted)
        = firstOwn p caches n.admitted := by
      rw [firstOwn, if_neg fun h => hown h.1]
    rw [if_neg hown, ownView]
    split
    · rw [hold]
      rfl
    · rfl

theorem ownSessions_apply {id : SessionId} {pc : GatesPc P}
    (hpeer : id.peer = p) (hpc : n.sessions id = some pc) :
    (ownView p caches n).sessions id = some (ownPc p pc) := by
  simp [ownView, ownSessions, hpeer, hpc]

/-- Every step moves the view by what is `p`'s own in it. -/
theorem ownView_step [DecidableEq P] {a : GatesAction P}
    (hok : Unspent p n a) (hinv : OwnInv p caches n)
    (h : gatesStep n a = some n') :
    ownView p caches n' = ((own p a).map ((ownView p caches n).step p
      caches)).getD (ownView p caches n) := by
  cases a with
  | openSession id | accept id env =>
      simp only [gatesStep, Option.ite_none_right_eq_some,
        Option.some.injEq] at h
      obtain ⟨-, rfl⟩ := h
      rw [ownView_goOn]
      simp only [own, sessionOf]
      split <;> rfl
  | meter id env clock =>
      simp only [gatesStep, Option.ite_none_right_eq_some,
        Option.some.injEq] at h
      obtain ⟨-, rfl⟩ := h
      have hcall : ownView p caches (n.checkReputationGate env clock).2
          = if p = env.fromSide then (ownView p caches n).call (clock.getD 0)
              fun rep => (rep.observe .default (clock.getD 0)).2
            else ownView p caches n := by
        rw [← hinv.policy]
        exact ownView_call
          (f := fun rep => (rep.observe n.reputation.policy (clock.getD 0)).2)
          hinv.policy (PeerReputation.observe_standing _ _)
      rw [ownView_goOn, hcall]
      simp only [own, sessionOf]
      by_cases hpeer : id.peer = p
      · rw [if_pos hpeer, if_pos hpeer]
        simp only [Option.map_some, Option.getD_some, unordered, OwnView.step]
        by_cases hfrom : env.fromSide = p
        · rw [if_pos hfrom.symm, if_pos hfrom, ownView_entry p caches
            hinv.policy, PeerReputation.observe_standing_fst, ← hinv.policy]
          simp only [ownPc, hfrom, decide_true, Bool.and_true,
            GatesNode.checkReputationGate, ReputationTable.observeEnvelope]
        · rw [if_neg (Ne.symm hfrom), if_neg hfrom]
          simp only [ownPc, hfrom, decide_false, Bool.and_false]
      · rw [if_neg hpeer, if_neg hpeer]
        by_cases hfrom : env.fromSide = p
        · rw [if_pos hfrom.symm]
          exact call_of_unavailable hinv.policy (hok hpeer hfrom)
        · rw [if_neg (Ne.symm hfrom)]
          rfl
  | check id env clock order =>
      simp only [own, sessionOf]
      rcases check_step h with ⟨hpc, rfl⟩ | ⟨hpc, rfl⟩
      · rw [ownView_goOn, ownView_check hinv]
        by_cases hpeer : id.peer = p
        · rw [if_pos hpeer, if_pos hpeer]
          simp only [Option.map_some, Option.getD_some, unordered,
            OwnView.step, ownSessions_apply hpeer hpc, ownPc]
          by_cases hfrom : env.fromSide = p
          · rw [if_pos ⟨hpeer, hfrom⟩, if_pos (by simp [hfrom])]
          · rw [if_neg fun hown => hfrom hown.2, if_neg (by simp [hfrom])]
        · rw [if_neg hpeer, if_neg hpeer, if_neg fun hown => hpeer hown.1]
          rfl
      · rw [ownView_goOn]
        by_cases hpeer : id.peer = p
        · rw [if_pos hpeer, if_pos hpeer]
          simp only [Option.map_some, Option.getD_some, unordered,
            OwnView.step, ownSessions_apply hpeer hpc, ownPc]
          rw [if_neg (by simp)]
        · rw [if_neg hpeer, if_neg hpeer]
          rfl
  | closeSession id =>
      simp only [gatesStep, Option.ite_none_right_eq_some,
        Option.some.injEq] at h
      obtain ⟨-, rfl⟩ := h
      rw [ownView, ownSessions_erase]
      simp only [own, sessionOf]
      split <;> rfl
  | recordSigFailure peer now =>
      obtain rfl := Option.some.inj h
      refine (ownView_call hinv.policy
        (PeerReputation.sigFailed_standing _ now)).trans ?_
      rw [hinv.policy]
      rfl
  | recordMalformed peer now =>
      obtain rfl := Option.some.inj h
      refine (ownView_call hinv.policy
        (PeerReputation.malformed_standing _ now)).trans ?_
      rw [hinv.policy]
      rfl
  | refuse peer now =>
      obtain rfl := Option.some.inj h
      exact ownView_call hinv.policy fun rep => rfl
  | reinstate peer =>
      obtain rfl := Option.some.inj h
      exact ownView_reinstate n p peer caches

end steps

-- ========================================================= the theorem

/-- Two runs of a node with the same arrivals on `p`'s sessions, in which
nobody else's copies of `p`'s envelopes find a token of `p`'s: the same
envelopes of `p` get through, and `p` stands the same. -/
theorem rate_isolated [DecidableEq P] (p : Address)
    (caches : Address → ReplayCache) {as bs : List (GatesAction P)}
    {a b : GatesNode P}
    (has : Along gatesStep (Unspent p) (.start caches) as)
    (hbs : Along gatesStep (Unspent p) (.start caches) bs)
    (hown : as.filterMap (own p) = bs.filterMap (own p))
    (ha : run gatesStep (.start caches) as = some a)
    (hb : run gatesStep (.start caches) bs = some b) :
    firstOwn p caches a.admitted = firstOwn p caches b.admitted
      ∧ a.standing p = b.standing p := by
  have hinv (n : GatesNode P) (a : GatesAction P) (n' : GatesNode P) :
      Unspent p n a → OwnInv p caches n → gatesStep n a = some n' →
        OwnInv p caches n' := ownInv_step
  have hview : ownView p caches a = ownView p caches b :=
    view_runs hinv (fun n a n' => ownView_step) has hbs
      (ownInv_start p caches) hown ha hb
  exact ⟨congrArg OwnView.first hview, congrArg OwnView.standing hview⟩

-- ========================================================= the drain

section drain

variable [DecidableEq P] {n : GatesNode P} {id : SessionId}
  {env : Envelope P} {now left : Nat}

/-- A loop has the envelope from beginning to end. -/
def handle (id : SessionId) (env : Envelope P) (now : Nat) :
    List (GatesAction P) :=
  [.accept id env, .meter id env (some now),
    .check id env (some now) .listed]

/-- What that comes to: both gates, or only the first one. -/
theorem run_handle (hidle : n.sessions id = some .accept) :
    run gatesStep n (handle id env now) = some (
      let metered := n.checkReputationGate env (some now)
      if metered.1 then
        let checked := metered.2.checkFreshnessAndReplay id.endpoint
          ⟨env, some now, .listed⟩
        if checked.1 then checked.2.letThrough id env else checked.2
      else metered.2) := by
  have haccept : gatesStep n (.accept id env)
      = some (n.goOn id (.meter env)) := if_pos hidle
  have hmeter : gatesStep (n.goOn id (.meter env)) (.meter id env (some now))
      = some ((n.checkReputationGate env (some now)).2.goOn id
          (.check env (n.checkReputationGate env (some now)).1)) := by
    rw [gatesStep, if_pos (GatesNode.goOn_sessions ..)]
    exact congrArg some (GatesNode.goOn_goOn
      (n.checkReputationGate env (some now)).2 id (.meter env) _)
  have hback : ∀ m : GatesNode P, ∀ pc, m.sessions = n.sessions →
      (m.goOn id pc).goOn id .accept = m := by
    intro m pc hm
    rw [GatesNode.goOn_goOn, GatesNode.goOn_self (hm ▸ hidle)]
  rw [handle, run_cons, haccept, Option.bind_some, run_cons, hmeter,
    Option.bind_some, run_cons]
  have hsame : (n.checkReputationGate env (some now)).2.sessions
      = n.sessions := rfl
  generalize n.checkReputationGate env (some now) = metered at hsame ⊢
  obtain ⟨ok, m⟩ := metered
  cases ok with
  | false =>
      have hdone := hback m (.check env false) hsame
      rw [gatesStep, if_neg (by simp), if_pos (GatesNode.goOn_sessions ..),
        hdone]
      rfl
  | true =>
      have hdone := fun m' (hm' : m'.sessions = m.sessions) =>
        hback m' (.check env true) (hm'.trans hsame)
      rw [gatesStep, if_pos (GatesNode.goOn_sessions ..)]
      cases hchecked : (m.checkFreshnessAndReplay id.endpoint
          ⟨env, some now, .listed⟩).1 with
      | false =>
          rw [if_neg (by exact ne_true_of_eq_false hchecked)]
          simp only [Option.bind_some, run_nil, hchecked, if_true,
            Bool.false_eq_true, if_false]
          exact congrArg some (hdone
            (m.checkFreshnessAndReplay _ _).2 rfl)
      | true =>
          rw [if_pos (by exact hchecked)]
          simp only [Option.bind_some, run_nil, hchecked, if_true]
          exact congrArg some (hdone
            ((m.checkFreshnessAndReplay _ _).2.letThrough id env) rfl)

/-- A loop is idle, and the signer of a replayed envelope has some tokens
left this second. -/
structure Replaying (n : GatesNode P) (id : SessionId) (env : Envelope P)
    (now left : Nat) : Prop where
  idle : n.sessions id = some .accept
  bucket : ∃ rep, n.reputation.inner env.fromSide = some rep
    ∧ rep.refused = false ∧ rep.lastRefillAt = now ∧ rep.tokens = left
  held : ((n.gates id.endpoint).replay.sweep now).holds (replayKey env)

omit [DecidableEq P] in
theorem Replaying.available (h : Replaying n id env now left) :
    n.reputation.available env.fromSide now = left := by
  obtain ⟨rep, hrep, hok, hat, htokens⟩ := h.bucket
  rw [ReputationTable.available, ReputationTable.entry, hrep,
    Option.getD_some, PeerReputation.available, hok]
  simp [PeerReputation.refill, hat, htokens]

/-- Without a token an envelope is dropped, and that is all. -/
theorem handle_dropped (hidle : n.sessions id = some .accept)
    (hnone : n.reputation.available env.fromSide now = 0) :
    ∃ n', run gatesStep n (handle id env now) = some n'
      ∧ n'.sessions = n.sessions ∧ n'.admitted = n.admitted := by
  have hmetered : (n.checkReputationGate env (some now)).1 = false := by
    rw [← Bool.not_eq_true, GatesNode.checkReputationGate]
    intro htoken
    have := (ReputationTable.observeEnvelope_fst ..).mp htoken
    rw [Option.getD_some, hnone] at this
    exact absurd this (by decide)
  rw [run_handle hidle]
  simp only [hmetered, Bool.false_eq_true, if_false]
  exact ⟨_, rfl, rfl, rfl⟩

omit [DecidableEq P] in
/-- A second sweep at the same time finds nothing. -/
theorem sweep_sweep (c : ReplayCache) (now : Nat) :
    ((c.sweep now).sweep now).entries = (c.sweep now).entries := by
  simp only [ReplayCache.sweep, List.filter_filter]
  refine List.filter_congr fun e _ => ?_
  exact Bool.and_self _

/-- A replayed envelope costs its signer a token and is dropped. -/
theorem handle_replayed (h : Replaying n id env now (left + 1)) :
    ∃ n', run gatesStep n (handle id env now) = some n'
      ∧ Replaying n' id env now left
      ∧ n'.sessions = n.sessions ∧ n'.admitted = n.admitted := by
  have hmetered : (n.checkReputationGate env (some now)).1 = true := by
    refine (ReputationTable.observeEnvelope_fst ..).mpr ?_
    rw [Option.getD_some, h.available]
    omega
  have hdropped : ((n.checkReputationGate env
      (some now)).2.checkFreshnessAndReplay id.endpoint
        ⟨env, some now, .listed⟩).1 = false := by
    rw [← Bool.not_eq_true]
    intro hadm
    obtain ⟨now', hnow, -, hvacant⟩ := admits_iff.mp hadm
    injection hnow with hnow
    subst hnow
    exact hvacant h.held
  rw [run_handle h.idle]
  simp only [hmetered, hdropped, Bool.false_eq_true, if_true, if_false]
  refine ⟨_, rfl, ⟨h.idle, ?_, ?_⟩, rfl, rfl⟩
  · obtain ⟨rep, hrep, hok, hat, htokens⟩ := h.bucket
    refine ⟨_, ReputationTable.set_inner_self .., ?_⟩
    rw [Option.getD_some, ReputationTable.entry, hrep, Option.getD_some]
    simp [PeerReputation.observe, PeerReputation.notice,
      PeerReputation.refill, hok, hat, htokens]
  · have hgate : (GatesNode.checkFreshnessAndReplay
        (n.checkReputationGate env (some now)).2 id.endpoint
        ⟨env, some now, .listed⟩).2.gates id.endpoint
        = gateStep (n.gates id.endpoint) ⟨env, some now, .listed⟩ :=
      Function.update_self ..
    rw [hgate]
    rcases gateStep_cases (n.gates id.endpoint) ⟨env, some now, .listed⟩
      with ⟨-, hcache⟩ | ⟨now', hnow, -, hcache⟩ | ⟨-, -, -, hadm, -⟩
    · rw [hcache]
      exact h.held
    · injection hnow with hnow
      subst hnow
      rw [hcache, ReplayCache.holds, sweep_sweep]
      exact h.held
    · exact absurd hadm (ne_true_of_eq_false hdropped)

/-- A party that has one replayed envelope takes as many of its signer's
tokens as it likes. -/
theorem resent_drains (k : Nat) : ∀ {n : GatesNode P},
    Replaying n id env now (left + k) →
    ∃ n', run gatesStep n (List.replicate k (handle id env now)).flatten
        = some n'
      ∧ Replaying n' id env now left
      ∧ n'.sessions = n.sessions ∧ n'.admitted = n.admitted := by
  induction k with
  | zero => exact fun h => ⟨_, rfl, h, rfl, rfl⟩
  | succ k ih =>
      intro n h
      obtain ⟨m, hm, hreplaying, hsessions, hadmitted⟩ := handle_replayed h
      obtain ⟨n', hn', hleft, hsessions', hadmitted'⟩ := ih hreplaying
      refine ⟨n', ?_, hleft, hsessions'.trans hsessions,
        hadmitted'.trans hadmitted⟩
      rw [List.replicate_succ, List.flatten_cons, run_append, hm]
      exact hn'

end drain

/-- An envelope of a side, by its nonce. -/
def signedBy (side nonce : UInt8) : Envelope Unit :=
  ⟨.directMessage, Bytes.fill _ side, none, 1000, Bytes.fill _ nonce, ()⟩

/-- The first session of a peer at side 9. -/
def sessionAs (peer : UInt8) : SessionId :=
  ⟨Bytes.fill _ 9, Bytes.fill _ peer, 0⟩

/-- Two envelopes of side 1, on its own session. -/
def aloneRun : List (GatesAction Unit) :=
  [.openSession (sessionAs 1)]
    ++ handle (sessionAs 1) (signedBy 1 0) 1000
    ++ handle (sessionAs 1) (signedBy 1 1) 1000

/-- The same, with an envelope of side 2 in between. -/
def besideRun : List (GatesAction Unit) :=
  [.openSession (sessionAs 1), .openSession (sessionAs 2)]
    ++ handle (sessionAs 1) (signedBy 1 0) 1000
    ++ handle (sessionAs 2) (signedBy 2 0) 1000
    ++ handle (sessionAs 1) (signedBy 1 1) 1000

/-- The same, with side 1's first envelope 99 times more from side 2. -/
def resentRun : List (GatesAction Unit) :=
  [.openSession (sessionAs 1), .openSession (sessionAs 2)]
    ++ handle (sessionAs 1) (signedBy 1 0) 1000
    ++ (List.replicate 99 (handle (sessionAs 2) (signedBy 1 0) 1000)).flatten
    ++ handle (sessionAs 1) (signedBy 1 1) 1000

theorem rate_isolated_beside :
    ∃ a b : GatesNode Unit,
      run gatesStep (.start fun _ => .new) besideRun = some a
      ∧ run gatesStep (.start fun _ => .new) aloneRun = some b
      ∧ firstOwn (Bytes.fill _ 1) (fun _ => .new) a.admitted
        = firstOwn (Bytes.fill _ 1) (fun _ => .new) b.admitted
      ∧ a.standing (Bytes.fill _ 1) = b.standing (Bytes.fill _ 1) := by
  have hbeside : run gatesStep (.start fun _ => .new) besideRun = some _ := rfl
  have halone : run gatesStep (.start fun _ => .new) aloneRun = some _ := rfl
  have hown : besideRun.filterMap (own (Bytes.fill _ 1))
      = aloneRun.filterMap (own (Bytes.fill _ 1)) := rfl
  refine ⟨_, _, hbeside, halone, rate_isolated (Bytes.fill _ 1)
    (fun _ => .new) ?_ ?_ hown hbeside halone⟩
  · refine along_of_forall _ _ ?_
    simp [besideRun, handle, Unspent, sessionAs, signedBy]
    exact fun _ hne heq => absurd heq hne
  · refine along_of_forall _ _ ?_
    simp [aloneRun, handle, Unspent, sessionAs, signedBy]

theorem mem_resent {k : Nat} {id : SessionId} {env : Envelope Unit}
    {now : Nat} {a : GatesAction Unit}
    (h : a ∈ (List.replicate k (handle id env now)).flatten) :
    a = .accept id env ∨ a = .meter id env (some now)
      ∨ a = .check id env (some now) .listed := by
  obtain ⟨l, hl, ha⟩ := List.mem_flatten.mp h
  rw [List.eq_of_mem_replicate hl] at ha
  simpa [handle] using ha

/-- Side 1's second envelope, sent once and on its own session, is dropped
where side 2 has been at it, and gets through where it has not. -/
theorem resent_envelope_starves :
    ¬ ∀ (p : Address) (caches : Address → ReplayCache)
        (as bs : List (GatesAction Unit)) (a b : GatesNode Unit),
      OnlyResent p as → OnlyResent p bs →
      as.filterMap (own p) = bs.filterMap (own p) →
      run gatesStep (.start caches) as = some a →
      run gatesStep (.start caches) bs = some b →
      firstOwn p caches a.admitted = firstOwn p caches b.admitted := by
  intro hall
  have hfirst : ∃ n : GatesNode Unit, run gatesStep (.start fun _ => .new)
      ([.openSession (sessionAs 1), .openSession (sessionAs 2)]
        ++ handle (sessionAs 1) (signedBy 1 0) 1000) = some n
      ∧ Replaying n (sessionAs 2) (signedBy 1 0) 1000 (0 + 99)
      ∧ n.sessions (sessionAs 1) = some .accept
      ∧ n.admitted = [(sessionAs 1, signedBy 1 0)] := by
    refine ⟨_, rfl, ⟨rfl, ⟨_, rfl, rfl, rfl, rfl⟩, ?_⟩, rfl, rfl⟩
    decide
  obtain ⟨n, hn, hreplaying, hidle, hadmitted⟩ := hfirst
  obtain ⟨m, hm, hdrained, hsessions, hadmitted'⟩ := resent_drains 99 hreplaying
  have hnone : m.reputation.available (signedBy 1 1).fromSide 1000 = 0 :=
    hdrained.available
  obtain ⟨a, ha, -, hadmitted''⟩ := handle_dropped (hsessions ▸ hidle) hnone
  have hresent : run gatesStep (.start fun _ => .new) resentRun = some a := by
    rw [resentRun, run_append, run_append, hn, Option.bind_some, hm]
    exact ha
  have halone : run gatesStep (.start fun _ => .new) aloneRun = some _ := rfl
  have hown : resentRun.filterMap (own (Bytes.fill _ 1))
      = aloneRun.filterMap (own (Bytes.fill _ 1)) := by
    have hnone : (List.replicate 99
        (handle (sessionAs 2) (signedBy 1 0) 1000)).flatten.filterMap
          (own (Bytes.fill _ 1)) = [] := by
      rw [List.filterMap_eq_nil_iff]
      intro x hx
      rcases mem_resent hx with rfl | rfl | rfl <;> rfl
    rw [resentRun, List.filterMap_append, List.filterMap_append, hnone]
    rfl
  have hresentOnly : OnlyResent (Bytes.fill _ 1) resentRun := by
    intro id env hmem hpeer hfrom
    have henv : env = signedBy 1 0 := by
      rw [resentRun, List.mem_append, List.mem_append] at hmem
      rcases hmem with (hmem | hmem) | hmem
      · simp [handle] at hmem
        exact absurd (congrArg SessionId.peer hmem.1) hpeer
      · rcases mem_resent hmem with h | h | h <;> cases h
        rfl
      · simp [handle] at hmem
        exact absurd (congrArg SessionId.peer hmem.1) hpeer
    subst henv
    refine ⟨sessionAs 1, rfl, ?_⟩
    rw [resentRun, List.mem_append, List.mem_append, List.mem_append]
    exact Or.inl (Or.inl (Or.inr List.mem_cons_self))
  have haloneOnly : OnlyResent (Bytes.fill _ 1) aloneRun := by
    intro id env hmem hpeer _
    simp [aloneRun, handle] at hmem
    rcases hmem with ⟨rfl, -⟩ | ⟨rfl, -⟩ <;> exact absurd rfl hpeer
  have hsame := hall _ (fun _ => .new) resentRun aloneRun a _ hresentOnly
    haloneOnly hown hresent halone
  rw [hadmitted'', hadmitted', hadmitted] at hsame
  exact absurd hsame (by decide)

end Sidevers.Proofs
