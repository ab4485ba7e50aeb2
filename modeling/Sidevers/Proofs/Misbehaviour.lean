/-
When a peer that keeps sending payloads that do not decode is refused.

No loop counts such a payload: their arms warn and go on, and whether a peer is
refused is up to the operator alone. So the invariant is about the operator's
calls: whoever had `maxMalformed` of them admitted was refused by hand, and
nobody else was (`RefusalInv`). Each step keeps it iff it is not the one that
leaves a peer unrefused past the limit or refuses a peer that did nothing
(`RefusesRightly`).
-/
import Sidevers.Net.ServeLoops
import Sidevers.Proofs.SignedForms

namespace Sidevers.Proofs

open Sidevers.Core
open Sidevers.Lib
open Sidevers.Net

-- ============================================================ the property

/-- Who had `maxMalformed` payloads admitted that did not decode has every
later envelope dropped at the reputation gate, whenever it comes, and who never
sent one nor a bad signature is not refused. -/
structure MisbehaviourRefused (n : LoopsNode) : Prop where
  dropped : ∀ peer, maxMalformed ≤ n.malformed peer →
    ∀ now, (n.gates.reputation.observeEnvelope peer now).1 = false
  spared : ∀ peer, n.misbehaved peer = false →
    n.gates.reputation.isRefused peer = false

/-- A step that admits a peer's payload that does not decode stays below the
limit, or the operator has refused the peer by then; and the operator refuses
nobody who did nothing. -/
def RefusesRightly (crypto : Crypto) (n : LoopsNode) : LoopsAction → Prop
  | .gates (.check id env clock order) =>
      n.admitsMalformed crypto id env clock order = true →
        n.malformed env.fromSide + 1 < maxMalformed
          ∨ n.gates.reputation.isRefused env.fromSide = true
  | .gates (.refuse peer _) => n.misbehaved peer = true
  | .gates (.recordMalformed peer now) =>
      n.misbehaved peer = true
        ∨ n.gates.reputation.isRefused peer = false
          ∧ saturatingSucc (n.gates.reputation.entry peer now).malformedPayloads
            < maxMalformed
  | .gates (.recordSigFailure peer now) =>
      n.misbehaved peer = true
        ∨ n.gates.reputation.isRefused peer = false
          ∧ saturatingSucc (n.gates.reputation.entry peer now).sigFailures
            < maxSigFailures
  | _ => True

-- ============================================================= the table

section table

variable {t : ReputationTable} {peer p : Address} {now : Nat}

theorem isRefused_set (rep : PeerReputation) :
    (t.set peer rep).isRefused p
      = if p = peer then rep.refused else t.isRefused p := by
  unfold ReputationTable.isRefused
  split
  case isTrue h =>
    rw [h, ReputationTable.set_inner_self]
    rfl
  case isFalse h => rw [ReputationTable.set_inner_of_ne t rep h]

/-- A peer the table does not have is not refused. -/
theorem entry_refused (t : ReputationTable) (peer : Address) (now : Nat) :
    (t.entry peer now).refused = t.isRefused peer := by
  unfold ReputationTable.entry ReputationTable.isRefused
  cases t.inner peer with
  | none => rfl
  | some rep => rfl

theorem refill_refused (policy : ReputationPolicy) (now : Nat)
    (rep : PeerReputation) : (rep.refill policy now).refused = rep.refused := by
  unfold PeerReputation.refill
  split <;> rfl

theorem observe_refused (policy : ReputationPolicy) (now : Nat)
    (rep : PeerReputation) :
    (rep.observe policy now).2.refused = rep.refused := by
  have hfull := refill_refused policy now (rep.notice now)
  unfold PeerReputation.observe
  dsimp only
  split
  case isTrue => rfl
  case isFalse =>
    split
    case isTrue => exact hfull
    case isFalse => exact hfull

/-- An envelope at the gate refuses nobody, and lets nobody off. -/
theorem isRefused_observe :
    (t.observeEnvelope peer now).2.isRefused p = t.isRefused p := by
  unfold ReputationTable.observeEnvelope
  rw [isRefused_set]
  split
  case isTrue h => rw [observe_refused, entry_refused, h]
  case isFalse => rfl

theorem isRefused_refuse :
    (t.refuse peer now).isRefused p
      = if p = peer then true else t.isRefused p := isRefused_set _

theorem isRefused_reinstate :
    (t.reinstate peer).isRefused p
      = if p = peer then false else t.isRefused p := by
  unfold ReputationTable.reinstate
  cases hrep : t.inner peer with
  | some rep => exact isRefused_set _
  | none =>
      dsimp only
      split
      case isTrue h =>
        unfold ReputationTable.isRefused
        rw [h, hrep]
        rfl
      case isFalse => rfl

/-- The recorders refuse the peer or leave it as it is. -/
theorem isRefused_recordMalformed :
    (t.recordMalformed peer now).2.isRefused p
      = if p = peer then (t.recordMalformed peer now).1 else t.isRefused p :=
  isRefused_set _

theorem isRefused_recordSigFailure :
    (t.recordSigFailure peer now).2.isRefused p
      = if p = peer then (t.recordSigFailure peer now).1 else t.isRefused p :=
  isRefused_set _

theorem recordMalformed_refused (h : t.isRefused peer = true) :
    (t.recordMalformed peer now).1 = true := by
  rw [← entry_refused t peer now] at h
  unfold ReputationTable.recordMalformed PeerReputation.malformed
  dsimp only
  split
  · rfl
  · exact h

theorem recordSigFailure_refused (h : t.isRefused peer = true) :
    (t.recordSigFailure peer now).1 = true := by
  rw [← entry_refused t peer now] at h
  unfold ReputationTable.recordSigFailure PeerReputation.sigFailed
  dsimp only
  split
  · rfl
  · exact h

/-- Below the limit the recorders refuse nobody. -/
theorem malformed_unrefused (policy : ReputationPolicy) (now : Nat)
    (rep : PeerReputation) :
    (rep.malformed policy now).refused = false
      ↔ rep.refused = false
        ∧ saturatingSucc rep.malformedPayloads < policy.maxMalformed := by
  unfold PeerReputation.malformed
  dsimp only
  by_cases hmany : saturatingSucc rep.malformedPayloads ≥ policy.maxMalformed
  · rw [if_pos hmany]
    simp
    omega
  · rw [if_neg hmany]
    simp
    omega

theorem sigFailed_unrefused (policy : ReputationPolicy) (now : Nat)
    (rep : PeerReputation) :
    (rep.sigFailed policy now).refused = false
      ↔ rep.refused = false
        ∧ saturatingSucc rep.sigFailures < policy.maxSigFailures := by
  unfold PeerReputation.sigFailed
  dsimp only
  by_cases hmany : saturatingSucc rep.sigFailures ≥ policy.maxSigFailures
  · rw [if_pos hmany]
    simp
    omega
  · rw [if_neg hmany]
    simp
    omega

theorem recordMalformed_unrefused (hpolicy : t.policy = .default) :
    (t.recordMalformed peer now).1 = false
      ↔ t.isRefused peer = false
        ∧ saturatingSucc (t.entry peer now).malformedPayloads
          < maxMalformed := by
  have hbelow := malformed_unrefused .default now (t.entry peer now)
  rw [entry_refused] at hbelow
  rw [ReputationTable.recordMalformed, hpolicy]
  exact hbelow

theorem recordSigFailure_unrefused (hpolicy : t.policy = .default) :
    (t.recordSigFailure peer now).1 = false
      ↔ t.isRefused peer = false
        ∧ saturatingSucc (t.entry peer now).sigFailures < maxSigFailures := by
  have hbelow := sigFailed_unrefused .default now (t.entry peer now)
  rw [entry_refused] at hbelow
  rw [ReputationTable.recordSigFailure, hpolicy]
  exact hbelow

/-- A refused peer's envelopes are dropped. -/
theorem observe_of_refused (h : t.isRefused peer = true) :
    (t.observeEnvelope peer now).1 = false := by
  rw [← entry_refused t peer now] at h
  rw [Bool.eq_false_iff]
  intro hpass
  have havailable := (t.observeEnvelope_fst peer now).mp hpass
  unfold ReputationTable.available PeerReputation.available at havailable
  rw [if_pos h] at havailable
  omega

/-- Anyone else's gets through once the bucket is refilled. -/
theorem observe_of_unrefused (hpolicy : t.policy = .default)
    (h : t.isRefused peer = false) :
    ∃ now, (t.observeEnvelope peer now).1 = true := by
  cases hrep : t.inner peer with
  | none =>
      refine ⟨0, (t.observeEnvelope_fst peer 0).mpr ?_⟩
      unfold ReputationTable.available ReputationTable.entry
      rw [hrep, hpolicy]
      decide
  | some rep =>
      have hrefused : rep.refused = false := by
        unfold ReputationTable.isRefused at h
        rw [hrep] at h
        exact h
      refine ⟨rep.lastRefillAt + 1, (t.observeEnvelope_fst _ _).mpr ?_⟩
      unfold ReputationTable.available ReputationTable.entry
      rw [hrep, hpolicy]
      simp only [Option.getD_some, PeerReputation.available, hrefused,
        PeerReputation.refill, ReputationPolicy.default, defaultRefillPerSec,
        defaultBucketCapacity]
      simp

end table

-- ========================================================= the invariant

/-- Who is refused, and why. -/
structure RefusalInv (n : LoopsNode) : Prop where
  policy : n.gates.reputation.policy = .default
  refused : ∀ peer, maxMalformed ≤ n.malformed peer →
    n.gates.reputation.isRefused peer = true
  spared : ∀ peer, n.misbehaved peer = false →
    n.gates.reputation.isRefused peer = false

theorem RefusalInv.property {n : LoopsNode} (h : RefusalInv n) :
    MisbehaviourRefused n :=
  ⟨fun peer hmany _ => observe_of_refused (h.refused peer hmany), h.spared⟩

theorem refusalInv_start (caches : Address → ReplayCache) :
    RefusalInv (.start caches) := by
  refine ⟨rfl, fun peer hmany => ?_, fun peer _ => rfl⟩
  have hnone : ¬ maxMalformed ≤ 0 := by decide
  exact absurd hmany hnone

/-- The reputation table keeps its refusals, the counts do not go up, and no
deed is forgotten. -/
theorem RefusalInv.keep {n n' : LoopsNode} (h : RefusalInv n)
    (hpolicy : n'.gates.reputation.policy = n.gates.reputation.policy)
    (hrefused : ∀ p, n'.gates.reputation.isRefused p
      = n.gates.reputation.isRefused p)
    (hmalformed : ∀ p, n'.malformed p = n.malformed p)
    (hmisbehaved : ∀ p, n'.misbehaved p = false → n.misbehaved p = false) :
    RefusalInv n' := by
  refine ⟨hpolicy.trans h.policy, fun p hmany => ?_, fun p hclean => ?_⟩
  · rw [hrefused p]
    apply h.refused p
    rw [← hmalformed p]
    exact hmany
  · rw [hrefused p]
    exact h.spared p (hmisbehaved p hclean)

/-- The operator refuses a peer, rightly. -/
theorem RefusalInv.refusing {n : LoopsNode} {t : ReputationTable}
    {peer : Address} {now : Bool} (h : RefusalInv n)
    (hpolicy : t.policy = n.gates.reputation.policy)
    (hrefused : ∀ p, t.isRefused p
      = if p = peer then now else n.gates.reputation.isRefused p)
    (hkeeps : n.gates.reputation.isRefused peer = true → now = true)
    (hright : n.misbehaved peer = true ∨ now = false) :
    RefusalInv { n with gates := { n.gates with reputation := t } } := by
  refine ⟨hpolicy.trans h.policy, fun p hmany => ?_, fun p hclean => ?_⟩
  · have hbefore := h.refused p hmany
    change t.isRefused p = true
    rw [hrefused p]
    split
    case isTrue hp =>
      rw [hp] at hbefore
      exact hkeeps hbefore
    case isFalse => exact hbefore
  · change t.isRefused p = false
    rw [hrefused p]
    split
    case isTrue hp =>
      rcases hright with hmis | hnot
      · rw [← hp] at hmis
        cases hmis.symm.trans hclean
      · exact hnot
    case isFalse => exact h.spared p hclean

-- ============================================================== the steps

variable {crypto : Crypto}

theorem misbehaved_update {n : LoopsNode} {peer p : Address}
    (h : Function.update n.misbehaved peer true p = false) :
    n.misbehaved p = false := by
  by_cases hp : p = peer
  · rw [hp, Function.update_self] at h
    cases h
  · rwa [Function.update_of_ne hp] at h

/-- Nothing but the operator's calls refuses a peer or lets it off. -/
theorem RefusalInv.unrefused {n : LoopsNode} {gates : GatesNode (List UInt8)}
    (h : RefusalInv n) (hsame : gates.reputation = n.gates.reputation) :
    RefusalInv { n with gates } := by
  apply h.keep
  · exact congrArg _ hsame
  · intro p
    exact congrArg (·.isRefused p) hsame
  · exact fun _ => rfl
  · exact fun _ hclean => hclean

theorem refusalInv_gates {n : LoopsNode} {a : GatesAction (List UInt8)}
    {gates : GatesNode (List UInt8)} (hok : RefusesRightly crypto n (.gates a))
    (h : RefusalInv n) (hstep : gatesStep n.gates a = some gates) :
    RefusalInv { n.count crypto a with gates } := by
  have hafter := gatesStep_reputation hstep
  cases a with
  | openSession id => exact h.unrefused hafter
  | closeSession id => exact h.unrefused hafter
  | accept id env =>
      rw [LoopsNode.count]
      split
      case isTrue => exact h.unrefused hafter
      case isFalse =>
        apply (h.unrefused hafter).keep
        · rfl
        · exact fun _ => rfl
        · exact fun _ => rfl
        · exact fun _ => misbehaved_update
  | meter id env clock =>
      apply h.keep
      · rw [hafter]
        rfl
      · intro p
        rw [hafter]
        exact isRefused_observe
      · exact fun _ => rfl
      · exact fun _ hclean => hclean
  | check id env clock order =>
      rw [LoopsNode.count]
      split
      case isFalse => exact h.unrefused hafter
      case isTrue hadmits =>
        refine ⟨(congrArg _ hafter).trans h.policy, fun p hmany => ?_,
          (h.unrefused hafter).spared⟩
        rw [hafter]
        dsimp only at hmany
        by_cases hp : p = env.fromSide
        · rw [hp, Function.update_self] at hmany
          rw [hp]
          rcases hok hadmits with hfew | hrefused
          · omega
          · exact hrefused
        · rw [Function.update_of_ne hp] at hmany
          exact h.refused p hmany
  | recordSigFailure peer now =>
      cases hstep
      exact h.refusing rfl (fun _ => isRefused_recordSigFailure)
        recordSigFailure_refused
        (hok.imp_right (recordSigFailure_unrefused h.policy).mpr)
  | recordMalformed peer now =>
      cases hstep
      exact h.refusing rfl (fun _ => isRefused_recordMalformed)
        recordMalformed_refused
        (hok.imp_right (recordMalformed_unrefused h.policy).mpr)
  | refuse peer now =>
      cases hstep
      exact h.refusing rfl (fun _ => isRefused_refuse) (fun _ => rfl)
        (Or.inl hok)
  | reinstate peer =>
      cases hstep
      refine ⟨(ReputationTable.reinstate_policy _ _).trans h.policy,
        fun p hmany => ?_, fun p hclean => ?_⟩
      · rw [isRefused_reinstate]
        dsimp only [LoopsNode.count] at hmany
        by_cases hp : p = peer
        · rw [hp, Function.update_self] at hmany
          have hnone : ¬ maxMalformed ≤ 0 := by decide
          exact absurd hmany hnone
        · rw [Function.update_of_ne hp] at hmany
          rw [if_neg hp]
          exact h.refused p hmany
      · rw [isRefused_reinstate]
        split
        case isTrue => rfl
        case isFalse => exact h.spared p hclean

theorem refusalInv_step {n n' : LoopsNode} {a : LoopsAction}
    (hok : RefusesRightly crypto n a) (h : RefusalInv n)
    (hstep : loopsStep crypto n a = some n') : RefusalInv n' := by
  cases a with
  | openSession id intent =>
      obtain ⟨gates, hgates, rfl⟩ := Option.map_eq_some_iff.mp hstep
      apply (h.unrefused (gatesStep_reputation hgates)).keep
      · rfl
      · exact fun _ => rfl
      · exact fun _ => rfl
      · exact fun _ hclean => hclean
  | badSignature id =>
      obtain ⟨gates, hgates, rfl⟩ := Option.map_eq_some_iff.mp hstep
      apply (h.unrefused (gatesStep_reputation hgates)).keep
      · rfl
      · exact fun _ => rfl
      · exact fun _ => rfl
      · exact fun _ => misbehaved_update
  | gates a =>
      simp only [loopsStep] at hstep
      split at hstep
      case isTrue =>
        obtain ⟨gates, hgates, rfl⟩ := Option.map_eq_some_iff.mp hstep
        exact refusalInv_gates hok h hgates
      case isFalse => cases hstep

-- ======================================================= who is not refused

theorem admitsMalformed_step {n : LoopsNode} {id : SessionId}
    {env : Envelope (List UInt8)} {clock : Option Nat} {order : IterOrder}
    (h : n.admitsMalformed crypto id env clock order = true) :
    ∃ gates, gatesStep n.gates (.check id env clock order) = some gates := by
  simp only [LoopsNode.admitsMalformed, Bool.and_eq_true,
    decide_eq_true_eq] at h
  simp only [gatesStep, if_pos h.1.1, if_pos h.1.2]
  exact ⟨_, rfl⟩

/-- A peer that is refused for nothing shows at once. -/
theorem not_spared {n : LoopsNode} {peer : Address}
    (hclean : n.misbehaved peer = false)
    (hrefused : n.gates.reputation.isRefused peer = true) :
    ¬ MisbehaviourRefused n := by
  intro h
  cases (h.spared peer hclean).symm.trans hrefused

/-- And so does one that is not refused past the limit. -/
theorem not_refusesRightly_step {n : LoopsNode} {a : LoopsAction}
    (h : RefusalInv n) (hnot : ¬ RefusesRightly crypto n a) :
    ∃ n', loopsStep crypto n a = some n' ∧ ¬ MisbehaviourRefused n' := by
  cases a with
  | openSession id intent => exact absurd trivial hnot
  | badSignature id => exact absurd trivial hnot
  | gates a =>
      cases a with
      | openSession id => exact absurd trivial hnot
      | accept id env => exact absurd trivial hnot
      | meter id env clock => exact absurd trivial hnot
      | closeSession id => exact absurd trivial hnot
      | reinstate peer => exact absurd trivial hnot
      | refuse peer now =>
          have hclean := Bool.not_eq_true _ ▸ hnot
          refine ⟨_, rfl, not_spared hclean ?_⟩
          exact isRefused_refuse.trans (if_pos rfl)
      | recordMalformed peer now =>
          simp only [RefusesRightly, ← recordMalformed_unrefused h.policy,
            not_or, Bool.not_eq_true, Bool.not_eq_false] at hnot
          refine ⟨_, rfl, not_spared hnot.1 ?_⟩
          exact (isRefused_recordMalformed.trans (if_pos rfl)).trans hnot.2
      | recordSigFailure peer now =>
          simp only [RefusesRightly, ← recordSigFailure_unrefused h.policy,
            not_or, Bool.not_eq_true, Bool.not_eq_false] at hnot
          refine ⟨_, rfl, not_spared hnot.1 ?_⟩
          exact (isRefused_recordSigFailure.trans (if_pos rfl)).trans hnot.2
      | check id env clock order =>
          simp only [RefusesRightly, Classical.not_imp, not_or,
            Bool.not_eq_true] at hnot
          obtain ⟨hadmits, hmany, hrefused⟩ := hnot
          obtain ⟨gates, hgates⟩ := admitsMalformed_step hadmits
          have hsame : gates.reputation = n.gates.reputation :=
            gatesStep_reputation hgates
          obtain ⟨now, hpass⟩ := observe_of_unrefused h.policy hrefused
          refine ⟨{ n.count crypto (.check id env clock order) with gates },
            ?_, fun hproperty => ?_⟩
          · simp only [loopsStep, LoopsNode.takes, if_true, hgates]
            rfl
          · have hcounted : maxMalformed ≤
                (n.count crypto (.check id env clock order)).malformed
                  env.fromSide := by
              rw [LoopsNode.count, if_pos hadmits]
              dsimp only
              rw [Function.update_self]
              omega
            have hdropped := hproperty.dropped env.fromSide hcounted now
            rw [← hsame] at hpass
            cases hdropped.symm.trans hpass

/-- In every state a run passes the peers are refused as promised iff the
operator has refused each one by the time it reaches the limit, and no other. -/
theorem misbehaviour_refused_iff (crypto : Crypto)
    (caches : Address → ReplayCache) (actions : List LoopsAction) :
    (∀ as bs n', as ++ bs = actions →
        run (loopsStep crypto) (.start caches) as = some n' →
        MisbehaviourRefused n')
      ↔ Along (loopsStep crypto) (RefusesRightly crypto) (.start caches)
        actions := by
  refine along_iff (fun n h => h.property)
    (fun n a n' hok h hstep => refusalInv_step hok h hstep)
    (fun n a h hnot => not_refusesRightly_step h hnot) ?_
  exact refusalInv_start caches

-- ==================================================== nobody counts

def malformingSession : SessionId := ⟨Bytes.fill 32 1, Bytes.fill 32 2, 0⟩

/-- A PROFILE_FETCH with no address in it. -/
def malformedFetch (nonce : UInt8) : Envelope (List UInt8) :=
  ⟨.profileFetch, Bytes.fill 32 2, some (Bytes.fill 32 1), 5,
    Bytes.fill _ nonce, []⟩

/-- It is read and gets through the gates, at second 5. -/
def malformedRound (nonce : UInt8) : List LoopsAction :=
  [.gates (.accept malformingSession (malformedFetch nonce)),
    .gates (.meter malformingSession (malformedFetch nonce) (some 5)),
    .gates (.check malformingSession (malformedFetch nonce) (some 5) .listed)]

/-- A Direct session with as many of them as the limit says. -/
def malformedRun : List LoopsAction :=
  .openSession malformingSession .direct
    :: (List.range maxMalformed).flatMap fun k => malformedRound (.ofNat k)

theorem malformed_run_checked :
    (run (loopsStep Crypto.legible) (.start fun _ => .new) malformedRun).any
      (fun n => decide (n.malformed (Bytes.fill 32 2) = maxMalformed
        ∧ n.gates.reputation.isRefused (Bytes.fill 32 2) = false
        ∧ (n.gates.reputation.observeEnvelope (Bytes.fill 32 2) 5).1
          = true)) = true := by
  decide +kernel

/-- The peer has reached the limit, is not refused, and goes on. -/
theorem malformed_peer_unrefused :
    ∃ n, run (loopsStep Crypto.legible) (.start fun _ => .new) malformedRun
        = some n
      ∧ n.malformed (Bytes.fill 32 2) = maxMalformed
      ∧ n.gates.reputation.isRefused (Bytes.fill 32 2) = false
      ∧ (n.gates.reputation.observeEnvelope (Bytes.fill 32 2) 5).1 = true
      ∧ ¬ MisbehaviourRefused n := by
  obtain ⟨n, hrun, hmany, hrefused, hpass⟩ := run_checked malformed_run_checked
  refine ⟨n, hrun, hmany, hrefused, hpass, fun h => ?_⟩
  cases (h.dropped _ (Nat.le_of_eq hmany.symm) 5).symm.trans hpass

end Sidevers.Proofs
