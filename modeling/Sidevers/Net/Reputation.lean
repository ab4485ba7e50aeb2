/-
The per-peer reputation table with its token bucket (`reputation.rs`).

The bucket's `f64` starts at the capacity and moves by whole tokens, and what
is above the capacity is cut off: every value it takes is a natural number it
represents exactly (`Proofs.TokenBuckets`). The lock is taken once a call, so
each call is one step.
-/
import Sidevers.Core.Bytes
import Sidevers.Lib.Table

namespace Sidevers.Net

open Sidevers.Core
open Sidevers.Lib

/-- `DEFAULT_BUCKET_CAPACITY`. -/
def defaultBucketCapacity : Nat := 100

/-- `DEFAULT_REFILL_PER_SEC`. -/
def defaultRefillPerSec : Nat := 10

/-- `MAX_SIG_FAILURES`. -/
def maxSigFailures : Nat := 10

/-- `MAX_MALFORMED`. -/
def maxMalformed : Nat := 25

/-- `u32::saturating_add(1)`. -/
def saturatingSucc (n : Nat) : Nat := min (n + 1) 4294967295

/-- `PeerReputation`. -/
structure PeerReputation where
  envelopesSeen : Nat
  sigFailures : Nat
  malformedPayloads : Nat
  rateLimitHits : Nat
  lastSeenAt : Nat
  lastMisbehaviorAt : Option Nat
  tokens : Nat
  lastRefillAt : Nat
  refused : Bool
  deriving DecidableEq, Repr

/-- `ReputationPolicy`. -/
structure ReputationPolicy where
  bucketCapacity : Nat
  refillPerSec : Nat
  maxSigFailures : Nat
  maxMalformed : Nat

/-- `ReputationPolicy::default`. -/
def ReputationPolicy.default : ReputationPolicy :=
  ⟨defaultBucketCapacity, defaultRefillPerSec, Net.maxSigFailures,
    Net.maxMalformed⟩

-- ========================================================= one peer

namespace PeerReputation

/-- `PeerReputation::fresh`. -/
def fresh (now capacity : Nat) : PeerReputation where
  envelopesSeen := 0
  sigFailures := 0
  malformedPayloads := 0
  rateLimitHits := 0
  lastSeenAt := now
  lastMisbehaviorAt := none
  tokens := capacity
  lastRefillAt := now
  refused := false

/-- The refill of `observe_envelope`; a clock that went back refills
nothing. -/
def refill (policy : ReputationPolicy) (now : Nat) (rep : PeerReputation) :
    PeerReputation :=
  if now > rep.lastRefillAt then
    { rep with
      tokens := min (rep.tokens + (now - rep.lastRefillAt)
        * policy.refillPerSec) policy.bucketCapacity
      lastRefillAt := now }
  else rep

/-- An envelope of the peer is counted. -/
def notice (now : Nat) (rep : PeerReputation) : PeerReputation :=
  { rep with
    envelopesSeen := saturatingSucc rep.envelopesSeen
    lastSeenAt := now }

/-- What `observe_envelope` does with the peer's entry: a refused peer is
dropped before the bucket is looked at. -/
def observe (policy : ReputationPolicy) (now : Nat) (rep : PeerReputation) :
    Bool × PeerReputation :=
  let seen := rep.notice now
  if seen.refused then (false, seen)
  else
    let full := seen.refill policy now
    if full.tokens ≥ 1 then (true, { full with tokens := full.tokens - 1 })
    else (false, { full with
      rateLimitHits := saturatingSucc full.rateLimitHits })

/-- What `record_sig_failure` does with the peer's entry. -/
def sigFailed (policy : ReputationPolicy) (now : Nat)
    (rep : PeerReputation) : PeerReputation :=
  let failed := { rep with
    sigFailures := saturatingSucc rep.sigFailures
    lastMisbehaviorAt := some now }
  if failed.sigFailures ≥ policy.maxSigFailures
    then { failed with refused := true } else failed

/-- What `record_malformed` does with the peer's entry. -/
def malformed (policy : ReputationPolicy) (now : Nat)
    (rep : PeerReputation) : PeerReputation :=
  let failed := { rep with
    malformedPayloads := saturatingSucc rep.malformedPayloads
    lastMisbehaviorAt := some now }
  if failed.malformedPayloads ≥ policy.maxMalformed
    then { failed with refused := true } else failed

/-- What `refuse` does with the peer's entry. -/
def refuse (rep : PeerReputation) : PeerReputation :=
  { rep with refused := true }

/-- What `reinstate` does with the peer's entry. -/
def reinstate (rep : PeerReputation) : PeerReputation :=
  { rep with
    refused := false
    sigFailures := 0
    malformedPayloads := 0
    lastMisbehaviorAt := none }

/-- The envelopes of the peer that would get through at `now`: its tokens
once refilled, none while it is refused. -/
def available (policy : ReputationPolicy) (now : Nat)
    (rep : PeerReputation) : Nat :=
  if rep.refused then 0 else (rep.refill policy now).tokens

/-- Counting an envelope does not touch the bucket. -/
theorem refill_notice (policy : ReputationPolicy) (now : Nat)
    (rep : PeerReputation) :
    (rep.notice now).refill policy now = (rep.refill policy now).notice now := by
  by_cases hlate : now > rep.lastRefillAt
  · simp [refill, notice, hlate]
  · simp [refill, notice, hlate]

/-- The gate lets an envelope through iff its signer has a token. -/
theorem observe_fst (policy : ReputationPolicy) (now : Nat)
    (rep : PeerReputation) :
    (rep.observe policy now).1 = true ↔ 1 ≤ rep.available policy now := by
  simp only [observe, available, refill_notice]
  cases hrefused : rep.refused with
  | true => simp [notice, hrefused]
  | false =>
      by_cases htokens : (rep.refill policy now).tokens ≥ 1
      · simp [notice, hrefused, htokens]
      · simp [notice, hrefused, htokens]

/-- An entry without the counters that no gate reads. -/
def standing (rep : PeerReputation) : PeerReputation :=
  { rep with envelopesSeen := 0, rateLimitHits := 0, lastSeenAt := 0 }

theorem refill_standing (policy : ReputationPolicy) (now : Nat)
    (rep : PeerReputation) :
    rep.standing.refill policy now = (rep.refill policy now).standing := by
  by_cases hlate : now > rep.lastRefillAt
  · simp [refill, standing, hlate]
  · simp [refill, standing, hlate]

/-- Every call of the table goes by an entry's standing. -/
theorem observe_standing (policy : ReputationPolicy) (now : Nat)
    (rep : PeerReputation) :
    (rep.standing.observe policy now).2.standing
      = (rep.observe policy now).2.standing := by
  simp only [observe, refill_notice, refill_standing]
  cases hrefused : rep.refused with
  | true => simp [notice, standing, hrefused]
  | false =>
      by_cases htokens : (rep.refill policy now).tokens ≥ 1
      · simp [notice, standing, hrefused, htokens]
      · simp [notice, standing, hrefused, htokens]

theorem available_standing (policy : ReputationPolicy) (now : Nat)
    (rep : PeerReputation) :
    rep.standing.available policy now = rep.available policy now := by
  simp only [available, refill_standing]
  rfl

theorem observe_standing_fst (policy : ReputationPolicy) (now : Nat)
    (rep : PeerReputation) :
    (rep.standing.observe policy now).1 = (rep.observe policy now).1 := by
  rw [Bool.eq_iff_iff, observe_fst, observe_fst, available_standing]

theorem sigFailed_standing (policy : ReputationPolicy) (now : Nat)
    (rep : PeerReputation) :
    (rep.standing.sigFailed policy now).standing
      = (rep.sigFailed policy now).standing := by
  by_cases hmany : saturatingSucc rep.sigFailures ≥ policy.maxSigFailures
  · simp [sigFailed, standing, hmany]
  · simp [sigFailed, standing, hmany]

theorem malformed_standing (policy : ReputationPolicy) (now : Nat)
    (rep : PeerReputation) :
    (rep.standing.malformed policy now).standing
      = (rep.malformed policy now).standing := by
  by_cases hmany : saturatingSucc rep.malformedPayloads ≥ policy.maxMalformed
  · simp [malformed, standing, hmany]
  · simp [malformed, standing, hmany]

/-- A dropped envelope leaves the standing as it is: with a refill above
zero, an empty bucket is one that this second has refilled. -/
theorem observe_of_unavailable {policy : ReputationPolicy} {now : Nat}
    {rep : PeerReputation} (hrefill : 1 ≤ policy.refillPerSec)
    (hcapacity : 1 ≤ policy.bucketCapacity)
    (hnone : rep.available policy now = 0) :
    (rep.observe policy now).2.standing = rep.standing := by
  cases hrefused : rep.refused with
  | true => simp [observe, notice, standing, hrefused]
  | false =>
      have htokens : (rep.refill policy now).tokens = 0 := by
        simpa [available, hrefused] using hnone
      have hlate : ¬ now > rep.lastRefillAt := by
        intro hlate
        rw [refill, if_pos hlate] at htokens
        have hadd : 1 ≤ (now - rep.lastRefillAt) * policy.refillPerSec :=
          Nat.mul_pos (by omega) hrefill
        simp only at htokens
        omega
      have hsame : rep.refill policy now = rep := if_neg hlate
      rw [hsame] at htokens
      simp [observe, notice, refill, hlate, standing, hrefused, htokens]

end PeerReputation

-- ========================================================= the table

/-- `ReputationTable`. -/
structure ReputationTable where
  inner : Table Address PeerReputation
  policy : ReputationPolicy

namespace ReputationTable

/-- `ReputationTable::new`. -/
def new (policy : ReputationPolicy) : ReputationTable := ⟨.empty, policy⟩

/-- `entry(peer).or_insert_with(fresh)`. -/
def entry (t : ReputationTable) (peer : Address) (now : Nat) :
    PeerReputation :=
  (t.inner peer).getD (.fresh now t.policy.bucketCapacity)

/-- Write a peer's entry back. -/
def set (t : ReputationTable) (peer : Address) (rep : PeerReputation) :
    ReputationTable := { t with inner := t.inner.insert peer rep }

/-- `observe_envelope`: `true` lets the envelope through. -/
def observeEnvelope (t : ReputationTable) (peer : Address) (now : Nat) :
    Bool × ReputationTable :=
  let seen := (t.entry peer now).observe t.policy now
  (seen.1, t.set peer seen.2)

/-- `record_sig_failure`: is the peer refused now? -/
def recordSigFailure (t : ReputationTable) (peer : Address) (now : Nat) :
    Bool × ReputationTable :=
  let rep := (t.entry peer now).sigFailed t.policy now
  (rep.refused, t.set peer rep)

/-- `record_malformed`: is the peer refused now? -/
def recordMalformed (t : ReputationTable) (peer : Address) (now : Nat) :
    Bool × ReputationTable :=
  let rep := (t.entry peer now).malformed t.policy now
  (rep.refused, t.set peer rep)

/-- `refuse`. -/
def refuse (t : ReputationTable) (peer : Address) (now : Nat) :
    ReputationTable := t.set peer (t.entry peer now).refuse

/-- `reinstate`. -/
def reinstate (t : ReputationTable) (peer : Address) : ReputationTable :=
  match t.inner peer with
  | some rep => t.set peer rep.reinstate
  | none => t

/-- `is_refused`. -/
def isRefused (t : ReputationTable) (peer : Address) : Bool :=
  (t.inner peer).any PeerReputation.refused

/-- The envelopes of `peer` that would get through at `now`. -/
def available (t : ReputationTable) (peer : Address) (now : Nat) : Nat :=
  (t.entry peer now).available t.policy now

end ReputationTable

/-- A call that writes the table. -/
inductive ReputationCall where
  | observeEnvelope (peer : Address) (now : Nat)
  | recordSigFailure (peer : Address) (now : Nat)
  | recordMalformed (peer : Address) (now : Nat)
  | refuse (peer : Address) (now : Nat)
  | reinstate (peer : Address)
  deriving DecidableEq

/-- The peer that a call is about. -/
def ReputationCall.peer : ReputationCall → Address
  | .observeEnvelope peer _ | .recordSigFailure peer _
  | .recordMalformed peer _ | .refuse peer _ | .reinstate peer => peer

/-- The clock reading that a call comes with. -/
def ReputationCall.reading : ReputationCall → Option Nat
  | .observeEnvelope _ now | .recordSigFailure _ now | .recordMalformed _ now
  | .refuse _ now => some now
  | .reinstate _ => none

namespace ReputationTable

/-- The table after a call. -/
def call (t : ReputationTable) : ReputationCall → ReputationTable
  | .observeEnvelope peer now => (t.observeEnvelope peer now).2
  | .recordSigFailure peer now => (t.recordSigFailure peer now).2
  | .recordMalformed peer now => (t.recordMalformed peer now).2
  | .refuse peer now => t.refuse peer now
  | .reinstate peer => t.reinstate peer

/-- The table after calls in turn. -/
def calls (t : ReputationTable) (cs : List ReputationCall) :
    ReputationTable := cs.foldl call t

/-- Does a call let an envelope of `p` through? -/
def admits (p : Address) (t : ReputationTable) : ReputationCall → Bool
  | .observeEnvelope peer now =>
      decide (peer = p) && (t.observeEnvelope peer now).1
  | _ => false

/-- How many envelopes of `p` calls in turn let through. -/
def admitted (p : Address) (t : ReputationTable) :
    List ReputationCall → Nat
  | [] => 0
  | c :: rest => (t.admits p c).toNat + admitted p (t.call c) rest

-- ====================================================== what it does

@[simp] theorem set_inner_self (t : ReputationTable) (peer : Address)
    (rep : PeerReputation) : (t.set peer rep).inner peer = some rep :=
  Table.insert_self ..

@[simp] theorem set_inner_of_ne (t : ReputationTable) {peer other : Address}
    (rep : PeerReputation) (h : other ≠ peer) :
    (t.set peer rep).inner other = t.inner other := Table.insert_of_ne _ _ h

@[simp] theorem set_policy (t : ReputationTable) (peer : Address)
    (rep : PeerReputation) : (t.set peer rep).policy = t.policy := rfl

@[simp] theorem observeEnvelope_policy (t : ReputationTable)
    (peer : Address) (now : Nat) :
    (t.observeEnvelope peer now).2.policy = t.policy := rfl

@[simp] theorem reinstate_policy (t : ReputationTable) (peer : Address) :
    (t.reinstate peer).policy = t.policy := by
  unfold reinstate
  split <;> rfl

/-- The gate lets an envelope through iff its signer has a token. -/
theorem observeEnvelope_fst (t : ReputationTable) (peer : Address)
    (now : Nat) :
    (t.observeEnvelope peer now).1 = true ↔ 1 ≤ t.available peer now :=
  PeerReputation.observe_fst ..

end ReputationTable

end Sidevers.Net
