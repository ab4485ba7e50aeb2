/-
Policies and amendments (`verse.rs`, protocol spec §8): which policy clauses
an evaluator recognises, and whether an amendment tightens a contract.

The sets of the source are compared by their differences only; here they are
the lists they are collected from.
-/
import Sidevers.Core.Verse

namespace Sidevers.Core

open Sidevers.Lib

/-- One digit of `str::parse::<u64>`, with its overflow checks. -/
def parseDigit (acc : Option UInt64) (c : Char) : Option UInt64 :=
  acc.bind fun n =>
    let next := n.toNat * 10 + (c.toNat - '0'.toNat)
    if c.isDigit ∧ next < 2 ^ 64 then some (UInt64.ofNat next) else none

/-- `str::parse::<u64>().ok()`: digits, after a plus sign at most. -/
def parseU64 (s : String) : Option UInt64 :=
  let digits := match s.toList with
    | '+' :: rest => rest
    | cs => cs
  if digits = [] then none else digits.foldl parseDigit (some 0)

-- ============================================================ policies

/-- `KnownPolicyKind`. -/
inductive KnownPolicyKind where
  | noArchive
  | retentionMaxDays (days : Option UInt64)
  | requireRealName
  | ephemeral (ttlSecs : Option UInt64)
  | moderationRequired
  deriving DecidableEq

/-- `PolicyClause::classify`. -/
def PolicyClause.classify (clause : PolicyClause) : Option KnownPolicyKind :=
  if clause.kind = "no-archive" then some .noArchive
  else if clause.kind = "retention-max-days" then
    some (.retentionMaxDays ((clause.params.get "days").bind parseU64))
  else if clause.kind = "require-real-name" then some .requireRealName
  else if clause.kind = "ephemeral" then
    some (.ephemeral ((clause.params.get "ttl_secs").bind parseU64))
  else if clause.kind = "moderation-required" then some .moderationRequired
  else none

/-- `policy_is_restrictive`: all of them are. -/
def policyIsRestrictive : KnownPolicyKind → Bool
  | .noArchive => true
  | .requireRealName => true
  | .moderationRequired => true
  | .ephemeral _ => true
  | .retentionMaxDays _ => true

-- ========================================================== amendments

/-- `AmendmentKind`. -/
inductive AmendmentKind where
  | reductive
  | expansive
  | mixed
  deriving DecidableEq

/-- `requires_reconsent`. -/
def AmendmentKind.requiresReconsent : AmendmentKind → Bool
  | .reductive => true
  | .mixed => true
  | .expansive => false

/-- `difference(..).next().is_some()`. -/
def hasDifference {α : Type} [DecidableEq α] (xs ys : List α) : Bool :=
  xs.any fun x => x ∉ ys

namespace ContractObject

/-- The kinds of a list of fields. -/
def kinds (specs : List FieldSpec) : List FieldKind := specs.map (·.kind)

/-- The policies that are recognised. -/
def knownPolicies (c : ContractObject) : List KnownPolicyKind :=
  c.policies.filterMap PolicyClause.classify

/-- `classify_amendment`. -/
def classifyAmendment (c new : ContractObject) : AmendmentKind :=
  let reductive :=
    hasDifference (kinds new.required) (kinds c.required)
      || hasDifference new.forbidden c.forbidden
      || (new.knownPolicies.filter fun k => k ∉ c.knownPolicies).any
        policyIsRestrictive
  let expansive :=
    hasDifference (kinds c.required) (kinds new.required)
      || hasDifference c.forbidden new.forbidden
      || hasDifference (kinds new.optional) (kinds c.optional)
      || (c.knownPolicies.filter fun k => k ∉ new.knownPolicies).any
        policyIsRestrictive
  match reductive, expansive with
  | true, true => .mixed
  | true, false => .reductive
  | false, _ => .expansive

end ContractObject

end Sidevers.Core
