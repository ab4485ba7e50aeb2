/-
Amendments that need no reconsent.

`Loosens a b` is what such an amendment of `a` to `b` is: `b` asks for nothing
and forbids nothing that `a` does not, and adds no restrictive policy. It is a
preorder, and an amendment needs no reconsent exactly when it loosens
(`requiresReconsent_eq_false_iff`). The check a join passes looks at the
required and the forbidden kinds alone, so what it accepts under `a` it
accepts under `b`.
-/
import Sidevers.Core.Amendment
import Sidevers.Net.Verse

namespace Sidevers.Proofs

open Sidevers.Lib
open Sidevers.Core
open Sidevers.Net

/-- Nothing of the second contract is tighter than the first. -/
structure Loosens (a b : ContractObject) : Prop where
  required : ∀ k ∈ ContractObject.kinds b.required,
    k ∈ ContractObject.kinds a.required
  forbidden : ∀ k ∈ b.forbidden, k ∈ a.forbidden
  policies : ∀ k ∈ b.knownPolicies, policyIsRestrictive k = true →
    k ∈ a.knownPolicies

theorem Loosens.refl (a : ContractObject) : Loosens a a :=
  ⟨fun _ hk => hk, fun _ hk => hk, fun _ hk _ => hk⟩

theorem Loosens.trans {a b c : ContractObject} (hab : Loosens a b)
    (hbc : Loosens b c) : Loosens a c where
  required k hk := hab.required k (hbc.required k hk)
  forbidden k hk := hab.forbidden k (hbc.forbidden k hk)
  policies k hk hrestrictive :=
    hab.policies k (hbc.policies k hk hrestrictive) hrestrictive

-- ====================================================== the classifier

theorem hasDifference_eq_false_iff {α : Type} [DecidableEq α]
    {xs ys : List α} : hasDifference xs ys = false ↔ ∀ x ∈ xs, x ∈ ys := by
  unfold hasDifference
  rw [List.any_eq_false]
  simp only [decide_eq_true_eq, not_not]

/-- The filter of the source's loop and its flag. -/
theorem any_restrictive_eq_false_iff {ks ls : List KnownPolicyKind} :
    (ks.filter fun k => k ∉ ls).any policyIsRestrictive = false
      ↔ ∀ k ∈ ks, policyIsRestrictive k = true → k ∈ ls := by
  rw [List.any_eq_false]
  constructor
  · intro h k hk hrestrictive
    by_contra hnot
    exact h k (List.mem_filter.mpr ⟨hk, decide_eq_true hnot⟩) hrestrictive
  · intro h k hk hrestrictive
    obtain ⟨hmem, hnot⟩ := List.mem_filter.mp hk
    exact of_decide_eq_true hnot (h k hmem hrestrictive)

/-- The expansive signals do not matter. -/
theorem requiresReconsent_classify (a b : ContractObject) :
    (a.classifyAmendment b).requiresReconsent
      = (hasDifference (ContractObject.kinds b.required)
          (ContractObject.kinds a.required)
        || hasDifference b.forbidden a.forbidden
        || (b.knownPolicies.filter fun k => k ∉ a.knownPolicies).any
          policyIsRestrictive) := by
  unfold ContractObject.classifyAmendment
  dsimp only
  split
  case h_1 hreductive _ => exact hreductive.symm
  case h_2 hreductive _ => exact hreductive.symm
  case h_3 hreductive => exact hreductive.symm

/-- Reconsent is asked for exactly when a rule is tightened. -/
theorem requiresReconsent_eq_false_iff {a b : ContractObject} :
    (a.classifyAmendment b).requiresReconsent = false ↔ Loosens a b := by
  rw [requiresReconsent_classify, Bool.or_eq_false_iff, Bool.or_eq_false_iff,
    hasDifference_eq_false_iff, hasDifference_eq_false_iff,
    any_restrictive_eq_false_iff]
  exact ⟨fun ⟨⟨hrequired, hforbidden⟩, hpolicies⟩ =>
    ⟨hrequired, hforbidden, hpolicies⟩,
    fun h => ⟨⟨h.required, h.forbidden⟩, h.policies⟩⟩

-- ====================================================== the join check

/-- What the join check asks of the fields. -/
theorem joinProblem_eq_none_iff {crypto : Crypto} {c : ContractObject}
    {req : JoinRequestPayload} :
    VerseHost.joinProblem crypto c req = none
      ↔ req.contractHash = c.hash crypto
        ∧ (∀ k ∈ ContractObject.kinds c.required, k ∈ req.fields.keys)
        ∧ ∀ k ∈ req.fields.keys, k ∉ c.forbidden := by
  have hforbids : (req.fields.keys.any c.isForbidden = false)
      ↔ ∀ k ∈ req.fields.keys, k ∉ c.forbidden := by
    rw [List.any_eq_false]
    refine forall₂_congr fun k _ => not_congr ?_
    unfold ContractObject.isForbidden
    simp only [List.any_eq_true, decide_eq_true_eq, exists_eq_right]
  have hmisses : ((c.required.any fun spec => spec.kind ∉ req.fields.keys)
      = false)
      ↔ ∀ k ∈ ContractObject.kinds c.required, k ∈ req.fields.keys := by
    unfold ContractObject.kinds
    rw [List.any_eq_false, List.forall_mem_map]
    simp only [decide_eq_true_eq, not_not]
  unfold VerseHost.joinProblem
  rw [← hforbids, ← hmisses]
  split
  case isTrue hne => simp only [reduceCtorEq, hne, false_and]
  case isFalse heq =>
    rw [not_not] at heq
    split
    case isTrue hmissing => simp only [reduceCtorEq, hmissing,
      Bool.true_eq_false, false_and, and_false]
    case isFalse hmissing =>
      rw [Bool.not_eq_true] at hmissing
      split
      case isTrue hbad => simp only [reduceCtorEq, hbad, Bool.true_eq_false,
        and_false]
      case isFalse hbad =>
        rw [Bool.not_eq_true] at hbad
        simp only [heq, hmissing, hbad, and_self]

/-- Fields that are enough under a contract are enough once it is loosened. -/
theorem Loosens.joinProblem {a b : ContractObject} (h : Loosens a b)
    {crypto : Crypto} {side : Address} {fields : BTreeMap FieldKind String}
    (hjoins : VerseHost.joinProblem crypto a ⟨a.hash crypto, side, fields⟩
      = none) :
    VerseHost.joinProblem crypto b ⟨b.hash crypto, side, fields⟩ = none := by
  obtain ⟨-, hrequired, hforbidden⟩ := joinProblem_eq_none_iff.mp hjoins
  refine joinProblem_eq_none_iff.mpr ⟨rfl, fun k hk => ?_, fun k hk hbad => ?_⟩
  · exact hrequired k (h.required k hk)
  · exact hforbidden k hk (h.forbidden k hbad)

/-- An amendment that needs no reconsent declines no join that the contract
it amends accepts and brings no restrictive policy; and two in a row need no
reconsent in one. -/
theorem unasked_amendment_harmless {a b : ContractObject}
    (h : (a.classifyAmendment b).requiresReconsent = false) :
    (∀ crypto side fields,
      VerseHost.joinProblem crypto a ⟨a.hash crypto, side, fields⟩ = none →
      VerseHost.joinProblem crypto b ⟨b.hash crypto, side, fields⟩ = none)
    ∧ (∀ k ∈ b.knownPolicies, policyIsRestrictive k = true →
      k ∈ a.knownPolicies)
    ∧ ∀ c, (b.classifyAmendment c).requiresReconsent = false →
      (a.classifyAmendment c).requiresReconsent = false := by
  have hab := requiresReconsent_eq_false_iff.mp h
  refine ⟨fun _ _ _ hjoins => hab.joinProblem hjoins, hab.policies,
    fun c hbc => ?_⟩
  exact requiresReconsent_eq_false_iff.mpr
    (hab.trans (requiresReconsent_eq_false_iff.mp hbc))

/-- A contract without rules. -/
def openContract : ContractObject where
  verse := Bytes.fill _ 1
  version := 1
  title := "t"
  description := ""
  required := []
  «optional» := []
  forbidden := []
  «scoped» := []
  policies := []
  moderators := []
  issuedAt := 0
  signature := Bytes.fill _ 0

/-- The contract that asks for a name, forbids a phone number and keeps posts
for thirty days gives all of it up. -/
theorem unasked_amendment_harmless_opened :
    let strict : ContractObject :=
      { openContract with
        required := [⟨"name", "Name", none, none⟩]
        forbidden := ["phone"]
        policies := [⟨"retention-max-days",
          BTreeMap.empty.insert "days" "+030"⟩] }
    strict.knownPolicies = [.retentionMaxDays (some 30)]
      ∧ ∀ k ∈ openContract.knownPolicies, policyIsRestrictive k = true →
        k ∈ strict.knownPolicies := by
  intro strict
  have hsame : (strict.classifyAmendment openContract).requiresReconsent
      = false := by decide
  exact ⟨by decide, (unasked_amendment_harmless hsame).2.1⟩

end Sidevers.Proofs
