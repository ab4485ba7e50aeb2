/-
What a membership token is a receipt of.

A host signs tokens in three places. The answer to a join request and the
token of a local addition are receipts of consent to the very contract they
name. The push of a rotation refreshes every member's token under the
current contract, whether or not the member re-consented to it: such a token
says that its side is a member, and that it consented to some contract of
the verse (`token_is_receipt`). `rotation_signs_unconsented` is a run in
which a member holds a token for an amendment it never saw.
-/
import Sidevers.Proofs.VerseSteps
import Sidevers.Lib.Run

namespace Sidevers.Proofs

open Sidevers.Core
open Sidevers.Lib
open Sidevers.Net

variable {crypto : Crypto}
  {openPost : VerseContentKey → VersePostPayload → Option (List UInt8)}

/-- The token names the side and the contract. -/
def Names (side : Address) (contractHash : Bytes 32)
    (token : MembershipToken) : Prop :=
  token.memberSide = side ∧ token.contractHash = contractHash

/-- A token for the side and the contract was signed. -/
def Signs (side : Address) (contractHash : Bytes 32) : VerseEvent → Prop
  | .joinSealed share => Names side contractHash share.token
  | .directToken token _ => Names side contractHash token
  | .pushed shares => ∃ member conn share,
      shares member = some (conn, share) ∧ Names side contractHash share.token
  | _ => False

/-- The side consented to the contract: its join request passed, it was
added, or it re-consented. -/
def Consents (side : Address) (contractHash : Bytes 32) : VerseEvent → Prop
  | .checked s c => s = side ∧ c = contractHash
  | .added s c _ => s = side ∧ c = contractHash
  | .reconsented s c => s = side ∧ c = contractHash
  | _ => False

/-- The side has consented to the contract. -/
def Consented (log : List VerseEvent) (side : Address)
    (contractHash : Bytes 32) : Prop :=
  ∃ e ∈ log, Consents side contractHash e

theorem Consented.append {log : List VerseEvent} {side : Address}
    {contractHash : Bytes 32} (h : Consented log side contractHash)
    (es : List VerseEvent) : Consented (log ++ es) side contractHash := by
  obtain ⟨e, he, hc⟩ := h
  exact ⟨e, List.mem_append_left _ he, hc⟩

-- ================================================== where tokens arise

/-- The event is a rotation's, and the side a member in it, for the
contract of the host. -/
def Refreshed (crypto : Crypto) (h : VerseHost) (e : VerseEvent)
    (side : Address) (contractHash : Bytes 32) : Prop :=
  (∃ shares, e = .pushed shares) ∧ h.members side ≠ none
    ∧ contractHash = h.contract.hash crypto

/-- A rotation signs tokens of members, for the current contract. -/
theorem rotateTick_signs {h : VerseHost} {io : Option UInt64} {pc : RotatePc}
    {e : VerseEvent} {side : Address} {contractHash : Bytes 32}
    (he : e ∈ (rotateTick crypto h io pc).events)
    (hsigns : Signs side contractHash e) :
    Refreshed crypto h e side contractHash := by
  cases pc with
  | rotate =>
      cases io with
      | none => cases he
      | some now =>
          obtain rfl := List.mem_singleton.mp he
          cases hsigns
  | snapshot =>
      cases io with
      | none => cases he
      | some now =>
          obtain rfl := List.mem_singleton.mp he
          obtain ⟨member, conn, share, hshare, hside, hhash⟩ := hsigns
          obtain ⟨-, hmember, rfl⟩ :=
            VerseHost.pushSnapshot_eq_some.mp hshare
          subst hside hhash
          exact ⟨⟨_, rfl⟩, hmember, rfl⟩

/-- A session signs the token of a join it checked, or those of a rotation
it runs. -/
theorem serveTick_signs {h : VerseHost} {peer : Address} {conn : ConnId}
    {io : Option UInt64} {pc : ServePc} {t : Tick ServePc} {e : VerseEvent}
    {side : Address} {contractHash : Bytes 32}
    (ht : serveTick crypto openPost h peer conn io pc = some t)
    (he : e ∈ t.events) (hsigns : Signs side contractHash e) :
    (∃ fromSide req arrived contract,
        pc = .joinSeal fromSide req arrived contract
          ∧ side = req.side ∧ contractHash = contract.hash crypto)
      ∨ Refreshed crypto h e side contractHash := by
  cases pc with
  | joinSeal fromSide req arrived contract =>
      cases io with
      | none =>
          cases ht
          cases he
      | some now =>
          cases ht
          obtain rfl := List.mem_singleton.mp he
          obtain ⟨hside, hhash⟩ := hsigns
          exact Or.inl ⟨fromSide, req, arrived, contract, rfl, hside.symm,
            hhash.symm⟩
  | rotating pc =>
      cases ht
      exact Or.inr (rotateTick_signs he hsigns)
  | accept => cases ht
  | _ =>
      -- no other step signs
      simp only [serveTick] at ht
      (repeat' split at ht) <;> cases ht <;>
        first
          | (obtain rfl := List.mem_singleton.mp he
             cases hsigns)
          | cases he

-- ========================================================== invariant

/-- Members consented to something, and the joins about to be answered
passed their checks. -/
structure Receipts (crypto : Crypto) (w : VerseWorld) : Prop where
  members : ∀ side, w.host.members side ≠ none →
    ∃ contractHash, Consented w.log side contractHash
  joins : ∀ conn peer fromSide req arrived contract,
    w.sessions conn = some ⟨peer, .joinSeal fromSide req arrived contract⟩ →
    .checked req.side (contract.hash crypto) ∈ w.log

/-- A session comes to answer a join only by its checks. -/
theorem serveTick_joinSeal {h : VerseHost} {peer : Address} {conn : ConnId}
    {io : Option UInt64} {pc : ServePc} {t : Tick ServePc}
    {fromSide : Address} {req : JoinRequestPayload} {arrived : Nat}
    {contract : ContractObject}
    (ht : serveTick crypto openPost h peer conn io pc = some t)
    (hnext : t.next = some (.joinSeal fromSide req arrived contract)) :
    .checked req.side (contract.hash crypto) ∈ t.events := by
  cases pc with
  | joinCheck f r a =>
      simp only [serveTick] at ht
      split at ht <;> (cases ht; cases hnext)
      exact List.mem_singleton_self _
  | leave leave =>
      cases ht
      injection hnext with hnext
      split at hnext
      · cases hnext
      · split at hnext <;> cases hnext
  | remove remove =>
      cases ht
      injection hnext with hnext
      split at hnext <;> cases hnext
  | rotating pc =>
      cases ht
      injection hnext with hnext
      cases hr : (rotateTick crypto h io pc).next with
      | none =>
          rw [hr] at hnext
          cases hnext
      | some pc' =>
          rw [hr] at hnext
          cases hnext
  | accept => cases ht
  | _ =>
      simp only [serveTick] at ht
      (repeat' split at ht) <;> cases ht <;> cases hnext

/-- Step lemma. -/
theorem receipts_step {w w' : VerseWorld} {a : VerseAction}
    (h : Receipts crypto w)
    (hstep : verseStep crypto openPost w a = some w') :
    Receipts crypto w' := by
  obtain ⟨es, hlog, hmembers⟩ := members_step hstep
  constructor
  · intro side hside
    rw [hlog]
    have hold : w.host.members side ≠ none →
        ∃ contractHash, Consented (w.log ++ es) side contractHash := by
      intro hmem
      obtain ⟨contractHash, hc⟩ := h.members side hmem
      exact ⟨contractHash, hc.append es⟩
    have hnew : ∀ {contractHash how}, .added side contractHash how ∈ es →
        ∃ contractHash, Consented (w.log ++ es) side contractHash :=
      fun hadded => ⟨_, _, List.mem_append_right _ hadded, rfl, rfl⟩
    cases hmembers with
    | same hsame hes => exact hold (hsame ▸ hside)
    | joined conn io peer fromSide req arrived contract share ha hs hins
        hes =>
        rw [hins, Table.insert_ne_none_iff] at hside
        subst hes
        rcases hside with rfl | hmem
        · exact hnew List.mem_cons_self
        · exact hold hmem
    | direct s token key hins hes htoken hkey =>
        rw [hins, Table.insert_ne_none_iff] at hside
        subst hes
        rcases hside with rfl | hmem
        · exact hnew List.mem_cons_self
        · exact hold hmem
    | removed s herase hes =>
        rw [herase, Table.erase_ne_none_iff] at hside
        exact hold hside.2
  · intro conn peer fromSide req arrived contract hs'
    rw [hlog]
    generalize hpc : ServePc.joinSeal fromSide req arrived contract = pc at hs'
    cases sessions_step hstep hs' with
    | same _ hs =>
        subst hpc
        exact List.mem_append_left _
          (h.joins conn peer fromSide req arrived contract hs)
    | opened => cases hpc
    | received env ha hs =>
        unfold serveReceive at hpc
        (repeat' split at hpc) <;> cases hpc
    | ticked io pc₀ t next ha hs ht hnext =>
        subst hpc ha
        rw [verseStep_tick hs ht] at hstep
        cases hstep
        rw [applySession_log] at hlog
        rw [← List.append_cancel_left hlog]
        exact List.mem_append_right _ (serveTick_joinSeal ht hnext)

/-- The tokens a step signs are receipts: of the very contract in the answer
to a join and in a local addition; in the pushes of a rotation, which sign
for the contract current then, of membership and of consent to some contract
of the verse. -/
theorem token_is_receipt (crypto : Crypto)
    (openPost : VerseContentKey → VersePostPayload → Option (List UInt8))
    (contract : ContractObject) (w w' : VerseWorld) (a : VerseAction)
    (before after : List VerseEvent) (e : VerseEvent) (side : Address)
    (contractHash : Bytes 32)
    (hreach : Reachable (verseStep crypto openPost) (.init (.new contract)) w)
    (hstep : verseStep crypto openPost w a = some w')
    (hlog : w'.log = w.log ++ (before ++ e :: after))
    (hsigns : Signs side contractHash e) :
    Consented (w.log ++ before) side contractHash
      ∨ (Refreshed crypto w.host e side contractHash
        ∧ ∃ c, Consented w.log side c) := by
  have hinit : Receipts crypto (.init (.new contract)) :=
    ⟨fun _ h => absurd rfl h, fun _ _ _ _ _ _ h => nomatch h⟩
  have h : Receipts crypto w :=
    hreach.induct hinit fun _ _ _ h hstep => receipts_step h hstep
  have hrefresh : Refreshed crypto w.host e side contractHash →
      Refreshed crypto w.host e side contractHash
        ∧ ∃ c, Consented w.log side c :=
    fun hr => ⟨hr, h.members side hr.2.1⟩
  have hquiet : w'.log = w.log → False := by
    intro heq
    rw [heq, List.self_eq_append_right] at hlog
    cases before <;> cases hlog
  cases verseStep_cases hstep with
  | openSession => exact (hquiet rfl).elim
  | receive => exact (hquiet rfl).elim
  | tick conn io peer pc t hs ht =>
      rw [applySession_log] at hlog
      have hes : t.events = before ++ e :: after :=
        List.append_cancel_left hlog
      have he : e ∈ t.events := by
        rw [hes]
        exact List.mem_append_right _ List.mem_cons_self
      rcases serveTick_signs ht he hsigns with hjoin | hr
      · obtain ⟨fromSide, req, arrived, c, rfl, rfl, rfl⟩ := hjoin
        have hchecked := h.joins conn peer fromSide req arrived c hs
        exact Or.inl ⟨_, List.mem_append_left _ hchecked, rfl, rfl⟩
      · exact Or.inr (hrefresh hr)
  | closeSession => exact (hquiet rfl).elim
  | cleanup => exact (hquiet rfl).elim
  | pushSent rotation member conn share hp =>
      have hes : [.delivered member share] = before ++ e :: after :=
        List.append_cancel_left hlog
      have he : e ∈ [VerseEvent.delivered member share] := by
        rw [hes]
        exact List.mem_append_right _ List.mem_cons_self
      obtain rfl := List.mem_singleton.mp he
      cases hsigns
  | pushFailed => exact (hquiet rfl).elim
  | stash => exact (hquiet rfl).elim
  | addLocalMember s issuedAt =>
      have hes := List.append_cancel_left hlog
      -- the addition is logged before its token
      cases before with
      | nil =>
          injection hes with hhead
          subst hhead
          cases hsigns
      | cons e₀ before =>
          injection hes with hhead htail
          subst hhead
          cases before with
          | nil =>
              injection htail with hhead
              subst hhead
              obtain ⟨hside, hhash⟩ := hsigns
              exact Or.inl ⟨_, List.mem_append_right _ List.mem_cons_self,
                hside, hhash⟩
          | cons e₁ before =>
              injection htail with _ htail
              cases before <;> cases htail
  | amend => exact (hquiet rfl).elim
  | rotate => exact (hquiet rfl).elim
  | tickRotation call io pc hr =>
      have hes : (rotateTick crypto w.host io pc).events
        = before ++ e :: after := List.append_cancel_left hlog
      have he : e ∈ (rotateTick crypto w.host io pc).events := by
        rw [hes]
        exact List.mem_append_right _ List.mem_cons_self
      exact Or.inr (hrefresh (rotateTick_signs he hsigns))

-- ============================================================== a run

/-- A hash that tells contracts apart by the first bytes of their wire form,
the title's; a signature is the digest and the key. -/
def titleHash : Crypto where
  blake3 bs := ⟨(bs ++ List.replicate 32 0).take 32, by simp⟩
  verify pk d σ :=
    if σ.val = d.val ++ pk.val then .ok () else .error .signatureInvalid

/-- A side joins under the first contract, which is then amended. -/
def joinThenAmend : List VerseAction :=
  [.openSession (Bytes.fill _ 2), .tick 0 (some 1), .tick 0 (some 1),
    .receive 0 (toVerse (Bytes.fill _ 2) (.joinRequest
      ⟨(titled "a" 1).hash titleHash, Bytes.fill _ 2, BTreeMap.empty⟩)),
    .tick 0 (some 1), .tick 0 (some 1), .tick 0 (some 1), .tick 0 (some 1),
    .tick 0 (some 1), .amend (titled "b" 2)]

/-- Then the key is rotated; the next step makes the pushes. -/
def rotateKey : List VerseAction := [.rotate, .tickRotation 1 (some 2)]

/-- A freshly hosted verse under the first contract. -/
def titledVerse : VerseWorld := .init (.new (titled "a" 1))

/-- The member's token in the push of that rotation. -/
theorem token_is_receipt_refreshed :
    ∃ w w' e, run (verseStep titleHash fun _ _ => none) titledVerse
        (joinThenAmend ++ rotateKey) = some w
      ∧ verseStep titleHash (fun _ _ => none) w (.tickRotation 1 (some 2))
        = some w'
      ∧ w'.log = w.log ++ ([] ++ [e])
      ∧ (Consented (w.log ++ []) (Bytes.fill _ 2)
          ((titled "b" 2).hash titleHash)
        ∨ (Refreshed titleHash w.host e (Bytes.fill _ 2)
            ((titled "b" 2).hash titleHash)
          ∧ ∃ c, Consented w.log (Bytes.fill _ 2) c)) := by
  refine ⟨_, _, _, rfl, rfl, rfl, token_is_receipt titleHash (fun _ _ => none)
    (titled "a" 1) _ _ (.tickRotation 1 (some 2)) [] [] _ (Bytes.fill _ 2)
    ((titled "b" 2).hash titleHash) ⟨joinThenAmend ++ rotateKey, rfl⟩ rfl rfl
    ?_⟩
  exact ⟨Bytes.fill _ 2, 0, _, rfl, rfl, rfl⟩

/-- A token for the amended contract is signed for a member that consented
to the first one only. -/
theorem rotation_signs_unconsented :
    ∃ w before e, run (verseStep titleHash fun _ _ => none) titledVerse
        (joinThenAmend ++ rotateKey ++ [.tickRotation 1 (some 2)]) = some w
      ∧ w.log = before ++ [e]
      ∧ Signs (Bytes.fill _ 2) ((titled "b" 2).hash titleHash) e
      ∧ ¬ Consented before (Bytes.fill _ 2)
        ((titled "b" 2).hash titleHash) := by
  refine ⟨_, [_, _, _, _, _], _, rfl, rfl,
    ⟨Bytes.fill _ 2, 0, _, rfl, rfl, rfl⟩, fun h => ?_⟩
  have hne : (titled "a" 1).hash titleHash ≠ (titled "b" 2).hash titleHash :=
    by decide
  obtain ⟨c, hc, hconsents⟩ := h
  simp only [List.mem_cons, List.not_mem_nil, or_false] at hc
  rcases hc with rfl | rfl | rfl | rfl | rfl
  · exact hne hconsents.2
  · exact hconsents
  · exact hne hconsents.2
  · exact hconsents
  · exact hconsents

end Sidevers.Proofs
