/-
Posts and the contract their author consented to (`Net.ServeVerse`).

The host keeps the version a member consented to, not the contract.
`lastConsent` reads the contract off the log, and `ConsentsFit` is the
invariant between the two: whoever is recorded at the current version last
consented to the current contract. A join under way is held to the same.

# Where it fails

An amendment may reuse a version, and the version a post is checked against
is read one lock step before the check. `ConsentOk` is the condition under
which neither matters.
-/
import Sidevers.Core.VerseWire
import Sidevers.Lib.Run
import Sidevers.Proofs.VerseTokens

namespace Sidevers.Proofs

open Sidevers.Core
open Sidevers.Lib
open Sidevers.Net

variable {crypto : Crypto}
  {openPost : VerseContentKey → VersePostPayload → Option (List UInt8)}

-- ======================================================== last consents

/-- The contract a side consented to last, after an event. -/
def consentAfter (side : Address) (cur : Option (Bytes 32)) :
    VerseEvent → Option (Bytes 32)
  | .added s contractHash _ => if s = side then some contractHash else cur
  | .reconsented s contractHash =>
      if s = side then some contractHash else cur
  | .removed s => if s = side then none else cur
  | _ => cur

/-- The contract a side joined under, was added under or re-consented to
last; `none` if it was removed since. -/
def lastConsent (log : List VerseEvent) (side : Address) :
    Option (Bytes 32) :=
  log.foldl (consentAfter side) none

theorem lastConsent_append (log es : List VerseEvent) (side : Address) :
    lastConsent (log ++ es) side
      = es.foldl (consentAfter side) (lastConsent log side) :=
  List.foldl_append

/-- Who consented to what by the events. -/
def Consenting (es : List VerseEvent) (side : Address)
    (contractHash : Option (Bytes 32)) : Prop :=
  (∀ cur, es.foldl (consentAfter side) cur = contractHash)
    ∧ ∀ other cur, other ≠ side →
      es.foldl (consentAfter other) cur = cur

theorem consenting_added (side : Address) (contractHash : Bytes 32)
    (how : Addition) :
    Consenting [.added side contractHash how] side (some contractHash) :=
  ⟨fun _ => if_pos rfl, fun _ _ hne => if_neg hne.symm⟩

/-- Nobody consented or was removed. -/
def NoConsent (es : List VerseEvent) : Prop :=
  ∀ side cur, es.foldl (consentAfter side) cur = cur

-- ================================================ how consents change

/-- The ways a step touches the recorded consents, and what it logs.
`joining` are the contracts of joins under way. -/
inductive ConsentChange (crypto : Crypto) (h : VerseHost)
    (joining : ContractObject → Prop) (versions : Table Address UInt64)
    (es : List VerseEvent) : Prop where
  | same (hversions : versions = h.consentedVersions)
      (hes : NoConsent es)
  | consented (side : Address) (contract : ContractObject)
      (hcontract : contract = h.contract ∨ joining contract)
      (hversions : versions
        = h.consentedVersions.insert side contract.version)
      (hes : Consenting es side (some (contract.hash crypto)))
  | removed (side : Address)
      (hversions : versions = h.consentedVersions.erase side)
      (hes : Consenting es side none)

/-- A step that touches no consent and logs nothing about one. -/
theorem ConsentChange.quiet {h : VerseHost}
    {joining : ContractObject → Prop} {es : List VerseEvent}
    (hes : NoConsent es) :
    ConsentChange crypto h joining h.consentedVersions es := .same rfl hes

theorem rotateTick_consents (h : VerseHost)
    (joining : ContractObject → Prop) (io : Option UInt64) (pc : RotatePc) :
    ConsentChange crypto h joining
      (rotateTick crypto h io pc).host.consentedVersions
      (rotateTick crypto h io pc).events := by
  cases pc <;> cases io <;> exact .quiet fun _ _ => rfl

/-- The contract a join was checked against. -/
def joinContract : ServePc → Option ContractObject
  | .joinSeal _ _ _ contract => some contract
  | .joinInsert _ _ _ contract _ => some contract
  | _ => none

theorem serveTick_consents {h : VerseHost} {peer : Address} {conn : ConnId}
    {io : Option UInt64} {pc : ServePc} {t : Tick ServePc}
    (ht : serveTick crypto openPost h peer conn io pc = some t) :
    ConsentChange crypto h (fun c => joinContract pc = some c)
      t.host.consentedVersions t.events := by
  cases pc with
  | accept => cases ht
  | joinInsert fromSide req arrived contract share =>
      cases ht
      exact .consented req.side contract (Or.inr rfl) rfl
        (consenting_added ..)
  | leave leave =>
      cases ht
      exact .removed leave.side rfl
        ⟨fun _ => if_pos rfl, fun _ _ hne => if_neg hne.symm⟩
  | remove remove =>
      cases ht
      exact .removed remove.side rfl
        ⟨fun _ => if_pos rfl, fun _ _ hne => if_neg hne.symm⟩
  | reconsent fromSide contractHash =>
      simp only [serveTick] at ht
      split at ht
      case h_1 =>
          cases ht
          exact .quiet fun _ _ => rfl
      case h_2 h' hr =>
          cases ht
          obtain ⟨rfl, -, rfl⟩ := reconsent_eq hr
          exact .consented fromSide h.contract (Or.inl rfl) rfl
            ⟨fun _ => if_pos rfl, fun _ _ hne => if_neg hne.symm⟩
  | rotating pc =>
      cases ht
      exact rotateTick_consents h _ io pc
  | drain =>
      simp only [serveTick] at ht
      split at ht <;> (cases ht; exact .quiet fun _ _ => rfl)
  | joinCheck fromSide req arrived =>
      simp only [serveTick] at ht
      split at ht <;> (cases ht; exact .quiet fun _ _ => rfl)
  | moderate fromSide remove =>
      simp only [serveTick] at ht
      split at ht <;> (cases ht; exact .quiet fun _ _ => rfl)
  | postAdmit post version =>
      simp only [serveTick] at ht
      split at ht <;> (cases ht; exact .quiet fun _ _ => rfl)
  | postOpen post =>
      simp only [serveTick] at ht
      split at ht <;> (cases ht; exact .quiet fun _ _ => rfl)
  -- what is left is about nobody's consent
  | _ => cases io <;> (cases ht; exact .quiet fun _ _ => rfl)

/-- A session is about to add a side under the contract. -/
def Joining (w : VerseWorld) (contract : ContractObject) : Prop :=
  ∃ conn peer pc, w.sessions conn = some ⟨peer, pc⟩
    ∧ joinContract pc = some contract

theorem ConsentChange.mono {h : VerseHost} {p q : ContractObject → Prop}
    {versions : Table Address UInt64} {es : List VerseEvent}
    (hc : ConsentChange crypto h p versions es) (hpq : ∀ c, p c → q c) :
    ConsentChange crypto h q versions es := by
  cases hc with
  | same hversions hes => exact .same hversions hes
  | consented side contract hcontract hversions hes =>
      exact .consented side contract (hcontract.imp_right (hpq contract))
        hversions hes
  | removed side hversions hes => exact .removed side hversions hes

/-- What a step does to the consents. -/
theorem consents_step {w w' : VerseWorld} {a : VerseAction}
    (hstep : verseStep crypto openPost w a = some w') :
    ∃ es, w'.log = w.log ++ es ∧ ConsentChange crypto w.host (Joining w)
      w'.host.consentedVersions es := by
  have hquiet : ∀ {w'' : VerseWorld}, w''.log = w.log →
      w''.host.consentedVersions = w.host.consentedVersions →
      ∃ es, w''.log = w.log ++ es ∧ ConsentChange crypto w.host (Joining w)
        w''.host.consentedVersions es := by
    intro w'' hlog hversions
    exact ⟨[], by rw [hlog, List.append_nil],
      .same hversions fun _ _ => rfl⟩
  cases verseStep_cases hstep with
  | tick conn io peer pc t hs ht =>
      refine ⟨t.events, applySession_log .., ?_⟩
      rw [applySession_host]
      exact (serveTick_consents ht).mono fun c hc => ⟨conn, peer, pc, hs, hc⟩
  | addLocalMember side issuedAt =>
      refine ⟨_, rfl, .consented side w.host.contract (Or.inl rfl) rfl
        ⟨fun _ => if_pos rfl, fun _ _ hne => if_neg hne.symm⟩⟩
  | pushSent rotation member conn share hp =>
      exact ⟨_, rfl, .quiet fun _ _ => rfl⟩
  | tickRotation call io pc hr =>
      exact ⟨_, rfl, rotateTick_consents w.host _ io pc⟩
  | _ => exact hquiet rfl rfl

-- ======================================================== the invariant

/-- Whoever is recorded at the current version last consented to the current
contract, and whoever is being added at it is added under it. -/
structure ConsentsFit (crypto : Crypto) (w : VerseWorld) : Prop where
  consents : ∀ {side version},
    w.host.consentedVersions side = some version →
    ∃ contractHash, lastConsent w.log side = some contractHash
      ∧ (version = w.host.contract.version →
        contractHash = w.host.contract.hash crypto)
  joins : ∀ {contract}, Joining w contract →
    contract.version = w.host.contract.version →
    contract.hash crypto = w.host.contract.hash crypto

/-- The steps that keep it: an amendment whose version no other contract has
that a recorded consent or a join under way is for; a post checked against
the version that is still current; anything else. -/
def ConsentOk (crypto : Crypto) (w : VerseWorld) : VerseAction → Prop
  | .amend contract =>
      (∀ side contractHash,
        w.host.consentedVersions side = some contract.version →
        lastConsent w.log side = some contractHash →
        contractHash = contract.hash crypto)
      ∧ ∀ c, Joining w c → c.version = contract.version →
        c.hash crypto = contract.hash crypto
  | .tick conn _ => ∀ peer post version,
      w.sessions conn = some ⟨peer, .postAdmit post version⟩ →
      version = w.host.contract.version
  | _ => True

/-- The contract of a join is the one it was checked against. -/
theorem serveTick_joinContract {h : VerseHost} {peer : Address}
    {conn : ConnId} {io : Option UInt64} {pc next : ServePc}
    {t : Tick ServePc} {contract : ContractObject}
    (ht : serveTick crypto openPost h peer conn io pc = some t)
    (hnext : t.next = some next) (hc : joinContract next = some contract) :
    contract = h.contract ∨ joinContract pc = some contract := by
  cases pc with
  | accept => cases ht
  | joinCheck fromSide req arrived =>
      simp only [serveTick] at ht
      split at ht <;> (cases ht; cases hnext; cases hc)
      exact Or.inl rfl
  | joinSeal fromSide req arrived c =>
      cases io <;> cases ht <;> cases hnext
      cases hc
      exact Or.inr rfl
  | drain =>
      simp only [serveTick] at ht
      split at ht <;> cases ht <;> cases hnext <;> cases hc
  | leave leave =>
      cases ht
      injection hnext with hnext
      subst hnext
      split at hc
      · cases hc
      · split at hc <;> cases hc
  | moderate fromSide remove =>
      simp only [serveTick] at ht
      split at ht <;> cases ht <;> cases hnext <;> cases hc
  | remove remove =>
      cases ht
      injection hnext with hnext
      subst hnext
      split at hc <;> cases hc
  | rotating pc =>
      cases ht
      injection hnext with hnext
      subst hnext
      cases hrot : (rotateTick crypto h io pc).next with
      | none =>
          rw [hrot] at hc
          cases hc
      | some rest =>
          rw [hrot] at hc
          cases hc
  | reconsent fromSide contractHash =>
      simp only [serveTick] at ht
      split at ht <;> cases ht <;> cases hnext <;> cases hc
  | postAdmit post version =>
      simp only [serveTick] at ht
      split at ht <;> cases ht <;> cases hnext <;> cases hc
  | postOpen post =>
      simp only [serveTick] at ht
      split at ht <;> cases ht <;> cases hnext <;> cases hc
  | _ => cases io <;> cases ht <;> cases hnext <;> cases hc

/-- A dispatched message is not a join that was checked. -/
theorem serveReceive_joinContract {h : VerseHost} {arrived : Nat}
    {env : Envelope VerseMessage} :
    joinContract (serveReceive h arrived env) = none := by
  unfold serveReceive
  split
  case h_4 leave hp =>
      split
      · rfl
      · split <;> rfl
  case h_5 remove hp => split <;> rfl
  all_goals rfl

theorem joining_step {w w' : VerseWorld} {a : VerseAction}
    {contract : ContractObject}
    (hstep : verseStep crypto openPost w a = some w')
    (hj : Joining w' contract) :
    contract = w.host.contract ∨ Joining w contract := by
  obtain ⟨conn, peer, pc, hs', hc⟩ := hj
  cases sessions_step hstep hs' with
  | same _ hs => exact Or.inr ⟨conn, peer, pc, hs, hc⟩
  | opened => cases hc
  | received env ha hs =>
      rw [serveReceive_joinContract] at hc
      cases hc
  | ticked io pc₀ t _ ha hs ht hnext =>
      rcases serveTick_joinContract ht hnext hc with heq | hc
      · exact Or.inl heq
      · exact Or.inr ⟨conn, peer, pc₀, hs, hc⟩

theorem consentsFit_step {w w' : VerseWorld} {a : VerseAction}
    (hok : ConsentOk crypto w a) (h : ConsentsFit crypto w)
    (hstep : verseStep crypto openPost w a = some w') :
    ConsentsFit crypto w' := by
  obtain ⟨-, hcontract⟩ := contract_step hstep
  rcases hcontract with hsame | ⟨contract, rfl, -, hnew⟩
  case inr =>
      cases verseStep_cases hstep
      refine ⟨fun {side version} hv => ?_, fun {c} hj hversion => ?_⟩
      · obtain ⟨contractHash, hlast, -⟩ := h.consents hv
        refine ⟨contractHash, hlast, fun heq => ?_⟩
        exact hok.1 side contractHash (heq ▸ hv) hlast
      · exact hok.2 c hj hversion
  case inl =>
      refine ⟨fun {side version} hv => ?_, fun {c} hj hversion => ?_⟩
      · obtain ⟨es, hlog, hchange⟩ := consents_step hstep
        rw [hlog, lastConsent_append, hsame]
        cases hchange with
        | same hversions hes =>
            rw [hversions] at hv
            rw [hes]
            exact h.consents hv
        | consented s contract hc hversions hes =>
            rw [hversions] at hv
            rcases (Table.insert_eq_some_iff ..).mp hv with
              ⟨rfl, rfl⟩ | ⟨hne, hold⟩
            · refine ⟨_, hes.1 _, fun heq => ?_⟩
              rcases hc with rfl | hj
              · rfl
              · exact h.joins hj heq
            · rw [hes.2 _ _ hne]
              exact h.consents hold
        | removed s hversions hes =>
            rw [hversions] at hv
            obtain ⟨hne, hold⟩ := (Table.erase_eq_some_iff ..).mp hv
            rw [hes.2 _ _ hne]
            exact h.consents hold
      · rw [hsame] at hversion ⊢
        rcases joining_step hstep hj with rfl | hj
        · rfl
        · exact h.joins hj hversion

-- ========================================================== admissions

/-- The post an event admits. -/
def admittedPost : VerseEvent → Option (Envelope VersePostPayload)
  | .admitted post _ => some post
  | _ => none

theorem not_admitted {e : VerseEvent} {post : Envelope VersePostPayload}
    {contractHash : Bytes 32} (he : admittedPost e = none) :
    .admitted post contractHash ∉ [e] := by
  intro hmem
  rw [← List.mem_singleton.mp hmem] at he
  cases he

/-- Only the check of a post admits one. -/
theorem serveTick_admitted {h : VerseHost} {peer : Address} {conn : ConnId}
    {io : Option UInt64} {pc : ServePc} {t : Tick ServePc}
    {post : Envelope VersePostPayload} {contractHash : Bytes 32}
    (ht : serveTick crypto openPost h peer conn io pc = some t)
    (hadmitted : .admitted post contractHash ∈ t.events) :
    ∃ version, pc = .postAdmit post version
      ∧ h.admits post.fromSide version = true
      ∧ contractHash = h.contract.hash crypto := by
  cases pc with
  | accept => cases ht
  | postAdmit p version =>
      simp only [serveTick] at ht
      split at ht
      case isTrue hadmits =>
          cases ht
          obtain ⟨rfl, rfl⟩ : post = p ∧ contractHash = h.contract.hash crypto
            := by simpa [Tick.go] using hadmitted
          exact ⟨version, rfl, hadmits, rfl⟩
      case isFalse =>
          cases ht
          cases hadmitted
  | drain =>
      simp only [serveTick] at ht
      split at ht <;> (cases ht; cases hadmitted)
  | joinCheck fromSide req arrived =>
      simp only [serveTick] at ht
      split at ht <;> cases ht
      · cases hadmitted
      · exact absurd hadmitted (not_admitted rfl)
  | moderate fromSide remove =>
      simp only [serveTick] at ht
      split at ht <;> (cases ht; cases hadmitted)
  | rotating pc =>
      cases ht
      cases pc <;> cases io
      · cases hadmitted
      · exact absurd hadmitted (not_admitted rfl)
      · cases hadmitted
      · exact absurd hadmitted (not_admitted rfl)
  | reconsent fromSide c =>
      simp only [serveTick] at ht
      split at ht <;> cases ht
      · cases hadmitted
      · exact absurd hadmitted (not_admitted rfl)
  | postOpen p =>
      simp only [serveTick] at ht
      split at ht <;> (cases ht; cases hadmitted)
  -- at most one event, of another kind
  | _ =>
      cases io <;> cases ht <;>
        first | exact absurd hadmitted (not_admitted rfl) | cases hadmitted

theorem admitted_step {w w' : VerseWorld} {a : VerseAction}
    {es : List VerseEvent} {post : Envelope VersePostPayload}
    {contractHash : Bytes 32}
    (hstep : verseStep crypto openPost w a = some w')
    (hlog : w'.log = w.log ++ es)
    (hadmitted : .admitted post contractHash ∈ es) :
    ∃ conn io peer version, a = .tick conn io
      ∧ w.sessions conn = some ⟨peer, .postAdmit post version⟩
      ∧ w.host.admits post.fromSide version = true
      ∧ contractHash = w.host.contract.hash crypto := by
  have hquiet : w'.log = w.log → False := by
    intro heq
    rw [heq, List.self_eq_append_right] at hlog
    rw [hlog] at hadmitted
    cases hadmitted
  cases verseStep_cases hstep with
  | tick conn io peer pc t hs ht =>
      rw [applySession_log] at hlog
      rw [← List.append_cancel_left hlog] at hadmitted
      obtain ⟨version, rfl, hadmits, hhash⟩ := serveTick_admitted ht hadmitted
      exact ⟨conn, io, peer, version, rfl, hs, hadmits, hhash⟩
  | pushSent =>
      rw [← List.append_cancel_left hlog] at hadmitted
      cases List.mem_singleton.mp hadmitted
  | addLocalMember side issuedAt =>
      rw [← List.append_cancel_left hlog] at hadmitted
      rcases List.mem_cons.mp hadmitted with heq | hadmitted
      · cases heq
      · cases List.mem_singleton.mp hadmitted
  | tickRotation call io pc hr =>
      rw [← List.append_cancel_left hlog] at hadmitted
      cases pc <;> cases io <;> cases hadmitted <;> contradiction
  | _ => exact (hquiet rfl).elim

/-- The post that is admitted is of a member, whose last consent was to the
contract current then: in every run that reuses no version and amends no
contract between the two steps of a post's check. -/
theorem posts_under_consent (crypto : Crypto)
    (openPost : VerseContentKey → VersePostPayload → Option (List UInt8))
    (contract : ContractObject) (acts : List VerseAction) (a : VerseAction)
    (w w' : VerseWorld) (es : List VerseEvent)
    (post : Envelope VersePostPayload) (contractHash : Bytes 32)
    (hok : Along (verseStep crypto openPost) (ConsentOk crypto)
      (.init (.new contract)) (acts ++ [a]))
    (hrun : run (verseStep crypto openPost) (.init (.new contract)) acts
      = some w)
    (hstep : verseStep crypto openPost w a = some w')
    (hlog : w'.log = w.log ++ es)
    (hadmitted : .admitted post contractHash ∈ es) :
    w.host.members post.fromSide ≠ none
      ∧ contractHash = w.host.contract.hash crypto
      ∧ lastConsent w.log post.fromSide = some contractHash := by
  have hinit : ConsentsFit crypto (.init (.new contract)) :=
    ⟨nofun, fun hj => by obtain ⟨_, _, _, h, _⟩ := hj; cases h⟩
  have hfit : ConsentsFit crypto w :=
    run_induct (fun _ _ _ hok h hstep => consentsFit_step hok h hstep)
      hok.prefix hinit hrun
  obtain ⟨conn, io, peer, version, rfl, hs, hadmits, rfl⟩ :=
    admitted_step hstep hlog hadmitted
  have hcurrent : version = w.host.contract.version :=
    (hok.suffix hrun).1 peer post version hs
  obtain ⟨hmember, hconsent⟩ : (w.host.members post.fromSide).isSome = true
      ∧ w.host.consentedVersions post.fromSide = some version := by
    simpa [VerseHost.admits] using hadmits
  obtain ⟨contractHash, hlast, heq⟩ := hfit.consents hconsent
  refine ⟨?_, rfl, ?_⟩
  · intro hnone
    rw [hnone] at hmember
    cases hmember
  · rw [hlast, heq hcurrent]

-- ============================================================== a run

/-- The key of the verse. -/
def titleSigner : Signer titleHash where
  publicBytes := Bytes.fill _ 1
  sign d := ⟨d.val ++ List.replicate publicKeyLen 1, by
    rw [List.length_append, d.property, List.length_replicate]
    rfl⟩
  verifies _ := if_pos rfl

/-- A contract with nothing but a title, as the verse signs it. -/
def signedTitle (title : String) (version : UInt64) : ContractObject :=
  .sign titleSigner version title "" [] [] [] [] [] [] 0

def signedVerse : VerseWorld := .init (.new (signedTitle "a" 1))

/-- A side joins under a contract. -/
def joinsUnder (contract : ContractObject) : List VerseAction :=
  [.openSession (Bytes.fill _ 2), .tick 0 (some 1), .tick 0 (some 1),
    .receive 0 (toVerse (Bytes.fill _ 2) (.joinRequest
      ⟨contract.hash titleHash, Bytes.fill _ 2, BTreeMap.empty⟩)),
    .tick 0 (some 1), .tick 0 (some 1), .tick 0 (some 1), .tick 0 (some 1),
    .tick 0 (some 1)]

/-- A side joins under the first contract, and under the signed one. -/
def joinTitled : List VerseAction := joinsUnder (titled "a" 1)
def joinSigned : List VerseAction := joinsUnder (signedTitle "a" 1)

/-- A post of the member. -/
def memberPost : Envelope VersePostPayload :=
  { toVerse (Bytes.fill _ 2) (.versePost ⟨Bytes.fill _ 0, []⟩) with
    payload := ⟨Bytes.fill _ 0, []⟩ }

/-- The member posts, up to the check. -/
def postStep : List VerseAction :=
  [.receive 0 (toVerse (Bytes.fill _ 2)
    (.versePost ⟨Bytes.fill _ 0, []⟩)), .tick 0 (some 2)]

/-- The run that the check ends admitted the post, under this contract, and
this is what the member had consented to. -/
def admission (w : VerseWorld) : Option (Bytes 32) × Option (Bytes 32) :=
  (w.log.foldl (fun last e =>
    match e with
    | .admitted _ contractHash => some contractHash
    | _ => last) none, lastConsent w.log (Bytes.fill _ 2))

/-- Without an amendment the post is admitted under the contract its author
joined under. -/
theorem posts_under_consent_joined :
    ∃ w, run (verseStep titleHash fun _ _ => none) signedVerse
        (joinSigned ++ postStep) = some w
      ∧ w.host.members (Bytes.fill _ 2) ≠ none
      ∧ (signedTitle "a" 1).hash titleHash = w.host.contract.hash titleHash
      ∧ lastConsent w.log (Bytes.fill _ 2)
        = some ((signedTitle "a" 1).hash titleHash) := by
  refine ⟨_, rfl, posts_under_consent titleHash (fun _ _ => none)
    (signedTitle "a" 1) (joinSigned ++ postStep) (.tick 0 (some 3)) _ _
    [.admitted memberPost ((signedTitle "a" 1).hash titleHash)] memberPost _
    ?_ rfl rfl rfl List.mem_cons_self⟩
  refine .cons rfl trivial (.cons rfl nofun (.cons rfl nofun
    (.cons rfl trivial (.cons rfl nofun (.cons rfl nofun (.cons rfl nofun
      (.cons rfl nofun (.cons rfl nofun (.cons rfl trivial (.cons rfl nofun
        (.cons rfl ?_ trivial)))))))))))
  intro peer post version hs
  cases hs
  rfl

/-- The contracts are validly signed. With the same version again: the post is
admitted under a contract its author never saw. Amended between the two steps
of the check: the same. -/
theorem unconsented_post_admitted :
    (∀ c ∈ [signedTitle "a" 1, signedTitle "b" 1, signedTitle "b" 2],
      titleHash.verify c.verse (titleHash.blake3 c.encodeUnsigned) c.signature
        = .ok ())
    ∧ (run (verseStep titleHash fun _ _ => none) signedVerse
        (joinSigned ++ [.amend (signedTitle "b" 1)] ++ postStep
          ++ [.tick 0 (some 3)])).map admission
      = some (some ((signedTitle "b" 1).hash titleHash),
          some ((signedTitle "a" 1).hash titleHash))
    ∧ (run (verseStep titleHash fun _ _ => none) signedVerse
        (joinSigned ++ postStep ++ [.amend (signedTitle "b" 2),
          .tick 0 (some 3)])).map admission
      = some (some ((signedTitle "b" 2).hash titleHash),
          some ((signedTitle "a" 1).hash titleHash))
    ∧ (signedTitle "a" 1).hash titleHash ≠ (signedTitle "b" 1).hash titleHash
    ∧ (signedTitle "a" 1).hash titleHash ≠ (signedTitle "b" 2).hash titleHash :=
  ⟨by decide, by decide, by decide, by decide, by decide⟩

end Sidevers.Proofs
