/-
What a completed handshake tells the initiator (`Net.Handshake`), against
an attacker who owns the network.

# The argument

`AnsweredBy` is the provenance of a HelloBack: a responder run of its signer
produced it. Every accepting HelloBack a side has sent is answered by a run
(`HandshakeInv.backs`), so every one an initiator may read is too, unless
the attacker owns the signer's key. The session keys are as derived
(`.initiated`, `.responded`), and a session key determines the two messages
it was derived over.

A HelloBack says nothing about the Hello it answers, and the initiator looks
neither at whom it is for nor at who signed it. An old one completes a new
handshake (`recorded_back_completes`); the key it gives is then nobody else's.
So the peer of a session answered this very Hello in exactly those runs in
which every HelloBack that is read was meant for its reader
(`initiators_agree_iff`). What holds in all runs is `initiator_guarantee`.
-/
import Sidevers.Net.Handshake

namespace Sidevers.Proofs

open Sidevers.Core
open Sidevers.Lib
open Sidevers.Net

variable {corrupt : Address → Bool} {w w' : HandshakeWorld}

-- ======================================================= what a run did

/-- What an initiator that returned a session has checked and computed. -/
structure BackRead (run : InitiatorRun) (wire : Signed HandshakePayload)
    (done : InitiatorDone) : Prop where
  type : wire.env.messageType = .helloBack
  bytes : wire.env.payload = .helloBack done.helloBack.env.payload
  parsed : done.helloBack = wire.parsed done.helloBack.env.payload
  accept : done.helloBack.env.payload.accept = true
  peer : done.session.peerSide = wire.env.fromSide
  key : done.session.sessionKey
    = deriveSessionKey run.ephSecret done.helloBack.env.payload.ephPub
        ⟨run.hello, done.helloBack⟩
  confirm : done.confirm.env.messageType = .confirm

/-- What it has written into its Confirm, and returned. -/
structure ConfirmMade (run : InitiatorRun) (done : InitiatorDone) : Prop where
  proof : done.confirm.env.payload
    = ⟨transcriptMac done.session.sessionKey ⟨run.hello, done.helloBack⟩⟩
  «intent» : done.session.intent = run.intent

theorem readHelloBack_made {run : InitiatorRun}
    {wire : Signed HandshakePayload} {timestamp : Nat} {nonce : Nonce}
    {done : InitiatorDone}
    (h : run.readHelloBack wire timestamp nonce = .ok done) :
    BackRead run wire done ∧ ConfirmMade run done := by
  unfold InitiatorRun.readHelloBack at h
  split at h
  case isTrue => cases h
  case isFalse htype =>
    split at h
    case h_1 => cases h
    case h_2 payload hdecode =>
      split at h
      case isTrue => cases h
      case isFalse haccept =>
        split at h
        case isTrue => cases h
        case isFalse =>
          injection h with h
          subst h
          refine ⟨{
            type := not_not.mp htype
            bytes := HelloBackPayload.decode_ok hdecode
            parsed := rfl
            accept := ?_
            peer := rfl
            key := rfl
            confirm := rfl }, rfl, rfl⟩
          show payload.accept = true
          simpa using haccept

theorem readHelloBack_ok {run : InitiatorRun}
    {wire : Signed HandshakePayload} {timestamp : Nat} {nonce : Nonce}
    {done : InitiatorDone}
    (h : run.readHelloBack wire timestamp nonce = .ok done) :
    BackRead run wire done := (readHelloBack_made h).1

/-- What a responder that accepted a Hello has sent. -/
structure HelloAccepted (mySide : Address) (run : ResponderRun) : Prop where
  side : run.mySide = mySide
  signer : run.helloBack.env.fromSide = run.mySide
  eph : run.helloBack.env.payload.ephPub = .ofSecret run.myEph

/-- What it has read. -/
structure HelloRead (wire : Signed HandshakePayload) (run : ResponderRun) :
    Prop where
  type : wire.env.messageType = .hello
  bytes : wire.env.payload = .hello run.hello.env.payload
  parsed : run.hello = wire.parsed run.hello.env.payload

theorem runResponder_made {mySide : Address} {myEph : EphemeralSecret}
    {wire : Signed HandshakePayload} {timestamp : Nat} {nonce : Nonce}
    {run : ResponderRun}
    (h : runResponder mySide myEph wire timestamp nonce = .accepted run) :
    HelloAccepted mySide run ∧ HelloRead wire run := by
  unfold runResponder at h
  split at h
  case isTrue => cases h
  case isFalse htype =>
    split at h
    case h_1 => cases h
    case h_2 payload hdecode =>
      dsimp only at h
      split at h
      case isTrue => cases h
      case isFalse =>
        injection h with h
        subst h
        exact ⟨⟨rfl, rfl, rfl⟩, not_not.mp htype,
          HelloPayload.decode_ok hdecode, rfl⟩

theorem runResponder_accepted {mySide : Address} {myEph : EphemeralSecret}
    {wire : Signed HandshakePayload} {timestamp : Nat} {nonce : Nonce}
    {run : ResponderRun}
    (h : runResponder mySide myEph wire timestamp nonce = .accepted run) :
    HelloAccepted mySide run := (runResponder_made h).1

/-- The HelloBack that declines does not accept. -/
theorem runResponder_declined {mySide : Address} {myEph : EphemeralSecret}
    {wire : Signed HandshakePayload} {timestamp : Nat} {nonce : Nonce}
    {back : Signed HelloBackPayload} {e : Net.Error}
    (h : runResponder mySide myEph wire timestamp nonce
      = .declined back e) : back.env.payload.accept = false := by
  unfold runResponder at h
  split at h
  case isTrue => cases h
  case isFalse =>
    split at h
    case h_1 => cases h
    case h_2 =>
      dsimp only at h
      split at h
      case isTrue =>
        injection h with h
        subst h
        rfl
      case isFalse => cases h

/-- What a responder that returned a session has checked and computed. -/
structure ConfirmRead (run : ResponderRun) (wire : Signed HandshakePayload)
    (s : Session) : Prop where
  bytes : wire.env.payload
    = .confirm ⟨transcriptMac s.sessionKey run.transcript⟩
  key : s.sessionKey
    = deriveSessionKey run.myEph run.hello.env.payload.ephPub run.transcript
  peer : s.peerSide = run.hello.env.fromSide
  «intent» : Intent.fromU8 run.hello.env.payload.intent = some s.intent

theorem readConfirm_read {run : ResponderRun}
    {wire : Signed HandshakePayload} {s : Session}
    (h : run.readConfirm wire = .ok s) : ConfirmRead run wire s := by
  unfold ResponderRun.readConfirm at h
  dsimp only at h
  split at h
  case isTrue => cases h
  case isFalse =>
    split at h
    case h_1 => cases h
    case h_2 payload hdecode =>
      split at h
      case isTrue => cases h
      case isFalse hproof =>
        split at h
        case h_1 => cases h
        case h_2 i hintent =>
          injection h with h
          subst h
          refine ⟨?_, rfl, rfl, hintent⟩
          rw [ConfirmPayload.decode_ok hdecode, ← not_not.mp hproof]

theorem readConfirm_ok {run : ResponderRun}
    {wire : Signed HandshakePayload} {s : Session}
    (h : run.readConfirm wire = .ok s) :
    s.sessionKey = deriveSessionKey run.myEph
      run.hello.env.payload.ephPub run.transcript := (readConfirm_read h).key

-- ======================================================= completeness

/-- The intent of a Hello that `run_initiator` sends is one a responder
knows. -/
theorem intent_known (i : Intent) : 1 ≤ i.asU8 ∧ i.asU8 ≤ 5 := by
  cases i <;> decide

/-- A responder accepts the Hello of `run_initiator`. -/
theorem runResponder_runInitiator (alice bob : Address) (i : Intent)
    (expected : Option Address) (x y : EphemeralSecret) (t t' : Nat)
    (n n' : Nonce) :
    let hello := (runInitiator alice i expected x t n).hello
    runResponder bob y (hello.parsed (.hello hello.env.payload)) t' n'
      = .accepted (acceptHello bob y hello t' n') := by
  simp [runInitiator, runResponder, signWith, Signed.parsed,
    HelloPayload.decode, intent_known i]

/-- A responder returns a session on the MAC it expects. -/
theorem readConfirm_mac {run : ResponderRun}
    {wire : Signed HandshakePayload} {i : Intent} {key : SessionKey}
    (hkey : key = deriveSessionKey run.myEph run.hello.env.payload.ephPub
      run.transcript)
    (htype : wire.env.messageType = .confirm)
    (hproof : wire.env.payload
      = .confirm ⟨transcriptMac key run.transcript⟩)
    (hintent : Intent.fromU8 run.hello.env.payload.intent = some i) :
    run.readConfirm wire = .ok
      { sessionKey := key, peerSide := run.hello.env.fromSide, intent := i,
        peerCapabilities := run.hello.env.payload.capabilities } := by
  subst hkey
  unfold ResponderRun.readConfirm
  rw [if_neg (not_not.mpr htype), hproof]
  simp only [ConfirmPayload.decode, ne_eq, not_true_eq_false, if_false]
  rw [hintent]

/-- Undisturbed, both sides return a session, with each other, the intent
asked for and the same key. -/
theorem handshake_completes (alice bob : Address) (i : Intent)
    (expected : Option Address) (x y : EphemeralSecret) (t t' t'' : Nat)
    (n n' n'' : Nonce) :
    let run := runInitiator alice i expected x t n
    let r := acceptHello bob y run.hello t' n'
    ∃ done s,
      run.readHelloBack (r.helloBack.parsed
        (.helloBack r.helloBack.env.payload)) t'' n'' = .ok done
      ∧ r.readConfirm (done.confirm.parsed
          (.confirm done.confirm.env.payload)) = .ok s
      ∧ s.sessionKey = done.session.sessionKey
      ∧ done.session.peerSide = bob ∧ done.session.intent = i
      ∧ s.peerSide = alice ∧ s.intent = i := by
  intro run r
  have hkey : deriveSessionKey x (.ofSecret y) r.transcript
      = deriveSessionKey y (.ofSecret x) r.transcript :=
    congrArg (SessionKey.mk · r.transcript) (diffieHellman_comm x y)
  exact ⟨_, _, rfl, readConfirm_mac hkey rfl rfl (Intent.fromU8_asU8 i),
    rfl, rfl, rfl, rfl, rfl⟩

-- =========================================================== one step

/-- What each action does, with the guards it passed. -/
inductive HandshakeMove (corrupt : Address → Bool) (w : HandshakeWorld) :
    HandshakeWorld → Prop where
  | started (run : InitiatorRun) (mySide : Address) (i : Intent)
      (expected : Option Address) (timestamp : Nat) (nonce : Nonce)
      (hrun : runInitiator mySide i expected w.nextSecret timestamp nonce
        = run) :
      HandshakeMove corrupt w { w with
        initiators := w.initiators ++ [run]
        sent := w.sent ++ [run.hello.parsed (.hello run.hello.env.payload)]
        nextSecret := w.nextSecret + 1 }
  | initiated (i : Nat) (run : InitiatorRun)
      (wire : Signed HandshakePayload) (timestamp : Nat) (nonce : Nonce)
      (done : InitiatorDone) (hrun : w.initiators[i]? = some run)
      (hopen : w.initiatorOutcome i = none) (hsend : w.CanSend corrupt wire)
      (hread : run.readHelloBack wire timestamp nonce = .ok done) :
      HandshakeMove corrupt w { w with
        initiatorOutcome := w.initiatorOutcome.insert i (.ok done)
        sent := w.sent ++
          [done.confirm.parsed (.confirm done.confirm.env.payload)] }
  | initiatorFailed (i : Nat) (e : Net.Error)
      (hopen : w.initiatorOutcome i = none) :
      HandshakeMove corrupt w { w with
        initiatorOutcome := w.initiatorOutcome.insert i (.error e) }
  | ignored : HandshakeMove corrupt w w
  | declined (back : Signed HelloBackPayload)
      (hback : back.env.payload.accept = false) :
      HandshakeMove corrupt w { w with
        sent := w.sent ++ [back.parsed (.helloBack back.env.payload)] }
  | accepted (mySide : Address) (wire : Signed HandshakePayload)
      (timestamp : Nat) (nonce : Nonce) (run : ResponderRun)
      (hsend : w.CanSend corrupt wire)
      (hrun : runResponder mySide w.nextSecret wire timestamp nonce
        = .accepted run) :
      HandshakeMove corrupt w { w with
        responders := w.responders ++ [run]
        sent := w.sent ++
          [run.helloBack.parsed (.helloBack run.helloBack.env.payload)]
        nextSecret := w.nextSecret + 1 }
  | responded (j : Nat) (run : ResponderRun)
      (wire : Signed HandshakePayload)
      (hrun : w.responders[j]? = some run)
      (hsend : w.CanSend corrupt wire) :
      HandshakeMove corrupt w { w with
        responderOutcome :=
          w.responderOutcome.insert j (run.readConfirm wire) }
  | talked (wire : Signed HandshakePayload)
      (hcategory : wire.env.messageType.category ≠ .handshake)
      (hknows : w.KnowsPayload wire.env.payload) :
      HandshakeMove corrupt w { w with sent := w.sent ++ [wire] }
  | learned (secret : EphemeralSecret) :
      HandshakeMove corrupt w { w with learned := secret :: w.learned }

theorem handshakeStep_moves {a : HandshakeAction}
    (h : handshakeStep corrupt w a = some w') :
    HandshakeMove corrupt w w' := by
  cases a with
  | startInitiator mySide i expected timestamp nonce =>
      injection h with h
      subst h
      exact .started _ mySide i expected timestamp nonce rfl
  | deliverHelloBack i wire timestamp nonce =>
      simp only [handshakeStep] at h
      split at h
      case h_2 => cases h
      case h_1 run hrun hopen =>
        split at h
        case isFalse => cases h
        case isTrue hsend =>
          split at h
          case h_1 e _ =>
            injection h with h
            subst h
            exact .initiatorFailed i e hopen
          case h_2 done hread =>
            injection h with h
            subst h
            exact .initiated i run wire timestamp nonce done hrun hopen hsend
              hread
  | deliverHello mySide wire timestamp nonce =>
      simp only [handshakeStep] at h
      split at h
      case isFalse => cases h
      case isTrue hsend =>
        split at h
        case h_1 =>
          injection h with h
          subst h
          exact .ignored
        case h_2 back e hback =>
          injection h with h
          subst h
          exact .declined back (runResponder_declined hback)
        case h_3 run hrun =>
          injection h with h
          subst h
          exact .accepted mySide wire timestamp nonce run hsend hrun
  | deliverConfirm j wire =>
      simp only [handshakeStep] at h
      split at h
      case h_2 => cases h
      case h_1 run hrun hopen =>
        split at h
        case isFalse => cases h
        case isTrue hsend =>
          injection h with h
          subst h
          exact .responded j run wire hrun hsend
  | otherTraffic wire =>
      simp only [handshakeStep] at h
      split at h
      case isFalse => cases h
      case isTrue hguard =>
        injection h with h
        subst h
        exact .talked wire hguard.1 hguard.2
  | learn secret =>
      injection h with h
      subst h
      exact .learned secret

/-- What the initiator needs of it. -/
inductive HandshakeStep (corrupt : Address → Bool) (w : HandshakeWorld) :
    HandshakeWorld → Prop where
  | started (run : InitiatorRun)
      (htype : run.hello.env.messageType = .hello)
      (heph : w.nextSecret = run.ephSecret) :
      HandshakeStep corrupt w { w with
        initiators := w.initiators ++ [run]
        sent := w.sent ++ [run.hello.parsed (.hello run.hello.env.payload)]
        nextSecret := w.nextSecret + 1 }
  | initiated (i : Nat) (run : InitiatorRun)
      (wire : Signed HandshakePayload) (done : InitiatorDone)
      (hrun : w.initiators[i]? = some run)
      (hsend : w.CanSend corrupt wire) (hread : BackRead run wire done) :
      HandshakeStep corrupt w { w with
        initiatorOutcome := w.initiatorOutcome.insert i (.ok done)
        sent := w.sent ++
          [done.confirm.parsed (.confirm done.confirm.env.payload)] }
  | initiatorFailed (i : Nat) (e : Net.Error) :
      HandshakeStep corrupt w { w with
        initiatorOutcome := w.initiatorOutcome.insert i (.error e) }
  | ignored : HandshakeStep corrupt w w
  | declined (back : Signed HelloBackPayload)
      (hback : back.env.payload.accept = false) :
      HandshakeStep corrupt w { w with
        sent := w.sent ++ [back.parsed (.helloBack back.env.payload)] }
  | accepted (mySide : Address) (run : ResponderRun)
      (hrun : HelloAccepted mySide run) :
      HandshakeStep corrupt w { w with
        responders := w.responders ++ [run]
        sent := w.sent ++
          [run.helloBack.parsed (.helloBack run.helloBack.env.payload)]
        nextSecret := w.nextSecret + 1 }
  | responded (j : Nat) (run : ResponderRun)
      (wire : Signed HandshakePayload)
      (hrun : w.responders[j]? = some run)
      (hsend : w.CanSend corrupt wire) :
      HandshakeStep corrupt w { w with
        responderOutcome :=
          w.responderOutcome.insert j (run.readConfirm wire) }
  | talked (wire : Signed HandshakePayload)
      (hcategory : wire.env.messageType.category ≠ .handshake) :
      HandshakeStep corrupt w { w with sent := w.sent ++ [wire] }
  | learned (secret : EphemeralSecret) :
      HandshakeStep corrupt w { w with learned := secret :: w.learned }

theorem HandshakeMove.step (h : HandshakeMove corrupt w w') :
    HandshakeStep corrupt w w' := by
  cases h with
  | started run mySide i expected timestamp nonce hrun =>
      subst hrun
      exact .started _ rfl rfl
  | initiated i run wire timestamp nonce done hrun hopen hsend hread =>
      exact .initiated i run wire done hrun hsend (readHelloBack_ok hread)
  | initiatorFailed i e hopen => exact .initiatorFailed i e
  | ignored => exact .ignored
  | declined back hback => exact .declined back hback
  | accepted mySide wire timestamp nonce run hsend hrun =>
      exact .accepted mySide run (runResponder_accepted hrun)
  | responded j run wire hrun hsend => exact .responded j run wire hrun hsend
  | talked wire hcategory hknows => exact .talked wire hcategory
  | learned secret => exact .learned secret

theorem handshakeStep_cases {a : HandshakeAction}
    (h : handshakeStep corrupt w a = some w') :
    HandshakeStep corrupt w w' := (handshakeStep_moves h).step

/-- Runs are only ever added. -/
theorem HandshakeStep.responders_prefix (h : HandshakeStep corrupt w w') :
    w.responders <+: w'.responders := by
  cases h with
  | accepted mySide run hrun => exact List.prefix_append ..
  | _ => exact List.prefix_rfl

theorem HandshakeStep.initiators_prefix (h : HandshakeStep corrupt w w') :
    w.initiators <+: w'.initiators := by
  cases h with
  | started run htype heph => exact List.prefix_append ..
  | _ => exact List.prefix_rfl

/-- A run keeps its number. -/
theorem getElem?_of_prefix {α : Type} {l l' : List α} {i : Nat} {a : α}
    (h : l <+: l') (hi : l[i]? = some a) : l'[i]? = some a := by
  obtain ⟨added, rfl⟩ := h
  rw [List.getElem?_append_left (List.getElem?_eq_some_iff.mp hi).1]
  exact hi

-- ========================================================= provenance

/-- A responder run of the HelloBack's signer produced it. -/
def AnsweredBy (responders : List ResponderRun)
    (back : Signed HelloBackPayload) : Prop :=
  ∃ run ∈ responders, run.mySide = back.env.fromSide ∧ run.helloBack = back

theorem AnsweredBy.mono {rs rs' : List ResponderRun}
    {back : Signed HelloBackPayload} (h : AnsweredBy rs back)
    (hsub : rs <+: rs') : AnsweredBy rs' back := by
  obtain ⟨run, hmem, hside, hback⟩ := h
  exact ⟨run, hsub.subset hmem, hside, hback⟩

/-- An envelope that, if it is an accepting HelloBack, was answered. -/
def BackAnswered (responders : List ResponderRun)
    (wire : Signed HandshakePayload) : Prop :=
  wire.env.messageType = .helloBack → ∀ p : HelloBackPayload,
    wire.env.payload = .helloBack p → p.accept = true →
      AnsweredBy responders (wire.parsed p)

/-- What holds of every state the network can reach. -/
structure HandshakeInv (corrupt : Address → Bool) (w : HandshakeWorld) :
    Prop where
  backs : ∀ wire ∈ w.sent, BackAnswered w.responders wire
  runs : ∀ run ∈ w.responders, HelloAccepted run.mySide run
  initiated : ∀ i done, w.initiatorOutcome i = some (.ok done) →
    ∃ run wire, w.initiators[i]? = some run ∧ BackRead run wire done
      ∧ (corrupt wire.env.fromSide = false →
          AnsweredBy w.responders done.helloBack)
  responded : ∀ j s, w.responderOutcome j = some (.ok s) →
    ∃ run, w.responders[j]? = some run
      ∧ s.sessionKey = deriveSessionKey run.myEph
          run.hello.env.payload.ephPub run.transcript

/-- The signer of an envelope that reaches a run has sent it, unless the
attacker owns the key. -/
theorem CanSend.sent {wire : Signed HandshakePayload}
    (h : w.CanSend corrupt wire)
    (hhonest : corrupt wire.env.fromSide = false) : wire ∈ w.sent := by
  rcases h with hsent | ⟨hcorrupt, -⟩
  · exact hsent
  · rw [hhonest] at hcorrupt
    cases hcorrupt

/-- Nothing but an accepting responder run signs an accepting HelloBack. -/
theorem backs_step (h : HandshakeInv corrupt w)
    (hstep : HandshakeStep corrupt w w') :
    ∀ wire ∈ w'.sent, BackAnswered w'.responders wire := by
  have old : ∀ wire ∈ w.sent, BackAnswered w'.responders wire :=
    fun wire hw htype p hp haccept =>
      (h.backs wire hw htype p hp haccept).mono hstep.responders_prefix
  cases hstep with
  | initiatorFailed i e => exact old
  | ignored => exact old
  | responded j run wire hrun hsend => exact old
  | learned secret => exact old
  | started run htype heph =>
      intro wire hw
      rcases List.mem_append.mp hw with hw | hw
      · exact old wire hw
      · obtain rfl := List.mem_singleton.mp hw
        intro hback
        have heq : MessageType.hello = .helloBack := htype.symm.trans hback
        exact absurd heq (by decide)
  | initiated i run read done hrun hsend hread =>
      intro wire hw
      rcases List.mem_append.mp hw with hw | hw
      · exact old wire hw
      · obtain rfl := List.mem_singleton.mp hw
        intro hback
        have heq : MessageType.confirm = .helloBack :=
          hread.confirm.symm.trans hback
        exact absurd heq (by decide)
  | declined back hback =>
      intro wire hw
      rcases List.mem_append.mp hw with hw | hw
      · exact old wire hw
      · obtain rfl := List.mem_singleton.mp hw
        intro _ p hp haccept
        obtain rfl : back.env.payload = p := by injection hp
        rw [hback] at haccept
        cases haccept
  | accepted mySide run hrun =>
      intro wire hw
      rcases List.mem_append.mp hw with hw | hw
      · exact old wire hw
      · obtain rfl := List.mem_singleton.mp hw
        intro _ p hp _
        obtain rfl : run.helloBack.env.payload = p := by injection hp
        exact ⟨run, List.mem_append_right _ (List.mem_singleton_self _),
          hrun.signer.symm, rfl⟩
  | talked wire hcategory =>
      intro other hw
      rcases List.mem_append.mp hw with hw | hw
      · exact old other hw
      · obtain rfl := List.mem_singleton.mp hw
        intro hback
        rw [hback] at hcategory
        exact absurd rfl hcategory

theorem runs_step (h : HandshakeInv corrupt w)
    (hstep : HandshakeStep corrupt w w') :
    ∀ run ∈ w'.responders, HelloAccepted run.mySide run := by
  cases hstep with
  | accepted mySide run hrun =>
      intro r hr
      rcases List.mem_append.mp hr with hr | hr
      · exact h.runs r hr
      · obtain rfl := List.mem_singleton.mp hr
        exact ⟨rfl, hrun.signer, hrun.eph⟩
  | _ => exact h.runs

/-- An initiator completes on a HelloBack its signer has sent. -/
theorem initiated_step (h : HandshakeInv corrupt w)
    (hstep : HandshakeStep corrupt w w') :
    ∀ i done, w'.initiatorOutcome i = some (.ok done) →
      ∃ run wire, w'.initiators[i]? = some run ∧ BackRead run wire done
        ∧ (corrupt wire.env.fromSide = false →
            AnsweredBy w'.responders done.helloBack) := by
  have old : ∀ i done, w.initiatorOutcome i = some (.ok done) →
      ∃ run wire, w'.initiators[i]? = some run ∧ BackRead run wire done
        ∧ (corrupt wire.env.fromSide = false →
            AnsweredBy w'.responders done.helloBack) := by
    intro i done hdone
    obtain ⟨run, wire, hrun, hread, hanswered⟩ := h.initiated i done hdone
    exact ⟨run, wire, getElem?_of_prefix hstep.initiators_prefix hrun, hread,
      fun hhonest => (hanswered hhonest).mono hstep.responders_prefix⟩
  cases hstep with
  | initiated i run wire done hrun hsend hread =>
      intro k other hk
      rcases (Table.insert_eq_some_iff _).mp hk with ⟨rfl, hdone⟩ | ⟨-, hk⟩
      · injection hdone with hdone
        subst hdone
        refine ⟨run, wire, hrun, hread, fun hhonest => ?_⟩
        rw [hread.parsed]
        exact h.backs wire (CanSend.sent hsend hhonest) hread.type _
          hread.bytes hread.accept
      · exact old k other hk
  | initiatorFailed i e =>
      intro k other hk
      rcases (Table.insert_eq_some_iff _).mp hk with ⟨-, he⟩ | ⟨-, hk⟩
      · cases he
      · exact old k other hk
  | _ => exact old

theorem responded_step (h : HandshakeInv corrupt w)
    (hstep : HandshakeStep corrupt w w') :
    ∀ j s, w'.responderOutcome j = some (.ok s) →
      ∃ run, w'.responders[j]? = some run
        ∧ s.sessionKey = deriveSessionKey run.myEph
            run.hello.env.payload.ephPub run.transcript := by
  have old : ∀ j s, w.responderOutcome j = some (.ok s) →
      ∃ run, w'.responders[j]? = some run
        ∧ s.sessionKey = deriveSessionKey run.myEph
            run.hello.env.payload.ephPub run.transcript := by
    intro j s hs
    obtain ⟨run, hrun, hkey⟩ := h.responded j s hs
    exact ⟨run, getElem?_of_prefix hstep.responders_prefix hrun, hkey⟩
  cases hstep with
  | responded j run wire hrun hsend =>
      intro k s hk
      rcases (Table.insert_eq_some_iff _).mp hk with ⟨rfl, hs⟩ | ⟨-, hk⟩
      · exact ⟨run, hrun, readConfirm_ok hs⟩
      · exact old k s hk
  | _ => exact old

theorem handshakeInv_init : HandshakeInv corrupt .init where
  backs := fun _ hw => absurd hw List.not_mem_nil
  runs := fun _ hr => absurd hr List.not_mem_nil
  initiated := fun _ _ h => absurd h.symm (Option.some_ne_none _)
  responded := fun _ _ h => absurd h.symm (Option.some_ne_none _)

theorem handshakeInv_reachable
    (h : Reachable (handshakeStep corrupt) .init w) :
    HandshakeInv corrupt w := by
  refine h.induct handshakeInv_init fun s a s' hinv hs => ?_
  have hstep := handshakeStep_cases hs
  exact ⟨backs_step hinv hstep, runs_step hinv hstep,
    initiated_step hinv hstep, responded_step hinv hstep⟩

-- ================================================= the initiator's view

/-- The attacker holds the key of a completed initiator only through one of
the two ephemeral secrets, if the HelloBack was answered. -/
theorem knowsKey_secrets {run : InitiatorRun} {r : ResponderRun}
    {wire : Signed HandshakePayload} {done : InitiatorDone}
    (hread : BackRead run wire done) (hr : HelloAccepted r.mySide r)
    (hback : r.helloBack = done.helloBack)
    (hknows : w.KnowsKey done.session.sessionKey) :
    run.ephSecret ∈ w.learned ∨ r.myEph ∈ w.learned := by
  have hshared : done.session.sessionKey.shared
      = .agreed s(run.ephSecret, r.myEph) := by
    rw [hread.key, ← hback]
    show diffieHellman _ r.helloBack.env.payload.ephPub = _
    rw [hr.eph]
    rfl
  unfold HandshakeWorld.KnowsKey at hknows
  rw [hshared] at hknows
  obtain ⟨secret, hlearned, hsecret⟩ := hknows
  rcases Sym2.mem_iff.mp hsecret with rfl | rfl
  · exact .inl hlearned
  · exact .inr hlearned

/-- When `run_initiator` returns a session, its peer is the HelloBack's
signer. If that side's key is not the attacker's, a responder run of it
produced exactly that HelloBack. A responder with the same session key is a
run of it that answered exactly this Hello with exactly that HelloBack, and
the attacker has the key only through an ephemeral secret. -/
theorem initiator_guarantee (corrupt : Address → Bool) (w : HandshakeWorld)
    (hw : Reachable (handshakeStep corrupt) .init w) (i : Nat)
    (run : InitiatorRun) (done : InitiatorDone)
    (hrun : w.initiators[i]? = some run)
    (hdone : w.initiatorOutcome i = some (.ok done)) :
    done.session.peerSide = done.helloBack.env.fromSide
      ∧ (corrupt done.session.peerSide = false →
          ∃ r ∈ w.responders, r.mySide = done.session.peerSide
            ∧ r.helloBack = done.helloBack
            ∧ (w.KnowsKey done.session.sessionKey →
                run.ephSecret ∈ w.learned ∨ r.myEph ∈ w.learned))
      ∧ ∀ j r s, w.responders[j]? = some r →
          w.responderOutcome j = some (.ok s) →
          s.sessionKey = done.session.sessionKey →
          r.mySide = done.session.peerSide ∧ r.hello = run.hello
            ∧ r.helloBack = done.helloBack := by
  have hinv := handshakeInv_reachable hw
  obtain ⟨run', wire, hrun', hread, hanswered⟩ := hinv.initiated i done hdone
  obtain rfl : run = run' := by
    rw [hrun] at hrun'
    injection hrun'
  have hpeer : done.session.peerSide = done.helloBack.env.fromSide := by
    rw [hread.peer, hread.parsed]
    rfl
  refine ⟨hpeer, fun hhonest => ?_, fun j r s hr hs hkey => ?_⟩
  · rw [hread.peer] at hhonest
    obtain ⟨r, hmem, hside, hback⟩ := hanswered hhonest
    exact ⟨r, hmem, hside.trans hpeer.symm, hback,
      knowsKey_secrets hread (hinv.runs r hmem) hback⟩
  · obtain ⟨r', hr', hderived⟩ := hinv.responded j s hs
    obtain rfl : r = r' := by
      rw [hr] at hr'
      injection hr'
    -- the salt of the key is the transcript it was derived over
    have hsalt : r.transcript = ⟨run.hello, done.helloBack⟩ := by
      rw [hderived, hread.key] at hkey
      injection hkey
    obtain ⟨hhello, hback⟩ := Transcript.mk.inj hsalt
    refine ⟨?_, hhello, hback⟩
    rw [← (hinv.runs r (List.mem_of_getElem? hr)).signer, hpeer, hback]

/-- The Hello that a side's first action sends. -/
def firstHello : Signed HandshakePayload :=
  let run := runInitiator (Bytes.fill _ 1) .direct (some (Bytes.fill _ 2)) 0
    10 (Bytes.fill _ 1)
  run.hello.parsed (.hello run.hello.env.payload)

/-- The HelloBack that answers it. -/
def firstBack : Signed HandshakePayload :=
  signWith .helloBack (Bytes.fill _ 2) (some (Bytes.fill _ 1))
    (.helloBack { v := 1, accept := true, reason := none,
                  ephPub := .ofSecret 1, extensions := [],
                  capabilities := localCapabilities }) 11 (Bytes.fill _ 2)

/-- Two sides begin a handshake; the HelloBack is on its way. -/
def helloAnswered : List HandshakeAction :=
  [.startInitiator (Bytes.fill _ 1) .direct (some (Bytes.fill _ 2)) 10
      (Bytes.fill _ 1),
    .deliverHello (Bytes.fill _ 2) firstHello 11 (Bytes.fill _ 2)]

/-- The initiator reads it. -/
theorem initiator_guarantee_undisturbed :
    ∃ w run done, Reachable (handshakeStep fun _ => false) .init w
      ∧ w.initiators[0]? = some run
      ∧ w.initiatorOutcome 0 = some (.ok done)
      ∧ ∃ r ∈ w.responders, r.mySide = done.session.peerSide
          ∧ r.helloBack = done.helloBack
          ∧ (w.KnowsKey done.session.sessionKey →
              run.ephSecret ∈ w.learned ∨ r.myEph ∈ w.learned) := by
  have hrun : run (handshakeStep fun _ => false) .init (helloAnswered ++
      [.deliverHelloBack 0 firstBack 12 (Bytes.fill _ 3)]) = some _ := rfl
  refine ⟨_, _, _, ⟨_, hrun⟩, rfl, rfl, ?_⟩
  exact (initiator_guarantee (fun _ => false) _ ⟨_, hrun⟩ 0 _ _ rfl rfl).2.1
    rfl

-- ==================================================== what was not checked

/-- `run_initiator` takes the envelope for a HelloBack that accepts. -/
def TakenForBack (wire : Signed HandshakePayload)
    (payload : HelloBackPayload) : Prop :=
  wire.env.messageType = .helloBack ∧ wire.env.payload = .helloBack payload
    ∧ payload.accept = true ∧ payload.v = 1

theorem readHelloBack_taken {run : InitiatorRun}
    {wire : Signed HandshakePayload} {timestamp : Nat} {nonce : Nonce}
    {done : InitiatorDone}
    (h : run.readHelloBack wire timestamp nonce = .ok done) :
    TakenForBack wire done.helloBack.env.payload := by
  have hread := readHelloBack_ok h
  refine ⟨hread.type, hread.bytes, hread.accept, ?_⟩
  unfold InitiatorRun.readHelloBack at h
  rw [if_neg (not_not.mpr hread.type), hread.bytes] at h
  simp only [HelloBackPayload.decode, hread.accept, Bool.not_true,
    Bool.false_eq_true, if_false] at h
  split at h
  case isTrue => cases h
  case isFalse hv => exact not_not.mp hv

/-- Nothing else is asked of it. -/
theorem readHelloBack_of_taken (run : InitiatorRun)
    {wire : Signed HandshakePayload} {payload : HelloBackPayload}
    (h : TakenForBack wire payload) (timestamp : Nat) (nonce : Nonce) :
    ∃ done, run.readHelloBack wire timestamp nonce = .ok done
      ∧ done.helloBack = wire.parsed payload
      ∧ done.session.peerSide = wire.env.fromSide := by
  obtain ⟨htype, hbytes, haccept, hv⟩ := h
  unfold InitiatorRun.readHelloBack
  rw [if_neg (not_not.mpr htype), hbytes]
  simp [HelloBackPayload.decode, haccept, hv]

/-- What the caller of `run_initiator` is promised of its session: that its
peer, if honest, answered this very Hello, and that it is the expected one. -/
structure InitiatorAgrees (corrupt : Address → Bool) (w : HandshakeWorld)
    (run : InitiatorRun) (done : InitiatorDone) : Prop where
  answered : corrupt done.session.peerSide = false →
    ∃ r ∈ w.responders, r.mySide = done.session.peerSide
      ∧ r.hello = run.hello ∧ r.helloBack = done.helloBack
  expected : ∀ e ∈ run.expectedPeerSide, done.session.peerSide = e

/-- All of them are. -/
def InitiatorsAgree (corrupt : Address → Bool) (w : HandshakeWorld) : Prop :=
  ∀ i run done, w.initiators[i]? = some run →
    w.initiatorOutcome i = some (.ok done) → InitiatorAgrees corrupt w run done

/-- A HelloBack meant for the run that reads it: no honest side sent it in
answer to another Hello, and it is signed by the side that was dialled, where
one was named. -/
structure BackMeant (corrupt : Address → Bool) (w : HandshakeWorld)
    (run : InitiatorRun) (wire : Signed HandshakePayload)
    (payload : HelloBackPayload) : Prop where
  unrecorded : corrupt wire.env.fromSide = false →
    ∀ r ∈ w.responders, r.helloBack = wire.parsed payload →
      r.hello = run.hello
  dialled : ∀ e ∈ run.expectedPeerSide, wire.env.fromSide = e

/-- An initiator that reads a HelloBack reads one that is meant for it. -/
def ReadsMeant (corrupt : Address → Bool) (w : HandshakeWorld) :
    HandshakeAction → Prop
  | .deliverHelloBack i wire _ _ =>
      ∀ run payload, w.initiators[i]? = some run →
        w.initiatorOutcome i = none → w.CanSend corrupt wire →
        TakenForBack wire payload → BackMeant corrupt w run wire payload
  | _ => True

/-- An action adds the outcome of at most one initiator. -/
theorem outcome_step {a : HandshakeAction}
    (h : handshakeStep corrupt w a = some w') :
    (∃ i wire timestamp nonce run done,
      a = .deliverHelloBack i wire timestamp nonce
        ∧ w.initiators[i]? = some run ∧ w.initiatorOutcome i = none
        ∧ w.CanSend corrupt wire
        ∧ run.readHelloBack wire timestamp nonce = .ok done
        ∧ w'.initiatorOutcome = w.initiatorOutcome.insert i (.ok done))
    ∨ ∀ i done, w'.initiatorOutcome i = some (.ok done) →
        w.initiatorOutcome i = some (.ok done) := by
  cases a with
  | deliverHelloBack i wire timestamp nonce =>
      simp only [handshakeStep] at h
      split at h
      case h_2 => cases h
      case h_1 run hrun hopen =>
        split at h
        case isFalse => cases h
        case isTrue hsend =>
          split at h
          case h_1 e _ =>
            cases h
            refine .inr fun k done hk => ?_
            rcases (Table.insert_eq_some_iff _).mp hk with ⟨-, he⟩ | ⟨-, hk⟩
            · cases he
            · exact hk
          case h_2 done hread =>
            cases h
            exact .inl ⟨i, wire, timestamp, nonce, run, done, rfl, hrun, hopen,
              hsend, hread, rfl⟩
  | startInitiator mySide i expected timestamp nonce =>
      cases h
      exact .inr fun _ _ hk => hk
  | deliverHello mySide wire timestamp nonce =>
      simp only [handshakeStep] at h
      refine .inr fun _ _ hk => ?_
      split at h
      case isFalse => cases h
      case isTrue =>
        split at h <;> cases h <;> exact hk
  | deliverConfirm j wire =>
      simp only [handshakeStep] at h
      refine .inr fun _ _ hk => ?_
      split at h
      case h_2 => cases h
      case h_1 =>
        split at h
        case isFalse => cases h
        case isTrue =>
          cases h
          exact hk
  | otherTraffic wire =>
      simp only [handshakeStep] at h
      refine .inr fun _ _ hk => ?_
      split at h
      case isFalse => cases h
      case isTrue =>
        cases h
        exact hk
  | learn secret =>
      cases h
      exact .inr fun _ _ hk => hk

/-- No two responder runs have one secret. -/
structure SecretsFresh (w : HandshakeWorld) : Prop where
  used : ∀ r ∈ w.responders, r.myEph < w.nextSecret
  distinct : (w.responders.map ResponderRun.myEph).Nodup

theorem runResponder_eph {mySide : Address} {myEph : EphemeralSecret}
    {wire : Signed HandshakePayload} {timestamp : Nat} {nonce : Nonce}
    {run : ResponderRun}
    (h : runResponder mySide myEph wire timestamp nonce = .accepted run) :
    run.myEph = myEph := by
  unfold runResponder at h
  split at h
  case isTrue => cases h
  case isFalse =>
    split at h
    case h_1 => cases h
    case h_2 =>
      dsimp only at h
      split at h
      case isTrue => cases h
      case isFalse =>
        cases h
        rfl

theorem secretsFresh_step (h : SecretsFresh w)
    (hmove : HandshakeMove corrupt w w') : SecretsFresh w' := by
  cases hmove with
  | started run mySide i expected timestamp nonce hrun =>
      exact ⟨fun r hr => Nat.lt_succ_of_lt (h.used r hr), h.distinct⟩
  | accepted mySide wire timestamp nonce run hsend hrun =>
      have heph := runResponder_eph hrun
      refine ⟨List.forall_mem_append.mpr ⟨fun r hr =>
        Nat.lt_succ_of_lt (h.used r hr), List.forall_mem_singleton.mpr ?_⟩, ?_⟩
      · rw [heph]
        exact Nat.lt_succ_self _
      · rw [List.map_append, List.map_cons, List.map_nil, heph]
        refine h.distinct.append (List.nodup_singleton _) ?_
        simp only [List.disjoint_singleton, List.mem_map, not_exists, not_and]
        intro r hr hsame
        exact absurd hsame (Nat.ne_of_lt (h.used r hr))
  | _ => exact ⟨h.used, h.distinct⟩

/-- So a HelloBack says which of the runs sent it. -/
theorem SecretsFresh.eq_of_back (h : SecretsFresh w)
    (hinv : HandshakeInv corrupt w) {r r' : ResponderRun}
    (hr : r ∈ w.responders) (hr' : r' ∈ w.responders)
    (hback : r.helloBack = r'.helloBack) : r = r' := by
  have heph := (hinv.runs r hr).eph
  rw [hback, (hinv.runs r' hr').eph] at heph
  injection heph with heph
  exact List.inj_on_of_nodup_map h.distinct hr hr' heph.symm

/-- What a run whose steps all read what is meant keeps. -/
structure MeantInv (corrupt : Address → Bool) (w : HandshakeWorld) : Prop where
  base : HandshakeInv corrupt w
  fresh : SecretsFresh w
  agree : InitiatorsAgree corrupt w

theorem meantInv_step {a : HandshakeAction} (hok : ReadsMeant corrupt w a)
    (h : MeantInv corrupt w) (hstep : handshakeStep corrupt w a = some w') :
    MeantInv corrupt w' := by
  have hmove := handshakeStep_moves hstep
  have hbase : HandshakeInv corrupt w' :=
    ⟨backs_step h.base hmove.step, runs_step h.base hmove.step,
      initiated_step h.base hmove.step, responded_step h.base hmove.step⟩
  have hresponders := hmove.step.responders_prefix
  have old : ∀ i run done, w'.initiators[i]? = some run →
      w.initiatorOutcome i = some (.ok done) →
      InitiatorAgrees corrupt w' run done := by
    intro i run done hrun hdone
    obtain ⟨run', -, hrun', -⟩ := h.base.initiated i done hdone
    have hkept := getElem?_of_prefix hmove.step.initiators_prefix hrun'
    rw [hrun, Option.some.injEq] at hkept
    subst hkept
    obtain ⟨hanswered, hexpected⟩ := h.agree i run done hrun' hdone
    refine ⟨fun hhonest => ?_, hexpected⟩
    obtain ⟨r, hr, hmade⟩ := hanswered hhonest
    exact ⟨r, hresponders.subset hr, hmade⟩
  refine ⟨hbase, secretsFresh_step h.fresh hmove, fun k run' done' hrun' hk => ?_⟩
  rcases outcome_step hstep with
    ⟨i, wire, timestamp, nonce, run, done, rfl, hrun, hopen, hsend, hread, hout⟩
    | hsame
  · rw [hout] at hk
    rcases (Table.insert_eq_some_iff _).mp hk with ⟨rfl, hdone⟩ | ⟨-, hk⟩
    · cases hdone
      have hkept := getElem?_of_prefix hmove.step.initiators_prefix hrun
      rw [hrun', Option.some.injEq] at hkept
      subst hkept
      have hmade := readHelloBack_ok hread
      have hmeant := hok run' _ hrun hopen hsend (readHelloBack_taken hread)
      refine ⟨fun hhonest => ?_, fun e he => ?_⟩
      · rw [hmade.peer] at hhonest ⊢
        obtain ⟨r, hr, hside, hback⟩ := h.base.backs wire
          (CanSend.sent hsend hhonest) hmade.type _ hmade.bytes hmade.accept
        refine ⟨r, hresponders.subset hr, hside,
          hmeant.unrecorded hhonest r hr hback, ?_⟩
        rw [hback, ← hmade.parsed]
      · rw [hmade.peer]
        exact hmeant.dialled e he
    · exact old k run' done' hrun' hk
  · exact old k run' done' hrun' (hsame k done' hk)

theorem meantInv_init : MeantInv corrupt .init where
  base := handshakeInv_init
  fresh := ⟨fun _ hr => absurd hr List.not_mem_nil, List.nodup_nil⟩
  agree := fun _ _ _ _ h => absurd h.symm (Option.some_ne_none _)

/-- An initiator that reads a HelloBack meant for another run is misled. -/
theorem misled_of_not_meant {a : HandshakeAction} (h : MeantInv corrupt w)
    (hnot : ¬ ReadsMeant corrupt w a) :
    ∃ w', handshakeStep corrupt w a = some w'
      ∧ ¬ InitiatorsAgree corrupt w' := by
  cases a with
  | deliverHelloBack i wire timestamp nonce =>
      simp only [ReadsMeant, not_forall] at hnot
      obtain ⟨run, payload, hrun, hopen, hsend, htaken, hnot⟩ := hnot
      obtain ⟨done, hread, hback, hpeer⟩ :=
        readHelloBack_of_taken run htaken timestamp nonce
      have hstep : handshakeStep corrupt w
          (.deliverHelloBack i wire timestamp nonce) = some { w with
            initiatorOutcome := w.initiatorOutcome.insert i (.ok done)
            sent := w.sent ++ [done.confirm.parsed
              (.confirm done.confirm.env.payload)] } := by
        simp only [handshakeStep, hrun, hopen]
        rw [if_pos hsend, hread]
      refine ⟨_, hstep, fun hagree => hnot ?_⟩
      obtain ⟨hanswered, hexpected⟩ :=
        hagree i run done hrun (Table.insert_self ..)
      rw [hpeer] at hanswered hexpected
      refine ⟨fun hhonest r hr hsent => ?_, hexpected⟩
      -- the run that answered this Hello is the one that sent the HelloBack
      obtain ⟨r', hr', -, hhello, hback'⟩ := hanswered hhonest
      rw [hback, ← hsent] at hback'
      rw [← h.fresh.eq_of_back h.base hr' hr hback', hhello]
  | _ => exact absurd trivial hnot

/-- In a run of the network every returned session is with an honest peer that
answered this very Hello, and with the expected peer if one was named, in every
state that it passes, exactly if no initiator reads a HelloBack that was
recorded from another handshake or signed by a side that was not dialled. -/
theorem initiators_agree_iff (corrupt : Address → Bool)
    (acts : List HandshakeAction) :
    (∀ as bs w, as ++ bs = acts →
        run (handshakeStep corrupt) .init as = some w →
        InitiatorsAgree corrupt w)
      ↔ Along (handshakeStep corrupt) (ReadsMeant corrupt) .init acts :=
  along_iff (fun _ h => h.agree)
    (fun _ _ _ hok h hstep => meantInv_step hok h hstep)
    (fun _ _ h hnot => misled_of_not_meant h hnot) meantInv_init

/-- The side begins a second handshake, expecting another peer, and reads
the HelloBack of the first: the handshake completes, with a peer that was
not expected and that never saw this Hello. -/
theorem recorded_back_completes :
    ∃ w run done, Reachable (handshakeStep fun _ => false) .init w
      ∧ w.initiators[1]? = some run
      ∧ w.initiatorOutcome 1 = some (.ok done)
      ∧ (∀ r ∈ w.responders, r.hello ≠ run.hello)
      ∧ run.expectedPeerSide = some (Bytes.fill _ 3)
      ∧ done.session.peerSide ≠ Bytes.fill _ 3 := by
  have hrun : run (handshakeStep fun _ => false) .init (helloAnswered ++
      [.startInitiator (Bytes.fill _ 1) .direct (some (Bytes.fill _ 3)) 20
          (Bytes.fill _ 4),
        .deliverHelloBack 1 firstBack 21 (Bytes.fill _ 5)]) = some _ := rfl
  refine ⟨_, _, _, ⟨_, hrun⟩, rfl, rfl, ?_, rfl, by decide⟩
  decide

end Sidevers.Proofs
