/-
What a completed handshake tells the responder (`Net.Handshake`), and what
two runs with one session key agree on.

# The argument

The Confirm's signer is compared with nothing. What convinces the responder is
the MAC: whoever can write it holds the session key or has seen an initiator
write it (`MacMade`), and that initiator read this very transcript. Holding
the key takes one of the two ephemeral secrets, provided that the Hello's was
made by a run at all; it was, for a Hello whose signer's key is not the
attacker's.

The responder's own secret counts too: an attacker that has it completes the
handshake in the initiator's name (`leaked_secret_completes`).
-/
import Sidevers.Proofs.Handshake

namespace Sidevers.Proofs

open Sidevers.Core
open Sidevers.Lib
open Sidevers.Net

variable {corrupt : Address → Bool} {w w' : HandshakeWorld}

-- ============================================================ what stays

/-- Nothing a step does is ever undone. -/
structure Grows (w w' : HandshakeWorld) : Prop where
  initiators : w.initiators <+: w'.initiators
  done : ∀ i o, w.initiatorOutcome i = some o → w'.initiatorOutcome i = some o
  learned : w.learned ⊆ w'.learned

theorem insert_keeps {α : Type} {t : Table Nat α} {i : Nat} (a : α)
    (hopen : t i = none) (k : Nat) (o : α) (h : t k = some o) :
    (t.insert i a) k = some o := by
  refine (Table.insert_eq_some_iff _).mpr (.inr ⟨?_, h⟩)
  rintro rfl
  rw [hopen] at h
  cases h

theorem HandshakeMove.grows (h : HandshakeMove corrupt w w') :
    Grows w w' := by
  have hinitiators := h.step.initiators_prefix
  cases h with
  | initiated i run wire timestamp nonce done hrun hopen hsend hread =>
      exact ⟨hinitiators, insert_keeps _ hopen, List.Subset.refl _⟩
  | initiatorFailed i e hopen =>
      exact ⟨hinitiators, insert_keeps _ hopen, List.Subset.refl _⟩
  | learned secret =>
      exact ⟨hinitiators, fun _ _ h => h, List.subset_cons_self ..⟩
  | _ => exact ⟨hinitiators, fun _ _ h => h, List.Subset.refl _⟩

theorem KnowsKey.mono {key : SessionKey} (h : w.KnowsKey key)
    (hgrows : Grows w w') : w'.KnowsKey key := by
  unfold HandshakeWorld.KnowsKey at h ⊢
  split at h
  case h_1 =>
    obtain ⟨s, hs, hmem⟩ := h
    exact ⟨s, hgrows.learned hs, hmem⟩
  case h_2 => trivial

-- =========================================================== provenance

/-- A run of `run_initiator` made the Hello. -/
def HelloMade (initiators : List InitiatorRun) (hello : Signed HelloPayload) :
    Prop :=
  ∃ run ∈ initiators, run.hello = hello

/-- An initiator run computed the key and wrote the MAC. -/
def MacMade (w : HandshakeWorld) (key : SessionKey) (t : Transcript) : Prop :=
  ∃ k run done, w.initiators[k]? = some run
    ∧ w.initiatorOutcome k = some (.ok done)
    ∧ done.session.sessionKey = key ∧ ⟨run.hello, done.helloBack⟩ = t

/-- Whoever wrote the MAC had the key. -/
def MacKnown (w : HandshakeWorld) (key : SessionKey) (t : Transcript) : Prop :=
  w.KnowsKey key ∨ MacMade w key t

theorem MacKnown.mono {key : SessionKey} {t : Transcript}
    (h : MacKnown w key t) (hgrows : Grows w w') : MacKnown w' key t := by
  rcases h with h | ⟨k, run, done, hrun, hdone, hkey, ht⟩
  · exact .inl (KnowsKey.mono h hgrows)
  · exact .inr ⟨k, run, done, getElem?_of_prefix hgrows.initiators hrun,
      hgrows.done k _ hdone, hkey, ht⟩

/-- An envelope that, if it is a Hello, was made by a run. -/
def HelloFrom (initiators : List InitiatorRun)
    (wire : Signed HandshakePayload) : Prop :=
  wire.env.messageType = .hello → ∀ p : HelloPayload,
    wire.env.payload = .hello p → HelloMade initiators (wire.parsed p)

/-- A payload that, if it carries a MAC, was written by someone who had the
key. -/
def MacFrom (w : HandshakeWorld) (payload : HandshakePayload) : Prop :=
  ∀ key t, payload = .confirm ⟨.mac key t⟩ → MacKnown w key t

/-- What holds of every state the network can reach. -/
structure AgreementInv (corrupt : Address → Bool) (w : HandshakeWorld) :
    Prop where
  started : ∀ run ∈ w.initiators, ∃ timestamp nonce,
    run = runInitiator run.mySide run.intent run.expectedPeerSide
      run.ephSecret timestamp nonce
  hellos : ∀ wire ∈ w.sent, HelloFrom w.initiators wire
  macs : ∀ wire ∈ w.sent, MacFrom w wire.env.payload
  confirmed : ∀ i done, w.initiatorOutcome i = some (.ok done) →
    ∃ run, w.initiators[i]? = some run ∧ ConfirmMade run done
  accepted : ∀ r ∈ w.responders, corrupt r.hello.env.fromSide = false →
    HelloMade w.initiators r.hello
  responded : ∀ j s, w.responderOutcome j = some (.ok s) →
    ∃ r wire, w.responders[j]? = some r ∧ ConfirmRead r wire s
      ∧ MacKnown w s.sessionKey r.transcript

/-- What the attacker can put on a stream, it can have of the key only. -/
theorem macFrom_canSend (h : AgreementInv corrupt w)
    {wire : Signed HandshakePayload} (hsend : w.CanSend corrupt wire) :
    MacFrom w wire.env.payload := by
  rcases hsend with hsent | ⟨-, hknows⟩
  · exact h.macs wire hsent
  · intro key t hpayload
    rw [hpayload] at hknows
    rcases hknows with hkey | ⟨seen, hseen, hproof⟩
    · exact .inl hkey
    · exact h.macs seen hseen key t hproof

theorem started_step (h : AgreementInv corrupt w)
    (hmove : HandshakeMove corrupt w w') :
    ∀ run ∈ w'.initiators, ∃ timestamp nonce,
      run = runInitiator run.mySide run.intent run.expectedPeerSide
        run.ephSecret timestamp nonce := by
  cases hmove with
  | started run mySide i expected timestamp nonce hrun =>
      subst hrun
      exact List.forall_mem_append.mpr ⟨h.started,
        List.forall_mem_singleton.mpr ⟨timestamp, nonce, rfl⟩⟩
  | _ => exact h.started

/-- Nothing but an initiator run signs a Hello. -/
theorem hellos_step (h : AgreementInv corrupt w)
    (hmove : HandshakeMove corrupt w w') :
    ∀ wire ∈ w'.sent, HelloFrom w'.initiators wire := by
  have old : ∀ wire ∈ w.sent, HelloFrom w'.initiators wire := by
    intro wire hw htype p hp
    obtain ⟨run, hmem, hhello⟩ := h.hellos wire hw htype p hp
    exact ⟨run, hmove.grows.initiators.subset hmem, hhello⟩
  cases hmove with
  | started run mySide i expected timestamp nonce hrun =>
      refine List.forall_mem_append.mpr ⟨old,
        List.forall_mem_singleton.mpr fun _ p hp => ?_⟩
      obtain rfl : run.hello.env.payload = p := by injection hp
      exact ⟨run, List.mem_append_right _ (List.mem_singleton_self _), rfl⟩
  | initiated i run read timestamp nonce done hrun hopen hsend hread =>
      exact List.forall_mem_append.mpr ⟨old,
        List.forall_mem_singleton.mpr fun _ p hp => nomatch hp⟩
  | declined back hback =>
      exact List.forall_mem_append.mpr ⟨old,
        List.forall_mem_singleton.mpr fun _ p hp => nomatch hp⟩
  | accepted mySide read timestamp nonce run hsend hrun =>
      exact List.forall_mem_append.mpr ⟨old,
        List.forall_mem_singleton.mpr fun _ p hp => nomatch hp⟩
  | talked wire hcategory hknows =>
      refine List.forall_mem_append.mpr ⟨old,
        List.forall_mem_singleton.mpr fun htype => ?_⟩
      rw [htype] at hcategory
      exact absurd rfl hcategory
  | _ => exact old

/-- A MAC is written by an initiator that has the key, or by one who knows
it. -/
theorem macs_step (h : AgreementInv corrupt w)
    (hmove : HandshakeMove corrupt w w') :
    ∀ wire ∈ w'.sent, MacFrom w' wire.env.payload := by
  have old : ∀ wire ∈ w.sent, MacFrom w' wire.env.payload :=
    fun wire hw key t hp => (h.macs wire hw key t hp).mono hmove.grows
  have hgrows := hmove.grows
  cases hmove with
  | started run mySide i expected timestamp nonce hrun =>
      exact List.forall_mem_append.mpr ⟨old,
        List.forall_mem_singleton.mpr fun key t hp => nomatch hp⟩
  | initiated i run read timestamp nonce done hrun hopen hsend hread =>
      refine List.forall_mem_append.mpr ⟨old,
        List.forall_mem_singleton.mpr fun key t hp => ?_⟩
      replace hp : HandshakePayload.confirm done.confirm.env.payload
        = .confirm ⟨.mac key t⟩ := hp
      rw [(readHelloBack_made hread).2.proof] at hp
      injection hp with hp
      injection hp with hp
      injection hp with hkey ht
      exact .inr ⟨i, run, done, hrun, Table.insert_self .., hkey, ht⟩
  | declined back hback =>
      exact List.forall_mem_append.mpr ⟨old,
        List.forall_mem_singleton.mpr fun key t hp => nomatch hp⟩
  | accepted mySide read timestamp nonce run hsend hrun =>
      exact List.forall_mem_append.mpr ⟨old,
        List.forall_mem_singleton.mpr fun key t hp => nomatch hp⟩
  | talked wire hcategory hknows =>
      refine List.forall_mem_append.mpr ⟨old,
        List.forall_mem_singleton.mpr fun key t hp => ?_⟩
      rw [hp] at hknows
      rcases hknows with hkey | ⟨seen, hseen, hproof⟩
      · exact .inl (KnowsKey.mono hkey hgrows)
      · exact (h.macs seen hseen key t hproof).mono hgrows
  | _ => exact old

theorem confirmed_step (h : AgreementInv corrupt w)
    (hmove : HandshakeMove corrupt w w') :
    ∀ i done, w'.initiatorOutcome i = some (.ok done) →
      ∃ run, w'.initiators[i]? = some run ∧ ConfirmMade run done := by
  have old : ∀ i done, w.initiatorOutcome i = some (.ok done) →
      ∃ run, w'.initiators[i]? = some run ∧ ConfirmMade run done := by
    intro i done hdone
    obtain ⟨run, hrun, hmade⟩ := h.confirmed i done hdone
    exact ⟨run, getElem?_of_prefix hmove.grows.initiators hrun, hmade⟩
  cases hmove with
  | initiated i run read timestamp nonce done hrun hopen hsend hread =>
      intro k other hk
      rcases (Table.insert_eq_some_iff _).mp hk with ⟨rfl, hdone⟩ | ⟨-, hk⟩
      · injection hdone with hdone
        subst hdone
        exact ⟨run, hrun, (readHelloBack_made hread).2⟩
      · exact old k other hk
  | initiatorFailed i e hopen =>
      intro k other hk
      rcases (Table.insert_eq_some_iff _).mp hk with ⟨-, he⟩ | ⟨-, hk⟩
      · cases he
      · exact old k other hk
  | _ => exact old

theorem accepted_step (h : AgreementInv corrupt w)
    (hmove : HandshakeMove corrupt w w') :
    ∀ r ∈ w'.responders, corrupt r.hello.env.fromSide = false →
      HelloMade w'.initiators r.hello := by
  have old : ∀ r ∈ w.responders, corrupt r.hello.env.fromSide = false →
      HelloMade w'.initiators r.hello := by
    intro r hr hhonest
    obtain ⟨run, hmem, hhello⟩ := h.accepted r hr hhonest
    exact ⟨run, hmove.grows.initiators.subset hmem, hhello⟩
  cases hmove with
  | accepted mySide read timestamp nonce run hsend hrun =>
      refine List.forall_mem_append.mpr ⟨old,
        List.forall_mem_singleton.mpr fun hhonest => ?_⟩
      have hread := (runResponder_made hrun).2
      rw [hread.parsed] at hhonest ⊢
      exact h.hellos read (CanSend.sent hsend hhonest) hread.type _
        hread.bytes
  | _ => exact old

/-- A responder completes on a MAC that someone with the key has written. -/
theorem agreed_step (h : AgreementInv corrupt w)
    (hmove : HandshakeMove corrupt w w') :
    ∀ j s, w'.responderOutcome j = some (.ok s) →
      ∃ r wire, w'.responders[j]? = some r ∧ ConfirmRead r wire s
        ∧ MacKnown w' s.sessionKey r.transcript := by
  have old : ∀ j s, w.responderOutcome j = some (.ok s) →
      ∃ r wire, w'.responders[j]? = some r ∧ ConfirmRead r wire s
        ∧ MacKnown w' s.sessionKey r.transcript := by
    intro j s hs
    obtain ⟨r, wire, hr, hread, hknown⟩ := h.responded j s hs
    exact ⟨r, wire, getElem?_of_prefix hmove.step.responders_prefix hr, hread,
      hknown.mono hmove.grows⟩
  have hgrows := hmove.grows
  cases hmove with
  | responded j run wire hrun hsend =>
      intro k s hk
      rcases (Table.insert_eq_some_iff _).mp hk with ⟨rfl, hs⟩ | ⟨-, hk⟩
      · have hread := readConfirm_read hs
        exact ⟨run, wire, hrun, hread,
          (macFrom_canSend h hsend _ _ hread.bytes).mono hgrows⟩
      · exact old k s hk
  | _ => exact old

theorem agreementInv_init : AgreementInv corrupt .init where
  started := fun _ hr => absurd hr List.not_mem_nil
  hellos := fun _ hw => absurd hw List.not_mem_nil
  macs := fun _ hw => absurd hw List.not_mem_nil
  confirmed := fun _ _ h => absurd h.symm (Option.some_ne_none _)
  accepted := fun _ hr => absurd hr List.not_mem_nil
  responded := fun _ _ h => absurd h.symm (Option.some_ne_none _)

theorem agreementInv_reachable
    (h : Reachable (handshakeStep corrupt) .init w) :
    AgreementInv corrupt w := by
  refine h.induct agreementInv_init fun s a s' hinv hs => ?_
  have hmove := handshakeStep_moves hs
  exact ⟨started_step hinv hmove, hellos_step hinv hmove,
    macs_step hinv hmove, confirmed_step hinv hmove,
    accepted_step hinv hmove, agreed_step hinv hmove⟩

-- ======================================================= equal session keys

/-- What a completed run has: its key, the two messages, who began, who
answered, and the intent. -/
structure HandshakeView where
  sessionKey : SessionKey
  hello : Signed HelloPayload
  helloBack : Signed HelloBackPayload
  initiator : Address
  responder : Address
  «intent» : Intent

/-- The runs that returned a session. -/
inductive Completed (w : HandshakeWorld) : HandshakeView → Prop where
  | initiator (i : Nat) (run : InitiatorRun) (done : InitiatorDone)
      (hrun : w.initiators[i]? = some run)
      (hdone : w.initiatorOutcome i = some (.ok done)) :
      Completed w ⟨done.session.sessionKey, run.hello, done.helloBack,
        run.mySide, done.session.peerSide, done.session.intent⟩
  | responder (j : Nat) (r : ResponderRun) (s : Session)
      (hr : w.responders[j]? = some r)
      (hs : w.responderOutcome j = some (.ok s)) :
      Completed w ⟨s.sessionKey, r.hello, r.helloBack, s.peerSide, r.mySide,
        s.intent⟩

/-- The session key fixes all the rest. -/
structure ViewFixed (v : HandshakeView) : Prop where
  salt : v.sessionKey.salt = ⟨v.hello, v.helloBack⟩
  initiator : v.initiator = v.hello.env.fromSide
  responder : v.responder = v.helloBack.env.fromSide
  «intent» : Intent.fromU8 v.hello.env.payload.intent = some v.intent

theorem viewFixed_completed
    (hw : Reachable (handshakeStep corrupt) .init w) {v : HandshakeView}
    (hv : Completed w v) : ViewFixed v := by
  have hinv := handshakeInv_reachable hw
  have hagreed := agreementInv_reachable hw
  cases hv with
  | initiator i run done hrun hdone =>
      obtain ⟨run₁, wire, hrun₁, hread, -⟩ := hinv.initiated i done hdone
      obtain rfl : run = run₁ := by
        rw [hrun] at hrun₁
        injection hrun₁
      obtain ⟨run₂, hrun₂, hmade⟩ := hagreed.confirmed i done hdone
      obtain rfl : run = run₂ := by
        rw [hrun] at hrun₂
        injection hrun₂
      obtain ⟨timestamp, nonce, hstarted⟩ :=
        hagreed.started run (List.mem_of_getElem? hrun)
      refine ⟨?_, ?_, ?_, ?_⟩
      · show done.session.sessionKey.salt = _
        rw [hread.key]
        rfl
      · show run.mySide = run.hello.env.fromSide
        rw [hstarted]
        rfl
      · show done.session.peerSide = done.helloBack.env.fromSide
        rw [hread.peer, hread.parsed]
        rfl
      · show Intent.fromU8 run.hello.env.payload.intent
          = some done.session.intent
        rw [hmade.intent, hstarted]
        exact Intent.fromU8_asU8 run.intent
  | responder j r s hr hs =>
      obtain ⟨r', wire, hr', hread, -⟩ := hagreed.responded j s hs
      obtain rfl : r = r' := by
        rw [hr] at hr'
        injection hr'
      refine ⟨?_, hread.peer, ?_, hread.intent⟩
      · show s.sessionKey.salt = _
        rw [hread.key]
        rfl
      · exact (hinv.runs r (List.mem_of_getElem? hr)).signer.symm

theorem ViewFixed.eq {a b : HandshakeView} (ha : ViewFixed a)
    (hb : ViewFixed b) (hkey : a.sessionKey = b.sessionKey) : a = b := by
  obtain ⟨hhello, hback⟩ :=
    Transcript.mk.inj (ha.salt.symm.trans ((congrArg _ hkey).trans hb.salt))
  have hintent := ha.intent
  rw [hhello, hb.intent] at hintent
  have hinitiator := ha.initiator
  rw [hhello, ← hb.initiator] at hinitiator
  have hresponder := ha.responder
  rw [hback, ← hb.responder] at hresponder
  obtain ⟨aKey, aHello, aBack, aInitiator, aResponder, aIntent⟩ := a
  obtain ⟨bKey, bHello, bBack, bInitiator, bResponder, bIntent⟩ := b
  injection hintent with hintent
  cases hkey
  cases hhello
  cases hback
  cases hinitiator
  cases hresponder
  cases hintent
  rfl

-- ==================================================== the responder's view

/-- Of a Hello made by a run, the key takes one of the two secrets. -/
theorem knowsKey_made {r : ResponderRun} {wire : Signed HandshakePayload}
    {s : Session} (hread : ConfirmRead r wire s) {x : EphemeralSecret}
    (heph : r.hello.env.payload.ephPub = .ofSecret x)
    (hknows : w.KnowsKey s.sessionKey) :
    x ∈ w.learned ∨ r.myEph ∈ w.learned := by
  have hshared : s.sessionKey.shared = .agreed s(r.myEph, x) := by
    rw [hread.key, heph]
    rfl
  unfold HandshakeWorld.KnowsKey at hknows
  rw [hshared] at hknows
  obtain ⟨secret, hlearned, hsecret⟩ := hknows
  rcases Sym2.mem_iff.mp hsecret with rfl | rfl
  · exact .inr hlearned
  · exact .inl hlearned

/-- When `run_responder` returns a session and neither its peer's key nor one
of the two ephemeral secrets is the attacker's, an initiator run of the peer
sent exactly that Hello, with the session's intent, and computed the same key
over the same two messages. Completed runs with equal keys agree on all the
rest. -/
theorem responder_guarantee (corrupt : Address → Bool) (w : HandshakeWorld)
    (hw : Reachable (handshakeStep corrupt) .init w) :
    (∀ j r s, w.responders[j]? = some r →
      w.responderOutcome j = some (.ok s) →
      corrupt s.peerSide = false →
      (∀ x ∈ w.learned, r.hello.env.payload.ephPub ≠ .ofSecret x) →
      r.myEph ∉ w.learned →
      ∃ i run done, w.initiators[i]? = some run
        ∧ w.initiatorOutcome i = some (.ok done)
        ∧ run.mySide = s.peerSide ∧ run.hello = r.hello
        ∧ run.intent = s.intent ∧ done.helloBack = r.helloBack
        ∧ done.session.sessionKey = s.sessionKey)
    ∧ ∀ a b, Completed w a → Completed w b →
        a.sessionKey = b.sessionKey → a = b := by
  have hinv := agreementInv_reachable hw
  refine ⟨fun j r s hr hs hhonest hhello hmine => ?_,
    fun a b ha hb hkey =>
      (viewFixed_completed hw ha).eq (viewFixed_completed hw hb) hkey⟩
  obtain ⟨r', wire, hr', hread, hknown⟩ := hinv.responded j s hs
  obtain rfl : r = r' := by
    rw [hr] at hr'
    injection hr'
  rw [hread.peer] at hhonest
  obtain ⟨sender, hsender, hsent⟩ :=
    hinv.accepted r (List.mem_of_getElem? hr) hhonest
  have heph : r.hello.env.payload.ephPub = .ofSecret sender.ephSecret := by
    obtain ⟨timestamp, nonce, hstarted⟩ := hinv.started sender hsender
    rw [← hsent, hstarted]
    rfl
  rcases hknown with hknows | ⟨i, run, done, hrun, hdone, hkey, ht⟩
  · rcases knowsKey_made hread heph hknows with hx | hy
    · exact absurd heph (hhello _ hx)
    · exact absurd hy hmine
  · obtain ⟨hrunHello, hrunBack⟩ := Transcript.mk.inj ht
    -- the run that wrote the MAC and this one have the same key
    have hview := (viewFixed_completed hw (.initiator i run done hrun hdone)).eq
      (viewFixed_completed hw (.responder j r s hr hs)) hkey
    injection hview with _ _ _ hside _ hintent
    obtain ⟨run', hrun', hmade⟩ := hinv.confirmed i done hdone
    obtain rfl : run = run' := by
      rw [hrun] at hrun'
      injection hrun'
    exact ⟨i, run, done, hrun, hdone, hside, hrunHello,
      hmade.intent.symm.trans hintent, hrunBack, hkey⟩

-- ================================================================== a run

/-- The responder of `helloAnswered`. -/
def firstResponder : ResponderRun :=
  acceptHello (Bytes.fill _ 2) 1
    (runInitiator (Bytes.fill _ 1) .direct (some (Bytes.fill _ 2)) 0 10
      (Bytes.fill _ 1)).hello 11 (Bytes.fill _ 2)

/-- The Confirm that it waits for, signed by any side. -/
def confirmBy (side : Address) : Signed HandshakePayload :=
  let transcript := firstResponder.transcript
  signWith .confirm side (some (Bytes.fill _ 2))
    (.confirm ⟨transcriptMac (deriveSessionKey 0 (.ofSecret 1) transcript)
      transcript⟩) 12 (Bytes.fill _ 3)

/-- What the responder returns on it. -/
def firstSession : Session where
  sessionKey := deriveSessionKey 1 (.ofSecret 0) firstResponder.transcript
  peerSide := Bytes.fill _ 1
  «intent» := .direct
  peerCapabilities := localCapabilities

theorem readConfirm_first (side : Address) :
    firstResponder.readConfirm (confirmBy side) = .ok firstSession := by
  have hkey : deriveSessionKey 0 (.ofSecret 1) firstResponder.transcript
      = deriveSessionKey 1 (.ofSecret 0) firstResponder.transcript :=
    congrArg (SessionKey.mk · firstResponder.transcript)
      (diffieHellman_comm 0 1)
  refine readConfirm_mac rfl rfl ?_ rfl
  show HandshakePayload.confirm ⟨transcriptMac (deriveSessionKey 0
    (.ofSecret 1) firstResponder.transcript) firstResponder.transcript⟩ = _
  rw [hkey]

/-- Both runs complete. -/
theorem responder_guarantee_undisturbed :
    ∃ w, Reachable (handshakeStep fun _ => false) .init w
      ∧ w.responderOutcome 0 = some (.ok firstSession)
      ∧ ∃ i run done, w.initiators[i]? = some run
        ∧ w.initiatorOutcome i = some (.ok done)
        ∧ run.mySide = firstSession.peerSide
        ∧ run.hello = firstResponder.hello
        ∧ run.intent = firstSession.intent
        ∧ done.helloBack = firstResponder.helloBack
        ∧ done.session.sessionKey = firstSession.sessionKey := by
  have hrun : run (handshakeStep fun _ => false) .init (helloAnswered ++
      [.deliverHelloBack 0 firstBack 12 (Bytes.fill _ 3),
        .deliverConfirm 0 (confirmBy (Bytes.fill _ 1))]) = some _ := rfl
  have hs := congrArg some (readConfirm_first (Bytes.fill _ 1))
  refine ⟨_, ⟨_, hrun⟩, hs, ?_⟩
  exact (responder_guarantee (fun _ => false) _ ⟨_, hrun⟩).1 0 firstResponder
    firstSession rfl hs rfl (fun x hx => absurd hx List.not_mem_nil)
    List.not_mem_nil

/-- The attacker has the responder's secret and completes the handshake, by a
Confirm of a side of its own, before the initiator has read anything. -/
theorem leaked_secret_completes :
    ∃ corrupt w r s, Reachable (handshakeStep corrupt) .init w
      ∧ w.responders[0]? = some r
      ∧ w.responderOutcome 0 = some (.ok s)
      ∧ corrupt s.peerSide = false
      ∧ (∀ x ∈ w.learned, r.hello.env.payload.ephPub ≠ .ofSecret x)
      ∧ ∀ i, w.initiatorOutcome i = none := by
  have hrun : run (handshakeStep fun side => decide (side = Bytes.fill _ 3))
      .init (helloAnswered ++
        [.learn 1, .deliverConfirm 0 (confirmBy (Bytes.fill _ 3))])
      = some _ := rfl
  exact ⟨_, _, firstResponder, firstSession, ⟨_, hrun⟩, rfl,
    congrArg some (readConfirm_first _), by decide, by decide, fun _ => rfl⟩

end Sidevers.Proofs
