/-
The handshake (`handshake.rs`, protocol spec §4.3): any number of initiator
and responder runs of any sides, on a network the attacker controls.

# Runs

A run is what one call of `run_initiator` or `run_responder` has computed so
far. An initiator has sent its Hello and waits for a HelloBack; a responder
has answered a Hello and waits for a Confirm; the outcome of a run is what
the call returned. A run whose outcome is missing is still waiting (or timed
out: it answers nothing more).

# The attacker

Every envelope goes through the attacker, who drops, replays, reorders and
redirects at will: a run reads whatever the attacker can put on its stream
(`canSend`). That is any envelope some side has sent, and any envelope of a
side in `corrupt` whose payload the attacker can build. It may hold X25519
secrets: its own, and any it learned (`learn`).

Clock readings and nonces are the attacker's choice as well.
-/
import Sidevers.Core.Handshake
import Sidevers.Lib.Run
import Sidevers.Lib.Table
import Sidevers.Net.Session

namespace Sidevers.Net

open Sidevers.Core
open Sidevers.Lib

/-- `PROTOCOL_VERSION`. -/
def protocolVersion : UInt64 := 1

/-- `CAP_PROTOCOL`. -/
def capProtocol : String := "protocol"

/-- `CAP_INTENTS_MASK`. -/
def capIntentsMask : String := "intents_mask"

/-- `CAP_MAX_ENVELOPE_KIB`. -/
def capMaxEnvelopeKib : String := "max_envelope_kib"

/-- `local_capabilities`. -/
def localCapabilities : BTreeMap String UInt64 :=
  let intents : List UInt64 := [1, 2, 3, 4, 5]
  let mask : UInt64 := intents.foldl (fun m i => m ||| (1 : UInt64) <<< i) 0
  ((BTreeMap.empty.insert capProtocol protocolVersion).insert
    capIntentsMask mask).insert capMaxEnvelopeKib 1024

/-- `Session`, without its connection. -/
structure Session where
  sessionKey : SessionKey
  peerSide : Address
  «intent» : Intent
  peerCapabilities : BTreeMap String UInt64
  deriving DecidableEq

/-- `Envelope::sign_with`: deterministic. -/
def signWith {P : Type} (messageType : MessageType) (side : Address)
    (toSide : Option Address) (payload : P) (timestamp : Nat)
    (nonce : Nonce) : Signed P :=
  ⟨{ messageType, fromSide := side, toSide, timestamp, nonce, payload }, 0⟩

-- ========================================================== initiator

/-- An initiator that has sent its Hello. -/
structure InitiatorRun where
  mySide : Address
  «intent» : Intent
  expectedPeerSide : Option Address
  ephSecret : EphemeralSecret
  hello : Signed HelloPayload
  deriving DecidableEq

/-- `run_initiator_inner`, up to the Hello it sends. -/
def runInitiator (mySide : Address) (i : Intent)
    (expectedPeerSide : Option Address) (ephSecret : EphemeralSecret)
    (timestamp : Nat) (nonce : Nonce) : InitiatorRun :=
  { mySide, intent := i, expectedPeerSide, ephSecret,
    hello := signWith .hello mySide expectedPeerSide
      { vMax := 1, vMin := 1, extensions := [],
        ephPub := .ofSecret ephSecret, intent := i.asU8,
        capabilities := localCapabilities } timestamp nonce }

/-- An initiator that has sent its Confirm. -/
structure InitiatorDone where
  helloBack : Signed HelloBackPayload
  confirm : Signed ConfirmPayload
  session : Session
  deriving DecidableEq

/-- `run_initiator_inner`, from the HelloBack it reads. -/
def InitiatorRun.readHelloBack (run : InitiatorRun)
    (wire : Signed HandshakePayload) (timestamp : Nat) (nonce : Nonce) :
    Except Error InitiatorDone :=
  if wire.env.messageType ≠ .helloBack then
    .error (.handshakeProtocol "expected HelloBack")
  else
    match HelloBackPayload.decode wire.env.payload with
    | .error e => .error (.core e)
    | .ok payload =>
        if !payload.accept then
          .error (.handshakeDeclined (payload.reason.getD "(no reason)"))
        else if payload.v ≠ 1 then
          .error (.handshakeProtocol "unsupported version negotiated")
        else
          let transcript := ⟨run.hello, wire.parsed payload⟩
          let sessionKey :=
            deriveSessionKey run.ephSecret payload.ephPub transcript
          .ok {
            helloBack := wire.parsed payload
            confirm := signWith .confirm run.mySide (some wire.env.fromSide)
              ⟨transcriptMac sessionKey transcript⟩ timestamp nonce
            session := {
              sessionKey
              peerSide := wire.env.fromSide
              intent := run.intent
              peerCapabilities := payload.capabilities } }

-- ========================================================== responder

/-- A responder that has accepted a Hello. -/
structure ResponderRun where
  mySide : Address
  myEph : EphemeralSecret
  hello : Signed HelloPayload
  helloBack : Signed HelloBackPayload
  deriving DecidableEq

/-- What a responder made of a Hello. -/
inductive HelloAnswer where
  | accepted (run : ResponderRun)
  /-- The HelloBack that declines, and what the call returned. -/
  | declined (helloBack : Signed HelloBackPayload) (error : Error)
  | refused (error : Error)

/-- `run_responder_inner`, a Hello accepted. -/
def acceptHello (mySide : Address) (myEph : EphemeralSecret)
    (hello : Signed HelloPayload) (timestamp : Nat) (nonce : Nonce) :
    ResponderRun :=
  { mySide, myEph, hello,
    helloBack := signWith .helloBack mySide (some hello.env.fromSide)
      { v := 1, accept := true, reason := none, ephPub := .ofSecret myEph,
        extensions := [], capabilities := localCapabilities }
      timestamp nonce }

/-- `run_responder_inner`, up to the HelloBack it sends. -/
def runResponder (mySide : Address) (myEph : EphemeralSecret)
    (wire : Signed HandshakePayload) (timestamp : Nat) (nonce : Nonce) :
    HelloAnswer :=
  if wire.env.messageType ≠ .hello then
    .refused (.handshakeProtocol "expected Hello")
  else
    match HelloPayload.decode wire.env.payload with
    | .error e => .refused (.core e)
    | .ok payload =>
        let acceptVersion := payload.vMin ≤ 1 ∧ 1 ≤ payload.vMax
        let intentKnown := 1 ≤ payload.intent ∧ payload.intent ≤ 5
        if ¬ acceptVersion ∨ ¬ intentKnown then
          let reason :=
            if ¬ acceptVersion then "version-incompatible"
            else "intent-refused"
          .declined
            (signWith .helloBack mySide (some wire.env.fromSide)
              { v := 1, accept := false, reason := some reason,
                ephPub := .bytes (Bytes.fill 32 0), extensions := [],
                capabilities := BTreeMap.empty } timestamp nonce)
            (.handshakeDeclined "local refusal")
        else
          .accepted (acceptHello mySide myEph (wire.parsed payload)
            timestamp nonce)

/-- `hello ‖ helloback`, as the responder has them. -/
def ResponderRun.transcript (run : ResponderRun) : Transcript :=
  ⟨run.hello, run.helloBack⟩

/-- `run_responder_inner`, from the Confirm it reads. -/
def ResponderRun.readConfirm (run : ResponderRun)
    (wire : Signed HandshakePayload) : Except Error Session :=
  let sessionKey :=
    deriveSessionKey run.myEph run.hello.env.payload.ephPub run.transcript
  if wire.env.messageType ≠ .confirm then
    .error (.handshakeProtocol "expected Confirm")
  else
    match ConfirmPayload.decode wire.env.payload with
    | .error e => .error (.core e)
    | .ok payload =>
        if payload.proof ≠ transcriptMac sessionKey run.transcript then
          .error (.handshakeProtocol "Confirm MAC mismatch")
        else
          match Intent.fromU8 run.hello.env.payload.intent with
          | none => .error (.handshakeProtocol "unknown intent")
          | some i =>
              .ok {
                sessionKey
                peerSide := run.hello.env.fromSide
                intent := i
                peerCapabilities := run.hello.env.payload.capabilities }

-- ============================================================ network

/-- All runs of all sides, and what the attacker has. -/
structure HandshakeWorld where
  initiators : List InitiatorRun
  responders : List ResponderRun
  /-- What a call returned, by the number of its run. -/
  initiatorOutcome : Table Nat (Except Error InitiatorDone)
  responderOutcome : Table Nat (Except Error Session)
  /-- Every envelope a side has sent. -/
  sent : List (Signed HandshakePayload)
  /-- X25519 secrets the attacker holds. -/
  learned : List EphemeralSecret
  nextSecret : EphemeralSecret

/-- Before any run. -/
def HandshakeWorld.init : HandshakeWorld :=
  ⟨[], [], .empty, .empty, [], [], 0⟩

namespace HandshakeWorld

/-- The attacker can compute the session key: one of the two secrets is all
it takes, the messages being public. -/
def KnowsKey (w : HandshakeWorld) (key : SessionKey) : Prop :=
  match key.shared with
  | .agreed secrets => ∃ s ∈ w.learned, s ∈ secrets
  | .lowOrder => True

instance (w : HandshakeWorld) (key : SessionKey) :
    Decidable (w.KnowsKey key) := by
  unfold KnowsKey
  cases key.shared <;> infer_instance

/-- The attacker can write the 32 bytes: it computes the MAC, or has seen it. -/
def KnowsProof (w : HandshakeWorld) : Proof → Prop
  | .mac key transcript =>
      w.KnowsKey key
        ∨ ∃ seen ∈ w.sent, seen.env.payload = .confirm ⟨.mac key transcript⟩
  | .bytes _ => True

instance (w : HandshakeWorld) (proof : Proof) :
    Decidable (w.KnowsProof proof) := by
  unfold KnowsProof
  cases proof <;> infer_instance

/-- The attacker can build the payload. -/
def KnowsPayload (w : HandshakeWorld) : HandshakePayload → Prop
  | .confirm payload => w.KnowsProof payload.proof
  | _ => True

instance (w : HandshakeWorld) (payload : HandshakePayload) :
    Decidable (w.KnowsPayload payload) := by
  unfold KnowsPayload
  cases payload <;> infer_instance

/-- The attacker can put the envelope on a stream. -/
def CanSend (corrupt : Address → Bool) (w : HandshakeWorld)
    (wire : Signed HandshakePayload) : Prop :=
  wire ∈ w.sent
    ∨ corrupt wire.env.fromSide ∧ w.KnowsPayload wire.env.payload

instance (corrupt : Address → Bool) (w : HandshakeWorld)
    (wire : Signed HandshakePayload) : Decidable (CanSend corrupt w wire) :=
  inferInstanceAs (Decidable (_ ∨ _))

end HandshakeWorld

/-- One step of the network. -/
inductive HandshakeAction where
  | startInitiator (mySide : Address) (i : Intent)
      (expectedPeerSide : Option Address) (timestamp : Nat) (nonce : Nonce)
  | deliverHelloBack (run : Nat) (wire : Signed HandshakePayload)
      (timestamp : Nat) (nonce : Nonce)
  | deliverHello (mySide : Address) (wire : Signed HandshakePayload)
      (timestamp : Nat) (nonce : Nonce)
  | deliverConfirm (run : Nat) (wire : Signed HandshakePayload)
  /-- A side sends an envelope of another category, elsewhere. -/
  | otherTraffic (wire : Signed HandshakePayload)
  /-- The attacker comes to hold an X25519 secret. -/
  | learn (secret : EphemeralSecret)

/-- The effect of an action, `none` when it is not enabled. -/
def handshakeStep (corrupt : Address → Bool) (w : HandshakeWorld) :
    HandshakeAction → Option HandshakeWorld
  | .startInitiator mySide i expectedPeerSide timestamp nonce =>
      let run := runInitiator mySide i expectedPeerSide w.nextSecret
        timestamp nonce
      some { w with
        initiators := w.initiators ++ [run]
        sent := w.sent ++ [run.hello.parsed (.hello run.hello.env.payload)]
        nextSecret := w.nextSecret + 1 }
  | .deliverHelloBack i wire timestamp nonce =>
      match w.initiators[i]?, w.initiatorOutcome i with
      | some run, none =>
          if w.CanSend corrupt wire then
            match run.readHelloBack wire timestamp nonce with
            | .error e => some { w with
                initiatorOutcome := w.initiatorOutcome.insert i (.error e) }
            | .ok done => some { w with
                initiatorOutcome := w.initiatorOutcome.insert i (.ok done)
                sent := w.sent ++ [done.confirm.parsed
                  (.confirm done.confirm.env.payload)] }
          else none
      | _, _ => none
  | .deliverHello mySide wire timestamp nonce =>
      if w.CanSend corrupt wire then
        match runResponder mySide w.nextSecret wire timestamp nonce with
        | .refused _ => some w
        | .declined helloBack _ => some { w with
            sent := w.sent ++
              [helloBack.parsed (.helloBack helloBack.env.payload)] }
        | .accepted run => some { w with
            responders := w.responders ++ [run]
            sent := w.sent ++
              [run.helloBack.parsed (.helloBack run.helloBack.env.payload)]
            nextSecret := w.nextSecret + 1 }
      else none
  | .deliverConfirm j wire =>
      match w.responders[j]?, w.responderOutcome j with
      | some run, none =>
          if w.CanSend corrupt wire then
            some { w with
              responderOutcome :=
                w.responderOutcome.insert j (run.readConfirm wire) }
          else none
      | _, _ => none
  | .otherTraffic wire =>
      if wire.env.messageType.category ≠ .handshake
          ∧ w.KnowsPayload wire.env.payload then
        some { w with sent := w.sent ++ [wire] }
      else none
  | .learn secret => some { w with learned := secret :: w.learned }

end Sidevers.Net
