/-
The frame that the serve loops share (`serve_direct`, `serve_storage`,
`serve_gossip` and `serve_verse` in `node.rs`): `accept_one` (`session.rs`), the
two gates, the decoding of the payload, and the ways a loop returns.

What an arm does with an envelope whose payload decodes is a parameter: any
function of the rest of the node. Elsewhere it is spelled out, in
`Sidevers.Net.Endpoint`, `Sidevers.Net.Serving` and `Sidevers.Net.ServeVerse`.

# One session

A stream of the session is what `accept_bi` gives: its bytes, or the end of
the connection. Between two of them anything else may happen on the node.

# All sessions

Over all the sessions of a node it is the reputation table that matters; the
gates are those of `Sidevers.Net.Gates`. The arm of a message type warns of a
payload that does not decode and goes on: what is counted of such payloads is
kept here beside the node, which does not.
-/
import Sidevers.Core.RecordWire
import Sidevers.Net.Gates
import Sidevers.Net.Ingest

namespace Sidevers.Net

open Sidevers.Core
open Sidevers.Lib

-- ============================================================ the payload

/-- What the gates see of an envelope. -/
def received (env : SignedEnvelope) : Envelope (List UInt8) where
  messageType := env.messageType
  fromSide := env.fromSide
  toSide := env.toSide
  timestamp := env.timestamp.toNat
  nonce := env.nonce
  payload := env.payload

/-- Does the payload decode in its arm of `serve_direct`? -/
def directDecodes (crypto : Crypto) (env : Envelope (List UInt8)) : Bool :=
  let wire := env.payload
  if env.messageType = .profileFetch then wire.length = 32
  else if env.messageType = .profileDeliver then
    (ProfilePayload.fromWireBytes crypto wire).isOk
  else if env.messageType = .sideRetirement then
    (SignedSideRetirement.fromWireBytes crypto wire).isOk
  else if env.messageType = .linkagePublish then
    (SignedLinkageProof.fromWireBytes crypto wire).isOk
  else if env.messageType = .devicePairingRequest then
    (SignedPairingRequest.fromWireBytes crypto wire).isOk
  else if env.messageType = .deviceRevoke then
    (SignedDeviceRevoke.fromWireBytes crypto wire).isOk
  else if env.messageType = .stateDelta then
    (SignedStateDelta.fromWireBytes crypto wire).isOk
  else true

/-- Does the payload decode in its arm of `serve_storage`? -/
def storageDecodes (env : Envelope (List UInt8)) : Bool :=
  let wire := env.payload
  if env.messageType = .storageGet then (StorageGetPayload.decode wire).isOk
  else if env.messageType = .storageOffer then
    (StorageOfferPayload.decode wire).isOk
  else if env.messageType = .storageRetract then
    (StorageRetractPayload.decode wire).isOk
  else true

/-- Does the payload decode in its arm of `serve_gossip`? A broadcast's is not
looked at. -/
def gossipDecodes (env : Envelope (List UInt8)) : Bool :=
  let wire := env.payload
  if env.messageType = .peerAsk then (PeerAskPayload.decode wire).isOk
  else if env.messageType = .rendezvous then
    (RendezvousPayload.decode wire).isOk
  else if env.messageType = .forwardStore then
    (ForwardStorePayload.decode wire).isOk
  else true

/-- Does the payload decode in its arm of `serve_verse`? That of a
CONTRACT_FETCH is not looked at. -/
def verseDecodes (crypto : Crypto) (env : Envelope (List UInt8)) : Bool :=
  let wire := env.payload
  if env.messageType = .joinRequest then
    (SignedJoinRequest.decode crypto wire).isOk
  else if env.messageType = .versePost then
    (VersePostPayload.decode wire).isOk
  else if env.messageType = .verseLeave then
    (SignedVerseLeave.decode crypto wire).isOk
  else if env.messageType = .verseRemove then
    (SignedVerseRemove.decode crypto wire).isOk
  else if env.messageType = .verseReconsent then
    (SignedVerseReconsent.decodeAndVerify crypto env.fromSide wire).isOk
  else true

/-- Does the payload decode, in the loop of a session's intent? -/
def payloadDecodes (crypto : Crypto) (intent : Intent)
    (env : Envelope (List UInt8)) : Bool :=
  match intent with
  | .direct => directDecodes crypto env
  | .storage => storageDecodes env
  | .gossip => gossipDecodes env
  | .verse => verseDecodes crypto env
  | .publicLayer => true

-- ============================================================== reading

/-- `quinn::ConnectionError`, as far as the loops tell them apart. -/
inductive ConnectionError where
  | applicationClosed
  | connectionClosed
  | locallyClosed
  | timedOut
  | other
  deriving DecidableEq

/-- What ends a loop. -/
inductive LoopError where
  | connection (e : ConnectionError)
  | recv (e : RecvError)
  | net (e : Error)
  deriving DecidableEq

/-- `accept_one`, on the next stream. -/
def acceptStream (crypto : Crypto) (intent : Intent)
    (stream : Except ConnectionError (List UInt8)) :
    Except LoopError SignedEnvelope :=
  match stream with
  | .error e => .error (.connection e)
  | .ok bytes =>
      match recvEnvelope crypto bytes with
      | .error e => .error (.recv e)
      | .ok env =>
          match acceptOne intent env.messageType with
          | .error e => .error (.net e)
          | .ok () => .ok env

/-- What a loop returns when `accept_one` fails: a connection that is closed
is no error. -/
def loopResult : LoopError → Except LoopError Unit
  | .connection .applicationClosed => .ok ()
  | .connection .connectionClosed => .ok ()
  | .connection .locallyClosed => .ok ()
  | .connection .timedOut => .ok ()
  | e => .error e

-- =========================================================== one session

/-- A loop serves, or it has returned. -/
inductive LoopState where
  | serving
  | returned (result : Except LoopError Unit)
  deriving DecidableEq

/-- The loop a session begins in: none for PublicLayer, none for Verse where
no verse is hosted. -/
def LoopState.start (intent : Intent) (versesHosted : Bool) : LoopState :=
  match intent with
  | .publicLayer => .returned (.ok ())
  | .verse => if versesHosted then .serving else .returned (.ok ())
  | _ => .serving

/-- The node, as one session sees it: the two gates, the rest, the session's
loop, and the envelopes that came to an arm. -/
structure Served (σ : Type) where
  reputation : ReputationTable
  gate : Gate
  rest : σ
  loop : LoopState
  handled : List SignedEnvelope

/-- An arm: the rest of the node after it, and the error it ends the loop
with, if any. -/
abbrev Arm (σ ι : Type) := σ → SignedEnvelope → ι → Option LoopError × σ

/-- A stream, and what the loop meets on the way. -/
structure Incoming (ι : Type) where
  stream : Except ConnectionError (List UInt8)
  meterClock : Option Nat
  checkClock : Option Nat
  order : IterOrder
  io : ι

/-- One round of a loop. -/
def serveOne {σ ι : Type} (crypto : Crypto) (intent : Intent) (arm : Arm σ ι)
    (w : Served σ) (x : Incoming ι) : Served σ :=
  match w.loop with
  | .returned _ => w
  | .serving =>
      match acceptStream crypto intent x.stream with
      | .error e => { w with loop := .returned (loopResult e) }
      | .ok env =>
          let metered := w.reputation.observeEnvelope env.fromSide
            (x.meterClock.getD 0)
          let w := { w with reputation := metered.2 }
          if !metered.1 then w
          else
            let checked := checkFreshnessAndReplayMetered w.gate
              ⟨received env, x.checkClock, x.order⟩
            let w := { w with gate := checked.2 }
            if !checked.1 then w
            else if !payloadDecodes crypto intent (received env) then w
            else
              let done := arm w.rest env x.io
              let w := { w with rest := done.2, handled := w.handled ++ [env] }
              match done.1 with
              | none => w
              | some e => { w with loop := .returned (.error e) }

/-- The arms of the seven requests that are answered. -/
def requestArm {crypto : Crypto} (sealTo : Seal crypto) (loop : ServeLoop) :
    Arm (ServingNode crypto) ServeIo := fun n env io =>
  match loop.respond sealTo n env io with
  | .error e => (some (.net e), n)
  | .ok response =>
      match response.answer with
      | none => (none, response.node)
      | some answer =>
          match sendEnvelope answer with
          | .ok _ => (none, response.sent)
          | .error e => (some (.recv (.tooLarge e)), response.node)

-- ========================================================== all sessions

/-- The loops of a node. -/
structure LoopsNode where
  gates : GatesNode (List UInt8)
  intents : SessionId → Intent
  /-- The payloads of a peer that were admitted and did not decode, since it
  was last reinstated. -/
  malformed : Address → Nat
  /-- Did the peer ever send a payload that does not decode, or a bad
  signature? -/
  misbehaved : Address → Bool

/-- A node that serves nobody yet, on caches its endpoints start with. -/
def LoopsNode.start (caches : Address → ReplayCache) : LoopsNode where
  gates := .start caches
  intents _ := .direct
  malformed _ := 0
  misbehaved _ := false

/-- What can happen. -/
inductive LoopsAction where
  | openSession (id : SessionId) (intent : Intent)
  /-- The signature of an envelope does not verify: the loop returns. -/
  | badSignature (id : SessionId)
  /-- A loop in its gates, a loop that returns, or the operator. -/
  | gates (a : GatesAction (List UInt8))

namespace LoopsNode

/-- A session opens with an intent, and its loop reads what that accepts. -/
def takes (n : LoopsNode) : GatesAction (List UInt8) → Bool
  | .openSession _ => false
  | .accept id env => (n.intents id).accepts env.messageType
  | _ => true

/-- Does the envelope get through the gates with a payload that does not
decode? -/
def admitsMalformed (crypto : Crypto) (n : LoopsNode) (id : SessionId)
    (env : Envelope (List UInt8)) (clock : Option Nat) (order : IterOrder) :
    Bool :=
  n.gates.sessions id = some (.check env true)
    && (n.gates.checkFreshnessAndReplay id.endpoint ⟨env, clock, order⟩).1
    && !payloadDecodes crypto (n.intents id) env

/-- What is counted of an action; nothing of it reaches the reputation
table. -/
def count (crypto : Crypto) (n : LoopsNode) :
    GatesAction (List UInt8) → LoopsNode
  | .accept id env =>
      if payloadDecodes crypto (n.intents id) env then n
      else { n with
        misbehaved := Function.update n.misbehaved env.fromSide true }
  | .check id env clock order =>
      if n.admitsMalformed crypto id env clock order then
        { n with
          malformed := Function.update n.malformed env.fromSide
            (n.malformed env.fromSide + 1) }
      else n
  | .reinstate peer =>
      { n with malformed := Function.update n.malformed peer 0 }
  | _ => n

end LoopsNode

/-- The effect of an action, `none` when it is not enabled. -/
def loopsStep (crypto : Crypto) (n : LoopsNode) :
    LoopsAction → Option LoopsNode
  | .openSession id intent =>
      (gatesStep n.gates (.openSession id)).map fun gates =>
        { n with gates, intents := Function.update n.intents id intent }
  | .badSignature id =>
      (gatesStep n.gates (.closeSession id)).map fun gates =>
        { n with
          gates
          misbehaved := Function.update n.misbehaved id.peer true }
  | .gates a =>
      if n.takes a then
        (gatesStep n.gates a).map fun gates =>
          { n.count crypto a with gates }
      else none

end Sidevers.Net
