/-
Store-and-forward on the wire (`submit_forward`, the mail of `serve_gossip`
and `accept_one_push` in `node.rs`).

The mailbox and its sessions are those of `Sidevers.Net.Forward`, with the
bytes of an inner envelope for an envelope. Here a FORWARD_STORE is a frame
that is read and decoded, and how the sending of a FORWARD_DELIVER ends
follows from signing it, from the limit of a frame and from the transport.

`forwardPart` says what an action is to the mailbox, what it takes in and what
it pushes; everything else about the mailbox is `forwardStep`. The gates of
the accept loop are in `Sidevers.Net.Gates`: a request here is one that passed
them.
-/
import Sidevers.Net.Clients
import Sidevers.Net.Forward

namespace Sidevers.Net

open Sidevers.Core
open Sidevers.Lib

variable {crypto : Crypto}

-- ========================================================== the envelopes

/-- The FORWARD_STORE of `submit_forward`. -/
def forwardStoreEnvelope (side : Signer crypto) (peer : Address)
    (req : ForwardStorePayload) (now : UInt64) (nonce : Nonce) :
    SignedEnvelope :=
  .signWith .forwardStore side (some peer) req.encode now nonce

/-- `submit_forward`: what it writes to its stream. -/
def submitForward (side : Signer crypto) (peer : Address)
    (req : ForwardStorePayload) (now : UInt64) (nonce : Nonce) :
    Except EnvelopeTooLarge (List UInt8) :=
  sendEnvelope (forwardStoreEnvelope side peer req now nonce)

/-- The FORWARD_DELIVER of a message. -/
def forwardDeliverEnvelope (side : Signer crypto) (peer : Address)
    (msg : HeldMessage (List UInt8)) (now : UInt64) (nonce : Nonce) :
    SignedEnvelope :=
  .signWith .forwardDeliver side (some peer)
    (ForwardDeliverPayload.encode ⟨msg.envelope, UInt64.ofNat msg.storedAt⟩)
    now nonce

/-- The FORWARD_STORE that `serve_gossip` handles: what a frame holds, if it
is one. -/
def forwardRequest (crypto : Crypto) (stream : List UInt8) :
    Option ForwardStorePayload :=
  match recvEnvelope crypto stream with
  | .error _ => none
  | .ok env =>
      if env.messageType = .forwardStore then
        (ForwardStorePayload.decode env.payload).toOption
      else none

/-- `accept_one_push`, on what arrives on a stream of the peer. -/
def acceptOnePush (crypto : Crypto) (intent : Intent) (stream : List UInt8) :
    Except CallError SignedEnvelope :=
  match recvEnvelope crypto stream with
  | .error e => .error (.framing e)
  | .ok env =>
      match acceptOne intent env.messageType with
      | .error e => .error (.net e)
      | .ok () => .ok env

-- ================================================================ a push

/-- What one round of the delivery loop meets. -/
structure PushIo where
  /-- The random bytes of `sign_response`: none if they, or its clock, fail. -/
  nonce : Option Nonce
  /-- A stream is opened. -/
  opened : Bool
  /-- All that is written is taken. -/
  written : Bool

/-- One round of the delivery loop past the expiry: how it ends, and the frame
that was handed to the transport. -/
def pushMessage (side : Signer crypto) (peer : Address)
    (msg : HeldMessage (List UInt8)) (clock : Nat) (io : PushIo) :
    SendOutcome × Option (List UInt8) :=
  match io.nonce with
  | none => (.signFailed, none)
  | some nonce =>
      if io.opened = false then (.sendFailed, none)
      else
        match sendEnvelope (forwardDeliverEnvelope side peer msg
          (UInt64.ofNat clock) nonce) with
        | .error _ => (.sendFailed, none)
        | .ok frame =>
            if io.written = false then (.sendFailed, none)
            else (.sent, some frame)

-- =========================================================== a forwarder

/-- A forwarder, the requests it took in and the frames it pushed, to whom. -/
structure ForwardNode where
  forwarder : Forwarder (List UInt8)
  taken : List ForwardStorePayload
  pushed : List (Address × List UInt8)

/-- A forwarder that holds nothing yet. -/
def ForwardNode.init (start : Nat) : ForwardNode := ⟨.init start, [], []⟩

/-- What can happen. -/
inductive ForwardNodeAction where
  | advance (secs : Nat)
  /-- A frame arrives on a Gossip session, and passes its gates. -/
  | handle (stream : List UInt8)
  | connect (peer : Address)
  | readClock (conn : Nat)
  | deliver (conn : Nat) (io : PushIo)
  | sweep

/-- What an action is to the mailbox, takes in and pushes. -/
structure ForwardPart where
  action : ForwardAction (List UInt8)
  taken : List ForwardStorePayload
  pushed : List (Address × List UInt8)

/-- The part of an action. -/
def forwardPart (side : Signer crypto) (w : ForwardNode) :
    ForwardNodeAction → Option ForwardPart
  | .advance secs => some ⟨.advance secs, [], []⟩
  | .handle stream =>
      match forwardRequest crypto stream with
      | none => none
      | some req =>
          some ⟨.forwardStore req.recipient req.envelope req.ttlSecs.toNat,
            [req], []⟩
  | .connect peer => some ⟨.connect peer, [], []⟩
  | .readClock conn => some ⟨.readClock conn, [], []⟩
  | .deliver conn io =>
      match w.forwarder.sessions[conn]? with
      | some ⟨peer, .sending now (msg :: _)⟩ =>
          -- skipped: whatever the outcome, nothing is sent or put back
          if msg.expiresAt ≤ now then some ⟨.deliver conn .sent, [], []⟩
          else
            let (outcome, frame) :=
              pushMessage side peer msg w.forwarder.clock io
            some ⟨.deliver conn outcome, [],
              frame.toList.map fun frame => (peer, frame)⟩
      | _ => none
  | .sweep => some ⟨.sweep, [], []⟩

/-- The step function. -/
def forwardNodeStep (side : Signer crypto) (w : ForwardNode)
    (a : ForwardNodeAction) : Option ForwardNode :=
  match forwardPart side w a with
  | none => none
  | some part =>
      (forwardStep w.forwarder part.action).map fun forwarder =>
        ⟨forwarder, w.taken ++ part.taken, w.pushed ++ part.pushed⟩

end Sidevers.Net
