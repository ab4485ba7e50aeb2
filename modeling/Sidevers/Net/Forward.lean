/-
Store-and-forward (`forward.rs`, and the mail `serve_gossip` delivers first
and takes in afterwards).

# Messages

The forwarder does not look into an inner envelope: the mailbox is generic in
what an envelope is. `numbered` puts the position of its FORWARD_STORE beside
each, so that one message can be followed through a run, and leaves
everything else as it is (`run_numbered`).

# Steps

A mailbox call reads the clock once and is one step. A Gossip session drains
the mailbox, reads the clock, and then sends one message after the other; any
number of sessions, stores and sweeps come between two of its steps, and time
passes. What a session does after its mail, and its entry in `active_gossip`,
are in `Gossip.lean`.
-/
import Mathlib.Data.List.Basic
import Sidevers.Core.Bytes
import Sidevers.Lib.Run
import Sidevers.Lib.Table

namespace Sidevers.Net

open Sidevers.Core
open Sidevers.Lib

/-- `DEFAULT_TTL_SECS`: seven days. -/
def defaultTtlSecs : Nat := 7 * 24 * 60 * 60

-- ============================================================ the mailbox

/-- `HeldMessage`. -/
structure HeldMessage (E : Type) where
  envelope : E
  storedAt : Nat
  expiresAt : Nat
  deriving DecidableEq

/-- `Mailbox`: what is held, by recipient. -/
abbrev Mailbox (E : Type) := Table Address (List (HeldMessage E))

namespace Mailbox

variable {E : Type}

/-- The queue of a recipient. -/
def queue (box : Mailbox E) (recipient : Address) : List (HeldMessage E) :=
  (box recipient).getD []

/-- `store`. -/
def store (box : Mailbox E) (now : Nat) (recipient : Address) (envelope : E)
    (ttlSecs : Nat) : Mailbox E :=
  let ttl := min ttlSecs defaultTtlSecs
  let held : HeldMessage E := ⟨envelope, now, now + ttl⟩
  box.insert recipient (box.queue recipient ++ [held])

/-- `drain`. -/
def drain (box : Mailbox E) (now : Nat) (recipient : Address) :
    List (HeldMessage E) × Mailbox E :=
  ((box.queue recipient).filter fun m => decide (now < m.expiresAt),
    box.erase recipient)

/-- `sweep`, less the number of messages it dropped. -/
def sweep (box : Mailbox E) (now : Nat) : Mailbox E := fun recipient =>
  match box recipient with
  | none => none
  | some queue =>
      match queue.filter fun m => decide (now < m.expiresAt) with
      | [] => none
      | kept => some kept

end Mailbox

-- =============================================================== sessions

/-- What `serve_gossip` does about the mail it drained. -/
inductive DeliveryPhase (E : Type) where
  /-- `now` has not been read. -/
  | drained (held : List (HeldMessage E))
  /-- The rest of the loop. -/
  | sending (now : Nat) (held : List (HeldMessage E))
  deriving DecidableEq

/-- A Gossip session. -/
structure DeliverySession (E : Type) where
  peer : Address
  phase : DeliveryPhase E
  deriving DecidableEq

/-- How sending a FORWARD_DELIVER ends. -/
inductive SendOutcome where
  | sent
  | signFailed
  | sendFailed
  deriving DecidableEq

/-- A FORWARD_DELIVER that was sent, to whom and when. -/
structure Delivery (E : Type) where
  peer : Address
  envelope : E
  storedAt : Nat
  sentAt : Nat
  deriving DecidableEq

/-- A forwarder. -/
structure Forwarder (E : Type) where
  clock : Nat
  mailbox : Mailbox E
  sessions : List (DeliverySession E)
  delivered : List (Delivery E)
  forwardRetries : Nat

/-- A forwarder that holds nothing yet. -/
def Forwarder.init {E : Type} (start : Nat) : Forwarder E :=
  ⟨start, .empty, [], [], 0⟩

/-- What can happen. -/
inductive ForwardAction (E : Type) where
  /-- Time passes. -/
  | advance (secs : Nat)
  /-- A FORWARD_STORE is handled. -/
  | forwardStore (recipient : Address) (envelope : E) (ttlSecs : Nat)
  /-- A peer's Gossip session starts: its mail is drained. -/
  | connect (peer : Address)
  /-- The session reads the clock, once for its whole loop. -/
  | readClock (conn : Nat)
  /-- The next round of the loop. -/
  | deliver (conn : Nat) (outcome : SendOutcome)
  | sweep
  deriving DecidableEq

namespace Forwarder

variable {E : Type}

/-- A message that could not be sent is put back. -/
def restore (w : Forwarder E) (peer : Address) (now : Nat)
    (msg : HeldMessage E) : Forwarder E :=
  let remaining := msg.expiresAt - now
  { w with mailbox := w.mailbox.store w.clock peer msg.envelope remaining }

/-- One round of the delivery loop, the session aside. -/
def deliverOne (w : Forwarder E) (peer : Address) (now : Nat)
    (msg : HeldMessage E) (outcome : SendOutcome) : Forwarder E :=
  if msg.expiresAt ≤ now then w
  else
    match outcome with
    | .sent => { w with
        delivered := w.delivered
          ++ [⟨peer, msg.envelope, msg.storedAt, w.clock⟩] }
    | .signFailed => w.restore peer now msg
    | .sendFailed => { w.restore peer now msg with
        forwardRetries := w.forwardRetries + 1 }

end Forwarder

/-- The step function. -/
def forwardStep {E : Type} (w : Forwarder E) :
    ForwardAction E → Option (Forwarder E)
  | .advance secs => some { w with clock := w.clock + secs }
  | .forwardStore recipient envelope ttlSecs =>
      some { w with
        mailbox := w.mailbox.store w.clock recipient envelope ttlSecs }
  | .connect peer =>
      let (held, mailbox) := w.mailbox.drain w.clock peer
      some { w with
        mailbox
        sessions := w.sessions ++ [⟨peer, .drained held⟩] }
  | .readClock conn =>
      match w.sessions[conn]? with
      | some ⟨peer, .drained held⟩ =>
          some { w with
            sessions := w.sessions.set conn ⟨peer, .sending w.clock held⟩ }
      | _ => none
  | .deliver conn outcome =>
      match w.sessions[conn]? with
      | some ⟨peer, .sending now (msg :: rest)⟩ =>
          let w := { w with
            sessions := w.sessions.set conn ⟨peer, .sending now rest⟩ }
          some (w.deliverOne peer now msg outcome)
      | _ => none
  | .sweep => some { w with mailbox := w.mailbox.sweep w.clock }

-- ===================================================== other envelopes

section map

variable {E F : Type}

def HeldMessage.map (f : E → F) (m : HeldMessage E) : HeldMessage F :=
  ⟨f m.envelope, m.storedAt, m.expiresAt⟩

def Mailbox.map (f : E → F) (box : Mailbox E) : Mailbox F :=
  fun recipient => (box recipient).map fun queue => queue.map (.map f)

def DeliveryPhase.map (f : E → F) : DeliveryPhase E → DeliveryPhase F
  | .drained held => .drained (held.map (.map f))
  | .sending now held => .sending now (held.map (.map f))

def DeliverySession.map (f : E → F) (s : DeliverySession E) :
    DeliverySession F := ⟨s.peer, s.phase.map f⟩

def Delivery.map (f : E → F) (d : Delivery E) : Delivery F :=
  ⟨d.peer, f d.envelope, d.storedAt, d.sentAt⟩

/-- The same forwarder, every envelope through the function. -/
def Forwarder.map (f : E → F) (w : Forwarder E) : Forwarder F :=
  ⟨w.clock, w.mailbox.map f, w.sessions.map (.map f),
    w.delivered.map (.map f), w.forwardRetries⟩

/-- The same action, its envelope through the function. -/
def ForwardAction.map (f : E → F) : ForwardAction E → ForwardAction F
  | .advance secs => .advance secs
  | .forwardStore recipient envelope ttlSecs =>
      .forwardStore recipient (f envelope) ttlSecs
  | .connect peer => .connect peer
  | .readClock conn => .readClock conn
  | .deliver conn outcome => .deliver conn outcome
  | .sweep => .sweep

/-- Each FORWARD_STORE with its position in the run beside the envelope. -/
def numbered (acts : List (ForwardAction E)) :
    List (ForwardAction (Nat × E)) :=
  acts.mapIdx fun n a => a.map (n, ·)

end map

end Sidevers.Net
