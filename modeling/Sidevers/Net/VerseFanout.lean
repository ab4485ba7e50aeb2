/-
What a hosted verse sends to its members besides keys: the fan-out of posts
(`verse_fanout_post`) and the amendments (`host_amend_verse`), and what a
member makes of an amendment (`decode_verse_amend`).

`FanoutWorld` is the verse of `Net.ServeVerse` with the tasks its steps
spawn. A task copies the connections of the active members at some later
time, under the host's lock, and then spawns one send for each; a send
writes its stream at any later time, or fails to. `host_amend_verse` is a
caller and not a spawned task: it too copies the connections in a lock of
its own, and may fail to (the clock, the CSPRNG), with the contract already
in place.

# The log

`log` is that of the verse with the events of the tasks in between, oldest
first. An event of the verse names the session whose step it was. The code
keeps no such log and no step reads it.
-/
import Sidevers.Core.VerseWire
import Sidevers.Net.Error
import Sidevers.Net.ServeVerse

namespace Sidevers.Net

open Sidevers.Core
open Sidevers.Lib

-- ============================================================ pushes

/-- What goes to the members: a post in its author's own envelope, or the
`VERSE_AMEND` envelope of a contract. -/
inductive MemberPush where
  | post (post : Envelope VersePostPayload)
  | amend (contract : ContractObject)

/-- Who does not get it back. -/
def MemberPush.author : MemberPush → Option Address
  | .post env => some env.fromSide
  | .amend _ => none

namespace VerseHost

/-- The connections of the members that have one. -/
def activeMembers (h : VerseHost) : Table Address ConnId := fun side =>
  if (h.members side).isSome then h.activeSessions side else none

/-- The connections copied for a push. For an amendment the envelopes are
signed along with it; `io = none` is a clock or a CSPRNG that fails. -/
def recipients (h : VerseHost) (io : Option UInt64) :
    MemberPush → Table Address ConnId
  | .post post => fun side =>
      if side = post.fromSide then none else h.activeMembers side
  | .amend _ => if io.isNone then .empty else h.activeMembers

end VerseHost

/-- What a step of the verse spawns: a post that was opened is fanned out,
and a contract that was put in place is announced. -/
def spawnedBy
    (openPost : VerseContentKey → VersePostPayload → Option (List UInt8))
    (w : VerseWorld) : VerseAction → Option MemberPush
  | .tick conn _ =>
      match w.sessions conn with
      | some ⟨_, .postOpen post⟩ =>
          (openPost w.host.contentKey post.payload).map fun _ => .post post
      | _ => none
  | .amend contract => some (.amend contract)
  | _ => none

/-- The session whose step it is. -/
def VerseAction.session : VerseAction → Option ConnId
  | .tick conn _ => some conn
  | _ => none

-- ============================================================= the world

/-- What happened to a verse and to what it sends. -/
inductive FanoutEvent where
  | verse (session : Option ConnId) (e : VerseEvent)
  | spawned (task : Nat) (session : Option ConnId) (push : MemberPush)
  | collected (task : Nat) (push : MemberPush)
      (connections : Table Address ConnId)
  /-- The stream was written, or could not be. -/
  | sent (task : Nat) (push : MemberPush) (member : Address) (written : Bool)

/-- A hosted verse, and what it is sending. -/
structure FanoutWorld where
  verse : VerseWorld
  /-- Tasks that have not copied the connections yet. -/
  tasks : Table Nat MemberPush
  /-- Spawned sends that have not run yet, by task and member. -/
  sends : Table (Nat × Address) (ConnId × MemberPush)
  nextTask : Nat
  log : List FanoutEvent

/-- A verse that was just hosted. -/
def FanoutWorld.init (host : VerseHost) : FanoutWorld :=
  ⟨.init host, .empty, .empty, 0, []⟩

/-- What can happen. -/
inductive FanoutAction where
  | verse (a : VerseAction)
  /-- A task copies the connections. -/
  | collect (task : Nat) (io : Option UInt64)
  /-- A send opens its stream and writes it, or fails to. -/
  | send (task : Nat) (member : Address) (written : Bool)

/-- The verse took a step. -/
def FanoutWorld.advance (w : FanoutWorld) (a : VerseAction)
    (verse : VerseWorld) : FanoutWorld :=
  { w with
    verse
    log := w.log ++ (verse.log.drop w.verse.log.length).map
      fun e => .verse a.session e }

/-- The task for what a step spawned. -/
def FanoutWorld.spawnTask (w : FanoutWorld) (session : Option ConnId) :
    Option MemberPush → FanoutWorld
  | none => w
  | some push =>
      { w with
        tasks := w.tasks.insert w.nextTask push
        nextTask := w.nextTask + 1
        log := w.log ++ [.spawned w.nextTask session push] }

/-- The step function of a hosted verse with what it sends. -/
def fanoutStep (crypto : Crypto)
    (openPost : VerseContentKey → VersePostPayload → Option (List UInt8))
    (w : FanoutWorld) : FanoutAction → Option FanoutWorld
  | .verse a =>
      (verseStep crypto openPost w.verse a).map fun verse =>
        (w.advance a verse).spawnTask a.session (spawnedBy openPost w.verse a)
  | .collect task io =>
      match w.tasks task with
      | some push =>
          let connections := w.verse.host.recipients io push
          some { w with
            tasks := w.tasks.erase task
            sends := fun id =>
              if id.1 = task then (connections id.2).map fun c => (c, push)
              else w.sends id
            log := w.log ++ [.collected task push connections] }
      | none => none
  | .send task member written =>
      match w.sends (task, member) with
      | some (_, push) =>
          some { w with
            sends := w.sends.erase (task, member)
            log := w.log ++ [.sent task push member written] }
      | none => none

-- ============================================================ a member

/-- The envelope a member is sent for an amendment. -/
def amendPush (contract : ContractObject) (member : Address)
    (timestamp : Nat) (nonce : Nonce) : Envelope (List UInt8) where
  messageType := .verseAmend
  fromSide := contract.verse
  toSide := some member
  timestamp := timestamp
  nonce := nonce
  payload := VerseAmendPayload.encode ⟨contract⟩

/-- `decode_verse_amend`. -/
def decodeVerseAmend (crypto : Crypto) (push : Envelope (List UInt8))
    (expectedVersePubkey : Address) : Except Error ContractObject :=
  if push.messageType ≠ .verseAmend then
    .error (.invariant "expected VERSE_AMEND envelope")
  else if push.fromSide ≠ expectedVersePubkey then
    .error (.invariant "VerseAmend not signed by the verse")
  else
    match VerseAmendPayload.decode crypto push.payload with
    | .error e => .error (.core e)
    | .ok payload =>
        if payload.contract.verse ≠ expectedVersePubkey then
          .error (.invariant "VerseAmend contract.verse mismatch")
        else .ok payload.contract

end Sidevers.Net
