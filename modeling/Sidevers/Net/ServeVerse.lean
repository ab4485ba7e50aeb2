/-
The verse server (`serve_verse` in `node.rs`) on one hosted verse, as a
step relation over everything that runs concurrently on it: the loops of
its sessions, the spawned key pushes, the guards' spawned cleanups, and the
local calls.

# Steps

One step is one acquisition of the host's lock, or one write to a stream,
or a message that passed the gate and is dispatched. A session handles one
message at a time (`ServePc` is what it does next), so two handlers
interleave only when they belong to two sessions.

Streams, clock and CSPRNG may fail: `io = none` is a step in which what the
code calls there fails, `io = some now` one in which it succeeds and the
clock reads `now`.

# What is left out

Reads that no later step depends on (the verse's own key), the fan-out of
posts and of `VERSE_AMEND`, which change no state of the host.

# The log

`log` records what happened, oldest first. The code keeps no such log and
no step reads it: it is there for statements about whole runs. A handler of
a join carries the length the log had when the request arrived.
-/
import Sidevers.Net.Verse

namespace Sidevers.Net

open Sidevers.Core
open Sidevers.Lib

-- ============================================================= events

/-- How a side became a member. -/
inductive Addition where
  | direct
  | join (fromSide : Address) (arrived : Nat)
  deriving DecidableEq

/-- A response other than `JOIN_ACCEPT`. -/
inductive VerseReply where
  | contractDeliver (contract : ContractObject)
  | joinDecline (decline : JoinDeclinePayload)

/-- What happened to a verse. -/
inductive VerseEvent where
  /-- A join request of `side` for the contract passed its checks. -/
  | checked (side : Address) (contractHash : Bytes 32)
  | joinSealed (share : KeyShare)
  | added (side : Address) (contractHash : Bytes 32) (how : Addition)
  | removed (side : Address)
  | reconsented (side : Address) (contractHash : Bytes 32)
  /-- Returned to the local caller that added the side. -/
  | directToken (token : MembershipToken) (key : VerseContentKey)
  | rotated (key : VerseContentKey)
  /-- The pushes of a rotation were made. -/
  | pushed (shares : Table Address (ConnId × KeyShare))
  /-- The share went out on a connection of `peer`. -/
  | delivered (peer : Address) (share : KeyShare)
  | replied (peer : Address) (reply : VerseReply)
  | admitted (post : Envelope VersePostPayload) (contractHash : Bytes 32)

-- ============================================================ threads

/-- `rotate_and_push_verse_key`: the rotation, then the snapshot. -/
inductive RotatePc where
  | rotate
  | snapshot
  deriving DecidableEq

/-- What a `serve_verse` loop does next. -/
inductive ServePc where
  | register
  | drain
  | redeliver (share : KeyShare)
  | restash (share : KeyShare)
  /-- `accept_one`: waits for the peer. -/
  | accept
  | fetch
  | reply (reply : VerseReply)
  | joinCheck (fromSide : Address) (req : JoinRequestPayload) (arrived : Nat)
  | joinSeal (fromSide : Address) (req : JoinRequestPayload) (arrived : Nat)
      (contract : ContractObject)
  | joinInsert (fromSide : Address) (req : JoinRequestPayload)
      (arrived : Nat) (contract : ContractObject) (share : KeyShare)
  | joinSign (share : KeyShare)
  | joinSend (share : KeyShare)
  | leave (leave : VerseLeavePayload)
  | retract (leave : VerseLeavePayload)
  | moderate (fromSide : Address) (remove : VerseRemovePayload)
  | remove (remove : VerseRemovePayload)
  | rotating (pc : RotatePc)
  | reconsent (fromSide : Address) (contractHash : Bytes 32)
  | postVersion (post : Envelope VersePostPayload)
  | postAdmit (post : Envelope VersePostPayload) (version : UInt64)
  | postOpen (post : Envelope VersePostPayload)
  | postRetain (post : Envelope VersePostPayload)

/-- A running `serve_verse` loop. -/
structure VerseSession where
  peer : Address
  pc : ServePc

/-- A spawned push of a rotation: about to send, or failed and about to
stash. -/
inductive KeyPush where
  | sending (conn : ConnId) (share : KeyShare)
  | failed (share : KeyShare)

/-- A hosted verse with everything that runs on it. -/
structure VerseWorld where
  host : VerseHost
  sessions : Table ConnId VerseSession
  /-- Dropped session guards whose spawned cleanup has not run yet. -/
  cleanups : Table ConnId Address
  /-- By the rotation that spawned them, and member. -/
  pushes : Table (Nat × Address) KeyPush
  /-- Calls of `host_rotate_verse_key`. -/
  rotations : Table Nat RotatePc
  nextId : Nat
  log : List VerseEvent

/-- A verse that was just hosted. -/
def VerseWorld.init (host : VerseHost) : VerseWorld :=
  ⟨host, .empty, .empty, .empty, .empty, 0, []⟩

-- ========================================================== dispatch

/-- The dispatch of a message; `arrived` is the length of the log. -/
def serveReceive (h : VerseHost) (arrived : Nat)
    (env : Envelope VerseMessage) : ServePc :=
  match env.payload with
  | .contractFetch => .fetch
  | .joinRequest req => .joinCheck env.fromSide req arrived
  | .versePost post => .postVersion { env with payload := post }
  | .verseLeave leave =>
      if leave.side ≠ env.fromSide then .accept
      else if leave.verse ≠ h.verse then .accept
      else .leave leave
  | .verseRemove remove =>
      if remove.verse ≠ h.verse then .accept
      else .moderate env.fromSide remove
  | .verseReconsent recon => .reconsent env.fromSide recon.contractHash
  | .other => .accept

/-- What a step of a thread does: the host after it, what the thread does
next (`none` = it is done), what happened, and the pushes it spawned. -/
structure Tick (Pc : Type) where
  host : VerseHost
  next : Option Pc
  events : List VerseEvent
  spawned : Option (Table Address (ConnId × KeyShare))

namespace Tick

variable {Pc : Type}

/-- The thread goes on. -/
def go (h : VerseHost) (pc : Pc) (events : List VerseEvent) : Tick Pc :=
  ⟨h, some pc, events, none⟩

/-- The thread is done. -/
def done (h : VerseHost) : Tick Pc := ⟨h, none, [], none⟩

end Tick

/-- A step of `rotate_and_push_verse_key`. An error ends it; the key stays
rotated if the snapshot fails. -/
def rotateTick (crypto : Crypto) (h : VerseHost) (io : Option UInt64) :
    RotatePc → Tick RotatePc
  | .rotate =>
      match io with
      | none => .done h
      | some _ =>
          let h := h.rotateContentKey
          .go h .snapshot [.rotated h.contentKey]
  | .snapshot =>
      match io with
      | none => .done h
      | some now =>
          let shares := h.pushSnapshot crypto now
          ⟨h, none, [.pushed shares], some shares⟩

/-- A step of a `serve_verse` loop that waits for nobody. -/
def serveTick (crypto : Crypto)
    (openPost : VerseContentKey → VersePostPayload → Option (List UInt8))
    (h : VerseHost) (peer : Address) (conn : ConnId) (io : Option UInt64) :
    ServePc → Option (Tick ServePc)
  | .register => some (.go (h.registerSession peer conn) .drain [])
  | .drain =>
      let (share, h) := h.takePendingKeyPush peer
      match share with
      | some share => some (.go h (.redeliver share) [])
      | none => some (.go h .accept [])
  | .redeliver share =>
      match io with
      | some _ => some (.go h .accept [.delivered peer share])
      | none => some (.go h (.restash share) [])
  | .restash share => some (.go (h.stashPendingKeyPush peer share) .accept [])
  | .accept => none
  | .fetch => some (.go h (.reply (.contractDeliver h.contract)) [])
  | .reply reply =>
      match io with
      | some _ => some (.go h .accept [.replied peer reply])
      | none => some (.done h)
  | .joinCheck fromSide req arrived =>
      match VerseHost.joinProblem crypto h.contract req with
      | some reason =>
          some (.go h (.reply (.joinDecline ⟨h.contract.hash crypto, reason⟩))
            [])
      | none =>
          some (.go h (.joinSeal fromSide req arrived h.contract)
            [.checked req.side (h.contract.hash crypto)])
  | .joinSeal fromSide req arrived contract =>
      match io with
      | none => some (.done h)
      | some now =>
          let share := h.sealKey (contract.hash crypto) req.side now
          some (.go h (.joinInsert fromSide req arrived contract share)
            [.joinSealed share])
  | .joinInsert fromSide req arrived contract share =>
      some (.go (h.insertMember req.side contract.version) (.joinSign share)
        [.added req.side (contract.hash crypto) (.join fromSide arrived)])
  | .joinSign share =>
      match io with
      | none => some (.done h)
      | some _ => some (.go h (.joinSend share) [])
  | .joinSend share =>
      match io with
      | none => some (.done h)
      | some _ => some (.go h .accept [.delivered peer share])
  | .leave leave =>
      let wasMember := (h.members leave.side).isSome
      let h := h.removeMember leave.side
      let next :=
        if ¬ wasMember then .accept
        else if leave.disposition = .retract then .retract leave
        else .rotating .rotate
      some (.go h next [.removed leave.side])
  | .retract leave =>
      some (.go { h with posts := h.posts.retractByAuthor h.verse leave.side }
        (.rotating .rotate) [])
  | .moderate fromSide remove =>
      if h.contract.isModerator remove.issuedBy ∧ fromSide = remove.issuedBy
      then some (.go h (.remove remove) [])
      else some (.go h .accept [])
  | .remove remove =>
      let wasMember := (h.members remove.side).isSome
      let h := h.removeMember remove.side
      some (.go h (if wasMember then .rotating .rotate else .accept)
        [.removed remove.side])
  | .rotating pc =>
      let t := rotateTick crypto h io pc
      some ⟨t.host, some ((t.next.map .rotating).getD .accept), t.events,
        t.spawned⟩
  | .reconsent fromSide contractHash =>
      match h.reconsent crypto fromSide contractHash with
      | none => some (.go h .accept [])
      | some h =>
          some (.go h .accept [.reconsented fromSide contractHash])
  | .postVersion post => some (.go h (.postAdmit post h.contract.version) [])
  | .postAdmit post version =>
      if h.admits post.fromSide version then
        some (.go h (.postOpen post)
          [.admitted post (h.contract.hash crypto)])
      else some (.go h .accept [])
  | .postOpen post =>
      match openPost h.contentKey post.payload with
      | none => some (.go h .accept [])
      | some _ => some (.go h (.postRetain post) [])
  | .postRetain post =>
      some (.go { h with
          posts := h.posts.addPost h.verse post.fromSide
            ⟨post, post.payload, io.getD 0⟩ } .accept [])

-- ============================================================== steps

/-- What can happen on a hosted verse. -/
inductive VerseAction where
  /-- A peer's Verse session starts being served. -/
  | openSession (peer : Address)
  /-- A message that passed the gate is dispatched. -/
  | receive (conn : ConnId) (env : Envelope VerseMessage)
  | tick (conn : ConnId) (io : Option UInt64)
  /-- `accept_one` fails: the loop returns. -/
  | closeSession (conn : ConnId)
  | cleanup (conn : ConnId)
  /-- A spawned push sends, or fails to. -/
  | push (rotation : Nat) (member : Address) (sent : Bool)
  | stash (rotation : Nat) (member : Address)
  | addLocalMember (side : Address) (issuedAt : UInt64)
  /-- `host_amend_verse`, for a contract of this verse. -/
  | amend (contract : ContractObject)
  /-- `host_rotate_verse_key` is called. -/
  | rotate
  | tickRotation (call : Nat) (io : Option UInt64)

namespace VerseWorld

/-- The pushes in flight after a thread's step, and the next id. -/
def spawn (w : VerseWorld) :
    Option (Table Address (ConnId × KeyShare)) → VerseWorld
  | none => w
  | some shares =>
      { w with
        pushes := fun id =>
          if id.1 = w.nextId then
            (shares id.2).map fun p => .sending p.1 p.2
          else w.pushes id
        nextId := w.nextId + 1 }

/-- The loop of `conn` returned: its guard is dropped. -/
def endSession (w : VerseWorld) (conn : ConnId) (peer : Address) :
    VerseWorld :=
  { w with
    sessions := w.sessions.erase conn
    cleanups := w.cleanups.insert conn peer }

/-- The session of `conn` took a step. -/
def applySession (w : VerseWorld) (conn : ConnId) (peer : Address)
    (t : Tick ServePc) : VerseWorld :=
  let w := { w.spawn t.spawned with
    host := t.host, log := w.log ++ t.events }
  match t.next with
  | some pc => { w with sessions := w.sessions.insert conn ⟨peer, pc⟩ }
  | none => w.endSession conn peer

/-- The rotation call took a step. -/
def applyRotation (w : VerseWorld) (call : Nat) (t : Tick RotatePc) :
    VerseWorld :=
  { w.spawn t.spawned with
    host := t.host, log := w.log ++ t.events
    rotations := match t.next with
      | some pc => w.rotations.insert call pc
      | none => w.rotations.erase call }

end VerseWorld

/-- The step function of a hosted verse. -/
def verseStep (crypto : Crypto)
    (openPost : VerseContentKey → VersePostPayload → Option (List UInt8))
    (w : VerseWorld) : VerseAction → Option VerseWorld
  | .openSession peer =>
      some { w with
        sessions := w.sessions.insert w.nextId ⟨peer, .register⟩
        nextId := w.nextId + 1 }
  | .receive conn env =>
      match w.sessions conn with
      | some ⟨peer, .accept⟩ =>
          let pc := serveReceive w.host w.log.length env
          some { w with sessions := w.sessions.insert conn ⟨peer, pc⟩ }
      | _ => none
  | .tick conn io =>
      match w.sessions conn with
      | some s =>
          (serveTick crypto openPost w.host s.peer conn io s.pc).map
            (w.applySession conn s.peer)
      | none => none
  | .closeSession conn =>
      match w.sessions conn with
      | some ⟨peer, .accept⟩ => some (w.endSession conn peer)
      | _ => none
  | .cleanup conn =>
      match w.cleanups conn with
      | some peer =>
          some { w with
            host := w.host.dropSession peer
            cleanups := w.cleanups.erase conn }
      | none => none
  | .push rotation member sent =>
      match w.pushes (rotation, member) with
      | some (.sending _ share) =>
          if sent then
            some { w with
              pushes := w.pushes.erase (rotation, member)
              log := w.log ++ [.delivered member share] }
          else
            some { w with
              pushes := w.pushes.insert (rotation, member) (.failed share) }
      | _ => none
  | .stash rotation member =>
      match w.pushes (rotation, member) with
      | some (.failed share) =>
          some { w with
            host := w.host.stashPendingKeyPush member share
            pushes := w.pushes.erase (rotation, member) }
      | _ => none
  | .addLocalMember side issuedAt =>
      let ((token, key), host) := w.host.addLocalMember crypto side issuedAt
      some { w with
        host
        log := w.log ++ [.added side (w.host.contract.hash crypto) .direct,
          .directToken token key] }
  | .amend contract =>
      if contract.verse = w.host.verse then
        some { w with host := w.host.amendContract contract }
      else none
  | .rotate =>
      some { w with
        rotations := w.rotations.insert w.nextId .rotate
        nextId := w.nextId + 1 }
  | .tickRotation call io =>
      match w.rotations call with
      | some pc => some (w.applyRotation call (rotateTick crypto w.host io pc))
      | none => none

end Sidevers.Net
