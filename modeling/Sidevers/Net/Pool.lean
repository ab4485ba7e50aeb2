/-
Dialling (`dial` and `dial_pooled` in `node.rs`, `connection_pool.rs`) and
what the responder does with a connection (`handle_connection`,
`Session::accept_one`).

# Connections

A connection is a queue of streams the dialer has opened, by the first
envelope on each, and the task that accepts them. The task answers one Hello
and then serves the intent it asked for until `accept_one` fails, a handler
fails or the connection is gone; when it ends, its last handle closes the
connection. Neither end learns of the other's close at once: `closed` is what
the dialer knows (`close_reason`).

# Calls

A call of `dial` or `dial_pooled` goes through the steps it awaits
(`DialPc`); any number of calls, of any nodes, interleave with each other,
with the tasks and with what the returned sessions send. `io = false` is a
step in which what the code calls there fails.

`Attempt.cached` and `fellBack` carry whether the task was still running
when a cached connection was used. No step reads it.
-/
import Sidevers.Lib.Run
import Sidevers.Lib.Table
import Sidevers.Net.Session
import Sidevers.Net.Verse

namespace Sidevers.Net

open Sidevers.Core
open Sidevers.Lib

/-- `SocketAddr`. -/
abbrev SocketAddr := String

/-- `Key` of the pool: the peer's address, and the side dialled from. -/
structure PoolKey where
  peerAddr : SocketAddr
  sourceSide : Address
  deriving DecidableEq

-- ========================================================= connections

/-- What a stream's first envelope is: the Hello of a call, or one that a
session sent. -/
inductive StreamPayload where
  | hello (call : Nat) (i : Intent)
  | message
  deriving DecidableEq

/-- A stream the dialer has opened. -/
structure Stream where
  messageType : MessageType
  payload : StreamPayload
  deriving DecidableEq

/-- The stream `run_initiator` opens. -/
def Stream.hello (call : Nat) (i : Intent) : Stream := ⟨.hello, .hello call i⟩

/-- Why a connection's task ended. -/
inductive TaskEnd where
  /-- The connection is gone. -/
  | closed
  /-- Throttled, or the handshake or a handler failed. -/
  | failed
  /-- `PublicLayer`, or a verse session where no verse is hosted. -/
  | notServed
  /-- `accept_one` refused a message type. -/
  | wrongIntent (got : UInt8)
  deriving DecidableEq

/-- `handle_connection`, by what it waits for. -/
inductive ConnTask where
  | accepting
  | confirming (call : Nat) (i : Intent)
  | serving (i : Intent)
  | ended (why : TaskEnd)
  deriving DecidableEq

/-- A QUIC connection. -/
structure Conn where
  /-- The call that opened it, and the intent of its handshake. -/
  opener : Nat
  «intent» : Intent
  task : ConnTask
  streams : List Stream
  /-- The call the task has sent a HelloBack. -/
  helloBack : Option Nat
  /-- The call that has sent a Confirm. -/
  confirm : Option Nat
  closed : Bool
  deriving DecidableEq

namespace Conn

/-- The task has not ended. -/
def running (conn : Conn) : Bool :=
  match conn.task with
  | .ended _ => false
  | _ => true

/-- A connection with the Hello of the call that opened it. -/
def opened (call : Nat) (i : Intent) : Conn :=
  ⟨call, i, .accepting, [.hello call i], none, none, false⟩

/-- What a completed handshake is dispatched to. -/
def dispatch (i : Intent) : ConnTask :=
  match i with
  | .publicLayer => .ended .notServed
  | _ => .serving i

/-- The next step of `handle_connection`. -/
def taskStep (conn : Conn) (io : Bool) : Option Conn :=
  match conn.task with
  | .accepting =>
      match io, conn.streams with
      | false, _ => some { conn with task := .ended .failed }
      | true, ⟨_, .hello call i⟩ :: rest => some { conn with
          task := .confirming call i, streams := rest, helloBack := some call }
      | true, ⟨_, .message⟩ :: rest => some { conn with
          task := .ended .failed, streams := rest }
      | true, [] => none
  | .confirming call i =>
      if !io then some { conn with task := .ended .failed }
      else if conn.confirm = some call then
        some { conn with task := dispatch i }
      else none
  | .serving i =>
      match conn.streams with
      | [] => none
      | s :: rest =>
          match acceptOne i s.messageType with
          | .error _ => some { conn with
              task := .ended (.wrongIntent s.messageType.byte)
              streams := rest }
          | .ok () => some { conn with
              task := if io then .serving i else .ended .failed
              streams := rest }
  | .ended _ => none

end Conn

-- =============================================================== calls

/-- On which connection `run_initiator` runs. -/
inductive Attempt where
  | fresh
  | cached (running : Bool)
  deriving DecidableEq

/-- What a call of `dial` or `dial_pooled` does next. -/
inductive DialPc where
  /-- `pool.get` -/
  | lookup
  /-- `open_bi` on the cached connection. -/
  | opening (conn : ConnId)
  /-- `pool.invalidate` -/
  | invalidate
  /-- `endpoint.connect` -/
  | connect
  /-- Waits for the HelloBack. -/
  | handshake (conn : ConnId) (attempt : Attempt)
  /-- `pool.insert` -/
  | insert (conn : ConnId)
  deriving DecidableEq

/-- A call of `dial` or `dial_pooled`. -/
structure DialCall where
  key : PoolKey
  «intent» : Intent
  pc : DialPc
  deriving DecidableEq

/-- A session a call has returned. -/
structure DialedSession where
  conn : ConnId
  «intent» : Intent
  deriving DecidableEq

/-- The nodes' pools, their calls and the connections between them. -/
structure PoolWorld where
  conns : Table ConnId Conn
  pool : Table PoolKey ConnId
  calls : Table Nat DialCall
  sessions : List DialedSession
  /-- Handshakes on a cached connection that failed, with whether the task
  was running when it began. -/
  fellBack : List (ConnId × Bool)
  nextId : Nat

/-- Before any call. -/
def PoolWorld.init : PoolWorld := ⟨.empty, .empty, .empty, [], [], 0⟩

namespace PoolWorld

/-- What `pool.get` leaves of a side's pool: the closed connections are
swept. -/
def sweep (w : PoolWorld) (side : Address) : Table PoolKey ConnId := fun key =>
  (w.pool key).filter fun c =>
    key.sourceSide ≠ side || (w.conns c).any fun conn => !conn.closed

/-- A call goes on. -/
def goTo (w : PoolWorld) (k : Nat) (call : DialCall) (pc : DialPc) :
    PoolWorld :=
  { w with calls := w.calls.insert k { call with pc } }

/-- A call returns a session. -/
def returned (w : PoolWorld) (k : Nat) (call : DialCall) (c : ConnId) :
    PoolWorld :=
  { w with calls := w.calls.erase k,
           sessions := w.sessions ++ [⟨c, call.intent⟩] }

/-- A connection moves on. -/
def setConn (w : PoolWorld) (c : ConnId) (conn : Conn) : PoolWorld :=
  { w with conns := w.conns.insert c conn }

/-- The next step of a call. -/
def callStep (w : PoolWorld) (k : Nat) (io : Bool) (call : DialCall) :
    Option PoolWorld :=
  match call.pc with
  | .lookup =>
      let swept := { w with pool := w.sweep call.key.sourceSide }
      match swept.pool call.key with
      | some c => some (swept.goTo k call (.opening c))
      | none => some (swept.goTo k call .connect)
  | .opening c =>
      match w.conns c with
      | none => none
      | some conn =>
          if conn.closed then some (w.goTo k call .invalidate)
          else some ((w.setConn c { conn with
            streams := conn.streams ++ [.hello k call.intent] }).goTo k call
              (.handshake c (.cached conn.running)))
  | .invalidate =>
      some (({ w with pool := w.pool.erase call.key }).goTo k call .connect)
  | .connect =>
      if io then
        some (({ w with
          conns := w.conns.insert w.nextId (.opened k call.intent)
          nextId := w.nextId + 1 }).goTo k call (.handshake w.nextId .fresh))
      else some { w with calls := w.calls.erase k }
  | .handshake c attempt =>
      match io, attempt with
      | false, .fresh => some { w with calls := w.calls.erase k }
      | false, .cached running => some ({ w with
          fellBack := w.fellBack ++ [(c, running)] }.goTo k call .invalidate)
      | true, attempt =>
          match w.conns c with
          | none => none
          | some conn =>
              if conn.helloBack = some k then
                let confirmed := w.setConn c { conn with confirm := some k }
                match attempt with
                | .fresh => some (confirmed.goTo k call (.insert c))
                | .cached _ => some (confirmed.returned k call c)
              else none
  | .insert c =>
      some (({ w with pool := w.pool.insert call.key c }).returned k call c)

end PoolWorld

-- =============================================================== steps

/-- One step. -/
inductive PoolAction where
  | dial (key : PoolKey) (i : Intent)
  | dialPooled (key : PoolKey) (i : Intent)
  | call (k : Nat) (io : Bool)
  /-- `open_and_send` on a returned session. -/
  | send (session : Nat) (messageType : MessageType)
  | task (conn : ConnId) (io : Bool)
  /-- The dialer's end is closed: by its owner, by the peer, or lost. -/
  | close (conn : ConnId)
  /-- The task finds the connection gone. -/
  | hangUp (conn : ConnId)

/-- The effect of an action, `none` when it is not enabled. -/
def poolStep (w : PoolWorld) : PoolAction → Option PoolWorld
  | .dial key i => some { w with
      calls := w.calls.insert w.nextId ⟨key, i, .connect⟩
      nextId := w.nextId + 1 }
  | .dialPooled key i => some { w with
      calls := w.calls.insert w.nextId ⟨key, i, .lookup⟩
      nextId := w.nextId + 1 }
  | .call k io =>
      match w.calls k with
      | none => none
      | some call => w.callStep k io call
  | .send n messageType =>
      match w.sessions[n]? with
      | none => none
      | some s =>
          match w.conns s.conn with
          | none => none
          | some conn =>
              -- `WrongIntent`, or a closed connection: an error, nothing sent
              if !s.intent.accepts messageType || conn.closed then some w
              else some (w.setConn s.conn { conn with
                streams := conn.streams ++ [⟨messageType, .message⟩] })
  | .task c io =>
      match w.conns c with
      | none => none
      | some conn => (conn.taskStep io).map (w.setConn c)
  | .close c =>
      match w.conns c with
      | none => none
      | some conn => some (w.setConn c { conn with closed := true })
  | .hangUp c =>
      match w.conns c with
      | none => none
      | some conn =>
          if conn.running then
            some (w.setConn c { conn with task := .ended .closed })
          else none

end Sidevers.Net
