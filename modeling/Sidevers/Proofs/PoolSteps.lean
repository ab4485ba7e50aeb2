/-
What one step of the dialling world can do, said once (`Net.Pool`).

- `poolStep_cases`: what each action does, with the guard it passed;
- `calls_step`, `conns_step`: where the state of a call and of a connection
  came from;
- `taskStep_cases`: what a connection's task does;
- `conns_kept`: what no step changes about a connection.

No invariant proof unfolds a step function.
-/
import Sidevers.Net.Pool

namespace Sidevers.Proofs

open Sidevers.Core
open Sidevers.Lib
open Sidevers.Net

variable {w w' : PoolWorld}

-- ============================================================ a step

/-- What a step does, with the guard it passed. -/
inductive PoolStep (w : PoolWorld) : PoolAction → PoolWorld → Prop where
  -- `dial` goes straight to `connect`, `dial_pooled` looks into the pool first
  | began (a : PoolAction) (key : PoolKey) (i : Intent) (pc : DialPc)
      (hpc : pc = .connect ∨ pc = .lookup) :
      PoolStep w a { w with
        calls := w.calls.insert w.nextId ⟨key, i, pc⟩
        nextId := w.nextId + 1 }
  -- the lookup removes what closed of the source side, hit or miss
  | found (k : Nat) (io : Bool) (call : DialCall) (c : ConnId)
      (hcall : w.calls k = some call) (hpc : call.pc = .lookup)
      (hpool : w.pool call.key = some c) :
      PoolStep w (.call k io)
        ({ w with pool := w.sweep call.key.sourceSide }.goTo k call
          (.opening c))
  | missing (k : Nat) (io : Bool) (call : DialCall)
      (hcall : w.calls k = some call) (hpc : call.pc = .lookup) :
      PoolStep w (.call k io)
        ({ w with pool := w.sweep call.key.sourceSide }.goTo k call .connect)
  | stale (k : Nat) (io : Bool) (call : DialCall)
      (hcall : w.calls k = some call) :
      PoolStep w (.call k io) (w.goTo k call .invalidate)
  | helloSent (k : Nat) (io : Bool) (call : DialCall) (c : ConnId)
      (conn : Conn) (hcall : w.calls k = some call)
      (hpc : call.pc = .opening c) (hconn : w.conns c = some conn)
      (hopen : conn.closed = false) :
      PoolStep w (.call k io) ((w.setConn c { conn with
        streams := conn.streams ++ [.hello k call.intent] }).goTo k call
          (.handshake c (.cached conn.running)))
  | invalidated (k : Nat) (io : Bool) (call : DialCall)
      (hcall : w.calls k = some call) :
      PoolStep w (.call k io)
        ({ w with pool := w.pool.erase call.key }.goTo k call .connect)
  | connected (k : Nat) (io : Bool) (call : DialCall)
      (hcall : w.calls k = some call) :
      PoolStep w (.call k io)
        ({ w with
            conns := w.conns.insert w.nextId (.opened k call.intent)
            nextId := w.nextId + 1 }.goTo k call
              (.handshake w.nextId .fresh))
  | gaveUp (k : Nat) (io : Bool) :
      PoolStep w (.call k io) { w with calls := w.calls.erase k }
  -- any failure on a pooled connection makes the call dial afresh
  | fellBack (k : Nat) (io : Bool) (call : DialCall) (c : ConnId)
      (running : Bool) (hcall : w.calls k = some call)
      (hpc : call.pc = .handshake c (.cached running)) :
      PoolStep w (.call k io)
        ({ w with fellBack := w.fellBack ++ [(c, running)] }.goTo k call
          .invalidate)
  | confirmed (k : Nat) (io : Bool) (call : DialCall) (c : ConnId)
      (conn : Conn) (hcall : w.calls k = some call)
      (hpc : call.pc = .handshake c .fresh)
      (hconn : w.conns c = some conn) (hback : conn.helloBack = some k) :
      PoolStep w (.call k io)
        ((w.setConn c { conn with confirm := some k }).goTo k call
          (.insert c))
  | reused (k : Nat) (io : Bool) (call : DialCall) (c : ConnId)
      (conn : Conn) (running : Bool) (hcall : w.calls k = some call)
      (hpc : call.pc = .handshake c (.cached running))
      (hconn : w.conns c = some conn) (hback : conn.helloBack = some k) :
      PoolStep w (.call k io)
        ((w.setConn c { conn with confirm := some k }).returned k call c)
  | inserted (k : Nat) (io : Bool) (call : DialCall) (c : ConnId)
      (hcall : w.calls k = some call) (hpc : call.pc = .insert c) :
      PoolStep w (.call k io)
        ({ w with pool := w.pool.insert call.key c }.returned k call c)
  -- a send on a closed connection, or of a type the intent does not accept
  | ignored (a : PoolAction) : PoolStep w a w
  | sent (n : Nat) (mt : MessageType) (s : DialedSession) (conn : Conn)
      (hs : s ∈ w.sessions) (hconn : w.conns s.conn = some conn)
      (haccepts : s.intent.accepts mt = true) :
      PoolStep w (.send n mt) (w.setConn s.conn { conn with
        streams := conn.streams ++ [⟨mt, .message⟩] })
  | tasked (c : ConnId) (io : Bool) (conn conn' : Conn)
      (hconn : w.conns c = some conn)
      (htask : conn.taskStep io = some conn') :
      PoolStep w (.task c io) (w.setConn c conn')
  | closed (c : ConnId) (conn : Conn) (hconn : w.conns c = some conn) :
      PoolStep w (.close c) (w.setConn c { conn with closed := true })
  | hungUp (c : ConnId) (conn : Conn) (hconn : w.conns c = some conn) :
      PoolStep w (.hangUp c)
        (w.setConn c { conn with task := .ended .closed })

/-- What a call does next is decided by where it stands and by what it finds
in the pool and on its connection. -/
theorem callStep_cases {k : Nat} {io : Bool} {call : DialCall}
    (hcall : w.calls k = some call)
    (h : w.callStep k io call = some w') : PoolStep w (.call k io) w' := by
  unfold PoolWorld.callStep at h
  split at h
  case h_1 hpc =>
    dsimp only at h
    split at h
    case h_1 c hget =>
      injection h with h
      subst h
      exact .found k io call c hcall hpc (Option.filter_eq_some_iff.mp hget).1
    case h_2 =>
      injection h with h
      subst h
      exact .missing k io call hcall hpc
  case h_2 c hpc =>
    split at h
    case h_1 => cases h
    case h_2 conn hconn =>
      split at h
      case isTrue =>
        injection h with h
        subst h
        exact .stale k io call hcall
      case isFalse hopen =>
        injection h with h
        subst h
        exact .helloSent k io call c conn hcall hpc hconn (by simpa using hopen)
  case h_3 =>
    injection h with h
    subst h
    exact .invalidated k io call hcall
  case h_4 =>
    split at h
    case isTrue =>
      injection h with h
      subst h
      exact .connected k io call hcall
    case isFalse =>
      injection h with h
      subst h
      exact .gaveUp k io
  case h_5 c attempt hpc =>
    split at h
    case h_1 =>
      injection h with h
      subst h
      exact .gaveUp k _
    case h_2 running =>
      injection h with h
      subst h
      exact .fellBack k _ call c running hcall hpc
    case h_3 attempt =>
      split at h
      case h_1 => cases h
      case h_2 conn hconn =>
        split at h
        case isFalse => cases h
        case isTrue hback =>
          dsimp only at h
          split at h
          case h_1 =>
            injection h with h
            subst h
            exact .confirmed k _ call c conn hcall hpc hconn hback
          case h_2 running =>
            injection h with h
            subst h
            exact .reused k _ call c conn running hcall hpc hconn hback
  case h_6 c hpc =>
    injection h with h
    subst h
    exact .inserted k io call c hcall hpc

/-- Every action that is possible is one of the steps. -/
theorem poolStep_cases {a : PoolAction} (h : poolStep w a = some w') :
    PoolStep w a w' := by
  cases a with
  | dial key i =>
      injection h with h
      subst h
      exact .began _ key i .connect (.inl rfl)
  | dialPooled key i =>
      injection h with h
      subst h
      exact .began _ key i .lookup (.inr rfl)
  | call k io =>
      simp only [poolStep] at h
      split at h
      case h_1 => cases h
      case h_2 call hcall => exact callStep_cases hcall h
  | send n mt =>
      simp only [poolStep] at h
      split at h
      case h_1 => cases h
      case h_2 s hs =>
        split at h
        case h_1 => cases h
        case h_2 conn hconn =>
          split at h
          case isTrue =>
            injection h with h
            subst h
            exact .ignored _
          case isFalse hsends =>
            injection h with h
            subst h
            simp only [Bool.or_eq_true, Bool.not_eq_true', not_or,
              Bool.not_eq_false] at hsends
            exact .sent n mt s conn (List.mem_of_getElem? hs) hconn hsends.1
  | task c io =>
      simp only [poolStep] at h
      split at h
      case h_1 => cases h
      case h_2 conn hconn =>
        obtain ⟨conn', htask, rfl⟩ := Option.map_eq_some_iff.mp h
        exact .tasked c io conn conn' hconn htask
  | close c =>
      simp only [poolStep] at h
      split at h
      case h_1 => cases h
      case h_2 conn hconn =>
        injection h with h
        subst h
        exact .closed c conn hconn
  | hangUp c =>
      simp only [poolStep] at h
      split at h
      case h_1 => cases h
      case h_2 conn hconn =>
        split at h
        case isFalse => cases h
        case isTrue =>
          injection h with h
          subst h
          exact .hungUp c conn hconn

/-- Where a call stands after a step, and how it got there. -/
inductive CallMoved (w w' : PoolWorld) (a : PoolAction) (k : Nat)
    (call' : DialCall) : Prop where
  | same (hcall : w.calls k = some call')
  -- it holds no connection here
  | waits (hpc : call'.pc = .connect ∨ call'.pc = .lookup
      ∨ call'.pc = .invalidate)
  | opening (c : ConnId) (key : PoolKey) (call : DialCall)
      (hcall : w.calls k = some call) (hpool : w.pool key = some c)
      (hpc : call'.pc = .opening c)
  | cached (c : ConnId) (conn : Conn) (call : DialCall)
      (ha : ∃ io, a = .call k io) (hcall : w.calls k = some call)
      (hfrom : call.pc = .opening c) (hconn : w.conns c = some conn)
      (hopen : conn.closed = false)
      (hpc : call'.pc = .handshake c (.cached conn.running))
  | connected (hpc : call'.pc = .handshake w.nextId .fresh)
      (hconn : w'.conns w.nextId = some (.opened k call'.intent))
  | confirmed (c : ConnId) (conn : Conn) (call : DialCall)
      (hcall : w.calls k = some call)
      (hfrom : call.pc = .handshake c .fresh)
      (hintent : call'.intent = call.intent)
      (hold : w.conns c = some conn)
      (hconn : w'.conns c = some { conn with confirm := some k })
      (hpc : call'.pc = .insert c)

/-- A call there is after a step stood where it stands, or was put there by
the step: in the pool's keyed tables only the call that steps changes. -/
theorem calls_step {a : PoolAction} (h : PoolStep w a w') {k : Nat}
    {call' : DialCall} (hk : w'.calls k = some call') :
    CallMoved w w' a k call' := by
  -- in each case: the call that stepped, or one the step left alone
  cases h with
  | began a key i pc hpc =>
      rcases (Table.insert_eq_some_iff _).mp hk with ⟨-, rfl⟩ | ⟨-, hk⟩
      · rcases hpc with hpc | hpc
        · exact .waits (.inl hpc)
        · exact .waits (.inr (.inl hpc))
      · exact .same hk
  | found k' io call c hcall hpc hpool =>
      rcases (Table.insert_eq_some_iff _).mp hk with ⟨rfl, rfl⟩ | ⟨-, hk⟩
      · exact .opening c call.key call hcall hpool rfl
      · exact .same hk
  | missing k' io call hcall hpc =>
      rcases (Table.insert_eq_some_iff _).mp hk with ⟨-, rfl⟩ | ⟨-, hk⟩
      · exact .waits (.inl rfl)
      · exact .same hk
  | stale k' io call hcall =>
      rcases (Table.insert_eq_some_iff _).mp hk with ⟨-, rfl⟩ | ⟨-, hk⟩
      · exact .waits (.inr (.inr rfl))
      · exact .same hk
  | helloSent k' io call c conn hcall hpc hconn hopen =>
      rcases (Table.insert_eq_some_iff _).mp hk with ⟨rfl, rfl⟩ | ⟨-, hk⟩
      · exact .cached c conn call ⟨io, rfl⟩ hcall hpc hconn hopen rfl
      · exact .same hk
  | invalidated k' io call hcall =>
      rcases (Table.insert_eq_some_iff _).mp hk with ⟨-, rfl⟩ | ⟨-, hk⟩
      · exact .waits (.inl rfl)
      · exact .same hk
  | connected k' io call hcall =>
      rcases (Table.insert_eq_some_iff _).mp hk with ⟨rfl, rfl⟩ | ⟨-, hk⟩
      · exact .connected rfl (Table.insert_self ..)
      · exact .same hk
  | gaveUp k' io =>
      exact .same ((Table.erase_eq_some_iff _).mp hk).2
  | fellBack k' io call c running hcall hpc =>
      rcases (Table.insert_eq_some_iff _).mp hk with ⟨-, rfl⟩ | ⟨-, hk⟩
      · exact .waits (.inr (.inr rfl))
      · exact .same hk
  | confirmed k' io call c conn hcall hpc hconn hback =>
      rcases (Table.insert_eq_some_iff _).mp hk with ⟨rfl, rfl⟩ | ⟨-, hk⟩
      · exact .confirmed c conn call hcall hpc rfl hconn
          (Table.insert_self ..) rfl
      · exact .same hk
  | reused k' io call c conn running hcall hpc hconn hback =>
      exact .same ((Table.erase_eq_some_iff _).mp hk).2
  | inserted k' io call c hcall hpc =>
      exact .same ((Table.erase_eq_some_iff _).mp hk).2
  | _ => exact .same hk

/-- Where a connection stands after a step, and how it got there. -/
inductive ConnMoved (w w' : PoolWorld) (a : PoolAction) (c : ConnId) :
    Conn → Prop where
  | same (conn : Conn) (hconn : w.conns c = some conn) :
      ConnMoved w w' a c conn
  | opened (k : Nat) (i : Intent) (hc : c = w.nextId)
      (hid : w'.nextId = w.nextId + 1) (hcall : w.calls k ≠ none) :
      ConnMoved w w' a c (.opened k i)
  | hello (k : Nat) (call : DialCall) (conn : Conn)
      (ha : ∃ io, a = .call k io) (hcall : w.calls k = some call)
      (hpc : call.pc = .opening c) (hconn : w.conns c = some conn)
      (hopen : conn.closed = false) :
      ConnMoved w w' a c { conn with
        streams := conn.streams ++ [.hello k call.intent] }
  | confirmed (k : Nat) (conn : Conn) (hconn : w.conns c = some conn)
      (hback : conn.helloBack = some k) :
      ConnMoved w w' a c { conn with confirm := some k }
  | sent (s : DialedSession) (mt : MessageType) (conn : Conn)
      (hs : s ∈ w.sessions) (hsc : s.conn = c)
      (hconn : w.conns c = some conn) (haccepts : s.intent.accepts mt = true) :
      ConnMoved w w' a c { conn with
        streams := conn.streams ++ [⟨mt, .message⟩] }
  | tasked (io : Bool) (conn conn' : Conn) (hconn : w.conns c = some conn)
      (htask : conn.taskStep io = some conn') : ConnMoved w w' a c conn'
  | closed (conn : Conn) (hconn : w.conns c = some conn) :
      ConnMoved w w' a c { conn with closed := true }
  | hungUp (conn : Conn) (hconn : w.conns c = some conn) :
      ConnMoved w w' a c { conn with task := .ended .closed }

/-- A connection there is after a step was as it is, or the step changed
it. -/
theorem conns_step {a : PoolAction} (h : PoolStep w a w') {c : ConnId}
    {conn' : Conn} (hc : w'.conns c = some conn') :
    ConnMoved w w' a c conn' := by
  cases h with
  | helloSent k io call c' conn hcall hpc hconn hopen =>
      rcases (Table.insert_eq_some_iff _).mp hc with ⟨rfl, rfl⟩ | ⟨-, hc⟩
      · exact .hello k call conn ⟨io, rfl⟩ hcall hpc hconn hopen
      · exact .same _ hc
  | connected k io call hcall =>
      rcases (Table.insert_eq_some_iff _).mp hc with ⟨rfl, rfl⟩ | ⟨-, hc⟩
      · exact .opened k call.intent rfl rfl (hcall ▸ Option.some_ne_none _)
      · exact .same _ hc
  | confirmed k io call c' conn hcall hpc hconn hback =>
      rcases (Table.insert_eq_some_iff _).mp hc with ⟨rfl, rfl⟩ | ⟨-, hc⟩
      · exact .confirmed k conn hconn hback
      · exact .same _ hc
  | reused k io call c' conn running hcall hpc hconn hback =>
      rcases (Table.insert_eq_some_iff _).mp hc with ⟨rfl, rfl⟩ | ⟨-, hc⟩
      · exact .confirmed k conn hconn hback
      · exact .same _ hc
  | sent n mt s conn hs hconn haccepts =>
      rcases (Table.insert_eq_some_iff _).mp hc with ⟨rfl, rfl⟩ | ⟨-, hc⟩
      · exact .sent s mt conn hs rfl hconn haccepts
      · exact .same _ hc
  | tasked c' io conn conn'' hconn htask =>
      rcases (Table.insert_eq_some_iff _).mp hc with ⟨rfl, rfl⟩ | ⟨-, hc⟩
      · exact .tasked io conn conn'' hconn htask
      · exact .same _ hc
  | closed c' conn hconn =>
      rcases (Table.insert_eq_some_iff _).mp hc with ⟨rfl, rfl⟩ | ⟨-, hc⟩
      · exact .closed conn hconn
      · exact .same _ hc
  | hungUp c' conn hconn =>
      rcases (Table.insert_eq_some_iff _).mp hc with ⟨rfl, rfl⟩ | ⟨-, hc⟩
      · exact .hungUp conn hconn
      · exact .same _ hc
  | _ => exact .same _ hc

-- ================================================ what stays the same

/-- What stays with a connection. -/
structure ConnKept (conn conn' : Conn) : Prop where
  opener : conn'.opener = conn.opener
  «intent» : conn'.intent = conn.intent
  confirm : conn.confirm ≠ none → conn'.confirm ≠ none
  ended : conn.running = false → conn'.running = false

/-- Nothing happened to it. -/
theorem ConnKept.rfl {conn : Conn} : ConnKept conn conn :=
  ⟨Eq.refl _, Eq.refl _, id, id⟩

/-- What a task's step does. -/
inductive TaskMoved (conn : Conn) : Conn → Prop where
  | answered (mt : MessageType) (call : Nat) (i : Intent) (rest : List Stream)
      (htask : conn.task = .accepting)
      (hstreams : conn.streams = ⟨mt, .hello call i⟩ :: rest) :
      TaskMoved conn { conn with
        task := .confirming call i, streams := rest, helloBack := some call }
  | dispatched (call : Nat) (i : Intent)
      (htask : conn.task = .confirming call i) :
      TaskMoved conn { conn with task := Conn.dispatch i }
  | refused (i : Intent) (s : Stream) (rest : List Stream)
      (e : Net.Error)
      (htask : conn.task = .serving i) (hstreams : conn.streams = s :: rest)
      (hrefused : acceptOne i s.messageType = .error e) :
      TaskMoved conn { conn with
        task := .ended (.wrongIntent s.messageType.byte), streams := rest }
  | served (i : Intent) (s : Stream) (rest : List Stream)
      (htask : conn.task = .serving i)
      (hstreams : conn.streams = s :: rest) :
      TaskMoved conn { conn with streams := rest }
  | failed (rest : List Stream) (hrunning : conn.running = true) :
      TaskMoved conn { conn with task := .ended .failed, streams := rest }

/-- A task moves by taking the next stream off its connection, or ends. -/
theorem taskStep_cases {conn conn' : Conn} {io : Bool}
    (h : conn.taskStep io = some conn') : TaskMoved conn conn' := by
  unfold Conn.taskStep at h
  split at h
  case h_1 htask =>
    have hrunning : conn.running = true := by simp [Conn.running, htask]
    split at h
    case h_1 =>
      injection h with h
      subst h
      exact .failed conn.streams hrunning
    case h_2 mt call i rest hstreams =>
      injection h with h
      subst h
      exact .answered mt call i rest htask hstreams
    case h_3 rest _ =>
      injection h with h
      subst h
      exact .failed rest hrunning
    case h_4 => cases h
  case h_2 call i htask =>
    split at h
    case isTrue =>
      injection h with h
      subst h
      exact .failed conn.streams (by simp [Conn.running, htask])
    case isFalse =>
      split at h
      case isFalse => cases h
      case isTrue =>
        injection h with h
        subst h
        exact .dispatched call i htask
  case h_3 i htask =>
    split at h
    case h_1 => cases h
    case h_2 s rest hstreams =>
      split at h
      case h_1 e hrefused =>
        injection h with h
        subst h
        exact .refused i s rest e htask hstreams hrefused
      case h_2 =>
        injection h with h
        subst h
        cases io with
        | true => exact htask ▸ .served i s rest htask hstreams
        | false => exact .failed rest (by simp [Conn.running, htask])
  case h_4 => cases h

/-- The task neither changes who opened the connection nor takes back a
confirmation, and one that ended stays so. -/
theorem TaskMoved.kept {conn conn' : Conn} (h : TaskMoved conn conn') :
    ConnKept conn conn' := by
  cases h with
  | answered mt call i rest htask hstreams =>
      refine ⟨rfl, rfl, id, fun he => ?_⟩
      simp [Conn.running, htask] at he
  | dispatched call i htask =>
      refine ⟨rfl, rfl, id, fun he => ?_⟩
      simp [Conn.running, htask] at he
  | refused i s rest e htask hstreams hrefused =>
      exact ⟨rfl, rfl, id, fun _ => rfl⟩
  | served i s rest htask hstreams => exact ⟨rfl, rfl, id, id⟩
  | failed rest hrunning => exact ⟨rfl, rfl, id, fun _ => rfl⟩

/-- One connection is written, the others are not touched. -/
theorem insert_kept {conns : Table ConnId Conn} {c₀ c : ConnId}
    {conn₀ conn₀' conn : Conn} (h₀ : conns c₀ = some conn₀)
    (hkept : ConnKept conn₀ conn₀') (hc : conns c = some conn) :
    ∃ conn', conns.insert c₀ conn₀' c = some conn' ∧ ConnKept conn conn' := by
  by_cases heq : c = c₀
  · subst heq
    obtain rfl : conn₀ = conn := by
      rw [h₀] at hc
      injection hc
    exact ⟨conn₀', Table.insert_self .., hkept⟩
  · exact ⟨conn, (Table.insert_of_ne _ _ heq).trans hc, .rfl⟩

/-- A connection is never replaced, only moved on. -/
theorem conns_kept {a : PoolAction} (h : PoolStep w a w')
    (hfresh : w.conns w.nextId = none) {c : ConnId} {conn : Conn}
    (hc : w.conns c = some conn) :
    ∃ conn', w'.conns c = some conn' ∧ ConnKept conn conn' := by
  cases h with
  | helloSent k io call c' conn hcall hpc hconn hopen =>
      exact insert_kept hconn ⟨rfl, rfl, id, id⟩ hc
  | connected k io call hcall =>
      -- the new connection has a number that none had
      have hne : c ≠ w.nextId := by
        intro heq
        rw [heq, hfresh] at hc
        cases hc
      exact ⟨conn, (Table.insert_of_ne _ _ hne).trans hc, .rfl⟩
  | confirmed k io call c' conn hcall hpc hconn hback =>
      exact insert_kept hconn ⟨rfl, rfl, fun _ => nofun, id⟩ hc
  | reused k io call c' conn running hcall hpc hconn hback =>
      exact insert_kept hconn ⟨rfl, rfl, fun _ => nofun, id⟩ hc
  | sent n mt s conn hs hconn haccepts =>
      exact insert_kept hconn ⟨rfl, rfl, id, id⟩ hc
  | tasked c' io conn conn'' hconn htask =>
      exact insert_kept hconn (taskStep_cases htask).kept hc
  | closed c' conn hconn =>
      exact insert_kept hconn ⟨rfl, rfl, id, id⟩ hc
  | hungUp c' conn hconn =>
      exact insert_kept hconn ⟨rfl, rfl, id, fun _ => rfl⟩ hc
  | _ => exact ⟨conn, hc, .rfl⟩

end Sidevers.Proofs
