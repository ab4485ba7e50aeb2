/-
What a pooled dial does to the sessions a connection already carries
(`Net.Pool`).

# The argument

A connection's task reads one Hello. A second one, sent on a connection
whose task serves a session, is a message type no intent accepts: the
session's loop ends. `PooledOk` keeps every Hello off a connection with a
running task; then whatever is queued on a running one is what its own
session sent (`QuietConn`), and the loop accepts it.

`HelloBack`s go to the first Hello only, so the handshake on a cached
connection completes in no run (`cached_unanswered`).
-/
import Sidevers.Proofs.PoolSteps

namespace Sidevers.Proofs

open Sidevers.Core
open Sidevers.Lib
open Sidevers.Net

variable {w w' : PoolWorld}

-- ================================================= one Hello answered

/-- A task waits for the Hello of the call that opened the connection, and
answers no other. -/
structure FirstHello (conn : Conn) : Prop where
  queued : conn.task = .accepting →
    ∃ rest, conn.streams = .hello conn.opener conn.intent :: rest
  answered : ∀ k, conn.helloBack = some k → k = conn.opener

theorem TaskMoved.firstHello {conn conn' : Conn} (h : TaskMoved conn conn')
    (hfirst : FirstHello conn) : FirstHello conn' := by
  cases h with
  | answered mt call i rest htask hstreams =>
      obtain ⟨rest', hqueued⟩ := hfirst.queued htask
      refine ⟨nofun, fun k hk => ?_⟩
      injection hk with hk
      rw [hstreams] at hqueued
      injection hqueued with hhello
      injection hhello with _ hhello
      injection hhello with hcall _
      exact hk.symm.trans hcall
  | dispatched call i htask =>
      refine ⟨fun haccepting => ?_, hfirst.answered⟩
      change Conn.dispatch i = .accepting at haccepting
      cases i <;> cases haccepting
  | refused i s rest e htask hstreams hrefused =>
      exact ⟨nofun, hfirst.answered⟩
  | served i s rest htask hstreams =>
      refine ⟨fun haccepting => ?_, hfirst.answered⟩
      change conn.task = .accepting at haccepting
      rw [htask] at haccepting
      cases haccepting
  | failed rest hrunning => exact ⟨nofun, hfirst.answered⟩

/-- Appending to the queue leaves its head. -/
theorem FirstHello.push {conn : Conn} (h : FirstHello conn) (s : Stream) :
    FirstHello { conn with streams := conn.streams ++ [s] } := by
  refine ⟨fun haccepting => ?_, h.answered⟩
  obtain ⟨rest, hrest⟩ := h.queued haccepting
  exact ⟨rest ++ [s], by rw [hrest]; rfl⟩

/-- What holds of every state, whatever the calls. -/
structure PoolInv (w : PoolWorld) : Prop where
  fresh : ∀ n, w.nextId ≤ n → w.conns n = none ∧ w.calls n = none
  conns : ∀ c conn, w.conns c = some conn →
    FirstHello conn ∧ conn.opener < w.nextId
  pool : ∀ key c, w.pool key = some c →
    ∃ conn, w.conns c = some conn ∧ w.calls conn.opener = none
  /-- A call reuses a connection that another call opened. -/
  reuses : ∀ k call c, w.calls k = some call →
    (call.pc = .opening c ∨ ∃ r, call.pc = .handshake c (.cached r)) →
    ∃ conn, w.conns c = some conn ∧ conn.opener ≠ k
  opens : ∀ k call c, w.calls k = some call →
    (call.pc = .handshake c .fresh ∨ call.pc = .insert c) →
    ∃ conn, w.conns c = some conn ∧ conn.opener = k

theorem nextId_step {a : PoolAction} (h : PoolStep w a w') :
    w.nextId ≤ w'.nextId := by
  cases h with
  | began a key i pc hpc => exact Nat.le_succ _
  | connected k io call hcall => exact Nat.le_succ _
  | _ => exact Nat.le_refl _

theorem insert_known {V : Type} {t : Table Nat V} {k k' : Nat} {v v' : V}
    (hk' : t k' = some v) (hk : t k = none) : t.insert k' v' k = none := by
  have hne : k ≠ k' := by
    intro heq
    rw [heq, hk'] at hk
    cases hk
  rw [Table.insert_of_ne _ _ hne, hk]

theorem erase_known {V : Type} {t : Table Nat V} {k k' : Nat}
    (hk : t k = none) : t.erase k' k = none := by
  rw [Table.erase_apply, hk]
  exact ite_self _

/-- A call or a connection that is not there does not appear under an old
number. -/
theorem calls_none_step {a : PoolAction} (h : PoolStep w a w') {k : Nat}
    (hk : w.calls k = none) (hne : k < w.nextId ∨ w'.nextId ≤ k) :
    w'.calls k = none := by
  cases h with
  | began a key i pc hpc =>
      have hne : k ≠ w.nextId := by
        rcases hne with hlt | hle
        · exact Nat.ne_of_lt hlt
        · exact Nat.ne_of_gt hle
      exact (Table.insert_of_ne _ _ hne).trans hk
  | found k' io call c hcall hpc hpool => exact insert_known hcall hk
  | missing k' io call hcall hpc => exact insert_known hcall hk
  | stale k' io call hcall => exact insert_known hcall hk
  | helloSent k' io call c conn hcall hpc hconn hopen =>
      exact insert_known hcall hk
  | invalidated k' io call hcall => exact insert_known hcall hk
  | connected k' io call hcall => exact insert_known hcall hk
  | gaveUp k' io => exact erase_known hk
  | fellBack k' io call c running hcall hpc => exact insert_known hcall hk
  | confirmed k' io call c conn hcall hpc hconn hback =>
      exact insert_known hcall hk
  | reused k' io call c conn running hcall hpc hconn hback =>
      exact erase_known hk
  | inserted k' io call c hcall hpc => exact erase_known hk
  | _ => exact hk

theorem conns_none_step {a : PoolAction} (h : PoolStep w a w') {c : ConnId}
    (hc : w.conns c = none) (hne : w'.nextId ≤ c) : w'.conns c = none := by
  cases hc' : w'.conns c with
  | none => rfl
  | some conn' =>
      have hknown : ∀ conn, w.conns c ≠ some conn := fun _ =>
        hc ▸ (Option.some_ne_none _).symm
      cases conns_step h hc' with
      | same conn hconn => exact absurd hconn (hknown _)
      | opened k i hid hnext hcall =>
          rw [hnext, hid] at hne
          exact absurd hne (Nat.not_succ_le_self _)
      | hello k call conn ha hcall hpc hconn hopen =>
          exact absurd hconn (hknown _)
      | confirmed k conn hconn hback => exact absurd hconn (hknown _)
      | sent s mt conn hs hsc hconn haccepts =>
          exact absurd hconn (hknown _)
      | tasked io conn conn' hconn htask => exact absurd hconn (hknown _)
      | closed conn hconn => exact absurd hconn (hknown _)
      | hungUp conn hconn => exact absurd hconn (hknown _)

theorem firstHello_step {a : PoolAction} (h : PoolInv w)
    (hstep : PoolStep w a w') : ∀ c conn, w'.conns c = some conn →
      FirstHello conn ∧ conn.opener < w'.nextId := by
  intro c conn' hc
  have hle := nextId_step hstep
  cases conns_step hstep hc with
  | same conn hconn =>
      obtain ⟨hfirst, hlt⟩ := h.conns c _ hconn
      exact ⟨hfirst, Nat.lt_of_lt_of_le hlt hle⟩
  | opened k i hid hnext hcall =>
      refine ⟨⟨fun _ => ⟨[], rfl⟩, nofun⟩, ?_⟩
      refine Nat.lt_of_not_le fun hk => hcall ?_
      exact (h.fresh k (Nat.le_trans hle hk)).2
  | hello k call conn ha hcall hpc hconn hopen =>
      obtain ⟨hfirst, hlt⟩ := h.conns c _ hconn
      exact ⟨hfirst.push _, Nat.lt_of_lt_of_le hlt hle⟩
  | confirmed k conn hconn hback =>
      obtain ⟨hfirst, hlt⟩ := h.conns c _ hconn
      exact ⟨⟨hfirst.queued, hfirst.answered⟩, Nat.lt_of_lt_of_le hlt hle⟩
  | sent s mt conn hs hsc hconn haccepts =>
      obtain ⟨hfirst, hlt⟩ := h.conns c _ hconn
      exact ⟨hfirst.push _, Nat.lt_of_lt_of_le hlt hle⟩
  | tasked io conn conn' hconn htask =>
      obtain ⟨hfirst, hlt⟩ := h.conns c _ hconn
      have hmoved := taskStep_cases htask
      exact ⟨hmoved.firstHello hfirst,
        hmoved.kept.opener ▸ Nat.lt_of_lt_of_le hlt hle⟩
  | closed conn hconn =>
      obtain ⟨hfirst, hlt⟩ := h.conns c _ hconn
      exact ⟨⟨hfirst.queued, hfirst.answered⟩, Nat.lt_of_lt_of_le hlt hle⟩
  | hungUp conn hconn =>
      obtain ⟨hfirst, hlt⟩ := h.conns c _ hconn
      exact ⟨⟨nofun, hfirst.answered⟩, Nat.lt_of_lt_of_le hlt hle⟩

/-- The opener of a connection in the pool has returned. -/
theorem pool_step {a : PoolAction} (h : PoolInv w)
    (hstep : PoolStep w a w') : ∀ key c, w'.pool key = some c →
      ∃ conn, w'.conns c = some conn ∧ w'.calls conn.opener = none := by
  have old : ∀ key c, w.pool key = some c →
      ∃ conn, w'.conns c = some conn ∧ w'.calls conn.opener = none := by
    intro key c hc
    obtain ⟨conn, hconn, hopener⟩ := h.pool key c hc
    obtain ⟨conn', hconn', hkept⟩ :=
      conns_kept hstep (h.fresh _ (Nat.le_refl _)).1 hconn
    refine ⟨conn', hconn', hkept.opener ▸ ?_⟩
    exact calls_none_step hstep hopener (.inl (h.conns c conn hconn).2)
  cases hstep with
  | found k io call c hcall hpc hpool =>
      exact fun key c' hc' => old key c' (Option.filter_eq_some_iff.mp hc').1
  | missing k io call hcall hpc =>
      exact fun key c' hc' => old key c' (Option.filter_eq_some_iff.mp hc').1
  | invalidated k io call hcall =>
      exact fun key c' hc' =>
        old key c' ((Table.erase_eq_some_iff _).mp hc').2
  | inserted k io call c hcall hpc =>
      intro key c' hc'
      rcases (Table.insert_eq_some_iff _).mp hc' with ⟨rfl, rfl⟩ | ⟨-, hc'⟩
      · obtain ⟨conn, hconn, hopener⟩ := h.opens k call c hcall (.inr hpc)
        exact ⟨conn, hconn, hopener ▸ Table.erase_self ..⟩
      · exact old key c' hc'
  | _ => exact old

theorem reuses_step {a : PoolAction} (h : PoolInv w)
    (hstep : PoolStep w a w') : ∀ k call c, w'.calls k = some call →
      (call.pc = .opening c ∨ ∃ r, call.pc = .handshake c (.cached r)) →
      ∃ conn, w'.conns c = some conn ∧ conn.opener ≠ k := by
  intro k call' c hcall' hpc'
  have old : (∃ conn, w.conns c = some conn ∧ conn.opener ≠ k) →
      ∃ conn, w'.conns c = some conn ∧ conn.opener ≠ k := by
    rintro ⟨conn, hconn, hne⟩
    obtain ⟨conn', hconn', hkept⟩ :=
      conns_kept hstep (h.fresh _ (Nat.le_refl _)).1 hconn
    exact ⟨conn', hconn', hkept.opener ▸ hne⟩
  cases calls_step hstep hcall' with
  | same hcall => exact old (h.reuses k call' c hcall hpc')
  | waits hpc =>
      rcases hpc with hpc | hpc | hpc <;> simp [hpc] at hpc'
  | opening c' key call hcall hpool hpc =>
      simp only [hpc, DialPc.opening.injEq, reduceCtorEq, exists_false,
        or_false] at hpc'
      subst hpc'
      refine old ?_
      obtain ⟨conn, hconn, hopener⟩ := h.pool key c' hpool
      refine ⟨conn, hconn, fun heq => ?_⟩
      rw [heq, hcall] at hopener
      cases hopener
  | cached c' conn call ha hcall hfrom hconn hopen hpc =>
      simp only [hpc, DialPc.handshake.injEq, reduceCtorEq, false_or,
        exists_and_left] at hpc'
      obtain ⟨rfl, -⟩ := hpc'
      exact old (h.reuses k call c' hcall (.inl hfrom))
  | connected hpc hconn => simp [hpc] at hpc'
  | confirmed c' conn call hcall hfrom hintent hold hconn hpc =>
      simp [hpc] at hpc'

theorem opens_step {a : PoolAction} (h : PoolInv w)
    (hstep : PoolStep w a w') : ∀ k call c, w'.calls k = some call →
      (call.pc = .handshake c .fresh ∨ call.pc = .insert c) →
      ∃ conn, w'.conns c = some conn ∧ conn.opener = k := by
  intro k call' c hcall' hpc'
  have old : (∃ conn, w.conns c = some conn ∧ conn.opener = k) →
      ∃ conn, w'.conns c = some conn ∧ conn.opener = k := by
    rintro ⟨conn, hconn, heq⟩
    obtain ⟨conn', hconn', hkept⟩ :=
      conns_kept hstep (h.fresh _ (Nat.le_refl _)).1 hconn
    exact ⟨conn', hconn', hkept.opener.trans heq⟩
  cases calls_step hstep hcall' with
  | same hcall => exact old (h.opens k call' c hcall hpc')
  | waits hpc =>
      rcases hpc with hpc | hpc | hpc <;> simp [hpc] at hpc'
  | opening c' key call hcall hpool hpc => simp [hpc] at hpc'
  | cached c' conn call ha hcall hfrom hconn hopen hpc =>
      simp [hpc] at hpc'
  | connected hpc hconn =>
      simp only [hpc, DialPc.handshake.injEq, and_true, reduceCtorEq,
        or_false] at hpc'
      subst hpc'
      exact ⟨_, hconn, rfl⟩
  | confirmed c' conn call hcall hfrom hintent hold hconn hpc =>
      simp only [hpc, DialPc.insert.injEq, reduceCtorEq, false_or] at hpc'
      subst hpc'
      exact old (h.opens k call c' hcall (.inl hfrom))

theorem poolInv_step {a : PoolAction} (h : PoolInv w)
    (hstep : PoolStep w a w') : PoolInv w' where
  fresh := fun n hn => by
    obtain ⟨hconns, hcalls⟩ := h.fresh n (Nat.le_trans (nextId_step hstep) hn)
    exact ⟨conns_none_step hstep hconns hn,
      calls_none_step hstep hcalls (.inr hn)⟩
  conns := firstHello_step h hstep
  pool := pool_step h hstep
  reuses := reuses_step h hstep
  opens := opens_step h hstep

theorem poolInv_init : PoolInv .init where
  fresh := fun _ _ => ⟨rfl, rfl⟩
  conns := fun _ _ h => absurd h.symm (Option.some_ne_none _)
  pool := fun _ _ h => absurd h.symm (Option.some_ne_none _)
  reuses := fun _ _ _ h => absurd h.symm (Option.some_ne_none _)
  opens := fun _ _ _ h => absurd h.symm (Option.some_ne_none _)

/-- A handshake on a cached connection is never answered. -/
theorem cached_unanswered (h : PoolInv w) {k : Nat} {call : DialCall}
    {c : ConnId} {r : Bool} {conn : Conn} (hcall : w.calls k = some call)
    (hpc : call.pc = .handshake c (.cached r))
    (hconn : w.conns c = some conn) : conn.helloBack ≠ some k := by
  intro hback
  obtain ⟨conn', hconn', hne⟩ := h.reuses k call c hcall (.inr ⟨r, hpc⟩)
  obtain rfl : conn = conn' := by
    rw [hconn] at hconn'
    injection hconn'
  exact hne ((h.conns c conn hconn).1.answered k hback).symm

-- ============================================== undisturbed sessions

/-- `dial_pooled` opens its stream on a cached connection only when that one
is closed, at either end. -/
def PooledOk (w : PoolWorld) : PoolAction → Prop
  | .call k _ => ∀ call c conn, w.calls k = some call →
      call.pc = .opening c → w.conns c = some conn →
      conn.closed = true ∨ conn.running = false
  | _ => True

/-- What is queued on the connection, its loop accepts. -/
def Accepted (conn : Conn) (i : Intent) : Prop :=
  ∀ s ∈ conn.streams, acceptOne i s.messageType = .ok ()

/-- The session's loop runs, or is about to, and accepts all that is queued;
or it has ended, but not on a message type it does not accept. -/
def Undisturbed (w : PoolWorld) (s : DialedSession) : Prop :=
  ∃ conn, w.conns s.conn = some conn ∧
    match conn.task with
    | .accepting => False
    | .confirming k i =>
        conn.confirm = some k ∧ i = s.intent ∧ Accepted conn s.intent
    | .serving i => i = s.intent ∧ Accepted conn s.intent
    | .ended why => ∀ got, why ≠ .wrongIntent got

/-- A running connection carries the traffic of one session. -/
def QuietTask (conn : Conn) : Prop :=
  match conn.task with
  | .accepting => conn.streams = [.hello conn.opener conn.intent]
      ∧ conn.helloBack = none
  | .confirming k i => conn.helloBack = some k ∧ i = conn.intent
      ∧ Accepted conn conn.intent
  | .serving i => i = conn.intent ∧ Accepted conn conn.intent
  | .ended why => ∀ got, why ≠ .wrongIntent got

structure QuietConn (conn : Conn) : Prop where
  task : QuietTask conn
  confirm : ∀ k, conn.confirm = some k → conn.helloBack = some k

/-- A task that has read a Hello waits no more for one. -/
theorem QuietConn.not_accepting {conn : Conn} (h : QuietConn conn)
    (hconfirm : conn.confirm ≠ none) : conn.task ≠ .accepting := by
  intro htask
  have hquiet := h.task
  unfold QuietTask at hquiet
  rw [htask] at hquiet
  obtain ⟨k, hk⟩ := Option.ne_none_iff_exists'.mp hconfirm
  have hback := h.confirm k hk
  rw [hquiet.2] at hback
  cases hback

/-- What the loop accepts may join the queue. -/
theorem QuietConn.push {conn : Conn} (h : QuietConn conn) {s : Stream}
    (hs : conn.running = true → conn.confirm ≠ none
      ∧ acceptOne conn.intent s.messageType = .ok ()) :
    QuietConn { conn with streams := conn.streams ++ [s] } := by
  refine ⟨?_, h.confirm⟩
  have hquiet := h.task
  have happend : acceptOne conn.intent s.messageType = .ok () →
      Accepted conn conn.intent →
      Accepted { conn with streams := conn.streams ++ [s] } conn.intent := by
    intro hok haccepted t ht
    rcases List.mem_append.mp ht with ht | ht
    · exact haccepted t ht
    · obtain rfl := List.mem_singleton.mp ht
      exact hok
  unfold QuietTask at hquiet ⊢
  cases htask : conn.task with
  | accepting =>
      have hrunning : conn.running = true := by simp [Conn.running, htask]
      exact absurd htask (h.not_accepting (hs hrunning).1)
  | confirming k i =>
      have hrunning : conn.running = true := by simp [Conn.running, htask]
      rw [htask] at hquiet
      obtain ⟨hback, hi, haccepted⟩ := hquiet
      exact ⟨hback, hi, happend (hs hrunning).2 haccepted⟩
  | serving i =>
      have hrunning : conn.running = true := by simp [Conn.running, htask]
      rw [htask] at hquiet
      exact ⟨hquiet.1, happend (hs hrunning).2 hquiet.2⟩
  | ended why =>
      rw [htask] at hquiet
      exact hquiet

/-- On its own session's traffic, a task does not end by `WrongIntent`. -/
theorem TaskMoved.quiet {conn conn' : Conn} (h : TaskMoved conn conn')
    (hquiet : QuietConn conn) : QuietConn conn' := by
  have htasks := hquiet.task
  unfold QuietTask at htasks
  cases h with
  | answered mt call i rest htask hstreams =>
      rw [htask] at htasks
      obtain ⟨hqueue, hback⟩ := htasks
      rw [hstreams] at hqueue
      injection hqueue with hhello hrest
      injection hhello with _ hhello
      injection hhello with hcall hi
      refine ⟨⟨rfl, hi, fun s hs => ?_⟩, fun k hk => ?_⟩
      · change s ∈ rest at hs
        rw [hrest] at hs
        exact absurd hs List.not_mem_nil
      · rw [hquiet.confirm k hk] at hback
        cases hback
  | dispatched call i htask =>
      rw [htask] at htasks
      obtain ⟨hback, hi, haccepted⟩ := htasks
      refine ⟨?_, hquiet.confirm⟩
      cases i with
      | publicLayer => exact fun _ => nofun
      | _ => exact ⟨hi, haccepted⟩
  | refused i s rest e htask hstreams hrefused =>
      rw [htask] at htasks
      obtain ⟨rfl, haccepted⟩ := htasks
      rw [haccepted s (hstreams ▸ List.mem_cons_self ..)] at hrefused
      cases hrefused
  | served i s rest htask hstreams =>
      rw [htask] at htasks
      refine ⟨?_, hquiet.confirm⟩
      unfold QuietTask
      dsimp only
      rw [htask]
      exact ⟨htasks.1, fun t ht =>
        htasks.2 t (hstreams ▸ List.mem_cons_of_mem _ ht)⟩
  | failed rest hrunning => exact ⟨fun _ => nofun, hquiet.confirm⟩

/-- What holds of every state when pooled dials leave running connections
alone. -/
structure QuietInv (w : PoolWorld) : Prop where
  conns : ∀ c conn, w.conns c = some conn → QuietConn conn
  fresh : ∀ k call c, w.calls k = some call →
    call.pc = .handshake c .fresh →
    ∃ conn, w.conns c = some conn ∧ conn.intent = call.intent
  inserts : ∀ k call c, w.calls k = some call → call.pc = .insert c →
    ∃ conn, w.conns c = some conn ∧ conn.intent = call.intent
      ∧ conn.confirm ≠ none
  cached : ∀ k call c r, w.calls k = some call →
    call.pc = .handshake c (.cached r) → r = false
  sessions : ∀ s ∈ w.sessions, ∃ conn, w.conns s.conn = some conn
    ∧ conn.intent = s.intent ∧ conn.confirm ≠ none
  fellBack : ∀ e ∈ w.fellBack, e.2 = false

/-- A confirmed connection stays one. -/
theorem confirmed_kept {a : PoolAction} (h : PoolInv w)
    (hstep : PoolStep w a w') {c : ConnId} {i : Intent}
    (hc : ∃ conn, w.conns c = some conn ∧ conn.intent = i
      ∧ conn.confirm ≠ none) :
    ∃ conn, w'.conns c = some conn ∧ conn.intent = i
      ∧ conn.confirm ≠ none := by
  obtain ⟨conn, hconn, hi, hconfirm⟩ := hc
  obtain ⟨conn', hconn', hkept⟩ :=
    conns_kept hstep (h.fresh _ (Nat.le_refl _)).1 hconn
  exact ⟨conn', hconn', hkept.intent.trans hi, hkept.confirm hconfirm⟩

theorem quietConns_step {a : PoolAction} (hok : PooledOk w a)
    (h : QuietInv w) (hstep : PoolStep w a w') :
    ∀ c conn, w'.conns c = some conn → QuietConn conn := by
  intro c conn' hc
  cases conns_step hstep hc with
  | same conn hconn => exact h.conns c _ hconn
  | opened k i hid hnext hcall => exact ⟨⟨rfl, rfl⟩, nofun⟩
  | hello k call conn ha hcall hpc hconn hopen =>
      refine (h.conns c _ hconn).push fun hrunning => ?_
      obtain ⟨io, rfl⟩ := ha
      rcases hok call c conn hcall hpc hconn with hclosed | hended
      · rw [hopen] at hclosed
        cases hclosed
      · rw [hrunning] at hended
        cases hended
  | confirmed k conn hconn hback =>
      have hquiet := h.conns c _ hconn
      exact ⟨hquiet.task, fun k' hk' => by
        injection hk' with hk'
        exact hk' ▸ hback⟩
  | sent s mt conn hs hsc hconn haccepts =>
      obtain ⟨conn', hconn', hi, hconfirm⟩ := h.sessions s hs
      obtain rfl : conn = conn' := by
        rw [hsc, hconn] at hconn'
        injection hconn'
      refine (h.conns c _ hconn).push fun _ => ⟨hconfirm, ?_⟩
      rw [hi]
      exact acceptOne_ok.mpr haccepts
  | tasked io conn conn' hconn htask =>
      exact (taskStep_cases htask).quiet (h.conns c _ hconn)
  | closed conn hconn =>
      have hquiet := h.conns c _ hconn
      exact ⟨hquiet.task, hquiet.confirm⟩
  | hungUp conn hconn =>
      exact ⟨fun _ => nofun, (h.conns c _ hconn).confirm⟩

theorem quietCalls_step {a : PoolAction} (hok : PooledOk w a)
    (hinv : PoolInv w) (h : QuietInv w) (hstep : PoolStep w a w') {k : Nat}
    {call' : DialCall} (hcall' : w'.calls k = some call') (c : ConnId) :
    (call'.pc = .handshake c .fresh →
        ∃ conn, w'.conns c = some conn ∧ conn.intent = call'.intent)
      ∧ (call'.pc = .insert c →
        ∃ conn, w'.conns c = some conn ∧ conn.intent = call'.intent
          ∧ conn.confirm ≠ none)
      ∧ ∀ r, call'.pc = .handshake c (.cached r) → r = false := by
  cases calls_step hstep hcall' with
  | same hcall =>
      refine ⟨fun hpc => ?_, fun hpc => ?_, fun r hpc =>
        h.cached k call' c r hcall hpc⟩
      · obtain ⟨conn, hconn, hi⟩ := h.fresh k call' c hcall hpc
        obtain ⟨conn', hconn', hkept⟩ :=
          conns_kept hstep (hinv.fresh _ (Nat.le_refl _)).1 hconn
        exact ⟨conn', hconn', hkept.intent.trans hi⟩
      · exact confirmed_kept hinv hstep (h.inserts k call' c hcall hpc)
  | waits hpc => rcases hpc with hpc | hpc | hpc <;> simp [hpc]
  | opening c' key call hcall hpool hpc => simp [hpc]
  | cached c' conn call ha hcall hfrom hconn hopen hpc =>
      have hended : conn.running = false := by
        obtain ⟨io, rfl⟩ := ha
        refine (hok call c' conn hcall hfrom hconn).resolve_left ?_
        rw [hopen]
        exact nofun
      rw [hended] at hpc
      simp [hpc]
  | connected hpc hconn =>
      refine ⟨fun hpc' => ?_, by simp [hpc], by simp [hpc]⟩
      rw [hpc] at hpc'
      injection hpc' with hc
      exact hc ▸ ⟨_, hconn, rfl⟩
  | confirmed c' conn call hcall hfrom hintent hold hconn hpc =>
      refine ⟨by simp [hpc], fun hpc' => ?_, by simp [hpc]⟩
      rw [hpc] at hpc'
      injection hpc' with hc
      obtain ⟨conn', hconn', hi⟩ := h.fresh k call c' hcall hfrom
      obtain rfl : conn = conn' := by
        rw [hold] at hconn'
        injection hconn'
      exact hc ▸ ⟨_, hconn, hi.trans hintent.symm, nofun⟩

theorem quietSessions_step {a : PoolAction} (hinv : PoolInv w)
    (h : QuietInv w) (hstep : PoolStep w a w') :
    ∀ s ∈ w'.sessions, ∃ conn, w'.conns s.conn = some conn
      ∧ conn.intent = s.intent ∧ conn.confirm ≠ none := by
  have old : ∀ s ∈ w.sessions, ∃ conn, w'.conns s.conn = some conn
      ∧ conn.intent = s.intent ∧ conn.confirm ≠ none :=
    fun s hs => confirmed_kept hinv hstep (h.sessions s hs)
  cases hstep with
  | reused k io call c conn running hcall hpc hconn hback =>
      exact absurd hback (cached_unanswered hinv hcall hpc hconn)
  | inserted k io call c hcall hpc =>
      intro s hs
      rcases List.mem_append.mp hs with hs | hs
      · exact old s hs
      · obtain rfl := List.mem_singleton.mp hs
        exact h.inserts k call c hcall hpc
  | _ => exact old

theorem fellBack_step {a : PoolAction} (h : QuietInv w)
    (hstep : PoolStep w a w') : ∀ e ∈ w'.fellBack, e.2 = false := by
  cases hstep with
  | fellBack k io call c running hcall hpc =>
      intro e he
      rcases List.mem_append.mp he with he | he
      · exact h.fellBack e he
      · obtain rfl := List.mem_singleton.mp he
        exact h.cached k call c running hcall hpc
  | _ => exact h.fellBack

theorem quietInv_step {a : PoolAction} (hok : PooledOk w a)
    (hinv : PoolInv w) (h : QuietInv w) (hstep : PoolStep w a w') :
    QuietInv w' where
  conns := quietConns_step hok h hstep
  fresh := fun _ _ c hcall => (quietCalls_step hok hinv h hstep hcall c).1
  inserts := fun _ _ c hcall =>
    (quietCalls_step hok hinv h hstep hcall c).2.1
  cached := fun _ _ c r hcall =>
    (quietCalls_step hok hinv h hstep hcall c).2.2 r
  sessions := quietSessions_step hinv h hstep
  fellBack := fellBack_step h hstep

theorem quietInv_init : QuietInv .init where
  conns := fun _ _ h => absurd h.symm (Option.some_ne_none _)
  fresh := fun _ _ _ h => absurd h.symm (Option.some_ne_none _)
  inserts := fun _ _ _ h => absurd h.symm (Option.some_ne_none _)
  cached := fun _ _ _ _ h => absurd h.symm (Option.some_ne_none _)
  sessions := fun _ h => absurd h List.not_mem_nil
  fellBack := fun _ h => absurd h List.not_mem_nil

/-- A session is undisturbed on a connection that carries its traffic. -/
theorem undisturbed_of_quiet {s : DialedSession} (h : QuietInv w)
    (hs : s ∈ w.sessions) : Undisturbed w s := by
  obtain ⟨conn, hconn, hi, hconfirm⟩ := h.sessions s hs
  refine ⟨conn, hconn, ?_⟩
  have hquiet := h.conns _ conn hconn
  have htask := hquiet.task
  have hstarted := hquiet.not_accepting hconfirm
  unfold QuietTask at htask
  rw [hi] at htask
  cases hcase : conn.task with
  | accepting => exact absurd hcase hstarted
  | confirming k i =>
      rw [hcase] at htask
      obtain ⟨k', hk'⟩ := Option.ne_none_iff_exists'.mp hconfirm
      have hback := hquiet.confirm k' hk'
      rw [htask.1] at hback
      injection hback with hback
      exact ⟨hback ▸ hk', htask.2⟩
  | serving i =>
      rw [hcase] at htask
      exact htask
  | ended why =>
      rw [hcase] at htask
      exact htask

/-- In every run whose pooled dials use no connection with a running task,
every session is undisturbed, and no handshake on a connection with a
running task has failed. -/
theorem pooled_dials_quiet (acts : List PoolAction) (w : PoolWorld)
    (hok : Along poolStep PooledOk .init acts)
    (hrun : run poolStep .init acts = some w) :
    (∀ s ∈ w.sessions, Undisturbed w s) ∧ ∀ e ∈ w.fellBack, e.2 = false := by
  have hsteps : ∀ w a w', PooledOk w a → PoolInv w ∧ QuietInv w →
      poolStep w a = some w' → PoolInv w' ∧ QuietInv w' := by
    intro w a w' hok h hs
    have hstep := poolStep_cases hs
    exact ⟨poolInv_step h.1 hstep, quietInv_step hok h.1 h.2 hstep⟩
  have hinv := run_induct hsteps hok ⟨poolInv_init, quietInv_init⟩ hrun
  exact ⟨fun s hs => undisturbed_of_quiet hinv.2 hs, hinv.2.fellBack⟩

-- ============================================================== a run

/-- The peer dialled. -/
def peerKey : PoolKey := ⟨"b:1", Bytes.fill _ 1⟩

/-- A dial, up to the session it returns. -/
def dialed : List PoolAction :=
  [.dial peerKey .direct, .call 0 true, .task 1 true, .call 0 true,
    .task 1 true, .call 0 true]

/-- A pooled dial that sends its Hello on the cached connection. -/
def pooledHello : List PoolAction :=
  [.dialPooled peerKey .storage, .call 2 true, .call 2 true]

/-- It falls back, and the fresh dial returns a session. -/
def fallsBack : List PoolAction :=
  [.call 2 false, .call 2 true, .call 2 true, .task 3 true, .call 2 true,
    .task 3 true, .call 2 true]

/-- A call that does not open a stream on a cached connection may go on. -/
theorem pooledOk_elsewhere {k : Nat} {io : Bool} {call : DialCall}
    (hcall : w.calls k = some call) (hpc : ∀ c, call.pc ≠ .opening c) :
    PooledOk w (.call k io) := by
  intro call' c conn hcall' hopening
  rw [hcall] at hcall'
  injection hcall' with heq
  exact absurd (heq ▸ hopening) (hpc c)

/-- One that does may, if the task has ended. -/
theorem pooledOk_ended {k : Nat} {io : Bool} {call : DialCall} {c : ConnId}
    {conn : Conn} (hcall : w.calls k = some call)
    (hpc : call.pc = .opening c) (hconn : w.conns c = some conn)
    (hended : conn.running = false) : PooledOk w (.call k io) := by
  intro call' c' conn' hcall' hopening hconn'
  rw [hcall] at hcall'
  injection hcall' with hcall'
  rw [← hcall', hpc] at hopening
  injection hopening with hc
  rw [← hc, hconn] at hconn'
  injection hconn' with hconn'
  exact .inr (hconn' ▸ hended)

/-- The first session's message is handled and its loop ends, not by the
pooled dial; then the pooled dial finds the connection dead. -/
theorem pooled_dials_quiet_stale :
    ∃ w, run poolStep .init (dialed ++ [.send 0 .directMessage, .task 1 true,
        .hangUp 1] ++ pooledHello ++ fallsBack) = some w
      ∧ w.sessions ≠ []
      ∧ (∀ s ∈ w.sessions, Undisturbed w s)
      ∧ ∀ e ∈ w.fellBack, e.2 = false := by
  have hok : Along poolStep PooledOk .init (dialed ++
      [.send 0 .directMessage, .task 1 true, .hangUp 1] ++ pooledHello
        ++ fallsBack) := by
    refine .cons rfl trivial (.cons rfl (pooledOk_elsewhere rfl nofun) ?_)
    refine .cons rfl trivial (.cons rfl (pooledOk_elsewhere rfl nofun) ?_)
    refine .cons rfl trivial (.cons rfl (pooledOk_elsewhere rfl nofun) ?_)
    refine .cons rfl trivial (.cons rfl trivial (.cons rfl trivial ?_))
    refine .cons rfl trivial (.cons rfl (pooledOk_elsewhere rfl nofun) ?_)
    refine .cons rfl (pooledOk_ended rfl rfl rfl rfl) ?_
    refine .cons rfl (pooledOk_elsewhere rfl nofun) ?_
    refine .cons rfl (pooledOk_elsewhere rfl nofun) ?_
    refine .cons rfl (pooledOk_elsewhere rfl nofun) ?_
    refine .cons rfl trivial (.cons rfl (pooledOk_elsewhere rfl nofun) ?_)
    exact .cons rfl trivial (.cons rfl (pooledOk_elsewhere rfl nofun) trivial)
  exact ⟨_, rfl, by decide, pooled_dials_quiet _ _ hok rfl⟩

/-- A pooled dial ends the first session's loop, and falls back from a
connection whose task was running, though a fresh dial succeeds. -/
theorem pooled_dial_ends_session :
    ∃ w, run poolStep .init (dialed ++ pooledHello ++ [.task 1 true]
        ++ fallsBack) = some w
      ∧ (∃ s ∈ w.sessions, ¬ Undisturbed w s)
      ∧ ∃ e ∈ w.fellBack, e.2 = true := by
  refine ⟨_, rfl, ⟨⟨1, .direct⟩, by decide, ?_⟩, (1, true), by decide, rfl⟩
  rintro ⟨conn, hconn, htask⟩
  obtain rfl := Option.some.inj hconn
  exact htask _ rfl

end Sidevers.Proofs
