/-
Store-and-forward keeps what it was given until it is delivered or expires.

# What holds of every run

A message that was stored is delivered, or held in one place, or past its
expiry: what a drain or a sweep drops has expired, a delivery that fails puts
the message back, and what is put back never expires earlier than before.

# What does not

Putting a message back gives it a new `stored_at`, and the time it has left is
counted from a clock read before the loop. It is held past its first expiry
unless the loop has just begun (`SendsInTime`), and delivered with another
`stored_at` unless it was stored in the same second (`KeepsStoredAt`).

`Effect` says once what a step does to the messages of every peer; each
invariant is a case analysis over its four kinds.
-/
import Mathlib.Algebra.GroupWithZero.Nat
import Mathlib.Data.List.Induction
import Mathlib.Data.List.Perm.Basic
import Sidevers.Net.Forward

namespace Sidevers.Proofs

open Sidevers.Core
open Sidevers.Lib
open Sidevers.Net

variable {E F : Type}

-- ============================================================ statement

/-- The seconds an action takes. -/
def elapsed : ForwardAction E → Nat
  | .advance secs => secs
  | _ => 0

/-- The clock after these actions. -/
def clockAfter (start : Nat) (acts : List (ForwardAction E)) : Nat :=
  start + (acts.map elapsed).sum

/-- A message as it was first stored. -/
structure StoredMessage (E : Type) where
  recipient : Address
  envelope : E
  storedAt : Nat
  expiresAt : Nat

/-- The message that the action number `n` stored. -/
def stored (start : Nat) (acts : List (ForwardAction E)) (n : Nat) :
    Option (StoredMessage E) :=
  match acts[n]? with
  | some (.forwardStore recipient envelope ttlSecs) =>
      let now := clockAfter start (acts.take n)
      some ⟨recipient, envelope, now, now + min ttlSecs Net.defaultTtlSecs⟩
  | _ => none

/-- What the loop will still send. -/
def held (clock : Nat) : DeliveryPhase E → List (HeldMessage E)
  | .drained held => held.filter fun m => decide (clock < m.expiresAt)
  | .sending now held => held.filter fun m => decide (now < m.expiresAt)

/-- What is held for a peer: what a drain would return, and what the sessions
it connected will still send. -/
def heldFor (w : Forwarder E) (peer : Address) : List (HeldMessage E) :=
  (w.mailbox.drain w.clock peer).1
    ++ w.sessions.flatMap fun s =>
      if s.peer = peer then held w.clock s.phase else []

/-- How often the message number `n` is held for a peer. -/
def timesHeld (w : Forwarder (Nat × E)) (peer : Address) (n : Nat) : Nat :=
  ((heldFor w peer).map fun m => m.envelope.1).count n

/-- The message was delivered, or it is held once, for its recipient, or its
time is over. -/
def Conserved (w : Forwarder (Nat × E)) (n : Nat) (m : StoredMessage E) :
    Prop :=
  (∃ d ∈ w.delivered, d.envelope.1 = n)
    ∨ (∀ peer, timesHeld w peer n = if peer = m.recipient then 1 else 0)
    ∨ m.expiresAt ≤ w.clock

/-- Nothing is held after its time, and nothing was delivered after it. -/
structure NotLate (start : Nat) (acts : List (ForwardAction E))
    (w : Forwarder (Nat × E)) : Prop where
  held : ∀ peer n, 0 < timesHeld w peer n →
    ∃ m, stored start acts n = some m ∧ w.clock ≤ m.expiresAt
  delivered : ∀ d ∈ w.delivered,
    ∃ m, stored start acts d.envelope.1 = some m ∧ d.sentAt ≤ m.expiresAt

/-- Every delivery said when its message was first stored. -/
def ReportsStoredAt (start : Nat) (acts : List (ForwardAction E))
    (w : Forwarder (Nat × E)) : Prop :=
  ∀ d ∈ w.delivered,
    ∃ m, stored start acts d.envelope.1 = some m ∧ d.storedAt = m.storedAt

/-- A loop sends its messages before they expire, and puts one back only in
the second in which it read the clock. -/
def SendsInTime (w : Forwarder E) : ForwardAction E → Prop
  | .advance secs =>
      ∀ s ∈ w.sessions, ∀ now msgs, s.phase = .sending now msgs →
        ∀ m ∈ msgs, now < m.expiresAt → w.clock + secs ≤ m.expiresAt
  | .deliver conn outcome =>
      ∀ peer now msg rest,
        w.sessions[conn]? = some ⟨peer, .sending now (msg :: rest)⟩ →
        now < msg.expiresAt → outcome ≠ .sent → w.clock = now
  | _ => True

/-- A loop puts a message back only in the second in which it was stored. -/
def KeepsStoredAt (w : Forwarder E) : ForwardAction E → Prop
  | .deliver conn outcome =>
      ∀ peer now msg rest,
        w.sessions[conn]? = some ⟨peer, .sending now (msg :: rest)⟩ →
        now < msg.expiresAt → outcome ≠ .sent → w.clock = msg.storedAt
  | _ => True

-- ============================================================= numbering

theorem queue_map (f : E → F) (box : Mailbox E) (peer : Address) :
    (box.map f).queue peer = (box.queue peer).map (.map f) := by
  unfold Mailbox.queue Mailbox.map
  cases box peer <;> rfl

theorem store_map (f : E → F) (box : Mailbox E) (now : Nat)
    (recipient : Address) (envelope : E) (ttlSecs : Nat) :
    (box.map f).store now recipient (f envelope) ttlSecs
      = (box.store now recipient envelope ttlSecs).map f := by
  unfold Mailbox.store
  dsimp only
  rw [queue_map]
  show _ = Table.map _ _
  rw [Table.map_insert, List.map_append]
  rfl

theorem filter_map (f : E → F) (now : Nat) (msgs : List (HeldMessage E)) :
    (msgs.map (HeldMessage.map f)).filter (fun m => decide (now < m.expiresAt))
      = (msgs.filter fun m => decide (now < m.expiresAt)).map
        (HeldMessage.map f) := by
  rw [List.filter_map]
  rfl

theorem drain_map (f : E → F) (box : Mailbox E) (now : Nat)
    (recipient : Address) :
    (box.map f).drain now recipient
      = ((box.drain now recipient).1.map (.map f),
        (box.drain now recipient).2.map f) := by
  unfold Mailbox.drain
  rw [queue_map, filter_map]
  refine congrArg _ ?_
  show _ = Table.map _ _
  rw [Table.map_erase]
  rfl

theorem sweep_map (f : E → F) (box : Mailbox E) (now : Nat) :
    (box.map f).sweep now = (box.sweep now).map f := by
  funext recipient
  unfold Mailbox.sweep Mailbox.map
  dsimp only
  cases box recipient with
  | none => rfl
  | some queue =>
      dsimp only [Option.map_some]
      rw [filter_map]
      cases queue.filter fun m => decide (now < m.expiresAt) <;> rfl

theorem restore_map (f : E → F) (w : Forwarder E) (peer : Address)
    (now : Nat) (msg : HeldMessage E) :
    (w.map f).restore peer now (msg.map f) = (w.restore peer now msg).map f :=
  congrArg (fun box => Forwarder.mk w.clock box _ _ w.forwardRetries)
    (store_map f w.mailbox w.clock peer msg.envelope (msg.expiresAt - now))

theorem deliverOne_map (f : E → F) (w : Forwarder E) (peer : Address)
    (now : Nat) (msg : HeldMessage E) (outcome : SendOutcome) :
    (w.map f).deliverOne peer now (msg.map f) outcome
      = (w.deliverOne peer now msg outcome).map f := by
  unfold Forwarder.deliverOne
  show (if msg.expiresAt ≤ now then _ else _) = _
  by_cases h : msg.expiresAt ≤ now
  · rw [if_pos h, if_pos h]
  · rw [if_neg h, if_neg h]
    cases outcome with
    | sent =>
        refine congrArg (fun ds => Forwarder.mk w.clock (w.mailbox.map f) _ ds
          w.forwardRetries) ?_
        rw [List.map_append]
        rfl
    | signFailed => exact restore_map f w peer now msg
    | sendFailed =>
        exact congrArg (fun v : Forwarder F =>
          { v with forwardRetries := w.forwardRetries + 1 })
          (restore_map f w peer now msg)

/-- A forwarder does the same whatever the envelopes are. -/
theorem forwardStep_map (f : E → F) (w : Forwarder E) (a : ForwardAction E) :
    forwardStep (w.map f) (a.map f) = (forwardStep w a).map (.map f) := by
  have hsession : ∀ conn : Nat, (w.map f).sessions[conn]?
      = w.sessions[conn]?.map (.map f) := fun conn => List.getElem?_map ..
  cases a with
  | advance secs => rfl
  | forwardStore recipient envelope ttlSecs =>
      exact congrArg (fun box => some { w.map f with mailbox := box })
        (store_map f w.mailbox w.clock recipient envelope ttlSecs)
  | connect peer =>
      have hdrain := drain_map f w.mailbox w.clock peer
      simp only [forwardStep, ForwardAction.map, Option.map_some]
      refine congrArg some ?_
      show Forwarder.mk w.clock ((w.mailbox.map f).drain w.clock peer).2
        (w.sessions.map (.map f)
          ++ [⟨peer, .drained ((w.mailbox.map f).drain w.clock peer).1⟩])
        _ _ = _
      rw [hdrain]
      refine congrArg (fun ss => Forwarder.mk w.clock _ ss _ _) ?_
      rw [List.map_append]
      rfl
  | readClock conn =>
      simp only [forwardStep, ForwardAction.map, hsession]
      cases w.sessions[conn]? with
      | none => rfl
      | some s =>
          obtain ⟨peer, held | ⟨now, held⟩⟩ := s
          · refine congrArg (fun ss => some { w.map f with sessions := ss }) ?_
            show List.set (List.map _ _) _ _ = List.map _ _
            rw [List.map_set]
            rfl
          · rfl
  | deliver conn outcome =>
      simp only [forwardStep, ForwardAction.map, hsession]
      cases w.sessions[conn]? with
      | none => rfl
      | some s =>
          obtain ⟨peer, held | ⟨now, _ | ⟨msg, rest⟩⟩⟩ := s
          · rfl
          · rfl
          · refine congrArg some ?_
            rw [← deliverOne_map]
            refine congrArg (fun v : Forwarder F =>
              v.deliverOne peer now (msg.map f) outcome) ?_
            refine congrArg (fun ss => { w.map f with sessions := ss }) ?_
            show List.set (List.map _ _) _ _ = List.map _ _
            rw [List.map_set]
            rfl
  | sweep =>
      exact congrArg (fun box => some { w.map f with mailbox := box })
        (sweep_map f w.mailbox w.clock)

theorem numbered_map_snd (acts : List (ForwardAction E)) :
    (numbered acts).map (.map Prod.snd) = acts := by
  refine List.ext_getElem? fun n => ?_
  unfold numbered
  rw [List.getElem?_map, List.getElem?_mapIdx]
  cases acts[n]? with
  | none => rfl
  | some a => cases a <;> rfl

theorem numbered_concat (acts : List (ForwardAction E))
    (a : ForwardAction E) :
    numbered (acts ++ [a]) = numbered acts ++ [a.map (acts.length, ·)] :=
  List.mapIdx_concat

/-- The numbered run is the run. -/
theorem run_numbered (start : Nat) (acts : List (ForwardAction E)) :
    run forwardStep (.init start) acts
      = (run forwardStep (.init start) (numbered acts)).map
        (Forwarder.map Prod.snd) := by
  have h : run forwardStep _ _ = _ :=
    run_map (forwardStep_map Prod.snd) (.init start) (numbered acts)
  rwa [numbered_map_snd] at h

-- ==================================================== where messages are

/-- A list for one peer, and nothing for the others. -/
def only (peer p : Address) (msgs : List (HeldMessage E)) :
    List (HeldMessage E) := if peer = p then msgs else []

theorem mem_only {peer p : Address} {msgs : List (HeldMessage E)}
    {h : HeldMessage E} : h ∈ only peer p msgs ↔ peer = p ∧ h ∈ msgs := by
  unfold only
  split
  case isTrue heq => exact (and_iff_right heq).symm
  case isFalse hne => exact ⟨nofun, fun hmem => absurd hmem.1 hne⟩

/-- The messages of a loop, expired or not. -/
def loopMessages : DeliveryPhase E → List (HeldMessage E)
  | .drained held => held
  | .sending _ held => held

/-- The messages of a session, as messages for the peer. -/
def sessionMessages (p : Address) (s : DeliverySession E) :
    List (HeldMessage E) := only s.peer p (loopMessages s.phase)

/-- The messages for a peer, expired or not. -/
def messages (w : Forwarder E) (p : Address) : List (HeldMessage E) :=
  w.mailbox.queue p ++ w.sessions.flatMap (sessionMessages p)

theorem queue_store (box : Mailbox E) (now : Nat) (recipient p : Address)
    (envelope : E) (ttlSecs : Nat) :
    (box.store now recipient envelope ttlSecs).queue p
      = box.queue p ++ only recipient p
        [⟨envelope, now, now + min ttlSecs Net.defaultTtlSecs⟩] := by
  unfold Mailbox.store only
  dsimp only
  unfold Mailbox.queue
  rw [Table.insert_apply]
  by_cases h : p = recipient
  · rw [if_pos h, if_pos h.symm, h]
    rfl
  · rw [if_neg h, if_neg (Ne.symm h), List.append_nil]

theorem messages_store (w : Forwarder E) (now : Nat) (recipient : Address)
    (envelope : E) (ttlSecs : Nat) (p : Address) :
    (messages { w with
      mailbox := w.mailbox.store now recipient envelope ttlSecs } p).Perm
      (only recipient p
        [⟨envelope, now, now + min ttlSecs Net.defaultTtlSecs⟩] ++ messages w p) := by
  show (Mailbox.queue _ p ++ _).Perm _
  rw [queue_store, List.append_assoc]
  exact List.perm_append_comm_assoc ..

/-- A session that replaces another: the other sessions stay. -/
theorem messages_set {w : Forwarder E} {conn : Nat} {s : DeliverySession E}
    (hs : w.sessions[conn]? = some s) (s' : DeliverySession E) (p : Address) :
    ∃ kept, (messages w p).Perm (sessionMessages p s ++ kept)
      ∧ (messages { w with sessions := w.sessions.set conn s' } p).Perm
        (sessionMessages p s' ++ kept) := by
  obtain ⟨hlt, rfl⟩ := List.getElem?_eq_some_iff.mp hs
  refine ⟨w.mailbox.queue p
    ++ (w.sessions.eraseIdx conn).flatMap (sessionMessages p), ?_, ?_⟩
  · have hperm := ((List.getElem_cons_eraseIdx_perm hlt).flatMap_right
      (sessionMessages p)).symm
    rw [List.flatMap_cons] at hperm
    exact (hperm.append_left _).trans (List.perm_append_comm_assoc ..)
  · have hperm := (List.set_perm_cons_eraseIdx hlt s').flatMap_right
      (sessionMessages p)
    rw [List.flatMap_cons] at hperm
    exact (hperm.append_left _).trans (List.perm_append_comm_assoc ..)

/-- The message a loop takes up leaves its session. -/
theorem messages_taken {w : Forwarder E} {conn now : Nat} {peer : Address}
    {msg : HeldMessage E} {rest : List (HeldMessage E)}
    (hs : w.sessions[conn]? = some ⟨peer, .sending now (msg :: rest)⟩)
    (p : Address) :
    (messages w p).Perm (only peer p [msg] ++ messages { w with
      sessions := w.sessions.set conn ⟨peer, .sending now rest⟩ } p) := by
  obtain ⟨kept, hbefore, hafter⟩ :=
    messages_set hs ⟨peer, .sending now rest⟩ p
  have hsplit : sessionMessages p ⟨peer, .sending now (msg :: rest)⟩
      = only peer p [msg] ++ sessionMessages p ⟨peer, .sending now rest⟩ := by
    unfold sessionMessages only
    by_cases h : peer = p
    · simp [loopMessages, h]
    · simp [h]
  rw [hsplit, List.append_assoc] at hbefore
  exact hbefore.trans (hafter.symm.append_left _)

/-- What has expired is told from what has not. -/
theorem filter_expired (clock : Nat) (msgs : List (HeldMessage E)) :
    msgs.Perm (msgs.filter (fun m => decide (m.expiresAt ≤ clock))
      ++ msgs.filter fun m => decide (clock < m.expiresAt)) := by
  refine (List.filter_append_perm
    (fun m => decide (m.expiresAt ≤ clock)) msgs).symm.trans (.of_eq ?_)
  refine congrArg _ (List.filter_congr fun m _ => ?_)
  rw [← decide_not, decide_eq_decide]
  exact Nat.not_le

-- ================================================= what a step does

/-- No message was stored in the future or for longer than a week, and a loop
has read the clock after it was given its messages. -/
structure Timely (w : Forwarder E) : Prop where
  stored : ∀ p, ∀ h ∈ messages w p,
    h.storedAt ≤ w.clock ∧ h.expiresAt ≤ h.storedAt + Net.defaultTtlSecs
  sending : ∀ s ∈ w.sessions, ∀ now msgs, s.phase = .sending now msgs →
    now ≤ w.clock ∧ ∀ h ∈ msgs, h.storedAt ≤ now

/-- What a step does to the messages and the deliveries. -/
inductive Effect (w : Forwarder E) :
    ForwardAction E → Forwarder E → Prop where
  /-- Expired messages are dropped, or none. -/
  | shed {a : ForwardAction E} {w' : Forwarder E}
      (hstore : ∀ r e ttl, a ≠ .forwardStore r e ttl)
      (lost : Address → List (HeldMessage E))
      (hlost : ∀ p, ∀ h ∈ lost p, h.expiresAt ≤ w.clock)
      (hmessages : ∀ p, (messages w p).Perm (lost p ++ messages w' p))
      (hclock : w'.clock = w.clock + elapsed a)
      (hdelivered : w'.delivered = w.delivered) : Effect w a w'
  | stored {r : Address} {e : E} {ttl : Nat} {w' : Forwarder E}
      (hmessages : ∀ p, (messages w' p).Perm
        (only r p [⟨e, w.clock, w.clock + min ttl Net.defaultTtlSecs⟩]
          ++ messages w p))
      (hclock : w'.clock = w.clock)
      (hdelivered : w'.delivered = w.delivered) :
      Effect w (.forwardStore r e ttl) w'
  | sent {conn now : Nat} {peer : Address} {msg : HeldMessage E}
      {rest : List (HeldMessage E)} {w' : Forwarder E}
      (hsession : w.sessions[conn]? = some ⟨peer, .sending now (msg :: rest)⟩)
      (hnow : now < msg.expiresAt)
      (hmessages : ∀ p, (messages w p).Perm
        (only peer p [msg] ++ messages w' p))
      (hclock : w'.clock = w.clock)
      (hdelivered : w'.delivered
        = w.delivered ++ [⟨peer, msg.envelope, msg.storedAt, w.clock⟩]) :
      Effect w (.deliver conn .sent) w'
  | restored {conn now : Nat} {outcome : SendOutcome} {peer : Address}
      {msg : HeldMessage E} {rest : List (HeldMessage E)} {w' : Forwarder E}
      (hsession : w.sessions[conn]? = some ⟨peer, .sending now (msg :: rest)⟩)
      (hnow : now < msg.expiresAt) (houtcome : outcome ≠ .sent)
      (kept : Address → List (HeldMessage E))
      (hbefore : ∀ p, (messages w p).Perm (only peer p [msg] ++ kept p))
      (hafter : ∀ p, (messages w' p).Perm
        (only peer p [⟨msg.envelope, w.clock,
          w.clock + min (msg.expiresAt - now) Net.defaultTtlSecs⟩] ++ kept p))
      (hclock : w'.clock = w.clock)
      (hdelivered : w'.delivered = w.delivered) :
      Effect w (.deliver conn outcome) w'

theorem effect_connect (w : Forwarder E) (peer : Address) :
    Effect w (.connect peer) { w with
      mailbox := (w.mailbox.drain w.clock peer).2
      sessions := w.sessions
        ++ [⟨peer, .drained (w.mailbox.drain w.clock peer).1⟩] } := by
  refine .shed nofun (fun p => only peer p ((w.mailbox.queue peer).filter
    fun m => decide (m.expiresAt ≤ w.clock))) (fun p h hmem => ?_)
    (fun p => ?_) rfl rfl
  · exact of_decide_eq_true (List.mem_filter.mp (mem_only.mp hmem).2).2
  · show (w.mailbox.queue p ++ _).Perm (_ ++ (Mailbox.queue
      (w.mailbox.erase peer) p ++ List.flatMap (sessionMessages p)
        (w.sessions ++ [_])))
    rw [List.flatMap_append, List.flatMap_singleton]
    unfold sessionMessages only loopMessages Mailbox.drain
    by_cases h : peer = p
    · subst h
      have herase : Mailbox.queue (w.mailbox.erase peer) peer = [] := by
        unfold Mailbox.queue
        rw [Table.erase_self]
        rfl
      rw [herase, if_pos rfl, if_pos rfl, List.nil_append]
      refine ((filter_expired w.clock _).append_right _).trans ?_
      rw [List.append_assoc]
      exact (List.perm_append_comm ..).append_left _
    · have herase : Mailbox.queue (w.mailbox.erase peer) p
          = w.mailbox.queue p := by
        unfold Mailbox.queue
        rw [Table.erase_of_ne _ (Ne.symm h)]
      rw [herase, if_neg h, if_neg h, List.append_nil, List.nil_append]

theorem queue_sweep (box : Mailbox E) (now : Nat) (p : Address) :
    (box.sweep now).queue p
      = (box.queue p).filter fun m => decide (now < m.expiresAt) := by
  unfold Mailbox.sweep Mailbox.queue
  dsimp only
  cases box p with
  | none => rfl
  | some queue =>
      dsimp only [Option.getD_some]
      cases queue.filter fun m => decide (now < m.expiresAt) <;> rfl

theorem effect_sweep (w : Forwarder E) :
    Effect w .sweep { w with mailbox := w.mailbox.sweep w.clock } := by
  refine .shed nofun (fun p => (w.mailbox.queue p).filter
    fun m => decide (m.expiresAt ≤ w.clock)) (fun p h hmem => ?_)
    (fun p => ?_) rfl rfl
  · exact of_decide_eq_true (List.mem_filter.mp hmem).2
  · show (w.mailbox.queue p ++ _).Perm (_ ++ (Mailbox.queue _ p ++ _))
    rw [queue_sweep, ← List.append_assoc]
    exact (filter_expired w.clock _).append_right _

theorem effect_readClock {w : Forwarder E} {conn : Nat} {peer : Address}
    {msgs : List (HeldMessage E)}
    (hs : w.sessions[conn]? = some ⟨peer, .drained msgs⟩) :
    Effect w (.readClock conn) { w with
      sessions := w.sessions.set conn ⟨peer, .sending w.clock msgs⟩ } := by
  refine .shed nofun (fun _ => []) (fun _ => nofun) (fun p => ?_) rfl rfl
  obtain ⟨kept, hbefore, hafter⟩ :=
    messages_set hs ⟨peer, .sending w.clock msgs⟩ p
  exact hbefore.trans hafter.symm

theorem effect_deliver {w : Forwarder E} (hw : Timely w) {conn now : Nat}
    {peer : Address} {msg : HeldMessage E} {rest : List (HeldMessage E)}
    (hs : w.sessions[conn]? = some ⟨peer, .sending now (msg :: rest)⟩)
    (outcome : SendOutcome) :
    Effect w (.deliver conn outcome) (({ w with
      sessions := w.sessions.set conn ⟨peer, .sending now rest⟩ }).deliverOne
        peer now msg outcome) := by
  have htaken := messages_taken hs
  have hnow := (hw.sending _ (List.mem_of_getElem? hs) now _ rfl).1
  unfold Forwarder.deliverOne
  by_cases hexp : msg.expiresAt ≤ now
  · rw [if_pos hexp]
    refine .shed nofun (fun p => only peer p [msg]) (fun p h hmem => ?_)
      htaken rfl rfl
    obtain rfl := List.mem_singleton.mp (mem_only.mp hmem).2
    exact Nat.le_trans hexp hnow
  · rw [if_neg hexp]
    have hrestored : ∀ p, (messages (Forwarder.restore { w with
        sessions := w.sessions.set conn ⟨peer, .sending now rest⟩ }
          peer now msg) p).Perm _ :=
      messages_store _ w.clock peer msg.envelope (msg.expiresAt - now)
    cases outcome with
    | sent => exact .sent hs (Nat.lt_of_not_le hexp) htaken rfl rfl
    | signFailed =>
        exact .restored hs (Nat.lt_of_not_le hexp) nofun _ htaken hrestored
          rfl rfl
    | sendFailed =>
        exact .restored hs (Nat.lt_of_not_le hexp) nofun _ htaken hrestored
          rfl rfl

/-- A step has one of the four effects. -/
theorem effect_step {w w' : Forwarder E} {a : ForwardAction E}
    (hw : Timely w) (hstep : forwardStep w a = some w') : Effect w a w' := by
  cases a with
  | advance secs =>
      cases hstep
      exact .shed nofun (fun _ => []) (fun _ => nofun) (fun _ => .refl _)
        rfl rfl
  | forwardStore recipient envelope ttlSecs =>
      cases hstep
      exact .stored (messages_store w w.clock recipient envelope ttlSecs)
        rfl rfl
  | connect peer =>
      cases hstep
      exact effect_connect w peer
  | readClock conn =>
      simp only [forwardStep] at hstep
      split at hstep
      case h_1 hs =>
        cases hstep
        exact effect_readClock hs
      case h_2 => cases hstep
  | deliver conn outcome =>
      simp only [forwardStep] at hstep
      split at hstep
      case h_1 hs =>
        cases hstep
        exact effect_deliver hw hs outcome
      case h_2 => cases hstep
  | sweep =>
      cases hstep
      exact effect_sweep w

/-- A loop that sends has sent before, or it has just read the clock. -/
theorem sending_step {w w' : Forwarder E} {a : ForwardAction E}
    (hstep : forwardStep w a = some w') {s : DeliverySession E}
    (hs : s ∈ w'.sessions) {now : Nat} {msgs : List (HeldMessage E)}
    (hphase : s.phase = .sending now msgs) :
    (∃ s₀ ∈ w.sessions, ∃ more, s₀.phase = .sending now more ∧ msgs ⊆ more)
      ∨ now = w.clock ∧ elapsed a = 0 ∧ msgs ⊆ messages w s.peer := by
  have hold : s ∈ w.sessions → ∃ s₀ ∈ w.sessions, ∃ more,
      s₀.phase = .sending now more ∧ msgs ⊆ more :=
    fun h => ⟨s, h, msgs, hphase, List.Subset.refl _⟩
  cases a with
  | advance secs =>
      cases hstep
      exact .inl (hold hs)
  | forwardStore recipient envelope ttlSecs =>
      cases hstep
      exact .inl (hold hs)
  | connect peer =>
      cases hstep
      rcases List.mem_append.mp hs with hs | hs
      · exact .inl (hold hs)
      · obtain rfl := List.mem_singleton.mp hs
        cases hphase
  | readClock conn =>
      simp only [forwardStep] at hstep
      split at hstep
      case h_1 peer held hget =>
        cases hstep
        rcases List.mem_or_eq_of_mem_set hs with hs | rfl
        · exact .inl (hold hs)
        · cases hphase
          refine .inr ⟨rfl, rfl, fun m hm => List.mem_append_right _ ?_⟩
          exact List.mem_flatMap.mpr
            ⟨_, List.mem_of_getElem? hget, mem_only.mpr ⟨rfl, hm⟩⟩
      case h_2 => cases hstep
  | deliver conn outcome =>
      simp only [forwardStep] at hstep
      split at hstep
      case h_1 peer now₀ msg rest hget =>
        cases hstep
        have hset : s ∈ w.sessions.set conn ⟨peer, .sending now₀ rest⟩ := by
          unfold Forwarder.deliverOne at hs
          split at hs
          · exact hs
          · cases outcome <;> exact hs
        rcases List.mem_or_eq_of_mem_set hset with hs | rfl
        · exact .inl (hold hs)
        · cases hphase
          exact .inl ⟨_, List.mem_of_getElem? hget, _, rfl,
            List.subset_cons_self ..⟩
      case h_2 => cases hstep
  | sweep =>
      cases hstep
      exact .inl (hold hs)

/-- Time passes in one direction. -/
theorem clock_step {w w' : Forwarder E} {a : ForwardAction E}
    (h : Effect w a w') : w'.clock = w.clock + elapsed a := by
  cases h with
  | shed hstore lost hlost hmessages hclock hdelivered => exact hclock
  | stored hmessages hclock hdelivered => exact hclock
  | sent hsession hnow hmessages hclock hdelivered => exact hclock
  | restored hsession hnow houtcome kept hbefore hafter hclock hdelivered =>
      exact hclock

/-- The message a loop takes up is a message for its peer. -/
theorem mem_messages_taken {w : Forwarder E} {conn now : Nat} {peer : Address}
    {msg : HeldMessage E} {rest : List (HeldMessage E)}
    (hs : w.sessions[conn]? = some ⟨peer, .sending now (msg :: rest)⟩) :
    msg ∈ messages w peer := by
  refine List.mem_append_right _ (List.mem_flatMap.mpr
    ⟨_, List.mem_of_getElem? hs, mem_only.mpr ⟨rfl, List.mem_cons_self⟩⟩)

/-- The messages after a step: those before, a new one, or one put back. -/
theorem mem_messages_step {w w' : Forwarder E} {a : ForwardAction E}
    (h : Effect w a w') {p : Address} {m : HeldMessage E}
    (hm : m ∈ messages w' p) :
    m ∈ messages w p
      ∨ (∃ e ttl, a = .forwardStore p e ttl
        ∧ m = ⟨e, w.clock, w.clock + min ttl Net.defaultTtlSecs⟩)
      ∨ ∃ conn now msg rest outcome, a = .deliver conn outcome
        ∧ outcome ≠ .sent ∧ now < msg.expiresAt
        ∧ w.sessions[conn]? = some ⟨p, .sending now (msg :: rest)⟩
        ∧ m = ⟨msg.envelope, w.clock,
          w.clock + min (msg.expiresAt - now) Net.defaultTtlSecs⟩ := by
  cases h with
  | shed hstore lost hlost hmessages hclock hdelivered =>
      exact .inl ((hmessages p).mem_iff.mpr (List.mem_append_right _ hm))
  | stored hmessages hclock hdelivered =>
      rcases List.mem_append.mp ((hmessages p).mem_iff.mp hm) with hm | hm
      · obtain ⟨rfl, -⟩ := mem_only.mp hm
        exact .inr (.inl
          ⟨_, _, rfl, List.mem_singleton.mp (mem_only.mp hm).2⟩)
      · exact .inl hm
  | sent hsession hnow hmessages hclock hdelivered =>
      exact .inl ((hmessages p).mem_iff.mpr (List.mem_append_right _ hm))
  | restored hsession hnow houtcome kept hbefore hafter hclock hdelivered =>
      rcases List.mem_append.mp ((hafter p).mem_iff.mp hm) with hm | hm
      · obtain ⟨rfl, -⟩ := mem_only.mp hm
        exact .inr (.inr ⟨_, _, _, _, _, rfl, houtcome, hnow, hsession,
          List.mem_singleton.mp (mem_only.mp hm).2⟩)
      · exact .inl ((hbefore p).mem_iff.mpr (List.mem_append_right _ hm))

/-- The deliveries after a step: those before, or the one just made. -/
theorem mem_delivered_step {w w' : Forwarder E} {a : ForwardAction E}
    (h : Effect w a w') {d : Net.Delivery E} (hd : d ∈ w'.delivered) :
    d ∈ w.delivered
      ∨ ∃ conn now peer msg rest, a = .deliver conn .sent
        ∧ now < msg.expiresAt
        ∧ w.sessions[conn]? = some ⟨peer, .sending now (msg :: rest)⟩
        ∧ d = ⟨peer, msg.envelope, msg.storedAt, w.clock⟩ := by
  cases h with
  | shed hstore lost hlost hmessages hclock hdelivered =>
      exact .inl (hdelivered ▸ hd)
  | stored hmessages hclock hdelivered => exact .inl (hdelivered ▸ hd)
  | sent hsession hnow hmessages hclock hdelivered =>
      rw [hdelivered] at hd
      rcases List.mem_append.mp hd with hd | hd
      · exact .inl hd
      · exact .inr ⟨_, _, _, _, _, rfl, hnow, hsession,
          List.mem_singleton.mp hd⟩
  | restored hsession hnow houtcome kept hbefore hafter hclock hdelivered =>
      exact .inl (hdelivered ▸ hd)

theorem timely_init (start : Nat) : Timely (.init start : Forwarder E) :=
  ⟨fun _ _ => nofun, fun _ => nofun⟩

theorem timely_step {w w' : Forwarder E} {a : ForwardAction E}
    (hw : Timely w) (hstep : forwardStep w a = some w') : Timely w' := by
  have heffect := effect_step hw hstep
  have hclock := clock_step heffect
  constructor
  · intro p m hm
    rcases mem_messages_step heffect hm with
      hm | ⟨e, ttl, -, rfl⟩ | ⟨conn, now, msg, rest, outcome, -, -, -, -, rfl⟩
    · obtain ⟨hstored, hexpires⟩ := hw.stored p m hm
      exact ⟨by omega, hexpires⟩
    · exact ⟨by simp only; omega, Nat.add_le_add_left (Nat.min_le_right ..) _⟩
    · exact ⟨by simp only; omega, Nat.add_le_add_left (Nat.min_le_right ..) _⟩
  · intro s hs now msgs hphase
    rcases sending_step hstep hs hphase with
      ⟨s₀, hs₀, more, hmore, hsub⟩ | ⟨rfl, -, hsub⟩
    · obtain ⟨hnow, hstored⟩ := hw.sending s₀ hs₀ now more hmore
      exact ⟨by omega, fun m hm => hstored m (hsub hm)⟩
    · exact ⟨by omega, fun m hm => (hw.stored _ m (hsub hm)).1⟩

-- ================================================= following a message

/-- Whatever holds at the start and is kept by every step of a numbered run
that meets a condition holds after it. -/
theorem numbered_induct
    (Inv : List (ForwardAction E) → Forwarder (Nat × E) → Prop) {start : Nat}
    {ok : Forwarder (Nat × E) → ForwardAction (Nat × E) → Prop}
    (hinit : Inv [] (.init start))
    (hstep : ∀ acts w a w', Timely w → Inv acts w →
      ok w (a.map (acts.length, ·)) →
      forwardStep w (a.map (acts.length, ·)) = some w' →
      Inv (acts ++ [a]) w') {acts : List (ForwardAction E)}
    {w : Forwarder (Nat × E)}
    (halong : Along forwardStep ok (.init start) (numbered acts))
    (hrun : run forwardStep (.init start) (numbered acts) = some w) :
    Timely w ∧ Inv acts w := by
  induction acts using List.reverseRecOn generalizing w with
  | nil =>
      cases hrun
      exact ⟨timely_init start, hinit⟩
  | append_singleton acts a ih =>
      rw [numbered_concat] at halong hrun
      rw [run_concat] at hrun
      obtain ⟨v, hv, hlast⟩ := Option.bind_eq_some_iff.mp hrun
      obtain ⟨htimely, hinv⟩ := ih halong.prefix hv
      exact ⟨timely_step htimely hlast,
        hstep acts v a w htimely hinv (halong.last hv) hlast⟩

theorem elapsed_map (f : E → F) (a : ForwardAction E) :
    elapsed (a.map f) = elapsed a := by cases a <;> rfl

theorem clockAfter_concat (start : Nat) (acts : List (ForwardAction E))
    (a : ForwardAction E) :
    clockAfter start (acts ++ [a]) = clockAfter start acts + elapsed a := by
  unfold clockAfter
  rw [List.map_append, List.sum_append, List.map_singleton,
    List.sum_singleton, Nat.add_assoc]

theorem stored_lt {start : Nat} {acts : List (ForwardAction E)} {n : Nat}
    {m : StoredMessage E} (h : stored start acts n = some m) :
    n < acts.length := by
  refine Nat.lt_of_not_le fun hle => ?_
  unfold stored at h
  rw [List.getElem?_eq_none hle] at h
  cases h

/-- A message once stored stays the message of that number. -/
theorem stored_concat {start : Nat} {acts : List (ForwardAction E)} {n : Nat}
    {m : StoredMessage E} (h : stored start acts n = some m)
    (a : ForwardAction E) : stored start (acts ++ [a]) n = some m := by
  have hlt := stored_lt h
  unfold stored at h ⊢
  rw [List.getElem?_append_left hlt, List.take_append_of_le_length
    (Nat.le_of_lt hlt)]
  exact h

/-- The last action stores a message iff it is a FORWARD_STORE. -/
theorem stored_last (start : Nat) (acts : List (ForwardAction E))
    (a : ForwardAction E) :
    stored start (acts ++ [a]) acts.length = match a with
      | .forwardStore recipient envelope ttlSecs =>
          some ⟨recipient, envelope, clockAfter start acts,
            clockAfter start acts + min ttlSecs Net.defaultTtlSecs⟩
      | _ => none := by
  unfold stored
  rw [List.getElem?_append_right (Nat.le_refl _), Nat.sub_self,
    List.take_left]
  cases a <;> rfl

theorem stored_concat_cases {start : Nat} {acts : List (ForwardAction E)}
    {a : ForwardAction E} {n : Nat} {m : StoredMessage E}
    (h : stored start (acts ++ [a]) n = some m) :
    stored start acts n = some m ∨ n = acts.length := by
  have hlt := stored_lt h
  rw [List.length_append, List.length_singleton] at hlt
  rcases Nat.lt_or_eq_of_le (Nat.le_of_lt_succ hlt) with hlt | heq
  · left
    unfold stored at h ⊢
    rw [List.getElem?_append_left hlt, List.take_append_of_le_length
      (Nat.le_of_lt hlt)] at h
    exact h
  · exact .inr heq

/-- A FORWARD_STORE of a numbered run. -/
theorem map_forwardStore {f : E → F} {a : ForwardAction E} {r : Address}
    {e : F} {ttl : Nat} (h : a.map f = .forwardStore r e ttl) :
    ∃ e₀, a = .forwardStore r e₀ ttl ∧ f e₀ = e := by
  cases a with
  | forwardStore recipient envelope ttlSecs =>
      cases h
      exact ⟨envelope, rfl, rfl⟩
  | _ => cases h

/-- What has become of every message. -/
structure Accounted (start : Nat) (acts : List (ForwardAction E))
    (w : Forwarder (Nat × E)) : Prop where
  clock : w.clock = clockAfter start acts
  origin : ∀ p, ∀ h ∈ messages w p, ∃ m,
    stored start acts h.envelope.1 = some m ∧ m.recipient = p
      ∧ m.expiresAt ≤ h.expiresAt
  once : ∀ p, ((messages w p).map fun h => h.envelope.1).Nodup
  conserved : ∀ n m, stored start acts n = some m →
    (∃ d ∈ w.delivered, d.envelope.1 = n)
      ∨ (∃ h ∈ messages w m.recipient, h.envelope.1 = n)
      ∨ m.expiresAt ≤ w.clock

/-- Nothing is put back for a shorter time than it had left. -/
theorem restored_expires {w : Forwarder E} (hw : Timely w) {conn now : Nat}
    {peer : Address} {msg : HeldMessage E} {rest : List (HeldMessage E)}
    (hs : w.sessions[conn]? = some ⟨peer, .sending now (msg :: rest)⟩)
    (hnow : now < msg.expiresAt) :
    w.clock + min (msg.expiresAt - now) Net.defaultTtlSecs
      = msg.expiresAt + (w.clock - now) := by
  obtain ⟨hle, hstored⟩ := hw.sending _ (List.mem_of_getElem? hs) now _ rfl
  have hbefore := hstored msg List.mem_cons_self
  have hweek := (hw.stored peer msg (mem_messages_taken hs)).2
  omega

theorem origin_step {start : Nat} {acts : List (ForwardAction E)}
    {w w' : Forwarder (Nat × E)} {a : ForwardAction E} (hw : Timely w)
    (hinv : Accounted start acts w)
    (heffect : Effect w (a.map (acts.length, ·)) w') (p : Address)
    (h : HeldMessage (Nat × E)) (hmem : h ∈ messages w' p) :
    ∃ m, stored start (acts ++ [a]) h.envelope.1 = some m ∧ m.recipient = p
      ∧ m.expiresAt ≤ h.expiresAt := by
  rcases mem_messages_step heffect hmem with hmem | ⟨e, ttl, ha, rfl⟩
    | ⟨conn, now, msg, rest, outcome, -, -, hnow, hsession, rfl⟩
  · obtain ⟨m, hm, hrecipient, hexpires⟩ := hinv.origin p h hmem
    exact ⟨m, stored_concat hm a, hrecipient, hexpires⟩
  · obtain ⟨e, rfl, rfl⟩ := map_forwardStore ha
    refine ⟨_, stored_last start acts _, rfl, Nat.le_of_eq ?_⟩
    dsimp only
    rw [hinv.clock]
  · obtain ⟨m, hm, hrecipient, hexpires⟩ :=
      hinv.origin p msg (mem_messages_taken hsession)
    refine ⟨m, stored_concat hm a, hrecipient, ?_⟩
    dsimp only
    rw [restored_expires hw hsession hnow]
    omega

theorem once_step {start : Nat} {acts : List (ForwardAction E)}
    {w w' : Forwarder (Nat × E)} {a : ForwardAction E}
    (hinv : Accounted start acts w)
    (heffect : Effect w (a.map (acts.length, ·)) w') (p : Address) :
    ((messages w' p).map fun h => h.envelope.1).Nodup := by
  have honce := hinv.once p
  -- what is left of a list without repetitions has none
  have hless : ∀ {lost : List (HeldMessage (Nat × E))},
      (messages w p).Perm (lost ++ messages w' p) →
      ((messages w' p).map fun h => h.envelope.1).Nodup := by
    intro lost hperm
    have hnodup := (hperm.map fun h => h.envelope.1).nodup_iff.mp honce
    rw [List.map_append] at hnodup
    exact (List.nodup_append.mp hnodup).2.1
  generalize hact : a.map (acts.length, ·) = act at heffect
  cases heffect with
  | shed hstore lost hlost hmessages hclock hdelivered =>
      exact hless (hmessages p)
  | @stored r e ttl _ hmessages hclock hdelivered =>
      obtain ⟨e, rfl, rfl⟩ := map_forwardStore hact
      refine ((hmessages p).map fun h => h.envelope.1).nodup_iff.mpr ?_
      unfold only
      split
      case isTrue =>
        refine List.nodup_cons.mpr ⟨fun hmem => ?_, honce⟩
        obtain ⟨h, hmem, hn⟩ := List.mem_map.mp hmem
        obtain ⟨m, hm, -⟩ := hinv.origin p h hmem
        have hlt := stored_lt hm
        rw [hn] at hlt
        exact Nat.lt_irrefl _ hlt
      case isFalse => exact honce
  | sent hsession hnow hmessages hclock hdelivered =>
      exact hless (hmessages p)
  | @restored conn now outcome peer msg rest _ hsession hnow houtcome kept
      hbefore hafter hclock hdelivered =>
      refine ((hafter p).map fun h => h.envelope.1).nodup_iff.mpr ?_
      have hnodup := ((hbefore p).map fun h => h.envelope.1).nodup_iff.mp honce
      rw [List.map_append] at hnodup ⊢
      unfold only at hnodup ⊢
      by_cases hp : peer = p
      · rw [if_pos hp] at hnodup ⊢
        exact hnodup
      · rw [if_neg hp] at hnodup ⊢
        exact hnodup

theorem conserved_step {start : Nat} {acts : List (ForwardAction E)}
    {w w' : Forwarder (Nat × E)} {a : ForwardAction E}
    (hinv : Accounted start acts w)
    (heffect : Effect w (a.map (acts.length, ·)) w') (n : Nat)
    (m : StoredMessage E) (hm : stored start acts n = some m) :
    (∃ d ∈ w'.delivered, d.envelope.1 = n)
      ∨ (∃ h ∈ messages w' m.recipient, h.envelope.1 = n)
      ∨ m.expiresAt ≤ w'.clock := by
  have hclock := clock_step heffect
  generalize a.map (acts.length, ·) = act at heffect hclock
  rcases hinv.conserved n m hm with ⟨d, hd, hn⟩ | ⟨h, hmem, hn⟩ | hpast
  · left
    cases heffect with
    | sent hsession hnow hmessages hclock hdelivered =>
        exact ⟨d, hdelivered ▸ List.mem_append_left _ hd, hn⟩
    | shed hstore lost hlost hmessages hclock hdelivered =>
        exact ⟨d, hdelivered ▸ hd, hn⟩
    | stored hmessages hclock hdelivered => exact ⟨d, hdelivered ▸ hd, hn⟩
    | restored hsession hnow houtcome kept hbefore hafter hclock hdelivered =>
        exact ⟨d, hdelivered ▸ hd, hn⟩
  · cases heffect with
    | shed hstore lost hlost hmessages _ hdelivered =>
        rcases List.mem_append.mp ((hmessages _).mem_iff.mp hmem) with
          hgone | hstays
        · obtain ⟨m', hm', -, hexpires⟩ := hinv.origin _ h hmem
          rw [hn, hm] at hm'
          cases hm'
          have hover := hlost _ h hgone
          exact .inr (.inr (by omega))
        · exact .inr (.inl ⟨h, hstays, hn⟩)
    | stored hmessages _ hdelivered =>
        exact .inr (.inl
          ⟨h, (hmessages _).mem_iff.mpr (List.mem_append_right _ hmem), hn⟩)
    | sent hsession hnow hmessages _ hdelivered =>
        rcases List.mem_append.mp ((hmessages _).mem_iff.mp hmem) with
          hgone | hstays
        · obtain rfl := List.mem_singleton.mp (mem_only.mp hgone).2
          refine .inl ⟨_, hdelivered ▸ List.mem_append_right _
            List.mem_cons_self, hn⟩
        · exact .inr (.inl ⟨h, hstays, hn⟩)
    | restored hsession hnow houtcome kept hbefore hafter _ hdelivered =>
        rcases List.mem_append.mp ((hbefore _).mem_iff.mp hmem) with
          hback | hstays
        · obtain ⟨hpeer, hback⟩ := mem_only.mp hback
          obtain rfl := List.mem_singleton.mp hback
          exact .inr (.inl ⟨_, (hafter _).mem_iff.mpr (List.mem_append_left _
            (mem_only.mpr ⟨hpeer, List.mem_cons_self⟩)), hn⟩)
        · exact .inr (.inl
            ⟨h, (hafter _).mem_iff.mpr (List.mem_append_right _ hstays), hn⟩)
  · exact .inr (.inr (by omega))

theorem accounted_step {start : Nat} {acts : List (ForwardAction E)}
    {w w' : Forwarder (Nat × E)} {a : ForwardAction E} (hw : Timely w)
    (hinv : Accounted start acts w)
    (hstep : forwardStep w (a.map (acts.length, ·)) = some w') :
    Accounted start (acts ++ [a]) w' := by
  have heffect := effect_step hw hstep
  refine ⟨?_, origin_step hw hinv heffect, once_step hinv heffect,
    fun n m hm => ?_⟩
  · rw [clock_step heffect, hinv.clock, clockAfter_concat, elapsed_map]
  · rcases stored_concat_cases hm with hm | rfl
    · exact conserved_step hinv heffect n m hm
    · rw [stored_last] at hm
      split at hm
      case h_1 recipient envelope ttlSecs =>
        cases hm
        cases hstep
        have hnew := (messages_store w w.clock recipient
          (acts.length, envelope) ttlSecs recipient).mem_iff.mpr
            (List.mem_append_left _ (mem_only.mpr ⟨rfl, List.mem_cons_self⟩))
        exact .inr (.inl ⟨_, hnew, rfl⟩)
      case h_2 => cases hm

theorem accounted_init (start : Nat) :
    Accounted start ([] : List (ForwardAction E)) (.init start) :=
  ⟨rfl, fun _ _ => nofun, fun _ => .nil, fun _ _ => nofun⟩

/-- Every run accounts for its messages. -/
theorem accounted_run {start : Nat} {acts : List (ForwardAction E)}
    {w : Forwarder (Nat × E)}
    (hrun : run forwardStep (.init start) (numbered acts) = some w) :
    Timely w ∧ Accounted start acts w :=
  numbered_induct (Accounted start) (accounted_init start)
    (fun _ _ _ _ hw hinv _ hstep => accounted_step hw hinv hstep)
    (along_true _ _) hrun

-- ============================================================ held once

theorem held_sublist (clock : Nat) (phase : DeliveryPhase E) :
    (held clock phase).Sublist (loopMessages phase) := by
  cases phase with
  | drained msgs => exact List.filter_sublist
  | sending now msgs => exact List.filter_sublist

theorem heldFor_sublist (w : Forwarder E) (p : Address) :
    (heldFor w p).Sublist (messages w p) := by
  refine List.filter_sublist.append ?_
  induction w.sessions with
  | nil => exact .slnil
  | cons s rest ih =>
      rw [List.flatMap_cons, List.flatMap_cons]
      refine List.Sublist.append ?_ ih
      unfold sessionMessages only
      split
      case isTrue => exact held_sublist w.clock s.phase
      case isFalse => exact .slnil

/-- What has not expired is held. -/
theorem mem_heldFor {w : Forwarder E} (hw : Timely w) {p : Address}
    {h : HeldMessage E} (hmem : h ∈ messages w p)
    (hlive : w.clock < h.expiresAt) : h ∈ heldFor w p := by
  rcases List.mem_append.mp hmem with hmem | hmem
  · exact List.mem_append_left _
      (List.mem_filter.mpr ⟨hmem, decide_eq_true hlive⟩)
  · obtain ⟨s, hs, hmem⟩ := List.mem_flatMap.mp hmem
    obtain ⟨hpeer, hmem⟩ := mem_only.mp hmem
    refine List.mem_append_right _ (List.mem_flatMap.mpr ⟨s, hs, ?_⟩)
    rw [if_pos hpeer]
    cases hphase : s.phase with
    | drained msgs =>
        rw [hphase] at hmem
        exact List.mem_filter.mpr ⟨hmem, decide_eq_true hlive⟩
    | sending now msgs =>
        rw [hphase] at hmem
        have hnow := (hw.sending s hs now msgs hphase).1
        exact List.mem_filter.mpr ⟨hmem,
          decide_eq_true (Nat.lt_of_le_of_lt hnow hlive)⟩

theorem timesHeld_eq {start : Nat} {acts : List (ForwardAction E)}
    {w : Forwarder (Nat × E)} (hinv : Accounted start acts w) (p : Address)
    (n : Nat) : timesHeld w p n
      = if n ∈ (heldFor w p).map fun h => h.envelope.1 then 1 else 0 :=
  (((heldFor_sublist w p).map _).nodup (hinv.once p)).count

/-- An account of the messages keeps them. -/
theorem Accounted.conserves {start : Nat} {acts : List (ForwardAction E)}
    {w : Forwarder (Nat × E)} (hinv : Accounted start acts w) (hw : Timely w)
    {n : Nat} {m : StoredMessage E} (hm : stored start acts n = some m) :
    Conserved w n m := by
  rcases hinv.conserved n m hm with hdelivered | ⟨h, hmem, rfl⟩ | hpast
  · exact .inl hdelivered
  · by_cases hpast : m.expiresAt ≤ w.clock
    · exact .inr (.inr hpast)
    refine .inr (.inl fun p => ?_)
    rw [timesHeld_eq hinv]
    by_cases hp : p = m.recipient
    · rw [if_pos hp]
      refine if_pos (List.mem_map.mpr ⟨h, ?_, rfl⟩)
      rw [hp]
      refine mem_heldFor hw hmem ?_
      obtain ⟨m', hm', -, hexpires⟩ := hinv.origin _ h hmem
      rw [hm] at hm'
      cases hm'
      omega
    · rw [if_neg hp]
      refine if_neg fun hheld => ?_
      obtain ⟨h', hmem', heq⟩ := List.mem_map.mp hheld
      obtain ⟨m', hm', hrecipient, -⟩ :=
        hinv.origin p h' ((heldFor_sublist w p).subset hmem')
      rw [heq, hm] at hm'
      cases hm'
      exact hp hrecipient.symm
  · exact .inr (.inr hpast)

-- ================================================================ in time

/-- Every message expires when it first was to, and no loop is late. -/
structure Punctual (start : Nat) (acts : List (ForwardAction E))
    (w : Forwarder (Nat × E)) : Prop where
  origin : ∀ p, ∀ h ∈ messages w p, ∃ m,
    stored start acts h.envelope.1 = some m ∧ h.expiresAt = m.expiresAt
  sending : ∀ s ∈ w.sessions, ∀ now msgs, s.phase = .sending now msgs →
    ∀ h ∈ msgs, now < h.expiresAt → w.clock ≤ h.expiresAt
  delivered : ∀ d ∈ w.delivered, ∃ m,
    stored start acts d.envelope.1 = some m ∧ d.sentAt ≤ m.expiresAt

theorem punctual_step {start : Nat} {acts : List (ForwardAction E)}
    {w w' : Forwarder (Nat × E)} {a : ForwardAction E} (hw : Timely w)
    (haccount : Accounted start acts w) (hinv : Punctual start acts w)
    (hok : SendsInTime w (a.map (acts.length, ·)))
    (hstep : forwardStep w (a.map (acts.length, ·)) = some w') :
    Punctual start (acts ++ [a]) w' := by
  have heffect := effect_step hw hstep
  have hclock := clock_step heffect
  constructor
  · intro p h hmem
    rcases mem_messages_step heffect hmem with hmem | ⟨e, ttl, ha, rfl⟩
      | ⟨conn, now, msg, rest, outcome, ha, hout, hnow, hsession, rfl⟩
    · obtain ⟨m, hm, hexpires⟩ := hinv.origin p h hmem
      exact ⟨m, stored_concat hm a, hexpires⟩
    · obtain ⟨e, rfl, rfl⟩ := map_forwardStore ha
      refine ⟨_, stored_last start acts _, ?_⟩
      dsimp only
      rw [haccount.clock]
    · obtain ⟨m, hm, hexpires⟩ :=
        hinv.origin p msg (mem_messages_taken hsession)
      rw [ha] at hok
      have hsecond := hok p now msg rest hsession hnow hout
      refine ⟨m, stored_concat hm a, ?_⟩
      dsimp only
      rw [restored_expires hw hsession hnow, hsecond, Nat.sub_self]
      exact hexpires
  · intro s hs now msgs hphase h hmem hlt
    rcases sending_step hstep hs hphase with
      ⟨s₀, hs₀, more, hmore, hsub⟩ | ⟨rfl, helapsed, hsub⟩
    · have hbefore := hinv.sending s₀ hs₀ now more hmore h (hsub hmem) hlt
      cases a with
      | advance secs =>
          rw [hclock]
          exact hok s₀ hs₀ now more hmore h (hsub hmem) hlt
      | _ =>
          rw [hclock]
          exact hbefore
    · omega
  · intro d hd
    rcases mem_delivered_step heffect hd with
      hd | ⟨conn, now, peer, msg, rest, -, hnow, hsession, rfl⟩
    · obtain ⟨m, hm, hsent⟩ := hinv.delivered d hd
      exact ⟨m, stored_concat hm a, hsent⟩
    · obtain ⟨m, hm, hexpires⟩ :=
        hinv.origin peer msg (mem_messages_taken hsession)
      refine ⟨m, stored_concat hm a, ?_⟩
      have hlive := hinv.sending _ (List.mem_of_getElem? hsession) now _ rfl
        msg List.mem_cons_self hnow
      rw [← hexpires]
      exact hlive

theorem punctual_run {start : Nat} {acts : List (ForwardAction E)}
    {w : Forwarder (Nat × E)}
    (halong : Along forwardStep SendsInTime (.init start) (numbered acts))
    (hrun : run forwardStep (.init start) (numbered acts) = some w) :
    Punctual start acts w := by
  have hinit : Punctual start ([] : List (ForwardAction E)) (.init start) :=
    ⟨fun _ _ => nofun, fun _ => nofun, fun _ => nofun⟩
  have hinv : Timely w ∧ Accounted start acts w ∧ Punctual start acts w :=
    numbered_induct
      (fun acts w => Accounted start acts w ∧ Punctual start acts w)
      ⟨accounted_init start, hinit⟩
      (fun _ _ _ _ hw hinv hok hstep => ⟨accounted_step hw hinv.1 hstep,
        punctual_step hw hinv.1 hinv.2 hok hstep⟩) halong hrun
  exact hinv.2.2

theorem Punctual.notLate {start : Nat} {acts : List (ForwardAction E)}
    {w : Forwarder (Nat × E)} (hinv : Punctual start acts w) :
    NotLate start acts w := by
  refine ⟨fun p n hheld => ?_, hinv.delivered⟩
  obtain ⟨h, hmem, rfl⟩ := List.mem_map.mp (List.count_pos_iff.mp hheld)
  obtain ⟨m, hm, hexpires⟩ :=
    hinv.origin p h ((heldFor_sublist w p).subset hmem)
  refine ⟨m, hm, hexpires ▸ ?_⟩
  rcases List.mem_append.mp hmem with hmem | hmem
  · exact Nat.le_of_lt (of_decide_eq_true (List.mem_filter.mp hmem).2)
  · obtain ⟨s, hs, hmem⟩ := List.mem_flatMap.mp hmem
    split at hmem
    case isTrue =>
      cases hphase : s.phase with
      | drained msgs =>
          rw [hphase] at hmem
          exact Nat.le_of_lt (of_decide_eq_true (List.mem_filter.mp hmem).2)
      | sending now msgs =>
          rw [hphase] at hmem
          obtain ⟨hmem, hnow⟩ := List.mem_filter.mp hmem
          exact hinv.sending s hs now msgs hphase h hmem
            (of_decide_eq_true hnow)
    case isFalse => cases hmem

-- ============================================================== stored at

/-- Every message says when it was first stored. -/
structure Dated (start : Nat) (acts : List (ForwardAction E))
    (w : Forwarder (Nat × E)) : Prop where
  origin : ∀ p, ∀ h ∈ messages w p, ∃ m,
    stored start acts h.envelope.1 = some m ∧ h.storedAt = m.storedAt
  delivered : ReportsStoredAt start acts w

theorem dated_step {start : Nat} {acts : List (ForwardAction E)}
    {w w' : Forwarder (Nat × E)} {a : ForwardAction E} (hw : Timely w)
    (haccount : Accounted start acts w) (hinv : Dated start acts w)
    (hok : KeepsStoredAt w (a.map (acts.length, ·)))
    (hstep : forwardStep w (a.map (acts.length, ·)) = some w') :
    Dated start (acts ++ [a]) w' := by
  have heffect := effect_step hw hstep
  constructor
  · intro p h hmem
    rcases mem_messages_step heffect hmem with hmem | ⟨e, ttl, ha, rfl⟩
      | ⟨conn, now, msg, rest, outcome, ha, hout, hnow, hsession, rfl⟩
    · obtain ⟨m, hm, hstored⟩ := hinv.origin p h hmem
      exact ⟨m, stored_concat hm a, hstored⟩
    · obtain ⟨e, rfl, rfl⟩ := map_forwardStore ha
      exact ⟨_, stored_last start acts _, haccount.clock⟩
    · obtain ⟨m, hm, hstored⟩ :=
        hinv.origin p msg (mem_messages_taken hsession)
      rw [ha] at hok
      have hsecond := hok p now msg rest hsession hnow hout
      exact ⟨m, stored_concat hm a, hsecond.trans hstored⟩
  · intro d hd
    rcases mem_delivered_step heffect hd with
      hd | ⟨conn, now, peer, msg, rest, -, hnow, hsession, rfl⟩
    · obtain ⟨m, hm, hstored⟩ := hinv.delivered d hd
      exact ⟨m, stored_concat hm a, hstored⟩
    · obtain ⟨m, hm, hstored⟩ :=
        hinv.origin peer msg (mem_messages_taken hsession)
      exact ⟨m, stored_concat hm a, hstored⟩

theorem dated_run {start : Nat} {acts : List (ForwardAction E)}
    {w : Forwarder (Nat × E)}
    (halong : Along forwardStep KeepsStoredAt (.init start) (numbered acts))
    (hrun : run forwardStep (.init start) (numbered acts) = some w) :
    Dated start acts w := by
  have hinit : Dated start ([] : List (ForwardAction E)) (.init start) :=
    ⟨fun _ _ => nofun, fun _ => nofun⟩
  have hinv : Timely w ∧ Accounted start acts w ∧ Dated start acts w :=
    numbered_induct
      (fun acts w => Accounted start acts w ∧ Dated start acts w)
      ⟨accounted_init start, hinit⟩
      (fun _ _ _ _ hw hinv hok hstep => ⟨accounted_step hw hinv.1 hstep,
        dated_step hw hinv.1 hinv.2 hok hstep⟩) halong hrun
  exact hinv.2.2

-- ============================================================ every run

theorem sendsInTime_map (f : E → F) (w : Forwarder E) (a : ForwardAction E)
    (h : SendsInTime (w.map f) (a.map f)) : SendsInTime w a := by
  cases a with
  | advance secs =>
      intro s hs now msgs hphase m hm hlive
      refine h (s.map f) (List.mem_map_of_mem hs) now (msgs.map (.map f)) ?_
        (m.map f) (List.mem_map_of_mem hm) hlive
      show s.phase.map f = _
      rw [hphase]
      rfl
  | deliver conn outcome =>
      intro peer now msg rest hs hlive hout
      refine h peer now (msg.map f) (rest.map (.map f)) ?_ hlive hout
      show (List.map _ _)[conn]? = _
      rw [List.getElem?_map, hs]
      rfl
  | _ => exact trivial

theorem keepsStoredAt_map (f : E → F) (w : Forwarder E) (a : ForwardAction E)
    (h : KeepsStoredAt (w.map f) (a.map f)) : KeepsStoredAt w a := by
  cases a with
  | deliver conn outcome =>
      intro peer now msg rest hs hlive hout
      refine h peer now (msg.map f) (rest.map (.map f)) ?_ hlive hout
      show (List.map _ _)[conn]? = _
      rw [List.getElem?_map, hs]
      rfl
  | _ => exact trivial

/-- A condition on the run is one on the numbered run. -/
theorem along_numbered {ok : Forwarder E → ForwardAction E → Prop}
    {ok₂ : Forwarder (Nat × E) → ForwardAction (Nat × E) → Prop}
    (hok : ∀ w a, ok (w.map Prod.snd) (a.map Prod.snd) → ok₂ w a)
    {start : Nat} {acts : List (ForwardAction E)}
    (h : Along forwardStep ok (.init start) acts) :
    Along forwardStep ok₂ (.init start) (numbered acts) := by
  rw [← numbered_map_snd acts] at h
  have hinit : Along forwardStep ok
      (Forwarder.map Prod.snd (.init start : Forwarder (Nat × E)))
      ((numbered acts).map (ForwardAction.map Prod.snd)) := h
  exact hinit.of_map (forwardStep_map Prod.snd) hok

/-- Every message is delivered, held once or past its expiry. Nothing is held
or delivered late if the loops send in time, and deliveries report when their
message was stored if nothing is put back in a later second. -/
theorem mailbox_conserves {E : Type} (start : Nat)
    (acts : List (ForwardAction E)) (w : Forwarder E)
    (hrun : run forwardStep (.init start) acts = some w) :
    ∃ v, run forwardStep (.init start) (numbered acts) = some v
      ∧ v.map Prod.snd = w
      ∧ (∀ n m, stored start acts n = some m → Conserved v n m)
      ∧ (Along forwardStep SendsInTime (.init start) acts →
        NotLate start acts v)
      ∧ (Along forwardStep KeepsStoredAt (.init start) acts →
        ReportsStoredAt start acts v) := by
  rw [run_numbered] at hrun
  obtain ⟨v, hv, rfl⟩ := Option.map_eq_some_iff.mp hrun
  obtain ⟨htimely, haccount⟩ := accounted_run hv
  refine ⟨v, hv, rfl, fun n m hm => haccount.conserves htimely hm,
    fun halong => ?_, fun halong => ?_⟩
  · exact (punctual_run
      (along_numbered (sendsInTime_map Prod.snd) halong) hv).notLate
  · exact (dated_run
      (along_numbered (keepsStoredAt_map Prod.snd) halong) hv).delivered

/-- A message is put back in the second it was stored in, and then
delivered. -/
def putBackAtOnce : List (ForwardAction (List UInt8)) :=
  [.forwardStore (Bytes.fill _ 2) [1] 60, .connect (Bytes.fill _ 2),
    .readClock 0, .deliver 0 .sendFailed, .advance 20,
    .connect (Bytes.fill _ 2), .readClock 1, .deliver 1 .sent]

/-- Time passes when the loop has nothing left to send. -/
theorem sendsInTime_putBackAtOnce :
    Along forwardStep SendsInTime (.init 0) putBackAtOnce := by
  refine .cons rfl trivial (.cons rfl trivial (.cons rfl trivial (.cons rfl ?_
    (.cons rfl ?_ (.cons rfl trivial (.cons rfl trivial (.cons rfl ?_
    trivial)))))))
  · intro peer now msg rest hsession _ _
    cases hsession
    rfl
  · intro s hs now msgs hphase m hm
    cases List.mem_singleton.mp hs
    cases hphase
    cases hm
  · intro peer now msg rest hsession _ hnot
    exact absurd rfl hnot

/-- The message is put back in the second in which it was stored. -/
theorem keepsStoredAt_putBackAtOnce :
    Along forwardStep KeepsStoredAt (.init 0) putBackAtOnce := by
  refine .cons rfl trivial (.cons rfl trivial (.cons rfl trivial (.cons rfl ?_
    (.cons rfl trivial (.cons rfl trivial (.cons rfl trivial (.cons rfl ?_
    trivial)))))))
  · intro peer now msg rest hsession _ _
    cases hsession
    rfl
  · intro peer now msg rest hsession _ hnot
    exact absurd rfl hnot

/-- It is delivered in time, with the second it was stored in. -/
theorem mailbox_conserves_at_once :
    ∃ v, run forwardStep (.init 0) (numbered putBackAtOnce) = some v
      ∧ v.delivered = [⟨Bytes.fill _ 2, (0, [1]), 0, 20⟩]
      ∧ (∀ m, stored 0 putBackAtOnce 0 = some m → Conserved v 0 m)
      ∧ NotLate 0 putBackAtOnce v ∧ ReportsStoredAt 0 putBackAtOnce v := by
  obtain ⟨v, hv, -, hconserved, hlate, hreports⟩ :=
    mailbox_conserves 0 putBackAtOnce _ rfl
  refine ⟨v, hv, ?_, hconserved 0, hlate sendsInTime_putBackAtOnce,
    hreports keepsStoredAt_putBackAtOnce⟩
  cases hv
  rfl

/-- A message is put back half a minute into the loop, and then delivered. -/
def putBackLater : List (ForwardAction (List UInt8)) :=
  [.forwardStore (Bytes.fill _ 2) [1] 60, .connect (Bytes.fill _ 2),
    .readClock 0, .advance 30, .deliver 0 .sendFailed, .advance 45,
    .connect (Bytes.fill _ 2), .readClock 1, .deliver 1 .sent]

theorem mailbox_late :
    ∃ v, run forwardStep (.init 0) (numbered putBackLater) = some v
      ∧ ¬ NotLate 0 putBackLater v ∧ ¬ ReportsStoredAt 0 putBackLater v := by
  refine ⟨_, rfl, fun hlate => ?_, fun hreports => ?_⟩
  · obtain ⟨m, hm, hsent⟩ := hlate.delivered _ List.mem_cons_self
    cases hm
    exact absurd hsent (by decide)
  · obtain ⟨m, hm, hstored⟩ := hreports _ List.mem_cons_self
    cases hm
    exact absurd hstored (by decide)

end Sidevers.Proofs
