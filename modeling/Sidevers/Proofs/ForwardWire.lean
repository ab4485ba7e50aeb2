/-
What is forwarded arrives as it was submitted.

# Sizes

The inner bytes of a FORWARD_STORE that came in a frame leave room for a
FORWARD_DELIVER (`fitsDelivery_of_request`): its payload is shorter by more
than its envelope can be longer, as long as the clock is below 2^32. So no
message is ever put back because it is too large.

# Runs

`NodeEffect` tells the three kinds of a step apart: it takes a request in,
pushes a message, or does neither. What the mailbox holds by then is
`Effect`.
-/
import Sidevers.Net.ForwardWire
import Sidevers.Proofs.Clients
import Sidevers.Proofs.Mailbox
import Sidevers.Proofs.Transfers

namespace Sidevers.Proofs

open Sidevers.Core
open Sidevers.Core.Cbor
open Sidevers.Lib
open Sidevers.Net

variable {crypto : Crypto}

-- ================================================================= sizes

/-- A larger value has no shorter head. -/
theorem headSize_mono {a b : UInt64} (h : a ≤ b) : headSize a ≤ headSize b := by
  have trans {c : UInt64} (hb : b ≤ c) : a ≤ c := UInt64.le_trans h hb
  unfold headSize
  (repeat' split) <;> first | omega | exact absurd (trans ‹_›) ‹_›

/-- A longer string takes at least so much more. -/
theorem stringSize_add_le (n k : Nat) (hlen : n + k < 2 ^ 64) :
    stringSize n + k ≤ stringSize (n + k) := by
  have hle : UInt64.ofNat n ≤ UInt64.ofNat (n + k) := by
    have hn : n < 2 ^ 64 := by omega
    rw [UInt64.le_iff_toNat_le, UInt64.toNat_ofNat_of_lt' hn,
      UInt64.toNat_ofNat_of_lt' hlen]
    omega
  have hhead := headSize_mono hle
  unfold stringSize
  omega

/-- The head of a reading of the clock before the year 2106. -/
theorem headSize_clock {clock : Nat} (h : clock < 2 ^ 32) :
    headSize (UInt64.ofNat clock) ≤ 5 := by
  have hle : UInt64.ofNat clock ≤ 0xFFFFFFFF := by
    have hsize : clock < 2 ^ 64 := by omega
    rw [UInt64.le_iff_toNat_le, UInt64.toNat_ofNat_of_lt' hsize]
    exact Nat.le_of_lt_succ h
  unfold headSize
  (repeat' split) <;> omega

theorem length_forwardStore (p : ForwardStorePayload) :
    p.encode.length
      = 63 + stringSize p.envelope.length + headSize p.ttlSecs := by
  have hsize : p.encode.length
      = 1 + (9 + stringSize p.envelope.length
        + (9 + headSize p.ttlSecs + (10 + 34 + 0))) := by
    simp only [ForwardStorePayload.encode, length_encodeMap, List.map_cons,
      List.map_nil, List.sum_cons, List.sum_nil, length_key, length_string,
      length_uint, length_val]
    rfl
  omega

theorem length_forwardDeliver (p : ForwardDeliverPayload) :
    p.encode.length
      = 20 + stringSize p.envelope.length + headSize p.storedAt := by
  have hsize : p.encode.length
      = 1 + (9 + stringSize p.envelope.length
        + (10 + headSize p.storedAt + 0)) := by
    simp only [ForwardDeliverPayload.encode, length_encodeMap, List.map_cons,
      List.map_nil, List.sum_cons, List.sum_nil, length_key, length_string,
      length_uint]
    rfl
  omega

/-- The shortest an envelope can be. -/
theorem length_envelope_ge (env : SignedEnvelope) :
    154 + headSize env.messageType.byte.toUInt64
        + stringSize env.payload.length ≤ env.toWireBytes.length := by
  have hversion := headSize_pos env.version
  have htime := headSize_pos env.timestamp
  have hside : 1 ≤ orNullSize (fun addr : Address => (bytes addr.val).length)
      env.toSide := by
    cases env.toSide with
    | none => exact Nat.le_refl 1
    | some addr =>
        rw [orNullSize, length_string, length_val]
        exact Nat.le_trans (by decide) (le_stringSize 32)
  have hsize : env.toWireBytes.length
      = 1 + (2 + headSize env.messageType.byte.toUInt64
        + (2 + headSize env.version
        + (3 + orNullSize (fun addr : Address => (bytes addr.val).length)
            env.toSide
        + (3 + headSize env.timestamp + (4 + 66 + (5 + 34 + (6 + 17
        + (8 + stringSize env.payload.length + 0)))))))) := by
    simp only [SignedEnvelope.toWireBytes, length_encodeMap, List.map_cons,
      List.map_nil, List.sum_cons, List.sum_nil, length_key, length_string,
      length_uint, length_val, length_orNull]
    rfl
  omega

/-- The inner bytes leave room for the rest of a FORWARD_DELIVER. -/
def FitsDelivery (n : Nat) : Prop :=
  193 + stringSize (25 + stringSize n) ≤ maxEnvelopeLen

theorem forwardRequest_some {stream : List UInt8} {req : ForwardStorePayload}
    (h : forwardRequest crypto stream = some req) :
    ∃ env, recvEnvelope crypto stream = .ok env
      ∧ env.messageType = .forwardStore
      ∧ ForwardStorePayload.decode env.payload = .ok req := by
  unfold forwardRequest at h
  cases hrecv : recvEnvelope crypto stream with
  | error e =>
      rw [hrecv] at h
      cases h
  | ok env =>
      rw [hrecv] at h
      dsimp only at h
      split at h
      case isTrue htype =>
        refine ⟨env, rfl, htype, ?_⟩
        cases hdecode : ForwardStorePayload.decode env.payload with
        | error e =>
            rw [hdecode] at h
            cases h
        | ok p =>
            rw [hdecode] at h
            cases h
            rfl
      case isFalse => cases h

/-- What came in a frame can be delivered in one. -/
theorem fitsDelivery_of_request {stream : List UInt8}
    {req : ForwardStorePayload}
    (h : forwardRequest crypto stream = some req) :
    FitsDelivery req.envelope.length := by
  obtain ⟨env, hrecv, htype, hdecode⟩ := forwardRequest_some h
  have hframe := length_wire_of_recv hrecv
  have henv := length_envelope_ge env
  have htypeSize : headSize env.messageType.byte.toUInt64 = 2 := by
    rw [htype]
    rfl
  obtain ⟨rest, hpayload, -⟩ := spells_forwardStore.of_value hdecode
  have hlen := congrArg List.length hpayload
  rw [List.length_append, length_forwardStore] at hlen
  have httl := headSize_pos req.ttlSecs
  have hpayloadSize := le_stringSize env.payload.length
  have hmax : maxEnvelopeLen = 65536 := rfl
  obtain ⟨more, hmore⟩ : ∃ more, env.payload.length
      = 25 + stringSize req.envelope.length + (39 + more) :=
    ⟨env.payload.length - (64 + stringSize req.envelope.length), by omega⟩
  have hgrow := stringSize_add_le (25 + stringSize req.envelope.length)
    (39 + more) (by omega)
  rw [← hmore] at hgrow
  unfold FitsDelivery
  omega

/-- A message that leaves room is sent. -/
theorem deliver_sent {msg : HeldMessage (List UInt8)} {clock : Nat}
    (hroom : FitsDelivery msg.envelope.length) (hclock : clock < 2 ^ 32)
    (hstored : msg.storedAt ≤ clock) (side : Signer crypto) (peer : Address)
    (nonce : Nonce) :
    ∃ frame, sendEnvelope (forwardDeliverEnvelope side peer msg
      (UInt64.ofNat clock) nonce) = .ok frame := by
  have hnow := headSize_clock hclock
  have hthen := headSize_clock (Nat.lt_of_le_of_lt hstored hclock)
  have htype : headSize MessageType.forwardDeliver.byte.toUInt64 = 2 := rfl
  have hinner := le_stringSize (25 + stringSize msg.envelope.length)
  have hmax : maxEnvelopeLen = 65536 := rfl
  unfold FitsDelivery at hroom
  obtain ⟨less, hless⟩ : ∃ less, 25 + stringSize msg.envelope.length
      = 20 + stringSize msg.envelope.length
        + headSize (UInt64.ofNat msg.storedAt) + less :=
    ⟨5 - headSize (UInt64.ofNat msg.storedAt), by omega⟩
  have hgrow := stringSize_add_le (20 + stringSize msg.envelope.length
    + headSize (UInt64.ofNat msg.storedAt)) less (by omega)
  rw [← hless] at hgrow
  rw [sendEnvelope_ok_iff, forwardDeliverEnvelope, length_signWith,
    length_forwardDeliver, envelopeSize_eq, htype]
  dsimp only
  omega

-- ============================================================== a request

theorem reads_forwardStore (p : ForwardStorePayload) :
    Reads ForwardStorePayload.readFields p.encode p := by
  refine .map (by decide : 3 ≤ maxCborEntries) ?_
  refine .field (reads_readBytes p.envelope) ?_
  refine .field (reads_readU64 p.ttlSecs) ?_
  exact .field (reads_readExact _ p.recipient) (.pure p)

theorem reads_forwardDeliver (p : ForwardDeliverPayload) :
    Reads ForwardDeliverPayload.readFields p.encode p := by
  refine .map (by decide : 2 ≤ maxCborEntries) ?_
  refine .field (reads_readBytes p.envelope) ?_
  exact .field (reads_readU64 p.storedAt) (.pure p)

variable {side : Signer crypto} {peer : Address} {now : UInt64} {nonce : Nonce}

/-- What is submitted is what is taken in. -/
theorem forwardRequest_submitted {req : ForwardStorePayload}
    {frame : List UInt8}
    (h : submitForward side peer req now nonce = .ok frame) :
    forwardRequest crypto frame = some req := by
  have hdecode : ForwardStorePayload.decode req.encode = .ok req :=
    (reads_forwardStore req).value (length_payload_lt h)
  unfold forwardRequest
  rw [recvEnvelope_signWith h]
  show (if MessageType.forwardStore = .forwardStore then
    (ForwardStorePayload.decode req.encode).toOption else none) = some req
  rw [if_pos rfl, hdecode]
  rfl

-- ================================================================= a push

/-- What a peer makes of a push: the inner bytes, if it is a FORWARD_DELIVER of
the forwarder to that peer. -/
def carried (crypto : Crypto) (forwarder : Address)
    (push : Address × List UInt8) : Option (Address × List UInt8) :=
  match acceptOnePush crypto .gossip push.2 with
  | .error _ => none
  | .ok env =>
      if env.messageType = .forwardDeliver ∧ env.fromSide = forwarder
          ∧ env.toSide = some push.1 then
        match ForwardDeliverPayload.decode env.payload with
        | .error _ => none
        | .ok deliver => some (push.1, deliver.envelope)
      else none

theorem carried_push {msg : HeldMessage (List UInt8)} {frame : List UInt8}
    (h : sendEnvelope (forwardDeliverEnvelope side peer msg now nonce)
      = .ok frame) :
    carried crypto side.publicBytes (peer, frame)
      = some (peer, msg.envelope) := by
  have hdecode : ForwardDeliverPayload.decode (ForwardDeliverPayload.encode
      ⟨msg.envelope, UInt64.ofNat msg.storedAt⟩)
      = .ok ⟨msg.envelope, UInt64.ofNat msg.storedAt⟩ :=
    (reads_forwardDeliver _).value (length_payload_lt h)
  have haccept : acceptOnePush crypto .gossip frame
      = .ok (forwardDeliverEnvelope side peer msg now nonce) := by
    unfold acceptOnePush
    rw [forwardDeliverEnvelope, recvEnvelope_signWith h]
    rfl
  unfold carried
  rw [haccept]
  dsimp only
  rw [if_pos ⟨rfl, rfl, rfl⟩]
  show (match ForwardDeliverPayload.decode (ForwardDeliverPayload.encode
    ⟨msg.envelope, UInt64.ofNat msg.storedAt⟩) with
    | .error _ => none
    | .ok deliver => some (peer, deliver.envelope)) = _
  rw [hdecode]

-- ============================================================ what a step does

/-- A step takes a request in, pushes a message, or does neither. -/
inductive NodeEffect (side : Signer crypto) (w : ForwardNode) :
    ForwardNodeAction → ForwardNode → Prop where
  | took {stream : List UInt8} {req : ForwardStorePayload}
      {forwarder : Forwarder (List UInt8)}
      (hreq : forwardRequest crypto stream = some req)
      (hstep : forwardStep w.forwarder (.forwardStore req.recipient
        req.envelope req.ttlSecs.toNat) = some forwarder) :
      NodeEffect side w (.handle stream)
        ⟨forwarder, w.taken ++ [req], w.pushed⟩
  | pushed {conn : Nat} {io : PushIo} {peer : Address} {since : Nat}
      {msg : HeldMessage (List UInt8)} {rest : List (HeldMessage (List UInt8))}
      {nonce : Nonce} {frame : List UInt8} {forwarder : Forwarder (List UInt8)}
      (hsession : w.forwarder.sessions[conn]?
        = some ⟨peer, .sending since (msg :: rest)⟩)
      (hsend : sendEnvelope (forwardDeliverEnvelope side peer msg
        (UInt64.ofNat w.forwarder.clock) nonce) = .ok frame)
      (hstep : forwardStep w.forwarder (.deliver conn .sent)
        = some forwarder)
      (hdelivered : forwarder.delivered = w.forwarder.delivered
        ++ [⟨peer, msg.envelope, msg.storedAt, w.forwarder.clock⟩]) :
      NodeEffect side w (.deliver conn io)
        ⟨forwarder, w.taken, w.pushed ++ [(peer, frame)]⟩
  | quiet {a : ForwardNodeAction} {action : ForwardAction (List UInt8)}
      {forwarder : Forwarder (List UInt8)}
      (hstore : ∀ r e ttl, action ≠ .forwardStore r e ttl)
      (hstep : forwardStep w.forwarder action = some forwarder)
      (hdelivered : forwarder.delivered = w.forwarder.delivered) :
      NodeEffect side w a ⟨forwarder, w.taken, w.pushed⟩

/-- A round of the loop past its expiry pushes a message or does not send
it. -/
theorem pushMessage_cases (side : Signer crypto) (peer : Address)
    (msg : HeldMessage (List UInt8)) (clock : Nat) (io : PushIo) :
    (∃ nonce frame, sendEnvelope (forwardDeliverEnvelope side peer msg
        (UInt64.ofNat clock) nonce) = .ok frame
      ∧ pushMessage side peer msg clock io = (.sent, some frame))
    ∨ ∃ outcome, outcome ≠ .sent
      ∧ pushMessage side peer msg clock io = (outcome, none) := by
  unfold pushMessage
  cases io.nonce with
  | none => exact .inr ⟨.signFailed, nofun, rfl⟩
  | some nonce =>
      dsimp only
      split
      case isTrue => exact .inr ⟨.sendFailed, nofun, rfl⟩
      case isFalse =>
        split
        case h_1 => exact .inr ⟨.sendFailed, nofun, rfl⟩
        case h_2 frame hsend =>
          split
          case isTrue => exact .inr ⟨.sendFailed, nofun, rfl⟩
          case isFalse => exact .inl ⟨nonce, frame, hsend, rfl⟩

/-- A step has one of the three effects. -/
theorem nodeEffect_step {w w' : ForwardNode} {a : ForwardNodeAction}
    (hstep : forwardNodeStep side w a = some w') : NodeEffect side w a w' := by
  unfold forwardNodeStep at hstep
  cases hpart : forwardPart side w a with
  | none =>
      rw [hpart] at hstep
      cases hstep
  | some part =>
      rw [hpart] at hstep
      obtain ⟨forwarder, hforward, rfl⟩ := Option.map_eq_some_iff.mp hstep
      cases a with
      | advance secs =>
          cases hpart
          simp only [List.append_nil]
          refine .quiet ?_ hforward ?_
          · intro r e ttl heq
            cases heq
          cases hforward
          rfl
      | handle stream =>
          simp only [forwardPart] at hpart
          split at hpart
          case h_1 => cases hpart
          case h_2 req hreq =>
            cases hpart
            simp only [List.append_nil]
            exact .took hreq hforward
      | connect p =>
          cases hpart
          simp only [List.append_nil]
          refine .quiet ?_ hforward ?_
          · intro r e ttl heq
            cases heq
          cases hforward
          rfl
      | readClock conn =>
          cases hpart
          simp only [List.append_nil]
          refine .quiet ?_ hforward ?_
          · intro r e ttl heq
            cases heq
          simp only [forwardStep] at hforward
          split at hforward
          case h_1 =>
            cases hforward
            rfl
          case h_2 => cases hforward
      | deliver conn io =>
          simp only [forwardPart] at hpart
          split at hpart
          case h_2 => cases hpart
          case h_1 peer since msg rest hsession =>
            have hout (outcome : SendOutcome) :
                forwardStep w.forwarder (.deliver conn outcome)
                  = some (Forwarder.deliverOne { w.forwarder with
                      sessions := w.forwarder.sessions.set conn
                        ⟨peer, .sending since rest⟩ } peer since msg
                          outcome) := by
              simp only [forwardStep, hsession]
            by_cases hexp : msg.expiresAt ≤ since
            · rw [if_pos hexp] at hpart
              cases hpart
              simp only [List.append_nil]
              refine .quiet ?_ hforward ?_
              · intro r e ttl heq
                cases heq
              rw [hout, Option.some.injEq] at hforward
              rw [← hforward]
              unfold Forwarder.deliverOne
              rw [if_pos hexp]
            · rw [if_neg hexp] at hpart
              rcases pushMessage_cases side peer msg w.forwarder.clock io with
                ⟨nonce, frame, hsend, hpush⟩ | ⟨outcome, hne, hpush⟩
              · rw [hpush] at hpart
                cases hpart
                simp only [List.append_nil]
                refine .pushed hsession hsend hforward ?_
                rw [hout, Option.some.injEq] at hforward
                rw [← hforward]
                unfold Forwarder.deliverOne
                rw [if_neg hexp]
              · rw [hpush] at hpart
                cases hpart
                simp only [Option.toList_none, List.map_nil, List.append_nil]
                refine .quiet ?_ hforward ?_
                · intro r e ttl heq
                  cases heq
                rw [hout, Option.some.injEq] at hforward
                rw [← hforward]
                unfold Forwarder.deliverOne
                rw [if_neg hexp]
                cases outcome with
                | sent => exact absurd rfl hne
                | signFailed => rfl
                | sendFailed => rfl
      | sweep =>
          cases hpart
          simp only [List.append_nil]
          refine .quiet ?_ hforward ?_
          · intro r e ttl heq
            cases heq
          cases hforward
          rfl

-- ============================================================= how often

section times

variable {E : Type} [DecidableEq E]

/-- How often these bytes wait for a peer. -/
def timesWaiting (w : Forwarder E) (p : Address) (e : E) : Nat :=
  ((messages w p).map HeldMessage.envelope).count e

/-- How often a list has them for it. -/
def timesIn (pairs : List (Address × E)) (p : Address) (e : E) : Nat :=
  pairs.count (p, e)

/-- How often they were delivered to it. -/
def timesDelivered (w : Forwarder E) (p : Address) (e : E) : Nat :=
  timesIn (w.delivered.map fun d => (d.peer, d.envelope)) p e

/-- How often an action stores them for it. -/
def timesStored (p : Address) (e : E) : ForwardAction E → Nat
  | .forwardStore r e' _ => if r = p ∧ e' = e then 1 else 0
  | _ => 0

theorem timesIn_concat (pairs : List (Address × E)) (r p : Address)
    (e' e : E) : timesIn (pairs ++ [(r, e')]) p e
      = timesIn pairs p e + if r = p ∧ e' = e then 1 else 0 := by
  unfold timesIn
  rw [List.count_append, List.count_singleton]
  simp [Prod.ext_iff]

theorem times_only (peer p : Address) (h : HeldMessage E) (e : E) :
    ((only peer p [h]).map HeldMessage.envelope).count e
      = if peer = p ∧ h.envelope = e then 1 else 0 := by
  unfold only
  by_cases hp : peer = p
  · by_cases he : h.envelope = e
    · simp [hp, he]
    · simp [hp, he]
  · simp [hp]

theorem times_perm {before after : List (HeldMessage E)} (h : before.Perm after)
    (e : E) : (before.map HeldMessage.envelope).count e
      = (after.map HeldMessage.envelope).count e :=
  (h.map HeldMessage.envelope).count_eq e

/-- A step delivers and keeps no more than there was, and what it stored. -/
theorem times_step {w w' : Forwarder E} {a : ForwardAction E}
    (h : Effect w a w') (p : Address) (e : E) :
    timesDelivered w' p e + timesWaiting w' p e
      ≤ timesDelivered w p e + timesWaiting w p e + timesStored p e a := by
  unfold timesDelivered timesWaiting
  cases h with
  | shed hstore lost hlost hmessages hclock hdelivered =>
      have hw := times_perm (hmessages p) e
      rw [List.map_append, List.count_append] at hw
      rw [hdelivered]
      omega
  | stored hmessages hclock hdelivered =>
      have hw := times_perm (hmessages p) e
      rw [List.map_append, List.count_append, times_only] at hw
      rw [hdelivered, timesStored]
      dsimp only at hw
      omega
  | @sent conn now peer msg rest w' hsession hnow hmessages hclock
      hdelivered =>
      have hw := times_perm (hmessages p) e
      rw [List.map_append, List.count_append, times_only] at hw
      rw [hdelivered, List.map_append, List.map_singleton, timesIn_concat]
      dsimp only
      omega
  | restored hsession hnow houtcome kept hbefore hafter hclock hdelivered =>
      have hb := times_perm (hbefore p) e
      have ha := times_perm (hafter p) e
      rw [List.map_append, List.count_append, times_only] at hb ha
      dsimp only at ha
      rw [hdelivered]
      omega

/-- What was delivered had been taken in, as often at least. -/
theorem delivered_subperm {w : Forwarder E} {pairs : List (Address × E)}
    (h : ∀ p e, timesDelivered w p e ≤ timesIn pairs p e) :
    (w.delivered.map fun d => (d.peer, d.envelope)).Subperm pairs :=
  List.subperm_ext_iff.mpr fun pe _ => h pe.1 pe.2

end times

-- ================================================================ every run

/-- The mailbox has only what it can deliver, every delivery was pushed, and
nothing is delivered or kept more often than it was taken in. -/
structure ForwardNodeInv (side : Signer crypto) (w : ForwardNode) : Prop where
  timely : Timely w.forwarder
  fits : ∀ p, ∀ h ∈ messages w.forwarder p, FitsDelivery h.envelope.length
  pushed : w.pushed.map (carried crypto side.publicBytes)
    = w.forwarder.delivered.map fun d => some (d.peer, d.envelope)
  account : ∀ p e, timesDelivered w.forwarder p e
      + timesWaiting w.forwarder p e
    ≤ timesIn (w.taken.map fun r => (r.recipient, r.envelope)) p e

theorem forwardNodeInv_init (side : Signer crypto) (start : Nat) :
    ForwardNodeInv side (.init start) where
  timely := timely_init start
  fits := fun _ _ hmem => absurd hmem List.not_mem_nil
  pushed := rfl
  account := fun _ _ => Nat.le_refl 0

theorem forwardNodeInv_step {w w' : ForwardNode} {a : ForwardNodeAction}
    (hinv : ForwardNodeInv side w) (hstep : forwardNodeStep side w a = some w') :
    ForwardNodeInv side w' := by
  cases nodeEffect_step hstep with
  | @took stream req forwarder hreq hforward =>
      have heffect := effect_step hinv.timely hforward
      refine ⟨timely_step hinv.timely hforward, fun p h hmem => ?_, ?_,
        fun p e => ?_⟩
      · rcases mem_messages_step heffect hmem with hmem | ⟨e, ttl, ha, rfl⟩
          | ⟨conn, since, msg, rest, outcome, ha, -⟩
        · exact hinv.fits p h hmem
        · cases ha
          exact fitsDelivery_of_request hreq
        · cases ha
      · cases hforward
        exact hinv.pushed
      · have htimes := times_step heffect p e
        have haccount := hinv.account p e
        rw [timesStored] at htimes
        rw [List.map_append, List.map_singleton, timesIn_concat]
        dsimp only
        omega
  | @pushed conn io peer since msg rest nonce frame forwarder hsession hsend
      hforward hdelivered =>
      have heffect := effect_step hinv.timely hforward
      refine ⟨timely_step hinv.timely hforward, fun p h hmem => ?_, ?_,
        fun p e => ?_⟩
      · rcases mem_messages_step heffect hmem with hmem | ⟨e, ttl, ha, rfl⟩
          | ⟨conn, since, msg, rest, outcome, ha, hne, -⟩
        · exact hinv.fits p h hmem
        · cases ha
        · cases ha
          exact absurd rfl hne
      · dsimp only
        rw [hdelivered, List.map_append, List.map_append, hinv.pushed,
          List.map_singleton, List.map_singleton, carried_push hsend]
      · exact Nat.le_trans (times_step heffect p e) (hinv.account p e)
  | @quiet a action forwarder hstore hforward hdelivered =>
      have heffect := effect_step hinv.timely hforward
      refine ⟨timely_step hinv.timely hforward, fun p h hmem => ?_, ?_,
        fun p e => ?_⟩
      · rcases mem_messages_step heffect hmem with hmem | ⟨e, ttl, ha, rfl⟩
          | ⟨conn, since, msg, rest, outcome, ha, hne, hlive, hsession, rfl⟩
        · exact hinv.fits p h hmem
        · exact absurd ha (hstore _ _ _)
        · exact hinv.fits p msg (mem_messages_taken hsession)
      · dsimp only
        rw [hdelivered]
        exact hinv.pushed
      · have hnone : timesStored p e action = 0 := by
          cases action with
          | forwardStore r e' ttl => exact absurd rfl (hstore r e' ttl)
          | _ => rfl
        have htimes := times_step heffect p e
        rw [hnone] at htimes
        exact Nat.le_trans htimes (hinv.account p e)

def minutePeer : Address := Bytes.fill 32 2

/-- Three bytes for a peer, to be kept for a minute. -/
def minuteRequest : ForwardStorePayload := ⟨[1, 2, 3], minutePeer, 60⟩

def submitterKey : Signer Crypto.legible := Signer.legible (Bytes.fill 32 1)

def forwarderKey : Signer Crypto.legible := Signer.legible (Bytes.fill 32 9)

end Sidevers.Proofs
