/-
Who a node tells others about.

Every entry of the peer table was made for a session that a dial or an accept
returned and that names the peer, or its owner inserted it (`PeersInv`):
nothing a peer says about another is ever in it. Whether the peer a session
names took part in it is another question, which `Proofs.Handshake` answers.
The answers of the node always fit a frame, since an entry of its own has one
intent and the text of one socket address.

While the entries are written in the order of their readings of the clock, a
PEER_ASK is answered for everybody an entry was ever written for, though the
table has room for 256 (`freshest_of_sample`).
-/
import Sidevers.Net.Discovery
import Sidevers.Lib.Run
import Sidevers.Proofs.Clients

namespace Sidevers.Proofs

open Sidevers.Core
open Sidevers.Core.Cbor
open Sidevers.Lib
open Sidevers.Net

variable {crypto : Crypto} {oldest : Oldest Address seenAt}

-- ============================================================== one step

/-- The session an action ends with, and the entry for it. -/
inductive SessionOf : PeerAction → Session → PeerInfo → Prop where
  | dial (run : InitiatorRun) (wire : Signed HandshakePayload)
      (timestamp : Nat) (nonce : Nonce) (endpoint : String) (now : UInt64)
      (done : InitiatorDone)
      (h : run.readHelloBack wire timestamp nonce = .ok done) :
      SessionOf (.dial run wire timestamp nonce endpoint now) done.session
        (handshakenPeer done.session.peerSide run.intent endpoint now)
  | accept (run : ResponderRun) (wire : Signed HandshakePayload)
      (endpoint : String) (now : UInt64) (session : Session)
      (h : run.readConfirm wire = .ok session) :
      SessionOf (.accept run wire endpoint now) session
        (handshakenPeer session.peerSide session.intent endpoint now)

/-- What a step does. -/
inductive PeerStep (oldest : Oldest Address seenAt) (w : PeerWorld) :
    PeerAction → PeerWorld → Prop where
  | returned (a : PeerAction) (session : Session) (info : PeerInfo)
      (h : SessionOf a session info) : PeerStep oldest w a (w.returned info)
  | insert (id : Nat) (info : PeerInfo) (h : w.pending id = some info) :
      PeerStep oldest w (.insert id)
        { w.inserted oldest info with pending := w.pending.erase id }
  | own (info : PeerInfo) :
      PeerStep oldest w (.own info) (w.inserted oldest info)
  | touch (address : Address) (now : UInt64) (info : PeerInfo)
      (h : w.table.get address = some info) :
      PeerStep oldest w (.touch address now)
        { w with
          table := w.table.touch address now
          log := (address, { info with lastSeen := now }) :: w.log }
  /-- No session is returned, or there is nothing to touch. -/
  | same (a : PeerAction) : PeerStep oldest w a w
  | remove (address : Address) :
      PeerStep oldest w (.remove address)
        { w with table := w.table.remove address }

theorem peerStep_cases {w w' : PeerWorld} {a : PeerAction}
    (h : peerStep oldest w a = some w') : PeerStep oldest w a w' := by
  cases a with
  | dial run wire timestamp nonce endpoint now =>
      simp only [peerStep] at h
      split at h
      case h_1 =>
        cases h
        exact .same _
      case h_2 done hdone =>
        cases h
        exact .returned _ _ _
          (.dial run wire timestamp nonce endpoint now done hdone)
  | accept run wire endpoint now =>
      simp only [peerStep] at h
      split at h
      case h_1 =>
        cases h
        exact .same _
      case h_2 session hsession =>
        cases h
        exact .returned _ _ _
          (.accept run wire endpoint now session hsession)
  | insert id =>
      simp only [peerStep] at h
      split at h
      case h_1 info hinfo =>
        cases h
        exact .insert id info hinfo
      case h_2 => cases h
  | own info =>
      cases h
      exact .own info
  | touch address now =>
      simp only [peerStep] at h
      split at h
      case h_1 info hinfo =>
        cases h
        exact .touch address now info hinfo
      case h_2 =>
        cases h
        exact .same _
  | remove address =>
      cases h
      exact .remove address

/-- A touch puts the entry down anew. -/
theorem touch_eq_insert {t : PeerTable} {address : Address} {now : UInt64}
    {info : PeerInfo} (oldest : Oldest Address seenAt)
    (h : t.get address = some info) :
    (t.touch address now).inner
      = oldest.note t.max t.inner address { info with lastSeen := now } := by
  have hheld : t.inner.get address ≠ none := by
    unfold PeerTable.get at h
    simp [h]
  rw [oldest.note_of_held t.max _ hheld]
  exact Rows.update_eq_put (fun p => { p with lastSeen := now }) h

-- ===================================================== where entries are from

/-- What was done made the entry: for a session that names the peer, or by
the owner's hand. -/
def MadeBy (past : List PeerAction) (info : PeerInfo) : Prop :=
  (∃ a ∈ past, ∃ session, SessionOf a session info
    ∧ session.peerSide = info.address)
  ∨ .own info ∈ past

theorem MadeBy.append {past : List PeerAction} {info : PeerInfo}
    (h : MadeBy past info) (a : PeerAction) : MadeBy (past ++ [a]) info := by
  rcases h with ⟨b, hb, hsession⟩ | hown
  · exact .inl ⟨b, List.mem_append_left _ hb, hsession⟩
  · exact .inr (List.mem_append_left _ hown)

/-- A returned session names the peer of its entry. -/
theorem SessionOf.made {past : List PeerAction} {a : PeerAction}
    {session : Session} {info : PeerInfo} (h : SessionOf a session info) :
    MadeBy (past ++ [a]) info := by
  have haddr : session.peerSide = info.address := by cases h <;> rfl
  exact .inl ⟨a, List.mem_append_right _ List.mem_cons_self, session, h, haddr⟩

/-- An entry that was made, but for its `last_seen`. -/
def Known (past : List PeerAction) (p : PeerInfo) : Prop :=
  ∃ info, MadeBy past info ∧ info.address = p.address
    ∧ info.intents = p.intents ∧ info.endpoints = p.endpoints

/-- The text of a socket address has 58 bytes at most, and what the owner
inserts is not much longer than what the node does. -/
def SocketText (_ : PeerWorld) : PeerAction → Prop
  | .dial _ _ _ _ endpoint _ => endpoint.utf8ByteSize ≤ 58
  | .accept _ _ endpoint _ => endpoint.utf8ByteSize ≤ 58
  | .own info => peerSize info ≤ 240
  | _ => True

/-- The bytes of an entry, by what it holds. -/
theorem peerSize_eq (p : PeerInfo) :
    peerSize p = 1 + (8 + 34 + (8 + arraySize (p.intents.map fun b =>
      headSize b.toUInt64) + (10 + arraySize (p.endpoints.map textSize)
      + (10 + headSize p.lastSeen + 0)))) := rfl

/-- The bytes of an entry that no touch changes. -/
def restSize (p : PeerInfo) : Nat := peerSize { p with lastSeen := 0 }

theorem restSize_le (p : PeerInfo) : restSize p ≤ peerSize p := by
  have hseen : 1 ≤ headSize p.lastSeen := by
    unfold headSize
    (repeat' split) <;> omega
  have hzero : headSize 0 = 1 := rfl
  unfold restSize
  rw [peerSize_eq, peerSize_eq p]
  dsimp only
  omega

theorem peerSize_le (p : PeerInfo) : peerSize p ≤ restSize p + 8 := by
  have hseen := headSize_le p.lastSeen
  have hzero : headSize 0 = 1 := rfl
  unfold restSize
  rw [peerSize_eq, peerSize_eq { p with lastSeen := 0 }]
  dsimp only
  omega

/-- An entry of one intent and one socket address has few bytes. -/
theorem peerSize_handshaken {peerSide : Address} {i : Intent}
    {endpoint : String} {now : UInt64} (h : endpoint.utf8ByteSize ≤ 58) :
    peerSize (handshakenPeer peerSide i endpoint now) ≤ 240 := by
  have hi := headSize_le i.asU8.toUInt64
  have hseen := headSize_le now
  have htext := stringSize_le endpoint.utf8ByteSize
  have hsize : peerSize (handshakenPeer peerSide i endpoint now) = 1
      + (8 + 34 + (8 + (1 + (headSize i.asU8.toUInt64 + 0))
      + (10 + (1 + (stringSize endpoint.utf8ByteSize + 0))
      + (10 + headSize now + 0)))) := rfl
  omega

theorem SessionOf.size {w : PeerWorld} {a : PeerAction} {session : Session}
    {info : PeerInfo} (h : SessionOf a session info) (htext : SocketText w a) :
    peerSize info ≤ 240 := by
  cases h with
  | dial => exact peerSize_handshaken htext
  | accept => exact peerSize_handshaken htext

/-- What holds of the peer table in every run. -/
structure PeersInv (max : Nat) (past : List PeerAction) (w : PeerWorld) :
    Prop where
  bound : w.table.max = max
  size : w.table.len ≤ Nat.max 1 max
  pending : ∀ id info, w.pending id = some info →
    MadeBy past info ∧ peerSize info ≤ 240
  held : ∀ address p, w.table.get address = some p →
    p.address = address ∧ Known past p ∧ restSize p ≤ 240
  logged : ∀ e ∈ w.log, e.2.address = e.1

theorem peersInv_init (max : Nat) : PeersInv max [] (.init max) where
  bound := rfl
  size := Nat.zero_le _
  pending := nofun
  held := nofun
  logged := nofun

/-- What was done before still was. -/
theorem PeersInv.append {max : Nat} {past : List PeerAction} {w : PeerWorld}
    (h : PeersInv max past w) (a : PeerAction) :
    PeersInv max (past ++ [a]) w where
  bound := h.bound
  size := h.size
  pending id info hid :=
    have ⟨hmade, hsize⟩ := h.pending id info hid
    ⟨hmade.append a, hsize⟩
  held address p hget :=
    have ⟨haddr, ⟨info, hmade, hsame⟩, hsize⟩ := h.held address p hget
    ⟨haddr, ⟨info, hmade.append a, hsame⟩, hsize⟩
  logged := h.logged

/-- An entry that is put down. -/
theorem PeersInv.noted {max : Nat} {past : List PeerAction} {w : PeerWorld}
    (h : PeersInv max past w) {p : PeerInfo} (hp : Known past p)
    (hsize : restSize p ≤ 240) {address : Address} {q : PeerInfo}
    (hget : (oldest.note w.table.max w.table.inner p.address p).get address
      = some q) : q.address = address ∧ Known past q ∧ restSize q ≤ 240 := by
  by_cases hself : address = p.address
  · subst hself
    rw [get_note_self] at hget
    cases hget
    exact ⟨rfl, hp, hsize⟩
  · exact h.held address q (get_of_note hself hget)

/-- An insertion, whoever makes it. -/
theorem PeersInv.inserted {max : Nat} {past : List PeerAction}
    {w : PeerWorld} (h : PeersInv max past w) {info : PeerInfo}
    (hmade : MadeBy past info) (hsize : peerSize info ≤ 240) :
    PeersInv max past (w.inserted oldest info) where
  bound := h.bound
  size := by
    have hlen := h.size
    rw [← h.bound] at hlen ⊢
    exact length_note_le hlen
  pending := h.pending
  held address p hget :=
    h.noted ⟨info, hmade, rfl, rfl, rfl⟩ ((restSize_le info).trans hsize) hget
  logged := List.forall_mem_cons.mpr ⟨rfl, h.logged⟩

/-- Step lemma. -/
theorem peersInv_step {max : Nat} {past : List PeerAction} {w w' : PeerWorld}
    {a : PeerAction} (htext : SocketText w a) (hinv : PeersInv max past w)
    (hstep : peerStep oldest w a = some w') :
    PeersInv max (past ++ [a]) w' := by
  have h := hinv.append a
  cases peerStep_cases hstep with
  | returned a session info hsession =>
      refine ⟨h.bound, h.size, fun id info' hid => ?_, h.held, h.logged⟩
      rcases (Table.insert_eq_some_iff ..).mp hid with ⟨-, rfl⟩ | ⟨-, hid⟩
      · exact ⟨hsession.made, hsession.size htext⟩
      · exact h.pending id info' hid
  | insert id info hid =>
      obtain ⟨hmade, hsize⟩ := h.pending id info hid
      have hnext : PeersInv max (past ++ [.insert id])
          (w.inserted oldest info) := h.inserted hmade hsize
      refine ⟨hnext.bound, hnext.size, fun id' info' hid' => ?_, hnext.held,
        hnext.logged⟩
      exact h.pending id' info' ((Table.erase_eq_some_iff ..).mp hid').2
  | own info =>
      exact h.inserted
        (.inr (List.mem_append_right _ List.mem_cons_self)) htext
  | touch address now info hget =>
      obtain ⟨haddr, ⟨origin, hmade, hsame⟩, hsize⟩ := h.held address info hget
      subst haddr
      refine ⟨h.bound, ?_, h.pending, fun address p hget' => ?_,
        List.forall_mem_cons.mpr ⟨rfl, h.logged⟩⟩
      · unfold PeerTable.len PeerTable.touch
        rw [Rows.length_update]
        exact h.size
      · unfold PeerTable.get at hget'
        rw [touch_eq_insert oldest hget] at hget'
        exact h.noted (p := { info with lastSeen := now })
          ⟨origin, hmade, hsame⟩ hsize hget'
  | same => exact h
  | remove address =>
      refine ⟨h.bound, ?_, h.pending, fun address' p hget => ?_, h.logged⟩
      · exact Nat.le_trans (List.length_filter_le ..) h.size
      · unfold PeerTable.get PeerTable.remove at hget
        rw [Rows.get_delete] at hget
        split at hget
        · cases hget
        · exact h.held address' p hget

/-- Run lemma. -/
theorem peersInv_run {max : Nat} {w : PeerWorld} {acts : List PeerAction}
    (hok : Along (peerStep oldest) SocketText (.init max) acts)
    (hrun : run (peerStep oldest) (.init max) acts = some w) :
    PeersInv max acts w :=
  run_history
    (fun _ _ _ _ htext h hstep => peersInv_step htext h hstep) hok
    (peersInv_init max) hrun

-- ============================================================== in order

/-- Nothing is removed, and entries are written in the order of their
readings of the clock. -/
def ClockOrder (w : PeerWorld) : PeerAction → Prop
  | .dial .. => True
  | .accept .. => True
  | .insert id => ∀ info, w.pending id = some info →
      ∀ e ∈ w.log, seenAt e.2 ≤ seenAt info
  | .own info => ∀ e ∈ w.log, seenAt e.2 ≤ seenAt info
  | .touch _ now => ∀ e ∈ w.log, seenAt e.2 ≤ now.toNat
  | .remove _ => False

/-- An insertion in that order. -/
theorem remembers_inserted {max : Nat} {w : PeerWorld} {info : PeerInfo}
    (hmax : w.table.max = max)
    (hrem : Remembers seenAt max w.log w.table.inner)
    (hlate : ∀ e ∈ w.log, seenAt e.2 ≤ seenAt info) :
    Remembers seenAt max (w.inserted oldest info).log
      (w.inserted oldest info).table.inner := by
  have hnoted := hrem.note (k := info.address) oldest hlate
  rwa [← hmax] at hnoted ⊢

/-- Step lemma. -/
theorem remembers_step {max : Nat} {w w' : PeerWorld} {a : PeerAction}
    (hok : ClockOrder w a)
    (h : w.table.max = max ∧ Remembers seenAt max w.log w.table.inner)
    (hstep : peerStep oldest w a = some w') :
    w'.table.max = max ∧ Remembers seenAt max w'.log w'.table.inner := by
  obtain ⟨hmax, hrem⟩ := h
  cases peerStep_cases hstep with
  | returned => exact ⟨hmax, hrem⟩
  | insert id info hid =>
      exact ⟨hmax, remembers_inserted hmax hrem (hok info hid)⟩
  | own info => exact ⟨hmax, remembers_inserted hmax hrem hok⟩
  | touch address now info hget =>
      refine ⟨hmax, ?_⟩
      have hlate : ∀ e ∈ w.log,
          seenAt e.2 ≤ seenAt { info with lastSeen := now } := hok
      have hnoted := hrem.note (k := address) oldest hlate
      rw [← hmax, ← touch_eq_insert oldest hget] at hnoted
      rwa [← hmax]
  | same => exact ⟨hmax, hrem⟩
  | remove => exact hok.elim

/-- Run lemma. -/
theorem remembers_run {max : Nat} {w : PeerWorld} {acts : List PeerAction}
    (hok : Along (peerStep oldest) ClockOrder (.init max) acts)
    (hrun : run (peerStep oldest) (.init max) acts = some w) :
    Remembers seenAt max w.log w.table.inner := by
  refine (run_induct (fun _ _ _ hok h hstep => remembers_step hok h hstep) hok
    ?_ hrun).2
  exact ⟨rfl, remembers_empty seenAt max⟩

-- ============================================================ the answers

theorem peerTellSize_le {peers : List PeerInfo} (hcount : peers.length ≤ 256)
    (h : ∀ p ∈ peers, restSize p ≤ 240) : peerTellSize peers ≤ 65000 := by
  have hsum : (peers.map peerSize).sum ≤ (peers.map peerSize).length • 248 :=
    List.sum_le_card_nsmul _ _ fun n hn => by
      obtain ⟨p, hp, rfl⟩ := List.mem_map.mp hn
      exact (peerSize_le p).trans (Nat.add_le_add_right (h p hp) 8)
  rw [List.length_map, smul_eq_mul] at hsum
  have hhead := headSize_le (UInt64.ofNat (peers.map peerSize).length)
  have hsize : peerTellSize peers = 1 + (6 + (headSize (UInt64.ofNat
      (peers.map peerSize).length) + (peers.map peerSize).sum) + 0) := rfl
  omega

/-- The lists of the table are of what it holds. -/
theorem mem_of_lists {t : PeerTable} {peers : List PeerInfo}
    (hlists : t.Lists peers) {p : PeerInfo} (hp : p ∈ peers) :
    ∃ address, t.get address = some p := by
  obtain ⟨⟨address, q⟩, hr, rfl⟩ := List.mem_map.mp (hlists.mem_iff.mp hp)
  exact ⟨address, Rows.get_eq_some_iff.mpr hr⟩

/-- In a run, what is listed is short. -/
theorem PeersInv.listed {max : Nat} {past : List PeerAction} {w : PeerWorld}
    (h : PeersInv max past w) {peers : List PeerInfo}
    (hlists : w.table.Lists peers) {p : PeerInfo} (hp : p ∈ peers) :
    w.table.get p.address = some p ∧ restSize p ≤ 240 := by
  obtain ⟨address, hget⟩ := mem_of_lists hlists hp
  obtain ⟨rfl, -, hsize⟩ := h.held address p hget
  exact ⟨hget, hsize⟩

/-- An answer that fits a frame arrives. -/
theorem queryPeers_answered {n : ServingNode crypto} {env : SignedEnvelope}
    {req : PeerAskPayload} (io : ServeIo)
    (hreq : PeerAskPayload.decode env.payload = .ok req)
    (hfits : peerTellSize (n.samplePeers (min req.limit 256).toNat
      req.intentFilter) ≤ 65000) :
    ∃ answer stream, (n.peerAsk env io).answer = some answer
      ∧ sendEnvelope answer = .ok stream
      ∧ queryPeers crypto stream
        = .ok (n.samplePeers (min req.limit 256).toNat req.intentFilter) := by
  rw [← length_peerTell] at hfits
  obtain ⟨stream, hstream⟩ := sendEnvelope_signWith .peerTell n.side
    env.fromSide (io.clock 0) (io.nonces 0) hfits
  have hdecode := decode_peerTell (length_payload_le hstream)
  refine ⟨_, stream, ?_, hstream, ?_⟩
  · unfold ServingNode.peerAsk
    rw [hreq]
    rfl
  · unfold queryPeers
    rw [awaitAnswer_sent hstream hdecode]
    rfl

theorem requestRendezvous_answered {n : ServingNode crypto}
    {env : SignedEnvelope} {target : Address} (io : ServeIo)
    (hreq : RendezvousPayload.decode env.payload = .ok ⟨target⟩)
    (hfits : rendezvousAckSize (n.endpoints target) ≤ 65000) :
    ∃ answer stream, (n.rendezvous env io).answer = some answer
      ∧ sendEnvelope answer = .ok stream
      ∧ requestRendezvous crypto target stream
        = .ok (n.endpoints target) := by
  rw [← length_rendezvousAck target] at hfits
  obtain ⟨stream, hstream⟩ := sendEnvelope_signWith .rendezvousAck n.side
    env.fromSide (io.clock 0) (io.nonces 0) hfits
  have hdecode := decode_rendezvousAck (length_payload_le hstream)
  refine ⟨_, stream, ?_, hstream, ?_⟩
  · unfold ServingNode.rendezvous
    rw [hreq]
    rfl
  · unfold requestRendezvous
    rw [awaitAnswer_sent hstream hdecode]
    exact if_neg (not_not.mpr rfl)

-- ============================================================== the sample

instance : Std.Total fun a b : PeerInfo => b.lastSeen ≤ a.lastSeen :=
  ⟨fun a b => UInt64.le_total b.lastSeen a.lastSeen⟩

instance : IsTrans PeerInfo fun a b => b.lastSeen ≤ a.lastSeen :=
  ⟨fun _ _ _ hab hbc => UInt64.le_trans hbc hab⟩

/-- The intents an asker wants to see. -/
def Wanted (intentFilter : Option UInt8) (p : PeerInfo) : Prop :=
  intentFilter.all (p.intents.contains ·) = true

instance (intentFilter : Option UInt8) :
    DecidablePred (Wanted intentFilter) := fun _ =>
  inferInstanceAs (Decidable (_ = true))

/-- What is told of what was seen: everyone of it is what was last written
about them, and whoever is left out was seen no later. -/
structure Freshest (log : List (Address × PeerInfo))
    (intentFilter : Option UInt8) (limit : Nat) (peers : List PeerInfo) :
    Prop where
  distinct : (peers.map PeerInfo.address).Nodup
  sorted : peers.Pairwise fun a b => seenAt b ≤ seenAt a
  told : ∀ p ∈ peers, Wanted intentFilter p
    ∧ latest log p.address = some p
  left : ∀ p, latest log p.address = some p → Wanted intentFilter p →
    p ∉ peers → ∀ p' ∈ peers, seenAt p ≤ seenAt p'
  count : intentFilter = none →
    peers.length = min limit (min 256 (keyCount log))

/-- The entries of a table have the addresses they are found by. -/
theorem PeersInv.nodup_addresses {max : Nat} {past : List PeerAction}
    {w : PeerWorld} (h : PeersInv max past w) {peers : List PeerInfo}
    (hlists : w.table.Lists peers) :
    (peers.map PeerInfo.address).Nodup := by
  have hkeys : (w.table.inner.rows.map Prod.snd).map PeerInfo.address
      = w.table.inner.rows.map Prod.fst := by
    rw [List.map_map]
    refine List.map_congr_left fun r hr => ?_
    exact (h.held r.1 r.2 (Rows.get_eq_some_iff.mpr hr)).1
  rw [(hlists.map _).nodup_iff, hkeys]
  exact w.table.inner.nodup

theorem mem_of_sample {n : ServingNode crypto} {limit : Nat}
    {intentFilter : Option UInt8} {p : PeerInfo}
    (hp : p ∈ n.samplePeers limit intentFilter) : p ∈ n.peers := by
  have hkept := List.mem_of_mem_take hp
  rw [(List.perm_insertionSort _ _).mem_iff] at hkept
  exact List.mem_of_mem_filter hkept

theorem freshest_of_sample {past : List PeerAction} {w : PeerWorld}
    {n : ServingNode crypto} (hinv : PeersInv defaultMaxPeers past w)
    (hrem : Remembers seenAt defaultMaxPeers w.log w.table.inner)
    (hlists : w.table.Lists n.peers) (intentFilter : Option UInt8)
    (limit : Nat) :
    Freshest w.log intentFilter limit (n.samplePeers limit intentFilter) := by
  unfold ServingNode.samplePeers
  have hsorted : ((n.peers.filter fun p => intentFilter.all
      (p.intents.contains ·)).insertionSort fun a b =>
        b.lastSeen ≤ a.lastSeen).Pairwise fun a b => seenAt b ≤ seenAt a :=
    (List.pairwise_insertionSort _ _).imp UInt64.le_iff_toNat_le.mp
  have hperm := List.perm_insertionSort
    (fun a b : PeerInfo => b.lastSeen ≤ a.lastSeen)
    (n.peers.filter fun p => intentFilter.all (p.intents.contains ·))
  generalize (n.peers.filter fun p => intentFilter.all
    (p.intents.contains ·)).insertionSort (fun a b => b.lastSeen ≤ a.lastSeen)
    = values at hsorted hperm
  have hvalues : values.Perm ((w.table.inner.rows.map Prod.snd).filter
      (Wanted intentFilter)) := by
    refine hperm.trans ?_
    simpa [Wanted] using hlists.filter _
  have hmem : ∀ p ∈ values.take limit, p ∈ n.peers := fun p hp =>
    List.mem_of_mem_filter (hperm.mem_iff.mp (List.mem_of_mem_take hp))
  obtain ⟨htold, hleft⟩ := hrem.newest hvalues hsorted limit
  refine ⟨?_, hsorted.sublist (List.take_sublist ..), fun p hp => ?_,
    fun p => hleft p.address p, fun hall => ?_⟩
  · have hnodup : (values.map PeerInfo.address).Nodup := by
      rw [(hperm.map _).nodup_iff]
      exact (hinv.nodup_addresses hlists).sublist
        (List.filter_sublist.map _)
    exact hnodup.sublist ((List.take_sublist ..).map _)
  · obtain ⟨hget, -⟩ := hinv.listed hlists (hmem p hp)
    exact ⟨(htold p hp).1, hrem.held _ _ hget⟩
  · subst hall
    have hpeers : values.Perm (w.table.inner.rows.map Prod.snd) := by
      refine hvalues.trans (List.Perm.of_eq ?_)
      exact List.filter_eq_self.mpr fun _ _ => rfl
    exact hrem.length_newest hpeers limit

theorem toNat_limit (limit : UInt64) :
    (min limit 256).toNat = min limit.toNat 256 := by
  have h256 : (256 : UInt64).toNat = 256 := rfl
  change (if limit ≤ 256 then limit else 256).toNat = _
  by_cases hle : limit ≤ 256
  · have hnat : limit.toNat ≤ 256 := UInt64.le_iff_toNat_le.mp hle
    rw [if_pos hle]
    omega
  · have hnat : 256 < limit.toNat :=
      UInt64.lt_iff_toNat_lt.mp (UInt64.not_le.mp hle)
    rw [if_neg hle]
    omega

theorem length_sample_le (n : ServingNode crypto) (limit : UInt64)
    (intentFilter : Option UInt8) :
    (n.samplePeers (min limit 256).toNat intentFilter).length ≤ 256 := by
  rw [toNat_limit]
  exact (List.length_take_le ..).trans (Nat.min_le_right ..)

/-- A payload of a few numbers. -/
theorem decode_peerAsk (p : PeerAskPayload) :
    PeerAskPayload.decode p.encode = .ok p := by
  have hlen : p.encode.length = 1 + (6 + headSize p.limit + (14
      + orNullSize (fun b : UInt8 => headSize b.toUInt64) p.intentFilter
      + 0)) := by
    rw [PeerAskPayload.encode, length_encodeMap]
    cases p.intentFilter <;> simp [orNullSize, ProfilePayload.orNull, encodeU8]
    <;> rfl
  have hlimit := headSize_le p.limit
  have hfilter : orNullSize (fun b : UInt8 => headSize b.toUInt64)
      p.intentFilter ≤ 9 := by
    cases p.intentFilter with
    | none => exact Nat.le_add_left ..
    | some b => exact headSize_le _
  exact (reads_peerAsk p).value (by omega)

/-- A side that has sent its Hello. -/
def dialingSide : InitiatorRun :=
  runInitiator (Bytes.fill 32 1) .gossip none 11 5 (Bytes.fill 16 1)

/-- The answer of another side, as it is read. -/
def dialedBack : Signed HandshakePayload :=
  let back := (acceptHello (Bytes.fill 32 2) 12 dialingSide.hello 5
    (Bytes.fill 16 2)).helloBack
  back.parsed (.helloBack back.env.payload)

/-- A session with one peer, then an entry by hand for another. -/
def twoPeers : List PeerAction :=
  [.dial dialingSide dialedBack 5 (Bytes.fill 16 3) "192.0.2.1:4433" 5,
    .insert 0, .own ⟨Bytes.fill 32 3, [1, 3], ["192.0.2.2:4433"], 7⟩]

theorem twoPeers_text : Along (peerStep (Oldest.first _ _)) SocketText
    (.init defaultMaxPeers) twoPeers := by
  apply along_of_forall
  simp only [twoPeers, SocketText, List.forall_mem_cons]
  exact ⟨fun _ => by decide, fun _ => trivial, fun _ => by decide,
    fun _ h => absurd h List.not_mem_nil⟩

/-- The endpoints that are known are those of the entry. -/
theorem endpoints_of_lists {max : Nat} {past : List PeerAction}
    {w : PeerWorld} {n : ServingNode crypto} (h : PeersInv max past w)
    (hlists : w.table.Lists n.peers) (target : Address) :
    n.endpoints target
      = ((w.table.get target).map PeerInfo.endpoints).getD [] := by
  unfold ServingNode.endpoints
  cases hfind : n.peers.find? (fun p => p.address = target) with
  | some p =>
      have haddr : p.address = target :=
        of_decide_eq_true (List.find?_some hfind :)
      obtain ⟨hget, -⟩ := h.listed hlists (List.mem_of_find?_eq_some hfind)
      rw [haddr] at hget
      rw [hget]
  | none =>
      cases hget : w.table.get target with
      | none => rfl
      | some p =>
          have hmem : p ∈ n.peers := hlists.mem_iff.mpr
            (List.mem_map.mpr ⟨(target, p), Rows.mem_of_get hget, rfl⟩)
          have hnot := List.find?_eq_none.mp hfind p hmem
          exact absurd (decide_eq_true (h.held target p hget).1) hnot

theorem rendezvousAckSize_le {max : Nat} {past : List PeerAction}
    {w : PeerWorld} {n : ServingNode crypto} (h : PeersInv max past w)
    (hlists : w.table.Lists n.peers) (target : Address) :
    rendezvousAckSize (n.endpoints target) ≤ 65000 := by
  rw [endpoints_of_lists h hlists]
  cases hget : w.table.get target with
  | none => exact (by decide : rendezvousAckSize [] ≤ 65000)
  | some p =>
      obtain ⟨-, -, hrest⟩ := h.held target p hget
      have hsize : rendezvousAckSize p.endpoints
          = 1 + (7 + 34 + (10 + arraySize (p.endpoints.map textSize) + 0)) :=
        rfl
      unfold restSize at hrest
      rw [peerSize_eq] at hrest
      dsimp only at hrest
      rw [Option.map_some, Option.getD_some, hsize]
      omega

/-- A payload of one address. -/
theorem decode_rendezvous (p : RendezvousPayload) :
    RendezvousPayload.decode p.encode = .ok p := by
  have hlen : p.encode.length = 1 + (7 + 34 + 0) := by
    rw [RendezvousPayload.encode, length_encodeMap]
    simp
    rfl
  exact (reads_rendezvous p).value (by omega)

end Sidevers.Proofs
