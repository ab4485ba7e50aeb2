/-
What the storage protocol carries from one node to another.

Two nodes that follow it agree on an offer (`offer_exchange_agrees`): the one
that offers is told that its object was wanted iff the other was sent it, and
what the other then serves under the hash is what the one does. An object is
sent iff it leaves room in a frame for the rest of its HAVE.

Nothing that does not fit a frame is ever taken from anybody
(`large_objects_never_arrive`), while `put_chunked` makes chunks of four times
that: such content is never assembled from what other nodes offer.
-/
import Sidevers.Net.Clients
import Sidevers.Proofs.Clients
import Sidevers.Proofs.Ingest
import Sidevers.Proofs.VerseAmends

namespace Sidevers.Proofs

open Sidevers.Core
open Sidevers.Core.Cbor
open Sidevers.Lib
open Sidevers.Net

variable {crypto : Crypto}

-- ========================================================= the payloads

/-- A reference comes out of its offer. -/
theorem decode_storageOffer {r : Reference}
    (h : ReferenceFits (defaultDepDepthLimit + 1) r)
    (hlen : (StorageOfferPayload.encode ⟨r⟩).length < 2 ^ 64) :
    StorageOfferPayload.decode (StorageOfferPayload.encode ⟨r⟩)
      = .ok ⟨r⟩ := by
  have hrest : StorageOfferPayload.readKey.value
      (StorageOfferPayload.encode ⟨r⟩) = .ok r.encode := wrapped_value hlen
  have hwire : r.encode.length < 2 ^ 64 := by
    have hle : r.encode.length ≤ (StorageOfferPayload.encode ⟨r⟩).length :=
      length_value_le (e := ⟨key "reference", r.encode⟩) (.head _)
    omega
  have hread : Reference.decode r.encode = .ok r :=
    (reads_referenceInner h).value hwire
  unfold StorageOfferPayload.decode
  rw [hrest]
  change (Reference.decode r.encode).map StorageOfferPayload.mk = _
  rw [hread]
  rfl

/-- A WANT fits. -/
theorem length_storageWant (p : StorageWantPayload) :
    p.encode.length = 46 := by
  rw [StorageWantPayload.encode, length_encodeMap]
  simp
  rfl

theorem decode_storageWant (p : StorageWantPayload) :
    StorageWantPayload.decode p.encode = .ok p :=
  (reads_storageWant p).value (by rw [length_storageWant]; decide)

-- ============================================================ the one side

variable {side peer : Signer crypto} {hash : Bytes 32}
  {store : ObjectFiles} {services : StorageServices} {io peerIo : ServeIo}

/-- A WANT arrives. -/
theorem wantFrame_sent (peer : Signer crypto) (addr : Address)
    (peerIo : ServeIo) (want : StorageWantPayload) :
    sendEnvelope (.signWith .storageWant peer (some addr) want.encode
      (peerIo.clock 0) (peerIo.nonces 0))
      = .ok (wantFrame peer addr peerIo (some want)) := by
  obtain ⟨frame, hframe⟩ := sendEnvelope_signWith .storageWant peer addr
    (peerIo.clock 0) (peerIo.nonces 0)
    (Nat.le_trans (Nat.le_of_eq (length_storageWant want)) (by decide))
  unfold wantFrame
  dsimp only
  rw [hframe]

theorem awaitAnswer_want (peer : Signer crypto) (addr : Address)
    (peerIo : ServeIo) (want : StorageWantPayload) (otherwise : String) :
    awaitAnswer crypto .storageWant otherwise StorageWantPayload.decode
      (wantFrame peer addr peerIo (some want)) = .ok want :=
  awaitAnswer_sent (wantFrame_sent peer addr peerIo want)
    (decode_storageWant want)

/-- A `get` that returns bytes has verified them. -/
theorem blake3_of_get {bytes : List UInt8}
    (h : (store.get crypto hash).1 = .ok (some bytes)) :
    crypto.blake3 bytes = hash := by
  have hverified (s : ObjectFiles) (got : List UInt8)
      (h : (s.verified crypto hash got).1 = .ok (some bytes)) :
      crypto.blake3 bytes = hash := by
    unfold ObjectFiles.verified ObjectFiles.verifyHash at h
    by_cases hgot : crypto.blake3 got = hash
    · rw [if_pos hgot] at h
      cases h
      exact hgot
    · rw [if_neg hgot] at h
      cases h
  unfold ObjectFiles.get at h
  split at h
  · cases h
  · split at h
    · exact hverified _ _ h
    · split at h
      · exact hverified _ _ h
      · cases h

/-- What the one side makes of the other's WANT. -/
theorem offerAnswered_want (want : Bool) :
    offerAnswered side peer.publicBytes hash store io
        (wantFrame peer side.publicBytes peerIo (some ⟨hash, want⟩))
      = if want then sendWanted side peer.publicBytes hash store io
        else (.ok false, [], store) := by
  unfold offerAnswered
  rw [awaitAnswer_want]
  dsimp only
  rw [if_neg (not_not.mpr rfl)]
  cases want with
  | false => rfl
  | true => rfl

-- ========================================================== the other side

variable {failures : OfferIo}

/-- The other is sent nothing more. -/
theorem serveHave_nothing (failures : OfferIo) (services : StorageServices)
    (offerer : Address) (hash : Bytes 32) :
    services.serveHave crypto { failures with stream := [] } offerer hash
      = (.noFollowUp .readExact, services) := rfl

/-- It is sent the HAVE. -/
theorem serveHave_sent {bytes frame : List UInt8}
    {offerer : Address} (hhash : crypto.blake3 bytes = hash)
    (hframe : sendEnvelope (storageHaveEnvelope side peer.publicBytes hash
      bytes io) = .ok frame) :
    services.serveHave crypto { failures with stream := frame } offerer hash
      = match services.store.putIo crypto failures.put bytes with
        | (.ok _, store) =>
            (.ingested, ⟨store,
              services.provenance.notePublisher hash offerer⟩)
        | (.error e, store) =>
            (.ingestFailed e, ⟨store, services.provenance⟩) := by
  have hpayload : StorageHavePayload.decode
      (StorageHavePayload.encode ⟨hash, bytes, true⟩)
        = .ok ⟨hash, bytes, true⟩ :=
    (reads_storageHave _).value (length_payload_lt hframe)
  have htype : (storageHaveEnvelope side peer.publicBytes hash bytes
      io).messageType = .storageHave := rfl
  have hbytes : (storageHaveEnvelope side peer.publicBytes hash bytes
      io).payload = StorageHavePayload.encode ⟨hash, bytes, true⟩ := rfl
  have haddr (addr : Bytes 32)
      (h : (services.store.putIo crypto failures.put bytes).1 = .ok addr) :
      addr = hash := (putIo_ok_iff.mp h).1.symm.trans hhash
  have hrecv : recvEnvelope crypto frame = .ok (storageHaveEnvelope side
      peer.publicBytes hash bytes io) := recvEnvelope_signWith hframe
  unfold StorageServices.serveHave
  dsimp only
  rw [hrecv]
  dsimp only
  rw [if_neg (not_not.mpr htype), hbytes, hpayload]
  dsimp only
  rw [if_neg (not_not.mpr rfl)]
  generalize services.store.putIo crypto failures.put bytes = put at haddr
  obtain ⟨result, store⟩ := put
  cases result with
  | error e => rfl
  | ok addr =>
      obtain rfl := haddr addr rfl
      simp

-- ============================================================= both sides

/-- A HAVE is sent iff its object leaves room for the rest. -/
theorem have_ok_iff (side : Signer crypto) (addr : Address) (hash : Bytes 32)
    (bytes : List UInt8) (io : ServeIo) :
    (∃ frame, sendEnvelope (storageHaveEnvelope side addr hash bytes io)
        = .ok frame)
      ↔ bytes.length + headSize (io.clock 1) ≤ 65289 := by
  have hsize : (storageHaveEnvelope side addr hash bytes
      io).toWireBytes.length
      = envelopeSize .storageHave (io.clock 1) (haveSize bytes.length) := by
    rw [← length_storageHave ⟨hash, bytes, true⟩]
    exact length_signWith ..
  rw [sendEnvelope_ok_iff, hsize]
  exact inFrame_storageHave_iff ..

/-- The object is sent, or something stands in the way and nothing is. -/
theorem sendWanted_cases (side : Signer crypto) (addr : Address)
    (hash : Bytes 32) (store : ObjectFiles) (io : ServeIo) :
    (∃ bytes frame, (store.get crypto hash).1 = .ok (some bytes)
        ∧ sendEnvelope (storageHaveEnvelope side addr hash bytes io)
          = .ok frame
        ∧ (sendWanted side addr hash store io).1 = .ok true
        ∧ (sendWanted side addr hash store io).2.1 = frame)
      ∨ (∃ e, (sendWanted side addr hash store io).1 = .error e)
        ∧ (sendWanted side addr hash store io).2.1 = []
        ∧ ∀ bytes, (store.get crypto hash).1 = .ok (some bytes) →
          65289 < bytes.length + headSize (io.clock 1) := by
  unfold sendWanted
  rcases store.get crypto hash with ⟨result, store⟩
  cases result with
  | error e => exact Or.inr ⟨⟨_, rfl⟩, rfl, nofun⟩
  | ok found =>
      cases found with
      | none => exact Or.inr ⟨⟨_, rfl⟩, rfl, nofun⟩
      | some bytes =>
          dsimp only
          cases hsend : sendEnvelope
            (storageHaveEnvelope side addr hash bytes io) with
          | ok frame => exact Or.inl ⟨bytes, frame, rfl, hsend, rfl, rfl⟩
          | error e =>
              refine Or.inr ⟨⟨_, rfl⟩, rfl, fun bytes' hbytes => ?_⟩
              cases hbytes
              rw [← Nat.not_le, ← have_ok_iff side addr hash bytes io, hsend]
              rintro ⟨frame, hframe⟩
              cases hframe

/-- The offer's arm, where no call before the HAVE fails. -/
theorem serveOffer_sent (crypto : Crypto) (services : StorageServices)
    {failures : OfferIo}
    {env : SignedEnvelope} {offer : StorageOfferPayload}
    (hdecode : StorageOfferPayload.decode env.payload = .ok offer)
    (hhas : failures.has = false) (hwant : failures.want = false)
    (hhash : offer.reference.hash = hash) :
    services.serveOffer crypto failures env
      = if services.store.has hash then
          (.alreadyHave, some ⟨hash, false⟩, services)
        else
          ((services.serveHave crypto failures env.fromSide hash).1,
            some ⟨hash, true⟩,
            (services.serveHave crypto failures env.fromSide hash).2) := by
  subst hhash
  unfold StorageServices.serveOffer
  rw [hdecode]
  dsimp only
  rw [hhas, hwant]
  cases services.store.has offer.reference.hash with
  | true => rfl
  | false => rfl

/-- Both ends of an offer that arrives. -/
theorem offerExchange_eq {reference : Reference}
    (hfits : ReferenceFits (defaultDepDepthLimit + 1) reference)
    (hframe : (storageOfferEnvelope side peer.publicBytes reference
      io).toWireBytes.length ≤ maxEnvelopeLen)
    (hhas : failures.has = false) (hwant : failures.want = false) :
    offerExchange side peer reference store services io peerIo failures
      = if services.store.has reference.hash then
          ⟨.ok false, some .alreadyHave, store, services⟩
        else
          let sent := sendWanted side peer.publicBytes reference.hash store io
          let taken := services.serveHave crypto
            { failures with stream := sent.2.1 } side.publicBytes
            reference.hash
          ⟨sent.1, some taken.1, sent.2.2, taken.2⟩ := by
  obtain ⟨frame, hsend⟩ := (sendEnvelope_ok_iff _).mpr hframe
  have hdecode : StorageOfferPayload.decode (storageOfferEnvelope side
      peer.publicBytes reference io).payload = .ok ⟨reference⟩ :=
    decode_storageOffer hfits (length_payload_lt hsend)
  have hwanted := serveOffer_sent crypto services hdecode hhas hwant rfl
  have hserved (stream : List UInt8) := @serveOffer_sent _ crypto services
    { failures with stream } _ _ hdecode hhas hwant rfl
  unfold offerExchange
  dsimp only
  rw [hsend]
  dsimp only
  rw [hwanted]
  by_cases hthere : services.store.has reference.hash = true
  · rw [if_pos hthere, if_pos hthere, offerAnswered_want, hserved,
      if_pos hthere]
    rfl
  · rw [if_neg hthere, if_neg hthere, offerAnswered_want, hserved,
      if_neg hthere]
    rfl

/-- What was not there and is put can be read. -/
theorem get_putIo {s : ObjectFiles} {put : PutIo} {bytes : List UInt8}
    {addr : Bytes 32} (h : (s.putIo crypto put bytes).1 = .ok addr)
    (habsent : s.has (crypto.blake3 bytes) = false) :
    ((s.putIo crypto put bytes).2.get crypto addr).1 = .ok (some bytes) := by
  obtain ⟨rfl, hputs⟩ := putIo_ok_iff.mp h
  have hnone : s.rows.get (crypto.blake3 bytes) = none := by
    by_contra hsome
    rw [has_iff.mpr hsome] at habsent
    cases habsent
  have hverified (s : ObjectFiles) :
      (s.verified crypto (crypto.blake3 bytes) bytes).1
        = .ok (some bytes) := by
    unfold ObjectFiles.verified ObjectFiles.verifyHash
    rw [if_pos rfl]
  unfold ObjectFiles.putIo
  dsimp only
  by_cases hinline : bytes.length ≤ inlineMax
  · rw [if_pos hinline, hputs.1]
    unfold ObjectFiles.get ObjectFiles.insertObject
    simp only [Bool.false_eq_true, if_false, Rows.get_insertOrIgnore, if_pos,
      hnone, Option.getD_none]
    exact hverified _
  · obtain ⟨hdir, hwrite⟩ := hputs.2 (Nat.lt_of_not_le hinline)
    rw [if_neg hinline, hdir, hwrite, hputs.1]
    unfold ObjectFiles.get ObjectFiles.insertObject ObjectFiles.writeBlob
    simp only [Bool.false_eq_true, if_false, Rows.get_insertOrIgnore, if_pos,
      hnone, Option.getD_none, Table.insert_self]
    exact hverified _

/-- What the two ends of an offer know of each other. -/
structure OfferAgrees (crypto : Crypto) (offerer : Address) (hash : Bytes 32)
    (store : ObjectFiles) (services : StorageServices) (now : UInt64)
    (put : PutIo) (o : OfferOutcome) : Prop where
  /-- The one is told no iff the other has it. -/
  declined : o.offered = .ok false ↔ services.store.has hash = true
  /-- It says yes iff the other has it not, and the one can read it and send
  it in a frame. -/
  sent : o.offered = .ok true
    ↔ services.store.has hash = false
      ∧ ∃ bytes, (store.get crypto hash).1 = .ok (some bytes)
        ∧ bytes.length + headSize now ≤ 65289
  /-- The other takes what is sent, unless its own disk fails. -/
  taken : o.served = some .ingested
    ↔ o.offered = .ok true
      ∧ ∀ bytes, (store.get crypto hash).1 = .ok (some bytes) →
        PutSucceeds put bytes
  /-- It serves what the one does, and knows it as a publisher. -/
  same : o.served = some .ingested →
    (o.services.store.get crypto hash).1 = (store.get crypto hash).1
      ∧ o.services.provenance
        = services.provenance.notePublisher hash offerer
  untouched : o.offered ≠ .ok true → o.services = services

/-- Whatever the stores hold, where an offer arrives and is answered. -/
theorem offer_exchange_agrees (crypto : Crypto) (side peer : Signer crypto)
    (reference : Reference) (store : ObjectFiles) (services : StorageServices)
    (io peerIo : ServeIo) (failures : OfferIo)
    (hfits : ReferenceFits (defaultDepDepthLimit + 1) reference)
    (hframe : (storageOfferEnvelope side peer.publicBytes reference
      io).toWireBytes.length ≤ maxEnvelopeLen)
    (hhas : failures.has = false) (hwant : failures.want = false) :
    OfferAgrees crypto side.publicBytes reference.hash store services
      (io.clock 1) failures.put
      (offerExchange side peer reference store services io peerIo
        failures) := by
  rw [offerExchange_eq hfits hframe hhas hwant]
  by_cases hthere : services.store.has reference.hash = true
  · rw [if_pos hthere]
    refine ⟨iff_of_true rfl hthere, iff_of_false nofun fun h => ?_,
      iff_of_false nofun fun h => (nomatch h.1), nofun, fun _ => rfl⟩
    rw [hthere] at h
    cases h.1
  · rw [if_neg hthere]
    have habsent := Bool.eq_false_iff.mpr hthere
    rcases sendWanted_cases side peer.publicBytes reference.hash store io
      with ⟨bytes, frame, hget, hsend, hyes, hwritten⟩ | ⟨⟨e, he⟩, hnil, hlong⟩
    · have hhash := blake3_of_get hget
      have hshort := (have_ok_iff ..).mp ⟨frame, hsend⟩
      dsimp only
      rw [hwritten, serveHave_sent hhash hsend, hyes]
      have hok : ∀ addr, (services.store.putIo crypto failures.put bytes).1
            = .ok addr
          ↔ crypto.blake3 bytes = addr ∧ PutSucceeds failures.put bytes :=
        fun addr => putIo_ok_iff
      have hread : ∀ addr, (services.store.putIo crypto failures.put bytes).1
            = .ok addr →
          ((services.store.putIo crypto failures.put bytes).2.get crypto
            addr).1 = .ok (some bytes) :=
        fun addr h => get_putIo h (hhash ▸ habsent)
      have hall : (∀ bytes', (store.get crypto reference.hash).1
            = .ok (some bytes') → PutSucceeds failures.put bytes')
          ↔ PutSucceeds failures.put bytes := by
        refine ⟨fun h => h bytes hget, fun h bytes' hget' => ?_⟩
        rw [hget] at hget'
        cases hget'
        exact h
      generalize services.store.putIo crypto failures.put bytes = put
        at hok hread
      have hsent : services.store.has reference.hash = false
          ∧ ∃ bytes, (store.get crypto reference.hash).1 = .ok (some bytes)
            ∧ bytes.length + headSize (io.clock 1) ≤ 65289 :=
        ⟨habsent, bytes, hget, hshort⟩
      obtain ⟨result, left⟩ := put
      cases result with
      | error e =>
          have hfails : ¬ PutSucceeds failures.put bytes := fun hputs =>
            nomatch (hok reference.hash).mpr ⟨hhash, hputs⟩
          exact ⟨iff_of_false nofun hthere, iff_of_true rfl hsent,
            iff_of_false nofun fun h => hfails (hall.mp h.2), nofun,
            fun hnot => absurd rfl hnot⟩
      | ok addr =>
          obtain ⟨haddr, hputs⟩ := (hok addr).mp rfl
          obtain rfl : reference.hash = addr := hhash.symm.trans haddr
          exact ⟨iff_of_false nofun hthere, iff_of_true rfl hsent,
            iff_of_true rfl ⟨rfl, hall.mpr hputs⟩,
            fun _ => ⟨(hread _ rfl).trans hget.symm, rfl⟩,
            fun hnot => absurd rfl hnot⟩
    · dsimp only
      rw [hnil, serveHave_nothing, he]
      refine ⟨iff_of_false nofun hthere, iff_of_false nofun ?_,
        iff_of_false nofun fun h => (nomatch h.1), nofun, fun _ => rfl⟩
      rintro ⟨-, bytes, hget, hshort⟩
      exact absurd hshort (Nat.not_le.mpr (hlong bytes hget))

/-- None of the other's calls fails. -/
def smooth : OfferIo := ⟨false, false, [], .fine⟩

/-- A node that has one byte offers it to one that has nothing. -/
theorem offer_exchange_agrees_byte :
    let o := offerExchange offerer (Signer.legible (Bytes.fill 32 9))
      (.new offeredHash 1 singleMime)
      (ObjectFiles.init.put Crypto.legible [1]).2 ⟨.init, .empty⟩ stillIo
      stillIo smooth
    o.offered = .ok true ∧ o.served = some .ingested
      ∧ (o.services.store.get Crypto.legible offeredHash).1
        = .ok (some [1]) := by
  have hget : ((ObjectFiles.init.put Crypto.legible [1]).2.get Crypto.legible
      offeredHash).1 = .ok (some [1]) := by decide
  have hagrees := offer_exchange_agrees Crypto.legible offerer
    (Signer.legible (Bytes.fill 32 9)) (.new offeredHash 1 singleMime)
    (ObjectFiles.init.put Crypto.legible [1]).2 ⟨.init, .empty⟩ stillIo
    stillIo smooth ⟨by decide, by decide, nofun⟩ (by decide +kernel) rfl rfl
  have hsent := hagrees.sent.mpr ⟨rfl, [1], hget, by decide⟩
  have htaken := hagrees.taken.mpr ⟨hsent, fun bytes _ => ⟨rfl, fun _ =>
    ⟨rfl, rfl⟩⟩⟩
  exact ⟨hsent, htaken, (hagrees.same htaken).1.trans hget⟩

-- ========================================================== from anybody

/-- What writes to a node's objects. -/
inductive StoreAction where
  /-- A peer's offer, and what the peer sends after it. -/
  | offer (io : OfferIo) (env : SignedEnvelope)
  /-- The node's own. -/
  | put (io : PutIo) (bytes : List UInt8)

/-- The effect of it. -/
def storeStep (crypto : Crypto) (s : StorageServices) :
    StoreAction → Option StorageServices
  | .offer io env => some (s.serveOffer crypto io env).2.2
  | .put io bytes =>
      some { s with store := (s.store.putIo crypto io bytes).2 }

/-- The node does not put the object itself, nor do other bytes of its hash
come up. -/
def NotPut (crypto : Crypto) (object : List UInt8) (_ : StorageServices) :
    StoreAction → Prop
  | .offer io _ => ∀ hash bytes,
      haveBytes crypto io.stream hash = some bytes →
      crypto.blake3 bytes = crypto.blake3 object → bytes = object
  | .put _ bytes => crypto.blake3 bytes ≠ crypto.blake3 object

/-- An envelope that is received was in a frame. -/
theorem length_wire_of_recv {stream : List UInt8} {env : SignedEnvelope}
    (h : recvEnvelope crypto stream = .ok env) :
    env.toWireBytes.length ≤ maxEnvelopeLen := by
  obtain ⟨-, h⟩ := guard_ok.mp h
  obtain ⟨hlen, h⟩ := guard_ok.mp h
  obtain ⟨-, h⟩ := guard_ok.mp h
  have hmax := Nat.le_of_not_lt (not_or.mp hlen).2
  dsimp only at h hmax
  split at h
  case h_1 => cases h
  case h_2 hwire =>
    cases h
    have htake := congrArg List.length (form_of_fromWireBytes hwire).1
    rw [List.length_take] at htake
    omega

theorem length_payload_of_recv {stream : List UInt8} {env : SignedEnvelope}
    (h : recvEnvelope crypto stream = .ok env) :
    env.payload.length ≤ maxEnvelopeLen := by
  have hwire := length_wire_of_recv h
  have hpayload : (bytes env.payload).length ≤ env.toWireBytes.length := by
    apply length_value_le (e := ⟨key "payload", bytes env.payload⟩)
    iterate 7 apply List.mem_cons_of_mem
    exact List.mem_cons_self
  rw [length_string] at hpayload
  have hle := le_stringSize env.payload.length
  omega

/-- What comes in a frame is shorter than it. -/
theorem length_have_lt {stream : List UInt8} {bytes : List UInt8}
    (h : haveBytes crypto stream hash = some bytes) :
    bytes.length < maxEnvelopeLen := by
  obtain ⟨payload, hfollow, hpayload⟩ := Option.bind_eq_some_iff.mp h
  have hbytes : payload.bytes = bytes := by
    split at hpayload
    · cases hpayload
    · exact Option.some.inj hpayload
  subst hbytes
  unfold followUp at hfollow
  cases hrecv : recvEnvelope crypto stream with
  | error e =>
      rw [hrecv] at hfollow
      cases hfollow
  | ok env =>
      rw [hrecv] at hfollow
      dsimp only at hfollow
      split at hfollow
      · cases hfollow
      · cases hdecode : StorageHavePayload.decode env.payload with
        | error e =>
            rw [hdecode] at hfollow
            cases hfollow
        | ok p =>
            rw [hdecode] at hfollow
            cases hfollow
            have hlen := length_payload_of_recv hrecv
            obtain ⟨rest, hform, -⟩ := spells_storageHave.of_value hdecode
            have hhave := length_storageHave payload
            rw [haveSize_eq] at hhave
            have hle := le_stringSize payload.bytes.length
            have hsum := congrArg List.length hform
            rw [List.length_append] at hsum
            omega

/-- Step lemma. -/
theorem absent_step {s s' : StorageServices} {a : StoreAction}
    {object : List UInt8} (hlarge : maxEnvelopeLen ≤ object.length)
    (hok : NotPut crypto object s a)
    (h : s.store.has (crypto.blake3 object) = false)
    (hstep : storeStep crypto s a = some s') :
    s'.store.has (crypto.blake3 object) = false := by
  rw [Bool.eq_false_iff] at h ⊢
  intro hthere
  cases a with
  | put io bytes =>
      cases hstep
      rcases has_putIo.mp hthere with hbefore | ⟨hhash, -⟩
      · exact h hbefore
      · exact hok hhash.symm
  | offer io env =>
      cases hstep
      cases hdecode : StorageOfferPayload.decode env.payload with
      | error e =>
          unfold StorageServices.serveOffer at hthere
          rw [hdecode] at hthere
          exact h hthere
      | ok offer =>
          rcases serveOffer_cases hdecode with ⟨hsame, -⟩ | ⟨hserved, -⟩
          · rw [hsame] at hthere
            exact h hthere
          · rw [hserved] at hthere
            cases hhave : haveBytes crypto io.stream offer.reference.hash with
            | none =>
                rw [serveHave_none hhave] at hthere
                exact h hthere
            | some bytes =>
                rw [serveHave_some hhave] at hthere
                rcases has_putIo.mp hthere with hbefore | ⟨hhash, -⟩
                · exact h hbefore
                · have hshort := length_have_lt hhave
                  rw [hok _ bytes hhave hhash.symm] at hshort
                  omega

/-- In every run, whatever peers offer and send: of content as large as a
frame, the first of the objects that `put_chunked` makes of it is never held
by a node that did not put it itself. -/
theorem large_objects_never_arrive (crypto : Crypto)
    (s₀ s : StorageServices) (acts : List StoreAction) (content : List UInt8)
    (hlarge : maxEnvelopeLen ≤ content.length)
    (hrun : run (storeStep crypto) s₀ acts = some s)
    (hok : Along (storeStep crypto)
      (NotPut crypto (content.take chunkMax)) s₀ acts)
    (habsent : s₀.store.has (crypto.blake3 (content.take chunkMax)) = false) :
    content.take chunkMax ∈ chunkedObjects crypto content
      ∧ s.store.has (crypto.blake3 (content.take chunkMax)) = false := by
  have hframe : maxEnvelopeLen = 65536 := rfl
  have hmax : chunkMax = 262144 := rfl
  have hne : content ≠ [] := by
    rintro rfl
    rw [List.length_nil] at hlarge
    omega
  have hfirst : maxEnvelopeLen ≤ (content.take chunkMax).length := by
    rw [List.length_take]
    omega
  obtain ⟨rest, hrest⟩ := chunkedObjects_first crypto hne
  refine ⟨?_, run_induct (fun _ _ _ hok h hstep =>
    absent_step hfirst hok h hstep) hok habsent hrun⟩
  rw [hrest]
  exact List.mem_cons_self

/-- A frame's worth of zeros, while a peer offers something else and the node
puts something else. -/
theorem large_objects_never_arrive_zeros :
    ∃ s, run (storeStep Crypto.legible) ⟨.init, .empty⟩
        [.offer smooth offerEnvelope, .put .fine [1]] = some s
      ∧ s.store.has (Crypto.legible.blake3 ((List.replicate 65536 0).take
        chunkMax)) = false := by
  have hzeros : (List.replicate 65536 (0 : UInt8)).take chunkMax
      = List.replicate 65536 0 := by
    rw [List.take_replicate]
    rfl
  have hhash : Crypto.legible.blake3 ((List.replicate 65536 0).take chunkMax)
      = Bytes.fill 32 0 := by
    rw [hzeros]
    exact legible_zeros 65536
  refine ⟨_, rfl, (large_objects_never_arrive Crypto.legible ⟨.init, .empty⟩
    _ [.offer smooth offerEnvelope, .put .fine [1]] (List.replicate 65536 0)
    ?_ rfl ?_ ?_).2⟩
  · rw [List.length_replicate]
    exact Nat.le_refl _
  · refine ⟨fun hash bytes hhave => (nomatch hhave), fun s _ =>
      ⟨?_, fun _ _ => trivial⟩⟩
    change Crypto.legible.blake3 [1] ≠ _
    rw [hhash]
    decide
  · rfl

end Sidevers.Proofs
