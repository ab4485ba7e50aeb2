/-
A session goes on for as long as what it is asked for fits a frame.

An answer that does not fit ends the session (`goes_on_iff`), and what an
answer takes is known from what it is made of (`Sidevers.Proofs.WireSizes`),
so each handler has a condition on the node and the request under which its
answer fits (`RequestInFrame`); a join request needs none (`session_goes_on`).
No other bound is put on what a node holds: an object, a profile, a contract,
the list of relationships may each be too large for the frame, and so is the
first chunk of every object that is (`first_chunk_ends_session`).
-/
import Sidevers.Net.Serving
import Sidevers.Proofs.SignedForms
import Sidevers.Proofs.WireSizes

namespace Sidevers.Proofs

open Sidevers.Core
open Sidevers.Lib
open Sidevers.Net
open Cbor

variable {crypto : Crypto}

-- =========================================================== the frames

/-- An answer of this type, with so many bytes of payload, fits a frame. -/
def InFrame (messageType : MessageType) (now : UInt64) (payload : Nat) :
    Prop :=
  envelopeSize messageType now payload ≤ maxEnvelopeLen

theorem sendEnvelope_ok_iff (env : SignedEnvelope) :
    (∃ wire, sendEnvelope env = .ok wire)
      ↔ env.toWireBytes.length ≤ maxEnvelopeLen := by
  unfold sendEnvelope
  dsimp only
  split
  case isTrue h =>
    refine iff_of_false ?_ (Nat.not_le.mpr h)
    rintro ⟨wire, hwire⟩
    cases hwire
  case isFalse h => exact iff_of_true ⟨_, rfl⟩ (Nat.not_lt.mp h)

/-- A handler's outcome with which the loop goes on. -/
def GoesOn (r : Except Net.Error (Response crypto)) : Prop :=
  ∃ response, r = .ok response
    ∧ ∀ answer ∈ response.answer, answer.toWireBytes.length ≤ maxEnvelopeLen

/-- It does iff the session is up afterwards. -/
theorem goes_on_iff {sealTo : Seal crypto} {w w' : ServingSession crypto}
    {env : SignedEnvelope} {io : ServeIo}
    (h : servingStep sealTo w (.request env io) = some w') :
    w'.up = true ↔ GoesOn (w.loop.respond sealTo w.node env io) := by
  simp only [servingStep] at h
  split at h
  case isTrue => cases h
  case isFalse hserved =>
    have hup : w.up = true := by
      cases hup : w.up with
      | false => exact absurd (Or.inl hup) hserved
      | true => rfl
    split at h
    case h_1 e heq =>
      obtain rfl := Option.some.inj h
      refine iff_of_false (by simp) ?_
      rintro ⟨response, hresponse, -⟩
      rw [heq] at hresponse
      cases hresponse
    case h_2 response heq =>
      have hgoes : GoesOn (w.loop.respond sealTo w.node env io)
          ↔ ∀ answer ∈ response.answer,
            answer.toWireBytes.length ≤ maxEnvelopeLen := by
        rw [heq]
        constructor
        · rintro ⟨response', hresponse, hfits⟩
          cases hresponse
          exact hfits
        · exact fun hfits => ⟨response, rfl, hfits⟩
      rw [hgoes]
      split at h
      case h_1 hanswer =>
        obtain rfl := Option.some.inj h
        exact iff_of_true hup (by simp [hanswer])
      case h_2 answer hanswer =>
        have hone : (∀ answer ∈ response.answer,
              answer.toWireBytes.length ≤ maxEnvelopeLen)
            ↔ ∃ wire, sendEnvelope answer = .ok wire := by
          rw [sendEnvelope_ok_iff, hanswer]
          simp
        rw [hone]
        split at h
        case h_1 wire hwire =>
          obtain rfl := Option.some.inj h
          exact iff_of_true hup ⟨wire, hwire⟩
        case h_2 e hwire =>
          obtain rfl := Option.some.inj h
          refine iff_of_false (by simp) ?_
          rintro ⟨wire, hok⟩
          rw [hwire] at hok
          cases hok

theorem goesOn_silent (n : ServingNode crypto) : GoesOn (.ok n.silent) :=
  ⟨n.silent, rfl, fun answer h => by cases h⟩

/-- An answer to a side. -/
theorem goesOn_signWith {signer : Signer crypto} {peer : Address}
    {messageType : MessageType} {payload : List UInt8} {now : UInt64}
    {nonce : Nonce} {size : Nat} (hsize : payload.length = size)
    {node sent : ServingNode crypto} :
    GoesOn (.ok ⟨some (.signWith messageType signer (some peer) payload now
        nonce), node, sent⟩)
      ↔ InFrame messageType now size := by
  unfold InFrame
  rw [← hsize, ← length_signWith messageType signer peer payload now nonce]
  constructor
  · rintro ⟨response, hresponse, hfits⟩
    cases hresponse
    exact hfits _ rfl
  · intro hfits
    refine ⟨_, rfl, fun answer hanswer => ?_⟩
    cases hanswer
    exact hfits

-- ============================================================ the direct

/-- PROFILE_FETCH: the profile, where it is this side's that is asked for. -/
def ProfileInFrame (n : ServingNode crypto) (env : SignedEnvelope)
    (io : ServeIo) : Prop :=
  env.payload = n.side.publicBytes.val → ∀ profile ∈ n.profile,
    InFrame .profileDeliver (io.clock 0) (profileSize profile)

theorem profileFetch_goesOn (n : ServingNode crypto) (env : SignedEnvelope)
    (io : ServeIo) :
    GoesOn (.ok (n.profileFetch env io)) ↔ ProfileInFrame n env io := by
  unfold ServingNode.profileFetch ProfileInFrame
  split
  case isTrue hlen =>
    refine iff_of_true (goesOn_silent n) fun heq => absurd ?_ hlen
    rw [heq]
    exact length_val _
  case isFalse =>
    split
    case isTrue hother =>
      exact iff_of_true (goesOn_silent n) fun heq => absurd heq hother
    case isFalse hown =>
      rw [not_not] at hown
      cases n.profile with
      | none => exact iff_of_true (goesOn_silent n) fun _ _ h => by cases h
      | some profile =>
          refine (goesOn_signWith (length_profile profile)).trans ?_
          simp [hown]

/-- The bytes of the bundle, before it is sealed. -/
def nodeBundleSize (n : ServingNode crypto) (now : UInt64) : Nat :=
  mapSize
    [("profile", orNullSize (fun p => stringSize (profileSize p)) n.profile),
     ("lifecycle", textSize (lifecycleLabel n.lifecycle)),
     ("side_seed", stringSize 32), ("bundled_at", headSize now),
     ("co_holders", arraySize (n.coHolders.map fun _ => stringSize 32)),
     ("relationships", arraySize (n.relationships.map fun r =>
       relationshipSize (ServingNode.relationshipRecord r))),
     ("retired_sides", arraySize (n.retiredSeen.map fun _ => stringSize 32))]

/-- The order of the items is of no account. -/
theorem arraySize_perm {items items' : List Nat} (h : items.Perm items') :
    arraySize items = arraySize items' := by
  rw [arraySize, arraySize, h.length_eq, h.sum_nat]

theorem length_nodeBundle (n : ServingNode crypto) (now : UInt64) :
    (n.buildStateBundleInner now).encode.length = nodeBundleSize n now := by
  have hsorted (addresses : List Address) :
      arraySize ((addresses.insertionSort ServingNode.byAddress).map
          fun _ => stringSize 32)
        = arraySize (addresses.map fun _ => stringSize 32) :=
    arraySize_perm ((List.perm_insertionSort _ addresses).map _)
  have hrelationships : arraySize
        ((n.buildStateBundleInner now).relationships.map relationshipSize)
      = arraySize (n.relationships.map fun r =>
        relationshipSize (ServingNode.relationshipRecord r)) := by
    rw [← Function.comp_def relationshipSize, ← List.map_map]
    exact arraySize_perm ((List.perm_insertionSort ..).map _)
  have hprofile : orNullSize (fun b => stringSize b.length)
        (n.buildStateBundleInner now).profileWire
      = orNullSize (fun p => stringSize (profileSize p)) n.profile := by
    unfold ServingNode.buildStateBundleInner
    cases n.profile with
    | none => rfl
    | some p => simp [orNullSize, length_profile]
  rw [length_bundle, bundleSize, hrelationships, hprofile, nodeBundleSize,
    ← hsorted n.coHolders, ← hsorted n.retiredSeen]
  rfl

/-- What is relied on of `payload::seal`: a tag of 16 bytes, and no failure on
a key's worth of bytes for a recipient whose signatures verify. -/
structure SealsAs (sealTo : Seal crypto) : Prop where
  length : ∀ plain signer recipient nonce aad sealedBytes,
    sealTo plain signer recipient nonce aad = .ok sealedBytes →
    sealedBytes.length = plain.length + 16
  key : ∀ plain signer recipient nonce aad digest signature,
    plain.length = 32 → crypto.verify recipient digest signature = .ok () →
    ∃ sealedBytes,
      sealTo plain signer recipient nonce aad = .ok sealedBytes

/-- A pairing nonce that is known, and not too old. -/
def PairingPending (n : ServingNode crypto) (nonce : Bytes 16) (now : UInt64) :
    Prop :=
  ∃ p ∈ n.pendingPairings nonce, saturatingSub now p.issuedAt < pairingTtlSecs

/-- DEVICE_PAIRING_REQUEST: the bundle, if the request is for this side, its
nonce is pending, and the device's key is one that can be sealed to. -/
def BundleInFrame (sealTo : Seal crypto) (n : ServingNode crypto)
    (env : SignedEnvelope) (io : ServeIo) : Prop :=
  ∀ req sealedState,
    SignedPairingRequest.fromWireBytes crypto env.payload = .ok req →
    req.side = n.side.publicBytes →
    PairingPending n req.nonce (io.clock 0) →
    sealTo (n.buildStateBundleInner (io.clock 1)).encode n.side
      req.deviceX25519Pubkey (io.nonces 0) stateBundleAad = .ok sealedState →
    InFrame .deviceStateBundle (io.clock 2)
      (signedBundleSize (nodeBundleSize n (io.clock 1) + 16))

theorem takePendingPairing_isSome_iff (n : ServingNode crypto)
    (nonce : Bytes 16) (now : UInt64) :
    (∃ p, (n.takePendingPairing nonce now).1 = some p)
      ↔ PairingPending n nonce now := by
  simp [ServingNode.takePendingPairing, PairingPending, Option.filter_eq_some_iff]

theorem devicePairingRequest_goesOn {sealTo : Seal crypto}
    (hseal : SealsAs sealTo) (n : ServingNode crypto) (env : SignedEnvelope)
    (io : ServeIo) :
    GoesOn (.ok (n.devicePairingRequest sealTo env io))
      ↔ BundleInFrame sealTo n env io := by
  unfold ServingNode.devicePairingRequest BundleInFrame
  cases hreq : SignedPairingRequest.fromWireBytes crypto env.payload with
  | error e =>
      exact iff_of_true (goesOn_silent n) fun req _ h => by cases h
  | ok req =>
      dsimp only
      split
      case isTrue hother =>
        refine iff_of_true (goesOn_silent n) fun req' _ hreq' hown => ?_
        cases hreq'
        exact absurd hown hother
      case isFalse hown =>
        have hpending := takePendingPairing_isSome_iff n req.nonce (io.clock 0)
        have hbundle : (n.takePendingPairing req.nonce
            (io.clock 0)).2.buildStateBundleInner (io.clock 1)
          = n.buildStateBundleInner (io.clock 1) := rfl
        have hside : (n.takePendingPairing req.nonce (io.clock 0)).2.side
          = n.side := rfl
        generalize n.takePendingPairing req.nonce (io.clock 0) = taken
          at hpending hbundle hside
        obtain ⟨found, n'⟩ := taken
        cases found with
        | none =>
            refine iff_of_true (goesOn_silent n') fun req' _ hreq' _ hp => ?_
            cases hreq'
            obtain ⟨p, hp⟩ := hpending.mpr hp
            cases hp
        | some p =>
            have hp : PairingPending n req.nonce (io.clock 0) :=
              hpending.mp ⟨p, rfl⟩
            dsimp only at hbundle hside ⊢
            rw [hbundle, hside]
            split
            case h_1 e hsealed =>
              refine iff_of_true (goesOn_silent n')
                fun req' _ hreq' _ _ hok => ?_
              cases hreq'
              rw [hsealed] at hok
              cases hok
            case h_2 sealedState hsealed =>
              have hlen := hseal.length _ _ _ _ _ _ hsealed
              rw [length_nodeBundle] at hlen
              have hsize := length_signedBundle (SignedStateBundle.sign n.side
                req.devicePubkey req.nonce (io.nonces 0) sealedState)
              refine (goesOn_signWith hsize).trans ?_
              constructor
              · intro hfits req' sealed' hreq' _ _ hok
                cases hreq'
                rw [← hlen]
                exact hfits
              · intro hfits
                have := hfits req sealedState rfl (not_not.mp hown) hp hsealed
                rw [← hlen] at this
                exact this

-- =========================================================== the storage

/-- What fits whatever its type. -/
theorem inFrame_of_le {messageType : MessageType} {now : UInt64} {payload : Nat}
    (h : payload ≤ 65000) : InFrame messageType now payload := by
  have htype := headSize_le messageType.byte.toUInt64
  have hnow := headSize_le now
  have hpayload := stringSize_le payload
  rw [InFrame, envelopeSize_eq, maxEnvelopeLen]
  omega

/-- An object leaves 247 bytes of the frame to the rest, and the clock. -/
theorem inFrame_storageHave_iff (now : UInt64) (n : Nat) :
    InFrame .storageHave now (haveSize n) ↔ n + headSize now ≤ 65289 := by
  have hnow := headSize_le now
  have htype : headSize MessageType.storageHave.byte.toUInt64 = 2 := rfl
  rw [InFrame, envelopeSize_eq, haveSize_eq, htype, maxEnvelopeLen]
  have hobject := le_stringSize n
  have hpayload := le_stringSize (53 + stringSize n)
  rcases Nat.lt_or_ge 65300 n with hlarge | hsmall
  · omega
  · rcases Nat.lt_or_ge 0xFF n with hlong | hshort
    · have hn : stringSize n = 3 + n := by
        rw [stringSize, headSize_eq_three hlong (by omega)]
      have hp : stringSize (53 + stringSize n) = 3 + (53 + stringSize n) := by
        rw [stringSize, headSize_eq_three (by omega) (by omega)]
      omega
    · have hn := stringSize_le n
      have hp := stringSize_le (53 + stringSize n)
      omega

/-- STORAGE_GET: what is asked for is short enough. -/
def ObjectInFrame (n : ServingNode crypto) (env : SignedEnvelope)
    (io : ServeIo) : Prop :=
  ∀ req, StorageGetPayload.decode env.payload = .ok req →
    ∀ bytes ∈ n.requestedBytes req,
      bytes.length + headSize (io.clock 0) ≤ 65289

theorem storageGet_goesOn (n : ServingNode crypto) (env : SignedEnvelope)
    (io : ServeIo) :
    GoesOn (.ok (n.storageGet env io)) ↔ ObjectInFrame n env io := by
  unfold ServingNode.storageGet ObjectInFrame
  cases StorageGetPayload.decode env.payload with
  | error e => exact iff_of_true (goesOn_silent n) fun req h => by cases h
  | ok req =>
      dsimp only
      cases hbytes : n.requestedBytes req with
      | none =>
          refine iff_of_true ?_ fun req' hreq' bytes hmem => ?_
          · exact (goesOn_signWith (length_storageMiss req.hash)).mpr
              (inFrame_of_le (by decide))
          · cases hreq'
            rw [hbytes] at hmem
            cases hmem
      | some bytes =>
          have hsize := length_storageHave ⟨req.hash, bytes, true⟩
          refine ((goesOn_signWith hsize).trans
            (inFrame_storageHave_iff ..)).trans ?_
          constructor
          · intro hfits req' hreq' bytes' hmem
            cases hreq'
            rw [hbytes] at hmem
            cases hmem
            exact hfits
          · exact fun hfits => hfits req rfl bytes hbytes

-- ============================================================ the gossip

/-- PEER_ASK: the peers of the sample. -/
def PeersInFrame (n : ServingNode crypto) (env : SignedEnvelope)
    (io : ServeIo) : Prop :=
  ∀ req, PeerAskPayload.decode env.payload = .ok req →
    InFrame .peerTell (io.clock 0)
      (peerTellSize (n.samplePeers (min req.limit 256).toNat req.intentFilter))

theorem peerAsk_goesOn (n : ServingNode crypto) (env : SignedEnvelope)
    (io : ServeIo) :
    GoesOn (.ok (n.peerAsk env io)) ↔ PeersInFrame n env io := by
  unfold ServingNode.peerAsk PeersInFrame
  cases PeerAskPayload.decode env.payload with
  | error e => exact iff_of_true (goesOn_silent n) fun req h => by cases h
  | ok req =>
      refine (goesOn_signWith (length_peerTell _)).trans ?_
      simp

/-- RENDEZVOUS: the endpoints of the target. -/
def EndpointsInFrame (n : ServingNode crypto) (env : SignedEnvelope)
    (io : ServeIo) : Prop :=
  ∀ req, RendezvousPayload.decode env.payload = .ok req →
    InFrame .rendezvousAck (io.clock 0)
      (rendezvousAckSize (n.endpoints req.target))

theorem rendezvous_goesOn (n : ServingNode crypto) (env : SignedEnvelope)
    (io : ServeIo) :
    GoesOn (.ok (n.rendezvous env io)) ↔ EndpointsInFrame n env io := by
  unfold ServingNode.rendezvous EndpointsInFrame
  cases RendezvousPayload.decode env.payload with
  | error e => exact iff_of_true (goesOn_silent n) fun req h => by cases h
  | ok req =>
      refine (goesOn_signWith (length_rendezvousAck ..)).trans ?_
      simp

-- ============================================================= the verse

/-- CONTRACT_FETCH: the contract of the verse that is served by default. -/
def ContractInFrame (n : ServingNode crypto) (defaultAddr : Address)
    (io : ServeIo) : Prop :=
  ∀ host ∈ n.verses defaultAddr,
    InFrame .contractDeliver (io.clock 0)
      (mapSize [("contract", contractSize host.contract)])

theorem contractFetch_goesOn (n : ServingNode crypto) (defaultAddr : Address)
    (env : SignedEnvelope) (io : ServeIo) :
    GoesOn (.ok (n.contractFetch defaultAddr env io))
      ↔ ContractInFrame n defaultAddr io := by
  unfold ServingNode.contractFetch ContractInFrame
  cases n.verses defaultAddr with
  | none => exact iff_of_true (goesOn_silent n) fun host h => by cases h
  | some host =>
      refine (goesOn_signWith (length_contractDeliver _)).trans ?_
      simp

/-- A declined or an accepted join is short. -/
theorem joinDecline_le {contract : ContractObject} {req : JoinRequestPayload}
    {reason : String}
    (h : VerseHost.joinProblem crypto contract req = some reason) :
    joinDeclineSize reason ≤ 65000 := by
  unfold VerseHost.joinProblem at h
  split at h
  case isTrue =>
    cases h
    decide
  case isFalse =>
    split at h
    case isTrue =>
      cases h
      decide
    case isFalse =>
      split at h
      case isTrue =>
        cases h
        decide
      case isFalse => cases h

theorem joinAccept_le (issuedAt : UInt64) :
    joinAcceptSize (tokenSize issuedAt) 48 ≤ 65000 := by
  have hissued := headSize_le issuedAt
  have htoken : tokenSize issuedAt = 216 + headSize issuedAt := by
    change 1 + (6 + 34 + (7 + 34 + (10 + headSize issuedAt + (10 + 66
      + (14 + 34 + 0))))) = _
    omega
  have hlen := stringSize_le (tokenSize issuedAt)
  have haccept : joinAcceptSize (tokenSize issuedAt) 48
      = 114 + stringSize (tokenSize issuedAt) := by
    change 1 + (10 + 17 + (17 + stringSize (tokenSize issuedAt)
      + (19 + 50 + 0))) = _
    omega
  omega

/-- The signature of a join request is one of the side that asks. -/
theorem verify_of_joinRequest {wire : List UInt8} {req : SignedJoinRequest}
    (h : SignedJoinRequest.decode crypto wire = .ok req) :
    ∃ digest, crypto.verify req.side digest req.signature = .ok () := by
  obtain ⟨p, -, h⟩ := ok_of_bind h
  obtain ⟨_, hverify, h⟩ := ok_of_bind h
  cases h
  exact ⟨_, hverify⟩

/-- JOIN_REQUEST: the answer always fits, and there is one. -/
theorem joinRequest_goesOn {sealTo : Seal crypto} (hseal : SealsAs sealTo)
    (n : ServingNode crypto) (index : Table (Bytes 32) Address)
    (defaultAddr : Address) (env : SignedEnvelope) (io : ServeIo) :
    GoesOn (n.joinRequest sealTo index defaultAddr env io) := by
  unfold ServingNode.joinRequest
  cases hreq : SignedJoinRequest.decode crypto env.payload with
  | error e => exact goesOn_silent n
  | ok req =>
      dsimp only
      cases n.joinHost index defaultAddr req.contractHash with
      | none => exact goesOn_silent n
      | some host =>
          dsimp only
          cases hproblem : VerseHost.joinProblem crypto host.contract
              req.toJoinRequestPayload with
          | some reason =>
              exact (goesOn_signWith (length_joinDecline _ reason)).mpr
                (inFrame_of_le (joinDecline_le hproblem))
          | none =>
              obtain ⟨digest, hverify⟩ := verify_of_joinRequest hreq
              obtain ⟨sealedBytes, hsealed⟩ := hseal.key host.contentKey.val
                host.verseKey req.side (io.nonces 0)
                ServingNode.verseKeyShareAad digest req.signature
                (length_val _) hverify
              have hlen := hseal.length _ _ _ _ _ _ hsealed
              rw [length_val] at hlen
              dsimp only
              rw [hsealed]
              refine (goesOn_signWith (length_joinAccept _)).mpr ?_
              rw [length_token, hlen]
              exact inFrame_of_le (joinAccept_le _)

-- =========================================================== the sessions

/-- The condition on a request, by the loop it comes to. -/
def RequestInFrame (sealTo : Seal crypto) (n : ServingNode crypto)
    (env : SignedEnvelope) (io : ServeIo) : ServeLoop → Prop
  | .direct =>
      (env.messageType = .profileFetch → ProfileInFrame n env io)
        ∧ (env.messageType = .devicePairingRequest →
          BundleInFrame sealTo n env io)
  | .storage => env.messageType = .storageGet → ObjectInFrame n env io
  | .gossip =>
      (env.messageType = .peerAsk → PeersInFrame n env io)
        ∧ (env.messageType = .rendezvous → EndpointsInFrame n env io)
  | .verse _ defaultAddr =>
      env.messageType = .contractFetch → ContractInFrame n defaultAddr io

theorem respond_goesOn {sealTo : Seal crypto} (hseal : SealsAs sealTo)
    (n : ServingNode crypto) (env : SignedEnvelope) (io : ServeIo)
    (loop : ServeLoop) :
    GoesOn (loop.respond sealTo n env io)
      ↔ RequestInFrame sealTo n env io loop := by
  cases loop with
  | direct =>
      dsimp only [ServeLoop.respond, RequestInFrame]
      split
      case isTrue htype =>
        simp [profileFetch_goesOn, htype, MessageType.profileFetch,
          MessageType.devicePairingRequest]
      case isFalse hother =>
        split
        case isTrue htype =>
          simp [devicePairingRequest_goesOn hseal, htype,
            MessageType.profileFetch, MessageType.devicePairingRequest]
        case isFalse hother' => simp [goesOn_silent, hother, hother']
  | storage =>
      dsimp only [ServeLoop.respond, RequestInFrame]
      split
      case isTrue htype => simp [storageGet_goesOn, htype]
      case isFalse hother => simp [goesOn_silent, hother]
  | gossip =>
      dsimp only [ServeLoop.respond, RequestInFrame]
      split
      case isTrue htype =>
        simp [peerAsk_goesOn, htype, MessageType.peerAsk,
          MessageType.rendezvous]
      case isFalse hother =>
        split
        case isTrue htype =>
          simp [rendezvous_goesOn, htype, MessageType.peerAsk,
            MessageType.rendezvous]
        case isFalse hother' => simp [goesOn_silent, hother, hother']
  | verse index defaultAddr =>
      dsimp only [ServeLoop.respond, RequestInFrame]
      split
      case isTrue htype => simp [contractFetch_goesOn, htype]
      case isFalse hother =>
        split
        case isTrue htype => simp [joinRequest_goesOn hseal, hother]
        case isFalse hother' => simp [goesOn_silent, hother]

/-- What is asked of an action: of a request that the loop takes, that its
answer fits. -/
def AnswerInFrame (sealTo : Seal crypto) (w : ServingSession crypto) :
    ServingAction crypto → Prop
  | .request env io =>
      w.loop.intent.accepts env.messageType = true →
        RequestInFrame sealTo w.node env io w.loop
  | .putChunked _ | .other _ => True

/-- A request that the loop takes has an outcome. -/
theorem request_enabled {sealTo : Seal crypto} {w : ServingSession crypto}
    (env : SignedEnvelope) (io : ServeIo) (hup : w.up = true)
    (haccepts : w.loop.intent.accepts env.messageType = true) :
    ∃ w', servingStep sealTo w (.request env io) = some w' := by
  simp only [servingStep, hup, haccepts, reduceCtorEq, or_self, if_false]
  cases w.loop.respond sealTo w.node env io with
  | error e => exact ⟨_, rfl⟩
  | ok response =>
      dsimp only
      cases response.answer with
      | none => exact ⟨_, rfl⟩
      | some answer =>
          dsimp only
          cases sendEnvelope answer with
          | ok wire => exact ⟨_, rfl⟩
          | error e => exact ⟨_, rfl⟩

/-- A session stays up through a run iff every request of the run that it
takes meets the condition. -/
theorem session_goes_on {sealTo : Seal crypto} (hseal : SealsAs sealTo)
    (n : ServingNode crypto) (loop : ServeLoop)
    {acts : List (ServingAction crypto)} :
    (∀ as bs w, as ++ bs = acts →
        run (servingStep sealTo) ⟨n, loop, true⟩ as = some w → w.up = true)
      ↔ Along (servingStep sealTo) (AnswerInFrame sealTo) ⟨n, loop, true⟩
        acts := by
  refine along_iff (fun _ hup => hup) (fun w a w' hfits hup hstep => ?_)
    (fun w a hup hnot => ?_) rfl
  · cases a with
    | request env io =>
        refine (goes_on_iff hstep).mpr ((respond_goesOn hseal ..).mpr
          (hfits ?_))
        cases haccepts : w.loop.intent.accepts env.messageType with
        | true => rfl
        | false => simp [servingStep, haccepts] at hstep
    | putChunked bytes =>
        cases hstep
        exact hup
    | other node =>
        cases hstep
        exact hup
  · cases a with
    | request env io =>
        obtain ⟨haccepts, hunfit⟩ := Classical.not_imp.mp hnot
        obtain ⟨w', hstep⟩ : ∃ w', servingStep sealTo w (.request env io)
            = some w' := request_enabled env io hup haccepts
        refine ⟨w', hstep, fun hup' => hunfit ?_⟩
        exact (respond_goesOn hseal ..).mp ((goes_on_iff hstep).mp hup')
    | putChunked bytes => exact absurd trivial hnot
    | other node => exact absurd trivial hnot

-- ============================================================= the chunks

/-- The first object that is put. -/
theorem chunkedObjects_first (crypto : Crypto) {bytes : List UInt8}
    (h : bytes ≠ []) :
    ∃ rest, chunkedObjects crypto bytes = bytes.take chunkMax :: rest := by
  unfold chunkedObjects
  split
  case isTrue hsmall => exact ⟨[], by rw [List.take_of_length_le hsmall]⟩
  case isFalse =>
    have hne : ¬ (bytes = [] ∨ chunkMax = 0) :=
      not_or.mpr ⟨h, by decide⟩
    rw [chunks, dif_neg hne]
    exact ⟨_, rfl⟩

/-- It stays as it was put. -/
theorem get_putChunked (crypto : Crypto) (store : ObjectStore)
    {bytes : List UInt8} (hne : bytes ≠ [])
    (hnew : store (crypto.blake3 (bytes.take chunkMax)) = none) :
    (putChunked crypto store bytes).get crypto
        (crypto.blake3 (bytes.take chunkMax))
      = some (bytes.take chunkMax) := by
  have hkept (objects : List (List UInt8)) {store : ObjectStore}
      {hash : Bytes 32} {row : List UInt8 × Bool}
      (h : store hash = some row) :
      objects.foldl (ObjectStore.put crypto) store hash = some row := by
    induction objects generalizing store with
    | nil => exact h
    | cons object rest ih =>
        exact ih (Table.insertOrIgnore_of_some _ _ h)
  obtain ⟨rest, hrest⟩ := chunkedObjects_first crypto hne
  have hfirst := hkept rest (Table.insertOrIgnore_of_none
    (bytes.take chunkMax, false) hnew)
  unfold putChunked ObjectStore.get
  rw [hrest, List.foldl_cons, ObjectStore.put, hfirst]
  exact if_pos rfl

/-- Of an object that is larger than a frame, the first chunk can be put but
not fetched: the session it is asked for in ends. -/
theorem first_chunk_ends_session (sealTo : Seal crypto)
    (n : ServingNode crypto) {bytes : List UInt8}
    (hlarge : maxEnvelopeLen < bytes.length)
    (hnew : n.store (crypto.blake3 (bytes.take chunkMax)) = none)
    {env : SignedEnvelope} (io : ServeIo)
    (htype : env.messageType = .storageGet)
    (hreq : StorageGetPayload.decode env.payload
      = .ok ⟨crypto.blake3 (bytes.take chunkMax), none⟩) :
    ∃ w, run (servingStep sealTo) ⟨n, .storage, true⟩
        [.putChunked bytes, .request env io] = some w ∧ w.up = false := by
  have hne : bytes ≠ [] := by
    rintro rfl
    exact Nat.not_lt_zero _ hlarge
  let n' : ServingNode crypto :=
    { n with store := putChunked crypto n.store bytes }
  have hget : n'.requestedBytes
        ⟨crypto.blake3 (bytes.take chunkMax), none⟩
      = some (bytes.take chunkMax) := get_putChunked crypto n.store hne hnew
  have hunfit : ¬ ObjectInFrame n' env io := by
    intro hfits
    have hlen := hfits _ hreq _ hget
    rw [List.length_take] at hlen
    simp only [maxEnvelopeLen, chunkMax] at hlarge hlen
    omega
  have haccepts : ServeLoop.storage.intent.accepts env.messageType = true := by
    rw [htype]
    rfl
  obtain ⟨w, hstep⟩ : ∃ w, servingStep sealTo ⟨n', .storage, true⟩
      (.request env io) = some w := request_enabled env io rfl haccepts
  have hrespond : ServeLoop.storage.respond sealTo n' env io
      = .ok (n'.storageGet env io) := if_pos htype
  refine ⟨w, ?_, Bool.eq_false_iff.mpr fun hup => hunfit ?_⟩
  · have hput : servingStep sealTo ⟨n, .storage, true⟩ (.putChunked bytes)
        = some ⟨n', .storage, true⟩ := rfl
    rw [run_cons, hput, Option.bind_some, run_cons, hstep]
    rfl
  · have hgoes := (goes_on_iff hstep).mp hup
    rw [hrespond] at hgoes
    exact (storageGet_goesOn n' env io).mp hgoes

-- =========================================================== short runs

/-- A node that holds nothing. -/
def freshNode : ServingNode Crypto.legible where
  side := Signer.legible (Bytes.fill 32 1)
  seed := Bytes.fill 32 0
  profile := none
  lifecycle := .active
  relationships := []
  retiredSeen := []
  coHolders := []
  pendingPairings := Table.empty
  store := Table.empty
  peers := []
  verses := Table.empty

/-- Another side asks for the object whose hash is all zeros. -/
def zerosGet : SignedEnvelope :=
  .signWith .storageGet (Signer.legible (Bytes.fill 32 2))
    (some (Bytes.fill 32 1)) (StorageGetPayload.encode ⟨Bytes.fill 32 0, none⟩)
    1000000000 (Bytes.fill 16 0)

def stillIo : ServeIo := ⟨fun _ => 1000000000, fun _ => Bytes.fill 16 0⟩

/-- The tag is of zeros. -/
def sealOpenly : Seal Crypto.legible := fun plain _ _ _ _ =>
  .ok (plain ++ List.replicate 16 0)

theorem zerosGet_decode :
    StorageGetPayload.decode zerosGet.payload
      = .ok ⟨Bytes.fill 32 0, none⟩ := by
  decide +kernel

/-- A short object is fetched, and the session is still up. -/
theorem session_goes_on_fetched :
    ∃ w, run (servingStep sealOpenly) ⟨freshNode, .storage, true⟩
        [.putChunked (List.replicate 32 0), .request zerosGet stillIo] = some w
      ∧ w.up = true := by
  have hseal : SealsAs sealOpenly :=
    { length := fun plain signer recipient nonce aad sealedBytes h => by
        cases h
        exact List.length_append
      key := fun plain signer recipient nonce aad digest signature h _ =>
        ⟨_, rfl⟩ }
  have hput (bytes) : servingStep sealOpenly ⟨freshNode, .storage, true⟩
      (.putChunked bytes) = some ⟨{ freshNode with
        store := putChunked Crypto.legible freshNode.store bytes },
        .storage, true⟩ := rfl
  obtain ⟨w, hstep⟩ := @request_enabled _ sealOpenly
    ⟨{ freshNode with
      store := putChunked Crypto.legible freshNode.store
        (.replicate 32 0) }, .storage, true⟩ zerosGet stillIo rfl rfl
  have hrun : run (servingStep sealOpenly) ⟨freshNode, .storage, true⟩
      [.putChunked (List.replicate 32 0), .request zerosGet stillIo]
        = some w := by
    rw [run_cons, hput, Option.bind_some, run_cons, hstep]
    rfl
  refine ⟨w, hrun, ?_⟩
  refine (session_goes_on hseal freshNode .storage).mpr ?_ _ []
    w (List.append_nil _) hrun
  refine ⟨trivial, fun w hw => ⟨?_, fun _ _ => trivial⟩⟩
  cases hw
  intro _ _ req hreq object hobject
  rw [zerosGet_decode] at hreq
  cases hreq
  have hne : List.replicate 32 (0 : UInt8) ≠ [] := by decide
  have hget := get_putChunked Crypto.legible Table.empty hne rfl
  have hshort : (List.replicate 32 (0 : UInt8)).take chunkMax
      = List.replicate 32 0 := List.take_of_length_le (by decide)
  rw [hshort, legible_zeros 32] at hget
  obtain rfl := Option.some.inj (hget.symm.trans hobject)
  decide

/-- A session in which the first chunk of a chunked object is asked for. -/
theorem large_object_ends_session :
    ∃ w, run (servingStep sealOpenly) ⟨freshNode, .storage, true⟩
        [.putChunked (List.replicate (chunkMax + 1) 0),
          .request zerosGet stillIo] = some w
      ∧ w.up = false := by
  have hchunk : (List.replicate (chunkMax + 1) (0 : UInt8)).take chunkMax
      = List.replicate chunkMax 0 := by
    rw [List.take_replicate, Nat.min_eq_left (Nat.le_succ _)]
  have hhash : Crypto.legible.blake3
        ((List.replicate (chunkMax + 1) 0).take chunkMax)
      = Bytes.fill 32 0 := by
    rw [hchunk]
    exact legible_zeros chunkMax
  have hreq := zerosGet_decode
  rw [← hhash] at hreq
  refine first_chunk_ends_session sealOpenly freshNode ?_ rfl stillIo rfl hreq
  rw [List.length_replicate]
  decide

end Sidevers.Proofs
