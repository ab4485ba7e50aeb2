/-
What is sent in answer is what the asking side reads.

Every payload of these exchanges that goes out in a frame reads back
(`decode_peerTell`, ...): the readers' limits are far above what a frame can
hold. So an exchange between two honest parties comes to what the answering
handler put into its answer (`awaitAnswer_sent`), and fails only where that
did not fit a frame.
-/
import Mathlib.Algebra.Order.BigOperators.Group.List
import Sidevers.Net.Clients
import Sidevers.Proofs.ContractForms
import Sidevers.Proofs.DirectForms
import Sidevers.Proofs.Publishing
import Sidevers.Proofs.Serving
import Sidevers.Proofs.WireForms

namespace Sidevers.Proofs

open Sidevers.Core
open Sidevers.Core.Cbor
open Sidevers.Lib
open Sidevers.Net

variable {crypto : Crypto}

-- ============================================================ the sizes

/-- An encoded item is no longer than the array. -/
theorem length_le_encodeArray {α : Type} {encode : α → List UInt8}
    {items : List α} {a : α} (ha : a ∈ items) :
    (encode a).length ≤ (encodeArray encode items).length := by
  have hmem : (encode a).length ∈ items.map fun a => (encode a).length :=
    List.mem_map.mpr ⟨a, ha, rfl⟩
  have hle := List.single_le_sum (fun _ _ => Nat.zero_le _) _ hmem
  rw [length_encodeArray, arraySize]
  omega

/-- An array has no more items than bytes. -/
theorem count_le_encodeArray {α : Type} {encode : α → List UInt8}
    {items : List α} (hpos : ∀ a ∈ items, 0 < (encode a).length) :
    items.length ≤ (encodeArray encode items).length := by
  have hsum : (items.map fun a => (encode a).length).length
      ≤ (items.map fun a => (encode a).length).sum := by
    apply List.length_le_sum_of_one_le
    intro n hn
    obtain ⟨a, ha, rfl⟩ := List.mem_map.mp hn
    exact hpos a ha
  rw [List.length_map] at hsum
  rw [length_encodeArray, arraySize]
  omega

theorem headSize_pos (v : UInt64) : 0 < headSize v := by
  unfold headSize
  (repeat' split) <;> omega

/-- A value is no longer than the map it is in. -/
theorem length_value_le {entries : List MapEntry} {e : MapEntry}
    (he : e ∈ entries) : e.value.length ≤ (encodeMap entries).length := by
  have hmem : e.key.length + e.value.length
      ∈ entries.map fun e => e.key.length + e.value.length :=
    List.mem_map.mpr ⟨e, he, rfl⟩
  have hle := List.single_le_sum (fun _ _ => Nat.zero_le _) _ hmem
  rw [length_encodeMap]
  omega

-- ========================================================= the payloads

theorem reads_readU8 (b : UInt8) : Reads readU8 (encodeU8 b) b := by
  have hb := b.toNat_lt
  refine (reads_readU64 _).andThen (.neg (fun hgt => ?_) ?_)
  · have hgt : 255 < b.toUInt64.toNat := hgt
    rw [UInt8.toNat_toUInt64] at hgt
    omega
  · rw [UInt8.toUInt8_toUInt64]
    exact .pure b

theorem encodeU8_not_null (b : UInt8) :
    ∃ ib tl, encodeU8 b = ib :: tl ∧ ib ≠ simpleNull := by
  obtain ⟨ib, tl, hhead, hmajor⟩ :=
    writeHead_major (m := 0) (by decide) b.toUInt64
  exact ⟨ib, tl, hhead, not_null_of_major hmajor (by decide)⟩

theorem reads_peerAsk (p : PeerAskPayload) :
    Reads PeerAskPayload.readFields p.encode p := by
  refine .map (by decide : 2 ≤ maxCborEntries) ?_
  refine .field (reads_readU64 p.limit) ?_
  exact .field (reads_readOrNull encodeU8_not_null reads_readU8
    p.intentFilter) (.pure p)

theorem reads_peerInfo {p : PeerInfo}
    (hintents : p.intents.length ≤ maxCborEntries)
    (hendpoints : p.endpoints.length ≤ maxCborEntries) :
    Reads PeerInfo.decodeFrom p.encode p := by
  refine .map (by decide : 4 ≤ maxCborEntries) ?_
  refine .field (reads_readExact _ p.address) ?_
  refine .field (reads_readArray hintents fun b _ => reads_readU8 b) ?_
  refine .field (reads_readArray hendpoints fun t _ => reads_readText t) ?_
  exact .field (reads_readU64 p.lastSeen) (.pure p)

theorem reads_peerTell {p : PeerTellPayload}
    (hpeers : p.peers.length ≤ maxCborEntries)
    (hread : ∀ info ∈ p.peers, Reads PeerInfo.decodeFrom info.encode info) :
    Reads PeerTellPayload.readFields p.encode p := by
  refine .map (by decide : 1 ≤ maxCborEntries) ?_
  exact .field (reads_readArray hpeers hread) (.pure p)

theorem reads_rendezvous (p : RendezvousPayload) :
    Reads RendezvousPayload.readFields p.encode p := by
  refine .map (by decide : 1 ≤ maxCborEntries) ?_
  exact .field (reads_readExact _ p.target) (.pure p)

theorem reads_rendezvousAck {p : RendezvousAckPayload}
    (hendpoints : p.endpoints.length ≤ maxCborEntries) :
    Reads RendezvousAckPayload.readFields p.encode p := by
  refine .map (by decide : 2 ≤ maxCborEntries) ?_
  refine .field (reads_readExact _ p.target) ?_
  exact .field (reads_readArray hendpoints fun t _ => reads_readText t)
    (.pure p)

theorem reads_storageHave (p : StorageHavePayload) :
    Reads StorageHavePayload.readFields p.encode p := by
  refine .map (by decide : 3 ≤ maxCborEntries) ?_
  refine .field (reads_readExact _ p.hash) ?_
  refine .field (reads_readBytes p.bytes) ?_
  exact .field (reads_readBool p.last) (.pure p)

theorem reads_storageWant (p : StorageWantPayload) :
    Reads StorageWantPayload.readFields p.encode p := by
  refine .map (by decide : 2 ≤ maxCborEntries) ?_
  refine .field (reads_readExact _ p.hash) ?_
  exact .field (reads_readBool p.want) (.pure p)

-- ========================================================== the exchange

variable {messageType : MessageType} {signer : Signer crypto}
  {peer : Address} {payload : List UInt8} {now : UInt64} {nonce : Nonce}
  {stream : List UInt8}

/-- A payload is shorter than its envelope, and that fits the frame. -/
theorem length_payload_le
    (hsend : sendEnvelope (.signWith messageType signer (some peer) payload
      now nonce) = .ok stream) : payload.length ≤ maxEnvelopeLen := by
  have hfits := (sendEnvelope_ok_iff _).mp ⟨stream, hsend⟩
  rw [length_signWith, envelopeSize_eq] at hfits
  have hlen := le_stringSize payload.length
  omega

theorem length_payload_lt
    (hsend : sendEnvelope (.signWith messageType signer (some peer) payload
      now nonce) = .ok stream) : payload.length < 2 ^ 64 :=
  Nat.lt_of_le_of_lt (length_payload_le hsend) (by decide)

/-- An envelope that is signed and sent is received. -/
theorem recvEnvelope_signWith
    (hsend : sendEnvelope (.signWith messageType signer (some peer) payload
      now nonce) = .ok stream) :
    recvEnvelope crypto stream
      = .ok (.signWith messageType signer (some peer) payload now nonce) := by
  have hfits := (sendEnvelope_ok_iff _).mp ⟨stream, hsend⟩
  refine recvEnvelope_sendEnvelope ?_ hsend
  exact fromWireBytes_signWith signer rfl
    (Nat.lt_of_le_of_lt hfits (by decide))

/-- A payload that leaves room for the rest is sent. -/
theorem sendEnvelope_signWith (messageType : MessageType)
    (signer : Signer crypto) (peer : Address) (now : UInt64) (nonce : Nonce)
    (hfits : payload.length ≤ 65000) :
    ∃ stream, sendEnvelope (.signWith messageType signer (some peer) payload
      now nonce) = .ok stream := by
  rw [sendEnvelope_ok_iff, length_signWith]
  exact inFrame_of_le hfits

/-- An answer that is sent is what comes out of the wait for it. -/
theorem awaitAnswer_sent {α : Type}
    {decode : List UInt8 → Except Core.Error α} {a : α} {otherwise : String}
    (hsend : sendEnvelope (.signWith messageType signer (some peer) payload
      now nonce) = .ok stream) (hdecode : decode payload = .ok a) :
    awaitAnswer crypto messageType otherwise decode stream = .ok a := by
  unfold awaitAnswer
  rw [recvEnvelope_signWith hsend]
  have htype : (SignedEnvelope.signWith messageType signer (some peer) payload
    now nonce).messageType = messageType := rfl
  have hpayload : (SignedEnvelope.signWith messageType signer (some peer)
    payload now nonce).payload = payload := rfl
  dsimp only
  rw [if_neg (not_not.mpr htype), hpayload, hdecode]

-- ==================================================== the peers in a frame

/-- A map is not empty. -/
theorem length_encodeMap_pos (entries : List MapEntry) :
    0 < (encodeMap entries).length := by
  have hhead := headSize_pos (UInt64.ofNat entries.length)
  rw [length_encodeMap]
  omega

theorem length_text_pos (t : String) : 0 < (text t).length := by
  obtain ⟨ib, tl, htext, -⟩ := text_not_null t
  rw [htext]
  exact Nat.succ_pos _

/-- The lists of an entry that fits a frame are within the readers' limits. -/
theorem reads_peerInfo_of_le {p : PeerInfo}
    (hlen : p.encode.length ≤ maxEnvelopeLen) :
    Reads PeerInfo.decodeFrom p.encode p := by
  have hmax : maxEnvelopeLen ≤ maxCborEntries := by decide
  have hintents : (encodeArray encodeU8 p.intents).length
      ≤ p.encode.length :=
    length_value_le (e := ⟨key "intents", encodeArray encodeU8 p.intents⟩)
      (.tail _ (.head _))
  have hendpoints : (encodeArray text p.endpoints).length
      ≤ p.encode.length :=
    length_value_le (e := ⟨key "endpoints", encodeArray text p.endpoints⟩)
      (.tail _ (.tail _ (.head _)))
  have hone (b : UInt8) : 0 < (encodeU8 b).length := by
    rw [encodeU8, length_uint]
    exact headSize_pos _
  apply reads_peerInfo
  · have := count_le_encodeArray fun b (_ : b ∈ p.intents) => hone b
    omega
  · have := count_le_encodeArray fun t (_ : t ∈ p.endpoints) =>
      length_text_pos t
    omega

theorem decode_peerTell {p : PeerTellPayload}
    (hlen : p.encode.length ≤ maxEnvelopeLen) :
    PeerTellPayload.decode p.encode = .ok p := by
  have hmax : maxEnvelopeLen ≤ maxCborEntries := by decide
  have hpeers : (encodeArray PeerInfo.encode p.peers).length
      ≤ p.encode.length :=
    length_value_le
      (e := ⟨key "peers", encodeArray PeerInfo.encode p.peers⟩) (.head _)
  have hcount : p.peers.length
      ≤ (encodeArray PeerInfo.encode p.peers).length :=
    count_le_encodeArray fun info _ => length_encodeMap_pos _
  have hread : Reads PeerTellPayload.readFields p.encode p := by
    refine reads_peerTell (by omega) fun info hinfo =>
      reads_peerInfo_of_le ?_
    have hle : info.encode.length
        ≤ (encodeArray PeerInfo.encode p.peers).length :=
      length_le_encodeArray hinfo
    omega
  exact hread.value (Nat.lt_of_le_of_lt hlen (by decide))

theorem decode_rendezvousAck {p : RendezvousAckPayload}
    (hlen : p.encode.length ≤ maxEnvelopeLen) :
    RendezvousAckPayload.decode p.encode = .ok p := by
  have hmax : maxEnvelopeLen ≤ maxCborEntries := by decide
  have hendpoints : (encodeArray text p.endpoints).length
      ≤ p.encode.length :=
    length_value_le (e := ⟨key "endpoints", encodeArray text p.endpoints⟩)
      (.tail _ (.head _))
  have hcount : p.endpoints.length
      ≤ (encodeArray text p.endpoints).length :=
    count_le_encodeArray fun t _ => length_text_pos t
  exact (reads_rendezvousAck (by omega)).value
    (Nat.lt_of_le_of_lt hlen (by decide))

end Sidevers.Proofs
