/-
The byte forms the payload decoders accept.

Every decoder reads its fields in canonical order and each field in its
shortest form, so what it reads is what the encoder writes
(`spells_map`). Most of them return after the last field: bytes that follow
are accepted and dropped (`trailing_byte_accepted`). The accepted form is the
encoder's exactly when nothing follows (`accepted_form`); the two payloads
that wrap a contract re-encode it and accept no other form.
-/
import Sidevers.Net.StorageProtocol
import Sidevers.Proofs.CborReads

namespace Sidevers.Proofs

open Sidevers.Core
open Sidevers.Core.Cbor
open Sidevers.Lib.Cbor
open Sidevers.Lib
open Sidevers.Net

-- ============================================================ the fields

/-- The last two fields may be null. -/
theorem spells_fieldSpec : Spells FieldSpec.decodeFrom FieldSpec.encode :=
  spells_map (.field spells_readText fun _ => .field spells_readText fun _ =>
    .field (spells_readOrNull spells_readText) fun _ =>
    .field (spells_readOrNull spells_readText) fun _ => .pure ⟨rfl, rfl⟩)

/-- The parameters are read in the order they are sorted in. -/
theorem spells_policyClause :
    Spells PolicyClause.decodeFrom PolicyClause.encode :=
  spells_map (.field spells_readText fun _ =>
    .field (spells_readTextMap _) fun _ => .pure ⟨rfl, rfl⟩)

/-- Twelve fields, with the lists of specs and clauses among them; the
signature is a field like the others. -/
theorem spells_contractObject :
    Spells ContractObject.readFields ContractObject.toWireBytes :=
  spells_map (.field spells_readText fun _ =>
    .field (spells_readExact _ _) fun _ =>
    .field (spells_readArray spells_readText) fun _ =>
    .field spells_readU64 fun _ =>
    .field (spells_readArray spells_fieldSpec) fun _ =>
    .field (spells_readArray spells_policyClause) fun _ =>
    .field (spells_readArray spells_fieldSpec) fun _ =>
    .field (spells_readArray spells_readText) fun _ =>
    .field spells_readU64 fun _ =>
    .field (spells_readExact _ _) fun _ =>
    .field (spells_readArray (spells_readExact _ _)) fun _ =>
    .field spells_readText fun _ => .pure ⟨rfl, rfl⟩)

/-- A token is bytes of fixed lengths and a time. -/
theorem spells_membershipToken : Spells SignedMembershipToken.readFields
    SignedMembershipToken.toWireBytes :=
  spells_map (.field (spells_readExact _ _) fun _ =>
    .field (spells_readExact _ _) fun _ => .field spells_readU64 fun _ =>
    .field (spells_readExact _ _) fun _ =>
    .field (spells_readExact _ _) fun _ => .pure ⟨rfl, rfl⟩)

/-- No version asks for the current contract. -/
theorem spells_contractFetch : Spells ContractFetchPayload.readFields
    ContractFetchPayload.encode :=
  spells_map (.field (spells_readOrNull spells_readU64) fun _ =>
    .pure ⟨rfl, rfl⟩)

/-- The fields of the member come as a map of texts. -/
theorem spells_joinRequest :
    Spells SignedJoinRequest.readFields SignedJoinRequest.encode :=
  spells_map (.field (spells_readExact _ _) fun _ =>
    .field (spells_readTextMap _) fun _ =>
    .field (spells_readExact _ _) fun _ =>
    .field (spells_readExact _ _) fun _ => .pure ⟨rfl, rfl⟩)

/-- The token and the sealed key are byte strings here; the token has a
decoder of its own. -/
theorem spells_joinAccept :
    Spells JoinAcceptWire.readFields JoinAcceptWire.encode :=
  spells_map (.field (spells_readExact _ _) fun _ =>
    .field spells_readBytes fun _ => .field spells_readBytes fun _ =>
    .pure ⟨rfl, rfl⟩)

theorem spells_joinDecline :
    Spells JoinDeclinePayload.readFields JoinDeclinePayload.encode :=
  spells_map (.field spells_readText fun _ =>
    .field (spells_readExact _ _) fun _ => .pure ⟨rfl, rfl⟩)

/-- The body stays sealed. -/
theorem spells_versePost :
    Spells VersePostPayload.readFields VersePostPayload.encode :=
  spells_map (.field (spells_readExact _ _) fun _ =>
    .field spells_readBytes fun _ => .pure ⟨rfl, rfl⟩)

/-- The three dispositions are written as they are read. -/
theorem asStr_of_parse {s : String} {d : DataDisposition}
    (h : DataDisposition.parse s = .ok d) : d.asStr = s := by
  unfold DataDisposition.parse at h
  split at h
  case isTrue heq =>
      cases h
      exact heq.symm
  split at h
  case isTrue heq =>
      cases h
      exact heq.symm
  split at h
  case isTrue heq =>
      cases h
      exact heq.symm
  case isFalse => cases h

/-- A text that was parsed is one of the three. -/
theorem spells_disposition :
    Spells SignedVerseLeave.readDisposition fun d => text d.asStr := by
  refine spells_readText.bind fun t bs ⟨hbs, hitem⟩ s d s' hrun => ?_
  cases hparse : DataDisposition.parse t with
  | error e =>
      rw [hparse] at hrun
      cases hrun
  | ok d₀ =>
      rw [hparse] at hrun
      cases hrun
      refine ⟨[], reading.nil s, ?_⟩
      show bs ++ [] = text d.asStr ∧ Item (bs ++ [])
      rw [List.append_nil, asStr_of_parse hparse]
      exact ⟨hbs, hitem⟩

/-- The reason may be null. -/
theorem spells_verseLeave :
    Spells SignedVerseLeave.readFields SignedVerseLeave.encode :=
  spells_map (.field (spells_readExact _ _) fun _ =>
    .field (spells_readExact _ _) fun _ =>
    .field (spells_readOrNull spells_readText) fun _ =>
    .field (spells_readExact _ _) fun _ => .field spells_disposition fun _ =>
    .field (spells_readExact _ _) fun _ => .pure ⟨rfl, rfl⟩)

/-- Here the reason is there in any case. -/
theorem spells_verseRemove :
    Spells SignedVerseRemove.readFields SignedVerseRemove.encode :=
  spells_map (.field (spells_readExact _ _) fun _ =>
    .field (spells_readExact _ _) fun _ => .field spells_readText fun _ =>
    .field spells_readU64 fun _ => .field (spells_readExact _ _) fun _ =>
    .field (spells_readExact _ _) fun _ => .pure ⟨rfl, rfl⟩)

/-- The side is not a field: the decoder is told it. -/
theorem spells_verseReconsent :
    Spells SignedVerseReconsent.readFields SignedVerseReconsent.encode :=
  spells_map (.field (spells_readExact _ _) fun _ =>
    .field (spells_readExact _ _) fun _ => .pure ⟨rfl, rfl⟩)

/-- A limit, and an intent or none. -/
theorem spells_peerAsk :
    Spells PeerAskPayload.readFields PeerAskPayload.encode :=
  spells_map (.field spells_readU64 fun _ =>
    .field (spells_readOrNull spells_readU8) fun _ => .pure ⟨rfl, rfl⟩)

/-- One entry of an answer. -/
theorem spells_peerInfo : Spells PeerInfo.decodeFrom PeerInfo.encode :=
  spells_map (.field (spells_readExact _ _) fun _ =>
    .field (spells_readArray spells_readU8) fun _ =>
    .field (spells_readArray spells_readText) fun _ =>
    .field spells_readU64 fun _ => .pure ⟨rfl, rfl⟩)

/-- The answer: entries one after the other. -/
theorem spells_peerTell :
    Spells PeerTellPayload.readFields PeerTellPayload.encode :=
  spells_map (.field (spells_readArray spells_peerInfo) fun _ =>
    .pure ⟨rfl, rfl⟩)

/-- The side asked about. -/
theorem spells_rendezvous :
    Spells RendezvousPayload.readFields RendezvousPayload.encode :=
  spells_map (.field (spells_readExact _ _) fun _ => .pure ⟨rfl, rfl⟩)

theorem spells_rendezvousAck :
    Spells RendezvousAckPayload.readFields RendezvousAckPayload.encode :=
  spells_map (.field (spells_readExact _ _) fun _ =>
    .field (spells_readArray spells_readText) fun _ => .pure ⟨rfl, rfl⟩)

/-- The envelope is carried as bytes. -/
theorem spells_forwardStore :
    Spells ForwardStorePayload.readFields ForwardStorePayload.encode :=
  spells_map (.field spells_readBytes fun _ => .field spells_readU64 fun _ =>
    .field (spells_readExact _ _) fun _ => .pure ⟨rfl, rfl⟩)

theorem spells_forwardDeliver :
    Spells ForwardDeliverPayload.readFields ForwardDeliverPayload.encode :=
  spells_map (.field spells_readBytes fun _ => .field spells_readU64 fun _ =>
    .pure ⟨rfl, rfl⟩)

/-- The dependencies of a reference are encoded by a recursion of their own,
which is an array of references. -/
theorem encodeArray_encodeAll (deps : List Reference) :
    encodeArray (fun d => d) (Reference.encode.encodeAll deps)
      = encodeArray Reference.encode deps := by
  have hmap : Reference.encode.encodeAll deps
      = deps.map Reference.encode := by
    induction deps with
    | nil => rfl
    | cons d rest ih =>
        rw [Reference.encode.encodeAll, ih]
        rfl
  unfold encodeArray
  rw [hmap, List.length_map, List.flatMap_map]

/-- By induction on the depth: the dependencies are one level down. -/
theorem spells_reference (depth : Nat) :
    Spells (Reference.decodeInner depth) Reference.encode := by
  induction depth with
  | zero => exact .throw
  | succ depth ih =>
      refine spells_map (.field (spells_readArray ih) fun deps =>
        .field (spells_readExact _ _) fun hash =>
        .field spells_readU64 fun size => .field spells_readText fun mime =>
        .field (spells_readArray (spells_readExact _ _)) fun hints =>
        .pure ⟨rfl, ?_⟩)
      rw [Reference.encode, encodeArray_encodeAll]

/-- The range of a fetch. -/
theorem spells_readRange : Spells readRange encodeRange :=
  spells_map (.field spells_readU64 fun _ => .field spells_readU64 fun _ =>
    .pure ⟨rfl, rfl⟩)

/-- The whole object, or a range of it. -/
theorem spells_storageGet :
    Spells StorageGetPayload.readFields StorageGetPayload.encode :=
  spells_map (.field (spells_readExact _ _) fun _ =>
    .field (spells_readOrNull spells_readRange) fun _ => .pure ⟨rfl, rfl⟩)

theorem spells_storageHave :
    Spells StorageHavePayload.readFields StorageHavePayload.encode :=
  spells_map (.field (spells_readExact _ _) fun _ =>
    .field spells_readBytes fun _ => .field spells_readBool fun _ =>
    .pure ⟨rfl, rfl⟩)

/-- The hints are keys of other nodes. -/
theorem spells_storageMiss :
    Spells StorageMissPayload.readFields StorageMissPayload.encode :=
  spells_map (.field (spells_readExact _ _) fun _ =>
    .field (spells_readArray (spells_readExact _ _)) fun _ =>
    .pure ⟨rfl, rfl⟩)

theorem spells_storageWant :
    Spells StorageWantPayload.readFields StorageWantPayload.encode :=
  spells_map (.field (spells_readExact _ _) fun _ =>
    .field spells_readBool fun _ => .pure ⟨rfl, rfl⟩)

theorem spells_storageRetract :
    Spells StorageRetractPayload.readFields StorageRetractPayload.encode :=
  spells_map (.field (spells_readExact _ _) fun _ => .pure ⟨rfl, rfl⟩)

-- =========================================================== the decoders

/-- What a reader read from the start of the bytes. -/
theorem Spells.of_on {α : Type} {r : Read α} {w : α → List UInt8}
    {b : List UInt8} {v : α} {s : CborReader} (hr : Spells r w)
    (hv : r.on b = .ok (v, s)) :
    s = ⟨b, (w v).length⟩ ∧ w v <+: b ∧ Item (w v) := by
  obtain ⟨bs, ⟨hs, hpre⟩, rfl, hitem⟩ := hr (CborReader.mk b 0) v s hv
  rw [Nat.zero_add] at hs
  exact ⟨hs, hpre, hitem⟩

/-- What was read stands at the front; the rest was not looked at. -/
theorem Spells.of_value {α : Type} {r : Read α} {w : α → List UInt8}
    {b : List UInt8} {v : α} (hr : Spells r w) (hv : r.value b = .ok v) :
    ∃ rest, b = w v ++ rest ∧ Item (w v) := by
  unfold Read.value at hv
  cases hrun : r.on b with
  | error e =>
      rw [hrun] at hv
      cases hv
  | ok p =>
      obtain ⟨a, s'⟩ := p
      rw [hrun] at hv
      cases hv
      obtain ⟨-, ⟨rest, hrest⟩, hitem⟩ := hr.of_on hrun
      exact ⟨rest, hrest.symm, hitem⟩

/-- Nothing is left after what was read. -/
theorem Spells.of_atEnd {α : Type} {r : Read α} {w : α → List UInt8}
    {b : List UInt8} {v : α} {e : Core.Error} (hr : Spells r w)
    (hv : (do
      let a ← r
      if !(← atEnd) then throw e
      return a : Read α).value b = .ok v) : b = w v := by
  unfold Read.value Read.on at hv
  rw [StateT.run_bind] at hv
  cases hrun : r.run ⟨b, 0⟩ with
  | error e =>
      rw [hrun] at hv
      cases hv
  | ok p =>
      obtain ⟨a, s'⟩ := p
      obtain ⟨rfl, hpre, -⟩ := hr.of_on hrun
      rw [hrun] at hv
      replace hv : Except.map Prod.fst (StateT.run
        (if !decide (b.length ≤ (w a).length) then MonadExcept.throw e >>= _
          else pure a) (CborReader.mk b (w a).length)) = .ok v := hv
      split at hv
      case isTrue => cases hv
      case isFalse hend =>
        cases hv
        rw [Bool.not_eq_true', decide_eq_false_iff_not, not_not] at hend
        exact (hpre.eq_of_length_le hend).symm

/-- Nothing follows an item exactly when the whole is one. -/
theorem append_eq_iff_item {x : List UInt8} (rest : List UInt8)
    (hitem : Item x) :
    x ++ rest = x ↔ Item (x ++ rest) := by
  refine ⟨fun h => ?_, fun h => ?_⟩
  · rw [h]
    exact hitem
  · rw [hitem.append_right_nil h, List.append_nil]

/-- So the bytes are the encoder's iff nothing follows the item. -/
theorem Spells.form_iff {α : Type} {r : Read α} {w : α → List UInt8}
    {b : List UInt8} {v : α} (hr : Spells r w) (hv : r.value b = .ok v) :
    b = w v ↔ Item b := by
  obtain ⟨rest, rfl, hitem⟩ := hr.of_value hv
  exact append_eq_iff_item _ hitem

/-- The same where the result is checked after it was read. -/
theorem Spells.checked_form_iff {α : Type} {r : Read α}
    {w : α → List UInt8} {check : α → Except Core.Error Unit}
    {b : List UInt8} {v : α} (hr : Spells r w)
    (hv : (do let p ← r.value b; check p; return p) = .ok v) :
    b = w v ↔ Item b := by
  obtain ⟨p, hread, hv⟩ := ok_of_bind hv
  obtain ⟨_, -, hv⟩ := ok_of_bind hv
  cases hv
  exact hr.form_iff hread

/-- A contract is read, its signature checked, and then it is written again
and compared. -/
theorem fromWireBytes_contract {crypto : Crypto} {b : List UInt8}
    {c : ContractObject} :
    ContractObject.fromWireBytes crypto b = .ok c
      ↔ ContractObject.readFields.value b = .ok c
        ∧ crypto.verify c.verse (crypto.blake3 c.encodeUnsigned) c.signature
          = .ok ()
        ∧ c.toWireBytes = b :=
  read_verified_canonical

/-- A contract is accepted in its wire form only. -/
theorem toWireBytes_of_fromWireBytes {crypto : Crypto} {b : List UInt8}
    {c : ContractObject} (h : ContractObject.fromWireBytes crypto b = .ok c) :
    c.toWireBytes = b ∧ Item b := by
  obtain ⟨hread, -, hform⟩ := fromWireBytes_contract.mp h
  exact ⟨hform, (spells_contractObject.form_iff hread).mp hform.symm⟩

/-- A payload that wraps one value: the value's bytes are what follows. -/
theorem wrapped_of_value {k msg : String} {entries : Nat → String}
    {b rest : List UInt8}
    (hv : (do
      expectEntries 1 entries
      expectKey k msg
      remaining : Read (List UInt8)).value b = .ok rest) :
    ∃ hd, b = hd ++ rest ∧ ∀ x, encodeMap [⟨key k, x⟩] = hd ++ x
      ∧ (Item x → Item (hd ++ x)) := by
  -- the two reads before the value pass its header and its key
  have hopening : Consumes reading (do
      expectEntries 1 entries
      expectKey k msg) fun _ hd => ∀ x, encodeMap [⟨key k, x⟩] = hd ++ x
        ∧ (Item x → Item (hd ++ x)) := by
    refine (consumes_expectEntries 1 entries).bind fun _ hd ⟨hhd, hhead⟩ =>
      (consumes_expectKey k msg).mono fun _ bs ⟨hbs, hkey⟩ x =>
        ⟨?_, fun hx => ?_⟩
    · rw [hhd, hbs]
      simp [encodeMap]
    · rw [List.append_assoc]
      exact .around hhead rfl (hkey.append hx)
  have hrun : Read.value (do
      (do expectEntries 1 entries
          expectKey k msg)
      remaining) b = .ok rest := by
    rw [bind_assoc]
    exact hv
  unfold Read.value Read.on at hrun
  rw [StateT.run_bind] at hrun
  obtain ⟨p, hp, hrest⟩ : ∃ p, StateT.run (do
      expectEntries 1 entries
      expectKey k msg) ⟨b, 0⟩ = .ok p ∧ rest = p.2.buf.drop p.2.pos := by
    cases hopen : StateT.run (do
        expectEntries 1 entries
        expectKey k msg) ⟨b, 0⟩ with
    | error e =>
        rw [hopen] at hrun
        cases hrun
    | ok p =>
        rw [hopen] at hrun
        cases hrun
        exact ⟨p, rfl, rfl⟩
  obtain ⟨hd, ⟨ht, q, hq⟩, hwrap⟩ := hopening _ _ _ hp
  refine ⟨hd, ?_, hwrap⟩
  replace hq : hd ++ q = b := hq
  rw [hrest, ht]
  show b = hd ++ b.drop (0 + hd.length)
  rw [← hq, Nat.zero_add, List.drop_left]

-- ========================================================= all of them

/-- The payloads that have a decoder here; a reconsent is decoded for the
side that is to have signed it. -/
inductive WireType where
  | contractFetch
  | contractDeliver
  | joinRequest
  | joinAccept
  | joinDecline
  | versePost
  | verseLeave
  | verseRemove
  | verseAmend
  | verseReconsent (side : Address)
  | membershipToken
  | peerAsk
  | peerTell
  | rendezvous
  | rendezvousAck
  | forwardStore
  | forwardDeliver
  | storageGet
  | storageHave
  | storageMiss
  | storageOffer
  | storageWant
  | storageRetract
  | reference

namespace WireType

/-- What is decoded. -/
def Payload : WireType → Type
  | contractFetch => ContractFetchPayload
  | contractDeliver => ContractDeliverPayload
  | joinRequest => SignedJoinRequest
  | joinAccept => JoinAcceptWire
  | joinDecline => JoinDeclinePayload
  | versePost => VersePostPayload
  | verseLeave => SignedVerseLeave
  | verseRemove => SignedVerseRemove
  | verseAmend => VerseAmendPayload
  | verseReconsent _ => SignedVerseReconsent
  | membershipToken => SignedMembershipToken
  | peerAsk => PeerAskPayload
  | peerTell => PeerTellPayload
  | rendezvous => RendezvousPayload
  | rendezvousAck => RendezvousAckPayload
  | forwardStore => ForwardStorePayload
  | forwardDeliver => ForwardDeliverPayload
  | storageGet => StorageGetPayload
  | storageHave => StorageHavePayload
  | storageMiss => StorageMissPayload
  | storageOffer => StorageOfferPayload
  | storageWant => StorageWantPayload
  | storageRetract => StorageRetractPayload
  | reference => Reference

/-- Its encoder. -/
def encode : (t : WireType) → t.Payload → List UInt8
  | contractFetch => ContractFetchPayload.encode
  | contractDeliver => ContractDeliverPayload.encode
  | joinRequest => SignedJoinRequest.encode
  | joinAccept => JoinAcceptWire.encode
  | joinDecline => JoinDeclinePayload.encode
  | versePost => VersePostPayload.encode
  | verseLeave => SignedVerseLeave.encode
  | verseRemove => SignedVerseRemove.encode
  | verseAmend => VerseAmendPayload.encode
  | verseReconsent _ => SignedVerseReconsent.encode
  | membershipToken => SignedMembershipToken.toWireBytes
  | peerAsk => PeerAskPayload.encode
  | peerTell => PeerTellPayload.encode
  | rendezvous => RendezvousPayload.encode
  | rendezvousAck => RendezvousAckPayload.encode
  | forwardStore => ForwardStorePayload.encode
  | forwardDeliver => ForwardDeliverPayload.encode
  | storageGet => StorageGetPayload.encode
  | storageHave => StorageHavePayload.encode
  | storageMiss => StorageMissPayload.encode
  | storageOffer => StorageOfferPayload.encode
  | storageWant => StorageWantPayload.encode
  | storageRetract => StorageRetractPayload.encode
  | reference => Reference.encode

/-- Its decoder. -/
def decode (crypto : Crypto) :
    (t : WireType) → List UInt8 → Except Core.Error t.Payload
  | contractFetch => ContractFetchPayload.decode
  | contractDeliver => ContractDeliverPayload.decode crypto
  | joinRequest => SignedJoinRequest.decode crypto
  | joinAccept => JoinAcceptWire.decode
  | joinDecline => JoinDeclinePayload.decode
  | versePost => VersePostPayload.decode
  | verseLeave => SignedVerseLeave.decode crypto
  | verseRemove => SignedVerseRemove.decode crypto
  | verseAmend => VerseAmendPayload.decode crypto
  | verseReconsent side => SignedVerseReconsent.decodeAndVerify crypto side
  | membershipToken => SignedMembershipToken.fromWireBytes crypto
  | peerAsk => PeerAskPayload.decode
  | peerTell => PeerTellPayload.decode
  | rendezvous => RendezvousPayload.decode
  | rendezvousAck => RendezvousAckPayload.decode
  | forwardStore => ForwardStorePayload.decode
  | forwardDeliver => ForwardDeliverPayload.decode
  | storageGet => StorageGetPayload.decode
  | storageHave => StorageHavePayload.decode
  | storageMiss => StorageMissPayload.decode
  | storageOffer => StorageOfferPayload.decode
  | storageWant => StorageWantPayload.decode
  | storageRetract => StorageRetractPayload.decode
  | reference => Reference.decode

end WireType

/-- A wrapped contract is accepted in one form only. -/
theorem wrappedContract_form {crypto : Crypto} {entries : Nat → String}
    {msg : String} {b rest : List UInt8} {c : ContractObject}
    (hrest : (readContractKey entries msg).value b = .ok rest)
    (hc : ContractObject.fromWireBytes crypto rest = .ok c) :
    b = encodeMap [⟨key "contract", c.toWireBytes⟩] ∧ Item b := by
  obtain ⟨hd, rfl, hwrap⟩ := wrapped_of_value hrest
  obtain ⟨rfl, hitem⟩ := toWireBytes_of_fromWireBytes hc
  exact ⟨(hwrap c.toWireBytes).1.symm, (hwrap _).2 hitem⟩

/-- The contract that is delivered compares the bytes itself. -/
theorem contractDeliver_form {crypto : Crypto} {b : List UInt8}
    {p : ContractDeliverPayload}
    (h : ContractDeliverPayload.decode crypto b = .ok p) :
    b = p.encode ∧ Item b := by
  obtain ⟨rest, hrest, h⟩ := ok_of_bind h
  obtain ⟨c, hc, h⟩ := ok_of_bind h
  cases h
  exact wrappedContract_form hrest hc

/-- So does the one that is announced. -/
theorem verseAmend_form {crypto : Crypto} {b : List UInt8}
    {p : VerseAmendPayload}
    (h : VerseAmendPayload.decode crypto b = .ok p) :
    b = p.encode ∧ Item b := by
  obtain ⟨rest, hrest, h⟩ := ok_of_bind h
  obtain ⟨c, hc, h⟩ := ok_of_bind h
  cases h
  exact wrappedContract_form hrest hc

/-- The reference in an offer does not. -/
theorem storageOffer_form {b : List UInt8} {p : StorageOfferPayload}
    (h : StorageOfferPayload.decode b = .ok p) : b = p.encode ↔ Item b := by
  obtain ⟨rest, hrest, h⟩ := ok_of_bind h
  obtain ⟨ref, href, h⟩ := ok_of_bind h
  cases h
  obtain ⟨hd, rfl, hwrap⟩ := wrapped_of_value hrest
  obtain ⟨tail, rfl, hitem⟩ := (spells_reference _).of_value href
  have hform := append_eq_iff_item tail ((hwrap _).2 hitem)
  rw [List.append_assoc] at hform
  unfold StorageOfferPayload.encode
  rw [(hwrap ref.encode).1]
  exact hform

/-- What a decoder accepts is what the encoder writes of the result exactly
when it is one data item, with nothing after it. -/
theorem accepted_form (crypto : Crypto) (t : WireType) (b : List UInt8)
    (v : t.Payload) (h : t.decode crypto b = .ok v) :
    b = t.encode v ↔ Item b := by
  -- the wrapped contracts are in their form; the others need the end of input
  cases t with
  | contractFetch => exact spells_contractFetch.form_iff h
  | contractDeliver =>
      obtain ⟨hform, hitem⟩ := contractDeliver_form h
      exact iff_of_true hform hitem
  | joinRequest => exact spells_joinRequest.checked_form_iff h
  | joinAccept => exact spells_joinAccept.form_iff h
  | joinDecline => exact spells_joinDecline.form_iff h
  | versePost => exact spells_versePost.form_iff h
  | verseLeave => exact spells_verseLeave.checked_form_iff h
  | verseRemove => exact spells_verseRemove.checked_form_iff h
  | verseAmend =>
      obtain ⟨hform, hitem⟩ := verseAmend_form h
      exact iff_of_true hform hitem
  | verseReconsent side => exact spells_verseReconsent.checked_form_iff h
  | membershipToken => exact spells_membershipToken.checked_form_iff h
  | peerAsk => exact spells_peerAsk.form_iff h
  | peerTell => exact spells_peerTell.form_iff h
  | rendezvous => exact spells_rendezvous.form_iff h
  | rendezvousAck => exact spells_rendezvousAck.form_iff h
  | forwardStore => exact spells_forwardStore.form_iff h
  | forwardDeliver => exact spells_forwardDeliver.form_iff h
  | storageGet => exact spells_storageGet.form_iff h
  | storageHave => exact spells_storageHave.form_iff h
  | storageMiss => exact spells_storageMiss.form_iff h
  | storageOffer => exact storageOffer_form h
  | storageWant => exact spells_storageWant.form_iff h
  | storageRetract => exact spells_storageRetract.form_iff h
  | reference => exact (spells_reference _).form_iff h

/-- A fetch of the current contract. -/
def fetchCurrent : List UInt8 := ContractFetchPayload.encode ⟨none⟩

/-- It is accepted as it is. -/
theorem accepted_form_fetch :
    fetchCurrent = ContractFetchPayload.encode ⟨none⟩ ↔ Item fetchCurrent :=
  accepted_form Crypto.refusing .contractFetch fetchCurrent ⟨none⟩ rfl

/-- And with a byte after it. -/
theorem trailing_byte_accepted :
    WireType.decode Crypto.refusing .contractFetch (fetchCurrent ++ [0])
        = .ok (⟨none⟩ : ContractFetchPayload)
      ∧ fetchCurrent ++ [0] ≠ ContractFetchPayload.encode ⟨none⟩ := by
  refine ⟨rfl, by decide⟩

end Sidevers.Proofs
