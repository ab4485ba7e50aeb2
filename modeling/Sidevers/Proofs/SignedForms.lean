/-
What is signed for one record type is not signed for another.

The unsigned forms carry no domain separation: a record type is told by how
its map opens. The number of entries and the first keys part any two types but
one pair: a departure and a removal both open with `side`, `verse` and a
reason of any length, so that nothing short of the end tells them apart. Both
end in a value of 34 bytes, and the keys before it end in different letters.

BLAKE3 and Ed25519 are ideal here for the bytes at hand (`Ideal`): the hash
is injective on them, which it cannot be on all byte strings.
-/
import Sidevers.Core.DeviceWire
import Sidevers.Core.SideWire
import Sidevers.Proofs.CborReads
import Mathlib.Data.Set.Function

namespace Sidevers.Proofs

open Sidevers.Lib
open Sidevers.Core
open Sidevers.Core.Cbor
open Lib.Cbor

-- ========================================================= record types

/-- The records that are signed. -/
inductive RecordType where
  | envelope
  | contractObject
  | membershipToken
  | joinRequest
  | verseLeave
  | verseRemove
  | verseReconsent
  | pairingRequest
  | stateBundle
  | deviceRevoke
  | stateDelta
  | profile
  | sideRetirement
  | linkageProof
  | handleAttest
  | pagePublish
  | announcement
  | storagePreferences
  deriving DecidableEq

namespace RecordType

/-- The fields of a record of the type. -/
def Record : RecordType → Type
  | envelope => SignedEnvelope
  | contractObject => ContractObject
  | membershipToken => SignedMembershipToken
  | joinRequest => SignedJoinRequest
  | verseLeave => SignedVerseLeave
  | verseRemove => SignedVerseRemove
  | verseReconsent => SignedVerseReconsent
  | pairingRequest => SignedPairingRequest
  | stateBundle => SignedStateBundle
  | deviceRevoke => SignedDeviceRevoke
  | stateDelta => SignedStateDelta
  | profile => ProfilePayload
  | sideRetirement => SignedSideRetirement
  | linkageProof => SignedLinkageProof
  | handleAttest => HandleAttestPayload
  | pagePublish => PagePublishPayload
  | announcement => AnnouncementPayload
  | storagePreferences => StoragePreferences

/-- `encode_unsigned` of each type. -/
def encodeUnsigned : (t : RecordType) → t.Record → List UInt8
  | envelope, e => SignedEnvelope.encodeUnsigned e
  | contractObject, c => ContractObject.encodeUnsigned c
  | membershipToken, t => SignedMembershipToken.encodeUnsigned
      (SignedMembershipToken.toMembershipToken t)
  | joinRequest, p => SignedJoinRequest.encodeUnsigned
      (SignedJoinRequest.toJoinRequestPayload p)
  | verseLeave, p => SignedVerseLeave.encodeUnsigned p
  | verseRemove, p => SignedVerseRemove.encodeUnsigned p
  | verseReconsent, p => SignedVerseReconsent.encodeUnsigned
      (SignedVerseReconsent.toVerseReconsentPayload p)
  | pairingRequest, p => SignedPairingRequest.encodeUnsigned p
  | stateBundle, p => SignedStateBundle.encodeUnsigned p
  | deviceRevoke, p => SignedDeviceRevoke.encodeUnsigned
      (SignedDeviceRevoke.toDeviceRevokePayload p)
  | stateDelta, p => SignedStateDelta.encodeUnsigned
      (SignedStateDelta.toStateDeltaPayload p)
  | profile, p => ProfilePayload.encodeUnsigned p
  | sideRetirement, p => SignedSideRetirement.encodeUnsigned p
  | linkageProof, p => SignedLinkageProof.encodeUnsigned p
  | handleAttest, p => HandleAttestPayload.encodeUnsigned p
  | pagePublish, p => PagePublishPayload.encodeUnsigned p
  | announcement, p => AnnouncementPayload.encodeUnsigned p
  | storagePreferences, p => StoragePreferences.encodeUnsigned p

/-- How the unsigned form opens: the number of entries, and as many of the
first keys as it takes. -/
def opening : RecordType → Nat × List String
  | envelope => (7, ["t"])
  | contractObject => (11, ["title"])
  | membershipToken => (4, ["verse"])
  | joinRequest => (3, ["side", "fields"])
  | verseLeave => (5, ["side", "verse"])
  | verseRemove => (5, ["side", "verse"])
  | verseReconsent => (1, ["contract_hash"])
  | pairingRequest => (4, ["side", "nonce"])
  | stateBundle => (5, ["side", "nonce"])
  | deviceRevoke => (4, ["side", "reason"])
  | stateDelta => (3, ["ops"])
  | profile => (8, ["bio"])
  | sideRetirement => (3, ["side", "reason"])
  | linkageProof => (4, ["nonce"])
  | handleAttest => (4, ["side", "domain"])
  | pagePublish => (5, ["mime"])
  | announcement => (3, ["body"])
  | storagePreferences => (5, ["side", "updated_at"])

/-- The first keys, as they are encoded. -/
def leadingKeys (t : RecordType) : List (List UInt8) := t.opening.2.map key

/-- The types that open in one way. -/
theorem opening_apart : ∀ t t' : RecordType, t ≠ t' →
    t.opening.1 = t'.opening.1 →
    (t.leadingKeys <+: t'.leadingKeys ∨ t'.leadingKeys <+: t.leadingKeys) →
    (t = verseLeave ∧ t' = verseRemove) ∨ (t = verseRemove ∧ t' = verseLeave) := by
  intro t t'
  cases t <;> cases t' <;> decide

end RecordType

-- ==================================================== how the forms open

theorem item_text {t : String} (h : t.toUTF8.data.toList.length < 2 ^ 64) :
    Item (text t) := by
  have hhead := isHead_writeHead (m := 3) (by decide)
    (UInt64.ofNat t.toUTF8.data.toList.length)
  rw [UInt64.toNat_ofNat_of_lt' h] at hhead
  exact .leaf hhead rfl rfl

theorem item_bytes {b : List UInt8} (h : b.length < 2 ^ 64) :
    Item (bytes b) := by
  have hhead := isHead_writeHead (m := 2) (by decide) (UInt64.ofNat b.length)
  rw [UInt64.toNat_ofNat_of_lt' h] at hhead
  exact .leaf hhead rfl rfl

theorem item_address (a : Address) : Item (bytes a.val) :=
  item_bytes (by rw [a.property]; decide)

theorem encodeMap_opens (es : List MapEntry) {ks : List (List UInt8)}
    (hn : es.length < 2 ^ 64)
    (h : Leads ks (es.flatMap fun e => e.key ++ e.value)) :
    Opens es.length ks (encodeMap es) := by
  have hhead := isHead_writeHead (m := 5) (by decide) (UInt64.ofNat es.length)
  rw [UInt64.toNat_ofNat_of_lt' hn] at hhead
  exact ⟨_, _, hhead, h, rfl⟩

theorem leads_key {k v : List UInt8} {es : List MapEntry} (hk : Item k) :
    Leads [k] ((⟨k, v⟩ :: es).flatMap fun e => e.key ++ e.value) := by
  rw [List.flatMap_cons, List.append_assoc]
  exact .last hk

theorem leads_entry {k v : List UInt8} {es : List MapEntry}
    {ks : List (List UInt8)} (hk : Item k) (hv : Item v)
    (h : Leads ks (es.flatMap fun e => e.key ++ e.value)) :
    Leads (k :: ks) ((⟨k, v⟩ :: es).flatMap fun e => e.key ++ e.value) := by
  rw [List.flatMap_cons, List.append_assoc]
  exact .entry hk hv h

/-- A form told by its first key. -/
theorem opens_key {n : Nat} {k : String} {v bs : List UInt8}
    {es : List MapEntry} (hbs : bs = encodeMap (⟨key k, v⟩ :: es))
    (hlen : n = es.length + 1) (hn : n < 2 ^ 64)
    (hk : k.toUTF8.data.toList.length < 2 ^ 64) : Opens n [key k] bs := by
  subst hbs hlen
  exact encodeMap_opens (⟨key k, v⟩ :: es) hn (leads_key (item_text hk))

/-- A form that starts with the side, told by the key after it. -/
theorem opens_side {n : Nat} {k : String} {side : Address}
    {v bs : List UInt8} {es : List MapEntry}
    (hbs : bs = encodeMap (⟨key "side", bytes side.val⟩ :: ⟨key k, v⟩ :: es))
    (hlen : n = es.length + 2) (hn : n < 2 ^ 64)
    (hk : k.toUTF8.data.toList.length < 2 ^ 64) :
    Opens n [key "side", key k] bs := by
  subst hbs hlen
  have hside : Item (key "side") := item_text (by decide)
  exact encodeMap_opens (⟨key "side", bytes side.val⟩ :: ⟨key k, v⟩ :: es) hn
    (leads_entry hside (item_address side) (leads_key (item_text hk)))

theorem encodeUnsigned_opens (t : RecordType) (r : t.Record) :
    Opens t.opening.1 t.leadingKeys (t.encodeUnsigned r) := by
  cases t with
  | envelope | contractObject | membershipToken | verseReconsent | stateDelta
  | profile | linkageProof | pagePublish | announcement =>
      exact opens_key rfl rfl (by decide) (by decide)
  | joinRequest | verseLeave | verseRemove | pairingRequest | stateBundle
  | deviceRevoke | sideRetirement | handleAttest | storagePreferences =>
      exact opens_side rfl rfl (by decide) (by decide)

-- ========================================== a departure and a removal

theorem encodeMap_concat (es : List MapEntry) (k v : List UInt8) :
    encodeMap (es ++ [⟨k, v⟩])
      = writeHead mtMap (UInt64.ofNat (es.length + 1))
        ++ (es.flatMap fun e => e.key ++ e.value) ++ k ++ v := by
  unfold encodeMap
  rw [List.length_append, List.flatMap_append, List.flatMap_singleton]
  simp only [List.length_singleton, List.append_assoc]

/-- Forms whose last values have one length have last keys that end alike. -/
theorem last_keys_agree (es es' : List MapEntry) {k k' v v' : List UInt8}
    (heq : encodeMap (es ++ [⟨k, v⟩]) = encodeMap (es' ++ [⟨k', v'⟩]))
    (hv : v.length = v'.length) (hk : k ≠ []) (hk' : k' ≠ []) :
    k.getLast? = k'.getLast? := by
  rw [encodeMap_concat, encodeMap_concat] at heq
  have hkeys := List.append_inj_left' heq hv
  have hlast := congrArg List.getLast? hkeys
  rwa [List.getLast?_append_of_ne_nil _ hk,
    List.getLast?_append_of_ne_nil _ hk'] at hlast

theorem length_bytes {n : Nat} (b c : Bytes n) :
    (bytes b.val).length = (bytes c.val).length := by
  unfold bytes
  rw [List.length_append, List.length_append, b.property, c.property]

theorem leave_ne_remove (p : SignedVerseLeave) (q : SignedVerseRemove) :
    p.encodeUnsigned ≠ q.encodeUnsigned := by
  intro heq
  have hlast := last_keys_agree
    [⟨key "side", bytes p.side.val⟩, ⟨key "verse", bytes p.verse.val⟩,
      ⟨key "reason", ProfilePayload.orNull text p.reason⟩,
      ⟨key "disposition", text p.disposition.asStr⟩]
    [⟨key "side", bytes q.side.val⟩, ⟨key "verse", bytes q.verse.val⟩,
      ⟨key "reason", text q.reason⟩, ⟨key "issued_at", uint q.issuedAt⟩]
    heq (length_bytes p.membershipHash q.issuedBy) (by decide) (by decide)
  exact absurd hlast (by decide)

-- ==================================================== parting the types

/-- Ed25519 and BLAKE3 taken as ideal, where these bytes are signed. -/
structure Ideal (crypto : Crypto) (signed : Set (List UInt8)) : Prop where
  /-- No two of the byte strings have one hash. -/
  hash : Set.InjOn crypto.blake3 signed
  /-- A signature is over one digest. -/
  sig : ∀ {pk pk' : Address} {d d' : Bytes 32} {σ : Bytes signatureLen},
    crypto.verify pk d σ = .ok () → crypto.verify pk' d' σ = .ok () → d = d'

/-- The check each reader makes of a signature over a record. -/
def RecordType.Verifies (crypto : Crypto) (pk : Address) (t : RecordType)
    (r : t.Record) (σ : Bytes signatureLen) : Prop :=
  crypto.verify pk (crypto.blake3 (t.encodeUnsigned r)) σ = .ok ()

theorem encodeUnsigned_ne {t t' : RecordType} (hne : t ≠ t') (r : t.Record)
    (r' : t'.Record) : t.encodeUnsigned r ≠ t'.encodeUnsigned r' := by
  intro heq
  have hopens := encodeUnsigned_opens t r
  rw [heq] at hopens
  obtain ⟨hn, hkeys⟩ := hopens.comparable (encodeUnsigned_opens t' r')
  rcases RecordType.opening_apart t t' hne hn hkeys with ⟨rfl, rfl⟩ | ⟨rfl, rfl⟩
  · exact leave_ne_remove r r' heq
  · exact leave_ne_remove r' r heq.symm

/-- What is signed differs between any two record types, whatever the fields,
and a signature that verifies for a record of one verifies for none of the
other. -/
theorem signed_forms_apart {t t' : RecordType} (hne : t ≠ t') (r : t.Record)
    (r' : t'.Record) {crypto : Crypto}
    (hideal : Ideal crypto {t.encodeUnsigned r, t'.encodeUnsigned r'}) :
    t.encodeUnsigned r ≠ t'.encodeUnsigned r' ∧
      ∀ pk pk' σ, t.Verifies crypto pk r σ → ¬ t'.Verifies crypto pk' r' σ := by
  have hforms := encodeUnsigned_ne hne r r'
  refine ⟨hforms, fun pk pk' σ hσ hσ' => hforms ?_⟩
  exact hideal.hash (Set.mem_insert _ _)
    (Set.mem_insert_of_mem _ (Set.mem_singleton _)) (hideal.sig hσ hσ')

/-- The hash is the last 32 bytes, and a signature is the digest and the key. -/
def Crypto.legible : Crypto where
  blake3 bs := ⟨(bs.reverse ++ List.replicate 32 0).take 32, by
    rw [List.length_take, List.length_append, List.length_replicate]
    omega⟩
  verify pk d σ :=
    if σ.val = d.val ++ pk.val then .ok () else .error .signatureInvalid

/-- The hash of zeros. -/
theorem legible_zeros (n : Nat) :
    Crypto.legible.blake3 (List.replicate n 0) = Bytes.fill 32 0 := by
  refine Subtype.ext ?_
  change ((List.replicate n (0 : UInt8)).reverse
    ++ List.replicate 32 0).take 32 = List.replicate 32 0
  rw [List.reverse_replicate, List.replicate_append_replicate,
    List.take_replicate, Nat.min_eq_left (Nat.le_add_left ..)]

theorem Crypto.legible_sig {pk pk' : Address} {d d' : Bytes 32}
    {σ : Bytes signatureLen} (h : Crypto.legible.verify pk d σ = .ok ())
    (h' : Crypto.legible.verify pk' d' σ = .ok ()) : d = d' := by
  have hσ : σ.val = d.val ++ pk.val := by
    by_contra hne
    exact absurd h (by simp only [legible, if_neg hne, reduceCtorEq,
      not_false_eq_true])
  have hσ' : σ.val = d'.val ++ pk'.val := by
    by_contra hne
    exact absurd h' (by simp only [legible, if_neg hne, reduceCtorEq,
      not_false_eq_true])
  have hlen : d.val.length = d'.val.length := d.property.trans d'.property.symm
  exact Subtype.ext (List.append_inj_left (hσ.symm.trans hσ') hlen)

/-- The key whose signatures are so made. -/
def Signer.legible (pk : Address) : Signer Crypto.legible where
  publicBytes := pk
  sign d := ⟨d.val ++ pk.val, by
    rw [List.length_append, d.property, pk.property]
    rfl⟩
  verifies d := if_pos rfl

/-- A departure and the removal of the same member for the same reason: the
departure's signature is none of the removal. -/
theorem signed_forms_apart_leave :
    let leave : SignedVerseLeave :=
      { verse := Bytes.fill 32 1, side := Bytes.fill 32 2, disposition := .retain,
        membershipHash := Bytes.fill 32 3, reason := some "r",
        signature := Bytes.fill 64 2 }
    let remove : SignedVerseRemove :=
      { verse := Bytes.fill 32 1, side := Bytes.fill 32 2,
        issuedBy := Bytes.fill 32 4, reason := "r", issuedAt := 5,
        signature := Bytes.fill 64 4 }
    let σ : Bytes signatureLen :=
      ⟨List.replicate 32 3 ++ List.replicate 32 2, rfl⟩
    RecordType.verseLeave.Verifies Crypto.legible (Bytes.fill 32 2) leave σ
      ∧ ¬ RecordType.verseRemove.Verifies Crypto.legible (Bytes.fill 32 4)
        remove σ := by
  intro leave remove σ
  have hleave : RecordType.verseLeave.Verifies Crypto.legible
      (Bytes.fill 32 2) leave σ := by
    unfold RecordType.Verifies
    decide +kernel
  refine ⟨hleave, (@signed_forms_apart .verseLeave .verseRemove (by decide) leave
    remove Crypto.legible ⟨?_, ?_⟩).2 _ _ σ hleave⟩
  · rintro x (rfl | rfl) y (rfl | rfl) heq
    · rfl
    · exact absurd heq (by decide +kernel)
    · exact absurd heq (by decide +kernel)
    · rfl
  · exact Crypto.legible_sig

end Sidevers.Proofs
