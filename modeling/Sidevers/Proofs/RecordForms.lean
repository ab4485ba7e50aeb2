/-
The one wire form of the signed records and of the handshake payloads.

What a decoder accepts is the encoding of what it returns, and a value reads
back from its encoding if none of its lists is longer than the reader takes
(`single_form`). The decoders of signed records compare the bytes with the
encoding themselves; those of the handshake do not, and are canonical because
every field is read in one form (`spells_hello`, `spells_helloBack`).
-/
import Sidevers.Core.HandshakeWire
import Sidevers.Core.RecordWire
import Sidevers.Proofs.DeviceForms
import Sidevers.Proofs.SignedForms
import Sidevers.Proofs.WireForms

namespace Sidevers.Proofs

open Sidevers.Core
open Sidevers.Core.Cbor
open Sidevers.Lib
open Sidevers.Lib.Cbor

-- ============================================================ the decoders

/-- Read with nothing after it. -/
theorem Reads.whole {α : Type} {r : Read α} {bs : List UInt8} {a : α}
    (h : Reads r bs a) (hlen : bs.length < 2 ^ 64) (what : String) :
    r.whole what bs = .ok a := h.value_atEnd hlen _

/-- A decoder that looks at the end accepts the encoding only. -/
theorem Spells.of_whole {α : Type} {r : Read α} {w : α → List UInt8}
    {what : String} {b : List UInt8} {v : α} (hr : Spells r w)
    (h : r.whole what b = .ok v) : b = w v := hr.of_atEnd h

/-- What a decoder of signed bytes accepts. -/
theorem signed_iff {α : Type} {r : Read α} {what : String}
    {verify : α → Except Core.Error Unit} {w : α → List UInt8}
    {b : List UInt8} {a : α} :
    r.signed what verify w b = .ok a
      ↔ r.whole what b = .ok a ∧ verify a = .ok () ∧ w a = b :=
  read_verified_canonical

-- =========================================================== the handshake

/-- An intent is a byte; which one is not looked at here. -/
theorem spells_readIntent : Spells readIntent encodeU8 := by
  refine spells_readU64.bind fun v bs ⟨hbs, hitem⟩ =>
    .ite (fun _ => .throw_bind) fun hle => .pure ?_
  rw [List.append_nil, encodeU8_toUInt8 hle]
  exact ⟨hbs, hitem⟩

/-- A byte passes the check. -/
theorem reads_readIntent (i : UInt8) : Reads readIntent (encodeU8 i) i := by
  have hi := i.toNat_lt
  refine (reads_readU64 _).andThen (.neg (fun hgt => ?_) ?_)
  · have hgt : 255 < i.toUInt64.toNat := hgt
    rw [UInt8.toNat_toUInt64] at hgt
    omega
  · rw [UInt8.toUInt8_toUInt64]
    exact .pure i

/-- Names with a version each, in the order of the names. -/
theorem spells_capabilities : Spells decodeCapabilities encodeCapabilities :=
  spells_readMap spells_readU64 _

theorem reads_capabilities {m : BTreeMap String UInt64}
    (hcount : m.entries.length ≤ maxCborEntries) :
    Reads decodeCapabilities (encodeCapabilities m) m :=
  reads_readMap reads_readU64 _ hcount

/-- The fields of a Hello, in the order of their keys' lengths. -/
theorem spells_hello : Spells HelloWire.readFields HelloWire.encode :=
  spells_map (.field spells_readU64 fun _ => .field spells_readU64 fun _ =>
    .field spells_readIntent fun _ => .field (spells_readExact _ _) fun _ =>
    .field (spells_readArray spells_readText) fun _ =>
    .field spells_capabilities fun _ => .pure ⟨rfl, rfl⟩)

/-- Only its two lists can be too long for the reader. -/
theorem reads_hello {p : HelloWire}
    (hexts : p.extensions.length ≤ maxCborEntries)
    (hcaps : p.capabilities.entries.length ≤ maxCborEntries) :
    Reads HelloWire.readFields p.encode p := by
  refine .map (by decide : 6 ≤ maxCborEntries) ?_
  refine .field (reads_readU64 p.vMax) ?_
  refine .field (reads_readU64 p.vMin) ?_
  refine .field (reads_readIntent p.intent) ?_
  refine .field (reads_readExact _ p.ephPub) ?_
  refine .field (reads_readArray hexts fun t _ => reads_readText t) ?_
  exact .field (reads_capabilities hcaps) (.pure p)

/-- An answer, with the reason of a refusal or a null. -/
theorem spells_helloBack :
    Spells HelloBackWire.readFields HelloBackWire.encode :=
  spells_map (.field spells_readU64 fun _ => .field spells_readBool fun _ =>
    .field (spells_readOrNull spells_readText) fun _ =>
    .field (spells_readExact _ _) fun _ =>
    .field (spells_readArray spells_readText) fun _ =>
    .field spells_capabilities fun _ => .pure ⟨rfl, rfl⟩)

/-- It has two lists as well. -/
theorem reads_helloBack {p : HelloBackWire}
    (hexts : p.extensions.length ≤ maxCborEntries)
    (hcaps : p.capabilities.entries.length ≤ maxCborEntries) :
    Reads HelloBackWire.readFields p.encode p := by
  refine .map (by decide : 6 ≤ maxCborEntries) ?_
  refine .field (reads_readU64 p.v) ?_
  refine .field (reads_readBool p.accept) ?_
  refine .field (reads_optionalText _ p.reason) ?_
  refine .field (reads_readExact _ p.ephPub) ?_
  refine .field (reads_readArray hexts fun t _ => reads_readText t) ?_
  exact .field (reads_capabilities hcaps) (.pure p)

/-- The proof, and nothing else. -/
theorem spells_confirm : Spells ConfirmWire.readFields ConfirmWire.encode :=
  spells_map (.field (spells_readExact _ _) fun _ => .pure ⟨rfl, rfl⟩)

theorem reads_confirm (p : ConfirmWire) :
    Reads ConfirmWire.readFields p.encode p := by
  refine .map (by decide : 1 ≤ maxCborEntries) ?_
  exact .field (reads_readExact _ p.proof) (.pure p)

-- ========================================================= signed records

/-- A retirement, its reason or a null. In all of these the signature stands
among the fields, in the order of the keys. -/
theorem reads_sideRetirement (p : SignedSideRetirement) :
    Reads SignedSideRetirement.readFields p.toWireBytes p := by
  refine .map (by decide : 4 ≤ maxCborEntries) ?_
  refine .field (reads_readExact _ p.side) ?_
  refine .field (reads_optionalText _ p.reason) ?_
  refine .field (reads_readExact _ p.signature) ?_
  exact .field (reads_readU64 p.retiredAt) (.pure p)

/-- A linkage proof has two sides and two signatures. -/
theorem reads_linkageProof (p : SignedLinkageProof) :
    Reads SignedLinkageProof.readFields p.toWireBytes p := by
  refine .map (by decide : 6 ≤ maxCborEntries) ?_
  refine .field (reads_readExact _ p.nonce) ?_
  refine .field (reads_readExact _ p.sigA) ?_
  refine .field (reads_readExact _ p.sigB) ?_
  refine .field (reads_readExact _ p.sideA) ?_
  refine .field (reads_readExact _ p.sideB) ?_
  exact .field (reads_readU64 p.issuedAt) (.pure p)

/-- The providers are the one list there is among the records: the only one
that may not read back. -/
theorem reads_storagePreferences {p : StoragePreferences}
    (hcount : p.preferredProviders.length ≤ maxCborEntries) :
    Reads StoragePreferences.readFields p.toWireBytes p := by
  refine .map (by decide : 6 ≤ maxCborEntries) ?_
  refine .field (reads_readExact _ p.side) ?_
  refine .field (reads_readExact _ p.signature) ?_
  refine .field (reads_readU64 p.updatedAt) ?_
  refine .field (reads_readU64 p.maxObjectKib) ?_
  refine .field (reads_readArray hcount fun b _ => reads_readExact _ b) ?_
  exact .field (reads_readU64 p.retentionHintSecs) (.pure p)

/-- A handle is a local part and a domain. -/
theorem reads_handleAttest (p : HandleAttestPayload) :
    Reads HandleAttestPayload.readFields p.toWireBytes p := by
  refine .map (by decide : 5 ≤ maxCborEntries) ?_
  refine .field (reads_readExact _ p.side) ?_
  refine .field (reads_readText p.domain) ?_
  refine .field (reads_readU64 p.issuedAt) ?_
  refine .field (reads_readExact _ p.signature) ?_
  exact .field (reads_readText p.handleLocal) (.pure p)

/-- A page, with its content as bytes. -/
theorem reads_pagePublish (p : PagePublishPayload) :
    Reads PagePublishPayload.readFields p.toWireBytes p := by
  refine .map (by decide : 6 ≤ maxCborEntries) ?_
  refine .field (reads_readText p.mime) ?_
  refine .field (reads_readExact _ p.side) ?_
  refine .field (reads_readText p.slug) ?_
  refine .field (reads_readBytes p.content) ?_
  refine .field (reads_readExact _ p.signature) ?_
  exact .field (reads_readU64 p.publishedAt) (.pure p)

/-- An announcement, with its body as a text. -/
theorem reads_announcement (p : AnnouncementPayload) :
    Reads AnnouncementPayload.readFields p.toWireBytes p := by
  refine .map (by decide : 4 ≤ maxCborEntries) ?_
  refine .field (reads_readText p.body) ?_
  refine .field (reads_readExact _ p.side) ?_
  refine .field (reads_readExact _ p.signature) ?_
  exact .field (reads_readU64 p.createdAt) (.pure p)

/-- A request to pair, with both keys of the device. -/
theorem reads_pairingRequest (p : SignedPairingRequest) :
    Reads SignedPairingRequest.readFields p.toWireBytes p := by
  refine .map (by decide : 5 ≤ maxCborEntries) ?_
  refine .field (reads_readExact _ p.side) ?_
  refine .field (reads_readExact _ p.nonce) ?_
  refine .field (reads_readExact _ p.signature) ?_
  refine .field (reads_readExact _ p.devicePubkey) ?_
  exact .field (reads_readExact _ p.deviceX25519Pubkey) (.pure p)

/-- A bundle: the state is sealed and has a form of its own. -/
theorem reads_stateBundle (p : SignedStateBundle) :
    Reads SignedStateBundle.readFields p.toWireBytes p := by
  refine .map (by decide : 6 ≤ maxCborEntries) ?_
  refine .field (reads_readExact _ p.side) ?_
  refine .field (reads_readExact _ p.nonce) ?_
  refine .field (reads_readExact _ p.keyNonce) ?_
  refine .field (reads_readExact _ p.signature) ?_
  refine .field (reads_readBytes p.sealedState) ?_
  exact .field (reads_readExact _ p.recipientDevice) (.pure p)

/-- A revocation, its reason or a null. -/
theorem reads_deviceRevoke (p : SignedDeviceRevoke) :
    Reads SignedDeviceRevoke.readFields p.toWireBytes p := by
  refine .map (by decide : 5 ≤ maxCborEntries) ?_
  refine .field (reads_readExact _ p.side) ?_
  refine .field (reads_optionalText _ p.reason) ?_
  refine .field (reads_readExact _ p.signature) ?_
  refine .field (reads_readU64 p.revokedAt) ?_
  exact .field (reads_readExact _ p.devicePubkey) (.pure p)

-- ============================================================== the forms

/-- The records that are signed, and the payloads of a handshake. -/
inductive FormType where
  | hello
  | helloBack
  | confirm
  | sideRetirement
  | linkageProof
  | storagePreferences
  | handleAttest
  | pagePublish
  | announcement
  | pairingRequest
  | stateBundle
  | deviceRevoke

namespace FormType

/-- What is encoded. -/
def Record : FormType → Type
  | hello => HelloWire
  | helloBack => HelloBackWire
  | confirm => ConfirmWire
  | sideRetirement => SignedSideRetirement
  | linkageProof => SignedLinkageProof
  | storagePreferences => StoragePreferences
  | handleAttest => HandleAttestPayload
  | pagePublish => PagePublishPayload
  | announcement => AnnouncementPayload
  | pairingRequest => SignedPairingRequest
  | stateBundle => SignedStateBundle
  | deviceRevoke => SignedDeviceRevoke

/-- Its encoder. -/
def encode : (t : FormType) → t.Record → List UInt8
  | hello => HelloWire.encode
  | helloBack => HelloBackWire.encode
  | confirm => ConfirmWire.encode
  | sideRetirement => SignedSideRetirement.toWireBytes
  | linkageProof => SignedLinkageProof.toWireBytes
  | storagePreferences => StoragePreferences.toWireBytes
  | handleAttest => HandleAttestPayload.toWireBytes
  | pagePublish => PagePublishPayload.toWireBytes
  | announcement => AnnouncementPayload.toWireBytes
  | pairingRequest => SignedPairingRequest.toWireBytes
  | stateBundle => SignedStateBundle.toWireBytes
  | deviceRevoke => SignedDeviceRevoke.toWireBytes

/-- Its decoder. -/
def decode (crypto : Crypto) :
    (t : FormType) → List UInt8 → Except Core.Error t.Record
  | hello => HelloWire.decode
  | helloBack => HelloBackWire.decode
  | confirm => ConfirmWire.decode
  | sideRetirement => SignedSideRetirement.fromWireBytes crypto
  | linkageProof => SignedLinkageProof.fromWireBytes crypto
  | storagePreferences => StoragePreferences.fromWireBytes crypto
  | handleAttest => HandleAttestPayload.fromWireBytes crypto
  | pagePublish => PagePublishPayload.fromWireBytes crypto
  | announcement => AnnouncementPayload.fromWireBytes crypto
  | pairingRequest => SignedPairingRequest.fromWireBytes crypto
  | stateBundle => SignedStateBundle.fromWireBytes crypto
  | deviceRevoke => SignedDeviceRevoke.fromWireBytes crypto

/-- What its constructor makes: a payload of a handshake is any, a record is
signed. -/
def Made (crypto : Crypto) : (t : FormType) → t.Record → Prop
  | hello, _ => True
  | helloBack, _ => True
  | confirm, _ => True
  | sideRetirement, p => ∃ (side : Signer crypto) (retiredAt : UInt64)
      (reason : Option String), p = .sign side retiredAt reason
  | linkageProof, p => ∃ (sideA sideB : Signer crypto) (issuedAt : UInt64)
      (nonce : Bytes linkageNonceLen), p = .signWith sideA sideB issuedAt nonce
  | storagePreferences, p => ∃ (side : Signer crypto)
      (updatedAt maxObjectKib : UInt64) (preferredProviders : List Address)
      (retentionHintSecs : UInt64), p = .sign side updatedAt maxObjectKib
        preferredProviders retentionHintSecs
  | handleAttest, p => ∃ (sideKey : Signer crypto)
      (handleLocal domain : String) (issuedAt : UInt64),
      p = .sign sideKey handleLocal domain issuedAt
  | pagePublish, p => ∃ (sideKey : Signer crypto) (slug mime : String)
      (content : List UInt8) (publishedAt : UInt64),
      p = .sign sideKey slug mime content publishedAt
  | announcement, p => ∃ (sideKey : Signer crypto) (body : String)
      (createdAt : UInt64), p = .sign sideKey body createdAt
  | pairingRequest, p => ∃ (side : Address)
      (deviceSigningKey : Signer crypto) (deviceX25519Pubkey : Bytes 32)
      (nonce : Bytes pairingNonceLen),
      p = .sign side deviceSigningKey deviceX25519Pubkey nonce
  | stateBundle, p => ∃ (sideKey : Signer crypto) (recipientDevice : Address)
      (nonce : Bytes pairingNonceLen) (keyNonce : Bytes keyNonceLen)
      (sealedState : List UInt8),
      p = .sign sideKey recipientDevice nonce keyNonce sealedState
  | deviceRevoke, p => ∃ (sideKey : Signer crypto) (devicePubkey : Bytes 32)
      (revokedAt : UInt64) (reason : Option String),
      p = .sign sideKey devicePubkey revokedAt reason

/-- None of its lists is longer than a reader takes. -/
def Fits : (t : FormType) → t.Record → Prop
  | hello, (p : HelloWire) => p.extensions.length ≤ maxCborEntries
      ∧ p.capabilities.entries.length ≤ maxCborEntries
  | helloBack, (p : HelloBackWire) => p.extensions.length ≤ maxCborEntries
      ∧ p.capabilities.entries.length ≤ maxCborEntries
  | storagePreferences, (p : StoragePreferences) =>
      p.preferredProviders.length ≤ maxCborEntries
  | _, _ => True

/-- Its signatures verify, if it is signed: a request's under the key of the
device, a record's under that of its side, a linkage proof's under both. -/
def Verifies (crypto : Crypto) : (t : FormType) → t.Record → Prop
  | hello, _ => True
  | helloBack, _ => True
  | confirm, _ => True
  | sideRetirement, (p : SignedSideRetirement) =>
      crypto.verify p.side (crypto.blake3 p.encodeUnsigned) p.signature = .ok ()
  | linkageProof, (p : SignedLinkageProof) =>
      crypto.verify p.sideA (crypto.blake3 p.encodeUnsigned) p.sigA = .ok ()
      ∧ crypto.verify p.sideB (crypto.blake3 p.encodeUnsigned) p.sigB = .ok ()
  | storagePreferences, (p : StoragePreferences) =>
      crypto.verify p.side (crypto.blake3 p.encodeUnsigned) p.signature = .ok ()
  | handleAttest, (p : HandleAttestPayload) =>
      crypto.verify p.side (crypto.blake3 p.encodeUnsigned) p.signature = .ok ()
  | pagePublish, (p : PagePublishPayload) =>
      crypto.verify p.side (crypto.blake3 p.encodeUnsigned) p.signature = .ok ()
  | announcement, (p : AnnouncementPayload) =>
      crypto.verify p.side (crypto.blake3 p.encodeUnsigned) p.signature = .ok ()
  | pairingRequest, (p : SignedPairingRequest) =>
      crypto.verify p.devicePubkey (crypto.blake3 p.encodeUnsigned) p.signature
        = .ok ()
  | stateBundle, (p : SignedStateBundle) =>
      crypto.verify p.side (crypto.blake3 p.encodeUnsigned) p.signature = .ok ()
  | deviceRevoke, (p : SignedDeviceRevoke) =>
      crypto.verify p.side (crypto.blake3
        (SignedDeviceRevoke.encodeUnsigned p.toDeviceRevokePayload))
        p.signature = .ok ()

end FormType

/-- A linkage proof verifies iff both its signatures do. -/
theorem verifyBoth_iff {crypto : Crypto} {p : SignedLinkageProof} :
    p.verifyBoth crypto = .ok ()
      ↔ FormType.linkageProof.Verifies crypto p := by
  constructor
  · intro h
    obtain ⟨⟨⟩, ha, hb⟩ := ok_of_bind h
    exact ⟨ha, hb⟩
  · exact fun ⟨ha, hb⟩ => bind_ok ha hb

/-- What is signed verifies. -/
theorem FormType.Made.verifies {crypto : Crypto} {t : FormType}
    {v : t.Record} (h : t.Made crypto v) : t.Verifies crypto v := by
  cases t with
  | hello => trivial
  | helloBack => trivial
  | confirm => trivial
  | sideRetirement =>
      obtain ⟨side, retiredAt, reason, rfl⟩ := h
      exact side.verifies _
  | linkageProof =>
      obtain ⟨sideA, sideB, issuedAt, nonce, rfl⟩ := h
      exact ⟨sideA.verifies _, sideB.verifies _⟩
  | storagePreferences =>
      obtain ⟨side, updatedAt, maxObjectKib, providers, hint, rfl⟩ := h
      exact side.verifies _
  | handleAttest =>
      obtain ⟨sideKey, handleLocal, domain, issuedAt, rfl⟩ := h
      exact sideKey.verifies _
  | pagePublish =>
      obtain ⟨sideKey, slug, mime, content, publishedAt, rfl⟩ := h
      exact sideKey.verifies _
  | announcement =>
      obtain ⟨sideKey, body, createdAt, rfl⟩ := h
      exact sideKey.verifies _
  | pairingRequest =>
      obtain ⟨side, deviceSigningKey, deviceX25519Pubkey, nonce, rfl⟩ := h
      exact deviceSigningKey.verifies _
  | stateBundle =>
      obtain ⟨sideKey, recipientDevice, nonce, keyNonce, sealedState, rfl⟩ := h
      exact sideKey.verifies _
  | deviceRevoke =>
      obtain ⟨sideKey, devicePubkey, revokedAt, reason, rfl⟩ := h
      exact sideKey.verifies _

/-- A value whose signatures verify reads back from its encoding. -/
theorem decode_record {crypto : Crypto} {t : FormType} {v : t.Record}
    (hverifies : t.Verifies crypto v) (hfits : t.Fits v)
    (hlen : (t.encode v).length < 2 ^ 64) :
    t.decode crypto (t.encode v) = .ok v := by
  cases t with
  | hello => exact (reads_hello hfits.1 hfits.2).whole hlen _
  | helloBack => exact (reads_helloBack hfits.1 hfits.2).whole hlen _
  | confirm => exact (reads_confirm v).whole hlen _
  | sideRetirement =>
      exact signed_iff.mpr
        ⟨(reads_sideRetirement v).whole hlen _, hverifies, rfl⟩
  | linkageProof =>
      exact signed_iff.mpr
        ⟨(reads_linkageProof v).whole hlen _, verifyBoth_iff.mpr hverifies, rfl⟩
  | storagePreferences =>
      exact signed_iff.mpr
        ⟨(reads_storagePreferences hfits).whole hlen _, hverifies, rfl⟩
  | handleAttest =>
      exact signed_iff.mpr
        ⟨(reads_handleAttest v).whole hlen _, hverifies, rfl⟩
  | pagePublish =>
      exact signed_iff.mpr
        ⟨(reads_pagePublish v).whole hlen _, hverifies, rfl⟩
  | announcement =>
      exact signed_iff.mpr
        ⟨(reads_announcement v).whole hlen _, hverifies, rfl⟩
  | pairingRequest =>
      exact read_verified_canonical.mpr
        ⟨(reads_pairingRequest v).value_atEnd hlen _, hverifies, rfl⟩
  | stateBundle =>
      exact signed_iff.mpr
        ⟨(reads_stateBundle v).whole hlen _, hverifies, rfl⟩
  | deviceRevoke =>
      exact signed_iff.mpr
        ⟨(reads_deviceRevoke v).whole hlen _, hverifies, rfl⟩

/-- What is accepted is the encoding of the result, whose signatures
verify. -/
theorem form_of_decode {crypto : Crypto} {t : FormType} {b : List UInt8}
    {v : t.Record} (h : t.decode crypto b = .ok v) :
    b = t.encode v ∧ t.Verifies crypto v := by
  cases t with
  | hello => exact ⟨spells_hello.of_whole h, trivial⟩
  | helloBack => exact ⟨spells_helloBack.of_whole h, trivial⟩
  | confirm => exact ⟨spells_confirm.of_whole h, trivial⟩
  | linkageProof =>
      obtain ⟨-, hverifies, hform⟩ := signed_iff.mp h
      exact ⟨hform.symm, verifyBoth_iff.mp hverifies⟩
  | pairingRequest =>
      obtain ⟨-, hverifies, hform⟩ := read_verified_canonical.mp h
      exact ⟨hform.symm, hverifies⟩
  | sideRetirement | storagePreferences | handleAttest | pagePublish
  | announcement | stateBundle | deviceRevoke =>
      obtain ⟨-, hverifies, hform⟩ := signed_iff.mp h
      exact ⟨hform.symm, hverifies⟩

/-- What a constructor makes reads back from its encoding, if none of its
lists is longer than a reader takes; and whatever is accepted is the encoding
of the result, whose signatures verify. -/
theorem single_form (crypto : Crypto) (t : FormType) :
    (∀ v, t.Made crypto v → t.Fits v → (t.encode v).length < 2 ^ 64 →
      t.decode crypto (t.encode v) = .ok v)
    ∧ ∀ b v, t.decode crypto b = .ok v →
      b = t.encode v ∧ t.Verifies crypto v :=
  ⟨fun _ hmade hfits hlen => decode_record hmade.verifies hfits hlen,
    fun _ _ h => form_of_decode h⟩

/-- Preferences with two providers, signed by the side. -/
theorem single_form_signed :
    let p := StoragePreferences.sign (Signer.legible (Bytes.fill _ 1)) 7 512
      [Bytes.fill _ 2, Bytes.fill _ 3] 86400
    StoragePreferences.fromWireBytes Crypto.legible p.toWireBytes = .ok p :=
  (single_form Crypto.legible .storagePreferences).1 _ ⟨_, _, _, _, _, rfl⟩
    (show 2 ≤ maxCborEntries by decide) (by decide +kernel)

/-- What is accepted is within the limit. -/
theorem returns_storagePreferences :
    Returns StoragePreferences.readFields fun p =>
      p.preferredProviders.length ≤ maxCborEntries := by
  refine (Returns.any _).bind fun _ _ => ?_
  refine .field (.any _) fun side _ => .field (.any _) fun signature _ => ?_
  refine .field (.any _) fun updatedAt _ => .field (.any _) fun kib _ => ?_
  refine .field (returns_readArray (.any _)) fun providers h => ?_
  exact .field (.any _) fun hint _ => .pure h.1

/-- The look at the end returns what was read. -/
theorem Returns.whole {α : Type} {r : Read α} {P : α → Prop} {what : String}
    {b : List UInt8} {v : α} (hr : Returns r P) (h : r.whole what b = .ok v) :
    P v := by
  refine Returns.of_value (hr.bind fun a ha => ?_) h
  exact (Returns.any _).bind fun _ _ => .ite (fun _ => .throw_bind)
    fun _ => .pure ha

/-- One provider more than a reader takes. -/
def manyProviders : StoragePreferences :=
  .sign (Signer.legible (Bytes.fill _ 1)) 7 512
    (List.replicate (maxCborEntries + 1) (Bytes.fill _ 2)) 86400

/-- They are signed, and do not read back. -/
theorem many_providers_refused :
    FormType.storagePreferences.Made Crypto.legible manyProviders
      ∧ StoragePreferences.fromWireBytes Crypto.legible
        manyProviders.toWireBytes ≠ .ok manyProviders := by
  refine ⟨⟨_, _, _, _, _, rfl⟩, fun h => ?_⟩
  have hcount := returns_storagePreferences.whole (signed_iff.mp h).1
  have hlen : manyProviders.preferredProviders.length = maxCborEntries + 1 :=
    List.length_replicate
  omega

end Sidevers.Proofs
