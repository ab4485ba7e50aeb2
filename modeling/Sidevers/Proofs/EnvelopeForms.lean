/-
The one wire form of an envelope.

Bytes are accepted as an envelope exactly when they are its wire form, its
version is the supported one, and the signature verifies over the seven other
fields. What is signed determines these fields: the unsigned form can be read
back (`readUnsigned`).
-/
import Sidevers.Core.EnvelopeWire
import Sidevers.Proofs.CborWrites
import Sidevers.Proofs.SignedForms

namespace Sidevers.Proofs

open Sidevers.Core
open Sidevers.Core.Cbor

-- ================================================================= fields

theorem reads_type (t : MessageType) :
    Reads SignedEnvelope.readType (uint t.byte.toUInt64) t := by
  have hb := t.byte.toNat_lt
  refine (reads_readU64 _).andThen (.neg (fun hgt => ?_) ?_)
  · have hgt : 255 < t.byte.toUInt64.toNat := hgt
    rw [UInt8.toNat_toUInt64] at hgt
    omega
  · rw [UInt8.toUInt8_toUInt64]
    exact .pure t

theorem reads_to (addr : Option Address) :
    Reads SignedEnvelope.readTo
      (ProfilePayload.orNull (fun addr => bytes addr.val) addr) addr := by
  cases addr with
  | none => exact reads_readBytesOrNull_null.andThen (.pure none)
  | some addr =>
      refine (reads_readBytesOrNull addr.val).andThen ?_
      show Reads (if h : addr.val.length = publicKeyLen then _ else _) _ _
      rw [dif_pos addr.property]
      exact .pure (some addr)

/-- The eight fields of an envelope read back from its wire form. -/
theorem reads_envelope (e : SignedEnvelope) :
    Reads SignedEnvelope.readFields e.toWireBytes e := by
  have hcount : 8 ≤ maxCborEntries := by decide
  refine .map hcount ?_
  refine .field (reads_type e.messageType) ?_
  refine .field (reads_readU64 e.version) ?_
  refine .field (reads_to e.toSide) ?_
  refine .field (reads_readU64 e.timestamp) ?_
  refine .field (reads_readExact _ e.sig) ?_
  refine .field (reads_readExact _ e.fromSide) ?_
  refine .field (reads_readExact _ e.nonce) ?_
  exact .field (reads_readBytes e.payload) (.pure e)

/-- The unsigned form, read as an envelope with the signature given. -/
def readUnsigned (sig : Bytes signatureLen) : Read SignedEnvelope := do
  expectEntries 7 fun n => s!"envelope expected 7-key map, got {n}"
  SignedEnvelope.expectField "t"
  let messageType ← SignedEnvelope.readType
  SignedEnvelope.expectField "v"
  let version ← readU64
  SignedEnvelope.expectField "to"
  let toSide ← SignedEnvelope.readTo
  SignedEnvelope.expectField "ts"
  let timestamp ← readU64
  SignedEnvelope.expectField "from"
  let fromSide ← readExact "from" publicKeyLen
  SignedEnvelope.expectField "nonce"
  let nonce ← readExact "nonce" nonceLen
  SignedEnvelope.expectField "payload"
  let payload ← readBytes
  return { version, messageType, fromSide, toSide, timestamp, nonce, payload,
           sig }

theorem reads_unsigned (e : SignedEnvelope) (sig : Bytes signatureLen) :
    Reads (readUnsigned sig) e.encodeUnsigned { e with sig } := by
  have hcount : 7 ≤ maxCborEntries := by decide
  refine .map hcount ?_
  refine .field (reads_type e.messageType) ?_
  refine .field (reads_readU64 e.version) ?_
  refine .field (reads_to e.toSide) ?_
  refine .field (reads_readU64 e.timestamp) ?_
  refine .field (reads_readExact _ e.fromSide) ?_
  refine .field (reads_readExact _ e.nonce) ?_
  exact .field (reads_readBytes e.payload) (.pure _)

-- =============================================================== envelopes

theorem fromWireBytes_of_form {crypto : Crypto} {e : SignedEnvelope}
    (hlen : e.toWireBytes.length < 2 ^ 64) (hversion : e.version = protocolVersion)
    (hsig : crypto.verify e.fromSide (crypto.blake3 e.encodeUnsigned) e.sig
      = .ok ()) :
    SignedEnvelope.fromWireBytes crypto e.toWireBytes = .ok e := by
  have hread : SignedEnvelope.readAll.value e.toWireBytes = .ok e :=
    (reads_envelope e).value_atEnd hlen _
  exact bind_ok hread (guard_ok.mpr
    ⟨not_not.mpr hversion, verified_canonical.mpr ⟨hsig, rfl, rfl⟩⟩)

theorem form_of_fromWireBytes {crypto : Crypto} {b : List UInt8}
    {e : SignedEnvelope} (h : SignedEnvelope.fromWireBytes crypto b = .ok e) :
    b = e.toWireBytes ∧ e.version = protocolVersion
      ∧ crypto.verify e.fromSide (crypto.blake3 e.encodeUnsigned) e.sig
        = .ok () := by
  obtain ⟨e₀, -, h⟩ := ok_of_bind h
  obtain ⟨hversion, h⟩ := guard_ok.mp h
  obtain ⟨hsig, hform, rfl⟩ := verified_canonical.mp h
  exact ⟨hform.symm, not_not.mp hversion, hsig⟩

/-- Bytes are accepted as an envelope iff they are its wire form, its version
is the supported one and its signature verifies over its other fields, which
the signed form determines. What a key signs is accepted. -/
theorem envelope_form (crypto : Crypto) :
    (∀ (b : List UInt8) (e : SignedEnvelope), b.length < 2 ^ 64 →
      (SignedEnvelope.fromWireBytes crypto b = .ok e
        ↔ b = e.toWireBytes ∧ e.version = protocolVersion
          ∧ crypto.verify e.fromSide (crypto.blake3 e.encodeUnsigned) e.sig
            = .ok ()))
    ∧ (∀ e e' : SignedEnvelope, e.encodeUnsigned.length < 2 ^ 64 →
      e.encodeUnsigned = e'.encodeUnsigned → e = { e' with sig := e.sig })
    ∧ ∀ (side : Signer crypto) messageType toSide payload timestamp nonce,
      let e := SignedEnvelope.signWith messageType side toSide payload
        timestamp nonce
      e.toWireBytes.length < 2 ^ 64 →
      SignedEnvelope.fromWireBytes crypto e.toWireBytes = .ok e := by
  refine ⟨fun b e hlen => ⟨form_of_fromWireBytes, ?_⟩,
    fun e e' hlen heq => ?_, ?_⟩
  · rintro ⟨rfl, hversion, hsig⟩
    exact fromWireBytes_of_form hlen hversion hsig
  · have hread := reads_unsigned e' e.sig
    rw [← heq] at hread
    exact (reads_unsigned e e.sig).unique hread hlen
  · intro side messageType toSide payload timestamp nonce e hlen
    exact fromWireBytes_of_form hlen rfl (side.verifies _)

/-- An envelope signed with the key whose signatures can be read. -/
theorem envelope_form_signed :
    let e := SignedEnvelope.signWith .directMessage
      (Signer.legible (Bytes.fill _ 1)) (some (Bytes.fill _ 2)) [1, 2, 3] 7
      (Bytes.fill _ 4)
    SignedEnvelope.fromWireBytes Crypto.legible e.toWireBytes = .ok e :=
  (envelope_form Crypto.legible).2.2 _ _ _ _ _ _ (by decide +kernel)

end Sidevers.Proofs
