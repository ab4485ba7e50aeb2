/-
Handshake payloads (`messages/handshake.rs`, protocol spec §4.3) over ideal
cryptography.

# Ideal cryptography

Keys, shared secrets and MACs are terms: two of them are equal only when they
were built alike. An X25519 public key is that of a secret, or bytes that
nobody knows the secret of; for the latter the exchange gives the constant of
a low-order point, the worst that such a key can do. HKDF and keyed BLAKE3
are injective in all they are given, and the salt `BLAKE3(hello ‖ helloback)`
determines both messages, each being self-delimiting.

# Wire forms

`Signed.form` is what the bytes of an envelope say beyond its parsed fields:
which of its signer's signatures it carries and how the payload is encoded.
The code signs and encodes deterministically (form 0); the owner of a key is
free to use others, and the transcript is over the bytes.
-/
import Sidevers.Core.Cbor
import Sidevers.Core.Envelope
import Sidevers.Lib.BTreeMap
import Mathlib.Data.String.Basic
import Mathlib.Data.Sym.Sym2

namespace Sidevers.Core

open Sidevers.Lib

universe u

-- ================================================= ideal cryptography

/-- An X25519 secret (`EphemeralSecret`), by number. -/
abbrev EphemeralSecret := Nat

/-- An X25519 public key, as it stands in `eph_pub`. -/
inductive EphPub where
  | ofSecret (secret : EphemeralSecret)
  | bytes (b : Bytes 32)
  deriving DecidableEq

/-- The result of `diffie_hellman`. -/
inductive SharedSecret where
  | agreed (secrets : Sym2 EphemeralSecret)
  | lowOrder
  deriving DecidableEq

/-- `EphemeralSecret::diffie_hellman`. -/
def diffieHellman (my : EphemeralSecret) : EphPub → SharedSecret
  | .ofSecret their => .agreed s(my, their)
  | .bytes _ => .lowOrder

/-- Both ends of an exchange get the same secret. -/
theorem diffieHellman_comm (a b : EphemeralSecret) :
    diffieHellman a (.ofSecret b) = diffieHellman b (.ofSecret a) :=
  congrArg SharedSecret.agreed Sym2.eq_swap

/-- An envelope on the wire. -/
structure Signed (P : Type u) where
  env : Envelope P
  form : Nat
  deriving DecidableEq

/-- The same bytes, their payload parsed. -/
def Signed.parsed {P Q : Type} (w : Signed P) (payload : Q) : Signed Q :=
  ⟨{ w.env with payload }, w.form⟩

-- =========================================================== payloads

/-- `HelloPayload`. -/
structure HelloPayload where
  vMax : UInt64
  vMin : UInt64
  extensions : List String
  ephPub : EphPub
  «intent» : UInt8
  capabilities : BTreeMap String UInt64
  deriving DecidableEq

/-- `HelloBackPayload`. -/
structure HelloBackPayload where
  v : UInt64
  accept : Bool
  reason : Option String
  ephPub : EphPub
  extensions : List String
  capabilities : BTreeMap String UInt64
  deriving DecidableEq

/-- `hello ‖ helloback`. -/
structure Transcript where
  hello : Signed HelloPayload
  helloBack : Signed HelloBackPayload
  deriving DecidableEq

/-- The output of HKDF on a shared secret, salted with a transcript. -/
structure SessionKey where
  shared : SharedSecret
  salt : Transcript
  deriving DecidableEq

/-- 32 bytes in the place of a transcript MAC: one computed with a key, or
any others. -/
inductive Proof where
  | mac (key : SessionKey) (transcript : Transcript)
  | bytes (b : Bytes 32)
  deriving DecidableEq

/-- `ConfirmPayload`. -/
structure ConfirmPayload where
  proof : Proof
  deriving DecidableEq

/-- The bytes of a payload, by what they parse as: the three formats differ
in their first key, so no bytes parse as two of them. Bytes that parse as
none carry the errors they are refused with. -/
inductive HandshakePayload where
  | hello (p : HelloPayload)
  | helloBack (p : HelloBackPayload)
  | confirm (p : ConfirmPayload)
  | other (asHello asHelloBack asConfirm : Error)
  deriving DecidableEq

/-- `HelloPayload::decode`. -/
def HelloPayload.decode : HandshakePayload → Except Error HelloPayload
  | .hello p => .ok p
  | .helloBack _ =>
      .error (.cborNotCanonical "HelloPayload keys not in canonical order")
  | .confirm _ => .error (.cborDecode "HelloPayload expected 6 keys, got 1")
  | .other asHello _ _ => .error asHello

/-- `HelloBackPayload::decode`. -/
def HelloBackPayload.decode :
    HandshakePayload → Except Error HelloBackPayload
  | .hello _ =>
      .error (.cborNotCanonical
        "HelloBackPayload keys not in canonical order")
  | .helloBack p => .ok p
  | .confirm _ =>
      .error (.cborDecode "HelloBackPayload expected 6 keys, got 1")
  | .other _ asHelloBack _ => .error asHelloBack

/-- `ConfirmPayload::decode`. -/
def ConfirmPayload.decode : HandshakePayload → Except Error ConfirmPayload
  | .hello _ => .error (.cborDecode "ConfirmPayload expected 1 key, got 6")
  | .helloBack _ =>
      .error (.cborDecode "ConfirmPayload expected 1 key, got 6")
  | .confirm p => .ok p
  | .other _ _ asConfirm => .error asConfirm

theorem HelloPayload.decode_ok {bytes : HandshakePayload}
    {p : HelloPayload} (h : decode bytes = .ok p) : bytes = .hello p := by
  cases bytes with
  | hello q =>
      injection h with h
      rw [h]
  | _ => cases h

theorem HelloBackPayload.decode_ok {bytes : HandshakePayload}
    {p : HelloBackPayload} (h : decode bytes = .ok p) :
    bytes = .helloBack p := by
  cases bytes with
  | helloBack q =>
      injection h with h
      rw [h]
  | _ => cases h

theorem ConfirmPayload.decode_ok {bytes : HandshakePayload}
    {p : ConfirmPayload} (h : decode bytes = .ok p) :
    bytes = .confirm p := by
  cases bytes with
  | confirm q =>
      injection h with h
      rw [h]
  | _ => cases h

-- ====================================================== session keys

/-- `derive_session_key`. -/
def deriveSessionKey (myEph : EphemeralSecret) (theirEph : EphPub)
    (transcript : Transcript) : SessionKey :=
  ⟨diffieHellman myEph theirEph, transcript⟩

/-- `transcript_mac`. -/
def transcriptMac (sessionKey : SessionKey) (transcript : Transcript) :
    Proof := .mac sessionKey transcript

end Sidevers.Core
