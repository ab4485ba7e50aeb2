/-
The seed sealed under a passphrase (`keystore.rs`): Argon2id, ChaCha20-Poly1305
and the CBOR map around them.

Both are third-party and stand here as they are called (`KeystoreCrypto`). The
salt and the nonce of a seal are drawn before it; the source of randomness does
not fail.
-/
import Sidevers.Core.VerseWire

namespace Sidevers.Core

open Cbor

/-- `SECRET_KEY_LEN`. -/
def secretKeyLen : Nat := 32

/-- `SEALED_SEED_VERSION`. -/
def sealedSeedVersion : UInt64 := 1

/-- `KDF_ARGON2ID`. -/
def kdfArgon2id : String := "argon2id"

/-- `AEAD_CC20P`. -/
def aeadCc20p : String := "chacha20-poly1305"

/-- `SALT_LEN`. -/
def saltLen : Nat := 16

/-- `AEAD_NONCE_LEN`. -/
def aeadNonceLen : Nat := 12

/-- `AEAD_TAG_LEN`. -/
def aeadTagLen : Nat := 16

/-- `Argon2Params`. -/
structure Argon2Params where
  mKib : UInt32
  t : UInt32
  p : UInt32
  deriving DecidableEq

/-- `Argon2Params::default`. -/
def Argon2Params.default : Argon2Params := ⟨19456, 2, 1⟩

/-- What the keystore calls: `Params::new`, `hash_password_into` on the bytes
of a passphrase, the cipher under a key, and the tables by which `{:?}` escapes
a character beyond ASCII (not printable, or extending the one before). -/
structure KeystoreCrypto where
  acceptsParams : Argon2Params → Bool
  hashPasswordInto : String → List UInt8 → Argon2Params → Option (Bytes 32)
  encrypt : Bytes 32 → Bytes aeadNonceLen → List UInt8 → List UInt8 →
    Option (List UInt8)
  decrypt : Bytes 32 → Bytes aeadNonceLen → List UInt8 → List UInt8 →
    Option (List UInt8)
  escapesDebug : Char → Bool

/-- `derive_kek`. -/
def deriveKek (crypto : KeystoreCrypto) (passphrase : String)
    (salt : List UInt8) (params : Argon2Params) : Except Error (Bytes 32) := do
  if crypto.acceptsParams params = false then
    throw (.invariant "invalid Argon2 parameters")
  match crypto.hashPasswordInto passphrase salt params with
  | none => throw (.invariant "Argon2 derivation failed")
  | some kek => return kek

/-- `build_aad`. -/
def buildAad (version : UInt64) (kdf aead : String) (params : Argon2Params)
    (salt : List UInt8) : List UInt8 :=
  let w := CborWriter.new.writeArrayHeader 7
  let w := w.writeU64 version
  let w := w.writeText kdf
  let w := w.writeU64 params.mKib.toUInt64
  let w := w.writeU64 params.t.toUInt64
  let w := w.writeU64 params.p.toUInt64
  let w := w.writeText aead
  let w := w.writeBytes salt
  w.intoBytes

-- ============================================================== the format

/-- `ParsedSealed`. -/
structure ParsedSealed where
  version : UInt64
  kdf : String
  params : Argon2Params
  salt : List UInt8
  aead : String
  nonce : List UInt8
  ct : List UInt8
  deriving DecidableEq

namespace ParsedSealed

/-- `encode_sealed`. -/
def encodeSealed (s : ParsedSealed) : List UInt8 :=
  encodeMap
    [⟨key "ct", bytes s.ct⟩,
     ⟨key "kdf", text s.kdf⟩,
     ⟨key "aead", text s.aead⟩,
     ⟨key "salt", bytes s.salt⟩,
     ⟨key "nonce", bytes s.nonce⟩,
     ⟨key "version", uint s.version⟩,
     ⟨key "argon2_m", uint s.params.mKib.toUInt64⟩,
     ⟨key "argon2_p", uint s.params.p.toUInt64⟩,
     ⟨key "argon2_t", uint s.params.t.toUInt64⟩]

/-- An integer that `u32_from_u64` takes. -/
def readU32 (name : String) : Read UInt32 := do
  let v ← readU64
  if v > 0xFFFFFFFF then
    throw (.badFieldLength name 4 8)
  return v.toUInt32

/-- The key every field is introduced by. -/
def expectField (want : String) : Read Unit :=
  expectKey want "sealed-seed keys not in canonical order"

/-- The nine fields. -/
def readFields : Read ParsedSealed := do
  expectEntries 9 fun n => s!"sealed-seed expected 9 keys, got {n}"
  expectField "ct"
  let ct ← readBytes
  expectField "kdf"
  let kdf ← readText
  expectField "aead"
  let aead ← readText
  expectField "salt"
  let salt ← readBytes
  expectField "nonce"
  let nonce ← readBytes
  expectField "version"
  let version ← readU64
  expectField "argon2_m"
  let mKib ← readU32 "argon2_m"
  expectField "argon2_p"
  let p ← readU32 "argon2_p"
  expectField "argon2_t"
  let t ← readU32 "argon2_t"
  return { version, kdf, params := { mKib, t, p }, salt, aead, nonce, ct }

/-- `decode_sealed`. -/
def decodeSealed (wire : List UInt8) : Except Error ParsedSealed :=
  readFields.whole "sealed-seed" wire

end ParsedSealed

-- ======================================================== seal and open

/-- `seal_seed_with`, with the salt and the nonce it draws. -/
def sealSeedWith (crypto : KeystoreCrypto) (seed : Bytes secretKeyLen)
    (passphrase : String) (params : Argon2Params) (salt : Bytes saltLen)
    (nonce : Bytes aeadNonceLen) : Except Error (List UInt8) := do
  let kek ← deriveKek crypto passphrase salt.val params
  let aad := buildAad sealedSeedVersion kdfArgon2id aeadCc20p params salt.val
  match crypto.encrypt kek nonce seed.val aad with
  | none => throw (.invariant
      "AEAD seal failed (impossible at fixed input length)")
  | some ct =>
      return ParsedSealed.encodeSealed
        { version := sealedSeedVersion, kdf := kdfArgon2id, params
          salt := salt.val, aead := aeadCc20p, nonce := nonce.val, ct }

/-- `seal_seed`. -/
def sealSeed (crypto : KeystoreCrypto) (seed : Bytes secretKeyLen)
    (passphrase : String) (salt : Bytes saltLen) (nonce : Bytes aeadNonceLen) :
    Except Error (List UInt8) :=
  sealSeedWith crypto seed passphrase .default salt nonce

/-- A text as `{:?}` shows it. -/
def debugText (crypto : KeystoreCrypto) (t : String) : String :=
  let escape (c : Char) : List Char :=
    if c = '"' ∨ c = '\\' then ['\\', c]
    else if c = '\n' then ['\\', 'n']
    else if c = '\r' then ['\\', 'r']
    else if c = '\t' then ['\\', 't']
    else if c.toNat = 0 then ['\\', '0']
    else if c.toNat < 0x20 ∨ c.toNat = 0x7F
        ∨ 0x7F < c.toNat ∧ crypto.escapesDebug c then
      ['\\', 'u', '\x7b'] ++ Nat.toDigits 16 c.toNat ++ ['\x7d']
    else [c]
  String.ofList (['"'] ++ t.toList.flatMap escape ++ ['"'])

/-- A field of an exact length. -/
def exactly (field : String) (n : Nat) (b : List UInt8) :
    Except Error (Bytes n) :=
  if h : b.length = n then .ok ⟨b, h⟩
  else .error (.badFieldLength field n b.length)

/-- `open_seed`. -/
def openSeed (crypto : KeystoreCrypto) (sealed : List UInt8)
    (passphrase : String) : Except Error (Bytes secretKeyLen) := do
  let parsed ← ParsedSealed.decodeSealed sealed
  if parsed.version ≠ sealedSeedVersion then
    let got := parsed.version.toNat
    let known := sealedSeedVersion.toNat
    throw (.cborDecode (s!"sealed-seed format version {got} not supported "
      ++ s!"(this build knows v{known})"))
  if parsed.kdf ≠ kdfArgon2id then
    let got := debugText crypto parsed.kdf
    throw (.cborDecode s!"sealed-seed kdf {got} not supported")
  if parsed.aead ≠ aeadCc20p then
    let got := debugText crypto parsed.aead
    throw (.cborDecode s!"sealed-seed aead {got} not supported")
  let _ ← exactly "salt" saltLen parsed.salt
  let nonce ← exactly "nonce" aeadNonceLen parsed.nonce
  let kek ← deriveKek crypto passphrase parsed.salt parsed.params
  let aad := buildAad parsed.version parsed.kdf parsed.aead parsed.params
    parsed.salt
  match crypto.decrypt kek nonce parsed.ct aad with
  | none => throw .decryptionFailed
  | some pt => exactly "seed" secretKeyLen pt

end Sidevers.Core
