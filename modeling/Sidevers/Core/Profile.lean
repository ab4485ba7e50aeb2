/-
Profile payloads (`messages/profile.rs`, protocol spec §7.3): the signed
object a side reveals about itself, its wire form and its parser.

The hash and the signature check come from other crates and are a parameter
(`Crypto`); nothing here depends on what they compute. The one fact the rest
of the development uses is `fromWireBytes_toWireBytes`: whatever parsed was
the canonical form of the result, because the parser re-encodes and compares.
-/
import Sidevers.Core.Cbor
import Sidevers.Lib.BTreeMap
import Mathlib.Data.String.Basic

namespace Sidevers.Core

open Sidevers.Lib
open Cbor

/-- `SIGNATURE_LEN`. -/
def signatureLen : Nat := 64

/-- BLAKE3, and the Ed25519 check of a digest under a public key; the check
fails on bytes that are no key as well as on a bad signature. -/
structure Crypto where
  blake3 : List UInt8 → Bytes 32
  verify : Address → Bytes 32 → Bytes signatureLen → Except Error Unit

/-- A signing key (`SideKey`, `VerseKey`): what it signs verifies under its
public key. -/
structure Signer (crypto : Crypto) where
  publicBytes : Address
  sign : Bytes 32 → Bytes signatureLen
  verifies : ∀ digest, crypto.verify publicBytes digest (sign digest) = .ok ()

/-- The check that passes nothing. -/
def Crypto.refusing : Crypto :=
  ⟨fun _ => Bytes.fill 32 0, fun _ _ _ => .error .signatureInvalid⟩

/-- `ProfilePayload`. -/
structure ProfilePayload where
  side : Address
  name : Option String
  avatar : Option (Bytes 32)
  bio : Option String
  links : Option (List String)
  fields : Option (BTreeMap String (List UInt8))
  capabilities : BTreeSet String
  updatedAt : UInt64
  signature : Bytes signatureLen
  deriving DecidableEq

namespace ProfilePayload

-- ============================================================ encoding

/-- `encode_text_array_iter`. -/
def encodeTextArray (items : List String) : List UInt8 :=
  arrayHeader items.length ++ items.flatMap text

/-- `encode_fields_submap`: sorted by encoded key. -/
def encodeFieldsSubmap (fields : BTreeMap String (List UInt8)) :
    List UInt8 :=
  encodeMap ((fields.entries.map fun e => MapEntry.mk (key e.1) e.2).mergeSort
    fun a b => !decide (b.key < a.key))

/-- A value that may be null. -/
def orNull {α : Type} (encode : α → List UInt8) : Option α → List UInt8
  | some a => encode a
  | none => null

/-- `encode_unsigned`: the eight entries that are signed. -/
def encodeUnsigned (p : ProfilePayload) : List UInt8 :=
  encodeMap
    [⟨key "bio", orNull text p.bio⟩,
     ⟨key "name", orNull text p.name⟩,
     ⟨key "side", bytes p.side.val⟩,
     ⟨key "links", orNull encodeTextArray p.links⟩,
     ⟨key "avatar", orNull (fun h => bytes h.val) p.avatar⟩,
     ⟨key "fields", orNull encodeFieldsSubmap p.fields⟩,
     ⟨key "updated_at", uint p.updatedAt⟩,
     ⟨key "capabilities", encodeTextArray p.capabilities.keys⟩]

/-- `sign`: no field values are refused. -/
def sign {crypto : Crypto} (side : Signer crypto) (name : Option String)
    (avatar : Option (Bytes 32)) (bio : Option String)
    (links : Option (List String))
    (fields : Option (BTreeMap String (List UInt8)))
    (capabilities : BTreeSet String) (updatedAt : UInt64) : ProfilePayload :=
  let unsigned : ProfilePayload :=
    { side := side.publicBytes, name, avatar, bio, links, fields,
      capabilities, updatedAt, signature := Bytes.fill _ 0 }
  { unsigned with
    signature := side.sign (crypto.blake3 unsigned.encodeUnsigned) }

/-- `to_wire_bytes`. -/
def toWireBytes (p : ProfilePayload) : List UInt8 :=
  encodeMap
    [⟨key "bio", orNull text p.bio⟩,
     ⟨key "name", orNull text p.name⟩,
     ⟨key "side", bytes p.side.val⟩,
     ⟨key "links", orNull encodeTextArray p.links⟩,
     ⟨key "avatar", orNull (fun h => bytes h.val) p.avatar⟩,
     ⟨key "fields", orNull encodeFieldsSubmap p.fields⟩,
     ⟨key "signature", bytes p.signature.val⟩,
     ⟨key "updated_at", uint p.updatedAt⟩,
     ⟨key "capabilities", encodeTextArray p.capabilities.keys⟩]

-- ============================================================= parsing

/-- The next byte, not consumed. -/
def peekOr (missing : String) : Read UInt8 := do
  match (← remaining).head? with
  | none => throw (.cborDecode missing)
  | some b => return b

/-- `read_optional_text`. -/
def readOptionalText : Read (Option String) := do
  if (← peekOr "missing text-or-null") = simpleNull then
    let _ ← readBytesOrNull
    return none
  else
    return some (← readText)

/-- `read_optional_32`. -/
def readOptional32 (field : String) : Read (Option (Bytes 32)) := do
  match ← readBytesOrNull with
  | none => return none
  | some b =>
      if h : b.length = 32 then return some ⟨b, h⟩
      else throw (.badFieldLength field 32 b.length)

/-- `read_optional_text_array`. -/
def readOptionalTextArray : Read (Option (List String)) := do
  if (← peekOr "missing array-or-null") = simpleNull then
    let _ ← readBytesOrNull
    return none
  else
    let n ← readArrayHeader
    return some (← readTimes n readText)

/-- The loop of `read_text_set`: strictly increasing texts. -/
def readTextSetLoop : Nat → Option String → Read (List String)
  | 0, _ => return []
  | n + 1, prev => do
      let s ← readText
      if prev.any fun p => decide (s ≤ p) then
        throw (.cborNotCanonical
          "capabilities array not sorted / has duplicates")
      return s :: (← readTextSetLoop n (some s))

/-- `read_text_set`. -/
def readTextSet : Read (BTreeSet String) := do
  let n ← readArrayHeader
  return BTreeSet.ofList (← readTextSetLoop n none)

/-- `skip_value_inner`, on the depth budget. -/
def skipValueInner : Nat → Read Unit
  | 0 => throw (.cborDecode
      "skip_value depth budget exhausted (deeply nested CBOR)")
  | depth + 1 => do
      let major := (← peekOr "EOF in skip") >>> 5
      if major = 0 ∨ major = 1 then
        let _ ← readU64
      else if major = 2 then
        let _ ← readBytes
      else if major = 3 then
        let _ ← readText
      else if major = 4 then
        let n ← readArrayHeader
        let _ ← readTimes n (skipValueInner depth)
      else if major = 5 then
        let n ← readMapHeader
        let _ ← readTimes n do
          skipValueInner depth
          skipValueInner depth
      else if major = 7 then
        let _ ← readBytesOrNull
      else
        let got := major.toNat
        throw (.cborDecode s!"unexpected major {got}")

/-- `skip_value`. -/
def skipValue : Read Unit := skipValueInner maxCborSkipDepth

/-- The loop of `read_optional_fields_map`: encoded keys strictly
increasing, values kept as their bytes. -/
def readFieldsLoop : Nat → Option (List UInt8) →
    Read (List (String × List UInt8))
  | 0, _ => return []
  | n + 1, prev => do
      let keyStart ← position
      let k ← readText
      let keyBytes ← slice keyStart (← position)
      if prev.any fun p => decide (¬ p < keyBytes) then
        throw (.cborNotCanonical "fields map not in canonical key order")
      let valueStart ← position
      skipValue
      let value ← slice valueStart (← position)
      return (k, value) :: (← readFieldsLoop n (some keyBytes))

/-- `read_optional_fields_map`. -/
def readOptionalFieldsMap : Read (Option (BTreeMap String (List UInt8))) := do
  if (← peekOr "missing map-or-null") = simpleNull then
    let _ ← readBytesOrNull
    return none
  else
    let n ← readMapHeader
    let entries ← readFieldsLoop n none
    return some (entries.foldl (fun m e => m.insert e.1 e.2)
      BTreeMap.empty)

/-- The key every field is introduced by. -/
def expectKey (want : String) : Read Unit := do
  if (← readText) ≠ want then
    throw (.cborNotCanonical "Profile keys not in canonical order")

/-- The nine fields, in canonical order. -/
def readFields : Read ProfilePayload := do
  let n ← readMapHeader
  if n ≠ 9 then
    throw (.cborDecode s!"Profile expected 9 keys, got {n}")
  expectKey "bio"
  let bio ← readOptionalText
  expectKey "name"
  let name ← readOptionalText
  expectKey "side"
  let side ← readExact "side" publicKeyLen
  expectKey "links"
  let links ← readOptionalTextArray
  expectKey "avatar"
  let avatar ← readOptional32 "avatar"
  expectKey "fields"
  let fields ← readOptionalFieldsMap
  expectKey "signature"
  let signature ← readExact "signature" signatureLen
  expectKey "updated_at"
  let updatedAt ← readU64
  expectKey "capabilities"
  let capabilities ← readTextSet
  if !(← atEnd) then
    throw (.cborDecode "trailing bytes after Profile")
  return { side, name, avatar, bio, links, fields, capabilities, updatedAt,
           signature }

/-- `from_wire_bytes`: parse, verify the signature over the unsigned form,
and refuse anything that is not the canonical form of what was parsed. -/
def fromWireBytes (crypto : Crypto) (wire : List UInt8) :
    Except Error ProfilePayload := do
  let (payload, _) ← readFields.on wire
  crypto.verify payload.side (crypto.blake3 payload.encodeUnsigned)
    payload.signature
  if payload.toWireBytes ≠ wire then
    throw (.cborNotCanonical "Profile bytes are not canonical re-encode")
  return payload

/-- What parsed is the wire form of the result. -/
theorem toWireBytes_of_fromWireBytes {crypto : Crypto} {wire : List UInt8}
    {p : ProfilePayload} (h : fromWireBytes crypto wire = .ok p) :
    p.toWireBytes = wire := by
  unfold fromWireBytes at h
  cases hread : readFields.on wire with
  | error e =>
      rw [hread] at h
      cases h
  | ok parsed =>
      rw [hread] at h
      simp only [bind, Except.bind, pure, Except.pure] at h
      split at h
      case h_1 => cases h
      case h_2 =>
        split at h
        · cases h
        · next hcanon =>
          injection h with h
          rw [← h]
          exact not_not.mp hcanon

/-- So a parsed profile parses again from its own wire form. -/
theorem fromWireBytes_toWireBytes {crypto : Crypto} {wire : List UInt8}
    {p : ProfilePayload} (h : fromWireBytes crypto wire = .ok p) :
    fromWireBytes crypto p.toWireBytes = .ok p := by
  rw [toWireBytes_of_fromWireBytes h]
  exact h

end ProfilePayload

end Sidevers.Core
