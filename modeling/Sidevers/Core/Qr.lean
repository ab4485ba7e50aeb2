/-
The codes a device shows (`messages/device.rs`): contact cards, group invites
and pairing requests as URIs, a length-prefixed layout in base32.

Bytes are lists; a slice that is copied into an array was checked to be there
before (`copySlice`). The bit count of the base32 loops never exceeds 12.
-/
import Sidevers.Core.DeviceWire

namespace Sidevers.Core

-- ================================================================= base32

/-- `BASE32_ALPHABET`. -/
def base32Alphabet : List Char := "abcdefghijklmnopqrstuvwxyz234567".toList

/-- What the loops carry: the output, the bits not yet given out, and how many
they are. -/
structure Base32State (α : Type) where
  out : List α
  buffer : UInt32
  bits : Nat

namespace Base32State

/-- Before the first round. -/
def start {α : Type} : Base32State α := ⟨[], 0, 0⟩

/-- One round of `while bits >= 5`. -/
def giveChar (s : Base32State Char) : Base32State Char :=
  let bits := s.bits - 5
  let idx := ((s.buffer >>> UInt32.ofNat bits) &&& 0x1F).toNat
  { s with out := s.out ++ [base32Alphabet.getD idx 'a'], bits }

/-- `while bits >= 5`, in as many rounds as there are bits at most. -/
def giveChars : Nat → Base32State Char → Base32State Char
  | 0, s => s
  | n + 1, s => if s.bits ≥ 5 then giveChars n s.giveChar else s

/-- One round of `for &b in input`. -/
def takeByte (s : Base32State Char) (b : UInt8) : Base32State Char :=
  let bits := s.bits + 8
  giveChars bits { s with buffer := (s.buffer <<< 8) ||| b.toUInt32, bits }

/-- One round of `for c in input.chars()`. -/
def takeChar (s : Base32State UInt8) (c : Char) :
    Option (Base32State UInt8) := do
  let idx ← base32Alphabet.findIdx? (· = c)
  let buffer := (s.buffer <<< 5) ||| UInt32.ofNat idx
  let bits := s.bits + 5
  if bits ≥ 8 then
    let bits := bits - 8
    return {
      out := s.out ++ [(buffer >>> UInt32.ofNat bits).toUInt8]
      buffer := buffer &&& ((1 <<< UInt32.ofNat bits) - 1)
      bits }
  else
    return { s with buffer, bits }

end Base32State

/-- `base32_encode`. -/
def base32Encode (input : List UInt8) : String :=
  let s := input.foldl Base32State.takeByte .start
  if s.bits > 0 then
    let idx := ((s.buffer <<< UInt32.ofNat (5 - s.bits)) &&& 0x1F).toNat
    String.ofList (s.out ++ [base32Alphabet.getD idx 'a'])
  else String.ofList s.out

/-- `base32_decode`. -/
def base32Decode (input : String) : Option (List UInt8) :=
  (input.toList.foldlM Base32State.takeChar .start).map (·.out)

-- ========================================================== length prefixes

/-- `as_bytes`. -/
def utf8 (t : String) : List UInt8 := t.toUTF8.data.toList

/-- `u16::to_be_bytes`. -/
def u16ToBeBytes (n : UInt16) : List UInt8 := [(n >>> 8).toUInt8, n.toUInt8]

/-- `u16::from_be_bytes`. -/
def u16FromBeBytes (hi lo : UInt8) : UInt16 :=
  (hi.toUInt16 <<< 8) ||| lo.toUInt16

/-- A string behind its length, which is cast to a `u16`. -/
def lpString (t : String) : List UInt8 :=
  u16ToBeBytes (UInt16.ofNat (utf8 t).length) ++ utf8 t

/-- `copy_from_slice`, of a slice as long as the array. -/
def copySlice (n : Nat) (slice : List UInt8) : Bytes n :=
  if h : slice.length = n then ⟨slice, h⟩ else Bytes.fill n 0

/-- `read_lp_string`. -/
def readLpString (bytes : List UInt8) (pos maxLen : Nat) (field : String) :
    Except Error (String × Nat) := do
  match bytes.drop pos with
  | hi :: lo :: rest =>
      let len := (u16FromBeBytes hi lo).toNat
      if len > rest.length then
        throw (.cborDecode s!"{field}: truncated body")
      if len > maxLen then
        throw (.cborDecode s!"{field}: oversized")
      match String.fromUTF8? ⟨(rest.take len).toArray⟩ with
      | some t => return (t, pos + 2 + len)
      | none => throw (.cborDecode s!"{field}: not utf-8")
  | _ => throw (.cborDecode s!"{field}: missing length")

/-- `strip_prefix`. -/
def stripPrefix (scheme s : String) : Option String :=
  if scheme.toList <+: s.toList then
    some (String.ofList (s.toList.drop scheme.toList.length))
  else none

/-- What an optional string is shown as. -/
def orEmpty (t : Option String) : String := t.getD ""

/-- An empty string is an absent one. -/
def nonEmpty (t : String) : Option String := if t = "" then none else some t

/-- The bytes behind a scheme, of which the first is the version. -/
def qrBytes (scheme what : String) (version : UInt8) (s : String) :
    Except Error (List UInt8) := do
  match stripPrefix scheme s with
  | none => throw (.cborDecode s!"{what} QR: missing scheme prefix")
  | some rest =>
      match base32Decode rest with
      | none => throw (.cborDecode s!"{what} QR: bad base32")
      | some bytes =>
          if bytes.head? ≠ some version then
            throw (.cborDecode s!"{what} QR: bad version")
          return bytes

-- ========================================================== contact cards

/-- `ContactCard`. -/
structure ContactCard where
  side : Bytes 32
  dialAddr : String
  displayName : Option String
  sideLabel : Option String
  deriving DecidableEq

namespace ContactCard

/-- `CONTACT_QR_VERSION`. -/
def version : UInt8 := 0x01

/-- `CONTACT_QR_SCHEME_PREFIX`. -/
def scheme : String := "sidevers-contact:1:"

/-- `CONTACT_DISPLAY_NAME_MAX`. -/
def displayNameMax : Nat := 512

/-- `CONTACT_SIDE_LABEL_MAX`. -/
def sideLabelMax : Nat := 64

/-- `CONTACT_DIAL_ADDR_MAX`. -/
def dialAddrMax : Nat := 256

/-- The layout before base32. -/
def layout (card : ContactCard) : List UInt8 :=
  version :: (card.side.val ++ (lpString (orEmpty card.displayName)
    ++ (lpString (orEmpty card.sideLabel) ++ lpString card.dialAddr)))

/-- `encode`. -/
def encode (card : ContactCard) : String :=
  scheme ++ base32Encode card.layout

/-- `parse`, of the bytes. -/
def parseLayout (bytes : List UInt8) : Except Error ContactCard := do
  if bytes.length < 1 + 32 + 6 then
    throw (.cborDecode "contact QR: truncated")
  let side := copySlice 32 ((bytes.drop 1).take 32)
  let (displayName, pos) ←
    readLpString bytes 33 displayNameMax "contact QR: display_name"
  let (sideLabel, pos) ←
    readLpString bytes pos sideLabelMax "contact QR: side_label"
  let (dialAddr, pos) ←
    readLpString bytes pos dialAddrMax "contact QR: dial_addr"
  if dialAddr = "" then
    throw (.cborDecode "contact QR: empty dial_addr")
  if pos ≠ bytes.length then
    throw (.cborDecode "contact QR: trailing bytes")
  return { side, dialAddr, displayName := nonEmpty displayName,
           sideLabel := nonEmpty sideLabel }

/-- `parse`. -/
def parse (s : String) : Except Error ContactCard := do
  parseLayout (← qrBytes scheme "contact" version s)

end ContactCard

-- ========================================================== group invites

/-- `GroupInvite`. -/
structure GroupInvite where
  verse : Bytes 32
  contractHash : Bytes 32
  dialAddr : String
  name : Option String
  photoHash : Option (Bytes 32)
  deriving DecidableEq

namespace GroupInvite

/-- `GROUP_QR_VERSION`. -/
def version : UInt8 := 0x01

/-- `GROUP_QR_SCHEME_PREFIX`. -/
def scheme : String := "sidevers-group:1:"

/-- `GROUP_NAME_MAX`. -/
def nameMax : Nat := 256

/-- `GROUP_DIAL_ADDR_MAX`. -/
def dialAddrMax : Nat := 256

/-- The flag and the hash it announces. -/
def photo : Option (Bytes 32) → List UInt8
  | some h => 1 :: h.val
  | none => [0]

/-- The layout before base32. -/
def layout (invite : GroupInvite) : List UInt8 :=
  version :: (invite.verse.val ++ (invite.contractHash.val
    ++ (lpString invite.dialAddr ++ (lpString (orEmpty invite.name)
      ++ photo invite.photoHash))))

/-- `encode`. -/
def encode (invite : GroupInvite) : String :=
  scheme ++ base32Encode invite.layout

/-- The photo's flag and hash, and the position behind them. -/
def readPhoto (bytes : List UInt8) (pos : Nat) :
    Except Error (Option (Bytes 32) × Nat) := do
  match bytes[pos]? with
  | none => throw (.cborDecode "group QR: missing photo flag")
  | some flag =>
      if flag = 0 then
        return (none, pos + 1)
      else if flag = 1 then
        if pos + 1 + 32 > bytes.length then
          throw (.cborDecode "group QR: photo_hash truncated")
        return (some (copySlice 32 ((bytes.drop (pos + 1)).take 32)),
          pos + 1 + 32)
      else
        throw (.cborDecode "group QR: bad photo flag")

/-- `parse`, of the bytes. -/
def parseLayout (bytes : List UInt8) : Except Error GroupInvite := do
  if bytes.length < 1 + 32 + 32 + 2 + 2 + 1 then
    throw (.cborDecode "group QR: truncated")
  let verse := copySlice 32 ((bytes.drop 1).take 32)
  let contractHash := copySlice 32 ((bytes.drop 33).take 32)
  let (dialAddr, pos) ←
    readLpString bytes 65 dialAddrMax "group QR: dial_addr"
  if dialAddr = "" then
    throw (.cborDecode "group QR: empty dial_addr")
  let (name, pos) ← readLpString bytes pos nameMax "group QR: name"
  let (photoHash, pos) ← readPhoto bytes pos
  if pos ≠ bytes.length then
    throw (.cborDecode "group QR: trailing bytes")
  return { verse, contractHash, dialAddr, name := nonEmpty name, photoHash }

/-- `parse`. -/
def parse (s : String) : Except Error GroupInvite := do
  parseLayout (← qrBytes scheme "group" version s)

end GroupInvite

-- ================================================================ pairing

/-- `PairingQr`. -/
structure PairingQr where
  side : Bytes 32
  nonce : Bytes pairingNonceLen
  dialAddr : String
  deriving DecidableEq

namespace PairingQr

/-- `QR_VERSION`. -/
def version : UInt8 := 0x01

/-- `QR_SCHEME_PREFIX`. -/
def scheme : String := "sidevers-pair:1:"

/-- The layout before base32. -/
def layout (qr : PairingQr) : List UInt8 :=
  version :: (qr.side.val ++ (qr.nonce.val ++ lpString qr.dialAddr))

/-- `encode`. -/
def encode (qr : PairingQr) : String := scheme ++ base32Encode qr.layout

/-- `parse`, of the bytes: the address is all that follows. -/
def parseLayout (bytes : List UInt8) : Except Error PairingQr := do
  if bytes.length < 1 + 32 + pairingNonceLen + 2 then
    throw (.cborDecode "pairing QR: truncated")
  let side := copySlice 32 ((bytes.drop 1).take 32)
  let nonce := copySlice pairingNonceLen ((bytes.drop 33).take pairingNonceLen)
  let lenPos := 33 + pairingNonceLen
  let addrLen :=
    (u16FromBeBytes (bytes.getD lenPos 0) (bytes.getD (lenPos + 1) 0)).toNat
  let addrStart := lenPos + 2
  if bytes.length ≠ addrStart + addrLen then
    throw (.cborDecode "pairing QR: addr length mismatch")
  match String.fromUTF8? ⟨(bytes.drop addrStart).toArray⟩ with
  | none => throw (.cborDecode "pairing QR: addr not utf-8")
  | some dialAddr => return { side, nonce, dialAddr }

/-- `parse`. -/
def parse (s : String) : Except Error PairingQr := do
  parseLayout (← qrBytes scheme "pairing" version s)

end PairingQr

end Sidevers.Core
