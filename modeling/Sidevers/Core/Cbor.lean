/-
Deterministic CBOR (`cbor.rs`, RFC 8949 §4.2.1): the writer that emits the
shortest head, and the reader that accepts no other.

The reader is a state monad over the buffer and the position, failing with
the errors of `error.rs`; text is a `String`, its bytes the UTF-8 encoding.
-/
import Mathlib.Algebra.Group.Nat.Defs
import Sidevers.Core.Bytes
import Sidevers.Lib.Utf8

namespace Sidevers.Core

open Sidevers.Lib

/-- The errors of `error.rs` that the codecs and the sealing raise. -/
inductive Error where
  | cborDecode (msg : String)
  | cborNotCanonical (msg : String)
  | signatureInvalid
  | decryptionFailed
  | badFieldLength (field : String) (expected got : Nat)
  | unsupportedVersion (got : UInt64)
  | invariant (msg : String)
  deriving DecidableEq, Repr

namespace Cbor

/-- `MAX_CBOR_ENTRIES`. -/
def maxCborEntries : Nat := 1048576

/-- `MAX_CBOR_SKIP_DEPTH`. -/
def maxCborSkipDepth : Nat := 32

def mtUint : UInt8 := 0x00
def mtBytes : UInt8 := 0x40
def mtText : UInt8 := 0x60
def mtArray : UInt8 := 0x80
def mtMap : UInt8 := 0xA0
def simpleNull : UInt8 := 0xF6

-- ========================================================== the writer

/-- `to_be_bytes`, the `n` low-order bytes. -/
def toBeBytes (n : Nat) (value : UInt64) : List UInt8 :=
  (List.range n).reverse.map fun i => (value >>> UInt64.ofNat (8 * i)).toUInt8

/-- `from_be_bytes`. -/
def fromBeBytes (bytes : List UInt8) : UInt64 :=
  bytes.foldl (fun acc b => acc * 256 + b.toUInt64) 0

/-- `write_head`. -/
def writeHead (major : UInt8) (value : UInt64) : List UInt8 :=
  if value ≤ 23 then [major ||| value.toUInt8]
  else if value ≤ 0xFF then (major ||| 24) :: toBeBytes 1 value
  else if value ≤ 0xFFFF then (major ||| 25) :: toBeBytes 2 value
  else if value ≤ 0xFFFFFFFF then (major ||| 26) :: toBeBytes 4 value
  else (major ||| 27) :: toBeBytes 8 value

/-- `cbor::uint`. -/
def uint (n : UInt64) : List UInt8 := writeHead mtUint n

/-- `cbor::bytes`. -/
def bytes (b : List UInt8) : List UInt8 :=
  writeHead mtBytes (UInt64.ofNat b.length) ++ b

/-- `cbor::text`. -/
def text (t : String) : List UInt8 :=
  let utf8 := t.toUTF8.data.toList
  writeHead mtText (UInt64.ofNat utf8.length) ++ utf8

/-- `cbor::key`. -/
def key (t : String) : List UInt8 := text t

/-- `cbor::null`. -/
def null : List UInt8 := [simpleNull]

/-- `cbor::boolean`. -/
def boolean (b : Bool) : List UInt8 := [if b then 0xF5 else 0xF4]

/-- `write_array_header`. -/
def arrayHeader (len : Nat) : List UInt8 :=
  writeHead mtArray (UInt64.ofNat len)

/-- `write_map_header`. -/
def mapHeader (len : Nat) : List UInt8 := writeHead mtMap (UInt64.ofNat len)

/-- `CborWriter`. -/
structure CborWriter where
  buf : List UInt8

namespace CborWriter

/-- `new`. -/
def new : CborWriter := ⟨[]⟩

/-- `into_bytes`. -/
def intoBytes (w : CborWriter) : List UInt8 := w.buf

/-- `extend_from_slice` on the buffer. -/
def extend (w : CborWriter) (slice : List UInt8) : CborWriter :=
  ⟨w.buf ++ slice⟩

/-- `write_u64`. -/
def writeU64 (w : CborWriter) (n : UInt64) : CborWriter :=
  w.extend (writeHead mtUint n)

/-- `write_bool`. -/
def writeBool (w : CborWriter) (b : Bool) : CborWriter :=
  w.extend (boolean b)

/-- `write_null`. -/
def writeNull (w : CborWriter) : CborWriter := w.extend [simpleNull]

/-- `write_bytes`. -/
def writeBytes (w : CborWriter) (b : List UInt8) : CborWriter :=
  (w.extend (writeHead mtBytes (UInt64.ofNat b.length))).extend b

/-- `write_text`. -/
def writeText (w : CborWriter) (t : String) : CborWriter :=
  let utf8 := t.toUTF8.data.toList
  (w.extend (writeHead mtText (UInt64.ofNat utf8.length))).extend utf8

/-- `write_array_header`. -/
def writeArrayHeader (w : CborWriter) (len : Nat) : CborWriter :=
  w.extend (writeHead mtArray (UInt64.ofNat len))

/-- `write_map_header`. -/
def writeMapHeader (w : CborWriter) (len : Nat) : CborWriter :=
  w.extend (writeHead mtMap (UInt64.ofNat len))

end CborWriter

/-- `MapEntry`: key and value, both already encoded. -/
structure MapEntry where
  key : List UInt8
  value : List UInt8

/-- `encode_map`: the entries in the order given. -/
def encodeMap (entries : List MapEntry) : List UInt8 :=
  writeHead mtMap (UInt64.ofNat entries.length)
    ++ entries.flatMap fun e => e.key ++ e.value

-- ========================================================== the reader

/-- `CborReader`. -/
structure CborReader where
  buf : List UInt8
  pos : Nat

/-- A read: it advances the reader or fails. -/
abbrev Read (α : Type) := StateT CborReader (Except Error) α

/-- Run a read on a fresh reader. -/
def Read.on {α : Type} (r : Read α) (buf : List UInt8) :
    Except Error (α × CborReader) := r.run ⟨buf, 0⟩

/-- `position`. -/
def position : Read Nat := return (← get).pos

/-- `remaining`. -/
def remaining : Read (List UInt8) := do
  let r ← get
  return r.buf.drop r.pos

/-- `at_end`. -/
def atEnd : Read Bool := do
  let r ← get
  return decide (r.buf.length ≤ r.pos)

/-- The bytes of the buffer between two positions. -/
def slice (start stop : Nat) : Read (List UInt8) := do
  let r ← get
  return (r.buf.drop start).take (stop - start)

/-- `read_byte`. -/
def readByte : Read UInt8 := do
  let r ← get
  match r.buf[r.pos]? with
  | none => throw (.cborDecode "unexpected EOF")
  | some b =>
      set { r with pos := r.pos + 1 }
      return b

/-- `read_n`; `usize` is 64 bits wide. -/
def readN (n : Nat) : Read (List UInt8) := do
  let r ← get
  if r.pos + n ≥ 2 ^ 64 then
    throw (.cborDecode "length overflow")
  if r.pos + n > r.buf.length then
    throw (.cborDecode "unexpected EOF")
  set { r with pos := r.pos + n }
  return (r.buf.drop r.pos).take n

/-- `read_head`: major type and argument, shortest form only. -/
def readHead : Read (UInt8 × UInt64) := do
  let ib ← readByte
  let major := ib >>> 5
  let info := ib &&& 0x1F
  if info ≤ 23 then
    return (major, info.toUInt64)
  else if info = 24 then
    let b ← readByte
    if b < 24 then
      throw (.cborNotCanonical "u8 length-form used for small value")
    return (major, b.toUInt64)
  else if info = 25 then
    let v := fromBeBytes (← readN 2)
    if v ≤ 0xFF then
      throw (.cborNotCanonical "u16 length-form used for u8-fit value")
    return (major, v)
  else if info = 26 then
    let v := fromBeBytes (← readN 4)
    if v ≤ 0xFFFF then
      throw (.cborNotCanonical "u32 length-form used for u16-fit value")
    return (major, v)
  else if info = 27 then
    let v := fromBeBytes (← readN 8)
    if v ≤ 0xFFFFFFFF then
      throw (.cborNotCanonical "u64 length-form used for u32-fit value")
    return (major, v)
  else if info ≤ 30 then
    throw (.cborDecode "reserved additional info")
  else
    throw (.cborNotCanonical "indefinite-length item")

/-- The argument of a head that must have this major type. -/
def readArg (want : UInt8) (what : String) : Read UInt64 := do
  let (major, arg) ← readHead
  if major ≠ want then
    let got := major.toNat
    throw (.cborDecode s!"expected {what}, got major {got}")
  return arg

/-- `read_u64`. -/
def readU64 : Read UInt64 := readArg 0 "uint"

/-- `read_bytes`. -/
def readBytes : Read (List UInt8) := do
  let arg ← readArg 2 "bytes"
  readN arg.toNat

/-- `read_text`. -/
def readText : Read String := do
  let arg ← readArg 3 "text"
  let utf8 ← readN arg.toNat
  match String.fromUTF8? ⟨utf8.toArray⟩ with
  | some t => return t
  | none =>
      let e := (utf8Error utf8).elim "" Utf8Error.text
      throw (.cborDecode s!"invalid utf-8 text: {e}")

/-- `read_bytes_or_null`. -/
def readBytesOrNull : Read (Option (List UInt8)) := do
  match (← remaining).head? with
  | none => throw (.cborDecode "unexpected EOF")
  | some peek =>
      if peek = simpleNull then
        let _ ← readByte
        return none
      else
        return some (← readBytes)

/-- A byte as two upper-case hexadecimal digits. -/
def hexByte (b : UInt8) : String :=
  String.ofList
    [(Nat.digitChar (b >>> 4).toNat).toUpper,
     (Nat.digitChar (b &&& 0x0F).toNat).toUpper]

/-- `read_bool`. -/
def readBool : Read Bool := do
  let b ← readByte
  if b = 0xF4 then return false
  else if b = 0xF5 then return true
  else
    let got := hexByte b
    throw (.cborDecode s!"expected bool, got 0x{got}")

/-- The count of a map or array header, capped. -/
def readCount (want : UInt8) (what : String) : Read Nat := do
  let arg ← readArg want what
  let count := arg.toNat
  if count > maxCborEntries then
    throw (.cborDecode s!"{what} count {count} exceeds MAX_CBOR_ENTRIES")
  return count

/-- `read_map_header`. -/
def readMapHeader : Read Nat := readCount 5 "map"

/-- `read_array_header`. -/
def readArrayHeader : Read Nat := readCount 4 "array"

/-- `for _ in 0..n`, collecting what each round reads. -/
def readTimes {α : Type} : Nat → Read α → Read (List α)
  | 0, _ => return []
  | n + 1, r => return (← r) :: (← readTimes n r)

/-- A byte string of an exact length. -/
def readExact (field : String) (n : Nat) : Read (Bytes n) := do
  let b ← readBytes
  if h : b.length = n then return ⟨b, h⟩
  else throw (.badFieldLength field n b.length)

end Cbor

end Sidevers.Core
