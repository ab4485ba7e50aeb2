/-
References (`reference.rs`, protocol spec §5.3) and the wire forms of the
storage protocol (`storage_protocol.rs`, §5.4–§5.6).
-/
import Sidevers.Core.VerseWire

namespace Sidevers.Net

open Sidevers.Core
open Cbor

/-- `ADDRESS_LEN` of a content address. -/
abbrev addressLen : Nat := 32

-- ============================================================= references

/-- `DEFAULT_DEP_DEPTH_LIMIT`. -/
def defaultDepDepthLimit : Nat := 64

/-- `Reference`. -/
inductive Reference where
  | mk (hash : Bytes addressLen) (size : UInt64) (mime : String)
      (hints : List (Bytes 32)) (deps : List Reference)

namespace Reference

/-- `encode`. -/
def encode : Reference → List UInt8
  | .mk hash size mime hints deps =>
      encodeMap
        [⟨key "deps", encodeArray (fun d => d) (encodeAll deps)⟩,
         ⟨key "hash", bytes hash.val⟩,
         ⟨key "size", uint size⟩,
         ⟨key "type", text mime⟩,
         ⟨key "hints", encodeArray (fun h => bytes h.val) hints⟩]
where
  /-- The encodings of the dependencies. -/
  encodeAll : List Reference → List (List UInt8)
    | [] => []
    | d :: rest => encode d :: encodeAll rest

/-- The key every field is introduced by. -/
def expectField (want : String) : Read Unit :=
  expectKey want "Reference keys not in canonical order"

/-- `decode_inner`, on what is left of the depth limit. -/
def decodeInner : Nat → Read Reference
  | 0 => throw (.invariant "reference depth limit exceeded")
  | depth + 1 => do
      expectEntries 5 fun n => s!"Reference expected 5 keys, got {n}"
      expectField "deps"
      let deps ← readArray (decodeInner depth)
      expectField "hash"
      let hash ← readExact "hash" addressLen
      expectField "size"
      let size ← readU64
      expectField "type"
      let mime ← readText
      expectField "hints"
      let hints ← readArray (readExact "hint" 32)
      return .mk hash size mime hints deps

/-- `decode`: depths up to and including the limit. -/
def decode (wire : List UInt8) : Except Core.Error Reference :=
  (decodeInner (defaultDepDepthLimit + 1)).value wire

end Reference

-- =============================================================== payloads

/-- `ByteRange`. -/
structure ByteRange where
  start : UInt64
  stop : UInt64
  deriving DecidableEq

/-- `encode_range`. -/
def encodeRange (r : ByteRange) : List UInt8 :=
  encodeMap [⟨key "end", uint r.stop⟩, ⟨key "start", uint r.start⟩]

/-- The range of `decode_optional_range` when it is not null. -/
def readRange : Read ByteRange := do
  expectEntries 2 fun n => s!"range expected 2 keys, got {n}"
  expectKey "end" "range expects 'end' first"
  let stop ← readU64
  expectKey "start" "range expects 'start' second"
  let start ← readU64
  return { start, stop }

/-- `StorageGetPayload`. -/
structure StorageGetPayload where
  hash : Bytes addressLen
  range : Option ByteRange
  deriving DecidableEq

namespace StorageGetPayload

/-- `encode`. -/
def encode (p : StorageGetPayload) : List UInt8 :=
  encodeMap
    [⟨key "hash", bytes p.hash.val⟩,
     ⟨key "range", ProfilePayload.orNull encodeRange p.range⟩]

def readFields : Read StorageGetPayload := do
  expectEntries 2 fun n => s!"StorageGet expected 2 keys, got {n}"
  expectKey "hash" "expected 'hash' first"
  let hash ← readExact "hash" addressLen
  expectKey "range" "expected 'range' second"
  let range ← readOrNull "missing range" readRange
  return { hash, range }

/-- `decode`. -/
def decode (wire : List UInt8) : Except Core.Error StorageGetPayload :=
  readFields.value wire

end StorageGetPayload

/-- `StorageHavePayload`. -/
structure StorageHavePayload where
  hash : Bytes addressLen
  bytes : List UInt8
  last : Bool
  deriving DecidableEq

namespace StorageHavePayload

/-- `encode`. -/
def encode (p : StorageHavePayload) : List UInt8 :=
  encodeMap
    [⟨key "hash", Cbor.bytes p.hash.val⟩,
     ⟨key "bytes", Cbor.bytes p.bytes⟩,
     ⟨key "final", boolean p.last⟩]

def readFields : Read StorageHavePayload := do
  expectEntries 3 fun n => s!"StorageHave expected 3 keys, got {n}"
  expectKey "hash" "expected 'hash' first"
  let hash ← readExact "hash" addressLen
  expectKey "bytes" "expected 'bytes' second"
  let bytes ← readBytes
  expectKey "final" "expected 'final' third"
  let last ← readBool
  return { hash, bytes, last }

/-- `decode`. -/
def decode (wire : List UInt8) : Except Core.Error StorageHavePayload :=
  readFields.value wire

end StorageHavePayload

/-- `StorageMissPayload`. -/
structure StorageMissPayload where
  hash : Bytes addressLen
  hints : List (Bytes 32)
  deriving DecidableEq

namespace StorageMissPayload

/-- `encode`. -/
def encode (p : StorageMissPayload) : List UInt8 :=
  encodeMap
    [⟨key "hash", bytes p.hash.val⟩,
     ⟨key "hints", encodeArray (fun h => bytes h.val) p.hints⟩]

def readFields : Read StorageMissPayload := do
  expectEntries 2 fun n => s!"StorageMiss expected 2 keys, got {n}"
  expectKey "hash" "expected 'hash' first"
  let hash ← readExact "hash" addressLen
  expectKey "hints" "expected 'hints' second"
  let hints ← readArray (readExact "hint" 32)
  return { hash, hints }

/-- `decode`. -/
def decode (wire : List UInt8) : Except Core.Error StorageMissPayload :=
  readFields.value wire

end StorageMissPayload

/-- `StorageOfferPayload`. -/
structure StorageOfferPayload where
  reference : Reference

namespace StorageOfferPayload

/-- `encode`. -/
def encode (p : StorageOfferPayload) : List UInt8 :=
  encodeMap [⟨key "reference", p.reference.encode⟩]

/-- What follows the one key. -/
def readKey : Read (List UInt8) := do
  expectEntries 1 fun n => s!"StorageOffer expected 1 key, got {n}"
  expectKey "reference" "expected 'reference'"
  remaining

/-- `decode`. -/
def decode (wire : List UInt8) : Except Core.Error StorageOfferPayload := do
  let rest ← readKey.value wire
  let reference ← Reference.decode rest
  return { reference }

end StorageOfferPayload

/-- `StorageWantPayload`. -/
structure StorageWantPayload where
  hash : Bytes addressLen
  want : Bool
  deriving DecidableEq

namespace StorageWantPayload

/-- `encode`. -/
def encode (p : StorageWantPayload) : List UInt8 :=
  encodeMap
    [⟨key "hash", bytes p.hash.val⟩,
     ⟨key "want", boolean p.want⟩]

def readFields : Read StorageWantPayload := do
  expectEntries 2 fun n => s!"StorageWant expected 2 keys, got {n}"
  expectKey "hash" "expected 'hash' first"
  let hash ← readExact "hash" addressLen
  expectKey "want" "expected 'want' second"
  let want ← readBool
  return { hash, want }

/-- `decode`. -/
def decode (wire : List UInt8) : Except Core.Error StorageWantPayload :=
  readFields.value wire

end StorageWantPayload

/-- `StorageRetractPayload`. -/
structure StorageRetractPayload where
  hash : Bytes addressLen
  deriving DecidableEq

namespace StorageRetractPayload

/-- `encode`. -/
def encode (p : StorageRetractPayload) : List UInt8 :=
  encodeMap [⟨key "hash", bytes p.hash.val⟩]

def readFields : Read StorageRetractPayload := do
  expectEntries 1 fun n => s!"StorageRetract expected 1 key, got {n}"
  expectKey "hash" "expected 'hash'"
  let hash ← readExact "hash" addressLen
  return { hash }

/-- `decode`. -/
def decode (wire : List UInt8) : Except Core.Error StorageRetractPayload :=
  readFields.value wire

end StorageRetractPayload

end Sidevers.Net
