/-
Direct messages (`messages/direct.rs`, protocol spec §3.9): a body that is
text or the bytes of a reference, which this module passes over without
parsing them.
-/
import Sidevers.Core.VerseWire

namespace Sidevers.Core

open Cbor

/-- `DirectKind`; an unknown kind is kept as it is. -/
inductive DirectKind where
  | text
  | image
  | voice
  | file
  | other (s : String)
  deriving DecidableEq

namespace DirectKind

/-- `as_str`. -/
def asStr : DirectKind → String
  | text => "text"
  | image => "image"
  | voice => "voice"
  | file => "file"
  | other s => s

/-- `parse`. -/
def parse (s : String) : DirectKind :=
  if s = "text" then text
  else if s = "image" then image
  else if s = "voice" then voice
  else if s = "file" then file
  else other s

end DirectKind

/-- `DirectBody`. -/
inductive DirectBody where
  | text (s : String)
  | referenceBytes (b : List UInt8)
  deriving DecidableEq

/-- `DirectMessagePayload`. -/
structure DirectMessagePayload where
  kind : DirectKind
  body : DirectBody
  replyTo : Option (Bytes 32)
  thread : Option (Bytes 32)
  deriving DecidableEq

namespace DirectMessagePayload

/-- The body's bytes; those of a reference as they are. -/
def encodeBody : DirectBody → List UInt8
  | .text s => Cbor.text s
  | .referenceBytes b => b

/-- `encode`. -/
def encode (p : DirectMessagePayload) : List UInt8 :=
  encodeMap
    [⟨key "body", encodeBody p.body⟩,
     ⟨key "kind", Cbor.text p.kind.asStr⟩,
     ⟨key "thread", ProfilePayload.orNull (fun h => bytes h.val) p.thread⟩,
     ⟨key "reply_to", ProfilePayload.orNull (fun h => bytes h.val) p.replyTo⟩]

/-- `skip_value`, this module's copy. -/
def skipValue : Read Unit := ProfilePayload.skipValueInner maxCborSkipDepth

/-- `read_optional_32`, this module's copy. -/
def readOptional32 (field : String) : Read (Option (Bytes 32)) :=
  ProfilePayload.readOptional32 field

/-- Text, or a map, whose bytes are kept. -/
def readBody : Read DirectBody := do
  let major := (← ProfilePayload.peekOr "missing body") >>> 5
  if major = 3 then
    return .text (← readText)
  else if major = 5 then
    let start ← position
    skipValue
    return .referenceBytes (← slice start (← position))
  else
    let got := major.toNat
    throw (.cborDecode s!"DirectMessage body major type unexpected: {got}")

/-- The key every field is introduced by. -/
def expectField (want : String) : Read Unit :=
  expectKey want "DirectMessage keys not in canonical order"

/-- The four fields and nothing after them. -/
def readFields : Read DirectMessagePayload := do
  expectEntries 4 fun n => s!"DirectMessage expected 4 keys, got {n}"
  expectField "body"
  let body ← readBody
  expectField "kind"
  let kind ← readText
  expectField "thread"
  let thread ← readOptional32 "thread"
  expectField "reply_to"
  let replyTo ← readOptional32 "reply_to"
  if !(← atEnd) then
    throw (.cborDecode "trailing bytes after DirectMessage")
  return { kind := DirectKind.parse kind, body, replyTo, thread }

/-- `decode`. -/
def decode (wire : List UInt8) : Except Error DirectMessagePayload :=
  readFields.value wire

end DirectMessagePayload

end Sidevers.Core
