/-
Large objects in chunks (`chunking.rs`), over the table and the blobs of the
object store.

No other call of the store comes in between here. Memory is as large as an
address can say: an allocation fails only where Rust says it panics, when it
asks for more than `isize::MAX` bytes, and a vector grows by no more than it
must. What is put, and in which order, is in `Sidevers.Net.Serving`.
-/
import Sidevers.Net.ObjectCalls
import Sidevers.Net.Serving
import Sidevers.Net.StorageProtocol

namespace Sidevers.Net

open Sidevers.Core
open Sidevers.Lib
open Cbor

/-- `sidevers_storage::Error`, as far as it is raised here. -/
inductive StorageError where
  /-- No blob to read. -/
  | io
  | hashMismatch (expected got : String)
  | core (e : Core.Error)
  deriving DecidableEq

/-- `hex::encode`. -/
def hexEncode (bs : List UInt8) : String :=
  String.ofList (bs.flatMap fun b : UInt8 =>
    [Nat.digitChar (b >>> 4).toNat, Nat.digitChar (b &&& 0x0F).toNat])

-- =========================================================== the store

namespace ObjectFiles

/-- `put`. -/
def put (crypto : Crypto) (s : ObjectFiles) (bytes : List UInt8) :
    Bytes 32 × ObjectFiles :=
  let hash := crypto.blake3 bytes
  if bytes.length ≤ inlineMax then
    (hash, s.insertObject crypto bytes (some bytes) s.unixNow)
  else
    (hash, (s.writeBlob crypto bytes).insertObject crypto bytes none s.unixNow)

/-- `verify_hash`. -/
def verifyHash (crypto : Crypto) (bytes : List UInt8) (expected : Bytes 32) :
    Except StorageError Unit :=
  let got := crypto.blake3 bytes
  if got = expected then .ok ()
  else .error (.hashMismatch (hexEncode expected.val) (hexEncode got.val))

/-- How `get` ends once it has the bytes. -/
def verified (crypto : Crypto) (s : ObjectFiles) (hash : Bytes 32)
    (bytes : List UInt8) :
    Except StorageError (Option (List UInt8)) × ObjectFiles :=
  match verifyHash crypto bytes hash with
  | .error e => (.error e, s)
  | .ok () => (.ok (some bytes), s.touch hash)

/-- `get`. -/
def get (crypto : Crypto) (s : ObjectFiles) (hash : Bytes 32) :
    Except StorageError (Option (List UInt8)) × ObjectFiles :=
  match s.rows.get hash with
  | none => (.ok none, s)
  | some row =>
      match row.inline with
      | some bytes => s.verified crypto hash bytes
      | none =>
          match s.blobs hash with
          | some bytes => s.verified crypto hash bytes
          | none => (.error .io, s)

end ObjectFiles

-- ======================================================== the manifest

/-- `MANIFEST_MIME`. -/
def manifestMime : String := "application/sidevers.chunk-manifest+cbor"

/-- `CHUNK_MIME`. -/
def chunkMime : String := "application/sidevers.chunk+binary"

/-- `SINGLE_MIME`. -/
def singleMime : String := "application/octet-stream"

namespace Reference

/-- `new`. -/
def new (hash : Bytes addressLen) (size : UInt64) (mime : String) :
    Reference := .mk hash size mime [] []

/-- `reference.hash`. -/
def hash : Reference → Bytes addressLen
  | .mk hash _ _ _ _ => hash

/-- `reference.size`. -/
def size : Reference → UInt64
  | .mk _ size _ _ _ => size

/-- `reference.mime`. -/
def mime : Reference → String
  | .mk _ _ mime _ _ => mime

/-- `reference.deps`. -/
def deps : Reference → List Reference
  | .mk _ _ _ _ deps => deps

end Reference

/-- The two fields of `decode_manifest`. -/
def readManifest : Read (UInt64 × List (Bytes 32)) := do
  expectEntries 2 fun n => s!"chunk manifest expected 2 keys, got {n}"
  expectKey "chunks" "chunk manifest: key order"
  let chunks ← readArray (readExact "chunk.hash" addressLen)
  expectKey "total_size" "chunk manifest: key order"
  let totalSize ← readU64
  return (totalSize, chunks)

/-- `decode_manifest`. -/
def decodeManifest (bytes : List UInt8) :
    Except Core.Error (UInt64 × List (Bytes 32)) :=
  (do
    let manifest ← readManifest
    if !(← atEnd) then
      throw (.cborDecode "trailing bytes after manifest")
    return manifest : Read _).value bytes

-- ========================================================== chunking

/-- The loop of `put_chunked`: the references and the hashes. -/
def putChunks (crypto : Crypto) : ObjectFiles → List (List UInt8) →
    List Reference × List (Bytes 32) × ObjectFiles
  | s, [] => ([], [], s)
  | s, chunk :: rest =>
      let (h, s) := s.put crypto chunk
      let (refs, hashes, s) := putChunks crypto s rest
      (.new h (UInt64.ofNat chunk.length) chunkMime :: refs, h :: hashes, s)

/-- `put_chunked`. -/
def ObjectFiles.putChunked (crypto : Crypto) (s : ObjectFiles)
    (bytes : List UInt8) : Reference × ObjectFiles :=
  let totalSize := UInt64.ofNat bytes.length
  if bytes.length ≤ chunkMax then
    let (hash, s) := s.put crypto bytes
    (.new hash totalSize singleMime, s)
  else
    let (refs, hashes, s) := putChunks crypto s (chunks chunkMax bytes)
    let (hash, s) := s.put crypto (encodeManifest totalSize hashes)
    (.mk hash totalSize manifestMime [] refs, s)

/-- `isize::MAX`. -/
def isizeMax : Nat := 2 ^ 63 - 1

/-- What a call comes to, a panic included. -/
inductive Outcome (α : Type) where
  | panicked
  | err (e : StorageError)
  | ok (value : α)
  deriving DecidableEq

/-- The loop of `get_chunked`, on what it has assembled. -/
def appendChunks (crypto : Crypto) : ObjectFiles → List UInt8 →
    List (Bytes 32) → Outcome (List UInt8) × ObjectFiles
  | s, out, [] => (.ok out, s)
  | s, out, h :: rest =>
      match s.get crypto h with
      | (.error e, s) => (.err e, s)
      | (.ok none, s) =>
          (.err (.hashMismatch (hexEncode h.val) "(missing chunk)"), s)
      | (.ok (some piece), s) =>
          if out.length + piece.length > isizeMax then (.panicked, s)
          else appendChunks crypto s (out ++ piece) rest

/-- `get_chunked` once the manifest is there. A total that is not the
reference's is only warned about. -/
def ObjectFiles.assemble (crypto : Crypto) (s : ObjectFiles)
    (manifest : List UInt8) : Outcome (List UInt8) × ObjectFiles :=
  match decodeManifest manifest with
  | .error e => (.err (.core e), s)
  | .ok (declaredTotal, hashes) =>
      -- `Vec::with_capacity`
      if declaredTotal.toNat > isizeMax then (.panicked, s)
      else
        match appendChunks crypto s [] hashes with
        | (.ok out, s) =>
            let declared := declaredTotal.toNat
            let got := out.length
            if UInt64.ofNat out.length ≠ declaredTotal then
              (.err (.hashMismatch s!"{declared} bytes (per manifest)"
                s!"{got} bytes (per chunks)"), s)
            else (.ok out, s)
        | failed => failed

/-- `get_chunked`. -/
def ObjectFiles.getChunked (crypto : Crypto) (s : ObjectFiles)
    (reference : Reference) : Outcome (List UInt8) × ObjectFiles :=
  let expected := hexEncode reference.hash.val
  match s.get crypto reference.hash with
  | (.error e, s) => (.err e, s)
  | (.ok none, s) =>
      let got := if reference.mime ≠ manifestMime then "(missing)"
        else "(missing manifest)"
      (.err (.hashMismatch expected got), s)
  | (.ok (some bytes), s) =>
      if reference.mime ≠ manifestMime then (.ok bytes, s)
      else s.assemble crypto bytes

end Sidevers.Net
