/-
The programs that write and read direct messages: `send_dm` of the node, the
desktop app (`send_dm_live`, `send_dm_media`, `seal_dm`, `open_dm`,
`fetch_media` in `desktop/tauri/src/main.rs`), the command line (`dm_send` in
`cli.rs`) and the mobile library (`sv_dm_seal_text`, `sv_dm_open_text` in
`sidevers-ffi/src/dm.rs`).

`payload::seal` and `payload::open` are parameters, and what they owe each
other is `SealsOpen`. Media come here as bytes, after their base64, and are
fetched by one call at a time; the directory of their files is there. The
clock and the random bytes do not fail.
-/
import Sidevers.Net.AcceptPairing
import Sidevers.Net.Clients
import Sidevers.Net.Inbox

namespace Sidevers.Net

open Sidevers.Core
open Sidevers.Lib

/-- What is sealed by one side for another, the other opens. -/
def SealsOpen {crypto : Crypto} (sealTo : Seal crypto)
    (openSealed : OpenSealed crypto) : Prop :=
  ∀ plaintext (side peer : Signer crypto) nonce aad ciphertext,
    sealTo plaintext side peer.publicBytes nonce aad = .ok ciphertext →
      openSealed ciphertext peer side.publicBytes nonce aad = .ok plaintext

variable {crypto : Crypto}

-- =============================================================== sending

/-- The envelope of a message. -/
def dmEnvelope (sealTo : Seal crypto) (side : Signer crypto) (peer : Address)
    (plaintext : List UInt8) (now : UInt64) (nonce : Nonce) :
    Except Error SignedEnvelope :=
  (sealTo plaintext side peer nonce []).map fun ciphertext =>
    .signWith .directMessage side (some peer) ciphertext now nonce

/-- `send_dm`: what goes to the stream. -/
def sendDm (sealTo : Seal crypto) (side : Signer crypto) (peer : Address)
    (plaintext : List UInt8) (now : UInt64) (nonce : Nonce) :
    Except CallError (List UInt8) :=
  match dmEnvelope sealTo side peer plaintext now nonce with
  | .error e => .error (.net e)
  | .ok env =>
      match sendEnvelope env with
      | .error e => .error (.framing (.tooLarge e))
      | .ok frame => .ok frame

/-- `text.as_bytes()`. -/
def asBytes (text : String) : List UInt8 := text.toUTF8.data.toList

/-- `send_dm_live` and `dm_send`: text goes as it is. -/
def sendDmLive (sealTo : Seal crypto) (side : Signer crypto) (peer : Address)
    (text : String) (now : UInt64) (nonce : Nonce) :
    Except CallError (List UInt8) :=
  sendDm sealTo side peer (asBytes text) now nonce

/-- A text in a payload. -/
def textPayload (text : String) : DirectMessagePayload :=
  ⟨.text, .text text, none, none⟩

/-- `seal_dm` and `sv_dm_seal_text`: text goes in a payload. The wire bytes
are carried on by others. -/
def sealText (sealTo : Seal crypto) (side : Signer crypto) (peer : Address)
    (text : String) (now : UInt64) (nonce : Nonce) :
    Except Error (List UInt8) :=
  (dmEnvelope sealTo side peer (textPayload text).encode now nonce).map
    SignedEnvelope.toWireBytes

-- ============================================================= receiving

/-- The DIRECT_MESSAGE arm of `serve_direct`, past its checks: what goes to
the channel. -/
def openDirectMessage (openSealed : OpenSealed crypto) (side : Signer crypto)
    (env : SignedEnvelope) : Option DirectMessageReceived :=
  match openSealed env.payload side env.fromSide env.nonce [] with
  | .ok plaintext => some ⟨env, plaintext⟩
  | .error _ => none

/-- Why `open_dm` and `sv_dm_open_text` fail. -/
inductive OpenTextError where
  | core (e : Core.Error)
  | notDirectMessage
  | notAddressed
  | media

/-- `sv_dm_open_text`, and `open_dm`, which returns the text only: the sender
and the text. -/
def openText (openSealed : OpenSealed crypto) (side : Signer crypto)
    (wire : List UInt8) : Except OpenTextError (Address × String) :=
  match SignedEnvelope.fromWireBytes crypto wire with
  | .error e => .error (.core e)
  | .ok env =>
      if env.messageType ≠ .directMessage then .error .notDirectMessage
      else if env.toSide ≠ some side.publicBytes then .error .notAddressed
      else
        match openSealed env.payload side env.fromSide env.nonce [] with
        | .error e => .error (.core e)
        | .ok plain =>
            match DirectMessagePayload.decode plain with
            | .error e => .error (.core e)
            | .ok payload =>
                match payload.body with
                | .text s => .ok (env.fromSide, s)
                | .referenceBytes _ => .error .media

-- ================================================================= media

/-- `MEDIA_MAX_BYTES`. -/
def mediaMaxBytes : Nat := 10 * 1024 * 1024

/-- A check of media: not empty, not too large, and one of two beginnings. -/
def validateMedia (what : String) (starts : List (List UInt8 × String))
    (otherwise : String) (bytes : List UInt8) : Except String String :=
  if bytes.isEmpty then .error s!"{what}: empty"
  else if bytes.length > mediaMaxBytes then
    let len := bytes.length
    .error s!"{what}: too large ({len} bytes; max {mediaMaxBytes})"
  else
    match starts.find? fun s => s.1.isPrefixOf bytes with
    | some s => .ok s.2
    | none => .error otherwise

/-- `validate_image_bytes`. -/
def validateImageBytes : List UInt8 → Except String String :=
  validateMedia "image"
    [([0xFF, 0xD8, 0xFF], "image/jpeg"),
     ([0x89, 0x50, 0x4E, 0x47, 0x0D, 0x0A, 0x1A, 0x0A], "image/png")]
    "image: only JPEG or PNG accepted"

/-- `validate_voice_bytes`. -/
def validateVoiceBytes : List UInt8 → Except String String :=
  validateMedia "voice"
    [([0x1A, 0x45, 0xDF, 0xA3], "audio/webm"),
     ([0x4F, 0x67, 0x67, 0x53], "audio/ogg")]
    "voice: only WebM/Ogg containers accepted"

/-- The type of media of a kind, and the kind of the message. -/
def mediaKind (kind : String) (bytes : List UInt8) :
    Except String (String × DirectKind) :=
  if kind = "image" then (validateImageBytes bytes).map fun m => (m, .image)
  else if kind = "voice" then
    (validateVoiceBytes bytes).map fun m => (m, .voice)
  else .error s!"unknown media kind: {kind}"

/-- `Reference::new`, as it is made for media. -/
def mediaReference (crypto : Crypto) (bytes : List UInt8) (mime : String) :
    Reference :=
  .mk (crypto.blake3 bytes) (UInt64.ofNat bytes.length) mime [] []

/-- `send_dm_media`, where a session is there: the node that has put the
media, and what goes to the stream. -/
def sendDmMedia (sealTo : Seal crypto) (n : ServingNode crypto)
    (peer : Address) (kind : String) (bytes : List UInt8) (now : UInt64)
    (nonce : Nonce) :
    Except String (ServingNode crypto × Except CallError (List UInt8)) :=
  match mediaKind kind bytes with
  | .error e => .error e
  | .ok (mime, directKind) =>
      let payload : DirectMessagePayload :=
        ⟨directKind, .referenceBytes (mediaReference crypto bytes mime).encode,
          none, none⟩
      .ok ({ n with store := n.store.put crypto bytes },
        sendDm sealTo n.side peer payload.encode now nonce)

-- ------------------------------------------------------------- the cache

/-- The media cache: files by the hash they are named by. -/
abbrev MediaCache := Table (Bytes 32) (List UInt8)

/-- How a write of a file ends: it goes through, or is cut short, having
written so many bytes if it had begun. -/
inductive CacheWrite where
  | done
  | cut (written : Option Nat)

/-- Why `fetch_media` fails. -/
inductive FetchMediaError where
  | badHex
  | hashLength
  | objectGet
  | dial
  | fetch (e : CallError)
  | missing
  | cacheWrite

/-- How it ends: with the file of the hash, or so. -/
abbrev FetchMediaEnd := Except FetchMediaError (Bytes 32)

/-- The file of an object is written. -/
def cacheObject (cache : MediaCache) (hash : Bytes 32) (bytes : List UInt8) :
    CacheWrite → FetchMediaEnd × MediaCache
  | .done => (.ok hash, cache.insert hash bytes)
  | .cut none => (.error .cacheWrite, cache)
  | .cut (some n) => (.error .cacheWrite, cache.insert hash (bytes.take n))

/-- The value of a hexadecimal digit, in either case. -/
def hexDigit (c : Char) : Option UInt8 :=
  if '0' ≤ c ∧ c ≤ '9' then some (UInt8.ofNat (c.toNat - 48))
  else if 'a' ≤ c ∧ c ≤ 'f' then some (UInt8.ofNat (c.toNat - 87))
  else if 'A' ≤ c ∧ c ≤ 'F' then some (UInt8.ofNat (c.toNat - 55))
  else none

/-- `hex::decode`. -/
def hexDecode : List Char → Option (List UInt8)
  | [] => some []
  | [_] => none
  | high :: low :: rest => do
      let h ← hexDigit high
      let l ← hexDigit low
      return ((h <<< 4) ||| l) :: (← hexDecode rest)

/-- `fetch_media`, past its hash: the file that is there, the node's own
object, or what a peer answers (`none` when it is not reached). -/
def fetchHashed (crypto : Crypto) (store : ObjectStore) (cache : MediaCache)
    (hash : Bytes 32) (stream : Option (List UInt8)) (write : CacheWrite) :
    FetchMediaEnd × MediaCache :=
  match cache hash with
  | some _ => (.ok hash, cache)
  | none =>
      match store hash with
      | some (bytes, _) =>
          if crypto.blake3 bytes = hash then
            cacheObject cache hash bytes write
          else (.error .objectGet, cache)
      | none =>
          match stream with
          | none => (.error .dial, cache)
          | some stream =>
              match fetchObject crypto hash stream with
              | .error e => (.error (.fetch e), cache)
              | .ok none => (.error .missing, cache)
              | .ok (some bytes) => cacheObject cache hash bytes write

/-- `fetch_media`. -/
def fetchMedia (crypto : Crypto) (store : ObjectStore) (cache : MediaCache)
    (hashHex : String) (stream : Option (List UInt8)) (write : CacheWrite) :
    FetchMediaEnd × MediaCache :=
  match hexDecode (trim hashHex).toList with
  | none => (.error .badHex, cache)
  | some raw =>
      if h : raw.length = 32 then
        fetchHashed crypto store cache ⟨raw, h⟩ stream write
      else (.error .hashLength, cache)

/-- What a session writes in answer; one that does not fit a frame ends it. -/
def answerStream (r : Response crypto) : List UInt8 :=
  match r.answer with
  | none => []
  | some answer =>
      match sendEnvelope answer with
      | .ok frame => frame
      | .error _ => []

/-- The request of `fetch_object`. -/
def storageGetEnvelope (side : Signer crypto) (peer : Address)
    (hash : Bytes 32) (now : UInt64) (nonce : Nonce) : SignedEnvelope :=
  .signWith .storageGet side (some peer)
    (StorageGetPayload.encode ⟨hash, none⟩) now nonce

/-- A call of `fetch_media`, with what the object store holds then. -/
structure FetchCall where
  store : ObjectStore
  hashHex : String
  stream : Option (List UInt8)
  write : CacheWrite

/-- The cache, call after call. -/
def cacheStep (crypto : Crypto) (cache : MediaCache) (c : FetchCall) :
    Option MediaCache :=
  some (fetchMedia crypto c.store cache c.hashHex c.stream c.write).2

end Sidevers.Net
