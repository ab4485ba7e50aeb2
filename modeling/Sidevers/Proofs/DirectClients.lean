/-
What one program writes as a direct message and another shows.

The desktop app and the command line send text as it is, the mobile library
and the app's offline command in a payload. The app shows either as it was
typed (`text_shown_as_typed`): no text begins with the byte that a payload
begins with. The others read the payload only, and none of the text that is
sent as it is. Media are in `Sidevers.Proofs.Media`.
-/
import Sidevers.Net.DirectClients
import Sidevers.Proofs.Clients
import Sidevers.Proofs.DirectForms
import Sidevers.Proofs.Inbox

namespace Sidevers.Proofs

open Sidevers.Core
open Sidevers.Core.Cbor
open Sidevers.Lib
open Sidevers.Net

variable {crypto : Crypto} {crate : Bech32}

-- ========================================================== the plaintext

/-- The first byte of a payload, which is a map of four. -/
theorem first_of_decode {bs : List UInt8} {p : DirectMessagePayload}
    (h : DirectMessagePayload.decode bs = .ok p) :
    ∃ rest, bs = 0xA4 :: rest := by
  have hhead : writeHead mtMap (UInt64.ofNat 4) = [0xA4] := rfl
  unfold DirectMessagePayload.decode Read.value Read.on
    DirectMessagePayload.readFields at h
  rw [StateT.run_bind] at h
  cases hrun : (expectEntries 4 fun n =>
      s!"DirectMessage expected 4 keys, got {n}").run ⟨bs, 0⟩ with
  | error e =>
      rw [hrun] at h
      cases h
  | ok read =>
      obtain ⟨_, hadv, hbytes, -⟩ := consumes_expectEntries 4 _ _ _ _ hrun
      obtain ⟨-, rest, hrest⟩ := hadv
      rw [hbytes, hhead, List.drop_zero] at hrest
      exact ⟨rest, hrest.symm⟩

/-- Text is no payload. -/
theorem decode_asBytes (text : String) :
    ∃ e, DirectMessagePayload.decode (asBytes text) = .error e := by
  cases hdecode : DirectMessagePayload.decode (asBytes text) with
  | error e => exact ⟨e, rfl⟩
  | ok p =>
      obtain ⟨rest, hrest⟩ := first_of_decode hdecode
      exact absurd (isUTF8FirstByte_of_utf8 hrest) (by decide)

theorem reads_readBody_text (text : String) :
    Reads DirectMessagePayload.readBody (Cbor.text text) (.text text) := by
  obtain ⟨ib, tl, hform, hmajor⟩ := text_major text
  have hread : Reads (do return DirectBody.text (← readText))
      (Cbor.text text) (.text text) :=
    (reads_readText text).andThen (.pure _)
  unfold DirectMessagePayload.readBody
  rw [hform] at hread ⊢
  exact .peek (.pos hmajor hread)

/-- A text in a payload. -/
theorem decode_textPayload {text : String}
    (hlen : (textPayload text).encode.length < 2 ^ 64) :
    DirectMessagePayload.decode (textPayload text).encode
      = .ok (textPayload text) := by
  have hcount : 4 ≤ maxCborEntries := by decide
  have hends : EndsIff True DirectMessagePayload.readFields
      (textPayload text).encode (textPayload text) := by
    refine .map hcount ?_ rfl
    refine .field (reads_readBody_text text) ?_
    refine .field (reads_readText "text") ?_
    refine .field (reads_readOptional32 _ none) ?_
    exact .field (reads_readOptional32 _ none) .atEnd
  exact (hends.value hlen).1 trivial

/-- What is shown of a text. -/
def textDm (sender recipient text : String) (receivedAt : UInt64) : InboxDm :=
  ⟨sender, recipient, text, receivedAt, "text", none, none, none⟩

theorem buildInboxDm_asBytes (sender recipient text : String)
    (receivedAt : UInt64) :
    buildInboxDm sender recipient (asBytes text) receivedAt
      = textDm sender recipient text receivedAt := by
  obtain ⟨e, he⟩ := decode_asBytes text
  unfold buildInboxDm decodeDmPlaintext
  rw [he]
  dsimp only
  rw [asBytes, lossy_utf8]
  rfl

theorem buildInboxDm_textPayload (sender recipient : String) {text : String}
    (receivedAt : UInt64)
    (hlen : (textPayload text).encode.length < 2 ^ 64) :
    buildInboxDm sender recipient (textPayload text).encode receivedAt
      = textDm sender recipient text receivedAt := by
  unfold buildInboxDm decodeDmPlaintext
  rw [decode_textPayload hlen]
  rfl

-- ============================================================ the envelope

variable {sealTo : Seal crypto} {openSealed : OpenSealed crypto}
  {side peer : Signer crypto} {plaintext : List UInt8} {now : UInt64}
  {nonce : Nonce} {frame wire : List UInt8}

/-- What a message arrives as. -/
structure Arrives (crypto : Crypto) (openSealed : OpenSealed crypto)
    (side peer : Signer crypto) (plaintext : List UInt8)
    (env : SignedEnvelope) : Prop where
  type : env.messageType = .directMessage
  sender : env.fromSide = side.publicBytes
  addressee : env.toSide = some peer.publicBytes
  opens : openSealed env.payload peer env.fromSide env.nonce []
    = .ok plaintext

theorem dmEnvelope_ok {env : SignedEnvelope}
    (h : dmEnvelope sealTo side peer.publicBytes plaintext now nonce
      = .ok env) :
    ∃ ciphertext,
      sealTo plaintext side peer.publicBytes nonce [] = .ok ciphertext
      ∧ env = .signWith .directMessage side (some peer.publicBytes) ciphertext
        now nonce := by
  unfold dmEnvelope at h
  cases hct : sealTo plaintext side peer.publicBytes nonce [] with
  | error e =>
      rw [hct] at h
      cases h
  | ok ciphertext =>
      rw [hct] at h
      exact ⟨ciphertext, rfl, (Except.ok.inj h).symm⟩

theorem arrives_dmEnvelope (hseal : SealsOpen sealTo openSealed)
    {env : SignedEnvelope}
    (h : dmEnvelope sealTo side peer.publicBytes plaintext now nonce
      = .ok env) :
    Arrives crypto openSealed side peer plaintext env := by
  obtain ⟨ciphertext, hct, rfl⟩ := dmEnvelope_ok h
  exact ⟨rfl, rfl, rfl, hseal _ _ _ _ _ _ hct⟩

/-- A message that is sent is received. -/
theorem arrives_sendDm (hseal : SealsOpen sealTo openSealed)
    (h : sendDm sealTo side peer.publicBytes plaintext now nonce
      = .ok frame) :
    ∃ env, recvEnvelope crypto frame = .ok env
      ∧ Arrives crypto openSealed side peer plaintext env := by
  unfold sendDm at h
  split at h
  case h_1 => cases h
  case h_2 env henv =>
    split at h
    case h_1 => cases h
    case h_2 sent hsend =>
      cases h
      refine ⟨env, ?_, arrives_dmEnvelope hseal henv⟩
      obtain ⟨ciphertext, -, rfl⟩ := dmEnvelope_ok henv
      exact recvEnvelope_signWith hsend

/-- A message of a modest size is sent. -/
theorem sendDm_ok {ciphertext : List UInt8}
    (hct : sealTo plaintext side peer.publicBytes nonce [] = .ok ciphertext)
    (hfits : ciphertext.length ≤ 65000) :
    ∃ frame, sendDm sealTo side peer.publicBytes plaintext now nonce
      = .ok frame := by
  obtain ⟨frame, hframe⟩ := sendEnvelope_signWith .directMessage side
    peer.publicBytes now nonce hfits
  refine ⟨frame, ?_⟩
  unfold sendDm dmEnvelope
  rw [hct]
  dsimp only [Except.map]
  rw [hframe]

/-- It is opened, and shown with the texts of both addresses. -/
theorem Arrives.opened (crate : Bech32) {env : SignedEnvelope}
    (h : Arrives crypto openSealed side peer plaintext env) :
    openDirectMessage openSealed peer env = some ⟨env, plaintext⟩
      ∧ ∀ source clock ok,
        (Drained.mk source ⟨env, plaintext⟩ clock ok).event crate
          = buildInboxDm (sideText crate side.publicBytes)
            (sideText crate peer.publicBytes) plaintext clock := by
  constructor
  · unfold openDirectMessage
    rw [h.opens]
  · intro source clock ok
    unfold Drained.event
    dsimp only
    rw [h.sender, h.addressee]
    rfl

/-- What the library and the app's offline command make of it. -/
theorem Arrives.openText_eq {env : SignedEnvelope}
    (h : Arrives crypto openSealed side peer plaintext env)
    (hwire : SignedEnvelope.fromWireBytes crypto wire = .ok env) :
    openText openSealed peer wire
      = match DirectMessagePayload.decode plaintext with
        | .error e => .error (.core e)
        | .ok payload =>
            match payload.body with
            | .text s => .ok (side.publicBytes, s)
            | .referenceBytes _ => .error .media := by
  unfold openText
  rw [hwire]
  dsimp only
  rw [if_neg (not_not.mpr h.type), if_neg (not_not.mpr h.addressee), h.opens]
  dsimp only
  rewrite [h.sender]
  rfl

/-- The envelope of a frame is the one its bytes are read as. -/
theorem fromWireBytes_of_recv {env : SignedEnvelope}
    (h : recvEnvelope crypto frame = .ok env) :
    SignedEnvelope.fromWireBytes crypto env.toWireBytes = .ok env := by
  obtain ⟨-, h⟩ := guard_ok.mp h
  obtain ⟨-, h⟩ := guard_ok.mp h
  obtain ⟨-, h⟩ := guard_ok.mp h
  dsimp only at h
  split at h
  case h_1 => cases h
  case h_2 hwire =>
    cases h
    rw [← (form_of_fromWireBytes hwire).1]
    exact hwire

-- ================================================================== texts

/-- For every text, sender and recipient: what the app and the command line
send as it is and what the library and the offline command seal in a payload
is shown by the app as it was typed. The library and the offline command read
back the text of a payload, and refuse every text that was sent as it is. -/
theorem text_shown_as_typed (crypto : Crypto) (crate : Bech32)
    (sealTo : Seal crypto) (openSealed : OpenSealed crypto)
    (hseal : SealsOpen sealTo openSealed) (side peer : Signer crypto)
    (text : String) (now : UInt64) (nonce : Nonce)
    (hmemory : (textPayload text).encode.length < 2 ^ 64) :
    (∀ frame, sendDmLive sealTo side peer.publicBytes text now nonce
        = .ok frame →
      ∃ env dm, recvEnvelope crypto frame = .ok env
        ∧ openDirectMessage openSealed peer env = some dm
        ∧ (∀ source clock ok, (Drained.mk source dm clock ok).event crate
          = textDm (sideText crate side.publicBytes)
            (sideText crate peer.publicBytes) text clock)
        ∧ ∃ e, openText openSealed peer env.toWireBytes = .error (.core e))
      ∧ ∀ wire, sealText sealTo side peer.publicBytes text now nonce
          = .ok wire → wire.length < 2 ^ 64 →
        openText openSealed peer wire = .ok (side.publicBytes, text)
          ∧ ∃ env dm, SignedEnvelope.fromWireBytes crypto wire = .ok env
            ∧ openDirectMessage openSealed peer env = some dm
            ∧ ∀ source clock ok, (Drained.mk source dm clock ok).event crate
              = textDm (sideText crate side.publicBytes)
                (sideText crate peer.publicBytes) text clock := by
  constructor
  · intro frame hsend
    obtain ⟨env, hrecv, harrives⟩ := arrives_sendDm hseal hsend
    obtain ⟨hopened, hevent⟩ := harrives.opened crate
    refine ⟨env, _, hrecv, hopened, fun source clock ok => ?_, ?_⟩
    · rw [hevent, buildInboxDm_asBytes]
    · obtain ⟨e, he⟩ := decode_asBytes text
      refine ⟨e, ?_⟩
      rw [harrives.openText_eq (fromWireBytes_of_recv hrecv), he]
  · intro wire hseals hlen
    unfold sealText at hseals
    cases henv : dmEnvelope sealTo side peer.publicBytes
        (textPayload text).encode now nonce with
    | error e =>
        rw [henv] at hseals
        cases hseals
    | ok env =>
        rw [henv] at hseals
        cases hseals
        have harrives := arrives_dmEnvelope hseal henv
        have hwire : SignedEnvelope.fromWireBytes crypto env.toWireBytes
            = .ok env := by
          obtain ⟨ciphertext, -, hsigned⟩ := dmEnvelope_ok henv
          exact fromWireBytes_signWith side hsigned hlen
        obtain ⟨hopened, hevent⟩ := harrives.opened crate
        refine ⟨?_, env, _, hwire, hopened, fun source clock ok => ?_⟩
        · rw [harrives.openText_eq hwire, decode_textPayload hmemory]
          rfl
        · rw [hevent, buildInboxDm_textPayload _ _ _ hmemory]

-- ------------------------------------------------------------ by example

/-- What is sealed is followed by both keys and the nonce. -/
def sealMarked : Seal Crypto.legible := fun plain side peer nonce _ =>
  .ok (plain ++ (side.publicBytes.val ++ peer.val ++ nonce.val))

/-- It opens where they are there. -/
def openMarked : OpenSealed Crypto.legible := fun ciphertext side peer nonce _ =>
  let mark := peer.val ++ side.publicBytes.val ++ nonce.val
  let plainLen := ciphertext.length - mark.length
  if ciphertext.drop plainLen = mark then .ok (ciphertext.take plainLen)
  else .error .decryptionFailed

theorem sealsOpen_marked : SealsOpen sealMarked openMarked := by
  intro plain side peer nonce aad ciphertext h
  cases h
  unfold openMarked
  dsimp only
  rw [List.length_append, Nat.add_sub_cancel, List.drop_left, if_pos rfl,
    List.take_left]

def typist : Signer Crypto.legible := Signer.legible (Bytes.fill 32 1)

def reader : Signer Crypto.legible := Signer.legible (Bytes.fill 32 2)

/-- A greeting. -/
theorem text_shown_as_typed_hello :
    ∃ frame wire env dm, sendDmLive sealMarked typist reader.publicBytes "hello"
        1000000000 (Bytes.fill 16 0) = .ok frame
      ∧ sealText sealMarked typist reader.publicBytes "hello" 1000000000
        (Bytes.fill 16 0) = .ok wire
      ∧ recvEnvelope Crypto.legible frame = .ok env
      ∧ openDirectMessage openMarked reader env = some dm
      ∧ ((Drained.mk (0, 0) dm 5 true).event bip350).plaintext = "hello"
      ∧ openText openMarked reader wire = .ok (typist.publicBytes, "hello") := by
  obtain ⟨hraw, hsealed⟩ := text_shown_as_typed Crypto.legible bip350 sealMarked
    openMarked sealsOpen_marked typist reader "hello" 1000000000
    (Bytes.fill 16 0) (by decide +kernel)
  obtain ⟨frame, hframe⟩ : ∃ frame, sendDmLive sealMarked typist
      reader.publicBytes "hello" 1000000000 (Bytes.fill 16 0)
        = .ok frame := sendDm_ok rfl (by decide +kernel)
  obtain ⟨wire, hwire⟩ : ∃ wire, sealText sealMarked typist
      reader.publicBytes "hello" 1000000000 (Bytes.fill 16 0)
        = .ok wire := ⟨_, rfl⟩
  obtain ⟨env, dm, hrecv, hopened, hevent, -⟩ := hraw frame hframe
  have hlen : wire.length < 2 ^ 64 := by
    cases hwire
    decide +kernel
  refine ⟨frame, wire, env, dm, hframe, hwire, hrecv, hopened, ?_,
    (hsealed wire hwire hlen).1⟩
  rw [hevent]
  rfl

end Sidevers.Proofs
