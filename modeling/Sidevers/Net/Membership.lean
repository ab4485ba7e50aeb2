/-
The member's side of a verse (`request_join`, `apply_verse_key_rotation` in
`node.rs`): the handle a member keeps, and what an answer or a push does to
it.

A sealed content key is ideal: it opens for the two sides whose exchange
gave the key, under the nonce it was sealed with. The token is the bytes the
code keeps.
-/
import Mathlib.Data.Sym.Sym2
import Sidevers.Core.VerseWire
import Sidevers.Net.Error
import Sidevers.Net.Verse

namespace Sidevers.Net

open Sidevers.Core
open Sidevers.Lib

/-- `sealed_content_key`; the plaintext is `none` when it is not 32 bytes. -/
inductive SealedContentKey where
  | box (sides : Sym2 Address) (nonce : Nonce) (key : Option VerseContentKey)
  | bytes (b : List UInt8)
  deriving DecidableEq

/-- `core_payload::open`. -/
def SealedContentKey.open (sealed : SealedContentKey)
    (recipient sender : Address) (nonce : Nonce) :
    Except Core.Error (Option VerseContentKey) :=
  match sealed with
  | .box sides n key =>
      if sides = s(sender, recipient) ∧ n = nonce then .ok key
      else .error .decryptionFailed
  | .bytes _ => .error .decryptionFailed

/-- `JoinAcceptPayload`, decoded. -/
structure JoinAcceptPayload where
  membershipToken : List UInt8
  keyNonce : Nonce
  sealedContentKey : SealedContentKey
  deriving DecidableEq

/-- What answers a join request, or fails to. -/
inductive JoinResponse where
  | accept (payload : Except Core.Error JoinAcceptPayload)
  | decline (payload : Except Core.Error JoinDeclinePayload)
  | other

/-- `VerseMembership`. -/
structure VerseMembership where
  verse : Address
  contractHash : Bytes 32
  membershipToken : List UInt8
  contentKey : VerseContentKey

/-- The plaintext of a sealed key, which must have the length of one. -/
def openContentKey (accept : JoinAcceptPayload) (member verse : Address) :
    Except Error VerseContentKey :=
  match accept.sealedContentKey.open member verse accept.keyNonce with
  | .error e => .error (.core e)
  | .ok none => .error (.invariant "verse content key not 32 bytes")
  | .ok (some key) => .ok key

/-- The text a decline is reported with. -/
def declineReason (reason : String) : String :=
  if reason = "contract-version-mismatch" then
    "join declined: contract-version-mismatch"
  else if reason = "missing-required" then "join declined: missing-required"
  else if reason = "forbidden-field" then "join declined: forbidden-field"
  else if reason = "moderator-rejected" then
    "join declined: moderator-rejected"
  else "join declined"

/-- `request_join`, from the response on. -/
def requestJoin (crypto : Crypto) (side : Address)
    (contract : ContractObject) (resp : JoinResponse) :
    Except Error VerseMembership :=
  match resp with
  | .accept (.error e) => .error (.core e)
  | .accept (.ok accept) =>
      match SignedMembershipToken.fromWireBytes crypto
        accept.membershipToken with
      | .error e => .error (.core e)
      | .ok token =>
          if token.verse ≠ contract.verse then
            .error (.invariant "membership-token verse mismatch")
          else if token.contractHash ≠ contract.hash crypto then
            .error (.invariant "membership-token contract mismatch")
          else
            match openContentKey accept side contract.verse with
            | .error e => .error e
            | .ok key =>
                .ok ⟨contract.verse, contract.hash crypto,
                  accept.membershipToken, key⟩
  | .decline (.error e) => .error (.core e)
  | .decline (.ok decline) => .error (.invariant (declineReason decline.reason))
  | .other => .error (.invariant "unexpected join response")

/-- `apply_verse_key_rotation`: the key is replaced and the token's bytes are
taken as they are. -/
def applyVerseKeyRotation (memberSide : Address) (m : VerseMembership)
    (push : Envelope (Except Core.Error JoinAcceptPayload)) :
    Except Error VerseMembership :=
  if push.fromSide ≠ m.verse then
    .error (.invariant "rotation push: from != verse")
  else
    match push.payload with
    | .error e => .error (.core e)
    | .ok accept =>
        match openContentKey accept memberSide m.verse with
        | .error e => .error e
        | .ok key =>
            .ok { m with
              contentKey := key, membershipToken := accept.membershipToken }

/-- The envelope a host makes of a share; `wire` are the bytes of a token
under the verse's signature. -/
def KeyShare.push (wire : MembershipToken → List UInt8) (verse : Address)
    (nonce : Nonce) (share : KeyShare) :
    Envelope (Except Core.Error JoinAcceptPayload) where
  messageType := .joinAccept
  fromSide := verse
  toSide := some share.member
  timestamp := 0
  nonce := nonce
  payload := .ok ⟨wire share.token, nonce,
    .box s(verse, share.member) nonce (some share.key)⟩

/-- A member takes over the key and the token of a push made for it. -/
theorem applyVerseKeyRotation_push {wire : MembershipToken → List UInt8}
    {m : VerseMembership} {nonce : Nonce} {share : KeyShare} :
    applyVerseKeyRotation share.member m (share.push wire m.verse nonce)
      = .ok { m with
        contentKey := share.key, membershipToken := wire share.token } := by
  simp [applyVerseKeyRotation, KeyShare.push, openContentKey,
    SealedContentKey.open]

end Sidevers.Net
