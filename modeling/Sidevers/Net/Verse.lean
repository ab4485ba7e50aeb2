/-
The hosting state of one verse (`verse.rs`, `verse_post_store.rs`).

Every operation here runs under one acquisition of the host's lock (or of
the post store's), so it is one step of whoever calls it. The handlers of
`node.rs`, which take the lock several times, are in `Net.ServeVerse`.

# Content keys

A content key is 32 bytes of the CSPRNG. Keys are told apart by when they
were installed: `VerseContentKey` counts the rotations before it. Sealing is
ideal: a `KeyShare` is the key sealed to `member`, who alone opens it.
-/
import Sidevers.Core.Verse
import Sidevers.Lib.Table

namespace Sidevers.Net

open Sidevers.Core
open Sidevers.Lib

/-- `VerseContentKey`. -/
abbrev VerseContentKey := Nat

/-- A QUIC connection the host accepted. -/
abbrev ConnId := Nat

/-- A `JOIN_ACCEPT`-shaped envelope: the token, and the content key sealed
to the member. -/
structure KeyShare where
  member : Address
  token : MembershipToken
  key : VerseContentKey
  deriving DecidableEq

-- ======================================================== post store

/-- `StoredVersePost`. -/
structure StoredVersePost where
  envelope : Envelope VersePostPayload
  sealedPayload : VersePostPayload
  storedAt : UInt64

/-- `VersePostStore`: verse and author to posts, oldest first. -/
abbrev VersePostStore := Table (Address × Address) (List StoredVersePost)

namespace VersePostStore

/-- The posts of an author. -/
def bucket (store : VersePostStore) (verse author : Address) :
    List StoredVersePost := (store (verse, author)).getD []

/-- `insert`: once per author and nonce. -/
def addPost (store : VersePostStore) (verse author : Address)
    (post : StoredVersePost) : VersePostStore :=
  if (store.bucket verse author).any
      fun p => p.envelope.nonce = post.envelope.nonce then store
  else Table.insert store (verse, author) (store.bucket verse author ++ [post])

/-- `retract_by_author`. -/
def retractByAuthor (store : VersePostStore) (verse author : Address) :
    VersePostStore := Table.erase store (verse, author)

end VersePostStore

-- ============================================================== host

/-- `VerseHost`: the state under the lock, and the post store. -/
structure VerseHost where
  verse : Address
  contract : ContractObject
  contentKey : VerseContentKey
  members : Table Address Unit
  consentedVersions : Table Address UInt64
  activeSessions : Table Address ConnId
  pendingKeyPushes : Table Address KeyShare
  posts : VersePostStore

namespace VerseHost

/-- `VerseHost::new`. -/
def new (contract : ContractObject) : VerseHost where
  verse := contract.verse
  contract := contract
  contentKey := 0
  members := .empty
  consentedVersions := .empty
  activeSessions := .empty
  pendingKeyPushes := .empty
  posts := .empty

/-- `MembershipToken::sign` under the verse's key. -/
def signToken (h : VerseHost) (contractHash : Bytes 32)
    (memberSide : Address) (issuedAt : UInt64) : MembershipToken :=
  ⟨h.verse, contractHash, memberSide, issuedAt⟩

/-- The current content key sealed to a side, with a token. -/
def sealKey (h : VerseHost) (contractHash : Bytes 32) (side : Address)
    (now : UInt64) : KeyShare :=
  ⟨side, h.signToken contractHash side now, h.contentKey⟩

/-- `stash_pending_key_push`: replaces any earlier one. -/
def stashPendingKeyPush (h : VerseHost) (member : Address)
    (share : KeyShare) : VerseHost :=
  { h with pendingKeyPushes := h.pendingKeyPushes.insert member share }

/-- `take_pending_key_push`. -/
def takePendingKeyPush (h : VerseHost) (member : Address) :
    Option KeyShare × VerseHost :=
  (h.pendingKeyPushes member,
    { h with pendingKeyPushes := h.pendingKeyPushes.erase member })

/-- `add_local_member`: no join round trip; the token and the key bytes are
returned. -/
def addLocalMember (crypto : Crypto) (h : VerseHost) (side : Address)
    (issuedAt : UInt64) : (MembershipToken × VerseContentKey) × VerseHost :=
  ((h.signToken (h.contract.hash crypto) side issuedAt, h.contentKey),
    { h with
      members := h.members.insert side ()
      consentedVersions := h.consentedVersions.insert side h.contract.version })

/-- `rotate_content_key`. -/
def rotateContentKey (h : VerseHost) : VerseHost :=
  { h with contentKey := h.contentKey + 1 }

/-- `amend_contract`. -/
def amendContract (h : VerseHost) (contract : ContractObject) : VerseHost :=
  { h with contract }

/-- Why a join request is declined: the first check it fails. -/
def joinProblem (crypto : Crypto) (contract : ContractObject)
    (req : JoinRequestPayload) : Option String :=
  if req.contractHash ≠ contract.hash crypto then
    some "contract-version-mismatch"
  else if contract.required.any fun spec => spec.kind ∉ req.fields.keys then
    some "missing-required"
  else if req.fields.keys.any contract.isForbidden then
    some "forbidden-field"
  else none

/-- The insertion of a joining side. -/
def insertMember (h : VerseHost) (side : Address) (version : UInt64) :
    VerseHost :=
  { h with
    members := h.members.insert side ()
    consentedVersions := h.consentedVersions.insert side version }

/-- The removal of a side, by itself or by a moderator. -/
def removeMember (h : VerseHost) (side : Address) : VerseHost :=
  { h with
    members := h.members.erase side
    consentedVersions := h.consentedVersions.erase side
    activeSessions := h.activeSessions.erase side }

/-- The update of `VERSE_RECONSENT`; `none` if it is refused. -/
def reconsent (crypto : Crypto) (h : VerseHost) (side : Address)
    (contractHash : Bytes 32) : Option VerseHost :=
  if (h.members side).isNone then none
  else if contractHash ≠ h.contract.hash crypto then none
  else some { h with
    consentedVersions := h.consentedVersions.insert side h.contract.version }

/-- The check before a post is taken: a member, at the given version. -/
def admits (h : VerseHost) (side : Address) (version : UInt64) : Bool :=
  (h.members side).isSome && h.consentedVersions side = some version

/-- A session of `peer` registers. -/
def registerSession (h : VerseHost) (peer : Address) (conn : ConnId) :
    VerseHost :=
  { h with activeSessions := h.activeSessions.insert peer conn }

/-- `VerseSessionGuard::drop`, the spawned part. -/
def dropSession (h : VerseHost) (peer : Address) : VerseHost :=
  { h with activeSessions := h.activeSessions.erase peer }

/-- The pushes of `rotate_and_push_verse_key`: a fresh share, under the
current key and the current contract hash, for every member with an active
session. -/
def pushSnapshot (crypto : Crypto) (h : VerseHost) (now : UInt64) :
    Table Address (ConnId × KeyShare) := fun side =>
  match h.activeSessions side, h.members side with
  | some conn, some _ => some (conn, h.sealKey (h.contract.hash crypto) side now)
  | _, _ => none

/-- Nobody is pushed to without an active session. -/
theorem pushSnapshot_of_inactive {crypto : Crypto} {h : VerseHost}
    {now : UInt64} {side : Address} (hside : h.activeSessions side = none) :
    h.pushSnapshot crypto now side = none := by
  unfold pushSnapshot
  rw [hside]

/-- What a push is: the receiver and the key are the host's own. -/
theorem pushSnapshot_eq_some {crypto : Crypto} {h : VerseHost}
    {now : UInt64} {side : Address} {conn : ConnId} {share : KeyShare} :
    h.pushSnapshot crypto now side = some (conn, share)
      ↔ h.activeSessions side = some conn ∧ h.members side ≠ none
        ∧ share = h.sealKey (h.contract.hash crypto) side now := by
  unfold pushSnapshot
  cases hconn : h.activeSessions side with
  | none => simp
  | some c =>
      cases hmem : h.members side with
      | none => simp
      | some u => simp [eq_comm]

end VerseHost

end Sidevers.Net
