/-
The app's groups (`create_group`, `join_group_by_invite`, `post_to_group`,
`leave_group` in `desktop/tauri/src/main.rs`; `post_to_verse`, `leave_verse`
in `node.rs`): the verse on its moderator's node, and beside it the rows of
`verse_memberships` that the members' apps keep.

# Rows

A row is written when its group is created or joined, and deleted when it is
left. No call of the app takes a push, so nothing else writes one. The side of
a row was made for this one group, so a side has at most one; each app reads
and writes the rows of its own sides, and one table holds them all.

# Steps

A call that talks to the verse has its session opened and served by
`Sidevers.Net.ServeVerse`, so its steps are those of the verse (`within`); the
steps here are the ones that read or write a row. What other programs do on
the verse, its sessions and its moderator is `within` too.

# Where a call dials

A verse is hosted on the primary endpoint of its moderator's node alone:
`host_verse` writes to the map of that endpoint, and `add_side` gives every
further endpoint a map of its own, which stays empty. A verse session on such
an endpoint is closed before anything is read from it, and what is sent to
another node is not read here either. So a call reaches the verse only where
the address of its row, or of its invite, leads to the primary endpoint
(`LeadsTo`). The address that `create_group` writes into the moderator's row and
into the invite is that of the endpoint it made for the moderator's new side.

# What is left out

The seed and the contract's bytes of a moderator's row, which nothing reads,
and the photo's hash. A node that starts again hosts no verse, so a group ends
with the process of its moderator; the verse here is of one process.
-/
import Sidevers.Net.Membership
import Sidevers.Net.ServeVerse

namespace Sidevers.Net

open Sidevers.Core
open Sidevers.Lib

/-- `VerseMembershipRecord`. -/
structure GroupRow where
  membership : VerseMembership
  joinedAt : UInt64
  role : String
  name : Option String
  dialAddr : Option String

/-- `VerseContentKey::seal` of a post: by the key, the nonce and the text. -/
abbrev SealPost := VerseContentKey → Bytes 12 → List UInt8 → List UInt8

/-- `VerseContentKey::open`, of a post. -/
abbrev OpenPost := VerseContentKey → VersePostPayload → Option (List UInt8)

/-- What is sealed under a key opens under that key and no other. -/
def PostSeals (sealPost : SealPost) (openPost : OpenPost) : Prop :=
  ∀ key key' nonce body, openPost key ⟨nonce, sealPost key' nonce body⟩
    = if key = key' then some body else none

/-- The random bytes and the clock of a call. -/
structure CallIo where
  sealNonce : Bytes 12
  nonce : Nonce
  now : UInt64

/-- `post_to_verse`: its envelope. -/
def postToVerse (sealPost : SealPost) (side : Address) (m : VerseMembership)
    (body : List UInt8) (io : CallIo) : Envelope VersePostPayload where
  messageType := .versePost
  fromSide := side
  toSide := some m.verse
  timestamp := io.now.toNat
  nonce := io.nonce
  payload := ⟨io.sealNonce, sealPost m.contentKey io.sealNonce body⟩

/-- A post, as a message of the verse. -/
def postMessage (post : Envelope VersePostPayload) : Envelope VerseMessage :=
  { post with payload := .versePost post.payload }

/-- `leave_verse`, as `leave_group` calls it: its envelope. -/
def leaveVerse (side : Address) (m : VerseMembership) (io : CallIo) :
    Envelope VerseMessage where
  messageType := .verseLeave
  fromSide := side
  toSide := some m.verse
  timestamp := io.now.toNat
  nonce := io.nonce
  payload := .verseLeave ⟨m.verse, side, .retain⟩

-- ================================================================ a group

/-- A group: its verse, the rows of its members, and those that a call has
made and not written yet. -/
structure GroupWorld where
  verse : VerseWorld
  rows : Table Address GroupRow
  unwritten : Table Address GroupRow

/-- A verse that was just hosted, before its moderator is a member. -/
def GroupWorld.init (contract : ContractObject) : GroupWorld :=
  ⟨.init (.new contract), .empty, .empty⟩

/-- What a joining app was told by its invite, and the contract it fetched. -/
structure InviteInfo where
  contract : ContractObject
  name : Option String
  dialAddr : String

/-- Whether a dial of an address, by the app of a side, reaches the endpoint
that the verse is hosted on. -/
abbrev LeadsTo := Address → String → Bool

/-- What can happen to a group. -/
inductive GroupAction where
  /-- Anything on the verse. -/
  | within (a : VerseAction)
  /-- `create_group` makes the moderator a member, whose new endpoint was bound
  to the address. -/
  | create (side : Address) (now : UInt64) (listen : String)
  /-- A join is answered, and `join_group_by_invite` takes the answer. -/
  | join (conn : ConnId) (invite : InviteInfo) (io : CallIo)
  /-- `upsert_verse_membership`, or it fails. -/
  | persist (side : Address) (written : Bool)
  /-- `post_to_group`, over a session of the side if it reaches the verse. -/
  | post (side : Address) (conn : ConnId) (body : List UInt8) (io : CallIo)
  /-- `leave_group`: over a session of the side, if the verse is reached. -/
  | leave (side : Address) (conn : Option ConnId) (io : CallIo)

namespace GroupWorld

variable (crypto : Crypto) (sealPost : SealPost) (openPost : OpenPost)
  (wire : MembershipToken → List UInt8)

/-- The verse takes a step. -/
def onVerse (w : GroupWorld) (a : VerseAction) : Option GroupWorld :=
  (verseStep crypto openPost w.verse a).map fun verse => { w with verse }

/-- `add_local_member` and the moderator's row; `wire` are the bytes of a
token under the verse's signature. -/
def createRow (w : GroupWorld) (side : Address) (now : UInt64)
    (listen : String) : GroupRow :=
  let contract := w.verse.host.contract
  let ((token, key), _) := w.verse.host.addLocalMember crypto side now
  { membership := ⟨contract.verse, contract.hash crypto, wire token, key⟩
    joinedAt := now
    role := "moderator"
    name := some contract.title
    dialAddr := some listen }

/-- The row of a join that `request_join` ended well for. -/
def joinRow (invite : InviteInfo) (m : VerseMembership) (io : CallIo) :
    GroupRow where
  membership := m
  joinedAt := io.now
  role := "member"
  name := invite.name
  dialAddr := some invite.dialAddr

end GroupWorld

/-- The step function of a group. -/
def groupStep (crypto : Crypto) (sealPost : SealPost) (openPost : OpenPost)
    (wire : MembershipToken → List UInt8) (leads : LeadsTo) (w : GroupWorld) :
    GroupAction → Option GroupWorld
  | .within a => w.onVerse crypto openPost a
  | .create side now listen =>
      let row := w.createRow crypto wire side now listen
      (w.onVerse crypto openPost (.addLocalMember side now)).map fun w' =>
        { w' with unwritten := w'.unwritten.insert side row }
  | .join conn invite io =>
      match w.verse.sessions conn with
      | some ⟨side, .joinSend share⟩ =>
          if leads side invite.dialAddr then
            let push := share.push wire w.verse.host.verse io.nonce
            match requestJoin crypto side invite.contract
              (.accept push.payload) with
            | .error _ => none
            | .ok m =>
                let row := GroupWorld.joinRow invite m io
                (w.onVerse crypto openPost (.tick conn (some io.now))).map
                  fun w' => { w' with
                    unwritten := w'.unwritten.insert side row }
          else none
      | _ => none
  | .persist side written =>
      match w.unwritten side with
      | none => none
      | some row =>
          let w := { w with unwritten := w.unwritten.erase side }
          some (if written then { w with rows := w.rows.insert side row }
            else w)
  | .post side conn body io =>
      match w.rows side with
      | none => none
      | some row =>
          if row.dialAddr.any (leads side) then
            match w.verse.sessions conn with
            | some ⟨peer, .accept⟩ =>
                if peer = side then
                  w.onVerse crypto openPost (.receive conn (postMessage
                    (postToVerse sealPost side row.membership body io)))
                else none
            | _ => none
          -- no address, or one where nobody reads it for this verse
          else some w
  | .leave side conn io =>
      match w.rows side with
      | none => none
      | some row =>
          let gone := { w with rows := w.rows.erase side }
          match conn with
          | none => some gone
          | some conn =>
              match w.verse.sessions conn with
              | some ⟨peer, .accept⟩ =>
                  -- a moderator's app tells nobody
                  if peer = side ∧ row.role = "member"
                      ∧ row.dialAddr.any (leads side) then
                    gone.onVerse crypto openPost
                      (.receive conn (leaveVerse side row.membership io))
                  else none
              | _ => none

end Sidevers.Net
