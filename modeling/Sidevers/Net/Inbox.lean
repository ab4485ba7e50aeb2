/-
Direct messages between the session that opens them and the user: the bounded
channel of the node (`dm_tx` in `node.rs`), the drain task of the desktop app
and its history (`desktop/tauri/src/main.rs`), and the inbox table
(`inbox_store.rs`).

`opened`, `drained`, `shown` and `lost` are what happened, oldest first; the
code keeps none of them. The process may end at any point: the rows of the
table stay, everything else goes. A failure of the machine, in which SQLite
may lose its last transactions, is left out.

Other tasks may have their connection to the same database; nothing but
`insert` writes to this table.
-/
import Sidevers.Core.Address
import Sidevers.Core.Direct
import Sidevers.Lib.Channel
import Sidevers.Lib.Utf8
import Sidevers.Net.Chunking

namespace Sidevers.Net

open Sidevers.Core
open Sidevers.Lib

/-- `DirectMessageReceived`. -/
structure DirectMessageReceived where
  envelope : SignedEnvelope
  plaintext : List UInt8

-- ============================================================= the table

/-- `InboxEntry`. -/
structure InboxEntry where
  recipient : Address
  sender : Address
  nonce : List UInt8
  wireEnvelope : List UInt8
  plaintext : List UInt8
  receivedAt : UInt64

/-- The primary key: recipient, sender and nonce. -/
abbrev InboxKey := Address × Address × List UInt8

/-- The other columns. -/
structure InboxRow where
  wire : List UInt8
  plaintext : List UInt8
  receivedAt : Int64

/-- `InboxStore`: the table. -/
abbrev InboxStore := Rows InboxKey InboxRow

/-- ORDER BY received_at DESC. -/
def newestFirst (a b : InboxKey × InboxRow) : Prop :=
  b.2.receivedAt ≤ a.2.receivedAt

instance : DecidableRel newestFirst := fun a b =>
  inferInstanceAs (Decidable (b.2.receivedAt ≤ a.2.receivedAt))

instance : Std.Total newestFirst where
  total a b := Int64.le_total b.2.receivedAt a.2.receivedAt

instance : IsTrans (InboxKey × InboxRow) newestFirst where
  trans _ _ _ hab hbc := Int64.le_trans hbc hab

/-- An entry of the list. -/
def entryOfRow (r : InboxKey × InboxRow) : InboxEntry :=
  ⟨r.1.1, r.1.2.1, r.1.2.2, r.2.wire, r.2.plaintext,
    r.2.receivedAt.toUInt64⟩

namespace InboxStore

/-- `insert`; a failure is logged and nothing else. -/
def insert (t : InboxStore) (ok : Bool) (entry : InboxEntry) : InboxStore :=
  if ok then
    t.insertOrIgnore (entry.recipient, entry.sender, entry.nonce)
      ⟨entry.wireEnvelope, entry.plaintext, entry.receivedAt.toInt64⟩
  else t

/-- `list_for`. -/
def listFor (order : OrderBy newestFirst) (t : InboxStore)
    (recipient : Address) : List InboxEntry :=
  (order.sort (t.rows.filter fun r => decide (r.1.1 = recipient))).map
    entryOfRow

end InboxStore

-- ======================================================= what is shown

/-- `InboxDm`. -/
structure InboxDm where
  sender : String
  recipient : String
  plaintext : String
  receivedAt : UInt64
  kind : String
  mediaHashHex : Option String
  mediaSize : Option UInt64
  mediaMime : Option String
  deriving DecidableEq

/-- `decode_dm_plaintext`: kind, text and reference. -/
def decodeDmPlaintext (bytes : List UInt8) :
    String × String × Option Reference :=
  match DirectMessagePayload.decode bytes with
  | .ok payload =>
      let kind := match payload.kind with
        | .text => "text"
        | .image => "image"
        | .voice => "voice"
        | .file => "file"
        | .other _ => "other"
      match payload.body with
      | .text s => (kind, s, none)
      | .referenceBytes refBytes =>
          (kind, "", (Reference.decode refBytes).toOption)
  | .error _ => ("text", lossy bytes, none)

/-- `build_inbox_dm`. -/
def buildInboxDm (sender recipient : String) (plaintextBytes : List UInt8)
    (receivedAt : UInt64) : InboxDm :=
  let (kind, text, mediaRef) := decodeDmPlaintext plaintextBytes
  { sender, recipient
    plaintext := text
    receivedAt, kind
    mediaHashHex := mediaRef.map fun | .mk hash _ _ _ _ => hexEncode hash.val
    mediaSize := mediaRef.map fun | .mk _ size _ _ _ => size
    mediaMime := mediaRef.map fun | .mk _ _ mime _ _ => mime }

/-- The text of a side's address; no crate that implements BIP-350 makes
`encode` panic. -/
def sideText (crate : Bech32) (side : Address) : String :=
  ((WireAddress.mk .side side).encode crate).getD ""

/-- `char::is_whitespace`: Unicode's White_Space. -/
def isWhitespace (c : Char) : Bool :=
  let n := c.toNat
  (9 ≤ n && n ≤ 13) || n = 0x20 || n = 0x85 || n = 0xA0 || n = 0x1680
    || (0x2000 ≤ n && n ≤ 0x200A) || n = 0x2028 || n = 0x2029 || n = 0x202F
    || n = 0x205F || n = 0x3000

/-- `str::trim`. -/
def trim (s : String) : String :=
  .ofList (((s.toList.dropWhile isWhitespace).reverse.dropWhile
    isWhitespace).reverse)

/-- `decode_side_address`. -/
def decodeSideAddress (crate : Bech32) (unicode : Unicode)
    (encoded : String) : Except String Address :=
  match WireAddress.parse crate unicode (trim encoded) with
  | .error e => .error s!"parse side: {e}"
  | .ok addr =>
      if addr.kind ≠ .side then .error "not a side address"
      else .ok addr.key

/-- `load_inbox_history`, where the query does not fail. -/
def loadInboxHistory (crate : Bech32) (unicode : Unicode)
    (order : OrderBy newestFirst) (inbox : Option InboxStore)
    (sideAddress : String) : Except String (List InboxDm) :=
  match inbox with
  | none => .error "node not started"
  | some inbox =>
      match decodeSideAddress crate unicode sideAddress with
      | .error e => .error e
      | .ok side =>
          .ok ((inbox.listFor order side).map fun e =>
            buildInboxDm (sideText crate e.sender)
              (sideText crate e.recipient) e.plaintext e.receivedAt)

-- ============================================================= the drain

/-- The capacity of the channel. -/
def dmChannelCapacity : Nat := 128

/-- A session that opens messages: the life of the process it is in, and its
number there. -/
abbrev DmSource := Nat × Nat

/-- A message the drain task took out, the clock it read for it, and whether
its insert goes through. -/
structure Drained where
  source : DmSource
  dm : DirectMessageReceived
  now : UInt64
  ok : Bool

namespace Drained

/-- What is shown of it. -/
def event (crate : Bech32) (d : Drained) : InboxDm :=
  buildInboxDm (sideText crate d.dm.envelope.fromSide)
    ((d.dm.envelope.toSide.map (sideText crate)).getD "") d.dm.plaintext d.now

/-- What is stored of it: nothing without a recipient. -/
def entry (d : Drained) : Option InboxEntry :=
  d.dm.envelope.toSide.map fun recipient =>
    ⟨recipient, d.dm.envelope.fromSide, d.dm.envelope.nonce.val,
      d.dm.envelope.toWireBytes, d.dm.plaintext, d.now⟩

end Drained

/-- Where the drain task is. -/
inductive DrainPc where
  /-- At `next_direct_message`. -/
  | next
  /-- Before the insert. -/
  | received (source : DmSource) (dm : DirectMessageReceived) (now : UInt64)
  /-- Before the event. -/
  | inserted (d : Drained)

/-- A node with its app, over the lives of the process. -/
structure InboxWorld where
  life : Nat
  channel : Channel DmSource DirectMessageReceived
  drain : DrainPc
  store : InboxStore
  opened : List (DmSource × DirectMessageReceived)
  drained : List Drained
  shown : List (Drained × InboxDm)
  lost : List (DmSource × DirectMessageReceived)

/-- Nothing was ever received. -/
def InboxWorld.init : InboxWorld :=
  ⟨0, .empty, .next, .empty, [], [], [], []⟩

/-- What can happen. -/
inductive InboxAction where
  /-- A session has opened a message and comes to `dm_tx.send`. -/
  | opened (session : Nat) (dm : DirectMessageReceived)
  /-- The message it waits with enters the channel. -/
  | enter (session : Nat)
  /-- The drain task takes the first, and reads the clock. -/
  | receive (now : UInt64)
  /-- `insert`. -/
  | insert (ok : Bool)
  /-- `emit`. -/
  | emit
  /-- The process ends, and is started again. -/
  | quit

/-- What the drain task has in hand. -/
def DrainPc.held : DrainPc → List (DmSource × DirectMessageReceived)
  | .next => []
  | .received source dm _ => [(source, dm)]
  | .inserted d => [(d.source, d.dm)]

/-- The step function. -/
def inboxStep (crate : Bech32) (w : InboxWorld) :
    InboxAction → Option InboxWorld
  | .opened session dm =>
      match w.channel.offer (w.life, session) dm with
      | none => none
      | some channel =>
          some { w with
            channel
            opened := w.opened ++ [((w.life, session), dm)] }
  | .enter session =>
      match w.channel.enter dmChannelCapacity (w.life, session) with
      | none => none
      | some channel => some { w with channel }
  | .receive now =>
      match w.drain, w.channel.receive with
      | .next, some ((source, dm), channel) =>
          some { w with channel, drain := .received source dm now }
      | _, _ => none
  | .insert ok =>
      match w.drain with
      | .received source dm now =>
          let d : Drained := ⟨source, dm, now, ok⟩
          some { w with
            drain := .inserted d
            store := match d.entry with
              | none => w.store
              | some entry => w.store.insert ok entry
            drained := w.drained ++ [d] }
      | _ => none
  | .emit =>
      match w.drain with
      | .inserted d =>
          some { w with
            drain := .next
            shown := w.shown ++ [(d, d.event crate)] }
      | _ => none
  | .quit =>
      some { w with
        life := w.life + 1
        channel := .empty
        drain := .next
        lost := w.lost ++ w.drain.held ++ w.channel.items }

end Sidevers.Net
