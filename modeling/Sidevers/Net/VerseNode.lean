/-
A node that hosts several verses (`serve_verse` in `node.rs`): which of them
a message of a Verse session is handled by.

# Sessions

A session takes a snapshot of the hosted verses when it begins: the verses,
an index from the hash of each one's contract, and a default, the lowest
address. It registers with each of them and then handles one message at a
time, so on each verse it is a session of `Net.ServeVerse`; `hosts` has its
number there. A message is dispatched on one of them, and only when the
session waits for a message on all.

# What is left out

Hosting an address twice replaces its host; here a verse is hosted once.
-/
import Sidevers.Net.ServeVerse

namespace Sidevers.Net

open Sidevers.Core
open Sidevers.Lib

/-- What a session took from the hosted verses when it began. -/
structure VerseRouting where
  /-- The hosted verses, with the session's number on each. -/
  hosts : List (Address × ConnId)
  /-- `contract_hash_index` -/
  index : Table (Bytes 32) Address
  defaultAddr : Address

namespace VerseRouting

/-- The choice of the default: the lowest address. -/
def lowest : List Address → Option Address :=
  List.foldl (fun cur addr =>
    match cur with
    | none => some addr
    | some c => if addr.val < c.val then some addr else some c) none

/-- `hosts.get(addr)`, for the address. -/
def hosted (r : VerseRouting) (verse : Address) : Bool :=
  r.hosts.any fun h => h.1 = verse

/-- The verse that handles a message, `none` if it is ignored. -/
def route (r : VerseRouting) (env : Envelope VerseMessage) :
    Option Address :=
  match env.payload with
  | .contractFetch => some r.defaultAddr
  | .joinRequest req =>
      some (((r.index req.contractHash).filter r.hosted).getD r.defaultAddr)
  | .versePost _ => some ((env.toSide.filter r.hosted).getD r.defaultAddr)
  | .verseLeave leave =>
      if leave.side ≠ env.fromSide then none
      else if r.hosted leave.verse then some leave.verse
      else none
  | .verseRemove remove =>
      if r.hosted remove.verse then some remove.verse else none
  | .verseReconsent _ => some r.defaultAddr
  | .other => none

end VerseRouting

/-- A node's hosted verses and the sessions on them. -/
structure VerseNode where
  /-- The keys of `hosted_verses`, in the map's order. -/
  hosted : List Address
  verses : Table Address VerseWorld
  sessions : Table Nat VerseRouting
  nextId : Nat

/-- A node that hosts nothing yet. -/
def VerseNode.init : VerseNode := ⟨[], .empty, .empty, 0⟩

/-- What can happen on a node. -/
inductive VerseNodeAction where
  /-- `host_verse`, with a contract of a verse not hosted yet. -/
  | host (contract : ContractObject)
  | openSession (peer : Address)
  | receive (session : Nat) (env : Envelope VerseMessage)
  /-- Anything else that happens on one of the verses. -/
  | within (verse : Address) (a : VerseAction)

namespace VerseNode

/-- The snapshot a session begins with; `none` if nothing is hosted. -/
def snapshot (crypto : Crypto) (n : VerseNode) : Option VerseRouting :=
  (VerseRouting.lowest n.hosted).map fun defaultAddr =>
    { hosts := n.hosted.filterMap fun v =>
        (n.verses v).map fun w => (v, w.nextId)
      index := n.hosted.foldl (fun index v =>
        match n.verses v with
        | some w => index.insert (w.host.contract.hash crypto) v
        | none => index) .empty
      defaultAddr }

/-- The session waits for a message on every verse. -/
def waiting (n : VerseNode) (r : VerseRouting) : Bool :=
  r.hosts.all fun h =>
    match n.verses h.1 with
    | some w =>
        match w.sessions h.2 with
        | some ⟨_, .accept⟩ => true
        | _ => false
    | none => false

/-- A verse moves on. -/
def setVerse (n : VerseNode) (verse : Address) (w : VerseWorld) :
    VerseNode := { n with verses := n.verses.insert verse w }

end VerseNode

/-- The step function of a node. -/
def verseNodeStep (crypto : Crypto)
    (openPost : VerseContentKey → VersePostPayload → Option (List UInt8))
    (n : VerseNode) : VerseNodeAction → Option VerseNode
  | .host contract =>
      match n.verses contract.verse with
      | some _ => none
      | none => some { n.setVerse contract.verse (.init (.new contract)) with
          hosted := n.hosted ++ [contract.verse] }
  | .openSession peer =>
      match n.snapshot crypto with
      | none => some n
      | some r => some { n with
          verses := fun v => (n.verses v).bind fun w =>
            verseStep crypto openPost w (.openSession peer)
          sessions := n.sessions.insert n.nextId r
          nextId := n.nextId + 1 }
  | .receive session env =>
      match n.sessions session with
      | none => none
      | some r =>
          if !n.waiting r then none
          else
            match r.route env with
            | none => some n
            | some v =>
                match n.verses v, r.hosts.lookup v with
                | some w, some conn =>
                    (verseStep crypto openPost w (.receive conn env)).map
                      (n.setVerse v)
                | _, _ => none
  | .within verse a =>
      match a with
      | .openSession _ => none
      | .receive _ _ => none
      | a =>
          match n.verses verse with
          | none => none
          | some w => (verseStep crypto openPost w a).map (n.setVerse verse)

end Sidevers.Net
