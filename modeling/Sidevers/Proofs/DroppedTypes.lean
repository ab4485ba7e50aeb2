/-
Envelopes of a type that receivers silently drop, put into a session's stream.

No intent accepts such a type, so `accept_one` fails on it (`read_droppable`)
and the loop returns its error: the envelope is not dropped, the session is.
Only where no loop is left to read it does it go unnoticed.
-/
import Sidevers.Net.ServeLoops
import Sidevers.Net.Serving
import Sidevers.Proofs.SignedForms

namespace Sidevers.Proofs

open Sidevers.Core
open Sidevers.Core.Cbor
open Sidevers.Lib
open Sidevers.Net

-- ============================================================ the property

/-- The ranges that receivers drop. -/
def DropRange (c : MessageCategory) : Prop := c = .reserved ∨ c = .extension

instance (c : MessageCategory) : Decidable (DropRange c) :=
  inferInstanceAs (Decidable (_ ∨ _))

/-- A stream with a validly signed envelope of such a type. -/
structure Droppable (crypto : Crypto) (ι : Type) extends Incoming ι where
  bytes : List UInt8
  env : SignedEnvelope
  arrives : toIncoming.stream = .ok bytes
  signed : recvEnvelope crypto bytes = .ok env
  droppable : DropRange env.messageType.category

/-- The node beside the loop of the session. -/
abbrev Beside (σ : Type) := ReputationTable × Gate × σ

/-- What comes in turn: a stream, one that was inserted, or anything else that
happens on the node. -/
inductive StreamItem (crypto : Crypto) (σ ι : Type) where
  | arrives (x : Incoming ι)
  | inserted (x : Droppable crypto ι)
  | elsewhere (f : Beside σ → Beside σ)

section streams

variable {crypto : Crypto} {σ ι : Type}

/-- The item is not an insertion. -/
def StreamItem.isOwn : StreamItem crypto σ ι → Bool
  | .inserted _ => false
  | _ => true

/-- The inserted envelope, if it is one. -/
def StreamItem.insertedEnv : StreamItem crypto σ ι → Option SignedEnvelope
  | .inserted x => some x.env
  | _ => none

/-- The node after an item. -/
def serveItem (intent : Intent) (arm : Arm σ ι) (w : Served σ) :
    StreamItem crypto σ ι → Served σ
  | .arrives x => serveOne crypto intent arm w x
  | .inserted x => serveOne crypto intent arm w x.toIncoming
  | .elsewhere f =>
      let (reputation, gate, rest) := f (w.reputation, w.gate, w.rest)
      { w with reputation, gate, rest }

/-- The node after a stream of items. -/
def serveAll (intent : Intent) (arm : Arm σ ι) (w : Served σ)
    (items : List (StreamItem crypto σ ι)) : Served σ :=
  items.foldl (serveItem intent arm) w

/-- The first node is the second but for the senders' own tokens and replay
entries: the session served or not alike, the same envelopes handled. -/
structure SameBut (dropped : List SignedEnvelope) (w w' : Served σ) :
    Prop where
  loop : w.loop = w'.loop
  handled : w.handled = w'.handled
  rest : w.rest = w'.rest
  refused : ∀ peer, w.reputation.isRefused peer = w'.reputation.isRefused peer
  reputation : ∀ peer, (∀ env ∈ dropped, env.fromSide ≠ peer) →
    w.reputation.inner peer = w'.reputation.inner peer
  replay : ∀ entry, (∀ env ∈ dropped, replayKey (received env) ≠ entry.1) →
    (entry ∈ w.gate.replay.entries ↔ entry ∈ w'.gate.replay.entries)

theorem SameBut.refl (dropped : List SignedEnvelope) (w : Served σ) :
    SameBut dropped w w :=
  ⟨rfl, rfl, rfl, fun _ => rfl, fun _ _ => rfl, fun _ _ => Iff.rfl⟩

/-- The insertions are dropped: at every point of the stream the node is as
without those so far. -/
def InsertionsDropped (intent : Intent) (arm : Arm σ ι) (w : Served σ)
    (items : List (StreamItem crypto σ ι)) : Prop :=
  ∀ pre post, pre ++ post = items →
    SameBut (pre.filterMap StreamItem.insertedEnv) (serveAll intent arm w pre)
      (serveAll intent arm w (pre.filter StreamItem.isOwn))

theorem filter_inserted (x : Droppable crypto ι) :
    ([.inserted x] : List (StreamItem crypto σ ι)).filter StreamItem.isOwn
      = [] := rfl

theorem filter_own {item : StreamItem crypto σ ι} (h : item.isOwn = true) :
    [item].filter StreamItem.isOwn = [item] := by
  simp [h]

-- =============================================================== one round

/-- No session takes an envelope of such a type. -/
theorem accepts_droppable (intent : Intent) {mt : MessageType}
    (h : DropRange mt.category) : intent.accepts mt = false := by
  unfold Intent.accepts
  rcases h with h | h
  · rw [h]
    cases intent <;> rfl
  · rw [h]
    cases intent <;> rfl

/-- Reading it fails. -/
theorem read_droppable (intent : Intent) (x : Droppable crypto ι) :
    acceptStream crypto intent x.stream
      = .error (.net (.wrongIntent x.env.messageType.byte intent.asU8)) := by
  unfold acceptStream acceptOne
  rw [x.arrives]
  dsimp only
  rw [x.signed]
  dsimp only
  rw [accepts_droppable intent x.droppable]
  rfl

/-- The loop that reads it returns. -/
theorem serve_droppable {intent : Intent} {arm : Arm σ ι} {w : Served σ}
    (hserving : w.loop = .serving) (x : Droppable crypto ι) :
    (serveOne crypto intent arm w x.toIncoming).loop
      = .returned (.error (.net (.wrongIntent x.env.messageType.byte
        intent.asU8))) := by
  unfold serveOne
  rw [hserving]
  dsimp only
  rw [read_droppable intent x]
  rfl

/-- A loop that has returned reads nothing. -/
theorem serveOne_returned {intent : Intent} {arm : Arm σ ι} {w : Served σ}
    (hreturned : w.loop ≠ .serving) (x : Incoming ι) :
    serveOne crypto intent arm w x = w := by
  unfold serveOne
  split
  case h_1 => rfl
  case h_2 hserving => exact absurd hserving hreturned

-- ============================================================= the theorem

theorem serveAll_concat (intent : Intent) (arm : Arm σ ι) (w : Served σ)
    (items : List (StreamItem crypto σ ι)) (item : StreamItem crypto σ ι) :
    serveAll intent arm w (items ++ [item])
      = serveItem intent arm (serveAll intent arm w items) item := by
  unfold serveAll
  rw [List.foldl_append]
  rfl

/-- Where no loop reads an insertion, the node is as without them. -/
theorem serveAll_unread {intent : Intent} {arm : Arm σ ι} {w : Served σ}
    {items : List (StreamItem crypto σ ι)}
    (hunread : ∀ pre x post, pre ++ .inserted x :: post = items →
      (serveAll intent arm w pre).loop ≠ .serving) :
    serveAll intent arm w items
      = serveAll intent arm w (items.filter StreamItem.isOwn) := by
  induction items using List.reverseRecOn with
  | nil => rfl
  | append_singleton items item ih =>
      have hsame := ih fun pre x post heq => by
        apply hunread pre x (post ++ [item])
        rw [← heq, List.append_assoc, List.cons_append]
      rw [serveAll_concat, List.filter_append]
      cases item with
      | inserted x =>
          rw [filter_inserted, List.append_nil, ← hsame]
          exact serveOne_returned (hunread items x [] rfl) x.toIncoming
      | arrives x => rw [filter_own rfl, serveAll_concat, hsame]
      | elsewhere f => rw [filter_own rfl, serveAll_concat, hsame]

/-- On a session of any intent, from any state of the node, the insertions are
dropped iff none of them is read while the session is served. -/
theorem insertions_dropped_iff (intent : Intent) (arm : Arm σ ι)
    (w : Served σ) (items : List (StreamItem crypto σ ι)) :
    InsertionsDropped intent arm w items
      ↔ ∀ pre x post, pre ++ .inserted x :: post = items →
        (serveAll intent arm w pre).loop ≠ .serving := by
  constructor
  · intro h pre x post heq hserving
    have hbefore := (h pre (.inserted x :: post) heq).loop
    have hafter := (h (pre ++ [.inserted x]) post
      (by rw [← heq, List.append_assoc, List.singleton_append])).loop
    rw [serveAll_concat, List.filter_append, filter_inserted, List.append_nil,
      ← hbefore, hserving] at hafter
    rw [show serveItem intent arm _ (.inserted x) = serveOne crypto intent arm
      _ x.toIncoming from rfl, serve_droppable hserving x] at hafter
    cases hafter
  · intro h pre post heq
    rw [serveAll_unread fun pre' x post' heq' => by
      apply h pre' x (post' ++ post)
      rw [← heq, ← heq', List.append_assoc, List.cons_append]]
    exact .refl _ _

end streams

-- ===================================================== an extension message

/-- A node whose Direct session has just begun. -/
def servedNode : Served (ServingNode Crypto.legible) where
  reputation := .new .default
  gate := .new
  rest :=
    { side := Signer.legible (Bytes.fill 32 1), seed := Bytes.fill 32 0
      profile := none, lifecycle := .active, relationships := []
      retiredSeen := [], coHolders := [], pendingPairings := .empty
      store := .empty, peers := [], verses := .empty }
  loop := .start .direct false
  handled := []

/-- What the peer signs, at second 5. -/
def peerEnvelope (messageType : MessageType) (nonce : UInt8) :
    SignedEnvelope :=
  .signWith messageType (Signer.legible (Bytes.fill 32 2))
    (some (Bytes.fill _ 1)) (Bytes.fill 32 1).val 5 (Bytes.fill _ nonce)

/-- It arrives in that second. -/
def peerIncoming (env : SignedEnvelope) : Incoming ServeIo where
  stream := (sendEnvelope env).mapError fun _ => .other
  meterClock := some 5
  checkClock := some 5
  order := .listed
  io := ⟨fun _ => 5, fun _ => Bytes.fill _ 0⟩

def profileAsked : SignedEnvelope := peerEnvelope .profileFetch 1

def vendorEnvelope : SignedEnvelope := peerEnvelope ⟨0xF0⟩ 2

/-- The vendor's message, validly signed. -/
def vendorInserted : Droppable Crypto.legible ServeIo where
  toIncoming := peerIncoming vendorEnvelope
  bytes := toBeBytes 4 (UInt64.ofNat vendorEnvelope.toWireBytes.length)
    ++ vendorEnvelope.toWireBytes
  env := vendorEnvelope
  arrives := by decide +kernel
  signed := by decide +kernel
  droppable := by decide

/-- The node after the items, its requests answered. -/
def servedAfter (items : List (StreamItem Crypto.legible
    (ServingNode Crypto.legible) ServeIo)) :
    Served (ServingNode Crypto.legible) :=
  serveAll .direct (requestArm (fun plain _ _ _ _ => .ok plain) .direct)
    servedNode items

/-- A vendor extension before a PROFILE_FETCH ends the session; without it, the
request is handled and the session goes on. -/
theorem extension_ends_session :
    (servedAfter [.inserted vendorInserted,
        .arrives (peerIncoming profileAsked)]).loop
        = .returned (.error (.net (.wrongIntent 0xF0 1)))
      ∧ (servedAfter [.inserted vendorInserted,
        .arrives (peerIncoming profileAsked)]).handled = []
      ∧ (servedAfter [.arrives (peerIncoming profileAsked)]).loop = .serving
      ∧ (servedAfter [.arrives (peerIncoming profileAsked)]).handled
        = [profileAsked]
      ∧ ¬ InsertionsDropped .direct
        (requestArm (fun plain _ _ _ _ => .ok plain) .direct) servedNode
        [.inserted vendorInserted, .arrives (peerIncoming profileAsked)] := by
  have hends : (servedAfter [.inserted vendorInserted,
      .arrives (peerIncoming profileAsked)]).loop
      = .returned (.error (.net (.wrongIntent 0xF0 1))) := by
    decide +kernel
  have hserves : (servedAfter [.arrives (peerIncoming profileAsked)]).loop
      = .serving := by
    decide +kernel
  refine ⟨hends, by decide +kernel, hserves, by decide +kernel, fun h => ?_⟩
  have hsame := (h _ [] (List.append_nil _)).loop
  cases hends.symm.trans (hsame.trans hserves)

end Sidevers.Proofs
