/-
The object store under calls at once (`object.rs`): the table in SQLite, the
blobs on disk, and what a call does between two awaits.

A statement, a blob written and a blob removed are one step each, and so is
the look that decides whether to remove one. A blob's path is the hex of its
hash, so the blobs are keyed by it; the directories are left out. What a
call does by itself is in `Sidevers.Net.Endpoint` (`ObjectStore`).
-/
import Mathlib.Data.List.Sort
import Sidevers.Lib.Rows
import Sidevers.Lib.Tasks
import Sidevers.Net.Endpoint
import Sidevers.Net.Relationships

namespace Sidevers.Net

open Sidevers.Core
open Sidevers.Lib

/-- `INLINE_MAX`. -/
def inlineMax : Nat := 4096

/-- `DEFAULT_MAX_BYTES`. -/
def defaultMaxBytes : UInt64 := 0

/-- A row of `objects`. -/
structure ObjectRow where
  size : Int64
  inline : Option (List UInt8)
  pinned : Bool
  addedAt : Int64
  lastAccessed : Int64
  deriving DecidableEq

/-- `Inner`: the table, the blobs and the budget; and the clock. -/
structure ObjectFiles where
  rows : Rows (Bytes 32) ObjectRow
  blobs : Table (Bytes 32) (List UInt8)
  maxBytes : UInt64
  unixNow : UInt64

namespace ObjectFiles

/-- `open` in an empty directory. -/
def init : ObjectFiles := ⟨.empty, .empty, defaultMaxBytes, 0⟩

/-- `has`. -/
def has (s : ObjectFiles) (hash : Bytes 32) : Bool := (s.rows.get hash).isSome

/-- `total_bytes`. A sum that overflows fails the query, which counts as 0. -/
def totalBytes (s : ObjectFiles) : UInt64 :=
  let sum := s.rows.rows.foldl (fun sum r => sum + r.2.size.toInt) 0
  if Int64.minValue.toInt ≤ sum ∧ sum ≤ Int64.maxValue.toInt then
    (Int64.ofInt sum).toUInt64
  else 0

/-- ORDER BY last_accessed ASC, added_at ASC. -/
def OlderFirst (r r' : Bytes 32 × ObjectRow) : Prop :=
  r.2.lastAccessed < r'.2.lastAccessed
    ∨ r.2.lastAccessed = r'.2.lastAccessed ∧ r.2.addedAt ≤ r'.2.addedAt

instance : DecidableRel OlderFirst := fun _ _ =>
  inferInstanceAs (Decidable (_ ∨ _))

/-- The unpinned objects and their sizes, oldest first. -/
def candidates (s : ObjectFiles) : List (Bytes 32 × UInt64) :=
  ((s.rows.rows.filter fun r => !r.2.pinned).insertionSort OlderFirst).map
    fun r => (r.1, r.2.size.toUInt64)

/-- The INSERT OR IGNORE of `put`. -/
def insertObject (crypto : Crypto) (s : ObjectFiles) (bytes : List UInt8)
    (inline : Option (List UInt8)) (now : UInt64) : ObjectFiles :=
  let row : ObjectRow :=
    { size := (UInt64.ofNat bytes.length).toInt64, inline, pinned := false
      addedAt := now.toInt64, lastAccessed := now.toInt64 }
  { s with rows := s.rows.insertOrIgnore (crypto.blake3 bytes) row }

/-- `fs::write` to the blob's path. -/
def writeBlob (crypto : Crypto) (s : ObjectFiles) (bytes : List UInt8) :
    ObjectFiles :=
  { s with blobs := s.blobs.insert (crypto.blake3 bytes) bytes }

/-- `fs::remove_file` at the blob's path; an error is ignored. -/
def removeBlob (s : ObjectFiles) (hash : Bytes 32) : ObjectFiles :=
  { s with blobs := s.blobs.erase hash }

/-- The DELETE of `evict_one`. -/
def deleteObject (s : ObjectFiles) (hash : Bytes 32) : ObjectFiles :=
  { s with rows := s.rows.delete hash }

/-- The UPDATE of `pin` and of `unpin`. -/
def setPinned (s : ObjectFiles) (hash : Bytes 32) (pinned : Bool) :
    ObjectFiles :=
  { s with rows := s.rows.update hash fun row => { row with pinned } }

/-- `touch_last_accessed`. -/
def touch (s : ObjectFiles) (hash : Bytes 32) : ObjectFiles :=
  let accessed (row : ObjectRow) :=
    { row with lastAccessed := s.unixNow.toInt64 }
  { s with rows := s.rows.update hash accessed }

end ObjectFiles

-- =========================================================== the calls

/-- What is left of the loop of `evict_to_budget`, and what it returns. -/
structure EvictLoop where
  candidates : List (Bytes 32 × UInt64)
  bytesToDrop : UInt64
  count : Nat
  bytes : UInt64
  deriving DecidableEq

/-- What a call returns. -/
inductive ObjectReturn where
  | unit
  | hash (hash : Bytes 32)
  | evicted (count : Nat) (bytes : UInt64)
  | object (bytes : Option (List UInt8))
  /-- No blob to read. -/
  | io
  | hashMismatch (expected got : Bytes 32)
  deriving DecidableEq

/-- A call at its next step. -/
inductive ObjectCall where
  | setMaxBytes (maxBytes : UInt64)
  | put (bytes : List UInt8)
  | putInline (bytes : List UInt8) (now : UInt64)
  | putBlob (bytes : List UInt8) (now : UInt64)
  | putRow (bytes : List UInt8) (now : UInt64)
  | evictToBudget
  | evictTotal (budget : UInt64)
  | evictCandidates (budget total : UInt64)
  /-- `evict_one`: `path.exists`, `remove_file`, DELETE. In the loop it comes
  with what is left of it. -/
  | evictOne (hash : Bytes 32) (loop : Option EvictLoop)
  | evictBlob (hash : Bytes 32) (loop : Option EvictLoop)
  | evictRow (hash : Bytes 32) (loop : Option EvictLoop)
  | get (hash : Bytes 32)
  | getBlob (hash : Bytes 32)
  | getTouch (hash : Bytes 32) (bytes : List UInt8)
  | pin (hash : Bytes 32)
  | unpin (hash : Bytes 32)
  | returned (value : ObjectReturn)
  deriving DecidableEq

/-- The calls. -/
inductive ObjectRequest where
  | setMaxBytes (maxBytes : UInt64)
  | put (bytes : List UInt8)
  | evictToBudget
  | evictOne (hash : Bytes 32)
  | get (hash : Bytes 32)
  | pin (hash : Bytes 32)
  | unpin (hash : Bytes 32)

/-- A call that has not done anything. -/
def ObjectRequest.begin : ObjectRequest → ObjectCall
  | .setMaxBytes maxBytes => .setMaxBytes maxBytes
  | .put bytes => .put bytes
  | .evictToBudget => .evictToBudget
  | .evictOne hash => .evictOne hash none
  | .get hash => .get hash
  | .pin hash => .pin hash
  | .unpin hash => .unpin hash

/-- The loop of `evict_to_budget` up to its next eviction, which it counts
ahead. -/
def EvictLoop.next (loop : EvictLoop) : ObjectCall :=
  match loop.candidates with
  | [] => .returned (.evicted loop.count loop.bytes)
  | (hash, size) :: rest =>
      if loop.bytesToDrop = 0 then
        .returned (.evicted loop.count loop.bytes)
      else
        .evictOne hash (some
          { candidates := rest
            bytesToDrop := saturatingSub loop.bytesToDrop size
            count := loop.count + 1
            bytes := loop.bytes + size })

/-- `verify_hash`, and then `touch_last_accessed`. -/
def ObjectCall.verified (crypto : Crypto) (hash : Bytes 32)
    (bytes : List UInt8) : ObjectCall :=
  if crypto.blake3 bytes = hash then .getTouch hash bytes
  else .returned (.hashMismatch hash (crypto.blake3 bytes))

/-- A call up to the end of its next step, `none` when it has returned. -/
def ObjectCall.resume (crypto : Crypto) (s : ObjectFiles) :
    ObjectCall → Option (ObjectFiles × ObjectCall)
  | .setMaxBytes maxBytes => some ({ s with maxBytes }, .returned .unit)
  | .put bytes =>
      if bytes.length ≤ inlineMax then some (s, .putInline bytes s.unixNow)
      else some (s, .putBlob bytes s.unixNow)
  | .putInline bytes now =>
      some (s.insertObject crypto bytes (some bytes) now,
        .returned (.hash (crypto.blake3 bytes)))
  | .putBlob bytes now => some (s.writeBlob crypto bytes, .putRow bytes now)
  | .putRow bytes now =>
      some (s.insertObject crypto bytes none now,
        .returned (.hash (crypto.blake3 bytes)))
  | .evictToBudget =>
      if s.maxBytes = 0 then some (s, .returned (.evicted 0 0))
      else some (s, .evictTotal s.maxBytes)
  | .evictTotal budget =>
      if s.totalBytes ≤ budget then some (s, .returned (.evicted 0 0))
      else some (s, .evictCandidates budget s.totalBytes)
  | .evictCandidates budget total =>
      let loop : EvictLoop :=
        { candidates := s.candidates
          bytesToDrop := saturatingSub total budget, count := 0, bytes := 0 }
      some (s, loop.next)
  | .evictOne hash loop =>
      match s.blobs hash with
      | some _ => some (s, .evictBlob hash loop)
      | none => some (s, .evictRow hash loop)
  | .evictBlob hash loop => some (s.removeBlob hash, .evictRow hash loop)
  | .evictRow hash loop =>
      match loop with
      | none => some (s.deleteObject hash, .returned .unit)
      | some loop => some (s.deleteObject hash, loop.next)
  | .get hash =>
      match s.rows.get hash with
      | none => some (s, .returned (.object none))
      | some row =>
          match row.inline with
          | some bytes => some (s, .verified crypto hash bytes)
          | none => some (s, .getBlob hash)
  | .getBlob hash =>
      match s.blobs hash with
      | some bytes => some (s, .verified crypto hash bytes)
      | none => some (s, .returned .io)
  | .getTouch hash bytes => some (s.touch hash, .returned (.object (some bytes)))
  | .pin hash => some (s.setPinned hash true, .returned .unit)
  | .unpin hash => some (s.setPinned hash false, .returned .unit)
  | .returned _ => none

-- ============================================================ the steps

/-- The store with its calls. -/
abbrev ObjectTasks := Tasks ObjectFiles ObjectCall

/-- What can happen: a call begins or goes on, the clock has moved, or the
process stops and the store is opened again. -/
inductive ObjectAction where
  | calls (a : TasksAction ObjectRequest)
  | clock (now : UInt64)
  | crash

/-- The effect of an action. A crash takes the calls and the budget. -/
def objectStep (crypto : Crypto) (w : ObjectTasks) :
    ObjectAction → Option ObjectTasks
  | .calls a => tasksStep ObjectRequest.begin (ObjectCall.resume crypto) w a
  | .clock now => some { w with shared := { w.shared with unixNow := now } }
  | .crash => some ⟨{ w.shared with maxBytes := defaultMaxBytes }, []⟩

/-- A store opened in an empty directory. -/
def ObjectTasks.init : ObjectTasks := ⟨.init, []⟩

end Sidevers.Net
