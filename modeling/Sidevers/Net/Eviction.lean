/-
`evict_to_budget` with nothing else going on in the store (`object.rs`): the
query for the candidates and the loop over them, each eviction whole.

The statements succeed. Rows that are equal in the query's order come in any
order. `Sidevers.Net.ObjectCalls` has the call cut at its awaits, among
others.
-/
import Sidevers.Net.ObjectCalls

namespace Sidevers.Net

open Sidevers.Core
open Sidevers.Lib

namespace ObjectFiles

/-- Every size is a length: the column is what `put` writes, and a `Vec` is at
most `isize::MAX` bytes long. -/
def Sized (s : ObjectFiles) : Prop := ∀ r ∈ s.rows.rows, 0 ≤ r.2.size

instance (s : ObjectFiles) : Decidable s.Sized :=
  inferInstanceAs (Decidable (∀ r ∈ s.rows.rows, 0 ≤ r.2.size))

/-- WHERE pinned = 0 ORDER BY last_accessed ASC, added_at ASC. -/
def unpinnedRows (order : OrderBy OlderFirst) (s : ObjectFiles) :
    List (Bytes 32 × ObjectRow) :=
  order.sort (s.rows.rows.filter fun r => !r.2.pinned)

/-- What the query says of a candidate. -/
def candidate (r : Bytes 32 × ObjectRow) : Bytes 32 × UInt64 :=
  (r.1, r.2.size.toUInt64)

/-- `evict_one`. -/
def evictOne (s : ObjectFiles) (hash : Bytes 32) : ObjectFiles :=
  match s.blobs hash with
  | some _ => (s.removeBlob hash).deleteObject hash
  | none => s.deleteObject hash

/-- The loop of `evict_to_budget`, from what is still to drop and what it
counts. -/
def evictLoop (s : ObjectFiles) (bytesToDrop : UInt64) (count : Nat)
    (bytes : UInt64) :
    List (Bytes 32 × UInt64) → (Nat × UInt64) × ObjectFiles
  | [] => ((count, bytes), s)
  | (hash, size) :: rest =>
      if bytesToDrop = 0 then ((count, bytes), s)
      else
        evictLoop (s.evictOne hash) (saturatingSub bytesToDrop size)
          (count + 1) (bytes + size) rest

/-- `evict_to_budget`: the objects and the bytes that it evicted. -/
def evictToBudget (order : OrderBy OlderFirst) (s : ObjectFiles) :
    (Nat × UInt64) × ObjectFiles :=
  let budget := s.maxBytes
  if budget = 0 then ((0, 0), s)
  else
    let total := s.totalBytes
    if total ≤ budget then ((0, 0), s)
    else
      s.evictLoop (saturatingSub total budget) 0 0
        ((s.unpinnedRows order).map candidate)

-- ============================================================ the order

theorem olderFirst_iff {r r' : Bytes 32 × ObjectRow} :
    OlderFirst r r' ↔ r.2.lastAccessed.toInt < r'.2.lastAccessed.toInt
      ∨ r.2.lastAccessed.toInt = r'.2.lastAccessed.toInt
        ∧ r.2.addedAt.toInt ≤ r'.2.addedAt.toInt := by
  rw [OlderFirst, Int64.lt_iff_toInt_lt, Int64.le_iff_toInt_le,
    Int64.toInt_inj]

instance : Std.Total OlderFirst where
  total r r' := by
    rw [olderFirst_iff, olderFirst_iff]
    omega

instance : IsTrans (Bytes 32 × ObjectRow) OlderFirst where
  trans r r' r'' h h' := by
    rw [olderFirst_iff] at h h' ⊢
    omega

end ObjectFiles

end Sidevers.Net
