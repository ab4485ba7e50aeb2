/-
The replay cache's journal (`replay_journal.rs`) and the restart of a cache
from it (`Node::start`).

The table's rows are what was there when the journal was attached, changed by
every call since; `ReplayCache.journal` has the calls. A write does not fail
here. A restart reads the rows back in an order of SQLite's choosing.
-/
import Sidevers.Core.Replay
import Mathlib.Algebra.Group.Nat.Defs

namespace Sidevers.Net

open Sidevers.Core

-- ============================================================ columns

/-- `as i64`. -/
def asI64 (t : Nat) : Int64 := (UInt64.ofNat t).toInt64

/-- `as u64`. -/
def asU64 (i : Int64) : Nat := i.toUInt64.toNat

theorem asU64_asI64 {t : Nat} (h : t < 2 ^ 63) : asU64 (asI64 t) = t := by
  simp only [asU64, asI64, UInt64.toUInt64_toInt64]
  exact UInt64.toNat_ofNat_of_lt' (h.trans (by decide))

theorem asI64_inj {s t : Nat} (hs : s < 2 ^ 63) (ht : t < 2 ^ 63)
    (h : asI64 s = asI64 t) : s = t := by
  rw [← asU64_asI64 hs, h, asU64_asI64 ht]

theorem asI64_lt_iff {s t : Nat} (hs : s < 2 ^ 63) (ht : t < 2 ^ 63) :
    asI64 s < asI64 t ↔ s < t := by
  rw [Int64.lt_iff_toInt_lt, asI64, asI64, UInt64.toInt64_ofNat',
    UInt64.toInt64_ofNat', Int64.toInt_ofNat_of_lt hs,
    Int64.toInt_ofNat_of_lt ht]
  omega

-- =========================================================== the table

/-- A row of `replay_journal`: the primary key and `first_seen`. -/
abbrev JournalRow := Key × Int64

/-- The order a SELECT without ORDER BY returns rows in. -/
structure SelectOrder where
  order : List JournalRow → List JournalRow
  perm : ∀ rows, (order rows).Perm rows

/-- `SqliteReplayJournal`'s statements: `record` is an INSERT OR REPLACE,
`evict` a DELETE. -/
def applyCall (rows : List JournalRow) : JournalCall → List JournalRow
  | .record key firstSeen =>
      (key, asI64 firstSeen) :: rows.filter fun r => decide (r.1 ≠ key)
  | .evict key => rows.filter fun r => decide (r.1 ≠ key)

/-- The first statement of `load_active`: delete what is past the TTL. -/
def dropStale (now ttl : Nat) (rows : List JournalRow) : List JournalRow :=
  rows.filter fun r => !decide (r.2 < asI64 (now - ttl))

/-- The second one, decoded. -/
def selectRows (select : SelectOrder) (rows : List JournalRow) : List Entry :=
  (select.order rows).map fun r => (r.1, asU64 r.2)

-- ================================================== a journaled cache

/-- A cache with its journal: the calls are in the cache, `base` is what the
table had when the journal was attached. -/
structure JournaledCache where
  cache : ReplayCache
  base : List JournalRow

namespace JournaledCache

/-- The table now. -/
def rows (c : JournaledCache) : List JournalRow :=
  (c.cache.journal.getD []).foldl applyCall c.base

/-- A new cache with a new journal. -/
def start (ttl maxEntries : Nat) : JournaledCache :=
  ⟨(ReplayCache.withCapacity ttl maxEntries).setJournal, []⟩

/-- `observe`. -/
def observe (c : JournaledCache) (o : IterOrder) (now : Nat) (key : Key) :
    Bool × JournaledCache :=
  let seen := c.cache.observe o now key
  (seen.1, { c with cache := seen.2 })

/-- `sweep`. -/
def sweep (c : JournaledCache) (now : Nat) : JournaledCache :=
  { c with cache := c.cache.sweep now }

/-- What `Node::start` does: `load_active`, `preload` into a fresh cache with
the same TTL and capacity, `set_journal`. -/
def restart (c : JournaledCache) (o : IterOrder) (select : SelectOrder)
    (now : Nat) : JournaledCache :=
  let rows := dropStale now c.cache.ttl c.rows
  let fresh := ReplayCache.withCapacity c.cache.ttl c.cache.maxEntries
  ⟨(fresh.preload o now (selectRows select rows)).setJournal, rows⟩

end JournaledCache

-- ============================================================== a run

/-- A call of the cache, or a restart. -/
inductive CacheCall where
  | observe (now : Nat) (key : Key)
  | sweep (now : Nat)
  | restart (select : SelectOrder) (now : Nat)

namespace CacheCall

/-- When. -/
def now : CacheCall → Nat
  | observe now _ => now
  | sweep now => now
  | restart _ now => now

/-- Not a restart. -/
def isCall : CacheCall → Bool
  | restart _ _ => false
  | _ => true

end CacheCall

/-- The cache after a call, and what an `observe` returned. -/
def JournaledCache.step (o : IterOrder) (c : JournaledCache) :
    CacheCall → Option Bool × JournaledCache
  | .observe now key =>
      let seen := c.observe o now key
      (some seen.1, seen.2)
  | .sweep now => (none, c.sweep now)
  | .restart select now => (none, c.restart o select now)

/-- The cache after a sequence of calls. -/
def JournaledCache.steps (o : IterOrder) (c : JournaledCache) :
    List CacheCall → JournaledCache
  | [] => c
  | call :: rest => (c.step o call).2.steps o rest

/-- What the `observe` calls of a sequence return, in turn. -/
def JournaledCache.answers (o : IterOrder) (c : JournaledCache) :
    List CacheCall → List Bool
  | [] => []
  | call :: rest =>
      (c.step o call).1.toList ++ (c.step o call).2.answers o rest

end Sidevers.Net
