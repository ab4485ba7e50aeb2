/-
The replay guard for envelope nonces (`replay.rs`, protocol spec §3.2).

# The cache as a type

A `ReplayCache` carries what every constructor and operation keeps: at most
one entry a key (it is a hash map), never more than `maxEntries` entries,
and room for at least one. So no operation below re-proves the bound, and a
cache over its cap cannot be built.

# Iteration order

`find_oldest_in` takes the first minimum in the iteration order of a hash
map, which is unspecified. Each observation therefore takes an `IterOrder`:
any function that permutes the entries. Nothing depends on which one.

The eviction policy is sweep-based: a hit does not touch the entry.
-/
import Sidevers.Core.Envelope
import Mathlib.Data.List.MinMax
import Mathlib.Data.List.Nodup

namespace Sidevers.Core

/-- `DEFAULT_TTL_SECS`. -/
def defaultTtlSecs : Nat := 600

/-- `DEFAULT_MAX_ENTRIES`. -/
def defaultMaxEntries : Nat := 16384

/-- What the cache is keyed by: `(from, nonce)`. -/
structure Key where
  fromSide : Address
  nonce : Nonce
  deriving DecidableEq

/-- A cached key and its `first_seen`. -/
abbrev Entry := Key × Nat

/-- A call of the write-through journal. -/
inductive JournalCall where
  | record (key : Key) (firstSeen : Nat)
  | evict (key : Key)
  deriving DecidableEq

/-- An iteration order of a hash map's entries. -/
structure IterOrder where
  order : List Entry → List Entry
  perm : ∀ entries, (order entries).Perm entries

/-- The order the entries are listed in. -/
def IterOrder.listed : IterOrder := ⟨id, fun _ => List.Perm.refl _⟩

/-- `ReplayCache`; the journal is the list of calls made to it, newest
last, when one is attached. -/
structure ReplayCache where
  ttl : Nat
  maxEntries : Nat
  entries : List Entry
  journal : Option (List JournalCall)
  /-- `with_capacity` takes `max_entries.max(1)`. -/
  roomy : 1 ≤ maxEntries
  /-- A hash map holds a key once. -/
  nodup : (entries.map Prod.fst).Nodup
  /-- The cap is enforced before every insert. -/
  bounded : entries.length ≤ maxEntries

namespace ReplayCache

/-- `ReplayCache::with_capacity`. -/
def withCapacity (ttlSecs maxEntries : Nat) : ReplayCache where
  ttl := ttlSecs
  maxEntries := max maxEntries 1
  entries := []
  journal := none
  roomy := Nat.le_max_right ..
  nodup := List.nodup_nil
  bounded := Nat.zero_le _

/-- `ReplayCache::new`. -/
def new : ReplayCache := withCapacity defaultTtlSecs defaultMaxEntries

/-- `set_journal`: entries already present are not replayed into it. -/
def setJournal (c : ReplayCache) : ReplayCache :=
  { c with journal := some [] }

/-- A call of the journal, if one is attached. -/
def journalAppend (c : ReplayCache) (calls : List JournalCall) :
    Option (List JournalCall) :=
  c.journal.map (· ++ calls)

-- ============================================================== sweep

/-- The test `retain` keeps an entry by. -/
def alive (c : ReplayCache) (now : Nat) (e : Entry) : Bool :=
  decide (now - e.2 < c.ttl)

/-- `ReplayCache::sweep`: remove expired entries. -/
def sweep (c : ReplayCache) (now : Nat) : ReplayCache where
  ttl := c.ttl
  maxEntries := c.maxEntries
  entries := c.entries.filter (c.alive now)
  journal := c.journalAppend
    ((c.entries.filter fun e => !c.alive now e).map fun e => .evict e.1)
  roomy := c.roomy
  nodup := c.nodup.sublist (List.filter_sublist.map _)
  bounded := (List.length_filter_le ..).trans c.bounded

-- =========================================================== eviction

/-- `find_oldest_in`: the first minimum in iteration order. -/
def findOldestIn (o : IterOrder) (entries : List Entry) : Option Key :=
  ((o.order entries).argmin Prod.snd).map Prod.fst

/-- Removing a key of a hash map. -/
def removeKey (k : Key) (entries : List Entry) : List Entry :=
  entries.filter fun e => decide (e.1 ≠ k)

/-- The entries once the cap is enforced for one more insert: unchanged
while there is room, without the oldest otherwise. -/
def makeRoom (c : ReplayCache) (o : IterOrder) : List Entry :=
  if c.entries.length < c.maxEntries then c.entries
  else match findOldestIn o c.entries with
    | some oldest => removeKey oldest c.entries
    | none => c.entries

/-- The journal calls of that. -/
def makeRoomCalls (c : ReplayCache) (o : IterOrder) : List JournalCall :=
  if c.entries.length < c.maxEntries then []
  else match findOldestIn o c.entries with
    | some oldest => [.evict oldest]
    | none => []

theorem findOldestIn_mem {o : IterOrder} {entries : List Entry} {k : Key}
    (h : findOldestIn o entries = some k) :
    ∃ e ∈ entries, e.1 = k ∧ ∀ e' ∈ entries, e.2 ≤ e'.2 := by
  simp only [findOldestIn, Option.map_eq_some_iff] at h
  obtain ⟨e, he, rfl⟩ := h
  refine ⟨e, (o.perm entries).mem_iff.mp (List.argmin_mem he), rfl, ?_⟩
  intro e' he'
  exact List.le_of_mem_argmin ((o.perm entries).mem_iff.mpr he') he

/-- A cache with entries has an oldest one. -/
theorem findOldestIn_isSome {o : IterOrder} {entries : List Entry}
    (h : entries ≠ []) : ∃ k, findOldestIn o entries = some k := by
  cases hmin : (o.order entries).argmin Prod.snd with
  | some e => exact ⟨e.1, by simp [findOldestIn, hmin]⟩
  | none =>
      rw [List.argmin_eq_none] at hmin
      have hlen := (o.perm entries).length_eq
      simp only [hmin, List.length_nil] at hlen
      exact absurd (List.length_eq_zero_iff.mp hlen.symm) h

theorem removeKey_sublist (k : Key) (entries : List Entry) :
    (removeKey k entries).Sublist entries := List.filter_sublist

/-- Removing a held key frees a slot. -/
theorem length_removeKey_lt {k : Key} {entries : List Entry} {e : Entry}
    (he : e ∈ entries) (hk : e.1 = k) :
    (removeKey k entries).length < entries.length := by
  refine List.length_filter_lt_length_iff_exists.mpr ⟨e, he, ?_⟩
  simp [hk]

theorem makeRoom_sublist (c : ReplayCache) (o : IterOrder) :
    (c.makeRoom o).Sublist c.entries := by
  unfold makeRoom
  split
  · exact List.Sublist.refl _
  · split
    · exact removeKey_sublist ..
    · exact List.Sublist.refl _

/-- There is room for one entry after the cap is enforced. -/
theorem length_makeRoom_lt (c : ReplayCache) (o : IterOrder) :
    (c.makeRoom o).length < c.maxEntries := by
  unfold makeRoom
  split
  case isTrue h => exact h
  case isFalse h =>
    have hroomy := c.roomy
    have hne : c.entries ≠ [] := by
      intro hnil
      rw [hnil, List.length_nil] at h
      omega
    obtain ⟨k, hk⟩ := findOldestIn_isSome (o := o) hne
    obtain ⟨e, he, hek, -⟩ := findOldestIn_mem hk
    rw [hk]
    exact (length_removeKey_lt he hek).trans_le c.bounded

-- ============================================================ observe

/-- Does the cache hold this key? -/
def holds (c : ReplayCache) (k : Key) : Prop := k ∈ c.entries.map Prod.fst

instance (c : ReplayCache) (k : Key) : Decidable (c.holds k) :=
  inferInstanceAs (Decidable (k ∈ c.entries.map Prod.fst))

/-- The insertion of a vacant key at `now`, the cap enforced first. -/
def insertNew (c : ReplayCache) (o : IterOrder) (now : Nat) (k : Key)
    (hvacant : ¬ c.holds k) : ReplayCache where
  ttl := c.ttl
  maxEntries := c.maxEntries
  entries := (k, now) :: c.makeRoom o
  journal := c.journalAppend (c.makeRoomCalls o ++ [.record k now])
  roomy := c.roomy
  nodup := by
    rw [List.map_cons, List.nodup_cons]
    refine ⟨fun hk => hvacant ?_, c.nodup.sublist
      ((c.makeRoom_sublist o).map _)⟩
    exact ((c.makeRoom_sublist o).map Prod.fst).subset hk
  bounded := c.length_makeRoom_lt o

/-- `ReplayCache::observe`: sweep, then record the pair unless it is held;
`true` means it was (a replay), and then its entry is left alone. -/
def observe (c : ReplayCache) (o : IterOrder) (now : Nat) (k : Key) :
    Bool × ReplayCache :=
  if h : (c.sweep now).holds k then (true, c.sweep now)
  else (false, (c.sweep now).insertNew o now k h)

-- ============================================================ preload

/-- The trimming loop of `preload`: the oldest entries go until the cap is
met. -/
def trim (o : IterOrder) (maxEntries : Nat) : Nat → List Entry → List Entry
  | 0, entries => entries
  | fuel + 1, entries =>
      if entries.length ≤ maxEntries then entries
      else match findOldestIn o entries with
        | some oldest => trim o maxEntries fuel (removeKey oldest entries)
        | none => entries

/-- The hash-map insertions of `preload`: entries past the TTL are skipped
and a later entry of a key replaces an earlier one. -/
def preloadInsert (ttl now : Nat) (entries : List Entry) (e : Entry) :
    List Entry :=
  if now - e.2 ≥ ttl then entries else e :: removeKey e.1 entries

theorem nodup_preloadInsert {ttl now : Nat} {entries : List Entry}
    {e : Entry} (h : (entries.map Prod.fst).Nodup) :
    ((preloadInsert ttl now entries e).map Prod.fst).Nodup := by
  unfold preloadInsert
  split
  · exact h
  · rw [List.map_cons, List.nodup_cons]
    refine ⟨?_, h.sublist ((removeKey_sublist ..).map _)⟩
    simp [removeKey]

theorem nodup_foldl_preloadInsert {ttl now : Nat} {rows : List Entry} :
    ∀ {entries : List Entry}, (entries.map Prod.fst).Nodup →
      ((rows.foldl (preloadInsert ttl now) entries).map Prod.fst).Nodup := by
  induction rows with
  | nil => intro entries h; exact h
  | cons e rows ih => intro entries h; exact ih (nodup_preloadInsert h)

theorem trim_sublist (o : IterOrder) (maxEntries : Nat) :
    ∀ (fuel : Nat) (entries : List Entry),
      (trim o maxEntries fuel entries).Sublist entries := by
  intro fuel
  induction fuel with
  | zero => intro entries; exact List.Sublist.refl _
  | succ fuel ih =>
      intro entries
      unfold trim
      split
      · exact List.Sublist.refl _
      · split
        · exact (ih _).trans (removeKey_sublist ..)
        · exact List.Sublist.refl _

/-- One round of fuel an entry is enough to meet the cap. -/
theorem length_trim_le (o : IterOrder) {maxEntries : Nat} :
    ∀ (fuel : Nat) (entries : List Entry), entries.length ≤ fuel →
      (trim o maxEntries fuel entries).length ≤ maxEntries := by
  intro fuel
  induction fuel with
  | zero =>
      intro entries h
      rw [Nat.le_zero, List.length_eq_zero_iff] at h
      simp [trim, h]
  | succ fuel ih =>
      intro entries h
      unfold trim
      split
      case isTrue hle => exact hle
      case isFalse hgt =>
        have hne : entries ≠ [] := by
          intro hnil
          exact hgt (by simp [hnil])
        obtain ⟨k, hk⟩ := findOldestIn_isSome (o := o) hne
        obtain ⟨e, he, hek, -⟩ := findOldestIn_mem hk
        have hlt := length_removeKey_lt he hek
        rw [hk]
        exact ih _ (by omega)

/-- `ReplayCache::preload`: insert journaled entries of a prior run. No
journal calls. -/
def preload (c : ReplayCache) (o : IterOrder) (now : Nat)
    (rows : List Entry) : ReplayCache where
  ttl := c.ttl
  maxEntries := c.maxEntries
  entries :=
    let entries := rows.foldl (preloadInsert c.ttl now) c.entries
    trim o c.maxEntries entries.length entries
  journal := c.journal
  roomy := c.roomy
  nodup := (nodup_foldl_preloadInsert c.nodup).sublist
    ((trim_sublist ..).map _)
  bounded := length_trim_le o _ _ (Nat.le_refl _)

end ReplayCache

end Sidevers.Core
