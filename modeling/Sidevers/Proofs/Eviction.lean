/-
`evict_to_budget` evicts the fewest of the oldest unpinned objects that bring
the store within its budget.

The loop takes candidates off the front until what is to drop is dropped, so
what it takes is what `shed` takes (`evictLoop_eq`), and each eviction lowers
the total by the size that the query read (`storedBytes_evictAll`). A total that
does not fit the column's type counts as 0: nothing is evicted then. A budget
of 0 is none, and nothing is evicted either (`unbudgeted_kept`).

The sizes are lengths; that is kept by every step of the store
(`sized_reachable`). The call is what `evict_to_budget` comes to among the
store's calls when no other one is there (`evict_undisturbed`).
-/
import Mathlib.Algebra.GroupWithZero.Nat
import Sidevers.Lib.Shed
import Sidevers.Net.Eviction
import Sidevers.Proofs.ObjectCalls

namespace Sidevers.Proofs

open Sidevers.Core
open Sidevers.Lib
open Sidevers.Net

-- ======================================================= the statement

/-- The objects are evicted one after another. -/
def evictAll (s : ObjectFiles) (removed : List (Bytes 32 × ObjectRow)) :
    ObjectFiles := removed.foldl (fun s r => s.evictOne r.1) s

/-- What an eviction did that returned these numbers. -/
structure EvictsLeast (order : OrderBy ObjectFiles.OlderFirst)
    (s s' : ObjectFiles) (count : Nat) (bytes : UInt64) : Prop where
  /-- Rows and blobs of as many candidates as it says are gone, the oldest
  first. -/
  removed : s' = evictAll s ((s.unpinnedRows order).take count)
    ∧ s.rows.rows.Perm ((s.unpinnedRows order).take count ++ s'.rows.rows)
  count_le : count ≤ (s.unpinnedRows order).length
  pinned : ∀ hash row, s.rows.get hash = some row → row.pinned = true →
    s'.rows.get hash = some row ∧ s'.blobs hash = s.blobs hash
  bytes : s.totalBytes.toNat = s'.totalBytes.toNat + bytes.toNat
  enough : s'.totalBytes ≤ s.maxBytes ∨ ∀ r ∈ s'.rows.rows, r.2.pinned = true
  /-- One object fewer would not have been enough. -/
  least : 0 < count → s.maxBytes
    < (evictAll s ((s.unpinnedRows order).take (count - 1))).totalBytes

-- ============================================================ the sizes

/-- The size of a row, as the query reads it. -/
def rowBytes (r : Bytes 32 × ObjectRow) : Nat := r.2.size.toUInt64.toNat

/-- The bytes of all objects. -/
def storedBytes (s : ObjectFiles) : Nat := (s.rows.rows.map rowBytes).sum

theorem toInt_of_nonneg {x : Int64} (h : 0 ≤ x) :
    x.toInt = x.toUInt64.toNat := by
  have hint : (0 : Int) ≤ x.toInt := Int64.le_iff_toInt_le.mp h
  have hcond := BitVec.toInt_eq_toNat_cond x.toBitVec
  have hlt := x.toBitVec.isLt
  change x.toBitVec.toInt = (x.toBitVec.toNat : Int)
  change 0 ≤ x.toBitVec.toInt at hint
  split at hcond
  case isTrue => exact hcond
  case isFalse => omega

theorem foldl_sizes {rows : List (Bytes 32 × ObjectRow)}
    (h : ∀ r ∈ rows, 0 ≤ r.2.size) (sum : Int) :
    rows.foldl (fun sum r => sum + r.2.size.toInt) sum
      = sum + ((rows.map rowBytes).sum : Nat) := by
  induction rows generalizing sum with
  | nil => exact (Int.add_zero sum).symm
  | cons r rest ih =>
      rw [List.foldl_cons, ih fun r' hr' => h r' (List.mem_cons_of_mem _ hr'),
        toInt_of_nonneg (h r List.mem_cons_self), List.map_cons,
        List.sum_cons, Int.natCast_add, Int.add_assoc]
      rfl

/-- The total, if it fits the type of a column. -/
theorem toNat_totalBytes {s : ObjectFiles} (h : s.Sized) :
    s.totalBytes.toNat = if storedBytes s < 2 ^ 63 then storedBytes s else 0 := by
  have hmin : Int64.minValue.toInt = -2 ^ 63 := by decide
  have hmax : Int64.maxValue.toInt = 2 ^ 63 - 1 := by decide
  have hsum : s.rows.rows.foldl (fun sum r => sum + r.2.size.toInt) 0
      = (storedBytes s : Int) := (foldl_sizes h 0).trans (Int.zero_add _)
  simp only [ObjectFiles.totalBytes, hsum, hmin, hmax]
  by_cases hfits : storedBytes s < 2 ^ 63
  · rw [if_pos hfits, if_pos (by omega)]
    show (BitVec.ofInt 64 (storedBytes s)).toNat = storedBytes s
    rw [BitVec.toNat_ofInt]
    omega
  · rw [if_neg hfits, if_neg (by omega)]
    rfl

-- ======================================================== the evictions

section evictions

variable {s : ObjectFiles} {hash : Bytes 32}

@[simp] theorem evictOne_rows :
    (s.evictOne hash).rows = s.rows.delete hash := by
  unfold ObjectFiles.evictOne
  split <;> rfl

/-- The blob is gone, whether or not there was one. -/
@[simp] theorem evictOne_blobs :
    (s.evictOne hash).blobs = s.blobs.erase hash := by
  unfold ObjectFiles.evictOne
  split
  case h_1 => rfl
  case h_2 hnone => exact (Table.erase_eq_self hnone).symm

@[simp] theorem evictAll_nil : evictAll s [] = s := rfl

@[simp] theorem evictAll_cons {r : Bytes 32 × ObjectRow}
    {removed : List (Bytes 32 × ObjectRow)} :
    evictAll s (r :: removed) = evictAll (s.evictOne r.1) removed := rfl

/-- What is not evicted stays. -/
theorem evictAll_others (s : ObjectFiles)
    {removed : List (Bytes 32 × ObjectRow)}
    (h : hash ∉ removed.map Prod.fst) :
    (evictAll s removed).rows.get hash = s.rows.get hash
      ∧ (evictAll s removed).blobs hash = s.blobs hash := by
  induction removed generalizing s with
  | nil => exact ⟨rfl, rfl⟩
  | cons r rest ih =>
      rw [List.map_cons, List.mem_cons, not_or] at h
      obtain ⟨hrows, hblobs⟩ := ih (s.evictOne r.1) h.2
      rw [evictAll_cons, hrows, hblobs, evictOne_rows, evictOne_blobs,
        Rows.get_delete, if_neg h.1, Table.erase_of_ne _ h.1]
      exact ⟨rfl, rfl⟩

/-- The rows are those evicted and those that are left. -/
theorem evictAll_perm {s : ObjectFiles}
    {removed : List (Bytes 32 × ObjectRow)}
    (hmem : ∀ r ∈ removed, r ∈ s.rows.rows)
    (hnodup : (removed.map Prod.fst).Nodup) :
    s.rows.rows.Perm (removed ++ (evictAll s removed).rows.rows) := by
  induction removed generalizing s with
  | nil => exact List.Perm.refl _
  | cons r rest ih =>
      obtain ⟨hkey, hrest⟩ := List.nodup_cons.mp hnodup
      have hperm := Rows.perm_delete (hmem r List.mem_cons_self)
      refine hperm.trans (List.Perm.cons r ?_)
      rw [evictAll_cons, ← evictOne_rows]
      refine ih (fun r' hr' => ?_) hrest
      -- the others have other keys, and are there after the deletion
      have hne : r'.1 ≠ r.1 := fun heq =>
        hkey (heq ▸ List.mem_map_of_mem hr')
      rw [evictOne_rows, ← Rows.get_eq_some_iff (k := r'.1) (v := r'.2),
        Rows.get_delete, if_neg hne, Rows.get_eq_some_iff]
      exact hmem r' (List.mem_cons_of_mem _ hr')

/-- The total goes down by what is evicted. -/
theorem storedBytes_evictAll {s : ObjectFiles}
    {removed : List (Bytes 32 × ObjectRow)}
    (hmem : ∀ r ∈ removed, r ∈ s.rows.rows)
    (hnodup : (removed.map Prod.fst).Nodup) :
    storedBytes s = (removed.map rowBytes).sum
      + storedBytes (evictAll s removed) := by
  unfold storedBytes
  rw [((evictAll_perm hmem hnodup).map rowBytes).sum_eq, List.map_append,
    List.sum_append]

theorem sized_evictAll {s : ObjectFiles}
    {removed : List (Bytes 32 × ObjectRow)} (h : s.Sized)
    (hmem : ∀ r ∈ removed, r ∈ s.rows.rows)
    (hnodup : (removed.map Prod.fst).Nodup) :
    (evictAll s removed).Sized := fun r hr =>
  h r ((evictAll_perm hmem hnodup).mem_iff.mpr (List.mem_append_right _ hr))

end evictions

-- ============================================================= the loop

theorem toNat_saturatingSub (x y : UInt64) :
    (saturatingSub x y).toNat = x.toNat - y.toNat := by
  unfold saturatingSub
  split
  case isTrue hlt =>
    exact (Nat.sub_eq_zero_of_le (UInt64.lt_iff_toNat_lt.mp hlt).le).symm
  case isFalse hle =>
    exact UInt64.toNat_sub_of_le x y (UInt64.not_lt.mp hle)

/-- What the loop takes is what `shed` takes. -/
theorem evictLoop_eq (rows : List (Bytes 32 × ObjectRow)) (s : ObjectFiles)
    (bytesToDrop : UInt64) (count : Nat) (bytes : UInt64)
    (hfits : bytes.toNat + (rows.map rowBytes).sum < 2 ^ 64) :
    let removed := shed rowBytes bytesToDrop.toNat rows
    s.evictLoop bytesToDrop count bytes (rows.map ObjectFiles.candidate)
      = ((count + removed.length,
          UInt64.ofNat (bytes.toNat + (removed.map rowBytes).sum)),
        evictAll s removed) := by
  induction rows generalizing s bytesToDrop count bytes with
  | nil =>
      show ((count, bytes), s) = ((count + 0, UInt64.ofNat (bytes.toNat + 0)), s)
      rw [Nat.add_zero, Nat.add_zero, UInt64.ofNat_toNat]
  | cons r rest ih =>
      dsimp only
      rw [List.map_cons, ObjectFiles.candidate, ObjectFiles.evictLoop]
      by_cases hzero : bytesToDrop = 0
      · rw [if_pos hzero, hzero, UInt64.toNat_zero, shed_zero]
        show _ = ((count + 0, UInt64.ofNat (bytes.toNat + 0)), s)
        rw [Nat.add_zero, Nat.add_zero, UInt64.ofNat_toNat]
      · have hneed : bytesToDrop.toNat ≠ 0 := fun h =>
          hzero (UInt64.toNat_inj.mp h)
        rw [List.map_cons, List.sum_cons] at hfits
        have hbytes : (bytes + r.2.size.toUInt64).toNat
            = bytes.toNat + rowBytes r := by
          have hsize : rowBytes r = r.2.size.toUInt64.toNat := rfl
          rw [UInt64.toNat_add, ← hsize]
          exact Nat.mod_eq_of_lt (by omega)
        have hrest := ih (s.evictOne r.1)
          (saturatingSub bytesToDrop r.2.size.toUInt64) (count + 1)
          (bytes + r.2.size.toUInt64) (by omega)
        rw [toNat_saturatingSub, hbytes] at hrest
        rw [if_neg hzero, hrest, shed_cons rowBytes hneed, List.map_cons,
          List.sum_cons, List.length_cons, evictAll_cons, Nat.add_assoc,
          Nat.add_assoc, Nat.add_comm 1]
        rfl

-- ====================================================== the candidates

section candidates

variable (order : OrderBy ObjectFiles.OlderFirst) {s : ObjectFiles}

theorem mem_unpinnedRows {r : Bytes 32 × ObjectRow} :
    r ∈ s.unpinnedRows order ↔ r ∈ s.rows.rows ∧ r.2.pinned = false := by
  rw [ObjectFiles.unpinnedRows, order.mem_sort, List.mem_filter,
    Bool.not_eq_true']

theorem nodup_unpinnedRows (s : ObjectFiles) :
    ((s.unpinnedRows order).map Prod.fst).Nodup :=
  ((order.perm _).map Prod.fst).nodup_iff.mpr
    (s.rows.nodup.sublist (List.filter_sublist.map _))

/-- The oldest candidates are rows of the table, each with its key. -/
theorem take_unpinnedRows (s : ObjectFiles) (k : Nat) :
    (∀ r ∈ (s.unpinnedRows order).take k, r ∈ s.rows.rows)
      ∧ (((s.unpinnedRows order).take k).map Prod.fst).Nodup :=
  ⟨fun _ hr => ((mem_unpinnedRows order).mp (List.mem_of_mem_take hr)).1,
    (nodup_unpinnedRows order s).sublist ((List.take_sublist _ _).map _)⟩

/-- No pinned object is among them. -/
theorem pinned_not_taken {hash : Bytes 32} {row : ObjectRow}
    (hrow : s.rows.get hash = some row) (hpinned : row.pinned = true)
    (k : Nat) : hash ∉ ((s.unpinnedRows order).take k).map Prod.fst := by
  intro hmem
  obtain ⟨r, hr, rfl⟩ := List.mem_map.mp hmem
  obtain ⟨hrows, hunpinned⟩ := (mem_unpinnedRows order).mp (List.mem_of_mem_take hr)
  obtain rfl := Option.some.inj
    ((Rows.get_eq_some_iff.mpr hrows).symm.trans hrow)
  rw [hpinned] at hunpinned
  cases hunpinned

/-- Where all of them are gone, what is left is pinned. -/
theorem pinned_of_all {k : Nat} (hall : (s.unpinnedRows order).length ≤ k) :
    ∀ r ∈ (evictAll s ((s.unpinnedRows order).take k)).rows.rows,
      r.2.pinned = true := by
  intro r hr
  obtain ⟨hmem, hnodup⟩ := take_unpinnedRows order s k
  have hperm := evictAll_perm hmem hnodup
  refine Bool.of_not_eq_false fun hunpinned => ?_
  have hcandidate : r ∈ (s.unpinnedRows order).take k := by
    rw [List.take_of_length_le hall]
    exact (mem_unpinnedRows order).mpr
      ⟨hperm.mem_iff.mpr (List.mem_append_right _ hr), hunpinned⟩
  -- its key would be there twice
  have hkeys := (hperm.map Prod.fst).nodup_iff.mp s.rows.nodup
  rw [List.map_append, List.nodup_append] at hkeys
  exact hkeys.2.2 _ (List.mem_map_of_mem hcandidate) _
    (List.mem_map_of_mem hr) rfl

/-- The total that is left when the oldest candidates are gone. -/
theorem totalBytes_take (h : s.Sized) (hfits : storedBytes s < 2 ^ 63) (k : Nat) :
    storedBytes s = (((s.unpinnedRows order).take k).map rowBytes).sum
      + (evictAll s ((s.unpinnedRows order).take k)).totalBytes.toNat := by
  obtain ⟨hmem, hnodup⟩ := take_unpinnedRows order s k
  have htotal := storedBytes_evictAll hmem hnodup
  rw [toNat_totalBytes (sized_evictAll h hmem hnodup), if_pos (by omega)]
  exact htotal

end candidates

-- ============================================================= the call

/-- Nothing is evicted. -/
theorem evictsLeast_none {order : OrderBy ObjectFiles.OlderFirst}
    {s : ObjectFiles} (h : s.totalBytes ≤ s.maxBytes) :
    EvictsLeast order s s 0 0 where
  removed := ⟨rfl, List.Perm.refl _⟩
  count_le := Nat.zero_le _
  pinned := fun _ _ hrow _ => ⟨hrow, rfl⟩
  bytes := rfl
  enough := .inl h
  least := fun hpos => absurd hpos (Nat.lt_irrefl 0)

/-- What the loop evicts of a store above its budget. -/
theorem evictsLeast_loop (order : OrderBy ObjectFiles.OlderFirst)
    {s : ObjectFiles} (h : s.Sized) (hover : ¬ s.totalBytes ≤ s.maxBytes) :
    let result := s.evictLoop (saturatingSub s.totalBytes s.maxBytes) 0 0
      ((s.unpinnedRows order).map ObjectFiles.candidate)
    EvictsLeast order s result.2 result.1.1 result.1.2 := by
  have hover : s.maxBytes.toNat < s.totalBytes.toNat :=
    UInt64.lt_iff_toNat_lt.mp (UInt64.not_le.mp hover)
  have htotal := toNat_totalBytes h
  have hfits : storedBytes s < 2 ^ 63 := by
    by_contra hnot
    rw [if_neg hnot] at htotal
    omega
  rw [if_pos hfits] at htotal
  have hall := totalBytes_take order h hfits (s.unpinnedRows order).length
  rw [List.take_length] at hall
  have hloop := evictLoop_eq (s.unpinnedRows order) s
    (saturatingSub s.totalBytes s.maxBytes) 0 0
    (by rw [UInt64.toNat_zero]; omega)
  have htake := List.prefix_iff_eq_take.mp (shed_front rowBytes
    (saturatingSub s.totalBytes s.maxBytes).toNat (s.unpinnedRows order))
  have henough := shed_enough rowBytes
    (saturatingSub s.totalBytes s.maxBytes).toNat (s.unpinnedRows order)
  have hshort := fun k => shed_short (k := k) rowBytes
    (saturatingSub s.totalBytes s.maxBytes).toNat (s.unpinnedRows order)
  rw [toNat_saturatingSub, htotal] at hloop htake henough hshort
  generalize shed rowBytes (storedBytes s - s.maxBytes.toNat)
    (s.unpinnedRows order) = removed at hloop htake henough hshort
  dsimp only
  rw [hloop, UInt64.toNat_zero, Nat.zero_add, Nat.zero_add]
  dsimp only
  have hleft := totalBytes_take order h hfits removed.length
  rw [← htake] at hleft
  have hcount : removed.length ≤ (s.unpinnedRows order).length := by
    rw [htake]
    exact List.length_take_le' _ _
  exact {
    removed := by
      rw [← htake]
      obtain ⟨hmem, hnodup⟩ := take_unpinnedRows order s removed.length
      rw [← htake] at hmem hnodup
      exact ⟨rfl, evictAll_perm hmem hnodup⟩
    count_le := hcount
    pinned := by
      intro hash row hrow hpinned
      have hnot := pinned_not_taken order hrow hpinned removed.length
      rw [← htake] at hnot
      obtain ⟨hrows, hblobs⟩ := evictAll_others s hnot
      exact ⟨hrows.trans hrow, hblobs⟩
    bytes := by
      have hsmall : (removed.map rowBytes).sum < 2 ^ 64 := by omega
      rw [UInt64.toNat_ofNat_of_lt' hsmall, htotal, hleft, Nat.add_comm]
    enough := by
      rcases henough with hfreed | hall
      · left
        rw [UInt64.le_iff_toNat_le]
        omega
      · right
        have hpinned := pinned_of_all order (s := s) (k := removed.length)
          (hall ▸ Nat.le_refl _)
        rwa [← htake] at hpinned
    least := by
      intro hpos
      have hsum := hshort (removed.length - 1) (by omega)
      have hleft := totalBytes_take order h hfits
        (removed.length - 1)
      rw [UInt64.lt_iff_toNat_lt]
      omega }

/-- Without a budget nothing is evicted. Within one nothing is either; above
it, the fewest of the oldest unpinned objects that are enough. -/
theorem eviction_least (order : OrderBy ObjectFiles.OlderFirst)
    (s : ObjectFiles) (h : s.Sized) :
    (s.maxBytes = 0 → s.evictToBudget order = ((0, 0), s))
      ∧ (s.maxBytes ≠ 0 →
        EvictsLeast order s (s.evictToBudget order).2
          (s.evictToBudget order).1.1 (s.evictToBudget order).1.2) := by
  refine ⟨fun hzero => if_pos hzero, fun hbudget => ?_⟩
  unfold ObjectFiles.evictToBudget
  dsimp only
  rw [if_neg hbudget]
  by_cases hover : s.totalBytes ≤ s.maxBytes
  · rw [if_pos hover]
    exact evictsLeast_none hover
  · rw [if_neg hover]
    exact evictsLeast_loop order h hover

/-- A row of 100 bytes that nobody has pinned. -/
def smallRow : ObjectRow :=
  ⟨100, some (List.replicate 100 0xAA), false, 0, 0⟩

/-- Three of them under a budget of 150 bytes. -/
def threeObjects : ObjectFiles where
  rows := ⟨[(Bytes.fill 32 1, smallRow), (Bytes.fill 32 2, smallRow),
    (Bytes.fill 32 3, smallRow)], by decide⟩
  blobs := .empty
  maxBytes := 150
  unixNow := 0

/-- Two have to go. -/
theorem eviction_least_three :
    (threeObjects.evictToBudget (.stable _)).1 = (2, 200)
      ∧ EvictsLeast (.stable _) threeObjects
        (threeObjects.evictToBudget (.stable _)).2
        (threeObjects.evictToBudget (.stable _)).1.1
        (threeObjects.evictToBudget (.stable _)).1.2 :=
  ⟨by decide +kernel,
    (eviction_least (.stable _) threeObjects (by decide)).2 (by decide)⟩

/-- One object where no budget is set. -/
def oneObject : ObjectFiles where
  rows := ⟨[(Bytes.fill 32 1, smallRow)], by decide⟩
  blobs := .empty
  maxBytes := defaultMaxBytes
  unixNow := 0

/-- It stays, unpinned and above the budget of 0. -/
theorem unbudgeted_kept :
    (oneObject.evictToBudget (.stable _)).1 = (0, 0)
      ∧ ¬ EvictsLeast (.stable _) oneObject
        (oneObject.evictToBudget (.stable _)).2
        (oneObject.evictToBudget (.stable _)).1.1
        (oneObject.evictToBudget (.stable _)).1.2 := by
  refine ⟨by decide +kernel, fun h => ?_⟩
  rcases h.enough with hwithin | hpinned
  · revert hwithin
    decide +kernel
  · revert hpinned
    decide +kernel

-- ===================================================== what put writes

/-- What is put is a `Vec`. -/
def PutsVec : ObjectCall → Prop
  | .put bytes | .putInline bytes _ | .putBlob bytes _ | .putRow bytes _ =>
      bytes.length < 2 ^ 63
  | _ => True

/-- The same of the calls that begin. -/
def BeginsVec : ObjectAction → Prop
  | .calls (.begin request) => PutsVec request.begin
  | _ => True

theorem putsVec_next (loop : EvictLoop) : PutsVec loop.next := by
  unfold EvictLoop.next
  split
  · exact trivial
  · split <;> exact trivial

theorem putsVec_verified (crypto : Crypto) (hash : Bytes 32)
    (bytes : List UInt8) : PutsVec (.verified crypto hash bytes) := by
  unfold ObjectCall.verified
  split <;> exact trivial

section sized

variable {crypto : Crypto} {s s' : ObjectFiles} {call call' : ObjectCall}

theorem putsVec_resume (h : PutsVec call)
    (hnext : call.resume crypto s = some (s', call')) : PutsVec call' := by
  cases call with
  | put bytes =>
      simp only [ObjectCall.resume] at hnext
      split at hnext
      · obtain ⟨-, rfl⟩ := Prod.mk.inj (Option.some.inj hnext)
        exact h
      · obtain ⟨-, rfl⟩ := Prod.mk.inj (Option.some.inj hnext)
        exact h
  | putBlob bytes now =>
      obtain ⟨-, rfl⟩ := Prod.mk.inj (Option.some.inj hnext)
      exact h
  | evictCandidates budget total =>
      obtain ⟨-, rfl⟩ := Prod.mk.inj (Option.some.inj hnext)
      exact putsVec_next _
  | evictRow hash loop =>
      cases loop with
      | none =>
          obtain ⟨-, rfl⟩ := Prod.mk.inj (Option.some.inj hnext)
          exact trivial
      | some loop =>
          obtain ⟨-, rfl⟩ := Prod.mk.inj (Option.some.inj hnext)
          exact putsVec_next loop
  | get hash =>
      simp only [ObjectCall.resume] at hnext
      split at hnext
      · obtain ⟨-, rfl⟩ := Prod.mk.inj (Option.some.inj hnext)
        exact trivial
      · split at hnext
        · obtain ⟨-, rfl⟩ := Prod.mk.inj (Option.some.inj hnext)
          exact putsVec_verified crypto hash _
        · obtain ⟨-, rfl⟩ := Prod.mk.inj (Option.some.inj hnext)
          exact trivial
  | getBlob hash =>
      simp only [ObjectCall.resume] at hnext
      split at hnext
      · obtain ⟨-, rfl⟩ := Prod.mk.inj (Option.some.inj hnext)
        exact putsVec_verified crypto hash _
      · obtain ⟨-, rfl⟩ := Prod.mk.inj (Option.some.inj hnext)
        exact trivial
  | evictToBudget | evictTotal budget | evictOne hash loop =>
      simp only [ObjectCall.resume] at hnext
      split at hnext
      · obtain ⟨-, rfl⟩ := Prod.mk.inj (Option.some.inj hnext)
        exact trivial
      · obtain ⟨-, rfl⟩ := Prod.mk.inj (Option.some.inj hnext)
        exact trivial
  | setMaxBytes maxBytes | putInline bytes now | putRow bytes now
  | evictBlob hash loop | getTouch hash bytes | pin hash | unpin hash =>
      obtain ⟨-, rfl⟩ := Prod.mk.inj (Option.some.inj hnext)
      exact trivial
  | returned value => cases hnext

/-- An UPDATE that leaves the sizes. -/
theorem sized_update (h : s.Sized) {hash : Bytes 32}
    {f : ObjectRow → ObjectRow} (hf : ∀ row, (f row).size = row.size) :
    ∀ r ∈ (s.rows.update hash f).rows, 0 ≤ r.2.size := by
  intro r hr
  obtain ⟨row, hrow, hsame | hupdated⟩ := Rows.mem_update hr
  · exact hsame ▸ h _ hrow
  · rw [hupdated, hf]
    exact h _ hrow

theorem sized_insertObject (h : s.Sized) {bytes : List UInt8}
    (hbytes : bytes.length < 2 ^ 63) (inline : Option (List UInt8))
    (now : UInt64) : (s.insertObject crypto bytes inline now).Sized := by
  intro r hr
  rcases Rows.mem_insertOrIgnore hr with hr | rfl
  · exact h r hr
  · show (0 : Int64) ≤ (UInt64.ofNat bytes.length).toInt64
    rw [Int64.le_iff_toInt_le]
    show 0 ≤ (BitVec.ofNat 64 bytes.length).toInt
    have hsmall : 2 * (BitVec.ofNat 64 bytes.length).toNat < 2 ^ 64 := by
      rw [BitVec.toNat_ofNat]
      omega
    rw [BitVec.toInt_eq_toNat_of_lt hsmall]
    exact Int.natCast_nonneg _

theorem sized_move (h : s.Sized) (hputs : PutsVec call)
    (hmove : ObjectMove crypto s call s' call') : s'.Sized := by
  cases hmove with
  | looks hrows => 
      intro r hr
      exact h r (hrows ▸ hr)
  | collects budget total loop => exact h
  | inserts bytes inline hcall =>
      rcases hcall with ⟨rfl, -⟩ | ⟨rfl, -⟩
      · exact sized_insertObject h hputs _ _
      · exact sized_insertObject h hputs _ _
  | writes bytes now => exact h
  | removes hash loop => exact h
  | deletes hash loop => exact fun r hr => h r (List.mem_of_mem_filter hr)
  | touches hash bytes => exact sized_update h fun _ => rfl
  | pins hash => exact sized_update h fun _ => rfl
  | unpins hash => exact sized_update h fun _ => rfl

end sized

/-- Every size is a length, and so is every size still to be written. -/
structure SizedInv (w : ObjectTasks) : Prop where
  sized : w.shared.Sized
  calls : ∀ call ∈ w.tasks, PutsVec call

theorem sized_step (crypto : Crypto) (w : ObjectTasks) (a : ObjectAction)
    (w' : ObjectTasks) (hok : BeginsVec a) (hinv : SizedInv w)
    (h : objectStep crypto w a = some w') : SizedInv w' := by
  cases a with
  | calls a =>
      rcases tasksStep_cases h with ⟨request, rfl, rfl⟩
        | ⟨i, call, s', call', rfl, hcall, hnext, rfl⟩
      · refine ⟨hinv.sized, fun call hmem => ?_⟩
        rcases List.mem_append.mp hmem with hmem | hmem
        · exact hinv.calls call hmem
        · obtain rfl := List.mem_singleton.mp hmem
          exact hok
      · have hputs := hinv.calls call (List.mem_of_getElem? hcall)
        refine ⟨sized_move hinv.sized hputs (.of_resume hnext),
          fun other hmem => ?_⟩
        rcases List.mem_or_eq_of_mem_set hmem with hmem | rfl
        · exact hinv.calls other hmem
        · exact putsVec_resume hputs hnext
  | clock now =>
      obtain rfl := Option.some.inj h
      exact ⟨hinv.sized, hinv.calls⟩
  | crash =>
      obtain rfl := Option.some.inj h
      exact ⟨hinv.sized, nofun⟩

/-- In every state of the store the sizes are lengths. -/
theorem sized_reachable (crypto : Crypto) {acts : List ObjectAction}
    {w : ObjectTasks}
    (halong : Along (objectStep crypto) (fun _ a => BeginsVec a) .init acts)
    (hrun : run (objectStep crypto) .init acts = some w) :
    w.shared.Sized :=
  (run_induct (fun w a w' => sized_step crypto w a w') halong
    ⟨nofun, nofun⟩ hrun).sized

-- ========================================================= undisturbed

section undisturbed

variable (crypto : Crypto)

/-- A call by itself goes on. -/
theorem run_resume_alone {s s' : ObjectFiles} {call call' : ObjectCall}
    (h : call.resume crypto s = some (s', call')) (n : Nat) :
    run (objectStep crypto) ⟨s, [call]⟩
        (List.replicate (n + 1) (.calls (.resume 0)))
      = run (objectStep crypto) ⟨s', [call']⟩
        (List.replicate n (.calls (.resume 0))) :=
  run_resume rfl h _

/-- An eviction of the loop, whole. -/
theorem evictOne_undisturbed (s : ObjectFiles) (hash : Bytes 32)
    (loop : EvictLoop) (n : Nat) :
    ∃ m, run (objectStep crypto) ⟨s, [.evictOne hash (some loop)]⟩
        (List.replicate m (.calls (.resume 0)))
      = run (objectStep crypto) ⟨s.evictOne hash, [loop.next]⟩
        (List.replicate n (.calls (.resume 0))) := by
  have hrow (s : ObjectFiles) : ObjectCall.resume crypto s
      (.evictRow hash (some loop)) = some (s.deleteObject hash, loop.next) :=
    rfl
  cases hblob : s.blobs hash with
  | none =>
      have hlook : ObjectCall.resume crypto s (.evictOne hash (some loop))
          = some (s, .evictRow hash (some loop)) := by
        simp only [ObjectCall.resume, hblob]
      refine ⟨n + 2, ?_⟩
      rw [run_resume_alone crypto hlook, run_resume_alone crypto (hrow s)]
      simp only [ObjectFiles.evictOne, hblob]
  | some blob =>
      have hlook : ObjectCall.resume crypto s (.evictOne hash (some loop))
          = some (s, .evictBlob hash (some loop)) := by
        simp only [ObjectCall.resume, hblob]
      have hremove : ObjectCall.resume crypto s (.evictBlob hash (some loop))
          = some (s.removeBlob hash, .evictRow hash (some loop)) := rfl
      refine ⟨n + 3, ?_⟩
      rw [run_resume_alone crypto hlook, run_resume_alone crypto hremove,
        run_resume_alone crypto (hrow _)]
      simp only [ObjectFiles.evictOne, hblob]

/-- The loop by itself. -/
theorem evictLoop_undisturbed (candidates : List (Bytes 32 × UInt64))
    (s : ObjectFiles) (bytesToDrop : UInt64) (count : Nat) (bytes : UInt64) :
    ∃ n, run (objectStep crypto)
        ⟨s, [EvictLoop.next ⟨candidates, bytesToDrop, count, bytes⟩]⟩
        (List.replicate n (.calls (.resume 0)))
      = some ⟨(s.evictLoop bytesToDrop count bytes candidates).2,
          [.returned (.evicted
            (s.evictLoop bytesToDrop count bytes candidates).1.1
            (s.evictLoop bytesToDrop count bytes candidates).1.2)]⟩ := by
  induction candidates generalizing s bytesToDrop count bytes with
  | nil => exact ⟨0, rfl⟩
  | cons candidate rest ih =>
      by_cases hzero : bytesToDrop = 0
      · refine ⟨0, ?_⟩
        simp only [EvictLoop.next, ObjectFiles.evictLoop, if_pos hzero,
          List.replicate_zero, run_nil]
      · obtain ⟨n, hn⟩ := ih (s.evictOne candidate.1)
          (saturatingSub bytesToDrop candidate.2) (count + 1)
          (bytes + candidate.2)
        obtain ⟨m, hm⟩ := evictOne_undisturbed crypto s candidate.1 _ n
        refine ⟨m, ?_⟩
        simp only [EvictLoop.next, ObjectFiles.evictLoop, if_neg hzero]
        exact hm.trans hn

/-- `evict_to_budget`, called when nothing else is at work. -/
theorem evict_undisturbed (s : ObjectFiles) :
    ∃ n, run (objectStep crypto) ⟨s, [.evictToBudget]⟩
        (List.replicate n (.calls (.resume 0)))
      = some ⟨(s.evictToBudget (.stable _)).2,
          [.returned (.evicted (s.evictToBudget (.stable _)).1.1
            (s.evictToBudget (.stable _)).1.2)]⟩ := by
  unfold ObjectFiles.evictToBudget
  dsimp only
  by_cases hbudget : s.maxBytes = 0
  · have hbegin : ObjectCall.resume crypto s .evictToBudget
        = some (s, .returned (.evicted 0 0)) := if_pos hbudget
    refine ⟨1, ?_⟩
    rw [run_resume_alone crypto hbegin, if_pos hbudget]
    rfl
  · have hbegin : ObjectCall.resume crypto s .evictToBudget
        = some (s, .evictTotal s.maxBytes) := if_neg hbudget
    rw [if_neg hbudget]
    by_cases hover : s.totalBytes ≤ s.maxBytes
    · have htotal : ObjectCall.resume crypto s (.evictTotal s.maxBytes)
          = some (s, .returned (.evicted 0 0)) := if_pos hover
      refine ⟨2, ?_⟩
      rw [run_resume_alone crypto hbegin, run_resume_alone crypto htotal,
        if_pos hover]
      rfl
    · have htotal : ObjectCall.resume crypto s (.evictTotal s.maxBytes)
          = some (s, .evictCandidates s.maxBytes s.totalBytes) :=
        if_neg hover
      have hcandidates : ObjectCall.resume crypto s
          (.evictCandidates s.maxBytes s.totalBytes)
          = some (s, EvictLoop.next ⟨s.candidates,
            saturatingSub s.totalBytes s.maxBytes, 0, 0⟩) := rfl
      obtain ⟨n, hn⟩ := evictLoop_undisturbed crypto s.candidates s
        (saturatingSub s.totalBytes s.maxBytes) 0 0
      refine ⟨n + 3, ?_⟩
      rw [run_resume_alone crypto hbegin, run_resume_alone crypto htotal,
        run_resume_alone crypto hcandidates, if_neg hover]
      exact hn

end undisturbed

end Sidevers.Proofs
