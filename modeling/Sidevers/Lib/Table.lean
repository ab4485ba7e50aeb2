/-
Keyed tables as partial functions: what a hash map or a SQL table with a
primary key holds, with the order of its rows left out.

`insert` and `erase` are `Function.update`; the simp lemmas below are the
whole interface, so no proof elsewhere unfolds a table.
-/
import Mathlib.Logic.Function.Basic

namespace Sidevers.Lib

universe u v

/-- A table from keys to rows. -/
abbrev Table (K : Type u) (V : Type v) := K → Option V

namespace Table

variable {K : Type u} {V : Type v}

/-- The table without rows. -/
def empty : Table K V := fun _ => none

@[simp] theorem empty_apply (k : K) : (empty : Table K V) k = none := rfl

variable [DecidableEq K]

/-- Insert or replace the row of `k`. -/
def insert (t : Table K V) (k : K) (v : V) : Table K V :=
  Function.update t k (some v)

/-- Delete the row of `k`, if there is one. -/
def erase (t : Table K V) (k : K) : Table K V := Function.update t k none

@[simp] theorem insert_self (t : Table K V) (k : K) (v : V) :
    t.insert k v k = some v := Function.update_self ..

@[simp] theorem insert_of_ne (t : Table K V) {k k' : K} (v : V)
    (h : k' ≠ k) : t.insert k v k' = t k' := Function.update_of_ne h ..

@[simp] theorem erase_self (t : Table K V) (k : K) :
    t.erase k k = none := Function.update_self ..

@[simp] theorem erase_of_ne (t : Table K V) {k k' : K} (h : k' ≠ k) :
    t.erase k k' = t k' := Function.update_of_ne h ..

theorem insert_apply (t : Table K V) (k k' : K) (v : V) :
    t.insert k v k' = if k' = k then some v else t k' :=
  Function.update_apply ..

theorem erase_apply (t : Table K V) (k k' : K) :
    t.erase k k' = if k' = k then none else t k' :=
  Function.update_apply ..

/-- The rows after an insertion: the new one, and the others as before. -/
theorem insert_eq_some_iff (t : Table K V) {k k' : K} {v v' : V} :
    t.insert k v k' = some v' ↔ k' = k ∧ v = v' ∨ k' ≠ k ∧ t k' = some v' := by
  rw [insert_apply]
  by_cases h : k' = k <;> simp [h]

/-- The rows after a deletion: the others as before. -/
theorem erase_eq_some_iff (t : Table K V) {k k' : K} {v : V} :
    t.erase k k' = some v ↔ k' ≠ k ∧ t k' = some v := by
  rw [erase_apply]
  by_cases h : k' = k <;> simp [h]

/-- A key is held after an insertion iff it is the inserted one or was
held before. -/
@[simp] theorem insert_ne_none_iff (t : Table K V) (k k' : K) (v : V) :
    t.insert k v k' ≠ none ↔ k' = k ∨ t k' ≠ none := by
  rw [insert_apply]
  by_cases h : k' = k <;> simp [h]

/-- A key is held after a deletion iff it is another one and was held
before. -/
@[simp] theorem erase_ne_none_iff (t : Table K V) (k k' : K) :
    t.erase k k' ≠ none ↔ k' ≠ k ∧ t k' ≠ none := by
  rw [erase_apply]
  by_cases h : k' = k <;> simp [h]

/-- A row that is there already. -/
theorem insert_eq_self {t : Table K V} {k : K} {v : V} (h : t k = some v) :
    t.insert k v = t := by
  funext k'
  rw [insert_apply]
  by_cases hk : k' = k
  · rw [if_pos hk, hk, h]
  · rw [if_neg hk]

/-- Deleting a row, however it was last written. -/
theorem erase_insert (t : Table K V) (k : K) (v : V) :
    (t.insert k v).erase k = t.erase k := Function.update_idem ..

/-- Deleting no row. -/
theorem erase_eq_self {t : Table K V} {k : K} (h : t k = none) :
    t.erase k = t := Function.update_eq_self_iff.mpr h.symm

-- ================================================================ maps

variable {W : Type*}

/-- The rows, each through the function. -/
def map (t : Table K V) (f : V → W) : Table K W := fun k => (t k).map f

theorem map_insert (t : Table K V) (f : V → W) (k : K) (v : V) :
    (t.insert k v).map f = (t.map f).insert k (f v) := by
  funext k'
  unfold map
  rw [insert_apply, insert_apply]
  by_cases hk : k' = k
  · rw [if_pos hk, if_pos hk, Option.map_some]
  · rw [if_neg hk, if_neg hk]

theorem map_erase (t : Table K V) (f : V → W) (k : K) :
    (t.erase k).map f = (t.map f).erase k := by
  funext k'
  unfold map
  rw [erase_apply, erase_apply]
  by_cases hk : k' = k
  · rw [if_pos hk, if_pos hk, Option.map_none]
  · rw [if_neg hk, if_neg hk]

-- ================================================== insert or ignore

/-- Insert unless the key is held (`INSERT OR IGNORE`). -/
def insertOrIgnore (t : Table K V) (k : K) (v : V) : Table K V :=
  match t k with
  | none => t.insert k v
  | some _ => t

@[simp] theorem insertOrIgnore_of_ne (t : Table K V) {k k' : K} (v : V)
    (h : k' ≠ k) : t.insertOrIgnore k v k' = t k' := by
  unfold insertOrIgnore
  cases t k with
  | none => exact insert_of_ne t v h
  | some _ => rfl

/-- The key is held afterwards, whatever its row. -/
@[simp] theorem insertOrIgnore_self_ne_none (t : Table K V) (k : K)
    (v : V) : t.insertOrIgnore k v k ≠ none := by
  unfold insertOrIgnore
  cases hk : t k with
  | none => simp
  | some w => simp [hk]

/-- A new key is held with its row. -/
theorem insertOrIgnore_of_none {t : Table K V} {k : K} (v : V)
    (h : t k = none) : t.insertOrIgnore k v k = some v := by
  unfold insertOrIgnore
  rw [h]
  exact insert_self ..

/-- What is held stays. -/
theorem insertOrIgnore_of_some {t : Table K V} {k' : K} {w : V} (k : K)
    (v : V) (h : t k' = some w) : t.insertOrIgnore k v k' = some w := by
  by_cases hk : k' = k
  · subst hk
    unfold insertOrIgnore
    rw [h]
    exact h
  · rw [insertOrIgnore_of_ne t v hk]
    exact h

end Table

end Sidevers.Lib
