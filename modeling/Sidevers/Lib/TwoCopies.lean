/-
A table kept in two copies, the memory and a store, that a writer writes one
after the other.

Beside each cell stands who wrote it last. Two writers may leave the copies of
a cell different, but not one: where both copies are from the same writer they
agree (`Coherent`), as long as each writes the second time what it wrote the
first (`Coherent.writeMemory`, `Coherent.writeStore`).
-/
import Mathlib.Logic.Function.Basic

namespace Sidevers.Lib

universe u v w

/-- The two copies, and the last writer of each cell of each. -/
structure Copies (K : Type u) (V : Type v) (W : Type w) where
  memory : K → V
  store : K → V
  memoryBy : K → Option W
  storeBy : K → Option W

namespace Copies

variable {K : Type u} {V : Type v} {W : Type w}

/-- Cells whose copies are from the same writer agree. -/
def Coherent (c : Copies K V W) : Prop :=
  ∀ k, c.memoryBy k = c.storeBy k → c.memory k = c.store k

variable [DecidableEq K]

/-- A writer writes a cell of the memory. -/
def writeMemory (c : Copies K V W) (i : W) (k : K) (v : V) : Copies K V W :=
  { c with
    memory := Function.update c.memory k v
    memoryBy := Function.update c.memoryBy k (some i) }

/-- A writer writes a cell of the store. -/
def writeStore (c : Copies K V W) (i : W) (k : K) (v : V) : Copies K V W :=
  { c with
    store := Function.update c.store k v
    storeBy := Function.update c.storeBy k (some i) }

section writes

variable {c : Copies K V W} {i j : W} {k k' : K} {v : V}

@[simp] theorem writeMemory_store : (c.writeMemory i k v).store = c.store := rfl

@[simp] theorem writeMemory_storeBy :
    (c.writeMemory i k v).storeBy = c.storeBy := rfl

@[simp] theorem writeStore_memory : (c.writeStore i k v).memory = c.memory := rfl

@[simp] theorem writeStore_memoryBy :
    (c.writeStore i k v).memoryBy = c.memoryBy := rfl

@[simp] theorem memory_writeMemory_self : (c.writeMemory i k v).memory k = v :=
  Function.update_self ..

@[simp] theorem store_writeStore_self : (c.writeStore i k v).store k = v :=
  Function.update_self ..

@[simp] theorem memoryBy_writeMemory_self :
    (c.writeMemory i k v).memoryBy k = some i := Function.update_self ..

@[simp] theorem storeBy_writeStore_self :
    (c.writeStore i k v).storeBy k = some i := Function.update_self ..

theorem memoryBy_writeMemory_of_ne (h : k' ≠ k) :
    (c.writeMemory i k v).memoryBy k' = c.memoryBy k' :=
  Function.update_of_ne h ..

theorem storeBy_writeStore_of_ne (h : k' ≠ k) :
    (c.writeStore i k v).storeBy k' = c.storeBy k' :=
  Function.update_of_ne h ..

/-- What another writer has in the memory was there before. -/
theorem memoryBy_writeMemory_ne (hij : j ≠ i)
    (h : (c.writeMemory i k v).memoryBy k' = some j) :
    c.memoryBy k' = some j
      ∧ (c.writeMemory i k v).memory k' = c.memory k' := by
  by_cases hk : k' = k
  · subst hk
    rw [memoryBy_writeMemory_self, Option.some.injEq] at h
    exact absurd h.symm hij
  · rw [memoryBy_writeMemory_of_ne hk] at h
    exact ⟨h, Function.update_of_ne hk ..⟩

/-- And what it has in the store. -/
theorem storeBy_writeStore_ne (hij : j ≠ i)
    (h : (c.writeStore i k v).storeBy k' = some j) :
    c.storeBy k' = some j
      ∧ (c.writeStore i k v).store k' = c.store k' := by
  by_cases hk : k' = k
  · subst hk
    rw [storeBy_writeStore_self, Option.some.injEq] at h
    exact absurd h.symm hij
  · rw [storeBy_writeStore_of_ne hk] at h
    exact ⟨h, Function.update_of_ne hk ..⟩

/-- A memory write agrees with what its writer has in the store. -/
theorem Coherent.writeMemory (h : c.Coherent)
    (hv : c.storeBy k = some i → c.store k = v) :
    (c.writeMemory i k v).Coherent := by
  intro k' heq
  by_cases hk : k' = k
  · subst hk
    rw [memoryBy_writeMemory_self, writeMemory_storeBy] at heq
    exact memory_writeMemory_self.trans (hv heq.symm).symm
  · rw [memoryBy_writeMemory_of_ne hk] at heq
    exact (Function.update_of_ne hk ..).trans (h k' heq)

/-- A store write agrees with what its writer has in the memory. -/
theorem Coherent.writeStore (h : c.Coherent)
    (hv : c.memoryBy k = some i → c.memory k = v) :
    (c.writeStore i k v).Coherent := by
  intro k' heq
  by_cases hk : k' = k
  · subst hk
    rw [storeBy_writeStore_self, writeStore_memoryBy] at heq
    exact (hv heq).trans store_writeStore_self.symm
  · rw [storeBy_writeStore_of_ne hk] at heq
    exact (h k' heq).trans (Function.update_of_ne hk ..).symm

end writes

end Copies

end Sidevers.Lib
