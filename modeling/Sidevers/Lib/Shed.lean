/-
Elements taken off the front of a list until what they free is enough.

`shed size need xs` is what is taken. It is the shortest prefix that frees
what is needed, or all there is: it is a prefix (`shed_front`), it frees
enough unless it is the whole list (`shed_enough`), and no shorter prefix does
(`shed_short`).
-/
import Mathlib.Algebra.Order.BigOperators.Group.List
import Mathlib.Algebra.Order.Sub.Defs
import Mathlib.Algebra.Order.Monoid.Canonical.Defs

namespace Sidevers.Lib

universe u v

variable {α : Type u} {M : Type v} [AddCommMonoid M] [LinearOrder M] [Sub M]

/-- What is taken off the front, each element freeing its size. -/
def shed (size : α → M) (need : M) : List α → List α
  | [] => []
  | x :: rest =>
      if need = 0 then [] else x :: shed size (need - size x) rest

variable (size : α → M)

@[simp] theorem shed_zero (xs : List α) : shed size 0 xs = [] := by
  cases xs with
  | nil => rfl
  | cons x rest => exact if_pos rfl

theorem shed_cons {need : M} (h : need ≠ 0) (x : α) (rest : List α) :
    shed size need (x :: rest) = x :: shed size (need - size x) rest :=
  if_neg h

theorem shed_front (need : M) (xs : List α) : shed size need xs <+: xs := by
  induction xs generalizing need with
  | nil => exact List.prefix_rfl
  | cons x rest ih =>
      by_cases hneed : need = 0
      · rw [hneed, shed_zero]
        exact List.nil_prefix
      · rw [shed_cons size hneed]
        exact (List.prefix_cons_inj x).mpr (ih _)

variable [OrderedSub M]

/-- Either enough is freed or nothing is left. -/
theorem shed_enough (need : M) (xs : List α) :
    need ≤ ((shed size need xs).map size).sum ∨ shed size need xs = xs := by
  induction xs generalizing need with
  | nil => exact .inr rfl
  | cons x rest ih =>
      by_cases hneed : need = 0
      · left
        rw [hneed, shed_zero]
        exact le_refl _
      · rw [shed_cons size hneed, List.map_cons, List.sum_cons]
        rcases ih (need - size x) with hfreed | hall
        · left
          rw [add_comm]
          exact tsub_le_iff_right.mp hfreed
        · right
          rw [hall]

variable [CanonicallyOrderedAdd M]

/-- A shorter prefix does not free enough. -/
theorem shed_short (need : M) (xs : List α) {k : Nat}
    (h : k < (shed size need xs).length) :
    ((xs.take k).map size).sum < need := by
  induction xs generalizing need k with
  | nil => cases h
  | cons x rest ih =>
      by_cases hneed : need = 0
      · rw [hneed, shed_zero] at h
        cases h
      · rw [shed_cons size hneed, List.length_cons] at h
        cases k with
        | zero => exact pos_iff_ne_zero.mpr hneed
        | succ k =>
            rw [List.take_succ_cons, List.map_cons, List.sum_cons, add_comm]
            exact lt_tsub_iff_right.mp (ih _ (Nat.lt_of_succ_lt_succ h))

end Sidevers.Lib
