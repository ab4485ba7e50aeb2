/-
The rows of a SQL table with a primary key, in the order they were inserted;
or the entries of a hash map whose size counts.

No two rows have one key, and a row without its key cannot be built. `get`
is all the proofs elsewhere see of a table: each statement has one lemma that
says what `get` returns after it.

A query that sorts its rows is any function that does so (`OrderBy`).
-/
import Mathlib.Data.List.Induction
import Mathlib.Data.List.Nodup
import Mathlib.Data.List.Sort

namespace Sidevers.Lib

universe u v

/-- A table with a primary key. -/
structure Rows (K : Type u) (V : Type v) where
  rows : List (K × V)
  nodup : (rows.map Prod.fst).Nodup

namespace Rows

variable {K : Type u} {V : Type v}

/-- The table without rows. -/
def empty : Rows K V := ⟨[], List.nodup_nil⟩

variable [DecidableEq K]

/-- SELECT by key. -/
def get (t : Rows K V) (k : K) : Option V :=
  (t.rows.find? fun r => decide (r.1 = k)).map Prod.snd

@[simp] theorem get_empty (k : K) : (empty : Rows K V).get k = none := rfl

theorem mem_of_get {t : Rows K V} {k : K} {v : V} (h : t.get k = some v) :
    (k, v) ∈ t.rows := by
  obtain ⟨r, hr, rfl⟩ := Option.map_eq_some_iff.mp h
  have hk : r.1 = k := of_decide_eq_true (List.find?_some hr :)
  exact hk ▸ List.mem_of_find?_eq_some hr

/-- A row is found by its key. -/
theorem get_eq_some_iff {t : Rows K V} {k : K} {v : V} :
    t.get k = some v ↔ (k, v) ∈ t.rows := by
  refine ⟨mem_of_get, fun hmem => ?_⟩
  cases hget : t.get k with
  | none =>
      have hnone := List.find?_eq_none.mp (Option.map_eq_none_iff.mp hget)
      exact absurd (decide_eq_true rfl) (hnone (k, v) hmem)
  | some w =>
      have heq := List.inj_on_of_nodup_map t.nodup (mem_of_get hget) hmem rfl
      exact congrArg some (Prod.mk.inj heq).2

theorem get_eq_none_iff {t : Rows K V} {k : K} :
    t.get k = none ↔ k ∉ t.rows.map Prod.fst := by
  constructor
  · intro hget hmem
    obtain ⟨⟨k', v⟩, hr, rfl⟩ := List.mem_map.mp hmem
    rw [get_eq_some_iff.mpr hr] at hget
    cases hget
  · intro hnot
    cases hget : t.get k with
    | none => rfl
    | some v => exact absurd (List.mem_map_of_mem (mem_of_get hget)) hnot

-- ========================================================== statements

/-- INSERT OR IGNORE. -/
def insertOrIgnore (t : Rows K V) (k : K) (v : V) : Rows K V :=
  if h : k ∈ t.rows.map Prod.fst then t
  else
    { rows := t.rows ++ [(k, v)]
      nodup := by
        rw [List.map_append, List.map_singleton]
        exact List.nodup_append_comm.mp (List.nodup_cons.mpr ⟨h, t.nodup⟩) }

/-- UPDATE by key. -/
def update (t : Rows K V) (k : K) (f : V → V) : Rows K V where
  rows := t.rows.map fun r => if r.1 = k then (r.1, f r.2) else r
  nodup := by
    rw [List.map_map]
    refine (congrArg List.Nodup (List.map_congr_left fun r _ => ?_)).mpr t.nodup
    rw [Function.comp_apply]
    split <;> rfl

/-- DELETE by key. -/
def delete (t : Rows K V) (k : K) : Rows K V where
  rows := t.rows.filter fun r => decide (r.1 ≠ k)
  nodup := t.nodup.sublist (List.filter_sublist.map _)

/-- DELETE by a condition on key and value: `retain`. -/
def retain (t : Rows K V) (keep : K → V → Bool) : Rows K V where
  rows := t.rows.filter fun r => keep r.1 r.2
  nodup := t.nodup.sublist (List.filter_sublist.map _)

/-- After an INSERT OR IGNORE: the row that was there, or the new one. -/
theorem get_insertOrIgnore (t : Rows K V) (k k' : K) (v : V) :
    (t.insertOrIgnore k v).get k'
      = if k' = k then some ((t.get k).getD v) else t.get k' := by
  unfold insertOrIgnore
  split
  case isTrue hmem =>
    split
    case isTrue hk =>
      cases hget : t.get k with
      | none => exact absurd hmem (get_eq_none_iff.mp hget)
      | some w => rw [hk, hget, Option.getD_some]
    case isFalse => rfl
  case isFalse hmem =>
    have hnone := get_eq_none_iff.mpr hmem
    split
    case isTrue hk =>
      rw [hk, hnone, Option.getD_none, get_eq_some_iff]
      exact List.mem_append_right _ (List.mem_singleton.mpr rfl)
    case isFalse hk =>
      refine Option.ext fun w => ?_
      rw [get_eq_some_iff, get_eq_some_iff, List.mem_append,
        List.mem_singleton, Prod.mk.injEq]
      exact or_iff_left fun h => hk h.1

/-- After an UPDATE: the one row changed. -/
theorem get_update (t : Rows K V) (k k' : K) (f : V → V) :
    (t.update k f).get k'
      = if k' = k then (t.get k).map f else t.get k' := by
  refine Option.ext fun w => ?_
  rw [get_eq_some_iff]
  show (k', w) ∈ t.rows.map _ ↔ _
  rw [List.mem_map]
  split
  case isTrue hk =>
    subst hk
    rw [Option.map_eq_some_iff]
    constructor
    · rintro ⟨⟨k'', v⟩, hr, heq⟩
      dsimp only at heq
      split at heq
      case isTrue hk =>
        subst hk
        exact ⟨v, get_eq_some_iff.mpr hr, (Prod.mk.inj heq).2⟩
      case isFalse hk => exact absurd (Prod.mk.inj heq).1 hk
    · rintro ⟨v, hget, rfl⟩
      exact ⟨(k', v), mem_of_get hget, if_pos rfl⟩
  case isFalse hk =>
    rw [get_eq_some_iff]
    constructor
    · rintro ⟨⟨k'', v⟩, hr, heq⟩
      dsimp only at heq
      split at heq
      case isTrue hk' => exact absurd ((Prod.mk.inj heq).1.symm.trans hk') hk
      case isFalse => exact heq ▸ hr
    · exact fun hr => ⟨(k', w), hr, if_neg hk⟩

/-- After a DELETE: the others. -/
theorem get_delete (t : Rows K V) (k k' : K) :
    (t.delete k).get k' = if k' = k then none else t.get k' := by
  refine Option.ext fun w => ?_
  rw [get_eq_some_iff]
  show (k', w) ∈ t.rows.filter _ ↔ _
  rw [List.mem_filter, decide_eq_true_iff]
  split
  case isTrue hk => exact iff_of_false (fun h => h.2 hk) (by simp)
  case isFalse hk =>
    rw [get_eq_some_iff]
    exact and_iff_left hk

/-- After a `retain`: what it keeps. -/
theorem get_retain (t : Rows K V) (keep : K → V → Bool) (k : K) :
    (t.retain keep).get k = (t.get k).filter (keep k) := by
  refine Option.ext fun w => ?_
  rw [get_eq_some_iff, Option.filter_eq_some_iff, get_eq_some_iff]
  exact List.mem_filter

/-- A new key is one more row. -/
theorem rows_insertOrIgnore {t : Rows K V} {k : K} (v : V)
    (h : t.get k = none) :
    (t.insertOrIgnore k v).rows = t.rows ++ [(k, v)] := by
  rw [insertOrIgnore, dif_neg (get_eq_none_iff.mp h)]

theorem mem_insertOrIgnore {t : Rows K V} {k : K} {v : V} {r : K × V}
    (h : r ∈ (t.insertOrIgnore k v).rows) : r ∈ t.rows ∨ r = (k, v) := by
  unfold insertOrIgnore at h
  split at h
  case isTrue => exact .inl h
  case isFalse =>
    exact (List.mem_append.mp h).imp_right List.mem_singleton.mp

theorem mem_update {t : Rows K V} {k : K} {f : V → V} {r : K × V}
    (h : r ∈ (t.update k f).rows) :
    ∃ v, (r.1, v) ∈ t.rows ∧ (r.2 = v ∨ r.2 = f v) := by
  obtain ⟨r', hr', rfl⟩ := List.mem_map.mp h
  split
  case isTrue => exact ⟨r'.2, hr', .inr rfl⟩
  case isFalse => exact ⟨r'.2, hr', .inl rfl⟩

/-- A row and the others. -/
theorem perm_delete {t : Rows K V} {k : K} {v : V} (h : (k, v) ∈ t.rows) :
    t.rows.Perm ((k, v) :: (t.delete k).rows) := by
  obtain ⟨before, later, hrows⟩ := List.append_of_mem h
  have hnodup := t.nodup
  rw [hrows, List.map_append, List.map_cons, List.nodup_middle] at hnodup
  obtain ⟨hkey, -⟩ := List.nodup_cons.mp hnodup
  have hothers : ∀ r ∈ before ++ later, decide (r.1 ≠ k) = true := by
    intro r hr
    refine decide_eq_true fun heq => hkey ?_
    rw [← List.map_append]
    exact List.mem_map.mpr ⟨r, hr, heq⟩
  have hdelete : (t.delete k).rows = before ++ later := by
    show t.rows.filter _ = _
    rw [hrows, List.filter_append, List.filter_cons_of_neg (by simp),
      ← List.filter_append]
    exact List.filter_eq_self.mpr hothers
  rw [hdelete, hrows]
  exact List.perm_middle

-- =============================================================== put

/-- INSERT OR REPLACE. -/
def put (t : Rows K V) (k : K) (v : V) : Rows K V :=
  (t.insertOrIgnore k v).update k fun _ => v

theorem get_put (t : Rows K V) (k k' : K) (v : V) :
    (t.put k v).get k' = if k' = k then some v else t.get k' := by
  unfold put
  rw [get_update, get_insertOrIgnore, get_insertOrIgnore, if_pos rfl]
  by_cases hk : k' = k
  · rw [if_pos hk, if_pos hk]
    rfl
  · rw [if_neg hk, if_neg hk, if_neg hk]

theorem length_update (t : Rows K V) (k : K) (f : V → V) :
    (t.update k f).rows.length = t.rows.length := List.length_map ..

/-- A row that was there is replaced. -/
theorem length_put_of_some {t : Rows K V} {k : K} (v : V)
    (h : t.get k ≠ none) : (t.put k v).rows.length = t.rows.length := by
  have hmem : k ∈ t.rows.map Prod.fst := by
    by_contra hnot
    exact h (get_eq_none_iff.mpr hnot)
  unfold put
  rw [length_update, insertOrIgnore, dif_pos hmem]

/-- A row that was not is one more. -/
theorem length_put_of_none {t : Rows K V} {k : K} (v : V)
    (h : t.get k = none) : (t.put k v).rows.length = t.rows.length + 1 := by
  unfold put
  rw [length_update, rows_insertOrIgnore v h, List.length_append,
    List.length_singleton]

/-- A row that is there is updated by putting it anew. -/
theorem update_eq_put {t : Rows K V} {k : K} {v : V} (f : V → V)
    (h : t.get k = some v) : t.update k f = t.put k (f v) := by
  have hmem : k ∈ t.rows.map Prod.fst :=
    List.mem_map.mpr ⟨(k, v), mem_of_get h, rfl⟩
  unfold put
  rw [insertOrIgnore, dif_pos hmem]
  unfold update
  congr 1
  refine List.map_congr_left fun r hr => ?_
  split
  case isTrue hk =>
    have hr : t.get r.1 = some r.2 := get_eq_some_iff.mpr hr
    rw [hk, h] at hr
    rw [Option.some.inj hr]
  case isFalse => rfl

/-- One row less. -/
theorem length_delete {t : Rows K V} {k : K} (h : t.get k ≠ none) :
    (t.delete k).rows.length + 1 = t.rows.length := by
  obtain ⟨v, hv⟩ := Option.ne_none_iff_exists'.mp h
  rw [(perm_delete (mem_of_get hv)).length_eq, List.length_cons]

-- ================================================== the first of a key

/-- A row to insert, unless its key is among those kept. -/
def keepFirst {α : Type v} (key : α → Option K) (kept : List α) (a : α) :
    List α :=
  match key a with
  | none => kept
  | some k => if some k ∈ kept.map key then kept else kept ++ [a]

/-- The first item of every key; those without one are left out. -/
def firsts {α : Type v} (key : α → Option K) (xs : List α) : List α :=
  xs.foldl (keepFirst key) []

section firsts

variable {α : Type v} {key : α → Option K}

theorem firsts_concat (xs : List α) (a : α) :
    firsts key (xs ++ [a]) = keepFirst key (firsts key xs) a :=
  List.foldl_concat ..

theorem firsts_concat_none (xs : List α) {a : α} (h : key a = none) :
    firsts key (xs ++ [a]) = firsts key xs := by
  rw [firsts_concat, keepFirst, h]

theorem keepFirst_some (kept : List α) {a : α} {k : K} (h : key a = some k) :
    keepFirst key kept a
      = if some k ∈ kept.map key then kept else kept ++ [a] := by
  rw [keepFirst, h]

/-- What is kept has a key. -/
theorem key_of_mem_firsts {xs : List α} {a : α} (h : a ∈ firsts key xs) :
    ∃ k, key a = some k := by
  induction xs using List.reverseRecOn with
  | nil => cases h
  | append_singleton xs b ih =>
      cases hb : key b with
      | none =>
          rw [firsts_concat_none xs hb] at h
          exact ih h
      | some k =>
          rw [firsts_concat, keepFirst_some _ hb] at h
          split at h
          case isTrue => exact ih h
          case isFalse =>
            rcases List.mem_append.mp h with h | h
            · exact ih h
            · obtain rfl := List.mem_singleton.mp h
              exact ⟨k, hb⟩

/-- The rows of a table, when rows were inserted one after another, are the
first of every key. -/
theorem rows_insertOrIgnore_firsts {row : α → K × V} {xs : List α} {a : α}
    {t : Rows K V} (hrow : ∀ a k, key a = some k → (row a).1 = k)
    (h : t.rows = (firsts key xs).map row) {k : K} (hk : key a = some k) :
    (t.insertOrIgnore k (row a).2).rows
      = (firsts key (xs ++ [a])).map row := by
  obtain rfl := hrow a k hk
  have hkeys : (row a).1 ∈ t.rows.map Prod.fst
      ↔ some (row a).1 ∈ (firsts key xs).map key := by
    rw [h, List.map_map, List.mem_map, List.mem_map]
    constructor
    · rintro ⟨b, hb, hbk⟩
      obtain ⟨k', hk'⟩ := key_of_mem_firsts hb
      refine ⟨b, hb, ?_⟩
      rw [hk', ← hrow b k' hk']
      exact congrArg some hbk
    · rintro ⟨b, hb, hbk⟩
      exact ⟨b, hb, hrow b _ hbk⟩
  rw [firsts_concat, keepFirst_some _ hk]
  unfold insertOrIgnore
  by_cases hmem : (row a).1 ∈ t.rows.map Prod.fst
  · rw [dif_pos hmem, if_pos (hkeys.mp hmem), h]
  · rw [dif_neg hmem, if_neg fun hsome => hmem (hkeys.mpr hsome),
      List.map_append, ← h]
    rfl

end firsts

end Rows

-- ============================================================== ORDER BY

/-- ORDER BY on the rows of a query. SQL does not say in which order rows come
that are equal in it. -/
structure OrderBy {α : Type u} (le : α → α → Prop) where
  sort : List α → List α
  perm : ∀ rows, (sort rows).Perm rows
  sorted : ∀ rows, (sort rows).Pairwise le

namespace OrderBy

variable {α : Type u}

/-- Equal rows in the order in which the query finds them. -/
def stable (le : α → α → Prop) [DecidableRel le] [Std.Total le]
    [IsTrans α le] : OrderBy le where
  sort := List.insertionSort le
  perm := List.perm_insertionSort le
  sorted := List.pairwise_insertionSort le

theorem mem_sort {le : α → α → Prop} (order : OrderBy le) {rows : List α}
    {r : α} : r ∈ order.sort rows ↔ r ∈ rows := (order.perm rows).mem_iff

end OrderBy

end Sidevers.Lib
