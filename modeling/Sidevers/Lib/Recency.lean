/-
A table of bounded size that makes room by forgetting what was seen longest
ago.

`note` puts an entry down; a full table drops an entry of the oldest sight
first, and whoever keeps the table leaves open which of several
(`Oldest`). What it is compared with is the history it never had room for:
everything that was noted, newest first.

While entries are noted in the order in which they are seen, the table
remembers (`Remembers`): what it holds is the latest of its key, whatever it
does not hold is no newer than anything it does, and it is as large as it may
be. So it answers for the whole history when asked for the newest
(`Remembers.newest`).
-/
import Mathlib.Data.List.Dedup
import Mathlib.Data.List.MinMax
import Mathlib.Data.List.Perm.Subperm
import Mathlib.Order.Lattice
import Sidevers.Lib.Rows

namespace Sidevers.Lib

universe u v w

variable {K : Type u} {V : Type v} {T : Type w} [DecidableEq K]

-- ============================================================== history

/-- The latest entry of a key, in a history that has the newest first. -/
def latest (history : List (K × V)) (k : K) : Option V :=
  (history.find? fun e => decide (e.1 = k)).map Prod.snd

@[simp] theorem latest_nil (k : K) : latest ([] : List (K × V)) k = none := rfl

theorem latest_cons (history : List (K × V)) (k k' : K) (v : V) :
    latest ((k, v) :: history) k'
      = if k' = k then some v else latest history k' := by
  unfold latest
  by_cases hk : k' = k
  · rw [if_pos hk, List.find?_cons_of_pos (by simp [hk])]
    rfl
  · rw [if_neg hk, List.find?_cons_of_neg (by simp [Ne.symm hk])]

theorem mem_of_latest {history : List (K × V)} {k : K} {v : V}
    (h : latest history k = some v) : (k, v) ∈ history := by
  obtain ⟨e, he, rfl⟩ := Option.map_eq_some_iff.mp h
  have hk : e.1 = k := of_decide_eq_true (List.find?_some he :)
  exact hk ▸ List.mem_of_find?_eq_some he

/-- How many keys there are. -/
def keyCount (history : List (K × V)) : Nat :=
  (history.map Prod.fst).dedup.length

theorem keyCount_cons (history : List (K × V)) (k : K) (v : V) :
    keyCount ((k, v) :: history)
      = if k ∈ history.map Prod.fst then keyCount history
        else keyCount history + 1 := by
  unfold keyCount
  rw [List.map_cons]
  by_cases hk : k ∈ history.map Prod.fst
  · rw [if_pos hk, List.dedup_cons_of_mem hk]
  · rw [if_neg hk, List.dedup_cons_of_notMem hk, List.length_cons]

-- ============================================================ the table

variable [LinearOrder T] {seen : V → T}

/-- A choice of an entry that was seen longest ago. -/
structure Oldest (K : Type u) [DecidableEq K] (seen : V → T) where
  pick : Rows K V → Option K
  picked : ∀ t k, pick t = some k → ∃ v, t.get k = some v
    ∧ ∀ k' v', t.get k' = some v' → seen v ≤ seen v'
  picks : ∀ t, t.rows ≠ [] → pick t ≠ none

/-- The first of them, in the order of the rows. -/
def Oldest.first (K : Type u) [DecidableEq K] (seen : V → T) :
    Oldest K seen where
  pick t := (t.rows.argmin fun r => seen r.2).map Prod.fst
  picked t k h := by
    obtain ⟨⟨k, v⟩, hmin, rfl⟩ := Option.map_eq_some_iff.mp h
    refine ⟨v, Rows.get_eq_some_iff.mpr (List.argmin_mem hmin),
      fun k' v' hget => ?_⟩
    exact List.le_of_mem_argmin (f := fun r : K × V => seen r.2)
      (Rows.mem_of_get hget) hmin
  picks t hne h :=
    hne (List.argmin_eq_none.mp (Option.map_eq_none_iff.mp h))

/-- Room for one more. -/
def Oldest.room (oldest : Oldest K seen) (max : Nat) (t : Rows K V) (k : K) :
    Rows K V :=
  if t.get k = none ∧ max ≤ t.rows.length then
    match oldest.pick t with
    | some old => t.delete old
    | none => t
  else t

/-- An entry is put down. -/
def Oldest.note (oldest : Oldest K seen) (max : Nat) (t : Rows K V) (k : K)
    (v : V) : Rows K V := (oldest.room max t k).put k v

variable {oldest : Oldest K seen} {max : Nat} {t : Rows K V} {k : K} {v : V}

/-- Room is made by dropping nothing, or an entry of the oldest sight. -/
theorem room_cases (oldest : Oldest K seen) (max : Nat) (t : Rows K V)
    (k : K) :
    oldest.room max t k = t
        ∧ (t.get k ≠ none ∨ t.rows.length < max ∨ t.rows = [])
      ∨ ∃ old v, oldest.room max t k = t.delete old
        ∧ t.get k = none ∧ max ≤ t.rows.length ∧ t.get old = some v
        ∧ ∀ k' v', t.get k' = some v' → seen v ≤ seen v' := by
  unfold Oldest.room
  by_cases hfull : t.get k = none ∧ max ≤ t.rows.length
  · rw [if_pos hfull]
    cases hpick : oldest.pick t with
    | none =>
        refine Or.inl ⟨rfl, Or.inr (Or.inr ?_)⟩
        by_contra hne
        exact oldest.picks t hne hpick
    | some old =>
        obtain ⟨v, hold, hmin⟩ := oldest.picked t old hpick
        exact Or.inr ⟨old, v, rfl, hfull.1, hfull.2, hold, hmin⟩
  · rw [if_neg hfull]
    refine Or.inl ⟨rfl, ?_⟩
    by_cases hk : t.get k = none
    · exact Or.inr (Or.inl (Nat.lt_of_not_le fun h => hfull ⟨hk, h⟩))
    · exact Or.inl hk

/-- What is noted is held. -/
theorem get_note_self (oldest : Oldest K seen) (max : Nat) (t : Rows K V)
    (k : K) (v : V) : (oldest.note max t k v).get k = some v := by
  unfold Oldest.note
  rw [Rows.get_put, if_pos rfl]

/-- Whatever else is held was held before. -/
theorem get_of_note {k' : K} {v' : V} (hk : k' ≠ k)
    (h : (oldest.note max t k v).get k' = some v') : t.get k' = some v' := by
  unfold Oldest.note at h
  rw [Rows.get_put, if_neg hk] at h
  rcases room_cases oldest max t k with ⟨hroom, -⟩ | ⟨old, w, hroom, -⟩
  · rwa [hroom] at h
  · rw [hroom, Rows.get_delete] at h
    split at h
    · cases h
    · exact h

/-- The table does not grow past its bound, or past one. -/
theorem length_note_le (h : t.rows.length ≤ Nat.max 1 max) :
    (oldest.note max t k v).rows.length ≤ Nat.max 1 max := by
  unfold Oldest.note
  rcases room_cases oldest max t k with
    ⟨hroom, hk | hlt | hnil⟩ | ⟨old, w, hroom, hk, hfull, hold, -⟩
  · rw [hroom, Rows.length_put_of_some v hk]
    exact h
  · rw [hroom]
    by_cases hk : t.get k = none
    · rw [Rows.length_put_of_none v hk]
      exact Nat.le_trans hlt (Nat.le_max_right ..)
    · rw [Rows.length_put_of_some v hk]
      exact h
  · rw [hroom]
    have hk : t.get k = none := by
      rw [Rows.get_eq_none_iff, hnil]
      exact List.not_mem_nil
    rw [Rows.length_put_of_none v hk, hnil]
    exact Nat.le_max_left ..
  · have hne : t.get old ≠ none := by simp [hold]
    have hgone : (t.delete old).get k = none := by
      rw [Rows.get_delete, hk, ite_self]
    rw [hroom, Rows.length_put_of_none v hgone, Rows.length_delete hne]
    exact h

-- ============================================================ remembers

/-- The table has the newest of the history, as many as it may hold. -/
structure Remembers (seen : V → T) (max : Nat) (history : List (K × V))
    (t : Rows K V) : Prop where
  held : ∀ k v, t.get k = some v → latest history k = some v
  newer : ∀ k v, latest history k = some v → t.get k = none →
    ∀ k' v', t.get k' = some v' → seen v ≤ seen v'
  size : t.rows.length = min (Nat.max 1 max) (keyCount history)

variable {history : List (K × V)}

theorem remembers_empty (seen : V → T) (max : Nat) :
    Remembers seen max ([] : List (K × V)) .empty where
  held := nofun
  newer := nofun
  size := by simp [keyCount, Rows.empty]

/-- A key of the history that is not held is one more than those that are. -/
theorem Remembers.length_lt (h : Remembers seen max history t)
    (hk : t.get k = none) (hmem : k ∈ history.map Prod.fst) :
    t.rows.length < keyCount history := by
  have hnodup : (k :: t.rows.map Prod.fst).Nodup :=
    List.nodup_cons.mpr ⟨Rows.get_eq_none_iff.mp hk, t.nodup⟩
  have hsub : k :: t.rows.map Prod.fst ⊆ (history.map Prod.fst).dedup := by
    intro k' hk'
    rw [List.mem_dedup]
    rcases List.mem_cons.mp hk' with rfl | hk'
    · exact hmem
    · obtain ⟨⟨k'', v⟩, hr, rfl⟩ := List.mem_map.mp hk'
      have hlatest := h.held k'' v (Rows.get_eq_some_iff.mpr hr)
      exact List.mem_map.mpr ⟨(k'', v), mem_of_latest hlatest, rfl⟩
  have hle := (List.subperm_of_subset hnodup hsub).length_le
  rwa [List.length_cons, List.length_map] at hle

/-- A table that is full, of a history with more keys than it holds or none
that it has not, is as large after the next entry as it may be. -/
theorem Remembers.size_note (h : Remembers seen max history t) (k : K)
    (v : V) :
    (oldest.note max t k v).rows.length
      = min (Nat.max 1 max) (keyCount ((k, v) :: history)) := by
  have hsize := h.size
  have hmax : max ≤ Nat.max 1 max := Nat.le_max_right ..
  have hone : 1 ≤ Nat.max 1 max := Nat.le_max_left ..
  rw [keyCount_cons]
  unfold Oldest.note
  by_cases hheld : t.get k = none
  · have hcount : k ∈ history.map Prod.fst →
        t.rows.length < keyCount history := h.length_lt hheld
    rcases room_cases oldest max t k with
      ⟨hroom, hk | hlt | hnil⟩ | ⟨old, w, hroom, -, hfull, hold, -⟩
    · exact absurd hheld hk
    · rw [hroom, Rows.length_put_of_none v hheld]
      split
      case isTrue hmem =>
        have := hcount hmem
        omega
      case isFalse => omega
    · rw [hroom, Rows.length_put_of_none v hheld]
      rw [hnil, List.length_nil] at hsize ⊢
      have hempty : keyCount history = 0 := by omega
      have hnot : k ∉ history.map Prod.fst := by
        intro hmem
        have := hcount hmem
        omega
      rw [if_neg hnot]
      omega
    · have hne : t.get old ≠ none := by simp [hold]
      have hgone : (t.delete old).get k = none := by
        rw [Rows.get_delete, hheld, ite_self]
      have hpos : 0 < t.rows.length := by
        have := Rows.length_delete hne
        omega
      have hbound : Nat.max 1 max ≤ t.rows.length := Nat.max_le.mpr
        ⟨hpos, hfull⟩
      rw [hroom, Rows.length_put_of_none v hgone, Rows.length_delete hne]
      split
      case isTrue => omega
      case isFalse => omega
  · have hmem : k ∈ history.map Prod.fst := by
      obtain ⟨w, hw⟩ := Option.ne_none_iff_exists'.mp hheld
      exact List.mem_map.mpr ⟨(k, w), mem_of_latest (h.held k w hw), rfl⟩
    have hroom : oldest.room max t k = t := if_neg fun hfull => hheld hfull.1
    rw [if_pos hmem, hroom, Rows.length_put_of_some v hheld]
    exact hsize

/-- An entry that is noted in order is remembered. -/
theorem Remembers.note (h : Remembers seen max history t)
    (oldest : Oldest K seen) (hlate : ∀ e ∈ history, seen e.2 ≤ seen v) :
    Remembers seen max ((k, v) :: history) (oldest.note max t k v) where
  held k' v' hget := by
    rw [latest_cons]
    by_cases hk : k' = k
    · subst hk
      rw [get_note_self] at hget
      rw [if_pos rfl, hget]
    · rw [if_neg hk]
      exact h.held k' v' (get_of_note hk hget)
  newer k' v' hlatest hnone k'' v'' hget := by
    rw [latest_cons] at hlatest
    by_cases hk : k' = k
    · subst hk
      rw [get_note_self] at hnone
      cases hnone
    · rw [if_neg hk] at hlatest
      by_cases hk' : k'' = k
      · subst hk'
        rw [get_note_self] at hget
        injection hget with hget
        exact hget ▸ hlate _ (mem_of_latest hlatest)
      · replace hget := get_of_note hk' hget
        unfold Oldest.note at hnone
        rw [Rows.get_put, if_neg hk] at hnone
        rcases room_cases oldest max t k with
          ⟨hroom, -⟩ | ⟨old, w, hroom, -, -, hold, hmin⟩
        · rw [hroom] at hnone
          exact h.newer k' v' hlatest hnone k'' v'' hget
        · rw [hroom, Rows.get_delete] at hnone
          by_cases hold' : k' = old
          · -- it is the one that was dropped
            subst hold'
            rw [h.held k' w hold] at hlatest
            injection hlatest with hlatest
            exact hlatest ▸ hmin k'' v'' hget
          · rw [if_neg hold'] at hnone
            exact h.newer k' v' hlatest hnone k'' v'' hget
  size := h.size_note k v

/-- An entry that is seen again is noted anew. -/
theorem Oldest.note_of_held (oldest : Oldest K seen) (max : Nat) (v' : V)
    (h : t.get k ≠ none) : oldest.note max t k v' = t.put k v' := by
  have hroom : oldest.room max t k = t := if_neg fun hfull => h hfull.1
  unfold Oldest.note
  rw [hroom]

/-- What the table holds are the newest there are: whatever is left out of the
newest of them, from the table or from the history, is no newer. -/
theorem Remembers.newest (h : Remembers seen max history t)
    {keep : V → Prop} [DecidablePred keep] {values : List V}
    (hvalues : values.Perm ((t.rows.map Prod.snd).filter keep))
    (hsorted : values.Pairwise fun a b => seen b ≤ seen a) (limit : Nat) :
    (∀ v ∈ values.take limit, keep v ∧ ∃ k, latest history k = some v)
      ∧ ∀ k v, latest history k = some v → keep v → v ∉ values.take limit →
        ∀ v' ∈ values.take limit, seen v ≤ seen v' := by
  have hget : ∀ v ∈ values, keep v ∧ ∃ k, t.get k = some v := by
    intro v hv
    obtain ⟨hr, hkeep⟩ := List.mem_filter.mp (hvalues.mem_iff.mp hv)
    obtain ⟨⟨k, w⟩, hrow, rfl⟩ := List.mem_map.mp hr
    exact ⟨of_decide_eq_true hkeep, k, Rows.get_eq_some_iff.mpr hrow⟩
  refine ⟨fun v hv => ?_, fun k v hlatest hkeep hout v' hv' => ?_⟩
  · obtain ⟨hkeep, k, hk⟩ := hget v (List.mem_of_mem_take hv)
    exact ⟨hkeep, k, h.held k v hk⟩
  · obtain ⟨-, k', hk'⟩ := hget v' (List.mem_of_mem_take hv')
    cases hk : t.get k with
    | none => exact h.newer k v hlatest hk k' v' hk'
    | some w =>
        obtain rfl := Option.some.inj (hlatest.symm.trans (h.held k w hk))
        have hmem : v ∈ values := hvalues.mem_iff.mpr (List.mem_filter.mpr
          ⟨List.mem_map.mpr ⟨(k, v), Rows.mem_of_get hk, rfl⟩,
            decide_eq_true hkeep⟩)
        rw [← List.take_append_drop limit values] at hmem hsorted
        have hdrop := (List.mem_append.mp hmem).resolve_left hout
        exact (List.pairwise_append.mp hsorted).2.2 v' hv' v hdrop

/-- There are as many of them as there may be. -/
theorem Remembers.length_newest (h : Remembers seen max history t)
    {values : List V} (hvalues : values.Perm (t.rows.map Prod.snd))
    (limit : Nat) :
    (values.take limit).length
      = min limit (min (Nat.max 1 max) (keyCount history)) := by
  rw [List.length_take, hvalues.length_eq, List.length_map, h.size]

end Sidevers.Lib
