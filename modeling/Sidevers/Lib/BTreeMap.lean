/-
Ordered maps and sets: association lists with strictly increasing keys, so
that a value with a key twice or out of order cannot be built and iteration
order is the list's order. A set is a map to `Unit`.

Equality is decided by membership (`BTreeSet.ext_mem`), which is what the
codecs over these types are proved by.
-/
import Mathlib.Order.Lattice
import Mathlib.Data.List.Basic

namespace Sidevers.Lib

universe u v

/-- An ordered map. -/
structure BTreeMap (K : Type u) (V : Type v) [LinearOrder K] where
  entries : List (K × V)
  sorted : entries.Pairwise fun a b => a.1 < b.1

namespace BTreeMap

variable {K : Type u} {V : Type v} [LinearOrder K]

@[ext] theorem ext {a b : BTreeMap K V} (h : a.entries = b.entries) :
    a = b := by
  cases a
  cases b
  cases h
  rfl

instance [DecidableEq V] : DecidableEq (BTreeMap K V) := fun a b =>
  decidable_of_iff (a.entries = b.entries) ⟨ext, fun h => h ▸ rfl⟩

/-- The map without entries. -/
def empty : BTreeMap K V := ⟨[], List.Pairwise.nil⟩

/-- The keys, in order. -/
def keys (m : BTreeMap K V) : List K := m.entries.map Prod.fst

/-- Lookup by key. -/
def get (m : BTreeMap K V) (k : K) : Option V :=
  (m.entries.find? fun e => decide (e.1 = k)).map Prod.snd

/-- Insertion into a sorted association list; an equal key's value is
replaced. -/
def insertEntries (k : K) (v : V) : List (K × V) → List (K × V)
  | [] => [(k, v)]
  | e :: rest =>
      if k < e.1 then (k, v) :: e :: rest
      else if e.1 < k then e :: insertEntries k v rest
      else (k, v) :: rest

/-- An insertion adds the key and no other. -/
theorem mem_keys_insertEntries {k x : K} {v : V} {entries : List (K × V)} :
    x ∈ (insertEntries k v entries).map Prod.fst
      ↔ x = k ∨ x ∈ entries.map Prod.fst := by
  induction entries with
  | nil => simp [insertEntries]
  | cons e rest ih =>
      unfold insertEntries
      split
      case isTrue => simp
      case isFalse hge =>
        split
        case isTrue =>
          rw [List.map_cons, List.mem_cons, ih, List.map_cons, List.mem_cons]
          exact or_left_comm
        case isFalse hle =>
          have hek : e.1 = k := le_antisymm (not_lt.mp hge) (not_lt.mp hle)
          simp [hek]

theorem sorted_insertEntries {k : K} {v : V} {entries : List (K × V)}
    (h : entries.Pairwise fun a b => a.1 < b.1) :
    (insertEntries k v entries).Pairwise fun a b => a.1 < b.1 := by
  induction entries with
  | nil => exact List.pairwise_singleton ..
  | cons e rest ih =>
      obtain ⟨hhead, htail⟩ := List.pairwise_cons.mp h
      unfold insertEntries
      split
      case isTrue hlt =>
        refine List.pairwise_cons.mpr ⟨fun e' he' => ?_, h⟩
        rcases List.mem_cons.mp he' with heq | he'
        · rw [heq]
          exact hlt
        · exact lt_trans hlt (hhead e' he')
      case isFalse hge =>
        split
        case isTrue hlt =>
          refine List.pairwise_cons.mpr ⟨fun e' he' => ?_, ih htail⟩
          have hkey : e'.1 = k ∨ e'.1 ∈ rest.map Prod.fst :=
            mem_keys_insertEntries.mp (List.mem_map_of_mem he')
          rcases hkey with heq | hmem
          · rw [heq]
            exact hlt
          · obtain ⟨e'', he'', heq⟩ := List.mem_map.mp hmem
            rw [← heq]
            exact hhead e'' he''
        case isFalse hle =>
          have hek : e.1 = k := le_antisymm (not_lt.mp hge) (not_lt.mp hle)
          exact List.pairwise_cons.mpr
            ⟨fun e' he' => hek ▸ hhead e' he', htail⟩

theorem length_insertEntries_le (k : K) (v : V) (entries : List (K × V)) :
    (insertEntries k v entries).length ≤ entries.length + 1 := by
  induction entries with
  | nil => exact Nat.le_refl _
  | cons e rest ih =>
      unfold insertEntries
      split
      case isTrue => exact Nat.le_refl _
      case isFalse =>
        split
        case isTrue => exact Nat.succ_le_succ ih
        case isFalse => exact Nat.le_succ _

/-- Insert or replace. -/
def insert (k : K) (v : V) (m : BTreeMap K V) : BTreeMap K V :=
  ⟨insertEntries k v m.entries, sorted_insertEntries m.sorted⟩

theorem keys_sorted (m : BTreeMap K V) : m.keys.Pairwise (· < ·) :=
  List.pairwise_map.mpr m.sorted

theorem keys_nodup (m : BTreeMap K V) : m.keys.Nodup :=
  m.keys_sorted.imp ne_of_lt

/-- The insertion of a new key adds its entry. -/
theorem insertEntries_perm {k : K} {v : V} {entries : List (K × V)}
    (h : k ∉ entries.map Prod.fst) :
    (insertEntries k v entries).Perm ((k, v) :: entries) := by
  induction entries with
  | nil => exact .refl _
  | cons e rest ih =>
      rw [List.map_cons, List.mem_cons, not_or] at h
      unfold insertEntries
      split
      case isTrue => exact .refl _
      case isFalse hge =>
        split
        case isTrue => exact ((ih h.2).cons e).trans (.swap ..)
        case isFalse hle =>
          exact absurd (le_antisymm (not_lt.mp hle) (not_lt.mp hge)) h.1

/-- An insertion adds one entry at most. -/
theorem length_foldl_insert_le (xs : List (K × V)) (m : BTreeMap K V) :
    (xs.foldl (fun m e => m.insert e.1 e.2) m).entries.length
      ≤ xs.length + m.entries.length := by
  induction xs generalizing m with
  | nil => exact Nat.le_of_eq (Nat.zero_add _).symm
  | cons x xs ih =>
      refine (ih (m.insert x.1 x.2)).trans ?_
      have hone := length_insertEntries_le x.1 x.2 m.entries
      show xs.length + (insertEntries x.1 x.2 m.entries).length ≤ _
      rw [List.length_cons]
      omega

/-- Inserting entries of distinct keys collects them. -/
theorem foldl_insert_perm (xs : List (K × V)) :
    ∀ {m : BTreeMap K V}, (xs.map Prod.fst ++ m.keys).Nodup →
      (xs.foldl (fun m e => m.insert e.1 e.2) m).entries.Perm
        (xs ++ m.entries) := by
  induction xs with
  | nil =>
      intro m _
      exact .refl _
  | cons x xs ih =>
      intro m hnodup
      rw [List.map_cons, List.cons_append, List.nodup_cons, List.mem_append,
        not_or] at hnodup
      obtain ⟨⟨hxs, hm⟩, hnodup⟩ := hnodup
      have hins := insertEntries_perm (v := x.2) hm
      have hkeys : (m.insert x.1 x.2).keys.Perm (x.1 :: m.keys) :=
        hins.map Prod.fst
      refine (ih ?_).trans ?_
      · refine ((hkeys.append_left _).trans List.perm_middle).nodup_iff.mpr ?_
        rw [List.nodup_cons, List.mem_append, not_or]
        exact ⟨⟨hxs, hm⟩, hnodup⟩
      · exact (hins.append_left xs).trans List.perm_middle

/-- A map is made of its entries, in any order. -/
theorem foldl_insert_entries (m : BTreeMap K V) {es : List (K × V)}
    (hperm : es.Perm m.entries) :
    es.foldl (fun m e => m.insert e.1 e.2) empty = m := by
  have hkeys : (es.map Prod.fst ++ (empty : BTreeMap K V).keys).Nodup := by
    show (es.map Prod.fst ++ []).Nodup
    rw [List.append_nil]
    exact (hperm.map Prod.fst).nodup_iff.mpr m.keys_nodup
  have hfold := (foldl_insert_perm es hkeys).trans
    ((List.Perm.of_eq (List.append_nil es)).trans hperm)
  apply BTreeMap.ext
  exact hfold.eq_of_pairwise
    (fun a b _ _ hab hba => absurd (lt_trans hab hba) (lt_irrefl _))
    (BTreeMap.sorted _) m.sorted

/-- The values, each mapped. -/
def mapValues {W : Type v} (f : V → W) (m : BTreeMap K V) : BTreeMap K W :=
  ⟨m.entries.map fun e => (e.1, f e.2), List.pairwise_map.mpr m.sorted⟩

theorem insertEntries_map {W : Type v} (f : V → W) (k : K) (v : V)
    (entries : List (K × V)) :
    insertEntries k (f v) (entries.map fun e => (e.1, f e.2))
      = (insertEntries k v entries).map fun e => (e.1, f e.2) := by
  induction entries with
  | nil => rfl
  | cons e rest ih =>
      rw [List.map_cons, insertEntries, insertEntries]
      split
      case isTrue => rfl
      case isFalse =>
        split
        case isTrue => rw [ih, List.map_cons]
        case isFalse => rfl

theorem foldl_insert_mapValues {W : Type v} (f : V → W) (xs : List (K × V))
    (m : BTreeMap K V) :
    (xs.map fun e => (e.1, f e.2)).foldl (fun m e => m.insert e.1 e.2)
      (m.mapValues f)
      = (xs.foldl (fun m e => m.insert e.1 e.2) m).mapValues f := by
  induction xs generalizing m with
  | nil => rfl
  | cons x xs ih =>
      have hins : (m.mapValues f).insert x.1 (f x.2)
          = (m.insert x.1 x.2).mapValues f :=
        ext (insertEntries_map f x.1 x.2 m.entries)
      rw [List.map_cons, List.foldl_cons, List.foldl_cons, hins, ih]

end BTreeMap

-- =============================================================== sets

/-- An ordered set. -/
abbrev BTreeSet (K : Type u) [LinearOrder K] := BTreeMap K Unit

namespace BTreeSet

variable {K : Type u} [LinearOrder K]

/-- Collecting an iterator into a set. -/
def ofList (xs : List K) : BTreeSet K :=
  xs.foldl (fun s x => BTreeMap.insert x () s) BTreeMap.empty

instance : Membership K (BTreeSet K) := ⟨fun s k => k ∈ s.keys⟩

instance (k : K) (s : BTreeSet K) : Decidable (k ∈ s) :=
  inferInstanceAs (Decidable (k ∈ s.keys))

theorem mem_def {k : K} {s : BTreeSet K} : k ∈ s ↔ k ∈ s.keys := Iff.rfl

private theorem mem_foldl_insert {x : K} {xs : List K} :
    ∀ {s : BTreeSet K},
      x ∈ xs.foldl (fun s x => BTreeMap.insert x () s) s
        ↔ x ∈ xs ∨ x ∈ s := by
  induction xs with
  | nil =>
      intro s
      simp
  | cons y ys ih =>
      intro s
      rw [List.foldl_cons, ih, mem_def, BTreeMap.keys, BTreeMap.insert,
        BTreeMap.mem_keys_insertEntries, List.mem_cons, mem_def,
        BTreeMap.keys]
      exact or_left_comm.trans or_assoc.symm

@[simp] theorem mem_ofList {x : K} {xs : List K} :
    x ∈ ofList xs ↔ x ∈ xs := by
  rw [ofList, mem_foldl_insert]
  simp [mem_def, BTreeMap.keys, BTreeMap.empty]

/-- Sets with the same members are equal: a strictly sorted list is
determined by its members. -/
theorem ext_mem {s t : BTreeSet K} (h : ∀ x, x ∈ s ↔ x ∈ t) : s = t := by
  have hkeys : s.keys = t.keys := by
    have hperm : s.keys.Perm t.keys :=
      (List.perm_ext_iff_of_nodup s.keys_nodup t.keys_nodup).mpr h
    exact hperm.eq_of_pairwise
      (fun a b _ _ hab hba => absurd (lt_trans hab hba) (lt_irrefl a))
      s.keys_sorted t.keys_sorted
  apply BTreeMap.ext
  exact List.map_injective_iff.mpr
    (fun a b hab => Prod.ext hab rfl) hkeys

/-- Collecting a set's own keys gives it back. -/
@[simp] theorem ofList_keys (s : BTreeSet K) : ofList s.keys = s :=
  ext_mem fun _ => mem_ofList

end BTreeSet

end Sidevers.Lib
