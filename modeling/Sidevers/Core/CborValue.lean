/-
CBOR values (RFC 8949 §2) and their deterministic encoding: what bytes that
a payload carries as opaque CBOR stand for.

No codec of the crate builds these; the extension fields of a profile and the
body of a direct message are passed through as bytes, and a reader only skips
over them.
-/
import Sidevers.Core.Cbor

namespace Sidevers.Core.Cbor

/-- A value; `negative n` is −1 − n. -/
inductive Value where
  | uint (n : UInt64)
  | negative (n : UInt64)
  | bytes (b : List UInt8)
  | text (t : String)
  | boolean (b : Bool)
  | null
  | array (items : List Value)
  | map (entries : List (Value × Value))

namespace Value

mutual

/-- Shortest heads, definite lengths. -/
def encode : Value → List UInt8
  | uint n => Cbor.uint n
  | negative n => writeHead 0x20 n
  | bytes b => Cbor.bytes b
  | text t => Cbor.text t
  | boolean b => Cbor.boolean b
  | null => Cbor.null
  | array items => arrayHeader items.length ++ encodeItems items
  | map entries => mapHeader entries.length ++ encodeEntries entries

def encodeItems : List Value → List UInt8
  | [] => []
  | v :: items => v.encode ++ encodeItems items

def encodeEntries : List (Value × Value) → List UInt8
  | [] => []
  | (k, v) :: entries => (k.encode ++ v.encode) ++ encodeEntries entries

end

mutual

/-- How deep the value is nested; a scalar counts for one. -/
def depth : Value → Nat
  | array items => depthItems items + 1
  | map entries => depthEntries entries + 1
  | uint _ | negative _ | bytes _ | text _ | boolean _ | null => 1

def depthItems : List Value → Nat
  | [] => 0
  | v :: items => max v.depth (depthItems items)

def depthEntries : List (Value × Value) → Nat
  | [] => 0
  | (k, v) :: entries => max (max k.depth v.depth) (depthEntries entries)

end

mutual

/-- The value and all that are nested in it. -/
def All (p : Value → Prop) : Value → Prop
  | array items => p (array items) ∧ AllItems p items
  | map entries => p (map entries) ∧ AllEntries p entries
  | uint n => p (uint n)
  | negative n => p (negative n)
  | bytes b => p (bytes b)
  | text t => p (text t)
  | boolean b => p (boolean b)
  | null => p null

def AllItems (p : Value → Prop) : List Value → Prop
  | [] => True
  | v :: items => v.All p ∧ AllItems p items

def AllEntries (p : Value → Prop) : List (Value × Value) → Prop
  | [] => True
  | (k, v) :: entries => (k.All p ∧ v.All p) ∧ AllEntries p entries

end

theorem encodeItems_eq (items : List Value) :
    encodeItems items = items.flatMap encode := by
  induction items with
  | nil => rfl
  | cons v items ih =>
      rw [List.flatMap_cons, ← ih]
      rfl

theorem encodeEntries_eq (entries : List (Value × Value)) :
    encodeEntries entries
      = entries.flatMap fun e => e.1.encode ++ e.2.encode := by
  induction entries with
  | nil => rfl
  | cons e entries ih =>
      rw [List.flatMap_cons, ← ih]
      rfl

theorem depthItems_le {d : Nat} {items : List Value} :
    depthItems items ≤ d ↔ ∀ v ∈ items, v.depth ≤ d := by
  induction items with
  | nil => simp [depthItems]
  | cons v items ih =>
      rw [depthItems, Nat.max_le, ih, List.forall_mem_cons]

theorem depthEntries_le {d : Nat} {entries : List (Value × Value)} :
    depthEntries entries ≤ d
      ↔ ∀ e ∈ entries, e.1.depth ≤ d ∧ e.2.depth ≤ d := by
  induction entries with
  | nil => simp [depthEntries]
  | cons e entries ih =>
      obtain ⟨k, v⟩ := e
      rw [depthEntries, Nat.max_le, Nat.max_le, ih, List.forall_mem_cons]

theorem allItems_iff {p : Value → Prop} {items : List Value} :
    AllItems p items ↔ ∀ v ∈ items, v.All p := by
  induction items with
  | nil => simp [AllItems]
  | cons v items ih => rw [AllItems, ih, List.forall_mem_cons]

theorem allEntries_iff {p : Value → Prop} {entries : List (Value × Value)} :
    AllEntries p entries ↔ ∀ e ∈ entries, e.1.All p ∧ e.2.All p := by
  induction entries with
  | nil => simp [AllEntries]
  | cons e entries ih =>
      obtain ⟨k, v⟩ := e
      rw [AllEntries, ih, List.forall_mem_cons]

end Value

end Sidevers.Core.Cbor
