/-
The writer and the reader of CBOR, item by item.

A sequence of items is written as their bytes one after the other, and reads
back with any read functions that match the items. Whatever a sequence of
reads accepts is what the writer writes for what it returned: an item has one
accepted encoding.
-/
import Sidevers.Proofs.CborWrites

namespace Sidevers.Proofs

open Sidevers.Core
open Sidevers.Core.Cbor
open Sidevers.Lib

/-- What `CborWriter` writes: values, and the headers of arrays and maps. -/
inductive CborItem where
  | uint (n : UInt64)
  | bytes (b : List UInt8)
  | text (t : String)
  | bool (b : Bool)
  | null
  | arrayHeader (len : Nat)
  | mapHeader (len : Nat)
  deriving DecidableEq

/-- The read functions of `CborReader`. -/
inductive ReadFn where
  | u64
  | bytes
  | text
  | bytesOrNull
  | bool
  | arrayHeader
  | mapHeader
  deriving DecidableEq

namespace CborItem

/-- An item is written at the end of the buffer. -/
def writeTo (w : CborWriter) : CborItem → CborWriter
  | uint n => w.writeU64 n
  | bytes b => w.writeBytes b
  | text t => w.writeText t
  | bool b => w.writeBool b
  | null => w.writeNull
  | arrayHeader len => w.writeArrayHeader len
  | mapHeader len => w.writeMapHeader len

/-- What is written for a sequence of items. -/
def writeAll (items : List CborItem) : List UInt8 :=
  (items.foldl writeTo .new).intoBytes

/-- The bytes of an item. -/
def write : CborItem → List UInt8
  | uint n => Cbor.uint n
  | bytes b => Cbor.bytes b
  | text t => Cbor.text t
  | bool b => boolean b
  | null => Cbor.null
  | arrayHeader len => Cbor.arrayHeader len
  | mapHeader len => Cbor.mapHeader len

/-- A header counts no more entries than a reader takes. -/
def Capped : CborItem → Prop
  | arrayHeader len => len ≤ maxCborEntries
  | mapHeader len => len ≤ maxCborEntries
  | _ => True

/-- The item of a byte string that may be null. -/
def ofBytesOrNull : Option (List UInt8) → CborItem
  | none => null
  | some b => bytes b

end CborItem

namespace ReadFn

/-- The item a read function returns. -/
def read : ReadFn → Read CborItem
  | u64 => .uint <$> readU64
  | bytes => .bytes <$> readBytes
  | text => .text <$> readText
  | bytesOrNull => .ofBytesOrNull <$> readBytesOrNull
  | bool => .bool <$> readBool
  | arrayHeader => .arrayHeader <$> readArrayHeader
  | mapHeader => .mapHeader <$> readMapHeader

/-- The read functions that match an item. -/
def Matches : ReadFn → CborItem → Prop
  | u64, .uint _ => True
  | bytes, .bytes _ => True
  | text, .text _ => True
  | bytesOrNull, .bytes _ => True
  | bytesOrNull, .null => True
  | bool, .bool _ => True
  | arrayHeader, .arrayHeader _ => True
  | mapHeader, .mapHeader _ => True
  | _, _ => False

/-- One read after the other. -/
def readAll : List ReadFn → Read (List CborItem)
  | [] => return []
  | f :: rest => return (← f.read) :: (← readAll rest)

end ReadFn

-- ======================================================== what is written

theorem buf_writeTo (w : CborWriter) (item : CborItem) :
    (item.writeTo w).buf = w.buf ++ item.write := by
  cases item with
  | bytes b => exact List.append_assoc ..
  | text t => exact List.append_assoc ..
  | _ => rfl

/-- The items' bytes, one after the other. -/
theorem writeAll_eq (items : List CborItem) :
    CborItem.writeAll items = items.flatMap CborItem.write := by
  have hfold : ∀ w : CborWriter, (items.foldl CborItem.writeTo w).buf
      = w.buf ++ items.flatMap CborItem.write := by
    induction items with
    | nil => exact fun w => (List.append_nil _).symm
    | cons item items ih =>
        intro w
        rw [List.foldl_cons, ih, buf_writeTo, List.flatMap_cons,
          List.append_assoc]
  exact hfold .new

theorem Reads.mapped {α γ : Type} {r : Read α} {bs : List UInt8} {a : α}
    (f : α → γ) (h : Reads r bs a) : Reads (f <$> r) bs (f a) := by
  rw [map_eq_pure_bind]
  exact h.andThen (.pure _)

/-- A matching read function reads what was written. -/
theorem reads_item {f : ReadFn} {item : CborItem} (hmatches : f.Matches item)
    (hcapped : item.Capped) : Reads f.read item.write item := by
  cases item with
  | uint n =>
      cases f with
      | u64 => exact (reads_readU64 n).mapped _
      | _ => cases hmatches
  | bytes b =>
      cases f with
      | bytes => exact (reads_readBytes b).mapped _
      | bytesOrNull => exact (reads_readBytesOrNull b).mapped _
      | _ => cases hmatches
  | text t =>
      cases f with
      | text => exact (reads_readText t).mapped _
      | _ => cases hmatches
  | bool b =>
      cases f with
      | bool => exact (reads_readBool b).mapped _
      | _ => cases hmatches
  | null =>
      cases f with
      | bytesOrNull => exact reads_readBytesOrNull_null.mapped _
      | _ => cases hmatches
  | arrayHeader len =>
      cases f with
      | arrayHeader =>
          exact (reads_readCount "array" (by decide) hcapped).mapped _
      | _ => cases hmatches
  | mapHeader len =>
      cases f with
      | mapHeader =>
          exact (reads_readCount "map" (by decide) hcapped).mapped _
      | _ => cases hmatches

theorem reads_all {fs : List ReadFn} {items : List CborItem}
    (hmatches : List.Forall₂ ReadFn.Matches fs items)
    (hcapped : ∀ item ∈ items, item.Capped) :
    Reads (ReadFn.readAll fs) (items.flatMap CborItem.write) items := by
  induction hmatches with
  | nil => exact .pure []
  | @cons f item fs items hfirst hrest ih =>
      rw [List.flatMap_cons]
      refine (reads_item hfirst (hcapped item List.mem_cons_self)).bind ?_
      exact (ih fun i hi => hcapped i (List.mem_cons_of_mem _ hi)).andThen
        (.pure _)

-- =========================================================== what is read

/-- Whatever a read function takes is the bytes of the item it returns. -/
theorem consumes_item (f : ReadFn) :
    Consumes reading f.read fun item bs => bs = item.write ∧ f.Matches item := by
  cases f with
  | u64 => exact spells_readU64.map fun n bs h => ⟨h.1, trivial⟩
  | bytes => exact spells_readBytes.map fun b bs h => ⟨h.1, trivial⟩
  | text => exact spells_readText.map fun t bs h => ⟨h.1, trivial⟩
  | bytesOrNull =>
      refine spells_readBytesOrNull.map fun o bs h => ?_
      cases o with
      | none => exact ⟨h.1, trivial⟩
      | some b => exact ⟨h.1, trivial⟩
  | bool => exact spells_readBool.map fun b bs h => ⟨h.1, trivial⟩
  | arrayHeader =>
      exact (consumes_readCount 4 "array").map fun n bs h =>
        ⟨h.1, trivial⟩
  | mapHeader =>
      exact (consumes_readCount 5 "map").map fun n bs h => ⟨h.1, trivial⟩

theorem consumes_all (fs : List ReadFn) :
    Consumes reading (ReadFn.readAll fs) fun items bs =>
      bs = items.flatMap CborItem.write
        ∧ List.Forall₂ ReadFn.Matches fs items := by
  induction fs with
  | nil => exact .pure ⟨rfl, .nil⟩
  | cons f fs ih =>
      refine (consumes_item f).bind fun item x ⟨hx, hmatches⟩ =>
        ih.bind fun items y ⟨hy, hrest⟩ => .pure ⟨?_, .cons hmatches hrest⟩
      rw [hx, hy, List.flatMap_cons, List.append_nil]

-- ============================================================== both ways

/-- Written items read back, to the end; and reads return only items whose
bytes, as they are written, are the bytes passed, so that two byte strings
that read as the same items begin alike. -/
theorem items_written_iff_read :
    (∀ fs items, List.Forall₂ ReadFn.Matches fs items →
      (∀ item ∈ items, item.Capped) →
      (CborItem.writeAll items).length < 2 ^ 64 →
      (ReadFn.readAll fs).on (CborItem.writeAll items) = .ok (items,
        ⟨CborItem.writeAll items, (CborItem.writeAll items).length⟩))
    ∧ (∀ fs b items r, (ReadFn.readAll fs).on b = .ok (items, r) →
      List.Forall₂ ReadFn.Matches fs items
        ∧ CborItem.writeAll items = b.take r.pos)
    ∧ ∀ fs fs' b b' items r r', (ReadFn.readAll fs).on b = .ok (items, r) →
      (ReadFn.readAll fs').on b' = .ok (items, r') →
      b.take r.pos = b'.take r'.pos := by
  have hread : ∀ fs b items r, (ReadFn.readAll fs).on b = .ok (items, r) →
      List.Forall₂ ReadFn.Matches fs items
        ∧ CborItem.writeAll items = b.take r.pos := by
    intro fs b items r hrun
    obtain ⟨bs, ⟨hr, hprefix⟩, hbs, hmatches⟩ := consumes_all fs _ _ _ hrun
    refine ⟨hmatches, ?_⟩
    rw [writeAll_eq, ← hbs, hr]
    show bs = b.take (0 + bs.length)
    rw [Nat.zero_add]
    exact List.prefix_iff_eq_take.mp hprefix
  refine ⟨fun fs items hmatches hcapped hlen => ?_, hread,
    fun fs fs' b b' items r r' h h' => ?_⟩
  · have hrun := reads_all hmatches hcapped [] []
    rw [List.append_nil, List.nil_append, ← writeAll_eq, List.length_nil,
      Nat.zero_add] at hrun
    exact hrun hlen
  · rw [← (hread fs b items r h).2, (hread fs' b' items r' h').2]

/-- A header, a text, a null and a number at a boundary of the length
forms. -/
theorem items_written_iff_read_boundary :
    (ReadFn.readAll [.arrayHeader, .text, .bytesOrNull, .u64]).on
        (CborItem.writeAll [.arrayHeader 3, .text "a", .null, .uint 256])
      = .ok ([.arrayHeader 3, .text "a", .null, .uint 256],
        ⟨[0x83, 0x61, 0x61, 0xF6, 0x19, 0x01, 0x00], 7⟩) :=
  items_written_iff_read.1 _ _
    (.cons trivial (.cons trivial (.cons trivial (.cons trivial .nil))))
    (by simp [CborItem.Capped, maxCborEntries]) (by decide)

end Sidevers.Proofs
