/-
What becomes of an object that is put in chunks.

A store that keeps what it was given (`Intact`) takes the chunks and the
manifest one after the other, and each stays readable (`putAll_intact`); so the
bytes come back, whatever their length and whatever else is there
(`chunked_round_trip`). What `get_chunked` assembles is what the manifest
says, for every manifest, except that the total it declares is allocated
before it is checked (`assembles_unless_huge`).
-/
import Mathlib.Algebra.Order.BigOperators.Group.List
import Mathlib.Data.Set.Function
import Mathlib.Logic.Relation
import Sidevers.Net.Chunking
import Sidevers.Proofs.CborWrites
import Sidevers.Proofs.ObjectCalls
import Sidevers.Proofs.WireSizes

namespace Sidevers.Proofs

open Sidevers.Core
open Sidevers.Core.Cbor
open Sidevers.Lib
open Sidevers.Net

-- ============================================================= the chunks

theorem flatten_chunks {n : Nat} (hn : n ≠ 0) (bytes : List UInt8) :
    (chunks n bytes).flatten = bytes := by
  fun_induction chunks n bytes with
  | case1 bytes h =>
      rcases h with rfl | h0
      · rfl
      · exact absurd h0 hn
  | case2 bytes h ih => rw [List.flatten_cons, ih, List.take_append_drop]

theorem length_of_mem_chunks {n : Nat} {bytes chunk : List UInt8}
    (h : chunk ∈ chunks n bytes) : chunk.length ≤ n := by
  fun_induction chunks n bytes with
  | case1 => exact absurd h List.not_mem_nil
  | case2 bytes hne ih =>
      rcases List.mem_cons.mp h with rfl | hrest
      · exact List.length_take_le ..
      · exact ih hrest

theorem chunks_append {n : Nat} {chunk : List UInt8} (hn : n ≠ 0)
    (hlen : chunk.length = n) (rest : List UInt8) :
    chunks n (chunk ++ rest) = chunk :: chunks n rest := by
  have hne : ¬ (chunk ++ rest = [] ∨ n = 0) := by
    rintro (hnil | hzero)
    · rw [(List.append_eq_nil_iff.mp hnil).1] at hlen
      exact hn hlen.symm
    · exact hn hzero
  rw [chunks, dif_neg hne, List.take_left' hlen, List.drop_left' hlen]

theorem chunks_short {n : Nat} {bytes : List UInt8} (hne : bytes ≠ [])
    (hlen : bytes.length ≤ n) : chunks n bytes = [bytes] := by
  have hpos := List.length_pos_of_ne_nil hne
  have hmore : ¬ (bytes = [] ∨ n = 0) := by
    rintro (hnil | hzero)
    · exact hne hnil
    · omega
  rw [chunks, dif_neg hmore, List.take_of_length_le hlen,
    List.drop_of_length_le hlen, chunks, dif_pos (.inl rfl)]

/-- The lengths of the pieces of a list. -/
theorem sum_length_flatten (pieces : List (List UInt8)) :
    (pieces.map List.length).sum = pieces.flatten.length :=
  List.length_flatten.symm

theorem length_le_chunks {n : Nat} (hn : n ≠ 0) (bytes : List UInt8) :
    bytes.length ≤ (chunks n bytes).length * n := by
  have hsum := List.sum_le_card_nsmul ((chunks n bytes).map List.length) n
    fun x hx => by
      obtain ⟨chunk, hchunk, rfl⟩ := List.mem_map.mp hx
      exact length_of_mem_chunks hchunk
  rwa [sum_length_flatten, flatten_chunks hn, List.length_map,
    smul_eq_mul] at hsum

-- ============================================================ the manifest

theorem reads_manifest (totalSize : UInt64) {hashes : List (Bytes 32)}
    (hcount : hashes.length ≤ maxCborEntries) :
    Reads readManifest (encodeManifest totalSize hashes)
      (totalSize, hashes) := by
  refine .map (by decide : 2 ≤ maxCborEntries) ?_
  refine .field (reads_readArray hcount fun h _ => reads_readExact _ h) ?_
  exact .field (reads_readU64 totalSize) (.pure _)

/-- A manifest is small: a few dozen bytes for each chunk. -/
theorem length_encodeManifest (totalSize : UInt64) (hashes : List (Bytes 32)) :
    (encodeManifest totalSize hashes).length ≤ 64 + 41 * hashes.length := by
  have hsum := List.sum_le_card_nsmul
    (hashes.map fun h => (bytes h.val).length) 41 fun x hx => by
      obtain ⟨h, -, rfl⟩ := List.mem_map.mp hx
      rw [length_string, length_val]
      exact stringSize_le 32
  rw [List.length_map, smul_eq_mul] at hsum
  have harray := headSize_le (UInt64.ofNat hashes.length)
  have htotal := headSize_le totalSize
  have hkeys : headSize (UInt64.ofNat (0 + 1 + 1)) + textSize "chunks"
      + textSize "total_size" = 19 := by decide
  simp only [encodeManifest, length_encodeMap, List.map_cons, List.map_nil,
    List.length_cons, List.length_nil, List.sum_cons, List.sum_nil,
    length_key, length_encodeArray, length_uint, arraySize, List.length_map]
  omega

theorem decodeManifest_encodeManifest (totalSize : UInt64)
    {hashes : List (Bytes 32)} (hcount : hashes.length ≤ maxCborEntries) :
    decodeManifest (encodeManifest totalSize hashes)
      = .ok (totalSize, hashes) := by
  refine (reads_manifest totalSize hcount).value_atEnd ?_ _
  have hlen := length_encodeManifest totalSize hashes
  have hmax : maxCborEntries = 2 ^ 20 := rfl
  omega

-- ========================================================= calls alone

/-- The call returns the value, nothing coming in between. -/
def Completes (crypto : Crypto) (s : ObjectFiles) (call : ObjectCall)
    (s' : ObjectFiles) (value : ObjectReturn) : Prop :=
  Relation.ReflTransGen (fun p q => p.2.resume crypto p.1 = some q) (s, call)
    (s', .returned value)

section alone

variable {crypto : Crypto} {s s' s'' : ObjectFiles}
  {call call' : ObjectCall} {value : ObjectReturn}

theorem Completes.step (h : call.resume crypto s = some (s', call'))
    (hrest : Completes crypto s' call' s'' value) :
    Completes crypto s call s'' value := .head h hrest

theorem Completes.returned :
    Completes crypto s (.returned value) s value := .refl

/-- `put` is the call put, alone. -/
theorem put_completes (bytes : List UInt8) :
    Completes crypto s (.put bytes) (s.put crypto bytes).2
      (.hash (s.put crypto bytes).1) := by
  unfold ObjectFiles.put
  split
  case isTrue h => exact .step (if_pos h) (.step rfl .returned)
  case isFalse h => exact .step (if_neg h) (.step rfl (.step rfl .returned))

theorem verified_completes (hash : Bytes 32) (bytes : List UInt8) :
    ∃ value, Completes crypto s (.verified crypto hash bytes)
        (s.verified crypto hash bytes).2 value
      ∧ ∀ object, (s.verified crypto hash bytes).1 = .ok object
        ↔ value = .object object := by
  unfold ObjectCall.verified ObjectFiles.verified ObjectFiles.verifyHash
  by_cases h : crypto.blake3 bytes = hash
  · simp only [if_pos h]
    refine ⟨_, .step rfl .returned, fun object => ?_⟩
    simp
  · simp only [if_neg h]
    exact ⟨_, .returned, fun object => iff_of_false nofun nofun⟩

/-- `get` is the call get, alone. -/
theorem get_completes (hash : Bytes 32) :
    ∃ value, Completes crypto s (.get hash) (s.get crypto hash).2 value
      ∧ ∀ object, (s.get crypto hash).1 = .ok object
        ↔ value = .object object := by
  unfold ObjectFiles.get
  cases hrow : s.rows.get hash with
  | none =>
      have hfirst : (ObjectCall.get hash).resume crypto s
          = some (s, .returned (.object none)) := by
        simp only [ObjectCall.resume, hrow]
      refine ⟨_, .step hfirst .returned, fun object => ?_⟩
      simp [eq_comm]
  | some row =>
      dsimp only
      cases hinline : row.inline with
      | some bytes =>
          have hfirst : (ObjectCall.get hash).resume crypto s
              = some (s, .verified crypto hash bytes) := by
            simp only [ObjectCall.resume, hrow, hinline]
          obtain ⟨value, hrest, hvalue⟩ :=
            @verified_completes crypto s hash bytes
          exact ⟨value, .step hfirst hrest, hvalue⟩
      | none =>
          have hfirst : (ObjectCall.get hash).resume crypto s
              = some (s, .getBlob hash) := by
            simp only [ObjectCall.resume, hrow, hinline]
          dsimp only
          cases hblob : s.blobs hash with
          | some bytes =>
              have hsecond : (ObjectCall.getBlob hash).resume crypto s
                  = some (s, .verified crypto hash bytes) := by
                simp only [ObjectCall.resume, hblob]
              obtain ⟨value, hrest, hvalue⟩ :=
                @verified_completes crypto s hash bytes
              exact ⟨value, .step hfirst (.step hsecond hrest), hvalue⟩
          | none =>
              have hsecond : (ObjectCall.getBlob hash).resume crypto s
                  = some (s, .returned .io) := by
                simp only [ObjectCall.resume, hblob]
              refine ⟨_, .step hfirst (.step hsecond .returned), fun object => ?_⟩
              simp

end alone

-- ======================================================== what is held

/-- Where a hash is indexed, an object of that hash is. -/
def Intact (crypto : Crypto) (s : ObjectFiles) : Prop :=
  ∀ hash, s.rows.get hash ≠ none →
    ∃ object, contents s hash = some object ∧ crypto.blake3 object.1 = hash

/-- The objects. -/
def heldObjects (s : ObjectFiles) : Set (List UInt8) :=
  {bytes | ∃ hash pinned, contents s hash = some (bytes, pinned)}

section store

variable {crypto : Crypto} {s : ObjectFiles} {bytes : List UInt8}

theorem rows_of_contents {hash : Bytes 32} {object : List UInt8 × Bool}
    (h : contents s hash = some object) : s.rows.get hash ≠ none := by
  intro hnone
  simp only [contents, hnone, reduceCtorEq] at h

theorem Intact.blake3 (hintact : Intact crypto s) {hash : Bytes 32}
    {object : List UInt8 × Bool} (h : contents s hash = some object) :
    crypto.blake3 object.1 = hash := by
  obtain ⟨object', hobject', hhash⟩ := hintact hash (rows_of_contents h)
  obtain rfl := Option.some.inj (h.symm.trans hobject')
  exact hhash

/-- Nothing else is held under the hash of the bytes. -/
theorem Intact.unique (hintact : Intact crypto s)
    (hideal : Set.InjOn crypto.blake3 (insert bytes (heldObjects s)))
    {object : List UInt8 × Bool}
    (h : contents s (crypto.blake3 bytes) = some object) :
    object.1 = bytes :=
  hideal (Set.mem_insert_of_mem _ ⟨_, object.2, h⟩) (Set.mem_insert _ _)
    (hintact.blake3 h)

theorem put_fst : (s.put crypto bytes).1 = crypto.blake3 bytes := by
  unfold ObjectFiles.put
  split
  · rfl
  · rfl

/-- On what is held, `put` is that of the object store. -/
theorem contents_put (hintact : Intact crypto s)
    (hideal : Set.InjOn crypto.blake3 (insert bytes (heldObjects s))) :
    contents (s.put crypto bytes).2 = (contents s).put crypto bytes := by
  have hrow : s.rows.get (crypto.blake3 bytes) ≠ none →
      contents s (crypto.blake3 bytes) ≠ none := by
    intro h
    obtain ⟨object, hobject, -⟩ := hintact _ h
    rw [hobject]
    exact Option.some_ne_none _
  unfold ObjectFiles.put
  split
  case isTrue => exact contents_insertObject (Or.inl rfl) hrow
  case isFalse =>
    have hblob : contents (s.writeBlob crypto bytes) = contents s := by
      refine contents_writeBlob fun row hget hinline => ?_
      have hne : s.rows.get (crypto.blake3 bytes) ≠ none := by
        rw [hget]
        exact Option.some_ne_none _
      obtain ⟨object, hobject, -⟩ := hintact _ hne
      have hbytes := hintact.unique hideal hobject
      simp only [contents, hget, hinline] at hobject
      obtain ⟨bytes', hblob, rfl⟩ := Option.map_eq_some_iff.mp hobject
      exact hblob.trans (congrArg some hbytes)
    have hinsert := @contents_insertObject crypto (s.writeBlob crypto bytes) _ none
      s.unixNow (Or.inr ⟨rfl, Table.insert_self ..⟩) (by rwa [hblob])
    rwa [hblob] at hinsert

/-- The object is held afterwards. -/
theorem contents_put_self (hintact : Intact crypto s)
    (hideal : Set.InjOn crypto.blake3 (insert bytes (heldObjects s))) :
    ∃ pinned, contents (s.put crypto bytes).2 (crypto.blake3 bytes)
      = some (bytes, pinned) := by
  rw [contents_put hintact hideal]
  cases h : contents s (crypto.blake3 bytes) with
  | none => exact ⟨false, Table.insertOrIgnore_of_none _ h⟩
  | some object =>
      obtain rfl := hintact.unique hideal h
      exact ⟨object.2, Table.insertOrIgnore_of_some _ _ h⟩

/-- And the others as they were. -/
theorem contents_put_other (hintact : Intact crypto s)
    (hideal : Set.InjOn crypto.blake3 (insert bytes (heldObjects s)))
    {hash : Bytes 32} (hne : hash ≠ crypto.blake3 bytes) :
    contents (s.put crypto bytes).2 hash = contents s hash := by
  rw [contents_put hintact hideal]
  exact Table.insertOrIgnore_of_ne _ _ hne

theorem held_put (hintact : Intact crypto s)
    (hideal : Set.InjOn crypto.blake3 (insert bytes (heldObjects s))) :
    heldObjects (s.put crypto bytes).2 ⊆ insert bytes (heldObjects s) := by
  rintro object ⟨hash, pinned, h⟩
  by_cases heq : hash = crypto.blake3 bytes
  · subst heq
    obtain ⟨pinned', hself⟩ := contents_put_self hintact hideal
    rw [hself] at h
    exact Or.inl (Prod.mk.inj (Option.some.inj h)).1.symm
  · rw [contents_put_other hintact hideal heq] at h
    exact Or.inr ⟨hash, pinned, h⟩

theorem rows_put (hash : Bytes 32) :
    (s.put crypto bytes).2.rows.get hash ≠ none ↔
      hash = crypto.blake3 bytes ∨ s.rows.get hash ≠ none := by
  have hrows : ∃ row, (s.put crypto bytes).2.rows
      = s.rows.insertOrIgnore (crypto.blake3 bytes) row := by
    unfold ObjectFiles.put
    split
    · exact ⟨_, rfl⟩
    · exact ⟨_, rfl⟩
  obtain ⟨row, hrows⟩ := hrows
  rw [hrows, Rows.get_insertOrIgnore]
  by_cases heq : hash = crypto.blake3 bytes
  · simp [heq]
  · simp [heq]

/-- A put keeps what was kept. -/
theorem Intact.put (hintact : Intact crypto s)
    (hideal : Set.InjOn crypto.blake3 (insert bytes (heldObjects s))) :
    Intact crypto (s.put crypto bytes).2 := by
  intro hash hrow
  by_cases heq : hash = crypto.blake3 bytes
  · obtain ⟨pinned, hself⟩ := contents_put_self hintact hideal
    exact ⟨_, heq ▸ hself, heq.symm⟩
  · have hold := (rows_put hash).mp hrow
    obtain ⟨object, hobject, hhash⟩ := hintact hash (hold.resolve_left heq)
    exact ⟨object, by rwa [contents_put_other hintact hideal heq], hhash⟩

/-- The objects one after the other. -/
def putAll (crypto : Crypto) (s : ObjectFiles)
    (objects : List (List UInt8)) : ObjectFiles :=
  objects.foldl (fun s bytes => (s.put crypto bytes).2) s

/-- They are all held then, and so is what was before. -/
theorem putAll_intact {objects : List (List UInt8)} (hintact : Intact crypto s)
    (hideal : Set.InjOn crypto.blake3 ({o | o ∈ objects} ∪ heldObjects s)) :
    Intact crypto (putAll crypto s objects)
      ∧ (∀ hash object, contents s hash = some object →
        contents (putAll crypto s objects) hash = some object)
      ∧ ∀ o ∈ objects, ∃ pinned,
        contents (putAll crypto s objects) (crypto.blake3 o)
          = some (o, pinned) := by
  induction objects generalizing s with
  | nil => exact ⟨hintact, fun _ _ h => h, fun _ h => absurd h List.not_mem_nil⟩
  | cons o rest ih =>
      have hfirst : Set.InjOn crypto.blake3 (insert o (heldObjects s)) := by
        refine hideal.mono (Set.insert_subset ?_ Set.subset_union_right)
        exact Or.inl List.mem_cons_self
      have hrest : Set.InjOn crypto.blake3
          ({o | o ∈ rest} ∪ heldObjects (s.put crypto o).2) := by
        refine hideal.mono (Set.union_subset ?_ ?_)
        · exact fun o' h => Or.inl (List.mem_cons_of_mem _ h)
        · refine (held_put hintact hfirst).trans (Set.insert_subset ?_ ?_)
          · exact Or.inl List.mem_cons_self
          · exact Set.subset_union_right
      obtain ⟨hintact', hstays, hheld⟩ := ih (hintact.put hfirst) hrest
      refine ⟨hintact', fun hash object h => hstays hash object ?_, ?_⟩
      · rw [contents_put hintact hfirst]
        exact Table.insertOrIgnore_of_some _ _ h
      · intro o' ho'
        rcases List.mem_cons.mp ho' with rfl | hmem
        · obtain ⟨pinned, hself⟩ := contents_put_self hintact hfirst
          exact ⟨pinned, hstays _ _ hself⟩
        · exact hheld o' hmem

-- ============================================================== reading

/-- What can be read of an object. -/
theorem get_of_contents {hash : Bytes 32} {object : List UInt8 × Bool}
    (h : contents s hash = some object)
    (hhash : crypto.blake3 object.1 = hash) :
    (s.get crypto hash).1 = .ok (some object.1) := by
  have hverified (bytes : List UInt8) (hbytes : bytes = object.1) :
      (s.verified crypto hash bytes).1 = .ok (some object.1) := by
    rw [ObjectFiles.verified, ObjectFiles.verifyHash, hbytes, if_pos hhash]
  unfold contents at h
  unfold ObjectFiles.get
  cases hrow : s.rows.get hash with
  | none => simp only [hrow, reduceCtorEq] at h
  | some row =>
      simp only [hrow] at h
      cases hinline : row.inline with
      | some bytes =>
          simp only [hinline, Option.some.injEq] at h
          simp only [hinline]
          exact hverified bytes (by rw [← h])
      | none =>
          simp only [hinline] at h
          obtain ⟨bytes, hblob, heq⟩ := Option.map_eq_some_iff.mp h
          simp only [hinline, hblob]
          exact hverified bytes (by rw [← heq])

/-- Reading an object only notes when. -/
theorem get_snd (hash : Bytes 32) :
    (s.get crypto hash).2 = s ∨ (s.get crypto hash).2 = s.touch hash := by
  have hverified (bytes : List UInt8) :
      (s.verified crypto hash bytes).2 = s
        ∨ (s.verified crypto hash bytes).2 = s.touch hash := by
    unfold ObjectFiles.verified
    split
    · exact Or.inl rfl
    · exact Or.inr rfl
  unfold ObjectFiles.get
  split
  · exact Or.inl rfl
  · split
    · exact hverified _
    · split
      · exact hverified _
      · exact Or.inl rfl

theorem get_touch (hash hash' : Bytes 32) :
    ((s.touch hash).get crypto hash').1 = (s.get crypto hash').1 := by
  have hverified (bytes : List UInt8) :
      ((s.touch hash).verified crypto hash' bytes).1
        = (s.verified crypto hash' bytes).1 := by
    unfold ObjectFiles.verified
    split
    · rfl
    · rfl
  have hinline : ((s.touch hash).rows.get hash').map (·.inline)
      = (s.rows.get hash').map (·.inline) := by
    rw [ObjectFiles.touch, Rows.get_update]
    split
    case isTrue heq =>
      subst heq
      rw [Option.map_map]
      rfl
    case isFalse => rfl
  have hblobs : (s.touch hash).blobs = s.blobs := rfl
  unfold ObjectFiles.get
  rw [hblobs]
  cases hrow : s.rows.get hash' with
  | none =>
      rw [hrow, Option.map_none, Option.map_eq_none_iff] at hinline
      rw [hinline]
  | some row =>
      rw [hrow, Option.map_some] at hinline
      obtain ⟨row', hrow', heq⟩ := Option.map_eq_some_iff.mp hinline
      rw [hrow']
      dsimp only
      rw [heq]
      cases row.inline with
      | some bytes => exact hverified bytes
      | none =>
          dsimp only
          cases s.blobs hash' with
          | some bytes => exact hverified bytes
          | none => rfl

/-- So the next object is read as if none had been. -/
theorem get_next {s' : ObjectFiles} {hash : Bytes 32}
    {got : Except StorageError (Option (List UInt8))}
    (h : s.get crypto hash = (got, s')) (hash' : Bytes 32) :
    (s'.get crypto hash').1 = (s.get crypto hash').1 := by
  have hsnd := @get_snd crypto s hash
  rw [h] at hsnd
  rcases hsnd with rfl | rfl
  · rfl
  · exact get_touch hash hash'

end store

-- =============================================================== assembling

section assembling

variable {crypto : Crypto} {s : ObjectFiles}

/-- The pieces the hashes list. -/
def Listed (crypto : Crypto) (s : ObjectFiles) (hashes : List (Bytes 32))
    (pieces : List (List UInt8)) : Prop :=
  List.Forall₂ (fun h piece => (s.get crypto h).1 = .ok (some piece)) hashes
    pieces

/-- The bytes that are fetched, up to the first piece that is not there. -/
def fetched (crypto : Crypto) (s : ObjectFiles) : List (Bytes 32) → List UInt8
  | [] => []
  | h :: rest =>
      match (s.get crypto h).1 with
      | .ok (some piece) => piece ++ fetched crypto s rest
      | _ => []

theorem appendChunks_panicked {t : ObjectFiles}
    (hreads : ∀ h, (t.get crypto h).1 = (s.get crypto h).1)
    {out : List UInt8} {hashes : List (Bytes 32)}
    (hout : out.length ≤ isizeMax) :
    (appendChunks crypto t out hashes).1 = .panicked
      ↔ isizeMax < out.length + (fetched crypto s hashes).length := by
  induction hashes generalizing t out with
  | nil =>
      refine iff_of_false (fun h => by cases h) ?_
      rw [fetched, List.length_nil]
      omega
  | cons h rest ih =>
      have hquiet : ¬ isizeMax < out.length + ([] : List UInt8).length := by
        rw [List.length_nil]
        omega
      rw [fetched, ← hreads h, appendChunks]
      rcases hget : t.get crypto h with ⟨got, t'⟩
      have hsame : ∀ h', (t'.get crypto h').1 = (s.get crypto h').1 :=
        fun h' => (get_next hget h').trans (hreads h')
      cases got with
      | error e => exact iff_of_false (fun h => by cases h) hquiet
      | ok piece =>
          cases piece with
          | none => exact iff_of_false (fun h => by cases h) hquiet
          | some piece =>
              dsimp only
              rw [List.length_append]
              split
              case isTrue hlarge =>
                exact iff_of_true rfl (by omega)
              case isFalse hfits =>
                have hlen : (out ++ piece).length
                    = out.length + piece.length := List.length_append
                rw [ih hsame (by omega), hlen, Nat.add_assoc]

theorem appendChunks_ok {t : ObjectFiles}
    (hreads : ∀ h, (t.get crypto h).1 = (s.get crypto h).1)
    {out whole : List UInt8} {hashes : List (Bytes 32)}
    (hout : out.length ≤ isizeMax) :
    (appendChunks crypto t out hashes).1 = .ok whole
      ↔ ∃ pieces, Listed crypto s hashes pieces
        ∧ whole = out ++ pieces.flatten ∧ whole.length ≤ isizeMax := by
  induction hashes generalizing t out with
  | nil =>
      constructor
      · intro h
        cases h
        exact ⟨[], .nil, (List.append_nil _).symm, hout⟩
      · rintro ⟨pieces, hlisted, rfl, -⟩
        cases hlisted
        rw [List.flatten_nil, List.append_nil]
        rfl
  | cons h rest ih =>
      rw [appendChunks]
      have hfirst := hreads h
      rcases hget : t.get crypto h with ⟨got, t'⟩
      rw [hget] at hfirst
      have hsame : ∀ h', (t'.get crypto h').1 = (s.get crypto h').1 :=
        fun h' => (get_next hget h').trans (hreads h')
      have hlost (hgot : ∀ piece, got ≠ .ok (some piece)) :
          ¬ ∃ pieces, Listed crypto s (h :: rest) pieces
            ∧ whole = out ++ pieces.flatten ∧ whole.length ≤ isizeMax := by
        rintro ⟨pieces, hlisted, -⟩
        cases hlisted with
        | cons hpiece _ => exact hgot _ (hfirst.trans hpiece)
      cases got with
      | error e => exact iff_of_false (fun h => by cases h) (hlost nofun)
      | ok piece =>
          cases piece with
          | none => exact iff_of_false (fun h => by cases h) (hlost nofun)
          | some piece =>
              have hpieces : (∃ pieces, Listed crypto s rest pieces
                    ∧ whole = out ++ piece ++ pieces.flatten
                    ∧ whole.length ≤ isizeMax)
                  ↔ ∃ pieces, Listed crypto s (h :: rest) pieces
                    ∧ whole = out ++ pieces.flatten
                    ∧ whole.length ≤ isizeMax := by
                constructor
                · rintro ⟨pieces, hlisted, hwhole, hlen⟩
                  refine ⟨piece :: pieces, .cons hfirst.symm hlisted, ?_, hlen⟩
                  rw [hwhole, List.flatten_cons, List.append_assoc]
                · rintro ⟨pieces, hlisted, hwhole, hlen⟩
                  cases hlisted with
                  | cons hpiece hrest =>
                      have heq := hfirst.trans hpiece
                      obtain rfl := Option.some.inj (Except.ok.inj heq)
                      refine ⟨_, hrest, ?_, hlen⟩
                      rw [hwhole, List.flatten_cons, List.append_assoc]
              dsimp only
              split
              case isTrue hlarge =>
                refine iff_of_false (fun h => by cases h) ?_
                rw [← hpieces]
                rintro ⟨pieces, -, rfl, hlen⟩
                rw [List.length_append, List.length_append] at hlen
                omega
              case isFalse hfits =>
                rw [ih hsame (by rw [List.length_append]; omega), hpieces]

/-- What a manifest reference stands for: the pieces it lists, one after the
other, of the length it says. -/
def Assembled (crypto : Crypto) (s : ObjectFiles) (hash : Bytes 32)
    (out : List UInt8) : Prop :=
  ∃ manifest totalSize hashes pieces,
    (s.get crypto hash).1 = .ok (some manifest)
    ∧ decodeManifest manifest = .ok (totalSize, hashes)
    ∧ Listed crypto s hashes pieces
    ∧ out = pieces.flatten ∧ out.length = totalSize.toNat

/-- What the manifest makes a vector hold, from its start to its end, is no
more than a vector can. -/
def FitsVec (crypto : Crypto) (s : ObjectFiles) (r : Reference) : Prop :=
  r.mime = manifestMime → ∀ manifest totalSize hashes,
    (s.get crypto r.hash).1 = .ok (some manifest) →
    decodeManifest manifest = .ok (totalSize, hashes) →
    totalSize.toNat ≤ isizeMax
      ∧ (fetched crypto s hashes).length ≤ isizeMax

/-- The manifest's total and its pieces, once the total is allocated. -/
theorem assemble_panicked {t : ObjectFiles}
    (hreads : ∀ h, (t.get crypto h).1 = (s.get crypto h).1)
    {manifest : List UInt8} :
    (t.assemble crypto manifest).1 = .panicked
      ↔ ∃ totalSize hashes, decodeManifest manifest = .ok (totalSize, hashes)
        ∧ (isizeMax < totalSize.toNat
          ∨ isizeMax < (fetched crypto s hashes).length) := by
  unfold ObjectFiles.assemble
  cases hdecode : decodeManifest manifest with
  | error e =>
      refine iff_of_false (fun h => by cases h) ?_
      rintro ⟨_, _, h, -⟩
      cases h
  | ok decoded =>
      obtain ⟨totalSize, hashes⟩ := decoded
      have hpanic := @appendChunks_panicked crypto s t hreads [] hashes
        (Nat.zero_le _)
      rw [List.length_nil, Nat.zero_add] at hpanic
      have hother : (∃ totalSize' hashes',
            Except.ok (totalSize, hashes) = Except.ok (ε := Core.Error)
              (totalSize', hashes')
            ∧ (isizeMax < totalSize'.toNat
              ∨ isizeMax < (fetched crypto s hashes').length))
          ↔ isizeMax < totalSize.toNat
            ∨ isizeMax < (fetched crypto s hashes).length := by
        constructor
        · rintro ⟨_, _, heq, h⟩
          cases heq
          exact h
        · exact fun h => ⟨_, _, rfl, h⟩
      rw [hother, ← hpanic]
      dsimp only
      split
      case isTrue hlarge => exact iff_of_true rfl (Or.inl hlarge)
      case isFalse hfits =>
        rw [or_iff_right hfits]
        rcases appendChunks crypto t [] hashes with ⟨outcome, t'⟩
        cases outcome with
        | panicked => exact Iff.rfl
        | err e => exact Iff.rfl
        | ok out =>
            dsimp only
            split
            · exact iff_of_false (fun h => by cases h) fun h => by cases h
            · exact Iff.rfl

theorem assemble_ok {t : ObjectFiles}
    (hreads : ∀ h, (t.get crypto h).1 = (s.get crypto h).1)
    {manifest out : List UInt8} :
    (t.assemble crypto manifest).1 = .ok out
      ↔ ∃ totalSize hashes pieces,
        decodeManifest manifest = .ok (totalSize, hashes)
        ∧ totalSize.toNat ≤ isizeMax ∧ Listed crypto s hashes pieces
        ∧ out = pieces.flatten ∧ out.length = totalSize.toNat := by
  unfold ObjectFiles.assemble
  cases hdecode : decodeManifest manifest with
  | error e =>
      refine iff_of_false (fun h => by cases h) ?_
      rintro ⟨_, _, _, h, -⟩
      cases h
  | ok decoded =>
      obtain ⟨totalSize, hashes⟩ := decoded
      dsimp only
      split
      case isTrue hlarge =>
        refine iff_of_false (fun h => by cases h) ?_
        rintro ⟨_, _, _, heq, hfits, -⟩
        cases heq
        omega
      case isFalse hfits =>
        have hok {whole} := @appendChunks_ok crypto s t hreads [] whole hashes
          (Nat.zero_le _)
        simp only [List.nil_append] at hok
        rcases hrun : appendChunks crypto t [] hashes with ⟨outcome, t'⟩
        rw [hrun] at hok
        have hnone (hno : ∀ whole, outcome ≠ .ok whole) :
            ¬ ∃ totalSize' hashes' pieces,
              Except.ok (totalSize, hashes) = Except.ok (ε := Core.Error)
                (totalSize', hashes')
              ∧ totalSize'.toNat ≤ isizeMax ∧ Listed crypto s hashes' pieces
              ∧ out = pieces.flatten ∧ out.length = totalSize'.toNat := by
          rintro ⟨_, _, pieces, heq, hmax, hlisted, hout, hlen⟩
          cases heq
          exact hno out (hok.mpr ⟨pieces, hlisted, hout, hlen ▸ hmax⟩)
        cases outcome with
        | panicked => exact iff_of_false (fun h => by cases h) (hnone nofun)
        | err e => exact iff_of_false (fun h => by cases h) (hnone nofun)
        | ok whole =>
            obtain ⟨pieces, hlisted, hwhole, hlen⟩ := hok.mp rfl
            have htotal : UInt64.ofNat whole.length = totalSize
                ↔ whole.length = totalSize.toNat := by
              rw [← UInt64.toNat_inj, UInt64.toNat_ofNat_of_lt']
              exact Nat.lt_of_le_of_lt hlen (by decide)
            dsimp only
            split
            case isTrue hne =>
              refine iff_of_false (fun h => by cases h) ?_
              rintro ⟨_, _, pieces', heq, hmax, hlisted', hout, hlen'⟩
              cases heq
              have h := hok.mpr ⟨pieces', hlisted', hout, hlen' ▸ hmax⟩
              cases h
              exact hne (htotal.mpr hlen')
            case isFalse heq =>
              have hlen' := htotal.mp (not_not.mp heq)
              constructor
              · intro h
                cases h
                exact ⟨_, _, pieces, rfl, by omega, hlisted, hwhole, hlen'⟩
              · rintro ⟨_, _, pieces', heq, hmax, hlisted', hout, hlen''⟩
                cases heq
                have h := hok.mpr ⟨pieces', hlisted', hout, hlen'' ▸ hmax⟩
                cases h
                rfl

theorem getChunked_panicked {r : Reference} :
    (s.getChunked crypto r).1 = .panicked ↔ ¬ FitsVec crypto s r := by
  have hnone (hno : r.mime = manifestMime → ∀ manifest,
      (s.get crypto r.hash).1 ≠ .ok (some manifest)) : FitsVec crypto s r :=
    fun hmime manifest _ _ hget => absurd hget (hno hmime manifest)
  unfold ObjectFiles.getChunked
  rcases hget : s.get crypto r.hash with ⟨got, t⟩
  rw [hget] at hnone
  cases got with
  | error e =>
      exact iff_of_false nofun (not_not.mpr (hnone fun _ _ => nofun))
  | ok object =>
      cases object with
      | none =>
          exact iff_of_false nofun (not_not.mpr (hnone fun _ _ => nofun))
      | some bytes =>
          dsimp only
          split
          case isTrue hmime =>
            exact iff_of_false nofun
              (not_not.mpr (hnone fun heq => absurd heq hmime))
          case isFalse hmime =>
            rw [assemble_panicked (get_next hget)]
            constructor
            · rintro ⟨totalSize, hashes, hdecode, hlarge⟩ hfits
              obtain ⟨htotal, hlen⟩ := hfits (not_not.mp hmime) bytes totalSize
                hashes (congrArg Prod.fst hget) hdecode
              omega
            · intro hnot
              by_contra hfits
              refine hnot fun _ manifest totalSize hashes hmanifest hdecode => ?_
              rw [hget] at hmanifest
              cases hmanifest
              obtain ⟨htotal, hlen⟩ := not_or.mp fun h =>
                hfits ⟨totalSize, hashes, hdecode, h⟩
              exact ⟨Nat.not_lt.mp htotal, Nat.not_lt.mp hlen⟩

theorem assembled_of_getChunked {r : Reference} {out : List UInt8}
    (h : (s.getChunked crypto r).1 = .ok out) (hmime : r.mime = manifestMime) :
    Assembled crypto s r.hash out := by
  unfold ObjectFiles.getChunked at h
  rcases hget : s.get crypto r.hash with ⟨got, t⟩
  rw [hget] at h
  cases got with
  | error e => cases h
  | ok object =>
      cases object with
      | none => cases h
      | some manifest =>
          dsimp only at h
          rw [if_neg (not_not.mpr hmime), assemble_ok (get_next hget)] at h
          obtain ⟨totalSize, hashes, pieces, hdecode, -, hpieces⟩ := h
          exact ⟨manifest, totalSize, hashes, pieces,
            congrArg Prod.fst hget, hdecode, hpieces⟩

end assembling

/-- The bytes of a manifest reference are the pieces it lists, of the length
it says, for every store and every reference; and the call does not panic
exactly when the total it declares and the pieces fit a vector. -/
theorem assembles_unless_huge (crypto : Crypto) (s : ObjectFiles)
    (r : Reference) :
    ((s.getChunked crypto r).1 ≠ .panicked
      ∧ ∀ out, (s.getChunked crypto r).1 = .ok out → r.mime = manifestMime →
        Assembled crypto s r.hash out)
      ↔ FitsVec crypto s r := by
  rw [Ne, getChunked_panicked, not_not]
  exact and_iff_left fun out h hmime => assembled_of_getChunked h hmime

-- ================================================================ putting

section putting

variable {crypto : Crypto} {s : ObjectFiles}

/-- The reference to a chunk. -/
def chunkReference (crypto : Crypto) (chunk : List UInt8) : Reference :=
  .new (crypto.blake3 chunk) (UInt64.ofNat chunk.length) chunkMime

theorem put_eq (bytes : List UInt8) :
    s.put crypto bytes = (crypto.blake3 bytes, putAll crypto s [bytes]) :=
  Prod.ext put_fst rfl

theorem putChunks_eq (cs : List (List UInt8)) :
    putChunks crypto s cs
      = (cs.map (chunkReference crypto), cs.map crypto.blake3,
        putAll crypto s cs) := by
  induction cs generalizing s with
  | nil => rfl
  | cons chunk rest ih =>
      rw [putChunks, put_eq]
      dsimp only
      rw [ih]
      rfl

/-- The manifest of the bytes. -/
def manifestOf (crypto : Crypto) (bytes : List UInt8) : List UInt8 :=
  encodeManifest (UInt64.ofNat bytes.length)
    ((chunks chunkMax bytes).map crypto.blake3)

/-- The reference to the bytes, and what was put for them. -/
structure PutChunked (crypto : Crypto) (s : ObjectFiles) (bytes : List UInt8)
    (r : Reference) (s' : ObjectFiles) : Prop where
  size : r.size.toNat = bytes.length
  single : bytes.length ≤ chunkMax → r.deps = [] ∧ s' = putAll crypto s [bytes]
  chunked : chunkMax < bytes.length →
    r.deps = (chunks chunkMax bytes).map (chunkReference crypto)
    ∧ s' = putAll crypto s
      (chunks chunkMax bytes ++ [manifestOf crypto bytes])
  /-- The chunks are the bytes in order. -/
  flatten : (chunks chunkMax bytes).flatten = bytes
  bounded : ∀ chunk ∈ chunks chunkMax bytes, chunk.length ≤ chunkMax
  sum : chunkMax < bytes.length →
    (r.deps.map fun d => d.size.toNat).sum = bytes.length

theorem sum_chunkReference {cs : List (List UInt8)}
    (hlen : ∀ chunk ∈ cs, chunk.length < 2 ^ 64) :
    ((cs.map (chunkReference crypto)).map fun d => d.size.toNat).sum
      = cs.flatten.length := by
  have hsizes : (cs.map (chunkReference crypto)).map (fun d => d.size.toNat)
      = cs.map List.length := by
    rw [List.map_map]
    refine List.map_congr_left fun chunk hchunk => ?_
    exact UInt64.toNat_ofNat_of_lt' (hlen chunk hchunk)
  rw [hsizes, sum_length_flatten]

theorem putChunked_single {bytes : List UInt8}
    (h : bytes.length ≤ chunkMax) :
    s.putChunked crypto bytes
      = (.new (crypto.blake3 bytes) (UInt64.ofNat bytes.length) singleMime,
        putAll crypto s [bytes]) := by
  rw [ObjectFiles.putChunked, if_pos h, put_eq]

theorem putChunked_chunked {bytes : List UInt8}
    (h : chunkMax < bytes.length) :
    s.putChunked crypto bytes
      = (.mk (crypto.blake3 (manifestOf crypto bytes))
          (UInt64.ofNat bytes.length) manifestMime []
          ((chunks chunkMax bytes).map (chunkReference crypto)),
        putAll crypto s
          (chunks chunkMax bytes ++ [manifestOf crypto bytes])) := by
  rw [ObjectFiles.putChunked, if_neg (Nat.not_le.mpr h), putChunks_eq]
  dsimp only
  rw [put_eq]
  dsimp only
  rw [putAll, putAll, putAll, ← List.foldl_append]
  rfl

theorem length_of_count {bytes : List UInt8}
    (hcount : (chunks chunkMax bytes).length < 2 ^ 20) :
    bytes.length < 2 ^ 38 := by
  have hlen := length_le_chunks (by decide : chunkMax ≠ 0) bytes
  have hmax : chunkMax = 2 ^ 18 := rfl
  rw [hmax] at hlen hcount
  omega

theorem putChunked_spec {bytes : List UInt8}
    (hcount : (chunks chunkMax bytes).length < 2 ^ 20) :
    PutChunked crypto s bytes (s.putChunked crypto bytes).1
      (s.putChunked crypto bytes).2 := by
  have hlen := length_of_count hcount
  have hsize : (UInt64.ofNat bytes.length).toNat = bytes.length :=
    UInt64.toNat_ofNat_of_lt' (Nat.lt_trans hlen (by decide))
  have hflatten := flatten_chunks (by decide : chunkMax ≠ 0) bytes
  have hmax : ∀ chunk ∈ chunks chunkMax bytes, chunk.length ≤ chunkMax :=
    fun _ h => length_of_mem_chunks h
  by_cases h : bytes.length ≤ chunkMax
  · rw [putChunked_single h]
    exact ⟨hsize, fun _ => ⟨rfl, rfl⟩, fun h' => absurd h (Nat.not_le.mpr h'),
      hflatten, hmax, fun h' => absurd h (Nat.not_le.mpr h')⟩
  · rw [putChunked_chunked (Nat.not_le.mp h)]
    refine ⟨hsize, fun h' => absurd h' h, fun _ => ⟨rfl, rfl⟩, hflatten, hmax,
      fun _ => ?_⟩
    refine (sum_chunkReference fun chunk hchunk => ?_).trans
      (congrArg List.length hflatten)
    exact Nat.lt_of_le_of_lt (hmax chunk hchunk) (by decide)

end putting

/-- What was put in chunks comes back, whatever else is held; and the
reference says what was put. -/
theorem chunked_round_trip {crypto : Crypto} {s : ObjectFiles}
    {bytes : List UInt8} (hintact : Intact crypto s)
    (hideal : Set.InjOn crypto.blake3
      ({o | o ∈ chunkedObjects crypto bytes} ∪ heldObjects s))
    (hcount : (chunks chunkMax bytes).length < 2 ^ 20) :
    ((s.putChunked crypto bytes).2.getChunked crypto
        (s.putChunked crypto bytes).1).1 = .ok bytes
      ∧ PutChunked crypto s bytes (s.putChunked crypto bytes).1
        (s.putChunked crypto bytes).2 := by
  refine ⟨?_, putChunked_spec hcount⟩
  have hlen := length_of_count hcount
  by_cases h : bytes.length ≤ chunkMax
  · rw [chunkedObjects, if_pos h] at hideal
    rw [putChunked_single h]
    obtain ⟨-, -, hheld⟩ := putAll_intact hintact hideal
    obtain ⟨pinned, hself⟩ := hheld bytes (List.mem_singleton.mpr rfl)
    have hget := get_of_contents hself rfl
    rcases hread : (putAll crypto s [bytes]).get crypto (crypto.blake3 bytes)
      with ⟨got, t⟩
    rw [hread] at hget
    obtain rfl : got = .ok (some bytes) := hget
    unfold ObjectFiles.getChunked
    rw [show (Reference.new (crypto.blake3 bytes) (UInt64.ofNat bytes.length)
      singleMime).hash = crypto.blake3 bytes from rfl, hread]
    have hmime : singleMime ≠ manifestMime := by decide
    exact congrArg Prod.fst (if_pos hmime)
  · have h := Nat.not_le.mp h
    rw [chunkedObjects, if_neg (Nat.not_le.mpr h)] at hideal
    rw [putChunked_chunked h]
    obtain ⟨-, -, hheld⟩ := putAll_intact hintact hideal
    let s' := putAll crypto s (chunks chunkMax bytes ++ [manifestOf crypto bytes])
    obtain ⟨pinned, hself⟩ := hheld (manifestOf crypto bytes)
      (List.mem_append_right _ (List.mem_singleton.mpr rfl))
    have hget : (s'.get crypto (crypto.blake3 (manifestOf crypto bytes))).1
        = .ok (some (manifestOf crypto bytes)) := get_of_contents hself rfl
    have hlisted : Listed crypto s' ((chunks chunkMax bytes).map crypto.blake3)
        (chunks chunkMax bytes) := by
      refine List.forall₂_map_left_iff.mpr (List.forall₂_same.mpr ?_)
      intro chunk hchunk
      obtain ⟨pinned, hself⟩ := hheld chunk (List.mem_append_left _ hchunk)
      exact get_of_contents hself rfl
    have hsize : (UInt64.ofNat bytes.length).toNat = bytes.length :=
      UInt64.toNat_ofNat_of_lt' (Nat.lt_trans hlen (by decide))
    have hmax : 2 ^ 38 ≤ isizeMax := by decide
    have hdecode : decodeManifest (manifestOf crypto bytes)
        = .ok (UInt64.ofNat bytes.length,
          (chunks chunkMax bytes).map crypto.blake3) := by
      refine decodeManifest_encodeManifest _ ?_
      rw [List.length_map]
      exact Nat.le_of_lt hcount
    rcases hread : s'.get crypto (crypto.blake3 (manifestOf crypto bytes))
      with ⟨got, t⟩
    rw [hread] at hget
    obtain rfl : got = .ok (some (manifestOf crypto bytes)) := hget
    have hassembled := (assemble_ok (get_next hread)).mpr
      ⟨_, _, _, hdecode, by omega, hlisted,
        (flatten_chunks (by decide) bytes).symm, hsize.symm⟩
    show (s'.getChunked crypto _).1 = _
    unfold ObjectFiles.getChunked
    rw [show (Reference.mk (crypto.blake3 (manifestOf crypto bytes))
      (UInt64.ofNat bytes.length) manifestMime [] ((chunks chunkMax bytes).map
        (chunkReference crypto))).hash
      = crypto.blake3 (manifestOf crypto bytes) from rfl, hread]
    exact (congrArg Prod.fst (if_neg (not_not.mpr rfl))).trans hassembled

-- =========================================================== short inputs

theorem intact_init (crypto : Crypto) : Intact crypto .init :=
  fun _ h => absurd rfl h

theorem held_init : heldObjects .init = ∅ := by
  refine Set.eq_empty_of_forall_notMem ?_
  rintro bytes ⟨hash, pinned, h⟩
  cases h

theorem injOn_single (crypto : Crypto) (bytes : List UInt8) :
    Set.InjOn crypto.blake3 (insert bytes (heldObjects .init)) := by
  rw [held_init]
  exact (Set.injOn_singleton _ bytes).mono (by simp)

/-- A store with one object. -/
theorem get_put_init (crypto : Crypto) (bytes : List UInt8) :
    ((ObjectFiles.init.put crypto bytes).2.get crypto
      (crypto.blake3 bytes)).1 = .ok (some bytes) := by
  obtain ⟨pinned, hself⟩ := contents_put_self (intact_init crypto)
    (injOn_single crypto bytes)
  exact get_of_contents hself rfl

/-- One byte more than a chunk holds. -/
def twoChunks : List UInt8 := List.replicate chunkMax 0 ++ [1]

theorem chunks_twoChunks :
    chunks chunkMax twoChunks = [List.replicate chunkMax 0, [1]] := by
  rw [twoChunks, chunks_append (by decide) List.length_replicate,
    chunks_short (by decide) (by decide)]

theorem length_twoChunks : twoChunks.length = chunkMax + 1 := by
  rw [twoChunks, List.length_append, List.length_replicate]
  rfl

/-- Its manifest has the hashes of a chunk of zeros and of the last byte. -/
theorem manifestOf_twoChunks : manifestOf Crypto.legible twoChunks
    = encodeManifest 262145 [Bytes.fill 32 0, Crypto.legible.blake3 [1]] := by
  rw [manifestOf, chunks_twoChunks, length_twoChunks, List.map_cons,
    legible_zeros]
  rfl

/-- Two chunks and a manifest are put, and come back as the bytes, from a
store that holds one other object. -/
theorem chunked_round_trip_two :
    let s := (ObjectFiles.init.put Crypto.legible [7]).2
    ((s.putChunked Crypto.legible twoChunks).2.getChunked Crypto.legible
        (s.putChunked Crypto.legible twoChunks).1).1 = .ok twoChunks
      ∧ (s.putChunked Crypto.legible twoChunks).1.deps.length = 2 := by
  intro s
  have hintact : Intact Crypto.legible s :=
    (intact_init _).put (injOn_single _ _)
  have hlarge : chunkMax < twoChunks.length := by
    rw [length_twoChunks]
    exact Nat.lt_succ_self _
  have hobjects : chunkedObjects Crypto.legible twoChunks
      = [List.replicate chunkMax 0, [1],
        manifestOf Crypto.legible twoChunks] := by
    rw [chunkedObjects, if_neg (Nat.not_le.mpr hlarge)]
    show chunks chunkMax twoChunks ++ [manifestOf Crypto.legible twoChunks] = _
    rw [chunks_twoChunks]
    rfl
  have hheld : heldObjects s ⊆ {[7]} := by
    refine (held_put (intact_init _) (injOn_single _ _)).trans ?_
    rw [held_init]
    simp
  -- the four objects there are have four hashes
  have hnodup : ((chunkedObjects Crypto.legible twoChunks ++ [[7]]).map
      Crypto.legible.blake3).Nodup := by
    rw [hobjects, manifestOf_twoChunks, List.cons_append, List.map_cons,
      legible_zeros]
    decide
  have hideal : Set.InjOn Crypto.legible.blake3
      ({o | o ∈ chunkedObjects Crypto.legible twoChunks} ∪ heldObjects s) := by
    have hmem : ∀ o ∈ ({o | o ∈ chunkedObjects Crypto.legible twoChunks}
        ∪ heldObjects s : Set _),
        o ∈ chunkedObjects Crypto.legible twoChunks ++ [[7]] := by
      rintro o (ho | ho)
      · exact List.mem_append_left _ ho
      · exact List.mem_append_right _ (List.mem_singleton.mpr (hheld ho))
    intro a ha b hb heq
    exact List.inj_on_of_nodup_map hnodup (hmem a ha) (hmem b hb) heq
  have hcount : (chunks chunkMax twoChunks).length < 2 ^ 20 := by
    rw [chunks_twoChunks]
    decide
  obtain ⟨hback, hput⟩ := chunked_round_trip hintact hideal hcount
  refine ⟨hback, ?_⟩
  rw [(hput.chunked hlarge).1, List.length_map, chunks_twoChunks]
  rfl

/-- One byte is put as it is, and the dependencies do not add up to it. -/
theorem single_object_no_deps :
    (chunks chunkMax [0]).length < 2 ^ 20
    ∧ ((ObjectFiles.init.putChunked Crypto.legible [0]).1.deps.map
      fun d => d.size.toNat).sum ≠ [(0 : UInt8)].length := by
  constructor
  · rw [chunks_short (by decide) (by decide)]
    decide
  · rw [putChunked_single (by decide)]
    decide

/-- What the manifest declares: 2^63 bytes. -/
def hugeTotal : UInt64 := 0x8000000000000000

/-- And it lists no chunks. -/
def hugeManifest : List UInt8 := encodeManifest hugeTotal []

/-- The vector is allocated before anything is checked. -/
theorem huge_manifest_panics :
    ((ObjectFiles.init.put Crypto.legible hugeManifest).2.getChunked
      Crypto.legible (.new (Crypto.legible.blake3 hugeManifest) hugeTotal
        manifestMime)).1 = .panicked := by
  refine getChunked_panicked.mpr fun hfits => ?_
  have hdecode := @decodeManifest_encodeManifest hugeTotal [] (Nat.zero_le _)
  have hlarge := (hfits rfl hugeManifest hugeTotal []
    (get_put_init Crypto.legible hugeManifest) hdecode).1
  exact absurd hlarge (by decide)

end Sidevers.Proofs
