/-
What the object store keeps when its calls meet.

A call does one of few things to the table and the blobs in a step
(`ObjectMove`), and both results here are read off that. An indexed object
can be read whenever nobody puts or evicts it (`indexed_readable`), provided
that no eviction comes whole between the two halves of a put and the process
does not stop between the two halves of an eviction (`BlobKept`): put writes
the blob first and the row last, and so does an eviction remove them. And
`evict_to_budget` takes no pinned object (`pinned_kept`), if none is pinned
while it is on its list (`PinnedBefore`), which was made when it was not.
-/
import Sidevers.Net.ObjectCalls
import Sidevers.Net.StorageNode
import Sidevers.Proofs.SignedForms

namespace Sidevers.Proofs

open Sidevers.Core
open Sidevers.Lib
open Sidevers.Net

-- ========================================================== the steps

/-- The object whose row a call is about to delete, its blob removed. -/
def deletesRow : ObjectCall → Option (Bytes 32)
  | .evictRow hash _ => some hash
  | _ => none

/-- What the loop of `evict_to_budget` will evict. -/
def toEvict : List (Bytes 32 × UInt64) → UInt64 → List (Bytes 32)
  | [], _ => []
  | (hash, size) :: rest, bytesToDrop =>
      if bytesToDrop = 0 then []
      else hash :: toEvict rest (saturatingSub bytesToDrop size)

/-- What an `evict_to_budget` with a list has yet to evict. -/
def evicting : ObjectCall → List (Bytes 32)
  | .evictOne hash (some loop) | .evictBlob hash (some loop)
  | .evictRow hash (some loop) =>
      hash :: toEvict loop.candidates loop.bytesToDrop
  | _ => []

theorem evicting_next (loop : EvictLoop) :
    evicting loop.next = toEvict loop.candidates loop.bytesToDrop := by
  unfold EvictLoop.next
  cases loop.candidates with
  | nil => rfl
  | cons candidate rest =>
      unfold toEvict
      dsimp only
      split
      · rfl
      · rfl

theorem deletesRow_next (loop : EvictLoop) : deletesRow loop.next = none := by
  unfold EvictLoop.next
  cases loop.candidates with
  | nil => rfl
  | cons candidate rest =>
      dsimp only
      split
      · rfl
      · rfl

/-- What a call does in one step. -/
inductive ObjectMove (crypto : Crypto) (s : ObjectFiles) :
    ObjectCall → ObjectFiles → ObjectCall → Prop
  | looks {call call' : ObjectCall} {s' : ObjectFiles}
      (hrows : s'.rows = s.rows) (hblobs : s'.blobs = s.blobs)
      (hrow : deletesRow call = none)
      (hevicting : evicting call' = evicting call) :
      ObjectMove crypto s call s' call'
  | collects (budget total : UInt64) (loop : EvictLoop)
      (hloop : loop.candidates = s.candidates) :
      ObjectMove crypto s (.evictCandidates budget total) s loop.next
  | inserts (bytes : List UInt8) (inline : Option (List UInt8))
      {now : UInt64} {call : ObjectCall} {value : ObjectReturn}
      (hcall : call = .putInline bytes now ∧ inline = some bytes
        ∨ call = .putRow bytes now ∧ inline = none) :
      ObjectMove crypto s call (s.insertObject crypto bytes inline now)
        (.returned value)
  | writes (bytes : List UInt8) (now : UInt64) :
      ObjectMove crypto s (.putBlob bytes now) (s.writeBlob crypto bytes)
        (.putRow bytes now)
  | removes (hash : Bytes 32) (loop : Option EvictLoop) :
      ObjectMove crypto s (.evictBlob hash loop) (s.removeBlob hash)
        (.evictRow hash loop)
  | deletes (hash : Bytes 32) (loop : Option EvictLoop) {call' : ObjectCall}
      (hrow : deletesRow call' = none)
      (hevicting : ∀ hash', hash' ∈ evicting call' →
        hash' ∈ evicting (.evictRow hash loop)) :
      ObjectMove crypto s (.evictRow hash loop) (s.deleteObject hash) call'
  | touches (hash : Bytes 32) (bytes : List UInt8) {value : ObjectReturn} :
      ObjectMove crypto s (.getTouch hash bytes) (s.touch hash)
        (.returned value)
  | pins (hash : Bytes 32) {value : ObjectReturn} :
      ObjectMove crypto s (.pin hash) (s.setPinned hash true)
        (.returned value)
  | unpins (hash : Bytes 32) {value : ObjectReturn} :
      ObjectMove crypto s (.unpin hash) (s.setPinned hash false)
        (.returned value)

section move

variable {crypto : Crypto} {s s' : ObjectFiles}
  {call call' call'' : ObjectCall}

/-- A call that has looked at the store. -/
theorem ObjectMove.look (h : some (s, call') = some (s', call''))
    (hrow : deletesRow call = none)
    (hevicting : evicting call' = evicting call) :
    ObjectMove crypto s call s' call'' := by
  obtain ⟨rfl, rfl⟩ := Prod.mk.inj (Option.some.inj h)
  exact .looks rfl rfl hrow hevicting

theorem evicting_verified (hash : Bytes 32) (bytes : List UInt8) :
    evicting (.verified crypto hash bytes) = [] := by
  unfold ObjectCall.verified
  split
  · rfl
  · rfl

theorem ObjectMove.of_resume (h : call.resume crypto s = some (s', call')) :
    ObjectMove crypto s call s' call' := by
  cases call with
  | setMaxBytes maxBytes =>
      obtain ⟨rfl, rfl⟩ := Prod.mk.inj (Option.some.inj h)
      exact .looks rfl rfl rfl rfl
  | put bytes =>
      simp only [ObjectCall.resume] at h
      split at h
      · exact .look h rfl rfl
      · exact .look h rfl rfl
  | putInline bytes now =>
      obtain ⟨rfl, rfl⟩ := Prod.mk.inj (Option.some.inj h)
      exact .inserts bytes (some bytes) (Or.inl ⟨rfl, rfl⟩)
  | putBlob bytes now =>
      obtain ⟨rfl, rfl⟩ := Prod.mk.inj (Option.some.inj h)
      exact .writes bytes now
  | putRow bytes now =>
      obtain ⟨rfl, rfl⟩ := Prod.mk.inj (Option.some.inj h)
      exact .inserts bytes none (Or.inr ⟨rfl, rfl⟩)
  | evictToBudget =>
      simp only [ObjectCall.resume] at h
      split at h
      · exact .look h rfl rfl
      · exact .look h rfl rfl
  | evictTotal budget =>
      simp only [ObjectCall.resume] at h
      split at h
      · exact .look h rfl rfl
      · exact .look h rfl rfl
  | evictCandidates budget total =>
      obtain ⟨rfl, rfl⟩ := Prod.mk.inj (Option.some.inj h)
      exact .collects budget total _ rfl
  | evictOne hash loop =>
      simp only [ObjectCall.resume] at h
      split at h
      · exact .look h rfl (by cases loop <;> rfl)
      · exact .look h rfl (by cases loop <;> rfl)
  | evictBlob hash loop =>
      obtain ⟨rfl, rfl⟩ := Prod.mk.inj (Option.some.inj h)
      exact .removes hash loop
  | evictRow hash loop =>
      cases loop with
      | none =>
          obtain ⟨rfl, rfl⟩ := Prod.mk.inj (Option.some.inj h)
          exact .deletes hash none rfl fun _ h => h
      | some loop =>
          obtain ⟨rfl, rfl⟩ := Prod.mk.inj (Option.some.inj h)
          refine .deletes hash (some loop) (deletesRow_next loop) ?_
          intro hash' hmem
          rw [evicting_next] at hmem
          exact List.mem_cons_of_mem _ hmem
  | get hash =>
      simp only [ObjectCall.resume] at h
      split at h
      · exact .look h rfl rfl
      · split at h
        · exact .look h rfl (evicting_verified ..)
        · exact .look h rfl rfl
  | getBlob hash =>
      simp only [ObjectCall.resume] at h
      split at h
      · exact .look h rfl (evicting_verified ..)
      · exact .look h rfl rfl
  | getTouch hash bytes =>
      obtain ⟨rfl, rfl⟩ := Prod.mk.inj (Option.some.inj h)
      exact .touches hash bytes
  | pin hash =>
      obtain ⟨rfl, rfl⟩ := Prod.mk.inj (Option.some.inj h)
      exact .pins hash
  | unpin hash =>
      obtain ⟨rfl, rfl⟩ := Prod.mk.inj (Option.some.inj h)
      exact .unpins hash
  | returned value => cases h

end move

-- ====================================================== what it holds

/-- The objects that the table and the blobs make up, a row without a blob
left out. -/
def contents (s : ObjectFiles) : ObjectStore := fun hash =>
  match s.rows.get hash with
  | none => none
  | some row =>
      match row.inline with
      | some bytes => some (bytes, row.pinned)
      | none => (s.blobs hash).map fun bytes => (bytes, row.pinned)

section contents

variable {crypto : Crypto} {s s' : ObjectFiles} {bytes : List UInt8}

/-- An object is made up of its row and its blob. -/
theorem contents_congr {hash : Bytes 32}
    (hrows : s'.rows.get hash = s.rows.get hash)
    (hblobs : s'.blobs hash = s.blobs hash) :
    contents s' hash = contents s hash := by
  unfold contents
  rw [hrows, hblobs]

/-- The INSERT of `put` is the `put`, of an object whose row is not there
without its bytes. -/
theorem contents_insertObject {inline : Option (List UInt8)} {now : UInt64}
    (hbytes : inline = some bytes
      ∨ inline = none ∧ s.blobs (crypto.blake3 bytes) = some bytes)
    (hrow : s.rows.get (crypto.blake3 bytes) ≠ none →
      contents s (crypto.blake3 bytes) ≠ none) :
    contents (s.insertObject crypto bytes inline now)
      = (contents s).put crypto bytes := by
  funext hash
  by_cases heq : hash = crypto.blake3 bytes
  · subst heq
    unfold ObjectStore.put Table.insertOrIgnore
    cases hget : s.rows.get (crypto.blake3 bytes) with
    | none =>
        have hnone : contents s (crypto.blake3 bytes) = none := by
          simp only [contents, hget]
        rw [hnone]
        simp only [contents, ObjectFiles.insertObject,
          Rows.get_insertOrIgnore, if_pos, hget, Option.getD_none,
          Table.insert_self]
        rcases hbytes with rfl | ⟨rfl, hblob⟩
        · rfl
        · simp only [hblob, Option.map_some]
    | some row =>
        obtain ⟨object, hobject⟩ :=
          Option.ne_none_iff_exists'.mp (hrow (by simp [hget]))
        rw [hobject]
        refine contents_congr ?_ rfl
        rw [ObjectFiles.insertObject, Rows.get_insertOrIgnore, if_pos rfl,
          hget, Option.getD_some]
  · rw [ObjectStore.put, Table.insertOrIgnore_of_ne _ _ heq]
    refine contents_congr ?_ rfl
    rw [ObjectFiles.insertObject, Rows.get_insertOrIgnore, if_neg heq]

/-- A blob is written over by what it was, or before there is a row. -/
theorem contents_writeBlob
    (hrow : ∀ row, s.rows.get (crypto.blake3 bytes) = some row →
      row.inline = none → s.blobs (crypto.blake3 bytes) = some bytes) :
    contents (s.writeBlob crypto bytes) = contents s := by
  funext hash
  by_cases heq : hash = crypto.blake3 bytes
  · subst heq
    cases hget : s.rows.get (crypto.blake3 bytes) with
    | none => simp only [contents, ObjectFiles.writeBlob, hget]
    | some row =>
        cases hinline : row.inline with
        | none =>
            refine contents_congr rfl ?_
            rw [hrow row hget hinline]
            exact Table.insert_self ..
        | some inline =>
            simp only [contents, ObjectFiles.writeBlob, hget, hinline]
  · exact contents_congr rfl (Table.insert_of_ne _ _ heq)

/-- The UPDATE of `pin` is the `pin`, and that of `unpin` the `unpin`. -/
theorem contents_setPinned (hash : Bytes 32) :
    contents (s.setPinned hash true) = (contents s).pin hash
      ∧ contents (s.setPinned hash false) = (contents s).unpin hash := by
  have hothers : ∀ {hash'} pinned, hash' ≠ hash →
      contents (s.setPinned hash pinned) hash' = contents s hash' := by
    intro hash' pinned hne
    refine contents_congr ?_ rfl
    rw [ObjectFiles.setPinned, Rows.get_update, if_neg hne]
  have hself : ∀ pinned, contents (s.setPinned hash pinned) hash
      = (contents s hash).map fun object => (object.1, pinned) := by
    intro pinned
    simp only [contents, ObjectFiles.setPinned, Rows.get_update, if_pos]
    cases s.rows.get hash with
    | none => rfl
    | some row =>
        dsimp only [Option.map_some]
        cases row.inline with
        | none =>
            rw [Option.map_map]
            rfl
        | some bytes => rfl
  refine ⟨funext fun hash' => ?_, funext fun hash' => ?_⟩
  · unfold ObjectStore.pin
    by_cases heq : hash' = hash
    · subst heq
      rw [hself]
      cases hobject : contents s hash' with
      | none => exact hobject.symm
      | some object => simp
    · rw [hothers true heq]
      cases contents s hash with
      | none => rfl
      | some object => exact (Table.insert_of_ne _ _ heq).symm
  · unfold ObjectStore.unpin
    by_cases heq : hash' = hash
    · subst heq
      rw [hself]
      cases hobject : contents s hash' with
      | none => exact hobject.symm
      | some object => simp
    · rw [hothers false heq]
      cases contents s hash with
      | none => rfl
      | some object => exact (Table.insert_of_ne _ _ heq).symm

end contents

-- ==================================================== what is readable

/-- A put or an eviction of the object that has not returned. -/
def busy (crypto : Crypto) (hash : Bytes 32) : ObjectCall → Bool
  | .put bytes | .putInline bytes _ | .putBlob bytes _ | .putRow bytes _ =>
      decide (crypto.blake3 bytes = hash)
  | .evictOne hash' _ | .evictBlob hash' _ | .evictRow hash' _ =>
      decide (hash' = hash)
  | _ => false

/-- An eviction is yet to delete the row of the object. -/
def Deleting (hash : Bytes 32) (calls : List ObjectCall) : Prop :=
  ∃ call ∈ calls, deletesRow call = some hash

/-- A put that adds the row of the object finds the blob it has written, or
an eviction that is yet to delete the row. -/
def BlobFound (crypto : Crypto) (hash : Bytes 32) (s : ObjectFiles)
    (call : ObjectCall) (others : List ObjectCall) : Prop :=
  ∀ bytes now, call = .putRow bytes now → crypto.blake3 bytes = hash →
    s.rows.get hash = none → s.blobs hash ≠ none ∨ Deleting hash others

/-- The condition: that, and the process does not stop when an eviction has
removed the blob of a row that is there. -/
def BlobKept (crypto : Crypto) (hash : Bytes 32) (w : ObjectTasks) :
    ObjectAction → Prop
  | .calls a => EachResume (BlobFound crypto hash) w a
  | .clock _ => True
  | .crash => Deleting hash w.tasks → ∀ row,
      w.shared.rows.get hash = some row → row.inline = none →
        w.shared.blobs hash ≠ none

/-- An indexed object without an inline copy has its blob. -/
def Blobbed (crypto : Crypto) (hash : Bytes 32) (s : ObjectFiles) : Prop :=
  ∀ row, s.rows.get hash = some row → row.inline = none →
    ∃ bytes, s.blobs hash = some bytes ∧ crypto.blake3 bytes = hash

/-- A `get` that begins now, and that nothing comes between, returns the
bytes. -/
def Fetches (crypto : Crypto) (w : ObjectTasks) (hash : Bytes 32)
    (bytes : List UInt8) : Prop :=
  ∃ n w', run (objectStep crypto) w
      (.calls (.begin (.get hash))
        :: List.replicate n (.calls (.resume w.tasks.length))) = some w'
    ∧ w'.tasks[w.tasks.length]? = some (.returned (.object (some bytes)))

/-- What holds of one object. A blob hashes to its name and an inline copy to
its key; a row without either is about to be deleted. -/
structure ObjectInv (crypto : Crypto) (hash : Bytes 32) (s : ObjectFiles)
    (calls : List ObjectCall) : Prop where
  blob : ∀ bytes, s.blobs hash = some bytes → crypto.blake3 bytes = hash
  inline : ∀ row bytes, s.rows.get hash = some row →
    row.inline = some bytes → crypto.blake3 bytes = hash
  row : ∀ row, s.rows.get hash = some row → row.inline = none →
    s.blobs hash ≠ none ∨ Deleting hash calls

section object

variable {crypto : Crypto} {hash : Bytes 32} {s s' : ObjectFiles}
  {call call' : ObjectCall} {calls rest : List ObjectCall}

theorem deleting_cons :
    Deleting hash (call :: rest)
      ↔ deletesRow call = some hash ∨ Deleting hash rest := by
  simp only [Deleting, List.mem_cons, exists_eq_or_imp]

theorem ObjectInv.of_perm {calls' : List ObjectCall}
    (hinv : ObjectInv crypto hash s calls) (hperm : calls.Perm calls') :
    ObjectInv crypto hash s calls' := by
  refine ⟨hinv.blob, hinv.inline, fun row hrow hnone => ?_⟩
  refine (hinv.row row hrow hnone).imp_right ?_
  rintro ⟨call, hcall, hdeletes⟩
  exact ⟨call, hperm.mem_iff.mp hcall, hdeletes⟩

/-- A call that deletes no row of the object is none to wait for. -/
theorem ObjectInv.row_rest (hinv : ObjectInv crypto hash s (call :: rest))
    (hdeletes : deletesRow call ≠ some hash) {row : ObjectRow}
    (hrow : s.rows.get hash = some row) (hnone : row.inline = none) :
    s.blobs hash ≠ none ∨ Deleting hash rest := by
  refine (hinv.row row hrow hnone).imp_right fun h => ?_
  exact (deleting_cons.mp h).resolve_left hdeletes

/-- A step that leaves the blob, the row and what is inline in it. -/
theorem ObjectInv.pass (hinv : ObjectInv crypto hash s (call :: rest))
    (hdeletes : deletesRow call ≠ some hash)
    (hrows : ∀ row', s'.rows.get hash = some row' →
      ∃ row, s.rows.get hash = some row ∧ row'.inline = row.inline)
    (hblobs : s'.blobs hash = s.blobs hash) :
    ObjectInv crypto hash s' (call' :: rest) := by
  refine ⟨?_, ?_, ?_⟩
  · rw [hblobs]
    exact hinv.blob
  · intro row' bytes hrow' hbytes
    obtain ⟨row, hrow, heq⟩ := hrows row' hrow'
    exact hinv.inline row bytes hrow (heq ▸ hbytes)
  · intro row' hrow' hnone
    obtain ⟨row, hrow, heq⟩ := hrows row' hrow'
    rw [hblobs, deleting_cons]
    exact (hinv.row_rest hdeletes hrow (heq ▸ hnone)).imp_right Or.inr

/-- A row that is updated keeps what the update keeps. -/
theorem get_of_update {α : Type} (p : ObjectRow → α)
    {f : ObjectRow → ObjectRow} {hash' : Bytes 32} {row' : ObjectRow}
    (hrow' : (s.rows.update hash' f).get hash = some row')
    (hf : ∀ row, p (f row) = p row) :
    ∃ row, s.rows.get hash = some row ∧ p row' = p row := by
  rw [Rows.get_update] at hrow'
  split at hrow'
  case isTrue heq =>
    obtain ⟨row, hrow, rfl⟩ := Option.map_eq_some_iff.mp hrow'
    exact ⟨row, heq ▸ hrow, hf row⟩
  case isFalse => exact ⟨row', hrow', rfl⟩

/-- The row after an INSERT OR IGNORE: the one that was there, or a new
one. -/
theorem get_after_insert {bytes : List UInt8} {inline : Option (List UInt8)}
    {now : UInt64} {row : ObjectRow}
    (hrow : (s.insertObject crypto bytes inline now).rows.get hash
      = some row) :
    s.rows.get hash = some row
      ∨ crypto.blake3 bytes = hash ∧ s.rows.get hash = none
        ∧ row.inline = inline ∧ row.pinned = false := by
  rw [ObjectFiles.insertObject, Rows.get_insertOrIgnore] at hrow
  split at hrow
  case isTrue heq =>
    rw [← heq] at hrow
    cases hget : s.rows.get hash with
    | none =>
        rw [hget] at hrow
        obtain rfl := Option.some.inj hrow
        exact Or.inr ⟨heq.symm, rfl, rfl, rfl⟩
    | some old =>
        rw [hget] at hrow
        exact Or.inl hrow
  case isFalse => exact Or.inl hrow

/-- A call goes on. -/
theorem ObjectInv.move (hinv : ObjectInv crypto hash s (call :: rest))
    (hok : BlobFound crypto hash s call rest)
    (h : ObjectMove crypto s call s' call') :
    ObjectInv crypto hash s' (call' :: rest) := by
  cases h with
  | looks hrows hblobs hrow hevicting =>
      refine hinv.pass (by simp [hrow]) (fun row hrow' => ?_) (by rw [hblobs])
      exact ⟨row, hrows ▸ hrow', rfl⟩
  | collects budget total loop hloop =>
      exact hinv.pass (by simp [deletesRow])
        (fun row hrow => ⟨row, hrow, rfl⟩) rfl
  | inserts bytes inline hcall =>
      have hdeletes : deletesRow call ≠ some hash := by
        rcases hcall with ⟨rfl, -⟩ | ⟨rfl, -⟩ <;> simp [deletesRow]
      refine ⟨hinv.blob, fun row bytes' hrow hbytes => ?_,
        fun row hrow hnone => ?_⟩
      · rcases get_after_insert hrow with hold | ⟨hhash, -, hinline, -⟩
        · exact hinv.inline row bytes' hold hbytes
        · rcases hcall with ⟨-, rfl⟩ | ⟨-, rfl⟩
          · rw [hinline] at hbytes
            exact Option.some.inj hbytes ▸ hhash
          · rw [hinline] at hbytes
            cases hbytes
      · rw [deleting_cons]
        rcases get_after_insert hrow with hold | ⟨hhash, hnew, hinline, -⟩
        · exact (hinv.row_rest hdeletes hold hnone).imp_right Or.inr
        · rcases hcall with ⟨-, rfl⟩ | ⟨hcall, -⟩
          · rw [hinline] at hnone
            cases hnone
          · exact (hok _ _ hcall hhash hnew).imp_right Or.inr
  | writes bytes now =>
      by_cases heq : hash = crypto.blake3 bytes
      · have hself : (s.writeBlob crypto bytes).blobs hash = some bytes := by
          rw [heq]
          exact Table.insert_self ..
        refine ⟨fun bytes' hbytes => ?_, hinv.inline, fun row _ _ => ?_⟩
        · rw [hself] at hbytes
          exact Option.some.inj hbytes ▸ heq.symm
        · rw [hself]
          exact Or.inl (by simp)
      · exact hinv.pass (by simp [deletesRow])
          (fun row hrow => ⟨row, hrow, rfl⟩) (Table.insert_of_ne _ _ heq)
  | removes hash' loop =>
      by_cases heq : hash = hash'
      · have hself : (s.removeBlob hash').blobs hash = none := by
          rw [heq]
          exact Table.erase_self ..
        refine ⟨fun bytes hbytes => ?_, hinv.inline, fun row _ _ => ?_⟩
        · rw [hself] at hbytes
          cases hbytes
        · exact Or.inr (deleting_cons.mpr (Or.inl (congrArg some heq.symm)))
      · exact hinv.pass (by simp [deletesRow])
          (fun row hrow => ⟨row, hrow, rfl⟩) (Table.erase_of_ne _ heq)
  | deletes hash' loop hrow hevicting =>
      have hget : (s.deleteObject hash').rows.get hash
          = if hash = hash' then none else s.rows.get hash :=
        Rows.get_delete ..
      by_cases heq : hash = hash'
      · rw [if_pos heq] at hget
        refine ⟨hinv.blob, fun row _ hrow => ?_, fun row hrow => ?_⟩
        · rw [hget] at hrow
          cases hrow
        · rw [hget] at hrow
          cases hrow
      · rw [if_neg heq] at hget
        refine hinv.pass ?_ (fun row hrow => ⟨row, hget ▸ hrow, rfl⟩) rfl
        exact fun h => heq (Option.some.inj h).symm
  | touches hash' bytes =>
      exact hinv.pass (by simp [deletesRow])
        (fun _ h => get_of_update (·.inline) h fun row => rfl) rfl
  | pins hash' =>
      exact hinv.pass (by simp [deletesRow])
        (fun _ h => get_of_update (·.inline) h fun row => rfl) rfl
  | unpins hash' =>
      exact hinv.pass (by simp [deletesRow])
        (fun _ h => get_of_update (·.inline) h fun row => rfl) rfl

/-- A call that begins. -/
theorem ObjectInv.begin (hinv : ObjectInv crypto hash s calls)
    (call : ObjectCall) : ObjectInv crypto hash s (call :: calls) := by
  refine ⟨hinv.blob, hinv.inline, fun row hrow hnone => ?_⟩
  exact (hinv.row row hrow hnone).imp_right fun h =>
    deleting_cons.mpr (Or.inr h)

end object

-- ============================================================== a get

section get

variable {crypto : Crypto} {hash : Bytes 32} {bytes : List UInt8}

/-- A call goes on in a run. -/
theorem run_resume {s s' : ObjectFiles} {calls : List ObjectCall} {i : Nat}
    {call call' : ObjectCall} (hcall : calls[i]? = some call)
    (h : call.resume crypto s = some (s', call')) (acts : List ObjectAction) :
    run (objectStep crypto) ⟨s, calls⟩ (.calls (.resume i) :: acts)
      = run (objectStep crypto) ⟨s', calls.set i call'⟩ acts := by
  have hstep : objectStep crypto ⟨s, calls⟩ (.calls (.resume i))
      = some ⟨s', calls.set i call'⟩ :=
    tasksStep_resume ObjectRequest.begin hcall h
  rw [run_cons, hstep]
  rfl

/-- The call that began last goes on. -/
theorem run_resume_last {s s' : ObjectFiles} {call call' : ObjectCall}
    (h : call.resume crypto s = some (s', call')) (calls : List ObjectCall)
    (acts : List ObjectAction) :
    run (objectStep crypto) ⟨s, calls ++ [call]⟩
        (.calls (.resume calls.length) :: acts)
      = run (objectStep crypto) ⟨s', calls ++ [call']⟩ acts := by
  rw [run_resume List.getElem?_concat_length h,
    List.set_append_right _ _ (Nat.le_refl _), Nat.sub_self, List.set_cons_zero]

theorem verified_of_eq (h : crypto.blake3 bytes = hash) :
    ObjectCall.verified crypto hash bytes = .getTouch hash bytes := if_pos h

/-- An inline copy is returned after two steps. -/
theorem fetches_inline {w : ObjectTasks} {row : ObjectRow}
    (hrow : w.shared.rows.get hash = some row)
    (hbytes : row.inline = some bytes) (hhash : crypto.blake3 bytes = hash) :
    Fetches crypto w hash bytes := by
  obtain ⟨s, calls⟩ := w
  have hget : ObjectCall.resume crypto s (.get hash)
      = some (s, .getTouch hash bytes) := by
    simp only [ObjectCall.resume, hrow, hbytes, verified_of_eq hhash]
  refine ⟨2, ⟨s.touch hash, calls ++ [.returned (.object (some bytes))]⟩, ?_,
    by simp⟩
  show run (objectStep crypto) ⟨s, calls ++ [.get hash]⟩ _ = _
  simp only [List.replicate]
  rw [run_resume_last hget, run_resume_last rfl, run_nil]

/-- A blob is returned after three. -/
theorem fetches_blob {w : ObjectTasks} {row : ObjectRow}
    (hrow : w.shared.rows.get hash = some row) (hnone : row.inline = none)
    (hblob : w.shared.blobs hash = some bytes)
    (hhash : crypto.blake3 bytes = hash) : Fetches crypto w hash bytes := by
  obtain ⟨s, calls⟩ := w
  dsimp only at hblob
  have hget : ObjectCall.resume crypto s (.get hash)
      = some (s, .getBlob hash) := by
    simp only [ObjectCall.resume, hrow, hnone]
  have hread : ObjectCall.resume crypto s (.getBlob hash)
      = some (s, .getTouch hash bytes) := by
    simp only [ObjectCall.resume, hblob, verified_of_eq hhash]
  refine ⟨3, ⟨s.touch hash, calls ++ [.returned (.object (some bytes))]⟩, ?_,
    by simp⟩
  show run (objectStep crypto) ⟨s, calls ++ [.get hash]⟩ _ = _
  simp only [List.replicate]
  rw [run_resume_last hget, run_resume_last hread, run_resume_last rfl,
    run_nil]

end get

-- ======================================================= a lost object

section lost

variable {crypto : Crypto} {hash : Bytes 32} {bytes : List UInt8}

/-- Indexed, and nobody puts or evicts it, but there is no blob: a `get`
fails. -/
structure Lost (crypto : Crypto) (hash : Bytes 32) (w : ObjectTasks) :
    Prop where
  idle : ∀ call ∈ w.tasks, busy crypto hash call = false
  has : w.shared.has hash = true
  unblobbed : ¬ Blobbed crypto hash w.shared
  get : run (objectStep crypto) w
      [.calls (.begin (.get hash)), .calls (.resume w.tasks.length),
        .calls (.resume w.tasks.length)]
    = some ⟨w.shared, w.tasks ++ [.returned .io]⟩

theorem lost_of_row {w : ObjectTasks} {row : ObjectRow}
    (hidle : ∀ call ∈ w.tasks, busy crypto hash call = false)
    (hrow : w.shared.rows.get hash = some row) (hnone : row.inline = none)
    (hblob : w.shared.blobs hash = none) : Lost crypto hash w := by
  refine ⟨hidle, Option.isSome_iff_exists.mpr ⟨row, hrow⟩, ?_, ?_⟩
  · intro h
    obtain ⟨bytes, hbytes, -⟩ := h row hrow hnone
    rw [hblob] at hbytes
    cases hbytes
  · obtain ⟨s, calls⟩ := w
    dsimp only at hblob
    have hget : ObjectCall.resume crypto s (.get hash)
        = some (s, .getBlob hash) := by
      simp only [ObjectCall.resume, hrow, hnone]
    have hread : ObjectCall.resume crypto s (.getBlob hash)
        = some (s, .returned .io) := by
      simp only [ObjectCall.resume, hblob]
    show run (objectStep crypto) ⟨s, calls ++ [.get hash]⟩ _ = _
    rw [run_resume_last hget, run_resume_last hread, run_nil]

theorem put_of_large (s : ObjectFiles) (hlarge : ¬ bytes.length ≤ inlineMax) :
    ObjectCall.resume crypto s (.put bytes)
      = some (s, .putBlob bytes s.unixNow) := if_neg hlarge

theorem writeBlob_self (s : ObjectFiles) :
    (s.writeBlob crypto bytes).blobs (crypto.blake3 bytes) = some bytes :=
  Table.insert_self ..

theorem evictOne_of_blob {s : ObjectFiles} (loop : Option EvictLoop)
    (h : s.blobs hash = some bytes) :
    ObjectCall.resume crypto s (.evictOne hash loop)
      = some (s, .evictBlob hash loop) := by
  simp only [ObjectCall.resume, h]

/-- The row of a put into a table without one. -/
theorem get_insertObject {s : ObjectFiles} {inline : Option (List UInt8)}
    {now : UInt64} (h : s.rows.get (crypto.blake3 bytes) = none) :
    ∃ row, (s.insertObject crypto bytes inline now).rows.get
        (crypto.blake3 bytes) = some row ∧ row.inline = inline := by
  rw [ObjectFiles.insertObject, Rows.get_insertOrIgnore, if_pos rfl, h]
  exact ⟨_, rfl, rfl⟩

/-- A call goes on in a run that meets a condition. -/
theorem along_resume {ok : ObjectTasks → ObjectAction → Prop}
    {s s' : ObjectFiles} {calls : List ObjectCall} {i : Nat}
    {call call' : ObjectCall} {acts : List ObjectAction}
    (hcall : calls[i]? = some call)
    (h : call.resume crypto s = some (s', call'))
    (hok : ok ⟨s, calls⟩ (.calls (.resume i)))
    (hrest : Along (objectStep crypto) ok ⟨s', calls.set i call'⟩ acts) :
    Along (objectStep crypto) ok ⟨s, calls⟩ (.calls (.resume i) :: acts) :=
  Along.cons (tasksStep_resume ObjectRequest.begin hcall h) hok hrest

/-- An eviction that comes whole between the blob and the row of a put. -/
theorem lost_put (hlarge : ¬ bytes.length ≤ inlineMax) :
    ∃ w, run (objectStep crypto) .init
        [.calls (.begin (.put bytes)), .calls (.resume 0), .calls (.resume 0),
          .calls (.begin (.evictOne (crypto.blake3 bytes))),
          .calls (.resume 1), .calls (.resume 1), .calls (.resume 1),
          .calls (.resume 0)] = some w
      ∧ Lost crypto (crypto.blake3 bytes) w := by
  let evicted := ((ObjectFiles.init.writeBlob crypto bytes).removeBlob
    (crypto.blake3 bytes)).deleteObject (crypto.blake3 bytes)
  refine ⟨⟨evicted.insertObject crypto bytes none 0,
    [.returned (.hash (crypto.blake3 bytes)), .returned .unit]⟩, ?_, ?_⟩
  · show run (objectStep crypto) ⟨.init, [.put bytes]⟩ _ = _
    rw [run_resume rfl (put_of_large _ hlarge), run_resume rfl rfl]
    show run (objectStep crypto) ⟨_, [.putRow bytes 0, .evictOne _ none]⟩ _ = _
    rw [run_resume rfl (evictOne_of_blob none (writeBlob_self _)), run_resume rfl rfl,
      run_resume rfl rfl, run_resume rfl rfl, run_nil]
    rfl
  · obtain ⟨row, hrow, hnone⟩ :=
      @get_insertObject crypto bytes evicted none 0 rfl
    refine lost_of_row (fun call hcall => ?_) hrow hnone (Table.erase_self ..)
    rcases List.mem_pair.mp hcall with rfl | rfl
    · rfl
    · rfl

/-- A process that stops between the blob and the row of an eviction. -/
theorem lost_evict (hlarge : ¬ bytes.length ≤ inlineMax) :
    ∃ w, run (objectStep crypto) .init
        [.calls (.begin (.put bytes)), .calls (.resume 0), .calls (.resume 0),
          .calls (.resume 0), .calls (.begin (.evictOne (crypto.blake3 bytes))),
          .calls (.resume 1), .calls (.resume 1), .crash] = some w
      ∧ Lost crypto (crypto.blake3 bytes) w := by
  let stored := (ObjectFiles.init.writeBlob crypto bytes).insertObject crypto
    bytes none 0
  have hwritten : stored.blobs (crypto.blake3 bytes) = some bytes :=
    writeBlob_self _
  refine ⟨⟨stored.removeBlob (crypto.blake3 bytes), []⟩, ?_, ?_⟩
  · show run (objectStep crypto) ⟨.init, [.put bytes]⟩ _ = _
    rw [run_resume rfl (put_of_large _ hlarge), run_resume rfl rfl,
      run_resume rfl rfl]
    show run (objectStep crypto) ⟨stored, [.returned _, .evictOne _ none]⟩ _
      = _
    rw [run_resume rfl (evictOne_of_blob none hwritten), run_resume rfl rfl]
    rfl
  · obtain ⟨row, hrow, hnone⟩ := @get_insertObject crypto bytes
      (ObjectFiles.init.writeBlob crypto bytes) none 0 rfl
    refine lost_of_row (fun call hcall => ?_) hrow hnone (Table.erase_self ..)
    cases hcall

/-- `INLINE_MAX + 1` bytes. -/
def largeObject : List UInt8 := List.replicate (inlineMax + 1) 7

theorem large_largeObject : ¬ largeObject.length ≤ inlineMax := by
  rw [largeObject, List.length_replicate]
  exact Nat.not_succ_le_self _

/-- A put that nothing comes between. -/
theorem put_run (crypto : Crypto) (hlarge : ¬ bytes.length ≤ inlineMax) :
    run (objectStep crypto) .init
        [.calls (.begin (.put bytes)), .calls (.resume 0), .calls (.resume 0),
          .calls (.resume 0)]
      = some ⟨(ObjectFiles.init.writeBlob crypto bytes).insertObject crypto
          bytes none 0, [.returned (.hash (crypto.blake3 bytes))]⟩ := by
  show run (objectStep crypto) ⟨.init, [.put bytes]⟩ _ = _
  rw [run_resume rfl (put_of_large _ hlarge), run_resume rfl rfl,
    run_resume rfl rfl]
  rfl

/-- It meets the condition. -/
theorem put_blobKept (hlarge : ¬ bytes.length ≤ inlineMax) :
    Along (objectStep crypto) (BlobKept crypto (crypto.blake3 bytes)) .init
      [.calls (.begin (.put bytes)), .calls (.resume 0), .calls (.resume 0),
        .calls (.resume 0)] := by
  refine Along.cons (t := ⟨.init, [.put bytes]⟩) rfl trivial ?_
  refine along_resume rfl (put_of_large _ hlarge) ?_ ?_
  · exact eachResume_of (ρ := ObjectRequest) rfl (by simp [BlobFound])
  refine along_resume rfl rfl ?_ ?_
  · exact eachResume_of (ρ := ObjectRequest) rfl (by simp [BlobFound])
  refine along_resume rfl rfl (eachResume_of (ρ := ObjectRequest) rfl ?_)
    trivial
  intro _ _ _ _ _
  refine Or.inl ?_
  show (ObjectFiles.init.writeBlob crypto bytes).blobs _ ≠ none
  rw [writeBlob_self]
  exact Option.some_ne_none _

end lost

-- ==================================================== the first result

section readable

variable {crypto : Crypto} {hash : Bytes 32}

/-- Every action that meets the condition. -/
theorem objectInv_step (w : ObjectTasks) (a : ObjectAction) (w' : ObjectTasks)
    (hok : BlobKept crypto hash w a)
    (hinv : ObjectInv crypto hash w.shared w.tasks)
    (h : objectStep crypto w a = some w') :
    ObjectInv crypto hash w'.shared w'.tasks := by
  cases a with
  | calls a =>
      exact tasks_inv_step (fun hperm hinv => hinv.of_perm hperm)
        (fun request hinv => hinv.begin request.begin)
        (fun hok hinv h => hinv.move hok (.of_resume h)) w a w' hok hinv h
  | clock now =>
      obtain rfl := Option.some.inj h
      exact ⟨hinv.blob, hinv.inline, hinv.row⟩
  | crash =>
      obtain rfl := Option.some.inj h
      refine ⟨hinv.blob, hinv.inline, fun row hrow hnone => Or.inl ?_⟩
      rcases hinv.row row hrow hnone with hblob | hdeleting
      · exact hblob
      · exact hok hdeleting row hrow hnone

theorem objectInv_init :
    ObjectInv crypto hash ObjectTasks.init.shared ObjectTasks.init.tasks where
  blob := fun bytes h => by cases h
  inline := fun row bytes h => by cases h
  row := fun row h => by cases h

/-- A put that the condition forbids leaves a row without a blob, which
nobody is to delete. -/
theorem unfound_insert {s : ObjectFiles} {others : List ObjectCall}
    {bytes : List UInt8} {now : UInt64}
    (hhash : crypto.blake3 bytes = hash) (hrow : s.rows.get hash = none)
    (hblob : s.blobs hash = none) (hothers : ¬ Deleting hash others)
    {value : ObjectReturn} :
    ¬ ObjectInv crypto hash (s.insertObject crypto bytes none now)
      (.returned value :: others) := by
  intro hinv
  have hget : ∃ row,
      (s.insertObject crypto bytes none now).rows.get hash = some row
        ∧ row.inline = none := by
    rw [ObjectFiles.insertObject, Rows.get_insertOrIgnore, if_pos hhash.symm,
      hhash, hrow]
    exact ⟨_, rfl, rfl⟩
  obtain ⟨row, hget, hnone⟩ := hget
  rcases hinv.row row hget hnone with h | h
  · exact h hblob
  · rcases deleting_cons.mp h with h | h
    · cases h
    · exact hothers h

/-- A run that does not meet the condition comes to a row without a blob,
which nobody is to delete. -/
theorem blobKept_iff {acts : List ObjectAction} :
    (∀ as bs w, as ++ bs = acts →
        run (objectStep crypto) .init as = some w →
        ObjectInv crypto hash w.shared w.tasks)
      ↔ Along (objectStep crypto) (BlobKept crypto hash) .init acts := by
  refine along_iff (fun w hinv => hinv) objectInv_step ?_ objectInv_init
  intro w a hinv hnot
  cases a with
  | calls a =>
      cases a with
      | begin request => exact absurd trivial hnot
      | resume i =>
          have hfound : ∃ call, w.tasks[i]? = some call
              ∧ ¬ BlobFound crypto hash w.shared call (w.tasks.eraseIdx i) := by
            simpa only [BlobKept, EachResume, not_forall, exists_prop]
              using hnot
          obtain ⟨call, hcall, hfound⟩ := hfound
          simp only [BlobFound, not_forall, not_or, not_not] at hfound
          obtain ⟨bytes, now, rfl, hhash, hrow, hblob, hothers⟩ := hfound
          refine ⟨_, by simp only [objectStep, tasksStep, hcall]; rfl, ?_⟩
          intro hafter
          exact unfound_insert hhash hrow hblob hothers
            (hafter.of_perm (perm_set hcall _))
  | clock now => exact absurd trivial hnot
  | crash =>
      refine ⟨_, rfl, fun hafter => hnot fun _ row hrow hnone => ?_⟩
      rcases hafter.row row hrow hnone with h | ⟨call, hcall, -⟩
      · exact h
      · cases hcall

/-- A call that is about to delete the row is an eviction. -/
theorem busy_of_deletesRow {call : ObjectCall}
    (h : deletesRow call = some hash) : busy crypto hash call = true := by
  cases call with
  | evictRow hash' loop => exact decide_eq_true (Option.some.inj h)
  | _ => cases h

/-- In every run that meets the condition, in every state in which no put or
eviction of the object is under way, an indexed object has its blob, if it is
not inline, and a `get` of an indexed object returns bytes. -/
theorem indexed_readable (crypto : Crypto) (hash : Bytes 32)
    {acts : List ObjectAction} {w : ObjectTasks}
    (hok : Along (objectStep crypto) (BlobKept crypto hash) .init acts)
    (hrun : run (objectStep crypto) .init acts = some w)
    (hidle : ∀ call ∈ w.tasks, busy crypto hash call = false) :
    Blobbed crypto hash w.shared
      ∧ (w.shared.has hash = true → ∃ bytes, Fetches crypto w hash bytes) := by
  have hinv : ObjectInv crypto hash w.shared w.tasks :=
    run_induct objectInv_step hok objectInv_init hrun
  have hdeleting : ¬ Deleting hash w.tasks := by
    rintro ⟨call, hcall, hdeletes⟩
    have hbusy : busy crypto hash call = true := busy_of_deletesRow hdeletes
    rw [hidle call hcall] at hbusy
    cases hbusy
  have hblobbed : Blobbed crypto hash w.shared := by
    intro row hrow hnone
    have hblob := (hinv.row row hrow hnone).resolve_right hdeleting
    obtain ⟨bytes, hbytes⟩ := Option.ne_none_iff_exists'.mp hblob
    exact ⟨bytes, hbytes, hinv.blob bytes hbytes⟩
  refine ⟨hblobbed, fun hhas => ?_⟩
  obtain ⟨row, hrow⟩ := Option.isSome_iff_exists.mp hhas
  cases hinline : row.inline with
  | none =>
      obtain ⟨bytes, hbytes, hhash⟩ := hblobbed row hrow hinline
      exact ⟨bytes, fetches_blob hrow hinline hbytes hhash⟩
  | some bytes =>
      exact ⟨bytes, fetches_inline hrow hinline
        (hinv.inline row bytes hrow hinline)⟩

end readable

/-- A large object that has been put. -/
theorem indexed_readable_put :
    ∃ w, run (objectStep .refusing) .init
        [.calls (.begin (.put largeObject)), .calls (.resume 0),
          .calls (.resume 0), .calls (.resume 0)] = some w
      ∧ Blobbed .refusing (Bytes.fill 32 0) w.shared
      ∧ ∃ bytes, Fetches .refusing w (Bytes.fill 32 0) bytes := by
  have hrun := put_run .refusing large_largeObject
  have hread := indexed_readable .refusing (Bytes.fill 32 0)
    (put_blobKept large_largeObject) hrun (by simp [busy])
  exact ⟨_, hrun, hread.1, hread.2 rfl⟩

/-- A large object whose put an eviction meets, and one whose eviction the
process does not finish. -/
theorem large_object_lost :
    (∃ w, run (objectStep .refusing) .init
        [.calls (.begin (.put largeObject)), .calls (.resume 0),
          .calls (.resume 0), .calls (.begin (.evictOne (Bytes.fill 32 0))),
          .calls (.resume 1), .calls (.resume 1), .calls (.resume 1),
          .calls (.resume 0)] = some w
      ∧ Lost .refusing (Bytes.fill 32 0) w)
    ∧ ∃ w, run (objectStep .refusing) .init
        [.calls (.begin (.put largeObject)), .calls (.resume 0),
          .calls (.resume 0), .calls (.resume 0),
          .calls (.begin (.evictOne (Bytes.fill 32 0))), .calls (.resume 1),
          .calls (.resume 1), .crash] = some w
      ∧ Lost .refusing (Bytes.fill 32 0) w :=
  ⟨lost_put large_largeObject, lost_evict large_largeObject⟩

-- =================================================== the second result

/-- A step of `evict_to_budget`. -/
def sweeping : ObjectCall → Bool
  | .evictToBudget | .evictTotal _ | .evictCandidates _ _ => true
  | .evictOne _ loop | .evictBlob _ loop | .evictRow _ loop => loop.isSome
  | _ => false

/-- The object that a call is about to pin. -/
def pinning : ObjectCall → Option (Bytes 32)
  | .pin hash => some hash
  | _ => none

/-- An object that is pinned is none that an `evict_to_budget` under way will
evict. -/
def Unlisted (s : ObjectFiles) (call : ObjectCall)
    (others : List ObjectCall) : Prop :=
  ∀ hash ∈ pinning call, s.rows.get hash ≠ none →
    ∀ other ∈ others, hash ∉ evicting other

instance (s : ObjectFiles) (call : ObjectCall) (others : List ObjectCall) :
    Decidable (Unlisted s call others) := Option.decidableForallMem _

/-- The condition: that of every pin. -/
def PinnedBefore (w : ObjectTasks) : ObjectAction → Prop
  | .calls a => EachResume Unlisted w a
  | .clock _ | .crash => True

instance (w : ObjectTasks) : ∀ a, Decidable (PinnedBefore w a)
  | .calls a => inferInstanceAs (Decidable (EachResume Unlisted w a))
  | .clock _ | .crash => .isTrue trivial

/-- Nothing on the list of an `evict_to_budget` is pinned. -/
def PinInv (s : ObjectFiles) (calls : List ObjectCall) : Prop :=
  ∀ call ∈ calls, ∀ hash ∈ evicting call, ∀ row,
    s.rows.get hash = some row → row.pinned = false

section pinned

variable {crypto : Crypto} {s s' : ObjectFiles} {call call' : ObjectCall}
  {rest : List ObjectCall}

theorem toEvict_subset {candidates : List (Bytes 32 × UInt64)}
    {bytesToDrop : UInt64} {hash : Bytes 32}
    (h : hash ∈ toEvict candidates bytesToDrop) :
    ∃ size, (hash, size) ∈ candidates := by
  induction candidates generalizing bytesToDrop with
  | nil => cases h
  | cons candidate rest ih =>
      unfold toEvict at h
      split at h
      · cases h
      · rcases List.mem_cons.mp h with rfl | h
        · exact ⟨candidate.2, List.mem_cons_self⟩
        · obtain ⟨size, hmem⟩ := ih h
          exact ⟨size, List.mem_cons_of_mem _ hmem⟩

/-- A candidate is not pinned. -/
theorem unpinned_of_candidate {hash : Bytes 32} {size : UInt64}
    (h : (hash, size) ∈ s.candidates) {row : ObjectRow}
    (hrow : s.rows.get hash = some row) : row.pinned = false := by
  obtain ⟨⟨hash', row'⟩, hmem, heq⟩ := List.mem_map.mp h
  obtain rfl : hash' = hash := (Prod.mk.inj heq).1
  obtain ⟨hmem, hunpinned⟩ :=
    List.mem_filter.mp ((List.mem_insertionSort _).mp hmem)
  rw [Rows.get_eq_some_iff.mpr hmem, Option.some.injEq] at hrow
  subst hrow
  simpa using hunpinned

/-- A step that pins nothing, of a call whose list gets no longer. -/
theorem PinInv.pass (hinv : PinInv s (call :: rest))
    (hrows : ∀ hash row', s'.rows.get hash = some row' →
      row'.pinned = false
        ∨ ∃ row, s.rows.get hash = some row ∧ row'.pinned = row.pinned)
    (hevicting : ∀ hash ∈ evicting call', hash ∈ evicting call) :
    PinInv s' (call' :: rest) := by
  have hkept : ∀ other ∈ call :: rest, ∀ hash ∈ evicting other, ∀ row',
      s'.rows.get hash = some row' → row'.pinned = false := by
    intro other hother hash hmem row' hrow'
    rcases hrows hash row' hrow' with h | ⟨row, hrow, heq⟩
    · exact h
    · rw [heq]
      exact hinv other hother hash hmem row hrow
  intro other hother hash hmem
  rcases List.mem_cons.mp hother with rfl | hother
  · exact hkept call List.mem_cons_self hash (hevicting hash hmem)
  · exact hkept other (List.mem_cons_of_mem _ hother) hash hmem

/-- A call goes on. -/
theorem PinInv.move (hinv : PinInv s (call :: rest))
    (hok : Unlisted s call rest) (h : ObjectMove crypto s call s' call') :
    PinInv s' (call' :: rest) := by
  cases h with
  | looks hrows hblobs hrow hevicting =>
      refine hinv.pass (fun hash row hrow => ?_) (by simp [hevicting])
      exact Or.inr ⟨row, hrows ▸ hrow, rfl⟩
  | collects budget total loop hloop =>
      intro other hother hash hmem row hrow
      rcases List.mem_cons.mp hother with rfl | hother
      · rw [evicting_next, hloop] at hmem
        obtain ⟨size, hmem⟩ := toEvict_subset hmem
        exact unpinned_of_candidate hmem hrow
      · exact hinv other (List.mem_cons_of_mem _ hother) hash hmem row hrow
  | inserts bytes inline hcall =>
      refine hinv.pass (fun hash row hrow => ?_) (by simp [evicting])
      rcases get_after_insert hrow with hold | ⟨-, -, -, hpinned⟩
      · exact Or.inr ⟨row, hold, rfl⟩
      · exact Or.inl hpinned
  | writes bytes now =>
      exact hinv.pass (fun hash row hrow => Or.inr ⟨row, hrow, rfl⟩)
        (by simp [evicting])
  | removes hash loop =>
      refine hinv.pass (fun hash row hrow => Or.inr ⟨row, hrow, rfl⟩) ?_
      cases loop with
      | none => simp [evicting]
      | some loop => simp [evicting]
  | deletes hash loop hrow hevicting =>
      refine hinv.pass (fun hash' row' hrow' => Or.inr ?_) hevicting
      rw [ObjectFiles.deleteObject, Rows.get_delete] at hrow'
      split at hrow'
      case isTrue => cases hrow'
      case isFalse => exact ⟨row', hrow', rfl⟩
  | touches hash bytes =>
      refine hinv.pass (fun hash' row' hrow' => Or.inr ?_) (by simp [evicting])
      exact get_of_update (·.pinned) hrow' fun row => rfl
  | pins hash =>
      intro other hother hash' hmem row hrow
      rcases List.mem_cons.mp hother with rfl | hother
      · cases hmem
      · rw [ObjectFiles.setPinned, Rows.get_update] at hrow
        split at hrow
        case isTrue heq =>
          obtain ⟨old, hold, -⟩ := Option.map_eq_some_iff.mp hrow
          have hthere : s.rows.get hash ≠ none := by simp [hold]
          exact absurd (heq ▸ hmem) (hok hash rfl hthere other hother)
        case isFalse =>
          exact hinv other (List.mem_cons_of_mem _ hother) hash' hmem row hrow
  | unpins hash =>
      refine hinv.pass (fun hash' row' hrow' => ?_) (by simp [evicting])
      rw [ObjectFiles.setPinned, Rows.get_update] at hrow'
      split at hrow'
      case isTrue =>
        obtain ⟨old, -, rfl⟩ := Option.map_eq_some_iff.mp hrow'
        exact Or.inl rfl
      case isFalse => exact Or.inr ⟨row', hrow', rfl⟩

/-- Every action that meets the condition. -/
theorem pinInv_step (w : ObjectTasks) (a : ObjectAction) (w' : ObjectTasks)
    (hok : PinnedBefore w a) (hinv : PinInv w.shared w.tasks)
    (h : objectStep crypto w a = some w') : PinInv w'.shared w'.tasks := by
  cases a with
  | calls a =>
      refine tasks_inv_step ?_ ?_ ?_ w a w' hok hinv h
      · exact fun hperm hinv call hcall => hinv call (hperm.mem_iff.mpr hcall)
      · intro s calls request hinv call hcall hash hmem
        rcases List.mem_cons.mp hcall with rfl | hcall
        · cases request <;> cases hmem
        · exact hinv call hcall hash hmem
      · exact fun hok hinv h => hinv.move hok (.of_resume h)
  | clock now =>
      obtain rfl := Option.some.inj h
      exact hinv
  | crash =>
      obtain rfl := Option.some.inj h
      exact fun call hcall => by cases hcall

/-- A step of `evict_to_budget` takes nothing but what is on its list. -/
theorem sweep_takes {hash : Bytes 32} (hsweep : sweeping call = true)
    (h : ObjectMove crypto s call s' call') (hmem : hash ∉ evicting call) :
    s'.rows.get hash = s.rows.get hash ∧ s'.blobs hash = s.blobs hash := by
  cases h with
  | looks hrows hblobs hrow hevicting =>
      exact ⟨by rw [hrows], by rw [hblobs]⟩
  | collects budget total loop hloop => exact ⟨rfl, rfl⟩
  | removes hash' loop =>
      cases loop with
      | none => cases hsweep
      | some loop =>
          have hne : hash ≠ hash' := fun heq => hmem (heq ▸ List.mem_cons_self)
          exact ⟨rfl, Table.erase_of_ne _ hne⟩
  | deletes hash' loop hrow hevicting =>
      cases loop with
      | none => cases hsweep
      | some loop =>
          have hne : hash ≠ hash' := fun heq => hmem (heq ▸ List.mem_cons_self)
          exact ⟨(Rows.get_delete ..).trans (if_neg hne), rfl⟩
  | inserts bytes inline hcall =>
      rcases hcall with ⟨rfl, -⟩ | ⟨rfl, -⟩ <;> cases hsweep
  | writes | touches | pins | unpins => cases hsweep

end pinned

/-- In every run that meets the condition, no step of an `evict_to_budget`
takes the row or the blob of an object that is pinned at that moment. -/
theorem pinned_kept (crypto : Crypto) {acts : List ObjectAction}
    {w w' : ObjectTasks} {i : Nat} {call : ObjectCall}
    (hok : Along (objectStep crypto) PinnedBefore .init acts)
    (hrun : run (objectStep crypto) .init acts = some w)
    (hcall : w.tasks[i]? = some call) (hsweep : sweeping call = true)
    (hstep : objectStep crypto w (.calls (.resume i)) = some w')
    {hash : Bytes 32} {row : ObjectRow}
    (hrow : w.shared.rows.get hash = some row) (hpinned : row.pinned = true) :
    w'.shared.rows.get hash = some row
      ∧ w'.shared.blobs hash = w.shared.blobs hash := by
  have hinv : PinInv w.shared w.tasks :=
    run_induct pinInv_step hok (fun call hcall => by cases hcall) hrun
  have hmem : hash ∉ evicting call := by
    intro hmem
    have hunpinned := hinv call (List.mem_of_getElem? hcall) hash hmem row hrow
    rw [hpinned] at hunpinned
    cases hunpinned
  cases hnext : call.resume crypto w.shared with
  | none => simp [objectStep, tasksStep, hcall, hnext] at hstep
  | some next =>
      have hw : objectStep crypto w (.calls (.resume i))
          = some ⟨next.1, w.tasks.set i next.2⟩ :=
        tasksStep_resume ObjectRequest.begin hcall hnext
      obtain rfl := Option.some.inj (hstep.symm.trans hw)
      rw [← hrow]
      exact sweep_takes hsweep (.of_resume hnext) hmem

-- ------------------------------------------------------ two small objects

/-- Two objects of two bytes are put, and the budget is one of them. -/
def putTwo : List ObjectAction :=
  [.calls (.begin (.put [1, 1])), .calls (.resume 0), .calls (.resume 0),
    .calls (.begin (.put [2, 2])), .calls (.resume 1), .calls (.resume 1),
    .calls (.begin (.setMaxBytes 2)), .calls (.resume 2)]

/-- An `evict_to_budget` up to its first DELETE, of the first object that is
not pinned. -/
def sweepToRow (i : Nat) : List ObjectAction :=
  [.calls (.begin .evictToBudget), .calls (.resume i), .calls (.resume i),
    .calls (.resume i), .calls (.resume i)]

/-- The first is pinned, and the second is evicted. -/
theorem pinned_kept_first :
    ∃ w w', run (objectStep Crypto.legible) .init
        (putTwo ++ [.calls (.begin (.pin (Crypto.legible.blake3 [1, 1]))),
          .calls (.resume 3)] ++ sweepToRow 4) = some w
      ∧ objectStep Crypto.legible w (.calls (.resume 4)) = some w'
      ∧ w'.shared.has (Crypto.legible.blake3 [2, 2]) = false
      ∧ ∃ row, w'.shared.rows.get (Crypto.legible.blake3 [1, 1]) = some row
        ∧ row.pinned = true := by
  obtain ⟨w, w', row, call, hrun, hstep, hgone, hcall, hsweep, hrow,
      hpinned⟩ : ∃ w w' row call, run (objectStep Crypto.legible) .init
        (putTwo ++ [.calls (.begin (.pin (Crypto.legible.blake3 [1, 1]))),
          .calls (.resume 3)] ++ sweepToRow 4) = some w
      ∧ objectStep Crypto.legible w (.calls (.resume 4)) = some w'
      ∧ w'.shared.has (Crypto.legible.blake3 [2, 2]) = false
      ∧ w.tasks[4]? = some call ∧ sweeping call = true
      ∧ w.shared.rows.get (Crypto.legible.blake3 [1, 1]) = some row
      ∧ row.pinned = true :=
    ⟨_, _, _, _, rfl, rfl, by decide +kernel, rfl, rfl, rfl, rfl⟩
  have hkept := pinned_kept Crypto.legible (by decide +kernel) hrun hcall
    hsweep hstep hrow hpinned
  exact ⟨w, w', hrun, hstep, hgone, row, hkept.1, hpinned⟩

/-- The first is on the list when it is pinned, and is evicted. -/
theorem listed_pinned_evicted :
    ∃ w w' row, run (objectStep Crypto.legible) .init
        (putTwo ++ sweepToRow 3
          ++ [.calls (.begin (.pin (Crypto.legible.blake3 [1, 1]))),
            .calls (.resume 4)]) = some w
      ∧ w.tasks[3]?.map sweeping = some true
      ∧ w.shared.rows.get (Crypto.legible.blake3 [1, 1]) = some row
      ∧ row.pinned = true
      ∧ objectStep Crypto.legible w (.calls (.resume 3)) = some w'
      ∧ w'.shared.rows.get (Crypto.legible.blake3 [1, 1]) = none :=
  ⟨_, _, _, rfl, by decide +kernel, rfl, rfl, rfl, by decide +kernel⟩

end Sidevers.Proofs
