/-
The memory and the store of a side agree once its calls are done, if whoever
wrote an entry last wrote it last in both.

An entry is in one of two conditions (`CallsInv.settled`): a call is between
its two writes of it, or both copies are from one call, and then they agree
(`Copies.Coherent`). A call that ends has to leave the entry so. It does if
another call is still between its writes, or if nobody wrote, since its own
first write, where it wrote first (`Ordered`).

The upsert of a relationship has a fault of its own: it keeps the `added_at`
of the row it overwrites, and its capability column separates tokens by
newlines (`Faithful`).
-/
import Sidevers.Lib.TwoCopies
import Sidevers.Net.SideCalls
import Sidevers.Proofs.Reload

namespace Sidevers.Proofs

open Sidevers.Core
open Sidevers.Lib
open Sidevers.Net

-- =========================================================== one call

/-- The two halves of a write one after the other are the operation. -/
theorem halves_sequential (s : Side) :
    (∀ p, (CellWrite.putProfile p).toMemory ((CellWrite.putProfile p).toStore s)
      = s.setProfile p)
    ∧ CellWrite.clearProfile.toStore (CellWrite.clearProfile.toMemory s)
      = s.clearProfile
    ∧ (∀ r, (CellWrite.putRelationship r).toMemory
        ((CellWrite.putRelationship r).toStore s) = s.addRelationship r)
    ∧ (∀ peer, (CellWrite.dropRelationship peer).toMemory
        ((CellWrite.dropRelationship peer).toStore s)
      = s.removeRelationship peer)
    ∧ (∀ device addedAt addedBy,
        (CellWrite.putCoHolder ⟨device, addedAt, addedBy⟩).toMemory
          ((CellWrite.putCoHolder ⟨device, addedAt, addedBy⟩).toStore s)
        = s.addCoHolder device addedBy addedAt)
    ∧ ∀ device, (CellWrite.dropCoHolder device).toMemory
        ((CellWrite.dropCoHolder device).toStore s) = s.removeCoHolder device :=
  ⟨fun _ => rfl, rfl, fun _ => rfl, fun _ => rfl, fun _ _ _ => rfl,
    fun _ => rfl⟩

-- ============================================================ the copies

/-- What an entry says. -/
inductive CellValue where
  | profile (wire : Option (List UInt8))
  | relationship (r : Option SideRelationship)
  | coHolder (r : Option CoHolderRecord)

/-- An entry in memory. -/
def memoryCell (s : Side) : Cell → CellValue
  | .profile => .profile (s.profile.map ProfilePayload.toWireBytes)
  | .relationship peer => .relationship (s.relationships peer)
  | .coHolder device => .coHolder (s.coHolders device)

/-- A row of `profiles` read back; its bytes are the profile. -/
def readProfile (row : Option ProfileRow) : CellValue :=
  .profile (row.map ProfileRow.wireBytes)

/-- A row of `relationships` read back. -/
def readRelationship (peer : Address) (row : Option RelationshipRow) :
    CellValue :=
  .relationship (row.map (SideStore.decodeRelationship peer))

/-- A row of `co_holders` read back. -/
def readCoHolder (device : Address) (row : Option CoHolderRow) : CellValue :=
  .coHolder (row.map fun r => ⟨device, r.addedAt.toUInt64, r.addedBy⟩)

/-- An entry as its row reads. -/
def rowCell (side : Address) (t : Tables) : Cell → CellValue
  | .profile => readProfile (t.profiles side)
  | .relationship peer =>
      readRelationship peer (t.relationships (side, peer))
  | .coHolder device => readCoHolder device (t.coHolders (side, device))

/-- An entry in the store. -/
def storeCell (s : Side) : Cell → CellValue :=
  rowCell s.address s.store.tables

/-- What a write makes an entry say. -/
def writeValue : CellWrite → CellValue
  | .putProfile p => .profile (some p.toWireBytes)
  | .clearProfile => .profile none
  | .putRelationship r => .relationship (some r)
  | .dropRelationship _ => .relationship none
  | .putCoHolder r => .coHolder (some r)
  | .dropCoHolder _ => .coHolder none

/-- Both, with who wrote them last. -/
def copies (w : SideCalls) : Copies Cell CellValue Nat :=
  ⟨memoryCell w.side, storeCell w.side, w.memoryBy, w.storeBy⟩

/-- A row that will read as what is written: the column gives the capability
set back, and a row that is there has the same `added_at`. -/
def Faithful (s : Side) : CellWrite → Prop
  | .putRelationship r => Encodable r.capabilities
      ∧ ∀ row, s.store.tables.relationships (s.address, r.address) = some row →
        row.addedAt.toUInt64 = r.addedAt
  | _ => True

section cells

variable {side k : Address} {t : Tables} {s : Side}

theorem memoryCell_profile (p : Option ProfilePayload) :
    memoryCell { s with profile := p }
      = Function.update (memoryCell s) .profile
          (.profile (p.map ProfilePayload.toWireBytes)) := by
  refine Function.eq_update_iff.mpr ⟨rfl, fun c hc => ?_⟩
  cases c <;> first | rfl | exact absurd rfl hc

theorem memoryCell_relationships (r : Option SideRelationship) :
    memoryCell { s with relationships := Function.update s.relationships k r }
      = Function.update (memoryCell s) (.relationship k)
          (.relationship r) := by
  refine Function.eq_update_iff.mpr ⟨?_, fun c hc => ?_⟩
  · exact congrArg _ (Function.update_self ..)
  · cases c <;> try rfl
    exact congrArg _ (Function.update_of_ne (fun h => hc (congrArg _ h)) ..)

theorem memoryCell_coHolders (r : Option CoHolderRecord) :
    memoryCell { s with coHolders := Function.update s.coHolders k r }
      = Function.update (memoryCell s) (.coHolder k) (.coHolder r) := by
  refine Function.eq_update_iff.mpr ⟨?_, fun c hc => ?_⟩
  · exact congrArg _ (Function.update_self ..)
  · cases c <;> try rfl
    exact congrArg _ (Function.update_of_ne (fun h => hc (congrArg _ h)) ..)

theorem rowCell_profiles (row : Option ProfileRow) :
    rowCell side { t with profiles := Function.update t.profiles side row }
      = Function.update (rowCell side t) .profile (readProfile row) := by
  refine Function.eq_update_iff.mpr ⟨?_, fun c hc => ?_⟩
  · exact congrArg readProfile (Function.update_self ..)
  · cases c <;> first | rfl | exact absurd rfl hc

theorem rowCell_relationships (row : Option RelationshipRow) :
    rowCell side { t with
        relationships := Function.update t.relationships (side, k) row }
      = Function.update (rowCell side t) (.relationship k)
          (readRelationship k row) := by
  refine Function.eq_update_iff.mpr ⟨?_, fun c hc => ?_⟩
  · exact congrArg (readRelationship k) (Function.update_self ..)
  · cases c with
    | relationship peer =>
        exact congrArg (readRelationship peer) (Function.update_of_ne
          (fun h => hc (congrArg _ (Prod.mk.inj h).2)) ..)
    | profile => rfl
    | coHolder device => rfl

theorem rowCell_coHolders (row : Option CoHolderRow) :
    rowCell side { t with
        coHolders := Function.update t.coHolders (side, k) row }
      = Function.update (rowCell side t) (.coHolder k)
          (readCoHolder k row) := by
  refine Function.eq_update_iff.mpr ⟨?_, fun c hc => ?_⟩
  · exact congrArg (readCoHolder k) (Function.update_self ..)
  · cases c with
    | coHolder device =>
        exact congrArg (readCoHolder device) (Function.update_of_ne
          (fun h => hc (congrArg _ (Prod.mk.inj h).2)) ..)
    | profile => rfl
    | relationship peer => rfl

end cells

/-- A write in memory changes its entry and no other. -/
theorem memoryCell_toMemory (s : Side) (write : CellWrite) :
    memoryCell (write.toMemory s)
      = Function.update (memoryCell s) write.cell (writeValue write) := by
  cases write with
  | putProfile p => exact memoryCell_profile _
  | clearProfile => exact memoryCell_profile _
  | putRelationship r => exact memoryCell_relationships _
  | dropRelationship peer => exact memoryCell_relationships _
  | putCoHolder r => exact memoryCell_coHolders _
  | dropCoHolder device => exact memoryCell_coHolders _

theorem storeCell_toMemory (s : Side) (write : CellWrite) :
    storeCell (write.toMemory s) = storeCell s := by
  cases write <;> rfl

theorem memoryCell_toStore (s : Side) (write : CellWrite) :
    memoryCell (write.toStore s) = memoryCell s := by
  cases write <;> rfl

/-- A faithful row reads as the relationship it is written from. -/
theorem readRelationship_upsert {s : Side} {r : SideRelationship}
    (hfaithful : Faithful s (.putRelationship r)) :
    readRelationship r.address (some
      { nickname := r.nickname, introducedBy := r.introducedBy
        capabilities := SideStore.encodeCapabilities r.capabilities
        notes := r.notes, pinned := SideStore.boolToI64 r.pinned
        addedAt := match s.store.tables.relationships (s.address, r.address) with
          | none => r.addedAt.toInt64
          | some old => old.addedAt
        peerListenAddr := r.peerListenAddr }) = .relationship (some r) := by
  refine congrArg (fun r => CellValue.relationship (some r))
    (decode_upsert_row hfaithful.1 ?_)
  cases hold : s.store.tables.relationships (s.address, r.address) with
  | none => rfl
  | some old => exact hfaithful.2 old hold

/-- A write in the store changes its row and no other. -/
theorem storeCell_toStore {s : Side} (hhealthy : s.store.Healthy)
    {write : CellWrite} (hfaithful : Faithful s write) :
    storeCell (write.toStore s)
      = Function.update (storeCell s) write.cell (writeValue write) := by
  have hrun : ∀ update, storeCell (s.persist (SideStore.execute update))
      = rowCell s.address (update s.store.tables) := fun update => by
    rw [Side.persist_execute_of_ok _ (healthy_head hhealthy)]
    rfl
  cases write with
  | putProfile p => exact (hrun _).trans (rowCell_profiles _)
  | clearProfile => exact (hrun _).trans (rowCell_profiles _)
  | putRelationship r =>
      refine (hrun _).trans ((rowCell_relationships _).trans ?_)
      exact congrArg _ (readRelationship_upsert hfaithful)
  | dropRelationship peer => exact (hrun _).trans (rowCell_relationships _)
  | putCoHolder r => exact (hrun _).trans (rowCell_coHolders _)
  | dropCoHolder device => exact (hrun _).trans (rowCell_coHolders _)

theorem healthy_toStore {s : Side} (hhealthy : s.store.Healthy)
    (write : CellWrite) : (write.toStore s).store.Healthy := by
  have hrun : ∀ update, (s.persist (SideStore.execute update)).store.Healthy :=
    fun update => by
      rw [Side.persist_execute_of_ok _ (healthy_head hhealthy)]
      exact healthy_tail _ hhealthy
  cases write <;> exact hrun _

-- ========================================================= the condition

/-- Is the call between its two writes of an entry? -/
def between (k : Cell) : SideCall → Prop
  | .memorySecond write => write.cell = k
  | .profileClearing => k = .profile
  | .relationshipUpdated peer | .relationshipPersisting peer _ =>
      k = .relationship peer
  | _ => False

/-- Is another call than the `i`th? -/
def OtherBetween (w : SideCalls) (i : Nat) (k : Cell) : Prop :=
  ∃ (j : Nat) (call : SideCall),
    j ≠ i ∧ w.calls[j]? = some call ∧ between k call

/-- The condition: a call that ends with no other between its two writes of
the entry finds its own first write to be the last where it wrote first, and
an update that finds its entry gone finds both copies last written by one
call. What is written under the relationships is faithful, and the closure of
an update leaves the address alone. -/
def Ordered (w : SideCalls) : SideCallsAction → Prop
  | .begin _ => True
  | .resume i =>
      match w.calls[i]? with
      | some (.storeFirst write) => Faithful w.side write
      | some (.memorySecond write) =>
          OtherBetween w i write.cell ∨ w.storeBy write.cell = some i
      | some (.relationshipUpdating peer f) =>
          ∀ r, w.side.relationships peer = some r → (f r).address = peer
      | some (.relationshipUpdated peer) =>
          w.side.relationships peer = none →
            OtherBetween w i (.relationship peer)
              ∨ w.memoryBy (.relationship peer)
                = w.storeBy (.relationship peer)
      | some (.relationshipPersisting peer after) =>
          Faithful w.side (.putRelationship after)
            ∧ (OtherBetween w i (.relationship peer)
              ∨ w.memoryBy (.relationship peer) = some i)
      | _ => True

-- ========================================================= the invariant

/-- What a call knows of its writes. -/
def OwnWrites (c : Copies Cell CellValue Nat) (i : Nat) : SideCall → Prop
  | .memorySecond write => (∀ k, c.memoryBy k ≠ some i)
      ∧ (c.storeBy write.cell = some i → c.store write.cell = writeValue write)
  | .profileClearing => (∀ k, c.storeBy k ≠ some i)
      ∧ c.memoryBy .profile = some i ∧ c.memory .profile = .profile none
  | .relationshipUpdated _ => ∀ k, c.storeBy k ≠ some i
  | .relationshipPersisting peer after => (∀ k, c.storeBy k ≠ some i)
      ∧ after.address = peer
      ∧ (c.memoryBy (.relationship peer) = some i →
        c.memory (.relationship peer) = .relationship (some after))
  | .done => True
  | _ => ∀ k, c.memoryBy k ≠ some i ∧ c.storeBy k ≠ some i

/-- What holds in every state of a run that meets the condition. -/
structure CallsInv (w : SideCalls) : Prop where
  healthy : w.side.store.Healthy
  keyed : ∀ peer r, w.side.relationships peer = some r → r.address = peer
  begun : ∀ k i, w.memoryBy k = some i ∨ w.storeBy k = some i →
    i < w.calls.length
  calls : ∀ i call, w.calls[i]? = some call → OwnWrites (copies w) i call
  coherent : (copies w).Coherent
  settled : ∀ k, w.memoryBy k = w.storeBy k
    ∨ ∃ (i : Nat) (call : SideCall),
      w.calls[i]? = some call ∧ between k call

-- ============================================================ the steps

section steps

variable {w : SideCalls} {i j : Nat} {k : Cell} {v : CellValue}
  {call call' : SideCall} {c : Copies Cell CellValue Nat}

/-- A write of the store leaves what the other calls know. -/
theorem OwnWrites.writeStore (h : OwnWrites c j call) (hij : j ≠ i) :
    OwnWrites (c.writeStore i k v) j call := by
  have hnone : (∀ k, c.storeBy k ≠ some j) →
      ∀ k', (c.writeStore i k v).storeBy k' ≠ some j :=
    fun hold k' heq => hold k' (Copies.storeBy_writeStore_ne hij heq).1
  cases call with
  | memorySecond write =>
      refine ⟨h.1, fun heq => ?_⟩
      obtain ⟨hby, hsame⟩ := Copies.storeBy_writeStore_ne hij heq
      exact hsame.trans (h.2 hby)
  | profileClearing => exact ⟨hnone h.1, h.2⟩
  | relationshipUpdated peer => exact hnone h
  | relationshipPersisting peer after => exact ⟨hnone h.1, h.2⟩
  | done => trivial
  | storeFirst _ | profileUpdated _ | profileCleared | updateRelationship _ _
  | relationshipUpdating _ _ =>
      exact fun k' => ⟨(h k').1, hnone (fun k => (h k).2) k'⟩

/-- A write of the memory does, too, but that it waits for the lock of the
profile. -/
theorem OwnWrites.writeMemory (h : OwnWrites c j call) (hij : j ≠ i)
    (hlock : k = .profile → call.locksProfile = false) :
    OwnWrites (c.writeMemory i k v) j call := by
  have hnone : (∀ k, c.memoryBy k ≠ some j) →
      ∀ k', (c.writeMemory i k v).memoryBy k' ≠ some j :=
    fun hold k' heq => hold k' (Copies.memoryBy_writeMemory_ne hij heq).1
  cases call with
  | memorySecond write => exact ⟨hnone h.1, h.2⟩
  | profileClearing =>
      have hne : Cell.profile ≠ k := fun heq => by cases hlock heq.symm
      refine ⟨h.1, ?_, ?_⟩
      · exact (Copies.memoryBy_writeMemory_of_ne hne).trans h.2.1
      · exact (Function.update_of_ne hne ..).trans h.2.2
  | relationshipUpdated peer => exact h
  | relationshipPersisting peer after =>
      refine ⟨h.1, h.2.1, fun heq => ?_⟩
      obtain ⟨hby, hsame⟩ := Copies.memoryBy_writeMemory_ne hij heq
      exact hsame.trans (h.2.2 hby)
  | done => trivial
  | storeFirst _ | profileUpdated _ | profileCleared | updateRelationship _ _
  | relationshipUpdating _ _ =>
      exact fun k' => ⟨hnone (fun k => (h k).1) k', (h k').2⟩

/-- An entry that this call is not between its writes of. -/
theorem CallsInv.settled_of_not_between (hinv : CallsInv w)
    (hcall : w.calls[i]? = some call) (hnot : ¬ between k call) :
    w.memoryBy k = w.storeBy k ∨ OtherBetween w i k := by
  rcases hinv.settled k with heq | ⟨j, other, hother, hbetween⟩
  · exact Or.inl heq
  · refine Or.inr ⟨j, other, ?_, hother, hbetween⟩
    rintro rfl
    rw [hcall, Option.some.injEq] at hother
    exact hnot (hother ▸ hbetween)

/-- The calls after one has gone on. -/
theorem getElem?_goOn (hcall : w.calls[i]? = some call) {other : SideCall}
    (h : (w.goOn i call').calls[j]? = some other) :
    (j = i ∧ other = call') ∨ (j ≠ i ∧ w.calls[j]? = some other) := by
  have hi : i < w.calls.length := (List.getElem?_eq_some_iff.mp hcall).1
  by_cases hj : j = i
  · subst hj
    rw [SideCalls.goOn, List.getElem?_set_self hi, Option.some.injEq] at h
    exact Or.inl ⟨rfl, h.symm⟩
  · rw [SideCalls.goOn, List.getElem?_set_ne (Ne.symm hj)] at h
    exact Or.inr ⟨hj, h⟩

/-- A call has gone on. -/
theorem CallsInv.goOn (hinv : CallsInv w) (hcall : w.calls[i]? = some call)
    {w' : SideCalls} (hcalls : w'.calls = w.calls)
    (hhealthy : w'.side.store.Healthy)
    (hkeyed : ∀ peer r, w'.side.relationships peer = some r →
      r.address = peer)
    (hbegun : ∀ k j, w'.memoryBy k = some j ∨ w'.storeBy k = some j →
      j = i ∨ w.memoryBy k = some j ∨ w.storeBy k = some j)
    (hothers : ∀ j other, j ≠ i → w.calls[j]? = some other →
      OwnWrites (copies w') j other)
    (hown : OwnWrites (copies w') i call') (hcoherent : (copies w').Coherent)
    (hsettled : ∀ k, w'.memoryBy k = w'.storeBy k ∨ between k call'
      ∨ OtherBetween w i k) : CallsInv (w'.goOn i call') := by
  have hi : i < w.calls.length := (List.getElem?_eq_some_iff.mp hcall).1
  have hcall' : w'.calls[i]? = some call := by rwa [hcalls]
  refine ⟨hhealthy, hkeyed, ?_, ?_, hcoherent, ?_⟩
  · intro k j h
    rw [SideCalls.goOn, List.length_set, hcalls]
    rcases hbegun k j h with rfl | h
    · exact hi
    · exact hinv.begun k j h
  · intro j other h
    rcases getElem?_goOn hcall' h with ⟨rfl, rfl⟩ | ⟨hne, hother⟩
    · exact hown
    · exact hothers j other hne (hcalls ▸ hother)
  · intro k
    rcases hsettled k with heq | hbetween | ⟨j, other, hne, hother, hbetween⟩
    · exact Or.inl heq
    · refine Or.inr ⟨i, call', ?_, hbetween⟩
      exact List.getElem?_set_self (hcalls ▸ hi)
    · refine Or.inr ⟨j, other, ?_, hbetween⟩
      rw [← hcalls] at hother
      exact (List.getElem?_set_ne (Ne.symm hne)).trans hother

/-- It only looks. -/
theorem CallsInv.quiet (hinv : CallsInv w) (hcall : w.calls[i]? = some call)
    (hown : OwnWrites (copies w) i call')
    (hend : ∀ k, between k call → between k call' ∨ OtherBetween w i k
      ∨ w.memoryBy k = w.storeBy k) : CallsInv (w.goOn i call') := by
  refine hinv.goOn hcall rfl hinv.healthy hinv.keyed (fun k j h => Or.inr h)
    (fun j other _ h => hinv.calls j other h) hown hinv.coherent fun k => ?_
  by_cases hbetween : between k call
  · rcases hend k hbetween with h | h | h
    · exact Or.inr (Or.inl h)
    · exact Or.inr (Or.inr h)
    · exact Or.inl h
  · rcases hinv.settled_of_not_between hcall hbetween with h | h
    · exact Or.inl h
    · exact Or.inr (Or.inr h)

/-- It writes the store: with its memory write before it, or another call
after it. -/
theorem CallsInv.writeStore (hinv : CallsInv w)
    (hcall : w.calls[i]? = some call) {write : CellWrite}
    (hfaithful : Faithful w.side write)
    (hmine : w.memoryBy write.cell = some i →
      memoryCell w.side write.cell = writeValue write)
    (hown : OwnWrites ((copies w).writeStore i write.cell (writeValue write)) i
      call')
    (honly : ∀ k, between k call → k = write.cell)
    (hend : between write.cell call' ∨ OtherBetween w i write.cell
      ∨ w.memoryBy write.cell = some i) :
    CallsInv ((w.writeStore i write).goOn i call') := by
  have hcopies : copies (w.writeStore i write)
      = (copies w).writeStore i write.cell (writeValue write) := by
    simp only [copies, SideCalls.writeStore, Copies.writeStore,
      memoryCell_toStore, storeCell_toStore hinv.healthy hfaithful]
  refine hinv.goOn hcall rfl (healthy_toStore hinv.healthy write) ?_ ?_ ?_
    (hcopies ▸ hown) (hcopies ▸ hinv.coherent.writeStore hmine) ?_
  · cases write <;> exact hinv.keyed
  · rintro k j (h | h)
    · exact Or.inr (Or.inl h)
    · by_cases hj : j = i
      · exact Or.inl hj
      · exact Or.inr (Or.inr (Copies.storeBy_writeStore_ne
          (c := copies w) (v := writeValue write) hj h).1)
  · intro j other hj h
    rw [hcopies]
    exact (hinv.calls j other h).writeStore hj
  · intro k
    by_cases hk : k = write.cell
    · subst hk
      rcases hend with h | h | h
      · exact Or.inr (Or.inl h)
      · exact Or.inr (Or.inr h)
      · have hlast : (w.writeStore i write).storeBy write.cell = some i :=
          Function.update_self ..
        exact Or.inl (h.trans hlast.symm)
    · rcases hinv.settled_of_not_between hcall (fun h => hk (honly k h))
        with h | h
      · exact Or.inl (h.trans (Function.update_of_ne hk ..).symm)
      · exact Or.inr (Or.inr h)

/-- It writes the memory: with its store write before it, or another call
after it. -/
theorem CallsInv.writeMemory (hinv : CallsInv w)
    (hcall : w.calls[i]? = some call) {side : Side}
    (hstore : side.store = w.side.store) (hcells : storeCell side
      = storeCell w.side)
    (hmemory : memoryCell side
      = Function.update (memoryCell w.side) k v)
    (hkeyed : ∀ peer r, side.relationships peer = some r → r.address = peer)
    (hlock : k = .profile → w.profileLocked = false)
    (hmine : w.storeBy k = some i → storeCell w.side k = v)
    (hown : OwnWrites ((copies w).writeMemory i k v) i call')
    (honly : ∀ k', between k' call → k' = k)
    (hend : between k call' ∨ OtherBetween w i k ∨ w.storeBy k = some i) :
    CallsInv ((w.memoryWritten i k side).goOn i call') := by
  have hcopies : copies (w.memoryWritten i k side)
      = (copies w).writeMemory i k v := by
    simp only [copies, SideCalls.memoryWritten, Copies.writeMemory, hcells,
      hmemory]
  refine hinv.goOn hcall rfl (hstore ▸ hinv.healthy) hkeyed ?_ ?_
    (hcopies ▸ hown) (hcopies ▸ hinv.coherent.writeMemory hmine) ?_
  · rintro k' j (h | h)
    · by_cases hj : j = i
      · exact Or.inl hj
      · exact Or.inr (Or.inl (Copies.memoryBy_writeMemory_ne
          (c := copies w) (v := v) hj h).1)
    · exact Or.inr (Or.inr h)
  · intro j other hj h
    rw [hcopies]
    refine (hinv.calls j other h).writeMemory hj fun hk => ?_
    have hfree := List.any_eq_false.mp (hlock hk)
    exact Bool.eq_false_iff.mpr
      (hfree other (List.mem_of_getElem? h))
  · intro k'
    by_cases hk : k' = k
    · subst hk
      rcases hend with h | h | h
      · exact Or.inr (Or.inl h)
      · exact Or.inr (Or.inr h)
      · exact Or.inl ((Function.update_self ..).trans h.symm)
    · rcases hinv.settled_of_not_between hcall (fun h => hk (honly k' h))
        with h | h
      · exact Or.inl ((Function.update_of_ne hk ..).trans h)
      · exact Or.inr (Or.inr h)

end steps

theorem keyed_toMemory {s : Side}
    (hkeyed : ∀ peer r, s.relationships peer = some r → r.address = peer)
    (write : CellWrite) : ∀ peer r,
      (write.toMemory s).relationships peer = some r → r.address = peer := by
  intro peer r h
  cases write with
  | putRelationship r' =>
      rcases (Table.insert_eq_some_iff _).mp h with ⟨rfl, rfl⟩ | ⟨-, h⟩
      · rfl
      · exact hkeyed peer r h
  | dropRelationship peer' =>
      exact hkeyed peer r ((Table.erase_eq_some_iff _).mp h).2
  | putProfile _ | clearProfile | putCoHolder _ | dropCoHolder _ =>
      exact hkeyed peer r h

section update

variable {t : RelationshipTable} {peer : Address} {r : SideRelationship}
  (f : SideRelationship → SideRelationship)

theorem update_of_none (h : t peer = none) :
    RelationshipTable.update t peer f = (false, t) := by
  unfold RelationshipTable.update
  rw [h]

theorem update_of_some (h : t peer = some r) :
    RelationshipTable.update t peer f = (true, Table.insert t peer (f r)) := by
  unfold RelationshipTable.update
  rw [h]

end update

/-- A call goes on from each of its awaits. -/
theorem CallsInv.resume {w w' : SideCalls} {i : Nat} {call : SideCall}
    (hinv : CallsInv w) (hcall : w.calls[i]? = some call)
    (hok : Ordered w (.resume i)) (h : w.resume i call = some w') :
    CallsInv w' := by
  have hownWrites := hinv.calls i call hcall
  simp only [Ordered, hcall] at hok
  cases call with
  | storeFirst write =>
      obtain rfl := Option.some.inj h
      refine hinv.writeStore hcall hok (fun hby => absurd hby (hownWrites _).1)
        ⟨fun k => (hownWrites k).1, fun _ => Copies.store_writeStore_self⟩
        (fun k hk => hk.elim) (Or.inl rfl)
  | memorySecond write =>
      simp only [SideCalls.resume, Option.ite_none_left_eq_some,
        Option.some.injEq, not_and, Bool.not_eq_true] at h
      obtain ⟨hlock, rfl⟩ := h
      refine hinv.writeMemory hcall ?_ (storeCell_toMemory w.side write)
        (memoryCell_toMemory w.side write) (keyed_toMemory hinv.keyed write)
        hlock hownWrites.2 trivial (fun k hk => hk.symm) (Or.inr hok)
      cases write <;> rfl
  | profileUpdated p =>
      simp only [SideCalls.resume, Option.ite_none_left_eq_some] at h
      obtain ⟨-, h⟩ := h
      rcases ite_eq_iff.mp h with ⟨-, h⟩ | ⟨-, h⟩
      · obtain rfl := Option.some.inj h
        exact hinv.quiet hcall hownWrites fun k hk => hk.elim
      · obtain rfl := Option.some.inj h
        exact hinv.quiet hcall trivial fun k hk => hk.elim
  | profileCleared =>
      simp only [SideCalls.resume, Option.ite_none_left_eq_some,
        Option.some.injEq, Bool.not_eq_true] at h
      obtain ⟨hlock, rfl⟩ := h
      refine hinv.writeMemory hcall rfl rfl
        (memoryCell_toMemory w.side .clearProfile) hinv.keyed (fun _ => hlock)
        (fun hby => absurd hby (hownWrites _).2)
        ⟨fun k => (hownWrites k).2, Copies.memoryBy_writeMemory_self,
          Copies.memory_writeMemory_self⟩ (fun k hk => hk.elim) (Or.inl rfl)
  | profileClearing =>
      obtain rfl := Option.some.inj h
      obtain ⟨-, hby, hcleared⟩ := hownWrites
      exact hinv.writeStore hcall trivial (fun _ => hcleared) trivial
        (fun k hk => hk) (Or.inr (Or.inr hby))
  | updateRelationship peer f =>
      simp only [SideCalls.resume] at h
      cases hr : w.side.relationships peer with
      | none =>
          rw [hr] at h
          obtain rfl := Option.some.inj h
          exact hinv.quiet hcall trivial fun k hk => hk.elim
      | some r =>
          rw [hr] at h
          obtain rfl := Option.some.inj h
          exact hinv.quiet hcall hownWrites fun k hk => hk.elim
  | relationshipUpdating peer f =>
      cases hr : w.side.relationships peer with
      | none =>
          simp only [SideCalls.resume, update_of_none f hr,
            Bool.false_eq_true, if_false, Option.some.injEq] at h
          obtain rfl := h
          exact hinv.quiet hcall trivial fun k hk => hk.elim
      | some r =>
          simp only [SideCalls.resume, update_of_some f hr, if_true,
            Option.some.injEq] at h
          obtain rfl := h
          refine hinv.writeMemory hcall rfl rfl
            (memoryCell_relationships (some (f r))) ?_ (fun h => by cases h)
            (fun hby => absurd hby (hownWrites _).2) (fun k => (hownWrites k).2)
            (fun k hk => hk.elim) (Or.inl rfl)
          intro peer' r' hr'
          rcases (Table.insert_eq_some_iff _).mp hr' with ⟨rfl, rfl⟩ | ⟨-, h⟩
          · exact hok r hr
          · exact hinv.keyed peer' r' h
  | relationshipUpdated peer =>
      simp only [SideCalls.resume] at h
      cases hr : w.side.relationships peer with
      | none =>
          rw [hr] at h
          obtain rfl := Option.some.inj h
          refine hinv.quiet hcall trivial fun k hk => ?_
          subst hk
          exact Or.inr (hok hr)
      | some after =>
          rw [hr] at h
          obtain rfl := Option.some.inj h
          refine hinv.quiet hcall ⟨hownWrites, hinv.keyed peer after hr,
            fun _ => congrArg _ hr⟩ fun k hk => Or.inl hk
  | relationshipPersisting peer after =>
      obtain rfl := Option.some.inj h
      obtain ⟨-, rfl, hmine⟩ := hownWrites
      exact hinv.writeStore hcall hok.1 hmine trivial (fun k hk => hk)
        (Or.inr hok.2)
  | done => cases h

/-- A call that begins has written nothing. -/
theorem CallsInv.begin {w : SideCalls} (hinv : CallsInv w) (crypto : Crypto)
    (request : SideRequest) :
    CallsInv { w with calls := w.calls ++ [request.begin crypto] } := by
  have hfresh : OwnWrites (copies w) w.calls.length (request.begin crypto) := by
    have hnone : ∀ k, w.memoryBy k ≠ some w.calls.length
        ∧ w.storeBy k ≠ some w.calls.length := fun k =>
      ⟨fun h => Nat.lt_irrefl _ (hinv.begun k _ (Or.inl h)),
        fun h => Nat.lt_irrefl _ (hinv.begun k _ (Or.inr h))⟩
    cases request with
    | profileUpdated profileWire =>
        simp only [SideRequest.begin]
        split
        · exact hnone
        · trivial
    | setProfile _ | profileCleared | addRelationship _ | removeRelationship _
    | updateRelationship _ _ | addCoHolder _ _ _ | removeCoHolder _ =>
        exact hnone
  refine { hinv with begun := ?_, calls := ?_, settled := ?_ }
  · intro k i h
    rw [List.length_append]
    exact Nat.lt_add_right _ (hinv.begun k i h)
  · intro i call h
    rcases Nat.lt_trichotomy i w.calls.length with hlt | rfl | hgt
    · rw [List.getElem?_append_left hlt] at h
      exact hinv.calls i call h
    · rw [List.getElem?_concat_length, Option.some.injEq] at h
      exact h ▸ hfresh
    · rw [List.getElem?_eq_none (by simp; omega)] at h
      cases h
  · intro k
    rcases hinv.settled k with heq | ⟨i, call, hcall, hbetween⟩
    · exact Or.inl heq
    · have hi := (List.getElem?_eq_some_iff.mp hcall).1
      exact Or.inr ⟨i, call, (List.getElem?_append_left hi).trans hcall,
        hbetween⟩

theorem callsInv_step {crypto : Crypto} (w : SideCalls) (a : SideCallsAction)
    (w' : SideCalls) (hok : Ordered w a) (hinv : CallsInv w)
    (h : sideCallsStep crypto w a = some w') : CallsInv w' := by
  cases a with
  | begin request =>
      obtain rfl := Option.some.inj h
      exact hinv.begin crypto request
  | resume i =>
      simp only [sideCallsStep] at h
      cases hcall : w.calls[i]? with
      | none =>
          rw [hcall] at h
          cases h
      | some call =>
          rw [hcall] at h
          exact hinv.resume hcall hok h

/-- A profile that was read back has its row's bytes. -/
theorem wire_of_profileOf {crypto : Crypto} {side : Address} {t : Tables}
    {profile : Option ProfilePayload}
    (h : SideStore.profileOf crypto side t = .ok profile) :
    profile.map ProfilePayload.toWireBytes
      = (t.profiles side).map ProfileRow.wireBytes := by
  unfold SideStore.profileOf at h
  cases hrow : t.profiles side with
  | none =>
      rw [hrow] at h
      obtain rfl := Except.ok.inj h
      rfl
  | some row =>
      simp only [hrow] at h
      cases hread : ProfilePayload.fromWireBytes crypto row.wireBytes with
      | error e =>
          rw [hread] at h
          cases h
      | ok p =>
          rw [hread] at h
          obtain rfl := Except.ok.inj h
          exact congrArg some
            (ProfilePayload.toWireBytes_of_fromWireBytes hread)

/-- A side that was loaded. -/
theorem callsInv_start {crypto : Crypto} {s : Side} (h : Mirrored crypto s) :
    CallsInv (.start s) where
  healthy := h.healthy
  keyed := fun peer r hr => by
    have hr : s.relationships peer = some r := hr
    rw [← h.relationships] at hr
    obtain ⟨row, -, rfl⟩ := Option.map_eq_some_iff.mp hr
    rfl
  begun := fun k i h => by rcases h with h | h <;> cases h
  calls := fun i call h => by cases h
  coherent := fun k _ => by
    cases k with
    | profile => exact congrArg CellValue.profile (wire_of_profileOf h.profile)
    | relationship peer =>
        exact congrArg CellValue.relationship
          (congrFun h.relationships peer).symm
    | coHolder device =>
        have hrecords := congrFun h.coHolders device
        rw [coHolderRecords_eq] at hrecords
        exact congrArg CellValue.coHolder hrecords.symm
  settled := fun k => Or.inl rfl

-- ========================================================= the theorem

/-- What is in memory is what the rows say. -/
structure CopiesAgree (s : Side) : Prop where
  profile : (s.store.tables.profiles s.address).map ProfileRow.wireBytes
    = s.profile.map ProfilePayload.toWireBytes
  relationships : SideStore.relationshipsOf s.address s.store.tables
    = s.relationships
  coHolders : Side.coHolderRecords
    (SideStore.coHoldersOf s.address s.store.tables) = s.coHolders

/-- All calls are done. -/
def Finished (w : SideCalls) : Prop := ∀ call ∈ w.calls, call = .done

theorem copiesAgree_of_finished {w : SideCalls} (hinv : CallsInv w)
    (hdone : Finished w) : CopiesAgree w.side := by
  have hagree : ∀ k, memoryCell w.side k = storeCell w.side k := by
    intro k
    rcases hinv.settled k with heq | ⟨i, call, hcall, hbetween⟩
    · exact hinv.coherent k heq
    · rw [hdone call (List.mem_of_getElem? hcall)] at hbetween
      exact hbetween.elim
  constructor
  · exact (CellValue.profile.inj (hagree .profile)).symm
  · funext peer
    exact (CellValue.relationship.inj (hagree (.relationship peer))).symm
  · funext device
    rw [coHolderRecords_eq]
    exact (CellValue.coHolder.inj (hagree (.coHolder device))).symm

/-- In every run of calls on a loaded side that meets the condition, once all
calls are done the memory and the rows agree. -/
theorem copies_agree (crypto : Crypto) (key : SideKey) (label : Option String)
    (now : UInt64) (store : SideStore) (s : Side) (hhealthy : store.Healthy)
    (href : Referenced key.publicBytes store.tables)
    (hload : Side.loadOrCreate crypto key label now store = .ok s)
    {acts : List SideCallsAction} {w : SideCalls}
    (hok : Along (sideCallsStep crypto) Ordered (.start s) acts)
    (hrun : run (sideCallsStep crypto) (.start s) acts = some w)
    (hdone : Finished w) : CopiesAgree w.side :=
  copiesAgree_of_finished (run_induct callsInv_step hok
    (callsInv_start (mirrored_of_load hhealthy href hload)) hrun) hdone

/-- A device that is recorded and removed at once; the store has the record
first. -/
def recordRemove (last : List SideCallsAction) : List SideCallsAction :=
  [.begin (.addCoHolder (Bytes.fill _ 7) none 1),
   .begin (.removeCoHolder (Bytes.fill _ 7)), .resume 0, .resume 1] ++ last

/-- The memory has it first, too. -/
theorem copies_agree_removed :
    ∃ s w, Side.loadOrCreate Crypto.refusing reloadKey none 0
          ⟨Tables.empty, []⟩ = .ok s
      ∧ run (sideCallsStep Crypto.refusing) (.start s)
          (recordRemove [.resume 0, .resume 1]) = some w
      ∧ CopiesAgree w.side := by
  have hload : Side.loadOrCreate Crypto.refusing reloadKey none 0
      ⟨Tables.empty, []⟩ = .ok _ := rfl
  have hok : ∀ s, Along (sideCallsStep Crypto.refusing) Ordered (.start s)
      (recordRemove [.resume 0, .resume 1]) := fun s => by
    refine .cons rfl trivial (.cons rfl trivial (.cons rfl trivial
      (.cons rfl trivial (.cons rfl ?_ (.cons rfl ?_ trivial)))))
    · exact Or.inl ⟨1, _, by decide, rfl, rfl⟩
    · exact Or.inr rfl
  refine ⟨_, _, hload, rfl, copies_agree Crypto.refusing reloadKey none 0
    ⟨Tables.empty, []⟩ _ (by decide) ?_ hload (hok _) rfl ?_⟩
  · exact ⟨fun _ => rfl, fun _ _ => rfl, fun _ _ => rfl, fun _ _ => rfl,
      fun _ _ => rfl, fun _ _ => rfl⟩
  · intro call hcall
    have hcall : call ∈ [SideCall.done, .done] := hcall
    simpa using hcall

/-- The memory has the removal first, and the device stays in memory. -/
theorem removed_coHolder_stays :
    ∃ s w, Side.loadOrCreate Crypto.refusing reloadKey none 0
          ⟨Tables.empty, []⟩ = .ok s
      ∧ run (sideCallsStep Crypto.refusing) (.start s)
          (recordRemove [.resume 1, .resume 0]) = some w
      ∧ Finished w ∧ ¬ CopiesAgree w.side := by
  refine ⟨_, _, rfl, rfl, ?_, fun h => ?_⟩
  · intro call hcall
    have hcall : call ∈ [SideCall.done, .done] := hcall
    simpa using hcall
  · cases congrFun h.coHolders (Bytes.fill _ 7)

end Sidevers.Proofs
