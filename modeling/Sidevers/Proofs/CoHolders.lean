/-
Revoked devices, co-holders and push targets: what the co-holder operations
keep apart, and which of them do not.

# The invariant

`RevokedOut`: a revoked device has no co-holder entry and no recorded
address, in the memory and in the store. The push of a delta dials the
recorded addresses, so the second half is what keeps a revoked device from
being dialled. It is proved together with `RevokedLoaded`: the guards of the
code ask the memory, so the store must not know of a revocation the memory
does not.

# The argument

Every operation touches the rows of one device at most (`SameOutside`), so
it is enough to look at that device afterwards: either it is gone from all
four places, or it is not revoked.

# Which steps restore it

`CoHolderRemoved` drops the address with the co-holder; the two revocation
handlers do not, and the pairing handler does not ask whether the device is
revoked. `StepOk` is the condition under which these differences do not
show.
-/
import Sidevers.Lib.Run
import Sidevers.Net.Side

namespace Sidevers.Proofs

open Sidevers.Core
open Sidevers.Lib
open Sidevers.Net

-- ======================================================== the invariant

/-- The rows of a device in the store of a side. -/
def storeRevoked (s : Side) (d : Address) : Option Int64 :=
  s.store.tables.revokedDevices (s.address, d)

def storeHolder (s : Side) (d : Address) : Option CoHolderRow :=
  s.store.tables.coHolders (s.address, d)

def storeAddr (s : Side) (d : Address) : Option CoHolderAddrRow :=
  s.store.tables.coHolderAddrs (s.address, d)

/-- The device, if revoked, is no co-holder and has no address. -/
structure DeviceOut (s : Side) (d : Address) : Prop where
  memHolder : s.revokedDevices d ≠ none → s.coHolders d = none
  memAddr : s.revokedDevices d ≠ none → s.coHolderAddrs d = none
  storeHolder : storeRevoked s d ≠ none → storeHolder s d = none
  storeAddr : storeRevoked s d ≠ none → storeAddr s d = none

/-- Revoked devices are disjoint from the co-holders and from the keys of
the address map, in memory and in the store. -/
def RevokedOut (s : Side) : Prop := ∀ d, DeviceOut s d

/-- The memory knows of every revocation the store has. -/
def RevokedLoaded (s : Side) : Prop :=
  ∀ d, storeRevoked s d ≠ none → s.revokedDevices d ≠ none

/-- Nothing differs about the devices outside `D`. -/
structure SameOutside (D : Address → Prop) (s s' : Side) : Prop where
  address : s'.address = s.address
  revoked : ∀ k, ¬ D k → s'.revokedDevices k = s.revokedDevices k
  holder : ∀ k, ¬ D k → s'.coHolders k = s.coHolders k
  addr : ∀ k, ¬ D k → s'.coHolderAddrs k = s.coHolderAddrs k
  storeRevoked : ∀ k, ¬ D k → storeRevoked s' k = storeRevoked s k
  storeHolder : ∀ k, ¬ D k → storeHolder s' k = storeHolder s k
  storeAddr : ∀ k, ¬ D k → storeAddr s' k = storeAddr s k

theorem SameOutside.trans {D : Address → Prop} {s t u : Side}
    (h : SameOutside D s t) (h' : SameOutside D t u) :
    SameOutside D s u where
  address := h'.address.trans h.address
  revoked k hk := (h'.revoked k hk).trans (h.revoked k hk)
  holder k hk := (h'.holder k hk).trans (h.holder k hk)
  addr k hk := (h'.addr k hk).trans (h.addr k hk)
  storeRevoked k hk := (h'.storeRevoked k hk).trans (h.storeRevoked k hk)
  storeHolder k hk := (h'.storeHolder k hk).trans (h.storeHolder k hk)
  storeAddr k hk := (h'.storeAddr k hk).trans (h.storeAddr k hk)

/-- The invariant is kept by a step after which the devices it touched are
out. -/
theorem RevokedOut.of_sameOutside {D : Address → Prop} {s s' : Side}
    (h : RevokedOut s) (hsame : SameOutside D s s')
    (hin : ∀ d, D d → DeviceOut s' d) : RevokedOut s' := by
  intro d
  by_cases hd : D d
  · exact hin d hd
  · have hout := h d
    constructor
    · rw [hsame.revoked d hd, hsame.holder d hd]
      exact hout.memHolder
    · rw [hsame.revoked d hd, hsame.addr d hd]
      exact hout.memAddr
    · rw [hsame.storeRevoked d hd, hsame.storeHolder d hd]
      exact hout.storeHolder
    · rw [hsame.storeRevoked d hd, hsame.storeAddr d hd]
      exact hout.storeAddr

theorem RevokedLoaded.of_sameOutside {D : Address → Prop} {s s' : Side}
    (h : RevokedLoaded s) (hsame : SameOutside D s s')
    (hin : ∀ d, D d → storeRevoked s' d ≠ none →
      s'.revokedDevices d ≠ none) : RevokedLoaded s' := by
  intro d
  by_cases hd : D d
  · exact hin d hd
  · rw [hsame.storeRevoked d hd, hsame.revoked d hd]
    exact h d

/-- A device gone from all four places is out. -/
theorem DeviceOut.of_gone {s : Side} {d : Address}
    (hholder : s.coHolders d = none) (haddr : s.coHolderAddrs d = none)
    (hstoreHolder : Proofs.storeHolder s d = none)
    (hstoreAddr : Proofs.storeAddr s d = none) : DeviceOut s d :=
  ⟨fun _ => hholder, fun _ => haddr, fun _ => hstoreHolder,
    fun _ => hstoreAddr⟩

/-- So is one that is not revoked. -/
theorem DeviceOut.of_unrevoked {s : Side} {d : Address}
    (hmem : s.revokedDevices d = none)
    (hstore : Proofs.storeRevoked s d = none) : DeviceOut s d :=
  ⟨fun h => absurd hmem h, fun h => absurd hmem h,
    fun h => absurd hstore h, fun h => absurd hstore h⟩

-- =================================================== the write sets

/-- What an operation that writes one device's rows leaves alone. -/
theorem sameOutside_write {s s' : Side} {d : Address}
    {update : Tables → Tables}
    (hstore : s'.store = (s.persist (SideStore.execute update)).store)
    (haddress : s'.address = s.address)
    (hmem : ∀ k, k ≠ d → s'.revokedDevices k = s.revokedDevices k
      ∧ s'.coHolders k = s.coHolders k
      ∧ s'.coHolderAddrs k = s.coHolderAddrs k)
    (hrows : ∀ t k, k ≠ d →
      (update t).revokedDevices (s.address, k)
          = t.revokedDevices (s.address, k)
        ∧ (update t).coHolders (s.address, k) = t.coHolders (s.address, k)
        ∧ (update t).coHolderAddrs (s.address, k)
            = t.coHolderAddrs (s.address, k)) :
    SameOutside (· = d) s s' := by
  obtain ⟨t, ht, heq⟩ := s.persist_execute update
  rw [heq] at hstore
  have htables : ∀ k, k ≠ d →
      storeRevoked s' k = storeRevoked s k
        ∧ storeHolder s' k = storeHolder s k
        ∧ storeAddr s' k = storeAddr s k := by
    intro k hk
    unfold storeRevoked storeHolder storeAddr
    rw [hstore, haddress]
    rcases ht with rfl | rfl
    · exact ⟨rfl, rfl, rfl⟩
    · exact hrows s.store.tables k hk
  exact ⟨haddress, fun k hk => (hmem k hk).1, fun k hk => (hmem k hk).2.1,
    fun k hk => (hmem k hk).2.2, fun k hk => (htables k hk).1,
    fun k hk => (htables k hk).2.1, fun k hk => (htables k hk).2.2⟩

/-- What a write does not change in the tables, it does not change in the
store, whether the call succeeds or not. -/
theorem tables_write {α : Type} (view : Tables → α) {s s' : Side}
    {update : Tables → Tables}
    (hstore : s'.store = (s.persist (SideStore.execute update)).store)
    (hview : ∀ t, view (update t) = view t) :
    view s'.store.tables = view s.store.tables := by
  obtain ⟨t, ht, heq⟩ := s.persist_execute update
  rw [hstore, heq]
  rcases ht with rfl | rfl
  · rfl
  · exact hview s.store.tables

section writes

variable (s : Side) (d : Address) (now : UInt64)

theorem sameOutside_addCoHolder (addedBy : Option Address) :
    SameOutside (· = d) s (s.addCoHolder d addedBy now) :=
  sameOutside_write rfl rfl
    (fun k hk => ⟨rfl, Table.insert_of_ne _ _ hk, rfl⟩)
    (fun t k hk => ⟨rfl, Table.insert_of_ne _ _ (by simp [hk]), rfl⟩)

theorem sameOutside_removeCoHolder :
    SameOutside (· = d) s (s.removeCoHolder d) :=
  sameOutside_write rfl rfl
    (fun k hk => ⟨rfl, Table.erase_of_ne _ hk, rfl⟩)
    (fun t k hk => ⟨rfl, Table.erase_of_ne _ (by simp [hk]), rfl⟩)

theorem sameOutside_addRevokedDevice :
    SameOutside (· = d) s (s.addRevokedDevice d now) :=
  sameOutside_write rfl rfl
    (fun k hk => ⟨Table.insert_of_ne _ _ hk, rfl, rfl⟩)
    (fun t k hk =>
      ⟨Table.insertOrIgnore_of_ne _ _ (by simp [hk]), rfl, rfl⟩)

theorem sameOutside_recordCoHolderAddr (dial : String) :
    SameOutside (· = d) s (s.recordCoHolderAddr d dial now) :=
  sameOutside_write rfl rfl
    (fun k hk => ⟨rfl, rfl, Table.insert_of_ne _ _ hk⟩)
    (fun t k hk => ⟨rfl, rfl, Table.insert_of_ne _ _ (by simp [hk])⟩)

theorem sameOutside_dropCoHolderAddr :
    SameOutside (· = d) s (s.dropCoHolderAddr d) :=
  sameOutside_write rfl rfl
    (fun k hk => ⟨rfl, rfl, Table.erase_of_ne _ hk⟩)
    (fun t k hk => ⟨rfl, rfl, Table.erase_of_ne _ (by simp [hk])⟩)

theorem storeRevoked_addCoHolder (addedBy : Option Address) :
    storeRevoked (s.addCoHolder d addedBy now) d = storeRevoked s d :=
  tables_write (fun t => t.revokedDevices (s.address, d)) rfl fun _ => rfl

theorem storeRevoked_recordCoHolderAddr (dial : String) :
    storeRevoked (s.recordCoHolderAddr d dial now) d = storeRevoked s d :=
  tables_write (fun t => t.revokedDevices (s.address, d)) rfl fun _ => rfl

theorem storeHolder_addRevokedDevice :
    storeHolder (s.addRevokedDevice d now) d = storeHolder s d :=
  tables_write (fun t => t.coHolders (s.address, d)) rfl fun _ => rfl

theorem storeHolder_dropCoHolderAddr :
    storeHolder (s.dropCoHolderAddr d) d = storeHolder s d :=
  tables_write (fun t => t.coHolders (s.address, d)) rfl fun _ => rfl

theorem storeAddr_addRevokedDevice :
    storeAddr (s.addRevokedDevice d now) d = storeAddr s d :=
  tables_write (fun t => t.coHolderAddrs (s.address, d)) rfl fun _ => rfl

theorem storeAddr_removeCoHolder :
    storeAddr (s.removeCoHolder d) d = storeAddr s d :=
  tables_write (fun t => t.coHolderAddrs (s.address, d)) rfl fun _ => rfl

end writes

/-- Operations on other tables leave every device alone. -/
theorem sameOutside_none {s s' : Side} {update : Tables → Tables}
    (hstore : s'.store = (s.persist (SideStore.execute update)).store)
    (haddress : s'.address = s.address)
    (hrevoked : s'.revokedDevices = s.revokedDevices)
    (hholder : s'.coHolders = s.coHolders)
    (haddr : s'.coHolderAddrs = s.coHolderAddrs)
    (hrows : ∀ t, (update t).revokedDevices = t.revokedDevices
      ∧ (update t).coHolders = t.coHolders
      ∧ (update t).coHolderAddrs = t.coHolderAddrs) :
    SameOutside (fun _ => False) s s' := by
  obtain ⟨t, ht, heq⟩ := s.persist_execute update
  rw [heq] at hstore
  have htables : s'.store.tables.revokedDevices
        = s.store.tables.revokedDevices
      ∧ s'.store.tables.coHolders = s.store.tables.coHolders
      ∧ s'.store.tables.coHolderAddrs = s.store.tables.coHolderAddrs := by
    rw [hstore]
    rcases ht with rfl | rfl
    · exact ⟨rfl, rfl, rfl⟩
    · exact hrows s.store.tables
  obtain ⟨htr, hth, hta⟩ := htables
  constructor
  · exact haddress
  · exact fun k _ => congrFun hrevoked k
  · exact fun k _ => congrFun hholder k
  · exact fun k _ => congrFun haddr k
  · intro k _
    rw [storeRevoked, storeRevoked, htr, haddress]
  · intro k _
    rw [storeHolder, storeHolder, hth, haddress]
  · intro k _
    rw [storeAddr, storeAddr, hta, haddress]

/-- The ops about profile, relationships, retired sides and lifecycle. -/
theorem sameOutside_otherOps (crypto : Crypto) (s : Side) (op : DeltaOp)
    (appliedAt now : UInt64) (hadd : ∀ d a, op ≠ .coHolderAdded d a)
    (hremove : ∀ d, op ≠ .coHolderRemoved d) :
    SameOutside (fun _ => False) s (s.applyDelta crypto op appliedAt now) := by
  have hrefl : SameOutside (fun _ => False) s s :=
    ⟨rfl, fun _ _ => rfl, fun _ _ => rfl, fun _ _ => rfl, fun _ _ => rfl,
      fun _ _ => rfl, fun _ _ => rfl⟩
  have hset : ∀ p, SameOutside (fun _ => False) s (s.setProfile p) :=
    fun p => sameOutside_none rfl rfl rfl rfl rfl fun _ => ⟨rfl, rfl, rfl⟩
  have hrel : ∀ r, SameOutside (fun _ => False) s (s.addRelationship r) :=
    fun r => sameOutside_none rfl rfl rfl rfl rfl fun _ => ⟨rfl, rfl, rfl⟩
  cases op with
  | profileUpdated wire =>
      simp only [Side.applyDelta]
      cases ProfilePayload.fromWireBytes crypto wire with
      | error e => exact hrefl
      | ok p =>
          show SameOutside _ s (s.applyProfile p)
          unfold Side.applyProfile
          split
          · split
            · exact hset p
            · exact hrefl
          · exact hset p
  | profileCleared =>
      exact sameOutside_none rfl rfl rfl rfl rfl fun _ => ⟨rfl, rfl, rfl⟩
  | relationshipUpserted rec =>
      show SameOutside _ s (s.applyUpsert (relationshipFromRecord rec))
      unfold Side.applyUpsert
      split
      · split
        · exact hrel _
        · exact hrefl
      · exact hrel _
  | relationshipRemoved addr =>
      exact sameOutside_none rfl rfl rfl rfl rfl fun _ => ⟨rfl, rfl, rfl⟩
  | retiredObserved addr =>
      exact sameOutside_none rfl rfl rfl rfl rfl fun _ => ⟨rfl, rfl, rfl⟩
  | lifecycleChanged state =>
      simp only [Side.applyDelta]
      split
      · exact hrefl
      · exact sameOutside_none rfl rfl rfl rfl rfl fun _ => ⟨rfl, rfl, rfl⟩
  | coHolderAdded d a => exact absurd rfl (hadd d a)
  | coHolderRemoved d => exact absurd rfl (hremove d)

-- ============================================ adding and removing

/-- The next `n` store calls succeed. -/
def CallsOk (n : Nat) (s : Side) : Prop := true ∉ s.store.faults.take n

instance (n : Nat) (s : Side) : Decidable (CallsOk n s) :=
  inferInstanceAs (Decidable (true ∉ s.store.faults.take n))

theorem CallsOk.head {n : Nat} {s : Side} (h : CallsOk (n + 1) s) :
    s.store.faults.head? ≠ some true := by
  intro hhead
  unfold CallsOk at h
  cases hf : s.store.faults with
  | nil =>
      rw [hf] at hhead
      cases hhead
  | cons b rest =>
      rw [hf] at h hhead
      injection hhead with hb
      subst hb
      exact h List.mem_cons_self

theorem CallsOk.next {n : Nat} {s s' : Side} (h : CallsOk (n + 1) s)
    (hs : s'.store.faults = s.store.faults.tail) : CallsOk n s' := by
  unfold CallsOk at h ⊢
  rw [hs]
  intro hmem
  cases hf : s.store.faults with
  | nil =>
      rw [hf] at hmem
      simp at hmem
  | cons b rest =>
      rw [hf] at h hmem
      exact h (List.mem_cons_of_mem _ hmem)

/-- `CoHolderAdded` past its guards. -/
theorem deviceOut_coHolderAdded {s : Side} {d : Address} {dial : String}
    {now : UInt64} (hload : RevokedLoaded s)
    (hun : s.revokedDevices d = none) :
    DeviceOut ((s.addCoHolder d none now).recordCoHolderAddr d dial now)
      d := by
  apply DeviceOut.of_unrevoked
  · exact hun
  · rw [storeRevoked_recordCoHolderAddr, storeRevoked_addCoHolder]
    by_contra hstore
    exact hload d hstore hun

/-- A pairing of a device that is not revoked. -/
theorem deviceOut_addCoHolder {s : Side} {d : Address} {now : UInt64}
    (addedBy : Option Address) (hload : RevokedLoaded s)
    (hun : s.revokedDevices d = none) :
    DeviceOut (s.addCoHolder d addedBy now) d := by
  apply DeviceOut.of_unrevoked
  · exact hun
  · rw [storeRevoked_addCoHolder]
    by_contra hstore
    exact hload d hstore hun

/-- A removal that succeeds. -/
theorem storeHolder_removeCoHolder {s : Side} {d : Address}
    (hok : s.store.faults.head? ≠ some true) :
    storeHolder (s.removeCoHolder d) d = none := by
  unfold storeHolder Side.removeCoHolder SideStore.removeCoHolder
  rw [Side.persist_execute_of_ok _ hok]
  exact Table.erase_self ..

theorem storeAddr_dropCoHolderAddr {s : Side} {d : Address}
    (hok : s.store.faults.head? ≠ some true) :
    storeAddr (s.dropCoHolderAddr d) d = none := by
  unfold storeAddr Side.dropCoHolderAddr SideStore.removeCoHolderAddr
  rw [Side.persist_execute_of_ok _ hok]
  exact Table.erase_self ..

/-- One call is one entry of the schedule. -/
theorem faults_persist (s : Side) (update : Tables → Tables) :
    (s.persist (SideStore.execute update)).store.faults
      = s.store.faults.tail := by
  obtain ⟨t, -, heq⟩ := s.persist_execute update
  rw [heq]

/-- `CoHolderRemoved`: the device is gone from all four places. -/
theorem deviceOut_coHolderRemoved {s : Side} {d : Address} {now : UInt64}
    (hok : CallsOk 3 s) :
    DeviceOut (((s.removeCoHolder d).addRevokedDevice d now).dropCoHolderAddr
      d) d := by
  have hok2 : CallsOk 2 (s.removeCoHolder d) :=
    hok.next (faults_persist s _)
  have hok1 : CallsOk 1 ((s.removeCoHolder d).addRevokedDevice d now) :=
    hok2.next (faults_persist (s.removeCoHolder d) _)
  apply DeviceOut.of_gone
  · exact Table.erase_self ..
  · exact Table.erase_self ..
  · rw [storeHolder_dropCoHolderAddr, storeHolder_addRevokedDevice]
    exact storeHolder_removeCoHolder hok.head
  · exact storeAddr_dropCoHolderAddr hok1.head

/-- The revocation handlers: gone from the co-holders; from the addresses
only where there was none. -/
theorem deviceOut_revoke {s : Side} {d : Address} {now : UInt64}
    (hok : CallsOk 2 s) (hmem : s.coHolderAddrs d = none)
    (hstore : storeAddr s d = none) :
    DeviceOut ((s.addRevokedDevice d now).removeCoHolder d) d := by
  have hok1 : CallsOk 1 (s.addRevokedDevice d now) :=
    hok.next (faults_persist s _)
  apply DeviceOut.of_gone
  · exact Table.erase_self ..
  · exact hmem
  · exact storeHolder_removeCoHolder hok1.head
  · rw [storeAddr_removeCoHolder, storeAddr_addRevokedDevice]
    exact hstore

-- ============================================================ the runs

/-- What can happen to the co-holders of a side: every op of a delta, the
handlers of `DEVICE_REVOKE` and `DEVICE_PAIRING_REQUEST`, the local
revocation, and the minting of a pairing nonce. -/
inductive CoHolderAction where
  | applyDelta (op : DeltaOp) (appliedAt now : UInt64)
  | deviceRevoke (record : DeviceRevokePayload) (now : UInt64)
  | revokeCoHolder (d : Address) (reason : Option String)
      (clock : Option UInt64)
  | pairingRequest (req : PairingRequestPayload) (bundleSent : Bool)
      (now : UInt64)
  | addPendingPairing (nonce : Bytes 16) (now : UInt64)

/-- One step; every action is possible in every state. -/
def coHolderStep (crypto : Crypto) (s : Side) :
    CoHolderAction → Option Side
  | .applyDelta op appliedAt now =>
      some (s.applyDelta crypto op appliedAt now)
  | .deviceRevoke record now => some (s.handleDeviceRevoke record now)
  | .revokeCoHolder d reason clock =>
      some (s.revokeCoHolder d reason clock).2
  | .pairingRequest req bundleSent now =>
      some (s.handlePairingRequest req bundleSent now)
  | .addPendingPairing nonce now => some (s.addPendingPairing nonce now)

/-- No address is recorded for the device. -/
def NoAddr (s : Side) (d : Address) : Prop :=
  s.coHolderAddrs d = none ∧ storeAddr s d = none

/-- The request reaches the point where the device is recorded. -/
def PairingCompletes (s : Side) (req : PairingRequestPayload)
    (bundleSent : Bool) (now : UInt64) : Prop :=
  req.side = s.address ∧ bundleSent = true
    ∧ (s.takePendingPairing req.nonce now).1 ≠ none

/-- The steps that keep revoked devices out: a revocation whose store calls
succeed, of a device without a recorded address unless it comes as
`CoHolderRemoved`; a completed pairing of a device that is not revoked;
anything else. -/
def StepOk (s : Side) : CoHolderAction → Prop
  | .applyDelta (.coHolderRemoved _) _ _ => CallsOk 3 s
  | .applyDelta _ _ _ => True
  | .deviceRevoke record _ =>
      record.side = s.address → CallsOk 2 s ∧ NoAddr s record.devicePubkey
  | .revokeCoHolder d _ clock =>
      clock ≠ none → CallsOk 2 s ∧ NoAddr s d
  | .pairingRequest req bundleSent now =>
      PairingCompletes s req bundleSent now →
        s.revokedDevices req.devicePubkey = none
  | .addPendingPairing _ _ => True

/-- The two invariants together. -/
structure DevicesInv (s : Side) : Prop where
  out : RevokedOut s
  loaded : RevokedLoaded s

theorem DevicesInv.of_same {s s' : Side} (h : DevicesInv s)
    (hsame : SameOutside (fun _ => False) s s') : DevicesInv s' :=
  ⟨h.out.of_sameOutside hsame fun _ hd => hd.elim,
    h.loaded.of_sameOutside hsame fun _ hd => hd.elim⟩

/-- A step about device `d`. -/
theorem DevicesInv.of_device {s s' : Side} {d : Address} (h : DevicesInv s)
    (hsame : SameOutside (· = d) s s') (hout : DeviceOut s' d)
    (hload : storeRevoked s' d ≠ none → s'.revokedDevices d ≠ none) :
    DevicesInv s' :=
  ⟨h.out.of_sameOutside hsame fun _ hd => hd ▸ hout,
    h.loaded.of_sameOutside hsame fun _ hd => hd ▸ hload⟩

/-- The revocation handlers. -/
theorem devicesInv_revoke {s : Side} {d : Address} {now : UInt64}
    (h : DevicesInv s) (hok : CallsOk 2 s) (hno : NoAddr s d) :
    DevicesInv ((s.addRevokedDevice d now).removeCoHolder d) := by
  apply h.of_device
  · exact (sameOutside_addRevokedDevice s d now).trans
      (sameOutside_removeCoHolder _ d)
  · exact deviceOut_revoke hok hno.1 hno.2
  · intro _
    show s.revokedDevices.insert d () d ≠ none
    simp

theorem devicesInv_applyDelta {crypto : Crypto} {s : Side} {op : DeltaOp}
    {appliedAt now : UInt64} (h : DevicesInv s)
    (hok : StepOk s (.applyDelta op appliedAt now)) :
    DevicesInv (s.applyDelta crypto op appliedAt now) := by
  by_cases hother : (∀ d a, op ≠ .coHolderAdded d a)
      ∧ ∀ d, op ≠ .coHolderRemoved d
  · exact h.of_same
      (sameOutside_otherOps crypto s op appliedAt now hother.1 hother.2)
  cases op with
  | coHolderAdded d dial =>
      simp only [Side.applyDelta]
      split
      · exact h
      · split
        case isTrue => exact h
        case isFalse hun =>
          have hun' : s.revokedDevices d = none := by simpa using hun
          apply h.of_device
          · exact (sameOutside_addCoHolder s d now none).trans
              (sameOutside_recordCoHolderAddr _ d now dial)
          · exact deviceOut_coHolderAdded h.loaded hun'
          · intro hstore
            rw [storeRevoked_recordCoHolderAddr,
              storeRevoked_addCoHolder] at hstore
            exact h.loaded d hstore
  | coHolderRemoved d =>
      simp only [Side.applyDelta]
      apply h.of_device
      · exact ((sameOutside_removeCoHolder s d).trans
          (sameOutside_addRevokedDevice _ d now)).trans
            (sameOutside_dropCoHolderAddr _ d)
      · exact deviceOut_coHolderRemoved hok
      · intro _
        show s.revokedDevices.insert d () d ≠ none
        simp
  | _ => exact absurd (by simp) hother

theorem sameOutside_takePendingPairing (s : Side) (nonce : Bytes 16)
    (now : UInt64) :
    SameOutside (fun _ => False) s (s.takePendingPairing nonce now).2 :=
  ⟨rfl, fun _ _ => rfl, fun _ _ => rfl, fun _ _ => rfl, fun _ _ => rfl,
    fun _ _ => rfl, fun _ _ => rfl⟩

/-- Step lemma. -/
theorem devicesInv_step {crypto : Crypto} {s s' : Side}
    {a : CoHolderAction} (hok : StepOk s a) (h : DevicesInv s)
    (hstep : coHolderStep crypto s a = some s') : DevicesInv s' := by
  cases a with
  | applyDelta op appliedAt now =>
      injection hstep with hs'
      subst hs'
      exact devicesInv_applyDelta h hok
  | deviceRevoke record now =>
      injection hstep with hs'
      subst hs'
      unfold Side.handleDeviceRevoke
      split
      case isTrue => exact h
      case isFalse hside =>
        obtain ⟨hcalls, hno⟩ := hok (not_not.mp hside)
        exact devicesInv_revoke h hcalls hno
  | revokeCoHolder d reason clock =>
      injection hstep with hs'
      subst hs'
      cases clock with
      | none => exact h
      | some now =>
          obtain ⟨hcalls, hno⟩ := hok (Option.some_ne_none now)
          exact devicesInv_revoke h hcalls hno
  | pairingRequest req bundleSent now =>
      injection hstep with hs'
      subst hs'
      have htake : DevicesInv (s.takePendingPairing req.nonce now).2 :=
        h.of_same (sameOutside_takePendingPairing s req.nonce now)
      unfold Side.handlePairingRequest
      split
      case isTrue => exact h
      case isFalse hside =>
        dsimp only
        split
        case h_1 => exact htake
        case h_2 p hp =>
          split
          case isFalse => exact htake
          case isTrue hsent =>
            have hun := hok ⟨not_not.mp hside, hsent, by rw [hp]; nofun⟩
            apply htake.of_device
            · exact sameOutside_addCoHolder _ req.devicePubkey now _
            · exact deviceOut_addCoHolder _ htake.loaded hun
            · intro hstore
              rw [storeRevoked_addCoHolder] at hstore
              exact htake.loaded _ hstore
  | addPendingPairing nonce now =>
      injection hstep with hs'
      subst hs'
      exact h.of_same
        ⟨rfl, fun _ _ => rfl, fun _ _ => rfl, fun _ _ => rfl, fun _ _ => rfl,
          fun _ _ => rfl, fun _ _ => rfl⟩

/-- In every run whose steps all meet the condition, revoked devices stay
out of the co-holders and of the addresses, and no push dials one. -/
theorem revoked_stay_out (crypto : Crypto) (s s' : Side)
    (acts : List CoHolderAction) (hout : RevokedOut s)
    (hload : RevokedLoaded s)
    (hok : Along (coHolderStep crypto) StepOk s acts)
    (hrun : run (coHolderStep crypto) s acts = some s') :
    RevokedOut s'
      ∧ ∀ d, s'.revokedDevices d ≠ none → s'.pushTarget d = none := by
  have hinv : DevicesInv s' :=
    run_induct (fun _ _ _ hok h hstep => devicesInv_step hok h hstep) hok
      ⟨hout, hload⟩ hrun
  exact ⟨hinv.out, fun d hd => (hinv.out d).memAddr hd⟩

/-- A side without any device, over an empty store. -/
def bareSide : Side :=
  Side.fresh ⟨Bytes.fill _ 1, Bytes.fill _ 2⟩ none 0 ⟨Tables.empty, []⟩

theorem revokedOut_bareSide : RevokedOut bareSide := fun _ =>
  ⟨fun h => absurd rfl h, fun h => absurd rfl h, fun h => absurd rfl h,
    fun h => absurd rfl h⟩

/-- A co-holder is added and removed by deltas. -/
theorem revoked_stay_out_add_remove :
    ∃ s', run (coHolderStep Crypto.refusing) bareSide
        [.applyDelta (.coHolderAdded (Bytes.fill _ 9) "a:1") 1 1,
          .applyDelta (.coHolderRemoved (Bytes.fill _ 9)) 2 2] = some s'
      ∧ RevokedOut s'
      ∧ ∀ d, s'.revokedDevices d ≠ none → s'.pushTarget d = none := by
  refine ⟨_, rfl, revoked_stay_out Crypto.refusing bareSide _
    [.applyDelta (.coHolderAdded (Bytes.fill _ 9) "a:1") 1 1,
      .applyDelta (.coHolderRemoved (Bytes.fill _ 9)) 2 2]
    revokedOut_bareSide (fun _ h => absurd rfl h)
    ⟨trivial, fun s' hs => ?_⟩ rfl⟩
  injection hs with hs
  subst hs
  exact ⟨show CallsOk 3 _ by decide, fun _ _ => trivial⟩

/-- A revoked device keeps its address, and a revoked device pairs again. -/
theorem revoked_device_returns :
    RevokedOut bareSide
      ∧ (run (coHolderStep Crypto.refusing) bareSide
          [.applyDelta (.coHolderAdded (Bytes.fill _ 9) "a:1") 1 1,
            .revokeCoHolder (Bytes.fill _ 9) none (some 2)]).map
            (fun s => (s.revokedDevices (Bytes.fill _ 9),
              s.pushTarget (Bytes.fill _ 9)))
          = some (some (), some "a:1")
      ∧ (run (coHolderStep Crypto.refusing) bareSide
          [.applyDelta (.coHolderRemoved (Bytes.fill _ 9)) 1 1,
            .addPendingPairing (Bytes.fill _ 5) 2,
            .pairingRequest ⟨Bytes.fill _ 2, Bytes.fill _ 9, Bytes.fill _ 5⟩
              true 3]).map
            (fun s => (s.revokedDevices (Bytes.fill _ 9),
              (s.coHolders (Bytes.fill _ 9)).isSome))
          = some (some (), true) :=
  ⟨revokedOut_bareSide, by decide, by decide⟩

end Sidevers.Proofs
