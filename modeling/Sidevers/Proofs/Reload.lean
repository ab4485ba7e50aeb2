/-
Write-through and reload: the memory of a side and what `load_or_create`
reads back from its store.

# The invariant

`Mirrored`: table by table, the rows of the side decode to the memory. It
holds after a load (`mirrored_of_load`), it is what makes a reload agree
(`reload_of_mirrored`), and each mutator keeps it by the one table it
writes.

# Where a mutator's columns fall short

The upsert of a relationship leaves `added_at` to the row that is there,
where the memory takes the new one; and the capability column separates
tokens by newlines, so a token with a newline in it, or the set of the empty
token alone, does not come back (`decode_encode_iff`). `WriteOk` is the
condition under which neither shows.
-/
import Sidevers.Lib.Run
import Sidevers.Net.Side

namespace Sidevers.Proofs

open Sidevers.Core
open Sidevers.Lib
open Sidevers.Net

-- ================================================ the capability column

/-- The capability sets the column gives back. -/
def Encodable (caps : BTreeSet String) : Prop :=
  (∀ t ∈ caps, '\n' ∉ t.toList) ∧ caps.keys ≠ [""]

private theorem map_ofList_toList (ts : List String) :
    (ts.map String.toList).map String.ofList = ts := by
  rw [List.map_map]
  exact (List.map_congr_left fun t _ => String.ofList_toList).trans
    (List.map_id ts)

/-- The column is empty for the empty set and for the empty token alone. -/
private theorem encode_eq_empty_iff (caps : BTreeSet String) :
    SideStore.encodeCapabilities caps = ""
      ↔ caps.keys = [] ∨ caps.keys = [""] := by
  unfold SideStore.encodeCapabilities
  rw [show ("" : String) = String.ofList [] from rfl, String.ofList_inj]
  rcases hk : caps.keys with _ | ⟨t, _ | ⟨u, rest⟩⟩
  · simp
  · simp [List.intercalate]
  · simp [List.intercalate]

/-- Encodable sets round-trip through the column. -/
theorem decode_encode {caps : BTreeSet String} (h : Encodable caps) :
    SideStore.decodeCapabilities (SideStore.encodeCapabilities caps)
      = caps := by
  unfold SideStore.decodeCapabilities
  split
  case isTrue hempty =>
    rcases (encode_eq_empty_iff caps).mp hempty with hnil | hone
    · refine BTreeSet.ext_mem fun x => ?_
      rw [BTreeSet.mem_def, BTreeSet.mem_def, hnil]
      exact Iff.rfl
    · exact absurd hone h.2
  case isFalse hne =>
    have hkeys : caps.keys.map String.toList ≠ [] := by
      intro hnil
      exact hne ((encode_eq_empty_iff caps).mpr
        (Or.inl (List.map_eq_nil_iff.mp hnil)))
    unfold SideStore.encodeCapabilities
    rw [String.toList_ofList, List.splitOn_intercalate '\n' _ hkeys,
      map_ofList_toList, BTreeSet.ofList_keys]
    intro l hl
    obtain ⟨t, ht, heq⟩ := List.mem_map.mp hl
    rw [← heq]
    exact h.1 t ht

private theorem not_mem_of_mem_splitOn {a : Char} {xs l : List Char}
    (h : l ∈ xs.splitOn a) : a ∉ l := by
  induction xs generalizing l with
  | nil =>
      rw [List.splitOn_nil, List.mem_singleton] at h
      rw [h]
      exact List.not_mem_nil
  | cons x xs ih =>
      rw [List.splitOn_cons_eq_if_modifyHead] at h
      split at h
      · rcases List.mem_cons.mp h with heq | h
        · rw [heq]
          exact List.not_mem_nil
        · exact ih h
      · next hx =>
        rcases hsplit : xs.splitOn a with _ | ⟨head, tail⟩
        · exact absurd hsplit (List.splitOn_ne_nil a xs)
        · rw [hsplit, List.modifyHead_cons, List.mem_cons] at h
          rcases h with heq | h
          · rw [heq, List.mem_cons]
            have hhead : a ∉ head := ih (hsplit ▸ List.mem_cons_self)
            intro hmem
            rcases hmem with hax | hmem
            · exact hx (by simp [hax])
            · exact hhead hmem
          · exact ih (hsplit ▸ List.mem_cons_of_mem _ h)

/-- And no other set does. -/
theorem decode_encode_iff (caps : BTreeSet String) :
    SideStore.decodeCapabilities (SideStore.encodeCapabilities caps) = caps
      ↔ Encodable caps := by
  refine ⟨fun h => ?_, decode_encode⟩
  unfold SideStore.decodeCapabilities at h
  split at h
  · have hkeys : caps.keys = [] := by
      rw [← h]
      rfl
    constructor
    · intro t ht
      rw [BTreeSet.mem_def, hkeys] at ht
      cases ht
    · rw [hkeys]
      exact nofun
  · next hne =>
    constructor
    · intro t ht
      rw [← h, BTreeSet.mem_ofList, List.mem_map] at ht
      obtain ⟨l, hl, heq⟩ := ht
      rw [← heq, String.toList_ofList]
      exact not_mem_of_mem_splitOn hl
    · intro hone
      exact hne ((encode_eq_empty_iff caps).mpr (Or.inr hone))

-- ============================================================== loading

section loading

variable {crypto : Crypto} {store : SideStore}

theorem healthy_tail (tables : Tables) (h : store.Healthy) :
    SideStore.Healthy ⟨tables, store.faults.tail⟩ := by
  intro hmem
  exact h (List.mem_of_mem_tail hmem)

theorem healthy_head (h : store.Healthy) :
    store.faults.head? ≠ some true := by
  intro hhead
  exact h (List.mem_of_mem_head? hhead)

theorem query_of_healthy {α : Type} (read : Tables → Except Net.Error α)
    (h : store.Healthy) : SideStore.query read store
      = (read store.tables, ⟨store.tables, store.faults.tail⟩) := by
  obtain ⟨tables, faults⟩ := store
  unfold SideStore.query
  split
  next rest heq =>
    exact absurd (by rw [heq]; exact List.mem_cons_self) h
  next => rfl

/-- A read of a healthy store, and what comes after it. -/
theorem query_bind {α β : Type} {read : Tables → Except Net.Error α} {a : α}
    (rest : α → StoreM β) (h : store.Healthy)
    (hread : read store.tables = .ok a) :
    (SideStore.query read >>= rest) store
      = rest a ⟨store.tables, store.faults.tail⟩ := by
  have hquery := query_of_healthy read h
  rw [hread] at hquery
  show (ExceptT.bindCont rest (SideStore.query read store).1)
    (SideStore.query read store).2 = _
  rw [hquery]
  rfl

/-- A read whose rows do not decode ends the sequence. -/
theorem query_bind_error {α β : Type}
    {read : Tables → Except Net.Error α} {e : Net.Error}
    (rest : α → StoreM β) (h : store.Healthy)
    (hread : read store.tables = .error e) :
    ((SideStore.query read >>= rest) store).1 = .error e := by
  have hquery := query_of_healthy read h
  rw [hread] at hquery
  show ((ExceptT.bindCont rest (SideStore.query read store).1)
    (SideStore.query read store).2).1 = _
  rw [hquery]
  rfl

/-- A read that cannot fail to decode. -/
theorem query_ok_bind {α β : Type} {read : Tables → α}
    (rest : α → StoreM β) (h : store.Healthy) :
    (SideStore.query (fun t => .ok (read t)) >>= rest) store
      = rest (read store.tables) ⟨store.tables, store.faults.tail⟩ :=
  query_bind rest h rfl

/-- A write to a healthy store, and what comes after it. -/
theorem execute_bind {β : Type} {update : Tables → Tables}
    (rest : Unit → StoreM β) (h : store.Healthy) :
    (SideStore.execute update >>= rest) store
      = rest () ⟨update store.tables, store.faults.tail⟩ := by
  have hexec : SideStore.execute update store
      = (.ok (), ⟨update store.tables, store.faults.tail⟩) := by
    obtain ⟨tables, faults⟩ := store
    unfold SideStore.execute
    split
    next rest' heq =>
      exact absurd (by rw [heq]; exact List.mem_cons_self) h
    next => rfl
  show (ExceptT.bindCont rest (SideStore.execute update store).1)
    (SideStore.execute update store).2 = _
  rw [hexec]
  rfl

end loading

-- ======================================================== the invariant

/-- The rows of the side decode to its memory. -/
structure Mirrored (crypto : Crypto) (s : Side) : Prop where
  healthy : s.store.Healthy
  key : s.keypair.publicBytes = s.address
  row : ∃ row, s.store.tables.sides s.address = some row
    ∧ parseLifecycle row.lifecycle = s.lifecycle
    ∧ row.lastSendAt.map Int64.toUInt64 = s.lastSendAt
    ∧ SideStore.i64ToBool row.isSelfRetired = s.isSelfRetired
  profile : SideStore.profileOf crypto s.address s.store.tables
    = .ok s.profile
  retired : SideStore.keysOf s.store.tables.retiredSidesSeen s.address
    = s.retiredSidesSeen
  relationships : SideStore.relationshipsOf s.address s.store.tables
    = s.relationships
  coHolders : Side.coHolderRecords
    (SideStore.coHoldersOf s.address s.store.tables) = s.coHolders
  revoked : SideStore.keysOf s.store.tables.revokedDevices s.address
    = s.revokedDevices
  coHolderAddrs : SideStore.coHolderAddrsOf s.address s.store.tables
    = s.coHolderAddrs

/-- Everything a reload is to give back. -/
structure SameState (s s' : Side) : Prop where
  profile : s'.profile = s.profile
  retired : s'.retiredSidesSeen = s.retiredSidesSeen
  relationships : s'.relationships = s.relationships
  lifecycle : s'.lifecycle = s.lifecycle
  lastSendAt : s'.lastSendAt = s.lastSendAt
  isSelfRetired : s'.isSelfRetired = s.isSelfRetired
  coHolders : s'.coHolders = s.coHolders
  revoked : s'.revokedDevices = s.revokedDevices
  coHolderAddrs : s'.coHolderAddrs = s.coHolderAddrs

theorem profileOf_of_none {crypto : Crypto} {side : Address} {t : Tables}
    (h : t.profiles side = none) :
    SideStore.profileOf crypto side t = .ok none := by
  unfold SideStore.profileOf
  rw [h]

theorem profileOf_of_wire {crypto : Crypto} {side : Address} {t : Tables}
    {row : ProfileRow} {p : ProfilePayload} (h : t.profiles side = some row)
    (hwire : ProfilePayload.fromWireBytes crypto row.wireBytes = .ok p) :
    SideStore.profileOf crypto side t = .ok (some p) := by
  unfold SideStore.profileOf
  rw [h]
  simp only [hwire]

theorem sides_ok {side : Address} {t : Tables} {found : Option SideRow}
    (h : t.sides side = found) :
    (Except.ok ((t.sides side).map (SideStore.decodeSide side))
        : Except Net.Error _)
      = .ok (found.map (SideStore.decodeSide side)) := by
  rw [h]

/-- What a load of an existing row computes on a healthy store. -/
theorem loadOrCreate_existing {crypto : Crypto} {key : SideKey}
    (label : Option String) (now : UInt64) {store : SideStore}
    {row : SideRow} {profile : Option ProfilePayload}
    (h : store.Healthy)
    (hrow : store.tables.sides key.publicBytes = some row)
    (hprofile : SideStore.profileOf crypto key.publicBytes store.tables
      = .ok profile) :
    ∃ faults, SideStore.Healthy ⟨store.tables, faults⟩
      ∧ Side.loadOrCreate crypto key label now store = .ok
        { address := key.publicBytes, label := row.label
          createdAt := row.createdAt.toUInt64, keypair := key
          profile := profile
          retiredSidesSeen := SideStore.keysOf
            store.tables.retiredSidesSeen key.publicBytes
          relationships :=
            SideStore.relationshipsOf key.publicBytes store.tables
          lifecycle := parseLifecycle row.lifecycle
          lastSendAt := row.lastSendAt.map Int64.toUInt64
          isSelfRetired := SideStore.i64ToBool row.isSelfRetired
          coHolders := Side.coHolderRecords
            (SideStore.coHoldersOf key.publicBytes store.tables)
          revokedDevices := SideStore.keysOf store.tables.revokedDevices
            key.publicBytes
          pendingPairings := .empty
          coHolderAddrs :=
            SideStore.coHolderAddrsOf key.publicBytes store.tables
          store := ⟨store.tables, faults⟩ } := by
  have h1 := healthy_tail store.tables h
  have h2 := healthy_tail store.tables h1
  have h3 := healthy_tail store.tables h2
  have h4 := healthy_tail store.tables h3
  have h5 := healthy_tail store.tables h4
  have h6 := healthy_tail store.tables h5
  refine ⟨_, healthy_tail store.tables h6, ?_⟩
  unfold Side.loadOrCreate Side.loadOrCreateM SideStore.loadSide
  rw [query_bind _ h (sides_ok hrow)]
  dsimp only [Option.map_some]
  unfold SideStore.loadProfile SideStore.listRetiredSeen
    SideStore.listRelationships SideStore.listCoHolders
    SideStore.listRevokedDevices SideStore.listCoHolderAddrs
  rw [query_bind _ h1 hprofile, query_ok_bind _ h2, query_ok_bind _ h3,
    query_ok_bind _ h4, query_ok_bind _ h5, query_ok_bind _ h6]
  rfl

/-- A profile row that does not parse fails the load. -/
theorem loadOrCreate_bad_profile {crypto : Crypto} {key : SideKey}
    (label : Option String) (now : UInt64) {store : SideStore}
    {row : SideRow} {e : Net.Error} (h : store.Healthy)
    (hrow : store.tables.sides key.publicBytes = some row)
    (hprofile : SideStore.profileOf crypto key.publicBytes store.tables
      = .error e) :
    Side.loadOrCreate crypto key label now store = .error e := by
  unfold Side.loadOrCreate Side.loadOrCreateM SideStore.loadSide
  rw [query_bind _ h (sides_ok hrow)]
  exact query_bind_error _ (healthy_tail store.tables h) hprofile

/-- The row a created side starts with. -/
def createdRow (key : SideKey) (label : Option String) (now : UInt64) :
    SideRow where
  seed := key.seed
  label := label
  createdAt := now.toInt64
  lifecycle := "Created"
  lastSendAt := none
  isSelfRetired := SideStore.boolToI64 false

/-- A load without a row writes one and returns the defaults. -/
theorem loadOrCreate_fresh {crypto : Crypto} {key : SideKey}
    (label : Option String) (now : UInt64) {store : SideStore}
    (h : store.Healthy) (hrow : store.tables.sides key.publicBytes = none) :
    ∃ faults, SideStore.Healthy ⟨store.tables, faults⟩
      ∧ Side.loadOrCreate crypto key label now store
          = .ok (Side.fresh key label now
            ⟨{ store.tables with
                sides := store.tables.sides.insert key.publicBytes
                  (createdRow key label now) }, faults⟩) := by
  have h1 := healthy_tail store.tables h
  refine ⟨_, healthy_tail store.tables h1, ?_⟩
  unfold Side.loadOrCreate Side.loadOrCreateM SideStore.loadSide
  rw [query_bind _ h (sides_ok hrow)]
  dsimp only [Option.map_none]
  unfold SideStore.upsertSide
  rw [execute_bind _ h1]
  simp only [Side.freshRow, hrow]
  rfl

/-- The foreign keys of the schema: every row of a side references its row
in `sides`. -/
structure Referenced (side : Address) (t : Tables) : Prop where
  profile : t.sides side = none → t.profiles side = none
  retired : t.sides side = none →
    ∀ k, t.retiredSidesSeen (side, k) = none
  relationships : t.sides side = none → ∀ k, t.relationships (side, k) = none
  coHolders : t.sides side = none → ∀ k, t.coHolders (side, k) = none
  revoked : t.sides side = none → ∀ k, t.revokedDevices (side, k) = none
  coHolderAddrs : t.sides side = none →
    ∀ k, t.coHolderAddrs (side, k) = none

/-- A loaded or created side mirrors its store. -/
theorem mirrored_of_load {crypto : Crypto} {key : SideKey}
    {label : Option String} {now : UInt64} {store : SideStore} {s : Side}
    (h : store.Healthy) (href : Referenced key.publicBytes store.tables)
    (hload : Side.loadOrCreate crypto key label now store = .ok s) :
    Mirrored crypto s := by
  cases hrow : store.tables.sides key.publicBytes with
  | some row =>
      cases hprofile : SideStore.profileOf crypto key.publicBytes
          store.tables with
      | ok profile =>
          obtain ⟨faults, hfaults, heq⟩ :=
            loadOrCreate_existing label now h hrow hprofile
          rw [heq] at hload
          injection hload with hs
          subst hs
          exact ⟨hfaults, rfl, ⟨row, hrow, rfl, rfl, rfl⟩, hprofile, rfl, rfl,
            rfl, rfl, rfl⟩
      | error e =>
          rw [loadOrCreate_bad_profile label now h hrow hprofile] at hload
          cases hload
  | none =>
      obtain ⟨faults, hfaults, heq⟩ := loadOrCreate_fresh label now h hrow
      rw [heq] at hload
      injection hload with hs
      subst hs
      constructor
      · exact hfaults
      · rfl
      · exact ⟨createdRow key label now, Table.insert_self .., rfl, rfl, rfl⟩
      · exact profileOf_of_none (href.profile hrow)
      · funext k
        show (store.tables.retiredSidesSeen (key.publicBytes, k)).map _ = none
        rw [href.retired hrow]
        rfl
      · funext k
        show (store.tables.relationships (key.publicBytes, k)).map _ = none
        rw [href.relationships hrow]
        rfl
      · funext k
        show ((store.tables.coHolders (key.publicBytes, k)).map _).map _
          = none
        rw [href.coHolders hrow]
        rfl
      · funext k
        show (store.tables.revokedDevices (key.publicBytes, k)).map _ = none
        rw [href.revoked hrow]
        rfl
      · funext k
        show (store.tables.coHolderAddrs (key.publicBytes, k)).map _ = none
        rw [href.coHolderAddrs hrow]
        rfl

/-- A mirrored side reloads to the state it has, whatever label and clock
reading the reload is called with. -/
theorem reload_of_mirrored {crypto : Crypto} {s : Side}
    (h : Mirrored crypto s) (label : Option String) (now : UInt64) :
    ∃ s', Side.loadOrCreate crypto s.keypair label now s.store = .ok s'
      ∧ SameState s s' := by
  obtain ⟨row, hrow, hlc, hlast, hret⟩ := h.row
  have hkey := h.key
  obtain ⟨faults, -, heq⟩ := loadOrCreate_existing label now h.healthy
    (by rw [hkey]; exact hrow) (by rw [hkey]; exact h.profile)
  refine ⟨_, heq, ?_⟩
  rw [hkey]
  exact ⟨rfl, h.retired, h.relationships, hlc, hlast, hret, h.coHolders,
    h.revoked, h.coHolderAddrs⟩

-- =================================================== views of one table

section views

variable {V W : Type} (t : Table (Address × Address) V)
  (f : Address → V → W) (side k : Address)

/-- The rows of a side, decoded. -/
def rowsOf : Table Address W := fun k => (t (side, k)).map (f k)

theorem rowsOf_insert (v : V) :
    rowsOf (t.insert (side, k) v) f side = (rowsOf t f side).insert k (f k v)
    := by
  funext k'
  by_cases hk : k' = k
  · rw [hk, Table.insert_self, rowsOf, Table.insert_self]
    rfl
  · rw [Table.insert_of_ne _ _ hk, rowsOf,
      Table.insert_of_ne _ _ (by simp [hk]), rowsOf]

theorem rowsOf_erase :
    rowsOf (t.erase (side, k)) f side = (rowsOf t f side).erase k := by
  funext k'
  by_cases hk : k' = k
  · rw [hk, Table.erase_self, rowsOf, Table.erase_self]
    rfl
  · rw [Table.erase_of_ne _ hk, rowsOf,
      Table.erase_of_ne _ (by simp [hk]), rowsOf]

theorem keysOf_insertOrIgnore (v : V) :
    SideStore.keysOf (t.insertOrIgnore (side, k) v) side
      = (SideStore.keysOf t side).insert k () := by
  funext k'
  by_cases hk : k' = k
  · rw [hk, Table.insert_self, SideStore.keysOf]
    obtain ⟨w, hw⟩ := Option.ne_none_iff_exists'.mp
      (t.insertOrIgnore_self_ne_none (side, k) v)
    rw [hw]
    rfl
  · rw [Table.insert_of_ne _ _ hk, SideStore.keysOf,
      Table.insertOrIgnore_of_ne _ _ (by simp [hk]), SideStore.keysOf]

end views

theorem coHolderRecords_eq (side : Address) (t : Tables) :
    Side.coHolderRecords (SideStore.coHoldersOf side t)
      = rowsOf t.coHolders
          (fun d r => ⟨d, r.addedAt.toUInt64, r.addedBy⟩) side := by
  funext d
  exact Option.map_map ..

-- ========================================================== the mutators

section mutators

variable {crypto : Crypto} {s : Side} (h : Mirrored crypto s)

include h

theorem Mirrored.setProfile {p : ProfilePayload}
    (hp : ProfilePayload.fromWireBytes crypto p.toWireBytes = .ok p) :
    Mirrored crypto (s.setProfile p) := by
  unfold Side.setProfile SideStore.upsertProfile
  rw [Side.persist_execute_of_ok _ (healthy_head h.healthy)]
  exact { h with
    healthy := healthy_tail _ h.healthy
    profile := profileOf_of_wire (Table.insert_self ..) hp }

theorem Mirrored.clearProfile : Mirrored crypto s.clearProfile := by
  unfold Side.clearProfile SideStore.deleteProfile
  rw [Side.persist_execute_of_ok (s := { s with profile := none }) _
    (healthy_head h.healthy)]
  exact { h with
    healthy := healthy_tail _ h.healthy
    profile := profileOf_of_none (Table.erase_self ..) }

theorem Mirrored.markRetiredSeen (retired : Address) (now : UInt64) :
    Mirrored crypto (s.markRetiredSeen retired now) := by
  unfold Side.markRetiredSeen SideStore.addRetiredSeen
  rw [Side.persist_execute_of_ok _ (healthy_head h.healthy)]
  exact { h with
    healthy := healthy_tail _ h.healthy
    retired := by rw [keysOf_insertOrIgnore, h.retired] }

theorem Mirrored.removeRelationship (addr : Address) :
    Mirrored crypto (s.removeRelationship addr) := by
  unfold Side.removeRelationship SideStore.deleteRelationship
  rw [Side.persist_execute_of_ok _ (healthy_head h.healthy)]
  exact { h with
    healthy := healthy_tail _ h.healthy
    relationships := by
      rw [← h.relationships]
      exact rowsOf_erase .. }

theorem Mirrored.addCoHolder (d : Address) (addedBy : Option Address)
    (now : UInt64) : Mirrored crypto (s.addCoHolder d addedBy now) := by
  unfold Side.addCoHolder SideStore.addCoHolder
  rw [Side.persist_execute_of_ok _ (healthy_head h.healthy)]
  exact { h with
    healthy := healthy_tail _ h.healthy
    coHolders := by
      rw [coHolderRecords_eq, ← h.coHolders, coHolderRecords_eq]
      exact rowsOf_insert .. }

theorem Mirrored.removeCoHolder (d : Address) :
    Mirrored crypto (s.removeCoHolder d) := by
  unfold Side.removeCoHolder SideStore.removeCoHolder
  rw [Side.persist_execute_of_ok _ (healthy_head h.healthy)]
  exact { h with
    healthy := healthy_tail _ h.healthy
    coHolders := by
      rw [coHolderRecords_eq, ← h.coHolders, coHolderRecords_eq]
      exact rowsOf_erase .. }

theorem Mirrored.addRevokedDevice (d : Address) (now : UInt64) :
    Mirrored crypto (s.addRevokedDevice d now) := by
  unfold Side.addRevokedDevice SideStore.addRevokedDevice
  rw [Side.persist_execute_of_ok _ (healthy_head h.healthy)]
  exact { h with
    healthy := healthy_tail _ h.healthy
    revoked := by rw [keysOf_insertOrIgnore, h.revoked] }

theorem Mirrored.recordCoHolderAddr (d : Address) (dial : String)
    (now : UInt64) :
    Mirrored crypto (s.recordCoHolderAddr d dial now) := by
  unfold Side.recordCoHolderAddr SideStore.upsertCoHolderAddr
  rw [Side.persist_execute_of_ok _ (healthy_head h.healthy)]
  exact { h with
    healthy := healthy_tail _ h.healthy
    coHolderAddrs := by
      rw [← h.coHolderAddrs]
      exact rowsOf_insert .. }

theorem Mirrored.dropCoHolderAddr (d : Address) :
    Mirrored crypto (s.dropCoHolderAddr d) := by
  unfold Side.dropCoHolderAddr SideStore.removeCoHolderAddr
  rw [Side.persist_execute_of_ok _ (healthy_head h.healthy)]
  exact { h with
    healthy := healthy_tail _ h.healthy
    coHolderAddrs := by
      rw [← h.coHolderAddrs]
      exact rowsOf_erase .. }

/-- The row of the side is rewritten from the memory. -/
theorem Mirrored.upsertRow (last : Option UInt64) (lc : SideLifecycle)
    (retired : Bool) :
    Mirrored crypto (({ s with
      lifecycle := lc, lastSendAt := last
      isSelfRetired := retired }).persistLastSendAndLifecycle last lc) := by
  obtain ⟨old, hold, -⟩ := h.row
  unfold Side.persistLastSendAndLifecycle SideStore.upsertSide
  rw [Side.persist_execute_of_ok (s := { s with
    lifecycle := lc, lastSendAt := last, isSelfRetired := retired }) _
    (healthy_head h.healthy)]
  refine { h with
    healthy := healthy_tail _ h.healthy
    row := ⟨_, Table.insert_self .., ?_⟩ }
  dsimp only
  rw [hold]
  refine ⟨parseLifecycle_label lc, ?_, SideStore.i64ToBool_boolToI64 _⟩
  cases last <;> rfl

theorem Mirrored.setLifecycle (lc : SideLifecycle) :
    Mirrored crypto (s.setLifecycle lc) :=
  h.upsertRow s.lastSendAt lc s.isSelfRetired

theorem Mirrored.refreshLifecycle (now : UInt64) :
    Mirrored crypto (s.refreshLifecycle now) := by
  unfold Side.refreshLifecycle
  split
  · exact h
  · exact h.setLifecycle _

theorem Mirrored.touchSend (now : UInt64) :
    Mirrored crypto (s.touchSend now) :=
  h.upsertRow (some now) _ s.isSelfRetired

theorem Mirrored.setSelfRetired : Mirrored crypto s.setSelfRetired := by
  have h1 : Mirrored crypto
      (({ s with isSelfRetired := true }).setLifecycle .retired) :=
    h.upsertRow s.lastSendAt .retired true
  exact h1.upsertRow _ _ _

-- ====================================================== relationships

omit h in
/-- What the row of an upsert decodes to, but for `added_at`. -/
theorem decode_upsert_row {r : SideRelationship} {addedAt : Int64}
    (hcaps : Encodable r.capabilities) (hadded : addedAt.toUInt64 = r.addedAt) :
    SideStore.decodeRelationship r.address
      { nickname := r.nickname, introducedBy := r.introducedBy
        capabilities := SideStore.encodeCapabilities r.capabilities
        notes := r.notes, pinned := SideStore.boolToI64 r.pinned
        addedAt := addedAt, peerListenAddr := r.peerListenAddr } = r := by
  unfold SideStore.decodeRelationship
  rw [decode_encode hcaps, hadded, SideStore.i64ToBool_boolToI64]

/-- An upsert the store follows: the capability set encodes, and a
relationship already there was added at the same time. -/
structure SafeUpsert (s : Side) (r : SideRelationship) : Prop where
  addedAt : ∀ old, s.relationships r.address = some old →
    old.addedAt = r.addedAt
  capabilities : Encodable r.capabilities

theorem Mirrored.addRelationship {r : SideRelationship}
    (hsafe : SafeUpsert s r) : Mirrored crypto (s.addRelationship r) := by
  unfold Side.addRelationship SideStore.upsertRelationship
  rw [Side.persist_execute_of_ok _ (healthy_head h.healthy)]
  refine { h with
    healthy := healthy_tail _ h.healthy
    relationships := ?_ }
  rw [← h.relationships]
  refine (rowsOf_insert ..).trans ?_
  unfold RelationshipTable.put
  rw [decode_upsert_row hsafe.capabilities]
  · rfl
  · cases hold : s.store.tables.relationships (s.address, r.address) with
    | none => rfl
    | some old =>
        have hmem := congrFun h.relationships r.address
        unfold SideStore.relationshipsOf at hmem
        rw [hold] at hmem
        exact hsafe.addedAt _ hmem.symm

end mutators

/-- An update that leaves the address is the upsert of what it left. -/
theorem updateRelationship_eq {s : Side} {addr : Address}
    {f : SideRelationship → SideRelationship} {before : SideRelationship}
    (hmem : s.relationships addr = some before)
    (haddr : (f before).address = addr) :
    (s.updateRelationship addr f).2 = s.addRelationship (f before) := by
  unfold Side.updateRelationship RelationshipTable.update
  rw [hmem]
  subst haddr
  simp only [if_true, Table.insert_self]
  rfl

-- ============================================================ the runs

/-- The sequential operations of a side. -/
inductive SideAction where
  | setProfile (p : ProfilePayload)
  | markRetiredSeen (retired : Address) (now : UInt64)
  | addRelationship (r : SideRelationship)
  | updateRelationship (addr : Address)
      (f : SideRelationship → SideRelationship)
  | removeRelationship (addr : Address)
  | addCoHolder (d : Address) (addedBy : Option Address) (now : UInt64)
  | removeCoHolder (d : Address)
  | addRevokedDevice (d : Address) (now : UInt64)
  | recordCoHolderAddr (d : Address) (dial : String) (now : UInt64)
  | touchSend (now : UInt64)
  | refreshLifecycle (now : UInt64)
  | setLifecycle (state : SideLifecycle)
  | setSelfRetired
  | applyDelta (op : DeltaOp) (appliedAt now : UInt64)

/-- One operation; each is possible in every state. -/
def sideStep (crypto : Crypto) (s : Side) : SideAction → Option Side
  | .setProfile p => some (s.setProfile p)
  | .markRetiredSeen retired now => some (s.markRetiredSeen retired now)
  | .addRelationship r => some (s.addRelationship r)
  | .updateRelationship addr f => some (s.updateRelationship addr f).2
  | .removeRelationship addr => some (s.removeRelationship addr)
  | .addCoHolder d addedBy now => some (s.addCoHolder d addedBy now)
  | .removeCoHolder d => some (s.removeCoHolder d)
  | .addRevokedDevice d now => some (s.addRevokedDevice d now)
  | .recordCoHolderAddr d dial now => some (s.recordCoHolderAddr d dial now)
  | .touchSend now => some (s.touchSend now)
  | .refreshLifecycle now => some (s.refreshLifecycle now)
  | .setLifecycle state => some (s.setLifecycle state)
  | .setSelfRetired => some s.setSelfRetired
  | .applyDelta op appliedAt now => some (s.applyDelta crypto op appliedAt now)

/-- The record wins over what the memory holds. -/
def UpsertWins (s : Side) (rec : RelationshipRecord) : Prop :=
  ∀ old, s.relationships rec.address = some old → old.addedAt ≤ rec.addedAt

/-- The writes the store follows: a profile that parses from its own wire
form; relationships whose capability set the column gives back, added at the
time of the one they overwrite, under the address they are kept under;
anything else. -/
def WriteOk (crypto : Crypto) (s : Side) : SideAction → Prop
  | .setProfile p => ProfilePayload.fromWireBytes crypto p.toWireBytes = .ok p
  | .addRelationship r => SafeUpsert s r
  | .updateRelationship addr f =>
      ∀ old, s.relationships addr = some old →
        (f old).address = addr ∧ SafeUpsert s (f old)
  | .applyDelta (.relationshipUpserted rec) _ _ =>
      UpsertWins s rec → SafeUpsert s (relationshipFromRecord rec)
  | _ => True

theorem Mirrored.applyDelta {crypto : Crypto} {s : Side}
    (h : Mirrored crypto s) {op : DeltaOp} {appliedAt now : UInt64}
    (hok : WriteOk crypto s (.applyDelta op appliedAt now)) :
    Mirrored crypto (s.applyDelta crypto op appliedAt now) := by
  cases op with
  | profileUpdated wire =>
      simp only [Side.applyDelta]
      cases hparse : ProfilePayload.fromWireBytes crypto wire with
      | error e => exact h
      | ok p =>
          -- what parsed is its own canonical form
          have hset := h.setProfile
            (ProfilePayload.fromWireBytes_toWireBytes hparse)
          show Mirrored crypto (s.applyProfile p)
          unfold Side.applyProfile
          split
          · split
            · exact hset
            · exact h
          · exact hset
  | profileCleared => exact h.clearProfile
  | relationshipUpserted rec =>
      show Mirrored crypto (s.applyUpsert (relationshipFromRecord rec))
      unfold Side.applyUpsert
      split
      case h_1 e he =>
        split
        case isTrue hge =>
          refine h.addRelationship (hok fun old hold => ?_)
          rw [show s.relationships rec.address = some e from he] at hold
          injection hold with hold
          rw [← hold]
          exact hge
        case isFalse => exact h
      case h_2 hnone =>
        refine h.addRelationship (hok fun old hold => ?_)
        rw [show s.relationships rec.address = none from hnone] at hold
        cases hold
  | relationshipRemoved addr => exact h.removeRelationship addr
  | retiredObserved addr => exact h.markRetiredSeen addr now
  | lifecycleChanged state =>
      simp only [Side.applyDelta]
      split
      · exact h
      · exact h.setLifecycle _
  | coHolderAdded d dial =>
      simp only [Side.applyDelta]
      split
      · exact h
      · split
        · exact h
        · exact (h.addCoHolder d none now).recordCoHolderAddr d dial now
  | coHolderRemoved d =>
      exact ((h.removeCoHolder d).addRevokedDevice d now).dropCoHolderAddr d

/-- Step lemma. -/
theorem mirrored_step {crypto : Crypto} {s s' : Side} {a : SideAction}
    (hok : WriteOk crypto s a) (h : Mirrored crypto s)
    (hstep : sideStep crypto s a = some s') : Mirrored crypto s' := by
  cases a <;> injection hstep with hs' <;> subst hs'
  case setProfile p => exact h.setProfile hok
  case markRetiredSeen retired now => exact h.markRetiredSeen retired now
  case addRelationship r => exact h.addRelationship hok
  case updateRelationship addr f =>
    cases hmem : s.relationships addr with
    | none =>
        unfold Side.updateRelationship
        rw [hmem]
        exact h
    | some before =>
        obtain ⟨haddr, hsafe⟩ := hok before hmem
        rw [updateRelationship_eq hmem haddr]
        exact h.addRelationship hsafe
  case removeRelationship addr => exact h.removeRelationship addr
  case addCoHolder d addedBy now => exact h.addCoHolder d addedBy now
  case removeCoHolder d => exact h.removeCoHolder d
  case addRevokedDevice d now => exact h.addRevokedDevice d now
  case recordCoHolderAddr d dial now => exact h.recordCoHolderAddr d dial now
  case touchSend now => exact h.touchSend now
  case refreshLifecycle now => exact h.refreshLifecycle now
  case setLifecycle state => exact h.setLifecycle state
  case setSelfRetired => exact h.setSelfRetired
  case applyDelta op appliedAt now => exact h.applyDelta hok

/-- After every sequence of operations the store follows, the reload
succeeds and gives back what the memory holds. -/
theorem reload_agrees (crypto : Crypto) (key : SideKey)
    (label : Option String) (now : UInt64) (store : SideStore)
    (s s' : Side) (acts : List SideAction) (hhealthy : store.Healthy)
    (href : Referenced key.publicBytes store.tables)
    (hload : Side.loadOrCreate crypto key label now store = .ok s)
    (hok : Along (sideStep crypto) (WriteOk crypto) s acts)
    (hrun : run (sideStep crypto) s acts = some s') :
    ∀ label' now', ∃ t,
      Side.loadOrCreate crypto s'.keypair label' now' s'.store = .ok t
        ∧ SameState s' t := by
  have hmirrored : Mirrored crypto s' :=
    run_induct (fun _ _ _ hok h hstep => mirrored_step hok h hstep) hok
      (mirrored_of_load hhealthy href hload) hrun
  exact fun label' now' => reload_of_mirrored hmirrored label' now'

/-- A contact, added at `addedAt`. -/
def contact (addedAt : UInt64) : SideRelationship where
  address := Bytes.fill _ 7
  nickname := none
  introducedBy := none
  capabilities := BTreeSet.ofList ["direct-message"]
  notes := none
  pinned := true
  addedAt := addedAt
  peerListenAddr := some "a:1"

def reloadKey : SideKey := ⟨Bytes.fill _ 1, Bytes.fill _ 2⟩

/-- A contact is recorded and a message sent on a fresh side. -/
theorem reload_agrees_contact :
    ∃ s s', Side.loadOrCreate Crypto.refusing reloadKey none 0
          ⟨Tables.empty, []⟩ = .ok s
      ∧ run (sideStep Crypto.refusing) s
          [.addRelationship (contact 1), .touchSend 5] = some s'
      ∧ ∀ label' now', ∃ t, Side.loadOrCreate Crypto.refusing s'.keypair
            label' now' s'.store = .ok t ∧ SameState s' t := by
  refine ⟨_, _, rfl, rfl, reload_agrees Crypto.refusing reloadKey none 0
    ⟨Tables.empty, []⟩ _ _ [.addRelationship (contact 1), .touchSend 5]
    (by decide) ?_ rfl ?_ rfl⟩
  · exact ⟨fun _ => rfl, fun _ _ => rfl, fun _ _ => rfl, fun _ _ => rfl,
      fun _ _ => rfl, fun _ _ => rfl⟩
  · refine ⟨⟨fun old h => ?_, by decide, by decide⟩,
      fun _ _ => ⟨trivial, fun _ _ => trivial⟩⟩
    cases h

/-- A contact is recorded twice: the memory has the second time, the reload
the first. A capability with a newline in it comes back as two. -/
theorem reload_disagrees :
    (match Side.loadOrCreate Crypto.refusing reloadKey none 0
        ⟨Tables.empty, []⟩ with
      | .error _ => none
      | .ok s => (run (sideStep Crypto.refusing) s
            [.addRelationship (contact 1), .addRelationship (contact 2)]).bind
          fun s => match Side.loadOrCreate Crypto.refusing reloadKey none 0
              s.store with
            | .error _ => none
            | .ok t => some
                ((s.relationships (Bytes.fill _ 7)).map (·.addedAt),
                  (t.relationships (Bytes.fill _ 7)).map (·.addedAt)))
        = some (some 2, some 1)
      ∧ SideStore.decodeCapabilities (SideStore.encodeCapabilities
          (BTreeSet.ofList ["a\nb"])) = BTreeSet.ofList ["a", "b"] :=
  ⟨by decide, by decide⟩

end Sidevers.Proofs
