/-
What a pairing leaves behind: when a failed `accept_pairing` leaves the new
device as it was, and when a successful one brings the side over whole.

Every check of the response comes before the side is added but one: the
profile in the bundle is read after. Past that, the replay only adds to what
the load of the side found, so rows left of an earlier time survive it
(`leftRelationships`, `leftRetired`), and the sides seen retired are those of
the existing device's store, not of its memory.
-/
import Sidevers.Net.AcceptPairing
import Sidevers.Proofs.Publishing

namespace Sidevers.Proofs

open Sidevers.Core
open Sidevers.Core.Cbor
open Sidevers.Lib
open Sidevers.Net

-- ============================================================ the property

/-- A contact without its last-known endpoint. -/
def withoutEndpoint (r : SideRelationship) : SideRelationship :=
  { r with peerListenAddr := none }

/-- The side has what the existing device has of it. -/
structure Inherits (existing side : Side) : Prop where
  profile : side.profile = existing.profile
  relationships : ∀ a, (side.relationships a).map withoutEndpoint
    = (existing.relationships a).map withoutEndpoint
  retiredSidesSeen : side.retiredSidesSeen = existing.retiredSidesSeen
  lifecycle : side.lifecycle = existing.lifecycle

section calls

variable {crypto : Crypto} (openSealed : OpenSealed crypto)
  (publicOf : Bytes 32 → Address) (n : NewDevice) (io : AcceptIo crypto)
  (qr : PairingQr)

/-- A call that fails leaves the hosted sides and the rows as they were, and
one that succeeds on a node without the side brings over what the existing
device had when it built the bundle. -/
structure PairsWhole (existing : Side) : Prop where
  failed : ∀ e, (n.acceptPairing openSealed publicOf io qr).1 = .error e →
    (n.acceptPairing openSealed publicOf io qr).2.hosted = n.hosted
      ∧ (n.acceptPairing openSealed publicOf io qr).2.store.tables
        = n.store.tables
  succeeded : ∀ side key inner,
    (n.acceptPairing openSealed publicOf io qr).1 = .ok side →
    qr.side ∉ n.hosted → awaitBundle openSealed publicOf io qr = .ok (key, inner) →
    BuiltFrom crypto existing inner → Inherits existing side

end calls

-- ========================================================== the rows left

/-- A profile is loaded with the side. -/
def LeftProfile (t : Tables) (address : Address) : Prop :=
  t.sides address ≠ none ∧ t.profiles address ≠ none

/-- The contacts that are loaded with the side. -/
def leftRelationships (t : Tables) (address : Address) : RelationshipTable :=
  if t.sides address = none then .empty
  else SideStore.relationshipsOf address t

/-- The sides seen retired that are loaded with the side. -/
def leftRetired (t : Tables) (address : Address) : Table Address Unit :=
  if t.sides address = none then .empty
  else SideStore.keysOf t.retiredSidesSeen address

/-- The side of the existing device comes over: its profile reads back, every
contact is filed under its own address, and what is loaded with the side is
nothing else than what it has. -/
structure ComesOver (crypto : Crypto) (t : Tables) (address : Address)
    (existing : Side) : Prop where
  noProfile : existing.profile = none → ¬ LeftProfile t address
  profile : ∀ p, existing.profile = some p →
    ProfilePayload.fromWireBytes crypto p.toWireBytes = .ok p
  filed : ∀ a r, existing.relationships a = some r → r.address = a
  contacts : ∀ a, leftRelationships t address a ≠ none →
    existing.relationships a ≠ none
  retired : ∀ a, existing.retiredSidesSeen a = none
    ↔ leftRetired t address a = none
      ∧ SideStore.keysOf existing.store.tables.retiredSidesSeen
        existing.address a = none

-- ============================================================== the load

/-- A failure leaves the rows as they were. -/
def FailsUntouched {α : Type} (call : StoreM α) : Prop :=
  ∀ store e store', call store = (.error e, store') →
    store'.tables = store.tables

theorem untouched_query {α β : Type} {read : Tables → Except Net.Error α}
    {rest : α → StoreM β} (h : ∀ a, FailsUntouched (rest a)) :
    FailsUntouched (SideStore.query read >>= rest) := by
  rintro ⟨tables, faults⟩ e store' hcall
  change (ExceptT.bindCont rest (SideStore.query read ⟨tables, faults⟩).1)
    (SideStore.query read ⟨tables, faults⟩).2 = _ at hcall
  unfold SideStore.query at hcall
  split at hcall
  case h_1 =>
    cases hcall
    rfl
  case h_2 =>
    cases hread : read tables with
    | error e =>
        simp only [hread] at hcall
        cases hcall
        rfl
    | ok a =>
        simp only [hread] at hcall
        exact h a ⟨tables, faults.tail⟩ e store' hcall

theorem untouched_execute {β : Type} {update : Tables → Tables}
    {rest : Unit → StoreM β}
    (h : ∀ store e store', rest () store ≠ (.error e, store')) :
    FailsUntouched (SideStore.execute update >>= rest) := by
  rintro ⟨tables, faults⟩ e store' hcall
  change (ExceptT.bindCont rest (SideStore.execute update ⟨tables, faults⟩).1)
    (SideStore.execute update ⟨tables, faults⟩).2 = _ at hcall
  unfold SideStore.execute at hcall
  split at hcall
  case h_1 =>
    cases hcall
    rfl
  case h_2 => exact absurd hcall (h _ e store')

theorem untouched_load {crypto : Crypto} (key : SideKey)
    (label : Option String) (now : UInt64) :
    FailsUntouched (Side.loadOrCreateM crypto key label now) := by
  refine untouched_query fun found => ?_
  cases found with
  | none =>
      refine untouched_execute fun store e store' h => ?_
      cases h
  | some row =>
      refine untouched_query fun profile => untouched_query fun retired => ?_
      refine untouched_query fun relationships => ?_
      refine untouched_query fun coHolders => untouched_query fun revoked => ?_
      refine untouched_query fun coHolderAddrs => ?_
      intro store e store' h
      cases h

/-- What is loaded, of what a bundle is replayed on. -/
theorem loaded_left {crypto : Crypto} {key : SideKey} {label : Option String}
    {now : UInt64} {store : SideStore} {side : Side}
    (hload : Side.loadOrCreate crypto key label now store = .ok side) :
    side.address = key.publicBytes
      ∧ (side.profile = none ↔ ¬ LeftProfile store.tables key.publicBytes)
      ∧ side.relationships = leftRelationships store.tables key.publicBytes
      ∧ side.retiredSidesSeen
        = leftRetired store.tables key.publicBytes := by
  unfold Side.loadOrCreate Side.loadOrCreateM at hload
  obtain ⟨found, f0, hfound, hload⟩ := query_bind_ok hload
  cases hrow : store.tables.sides key.publicBytes with
  | none =>
      rw [hrow] at hfound
      cases hfound
      obtain ⟨faults, hload⟩ := execute_bind_ok hload
      cases hload
      refine ⟨rfl, ?_, ?_, ?_⟩
      · exact iff_of_true rfl fun h => h.1 hrow
      · exact (if_pos hrow).symm
      · exact (if_pos hrow).symm
  | some row =>
      rw [hrow] at hfound
      cases hfound
      obtain ⟨profile, f1, hprofile, hload⟩ := query_bind_ok hload
      obtain ⟨retired, f2, hretired, hload⟩ := query_bind_ok hload
      obtain ⟨relationships, f3, hrelationships, hload⟩ := query_bind_ok hload
      obtain ⟨coHolders, f4, -, hload⟩ := query_bind_ok hload
      obtain ⟨revoked, f5, -, hload⟩ := query_bind_ok hload
      obtain ⟨coHolderAddrs, f6, -, hload⟩ := query_bind_ok hload
      cases hload
      cases hretired
      cases hrelationships
      have hsome : store.tables.sides key.publicBytes ≠ none := by
        rw [hrow]
        exact Option.some_ne_none row
      refine ⟨rfl, ?_, (if_neg hsome).symm, (if_neg hsome).symm⟩
      unfold SideStore.profileOf at hprofile
      unfold LeftProfile
      split at hprofile
      case h_1 hnone =>
        cases hprofile
        exact iff_of_true rfl fun h => h.2 hnone
      case h_2 found hfound =>
        split at hprofile
        case h_1 p hread =>
          cases hprofile
          refine iff_of_false (Option.some_ne_none p) (not_not.mpr ⟨hsome, ?_⟩)
          rw [hfound]
          exact Option.some_ne_none found
        case h_2 => cases hprofile

-- ============================================================ the replay

/-- A contact is the last of those put under its address, or as before. -/
theorem foldl_put_cases (rs : List SideRelationship) (t : RelationshipTable)
    (a : Address) :
    (∃ r ∈ rs, r.address = a ∧ rs.foldl RelationshipTable.put t a = some r)
      ∨ (∀ r ∈ rs, r.address ≠ a)
        ∧ rs.foldl RelationshipTable.put t a = t a := by
  induction rs generalizing t with
  | nil => exact .inr ⟨fun r hr => absurd hr List.not_mem_nil, rfl⟩
  | cons r rest ih =>
      rw [List.foldl_cons]
      rcases ih (t.put r) with ⟨r', hr', haddr, hput⟩ | ⟨hnone, hput⟩
      · exact .inl ⟨r', List.mem_cons_of_mem _ hr', haddr, hput⟩
      · rw [hput]
        by_cases haddr : r.address = a
        · refine .inl ⟨r, List.mem_cons_self, haddr, ?_⟩
          rw [← haddr]
          exact Table.insert_self ..
        · refine .inr ⟨fun r' hr' => ?_, Table.insert_of_ne t r (Ne.symm haddr)⟩
          rcases List.mem_cons.mp hr' with rfl | hr'
          · exact haddr
          · exact hnone r' hr'

/-- A side is marked if it is one of those marked, or was before. -/
theorem foldl_insert_eq_none_iff (items : List Address)
    (t : Table Address Unit) (a : Address) :
    items.foldl (fun t r => t.insert r ()) t a = none
      ↔ t a = none ∧ a ∉ items := by
  induction items generalizing t with
  | nil => simp
  | cons item rest ih =>
      rw [List.foldl_cons, ih, List.mem_cons, not_or]
      by_cases ha : a = item
      · subst ha
        simp [Table.insert_self]
      · rw [Table.insert_of_ne t () ha]
        simp [ha]

section replay

variable {crypto : Crypto} {s : Side} {bundle : StateBundleInner}
  {devicePubkey existing : Address} {dialAddr : String}
  {clock : Nat → Nat → UInt64} {now : UInt64}

/-- The loop over the contacts puts them, and no more. -/
theorem forEach_addRelationship (items : List RelationshipRecord)
    (clock : Nat → UInt64) (s : Side) :
    let s' := s.forEach (fun s rec _ =>
      s.addRelationship (relationshipFromRecord rec)) items clock
    s'.profile = s.profile ∧ s'.retiredSidesSeen = s.retiredSidesSeen
      ∧ s'.relationships = (items.map relationshipFromRecord).foldl
        RelationshipTable.put s.relationships := by
  induction items generalizing s clock with
  | nil => exact ⟨rfl, rfl, rfl⟩
  | cons rec rest ih => exact ih _ (s.addRelationship _)

/-- The loop over the sides seen retired marks them, and no more. -/
theorem forEach_markRetiredSeen (items : List Address)
    (clock : Nat → UInt64) (s : Side) :
    let s' := s.forEach Side.markRetiredSeen items clock
    s'.profile = s.profile ∧ s'.relationships = s.relationships
      ∧ s'.retiredSidesSeen
        = items.foldl (fun t r => t.insert r ()) s.retiredSidesSeen := by
  induction items generalizing s clock with
  | nil => exact ⟨rfl, rfl, rfl⟩
  | cons r rest ih => exact ih _ (s.markRetiredSeen r _)

/-- The loop over the co-holders has no part in the rest. -/
theorem forEach_addCoHolder (items : List Address) (clock : Nat → UInt64)
    (s : Side) :
    let s' := s.forEach (fun s dev now => if dev = devicePubkey then s
      else s.addCoHolder dev none now) items clock
    s'.profile = s.profile ∧ s'.relationships = s.relationships
      ∧ s'.retiredSidesSeen = s.retiredSidesSeen := by
  induction items generalizing s clock with
  | nil => exact ⟨rfl, rfl, rfl⟩
  | cons dev rest ih =>
      simp only [Side.forEach]
      split
      · exact ih _ s
      · exact ih _ (s.addCoHolder dev none _)

/-- The loops of the replay. -/
def replayLoops (bundle : StateBundleInner) (devicePubkey : Address)
    (clock : Nat → Nat → UInt64) (s : Side) : Side :=
  let s := s.forEach (fun s rec _ =>
    s.addRelationship (relationshipFromRecord rec)) bundle.relationships
    (clock 0)
  let s := s.forEach Side.markRetiredSeen bundle.retiredSides (clock 0)
  s.forEach (fun s dev now => if dev = devicePubkey then s
    else s.addCoHolder dev none now) bundle.coHolders (clock 1)

/-- What follows them. -/
def replayEnd (bundle : StateBundleInner) (devicePubkey existing : Address)
    (dialAddr : String) (now : UInt64) (s : Side) : Side :=
  ((s.setLifecycle (parseLifecycle bundle.lifecycle)).recordCoHolderAddr
    existing dialAddr now).addCoHolder existing (some devicePubkey) now

theorem installBundle_eq {profile : Option ProfilePayload}
    (hprofile : bundle.profileWire.mapM (ProfilePayload.fromWireBytes crypto)
      = .ok profile) :
    s.installBundle crypto bundle devicePubkey existing dialAddr clock now
      = (.ok (), replayEnd bundle devicePubkey existing dialAddr now
        (replayLoops bundle devicePubkey clock
          (profile.elim s s.setProfile))) := by
  unfold Side.installBundle Side.replayBundle
  rw [hprofile]
  cases profile <;> rfl

theorem replayLoops_views (s : Side) :
    let s' := replayLoops bundle devicePubkey clock s
    s'.profile = s.profile
      ∧ s'.relationships = (bundle.relationships.map
          relationshipFromRecord).foldl RelationshipTable.put s.relationships
      ∧ s'.retiredSidesSeen = bundle.retiredSides.foldl
          (fun t r => t.insert r ()) s.retiredSidesSeen := by
  intro s'
  obtain ⟨hp1, hs1, hr1⟩ := forEach_addRelationship bundle.relationships
    (clock 0) s
  obtain ⟨hp2, hr2, hs2⟩ := forEach_markRetiredSeen bundle.retiredSides
    (clock 0) (s.forEach (fun s rec _ => s.addRelationship
      (relationshipFromRecord rec)) bundle.relationships (clock 0))
  obtain ⟨hp3, hr3, hs3⟩ := @forEach_addCoHolder devicePubkey
    bundle.coHolders (clock 1) ((s.forEach (fun s rec _ => s.addRelationship
        (relationshipFromRecord rec)) bundle.relationships (clock 0)).forEach
      Side.markRetiredSeen bundle.retiredSides (clock 0))
  refine ⟨hp3.trans (hp2.trans hp1), hr3.trans (hr2.trans hr1), ?_⟩
  rw [← hs1]
  exact hs3.trans hs2

theorem replayEnd_views (s : Side) :
    let s' := replayEnd bundle devicePubkey existing dialAddr now s
    s'.profile = s.profile ∧ s'.relationships = s.relationships
      ∧ s'.retiredSidesSeen = s.retiredSidesSeen
      ∧ s'.lifecycle = parseLifecycle bundle.lifecycle := by
  unfold replayEnd
  generalize parseLifecycle bundle.lifecycle = state
  simp [Side.addCoHolder, Side.recordCoHolderAddr, Side.setLifecycle,
    Side.persistLifecycle, Side.persistLastSendAndLifecycle]

/-- The side once the bundle is replayed. -/
theorem installBundle_ok {profile : Option ProfilePayload}
    (hprofile : bundle.profileWire.mapM (ProfilePayload.fromWireBytes crypto)
      = .ok profile) :
    ∃ s', s.installBundle crypto bundle devicePubkey existing dialAddr clock
        now = (.ok (), s')
      ∧ s'.profile = profile.or s.profile
      ∧ s'.relationships = (bundle.relationships.map
          relationshipFromRecord).foldl RelationshipTable.put s.relationships
      ∧ s'.retiredSidesSeen = bundle.retiredSides.foldl
          (fun t r => t.insert r ()) s.retiredSidesSeen
      ∧ s'.lifecycle = parseLifecycle bundle.lifecycle := by
  have hsides : (profile.elim s s.setProfile).profile = profile.or s.profile
      ∧ (profile.elim s s.setProfile).relationships = s.relationships
      ∧ (profile.elim s s.setProfile).retiredSidesSeen
        = s.retiredSidesSeen := by
    cases profile <;> exact ⟨rfl, rfl, rfl⟩
  refine ⟨_, installBundle_eq hprofile, ?_⟩
  generalize profile.elim s s.setProfile = t at hsides ⊢
  obtain ⟨hp, hr, hs⟩ := @replayLoops_views bundle devicePubkey clock t
  generalize replayLoops bundle devicePubkey clock t = u at hp hr hs ⊢
  obtain ⟨hp', hr', hs', hl⟩ :=
    @replayEnd_views bundle devicePubkey existing dialAddr now u
  refine ⟨hp'.trans (hp.trans hsides.1), ?_, ?_, hl⟩
  · rw [← hsides.2.1]
    exact hr'.trans hr
  · rw [← hsides.2.2]
    exact hs'.trans hs

end replay

-- ======================================================= what comes over

/-- The contacts come over iff each is filed under its own address and nobody
else is left of an earlier time. -/
theorem contacts_come_over_iff {rs : List SideRelationship}
    {left existing : RelationshipTable}
    (hleft : ∀ a r, left a = some r → r.address = a)
    (hrs : ∀ r, r ∈ rs ↔ ∃ a r', existing a = some r' ∧ withoutEndpoint r' = r) :
    (∀ a, (rs.foldl RelationshipTable.put left a).map withoutEndpoint
        = (existing a).map withoutEndpoint)
      ↔ (∀ a r, existing a = some r → r.address = a)
        ∧ ∀ a, left a ≠ none → existing a ≠ none := by
  constructor
  · intro h
    refine ⟨fun a r hr => ?_, fun a ha hnone => ?_⟩
    · have hsame := h a
      rw [hr] at hsame
      rcases foldl_put_cases rs left a with ⟨r', -, haddr, hput⟩ | ⟨-, hput⟩
      · rw [hput] at hsame
        have heq := congrArg SideRelationship.address (Option.some.inj hsame)
        exact heq.symm.trans haddr
      · rw [hput] at hsame
        obtain ⟨r', hr', heq⟩ := Option.map_eq_some_iff.mp hsame
        have haddr := congrArg SideRelationship.address heq
        exact haddr.symm.trans (hleft a r' hr')
    · have hsame := h a
      rw [hnone] at hsame
      have hgone := Option.map_eq_none_iff.mp hsame
      rcases foldl_put_cases rs left a with ⟨r', -, -, hput⟩ | ⟨-, hput⟩
      · cases hput.symm.trans hgone
      · exact ha (hput.symm.trans hgone)
  · rintro ⟨hfiled, hcontacts⟩ a
    rcases foldl_put_cases rs left a with ⟨r, hr, haddr, hput⟩ | ⟨hnone, hput⟩
    · obtain ⟨a', r', hr', rfl⟩ := (hrs r).mp hr
      have hfile : a' = a := (hfiled a' r' hr').symm.trans haddr
      rw [hput, ← hfile, hr']
      rfl
    · cases hr : existing a with
      | none =>
          rw [hput, not_not.mp fun hsome => hcontacts a hsome hr]
      | some r =>
          have hmem := (hrs _).mpr ⟨a, r, hr, rfl⟩
          exact absurd (hfiled a r hr) (hnone (withoutEndpoint r) hmem)

section built

variable {crypto : Crypto} {existing : Side} {inner : SeededStateBundle}

/-- The contacts of the bundle, as the new device files them. -/
theorem mem_relationships_built (h : BuiltFrom crypto existing inner)
    (r : SideRelationship) :
    r ∈ inner.relationships.map relationshipFromRecord
      ↔ ∃ a r', existing.relationships a = some r' ∧ withoutEndpoint r' = r := by
  obtain ⟨n, now, hshows, rfl⟩ := h
  have hrecord (r' : SideRelationship) :
      relationshipFromRecord (ServingNode.relationshipRecord r')
        = withoutEndpoint r' := by
    unfold relationshipFromRecord ServingNode.relationshipRecord
    rw [BTreeSet.ofList_keys]
    rfl
  simp only [ServingNode.buildStateBundleInner, List.mem_map,
    List.mem_insertionSort]
  constructor
  · rintro ⟨_, ⟨r', hr', rfl⟩, rfl⟩
    obtain ⟨a, ha⟩ := (hshows.relationships r').mp hr'
    exact ⟨a, r', ha, (hrecord r').symm⟩
  · rintro ⟨a, r', ha, rfl⟩
    exact ⟨_, ⟨r', (hshows.relationships r').mpr ⟨a, ha⟩, rfl⟩, hrecord r'⟩

/-- The sides seen retired that are in the bundle. -/
theorem mem_retired_built (h : BuiltFrom crypto existing inner)
    (a : Address) :
    a ∈ inner.retiredSides
      ↔ SideStore.keysOf existing.store.tables.retiredSidesSeen
        existing.address a ≠ none := by
  obtain ⟨n, now, hshows, rfl⟩ := h
  simp only [ServingNode.buildStateBundleInner, List.mem_insertionSort]
  exact hshows.retiredSeen a

theorem profileWire_built (h : BuiltFrom crypto existing inner) :
    inner.profileWire = existing.profile.map ProfilePayload.toWireBytes := by
  obtain ⟨n, now, hshows, rfl⟩ := h
  exact congrArg (Option.map ProfilePayload.toWireBytes) hshows.profile

theorem lifecycle_built (h : BuiltFrom crypto existing inner) :
    parseLifecycle inner.lifecycle = existing.lifecycle := by
  obtain ⟨n, now, hshows, rfl⟩ := h
  exact (parseLifecycle_label _).trans hshows.lifecycle

/-- The profile comes over iff it reads back or, where there is none, none is
left of an earlier time. -/
theorem profile_comes_over_iff {profile left : Option ProfilePayload}
    (h : BuiltFrom crypto existing inner)
    (hread : inner.profileWire.mapM (ProfilePayload.fromWireBytes crypto)
      = .ok profile) :
    profile.or left = existing.profile
      ↔ (existing.profile = none → left = none)
        ∧ ∀ p, existing.profile = some p →
          ProfilePayload.fromWireBytes crypto p.toWireBytes = .ok p := by
  rw [profileWire_built h] at hread
  cases hprofile : existing.profile with
  | none =>
      rw [hprofile] at hread
      cases hread
      simp
  | some p =>
      rw [hprofile] at hread
      simp only [Option.map_some, Option.mapM_some] at hread
      obtain ⟨p', hp', hpure⟩ := ok_of_bind hread
      cases hpure
      simp [hp']

theorem leftRelationships_filed (t : Tables) (address a : Address)
    (r : SideRelationship) (h : leftRelationships t address a = some r) :
    r.address = a := by
  unfold leftRelationships at h
  split at h
  case isTrue => cases h
  case isFalse =>
    obtain ⟨row, -, rfl⟩ := Option.map_eq_some_iff.mp h
    rfl

/-- The side that a bundle was replayed on has all of the existing device's
iff the side comes over. -/
theorem inherits_iff {t : Tables} {address : Address} {side s' : Side}
    {profile : Option ProfilePayload} (h : BuiltFrom crypto existing inner)
    (hread : inner.profileWire.mapM (ProfilePayload.fromWireBytes crypto)
      = .ok profile)
    (hprofile : side.profile = none ↔ ¬ LeftProfile t address)
    (hrelationships : side.relationships = leftRelationships t address)
    (hretired : side.retiredSidesSeen = leftRetired t address)
    (hp : s'.profile = profile.or side.profile)
    (hr : s'.relationships = (inner.relationships.map
      relationshipFromRecord).foldl RelationshipTable.put side.relationships)
    (hs : s'.retiredSidesSeen = inner.retiredSides.foldl
      (fun t r => t.insert r ()) side.retiredSidesSeen)
    (hl : s'.lifecycle = parseLifecycle inner.lifecycle) :
    Inherits existing s' ↔ ComesOver crypto t address existing := by
  have hprofiles := @profile_comes_over_iff _ _ _ _ side.profile h hread
  have hcontacts := contacts_come_over_iff
    (leftRelationships_filed t address) (mem_relationships_built h)
  have hretireds (a : Address) : s'.retiredSidesSeen a = none
      ↔ leftRetired t address a = none
        ∧ SideStore.keysOf existing.store.tables.retiredSidesSeen
          existing.address a = none := by
    rw [hs, hretired, foldl_insert_eq_none_iff, mem_retired_built h, not_not]
  rw [← hp, hprofile] at hprofiles
  rw [← hrelationships, ← hr, hrelationships] at hcontacts
  constructor
  · intro hin
    obtain ⟨hnone, hreads⟩ := hprofiles.mp hin.profile
    obtain ⟨hfiled, hothers⟩ := hcontacts.mp hin.relationships
    refine ⟨hnone, hreads, hfiled, hothers, fun a => ?_⟩
    rw [← hin.retiredSidesSeen]
    exact hretireds a
  · intro hover
    refine ⟨hprofiles.mpr ⟨hover.noProfile, hover.profile⟩,
      hcontacts.mpr ⟨hover.filed, hover.contacts⟩, ?_,
      hl.trans (lifecycle_built h)⟩
    funext a
    have hnone := (hretireds a).trans (hover.retired a).symm
    cases hmine : s'.retiredSidesSeen a with
    | none => exact (hnone.mp hmine).symm
    | some u =>
        cases htheirs : existing.retiredSidesSeen a with
        | none => cases hmine.symm.trans (hnone.mpr htheirs)
        | some u' => rfl

end built

-- =============================================================== the call

section calls

variable {crypto : Crypto} {openSealed : OpenSealed crypto}
  {publicOf : Bytes 32 → Address} {n : NewDevice} {io : AcceptIo crypto}
  {qr : PairingQr} {key : SideKey} {inner : SeededStateBundle} {side : Side}

theorem openBundle_key {deviceKey : Signer crypto}
    {bundle : SignedStateBundle}
    (h : openBundle openSealed publicOf qr deviceKey bundle
      = .ok (key, inner)) : key.publicBytes = qr.side := by
  obtain ⟨side, hside⟩ : ∃ side : Address, side = qr.side := ⟨_, rfl⟩
  unfold openBundle at h
  rw [← hside] at h ⊢
  obtain ⟨-, h⟩ := guard_ok.mp h
  obtain ⟨-, h⟩ := guard_ok.mp h
  obtain ⟨-, h⟩ := guard_ok.mp h
  split at h
  case h_1 => cases h
  case h_2 =>
    split at h
    case h_1 => cases h
    case h_2 =>
      obtain ⟨hkey, h⟩ := guard_ok.mp h
      cases h
      exact not_not.mp hkey

theorem awaitBundle_key
    (h : awaitBundle openSealed publicOf io qr = .ok (key, inner)) :
    key.publicBytes = qr.side := by
  unfold awaitBundle at h
  split at h
  case h_1 => cases h
  case h_2 =>
    split at h
    case h_1 => cases h
    case h_2 =>
      split at h
      case h_1 => cases h
      case h_2 =>
        split at h
        case isTrue => cases h
        case isFalse =>
          split at h
          case h_1 => cases h
          case h_2 bundle _ =>
            cases hopen : openBundle openSealed publicOf qr io.deviceKey bundle with
            | error e =>
                rw [hopen] at h
                cases h
            | ok opened =>
                rw [hopen] at h
                cases h
                exact openBundle_key hopen

theorem addSide_error {endpoint : Except Net.Error Unit} {label : String}
    {now : UInt64} {e : Net.Error} {n' : NewDevice}
    (h : n.addSide crypto endpoint key label now = (.error e, n')) :
    n'.hosted = n.hosted ∧ n'.store.tables = n.store.tables := by
  unfold NewDevice.addSide at h
  split at h
  case h_1 =>
    cases h
    exact ⟨rfl, rfl⟩
  case h_2 =>
    split at h
    case h_1 e' store hload =>
      cases h
      exact ⟨rfl, untouched_load key (some label) now _ _ _ hload⟩
    case h_2 => cases h

theorem addSide_ok {endpoint : Except Net.Error Unit} {label : String}
    {now : UInt64} {n' : NewDevice}
    (h : n.addSide crypto endpoint key label now = (.ok side, n')) :
    n'.hosted = n.hosted ++ [side.address]
      ∧ Side.loadOrCreate crypto key (some label) now n.store = .ok side := by
  unfold NewDevice.addSide at h
  split at h
  case h_1 => cases h
  case h_2 =>
    split at h
    case h_1 => cases h
    case h_2 side' store hload =>
      cases h
      exact ⟨rfl, congrArg Prod.fst hload⟩

/-- Nothing is installed where the wait for the bundle fails. -/
theorem acceptPairing_unopened {e : AcceptError}
    (h : awaitBundle openSealed publicOf io qr = .error e) :
    n.acceptPairing openSealed publicOf io qr = (.error e, n) := by
  unfold NewDevice.acceptPairing
  rw [h]

/-- A side that does not load is not installed. -/
theorem acceptPairing_unadded {e : Net.Error} {n' : NewDevice}
    (hawait : awaitBundle openSealed publicOf io qr = .ok (key, inner))
    (hadd : n.addSide crypto io.endpoint key "joined" io.created
      = (.error e, n')) :
    n.acceptPairing openSealed publicOf io qr = (.error (.net e), n') := by
  unfold NewDevice.acceptPairing
  rw [hawait]
  dsimp only
  rw [hadd]

/-- A profile that does not decode ends the call, the side added. -/
theorem acceptPairing_unread {e : Core.Error} {n' : NewDevice}
    (hawait : awaitBundle openSealed publicOf io qr = .ok (key, inner))
    (hadd : n.addSide crypto io.endpoint key "joined" io.created
      = (.ok side, n'))
    (hread : inner.profileWire.mapM (ProfilePayload.fromWireBytes crypto)
      = .error e) :
    (n.acceptPairing openSealed publicOf io qr).1 = .error (.net (.core e))
      ∧ (n.acceptPairing openSealed publicOf io qr).2.hosted = n'.hosted := by
  unfold NewDevice.acceptPairing
  rw [hawait]
  dsimp only
  rw [hadd]
  dsimp only
  unfold Side.installBundle Side.replayBundle
  rw [hread]
  exact ⟨rfl, rfl⟩

theorem acceptPairing_read {n' : NewDevice} {profile : Option ProfilePayload}
    (hawait : awaitBundle openSealed publicOf io qr = .ok (key, inner))
    (hadd : n.addSide crypto io.endpoint key "joined" io.created
      = (.ok side, n'))
    (hread : inner.profileWire.mapM (ProfilePayload.fromWireBytes crypto)
      = .ok profile) :
    ∃ s', (n.acceptPairing openSealed publicOf io qr).1 = .ok s'
      ∧ ∀ existing, BuiltFrom crypto existing inner →
        (Inherits existing s'
          ↔ ComesOver crypto n.store.tables qr.side existing) := by
  obtain ⟨s', hinstall, hp, hr, hs, hl⟩ := @installBundle_ok crypto side
    inner.toStateBundleInner io.deviceKey.publicBytes qr.side qr.dialAddr
    io.clock io.now profile hread
  obtain ⟨-, hload⟩ := addSide_ok hadd
  obtain ⟨-, hprofile, hrelationships, hretired⟩ := loaded_left hload
  rw [awaitBundle_key hawait] at hprofile hrelationships hretired
  refine ⟨s', ?_, fun existing hbuilt => inherits_iff hbuilt hread hprofile
    hrelationships hretired hp hr hs hl⟩
  unfold NewDevice.acceptPairing
  rw [hawait]
  dsimp only
  rw [hadd]
  dsimp only
  rw [hinstall]

end calls

-- ============================================================ the theorem

/-- A pairing leaves nothing behind when it fails and brings the side over
when it succeeds iff, whenever the bundle is opened and its side added, the
profile in it decodes and, on a node that did not host the side, the side of
the existing device comes over. -/
theorem pairing_whole_iff {crypto : Crypto} (openSealed : OpenSealed crypto)
    (publicOf : Bytes 32 → Address) (n : NewDevice) (io : AcceptIo crypto)
    (qr : PairingQr) (existing : Side) :
    PairsWhole openSealed publicOf n io qr existing
      ↔ ∀ key inner side n',
        awaitBundle openSealed publicOf io qr = .ok (key, inner) →
        n.addSide crypto io.endpoint key "joined" io.created
          = (.ok side, n') →
        (∃ profile, inner.profileWire.mapM
            (ProfilePayload.fromWireBytes crypto) = .ok profile)
          ∧ (qr.side ∉ n.hosted → BuiltFrom crypto existing inner →
            ComesOver crypto n.store.tables qr.side existing) := by
  constructor
  · intro h key inner side n' hawait hadd
    cases hread : inner.profileWire.mapM
      (ProfilePayload.fromWireBytes crypto) with
    | error e =>
        obtain ⟨herror, hhosted⟩ := acceptPairing_unread hawait hadd hread
        have hsame := (h.failed _ herror).1
        rw [hhosted, (addSide_ok hadd).1] at hsame
        have hlength := congrArg List.length hsame
        simp at hlength
    | ok profile =>
        obtain ⟨s', hok, hinherits⟩ := acceptPairing_read hawait hadd hread
        refine ⟨⟨profile, rfl⟩, fun hhosted hbuilt => ?_⟩
        apply (hinherits existing hbuilt).mp
        exact h.succeeded s' key inner hok hhosted hawait hbuilt
  · intro h
    constructor
    · intro e herror
      cases hawait : awaitBundle openSealed publicOf io qr with
      | error e' =>
          rw [acceptPairing_unopened hawait]
          exact ⟨rfl, rfl⟩
      | ok opened =>
          obtain ⟨key, inner⟩ := opened
          rcases hadd : n.addSide crypto io.endpoint key "joined" io.created
            with ⟨added, n'⟩
          cases added with
          | error e' =>
              rw [acceptPairing_unadded hawait hadd]
              exact addSide_error hadd
          | ok side =>
              obtain ⟨⟨profile, hread⟩, -⟩ := h key inner side n' hawait hadd
              obtain ⟨s', hok, -⟩ := acceptPairing_read hawait hadd hread
              cases hok.symm.trans herror
    · intro s' key inner hok hhosted hawait hbuilt
      rcases hadd : n.addSide crypto io.endpoint key "joined" io.created
        with ⟨added, n'⟩
      cases added with
      | error e' =>
          rw [acceptPairing_unadded hawait hadd] at hok
          cases hok
      | ok side =>
          obtain ⟨⟨profile, hread⟩, hover⟩ := h key inner side n' hawait hadd
          obtain ⟨s'', hok', hinherits⟩ :=
            acceptPairing_read hawait hadd hread
          cases hok.symm.trans hok'
          exact (hinherits existing hbuilt).mpr (hover hhosted hbuilt)

-- ======================================================= a failing pairing

/-- What is sealed is followed by its nonce, and opens where that is there. -/
def openTagged : OpenSealed Crypto.legible :=
  fun sealedState _ _ keyNonce _ =>
    let tagAt := sealedState.length - keyNonceLen
    if sealedState.drop tagAt = keyNonce.val then .ok (sealedState.take tagAt)
    else .error .decryptionFailed

/-- The side to pair, whose seed is its key. -/
def takenSide : Signer Crypto.legible := Signer.legible (Bytes.fill _ 1)

def takenQr : PairingQr := ⟨Bytes.fill _ 1, Bytes.fill 16 2, "127.0.0.1:1"⟩

def newDeviceKey : Signer Crypto.legible := Signer.legible (Bytes.fill _ 3)

/-- A node that hosts one other side, with nothing in its store. -/
def newDevice : NewDevice := ⟨[Bytes.fill _ 4], ⟨Tables.empty, []⟩⟩

/-- A bundle that is in order but for the bytes of its profile. -/
def undecodableBundle : SeededStateBundle where
  profileWire := some [0]
  relationships := []
  retiredSides := []
  lifecycle := "Active"
  coHolders := []
  sideSeed := Bytes.fill _ 1
  bundledAt := 5

/-- The answer to the request, signed and sealed by the side. -/
def undecodableAnswer : SignedEnvelope :=
  .signWith .deviceStateBundle takenSide (some newDeviceKey.publicBytes)
    (SignedStateBundle.sign takenSide newDeviceKey.publicBytes
      (Bytes.fill _ 2) (Bytes.fill _ 6)
      (undecodableBundle.encode ++ (Bytes.fill keyNonceLen 6).val)).toWireBytes
    5 (Bytes.fill _ 7)

def undecodableIo : AcceptIo Crypto.legible where
  deviceKey := newDeviceKey
  requested := .ok ()
  stream := (sendEnvelope undecodableAnswer).toOption
  endpoint := .ok ()
  created := 5
  clock := fun _ _ => 5
  now := 5

/-- The call. -/
def undecodableCall : Except AcceptError Side × NewDevice :=
  newDevice.acceptPairing openTagged id undecodableIo takenQr

theorem undecodableCall_checked :
    undecodableCall.1.map Side.address
        = .error (.net (.core (.cborDecode "expected map, got major 0")))
      ∧ undecodableCall.2.hosted = [Bytes.fill _ 4, Bytes.fill _ 1]
      ∧ (undecodableCall.2.store.tables.sides (Bytes.fill _ 1)).isSome := by
  decide +kernel

/-- The call fails on the profile, and leaves the side hosted and its row in
the store. -/
theorem undecodable_profile_installs :
    undecodableCall.1.map Side.address
        = .error (.net (.core (.cborDecode "expected map, got major 0")))
      ∧ newDevice.hosted = [Bytes.fill _ 4]
      ∧ undecodableCall.2.hosted = [Bytes.fill _ 4, Bytes.fill _ 1]
      ∧ newDevice.store.tables.sides (Bytes.fill _ 1) = none
      ∧ (undecodableCall.2.store.tables.sides (Bytes.fill _ 1)).isSome
      ∧ ∀ existing,
        ¬ PairsWhole openTagged id newDevice undecodableIo takenQr existing := by
  obtain ⟨hfails, hhosted, hrow⟩ := undecodableCall_checked
  refine ⟨hfails, rfl, hhosted, rfl, hrow, fun existing h => ?_⟩
  have hdef : newDevice.acceptPairing openTagged id undecodableIo takenQr
      = undecodableCall := rfl
  obtain ⟨hfailed, -⟩ := h
  rw [hdef, hhosted] at hfailed
  cases hcall : undecodableCall.1 with
  | ok side =>
      rw [hcall] at hfails
      simp [Except.map] at hfails
  | error e =>
      have hlength := congrArg List.length (hfailed e hcall).1
      simp [newDevice] at hlength

end Sidevers.Proofs
