/-
Retirement of a side: what keeps it, and the delta that undoes it.

# The invariant

`Retired`: the lifecycle of the memory, the one in the side's row, and the
key the row is found under. No operation but a `LifecycleChanged` writes
another lifecycle over it, whether its store calls fail or not
(`SameRow` for those that leave the row alone).

# Where it fails

`LifecycleChanged` asks the self-retired flag, which only
`set_self_retired` sets: a side that was retired in one of the three other
ways takes any lifecycle. `StickyOk` is the condition under which no delta
does; a run meets it iff the side stays retired.
-/
import Sidevers.Proofs.Reload
import Sidevers.Proofs.CoHolders

namespace Sidevers.Proofs

open Sidevers.Core
open Sidevers.Lib
open Sidevers.Net

-- ======================================================== the side's row

/-- Nothing that concerns the lifecycle differs. -/
structure SameRow (s s' : Side) : Prop where
  address : s'.address = s.address
  keypair : s'.keypair = s.keypair
  lifecycle : s'.lifecycle = s.lifecycle
  isSelfRetired : s'.isSelfRetired = s.isSelfRetired
  sides : s'.store.tables.sides = s.store.tables.sides

theorem SameRow.refl (s : Side) : SameRow s s := ⟨rfl, rfl, rfl, rfl, rfl⟩

theorem SameRow.trans {s t u : Side} (h : SameRow s t) (h' : SameRow t u) :
    SameRow s u :=
  ⟨h'.address.trans h.address, h'.keypair.trans h.keypair,
    h'.lifecycle.trans h.lifecycle,
    h'.isSelfRetired.trans h.isSelfRetired, h'.sides.trans h.sides⟩

/-- A write to another table. -/
theorem persist_sides (s : Side) {update : Tables → Tables}
    (h : ∀ t, (update t).sides = t.sides) :
    (s.persist (SideStore.execute update)).store.tables.sides
      = s.store.tables.sides := by
  obtain ⟨t, ht, heq⟩ := Side.persist_execute s update
  rw [heq]
  rcases ht with rfl | rfl
  · rfl
  · exact h _

section sameRow

variable (s : Side)

theorem sameRow_setProfile (p : ProfilePayload) :
    SameRow s (s.setProfile p) :=
  ⟨rfl, rfl, rfl, rfl, persist_sides s fun _ => rfl⟩

theorem sameRow_clearProfile : SameRow s s.clearProfile :=
  ⟨rfl, rfl, rfl, rfl,
    persist_sides { s with profile := none } fun _ => rfl⟩

theorem sameRow_markRetiredSeen (retired : Address) (now : UInt64) :
    SameRow s (s.markRetiredSeen retired now) :=
  ⟨rfl, rfl, rfl, rfl, persist_sides s fun _ => rfl⟩

theorem sameRow_addRelationship (r : SideRelationship) :
    SameRow s (s.addRelationship r) :=
  ⟨rfl, rfl, rfl, rfl, persist_sides s fun _ => rfl⟩

theorem sameRow_removeRelationship (addr : Address) :
    SameRow s (s.removeRelationship addr) :=
  ⟨rfl, rfl, rfl, rfl, persist_sides s fun _ => rfl⟩

theorem sameRow_addCoHolder (d : Address) (addedBy : Option Address)
    (now : UInt64) : SameRow s (s.addCoHolder d addedBy now) :=
  ⟨rfl, rfl, rfl, rfl, persist_sides s fun _ => rfl⟩

theorem sameRow_removeCoHolder (d : Address) :
    SameRow s (s.removeCoHolder d) :=
  ⟨rfl, rfl, rfl, rfl, persist_sides s fun _ => rfl⟩

theorem sameRow_addRevokedDevice (d : Address) (now : UInt64) :
    SameRow s (s.addRevokedDevice d now) :=
  ⟨rfl, rfl, rfl, rfl, persist_sides s fun _ => rfl⟩

theorem sameRow_recordCoHolderAddr (d : Address) (dial : String)
    (now : UInt64) : SameRow s (s.recordCoHolderAddr d dial now) :=
  ⟨rfl, rfl, rfl, rfl, persist_sides s fun _ => rfl⟩

theorem sameRow_dropCoHolderAddr (d : Address) :
    SameRow s (s.dropCoHolderAddr d) :=
  ⟨rfl, rfl, rfl, rfl, persist_sides s fun _ => rfl⟩

/-- Every delta but a change of the lifecycle leaves the row alone. -/
theorem sameRow_applyDelta (crypto : Crypto) {op : DeltaOp}
    (appliedAt now : UInt64)
    (hop : ∀ state, op ≠ .lifecycleChanged state) :
    SameRow s (s.applyDelta crypto op appliedAt now) := by
  cases op with
  | profileUpdated wire =>
      simp only [Side.applyDelta]
      split
      case h_1 p hp =>
          unfold Side.applyProfile
          split
          · split
            · exact sameRow_setProfile s p
            · exact .refl s
          · exact sameRow_setProfile s p
      case h_2 => exact .refl s
  | profileCleared => exact sameRow_clearProfile s
  | relationshipUpserted rec =>
      simp only [Side.applyDelta, Side.applyUpsert]
      split
      · split
        · exact sameRow_addRelationship s _
        · exact .refl s
      · exact sameRow_addRelationship s _
  | relationshipRemoved addr => exact sameRow_removeRelationship s addr
  | retiredObserved addr => exact sameRow_markRetiredSeen s addr now
  | lifecycleChanged state => exact absurd rfl (hop state)
  | coHolderAdded d dial =>
      simp only [Side.applyDelta]
      split
      · exact .refl s
      · split
        · exact .refl s
        · exact (sameRow_addCoHolder s d none now).trans
            (sameRow_recordCoHolderAddr _ d dial now)
  | coHolderRemoved d =>
      exact ((sameRow_removeCoHolder s d).trans
        (sameRow_addRevokedDevice _ d now)).trans
        (sameRow_dropCoHolderAddr _ d)

end sameRow

-- ======================================================== the invariant

/-- The side's row says `Retired`. -/
def Recorded (s : Side) : Prop :=
  ∃ row, s.store.tables.sides s.address = some row
    ∧ row.lifecycle = "Retired"

/-- Retired, in the memory and in the store. -/
structure Retired (s : Side) : Prop where
  lifecycle : s.lifecycle = .retired
  recorded : Recorded s
  key : s.keypair.publicBytes = s.address

theorem Retired.of_sameRow {s s' : Side} (h : Retired s)
    (hsame : SameRow s s') : Retired s' := by
  obtain ⟨row, hrow, hlc⟩ := h.recorded
  refine ⟨hsame.lifecycle.trans h.lifecycle, ⟨row, ?_, hlc⟩, ?_⟩
  · rw [hsame.sides, hsame.address]
    exact hrow
  · rw [hsame.keypair, hsame.address]
    exact h.key

/-- Writing the row with this lifecycle records it, unless the call fails. -/
theorem recorded_write {s : Side} {last : Option UInt64}
    (h : Recorded s ∨ s.store.faults.head? ≠ some true) :
    Recorded (s.persistLastSendAndLifecycle last .retired) := by
  unfold Side.persistLastSendAndLifecycle SideStore.upsertSide
  by_cases hfault : s.store.faults.head? = some true
  case pos =>
      have hrec := h.resolve_right fun hne => hne hfault
      unfold Recorded Side.persist
      rw [SideStore.execute_snd, if_pos hfault]
      exact hrec
  case neg =>
      rw [Side.persist_execute_of_ok _ hfault]
      refine ⟨_, Table.insert_self .., ?_⟩
      cases s.store.tables.sides s.address <;> rfl

/-- The other fields survive the write. -/
theorem Retired.write {s : Side} (last : Option UInt64) (h : Retired s) :
    Retired (s.persistLastSendAndLifecycle last .retired) :=
  ⟨h.lifecycle, recorded_write (Or.inl h.recorded), h.key⟩

theorem Retired.setLifecycle {s : Side} (h : Retired s) :
    Retired (s.setLifecycle .retired) :=
  Retired.write (s := { s with lifecycle := .retired }) s.lastSendAt
    ⟨rfl, h.recorded, h.key⟩

theorem Retired.refreshLifecycle {s : Side} (h : Retired s)
    (now : UInt64) : Retired (s.refreshLifecycle now) := by
  unfold Side.refreshLifecycle
  rw [if_pos h.lifecycle]
  exact h

theorem Retired.touchSend {s : Side} (h : Retired s) (now : UInt64) :
    Retired (s.touchSend now) := by
  unfold Side.touchSend
  rw [h.lifecycle]
  exact Retired.write (s := { s with
    lastSendAt := some now, lifecycle := .retired }) (some now)
    ⟨rfl, h.recorded, h.key⟩

-- ============================================================== reloads

/-- A read that is followed by something that succeeded. -/
theorem query_bind_ok {α β : Type} {read : Tables → Except Net.Error α}
    {rest : α → StoreM β} {store : SideStore} {b : β}
    (h : ((SideStore.query read >>= rest) store).1 = .ok b) :
    ∃ a faults, read store.tables = .ok a
      ∧ (rest a ⟨store.tables, faults⟩).1 = .ok b := by
  change ((ExceptT.bindCont rest (SideStore.query read store).1)
    (SideStore.query read store).2).1 = .ok b at h
  obtain ⟨tables, faults⟩ := store
  unfold SideStore.query at h
  split at h
  case h_1 => cases h
  case h_2 =>
      cases hread : read tables with
      | error e =>
          simp only [hread] at h
          cases h
      | ok a =>
          simp only [hread] at h
          exact ⟨a, faults.tail, rfl, h⟩

/-- What a load that succeeds has of the side's row. -/
theorem loadOrCreate_row {crypto : Crypto} {key : SideKey}
    {label : Option String} {now : UInt64} {store : SideStore}
    {row : SideRow} {s : Side}
    (hrow : store.tables.sides key.publicBytes = some row)
    (hload : Side.loadOrCreate crypto key label now store = .ok s) :
    s.address = key.publicBytes ∧ s.keypair = key
      ∧ s.lifecycle = parseLifecycle row.lifecycle
      ∧ s.store.tables = store.tables
      ∧ SideStore.profileOf crypto key.publicBytes store.tables
        = .ok s.profile := by
  unfold Side.loadOrCreate Side.loadOrCreateM at hload
  obtain ⟨found, f0, hfound, hload⟩ := query_bind_ok hload
  rw [hrow] at hfound
  cases hfound
  obtain ⟨profile, f1, hprofile, hload⟩ := query_bind_ok hload
  obtain ⟨retired, f2, -, hload⟩ := query_bind_ok hload
  obtain ⟨relationships, f3, -, hload⟩ := query_bind_ok hload
  obtain ⟨coHolders, f4, -, hload⟩ := query_bind_ok hload
  obtain ⟨revoked, f5, -, hload⟩ := query_bind_ok hload
  obtain ⟨coHolderAddrs, f6, -, hload⟩ := query_bind_ok hload
  cases hload
  exact ⟨rfl, rfl, rfl, rfl, hprofile⟩

theorem Retired.reload {crypto : Crypto} {label : Option String}
    {now : UInt64} {s s' : Side} (h : Retired s)
    (hload : Side.loadOrCreate crypto s.keypair label now s.store = .ok s') :
    Retired s' := by
  obtain ⟨row, hrow, hlc⟩ := h.recorded
  obtain ⟨haddr, hkey, hlife, htables, -⟩ :=
    loadOrCreate_row (h.key ▸ hrow) hload
  refine ⟨?_, ⟨row, ?_, hlc⟩, ?_⟩
  · rw [hlife, hlc]
    decide
  · rw [htables, haddr, h.key]
    exact hrow
  · rw [hkey, haddr]

-- ============================================================ the runs

/-- What can happen to the lifecycle after a retirement. -/
inductive LifecycleAction where
  | applyDelta (op : DeltaOp) (appliedAt now : UInt64)
  | touchSend (now : UInt64)
  | refreshLifecycle (now : UInt64)
  /-- The node restarts and loads the side. -/
  | reload (label : Option String) (now : UInt64)

/-- One step; a load may fail. -/
def lifecycleStep (crypto : Crypto) (s : Side) :
    LifecycleAction → Option Side
  | .applyDelta op appliedAt now =>
      some (s.applyDelta crypto op appliedAt now)
  | .touchSend now => some (s.touchSend now)
  | .refreshLifecycle now => some (s.refreshLifecycle now)
  | .reload label now =>
      match Side.loadOrCreate crypto s.keypair label now s.store with
      | .ok s' => some s'
      | .error _ => none

/-- The deltas that keep a retirement: a change of the lifecycle to `Retired`
itself, or on a side with the self-retired flag; any other. -/
def StickyOk (s : Side) : LifecycleAction → Prop
  | .applyDelta (.lifecycleChanged state) _ _ =>
      s.isSelfRetired = true ∨ state = "Retired"
  | _ => True

theorem retired_step {crypto : Crypto} {s s' : Side} {a : LifecycleAction}
    (hok : StickyOk s a) (h : Retired s)
    (hstep : lifecycleStep crypto s a = some s') : Retired s' := by
  cases a with
  | applyDelta op appliedAt now =>
      injection hstep with hstep
      subst hstep
      by_cases hop : ∃ state, op = .lifecycleChanged state
      case neg =>
          exact h.of_sameRow (sameRow_applyDelta s crypto appliedAt now
            fun state heq => hop ⟨state, heq⟩)
      case pos =>
          obtain ⟨state, rfl⟩ := hop
          simp only [Side.applyDelta]
          split
          case isTrue => exact h
          case isFalse hflag =>
              obtain rfl := hok.resolve_left hflag
              exact h.setLifecycle
  | touchSend now =>
      injection hstep with hstep
      exact hstep ▸ h.touchSend now
  | refreshLifecycle now =>
      injection hstep with hstep
      exact hstep ▸ h.refreshLifecycle now
  | reload label now =>
      simp only [lifecycleStep] at hstep
      split at hstep
      case h_1 t hload =>
          injection hstep with hstep
          exact hstep ▸ h.reload hload
      case h_2 => cases hstep

/-- Only one label reads as `Retired`. -/
theorem parseLifecycle_eq_retired {state : String}
    (h : parseLifecycle state = .retired) : state = "Retired" := by
  unfold parseLifecycle at h
  split at h
  · cases h
  · split at h
    · cases h
    · split at h
      case isTrue heq => exact heq
      case isFalse => cases h

/-- Any other delta undoes the retirement. -/
theorem unretired {crypto : Crypto} {s : Side} {a : LifecycleAction}
    (hnot : ¬ StickyOk s a) :
    ∃ s', lifecycleStep crypto s a = some s' ∧ ¬ s'.lifecycle = .retired := by
  cases a with
  | applyDelta op appliedAt now =>
      cases op with
      | lifecycleChanged state =>
          obtain ⟨hflag, hstate⟩ := not_or.mp hnot
          refine ⟨_, rfl, ?_⟩
          simp only [Side.applyDelta]
          rw [if_neg hflag]
          exact fun heq => hstate (parseLifecycle_eq_retired heq)
      | _ => exact absurd trivial hnot
  | _ => exact absurd trivial hnot

-- ========================================================== retirements

/-- The ways a side is retired. -/
inductive Retirement where
  | publishRetirement (clock : Option UInt64)
  | retireSide (clock : Option UInt64)
  /-- `LifecycleChanged{"Retired"}`. -/
  | delta (appliedAt now : UInt64)
  | bundle (bundle : StateBundleInner) (devicePubkey existing : Address)
      (dialAddr : String) (clock : Nat → Nat → UInt64) (now : UInt64)

/-- The side after it. -/
def retire (crypto : Crypto) (s : Side) : Retirement → Side
  | .publishRetirement clock => s.publishRetirement clock
  | .retireSide clock => s.retireSide clock
  | .delta appliedAt now =>
      s.applyDelta crypto (.lifecycleChanged "Retired") appliedAt now
  | .bundle bundle devicePubkey existing dialAddr clock now =>
      (s.installBundle crypto bundle devicePubkey existing dialAddr clock
        now).2

/-- The next call of the store does not fail. -/
def CallOk (s : Side) : Prop := s.store.faults.head? ≠ some true

/-- It retires the side, and its write of the side's row does not fail
(`set_self_retired` writes it twice). -/
def Retires (crypto : Crypto) (s : Side) : Retirement → Prop
  | .publishRetirement clock =>
      clock ≠ none ∧ ¬ (s.store.faults.head? = some true
        ∧ s.store.faults.tail.head? = some true)
  | .retireSide clock => clock ≠ none ∧ CallOk s
  | .delta _ _ => s.isSelfRetired = false ∧ CallOk s
  | .bundle bundle devicePubkey _ _ clock _ =>
      bundle.lifecycle = "Retired"
        ∧ ∃ t, s.replayBundle crypto bundle devicePubkey clock = (.ok (), t)
          ∧ CallOk t

/-- A loop whose body leaves the row alone does. -/
theorem sameRow_forEach {α : Type} {f : Side → α → UInt64 → Side}
    (hf : ∀ s item now, SameRow s (f s item now)) (items : List α) :
    ∀ (s : Side) (clock : Nat → UInt64),
      SameRow s (s.forEach f items clock) := by
  induction items with
  | nil => exact fun s _ => .refl s
  | cons item rest ih => exact fun s clock => (hf s item _).trans (ih _ _)

theorem sameRow_replayBundle {crypto : Crypto} {s t : Side}
    {bundle : StateBundleInner} {devicePubkey : Address}
    {clock : Nat → Nat → UInt64}
    (h : s.replayBundle crypto bundle devicePubkey clock = (.ok (), t)) :
    SameRow s t := by
  unfold Side.replayBundle at h
  split at h
  case h_1 => cases h
  case h_2 profile hp =>
      cases h
      refine ((SameRow.trans ?_ (sameRow_forEach ?_ _ _ _)).trans
        (sameRow_forEach ?_ _ _ _)).trans (sameRow_forEach ?_ _ _ _)
      · cases profile with
        | none => exact .refl s
        | some p => exact sameRow_setProfile s p
      · exact fun s rec _ => sameRow_addRelationship s _
      · exact sameRow_markRetiredSeen
      · intro s dev now
        split
        · exact .refl s
        · exact sameRow_addCoHolder s dev none now

theorem retired_setLifecycle {s : Side}
    (hkey : s.keypair.publicBytes = s.address) (hcall : CallOk s) :
    Retired (s.setLifecycle .retired) :=
  ⟨rfl, recorded_write (s := { s with lifecycle := .retired })
    (Or.inr hcall), hkey⟩

theorem retired_setSelfRetired {s : Side}
    (hkey : s.keypair.publicBytes = s.address)
    (hcalls : ¬ (s.store.faults.head? = some true
      ∧ s.store.faults.tail.head? = some true)) :
    Retired s.setSelfRetired := by
  refine ⟨rfl, ?_, hkey⟩
  refine recorded_write
    (s := ({ s with isSelfRetired := true }).setLifecycle .retired) ?_
  by_cases hfirst : s.store.faults.head? = some true
  case neg =>
      exact Or.inl (recorded_write (s := { s with
        isSelfRetired := true, lifecycle := .retired }) (Or.inr hfirst))
  case pos =>
      refine Or.inr fun hsecond => hcalls ⟨hfirst, ?_⟩
      -- the first write used up one call
      have htail : (({ s with isSelfRetired := true }).setLifecycle
          .retired).store.faults = s.store.faults.tail := faults_persist ..
      rw [← htail]
      exact hsecond

theorem retired_of_retires {crypto : Crypto} {s : Side} {how : Retirement}
    (hkey : s.keypair.publicBytes = s.address)
    (h : Retires crypto s how) : Retired (retire crypto s how) := by
  cases how with
  | publishRetirement clock =>
      obtain ⟨hclock, hcalls⟩ := h
      cases clock with
      | none => exact absurd rfl hclock
      | some now => exact retired_setSelfRetired hkey hcalls
  | retireSide clock =>
      obtain ⟨hclock, hcall⟩ := h
      cases clock with
      | none => exact absurd rfl hclock
      | some now => exact retired_setLifecycle hkey hcall
  | delta appliedAt now =>
      obtain ⟨hflag, hcall⟩ := h
      show Retired (if s.isSelfRetired then s else _)
      rw [hflag]
      exact retired_setLifecycle hkey hcall
  | bundle bundle devicePubkey existing dialAddr clock now =>
      obtain ⟨hlc, t, hreplay, hcall⟩ := h
      show Retired (s.installBundle crypto bundle devicePubkey existing
        dialAddr clock now).2
      unfold Side.installBundle
      rw [hreplay, hlc]
      have hsame := sameRow_replayBundle hreplay
      have hset : Retired (t.setLifecycle .retired) :=
        retired_setLifecycle
          (by rw [hsame.keypair, hsame.address]; exact hkey) hcall
      exact hset.of_sameRow ((sameRow_recordCoHolderAddr _ existing dialAddr
        now).trans (sameRow_addCoHolder _ existing (some devicePubkey) now))

-- ============================================================== result

/-- A side stays retired exactly as long as every delta that changes its
lifecycle says `Retired` or finds the self-retired flag. -/
theorem retirement_sticky (crypto : Crypto) (s : Side) (how : Retirement)
    (hkey : s.keypair.publicBytes = s.address)
    (hretires : Retires crypto s how) (acts : List LifecycleAction) :
    (∀ as bs s', as ++ bs = acts →
      run (lifecycleStep crypto) (retire crypto s how) as = some s' →
      s'.lifecycle = .retired)
    ↔ Along (lifecycleStep crypto) StickyOk (retire crypto s how) acts :=
  along_iff (fun _ h => h.lifecycle)
    (fun _ _ _ hok h hstep => retired_step hok h hstep)
    (fun _ _ _ hnot => unretired hnot) (retired_of_retires hkey hretires)

/-- A delta of a co-holder that still says `Active`. -/
def staleActive : LifecycleAction :=
  .applyDelta (.lifecycleChanged "Active") 0 0

/-- With the flag, the stale delta changes nothing, also after a reload. -/
theorem retirement_sticky_published :
    ∃ s, run (lifecycleStep Crypto.refusing)
        (retire Crypto.refusing bareSide (.publishRetirement (some 1)))
        [.touchSend 5, .reload none 6, staleActive] = some s
      ∧ s.lifecycle = .retired := by
  have hsticky := (retirement_sticky Crypto.refusing bareSide
    (.publishRetirement (some 1)) rfl ⟨nofun, by decide⟩
    [.touchSend 5, .reload none 6, staleActive]).mpr
  refine ⟨_, rfl, hsticky ?_ _ [] _ (List.append_nil _) rfl⟩
  refine ⟨trivial, fun s hs => ?_⟩
  cases hs
  refine ⟨trivial, fun s hs => ?_⟩
  cases hs
  exact ⟨Or.inl (by decide), fun _ _ => trivial⟩

/-- Without it, the side is active again. -/
theorem stale_delta_unretires :
    (retire Crypto.refusing bareSide (.retireSide (some 1))).lifecycle
        = .retired
      ∧ (run (lifecycleStep Crypto.refusing)
          (retire Crypto.refusing bareSide (.retireSide (some 1)))
          [staleActive]).map Side.lifecycle = some .active :=
  ⟨rfl, by decide⟩

end Sidevers.Proofs
