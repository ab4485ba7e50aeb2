/-
Co-holder convergence: what devices of one side end up with after applying
the same state deltas in their own orders.

# Registers

Every part of the synchronised state is a register that one kind of op, or
two, write (`Lib.Lww`): the profile, each relationship, each retired side,
the lifecycle, each revoked device. What an op does to a register is an
`Effect`, so what a delta does is the collapse of its ops, and a device's
deliveries are a run of these effects (`deliver_view`).

The co-holder set is the exception: an addition asks whether the device is
revoked. A device's pair of flags is a two-state machine of its own, whose
end state depends on which ops were delivered and not on their order
(`deviceRun_eq`).

# What converges

Retired sides, revoked devices and co-holders always. Profile and
relationships exactly when the deltas agree on a last value
(`Effect.Convergent`); the code's removal and clear are unconditional and
`applied_at` is not looked at, so an upsert and a removal of one contact do
not. Lifecycle changes are unconditional too, and a device that published
its own retirement ignores them.
-/
import Sidevers.Lib.Lww
import Sidevers.Net.Side
import Mathlib.Order.Nat

namespace Sidevers.Proofs

open Sidevers.Core
open Sidevers.Lib
open Sidevers.Net

-- ================================================= synchronised state

/-- A relationship without its local-only endpoint. -/
def shared (r : SideRelationship) : SideRelationship :=
  { r with peerListenAddr := none }

/-- What co-holders synchronise. -/
@[ext]
structure SyncState where
  profile : Option ProfilePayload
  relationships : Table Address SideRelationship
  retired : Table Address Unit
  lifecycle : SideLifecycle
  coHolders : Table Address Unit
  revoked : Table Address Unit

/-- The synchronised state of a device. -/
def syncState (s : Side) : SyncState where
  profile := s.profile
  relationships := fun addr => (s.relationships addr).map shared
  retired := s.retiredSidesSeen
  lifecycle := s.lifecycle
  coHolders := fun d => (s.coHolders d).map fun _ => ()
  revoked := s.revokedDevices

/-- A delta reaching a device, and its clock readings while it applies it. -/
structure Delivery where
  delta : StateDeltaPayload
  clock : Nat → UInt64

/-- A device after a list of deliveries. -/
def deliver (crypto : Crypto) (s : Side) (ds : List Delivery) : Side :=
  ds.foldl (fun s d => s.handleStateDelta crypto d.delta d.clock) s

/-- The ops of a delta a side applies. -/
def opsFor (side : Address) (delta : StateDeltaPayload) : List DeltaOp :=
  if delta.side = side then delta.ops else []

-- ========================================================= the writes

/-- `updated_at`, as a stamp. -/
def profileStamp (p : ProfilePayload) : Nat := p.updatedAt.toNat

/-- `added_at`, as a stamp. -/
def relationshipStamp (r : SideRelationship) : Nat := r.addedAt.toNat

/-- What an op does to the profile. -/
def profileWrite (crypto : Crypto) : DeltaOp → Effect ProfilePayload
  | .profileUpdated wire =>
      match ProfilePayload.fromWireBytes crypto wire with
      | .ok p => .put p
      | .error _ => .keep
  | .profileCleared => .set none
  | _ => .keep

/-- What an op does to the relationship with `addr`. -/
def relationshipWrite (addr : Address) : DeltaOp → Effect SideRelationship
  | .relationshipUpserted rec =>
      if rec.address = addr then .put (relationshipFromRecord rec) else .keep
  | .relationshipRemoved a => if a = addr then .set none else .keep
  | _ => .keep

/-- What an op does to the observation that `addr` retired. -/
def retiredWrite (addr : Address) : DeltaOp → Effect Unit
  | .retiredObserved a => if a = addr then .put () else .keep
  | _ => .keep

/-- What an op does to the lifecycle; a side that retired itself keeps
its own. -/
def lifecycleWrite (selfRetired : Bool) : DeltaOp → Effect SideLifecycle
  | .lifecycleChanged state =>
      if selfRetired then .keep else .set (some (parseLifecycle state))
  | _ => .keep

/-- Two flags of a device: is it a co-holder, is it revoked? -/
abbrev DeviceFlags := Option Unit × Option Unit

/-- What an op does to the flags of `d`. -/
def deviceWrite (side d : Address) (op : DeltaOp) (flags : DeviceFlags) :
    DeviceFlags :=
  match op with
  | .coHolderAdded d' _ =>
      if d' = d ∧ d ≠ side ∧ flags.2 = none then (some (), flags.2) else flags
  | .coHolderRemoved d' => if d' = d then (none, some ()) else flags
  | _ => flags

/-- The flags a device has on a side. -/
def deviceFlags (s : Side) (d : Address) : DeviceFlags :=
  ((s.coHolders d).map fun _ => (), s.revokedDevices d)

/-- Stamps of registers whose values carry none. -/
def unstamped {V : Type} (_ : V) : Nat := 0

-- ======================================================= the step lemma

/-- What one op does to a side's memory, register by register. -/
structure Steps (crypto : Crypto) (op : DeltaOp) (s s' : Side) : Prop where
  address : s'.address = s.address
  isSelfRetired : s'.isSelfRetired = s.isSelfRetired
  profile : s'.profile
    = (profileWrite crypto op).apply profileStamp s.profile
  relationships : ∀ a, (s'.relationships a).map shared
    = (relationshipWrite a op).apply relationshipStamp
        ((s.relationships a).map shared)
  retired : ∀ a, s'.retiredSidesSeen a
    = (retiredWrite a op).apply unstamped (s.retiredSidesSeen a)
  lifecycle : some s'.lifecycle
    = (lifecycleWrite s.isSelfRetired op).apply unstamped (some s.lifecycle)
  devices : ∀ d, deviceFlags s' d
    = deviceWrite s.address d op (deviceFlags s d)

/-- An offer is taken exactly when the code's comparison says so. -/
theorem putValue_profile (p : ProfilePayload) (cur : ProfilePayload) :
    Effect.putValue profileStamp p (some cur)
      = if p.updatedAt ≥ cur.updatedAt then some p else some cur := by
  unfold Effect.putValue profileStamp
  simp only [ge_iff_le, UInt64.le_iff_toNat_le]

theorem putValue_relationship (r cur : SideRelationship) :
    Effect.putValue relationshipStamp r (some cur)
      = if r.addedAt ≥ cur.addedAt then some r else some cur := by
  unfold Effect.putValue relationshipStamp
  simp only [ge_iff_le, UInt64.le_iff_toNat_le]

/-- An op that does nothing. -/
theorem steps_refl {crypto : Crypto} {op : DeltaOp} {s : Side}
    (hprofile : profileWrite crypto op = .keep)
    (hrel : ∀ a, (relationshipWrite a op).apply relationshipStamp
      ((s.relationships a).map shared) = (s.relationships a).map shared)
    (hret : ∀ a, retiredWrite a op = .keep)
    (hlc : lifecycleWrite s.isSelfRetired op = .keep)
    (hdev : ∀ d, deviceWrite s.address d op (deviceFlags s d)
      = deviceFlags s d) : Steps crypto op s s := by
  constructor
  · rfl
  · rfl
  · rw [hprofile]
    rfl
  · exact fun a => (hrel a).symm
  · intro a
    rw [hret]
    rfl
  · rw [hlc]
    rfl
  · exact fun d => (hdev d).symm

theorem steps_profileUpdated (crypto : Crypto) (s : Side)
    (wire : List UInt8) (appliedAt now : UInt64) :
    Steps crypto (.profileUpdated wire) s
      (s.applyDelta crypto (.profileUpdated wire) appliedAt now) := by
  simp only [Side.applyDelta]
  cases hparse : ProfilePayload.fromWireBytes crypto wire with
  | error e =>
      exact steps_refl (by simp only [profileWrite, hparse]) (fun _ => rfl)
        (fun _ => rfl) rfl (fun _ => rfl)
  | ok p =>
      have hset : Effect.putValue profileStamp p s.profile = some p →
          Steps crypto (.profileUpdated wire) s (s.setProfile p) := by
        intro hput
        constructor
        · rfl
        · rfl
        · simp only [profileWrite, hparse, Effect.apply, hput]
          rfl
        · exact fun _ => rfl
        · exact fun _ => rfl
        · rfl
        · exact fun _ => rfl
      show Steps crypto (.profileUpdated wire) s (s.applyProfile p)
      unfold Side.applyProfile
      cases hcur : s.profile with
      | none => exact hset (by rw [hcur]; rfl)
      | some cur =>
          by_cases hge : p.updatedAt ≥ cur.updatedAt
          · simp only [if_pos hge]
            exact hset (by rw [hcur, putValue_profile, if_pos hge])
          · simp only [if_neg hge]
            constructor
            · rfl
            · rfl
            · simp only [profileWrite, hparse, Effect.apply]
              rw [hcur, putValue_profile, if_neg hge]
            · exact fun _ => rfl
            · exact fun _ => rfl
            · rfl
            · exact fun _ => rfl

/-- Sharing forgets nothing an offer of a record looks at. -/
theorem map_shared_putValue (rec : RelationshipRecord)
    (cur : Option SideRelationship) :
    (Effect.putValue relationshipStamp (relationshipFromRecord rec)
        cur).map shared
      = Effect.putValue relationshipStamp (relationshipFromRecord rec)
          (cur.map shared) := by
  cases cur with
  | none => rfl
  | some cur =>
      rw [putValue_relationship, Option.map_some, putValue_relationship]
      show Option.map shared (if _ then _ else _)
        = if (relationshipFromRecord rec).addedAt ≥ cur.addedAt
            then some (relationshipFromRecord rec) else some (shared cur)
      split
      · rfl
      · rfl

/-- The upsert arm, as an offer to the relationship's register. -/
theorem relationships_applyUpsert (s : Side) (r : SideRelationship)
    (a : Address) : (s.applyUpsert r).relationships a
      = if r.address = a
        then Effect.putValue relationshipStamp r (s.relationships a)
        else s.relationships a := by
  have hadd : (s.addRelationship r).relationships
      = Table.insert s.relationships r.address r := rfl
  unfold Side.applyUpsert
  by_cases haddr : r.address = a
  · subst haddr
    rw [if_pos rfl]
    cases hcur : s.relationships r.address with
    | none =>
        dsimp only
        rw [hadd, Table.insert_self]
        rfl
    | some cur =>
        rw [putValue_relationship]
        dsimp only
        split
        · rw [hadd, Table.insert_self]
        · exact hcur
  · have hne : a ≠ r.address := fun h => haddr h.symm
    rw [if_neg haddr]
    split
    · split
      · rw [hadd, Table.insert_of_ne _ _ hne]
      · rfl
    · rw [hadd, Table.insert_of_ne _ _ hne]

theorem steps_relationshipUpserted (crypto : Crypto) (s : Side)
    (rec : RelationshipRecord) (appliedAt now : UInt64) :
    Steps crypto (.relationshipUpserted rec) s
      (s.applyDelta crypto (.relationshipUpserted rec) appliedAt now) := by
  show Steps crypto _ s (s.applyUpsert (relationshipFromRecord rec))
  have hother : ∀ (r : SideRelationship),
      (s.applyUpsert r) = s ∨ (s.applyUpsert r) = s.addRelationship r := by
    intro r
    unfold Side.applyUpsert
    split
    · split
      · exact Or.inr rfl
      · exact Or.inl rfl
    · exact Or.inr rfl
  have hrel : ∀ a, ((s.applyUpsert (relationshipFromRecord rec)).relationships
      a).map shared = (relationshipWrite a (.relationshipUpserted rec)).apply
        relationshipStamp ((s.relationships a).map shared) := by
    intro a
    rw [relationships_applyUpsert]
    simp only [relationshipWrite]
    show Option.map shared (if rec.address = a then _ else _) = _
    split
    · exact map_shared_putValue rec _
    · rfl
  rcases hother (relationshipFromRecord rec) with heq | heq
  · rw [heq] at hrel ⊢
    exact ⟨rfl, rfl, rfl, hrel, fun _ => rfl, rfl, fun _ => rfl⟩
  · rw [heq] at hrel ⊢
    exact ⟨rfl, rfl, rfl, hrel, fun _ => rfl, rfl, fun _ => rfl⟩

theorem steps_relationshipRemoved (crypto : Crypto) (s : Side)
    (addr : Address) (appliedAt now : UInt64) :
    Steps crypto (.relationshipRemoved addr) s
      (s.applyDelta crypto (.relationshipRemoved addr) appliedAt now) := by
  show Steps crypto _ s (s.removeRelationship addr)
  refine ⟨rfl, rfl, rfl, fun a => ?_, fun _ => rfl, rfl, fun _ => rfl⟩
  show (Table.erase s.relationships addr a).map shared = _
  simp only [relationshipWrite]
  by_cases ha : addr = a
  · rw [if_pos ha, ha, Table.erase_self]
    rfl
  · rw [if_neg ha, Table.erase_of_ne _ (fun h => ha h.symm)]
    rfl

theorem steps_retiredObserved (crypto : Crypto) (s : Side)
    (addr : Address) (appliedAt now : UInt64) :
    Steps crypto (.retiredObserved addr) s
      (s.applyDelta crypto (.retiredObserved addr) appliedAt now) := by
  show Steps crypto _ s (s.markRetiredSeen addr now)
  refine ⟨rfl, rfl, rfl, fun _ => rfl, fun a => ?_, rfl, fun _ => rfl⟩
  show Table.insert s.retiredSidesSeen addr () a = _
  simp only [retiredWrite]
  by_cases ha : addr = a
  · rw [if_pos ha, ha, Table.insert_self]
    cases s.retiredSidesSeen a <;> rfl
  · rw [if_neg ha, Table.insert_of_ne _ _ (fun h => ha h.symm)]
    rfl

theorem steps_lifecycleChanged (crypto : Crypto) (s : Side)
    (state : String) (appliedAt now : UInt64) :
    Steps crypto (.lifecycleChanged state) s
      (s.applyDelta crypto (.lifecycleChanged state) appliedAt now) := by
  simp only [Side.applyDelta]
  split
  case isTrue hretired =>
    refine steps_refl rfl (fun _ => rfl) (fun _ => rfl) ?_ (fun _ => rfl)
    simp only [lifecycleWrite, if_pos hretired]
  case isFalse hactive =>
    refine ⟨rfl, rfl, rfl, fun _ => rfl, fun _ => rfl, ?_, fun _ => rfl⟩
    simp only [lifecycleWrite, if_neg hactive]
    rfl

theorem steps_coHolderAdded (crypto : Crypto) (s : Side) (d : Address)
    (dial : String) (appliedAt now : UInt64) :
    Steps crypto (.coHolderAdded d dial) s
      (s.applyDelta crypto (.coHolderAdded d dial) appliedAt now) := by
  simp only [Side.applyDelta]
  split
  case isTrue hself =>
    refine steps_refl rfl (fun _ => rfl) (fun _ => rfl) rfl fun d' => ?_
    simp only [deviceWrite]
    refine if_neg fun h => ?_
    obtain ⟨heq, hne, -⟩ := h
    exact hne (heq ▸ hself)
  case isFalse hother =>
    split
    case isTrue hrevoked =>
      refine steps_refl rfl (fun _ => rfl) (fun _ => rfl) rfl fun d' => ?_
      simp only [deviceWrite]
      refine if_neg fun h => ?_
      obtain ⟨heq, -, hnone⟩ := h
      rw [← heq] at hnone
      rw [show s.revokedDevices d = none from hnone] at hrevoked
      cases hrevoked
    case isFalse hun =>
      have hnone : s.revokedDevices d = none := by simpa using hun
      simp only [Side.addCoHolder, Side.recordCoHolderAddr]
      refine ⟨rfl, rfl, rfl, fun _ => rfl, fun _ => rfl, rfl, fun d' => ?_⟩
      simp only [deviceWrite]
      show ((s.coHolders.insert d ⟨d, now, none⟩ d').map fun _ => (),
        s.revokedDevices d') = _
      by_cases hd : d = d'
      · subst hd
        rw [if_pos ⟨rfl, hother, hnone⟩, Table.insert_self]
        rfl
      · rw [if_neg fun h => hd h.1,
          Table.insert_of_ne _ _ fun h => hd h.symm]
        rfl

theorem steps_coHolderRemoved (crypto : Crypto) (s : Side) (d : Address)
    (appliedAt now : UInt64) :
    Steps crypto (.coHolderRemoved d) s
      (s.applyDelta crypto (.coHolderRemoved d) appliedAt now) := by
  simp only [Side.applyDelta, Side.removeCoHolder, Side.addRevokedDevice,
    Side.dropCoHolderAddr]
  constructor
  · simp only [Side.persist_address]
  · simp only [Side.persist_isSelfRetired]
  · simp only [Side.persist_profile]
    rfl
  · intro a
    simp only [Side.persist_relationships]
    rfl
  · intro a
    simp only [Side.persist_retiredSidesSeen]
    rfl
  · simp only [Side.persist_lifecycle]
    rfl
  · intro d'
    simp only [deviceFlags, deviceWrite, Side.persist_coHolders,
      Side.persist_revokedDevices]
    by_cases hd : d = d'
    · subst hd
      rw [if_pos rfl, Table.erase_self, Table.insert_self]
      rfl
    · rw [if_neg hd, Table.erase_of_ne _ fun h => hd h.symm,
        Table.insert_of_ne _ _ fun h => hd h.symm]

/-- Step lemma: every op does to every register what it is said to. -/
theorem steps_applyDelta (crypto : Crypto) (s : Side) (op : DeltaOp)
    (appliedAt now : UInt64) :
    Steps crypto op s (s.applyDelta crypto op appliedAt now) := by
  cases op with
  | profileUpdated wire => exact steps_profileUpdated ..
  | profileCleared =>
      exact ⟨rfl, rfl, rfl, fun _ => rfl, fun _ => rfl, rfl, fun _ => rfl⟩
  | relationshipUpserted rec => exact steps_relationshipUpserted ..
  | relationshipRemoved addr => exact steps_relationshipRemoved ..
  | retiredObserved addr => exact steps_retiredObserved ..
  | lifecycleChanged state => exact steps_lifecycleChanged ..
  | coHolderAdded d dial => exact steps_coHolderAdded ..
  | coHolderRemoved d => exact steps_coHolderRemoved ..

-- ============================================================ the runs

section run

variable {crypto : Crypto} {X : Type} (view : Side → X)
  (act : X → DeltaOp → X) {side : Address} {selfRetired : Bool}

/-- The two fields no delta touches. -/
def Fixed (side : Address) (selfRetired : Bool) (s : Side) : Prop :=
  s.address = side ∧ s.isSelfRetired = selfRetired

/-- A view that follows every op follows a list of them. -/
theorem applyOps_view
    (hstep : ∀ op s s', Fixed side selfRetired s → Steps crypto op s s' →
      view s' = act (view s) op)
    (appliedAt : UInt64) (ops : List DeltaOp) :
    ∀ (clock : Nat → UInt64) (s : Side), Fixed side selfRetired s →
      Fixed side selfRetired (s.applyOps crypto appliedAt clock ops)
        ∧ view (s.applyOps crypto appliedAt clock ops)
          = ops.foldl act (view s) := by
  induction ops with
  | nil => exact fun _ _ hfix => ⟨hfix, rfl⟩
  | cons op ops ih =>
      intro clock s hfix
      have h := steps_applyDelta crypto s op appliedAt (clock 0)
      have hfix' : Fixed side selfRetired
          (s.applyDelta crypto op appliedAt (clock 0)) :=
        ⟨h.address.trans hfix.1, h.isSelfRetired.trans hfix.2⟩
      obtain ⟨hend, hview⟩ := ih (fun i => clock (i + 1)) _ hfix'
      refine ⟨hend, ?_⟩
      rw [Side.applyOps, hview, hstep op s _ hfix h, List.foldl_cons]

/-- Run lemma: and so it follows a list of deliveries. -/
theorem deliver_view
    (hstep : ∀ op s s', Fixed side selfRetired s → Steps crypto op s s' →
      view s' = act (view s) op)
    (ds : List Delivery) :
    ∀ s : Side, Fixed side selfRetired s →
      view (deliver crypto s ds)
        = ((ds.map Delivery.delta).flatMap (opsFor side)).foldl act
            (view s) := by
  induction ds with
  | nil => exact fun _ _ => rfl
  | cons d ds ih =>
      intro s hfix
      have hone : Fixed side selfRetired
            (s.handleStateDelta crypto d.delta d.clock)
          ∧ view (s.handleStateDelta crypto d.delta d.clock)
            = (opsFor side d.delta).foldl act (view s) := by
        unfold Side.handleStateDelta opsFor
        rw [hfix.1]
        by_cases hside : d.delta.side = side
        · rw [if_neg (not_not.mpr hside), if_pos hside]
          exact applyOps_view view act hstep _ _ _ _ hfix
        · rw [if_pos hside, if_neg hside]
          exact ⟨hfix, rfl⟩
      show view (deliver crypto (s.handleStateDelta crypto d.delta d.clock) ds)
        = _
      rw [ih _ hone.1, hone.2, List.map_cons, List.flatMap_cons,
        List.foldl_append]

end run

/-- What a delta does to a register: the collapse of its ops' writes. -/
def deltaWrite {V : Type} (stamp : V → Nat) (side : Address)
    (write : DeltaOp → Effect V) (delta : StateDeltaPayload) : Effect V :=
  Effect.collapse stamp ((opsFor side delta).map write)

/-- A register after the ops of some deltas is a run of what the deltas
do to it. -/
theorem foldl_opsFor {V : Type} (stamp : V → Nat) (side : Address)
    (write : DeltaOp → Effect V) (deltas : List StateDeltaPayload) :
    ∀ x : Option V,
      (deltas.flatMap (opsFor side)).foldl
          (fun x op => (write op).apply stamp x) x
        = Effect.run stamp x (deltas.map (deltaWrite stamp side write)) := by
  induction deltas with
  | nil => exact fun _ => rfl
  | cons delta deltas ih =>
      intro x
      have hone : (opsFor side delta).foldl
          (fun x op => (write op).apply stamp x) x
            = (deltaWrite stamp side write delta).apply stamp x := by
        unfold deltaWrite
        rw [Effect.apply_collapse]
        unfold Effect.run
        rw [List.foldl_map]
      rw [List.flatMap_cons, List.foldl_append, ih, List.map_cons,
        Effect.run_cons, hone]

-- ======================================================= device flags

/-- The flags of a device after some ops. -/
def deviceRun (side d : Address) (flags : DeviceFlags)
    (ops : List DeltaOp) : DeviceFlags :=
  ops.foldl (fun flags op => deviceWrite side d op flags) flags

/-- The ops add the device. -/
def Adds (d : Address) (ops : List DeltaOp) : Prop :=
  ∃ dial, DeltaOp.coHolderAdded d dial ∈ ops

/-- Ops that leave the flags alone. -/
theorem deviceRun_of_forall {side d : Address} {flags : DeviceFlags}
    {ops : List DeltaOp}
    (h : ∀ op ∈ ops, deviceWrite side d op flags = flags) :
    deviceRun side d flags ops = flags := by
  induction ops with
  | nil => rfl
  | cons op ops ih =>
      show deviceRun side d (deviceWrite side d op flags) ops = flags
      rw [h op List.mem_cons_self]
      exact ih fun op' hop' => h op' (List.mem_cons_of_mem _ hop')

/-- Nothing but a removal touches the revocation. -/
theorem deviceRun_snd {side d : Address} {ops : List DeltaOp}
    (h : .coHolderRemoved d ∉ ops) (flags : DeviceFlags) :
    (deviceRun side d flags ops).2 = flags.2 := by
  induction ops generalizing flags with
  | nil => rfl
  | cons op ops ih =>
      have hone : (deviceWrite side d op flags).2 = flags.2 := by
        cases op with
        | coHolderAdded d' dial =>
            simp only [deviceWrite]
            split <;> rfl
        | coHolderRemoved d' =>
            have hne : d' ≠ d := by
              intro heq
              exact h (heq ▸ List.mem_cons_self)
            simp only [deviceWrite, if_neg hne]
        | _ => rfl
      show (deviceRun side d (deviceWrite side d op flags) ops).2 = flags.2
      rw [ih (fun hmem => h (List.mem_cons_of_mem _ hmem)), hone]

/-- A removal decides, wherever it stands. -/
theorem deviceRun_of_removed {side d : Address} {ops : List DeltaOp}
    (h : .coHolderRemoved d ∈ ops) (flags : DeviceFlags) :
    deviceRun side d flags ops = (none, some ()) := by
  obtain ⟨pre, post, rfl⟩ := List.append_of_mem h
  have hone : ∀ flags, deviceWrite side d (.coHolderRemoved d) flags
      = (none, some ()) := fun _ => if_pos rfl
  unfold deviceRun
  rw [List.foldl_append, List.foldl_cons, hone]
  refine deviceRun_of_forall fun op _ => ?_
  cases op with
  | coHolderAdded d' dial => exact if_neg fun h => Option.some_ne_none () h.2.2
  | coHolderRemoved d' => exact ite_self _
  | _ => rfl

/-- Without a removal, an addition of an unrevoked device counts. -/
theorem deviceRun_of_added {side d : Address} {ops : List DeltaOp}
    {flags : DeviceFlags} (hrem : .coHolderRemoved d ∉ ops)
    (hadd : Adds d ops) (hside : d ≠ side) (hflag : flags.2 = none) :
    deviceRun side d flags ops = (some (), none) := by
  obtain ⟨dial, hmem⟩ := hadd
  obtain ⟨pre, post, rfl⟩ := List.append_of_mem hmem
  have hpre : (deviceRun side d flags pre).2 = none := by
    rw [deviceRun_snd (fun hmem => hrem (List.mem_append_left _ hmem)), hflag]
  have hone : deviceWrite side d (.coHolderAdded d dial)
      (deviceRun side d flags pre) = (some (), none) := by
    simp only [deviceWrite, hpre]
    exact if_pos ⟨trivial, hside, trivial⟩
  unfold deviceRun at hone ⊢
  rw [List.foldl_append, List.foldl_cons, hone]
  refine deviceRun_of_forall fun op hop => ?_
  cases op with
  | coHolderAdded d' dial' => exact ite_self _
  | coHolderRemoved d' =>
      refine if_neg fun heq => hrem ?_
      rw [← heq]
      exact List.mem_append_right _ (List.mem_cons_of_mem _ hop)
  | _ => rfl

/-- Otherwise the flags stay. -/
theorem deviceRun_of_neither {side d : Address} {ops : List DeltaOp}
    {flags : DeviceFlags} (hrem : .coHolderRemoved d ∉ ops)
    (hadd : ¬ (Adds d ops ∧ d ≠ side ∧ flags.2 = none)) :
    deviceRun side d flags ops = flags := by
  refine deviceRun_of_forall fun op hop => ?_
  cases op with
  | coHolderAdded d' dial =>
      refine if_neg fun h => hadd ⟨⟨dial, ?_⟩, h.2⟩
      rw [← h.1]
      exact hop
  | coHolderRemoved d' =>
      refine if_neg fun heq => hrem ?_
      rw [← heq]
      exact hop
  | _ => rfl

/-- The flags of a device depend on which ops arrived, not on their
order. -/
theorem deviceRun_congr {side d : Address} {ops ops' : List DeltaOp}
    (h : ∀ op, op ∈ ops ↔ op ∈ ops') (flags : DeviceFlags) :
    deviceRun side d flags ops = deviceRun side d flags ops' := by
  have hadds : Adds d ops ↔ Adds d ops' := exists_congr fun _ => h _
  by_cases hrem : .coHolderRemoved d ∈ ops
  · rw [deviceRun_of_removed hrem, deviceRun_of_removed ((h _).mp hrem)]
  · have hrem' : .coHolderRemoved d ∉ ops' := fun h' => hrem ((h _).mpr h')
    by_cases hadd : Adds d ops ∧ d ≠ side ∧ flags.2 = none
    · obtain ⟨ha, hside, hflag⟩ := hadd
      rw [deviceRun_of_added hrem ha hside hflag,
        deviceRun_of_added hrem' (hadds.mp ha) hside hflag]
    · rw [deviceRun_of_neither hrem hadd,
        deviceRun_of_neither hrem' fun h' => hadd ⟨hadds.mpr h'.1, h'.2⟩]

-- ========================================================= convergence

/-- The device applied every delta, and no other. -/
def Delivered (D : List StateDeltaPayload) (ds : List Delivery) : Prop :=
  Effect.Delivers D (ds.map Delivery.delta)

/-- The deltas agree on the lifecycle of two devices: where both still
follow it, on a last value; where only one does, with the value it has. -/
def LifecycleAgree (selfA selfB : Bool) (x : SideLifecycle)
    (es : List (Effect SideLifecycle)) : Prop :=
  match selfA, selfB with
  | true, true => True
  | false, false => Effect.Convergent unstamped (some x) es
  | _, _ => ∀ e ∈ es, e.Settles unstamped (some x)

/-- The deltas agree on a last value of every register. -/
structure DeltasAgree (crypto : Crypto) (a b : Side)
    (D : List StateDeltaPayload) : Prop where
  profile : Effect.Convergent profileStamp a.profile
    (D.map (deltaWrite profileStamp a.address (profileWrite crypto)))
  relationships : ∀ addr, Effect.Convergent relationshipStamp
    ((a.relationships addr).map shared)
    (D.map (deltaWrite relationshipStamp a.address (relationshipWrite addr)))
  lifecycle : LifecycleAgree a.isSelfRetired b.isSelfRetired a.lifecycle
    (D.map (deltaWrite unstamped a.address (lifecycleWrite false)))

section converge

variable {crypto : Crypto} {s : Side}

/-- A register of a device after a list of deliveries. -/
theorem deliver_register {V : Type} {stamp : V → Nat}
    {write : DeltaOp → Effect V} (view : Side → Option V)
    (hstep : ∀ op s₁ s₂, Fixed s.address s.isSelfRetired s₁ →
      Steps crypto op s₁ s₂ →
      view s₂ = (write op).apply stamp (view s₁))
    (ds : List Delivery) :
    view (deliver crypto s ds) = Effect.run stamp (view s)
      ((ds.map Delivery.delta).map (deltaWrite stamp s.address write)) := by
  rw [← foldl_opsFor]
  exact deliver_view view _ hstep ds s ⟨rfl, rfl⟩

theorem deliver_profile (ds : List Delivery) :
    (deliver crypto s ds).profile = Effect.run profileStamp s.profile
      ((ds.map Delivery.delta).map
        (deltaWrite profileStamp s.address (profileWrite crypto))) :=
  deliver_register Side.profile (fun _ _ _ _ h => h.profile) ds

theorem deliver_relationships (addr : Address) (ds : List Delivery) :
    ((deliver crypto s ds).relationships addr).map shared
      = Effect.run relationshipStamp ((s.relationships addr).map shared)
        ((ds.map Delivery.delta).map (deltaWrite relationshipStamp s.address
          (relationshipWrite addr))) :=
  deliver_register (fun s => (s.relationships addr).map shared)
    (fun _ _ _ _ h => h.relationships addr) ds

theorem deliver_retired (addr : Address) (ds : List Delivery) :
    (deliver crypto s ds).retiredSidesSeen addr
      = Effect.run unstamped (s.retiredSidesSeen addr)
        ((ds.map Delivery.delta).map
          (deltaWrite unstamped s.address (retiredWrite addr))) :=
  deliver_register (fun s => s.retiredSidesSeen addr)
    (fun _ _ _ _ h => h.retired addr) ds

theorem deliver_lifecycle (ds : List Delivery) :
    some (deliver crypto s ds).lifecycle
      = Effect.run unstamped (some s.lifecycle)
        ((ds.map Delivery.delta).map (deltaWrite unstamped s.address
          (lifecycleWrite s.isSelfRetired))) := by
  refine deliver_register (fun s => some s.lifecycle)
    (fun op s₁ s₂ hfix h => ?_) ds
  rw [← hfix.2]
  exact h.lifecycle

theorem deliver_devices (d : Address) (ds : List Delivery) :
    deviceFlags (deliver crypto s ds) d
      = deviceRun s.address d (deviceFlags s d)
        ((ds.map Delivery.delta).flatMap (opsFor s.address)) := by
  have hfixed : Fixed s.address s.isSelfRetired s := ⟨rfl, rfl⟩
  refine deliver_view (fun s => deviceFlags s d)
    (fun flags op => deviceWrite s.address d op flags)
    (fun op s₁ s₂ hfix h => ?_) ds s hfixed
  show deviceFlags s₂ d = deviceWrite s.address d op (deviceFlags s₁ d)
  rw [← hfix.1]
  exact h.devices d

/-- A side that retired itself keeps its lifecycle. -/
theorem deliver_lifecycle_of_retired (hretired : s.isSelfRetired = true)
    (ds : List Delivery) : (deliver crypto s ds).lifecycle = s.lifecycle := by
  have hfixed : Fixed s.address s.isSelfRetired s := ⟨rfl, rfl⟩
  have hstep : ∀ op s₁ s₂, Fixed s.address s.isSelfRetired s₁ →
      Steps crypto op s₁ s₂ → s₂.lifecycle = s₁.lifecycle := by
    intro op s₁ s₂ hfix h
    have hwrite := h.lifecycle
    rw [hfix.2, hretired] at hwrite
    cases op with
    | _ => exact Option.some.inj hwrite
  rw [deliver_view Side.lifecycle (fun x _ => x) hstep ds s hfixed,
    List.foldl_fixed]

/-- What a delta observes as retired stays so. -/
theorem retired_convergent (side addr : Address) (x : Option Unit)
    (D : List StateDeltaPayload) : Effect.Convergent unstamped x
      (D.map (deltaWrite unstamped side (retiredWrite addr))) := by
  have hoffer : ∀ e ∈ D.map (deltaWrite unstamped side (retiredWrite addr)),
      e = .keep ∨ e = .put () := by
    intro e he
    obtain ⟨delta, -, rfl⟩ := List.mem_map.mp he
    refine Effect.collapse_of_offers unstamped fun e' he' => ?_
    obtain ⟨op, -, rfl⟩ := List.mem_map.mp he'
    cases op with
    | retiredObserved a =>
        simp only [retiredWrite]
        split
        · exact Or.inr rfl
        · exact Or.inl rfl
    | _ => exact Or.inl rfl
  by_cases hany : ∃ e ∈ D.map (deltaWrite unstamped side (retiredWrite addr)),
      e = .put ()
  · obtain ⟨e, he, rfl⟩ := hany
    refine ⟨some (), fun e' he' => ?_, Or.inr ⟨_, he, rfl⟩⟩
    rcases hoffer e' he' with rfl | rfl
    · exact trivial
    · exact Or.inl rfl
  · refine ⟨x, fun e he => ?_, Or.inl rfl⟩
    rcases hoffer e he with rfl | rfl
    · exact trivial
    · exact absurd ⟨_, he, rfl⟩ hany

end converge

section agree

variable {crypto : Crypto} {a b : Side} {D : List StateDeltaPayload}

/-- Two devices see the same, however the deltas reach them. -/
def Converges {X : Type} (crypto : Crypto) (view : Side → X) (a b : Side)
    (D : List StateDeltaPayload) : Prop :=
  ∀ da db, Delivered D da → Delivered D db →
    view (deliver crypto a da) = view (deliver crypto b db)

/-- Deliveries of given deltas, at some clock reading. -/
def atZero (w : List StateDeltaPayload) : List Delivery :=
  w.map fun delta => ⟨delta, fun _ => 0⟩

@[simp] theorem map_delta_atZero (w : List StateDeltaPayload) :
    (atZero w).map Delivery.delta = w := by
  unfold atZero
  rw [List.map_map]
  exact List.map_id w

theorem delivered_atZero {w : List StateDeltaPayload}
    (h : Effect.Delivers D w) : Delivered D (atZero w) := by
  unfold Delivered
  rw [map_delta_atZero]
  exact h

/-- A register converges exactly when its effects do. -/
theorem converges_register {V : Type} {stamp : V → Nat}
    {write : StateDeltaPayload → Effect V} {view : Side → Option V}
    {x : Option V}
    (ha : ∀ ds, view (deliver crypto a ds)
      = Effect.run stamp x ((ds.map Delivery.delta).map write))
    (hb : ∀ ds, view (deliver crypto b ds)
      = Effect.run stamp x ((ds.map Delivery.delta).map write)) :
    Converges crypto view a b D
      ↔ Effect.Convergent stamp x (D.map write) := by
  rw [← Effect.converges_iff]
  constructor
  · intro h w w' hw hw'
    have heq := h _ _ (delivered_atZero hw) (delivered_atZero hw')
    rw [ha, hb, map_delta_atZero, map_delta_atZero] at heq
    exact heq
  · intro h da db hda hdb
    rw [ha, hb]
    exact h _ _ hda hdb

/-- A register one of the devices no longer follows converges exactly when
no delta changes it. -/
theorem converges_one_sided {V : Type} {stamp : V → Nat}
    {write : StateDeltaPayload → Effect V} {view : Side → Option V}
    {x : Option V} (ha : ∀ ds, view (deliver crypto a ds) = x)
    (hb : ∀ ds, view (deliver crypto b ds)
      = Effect.run stamp x ((ds.map Delivery.delta).map write)) :
    Converges crypto view a b D
      ↔ ∀ e ∈ D.map write, e.Settles stamp x := by
  rw [← Effect.run_eq_self_iff]
  constructor
  · intro h w hw
    have heq := h _ _ (delivered_atZero hw) (delivered_atZero hw)
    rw [ha, hb, map_delta_atZero] at heq
    exact heq.symm
  · intro h da db _ hdb
    rw [ha, hb, h _ hdb]

theorem Converges.symm {X : Type} {view : Side → X}
    (h : Converges crypto view a b D) : Converges crypto view b a D :=
  fun da db hda hdb => (h db da hdb hda).symm

/-- The lifecycle, with or without the devices' own retirement. -/
theorem converges_lifecycle (haddr : b.address = a.address)
    (hsame : b.lifecycle = a.lifecycle) :
    Converges crypto (fun s => some s.lifecycle) a b D
      ↔ LifecycleAgree a.isSelfRetired b.isSelfRetired a.lifecycle
        (D.map (deltaWrite unstamped a.address (lifecycleWrite false))) := by
  have hfollows : ∀ s : Side, s.isSelfRetired = false →
      s.address = a.address → s.lifecycle = a.lifecycle → ∀ ds,
      some (deliver crypto s ds).lifecycle
        = Effect.run unstamped (some a.lifecycle)
          ((ds.map Delivery.delta).map (deltaWrite unstamped a.address
            (lifecycleWrite false))) := by
    intro s hactive hs hl ds
    rw [deliver_lifecycle, hactive, hs, hl]
  have hstays : ∀ s : Side, s.isSelfRetired = true →
      s.lifecycle = a.lifecycle → ∀ ds,
      some (deliver crypto s ds).lifecycle = some a.lifecycle := by
    intro s hretired hl ds
    rw [deliver_lifecycle_of_retired hretired, hl]
  unfold LifecycleAgree
  cases hfa : a.isSelfRetired with
  | false =>
      cases hfb : b.isSelfRetired with
      | false =>
          exact converges_register (hfollows a hfa rfl rfl)
            (hfollows b hfb haddr hsame)
      | true =>
          have h : Converges crypto (fun s => some s.lifecycle) b a D ↔ _ :=
            converges_one_sided (hstays b hfb hsame) (hfollows a hfa rfl rfl)
          exact ⟨fun hc => h.mp hc.symm, fun hs => (h.mpr hs).symm⟩
  | true =>
      cases hfb : b.isSelfRetired with
      | false =>
          exact converges_one_sided (hstays a hfa rfl)
            (hfollows b hfb haddr hsame)
      | true =>
          refine ⟨fun _ => trivial, fun _ da db _ _ => ?_⟩
          show some _ = some _
          rw [hstays a hfa rfl, hstays b hfb hsame]

/-- Two devices of one side that start with the same synchronised state end
with the same, in whatever order and however often each applies the deltas,
exactly when the deltas agree on a last value of every register. -/
theorem coHolders_converge_iff (crypto : Crypto) (a b : Side)
    (D : List StateDeltaPayload) (haddr : a.address = b.address)
    (hsync : syncState a = syncState b) :
    (∀ da db, Delivered D da → Delivered D db →
        syncState (deliver crypto a da) = syncState (deliver crypto b db))
      ↔ DeltasAgree crypto a b D := by
  have hprofile : b.profile = a.profile :=
    (congrArg SyncState.profile hsync).symm
  have hrel : ∀ addr, (b.relationships addr).map shared
      = (a.relationships addr).map shared :=
    fun addr => (congrFun (congrArg SyncState.relationships hsync) addr).symm
  have hret : b.retiredSidesSeen = a.retiredSidesSeen :=
    (congrArg SyncState.retired hsync).symm
  have hlc : b.lifecycle = a.lifecycle :=
    (congrArg SyncState.lifecycle hsync).symm
  have hdev : ∀ d, deviceFlags b d = deviceFlags a d := fun d => Prod.ext
    (congrFun (congrArg SyncState.coHolders hsync) d).symm
    (congrFun (congrArg SyncState.revoked hsync) d).symm
  have cprofile : Converges crypto Side.profile a b D ↔ _ :=
    converges_register deliver_profile fun ds => by
      rw [deliver_profile, hprofile, haddr]
  have crel : ∀ addr, Converges crypto
      (fun s => (s.relationships addr).map shared) a b D ↔ _ := fun addr =>
    converges_register (deliver_relationships addr) fun ds => by
      rw [deliver_relationships, hrel, haddr]
  have cret : ∀ addr, Converges crypto
      (fun s => s.retiredSidesSeen addr) a b D ↔ _ := fun addr =>
    converges_register (deliver_retired addr) fun ds => by
      rw [deliver_retired, hret, haddr]
  have clc : Converges crypto (fun s => some s.lifecycle) a b D ↔ _ :=
    converges_lifecycle haddr.symm hlc
  constructor
  · intro h
    refine ⟨cprofile.mp ?_, fun addr => (crel addr).mp ?_, clc.mp ?_⟩
    · exact fun da db hda hdb =>
        congrArg SyncState.profile (h da db hda hdb)
    · exact fun da db hda hdb =>
        congrFun (congrArg SyncState.relationships (h da db hda hdb)) addr
    · exact fun da db hda hdb =>
        congrArg (some ∘ SyncState.lifecycle) (h da db hda hdb)
  · intro h da db hda hdb
    have hflags : ∀ d, deviceFlags (deliver crypto a da) d
        = deviceFlags (deliver crypto b db) d := by
      intro d
      rw [deliver_devices, deliver_devices, hdev, ← haddr]
      refine deviceRun_congr (fun op => ?_) _
      simp only [List.mem_flatMap, hda _, hdb _]
    refine SyncState.ext ?_ ?_ ?_ ?_ ?_ ?_
    · exact cprofile.mpr h.profile da db hda hdb
    · funext addr
      exact (crel addr).mpr (h.relationships addr) da db hda hdb
    · funext addr
      exact (cret addr).mpr (retired_convergent _ _ _ _) da db hda hdb
    · exact Option.some.inj (clc.mpr h.lifecycle da db hda hdb)
    · funext d
      exact congrArg Prod.fst (hflags d)
    · funext d
      exact congrArg Prod.snd (hflags d)

end agree

/-- A freshly paired device, with nothing recorded yet. -/
def pairedSide : Side :=
  Side.fresh ⟨Bytes.fill _ 1, Bytes.fill _ 2⟩ none 0 ⟨Tables.empty, []⟩

/-- A contact as it is sent between co-holders. -/
def sentContact : RelationshipRecord where
  address := Bytes.fill _ 7
  nickname := none
  introducedBy := none
  capabilities := ["direct-message"]
  notes := none
  pinned := true
  addedAt := 1

/-- The contact is upserted. -/
def contactUpserted : StateDeltaPayload :=
  ⟨Bytes.fill _ 2, [.relationshipUpserted sentContact], 1⟩

/-- The contact is removed, later. -/
def contactRemoved : StateDeltaPayload :=
  ⟨Bytes.fill _ 2, [.relationshipRemoved (Bytes.fill _ 7)], 2⟩

/-- An upsert that arrives twice on one device and once on the other. -/
theorem coHolders_converge_upsert :
    syncState (deliver Crypto.refusing pairedSide
        [⟨contactUpserted, fun _ => 3⟩, ⟨contactUpserted, fun _ => 4⟩])
      = syncState (deliver Crypto.refusing pairedSide
        [⟨contactUpserted, fun _ => 5⟩]) := by
  refine (coHolders_converge_iff Crypto.refusing pairedSide pairedSide
    [contactUpserted] rfl rfl).mpr ⟨?_, fun addr => ?_, ?_⟩ _ _ ?_ ?_
  · refine ⟨none, fun e he => ?_, Or.inl rfl⟩
    obtain rfl := List.mem_singleton.mp he
    exact trivial
  · by_cases haddr : sentContact.address = addr
    · refine ⟨some (relationshipFromRecord sentContact), fun e he => ?_,
        Or.inr ⟨_, List.mem_cons_self, ?_⟩⟩
      · obtain rfl := List.mem_singleton.mp he
        subst haddr
        exact Or.inl rfl
      · subst haddr
        rfl
    · refine ⟨none, fun e he => ?_, Or.inl rfl⟩
      obtain rfl := List.mem_singleton.mp he
      have hkeep : deltaWrite relationshipStamp pairedSide.address
          (relationshipWrite addr) contactUpserted = .keep := by
        show Effect.andThen relationshipStamp .keep (if _ then _ else _) = _
        rw [if_neg haddr]
        rfl
      rw [hkeep]
      exact trivial
  · refine ⟨some .created, fun e he => ?_, Or.inl rfl⟩
    obtain rfl := List.mem_singleton.mp he
    exact trivial
  · intro d
    simp
  · intro d
    simp

/-- One device ends with the contact, the other without, after the same two
deltas. -/
theorem coHolders_diverge_contact :
    Delivered [contactUpserted, contactRemoved]
        [⟨contactUpserted, fun _ => 3⟩, ⟨contactRemoved, fun _ => 4⟩]
      ∧ Delivered [contactUpserted, contactRemoved]
        [⟨contactRemoved, fun _ => 3⟩, ⟨contactUpserted, fun _ => 4⟩]
      ∧ syncState (deliver Crypto.refusing pairedSide
          [⟨contactUpserted, fun _ => 3⟩, ⟨contactRemoved, fun _ => 4⟩])
        ≠ syncState (deliver Crypto.refusing pairedSide
          [⟨contactRemoved, fun _ => 3⟩, ⟨contactUpserted, fun _ => 4⟩]) := by
  refine ⟨fun d => ?_, fun d => ?_, fun heq => ?_⟩
  · simp
  · simp [or_comm]
  · have hcontact :=
      congrFun (congrArg SyncState.relationships heq) (Bytes.fill _ 7)
    exact absurd hcontact (by decide)

end Sidevers.Proofs
