/-
Does a rotated content key reach every member?

# The property

In a state without a rotation that still has to take its snapshot, a push in
flight or a share about to be sent, the newest key each member received or
has stashed is the host's current key (`NewestIs`).

# Where the code breaks it

The snapshot of a rotation covers the members with an active session only:
a member that is offline, or that re-joined on the session it left on, is
neither pushed to nor stashed for (`offline_member_misses_key`). A join
seals the key one lock before it inserts the member, so a rotation in
between passes it by; an answer that cannot be sent leaves a member without
any key; and a push that fails late puts an old key over a newer one.

`KeyOk` is the condition that none of these happens. Under it, every member
is always served: a rotation still has its snapshot to take, or the current
key is somewhere on its way to the member (`KeysInv`).
-/
import Sidevers.Proofs.VerseShares
import Sidevers.Lib.Run
import Mathlib.Tactic.IntervalCases

namespace Sidevers.Proofs

open Sidevers.Core
open Sidevers.Lib
open Sidevers.Net

variable {crypto : Crypto}
  {openPost : VerseContentKey → VersePostPayload → Option (List UInt8)}

-- ======================================================= the property

/-- The key was returned to the local caller that added the side. -/
def Given (w : VerseWorld) (side : Address) (key : VerseContentKey) : Prop :=
  ∃ token, .directToken token key ∈ w.log ∧ token.memberSide = side

/-- The key was delivered to the side, sealed to it, or is stashed for it,
or was returned by its local addition. -/
def Received (w : VerseWorld) (side : Address) (key : VerseContentKey) :
    Prop :=
  Given w side key ∨ ∃ share : KeyShare,
    (.delivered side share ∈ w.log
        ∨ w.host.pendingKeyPushes side = some share)
      ∧ share.member = side ∧ share.key = key

/-- The newest key the side received or has stashed. -/
def NewestIs (w : VerseWorld) (side : Address) (key : VerseContentKey) :
    Prop :=
  Received w side key ∧ ∀ k, Received w side k → k ≤ key

/-- A thread that runs a rotation. -/
inductive RotationId where
  | session (conn : ConnId)
  | call (id : Nat)
  deriving DecidableEq

/-- The rotation rotated and has its snapshot to take. -/
def SnapshotDue (w : VerseWorld) : RotationId → Prop
  | .session conn => ∃ peer, w.sessions conn = some ⟨peer, .rotating .snapshot⟩
  | .call id => w.rotations id = some .snapshot

/-- No rotation has its snapshot to take, no push is in flight, no session
is about to send or stash a share. -/
structure Quiet (w : VerseWorld) : Prop where
  rotations : ∀ id, ¬ SnapshotDue w id
  pushes : ∀ id, w.pushes id = none
  sessions : ∀ conn s, w.sessions conn = some s → shareOf s.pc = none

-- ====================================================== the condition

/-- A snapshot that succeeds and covers every member, or that another
rotation's snapshot follows. -/
def SnapshotOk (w : VerseWorld) (id : RotationId) (io : Option UInt64) :
    Prop :=
  (∃ other, other ≠ id ∧ SnapshotDue w other)
    ∨ (io ≠ none ∧ ∀ side, w.host.members side ≠ none →
        w.host.activeSessions side ≠ none)

/-- A stash that does not replace a newer key of a member. -/
def StashOk (w : VerseWorld) (member : Address) (share : KeyShare) : Prop :=
  w.host.members member = none
    ∨ ∀ old, w.host.pendingKeyPushes member = some old →
        old.key ≤ share.key

/-- The condition on a step. -/
def KeyOk (w : VerseWorld) : VerseAction → Prop
  | .tick conn io =>
      match w.sessions conn with
      | some ⟨peer, .restash share⟩ => StashOk w peer share
      | some ⟨peer, .joinInsert _ req _ _ share⟩ =>
          peer = req.side
            ∧ (share.key = w.host.contentKey ∨ ∃ id, SnapshotDue w id)
      | some ⟨_, .joinSign share⟩ =>
          io ≠ none ∨ w.host.members share.member = none
      | some ⟨_, .joinSend share⟩ =>
          io ≠ none ∨ w.host.members share.member = none
      | some ⟨_, .rotating .snapshot⟩ => SnapshotOk w (.session conn) io
      | _ => True
  | .stash rotation member =>
      match w.pushes (rotation, member) with
      | some (.failed share) => StashOk w member share
      | _ => True
  | .tickRotation call io =>
      match w.rotations call with
      | some .snapshot => SnapshotOk w (.call call) io
      | _ => True
  | _ => True

-- ====================================================== the invariant

/-- The share is sealed to the side, under a key of the host. -/
def Fits (w : VerseWorld) (side : Address) (share : KeyShare) : Prop :=
  share.member = side ∧ share.key ≤ w.host.contentKey

/-- The current key is on its way to the side, or arrived. -/
def Provided (w : VerseWorld) (side : Address) : Prop :=
  Given w side w.host.contentKey
    ∨ ∃ share, Holds w side share ∧ share.key = w.host.contentKey

/-- Shares are where they belong, and every member is served. -/
structure KeysInv (w : VerseWorld) : Prop where
  ids : FreshIds w
  fits : ∀ side share, Holds w side share → Fits w side share
  joins : ∀ conn peer fromSide req arrived contract share,
    w.sessions conn
        = some ⟨peer, .joinInsert fromSide req arrived contract share⟩ →
      Fits w req.side share
  given : ∀ side key, Given w side key → key ≤ w.host.contentKey
  served : ∀ side, w.host.members side ≠ none →
    (∃ id, SnapshotDue w id) ∨ Provided w side

/-- In a quiet state, served is received. -/
theorem KeysInv.newestIs {w : VerseWorld} (h : KeysInv w) (hquiet : Quiet w)
    {side : Address} (hmember : w.host.members side ≠ none) :
    NewestIs w side w.host.contentKey := by
  constructor
  · rcases h.served side hmember with ⟨id, hdue⟩ | hgiven | ⟨share, hholds, hkey⟩
    · exact absurd hdue (hquiet.rotations id)
    · exact Or.inl hgiven
    · have hfits := h.fits side share hholds
      refine Or.inr ⟨share, ?_, hfits.1, hkey⟩
      cases hholds with
      | delivered hlog => exact Or.inl hlog
      | stashed hslot => exact Or.inr hslot
      | pushed id p hp =>
          rw [hquiet.pushes] at hp
          cases hp
      | held conn pc hs hpc =>
          have hnone := hquiet.sessions conn _ hs
          dsimp only at hnone
          rw [hnone] at hpc
          cases hpc
  · intro k hreceived
    rcases hreceived with hgiven | ⟨share, hplace, hmember, hkey⟩
    · exact h.given side k hgiven
    · rw [← hkey]
      rcases hplace with hlog | hslot
      · exact (h.fits side share (.delivered hlog)).2
      · exact (h.fits side share (.stashed hslot)).2

-- ============================================== pending snapshots stay

/-- The step of the thread that runs a rotation. -/
def RotationId.tick (io : Option UInt64) : RotationId → VerseAction
  | .session conn => .tick conn io
  | .call id => .tickRotation id io

/-- Only its own thread takes a rotation's snapshot. -/
theorem snapshotDue_step {w w' : VerseWorld} {a : VerseAction}
    (hids : FreshIds w) (hstep : verseStep crypto openPost w a = some w')
    {id : RotationId} (hdue : SnapshotDue w id) :
    SnapshotDue w' id ∨ ∃ io, a = id.tick io := by
  cases id with
  | session conn =>
      obtain ⟨peer, hs⟩ := hdue
      have hkeep : w'.sessions conn = w.sessions conn →
          SnapshotDue w' (.session conn) := fun heq => ⟨peer, heq.trans hs⟩
      cases verseStep_cases hstep with
      | openSession p =>
          have hlt := hids.sessions conn _ hs
          exact Or.inl (hkeep (Table.insert_of_ne _ _ (Nat.ne_of_lt hlt)))
      | receive c env p hs' =>
          refine Or.inl (hkeep (Table.insert_of_ne _ _ fun heq => ?_))
          subst heq
          rw [hs] at hs'
          cases hs'
      | tick c io p pc t hs' ht =>
          by_cases heq : conn = c
          · subst heq
            exact Or.inr ⟨io, rfl⟩
          · refine Or.inl (hkeep ?_)
            rw [applySession_sessions, if_neg heq]
      | closeSession c p hs' =>
          refine Or.inl (hkeep (Table.erase_of_ne _ fun heq => ?_))
          subst heq
          rw [hs] at hs'
          cases hs'
      | tickRotation call io pc =>
          refine Or.inl (hkeep ?_)
          rw [applyRotation_sessions]
      | _ => exact Or.inl (hkeep rfl)
  | call id =>
      have hrot : w.rotations id = some .snapshot := hdue
      have hkeep : w'.rotations id = w.rotations id →
          SnapshotDue w' (.call id) := fun heq => heq.trans hrot
      cases verseStep_cases hstep with
      | tick c io p pc t =>
          refine Or.inl (hkeep ?_)
          rw [applySession_rotations]
      | rotate =>
          have hlt := hids.rotations id _ hrot
          exact Or.inl (hkeep (Table.insert_of_ne _ _ (Nat.ne_of_lt hlt)))
      | tickRotation call io pc =>
          by_cases heq : id = call
          · subst heq
            exact Or.inr ⟨io, rfl⟩
          · refine Or.inl (hkeep ?_)
            rw [applyRotation_rotations, if_neg heq]
      | _ => exact Or.inl (hkeep rfl)

/-- Ids in use were given out, in every run. -/
theorem freshIds_of_reachable {host : VerseHost} {w : VerseWorld}
    (h : Reachable (verseStep crypto openPost) (.init host) w) :
    FreshIds w :=
  h.induct ⟨nofun, nofun, nofun⟩ fun _ _ _ h hstep => freshIds_step h hstep

theorem RotationId.tick_injective {id other : RotationId}
    {io io' : Option UInt64} (h : id.tick io = other.tick io') :
    id = other := by
  cases id <;> cases other <;> cases h <;> rfl

/-- A successful snapshot makes a push for every active member. -/
theorem provided_of_snapshot {w w' : VerseWorld} {id : RotationId}
    {now : UInt64} {side : Address}
    (hstep : verseStep crypto openPost w (id.tick (some now)) = some w')
    (hdue : SnapshotDue w id) (hmember : w.host.members side ≠ none)
    (hactive : w.host.activeSessions side ≠ none) : Provided w' side := by
  obtain ⟨conn, hconn⟩ := Option.ne_none_iff_exists'.mp hactive
  have hshare : w.host.pushSnapshot crypto now side
      = some (conn, w.host.sealKey (w.host.contract.hash crypto) side now) :=
    VerseHost.pushSnapshot_eq_some.mpr ⟨hconn, hmember, rfl⟩
  cases id with
  | session c =>
      obtain ⟨peer, hs⟩ := hdue
      rw [RotationId.tick, verseStep_tick hs rfl] at hstep
      cases hstep
      refine Or.inr ⟨_, holds_spawned (applySession_pushes ..) hshare, ?_⟩
      rw [applySession_host]
      rfl
  | call c =>
      have hrot : w.rotations c = some .snapshot := hdue
      simp only [RotationId.tick, verseStep, hrot] at hstep
      cases hstep
      exact Or.inr ⟨_, holds_spawned rfl hshare, rfl⟩

-- ======================================================= shares forward

/-- A share at least as new is in some place for the side. -/
def KeptShare (w : VerseWorld) (side : Address) (share : KeyShare) : Prop :=
  ∃ share', Holds w side share' ∧ share.key ≤ share'.key

theorem Holds.kept {w : VerseWorld} {side : Address} {share : KeyShare}
    (h : Holds w side share) : KeptShare w side share :=
  ⟨share, h, Nat.le_refl _⟩

/-- A stash under the condition keeps what was stashed, or newer. -/
theorem kept_stash {w w' : VerseWorld} {member side : Address}
    {new share : KeyShare} (hok : StashOk w member new)
    (hmember : w.host.members side ≠ none)
    (hslot : w'.host.pendingKeyPushes
      = w.host.pendingKeyPushes.insert member new)
    (hold : w.host.pendingKeyPushes side = some share) :
    KeptShare w' side share := by
  by_cases heq : side = member
  · subst heq
    refine ⟨new, .stashed ?_, hok.resolve_left hmember share hold⟩
    rw [hslot, Table.insert_self]
  · refine Holds.kept (.stashed ?_)
    rw [hslot, Table.insert_of_ne _ _ heq]
    exact hold

/-- The same for a step of a session. -/
theorem kept_tick {w : VerseWorld} {conn : ConnId} {peer side : Address}
    {io : Option UInt64} {pc : ServePc} {t : Tick ServePc}
    {share : KeyShare} (h : KeysInv w) (hok : KeyOk w (.tick conn io))
    (hs : w.sessions conn = some ⟨peer, pc⟩)
    (ht : ShareTick crypto w.host peer io pc t)
    (hmember : w.host.members side ≠ none) (hholds : Holds w side share) :
    KeptShare (w.applySession conn peer t) side share := by
  simp only [KeyOk, hs] at hok
  -- the share stays unless it is in the slot or held by this session
  refine holds_applySession h.ids hs hholds Holds.kept ?_ ?_
  · intro hslot
    cases ht with
    | still _ _ hpc hkey hstash =>
        exact (holds_slot (by rw [hstash]; exact hslot)).kept
    | drained share₀ hshare =>
        by_cases heq : side = peer
        · subst heq
          rw [hslot] at hshare
          cases hshare
          exact (holds_next rfl rfl).kept
        · exact (holds_slot ((Table.erase_of_ne _ heq).trans hslot)).kept
    | nothingStashed hnone =>
        have hne : side ≠ peer := by
          intro heq
          rw [heq, hnone] at hslot
          cases hslot
        exact (holds_slot ((Table.erase_of_ne _ hne).trans hslot)).kept
    | restashed share₀ =>
        exact kept_stash hok hmember rfl hslot
    | _ => exact (holds_slot hslot).kept
  · intro hpeer hheld
    subst hpeer
    have hfits := h.fits peer share (.held conn pc hs hheld)
    cases ht with
    | still _ _ hpc =>
        rw [hpc] at hheld
        cases hheld
    | redelivered share₀ =>
        cases hheld
        exact (holds_sent List.mem_cons_self).kept
    | redeliverFailed share₀ =>
        cases hheld
        exact (holds_next rfl rfl).kept
    | restashed share₀ =>
        cases hheld
        exact (holds_slot (Table.insert_self ..)).kept
    | signed share₀ =>
        cases hheld
        exact (holds_next rfl rfl).kept
    | sent share₀ =>
        cases hheld
        exact (holds_sent List.mem_cons_self).kept
    | acceptFailed _ share₀ hpc hio =>
        -- the condition rules it out: the side is a member
        exfalso
        rcases hpc with rfl | rfl <;> cases hheld
        · rcases hok with hne | hnone
          · exact hne hio
          · exact hmember (hfits.1 ▸ hnone)
        · rcases hok with hne | hnone
          · exact hne hio
          · exact hmember (hfits.1 ▸ hnone)
    | _ => cases hheld

/-- Under the condition, a share made for a member stays in some place, or
one at least as new replaces it. -/
theorem holds_forward {w w' : VerseWorld} {a : VerseAction} {side : Address}
    {share : KeyShare} (h : KeysInv w) (hok : KeyOk w a)
    (hstep : verseStep crypto openPost w a = some w')
    (hmember : w.host.members side ≠ none) (hholds : Holds w side share) :
    KeptShare w' side share := by
  have hsame : Holds w' side share → KeptShare w' side share := Holds.kept
  cases verseStep_cases hstep with
  | openSession p =>
      refine hsame (hholds.keep (fun _ he => he) rfl (fun _ _ hp => hp)
        fun conn pc hs _ => ?_)
      have hlt := h.ids.sessions conn _ hs
      exact (Table.insert_of_ne _ _ (Nat.ne_of_lt hlt)).trans hs
  | receive c env p hs =>
      refine hsame (hholds.keep (fun _ he => he) rfl (fun _ _ hp => hp)
        fun conn pc hs' hpc => ?_)
      refine (Table.insert_of_ne _ _ fun heq => hpc ?_).trans hs'
      subst heq
      rw [hs] at hs'
      cases hs'
      rfl
  | tick conn io peer pc t hs ht =>
      exact kept_tick h hok hs (serveTick_shares ht) hmember hholds
  | closeSession c p hs =>
      refine hsame (hholds.keep (fun _ he => he) rfl (fun _ _ hp => hp)
        fun conn pc hs' hpc => ?_)
      refine (Table.erase_of_ne _ fun heq => hpc ?_).trans hs'
      subst heq
      rw [hs] at hs'
      cases hs'
      rfl
  | pushSent id member conn share₀ hp =>
      refine hsame ?_
      cases hholds with
      | delivered hlog => exact .delivered (List.mem_append_left _ hlog)
      | stashed hslot => exact .stashed hslot
      | held c pc hs hpc => exact .held c pc hs hpc
      | pushed id' p hp' hshare =>
          by_cases heq : (id', side) = (id, member)
          · cases heq
            rw [hp] at hp'
            cases hp'
            cases hshare
            exact .delivered (List.mem_append_right _ List.mem_cons_self)
          · exact .pushed id' p ((Table.erase_of_ne _ heq).trans hp') hshare
  | pushFailed id member conn share₀ hp =>
      refine hsame ?_
      cases hholds with
      | delivered hlog => exact .delivered hlog
      | stashed hslot => exact .stashed hslot
      | held c pc hs hpc => exact .held c pc hs hpc
      | pushed id' p hp' hshare =>
          by_cases heq : (id', side) = (id, member)
          · cases heq
            rw [hp] at hp'
            cases hp'
            exact .pushed id _ (Table.insert_self ..) hshare
          · exact .pushed id' p ((Table.insert_of_ne _ _ heq).trans hp')
              hshare
  | stash id member share₀ hp =>
      simp only [KeyOk, hp] at hok
      cases hholds with
      | delivered hlog => exact hsame (.delivered hlog)
      | stashed hslot => exact kept_stash hok hmember rfl hslot
      | held c pc hs hpc => exact hsame (.held c pc hs hpc)
      | pushed id' p hp' hshare =>
          refine hsame ?_
          by_cases heq : (id', side) = (id, member)
          · cases heq
            rw [hp] at hp'
            cases hp'
            cases hshare
            exact .stashed (Table.insert_self ..)
          · exact .pushed id' p ((Table.erase_of_ne _ heq).trans hp') hshare
  | addLocalMember s issuedAt =>
      exact hsame (hholds.keep (fun _ he => List.mem_append_left _ he) rfl
        (fun _ _ hp => hp) fun _ _ hs _ => hs)
  | tickRotation call io pc hr =>
      refine hsame (hholds.keep (fun _ he => List.mem_append_left _ he) ?_
        (fun _ _ hp => spawn_pushes_old h.ids _ hp) fun conn pc hs _ => ?_)
      · exact congrFun (rotateTick_still ..).1 side
      · rw [applyRotation_sessions]
        exact hs
  | _ =>
      exact hsame (hholds.keep (fun _ he => he) rfl (fun _ _ hp => hp)
        fun _ _ hs _ => hs)

-- ========================================================== the step

/-- A key that a local caller was given stays given; a new one is the
host's. -/
theorem given_step {w w' : VerseWorld} {a : VerseAction} {side : Address}
    {key : VerseContentKey}
    (hstep : verseStep crypto openPost w a = some w')
    (h : Given w' side key) :
    Given w side key ∨ key = w.host.contentKey := by
  obtain ⟨token, htoken, hside⟩ := h
  have hold : .directToken token key ∈ w.log → Given w side key :=
    fun hmem => ⟨token, hmem, hside⟩
  cases verseStep_cases hstep with
  | tick conn io peer pc t hs ht =>
      rw [applySession_log] at htoken
      rcases List.mem_append.mp htoken with hmem | hmem
      · exact Or.inl (hold hmem)
      · exact absurd hmem (serveTick_shares ht).not_direct
  | pushSent =>
      rcases List.mem_append.mp htoken with hmem | hmem
      · exact Or.inl (hold hmem)
      · cases List.mem_singleton.mp hmem
  | addLocalMember s issuedAt =>
      rcases List.mem_append.mp htoken with hmem | hmem
      · exact Or.inl (hold hmem)
      · rcases List.mem_cons.mp hmem with heq | hmem
        · cases heq
        · cases List.mem_singleton.mp hmem
          exact Or.inr rfl
  | tickRotation call io pc =>
      rcases List.mem_append.mp htoken with hmem | hmem
      · exact Or.inl (hold hmem)
      · exact absurd hmem ((rotateTick_still ..).2.2 token key)
  | _ => exact Or.inl (hold htoken)

theorem Given.step {w w' : VerseWorld} {a : VerseAction} {side : Address}
    {key : VerseContentKey} (h : Given w side key)
    (hstep : verseStep crypto openPost w a = some w') :
    Given w' side key := by
  obtain ⟨token, htoken, hside⟩ := h
  obtain ⟨es, hlog, -⟩ := members_step hstep
  exact ⟨token, hlog ▸ List.mem_append_left es htoken, hside⟩

/-- Shares in places after a step are where they belong. -/
theorem fits_step {w w' : VerseWorld} {a : VerseAction} (h : KeysInv w)
    (hok : KeyOk w a) (hstep : verseStep crypto openPost w a = some w')
    (hle : w.host.contentKey ≤ w'.host.contentKey) {side : Address}
    {share : KeyShare} (hholds : Holds w' side share) :
    Fits w' side share := by
  cases holds_origin hstep hholds with
  | old hold =>
      have hfits := h.fits side share hold
      exact ⟨hfits.1, Nat.le_trans hfits.2 hle⟩
  | fresh hmember hkey => exact ⟨hmember, hkey ▸ hle⟩
  | joined conn io fromSide req arrived contract ha hs =>
      have hfits := h.joins conn side fromSide req arrived contract share hs
      subst ha
      simp only [KeyOk, hs] at hok
      exact ⟨hok.1 ▸ hfits.1, Nat.le_trans hfits.2 hle⟩

theorem joins_step {w w' : VerseWorld} {a : VerseAction} (h : KeysInv w)
    (hstep : verseStep crypto openPost w a = some w')
    (hle : w.host.contentKey ≤ w'.host.contentKey) {conn : ConnId}
    {peer fromSide : Address} {req : JoinRequestPayload} {arrived : Nat}
    {contract : ContractObject} {share : KeyShare}
    (hs' : w'.sessions conn
      = some ⟨peer, .joinInsert fromSide req arrived contract share⟩) :
    Fits w' req.side share := by
  generalize hpc : ServePc.joinInsert fromSide req arrived contract share = pc
    at hs'
  cases sessions_step hstep hs' with
  | same _ hs =>
      subst hpc
      have hfits := h.joins conn peer fromSide req arrived contract share hs
      exact ⟨hfits.1, Nat.le_trans hfits.2 hle⟩
  | opened => cases hpc
  | received env ha hs =>
      unfold serveReceive at hpc
      (repeat' split at hpc) <;> cases hpc
  | ticked io pc₀ t next ha hs ht hnext =>
      subst hpc
      obtain ⟨hmember, hkey, -⟩ := (serveTick_shares ht).of_joinInsert hnext
      exact ⟨hmember, hkey ▸ hle⟩

/-- A member that was one before is served still. -/
theorem served_member {w w' : VerseWorld} {a : VerseAction} (h : KeysInv w)
    (hok : KeyOk w a) (hstep : verseStep crypto openPost w a = some w')
    (hkey : w'.host.contentKey = w.host.contentKey)
    (hfits : ∀ side share, Holds w' side share → Fits w' side share)
    {side : Address} (hmember : w.host.members side ≠ none) :
    (∃ id, SnapshotDue w' id) ∨ Provided w' side := by
  rcases h.served side hmember with ⟨id, hdue⟩ | hgiven | ⟨share, hholds, hcur⟩
  · rcases snapshotDue_step h.ids hstep hdue with hdue' | ⟨io, rfl⟩
    · exact Or.inl ⟨id, hdue'⟩
    · -- this rotation takes its snapshot
      have hsnap : SnapshotOk w id io := by
        cases id with
        | session conn =>
            obtain ⟨peer, hs⟩ := hdue
            simp only [RotationId.tick, KeyOk, hs] at hok
            exact hok
        | call c =>
            have hrot : w.rotations c = some .snapshot := hdue
            simp only [RotationId.tick, KeyOk, hrot] at hok
            exact hok
      rcases hsnap with ⟨other, hne, hother⟩ | ⟨hio, hactive⟩
      · rcases snapshotDue_step h.ids hstep hother with hdue' | ⟨io', heq⟩
        · exact Or.inl ⟨other, hdue'⟩
        · exact absurd (RotationId.tick_injective heq).symm hne
      · obtain ⟨now, rfl⟩ := Option.ne_none_iff_exists'.mp hio
        exact Or.inr (provided_of_snapshot hstep hdue hmember
          (hactive side hmember))
  · exact Or.inr (Or.inl (hkey ▸ hgiven.step hstep))
  · obtain ⟨share', hholds', hle⟩ :=
      holds_forward h hok hstep hmember hholds
    have hbound := (hfits side share' hholds').2
    rw [hcur, ← hkey] at hle
    exact Or.inr (Or.inr ⟨share', hholds', Nat.le_antisymm hbound hle⟩)

/-- A side that joins, or is added, is served. -/
theorem served_new {w w' : VerseWorld} {a : VerseAction} (h : KeysInv w)
    (hok : KeyOk w a) (hstep : verseStep crypto openPost w a = some w')
    (hkey : w'.host.contentKey = w.host.contentKey) {side : Address}
    (hbefore : w.host.members side = none)
    (hafter : w'.host.members side ≠ none) :
    (∃ id, SnapshotDue w' id) ∨ Provided w' side := by
  obtain ⟨es, hlog, hmembers⟩ := members_step hstep
  cases hmembers with
  | same hsame hes =>
      rw [hsame] at hafter
      exact absurd hbefore hafter
  | joined conn io peer fromSide req arrived contract share ha hs hins hes =>
      rw [hins, Table.insert_ne_none_iff] at hafter
      have hside : side = req.side := by
        rcases hafter with heq | hmem
        · exact heq
        · exact absurd hbefore hmem
      subst hside ha
      simp only [KeyOk, hs] at hok
      obtain ⟨hpeer, hcur | ⟨id, hdue⟩⟩ := hok
      · subst hpeer
        rw [verseStep_tick hs rfl] at hstep
        cases hstep
        exact Or.inr (Or.inr ⟨share, holds_next rfl rfl, hcur.trans hkey.symm⟩)
      · rcases snapshotDue_step h.ids hstep hdue with hdue' | ⟨io', heq⟩
        · exact Or.inl ⟨id, hdue'⟩
        · -- the thread that inserts the member runs no rotation
          exfalso
          cases id with
          | session c =>
              cases heq
              obtain ⟨p, hs'⟩ := hdue
              rw [hs] at hs'
              cases hs'
          | call c => cases heq
  | direct s token key hins hes htoken hcur =>
      rw [hins, Table.insert_ne_none_iff] at hafter
      have hside : side = s := by
        rcases hafter with heq | hmem
        · exact heq
        · exact absurd hbefore hmem
      subst hside
      refine Or.inr (Or.inl ⟨token, ?_, htoken⟩)
      rw [hlog, hes, hkey, ← hcur]
      exact List.mem_append_right _
        (List.mem_cons_of_mem _ List.mem_cons_self)
  | removed s herase hes =>
      rw [herase, Table.erase_ne_none_iff] at hafter
      exact absurd hbefore hafter.2

/-- Step lemma. -/
theorem keysInv_step {w w' : VerseWorld} {a : VerseAction} (h : KeysInv w)
    (hok : KeyOk w a) (hstep : verseStep crypto openPost w a = some w') :
    KeysInv w' := by
  have hle := contentKey_le_step hstep
  have hfits : ∀ side share, Holds w' side share → Fits w' side share :=
    fun _ _ hholds => fits_step h hok hstep hle hholds
  refine ⟨freshIds_step h.ids hstep, hfits,
    fun _ _ _ _ _ _ _ hs' => joins_step h hstep hle hs',
    fun side key hgiven => ?_, fun side hafter => ?_⟩
  · rcases given_step hstep hgiven with hold | rfl
    · exact Nat.le_trans (h.given side key hold) hle
    · exact hle
  · rcases key_step hstep with hkey | ⟨-, hdue⟩
    · by_cases hbefore : w.host.members side = none
      · exact served_new h hok hstep hkey hbefore hafter
      · exact served_member h hok hstep hkey hfits hbefore
    · rcases hdue with ⟨conn, peer, hs⟩ | ⟨call, hrot⟩
      · exact Or.inl ⟨.session conn, peer, hs⟩
      · exact Or.inl ⟨.call call, hrot⟩

/-- In every run of a freshly hosted verse whose steps all meet the
condition, in every quiet state, the newest key every member received or has
stashed is the current one. -/
theorem rotation_reaches_members (crypto : Crypto)
    (openPost : VerseContentKey → VersePostPayload → Option (List UInt8))
    (contract : ContractObject) (acts : List VerseAction) (w : VerseWorld)
    (hok : Along (verseStep crypto openPost) KeyOk
      (.init (.new contract)) acts)
    (hrun : run (verseStep crypto openPost) (.init (.new contract)) acts
      = some w) (hquiet : Quiet w) :
    ∀ side, w.host.members side ≠ none →
      NewestIs w side w.host.contentKey := by
  have hempty : ∀ side share,
      ¬ Holds (.init (.new contract)) side share := by
    intro side share h
    cases h with
    | delivered h => cases h
    | stashed h => cases h
    | pushed id p h => cases h
    | held conn pc h => cases h
  have hinit : KeysInv (.init (.new contract)) := by
    refine ⟨⟨nofun, nofun, nofun⟩, fun side share h => absurd h
      (hempty side share), nofun, fun side key h => ?_, fun side h => ?_⟩
    · obtain ⟨token, htoken, -⟩ := h
      cases htoken
    · exact absurd rfl h
  have hinv : KeysInv w :=
    run_induct (fun _ _ _ hok h hstep => keysInv_step h hok hstep) hok hinit
      hrun
  exact fun side hmember => hinv.newestIs hquiet hmember

-- =========================================================== two runs

/-- The member's session ends, and then the key is rotated. -/
def rotateOffline : List VerseAction :=
  [.closeSession 0, .cleanup 0, .rotate, .tickRotation 1 (some 2),
    .tickRotation 1 (some 2)]

/-- The key is rotated while the session is live. -/
def rotateLive : List VerseAction :=
  [.rotate, .tickRotation 1 (some 2), .tickRotation 1 (some 2),
    .push 2 (Bytes.fill _ 2) true]

/-- The push reaches the member. -/
theorem rotation_reaches_members_live :
    ∃ w, run (verseStep Crypto.refusing fun _ _ => none) openVerse
        (joinLive ++ rotateLive) = some w
      ∧ ∀ side, w.host.members side ≠ none →
        NewestIs w side w.host.contentKey := by
  have hids : ∀ w, run (verseStep Crypto.refusing fun _ _ => none) openVerse
      (joinLive ++ rotateLive) = some w → FreshIds w :=
    fun w h => freshIds_of_reachable ⟨_, h⟩
  refine ⟨_, rfl, rotation_reaches_members Crypto.refusing (fun _ _ => none)
    (titled "open" 1) (joinLive ++ rotateLive) _ ?_ rfl
    ⟨fun id h => ?_, fun id => ?_, fun conn s hs => ?_⟩⟩
  · refine .cons rfl trivial (.cons rfl trivial (.cons rfl trivial
      (.cons rfl trivial (.cons rfl trivial (.cons rfl trivial
        (.cons rfl ⟨rfl, Or.inl rfl⟩ (.cons rfl (Or.inl nofun)
          (.cons rfl (Or.inl nofun) (.cons rfl trivial (.cons rfl trivial
            (.cons rfl (Or.inr ⟨nofun, fun side hside => ?_⟩)
              (.cons rfl trivial trivial))))))))))))
    show Table.insert _ (Bytes.fill _ 2) _ side ≠ none
    rw [Table.insert_ne_none_iff]
    replace hside : Table.insert _ (Bytes.fill _ 2) _ side ≠ none := hside
    rw [Table.insert_ne_none_iff] at hside
    exact hside.imp_right fun h => absurd rfl h
  · cases id with
    | session conn =>
        obtain ⟨peer, hs⟩ := h
        have hlt : conn < 3 := (hids _ rfl).sessions conn _ hs
        interval_cases conn <;> cases hs
    | call id =>
        have hlt : id < 3 := (hids _ rfl).rotations id _ h
        interval_cases id <;> cases h
  · obtain ⟨id, side⟩ := id
    show Table.erase _ (2, Bytes.fill _ 2) (id, side) = none
    rw [Table.erase_apply]
    split
    case isTrue => rfl
    case isFalse hne =>
      show (if id = 2 then (VerseHost.pushSnapshot _ _ _ side).map _ else none)
        = none
      split
      case isTrue hid =>
        rw [VerseHost.pushSnapshot_of_inactive]
        · rfl
        · refine Table.insert_of_ne _ _ fun hside => hne ?_
          rw [hid, hside]
      case isFalse => rfl
  · have hlt : conn < 3 := (hids _ rfl).sessions conn _ hs
    interval_cases conn <;> cases hs
    rfl

/-- A member that is offline when the key is rotated has the old key only,
and nothing is stashed for it. -/
theorem offline_member_misses_key :
    ∃ w, run (verseStep Crypto.refusing fun _ _ => none) openVerse
        (joinLive ++ rotateOffline) = some w
      ∧ Quiet w ∧ w.host.members (Bytes.fill _ 2) ≠ none
      ∧ ¬ NewestIs w (Bytes.fill _ 2) w.host.contentKey := by
  have hids : ∀ w, run (verseStep Crypto.refusing fun _ _ => none) openVerse
      (joinLive ++ rotateOffline) = some w → FreshIds w :=
    fun w h => freshIds_of_reachable ⟨_, h⟩
  refine ⟨_, rfl, ⟨fun id h => ?_, fun id => ?_, fun conn s hs => ?_⟩,
    by decide, fun h => ?_⟩
  · cases id with
    | session conn =>
        obtain ⟨peer, hs⟩ := h
        have hlt : conn < 3 := (hids _ rfl).sessions conn _ hs
        interval_cases conn <;> cases hs
    | call id =>
        have hlt : id < 3 := (hids _ rfl).rotations id _ h
        interval_cases id <;> cases h
  · obtain ⟨id, side⟩ := id
    show (if id = 2 then (VerseHost.pushSnapshot _ _ _ side).map _ else none)
      = none
    split
    · rw [VerseHost.pushSnapshot_of_inactive]
      · rfl
      · show Table.erase (Table.insert _ _ _) (Bytes.fill _ 2) side = none
        rw [Table.erase_apply]
        split
        · rfl
        · exact Table.insert_of_ne _ _ ‹_›
    · rfl
  · have hlt : conn < 3 := (hids _ rfl).sessions conn _ hs
    interval_cases conn <;> cases hs
  · rcases h.1 with ⟨token, htoken, -⟩ | ⟨share, hplace, -, hkey⟩
    · replace htoken : VerseEvent.directToken token _ ∈ [.checked _ _,
        .joinSealed _, .added _ _ _, .delivered _ _, .rotated _, .pushed _] :=
        htoken
      simp at htoken
    · rcases hplace with hsent | hslot
      · replace hsent : VerseEvent.delivered _ share ∈ [.checked _ _,
          .joinSealed _, .added _ _ _, .delivered _ _, .rotated _,
          .pushed _] := hsent
        simp only [List.mem_cons, List.not_mem_nil, or_false,
          reduceCtorEq, false_or, VerseEvent.delivered.injEq] at hsent
        rw [hsent.2] at hkey
        cases hkey
      · cases hslot

end Sidevers.Proofs
