/-
Where the key shares of a verse are, and how a step moves them.

A share made for a side is delivered to it, kept in its stash slot, carried
by a spawned push, or held by a session of the side that is about to send
it (`Holds`). A step of a session moves shares in one of the ways of
`ShareTick`; everything else that moves one is an action of its own. Nothing
else in the development looks at the twenty handlers for a share.
-/
import Sidevers.Proofs.VerseSteps

namespace Sidevers.Proofs

open Sidevers.Core
open Sidevers.Lib
open Sidevers.Net

variable {crypto : Crypto}
  {openPost : VerseContentKey → VersePostPayload → Option (List UInt8)}

-- ============================================================== places

/-- The share a push carries. -/
def pushShare : KeyPush → KeyShare
  | .sending _ share => share
  | .failed share => share

/-- The share a session is about to send to its peer, or to stash. -/
def shareOf : ServePc → Option KeyShare
  | .redeliver share => some share
  | .restash share => some share
  | .joinSign share => some share
  | .joinSend share => some share
  | _ => none

/-- The share went out to the side, or is kept or on its way for it. -/
inductive Holds (w : VerseWorld) (side : Address) (share : KeyShare) :
    Prop where
  | delivered (h : .delivered side share ∈ w.log)
  | stashed (h : w.host.pendingKeyPushes side = some share)
  | pushed (id : Nat) (p : KeyPush) (h : w.pushes (id, side) = some p)
      (hp : pushShare p = share)
  | held (conn : ConnId) (pc : ServePc)
      (h : w.sessions conn = some ⟨side, pc⟩) (hpc : shareOf pc = some share)

/-- A step that leaves all places of a side alone. -/
theorem Holds.keep {w w' : VerseWorld} {side : Address} {share : KeyShare}
    (h : Holds w side share) (hlog : ∀ e ∈ w.log, e ∈ w'.log)
    (hstash : w'.host.pendingKeyPushes side = w.host.pendingKeyPushes side)
    (hpush : ∀ id p, w.pushes (id, side) = some p →
      w'.pushes (id, side) = some p)
    (hsession : ∀ conn pc, w.sessions conn = some ⟨side, pc⟩ →
      shareOf pc ≠ none → w'.sessions conn = some ⟨side, pc⟩) :
    Holds w' side share := by
  cases h with
  | delivered h => exact .delivered (hlog _ h)
  | stashed h => exact .stashed (hstash.trans h)
  | pushed id p h hp => exact .pushed id p (hpush id p h) hp
  | held conn pc h hpc =>
      refine .held conn pc (hsession conn pc h ?_) hpc
      rw [hpc]
      nofun

-- ================================================================ ids

/-- Ids in use were given out. -/
structure FreshIds (w : VerseWorld) : Prop where
  sessions : ∀ conn s, w.sessions conn = some s → conn < w.nextId
  pushes : ∀ id side p, w.pushes (id, side) = some p → id < w.nextId
  rotations : ∀ call pc, w.rotations call = some pc → call < w.nextId

/-- Spawning uses a fresh id and no other. -/
theorem spawn_pushes_old {w : VerseWorld} (hids : FreshIds w)
    (shares : Option (Table Address (ConnId × KeyShare))) {id : Nat}
    {side : Address} {p : KeyPush} (hp : w.pushes (id, side) = some p) :
    (w.spawn shares).pushes (id, side) = some p := by
  cases shares with
  | none => exact hp
  | some shares =>
      exact (if_neg (Nat.ne_of_lt (hids.pushes id side p hp))).trans hp

theorem nextId_le_spawn (w : VerseWorld)
    (shares : Option (Table Address (ConnId × KeyShare))) :
    w.nextId ≤ (w.spawn shares).nextId := by
  cases shares with
  | none => exact Nat.le_refl _
  | some shares => exact Nat.le_succ _

/-- The pushes after a spawn: the old ones and the spawned ones. -/
theorem spawn_pushes_cases {w : VerseWorld}
    {shares : Option (Table Address (ConnId × KeyShare))} {id : Nat}
    {side : Address} {p : KeyPush}
    (hp : (w.spawn shares).pushes (id, side) = some p) :
    w.pushes (id, side) = some p
      ∨ ∃ table conn share, shares = some table
        ∧ table side = some (conn, share) ∧ p = .sending conn share
        ∧ id < (w.spawn shares).nextId := by
  cases shares with
  | none => exact Or.inl hp
  | some table =>
      replace hp : (if id = w.nextId then
          (table side).map fun p => KeyPush.sending p.1 p.2
        else w.pushes (id, side)) = some p := hp
      split at hp
      case isTrue heq =>
        obtain ⟨⟨conn, share⟩, hshare, rfl⟩ := Option.map_eq_some_iff.mp hp
        exact Or.inr ⟨table, conn, share, rfl, hshare, rfl,
          heq ▸ Nat.lt_succ_self _⟩
      case isFalse => exact Or.inl hp

theorem freshIds_spawn {w w' : VerseWorld} (h : FreshIds w)
    (shares : Option (Table Address (ConnId × KeyShare)))
    (hpushes : w'.pushes = (w.spawn shares).pushes)
    (hnext : w'.nextId = (w.spawn shares).nextId)
    (hsessions : ∀ conn s, w'.sessions conn = some s →
      w.sessions conn ≠ none)
    (hrotations : ∀ call pc, w'.rotations call = some pc →
      w.rotations call ≠ none) : FreshIds w' := by
  have hle := nextId_le_spawn w shares
  constructor
  · intro conn s hs
    rw [hnext]
    obtain ⟨s₀, hs₀⟩ := Option.ne_none_iff_exists'.mp (hsessions conn s hs)
    exact Nat.lt_of_lt_of_le (h.sessions conn s₀ hs₀) hle
  · intro id side p hp
    rw [hnext]
    rw [hpushes] at hp
    rcases spawn_pushes_cases hp with hold | ⟨_, _, _, _, _, _, hid⟩
    · exact Nat.lt_of_lt_of_le (h.pushes id side p hold) hle
    · exact hid
  · intro call pc hpc
    rw [hnext]
    obtain ⟨pc₀, hpc₀⟩ :=
      Option.ne_none_iff_exists'.mp (hrotations call pc hpc)
    exact Nat.lt_of_lt_of_le (h.rotations call pc₀ hpc₀) hle

theorem freshIds_step {w w' : VerseWorld} {a : VerseAction}
    (h : FreshIds w) (hstep : verseStep crypto openPost w a = some w') :
    FreshIds w' := by
  have hsome : ∀ {K V : Type} {t : Table K V} {k : K} {v : V},
      t k = some v → t k ≠ none := fun heq => by rw [heq]; nofun
  cases verseStep_cases hstep with
  | openSession peer =>
      refine ⟨fun conn s hs => ?_, fun id side p hp => ?_, fun c pc hc => ?_⟩
      · replace hs : w.sessions.insert w.nextId ⟨peer, .register⟩ conn
          = some s := hs
        rw [Table.insert_apply] at hs
        split at hs
        · exact Nat.lt_succ_of_le (Nat.le_of_eq ‹_›)
        · exact Nat.lt_succ_of_lt (h.sessions conn s hs)
      · exact Nat.lt_succ_of_lt (h.pushes id side p hp)
      · exact Nat.lt_succ_of_lt (h.rotations c pc hc)
  | receive c env peer hs =>
      refine freshIds_spawn h none rfl rfl (fun conn s hs' => ?_)
        fun _ _ => hsome
      replace hs' : w.sessions.insert c _ conn = some s := hs'
      rw [Table.insert_apply] at hs'
      split at hs'
      · subst c
        exact hsome hs
      · exact hsome hs'
  | tick c io peer pc t hs ht =>
      refine freshIds_spawn h t.spawned (applySession_pushes ..)
        (applySession_nextId ..) (fun conn s hs' => ?_) fun call pc hpc => ?_
      · rw [applySession_sessions] at hs'
        split at hs'
        · subst conn
          exact hsome hs
        · exact hsome hs'
      · rw [applySession_rotations] at hpc
        exact hsome hpc
  | closeSession c peer hs =>
      refine freshIds_spawn h none rfl rfl (fun conn s hs' => ?_)
        fun _ _ => hsome
      replace hs' : w.sessions.erase c conn = some s := hs'
      exact ((Table.erase_ne_none_iff ..).mp (hsome hs')).2
  | cleanup => exact ⟨h.sessions, h.pushes, h.rotations⟩
  | pushSent rotation member conn share hp =>
      refine ⟨h.sessions, fun id side p hp' => ?_, h.rotations⟩
      have hne := ((Table.erase_ne_none_iff ..).mp (hsome hp')).2
      obtain ⟨p₀, hp₀⟩ := Option.ne_none_iff_exists'.mp hne
      exact h.pushes id side p₀ hp₀
  | pushFailed rotation member conn share hp =>
      refine ⟨h.sessions, fun id side p hp' => ?_, h.rotations⟩
      rcases (Table.insert_ne_none_iff ..).mp (hsome hp') with heq | hne
      · cases heq
        exact h.pushes _ _ _ hp
      · obtain ⟨p₀, hp₀⟩ := Option.ne_none_iff_exists'.mp hne
        exact h.pushes id side p₀ hp₀
  | stash rotation member share hp =>
      refine ⟨h.sessions, fun id side p hp' => ?_, h.rotations⟩
      have hne := ((Table.erase_ne_none_iff ..).mp (hsome hp')).2
      obtain ⟨p₀, hp₀⟩ := Option.ne_none_iff_exists'.mp hne
      exact h.pushes id side p₀ hp₀
  | addLocalMember => exact ⟨h.sessions, h.pushes, h.rotations⟩
  | amend => exact ⟨h.sessions, h.pushes, h.rotations⟩
  | rotate =>
      refine ⟨fun conn s hs => ?_, fun id side p hp => ?_, fun c pc hc => ?_⟩
      · exact Nat.lt_succ_of_lt (h.sessions conn s hs)
      · exact Nat.lt_succ_of_lt (h.pushes id side p hp)
      · replace hc : w.rotations.insert w.nextId .rotate c = some pc := hc
        rw [Table.insert_apply] at hc
        split at hc
        · exact Nat.lt_succ_of_le (Nat.le_of_eq ‹_›)
        · exact Nat.lt_succ_of_lt (h.rotations c pc hc)
  | tickRotation call io pc hr =>
      refine freshIds_spawn h (rotateTick crypto w.host io pc).spawned rfl rfl
        (fun conn s hs' => ?_) fun c pc' hc => ?_
      · rw [applyRotation_sessions] at hs'
        exact hsome hs'
      · rw [applyRotation_rotations] at hc
        split at hc
        · subst c
          exact hsome hr
        · exact hsome hc

-- ========================================================== the ticks

/-- How a step of a session moves shares. -/
inductive ShareTick (crypto : Crypto) (h : VerseHost) (peer : Address)
    (io : Option UInt64) : ServePc → Tick ServePc → Prop where
  /-- No share is moved; the key and the stash stay. -/
  | still (pc : ServePc) (t : Tick ServePc) (hpc : shareOf pc = none)
      (hkey : t.host.contentKey = h.contentKey)
      (hstash : t.host.pendingKeyPushes = h.pendingKeyPushes)
      (hevents : ∀ e ∈ t.events, ∀ side share, e ≠ .delivered side share)
      (hdirect : ∀ e ∈ t.events, ∀ token key, e ≠ .directToken token key)
      (hnext : ∀ next, t.next = some next → shareOf next = none
        ∧ next ≠ .rotating .snapshot
        ∧ ∀ f req arrived c share, next ≠ .joinInsert f req arrived c share)
      (hrotating : pc ≠ .rotating .snapshot)
      (hspawned : t.spawned = none) :
      ShareTick crypto h peer io pc t
  | drained (share : KeyShare) (hshare : h.pendingKeyPushes peer = some share) :
      ShareTick crypto h peer io .drain
        (.go (h.takePendingKeyPush peer).2 (.redeliver share) [])
  | nothingStashed (hshare : h.pendingKeyPushes peer = none) :
      ShareTick crypto h peer io .drain
        (.go (h.takePendingKeyPush peer).2 .accept [])
  | redelivered (share : KeyShare) (hio : io ≠ none) :
      ShareTick crypto h peer io (.redeliver share)
        (.go h .accept [.delivered peer share])
  | redeliverFailed (share : KeyShare) :
      ShareTick crypto h peer io (.redeliver share)
        (.go h (.restash share) [])
  | restashed (share : KeyShare) :
      ShareTick crypto h peer io (.restash share)
        (.go (h.stashPendingKeyPush peer share) .accept [])
  | joinSealed (fromSide : Address) (req : JoinRequestPayload)
      (arrived : Nat) (contract : ContractObject) (share : KeyShare)
      (hmember : share.member = req.side)
      (hkey : share.key = h.contentKey) :
      ShareTick crypto h peer io (.joinSeal fromSide req arrived contract)
        (.go h (.joinInsert fromSide req arrived contract share)
          [.joinSealed share])
  | inserted (fromSide : Address) (req : JoinRequestPayload) (arrived : Nat)
      (contract : ContractObject) (share : KeyShare) :
      ShareTick crypto h peer io
        (.joinInsert fromSide req arrived contract share)
        (.go (h.insertMember req.side contract.version) (.joinSign share)
          [.added req.side (contract.hash crypto) (.join fromSide arrived)])
  | signed (share : KeyShare) :
      ShareTick crypto h peer io (.joinSign share) (.go h (.joinSend share) [])
  | sent (share : KeyShare) (hio : io ≠ none) :
      ShareTick crypto h peer io (.joinSend share)
        (.go h .accept [.delivered peer share])
  | acceptFailed (pc : ServePc) (share : KeyShare)
      (hpc : pc = .joinSign share ∨ pc = .joinSend share) (hio : io = none) :
      ShareTick crypto h peer io pc (.done h)
  | rotated :
      ShareTick crypto h peer io (.rotating .rotate)
        (.go h.rotateContentKey (.rotating .snapshot)
          [.rotated (h.contentKey + 1)])
  | pushed (now : UInt64) (hio : io = some now) :
      ShareTick crypto h peer io (.rotating .snapshot)
        ⟨h, some .accept, [.pushed (h.pushSnapshot crypto now)],
          some (h.pushSnapshot crypto now)⟩
  | pushFailed (hio : io = none) :
      ShareTick crypto h peer io (.rotating .snapshot) (.go h .accept [])

/-- A step at which a session neither has a share nor is about to make
one. -/
def shareless : ServePc → Bool
  | .joinInsert .. => false
  | .rotating .snapshot => false
  | pc => (shareOf pc).isNone

/-- An event that tells nobody a key. -/
def keyless : VerseEvent → Bool
  | .delivered .. => false
  | .directToken .. => false
  | _ => true

theorem shareOf_shareless {pc : ServePc} (h : shareless pc) :
    shareOf pc = none := by
  cases hpc : shareOf pc with
  | none => rfl
  | some share => cases pc <;> cases hpc <;> cases h

theorem shareless_snapshot {pc : ServePc} (h : shareless pc) :
    pc ≠ .rotating .snapshot := by
  rintro rfl
  cases h

theorem shareless_joinInsert {pc : ServePc} (h : shareless pc)
    (fromSide : Address) (req : JoinRequestPayload) (arrived : Nat)
    (contract : ContractObject) (share : KeyShare) :
    pc ≠ .joinInsert fromSide req arrived contract share := by
  rintro rfl
  cases h

/-- A handler that goes on without touching a share. -/
theorem ShareTick.quiet {h h' : VerseHost} {peer : Address}
    {io : Option UInt64} {pc next : ServePc} {es : List VerseEvent}
    (hpc : shareless pc) (hkey : h'.contentKey = h.contentKey)
    (hstash : h'.pendingKeyPushes = h.pendingKeyPushes)
    (hes : es.all keyless) (hnext : shareless next) :
    ShareTick crypto h peer io pc (.go h' next es) := by
  have hkeyless : ∀ e ∈ es, keyless e := List.all_eq_true.mp hes
  refine .still pc _ (shareOf_shareless hpc) hkey hstash
    (fun e he side share heq => ?_) (fun e he token key heq => ?_)
    (fun n hn => ?_) (shareless_snapshot hpc) rfl
  · subst heq
    cases hkeyless _ he
  · subst heq
    cases hkeyless _ he
  · injection hn with hn
    subst hn
    exact ⟨shareOf_shareless hnext, shareless_snapshot hnext,
      shareless_joinInsert hnext⟩

/-- A handler that ends the session without touching a share. -/
theorem ShareTick.ended {h : VerseHost} {peer : Address} {io : Option UInt64}
    {pc : ServePc} (hpc : shareless pc) :
    ShareTick crypto h peer io pc (.done h) := by
  refine .still pc _ (shareOf_shareless hpc) rfl rfl
    (fun e he => absurd he List.not_mem_nil)
    (fun e he => absurd he List.not_mem_nil) (fun n hn => ?_)
    (shareless_snapshot hpc) rfl
  cases hn

theorem serveTick_shares {h : VerseHost} {peer : Address} {conn : ConnId}
    {io : Option UInt64} {pc : ServePc} {t : Tick ServePc}
    (ht : serveTick crypto openPost h peer conn io pc = some t) :
    ShareTick crypto h peer io pc t := by
  cases pc with
  | register =>
      cases ht
      exact .quiet rfl rfl rfl rfl rfl
  | drain =>
      simp only [serveTick] at ht
      split at ht
      case h_1 share hshare =>
        cases ht
        exact .drained share hshare
      case h_2 hnone =>
        cases ht
        exact .nothingStashed hnone
  | redeliver share =>
      cases io <;> cases ht
      · exact .redeliverFailed share
      · exact .redelivered share (Option.some_ne_none _)
  | restash share =>
      cases ht
      exact .restashed share
  | accept => cases ht
  | fetch =>
      cases ht
      exact .quiet rfl rfl rfl rfl rfl
  | reply reply =>
      cases io <;> cases ht
      · exact .ended rfl
      · exact .quiet rfl rfl rfl rfl rfl
  | joinCheck fromSide req arrived =>
      simp only [serveTick] at ht
      split at ht <;> cases ht
      · exact .quiet rfl rfl rfl rfl rfl
      · exact .quiet rfl rfl rfl rfl rfl
  | joinSeal fromSide req arrived contract =>
      cases io <;> cases ht
      · exact .ended rfl
      · exact .joinSealed fromSide req arrived contract _ rfl rfl
  | joinInsert fromSide req arrived contract share =>
      cases ht
      exact .inserted fromSide req arrived contract share
  | joinSign share =>
      cases io <;> cases ht
      · exact .acceptFailed _ share (Or.inl rfl) rfl
      · exact .signed share
  | joinSend share =>
      cases io <;> cases ht
      · exact .acceptFailed _ share (Or.inr rfl) rfl
      · exact .sent share (Option.some_ne_none _)
  | leave leave =>
      cases ht
      refine .quiet rfl rfl rfl rfl ?_
      split
      · rfl
      · split <;> rfl
  | retract leave =>
      cases ht
      exact .quiet rfl rfl rfl rfl rfl
  | moderate fromSide remove =>
      simp only [serveTick] at ht
      split at ht <;>
        (cases ht; exact .quiet rfl rfl rfl rfl rfl)
  | remove remove =>
      cases ht
      refine .quiet rfl rfl rfl rfl ?_
      split <;> rfl
  | rotating pc =>
      cases pc with
      | rotate =>
          cases io <;> cases ht
          · exact .quiet rfl rfl rfl rfl rfl
          · exact .rotated
      | snapshot =>
          cases io <;> cases ht
          · exact .pushFailed rfl
          · exact .pushed _ rfl
  | reconsent fromSide contractHash =>
      simp only [serveTick] at ht
      split at ht
      case h_1 =>
        cases ht
        exact .quiet rfl rfl rfl rfl rfl
      case h_2 h' hr =>
        cases ht
        have hsame : h'.contentKey = h.contentKey
            ∧ h'.pendingKeyPushes = h.pendingKeyPushes := by
          unfold VerseHost.reconsent at hr
          split at hr
          · cases hr
          · split at hr <;> cases hr
            exact ⟨rfl, rfl⟩
        exact .quiet rfl hsame.1 hsame.2 rfl rfl
  | postVersion post =>
      cases ht
      exact .quiet rfl rfl rfl rfl rfl
  | postAdmit post version =>
      simp only [serveTick] at ht
      split at ht <;> cases ht
      · exact .quiet rfl rfl rfl rfl rfl
      · exact .quiet rfl rfl rfl rfl rfl
  | postOpen post =>
      simp only [serveTick] at ht
      split at ht <;>
        (cases ht; exact .quiet rfl rfl rfl rfl rfl)
  | postRetain post =>
      cases ht
      exact .quiet rfl rfl rfl rfl rfl

namespace ShareTick

section facts

variable {h : VerseHost} {peer side : Address} {io : Option UInt64}
  {pc next : ServePc} {t : Tick ServePc} {share : KeyShare}

/-- A session delivers the share it held. -/
theorem of_delivered (ht : ShareTick crypto h peer io pc t)
    (hevent : .delivered side share ∈ t.events) :
    side = peer ∧ shareOf pc = some share := by
  cases ht with
  | still _ _ hpc hkey hstash hevents =>
      exact absurd rfl (hevents _ hevent side share)
  | redelivered share₀ =>
      cases List.mem_singleton.mp hevent
      exact ⟨rfl, rfl⟩
  | sent share₀ =>
      cases List.mem_singleton.mp hevent
      exact ⟨rfl, rfl⟩
  | joinSealed => cases List.mem_singleton.mp hevent
  | inserted => cases List.mem_singleton.mp hevent
  | rotated => cases List.mem_singleton.mp hevent
  | pushed => cases List.mem_singleton.mp hevent
  | _ => cases hevent

/-- A session hands no key to a local caller. -/
theorem not_direct (ht : ShareTick crypto h peer io pc t)
    {token : MembershipToken} {key : VerseContentKey} :
    .directToken token key ∉ t.events := by
  intro hevent
  cases ht with
  | still _ _ hpc hkey hstash hevents hdirect =>
      exact hdirect _ hevent token key rfl
  | redelivered => cases List.mem_singleton.mp hevent
  | sent => cases List.mem_singleton.mp hevent
  | joinSealed => cases List.mem_singleton.mp hevent
  | inserted => cases List.mem_singleton.mp hevent
  | rotated => cases List.mem_singleton.mp hevent
  | pushed => cases List.mem_singleton.mp hevent
  | _ => cases hevent

/-- A session stashes the share it held, in its peer's slot. -/
theorem of_slot (ht : ShareTick crypto h peer io pc t)
    (hslot : t.host.pendingKeyPushes side = some share) :
    h.pendingKeyPushes side = some share
      ∨ (side = peer ∧ pc = .restash share) := by
  cases ht with
  | still _ _ hpc hkey hstash =>
      rw [hstash] at hslot
      exact Or.inl hslot
  | drained =>
      replace hslot : h.pendingKeyPushes.erase peer side = some share := hslot
      rw [Table.erase_apply] at hslot
      split at hslot
      · cases hslot
      · exact Or.inl hslot
  | nothingStashed =>
      replace hslot : h.pendingKeyPushes.erase peer side = some share := hslot
      rw [Table.erase_apply] at hslot
      split at hslot
      · cases hslot
      · exact Or.inl hslot
  | restashed share₀ =>
      replace hslot : h.pendingKeyPushes.insert peer share₀ side
        = some share := hslot
      rw [Table.insert_apply] at hslot
      split at hslot
      · cases hslot
        exact Or.inr ⟨‹_›, rfl⟩
      · exact Or.inl hslot
  | _ => exact Or.inl hslot

/-- A session spawns pushes of the current key, sealed to members. -/
theorem of_spawned (ht : ShareTick crypto h peer io pc t)
    {table : Table Address (ConnId × KeyShare)} {conn : ConnId}
    (hspawned : t.spawned = some table)
    (hshare : table side = some (conn, share)) :
    share.member = side ∧ share.key = h.contentKey
      ∧ h.members side ≠ none := by
  cases ht with
  | still _ _ hpc hkey hstash hevents hdirect hnext hrotating hnone =>
      rw [hnone] at hspawned
      cases hspawned
  | pushed now =>
      cases hspawned
      obtain ⟨-, hmember, rfl⟩ := VerseHost.pushSnapshot_eq_some.mp hshare
      exact ⟨rfl, rfl, hmember⟩
  | _ => cases hspawned

/-- A session holds what it held, what it took from its peer's slot, or the
share of the join it inserted. -/
theorem of_next (ht : ShareTick crypto h peer io pc t)
    (hnext : t.next = some next) (hshare : shareOf next = some share) :
    shareOf pc = some share
      ∨ (h.pendingKeyPushes peer = some share
        ∧ t.host.pendingKeyPushes peer = none)
      ∨ ∃ fromSide req arrived contract,
        pc = .joinInsert fromSide req arrived contract share := by
  cases ht with
  | still _ _ hpc hkey hstash hevents hdirect hother =>
      rw [(hother next hnext).1] at hshare
      cases hshare
  | drained share₀ hslot =>
      cases hnext
      cases hshare
      exact Or.inr (Or.inl ⟨hslot, Table.erase_self ..⟩)
  | redeliverFailed share₀ =>
      cases hnext
      exact Or.inl hshare
  | inserted fromSide req arrived contract share₀ =>
      cases hnext
      cases hshare
      exact Or.inr (Or.inr ⟨fromSide, req, arrived, contract, rfl⟩)
  | signed share₀ =>
      cases hnext
      exact Or.inl hshare
  | acceptFailed => cases hnext
  | _ =>
      cases hnext
      cases hshare

/-- A session about to insert a join just sealed the current key for it. -/
theorem of_joinInsert (ht : ShareTick crypto h peer io pc t)
    {fromSide : Address} {req : JoinRequestPayload} {arrived : Nat}
    {contract : ContractObject}
    (hnext : t.next
      = some (.joinInsert fromSide req arrived contract share)) :
    share.member = req.side ∧ share.key = h.contentKey
      ∧ pc = .joinSeal fromSide req arrived contract := by
  cases ht with
  | still _ _ hpc hkey hstash hevents hdirect hother =>
      exact absurd rfl ((hother _ hnext).2.2 fromSide req arrived contract
        share)
  | joinSealed f r a c share₀ hmember hkey =>
      cases hnext
      exact ⟨hmember, hkey, rfl⟩
  | acceptFailed => cases hnext
  | _ => cases hnext

/-- A session leaves the key or rotates it and has its snapshot to take. -/
theorem key_cases (ht : ShareTick crypto h peer io pc t) :
    t.host.contentKey = h.contentKey
      ∨ (t.host.contentKey = h.contentKey + 1
        ∧ t.next = some (.rotating .snapshot)) := by
  cases ht with
  | still _ _ hpc hkey => exact Or.inl hkey
  | rotated => exact Or.inr ⟨rfl, rfl⟩
  | _ => exact Or.inl rfl

end facts

end ShareTick

-- ====================================================== moving shares

/-- A step of a session keeps a share where it is, unless it is in the
side's stash slot or held by that session. -/
theorem holds_applySession {w : VerseWorld} {conn : ConnId}
    {peer side : Address} {pc : ServePc} {t : Tick ServePc}
    {share : KeyShare} {P : Prop} (hids : FreshIds w)
    (hs : w.sessions conn = some ⟨peer, pc⟩) (h : Holds w side share)
    (hkeep : Holds (w.applySession conn peer t) side share → P)
    (hstash : w.host.pendingKeyPushes side = some share → P)
    (hheld : peer = side → shareOf pc = some share → P) : P := by
  cases h with
  | delivered h =>
      refine hkeep (.delivered ?_)
      rw [applySession_log]
      exact List.mem_append_left _ h
  | stashed h => exact hstash h
  | pushed id p h hp =>
      refine hkeep (.pushed id p ?_ hp)
      rw [applySession_pushes]
      exact spawn_pushes_old hids t.spawned h
  | held c pc' h hpc =>
      by_cases heq : c = conn
      · subst heq
        rw [hs] at h
        injection h with h
        injection h with hpeer hpc'
        subst hpeer hpc'
        exact hheld rfl hpc
      · refine hkeep (.held c pc' ?_ hpc)
        rw [applySession_sessions, if_neg heq]
        exact h

/-- A session that goes on holds the share of its next step. -/
theorem holds_next {w : VerseWorld} {conn : ConnId} {peer : Address}
    {t : Tick ServePc} {next : ServePc} {share : KeyShare}
    (hnext : t.next = some next) (hpc : shareOf next = some share) :
    Holds (w.applySession conn peer t) peer share := by
  refine .held conn next ?_ hpc
  rw [applySession_sessions, if_pos rfl, hnext]
  rfl

/-- A share a session sent. -/
theorem holds_sent {w : VerseWorld} {conn : ConnId} {peer : Address}
    {t : Tick ServePc} {share : KeyShare}
    (hsent : .delivered peer share ∈ t.events) :
    Holds (w.applySession conn peer t) peer share := by
  refine .delivered ?_
  rw [applySession_log]
  exact List.mem_append_right _ hsent

/-- A share in the stash slot after a session's step. -/
theorem holds_slot {w : VerseWorld} {conn : ConnId} {peer side : Address}
    {t : Tick ServePc} {share : KeyShare}
    (hslot : t.host.pendingKeyPushes side = some share) :
    Holds (w.applySession conn peer t) side share := by
  refine .stashed ?_
  rw [applySession_host]
  exact hslot

/-- A spawned push carries its share. -/
theorem holds_spawned {w w' : VerseWorld}
    {table : Table Address (ConnId × KeyShare)} {side : Address}
    {conn : ConnId} {share : KeyShare}
    (hpushes : w'.pushes = (w.spawn (some table)).pushes)
    (hshare : table side = some (conn, share)) : Holds w' side share := by
  refine .pushed w.nextId (.sending conn share) ?_ rfl
  rw [hpushes]
  exact (if_pos rfl).trans (by rw [hshare]; rfl)

/-- A rotation delivers nothing and leaves the stash. -/
theorem rotateTick_still (crypto : Crypto) (h : VerseHost)
    (io : Option UInt64) (pc : RotatePc) :
    (rotateTick crypto h io pc).host.pendingKeyPushes = h.pendingKeyPushes
      ∧ (∀ side share,
        .delivered side share ∉ (rotateTick crypto h io pc).events)
      ∧ ∀ token key,
        .directToken token key ∉ (rotateTick crypto h io pc).events := by
  cases pc <;> cases io <;>
    refine ⟨rfl, fun side share he => ?_, fun token key he => ?_⟩ <;>
    first
      | cases List.mem_singleton.mp he
      | cases he

/-- A rotation leaves the key, or rotates it and has its snapshot to
take. -/
theorem rotateTick_key (crypto : Crypto) (h : VerseHost)
    (io : Option UInt64) (pc : RotatePc) :
    (rotateTick crypto h io pc).host.contentKey = h.contentKey
      ∨ ((rotateTick crypto h io pc).host.contentKey = h.contentKey + 1
        ∧ (rotateTick crypto h io pc).next = some .snapshot) := by
  cases pc with
  | rotate =>
      cases io with
      | none => exact Or.inl rfl
      | some now => exact Or.inr ⟨rfl, rfl⟩
  | snapshot => cases io <;> exact Or.inl rfl

/-- A rotation spawns pushes of the current key, sealed to members. -/
theorem rotateTick_spawned {h : VerseHost} {io : Option UInt64}
    {pc : RotatePc} {table : Table Address (ConnId × KeyShare)}
    {side : Address} {conn : ConnId} {share : KeyShare}
    (hspawned : (rotateTick crypto h io pc).spawned = some table)
    (hshare : table side = some (conn, share)) :
    share.member = side ∧ share.key = h.contentKey
      ∧ h.members side ≠ none := by
  cases pc with
  | rotate => cases io <;> cases hspawned
  | snapshot =>
      cases io with
      | none => cases hspawned
      | some now =>
          cases hspawned
          obtain ⟨-, hmember, rfl⟩ :=
            VerseHost.pushSnapshot_eq_some.mp hshare
          exact ⟨rfl, rfl, hmember⟩

-- ============================================== where a share came from

/-- Where a share that is in some place after a step came from. -/
inductive ShareOrigin (w : VerseWorld) (a : VerseAction) (side : Address)
    (share : KeyShare) : Prop where
  | old (h : Holds w side share)
  | fresh (hmember : share.member = side)
      (hkey : share.key = w.host.contentKey)
  | joined (conn : ConnId) (io : Option UInt64) (fromSide : Address)
      (req : JoinRequestPayload) (arrived : Nat) (contract : ContractObject)
      (ha : a = .tick conn io)
      (hs : w.sessions conn
        = some ⟨side, .joinInsert fromSide req arrived contract share⟩)

theorem holds_origin {w w' : VerseWorld} {a : VerseAction} {side : Address}
    {share : KeyShare} (hstep : verseStep crypto openPost w a = some w')
    (h : Holds w' side share) : ShareOrigin w a side share := by
  cases h with
  | held conn pc hs' hpc =>
      cases sessions_step hstep hs' with
      | same _ hs => exact .old (.held conn pc hs hpc)
      | opened => cases hpc
      | received env =>
          unfold serveReceive at hpc
          (repeat' split at hpc) <;> cases hpc
      | ticked io pc₀ t next ha hs ht hnext =>
          rcases (serveTick_shares ht).of_next hnext hpc with
            hheld | ⟨hslot, -⟩ | ⟨fromSide, req, arrived, contract, rfl⟩
          · exact .old (.held conn pc₀ hs hheld)
          · exact .old (.stashed hslot)
          · exact .joined conn io fromSide req arrived contract ha hs
  | delivered hlog =>
      cases verseStep_cases hstep with
      | tick conn io peer pc t hs ht =>
          rw [applySession_log] at hlog
          rcases List.mem_append.mp hlog with hold | hnew
          · exact .old (.delivered hold)
          · obtain ⟨rfl, hpc⟩ := (serveTick_shares ht).of_delivered hnew
            exact .old (.held conn pc hs hpc)
      | pushSent id member conn share₀ hp =>
          rcases List.mem_append.mp hlog with hold | hnew
          · exact .old (.delivered hold)
          · cases List.mem_singleton.mp hnew
            exact .old (.pushed id _ hp rfl)
      | addLocalMember s issuedAt =>
          rcases List.mem_append.mp hlog with hold | hnew
          · exact .old (.delivered hold)
          · rcases List.mem_cons.mp hnew with heq | hnew
            · cases heq
            · cases List.mem_singleton.mp hnew
      | tickRotation call io pc hr =>
          rcases List.mem_append.mp hlog with hold | hnew
          · exact .old (.delivered hold)
          · exact absurd hnew ((rotateTick_still ..).2.1 side share)
      | _ => exact .old (.delivered hlog)
  | stashed hslot =>
      cases verseStep_cases hstep with
      | tick conn io peer pc t hs ht =>
          rw [applySession_host] at hslot
          rcases (serveTick_shares ht).of_slot hslot with hold | ⟨rfl, rfl⟩
          · exact .old (.stashed hold)
          · exact .old (.held conn _ hs rfl)
      | stash id member share₀ hp =>
          replace hslot : w.host.pendingKeyPushes.insert member share₀ side
            = some share := hslot
          rw [Table.insert_apply] at hslot
          split at hslot
          case isTrue heq =>
            subst heq
            cases hslot
            exact .old (.pushed id _ hp rfl)
          case isFalse => exact .old (.stashed hslot)
      | tickRotation call io pc hr =>
          replace hslot : (rotateTick crypto w.host io pc
            ).host.pendingKeyPushes side = some share := hslot
          rw [(rotateTick_still ..).1] at hslot
          exact .old (.stashed hslot)
      | _ => exact .old (.stashed hslot)
  | pushed id p hp hshare =>
      cases verseStep_cases hstep with
      | tick conn io peer pc t hs ht =>
          rw [applySession_pushes] at hp
          rcases spawn_pushes_cases hp with
            hold | ⟨table, c, s, hspawned, hs', rfl, -⟩
          · exact .old (.pushed id p hold hshare)
          · cases hshare
            obtain ⟨hmember, hkey, -⟩ :=
              (serveTick_shares ht).of_spawned hspawned hs'
            exact .fresh hmember hkey
      | pushSent id₀ member conn share₀ hp₀ =>
          replace hp : w.pushes.erase (id₀, member) (id, side) = some p := hp
          rw [Table.erase_apply] at hp
          split at hp
          · cases hp
          · exact .old (.pushed id p hp hshare)
      | pushFailed id₀ member conn share₀ hp₀ =>
          replace hp : w.pushes.insert (id₀, member) (.failed share₀)
            (id, side) = some p := hp
          rw [Table.insert_apply] at hp
          split at hp
          case isTrue heq =>
            cases heq
            cases hp
            exact .old (.pushed _ _ hp₀ hshare)
          case isFalse => exact .old (.pushed id p hp hshare)
      | stash id₀ member share₀ hp₀ =>
          replace hp : w.pushes.erase (id₀, member) (id, side) = some p := hp
          rw [Table.erase_apply] at hp
          split at hp
          · cases hp
          · exact .old (.pushed id p hp hshare)
      | tickRotation call io pc hr =>
          replace hp : (w.spawn (rotateTick crypto w.host io pc).spawned
            ).pushes (id, side) = some p := hp
          rcases spawn_pushes_cases hp with
            hold | ⟨table, c, s, hspawned, hs', rfl, -⟩
          · exact .old (.pushed id p hold hshare)
          · cases hshare
            obtain ⟨hmember, hkey, -⟩ := rotateTick_spawned hspawned hs'
            exact .fresh hmember hkey
      | _ => exact .old (.pushed id p hp hshare)

/-- The key stays, or a rotation installed the next one and has its
snapshot to take. -/
theorem key_step {w w' : VerseWorld} {a : VerseAction}
    (hstep : verseStep crypto openPost w a = some w') :
    w'.host.contentKey = w.host.contentKey
      ∨ (w'.host.contentKey = w.host.contentKey + 1
        ∧ ((∃ conn peer, w'.sessions conn
            = some ⟨peer, .rotating .snapshot⟩)
          ∨ ∃ call, w'.rotations call = some .snapshot)) := by
  cases verseStep_cases hstep with
  | tick conn io peer pc t hs ht =>
      rw [applySession_host]
      rcases (serveTick_shares ht).key_cases with hsame | ⟨hkey, hnext⟩
      · exact Or.inl hsame
      · refine Or.inr ⟨hkey, Or.inl ⟨conn, peer, ?_⟩⟩
        rw [applySession_sessions, if_pos rfl, hnext]
        rfl
  | tickRotation call io pc hr =>
      rcases rotateTick_key crypto w.host io pc with hsame | ⟨hkey, hnext⟩
      · exact Or.inl hsame
      · refine Or.inr ⟨hkey, Or.inr ⟨call, ?_⟩⟩
        rw [applyRotation_rotations, if_pos rfl, hnext]
  | _ => exact Or.inl rfl

theorem contentKey_le_step {w w' : VerseWorld} {a : VerseAction}
    (hstep : verseStep crypto openPost w a = some w') :
    w.host.contentKey ≤ w'.host.contentKey := by
  rcases key_step hstep with hkey | ⟨hkey, -⟩
  · exact Nat.le_of_eq hkey.symm
  · exact hkey ▸ Nat.le_succ _

end Sidevers.Proofs
