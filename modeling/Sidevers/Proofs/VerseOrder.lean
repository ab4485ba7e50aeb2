/-
In which order the content keys of a verse reach a member.

# The world

`DeliveryWorld` adds the way from the host to a member: a share that was
sent arrives at any later time, in any order, or is lost. What a member
holds is the key of the share that arrived last (`memberAfter_concat`).

# Where order is lost

Nothing compares the ages of two shares: a push that fails late is stashed
over a newer one, an old stash is redelivered after a newer push arrived,
and a member applies what comes. `InOrder` is the condition that no share
overtakes an older one for the same member; under it the slot and the member
only ever see newer keys (`OrderInv`).
-/
import Mathlib.Data.List.Induction
import Sidevers.Net.Membership
import Sidevers.Proofs.VerseKeys
import Sidevers.Proofs.VerseMembers

namespace Sidevers.Proofs

open Sidevers.Core
open Sidevers.Lib
open Sidevers.Net

variable {crypto : Crypto}
  {openPost : VerseContentKey → VersePostPayload → Option (List UInt8)}

-- ============================================================ the world

/-- A hosted verse, and the shares that left it. -/
structure DeliveryWorld where
  verse : VerseWorld
  /-- Positions in the log of the shares that arrived, in their order. -/
  arrived : List Nat
  lost : List Nat

/-- What can happen. -/
inductive DeliveryAction where
  | host (a : VerseAction)
  | arrive (i : Nat)
  | lose (i : Nat)

namespace DeliveryWorld

/-- The share that was sent to the side at this position of the log. -/
def sentTo (d : DeliveryWorld) (side : Address) (i : Nat) :
    Option KeyShare :=
  match d.verse.log[i]? with
  | some (.delivered peer share) =>
      if peer = side ∧ share.member = side then some share else none
  | _ => none

/-- The shares that arrived at a side, in their order. -/
def received (d : DeliveryWorld) (side : Address) : List KeyShare :=
  d.arrived.filterMap (d.sentTo side)

/-- Something was sent at this position and is still on its way. -/
def underway (d : DeliveryWorld) (i : Nat) : Bool :=
  match d.verse.log[i]? with
  | some (.delivered _ _) => i ∉ d.arrived && i ∉ d.lost
  | _ => false

end DeliveryWorld

/-- The step function. -/
def deliveryStep (crypto : Crypto)
    (openPost : VerseContentKey → VersePostPayload → Option (List UInt8))
    (d : DeliveryWorld) : DeliveryAction → Option DeliveryWorld
  | .host a =>
      (verseStep crypto openPost d.verse a).map fun w => { d with verse := w }
  | .arrive i =>
      if d.underway i then some { d with arrived := d.arrived ++ [i] }
      else none
  | .lose i =>
      if d.underway i then some { d with lost := d.lost ++ [i] } else none

/-- A verse that was just hosted. -/
def DeliveryWorld.init (contract : ContractObject) : DeliveryWorld :=
  ⟨.init (.new contract), [], []⟩

-- ============================================================ the member

/-- A share that arrived: in the answer to a join request, or in a push. -/
structure Receipt where
  share : KeyShare
  nonce : Nonce
  answer : Bool

/-- The key of a `JOIN_ACCEPT` is taken as `request_join` takes it. -/
def takeAnswer (side : Address) (m : VerseMembership)
    (env : Envelope (Except Core.Error JoinAcceptPayload)) :
    Except Net.Error VerseMembership :=
  match env.payload with
  | .error e => .error (.core e)
  | .ok accept =>
      match openContentKey accept side m.verse with
      | .error e => .error e
      | .ok key =>
          .ok { m with
            contentKey := key, membershipToken := accept.membershipToken }

/-- What a member does with what arrives: it applies what it can. -/
def takeReceipt (wire : MembershipToken → List UInt8) (verse side : Address)
    (m : VerseMembership) (r : Receipt) : VerseMembership :=
  let env := r.share.push wire verse r.nonce
  let result :=
    if r.answer then takeAnswer side m env
    else applyVerseKeyRotation side m env
  match result with
  | .ok m' => m'
  | .error _ => m

/-- The member after these shares arrived. -/
def memberAfter (wire : MembershipToken → List UInt8) (verse side : Address)
    (m : VerseMembership) (receipts : List Receipt) : VerseMembership :=
  receipts.foldl (takeReceipt wire verse side) m

section member

variable {wire : MembershipToken → List UInt8} {side : Address}
  {m : VerseMembership}

theorem takeAnswer_push {nonce : Nonce} {share : KeyShare} :
    takeAnswer share.member m (share.push wire m.verse nonce)
      = .ok { m with
        contentKey := share.key, membershipToken := wire share.token } := by
  simp [takeAnswer, KeyShare.push, openContentKey, SealedContentKey.open]

/-- A share sealed to the member is taken over, however it came. -/
theorem takeReceipt_own (wire : MembershipToken → List UInt8)
    (m : VerseMembership) {r : Receipt} (hmember : r.share.member = side) :
    takeReceipt wire m.verse side m r
      = { m with
        contentKey := r.share.key, membershipToken := wire r.share.token } := by
  subst hmember
  unfold takeReceipt
  dsimp only
  rw [takeAnswer_push, applyVerseKeyRotation_push, ite_self]

theorem memberAfter_verse (wire : MembershipToken → List UInt8)
    (m : VerseMembership) {receipts : List Receipt}
    (hmember : ∀ r ∈ receipts, r.share.member = side) :
    (memberAfter wire m.verse side m receipts).verse = m.verse := by
  induction receipts using List.reverseRecOn with
  | nil => rfl
  | append_singleton rest r ih =>
      have hrest := ih fun r' hr' =>
        hmember r' (List.mem_append_left _ hr')
      have hown := takeReceipt_own wire
        (memberAfter wire m.verse side m rest)
        (hmember r (List.mem_append_right _ (List.mem_singleton_self r)))
      rw [hrest] at hown
      unfold memberAfter at hown ⊢
      rw [List.foldl_append, List.foldl_cons, List.foldl_nil, hown]

/-- A member holds the key of the share that arrived last. -/
theorem memberAfter_concat {receipts : List Receipt} {r : Receipt}
    (hmember : ∀ r' ∈ receipts ++ [r], r'.share.member = side) :
    (memberAfter wire m.verse side m (receipts ++ [r])).contentKey
      = r.share.key := by
  have hverse := memberAfter_verse wire m fun r' hr' =>
    hmember r' (List.mem_append_left _ hr')
  have hown := takeReceipt_own wire
    (memberAfter wire m.verse side m receipts)
    (hmember r (List.mem_append_right _ (List.mem_singleton_self r)))
  rw [hverse] at hown
  unfold memberAfter at hown ⊢
  rw [List.foldl_append, List.foldl_cons, List.foldl_nil, hown]

end member

-- ========================================================= what is pending

/-- The share is on its way to the side within the host: a push carries it,
or a session of the side is about to send it. -/
inductive InFlight (w : VerseWorld) (side : Address) (share : KeyShare) :
    Prop where
  | pushed (id : Nat) (p : KeyPush) (h : w.pushes (id, side) = some p)
      (hp : pushShare p = share)
  | held (conn : ConnId) (pc : ServePc)
      (h : w.sessions conn = some ⟨side, pc⟩) (hpc : shareOf pc = some share)
  | sealed (conn : ConnId) (fromSide : Address) (req : JoinRequestPayload)
      (arrived : Nat) (contract : ContractObject)
      (h : w.sessions conn
        = some ⟨side, .joinInsert fromSide req arrived contract share⟩)

/-- The share of a session that redelivers. -/
def redelivering : ServePc → Option KeyShare
  | .redeliver share => some share
  | .restash share => some share
  | _ => none

/-- The share goes back to the slot if it cannot be sent. -/
inductive Stashable (w : VerseWorld) (side : Address) (share : KeyShare) :
    Prop where
  | pushed (id : Nat) (p : KeyPush) (h : w.pushes (id, side) = some p)
      (hp : pushShare p = share)
  | held (conn : ConnId) (pc : ServePc)
      (h : w.sessions conn = some ⟨side, pc⟩)
      (hpc : redelivering pc = some share)

theorem shareOf_of_redelivering {pc : ServePc} {share : KeyShare}
    (h : redelivering pc = some share) : shareOf pc = some share := by
  unfold redelivering at h
  split at h
  case h_1 => exact h
  case h_2 => exact h
  case h_3 => cases h

theorem Stashable.inFlight {w : VerseWorld} {side : Address}
    {share : KeyShare} (h : Stashable w side share) :
    InFlight w side share := by
  cases h with
  | pushed id p h hp => exact .pushed id p h hp
  | held conn pc h hpc =>
      exact .held conn pc h (shareOf_of_redelivering hpc)

/-- A session redelivers what it redelivered, or took from the slot. -/
theorem redelivering_next {h : VerseHost} {peer : Address}
    {io : Option UInt64} {pc next : ServePc} {t : Tick ServePc}
    {share : KeyShare} (ht : ShareTick crypto h peer io pc t)
    (hnext : t.next = some next) (hshare : redelivering next = some share) :
    redelivering pc = some share
      ∨ (h.pendingKeyPushes peer = some share
        ∧ t.host.pendingKeyPushes peer = none) := by
  cases ht with
  | still _ _ hpc hkey hstash hevents hdirect hother =>
      have hnone := (hother next hnext).1
      rw [shareOf_of_redelivering hshare] at hnone
      cases hnone
  | drained share₀ hslot =>
      cases hnext
      cases hshare
      exact Or.inr ⟨hslot, Table.erase_self _ _⟩
  | redeliverFailed share₀ =>
      cases hnext
      exact Or.inl hshare
  | acceptFailed => cases hnext
  | _ =>
      cases hnext
      cases hshare

/-- The current key was just sealed in the share: in the pushes of a
rotation, to a member, or for a join. -/
def JustSealed (w : VerseWorld) (share : KeyShare) : Prop :=
  share.key = w.host.contentKey
    ∧ (w.host.members share.member ≠ none
      ∨ ∃ conn peer pc j, w.sessions conn = some ⟨peer, pc⟩
        ∧ joinOf pc = some j ∧ j.2.1.side = share.member)

/-- Where a pushed share came from: it was pushed, or was just sealed. -/
theorem pushed_origin {w w' : VerseWorld} {a : VerseAction} {id : Nat}
    {side : Address} {p : KeyPush}
    (hstep : verseStep crypto openPost w a = some w')
    (hp : w'.pushes (id, side) = some p) :
    (∃ p₀, w.pushes (id, side) = some p₀ ∧ pushShare p₀ = pushShare p)
      ∨ ((pushShare p).member = side ∧ JustSealed w (pushShare p)) := by
  have hnew : (pushShare p).member = side
      ∧ (pushShare p).key = w.host.contentKey ∧ w.host.members side ≠ none →
      (pushShare p).member = side ∧ JustSealed w (pushShare p) := by
    intro ⟨hside, hkey, hmember⟩
    refine ⟨hside, hkey, Or.inl ?_⟩
    rw [hside]
    exact hmember
  cases verseStep_cases hstep with
  | tick conn io peer pc t hs ht =>
      rw [applySession_pushes] at hp
      rcases spawn_pushes_cases hp with
        hold | ⟨table, c, s, hspawned, hs', rfl, -⟩
      · exact Or.inl ⟨p, hold, rfl⟩
      · exact Or.inr (hnew
          ((serveTick_shares ht).of_spawned hspawned hs'))
  | pushSent id₀ member conn share₀ hp₀ =>
      exact Or.inl ⟨p, ((Table.erase_eq_some_iff ..).mp hp).2, rfl⟩
  | pushFailed id₀ member conn share₀ hp₀ =>
      rcases (Table.insert_eq_some_iff ..).mp hp with ⟨heq, rfl⟩ | ⟨-, hold⟩
      · cases heq
        exact Or.inl ⟨_, hp₀, rfl⟩
      · exact Or.inl ⟨p, hold, rfl⟩
  | stash id₀ member share₀ hp₀ =>
      exact Or.inl ⟨p, ((Table.erase_eq_some_iff ..).mp hp).2, rfl⟩
  | tickRotation call io pc hr =>
      replace hp : (w.spawn (rotateTick crypto w.host io pc).spawned
        ).pushes (id, side) = some p := hp
      rcases spawn_pushes_cases hp with
        hold | ⟨table, c, s, hspawned, hs', rfl, -⟩
      · exact Or.inl ⟨p, hold, rfl⟩
      · exact Or.inr (hnew (rotateTick_spawned hspawned hs'))
  | _ => exact Or.inl ⟨p, hp, rfl⟩

/-- Where a share in flight after a step came from: it was in flight, it was
taken from the slot, or it was just sealed. -/
theorem inFlight_origin {w w' : VerseWorld} {a : VerseAction}
    {side : Address} {share : KeyShare}
    (hstep : verseStep crypto openPost w a = some w')
    (h : InFlight w' side share) :
    InFlight w side share ∨ w.host.pendingKeyPushes side = some share
      ∨ JustSealed w share := by
  cases h with
  | held conn pc hs' hpc =>
      cases sessions_step hstep hs' with
      | same _ hs => exact Or.inl (.held conn pc hs hpc)
      | opened => cases hpc
      | received env =>
          unfold serveReceive at hpc
          (repeat' split at hpc) <;> cases hpc
      | ticked io pc₀ t next ha hs ht hnext =>
          rcases (serveTick_shares ht).of_next hnext hpc with
            hheld | ⟨hslot, -⟩ | ⟨fromSide, req, arrived, contract, rfl⟩
          · exact Or.inl (.held conn pc₀ hs hheld)
          · exact Or.inr (Or.inl hslot)
          · exact Or.inl (.sealed conn fromSide req arrived contract hs)
  | sealed conn fromSide req arrived contract hs' =>
      generalize hpc : ServePc.joinInsert fromSide req arrived contract share
        = pc at hs'
      cases sessions_step hstep hs' with
      | same _ hs =>
          exact Or.inl (.sealed conn fromSide req arrived contract (hpc ▸ hs))
      | opened => cases hpc
      | received env =>
          unfold serveReceive at hpc
          (repeat' split at hpc) <;> cases hpc
      | ticked io pc₀ t next ha hs ht hnext =>
          subst hpc
          obtain ⟨hmember, hkey, rfl⟩ :=
            (serveTick_shares ht).of_joinInsert hnext
          exact Or.inr (Or.inr ⟨hkey, Or.inr ⟨conn, side, _, _, hs, rfl,
            hmember.symm⟩⟩)
  | pushed id p hp hshare =>
      subst hshare
      rcases pushed_origin hstep hp with ⟨p₀, hp₀, hshare⟩ | ⟨-, hnew⟩
      · exact Or.inl (.pushed id p₀ hp₀ hshare)
      · exact Or.inr (Or.inr hnew)

/-- A share that may be stashed after a step could be before, was taken from
the slot, or was just sealed. -/
theorem stashable_origin {w w' : VerseWorld} {a : VerseAction}
    {side : Address} {share : KeyShare}
    (hstep : verseStep crypto openPost w a = some w')
    (h : Stashable w' side share) :
    Stashable w side share
      ∨ (w.host.pendingKeyPushes side = some share
        ∧ w'.host.pendingKeyPushes side = none)
      ∨ JustSealed w share := by
  cases h with
  | held conn pc hs' hpc =>
      cases sessions_step hstep hs' with
      | same _ hs => exact Or.inl (.held conn pc hs hpc)
      | opened => cases hpc
      | received env =>
          unfold serveReceive at hpc
          (repeat' split at hpc) <;> cases hpc
      | ticked io pc₀ t next ha hs ht hnext =>
          subst ha
          obtain rfl := Option.some.inj ((verseStep_tick hs ht).symm.trans
            hstep)
          rcases redelivering_next (serveTick_shares ht) hnext hpc with
            hheld | ⟨hslot, hnone⟩
          · exact Or.inl (.held conn pc₀ hs hheld)
          · rw [applySession_host]
            exact Or.inr (Or.inl ⟨hslot, hnone⟩)
  | pushed id p hp hshare =>
      subst hshare
      rcases pushed_origin hstep hp with ⟨p₀, hp₀, hshare⟩ | ⟨-, hnew⟩
      · exact Or.inl (.pushed id p₀ hp₀ hshare)
      · exact Or.inr (Or.inr hnew)

/-- The share a step puts into a side's slot. -/
def stashing (w : VerseWorld) : VerseAction → Option (Address × KeyShare)
  | .tick conn _ =>
      match w.sessions conn with
      | some ⟨peer, .restash share⟩ => some (peer, share)
      | _ => none
  | .stash rotation member =>
      match w.pushes (rotation, member) with
      | some (.failed share) => some (member, share)
      | _ => none
  | _ => none

theorem stashable_of_stashing {w : VerseWorld} {a : VerseAction}
    {side : Address} {share : KeyShare}
    (h : stashing w a = some (side, share)) : Stashable w side share := by
  unfold stashing at h
  split at h
  case h_1 conn io =>
      split at h
      case h_1 peer share₀ hs =>
          cases h
          exact .held conn _ hs rfl
      case h_2 => cases h
  case h_2 rotation member =>
      split at h
      case h_1 share₀ hp =>
          cases h
          exact .pushed rotation _ hp rfl
      case h_2 => cases h
  case h_3 => cases h

/-- What is in a slot was there or was just stashed. -/
theorem slot_origin {w w' : VerseWorld} {a : VerseAction} {side : Address}
    {share : KeyShare} (hstep : verseStep crypto openPost w a = some w')
    (hslot : w'.host.pendingKeyPushes side = some share) :
    w.host.pendingKeyPushes side = some share
      ∨ (stashing w a = some (side, share) ∧ Stashable w side share) := by
  cases verseStep_cases hstep with
  | tick conn io peer pc t hs ht =>
      rw [applySession_host] at hslot
      rcases (serveTick_shares ht).of_slot hslot with hold | ⟨rfl, rfl⟩
      · exact Or.inl hold
      · have hstash : stashing w (.tick conn io) = some (side, share) := by
          simp only [stashing, hs]
        exact Or.inr ⟨hstash, stashable_of_stashing hstash⟩
  | stash id member share₀ hp =>
      rcases (Table.insert_eq_some_iff ..).mp hslot with ⟨rfl, rfl⟩ | ⟨-, hold⟩
      · have hstash : stashing w (.stash id side) = some (side, share₀) := by
          simp only [stashing, hp]
        exact Or.inr ⟨hstash, stashable_of_stashing hstash⟩
      · exact Or.inl hold
  | tickRotation call io pc hr =>
      replace hslot : (rotateTick crypto w.host io pc
        ).host.pendingKeyPushes side = some share := hslot
      rw [(rotateTick_still ..).1] at hslot
      exact Or.inl hslot
  | _ => exact Or.inl hslot

/-- What a step sends was in flight. -/
theorem sent_origin {w w' : VerseWorld} {a : VerseAction}
    {es : List VerseEvent} {side : Address} {share : KeyShare}
    (hstep : verseStep crypto openPost w a = some w')
    (hlog : w'.log = w.log ++ es) (hsent : .delivered side share ∈ es) :
    InFlight w side share := by
  have hquiet : w'.log = w.log → False := by
    intro heq
    rw [heq, List.self_eq_append_right] at hlog
    rw [hlog] at hsent
    cases hsent
  cases verseStep_cases hstep with
  | tick conn io peer pc t hs ht =>
      rw [applySession_log] at hlog
      rw [← List.append_cancel_left hlog] at hsent
      obtain ⟨rfl, hpc⟩ := (serveTick_shares ht).of_delivered hsent
      exact .held conn pc hs hpc
  | pushSent id member conn share₀ hp =>
      rw [← List.append_cancel_left hlog] at hsent
      cases List.mem_singleton.mp hsent
      exact .pushed id _ hp rfl
  | addLocalMember s issuedAt =>
      rw [← List.append_cancel_left hlog] at hsent
      rcases List.mem_cons.mp hsent with heq | hsent
      · cases heq
      · cases List.mem_singleton.mp hsent
  | tickRotation call io pc hr =>
      rw [← List.append_cancel_left hlog] at hsent
      exact absurd hsent ((rotateTick_still ..).2.1 side share)
  | _ => exact (hquiet rfl).elim

-- ============================================== whom a share is sealed to

/-- Pushed, stashed and redelivered shares are sealed to whom they go to. -/
structure SealedRight (w : VerseWorld) : Prop where
  slots : ∀ {side share}, w.host.pendingKeyPushes side = some share →
    share.member = side
  pushes : ∀ {id side p}, w.pushes (id, side) = some p →
    (pushShare p).member = side
  sessions : ∀ {conn peer pc share}, w.sessions conn = some ⟨peer, pc⟩ →
    redelivering pc = some share → share.member = peer

theorem sealedRight_step {w w' : VerseWorld} {a : VerseAction}
    (h : SealedRight w) (hstep : verseStep crypto openPost w a = some w') :
    SealedRight w' := by
  refine ⟨fun {side share} hslot => ?_, fun {id side p} hp => ?_,
    fun {conn peer pc share} hs' hpc => ?_⟩
  · rcases slot_origin hstep hslot with hold | ⟨-, hf⟩
    · exact h.slots hold
    · cases hf with
      | pushed id p hp hshare => exact hshare ▸ h.pushes hp
      | held conn pc hs hpc => exact h.sessions hs hpc
  · rcases pushed_origin hstep hp with ⟨p₀, hp₀, hshare⟩ | ⟨hmember, -⟩
    · rw [← hshare]
      exact h.pushes hp₀
    · exact hmember
  · cases sessions_step hstep hs' with
    | same _ hs => exact h.sessions hs hpc
    | opened => cases hpc
    | received env =>
        unfold serveReceive at hpc
        (repeat' split at hpc) <;> cases hpc
    | ticked io pc₀ t next ha hs ht hnext =>
        rcases redelivering_next (serveTick_shares ht) hnext hpc with
          hold | ⟨hslot, -⟩
        · exact h.sessions hs hold
        · exact h.slots hslot

-- =========================================================== in order

/-- The share is still to reach the side: it is in flight, in the slot, or
on its way. -/
inductive Pending (d : DeliveryWorld) (side : Address) (share : KeyShare) :
    Prop where
  | inFlight (h : InFlight d.verse side share) (hmember : share.member = side)
  | stashed (h : d.verse.host.pendingKeyPushes side = some share)
  | underway (i : Nat) (hi : d.underway i = true)
      (hsent : d.sentTo side i = some share)

/-- No share overtakes an older one for the same member: none arrives before
an older one that is still to reach the side, and none is stashed before an
older one that may be stashed later. -/
def InOrder (d : DeliveryWorld) : DeliveryAction → Prop
  | .host a => ∀ side share, stashing d.verse a = some (side, share) →
      ∀ other, Stashable d.verse side other → share.key ≤ other.key
  | .arrive i => ∀ side share, d.sentTo side i = some share →
      ∀ other, Pending d side other → share.key ≤ other.key
  | .lose _ => True

/-- What arrived is older than what is to come, and a slot older than what
may replace it. -/
structure OrderInv (d : DeliveryWorld) : Prop where
  sealedRight : SealedRight d.verse
  arrived : ∀ i ∈ d.arrived, i < d.verse.log.length
  inFlight : ∀ {side share}, InFlight d.verse side share →
    share.key ≤ d.verse.host.contentKey
  slots : ∀ {side share}, d.verse.host.pendingKeyPushes side = some share →
    share.key ≤ d.verse.host.contentKey
  sent : ∀ {side share}, .delivered side share ∈ d.verse.log →
    share.key ≤ d.verse.host.contentKey
  slotOlder : ∀ {side old share},
    d.verse.host.pendingKeyPushes side = some old →
    Stashable d.verse side share → old.key ≤ share.key
  receivedOlder : ∀ {side old share}, old ∈ d.received side →
    Pending d side share → old.key ≤ share.key
  sorted : ∀ side, (d.received side).Pairwise fun a b => a.key ≤ b.key

/-- What was sent to a side is in the log. -/
theorem mem_log_of_sentTo {d : DeliveryWorld} {side : Address} {i : Nat}
    {share : KeyShare} (h : d.sentTo side i = some share) :
    d.verse.log[i]? = some (.delivered side share)
      ∧ share.member = side := by
  unfold DeliveryWorld.sentTo at h
  split at h
  case h_1 peer share₀ hlog =>
      split at h
      case isTrue hside =>
          obtain ⟨rfl, hmember⟩ := hside
          cases h
          exact ⟨hlog, hmember⟩
      case isFalse => cases h
  case h_2 => cases h

-- ============================================================ the steps

section host

variable {d : DeliveryWorld} {w' : VerseWorld} {a : VerseAction}
  {side : Address}

/-- What was in the log stays where it is. -/
theorem sentTo_host {es : List VerseEvent}
    (hlog : w'.log = d.verse.log ++ es) {i : Nat}
    (hi : i < d.verse.log.length) :
    DeliveryWorld.sentTo { d with verse := w' } side i = d.sentTo side i := by
  unfold DeliveryWorld.sentTo
  dsimp only
  rw [hlog, List.getElem?_append_left hi]

theorem received_host {es : List VerseEvent}
    (hlog : w'.log = d.verse.log ++ es)
    (harrived : ∀ i ∈ d.arrived, i < d.verse.log.length) :
    DeliveryWorld.received { d with verse := w' } side = d.received side :=
  List.filterMap_congr fun i hi => sentTo_host hlog (harrived i hi)

/-- What is pending after a step of the host was pending, or was just
sealed. -/
theorem pending_host (h : OrderInv d) {share : KeyShare}
    (hstep : verseStep crypto openPost d.verse a = some w')
    (hp : Pending { d with verse := w' } side share) :
    Pending d side share ∨ JustSealed d.verse share := by
  have hflight : ∀ {share : KeyShare}, share.member = side →
      InFlight w' side share →
      Pending d side share ∨ JustSealed d.verse share := by
    intro share hmember hf
    rcases inFlight_origin hstep hf with hold | hslot | hnew
    · exact Or.inl (.inFlight hold hmember)
    · exact Or.inl (.stashed hslot)
    · exact Or.inr hnew
  cases hp with
  | inFlight hf hmember => exact hflight hmember hf
  | stashed hslot =>
      rcases slot_origin hstep hslot with hold | ⟨-, hf⟩
      · exact Or.inl (.stashed hold)
      · exact Or.inl (.inFlight hf.inFlight
          ((sealedRight_step h.sealedRight hstep).slots hslot))
  | underway i hi hsent =>
      obtain ⟨es, hlog, -⟩ := members_step hstep
      by_cases hlt : i < d.verse.log.length
      case pos =>
          refine Or.inl (.underway i ?_ ((sentTo_host hlog hlt) ▸ hsent))
          unfold DeliveryWorld.underway at hi ⊢
          dsimp only at hi
          rw [hlog, List.getElem?_append_left hlt] at hi
          exact hi
      case neg =>
          -- it was sent in this step
          obtain ⟨hget, hmember⟩ := mem_log_of_sentTo hsent
          dsimp only at hget
          rw [hlog, List.getElem?_append_right (Nat.le_of_not_lt hlt)] at hget
          exact Or.inl (.inFlight
            (sent_origin hstep hlog (List.mem_of_getElem? hget)) hmember)

theorem orderInv_host (h : OrderInv d) (hok : InOrder d (.host a))
    (hstep : verseStep crypto openPost d.verse a = some w') :
    OrderInv { d with verse := w' } := by
  have hle := contentKey_le_step hstep
  obtain ⟨es, hlog, -⟩ := members_step hstep
  refine ⟨sealedRight_step h.sealedRight hstep, fun i hi => ?_,
    fun {side share} hf => ?_, fun {side share} hslot => ?_,
    fun {side share} hsent => ?_, fun {side old share} hslot hf => ?_,
    fun {side old share} hold hp => ?_, fun side => ?_⟩
  · show i < w'.log.length
    rw [hlog, List.length_append]
    exact Nat.lt_of_lt_of_le (h.arrived i hi) (Nat.le_add_right _ _)
  · refine Nat.le_trans ?_ hle
    rcases inFlight_origin hstep hf with hold | hslot | hnew
    · exact h.inFlight hold
    · exact h.slots hslot
    · exact Nat.le_of_eq hnew.1
  · refine Nat.le_trans ?_ hle
    rcases slot_origin hstep hslot with hold | ⟨-, hf⟩
    · exact h.slots hold
    · exact h.inFlight hf.inFlight
  · refine Nat.le_trans ?_ hle
    replace hsent : .delivered side share ∈ w'.log := hsent
    rw [hlog] at hsent
    rcases List.mem_append.mp hsent with hold | hnew
    · exact h.sent hold
    · exact h.inFlight (sent_origin hstep hlog hnew)
  · -- the slot is as before, or was just written
    rcases slot_origin hstep hslot with hold | ⟨hstash, hf₀⟩
    · rcases stashable_origin hstep hf with hf | ⟨-, hnone⟩ | hnew
      · exact h.slotOlder hold hf
      · rw [show w'.host.pendingKeyPushes side = some old from hslot] at hnone
        cases hnone
      · exact hnew.1 ▸ h.slots hold
    · rcases stashable_origin hstep hf with hf | ⟨-, hnone⟩ | hnew
      · exact hok side old hstash share hf
      · rw [show w'.host.pendingKeyPushes side = some old from hslot] at hnone
        cases hnone
      · exact hnew.1 ▸ h.inFlight hf₀.inFlight
  · rw [received_host hlog h.arrived] at hold
    rcases pending_host h hstep hp with hp | hnew
    · exact h.receivedOlder hold hp
    · rw [hnew.1]
      obtain ⟨i, -, hi⟩ := List.mem_filterMap.mp hold
      exact h.sent (List.mem_of_getElem? (mem_log_of_sentTo hi).1)
  · rw [received_host hlog h.arrived]
    exact h.sorted side

end host

/-- An arrival leaves only what was pending. -/
theorem pending_settled {d d' : DeliveryWorld} {side : Address}
    {share : KeyShare} (hverse : d'.verse = d.verse)
    (harrived : ∀ i ∈ d.arrived, i ∈ d'.arrived)
    (hlost : ∀ i ∈ d.lost, i ∈ d'.lost) (hp : Pending d' side share) :
    Pending d side share := by
  obtain ⟨verse, arrived, lost⟩ := d
  obtain ⟨verse', arrived', lost'⟩ := d'
  obtain rfl : verse' = verse := hverse
  cases hp with
  | inFlight hf hmember => exact .inFlight hf hmember
  | stashed hslot => exact .stashed hslot
  | underway i hi hsent =>
      refine .underway i ?_ hsent
      unfold DeliveryWorld.underway at hi ⊢
      dsimp only at hi ⊢
      split at hi
      case h_1 peer share₀ hlog =>
          simp only [Bool.and_eq_true, decide_eq_true_eq] at hi ⊢
          exact ⟨fun h => hi.1 (harrived i h), fun h => hi.2 (hlost i h)⟩
      case h_2 => cases hi

theorem orderInv_arrive {d : DeliveryWorld} {i : Nat} (h : OrderInv d)
    (hok : InOrder d (.arrive i)) (hi : d.underway i = true) :
    OrderInv { d with arrived := d.arrived ++ [i] } := by
  have hlt : i < d.verse.log.length := by
    unfold DeliveryWorld.underway at hi
    split at hi
    case h_1 hlog => exact (List.getElem?_eq_some_iff.mp hlog).1
    case h_2 => cases hi
  have hpending : ∀ {side share},
      Pending { d with arrived := d.arrived ++ [i] } side share →
      Pending d side share :=
    pending_settled rfl (fun _ h => List.mem_append_left _ h) fun _ h => h
  have hreceived : ∀ side,
      DeliveryWorld.received { d with arrived := d.arrived ++ [i] } side
        = d.received side ++ (d.sentTo side i).toList := by
    intro side
    show (d.arrived ++ [i]).filterMap (d.sentTo side) = _
    rw [List.filterMap_append]
    cases hs : d.sentTo side i <;> simp [DeliveryWorld.received, hs]
  refine ⟨h.sealedRight, fun j hj => ?_, h.inFlight, h.slots, h.sent,
    h.slotOlder, fun {side old share} hold hp => ?_, fun side => ?_⟩
  · rcases List.mem_append.mp hj with hj | hj
    · exact h.arrived j hj
    · exact List.mem_singleton.mp hj ▸ hlt
  · rw [hreceived, List.mem_append] at hold
    rcases hold with hold | hnew
    · exact h.receivedOlder hold (hpending hp)
    · exact hok side old (Option.mem_toList.mp hnew) share (hpending hp)
  · rw [hreceived, List.pairwise_append]
    refine ⟨h.sorted side, ?_, fun old hold share hshare => ?_⟩
    · cases d.sentTo side i <;> simp
    · exact h.receivedOlder hold
        (.underway i hi (Option.mem_toList.mp hshare))

theorem orderInv_step {d d' : DeliveryWorld} {a : DeliveryAction}
    (hok : InOrder d a) (h : OrderInv d)
    (hstep : deliveryStep crypto openPost d a = some d') : OrderInv d' := by
  cases a with
  | host a =>
      obtain ⟨w', hw', rfl⟩ := Option.map_eq_some_iff.mp hstep
      exact orderInv_host h hok hw'
  | arrive i =>
      simp only [deliveryStep] at hstep
      split at hstep
      case isTrue hi =>
          injection hstep with hstep
          exact hstep ▸ orderInv_arrive h hok hi
      case isFalse => cases hstep
  | lose i =>
      simp only [deliveryStep] at hstep
      split at hstep
      case isTrue hi =>
          injection hstep with hstep
          subst hstep
          have hpending : ∀ {side share},
              Pending { d with lost := d.lost ++ [i] } side share →
              Pending d side share :=
            pending_settled rfl (fun _ h => h)
              fun _ h => List.mem_append_left _ h
          exact ⟨h.sealedRight, h.arrived, h.inFlight, h.slots, h.sent,
            h.slotOlder, fun hold hp => h.receivedOlder hold (hpending hp),
            h.sorted⟩
      case isFalse => cases hstep

/-- In a run in which no share overtakes an older one, a slot is only ever
overwritten by a newer share, and a member ends with the newest key it
received. -/
theorem newest_key_held (crypto : Crypto)
    (openPost : VerseContentKey → VersePostPayload → Option (List UInt8))
    (contract : ContractObject) (acts : List DeliveryAction)
    (d : DeliveryWorld)
    (hok : Along (deliveryStep crypto openPost) InOrder (.init contract) acts)
    (hrun : run (deliveryStep crypto openPost) (.init contract) acts
      = some d) :
    (∀ a w' side old share, verseStep crypto openPost d.verse a = some w' →
      d.verse.host.pendingKeyPushes side = some old →
      stashing d.verse a = some (side, share) → old.key ≤ share.key)
    ∧ ∀ (wire : MembershipToken → List UInt8) (side : Address)
        (m : VerseMembership) (receipts : List Receipt),
        m.verse = d.verse.host.verse →
        receipts.map Receipt.share = d.received side → receipts ≠ [] →
        (memberAfter wire d.verse.host.verse side m receipts).contentKey
            ∈ (d.received side).map KeyShare.key
          ∧ ∀ share ∈ d.received side, share.key
            ≤ (memberAfter wire d.verse.host.verse side m receipts
              ).contentKey := by
  have hinit : OrderInv (.init contract) := by
    have hno : ∀ {side share},
        ¬ Stashable (.init (.new contract)) side share := by
      intro side share h
      cases h with
      | pushed id p h => cases h
      | held conn pc h => cases h
    have hflight : ∀ {side share},
        ¬ InFlight (.init (.new contract)) side share := by
      intro side share h
      cases h with
      | pushed id p h => cases h
      | held conn pc h => cases h
      | sealed conn fromSide req arrived contract h => cases h
    exact ⟨⟨nofun, nofun, nofun⟩, nofun, fun h => absurd h hflight, nofun,
      nofun, nofun, nofun, fun _ => .nil⟩
  have hinv : OrderInv d :=
    run_induct (fun _ _ _ hok h hstep => orderInv_step hok h hstep) hok hinit
      hrun
  refine ⟨fun a w' side old share hstep hslot hstash => ?_,
    fun wire side m receipts hverse hreceipts hne => ?_⟩
  · exact hinv.slotOlder hslot (stashable_of_stashing hstash)
  · obtain ⟨rest, r, rfl⟩ := (List.eq_nil_or_concat' receipts).resolve_left
      hne
    have hmember : ∀ r' ∈ rest ++ [r], r'.share.member = side := by
      intro r' hr'
      have hr' : r'.share ∈ d.received side :=
        hreceipts ▸ List.mem_map_of_mem hr'
      obtain ⟨i, -, hi⟩ := List.mem_filterMap.mp hr'
      exact (mem_log_of_sentTo hi).2
    have hsorted := hinv.sorted side
    rw [← hverse, memberAfter_concat hmember, ← hreceipts, List.map_append]
    rw [← hreceipts, List.map_append, List.map_cons, List.map_nil,
      List.pairwise_append] at hsorted
    refine ⟨List.mem_map_of_mem (List.mem_append_right _
      (List.mem_singleton_self _)), fun share hshare => ?_⟩
    rcases List.mem_append.mp hshare with hold | hlast
    · exact hsorted.2.2 share hold r.share (List.mem_singleton_self _)
    · exact Nat.le_of_eq (congrArg KeyShare.key (List.mem_singleton.mp hlast))

-- ============================================================= two runs

/-- The key is rotated twice while the member's session is live. -/
def rotateTwice : List VerseAction :=
  joinLive ++ [.rotate, .tickRotation 1 (some 2), .tickRotation 1 (some 2),
    .rotate, .tickRotation 3 (some 3), .tickRotation 3 (some 3)]

/-- The answer to the join and the push of a rotation arrive as they were
sent. -/
def arriveInOrder : List DeliveryAction :=
  List.map DeliveryAction.host (joinLive ++ rotateLive)
    ++ [.arrive 3, .arrive 6]

/-- After the rotation nothing is in flight, and two shares were sent. -/
theorem rotateLive_sent :
    ∃ w, run (verseStep Crypto.refusing fun _ _ => none) openVerse
        (joinLive ++ rotateLive) = some w
      ∧ w.host.pendingKeyPushes (Bytes.fill _ 2) = none
      ∧ (∀ share, ¬ InFlight w (Bytes.fill _ 2) share)
      ∧ ∀ i side share, w.log[i]? = some (.delivered side share) →
        side = Bytes.fill _ 2
          ∧ ((i = 3 ∧ share.key = 0) ∨ (i = 6 ∧ share.key = 1)) := by
  have hids : ∀ w, run (verseStep Crypto.refusing fun _ _ => none)
      openVerse (joinLive ++ rotateLive) = some w → FreshIds w :=
    fun w h => freshIds_of_reachable ⟨_, h⟩
  refine ⟨_, rfl, rfl, fun share hf => ?_, fun i side share hlog => ?_⟩
  · cases hf with
    | pushed id p hpush hshare =>
        replace hpush : Table.erase _ (2, Bytes.fill _ 2)
          (id, Bytes.fill _ 2) = some p := hpush
        rw [Table.erase_apply] at hpush
        split at hpush
        case isTrue => cases hpush
        case isFalse hne =>
          replace hpush : (if id = 2 then _ else none) = some p := hpush
          rw [if_neg fun hid => hne (by rw [hid])] at hpush
          cases hpush
    | held conn pc hs hpc =>
        have hlt : conn < 3 := (hids _ rfl).sessions conn _ hs
        interval_cases conn <;> cases hs
        cases hpc
    | «sealed» conn fromSide req arrived contract hs =>
        have hlt : conn < 3 := (hids _ rfl).sessions conn _ hs
        interval_cases conn <;> cases hs
  · have hlt : i < 7 := (List.getElem?_eq_some_iff.mp hlog).1
    interval_cases i <;> cases hlog
    · exact ⟨rfl, Or.inl ⟨rfl, rfl⟩⟩
    · exact ⟨rfl, Or.inr ⟨rfl, rfl⟩⟩

/-- The member ends with the rotated key. -/
theorem newest_key_held_rotated :
    ∃ d, run (deliveryStep Crypto.refusing fun _ _ => none)
        (.init (titled "open" 1)) arriveInOrder = some d
      ∧ ∀ share ∈ d.received (Bytes.fill _ 2), share.key
        ≤ (memberAfter (fun _ => []) d.verse.host.verse (Bytes.fill _ 2)
          ⟨d.verse.host.verse, Bytes.fill _ 0, [], 0⟩
          ((d.received (Bytes.fill _ 2)).map fun share =>
            ⟨share, Bytes.fill _ 0, false⟩)).contentKey := by
  obtain ⟨d, hd, hne⟩ : ∃ d, run (deliveryStep Crypto.refusing fun _ _ => none)
      (.init (titled "open" 1)) arriveInOrder = some d
      ∧ d.received (Bytes.fill _ 2) ≠ [] := ⟨_, rfl, List.cons_ne_nil _ _⟩
  refine ⟨d, hd, ((newest_key_held Crypto.refusing (fun _ _ => none)
    (titled "open" 1) arriveInOrder d ?_ hd).2 (fun _ => []) (Bytes.fill _ 2)
    _ _ rfl (by simp [Function.comp_def]) (by simpa using hne)).2⟩
  obtain ⟨w, hw, hslot, hflight, hsent⟩ := rotateLive_sent
  have hlift : ∀ w a, deliveryStep Crypto.refusing (fun _ _ => none)
      ⟨w, [], []⟩ (.host a)
        = (verseStep Crypto.refusing (fun _ _ => none) w a).map
          fun w => ⟨w, [], []⟩ := fun _ _ => rfl
  have hquiet : Along (verseStep Crypto.refusing fun _ _ => none)
      (fun w a => stashing w a = none) openVerse (joinLive ++ rotateLive) :=
    .cons rfl rfl (.cons rfl rfl (.cons rfl rfl (.cons rfl rfl (.cons rfl rfl
      (.cons rfl rfl (.cons rfl rfl (.cons rfl rfl (.cons rfl rfl
        (.cons rfl rfl (.cons rfl rfl (.cons rfl rfl (.cons rfl rfl trivial
          ))))))))))))
  refine .append (.map hlift (fun w a hnone side share hstash => ?_) hquiet)
    ((run_map hlift _ _).trans (congrArg _ hw)) ⟨fun side share hi other _ => ?_,
      fun d₁ hd₁ => ⟨fun side share hi other hp => ?_, fun _ _ => trivial⟩⟩
  · rw [hnone] at hstash
    cases hstash
  · rcases (hsent 3 side share (mem_log_of_sentTo hi).1).2 with
      ⟨-, hkey⟩ | ⟨himpossible, -⟩
    · exact hkey ▸ Nat.zero_le _
    · cases himpossible
  · simp only [deliveryStep] at hd₁
    split at hd₁
    case isFalse => cases hd₁
    case isTrue =>
      injection hd₁ with hd₁
      subst hd₁
      obtain ⟨rfl, ⟨himpossible, -⟩ | ⟨-, hkey⟩⟩ :=
        hsent 6 side share (mem_log_of_sentTo hi).1
      · cases himpossible
      rw [hkey]
      cases hp with
      | inFlight hf hmember => exact absurd hf (hflight other)
      | stashed hstashed =>
          rw [hslot] at hstashed
          cases hstashed
      | underway i hunder hother =>
          -- the answer to the join has arrived already
          rcases (hsent i _ other (mem_log_of_sentTo hother).1).2 with
            ⟨rfl, -⟩ | ⟨-, hkey'⟩
          · unfold DeliveryWorld.underway at hunder
            split at hunder <;> simp at hunder
          · exact Nat.le_of_eq hkey'.symm

/-- Both pushes fail; the newer one is stashed first. -/
def stashNewer : List DeliveryAction :=
  List.map DeliveryAction.host (rotateTwice ++
    [.push 2 (Bytes.fill _ 2) false, .push 4 (Bytes.fill _ 2) false,
      .stash 4 (Bytes.fill _ 2)])

/-- Both pushes are sent; the newer one arrives first. -/
def arriveNewer : List DeliveryAction :=
  List.map DeliveryAction.host (rotateTwice ++
    [.push 2 (Bytes.fill _ 2) true, .push 4 (Bytes.fill _ 2) true])
    ++ [.arrive 9, .arrive 8]

/-- The older push is stashed over the newer one; and a member to which the
newer push came first ends with the older key. -/
theorem older_key_overtakes :
    (∃ d w' old share, run (deliveryStep Crypto.refusing fun _ _ => none)
        (.init (titled "open" 1)) stashNewer = some d
      ∧ verseStep Crypto.refusing (fun _ _ => none) d.verse
        (.stash 2 (Bytes.fill _ 2)) = some w'
      ∧ d.verse.host.pendingKeyPushes (Bytes.fill _ 2) = some old
      ∧ w'.host.pendingKeyPushes (Bytes.fill _ 2) = some share
      ∧ share.key < old.key)
    ∧ ∃ d newer older, run (deliveryStep Crypto.refusing fun _ _ => none)
        (.init (titled "open" 1)) arriveNewer = some d
      ∧ d.received (Bytes.fill _ 2) = [newer, older]
      ∧ (memberAfter (fun _ => []) d.verse.host.verse (Bytes.fill _ 2)
          ⟨d.verse.host.verse, Bytes.fill _ 0, [], 0⟩
          [⟨newer, Bytes.fill _ 0, false⟩, ⟨older, Bytes.fill _ 0, false⟩]
          ).contentKey < newer.key := by
  refine ⟨⟨_, _, _, _, rfl, rfl, rfl, rfl, by decide⟩,
    ⟨_, _, _, rfl, rfl, by decide⟩⟩

end Sidevers.Proofs
