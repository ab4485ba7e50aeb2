/-
What one step of a hosted verse can do, said once (`Net.ServeVerse`).

Three inversions carry the invariants of a verse:

- `verseStep_cases`: what each action does, with the guard it passed;
- `sessions_step`: where the state of a session came from;
- `members_step`: the four ways a step touches the members, with what it
  writes to the log.

No invariant proof unfolds the step function.
-/
import Sidevers.Net.ServeVerse

namespace Sidevers.Proofs

open Sidevers.Core
open Sidevers.Lib
open Sidevers.Net

variable {crypto : Crypto}
  {openPost : VerseContentKey → VersePostPayload → Option (List UInt8)}

-- ==================================================== applying a tick

section apply

variable (w : VerseWorld) (conn : ConnId) (peer : Address)
  (t : Tick ServePc)

section spawn

variable (shares : Option (Table Address (ConnId × KeyShare)))

@[simp] theorem spawn_sessions : (w.spawn shares).sessions = w.sessions := by
  cases shares <;> rfl

@[simp] theorem spawn_rotations :
    (w.spawn shares).rotations = w.rotations := by
  cases shares <;> rfl

end spawn

@[simp] theorem applySession_host :
    (w.applySession conn peer t).host = t.host := by
  unfold VerseWorld.applySession
  cases t.next <;> rfl

@[simp] theorem applySession_log :
    (w.applySession conn peer t).log = w.log ++ t.events := by
  unfold VerseWorld.applySession
  cases t.next <;> rfl

@[simp] theorem applySession_pushes :
    (w.applySession conn peer t).pushes = (w.spawn t.spawned).pushes := by
  unfold VerseWorld.applySession
  cases t.next <;> rfl

@[simp] theorem applySession_nextId :
    (w.applySession conn peer t).nextId = (w.spawn t.spawned).nextId := by
  unfold VerseWorld.applySession
  cases t.next <;> rfl

@[simp] theorem applySession_rotations :
    (w.applySession conn peer t).rotations = w.rotations := by
  rw [← spawn_rotations w t.spawned]
  unfold VerseWorld.applySession
  cases t.next <;> rfl

@[simp] theorem applySession_sessions (c : ConnId) :
    (w.applySession conn peer t).sessions c
      = if c = conn then t.next.map (VerseSession.mk peer)
        else w.sessions c := by
  rw [← spawn_sessions w t.spawned]
  unfold VerseWorld.applySession VerseWorld.endSession
  cases t.next with
  | none => exact Table.erase_apply ..
  | some pc => exact Table.insert_apply ..

@[simp] theorem applyRotation_sessions (call : Nat) (t : Tick RotatePc) :
    (w.applyRotation call t).sessions = w.sessions :=
  spawn_sessions w t.spawned

@[simp] theorem applyRotation_rotations (call c : Nat) (t : Tick RotatePc) :
    (w.applyRotation call t).rotations c
      = if c = call then t.next else w.rotations c := by
  unfold VerseWorld.applyRotation
  cases t.next with
  | none => exact Table.erase_apply ..
  | some pc => exact Table.insert_apply ..

end apply

-- ============================================================ a step

/-- What each action does, with the guard it passed. -/
inductive VerseStep (crypto : Crypto)
    (openPost : VerseContentKey → VersePostPayload → Option (List UInt8))
    (w : VerseWorld) : VerseAction → VerseWorld → Prop where
  | openSession (peer : Address) :
      VerseStep crypto openPost w (.openSession peer) { w with
        sessions := w.sessions.insert w.nextId ⟨peer, .register⟩
        nextId := w.nextId + 1 }
  | receive (conn : ConnId) (env : Envelope VerseMessage) (peer : Address)
      (hs : w.sessions conn = some ⟨peer, .accept⟩) :
      VerseStep crypto openPost w (.receive conn env) { w with
        sessions := w.sessions.insert conn
          ⟨peer, serveReceive w.host w.log.length env⟩ }
  | tick (conn : ConnId) (io : Option UInt64) (peer : Address)
      (pc : ServePc) (t : Tick ServePc)
      (hs : w.sessions conn = some ⟨peer, pc⟩)
      (ht : serveTick crypto openPost w.host peer conn io pc = some t) :
      VerseStep crypto openPost w (.tick conn io)
        (w.applySession conn peer t)
  | closeSession (conn : ConnId) (peer : Address)
      (hs : w.sessions conn = some ⟨peer, .accept⟩) :
      VerseStep crypto openPost w (.closeSession conn)
        (w.endSession conn peer)
  | cleanup (conn : ConnId) (peer : Address)
      (hc : w.cleanups conn = some peer) :
      VerseStep crypto openPost w (.cleanup conn) { w with
        host := w.host.dropSession peer, cleanups := w.cleanups.erase conn }
  | pushSent (rotation : Nat) (member : Address) (conn : ConnId)
      (share : KeyShare)
      (hp : w.pushes (rotation, member) = some (.sending conn share)) :
      VerseStep crypto openPost w (.push rotation member true) { w with
        pushes := w.pushes.erase (rotation, member)
        log := w.log ++ [.delivered member share] }
  | pushFailed (rotation : Nat) (member : Address) (conn : ConnId)
      (share : KeyShare)
      (hp : w.pushes (rotation, member) = some (.sending conn share)) :
      VerseStep crypto openPost w (.push rotation member false) { w with
        pushes := w.pushes.insert (rotation, member) (.failed share) }
  | stash (rotation : Nat) (member : Address) (share : KeyShare)
      (hp : w.pushes (rotation, member) = some (.failed share)) :
      VerseStep crypto openPost w (.stash rotation member) { w with
        host := w.host.stashPendingKeyPush member share
        pushes := w.pushes.erase (rotation, member) }
  | addLocalMember (side : Address) (issuedAt : UInt64) :
      VerseStep crypto openPost w (.addLocalMember side issuedAt) { w with
        host := (w.host.addLocalMember crypto side issuedAt).2
        log := w.log ++ [.added side (w.host.contract.hash crypto) .direct,
          .directToken (w.host.signToken (w.host.contract.hash crypto) side
            issuedAt) w.host.contentKey] }
  | amend (contract : ContractObject)
      (hverse : contract.verse = w.host.verse) :
      VerseStep crypto openPost w (.amend contract)
        { w with host := w.host.amendContract contract }
  | rotate :
      VerseStep crypto openPost w .rotate { w with
        rotations := w.rotations.insert w.nextId .rotate
        nextId := w.nextId + 1 }
  | tickRotation (call : Nat) (io : Option UInt64) (pc : RotatePc)
      (hr : w.rotations call = some pc) :
      VerseStep crypto openPost w (.tickRotation call io)
        (w.applyRotation call (rotateTick crypto w.host io pc))

theorem verseStep_cases {w w' : VerseWorld} {a : VerseAction}
    (h : verseStep crypto openPost w a = some w') :
    VerseStep crypto openPost w a w' := by
  cases a with
  | openSession peer =>
      injection h with h
      exact h ▸ .openSession peer
  | receive conn env =>
      simp only [verseStep] at h
      split at h
      case h_1 peer hs =>
        injection h with h
        exact h ▸ .receive conn env peer hs
      case h_2 => cases h
  | tick conn io =>
      simp only [verseStep] at h
      split at h
      case h_1 s hs =>
        obtain ⟨t, ht, rfl⟩ := Option.map_eq_some_iff.mp h
        exact .tick conn io s.peer s.pc t hs ht
      case h_2 => cases h
  | closeSession conn =>
      simp only [verseStep] at h
      split at h
      case h_1 peer hs =>
        injection h with h
        exact h ▸ .closeSession conn peer hs
      case h_2 => cases h
  | cleanup conn =>
      simp only [verseStep] at h
      split at h
      case h_1 peer hc =>
        injection h with h
        exact h ▸ .cleanup conn peer hc
      case h_2 => cases h
  | push rotation member sent =>
      simp only [verseStep] at h
      split at h
      case h_1 conn share hp =>
        cases sent with
        | true =>
            injection h with h
            exact h ▸ .pushSent rotation member conn share hp
        | false =>
            injection h with h
            exact h ▸ .pushFailed rotation member conn share hp
      case h_2 => cases h
  | stash rotation member =>
      simp only [verseStep] at h
      split at h
      case h_1 share hp =>
        injection h with h
        exact h ▸ .stash rotation member share hp
      case h_2 => cases h
  | addLocalMember side issuedAt =>
      injection h with h
      exact h ▸ .addLocalMember side issuedAt
  | amend contract =>
      simp only [verseStep] at h
      split at h
      case isTrue hverse =>
        injection h with h
        exact h ▸ .amend contract hverse
      case isFalse => cases h
  | rotate =>
      injection h with h
      exact h ▸ .rotate
  | tickRotation call io =>
      simp only [verseStep] at h
      split at h
      case h_1 pc hr =>
        injection h with h
        exact h ▸ .tickRotation call io pc hr
      case h_2 => cases h

-- ========================================================== sessions

/-- Where a session's state comes from. -/
inductive SessionStep (crypto : Crypto)
    (openPost : VerseContentKey → VersePostPayload → Option (List UInt8))
    (w : VerseWorld) (a : VerseAction) (conn : ConnId) (peer : Address) :
    ServePc → Prop where
  | same (pc : ServePc) (hs : w.sessions conn = some ⟨peer, pc⟩) :
      SessionStep crypto openPost w a conn peer pc
  | opened (ha : a = .openSession peer) :
      SessionStep crypto openPost w a conn peer .register
  | received (env : Envelope VerseMessage) (ha : a = .receive conn env)
      (hs : w.sessions conn = some ⟨peer, .accept⟩) :
      SessionStep crypto openPost w a conn peer
        (serveReceive w.host w.log.length env)
  | ticked (io : Option UInt64) (pc : ServePc) (t : Tick ServePc)
      (next : ServePc) (ha : a = .tick conn io)
      (hs : w.sessions conn = some ⟨peer, pc⟩)
      (ht : serveTick crypto openPost w.host peer conn io pc = some t)
      (hnext : t.next = some next) :
      SessionStep crypto openPost w a conn peer next

theorem sessions_step {w w' : VerseWorld} {a : VerseAction}
    (hstep : verseStep crypto openPost w a = some w') {conn : ConnId}
    {peer : Address} {pc : ServePc}
    (hs' : w'.sessions conn = some ⟨peer, pc⟩) :
    SessionStep crypto openPost w a conn peer pc := by
  cases verseStep_cases hstep with
  | openSession p =>
      replace hs' : w.sessions.insert w.nextId ⟨p, .register⟩ conn
        = some ⟨peer, pc⟩ := hs'
      rw [Table.insert_apply] at hs'
      split at hs'
      · cases hs'
        exact .opened rfl
      · exact .same pc hs'
  | receive c env p hs =>
      replace hs' : w.sessions.insert c ⟨p, serveReceive w.host w.log.length
        env⟩ conn = some ⟨peer, pc⟩ := hs'
      rw [Table.insert_apply] at hs'
      split at hs'
      case isTrue heq =>
        subst heq
        cases hs'
        exact .received env rfl hs
      case isFalse => exact .same pc hs'
  | tick c io p pc₀ t hs ht =>
      rw [applySession_sessions] at hs'
      split at hs'
      case isTrue heq =>
        subst heq
        obtain ⟨next, hnext, heq⟩ := Option.map_eq_some_iff.mp hs'
        cases heq
        exact .ticked io pc₀ t pc rfl hs ht hnext
      case isFalse => exact .same pc hs'
  | closeSession c p hs =>
      replace hs' : w.sessions.erase c conn = some ⟨peer, pc⟩ := hs'
      rw [Table.erase_apply] at hs'
      split at hs'
      · cases hs'
      · exact .same pc hs'
  | cleanup => exact .same pc hs'
  | pushSent => exact .same pc hs'
  | pushFailed => exact .same pc hs'
  | stash => exact .same pc hs'
  | addLocalMember => exact .same pc hs'
  | amend => exact .same pc hs'
  | rotate => exact .same pc hs'
  | tickRotation call io pc₀ =>
      rw [applyRotation_sessions] at hs'
      exact .same pc hs'

/-- The step of a session that can take one. -/
theorem verseStep_tick {w : VerseWorld} {conn : ConnId} {peer : Address}
    {io : Option UInt64} {pc : ServePc} {t : Tick ServePc}
    (hs : w.sessions conn = some ⟨peer, pc⟩)
    (ht : serveTick crypto openPost w.host peer conn io pc = some t) :
    verseStep crypto openPost w (.tick conn io)
      = some (w.applySession conn peer t) := by
  simp only [verseStep, hs, ht, Option.map_some]

/-- A reconsent writes the consents only. -/
theorem reconsent_eq {h h' : VerseHost} {side : Address}
    {contractHash : Bytes 32}
    (hr : h.reconsent crypto side contractHash = some h') :
    contractHash = h.contract.hash crypto ∧ h.members side ≠ none
      ∧ h' = { h with consentedVersions :=
          h.consentedVersions.insert side h.contract.version } := by
  unfold VerseHost.reconsent at hr
  split at hr
  case isTrue => cases hr
  case isFalse hmember =>
      split at hr
      case isTrue => cases hr
      case isFalse hhash =>
          injection hr with hr
          refine ⟨not_not.mp hhash, fun hnone => ?_, hr.symm⟩
          exact hmember (Option.isNone_iff_eq_none.mpr hnone)

-- =========================================================== members

/-- The event adds or removes the side. -/
def Moves (side : Address) : VerseEvent → Prop
  | .added s _ _ => s = side
  | .removed s => s = side
  | _ => False

/-- The ways a step of a session touches the members. -/
inductive MembersTick (crypto : Crypto) (h : VerseHost) (pc : ServePc)
    (members : Table Address Unit) (es : List VerseEvent) : Prop where
  | same (hmembers : members = h.members)
      (hes : ∀ e ∈ es, ∀ side, ¬ Moves side e)
  | joined (fromSide : Address) (req : JoinRequestPayload) (arrived : Nat)
      (contract : ContractObject) (share : KeyShare)
      (hpc : pc = .joinInsert fromSide req arrived contract share)
      (hmembers : members = h.members.insert req.side ())
      (hes : es = [.added req.side (contract.hash crypto)
        (.join fromSide arrived)])
  | removed (side : Address) (hmembers : members = h.members.erase side)
      (hes : es = [.removed side])

/-- A rotation touches no member. -/
theorem rotateTick_members (crypto : Crypto) (h : VerseHost) (io : Option UInt64)
    (pc : RotatePc) :
    (rotateTick crypto h io pc).host.members = h.members
      ∧ ∀ e ∈ (rotateTick crypto h io pc).events, ∀ side,
        ¬ Moves side e := by
  cases pc with
  | rotate =>
      cases io with
      | none => exact ⟨rfl, nofun⟩
      | some now =>
          refine ⟨rfl, fun e he side => ?_⟩
          obtain rfl := List.mem_singleton.mp he
          exact id
  | snapshot =>
      cases io with
      | none => exact ⟨rfl, nofun⟩
      | some now =>
          refine ⟨rfl, fun e he side => ?_⟩
          obtain rfl := List.mem_singleton.mp he
          exact id

/-- A step that touches no member and logs nothing about one. -/
theorem MembersTick.quiet {h h' : VerseHost} {pc : ServePc}
    (hmembers : h'.members = h.members) :
    MembersTick crypto h pc h'.members [] := .same hmembers nofun

/-- The same, with one event that moves nobody. -/
theorem MembersTick.event {h h' : VerseHost} {pc : ServePc} {e : VerseEvent}
    (hmembers : h'.members = h.members) (he : ∀ side, ¬ Moves side e) :
    MembersTick crypto h pc h'.members [e] := by
  refine .same hmembers fun e' he' => ?_
  obtain rfl := List.mem_singleton.mp he'
  exact he

theorem serveTick_members {h : VerseHost} {peer : Address} {conn : ConnId}
    {io : Option UInt64} {pc : ServePc} {t : Tick ServePc}
    (ht : serveTick crypto openPost h peer conn io pc = some t) :
    MembersTick crypto h pc t.host.members t.events := by
  cases pc with
  | register =>
      cases ht
      exact .quiet rfl
  | drain =>
      simp only [serveTick] at ht
      split at ht <;> (cases ht; exact .quiet rfl)
  | redeliver share =>
      cases io <;> cases ht
      · exact .quiet rfl
      · exact .event rfl fun _ => id
  | restash share =>
      cases ht
      exact .quiet rfl
  | accept => cases ht
  | fetch =>
      cases ht
      exact .quiet rfl
  | reply reply =>
      cases io <;> cases ht
      · exact .quiet rfl
      · exact .event rfl fun _ => id
  | joinCheck fromSide req arrived =>
      simp only [serveTick] at ht
      split at ht <;> cases ht
      · exact .quiet rfl
      · exact .event rfl fun _ => id
  | joinSeal fromSide req arrived contract =>
      cases io <;> cases ht
      · exact .quiet rfl
      · exact .event rfl fun _ => id
  | joinInsert fromSide req arrived contract share =>
      cases ht
      exact .joined fromSide req arrived contract share rfl rfl rfl
  | joinSign share => cases io <;> (cases ht; exact .quiet rfl)
  | joinSend share =>
      cases io <;> cases ht
      · exact .quiet rfl
      · exact .event rfl fun _ => id
  | leave leave =>
      cases ht
      exact .removed leave.side rfl rfl
  | retract leave =>
      cases ht
      exact .quiet rfl
  | moderate fromSide remove =>
      simp only [serveTick] at ht
      split at ht <;> (cases ht; exact .quiet rfl)
  | remove remove =>
      cases ht
      exact .removed remove.side rfl rfl
  | rotating pc =>
      cases ht
      obtain ⟨hmembers, hes⟩ := rotateTick_members crypto h io pc
      exact .same hmembers hes
  | reconsent fromSide contractHash =>
      simp only [serveTick] at ht
      split at ht
      case h_1 => cases ht; exact .quiet rfl
      case h_2 h' hr =>
        cases ht
        obtain ⟨-, -, rfl⟩ := reconsent_eq hr
        exact .event rfl fun _ => id
  | postVersion post =>
      cases ht
      exact .quiet rfl
  | postAdmit post version =>
      simp only [serveTick] at ht
      split at ht <;> cases ht
      · exact .event rfl fun _ => id
      · exact .quiet rfl
  | postOpen post =>
      simp only [serveTick] at ht
      split at ht <;> (cases ht; exact .quiet rfl)
  | postRetain post =>
      cases ht
      exact .quiet rfl

/-- The ways a step touches the members. -/
inductive MembersStep (crypto : Crypto) (w : VerseWorld) (a : VerseAction)
    (members : Table Address Unit) (es : List VerseEvent) : Prop where
  | same (hmembers : members = w.host.members)
      (hes : ∀ e ∈ es, ∀ side, ¬ Moves side e)
  | joined (conn : ConnId) (io : Option UInt64) (peer fromSide : Address)
      (req : JoinRequestPayload) (arrived : Nat)
      (contract : ContractObject) (share : KeyShare)
      (ha : a = .tick conn io)
      (hs : w.sessions conn
        = some ⟨peer, .joinInsert fromSide req arrived contract share⟩)
      (hmembers : members = w.host.members.insert req.side ())
      (hes : es = [.added req.side (contract.hash crypto)
        (.join fromSide arrived)])
  | direct (side : Address) (token : MembershipToken)
      (key : VerseContentKey)
      (hmembers : members = w.host.members.insert side ())
      (hes : es = [.added side (w.host.contract.hash crypto) .direct,
        .directToken token key])
      (htoken : token.memberSide = side) (hkey : key = w.host.contentKey)
      (ha : ∃ issuedAt, a = .addLocalMember side issuedAt)
  | removed (side : Address)
      (hmembers : members = w.host.members.erase side)
      (hes : es = [.removed side])

/-- A step touches the members in one of four ways, and appends to the
log what it did. -/
theorem members_step {w w' : VerseWorld} {a : VerseAction}
    (hstep : verseStep crypto openPost w a = some w') :
    ∃ es, w'.log = w.log ++ es
      ∧ MembersStep crypto w a w'.host.members es := by
  have hquiet : ∀ {w'' : VerseWorld}, w''.log = w.log →
      w''.host.members = w.host.members → ∃ es, w''.log = w.log ++ es
        ∧ MembersStep crypto w a w''.host.members es := by
    intro w'' hlog hmembers
    exact ⟨[], by rw [hlog, List.append_nil], .same hmembers nofun⟩
  cases verseStep_cases hstep with
  | openSession => exact hquiet rfl rfl
  | receive => exact hquiet rfl rfl
  | tick conn io peer pc t hs ht =>
      refine ⟨t.events, applySession_log .., ?_⟩
      rw [applySession_host]
      cases serveTick_members ht with
      | same hmembers hes => exact .same hmembers hes
      | joined fromSide req arrived contract share hpc hmembers hes =>
          subst hpc
          exact .joined conn io peer fromSide req arrived contract share rfl
            hs hmembers hes
      | removed side hmembers hes => exact .removed side hmembers hes
  | closeSession => exact hquiet rfl rfl
  | cleanup => exact hquiet rfl rfl
  | pushSent rotation member conn share =>
      refine ⟨_, rfl, .same rfl fun e he side => ?_⟩
      obtain rfl := List.mem_singleton.mp he
      exact id
  | pushFailed => exact hquiet rfl rfl
  | stash => exact hquiet rfl rfl
  | addLocalMember side issuedAt =>
      exact ⟨_, rfl, .direct side _ _ rfl rfl rfl rfl ⟨issuedAt, rfl⟩⟩
  | amend => exact hquiet rfl rfl
  | rotate => exact hquiet rfl rfl
  | tickRotation call io pc =>
      obtain ⟨hmembers, hes⟩ :=
        rotateTick_members crypto w.host io pc
      refine ⟨_, rfl, .same ?_ hes⟩
      exact hmembers

-- ========================================================== contract

/-- No thread changes the verse or its contract. -/
theorem rotateTick_contract (crypto : Crypto) (h : VerseHost)
    (io : Option UInt64) (pc : RotatePc) :
    (rotateTick crypto h io pc).host.verse = h.verse
      ∧ (rotateTick crypto h io pc).host.contract = h.contract := by
  cases pc <;> cases io <;> exact ⟨rfl, rfl⟩

theorem serveTick_contract {h : VerseHost} {peer : Address} {conn : ConnId}
    {io : Option UInt64} {pc : ServePc} {t : Tick ServePc}
    (ht : serveTick crypto openPost h peer conn io pc = some t) :
    t.host.verse = h.verse ∧ t.host.contract = h.contract := by
  cases pc with
  | accept => cases ht
  | drain =>
      simp only [serveTick] at ht
      split at ht <;> (cases ht; exact ⟨rfl, rfl⟩)
  | joinCheck fromSide req arrived =>
      simp only [serveTick] at ht
      split at ht <;> (cases ht; exact ⟨rfl, rfl⟩)
  | moderate fromSide remove =>
      simp only [serveTick] at ht
      split at ht <;> (cases ht; exact ⟨rfl, rfl⟩)
  | rotating pc =>
      cases ht
      exact rotateTick_contract crypto h io pc
  | reconsent fromSide contractHash =>
      simp only [serveTick] at ht
      split at ht
      case h_1 =>
          cases ht
          exact ⟨rfl, rfl⟩
      case h_2 h' hr =>
          cases ht
          obtain ⟨-, -, rfl⟩ := reconsent_eq hr
          exact ⟨rfl, rfl⟩
  | postAdmit post version =>
      simp only [serveTick] at ht
      split at ht <;> (cases ht; exact ⟨rfl, rfl⟩)
  | postOpen post =>
      simp only [serveTick] at ht
      split at ht <;> (cases ht; exact ⟨rfl, rfl⟩)
  -- at most one branch, on what the clock or a stream did
  | _ => cases io <;> (cases ht; exact ⟨rfl, rfl⟩)

/-- The contract is another one only after an amendment, which is one of
this verse. -/
theorem contract_step {w w' : VerseWorld} {a : VerseAction}
    (hstep : verseStep crypto openPost w a = some w') :
    w'.host.verse = w.host.verse
      ∧ (w'.host.contract = w.host.contract
        ∨ ∃ contract, a = .amend contract ∧ contract.verse = w.host.verse
          ∧ w'.host.contract = contract) := by
  cases verseStep_cases hstep with
  | tick conn io peer pc t hs ht =>
      rw [applySession_host]
      obtain ⟨hverse, hcontract⟩ := serveTick_contract ht
      exact ⟨hverse, Or.inl hcontract⟩
  | amend contract hverse =>
      exact ⟨rfl, Or.inr ⟨contract, rfl, hverse, rfl⟩⟩
  | tickRotation call io pc hr =>
      obtain ⟨hverse, hcontract⟩ := rotateTick_contract crypto w.host io pc
      exact ⟨hverse, Or.inl hcontract⟩
  | _ => exact ⟨rfl, Or.inl rfl⟩

/-- A contract with nothing but a title. -/
def titled (title : String) (version : UInt64) : ContractObject where
  verse := Bytes.fill _ 1
  version := version
  title := title
  description := ""
  required := []
  «optional» := []
  forbidden := []
  «scoped» := []
  policies := []
  moderators := []
  issuedAt := 0
  signature := Bytes.fill _ 0

/-- An envelope of `fromSide` to the verse of such a contract. -/
def toVerse (fromSide : Address) (payload : VerseMessage) :
    Envelope VerseMessage where
  messageType := .joinRequest
  fromSide := fromSide
  toSide := some (Bytes.fill _ 1)
  timestamp := 0
  nonce := Bytes.fill _ 0
  payload := payload

/-- A freshly hosted verse. -/
def openVerse : VerseWorld := .init (.new (titled "open" 1))

/-- The join request of the side `[2; 32]`. -/
def signedJoin : VerseMessage :=
  .joinRequest ⟨Bytes.fill _ 0, Bytes.fill _ 2, BTreeMap.empty⟩

/-- The side opens a session, joins and is answered. -/
def joinLive : List VerseAction :=
  [.openSession (Bytes.fill _ 2), .tick 0 (some 1), .tick 0 (some 1),
    .receive 0 (toVerse (Bytes.fill _ 2) signedJoin), .tick 0 (some 1),
    .tick 0 (some 1), .tick 0 (some 1), .tick 0 (some 1), .tick 0 (some 1)]

end Sidevers.Proofs
