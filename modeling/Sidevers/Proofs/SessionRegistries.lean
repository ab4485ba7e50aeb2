/-
The session registries of a node: `active_sessions` of a hosted verse and
`active_gossip`.

Both follow the same registry (`Lib.Registry`): a loop inserts its
connection under its peer, and the guard's task removes the peer's,
whichever it is by then. A hosted verse also drops the connection of a side
that leaves or is removed. So every entry is of a loop that runs, once no
task is pending; but a peer that is served has one only if none of these came
after its last registration. Two sessions of one peer that overlap, a
reconnect before the old guard's task ran, and a side that joins again on the
session it left on, all end without one.
-/
import Sidevers.Lib.Registry
import Sidevers.Net.Gossip
import Sidevers.Proofs.VerseShares
import Sidevers.Proofs.VerseConsents

namespace Sidevers.Proofs

open Sidevers.Core
open Sidevers.Lib
open Sidevers.Net

variable {crypto : Crypto}
  {openPost : VerseContentKey → VersePostPayload → Option (List UInt8)}

-- ============================================================ vocabulary

/-- A `serve_verse` loop runs for the side. -/
def VerseServed (w : VerseWorld) (side : Address) : Prop :=
  ∃ conn pc, w.sessions conn = some ⟨side, pc⟩

/-- No registration and no cleanup of a Verse session is pending. -/
structure VerseSettled (w : VerseWorld) : Prop where
  cleaned : ∀ conn, w.cleanups conn = none
  ready : ∀ conn side, w.sessions conn ≠ some ⟨side, .register⟩

/-- `active_sessions` is exact. -/
structure ActiveSessionsExact (w : VerseWorld) : Prop where
  served : ∀ side, w.host.members side ≠ none → VerseServed w side →
    w.host.activeSessions side ≠ none
  running : ∀ side conn, w.host.activeSessions side = some conn →
    ∃ pc, w.sessions conn = some ⟨side, pc⟩

/-- A `serve_gossip` loop runs for the peer. -/
def GossipServed (g : GossipNode) (peer : Address) : Prop :=
  ∃ conn pc, g.sessions conn = some ⟨peer, pc⟩

/-- No registration and no cleanup of a Gossip session is pending. -/
structure GossipSettled (g : GossipNode) : Prop where
  cleaned : ∀ conn, g.cleanups conn = none
  ready : ∀ conn peer, g.sessions conn ≠ some ⟨peer, .register⟩

/-- `active_gossip` is exact. -/
structure ActiveGossipExact (g : GossipNode) : Prop where
  served : ∀ peer, GossipServed g peer → g.activeGossip peer ≠ none
  running : ∀ peer conn, g.activeGossip peer = some conn →
    ∃ pc, g.sessions conn = some ⟨peer, pc⟩

-- ======================================================= a verse's events

/-- The loop has registered. -/
def registered : ServePc → Bool
  | .register => false
  | _ => true

/-- What a step of a loop is to the registry. A failed answer ends it. -/
def tickEvent (conn : ConnId) (peer : Address) (io : Option UInt64) :
    ServePc → Option (RegistryEvent Address)
  | .register => some (.registered conn peer)
  | .leave leave => some (.dropped leave.side)
  | .remove remove => some (.dropped remove.side)
  | .reply _ => if io.isNone then some (.closed conn peer) else none
  | .joinSeal _ _ _ _ => if io.isNone then some (.closed conn peer) else none
  | .joinSign _ => if io.isNone then some (.closed conn peer) else none
  | .joinSend _ => if io.isNone then some (.closed conn peer) else none
  | _ => none

/-- What a step of a hosted verse is to its registry. -/
def verseEvent (w : VerseWorld) : VerseAction → Option (RegistryEvent Address)
  | .openSession peer => some (.opened w.nextId peer)
  | .tick conn io =>
      (w.sessions conn).bind fun s => tickEvent conn s.peer io s.pc
  | .closeSession conn => (w.sessions conn).map fun s => .closed conn s.peer
  | .cleanup conn => (w.cleanups conn).map fun peer => .cleaned conn peer
  | _ => none

/-- A loop as a session of the registry. -/
def verseSession (s : VerseSession) : Address × Bool := (s.peer, registered s.pc)

/-- A hosted verse as a registry. -/
def verseRegistry (w : VerseWorld) : Registry Address where
  sessions := w.sessions.map verseSession
  cleanups := w.cleanups
  entries := w.host.activeSessions

theorem serveReceive_registered (h : VerseHost) (arrived : Nat)
    (env : Envelope VerseMessage) :
    registered (serveReceive h arrived env) = true := by
  unfold serveReceive
  (repeat' split) <;> rfl

/-- The other steps go on with what they registered. -/
theorem serveTick_quiet {h : VerseHost} {peer : Address} {conn : ConnId}
    {io : Option UInt64} {pc : ServePc} {t : Tick ServePc}
    (ht : serveTick crypto openPost h peer conn io pc = some t)
    (hevent : tickEvent conn peer io pc = none) :
    registered pc = true ∧ t.host.activeSessions = h.activeSessions
      ∧ ∃ next, t.next = some next ∧ registered next = true := by
  cases pc with
  | register => cases hevent
  | leave => cases hevent
  | remove => cases hevent
  | accept => cases ht
  | drain =>
      simp only [serveTick] at ht
      split at ht <;> (cases ht; exact ⟨rfl, rfl, _, rfl, rfl⟩)
  | joinCheck fromSide req arrived =>
      simp only [serveTick] at ht
      split at ht <;> (cases ht; exact ⟨rfl, rfl, _, rfl, rfl⟩)
  | moderate fromSide remove =>
      simp only [serveTick] at ht
      split at ht <;> (cases ht; exact ⟨rfl, rfl, _, rfl, rfl⟩)
  | rotating pc =>
      cases ht
      refine ⟨rfl, ?_, _, rfl, ?_⟩
      · cases pc <;> cases io <;> rfl
      · cases pc <;> cases io <;> rfl
  | reconsent fromSide contractHash =>
      simp only [serveTick] at ht
      split at ht
      case h_1 =>
          cases ht
          exact ⟨rfl, rfl, _, rfl, rfl⟩
      case h_2 h' hr =>
          cases ht
          obtain ⟨-, -, rfl⟩ := reconsent_eq hr
          exact ⟨rfl, rfl, _, rfl, rfl⟩
  | postAdmit post version =>
      simp only [serveTick] at ht
      split at ht <;> (cases ht; exact ⟨rfl, rfl, _, rfl, rfl⟩)
  | postOpen post =>
      simp only [serveTick] at ht
      split at ht <;> (cases ht; exact ⟨rfl, rfl, _, rfl, rfl⟩)
  -- an answer that failed is an event, one that went out is not
  | _ =>
      cases io with
      | none =>
          first
            | (cases ht; exact ⟨rfl, rfl, _, rfl, rfl⟩)
            | cases hevent
      | some now =>
          cases ht
          exact ⟨rfl, rfl, _, rfl, rfl⟩

-- ============================================== a verse as a registry

/-- The rows of a loop that goes on. -/
theorem applySession_next {w : VerseWorld} {conn : ConnId} {peer : Address}
    {t : Tick ServePc} {next : ServePc} (hnext : t.next = some next) :
    verseRegistry (w.applySession conn peer t)
      = ⟨(w.sessions.insert conn ⟨peer, next⟩).map verseSession, w.cleanups,
        t.host.activeSessions⟩ := by
  have hsessions : (w.applySession conn peer t).sessions
      = w.sessions.insert conn ⟨peer, next⟩ := by
    funext c
    rw [applySession_sessions, hnext, Table.insert_apply, Option.map_some]
  have hcleanups : (w.applySession conn peer t).cleanups = w.cleanups := by
    unfold VerseWorld.applySession
    rw [hnext]
    cases t.spawned <;> rfl
  unfold verseRegistry
  rw [hsessions, hcleanups, applySession_host]

/-- The rows of a loop that ends. -/
theorem applySession_ended {w : VerseWorld} {conn : ConnId} {peer : Address}
    {t : Tick ServePc} (hnext : t.next = none) :
    verseRegistry (w.applySession conn peer t)
      = ⟨(w.sessions.erase conn).map verseSession,
        w.cleanups.insert conn peer, t.host.activeSessions⟩ := by
  have hsessions : (w.applySession conn peer t).sessions
      = w.sessions.erase conn := by
    funext c
    rw [applySession_sessions, hnext, Table.erase_apply, Option.map_none]
  have hcleanups : (w.applySession conn peer t).cleanups
      = w.cleanups.insert conn peer := by
    unfold VerseWorld.applySession
    rw [hnext]
    cases t.spawned <;> rfl
  unfold verseRegistry
  rw [hsessions, hcleanups, applySession_host]

/-- A loop's step is its event. -/
theorem tick_follows {w : VerseWorld} {conn : ConnId} {peer : Address}
    {io : Option UInt64} {pc : ServePc} {t : Tick ServePc}
    (hs : w.sessions conn = some ⟨peer, pc⟩)
    (ht : serveTick crypto openPost w.host peer conn io pc = some t) :
    (verseRegistry w).Moves (tickEvent conn peer io pc)
      (verseRegistry (w.applySession conn peer t)) := by
  have hgoes : ∀ next, registered pc = true → registered next = true →
      (w.sessions.insert conn ⟨peer, next⟩).map verseSession
        = w.sessions.map verseSession := by
    intro next hpc hnext
    refine Registry.map_insert_ready hs ?_
    unfold verseSession
    rw [hpc, hnext]
  have hdropped : ∀ side next es, registered pc = true →
      registered next = true → t = .go (w.host.removeMember side) next es →
      (verseRegistry w).Moves (some (.dropped side))
        (verseRegistry (w.applySession conn peer t)) := by
    rintro side next es hpc hnext rfl
    rw [applySession_next rfl, hgoes next hpc hnext]
    exact rfl
  cases pc with
  | register =>
      cases ht
      rw [applySession_next rfl]
      exact Registry.moves_registered hs rfl rfl
  | leave leave =>
      cases ht
      refine hdropped leave.side _ _ rfl ?_ rfl
      split
      · rfl
      · split <;> rfl
  | remove remove =>
      cases ht
      refine hdropped remove.side _ _ rfl ?_ rfl
      split <;> rfl
  | _ =>
      cases hevent : tickEvent conn peer io _ with
      | some e =>
          cases io <;> cases hevent <;> cases ht
          all_goals
            rw [applySession_ended rfl]
            exact Registry.moves_closed hs rfl
      | none =>
          obtain ⟨hpc, hentries, next, hnext, hready⟩ :=
            serveTick_quiet ht hevent
          rw [applySession_next hnext, hgoes next hpc hready, hentries]
          exact rfl

/-- No session number was used before. -/
structure FreshSessions (w : VerseWorld) : Prop where
  ids : FreshIds w
  cleanups : ∀ conn peer, w.cleanups conn = some peer → conn < w.nextId

theorem freshSessions_step {w w' : VerseWorld} {a : VerseAction}
    (h : FreshSessions w) (hstep : verseStep crypto openPost w a = some w') :
    FreshSessions w' := by
  refine ⟨freshIds_step h.ids hstep, fun conn peer hc => ?_⟩
  have hended : ∀ c s, w.sessions c = some s →
      w.cleanups.insert c s.peer conn = some peer → conn < w.nextId := by
    intro c s hs hc
    rcases (Table.insert_eq_some_iff ..).mp hc with ⟨rfl, -⟩ | ⟨-, hold⟩
    · exact h.ids.sessions conn s hs
    · exact h.cleanups conn peer hold
  cases verseStep_cases hstep with
  | openSession => exact Nat.lt_succ_of_lt (h.cleanups conn peer hc)
  | tick c io p pc t hs ht =>
      rw [applySession_nextId]
      refine Nat.lt_of_lt_of_le ?_ (nextId_le_spawn w t.spawned)
      replace hc : (verseRegistry (w.applySession c p t)).cleanups conn
        = some peer := hc
      cases hnext : t.next with
      | none =>
          rw [applySession_ended hnext] at hc
          exact hended c _ hs hc
      | some next =>
          rw [applySession_next hnext] at hc
          exact h.cleanups conn peer hc
  | closeSession c p hs => exact hended c _ hs hc
  | cleanup c p hc₀ =>
      exact h.cleanups conn peer ((Table.erase_eq_some_iff ..).mp hc).2
  | rotate => exact Nat.lt_succ_of_lt (h.cleanups conn peer hc)
  | tickRotation call io pc hr =>
      refine Nat.lt_of_lt_of_le (h.cleanups conn peer ?_)
        (nextId_le_spawn w (rotateTick crypto w.host io pc).spawned)
      replace hc : (w.spawn (rotateTick crypto w.host io pc).spawned).cleanups
        conn = some peer := hc
      revert hc
      cases (rotateTick crypto w.host io pc).spawned <;> exact id
  | _ => exact h.cleanups conn peer hc

/-- A hosted verse follows its registry. -/
theorem verse_follows :
    Registry.Follows (verseStep crypto openPost) FreshSessions verseRegistry
      verseEvent := by
  intro w a w' hfresh hstep
  refine ⟨freshSessions_step hfresh hstep, ?_⟩
  cases verseStep_cases hstep with
  | openSession peer =>
      have hs : w.sessions w.nextId = none := by
        by_contra hne
        obtain ⟨s, hs⟩ := Option.ne_none_iff_exists'.mp hne
        exact Nat.lt_irrefl _ (hfresh.ids.sessions _ s hs)
      have hc : w.cleanups w.nextId = none := by
        by_contra hne
        obtain ⟨p, hc⟩ := Option.ne_none_iff_exists'.mp hne
        exact Nat.lt_irrefl _ (hfresh.cleanups _ p hc)
      exact Registry.moves_opened hs hc rfl
  | receive conn env peer hs =>
      show Registry.mk ((w.sessions.insert conn _).map verseSession) _ _
        = verseRegistry w
      rw [Registry.map_insert_ready hs
        (congrArg (Prod.mk peer) (serveReceive_registered ..).symm)]
      rfl
  | tick conn io peer pc t hs ht =>
      have hevent : verseEvent w (.tick conn io) = tickEvent conn peer io pc := by
        simp only [verseEvent, hs, Option.bind_some]
      rw [hevent]
      exact tick_follows hs ht
  | closeSession conn peer hs =>
      have hevent : verseEvent w (.closeSession conn)
          = some (.closed conn peer) := by
        simp only [verseEvent, hs, Option.map_some]
      rw [hevent]
      exact Registry.moves_closed hs rfl
  | cleanup conn peer hc =>
      have hevent : verseEvent w (.cleanup conn)
          = some (.cleaned conn peer) := by
        simp only [verseEvent, hc, Option.map_some]
      rw [hevent]
      exact if_pos hc
  | tickRotation call io pc hr =>
      have hactive : (rotateTick crypto w.host io pc).host.activeSessions
          = w.host.activeSessions := by
        cases pc <;> cases io <;> rfl
      have hcleanups : (w.applyRotation call
          (rotateTick crypto w.host io pc)).cleanups = w.cleanups := by
        show (w.spawn (rotateTick crypto w.host io pc).spawned).cleanups = _
        cases (rotateTick crypto w.host io pc).spawned <;> rfl
      show Registry.mk ((w.applyRotation call _).sessions.map verseSession)
        (w.applyRotation call _).cleanups
        (rotateTick crypto w.host io pc).host.activeSessions = verseRegistry w
      rw [applyRotation_sessions, hcleanups, hactive]
      rfl
  | _ => exact rfl

-- ================================================ gossip as a registry

/-- The loop has registered. -/
def gossipRegistered : GossipPc → Bool
  | .register => false
  | .serve => true

/-- What a step is to the registry. -/
def gossipEvent (g : GossipNode) : GossipAction → Option (RegistryEvent Address)
  | .openSession peer => some (.opened g.nextId peer)
  | .register conn => (g.sessions conn).map fun s => .registered conn s.peer
  | .closeSession conn => (g.sessions conn).map fun s => .closed conn s.peer
  | .cleanup conn => (g.cleanups conn).map fun peer => .cleaned conn peer

/-- A loop as a session of the registry. -/
def gossipSession (s : GossipSession) : Address × Bool :=
  (s.peer, gossipRegistered s.pc)

/-- A node's Gossip sessions as a registry. -/
def gossipRegistry (g : GossipNode) : Registry Address where
  sessions := g.sessions.map gossipSession
  cleanups := g.cleanups
  entries := g.activeGossip

/-- No session number was used before. -/
structure FreshGossip (g : GossipNode) : Prop where
  sessions : ∀ conn s, g.sessions conn = some s → conn < g.nextId
  cleanups : ∀ conn peer, g.cleanups conn = some peer → conn < g.nextId

theorem freshGossip_init : FreshGossip .init :=
  ⟨fun _ _ => nofun, fun _ _ => nofun⟩

/-- A node follows the registry of its Gossip sessions. -/
theorem gossip_follows :
    Registry.Follows gossipStep FreshGossip gossipRegistry gossipEvent := by
  intro g a g' hfresh hstep
  cases a with
  | openSession peer =>
      cases hstep
      constructor
      · refine ⟨fun conn s hs => ?_, fun conn p hc =>
          Nat.lt_succ_of_lt (hfresh.cleanups conn p hc)⟩
        rcases (Table.insert_eq_some_iff ..).mp hs with ⟨rfl, -⟩ | ⟨-, hold⟩
        · exact Nat.lt_succ_self _
        · exact Nat.lt_succ_of_lt (hfresh.sessions conn s hold)
      · have hs : g.sessions g.nextId = none := by
          by_contra hne
          obtain ⟨s, hs⟩ := Option.ne_none_iff_exists'.mp hne
          exact Nat.lt_irrefl _ (hfresh.sessions _ s hs)
        have hc : g.cleanups g.nextId = none := by
          by_contra hne
          obtain ⟨p, hc⟩ := Option.ne_none_iff_exists'.mp hne
          exact Nat.lt_irrefl _ (hfresh.cleanups _ p hc)
        exact Registry.moves_opened hs hc rfl
  | register conn =>
      simp only [gossipStep] at hstep
      split at hstep
      case h_2 => cases hstep
      case h_1 peer hs =>
          cases hstep
          constructor
          · refine ⟨fun c s hs' => ?_, hfresh.cleanups⟩
            rcases (Table.insert_eq_some_iff ..).mp hs' with
              ⟨rfl, -⟩ | ⟨-, hold⟩
            · exact hfresh.sessions c _ hs
            · exact hfresh.sessions c s hold
          · have hevent : gossipEvent g (.register conn)
                = some (.registered conn peer) := by
              simp only [gossipEvent, hs, Option.map_some]
            rw [hevent]
            exact Registry.moves_registered hs rfl rfl
  | closeSession conn =>
      simp only [gossipStep] at hstep
      split at hstep
      case h_2 => cases hstep
      case h_1 peer hs =>
          cases hstep
          constructor
          · refine ⟨fun c s hs' => hfresh.sessions c s
              ((Table.erase_eq_some_iff ..).mp hs').2, fun c p hc => ?_⟩
            rcases (Table.insert_eq_some_iff ..).mp hc with
              ⟨rfl, -⟩ | ⟨-, hold⟩
            · exact hfresh.sessions c _ hs
            · exact hfresh.cleanups c p hold
          · have hevent : gossipEvent g (.closeSession conn)
                = some (.closed conn peer) := by
              simp only [gossipEvent, hs, Option.map_some]
            rw [hevent]
            exact Registry.moves_closed hs rfl
  | cleanup conn =>
      simp only [gossipStep] at hstep
      split at hstep
      case h_2 => cases hstep
      case h_1 peer hc =>
          cases hstep
          constructor
          · exact ⟨hfresh.sessions, fun c p hc' =>
              hfresh.cleanups c p ((Table.erase_eq_some_iff ..).mp hc').2⟩
          · have hevent : gossipEvent g (.cleanup conn)
                = some (.cleaned conn peer) := by
              simp only [gossipEvent, hc, Option.map_some]
            rw [hevent]
            exact if_pos hc

-- ================================================================== exact

theorem map_eq_some_verse {w : VerseWorld} {conn : ConnId} {side : Address}
    {ready : Bool} :
    (verseRegistry w).sessions conn = some (side, ready)
      ↔ ∃ pc, w.sessions conn = some ⟨side, pc⟩ ∧ registered pc = ready := by
  refine Option.map_eq_some_iff.trans ⟨?_, ?_⟩
  · rintro ⟨⟨p, pc⟩, hs, heq⟩
    cases heq
    exact ⟨pc, hs, rfl⟩
  · rintro ⟨pc, hs, rfl⟩
    exact ⟨_, hs, rfl⟩

theorem map_eq_some_gossip {g : GossipNode} {conn : ConnId} {peer : Address}
    {ready : Bool} :
    (gossipRegistry g).sessions conn = some (peer, ready)
      ↔ ∃ pc, g.sessions conn = some ⟨peer, pc⟩ ∧ gossipRegistered pc = ready := by
  refine Option.map_eq_some_iff.trans ⟨?_, ?_⟩
  · rintro ⟨⟨p, pc⟩, hs, heq⟩
    cases heq
    exact ⟨pc, hs, rfl⟩
  · rintro ⟨pc, hs, rfl⟩
    exact ⟨_, hs, rfl⟩

theorem verseServed_iff {w : VerseWorld} {side : Address} :
    (verseRegistry w).Served side ↔ VerseServed w side := by
  constructor
  · rintro ⟨conn, ready, hs⟩
    obtain ⟨pc, hs, -⟩ := map_eq_some_verse.mp hs
    exact ⟨conn, pc, hs⟩
  · rintro ⟨conn, pc, hs⟩
    exact ⟨conn, _, map_eq_some_verse.mpr ⟨pc, hs, rfl⟩⟩

theorem gossipServed_iff {g : GossipNode} {peer : Address} :
    (gossipRegistry g).Served peer ↔ GossipServed g peer := by
  constructor
  · rintro ⟨conn, ready, hs⟩
    obtain ⟨pc, hs, -⟩ := map_eq_some_gossip.mp hs
    exact ⟨conn, pc, hs⟩
  · rintro ⟨conn, pc, hs⟩
    exact ⟨conn, _, map_eq_some_gossip.mpr ⟨pc, hs, rfl⟩⟩

/-- `active_sessions` is exact iff the registry is, about the members. -/
theorem activeSessionsExact_iff {w : VerseWorld} :
    ActiveSessionsExact w
      ↔ (verseRegistry w).Exact fun side => w.host.members side ≠ none := by
  constructor
  · intro h
    refine ⟨fun side hm hs => h.served side hm (verseServed_iff.mp hs), ?_⟩
    intro side conn hentry
    obtain ⟨pc, hs⟩ := h.running side conn hentry
    exact ⟨_, map_eq_some_verse.mpr ⟨pc, hs, rfl⟩⟩
  · intro h
    refine ⟨fun side hm hs => h.served side hm (verseServed_iff.mpr hs), ?_⟩
    intro side conn hentry
    obtain ⟨ready, hs⟩ := h.running side conn hentry
    obtain ⟨pc, hs, -⟩ := map_eq_some_verse.mp hs
    exact ⟨pc, hs⟩

/-- `active_gossip` is exact iff the registry is, about everybody. -/
theorem activeGossipExact_iff {g : GossipNode} :
    ActiveGossipExact g ↔ (gossipRegistry g).Exact fun _ => True := by
  constructor
  · intro h
    refine ⟨fun peer _ hs => h.served peer (gossipServed_iff.mp hs), ?_⟩
    intro peer conn hentry
    obtain ⟨pc, hs⟩ := h.running peer conn hentry
    exact ⟨_, map_eq_some_gossip.mpr ⟨pc, hs, rfl⟩⟩
  · intro h
    refine ⟨fun peer hs => h.served peer trivial (gossipServed_iff.mpr hs), ?_⟩
    intro peer conn hentry
    obtain ⟨ready, hs⟩ := h.running peer conn hentry
    obtain ⟨pc, hs, -⟩ := map_eq_some_gossip.mp hs
    exact ⟨pc, hs⟩

theorem verseSettled_registry {w : VerseWorld} (h : VerseSettled w) :
    (verseRegistry w).Settled := by
  refine ⟨h.cleaned, fun conn side hs => ?_⟩
  obtain ⟨pc, hs, hready⟩ := map_eq_some_verse.mp hs
  cases pc <;> first | exact h.ready conn side hs | cases hready

theorem gossipSettled_registry {g : GossipNode} (h : GossipSettled g) :
    (gossipRegistry g).Settled := by
  refine ⟨h.cleaned, fun conn peer hs => ?_⟩
  obtain ⟨pc, hs, hready⟩ := map_eq_some_gossip.mp hs
  cases pc <;> first | exact h.ready conn peer hs | cases hready

/-- The events of a run on a hosted verse. -/
def verseTrace (crypto : Crypto)
    (openPost : VerseContentKey → VersePostPayload → Option (List UInt8))
    (contract : ContractObject) (acts : List VerseAction) :
    List (RegistryEvent Address) :=
  Registry.trace (verseStep crypto openPost) verseEvent
    (.init (.new contract)) acts

/-- The events of a run of a node's Gossip sessions. -/
def gossipTrace (acts : List GossipAction) : List (RegistryEvent Address) :=
  Registry.trace gossipStep gossipEvent .init acts

theorem freshSessions_init (contract : ContractObject) :
    FreshSessions (.init (.new contract)) := ⟨⟨nofun, nofun, nofun⟩, nofun⟩

/-- Once no registration and no cleanup is pending, the registries are exact
iff nothing took a served member's, or a served peer's, entry away after its
last registration. -/
theorem registries_exact_iff (crypto : Crypto)
    (openPost : VerseContentKey → VersePostPayload → Option (List UInt8))
    (contract : ContractObject) (acts : List VerseAction)
    (gossipActs : List GossipAction) :
    (∀ w, run (verseStep crypto openPost) (.init (.new contract)) acts
        = some w →
      VerseSettled w → (ActiveSessionsExact w
        ↔ ∀ side, w.host.members side ≠ none → VerseServed w side →
          Registry.Registered side (verseTrace crypto openPost contract acts)))
    ∧ ∀ g, run gossipStep .init gossipActs = some g → GossipSettled g →
      (ActiveGossipExact g
        ↔ ∀ peer, GossipServed g peer →
          Registry.Registered peer (gossipTrace gossipActs)) := by
  constructor
  · intro w hrun hsettled
    have htrace := verse_follows.run_trace (freshSessions_init contract) hrun
    rw [activeSessionsExact_iff,
      Registry.exact_iff htrace (verseSettled_registry hsettled)]
    exact forall_congr' fun side => imp_congr Iff.rfl
      (imp_congr verseServed_iff Iff.rfl)
  · intro g hrun hsettled
    have htrace := gossip_follows.run_trace freshGossip_init hrun
    rw [activeGossipExact_iff,
      Registry.exact_iff htrace (gossipSettled_registry hsettled)]
    exact forall_congr' fun peer => (forall_const True).trans
      (imp_congr gossipServed_iff Iff.rfl)

theorem registries_exact_alone :
    (∃ w, run (verseStep titleHash fun _ _ => none) titledVerse joinTitled
        = some w
      ∧ ActiveSessionsExact w)
    ∧ ∃ g, run gossipStep .init
        [.openSession (Bytes.fill _ 2), .register 0] = some g
      ∧ ActiveGossipExact g := by
  constructor
  · refine ⟨_, rfl, ((registries_exact_iff titleHash (fun _ _ => none)
      (titled "a" 1) joinTitled []).1 _ rfl ⟨?_, ?_⟩).mpr ?_⟩
    · rintro (_ | conn) <;> rfl
    · rintro (_ | conn) side <;> nofun
    · rintro side - ⟨_ | conn, pc, hs⟩
      · cases hs
        exact ⟨[_], 0, [], rfl, nofun⟩
      · cases hs
  · refine ⟨_, rfl, ((registries_exact_iff titleHash (fun _ _ => none)
      (titled "a" 1) [] [.openSession (Bytes.fill _ 2), .register 0]).2 _ rfl
        ⟨?_, ?_⟩).mpr ?_⟩
    · rintro (_ | conn) <;> rfl
    · rintro (_ | conn) side <;> nofun
    · rintro side ⟨_ | conn, pc, hs⟩
      · cases hs
        exact ⟨[_], 0, [], rfl, nofun⟩
      · cases hs

/-- A second Gossip session of a peer begins before the first one ends. -/
def overlapGossip : List GossipAction :=
  [.openSession (Bytes.fill _ 2), .register 0, .openSession (Bytes.fill _ 2),
    .register 1, .closeSession 0, .cleanup 0]

/-- A second Verse session of a member begins before the first one ends. -/
def overlapVerse : List VerseAction :=
  joinTitled ++ [.openSession (Bytes.fill _ 2), .tick 1 (some 2),
    .tick 1 (some 2), .closeSession 0, .cleanup 0]

theorem sessions_overlapping :
    (∃ w, run (verseStep titleHash fun _ _ => none) titledVerse overlapVerse
        = some w
      ∧ VerseSettled w ∧ ¬ ActiveSessionsExact w)
    ∧ ∃ g, run gossipStep .init overlapGossip = some g ∧ GossipSettled g
      ∧ ¬ ActiveGossipExact g := by
  constructor
  · refine ⟨_, rfl, ⟨?_, ?_⟩, fun h => ?_⟩
    · rintro (_ | _ | conn) <;> rfl
    · rintro (_ | _ | conn) side <;> nofun
    · exact h.served (Bytes.fill _ 2) (by decide) ⟨1, .accept, rfl⟩ rfl
  · refine ⟨_, rfl, ⟨?_, ?_⟩, fun h => ?_⟩
    · rintro (_ | _ | conn) <;> rfl
    · rintro (_ | _ | conn) side <;> nofun
    · exact h.served (Bytes.fill _ 2) ⟨1, .serve, rfl⟩ rfl

end Sidevers.Proofs
