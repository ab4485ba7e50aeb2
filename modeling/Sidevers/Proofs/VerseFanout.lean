/-
What a verse sends to its members: who gets a push, how often, and what is
left of it when everything has run.

# What holds of every run

Each event of the log is justified by the ones before it (`Follows`): a post
is fanned out for an admission, by the session that admitted it; the
connections of a task are copied once, and are those of members other than
the author; a copied connection is written to once. The state carries what
is not in the log yet (`FanoutInv`): the tasks that still have to copy, the
sends that still have to run, and the posts that are admitted but not
opened.

# What follows

- `post_reaches_members`: whoever is sent a post was a member when the
  connections were copied, and is sent it at most as often as it was
  admitted.
- `nothing_sent_after_removal`: after a side is gone, it is sent what was
  copied before, and nothing else.
- `push_accounted`: a push is sent to every active member it was copied for,
  once, or is under way.
-/
import Sidevers.Lib.Trace
import Sidevers.Net.VerseFanout
import Sidevers.Proofs.Retraction
import Sidevers.Proofs.VerseRemoval

namespace Sidevers.Proofs

open Sidevers.Core
open Sidevers.Lib
open Sidevers.Net

variable {crypto : Crypto}
  {openPost : VerseContentKey → VersePostPayload → Option (List UInt8)}

-- ======================================================= the vocabulary

/-- The event makes the side a member. -/
def Enters (side : Address) : VerseEvent → Prop
  | .added s _ _ => s = side
  | _ => False

/-- The event ends its membership. -/
def Departs (side : Address) : VerseEvent → Prop
  | .removed s => s = side
  | _ => False

theorem moves_of_departs {side : Address} {e : VerseEvent}
    (h : Departs side e) : Moves side e := by
  cases e with
  | removed s => exact h
  | _ => exact h.elim

/-- What happened to the verse itself. -/
def ofVerse : FanoutEvent → Option VerseEvent
  | .verse _ e => some e
  | _ => none

/-- After these events the side is a member. -/
def Joined (side : Address) (log : List FanoutEvent) : Prop :=
  Stands (Enters side) (Departs side) (log.filterMap ofVerse)

/-- The session that admitted the post, if the event is an admission. -/
def admittedBy (post : Envelope VersePostPayload) :
    FanoutEvent → Option (Option ConnId)
  | .verse session (.admitted p _) => if p = post then some session else none
  | _ => none

/-- The session that had the post fanned out, if the event is that. -/
def fannedOutBy (post : Envelope VersePostPayload) :
    FanoutEvent → Option (Option ConnId)
  | .spawned _ session (.post p) => if p = post then some session else none
  | _ => none

/-- The task that sent the post to the member, if the event is that. -/
def sendOf (post : Envelope VersePostPayload) (member : Address) :
    FanoutEvent → Option Nat
  | .sent task (.post p) m _ =>
      if p = post ∧ m = member then some task else none
  | _ => none

/-- The task, if the event sets one going with the post. -/
def taskOf (post : Envelope VersePostPayload) : FanoutEvent → Option Nat
  | .spawned task _ (.post p) => if p = post then some task else none
  | _ => none

/-- What must have happened before an event. -/
def Follows (before : List FanoutEvent) : FanoutEvent → Prop
  | .verse _ _ => True
  | .spawned task session push =>
      (∀ s p, .spawned task s p ∉ before)
        ∧ ∀ post, push = .post post →
          ∃ contractHash, .verse session (.admitted post contractHash) ∈ before
  | .collected task push connections =>
      (∃ session, .spawned task session push ∈ before)
        ∧ (∀ p c, .collected task p c ∉ before)
        ∧ ∀ side, connections side ≠ none →
          push.author ≠ some side ∧ Joined side before
  | .sent task push member _ =>
      (∃ connections, .collected task push connections ∈ before
          ∧ connections member ≠ none)
        ∧ ∀ p written, .sent task p member written ∉ before

section follows

variable {log : List FanoutEvent} {task : Nat} {push : MemberPush}

/-- What was sent was copied, with a connection of the member. -/
theorem collected_of_sent (h : Grounded Follows log) {member : Address}
    {written : Bool} (hmem : .sent task push member written ∈ log) :
    ∃ connections, .collected task push connections ∈ log
      ∧ connections member ≠ none := by
  obtain ⟨before, after, heq, ⟨connections, hcopied, hmember⟩, -⟩ :=
    h.of_mem hmem
  exact ⟨connections, heq ▸ List.mem_append_left _ hcopied, hmember⟩

/-- What was copied was spawned. -/
theorem spawned_of_collected (h : Grounded Follows log)
    {connections : Table Address ConnId}
    (hmem : .collected task push connections ∈ log) :
    ∃ session, .spawned task session push ∈ log := by
  obtain ⟨before, after, heq, ⟨session, hspawned⟩, -⟩ := h.of_mem hmem
  exact ⟨session, heq ▸ List.mem_append_left _ hspawned⟩

/-- A post that was fanned out was admitted. -/
theorem admitted_of_spawned (h : Grounded Follows log)
    {session : Option ConnId} {post : Envelope VersePostPayload}
    (hmem : .spawned task session (.post post) ∈ log) :
    ∃ contractHash, .verse session (.admitted post contractHash) ∈ log := by
  obtain ⟨before, after, heq, -, hadmitted⟩ := h.of_mem hmem
  obtain ⟨contractHash, hadmitted⟩ := hadmitted post rfl
  exact ⟨contractHash, heq ▸ List.mem_append_left _ hadmitted⟩

end follows

-- ============================================================= the verse

/-- Every member stands in the log. -/
def MembersStand (w : VerseWorld) : Prop :=
  ∀ side, w.host.members side ≠ none →
    Stands (Enters side) (Departs side) w.log

theorem membersStand_step {w w' : VerseWorld} {a : VerseAction}
    (h : MembersStand w) (hstep : verseStep crypto openPost w a = some w') :
    MembersStand w' := by
  intro side hside
  obtain ⟨es, hlog, hmembers⟩ := members_step hstep
  rw [hlog]
  cases hmembers with
  | same hsame hes =>
      rw [hsame] at hside
      exact (h side hside).append fun e he hoff =>
        hes e he side (moves_of_departs hoff)
  | joined conn io peer fromSide req arrived contract share ha hs hins hes =>
      rw [hins, Table.insert_ne_none_iff] at hside
      rw [hes, stands_concat]
      by_cases heq : req.side = side
      · exact Or.inl heq
      · exact Or.inr ⟨id, h side (hside.resolve_left (Ne.symm heq))⟩
  | direct s token key hins hes =>
      rw [hins, Table.insert_ne_none_iff] at hside
      rw [hes, List.append_cons, stands_concat, stands_concat]
      by_cases heq : s = side
      · exact Or.inr ⟨id, Or.inl heq⟩
      · exact Or.inr ⟨id, Or.inr ⟨id, h side
          (hside.resolve_left (Ne.symm heq))⟩⟩
  | removed s herase hes =>
      rw [herase, Table.erase_ne_none_iff] at hside
      rw [hes, stands_concat]
      exact Or.inr ⟨fun hs => hside.1 (Eq.symm hs), h side hside.2⟩

/-- A post is fanned out by the step that opens it, which logs nothing and
leaves its session with the post to retain. -/
theorem spawnedBy_post {w w' : VerseWorld} {a : VerseAction}
    {post : Envelope VersePostPayload}
    (hspawn : spawnedBy openPost w a = some (.post post))
    (hstep : verseStep crypto openPost w a = some w') :
    ∃ conn peer, a.session = some conn
      ∧ w.sessions conn = some ⟨peer, .postOpen post⟩
      ∧ w'.sessions conn = some ⟨peer, .postRetain post⟩
      ∧ w'.log = w.log := by
  cases a with
  | tick conn io =>
      simp only [spawnedBy] at hspawn
      split at hspawn
      case h_1 peer p hs =>
        obtain ⟨plain, hopen, heq⟩ := Option.map_eq_some_iff.mp hspawn
        cases heq
        refine ⟨conn, peer, rfl, hs, ?_⟩
        have ht : serveTick crypto openPost w.host peer conn io
            (.postOpen post) = some (.go w.host (.postRetain post) []) := by
          simp only [serveTick, hopen]
        obtain rfl := Option.some.inj
          ((verseStep_tick hs ht).symm.trans hstep)
        refine ⟨?_, ?_⟩
        · rw [applySession_sessions, if_pos rfl]
          rfl
        · rw [applySession_log]
          exact List.append_nil _
      case h_2 => cases hspawn
  | _ => cases hspawn

-- ================================================================ a step

/-- What an action does. -/
inductive FanoutMove (crypto : Crypto)
    (openPost : VerseContentKey → VersePostPayload → Option (List UInt8))
    (w : FanoutWorld) : FanoutAction → FanoutWorld → Prop where
  | verse (a : VerseAction) (verse : VerseWorld) (es : List VerseEvent)
      (hstep : verseStep crypto openPost w.verse a = some verse)
      (hlog : verse.log = w.verse.log ++ es)
      (hspawn : spawnedBy openPost w.verse a = none) :
      FanoutMove crypto openPost w (.verse a) { w with
        verse, log := w.log ++ es.map fun e => .verse a.session e }
  | spawned (a : VerseAction) (verse : VerseWorld) (push : MemberPush)
      (hstep : verseStep crypto openPost w.verse a = some verse)
      (hlog : verse.log = w.verse.log)
      (hspawn : spawnedBy openPost w.verse a = some push) :
      FanoutMove crypto openPost w (.verse a) { w with
        verse
        tasks := w.tasks.insert w.nextTask push
        nextTask := w.nextTask + 1
        log := w.log ++ [.spawned w.nextTask a.session push] }
  | collected (task : Nat) (io : Option UInt64) (push : MemberPush)
      (ht : w.tasks task = some push) :
      FanoutMove crypto openPost w (.collect task io) { w with
        tasks := w.tasks.erase task
        sends := fun id =>
          if id.1 = task then
            (w.verse.host.recipients io push id.2).map fun c => (c, push)
          else w.sends id
        log := w.log
          ++ [.collected task push (w.verse.host.recipients io push)] }
  | sent (task : Nat) (member : Address) (written : Bool) (conn : ConnId)
      (push : MemberPush) (hs : w.sends (task, member) = some (conn, push)) :
      FanoutMove crypto openPost w (.send task member written) { w with
        sends := w.sends.erase (task, member)
        log := w.log ++ [.sent task push member written] }

/-- Whatever spawns a task logs nothing in the verse. -/
theorem log_of_spawnedBy {w w' : VerseWorld} {a : VerseAction}
    {push : MemberPush} (hspawn : spawnedBy openPost w a = some push)
    (hstep : verseStep crypto openPost w a = some w') : w'.log = w.log := by
  cases push with
  | post post =>
      obtain ⟨-, -, -, -, -, hlog⟩ := spawnedBy_post hspawn hstep
      exact hlog
  | amend contract =>
      cases verseStep_cases hstep with
      | amend => rfl
      | tick conn io peer pc t hs ht =>
          simp only [spawnedBy] at hspawn
          split at hspawn
          · obtain ⟨-, -, heq⟩ := Option.map_eq_some_iff.mp hspawn
            cases heq
          · cases hspawn
      | _ => cases hspawn

theorem fanoutStep_cases {w w' : FanoutWorld} {a : FanoutAction}
    (h : fanoutStep crypto openPost w a = some w') :
    FanoutMove crypto openPost w a w' := by
  cases a with
  | verse a =>
      obtain ⟨verse, hstep, rfl⟩ := Option.map_eq_some_iff.mp h
      obtain ⟨es, hlog, -⟩ := members_step hstep
      have hes : verse.log.drop w.verse.log.length = es := by
        rw [hlog, List.drop_left]
      cases hspawn : spawnedBy openPost w.verse a with
      | none =>
          have := FanoutMove.verse a verse es hstep hlog hspawn
          rwa [← hes] at this
      | some push =>
          have hsame := log_of_spawnedBy hspawn hstep
          have := FanoutMove.spawned a verse push hstep hsame hspawn
          unfold FanoutWorld.spawnTask FanoutWorld.advance
          rw [hsame, List.drop_length, List.map_nil, List.append_nil]
          exact this
  | collect task io =>
      simp only [fanoutStep] at h
      split at h
      case h_1 push ht =>
        injection h with h
        exact h ▸ .collected task io push ht
      case h_2 => cases h
  | send task member written =>
      simp only [fanoutStep] at h
      split at h
      case h_1 conn push hs =>
        injection h with h
        exact h ▸ .sent task member written conn push hs
      case h_2 => cases h

-- ============================================================ the invariant

/-- The log is justified, and the state carries what is not in it yet. -/
structure FanoutInv (w : FanoutWorld) : Prop where
  view : w.log.filterMap ofVerse = w.verse.log
  stand : MembersStand w.verse
  justified : Grounded Follows w.log
  fresh : ∀ task session push, .spawned task session push ∈ w.log →
    task < w.nextTask
  waiting : ∀ task push, w.tasks task = some push →
    (∃ session, .spawned task session push ∈ w.log)
      ∧ ∀ p c, .collected task p c ∉ w.log
  underway : ∀ task member conn push,
    w.sends (task, member) = some (conn, push) →
      (∃ connections, .collected task push connections ∈ w.log
          ∧ connections member ≠ none)
        ∧ ∀ p written, .sent task p member written ∉ w.log
  opening : ∀ conn peer post,
    w.verse.sessions conn = some ⟨peer, .postOpen post⟩ →
      (w.log.filterMap (fannedOutBy post)).count (some conn)
        < (w.log.filterMap (admittedBy post)).count (some conn)
  fanned : ∀ post session,
    (w.log.filterMap (fannedOutBy post)).count session
      ≤ (w.log.filterMap (admittedBy post)).count session

section steps

variable {w w' : FanoutWorld}

/-- What the events of the verse are to the log. -/
theorem filterMap_ofVerse (session : Option ConnId) (es : List VerseEvent) :
    (es.map fun e => FanoutEvent.verse session e).filterMap ofVerse
      = es := by
  rw [List.filterMap_map]
  exact List.filterMap_some

theorem filterMap_fannedOutBy (post : Envelope VersePostPayload)
    (session : Option ConnId) (es : List VerseEvent) :
    (es.map fun e => FanoutEvent.verse session e).filterMap (fannedOutBy post)
      = [] := by
  rw [List.filterMap_map]
  exact List.filterMap_eq_nil_iff.mpr fun _ _ => rfl

/-- An event of the verse is none of a task. -/
theorem mem_append_verse {e : FanoutEvent} {log : List FanoutEvent}
    {session : Option ConnId} {es : List VerseEvent}
    (he : e ∈ log ++ es.map fun e => .verse session e) :
    e ∈ log ∨ ∃ e', e = .verse session e' := by
  rcases List.mem_append.mp he with he | he
  · exact Or.inl he
  · obtain ⟨e', -, rfl⟩ := List.mem_map.mp he
    exact Or.inr ⟨e', rfl⟩

/-- An admission that is counted is in the log. -/
theorem admitted_of_count {post : Envelope VersePostPayload}
    {session : Option ConnId} {log : List FanoutEvent}
    (h : 0 < (log.filterMap (admittedBy post)).count session) :
    ∃ contractHash, .verse session (.admitted post contractHash) ∈ log := by
  obtain ⟨e, he, hf⟩ := List.mem_filterMap.mp (List.count_pos_iff.mp h)
  cases e with
  | verse s e =>
      cases e with
      | admitted p contractHash =>
          simp only [admittedBy] at hf
          split at hf
          · cases hf
            subst p
            exact ⟨contractHash, he⟩
          · cases hf
      | _ => cases hf
  | _ => cases hf

/-- The count of fan-outs after one more task. -/
theorem count_fannedOutBy_spawned (log : List FanoutEvent) (task : Nat)
    (session s : Option ConnId) (push : MemberPush)
    (post : Envelope VersePostPayload) :
    ((log ++ [FanoutEvent.spawned task session push]).filterMap
          (fannedOutBy post)).count s
        = (log.filterMap (fannedOutBy post)).count s
      ∨ push = .post post ∧ session = s
        ∧ ((log ++ [FanoutEvent.spawned task session push]).filterMap
            (fannedOutBy post)).count s
          = (log.filterMap (fannedOutBy post)).count s + 1 := by
  rw [List.filterMap_append, List.count_append]
  cases push with
  | amend contract => exact Or.inl rfl
  | post p =>
      by_cases hp : p = post
      · by_cases hs : session = s
        · refine Or.inr ⟨congrArg _ hp, hs, ?_⟩
          simp [fannedOutBy, hp, hs]
        · refine Or.inl ?_
          simp [fannedOutBy, hp, hs]
      · refine Or.inl ?_
        simp [fannedOutBy, hp]

/-- A task that was not spawned has not copied anything. -/
theorem FanoutInv.not_collected (h : FanoutInv w) {task : Nat}
    (htask : w.nextTask ≤ task) (push : MemberPush)
    (connections : Table Address ConnId) :
    .collected task push connections ∉ w.log := by
  intro hmem
  obtain ⟨session, hspawned⟩ := spawned_of_collected h.justified hmem
  have := h.fresh task session push hspawned
  omega

/-- A task that has not copied the connections has sent nothing. -/
theorem FanoutInv.not_sent (h : FanoutInv w) {task : Nat}
    (hcollected : ∀ p c, .collected task p c ∉ w.log) (push : MemberPush)
    (member : Address) (written : Bool) :
    .sent task push member written ∉ w.log := by
  intro hmem
  obtain ⟨connections, hcopied, -⟩ := collected_of_sent h.justified hmem
  exact hcollected push connections hcopied

/-- A post that is about to be opened was admitted just now, or it was about
to be before. -/
theorem opening_verse {a : VerseAction} {verse : VerseWorld}
    {es : List VerseEvent} {conn : ConnId} {peer : Address}
    {post : Envelope VersePostPayload}
    (hstep : verseStep crypto openPost w.verse a = some verse)
    (hlog : verse.log = w.verse.log ++ es)
    (hs' : verse.sessions conn = some ⟨peer, .postOpen post⟩) :
    w.verse.sessions conn = some ⟨peer, .postOpen post⟩
      ∨ a.session = some conn ∧ spawnedBy openPost w.verse a = none
        ∧ ∃ contractHash, es = [.admitted post contractHash] := by
  generalize hpc : ServePc.postOpen post = next at hs'
  cases sessions_step hstep hs' with
  | same pc hs => exact Or.inl (hpc ▸ hs)
  | opened ha => cases hpc
  | received env ha hs => exact absurd hpc.symm serveReceive_not_waiting.1
  | ticked io pc t next ha hs ht hnext =>
      subst ha hpc
      obtain ⟨version, hadmits, hes⟩ := serveTick_opening ht hnext
      refine Or.inr ⟨rfl, ?_, w.verse.host.contract.hash crypto, ?_⟩
      · cases hspawn : spawnedBy openPost w.verse (.tick conn io) with
        | none => rfl
        | some push =>
            have hsame := log_of_spawnedBy hspawn hstep
            obtain rfl := Option.some.inj
              ((verseStep_tick hs ht).symm.trans hstep)
            rw [applySession_log, hes, List.append_right_eq_self] at hsame
            cases hsame
      · obtain rfl := Option.some.inj
          ((verseStep_tick hs ht).symm.trans hstep)
        rw [applySession_log] at hlog
        exact (List.append_cancel_left hlog).symm.trans hes

/-- A step of the verse that spawns nothing. -/
theorem fanoutInv_verse {a : VerseAction} {verse : VerseWorld}
    {es : List VerseEvent} (h : FanoutInv w)
    (hstep : verseStep crypto openPost w.verse a = some verse)
    (hlog : verse.log = w.verse.log ++ es) :
    FanoutInv { w with
      verse, log := w.log ++ es.map fun e => .verse a.session e } where
  view := by rw [List.filterMap_append, filterMap_ofVerse, h.view, hlog]
  stand := membersStand_step h.stand hstep
  justified := h.justified.append fun before e after heq => by
    have he : e ∈ es.map fun e => FanoutEvent.verse a.session e := by
      rw [heq]
      exact List.mem_append_right _ List.mem_cons_self
    obtain ⟨e', -, rfl⟩ := List.mem_map.mp he
    trivial
  fresh task session push hmem := by
    rcases mem_append_verse hmem with hmem | ⟨e, heq⟩
    · exact h.fresh task session push hmem
    · cases heq
  waiting task push ht := by
    obtain ⟨⟨session, hspawned⟩, hcollected⟩ := h.waiting task push ht
    refine ⟨⟨session, List.mem_append_left _ hspawned⟩, fun p c hmem => ?_⟩
    rcases mem_append_verse hmem with hmem | ⟨e, heq⟩
    · exact hcollected p c hmem
    · cases heq
  underway task member conn push hs := by
    obtain ⟨⟨c, hcopied, hc⟩, hsent⟩ := h.underway task member conn push hs
    refine ⟨⟨c, List.mem_append_left _ hcopied, hc⟩, fun p b hmem => ?_⟩
    rcases mem_append_verse hmem with hmem | ⟨e, heq⟩
    · exact hsent p b hmem
    · cases heq
  opening conn peer post hs := by
    rw [List.filterMap_append, filterMap_fannedOutBy, List.append_nil,
      List.filterMap_append, List.count_append]
    rcases opening_verse hstep hlog hs with hold | ⟨hsession, -, c, rfl⟩
    · have := h.opening conn peer post hold
      omega
    · have := h.fanned post (some conn)
      have hone : (([VerseEvent.admitted post c].map fun e =>
          FanoutEvent.verse a.session e).filterMap
            (admittedBy post)).count (some conn) = 1 := by
        simp [admittedBy, hsession]
      omega
  fanned post session := by
    rw [List.filterMap_append, filterMap_fannedOutBy, List.append_nil,
      List.filterMap_append, List.count_append]
    have := h.fanned post session
    omega

/-- A step of the verse that spawns a task. -/
theorem fanoutInv_spawned {a : VerseAction} {verse : VerseWorld}
    {push : MemberPush} (h : FanoutInv w)
    (hstep : verseStep crypto openPost w.verse a = some verse)
    (hlog : verse.log = w.verse.log)
    (hspawn : spawnedBy openPost w.verse a = some push) :
    FanoutInv { w with
      verse
      tasks := w.tasks.insert w.nextTask push
      nextTask := w.nextTask + 1
      log := w.log ++ [.spawned w.nextTask a.session push] } where
  view := by
    show (w.log ++ [_]).filterMap ofVerse = verse.log
    rw [filterMap_concat_none rfl, h.view, hlog]
  stand := membersStand_step h.stand hstep
  justified := by
    refine grounded_concat.mpr ⟨h.justified, fun s p hmem => ?_,
      fun post hpush => ?_⟩
    · exact Nat.lt_irrefl _ (h.fresh _ s p hmem)
    · subst hpush
      obtain ⟨conn, peer, hsession, hs, -⟩ := spawnedBy_post hspawn hstep
      rw [hsession]
      have := h.opening conn peer post hs
      exact admitted_of_count (by omega)
  fresh task session p hmem := by
    show task < w.nextTask + 1
    rcases List.mem_append.mp hmem with hmem | hmem
    · have := h.fresh task session p hmem
      omega
    · cases List.mem_singleton.mp hmem
      omega
  waiting task p ht := by
    rcases (Table.insert_eq_some_iff _).mp ht with ⟨rfl, rfl⟩ | ⟨-, ht⟩
    · exact ⟨⟨a.session, List.mem_append_right _ List.mem_cons_self⟩,
        fun p c =>
          not_mem_concat (h.not_collected (Nat.le_refl _) p c) nofun⟩
    · obtain ⟨⟨session, hspawned⟩, hcollected⟩ := h.waiting task p ht
      exact ⟨⟨session, List.mem_append_left _ hspawned⟩,
        fun p c => not_mem_concat (hcollected p c) nofun⟩
  underway task member conn p hs := by
    obtain ⟨⟨c, hcopied, hc⟩, hsent⟩ := h.underway task member conn p hs
    exact ⟨⟨c, List.mem_append_left _ hcopied, hc⟩,
      fun p b => not_mem_concat (hsent p b) nofun⟩
  opening conn peer post hs := by
    show _ < ((w.log ++ [_]).filterMap (admittedBy post)).count (some conn)
    rw [filterMap_concat_none (f := admittedBy post) rfl]
    rcases opening_verse hstep (hlog.trans (List.append_nil _).symm) hs with
      hold | ⟨-, hnone, -⟩
    · rcases count_fannedOutBy_spawned w.log w.nextTask a.session (some conn)
        push post with hcount | ⟨rfl, hsession, -⟩
      · rw [hcount]
        exact h.opening conn peer post hold
      · -- the session that opened it has it to retain now
        obtain ⟨conn', peer', hsession', -, hs', -⟩ :=
          spawnedBy_post hspawn hstep
        obtain rfl := Option.some.inj (hsession.symm.trans hsession')
        rw [hs'] at hs
        cases hs
    · rw [hspawn] at hnone
      cases hnone
  fanned post session := by
    show _ ≤ ((w.log ++ [_]).filterMap (admittedBy post)).count session
    rw [filterMap_concat_none (f := admittedBy post) rfl]
    rcases count_fannedOutBy_spawned w.log w.nextTask a.session session push post
      with hcount | ⟨rfl, hsession, hcount⟩
    · rw [hcount]
      exact h.fanned post session
    · obtain ⟨conn, peer, hsession', hs, -⟩ := spawnedBy_post hspawn hstep
      obtain rfl := hsession.symm.trans hsession'
      rw [hcount]
      exact h.opening conn peer post hs

/-- An event that neither admits nor fans out changes no count. -/
theorem counted_concat {log : List FanoutEvent} {e : FanoutEvent}
    {post : Envelope VersePostPayload} {session : Option ConnId} (n : Nat)
    (hf : fannedOutBy post e = none) (ha : admittedBy post e = none)
    (h : (log.filterMap (fannedOutBy post)).count session + n
      ≤ (log.filterMap (admittedBy post)).count session) :
    ((log ++ [e]).filterMap (fannedOutBy post)).count session + n
      ≤ ((log ++ [e]).filterMap (admittedBy post)).count session := by
  rw [filterMap_concat_none hf, filterMap_concat_none ha]
  exact h

/-- A task copies connections of members, and not the author's. -/
theorem mem_of_recipients {h : VerseHost} {io : Option UInt64}
    {push : MemberPush} {side : Address}
    (hside : h.recipients io push side ≠ none) :
    push.author ≠ some side ∧ h.members side ≠ none := by
  have hactive : h.activeMembers side ≠ none → h.members side ≠ none := by
    intro hactive hnone
    apply hactive
    simp [VerseHost.activeMembers, hnone]
  cases push with
  | post post =>
      simp only [VerseHost.recipients] at hside
      split at hside
      · exact absurd rfl hside
      · refine ⟨fun heq => ?_, hactive hside⟩
        cases heq
        contradiction
  | amend contract =>
      simp only [VerseHost.recipients] at hside
      split at hside
      · exact absurd rfl hside
      · exact ⟨nofun, hactive hside⟩

/-- A task copies the connections. -/
theorem fanoutInv_collected {task : Nat} {io : Option UInt64}
    {push : MemberPush} (h : FanoutInv w) (ht : w.tasks task = some push) :
    FanoutInv { w with
      tasks := w.tasks.erase task
      sends := fun id =>
        if id.1 = task then
          (w.verse.host.recipients io push id.2).map fun c => (c, push)
        else w.sends id
      log := w.log
        ++ [.collected task push (w.verse.host.recipients io push)] } where
  view := (filterMap_concat_none rfl).trans h.view
  stand := h.stand
  justified := by
    obtain ⟨hspawned, hcollected⟩ := h.waiting task push ht
    refine grounded_concat.mpr ⟨h.justified, hspawned, hcollected,
      fun side hside => ?_⟩
    obtain ⟨hauthor, hmember⟩ := mem_of_recipients hside
    refine ⟨hauthor, ?_⟩
    unfold Joined
    rw [h.view]
    exact h.stand side hmember
  fresh task session push hmem := by
    rcases List.mem_append.mp hmem with hmem | hmem
    · exact h.fresh task session push hmem
    · cases List.mem_singleton.mp hmem
  waiting task' p ht' := by
    obtain ⟨hne, ht'⟩ := (Table.erase_eq_some_iff _).mp ht'
    obtain ⟨⟨session, hspawned⟩, hcollected⟩ := h.waiting task' p ht'
    refine ⟨⟨session, List.mem_append_left _ hspawned⟩,
      fun p c => not_mem_concat (hcollected p c) fun heq => ?_⟩
    cases heq
    exact hne rfl
  underway task' member conn p hs := by
    by_cases htask : task' = task
    · subst htask
      simp only [if_true] at hs
      obtain ⟨c, hc, heq⟩ := Option.map_eq_some_iff.mp hs
      cases heq
      have hnot := h.not_sent (h.waiting task' push ht).2
      refine ⟨⟨_, List.mem_append_right _ List.mem_cons_self, ?_⟩,
        fun p b => not_mem_concat (hnot p member b) nofun⟩
      rw [hc]
      exact Option.some_ne_none _
    · simp only [if_neg htask] at hs
      obtain ⟨⟨c, hcopied, hc⟩, hsent⟩ := h.underway task' member conn p hs
      exact ⟨⟨c, List.mem_append_left _ hcopied, hc⟩,
        fun p b => not_mem_concat (hsent p b) nofun⟩
  opening conn peer post hs :=
    counted_concat 1 rfl rfl (h.opening conn peer post hs)
  fanned post session := counted_concat 0 rfl rfl (h.fanned post session)

/-- A send runs. -/
theorem fanoutInv_sent {task : Nat} {member : Address} {written : Bool}
    {conn : ConnId} {push : MemberPush} (h : FanoutInv w)
    (hs : w.sends (task, member) = some (conn, push)) :
    FanoutInv { w with
      sends := w.sends.erase (task, member)
      log := w.log ++ [.sent task push member written] } where
  view := (filterMap_concat_none rfl).trans h.view
  stand := h.stand
  justified :=
    grounded_concat.mpr ⟨h.justified, h.underway task member conn push hs⟩
  fresh task session push hmem := by
    rcases List.mem_append.mp hmem with hmem | hmem
    · exact h.fresh task session push hmem
    · cases List.mem_singleton.mp hmem
  waiting task' p ht := by
    obtain ⟨⟨session, hspawned⟩, hcollected⟩ := h.waiting task' p ht
    exact ⟨⟨session, List.mem_append_left _ hspawned⟩,
      fun p c => not_mem_concat (hcollected p c) nofun⟩
  underway task' m conn' p hs' := by
    obtain ⟨hne, hs'⟩ := (Table.erase_eq_some_iff _).mp hs'
    obtain ⟨⟨c, hcopied, hc⟩, hsent⟩ := h.underway task' m conn' p hs'
    refine ⟨⟨c, List.mem_append_left _ hcopied, hc⟩,
      fun p b => not_mem_concat (hsent p b) fun heq => ?_⟩
    cases heq
    exact hne rfl
  opening conn peer post hs :=
    counted_concat 1 rfl rfl (h.opening conn peer post hs)
  fanned post session := counted_concat 0 rfl rfl (h.fanned post session)

/-- Step lemma. -/
theorem fanoutInv_step {a : FanoutAction} (h : FanoutInv w)
    (hstep : fanoutStep crypto openPost w a = some w') : FanoutInv w' := by
  cases fanoutStep_cases hstep with
  | verse a verse es hverse hlog hspawn => exact fanoutInv_verse h hverse hlog
  | spawned a verse push hverse hlog hspawn =>
      exact fanoutInv_spawned h hverse hlog hspawn
  | collected task io push ht => exact fanoutInv_collected h ht
  | sent task member written conn push hs => exact fanoutInv_sent h hs

end steps

/-- A verse that was just hosted. -/
theorem fanoutInv_init (contract : ContractObject) :
    FanoutInv (.init (.new contract)) where
  view := rfl
  stand _ hside := absurd rfl hside
  justified := grounded_nil _
  fresh := nofun
  waiting := nofun
  underway := nofun
  opening := nofun
  fanned _ _ := Nat.le_refl _

/-- Run lemma. -/
theorem fanoutInv_of_reachable {contract : ContractObject} {w : FanoutWorld}
    (h : Reachable (fanoutStep crypto openPost) (.init (.new contract)) w) :
    FanoutInv w :=
  h.induct (fanoutInv_init contract) fun _ _ _ h hstep =>
    fanoutInv_step h hstep

-- ================================================================ a run

/-- The steps of a join on a connection, up to its answer. -/
def joinOn (conn : ConnId) (side : Address) : List VerseAction :=
  [.openSession side, .tick conn (some 1), .tick conn (some 1),
    .receive conn (toVerse side (.joinRequest
      ⟨Bytes.fill _ 0, side, BTreeMap.empty⟩)), .tick conn (some 1),
    .tick conn (some 1), .tick conn (some 1), .tick conn (some 1),
    .tick conn (some 1)]

/-- Two sides join, and the first posts. -/
def postToMembers : List VerseAction :=
  joinOn 0 (Bytes.fill _ 2) ++ joinOn 1 (Bytes.fill _ 3) ++ postStep
    ++ [.tick 0 (some 2), .tick 0 (some 2)]

/-- The verse that was just hosted, with nothing to send. -/
def quietVerse : FanoutWorld := .init (.new (titled "open" 1))

/-- Whatever is opened opens. -/
def openAny (_ : VerseContentKey) (_ : VersePostPayload) :
    Option (List UInt8) := some []

/-- They join, the post is opened, and the connection of the second is
copied. -/
def copyPost : List FanoutAction :=
  postToMembers.map FanoutAction.verse ++ [.collect 0 none]

/-- The second side leaves. -/
def secondLeaves : List FanoutAction :=
  [.verse (.receive 1 (toVerse (Bytes.fill _ 3)
      (.verseLeave ⟨Bytes.fill _ 1, Bytes.fill _ 3, .retain⟩))),
    .verse (.tick 1 (some 2))]

/-- Its send runs. -/
def sendToSecond : List FanoutAction := [.send 0 (Bytes.fill _ 3) true]

-- ======================================================= who gets a post

/-- The sends of a post to a member are by different tasks, each of which was
set going with the post. -/
theorem length_sendOf_le {log : List FanoutEvent} (h : Grounded Follows log)
    (post : Envelope VersePostPayload) (member : Address) :
    (log.filterMap (sendOf post member)).length
      ≤ (log.filterMap (taskOf post)).length := by
  have hnodup : (log.filterMap (sendOf post member)).Nodup := by
    apply h.nodup_filterMap
    intro before e task hfollows htask hmem
    cases e with
    | sent t push m written =>
        obtain ⟨e', he', htask'⟩ := List.mem_filterMap.mp hmem
        cases push with
        | amend contract => cases htask
        | post p =>
            simp only [sendOf, Option.ite_none_right_eq_some] at htask
            obtain ⟨⟨-, rfl⟩, rfl⟩ : (p = post ∧ m = member) ∧ t = task := by
              simpa using htask
            cases e' with
            | sent t' push' m' written' =>
                cases push' with
                | amend contract => cases htask'
                | post p' =>
                    obtain ⟨⟨-, rfl⟩, rfl⟩ :
                        (p' = post ∧ m' = m) ∧ t' = t := by
                      simpa [sendOf] using htask'
                    exact hfollows.2 _ _ he'
            | _ => cases htask'
    | _ => cases htask
  refine (List.subperm_of_subset hnodup fun task hmem => ?_).length_le
  obtain ⟨e, he, htask⟩ := List.mem_filterMap.mp hmem
  cases e with
  | sent t push m written =>
      cases push with
      | amend contract => cases htask
      | post p =>
          obtain ⟨⟨rfl, -⟩, rfl⟩ : (p = post ∧ m = member) ∧ t = task := by
            simpa [sendOf] using htask
          obtain ⟨connections, hcopied, -⟩ := collected_of_sent h he
          obtain ⟨session, hspawned⟩ := spawned_of_collected h hcopied
          exact List.mem_filterMap.mpr
            ⟨.spawned t session (.post p), hspawned, by simp [taskOf]⟩
  | _ => cases htask

/-- Each task set going with the post is a fan-out of it. -/
theorem length_taskOf (log : List FanoutEvent)
    (post : Envelope VersePostPayload) :
    (log.filterMap (taskOf post)).length
      = (log.filterMap (fannedOutBy post)).length := by
  rw [List.length_filterMap_eq_countP, List.length_filterMap_eq_countP]
  congr 1
  funext e
  cases e with
  | spawned task session push =>
      cases push with
      | post p =>
          simp only [taskOf, fannedOutBy]
          split <;> rfl
      | amend contract => rfl
  | _ => rfl

/-- In every run, whoever is sent a post is not its author, and was a member
when the connections were copied; and the post had been admitted before. It
is sent to one side at most as often as it was admitted. -/
theorem post_reaches_members (crypto : Crypto)
    (openPost : VerseContentKey → VersePostPayload → Option (List UInt8))
    (contract : ContractObject) (w : FanoutWorld)
    (h : Reachable (fanoutStep crypto openPost) (.init (.new contract)) w)
    (post : Envelope VersePostPayload) (member : Address) :
    (∀ before task written after,
        w.log = before ++ .sent task (.post post) member written :: after →
        member ≠ post.fromSide
          ∧ (∃ session contractHash,
              .verse session (.admitted post contractHash) ∈ before)
          ∧ ∃ earlier connections later,
              before = earlier
                ++ .collected task (.post post) connections :: later
              ∧ connections member ≠ none ∧ Joined member earlier)
      ∧ (w.log.filterMap (sendOf post member)).length
          ≤ (w.log.filterMap (admittedBy post)).length := by
  have hinv := fanoutInv_of_reachable h
  refine ⟨fun before task written after heq => ?_, ?_⟩
  · obtain ⟨⟨connections, hcopied, hmember⟩, -⟩ :=
      hinv.justified _ _ _ heq
    have hbefore : Grounded Follows before :=
      (heq ▸ hinv.justified).of_append
    obtain ⟨session, hspawned⟩ := spawned_of_collected hbefore hcopied
    obtain ⟨contractHash, hadmitted⟩ := admitted_of_spawned hbefore hspawned
    obtain ⟨earlier, later, hsplit, -, -, hmembers⟩ := hbefore.of_mem hcopied
    obtain ⟨hauthor, hjoined⟩ := hmembers member hmember
    exact ⟨fun hself => hauthor (congrArg some hself.symm),
      ⟨session, contractHash, hadmitted⟩,
      ⟨earlier, connections, later, hsplit, hmember, hjoined⟩⟩
  · apply (length_sendOf_le hinv.justified post member).trans
    rw [length_taskOf]
    exact (List.subperm_ext_iff.mpr fun session _ =>
      hinv.fanned post session).length_le

/-- The post of the first side goes to the second, once. -/
theorem post_reaches_members_posted :
    ∃ w, run (fanoutStep Crypto.refusing openAny) quietVerse
        (copyPost ++ sendToSecond) = some w
      ∧ (w.log.filterMap (sendOf memberPost (Bytes.fill _ 3))).length = 1
      ∧ (w.log.filterMap (sendOf memberPost (Bytes.fill _ 3))).length
        ≤ (w.log.filterMap (admittedBy memberPost)).length :=
  ⟨_, rfl, rfl, (post_reaches_members Crypto.refusing openAny
    (titled "open" 1) _ ⟨copyPost ++ sendToSecond, rfl⟩ memberPost
    (Bytes.fill _ 3)).2⟩

-- =========================================================== after removal

theorem verse_reachable_step {verse₀ : VerseWorld} {w w' : FanoutWorld}
    {a : FanoutAction}
    (h : Reachable (verseStep crypto openPost) verse₀ w.verse)
    (hstep : fanoutStep crypto openPost w a = some w') :
    Reachable (verseStep crypto openPost) verse₀ w'.verse := by
  have hnext : ∀ a verse, verseStep crypto openPost w.verse a = some verse →
      Reachable (verseStep crypto openPost) verse₀ verse := by
    intro a verse hverse
    obtain ⟨acts, hrun⟩ := h
    exact ⟨acts ++ [a], by rw [run_concat, hrun]; exact hverse⟩
  cases fanoutStep_cases hstep with
  | verse a verse es hverse => exact hnext a verse hverse
  | spawned a verse push hverse => exact hnext a verse hverse
  | collected => exact h
  | sent => exact h

/-- The verse of a fan-out runs like a verse. -/
theorem verse_reachable {host : VerseHost} {w : FanoutWorld}
    (h : Reachable (fanoutStep crypto openPost) (.init host) w) :
    Reachable (verseStep crypto openPost) (.init host) w.verse :=
  h.induct ⟨[], rfl⟩ fun _ _ _ hs hstep => verse_reachable_step hs hstep

/-- The side is not added again by this step. -/
def StaysAway (side : Address) (w : FanoutWorld) : FanoutAction → Prop
  | .verse a => NoReturn side w.verse a
  | _ => True

/-- What is sent to the side, or about to be, was copied for it before. -/
structure OnlyLeftovers (side : Address) (bound : VerseContentKey)
    (log : List FanoutEvent) (w : FanoutWorld) : Prop where
  departed : Departed side bound w.verse
  underway : ∀ task conn push, w.sends (task, side) = some (conn, push) →
    ∃ connections, .collected task push connections ∈ log
  sent : ∀ task push written, .sent task push side written ∈ w.log →
    ∃ connections, .collected task push connections ∈ log

theorem onlyLeftovers_step {side : Address} {bound : VerseContentKey}
    {log : List FanoutEvent} {w w' : FanoutWorld} {a : FanoutAction}
    (hok : StaysAway side w a) (h : OnlyLeftovers side bound log w)
    (hstep : fanoutStep crypto openPost w a = some w') :
    OnlyLeftovers side bound log w' := by
  cases fanoutStep_cases hstep with
  | verse a verse es hverse hlog hspawn =>
      refine ⟨departed_step hok h.departed hverse, h.underway,
        fun task push written hmem => ?_⟩
      rcases mem_append_verse hmem with hmem | ⟨e, heq⟩
      · exact h.sent task push written hmem
      · cases heq
  | spawned a verse push hverse hlog hspawn =>
      refine ⟨departed_step hok h.departed hverse, h.underway,
        fun task p written hmem => ?_⟩
      rcases List.mem_append.mp hmem with hmem | hmem
      · exact h.sent task p written hmem
      · cases List.mem_singleton.mp hmem
  | collected task io push ht =>
      refine ⟨h.departed, fun t conn p hs => ?_, fun t p written hmem => ?_⟩
      · simp only at hs
        by_cases htask : t = task
        · rw [if_pos htask] at hs
          obtain ⟨c, hc, -⟩ := Option.map_eq_some_iff.mp hs
          have hmember := (mem_of_recipients
            (hc ▸ Option.some_ne_none c :
              w.verse.host.recipients io push side ≠ none)).2
          exact absurd h.departed.gone hmember
        · rw [if_neg htask] at hs
          exact h.underway t conn p hs
      · rcases List.mem_append.mp hmem with hmem | hmem
        · exact h.sent t p written hmem
        · cases List.mem_singleton.mp hmem
  | sent task member written conn push hs =>
      refine ⟨h.departed, fun t c p hs' => ?_, fun t p b hmem => ?_⟩
      · exact h.underway t c p ((Table.erase_eq_some_iff _).mp hs').2
      · rcases List.mem_append.mp hmem with hmem | hmem
        · exact h.sent t p b hmem
        · cases List.mem_singleton.mp hmem
          exact h.underway task conn push hs

/-- Once a side is no member and no join of it is under way, it is sent what
was copied for it by then and nothing else, until it is added again. -/
theorem nothing_sent_after_removal (crypto : Crypto)
    (openPost : VerseContentKey → VersePostPayload → Option (List UInt8))
    (contract : ContractObject) (w₀ w₁ : FanoutWorld)
    (acts : List FanoutAction) (side : Address)
    (hreach : Reachable (fanoutStep crypto openPost) (.init (.new contract))
      w₀)
    (hgone : w₀.verse.host.members side = none)
    (hjoins : ∀ conn peer pc j, w₀.verse.sessions conn = some ⟨peer, pc⟩ →
      joinOf pc = some j → j.2.1.side ≠ side)
    (hok : Along (fanoutStep crypto openPost) (StaysAway side) w₀ acts)
    (hrun : run (fanoutStep crypto openPost) w₀ acts = some w₁)
    (task : Nat) (push : MemberPush) (written : Bool)
    (hsent : .sent task push side written ∈ w₁.log) :
    ∃ connections, .collected task push connections ∈ w₀.log := by
  have hinv := fanoutInv_of_reachable hreach
  have hkeys := keysGenerated_of_reachable (verse_reachable hreach)
  have hinit : OnlyLeftovers side w₀.verse.host.contentKey w₀.log w₀ := by
    refine ⟨⟨hgone, hjoins, fun share hmade _ => hkeys share hmade⟩,
      fun task conn push hs => ?_, fun task push written hmem => ?_⟩
    · obtain ⟨⟨c, hcopied, -⟩, -⟩ := hinv.underway task side conn push hs
      exact ⟨c, hcopied⟩
    · obtain ⟨c, hcopied, -⟩ := collected_of_sent hinv.justified hmem
      exact ⟨c, hcopied⟩
  exact (run_induct (fun _ _ _ hok h hstep => onlyLeftovers_step hok h hstep)
    hok hinit hrun).sent task push written hsent

/-- The second side leaves with its connection copied, and is sent the
post. -/
theorem nothing_sent_after_leave :
    ∃ w₀ w₁, run (fanoutStep Crypto.refusing openAny) quietVerse
        (copyPost ++ secondLeaves) = some w₀
      ∧ run (fanoutStep Crypto.refusing openAny) w₀ sendToSecond = some w₁
      ∧ w₀.verse.host.members (Bytes.fill _ 3) = none
      ∧ .sent 0 (.post memberPost) (Bytes.fill _ 3) true ∈ w₁.log
      ∧ ∃ connections,
        .collected 0 (.post memberPost) connections ∈ w₀.log := by
  have hids : ∀ w, run (fanoutStep Crypto.refusing openAny) quietVerse
      (copyPost ++ secondLeaves) = some w → FreshIds w.verse :=
    fun w h => freshIds_of_reachable (verse_reachable ⟨_, h⟩)
  refine ⟨_, _, rfl, rfl, rfl, List.mem_append_right _ List.mem_cons_self,
    nothing_sent_after_removal Crypto.refusing openAny (titled "open" 1) _ _
      sendToSecond (Bytes.fill _ 3) ⟨copyPost ++ secondLeaves, rfl⟩ rfl
      (fun conn peer pc j hs hj => ?_) (.cons rfl trivial trivial) rfl 0 _ true
      (List.mem_append_right _ List.mem_cons_self)⟩
  have hlt : conn < 2 := (hids _ rfl).sessions conn _ hs
  interval_cases conn
  · cases hs
    cases hj
  · cases hs
    cases hj

-- ============================================================ completeness

/-- Whether the send of the task to the member went out, if the event is
that. -/
def resultOf (task : Nat) (member : Address) : FanoutEvent → Option Bool
  | .sent t _ m written => if t = task ∧ m = member then some written else none
  | _ => none

/-- How many sends of the task to the member have run or are to run. -/
def accountOf (w : FanoutWorld) (task : Nat) (member : Address) : Nat :=
  (w.log.filterMap (resultOf task member)).length
    + (w.sends (task, member)).toList.length

/-- Who a push is for: the active members, without its author. The envelopes
of an amendment must also have been signed. -/
def Addressed (h : VerseHost) (io : Option UInt64) (push : MemberPush)
    (member : Address) : Prop :=
  push.author ≠ some member ∧ (push.author = none → io ≠ none)
    ∧ h.members member ≠ none ∧ h.activeSessions member ≠ none

theorem activeMembers_ne_none_iff {h : VerseHost} {side : Address} :
    h.activeMembers side ≠ none
      ↔ h.members side ≠ none ∧ h.activeSessions side ≠ none := by
  unfold VerseHost.activeMembers
  cases h.members side <;> simp

theorem recipients_ne_none_iff {h : VerseHost} {io : Option UInt64}
    {push : MemberPush} {side : Address} :
    h.recipients io push side ≠ none ↔ Addressed h io push side := by
  cases push with
  | post post =>
      by_cases hside : side = post.fromSide
      · simp [VerseHost.recipients, Addressed, MemberPush.author, hside]
      · simp only [VerseHost.recipients, if_neg hside,
          activeMembers_ne_none_iff, Addressed, MemberPush.author]
        simp [Ne.symm hside]
  | amend contract =>
      cases io with
      | none => simp [VerseHost.recipients, Addressed, MemberPush.author]
      | some now =>
          simp only [VerseHost.recipients, Addressed, MemberPush.author,
            Option.isNone_some, Bool.false_eq_true, if_false,
            activeMembers_ne_none_iff]
          simp

/-- A task that has copied its connections does not do it again, and its
sends are accounted for. -/
theorem accountOf_step {w w' : FanoutWorld} {a : FanoutAction} {task : Nat}
    (hold : task < w.nextTask) (hdone : w.tasks task = none)
    (hstep : fanoutStep crypto openPost w a = some w') (member : Address) :
    task < w'.nextTask ∧ w'.tasks task = none
      ∧ accountOf w' task member = accountOf w task member := by
  cases fanoutStep_cases hstep with
  | verse a verse es hverse hlog hspawn =>
      refine ⟨hold, hdone, ?_⟩
      have hnone : (es.map fun e => FanoutEvent.verse a.session e).filterMap
          (resultOf task member) = [] := by
        rw [List.filterMap_map]
        exact List.filterMap_eq_nil_iff.mpr fun _ _ => rfl
      simp only [accountOf, List.filterMap_append, hnone, List.append_nil]
  | spawned a verse push hverse hlog hspawn =>
      refine ⟨Nat.lt_succ_of_lt hold, ?_, ?_⟩
      · show w.tasks.insert w.nextTask push task = none
        rw [Table.insert_of_ne _ _ (by omega), hdone]
      · unfold accountOf
        rw [filterMap_concat_none rfl]
  | collected t io push ht =>
      have hne : task ≠ t := by
        intro heq
        rw [← heq, hdone] at ht
        cases ht
      refine ⟨hold, ?_, ?_⟩
      · show w.tasks.erase t task = none
        rw [Table.erase_of_ne _ hne, hdone]
      · unfold accountOf
        dsimp only
        rw [filterMap_concat_none rfl, if_neg hne]
  | sent t m written conn push hs =>
      refine ⟨hold, hdone, ?_⟩
      unfold accountOf
      dsimp only
      by_cases hsame : t = task ∧ m = member
      · obtain ⟨rfl, rfl⟩ := hsame
        simp [resultOf, hs]
      · rw [filterMap_concat_none (by simp [resultOf, hsame]),
          Table.erase_of_ne _ fun heq => hsame ⟨?_, ?_⟩]
        · exact (congrArg Prod.fst heq).symm
        · exact (congrArg Prod.snd heq).symm

/-- A task that copied its connections has so many sends for a member. -/
structure Counted (task : Nat) (member : Address) (n : Nat)
    (w : FanoutWorld) : Prop where
  known : task < w.nextTask
  taken : w.tasks task = none
  count : accountOf w task member = n

theorem counted_step {task : Nat} {member : Address} {n : Nat}
    {w w' : FanoutWorld} {a : FanoutAction} (h : Counted task member n w)
    (hstep : fanoutStep crypto openPost w a = some w') :
    Counted task member n w' := by
  obtain ⟨hknown, htaken, hcount⟩ :=
    accountOf_step h.known h.taken hstep member
  exact ⟨hknown, htaken, hcount.trans h.count⟩

/-- Whatever runs after a task copied its connections, exactly one send for
each side the push was for has run or is to run, and none for any other. -/
theorem push_accounted (crypto : Crypto)
    (openPost : VerseContentKey → VersePostPayload → Option (List UInt8))
    (contract : ContractObject) (w₀ w₁ w₂ : FanoutWorld) (task : Nat)
    (io : Option UInt64) (push : MemberPush) (acts : List FanoutAction)
    (hreach : Reachable (fanoutStep crypto openPost) (.init (.new contract))
      w₀)
    (hpush : w₀.tasks task = some push)
    (hstep : fanoutStep crypto openPost w₀ (.collect task io) = some w₁)
    (hrun : run (fanoutStep crypto openPost) w₁ acts = some w₂)
    (member : Address) :
    (Addressed w₀.verse.host io push member →
        accountOf w₂ task member = 1)
      ∧ (¬ Addressed w₀.verse.host io push member →
        accountOf w₂ task member = 0) := by
  have hinv := fanoutInv_of_reachable hreach
  obtain ⟨⟨session, hspawned⟩, hcollected⟩ := hinv.waiting task push hpush
  have hnot := hinv.not_sent hcollected
  have hresults : w₀.log.filterMap (resultOf task member) = [] := by
    rw [List.filterMap_eq_nil_iff]
    intro e he
    cases e with
    | sent t p m written =>
        by_cases hsame : t = task ∧ m = member
        · obtain ⟨rfl, rfl⟩ := hsame
          exact absurd he (hnot p m written)
        · simp [resultOf, hsame]
    | _ => rfl
  cases fanoutStep_cases hstep with
  | collected _ _ p ht =>
      obtain rfl := Option.some.inj (hpush.symm.trans ht)
      have hfirst : accountOf { w₀ with
            tasks := w₀.tasks.erase task
            sends := fun id =>
              if id.1 = task then
                (w₀.verse.host.recipients io push id.2).map fun c => (c, push)
              else w₀.sends id
            log := w₀.log
              ++ [.collected task push (w₀.verse.host.recipients io push)] }
            task member
          = (w₀.verse.host.recipients io push member).toList.length := by
        unfold accountOf
        dsimp only
        rw [filterMap_concat_none rfl, hresults, if_pos rfl]
        cases w₀.verse.host.recipients io push member <;> rfl
      have hlast : Counted task member
          (w₀.verse.host.recipients io push member).toList.length w₂ := by
        refine run_induct (fun _ _ _ _ h hs => counted_step h hs)
          (along_true _ acts) ?_ hrun
        exact ⟨hinv.fresh task session push hspawned, Table.erase_self ..,
          hfirst⟩
      rw [hlast.count, ← recipients_ne_none_iff]
      cases w₀.verse.host.recipients io push member <;> simp

/-- The second side is sent the post, and the author is not. -/
theorem push_accounted_posted :
    ∃ w₀ w₁ w₂, run (fanoutStep Crypto.refusing openAny) quietVerse
        (postToMembers.map FanoutAction.verse) = some w₀
      ∧ fanoutStep Crypto.refusing openAny w₀ (.collect 0 none) = some w₁
      ∧ run (fanoutStep Crypto.refusing openAny) w₁ sendToSecond = some w₂
      ∧ accountOf w₂ 0 (Bytes.fill _ 3) = 1
      ∧ accountOf w₂ 0 (Bytes.fill _ 2) = 0 := by
  have haccount := fun w₁ w₂ hstep hrun member =>
    push_accounted Crypto.refusing openAny (titled "open" 1) _ w₁ w₂ 0 none
      (.post memberPost) sendToSecond
      ⟨postToMembers.map FanoutAction.verse, rfl⟩ rfl hstep hrun member
  refine ⟨_, _, _, rfl, rfl, rfl, (haccount _ _ rfl rfl _).1 ?_,
    (haccount _ _ rfl rfl _).2 fun h => h.1 rfl⟩
  exact ⟨by decide, nofun, by decide, by decide⟩

end Sidevers.Proofs
