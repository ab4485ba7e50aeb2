/-
Membership by the member's own act.

# The rule

A member's last addition is `Own`: it was added locally, or by a join
request that the member's own envelope carried and that arrived after the
member's latest leave or removal.

# Where the code breaks it

`JOIN_REQUEST` does not compare the request's side with the envelope's
sender, which `VERSE_LEAVE` and `VERSE_RECONSENT` do, and it inserts the
member several locks after the request arrived. A copied request re-adds
its side (`copied_join_readmits`), and so does a join that a leave of the
same side overtakes.

The invariant is carried by the joins in progress (`OwnJoins`): under the
condition, every join that is being handled names its sender.
-/
import Sidevers.Proofs.VerseSteps
import Sidevers.Lib.Run

namespace Sidevers.Proofs

open Sidevers.Core
open Sidevers.Lib
open Sidevers.Net

variable {crypto : Crypto}
  {openPost : VerseContentKey → VersePostPayload → Option (List UInt8)}

-- ========================================================= last added

/-- The addition is the side's own act, after the events `before`. -/
def Own (side : Address) (before : List VerseEvent) : Addition → Prop
  | .direct => True
  | .join fromSide arrived =>
      fromSide = side ∧ .removed side ∉ before.drop arrived

/-- The last thing that moved the side is an addition of its own. -/
def LastAddedOwn (side : Address) (log : List VerseEvent) : Prop :=
  ∃ before contractHash how after,
    log = before ++ .added side contractHash how :: after
      ∧ (∀ e ∈ after, ¬ Moves side e) ∧ Own side before how

/-- Events that move the side neither way keep its last addition. -/
theorem LastAddedOwn.append {side : Address} {log es : List VerseEvent}
    (h : LastAddedOwn side log) (hes : ∀ e ∈ es, ¬ Moves side e) :
    LastAddedOwn side (log ++ es) := by
  obtain ⟨before, contractHash, how, after, rfl, hafter, hown⟩ := h
  refine ⟨before, contractHash, how, after ++ es, ?_, fun e he => ?_, hown⟩
  · rw [List.append_assoc, List.cons_append]
  · rcases List.mem_append.mp he with he | he
    · exact hafter e he
    · exact hes e he

/-- An own addition is the last one right after it. -/
theorem lastAddedOwn_added {side : Address} {contractHash : Bytes 32}
    {how : Addition} {log after : List VerseEvent}
    (hown : Own side log how) (hafter : ∀ e ∈ after, ¬ Moves side e) :
    LastAddedOwn side (log ++ .added side contractHash how :: after) :=
  ⟨log, contractHash, how, after, rfl, hafter, hown⟩

/-- Two splits of a log at the last thing that moved a side are one. -/
theorem last_move_unique {side : Address} {b₁ b₂ a₁ a₂ : List VerseEvent}
    {e₁ e₂ : VerseEvent} (heq : b₁ ++ e₁ :: a₁ = b₂ ++ e₂ :: a₂)
    (he₁ : Moves side e₁) (ha₁ : ∀ e ∈ a₁, ¬ Moves side e)
    (he₂ : Moves side e₂) (ha₂ : ∀ e ∈ a₂, ¬ Moves side e) :
    b₁ = b₂ ∧ e₁ = e₂ := by
  rcases List.append_eq_append_iff.mp heq with
    ⟨as, hb, hrest⟩ | ⟨bs, hb, hrest⟩
  · cases as with
    | nil =>
        rw [List.append_nil] at hb
        rw [List.nil_append] at hrest
        injection hrest with hhead
        exact ⟨hb.symm, hhead⟩
    | cons e as =>
        -- then `e₂` comes after `e₁`
        injection hrest with _ htail
        refine absurd he₂ (ha₁ e₂ ?_)
        rw [htail]
        exact List.mem_append_right _ List.mem_cons_self
  · cases bs with
    | nil =>
        rw [List.append_nil] at hb
        rw [List.nil_append] at hrest
        injection hrest with hhead
        exact ⟨hb, hhead.symm⟩
    | cons e bs =>
        injection hrest with _ htail
        refine absurd he₁ (ha₂ e₁ ?_)
        rw [htail]
        exact List.mem_append_right _ List.mem_cons_self

/-- Whether the last addition is the side's own is decided by that
addition. -/
theorem lastAddedOwn_iff {side : Address} {contractHash : Bytes 32}
    {how : Addition} {log after : List VerseEvent}
    (hafter : ∀ e ∈ after, ¬ Moves side e) :
    LastAddedOwn side (log ++ .added side contractHash how :: after)
      ↔ Own side log how := by
  constructor
  · intro h
    obtain ⟨before, contractHash', how', after', heq, hafter', hown⟩ := h
    obtain ⟨hb, he⟩ := last_move_unique heq rfl hafter rfl hafter'
    injection he with _ _ hhow
    rw [hb, hhow]
    exact hown
  · exact fun hown => lastAddedOwn_added hown hafter

-- ==================================================== joins in progress

/-- The join a session is handling, up to the insertion. -/
def joinOf : ServePc → Option (Address × JoinRequestPayload × Nat)
  | .joinCheck fromSide req arrived => some (fromSide, req, arrived)
  | .joinSeal fromSide req arrived _ => some (fromSide, req, arrived)
  | .joinInsert fromSide req arrived _ _ => some (fromSide, req, arrived)
  | _ => none

/-- A step of a session continues the join it is handling, or ends it. -/
theorem serveTick_joinOf {h : VerseHost} {peer : Address} {conn : ConnId}
    {io : Option UInt64} {pc next : ServePc} {t : Tick ServePc}
    {j : Address × JoinRequestPayload × Nat}
    (ht : serveTick crypto openPost h peer conn io pc = some t)
    (hnext : t.next = some next) (hj : joinOf next = some j) :
    joinOf pc = some j := by
  cases pc with
  | joinCheck fromSide req arrived =>
      simp only [serveTick] at ht
      split at ht <;> (cases ht; cases hnext)
      · cases hj
      · exact hj
  | joinSeal fromSide req arrived contract =>
      cases io <;> cases ht
      · cases hnext
      · cases hnext
        exact hj
  | leave leave =>
      cases ht
      cases hnext
      split at hj
      · cases hj
      · split at hj <;> cases hj
  | remove remove =>
      cases ht
      cases hnext
      split at hj <;> cases hj
  | rotating pc =>
      cases ht
      cases hnext
      revert hj
      cases (rotateTick crypto h io pc).next <;> (intro hj; cases hj)
  | accept => cases ht
  | _ =>
      -- no other step starts a join
      simp only [serveTick] at ht
      (repeat' split at ht) <;> cases ht <;> cases hnext <;> cases hj

/-- A dispatched message starts a join only if it is a join request, and
then a join of the envelope's sender. -/
theorem serveReceive_joinOf {h : VerseHost} {arrived : Nat}
    {env : Envelope VerseMessage}
    {j : Address × JoinRequestPayload × Nat}
    (hj : joinOf (serveReceive h arrived env) = some j) :
    ∃ req, env.payload = .joinRequest req
      ∧ j = (env.fromSide, req, arrived) := by
  unfold serveReceive at hj
  split at hj
  case h_2 req hreq =>
    cases hj
    exact ⟨req, hreq, rfl⟩
  all_goals (repeat' split at hj) <;> cases hj

-- ========================================================== invariant

/-- The condition on a step: a join request that is dispatched names its
envelope's sender, and no leave or removal of a side was handled between the
arrival of its join request and its insertion. -/
def JoinOk (w : VerseWorld) : VerseAction → Prop
  | .receive _ env =>
      match env.payload with
      | .joinRequest req => req.side = env.fromSide
      | _ => True
  | .tick conn _ =>
      match w.sessions conn with
      | some ⟨_, .joinInsert _ req arrived _ _⟩ =>
          .removed req.side ∉ w.log.drop arrived
      | _ => True
  | _ => True

/-- Members were last added by themselves, and the joins in progress are
their senders' own. -/
structure OwnMembership (w : VerseWorld) : Prop where
  members : ∀ side, w.host.members side ≠ none → LastAddedOwn side w.log
  joins : ∀ conn peer pc fromSide req arrived,
    w.sessions conn = some ⟨peer, pc⟩ →
    joinOf pc = some (fromSide, req, arrived) → req.side = fromSide

/-- The joins in progress stay their senders' own. -/
theorem ownJoins_step {w w' : VerseWorld} {a : VerseAction}
    (hok : JoinOk w a) (h : OwnMembership w)
    (hstep : verseStep crypto openPost w a = some w') :
    ∀ conn peer pc fromSide req arrived,
      w'.sessions conn = some ⟨peer, pc⟩ →
      joinOf pc = some (fromSide, req, arrived) → req.side = fromSide := by
  intro conn peer pc fromSide req arrived hs' hj
  cases sessions_step hstep hs' with
  | same pc hs => exact h.joins conn peer pc fromSide req arrived hs hj
  | opened => cases hj
  | received env ha hs =>
      obtain ⟨req', hreq, heq⟩ := serveReceive_joinOf hj
      cases heq
      subst ha
      simp only [JoinOk, hreq] at hok
      exact hok
  | ticked io pc₀ t next ha hs ht hnext =>
      exact h.joins conn peer pc₀ fromSide req arrived hs
        (serveTick_joinOf ht hnext hj)

/-- Step lemma. -/
theorem ownMembership_step {w w' : VerseWorld} {a : VerseAction}
    (hok : JoinOk w a) (h : OwnMembership w)
    (hstep : verseStep crypto openPost w a = some w') :
    OwnMembership w' := by
  refine ⟨fun side hside => ?_, ownJoins_step hok h hstep⟩
  obtain ⟨es, hlog, hmembers⟩ := members_step hstep
  rw [hlog]
  cases hmembers with
  | same hsame hes =>
      rw [hsame] at hside
      exact (h.members side hside).append fun e he => hes e he side
  | joined conn io peer fromSide req arrived contract share ha hs hins hes =>
      rw [hins, Table.insert_ne_none_iff] at hside
      subst hes
      by_cases heq : side = req.side
      · subst heq
        refine lastAddedOwn_added ⟨?_, ?_⟩ nofun
        · exact (h.joins conn peer _ fromSide req arrived hs rfl).symm
        · subst ha
          simp only [JoinOk, hs] at hok
          exact hok
      · refine (h.members side (hside.resolve_left heq)).append
          fun e he => ?_
        obtain rfl := List.mem_singleton.mp he
        exact fun hmoves => heq hmoves.symm
  | direct s token key hins hes htoken hkey =>
      rw [hins, Table.insert_ne_none_iff] at hside
      subst hes
      by_cases heq : side = s
      · subst heq
        refine lastAddedOwn_added trivial fun e he => ?_
        obtain rfl := List.mem_singleton.mp he
        exact id
      · refine (h.members side (hside.resolve_left heq)).append
          fun e he => ?_
        rcases List.mem_cons.mp he with rfl | he
        · exact fun hmoves => heq hmoves.symm
        · obtain rfl := List.mem_singleton.mp he
          exact id
  | removed s herase hes =>
      rw [herase, Table.erase_ne_none_iff] at hside
      subst hes
      refine (h.members side hside.2).append fun e he => ?_
      obtain rfl := List.mem_singleton.mp he
      exact fun hmoves => hside.1 hmoves.symm

/-- In every run of a freshly hosted verse whose steps all meet the
condition, every member was last added by its own act. -/
theorem members_last_added_own (crypto : Crypto)
    (openPost : VerseContentKey → VersePostPayload → Option (List UInt8))
    (contract : ContractObject) (acts : List VerseAction) (w : VerseWorld)
    (hok : Along (verseStep crypto openPost) JoinOk
      (.init (.new contract)) acts)
    (hrun : run (verseStep crypto openPost) (.init (.new contract)) acts
      = some w) :
    ∀ side, w.host.members side ≠ none → LastAddedOwn side w.log := by
  have hinit : OwnMembership (.init (.new contract)) :=
    ⟨fun _ h => absurd rfl h, fun _ _ _ _ _ _ h => nomatch h⟩
  exact (run_induct (fun _ _ _ hok h hstep =>
    ownMembership_step hok h hstep) hok hinit hrun).members

-- ============================================================== a run

/-- The side leaves, and another peer sends a copy of its join request. -/
def copiedJoin : List VerseAction :=
  [.receive 0 (toVerse (Bytes.fill _ 2)
      (.verseLeave ⟨Bytes.fill _ 1, Bytes.fill _ 2, .retain⟩)),
    .tick 0 (some 1), .tick 0 (some 1), .tick 0 (some 1),
    .openSession (Bytes.fill _ 3), .tick 2 (some 1), .tick 2 (some 1),
    .receive 2 (toVerse (Bytes.fill _ 3) signedJoin), .tick 2 (some 1),
    .tick 2 (some 1), .tick 2 (some 1)]

/-- A side joins for itself. -/
theorem members_last_added_own_joins :
    ∃ w, run (verseStep Crypto.refusing fun _ _ => none) openVerse joinLive
        = some w
      ∧ w.host.members (Bytes.fill _ 2) ≠ none
      ∧ ∀ side, w.host.members side ≠ none → LastAddedOwn side w.log := by
  refine ⟨_, rfl, by decide, members_last_added_own Crypto.refusing
    (fun _ _ => none) (titled "open" 1) joinLive _ ?_ rfl⟩
  refine .cons rfl trivial (.cons rfl trivial (.cons rfl trivial
    (.cons rfl rfl (.cons rfl trivial (.cons rfl trivial
      (.cons rfl ?_ (.cons rfl trivial (.cons rfl trivial trivial))))))))
  show .removed (Bytes.fill _ 2) ∉ [VerseEvent.checked _ _, .joinSealed _]
  simp

/-- The copy makes the side a member again, after its leave. -/
theorem copied_join_readmits :
    ∃ w, run (verseStep Crypto.refusing fun _ _ => none) openVerse
        (joinLive ++ copiedJoin) = some w
      ∧ w.host.members (Bytes.fill _ 2) ≠ none
      ∧ ¬ LastAddedOwn (Bytes.fill _ 2) w.log := by
  refine ⟨_, rfl, by decide, fun h => ?_⟩
  have hafter : ∀ e ∈ ([] : List VerseEvent), ¬ Moves (Bytes.fill _ 2) e :=
    nofun
  exact absurd ((lastAddedOwn_iff hafter).mp h).1 (by decide)

end Sidevers.Proofs
