/-
What is sealed to a side after its removal.

A share of the current key is made in two places: for a join request, and in
the pushes of a rotation, whose snapshot is one lock step that takes members
only (`made_origin`). A side that was removed is in neither place until it
is added again (`Departed`), so whatever rotations were under way, and
whatever the side's sessions, slot and pushes still hold, no later key is
sealed to it.
-/
import Sidevers.Proofs.VerseOrder

namespace Sidevers.Proofs

open Sidevers.Core
open Sidevers.Lib
open Sidevers.Net

variable {crypto : Crypto}
  {openPost : VerseContentKey → VersePostPayload → Option (List UInt8)}

-- ==================================================== the shares there are

/-- The share was sealed, pushed or sent. -/
def Carries (share : KeyShare) : VerseEvent → Prop
  | .joinSealed s => s = share
  | .pushed shares => ∃ side conn, shares side = some (conn, share)
  | .delivered _ s => s = share
  | _ => False

/-- The host sealed the share: it logged it, stashed it, or is about to send
it. -/
inductive Made (w : VerseWorld) (share : KeyShare) : Prop where
  | logged (e : VerseEvent) (he : e ∈ w.log) (hc : Carries share e)
  | stashed (side : Address)
      (h : w.host.pendingKeyPushes side = some share)
  | inFlight (side : Address) (h : InFlight w side share)

/-- A rotation seals the current key to members. -/
theorem rotateTick_carries {h : VerseHost} {io : Option UInt64}
    {pc : RotatePc} {e : VerseEvent} {share : KeyShare}
    (he : e ∈ (rotateTick crypto h io pc).events) (hc : Carries share e) :
    share.key = h.contentKey ∧ h.members share.member ≠ none := by
  cases pc with
  | rotate =>
      cases io with
      | none => cases he
      | some now =>
          obtain rfl := List.mem_singleton.mp he
          cases hc
  | snapshot =>
      cases io with
      | none => cases he
      | some now =>
          obtain rfl := List.mem_singleton.mp he
          obtain ⟨side, conn, hshare⟩ := hc
          obtain ⟨-, hmember, rfl⟩ := VerseHost.pushSnapshot_eq_some.mp hshare
          exact ⟨rfl, hmember⟩

/-- A session logs the share it holds, the one of the join it answers, or
those of a rotation it runs. -/
theorem serveTick_carries {h : VerseHost} {peer : Address} {conn : ConnId}
    {io : Option UInt64} {pc : ServePc} {t : Tick ServePc} {e : VerseEvent}
    {share : KeyShare}
    (ht : serveTick crypto openPost h peer conn io pc = some t)
    (he : e ∈ t.events) (hc : Carries share e) :
    shareOf pc = some share
      ∨ (share.key = h.contentKey
        ∧ (h.members share.member ≠ none
          ∨ ∃ j, joinOf pc = some j ∧ j.2.1.side = share.member)) := by
  cases pc with
  | redeliver share₀ =>
      cases io <;> cases ht
      · cases he
      · obtain rfl := List.mem_singleton.mp he
        exact Or.inl (congrArg some hc)
  | joinSend share₀ =>
      cases io <;> cases ht
      · cases he
      · obtain rfl := List.mem_singleton.mp he
        exact Or.inl (congrArg some hc)
  | joinSeal fromSide req arrived contract =>
      cases io <;> cases ht
      · cases he
      · obtain rfl := List.mem_singleton.mp he
        obtain rfl : VerseHost.sealKey .. = share := hc
        exact Or.inr ⟨rfl, Or.inr ⟨_, rfl, rfl⟩⟩
  | rotating pc =>
      cases ht
      obtain ⟨hkey, hmember⟩ := rotateTick_carries he hc
      exact Or.inr ⟨hkey, Or.inl hmember⟩
  | accept => cases ht
  | _ =>
      -- no other step logs a share
      simp only [serveTick] at ht
      (repeat' split at ht) <;> cases ht <;>
        first
          | (obtain rfl := List.mem_singleton.mp he
             cases hc)
          | cases he

/-- What a step logs was in flight, or was just sealed. -/
theorem carries_origin {w w' : VerseWorld} {a : VerseAction}
    {es : List VerseEvent} {e : VerseEvent} {share : KeyShare}
    (hstep : verseStep crypto openPost w a = some w')
    (hlog : w'.log = w.log ++ es) (he : e ∈ es) (hc : Carries share e) :
    (∃ side, InFlight w side share) ∨ JustSealed w share := by
  have hquiet : w'.log = w.log → False := by
    intro heq
    rw [heq, List.self_eq_append_right] at hlog
    rw [hlog] at he
    cases he
  cases verseStep_cases hstep with
  | tick conn io peer pc t hs ht =>
      rw [applySession_log] at hlog
      rw [← List.append_cancel_left hlog] at he
      rcases serveTick_carries ht he hc with
        hheld | ⟨hkey, hmember | ⟨j, hj, hside⟩⟩
      · exact Or.inl ⟨peer, .held conn pc hs hheld⟩
      · exact Or.inr ⟨hkey, Or.inl hmember⟩
      · exact Or.inr ⟨hkey, Or.inr ⟨conn, peer, pc, j, hs, hj, hside⟩⟩
  | pushSent id member conn share₀ hp =>
      rw [← List.append_cancel_left hlog] at he
      obtain rfl := List.mem_singleton.mp he
      exact Or.inl ⟨member, .pushed id _ hp hc⟩
  | addLocalMember s issuedAt =>
      rw [← List.append_cancel_left hlog] at he
      rcases List.mem_cons.mp he with rfl | he
      · cases hc
      · obtain rfl := List.mem_singleton.mp he
        cases hc
  | tickRotation call io pc hr =>
      rw [← List.append_cancel_left hlog] at he
      obtain ⟨hkey, hmember⟩ := rotateTick_carries he hc
      exact Or.inr ⟨hkey, Or.inl hmember⟩
  | _ => exact (hquiet rfl).elim

/-- Every share after a step was there before, or was just sealed. -/
theorem made_origin {w w' : VerseWorld} {a : VerseAction} {share : KeyShare}
    (hstep : verseStep crypto openPost w a = some w') (h : Made w' share) :
    Made w share ∨ JustSealed w share := by
  cases h with
  | logged e he hc =>
      obtain ⟨es, hlog, -⟩ := members_step hstep
      rw [hlog] at he
      rcases List.mem_append.mp he with hold | hnew
      · exact Or.inl (.logged e hold hc)
      · rcases carries_origin hstep hlog hnew hc with ⟨side, hf⟩ | hsealed
        · exact Or.inl (.inFlight side hf)
        · exact Or.inr hsealed
  | stashed side hslot =>
      rcases slot_origin hstep hslot with hold | ⟨-, hf⟩
      · exact Or.inl (.stashed side hold)
      · exact Or.inl (.inFlight side hf.inFlight)
  | inFlight side hf =>
      rcases inFlight_origin hstep hf with hold | hslot | hsealed
      · exact Or.inl (.inFlight side hold)
      · exact Or.inl (.stashed side hslot)
      · exact Or.inr hsealed

/-- No share carries a key that was not generated yet. -/
def KeysGenerated (w : VerseWorld) : Prop :=
  ∀ share, Made w share → share.key ≤ w.host.contentKey

theorem keysGenerated_step {w w' : VerseWorld} {a : VerseAction}
    (h : KeysGenerated w) (hstep : verseStep crypto openPost w a = some w') :
    KeysGenerated w' := by
  intro share hmade
  refine Nat.le_trans ?_ (contentKey_le_step hstep)
  rcases made_origin hstep hmade with hold | hsealed
  · exact h share hold
  · exact Nat.le_of_eq hsealed.1

theorem keysGenerated_of_reachable {contract : ContractObject}
    {w : VerseWorld}
    (h : Reachable (verseStep crypto openPost) (.init (.new contract)) w) :
    KeysGenerated w := by
  have hinit : KeysGenerated (.init (.new contract)) := by
    intro share hmade
    cases hmade with
    | logged e he => cases he
    | stashed side hslot => cases hslot
    | inFlight side hf =>
        cases hf with
        | pushed id p h => cases h
        | held conn pc h => cases h
        | «sealed» conn fromSide req arrived contract h => cases h
  exact h.induct hinit fun _ _ _ h hstep => keysGenerated_step h hstep

-- ======================================================== the removed side

/-- The step adds the side by no new request: no join request that names it
is dispatched, and it is not added locally. -/
def NoReturn (side : Address) (_ : VerseWorld) : VerseAction → Prop
  | .receive _ env => ∀ req, env.payload = .joinRequest req → req.side ≠ side
  | .addLocalMember s _ => s ≠ side
  | _ => True

/-- The side is no member and not about to become one, and no share sealed
to it carries a key past the bound. -/
structure Departed (side : Address) (bound : VerseContentKey)
    (w : VerseWorld) : Prop where
  gone : w.host.members side = none
  joins : ∀ conn peer pc j, w.sessions conn = some ⟨peer, pc⟩ →
    joinOf pc = some j → j.2.1.side ≠ side
  bounded : ∀ share, Made w share → share.member = side → share.key ≤ bound

/-- The current key is not sealed to a side that is gone. -/
theorem Departed.not_sealed {side : Address} {bound : VerseContentKey}
    {w : VerseWorld} {share : KeyShare} (h : Departed side bound w)
    (hsealed : JustSealed w share) : share.member ≠ side := by
  intro hmember
  rcases hsealed.2 with hmem | ⟨conn, peer, pc, j, hs, hj, hside⟩
  · exact hmem (hmember ▸ h.gone)
  · exact h.joins conn peer pc j hs hj (hside.trans hmember)

/-- Step lemma. -/
theorem departed_step {w w' : VerseWorld} {a : VerseAction} {side : Address}
    {bound : VerseContentKey} (hok : NoReturn side w a)
    (h : Departed side bound w)
    (hstep : verseStep crypto openPost w a = some w') :
    Departed side bound w' := by
  refine ⟨?_, fun conn peer pc j hs' hj => ?_, fun share hmade hmember => ?_⟩
  · obtain ⟨es, hlog, hmembers⟩ := members_step hstep
    cases hmembers with
    | same hsame => exact hsame ▸ h.gone
    | joined conn io peer fromSide req arrived contract share ha hs hins =>
        rw [hins, Table.insert_of_ne _ _ (h.joins conn peer _ _ hs rfl).symm]
        exact h.gone
    | direct s token key hins hes htoken hkey ha =>
        obtain ⟨issuedAt, rfl⟩ := ha
        replace hok : s ≠ side := hok
        rw [hins, Table.insert_of_ne _ _ hok.symm]
        exact h.gone
    | removed s herase =>
        rw [herase, Table.erase_apply]
        split
        · rfl
        · exact h.gone
  · cases sessions_step hstep hs' with
    | same _ hs => exact h.joins conn peer pc j hs hj
    | opened => cases hj
    | received env ha hs =>
        subst ha
        obtain ⟨req, hreq, rfl⟩ := serveReceive_joinOf hj
        exact hok req hreq
    | ticked io pc₀ t next ha hs ht hnext =>
        exact h.joins conn peer pc₀ j hs (serveTick_joinOf ht hnext hj)
  · rcases made_origin hstep hmade with hold | hsealed
    · exact h.bounded share hold hmember
    · exact absurd hmember (h.not_sealed hsealed)

/-- Whatever still runs after the removal of a side, no key generated after
it is sealed to the side before the side is added again. -/
theorem no_later_key_after_removal (crypto : Crypto)
    (openPost : VerseContentKey → VersePostPayload → Option (List UInt8))
    (contract : ContractObject) (w w₀ w₁ : VerseWorld) (a : VerseAction)
    (acts : List VerseAction) (side : Address) (share : KeyShare)
    (hreach : Reachable (verseStep crypto openPost) (.init (.new contract)) w)
    (hstep : verseStep crypto openPost w a = some w₀)
    (hremoved : w₀.log = w.log ++ [.removed side])
    (hjoins : ∀ conn peer pc j, w₀.sessions conn = some ⟨peer, pc⟩ →
      joinOf pc = some j → j.2.1.side ≠ side)
    (hok : Along (verseStep crypto openPost) (NoReturn side) w₀ acts)
    (hrun : run (verseStep crypto openPost) w₀ acts = some w₁)
    (hmade : Made w₁ share) (hmember : share.member = side) :
    share.key ≤ w₀.host.contentKey := by
  have hgone : w₀.host.members side = none := by
    obtain ⟨es, hlog, hmembers⟩ := members_step hstep
    obtain rfl := List.append_cancel_left (hremoved.symm.trans hlog)
    cases hmembers with
    | same hsame hes => exact absurd rfl (hes _ (List.mem_singleton_self _) side)
    | joined conn io peer fromSide req arrived contract share ha hs hins hes =>
        cases hes
    | direct s token key hins hes => cases hes
    | removed s herase hes =>
        cases hes
        rw [herase]
        exact Table.erase_self _ _
  have hkeys := keysGenerated_step (keysGenerated_of_reachable hreach) hstep
  have hinv : Departed side w₀.host.contentKey w₁ :=
    run_induct (fun _ _ _ hok h hstep => departed_step hok h hstep) hok
      ⟨hgone, hjoins, fun share hmade _ => hkeys share hmade⟩ hrun
  exact hinv.bounded share hmade hmember

/-- The member of `joinLive` leaves. -/
def joinThenLeave : List VerseAction :=
  joinLive ++ [.receive 0 (toVerse (Bytes.fill _ 2)
    (.verseLeave ⟨Bytes.fill _ 1, Bytes.fill _ 2, .retain⟩))]

/-- The key is rotated for the leave, and once more while the session of the
side that left is open. -/
def rotateAfterLeave : List VerseAction :=
  [.tick 0 (some 2), .tick 0 (some 2), .rotate, .tickRotation 2 (some 3),
    .tickRotation 2 (some 3)]

/-- The key is rotated twice, and nothing past the first key was sealed to
the side. -/
theorem no_later_key_after_leave :
    ∃ w w₀ w₁, run (verseStep Crypto.refusing fun _ _ => none) openVerse
        joinThenLeave = some w
      ∧ verseStep Crypto.refusing (fun _ _ => none) w (.tick 0 (some 2))
        = some w₀
      ∧ run (verseStep Crypto.refusing fun _ _ => none) w₀ rotateAfterLeave
        = some w₁
      ∧ w₁.host.contentKey = 2
      ∧ ∀ share, Made w₁ share → share.member = Bytes.fill _ 2 →
        share.key ≤ 0 := by
  have hids : ∀ w, run (verseStep Crypto.refusing fun _ _ => none) openVerse
      (joinThenLeave ++ [.tick 0 (some 2)]) = some w → FreshIds w :=
    fun w h => freshIds_of_reachable ⟨_, h⟩
  refine ⟨_, _, _, rfl, rfl, rfl, rfl, fun share hmade hmember =>
    no_later_key_after_removal Crypto.refusing (fun _ _ => none)
      (titled "open" 1) _ _ _ (.tick 0 (some 2)) rotateAfterLeave
      (Bytes.fill _ 2) share ⟨joinThenLeave, rfl⟩ rfl rfl
      (fun conn peer pc j hs hj => ?_) ?_ rfl hmade hmember⟩
  · have hlt : conn < 1 := (hids _ rfl).sessions conn _ hs
    interval_cases conn
    cases hs
    cases hj
  · exact .cons rfl trivial (.cons rfl trivial (.cons rfl trivial
      (.cons rfl trivial (.cons rfl trivial trivial))))

end Sidevers.Proofs
