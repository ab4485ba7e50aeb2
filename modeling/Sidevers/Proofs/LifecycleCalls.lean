/-
A retirement outlives the calls it meets, if none of them has an older value
in hand.

What `set_self_retired` is to leave behind is stated at two points of it: from
its write of the lifecycle on, the memory says Retired, and from its return
on, the row does (`RetireInv`). Both are put off while a call is under way
that will say so again. `UpToDate` is what the two writes that can undo it
have to meet: the one `refresh_lifecycle` makes of the lifecycle, and that of
a row.
-/
import Sidevers.Net.LifecycleCalls

namespace Sidevers.Proofs

open Sidevers.Core
open Sidevers.Lib
open Sidevers.Net

-- =========================================================== one call

/-- A call that nothing comes between is the operation. -/
theorem lifecycle_alone (s : Side) (now : UInt64) :
    (∃ acts, run lifecycleStep ⟨s, []⟩ acts
      = some ⟨s.touchSend now, [.done]⟩)
    ∧ (∃ acts, run lifecycleStep ⟨s, []⟩ acts
      = some ⟨s.refreshLifecycle now, [.done]⟩)
    ∧ ∃ acts, run lifecycleStep ⟨s, []⟩ acts
      = some ⟨s.setSelfRetired, [.returned]⟩ := by
  refine ⟨⟨.begin (.touchSend now) :: List.replicate 4 (.resume 0), rfl⟩, ?_,
    ⟨.begin .setSelfRetired :: List.replicate 9 (.resume 0), rfl⟩⟩
  by_cases h : s.lifecycle = .retired
  · refine ⟨[.begin (.refreshLifecycle now), .resume 0], ?_⟩
    have hresume : LifecycleCall.resume s (.refreshLifecycle now)
        = some (s, .done) := if_pos h
    have hwhole : s.refreshLifecycle now = s := if_pos h
    simp [run, lifecycleStep, tasksStep, LifecycleRequest.begin, hresume, hwhole]
  · refine ⟨.begin (.refreshLifecycle now) :: List.replicate 6 (.resume 0), ?_⟩
    have hresume : LifecycleCall.resume s (.refreshLifecycle now)
        = some (s, .refreshLastSend now) := if_neg h
    have hwhole : s.refreshLifecycle now
        = s.setLifecycle (SideLifecycle.derive s.lastSendAt false now) :=
      if_neg h
    rw [hwhole]
    simp only [List.replicate, run, lifecycleStep, tasksStep,
      LifecycleRequest.begin, List.nil_append, List.getElem?_cons_zero, hresume]
    rfl

-- ======================================================= the statement

/-- The stored row says Retired, and that the side itself did it. -/
def RowRetired (s : Side) : Prop :=
  ∃ row, s.store.tables.sides s.address = some row
    ∧ row.lifecycle = "Retired" ∧ SideStore.i64ToBool row.isSelfRetired = true

/-- A `set_self_retired` that has not set the lifecycle. -/
def entering : LifecycleCall → Bool
  | .setSelfRetired | .setRetired => true
  | _ => false

/-- One that has, and still has a row to write. -/
def writing : LifecycleCall → Bool
  | .persistSideRow | .persistSideRowLifecycle _ => true
  | .persistLifecycle _ writer | .persistFlag _ _ writer
  | .persistStore _ _ _ writer => decide (writer ≠ .sender)
  | _ => false

/-- A `set_self_retired` is yet to set the lifecycle. -/
def Entering (calls : List LifecycleCall) : Prop :=
  ∃ call ∈ calls, entering call = true

/-- A `set_self_retired` is yet to write a row. -/
def RowToCome (calls : List LifecycleCall) : Prop :=
  ∃ call ∈ calls, entering call = true ∨ writing call = true

/-- The condition: `refresh_lifecycle` does not set the lifecycle of a side
that is retired by then, a row that is not Retired by the side itself does not
go to the store once the side is, and the last row of a `set_self_retired`
does not fail; unless another `set_self_retired` is yet to say it again, or
the row says it already. -/
def UpToDate (s : Side) (call : LifecycleCall)
    (others : List LifecycleCall) : Prop :=
  match call with
  | .refreshSet _ => s.lifecycle ≠ .retired ∨ Entering others
  | .persistStore _ lifecycle isSelfRetired writer =>
      RowToCome (writer.next :: others)
      ∨ (s.store.faults.head? = some true
        ∧ (writer = .retiringLast → RowRetired s))
      ∨ (s.store.faults.head? ≠ some true
        ∧ (lifecycle = .retired ∧ isSelfRetired = true
          ∨ s.lifecycle ≠ .retired ∨ s.isSelfRetired = false))
  | _ => True

-- ======================================================= the invariant

/-- What a retirement has behind it. -/
structure RetireInv (s : Side) (calls : List LifecycleCall) : Prop where
  flagged : .setRetired ∈ calls → s.isSelfRetired = true
  retired : .returned ∈ calls ∨ (∃ call ∈ calls, writing call = true) →
    s.isSelfRetired = true ∧ (s.lifecycle = .retired ∨ Entering calls)
  returned : .returned ∈ calls → RowRetired s ∨ RowToCome calls

section lists

variable {call call' : LifecycleCall} {calls rest : List LifecycleCall}
  {s s' : Side}

theorem entering_cons :
    Entering (call :: rest) ↔ entering call = true ∨ Entering rest := by
  simp only [Entering, List.mem_cons, exists_eq_or_imp]

theorem rowToCome_cons :
    RowToCome (call :: rest)
      ↔ (entering call = true ∨ writing call = true) ∨ RowToCome rest := by
  simp only [RowToCome, List.mem_cons, exists_eq_or_imp]

theorem Entering.rowToCome (h : Entering calls) : RowToCome calls := by
  obtain ⟨call, hcall, hentering⟩ := h
  exact ⟨call, hcall, Or.inl hentering⟩

/-- The calls in any order. -/
theorem RetireInv.of_perm (hinv : RetireInv s calls)
    {calls' : List LifecycleCall} (hperm : calls.Perm calls') :
    RetireInv s calls' := by
  have hsome : ∀ p : LifecycleCall → Prop,
      (∃ call ∈ calls, p call) ↔ ∃ call ∈ calls', p call := fun p =>
    exists_congr fun call => and_congr_left' hperm.mem_iff
  obtain ⟨hflagged, hretired, hreturned⟩ := hinv
  unfold Entering at hretired
  unfold RowToCome at hreturned
  rw [hsome, hsome, hperm.mem_iff] at hretired
  rw [hsome, hperm.mem_iff] at hreturned
  exact ⟨fun h => hflagged (hperm.mem_iff.mpr h), hretired, hreturned⟩

/-- What one call has to do with it. -/
theorem retireInv_cons :
    RetireInv s (call :: rest) ↔
      (call = .setRetired ∨ .setRetired ∈ rest → s.isSelfRetired = true)
      ∧ ((call = .returned ∨ .returned ∈ rest) ∨ writing call = true
          ∨ (∃ call ∈ rest, writing call = true) →
        s.isSelfRetired = true
          ∧ (s.lifecycle = .retired ∨ entering call = true ∨ Entering rest))
      ∧ (call = .returned ∨ .returned ∈ rest → RowRetired s
          ∨ (entering call = true ∨ writing call = true) ∨ RowToCome rest) := by
  constructor
  · rintro ⟨hflagged, hretired, hreturned⟩
    rw [List.mem_cons, eq_comm] at hflagged
    rw [List.mem_cons, eq_comm, entering_cons] at hretired
    simp only [List.mem_cons, exists_eq_or_imp] at hretired
    rw [List.mem_cons, eq_comm, rowToCome_cons] at hreturned
    exact ⟨hflagged, hretired, hreturned⟩
  · rintro ⟨hflagged, hretired, hreturned⟩
    refine ⟨?_, ?_, ?_⟩
    · rw [List.mem_cons, eq_comm]
      exact hflagged
    · simp only [List.mem_cons, exists_eq_or_imp, entering_cons,
        eq_comm (a := LifecycleCall.returned)]
      exact hretired
    · rw [List.mem_cons, eq_comm, rowToCome_cons]
      exact hreturned

/-- A step that leaves the lifecycle, the flag and the row, of a call that
stays what it is to a retirement. -/
theorem RetireInv.pass (hinv : RetireInv s (call :: rest))
    (hflag : s'.isSelfRetired = s.isSelfRetired)
    (hlife : s.lifecycle = .retired → s'.lifecycle = .retired)
    (hrow : RowRetired s → RowRetired s')
    (hentering : entering call' = entering call)
    (hwriting : writing call' = writing call)
    (hset : call' ≠ .setRetired) (hreturned : call' ≠ .returned) :
    RetireInv s' (call' :: rest) := by
  rw [retireInv_cons] at hinv ⊢
  grind

end lists

-- ============================================================ the steps

section steps

variable {s s' : Side} {call call' : LifecycleCall}
  {rest : List LifecycleCall} {last : Option UInt64}
  {lifecycle : SideLifecycle} {flag : Bool} {writer : RowWriter}

/-- A row that does not fail says what it was put together from. -/
theorem rowRetired_storeRow (h : s.store.faults.head? ≠ some true) :
    RowRetired (s.storeRow last .retired true) := by
  unfold Side.storeRow SideStore.upsertSide
  rw [Side.persist_execute_of_ok _ h]
  refine ⟨_, Table.insert_self .., ?_⟩
  cases hrow : s.store.tables.sides s.address with
  | none => exact ⟨rfl, rfl⟩
  | some old => exact ⟨rfl, rfl⟩

/-- A row that fails leaves the one that is there. -/
theorem rowRetired_storeRow_failed (h : s.store.faults.head? = some true) :
    RowRetired (s.storeRow last lifecycle flag) ↔ RowRetired s := by
  have hstore : (s.storeRow last lifecycle flag).store.tables
      = s.store.tables := by
    unfold Side.storeRow SideStore.upsertSide Side.persist
    rw [SideStore.execute_snd, if_pos h]
  unfold RowRetired
  rw [hstore]
  exact Iff.rfl

/-- A row is written. -/
theorem RetireInv.store
    (hinv : RetireInv s (.persistStore last lifecycle flag writer :: rest))
    (hok : UpToDate s (.persistStore last lifecycle flag writer) rest) :
    RetireInv (s.storeRow last lifecycle flag) (writer.next :: rest) := by
  simp only [UpToDate, rowToCome_cons] at hok
  have hlife : (s.storeRow last lifecycle flag).lifecycle = s.lifecycle := rfl
  have hflag : (s.storeRow last lifecycle flag).isSelfRetired
      = s.isSelfRetired := rfl
  have hfailed := @rowRetired_storeRow_failed s last lifecycle flag
  have hgood : s.store.faults.head? ≠ some true → lifecycle = .retired →
      flag = true → RowRetired (s.storeRow last lifecycle flag) := by
    rintro hhead rfl rfl
    exact rowRetired_storeRow hhead
  have hcome := @Entering.rowToCome rest
  rw [retireInv_cons] at hinv ⊢
  cases writer with
  | sender => grind [entering, writing, RowWriter.next]
  | retiring => grind [entering, writing, RowWriter.next]
  | retiringLast => grind [entering, writing, RowWriter.next]

/-- A call goes on from each of its awaits. -/
theorem RetireInv.resume (hok : UpToDate s call rest)
    (hinv : RetireInv s (call :: rest))
    (h : call.resume s = some (s', call')) : RetireInv s' (call' :: rest) := by
  cases call with
  | touchSend now =>
      obtain ⟨rfl, rfl⟩ := Prod.mk.inj (Option.some.inj h)
      exact hinv.pass rfl id id rfl rfl (by simp) (by simp)
  | touchLifecycle now =>
      obtain ⟨rfl, rfl⟩ := Prod.mk.inj (Option.some.inj h)
      refine hinv.pass rfl (fun hretired => ?_) id rfl rfl (by simp) (by simp)
      rw [hretired]
      rfl
  | refreshLifecycle now =>
      simp only [LifecycleCall.resume] at h
      split at h
      all_goals
        obtain ⟨rfl, rfl⟩ := Prod.mk.inj (Option.some.inj h)
        exact hinv.pass rfl id id rfl rfl (by simp) (by simp)
  | refreshLastSend now =>
      obtain ⟨rfl, rfl⟩ := Prod.mk.inj (Option.some.inj h)
      exact hinv.pass rfl id id rfl rfl (by simp) (by simp)
  | refreshSet next =>
      obtain ⟨rfl, rfl⟩ := Prod.mk.inj (Option.some.inj h)
      simp only [UpToDate] at hok
      have hrow : RowRetired { s with lifecycle := next } ↔ RowRetired s :=
        Iff.rfl
      rw [retireInv_cons] at hinv ⊢
      grind [entering, writing]
  | setSelfRetired =>
      obtain ⟨rfl, rfl⟩ := Prod.mk.inj (Option.some.inj h)
      have hrow : RowRetired { s with isSelfRetired := true } ↔ RowRetired s :=
        Iff.rfl
      rw [retireInv_cons] at hinv ⊢
      grind [entering, writing]
  | setRetired =>
      obtain ⟨rfl, rfl⟩ := Prod.mk.inj (Option.some.inj h)
      have hrow : RowRetired { s with lifecycle := .retired } ↔ RowRetired s :=
        Iff.rfl
      rw [retireInv_cons] at hinv ⊢
      grind [entering, writing]
  | persistLifecycle state writer =>
      obtain ⟨rfl, rfl⟩ := Prod.mk.inj (Option.some.inj h)
      exact hinv.pass rfl id id rfl rfl (by simp) (by simp)
  | persistSideRow =>
      obtain ⟨rfl, rfl⟩ := Prod.mk.inj (Option.some.inj h)
      exact hinv.pass rfl id id rfl rfl (by simp) (by simp)
  | persistSideRowLifecycle last =>
      obtain ⟨rfl, rfl⟩ := Prod.mk.inj (Option.some.inj h)
      exact hinv.pass rfl id id rfl rfl (by simp) (by simp)
  | persistFlag last lifecycle writer =>
      obtain ⟨rfl, rfl⟩ := Prod.mk.inj (Option.some.inj h)
      exact hinv.pass rfl id id rfl rfl (by simp) (by simp)
  | persistStore last lifecycle flag writer =>
      obtain ⟨rfl, rfl⟩ := Prod.mk.inj (Option.some.inj h)
      exact hinv.store hok
  | done => cases h
  | returned => cases h

end steps

/-- A call that begins says nothing yet. -/
theorem RetireInv.begin {s : Side} {calls : List LifecycleCall}
    (hinv : RetireInv s calls) (request : LifecycleRequest) :
    RetireInv s (request.begin :: calls) := by
  have hcome := @Entering.rowToCome calls
  obtain ⟨hflagged, hretired, hreturned⟩ := hinv
  rw [retireInv_cons]
  cases request <;> grind [LifecycleRequest.begin, writing, entering]

-- ========================================================= the theorem

/-- In every run that meets the condition, once a `set_self_retired` has
returned and all calls are done, the memory and the row say Retired, and the
row says that the side itself did it. -/
theorem retirement_survives (s : Side)
    {acts : List (TasksAction LifecycleRequest)}
    {w : Tasks Side LifecycleCall}
    (hok : Along lifecycleStep (EachResume UpToDate) ⟨s, []⟩ acts)
    (hrun : run lifecycleStep ⟨s, []⟩ acts = some w)
    (hreturned : .returned ∈ w.tasks)
    (hdone : ∀ call ∈ w.tasks, call = .done ∨ call = .returned) :
    w.shared.lifecycle = .retired ∧ RowRetired w.shared := by
  have hstart : RetireInv s [] := by
    constructor <;> simp
  have hstep : ∀ w a w', EachResume UpToDate w a →
      RetireInv w.shared w.tasks → lifecycleStep w a = some w' →
      RetireInv w'.shared w'.tasks :=
    tasks_inv_step (fun hperm hinv => hinv.of_perm hperm)
      (fun request hinv => hinv.begin request)
      (fun hok hinv h => hinv.resume hok h)
  have hinv : RetireInv w.shared w.tasks :=
    run_induct hstep hok hstart hrun
  have hcome : ¬ RowToCome w.tasks := by
    rintro ⟨call, hcall, h⟩
    rcases hdone call hcall with rfl | rfl <;> simp [entering, writing] at h
  have hentering : ¬ Entering w.tasks := fun h => hcome h.rowToCome
  exact ⟨(hinv.retired (Or.inl hreturned)).2.resolve_right hentering,
    (hinv.returned hreturned).resolve_right hcome⟩

/-- A side that has not sent anything. -/
def unsentSide : Side :=
  .fresh ⟨Bytes.fill _ 1, Bytes.fill _ 2⟩ none 0 ⟨Tables.empty, []⟩

/-- A send that found the side active writes its row before a retirement
does. -/
theorem retirement_survives_send :
    ∃ w, run lifecycleStep ⟨unsentSide, []⟩
        ([.begin (.touchSend 5), .begin .setSelfRetired, .resume 0, .resume 0,
          .resume 1, .resume 1, .resume 0, .resume 0]
          ++ List.replicate 7 (.resume 1)) = some w
      ∧ w.shared.lifecycle = .retired ∧ RowRetired w.shared := by
  have hok : Along lifecycleStep (EachResume UpToDate) ⟨unsentSide, []⟩
      ([.begin (.touchSend 5), .begin .setSelfRetired, .resume 0, .resume 0,
        .resume 1, .resume 1, .resume 0, .resume 0]
        ++ List.replicate 7 (.resume 1)) := by
    refine .cons rfl trivial <| .cons rfl trivial <|
      .cons rfl (eachResume_of rfl trivial) <|
      .cons rfl (eachResume_of rfl trivial) <|
      .cons rfl (eachResume_of rfl trivial) <|
      .cons rfl (eachResume_of rfl trivial) <|
      .cons rfl (eachResume_of rfl trivial) <|
      .cons rfl (eachResume_of rfl (Or.inl ?_)) <|
      .cons rfl (eachResume_of rfl trivial) <|
      .cons rfl (eachResume_of rfl trivial) <|
      .cons rfl (eachResume_of rfl (Or.inl ?_)) <|
      .cons rfl (eachResume_of rfl trivial) <|
      .cons rfl (eachResume_of rfl trivial) <|
      .cons rfl (eachResume_of rfl trivial) <|
      .cons rfl (eachResume_of rfl (Or.inr (Or.inr ?_))) trivial
    · exact ⟨_, List.mem_cons_of_mem _ List.mem_cons_self, Or.inr rfl⟩
    · exact ⟨_, List.mem_cons_self, Or.inr rfl⟩
    · exact ⟨by decide, Or.inl ⟨rfl, rfl⟩⟩
  refine ⟨_, rfl, retirement_survives unsentSide hok rfl ?_ ?_⟩
  · exact List.mem_cons_of_mem _ List.mem_cons_self
  · intro call hcall
    have hcall : call ∈ [LifecycleCall.done, .returned] := hcall
    simpa using hcall

/-- A refresh that found the side not retired ends after the retirement. -/
theorem stale_refresh_unretires :
    ∃ w, run lifecycleStep ⟨unsentSide, []⟩
        ([.begin (.refreshLifecycle 5), .begin .setSelfRetired, .resume 0]
          ++ List.replicate 9 (.resume 1) ++ List.replicate 5 (.resume 0))
          = some w
      ∧ w.tasks = [.done, .returned] ∧ w.shared.lifecycle = .created
      ∧ ¬ RowRetired w.shared := by
  refine ⟨_, rfl, rfl, rfl, ?_⟩
  rintro ⟨row, hrow, hlabel, -⟩
  obtain rfl := Option.some.inj hrow
  exact absurd hlabel (by decide)

end Sidevers.Proofs
