/-
Logs: what happened, oldest first.

Two notions carry the results about a log.

- `Grounded Q log`: every event has `Q` of the events before it. A step that
  appends events keeps it as soon as the new ones have `Q`
  (`Grounded.append`).
- `Stands on off log`: some event switched a thing on, and none after it
  switched it off.
-/
import Mathlib.Data.List.Induction
import Mathlib.Data.List.Perm.Subperm

namespace Sidevers.Lib

universe u v

variable {ε : Type u} {κ : Type v}

/-- What did not happen and is not what happens now. -/
theorem not_mem_concat {log : List ε} {e e' : ε} (h : e ∉ log) (hne : e ≠ e') :
    e ∉ log ++ [e'] := by
  intro hmem
  rcases List.mem_append.mp hmem with hmem | hmem
  · exact h hmem
  · exact hne (List.mem_singleton.mp hmem)

-- =========================================================== justified

/-- Every event is justified by the events before it. -/
def Grounded (Q : List ε → ε → Prop) (log : List ε) : Prop :=
  ∀ before e after, log = before ++ e :: after → Q before e

theorem grounded_nil (Q : List ε → ε → Prop) : Grounded Q [] := by
  intro before e after h
  exact absurd h.symm (by simp)

theorem grounded_concat {Q : List ε → ε → Prop} {log : List ε} {e : ε} :
    Grounded Q (log ++ [e]) ↔ Grounded Q log ∧ Q log e := by
  constructor
  · intro h
    refine ⟨fun before e' after heq => h before e' (after ++ [e]) ?_,
      h log e [] rfl⟩
    rw [heq, List.append_assoc, List.cons_append]
  · rintro ⟨hlog, he⟩ before e' after heq
    rcases List.eq_nil_or_concat after with rfl | ⟨after, e'', rfl⟩
    · obtain ⟨rfl, hlast⟩ := List.append_inj' heq rfl
      cases hlast
      exact he
    · rw [List.concat_eq_append, ← List.cons_append,
        ← List.append_assoc] at heq
      obtain ⟨rfl, -⟩ := List.append_inj' heq rfl
      exact hlog before e' after rfl

/-- What is appended is to be justified by the whole log before it. -/
theorem Grounded.append {Q : List ε → ε → Prop} {log es : List ε}
    (h : Grounded Q log)
    (hes : ∀ before e after, es = before ++ e :: after → Q (log ++ before) e) :
    Grounded Q (log ++ es) := by
  induction es using List.reverseRecOn with
  | nil => rwa [List.append_nil]
  | append_singleton es e ih =>
      rw [← List.append_assoc, grounded_concat]
      refine ⟨ih fun before e' after heq => hes before e' (after ++ [e]) ?_,
        hes es e [] rfl⟩
      rw [heq, List.append_assoc, List.cons_append]

/-- A log that goes on was justified before. -/
theorem Grounded.of_append {Q : List ε → ε → Prop} {log es : List ε}
    (h : Grounded Q (log ++ es)) : Grounded Q log := by
  intro before e after heq
  apply h before e (after ++ es)
  rw [heq, List.append_assoc, List.cons_append]

/-- An event of the log is justified by some of it. -/
theorem Grounded.of_mem {Q : List ε → ε → Prop} {log : List ε} {e : ε}
    (h : Grounded Q log) (he : e ∈ log) :
    ∃ before after, log = before ++ e :: after ∧ Q before e := by
  obtain ⟨before, after, heq⟩ := List.append_of_mem he
  exact ⟨before, after, heq, h before e after heq⟩

/-- An event without a mark adds none. -/
theorem filterMap_concat_none {f : ε → Option κ} {log : List ε} {e : ε}
    (he : f e = none) : (log ++ [e]).filterMap f = log.filterMap f := by
  rw [List.filterMap_append, List.filterMap_cons_none he, List.filterMap_nil,
    List.append_nil]

/-- The events with a mark have different ones if none has the mark of an
earlier one. -/
theorem Grounded.nodup_filterMap {Q : List ε → ε → Prop} {f : ε → Option κ}
    {log : List ε} (h : Grounded Q log)
    (hfresh : ∀ before e k, Q before e → f e = some k →
      k ∉ before.filterMap f) :
    (log.filterMap f).Nodup := by
  induction log using List.reverseRecOn with
  | nil => exact List.nodup_nil
  | append_singleton log e ih =>
      obtain ⟨hlog, he⟩ := grounded_concat.mp h
      rw [List.filterMap_append]
      cases hk : f e with
      | none =>
          rw [List.filterMap_cons_none hk, List.filterMap_nil,
            List.append_nil]
          exact ih hlog
      | some k =>
          rw [List.filterMap_cons_some hk, List.filterMap_nil]
          refine List.nodup_append.mpr
            ⟨ih hlog, by simp, fun a ha b hb hab => ?_⟩
          obtain rfl := List.mem_singleton.mp hb
          exact hfresh log e b he hk (hab ▸ ha)

-- ============================================================== stands

/-- It was switched on, and not off since. -/
def Stands (on off : ε → Prop) (log : List ε) : Prop :=
  ∃ before e after, log = before ++ e :: after ∧ on e ∧ ∀ e' ∈ after, ¬ off e'

variable {on off : ε → Prop}

theorem stands_concat {log : List ε} {e : ε} :
    Stands on off (log ++ [e]) ↔ on e ∨ ¬ off e ∧ Stands on off log := by
  constructor
  · rintro ⟨before, e', after, heq, hon, hafter⟩
    rcases List.eq_nil_or_concat after with rfl | ⟨after, e'', rfl⟩
    · obtain ⟨-, hlast⟩ := List.append_inj' heq rfl
      cases hlast
      exact Or.inl hon
    · rw [List.concat_eq_append] at heq hafter
      rw [← List.cons_append, ← List.append_assoc] at heq
      obtain ⟨rfl, hlast⟩ := List.append_inj' heq rfl
      cases hlast
      refine Or.inr ⟨hafter _ (List.mem_append_right _ List.mem_cons_self),
        before, e', after, rfl, hon, fun x hx => ?_⟩
      exact hafter x (List.mem_append_left _ hx)
  · rintro (hon | ⟨hoff, before, e', after, rfl, hon, hafter⟩)
    · exact ⟨log, e, [], rfl, hon, nofun⟩
    · refine ⟨before, e', after ++ [e], by simp, hon, fun x hx => ?_⟩
      rcases List.mem_append.mp hx with hx | hx
      · exact hafter x hx
      · cases List.mem_singleton.mp hx
        exact hoff

/-- What stands goes on standing while nothing switches it off. -/
theorem Stands.append {log es : List ε} (h : Stands on off log)
    (hes : ∀ e ∈ es, ¬ off e) : Stands on off (log ++ es) := by
  obtain ⟨before, e, after, rfl, hon, hafter⟩ := h
  refine ⟨before, e, after ++ es, by simp, hon, fun x hx => ?_⟩
  rcases List.mem_append.mp hx with hx | hx
  · exact hafter x hx
  · exact hes x hx

end Sidevers.Lib
