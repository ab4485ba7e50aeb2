/-
Runs of a labelled transition system given by an executable step
function `step : σ → α → Option σ` (`none` = the action is disabled).

Two notions carry every run-level result of this development:

- `run step s acts`: the state a list of actions leads to, failing on the
  first disabled action;
- `Along step ok s acts`: every action of the list is taken in a state
  where it meets `ok`. A result "in every run whose steps all meet the
  condition" is a statement about `Along`.

`run_induct` is the one induction: a step lemma under `ok` gives the run
lemma. The unconditional case is `ok := fun _ _ => True`.
-/
import Mathlib.Init

namespace Sidevers.Lib

universe u v
variable {σ : Type u} {α : Type v}

/-- Run a list of actions, failing on the first disabled one. -/
def run (step : σ → α → Option σ) (s : σ) : List α → Option σ
  | [] => some s
  | a :: rest =>
      match step s a with
      | some s' => run step s' rest
      | none => none

/-- Every action of the list is taken in a state where it meets `ok`. -/
def Along (step : σ → α → Option σ) (ok : σ → α → Prop) (s : σ) :
    List α → Prop
  | [] => True
  | a :: rest => ok s a ∧ ∀ s', step s a = some s' → Along step ok s' rest

variable {step : σ → α → Option σ} {ok : σ → α → Prop}

instance Along.decidable [∀ s a, Decidable (ok s a)] :
    ∀ s acts, Decidable (Along step ok s acts)
  | _, [] => .isTrue trivial
  | s, a :: rest =>
      have : Decidable (∀ s', step s a = some s' → Along step ok s' rest) :=
        match step s a with
        | none => .isTrue fun _ h => by cases h
        | some t =>
            have := Along.decidable t rest
            decidable_of_iff (Along step ok t rest)
              ⟨fun h _ ht => Option.some.inj ht ▸ h, fun h => h t rfl⟩
      inferInstanceAs (Decidable (_ ∧ _))

@[simp] theorem run_nil (s : σ) : run step s [] = some s := rfl

theorem run_cons (s : σ) (a : α) (rest : List α) :
    run step s (a :: rest) = (step s a).bind fun s' => run step s' rest := by
  simp only [run]
  cases step s a <;> rfl

/-- A run splits at any point into the run of its prefix and the run of
what is left. -/
theorem run_append (s : σ) (as bs : List α) :
    run step s (as ++ bs) = (run step s as).bind fun t => run step t bs := by
  induction as generalizing s with
  | nil => rfl
  | cons a as ih =>
      rw [List.cons_append, run_cons, run_cons]
      cases step s a with
      | none => rfl
      | some s' => exact ih s'

/-- The last step of a run. -/
theorem run_concat (s : σ) (as : List α) (a : α) :
    run step s (as ++ [a]) = (run step s as).bind fun t => step t a := by
  rw [run_append]
  refine congrArg _ (funext fun t => ?_)
  rw [run_cons]
  cases step t a <;> rfl

/-- A run that was evaluated: it goes through, and what was checked at its end
holds there. -/
theorem run_checked {Q : σ → Prop} [DecidablePred Q] {s : σ} {acts : List α}
    (h : (run step s acts).any (fun t => decide (Q t)) = true) :
    ∃ t, run step s acts = some t ∧ Q t := by
  obtain ⟨t, hrun, hQ⟩ := (Option.any_eq_true _ _).mp h
  exact ⟨t, hrun, of_decide_eq_true hQ⟩

/-- No condition at all is met along every run. -/
theorem along_true (s : σ) (acts : List α) :
    Along step (fun _ _ => True) s acts := by
  induction acts generalizing s with
  | nil => exact trivial
  | cons a rest ih => exact ⟨trivial, fun s' _ => ih s'⟩

/-- Nor is there anything to meet where no action of the list can fail it. -/
theorem along_of_forall (s : σ) (acts : List α)
    (h : ∀ a ∈ acts, ∀ s, ok s a) : Along step ok s acts := by
  induction acts generalizing s with
  | nil => exact trivial
  | cons a rest ih =>
      exact ⟨h a List.mem_cons_self s, fun s' _ =>
        ih s' fun b hb => h b (List.mem_cons_of_mem _ hb)⟩

/-- A condition is met along a run whose first step is known. -/
theorem Along.cons {s t : σ} {a : α} {rest : List α}
    (hstep : step s a = some t) (hok : ok s a)
    (hrest : Along step ok t rest) : Along step ok s (a :: rest) := by
  refine ⟨hok, fun s' hs' => ?_⟩
  rw [hstep] at hs'
  injection hs' with hs'
  exact hs' ▸ hrest

/-- A run that meets a condition meets it on every prefix. -/
theorem Along.prefix {s : σ} {as bs : List α}
    (h : Along step ok s (as ++ bs)) : Along step ok s as := by
  induction as generalizing s with
  | nil => exact trivial
  | cons a as ih => exact ⟨h.1, fun s' hs => ih (h.2 s' hs)⟩

/-- What is left of a run that meets a condition meets it too. -/
theorem Along.suffix {s t : σ} {as bs : List α}
    (h : Along step ok s (as ++ bs)) (hrun : run step s as = some t) :
    Along step ok t bs := by
  induction as generalizing s with
  | nil =>
      simp only [run_nil, Option.some.injEq] at hrun
      exact hrun ▸ h
  | cons a as ih =>
      rw [run_cons] at hrun
      obtain ⟨s', hs, hrun⟩ := Option.bind_eq_some_iff.mp hrun
      exact ih (h.2 s' hs) hrun

/-- And it is met in the last step. -/
theorem Along.last {s t : σ} {as : List α} {a : α}
    (h : Along step ok s (as ++ [a])) (hrun : run step s as = some t) :
    ok t a := (h.suffix hrun).1

/-- Two runs that meet a condition meet it in one. -/
theorem Along.append {s t : σ} {as bs : List α} (has : Along step ok s as)
    (hrun : run step s as = some t) (hbs : Along step ok t bs) :
    Along step ok s (as ++ bs) := by
  induction as generalizing s with
  | nil =>
      simp only [run_nil, Option.some.injEq] at hrun
      exact hrun ▸ hbs
  | cons a as ih =>
      refine ⟨has.1, fun s' hs => ih (has.2 s' hs) ?_⟩
      rw [run_cons, hs] at hrun
      exact hrun

section embedding

variable {τ : Type u} {β : Type v} {step₂ : τ → β → Option τ}
  {ok₂ : τ → β → Prop} {lift : σ → τ} {f : α → β}

/-- A system that takes the steps of another has its runs. -/
theorem run_map
    (hlift : ∀ s a, step₂ (lift s) (f a) = (step s a).map lift) (s : σ)
    (acts : List α) :
    run step₂ (lift s) (acts.map f) = (run step s acts).map lift := by
  induction acts generalizing s with
  | nil => rfl
  | cons a rest ih =>
      rw [List.map_cons, run_cons, run_cons, hlift]
      cases step s a with
      | none => rfl
      | some s' => exact ih s'

/-- And a condition met along a run is met along its image. -/
theorem Along.map
    (hlift : ∀ s a, step₂ (lift s) (f a) = (step s a).map lift)
    (hok : ∀ s a, ok s a → ok₂ (lift s) (f a)) {s : σ} {acts : List α}
    (h : Along step ok s acts) : Along step₂ ok₂ (lift s) (acts.map f) := by
  induction acts generalizing s with
  | nil => exact trivial
  | cons a rest ih =>
      refine ⟨hok s a h.1, fun t ht => ?_⟩
      rw [hlift] at ht
      obtain ⟨s', hs', rfl⟩ := Option.map_eq_some_iff.mp ht
      exact ih (h.2 s' hs')

/-- A condition met along an image is met along the run. -/
theorem Along.of_map
    (hlift : ∀ s a, step₂ (lift s) (f a) = (step s a).map lift)
    (hok : ∀ s a, ok₂ (lift s) (f a) → ok s a) {s : σ} {acts : List α}
    (h : Along step₂ ok₂ (lift s) (acts.map f)) : Along step ok s acts := by
  induction acts generalizing s with
  | nil => exact trivial
  | cons a rest ih =>
      refine ⟨hok s a h.1, fun t ht => ih (h.2 (lift t) ?_)⟩
      rw [hlift, ht]
      rfl

end embedding

/-- The run rule: what every conditional step preserves, every
conditional run preserves. -/
theorem run_induct {Inv : σ → Prop}
    (hstep : ∀ s a s', ok s a → Inv s → step s a = some s' → Inv s') :
    ∀ {acts : List α} {s s' : σ}, Along step ok s acts → Inv s →
      run step s acts = some s' → Inv s' := by
  intro acts
  induction acts with
  | nil =>
      intro s s' _ hinv hrun
      simp only [run_nil, Option.some.injEq] at hrun
      exact hrun ▸ hinv
  | cons a rest ih =>
      intro s s' halong hinv hrun
      rw [run_cons] at hrun
      obtain ⟨t, ht, hrun⟩ := Option.bind_eq_some_iff.mp hrun
      exact ih (halong.2 t ht) (hstep s a t halong.1 hinv ht) hrun

/-- The same for an invariant over what was done so far. -/
theorem run_history {Inv : List α → σ → Prop}
    (hstep : ∀ past s a s', ok s a → Inv past s → step s a = some s' →
      Inv (past ++ [a]) s') :
    ∀ {acts past : List α} {s s' : σ}, Along step ok s acts → Inv past s →
      run step s acts = some s' → Inv (past ++ acts) s' := by
  intro acts
  induction acts with
  | nil =>
      intro past s s' _ hinv hrun
      simp only [run_nil, Option.some.injEq] at hrun
      rw [List.append_nil]
      exact hrun ▸ hinv
  | cons a rest ih =>
      intro past s s' halong hinv hrun
      rw [run_cons] at hrun
      obtain ⟨t, ht, hrun⟩ := Option.bind_eq_some_iff.mp hrun
      rw [List.append_cons]
      exact ih (halong.2 t ht) (hstep past s a t halong.1 hinv ht) hrun

section projection

variable {β : Type v} {V : Type u} {own : α → Option β} {view : σ → V}
  {viewStep : V → β → V} {Inv : σ → Prop}

/-- Where every action moves what one party sees as its own part in the
action says, and leaves it alone if it has none, a run moves it as the
party's own parts say in turn. -/
theorem view_run
    (hstep : ∀ s a s', ok s a → Inv s → step s a = some s' → Inv s')
    (hview : ∀ s a s', ok s a → Inv s → step s a = some s' →
      view s' = ((own a).map (viewStep (view s))).getD (view s)) :
    ∀ {acts : List α} {s s' : σ}, Along step ok s acts → Inv s →
      run step s acts = some s' →
      view s' = (acts.filterMap own).foldl viewStep (view s) := by
  intro acts
  induction acts with
  | nil =>
      intro s s' _ _ hrun
      simp only [run_nil, Option.some.injEq] at hrun
      rw [hrun]
      rfl
  | cons a rest ih =>
      intro s s' halong hinv hrun
      rw [run_cons] at hrun
      obtain ⟨t, ht, hrun⟩ := Option.bind_eq_some_iff.mp hrun
      rw [ih (halong.2 t ht) (hstep s a t halong.1 hinv ht) hrun,
        hview s a t halong.1 hinv ht]
      cases hown : own a with
      | none => rw [List.filterMap_cons_none hown]; rfl
      | some b => rw [List.filterMap_cons_some hown]; rfl

/-- So two runs with the same parts of that party look the same to it. -/
theorem view_runs
    (hstep : ∀ s a s', ok s a → Inv s → step s a = some s' → Inv s')
    (hview : ∀ s a s', ok s a → Inv s → step s a = some s' →
      view s' = ((own a).map (viewStep (view s))).getD (view s))
    {as bs : List α} {s a b : σ} (has : Along step ok s as)
    (hbs : Along step ok s bs) (hinv : Inv s)
    (hown : as.filterMap own = bs.filterMap own)
    (ha : run step s as = some a) (hb : run step s bs = some b) :
    view a = view b := by
  rw [view_run hstep hview has hinv ha, view_run hstep hview hbs hinv hb,
    hown]

end projection

/-- Where a violated condition shows at once, a run meets the condition iff
every state it passes is good. -/
theorem along_iff {Inv P : σ → Prop} (hgood : ∀ s, Inv s → P s)
    (hstep : ∀ s a s', ok s a → Inv s → step s a = some s' → Inv s')
    (hbad : ∀ s a, Inv s → ¬ ok s a → ∃ s', step s a = some s' ∧ ¬ P s') :
    ∀ {acts : List α} {s : σ}, Inv s →
      ((∀ as bs s', as ++ bs = acts → run step s as = some s' → P s')
        ↔ Along step ok s acts) := by
  intro acts s hinv
  constructor
  · intro hall
    induction acts generalizing s with
    | nil => exact trivial
    | cons a rest ih =>
        have hok : ok s a := by
          refine Classical.byContradiction fun hnot => ?_
          obtain ⟨s', hs', hP⟩ := hbad s a hinv hnot
          refine hP (hall [a] rest s' rfl ?_)
          rw [run_cons, hs']
          rfl
        refine ⟨hok, fun s' hs' => ?_⟩
        refine ih (hstep s a s' hok hinv hs') fun as bs t has hrun => ?_
        refine hall (a :: as) bs t (congrArg (a :: ·) has) ?_
        rw [run_cons, hs']
        exact hrun
  · intro halong as bs s' has hrun
    subst has
    exact hgood s' (run_induct hstep halong.prefix hinv hrun)

/-- Reachability: some list of actions leads there. -/
def Reachable (step : σ → α → Option σ) (init s : σ) : Prop :=
  ∃ acts, run step init acts = some s

/-- The unconditional run rule, on reachable states. -/
theorem Reachable.induct {Inv : σ → Prop} {init : σ} (hinit : Inv init)
    (hstep : ∀ s a s', Inv s → step s a = some s' → Inv s') {s : σ}
    (hs : Reachable step init s) : Inv s := by
  obtain ⟨acts, hrun⟩ := hs
  exact run_induct (fun s a s' _ hi hs => hstep s a s' hi hs)
    (along_true init acts) hinit hrun

end Sidevers.Lib
