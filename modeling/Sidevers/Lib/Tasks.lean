/-
Tasks that share a state and go on one at a time, each from one point where it
lets the others in to its next.

An invariant says something of the shared state and of the tasks, in whatever
order they stand. `tasks_inv_step` is the rule for it: put the task that goes
on in front, and show the invariant with its next point in its place.
-/
import Mathlib.Data.List.Perm.Basic
import Sidevers.Lib.Run

namespace Sidevers.Lib

universe u v w

/-- The shared state, and the tasks in the order they began. -/
structure Tasks (σ : Type u) (τ : Type v) where
  shared : σ
  tasks : List τ

/-- What can happen. -/
inductive TasksAction (ρ : Type w) where
  | begin (request : ρ)
  /-- A task goes on. -/
  | resume (i : Nat)

section step

variable {σ : Type u} {τ : Type v} {ρ : Type w}

/-- The effect of an action, given where a request begins and how a task goes
on; `none` when it is not enabled. -/
def tasksStep (start : ρ → τ) (resume : σ → τ → Option (σ × τ))
    (w : Tasks σ τ) : TasksAction ρ → Option (Tasks σ τ)
  | .begin request => some { w with tasks := w.tasks ++ [start request] }
  | .resume i =>
      match w.tasks[i]? with
      | none => none
      | some task =>
          match resume w.shared task with
          | none => none
          | some (shared, task) => some ⟨shared, w.tasks.set i task⟩

/-- A task goes on. -/
theorem tasksStep_resume (start : ρ → τ) {resume : σ → τ → Option (σ × τ)}
    {s s' : σ} {tasks : List τ} {i : Nat} {task task' : τ}
    (htask : tasks[i]? = some task) (h : resume s task = some (s', task')) :
    tasksStep start resume ⟨s, tasks⟩ (.resume i)
      = some ⟨s', tasks.set i task'⟩ := by
  simp only [tasksStep, htask, h]

/-- A condition on each step of a task, given the others. -/
def EachResume (ok : σ → τ → List τ → Prop) (w : Tasks σ τ) :
    TasksAction ρ → Prop
  | .begin _ => True
  | .resume i => ∀ task, w.tasks[i]? = some task →
      ok w.shared task (w.tasks.eraseIdx i)

instance {ok : σ → τ → List τ → Prop} [∀ s t ts, Decidable (ok s t ts)]
    (w : Tasks σ τ) : ∀ a : TasksAction ρ, Decidable (EachResume ok w a)
  | .begin _ => .isTrue trivial
  | .resume _ => Option.decidableForallMem _

theorem eachResume_of {ok : σ → τ → List τ → Prop} {w : Tasks σ τ} {i : Nat}
    {task : τ} (htask : w.tasks[i]? = some task)
    (hok : ok w.shared task (w.tasks.eraseIdx i)) :
    EachResume ok w (.resume i : TasksAction ρ) := by
  intro task' htask'
  rw [htask, Option.some.injEq] at htask'
  exact htask' ▸ hok

/-- The task that goes on, and the others. -/
theorem perm_eraseIdx {xs : List τ} {i : Nat} {x : τ} (h : xs[i]? = some x) :
    xs.Perm (x :: xs.eraseIdx i) := by
  obtain ⟨hi, rfl⟩ := List.getElem?_eq_some_iff.mp h
  exact (List.getElem_cons_eraseIdx_perm hi).symm

/-- It has gone on, and the others have not. -/
theorem perm_set {xs : List τ} {i : Nat} {x : τ} (h : xs[i]? = some x)
    (y : τ) : (xs.set i y).Perm (y :: xs.eraseIdx i) :=
  List.set_perm_cons_eraseIdx (List.getElem?_eq_some_iff.mp h).1 y

/-- What a step does. -/
theorem tasksStep_cases {start : ρ → τ} {resume : σ → τ → Option (σ × τ)}
    {w w' : Tasks σ τ} {a : TasksAction ρ}
    (h : tasksStep start resume w a = some w') :
    (∃ request, a = .begin request
        ∧ w' = { w with tasks := w.tasks ++ [start request] })
      ∨ ∃ i task s' task', a = .resume i ∧ w.tasks[i]? = some task
        ∧ resume w.shared task = some (s', task')
        ∧ w' = ⟨s', w.tasks.set i task'⟩ := by
  cases a with
  | begin request => exact .inl ⟨request, rfl, (Option.some.inj h).symm⟩
  | resume i =>
      simp only [tasksStep] at h
      split at h
      case h_1 => cases h
      case h_2 task htask =>
        split at h
        case h_1 => cases h
        case h_2 s' task' hnext =>
          exact .inr ⟨i, task, s', task', rfl, htask, hnext,
            (Option.some.inj h).symm⟩

/-- What a step of one task keeps, whatever the others are, every step
keeps. -/
theorem tasks_inv_step {Inv : σ → List τ → Prop} {ok : σ → τ → List τ → Prop}
    {start : ρ → τ} {resume : σ → τ → Option (σ × τ)}
    (hperm : ∀ {s tasks tasks'}, tasks.Perm tasks' → Inv s tasks →
      Inv s tasks')
    (hbegin : ∀ {s tasks} request, Inv s tasks →
      Inv s (start request :: tasks))
    (hresume : ∀ {s task rest s' task'}, ok s task rest →
      Inv s (task :: rest) → resume s task = some (s', task') →
      Inv s' (task' :: rest))
    (w : Tasks σ τ) (a : TasksAction ρ) (w' : Tasks σ τ)
    (hok : EachResume ok w a) (hinv : Inv w.shared w.tasks)
    (h : tasksStep start resume w a = some w') :
    Inv w'.shared w'.tasks := by
  rcases tasksStep_cases h with ⟨request, rfl, rfl⟩
    | ⟨i, task, s', task', rfl, htask, hnext, rfl⟩
  · exact hperm (List.perm_append_singleton _ _).symm (hbegin request hinv)
  · exact hperm (perm_set htask _).symm
      (hresume (hok task htask) (hperm (perm_eraseIdx htask) hinv) hnext)

end step

end Sidevers.Lib
