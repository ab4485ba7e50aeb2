/-
Readers: state transformers that may fail, over a state that is advanced
over symbols.

`adv s bs s'` says that a reader going from `s` to `s'` passed the symbols
`bs`. `Consumes r Q` says that whenever `r` succeeds it passed some symbols
and these stand in `Q` to what it returned. The rules follow the structure
of the reader.
-/
import Mathlib.Data.List.Basic

namespace Sidevers.Lib

variable {σ ε β α γ : Type}

/-- How a state is advanced: not at all, or over one stretch after the
other. -/
structure Advance (σ β : Type) where
  adv : σ → List β → σ → Prop
  nil : ∀ s, adv s [] s
  append : ∀ {s t u x y}, adv s x t → adv t y u → adv s (x ++ y) u

/-- Where the reader succeeds, what it passed stands in the relation to what
it returned. -/
def Consumes (A : Advance σ β) (r : StateT σ (Except ε) α)
    (Q : α → List β → Prop) : Prop :=
  ∀ s a s', r.run s = .ok (a, s') → ∃ bs, A.adv s bs s' ∧ Q a bs

namespace Consumes

variable {A : Advance σ β} {r : StateT σ (Except ε) α}
  {P Q : α → List β → Prop}

theorem mono (h : Consumes A r P) (hPQ : ∀ a bs, P a bs → Q a bs) :
    Consumes A r Q := by
  intro s a s' hrun
  obtain ⟨bs, hadv, hP⟩ := h s a s' hrun
  exact ⟨bs, hadv, hPQ a bs hP⟩

theorem pure {a : α} (h : Q a []) :
    Consumes A (Pure.pure a : StateT σ (Except ε) α) Q := by
  intro s a' s' hrun
  cases hrun
  exact ⟨[], A.nil s, h⟩

theorem throw {e : ε} :
    Consumes A (MonadExcept.throw e : StateT σ (Except ε) α) Q := by
  intro s a s' hrun
  cases hrun

theorem throw_bind {e : ε} {f : γ → StateT σ (Except ε) α} :
    Consumes A (MonadExcept.throw e >>= f) Q := by
  intro s a s' hrun
  cases hrun

/-- The symbols of the first reader, then those of the second. -/
theorem bind {f : α → StateT σ (Except ε) γ} {R : γ → List β → Prop}
    (hr : Consumes A r P)
    (hf : ∀ a x, P a x → Consumes A (f a) fun c y => R c (x ++ y)) :
    Consumes A (r >>= f) R := by
  intro s c s' hrun
  rw [StateT.run_bind] at hrun
  cases hfirst : r.run s with
  | error e =>
      rw [hfirst] at hrun
      cases hrun
  | ok p =>
      obtain ⟨a, t⟩ := p
      rw [hfirst] at hrun
      obtain ⟨x, hx, hP⟩ := hr s a t hfirst
      obtain ⟨y, hy, hR⟩ := hf a x hP t c s' hrun
      exact ⟨x ++ y, A.append hx hy, hR⟩

theorem map {f : α → γ} {R : γ → List β → Prop} (h : Consumes A r P)
    (hPR : ∀ a bs, P a bs → R (f a) bs) : Consumes A (f <$> r) R := by
  rw [map_eq_pure_bind]
  refine h.bind fun a bs hP => .pure ?_
  rw [List.append_nil]
  exact hPR a bs hP

theorem ite {p : Prop} [Decidable p] {r' : StateT σ (Except ε) α}
    (ht : p → Consumes A r Q) (hf : ¬ p → Consumes A r' Q) :
    Consumes A (if p then r else r') Q := by
  split
  case isTrue h => exact ht h
  case isFalse h => exact hf h

end Consumes

end Sidevers.Lib
