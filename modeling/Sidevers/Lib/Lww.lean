/-
Last-writer-wins registers with unconditional writes.

A register holds at most one value, and every value has a stamp. Writers
either *offer* a value, which replaces the current one unless that is
stamped strictly later, or *overwrite* the register, value or not, whatever
it holds. Sequences of such writes collapse: what a batch of writes does to
a register is one `Effect`, computed without looking at the register
(`collapse`, `apply_collapse`).

# When deliveries converge

Offers alone commute up to ties; an overwrite commutes with nothing it does
not agree with. `Convergent x D` says exactly when every delivery of a
family `D` of effects, in any order and with any repetition, ends in one
value: some value is left alone by every effect of the family and is either
the register's first value or what some effect writes. `converges_iff` is
the equivalence.
-/
import Mathlib.Order.Lattice
import Mathlib.Data.List.Basic

namespace Sidevers.Lib

universe u v w

/-- What a batch of writes does to a register: nothing, an offer, or an
overwrite. -/
inductive Effect (V : Type u) where
  | keep
  | put (v : V)
  | set (c : Option V)

namespace Effect

variable {V : Type u} {T : Type v} [LinearOrder T] (stamp : V → T)

/-- Offer a value: it replaces nothing stamped strictly later. -/
def putValue (v : V) : Option V → Option V
  | none => some v
  | some w => if stamp w ≤ stamp v then some v else some w

/-- The effect on a register. -/
def apply : Effect V → Option V → Option V
  | keep, x => x
  | put v, x => putValue stamp v x
  | set c, _ => c

/-- The effect followed by an offer. -/
def thenPut (v : V) : Effect V → Effect V
  | keep => put v
  | put w => if stamp w ≤ stamp v then put v else put w
  | set c => set (putValue stamp v c)

/-- An offer after a batch is the batch's collapse with it: of two offers
the later stamped one is left, the later one on a tie. -/
theorem apply_thenPut (e : Effect V) (v : V) (x : Option V) :
    (e.thenPut stamp v).apply stamp x
      = putValue stamp v (e.apply stamp x) := by
  cases e with
  | keep => rfl
  | set c => rfl
  | put w =>
      by_cases hle : stamp w ≤ stamp v
      · cases x with
        | none => simp [thenPut, apply, putValue, hle]
        | some u =>
            by_cases huw : stamp u ≤ stamp w
            · have huv : stamp u ≤ stamp v := le_trans huw hle
              simp [thenPut, apply, putValue, hle, huw, huv]
            · simp [thenPut, apply, putValue, hle, huw]
      · cases x with
        | none => simp [thenPut, apply, putValue, hle]
        | some u =>
            by_cases huw : stamp u ≤ stamp w
            · simp [thenPut, apply, putValue, hle, huw]
            · have huv : ¬ stamp u ≤ stamp v := by
                intro huv
                exact huw (le_trans huv (le_of_lt (not_le.mp hle)))
              simp [thenPut, apply, putValue, hle, huw, huv]

/-- Two effects in sequence are one. -/
def andThen (e : Effect V) : Effect V → Effect V
  | keep => e
  | put v => e.thenPut stamp v
  | set c => set c

theorem apply_andThen (e e' : Effect V) (x : Option V) :
    (e.andThen stamp e').apply stamp x = e'.apply stamp (e.apply stamp x) := by
  cases e' with
  | keep => rfl
  | put v => exact apply_thenPut stamp e v x
  | set c => rfl

/-- A list of effects in sequence is one. -/
def collapse (es : List (Effect V)) : Effect V :=
  es.foldl (andThen stamp) keep

/-- A batch that only ever offers `v` is nothing or an offer of `v`. -/
theorem collapse_of_offers {v : V} {es : List (Effect V)}
    (h : ∀ e ∈ es, e = keep ∨ e = put v) :
    collapse stamp es = keep ∨ collapse stamp es = put v := by
  have hfrom : ∀ (es : List (Effect V)) (e : Effect V),
      (∀ e ∈ es, e = keep ∨ e = put v) → (e = keep ∨ e = put v) →
        es.foldl (andThen stamp) e = keep
          ∨ es.foldl (andThen stamp) e = put v := by
    intro es
    induction es with
    | nil => exact fun _ _ he => he
    | cons e' es ih =>
        intro e hes he
        refine ih _ (fun f hf => hes f (List.mem_cons_of_mem _ hf)) ?_
        rcases hes e' List.mem_cons_self with rfl | rfl
        · exact he
        · refine Or.inr ?_
          rcases he with rfl | rfl
          · rfl
          · exact if_pos le_rfl
  exact hfrom es keep h (Or.inl rfl)

-- ================================================= settled, written

/-- The effect leaves the value `c` alone. -/
def Settles (c : Option V) : Effect V → Prop
  | keep => True
  | put v => c = some v ∨ ∃ w, c = some w ∧ stamp v < stamp w
  | set c' => c' = c

/-- The value the effect would write is `c`. -/
def Writes (c : Option V) : Effect V → Prop
  | keep => False
  | put v => c = some v
  | set c' => c' = c

theorem settles_iff {e : Effect V} {c : Option V} :
    e.Settles stamp c ↔ e.apply stamp c = c := by
  cases e with
  | keep => exact ⟨fun _ => rfl, fun _ => trivial⟩
  | set c' => exact Iff.rfl
  | put v =>
      cases c with
      | none => simp [Settles, apply, putValue]
      | some w =>
          by_cases hle : stamp w ≤ stamp v
          · simp only [Settles, apply, putValue, if_pos hle,
              Option.some.injEq]
            constructor
            · intro h
              rcases h with heq | ⟨w', heq, hlt⟩
              · exact heq.symm
              · subst heq
                exact absurd hlt (not_lt.mpr hle)
            · exact fun heq => Or.inl heq.symm
          · simp only [Settles, apply, putValue, if_neg hle, iff_true]
            exact Or.inr ⟨w, rfl, not_le.mp hle⟩

/-- An effect leaves the register alone or writes its value. -/
theorem apply_eq_or_writes (e : Effect V) (x : Option V) :
    e.apply stamp x = x ∨ e.Writes (e.apply stamp x) := by
  cases e with
  | keep => exact Or.inl rfl
  | set c => exact Or.inr rfl
  | put v =>
      cases x with
      | none => exact Or.inr rfl
      | some w =>
          by_cases hle : stamp w ≤ stamp v
          · exact Or.inr (by simp [Writes, apply, putValue, hle])
          · exact Or.inl (by simp [apply, putValue, hle])

-- ========================================================== deliveries

/-- A register after a list of effects. -/
def run (x : Option V) (es : List (Effect V)) : Option V :=
  es.foldl (fun x e => e.apply stamp x) x

@[simp] theorem run_nil (x : Option V) : run stamp x [] = x := rfl

@[simp] theorem run_cons (x : Option V) (e : Effect V)
    (es : List (Effect V)) :
    run stamp x (e :: es) = run stamp (e.apply stamp x) es := rfl

theorem run_append (x : Option V) (es fs : List (Effect V)) :
    run stamp x (es ++ fs) = run stamp (run stamp x es) fs :=
  List.foldl_append ..

theorem apply_collapse (es : List (Effect V)) (x : Option V) :
    (collapse stamp es).apply stamp x = run stamp x es := by
  have hfrom : ∀ (es : List (Effect V)) (e : Effect V),
      (es.foldl (andThen stamp) e).apply stamp x
        = run stamp (e.apply stamp x) es := by
    intro es
    induction es with
    | nil => exact fun _ => rfl
    | cons e' es ih =>
        intro e
        rw [List.foldl_cons, ih, apply_andThen, run_cons]
  exact hfrom es keep

/-- A delivery of `D`: nothing but its elements, each of them at least
once. -/
def Delivers {α : Type w} (D w : List α) : Prop := ∀ a, a ∈ w ↔ a ∈ D

theorem run_eq_or_writes (x : Option V) (es : List (Effect V)) :
    run stamp x es = x ∨ ∃ e ∈ es, e.Writes (run stamp x es) := by
  induction es generalizing x with
  | nil => exact Or.inl rfl
  | cons e es ih =>
      rw [run_cons]
      rcases ih (e.apply stamp x) with heq | ⟨e', he', hw⟩
      · rw [heq]
        rcases apply_eq_or_writes stamp e x with hsame | hw
        · exact Or.inl hsame
        · exact Or.inr ⟨e, List.mem_cons_self, hw⟩
      · exact Or.inr ⟨e', List.mem_cons_of_mem _ he', hw⟩

/-- Some value is left alone by every effect, and is the first value or
what one of them writes. -/
def Convergent (x : Option V) (D : List (Effect V)) : Prop :=
  ∃ c, (∀ e ∈ D, e.Settles stamp c) ∧ (c = x ∨ ∃ e ∈ D, e.Writes c)

variable {stamp}

theorem run_of_settles {c : Option V} {es : List (Effect V)}
    (h : ∀ e ∈ es, e.Settles stamp c) : run stamp c es = c := by
  induction es with
  | nil => rfl
  | cons e es ih =>
      rw [run_cons, (settles_iff stamp).mp (h e List.mem_cons_self)]
      exact ih fun e he => h e (List.mem_cons_of_mem _ he)

/-- The value a convergent family writes is written even over what the
register holds on the way: by an overwrite, or by an offer that nothing on
the way is stamped later than. -/
private theorem exists_decisive {x c : Option V} {D : List (Effect V)}
    (hset : ∀ e ∈ D, e.Settles stamp c) (hw : ∃ e ∈ D, e.Writes c)
    (hx : ¬ ∀ e ∈ D, e.Settles stamp x) :
    ∃ e ∈ D, e.apply stamp x = c ∧ ∀ e' ∈ D, ∀ v, e'.Writes (some v) →
      e.apply stamp (some v) = c := by
  by_cases hover : ∃ e ∈ D, e = set c
  · obtain ⟨e, he, heq⟩ := hover
    subst heq
    exact ⟨_, he, rfl, fun _ _ _ _ => rfl⟩
  · obtain ⟨e, he, hwrites⟩ := hw
    -- no effect of the family overwrites: an overwrite would agree with `c`
    have hput : ∀ e' ∈ D, ∀ c', e' ≠ set c' := by
      intro e' he' c' heq
      subst heq
      have hagree : c' = c := hset _ he'
      exact hover ⟨_, he', by rw [hagree]⟩
    cases e with
    | keep => exact hwrites.elim
    | set c' => exact absurd rfl (hput _ he c')
    | put w =>
        have hc : c = some w := hwrites
        subst hc
        refine ⟨put w, he, ?_, ?_⟩
        · cases x with
          | none => rfl
          | some u =>
              by_cases hle : stamp u ≤ stamp w
              · simp [apply, putValue, hle]
              · -- then every offer is stamped below `u`: `x` is settled
                refine absurd (fun e' he' => ?_) hx
                cases e' with
                | keep => exact trivial
                | set c' => exact absurd rfl (hput _ he' c')
                | put v =>
                    refine Or.inr ⟨u, rfl, ?_⟩
                    rcases hset _ he' with heq | ⟨w', heq, hlt⟩
                    · injection heq with heq
                      rw [← heq]
                      exact not_le.mp hle
                    · injection heq with heq
                      rw [← heq] at hlt
                      exact lt_trans hlt (not_le.mp hle)
        · intro e' he' v hv
          cases e' with
          | keep => exact hv.elim
          | set c' => exact absurd rfl (hput _ he' c')
          | put v' =>
              injection (hv : some v = some v') with hv
              subst hv
              have hle : stamp v ≤ stamp w := by
                rcases hset _ he' with heq | ⟨w', heq, hlt⟩
                · injection heq with heq
                  rw [heq]
                · injection heq with heq
                  rw [← heq] at hlt
                  exact le_of_lt hlt
              simp [apply, putValue, hle]

/-- An overwrite by `none` in a family that settles at `c` leaves `c`. -/
private theorem eq_of_writes_none {c : Option V} {D : List (Effect V)}
    (hset : ∀ e ∈ D, e.Settles stamp c) {e : Effect V} (he : e ∈ D)
    (hw : e.Writes none) : c = none := by
  have h := hset e he
  cases e with
  | keep => exact hw.elim
  | put v => cases hw
  | set c' => exact h.symm.trans hw

variable {α : Type w} {f : α → Effect V}

/-- Every delivery of a convergent family ends in the same value. -/
theorem Convergent.run_eq {x : Option V} {D : List α}
    (h : Convergent stamp x (D.map f)) :
    ∃ c, ∀ w, Delivers D w → run stamp x (w.map f) = c := by
  obtain ⟨c, hset, hc⟩ := h
  have hmap : ∀ {w}, Delivers D w → ∀ e, e ∈ w.map f ↔ e ∈ D.map f := by
    intro w hw e
    simp only [List.mem_map, hw _]
  by_cases hx : ∀ e ∈ D.map f, e.Settles stamp x
  · exact ⟨x, fun w hw => run_of_settles fun e he => hx e ((hmap hw e).mp he)⟩
  · have hwrites : ∃ e ∈ D.map f, e.Writes c := by
      rcases hc with heq | hwrites
      · exact absurd (heq ▸ hset) hx
      · exact hwrites
    obtain ⟨d, hd, hfirst, hlater⟩ := exists_decisive hset hwrites hx
    refine ⟨c, fun w hw => ?_⟩
    obtain ⟨pre, post, heq⟩ := List.append_of_mem ((hmap hw d).mpr hd)
    have hmem : ∀ e, e ∈ pre ∨ e ∈ post → e ∈ D.map f := by
      intro e he
      refine (hmap hw e).mp ?_
      rw [heq, List.mem_append, List.mem_cons]
      rcases he with he | he
      · exact Or.inl he
      · exact Or.inr (Or.inr he)
    -- whatever the register holds when the decisive effect arrives
    have hmid : d.apply stamp (run stamp x pre) = c := by
      rcases run_eq_or_writes stamp x pre with hsame | ⟨e, he, hwe⟩
      · rw [hsame]
        exact hfirst
      · cases hval : run stamp x pre with
        | some v =>
            rw [hval] at hwe
            exact hlater e (hmem e (Or.inl he)) v hwe
        | none =>
            rw [hval] at hwe
            have hnone := eq_of_writes_none hset (hmem e (Or.inl he)) hwe
            rw [← hnone]
            exact (settles_iff stamp).mp (hset d hd)
    rw [heq, run_append, run_cons, hmid]
    exact run_of_settles fun e he => hset e (hmem e (Or.inr he))

/-- A value every delivery ends in is settled: it is one more delivery away
from itself under every effect. -/
theorem settles_of_run_eq {x c : Option V} {D : List α}
    (h : ∀ w, Delivers D w → run stamp x (w.map f) = c) :
    ∀ e ∈ D.map f, e.Settles stamp c := by
  intro e he
  obtain ⟨a, ha, rfl⟩ := List.mem_map.mp he
  have hD : run stamp x (D.map f) = c := h D fun _ => Iff.rfl
  have hagain : run stamp x ((D ++ [a]).map f) = c := by
    refine h _ fun b => ?_
    rw [List.mem_append, List.mem_singleton]
    constructor
    · intro hb
      rcases hb with hb | rfl
      · exact hb
      · exact ha
    · exact Or.inl
  rw [List.map_append, run_append, hD] at hagain
  exact (settles_iff stamp).mpr hagain

/-- A family whose deliveries all end in one value is convergent. -/
theorem convergent_of_run_eq {x c : Option V} {D : List α}
    (h : ∀ w, Delivers D w → run stamp x (w.map f) = c) :
    Convergent stamp x (D.map f) := by
  refine ⟨c, settles_of_run_eq h, ?_⟩
  have hD : run stamp x (D.map f) = c := h D fun _ => Iff.rfl
  rcases run_eq_or_writes stamp x (D.map f) with hsame | hw
  · exact Or.inl (hD.symm.trans hsame)
  · rw [hD] at hw
    exact Or.inr hw

/-- Every delivery ends in `x` exactly when every effect leaves it alone. -/
theorem run_eq_self_iff {x : Option V} {D : List α} :
    (∀ w, Delivers D w → run stamp x (w.map f) = x)
      ↔ ∀ e ∈ D.map f, e.Settles stamp x := by
  constructor
  · exact settles_of_run_eq
  · intro h w hw
    refine run_of_settles fun e he => h e ?_
    simp only [List.mem_map, hw _] at he ⊢
    exact he

/-- Any two deliveries end in the same value exactly for the convergent
families. -/
theorem converges_iff {x : Option V} {D : List α} :
    (∀ w w', Delivers D w → Delivers D w' →
        run stamp x (w.map f) = run stamp x (w'.map f))
      ↔ Convergent stamp x (D.map f) := by
  constructor
  · intro h
    exact convergent_of_run_eq fun w hw => h w D hw fun _ => Iff.rfl
  · intro h w w' hw hw'
    obtain ⟨c, hc⟩ := h.run_eq
    rw [hc w hw, hc w' hw']

end Effect

end Sidevers.Lib
