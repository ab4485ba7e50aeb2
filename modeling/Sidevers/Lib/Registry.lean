/-
Sessions that register under a key, and are taken off it again by the key.

# The registry

One entry a key: a session that registers replaces the entry of an earlier
one. When a session ends, a cleanup is left to run at any later time; it
drops the entry of the key, whichever session's it is. An entry may also be
dropped for other reasons.

# What holds

Every entry is that of a session that runs or is still to be cleaned up
(`Tracked`). A key has an entry iff a session registered under it and nothing
took the entry away since (`entry_iff_registered`). A system follows a
registry if each of its steps is a step of the registry or nothing to it
(`Follows`); what holds of the registry's runs then holds of the system's.
-/
import Sidevers.Lib.Run
import Sidevers.Lib.Table
import Mathlib.Data.List.Induction

namespace Sidevers.Lib

universe u v w

/-- The entries, the sessions and the cleanups still to run. -/
structure Registry (K : Type u) where
  /-- By the session's number: its key, and whether it has registered. -/
  sessions : Table Nat (K × Bool)
  cleanups : Table Nat K
  entries : Table K Nat

/-- What happens to a registry. -/
inductive RegistryEvent (K : Type u) where
  | opened (id : Nat) (k : K)
  | registered (id : Nat) (k : K)
  | closed (id : Nat) (k : K)
  | cleaned (id : Nat) (k : K)
  | dropped (k : K)

namespace Registry

variable {K : Type u}

/-- Nothing has happened yet. -/
def empty : Registry K := ⟨.empty, .empty, .empty⟩

/-- The event takes the key's entry away, if there is one. -/
def Unregisters (k : K) : RegistryEvent K → Prop
  | .cleaned _ k' => k' = k
  | .dropped k' => k' = k
  | _ => False

/-- A session registered under the key, and nothing took the entry away
since. -/
def Registered (k : K) (es : List (RegistryEvent K)) : Prop :=
  ∃ before id after, es = before ++ .registered id k :: after
    ∧ ∀ e ∈ after, ¬ Unregisters k e

/-- A session runs under the key. -/
def Served (r : Registry K) (k : K) : Prop :=
  ∃ id ready, r.sessions id = some (k, ready)

/-- No registration and no cleanup is pending. -/
structure Settled (r : Registry K) : Prop where
  cleaned : ∀ id, r.cleanups id = none
  ready : ∀ id k, r.sessions id ≠ some (k, false)

/-- The registry is right about these keys. -/
structure Exact (r : Registry K) (member : K → Prop) : Prop where
  served : ∀ k, member k → r.Served k → r.entries k ≠ none
  running : ∀ k id, r.entries k = some id →
    ∃ ready, r.sessions id = some (k, ready)

/-- The invariant: an entry is of a session that runs or is still to be
cleaned up, and no session is both. -/
structure Tracked (r : Registry K) : Prop where
  entries : ∀ k id, r.entries k = some id →
    r.sessions id = some (k, true) ∨ r.cleanups id = some k
  apart : ∀ id k, r.cleanups id = some k → r.sessions id = none

theorem tracked_empty : Tracked (empty : Registry K) := ⟨nofun, nofun⟩

theorem registered_concat {k : K} {es : List (RegistryEvent K)}
    {e : RegistryEvent K} :
    Registered k (es ++ [e])
      ↔ (∃ id, e = .registered id k)
        ∨ (¬ Unregisters k e ∧ Registered k es) := by
  constructor
  · rintro ⟨before, id, after, heq, hafter⟩
    rcases List.eq_nil_or_concat after with rfl | ⟨after, e', rfl⟩
    · obtain ⟨-, he⟩ := List.append_inj' heq rfl
      cases he
      exact .inl ⟨id, rfl⟩
    · rw [List.concat_eq_append] at heq hafter
      rw [← List.cons_append, ← List.append_assoc] at heq
      obtain ⟨rfl, he⟩ := List.append_inj' heq rfl
      cases he
      refine .inr ⟨hafter _ (List.mem_append_right _ List.mem_cons_self),
        before, id, after, rfl, fun e he => ?_⟩
      exact hafter e (List.mem_append_left _ he)
  · rintro (⟨id, rfl⟩ | ⟨hkeeps, before, id, after, rfl, hafter⟩)
    · exact ⟨es, id, [], rfl, nofun⟩
    · refine ⟨before, id, after ++ [e], by simp, fun e' he' => ?_⟩
      rcases List.mem_append.mp he' with he' | he'
      · exact hafter e' he'
      · cases List.mem_singleton.mp he'
        exact hkeeps

section step

variable [DecidableEq K]

/-- The step function. -/
def step (r : Registry K) : RegistryEvent K → Option (Registry K)
  | .opened id k =>
      if (r.sessions id).isNone ∧ (r.cleanups id).isNone then
        some { r with sessions := r.sessions.insert id (k, false) }
      else none
  | .registered id k =>
      if r.sessions id = some (k, false) then
        some { r with
          sessions := r.sessions.insert id (k, true)
          entries := r.entries.insert k id }
      else none
  | .closed id k =>
      if r.sessions id = some (k, true) then
        some { r with
          sessions := r.sessions.erase id
          cleanups := r.cleanups.insert id k }
      else none
  | .cleaned id k =>
      if r.cleanups id = some k then
        some { r with
          cleanups := r.cleanups.erase id, entries := r.entries.erase k }
      else none
  | .dropped k => some { r with entries := r.entries.erase k }

-- =========================================================== the entries

theorem tracked_step {r r' : Registry K} {e : RegistryEvent K}
    (h : r.Tracked) (hstep : r.step e = some r') : r'.Tracked := by
  cases e with
  | opened id₀ k₀ =>
      simp only [step] at hstep
      split at hstep
      case isFalse => cases hstep
      case isTrue hfresh =>
          obtain ⟨hs₀, hc₀⟩ := hfresh
          cases hstep
          refine ⟨fun k id hentry => ?_, fun id k hc => ?_⟩
          · rcases h.entries k id hentry with hs | hc
            · refine .inl ((Table.insert_of_ne _ _ ?_).trans hs)
              rintro rfl
              rw [hs] at hs₀
              cases hs₀
            · exact .inr hc
          · refine (Table.insert_of_ne _ _ ?_).trans (h.apart id k hc)
            rintro rfl
            replace hc : r.cleanups id = some k := hc
            rw [hc] at hc₀
            cases hc₀
  | registered id₀ k₀ =>
      simp only [step] at hstep
      split at hstep
      case isFalse => cases hstep
      case isTrue hs₀ =>
          cases hstep
          refine ⟨fun k id hentry => ?_, fun id k hc => ?_⟩
          · rcases (Table.insert_eq_some_iff ..).mp hentry with
              ⟨rfl, rfl⟩ | ⟨-, hold⟩
            · exact .inl (Table.insert_self ..)
            · rcases h.entries k id hold with hs | hc
              · refine .inl ((Table.insert_of_ne _ _ ?_).trans hs)
                rintro rfl
                rw [hs] at hs₀
                cases hs₀
              · exact .inr hc
          · have hnone := h.apart id k hc
            refine (Table.insert_of_ne _ _ ?_).trans hnone
            rintro rfl
            rw [hs₀] at hnone
            cases hnone
  | closed id₀ k₀ =>
      simp only [step] at hstep
      split at hstep
      case isFalse => cases hstep
      case isTrue hs₀ =>
          cases hstep
          refine ⟨fun k id hentry => ?_, fun id k hc => ?_⟩
          · by_cases hid : id = id₀
            · subst hid
              rcases h.entries k id hentry with hs | hc
              · cases hs.symm.trans hs₀
                exact .inr (Table.insert_self ..)
              · rw [h.apart id k hc] at hs₀
                cases hs₀
            · rcases h.entries k id hentry with hs | hc
              · exact .inl ((Table.erase_of_ne _ hid).trans hs)
              · exact .inr ((Table.insert_of_ne _ _ hid).trans hc)
          · rcases (Table.insert_eq_some_iff ..).mp hc with
              ⟨rfl, -⟩ | ⟨hid, hold⟩
            · exact Table.erase_self ..
            · exact (Table.erase_of_ne _ hid).trans (h.apart id k hold)
  | cleaned id₀ k₀ =>
      simp only [step] at hstep
      split at hstep
      case isFalse => cases hstep
      case isTrue hc₀ =>
          cases hstep
          refine ⟨fun k id hentry => ?_, fun id k hc =>
            h.apart id k ((Table.erase_eq_some_iff ..).mp hc).2⟩
          obtain ⟨hne, hold⟩ := (Table.erase_eq_some_iff ..).mp hentry
          rcases h.entries k id hold with hs | hc
          · exact .inl hs
          · refine .inr ((Table.erase_of_ne _ ?_).trans hc)
            rintro rfl
            exact hne (Option.some.inj (hc.symm.trans hc₀))
  | dropped k₀ =>
      cases hstep
      exact ⟨fun k id hentry =>
        h.entries k id ((Table.erase_eq_some_iff ..).mp hentry).2, h.apart⟩

/-- A key has an entry after an event that registers it, or if it had one
and the event does not take it away. -/
theorem entries_step {r r' : Registry K} {e : RegistryEvent K}
    (hstep : r.step e = some r') (k : K) :
    r'.entries k ≠ none
      ↔ (∃ id, e = .registered id k)
        ∨ (¬ Unregisters k e ∧ r.entries k ≠ none) := by
  cases e with
  | opened id₀ k₀ =>
      simp only [step] at hstep
      split at hstep
      case isFalse => cases hstep
      case isTrue =>
          cases hstep
          simp [Unregisters]
  | registered id₀ k₀ =>
      simp only [step] at hstep
      split at hstep
      case isFalse => cases hstep
      case isTrue =>
          cases hstep
          rw [Table.insert_ne_none_iff]
          simp [Unregisters, eq_comm]
  | closed id₀ k₀ =>
      simp only [step] at hstep
      split at hstep
      case isFalse => cases hstep
      case isTrue =>
          cases hstep
          simp [Unregisters]
  | cleaned id₀ k₀ =>
      simp only [step] at hstep
      split at hstep
      case isFalse => cases hstep
      case isTrue =>
          cases hstep
          rw [Table.erase_ne_none_iff]
          simp [Unregisters, eq_comm]
  | dropped k₀ =>
      cases hstep
      show r.entries.erase k₀ k ≠ none ↔ _
      rw [Table.erase_ne_none_iff]
      simp [Unregisters, eq_comm]

/-- A key has an entry iff a session registered under it and nothing took
the entry away since. -/
theorem entry_iff_registered {r : Registry K} {es : List (RegistryEvent K)}
    (hrun : run step empty es = some r) (k : K) :
    r.entries k ≠ none ↔ Registered k es := by
  induction es using List.reverseRecOn generalizing r with
  | nil =>
      cases hrun
      refine ⟨fun h => absurd rfl h, ?_⟩
      rintro ⟨before, id, after, heq, -⟩
      cases before <;> cases heq
  | append_singleton es e ih =>
      rw [run_append] at hrun
      obtain ⟨r₁, hrun₁, hlast⟩ := Option.bind_eq_some_iff.mp hrun
      rw [run_cons] at hlast
      obtain ⟨r₂, hstep, hnil⟩ := Option.bind_eq_some_iff.mp hlast
      cases hnil
      rw [entries_step hstep, registered_concat, ih hrun₁]

/-- Once nothing is pending, the registry is right iff every one of these
keys that is served is registered. -/
theorem exact_iff {r : Registry K} {es : List (RegistryEvent K)}
    (hrun : run step empty es = some r) (hsettled : r.Settled)
    (member : K → Prop) :
    r.Exact member ↔ ∀ k, member k → r.Served k → Registered k es := by
  have htracked : r.Tracked :=
    Reachable.induct tracked_empty (fun _ _ _ => tracked_step) ⟨es, hrun⟩
  constructor
  · intro h k hmember hserved
    exact (entry_iff_registered hrun k).mp (h.served k hmember hserved)
  · intro h
    refine ⟨fun k hmember hserved =>
      (entry_iff_registered hrun k).mpr (h k hmember hserved), ?_⟩
    intro k id hentry
    rcases htracked.entries k id hentry with hs | hc
    · exact ⟨true, hs⟩
    · rw [hsettled.cleaned] at hc
      cases hc

-- ======================================================= systems

variable {σ : Type v} {α : Type w}

/-- The events of a run. -/
def trace (next : σ → α → Option σ) (event : σ → α → Option (RegistryEvent K))
    (s : σ) : List α → List (RegistryEvent K)
  | [] => []
  | a :: rest =>
      match next s a with
      | some s' => (event s a).toList ++ trace next event s' rest
      | none => []

/-- The event, if there is one, leads from one registry to the other. -/
def Moves (r : Registry K) (event : Option (RegistryEvent K))
    (r' : Registry K) : Prop :=
  match event with
  | some e => r.step e = some r'
  | none => r' = r

section rows

variable {S : Type v} {sessions : Table Nat S} {cleanups : Table Nat K}
  {entries : Table K Nat} {f : S → K × Bool} {id : Nat} {k : K}

/-- A session opens under a number not used before. -/
theorem moves_opened {row : S} (hs : sessions id = none)
    (hc : cleanups id = none) (hrow : f row = (k, false)) :
    Moves ⟨sessions.map f, cleanups, entries⟩ (some (.opened id k))
      ⟨(sessions.insert id row).map f, cleanups, entries⟩ := by
  rw [Table.map_insert, hrow]
  refine if_pos ⟨?_, ?_⟩
  · exact Option.isNone_iff_eq_none.mpr (congrArg (Option.map f) hs)
  · exact Option.isNone_iff_eq_none.mpr hc

theorem moves_registered {row row' : S} (hs : sessions id = some row)
    (hrow : f row = (k, false)) (hrow' : f row' = (k, true)) :
    Moves ⟨sessions.map f, cleanups, entries⟩ (some (.registered id k))
      ⟨(sessions.insert id row').map f, cleanups, entries.insert k id⟩ := by
  have hsession : sessions.map f id = some (k, false) :=
    (congrArg (Option.map f) hs).trans (congrArg some hrow)
  rw [Table.map_insert, hrow']
  exact if_pos hsession

theorem moves_closed {row : S} (hs : sessions id = some row)
    (hrow : f row = (k, true)) :
    Moves ⟨sessions.map f, cleanups, entries⟩ (some (.closed id k))
      ⟨(sessions.erase id).map f, cleanups.insert id k, entries⟩ := by
  have hsession : sessions.map f id = some (k, true) :=
    (congrArg (Option.map f) hs).trans (congrArg some hrow)
  rw [Table.map_erase]
  exact if_pos hsession

omit [DecidableEq K] in
/-- A registered session goes on. -/
theorem map_insert_ready {row row' : S} (hs : sessions id = some row)
    (hrow : f row = f row') : (sessions.insert id row').map f = sessions.map f := by
  have hsession : sessions.map f id = some (f row') :=
    (congrArg (Option.map f) hs).trans (congrArg some hrow)
  rw [Table.map_insert, Table.insert_eq_self hsession]

end rows

/-- A step of the system is an event of its registry, or nothing to it. -/
def Follows (next : σ → α → Option σ) (Inv : σ → Prop)
    (view : σ → Registry K) (event : σ → α → Option (RegistryEvent K)) :
    Prop :=
  ∀ s a s', Inv s → next s a = some s' →
    Inv s' ∧ (view s).Moves (event s a) (view s')

/-- A run of the system is a run of its registry. -/
theorem Follows.run_trace {next : σ → α → Option σ} {Inv : σ → Prop}
    {view : σ → Registry K} {event : σ → α → Option (RegistryEvent K)}
    (h : Follows next Inv view event) {s s' : σ} {acts : List α}
    (hinv : Inv s) (hrun : run next s acts = some s') :
    run step (view s) (trace next event s acts) = some (view s') := by
  induction acts generalizing s with
  | nil =>
      cases hrun
      rfl
  | cons a acts ih =>
      rw [run_cons] at hrun
      obtain ⟨s₁, hstep, hrun⟩ := Option.bind_eq_some_iff.mp hrun
      obtain ⟨hinv₁, hview⟩ := h s a s₁ hinv hstep
      have hrest := ih hinv₁ hrun
      simp only [trace, hstep]
      cases hevent : event s a with
      | none =>
          rw [hevent] at hview
          replace hview : view s₁ = view s := hview
          rw [← hview]
          exact hrest
      | some e =>
          rw [hevent] at hview
          show run step (view s) (e :: trace next event s₁ acts) = _
          rw [run_cons, show (view s).step e = some (view s₁) from hview]
          exact hrest

end step

end Registry

end Sidevers.Lib
