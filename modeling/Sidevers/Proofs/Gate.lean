/-
No envelope is processed twice: what the replay gate guarantees about an
envelope it admitted, and where the guarantee ends.

# The argument

Let `a` be admitted at clock `t`. Its entry `(key, t)` leaves the cache in
two ways only.

- A sweep at `now ≥ t + ttl`. Clocks do not decrease, so this has not
  happened before a re-arrival at `now < t + ttl`; a later re-arrival is the
  skew test's to refuse.
- An eviction at the cap. The evicted entry is a minimum by `first_seen`, so
  evicting `(key, t)` needs a full cache of entries first seen at `t` or
  later. `seenSince t` counts those, and grows only with admissions.

`Kept` is the invariant of the second part; `kept_gateStep` is its step
lemma and `kept_gateRun` the run lemma.

# Where it ends

The cap is the code's own bound on memory, and a flood of `maxEntries`
admitted envelopes after `a` does evict it: `gate_readmits_after_flood`.
-/
import Sidevers.Net.Gate
import Mathlib.Tactic.Common

namespace Sidevers.Proofs

open Sidevers.Core
open Sidevers.Net

universe u
variable {P : Type u}

-- ================================================ the eviction's victim

/-- A cache has one entry a key. -/
theorem entry_unique {c : ReplayCache} {e e' : Entry} (he : e ∈ c.entries)
    (he' : e' ∈ c.entries) (hkey : e.1 = e'.1) : e = e' :=
  List.inj_on_of_nodup_map c.nodup he he' hkey

/-- Enforcing the cap spares an entry while fewer than `maxEntries` entries
are as recent as it: the victim is a minimum of a full cache. -/
theorem mem_makeRoom {c : ReplayCache} {o : IterOrder} {k : Key} {t : Nat}
    (hmem : (k, t) ∈ c.entries) (hroom : seenSince t c < c.maxEntries) :
    (k, t) ∈ c.makeRoom o := by
  unfold ReplayCache.makeRoom
  split
  case isTrue => exact hmem
  case isFalse hfull =>
    cases hold : ReplayCache.findOldestIn o c.entries with
    | none => exact hmem
    | some oldest =>
        obtain ⟨e, he, hek, hmin⟩ := ReplayCache.findOldestIn_mem hold
        refine List.mem_filter.mpr ⟨hmem, ?_⟩
        simp only [decide_eq_true_eq]
        intro heq
        have hvictim : e = (k, t) := entry_unique he hmem (hek.trans heq.symm)
        have hall : seenSince t c = c.entries.length := by
          unfold seenSince
          rw [List.countP_eq_length]
          intro e' he'
          have hle := hmin e' he'
          rw [hvictim] at hle
          simpa using hle
        omega

-- ========================================================== the invariant

/-- The entry `(k, t)` is cached, and `n` bounds the entries as recent. -/
structure Kept (k : Key) (t n : Nat) (g : Gate) : Prop where
  cached : (k, t) ∈ g.replay.entries
  recent : seenSince t g.replay ≤ n

/-- A sweep before the entry expires keeps it. -/
theorem Kept.sweep {k : Key} {t n now : Nat} {g : Gate}
    (h : Kept k t n g) (hlt : now - t < g.replay.ttl) :
    (k, t) ∈ (g.replay.sweep now).entries
      ∧ seenSince t (g.replay.sweep now) ≤ n := by
  refine ⟨List.mem_filter.mpr ⟨h.cached, ?_⟩, ?_⟩
  · simpa [ReplayCache.alive] using hlt
  · exact (List.filter_sublist.countP_le).trans h.recent

/-- Step lemma: an arrival before the expiry keeps the entry, as long as
the cap exceeds the recent entries whenever it is admitted. -/
theorem kept_gateStep {k : Key} {t n : Nat} {g : Gate} {a : Arrival P}
    (h : Kept k t n g)
    (hclock : ∀ now, a.clock = some now → now - t < g.replay.ttl)
    (hroom : admits g a = true → n < g.replay.maxEntries) :
    Kept k t (n + if admits g a then 1 else 0) (gateStep g a) := by
  rcases gateStep_cases g a with ⟨hadm, hg⟩ | ⟨now, hnow, hadm, hg⟩
      | ⟨now, hvacant, hnow, hadm, hg⟩
  · rw [hadm]
    exact ⟨hg ▸ h.cached, hg ▸ h.recent⟩
  · obtain ⟨hmem, hrec⟩ := h.sweep (hclock now hnow)
    rw [hadm]
    exact ⟨hg ▸ hmem, hg ▸ hrec⟩
  · obtain ⟨hmem, hrec⟩ := h.sweep (hclock now hnow)
    have hkeep : (k, t) ∈ (g.replay.sweep now).makeRoom a.order := by
      apply mem_makeRoom hmem
      show seenSince t (g.replay.sweep now) < g.replay.maxEntries
      have hlt := hroom hadm
      omega
    rw [hadm]
    constructor
    · rw [hg]
      exact List.mem_cons_of_mem _ hkeep
    · rw [hg]
      show List.countP _ (_ :: (g.replay.sweep now).makeRoom a.order) ≤ _
      rw [List.countP_cons]
      have hsub := ((g.replay.sweep now).makeRoom_sublist a.order).countP_le
        (p := fun e => decide (t ≤ e.2))
      have hrec' : List.countP (fun e => decide (t ≤ e.2))
          (g.replay.sweep now).entries ≤ n := hrec
      split
      · simp only [if_true]
        omega
      · omega

private theorem mem_clocks_cons_self {a : Arrival P}
    {rest : List (Arrival P)} {now : Nat} (h : a.clock = some now) :
    now ∈ (a :: rest).filterMap Arrival.clock :=
  List.mem_filterMap.mpr ⟨a, List.mem_cons_self, h⟩

private theorem mem_clocks_cons_of_mem {a : Arrival P}
    {rest : List (Arrival P)} {now : Nat}
    (h : now ∈ rest.filterMap Arrival.clock) :
    now ∈ (a :: rest).filterMap Arrival.clock := by
  obtain ⟨b, hb, hnow⟩ := List.mem_filterMap.mp h
  exact List.mem_filterMap.mpr ⟨b, List.mem_cons_of_mem _ hb, hnow⟩

/-- Run lemma: admissions are what the bound pays for. -/
theorem kept_gateRun {k : Key} {t ttl maxEntries : Nat}
    {arrivals : List (Arrival P)} :
    ∀ {n : Nat} {g : Gate}, Kept k t n g →
      g.replay.ttl = ttl → g.replay.maxEntries = maxEntries →
      (∀ now ∈ arrivals.filterMap Arrival.clock, now - t < ttl) →
      n + admissions g arrivals ≤ maxEntries →
      Kept k t (n + admissions g arrivals) (gateRun g arrivals) := by
  induction arrivals with
  | nil =>
      intro n g h _ _ _ _
      exact h
  | cons a rest ih =>
      intro n g h httl hmax hclock hcap
      have hcfg := gateStep_config g a
      rw [admissions, ← Nat.add_assoc] at hcap ⊢
      have hstep := kept_gateStep h (a := a) ?_ ?_
      · rw [gateRun_cons]
        exact ih hstep (hcfg.1.trans httl) (hcfg.2.trans hmax)
          (fun now hnow => hclock now (mem_clocks_cons_of_mem hnow)) hcap
      · intro now hnow
        rw [httl]
        exact hclock now (mem_clocks_cons_self hnow)
      · intro hadm
        rw [hadm, if_pos rfl] at hcap
        omega

/-- An admitted envelope starts the invariant. -/
theorem kept_of_admits {g : Gate} {a : Arrival P} {t : Nat}
    (hclock : a.clock = some t) (hadm : admits g a = true) :
    Kept (replayKey a.env) t (seenSince t g.replay + 1) (gateStep g a) := by
  rcases gateStep_cases g a with ⟨hno, -⟩ | ⟨now, -, hno, -⟩
      | ⟨now, hvacant, hnow, -, hg⟩
  · rw [hno] at hadm
    cases hadm
  · rw [hno] at hadm
    cases hadm
  · rw [hclock] at hnow
    injection hnow with hnow
    subst hnow
    constructor
    · rw [hg]
      exact List.mem_cons_self
    · rw [hg]
      show List.countP _ (_ :: (g.replay.sweep t).makeRoom a.order) ≤ _
      rw [List.countP_cons]
      have hroom := ((g.replay.sweep t).makeRoom_sublist a.order).countP_le
        (p := fun e => decide (t ≤ e.2))
      have hsweep : List.countP (fun e => decide (t ≤ e.2))
          (g.replay.sweep t).entries ≤ seenSince t g.replay :=
        List.filter_sublist.countP_le
      simp only [Nat.le_refl, decide_true, if_true]
      omega

/-- A cached key is refused. -/
theorem not_admits_of_kept {k : Key} {t n : Nat} {g : Gate} {b : Arrival P}
    (h : Kept k t n g) (hkey : replayKey b.env = k)
    (hclock : ∀ now, b.clock = some now → now - t < g.replay.ttl) :
    admits g b = false := by
  rw [← Bool.not_eq_true, admits_iff]
  rintro ⟨now, hnow, -, hvacant⟩
  obtain ⟨hmem, -⟩ := h.sweep (hclock now hnow)
  apply hvacant
  rw [hkey]
  exact List.mem_map_of_mem hmem

-- ===================================================== the guarantee

/-- The readings around `t` in a monotone sequence: what comes after the
arrival at `t`, up to a later reading `now`, lies between the two. -/
theorem clocks_between {a b : Arrival P} {mid : List (Arrival P)}
    {t now : Nat} (hmono : ClockMonotone (a :: mid ++ [b]))
    (ha : a.clock = some t) (hb : b.clock = some now) :
    t ≤ now ∧ ∀ x ∈ mid.filterMap Arrival.clock, t ≤ x ∧ x ≤ now := by
  simp only [ClockMonotone, List.cons_append, List.filterMap_cons, ha,
    List.filterMap_append, hb, List.filterMap_nil, List.pairwise_cons,
    List.mem_append, List.mem_singleton, List.pairwise_append] at hmono
  obtain ⟨hfirst, -, -, hlast⟩ := hmono
  exact ⟨hfirst now (Or.inr rfl),
    fun x hx => ⟨hfirst x (Or.inl hx), hlast x hx now rfl⟩⟩

/-- An envelope the gate admitted is never admitted again, whatever arrives
in between, as long as the entries first seen since its admission fit the
cache and its re-arrival finds either the entry unexpired or the timestamp
out of the soft window. -/
theorem gate_admits_once (g : Gate) (a b : Arrival P)
    (mid : List (Arrival P)) (t : Nat)
    (hmono : ClockMonotone (a :: mid ++ [b]))
    (hclock : a.clock = some t) (hadm : admits g a = true)
    (hfrom : b.env.fromSide = a.env.fromSide)
    (hnonce : b.env.nonce = a.env.nonce)
    (hts : b.env.timestamp = a.env.timestamp)
    (hcap : seenSince t g.replay + 1 + admissions (gateStep g a) mid
      ≤ g.replay.maxEntries)
    (hwindow : ∀ now, b.clock = some now → now < t + g.replay.ttl
      ∨ a.env.timestamp + softMaxSkewSecs < now) :
    admits (gateRun g (a :: mid)) b = false := by
  cases hb : b.clock with
  | none =>
      rw [← Bool.not_eq_true, admits_iff]
      rintro ⟨now, hnow, -⟩
      rw [hb] at hnow
      cases hnow
  | some now =>
      rcases hwindow now hb with hlt | hpast
      · -- the entry is still cached
        obtain ⟨hle, hbetween⟩ := clocks_between hmono hclock hb
        have hcfg := gateStep_config g a
        have hkept := kept_gateRun (kept_of_admits hclock hadm) hcfg.1 hcfg.2
          (fun x hx => by have := hbetween x hx; omega) hcap
        apply not_admits_of_kept hkept
        · rw [replayKey, hfrom, hnonce, replayKey]
        · intro now' hnow'
          rw [hb] at hnow'
          injection hnow' with hnow'
          rw [(gateRun_config mid (gateStep g a)).1, hcfg.1]
          omega
      · -- the timestamp is too old by now
        rw [← Bool.not_eq_true, admits_iff]
        rintro ⟨now', hnow', hskew, -⟩
        rw [hb] at hnow'
        injection hnow' with hnow'
        rw [hts] at hskew
        unfold absDiff at hskew
        split at hskew <;> omega

/-- An envelope of one side with nonce number `i`, stamped 1000 and
received at `now`. -/
def arrivalAt (now i : Nat) : Arrival (List UInt8) where
  env :=
    { messageType := MessageType.directMessage
      fromSide := Bytes.fill _ 7
      toSide := none
      timestamp := 1000
      nonce := ⟨UInt8.ofNat (i / 256) :: UInt8.ofNat (i % 256)
        :: List.replicate 14 0, rfl⟩
      payload := [] }
  clock := some now
  order := IterOrder.listed

/-- Three arrivals in between, one of them a copy of another. -/
def meanwhile : List (Arrival (List UInt8)) :=
  [arrivalAt 1020 1, arrivalAt 1040 2, arrivalAt 1060 1]

/-- The guarantee at work: two others are admitted, and the second copy, 100
seconds later, is refused. -/
theorem gate_admits_once_at_hundred :
    admissions (gateStep Gate.new (arrivalAt 1000 0)) meanwhile = 2
      ∧ admits (gateRun Gate.new (arrivalAt 1000 0 :: meanwhile))
        (arrivalAt 1100 0) = false :=
  ⟨by decide, gate_admits_once Gate.new (arrivalAt 1000 0) (arrivalAt 1100 0)
    meanwhile 1000 (by decide) rfl (by decide) rfl rfl rfl (by decide)
    (fun now h => Or.inl (by injection h with h; subst h; decide))⟩

-- ============================================================ the flood

/-- A sweep of a cache whose entries are all alive removes none. -/
theorem sweep_entries_of_alive {c : ReplayCache} {now : Nat}
    (h : ∀ e ∈ c.entries, now - e.2 < c.ttl) :
    (c.sweep now).entries = c.entries := by
  refine List.filter_eq_self.mpr fun e he => ?_
  simpa [ReplayCache.alive] using h e he

/-- An admitted arrival's entry goes on top of what the cap leaves. -/
theorem gateStep_entries {g : Gate} {a : Arrival P} {now : Nat}
    (hclock : a.clock = some now)
    (hskew : absDiff a.env.timestamp now ≤ softMaxSkewSecs)
    (hvacant : ¬ (g.replay.sweep now).holds (replayKey a.env)) :
    (gateStep g a).replay.entries
      = (replayKey a.env, now) :: (g.replay.sweep now).makeRoom a.order := by
  have hadm : admits g a = true :=
    admits_iff.mpr ⟨now, hclock, hskew, hvacant⟩
  rcases gateStep_cases g a with ⟨hno, -⟩ | ⟨now', -, hno, -⟩
      | ⟨now', hvacant', hnow, -, hg⟩
  · rw [hno] at hadm
    cases hadm
  · rw [hno] at hadm
    cases hadm
  · rw [hclock] at hnow
    injection hnow with hnow
    subst hnow
    rw [hg]
    rfl

/-- With room, nothing leaves. -/
theorem gateStep_entries_of_room {g : Gate} {a : Arrival P} {now : Nat}
    (hclock : a.clock = some now)
    (hskew : absDiff a.env.timestamp now ≤ softMaxSkewSecs)
    (hvacant : ¬ (g.replay.sweep now).holds (replayKey a.env))
    (hroom : (g.replay.sweep now).entries.length < g.replay.maxEntries) :
    (gateStep g a).replay.entries
      = (replayKey a.env, now) :: (g.replay.sweep now).entries := by
  rw [gateStep_entries hclock hskew hvacant]
  unfold ReplayCache.makeRoom
  rw [if_pos (show _ < (g.replay.sweep now).maxEntries from hroom)]

/-- A full cache evicts the one entry older than all others. -/
theorem makeRoom_evicts {c : ReplayCache} {o : IterOrder} {k : Key}
    {t : Nat} (hfull : c.entries.length = c.maxEntries)
    (hmem : (k, t) ∈ c.entries)
    (holder : ∀ e ∈ c.entries, e.1 ≠ k → t < e.2) :
    k ∉ (c.makeRoom o).map Prod.fst := by
  have hne : c.entries ≠ [] := List.ne_nil_of_mem hmem
  obtain ⟨oldest, hold⟩ := ReplayCache.findOldestIn_isSome (o := o) hne
  obtain ⟨e, he, hek, hmin⟩ := ReplayCache.findOldestIn_mem hold
  have hvictim : oldest = k := by
    by_contra hother
    have hlt := holder e he (hek ▸ hother)
    have hle := hmin _ hmem
    omega
  unfold ReplayCache.makeRoom
  rw [if_neg (by omega), hold, hvictim]
  simp [ReplayCache.removeKey]

/-- Below the cap, arrivals with fresh keys pile up on the entries already
there. -/
theorem gateRun_fill {now : Nat} {arrivals : List (Arrival P)} :
    ∀ {g : Gate}, (∀ a ∈ arrivals, a.clock = some now
        ∧ absDiff a.env.timestamp now ≤ softMaxSkewSecs) →
      (arrivals.map fun a => replayKey a.env).Nodup →
      (∀ a ∈ arrivals, ¬ g.replay.holds (replayKey a.env)) →
      (∀ e ∈ g.replay.entries, now - e.2 < g.replay.ttl) →
      0 < g.replay.ttl →
      g.replay.entries.length + arrivals.length ≤ g.replay.maxEntries →
      (gateRun g arrivals).replay.entries
        = (arrivals.map fun a => (replayKey a.env, now)).reverse
            ++ g.replay.entries := by
  induction arrivals with
  | nil => exact fun _ _ _ _ _ _ => rfl
  | cons a rest ih =>
      intro g hat hnodup hfresh hlive httl hlen
      obtain ⟨hclock, hskew⟩ := hat a List.mem_cons_self
      obtain ⟨hnew, hnodup⟩ := List.nodup_cons.mp hnodup
      have hsweep := sweep_entries_of_alive hlive
      have hvacant : ¬ (g.replay.sweep now).holds (replayKey a.env) := by
        unfold ReplayCache.holds
        rw [hsweep]
        exact hfresh a List.mem_cons_self
      have hstep := gateStep_entries_of_room hclock hskew hvacant
        (by rw [hsweep]; simp only [List.length_cons] at hlen; omega)
      rw [hsweep] at hstep
      have hcfg := gateStep_config g a
      rw [gateRun_cons, ih (fun b hb => hat b (List.mem_cons_of_mem _ hb))
        hnodup ?_ ?_ (by rw [hcfg.1]; exact httl) ?_, hstep]
      · simp
      · intro b hb hheld
        unfold ReplayCache.holds at hheld
        rw [hstep, List.map_cons, List.mem_cons] at hheld
        rcases hheld with heq | hheld
        · exact hnew (List.mem_map.mpr ⟨b, hb, heq⟩)
        · exact hfresh b (List.mem_cons_of_mem _ hb) hheld
      · rw [hstep, hcfg.1]
        intro e he
        rcases List.mem_cons.mp he with rfl | he
        · simpa using httl
        · exact hlive e he
      · rw [hstep, hcfg.2]
        simp only [List.length_cons] at hlen ⊢
        omega

/-- As many later arrivals with fresh keys as the cap allows evict the one
entry that was there: it is the oldest of a full cache. -/
theorem flood_evicts {g : Gate} {k : Key} {t now : Nat} {a : Arrival P}
    {arrivals : List (Arrival P)} (hg : g.replay.entries = [(k, t)])
    (hlt : t < now) (hlive : now - t < g.replay.ttl)
    (hat : ∀ b ∈ a :: arrivals, b.clock = some now
      ∧ absDiff b.env.timestamp now ≤ softMaxSkewSecs)
    (hnodup : ((a :: arrivals).map fun b => replayKey b.env).Nodup)
    (hfresh : ∀ b ∈ a :: arrivals, replayKey b.env ≠ k)
    (hlen : arrivals.length + 1 = g.replay.maxEntries) :
    ¬ ((gateRun g (arrivals ++ [a])).replay.sweep now).holds k := by
  obtain ⟨hnew, hnodup⟩ := List.nodup_cons.mp hnodup
  have hcfg := gateRun_config arrivals g
  have hfill := gateRun_fill (g := g)
    (fun b hb => hat b (List.mem_cons_of_mem _ hb)) hnodup
    (fun b hb hheld => by
      rw [ReplayCache.holds, hg, List.map_singleton,
        List.mem_singleton] at hheld
      exact hfresh b (List.mem_cons_of_mem _ hb) hheld)
    (fun e he => by
      rw [hg, List.mem_singleton] at he
      rw [he]
      exact hlive)
    (by omega) (by rw [hg, List.length_singleton]; omega)
  -- the full cache: every entry but the first is from `now`
  have hentry : ∀ e ∈ (gateRun g arrivals).replay.entries,
      e = (k, t) ∨ (e.2 = now ∧ ∃ b ∈ arrivals, replayKey b.env = e.1) := by
    intro e he
    rw [hfill, hg, List.mem_append, List.mem_reverse, List.mem_map,
      List.mem_singleton] at he
    rcases he with ⟨b, hb, rfl⟩ | rfl
    · exact Or.inr ⟨rfl, b, hb, rfl⟩
    · exact Or.inl rfl
  have hsweep : ((gateRun g arrivals).replay.sweep now).entries
      = (gateRun g arrivals).replay.entries := by
    refine sweep_entries_of_alive fun e he => ?_
    rw [hcfg.1]
    rcases hentry e he with rfl | ⟨hnow, -⟩
    · exact hlive
    · omega
  obtain ⟨hclock, hskew⟩ := hat a List.mem_cons_self
  have hvacant : ¬ ((gateRun g arrivals).replay.sweep now).holds
      (replayKey a.env) := by
    unfold ReplayCache.holds
    rw [hsweep, List.mem_map]
    rintro ⟨e, he, hkey⟩
    rcases hentry e he with rfl | ⟨-, b, hb, hbkey⟩
    · exact hfresh a List.mem_cons_self hkey.symm
    · exact hnew (List.mem_map.mpr ⟨b, hb, hbkey.trans hkey⟩)
  have hlast := gateStep_entries hclock hskew hvacant
  have hgone := makeRoom_evicts (o := a.order)
    (c := (gateRun g arrivals).replay.sweep now) (k := k) (t := t)
    (by rw [hsweep, hfill, hg]
        show _ = (gateRun g arrivals).replay.maxEntries
        rw [hcfg.2]
        simp only [List.length_append, List.length_reverse, List.length_map,
          List.length_singleton]
        exact hlen)
    (by rw [hsweep, hfill, hg]; simp)
    (fun e he hne => by
      rw [hsweep] at he
      rcases hentry e he with rfl | ⟨hnow, -⟩
      · exact absurd rfl hne
      · omega)
  intro hheld
  have hsub := (List.filter_sublist.map Prod.fst).subset hheld
  rw [gateRun_append, gateRun_cons, gateRun_nil, hlast, List.map_cons,
    List.mem_cons] at hsub
  rcases hsub with heq | hmem
  · exact hfresh a List.mem_cons_self heq.symm
  · exact hgone hmem

/-- Sixteen-bit nonce numbers are told apart. -/
theorem arrivalAt_key_injective {now now' i j : Nat} (hi : i < 65536)
    (hj : j < 65536)
    (h : replayKey (arrivalAt now i).env = replayKey (arrivalAt now' j).env) :
    i = j := by
  have hnonce := congrArg (fun k => k.nonce.val) h
  simp only [replayKey, arrivalAt, List.cons.injEq] at hnonce
  obtain ⟨hhigh, hlow, -⟩ := hnonce
  have hhigh := congrArg UInt8.toNat hhigh
  have hlow := congrArg UInt8.toNat hlow
  simp only [UInt8.toNat_ofNat'] at hhigh hlow
  omega

/-- `n` further envelopes of the same side, all received at 1001. -/
def flood (n : Nat) : List (Arrival (List UInt8)) :=
  (List.range n).map fun i => arrivalAt 1001 (i + 1)

theorem mem_flood {n : Nat} {a : Arrival (List UInt8)} :
    a ∈ flood n ↔ ∃ i < n, a = arrivalAt 1001 (i + 1) := by
  simp [flood, eq_comm]

theorem flood_succ (n : Nat) :
    flood (n + 1) = flood n ++ [arrivalAt 1001 (n + 1)] := by
  simp [flood, List.range_succ]

theorem flood_keys_nodup {n : Nat} (hn : n < 65535) :
    ((flood n).map fun a => replayKey a.env).Nodup := by
  rw [flood, List.map_map]
  refine List.Nodup.map_on ?_ List.nodup_range
  intro i hi j hj heq
  rw [List.mem_range] at hi hj
  have := arrivalAt_key_injective (by omega) (by omega) heq
  omega

theorem flood_clock_monotone (n : Nat) : ClockMonotone
    (arrivalAt 1000 0 :: flood n ++ [arrivalAt 1001 0]) := by
  have hclocks : (flood n).filterMap Arrival.clock
      = List.replicate n 1001 := by
    rw [flood, List.filterMap_map]
    induction n with
    | zero => rfl
    | succ n ih =>
        rw [List.range_succ, List.filterMap_append, ih,
          List.replicate_succ']
        rfl
  unfold ClockMonotone
  rw [List.cons_append, List.filterMap_cons, List.filterMap_append, hclocks]
  show (1000 :: (List.replicate n 1001 ++ [1001])).Pairwise (· ≤ ·)
  rw [← List.replicate_succ', List.pairwise_cons, List.pairwise_replicate]
  refine ⟨fun x hx => ?_, Or.inr (Nat.le_refl _)⟩
  rw [List.eq_of_mem_replicate hx]
  omega

/-- A flood as large as the cap, one second after the first envelope and
one second before its second copy: the gate admits both copies. -/
theorem gate_readmits_after_flood :
    ClockMonotone (arrivalAt 1000 0 :: flood defaultMaxEntries
        ++ [arrivalAt 1001 0])
      ∧ (arrivalAt 1001 0).env = (arrivalAt 1000 0).env
      ∧ admits Gate.new (arrivalAt 1000 0) = true
      ∧ admits (gateRun Gate.new
          (arrivalAt 1000 0 :: flood defaultMaxEntries))
            (arrivalAt 1001 0) = true := by
  refine ⟨flood_clock_monotone _, rfl, by decide, ?_⟩
  have hperm : (arrivalAt 1001 16384 :: flood 16383).Perm (flood 16384) := by
    rw [flood_succ 16383]
    exact (List.perm_append_singleton ..).symm
  have hgone : ¬ ((gateRun (gateStep Gate.new (arrivalAt 1000 0))
      (flood 16383 ++ [arrivalAt 1001 16384])).replay.sweep 1001).holds
        (replayKey (arrivalAt 1000 0).env) := by
    apply flood_evicts (t := 1000) rfl (by omega) (by decide)
    · intro b hb
      obtain ⟨i, -, rfl⟩ := mem_flood.mp (hperm.mem_iff.mp hb)
      exact ⟨rfl, show absDiff 1000 1001 ≤ 900 by decide⟩
    · exact (hperm.map _).nodup_iff.mpr (flood_keys_nodup (by omega))
    · intro b hb heq
      obtain ⟨i, hi, rfl⟩ := mem_flood.mp (hperm.mem_iff.mp hb)
      have := arrivalAt_key_injective (by omega) (by omega) heq
      omega
    · rw [flood, List.length_map, List.length_range]
      exact (rfl : 16384 = defaultMaxEntries)
  rw [← flood_succ 16383] at hgone
  rw [gateRun_cons, show defaultMaxEntries = 16383 + 1 from rfl]
  exact admits_iff.mpr ⟨1001, rfl, show absDiff 1000 1001 ≤ 900 by decide,
    hgone⟩

end Sidevers.Proofs
