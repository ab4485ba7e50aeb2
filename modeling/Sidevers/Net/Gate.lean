/-
The freshness and replay gate every serve loop runs on an inbound envelope
(`check_freshness_and_replay_metered` in `node.rs`), and the run of one
gate over a sequence of arrivals.

The clock reading and the hash map's iteration order belong to the arrival:
the code reads the clock inside the gate, and both vary from call to call.
-/
import Sidevers.Core.Replay

namespace Sidevers.Net

open Sidevers.Core

universe u
variable {P : Type u}

/-- The counters of `metrics.rs` the gate touches. -/
structure Metrics where
  envelopesDroppedFreshness : Nat
  envelopesDroppedReplay : Nat
  envelopesDroppedSkewHard : Nat
  envelopesWarnedSkewSoft : Nat
  deriving DecidableEq, Repr

namespace Metrics

def new : Metrics := ⟨0, 0, 0, 0⟩

def incrDroppedFreshness (m : Metrics) : Metrics :=
  { m with envelopesDroppedFreshness := m.envelopesDroppedFreshness + 1 }

def incrDroppedReplay (m : Metrics) : Metrics :=
  { m with envelopesDroppedReplay := m.envelopesDroppedReplay + 1 }

def incrDroppedSkewHard (m : Metrics) : Metrics :=
  { m with envelopesDroppedSkewHard := m.envelopesDroppedSkewHard + 1 }

def incrWarnedSkewSoft (m : Metrics) : Metrics :=
  { m with envelopesWarnedSkewSoft := m.envelopesWarnedSkewSoft + 1 }

end Metrics

-- =========================================================== the gate

/-- What one gate keeps between envelopes. -/
structure Gate where
  replay : ReplayCache
  metrics : Option Metrics

/-- A gate over a fresh cache. -/
def Gate.new : Gate := ⟨ReplayCache.new, none⟩

/-- An envelope reaching the gate. -/
structure Arrival (P : Type u) where
  env : Envelope P
  /-- `now_unix_seconds()`, `none` when the clock read fails. -/
  clock : Option Nat
  order : IterOrder

/-- The replay key of an envelope. -/
def replayKey (env : Envelope P) : Key := ⟨env.fromSide, env.nonce⟩

/-- `u64::abs_diff`. -/
def absDiff (x y : Nat) : Nat := if x < y then y - x else x - y

/-- `check_freshness_and_replay_metered`: `true` admits the envelope. -/
def checkFreshnessAndReplayMetered (g : Gate) (a : Arrival P) :
    Bool × Gate :=
  match a.clock with
  | none => (false, g)
  | some now =>
      let skew := absDiff a.env.timestamp now
      if skew > softMaxSkewSecs then
        (false, { g with
          metrics := g.metrics.map fun m =>
            m.incrDroppedSkewHard.incrDroppedFreshness })
      else
        let warned := if skew > defaultMaxSkewSecs
          then g.metrics.map Metrics.incrWarnedSkewSoft else g.metrics
        let seen := g.replay.observe a.order now (replayKey a.env)
        let metrics := if seen.1
          then warned.map Metrics.incrDroppedReplay else warned
        (!seen.1, ⟨seen.2, metrics⟩)

/-- Does the gate admit this arrival? -/
def admits (g : Gate) (a : Arrival P) : Bool :=
  (checkFreshnessAndReplayMetered g a).1

/-- The gate after this arrival. -/
def gateStep (g : Gate) (a : Arrival P) : Gate :=
  (checkFreshnessAndReplayMetered g a).2

/-- The gate after a sequence of arrivals. -/
def gateRun (g : Gate) (arrivals : List (Arrival P)) : Gate :=
  arrivals.foldl gateStep g

/-- How many arrivals of the sequence the gate admits. -/
def admissions (g : Gate) : List (Arrival P) → Nat
  | [] => 0
  | a :: rest =>
      (if admits g a then 1 else 0) + admissions (gateStep g a) rest

/-- Non-decreasing clock readings; failed reads have none. -/
def ClockMonotone (arrivals : List (Arrival P)) : Prop :=
  (arrivals.filterMap Arrival.clock).Pairwise (· ≤ ·)

instance (arrivals : List (Arrival P)) :
    Decidable (ClockMonotone arrivals) :=
  inferInstanceAs (Decidable (List.Pairwise ..))

/-- Cache entries first seen at `t` or later. -/
def seenSince (t : Nat) (c : ReplayCache) : Nat :=
  c.entries.countP fun e => decide (t ≤ e.2)

-- ====================================================== what it does

@[simp] theorem gateRun_nil (g : Gate) :
    gateRun g ([] : List (Arrival P)) = g := rfl

@[simp] theorem gateRun_cons (g : Gate) (a : Arrival P)
    (rest : List (Arrival P)) :
    gateRun g (a :: rest) = gateRun (gateStep g a) rest := rfl

theorem gateRun_append (g : Gate) (as bs : List (Arrival P)) :
    gateRun g (as ++ bs) = gateRun (gateRun g as) bs :=
  List.foldl_append ..

/-- The gate admits exactly the envelopes within the soft window whose key
is not cached once the expired entries are swept. -/
theorem admits_iff {g : Gate} {a : Arrival P} :
    admits g a = true ↔ ∃ now, a.clock = some now
      ∧ absDiff a.env.timestamp now ≤ softMaxSkewSecs
      ∧ ¬ (g.replay.sweep now).holds (replayKey a.env) := by
  unfold admits checkFreshnessAndReplayMetered
  cases hclock : a.clock with
  | none => simp
  | some now =>
      by_cases hskew : absDiff a.env.timestamp now > softMaxSkewSecs
      · simp only [if_pos hskew, Bool.false_eq_true, false_iff]
        rintro ⟨now', hnow, hle, -⟩
        injection hnow with hnow
        subst hnow
        omega
      · have hle : absDiff a.env.timestamp now ≤ softMaxSkewSecs := by omega
        by_cases hheld : (g.replay.sweep now).holds (replayKey a.env)
        · simp [hskew, hheld, ReplayCache.observe]
        · simp [hskew, hheld, hle, ReplayCache.observe]

/-- What an arrival can do to the cache: nothing (no clock, or hard skew),
a sweep (a replay), or a sweep and the insertion of its key (admitted). -/
theorem gateStep_cases (g : Gate) (a : Arrival P) :
    (admits g a = false ∧ (gateStep g a).replay = g.replay)
      ∨ (∃ now, a.clock = some now ∧ admits g a = false
          ∧ (gateStep g a).replay = g.replay.sweep now)
      ∨ (∃ now, ∃ h : ¬ (g.replay.sweep now).holds (replayKey a.env),
          a.clock = some now ∧ admits g a = true
          ∧ (gateStep g a).replay = (g.replay.sweep now).insertNew a.order
              now (replayKey a.env) h) := by
  unfold admits gateStep checkFreshnessAndReplayMetered
  cases hclock : a.clock with
  | none => exact Or.inl ⟨rfl, rfl⟩
  | some now =>
      by_cases hskew : absDiff a.env.timestamp now > softMaxSkewSecs
      · exact Or.inl ⟨by simp [hskew], by simp [hskew]⟩
      · right
        by_cases hheld : (g.replay.sweep now).holds (replayKey a.env)
        · left
          refine ⟨now, rfl, ?_, ?_⟩ <;>
            simp [hskew, hheld, ReplayCache.observe]
        · right
          refine ⟨now, hheld, rfl, ?_, ?_⟩ <;>
            simp [hskew, hheld, ReplayCache.observe]

/-- The configuration of the cache never changes. -/
theorem gateStep_config (g : Gate) (a : Arrival P) :
    (gateStep g a).replay.ttl = g.replay.ttl
      ∧ (gateStep g a).replay.maxEntries = g.replay.maxEntries := by
  rcases gateStep_cases g a with ⟨-, h⟩ | ⟨now, -, -, h⟩ | ⟨now, _, -, -, h⟩
  · rw [h]
    exact ⟨rfl, rfl⟩
  · rw [h]
    exact ⟨rfl, rfl⟩
  · rw [h]
    exact ⟨rfl, rfl⟩

theorem gateRun_config (arrivals : List (Arrival P)) :
    ∀ g : Gate, (gateRun g arrivals).replay.ttl = g.replay.ttl
      ∧ (gateRun g arrivals).replay.maxEntries = g.replay.maxEntries := by
  induction arrivals with
  | nil => exact fun g => ⟨rfl, rfl⟩
  | cons a rest ih =>
      intro g
      obtain ⟨httl, hmax⟩ := gateStep_config g a
      obtain ⟨httl', hmax'⟩ := ih (gateStep g a)
      exact ⟨httl'.trans httl, hmax'.trans hmax⟩

end Sidevers.Net
