/-
The token bucket of a peer, over every sequence of calls of the reputation
table.

A call about another peer leaves a peer's entry alone, and of the calls about
the peer only an envelope that comes while it is not refused touches its
bucket: it asks it for a token (`bucket_call`). So between any two calls the
bucket goes through the readings of those envelopes, and what
`Sidevers.Lib.TokenBucket` says of it holds.

The bucket does not see every reading. One that comes with a failure that is
recorded, with a refusal, or with an envelope of the refused peer leaves it
where it was, and a clock that then steps back lets the peer use up what it
holds before the bucket is filled up to a reading that was seen long ago
(`reading_seen_while_refused`). Over the readings that the bucket does see
the bound holds for every clock, and over all of them where no envelope comes
with a reading behind those seen before (`admitted_bounded`).

The `f64` of the bucket is a natural number throughout: what an operation
rounds is above every capacity (`refill_f64`).
-/
import Mathlib.Algebra.Order.Field.Rat
import Mathlib.Tactic.NormNum
import Sidevers.Lib.TokenBucket
import Sidevers.Net.Reputation

namespace Sidevers.Proofs

open Sidevers.Core
open Sidevers.Lib
open Sidevers.Net

-- ======================================================= the statement

/-- The clock readings of the calls about `p`. -/
def readings (p : Address) (cs : List ReputationCall) : List Nat :=
  cs.filterMap fun c => if c.peer = p then c.reading else none

/-- The reading of a call, if the bucket of its peer sees it: the entry is
made, or an envelope asks for a token. -/
def entryReading : Option PeerReputation → ReputationCall → Option Nat
  | none, c => c.reading
  | some rep, .observeEnvelope _ now => if rep.refused then none else some now
  | some _, _ => none

/-- The reading of a call, if `p`'s bucket sees it. -/
def bucketReading (p : Address) (t : ReputationTable) (c : ReputationCall) :
    Option Nat :=
  if c.peer = p then entryReading (t.inner p) c else none

/-- The readings that `p`'s bucket sees. -/
def bucketReadings (p : Address) (t : ReputationTable) :
    List ReputationCall → List Nat
  | [] => []
  | c :: rest =>
      (bucketReading p t c).toList ++ bucketReadings p (t.call c) rest

/-- The largest reading. -/
def largest (rs : List Nat) : Nat := rs.foldr max 0

/-- How far the largest reading goes up; where none was seen before, from the
first one. -/
def increase (before later : List Nat) : Nat :=
  largest (before ++ later)
    - if before = [] then later.head?.getD 0 else largest before

/-- The tokens that `p` has left; a peer without an entry gets a full
bucket. -/
def tokensLeft (p : Address) (t : ReputationTable) : Nat :=
  match t.inner p with
  | some rep => rep.tokens
  | none => t.policy.bucketCapacity

-- ============================================================ one entry

/-- The bucket of an entry. -/
def bucketOf (rep : PeerReputation) : TokenBucket :=
  ⟨rep.tokens, rep.lastRefillAt⟩

/-- What a call does with the entry of its peer. -/
def onEntry (policy : ReputationPolicy) (rep : PeerReputation) :
    ReputationCall → PeerReputation
  | .observeEnvelope _ now => (rep.observe policy now).2
  | .recordSigFailure _ now => rep.sigFailed policy now
  | .recordMalformed _ now => rep.malformed policy now
  | .refuse _ _ => rep.refuse
  | .reinstate _ => rep.reinstate

/-- The entry of a call's peer after it. -/
def entryAfter (policy : ReputationPolicy) (c : ReputationCall) :
    Option PeerReputation → Option PeerReputation
  | some rep => some (onEntry policy rep c)
  | none => c.reading.map fun now =>
      onEntry policy (.fresh now policy.bucketCapacity) c

/-- A bucket is asked for a token under the table's policy. -/
def ask (policy : ReputationPolicy) (now : Nat) (b : TokenBucket) :
    Bool × TokenBucket :=
  b.take policy.bucketCapacity policy.refillPerSec now

variable {policy : ReputationPolicy} {rep : PeerReputation} {now : Nat}

theorem bucketOf_refill :
    bucketOf (rep.refill policy now)
      = (bucketOf rep).refill policy.bucketCapacity policy.refillPerSec
          now := by
  unfold PeerReputation.refill TokenBucket.refill bucketOf
  dsimp only
  split <;> rfl

theorem fresh_unrefused (now capacity : Nat) :
    (PeerReputation.fresh now capacity).refused = false := rfl

/-- A peer that is not refused asks its bucket for a token. -/
theorem observe_unrefused (policy : ReputationPolicy) (now : Nat)
    (h : rep.refused = false) :
    (rep.observe policy now).1 = (ask policy now (bucketOf rep)).1
      ∧ bucketOf (rep.observe policy now).2
        = (ask policy now (bucketOf rep)).2 := by
  have hseen : (rep.notice now).refused = false := h
  simp only [ask, TokenBucket.take, PeerReputation.observe, hseen,
    Bool.false_eq_true, if_false, PeerReputation.refill_notice,
    ← bucketOf_refill]
  by_cases htoken : (rep.refill policy now).tokens ≥ 1
  · simp [bucketOf, PeerReputation.notice, htoken]
  · simp [bucketOf, PeerReputation.notice, htoken]

/-- A refused peer does not. -/
theorem observe_unasked (policy : ReputationPolicy) (now : Nat)
    (h : rep.refused = true) :
    (rep.observe policy now).1 = false
      ∧ bucketOf (rep.observe policy now).2 = bucketOf rep := by
  have hseen : (rep.notice now).refused = true := h
  simp only [PeerReputation.observe, hseen, if_true, true_and]
  rfl

/-- Nor does any other call. -/
theorem bucketOf_onEntry {c : ReputationCall}
    (h : ∀ peer now, c ≠ .observeEnvelope peer now) :
    bucketOf (onEntry policy rep c) = bucketOf rep := by
  cases c with
  | observeEnvelope peer now => exact absurd rfl (h peer now)
  | recordSigFailure peer now =>
      simp only [onEntry, PeerReputation.sigFailed]
      split <;> rfl
  | recordMalformed peer now =>
      simp only [onEntry, PeerReputation.malformed]
      split <;> rfl
  | refuse peer now | reinstate peer => rfl

-- ============================================================== in f64

/-- Rounding to an `f64`: it keeps the order, and a natural number of up to 53
bits stays what it is. -/
structure Rounding where
  round : ℚ → ℚ
  mono : Monotone round
  exact : ∀ n : ℕ, n ≤ 2 ^ 53 → round n = n

/-- The tokens as `observe_envelope` fills them up, each operation rounded. -/
def refillF64 (r : Rounding) (policy : ReputationPolicy) (elapsed : Nat)
    (tokens : ℚ) : ℚ :=
  let elapsedSecs := r.round elapsed
  min (r.round (tokens + r.round (elapsedSecs * policy.refillPerSec)))
    policy.bucketCapacity

theorem Rounding.large (r : Rounding) {q : ℚ} (h : 2 ^ 53 ≤ q) :
    2 ^ 53 ≤ r.round q := by
  have hexact := r.exact (2 ^ 53) (Nat.le_refl _)
  rw [Nat.cast_pow, Nat.cast_ofNat] at hexact
  exact hexact ▸ r.mono h

/-- What is not rounded exactly is above every capacity anyway. -/
theorem Rounding.cases (r : Rounding) (n : ℕ) :
    n ≤ 2 ^ 53 ∧ r.round n = n
      ∨ 2 ^ 53 ≤ n ∧ (2 : ℚ) ^ 53 ≤ r.round n := by
  by_cases hn : n ≤ 2 ^ 53
  · exact .inl ⟨hn, r.exact n hn⟩
  · have hlarge : 2 ^ 53 ≤ n := (Nat.lt_of_not_le hn).le
    exact .inr ⟨hlarge, r.large (by exact_mod_cast hlarge)⟩

/-- The tokens that the clock fills in. -/
theorem Rounding.filled (r : Rounding) (elapsed rate : ℕ) :
    r.round (r.round elapsed * rate) = (elapsed * rate : ℕ)
      ∨ 2 ^ 53 ≤ elapsed * rate
        ∧ (2 : ℚ) ^ 53 ≤ r.round (r.round elapsed * rate) := by
  rcases r.cases elapsed with ⟨-, hexact⟩ | ⟨helapsed, hround⟩
  · rw [hexact, ← Nat.cast_mul]
    rcases r.cases (elapsed * rate) with ⟨-, hproduct⟩ | hproduct
    · exact .inl hproduct
    · exact .inr hproduct
  · rcases Nat.eq_zero_or_pos rate with rfl | hrate
    · left
      rw [Nat.cast_zero, mul_zero, Nat.mul_zero, ← Nat.cast_zero]
      exact r.exact 0 (Nat.zero_le _)
    · right
      refine ⟨helapsed.trans (Nat.le_mul_of_pos_right _ hrate), r.large ?_⟩
      have hone : (1 : ℚ) ≤ rate := by exact_mod_cast hrate
      exact hround.trans (le_mul_of_one_le_right
        (le_trans (by norm_num) hround) hone)

/-- The capacity is a `u32`: no rounding is seen in the bucket. -/
theorem refill_f64 (r : Rounding)
    (hcapacity : policy.bucketCapacity < 2 ^ 32) :
    ((rep.refill policy now).tokens : ℚ)
      = if now > rep.lastRefillAt then
          refillF64 r policy (now - rep.lastRefillAt) rep.tokens
        else rep.tokens := by
  unfold PeerReputation.refill
  split
  case isFalse => rfl
  case isTrue =>
    have hcap : (policy.bucketCapacity : ℚ) ≤ 2 ^ 53 := by
      exact_mod_cast hcapacity.le.trans (by norm_num)
    rw [refillF64]
    generalize now - rep.lastRefillAt = elapsed
    -- a sum that is large in either reckoning is cut off at the capacity
    have hcut : 2 ^ 53 ≤ rep.tokens + elapsed * policy.refillPerSec →
        ∀ q : ℚ, 2 ^ 53 ≤ q →
        ((min (rep.tokens + elapsed * policy.refillPerSec)
            policy.bucketCapacity : ℕ) : ℚ)
          = min (r.round q) policy.bucketCapacity := by
      intro hsum q hq
      rw [min_eq_right (hcap.trans (r.large hq)), Nat.min_eq_right]
      exact hcapacity.le.trans (le_trans (by norm_num) hsum)
    rcases r.filled elapsed policy.refillPerSec with hexact | ⟨hlarge, hround⟩
    · rw [hexact, ← Nat.cast_add]
      rcases r.cases (rep.tokens + elapsed * policy.refillPerSec) with
        ⟨-, hsum⟩ | ⟨hsum, -⟩
      · rw [hsum, Nat.cast_min]
      · exact hcut hsum _ (by exact_mod_cast hsum)
    · refine hcut (hlarge.trans (Nat.le_add_left _ _)) _
        (hround.trans (le_add_of_nonneg_left (Nat.cast_nonneg _)))

-- ============================================================ one call

variable {p : Address} {t t' : ReputationTable} {c : ReputationCall}

@[simp] theorem call_policy : (t.call c).policy = t.policy := by
  cases c with
  | reinstate peer => exact ReputationTable.reinstate_policy t peer
  | observeEnvelope peer now | recordSigFailure peer now
  | recordMalformed peer now | refuse peer now => rfl

/-- A call about another peer. -/
theorem call_other (h : c.peer ≠ p) : (t.call c).inner p = t.inner p := by
  cases c with
  | reinstate peer =>
      simp only [ReputationTable.call, ReputationTable.reinstate]
      split
      case h_1 => exact ReputationTable.set_inner_of_ne t _ (Ne.symm h)
      case h_2 => rfl
  | observeEnvelope peer now | recordSigFailure peer now
  | recordMalformed peer now | refuse peer now =>
      exact ReputationTable.set_inner_of_ne t _ (Ne.symm h)

theorem admits_other (h : c.peer ≠ p) : t.admits p c = false := by
  cases c with
  | observeEnvelope peer now =>
      exact Bool.and_eq_false_imp.mpr fun hpeer =>
        absurd (of_decide_eq_true hpeer) h
  | recordSigFailure peer now | recordMalformed peer now | refuse peer now
  | reinstate peer => rfl

theorem entry_of_none (h : t.inner p = none) (now : Nat) :
    t.entry p now = .fresh now t.policy.bucketCapacity := by
  rw [ReputationTable.entry, h, Option.getD_none]

theorem entry_of_some (h : t.inner p = some rep) (now : Nat) :
    t.entry p now = rep := by
  rw [ReputationTable.entry, h, Option.getD_some]

/-- A call about the peer. -/
theorem call_own (h : c.peer = p) :
    (t.call c).inner p = entryAfter t.policy c (t.inner p) := by
  subst h
  cases c with
  | reinstate peer =>
      show (t.reinstate peer).inner peer = entryAfter _ _ (t.inner peer)
      unfold ReputationTable.reinstate
      cases hentry : t.inner peer with
      | none => exact hentry
      | some rep => exact ReputationTable.set_inner_self t _ _
  | observeEnvelope peer now | recordSigFailure peer now
  | recordMalformed peer now | refuse peer now =>
      refine (ReputationTable.set_inner_self t _ _).trans ?_
      show _ = entryAfter _ _ (t.inner peer)
      cases hentry : t.inner peer with
      | none =>
          rw [entry_of_none hentry]
          rfl
      | some rep =>
          rw [entry_of_some hentry]
          rfl

/-- What a call does to a peer's bucket, which is there or not: the reading
that the bucket sees, and whether an envelope of the peer is let through. -/
inductive BucketMove (policy : ReputationPolicy) :
    Option TokenBucket → Option Nat → Bool → Option TokenBucket → Prop where
  | idle (b : Option TokenBucket) : BucketMove policy b none false b
  /-- Its entry is made, and not for an envelope. -/
  | made (now : Nat) : BucketMove policy none (some now) false
      (some ⟨policy.bucketCapacity, now⟩)
  /-- Its entry is made for an envelope, which asks for a token. -/
  | first (now : Nat) : BucketMove policy none (some now)
      (ask policy now ⟨policy.bucketCapacity, now⟩).1
      (some (ask policy now ⟨policy.bucketCapacity, now⟩).2)
  | asked (b : TokenBucket) (now : Nat) : BucketMove policy (some b)
      (some now) (ask policy now b).1 (some (ask policy now b).2)

theorem BucketMove.of_some {b : TokenBucket} {reading : Option Nat}
    {admits : Bool} {after : Option TokenBucket}
    (h : BucketMove policy (some b) reading admits after) :
    reading = none ∧ admits = false ∧ after = some b
      ∨ ∃ now, reading = some now ∧ admits = (ask policy now b).1
        ∧ after = some (ask policy now b).2 := by
  cases h with
  | idle => exact .inl ⟨rfl, rfl, rfl⟩
  | asked _ now => exact .inr ⟨now, rfl, rfl, rfl⟩

theorem BucketMove.of_none {reading : Option Nat} {admits : Bool}
    {after : Option TokenBucket}
    (h : BucketMove policy none reading admits after) :
    reading = none ∧ admits = false ∧ after = none
      ∨ ∃ now, reading = some now
        ∧ (admits = false ∧ after = some ⟨policy.bucketCapacity, now⟩
          ∨ admits = (ask policy now ⟨policy.bucketCapacity, now⟩).1
            ∧ after = some (ask policy now ⟨policy.bucketCapacity, now⟩).2) := by
  cases h with
  | idle => exact .inl ⟨rfl, rfl, rfl⟩
  | made now => exact .inr ⟨now, rfl, .inl ⟨rfl, rfl⟩⟩
  | first now => exact .inr ⟨now, rfl, .inr ⟨rfl, rfl⟩⟩

/-- The bucket of `p` in a table. -/
def bucketIn (p : Address) (t : ReputationTable) : Option TokenBucket :=
  (t.inner p).map bucketOf

/-- An envelope of a peer whose entry is there. -/
theorem bucketMove_observe (rep : PeerReputation) (now : Nat) :
    BucketMove policy (some (bucketOf rep))
      (if rep.refused then none else some now) (rep.observe policy now).1
      (some (bucketOf (rep.observe policy now).2)) := by
  cases hrefused : rep.refused with
  | true =>
      obtain ⟨hfst, hbucket⟩ := observe_unasked policy now hrefused
      rw [hfst, hbucket]
      exact .idle _
  | false =>
      obtain ⟨hfst, hbucket⟩ := observe_unrefused policy now hrefused
      rw [hfst, hbucket]
      exact .asked _ now

/-- An envelope of the peer, its entry as the table finds it. -/
theorem admits_own (p : Address) (t : ReputationTable) (now : Nat) :
    t.admits p (.observeEnvelope p now)
      = ((t.entry p now).observe t.policy now).1 := by
  rw [ReputationTable.admits, decide_eq_true rfl, Bool.true_and]
  rfl

/-- What a call does to the bucket of `p`. -/
theorem bucket_call (p : Address) (t : ReputationTable)
    (c : ReputationCall) :
    BucketMove t.policy (bucketIn p t) (bucketReading p t c) (t.admits p c)
      (bucketIn p (t.call c)) := by
  by_cases hpeer : c.peer = p
  case neg =>
    rw [bucketReading, if_neg hpeer, admits_other hpeer, bucketIn, bucketIn,
      call_other hpeer]
    exact .idle _
  case pos =>
    rw [bucketReading, if_pos hpeer, bucketIn, bucketIn, call_own hpeer]
    cases hentry : t.inner p with
    | none =>
        cases c with
        | reinstate peer => exact .idle none
        | recordSigFailure peer now | recordMalformed peer now
        | refuse peer now =>
            simp only [entryAfter, ReputationCall.reading, Option.map_some]
            rw [bucketOf_onEntry]
            · exact .made now
            · intro _ _ h
              cases h
        | observeEnvelope peer now =>
            obtain rfl : peer = p := hpeer
            obtain ⟨hfst, hbucket⟩ :=
              observe_unrefused t.policy now (fresh_unrefused now _)
            simp only [entryAfter, ReputationCall.reading, Option.map_some,
              onEntry]
            rw [admits_own, entry_of_none hentry, hfst, hbucket]
            exact .first now
    | some rep =>
        cases c with
        | reinstate peer | recordSigFailure peer now
        | recordMalformed peer now | refuse peer now =>
            simp only [entryAfter, Option.map_some]
            rw [bucketOf_onEntry]
            · exact .idle _
            · intro _ _ h
              cases h
        | observeEnvelope peer now =>
            obtain rfl : peer = p := hpeer
            rw [admits_own, entry_of_some hentry]
            exact bucketMove_observe rep now

theorem bucket_call_some {b : TokenBucket} (h : bucketIn p t = some b)
    (c : ReputationCall) :
    BucketMove t.policy (some b) (bucketReading p t c) (t.admits p c)
      (bucketIn p (t.call c)) := by
  rw [← h]
  exact bucket_call p t c

theorem bucket_call_none (h : bucketIn p t = none) (c : ReputationCall) :
    BucketMove t.policy none (bucketReading p t c) (t.admits p c)
      (bucketIn p (t.call c)) := by
  rw [← h]
  exact bucket_call p t c

-- ========================================================== every run

/-- The bucket over calls in turn, when it is there. -/
theorem bucket_calls {t : ReputationTable} {b : TokenBucket}
    (hbucket : bucketIn p t = some b) (cs : List ReputationCall) :
    bucketIn p (t.calls cs)
        = some (b.after t.policy.bucketCapacity t.policy.refillPerSec
            (bucketReadings p t cs))
      ∧ t.admitted p cs
        = b.taken t.policy.bucketCapacity t.policy.refillPerSec
            (bucketReadings p t cs) := by
  induction cs generalizing t b with
  | nil => exact ⟨hbucket, rfl⟩
  | cons c rest ih =>
      rw [bucketReadings, ReputationTable.admitted]
      rcases (bucket_call_some hbucket c).of_some with
        ⟨hreading, hadmits, hafter⟩ | ⟨now, hreading, hadmits, hafter⟩
      · obtain ⟨hlast, hcount⟩ := ih hafter
        rw [call_policy] at hlast hcount
        rw [hreading, hadmits, hcount]
        exact ⟨hlast, Nat.zero_add _⟩
      · obtain ⟨hlast, hcount⟩ := ih hafter
        rw [call_policy] at hlast hcount
        rw [hreading, hadmits, hcount]
        exact ⟨hlast, rfl⟩

/-- From a moment when the bucket is there. -/
theorem admitted_le_of_some {t : ReputationTable} {b : TokenBucket}
    (hbucket : bucketIn p t = some b)
    (htokens : b.tokens ≤ t.policy.bucketCapacity)
    (cs : List ReputationCall) :
    t.admitted p cs ≤ t.policy.bucketCapacity + t.policy.refillPerSec
      * (max b.clock (largest (bucketReadings p t cs)) - b.clock) := by
  have hbound := TokenBucket.taken_le _ t.policy.refillPerSec htokens
    (bucketReadings p t cs)
  rwa [← (bucket_calls hbucket cs).2, TokenBucket.after_clock] at hbound

/-- From a moment when it is not: it is made with the first reading. -/
theorem admitted_le_of_none {t : ReputationTable}
    (hbucket : bucketIn p t = none) (cs : List ReputationCall) :
    t.admitted p cs ≤ t.policy.bucketCapacity + t.policy.refillPerSec
      * (largest (bucketReadings p t cs)
        - (bucketReadings p t cs).head?.getD 0) := by
  induction cs generalizing t with
  | nil => exact Nat.zero_le _
  | cons c rest ih =>
      rw [bucketReadings, ReputationTable.admitted]
      rcases (bucket_call_none hbucket c).of_none with
        ⟨hreading, hadmits, hafter⟩ | ⟨now, hreading, hmoved⟩
      · have hrest := ih hafter
        rw [call_policy] at hrest
        rw [hreading, hadmits]
        rwa [Bool.toNat_false, Nat.zero_add]
      · rw [hreading]
        rcases hmoved with ⟨hadmits, hafter⟩ | ⟨hadmits, hafter⟩
        · have hrest := admitted_le_of_some hafter (by rw [call_policy]) rest
          rw [call_policy] at hrest
          rw [hadmits]
          rwa [Bool.toNat_false, Nat.zero_add]
        · have hrest := (bucket_calls hafter rest).2
          rw [call_policy] at hrest
          have hbound := TokenBucket.taken_le t.policy.bucketCapacity
            t.policy.refillPerSec (b := ⟨_, now⟩) (Nat.le_refl _)
            (now :: bucketReadings p (t.call c) rest)
          rw [TokenBucket.after_clock, List.foldr_cons, ← Nat.max_assoc,
            Nat.max_self] at hbound
          rw [hadmits, hrest]
          exact hbound

-- ================================================= what came before

/-- The bucket is filled up to the largest reading that it saw. -/
structure BucketInv (p : Address) (t : ReputationTable)
    (before : List Nat) : Prop where
  unseen : bucketIn p t = none → before = []
  seen : ∀ b, bucketIn p t = some b → before ≠ []
    ∧ b.clock = largest before ∧ b.tokens ≤ t.policy.bucketCapacity

theorem largest_append (as bs : List Nat) :
    largest (as ++ bs) = max (largest as) (largest bs) := by
  induction as with
  | nil => exact (Nat.zero_max _).symm
  | cons a as ih =>
      show max a (largest (as ++ bs)) = max (max a (largest as)) _
      rw [ih, Nat.max_assoc]

theorem BucketInv.call {before : List Nat} (hinv : BucketInv p t before)
    (c : ReputationCall) :
    BucketInv p (t.call c) (before ++ (bucketReading p t c).toList) := by
  -- a bucket that was made or asked is there, with this reading the last one
  have hmoved : ∀ (now : Nat) (b' : TokenBucket),
      bucketIn p (t.call c) = some b' →
      b'.clock = max (largest before) now →
      b'.tokens ≤ t.policy.bucketCapacity →
      BucketInv p (t.call c) (before ++ [now]) := by
    intro now b' hafter hclock htokens
    refine ⟨fun hnone => ?_, fun b hb => ?_⟩
    · rw [hafter] at hnone
      cases hnone
    · obtain rfl := Option.some.inj (hafter.symm.trans hb)
      rw [call_policy, largest_append, hclock]
      refine ⟨List.append_ne_nil_of_right_ne_nil _ (List.cons_ne_nil _ _), ?_,
        htokens⟩
      exact congrArg _ (Nat.max_zero now).symm
  -- one that is left alone is what it was
  have hidle : bucketIn p (t.call c) = bucketIn p t →
      BucketInv p (t.call c) (before ++ []) := by
    intro hafter
    rw [List.append_nil]
    refine ⟨fun hnone => hinv.unseen (hafter.symm.trans hnone), fun b hb => ?_⟩
    rw [call_policy]
    exact hinv.seen b (hafter.symm.trans hb)
  cases hbucket : bucketIn p t with
  | none =>
      obtain rfl := hinv.unseen hbucket
      rcases (bucket_call_none hbucket c).of_none with
        ⟨hreading, -, hafter⟩ | ⟨now, hreading, hmade⟩
      · rw [hreading]
        exact hidle (hafter.trans hbucket.symm)
      · rw [hreading]
        rcases hmade with ⟨-, hafter⟩ | ⟨-, hafter⟩
        · exact hmoved now _ hafter (Nat.zero_max now).symm (Nat.le_refl _)
        · refine hmoved now _ hafter ?_
            (TokenBucket.take_tokens_le _ _ (Nat.le_refl _) now)
          rw [ask, TokenBucket.take_clock, Nat.max_self]
          exact (Nat.zero_max now).symm
  | some b =>
      obtain ⟨-, hclock, htokens⟩ := hinv.seen b hbucket
      rcases (bucket_call_some hbucket c).of_some with
        ⟨hreading, -, hafter⟩ | ⟨now, hreading, -, hafter⟩
      · rw [hreading]
        exact hidle (hafter.trans hbucket.symm)
      · rw [hreading]
        refine hmoved now _ hafter ?_
          (TokenBucket.take_tokens_le _ _ htokens now)
        rw [ask, TokenBucket.take_clock, hclock]

theorem BucketInv.calls {t : ReputationTable} {before : List Nat}
    (hinv : BucketInv p t before) (cs : List ReputationCall) :
    BucketInv p (t.calls cs) (before ++ bucketReadings p t cs) := by
  induction cs generalizing t before with
  | nil =>
      rw [bucketReadings, List.append_nil]
      exact hinv
  | cons c rest ih =>
      rw [bucketReadings, ← List.append_assoc]
      exact ih (hinv.call c)

/-- From the start. -/
theorem bucketInv_new (p : Address) (policy : ReputationPolicy)
    (cs : List ReputationCall) :
    BucketInv p ((ReputationTable.new policy).calls cs)
      (bucketReadings p (.new policy) cs) := by
  have hnew : BucketInv p (.new policy) [] :=
    ⟨fun _ => rfl, fun b hb => nomatch hb⟩
  exact hnew.calls cs

@[simp] theorem calls_policy (t : ReputationTable)
    (cs : List ReputationCall) : (t.calls cs).policy = t.policy := by
  induction cs generalizing t with
  | nil => rfl
  | cons c rest ih => exact (ih (t.call c)).trans call_policy

-- =================================== the readings, and those it saw

theorem le_largest {rs : List Nat} {r : Nat} (h : r ∈ rs) :
    r ≤ largest rs := by
  induction rs with
  | nil => cases h
  | cons a rs ih =>
      rcases List.mem_cons.mp h with rfl | h
      · exact Nat.le_max_left _ _
      · exact (ih h).trans (Nat.le_max_right _ _)

theorem largest_le {rs : List Nat} {m : Nat} (h : ∀ r ∈ rs, r ≤ m) :
    largest rs ≤ m := by
  induction rs with
  | nil => exact Nat.zero_le m
  | cons a rs ih =>
      exact Nat.max_le.mpr ⟨h a List.mem_cons_self,
        ih fun r hr => h r (List.mem_cons_of_mem _ hr)⟩

theorem readings_cons (p : Address) (c : ReputationCall)
    (rest : List ReputationCall) :
    readings p (c :: rest)
      = (if c.peer = p then c.reading else none).toList
        ++ readings p rest := by
  unfold readings
  rw [List.filterMap_cons]
  cases (if c.peer = p then c.reading else none) <;> rfl

/-- What the bucket sees of a call is its reading. -/
theorem bucketReading_some (h : bucketReading p t c = some now) :
    c.peer = p ∧ c.reading = some now := by
  unfold bucketReading at h
  split at h
  case isFalse => cases h
  case isTrue hpeer =>
    refine ⟨hpeer, ?_⟩
    cases hentry : t.inner p with
    | none =>
        rw [hentry] at h
        exact h
    | some rep =>
        rw [hentry] at h
        cases c with
        | observeEnvelope peer now' =>
            simp only [entryReading, Option.ite_none_left_eq_some] at h
            exact h.2
        | recordSigFailure peer now' | recordMalformed peer now'
        | refuse peer now' | reinstate peer => cases h

/-- Once the bucket is there, it sees envelopes only. -/
theorem envelope_of_bucketReading {b : TokenBucket}
    (hbucket : bucketIn p t = some b)
    (h : bucketReading p t c = some now) : c = .observeEnvelope p now := by
  obtain ⟨hpeer, hreading⟩ := bucketReading_some h
  obtain ⟨rep, hentry, -⟩ := Option.map_eq_some_iff.mp hbucket
  rw [bucketReading, if_pos hpeer, hentry] at h
  cases c with
  | observeEnvelope peer now' =>
      obtain rfl : peer = p := hpeer
      rw [Option.some.inj hreading]
  | recordSigFailure peer now' | recordMalformed peer now'
  | refuse peer now' | reinstate peer => cases h

theorem bucketReadings_sublist (p : Address) (t : ReputationTable)
    (cs : List ReputationCall) :
    (bucketReadings p t cs).Sublist (readings p cs) := by
  induction cs generalizing t with
  | nil => exact List.Sublist.slnil
  | cons c rest ih =>
      rw [bucketReadings, readings_cons]
      refine List.Sublist.append ?_ (ih _)
      cases h : bucketReading p t c with
      | none => exact List.nil_sublist _
      | some now =>
          obtain ⟨hpeer, hreading⟩ := bucketReading_some h
          rw [if_pos hpeer, hreading]

/-- The first reading of all makes the bucket. -/
theorem bucketReadings_head {t : ReputationTable}
    (hbucket : bucketIn p t = none) (cs : List ReputationCall) :
    (bucketReadings p t cs).head? = (readings p cs).head? := by
  induction cs generalizing t with
  | nil => rfl
  | cons c rest ih =>
      have hentry : t.inner p = none := Option.map_eq_none_iff.mp hbucket
      have hreading : bucketReading p t c
          = if c.peer = p then c.reading else none := by
        rw [bucketReading, hentry]
        rfl
      rw [bucketReadings, readings_cons, ← hreading]
      rcases (bucket_call_none hbucket c).of_none with
        ⟨hnone, -, hafter⟩ | ⟨now, hsome, -⟩
      · rw [hnone]
        exact ih hafter
      · rw [hsome]
        rfl

/-- Once the bucket is there, what it sees came with envelopes. -/
theorem envelope_of_mem {t : ReputationTable} {b : TokenBucket}
    (hbucket : bucketIn p t = some b) {cs : List ReputationCall}
    (h : now ∈ bucketReadings p t cs) :
    ReputationCall.observeEnvelope p now ∈ cs := by
  induction cs generalizing t b with
  | nil => cases h
  | cons c rest ih =>
      rcases List.mem_append.mp h with h | h
      · rw [envelope_of_bucketReading hbucket (Option.mem_toList.mp h)]
        exact List.mem_cons_self
      · obtain ⟨hnext, -⟩ := bucket_calls hbucket [c]
        exact List.mem_cons_of_mem _ (ih hnext h)

-- ============================================================ the gate

/-- No envelope of a refused peer is let through. -/
theorem refused_dropped {t : ReputationTable} (h : t.isRefused p = true)
    (now : Nat) : (t.observeEnvelope p now).1 = false := by
  obtain ⟨rep, hentry, hrefused⟩ := (Option.any_eq_true _ _).mp h
  show ((t.entry p now).observe t.policy now).1 = false
  rw [entry_of_some hentry]
  exact (observe_unasked t.policy now hrefused).1

/-- A peer that is not refused and has a token gets its envelope through. -/
theorem unrefused_admitted {t : ReputationTable} {before : List Nat}
    (hinv : BucketInv p t before) (h : t.isRefused p = false)
    (htoken : 1 ≤ tokensLeft p t) (now : Nat) :
    (t.observeEnvelope p now).1 = true := by
  show ((t.entry p now).observe t.policy now).1 = true
  cases hentry : t.inner p with
  | none =>
      rw [tokensLeft, hentry] at htoken
      have hfull := TokenBucket.le_refill_tokens t.policy.bucketCapacity
        t.policy.refillPerSec (b := ⟨_, now⟩) (Nat.le_refl _) now
      rw [entry_of_none hentry,
        (observe_unrefused t.policy now (fresh_unrefused now _)).1]
      exact (TokenBucket.take_fst _ _ now _).mpr (Nat.le_trans htoken hfull)
  | some rep =>
      rw [ReputationTable.isRefused, hentry] at h
      rw [tokensLeft, hentry] at htoken
      have hbucket : bucketIn p t = some (bucketOf rep) := by
        rw [bucketIn, hentry, Option.map_some]
      obtain ⟨-, -, htokens⟩ := hinv.seen _ hbucket
      rw [entry_of_some hentry, (observe_unrefused t.policy now h).1]
      exact (TokenBucket.take_fst _ _ now _).mpr
        (htoken.trans (TokenBucket.le_refill_tokens _ _ htokens now))

-- ===================================================== the other peers

/-- Calls about `p` go by its entry alone. -/
theorem call_congr (hentry : t.inner p = t'.inner p)
    (hpolicy : t.policy = t'.policy) (c : ReputationCall)
    (hpeer : c.peer = p) :
    (t.call c).inner p = (t'.call c).inner p
      ∧ t.admits p c = t'.admits p c := by
  refine ⟨by rw [call_own hpeer, call_own hpeer, hentry, hpolicy], ?_⟩
  cases c with
  | observeEnvelope peer now =>
      obtain rfl : peer = p := hpeer
      rw [admits_own, admits_own, ReputationTable.entry,
        ReputationTable.entry, hentry, hpolicy]
  | recordSigFailure peer now | recordMalformed peer now | refuse peer now
  | reinstate peer => rfl

/-- The calls about `p` among others, and by themselves. -/
theorem calls_filter {t t' : ReputationTable}
    (hentry : t.inner p = t'.inner p) (hpolicy : t.policy = t'.policy)
    (cs : List ReputationCall) :
    (t.calls cs).inner p
        = (t'.calls (cs.filter fun c => decide (c.peer = p))).inner p
      ∧ t.admitted p cs
        = t'.admitted p (cs.filter fun c => decide (c.peer = p)) := by
  induction cs generalizing t t' with
  | nil => exact ⟨hentry, rfl⟩
  | cons c rest ih =>
      by_cases hpeer : c.peer = p
      case pos =>
        obtain ⟨hcall, hadmits⟩ := call_congr hentry hpolicy c hpeer
        obtain ⟨hlast, hcount⟩ := ih hcall
          (call_policy.trans (hpolicy.trans call_policy.symm))
        rw [List.filter_cons, if_pos (decide_eq_true hpeer),
          ReputationTable.admitted, ReputationTable.admitted, hadmits, hcount]
        exact ⟨hlast, rfl⟩
      case neg =>
        obtain ⟨hlast, hcount⟩ := ih ((call_other hpeer).trans hentry)
          (call_policy.trans hpolicy)
        rw [List.filter_cons_of_neg (by simpa using hpeer),
          ReputationTable.admitted, admits_other hpeer, hcount]
        exact ⟨hlast, Nat.zero_add _⟩

-- ============================================================ the bound

/-- Over the readings that the bucket sees. -/
theorem admitted_le_seen {before : List Nat} {t : ReputationTable}
    (hinv : BucketInv p t before) (window : List ReputationCall) :
    t.admitted p window ≤ t.policy.bucketCapacity + t.policy.refillPerSec
      * increase before (bucketReadings p t window) := by
  unfold increase
  cases hbucket : bucketIn p t with
  | none =>
      obtain rfl := hinv.unseen hbucket
      rw [if_pos rfl]
      exact admitted_le_of_none hbucket window
  | some b =>
      obtain ⟨hsome, hclock, htokens⟩ := hinv.seen b hbucket
      rw [if_neg hsome, largest_append, ← hclock]
      exact admitted_le_of_some hbucket htokens window

/-- Over all readings, where no envelope comes with one behind those seen
before. -/
theorem admitted_le_forward (p : Address) (policy : ReputationPolicy)
    (before window : List ReputationCall)
    (hforward : ∀ now, ReputationCall.observeEnvelope p now ∈ window →
      largest (readings p before) ≤ now) :
    ((ReputationTable.new policy).calls before).admitted p window
      ≤ policy.bucketCapacity + policy.refillPerSec
        * increase (readings p before) (readings p window) := by
  have hinv := bucketInv_new p policy before
  have hpolicy := calls_policy (.new policy) before
  have hhead := bucketReadings_head (p := p) (t := .new policy) rfl before
  have hseen := bucketReadings_sublist p (.new policy) before
  generalize (ReputationTable.new policy).calls before = t at hinv hpolicy ⊢
  generalize bucketReadings p (.new policy) before = seen at hinv hhead hseen
  have hpolicy : t.policy = policy := hpolicy
  have hlargest : largest (bucketReadings p t window)
      ≤ largest (readings p window) :=
    largest_le fun r hr =>
      le_largest ((bucketReadings_sublist p t window).subset hr)
  unfold increase
  cases hbucket : bucketIn p t with
  | none =>
      obtain rfl := hinv.unseen hbucket
      have hbound := admitted_le_of_none hbucket window
      rw [hpolicy, bucketReadings_head hbucket] at hbound
      rw [if_pos (List.head?_eq_none_iff.mp hhead.symm),
        List.head?_eq_none_iff.mp hhead.symm, List.nil_append]
      refine hbound.trans (Nat.add_le_add_left (Nat.mul_le_mul_left _ ?_) _)
      exact Nat.sub_le_sub_right hlargest _
  | some b =>
      obtain ⟨hsome, hclock, htokens⟩ := hinv.seen b hbucket
      have hbefore : readings p before ≠ [] := by
        intro hnil
        exact hsome (List.sublist_nil.mp (hnil ▸ hseen))
      have hahead : b.clock ≤ largest (readings p before) := by
        rw [hclock]
        exact largest_le fun r hr => le_largest (hseen.subset hr)
      have hbound := TokenBucket.taken_forward _ t.policy.refillPerSec
        htokens hahead fun now hnow =>
          hforward now (envelope_of_mem hbucket hnow)
      rw [← (bucket_calls hbucket window).2, TokenBucket.after_clock,
        hpolicy] at hbound
      rw [if_neg hbefore, largest_append]
      refine hbound.trans (Nat.add_le_add_left (Nat.mul_le_mul_left _ ?_) _)
      exact Nat.sub_le_sub_right (max_le_max hahead hlargest) _

/-- Between any two calls: the bound over the readings that the peer's bucket
sees, and over all its readings where no envelope comes with one behind those
seen before; a refused peer gets nothing through, and one that is not refused
and has a token gets its envelope through; and calls about other peers make
no difference to its entry and to what it gets through. -/
theorem admitted_bounded (policy : ReputationPolicy) (p : Address)
    (before window : List ReputationCall) :
    let t := (ReputationTable.new policy).calls before
    t.admitted p window ≤ policy.bucketCapacity + policy.refillPerSec
        * increase (bucketReadings p (.new policy) before)
          (bucketReadings p t window)
      ∧ ((∀ now, ReputationCall.observeEnvelope p now ∈ window →
          largest (readings p before) ≤ now) →
        t.admitted p window ≤ policy.bucketCapacity + policy.refillPerSec
          * increase (readings p before) (readings p window))
      ∧ (t.isRefused p = true →
        ∀ now, (t.observeEnvelope p now).1 = false)
      ∧ (t.isRefused p = false → 1 ≤ tokensLeft p t →
        ∀ now, (t.observeEnvelope p now).1 = true)
      ∧ (t.calls window).inner p
        = (t.calls (window.filter fun c => decide (c.peer = p))).inner p
      ∧ t.admitted p window
        = t.admitted p (window.filter fun c => decide (c.peer = p)) := by
  have hinv := bucketInv_new p policy before
  have hbound := admitted_le_seen hinv window
  rw [calls_policy] at hbound
  exact ⟨hbound, admitted_le_forward p policy before window, refused_dropped,
    unrefused_admitted hinv, calls_filter rfl rfl window⟩

/-- What came before: a peer sends an envelope, is refused, sends another one
much later and is reinstated. -/
def refusedMeanwhile (p : Address) : List ReputationCall :=
  [.observeEnvelope p 1, .refuse p 1, .observeEnvelope p 1000, .reinstate p]

/-- Then the clock steps back and comes on again. -/
def steppedBack (p : Address) : List ReputationCall :=
  [.observeEnvelope p 1, .observeEnvelope p 1, .observeEnvelope p 1000,
    .observeEnvelope p 1000, .observeEnvelope p 1000]

/-- A bucket of 3 tokens that gets one a second lets 5 envelopes through
while the largest reading stays what it was. -/
theorem reading_seen_while_refused :
    let policy : ReputationPolicy := ⟨3, 1, 2, 2⟩
    let p : Address := Bytes.fill 32 0xAA
    let t := (ReputationTable.new policy).calls (refusedMeanwhile p)
    increase (readings p (refusedMeanwhile p)) (readings p (steppedBack p)) = 0
      ∧ t.admitted p (steppedBack p) = 5
      ∧ ¬ t.admitted p (steppedBack p)
        ≤ policy.bucketCapacity + policy.refillPerSec
          * increase (readings p (refusedMeanwhile p))
            (readings p (steppedBack p)) := by
  decide +kernel

end Sidevers.Proofs
