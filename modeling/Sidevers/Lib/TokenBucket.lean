/-
A token bucket: what it lets through between any two moments.

A bucket fills up while its clock goes forward, never above its capacity, and
gives a token for what it lets through. A reading behind its clock fills
nothing and does not set it back.

Every token that was given came from those held or was filled in since, so
what is given and still held is never more than that (`taken_add_le`): no more
than the capacity and what the clock went forward by (`taken_le`). Where
no reading is behind a moment from which one counts, the bucket is filled up
to that moment before anything is given, and the capacity is all that it can
have held (`taken_forward`).
-/
import Mathlib.Algebra.Order.Group.Nat
import Mathlib.Tactic.Ring

namespace Sidevers.Lib

/-- The tokens, and the reading up to which the bucket is filled. -/
structure TokenBucket where
  tokens : Nat
  clock : Nat
  deriving DecidableEq

namespace TokenBucket

variable (capacity rate : Nat)

/-- The bucket at a reading. -/
def refill (now : Nat) (b : TokenBucket) : TokenBucket :=
  if now > b.clock then
    ⟨min (b.tokens + (now - b.clock) * rate) capacity, now⟩
  else b

/-- A token is asked for. -/
def take (now : Nat) (b : TokenBucket) : Bool × TokenBucket :=
  let full := b.refill capacity rate now
  if full.tokens ≥ 1 then (true, ⟨full.tokens - 1, full.clock⟩)
  else (false, full)

/-- How many of the readings get a token. -/
def taken (b : TokenBucket) : List Nat → Nat
  | [] => 0
  | now :: rest =>
      (b.take capacity rate now).1.toNat
        + taken (b.take capacity rate now).2 rest

/-- The bucket after the readings. -/
def after (b : TokenBucket) (readings : List Nat) : TokenBucket :=
  readings.foldl (fun b now => (b.take capacity rate now).2) b

-- ============================================================== one step

@[simp] theorem refill_clock (now : Nat) (b : TokenBucket) :
    (b.refill capacity rate now).clock = max b.clock now := by
  unfold refill
  split
  case isTrue hlate => exact (max_eq_right hlate.le).symm
  case isFalse hlate => exact (max_eq_left (Nat.le_of_not_lt hlate)).symm

theorem refill_tokens_le {b : TokenBucket} (h : b.tokens ≤ capacity)
    (now : Nat) : (b.refill capacity rate now).tokens ≤ capacity := by
  unfold refill
  split
  case isTrue => exact Nat.min_le_right _ _
  case isFalse => exact h

/-- Filling up takes nothing away. -/
theorem le_refill_tokens {b : TokenBucket} (h : b.tokens ≤ capacity)
    (now : Nat) : b.tokens ≤ (b.refill capacity rate now).tokens := by
  unfold refill
  split
  case isTrue => exact Nat.le_min.mpr ⟨Nat.le_add_right _ _, h⟩
  case isFalse => exact Nat.le_refl _

/-- What is filled in is what the clock went forward by. -/
theorem refill_tokens_add_le (now : Nat) (b : TokenBucket) :
    (b.refill capacity rate now).tokens + rate * b.clock
      ≤ b.tokens + rate * (b.refill capacity rate now).clock := by
  unfold refill
  split
  case isTrue hlate =>
    have hforward : rate * now = rate * b.clock + (now - b.clock) * rate := by
      rw [Nat.mul_comm (now - b.clock), ← Nat.mul_add,
        Nat.add_sub_cancel' hlate.le]
    have hmin := Nat.min_le_left (b.tokens + (now - b.clock) * rate) capacity
    dsimp only
    omega
  case isFalse => exact Nat.le_refl _

/-- A token is given iff there is one. -/
theorem take_fst (now : Nat) (b : TokenBucket) :
    (b.take capacity rate now).1 = true
      ↔ 1 ≤ (b.refill capacity rate now).tokens := by
  unfold take
  dsimp only
  split
  case isTrue htoken => exact iff_of_true rfl htoken
  case isFalse htoken => exact iff_of_false Bool.false_ne_true htoken

@[simp] theorem take_clock (now : Nat) (b : TokenBucket) :
    (b.take capacity rate now).2.clock = max b.clock now := by
  unfold take
  dsimp only
  split <;> exact refill_clock capacity rate now b

/-- The token that is given is one less in the bucket. -/
theorem take_add (now : Nat) (b : TokenBucket) :
    (b.take capacity rate now).1.toNat + (b.take capacity rate now).2.tokens
      = (b.refill capacity rate now).tokens := by
  unfold take
  dsimp only
  split
  case isTrue htoken => exact Nat.add_sub_cancel' htoken
  case isFalse => exact Nat.zero_add _

theorem take_tokens_le {b : TokenBucket} (h : b.tokens ≤ capacity)
    (now : Nat) : (b.take capacity rate now).2.tokens ≤ capacity :=
  calc (b.take capacity rate now).2.tokens
    _ ≤ (b.refill capacity rate now).tokens := by
        rw [← take_add capacity rate now b]
        exact Nat.le_add_left _ _
    _ ≤ capacity := refill_tokens_le capacity rate h now

-- ============================================================== every run

@[simp] theorem after_nil (b : TokenBucket) :
    b.after capacity rate [] = b := rfl

@[simp] theorem after_cons (b : TokenBucket) (now : Nat) (rest : List Nat) :
    b.after capacity rate (now :: rest)
      = (b.take capacity rate now).2.after capacity rate rest := rfl

/-- The clock is at the largest reading. -/
theorem after_clock (b : TokenBucket) (readings : List Nat) :
    (b.after capacity rate readings).clock
      = max b.clock (readings.foldr max 0) := by
  induction readings generalizing b with
  | nil => exact (Nat.max_zero _).symm
  | cons now rest ih =>
      rw [after_cons, ih, take_clock, Nat.max_assoc, List.foldr_cons]

/-- What is given and what is held came from what was held and what was filled
in. -/
theorem taken_add_le (b : TokenBucket) (readings : List Nat) :
    b.taken capacity rate readings + (b.after capacity rate readings).tokens
        + rate * b.clock
      ≤ b.tokens + rate * (b.after capacity rate readings).clock := by
  induction readings generalizing b with
  | nil => exact Nat.le_of_eq (congrArg (· + _) (Nat.zero_add _))
  | cons now rest ih =>
      have hrest := ih (b.take capacity rate now).2
      have hgiven := take_add capacity rate now b
      have hfilled := refill_tokens_add_le capacity rate now b
      rw [take_clock] at hrest
      rw [refill_clock] at hfilled
      rw [taken, after_cons]
      omega

/-- Between any two moments: the capacity, and what the clock went forward
by. -/
theorem taken_le {b : TokenBucket} (h : b.tokens ≤ capacity)
    (readings : List Nat) :
    b.taken capacity rate readings
      ≤ capacity
        + rate * ((b.after capacity rate readings).clock - b.clock) := by
  have hpotential := taken_add_le capacity rate b readings
  rw [Nat.mul_sub]
  omega

/-- From a moment on that no reading is behind. -/
theorem taken_forward {b : TokenBucket} (h : b.tokens ≤ capacity) {start : Nat}
    {readings : List Nat} (hahead : b.clock ≤ start)
    (hreadings : ∀ now ∈ readings, start ≤ now) :
    b.taken capacity rate readings
      ≤ capacity
        + rate * ((b.after capacity rate readings).clock - start) := by
  cases readings with
  | nil => exact Nat.zero_le _
  | cons now rest =>
      have hnow : start ≤ now := hreadings now List.mem_cons_self
      have hrest := taken_add_le capacity rate (b.take capacity rate now).2
        rest
      have hgiven := take_add capacity rate now b
      have hfull := refill_tokens_le capacity rate h now
      rw [take_clock, max_eq_right (hahead.trans hnow)] at hrest
      rw [taken, after_cons, Nat.mul_sub]
      have hstart : rate * start ≤ rate * now := Nat.mul_le_mul_left rate hnow
      omega

end TokenBucket

end Sidevers.Lib
