/-
Digits of one width given out as digits of another.

Digits of `w` bits are taken in, high ones first, and their bits given out
again `v` at a time; `Regroup` says of a moment on the way what was taken and
given and which bits are still held. Taking and giving keep it, and so does
padding the last bits with zeros. There and back again gives the digits that
went in (`Regroup.back`): what was padded is too little for a digit of its
own.

`digitsOf` gives the digits of a number, as many as are asked for.
-/
import Mathlib.Data.List.Induction
import Mathlib.Data.Nat.Digits.Defs

namespace Sidevers.Lib

/-- The number that digits of `w` bits denote, the highest first. -/
def digitsValue (w : Nat) (ds : List Nat) : Nat :=
  Nat.ofDigits (2 ^ w) ds.reverse

theorem digitsValue_concat (w : Nat) (ds : List Nat) (d : Nat) :
    digitsValue w (ds ++ [d]) = digitsValue w ds * 2 ^ w + d := by
  unfold digitsValue
  rw [List.reverse_append, List.reverse_singleton, List.singleton_append,
    Nat.ofDigits_cons, Nat.add_comm, Nat.mul_comm]

theorem digitsValue_injective {w : Nat} (hw : 0 < w) {ds ds' : List Nat}
    (hlen : ds.length = ds'.length) (h : ∀ d ∈ ds, d < 2 ^ w)
    (h' : ∀ d ∈ ds', d < 2 ^ w) (heq : digitsValue w ds = digitsValue w ds') :
    ds = ds' := by
  refine List.reverse_inj.mp (Nat.ofDigits_inj_of_len_eq
    (Nat.one_lt_two_pow hw.ne') ?_ ?_ ?_ heq)
  · rw [List.length_reverse, List.length_reverse, hlen]
  · exact fun d hd => h d (List.mem_reverse.mp hd)
  · exact fun d hd => h' d (List.mem_reverse.mp hd)

theorem digitsValue_lt {w : Nat} {ds : List Nat} (h : ∀ d ∈ ds, d < 2 ^ w) :
    digitsValue w ds < 2 ^ (w * ds.length) := by
  induction ds using List.reverseRecOn with
  | nil => exact Nat.one_pos
  | append_singleton ds d ih =>
      have hd : d < 2 ^ w := h d (List.mem_append_right _ List.mem_cons_self)
      have hds := ih fun d' hd' => h d' (List.mem_append_left _ hd')
      have hmul := Nat.mul_le_mul_right (2 ^ w) (Nat.succ_le_of_lt hds)
      rw [Nat.succ_mul] at hmul
      rw [digitsValue_concat, List.length_append, List.length_singleton,
        Nat.mul_succ, Nat.pow_add]
      omega

-- ===================================================== digits of a number

/-- The `n` lowest digits of `w` bits of a number, the highest first. -/
def digitsOf (w : Nat) : Nat → Nat → List Nat
  | 0, _ => []
  | n + 1, x => digitsOf w n (x / 2 ^ w) ++ [x % 2 ^ w]

@[simp] theorem length_digitsOf (w n x : Nat) :
    (digitsOf w n x).length = n := by
  induction n generalizing x with
  | zero => rfl
  | succ n ih =>
      rw [digitsOf, List.length_append, ih, List.length_singleton]

theorem digitsOf_lt (w n x : Nat) : ∀ d ∈ digitsOf w n x, d < 2 ^ w := by
  induction n generalizing x with
  | zero => exact nofun
  | succ n ih =>
      intro d hd
      rcases List.mem_append.mp hd with hd | hd
      · exact ih _ d hd
      · obtain rfl := List.mem_singleton.mp hd
        exact Nat.mod_lt _ (Nat.two_pow_pos w)

/-- A number that `n` digits hold is what they denote. -/
theorem digitsValue_digitsOf {w n x : Nat} (h : x < 2 ^ (w * n)) :
    digitsValue w (digitsOf w n x) = x := by
  induction n generalizing x with
  | zero => exact (Nat.lt_one_iff.mp h).symm
  | succ n ih =>
      have hhigh : x / 2 ^ w < 2 ^ (w * n) := by
        refine Nat.div_lt_of_lt_mul ?_
        rwa [← Nat.pow_add, Nat.add_comm, ← Nat.mul_succ]
      rw [digitsOf, digitsValue_concat, ih hhigh, Nat.mul_comm]
      exact Nat.div_add_mod x (2 ^ w)

/-- Digits are those of the number that they denote. -/
theorem digitsOf_digitsValue {w : Nat} {ds : List Nat}
    (h : ∀ d ∈ ds, d < 2 ^ w) :
    digitsOf w ds.length (digitsValue w ds) = ds := by
  induction ds using List.reverseRecOn with
  | nil => rfl
  | append_singleton ds d ih =>
      have hd : d < 2 ^ w := h d (List.mem_append_right _ List.mem_cons_self)
      have hds := ih fun d' hd' => h d' (List.mem_append_left _ hd')
      rw [List.length_append, List.length_singleton, digitsOf,
        digitsValue_concat, Nat.mul_comm, Nat.mul_add_div (Nat.two_pow_pos w),
        Nat.div_eq_of_lt hd, Nat.add_zero, hds, Nat.mul_add_mod,
        Nat.mod_eq_of_lt hd]

-- ============================================================= regrouping

/-- The bits of the digits taken are those of the digits given, then `bits`
more, which denote `rest`. -/
structure Regroup (w v : Nat) (taken given : List Nat) (rest bits : Nat) :
    Prop where
  value : digitsValue w taken = digitsValue v given * 2 ^ bits + rest
  length : w * taken.length = v * given.length + bits
  rest_lt : rest < 2 ^ bits
  taken_lt : ∀ d ∈ taken, d < 2 ^ w
  given_lt : ∀ d ∈ given, d < 2 ^ v

namespace Regroup

variable {w v : Nat} {taken given : List Nat} {rest bits : Nat}

theorem nil : Regroup w v [] [] 0 0 :=
  ⟨rfl, rfl, Nat.one_pos, nofun, nofun⟩

theorem mem_concat_lt {n : Nat} {ds : List Nat} {d : Nat}
    (h : ∀ x ∈ ds, x < n) (hd : d < n) : ∀ x ∈ ds ++ [d], x < n := by
  intro x hx
  rcases List.mem_append.mp hx with hx | hx
  · exact h x hx
  · obtain rfl := List.mem_singleton.mp hx
    exact hd

/-- A digit is taken. -/
theorem take (h : Regroup w v taken given rest bits) {d : Nat}
    (hd : d < 2 ^ w) :
    Regroup w v (taken ++ [d]) given (rest * 2 ^ w + d) (bits + w) where
  value := by
    rw [digitsValue_concat, h.value, Nat.pow_add]
    ring
  length := by
    rw [List.length_append, List.length_singleton, Nat.mul_succ, h.length,
      Nat.add_assoc]
  rest_lt := by
    have hrest := Nat.mul_le_mul_right (2 ^ w) (Nat.succ_le_of_lt h.rest_lt)
    rw [Nat.pow_add]
    rw [Nat.succ_mul] at hrest
    omega
  taken_lt := mem_concat_lt h.taken_lt hd
  given_lt := h.given_lt

/-- A digit is given: the highest bits held. -/
theorem give (h : Regroup w v taken given rest bits) (hv : v ≤ bits) :
    Regroup w v taken (given ++ [rest / 2 ^ (bits - v)])
      (rest % 2 ^ (bits - v)) (bits - v) where
  value := by
    have hpow : 2 ^ bits = 2 ^ v * 2 ^ (bits - v) := by
      rw [← Nat.pow_add, Nat.add_sub_cancel' hv]
    have hrest := Nat.div_add_mod rest (2 ^ (bits - v))
    rw [h.value, digitsValue_concat, hpow, Nat.add_mul, Nat.mul_assoc,
      Nat.add_assoc, Nat.mul_comm (rest / _), hrest]
  length := by
    rw [h.length, List.length_append, List.length_singleton, Nat.mul_succ,
      Nat.add_assoc, Nat.add_sub_cancel' hv]
  rest_lt := Nat.mod_lt _ (Nat.two_pow_pos _)
  taken_lt := h.taken_lt
  given_lt := by
    refine mem_concat_lt h.given_lt (Nat.div_lt_of_lt_mul ?_)
    rw [← Nat.pow_add, Nat.sub_add_cancel hv]
    exact h.rest_lt

/-- What is given in the end: the bits still held, filled up with zeros. -/
def padded (v : Nat) (given : List Nat) (rest bits : Nat) : List Nat :=
  if bits = 0 then given else given ++ [rest * 2 ^ (v - bits)]

theorem padded_lt (h : Regroup w v taken given rest bits) (hbits : bits < v) :
    ∀ d ∈ padded v given rest bits, d < 2 ^ v := by
  unfold padded
  split
  case isTrue => exact h.given_lt
  case isFalse =>
    refine mem_concat_lt h.given_lt ?_
    have hrest := Nat.mul_lt_mul_of_pos_right h.rest_lt
      (Nat.two_pow_pos (v - bits))
    rwa [← Nat.pow_add, Nat.add_sub_cancel' hbits.le] at hrest

/-- Less than a digit is filled up. -/
theorem padding (h : Regroup w v taken given rest bits) (hbits : bits < v) :
    ∃ pad < v,
      digitsValue v (padded v given rest bits) = digitsValue w taken * 2 ^ pad
        ∧ v * (padded v given rest bits).length
          = w * taken.length + pad := by
  unfold padded
  split
  case isTrue hzero =>
    subst hzero
    have hrest : rest = 0 := Nat.lt_one_iff.mp h.rest_lt
    refine ⟨0, hbits, ?_, h.length.symm⟩
    rw [h.value, hrest, Nat.pow_zero, Nat.mul_one, Nat.mul_one, Nat.add_zero]
  case isFalse hpos =>
    refine ⟨v - bits, by omega, ?_, ?_⟩
    · have hpow : 2 ^ v = 2 ^ bits * 2 ^ (v - bits) := by
        rw [← Nat.pow_add, Nat.add_sub_cancel' hbits.le]
      rw [digitsValue_concat, h.value, hpow, Nat.add_mul, Nat.mul_assoc]
    · rw [List.length_append, List.length_singleton, Nat.mul_succ, h.length]
      omega

/-- Digits that were regrouped and regrouped back are the digits that went
in. -/
theorem back (hvw : v ≤ w) (h : Regroup w v taken given rest bits)
    (hbits : bits < v) {out : List Nat} {rest' bits' : Nat}
    (h' : Regroup v w (padded v given rest bits) out rest' bits')
    (hbits' : bits' < w) : out = taken := by
  obtain ⟨pad, hpad, hvalue, hlength⟩ := h.padding hbits
  rw [h'.value] at hvalue
  rw [h'.length] at hlength
  -- the padding is less than a digit of either width
  have hsame : bits' = pad := by
    have hmod := congrArg (· % w) hlength
    simpa only [Nat.mul_add_mod, Nat.mod_eq_of_lt hbits',
      Nat.mod_eq_of_lt (Nat.lt_of_lt_of_le hpad hvw)] using hmod
  subst hsame
  have hw : 0 < w := Nat.lt_of_le_of_lt (Nat.zero_le _) hbits'
  refine digitsValue_injective hw ?_ h'.given_lt h.taken_lt ?_
  · exact Nat.eq_of_mul_eq_mul_left hw (Nat.add_right_cancel hlength)
  · have hdiv := congrArg (· / 2 ^ bits') hvalue
    simpa only [Nat.mul_comm _ (2 ^ bits'), Nat.mul_add_div
      (Nat.two_pow_pos bits'), Nat.div_eq_of_lt h'.rest_lt, Nat.add_zero,
      Nat.mul_div_cancel_left _ (Nat.two_pow_pos bits')] using hdiv

end Regroup

end Sidevers.Lib
