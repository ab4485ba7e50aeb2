/-
Words that tell what they were written for.

Words are written one after the other, with no mark between them.
`Tells bound w P`: where two of the words `w a` and `w b` stand at the front
of one list, `a` and `b` agree as `P` says and the words end at the same
place. It holds of a word that some reader reads back, and is put together
along the way the words are: one after the other, field by field, and as a
count with as many items. The bound is the length up to which a count is
written faithfully.
-/
import Mathlib.Data.List.Basic

namespace Sidevers.Lib

variable {α γ β : Type} {bound : Nat} {w v : α → List β} {P Q : α → α → Prop}

/-- Two words at the front of one list are for values that agree, and leave
the same rest. -/
def Tells (bound : Nat) (w : α → List β) (P : α → α → Prop) : Prop :=
  ∀ a b x y, (w a ++ x).length < bound → w a ++ x = w b ++ y → P a b ∧ x = y

namespace Tells

theorem mono (h : Tells bound w P) (hPQ : ∀ a b, P a b → Q a b) :
    Tells bound w Q := by
  intro a b x y hlen heq
  obtain ⟨hP, hrest⟩ := h a b x y hlen heq
  exact ⟨hPQ a b hP, hrest⟩

/-- A word that is the same for all values. -/
theorem const (p : List β) : Tells bound (fun _ : α => p) fun _ _ => True := by
  intro a b x y _ heq
  exact ⟨trivial, List.append_cancel_left heq⟩

/-- One word after the other. -/
theorem append (hw : Tells bound w P) (hv : Tells bound v Q) :
    Tells bound (fun a => w a ++ v a) fun a b => P a b ∧ Q a b := by
  intro a b x y hlen heq
  rw [List.append_assoc] at hlen heq
  rw [List.append_assoc] at heq
  obtain ⟨hP, hrest⟩ := hw a b _ _ hlen heq
  have hshort : (v a ++ x).length < bound := by
    rw [List.length_append] at hlen
    omega
  obtain ⟨hQ, hend⟩ := hv a b x y hshort hrest
  exact ⟨⟨hP, hQ⟩, hend⟩

/-- The word of a part. -/
theorem part (h : Tells bound w P) (f : γ → α) :
    Tells bound (fun c => w (f c)) fun c d => P (f c) (f d) :=
  fun c d => h (f c) (f d)

/-- The words alone. -/
theorem of_eq (h : Tells bound w P) {a b : α} (hlen : (w a).length < bound)
    (heq : w a = w b) : P a b := by
  refine (h a b [] [] ?_ ?_).1
  · rwa [List.append_nil]
  · rw [heq]

-- ================================================================== lists

/-- As many items on both sides. -/
theorem items (h : Tells bound w Eq) {as bs : List α} {x y : List β}
    (hcount : as.length = bs.length) (hlen : (as.flatMap w ++ x).length < bound)
    (heq : as.flatMap w ++ x = bs.flatMap w ++ y) : as = bs ∧ x = y := by
  induction as generalizing bs with
  | nil =>
      obtain rfl := List.eq_nil_of_length_eq_zero hcount.symm
      exact ⟨rfl, heq⟩
  | cons a as ih =>
      cases bs with
      | nil => cases hcount
      | cons b bs =>
          simp only [List.flatMap_cons, List.append_assoc] at hlen heq
          obtain ⟨rfl, hrest⟩ := h a b _ _ hlen heq
          have hshort : (as.flatMap w ++ x).length < bound := by
            rw [List.length_append] at hlen
            omega
          obtain ⟨rfl, hend⟩ := ih (Nat.succ.inj hcount) hshort hrest
          exact ⟨rfl, hend⟩

/-- No item is written as nothing, so there are no more items than symbols. -/
theorem count_le (hne : ∀ a, w a ≠ []) (as : List α) :
    as.length ≤ (as.flatMap w).length := by
  induction as with
  | nil => exact Nat.zero_le _
  | cons a as ih =>
      have hpos := List.length_pos_iff.mpr (hne a)
      rw [List.flatMap_cons, List.length_append, List.length_cons]
      omega

/-- How many items there are, then the items. -/
theorem counted {head : Nat → List β} (hne : ∀ a, w a ≠ [])
    (hhead : Tells bound head fun m n => m < bound → n < bound → m = n)
    (h : Tells bound w Eq) :
    Tells bound (fun as : List α => head as.length ++ as.flatMap w) Eq := by
  intro as bs x y hlen heq
  have hlen' : (head bs.length ++ bs.flatMap w ++ y).length < bound :=
    heq ▸ hlen
  have has := count_le hne as
  have hbs := count_le hne bs
  rw [List.append_assoc] at hlen hlen' heq
  rw [List.append_assoc] at heq
  obtain ⟨hcount, hrest⟩ := hhead _ _ _ _ hlen heq
  simp only [List.length_append] at hlen hlen'
  refine h.items (hcount (by omega) (by omega)) ?_ hrest
  rw [List.length_append]
  omega

end Tells

end Sidevers.Lib
