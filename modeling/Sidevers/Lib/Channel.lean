/-
Bounded channels: any number of senders and one receiver.

A sender offers one item at a time and waits with it until there is room; the
receiver takes the item that has been in the channel longest. Which of the
senders that wait comes next is left open.

`content` is what a sender has in the channel or waits with, in the order it
was offered: it grows by what is offered, is untouched by what enters, and
loses its first item to the receiver.
-/
import Sidevers.Lib.Rows

namespace Sidevers.Lib

universe u v

variable {ι : Type u} {α : Type v}

/-- The senders that wait, each with its item, and the items that have
entered. -/
structure Channel (ι : Type u) (α : Type v) where
  waiting : Rows ι α
  queue : List (ι × α)

-- ========================================================== by the sender

section sentBy

variable [DecidableEq ι]

/-- The items of one sender. -/
def sentBy (i : ι) (items : List (ι × α)) : List α :=
  (items.filter fun x => decide (x.1 = i)).map Prod.snd

@[simp] theorem sentBy_nil (i : ι) : sentBy i ([] : List (ι × α)) = [] := rfl

theorem sentBy_append (i : ι) (xs ys : List (ι × α)) :
    sentBy i (xs ++ ys) = sentBy i xs ++ sentBy i ys := by
  unfold sentBy
  rw [List.filter_append, List.map_append]

theorem sentBy_cons (i : ι) (x : ι × α) (xs : List (ι × α)) :
    sentBy i (x :: xs) = sentBy i [x] ++ sentBy i xs :=
  sentBy_append i [x] xs

theorem sentBy_single_self (i : ι) (a : α) : sentBy i [(i, a)] = [a] := by
  simp [sentBy]

theorem sentBy_single_other {i j : ι} (h : j ≠ i) (a : α) :
    sentBy i [(j, a)] = [] := by
  simp [sentBy, h]

/-- An item is among those of its sender. -/
theorem mem_sentBy {i : ι} {a : α} {items : List (ι × α)} :
    a ∈ sentBy i items ↔ (i, a) ∈ items := by
  unfold sentBy
  simp only [List.mem_map, List.mem_filter, decide_eq_true_eq]
  constructor
  · rintro ⟨⟨j, b⟩, ⟨hmem, rfl⟩, rfl⟩
    exact hmem
  · exact fun hmem => ⟨(i, a), ⟨hmem, rfl⟩, rfl⟩

/-- A row is the one item of its key. -/
theorem sentBy_rows (t : Rows ι α) (i : ι) :
    sentBy i t.rows = (t.get i).toList := by
  cases hget : t.get i with
  | none =>
      have hnone := Rows.get_eq_none_iff.mp hget
      have hnil : (t.rows.filter fun x => decide (x.1 = i)) = [] := by
        refine List.filter_eq_nil_iff.mpr fun x hx hkey => hnone ?_
        exact List.mem_map.mpr ⟨x, hx, of_decide_eq_true hkey⟩
      unfold sentBy
      rw [hnil]
      rfl
  | some a =>
      obtain ⟨before, later, hrows⟩ :=
        List.append_of_mem (Rows.get_eq_some_iff.mp hget)
      have hnodup := t.nodup
      rw [hrows, List.map_append, List.map_cons, List.nodup_middle] at hnodup
      obtain ⟨hkey, -⟩ := List.nodup_cons.mp hnodup
      have hothers : ∀ xs : List (ι × α), (∀ x ∈ xs, x ∈ before ++ later) →
          sentBy i xs = [] := by
        intro xs hxs
        refine List.eq_nil_iff_forall_not_mem.mpr fun b hb => hkey ?_
        rw [← List.map_append]
        exact List.mem_map.mpr ⟨(i, b), hxs _ (mem_sentBy.mp hb), rfl⟩
      rw [hrows, sentBy_append, sentBy_cons, sentBy_single_self,
        hothers before fun x hx => List.mem_append_left _ hx,
        hothers later fun x hx => List.mem_append_right _ hx]
      rfl

end sentBy

namespace Channel

/-- The channel in which nothing is. -/
def empty : Channel ι α := ⟨.empty, []⟩

variable [DecidableEq ι]

/-- A sender comes with an item, unless it still waits with another. -/
def offer (c : Channel ι α) (i : ι) (a : α) : Option (Channel ι α) :=
  match c.waiting.get i with
  | some _ => none
  | none => some { c with waiting := c.waiting.insertOrIgnore i a }

/-- The item of a sender that waits enters, if there is room. -/
def enter (capacity : Nat) (c : Channel ι α) (i : ι) :
    Option (Channel ι α) :=
  match c.waiting.get i with
  | none => none
  | some a =>
      if c.queue.length < capacity then
        some ⟨c.waiting.delete i, c.queue ++ [(i, a)]⟩
      else none

/-- The receiver takes the first. -/
def receive (c : Channel ι α) : Option ((ι × α) × Channel ι α) :=
  match c.queue with
  | [] => none
  | x :: rest => some (x, { c with queue := rest })

/-- What a sender has in the channel, and waits with. -/
def content (c : Channel ι α) (i : ι) : List α :=
  sentBy i c.queue ++ (c.waiting.get i).toList

/-- All of it. -/
def items (c : Channel ι α) : List (ι × α) := c.queue ++ c.waiting.rows

@[simp] theorem content_empty (i : ι) :
    (empty : Channel ι α).content i = [] := rfl

theorem sentBy_items (c : Channel ι α) (i : ι) :
    sentBy i c.items = c.content i := by
  unfold items content
  rw [sentBy_append, sentBy_rows]

variable {c c' : Channel ι α} {i : ι} {a : α} {capacity : Nat}

theorem content_offer (h : c.offer i a = some c') (j : ι) :
    c'.content j = c.content j ++ sentBy j [(i, a)] := by
  unfold offer at h
  split at h
  case h_1 => cases h
  case h_2 hfree =>
    cases h
    unfold content
    rw [Rows.get_insertOrIgnore, hfree, List.append_assoc]
    by_cases hj : j = i
    · subst hj
      rw [if_pos rfl, hfree, sentBy_single_self]
      rfl
    · rw [if_neg hj, sentBy_single_other (Ne.symm hj), List.append_nil]

theorem content_enter (h : c.enter capacity i = some c') (j : ι) :
    c'.content j = c.content j := by
  unfold enter at h
  split at h
  case h_1 => cases h
  case h_2 b hget =>
    split at h
    case isFalse => cases h
    case isTrue =>
      cases h
      unfold content
      rw [sentBy_append, Rows.get_delete, List.append_assoc]
      by_cases hj : j = i
      · subst hj
        rw [if_pos rfl, hget, sentBy_single_self]
        rfl
      · rw [if_neg hj, sentBy_single_other (Ne.symm hj), List.nil_append]

theorem content_receive {x : ι × α} (h : c.receive = some (x, c')) (j : ι) :
    c.content j = sentBy j [x] ++ c'.content j := by
  unfold receive at h
  split at h
  case h_1 => cases h
  case h_2 y rest hqueue =>
    cases h
    unfold content
    rw [hqueue, sentBy_cons, List.append_assoc]

theorem queue_offer (h : c.offer i a = some c') : c'.queue = c.queue := by
  unfold offer at h
  split at h
  case h_1 => cases h
  case h_2 =>
    cases h
    rfl

/-- One waits less, and there is one more in it, but never more than it
holds. -/
theorem length_enter (h : c.enter capacity i = some c') :
    c'.waiting.rows.length + 1 = c.waiting.rows.length
      ∧ c'.queue.length = c.queue.length + 1
      ∧ c'.queue.length ≤ capacity := by
  unfold enter at h
  split at h
  case h_1 => cases h
  case h_2 hget =>
    split at h
    case isFalse => cases h
    case isTrue hroom =>
      cases h
      have hsome : c.waiting.get i ≠ none := by
        rw [hget]
        exact nofun
      refine ⟨Rows.length_delete hsome, ?_, ?_⟩
      · exact List.length_append
      · rw [List.length_append, List.length_singleton]
        omega

omit [DecidableEq ι] in
theorem length_receive {x : ι × α} (h : c.receive = some (x, c')) :
    c'.waiting = c.waiting ∧ c'.queue.length + 1 = c.queue.length := by
  unfold receive at h
  split at h
  case h_1 => cases h
  case h_2 y rest hqueue =>
    cases h
    rw [hqueue]
    exact ⟨rfl, rfl⟩

/-- While there is room and something waits, something can enter. -/
theorem enter_isSome (hroom : c.queue.length < capacity)
    (hget : c.waiting.get i ≠ none) : (c.enter capacity i).isSome := by
  obtain ⟨a, ha⟩ := Option.ne_none_iff_exists'.mp hget
  unfold enter
  rw [ha]
  dsimp only
  rw [if_pos hroom]
  rfl

end Channel

end Sidevers.Lib
