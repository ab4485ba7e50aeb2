/-
CBOR data items (RFC 8949 §3), as byte strings.

A head is an initial byte and the bytes of its argument. `Items n bs` says
that `bs` is `n` data items, one after the other: a head, the bytes the item
has of its own, and the items nested in it, which are counted along with
those that follow it. Indefinite lengths are left out.

The encoding of a number of items is prefix-free (`Items.unique`): bytes that
start with `n` items start with no other `n` items.
-/
import Mathlib.Algebra.Group.Nat.Defs
import Mathlib.Data.List.Basic

namespace Sidevers.Lib.Cbor

/-- The number big-endian bytes denote. -/
def beNat (bs : List UInt8) : Nat := bs.foldl (fun acc b => acc * 256 + b.toNat) 0

/-- The head at the start of the bytes, and what follows: major type and
argument. -/
def parseHead : List UInt8 → Option ((UInt8 × Nat) × List UInt8)
  | [] => none
  | ib :: rest =>
      let info := (ib &&& 0x1F).toNat
      let width := if info ≤ 23 then 0 else 2 ^ (info - 24)
      if 27 < info ∨ rest.length < width then none
      else
        some ((ib >>> 5, if info ≤ 23 then info else beNat (rest.take width)),
          rest.drop width)

/-- A head of the major type and the argument. -/
def IsHead (major : UInt8) (arg : Nat) (hd : List UInt8) : Prop :=
  ∀ rest, parseHead (hd ++ rest) = some ((major, arg), rest)

/-- A one-byte head. -/
theorem isHead_short (ib : UInt8) (h : (ib &&& 0x1F).toNat ≤ 23) :
    IsHead (ib >>> 5) (ib &&& 0x1F).toNat [ib] := by
  intro rest
  have hlong : ¬ 27 < (ib &&& 0x1F).toNat := by omega
  simp only [List.singleton_append, parseHead, h, ↓reduceIte, hlong,
    Nat.not_lt_zero, or_self, List.drop_zero]

/-- A head whose argument follows in as many bytes as it announces. -/
theorem isHead_long (ib : UInt8) (arg : List UInt8)
    (h : 23 < (ib &&& 0x1F).toNat) (h' : (ib &&& 0x1F).toNat ≤ 27)
    (hlen : arg.length = 2 ^ ((ib &&& 0x1F).toNat - 24)) :
    IsHead (ib >>> 5) (beNat arg) (ib :: arg) := by
  intro rest
  have hshort : ¬ (ib &&& 0x1F).toNat ≤ 23 := by omega
  have hlong : ¬ 27 < (ib &&& 0x1F).toNat := by omega
  have hroom : ¬ (arg ++ rest).length < arg.length := by
    rw [List.length_append]
    omega
  simp only [List.cons_append, parseHead, hshort, ↓reduceIte, hlong, ← hlen,
    hroom, or_self, List.take_left', List.drop_left']

/-- Bytes start with one head at most. -/
theorem IsHead.unique {m m' : UInt8} {a a' : Nat} {hd hd' r r' : List UInt8}
    (h : IsHead m a hd) (h' : IsHead m' a' hd') (heq : hd ++ r = hd' ++ r') :
    m = m' ∧ a = a' ∧ hd = hd' ∧ r = r' := by
  have hsome := h r
  rw [heq, h' r'] at hsome
  simp only [Option.some.injEq, Prod.mk.injEq] at hsome
  obtain ⟨⟨rfl, rfl⟩, rfl⟩ := hsome
  exact ⟨rfl, rfl, List.append_cancel_right heq, rfl⟩

/-- A head begins with its major type. -/
theorem IsHead.major {m : UInt8} {a : Nat} {hd : List UInt8}
    (h : IsHead m a hd) : ∃ ib tl, hd = ib :: tl ∧ ib >>> 5 = m := by
  have hparse := h []
  rw [List.append_nil] at hparse
  cases hd with
  | nil => cases hparse
  | cons ib tl =>
      refine ⟨ib, tl, rfl, ?_⟩
      simp only [parseHead, Option.ite_none_left_eq_some, Option.some.injEq,
        Prod.mk.injEq] at hparse
      exact hparse.2.1.1

/-- The bytes an item has of its own after the head. -/
def ownBytes (major : UInt8) (arg : Nat) : Nat :=
  if major = 2 ∨ major = 3 then arg else 0

/-- The items nested in an item. -/
def nested (major : UInt8) (arg : Nat) : Nat :=
  if major = 4 then arg else if major = 5 then 2 * arg
  else if major = 6 then 1 else 0

/-- The bytes are this many data items. -/
inductive Items : Nat → List UInt8 → Prop where
  | nil : Items 0 []
  | cons {m : UInt8} {a n : Nat} {hd own bs : List UInt8}
      (head : IsHead m a hd) (hown : own.length = ownBytes m a)
      (rest : Items (nested m a + n) bs) : Items (n + 1) (hd ++ (own ++ bs))

/-- The bytes are one data item. -/
abbrev Item (bs : List UInt8) : Prop := Items 1 bs

namespace Items

/-- Bytes start with a number of items in one way at most. -/
theorem unique {n : Nat} {x x' r r' : List UInt8} (h : Items n x)
    (h' : Items n x') (heq : x ++ r = x' ++ r') : x = x' := by
  induction h generalizing x' with
  | nil =>
      cases h'
      rfl
  | cons head hown rest ih =>
      cases h' with
      | cons head' hown' rest' =>
          simp only [List.append_assoc] at heq
          obtain ⟨rfl, rfl, rfl, htail⟩ := head.unique head' heq
          obtain ⟨hsame, hrest⟩ :=
            List.append_inj htail (hown.trans hown'.symm)
          rw [hsame, ih rest' hrest]

/-- Items followed by items. -/
theorem append {n k : Nat} {x y : List UInt8} (hx : Items n x)
    (hy : Items k y) : Items (n + k) (x ++ y) := by
  induction hx with
  | nil =>
      rw [Nat.zero_add]
      exact hy
  | cons head hown rest ih =>
      rw [Nat.add_assoc] at ih
      rw [List.append_assoc, List.append_assoc, Nat.add_right_comm]
      exact .cons head hown ih

/-- An item that has nothing but its head and its own bytes. -/
theorem leaf {m : UInt8} {a : Nat} {hd own : List UInt8}
    (head : IsHead m a hd) (hown : own.length = ownBytes m a)
    (hnested : nested m a = 0) : Item (hd ++ own) := by
  have h : Items (0 + 1) (hd ++ (own ++ [])) := by
    refine .cons head hown ?_
    rw [hnested]
    exact .nil
  rwa [List.append_nil] at h

/-- An item around items. -/
theorem around {m : UInt8} {a : Nat} {hd bs : List UInt8}
    (head : IsHead m a hd) (hown : ownBytes m a = 0)
    (rest : Items (nested m a) bs) : Item (hd ++ bs) := by
  have h : Items (0 + 1) (hd ++ ([] ++ bs)) := .cons head hown.symm rest
  rwa [List.nil_append] at h

/-- One item per element. -/
theorem flatMap {α : Type} {k : Nat} {enc : α → List UInt8} {xs : List α}
    (h : ∀ x ∈ xs, Items k (enc x)) :
    Items (k * xs.length) (xs.flatMap enc) := by
  induction xs with
  | nil => exact .nil
  | cons x xs ih =>
      rw [List.flatMap_cons, List.length_cons, Nat.mul_succ, Nat.add_comm]
      exact (h x List.mem_cons_self).append
        (ih fun y hy => h y (List.mem_cons_of_mem _ hy))

/-- Nothing follows the one item that the bytes are. -/
theorem append_right_nil {n : Nat} {x r : List UInt8} (h : Items n x)
    (h' : Items n (x ++ r)) : r = [] := by
  have happ : x ++ r = (x ++ r) ++ [] := (List.append_nil _).symm
  exact List.self_eq_append_right.mp (h.unique h' happ)

end Items

-- ==================================================== how a map opens

/-- Entries that begin with these keys: a value stands between any two, and
anything after the last. -/
inductive Leads : List (List UInt8) → List UInt8 → Prop where
  | last {k rest : List UInt8} (hk : Item k) : Leads [k] (k ++ rest)
  | entry {k v rest : List UInt8} {ks : List (List UInt8)} (hk : Item k)
      (hv : Item v) (h : Leads ks rest) : Leads (k :: ks) (k ++ (v ++ rest))

/-- Bytes do not begin with keys that part ways. -/
theorem Leads.comparable {ks ks' : List (List UInt8)} {bs bs' : List UInt8}
    (h : Leads ks bs) (h' : Leads ks' bs') (heq : bs = bs') :
    ks <+: ks' ∨ ks' <+: ks := by
  induction h generalizing ks' bs' with
  | last hk =>
      cases h' with
      | last hk' =>
          rw [hk.unique hk' heq]
          exact .inl List.prefix_rfl
      | entry hk' hv' hrest' =>
          rw [hk.unique hk' heq]
          exact .inl (List.prefix_append _ _)
  | entry hk hv hrest ih =>
      cases h' with
      | last hk' =>
          rw [hk.unique hk' heq]
          exact .inr (List.prefix_append _ _)
      | entry hk' hv' hrest' =>
          obtain rfl := hk.unique hk' heq
          have htail := List.append_cancel_left heq
          obtain rfl := hv.unique hv' htail
          rcases ih hrest' (List.append_cancel_left htail) with hpre | hpre
          · exact .inl (List.cons_prefix_cons.mpr ⟨rfl, hpre⟩)
          · exact .inr (List.cons_prefix_cons.mpr ⟨rfl, hpre⟩)

/-- A map of this many entries that begin with these keys. -/
def Opens (n : Nat) (ks : List (List UInt8)) (bs : List UInt8) : Prop :=
  ∃ hd body, IsHead 5 n hd ∧ Leads ks body ∧ bs = hd ++ body

theorem Opens.comparable {n n' : Nat} {ks ks' : List (List UInt8)}
    {bs : List UInt8} (h : Opens n ks bs) (h' : Opens n' ks' bs) :
    n = n' ∧ (ks <+: ks' ∨ ks' <+: ks) := by
  obtain ⟨hd, body, hhead, hlead, rfl⟩ := h
  obtain ⟨hd', body', hhead', hlead', heq⟩ := h'
  obtain ⟨-, hn, -, hbody⟩ := hhead.unique hhead' heq
  exact ⟨hn, hlead.comparable hlead' hbody⟩

end Sidevers.Lib.Cbor
