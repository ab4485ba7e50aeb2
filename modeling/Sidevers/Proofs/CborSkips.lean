/-
What `skip_value` passes.

`ReadsIff p r bs a` joins `Reads` to its converse: the reader takes the bytes
for `a` if the condition holds, and fails on them wherever they stand
otherwise. The skipper takes the encoding of a value exactly when everything
nested in it is of a kind it knows and within its limits
(`readsIff_skipValueInner`); the induction is on the depth budget, which
bounds the nesting of the value.
-/
import Sidevers.Core.CborValue
import Sidevers.Proofs.CborWrites

namespace Sidevers.Proofs

open Sidevers.Core
open Sidevers.Core.Cbor
open Sidevers.Lib.Cbor

-- ================================================================ failure

/-- The reader fails wherever these bytes stand. -/
def Fails {α : Type} (r : Read α) (bs : List UInt8) : Prop :=
  ∀ pre rest, (pre ++ (bs ++ rest)).length < 2 ^ 64 →
    ∃ e, r.run ⟨pre ++ (bs ++ rest), pre.length⟩ = .error e

theorem Fails.throw {α : Type} {e : Core.Error} {bs : List UInt8} :
    Fails (MonadExcept.throw e : Read α) bs :=
  fun _ _ _ => ⟨e, rfl⟩

theorem Fails.throw_bind {α γ : Type} {e : Core.Error} {f : α → Read γ}
    {bs : List UInt8} : Fails (MonadExcept.throw e >>= f) bs :=
  fun _ _ _ => ⟨e, rfl⟩

theorem Fails.bind {α γ : Type} {r : Read α} {f : α → Read γ}
    {x y : List UInt8} (h : Fails r x) : Fails (r >>= f) (x ++ y) := by
  intro pre rest hlen
  rw [List.append_assoc] at hlen ⊢
  obtain ⟨e, he⟩ := h pre (y ++ rest) hlen
  refine ⟨e, ?_⟩
  rw [StateT.run_bind, he]
  rfl

/-- What follows fails. -/
theorem Reads.fails {α γ : Type} {r : Read α} {f : α → Read γ}
    {x y : List UInt8} {a : α} (hr : Reads r x a) (hf : Fails (f a) y) :
    Fails (r >>= f) (x ++ y) := by
  intro pre rest hlen
  rw [List.append_assoc] at hlen ⊢
  rw [hr.bind_run hlen, List.append_assoc]
  have hrest := hf (pre ++ x) rest
  rw [List.append_assoc] at hrest
  exact hrest hlen

theorem Reads.fails_nil {α γ : Type} {r : Read α} {f : α → Read γ}
    {x : List UInt8} {a : α} (hr : Reads r x a) (hf : Fails (f a) []) :
    Fails (r >>= f) x := by
  have h := hr.fails hf
  rwa [List.append_nil] at h

/-- A head of another major type. -/
theorem fails_readArg (want : UInt8) (what : String) {m : UInt8}
    (hm : m.toNat < 8) (hne : m ≠ want) (v : UInt64) :
    Fails (readArg want what) (writeHead (m <<< 5) v) := by
  refine (reads_readHead hm v).fails_nil ?_
  show Fails (if m ≠ want then MonadExcept.throw _ >>= _ else _) _
  rw [if_pos hne]
  exact .throw_bind

-- ================================================================== rules

/-- The reader takes the bytes for the value if the condition holds, and
fails on them if not. -/
structure ReadsIff {α : Type} (p : Prop) (r : Read α) (bs : List UInt8)
    (a : α) : Prop where
  reads : p → Reads r bs a
  fails : ¬ p → Fails r bs

theorem Reads.iff {α : Type} {r : Read α} {bs : List UInt8} {a : α}
    (h : Reads r bs a) : ReadsIff True r bs a :=
  ⟨fun _ => h, fun hnot => absurd trivial hnot⟩

theorem Fails.iff {α : Type} {r : Read α} {bs : List UInt8}
    (h : Fails r bs) (a : α) : ReadsIff False r bs a :=
  ⟨False.elim, fun _ => h⟩

namespace ReadsIff

variable {α γ : Type} {p q : Prop} {r : Read α} {x y : List UInt8} {a : α}
  {c : γ}

theorem congr (h : ReadsIff p r x a) (hpq : p ↔ q) : ReadsIff q r x a :=
  ⟨fun hq => h.reads (hpq.mpr hq), fun hq => h.fails fun hp => hq (hpq.mp hp)⟩

theorem bind {f : α → Read γ} (hr : ReadsIff p r x a)
    (hf : ReadsIff q (f a) y c) : ReadsIff (p ∧ q) (r >>= f) (x ++ y) c where
  reads h := (hr.reads h.1).bind (hf.reads h.2)
  fails h := by
    by_cases hp : p
    · exact (hr.reads hp).fails (hf.fails fun hq => h ⟨hp, hq⟩)
    · exact (hr.fails hp).bind

/-- Bytes that stand in a buffer fit the address space themselves. -/
theorem of_fits (h : x.length < 2 ^ 64 → ReadsIff p r x a) :
    ReadsIff p r x a where
  reads hp := .of_fits fun hfits => (h hfits).reads hp
  fails hp := by
    intro pre rest hlen
    refine (h ?_).fails hp pre rest hlen
    rw [List.length_append, List.length_append] at hlen
    omega

theorem andThen {f : α → Read γ} (hr : ReadsIff p r x a)
    (hf : Reads (f a) [] c) : ReadsIff p (r >>= f) x c := by
  have h := (hr.bind hf.iff).congr (and_iff_left trivial)
  rwa [List.append_nil] at h

theorem neg {t : Prop} [Decidable t] {r' : Read α} (ht : ¬ t)
    (h : ReadsIff p r x a) : ReadsIff p (if t then r' else r) x a := by
  rwa [if_neg ht]

theorem pos {t : Prop} [Decidable t] {r' : Read α} (ht : t)
    (h : ReadsIff p r x a) : ReadsIff p (if t then r else r') x a := by
  rwa [if_pos ht]

theorem peek {missing : String} {f : UInt8 → Read γ} {ib : UInt8}
    {t : List UInt8} (h : ReadsIff p (f ib) (ib :: t) c) :
    ReadsIff p (ProfilePayload.peekOr missing >>= f) (ib :: t) c where
  reads hp := (h.reads hp).peek
  fails hp := by
    intro pre rest hlen
    rw [peek_run]
    exact h.fails hp pre rest hlen

/-- A read whose bytes are taken from the buffer as well. -/
theorem marked {f : α → List UInt8 → Read γ} (hr : ReadsIff p r x a)
    (hf : ReadsIff q (f a x) y c) :
    ReadsIff (p ∧ q) (do
      let start ← position
      let a ← r
      let b ← slice start (← position)
      f a b) (x ++ y) c where
  reads h := (hr.reads h.1).marked (hf.reads h.2)
  fails h := by
    intro pre rest hlen
    rw [List.append_assoc] at hlen ⊢
    by_cases hp : p
    · rw [(hr.reads hp).marked_run hlen, List.append_assoc]
      have hrest := hf.fails (fun hq => h ⟨hp, hq⟩) (pre ++ x) rest
      rw [List.append_assoc] at hrest
      exact hrest hlen
    · obtain ⟨e, he⟩ := hr.fails hp pre (y ++ rest) hlen
      refine ⟨e, ?_⟩
      show StateT.run (do
        let a ← r
        let b ← slice pre.length (← position)
        f a b) _ = _
      rw [StateT.run_bind, he]
      rfl

end ReadsIff

theorem readsIff_readCount {want : UInt8} (what : String)
    (hm : want.toNat < 8) {n : Nat} (hn : n < 2 ^ 64) :
    ReadsIff (n ≤ maxCborEntries) (readCount want what)
      (writeHead (want <<< 5) (UInt64.ofNat n)) n where
  reads := reads_readCount what hm
  fails h := by
    refine (reads_readArg what hm _).fails_nil ?_
    rw [UInt64.toNat_ofNat_of_lt' hn]
    show Fails (if n > maxCborEntries then MonadExcept.throw _ >>= _ else _) _
    rw [if_pos (Nat.lt_of_not_le h)]
    exact .throw_bind

theorem readsIff_readTimes {α γ : Type} {r : Read γ} {w : α → List UInt8}
    {p : α → Prop} (xs : List α) {g : α → γ}
    (h : ∀ x ∈ xs, ReadsIff (p x) r (w x) (g x)) :
    ReadsIff (∀ x ∈ xs, p x) (readTimes xs.length r) (xs.flatMap w)
      (xs.map g) := by
  induction xs with
  | nil => exact (Reads.pure []).iff.congr ⟨fun _ => nofun, fun _ => trivial⟩
  | cons x xs ih =>
      have hrest := ih fun y hy => h y (List.mem_cons_of_mem _ hy)
      rw [List.flatMap_cons]
      refine ((h x List.mem_cons_self).bind
        (hrest.andThen (.pure (g x :: xs.map g)))).congr ?_
      exact List.forall_mem_cons.symm

-- ====================================================== the end of a buffer

/-- As `ReadsIff`, for bytes that nothing follows. -/
structure EndsIff {α : Type} (p : Prop) (r : Read α) (bs : List UInt8)
    (a : α) : Prop where
  reads : p → ∀ pre, (pre ++ bs).length < 2 ^ 64 →
    ∃ s, r.run ⟨pre ++ bs, pre.length⟩ = .ok (a, s)
  fails : ¬ p → ∀ pre, (pre ++ bs).length < 2 ^ 64 →
    ∃ e, r.run ⟨pre ++ bs, pre.length⟩ = .error e

namespace EndsIff

variable {α γ : Type} {p q : Prop} {r : Read α} {x y : List UInt8} {a : α}
  {c : γ}

/-- Nothing is left. -/
theorem atEnd {e : Core.Error} :
    EndsIff True (do
      if !(← Cbor.atEnd) then throw e
      return a : Read α) [] a := by
  refine ⟨fun _ pre _ => ⟨⟨pre ++ [], pre.length⟩, ?_⟩, fun h => absurd trivial h⟩
  have hend : decide ((pre ++ []).length ≤ pre.length) = true := by
    rw [List.append_nil]
    exact decide_eq_true (Nat.le_refl _)
  show StateT.run (if !decide ((pre ++ []).length ≤ pre.length) then _ else _) _
    = _
  rw [hend]
  rfl

theorem bind {f : α → Read γ} (hr : ReadsIff p r x a)
    (hf : EndsIff q (f a) y c) : EndsIff (p ∧ q) (r >>= f) (x ++ y) c where
  reads h := by
    intro pre hlen
    obtain ⟨s, hs⟩ := hf.reads h.2 (pre ++ x) (by rwa [List.append_assoc])
    refine ⟨s, ?_⟩
    rw [(hr.reads h.1).bind_run hlen, hs]
  fails h := by
    intro pre hlen
    by_cases hp : p
    · obtain ⟨e, he⟩ := hf.fails (fun hq => h ⟨hp, hq⟩) (pre ++ x)
        (by rwa [List.append_assoc])
      refine ⟨e, ?_⟩
      rw [(hr.reads hp).bind_run hlen, he]
    · obtain ⟨e, he⟩ := hr.fails hp pre y hlen
      refine ⟨e, ?_⟩
      rw [StateT.run_bind, he]
      rfl

theorem congr (h : EndsIff p r x a) (hpq : p ↔ q) : EndsIff q r x a :=
  ⟨fun hq => h.reads (hpq.mpr hq), fun hq => h.fails fun hp => hq (hpq.mp hp)⟩

theorem neg {t : Prop} [Decidable t] {r' : Read α} (ht : ¬ t)
    (h : EndsIff p r x a) : EndsIff p (if t then r' else r) x a := by
  rwa [if_neg ht]

/-- A key and its value, then the other fields. -/
theorem fieldIff {k msg : String} {f : α → Read γ} {v : List UInt8}
    {es : List MapEntry} (hr : ReadsIff p r v a)
    (hf : EndsIff q (f a) (es.flatMap fun e => e.key ++ e.value) c) :
    EndsIff (p ∧ q) (do expectKey k msg; let a ← r; f a)
      ((⟨key k, v⟩ :: es : List MapEntry).flatMap fun e => e.key ++ e.value)
      c := by
  rw [List.flatMap_cons, List.append_assoc]
  exact (bind (reads_expectKey k msg).iff (bind hr hf)).congr
    (and_iff_right trivial)

theorem field {k msg : String} {f : α → Read γ} {v : List UInt8}
    {es : List MapEntry} (hr : Reads r v a)
    (hf : EndsIff q (f a) (es.flatMap fun e => e.key ++ e.value) c) :
    EndsIff q (do expectKey k msg; let a ← r; f a)
      ((⟨key k, v⟩ :: es : List MapEntry).flatMap fun e => e.key ++ e.value)
      c :=
  (fieldIff hr.iff hf).congr (and_iff_right trivial)

/-- A map with as many entries as its reader expects. -/
theorem map {n : Nat} {msg : Nat → String} {f : Read γ} {es : List MapEntry}
    (hcount : n ≤ maxCborEntries)
    (h : EndsIff q f (es.flatMap fun e => e.key ++ e.value) c)
    (hn : es.length = n) :
    EndsIff q (do expectEntries n msg; f) (encodeMap es) c := by
  have hhead : Reads (expectEntries n msg)
      (writeHead mtMap (UInt64.ofNat es.length)) () := by
    rw [hn]
    exact (reads_readCount "map" (by decide) hcount).andThen
      (.neg (fun h => h rfl) (.pure ()))
  exact (bind hhead.iff h).congr (and_iff_right trivial)

/-- A buffer of these bytes alone. -/
theorem value (h : EndsIff p r x a) (hlen : x.length < 2 ^ 64) :
    (p → r.value x = .ok a) ∧ (¬ p → ∃ e, r.value x = .error e) := by
  refine ⟨fun hp => ?_, fun hp => ?_⟩
  · obtain ⟨s, hs⟩ := h.reads hp [] hlen
    replace hs : r.on x = .ok (a, s) := hs
    unfold Read.value
    rw [hs]
    rfl
  · obtain ⟨e, he⟩ := h.fails hp [] hlen
    replace he : r.on x = .error e := he
    refine ⟨e, ?_⟩
    unfold Read.value
    rw [he]
    rfl

end EndsIff

-- =============================================================== skipping

/-- The kinds of values the skipper takes, arrays and maps up to its limit. -/
def Skippable : Value → Prop
  | .negative _ | .boolean _ => False
  | .array items => items.length ≤ maxCborEntries
  | .map entries => entries.length ≤ maxCborEntries
  | .uint _ | .bytes _ | .text _ | .null => True

/-- `skip_value_inner` once the major type is known. -/
def skipMajor (depth : Nat) (major : UInt8) : Read Unit :=
  if major = 0 ∨ major = 1 then do
    let _ ← readU64
  else if major = 2 then do
    let _ ← readBytes
  else if major = 3 then do
    let _ ← readText
  else if major = 4 then do
    let n ← readArrayHeader
    let _ ← readTimes n (ProfilePayload.skipValueInner depth)
  else if major = 5 then do
    let n ← readMapHeader
    let _ ← readTimes n do
      ProfilePayload.skipValueInner depth
      ProfilePayload.skipValueInner depth
  else if major = 7 then do
    let _ ← readBytesOrNull
  else
    let got := major.toNat
    throw (.cborDecode s!"unexpected major {got}")

theorem skipValueInner_succ (depth : Nat) :
    ProfilePayload.skipValueInner (depth + 1)
      = ProfilePayload.peekOr "EOF in skip" >>= fun b =>
        skipMajor depth (b >>> 5) := rfl

/-- The major type of a value. -/
def major : Value → UInt8
  | .uint _ => 0
  | .negative _ => 1
  | .bytes _ => 2
  | .text _ => 3
  | .array _ => 4
  | .map _ => 5
  | .boolean _ | .null => 7

theorem encode_major (v : Value) :
    ∃ ib tl, v.encode = ib :: tl ∧ ib >>> 5 = major v := by
  have hlist : ∀ {m : UInt8} {n : UInt64} {bs : List UInt8}, m.toNat < 8 →
      ∃ ib tl, writeHead (m <<< 5) n ++ bs = ib :: tl ∧ ib >>> 5 = m := by
    intro m n bs hm
    obtain ⟨ib, tl, hhead, hmajor⟩ := writeHead_major hm n
    exact ⟨ib, tl ++ bs, by rw [hhead]; rfl, hmajor⟩
  cases v with
  | uint n => exact writeHead_major (m := 0) (by decide) n
  | negative n => exact writeHead_major (m := 1) (by decide) n
  | bytes b => exact bytes_major b
  | text t => exact text_major t
  | boolean b =>
      cases b
      · exact ⟨0xF4, [], rfl, by decide⟩
      · exact ⟨0xF5, [], rfl, by decide⟩
  | null => exact ⟨simpleNull, [], rfl, by decide⟩
  | array items => exact hlist (m := 4) (by decide)
  | map entries => exact hlist (m := 5) (by decide)

theorem length_le_flatMap {α : Type} {w : α → List UInt8} (xs : List α)
    (h : ∀ x, 0 < (w x).length) : xs.length ≤ (xs.flatMap w).length := by
  induction xs with
  | nil => exact Nat.le_refl _
  | cons x xs ih =>
      have hx := h x
      rw [List.flatMap_cons, List.length_append, List.length_cons]
      omega

theorem length_pos_encode (v : Value) : 0 < v.encode.length := by
  obtain ⟨ib, tl, hv, -⟩ := encode_major v
  rw [hv]
  exact Nat.succ_pos _

/-- A negative integer is read as an unsigned one. -/
theorem readsIff_negative (n : UInt64) :
    ReadsIff False readU64 (Value.negative n).encode 0 :=
  (fails_readArg 0 "uint" (m := 1) (by decide) (by decide) n).iff 0

/-- A boolean is read as bytes or null. -/
theorem readsIff_boolean (b : Bool) :
    ReadsIff False readBytesOrNull (Value.boolean b).encode none := by
  have hhead : ∃ v, boolean b = writeHead ((7 : UInt8) <<< 5) v := by
    cases b
    · exact ⟨20, by decide⟩
    · exact ⟨21, by decide⟩
  obtain ⟨v, hv⟩ := hhead
  have hread : Fails readBytes (boolean b) := by
    rw [hv]
    have h := (fails_readArg 2 "bytes" (m := 7) (by decide)
      (by decide) v).bind (y := []) (f := fun arg => readN arg.toNat)
    rwa [List.append_nil] at h
  have hne : (if b then 0xF5 else 0xF4) ≠ simpleNull := by cases b <;> decide
  rw [readBytesOrNull_eq]
  refine ReadsIff.peek (t := []) ⟨False.elim, fun _ => ?_⟩
  rw [if_neg hne]
  have h := hread.bind (y := []) (f := fun a => pure (some a))
  rwa [List.append_nil] at h

/-- A value is passed iff nothing in it is refused and the budget covers its
depth. -/
theorem readsIff_skipValueInner (depth : Nat) (v : Value) :
    ReadsIff (v.All Skippable ∧ v.depth ≤ depth)
      (ProfilePayload.skipValueInner depth) v.encode () := by
  induction depth generalizing v with
  | zero =>
      refine (Fails.throw.iff ()).congr (iff_of_false id fun h => ?_)
      cases v <;> exact absurd h.2 (Nat.not_succ_le_zero _)
  | succ depth ih =>
      have hone : 1 ≤ depth + 1 := Nat.succ_le_succ (Nat.zero_le _)
      obtain ⟨ib, tl, hv, hmajor⟩ := encode_major v
      rw [skipValueInner_succ, hv]
      refine .peek ?_
      rw [hmajor, ← hv]
      cases v with
      | uint n =>
          refine Reads.iff ?_ |>.congr (iff_of_true trivial ⟨trivial, hone⟩)
          exact (reads_readU64 n).andThen (.pure ())
      | negative n =>
          refine ReadsIff.congr ?_ (iff_of_false id fun h => h.1)
          exact (readsIff_negative n).andThen (.pure ())
      | bytes b =>
          refine Reads.iff ?_ |>.congr (iff_of_true trivial ⟨trivial, hone⟩)
          exact (reads_readBytes b).andThen (.pure ())
      | text t =>
          refine Reads.iff ?_ |>.congr (iff_of_true trivial ⟨trivial, hone⟩)
          exact (reads_readText t).andThen (.pure ())
      | boolean b =>
          refine ReadsIff.congr ?_ (iff_of_false id fun h => h.1)
          exact (readsIff_boolean b).andThen (.pure ())
      | null =>
          refine Reads.iff ?_ |>.congr (iff_of_true trivial ⟨trivial, hone⟩)
          exact reads_readBytesOrNull_null.andThen (.pure ())
      | array items =>
          refine .of_fits fun hfits => ?_
          rw [Value.encode, Value.encodeItems_eq] at hfits ⊢
          have hlen := length_le_flatMap items length_pos_encode
          rw [List.length_append] at hfits
          have hitems := readsIff_readTimes items (g := fun _ => ())
            fun v _ => ih v
          refine ((readsIff_readCount "array" (by decide) (by omega)).bind
            (hitems.andThen (.pure ()))).congr ?_
          rw [Value.All, Value.allItems_iff, Value.depth,
            Nat.succ_le_succ_iff, Value.depthItems_le, forall₂_and, and_assoc]
          rfl
      | map entries =>
          refine .of_fits fun hfits => ?_
          rw [Value.encode, Value.encodeEntries_eq] at hfits ⊢
          have hlen := length_le_flatMap entries
            (w := fun e => e.1.encode ++ e.2.encode) fun e => by
              rw [List.length_append]
              exact Nat.add_pos_left (length_pos_encode e.1) _
          rw [List.length_append] at hfits
          have hentry : ∀ e ∈ entries, ReadsIff
              ((e.1.All Skippable ∧ e.2.All Skippable)
                ∧ e.1.depth ≤ depth ∧ e.2.depth ≤ depth) (do
              ProfilePayload.skipValueInner depth
              ProfilePayload.skipValueInner depth)
              (e.1.encode ++ e.2.encode) () := fun e _ =>
            ReadsIff.congr ((ih e.1).bind (ih e.2)) and_and_and_comm
          have hentries := readsIff_readTimes entries (g := fun _ => ()) hentry
          refine ((readsIff_readCount "map" (by decide) (by omega)).bind
            (hentries.andThen (.pure ()))).congr ?_
          rw [Value.All, Value.allEntries_iff, Value.depth,
            Nat.succ_le_succ_iff, Value.depthEntries_le, forall₂_and, and_assoc]
          rfl

end Sidevers.Proofs
