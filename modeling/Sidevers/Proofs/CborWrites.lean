/-
What the CBOR writer writes, the reader reads.

`Reads r bs a`: wherever the bytes `bs` stand in a buffer, `r` reads them as
`a` and stops behind them. It is the converse of `Spells`, for the primitives
and for maps of fields in the order their reader expects. The last section
does without the reader and its limits: what is written tells the value it
was written for, however many entries there are.
-/
import Sidevers.Lib.PrefixFree
import Sidevers.Proofs.CborReads

namespace Sidevers.Proofs

open Sidevers.Core
open Sidevers.Core.Cbor
open Sidevers.Lib
open Sidevers.Lib.Cbor

/-- The reader takes these bytes for this value; a buffer fits the address
space. -/
def Reads {α : Type} (r : Read α) (bs : List UInt8) (a : α) : Prop :=
  ∀ pre rest, (pre ++ (bs ++ rest)).length < 2 ^ 64 →
    r.run ⟨pre ++ (bs ++ rest), pre.length⟩
      = .ok (a, ⟨pre ++ (bs ++ rest), pre.length + bs.length⟩)

-- ================================================================= rules

theorem Reads.pure {α : Type} (a : α) : Reads (Pure.pure a) [] a :=
  fun _ _ _ => rfl

/-- Past the bytes of the first reader, the second goes on. -/
theorem Reads.bind_run {α γ : Type} {r : Read α} {f : α → Read γ}
    {x pre rest : List UInt8} {a : α} (hr : Reads r x a)
    (hlen : (pre ++ (x ++ rest)).length < 2 ^ 64) :
    (r >>= f).run ⟨pre ++ (x ++ rest), pre.length⟩
      = (f a).run ⟨pre ++ x ++ rest, (pre ++ x).length⟩ := by
  rw [StateT.run_bind, hr pre rest hlen, List.append_assoc,
    List.length_append]
  rfl

/-- The bytes of the first reader, then those of the second. -/
theorem Reads.bind {α γ : Type} {r : Read α} {f : α → Read γ}
    {x y : List UInt8} {a : α} {c : γ} (hr : Reads r x a)
    (hf : Reads (f a) y c) : Reads (r >>= f) (x ++ y) c := by
  intro pre rest hlen
  rw [List.append_assoc] at hlen ⊢
  have hsecond := hf (pre ++ x) rest (by rwa [List.append_assoc])
  rw [hr.bind_run hlen, hsecond, List.append_assoc, List.length_append,
    List.length_append, Nat.add_assoc]

/-- What follows reads nothing. -/
theorem Reads.andThen {α γ : Type} {r : Read α} {f : α → Read γ}
    {x : List UInt8} {a : α} {c : γ} (hr : Reads r x a)
    (hf : Reads (f a) [] c) : Reads (r >>= f) x c := by
  have h := hr.bind hf
  rwa [List.append_nil] at h

theorem Reads.neg {α : Type} {p : Prop} [Decidable p] {r r' : Read α}
    {bs : List UInt8} {a : α} (hp : ¬ p) (h : Reads r' bs a) :
    Reads (if p then r else r') bs a := by
  rwa [if_neg hp]

theorem Reads.pos {α : Type} {p : Prop} [Decidable p] {r r' : Read α}
    {bs : List UInt8} {a : α} (hp : p) (h : Reads r bs a) :
    Reads (if p then r else r') bs a := by
  rwa [if_pos hp]

/-- Bytes that stand in a buffer fit the address space themselves. -/
theorem Reads.of_fits {α : Type} {r : Read α} {bs : List UInt8} {a : α}
    (h : bs.length < 2 ^ 64 → Reads r bs a) : Reads r bs a := by
  intro pre rest hlen
  refine h ?_ pre rest hlen
  rw [List.length_append, List.length_append] at hlen
  omega

/-- A buffer of these bytes alone. -/
theorem Reads.value {α : Type} {r : Read α} {bs : List UInt8} {a : α}
    (h : Reads r bs a) (hlen : bs.length < 2 ^ 64) : r.value bs = .ok a := by
  have hrun := h [] [] (by simpa using hlen)
  rw [List.append_nil, List.nil_append] at hrun
  unfold Read.value Read.on
  rw [List.length_nil] at hrun
  rw [hrun]
  rfl

/-- And nothing is left. -/
theorem Reads.value_atEnd {α : Type} {r : Read α} {bs : List UInt8} {a : α}
    (h : Reads r bs a) (hlen : bs.length < 2 ^ 64) (e : Core.Error) :
    (do
      let a ← r
      if !(← atEnd) then throw e
      return a : Read α).value bs = .ok a := by
  have hrun := h [] [] (by simpa using hlen)
  rw [List.append_nil, List.nil_append] at hrun
  unfold Read.value Read.on
  rw [StateT.run_bind]
  rw [List.length_nil, Nat.zero_add] at hrun
  rw [hrun]
  show Except.map Prod.fst (StateT.run (if !decide (bs.length ≤ bs.length)
    then _ else _) _) = _
  rw [decide_eq_true (Nat.le_refl _)]
  rfl

/-- Bytes are read as one value. -/
theorem Reads.unique {α : Type} {r : Read α} {bs : List UInt8} {a b : α}
    (ha : Reads r bs a) (hb : Reads r bs b) (hlen : bs.length < 2 ^ 64) :
    a = b := by
  have heq := (ha.value hlen).symm.trans (hb.value hlen)
  injection heq

-- ================================================================= heads

theorem reads_readByte (b : UInt8) : Reads readByte [b] b := by
  intro pre rest _
  have hget : (pre ++ ([b] ++ rest))[pre.length]? = some b := by
    rw [List.getElem?_append_right (Nat.le_refl _), Nat.sub_self]
    rfl
  rw [readByte_run]
  dsimp only
  rw [hget]
  rfl

theorem reads_readN (bs : List UInt8) : Reads (readN bs.length) bs bs := by
  intro pre rest hlen
  have hroom : pre.length + bs.length ≤ (pre ++ (bs ++ rest)).length := by
    rw [List.length_append, List.length_append]
    omega
  rw [readN_run]
  show (if pre.length + bs.length ≥ 2 ^ 64 then _
    else if pre.length + bs.length > (pre ++ (bs ++ rest)).length then _
    else _) = _
  rw [if_neg (by omega), if_neg (by omega)]
  show Except.ok (((pre ++ (bs ++ rest)).drop pre.length).take bs.length, _)
    = _
  rw [List.drop_left, List.take_left]

theorem fromBeBytes_toBeBytes {n : Nat} {v : UInt64} (hn : n ≤ 8)
    (hv : v.toNat < 256 ^ n) : fromBeBytes (toBeBytes n v) = v := by
  apply UInt64.toNat.inj
  rw [toNat_fromBeBytes (by rw [length_toBeBytes]; exact hn),
    beNat_toBeBytes hn hv]

theorem reads_toBeBytes {n : Nat} (v : UInt64) :
    Reads (readN n) (toBeBytes n v) (toBeBytes n v) := by
  have h := reads_readN (toBeBytes n v)
  rwa [length_toBeBytes] at h

/-- The reader accepts the head the writer writes. -/
theorem reads_readHead {m : UInt8} (hm : m.toNat < 8) (v : UInt64) :
    Reads readHead (writeHead (m <<< 5) v) (m, v) := by
  unfold writeHead readHead
  by_cases h23 : v ≤ 23
  · have hle : v.toNat ≤ 23 := h23
    have hlow : v.toUInt8.toNat = v.toNat := by
      rw [UInt64.toNat_toUInt8]
      omega
    have hval : v.toUInt8.toUInt64 = v := by
      apply UInt64.toNat.inj
      rw [UInt8.toNat_toUInt64, hlow]
    obtain ⟨hmajor, hinfo⟩ := head_split v.toUInt8 hm (by omega)
    have hshort : v.toUInt8 ≤ 23 := by
      show v.toUInt8.toNat ≤ 23
      omega
    rw [if_pos h23]
    refine (reads_readByte _).andThen ?_
    rw [hmajor, hinfo]
    refine .pos hshort ?_
    rw [hval]
    exact .pure _
  rw [if_neg h23]
  by_cases h8 : v ≤ 0xFF
  · have hle : v.toNat ≤ 255 := h8
    obtain ⟨hmajor, hinfo⟩ := head_split 24 hm (by decide)
    have hlow : v.toUInt8.toUInt64 = v := by
      apply UInt64.toNat.inj
      rw [UInt8.toNat_toUInt64, UInt64.toNat_toUInt8]
      omega
    have hbig : ¬ v.toUInt8 < 24 := by
      intro hlt
      have hlt : v.toUInt8.toNat < 24 := hlt
      rw [UInt64.toNat_toUInt8] at hlt
      exact h23 (show v.toNat ≤ 23 by omega)
    rw [if_pos h8]
    refine (reads_readByte _).bind ?_
    rw [hmajor, hinfo]
    refine .neg (by decide) (.pos rfl ?_)
    show Reads _ [v.toUInt8] _
    refine (reads_readByte _).andThen (.neg hbig ?_)
    rw [hlow]
    exact .pure _
  rw [if_neg h8]
  by_cases h16 : v ≤ 0xFFFF
  · obtain ⟨hmajor, hinfo⟩ := head_split 25 hm (by decide)
    rw [if_pos h16]
    refine (reads_readByte _).bind ?_
    rw [hmajor, hinfo]
    refine .neg (by decide) (.neg (by decide) (.pos rfl ?_))
    refine (reads_toBeBytes v).andThen ?_
    rw [fromBeBytes_toBeBytes (by decide) (Nat.lt_succ_of_le h16)]
    exact .neg h8 (.pure _)
  rw [if_neg h16]
  by_cases h32 : v ≤ 0xFFFFFFFF
  · obtain ⟨hmajor, hinfo⟩ := head_split 26 hm (by decide)
    rw [if_pos h32]
    refine (reads_readByte _).bind ?_
    rw [hmajor, hinfo]
    refine .neg (by decide) (.neg (by decide) (.neg (by decide) (.pos rfl ?_)))
    refine (reads_toBeBytes v).andThen ?_
    rw [fromBeBytes_toBeBytes (by decide) (Nat.lt_succ_of_le h32)]
    exact .neg h16 (.pure _)
  · obtain ⟨hmajor, hinfo⟩ := head_split 27 hm (by decide)
    rw [if_neg h32]
    refine (reads_readByte _).bind ?_
    rw [hmajor, hinfo]
    refine .neg (by decide) (.neg (by decide) (.neg (by decide)
      (.neg (by decide) (.pos rfl ?_))))
    refine (reads_toBeBytes v).andThen ?_
    rw [fromBeBytes_toBeBytes (by decide) v.toNat_lt]
    exact .neg h32 (.pure _)

-- ============================================================= primitives

theorem reads_readArg {want : UInt8} (what : String) (hm : want.toNat < 8)
    (v : UInt64) : Reads (readArg want what) (writeHead (want <<< 5) v) v :=
  (reads_readHead hm v).andThen (.neg (fun h => h rfl) (.pure v))

theorem reads_readU64 (v : UInt64) : Reads readU64 (uint v) v :=
  reads_readArg "uint" (by decide) v

theorem toNat_ofNat_length {b : List UInt8} (hlen : b.length < 2 ^ 64) :
    (UInt64.ofNat b.length).toNat = b.length :=
  UInt64.toNat_ofNat_of_lt' hlen

theorem reads_readBytes (b : List UInt8) : Reads readBytes (bytes b) b := by
  refine .of_fits fun hfits => ?_
  unfold bytes at hfits
  rw [List.length_append] at hfits
  refine (reads_readArg "bytes" (by decide) _).bind ?_
  rw [toNat_ofNat_length (by omega)]
  exact reads_readN b

theorem fromUTF8_toUTF8 (t : String) :
    String.fromUTF8? ⟨t.toUTF8.data.toList.toArray⟩ = some t := by
  show String.fromUTF8? t.toUTF8 = some t
  unfold String.fromUTF8?
  rw [String.toUTF8_eq_toByteArray, dif_pos t.isValidUTF8]
  rfl

theorem reads_readText (t : String) : Reads readText (text t) t := by
  refine .of_fits fun hfits => ?_
  unfold text at hfits
  rw [List.length_append] at hfits
  refine (reads_readArg "text" (by decide) _).bind ?_
  rw [toNat_ofNat_length (by omega)]
  refine (reads_readN _).andThen ?_
  rw [fromUTF8_toUTF8]
  exact .pure t

/-- Bytes that are no text are refused with what is wrong with them. -/
theorem readText_broken {utf8 : List UInt8}
    (h : String.fromUTF8? ⟨utf8.toArray⟩ = none) (pre rest : List UInt8)
    (hlen : (pre ++ (writeHead mtText (UInt64.ofNat utf8.length)
      ++ (utf8 ++ rest))).length < 2 ^ 64) :
    ∃ e, utf8Error utf8 = some e
      ∧ readText.run ⟨pre ++ (writeHead mtText (UInt64.ofNat utf8.length)
          ++ (utf8 ++ rest)), pre.length⟩
        = .error (.cborDecode s!"invalid utf-8 text: {e.text}") := by
  cases he : utf8Error utf8 with
  | none => exact absurd h ((utf8Error_eq_none_iff utf8).mp he)
  | some e =>
      refine ⟨e, rfl, ?_⟩
      have hhead : Reads (readArg 3 "text")
          (writeHead mtText (UInt64.ofNat utf8.length))
          (UInt64.ofNat utf8.length) := reads_readArg "text" (by decide) _
      have hfits : utf8.length < 2 ^ 64 := by
        simp only [List.length_append] at hlen
        omega
      unfold readText
      rw [hhead.bind_run hlen, toNat_ofNat_length hfits,
        (reads_readN utf8).bind_run (by simpa using hlen), h, he]
      rfl

theorem reads_readExact {n : Nat} (field : String) (b : Bytes n) :
    Reads (readExact field n) (bytes b.val) b := by
  refine (reads_readBytes b.val).andThen ?_
  rw [dif_pos b.property]
  exact .pure b

theorem reads_readBool (b : Bool) : Reads readBool (boolean b) b := by
  cases b <;> exact (reads_readByte _).andThen (.pure _)

-- ============================================================ null values

theorem writeHead_major {m : UInt8} (hm : m.toNat < 8) (v : UInt64) :
    ∃ ib tl, writeHead (m <<< 5) v = ib :: tl ∧ ib >>> 5 = m :=
  IsHead.major (isHead_writeHead hm v)

/-- The first byte is looked at, then the bytes are read. -/
theorem peek_run {γ : Type} {missing : String} {f : UInt8 → Read γ}
    {ib : UInt8} {tl pre rest : List UInt8} :
    (ProfilePayload.peekOr missing >>= f).run
      ⟨pre ++ (ib :: tl ++ rest), pre.length⟩
      = (f ib).run ⟨pre ++ (ib :: tl ++ rest), pre.length⟩ := by
  have hget : (pre ++ (ib :: tl ++ rest))[pre.length]? = some ib := by
    rw [List.getElem?_append_right (Nat.le_refl _), Nat.sub_self]
    rfl
  rw [StateT.run_bind, peekOr_run]
  dsimp only
  rw [hget]
  rfl

theorem Reads.peek {γ : Type} {missing : String} {f : UInt8 → Read γ}
    {ib : UInt8} {tl : List UInt8} {c : γ} (h : Reads (f ib) (ib :: tl) c) :
    Reads (ProfilePayload.peekOr missing >>= f) (ib :: tl) c := by
  intro pre rest hlen
  rw [peek_run]
  exact h pre rest hlen

theorem reads_readBytesOrNull_null : Reads readBytesOrNull null none := by
  rw [readBytesOrNull_eq]
  exact Reads.peek (.pos rfl ((reads_readByte _).andThen (.pure none)))

/-- What begins with a head is not taken for a null. -/
theorem not_null_of_major {ib m : UInt8} (h : ib >>> 5 = m) (hm : m ≠ 7) :
    ib ≠ simpleNull := by
  rintro rfl
  exact hm (h.symm.trans (by decide))

theorem bytes_major (b : List UInt8) :
    ∃ ib tl, bytes b = ib :: tl ∧ ib >>> 5 = 2 := by
  obtain ⟨ib, tl, hhead, hmajor⟩ := writeHead_major (m := 2) (by decide)
    (UInt64.ofNat b.length)
  refine ⟨ib, tl ++ b, ?_, hmajor⟩
  show writeHead ((2 : UInt8) <<< 5) _ ++ b = _
  rw [hhead]
  rfl

theorem text_major (t : String) :
    ∃ ib tl, text t = ib :: tl ∧ ib >>> 5 = 3 := by
  obtain ⟨ib, tl, hhead, hmajor⟩ := writeHead_major (m := 3) (by decide)
    (UInt64.ofNat t.toUTF8.data.toList.length)
  refine ⟨ib, tl ++ t.toUTF8.data.toList, ?_, hmajor⟩
  show writeHead ((3 : UInt8) <<< 5) _ ++ _ = _
  rw [hhead]
  rfl

theorem reads_readBytesOrNull (b : List UInt8) :
    Reads readBytesOrNull (bytes b) (some b) := by
  obtain ⟨ib, tl, hbytes, hmajor⟩ := bytes_major b
  have hread := reads_readBytes b
  rw [readBytesOrNull_eq]
  rw [hbytes] at hread ⊢
  exact Reads.peek (.neg (not_null_of_major hmajor (by decide))
    (hread.andThen (.pure (some b))))

/-- A value that may be null, told from a null by its major type. -/
theorem reads_readOrNull {α : Type} {missing : String} {r : Read α}
    {w : α → List UInt8}
    (hmajor : ∀ a, ∃ ib tl, w a = ib :: tl ∧ ib ≠ simpleNull)
    (hr : ∀ a, Reads r (w a) a) (a : Option α) :
    Reads (readOrNull missing r) (ProfilePayload.orNull w a) a := by
  unfold readOrNull
  cases a with
  | none =>
      exact Reads.peek (.pos rfl
        (reads_readBytesOrNull_null.andThen (.pure none)))
  | some a =>
      obtain ⟨ib, tl, hw, hne⟩ := hmajor a
      have hread := hr a
      show Reads _ (w a) _
      rw [hw] at hread ⊢
      exact Reads.peek (.neg hne (hread.andThen (.pure (some a))))

-- ================================================================= arrays

theorem reads_readCount {want : UInt8} (what : String)
    (hm : want.toNat < 8) {n : Nat} (hn : n ≤ maxCborEntries) :
    Reads (readCount want what) (writeHead (want <<< 5) (UInt64.ofNat n)) n := by
  have hmax : maxCborEntries < 2 ^ 64 := by decide
  refine (reads_readArg what hm _).andThen ?_
  rw [UInt64.toNat_ofNat_of_lt' (Nat.lt_of_le_of_lt hn hmax)]
  exact .neg (Nat.not_lt.mpr hn) (.pure n)

theorem reads_readTimes {α : Type} {r : Read α} {w : α → List UInt8}
    {xs : List α} (hr : ∀ a ∈ xs, Reads r (w a) a) :
    Reads (readTimes xs.length r) (xs.flatMap w) xs := by
  induction xs with
  | nil => exact .pure []
  | cons x xs ih =>
      rw [List.flatMap_cons]
      refine (hr x List.mem_cons_self).bind ?_
      exact (ih fun a ha => hr a (List.mem_cons_of_mem _ ha)).andThen (.pure _)

theorem reads_readArray {α : Type} {r : Read α} {w : α → List UInt8}
    {xs : List α} (hcount : xs.length ≤ maxCborEntries)
    (hr : ∀ a ∈ xs, Reads r (w a) a) :
    Reads (readArray r) (encodeArray w xs) xs :=
  (reads_readCount "array" (by decide) hcount).bind (reads_readTimes hr)

-- ================================================================== maps

theorem reads_expectKey (want msg : String) :
    Reads (expectKey want msg) (key want) () :=
  (reads_readText want).andThen (.neg (fun h => h rfl) (.pure ()))

/-- A key and its value, then the other fields. -/
theorem Reads.field {α γ : Type} {k msg : String} {r : Read α}
    {f : α → Read γ} {v : List UInt8} {a : α} {es : List MapEntry} {c : γ}
    (hr : Reads r v a)
    (hf : Reads (f a) (es.flatMap fun e => e.key ++ e.value) c) :
    Reads (do expectKey k msg; let a ← r; f a)
      ((⟨key k, v⟩ :: es : List MapEntry).flatMap fun e => e.key ++ e.value)
      c := by
  rw [List.flatMap_cons, List.append_assoc]
  exact (reads_expectKey k msg).bind (hr.bind hf)

/-- A map with as many entries as its reader expects. -/
theorem Reads.map {γ : Type} {msg : Nat → String} {f : Read γ}
    {es : List MapEntry} {c : γ} (hcount : es.length ≤ maxCborEntries)
    (h : Reads f (es.flatMap fun e => e.key ++ e.value) c) :
    Reads (do expectEntries es.length msg; f) (encodeMap es) c := by
  refine Reads.bind (a := ()) ?_ h
  exact (reads_readCount "map" (by decide) hcount).andThen
    (.neg (fun h => h rfl) (.pure ()))

-- =========================================================== maps of texts

/-- A read whose bytes are taken from the buffer as well. -/
theorem Reads.marked_run {α γ : Type} {r : Read α}
    {f : α → List UInt8 → Read γ} {x pre rest : List UInt8} {a : α}
    (hr : Reads r x a) (hlen : (pre ++ (x ++ rest)).length < 2 ^ 64) :
    (do
      let start ← position
      let a ← r
      let b ← slice start (← position)
      f a b : Read γ).run ⟨pre ++ (x ++ rest), pre.length⟩
      = (f a x).run ⟨pre ++ x ++ rest, (pre ++ x).length⟩ := by
  have hslice : (slice pre.length (pre.length + x.length)).run
      ⟨pre ++ (x ++ rest), pre.length + x.length⟩
        = .ok (x, ⟨pre ++ (x ++ rest), pre.length + x.length⟩) := by
    show Except.ok (((pre ++ (x ++ rest)).drop pre.length).take _, _) = _
    rw [Nat.add_sub_cancel_left, List.drop_left, List.take_left]
  show StateT.run (do
    let a ← r
    let b ← slice pre.length (← position)
    f a b) _ = _
  rw [StateT.run_bind, hr pre rest hlen]
  show StateT.run (slice pre.length (pre.length + x.length) >>= f a) _ = _
  rw [StateT.run_bind, hslice, List.append_assoc, List.length_append]
  rfl

theorem Reads.marked {α γ : Type} {r : Read α}
    {f : α → List UInt8 → Read γ} {x y : List UInt8} {a : α} {c : γ}
    (hr : Reads r x a) (hf : Reads (f a x) y c) :
    Reads (do
      let start ← position
      let a ← r
      let b ← slice start (← position)
      f a b) (x ++ y) c := by
  intro pre rest hlen
  rw [List.append_assoc] at hlen ⊢
  have hsecond := hf (pre ++ x) rest (by rwa [List.append_assoc])
  rw [hr.marked_run hlen, hsecond, List.append_assoc, List.length_append,
    List.length_append, Nat.add_assoc]

theorem text_injective {t t' : String} (hlen : (text t).length < 2 ^ 64)
    (heq : text t = text t') : t = t' := by
  have hread := reads_readText t'
  rw [← heq] at hread
  exact (reads_readText t).unique hread hlen

/-- What comes next in an order comes after the one before. -/
theorem pairwise_prev {K : Type} [LT K] {prev : Option K} {k : K}
    {ks : List K} (h : (prev.toList ++ k :: ks).Pairwise (· < ·)) :
    (∀ p ∈ prev, p < k) ∧ (k :: ks).Pairwise (· < ·) := by
  cases prev with
  | none => exact ⟨nofun, h⟩
  | some p =>
      obtain ⟨hp, hrest⟩ := List.pairwise_cons.mp h
      refine ⟨?_, hrest⟩
      rintro q ⟨⟩
      exact hp _ List.mem_cons_self

theorem not_any_prev {K : Type} {prev : Option K} {p : K → Bool}
    (h : ∀ k ∈ prev, p k = false) : ¬ prev.any p = true := by
  cases prev with
  | none => nofun
  | some k =>
      rw [Bool.not_eq_true]
      exact h k rfl

/-- Entries in the order of their encoded keys, one after the other. -/
theorem reads_readMapLoop {V : Type} {r : Read V} {w : V → List UInt8}
    (hr : ∀ v, Reads r (w v) v) (unordered : String) {es : List (String × V)}
    {p : Option (List UInt8)}
    (hsorted : (p.toList ++ es.map fun e => key e.1).Pairwise (· < ·)) :
    Reads (readMapLoop unordered r es.length p)
      ((es.map (textEntry w)).flatMap fun e => e.key ++ e.value) es := by
  induction es generalizing p with
  | nil => exact .pure []
  | cons e es ih =>
      obtain ⟨hprev, hrest⟩ := pairwise_prev hsorted
      rw [List.map_cons, List.flatMap_cons, List.append_assoc]
      refine Reads.marked (reads_readText e.1) (.neg ?_ ?_)
      · exact not_any_prev fun p hp =>
          decide_eq_false (not_not.mpr (hprev p hp))
      · refine (hr e.2).bind ?_
        exact (ih (p := some (key e.1)) hrest).andThen (.pure (e :: es))

/-- Entries in the order of their encoded keys. -/
def byKey {V : Type} (es : List (String × V)) : List (String × V) :=
  es.mergeSort fun a b => !decide (key b.1 < key a.1)

theorem byKey_perm {V : Type} (es : List (String × V)) :
    (byKey es).Perm es :=
  List.mergeSort_perm ..

theorem mergeSort_map_entry {V : Type} {f : String × V → MapEntry}
    (hf : ∀ e, (f e).key = key e.1) (es : List (String × V)) :
    (es.map f).mergeSort (fun a b => !decide (b.key < a.key))
      = (byKey es).map f := by
  unfold byKey
  rw [List.map_mergeSort]
  intro a _ b _
  rw [hf, hf]

/-- No key is there twice. -/
theorem byKey_increasing {V : Type} {es : List (String × V)}
    (hkeys : (es.map Prod.fst).Nodup)
    (hlen : ∀ e ∈ es, (key e.1).length < 2 ^ 64) :
    ((byKey es).map fun e => key e.1).Pairwise (· < ·) := by
  have hnodup : (es.map fun e => key e.1).Nodup := by
    refine hkeys.of_map.map_on fun e he e' he' heq => ?_
    exact List.inj_on_of_nodup_map hkeys he he'
      (text_injective (hlen e he) heq)
  have hne := List.pairwise_map.mp (((byKey_perm es).map _).nodup_iff.mpr hnodup)
  have hle : (byKey es).Pairwise fun a b => key a.1 ≤ key b.1 :=
    pairwise_mergeSort_key (fun e : String × V => key e.1) es
  refine List.pairwise_map.mpr ((hle.and hne).imp fun {a b} h => ?_)
  exact List.not_le.mp fun hge => h.2 (List.le_antisymm h.1 hge)

/-- The entries of a map in the order of their encoded keys: the map is made
of them. -/
theorem sorted_entries {V : Type} (m : BTreeMap String V)
    {f : String × V → MapEntry} (hf : ∀ e, (f e).key = key e.1)
    (hlen : ∀ e ∈ m.entries, (key e.1).length < 2 ^ 64) :
    ∃ es : List (String × V), es.Perm m.entries
      ∧ (m.entries.map f).mergeSort (fun a b => !decide (b.key < a.key))
        = es.map f
      ∧ (es.map fun e => key e.1).Pairwise (· < ·)
      ∧ es.foldl (fun m e => m.insert e.1 e.2) BTreeMap.empty = m := by
  exact ⟨byKey m.entries, byKey_perm _, mergeSort_map_entry hf _,
    byKey_increasing m.keys_nodup hlen, m.foldl_insert_entries (byKey_perm _)⟩

theorem length_entry_le {es : List MapEntry} {e : MapEntry} (he : e ∈ es) :
    e.key.length ≤ (encodeMap es).length := by
  have hsub : e.key.length ≤ (es.flatMap fun e => e.key ++ e.value).length := by
    obtain ⟨pre, post, rfl⟩ := List.append_of_mem he
    rw [List.flatMap_append, List.flatMap_cons]
    simp only [List.length_append]
    omega
  unfold encodeMap
  rw [List.length_append]
  omega

theorem reads_readMap {V : Type} {r : Read V} {w : V → List UInt8}
    (hr : ∀ v, Reads r (w v) v) (unordered : String) {m : BTreeMap String V}
    (hcount : m.entries.length ≤ maxCborEntries) :
    Reads (readMap unordered r) (encodeSortedMap w m) m := by
  refine .of_fits fun hfits => ?_
  have hlen : ∀ e ∈ m.entries, (key e.1).length < 2 ^ 64 := by
    intro e he
    refine Nat.lt_of_le_of_lt ?_ hfits
    refine length_entry_le (e := textEntry w e) ?_
    exact (List.mergeSort_perm ..).mem_iff.mpr (List.mem_map_of_mem he)
  obtain ⟨es, hes, hsort, hsorted, hfold⟩ :=
    sorted_entries m (f := textEntry w) (fun _ => rfl) hlen
  have hform : encodeSortedMap w m
      = writeHead mtMap (UInt64.ofNat es.length)
        ++ (es.map (textEntry w)).flatMap fun e => e.key ++ e.value := by
    show encodeMap ((m.entries.map (textEntry w)).mergeSort _) = _
    rw [hsort]
    unfold encodeMap
    rw [List.length_map]
  rw [hform]
  have hcount' : es.length ≤ maxCborEntries := hes.length_eq ▸ hcount
  refine (reads_readCount "map" (by decide) hcount').bind ?_
  refine (reads_readMapLoop hr unordered (p := none) hsorted).andThen ?_
  rw [hfold]
  exact .pure m

theorem reads_readTextMap (unordered : String) {m : BTreeMap String String}
    (hcount : m.entries.length ≤ maxCborEntries) :
    Reads (readTextMap unordered) (encodeTextMap m) m :=
  reads_readMap reads_readText unordered hcount

-- ========================================= what a word was written for

/-- What is read back tells what it was written for. -/
theorem Reads.tells {α : Type} {r : Read α} {w : α → List UInt8}
    (h : ∀ a, Reads r (w a) a) : Tells (2 ^ 64) w Eq := by
  intro a b x y hlen heq
  have ha := h a [] x hlen
  have hb := h b [] y (heq ▸ hlen)
  rw [List.nil_append, heq] at ha
  rw [List.nil_append, ha] at hb
  cases hb
  exact ⟨rfl, List.append_cancel_left heq⟩

/-- A count that fits its head. -/
theorem tells_count {m : UInt8} (hm : m.toNat < 8) :
    Tells (2 ^ 64) (fun n => writeHead (m <<< 5) (UInt64.ofNat n))
      fun n n' => n < 2 ^ 64 → n' < 2 ^ 64 → n = n' := by
  have hread : ∀ v, Reads readHead (writeHead (m <<< 5) v) (m, v) :=
    reads_readHead hm
  have hhead : Tells (2 ^ 64) (fun v => writeHead (m <<< 5) v) Eq :=
    Reads.tells fun v => (hread v).andThen (f := fun h => pure h.2) (.pure v)
  refine (hhead.part UInt64.ofNat).mono fun n n' heq hn hn' => ?_
  rw [← UInt64.toNat_ofNat_of_lt' hn, ← UInt64.toNat_ofNat_of_lt' hn', heq]

theorem tells_array {α : Type} {w : α → List UInt8} (hne : ∀ a, w a ≠ [])
    (h : Tells (2 ^ 64) w Eq) : Tells (2 ^ 64) (encodeArray w) Eq := by
  have hcount : Tells (2 ^ 64) arrayHeader fun n n' =>
      n < 2 ^ 64 → n' < 2 ^ 64 → n = n' := tells_count (m := 4) (by decide)
  exact Tells.counted hne hcount h

theorem text_ne_nil (t : String) : text t ≠ [] := by
  obtain ⟨ib, tl, htext, -⟩ := text_major t
  rw [htext]
  exact List.cons_ne_nil ib tl

theorem bytes_ne_nil (b : List UInt8) : bytes b ≠ [] := by
  obtain ⟨ib, tl, hbytes, -⟩ := bytes_major b
  rw [hbytes]
  exact List.cons_ne_nil ib tl

theorem encodeMap_ne_nil (es : List MapEntry) : encodeMap es ≠ [] := by
  obtain ⟨ib, tl, hhead, -⟩ := writeHead_major (m := 5) (by decide)
    (UInt64.ofNat es.length)
  show writeHead ((5 : UInt8) <<< 5) _ ++ _ ≠ []
  rw [hhead]
  exact List.cons_ne_nil ib _

theorem tells_key : Tells (2 ^ 64) key Eq := Reads.tells reads_readText

/-- The entries of a map, in the order they are written in. -/
theorem tells_entries {V : Type} {w : V → List UInt8}
    (h : Tells (2 ^ 64) w Eq) :
    Tells (2 ^ 64) (fun es : List (String × V) =>
      writeHead mtMap (UInt64.ofNat es.length)
        ++ es.flatMap fun e => key e.1 ++ w e.2) Eq := by
  have hcount : Tells (2 ^ 64) (fun n => writeHead mtMap (UInt64.ofNat n))
      fun n n' => n < 2 ^ 64 → n' < 2 ^ 64 → n = n' :=
    tells_count (m := 5) (by decide)
  have hkey := tells_key.part (Prod.fst : String × V → String)
  have hvalue := h.part (Prod.snd : String × V → V)
  have hne (e : String × V) : key e.1 ++ w e.2 ≠ [] :=
    List.append_ne_nil_of_left_ne_nil (text_ne_nil e.1) _
  exact Tells.counted hne hcount
    ((hkey.append hvalue).mono fun e e' heq => Prod.ext heq.1 heq.2)

/-- A map is written in the order of its keys, and made of its entries in any
order. -/
theorem tells_sortedMap {V : Type} {w : V → List UInt8}
    (h : Tells (2 ^ 64) w Eq) : Tells (2 ^ 64) (encodeSortedMap w) Eq := by
  have hform : encodeSortedMap w = fun m =>
      writeHead mtMap (UInt64.ofNat (byKey m.entries).length)
        ++ (byKey m.entries).flatMap fun e => key e.1 ++ w e.2 := by
    funext m
    show encodeMap ((m.entries.map (textEntry w)).mergeSort _) = _
    rw [mergeSort_map_entry fun _ => rfl]
    unfold encodeMap
    rw [List.length_map, List.flatMap_map]
    rfl
  rw [hform]
  refine ((tells_entries h).part fun m : BTreeMap String V =>
    byKey m.entries).mono fun m m' heq => ?_
  rw [← m.foldl_insert_entries (byKey_perm _), heq,
    m'.foldl_insert_entries (byKey_perm _)]

/-- A key with its value, then the other fields. -/
theorem tells_field {α γ : Type} {k : String} {w : α → List UInt8}
    {f : γ → α} {es : γ → List MapEntry} {P : γ → γ → Prop}
    (hw : Tells (2 ^ 64) w Eq)
    (h : Tells (2 ^ 64) (fun c => (es c).flatMap fun e => e.key ++ e.value)
      P) :
    Tells (2 ^ 64) (fun c => ((⟨key k, w (f c)⟩ :: es c :
        List MapEntry).flatMap fun e => e.key ++ e.value))
      fun c d => f c = f d ∧ P c d := by
  simp only [List.flatMap_cons]
  exact (((Tells.const (key k)).append (hw.part f)).append h).mono
    fun c d hall => ⟨hall.1.2, hall.2⟩

/-- A map with the same number of entries for every value. -/
theorem tells_map {γ : Type} {n : Nat} {es : γ → List MapEntry}
    {P : γ → γ → Prop} (hcount : ∀ c, (es c).length = n)
    (h : Tells (2 ^ 64) (fun c => (es c).flatMap fun e => e.key ++ e.value)
      P) :
    Tells (2 ^ 64) (fun c => encodeMap (es c)) P := by
  unfold encodeMap
  simp only [hcount]
  exact ((Tells.const _).append h).mono fun c d hall => hall.2

end Sidevers.Proofs
