/-
What the CBOR reader passes is what the writer writes.

`Spells r w`: whenever `r` succeeds with `a`, it passed exactly the bytes
`w a`, which are one data item. Every primitive of the reader spells its
writer (`readHead` accepts no other head than the shortest), and a map spells
its encoding if its fields do (`spells_map`).
-/
import Mathlib.Data.List.Induction
import Mathlib.Data.List.Nodup
import Sidevers.Core.PeerWire
import Sidevers.Lib.CborItem
import Sidevers.Lib.Consumes

namespace Sidevers.Proofs

open Sidevers.Core
open Sidevers.Core.Cbor
open Sidevers.Lib
open Sidevers.Lib.Cbor

-- =============================================================== numbers

/-- A byte more at the low end. -/
theorem fromBeBytes_concat (bs : List UInt8) (b : UInt8) :
    fromBeBytes (bs ++ [b]) = fromBeBytes bs * 256 + b.toUInt64 := by
  unfold fromBeBytes
  rw [List.foldl_append, List.foldl_cons, List.foldl_nil]

theorem beNat_concat (bs : List UInt8) (b : UInt8) :
    beNat (bs ++ [b]) = beNat bs * 256 + b.toNat := by
  unfold beNat
  rw [List.foldl_append, List.foldl_cons, List.foldl_nil]

/-- As many bytes hold a number below that power. -/
theorem beNat_lt (bs : List UInt8) : beNat bs < 256 ^ bs.length := by
  induction bs using List.reverseRecOn with
  | nil => exact Nat.one_pos
  | append_singleton bs b ih =>
      have hb := b.toNat_lt
      rw [beNat_concat, List.length_append, List.length_singleton,
        Nat.pow_succ]
      omega

/-- Eight bytes fit the number. -/
theorem toNat_fromBeBytes {bs : List UInt8} (hlen : bs.length ≤ 8) :
    (fromBeBytes bs).toNat = beNat bs := by
  induction bs using List.reverseRecOn with
  | nil => rfl
  | append_singleton bs b ih =>
      rw [List.length_append, List.length_singleton] at hlen
      have hlt : beNat bs < 256 ^ 7 :=
        Nat.lt_of_lt_of_le (beNat_lt bs) (Nat.pow_le_pow_right (by decide)
          (Nat.le_of_succ_le_succ hlen))
      have hb := b.toNat_lt
      have h256 : (256 : UInt64).toNat = 256 := rfl
      rw [fromBeBytes_concat, beNat_concat, UInt64.toNat_add,
        UInt64.toNat_mul, UInt8.toNat_toUInt64, ih (by omega), h256]
      omega

/-- The low byte is written last. -/
theorem toBeBytes_succ {n : Nat} (hn : n < 8) (v : UInt64) :
    toBeBytes (n + 1) v = toBeBytes n (v >>> 8) ++ [v.toUInt8] := by
  unfold toBeBytes
  rw [List.range_succ_eq_map, List.reverse_cons, List.map_append,
    ← List.map_reverse, List.map_map]
  congr 1
  refine List.map_congr_left fun i hi => ?_
  have hi : i < n := List.mem_range.mp (List.mem_reverse.mp hi)
  apply UInt8.toNat.inj
  have h8 : (8 : UInt64).toNat % 64 = 8 := rfl
  simp only [Function.comp_apply, UInt64.toNat_toUInt8,
    UInt64.toNat_shiftRight, UInt64.toNat_ofNat', h8,
    Nat.shiftRight_eq_div_pow, Nat.div_div_eq_div_mul, ← Nat.pow_add]
  have hpow : 8 * i.succ % 2 ^ 64 % 64 = 8 + 8 * i % 2 ^ 64 % 64 := by omega
  rw [hpow]

/-- The bytes of a number made of bytes. -/
theorem toBeBytes_fromBeBytes {bs : List UInt8} (hlen : bs.length ≤ 8) :
    toBeBytes bs.length (fromBeBytes bs) = bs := by
  induction bs using List.reverseRecOn with
  | nil => rfl
  | append_singleton bs b ih =>
      rw [List.length_append, List.length_singleton] at hlen
      have hlt : (fromBeBytes bs).toNat < 256 ^ 7 := by
        rw [toNat_fromBeBytes (by omega)]
        exact Nat.lt_of_lt_of_le (beNat_lt bs) (Nat.pow_le_pow_right
          (by decide) (Nat.le_of_succ_le_succ hlen))
      have hb := b.toNat_lt
      have h256 : (256 : UInt64).toNat = 256 := rfl
      -- the last byte is below 256, the others are shifted above it
      have hhigh : (fromBeBytes bs * 256 + b.toUInt64) >>> 8
          = fromBeBytes bs := by
        apply UInt64.toNat.inj
        have h8 : (8 : UInt64).toNat % 64 = 8 := rfl
        simp only [UInt64.toNat_shiftRight, UInt64.toNat_add,
          UInt64.toNat_mul, UInt8.toNat_toUInt64, h256, h8,
          Nat.shiftRight_eq_div_pow]
        omega
      have hlow : (fromBeBytes bs * 256 + b.toUInt64).toUInt8 = b := by
        apply UInt8.toNat.inj
        simp only [UInt64.toNat_toUInt8, UInt64.toNat_add, UInt64.toNat_mul,
          UInt8.toNat_toUInt64, h256]
        omega
      rw [List.length_append, List.length_singleton,
        toBeBytes_succ (by omega), fromBeBytes_concat, hhigh, hlow,
        ih (by omega)]

-- ================================================================= heads

/-- An initial byte is its major type and its additional information. -/
theorem head_byte (ib : UInt8) : ((ib >>> 5) <<< 5) ||| (ib &&& 0x1F) = ib := by
  obtain ⟨b⟩ := ib
  apply UInt8.eq_of_toBitVec_eq
  show (b >>> 5#8) <<< 5#8 ||| b &&& 0x1F#8 = b
  revert b
  decide

/-- The two parts come back out of an initial byte put together of them;
there are 256 cases. -/
theorem head_split {m : UInt8} (info : UInt8) (hm : m.toNat < 8)
    (hinfo : info.toNat < 32) :
    ((m <<< 5) ||| info) >>> 5 = m ∧ ((m <<< 5) ||| info) &&& 0x1F = info := by
  have h : ∀ (m : Fin 8) (i : Fin 32),
      ((UInt8.ofNat m <<< 5) ||| UInt8.ofNat i) >>> 5 = UInt8.ofNat m
        ∧ ((UInt8.ofNat m <<< 5) ||| UInt8.ofNat i) &&& 0x1F
          = UInt8.ofNat i := by decide
  have := h ⟨m.toNat, hm⟩ ⟨info.toNat, hinfo⟩
  rwa [UInt8.ofNat_toNat, UInt8.ofNat_toNat] at this

theorem length_toBeBytes (n : Nat) (v : UInt64) :
    (toBeBytes n v).length = n := by
  unfold toBeBytes
  rw [List.length_map, List.length_reverse, List.length_range]

/-- Written in enough bytes a number is read back. -/
theorem beNat_toBeBytes {n : Nat} {v : UInt64} (hn : n ≤ 8)
    (hv : v.toNat < 256 ^ n) : beNat (toBeBytes n v) = v.toNat := by
  induction n generalizing v with
  | zero => exact (Nat.lt_one_iff.mp hv).symm
  | succ n ih =>
      have h8 : (8 : UInt64).toNat % 64 = 8 := rfl
      have hhigh : (v >>> 8).toNat = v.toNat / 256 := by
        rw [UInt64.toNat_shiftRight, h8, Nat.shiftRight_eq_div_pow]
      rw [Nat.pow_succ] at hv
      rw [toBeBytes_succ (by omega), beNat_concat, ih (by omega) (by omega),
        hhigh, UInt64.toNat_toUInt8]
      omega

/-- What the writer writes is a head. -/
theorem isHead_writeHead {m : UInt8} (hm : m.toNat < 8) (v : UInt64) :
    IsHead m v.toNat (writeHead (m <<< 5) v) := by
  have hlong : ∀ {info : UInt8} {n : Nat}, 23 < info.toNat →
      info.toNat ≤ 27 → n = 2 ^ (info.toNat - 24) → v.toNat < 256 ^ n →
      IsHead m v.toNat ((m <<< 5 ||| info) :: toBeBytes n v) := by
    intro info n h h' hn hv
    obtain ⟨hmajor, hinfo⟩ := head_split info hm (by omega)
    have hn8 : n ≤ 8 := by
      rw [hn]
      exact Nat.pow_le_pow_right (by decide) (by omega : info.toNat - 24 ≤ 3)
    have hhead := isHead_long (m <<< 5 ||| info) (toBeBytes n v)
      (by rw [hinfo]; exact h) (by rw [hinfo]; exact h')
      (by rw [hinfo, length_toBeBytes, hn])
    rwa [hmajor, beNat_toBeBytes hn8 hv] at hhead
  unfold writeHead
  split
  case isTrue h =>
      have h : v.toNat ≤ 23 := h
      have hlow : v.toUInt8.toNat = v.toNat := by
        rw [UInt64.toNat_toUInt8]
        omega
      obtain ⟨hmajor, hinfo⟩ :=
        head_split v.toUInt8 hm (by omega)
      have hhead := isHead_short (m <<< 5 ||| v.toUInt8)
        (by rw [hinfo]; omega)
      rwa [hmajor, hinfo, hlow] at hhead
  case isFalse =>
    split
    case isTrue h =>
      exact hlong (by decide) (by decide) rfl (Nat.lt_succ_of_le h)
    case isFalse =>
      split
      case isTrue h =>
        exact hlong (by decide) (by decide) rfl (Nat.lt_succ_of_le h)
      case isFalse =>
        split
        case isTrue h =>
          exact hlong (by decide) (by decide) rfl (Nat.lt_succ_of_le h)
        case isFalse =>
          exact hlong (by decide) (by decide) rfl v.toNat_lt

-- =============================================================== reading

/-- What came out of two computations came out of both. -/
theorem ok_of_bind {ε α γ : Type} {x : Except ε α} {f : α → Except ε γ}
    {c : γ} (h : (x >>= f) = .ok c) : ∃ a, x = .ok a ∧ f a = .ok c := by
  cases x with
  | error e => cases h
  | ok a => exact ⟨a, rfl, h⟩

theorem bind_ok {ε α γ : Type} {x : Except ε α} {f : α → Except ε γ}
    {a : α} {c : γ} (hx : x = .ok a) (hf : f a = .ok c) :
    (x >>= f) = .ok c := by
  rw [hx]
  exact hf

/-- A check that was passed. -/
theorem guard_ok {ε α γ : Type} {p : Prop} [Decidable p] {e : ε}
    {f : α → Except ε γ} {x : Except ε γ} {c : γ} :
    (if p then throw e >>= f else x) = .ok c ↔ ¬ p ∧ x = .ok c := by
  by_cases hp : p
  · rw [if_pos hp]
    exact iff_of_false (fun h => by cases h) fun h => h.1 hp
  · rw [if_neg hp]
    exact (and_iff_right hp).symm

/-- How a decoder of signed bytes ends: with the signature, and with whether
the bytes are the ones written. -/
theorem verified_canonical {α : Type} {check : Except Core.Error Unit}
    {w b : List UInt8} {e : Core.Error} {a a' : α} :
    (do
      check
      if w ≠ b then
        throw e
      return a) = Except.ok a'
      ↔ check = .ok () ∧ w = b ∧ a = a' := by
  constructor
  · intro h
    obtain ⟨_, hcheck, h⟩ := ok_of_bind h
    obtain ⟨hform, h⟩ := guard_ok.mp h
    cases h
    exact ⟨hcheck, not_not.mp hform, rfl⟩
  · rintro ⟨hcheck, hform, rfl⟩
    exact bind_ok hcheck (guard_ok.mpr ⟨not_not.mpr hform, rfl⟩)

/-- What a decoder of signed bytes accepts. -/
theorem read_verified_canonical {α : Type} {read : Except Core.Error α}
    {check : α → Except Core.Error Unit} {w : α → List UInt8}
    {b : List UInt8} {e : Core.Error} {a : α} :
    (do
      let a ← read
      check a
      if w a ≠ b then
        throw e
      return a) = Except.ok a
      ↔ read = .ok a ∧ check a = .ok () ∧ w a = b := by
  constructor
  · intro h
    obtain ⟨a₀, hread, h⟩ := ok_of_bind h
    obtain ⟨hcheck, hform, rfl⟩ := verified_canonical.mp h
    exact ⟨hread, hcheck, hform⟩
  · rintro ⟨hread, hcheck, hform⟩
    exact bind_ok hread (verified_canonical.mpr ⟨hcheck, hform, rfl⟩)

/-- The reader passes the bytes of its buffer from its position on. -/
def reading : Advance CborReader UInt8 where
  adv s bs s' := s' = ⟨s.buf, s.pos + bs.length⟩ ∧ bs <+: s.buf.drop s.pos
  nil s := ⟨rfl, List.nil_prefix⟩
  append := by
    rintro s t u x y ⟨rfl, r, hr⟩ ⟨rfl, hy⟩
    refine ⟨by simp only [List.length_append, Nat.add_assoc], ?_⟩
    dsimp only at hy
    rw [← List.drop_drop, ← hr, List.drop_left] at hy
    obtain ⟨q, rfl⟩ := hy
    exact ⟨q, by rw [← hr, List.append_assoc]⟩

/-- One byte, or the end of the buffer. -/
theorem readByte_run (s : CborReader) :
    readByte.run s = match s.buf[s.pos]? with
      | none => .error (.cborDecode "unexpected EOF")
      | some b => .ok (b, { s with pos := s.pos + 1 }) := by
  unfold readByte
  cases h : s.buf[s.pos]? with
  | none =>
      show (match s.buf[s.pos]? with | none => _ | some b => _ : Read UInt8) s
        = _
      rw [h]
      rfl
  | some b =>
      show (match s.buf[s.pos]? with | none => _ | some b => _ : Read UInt8) s
        = _
      rw [h]
      rfl

/-- So many bytes: the sum of position and length has to fit `usize`, and
the buffer has to go on that far. -/
theorem readN_run (n : Nat) (s : CborReader) :
    (readN n).run s =
      if s.pos + n ≥ 2 ^ 64 then .error (.cborDecode "length overflow")
      else if s.pos + n > s.buf.length then
        .error (.cborDecode "unexpected EOF")
      else .ok ((s.buf.drop s.pos).take n, { s with pos := s.pos + n }) := by
  unfold readN
  split
  case isTrue h =>
      show (if s.pos + n ≥ 2 ^ 64 then _ else _ : Read (List UInt8)) s = _
      rw [if_pos h]
      rfl
  case isFalse h =>
      show (if s.pos + n ≥ 2 ^ 64 then _ else _ : Read (List UInt8)) s = _
      rw [if_neg h]
      split <;> rfl

theorem consumes_readByte :
    Consumes reading readByte fun b bs => bs = [b] := by
  intro s b s' hrun
  rw [readByte_run] at hrun
  split at hrun
  case h_1 => cases hrun
  case h_2 b₀ hget =>
      cases hrun
      obtain ⟨hlt, hb⟩ := List.getElem?_eq_some_iff.mp hget
      refine ⟨[b], ⟨rfl, s.buf.drop (s.pos + 1), ?_⟩, rfl⟩
      rw [List.drop_eq_getElem_cons hlt, hb, List.singleton_append]

/-- Exactly as many as asked for. -/
theorem consumes_readN (n : Nat) :
    Consumes reading (readN n) fun b bs => bs = b ∧ b.length = n := by
  intro s b s' hrun
  rw [readN_run] at hrun
  split at hrun
  · cases hrun
  split at hrun
  · cases hrun
  case isFalse hroom =>
      cases hrun
      have hlen : ((s.buf.drop s.pos).take n).length = n := by
        rw [List.length_take, List.length_drop]
        omega
      refine ⟨_, ⟨?_, List.take_prefix ..⟩, rfl, hlen⟩
      rw [hlen]

/-- The reader accepts the shortest head only. -/
theorem consumes_readHead :
    Consumes reading readHead fun h bs =>
      bs = writeHead (h.1 <<< 5) h.2 ∧ h.1.toNat < 8 := by
  unfold readHead
  refine consumes_readByte.bind fun ib _ hib => ?_
  subst hib
  have hmajor : (ib >>> 5).toNat < 8 := by
    have := ib.toNat_lt
    have h5 : (5 : UInt8).toNat % 8 = 5 := rfl
    rw [UInt8.toNat_shiftRight, h5, Nat.shiftRight_eq_div_pow]
    omega
  have hib := head_byte ib
  -- a longer head is written in the width it announces
  have hlong : ∀ {n : Nat} {bs : List UInt8}, n ≤ 8 → bs.length = n →
      writeHead (ib >>> 5 <<< 5) (fromBeBytes bs)
        = (ib >>> 5 <<< 5 ||| (ib &&& 0x1F)) :: toBeBytes n (fromBeBytes bs) →
      [ib] ++ (bs ++ []) = writeHead (ib >>> 5 <<< 5) (fromBeBytes bs) := by
    intro n bs hn hlen hwrite
    rw [hwrite, hib, ← hlen, toBeBytes_fromBeBytes (hlen ▸ hn),
      List.append_nil]
    rfl
  have hfits : ∀ {n : Nat} {bs : List UInt8}, n ≤ 8 → bs.length = n →
      (fromBeBytes bs).toNat < 256 ^ n := by
    intro n bs hn hlen
    rw [toNat_fromBeBytes (hlen ▸ hn), ← hlen]
    exact beNat_lt bs
  refine .ite (fun h => .pure ⟨?_, hmajor⟩) fun _ => .ite (fun h => ?_) fun _ =>
    .ite (fun h => ?_) fun _ => .ite (fun h => ?_) fun _ => .ite (fun h => ?_)
      fun _ => .ite (fun _ => .throw) fun _ => .throw
  · have h : (ib &&& 0x1F).toNat ≤ 23 := h
    have hle : (ib &&& 0x1F).toUInt64 ≤ 23 := by
      show (ib &&& 0x1F).toUInt64.toNat ≤ 23
      rwa [UInt8.toNat_toUInt64]
    unfold writeHead
    rw [if_pos hle, UInt8.toUInt8_toUInt64, hib]
    rfl
  · refine consumes_readByte.bind fun b _ hb => ?_
    subst hb
    refine .ite (fun _ => .throw_bind) fun hge => .pure ⟨?_, hmajor⟩
    have hval : fromBeBytes [b] = b.toUInt64 := by
      rw [← List.nil_append [b], fromBeBytes_concat]
      exact UInt64.zero_add _
    have hle : fromBeBytes [b] ≤ 0xFF :=
      Nat.le_of_lt_succ (hfits (n := 1) (by decide) rfl)
    have hge : ¬ b.toUInt64 ≤ 23 := fun hle => hge (by
      have : b.toUInt64.toNat ≤ 23 := hle
      rw [UInt8.toNat_toUInt64] at this
      exact Nat.lt_succ_of_le this)
    rw [← hval] at hge ⊢
    refine hlong (n := 1) (by decide) rfl ?_
    unfold writeHead
    rw [if_neg hge, if_pos hle, h]
  · refine (consumes_readN 2).bind fun b bs ⟨hb, hlen⟩ => ?_
    subst hb
    refine .ite (fun _ => .throw_bind) fun hge => .pure ⟨?_, hmajor⟩
    refine hlong (by decide) hlen ?_
    have hle : fromBeBytes bs ≤ 0xFFFF :=
      Nat.le_of_lt_succ (hfits (by decide) hlen)
    unfold writeHead
    rw [if_neg fun hle => hge (UInt64.le_trans hle (by decide)), if_neg hge,
      if_pos hle, h]
  · refine (consumes_readN 4).bind fun b bs ⟨hb, hlen⟩ => ?_
    subst hb
    refine .ite (fun _ => .throw_bind) fun hge => .pure ⟨?_, hmajor⟩
    refine hlong (by decide) hlen ?_
    have hle : fromBeBytes bs ≤ 0xFFFFFFFF :=
      Nat.le_of_lt_succ (hfits (by decide) hlen)
    unfold writeHead
    rw [if_neg fun hle => hge (UInt64.le_trans hle (by decide)),
      if_neg fun hle => hge (UInt64.le_trans hle (by decide)), if_neg hge,
      if_pos hle, h]
  · refine (consumes_readN 8).bind fun b bs ⟨hb, hlen⟩ => ?_
    subst hb
    refine .ite (fun _ => .throw_bind) fun hge => .pure ⟨?_, hmajor⟩
    refine hlong (by decide) hlen ?_
    unfold writeHead
    rw [if_neg fun hle => hge (UInt64.le_trans hle (by decide)),
      if_neg fun hle => hge (UInt64.le_trans hle (by decide)),
      if_neg fun hle => hge (UInt64.le_trans hle (by decide)), if_neg hge, h]

-- ============================================================= primitives

/-- The reader passes what the writer writes, one data item. -/
def Spells {α : Type} (r : Read α) (w : α → List UInt8) : Prop :=
  Consumes reading r fun a bs => bs = w a ∧ Item bs

/-- A head of the wanted major type. -/
theorem consumes_readArg (want : UInt8) (what : String) :
    Consumes reading (readArg want what) fun v bs =>
      bs = writeHead (want <<< 5) v ∧ IsHead want v.toNat bs := by
  unfold readArg
  refine consumes_readHead.bind fun h bs ⟨hbs, hm⟩ => ?_
  obtain ⟨major, arg⟩ := h
  refine .ite (fun _ => .throw_bind) fun hmajor => .pure ?_
  obtain rfl : major = want := not_not.mp hmajor
  rw [List.append_nil, hbs]
  exact ⟨rfl, isHead_writeHead hm arg⟩

theorem spells_readU64 : Spells readU64 uint := by
  refine (consumes_readArg 0 "uint").mono fun v bs ⟨hbs, hhead⟩ => ⟨hbs, ?_⟩
  rw [← List.append_nil bs]
  exact .leaf hhead rfl rfl

theorem spells_readBytes : Spells readBytes bytes := by
  refine (consumes_readArg 2 "bytes").bind fun v hd ⟨hhd, hhead⟩ => ?_
  refine (consumes_readN v.toNat).mono fun b bs ⟨hbs, hlen⟩ => ?_
  subst hbs
  refine ⟨?_, .leaf hhead hlen rfl⟩
  unfold bytes
  rw [hlen, UInt64.ofNat_toNat, hhd]
  rfl

/-- A text is its bytes: that they are UTF-8 was checked, and a string is
written as the bytes it was read from. -/
theorem spells_readText : Spells readText text := by
  refine (consumes_readArg 3 "text").bind fun v hd ⟨hhd, hhead⟩ => ?_
  refine (consumes_readN v.toNat).bind fun b bs ⟨hbs, hlen⟩ => ?_
  subst hbs
  split
  case h_1 t ht =>
      have hutf8 : t.toUTF8.data.toList = bs := by
        unfold String.fromUTF8? at ht
        split at ht
        case isTrue =>
            injection ht with ht
            subst ht
            rfl
        case isFalse => cases ht
      refine .pure ⟨?_, ?_⟩
      · unfold text
        dsimp only
        rw [hutf8, hlen, UInt64.ofNat_toNat, hhd, List.append_nil]
        rfl
      · rw [List.append_nil]
        exact .leaf hhead hlen rfl
  case h_2 => exact .throw

/-- A byte string whose length was checked. -/
theorem spells_readExact (field : String) (n : Nat) :
    Spells (readExact field n) fun b => bytes b.val := by
  refine spells_readBytes.bind fun b bs ⟨hbs, hitem⟩ => ?_
  split
  case isTrue =>
      refine .pure ?_
      rw [List.append_nil]
      exact ⟨hbs, hitem⟩
  case isFalse => exact .throw

/-- A number that was checked to be a byte is that byte. -/
theorem encodeU8_toUInt8 {v : UInt64} (h : ¬ v.toNat > 255) :
    encodeU8 v.toUInt8 = uint v := by
  have hv : v.toUInt8.toUInt64 = v := by
    apply UInt64.toNat.inj
    rw [UInt8.toNat_toUInt64, UInt64.toNat_toUInt8]
    omega
  rw [encodeU8, hv]

theorem spells_readU8 : Spells readU8 encodeU8 := by
  refine spells_readU64.bind fun v bs ⟨hbs, hitem⟩ =>
    .ite (fun _ => .throw_bind) fun hle => .pure ?_
  rw [List.append_nil, encodeU8_toUInt8 hle]
  exact ⟨hbs, hitem⟩

-- ============================================================ null values

theorem remaining_run (s : CborReader) :
    remaining.run s = .ok (s.buf.drop s.pos, s) := rfl

/-- Peeking does not move the reader. -/
theorem peekOr_run (missing : String) (s : CborReader) :
    (ProfilePayload.peekOr missing).run s = match s.buf[s.pos]? with
      | none => .error (.cborDecode missing)
      | some b => .ok (b, s) := by
  unfold ProfilePayload.peekOr
  rw [StateT.run_bind, remaining_run]
  show (match (s.buf.drop s.pos).head? with
    | none => _ | some b => _ : Read UInt8) s = _
  rw [List.head?_drop]
  cases s.buf[s.pos]? <;> rfl

/-- A null is passed as one byte. -/
theorem readBytesOrNull_run {s : CborReader}
    (h : s.buf[s.pos]? = some simpleNull) :
    readBytesOrNull.run s = .ok (none, { s with pos := s.pos + 1 }) := by
  unfold readBytesOrNull
  rw [StateT.run_bind, remaining_run]
  show (match (s.buf.drop s.pos).head? with
    | none => _ | some b => _ : Read (Option (List UInt8))) s = _
  rw [List.head?_drop, h]
  show StateT.run (do let _ ← readByte; return none) s = _
  rw [StateT.run_bind, readByte_run, h]
  rfl

/-- A simple value is one byte. -/
theorem item_simple {ib : UInt8} (h : (ib &&& 0x1F).toNat ≤ 23)
    (hmajor : ib >>> 5 = 7) : Item [ib] := by
  have hhead := isHead_short _ h
  rw [hmajor] at hhead
  have hitem : Item ([ib] ++ []) := .leaf hhead rfl rfl
  exact hitem

/-- The two bytes of a boolean are the only ones accepted. -/
theorem spells_readBool : Spells readBool boolean := by
  refine consumes_readByte.bind fun b _ hb => ?_
  subst hb
  refine .ite (fun h => .pure ?_) fun _ => .ite (fun h => .pure ?_)
    fun _ => .throw
  · subst h
    exact ⟨rfl, item_simple (by decide) (by decide)⟩
  · subst h
    exact ⟨rfl, item_simple (by decide) (by decide)⟩

/-- A null is told from everything else by its byte. -/
theorem spells_peekNull {α : Type} {missing : String} {r : Read α}
    {rnull : Read (Option α)} {w : α → List UInt8}
    (hnull : ∀ s : CborReader, s.buf[s.pos]? = some simpleNull →
      rnull.run s = .ok (none, { s with pos := s.pos + 1 }))
    (hr : Spells r w) :
    Spells (ProfilePayload.peekOr missing >>= fun peek =>
      if peek = simpleNull then rnull else return some (← r))
      (ProfilePayload.orNull w) := by
  intro s a s' hrun
  rw [StateT.run_bind, peekOr_run] at hrun
  cases hget : s.buf[s.pos]? with
  | none =>
      rw [hget] at hrun
      cases hrun
  | some b =>
      rw [hget] at hrun
      replace hrun : StateT.run (if b = simpleNull then _ else _) s = _ := hrun
      split at hrun
      case isTrue h =>
        subst h
        rw [hnull s hget] at hrun
        cases hrun
        obtain ⟨hlt, hb⟩ := List.getElem?_eq_some_iff.mp hget
        refine ⟨null, ⟨rfl, s.buf.drop (s.pos + 1), ?_⟩, rfl,
          item_simple (by decide) (by decide)⟩
        rw [List.drop_eq_getElem_cons hlt, hb]
        rfl
      case isFalse =>
        have hsome : Spells (do return some (← r))
            (ProfilePayload.orNull w) := by
          refine hr.bind fun a bs ⟨hbs, hitem⟩ => .pure ?_
          rw [List.append_nil]
          exact ⟨hbs, hitem⟩
        exact hsome s a s' hrun

/-- A value or a null. -/
theorem spells_readOrNull {α : Type} {missing : String} {r : Read α}
    {w : α → List UInt8} (hr : Spells r w) :
    Spells (readOrNull missing r) (ProfilePayload.orNull w) := by
  refine spells_peekNull (fun s hs => ?_) hr
  rw [StateT.run_bind, readBytesOrNull_run hs]
  rfl

/-- `read_bytes_or_null` peeks like the optional fields, with its own error. -/
theorem readBytesOrNull_eq : readBytesOrNull
    = (ProfilePayload.peekOr "unexpected EOF" >>= fun peek =>
      if peek = simpleNull then do
        let _ ← readByte
        return none
      else return some (← readBytes)) := by
  funext s
  unfold readBytesOrNull ProfilePayload.peekOr
  show StateT.run _ s = StateT.run _ s
  rw [StateT.run_bind, StateT.run_bind, StateT.run_bind, remaining_run]
  cases h : (s.buf.drop s.pos).head? with
  | none =>
      show StateT.run (match (s.buf.drop s.pos).head? with
        | none => _ | some b => _) s = StateT.run (match
          (s.buf.drop s.pos).head? with | none => _ | some b => _) s >>= _
      rw [h]
      rfl
  | some b =>
      show StateT.run (match (s.buf.drop s.pos).head? with
        | none => _ | some b => _) s = StateT.run (match
          (s.buf.drop s.pos).head? with | none => _ | some b => _) s >>= _
      rw [h]
      rfl

theorem spells_readBytesOrNull :
    Spells readBytesOrNull (ProfilePayload.orNull bytes) := by
  rw [readBytesOrNull_eq]
  refine spells_peekNull (fun s hs => ?_) spells_readBytes
  rw [StateT.run_bind, readByte_run, hs]
  rfl

-- ================================================================ results

/-- Whatever the reader returns has the property. -/
def Returns {α : Type} (r : Read α) (P : α → Prop) : Prop :=
  ∀ s a s', r.run s = .ok (a, s') → P a

/-- Nothing is said of the result. -/
theorem Returns.any {α : Type} (r : Read α) : Returns r fun _ => True :=
  fun _ _ _ _ => trivial

theorem Returns.mono {α : Type} {r : Read α} {P Q : α → Prop}
    (h : Returns r P) (hPQ : ∀ a, P a → Q a) : Returns r Q :=
  fun s a s' hrun => hPQ a (h s a s' hrun)

theorem Returns.pure {α : Type} {P : α → Prop} {a : α} (h : P a) :
    Returns (Pure.pure a) P := by
  intro s a' s' hrun
  cases hrun
  exact h

/-- Nothing is returned after an error. -/
theorem Returns.throw_bind {α γ : Type} {P : γ → Prop} {e : Core.Error}
    {f : α → Read γ} : Returns (MonadExcept.throw e >>= f) P := by
  intro s a s' hrun
  cases hrun

/-- The second reader knows what the first returned. -/
theorem Returns.bind {α γ : Type} {r : Read α} {f : α → Read γ}
    {P : α → Prop} {Q : γ → Prop} (hr : Returns r P)
    (hf : ∀ a, P a → Returns (f a) Q) : Returns (r >>= f) Q := by
  intro s c s' hrun
  rw [StateT.run_bind] at hrun
  cases hfirst : r.run s with
  | error e =>
      rw [hfirst] at hrun
      cases hrun
  | ok p =>
      obtain ⟨a, t⟩ := p
      rw [hfirst] at hrun
      exact hf a (hr s a t hfirst) t c s' hrun

theorem Returns.ite {α : Type} {p : Prop} [Decidable p] {r r' : Read α}
    {P : α → Prop} (ht : p → Returns r P) (hf : ¬ p → Returns r' P) :
    Returns (if p then r else r') P := by
  split
  case isTrue h => exact ht h
  case isFalse h => exact hf h

/-- A key, then the value the field has. -/
theorem Returns.field {α γ : Type} {k msg : String} {r : Read α}
    {f : α → Read γ} {P : α → Prop} {Q : γ → Prop} (hr : Returns r P)
    (hf : ∀ a, P a → Returns (f a) Q) :
    Returns (do expectKey k msg; let a ← r; f a) Q :=
  (Returns.any _).bind fun _ _ => hr.bind hf

/-- In particular what a decoder read from a buffer. -/
theorem Returns.of_value {α : Type} {r : Read α} {P : α → Prop}
    {b : List UInt8} {v : α} (hr : Returns r P) (hv : r.value b = .ok v) :
    P v := by
  unfold Read.value Read.on at hv
  cases hrun : r.run ⟨b, 0⟩ with
  | error e =>
      rw [hrun] at hv
      cases hv
  | ok p =>
      obtain ⟨a, s'⟩ := p
      rw [hrun] at hv
      cases hv
      exact hr _ _ _ hrun

/-- The limit on counts is checked before anything is read. -/
theorem returns_readCount (want : UInt8) (what : String) :
    Returns (readCount want what) (· ≤ maxCborEntries) :=
  (Returns.any _).bind fun _ _ =>
    .ite (fun _ => .throw_bind) fun h => .pure (Nat.le_of_not_lt h)

/-- By induction on how many are left to read. -/
theorem returns_readTimes {α : Type} {r : Read α} {P : α → Prop}
    (hr : Returns r P) (n : Nat) :
    Returns (readTimes n r) fun xs => xs.length = n ∧ ∀ a ∈ xs, P a := by
  induction n with
  | zero => exact .pure ⟨rfl, nofun⟩
  | succ n ih =>
      refine hr.bind fun a ha => ih.bind fun xs ⟨hlen, hxs⟩ => .pure ?_
      refine ⟨congrArg (· + 1) hlen, fun x hx => ?_⟩
      rcases List.mem_cons.mp hx with rfl | hx
      · exact ha
      · exact hxs x hx

/-- An array that was read is within the limit. -/
theorem returns_readArray {α : Type} {r : Read α} {P : α → Prop}
    (hr : Returns r P) : Returns (readArray r) fun xs =>
      xs.length ≤ maxCborEntries ∧ ∀ a ∈ xs, P a :=
  (returns_readCount 4 "array").bind fun n hn =>
    (returns_readTimes hr n).mono fun _ ⟨hlen, hxs⟩ => ⟨hlen ▸ hn, hxs⟩

-- ================================================================ arrays

/-- A count is a head like another. -/
theorem consumes_readCount (want : UInt8) (what : String) :
    Consumes reading (readCount want what) fun n bs =>
      bs = writeHead (want <<< 5) (UInt64.ofNat n) ∧ IsHead want n bs := by
  unfold readCount
  refine (consumes_readArg want what).bind fun v bs ⟨hbs, hhead⟩ =>
    .ite (fun _ => .throw_bind) fun _ => .pure ?_
  rw [List.append_nil, UInt64.ofNat_toNat]
  exact ⟨hbs, hhead⟩

/-- So many values, one after the other; by induction on how many. -/
theorem consumes_readTimes {α : Type} {r : Read α} {w : α → List UInt8}
    (hr : Spells r w) (n : Nat) :
    Consumes reading (readTimes n r) fun xs bs =>
      xs.length = n ∧ bs = xs.flatMap w ∧ Items n bs := by
  induction n with
  | zero => exact .pure ⟨rfl, rfl, .nil⟩
  | succ n ih =>
      unfold readTimes
      refine hr.bind fun a x ⟨hx, hitem⟩ =>
        ih.bind fun xs y ⟨hlen, hy, hitems⟩ => .pure ?_
      subst hx hy
      rw [List.append_nil, List.length_cons, hlen, Nat.add_comm]
      exact ⟨rfl, rfl, hitem.append hitems⟩

/-- An array is its count and its items. -/
theorem spells_readArray {α : Type} {r : Read α} {w : α → List UInt8}
    (hr : Spells r w) : Spells (readArray r) (encodeArray w) := by
  refine (consumes_readCount 4 "array").bind fun n hd ⟨hhd, hhead⟩ => ?_
  refine (consumes_readTimes hr n).mono fun xs bs ⟨hlen, hbs, hitems⟩ => ?_
  refine ⟨?_, .around hhead rfl hitems⟩
  unfold encodeArray arrayHeader
  rw [hlen, hhd, hbs]
  rfl

-- ================================================================== maps

/-- A key passed is the key wanted. -/
theorem consumes_expectKey (want msg : String) :
    Consumes reading (expectKey want msg) fun _ bs =>
      bs = key want ∧ Item bs := by
  refine spells_readText.bind fun t bs ⟨hbs, hitem⟩ => ?_
  refine .ite (fun _ => .throw) fun hkey => .pure ?_
  obtain rfl := not_not.mp hkey
  rw [List.append_nil]
  exact ⟨hbs, hitem⟩

/-- The fields of a map, read one after the other, and what they stand in to
the result. -/
def Fields {γ : Type} (f : Read γ) (R : γ → List MapEntry → Prop) : Prop :=
  Consumes reading f fun c bs => ∃ es : List MapEntry,
    bs = es.flatMap (fun e => e.key ++ e.value)
      ∧ Items (2 * es.length) bs ∧ R c es

theorem Fields.pure {γ : Type} {c : γ} {R : γ → List MapEntry → Prop}
    (h : R c []) : Fields (Pure.pure c) R :=
  Consumes.pure ⟨[], rfl, .nil, h⟩

/-- A key and its value, then the other fields. -/
theorem Fields.field {α γ : Type} {k msg : String} {r : Read α}
    {w : α → List UInt8} {f : α → Read γ} {R : γ → List MapEntry → Prop}
    (hr : Spells r w)
    (hf : ∀ a, Fields (f a) fun c es => R c (⟨key k, w a⟩ :: es)) :
    Fields (do expectKey k msg; let a ← r; f a) R := by
  refine (consumes_expectKey k msg).bind fun _ x ⟨hx, hkey⟩ => ?_
  refine hr.bind fun a y ⟨hy, hvalue⟩ => (hf a).mono fun c z h => ?_
  obtain ⟨es, hz, hitems, hR⟩ := h
  refine ⟨_, ?_, ?_, hR⟩
  · rw [hx, hy, hz, List.flatMap_cons, List.append_assoc]
  · rw [List.length_cons, show 2 * (es.length + 1) = 1 + (1 + 2 * es.length)
      by omega]
    exact hkey.append (hvalue.append hitems)

/-- A map is opened by the number of entries wanted. -/
theorem consumes_expectEntries (n : Nat) (msg : Nat → String) :
    Consumes reading (expectEntries n msg) fun _ bs =>
      bs = writeHead mtMap (UInt64.ofNat n) ∧ IsHead 5 n bs := by
  refine (consumes_readCount 5 "map").bind fun got bs hgot => ?_
  refine .ite (fun _ => .throw) fun hn => .pure ?_
  obtain rfl := not_not.mp hn
  rw [List.append_nil]
  exact hgot

/-- A map spells its encoding if its fields do. -/
theorem spells_map {γ : Type} {n : Nat} {msg : Nat → String} {f : Read γ}
    {enc : γ → List UInt8}
    (h : Fields f fun c es => es.length = n ∧ enc c = encodeMap es) :
    Spells (do expectEntries n msg; f) enc := by
  refine (consumes_expectEntries n msg).bind fun _ hd ⟨hhd, hhead⟩ =>
    h.mono fun c bs h => ?_
  obtain ⟨es, hbs, hitems, rfl, henc⟩ := h
  refine ⟨?_, .around hhead rfl hitems⟩
  rw [henc, hhd, hbs]
  rfl

-- ========================================================== maps of texts

/-- A read whose bytes are taken from the buffer as well. -/
theorem Spells.marked {α γ : Type} {r : Read α} {w : α → List UInt8}
    {f : α → List UInt8 → Read γ} {R : γ → List UInt8 → Prop}
    (hr : Spells r w)
    (hf : ∀ a, Item (w a) →
      Consumes reading (f a (w a)) fun c y => R c (w a ++ y)) :
    Consumes reading (do
      let start ← position
      let a ← r
      let b ← slice start (← position)
      f a b) R := by
  intro s c s' hrun
  rw [StateT.run_bind, show position.run s = .ok (s.pos, s) from rfl] at hrun
  replace hrun : StateT.run (do
      let a ← r
      let b ← slice s.pos (← position)
      f a b) s = .ok (c, s') := hrun
  rw [StateT.run_bind] at hrun
  cases hfirst : r.run s with
  | error e =>
      rw [hfirst] at hrun
      cases hrun
  | ok p =>
      obtain ⟨a, t⟩ := p
      obtain ⟨x, ⟨ht, hx⟩, rfl, hitem⟩ := hr s a t hfirst
      rw [hfirst] at hrun
      have hslice : (slice s.pos t.pos).run t = .ok (w a, t) := by
        show Except.ok ((t.buf.drop s.pos).take (t.pos - s.pos), t) = _
        obtain ⟨q, hq⟩ := hx
        rw [ht, Nat.add_sub_cancel_left, ← hq, List.take_left']
        rfl
      replace hrun : StateT.run (slice s.pos t.pos >>= f a) t = .ok (c, s') :=
        hrun
      rw [StateT.run_bind, hslice] at hrun
      obtain ⟨y, hy, hR⟩ := hf a hitem t c s' hrun
      exact ⟨w a ++ y, reading.append ⟨ht, hx⟩ hy, hR⟩

/-- An entry of a map whose values are written so. -/
def textEntry {V : Type} (w : V → List UInt8) (e : String × V) : MapEntry :=
  ⟨key e.1, w e.2⟩

/-- The entries come in the order of their encoded keys. -/
theorem consumes_readMapLoop {V : Type} {r : Read V} {w : V → List UInt8}
    (hr : Spells r w) (unordered : String) (n : Nat)
    (prev : Option (List UInt8)) :
    Consumes reading (readMapLoop unordered r n prev) fun es bs =>
      es.length = n
        ∧ bs = (es.map (textEntry w)).flatMap (fun e => e.key ++ e.value)
        ∧ Items (2 * n) bs
        ∧ (prev.toList ++ es.map fun e => key e.1).Pairwise (· < ·) := by
  induction n generalizing prev with
  | zero =>
      refine .pure ⟨rfl, rfl, .nil, ?_⟩
      cases prev <;> simp
  | succ n ih =>
      unfold readMapLoop
      refine spells_readText.marked fun k hk =>
        .ite (fun _ => .throw_bind) fun hprev => ?_
      refine hr.bind fun v y ⟨hy, hv⟩ =>
        (ih (some (text k))).bind fun es z ⟨hlen, hz, hitems, hsorted⟩ => ?_
      refine .pure ⟨congrArg (· + 1) hlen, ?_, ?_, ?_⟩
      · rw [hy, hz, List.append_nil]
        show _ = (key k ++ w v) ++ _
        rw [List.append_assoc]
        rfl
      · rw [List.append_nil, show 2 * (n + 1) = 1 + (1 + 2 * n) by omega]
        exact hk.append (hv.append hitems)
      · cases prev with
        | none => exact hsorted
        | some p =>
            have hlt : p < text k := by simpa using hprev
            refine List.pairwise_cons.mpr ⟨fun q hq => ?_, hsorted⟩
            rcases List.mem_cons.mp hq with rfl | hq
            · exact hlt
            · exact List.lt_trans hlt
                ((List.pairwise_cons.mp hsorted).1 q hq)

theorem not_decide_lt {a b : List UInt8} :
    (!decide (b < a)) = true ↔ a ≤ b := by
  rw [Bool.not_eq_true', decide_eq_false_iff_not]
  exact List.not_lt

/-- Sorting by the encoded keys puts them in order. -/
theorem pairwise_mergeSort_key {α : Type} (key : α → List UInt8)
    (xs : List α) :
    (xs.mergeSort fun a b => !decide (key b < key a)).Pairwise
      fun a b => key a ≤ key b := by
  refine (List.pairwise_mergeSort (fun a b c => ?_) (fun a b => ?_) xs).imp
    not_decide_lt.mp
  · rw [not_decide_lt, not_decide_lt, not_decide_lt]
    exact List.le_trans
  · rw [Bool.or_eq_true, not_decide_lt, not_decide_lt]
    exact List.le_total _ _

/-- Sorting entries gives them back if they are in order already. -/
theorem mergeSort_entries (es : List MapEntry) {es' : List MapEntry}
    (hperm : es'.Perm es)
    (hsorted : es.Pairwise fun a b => a.key < b.key) :
    es'.mergeSort (fun a b => !decide (b.key < a.key)) = es := by
  have hnodup : (es.map MapEntry.key).Nodup :=
    (List.pairwise_map.mpr hsorted).nodup
  have hperm' := (List.mergeSort_perm es'
    fun a b => !decide (b.key < a.key)).trans hperm
  refine hperm'.eq_of_pairwise (fun a b ha hb hab hba => ?_)
    (pairwise_mergeSort_key MapEntry.key es') (hsorted.imp List.le_of_lt)
  exact List.inj_on_of_nodup_map hnodup (hperm'.subset ha) hb
    (List.le_antisymm hab hba)

/-- A map is written in the order its keys were read in: each key was
compared with the one before. -/
theorem spells_readMap {V : Type} {r : Read V} {w : V → List UInt8}
    (hr : Spells r w) (unordered : String) :
    Spells (readMap unordered r) (encodeSortedMap w) := by
  refine (consumes_readCount 5 "map").bind fun n hd ⟨hhd, hhead⟩ => ?_
  refine (consumes_readMapLoop hr unordered n none).bind
    fun es bs ⟨hlen, hbs, hitems, hsorted⟩ => .pure ?_
  rw [List.append_nil]
  refine ⟨?_, .around hhead rfl hitems⟩
  -- no key comes twice, so no entry is overwritten when the map is made
  have hkeys : (es.map Prod.fst).Nodup := by
    replace hsorted : (es.map fun e => key e.1).Pairwise (· < ·) := hsorted
    refine .of_map key ?_
    rw [List.map_map]
    exact hsorted.nodup
  have hperm := Lib.BTreeMap.foldl_insert_perm es
    (m := BTreeMap.empty) (by simpa [BTreeMap.keys, BTreeMap.empty] using hkeys)
  have hsort := mergeSort_entries (es.map (textEntry w))
    ((hperm.trans (.of_eq (List.append_nil es))).map (textEntry w))
    (List.pairwise_map.mpr (List.pairwise_map.mp hsorted))
  unfold encodeSortedMap
  rw [show (fun e : String × V => MapEntry.mk (key e.1) (w e.2))
    = textEntry w from rfl, hsort, hbs, hhd]
  unfold encodeMap
  rw [List.length_map, hlen]
  rfl

theorem returns_readMapLoop {V : Type} (unordered : String) (r : Read V)
    (n : Nat) (prev : Option (List UInt8)) :
    Returns (readMapLoop unordered r n prev) fun es => es.length = n := by
  induction n generalizing prev with
  | zero => exact .pure rfl
  | succ n ih =>
      unfold readMapLoop
      refine (Returns.any _).bind fun _ _ => (Returns.any _).bind fun k _ =>
        (Returns.any _).bind fun _ _ => (Returns.any _).bind fun b _ =>
        .ite (fun _ => .throw_bind) fun _ => (Returns.any _).bind fun v _ =>
        (ih (some b)).bind fun es hes => .pure ?_
      exact congrArg (· + 1) hes

/-- The count is within the limit, and inserting entries makes no more of
them. -/
theorem returns_readMap {V : Type} (unordered : String) (r : Read V) :
    Returns (readMap unordered r) fun m => m.entries.length ≤ maxCborEntries :=
  (returns_readCount 5 "map").bind fun n hn =>
    (returns_readMapLoop unordered r n none).bind fun es hes => .pure
      ((Lib.BTreeMap.length_foldl_insert_le es BTreeMap.empty).trans
        (hes ▸ hn))

theorem spells_readTextMap (unordered : String) :
    Spells (readTextMap unordered) encodeTextMap :=
  spells_readMap spells_readText unordered

theorem returns_readTextMap (unordered : String) :
    Returns (readTextMap unordered) fun m =>
      m.entries.length ≤ maxCborEntries :=
  returns_readMap unordered readText

end Sidevers.Proofs
