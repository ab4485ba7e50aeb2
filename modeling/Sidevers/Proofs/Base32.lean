/-
Base32 gives back the bytes it was made of.

Both loops regroup bits (`Lib.Regroup`): the encoder bytes into digits of five
bits, the decoder these into bytes. The buffer is 32 bits wide and, in the
encoder, never cleared; only its low bits count, and shifting does not lose
them before they are given out.
-/
import Sidevers.Core.Qr
import Sidevers.Lib.Regroup

namespace Sidevers.Proofs

open Sidevers.Core
open Sidevers.Lib

-- ============================================================= the buffer

theorem toNat_ofNat {k : Nat} (hk : k < 32) : (UInt32.ofNat k).toNat = k :=
  UInt32.toNat_ofNat_of_lt' (Nat.lt_trans hk (by decide))

theorem toNat_shift_or {k : Nat} (hk : k ≤ 8) (x : UInt32) {d : UInt32}
    (hd : d.toNat < 2 ^ k) :
    ((x <<< UInt32.ofNat k) ||| d).toNat
      = x.toNat * 2 ^ k % 2 ^ 32 + d.toNat := by
  have hshift : (UInt32.ofNat k).toNat % 32 = k := by
    rw [toNat_ofNat (by omega)]
    omega
  have hpow : 2 ^ 32 = 2 ^ k * 2 ^ (32 - k) := by
    rw [← Nat.pow_add]
    congr 1
    omega
  rw [UInt32.toNat_or, UInt32.toNat_shiftLeft, hshift, Nat.shiftLeft_eq,
    Nat.mul_comm, hpow, Nat.mul_mod_mul_left]
  exact (Nat.two_pow_add_eq_or_of_lt hd _).symm

/-- The bits held and a digit behind them. -/
theorem shift_mod (x bits : Nat) {d k : Nat} (hd : d < 2 ^ k)
    (hroom : bits + k ≤ 32) :
    (x * 2 ^ k % 2 ^ 32 + d) % 2 ^ (bits + k) = x % 2 ^ bits * 2 ^ k + d := by
  have hdvd : 2 ^ (bits + k) ∣ 2 ^ 32 := Nat.pow_dvd_pow 2 hroom
  have hlow : (x * 2 ^ k + d) % 2 ^ k = d := by
    rw [Nat.mul_comm, Nat.mul_add_mod, Nat.mod_eq_of_lt hd]
  have hhigh : (x * 2 ^ k + d) / 2 ^ k = x := by
    rw [Nat.mul_comm, Nat.mul_add_div (Nat.two_pow_pos k),
      Nat.div_eq_of_lt hd, Nat.add_zero]
  rw [Nat.add_mod, Nat.mod_mod_of_dvd _ hdvd, ← Nat.add_mod, Nat.add_comm bits,
    Nat.pow_add, Nat.mod_mul, hlow, hhigh, Nat.add_comm, Nat.mul_comm]

theorem toNat_shiftRight {k : Nat} (hk : k < 32) (x : UInt32) :
    (x >>> UInt32.ofNat k).toNat = x.toNat / 2 ^ k := by
  rw [UInt32.toNat_shiftRight, toNat_ofNat hk, Nat.mod_eq_of_lt hk,
    Nat.shiftRight_eq_div_pow]

/-- The highest of the bits held. -/
theorem mod_div_high {x bits v : Nat} (hv : v ≤ bits) :
    x % 2 ^ bits / 2 ^ (bits - v) = x / 2 ^ (bits - v) % 2 ^ v := by
  have hpow : 2 ^ bits = 2 ^ (bits - v) * 2 ^ v := by
    rw [← Nat.pow_add, Nat.sub_add_cancel hv]
  rw [hpow, Nat.mod_mul_right_div_self]

theorem mod_mod_low {x bits v : Nat} :
    x % 2 ^ bits % 2 ^ (bits - v) = x % 2 ^ (bits - v) :=
  Nat.mod_mod_of_dvd _ (Nat.pow_dvd_pow 2 (Nat.sub_le _ _))

theorem toNat_and_low (x : UInt32) : (x &&& 0x1F).toNat = x.toNat % 2 ^ 5 :=
  Nat.and_two_pow_sub_one_eq_mod _ 5

theorem toNat_and_mask {k : Nat} (hk : k < 32) (x : UInt32) :
    (x &&& ((1 <<< UInt32.ofNat k) - 1)).toNat = x.toNat % 2 ^ k := by
  have hone : (1 <<< UInt32.ofNat k : UInt32).toNat = 2 ^ k := by
    rw [UInt32.toNat_shiftLeft, toNat_ofNat hk, Nat.mod_eq_of_lt hk,
      Nat.shiftLeft_eq]
    show 1 * 2 ^ k % 2 ^ 32 = _
    rw [Nat.one_mul, Nat.mod_eq_of_lt (Nat.pow_lt_pow_right (by decide) hk)]
  have hle : (1 : UInt32) ≤ 1 <<< UInt32.ofNat k := by
    show 1 ≤ (1 <<< UInt32.ofNat k : UInt32).toNat
    rw [hone]
    exact Nat.two_pow_pos k
  rw [UInt32.toNat_and, UInt32.toNat_sub_of_le _ _ hle, hone]
  exact Nat.and_two_pow_sub_one_eq_mod _ k

-- ================================================================ encoding

/-- The character of a digit. -/
def digitChar (d : Nat) : Char := base32Alphabet.getD d 'a'

/-- The characters given out are digits of the bytes taken. -/
structure Encodes (bytes : List UInt8) (digits : List Nat)
    (s : Base32State Char) : Prop where
  out : s.out = digits.map digitChar
  regroup : Regroup 8 5 (bytes.map UInt8.toNat) digits
    (s.buffer.toNat % 2 ^ s.bits) s.bits

theorem encodes_giveChar {bytes : List UInt8} {digits : List Nat}
    {s : Base32State Char} (h : Encodes bytes digits s) (hlow : 5 ≤ s.bits)
    (hhigh : s.bits ≤ 12) :
    ∃ d, Encodes bytes (digits ++ [d]) s.giveChar := by
  have hgive := h.regroup.give hlow
  rw [mod_div_high hlow, mod_mod_low] at hgive
  refine ⟨_, ?_, hgive⟩
  show s.out ++ [digitChar _] = _
  rw [h.out, List.map_append, toNat_and_low, toNat_shiftRight (by omega)]
  rfl

theorem encodes_giveChars {bytes : List UInt8} (n : Nat) {digits : List Nat}
    {s : Base32State Char} (h : Encodes bytes digits s) (hhigh : s.bits ≤ 12)
    (hn : s.bits ≤ n) :
    ∃ digits', Encodes bytes digits' (Base32State.giveChars n s)
      ∧ (Base32State.giveChars n s).bits < 5 := by
  induction n generalizing digits s with
  | zero => exact ⟨digits, h, show s.bits < 5 by omega⟩
  | succ n ih =>
      unfold Base32State.giveChars
      split
      case isTrue hlow =>
        obtain ⟨d, hd⟩ := encodes_giveChar h hlow hhigh
        have hbits : s.giveChar.bits = s.bits - 5 := rfl
        exact ih hd (by omega) (by omega)
      case isFalse hlow => exact ⟨digits, h, Nat.lt_of_not_le hlow⟩

theorem encodes_takeByte {bytes : List UInt8} {digits : List Nat}
    {s : Base32State Char} (h : Encodes bytes digits s) (hbits : s.bits < 5)
    (b : UInt8) :
    ∃ digits', Encodes (bytes ++ [b]) digits' (s.takeByte b)
      ∧ (s.takeByte b).bits < 5 := by
  have hb : b.toUInt32.toNat < 2 ^ 8 := by
    rw [UInt8.toNat_toUInt32]
    exact b.toNat_lt
  have htaken := h.regroup.take (d := b.toUInt32.toNat) hb
  rw [← shift_mod _ _ hb (by omega), ← toNat_shift_or (by decide) s.buffer hb]
    at htaken
  have hs : Encodes (bytes ++ [b]) digits { s with
      buffer := (s.buffer <<< 8) ||| b.toUInt32, bits := s.bits + 8 } := by
    refine ⟨h.out, ?_⟩
    rw [List.map_append]
    rwa [UInt8.toNat_toUInt32] at htaken
  refine encodes_giveChars _ hs ?_ (Nat.le_refl _)
  show s.bits + 8 ≤ 12
  omega

theorem encodes_foldl {bytes : List UInt8} (input : List UInt8)
    {digits : List Nat} {s : Base32State Char} (h : Encodes bytes digits s)
    (hbits : s.bits < 5) :
    ∃ digits', Encodes (bytes ++ input) digits'
        (input.foldl Base32State.takeByte s)
      ∧ (input.foldl Base32State.takeByte s).bits < 5 := by
  induction input generalizing bytes digits s with
  | nil =>
      rw [List.append_nil]
      exact ⟨digits, h, hbits⟩
  | cons b input ih =>
      obtain ⟨digits', h', hbits'⟩ := encodes_takeByte h hbits b
      rw [List.append_cons]
      exact ih h' hbits'

/-- The encoding is the padded digits of the bytes. -/
theorem base32Encode_digits (input : List UInt8) :
    ∃ digits rest bits, Regroup 8 5 (input.map UInt8.toNat) digits rest bits
      ∧ bits < 5 ∧ base32Encode input
        = String.ofList ((Regroup.padded 5 digits rest bits).map digitChar) := by
  have hstart : Encodes [] [] .start := ⟨rfl, .nil⟩
  obtain ⟨digits, h, hbits⟩ := encodes_foldl input hstart (by decide)
  refine ⟨digits, _, _, h.regroup, hbits, ?_⟩
  unfold base32Encode Regroup.padded
  generalize input.foldl Base32State.takeByte .start = s at h hbits ⊢
  split
  case isTrue hzero =>
    show (if s.bits > 0 then _ else String.ofList s.out) = _
    rw [if_neg (by omega), h.out]
  case isFalse hpos =>
    have hpad : (s.buffer <<< UInt32.ofNat (5 - s.bits)).toNat % 2 ^ 5
        = s.buffer.toNat % 2 ^ s.bits * 2 ^ (5 - s.bits) := by
      have hshift := toNat_shift_or (k := 5 - s.bits) (by omega) s.buffer
        (d := 0) (Nat.two_pow_pos _)
      have hmod := shift_mod s.buffer.toNat s.bits (d := 0)
        (k := 5 - s.bits) (Nat.two_pow_pos _) (by omega)
      rw [UInt32.or_zero] at hshift
      rw [Nat.add_sub_cancel' hbits.le] at hmod
      rw [hshift]
      exact hmod
    show (if s.bits > 0 then String.ofList (s.out ++ [digitChar _]) else _)
      = _
    rw [if_pos (Nat.pos_of_ne_zero hpos), h.out, List.map_append,
      List.map_singleton, toNat_and_low, hpad]

-- ================================================================ decoding

theorem findIdx_digitChar {d : Nat} (hd : d < 2 ^ 5) :
    base32Alphabet.findIdx? (· = digitChar d) = some d := by
  have h : ∀ d : Fin 32,
      base32Alphabet.findIdx? (· = digitChar d) = some d.val := by decide
  exact h ⟨d, hd⟩

/-- The bytes given out are of the digits taken. -/
structure Decodes (digits : List Nat) (s : Base32State UInt8) : Prop where
  regroup : Regroup 5 8 digits (s.out.map UInt8.toNat)
    (s.buffer.toNat % 2 ^ s.bits) s.bits
  bits_lt : s.bits < 8

theorem decodes_takeChar {digits : List Nat} {s : Base32State UInt8}
    (h : Decodes digits s) {d : Nat} (hd : d < 2 ^ 5) :
    ∃ s', s.takeChar (digitChar d) = some s' ∧ Decodes (digits ++ [d]) s' := by
  have hbits := h.bits_lt
  have hdigit : (UInt32.ofNat d).toNat = d := toNat_ofNat hd
  have htaken := h.regroup.take hd
  have hbuffer := toNat_shift_or (k := 5) (by decide) s.buffer
    (hdigit.trans_lt hd)
  rw [hdigit] at hbuffer
  rw [← shift_mod _ _ hd (by omega), ← hbuffer] at htaken
  unfold Base32State.takeChar
  rw [findIdx_digitChar hd]
  show ∃ s', (if s.bits + 5 ≥ 8 then _ else _) = some s' ∧ _
  split
  case isTrue hlow =>
    refine ⟨_, rfl, ?_, show s.bits + 5 - 8 < 8 by omega⟩
    have hgive := htaken.give hlow
    rw [mod_div_high hlow, mod_mod_low] at hgive
    show Regroup 5 8 _ ((s.out ++ [_]).map UInt8.toNat)
      (((_ : UInt32) &&& _).toNat % 2 ^ (s.bits + 5 - 8)) _
    rw [List.map_append, List.map_singleton, UInt32.toNat_toUInt8,
      toNat_shiftRight (by omega), toNat_and_mask (by omega), Nat.mod_mod]
    exact hgive
  case isFalse hlow =>
    exact ⟨_, rfl, htaken, Nat.lt_of_not_le hlow⟩

theorem decodes_foldlM {taken digits : List Nat} {s : Base32State UInt8}
    (h : Decodes taken s) (hdigits : ∀ d ∈ digits, d < 2 ^ 5) :
    ∃ s', (digits.map digitChar).foldlM Base32State.takeChar s = some s'
      ∧ Decodes (taken ++ digits) s' := by
  induction digits generalizing taken s with
  | nil =>
      rw [List.append_nil]
      exact ⟨s, rfl, h⟩
  | cons d digits ih =>
      obtain ⟨s', htake, h'⟩ :=
        decodes_takeChar h (hdigits d List.mem_cons_self)
      obtain ⟨s'', hfold, h''⟩ :=
        ih h' fun d hd => hdigits d (List.mem_cons_of_mem _ hd)
      refine ⟨s'', ?_, ?_⟩
      · rw [List.map_cons, List.foldlM_cons, htake]
        exact hfold
      · rwa [List.append_cons]

/-- Base32 there and back. -/
theorem base32Decode_encode (input : List UInt8) :
    base32Decode (base32Encode input) = some input := by
  obtain ⟨digits, rest, bits, h, hbits, hencode⟩ := base32Encode_digits input
  have hstart : Decodes [] .start := ⟨.nil, by decide⟩
  obtain ⟨s, hfold, hs⟩ := decodes_foldlM hstart (h.padded_lt hbits)
  have hout := h.back (by decide) hbits hs.regroup hs.bits_lt
  unfold base32Decode
  rw [hencode, String.toList_ofList, hfold]
  exact congrArg some (List.map_injective_iff.mpr
    (fun a b hab => UInt8.toNat.inj hab) hout)

example : base32Encode "foobar".toUTF8.data.toList = "mzxw6ytboi" := by decide

end Sidevers.Proofs
