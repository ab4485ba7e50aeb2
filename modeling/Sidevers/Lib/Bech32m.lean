/-
Bech32m, as BIP-350 has it on top of BIP-173: a prefix that people can read,
the separator `1`, and groups of five bits as characters, of which the last
six are a checksum.

A string is `encode` of what it says, or that in upper case. What was encoded
is decoded (`decode_encode`), and a string in lower case that is decoded is
the only one (`encode_of_decode`): the padding is zero bits and less than a
group, and the checksum is determined by what comes before it. The checksum is
linear as long as nothing is fed back, so six groups at the end are added to
what six zeros leave (`foldl_polymodStep`).
-/
import Mathlib.Data.List.Induction
import Mathlib.Data.Option.Basic
import Sidevers.Lib.Regroup

namespace Sidevers.Lib.Bech32m

-- ============================================================== characters

/-- The characters of the 32 groups. -/
def charset : List Char := "qpzry9x8gf2tvdw0s3jn54khce6mua7l".toList

/-- The character of a group. -/
def groupChar (g : Nat) : Char := charset.getD g 'q'

/-- The group of a character. -/
def charGroup (c : Char) : Option Nat := charset.findIdx? (· = c)

/-- The groups of a data part. -/
def charGroups : List Char → Option (List Nat)
  | [] => some []
  | c :: rest => do
      let g ← charGroup c
      let groups ← charGroups rest
      return g :: groups

-- ============================================================ the checksum

/-- What the five bits that are shifted out feed back. -/
def feedback (chk : BitVec 30) : BitVec 30 :=
  (if chk.getLsbD 25 then 0x3b6a57b2 else 0)
    ^^^ (if chk.getLsbD 26 then 0x26508e6d else 0)
    ^^^ (if chk.getLsbD 27 then 0x1ea119fa else 0)
    ^^^ (if chk.getLsbD 28 then 0x3d4233dd else 0)
    ^^^ (if chk.getLsbD 29 then 0x2a1462b3 else 0)

/-- A group goes into the checksum. -/
def polymodStep (chk : BitVec 30) (v : Nat) : BitVec 30 :=
  chk <<< 5 ^^^ BitVec.ofNat 30 v ^^^ feedback chk

/-- `bech32_polymod`. -/
def polymod (values : List Nat) : BitVec 30 := values.foldl polymodStep 1

/-- `BECH32M_CONST`. -/
def bech32mConst : BitVec 30 := 0x2bc830a3

/-- `bech32_hrp_expand`. -/
def hrpExpand (hrp : List Char) : List Nat :=
  hrp.map (fun c => c.toNat / 32) ++ [0] ++ hrp.map fun c => c.toNat % 32

/-- `bech32_create_checksum`. -/
def createChecksum (hrp : List Char) (data : List Nat) : List Nat :=
  digitsOf 5 6
    (polymod (hrpExpand hrp ++ data ++ List.replicate 6 0)
      ^^^ bech32mConst).toNat

/-- `bech32_verify_checksum`. -/
def verifyChecksum (hrp : List Char) (data : List Nat) : Bool :=
  polymod (hrpExpand hrp ++ data) = bech32mConst

-- ================================================================ the bytes

/-- The bits of the bytes in groups of five, the last one filled up with
zeros. -/
def toGroups (bytes : List UInt8) : List Nat :=
  let n := (8 * bytes.length + 4) / 5
  digitsOf 5 n (digitsValue 8 (bytes.map UInt8.toNat)
    * 2 ^ (5 * n - 8 * bytes.length))

/-- The bytes in the groups, if what is left over is less than a group and
zero. -/
def toBytes (groups : List Nat) : Option (List UInt8) :=
  let n := 5 * groups.length / 8
  let pad := 5 * groups.length - 8 * n
  let value := digitsValue 5 groups
  if pad < 5 ∧ value % 2 ^ pad = 0 then
    some ((digitsOf 8 n (value / 2 ^ pad)).map UInt8.ofNat)
  else none

-- ============================================================== the strings

/-- The text of bytes under a prefix. -/
def encode (hrp : List Char) (bytes : List UInt8) : List Char :=
  let data := toGroups bytes
  hrp ++ '1' :: (data ++ createChecksum hrp data).map groupChar

/-- What stands before the last separator, and what after it. -/
def splitLast (text : List Char) : Option (List Char × List Char) :=
  match text.reverse.dropWhile (· ≠ '1') with
  | [] => none
  | _ :: hrp => some (hrp.reverse, (text.reverse.takeWhile (· ≠ '1')).reverse)

/-- Are letters of both cases in it? -/
def mixedCase (text : List Char) : Bool :=
  text.any Char.isUpper && text.any Char.isLower

/-- The prefix and the bytes of a text in lower case. -/
def decodeLower (text : List Char) : Option (List Char × List UInt8) := do
  let (hrp, dataPart) ← splitLast text
  guard (hrp ≠ [] ∧ 6 ≤ dataPart.length)
  let groups ← charGroups dataPart
  guard (verifyChecksum hrp groups = true)
  let bytes ← toBytes (groups.take (groups.length - 6))
  return (hrp, bytes)

/-- The prefix and the bytes of a text: at most 90 characters that can be
printed, not in mixed case. -/
def decode (text : List Char) : Option (List Char × List UInt8) :=
  if text.length ≤ 90
      ∧ text.all (fun c => 33 ≤ c.toNat && c.toNat ≤ 126) = true
      ∧ mixedCase text = false then
    decodeLower (text.map Char.toLower)
  else none

-- ==================================================== characters and back

theorem charGroup_groupChar :
    ∀ g < 2 ^ 5, charGroup (groupChar g) = some g := by
  decide

theorem groupChar_charGroup {c : Char} {g : Nat} (h : charGroup c = some g) :
    g < 2 ^ 5 ∧ groupChar g = c := by
  obtain ⟨hlt, hc, -⟩ := List.findIdx?_eq_some_iff_getElem.mp h
  refine ⟨hlt, ?_⟩
  rw [groupChar, List.getD_eq_getElem?_getD, List.getElem?_eq_getElem hlt]
  exact of_decide_eq_true hc

theorem charGroups_map {groups : List Nat} (h : ∀ g ∈ groups, g < 2 ^ 5) :
    charGroups (groups.map groupChar) = some groups := by
  induction groups with
  | nil => rfl
  | cons g rest ih =>
      rw [List.map_cons, charGroups,
        charGroup_groupChar g (h g List.mem_cons_self),
        ih fun g' hg' => h g' (List.mem_cons_of_mem _ hg')]
      rfl

theorem charGroups_some {text : List Char} {groups : List Nat}
    (h : charGroups text = some groups) :
    (∀ g ∈ groups, g < 2 ^ 5) ∧ groups.map groupChar = text := by
  induction text generalizing groups with
  | nil =>
      obtain rfl := Option.some.inj h
      exact ⟨nofun, rfl⟩
  | cons c rest ih =>
      obtain ⟨g, hg, h⟩ := Option.bind_eq_some_iff.mp h
      obtain ⟨groups', hrest, h⟩ := Option.bind_eq_some_iff.mp h
      obtain rfl := Option.some.inj h
      obtain ⟨hlt, hc⟩ := groupChar_charGroup hg
      obtain ⟨hall, hmap⟩ := ih hrest
      exact ⟨List.forall_mem_cons.mpr ⟨hlt, hall⟩, by
        rw [List.map_cons, hc, hmap]⟩

-- ===================================================== what it is linear in

/-- Digits that do not overlap. -/
theorem mul_add_eq_xor {w v : Nat} (x : Nat) (h : v < 2 ^ w) :
    2 ^ w * x + v = 2 ^ w * x ^^^ v := by
  refine Nat.eq_of_testBit_eq fun i => ?_
  rw [Nat.testBit_two_pow_mul_add x h, Nat.testBit_xor,
    Nat.testBit_two_pow_mul]
  by_cases hi : i < w
  · rw [if_pos hi, decide_eq_false (Nat.not_le_of_lt hi), Bool.false_and,
      Bool.false_xor]
  · have hv : v.testBit i = false := Nat.testBit_lt_two_pow
      (h.trans_le (Nat.pow_le_pow_right (by omega) (Nat.le_of_not_lt hi)))
    rw [if_neg hi, decide_eq_true (Nat.le_of_not_lt hi), Bool.true_and, hv,
      Bool.xor_false]

theorem ofNat_shift_xor {d v : Nat} (h : v < 2 ^ 5) :
    BitVec.ofNat 30 d <<< 5 ^^^ BitVec.ofNat 30 v
      = BitVec.ofNat 30 (d * 2 ^ 5 + v) := by
  have hshift : BitVec.ofNat 30 d <<< 5 = BitVec.ofNat 30 (2 ^ 5 * d) := by
    refine BitVec.eq_of_toNat_eq ?_
    rw [BitVec.toNat_shiftLeft, BitVec.toNat_ofNat, BitVec.toNat_ofNat,
      Nat.shiftLeft_eq]
    omega
  rw [hshift, ← BitVec.ofNat_xor, ← mul_add_eq_xor d h, Nat.mul_comm d]

/-- What has not reached the highest five bits is not fed back. -/
theorem feedback_xor {d : Nat} (h : d < 2 ^ 25) (chk : BitVec 30) :
    feedback (chk ^^^ BitVec.ofNat 30 d) = feedback chk := by
  have hlow (i : Nat) (hi : 25 ≤ i) : (BitVec.ofNat 30 d).getLsbD i = false := by
    rw [BitVec.getLsbD_ofNat, Nat.testBit_lt_two_pow
      (h.trans_le (Nat.pow_le_pow_right (by omega) hi)), Bool.and_false]
  simp only [feedback, BitVec.getLsbD_xor, hlow 25 (by omega),
    hlow 26 (by omega), hlow 27 (by omega), hlow 28 (by omega),
    hlow 29 (by omega), Bool.xor_false]

/-- A group goes in behind what was added. -/
theorem polymodStep_xor {d v : Nat} (hd : d < 2 ^ 25) (hv : v < 2 ^ 5)
    (chk : BitVec 30) :
    polymodStep (chk ^^^ BitVec.ofNat 30 d) v
      = polymodStep chk 0 ^^^ BitVec.ofNat 30 (d * 2 ^ 5 + v) := by
  rw [polymodStep, polymodStep, feedback_xor hd, BitVec.shiftLeft_xor_distrib,
    ← ofNat_shift_xor hv]
  show _ = chk <<< 5 ^^^ 0#30 ^^^ feedback chk ^^^ _
  rw [BitVec.xor_zero]
  ac_rfl

/-- Up to six groups at the end are added to what zeros in their place
leave. -/
theorem foldl_polymodStep (chk : BitVec 30) {check : List Nat}
    (hlen : check.length ≤ 6) (h : ∀ g ∈ check, g < 2 ^ 5) :
    check.foldl polymodStep chk
      = (List.replicate check.length 0).foldl polymodStep chk
        ^^^ BitVec.ofNat 30 (digitsValue 5 check) := by
  induction check using List.reverseRecOn with
  | nil => exact (BitVec.xor_zero).symm
  | append_singleton check v ih =>
      rw [List.length_append, List.length_singleton] at hlen
      have hv : v < 2 ^ 5 := h v (List.mem_append_right _ List.mem_cons_self)
      have hcheck : ∀ g ∈ check, g < 2 ^ 5 :=
        fun g hg => h g (List.mem_append_left _ hg)
      have hlow : digitsValue 5 check < 2 ^ 25 :=
        (digitsValue_lt hcheck).trans_le
          (Nat.pow_le_pow_right (by omega) (by omega))
      rw [List.foldl_append, ih (by omega) hcheck, List.length_append,
        List.length_singleton, List.replicate_succ', List.foldl_append,
        digitsValue_concat]
      exact polymodStep_xor hlow hv _

/-- The checksum is determined by what comes before it. -/
theorem verifyChecksum_iff (hrp : List Char) (data : List Nat)
    {check : List Nat} (hlen : check.length = 6)
    (h : ∀ g ∈ check, g < 2 ^ 5) :
    verifyChecksum hrp (data ++ check) = true
      ↔ check = createChecksum hrp data := by
  have hvalue : digitsValue 5 check < 2 ^ 30 := by
    have hlt := digitsValue_lt h
    rwa [hlen] at hlt
  have hzeros : polymod (hrpExpand hrp ++ data ++ List.replicate 6 0)
      = (List.replicate 6 0).foldl polymodStep
        (polymod (hrpExpand hrp ++ data)) := List.foldl_append
  have hcheck : polymod (hrpExpand hrp ++ (data ++ check))
      = check.foldl polymodStep (polymod (hrpExpand hrp ++ data)) := by
    rw [← List.append_assoc]
    exact List.foldl_append
  rw [verifyChecksum, decide_eq_true_iff, createChecksum, hzeros, hcheck,
    foldl_polymodStep _ (Nat.le_of_eq hlen) h, hlen]
  generalize List.foldl polymodStep _ (List.replicate 6 0) = chk
  constructor
  · intro heq
    rw [← heq, ← BitVec.xor_assoc, BitVec.xor_self, BitVec.zero_xor,
      BitVec.toNat_ofNat, Nat.mod_eq_of_lt hvalue]
    have hdigits := digitsOf_digitsValue h
    rw [hlen] at hdigits
    exact hdigits.symm
  · intro heq
    have hdigits := congrArg (digitsValue 5) heq
    rw [digitsValue_digitsOf (BitVec.isLt _)] at hdigits
    rw [hdigits, BitVec.ofNat_toNat, BitVec.setWidth_eq, ← BitVec.xor_assoc,
      BitVec.xor_self, BitVec.zero_xor]

theorem createChecksum_lt (hrp : List Char) (data : List Nat) :
    ∀ g ∈ createChecksum hrp data, g < 2 ^ 5 := digitsOf_lt 5 6 _

@[simp] theorem length_createChecksum (hrp : List Char) (data : List Nat) :
    (createChecksum hrp data).length = 6 := length_digitsOf 5 6 _

-- ========================================================= bytes and back

theorem bytes_lt (bytes : List UInt8) :
    ∀ d ∈ bytes.map UInt8.toNat, d < 2 ^ 8 := by
  intro d hd
  obtain ⟨b, -, rfl⟩ := List.mem_map.mp hd
  exact b.toNat_lt

theorem ofNat_toNat_map (bytes : List UInt8) :
    (bytes.map UInt8.toNat).map UInt8.ofNat = bytes := by
  rw [List.map_map]
  exact (List.map_congr_left fun b _ => UInt8.ofNat_toNat).trans
    (List.map_id _)

theorem toNat_ofNat_map {ds : List Nat} (h : ∀ d ∈ ds, d < 2 ^ 8) :
    (ds.map UInt8.ofNat).map UInt8.toNat = ds := by
  rw [List.map_map]
  exact (List.map_congr_left fun d hd => UInt8.toNat_ofNat_of_lt' (h d hd)).trans
    (List.map_id _)

theorem toGroups_lt (bytes : List UInt8) :
    ∀ g ∈ toGroups bytes, g < 2 ^ 5 := digitsOf_lt 5 _ _

@[simp] theorem length_toGroups (bytes : List UInt8) :
    (toGroups bytes).length = (8 * bytes.length + 4) / 5 :=
  length_digitsOf 5 _ _

theorem toBytes_toGroups (bytes : List UInt8) :
    toBytes (toGroups bytes) = some bytes := by
  have hvalue := digitsValue_lt (bytes_lt bytes)
  rw [List.length_map] at hvalue
  have hlen : 5 * ((8 * bytes.length + 4) / 5) / 8 = bytes.length := by omega
  have hpad : 5 * ((8 * bytes.length + 4) / 5) - 8 * bytes.length < 5 := by
    omega
  have hfits : digitsValue 8 (bytes.map UInt8.toNat)
        * 2 ^ (5 * ((8 * bytes.length + 4) / 5) - 8 * bytes.length)
      < 2 ^ (5 * ((8 * bytes.length + 4) / 5)) := by
    have hsplit : 5 * ((8 * bytes.length + 4) / 5) = 8 * bytes.length
        + (5 * ((8 * bytes.length + 4) / 5) - 8 * bytes.length) := by omega
    conv_rhs => rw [hsplit, Nat.pow_add]
    exact Nat.mul_lt_mul_of_pos_right hvalue (Nat.two_pow_pos _)
  have hgroups : digitsValue 5 (toGroups bytes)
      = digitsValue 8 (bytes.map UInt8.toNat)
        * 2 ^ (5 * ((8 * bytes.length + 4) / 5) - 8 * bytes.length) :=
    digitsValue_digitsOf hfits
  have hdigits := digitsOf_digitsValue (bytes_lt bytes)
  rw [List.length_map] at hdigits
  simp only [toBytes, length_toGroups, hlen, hgroups]
  rw [if_pos ⟨hpad, Nat.mul_mod_left _ _⟩,
    Nat.mul_div_cancel _ (Nat.two_pow_pos _), hdigits, ofNat_toNat_map]

theorem toGroups_of_toBytes {groups : List Nat} {bytes : List UInt8}
    (hgroups : ∀ g ∈ groups, g < 2 ^ 5) (h : toBytes groups = some bytes) :
    toGroups bytes = groups := by
  simp only [toBytes, Option.ite_none_right_eq_some, Option.some.injEq] at h
  obtain ⟨⟨hpad, hzero⟩, rfl⟩ := h
  have hvalue := digitsValue_lt hgroups
  generalize hn : 5 * groups.length / 8 = n at *
  generalize hp : 5 * groups.length - 8 * n = pad at *
  have hlen : (8 * n + 4) / 5 = groups.length := by omega
  have hbits : 5 * groups.length = pad + 8 * n := by omega
  have hhigh : digitsValue 5 groups / 2 ^ pad < 2 ^ (8 * n) := by
    refine Nat.div_lt_of_lt_mul ?_
    rwa [← Nat.pow_add, ← hbits]
  have hback := Nat.div_mul_cancel (Nat.dvd_of_mod_eq_zero hzero)
  simp only [toGroups, List.length_map, length_digitsOf, hlen, hp,
    toNat_ofNat_map (digitsOf_lt 8 n _), digitsValue_digitsOf hhigh, hback]
  exact digitsOf_digitsValue hgroups

-- ========================================================== the separator

theorem splitLast_eq_some {text hrp dataPart : List Char}
    (h : splitLast text = some (hrp, dataPart)) :
    text = hrp ++ '1' :: dataPart := by
  unfold splitLast at h
  split at h
  case h_1 => cases h
  case h_2 c hrp' hdrop =>
    obtain ⟨rfl, rfl⟩ := Prod.mk.inj (Option.some.inj h)
    have hc : c = '1' := by
      have hhead := List.head?_dropWhile_not (· ≠ '1') text.reverse
      rw [hdrop] at hhead
      simpa using hhead
    have hall := List.takeWhile_append_dropWhile (p := (· ≠ '1'))
      (l := text.reverse)
    rw [hdrop, hc] at hall
    have hreverse := congrArg List.reverse hall
    rw [List.reverse_append, List.reverse_cons, List.reverse_reverse,
      List.append_assoc] at hreverse
    exact hreverse.symm

theorem splitLast_append (hrp : List Char) {dataPart : List Char}
    (h : ∀ c ∈ dataPart, c ≠ '1') :
    splitLast (hrp ++ '1' :: dataPart) = some (hrp, dataPart) := by
  have hreverse : (hrp ++ '1' :: dataPart).reverse
      = dataPart.reverse ++ '1' :: hrp.reverse := by
    rw [List.reverse_append, List.reverse_cons, List.append_assoc]
    rfl
  have hdata : ∀ c ∈ dataPart.reverse, decide (c ≠ '1') = true :=
    fun c hc => decide_eq_true (h c (List.mem_reverse.mp hc))
  simp only [splitLast, hreverse, List.dropWhile_append_of_pos hdata,
    List.takeWhile_append_of_pos hdata]
  simp

-- ==================================================== letters in two cases

theorem isUpper_iff {c : Char} :
    c.isUpper = true ↔ 65 ≤ c.toNat ∧ c.toNat ≤ 90 := by
  change decide ('A'.val ≤ c.val ∧ c.val ≤ 'Z'.val) = true ↔ _
  rw [decide_eq_true_iff, UInt32.le_iff_toNat_le, UInt32.le_iff_toNat_le]
  rfl

theorem isLower_iff {c : Char} :
    c.isLower = true ↔ 97 ≤ c.toNat ∧ c.toNat ≤ 122 := by
  change (decide ('a'.val ≤ c.val) && decide (c.val ≤ 'z'.val)) = true ↔ _
  rw [Bool.and_eq_true, decide_eq_true_iff, decide_eq_true_iff,
    UInt32.le_iff_toNat_le, UInt32.le_iff_toNat_le]
  rfl

theorem toLower_of_isUpper {c : Char} (h : c.isUpper = true) :
    c.toLower.toNat = c.toNat + 32 := by
  obtain ⟨hle, hge⟩ := isUpper_iff.mp h
  unfold Char.toLower
  rw [dif_pos (of_decide_eq_true h)]
  change (c.val + 32).toNat = c.val.toNat + 32
  change 65 ≤ c.val.toNat at hle
  change c.val.toNat ≤ 90 at hge
  rw [UInt32.toNat_add]
  have h32 : (32 : UInt32).toNat = 32 := rfl
  omega

theorem toUpper_of_isLower {c : Char} (h : c.isLower = true) :
    c.toUpper.toNat + 32 = c.toNat := by
  obtain ⟨hle, hge⟩ := isLower_iff.mp h
  obtain ⟨hlow, hhigh⟩ := Bool.and_eq_true_iff.mp h
  unfold Char.toUpper
  rw [dif_pos ⟨of_decide_eq_true hlow, of_decide_eq_true hhigh⟩]
  change (c.val + ('A'.val - 'a'.val)).toNat + 32 = c.val.toNat
  change 97 ≤ c.val.toNat at hle
  change c.val.toNat ≤ 122 at hge
  rw [UInt32.toNat_add]
  have h32 : ('A'.val - 'a'.val).toNat = 2 ^ 32 - 32 := rfl
  omega

theorem toUpper_of_not_isLower {c : Char} (h : c.isLower = false) :
    c.toUpper = c := by
  refine dif_neg fun hc => Bool.eq_false_iff.mp h ?_
  exact Bool.and_eq_true_iff.mpr
    ⟨decide_eq_true hc.1, decide_eq_true hc.2⟩

theorem toLower_of_not_isUpper {c : Char} (h : c.isUpper = false) :
    c.toLower = c := dif_neg (of_decide_eq_false h)

theorem isUpper_toLower (c : Char) : c.toLower.isUpper = false := by
  cases h : c.isUpper with
  | false => rw [toLower_of_not_isUpper h, h]
  | true =>
      have hnat := toLower_of_isUpper h
      refine Bool.eq_false_iff.mpr fun hlower => ?_
      have hle := (isUpper_iff.mp h).1
      have hge := (isUpper_iff.mp hlower).2
      omega

theorem toUpper_toLower {c : Char} (h : c.isLower = false) :
    c.toLower.toUpper = c := by
  cases hupper : c.isUpper with
  | false => rw [toLower_of_not_isUpper hupper, toUpper_of_not_isLower h]
  | true =>
      have hnat := toLower_of_isUpper hupper
      obtain ⟨hle, hge⟩ := isUpper_iff.mp hupper
      have hback := toUpper_of_isLower
        (isLower_iff.mpr ⟨by omega, by omega⟩ : c.toLower.isLower = true)
      exact Char.toNat_inj.mp (by omega)

theorem toLower_toUpper {c : Char} (h : c.isUpper = false) :
    c.toUpper.toLower = c ∧ c.toUpper.isLower = false := by
  cases hlower : c.isLower with
  | false =>
      rw [toUpper_of_not_isLower hlower]
      exact ⟨toLower_of_not_isUpper h, hlower⟩
  | true =>
      have hnat := toUpper_of_isLower hlower
      obtain ⟨hle, hge⟩ := isLower_iff.mp hlower
      have hupper : c.toUpper.isUpper = true :=
        isUpper_iff.mpr ⟨by omega, by omega⟩
      have hback := toLower_of_isUpper hupper
      refine ⟨Char.toNat_inj.mp (by omega), Bool.eq_false_iff.mpr fun h' => ?_⟩
      have hle' := (isLower_iff.mp h').1
      omega

theorem map_toLower {text : List Char} (h : ∀ c ∈ text, c.isUpper = false) :
    text.map Char.toLower = text :=
  (List.map_congr_left fun c hc => toLower_of_not_isUpper (h c hc)).trans
    (List.map_id _)

theorem mixedCase_of_lower {text : List Char}
    (h : ∀ c ∈ text, c.isUpper = false) : mixedCase text = false := by
  have hany : text.any Char.isUpper = false :=
    List.any_eq_false.mpr fun c hc => by rw [h c hc]; exact Bool.false_ne_true
  rw [mixedCase, hany, Bool.false_and]

/-- A text that is not in mixed case is in lower case or in upper case. -/
theorem eq_of_not_mixedCase {text : List Char} (h : mixedCase text = false) :
    text = text.map Char.toLower
      ∨ text = (text.map Char.toLower).map Char.toUpper := by
  rcases Bool.and_eq_false_iff.mp h with h | h
  · exact .inl (map_toLower fun c hc =>
      Bool.eq_false_iff.mpr (List.any_eq_false.mp h c hc)).symm
  · refine .inr ?_
    rw [List.map_map]
    exact ((List.map_congr_left fun c hc => toUpper_toLower
      (Bool.eq_false_iff.mpr (List.any_eq_false.mp h c hc))).trans
        (List.map_id _)).symm

/-- The upper case of a text in lower case is not mixed and has it as its
lower case. -/
theorem map_toUpper {text : List Char} (h : ∀ c ∈ text, c.isUpper = false) :
    mixedCase (text.map Char.toUpper) = false
      ∧ (text.map Char.toUpper).map Char.toLower = text := by
  constructor
  · refine Bool.and_eq_false_iff.mpr (.inr (List.any_eq_false.mpr ?_))
    intro c hc
    obtain ⟨d, hd, rfl⟩ := List.mem_map.mp hc
    exact Bool.eq_false_iff.mp (toLower_toUpper (h d hd)).2
  · rw [List.map_map]
    exact (List.map_congr_left fun c hc => (toLower_toUpper (h c hc)).1).trans
      (List.map_id _)

-- ========================================================= text and back

/-- A prefix in lower case. -/
structure ValidHrp (hrp : List Char) : Prop where
  ne_nil : hrp ≠ []
  printable : ∀ c ∈ hrp, 33 ≤ c.toNat ∧ c.toNat ≤ 126
  lower : ∀ c ∈ hrp, c.isUpper = false

theorem groupChar_printable : ∀ g < 2 ^ 5,
    33 ≤ (groupChar g).toNat ∧ (groupChar g).toNat ≤ 126 := by
  decide

theorem groupChar_lower : ∀ g < 2 ^ 5, (groupChar g).isUpper = false := by
  decide

theorem groupChar_ne_one : ∀ g < 2 ^ 5, groupChar g ≠ '1' := by
  decide

/-- The groups of a text: its data and its checksum. -/
theorem groups_lt (hrp : List Char) (bytes : List UInt8) :
    ∀ g ∈ toGroups bytes ++ createChecksum hrp (toGroups bytes),
      g < 2 ^ 5 := by
  intro g hg
  rcases List.mem_append.mp hg with hg | hg
  · exact toGroups_lt bytes g hg
  · exact createChecksum_lt hrp _ g hg

/-- A text is its prefix, the separator and characters of groups. -/
theorem encode_forall {P : Char → Prop} {hrp : List Char}
    (bytes : List UInt8) (hhrp : ∀ c ∈ hrp, P c) (hone : P '1')
    (hgroup : ∀ g < 2 ^ 5, P (groupChar g)) :
    ∀ c ∈ encode hrp bytes, P c := by
  intro c hc
  rcases List.mem_append.mp hc with hc | hc
  · exact hhrp c hc
  · rcases List.mem_cons.mp hc with rfl | hc
    · exact hone
    · obtain ⟨g, hg, rfl⟩ := List.mem_map.mp hc
      exact hgroup g (groups_lt hrp bytes g hg)

theorem length_encode (hrp : List Char) (bytes : List UInt8) :
    (encode hrp bytes).length
      = hrp.length + 1 + (8 * bytes.length + 4) / 5 + 6 := by
  simp only [encode, List.length_append, List.length_cons, List.length_map,
    length_toGroups, length_createChecksum]
  omega

/-- What was encoded is decoded. -/
theorem decode_encode {hrp : List Char} {bytes : List UInt8}
    (hhrp : ValidHrp hrp) (hlen : (encode hrp bytes).length ≤ 90) :
    decode (encode hrp bytes) = some (hrp, bytes) := by
  have hlower : ∀ c ∈ encode hrp bytes, c.isUpper = false :=
    encode_forall bytes hhrp.lower (by decide) groupChar_lower
  have hprintable : (encode hrp bytes).all
      (fun c => 33 ≤ c.toNat && c.toNat ≤ 126) = true := by
    refine List.all_eq_true.mpr fun c hc => ?_
    obtain ⟨hle, hge⟩ :=
      encode_forall bytes hhrp.printable (by decide) groupChar_printable c hc
    exact Bool.and_eq_true_iff.mpr
      ⟨decide_eq_true hle, decide_eq_true hge⟩
  have hone : ∀ c ∈ (toGroups bytes
      ++ createChecksum hrp (toGroups bytes)).map groupChar, c ≠ '1' := by
    intro c hc
    obtain ⟨g, hg, rfl⟩ := List.mem_map.mp hc
    exact groupChar_ne_one g (groups_lt hrp bytes g hg)
  have hverify : verifyChecksum hrp
      (toGroups bytes ++ createChecksum hrp (toGroups bytes)) = true :=
    (verifyChecksum_iff hrp _ (length_createChecksum hrp _)
      (createChecksum_lt hrp _)).mpr rfl
  have htake : (toGroups bytes ++ createChecksum hrp (toGroups bytes)).take
      ((toGroups bytes ++ createChecksum hrp (toGroups bytes)).length - 6)
      = toGroups bytes := by
    rw [List.length_append, length_createChecksum, Nat.add_sub_cancel]
    exact List.take_left' rfl
  have hlong : hrp ≠ [] ∧ 6 ≤ ((toGroups bytes
      ++ createChecksum hrp (toGroups bytes)).map groupChar).length := by
    rw [List.length_map, List.length_append, length_createChecksum]
    exact ⟨hhrp.ne_nil, Nat.le_add_left 6 _⟩
  rw [decode, if_pos ⟨hlen, hprintable, mixedCase_of_lower hlower⟩,
    map_toLower hlower, decodeLower, encode, splitLast_append hrp hone]
  simp only [Option.bind_eq_bind, Option.bind_some, guard, if_pos hlong,
    charGroups_map (groups_lt hrp bytes), if_pos hverify, htake,
    toBytes_toGroups]
  rfl

-- the shortest valid string of BIP-350
example : encode ['a'] [] = "a1lqfn3a".toList := by decide +kernel

/-- A text in lower case is what its bytes are encoded to. -/
theorem encode_of_decode {text hrp : List Char} {bytes : List UInt8}
    (hlower : text.map Char.toLower = text)
    (h : decode text = some (hrp, bytes)) : encode hrp bytes = text := by
  rw [decode, Option.ite_none_right_eq_some, hlower, decodeLower] at h
  obtain ⟨-, h⟩ := h
  obtain ⟨⟨hrp', dataPart⟩, hsplit, h⟩ := Option.bind_eq_some_iff.mp h
  obtain ⟨_, hlong, h⟩ := Option.bind_eq_some_iff.mp h
  obtain ⟨groups, hgroups, h⟩ := Option.bind_eq_some_iff.mp h
  obtain ⟨_, hverify, h⟩ := Option.bind_eq_some_iff.mp h
  obtain ⟨bytes', hbytes, h⟩ := Option.bind_eq_some_iff.mp h
  obtain ⟨rfl, rfl⟩ := Prod.mk.inj (Option.some.inj h)
  obtain ⟨hlt, hmap⟩ := charGroups_some hgroups
  have hlen : 6 ≤ groups.length := by
    have hdata := ((Option.guard_eq_some' _).mp hlong).2
    rwa [← hmap, List.length_map] at hdata
  have hchecked := (Option.guard_eq_some' _).mp hverify
  -- the last six groups are the checksum of the others
  have hsix : (groups.drop (groups.length - 6)).length = 6 := by
    rw [List.length_drop]
    omega
  have hcheck := (verifyChecksum_iff hrp' (groups.take (groups.length - 6))
    hsix fun g hg => hlt g (List.mem_of_mem_drop hg)).mp
    (by rwa [List.take_append_drop])
  have hdata := toGroups_of_toBytes
    (fun g hg => hlt g (List.mem_of_mem_take hg)) hbytes
  rw [encode, hdata, ← hcheck, List.take_append_drop, hmap]
  exact (splitLast_eq_some hsplit).symm

end Sidevers.Lib.Bech32m
