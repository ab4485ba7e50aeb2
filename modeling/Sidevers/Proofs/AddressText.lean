/-
The spellings of an address (`WireAddress.parse`).

What `parse` accepts as the address `a` is, letter for letter in lower case,
the BIP-350 text of `a` (`parse_iff`): a text that decodes is encoded again
and compared. An address has that text and the text in upper case, both are
accepted, and no other ASCII text is.

The lower case is Unicode's, though, and the test for mixed case looks at
ASCII letters only. The KELVIN SIGN is the one character beyond ASCII whose
lower case is ASCII alone, the letter `k`; it is of neither case for the test.
An address with a `k` in its text is thus accepted with Kelvin signs in the
place of any of them, and `two_spellings_iff` says that nothing else is.
-/
import Sidevers.Core.Address
import Sidevers.Lib.Bech32m

namespace Sidevers.Proofs

open Sidevers.Core
open Sidevers.Lib

-- ====================================== the crate and the tables, as called

/-- The crate encodes as BIP-350 has it and decodes such a text. What it does
with other texts, those of BIP-173 among them, is not said. -/
structure ImplementsBip350 (crate : Bech32) : Prop where
  encode (hrp : String) (data : List UInt8) :
    Bech32m.ValidHrp hrp.toList →
      (Bech32m.encode hrp.toList data).length ≤ 90 →
      crate.encode hrp data = .ok (.ofList (Bech32m.encode hrp.toList data))
  decode (text hrp : List Char) (data : List UInt8) :
    text.map Char.toLower = text →
      Bech32m.decode text = some (hrp, data) →
      crate.decode (.ofList text) = .ok (.ofList hrp, data)

/-- KELVIN SIGN. -/
def kelvinSign : Char := Char.ofNat 0x212A

/-- Unicode's lower case, as far as ASCII comes out of it: the Kelvin sign is a
`k`, and whatever else is beyond ASCII does not become ASCII. -/
structure LowersAsUnicode (unicode : Unicode) : Prop where
  kelvin (before after : List Char) :
    unicode.toLower before kelvinSign after = ['k']
  other (before : List Char) (c : Char) (after : List Char) :
    128 ≤ c.toNat → c ≠ kelvinSign →
      ∃ d ∈ unicode.toLower before c after, 128 ≤ d.toNat

variable {crate : Bech32} {unicode : Unicode}

-- ============================================================ in lower case

/-- The ASCII letter that a character is read as. -/
def foldChar (c : Char) : Char := if c = kelvinSign then 'k' else c.toLower

theorem foldChar_of_ne {c : Char} (h : c ≠ kelvinSign) :
    foldChar c = c.toLower := if_neg h

theorem not_isUpper_of_le {c : Char} (h : 128 ≤ c.toNat) :
    c.isUpper = false := by
  refine Bool.eq_false_iff.mpr fun hupper => ?_
  have hle := (Bech32m.isUpper_iff.mp hupper).2
  omega

theorem isUpper_foldChar (c : Char) : (foldChar c).isUpper = false := by
  unfold foldChar
  split
  · decide
  · exact Bech32m.isUpper_toLower c

/-- A character is read as one character, or as a text that is not ASCII. -/
theorem lowerChar_cases (hunicode : LowersAsUnicode unicode)
    (before : List Char) (c : Char) (after : List Char) :
    unicode.lowerChar before c after = [foldChar c]
      ∨ 128 ≤ (foldChar c).toNat
        ∧ ∃ d ∈ unicode.lowerChar before c after, 128 ≤ d.toNat := by
  unfold Unicode.lowerChar
  split
  case isTrue hascii =>
    have hne : c ≠ kelvinSign := by
      rintro rfl
      exact absurd hascii (by decide)
    rw [foldChar_of_ne hne]
    exact .inl rfl
  case isFalse hascii =>
    by_cases hkelvin : c = kelvinSign
    · rw [hkelvin, hunicode.kelvin]
      exact .inl rfl
    · have hbeyond : 128 ≤ c.toNat := Nat.le_of_not_lt hascii
      rw [foldChar_of_ne hkelvin,
        Bech32m.toLower_of_not_isUpper (not_isUpper_of_le hbeyond)]
      exact .inr ⟨hbeyond, hunicode.other before c after hbeyond hkelvin⟩

/-- An ASCII text comes out in lower case if each of its characters does. -/
theorem lowerFrom_eq_iff (hunicode : LowersAsUnicode unicode)
    (before s : List Char) {t : List Char} (ht : ∀ c ∈ t, c.toNat < 128) :
    unicode.lowerFrom before s = t ↔ s.map foldChar = t := by
  induction s generalizing before t with
  | nil => rfl
  | cons c after ih =>
      rw [Unicode.lowerFrom, List.map_cons]
      rcases lowerChar_cases hunicode before c after with
        hc | ⟨hfold, d, hd, hbeyond⟩
      · rw [hc, List.singleton_append]
        cases t with
        | nil => exact ⟨nofun, nofun⟩
        | cons d t =>
            rw [List.cons_eq_cons, List.cons_eq_cons,
              ih _ fun d hd => ht d (List.mem_cons_of_mem _ hd)]
      · constructor
        · rintro rfl
          have hlt := ht d (List.mem_append_left _ hd)
          omega
        · rintro rfl
          have hlt := ht (foldChar c) List.mem_cons_self
          omega

-- ================================================================= the text

/-- The text of an address, as BIP-350 has it. -/
def addressText (a : WireAddress) : List Char :=
  Bech32m.encode a.kind.hrpStr.toList a.key.val

theorem mem_hrpStr (kind : AddressKind) {c : Char}
    (h : c ∈ kind.hrpStr.toList) : c = 's' ∨ c = 'v' := by
  cases kind with
  | side =>
      have h : c ∈ ['s', 'v'] := h
      simpa using h
  | verse =>
      have h : c ∈ ['s', 'v', 'v'] := h
      simpa using h

theorem validHrp (kind : AddressKind) :
    Bech32m.ValidHrp kind.hrpStr.toList where
  ne_nil := by
    cases kind with
    | side => decide
    | verse => decide
  printable c hc := by
    rcases mem_hrpStr kind hc with rfl | rfl
    · decide
    · decide
  lower c hc := by
    rcases mem_hrpStr kind hc with rfl | rfl
    · decide
    · decide

theorem length_hrpStr (kind : AddressKind) :
    kind.hrpStr.toList.length ≤ 3 := by
  cases kind with
  | side => decide
  | verse => decide

theorem length_addressText (a : WireAddress) :
    (addressText a).length ≤ 90 := by
  have hhrp := length_hrpStr a.kind
  have hkey : a.key.val.length = 32 := a.key.property
  rw [addressText, Bech32m.length_encode, hkey]
  omega

theorem isUpper_addressText (a : WireAddress) :
    ∀ c ∈ addressText a, c.isUpper = false :=
  Bech32m.encode_forall _ (validHrp a.kind).lower (by decide)
    Bech32m.groupChar_lower

theorem ascii_addressText (a : WireAddress) :
    ∀ c ∈ addressText a, c.toNat < 128 := by
  intro c hc
  have hle := (Bech32m.encode_forall _ (validHrp a.kind).printable (by decide)
    Bech32m.groupChar_printable c hc).2
  omega

theorem decode_addressText (a : WireAddress) :
    Bech32m.decode (addressText a) = some (a.kind.hrpStr.toList, a.key.val) :=
  Bech32m.decode_encode (validHrp a.kind) (length_addressText a)

/-- `encode` gives the text of BIP-350. -/
theorem encode_eq (hcrate : ImplementsBip350 crate) (a : WireAddress) :
    a.encode crate = some (.ofList (addressText a)) := by
  rw [WireAddress.encode, hcrate.encode _ _ (validHrp a.kind)
    (length_addressText a)]
  rfl

theorem kindOfHrp_hrpStr (kind : AddressKind) :
    WireAddress.kindOfHrp kind.hrpStr = .ok kind := by
  cases kind with
  | side => decide
  | verse => decide

theorem hrpStr_of_kindOfHrp {hrp : String} {kind : AddressKind}
    (h : WireAddress.kindOfHrp hrp = .ok kind) : kind.hrpStr = hrp := by
  unfold WireAddress.kindOfHrp at h
  split at h
  case isTrue hside =>
    obtain rfl := Except.ok.inj h
    exact hside.symm
  case isFalse =>
    split at h
    case isTrue hverse =>
      obtain rfl := Except.ok.inj h
      exact hverse.symm
    case isFalse => cases h

/-- What is accepted is what the address is encoded to again. -/
theorem parse_ok {s : String} {a : WireAddress}
    (h : WireAddress.parse crate unicode s = .ok a) :
    Bech32m.mixedCase s.toList = false
      ∧ crate.encode a.kind.hrpStr a.key.val
        = .ok (unicode.toLowercase s) := by
  simp only [WireAddress.parse] at h
  split at h
  case isTrue => cases h
  case isFalse hmixed =>
    refine ⟨Bool.eq_false_iff.mpr hmixed, ?_⟩
    split at h
    case h_1 => cases h
    case h_2 hrp data _ =>
      split at h
      case h_1 => cases h
      case h_2 kind hkind =>
        split at h
        case isFalse => cases h
        case isTrue hlen =>
          split at h
          case h_1 => cases h
          case h_2 reencoded hencode =>
            split at h
            case isTrue => cases h
            case isFalse hsame =>
              obtain rfl := Except.ok.inj h
              obtain rfl := hrpStr_of_kindOfHrp hkind
              rw [hencode, not_not.mp hsame]

/-- What is accepted as an address: what is not in mixed case and reads as its
text. -/
theorem parse_iff (hcrate : ImplementsBip350 crate)
    (hunicode : LowersAsUnicode unicode) (s : String) (a : WireAddress) :
    WireAddress.parse crate unicode s = .ok a
      ↔ Bech32m.mixedCase s.toList = false
        ∧ s.toList.map foldChar = addressText a := by
  have hencode := hcrate.encode _ _ (validHrp a.kind) (length_addressText a)
  rw [← lowerFrom_eq_iff hunicode [] s.toList (ascii_addressText a)]
  constructor
  · intro h
    obtain ⟨hmixed, hagain⟩ := parse_ok h
    rw [hencode] at hagain
    exact ⟨hmixed, (String.ofList_injective (Except.ok.inj hagain)).symm⟩
  · rintro ⟨hmixed, hlower⟩
    have hlow := Bech32m.map_toLower (isUpper_addressText a)
    have hdecode := hcrate.decode _ _ _ hlow (decode_addressText a)
    rw [String.ofList_toList] at hdecode
    simp only [WireAddress.parse, Unicode.toLowercase, hlower, hdecode,
      kindOfHrp_hrpStr, hencode]
    change (if Bech32m.mixedCase s.toList = true then _ else _) = _
    rw [hmixed, if_neg Bool.false_ne_true, dif_pos a.key.property]
    exact if_neg (not_not.mpr rfl)

-- ============================================================ the spellings

/-- A string in ASCII upper case. -/
def asciiUpper (s : String) : String :=
  .ofList (s.toList.map Char.toUpper)

/-- One of the two spellings of an address: its text, or that in upper
case. -/
def SpellingOf (crate : Bech32) (a : WireAddress) (s : String) : Prop :=
  ∃ t, a.encode crate = some t ∧ (s = t ∨ s = asciiUpper t)

/-- The string, a Kelvin sign read as `k` and ASCII in lower case, is the
BIP-350 text of a key under one of the prefixes. -/
def ReadsAsAddress (s : String) : Prop :=
  ∃ (kind : AddressKind) (key : Bytes publicKeyLen),
    Bech32m.decode (s.toList.map foldChar)
      = some (kind.hrpStr.toList, key.val)

theorem spellingOf_iff (hcrate : ImplementsBip350 crate) (a : WireAddress)
    (s : String) :
    SpellingOf crate a s ↔ s.toList = addressText a
      ∨ s.toList = (addressText a).map Char.toUpper := by
  unfold SpellingOf asciiUpper
  rw [encode_eq hcrate]
  constructor
  · rintro ⟨t, ht, rfl | rfl⟩
    · obtain rfl := Option.some.inj ht
      exact .inl String.toList_ofList
    · obtain rfl := Option.some.inj ht
      rw [String.toList_ofList, String.toList_ofList]
      exact .inr rfl
  · intro h
    refine ⟨_, rfl, ?_⟩
    rw [← String.toList_inj, ← String.toList_inj, String.toList_ofList,
      String.toList_ofList]
    exact h

theorem readsAsAddress_iff (s : String) :
    ReadsAsAddress s ↔ ∃ a, s.toList.map foldChar = addressText a := by
  constructor
  · rintro ⟨kind, key, h⟩
    have hlow : (s.toList.map foldChar).map Char.toLower
        = s.toList.map foldChar := by
      refine Bech32m.map_toLower fun c hc => ?_
      obtain ⟨d, -, rfl⟩ := List.mem_map.mp hc
      exact isUpper_foldChar d
    exact ⟨⟨kind, key⟩, (Bech32m.encode_of_decode hlow h).symm⟩
  · rintro ⟨a, h⟩
    refine ⟨a.kind, a.key, ?_⟩
    rw [h]
    exact decode_addressText a

/-- Without a Kelvin sign a string is read in ASCII lower case. -/
theorem map_foldChar {s : List Char} (h : kelvinSign ∉ s) :
    s.map foldChar = s.map Char.toLower :=
  List.map_congr_left fun _ hc => foldChar_of_ne fun heq => h (heq ▸ hc)

theorem toNat_toUpper_le (c : Char) : c.toUpper.toNat ≤ c.toNat := by
  cases h : c.isLower with
  | false => rw [Bech32m.toUpper_of_not_isLower h]
  | true =>
      have hnat := Bech32m.toUpper_of_isLower h
      omega

/-- The two spellings of an address are ASCII. -/
theorem ascii_of_spellingOf (hcrate : ImplementsBip350 crate) {a : WireAddress}
    {s : String} (h : SpellingOf crate a s) :
    ∀ c ∈ s.toList, c.toNat < 128 := by
  intro c hc
  rcases (spellingOf_iff hcrate a s).mp h with h | h
  · rw [h] at hc
    exact ascii_addressText a c hc
  · rw [h] at hc
    obtain ⟨d, hd, rfl⟩ := List.mem_map.mp hc
    exact (toNat_toUpper_le d).trans_lt (ascii_addressText a d hd)

theorem kelvinSign_not_mem (hcrate : ImplementsBip350 crate) {a : WireAddress}
    {s : String} (h : SpellingOf crate a s) : kelvinSign ∉ s.toList :=
  fun hmem => absurd (ascii_of_spellingOf hcrate h _ hmem) (by decide)

/-- Both spellings are accepted. -/
theorem parse_of_spellingOf (hcrate : ImplementsBip350 crate)
    (hunicode : LowersAsUnicode unicode) {a : WireAddress} {s : String}
    (h : SpellingOf crate a s) :
    WireAddress.parse crate unicode s = .ok a := by
  rw [parse_iff hcrate hunicode, map_foldChar (kelvinSign_not_mem hcrate h)]
  have hlower := isUpper_addressText a
  rcases (spellingOf_iff hcrate a s).mp h with h | h
  · rw [h]
    exact ⟨Bech32m.mixedCase_of_lower hlower, Bech32m.map_toLower hlower⟩
  · rw [h]
    exact Bech32m.map_toUpper hlower

/-- Without a Kelvin sign no other string is. -/
theorem spellingOf_of_parse (hcrate : ImplementsBip350 crate)
    (hunicode : LowersAsUnicode unicode) {a : WireAddress} {s : String}
    (hkelvin : kelvinSign ∉ s.toList)
    (h : WireAddress.parse crate unicode s = .ok a) :
    SpellingOf crate a s := by
  obtain ⟨hmixed, hfold⟩ := (parse_iff hcrate hunicode s a).mp h
  rw [map_foldChar hkelvin] at hfold
  have hcases := Bech32m.eq_of_not_mixedCase hmixed
  rw [hfold] at hcases
  exact (spellingOf_iff hcrate a s).mpr hcases

/-- An address is accepted in its two spellings, and a string that is accepted
is one of them unless it is a text of that address with a Kelvin sign in it. -/
theorem two_spellings_iff (hcrate : ImplementsBip350 crate)
    (hunicode : LowersAsUnicode unicode) :
    (∀ a : WireAddress, ∃ t, a.encode crate = some t
        ∧ WireAddress.parse crate unicode t = .ok a
        ∧ WireAddress.parse crate unicode (asciiUpper t) = .ok a)
      ∧ ∀ s : String,
        (∀ a, WireAddress.parse crate unicode s = .ok a → SpellingOf crate a s)
          ↔ kelvinSign ∉ s.toList ∨ Bech32m.mixedCase s.toList = true
            ∨ ¬ ReadsAsAddress s := by
  constructor
  · intro a
    have ht := encode_eq hcrate a
    exact ⟨_, ht, parse_of_spellingOf hcrate hunicode ⟨_, ht, .inl rfl⟩,
      parse_of_spellingOf hcrate hunicode ⟨_, ht, .inr rfl⟩⟩
  · intro s
    constructor
    · intro h
      by_contra hnot
      obtain ⟨hkelvin, hmixed, hreads⟩ :
          kelvinSign ∈ s.toList ∧ Bech32m.mixedCase s.toList = false
            ∧ ReadsAsAddress s := by
        simpa only [not_or, not_not, Bool.not_eq_true] using hnot
      obtain ⟨a, hfold⟩ := (readsAsAddress_iff s).mp hreads
      have hparse := (parse_iff hcrate hunicode s a).mpr ⟨hmixed, hfold⟩
      exact kelvinSign_not_mem hcrate (h a hparse) hkelvin
    · intro hcases a hparse
      obtain ⟨hmixed, hfold⟩ := (parse_iff hcrate hunicode s a).mp hparse
      rcases hcases with hkelvin | hmixed' | hreads
      · exact spellingOf_of_parse hcrate hunicode hkelvin hparse
      · rw [hmixed] at hmixed'
        cases hmixed'
      · exact absurd ((readsAsAddress_iff s).mpr ⟨a, hfold⟩) hreads

-- ====================================================== a spelling with `K`

/-- A crate that is BIP-350 and nothing else. -/
def bip350 : Bech32 where
  encode hrp data :=
    let text := Bech32m.encode hrp.toList data
    if text.length ≤ 90 then .ok (.ofList text) else .error "too long"
  decode text :=
    match Bech32m.decode text.toList with
    | some (hrp, data) => .ok (.ofList hrp, data)
    | none => .error "not bech32m"

theorem bip350_implements : ImplementsBip350 bip350 where
  encode hrp data _ hlen := if_pos hlen
  decode text hrp data _ h := by
    simp only [bip350, String.toList_ofList, h]

/-- Tables that know the Kelvin sign. -/
def kelvinTable : Unicode where
  toLower _ c _ := if c = kelvinSign then ['k'] else [c]

theorem kelvinTable_lowers : LowersAsUnicode kelvinTable where
  kelvin _ _ := by
    simp only [kelvinTable, if_pos]
  other _ c _ hbeyond hne := by
    refine ⟨c, ?_, hbeyond⟩
    simp only [kelvinTable, if_neg hne, List.mem_singleton]

/-- The address of the key `b0 00 .. 00`. -/
def kelvinAddress : WireAddress :=
  ⟨.side, ⟨0xb0 :: List.replicate 31 0, by decide⟩⟩

/-- Its text, a Kelvin sign for the one `k` in it. -/
def kelvinText : String :=
  "sv1\u212aqqqqqqqqqqqqqqqqqqqqqqqqqqqqqqqqqqqqqqqqqqqqqqqqqqqewfcne"

theorem two_spellings_bip350 :
    (∀ a : WireAddress, ∃ t, a.encode bip350 = some t
        ∧ WireAddress.parse bip350 kelvinTable t = .ok a
        ∧ WireAddress.parse bip350 kelvinTable (asciiUpper t) = .ok a)
      ∧ ∀ s : String,
        (∀ a, WireAddress.parse bip350 kelvinTable s = .ok a →
            SpellingOf bip350 a s)
          ↔ kelvinSign ∉ s.toList ∨ Bech32m.mixedCase s.toList = true
            ∨ ¬ ReadsAsAddress s :=
  two_spellings_iff bip350_implements kelvinTable_lowers

/-- A third spelling. -/
theorem kelvinText_accepted :
    WireAddress.parse bip350 kelvinTable kelvinText = .ok kelvinAddress
      ∧ ¬ SpellingOf bip350 kelvinAddress kelvinText := by
  constructor
  · rw [parse_iff bip350_implements kelvinTable_lowers]
    exact ⟨by decide, by decide +kernel⟩
  · intro h
    exact absurd (show kelvinSign ∈ kelvinText.toList by decide)
      (kelvinSign_not_mem bip350_implements h)

end Sidevers.Proofs
