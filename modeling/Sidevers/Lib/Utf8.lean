/-
UTF-8 that may be broken.

`lossy` reads it the way the Unicode standard recommends: every character is
read as it is, and what is no character is taken off piece by piece, each of
them as long as it could still have become one (`brokenLength`), a replacement
character for each.

Text is read as itself (`lossy_utf8`). Its first byte is one that a character
begins with (`isUTF8FirstByte_of_utf8`).

`utf8Error` says where bytes stop being text; they are text if there is no
such place (`utf8Error_eq_none_iff`).
-/
import Mathlib.Data.List.Basic

namespace Sidevers.Lib

/-- A byte that is not the first of its character. -/
def isContinuation (b : UInt8) : Bool := 0x80 ≤ b && b ≤ 0xBF

/-- How many bytes a character has that begins with this one; zero if none
does. -/
def charWidth (first : UInt8) : Nat :=
  if first < 0x80 then 1
  else if first < 0xC2 then 0
  else if first < 0xE0 then 2
  else if first < 0xF0 then 3
  else if first < 0xF5 then 4
  else 0

/-- Can a character begin with these two bytes? -/
def follows (first next : UInt8) : Bool :=
  if first = 0xE0 then 0xA0 ≤ next && next ≤ 0xBF
  else if first = 0xED then 0x80 ≤ next && next ≤ 0x9F
  else if first = 0xF0 then 0x90 ≤ next && next ≤ 0xBF
  else if first = 0xF4 then 0x80 ≤ next && next ≤ 0x8F
  else 2 ≤ charWidth first && isContinuation next

/-- The bytes of a character that breaks off. -/
def brokenLength (first : UInt8) (rest : List UInt8) : Nat :=
  if !follows first (rest.getD 0 0) then 1
  else if charWidth first = 4 && isContinuation (rest.getD 1 0) then 3
  else 2

/-- The characters of `lossy`. -/
def lossyChars : List UInt8 → List Char
  | [] => []
  | first :: rest =>
      match ByteArray.utf8DecodeChar? (first :: rest).toByteArray 0 with
      | some c => c :: lossyChars (rest.drop (c.utf8Size - 1))
      | none =>
          Char.ofNat 0xFFFD
            :: lossyChars (rest.drop (brokenLength first rest - 1))
termination_by bytes => bytes.length
decreasing_by
  all_goals
    rw [List.length_drop, List.length_cons]
    omega

/-- The text that bytes are read as. -/
def lossy (bytes : List UInt8) : String := .ofList (lossyChars bytes)

/-- A character at the front is decoded, whatever follows. -/
theorem utf8EncodeChar_eq_cons (c : Char) : ∃ first tail,
    String.utf8EncodeChar c = first :: tail ∧ tail.length = c.utf8Size - 1
      ∧ ∀ rest, ByteArray.utf8DecodeChar?
        (first :: (tail ++ rest)).toByteArray 0 = some c := by
  have hlen : (String.utf8EncodeChar c).length = c.utf8Size :=
    String.length_utf8EncodeChar c
  have hpos := c.utf8Size_pos
  cases hbytes : String.utf8EncodeChar c with
  | nil =>
      rw [hbytes, List.length_nil] at hlen
      omega
  | cons first tail =>
      rw [hbytes, List.length_cons] at hlen
      refine ⟨first, tail, rfl, by omega, fun rest => ?_⟩
      rw [← List.cons_append, ← hbytes, List.toByteArray_append]
      exact ByteArray.utf8DecodeChar?_utf8EncodeChar_append

/-- A character that is not broken is read. -/
theorem lossyChars_append (c : Char) (rest : List UInt8) :
    lossyChars (String.utf8EncodeChar c ++ rest) = c :: lossyChars rest := by
  obtain ⟨first, tail, hbytes, htail, hdecode⟩ := utf8EncodeChar_eq_cons c
  rw [hbytes, List.cons_append, lossyChars, hdecode]
  dsimp only
  rw [← htail, List.drop_left]

theorem lossyChars_utf8 (l : List Char) :
    lossyChars (l.flatMap String.utf8EncodeChar) = l := by
  induction l with
  | nil => rw [List.flatMap_nil, lossyChars]
  | cons c l ih => rw [List.flatMap_cons, lossyChars_append, ih]

/-- The bytes of a text. -/
theorem utf8_eq_flatMap (t : String) :
    t.toUTF8.data.toList = t.toList.flatMap String.utf8EncodeChar := by
  rw [String.toUTF8_eq_toByteArray, ← String.utf8Encode_toList]
  unfold List.utf8Encode
  simp

/-- Text is read as itself. -/
theorem lossy_utf8 (t : String) : lossy t.toUTF8.data.toList = t := by
  unfold lossy
  rw [utf8_eq_flatMap, lossyChars_utf8, String.ofList_toList]

-- ================================================================ errors

/-- Where bytes stop being text, and how many of them are no character; none
if they end before that is known. -/
structure Utf8Error where
  validUpTo : Nat
  errorLen : Option Nat
  deriving DecidableEq, Repr

/-- As it is displayed. -/
def Utf8Error.text (e : Utf8Error) : String :=
  match e.errorLen with
  | some len =>
      s!"invalid utf-8 sequence of {len} bytes from index {e.validUpTo}"
  | none => s!"incomplete utf-8 byte sequence from index {e.validUpTo}"

/-- The error of bytes from an index on, when so many are left of a
character. -/
def utf8ErrorAt (left index : Nat) : List UInt8 → Option Utf8Error
  | [] => none
  | first :: rest =>
      match left with
      | left + 1 => utf8ErrorAt left (index + 1) rest
      | 0 =>
          match ByteArray.utf8DecodeChar? (first :: rest).toByteArray 0 with
          | some c => utf8ErrorAt (c.utf8Size - 1) (index + 1) rest
          | none =>
              let len := brokenLength first rest
              -- all that is there could go on to be a character
              if 2 ≤ charWidth first ∧ len = rest.length + 1 then
                some ⟨index, none⟩
              else some ⟨index, some len⟩

/-- `from_utf8`: its error. -/
def utf8Error (bytes : List UInt8) : Option Utf8Error := utf8ErrorAt 0 0 bytes

theorem utf8ErrorAt_append (l rest : List UInt8) (index : Nat) :
    utf8ErrorAt l.length index (l ++ rest)
      = utf8ErrorAt 0 (index + l.length) rest := by
  induction l generalizing index with
  | nil => rfl
  | cons b l ih =>
      rw [List.length_cons, List.cons_append, utf8ErrorAt, ih]
      congr 1
      omega

theorem utf8ErrorAt_char (c : Char) (rest : List UInt8) (index : Nat) :
    utf8ErrorAt 0 index (String.utf8EncodeChar c ++ rest)
      = utf8ErrorAt 0 (index + c.utf8Size) rest := by
  obtain ⟨first, tail, hbytes, htail, hdecode⟩ := utf8EncodeChar_eq_cons c
  have hpos := c.utf8Size_pos
  rw [hbytes, List.cons_append, utf8ErrorAt, hdecode]
  dsimp only
  rw [← htail, utf8ErrorAt_append]
  congr 1
  omega

/-- What is decoded is at the front. -/
theorem eq_append_of_decode {bytes : List UInt8} {c : Char}
    (h : ByteArray.utf8DecodeChar? bytes.toByteArray 0 = some c) :
    ∃ rest, bytes = String.utf8EncodeChar c ++ rest := by
  obtain ⟨tail, htail⟩ := ByteArray.exists_of_utf8DecodeChar?_eq_some h
  refine ⟨tail.data.toList, ?_⟩
  simpa using congrArg (fun b => b.data.toList) htail

/-- Where there is no error, the bytes are characters. -/
theorem utf8ErrorAt_eq_none_iff (bytes : List UInt8) (index : Nat) :
    utf8ErrorAt 0 index bytes = none
      ↔ ∃ l : List Char, bytes = l.flatMap String.utf8EncodeChar := by
  constructor
  · intro h
    induction hn : bytes.length using Nat.strongRecOn
      generalizing bytes index with
    | ind n ih =>
        subst hn
        cases hbytes : bytes with
        | nil => exact ⟨[], rfl⟩
        | cons first rest =>
            rw [← hbytes]
            cases hdecode : ByteArray.utf8DecodeChar? bytes.toByteArray 0 with
            | none =>
                rw [hbytes] at h hdecode
                rw [utf8ErrorAt, hdecode] at h
                dsimp only at h
                split at h <;> cases h
            | some c =>
                obtain ⟨rest', heq⟩ := eq_append_of_decode hdecode
                have hpos := c.utf8Size_pos
                rw [heq, utf8ErrorAt_char] at h
                have hshort : rest'.length < bytes.length := by
                  rw [heq, List.length_append, String.length_utf8EncodeChar]
                  omega
                obtain ⟨l, hl⟩ := ih _ hshort rest' _ h rfl
                exact ⟨c :: l, by rw [heq, hl, List.flatMap_cons]⟩
  · rintro ⟨l, rfl⟩
    induction l generalizing index with
    | nil => rfl
    | cons c l ih => rw [List.flatMap_cons, utf8ErrorAt_char, ih]

/-- What is refused as text has an error. -/
theorem utf8Error_eq_none_iff (bytes : List UInt8) :
    utf8Error bytes = none
      ↔ String.fromUTF8? ⟨bytes.toArray⟩ ≠ none := by
  have hvalid : ByteArray.IsValidUTF8 ⟨bytes.toArray⟩
      ↔ ∃ l : List Char, bytes = l.flatMap String.utf8EncodeChar := by
    constructor
    · rintro ⟨l, hl⟩
      exact ⟨l, by simpa [List.utf8Encode] using congrArg (·.data.toList) hl⟩
    · rintro ⟨l, rfl⟩
      exact ⟨l, by simp [List.utf8Encode, ByteArray.ext_iff]⟩
  unfold utf8Error String.fromUTF8?
  rw [utf8ErrorAt_eq_none_iff, ← hvalid]
  by_cases h : ByteArray.IsValidUTF8 ⟨bytes.toArray⟩
  · simp [h]
  · simp [h]

/-- No text begins in the middle of a character. -/
theorem isUTF8FirstByte_of_utf8 {t : String} {first : UInt8}
    {rest : List UInt8} (h : t.toUTF8.data.toList = first :: rest) :
    first.IsUTF8FirstByte := by
  rw [utf8_eq_flatMap] at h
  cases ht : t.toList with
  | nil =>
      rw [ht] at h
      cases h
  | cons c l =>
      have hfirst := UInt8.isUTF8FirstByte_getElem_zero_utf8EncodeChar (c := c)
      rw [ht, List.flatMap_cons] at h
      cases hbytes : String.utf8EncodeChar c with
      | nil =>
          have hpos := c.utf8Size_pos
          rw [← String.length_utf8EncodeChar, hbytes] at hpos
          cases hpos
      | cons b tail =>
          rw [hbytes, List.cons_append] at h
          obtain ⟨rfl, -⟩ := List.cons.inj h
          simpa only [hbytes, List.getElem_cons_zero] using hfirst

end Sidevers.Lib
