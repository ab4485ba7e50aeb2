/-
Network addresses as text (`address.rs`): a public key and what it is the key
of, in bech32m under the prefix `sv` or `svv`.

The bech32 crate is third-party and stands here as it is called (`Bech32`).
`str::to_lowercase` goes by Unicode's tables beyond ASCII, which stand here as
what it finds in them (`Unicode`).
-/
import Sidevers.Core.Bytes

namespace Sidevers.Core

/-- `bech32::encode::<Bech32m>` and `bech32::decode`, an error as it is
displayed. An `Hrp` is its string. -/
structure Bech32 where
  encode : String → List UInt8 → Except String String
  decode : String → Except String (String × List UInt8)

/-- What a character beyond ASCII is in lower case, from what stands before and
after it: a capital sigma goes by its neighbours. -/
structure Unicode where
  toLower : List Char → Char → List Char → List Char

namespace Unicode

/-- One character of `to_lowercase`. -/
def lowerChar (unicode : Unicode) (before : List Char) (c : Char)
    (after : List Char) : List Char :=
  if c.toNat < 128 then [c.toLower] else unicode.toLower before c after

/-- The characters of `to_lowercase` from behind `before` on. -/
def lowerFrom (unicode : Unicode) (before : List Char) :
    List Char → List Char
  | [] => []
  | c :: after =>
      unicode.lowerChar before c after
        ++ unicode.lowerFrom (before ++ [c]) after

/-- `str::to_lowercase`. -/
def toLowercase (unicode : Unicode) (s : String) : String :=
  String.ofList (unicode.lowerFrom [] s.toList)

end Unicode

/-- `HRP_SIDE`. -/
def hrpSide : String := "sv"

/-- `HRP_VERSE`. -/
def hrpVerse : String := "svv"

/-- `AddressKind`. -/
inductive AddressKind where
  | side
  | verse
  deriving DecidableEq, Repr

/-- `hrp_str`. -/
def AddressKind.hrpStr : AddressKind → String
  | .side => hrpSide
  | .verse => hrpVerse

/-- A wire address (`address::Address`). -/
structure WireAddress where
  kind : AddressKind
  key : Bytes publicKeyLen
  deriving DecidableEq

namespace WireAddress

/-- `encode`; it panics on an error of the crate. -/
def encode (crate : Bech32) (a : WireAddress) : Option String :=
  match crate.encode a.kind.hrpStr a.key.val with
  | .ok text => some text
  | .error _ => none

/-- The kind that a prefix stands for. -/
def kindOfHrp (hrp : String) : Except String AddressKind :=
  if hrp = hrpSide then .ok .side
  else if hrp = hrpVerse then .ok .verse
  else .error s!"unknown HRP: {hrp}"

/-- `parse`, with the text of its `Error::Address`. -/
def parse (crate : Bech32) (unicode : Unicode) (s : String) :
    Except String WireAddress :=
  let hasUpper := s.toList.any Char.isUpper
  let hasLower := s.toList.any Char.isLower
  if hasUpper && hasLower then .error "mixed case not allowed"
  else
    let canonical := unicode.toLowercase s
    match crate.decode canonical with
    | .error e => .error s!"bech32 decode: {e}"
    | .ok (hrp, data) =>
        match kindOfHrp hrp with
        | .error e => .error e
        | .ok kind =>
            if h : data.length = publicKeyLen then
              -- a text with a bech32 checksum has another one in bech32m
              match crate.encode hrp data with
              | .error e => .error s!"re-encode failed: {e}"
              | .ok reencoded =>
                  if reencoded ≠ canonical then
                    .error "non-canonical encoding (not bech32m)"
                  else .ok ⟨kind, ⟨data, h⟩⟩
            else
              .error s!"expected {publicKeyLen} bytes, got {data.length}"

end WireAddress

end Sidevers.Core
