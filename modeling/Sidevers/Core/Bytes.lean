/-
Fixed-length byte strings (`[u8; N]`): the length is carried by the type,
so a key, a nonce or a hash of the wrong size cannot be built.
-/
import Mathlib.Data.List.Basic

namespace Sidevers.Core

/-- `[u8; n]`. -/
abbrev Bytes (n : Nat) := { bs : List UInt8 // bs.length = n }

/-- `[b; n]`: the array filled with one byte. -/
def Bytes.fill (n : Nat) (b : UInt8) : Bytes n :=
  ⟨List.replicate n b, List.length_replicate⟩

/-- `PUBLIC_KEY_LEN`. -/
def publicKeyLen : Nat := 32

/-- `NONCE_LEN`. -/
def nonceLen : Nat := 16

/-- An Ed25519 public key: a side's, a verse's or a device's address. -/
abbrev Address := Bytes publicKeyLen

/-- A per-envelope nonce. -/
abbrev Nonce := Bytes nonceLen

end Sidevers.Core
