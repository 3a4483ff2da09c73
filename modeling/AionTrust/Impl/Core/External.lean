import AionTrust.Framework.Framing
import AionTrust.Impl.Json

/-!
# The packages outside the repository

What the crates use of `aion_context::crypto` and `aion_context::jcs`, and of
`serde_json`'s `Display`. A signature check is its `is_ok`, and an
`AionError` is its text.
-/

namespace AionTrust.Impl

open Framework (Bytes)

/-- `[u8; N]`. -/
abbrev ByteVec (n : Nat) : Type := { bs : Bytes // bs.length = n }

@[simp] theorem ByteVec.length_val {n : Nat} (v : ByteVec n) : v.val.length = n := v.property

class External where
  SigningKey : Type
  VerifyingKey : Type
  hash : Bytes → ByteVec 32
  keyedHash : ByteVec 32 → Bytes → ByteVec 32
  verifyingKey : SigningKey → VerifyingKey
  sign : SigningKey → Bytes → ByteVec 64
  verify : VerifyingKey → Bytes → ByteVec 64 → Bool
  toBytes : VerifyingKey → ByteVec 32
  fromBytes : ByteVec 32 → Except String VerifyingKey
  toJcsBytes : Value → Option Bytes
  display : Value → String

export External (SigningKey VerifyingKey)

end AionTrust.Impl
