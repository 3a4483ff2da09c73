import Mathlib.Order.Basic
import AionTrust.Impl.Core.Encoding

/-!
# Identifiers, identities and timestamps

`Did` and `ClaimId` are strings behind a type of their own; `Identity` is a
signing key. A `Timestamp` is a signed 64-bit number of seconds, ordered by
its value.
-/

namespace AionTrust.Impl

open Framework (Bytes)

/-- A decentralized identifier, `did:aion:<hex>` when derived from a key. -/
structure Did where
  value : String
  deriving DecidableEq

/-- The content id of a claim: hex of the hash of its signing bytes. -/
structure ClaimId where
  value : String
  deriving DecidableEq

namespace Did

def fromString (s : String) : Did := ⟨s⟩

def asStr (d : Did) : String := d.value

def asBytes (d : Did) : Bytes := Impl.asBytes d.value

theorem asStr_injective : Function.Injective asStr := fun d e h => by
  cases d; cases e; exact congrArg Did.mk h

theorem asBytes_inj {d e : Did} (h : d.asBytes = e.asBytes) : d = e := by
  cases d; cases e; exact congrArg Did.mk (Impl.asBytes_inj h)

end Did

namespace ClaimId

def asStr (c : ClaimId) : String := c.value

theorem asStr_inj {c d : ClaimId} (h : c.asStr = d.asStr) : c = d := by
  cases c; cases d; exact congrArg ClaimId.mk h

end ClaimId

/-! ## Time -/

structure Timestamp where
  secs : Int64
  deriving DecidableEq

namespace Timestamp

instance : LinearOrder Timestamp :=
  LinearOrder.lift' (fun t => t.secs.toInt) fun t u h => by
    cases t; cases u; exact congrArg Timestamp.mk (Int64.toInt_inj.mp h)

theorem le_def {t u : Timestamp} : t ≤ u ↔ t.secs.toInt ≤ u.secs.toInt := Iff.rfl

/-- `saturating_add`. -/
def plusSeconds (t : Timestamp) (seconds : Int64) : Timestamp :=
  ⟨Int64.ofInt (max (-2 ^ 63) (min (2 ^ 63 - 1) (t.secs.toInt + seconds.toInt)))⟩

theorem le_plusSeconds (t : Timestamp) {seconds : Int64} (h : 0 ≤ seconds.toInt) :
    t ≤ t.plusSeconds seconds := by
  have h₁ := t.secs.le_toInt
  have h₂ := t.secs.toInt_lt
  rw [le_def, plusSeconds, Int64.toInt_ofInt_of_le (by omega) (by omega)]
  omega

end Timestamp

/-! ## Keys -/

variable [External]

/-- `did:aion:` and the first 24 bytes of the key's hash. -/
def Did.fromKey (vk : VerifyingKey) : Did :=
  ⟨"did:aion:" ++ toHex ((External.hash (External.toBytes vk).val).val.take 24)⟩

def ClaimId.fromSigningBytes (bytes : Bytes) : ClaimId := ⟨toHex (External.hash bytes).val⟩

/-- An Ed25519 keypair. -/
structure Identity where
  signingKey : SigningKey

namespace Identity

def verifyingKey (i : Identity) : VerifyingKey := External.verifyingKey i.signingKey

def did (i : Identity) : Did := Did.fromKey i.verifyingKey

def sign (i : Identity) (message : Bytes) : ByteVec 64 := External.sign i.signingKey message

end Identity

/-- Decodes a verifying key from its 32 bytes in hex. -/
def verifyingKeyFromHex (hex : String) : Except TrustError VerifyingKey := do
  let bytes ← decodeArray 32 hex
  match External.fromBytes bytes with
  | .ok vk => .ok vk
  | .error e => .error (.crypto e)

end AionTrust.Impl
