import AionTrust.Framework.Fallible
import AionTrust.Impl.Core.Merkle
import AionTrust.Impl.Claims.Bodies

/-!
# A body's leaves

A body is cut into its fields, in the order of their keys, without the tag
`claim_type` (`orderedFields`), and each field is a leaf under a salt derived
from the claim's master salt (`bodyLeaves`).
-/

namespace AionTrust.Impl

open Framework (Bytes okOr)

/-- `u32::try_from`. -/
def u32TryFrom (n : Nat) : Option UInt32 := if n < 2 ^ 32 then some (UInt32.ofNat n) else none

@[simp] theorem u32TryFrom_eq_some {n : Nat} {v : UInt32} :
    u32TryFrom n = some v ↔ v.toNat = n := by
  have hv := v.toNat_lt
  unfold u32TryFrom
  split
  · rename_i h
    rw [Option.some_inj, ← UInt32.toNat_inj, UInt32.toNat_ofNat', Nat.mod_eq_of_lt (by omega)]
    exact eq_comm
  · simp only [reduceCtorEq, false_iff]; omega

def claimTypeTag : String := "claim_type"

/-- One field of a body, with what commits or discloses it. -/
structure BodyLeaf where
  key : String
  value : Value
  salt : Digest
  hash : Digest

/-- The body's fields in the order of their keys. -/
def orderedFields (body : ClaimBody) : Except ClaimReject (List (String × Value)) :=
  match body.toValue with
  | .object map =>
    .ok (Std.TreeMap.ofList (map.filter fun e => e.1 ≠ claimTypeTag) compare).toList
  | _ => .error .malformed

variable [External]

/-- The salt of a field, keyed by the master salt. -/
def deriveFieldSalt (masterSalt : Digest) (index : UInt32) (key : String) : Digest :=
  External.keyedHash masterSalt
    (((SigningWriter.new fieldLeafDomain).u32 index).field (asBytes key)).intoBytes

/-- The leaf of the field at `i`. -/
def bodyLeaf (masterSalt : Digest) : (String × Value) × Nat → Except ClaimReject BodyLeaf
  | ((key, value), i) => do
    let index ← okOr (u32TryFrom i) .malformed
    let jcsValue ← okOr (External.toJcsBytes value) .malformed
    let salt := deriveFieldSalt masterSalt index key
    return { key, value, salt, hash := fieldLeafHash index key salt jcsValue }

def bodyLeaves (masterSalt : Digest) (body : ClaimBody) : Except ClaimReject (List BodyLeaf) := do
  let fields ← orderedFields body
  fields.zipIdx.mapM (bodyLeaf masterSalt)

end AionTrust.Impl
