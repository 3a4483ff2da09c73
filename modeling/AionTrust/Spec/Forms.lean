import AionTrust.Impl.Core.Encoding

/-!
# Forms

The bodies a list of pairs may be sent as: each byte of a key or a value as it
is, as an escape, or a space as a plus (`ByteEncoding`), a key and its value
joined by `=` (`PairEncoding`), and the pairs by `&` (`BodyEncoding`).
-/

namespace AionTrust.Spec

open AionTrust.Impl
open Framework (Bytes)

/-- The bytes that need no escape: letters, digits and `*-._~`. -/
def Unreserved (b : UInt8) : Prop :=
  (0x30 ≤ b ∧ b ≤ 0x39) ∨ (0x41 ≤ b ∧ b ≤ 0x5a) ∨ (0x61 ≤ b ∧ b ≤ 0x7a) ∨ b ∈ asBytes "*-._~"

instance : DecidablePred Unreserved := fun _ => inferInstanceAs (Decidable (_ ∨ _))

/-- A digit of base 16, in either case. -/
def HexDigit (n : Nat) (c : UInt8) : Prop :=
  ∃ digits ∈ ["0123456789abcdef", "0123456789ABCDEF"], (asBytes digits)[n]? = some c

instance (n : Nat) (c : UInt8) : Decidable (HexDigit n c) := List.decidableBEx _ _

/-- What a byte may be written as. -/
inductive ByteEncoding : UInt8 → Bytes → Prop
  | space : ByteEncoding 0x20 [0x2b]
  | plain {b : UInt8} (h : Unreserved b) : ByteEncoding b [b]
  | escape {b hi lo : UInt8} (hhi : HexDigit (b.toNat / 16) hi) (hlo : HexDigit (b.toNat % 16) lo) :
      ByteEncoding b [0x25, hi, lo]

/-- A key or a value, byte by byte. -/
def ComponentEncoding (s e : String) : Prop :=
  ∃ pieces, List.Forall₂ ByteEncoding (asBytes s) pieces ∧ asBytes e = pieces.flatten

def PairEncoding (pair : String × String) (e : String) : Prop :=
  ∃ k v, ComponentEncoding pair.1 k ∧ ComponentEncoding pair.2 v ∧ e = k ++ "=" ++ v

def BodyEncoding (pairs : List (String × String)) (body : String) : Prop :=
  ∃ es, List.Forall₂ PairEncoding pairs es ∧ body = "&".intercalate es

end AionTrust.Spec
