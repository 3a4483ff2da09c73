import AionTrust.Impl.Core.Id
import AionTrust.Impl.Interop.Error

/-!
# `did:key`

An Ed25519 key as `did:key:z` and base58 of its multicodec and its bytes
(`encodeDidKey`), and back, without a fragment (`decodeDidKey`). The two base
conversions carry through a list of digits, least significant first
(`addDigit`), and count leading zeros apart.
-/

namespace AionTrust.Impl

open Framework (Bytes ensure okOr)

def ed25519Multicodec : Bytes := [0xed, 0x01]

/-- `ALPHABET`. -/
def alphabet : Bytes := asBytes "123456789ABCDEFGHJKLMNPQRSTUVWXYZabcdefghijkmnopqrstuvwxyz"

/-- `str::strip_prefix`. -/
def stripPrefix (pre s : String) : Option String :=
  if pre.toList <+: s.toList then some (String.ofList (s.toList.drop pre.length)) else none

/-! ## Base 58 -/

/-- `while carry > 0`, for a base above one. -/
def pushCarry (base carry : Nat) : List UInt8 :=
  if 1 < base ∧ carry > 0 then UInt8.ofNat (carry % base) :: pushCarry base (carry / base) else []
termination_by carry
decreasing_by exact Nat.div_lt_self (by omega) (by omega)

/-- The two inner loops: a carry through the digits, and what is left of it. -/
def addDigit (factor base : Nat) : Nat → List UInt8 → Run (List UInt8)
  | carry, [] => .ok (pushCarry base carry)
  | carry, d :: ds => do
    let carry ← u32 (carry + (← u32 (d.toNat * factor)))
    let ds ← addDigit factor base (carry / base) ds
    return UInt8.ofNat (carry % base) :: ds

/-- `ALPHABET[d as usize]`. -/
def alphabetChar (d : UInt8) : Run Char := do
  let b ← okOr alphabet[d.toNat]? (.panic .index)
  return Char.ofNat b.toNat

def base58btcEncode (input : Bytes) : Run String := do
  let zeros := (input.takeWhile (· = 0)).length
  let digits ← input.foldlM (fun digits byte => addDigit 256 58 byte.toNat digits) []
  let out ← digits.reverse.mapM alphabetChar
  return String.ofList (List.replicate zeros '1' ++ out)

/-- The position of a character, given by its byte. -/
def alphabetPosition (c : UInt8) : Run Nat :=
  okOr (alphabet.idxOf? c) (.error (.didKey "invalid base58 character"))

def base58btcDecode (s : String) : Run Bytes := do
  let zeros := ((asBytes s).takeWhile (· = 0x31)).length
  let bytes ← (asBytes s).foldlM (fun bytes c => do
    let val ← alphabetPosition c
    addDigit 58 256 val bytes) []
  return List.replicate zeros 0 ++ bytes.reverse

/-! ## Keys -/

variable [External]

def encodeDidKey (vk : VerifyingKey) : Run String := do
  let encoded ← base58btcEncode (ed25519Multicodec ++ (External.toBytes vk).val)
  return "did:key:z" ++ encoded

/-- `did:key:zXXX#zXXX`. -/
def verificationMethod (vk : VerifyingKey) : Run String := do
  let did ← encodeDidKey vk
  let frag := (stripPrefix "did:key:" did).getD did
  return did ++ "#" ++ frag

def decodeDidKey (s : String) : Run VerifyingKey := do
  -- `s.split('#').next()`
  let base := String.ofList (s.toList.takeWhile (· ≠ '#'))
  let mb ← okOr (stripPrefix "did:key:z" base) (.error (.didKey "expected 'did:key:z' prefix"))
  let bytes ← base58btcDecode mb
  ensure (bytes.length = 34 ∧ bytes.take 2 = ed25519Multicodec)
    (.error (.didKey "not an ed25519-pub did:key"))
  if h : (bytes.drop 2).length = 32 then
    (External.fromBytes ⟨bytes.drop 2, h⟩).mapError fun e => .error (.didKey e)
  else .error (.error (.didKey "bad key length"))

end AionTrust.Impl
