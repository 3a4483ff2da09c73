import AionTrust.Impl.Claims.Anchor
import AionTrust.Impl.Core.Language

/-!
# Forms and predicate lines

A form body as pairs in order, every component percent-decoded (`formPairs`),
and a verifier's text as one predicate a line (`parsePredicates`).
-/

namespace AionTrust.Impl

open Framework (Bytes okOr)

/-! ## Forms -/

/-- `bytes[i]`. -/
def byteAt (bytes : Bytes) (i : Nat) : Except Panic UInt8 := okOr bytes[i]? .index

def nibble (c : UInt8) : Option UInt8 :=
  if 0x30 ≤ c ∧ c ≤ 0x39 then some (c - 0x30)
  else if 0x61 ≤ c ∧ c ≤ 0x66 then some (c - 0x61 + 10)
  else if 0x41 ≤ c ∧ c ≤ 0x46 then some (c - 0x41 + 10)
  else none

def hex2 (hi lo : UInt8) : Option UInt8 := do return (← nibble hi) * 16 + (← nibble lo)

/-- The loop of `percentDecode`, from index `i`. -/
def percentDecodeFrom (bytes : Bytes) (i : Nat) (out : Bytes) : Except Panic Bytes :=
  if i < bytes.length then do
    let b ← byteAt bytes i
    if b = 0x2b then percentDecodeFrom bytes (i + 1) (out ++ [0x20])
    else if b = 0x25 ∧ i + 2 < bytes.length then
      let hi ← byteAt bytes (i + 1)
      let lo ← byteAt bytes (i + 2)
      match hex2 hi lo with
      | some byte => percentDecodeFrom bytes (i + 2 + 1) (out ++ [byte])
      | none => percentDecodeFrom bytes (i + 1) (out ++ [0x25])
    else percentDecodeFrom bytes (i + 1) (out ++ [b])
  else .ok out
termination_by bytes.length - i

/-- An escape that is not one is kept. -/
def percentDecode (s : String) : Except Panic String := do
  return fromUtf8Lossy (← percentDecodeFrom (asBytes s) 0 [])

def formPairs (body : String) : Except Panic (List (String × String)) :=
  ((split '&' body).filter (· ≠ "")).mapM fun pair =>
    match splitOnce '=' pair with
    | some (k, v) => do return (← percentDecode k, ← percentDecode v)
    | none => do return (← percentDecode pair, "")

/-- All values of a key. -/
def values (pairs : List (String × String)) (key : String) : List String :=
  (pairs.filter (·.1 = key)).map (·.2)

/-- The first value of a key. -/
def first (pairs : List (String × String)) (key : String) : Option String :=
  (pairs.find? (·.1 = key)).map (·.2)

/-! ## Predicates -/

def parseOp : String → Except String PredicateOp
  | "ge" => .ok .ge
  | "le" => .ok .le
  | "gt" => .ok .gt
  | "lt" => .ok .lt
  | "eq" => .ok .eq
  | other => .error ("unknown predicate op: " ++ other)

/-- A bound that reads as an integer is one. -/
def parseBound (bound : String) : Value :=
  match parseI64 bound with
  | some n => .ofI64 (Int64.ofInt n)
  | none => .string bound

def parseLine (line : String) : Except String PredicateRequest :=
  match split ':' line with
  | category :: field :: op :: bound :: rest => do
    return { category, field, op := ← parseOp op, bound := parseBound bound, scaleVersion := rest.head? }
  | _ => .error ("predicate needs <category>:<field>:<op>:<bound>: " ++ line)

/-- The first line that is not a predicate is the error. -/
def parsePredicates (text : String) : Except String (List PredicateRequest) :=
  (((lines text).map trim).filter (· ≠ "")).mapM parseLine

end AionTrust.Impl
