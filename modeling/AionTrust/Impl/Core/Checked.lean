import AionTrust.Framework.Fallible
import AionTrust.Impl.Core.Merkle

/-!
# The recursion, checked

`mth`, `path` and `root_from_path` as they run on slices and machine integers:
a cut past the end of a slice or a subtraction below zero is a panic. Each call
also checks what it may be called with, a leaf and an index in range, and that
it is not nested deeper than a limit (`CallFault`).
-/

namespace AionTrust.Impl

open Framework (ensure)

inductive CallFault where
  /-- A call on no leaves. -/
  | emptySlice
  /-- A call for a leaf that is not there. -/
  | indexOutOfRange
  /-- `split_at` past the end. -/
  | splitAt
  /-- A subtraction of a larger number. -/
  | underflow
  /-- A call nested too deep. -/
  | depth
  deriving DecidableEq

namespace Checked

/-- `split_at`. -/
def splitAt (leaves : List Digest) (mid : Nat) : Except CallFault (List Digest × List Digest) := do
  ensure (mid ≤ leaves.length) .splitAt
  return (leaves.take mid, leaves.drop mid)

def sub (a b : Nat) : Except CallFault Nat := do
  ensure (b ≤ a) .underflow
  return a - b

variable [External]

def mth : Nat → List Digest → Except CallFault Digest
  | 0, _ => .error .depth
  | limit + 1, leaves => do
    ensure (leaves ≠ []) .emptySlice
    match leaves with
    | [single] => return single
    | _ =>
      let (left, right) ← splitAt leaves (splitPoint leaves.length)
      return nodeHash (← mth limit left) (← mth limit right)

def path : Nat → List Digest → Nat → Except CallFault (List Digest)
  | 0, _, _ => .error .depth
  | limit + 1, leaves, index => do
    ensure (index < leaves.length) .indexOutOfRange
    if leaves.length ≤ 1 then return []
    else
      let k := splitPoint leaves.length
      let (left, right) ← splitAt leaves k
      if index < k then return (← path limit left index) ++ [← mth limit right]
      else return (← path limit right (← sub index k)) ++ [← mth limit left]

def rootFromPath (leaf : Digest) :
    Nat → Nat → Nat → List Digest → Except CallFault (Except MerkleError Digest)
  | 0, _, _, _ => .error .depth
  | limit + 1, index, count, path => do
    ensure (count ≠ 0) .emptySlice
    ensure (index < count) .indexOutOfRange
    if count = 1 then return (if path.isEmpty then .ok leaf else .error .malformedPath)
    else
      match path.getLast? with
      | none => return .error .malformedPath
      | some outer =>
        let k := splitPoint count
        if index < k then
          return (← rootFromPath leaf limit index k path.dropLast).map (nodeHash · outer)
        else
          return (← rootFromPath leaf limit (← sub index k) (← sub count k) path.dropLast).map
            (nodeHash outer ·)

end Checked

end AionTrust.Impl
