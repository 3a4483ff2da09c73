import AionTrust.Framework.Fallible
import AionTrust.Impl.Core.Language

/-!
# Errors and panics

What stops a call into the interop crate: an `InteropError`, which it returns,
or a panic of the language. The crate never returns a panic as an error, so
the two are kept apart (`Stop`). `i64` and `u32` check one operation on a
machine integer, and `slice` one `&s[i..j]`.
-/

namespace AionTrust.Impl

open Framework (ensure okOr)

inductive InteropError where
  | missingField (key : String)
  | wrongType (key : String)
  | didKey (message : String)
  | rfc3339 (message : String)
  | didBinding (expected derived : String)
  | unresolvedIssuer (issuer : String)
  | json (message : String)
  | verify (message : String)
  | trust (e : TrustError)

/-- `Display`. -/
def InteropError.text : InteropError → String
  | missingField key => "missing field: " ++ key
  | wrongType key => "wrong type for field: " ++ key
  | didKey message => "did:key: " ++ message
  | rfc3339 message => "rfc3339: " ++ message
  | didBinding expected derived => "did binding mismatch: claimed " ++ expected ++ ", key derives " ++ derived
  | unresolvedIssuer issuer => "could not resolve issuer key for " ++ issuer
  | json message => "json: " ++ message
  | verify message => "verification failed: " ++ message
  | trust e => e.text

inductive Stop where
  | error (e : InteropError)
  | panic (p : Panic)

abbrev Run : Type → Type := Except Stop

/-- The result of an operation on `i64`, where it fits. -/
def i64 (n : Int) : Run Int := ensure (-2 ^ 63 ≤ n ∧ n < 2 ^ 63) (.panic .overflow) >>= fun _ => .ok n

/-- The result of an operation on `u32`, where it fits. -/
def u32 (n : Nat) : Run Nat := ensure (n < 2 ^ 32) (.panic .overflow) >>= fun _ => .ok n

/-- `&s[i..j]`, `i` at most `j`. -/
def slice (s : String) (i j : Nat) : Run String :=
  if h : (⟨i⟩ : String.Pos.Raw).IsValid s ∧ (⟨j⟩ : String.Pos.Raw).IsValid s then
    .ok (s.extract (s.pos _ h.1) (s.pos _ h.2))
  else .error (.panic .slice)

theorem i64_eq {n : Int} (h : -2 ^ 63 ≤ n ∧ n < 2 ^ 63) : i64 n = .ok n := by
  rw [i64, Framework.ensure_true h]
  rfl

theorem u32_eq {n : Nat} (h : n < 2 ^ 32) : u32 n = .ok n := by
  rw [u32, Framework.ensure_true h]
  rfl

end AionTrust.Impl
