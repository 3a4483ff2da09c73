import AionTrust.Framework.Machine
import AionTrust.Impl.Claims.Nonce

/-!
# Single use

A verifier and its store as a machine over the calls made of them
(`storeMachine`). A run is of single use (`SingleUse`) when no two of its calls
accept presentations of one signed message (`SameSigned`). A nonce may be
spelled in more than one way, its hex digits being of either case; `OneSpelling`
says of the calls that no message comes in two spellings.

`verifierMachine` is a verifier with any store, which is never evicted. The
calls of a run are `Timely` when no verification comes before a call in time,
and have `OneExpiry` when no nonce comes with two.
-/

namespace AionTrust.Spec

open AionTrust.Impl

variable [External]

/-- A call of the verifier, or of the store's eviction. -/
inductive StoreCall where
  | evict (now : Timestamp)
  | verify (p : Presentation) (audience : Did) (now : Timestamp) (anchor : TrustAnchor)
      (predicates : List PredicateRequest)

/-- The time a call is given. -/
def StoreCall.time : StoreCall → Timestamp
  | evict now => now
  | verify _ _ now _ _ => now

/-- The store under the calls; a call of the verifier answers its report. -/
def storeMachine : Framework.Machine InMemoryNonceStore StoreCall
    (Option (Except TrustError VerificationReport)) where
  step
    | s, .evict now => (s.evictExpired now, none)
    | s, .verify p audience now anchor predicates =>
      let (report, s) := verifyPresentationWithStore p audience now anchor s predicates
      (s, some report)

/-- A call that accepted a presentation. -/
def Accepts (p : Presentation) (x : StoreCall × Option (Except TrustError VerificationReport)) : Prop :=
  ∃ audience now anchor predicates report,
    x = (.verify p audience now anchor predicates, some (.ok report)) ∧ report.accepted = true

/-- Two presentations carry one signed message: the same fields, and nonces of
the same bytes. -/
structure SameSigned (p q : Presentation) : Prop where
  subjectId : p.subjectId = q.subjectId
  audience : p.audience = q.audience
  purpose : p.purpose = q.purpose
  nonce : ∃ nonce, fromHex p.nonce = .ok nonce ∧ fromHex q.nonce = .ok nonce
  issuedAt : p.issuedAt = q.issuedAt
  expiresAt : p.expiresAt = q.expiresAt
  claimIds : p.claims.map (·.claimId) = q.claims.map (·.claimId)

/-- No two calls of a run accept one signed message. -/
def SingleUse (trace : List (StoreCall × Option (Except TrustError VerificationReport))) : Prop :=
  trace.Pairwise fun x y => ∀ p q, Accepts p x → Accepts q y → ¬ SameSigned p q

/-- The presentation a call is given. -/
def StoreCall.presentation : StoreCall → Option Presentation
  | evict _ => none
  | verify p _ _ _ _ => some p

/-- No two calls are given one signed message with its nonce spelled in two
ways. -/
def OneSpelling (calls : List StoreCall) : Prop :=
  calls.Pairwise fun a b => ∀ p q, a.presentation = some p → b.presentation = some q →
    SameSigned p q → p.nonce = q.nonce

/-! ## Verifiers with any store -/

/-- A call of the verifier. -/
structure VerifyCall where
  p : Presentation
  audience : Did
  now : Timestamp
  anchor : TrustAnchor
  predicates : List PredicateRequest

/-- The verifier with a store that is only read and recorded in. -/
def verifierMachine (S : Type) [NonceStore S] :
    Framework.Machine S VerifyCall (Except TrustError VerificationReport) where
  step s call :=
    let (report, s) := verifyPresentationWithStore call.p call.audience call.now call.anchor s
      call.predicates
    (s, report)

/-- The call of the verifier a call is, if it is one. -/
def StoreCall.verification : StoreCall → Option VerifyCall
  | evict _ => none
  | verify p audience now anchor predicates => some { p, audience, now, anchor, predicates }

/-- What a call decides: the error, or whether it accepts and whether it is
amber. -/
def verdict (report : Except TrustError VerificationReport) : Except TrustError (Bool × Bool) :=
  report.map fun r => (r.accepted, r.amber)

/-- No verification is earlier than a call before it. -/
def Timely (calls : List StoreCall) : Prop :=
  calls.Pairwise fun a b => ∀ call, b.verification = some call → a.time ≤ call.now

/-- Presentations with one audience and one nonce expire together. -/
def OneExpiry (calls : List StoreCall) : Prop :=
  ∀ a ∈ calls, ∀ b ∈ calls, ∀ p q, a.presentation = some p → b.presentation = some q →
    p.audience = q.audience → p.nonce = q.nonce → p.expiresAt = q.expiresAt

end AionTrust.Spec
