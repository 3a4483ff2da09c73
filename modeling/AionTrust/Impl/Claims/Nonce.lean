import Mathlib.Logic.Function.Basic
import AionTrust.Impl.Claims.Presentation

/-!
# Single-use nonces

A verifier's memory of the nonces of presentations it has accepted
(`NonceStore`), with the reference store in memory. The entry point a
verifier calls (`verifyPresentationWithStore`) reads the store, verifies, and
records the nonce when the presentation is accepted.
-/

namespace AionTrust.Impl

/-- `trait NonceStore`, keyed by an audience and a nonce. -/
class NonceStore (S : Type) where
  seen : S → Did → String → Bool
  record : S → Did → String → Timestamp → S

/-- The expiry of the presentation that consumed each audience and nonce. -/
structure InMemoryNonceStore where
  seen : Did × String → Option Timestamp

namespace InMemoryNonceStore

def new : InMemoryNonceStore := ⟨fun _ => none⟩

/-- Drops every nonce whose presentation has expired. -/
def evictExpired (s : InMemoryNonceStore) (now : Timestamp) : InMemoryNonceStore :=
  ⟨fun key => (s.seen key).filter fun expiresAt => decide (now ≤ expiresAt)⟩

instance : NonceStore InMemoryNonceStore where
  seen s audience nonce := (s.seen (audience, nonce)).isSome
  record s audience nonce expiresAt := ⟨Function.update s.seen (audience, nonce) (some expiresAt)⟩

end InMemoryNonceStore

/-- The report, and the store after the call. -/
def verifyPresentationWithStore [External] {S : Type} [NonceStore S] (p : Presentation)
    (audience : Did) (now : Timestamp) (anchor : TrustAnchor) (store : S)
    (predicates : List PredicateRequest) : Except TrustError VerificationReport × S :=
  let alreadySeen := NonceStore.seen store audience p.nonce
  match verifyPresentationWithPredicates p audience now anchor alreadySeen predicates with
  | .error e => (.error e, store)
  | .ok report =>
    (.ok report,
      if report.accepted then NonceStore.record store audience p.nonce p.expiresAt else store)

end AionTrust.Impl
