import AionTrust.Framework.Machine
import AionTrust.Impl.Web.Handlers

/-!
# What the demo promises

The demo as a machine over posted forms (`demoMachine`). A run of it is safe
(`Safe`) when a claim once revoked is never in a presentation that is accepted,
and a presentation has to be built between any two that are.
-/

namespace AionTrust.Spec

open AionTrust.Impl

variable [External]

/-- The world under the forms posted to it, gone once its lock is poisoned. -/
def demoMachine (overflowChecks : Bool) : Framework.Machine (Option AppState) Request Page where
  step world request := handle overflowChecks world request

def isAdvance : Request → Bool
  | .advanceEpoch => true
  | _ => false

/-- The verifier answers that it accepts a presentation. -/
def Accepted (p : Presentation) (x : Request × Page) : Prop :=
  ∃ predicates now report, x = (.run predicates now, .report p report) ∧ report.accepted = true

/-- The wallet answers that it built a presentation. -/
def Builds (x : Request × Page) : Prop := ∃ message, x.2 = .wallet (.ok message)

structure Safe (trace : List (Request × Page)) : Prop where
  revoked : trace.Pairwise fun x y => ∀ claimId, x.1 = .revoke claimId → ∀ p, Accepted p y →
    ∀ c ∈ p.claims, c.claimId.asStr ≠ claimId
  once : Framework.Machine.Separates (fun x => ∃ p, Accepted p x) Builds trace

end AionTrust.Spec
