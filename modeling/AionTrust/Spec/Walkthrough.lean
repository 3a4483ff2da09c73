import AionTrust.Framework.Machine
import AionTrust.Impl.Web.Walkthrough

/-!
# What the walkthrough promises

The demo with any number of scripts as a machine (`serverMachine`): a handler,
a reset, and a section of a script are one step each, in any order. A script's
last verdict is of a presentation of its own claim, and it is a rejection
(`Red`), in the runs that leave it alone while it is under way
(`Undisturbed`).
-/

namespace AionTrust.Spec

open AionTrust.Impl

variable [External]

/-- What takes the lock. -/
inductive Action where
  | handle (request : Request)
  | reset (draws : Draws)
  | script (i : Nat) (drawn : Drawn)

inductive Answer where
  | page (page : Page)
  | events (events : List Event)

/-- The shared world under the handlers and the scripts. -/
def serverMachine (overflowChecks : Bool) : Framework.Machine Server Action Answer where
  step s
    | .handle request =>
      let (world, page) := handle overflowChecks s.world request
      ({ s with world }, .page page)
    | .reset draws => ({ s with world := reset draws s.world }, .page .redirect)
    | .script i drawn =>
      let (world, script, events) := runSection drawn s.world (s.scripts i)
      ({ world, scripts := Function.update s.scripts i script }, .events events)

/-- The world as seeded, and no script under way. -/
def serverStart (draws : Draws) : Server where
  world := some (AppState.seed draws)
  scripts _ := .reset

omit [External] in
/-- The claim a script under way follows. -/
def follows : Script → Option String
  | .reset | .ended => none
  | .present claimId | .verify claimId | .revoke claimId | .present₂ claimId | .verify₂ claimId => some claimId

def pending (s : Server) : Option Presentation := s.world.bind (·.lastPresentation)

/-- A presentation of a claim. -/
def Presents (p : Presentation) (claimId : String) : Prop := ∃ d ∈ p.claims, d.claimId.asStr = claimId

/-- The world is seeded anew, not by script `i`. -/
def Reseeds (i : Nat) (s : Server) : Action → Prop
  | .handle _ => False
  | .reset _ => True
  | .script j _ => j ≠ i ∧ s.scripts j = .reset

/-- The epoch overflows. -/
def Overflows (s : Server) : Action → Prop
  | .handle .advanceEpoch => ∃ app, s.world = some app ∧ app.epoch.toNat + 1 = 2 ^ 64
  | _ => False

/-- While script `i` is under way a step neither seeds the world anew nor
overflows its epoch; and between its last two sections it leaves no new
presentation pending but of the claim the script follows. -/
structure Undisturbed (overflowChecks : Bool) (i : Nat) (s : Server) (a : Action) : Prop where
  seeded : follows (s.scripts i) ≠ none → ¬ Reseeds i s a
  epoch : follows (s.scripts i) ≠ none → ¬ Overflows s a
  presented : ∀ claimId, s.scripts i = .verify₂ claimId →
    ∀ p, pending ((serverMachine overflowChecks).step s a).1 = some p →
      pending s = some p ∨ Presents p claimId

/-- The last section of script `i` finds a presentation of its claim pending,
and reports that it is rejected. -/
def Red (overflowChecks : Bool) (i : Nat) (s : Server) (a : Action) : Prop :=
  ∀ claimId drawn, s.scripts i = .verify₂ claimId → a = .script i drawn →
    (∃ p, pending s = some p ∧ Presents p claimId) ∧
      ∃ detail, ((serverMachine overflowChecks).step s a).2 =
        .events [.act "5 · Re-verified — REJECTED" detail "bad", .done]

end AionTrust.Spec
