import AionTrust.Impl.Web.Handlers

/-!
# The live walkthrough

A script resets the world, presents the first claim of the wallet, verifies it,
revokes it, and presents and verifies it again. It takes the lock for each of
these and waits between its acts, so that a script is where it stands
(`Script`): the section it runs next (`runSection`), on whatever world it then
finds. Every script shares the world with every other and with the handlers
(`Server`).
-/

namespace AionTrust.Impl

/-- An event of the stream: an act, or its end. -/
inductive Event where
  | act (title detail tone : String)
  | done
  deriving DecidableEq

/-- `view::esc`, of a character. -/
def escChar : Char → String
  | '&' => "&amp;"
  | '<' => "&lt;"
  | '>' => "&gt;"
  | '\x22' => "&quot;"
  | '\x27' => "&#39;"
  | c => String.singleton c

def esc (s : String) : String := String.join (s.toList.map escChar)

/-- The section a script runs next, and the claim it follows. -/
inductive Script where
  | reset
  | present (claimId : String)
  | verify (claimId : String)
  | revoke (claimId : String)
  | present₂ (claimId : String)
  | verify₂ (claimId : String)
  | ended
  deriving DecidableEq

variable [External]

/-- `POST /api/reset`. -/
def reset (draws : Draws) (world : Option AppState) : Option AppState :=
  world.map fun _ => AppState.seed draws

namespace Walkthrough

/-- Presents one claim in full, or does nothing. -/
def present (claimId : String) (now : Timestamp) (n₁ n₂ : ByteVec 12) (world : Option AppState) :
    Option AppState :=
  world.map fun app =>
    match app.wallet.presentAll app.employer.did "walkthrough" [claimId] 3600 now n₁ n₂ with
    | .ok p => { app with lastPresentation := some p }
    | .error _ => app

/-- Whether the pending presentation is accepted, and a text. -/
def verify (now : Timestamp) (world : Option AppState) : Option AppState × Bool × String :=
  match world with
  | none => (none, false, "state busy")
  | some app =>
    match app.lastPresentation with
    | none => (some app, false, "no presentation")
    | some p =>
      let audience := app.employer.did
      let registry := app.registry.setEpoch app.epoch
      let (result, nonces) := verifyPresentationWithStore p audience now registry.anchor app.nonces []
      (some { app with registry, nonces },
        match result with
        | .ok report =>
          if report.accepted then
            (true, "Every check passes: authentic, accredited, unrevoked, in-window.")
          else
            let failed := (report.checks.filter fun c => !c.passed).map (·.name)
            (false, "Rejected — failing: " ++ ", ".intercalate failed ++ ".")
        | .error _ => (false, "verification error"))

def revoke (claimId : String) (world : Option AppState) : Option AppState :=
  world.map fun app => { app with registry := app.registry.revoke claimId app.epoch }

end Walkthrough

/-- What a section of a script may draw. -/
structure Drawn where
  draws : Draws
  now : Timestamp
  n₁ : ByteVec 12
  n₂ : ByteVec 12

/-- `run_script`, one section under the lock and the events sent before the
next. -/
def runSection (drawn : Drawn) (world : Option AppState) : Script → Option AppState × Script × List Event
  | .reset =>
    match world with
    | none => (none, .ended, [])
    | some _ =>
      let app := AppState.seed drawn.draws
      match app.wallet.claims.head? with
      | none => (some app, .ended, [])
      | some claim =>
        let claimId := claim.claimId.asStr
        (some app, .present claimId,
          [.act "Reset" "A fresh world: accredited issuers, a candidate wallet." "info",
            .act "1 · Issued" ("An accredited issuer attested a claim and handed it to the candidate. " ++
              "<span class=\"mono\">" ++ esc claimId ++ "</span>") "info"])
  | .present claimId =>
    (Walkthrough.present claimId drawn.now drawn.n₁ drawn.n₂ world, .verify claimId,
      [.act "2 · Presented" ("The candidate discloses just this claim to the employer — " ++
        "audience-bound, single-use, expiring.") "info"])
  | .verify claimId =>
    let (world, accepted, detail) := Walkthrough.verify drawn.now world
    (world, .revoke claimId,
      [.act (if accepted then "3 · Verified — ACCEPTED" else "3 · Verified") detail
        (if accepted then "ok" else "bad")])
  | .revoke claimId =>
    (Walkthrough.revoke claimId world, .present₂ claimId,
      [.act "4 · Revoked" ("The issuer withdraws the claim on the registry. Nothing about the person " ++
        "changes — only its standing.") "warn"])
  -- a fresh nonce
  | .present₂ claimId =>
    (Walkthrough.present claimId drawn.now drawn.n₁ drawn.n₂ world, .verify₂ claimId, [])
  | .verify₂ _ =>
    let (world, accepted, detail) := Walkthrough.verify drawn.now world
    (world, .ended,
      [.act (if accepted then "5 · Re-verified" else "5 · Re-verified — REJECTED") detail
        (if accepted then "ok" else "bad"), .done])
  | .ended => (world, .ended, [])

/-- The world, and where every script stands. -/
structure Server where
  world : Option AppState
  scripts : Nat → Script

end AionTrust.Impl
