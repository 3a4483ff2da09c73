import AionTrust.Impl.Web.Parse
import AionTrust.Impl.Web.State

/-!
# The demo's handlers

What each posted form does to the world, under its lock, and the page it
answers with (`handle`). A panic under the lock poisons it, and every handler
then finds the world gone (`withLock`); a build without overflow checks does
not panic where the epoch overflows, it wraps (`advanceEpoch`).

A page here is what it says besides the world it shows: its notice, error or
report. `Pages` has its markup, and the pages that are only read.
-/

namespace AionTrust.Impl

open Framework (okOr)

variable [External]

/-- The answer of a handler. -/
inductive Page where
  | busy
  | redirect
  | panicked (p : Panic)
  | issuer (flash : Except String String)
  | wallet (flash : Except String String)
  | notice (message : String)
  | error (message : String)
  | report (p : Presentation) (report : VerificationReport)

/-- Runs a handler's section on the world, unless the lock is poisoned. -/
def withLock (onPoison : Page) (world : Option AppState) (f : AppState → Except Panic (AppState × Page)) :
    Option AppState × Page :=
  match world with
  | none => (none, onPoison)
  | some app =>
    match f app with
    | .ok (app, page) => (some app, page)
    | .error p => (none, .panicked p)

/-! ## The issuer console -/

structure IssueForm where
  category : String
  employer : String := ""
  title : String := ""
  start : String := ""
  «end» : String := ""
  rehireEligible : String := ""
  institution : String := ""
  credential : String := ""
  conferred : String := ""
  degreeRank : String := ""
  provider : String := ""
  scope : String := ""
  result : String := ""
  performed : String := ""

def bodyFromForm (form : IssueForm) : Except String ClaimBody :=
  match form.category with
  | "employment" => .ok (.employment {
      employer := form.employer
      title := form.title
      employmentType := "full_time"
      start := form.start
      «end» := if form.end ≠ "" then some form.end else none
      rehireEligible := form.rehireEligible == "on" })
  | "education" => .ok (.education {
      institution := form.institution
      credential := form.credential
      conferred := form.conferred
      aionEduRef := none
      degreeRank := parseU8 form.degreeRank })
  | "background_check" => .ok (.backgroundCheck {
      provider := form.provider
      scope := ((split ',' form.scope).map trim).filter (· ≠ "")
      result := if form.result = "" then "clear" else form.result
      performed := form.performed
      validUntil := none
      jurisdiction := "US"
      fcraCompliant := true })
  | other => .error ("unknown category: " ++ other)

def labelFor : String → String
  | "employment" => "Employment claim"
  | "education" => "Education claim"
  | "background_check" => "Background check"
  | _ => "Claim"

/-- Signs a claim with the issuer of its category, or the first there is, under
the salt it draws; `order` is the order the map of issuers iterates in. -/
def doIssue (app : AppState) (form : IssueForm) (order : List String) (salt : Digest) :
    Except String (AppState × String) := do
  let body ← bodyFromForm form
  let category := form.category
  let slots := order.filterMap fun key => (app.issuers key).map fun slot => (key, slot)
  let key ← okOr (((slots.find? fun (_, s) => s.categories.contains category).map (·.1)).or
    (slots.head?.map (·.1))) "no issuer configured"
  let did := app.wallet.did
  let validity : Validity := { fromTime := ⟨0⟩, untilTime := none }
  let slot ← okOr (app.issuers key) "issuer vanished"
  let claim ← (Claim.issue salt slot.identity did validity body).mapError (·.text)
  let label := labelFor category
  return ({ app with
    claimLabels := Function.update app.claimLabels claim.claimId.asStr (some label)
    wallet := app.wallet.add claim }, label)

def issue (form : IssueForm) (order : List String) (salt : Digest) (world : Option AppState) :
    Option AppState × Page :=
  withLock .busy world fun app =>
    match doIssue app form order salt with
    | .ok (app, label) => .ok (app, .issuer (.ok ("Issued “" ++ label ++ "” into the wallet.")))
    | .error e => .ok (app, .issuer (.error e))

def revoke (claimId : String) (world : Option AppState) : Option AppState × Page :=
  withLock .redirect world fun app =>
    .ok ({ app with registry := app.registry.revoke claimId app.epoch }, .redirect)

/-- `app.epoch += 1`, in a build with or without overflow checks. -/
def advanceEpoch (overflowChecks : Bool) (world : Option AppState) : Option AppState × Page :=
  withLock .redirect world fun app =>
    if overflowChecks ∧ app.epoch.toNat + 1 = 2 ^ 64 then .error .overflow
    else
      let epoch := app.epoch + 1
      .ok ({ app with epoch, registry := app.registry.setEpoch epoch }, .redirect)

/-! ## The candidate's wallet -/

/-- One week. -/
def defaultTtl : Int64 := 604800

/-- Keeps what was built for the verifier, or shows why it was not. -/
def storeOrWarn (app : AppState) (built : Except String Presentation) : AppState × Page :=
  match built with
  | .ok p =>
    ({ app with lastPresentation := some p }, .wallet (.ok ("Presentation built (" ++
      toString p.claims.length ++ " claim(s)). Go to the <a href=\"/verify\">verifier</a>.")))
  | .error e => (app, .wallet (.error e))

/-- Reads the form before the lock is taken. -/
def withPairs (body : String) (world : Option AppState)
    (f : List (String × String) → Option AppState × Page) : Option AppState × Page :=
  match formPairs body with
  | .ok pairs => f pairs
  | .error p => (world, .panicked p)

/-- The checked claims in full. -/
def present (body : String) (now : Timestamp) (n₁ n₂ : ByteVec 12) (world : Option AppState) :
    Option AppState × Page :=
  withPairs body world fun pairs =>
    let claimIds := values pairs "claim"
    let purpose := (first pairs "purpose").getD "application"
    let ttl := ((first pairs "ttl").bind parseI64).elim defaultTtl Int64.ofInt
    withLock .busy world fun app =>
      let built := app.wallet.presentAll app.employer.did purpose claimIds ttl now n₁ n₂
      .ok (storeOrWarn app (built.mapError (·.text)))

/-- The checked fields of one claim. -/
def disclose (body : String) (now : Timestamp) (n₁ n₂ : ByteVec 12) (world : Option AppState) :
    Option AppState × Page :=
  withPairs body world fun pairs =>
    match first pairs "claim" with
    | none => (world, .wallet (.error "no claim selected"))
    | some claimId =>
      let fields := values pairs "field"
      let selector := if fields.isEmpty then .all else FieldSelector.only fields
      let purpose := (first pairs "purpose").getD "application"
      withLock .busy world fun app =>
        let built := app.wallet.present app.employer.did purpose [{ claimId, fields := selector }]
          defaultTtl now n₁ n₂
        .ok (storeOrWarn app (built.mapError (·.text)))

/-- The fields that prove the predicates. -/
def satisfy (body : String) (now : Timestamp) (n₁ n₂ : ByteVec 12) (world : Option AppState) :
    Option AppState × Page :=
  withPairs body world fun pairs =>
    let text := (first pairs "predicates").getD ""
    let purpose := (first pairs "purpose").getD "application"
    match parsePredicates text with
    | .error e => withLock .busy world fun app => .ok (app, .wallet (.error e))
    | .ok reqs =>
      withLock .busy world fun app =>
        let built := app.wallet.satisfy app.employer.did purpose reqs defaultTtl now n₁ n₂
        .ok (storeOrWarn app (built.mapError (·.text)))

/-! ## The employer's verifier -/

def runVerify (app : AppState) (predicatesText : String) (now : Timestamp) : AppState × Page :=
  match app.lastPresentation with
  | none => (app, .notice "Build a presentation in the wallet first.")
  | some p =>
    match parsePredicates predicatesText with
    | .error e => (app, .error e)
    | .ok preds =>
      let audience := app.employer.did
      let registry := app.registry.setEpoch app.epoch
      let (result, nonces) := verifyPresentationWithStore p audience now registry.anchor app.nonces preds
      ({ app with registry, nonces },
        match result with
        | .ok report => .report p report
        | .error e => .error ("verification error: " ++ e.text))

def run (predicates : String) (now : Timestamp) (world : Option AppState) : Option AppState × Page :=
  withLock .busy world fun app => .ok (runVerify app predicates now)

/-! ## The routes -/

/-- A posted form, with the time it is handled at and what handling it draws. -/
inductive Request where
  | issue (form : IssueForm) (order : List String) (salt : Digest)
  | revoke (claimId : String)
  | advanceEpoch
  | present (body : String) (now : Timestamp) (n₁ n₂ : ByteVec 12)
  | disclose (body : String) (now : Timestamp) (n₁ n₂ : ByteVec 12)
  | satisfy (body : String) (now : Timestamp) (n₁ n₂ : ByteVec 12)
  | run (predicates : String) (now : Timestamp)

/-- `router`, less `/api/reset` and the pages that are read. -/
def handle (overflowChecks : Bool) (world : Option AppState) : Request → Option AppState × Page
  | .issue form order salt => issue form order salt world
  | .revoke claimId => revoke claimId world
  | .advanceEpoch => advanceEpoch overflowChecks world
  | .present body now n₁ n₂ => present body now n₁ n₂ world
  | .disclose body now n₁ n₂ => disclose body now n₁ n₂ world
  | .satisfy body now n₁ n₂ => satisfy body now n₁ n₂ world
  | .run predicates now => run predicates now world

end AionTrust.Impl
