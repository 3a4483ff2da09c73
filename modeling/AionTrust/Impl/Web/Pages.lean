import AionTrust.Impl.Web.Walkthrough

/-!
# The demo's pages

The HTML of the three surfaces. A page is a body in the shell they share
(`View.page`); the body shows the world it is written in, under what the
handler had to say (`Page.html`). Every text that is not the program's own goes
through `esc`.
-/

namespace AionTrust.Impl

namespace View

/-- The five surfaces in the order of the navigation: path and label. -/
def surfaces : List (String × String) :=
  [("/", "Home"), ("/issuer", "Issuer"), ("/wallet", "Wallet"), ("/verify", "Verify"),
    ("/walkthrough", "Walkthrough")]

/-- A link of the navigation. -/
def link (active : String) : String × String → String
  | (path, label) =>
    let cls := if path = active then "active" else ""
    r#"<a class=""# ++ cls ++ r#"" href=""# ++ path ++ r#"">"# ++ label ++ "</a>"

/-- A body in the shell; `active` is the path of its surface. -/
def page (title active body : String) : String :=
  let nav := String.join (surfaces.map (link active))
  r#"<!doctype html><html lang="en"><head>
<meta charset="utf-8"><meta name="viewport" content="width=device-width, initial-scale=1">
<title>aion-trust · "# ++ esc title ++ r##"</title>
<meta name="description" content="The verifiable résumé: every fact attested once at its source, signed, and verifiable by anyone offline. Issuer console, candidate wallet, and employer verifier.">
<meta name="theme-color" content="#f4f7f3">
<link rel="icon" href="/favicon.svg" type="image/svg+xml">
<link rel="preconnect" href="https://fonts.googleapis.com">
<link rel="preconnect" href="https://fonts.gstatic.com" crossorigin>
<link href="https://fonts.googleapis.com/css2?family=Libre+Caslon+Display&family=Libre+Caslon+Text:ital,wght@0,400;0,700;1,400&family=Hanken+Grotesk:wght@400;500;600;700&family=Spline+Sans+Mono:wght@400;500&display=swap" rel="stylesheet">
<link rel="stylesheet" href="/app.css">
</head><body>
<header class="top"><a class="brand" href="/"><img src="/favicon.svg" alt=""><span>aion<span class="dot">·</span>trust</span></a><nav class="surfaces">"## ++
    nav ++ r#"</nav></header>
<main class="wrap">"# ++ body ++ r#"</main>
<footer class="motto">Do the work once. Prove it forever.</footer>
</body></html>"#

/-- A check as a row. -/
def checkRow (check : Check) : String :=
  let (cls, mark) := if check.passed then ("is-valid", "✓") else ("is-invalid", "✗")
  let detail := if check.detail = "" then "" else r#"<span class="detail">"# ++ esc check.detail ++ "</span>"
  r#"<div class="check-row "# ++ cls ++ r#""><span class="mark">"# ++ mark ++ r#"</span><span class="name">"# ++
    esc check.name ++ "</span>" ++ detail ++ "</div>"

def verdict (accepted : Bool) : String :=
  if accepted then r#"<div class="verdict accepted">ACCEPTED</div>"#
  else r#"<div class="verdict rejected">REJECTED</div>"#

/-- A message that is HTML already. -/
def ok (msg : String) : String :=
  r#"<div class="notice"><span class="badge ok">ok</span> "# ++ msg ++ "</div>"

def warn (msg : String) : String :=
  r#"<div class="notice"><span class="badge bad">error</span> "# ++ esc msg ++ "</div>"

/-- What a handler had to say. -/
def flash : Except String String → String
  | .ok msg => ok msg
  | .error e => warn e

/-- A message that is HTML already. -/
def notice (msg : String) : String := r#"<div class="notice">"# ++ msg ++ "</div>"

def busy : String := r#"<div class="notice">The demo state is busy — please retry.</div>"#

def errorBlock (msg : String) : String :=
  r#"<div class="panel"><div class="verdict rejected">REJECTED</div><p class="lede">"# ++ esc msg ++ "</p></div>"

end View

variable [External]

def AppState.label (app : AppState) (id : String) : String := (app.claimLabels id).getD ""

/-! ## The issuer console -/

namespace View

def standingRow (app : AppState) (s : IssuerSlot) : String :=
  let cat := s.categories.head?.getD ""
  let st := app.registry.standing s.identity.did cat
  let badge :=
    if st.accredited then r#"<span class="badge ok">accredited</span>"#
    else r#"<span class="badge warn">self-asserted</span>"#
  "<tr><td>" ++ esc s.label ++ "</td><td>" ++ esc cat ++ r#"</td><td class="mono">"# ++
    esc s.identity.did.asStr ++ "</td><td>" ++ badge ++ "</td></tr>"

def claimRow (app : AppState) (c : Claim) : String :=
  let id := c.claimId.asStr
  let revoked := decide ((app.registry.ledgerRecord id).status = .revoked)
  let (badge, action) :=
    if revoked then (r#"<span class="badge bad">revoked</span>"#, "")
    else (r#"<span class="badge ok">issued</span>"#,
      r#"<form method="post" action="/issuer/revoke"><input type="hidden" name="claim_id" value=""# ++ esc id ++
        r#""><button class="button danger" type="submit">Revoke</button></form>"#)
  "<tr><td>" ++ esc (app.label id) ++ r#"<br><span class="mono">"# ++ esc id ++ "</span></td><td>" ++
    esc c.category ++ "</td><td>" ++ badge ++ "</td><td>" ++ action ++ "</td></tr>"

/-- One form for each category of the demo. -/
def issueForms : String :=
  r#"<div class="grid">
<form class="stack panel" method="post" action="/issuer/issue"><h3>Issue employment</h3>
<input type="hidden" name="category" value="employment">
<label class="field">Employer<input type="text" name="employer" value="Acme Corp"></label>
<label class="field">Title<input type="text" name="title" value="Staff Engineer"></label>
<label class="field">Start<input type="text" name="start" value="2024-09-01"></label>
<label class="checks-inline"><input type="checkbox" name="rehire_eligible" value="on" checked> rehire eligible</label>
<button class="button" type="submit">Issue →</button></form>
<form class="stack panel" method="post" action="/issuer/issue"><h3>Issue education</h3>
<input type="hidden" name="category" value="education">
<label class="field">Institution<input type="text" name="institution" value="State University"></label>
<label class="field">Credential<input type="text" name="credential" value="B.S. Computer Science"></label>
<label class="field">Conferred<input type="text" name="conferred" value="2019-05-20"></label>
<label class="field">Degree rank (0–5)<input type="number" name="degree_rank" value="3"></label>
<button class="button" type="submit">Issue →</button></form>
<form class="stack panel" method="post" action="/issuer/issue"><h3>Issue background check</h3>
<input type="hidden" name="category" value="background_check">
<label class="field">Provider<input type="text" name="provider" value="TrustScreen"></label>
<label class="field">Scope (comma-separated)<input type="text" name="scope" value="criminal,identity"></label>
<label class="field">Result<input type="text" name="result" value="clear"></label>
<label class="field">Performed<input type="text" name="performed" value="2026-05-10"></label>
<button class="button" type="submit">Issue →</button></form></div>"#

/-- `order` is the order the map of issuers iterates in. -/
def issuerBody (app : AppState) (order : List String) (head : String) : String :=
  let slots := (order.filterMap app.issuers).mergeSort fun a b => decide (a.label ≤ b.label)
  let standings := String.join (slots.map (standingRow app))
  let rows := String.join (app.wallet.claims.map (claimRow app))
  head ++ r#"<p class="kicker">issuer · console</p><h1>Issue & revoke claims</h1>
<div class="panel"><h2>Registered issuers · epoch "# ++ toString app.epoch.toNat ++ r#"</h2>
<table><thead><tr><th>issuer</th><th>category</th><th>did</th><th>standing</th></tr></thead><tbody>"# ++ standings ++
    r#"</tbody></table>
<form method="post" action="/issuer/advance-epoch" style="margin-top:1rem"><button class="button ghost" type="submit">Advance epoch →</button></form></div>
"# ++ issueForms ++ r#"
<div class="panel"><h2>Issued claims (in the candidate's wallet)</h2>
<table><thead><tr><th>claim</th><th>category</th><th>status</th><th></th></tr></thead><tbody>"# ++ rows ++
    "</tbody></table></div>"

/-! ## The candidate's wallet -/

def checkItem (app : AppState) (c : Claim) : String :=
  let id := c.claimId.asStr
  r#"<label class="checks-inline"><input type="checkbox" name="claim" value=""# ++ esc id ++ r#"" checked> "# ++
    esc (app.label id) ++ r#" <span class="mono">"# ++ esc c.category ++ "</span></label>"

def fieldBox (k : String) : String :=
  r#"<label class="checks-inline"><input type="checkbox" name="field" value=""# ++ esc k ++ r#""> "# ++ esc k ++
    "</label>"

/-- A claim with a form to disclose some of its fields. -/
def claimBlock (app : AppState) (c : Claim) : String :=
  let id := c.claimId.asStr
  let keys := (ClaimBody.fieldKeysForCategory c.category).getD []
  let boxes := String.join (keys.map fieldBox)
  r#"<form class="stack panel" method="post" action="/wallet/disclose">
<h3>"# ++ esc (app.label id) ++ r#"</h3><p class="mono">"# ++ esc c.category ++ " · " ++ esc id ++ r#"</p>
<input type="hidden" name="claim" value=""# ++ esc id ++ r#"">
"# ++ boxes ++ r#"
<button class="button ghost" type="submit">Present selected fields →</button></form>"#

def pendingNotice (p : Presentation) : String :=
  r#"<div class="notice">Pending presentation: "# ++ toString p.claims.length ++ " claim(s) for <code>" ++
    esc p.audience.asStr ++ r#"</code>. <a href="/verify">Verify →</a></div>"#

def walletBody (app : AppState) (head : String) : String :=
  let pending := app.lastPresentation.elim "" pendingNotice
  let cards := String.join (app.wallet.claims.map (claimBlock app))
  let checklist := String.join (app.wallet.claims.map (checkItem app))
  head ++ pending ++ r#"<p class="kicker">candidate · wallet</p><h1>Your claims</h1>
<p class="lede">Build a presentation for the employer: full claims, a chosen subset of fields, or a predicate proof that reveals only the minimum.</p>
<form class="stack panel" method="post" action="/wallet/present"><h2>Present full claims</h2>
"# ++ checklist ++ r#"
<label class="field">Purpose<input type="text" name="purpose" value="application:senior-engineer"></label>
<button class="button" type="submit">Build full presentation →</button></form>
<div class="panel"><h2>Predicate proof (minimal disclosure)</h2>
<form class="stack" method="post" action="/wallet/satisfy">
<label class="field">Predicates (one per line: <code>category:field:op:bound</code>)
<textarea name="predicates" rows="2">education:degree_rank:ge:3</textarea></label>
<button class="button amber" type="submit">Prove predicates →</button></form>
<p class="lede">Reveals only the coarse, issuer-attested attribute that answers the question — data minimization, not zero-knowledge.</p></div>
<h2>Per-claim selective disclosure</h2>
<div class="grid">"# ++ cards ++ "</div>"

/-! ## The employer's verifier -/

def keyBadge (k : String) : String := r#"<span class="badge warn">"# ++ esc k ++ "</span> "

def disclosedRow (c : DisclosedClaim) : String :=
  let keys := String.join ((c.fields.map (·.key)).map keyBadge)
  "<tr><td>" ++ esc c.category ++ r#"</td><td class="mono">"# ++ esc c.claimId.asStr ++ "</td><td>" ++ keys ++
    "</td></tr>"

def verifyBody (app : AppState) (head : String) : String :=
  match app.lastPresentation with
  | none =>
    head ++ r#"<p class="kicker">employer · verifier</p><h1>Verify a presentation</h1>
"# ++ notice r#"No presentation submitted yet. Open the <a href="/wallet">candidate wallet</a> and build one."#
  | some p =>
    let claims := String.join (p.claims.map disclosedRow)
    head ++ r#"<p class="kicker">employer · verifier</p><h1>Verify a presentation</h1>
<div class="panel"><h2>Pending presentation</h2>
<p class="lede">Purpose <code>"# ++ esc p.purpose ++ "</code> · audience <code>" ++ esc p.audience.asStr ++
      "</code> · " ++ toString p.claims.length ++ r#" claim(s)</p>
<table><thead><tr><th>category</th><th>claim id</th><th>disclosed fields</th></tr></thead><tbody>"# ++ claims ++
      r#"</tbody></table></div>
<form class="stack panel" method="post" action="/verify/run">
<label class="field">Required predicates (optional, one per line: <code>category:field:op:bound</code>)
<textarea name="predicates" rows="2" placeholder="education:degree_rank:ge:3"></textarea></label>
<button class="button" type="submit">Verify presentation</button></form>"#

def reportPanel (report : VerificationReport) : String :=
  let rows := String.join (report.checks.map checkRow)
  r#"<div class="panel"><h2>Verification report</h2>"# ++ rows ++ verdict report.accepted ++ "</div>"

end View

/-! ## Answers -/

/-- The surfaces that requests are posted to. -/
inductive Surface where
  | issuer
  | wallet
  | verify
  deriving DecidableEq

def Surface.page : Surface → String → String
  | issuer => View.page "Issuer" "/issuer"
  | wallet => View.page "Wallet" "/wallet"
  | verify => View.page "Verify" "/verify"

def Surface.body (app : AppState) (order : List String) : Surface → String → String
  | issuer => View.issuerBody app order
  | wallet => View.walletBody app
  | verify => View.verifyBody app

/-- The pages that are read. -/
def Surface.read (world : Option AppState) (order : List String) (s : Surface) : String :=
  s.page (world.elim View.busy fun app => s.body app order "")

def Request.surface : Request → Surface
  | .issue .. | .revoke _ | .advanceEpoch => .issuer
  | .present .. | .disclose .. | .satisfy .. => .wallet
  | .run .. => .verify

/-- `disclose` has no claim to disclose, and shows no world. -/
def Request.lacksClaim : Request → Bool
  | .disclose body .. =>
    match formPairs body with
    | .ok pairs => (first pairs "claim").isNone
    | .error _ => false
  | _ => false

/-- What an answer says above the world it shows. -/
def Page.head : Page → String
  | busy | redirect | panicked _ => ""
  | issuer f | wallet f => View.flash f
  | notice message => View.notice message
  | error message => View.errorBlock message
  | report _ r => View.reportPanel r

/-- The page an answer is sent as, in the world it leaves; a redirect and a
panic send none. -/
def Page.html (request : Request) (world : Option AppState) (order : List String) (page : Page) : Option String :=
  match page with
  | .redirect | .panicked _ => none
  | .busy => some (request.surface.page View.busy)
  | page =>
    if request.lacksClaim then some (request.surface.page page.head)
    else world.map fun app => request.surface.page (request.surface.body app order page.head)

/-- The `n`-th act of a walkthrough, as the page's script puts it on the stage. -/
def Event.html (n : Nat) : Event → Option String
  | .act title detail _ => some (r#"<span class="num">"# ++ toString n ++ r#"</span><div class="title">"# ++ title ++
      r#"</div><div class="body">"# ++ detail ++ "</div>")
  | .done => none

end AionTrust.Impl
