import AionTrust.Framework.Outline
import AionTrust.Impl.Web.Pages
import AionTrust.Spec.Forms
import AionTrust.Spec.Holder
import AionTrust.Spec.Web

/-!
# What a browser makes of the pages

A page that is served (`Served`) is read as HTML. It is harmless when it has no
tag, attribute or address but the program's own (`harmless`); an act of the
walkthrough has these tags, and no other (`actTags`); how a page is laid out
(`LaidOut`) is numbers and booleans; a wallet page has these forms
(`walletForms`); and a page shows a report when it can be read back from its
rows (`readReport`).
-/

namespace AionTrust.Spec

open AionTrust.Impl
open Framework.Markup (Node Form)

/-! ## Harmless pages -/

/-- Tags that show text and take input. -/
def plainTags : List String :=
  ["html", "head", "meta", "title", "link", "body", "header", "nav", "main", "footer", "a", "img", "div", "span", "p",
    "h1", "h2", "h3", "br", "code", "table", "thead", "tbody", "tr", "th", "td", "form", "label", "input", "textarea",
    "button"]

/-- Attributes that a value of cannot do anything with. -/
def plainAttrs : List String :=
  ["lang", "charset", "name", "content", "rel", "type", "crossorigin", "class", "alt", "method", "value", "checked",
    "rows", "placeholder"]

/-- Attributes that lead somewhere or lay out the page, and the values the
program has for them. -/
def ownValues : List (String × List String) :=
  [("href", ["/", "/issuer", "/wallet", "/verify", "/walkthrough", "/favicon.svg", "/app.css",
      "https://fonts.googleapis.com", "https://fonts.gstatic.com",
      "https://fonts.googleapis.com/css2?family=Libre+Caslon+Display&family=Libre+Caslon+Text:ital,wght@0,400;0,700;1,400&family=Hanken+Grotesk:wght@400;500;600;700&family=Spline+Sans+Mono:wght@400;500&display=swap"]),
    ("src", ["/favicon.svg"]),
    ("action", ["/issuer/issue", "/issuer/revoke", "/issuer/advance-epoch", "/wallet/present", "/wallet/disclose",
      "/wallet/satisfy", "/verify/run"]),
    ("style", ["margin-top:1rem"])]

def harmlessAttr : String × String → Bool
  | (a, v) => plainAttrs.contains a || ((ownValues.lookup a).getD []).contains v

def harmless : Node → Bool
  | .start tag attrs => plainTags.contains tag && attrs.all harmlessAttr
  | _ => true

/-! ## Acts -/

/-- The tags of an act: around its number, its title, and a body. -/
def actTags (body : List Node) : List Node :=
  [.start "span" [("class", "num")], .stop "span", .start "div" [("class", "title")], .stop "div",
    .start "div" [("class", "body")]] ++ body ++ [.stop "div"]

/-- The tags in a body: none, or those around the identifier of a claim. -/
def bodyTags : List (List Node) := [[], [.start "span" [("class", "mono")], .stop "span"]]

/-! ## Served pages -/

variable [External]

/-- A page that is sent for a surface: read, or answering a form posted to some
world; and the world it was sent in. -/
inductive Served (overflowChecks : Bool) : Surface → Option AppState → String → Prop
  | read (s : Surface) (world : Option AppState) (order : List String) :
      Served overflowChecks s world (s.read world order)
  | answered {world : Option AppState} {request : Request} {order : List String} {html : String}
      (h : (handle overflowChecks world request).2.html request (handle overflowChecks world request).1 order =
        some html) :
      Served overflowChecks request.surface (handle overflowChecks world request).1 html

/-! ## Layouts -/

/-- What a surface's body lays out of the world. -/
inductive Layout where
  /-- The issuers, accredited or not, and the claims, revoked or not. -/
  | issuer (accredited revoked : List Bool)
  /-- Whether a presentation is pending, and how many fields each claim has. -/
  | wallet (pending : Bool) (fields : List ℕ)
  /-- How many fields each claim of a pending presentation shows. -/
  | verify (disclosed : Option (List ℕ))
  deriving DecidableEq

/-- What is above the body. -/
inductive HeadLayout where
  | nothing
  | busy
  | issued
  | built
  | warning
  | notice
  | error
  /-- For each check whether it has passed and whether it has a detail, and the verdict. -/
  | report (rows : List (Bool × Bool)) (accepted : Bool)
  deriving DecidableEq

def accredited (app : AppState) (s : IssuerSlot) : Bool :=
  (app.registry.standing s.identity.did (s.categories.head?.getD "")).accredited

def revoked (app : AppState) (c : Claim) : Bool :=
  decide ((app.registry.ledgerRecord c.claimId.asStr).status = .revoked)

/-- `order` is the order the map of issuers iterates in. -/
def bodyLayout (app : AppState) (order : List String) : Surface → Layout
  | .issuer =>
    let slots := (order.filterMap app.issuers).mergeSort fun a b => decide (a.label ≤ b.label)
    .issuer (slots.map (accredited app)) (app.wallet.claims.map (revoked app))
  | .wallet => .wallet app.lastPresentation.isSome (app.wallet.claims.map fun c => (fieldKeys c).length)
  | .verify => .verify (app.lastPresentation.map fun p => p.claims.map fun c => c.fields.length)

def headLayout : Page → HeadLayout
  | .redirect | .panicked _ => .nothing
  | .busy => .busy
  | .issuer (.ok _) => .issued
  | .wallet (.ok _) => .built
  | .issuer (.error _) | .wallet (.error _) => .warning
  | .notice _ => .notice
  | .error _ => .error
  | .report _ r => .report (r.checks.map fun c => (c.passed, decide (c.detail ≠ ""))) r.accepted

/-- The world an answer shows. -/
def worldShown (request : Request) (world : Option AppState) : Page → Option AppState
  | .busy => none
  | _ => if request.lacksClaim then none else world

/-- A page that is sent for a surface, and how it is laid out: its head, and its
body if it has one. -/
inductive LaidOut (overflowChecks : Bool) : Surface → HeadLayout → Option Layout → String → Prop
  | read (s : Surface) (world : Option AppState) (order : List String) :
      LaidOut overflowChecks s (if world.isSome then .nothing else .busy) (world.map fun app => bodyLayout app order s)
        (s.read world order)
  | answered {world : Option AppState} {request : Request} {order : List String} {html : String}
      (h : (handle overflowChecks world request).2.html request (handle overflowChecks world request).1 order =
        some html) :
      LaidOut overflowChecks request.surface (headLayout (handle overflowChecks world request).2)
        ((worldShown request (handle overflowChecks world request).1 (handle overflowChecks world request).2).map
          fun app => bodyLayout app order request.surface) html

/-! ## Forms -/

/-- A box for each claim, and a purpose. -/
def presentForm (claims : List Claim) : Form where
  method := "post"
  action := "/wallet/present"
  controls := (claims.map fun c => ⟨"checkbox", "claim", c.claimId.asStr⟩) ++
    [⟨"text", "purpose", "application:senior-engineer"⟩]

def satisfyForm : Form where
  method := "post"
  action := "/wallet/satisfy"
  controls := [⟨"textarea", "predicates", ""⟩]

/-- A claim, and a box for each field of its category. -/
def discloseForm (c : Claim) : Form where
  method := "post"
  action := "/wallet/disclose"
  controls := ⟨"hidden", "claim", c.claimId.asStr⟩ :: (fieldKeys c).map fun k => ⟨"checkbox", "field", k⟩

def walletForms (claims : List Claim) : List Form := presentForm claims :: satisfyForm :: claims.map discloseForm

/-- A presentation for the employer, with a purpose, for a week. -/
structure BuiltFor (app : AppState) (purpose : String) (now : Timestamp) (p : Presentation) : Prop where
  subject : p.subjectId = app.wallet.did
  audience : p.audience = app.employer.did
  purpose_eq : p.purpose = purpose
  issued : p.issuedAt = now
  expires : p.expiresAt = now.plusSeconds defaultTtl

/-- A disclosure of the held claim of an id, in full. -/
def ShowsHeld (w : Wallet) (claimId : String) (d : DisclosedClaim) : Prop :=
  ∃ c, w.claim claimId = some c ∧ Shows c (fieldKeys c) d

/-! ## Reports -/

/-- What a text is part of. -/
inductive Cell where
  | outside
  | name
  | detail
  deriving DecidableEq

/-- What was read of a report: its rows and its verdicts, the last first. -/
structure ReportReader where
  rows : List Check := []
  verdicts : List Bool := []
  cell : Cell := .outside

namespace ReportReader

def addRow (r : ReportReader) (passed : Bool) : ReportReader := { r with rows := ⟨"", passed, ""⟩ :: r.rows }

def addVerdict (r : ReportReader) (accepted : Bool) : ReportReader := { r with verdicts := accepted :: r.verdicts }

/-- A character of the last row. -/
def addText (r : ReportReader) (c : Char) : ReportReader :=
  match r.cell, r.rows with
  | .name, row :: rows => { r with rows := { row with name := row.name.push c } :: rows }
  | .detail, row :: rows => { r with rows := { row with detail := row.detail.push c } :: rows }
  | _, _ => r

def read (r : ReportReader) : Node → ReportReader
  | .start "div" [("class", "check-row is-valid")] => r.addRow true
  | .start "div" [("class", "check-row is-invalid")] => r.addRow false
  | .start "div" [("class", "verdict accepted")] => r.addVerdict true
  | .start "div" [("class", "verdict rejected")] => r.addVerdict false
  | .start "span" [("class", "name")] => { r with cell := .name }
  | .start "span" [("class", "detail")] => { r with cell := .detail }
  | .stop "span" => { r with cell := .outside }
  | .text c => r.addText c
  | _ => r

end ReportReader

/-- The checks and the verdicts a page shows. -/
def readReport (ns : List Node) : List Check × List Bool :=
  let r := ns.foldl ReportReader.read {}
  (r.rows.reverse, r.verdicts.reverse)

/-- The checks and the verdicts an answer is to show. -/
def reported : Page → List Check × List Bool
  | .error _ => ([], [false])
  | .report _ report => (report.checks, [report.accepted])
  | _ => ([], [])

end AionTrust.Spec
