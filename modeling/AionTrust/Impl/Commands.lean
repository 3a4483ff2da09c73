import AionTrust.Impl.Files
import AionTrust.Impl.Interop.Vp

/-!
# Commands

The subcommands of the command line over the files there are: each reads the
files it names, and ends with at most one file to write, what it prints, and
an exit code (`Effect`). What a run draws is a parameter of it (`Moment`).
`serve` is the web demo, and is not a command on files.
-/

namespace AionTrust.Impl

open Framework (okOr)

/-- What a command does. -/
structure Effect where
  write : Option (String × String)
  stdout : String
  stderr : String
  exitCode : UInt8

/-- What a run draws: the time, the key of `SigningKey::generate`, and the
nonces of `generate_nonce`. -/
structure Moment [External] where
  now : Timestamp
  key : SigningKey
  draw₁ : ByteVec 12
  draw₂ : ByteVec 12
  draw₃ : ByteVec 12

structure IssueArgs where
  issuer : String
  subject : String
  employer : String
  title : String
  start : String
  «end» : Option String
  employmentType : String
  rehire : Bool
  validUntil : Option Int64
  out : Option String

/-- The body that `issue` gives its claim. -/
def IssueArgs.body (a : IssueArgs) : ClaimBody :=
  .employment {
    employer := a.employer
    title := a.title
    employmentType := a.employmentType
    start := a.start
    «end» := a.end
    rehireEligible := a.rehire }

structure IssueCheckArgs where
  issuer : String
  subject : String
  provider : String
  scope : List String
  result : String
  performed : String
  validUntil : Option String
  jurisdiction : String
  out : Option String

/-- The body that `issue_check` gives its claim. -/
def IssueCheckArgs.body (a : IssueCheckArgs) : ClaimBody :=
  .backgroundCheck {
    provider := a.provider
    scope := a.scope
    result := a.result
    performed := a.performed
    validUntil := a.validUntil
    jurisdiction := a.jurisdiction
    fcraCompliant := true }

structure PresentArgs where
  subject : String
  audience : String
  purpose : String
  claims : List String
  reveal : List String
  expiresIn : Int64
  out : Option String

structure VerifyArgs where
  presentation : String
  audience : String
  issuerKeys : List String
  nonceStore : Option String
  predicates : List String

/-- `Cmd`, its options read and defaulted. -/
inductive Cmd where
  | keygen (out : Option String)
  | issue (args : IssueArgs)
  | issueCheck (args : IssueCheckArgs)
  | present (args : PresentArgs)
  | verify (args : VerifyArgs)
  | exportVc (disclosed issuerKey : String) (out : Option String)
  | importVc (input : String) (out : Option String)
  | exportVp (presentation : String) (issuerKeys : List String) (out : Option String)
  | importVp (input : String) (out : Option String)

/-- `Display`. -/
def CommandError.text : CommandError → String
  | trust e => e.text
  | serialize message => "serialize: " ++ message
  | io message => "io: " ++ message
  | panicked _ => ""

namespace Commands

/-- `main`: an error is printed, and the exit code says so. What the runtime
prints of a panic is left out. -/
def main (r : Except CommandError Effect) : Effect :=
  match r with
  | .ok e => e
  | .error (.panicked _) => ⟨none, "", "", 101⟩
  | .error e => ⟨none, "", "error: " ++ e.text ++ "\n", 1⟩

/-- Writes a value as JSON, or prints it. -/
def emit {α : Type} [JsonText α] (value : α) (out : Option String) : Except CommandError Effect := do
  let json ← (JsonText.toStringPretty value).mapError .serialize
  return match out with
    | some path => ⟨some (path, json), "", "written to " ++ path ++ "\n", 0⟩
    | none => ⟨none, json ++ "\n", "", 0⟩

/-- `emit`, after a line to the operator: also where `emit` fails. -/
def emitAfter {α : Type} [JsonText α] (line : String) (value : α) (out : Option String) : Effect :=
  let e := main (emit value out)
  { e with stderr := line ++ "\n" ++ e.stderr }

/-- `interop_err`. -/
def interopErr {α : Type} (r : Run α) : Except CommandError α :=
  r.mapError fun
    | .error e => .trust (.decode ("interop: " ++ e.text))
    | .panic p => .panicked p

/-! ## Keys and claims -/

section

variable [External] [SecretBytes]

def keygen (m : Moment) (out : Option String) : Except CommandError Effect :=
  let id : Identity := ⟨m.key⟩
  let secret := id.secretHex
  let head := "did:    " ++ id.did.asStr ++ "\npubkey: " ++
    toHex (External.toBytes id.verifyingKey).val ++ "\n"
  .ok (match out with
    | some path => ⟨some (path, secret), head ++ "secret: written to " ++ path ++ "\n", "", 0⟩
    | none => ⟨none, head ++ "secret: " ++ secret ++ "\n", "", 0⟩)

variable [JsonText Claim]

/-- Issues a body to a subject, from now on. -/
def issueBody (m : Moment) (issuer : Identity) (subject : String) (untilTime : Option Timestamp)
    (body : ClaimBody) (out : Option String) : Except CommandError Effect := do
  let claim ← (Claim.issue (randomSalt m.draw₁ m.draw₂ m.draw₃) issuer (.fromString subject)
    { fromTime := m.now, untilTime } body).mapError fun e => .trust (.decode ("issue failed: " ++ e.text))
  emit claim out

def issue (m : Moment) (files : Files) (a : IssueArgs) : Except CommandError Effect := do
  let issuer ← loadIdentity files a.issuer
  issueBody m issuer a.subject (a.validUntil.map .mk) a.body a.out

def issueCheck (m : Moment) (files : Files) (a : IssueCheckArgs) : Except CommandError Effect := do
  let issuer ← loadIdentity files a.issuer
  issueBody m issuer a.subject none a.body a.out

/-- A claim from its file, disclosed as its selector says. -/
def discloseFile (files : Files) (selectors : String → Option FieldSelector) (path : String) :
    Except CommandError DisclosedClaim := do
  let claim ← readJson Claim files path
  let selector := (selectors claim.claimId.asStr).getD .all
  (claim.disclose selector).mapError fun e => .trust (.decode ("disclose failed: " ++ e.text))

def present [JsonText Presentation] (m : Moment) (files : Files) (a : PresentArgs) :
    Except CommandError Effect := do
  let subject ← loadIdentity files a.subject
  let selectors ← (Cli.parseReveal a.reveal).mapError .trust
  let disclosed ← a.claims.mapM (discloseFile files selectors)
  let presentation := buildPresentation subject (.fromString a.audience) a.purpose
    (freshNonce m.draw₁ m.draw₂) m.now (m.now.plusSeconds a.expiresIn) disclosed
  emit presentation a.out

end

/-! ## Verifying -/

section

variable [External]

/-- A directory of the keys, each from its hex. -/
def directoryOf (issuerKeys : List String) : Except CommandError IssuerDirectory :=
  issuerKeys.foldlM (fun directory key => do
    let vk ← (verifyingKeyFromHex key).mapError .trust
    return directory.register vk) .new

/-- A line of the report. -/
def checkLine (c : Check) : String :=
  "  " ++ (if c.passed then "✓" else "✗") ++ " " ++ c.name ++
    (if c.detail = "" then "" else "  (" ++ c.detail ++ ")") ++ "\n"

/-- The report as it is printed; the verdict is the exit code. -/
def reportEffect (report : VerificationReport) (write : Option (String × String)) : Effect where
  write
  stdout := String.join (report.checks.map checkLine) ++ "\n" ++
    (if report.accepted then "ACCEPTED" else "REJECTED") ++ "\n"
  stderr := ""
  exitCode := if report.accepted then 0 else 1

def verify [JsonText Presentation] [JsonText JsonFileNonceStore] (m : Moment) (files : Files) (a : VerifyArgs) :
    Except CommandError Effect := do
  let p ← readJson Presentation files a.presentation
  let directory ← directoryOf a.issuerKeys
  let audience := Did.fromString a.audience
  let predicates ← (Cli.parsePredicates a.predicates).mapError .trust
  match a.nonceStore with
  | some path => do
    let store ← JsonFileNonceStore.load files path
    let (report, store) := verifyPresentationWithStore p audience m.now directory.anchor store predicates
    let report ← report.mapError .trust
    let write ← store.save path
    return reportEffect report (some write)
  | none => do
    let report ← (verifyPresentationWithPredicates p audience m.now directory.anchor false
      predicates).mapError .trust
    return reportEffect report none

end

/-! ## Documents -/

section

variable [External] [JsonText Value]

def exportVc [JsonText DisclosedClaim] (files : Files) (disclosed issuerKey : String) (out : Option String) :
    Except CommandError Effect := do
  let d ← readJson DisclosedClaim files disclosed
  let vk ← (verifyingKeyFromHex issuerKey).mapError .trust
  let vc ← interopErr (exportDisclosedVc d vk)
  emit vc out

def importVc [Serde] [JsonText DisclosedClaim] (files : Files) (input : String) (out : Option String) :
    Except CommandError Effect := do
  let doc ← readJson Value files input
  let d ← interopErr (importDisclosedVc doc)
  return emitAfter ("verified ✓  claim " ++ d.claimId.asStr) d out

/-- The keys by their dids, each from its hex. -/
def keysByDid (issuerKeys : List String) : Except CommandError (String → Option VerifyingKey) :=
  issuerKeys.foldlM (fun byDid hex => do
    let vk ← (verifyingKeyFromHex hex).mapError .trust
    return Function.update byDid (Did.fromKey vk).asStr (some vk)) fun _ => none

def exportVp [JsonText Presentation] (files : Files) (presentation : String) (issuerKeys : List String)
    (out : Option String) : Except CommandError Effect := do
  let p ← readJson Presentation files presentation
  let byDid ← keysByDid issuerKeys
  let vp ← interopErr (exportPresentationVp p fun did => byDid did.asStr)
  emit vp out

def importVp [Serde] [JsonText Presentation] (files : Files) (input : String) (out : Option String) :
    Except CommandError Effect := do
  let doc ← readJson Value files input
  let p ← interopErr (importPresentationVp doc)
  return emitAfter
    ("verified ✓  " ++ toString p.claims.length ++ " credential(s) in presentation " ++ p.presentationId) p out

end

/-! ## Running -/

variable [External] [SecretBytes] [Serde] [JsonText Claim] [JsonText DisclosedClaim] [JsonText Presentation]
  [JsonText JsonFileNonceStore] [JsonText Value]

def run (m : Moment) (files : Files) : Cmd → Except CommandError Effect
  | .keygen out => keygen m out
  | .issue args => issue m files args
  | .issueCheck args => issueCheck m files args
  | .present args => present m files args
  | .verify args => verify m files args
  | .exportVc disclosed issuerKey out => exportVc files disclosed issuerKey out
  | .importVc input out => importVc files input out
  | .exportVp presentation issuerKeys out => exportVp files presentation issuerKeys out
  | .importVp input out => importVp files input out

end Commands

end AionTrust.Impl
