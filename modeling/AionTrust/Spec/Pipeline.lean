import AionTrust.Spec.Commands
import AionTrust.Spec.Holder
import AionTrust.Spec.Pretty

/-!
# From an issuer's file to a verifier's exit code

A claim is in a file where the last run to write it issued the claim there
(`IssuedAt`). What a verification asks of a presentation of such claims is
`Meets`: of the commands' arguments, of what was issued, and of the clock. What
is assumed of `serde_json` is that texts of claims and of presentations read as
they were (`Texts`).
-/

namespace AionTrust.Spec

open AionTrust.Impl

section

variable [External]

/-- The call of `issue`. -/
def IssueArgs.call (a : IssueArgs) (m : Moment) : IssueCall where
  masterSalt := randomSalt m.draw₁ m.draw₂ m.draw₃
  subject := .fromString a.subject
  validity := { fromTime := m.now, untilTime := a.validUntil.map .mk }
  body := a.body
  reliance := []

/-- The call of `issue_check`. -/
def IssueCheckArgs.call (a : IssueCheckArgs) (m : Moment) : IssueCall where
  masterSalt := randomSalt m.draw₁ m.draw₂ m.draw₃
  subject := .fromString a.subject
  validity := { fromTime := m.now, untilTime := none }
  body := a.body
  reliance := []

/-- A run issued a claim to a file. -/
inductive Issues [SecretBytes] (path : String) (issuer : Identity) (c : Claim) : Finished → Prop
  | issue (a : IssueArgs) (m : Moment) (files : Files) (e : Effect) (hout : a.out = some path)
      (hissuer : loadIdentity files a.issuer = .ok issuer) (hrun : (IssueArgs.call a m).run issuer = .ok c) :
      Issues path issuer c ((.issue a, m), files, e)
  | issueCheck (a : IssueCheckArgs) (m : Moment) (files : Files) (e : Effect) (hout : a.out = some path)
      (hissuer : loadIdentity files a.issuer = .ok issuer) (hrun : (IssueCheckArgs.call a m).run issuer = .ok c) :
      Issues path issuer c ((.issueCheck a, m), files, e)

end

section

variable [External] [SecretBytes] [Serde] [JsonText Claim] [JsonText DisclosedClaim] [JsonText Presentation]
  [JsonText JsonFileNonceStore] [JsonText Value]

/-- A run wrote a file. -/
def Wrote (path : String) (x : Finished) : Prop := ∃ text, (effect x.2.1 x.1).write = some (path, text)

/-- The last of some runs to write a file issued the claim there. -/
def IssuedAt (path : String) (issuer : Identity) (c : Claim) (done : List Finished) : Prop :=
  ∃ pre x post, done = pre ++ x :: post ∧ Issues path issuer c x ∧ ∀ y ∈ post, ¬ Wrote path y

end

/-- What is assumed of the texts of claims and presentations: a claim has one,
and one of a claim or a presentation, whose values are exact, reads as it was. -/
structure Texts [JsonText Claim] [JsonText Presentation] : Prop where
  written : ∀ c : Claim, ∃ text, JsonText.toStringPretty c = .ok text
  claim : ∀ (c : Claim) text, JsonText.toStringPretty c = .ok text → JsonText.fromStr text = .ok c
  presentation : ∀ (p : Presentation) text, (∀ d ∈ p.claims, ∀ f ∈ d.fields, Pretty.Exact f.value) →
    JsonText.toStringPretty p = .ok text → JsonText.fromStr text = .ok p

/-- A claim answers a predicate with a field its selector names. -/
structure Answered (req : PredicateRequest) (c : Claim) (s : FieldSelector) : Prop where
  category : c.category = req.category
  scale : ∀ scale, req.scaleVersion = some scale → c.schemaId = scale
  field : req.field ∈ selectedKeys c s
  holds : ∃ value, (req.field, value) ∈ c.body.fields ∧ evaluate req.op value req.bound = .ok true

/-- The key of an identity is listed. -/
def Listed [External] (issuerKeys : List String) (issuer : Identity) : Prop :=
  ∃ key ∈ issuerKeys, verifyingKeyFromHex key = .ok issuer.verifyingKey

variable [External] [SecretBytes] [JsonText JsonFileNonceStore]

/-- A verification's arguments and clock meet a presentation of claims from
their files. -/
structure Meets (a : PresentArgs) (m : Moment) (found : Files) (v : VerifyArgs) (m' : Moment) (found' : Files)
    (claim : String → Claim) (issuer : String → Identity) (subject : Identity)
    (selectors : String → Option FieldSelector) (requests : List PredicateRequest) : Prop where
  loads : loadIdentity found a.subject = .ok subject
  reveals : Cli.parseReveal a.reveal = .ok selectors
  asks : Cli.parsePredicates v.predicates = .ok requests
  keys : ∀ key ∈ v.issuerKeys, ∃ vk, verifyingKeyFromHex key = .ok vk
  audience : v.audience = a.audience
  issued : m.now ≤ m'.now
  unexpired : m'.now ≤ m.now.plusSeconds a.expiresIn
  unseen : Unseen found' v.nonceStore (.fromString v.audience) (toHex (freshNonce m.draw₁ m.draw₂))
  nonempty : a.claims ≠ []
  claims : ∀ path ∈ a.claims, Listed v.issuerKeys (issuer path) ∧ (claim path).subjectId = subject.did ∧
    (claim path).validity.activeAt m'.now = true
  answers : ∀ req ∈ requests, ∃ path ∈ a.claims,
    Answered req (claim path) ((selectors (claim path).claimId.asStr).getD .all)

end AionTrust.Spec
