import AionTrust.Framework.History
import AionTrust.Impl.Wallet
import AionTrust.Spec.Issuing
import AionTrust.Spec.Registry
import AionTrust.Spec.SingleUse

/-!
# Issuers, holders, accreditors and verifiers

The system the crates are parts of, as a machine (`network`). A party has one
key, with which it issues claims, endorses accreditations, and signs
presentations of the claims it was given. A verifier has a registry of its own
and a store. A step may hand a verifier any presentation and any accreditation
record: who sent it, and what became of it on the way, is not part of a step.

What a run is assumed to keep to is that nobody forged (`Unforged`): a
signature that verifies under a party's key, in what a verifier is handed, is
over bytes the party signed in an earlier step (`SignedIn`). A party's key may
sign in every role, and keys that are no party's are anyone's.
-/

namespace AionTrust.Spec

open AionTrust.Impl
open Framework (Bytes)

variable [External]

/-- The parties' keys, and the names of the verifiers. -/
structure Parties (H V : Type) where
  identity : H → Identity
  name : V → Did

/-- The key of a party. -/
def Parties.key {H V : Type} (parties : Parties H V) (h : H) : VerifyingKey :=
  (parties.identity h).verifyingKey

/-- What each holder holds, and what each verifier keeps. -/
structure Network (H V : Type) where
  held : H → List Claim
  registry : V → Registry
  store : V → InMemoryNonceStore

/-- Nobody holds a claim, no registry has an entry, and nothing was accepted. -/
def Network.new (H V : Type) (epoch : V → UInt64) : Network H V where
  held _ := []
  registry v := .new (epoch v)
  store _ := .new

/-- What a holder is asked to disclose. -/
inductive Ask where
  | selections (chosen : List ClaimSelection)
  | predicates (requests : List PredicateRequest)

def Ask.answer (w : Wallet) (audience : Did) (purpose : String) (ttlSeconds : Int64) (now : Timestamp)
    (n₁ n₂ : ByteVec 12) : Ask → Except WalletError Presentation
  | selections chosen => w.present audience purpose chosen ttlSeconds now n₁ n₂
  | predicates requests => w.satisfy audience purpose requests ttlSeconds now n₁ n₂

inductive Step (H V : Type) where
  | issue (issuer : H) (call : IssueCall)
  | endorse (accreditor : H) (a : Accreditation)
  | add (holder : H) (claim : Claim)
  | present (holder : H) (ask : Ask) (audience : Did) (purpose : String) (ttlSeconds : Int64)
      (now : Timestamp) (n₁ n₂ : ByteVec 12)
  | administer (verifier : V) (op : RegistryOp)
  | evict (verifier : V) (now : Timestamp)
  | deliver (verifier : V) (p : Presentation) (now : Timestamp) (predicates : List PredicateRequest)

inductive Reply where
  | issued (claim : Except ClaimReject Claim)
  | endorsed (a : Accreditation)
  | presented (p : Except WalletError Presentation)
  | verified (report : Except TrustError VerificationReport)
  | done

variable {H V : Type} [DecidableEq H] [DecidableEq V]

/-- The parties and verifiers under the steps. -/
def network (parties : Parties H V) : Framework.Machine (Network H V) (Step H V) Reply where
  step
    | net, .issue issuer call => (net, .issued (call.run (parties.identity issuer)))
    | net, .endorse accreditor a => (net, .endorsed (a.endorse (parties.identity accreditor)))
    | net, .add holder claim =>
      let wallet : Wallet := { identity := parties.identity holder, claims := net.held holder }
      ({ net with held := Function.update net.held holder (wallet.add claim).claims }, .done)
    | net, .present holder ask audience purpose ttlSeconds now n₁ n₂ =>
      let wallet : Wallet := { identity := parties.identity holder, claims := net.held holder }
      (net, .presented (ask.answer wallet audience purpose ttlSeconds now n₁ n₂))
    | net, .administer v op =>
      ({ net with registry := Function.update net.registry v (op.apply (net.registry v)) }, .done)
    | net, .evict v now =>
      ({ net with store := Function.update net.store v ((net.store v).evictExpired now) }, .done)
    | net, .deliver v p now predicates =>
      let (report, store) := verifyPresentationWithStore p (parties.name v) now
        (net.registry v).anchor (net.store v) predicates
      ({ net with store := Function.update net.store v store }, .verified report)

/-- A step with what it answered. -/
abbrev Entry (H V : Type) : Type := Step H V × Reply

/-- A run of the network, its registries starting at these epochs. -/
abbrev history (parties : Parties H V) (epoch : V → UInt64) (steps : List (Step H V)) :
    List (Entry H V) :=
  (network parties).trace (.new H V epoch) steps

/-- The state a run ends in. -/
abbrev after (parties : Parties H V) (epoch : V → UInt64) (steps : List (Step H V)) : Network H V :=
  (network parties).final (.new H V epoch) steps

/-- An answer that accepts a presentation. -/
def Reply.Accepts : Reply → Prop
  | verified (.ok report) => report.accepted = true
  | _ => False

/-- A run that after some steps comes to a delivery, which is accepted. -/
structure AcceptedDelivery (parties : Parties H V) (epoch : V → UInt64) (steps past : List (Step H V)) (v : V)
    (p : Presentation) (now : Timestamp) (predicates : List PredicateRequest) : Prop where
  split : ∃ post, steps = past ++ .deliver v p now predicates :: post
  accepts : ((network parties).step (after parties epoch past) (.deliver v p now predicates)).2.Accepts

/-! ## Signatures -/

/-- What a party signed in a step. -/
inductive SignedIn (parties : Parties H V) (h : H) : Bytes → Entry H V → Prop where
  | issued (call : IssueCall) (commit : ClaimCommit) (c : Claim) (hcommit : call.Commits commit) :
      SignedIn parties h (call.message (parties.identity h) commit) (.issue h call, .issued (.ok c))
  | endorsed (a b : Accreditation) : SignedIn parties h a.signingBytes (.endorse h a, .endorsed b)
  | presented (ask : Ask) (audience : Did) (purpose : String) (ttlSeconds : Int64) (now : Timestamp)
      (n₁ n₂ : ByteVec 12) (q : Presentation) (nonce : Bytes) (hnonce : fromHex q.nonce = .ok nonce) :
      SignedIn parties h (presSigningBytes q.subjectId q.audience q.purpose nonce q.issuedAt
        q.expiresAt q.claims) (.present h ask audience purpose ttlSeconds now n₁ n₂, .presented (.ok q))

/-- The signatures in what a verifier is handed: a presentation's, those of the
claims in it, and those of an accreditation. -/
inductive Carries : Step H V → Bytes → ByteVec 64 → Prop where
  | presentation (v : V) (p : Presentation) (now : Timestamp) (predicates : List PredicateRequest)
      (nonce : Bytes) (sig : ByteVec 64) (hnonce : fromHex p.nonce = .ok nonce)
      (hsig : decodeArray 64 p.subjectSignature = .ok sig) :
      Carries (.deliver v p now predicates) (presSigningBytes p.subjectId p.audience p.purpose nonce
        p.issuedAt p.expiresAt p.claims) sig
  | claim (v : V) (p : Presentation) (now : Timestamp) (predicates : List PredicateRequest)
      (d : DisclosedClaim) (bodyRoot relianceRoot : Digest) (sig : ByteVec 64) (hd : d ∈ p.claims)
      (hbody : decodeArray 32 d.bodyRoot = .ok bodyRoot)
      (hreliance : decodeArray 32 d.relianceRoot = .ok relianceRoot)
      (hsig : decodeArray 64 d.issuerSignature = .ok sig) :
      Carries (.deliver v p now predicates) (d.signedMessage bodyRoot relianceRoot) sig
  | endorsement (v : V) (a : Accreditation) (entry : AccreditorSig) (sig : ByteVec 64)
      (hentry : entry ∈ a.signatures) (hsig : decodeArray 64 entry.signature = .ok sig) :
      Carries (.administer v (.addAccreditation a)) a.signingBytes sig

/-- In a run, a signature handed to a verifier that verifies under a party's
key is over bytes the party signed before. -/
def Unforged (parties : Parties H V) (entries : List (Entry H V)) : Prop :=
  ∀ pre x post, entries = pre ++ x :: post → ∀ m sig, Carries x.1 m sig → ∀ h,
    External.verify (parties.key h) m sig = true → ∃ y ∈ pre, SignedIn parties h m y

/-! ## What a delivery goes back to -/

/-- A party signed, for the verifier it was delivered to and at a time not
after, the message a presentation carries. -/
inductive SignedFor (parties : Parties H V) (h : H) (v : V) (p : Presentation) (now : Timestamp) :
    Entry H V → Prop where
  | intro (ask : Ask) (ttlSeconds : Int64) (n₁ n₂ : ByteVec 12) (q : Presentation)
      (hsame : SameSigned q p) (hnonce : fromHex p.nonce = .ok (freshNonce n₁ n₂))
      (hexpires : p.expiresAt = p.issuedAt.plusSeconds ttlSeconds) (hissued : p.issuedAt ≤ now)
      (hunexpired : now ≤ p.expiresAt) :
      SignedFor parties h v p now (.present h ask (parties.name v) p.purpose ttlSeconds p.issuedAt
        n₁ n₂, .presented (.ok q))

/-- A party issued, to the subject of a disclosure, the claim it discloses. -/
structure IssuedAs (issuer : Identity) (d : DisclosedClaim) (call : IssueCall) (c : Claim) : Prop where
  run : call.run issuer = .ok c
  id : c.claimId = d.claimId
  subject : call.subject = d.subjectId
  category : call.body.category = d.category
  schemaId : call.body.schemaId = d.schemaId
  validity : call.validity = d.validity

/-- A party endorsed an issuer for a category, from and until the epochs of a
record. -/
def EndorsedAs (h : H) (a : Accreditation) (x : Entry H V) : Prop :=
  ∃ b c, x = (.endorse h b, .endorsed c) ∧ b.issuerId = a.issuerId ∧ b.category = a.category ∧
    b.fromEpoch = a.fromEpoch ∧ b.untilEpoch = a.untilEpoch

/-! ## Clocks and spellings -/

/-- The verifier a step is timed by, and the time it is given. -/
def Step.clock : Step H V → Option (V × Timestamp)
  | evict v now => some (v, now)
  | deliver v _ now _ => some (v, now)
  | _ => none

/-- What a step delivers. -/
def Step.delivered : Step H V → Option Presentation
  | deliver _ p _ _ => some p
  | _ => none

/-- No verifier's clock goes back. -/
def ClocksAdvance (steps : List (Step H V)) : Prop :=
  steps.Pairwise fun a b => ∀ v t u, a.clock = some (v, t) → b.clock = some (v, u) → t ≤ u

/-- No message is delivered with its nonce spelled in two ways. -/
def SpelledOnce (steps : List (Step H V)) : Prop :=
  steps.Pairwise fun a b => ∀ p q, a.delivered = some p → b.delivered = some q → SameSigned p q →
    p.nonce = q.nonce

/-- An entry in which a presentation under a party's key is accepted. -/
def AcceptedFrom (parties : Parties H V) (h : H) (x : Entry H V) : Prop :=
  ∃ p, x.1.delivered = some p ∧ x.2.Accepts ∧ verifyingKeyFromHex p.subjectKey = .ok (parties.key h)

/-- An entry in which a party signs a presentation. -/
def SignsPresentation (h : H) (x : Entry H V) : Prop :=
  ∃ ask audience purpose ttlSeconds now n₁ n₂ q,
    x = (.present h ask audience purpose ttlSeconds now n₁ n₂, .presented (.ok q))

/-! ## The record -/

/-- A verifier accepted a presentation under a nonce, and has not evicted it
since. -/
def OnRecord (parties : Parties H V) (epoch : V → UInt64) (steps : List (Step H V)) (v : V)
    (nonce : String) (expiresAt : Timestamp) : Prop :=
  ∃ pre p now predicates post, steps = pre ++ .deliver v p now predicates :: post ∧
    ((network parties).step (after parties epoch pre) (.deliver v p now predicates)).2.Accepts ∧
    p.nonce = nonce ∧ p.expiresAt = expiresAt ∧ ∀ t, .evict v t ∈ post → t ≤ expiresAt

/-! ## Sizes -/

/-- Everything a subject signs is shorter than `2 ^ 32` bytes. -/
def PresentationFits (p : Presentation) : Prop :=
  ∀ nonce, fromHex p.nonce = .ok nonce → (Message.presentation p.subjectId p.audience p.purpose nonce
    p.issuedAt p.expiresAt (p.claims.map DisclosedClaim.claimId)).Fits

/-- Everything an accreditor signs is shorter than `2 ^ 32` bytes. -/
def AccreditationFits (a : Accreditation) : Prop :=
  (Message.accreditation a.issuerId a.category a.fromEpoch a.untilEpoch).Fits

/-- Everything signed or shown in a step is shorter than `2 ^ 32` bytes. -/
def Sized (parties : Parties H V) : Entry H V → Prop
  | (.issue issuer call, _) => call.Fits (parties.identity issuer)
  | (.endorse _ a, _) => AccreditationFits a
  | (.present .., .presented (.ok q)) => PresentationFits q
  | (.administer _ (.addAccreditation a), _) => AccreditationFits a
  | (.deliver _ p _ _, _) => PresentationFits p ∧ ∀ d ∈ p.claims, DisclosedFits d
  | _ => True

end AionTrust.Spec
