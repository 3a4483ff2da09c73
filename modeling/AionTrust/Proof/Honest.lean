import AionTrust.Impl.Wallet
import AionTrust.Proof.Acceptance
import AionTrust.Proof.Packages

/-!
# Honest presentations

Where the packages keep their promises, a presentation its subject built
decodes and is signed (`buildPresentation_decoded`), so it is accepted where
its claims are valid (`buildPresentation_accepted`). A wallet presents
disclosures of its own claims (`present_eq_ok`), and what it presents is
accepted wherever they are good (`honest_present_accepted`).
-/

namespace AionTrust.Proof

open AionTrust.Impl AionTrust.Spec
open Framework (Bytes okOr_eq_ok mapError_eq_ok bind_eq_ok pure_eq_ok)

theorem freshNonce_length (n₁ n₂ : ByteVec 12) : 16 ≤ (freshNonce n₁ n₂).length := by
  simp [freshNonce]

section

variable [External]

/-! ## Built presentations -/

section

variable {subject : Identity} {audience : Did} {purpose : String} {nonce : Bytes}
  {issuedAt expiresAt : Timestamp} {ds : List DisclosedClaim}

theorem buildPresentation_decoded (hlaw : Lawful) :
    Decoded (buildPresentation subject audience purpose nonce issuedAt expiresAt ds)
      subject.verifyingKey nonce
      (subject.sign (presSigningBytes subject.did audience purpose nonce issuedAt expiresAt ds)) where
  subjectKey := by
    simp only [buildPresentation, verifyingKeyFromHex, decodeArray_toHex, Framework.ok_bind,
      hlaw.fromBytes_toBytes]
  nonce := fromHex_toHex nonce
  signature := decodeArray_toHex _

/-- A presentation its subject built is accepted within its window by its
audience where its claims are valid and the predicates satisfied. -/
theorem buildPresentation_accepted (hlaw : Lawful) (audience : Did) (purpose : String)
    (hnonce : 16 ≤ nonce.length) (hne : ds ≠ []) {now : Timestamp} (hfrom : issuedAt ≤ now)
    (huntil : now ≤ expiresAt) {anchor : TrustAnchor}
    (hclaims : ClaimsValid anchor subject.did now ds) (predicates : List PredicateRequest)
    (hpreds : ∀ req ∈ predicates, Satisfied anchor subject.did now ds req) :
    ∃ report, verifyPresentationWithPredicates
        (buildPresentation subject audience purpose nonce issuedAt expiresAt ds) audience now anchor
        false predicates = .ok report ∧ report.accepted = true := by
  refine verify_accepts (buildPresentation_decoded hlaw) ?_ hclaims hpreds
  exact ⟨rfl, rfl, hfrom, huntil, rfl, hnonce, hne, hlaw.sign_verify _ _⟩

end

/-- Amber is only ever reported with a rejection. -/
theorem amber_eq_false {p : Presentation} {audience : Did} {now : Timestamp} {anchor : TrustAnchor}
    {seen : Bool} {predicates : List PredicateRequest} {report : VerificationReport}
    (h : verifyPresentationWithPredicates p audience now anchor seen predicates = .ok report)
    (hacc : report.accepted = true) : report.amber = false := by
  simp only [verifyPresentationWithPredicates, bind_eq_ok, pure_eq_ok] at h
  obtain ⟨vk, -, nonce, -, sig, -, rfl⟩ := h
  simp only at hacc
  simp only [hacc, Bool.not_true, Bool.false_and]

/-! ## The wallet -/

/-- A disclosure of one of the claims a wallet holds. -/
def Wallet.Discloses (w : Wallet) (d : DisclosedClaim) : Prop :=
  ∃ c ∈ w.claims, ∃ s, c.disclose s = .ok d

section

variable {w : Wallet} {ds : List DisclosedClaim}

theorem discloseAll_discloses (h : w.discloseAll = .ok ds) : ∀ d ∈ ds, Wallet.Discloses w d := by
  intro d hd
  obtain ⟨c, hc, hdisc⟩ := Framework.exists_left (Framework.mapM_eq_ok.mp h) hd
  exact ⟨c, hc, .all, mapError_eq_ok.mp hdisc⟩

theorem discloseSelected_discloses {selections : List ClaimSelection}
    (h : w.discloseSelected selections = .ok ds) : ∀ d ∈ ds, Wallet.Discloses w d := by
  intro d hd
  obtain ⟨sel, -, hsel⟩ := Framework.exists_left (Framework.mapM_eq_ok.mp h) hd
  simp only [Wallet.discloseSelection, bind_eq_ok, okOr_eq_ok, mapError_eq_ok] at hsel
  obtain ⟨c, hc, -, -, hdisc⟩ := hsel
  exact ⟨c, List.mem_of_find?_eq_some hc, sel.fields, hdisc⟩

end

/-- A wallet presents disclosures of its own claims, built for its own identity. -/
theorem present_eq_ok {w : Wallet} {audience : Did} {purpose : String}
    {selections : List ClaimSelection} {ttl : Int64} {now : Timestamp} {n₁ n₂ : ByteVec 12}
    {p : Presentation} (h : w.present audience purpose selections ttl now n₁ n₂ = .ok p) :
    (∀ d ∈ p.claims, Wallet.Discloses w d) ∧
      p = buildPresentation w.identity audience purpose (freshNonce n₁ n₂) now
        (now.plusSeconds ttl) p.claims := by
  rw [Wallet.present] at h
  split at h
  all_goals
    simp only [bind_eq_ok, pure_eq_ok] at h
    obtain ⟨disclosed, hdisclosed, rfl⟩ := h
  · exact ⟨discloseAll_discloses hdisclosed, rfl⟩
  · exact ⟨discloseSelected_discloses hdisclosed, rfl⟩

/-- Without selections a wallet presents all it holds. -/
theorem present_all {w : Wallet} {ds : List DisclosedClaim} (h : w.discloseAll = .ok ds)
    (audience : Did) (purpose : String) (ttl : Int64) (now : Timestamp) (n₁ n₂ : ByteVec 12) :
    w.present audience purpose [] ttl now n₁ n₂ = .ok (buildPresentation w.identity audience purpose
      (freshNonce n₁ n₂) now (now.plusSeconds ttl) ds) := by
  rw [Wallet.present, h]
  rfl

/-- What a wallet of issued claims presents is accepted by its audience, within
the window, under every anchor that holds the issuers' keys and finds the
disclosed claims good. -/
theorem honest_present_accepted (hlaw : Lawful) (w : Wallet) (issuer : Claim → Identity)
    (hheld : ∀ c ∈ w.claims, IssuedBy (issuer c) w.did c) (audience : Did) (purpose : String)
    (selections : List ClaimSelection) (ttl : Int64) (now : Timestamp) (n₁ n₂ : ByteVec 12)
    (p : Presentation) (hp : w.present audience purpose selections ttl now n₁ n₂ = .ok p)
    (hne : p.claims ≠ []) (t : Timestamp) (hfrom : now ≤ t) (huntil : t ≤ now.plusSeconds ttl)
    (anchor : TrustAnchor)
    (hgood : ∀ d ∈ p.claims, ∀ c ∈ w.claims, ∀ s, c.disclose s = .ok d →
      GoodAt anchor t (issuer c).verifyingKey d) :
    ∃ report, verifyPresentation p audience t anchor false = .ok report ∧
      report.accepted = true ∧ report.amber = false := by
  obtain ⟨hfrom_wallet, hbuild⟩ := present_eq_ok hp
  have hclaims : ClaimsValid anchor w.identity.did t p.claims := by
    intro d hd
    obtain ⟨c, hc, s, hdisc⟩ := hfrom_wallet d hd
    exact ⟨verifiedOf d, disclose_valid hlaw (hheld c hc) hdisc (hgood d hd c hc s hdisc)⟩
  obtain ⟨report, hreport, hacc⟩ := buildPresentation_accepted hlaw audience purpose
    (freshNonce_length n₁ n₂) hne hfrom huntil hclaims [] (by simp)
  rw [← hbuild] at hreport
  exact ⟨report, hreport, hacc, amber_eq_false hreport hacc⟩

end

section

attribute [local instance] lawful

/-- The law at a wallet of one skill claim. -/
theorem honest_present_accepted_skill : ∃ (w : Wallet) (n : ByteVec 12) (p : Presentation)
    (anchor : TrustAnchor), w.present ⟨"did:aion:verifier"⟩ "hiring" [] 600 ⟨1000⟩ n n = .ok p ∧
      ∃ report, verifyPresentation p ⟨"did:aion:verifier"⟩ ⟨1200⟩ anchor false = .ok report ∧
        report.accepted = true ∧ report.amber = false := by
  let subject := identity 1
  let issuer := identity 2
  obtain ⟨c, d, hrun, hd⟩ := lawful_run issuer (skillCall subject.did) (by decide)
  let w : Wallet := { identity := subject, claims := [c] }
  have hall : w.discloseAll = .ok [d] := Framework.mapM_eq_ok.mpr (.cons (by rw [hd]; rfl) .nil)
  let n : ByteVec 12 := ⟨List.replicate 12 7, rfl⟩
  have hp := present_all hall ⟨"did:aion:verifier"⟩ "hiring" 600 ⟨1000⟩ n n
  refine ⟨w, n, _, trusting issuer, hp, honest_present_accepted lawful_lawful w (fun _ => issuer) ?_ _ _ _ _ _ _ _
    _ hp (List.cons_ne_nil _ _) _ (by decide) (by decide) _ ?_⟩
  · intro c' hc'
    obtain rfl := List.mem_singleton.mp hc'
    exact ⟨_, rfl, hrun⟩
  · intro d' _ c' hc' s hd'
    obtain rfl := List.mem_singleton.mp hc'
    refine trusting_good issuer ?_
    rw [disclose_validity hrun hd']
    decide

/-- A presentation of a skill, accepted throughout its window. -/
theorem skill_accepted {nonce : Bytes} (hnonce : 16 ≤ nonce.length) :
    ∃ (anchor : TrustAnchor) (d : DisclosedClaim), ∀ now, ⟨1000⟩ ≤ now → now ≤ ⟨1600⟩ →
      ∃ report, verifyPresentationWithPredicates (buildPresentation (identity 1)
          ⟨"did:aion:verifier"⟩ "hiring" nonce ⟨1000⟩ ⟨1600⟩ [d]) ⟨"did:aion:verifier"⟩ now anchor
          false [] = .ok report ∧ report.accepted = true := by
  obtain ⟨_, d, -, -, hvalid⟩ := skill_valid (identity 1)
  refine ⟨trusting (identity 2), d, fun now hfrom huntil => ?_⟩
  have hstarted : (⟨0⟩ : Timestamp) ≤ now := le_trans (by decide) hfrom
  have hactive : (skillCall (identity 1).did).validity.activeAt now = true := by
    simp [skillCall, Validity.activeAt, hstarted]
  exact buildPresentation_accepted lawful_lawful _ _ hnonce (List.cons_ne_nil _ _) hfrom huntil
    (List.forall_mem_singleton.mpr ⟨_, hvalid now hactive⟩) [] (by simp)

end

end AionTrust.Proof
