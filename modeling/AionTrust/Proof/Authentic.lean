import AionTrust.Proof.Commitments
import AionTrust.Proof.Unforgeable

/-!
# Full claims cannot be forged

What `Claim.verify` checks is that the claim's body and dependencies commit,
under its master salt, to the roots and counts that were signed
(`claim_verify_eq_ok`). So a claim it accepts is one its issuer issued, with
the same scalars, and with the same master salt, body and dependencies unless
their commitments collide (`claim_authentic`).
-/

namespace AionTrust.Proof

open AionTrust.Impl AionTrust.Spec
open Framework (Bytes Fits bind_eq_ok ensure_eq_ok mapError_eq_ok pure_eq_ok)

section

variable [External]

/-- The call that would issue a claim, with its own salt. -/
def callOf (c : Claim) (masterSalt : Digest) : IssueCall where
  masterSalt
  subject := c.subjectId
  validity := c.validity
  body := c.body
  reliance := c.reliance

/-- A claim states its commitments as `toHex` writes them, and its id and a
signature over them. -/
structure States (c : Claim) (vk : VerifyingKey) (commit : ClaimCommit) : Prop where
  bodyRoot : toHex commit.bodyRoot.val = c.bodyRoot
  fieldCount : commit.fieldCount = c.fieldCount
  relianceRoot : toHex commit.relianceRoot.val = c.relianceRoot
  relianceCount : commit.relianceCount = c.relianceCount
  claimId : ClaimId.fromSigningBytes (signingBytes c.subjectId c.issuerId c.category c.schemaId
    c.validity commit) = c.claimId
  signature : ∃ sig, decodeArray 64 c.issuerSignature = .ok sig ∧
    External.verify vk (signingBytes c.subjectId c.issuerId c.category c.schemaId c.validity commit)
      sig = true

/-- A claim is accepted when its own commitments are those it states. -/
theorem claim_verify_eq_ok {c v : Claim} {vk : VerifyingKey} : c.verify vk = .ok v ↔ v = c ∧
    Did.fromKey vk = c.issuerId ∧ ∃ masterSalt commit, decodeArray 32 c.masterSalt = .ok masterSalt ∧
      (callOf c masterSalt).Commits commit ∧ States c vk commit := by
  simp only [Claim.verify, bind_eq_ok, ensure_eq_ok, mapError_eq_ok, pure_eq_ok, Prod.exists]
  constructor
  · rintro ⟨-, hkey, salt, hsalt, root, count, hbody, -, ⟨hroot, hcount⟩, rroot, rcount, hreliance, -,
      ⟨hrroot, hrcount⟩, -, hid, sig, hsig, -, hverify, rfl⟩
    exact ⟨rfl, hkey, salt, ⟨root, count, rroot, rcount⟩, hsalt, ⟨hbody, hreliance⟩,
      hroot, hcount, hrroot, hrcount, hid, sig, hsig, hverify⟩
  · rintro ⟨rfl, hkey, salt, commit, hsalt, ⟨hbody, hreliance⟩, hstates⟩
    obtain ⟨hroot, hcount, hrroot, hrcount, hid, sig, hsig, hverify⟩ := hstates
    exact ⟨(), hkey, salt, hsalt, _, _, hbody, (), ⟨hroot, hcount⟩, _, _, hreliance, (),
      ⟨hrroot, hrcount⟩, (), hid, sig, hsig, (), hverify, rfl⟩

/-- Everything a claim encodes is shorter than `2 ^ 32` bytes. -/
structure ClaimFits (c : Claim) : Prop where
  subject : Fits 4 c.subjectId.asBytes
  issuer : Fits 4 c.issuerId.asBytes
  values : ValuesFit c.body
  reliance : IdsFit c.reliance

/-- What committing to a claim's contents asks. -/
def ClaimQuery (masterSalt : Digest) (body : ClaimBody) (targets : List ReliesOn) (q : Query) : Prop :=
  BodyQuery masterSalt body q ∨ RelianceQuery masterSalt targets q

/-- The commitments of a call are those of one salt, one body and one list of
dependencies, unless they collide. -/
theorem commits_inj {call call' : IssueCall} {commit : ClaimCommit} (h : call.Commits commit)
    (h' : call'.Commits commit) (hvalues : ValuesFit call.body) (hvalues' : ValuesFit call'.body)
    (hids : IdsFit call.reliance) (hids' : IdsFit call'.reliance)
    (hapart : JcsApart call.body call'.body) :
    Collision (ClaimQuery call.masterSalt call.body call.reliance)
        (ClaimQuery call'.masterSalt call'.body call'.reliance) ∨
      call.masterSalt = call'.masterSalt ∧ call.body = call'.body ∧ call.reliance = call'.reliance := by
  rcases bodyCommitment_inj hvalues hvalues' hapart h.body h'.body with hcollides | ⟨hsalt, hbody⟩
  · exact .inl (hcollides.mono (fun _ => .inl) fun _ => .inl)
  · have hlen : call.reliance.length = call'.reliance.length :=
      (relianceCommitment_root h.reliance).1.symm.trans (relianceCommitment_root h'.reliance).1
    by_cases hne : call.reliance = []
    · have hne' : call'.reliance = [] := List.length_eq_zero_iff.mp (by rw [← hlen, hne]; rfl)
      exact .inr ⟨hsalt, hbody, hne.trans hne'.symm⟩
    · have hne' : call'.reliance ≠ [] := fun h0 =>
        hne (List.length_eq_zero_iff.mp (by rw [hlen, h0]; rfl))
      rcases relianceCommitment_inj hids hids' hne hne' h.reliance h'.reliance with
        hcollides | ⟨-, hreliance⟩
      · exact .inl (hcollides.mono (fun _ => .inr) fun _ => .inr)
      · exact .inr ⟨hsalt, hbody, hreliance⟩

/-- What a claim has in common with the one it was issued as, by the signature
alone. -/
structure SameClaim (c issued : Claim) : Prop where
  claimId : c.claimId = issued.claimId
  subject : c.subjectId = issued.subjectId
  issuer : c.issuerId = issued.issuerId
  validity : c.validity = issued.validity
  category : c.category = issued.category
  schemaId : c.schemaId = issued.schemaId

/-- A claim that verifies under an issuer's key is one it issued: with the same
id, subject, issuer, validity, category and schema, and, unless the two
commitments collide, with the same master salt, body and list of dependencies
with their kinds. The key may sign any presentation and accreditation besides
its claims. -/
theorem claim_authentic (issuer : Identity) (calls : Set IssueCall)
    (hcalls : ∀ call ∈ calls, call.Fits issuer)
    (c : Claim) (hunforgeable : ∀ bodyRoot relianceRoot, decodeArray 32 c.bodyRoot = .ok bodyRoot →
      decodeArray 32 c.relianceRoot = .ok relianceRoot → Unforgeable issuer calls
        (signingBytes c.subjectId c.issuerId c.category c.schemaId c.validity
          ⟨bodyRoot, c.fieldCount, relianceRoot, c.relianceCount⟩) c.issuerSignature)
    (hc : ClaimFits c) (hapart : ∀ call ∈ calls, JcsApart c.body call.body) (v : Claim)
    (h : c.verify issuer.verifyingKey = .ok v) :
    ∃ call ∈ calls, ∃ issued, call.run issuer = .ok issued ∧ SameClaim c issued ∧
      ∃ masterSalt, decodeArray 32 c.masterSalt = .ok masterSalt ∧
        (Collision (ClaimQuery masterSalt c.body c.reliance)
            (ClaimQuery call.masterSalt call.body call.reliance) ∨
          decodeArray 32 issued.masterSalt = .ok masterSalt ∧ c.body = issued.body ∧
            c.reliance = issued.reliance) := by
  obtain ⟨-, hkey, masterSalt, commit, hsalt, hcommit, hstates⟩ := claim_verify_eq_ok.mp h
  obtain ⟨sig, hdecode, hverify⟩ := hstates.signature
  have hfits : (Message.claim c.subjectId c.issuerId c.category c.schemaId c.validity commit).Fits :=
    claim_fits c.validity commit hc.subject hc.issuer (category_fits c.body) (schemaId_fits c.body)
  -- the claim states the commitment that was signed
  have hsigned : Signed issuer calls (signingBytes c.subjectId c.issuerId c.category c.schemaId c.validity
      commit) := by
    obtain ⟨bodyRoot, fieldCount, relianceRoot, relianceCount⟩ := commit
    obtain ⟨hbody, rfl, hreliance, rfl, -, -⟩ := hstates
    exact hunforgeable bodyRoot relianceRoot (hbody ▸ decodeArray_toHex bodyRoot)
      (hreliance ▸ decodeArray_toHex relianceRoot) sig hdecode hverify
  obtain ⟨call, hcall, commit', hcommit', hmessage⟩ := signed_claim hfits hsigned
  have hcallFits := hcalls call hcall
  have hmsg := hmessage
  rw [IssueCall.message, signingBytes_eq, signingBytes_eq] at hmsg
  have hsame := framed_inj (claim_fits _ _ hcallFits.subject hcallFits.issuer (category_fits call.body)
    (schemaId_fits call.body)) hfits hmsg
  simp only [Message.claim.injEq] at hsame
  obtain ⟨hsubject, hissuer, hcategory, hschema, hvalidity, rfl⟩ := hsame
  refine ⟨call, hcall, _, run_of_commits issuer hcommit', ⟨?_, hsubject.symm, hissuer.symm,
    hvalidity.symm, hcategory.symm, hschema.symm⟩, masterSalt, hsalt, ?_⟩
  · rw [← hstates.claimId, ← hmessage]
    rfl
  · rcases commits_inj hcommit hcommit' hc.values hcallFits.fields hc.reliance hcallFits.reliance
      (hapart call hcall) with hcollides | ⟨rfl, hbody, hreliance⟩
    · exact .inl hcollides
    · exact .inr ⟨decodeArray_toHex _, hbody, hreliance⟩

/-- An issued claim is accepted where the issuer's own signature verifies. -/
theorem issued_verifies {issuer : Identity} {call : IssueCall} {commit : ClaimCommit}
    (h : call.Commits commit) (hsign : External.verify issuer.verifyingKey (call.message issuer commit)
      (issuer.sign (call.message issuer commit)) = true) :
    (issuedClaim issuer call commit).verify issuer.verifyingKey = .ok (issuedClaim issuer call commit) :=
  claim_verify_eq_ok.mpr ⟨rfl, rfl, call.masterSalt, commit, decodeArray_toHex _, h,
    rfl, rfl, rfl, rfl, rfl, issuer.sign _, decodeArray_toHex _, hsign⟩

end

section

attribute [local instance] restricted

/-- The law at a skill, under a key that signed nothing else. -/
theorem claim_authentic_skill : ∃ (issuer : Identity) (c : Claim),
    c.verify issuer.verifyingKey = .ok c ∧
      ∃ call ∈ ({skillCall ⟨"did:aion:subject"⟩} : Set IssueCall), ∃ issued,
        call.run issuer = .ok issued ∧ SameClaim c issued ∧
        ∃ masterSalt, decodeArray 32 c.masterSalt = .ok masterSalt ∧
          (Collision (ClaimQuery masterSalt c.body c.reliance)
              (ClaimQuery call.masterSalt call.body call.reliance) ∨
            decodeArray 32 issued.masterSalt = .ok masterSalt ∧ c.body = issued.body ∧
              c.reliance = issued.reliance) := by
  obtain ⟨issuer, commit, hcommit, hsign, hsigned⟩ :=
    restricted_issuer (skillCall ⟨"did:aion:subject"⟩) (show 2 < 2 ^ 32 by decide)
  have hverify := issued_verifies hcommit hsign
  have hfits := skillCall_fits issuer
  refine ⟨issuer, _, hverify, claim_authentic issuer _ ?_ _ (fun _ _ _ _ sig _ => hsigned _ sig)
    ⟨hfits.subject, hfits.issuer, hfits.fields, hfits.reliance⟩ ?_ _ hverify⟩
  · rintro call rfl
    exact hfits
  · rintro call rfl
    exact skill_jcsApart

end

end AionTrust.Proof
