import AionTrust.Proof.Accreditation
import AionTrust.Proof.Honest
import AionTrust.Proof.Revealing
import AionTrust.Spec.Web

/-!
# A fresh world accepts its claims

Every issuer of a seeded world is recognized, and accredited for its category,
where the accreditors' and the issuers' identifiers are distinct
(`Recognized`, `seed_recognized`). So every disclosure of a seeded claim is
valid there (`seed_valid`).
-/

namespace AionTrust.Proof

open AionTrust.Impl AionTrust.Spec

section

variable [External]

/-! ## Accrediting -/

/-- An accreditor's endorsement of a message. -/
def endorsement (message : Framework.Bytes) (accreditor : Identity) : AccreditorSig :=
  { accreditor := accreditor.did, signature := toHex (accreditor.sign message).val }

/-- Endorsing adds one entry for each accreditor, over the same message. -/
theorem foldl_endorse (accreditors : List Identity) (a : Accreditation) :
    accreditors.foldl (·.endorse ·) a =
      { a with signatures := a.signatures ++ accreditors.map (endorsement a.signingBytes) } := by
  induction accreditors generalizing a with
  | nil => rw [List.map_nil, List.append_nil]; rfl
  | cons accreditor accreditors ih =>
    have hbytes : (a.endorse accreditor).signingBytes = a.signingBytes := rfl
    rw [List.foldl_cons, ih, hbytes, List.map_cons]
    simp only [Accreditation.endorse, endorsement, List.append_assoc, List.singleton_append]

/-- A registry knows the key of every accreditor. -/
def Knows (r : Registry) (accreditors : List Identity) : Prop :=
  ∀ a ∈ accreditors, r.accreditorKeys a.did = some a.verifyingKey

/-- What all of some accreditors endorsed carries that many endorsements. -/
theorem endorsed_count (hlaw : Lawful) {r : Registry} {accreditors : List Identity} (hknows : Knows r accreditors)
    (hdistinct : (accreditors.map (·.did)).Nodup) (k : Nat) (a : Accreditation) :
    accreditors.length ≤ {d | Endorses r { k, accreditors := accreditors.map (·.did) }
      (accreditors.foldl (·.endorse ·) a) d}.ncard := by
  rw [foldl_endorse]
  generalize hsigs : a.signatures ++ accreditors.map (endorsement a.signingBytes) = sigs
  have hbytes : ({ a with signatures := sigs } : Accreditation).signingBytes = a.signingBytes := rfl
  have hsubset : (↑(accreditors.map (·.did)).toFinset : Set Did) ⊆
      {d | Endorses r { k, accreditors := accreditors.map (·.did) } { a with signatures := sigs } d} := by
    intro d hd
    obtain ⟨accreditor, hmem, rfl⟩ := List.mem_map.mp (List.mem_toFinset.mp hd)
    refine ⟨List.mem_map_of_mem hmem, accreditor.verifyingKey, hknows accreditor hmem,
      endorsement a.signingBytes accreditor, ?_, rfl, _, decodeArray_toHex _, ?_⟩
    · rw [← hsigs]
      exact List.mem_append_right _ (List.mem_map_of_mem hmem)
    · rw [hbytes]
      exact hlaw.sign_verify accreditor.signingKey a.signingBytes
  have hfinite : {d | Endorses r { k, accreditors := accreditors.map (·.did) }
      { a with signatures := sigs } d}.Finite :=
    (accreditors.map (·.did)).toFinset.finite_toSet.subset fun d hd => List.mem_toFinset.mpr hd.1
  calc accreditors.length = (accreditors.map (·.did)).toFinset.card := by
        rw [List.toFinset_card_of_nodup hdistinct, List.length_map]
    _ = (↑(accreditors.map (·.did)).toFinset : Set Did).ncard := (Set.ncard_coe_finset _).symm
    _ ≤ _ := Set.ncard_le_ncard hsubset hfinite

/-- A registry knows an issuer's key, and accredits it for a category. -/
structure Recognized (r : Registry) (issuer : Identity) (category : String) : Prop where
  key : r.issuerKeys issuer.did = some issuer.verifyingKey
  accredited : Accredited r issuer.did category

section

variable {r : Registry} {accreditors : List Identity} (identity : Identity) (label category : String)

/-- An issuer that all accreditors accredit is recognized. -/
theorem accreditedIssuer_recognized (hlaw : Lawful) (hknows : Knows r accreditors)
    (hdistinct : (accreditors.map (·.did)).Nodup) (hepoch : startEpoch ≤ r.epoch) :
    Recognized (accreditedIssuer r accreditors identity label category).1 identity category where
  key := Function.update_self ..
  accredited := by
    refine ⟨_, Function.update_self .., _, List.mem_append_right _ (List.mem_singleton_self _), ?_, ?_, ⟨?_, ?_⟩,
      endorsed_count hlaw hknows hdistinct _ _⟩
    all_goals rw [foldl_endorse]
    · rfl
    · rfl
    · exact hepoch
    · nofun

/-- It stays recognized when another is accredited for another category. -/
theorem recognized_keep {issuer : Identity} {category' : String} (h : Recognized r issuer category')
    (hissuer : issuer.did ≠ identity.did) (hcategory : category' ≠ category) :
    Recognized (accreditedIssuer r accreditors identity label category).1 issuer category' where
  key := (Function.update_of_ne hissuer _ _).trans h.key
  accredited := by
    obtain ⟨rule, hrule, a, ha, hparts⟩ := h.accredited
    exact ⟨rule, (Function.update_of_ne hcategory _ _).trans hrule, a, List.mem_append_left _ ha, hparts⟩

theorem accreditedIssuer_knows (h : Knows r accreditors) :
    Knows (accreditedIssuer r accreditors identity label category).1 accreditors := h

end

/-! ## Seeding -/

/-- The identifiers that tell a seeded world's accreditors, and its issuers,
apart. -/
structure Distinct (draws : Draws) : Prop where
  accreditors : draws.accreditor₁.did ≠ draws.accreditor₂.did
  acme_screen : draws.acme.did ≠ draws.screen.did
  acme_uni : draws.acme.did ≠ draws.uni.did
  screen_uni : draws.screen.did ≠ draws.uni.did

/-- A fresh world recognizes each issuer for its category. -/
theorem seed_recognized (hlaw : Lawful) {draws : Draws} (h : Distinct draws) :
    Recognized (AppState.seed draws).registry draws.acme "employment" ∧
      Recognized (AppState.seed draws).registry draws.screen "background_check" ∧
      Recognized (AppState.seed draws).registry draws.uni "education" := by
  have hdistinct : ([draws.accreditor₁, draws.accreditor₂].map (·.did)).Nodup := by
    simpa using h.accreditors
  have hknows : Knows ([draws.accreditor₁, draws.accreditor₂].foldl
      (fun registry a => registry.registerAccreditor a.verifyingKey) (Registry.new startEpoch))
      [draws.accreditor₁, draws.accreditor₂] := by
    intro a ha
    rcases List.mem_cons.mp ha with rfl | ha
    · exact (Function.update_of_ne h.accreditors _ _).trans (Function.update_self ..)
    · obtain rfl := List.mem_singleton.mp ha
      exact Function.update_self ..
  have hone : startEpoch ≤ (1 : UInt64) := UInt64.le_refl _
  have hacme := accreditedIssuer_recognized draws.acme "Acme Corp" "employment" hlaw hknows hdistinct hone
  have hscreen := accreditedIssuer_recognized draws.screen "TrustScreen" "background_check" hlaw
    (accreditedIssuer_knows draws.acme "Acme Corp" "employment" hknows) hdistinct hone
  have huni := accreditedIssuer_recognized draws.uni "State University" "education" hlaw
    (accreditedIssuer_knows draws.screen "TrustScreen" "background_check"
      (accreditedIssuer_knows draws.acme "Acme Corp" "employment" hknows)) hdistinct hone
  refine ⟨?_, ?_, huni⟩
  · exact recognized_keep draws.uni "State University" "education"
      (recognized_keep draws.screen "TrustScreen" "background_check" hacme h.acme_screen (by decide))
      h.acme_uni (by decide)
  · exact recognized_keep draws.uni "State University" "education" hscreen h.screen_uni (by decide)

/-- What seeding issues. -/
def seedCall (salt : Digest) (subject : Did) (body : ClaimBody) : IssueCall where
  masterSalt := salt
  subject
  validity := { fromTime := ⟨0⟩, untilTime := none }
  body
  reliance := []

theorem seedClaim_identity (wallet : Wallet) (labels : String → Option String) (issuer : Identity) (salt : Digest)
    (body : ClaimBody) (label : String) :
    (seedClaim wallet labels issuer salt body label).1.identity = wallet.identity := by
  rw [seedClaim]
  split <;> rfl

/-- The wallet and its labels after the first claim, -/
def seedFirst (draws : Draws) : Wallet × (String → Option String) :=
  seedClaim { identity := draws.candidate, claims := [] } (fun _ => none) draws.acme draws.acmeSalt
    employmentExample "Senior Engineer @ Acme"

/-- and after the second. -/
def seedSecond (draws : Draws) : Wallet × (String → Option String) :=
  seedClaim (seedFirst draws).1 (seedFirst draws).2 draws.screen draws.screenSalt backgroundCheckExample
    "Background check (clear)"

theorem seed_wallet (draws : Draws) : (AppState.seed draws).wallet =
    (seedClaim (seedSecond draws).1 (seedSecond draws).2 draws.uni draws.uniSalt educationExample
      "M.S. Computer Science").1 := rfl

theorem seedFirst_identity (draws : Draws) : (seedFirst draws).1.identity = draws.candidate :=
  seedClaim_identity ..

theorem seedSecond_identity (draws : Draws) : (seedSecond draws).1.identity = draws.candidate :=
  (seedClaim_identity ..).trans (seedFirst_identity draws)

theorem seed_identity (draws : Draws) : (AppState.seed draws).wallet.identity = draws.candidate := by
  rw [seed_wallet, seedClaim_identity, seedSecond_identity]

theorem seedClaim_claims {P : Claim → Prop} {wallet : Wallet} (hheld : ∀ c ∈ wallet.claims, P c)
    (labels : String → Option String) (issuer : Identity) (salt : Digest) (body : ClaimBody) (label : String)
    (hnew : ∀ c, (seedCall salt wallet.did body).run issuer = .ok c → P c) :
    ∀ c ∈ (seedClaim wallet labels issuer salt body label).1.claims, P c := by
  intro c hc
  rw [seedClaim] at hc
  split at hc
  · rename_i claim hissue
    rcases List.mem_append.mp hc with hc | hc
    · exact hheld c hc
    · obtain rfl := List.mem_singleton.mp hc
      exact hnew c hissue
  · exact hheld c hc

/-- What holds of the three claims seeding issues holds of a fresh wallet. -/
theorem seed_claims {P : Claim → Prop} {draws : Draws}
    (hacme : ∀ c, (seedCall draws.acmeSalt draws.candidate.did employmentExample).run draws.acme = .ok c → P c)
    (hscreen : ∀ c, (seedCall draws.screenSalt draws.candidate.did backgroundCheckExample).run draws.screen =
      .ok c → P c)
    (huni : ∀ c, (seedCall draws.uniSalt draws.candidate.did educationExample).run draws.uni = .ok c → P c) :
    ∀ c ∈ (AppState.seed draws).wallet.claims, P c := by
  have hfirst : ∀ c ∈ (seedFirst draws).1.claims, P c := by
    refine seedClaim_claims ?_ (fun _ => none) draws.acme draws.acmeSalt employmentExample _ hacme
    exact List.forall_mem_nil _
  have hsecond : ∀ c ∈ (seedSecond draws).1.claims, P c := by
    refine seedClaim_claims hfirst _ draws.screen draws.screenSalt backgroundCheckExample _ ?_
    rw [Wallet.did, seedFirst_identity]
    exact hscreen
  rw [seed_wallet]
  refine seedClaim_claims hsecond _ draws.uni draws.uniSalt educationExample _ ?_
  rw [Wallet.did, seedSecond_identity]
  exact huni

theorem seedClaim_extends (wallet : Wallet) (labels : String → Option String) (issuer : Identity) (salt : Digest)
    (body : ClaimBody) (label : String) :
    wallet.claims <+: (seedClaim wallet labels issuer salt body label).1.claims := by
  rw [seedClaim]
  split
  · exact List.prefix_append _ _
  · exact List.prefix_rfl

/-- A fresh wallet holds the first claim seeding issues. -/
theorem seed_claims_ne_nil {draws : Draws} {c : Claim}
    (h : (seedCall draws.acmeSalt draws.candidate.did employmentExample).run draws.acme = .ok c) :
    (AppState.seed draws).wallet.claims ≠ [] := by
  have hissue : Claim.issue draws.acmeSalt draws.acme
      (Wallet.did { identity := draws.candidate, claims := [] }) { fromTime := ⟨0⟩, untilTime := none }
      employmentExample = .ok c := h
  have hfirst : (seedFirst draws).1.claims = [c] := by
    rw [seedFirst, seedClaim, hissue]
    rfl
  have hprefix : (seedFirst draws).1.claims <+: (AppState.seed draws).wallet.claims := by
    rw [seed_wallet]
    exact (seedClaim_extends ..).trans (seedClaim_extends ..)
  intro hnil
  rw [hfirst, hnil, List.prefix_nil] at hprefix
  cases hprefix

/-- A claim seeding issued is valid in a registry that recognizes its issuer
and has no marks. -/
theorem seedCall_valid (hlaw : Lawful) {salt : Digest} {subject : Did} {body : ClaimBody} {issuer : Identity}
    {c : Claim} (hrun : (seedCall salt subject body).run issuer = .ok c) {r : Registry}
    (hr : Recognized r issuer body.category) (hmarks : ∀ claimId, r.revoked claimId = none) {s : FieldSelector}
    {d : DisclosedClaim} (hd : c.disclose s = .ok d) {now : Timestamp} (hnow : ⟨0⟩ ≤ now) :
    ClaimValid r.anchor subject now d (verifiedOf d) := by
  obtain ⟨commit, -, hc⟩ := run_eq_ok.mp hrun
  have hissuer : d.issuerId = issuer.did := by rw [disclose_eq hd, hc]; rfl
  have hcategory : d.category = body.category := by rw [disclose_eq hd, hc]; rfl
  refine disclose_valid hlaw ⟨_, rfl, hrun⟩ hd ⟨?_, ?_, fun _ => ?_, ?_, ?_⟩
  · rw [hissuer]
    exact hr.key
  · rw [disclose_validity hrun hd]
    simp [seedCall, Validity.activeAt, hnow]
  · rw [hissuer, hcategory]
    exact (standing_iff r issuer.did body.category).mpr hr.accredited
  · simp [Registry.anchor, Registry.isRevoked, hmarks]
  · have hreliance := disclose_reliance hd
    rw [run_reliance hrun] at hreliance
    have hnil : d.reliance = [] := List.map_eq_nil_iff.mp hreliance
    simp [hnil]

/-- A fresh world finds every disclosure of its claims valid. -/
theorem seed_valid (hlaw : Lawful) {draws : Draws} (h : Distinct draws) {now : Timestamp} (hnow : ⟨0⟩ ≤ now)
    {d : DisclosedClaim} (hd : Wallet.Discloses (AppState.seed draws).wallet d) :
    ClaimValid (AppState.seed draws).registry.anchor draws.candidate.did now d (verifiedOf d) := by
  obtain ⟨c, hc, s, hd⟩ := hd
  obtain ⟨hacme, hscreen, huni⟩ := seed_recognized hlaw h
  have hvalid : ∀ c ∈ (AppState.seed draws).wallet.claims, ∀ s d, c.disclose s = .ok d →
      ClaimValid (AppState.seed draws).registry.anchor draws.candidate.did now d (verifiedOf d) :=
    seed_claims (fun c hrun s d hd => seedCall_valid hlaw hrun hacme (fun _ => rfl) hd hnow)
      (fun c hrun s d hd => seedCall_valid hlaw hrun hscreen (fun _ => rfl) hd hnow)
      (fun c hrun s d hd => seedCall_valid hlaw hrun huni (fun _ => rfl) hd hnow)
  exact hvalid c hc s d hd

end

/-! ## Packages that tell keys apart -/

/-- A key in the last byte, which the hash keeps apart from others. -/
def lastByte (key : UInt8) : ByteVec 32 := ⟨List.replicate 31 0 ++ [key], rfl⟩

abbrev telling : External := packages UInt8 lastByte (fun bs => .ok (bs.val.getLastD 0)) fun _ _ => true

section

attribute [local instance] telling

theorem telling_lawful : Lawful where
  sign_verify _ _ := packages_verify ..
  fromBytes_toBytes _ := rfl

/-- The identity of a key. -/
def party (key : UInt8) : Identity := ⟨key⟩

/-- What a seeding draws, from a key on. -/
def drawsFrom (key : UInt8) : Draws where
  accreditor₁ := party key
  accreditor₂ := party (key + 1)
  employer := party (key + 2)
  candidate := party (key + 3)
  acme := party (key + 4)
  screen := party (key + 5)
  uni := party (key + 6)
  acmeSalt := digest [key, 4]
  screenSalt := digest [key, 5]
  uniSalt := digest [key, 6]

theorem drawsFrom_distinct : Distinct (drawsFrom 30) where
  accreditors := show (party 30).did ≠ (party 31).did by decide +kernel
  acme_screen := show (party 34).did ≠ (party 35).did by decide +kernel
  acme_uni := show (party 34).did ≠ (party 36).did by decide +kernel
  screen_uni := show (party 35).did ≠ (party 36).did by decide +kernel

theorem drawsFrom_claims (key : UInt8) : ∃ c cs, (AppState.seed (drawsFrom key)).wallet.claims = c :: cs := by
  obtain ⟨commit, hcommit⟩ : ∃ commit, (seedCall (drawsFrom key).acmeSalt (drawsFrom key).candidate.did
      employmentExample).Commits commit := packages_commits (show 0 < 2 ^ 32 by decide)
  exact List.exists_cons_of_ne_nil (seed_claims_ne_nil (run_of_commits (drawsFrom key).acme hcommit))

end

end AionTrust.Proof
