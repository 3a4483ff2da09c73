import AionTrust.Proof.FileStore
import AionTrust.Proof.Flags
import AionTrust.Proof.Predicates
import AionTrust.Proof.Revealing
import AionTrust.Spec.Pipeline

/-!
# From an issuer's file to a verifier's exit code

What a run issues to a file is what the next to read it finds (`claim_found`),
and so is a presentation (`presentation_found`). With issued claims in their
files, a presentation shows the fields its selectors name, and a directory of
keys finds a claim valid just when the issuer's key is listed
(`issued_valid_iff`). So the exit code of a verification is told from what the
runs before it were asked for, without a look at what is in the files
(`pipeline_exact`).
-/

namespace AionTrust.Proof

open AionTrust.Impl AionTrust.Spec
open Framework (bind_eq_ok mapError_eq_ok mapM_eq_ok okOr_eq_ok pure_eq_ok ok_bind)
open Framework.Process

/-! ## Keys in files -/

theorem hexChar_not_space : ∀ n < 16, isWhitespace (hexChar (UInt8.ofNat n)) = false := by decide

theorem mem_toHex {bs : Framework.Bytes} {c : Char} (h : c ∈ (toHex bs).toList) :
    ∃ n < 16, c = hexChar (UInt8.ofNat n) := by
  rw [toHex, String.toList_ofList, List.mem_flatMap] at h
  obtain ⟨b, -, hmem⟩ := h
  have hb := b.toNat_lt
  rcases List.mem_pair.mp hmem with rfl | rfl
  · exact ⟨(b >>> 4).toNat, by rw [toNat_high]; omega, by rw [UInt8.ofNat_toNat]⟩
  · exact ⟨(b &&& 0x0f).toNat, by rw [toNat_low]; omega, by rw [UInt8.ofNat_toNat]⟩

theorem trim_toHex (bs : Framework.Bytes) : trim (toHex bs) = toHex bs := by
  have hspace : ∀ c ∈ (toHex bs).toList, isWhitespace c = false := by
    intro c hc
    obtain ⟨n, hn, rfl⟩ := mem_toHex hc
    exact hexChar_not_space n hn
  exact trim_eq (fun c hc => hspace c (List.mem_of_head? hc)) fun c hc => hspace c (List.mem_of_getLast? hc)

/-- A secret in a file is its identity's. -/
theorem load_secret [External] [SecretBytes]
    (hsecret : ∀ key : SigningKey, SecretBytes.fromBytes (SecretBytes.toBytes key) = .ok key) {files : Files}
    {path : String} {i : Identity} (h : files path = some i.secretHex) : loadIdentity files path = .ok i := by
  simp only [loadIdentity, h, Identity.secretHex, trim_toHex, Identity.fromSecretHex, decodeArray_toHex, ok_bind, hsecret]
  rfl

/-! ## Directories -/

section

variable [External] {issuerKeys : List String} {directory : IssuerDirectory}

theorem directoryOf_eq_ok : Commands.directoryOf issuerKeys = .ok directory ↔
    ∃ vks, List.Forall₂ (fun key vk => verifyingKeyFromHex key = .ok vk) issuerKeys vks ∧
      directory = vks.foldl IssuerDirectory.register .new := by
  simp only [Commands.directoryOf, Framework.foldlM_results, mapError_eq_ok]

theorem keys_register (start : IssuerDirectory) (vk : VerifyingKey) (did : Did) :
    (start.register vk).keys did = if did = Did.fromKey vk then some vk else start.keys did :=
  Function.update_apply ..

/-- A directory has the keys that were registered. -/
theorem registered_key {vks : List VerifyingKey} {did : Did} {vk : VerifyingKey}
    (h : (vks.foldl IssuerDirectory.register .new).keys did = some vk) : vk ∈ vks ∧ Did.fromKey vk = did := by
  induction vks using List.reverseRecOn with
  | nil => cases h
  | append_singleton vks last ih =>
    rw [List.foldl_append, List.foldl_cons, List.foldl_nil, keys_register] at h
    split at h
    · rename_i hlast
      obtain rfl := Option.some.inj h
      exact ⟨by simp, hlast.symm⟩
    · obtain ⟨hmem, hdid⟩ := ih h
      exact ⟨List.mem_append_left _ hmem, hdid⟩

/-- A key that was registered has an entry. -/
theorem registered_did {vks : List VerifyingKey} {vk : VerifyingKey} (h : vk ∈ vks) :
    ∃ vk', (vks.foldl IssuerDirectory.register .new).keys (Did.fromKey vk) = some vk' := by
  induction vks using List.reverseRecOn with
  | nil => cases h
  | append_singleton vks last ih =>
    rw [List.foldl_append, List.foldl_cons, List.foldl_nil, keys_register]
    split
    · exact ⟨last, rfl⟩
    · rename_i hlast
      refine ih ((List.mem_append.mp h).resolve_right fun hmem => hlast ?_)
      rw [List.mem_singleton.mp hmem]

/-- The listed keys make a directory where all of them decode. -/
theorem directoryOf_isOk : (∃ directory, Commands.directoryOf issuerKeys = .ok directory) ↔
    ∀ key ∈ issuerKeys, ∃ vk, verifyingKeyFromHex key = .ok vk := by
  constructor
  · rintro ⟨_, h⟩ key hkey
    obtain ⟨vks, hvks, -⟩ := directoryOf_eq_ok.mp h
    obtain ⟨vk, -, hvk⟩ := Framework.exists_right hvks hkey
    exact ⟨vk, hvk⟩
  · intro h
    obtain ⟨vks, hvks⟩ := Framework.mapM_isOk h
    exact ⟨_, directoryOf_eq_ok.mpr ⟨vks, mapM_eq_ok.mp hvks, rfl⟩⟩

/-- Where no other listed key has an issuer's did, the directory knows the
issuer just when the issuer's key is listed. -/
theorem directory_listed (h : Commands.directoryOf issuerKeys = .ok directory) {issuer : Identity}
    (hown : ∀ key ∈ issuerKeys, ∀ vk, verifyingKeyFromHex key = .ok vk → Did.fromKey vk = issuer.did →
      vk = issuer.verifyingKey) :
    (∃ vk, directory.keys issuer.did = some vk) ↔ Listed issuerKeys issuer := by
  obtain ⟨vks, hvks, rfl⟩ := directoryOf_eq_ok.mp h
  constructor
  · rintro ⟨vk, hvk⟩
    obtain ⟨hmem, hdid⟩ := registered_key hvk
    obtain ⟨key, hkey, hread⟩ := Framework.exists_left hvks hmem
    exact ⟨key, hkey, hown key hkey vk hread hdid ▸ hread⟩
  · rintro ⟨key, hkey, hread⟩
    obtain ⟨vk, hmem, hvk⟩ := Framework.exists_right hvks hkey
    obtain rfl : issuer.verifyingKey = vk := Except.ok.inj (hread.symm.trans hvk)
    exact registered_did hmem

/-- The key it knows the issuer by is the issuer's. -/
theorem directory_own (h : Commands.directoryOf issuerKeys = .ok directory) {issuer : Identity}
    (hown : ∀ key ∈ issuerKeys, ∀ vk, verifyingKeyFromHex key = .ok vk → Did.fromKey vk = issuer.did →
      vk = issuer.verifyingKey) {vk : VerifyingKey} (hvk : directory.keys issuer.did = some vk) :
    vk = issuer.verifyingKey := by
  obtain ⟨vks, hvks, rfl⟩ := directoryOf_eq_ok.mp h
  obtain ⟨hmem, hdid⟩ := registered_key hvk
  obtain ⟨key, hkey, hread⟩ := Framework.exists_left hvks hmem
  exact hown key hkey vk hread hdid

/-! ## Claims as issued -/

variable {issuer subject : Identity} {call : IssueCall} {c : Claim} {s : FieldSelector} {d : DisclosedClaim}
  {now : Timestamp}

/-- A directory finds a disclosure of an issued claim valid just when it knows
the issuer, and the claim is the presenter's and active. -/
theorem issued_valid_iff (hlaw : Lawful) (hrun : call.run issuer = .ok c) (hd : c.disclose s = .ok d)
    (hown : ∀ vk, directory.keys issuer.did = some vk → vk = issuer.verifyingKey) :
    (∃ v, ClaimValid directory.anchor subject.did now d v) ↔ (∃ vk, directory.keys issuer.did = some vk) ∧
      c.subjectId = subject.did ∧ c.validity.activeAt now = true := by
  have hissuer : d.issuerId = issuer.did := by
    obtain ⟨commit, -, rfl⟩ := run_eq_ok.mp hrun
    rw [disclose_eq hd]
    rfl
  have hsubject : d.subjectId = c.subjectId := by
    rw [disclose_eq hd]
    rfl
  have hvalidity : d.validity = c.validity := by
    rw [disclose_eq hd]
    rfl
  constructor
  · rintro ⟨v, hv⟩
    obtain ⟨vk, hvk, hverify⟩ := hv.verified
    refine ⟨⟨vk, hissuer ▸ hvk⟩, hsubject ▸ hv.subject, ?_⟩
    have hactive := hv.active
    rw [verify_eq_verifiedOf hverify] at hactive
    exact hvalidity ▸ hactive
  · rintro ⟨⟨vk, hvk⟩, hsub, hactive⟩
    obtain rfl := hown vk hvk
    refine ⟨_, disclose_valid hlaw ⟨call, ?_, hrun⟩ hd ⟨hissuer ▸ hvk, hvalidity ▸ hactive, by simp [IssuerDirectory.anchor],
      rfl, fun _ _ => rfl⟩⟩
    rw [← (run_parts hrun).1, hsub]

/-- What is proven of a disclosure answers a predicate just when the claim does
with a field its selector names. -/
theorem answered_iff (hd : c.disclose s = .ok d) {req : PredicateRequest} :
    (d.category = req.category ∧ (∀ scale, req.scaleVersion = some scale → d.schemaId = scale) ∧
      ∃ value, (verifiedOf d).value req.field = some value ∧ evaluate req.op value req.bound = .ok true) ↔
      Answered req c s := by
  have hcategory : d.category = c.category := by
    rw [disclose_eq hd]
    rfl
  have hschema : d.schemaId = c.schemaId := by
    rw [disclose_eq hd]
    rfl
  have hreveals := shows_reveals (disclose_shows hd) (disclose_reliance hd)
  rw [hcategory, hschema]
  constructor
  · rintro ⟨hsame, hscale, value, hvalue, heval⟩
    have hfield : req.field ∈ selectedKeys c s := by
      by_contra hnot
      rw [hreveals.withheld _ hnot] at hvalue
      cases hvalue
    exact ⟨hsame, hscale, hfield, value, (hreveals.values _ hfield _).mp hvalue, heval⟩
  · rintro ⟨hsame, hscale, hfield, value, hvalue, heval⟩
    exact ⟨hsame, hscale, value, (hreveals.values _ hfield _).mpr hvalue, heval⟩

/-- Of valid disclosures, one satisfies a predicate just when its claim answers
it. -/
theorem disclosed_satisfied_iff {paths : List String} {claim : String → Claim} {selector : String → FieldSelector}
    {ds : List DisclosedClaim} (hds : List.Forall₂ (fun path d => (claim path).disclose (selector path) = .ok d) paths ds)
    {anchor : TrustAnchor} {presenter : Did} (hvalid : ClaimsValid anchor presenter now ds) {req : PredicateRequest} :
    Satisfied anchor presenter now ds req ↔ ∃ path ∈ paths, Answered req (claim path) (selector path) := by
  constructor
  · rintro ⟨d, hd, v, hv, hcategory, hscale, hvalue⟩
    obtain ⟨path, hpath, hdisclose⟩ := Framework.exists_left hds hd
    obtain ⟨vk, -, hverify⟩ := hv.verified
    rw [verify_eq_verifiedOf hverify] at hvalue
    exact ⟨path, hpath, (answered_iff hdisclose).mp ⟨hcategory, hscale, hvalue⟩⟩
  · rintro ⟨path, hpath, hanswered⟩
    obtain ⟨d, hd, hdisclose⟩ := Framework.exists_right hds hpath
    obtain ⟨v, hv⟩ := hvalid d hd
    obtain ⟨vk, -, hverify⟩ := hv.verified
    obtain ⟨hcategory, hscale, hvalue⟩ := (answered_iff hdisclose).mpr hanswered
    rw [← verify_eq_verifiedOf hverify] at hvalue
    exact ⟨d, hd, v, hv, hcategory, hscale, hvalue⟩

end

/-! ## What is presented -/

section

variable [External] {subject : Identity} {audience audience' : Did} {purpose : String} {n₁ n₂ : ByteVec 12}
  {issuedAt expiresAt now : Timestamp} {ds : List DisclosedClaim} {anchor : TrustAnchor}
  {requests : List PredicateRequest}

/-- When a verifier that has not seen its nonce accepts a presentation that its
subject built. -/
theorem built_accepted_iff (hlaw : Lawful) :
    (∃ report, verifyPresentationWithPredicates (buildPresentation subject audience purpose (freshNonce n₁ n₂)
        issuedAt expiresAt ds) audience' now anchor false requests = .ok report ∧ report.accepted = true) ↔
      audience = audience' ∧ issuedAt ≤ now ∧ now ≤ expiresAt ∧ ds ≠ [] ∧ ClaimsValid anchor subject.did now ds ∧
      ∀ req ∈ requests, Satisfied anchor subject.did now ds req := by
  constructor
  · rintro ⟨report, hreport, hacc⟩
    obtain ⟨⟨_, _, _, -, hbound⟩, hclaims, hrequests⟩ := (report_accepted_iff hreport).mp hacc
    exact ⟨hbound.audience, hbound.issued, hbound.unexpired, hbound.nonempty, hclaims, hrequests⟩
  · rintro ⟨rfl, hfrom, huntil, hne, hclaims, hrequests⟩
    exact buildPresentation_accepted hlaw audience purpose (freshNonce_length n₁ n₂) hne hfrom huntil hclaims requests
      hrequests

end

/-! ## What the command presents -/

section

theorem emit_eq_ok {α : Type} [JsonText α] {value : α} {path : String} {e : Effect} :
    Commands.emit value (some path) = .ok e ↔ ∃ text, JsonText.toStringPretty value = .ok text ∧
      e = ⟨some (path, text), "", "written to " ++ path ++ "\n", 0⟩ := by
  simp only [Commands.emit, bind_eq_ok, mapError_eq_ok, pure_eq_ok, eq_comm (b := e)]

variable [External] [SecretBytes] [JsonText Claim] [JsonText Presentation]

/-- The command presents the claims in its files as `Cli.present` does. -/
theorem commands_present_eq_ok {m : Moment} {found : Files} {a : PresentArgs} {e : Effect} :
    Commands.present m found a = .ok e ↔ ∃ subject claims p, loadIdentity found a.subject = .ok subject ∧
      List.Forall₂ (fun path c => readJson Claim found path = .ok c) a.claims claims ∧
      Cli.present subject a.audience a.purpose claims a.reveal a.expiresIn m.now m.draw₁ m.draw₂ = .ok p ∧
      Commands.emit p a.out = .ok e := by
  have hfile : ∀ {selectors path d}, Commands.discloseFile found selectors path = .ok d ↔ ∃ c : Claim,
      readJson Claim found path = .ok c ∧ c.disclose ((selectors c.claimId.asStr).getD .all) = .ok d := by
    intro selectors path d
    simp only [Commands.discloseFile, bind_eq_ok, mapError_eq_ok]
  simp only [Commands.present, bind_eq_ok, mapError_eq_ok, mapM_eq_ok, hfile, Framework.forall₂_comp, cli_present_eq_ok]
  constructor
  · rintro ⟨subject, hsubject, selectors, hselectors, ds, ⟨claims, hclaims, hds⟩, hemit⟩
    exact ⟨subject, claims, _, hsubject, hclaims, ⟨selectors, ds, hselectors, hds, rfl⟩, hemit⟩
  · rintro ⟨subject, claims, _, hsubject, hclaims, ⟨selectors, ds, hselectors, hds, rfl⟩, hemit⟩
    exact ⟨subject, hsubject, selectors, hselectors, ds, ⟨claims, hclaims, hds⟩, hemit⟩

end

/-! ## What is in the files -/

section

variable [External] [SecretBytes] [Serde] [JsonText Claim] [JsonText DisclosedClaim] [JsonText Presentation]
  [JsonText JsonFileNonceStore] [JsonText Value]

theorem issues_write (h : Texts) {path : String} {issuer : Identity} {c : Claim} {x : Finished}
    (hissues : Issues path issuer c x) :
    ∃ text, JsonText.toStringPretty c = .ok text ∧ (effect x.2.1 x.1).write = some (path, text) := by
  obtain ⟨text, htext⟩ := h.written c
  refine ⟨text, htext, ?_⟩
  cases hissues with
  | issue a m files e hout hissuer hrun =>
    have hclaim : Claim.issue (randomSalt m.draw₁ m.draw₂ m.draw₃) issuer (.fromString a.subject)
        ⟨m.now, a.validUntil.map .mk⟩ a.body = .ok c := hrun
    simp only [effect, Commands.run, Commands.issue, hissuer, ok_bind, Commands.issueBody, hclaim, Commands.emit, htext,
      hout, Framework.mapError_ok]
    rfl
  | issueCheck a m files e hout hissuer hrun =>
    have hclaim : Claim.issue (randomSalt m.draw₁ m.draw₂ m.draw₃) issuer (.fromString a.subject)
        ⟨m.now, none⟩ a.body = .ok c := hrun
    simp only [effect, Commands.run, Commands.issueCheck, hissuer, ok_bind, Commands.issueBody, hclaim, Commands.emit, htext,
      hout, Framework.mapError_ok]
    rfl

/-- A run writes no other file. -/
theorem writes_only {path path' text : String} {x : Finished} (h : (effect x.2.1 x.1).write = some (path, text))
    (hne : path' ≠ path) : ¬ Wrote path' x := by
  rintro ⟨text', h'⟩
  exact hne (congrArg Prod.fst (Option.some.inj (h'.symm.trans h)))

/-- What a run that presents has read and written. -/
structure Presented (m : Moment) (found : Files) (a : PresentArgs) (path : String) (subject : Identity)
    (claims : List Claim) (p : Presentation) (text : String) : Prop where
  loads : loadIdentity found a.subject = .ok subject
  reads : List.Forall₂ (fun path c => readJson Claim found path = .ok c) a.claims claims
  presents : Cli.present subject a.audience a.purpose claims a.reveal a.expiresIn m.now m.draw₁ m.draw₂ = .ok p
  written : JsonText.toStringPretty p = .ok text
  writes : (effect found (.present a, m)).write = some (path, text)

theorem present_exit {m : Moment} {found : Files} {a : PresentArgs} {path : String} (hout : a.out = some path)
    (h : (effect found (.present a, m)).exitCode = 0) :
    ∃ subject claims p text, Presented m found a path subject claims p text := by
  obtain ⟨e, he, -⟩ := main_exitCode.mp h
  obtain ⟨subject, claims, p, hsubject, hclaims, hp, hemit⟩ := commands_present_eq_ok.mp he
  rw [hout] at hemit
  obtain ⟨text, htext, rfl⟩ := emit_eq_ok.mp hemit
  exact ⟨subject, claims, p, text, hsubject, hclaims, hp, htext, main_write.mpr ⟨_, he, rfl⟩⟩

variable {I : Type} [DecidableEq I] {files : Files} {es : List (Event I (Cmd × Moment) (Option String))}

/-- A run that finished did what it does to the files it found. -/
theorem finished_effect {pre post : List Finished} {x : Finished}
    (h : commands.finished (idle files) es = pre ++ x :: post) : x.2.2 = effect x.2.1 x.1 := by
  obtain ⟨_, _, _, -, -, hanswer⟩ := Programs.finished_split h
  obtain ⟨_, -, -, heffect⟩ := Programs.answer_eq_some hanswer
  exact heffect

/-- A run finds in a file what the last to write it before had written. -/
theorem found_last (hclear : commands.interleaved.All (fun st e => ∀ path, commands.Clear path st e) (idle files) es)
    (hwhole : ∀ e ∈ es, e.Whole) {before after post : List Finished} {x y : Finished}
    (hfinished : commands.finished (idle files) es = before ++ x :: (after ++ y :: post)) {path text : String}
    (hwrite : (effect x.2.1 x.1).write = some (path, text)) (hnone : ∀ z ∈ after, ¬ Wrote path z)
    (hreads : path ∈ Cmd.paths y.1.1) : y.2.1 path = some text :=
  Programs.read_last (Framework.Machine.all_forall.mp hclear path) hwhole (Programs.current_idle files) hfinished
    (exec_write.mpr ⟨text, hwrite, rfl⟩) (fun z hz _ hw => hnone z hz ⟨_, (exec_write.mp hw).choose_spec.1⟩) hreads

/-- A run that reads a file where a key was made finds the key. -/
theorem secret_found (hsecret : ∀ key : SigningKey, SecretBytes.fromBytes (SecretBytes.toBytes key) = .ok key)
    (hclear : commands.interleaved.All (fun st e => ∀ path, commands.Clear path st e) (idle files) es)
    (hwhole : ∀ e ∈ es, e.Whole) {before after post : List Finished} {y : Finished} {path : String} {m : Moment}
    {found : Files} {e : Effect}
    (hfinished : commands.finished (idle files) es =
      before ++ ((.keygen (some path), m), found, e) :: (after ++ y :: post))
    (hnone : ∀ z ∈ after, ¬ Wrote path z) (hreads : path ∈ Cmd.paths y.1.1) : loadIdentity y.2.1 path = .ok ⟨m.key⟩ :=
  load_secret hsecret (found_last hclear hwhole hfinished rfl hnone hreads)

/-- A run that reads a file where a claim was issued finds the claim. -/
theorem claim_found (h : Texts)
    (hclear : commands.interleaved.All (fun st e => ∀ path, commands.Clear path st e) (idle files) es)
    (hwhole : ∀ e ∈ es, e.Whole) {pre post : List Finished} {y : Finished}
    (hfinished : commands.finished (idle files) es = pre ++ y :: post) {path : String} {issuer : Identity} {c : Claim}
    (hissued : IssuedAt path issuer c pre) (hreads : path ∈ Cmd.paths y.1.1) :
    readJson Claim y.2.1 path = .ok c := by
  obtain ⟨before, x, after, rfl, hissues, hnone⟩ := hissued
  obtain ⟨text, htext, hwrite⟩ := issues_write h hissues
  rw [List.append_assoc, List.cons_append] at hfinished
  rw [readJson, readToString, found_last hclear hwhole hfinished hwrite hnone hreads, Framework.okOr_some, ok_bind,
    h.claim c text htext]
  rfl

theorem issuedAt_run {path : String} {issuer : Identity} {c : Claim} {done : List Finished}
    (h : IssuedAt path issuer c done) : ∃ call : IssueCall, call.run issuer = .ok c := by
  obtain ⟨_, _, _, -, hissues, -⟩ := h
  cases hissues with
  | issue a m _ _ _ _ hrun => exact ⟨_, hrun⟩
  | issueCheck a m _ _ _ _ hrun => exact ⟨_, hrun⟩

/-- A verification finds the presentation that was written to its file. -/
theorem presentation_found (h : Texts)
    (hclear : commands.interleaved.All (fun st e => ∀ path, commands.Clear path st e) (idle files) es)
    (hwhole : ∀ e ∈ es, e.Whole) {pre mid post : List Finished} {a : PresentArgs} {m : Moment} {found : Files}
    {e : Effect} {y : Finished} {path : String}
    (hfinished : commands.finished (idle files) es = pre ++ ((.present a, m), found, e) :: (mid ++ y :: post))
    (hnone : ∀ z ∈ mid, ¬ Wrote path z) (hreads : path ∈ Cmd.paths y.1.1) {subject : Identity} {claims : List Claim}
    {p : Presentation} {text : String} (hpresented : Presented m found a path subject claims p text)
    (hexact : ∀ d ∈ p.claims, ∀ f ∈ d.fields, Pretty.Exact f.value) : readJson Presentation y.2.1 path = .ok p := by
  rw [readJson, readToString, found_last hclear hwhole hfinished hpresented.writes hnone hreads, Framework.okOr_some,
    ok_bind, h.presentation _ text hexact hpresented.written]
  rfl

/-! ## From one to the other -/

end

section

attribute [local instance] lawful reading jsonText secrets

theorem texts : Texts where
  written c := ⟨_, toStringPretty_eq_ok.mpr ⟨exact_claim c, rfl⟩⟩
  claim _ _ htext := fromStr_eq_ok.mpr htext
  presentation _ _ _ htext := fromStr_eq_ok.mpr htext

def issueArgs : IssueArgs where
  issuer := "issuer.key"
  subject := (identity 1).did.asStr
  employer := "Acme"
  title := "Engineer"
  start := "2021-03"
  «end» := none
  employmentType := "full_time"
  rehire := true
  validUntil := none
  out := some "claim.json"

def presentArgs : PresentArgs where
  subject := "subject.key"
  audience := "did:aion:verifier"
  purpose := "hiring"
  claims := ["claim.json"]
  reveal := []
  expiresIn := 600
  out := some "presentation.json"

/-- A verification that asks for a title. -/
def checkArgs (title : String) : VerifyArgs where
  presentation := "presentation.json"
  audience := "did:aion:verifier"
  issuerKeys := [toHex (keyBytes 2).val]
  nonceStore := none
  predicates := [predicateLine "employment" "title" "eq" title]

/-- A run that finished, from the files it found. -/
noncomputable def ran (run : Cmd × Moment) (files : Files) : Finished := (run, files, effect files run)

def makeIssuer : Cmd × Moment :=
  (.keygen (some "issuer.key"), { momentAt ⟨0⟩ with key := (identity 2).signingKey })

def makeSubject : Cmd × Moment := (.keygen (some "subject.key"), momentAt ⟨0⟩)

def issueClaim : Cmd × Moment := (.issue issueArgs, momentAt ⟨1000⟩)

def presentClaim : Cmd × Moment := (.present presentArgs, momentAt ⟨1100⟩)

def verifyClaim (title : String) : Cmd × Moment := (.verify (checkArgs title), momentAt ⟨1200⟩)

/-- Two keys, a claim, its presentation and its verification, from no files. -/
def steps (title : String) : List (Event Unit (Cmd × Moment) (Option String)) :=
  Programs.oneByOne [makeIssuer, makeSubject, issueClaim, presentClaim, verifyClaim title]

/-- What each of the runs finds. -/
def StepsFind (title : String) (f₁ f₂ f₃ f₄ : Files) : Prop := commands.finished (idle fun _ => none) (steps title) =
  [ran makeIssuer fun _ => none, ran makeSubject f₁, ran issueClaim f₂, ran presentClaim f₃, ran (verifyClaim title) f₄]

theorem steps_find : ∃ f₁ f₂ f₃ f₄, ∀ title, StepsFind title f₁ f₂ f₃ f₄ := ⟨_, _, _, _, fun _ => rfl⟩

section

variable {title : String}

theorem steps_clear : commands.interleaved.All (fun st e => ∀ path, commands.Clear path st e) (idle fun _ => none)
    (steps title) :=
  Programs.oneByOne_clear _ _

theorem steps_whole : ∀ e ∈ steps title, e.Whole := Programs.oneByOne_whole _

theorem issueClaim_run : ∃ c, (IssueArgs.call issueArgs (momentAt ⟨1000⟩)).run (identity 2) = .ok c := by
  obtain ⟨commit, hcommit⟩ : ∃ commit, (IssueArgs.call issueArgs (momentAt ⟨1000⟩)).Commits commit :=
    packages_commits (show 0 < 2 ^ 32 by decide)
  exact ⟨_, run_of_commits (identity 2) hcommit⟩

variable {f₁ f₂ f₃ f₄ : Files} (h : StepsFind title f₁ f₂ f₃ f₄) {c : Claim}
  (hrun : (IssueArgs.call issueArgs (momentAt ⟨1000⟩)).run (identity 2) = .ok c)

include h

theorem steps_issuer : loadIdentity f₂ "issuer.key" = .ok (identity 2) := by
  have hsplit : commands.finished (idle fun _ => none) (steps title) = [] ++ ran makeIssuer (fun _ => none) ::
    ([ran makeSubject f₁] ++ ran issueClaim f₂ :: [ran presentClaim f₃, ran (verifyClaim title) f₄]) := h
  refine secret_found (fun _ => rfl) steps_clear steps_whole hsplit (fun z hz => ?_) List.mem_cons_self
  obtain rfl := List.mem_singleton.mp hz
  exact writes_only (rfl : _ = some ("subject.key", _)) (by decide)

include hrun

theorem steps_issues : Issues "claim.json" (identity 2) c (ran issueClaim f₂) :=
  .issue issueArgs _ _ _ rfl (steps_issuer h) hrun

theorem steps_subject : loadIdentity f₃ "subject.key" = .ok (identity 1) := by
  have hsplit : commands.finished (idle fun _ => none) (steps title) = [ran makeIssuer (fun _ => none)] ++
    ran makeSubject f₁ :: ([ran issueClaim f₂] ++ ran presentClaim f₃ :: [ran (verifyClaim title) f₄]) := h
  refine secret_found (fun _ => rfl) steps_clear steps_whole hsplit (fun z hz => ?_) List.mem_cons_self
  obtain rfl := List.mem_singleton.mp hz
  obtain ⟨text, -, hwrite⟩ := issues_write texts (steps_issues h hrun)
  exact writes_only hwrite (by decide)

theorem steps_issued : IssuedAt "claim.json" (identity 2) c
    [ran makeIssuer (fun _ => none), ran makeSubject f₁, ran issueClaim f₂] :=
  ⟨[_, _], _, [], rfl, steps_issues h hrun, List.forall_mem_nil _⟩

/-- The claim is presented. -/
theorem steps_presented : (effect f₃ presentClaim).exitCode = 0 := by
  have hsplit : commands.finished (idle fun _ => none) (steps title) = [ran makeIssuer (fun _ => none), ran makeSubject f₁,
    ran issueClaim f₂] ++ ran presentClaim f₃ :: [ran (verifyClaim title) f₄] := h
  have hread : readJson Claim f₃ "claim.json" = .ok c :=
    claim_found texts steps_clear steps_whole hsplit (steps_issued h hrun)
      (show "claim.json" ∈ Cmd.paths (.present presentArgs) by decide)
  obtain ⟨d, hd⟩ := disclose_all_isOk hrun
  have hds : List.Forall₂ (fun c d => Claim.disclose c (Option.getD none .all) = .ok d) [c] [d] := .cons hd .nil
  have hpresent : Cli.present (identity 1) presentArgs.audience presentArgs.purpose [c] presentArgs.reveal
      presentArgs.expiresIn ⟨1100⟩ (momentAt ⟨1100⟩).draw₁ (momentAt ⟨1100⟩).draw₂ = .ok _ :=
    cli_present_eq_ok.mpr ⟨fun _ => none, [d], rfl, hds, rfl⟩
  have hexact : ∀ d' ∈ [d], ∀ f ∈ d'.fields, Pretty.Exact f.value := by
    intro d' hd' f hf
    obtain rfl := List.mem_singleton.mp hd'
    exact Pretty.exact_of_object (exact_fields c.body) _ (disclose_field_mem hd f hf)
  obtain ⟨text, htext⟩ : ∃ text, JsonText.toStringPretty (buildPresentation (identity 1) (.fromString presentArgs.audience)
      presentArgs.purpose (freshNonce (momentAt ⟨1100⟩).draw₁ (momentAt ⟨1100⟩).draw₂) ⟨1100⟩
      ((⟨1100⟩ : Timestamp).plusSeconds presentArgs.expiresIn) [d]) = .ok text :=
    ⟨_, toStringPretty_eq_ok.mpr ⟨exact_presentation hexact, rfl⟩⟩
  have hpresents : Commands.present (momentAt ⟨1100⟩) f₃ presentArgs =
      .ok ⟨some ("presentation.json", text), "", "written to presentation.json\n", 0⟩ :=
    commands_present_eq_ok.mpr ⟨identity 1, [c], _, steps_subject h hrun, .cons hread .nil, hpresent,
      emit_eq_ok.mpr ⟨text, htext, rfl⟩⟩
  exact main_exitCode.mpr ⟨_, hpresents, rfl⟩

/-- The verification meets the claim just when it asks for the claim's title. -/
theorem steps_meets (hplain : Plain title) : (∃ subject selectors requests, Meets presentArgs (momentAt ⟨1100⟩) f₃
    (checkArgs title) (momentAt ⟨1200⟩) f₄ (fun _ => c) (fun _ => identity 2) subject selectors requests) ↔
      title = "Engineer" := by
  obtain ⟨hsubject, hbody, hvalidity⟩ := run_parts hrun
  obtain ⟨req, hreq, -, hasks⟩ := parse_predicateLine (show Word "employment" by decide) (show Word "title" by decide)
    (show Word "eq" by decide) hplain (by decide) (o := .eq) rfl rfl
  have hanswered : Answered req c .all ↔ title = "Engineer" := by
    subst hreq
    have hfield : ("title", Value.string "Engineer") ∈ c.body.fields := by
      rw [hbody]
      exact List.mem_cons_of_mem _ List.mem_cons_self
    constructor
    · rintro ⟨-, -, -, value, hvalue, heval⟩
      rw [hbody] at hvalue
      obtain rfl : value = .string "Engineer" := by
        simpa [issueArgs, IssueArgs.call, IssueArgs.body, ClaimBody.fields] using hvalue
      exact (evaluate_eq_text.mp heval).2.symm
    · rintro rfl
      have hcategory : c.category = "employment" := by
        rw [Claim.category, hbody]
        rfl
      exact ⟨hcategory, by simp, mem_fieldKeys.mpr ⟨_, hfield⟩, _, hfield,
        evaluate_eq_text.mpr ⟨show parseI64 "Engineer" = none by decide, rfl⟩⟩
  constructor
  · rintro ⟨subject, selectors, requests, hmeets⟩
    obtain rfl := Except.ok.inj (hmeets.asks.symm.trans hasks)
    obtain rfl : (fun _ => none) = selectors := Except.ok.inj hmeets.reveals
    obtain ⟨_, -, h⟩ := hmeets.answers req List.mem_cons_self
    exact hanswered.mp h
  · intro htitle
    refine ⟨identity 1, fun _ => none, [req], {
      loads := steps_subject h hrun
      reveals := rfl
      asks := hasks
      keys := fun key hkey => ⟨_, List.mem_singleton.mp hkey ▸ key_listed⟩
      audience := rfl
      issued := by decide
      unexpired := by decide
      unseen := fun _ hstore => by cases hstore
      nonempty := by decide
      claims := fun _ _ => ⟨⟨_, List.mem_cons_self, key_listed⟩, hsubject, by rw [hvalidity]; rfl⟩
      answers := fun req' hreq' => ⟨_, List.mem_cons_self, ?_⟩ }⟩
    obtain rfl := List.mem_singleton.mp hreq'
    exact hanswered.mpr htitle

end

end

end AionTrust.Proof
