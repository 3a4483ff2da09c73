import AionTrust.Proof.Accreditation
import AionTrust.Proof.PathFinder
import AionTrust.Proof.SingleUse
import AionTrust.Proof.Unforgeable
import AionTrust.Spec.Network

/-!
# Runs of the network

What a step does and leaves (`accepts_iff`, `registry_step`), and where what a
state holds came from (`held_added`, `registry_origin`). In an unforged run,
what a verifier is handed under a party's key the party said before
(`said_before`): keys sign in every role, and the messages of one role are
never those of another.

A run that keeps to every assumption is one of a skill, issued, presented,
delivered and accepted (`skill_unforged`, `skill_sized`, `told_accepted`).
-/

namespace AionTrust.Proof

open AionTrust.Impl AionTrust.Spec
open Framework (Bytes Fits frames)

section

variable [External] {H V : Type} [DecidableEq H] [DecidableEq V] {parties : Parties H V}
  {epoch : V → UInt64} {steps past : List (Step H V)} {v : V} {p : Presentation} {now : Timestamp}
  {predicates : List PredicateRequest}

/-! ## A delivery -/

/-- The call of the store a delivery is. -/
theorem deliver_eq (net : Network H V) : (network parties).step net (.deliver v p now predicates) =
    let (report, store) := verifyPresentationWithStore p (parties.name v) now (net.registry v).anchor
      (net.store v) predicates
    ({ net with store := Function.update net.store v store }, .verified report) := rfl

/-- What an accepted presentation is, to the verifier it was delivered to. -/
theorem accepts_iff {net : Network H V} :
    ((network parties).step net (.deliver v p now predicates)).2.Accepts ↔
      (∃ subjectVk nonce sig, Decoded p subjectVk nonce sig ∧ Bound p (parties.name v) now
        (NonceStore.seen (net.store v) (parties.name v) p.nonce) subjectVk nonce sig) ∧
      ClaimsValid (net.registry v).anchor p.subjectId now p.claims ∧
      ∀ req ∈ predicates, Satisfied (net.registry v).anchor p.subjectId now p.claims req := by
  rw [deliver_eq, verifyPresentationWithStore]
  cases h : verifyPresentationWithPredicates p (parties.name v) now (net.registry v).anchor
      (NonceStore.seen (net.store v) (parties.name v) p.nonce) predicates with
  | error e =>
    refine iff_of_false (fun h => h) ?_
    rintro ⟨⟨subjectVk, nonce, sig, hdecoded, hbound⟩, hclaims, hpredicates⟩
    obtain ⟨report, hreport, -⟩ := verify_accepts hdecoded hbound hclaims hpredicates
    rw [h] at hreport
    cases hreport
  | ok report => exact report_accepted_iff h

/-! ## What a party signed -/

/-- What a party says in a step, as a message. -/
inductive SaidIn (parties : Parties H V) (h : H) : Message → Entry H V → Prop where
  | claim (call : IssueCall) (commit : ClaimCommit) (c : Claim) (hcommit : call.Commits commit) :
      SaidIn parties h (.claim call.subject (parties.identity h).did call.body.category
        call.body.schemaId call.validity commit) (.issue h call, .issued (.ok c))
  | accreditation (a b : Accreditation) :
      SaidIn parties h (.accreditation a.issuerId a.category a.fromEpoch a.untilEpoch)
        (.endorse h a, .endorsed b)
  | presentation (ask : Ask) (audience : Did) (purpose : String) (ttlSeconds : Int64) (now : Timestamp)
      (n₁ n₂ : ByteVec 12) (q : Presentation) (nonce : Bytes) (hnonce : fromHex q.nonce = .ok nonce) :
      SaidIn parties h (.presentation q.subjectId q.audience q.purpose nonce q.issuedAt q.expiresAt
        (q.claims.map DisclosedClaim.claimId))
        (.present h ask audience purpose ttlSeconds now n₁ n₂, .presented (.ok q))

omit [DecidableEq H] [DecidableEq V] in
/-- What a party signed is a message, framed. -/
theorem saidIn_of_signedIn {h : H} {m : Bytes} {x : Entry H V} (hsigned : SignedIn parties h m x)
    (hsized : Sized parties x) : ∃ msg : Message, SaidIn parties h msg x ∧ msg.Fits ∧
      m = frames 4 (msg.kind.domain :: msg.body) := by
  cases hsigned with
  | issued call commit c hcommit =>
    have hcall : call.Fits (parties.identity h) := hsized
    exact ⟨_, .claim call commit c hcommit, claim_fits _ _ hcall.subject hcall.issuer
      (category_fits call.body) (schemaId_fits call.body), signingBytes_eq ..⟩
  | endorsed a b => exact ⟨_, .accreditation a b, hsized, accreditation_signingBytes_eq a⟩
  | presented ask audience purpose ttlSeconds now n₁ n₂ q nonce hnonce =>
    exact ⟨_, .presentation ask audience purpose ttlSeconds now n₁ n₂ q nonce hnonce,
      hsized nonce hnonce, presSigningBytes_eq ..⟩

/-- A step of a run is an entry of its history. -/
theorem history_split {step : Step H V} {post : List (Step H V)} (hsplit : steps = past ++ step :: post) :
    history parties epoch steps = history parties epoch past ++
      (step, ((network parties).step (after parties epoch past) step).2) ::
        (network parties).trace ((network parties).step (after parties epoch past) step).1 post := by
  rw [history, hsplit, Framework.Machine.trace_append]
  rfl

theorem mem_history {step : Step H V} {post : List (Step H V)} (hsplit : steps = past ++ step :: post) :
    (step, ((network parties).step (after parties epoch past) step).2) ∈ history parties epoch steps := by
  rw [history_split hsplit]
  exact List.mem_append_right _ List.mem_cons_self

theorem mem_past {x : Entry H V} {step : Step H V} {post : List (Step H V)}
    (hsplit : steps = past ++ step :: post) (hx : x ∈ history parties epoch past) :
    x ∈ history parties epoch steps := by
  rw [history_split hsplit]
  exact List.mem_append_left _ hx

/-- In an unforged run, the message of a signature a verifier is handed was said
before by the party whose key it verifies under. -/
theorem said_before (hunforged : Unforged parties (history parties epoch steps))
    (hsized : ∀ x ∈ history parties epoch steps, Sized parties x) {step : Step H V}
    {post : List (Step H V)} (hsplit : steps = past ++ step :: post) {m : Bytes} {sig : ByteVec 64}
    (hcarries : Carries step m sig) {h : H} (hverify : External.verify (parties.key h) m sig = true)
    {msg : Message} (hfits : msg.Fits) (hm : m = frames 4 (msg.kind.domain :: msg.body)) :
    ∃ x ∈ history parties epoch past, SaidIn parties h msg x := by
  obtain ⟨x, hx, hsigned⟩ := hunforged _ _ _ (history_split hsplit) _ _ hcarries h hverify
  obtain ⟨msg', hsaid, hfits', hmessage⟩ := saidIn_of_signedIn hsigned (hsized x (mem_past hsplit hx))
  rw [framed_inj hfits hfits' (hm.symm.trans hmessage)]
  exact ⟨x, hx, hsaid⟩

/-! ## The holder -/

/-- A held claim was added. -/
theorem held_added {h : H} {c : Claim} (hc : c ∈ (after parties epoch past).held h) :
    (.add h c, .done) ∈ history parties epoch past := by
  have hstep : ∀ (net : Network H V) (a : Step H V) (c : Claim),
      c ∈ ((network parties).step net a).1.held h → c ∈ net.held h ∨ a = .add h c := by
    intro net a c hc
    cases a with
    | add holder claim =>
      by_cases hh : h = holder
      · subst hh
        simp only [network, Function.update_self, Wallet.add, List.mem_append, List.mem_singleton] at hc
        exact hc.imp_right (congrArg (Step.add h) ·.symm)
      · exact .inl (by simpa [network, Function.update_of_ne hh] using hc)
    | _ => exact .inl hc
  obtain ⟨pre, a, post, rfl, rfl⟩ := Framework.Machine.origin
    (Q := fun (net : Network H V) c => c ∈ net.held h) (R := fun c (a : Step H V) => a = .add h c)
    hstep hc List.not_mem_nil
  rw [history, Framework.Machine.trace_append]
  exact List.mem_append_right _ List.mem_cons_self

/-- What a wallet presents is built under its key from claims it holds. -/
theorem answer_eq_ok {w : Wallet} {ask : Ask} {audience : Did} {purpose : String} {ttl : Int64}
    {t : Timestamp} {n₁ n₂ : ByteVec 12} {q : Presentation}
    (h : ask.answer w audience purpose ttl t n₁ n₂ = .ok q) :
    (∀ d ∈ q.claims, Wallet.Discloses w d) ∧
      q = buildPresentation w.identity audience purpose (freshNonce n₁ n₂) t (t.plusSeconds ttl)
        q.claims := by
  cases ask with
  | selections chosen => exact present_eq_ok h
  | predicates requests =>
    obtain ⟨ds, hds, rfl⟩ := satisfy_eq_ok.mp h
    refine ⟨fun d hd => ?_, rfl⟩
    obtain ⟨req, -, c, hfind, hdisc⟩ := Framework.exists_left hds hd
    exact ⟨c, List.mem_of_find?_eq_some hfind, _, hdisc⟩

/-- What a party presents discloses claims it was given before. -/
theorem presented_claims {h : H} {ask : Ask} {audience : Did} {purpose : String} {ttl : Int64} {t : Timestamp}
    {n₁ n₂ : ByteVec 12} {q : Presentation}
    (hsigned : (.present h ask audience purpose ttl t n₁ n₂, .presented (.ok q)) ∈ history parties epoch past) :
    q = buildPresentation (parties.identity h) audience purpose (freshNonce n₁ n₂) t (t.plusSeconds ttl)
      q.claims ∧ ∀ d ∈ q.claims, ∃ c s, (.add h c, .done) ∈ history parties epoch past ∧ c.disclose s = .ok d := by
  obtain ⟨pre, post, hsplit⟩ := List.append_of_mem hsigned
  obtain ⟨before, rest, hpast, rfl, hanswer⟩ := Framework.Machine.trace_split hsplit
  obtain ⟨hheld, hq⟩ := answer_eq_ok (Reply.presented.inj hanswer).symm
  refine ⟨hq, fun d hd => ?_⟩
  obtain ⟨c, hc, s, hdisc⟩ := hheld d hd
  exact ⟨c, s, mem_past hpast (held_added hc), hdisc⟩

/-! ## Registries -/

variable (parties) in
/-- A verifier's registry changes by an operation on it. -/
theorem registry_step (net : Network H V) (a : Step H V) (v : V) :
    (∃ op, a = .administer v op ∧
      ((network parties).step net a).1.registry v = op.apply (net.registry v)) ∨
    ((network parties).step net a).1.registry v = net.registry v := by
  cases a with
  | administer v' op =>
    by_cases hv : v = v'
    · subst hv
      exact .inl ⟨op, rfl, Function.update_self ..⟩
    · exact .inr (Function.update_of_ne hv ..)
  | _ => exact .inr rfl

/-- What a verifier's registry holds was put there by an operation. -/
theorem registry_origin {γ : Type} {Q : Registry → γ → Prop} {R : γ → RegistryOp → Prop}
    (hnew : ∀ epoch c, ¬ Q (.new epoch) c)
    (hstep : ∀ (r : Registry) (op : RegistryOp) c, Q (op.apply r) c → Q r c ∨ R c op) {c : γ}
    (h : Q ((after parties epoch past).registry v) c) :
    ∃ pre op post, past = pre ++ .administer v op :: post ∧ R c op := by
  have hnet : ∀ (net : Network H V) (a : Step H V) c, Q (((network parties).step net a).1.registry v) c →
      Q (net.registry v) c ∨ ∃ op, a = .administer v op ∧ R c op := by
    intro net a c hc
    rcases registry_step parties net a v with ⟨op, rfl, hop⟩ | hsame
    · exact (hstep _ op c (hop ▸ hc)).imp_right fun hR => ⟨op, rfl, hR⟩
    · exact .inl (hsame ▸ hc)
  obtain ⟨pre, a, post, rfl, op, rfl, hop⟩ := Framework.Machine.origin
    (Q := fun (net : Network H V) c => Q (net.registry v) c)
    (R := fun c (a : Step H V) => ∃ op, a = .administer v op ∧ R c op) hnet h (hnew (epoch v) c)
  exact ⟨pre, op, post, rfl, hop⟩

/-- A key a verifier knows an issuer by was registered. -/
theorem issuer_registered {did : Did} {vk : VerifyingKey}
    (hkey : ((after parties epoch past).registry v).issuerKeys did = some vk) :
    (.administer v (.registerIssuer vk), .done) ∈ history parties epoch past := by
  have hstep : ∀ (r : Registry) (op : RegistryOp) vk, (∃ did, (op.apply r).issuerKeys did = some vk) →
      (∃ did, r.issuerKeys did = some vk) ∨ op = .registerIssuer vk := by
    rintro r op vk ⟨did, hdid⟩
    cases op with
    | registerIssuer key =>
      by_cases hd : did = Did.fromKey key
      · subst hd
        simp only [RegistryOp.apply, Registry.registerIssuer, Function.update_self] at hdid
        exact .inr (by rw [Option.some.inj hdid])
      · exact .inl ⟨did, by simpa [RegistryOp.apply, Registry.registerIssuer, hd] using hdid⟩
    | _ => exact .inl ⟨did, hdid⟩
  obtain ⟨pre, op, post, rfl, rfl⟩ := registry_origin (Q := fun r vk => ∃ did, r.issuerKeys did = some vk)
    (by simp [Registry.new]) hstep ⟨did, hkey⟩
  exact mem_history rfl

/-- What a party says as a claim, it issued. -/
theorem issued_of_saidIn {i : H} {subject did : Did} {category schemaId : String} {validity : Validity}
    {commit : ClaimCommit} {x : Entry H V} (hx : x ∈ history parties epoch past)
    (hsaid : SaidIn parties i (.claim subject did category schemaId validity commit) x) :
    ∃ call, call.Commits commit ∧ call.subject = subject ∧ call.body.category = category ∧
      call.body.schemaId = schemaId ∧ call.validity = validity ∧ (parties.identity i).did = did ∧
      x = (.issue i call, .issued (.ok (issuedClaim (parties.identity i) call commit))) := by
  generalize hmsg : Message.claim _ _ _ _ _ _ = msg at hsaid
  cases hsaid with
  | claim call commit' c hcommit =>
    obtain ⟨rfl, rfl, rfl, rfl, rfl, rfl⟩ := Message.claim.inj hmsg
    obtain ⟨net, hanswer⟩ := Framework.Machine.answer_of_mem_trace hx
    have hrun : call.run (parties.identity i) = .ok c := (Reply.issued.inj hanswer).symm
    rw [run_of_commits _ hcommit, Except.ok.injEq] at hrun
    exact ⟨call, hcommit, rfl, rfl, rfl, rfl, rfl, by rw [hrun]⟩
  | accreditation => cases hmsg
  | presentation => cases hmsg

/-- A record a verifier's registry has was added. -/
theorem accreditation_added {a : Accreditation}
    (ha : a ∈ ((after parties epoch past).registry v).accreditations) :
    ∃ pre post, past = pre ++ .administer v (.addAccreditation a) :: post := by
  have hstep : ∀ (r : Registry) (op : RegistryOp) a, a ∈ (op.apply r).accreditations →
      a ∈ r.accreditations ∨ op = .addAccreditation a := by
    intro r op a ha
    cases op with
    | addAccreditation b =>
      rcases List.mem_append.mp ha with hold | hnew
      · exact .inl hold
      · exact .inr (by rw [List.mem_singleton.mp hnew])
    | _ => exact .inl ha
  obtain ⟨pre, op, post, hpast, rfl⟩ := registry_origin (Q := fun r a => a ∈ r.accreditations)
    (by simp [Registry.new]) hstep ha
  exact ⟨pre, post, hpast⟩

omit [DecidableEq H] [DecidableEq V] in
/-- What a party says as an accreditation, it endorsed. -/
theorem endorsed_of_saidIn {h : H} {a : Accreditation} {x : Entry H V}
    (hsaid : SaidIn parties h (.accreditation a.issuerId a.category a.fromEpoch a.untilEpoch) x) :
    EndorsedAs h a x := by
  generalize hmsg : Message.accreditation _ _ _ _ = msg at hsaid
  cases hsaid with
  | claim => cases hmsg
  | accreditation b c =>
    obtain ⟨hissuer, hcategory, hfrom, huntil⟩ := Message.accreditation.inj hmsg
    exact ⟨b, c, rfl, hissuer.symm, hcategory.symm, hfrom.symm, huntil.symm⟩
  | presentation => cases hmsg

/-! ## Unforged runs -/

omit [DecidableEq H] [DecidableEq V] in
theorem delivered_eq_some {a : Step H V} : a.delivered = some p ↔ ∃ v now predicates,
    a = .deliver v p now predicates := by
  cases a <;> simp [Step.delivered]

theorem history_concat (epoch : V → UInt64) (steps : List (Step H V)) (a : Step H V) :
    history parties epoch (steps ++ [a]) =
      history parties epoch steps ++ [(a, ((network parties).step (after parties epoch steps) a).2)] :=
  Framework.Machine.trace_append ..

omit [DecidableEq H] [DecidableEq V] in
/-- What a delivery carries is signed as the presentation, or as a claim in it. -/
theorem carries_deliver {v : V} {p : Presentation} {now : Timestamp} {predicates : List PredicateRequest}
    {m : Bytes} {sig : ByteVec 64}
    (h : Carries (.deliver v p now predicates : Step H V) m sig) :
    (∃ nonce, fromHex p.nonce = .ok nonce ∧ m = presSigningBytes p.subjectId p.audience p.purpose nonce
      p.issuedAt p.expiresAt p.claims) ∨
    ∃ d ∈ p.claims, ∃ bodyRoot relianceRoot, decodeArray 32 d.bodyRoot = .ok bodyRoot ∧
      decodeArray 32 d.relianceRoot = .ok relianceRoot ∧ m = d.signedMessage bodyRoot relianceRoot := by
  cases h with
  | presentation v p now predicates nonce sig hnonce hsig => exact .inl ⟨nonce, hnonce, rfl⟩
  | claim v p now predicates d bodyRoot relianceRoot sig hd hbody hreliance hsig =>
    exact .inr ⟨d, hd, bodyRoot, relianceRoot, hbody, hreliance, rfl⟩

omit [DecidableEq H] [DecidableEq V] in
theorem carries_addAccreditation {v : V} {a : Accreditation} {m : Bytes} {sig : ByteVec 64}
    (h : Carries (.administer v (.addAccreditation a) : Step H V) m sig) : m = a.signingBytes := by
  cases h
  rfl

omit [DecidableEq H] [DecidableEq V] in
/-- A run stays unforged under a step whose signatures were signed before. -/
theorem Unforged.concat {xs : List (Entry H V)} (hxs : Unforged parties xs) {x : Entry H V}
    (hx : ∀ m sig, Carries x.1 m sig → ∀ h, ∃ y ∈ xs, SignedIn parties h m y) :
    Unforged parties (xs ++ [x]) := by
  intro pre y post hsplit m sig hcarries h hverify
  rcases List.eq_nil_or_concat post with rfl | ⟨post, z, rfl⟩
  · obtain ⟨rfl, hy⟩ := List.append_inj' hsplit rfl
    obtain rfl := List.singleton_inj.mp hy
    exact hx m sig hcarries h
  · have hpre : xs = pre ++ y :: post := by
      have hsplit' : xs ++ [x] = (pre ++ y :: post) ++ [z] := by simpa using hsplit
      exact (List.append_inj' hsplit' rfl).1
    exact hxs pre y post hpre m sig hcarries h hverify

end

/-! ## A run that keeps to them -/

section

attribute [local instance] lawful

theorem skillCall_sized {subject : Did} (hsubject : Fits 4 subject.asBytes) (issuer : Identity) :
    (skillCall subject).Fits issuer where
  subject := hsubject
  issuer := fromKey_fits _
  fields := (skillCall_fits issuer).fields
  reliance := (skillCall_fits issuer).reliance

/-- One party, which issues to itself, and one verifier. -/
def alone : Parties Unit Unit where
  identity _ := identity 1
  name _ := ⟨"did:aion:verifier"⟩

def draw : ByteVec 12 := ⟨List.replicate 12 5, rfl⟩

/-- A record of the party, for skills. -/
def skillRecord : Accreditation := .new (identity 1).did "skill" 0 none

/-- A skill is issued and added, and the verifier told of its issuer, which has
to be accredited. -/
def prepared (c : Claim) : List (Step Unit Unit) :=
  [.issue () (skillCall (identity 1).did), .add () c, .endorse () skillRecord,
    .administer () (.registerIssuer (identity 1).verifyingKey),
    .administer () (.registerAccreditor (identity 1).verifyingKey),
    .administer () (.requireAccreditation "skill" 1 [(identity 1).did])]

/-- The record is added, and the skill presented. -/
def told (c : Claim) : List (Step Unit Unit) :=
  prepared c ++ [.administer () (.addAccreditation (skillRecord.endorse (identity 1)))] ++
    [.present () (.selections []) ⟨"did:aion:verifier"⟩ "hiring" 600 ⟨1000⟩ draw draw]

def skillRegistry : Registry :=
  ((((Registry.new 0).registerIssuer (identity 1).verifyingKey).registerAccreditor
    (identity 1).verifyingKey).requireAccreditation "skill" 1 [(identity 1).did]).addAccreditation
      (skillRecord.endorse (identity 1))

theorem told_registry (c : Claim) : (after alone (fun _ => 0) (told c)).registry () = skillRegistry := rfl

theorem told_store (c : Claim) : (after alone (fun _ => 0) (told c)).store () = .new := rfl

theorem skillRegistry_standing : (skillRegistry.standing (identity 1).did "skill").accredited = true := by
  have hforce : InForce (skillRecord.endorse (identity 1)) 0 :=
    ⟨UInt64.le_refl 0, by simp [skillRecord, Accreditation.new, Accreditation.endorse]⟩
  have hendorses : Endorses skillRegistry ⟨1, [(identity 1).did]⟩ (skillRecord.endorse (identity 1))
      (identity 1).did := by
    refine ⟨List.mem_singleton_self _, (identity 1).verifyingKey, by simp [skillRegistry,
      Registry.addAccreditation, Registry.requireAccreditation, Registry.registerAccreditor,
      Identity.did], _, List.mem_singleton_self _, rfl, _, decodeArray_toHex _, ?_⟩
    exact lawful_lawful.sign_verify (identity 1).signingKey _
  rw [standing_iff]
  refine ⟨⟨1, [(identity 1).did]⟩, by simp [skillRegistry, Registry.addAccreditation,
    Registry.requireAccreditation], _, List.mem_singleton_self _, rfl, rfl, hforce, ?_⟩
  refine Nat.one_le_iff_ne_zero.mpr (Set.ncard_ne_zero_of_mem hendorses ?_)
  exact (List.finite_toSet [(identity 1).did]).subset fun e he => he.1

/-- What the party signs for the skill is shorter than `2 ^ 32` bytes. -/
theorem skill_presentation_fits {nonce : Bytes} (hnonce : Fits 4 nonce) {audience : Did}
    (haudience : Fits 4 audience.asBytes) {purpose : String} (hpurpose : Fits 4 (asBytes purpose))
    (issuedAt expiresAt : Timestamp) {ids : List ClaimId} (hids : ∀ id ∈ ids, Fits 4 (asBytes id.asStr)) :
    (Message.presentation (identity 1).did audience purpose nonce issuedAt expiresAt ids).Fits := by
  have hdid : Fits 4 (identity 1).did.asBytes := fromKey_fits _
  intro f hf
  simp only [Message.body, List.mem_append, List.mem_cons, List.not_mem_nil, or_false] at hf
  rcases hf with (rfl | rfl | rfl | rfl | rfl | rfl) | hf
  · exact hdid
  · exact haudience
  · exact hpurpose
  · exact hnonce
  · exact i64Bytes_fits _
  · exact i64Bytes_fits _
  · obtain ⟨id, hid, rfl⟩ := List.mem_map.mp hf
    exact hids id hid

/-- The presentation of a disclosure. -/
def shown (d : DisclosedClaim) : Presentation :=
  buildPresentation (identity 1) ⟨"did:aion:verifier"⟩ "hiring" (freshNonce draw draw) ⟨1000⟩
    ((⟨1000⟩ : Timestamp).plusSeconds 600) [d]

theorem shown_decoded (d : DisclosedClaim) : Decoded (shown d) (identity 1).verifyingKey
    (freshNonce draw draw) ((identity 1).sign (presSigningBytes (identity 1).did
      ⟨"did:aion:verifier"⟩ "hiring" (freshNonce draw draw) ⟨1000⟩
      ((⟨1000⟩ : Timestamp).plusSeconds 600) [d])) :=
  buildPresentation_decoded lawful_lawful

/-- The run, with its delivery. -/
def skillSteps (c : Claim) (d : DisclosedClaim) : List (Step Unit Unit) :=
  told c ++ [.deliver () (shown d) ⟨1200⟩ []]

section

variable {c : Claim} {d : DisclosedClaim} {s : FieldSelector}
  (hrun : (skillCall (identity 1).did).run (identity 1) = .ok c) (hd : c.disclose s = .ok d)

include hrun hd

theorem disclosed_issuer : d.issuerId = (identity 1).did := by
  obtain ⟨commit, -, rfl⟩ := run_eq_ok.mp hrun
  rw [disclose_eq hd]
  rfl

theorem disclosed_category : d.category = "skill" := by
  obtain ⟨commit, -, rfl⟩ := run_eq_ok.mp hrun
  rw [disclose_eq hd]
  rfl

theorem disclosed_id_fits : Fits 4 (asBytes d.claimId.asStr) := by
  obtain ⟨commit, -, rfl⟩ := run_eq_ok.mp hrun
  rw [disclose_eq hd]
  exact fits_of_length (length_asBytes_toHex _) (by simp)

theorem told_good : GoodAt skillRegistry.anchor ⟨1200⟩ (identity 1).verifyingKey d := by
  refine ⟨?_, ?_, ?_, rfl, fun _ _ => rfl⟩
  · rw [disclosed_issuer hrun hd]
    simp [skillRegistry, Registry.anchor, Registry.addAccreditation, Registry.requireAccreditation,
      Registry.registerAccreditor, Registry.registerIssuer, Identity.did]
  · rw [disclose_validity hrun hd]
    decide
  · intro _
    rw [disclosed_issuer hrun hd, disclosed_category hrun hd]
    exact skillRegistry_standing

end

section

variable {c : Claim} {d : DisclosedClaim}
  (hrun : (skillCall (identity 1).did).run (identity 1) = .ok c) (hd : c.disclose .all = .ok d)

include hrun hd

omit hrun in
theorem told_answer : ((network alone).step (after alone (fun _ => 0) (prepared c ++
      [.administer () (.addAccreditation (skillRecord.endorse (identity 1)))]))
      (.present () (.selections []) ⟨"did:aion:verifier"⟩ "hiring" 600 ⟨1000⟩ draw draw)).2 =
    .presented (.ok (shown d)) := by
  have hall : Wallet.discloseAll ⟨identity 1, [c]⟩ = .ok [d] :=
    Framework.mapM_eq_ok.mpr (.cons (by rw [hd]; rfl) .nil)
  exact congrArg Reply.presented
    (present_all hall ⟨"did:aion:verifier"⟩ "hiring" 600 ⟨1000⟩ draw draw)

omit hrun in
theorem told_presents : (.present () (.selections []) ⟨"did:aion:verifier"⟩ "hiring" 600 ⟨1000⟩ draw draw,
    .presented (.ok (shown d))) ∈ history alone (fun _ => 0) (told c) := by
  rw [told, history_concat, told_answer hd]
  exact List.mem_append_right _ (List.mem_singleton_self _)

theorem told_accepted : AcceptedDelivery alone (fun _ => 0) (skillSteps c d) (told c) () (shown d) ⟨1200⟩ [] := by
  refine ⟨⟨[], rfl⟩, accepts_iff.mpr ⟨⟨_, _, _, shown_decoded d, ?_⟩, ?_, by simp⟩⟩
  · exact ⟨rfl, rfl, show (⟨1000⟩ : Timestamp) ≤ ⟨1200⟩ by decide,
      show (⟨1200⟩ : Timestamp) ≤ (⟨1000⟩ : Timestamp).plusSeconds 600 by decide, rfl,
      freshNonce_length draw draw, List.cons_ne_nil _ _, lawful_lawful.sign_verify (identity 1).signingKey _⟩
  · rw [told_registry]
    intro d' hd'
    obtain rfl := List.mem_singleton.mp hd'
    exact ⟨_, disclose_valid lawful_lawful ⟨_, rfl, hrun⟩ hd (told_good hrun hd)⟩

theorem skill_sized : ∀ x ∈ history alone (fun _ => 0) (skillSteps c d), Sized alone x := by
  have hfits := skillCall_sized (fromKey_fits (identity 1).verifyingKey) (identity 1)
  have hdfits := disclose_fits hfits hrun hd
  have hrecord : AccreditationFits skillRecord := by
    have hdid : Fits 4 (identity 1).did.asBytes := fromKey_fits _
    intro f hf
    simp only [Message.body, Message.arm, skillRecord, Accreditation.new, List.mem_append, List.mem_cons,
      List.not_mem_nil, or_false] at hf
    obtain (rfl | rfl | rfl) | rfl := hf
    · exact hdid
    · decide
    · exact i64Bytes_fits _
    · decide
  have hshown : PresentationFits (shown d) := by
    intro nonce hnonce
    obtain rfl := Except.ok.inj (hnonce.symm.trans (shown_decoded d).nonce)
    refine skill_presentation_fits (by decide) (show Fits 4 (asBytes "did:aion:verifier") by decide)
      (show Fits 4 (asBytes "hiring") by decide) _ _ fun id hid => ?_
    rw [List.mem_singleton.mp hid]
    exact disclosed_id_fits hrun hd
  intro x hx
  rw [skillSteps, history_concat, told, history_concat, history_concat] at hx
  simp only [List.mem_append, List.mem_singleton] at hx
  obtain ((hx | rfl) | rfl) | rfl := hx
  · simp only [prepared, history, Framework.Machine.trace, List.mem_cons, List.not_mem_nil, or_false] at hx
    obtain rfl | rfl | rfl | rfl | rfl | rfl := hx
    · exact hfits
    · trivial
    · exact hrecord
    · trivial
    · trivial
    · trivial
  · exact hrecord
  · rw [told_answer hd]
    exact hshown
  · exact ⟨hshown, fun d' hd' => List.mem_singleton.mp hd' ▸ hdfits⟩

theorem skill_unforged : Unforged alone (history alone (fun _ => 0) (skillSteps c d)) := by
  have hprepared : Unforged alone (history alone (fun _ => 0) (prepared c)) := by
    intro pre x post hsplit m sig hcarries
    have hx : x ∈ history alone (fun _ => 0) (prepared c) := by simp [hsplit]
    simp only [prepared, history, Framework.Machine.trace, List.mem_cons, List.not_mem_nil, or_false] at hx
    obtain rfl | rfl | rfl | rfl | rfl | rfl := hx <;> cases hcarries
  rw [skillSteps, history_concat, told, history_concat, history_concat]
  refine Unforged.concat (Unforged.concat (Unforged.concat hprepared ?_) ?_) ?_
  · intro m sig hcarries h
    rw [carries_addAccreditation hcarries]
    refine ⟨(.endorse () skillRecord, .endorsed (skillRecord.endorse (identity 1))), ?_,
      .endorsed skillRecord _⟩
    exact List.mem_cons_of_mem _ (List.mem_cons_of_mem _ List.mem_cons_self)
  · intro m sig hcarries
    cases hcarries
  · intro m sig hcarries h
    rcases carries_deliver hcarries with ⟨nonce, hnonce, rfl⟩ | ⟨d', hd', bodyRoot, relianceRoot, hbody,
      hreliance, rfl⟩
    · refine ⟨_, List.mem_append_right _ (List.mem_singleton_self _), ?_⟩
      rw [told_answer hd]
      exact .presented _ _ _ _ _ _ _ (shown d) nonce hnonce
    · obtain rfl := List.mem_singleton.mp hd'
      obtain ⟨commit, hcommit, rfl⟩ := run_eq_ok.mp hrun
      have hissued : (.issue () (skillCall (identity 1).did), .issued (.ok
          (issuedClaim (identity 1) (skillCall (identity 1).did) commit))) ∈
          history alone (fun _ => 0) (prepared (issuedClaim (identity 1) (skillCall (identity 1).did) commit)) :=
        List.mem_cons.mpr (.inl (Prod.ext rfl (congrArg Reply.issued hrun.symm)))
      refine ⟨_, List.mem_append_left _ (List.mem_append_left _ hissued), ?_⟩
      have hsigned : SignedIn alone h _ _ := .issued (skillCall (identity 1).did) commit
        (issuedClaim (identity 1) (skillCall (identity 1).did) commit) hcommit
      rw [disclose_eq hd] at hbody hreliance ⊢
      obtain rfl := Except.ok.inj ((decodeArray_toHex commit.bodyRoot).symm.trans hbody)
      obtain rfl := Except.ok.inj ((decodeArray_toHex commit.relianceRoot).symm.trans hreliance)
      exact hsigned

end

end

end AionTrust.Proof
