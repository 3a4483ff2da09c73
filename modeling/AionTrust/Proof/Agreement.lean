import AionTrust.Proof.Network
import AionTrust.Proof.Revealing

/-!
# What an acceptance goes back to

In every unforged run, an accepted presentation under a party's key goes back
to the step that signed it, for this verifier, of claims the party was given
(`presenter_agrees`); each of its claims to the step that issued it
(`issuers_agree`); and the standing of an issuer to the endorsements of enough
accreditors (`accreditors_agree`).

A verifier's store has on record what it accepted and has not evicted since
(`record_iff`). So a party's presentations are accepted no more often than it
signed them (`acceptances_le_signatures`), and what it signed is accepted
unless its nonce is on record (`signed_accepted_iff`).
-/

namespace AionTrust.Proof

open AionTrust.Impl AionTrust.Spec

section

variable [External] {H V : Type} [DecidableEq H] [DecidableEq V] {parties : Parties H V}
  {epoch : V → UInt64} {steps past : List (Step H V)} {v : V} {p : Presentation} {now : Timestamp}
  {predicates : List PredicateRequest}

/-! ## The holder -/

/-- An accepted presentation under a party's key was signed by the party before. -/
theorem signed_before (hunforged : Unforged parties (history parties epoch steps))
    (hsized : ∀ x ∈ history parties epoch steps, Sized parties x)
    (haccepted : AcceptedDelivery parties epoch steps past v p now predicates) {h : H}
    (hkey : verifyingKeyFromHex p.subjectKey = .ok (parties.key h)) :
    ∃ x ∈ history parties epoch past, SignedFor parties h v p now x := by
  obtain ⟨post, hsplit⟩ := haccepted.split
  obtain ⟨⟨vk, nonce, sig, hdecoded, hbound⟩, -, -⟩ := accepts_iff.mp haccepted.accepts
  obtain rfl := Except.ok.inj (hdecoded.subjectKey.symm.trans hkey)
  have hdelivery := hsized _ (mem_history hsplit)
  obtain ⟨x, hx, hsaid⟩ := said_before hunforged hsized hsplit
    (.presentation v p now predicates nonce sig hdecoded.nonce hdecoded.signature) hbound.signature
    (hdelivery.1 nonce hdecoded.nonce) (presSigningBytes_eq ..)
  refine ⟨x, hx, ?_⟩
  generalize hmsg : Message.presentation _ _ _ _ _ _ _ = msg at hsaid
  cases hsaid with
  | claim => cases hmsg
  | accreditation => cases hmsg
  | presentation ask audience purpose ttl t n₁ n₂ q nonce' hnonce' =>
    obtain ⟨hs, ha, hpurpose, rfl, hi, he, hids⟩ := Message.presentation.inj hmsg
    obtain ⟨net, hanswer⟩ := Framework.Machine.answer_of_mem_trace hx
    obtain ⟨-, hq⟩ := answer_eq_ok (Reply.presented.inj hanswer).symm
    have hqaudience : q.audience = audience := congrArg Presentation.audience hq
    have hqpurpose : q.purpose = purpose := congrArg Presentation.purpose hq
    have hqissued : q.issuedAt = t := congrArg Presentation.issuedAt hq
    have hqexpires : q.expiresAt = t.plusSeconds ttl := congrArg Presentation.expiresAt hq
    have hqnonce : fromHex q.nonce = .ok (freshNonce n₁ n₂) := by
      rw [congrArg Presentation.nonce hq]
      exact fromHex_toHex _
    obtain rfl : purpose = p.purpose := hqpurpose.symm.trans hpurpose.symm
    obtain rfl : audience = parties.name v := hqaudience.symm.trans (ha.symm.trans hbound.audience)
    obtain rfl : t = p.issuedAt := hqissued.symm.trans hi.symm
    have hsame : SameSigned q p :=
      ⟨hs.symm, ha.symm, hpurpose.symm, ⟨nonce, hnonce', hdecoded.nonce⟩, hi.symm, he.symm, hids.symm⟩
    have hpnonce := hdecoded.nonce.trans (hnonce'.symm.trans hqnonce)
    exact .intro ask ttl n₁ n₂ q hsame hpnonce (he.trans hqexpires)
      hbound.issued hbound.unexpired

/-- An accepted presentation under a party's key is one the party signed, for
this verifier, under the nonce it drew, and in its window; and each claim in it
is one the party was given before. -/
theorem presenter_agrees (parties : Parties H V) (epoch : V → UInt64) (steps past : List (Step H V))
    (hunforged : Unforged parties (history parties epoch steps))
    (hsized : ∀ x ∈ history parties epoch steps, Sized parties x) (v : V) (p : Presentation)
    (now : Timestamp) (predicates : List PredicateRequest)
    (haccepted : AcceptedDelivery parties epoch steps past v p now predicates) (h : H)
    (hkey : verifyingKeyFromHex p.subjectKey = .ok (parties.key h)) :
    ∃ pre x post, history parties epoch past = pre ++ x :: post ∧ SignedFor parties h v p now x ∧
      ∀ d ∈ p.claims, ∃ c, (.add h c, .done) ∈ pre ∧ c.claimId = d.claimId := by
  obtain ⟨x, hx, hsigned⟩ := signed_before hunforged hsized haccepted hkey
  obtain ⟨pre, rest, hpast⟩ := List.append_of_mem hx
  obtain ⟨before, -, -, rfl, hanswer⟩ := Framework.Machine.trace_split hpast
  refine ⟨_, x, rest, hpast, hsigned, fun d hd => ?_⟩
  obtain ⟨ask, ttl, n₁, n₂, q, hsame⟩ := hsigned
  have hid : d.claimId ∈ q.claims.map (·.claimId) := hsame.claimIds ▸ List.mem_map_of_mem hd
  obtain ⟨d', hd', hid⟩ := List.mem_map.mp hid
  obtain ⟨c, hc, s, hdisc⟩ := (answer_eq_ok (Reply.presented.inj hanswer).symm).1 d' hd'
  refine ⟨c, held_added hc, ?_⟩
  rw [← hid, disclose_eq hdisc]
  rfl

end

section

attribute [local instance] lawful

/-- The law at the run of a skill. -/
theorem presenter_agrees_skill : ∃ (c : Claim) (d : DisclosedClaim),
    AcceptedDelivery alone (fun _ => 0) (skillSteps c d) (told c) () (shown d) ⟨1200⟩ [] ∧
    ∃ pre x post, history alone (fun _ => 0) (told c) = pre ++ x :: post ∧
      SignedFor alone () () (shown d) ⟨1200⟩ x ∧
      ∀ d' ∈ (shown d).claims, ∃ c', (.add () c', .done) ∈ pre ∧ c'.claimId = d'.claimId := by
  obtain ⟨c, d, hrun, hd⟩ := lawful_run (identity 1) (skillCall (identity 1).did) (by decide)
  exact ⟨c, d, told_accepted hrun hd, presenter_agrees alone _ _ _ (skill_unforged hrun hd)
    (skill_sized hrun hd) () _ _ [] (told_accepted hrun hd) () (shown_decoded d).subjectKey⟩

end

section

variable [External] {H V : Type} [DecidableEq H] [DecidableEq V] {parties : Parties H V}
  {epoch : V → UInt64} {steps past : List (Step H V)} {v : V} {p : Presentation} {now : Timestamp}
  {predicates : List PredicateRequest}

/-! ## The issuers -/

/-- Each claim of an accepted presentation is the presenter's, and verifies
under a key that was registered with the verifier. Where that is a party's key,
the party issued the claim before, to the presenter, and the verifier proves
what the claim says, unless issuing and verifying it collided. -/
theorem issuers_agree (parties : Parties H V) (epoch : V → UInt64) (steps past : List (Step H V))
    (hunforged : Unforged parties (history parties epoch steps))
    (hsized : ∀ x ∈ history parties epoch steps, Sized parties x) (v : V) (p : Presentation)
    (now : Timestamp) (predicates : List PredicateRequest)
    (haccepted : AcceptedDelivery parties epoch steps past v p now predicates) :
    ∀ d ∈ p.claims, d.subjectId = p.subjectId ∧ ∃ vk verified,
      (.administer v (.registerIssuer vk), .done) ∈ history parties epoch past ∧
      d.verify vk = .ok verified ∧ ∀ i, parties.key i = vk → ∃ call c,
        (.issue i call, .issued (.ok c)) ∈ history parties epoch past ∧
        IssuedAs (parties.identity i) d call c ∧
        (Collides (parties.identity i) call d ∨ Attests c d verified []) := by
  intro d hd
  obtain ⟨post, hsplit⟩ := haccepted.split
  obtain ⟨-, hclaims, -⟩ := accepts_iff.mp haccepted.accepts
  obtain ⟨verified, hvalid⟩ := hclaims d hd
  obtain ⟨vk, hkey, hverify⟩ := hvalid.verified
  refine ⟨hvalid.subject, vk, verified, issuer_registered hkey, hverify, ?_⟩
  rintro i rfl
  have hfits := (hsized _ (mem_history hsplit)).2 d hd
  obtain ⟨-, -, bodyRoot, expected, hsig, -⟩ := verifyWithRequired_eq_ok.mp hverify
  obtain ⟨-, hbody, relianceRoot, hreliance, hid, sig, hdecode, hsigned⟩ := checkSignature_eq_ok.mp hsig
  obtain ⟨x, hx, hsaid⟩ := said_before hunforged hsized hsplit
    (.claim v p now predicates d bodyRoot relianceRoot sig hd hbody hreliance hdecode) hsigned
    (claim_fits d.validity ⟨bodyRoot, d.fieldCount, relianceRoot, d.relianceCount⟩ hfits.subject
      hfits.issuer hfits.category hfits.schemaId) (signingBytes_eq ..)
  obtain ⟨call, hcommit, hs, hc, hschema, hv, hissuer, rfl⟩ := issued_of_saidIn hx hsaid
  have hsizes : call.Fits (parties.identity i) := hsized _ (mem_past hsplit hx)
  have hclaim : (issuedClaim (parties.identity i) call
      ⟨bodyRoot, d.fieldCount, relianceRoot, d.relianceCount⟩).claimId = d.claimId := by
    rw [← hid, DisclosedClaim.signedMessage, ← hs, ← hissuer, ← hc, ← hschema, ← hv]
    rfl
  refine ⟨call, _, hx, ⟨run_of_commits _ hcommit, hclaim, hs, hc, hschema, hv⟩, ?_⟩
  by_cases hno : Collides (parties.identity i) call d
  · exact .inl hno
  · exact .inr (attests_of_verify hno hsizes hfits (run_of_commits _ hcommit) hclaim hverify)

end

section

attribute [local instance] lawful

/-- The law at the run of a skill. -/
theorem issuers_agree_skill : ∃ (c : Claim) (d : DisclosedClaim),
    AcceptedDelivery alone (fun _ => 0) (skillSteps c d) (told c) () (shown d) ⟨1200⟩ [] ∧
    ∀ d' ∈ (shown d).claims, d'.subjectId = (shown d).subjectId ∧ ∃ vk verified,
      (.administer () (.registerIssuer vk), .done) ∈ history alone (fun _ => 0) (told c) ∧
      d'.verify vk = .ok verified ∧ ∀ i, alone.key i = vk → ∃ call c',
        (.issue i call, .issued (.ok c')) ∈ history alone (fun _ => 0) (told c) ∧
        IssuedAs (alone.identity i) d' call c' ∧
        (Collides (alone.identity i) call d' ∨ Attests c' d' verified []) := by
  obtain ⟨c, d, hrun, hd⟩ := lawful_run (identity 1) (skillCall (identity 1).did) (by decide)
  exact ⟨c, d, told_accepted hrun hd, issuers_agree alone _ _ _ (skill_unforged hrun hd)
    (skill_sized hrun hd) () _ _ [] (told_accepted hrun hd)⟩

end

section

variable [External] {H V : Type} [DecidableEq H] [DecidableEq V] {parties : Parties H V}
  {epoch : V → UInt64} {steps past : List (Step H V)} {v : V} {p : Presentation} {now : Timestamp}
  {predicates : List PredicateRequest}

/-! ## The accreditors -/

/-- Where a category requires it, the issuer of a claim of an accepted
presentation is named by a record that was added, is in force, and has enough
accreditors of the rule behind it: parties that endorsed it before, or keys
that are no party's. -/
theorem accreditors_agree (parties : Parties H V) (epoch : V → UInt64) (steps past : List (Step H V))
    (hunforged : Unforged parties (history parties epoch steps))
    (hsized : ∀ x ∈ history parties epoch steps, Sized parties x) (v : V) (p : Presentation)
    (now : Timestamp) (predicates : List PredicateRequest)
    (haccepted : AcceptedDelivery parties epoch steps past v p now predicates) :
    ∀ d ∈ p.claims, ∀ rule, ((after parties epoch past).registry v).policy d.category = some rule →
      ∃ a, (.administer v (.addAccreditation a), .done) ∈ history parties epoch past ∧
        a.issuerId = d.issuerId ∧ a.category = d.category ∧
        InForce a ((after parties epoch past).registry v).epoch ∧
        rule.k ≤ {e | e ∈ rule.accreditors ∧ ∃ vk,
          ((after parties epoch past).registry v).accreditorKeys e = some vk ∧
            ∀ h, parties.key h = vk → ∃ x ∈ history parties epoch past, EndorsedAs h a x}.ncard := by
  intro d hd rule hrule
  obtain ⟨post, hsplit⟩ := haccepted.split
  obtain ⟨-, hclaims, -⟩ := accepts_iff.mp haccepted.accepts
  obtain ⟨verified, hvalid⟩ := hclaims d hd
  have hstanding := hvalid.accredited (by simp [Registry.anchor, Registry.standing, hrule])
  obtain ⟨rule', hrule', a, ha, hissuer, hcategory, hforce, hk⟩ := (standing_iff ..).mp hstanding
  obtain rfl := Option.some.inj (hrule.symm.trans hrule')
  obtain ⟨pre, rest, hpast⟩ := accreditation_added ha
  have hadded : steps = pre ++ .administer v (.addAccreditation a) ::
      (rest ++ .deliver v p now predicates :: post) := by rw [hsplit, hpast]; simp
  have hfits : AccreditationFits a := hsized _ (mem_history hadded)
  refine ⟨a, mem_history hpast, hissuer, hcategory, hforce, hk.trans (Set.ncard_le_ncard ?_ ?_)⟩
  · rintro e ⟨hmem, vk, hkey, sig, hsig, -, bytes, hdecode, hverify⟩
    refine ⟨hmem, vk, hkey, ?_⟩
    rintro h rfl
    obtain ⟨x, hx, hsaid⟩ := said_before hunforged hsized hadded (.endorsement v a sig bytes hsig hdecode)
      hverify hfits (accreditation_signingBytes_eq a)
    exact ⟨x, mem_past hpast hx, endorsed_of_saidIn hsaid⟩
  · exact (List.finite_toSet rule.accreditors).subset fun e he => he.1

end

section

attribute [local instance] lawful

/-- The law at the run of a skill, for which one accreditor is required. -/
theorem accreditors_agree_skill : ∃ (c : Claim) (d : DisclosedClaim),
    AcceptedDelivery alone (fun _ => 0) (skillSteps c d) (told c) () (shown d) ⟨1200⟩ [] ∧
    ∀ d' ∈ (shown d).claims, ∀ rule, skillRegistry.policy d'.category = some rule →
      ∃ a, (.administer () (.addAccreditation a), .done) ∈ history alone (fun _ => 0) (told c) ∧
        a.issuerId = d'.issuerId ∧ a.category = d'.category ∧ InForce a 0 ∧
        rule.k ≤ {e | e ∈ rule.accreditors ∧ ∃ vk, skillRegistry.accreditorKeys e = some vk ∧
          ∀ h, alone.key h = vk → ∃ x ∈ history alone (fun _ => 0) (told c), EndorsedAs h a x}.ncard := by
  obtain ⟨c, d, hrun, hd⟩ := lawful_run (identity 1) (skillCall (identity 1).did) (by decide)
  exact ⟨c, d, told_accepted hrun hd, accreditors_agree alone _ _ _ (skill_unforged hrun hd)
    (skill_sized hrun hd) () _ _ [] (told_accepted hrun hd)⟩

end

section

variable [External] {H V : Type} [DecidableEq H] [DecidableEq V] {parties : Parties H V}
  {epoch : V → UInt64} {steps past : List (Step H V)} {v : V} {p : Presentation} {now : Timestamp}
  {predicates : List PredicateRequest}

/-! ## The store -/

variable (parties) in
/-- A delivery either is accepted, its nonce having been unrecorded, and records
it, or leaves the store as it was. -/
theorem deliver_cases (net : Network H V) (v : V) (p : Presentation) (now : Timestamp)
    (predicates : List PredicateRequest) :
    (((network parties).step net (.deliver v p now predicates)).2.Accepts ∧
      (net.store v).seen (parties.name v, p.nonce) = none ∧ p.audience = parties.name v ∧
      now ≤ p.expiresAt ∧ (((network parties).step net (.deliver v p now predicates)).1.store v).seen =
        Function.update (net.store v).seen (parties.name v, p.nonce) (some p.expiresAt)) ∨
    (¬ ((network parties).step net (.deliver v p now predicates)).2.Accepts ∧
      ((network parties).step net (.deliver v p now predicates)).1.store v = net.store v) := by
  rw [deliver_eq]
  rcases withStore_cases p (parties.name v) now (net.registry v).anchor (net.store v) predicates with
    ⟨report, hcall, haccepted, hnone, haudience, hle⟩ | ⟨hstore, hrejects⟩
  · rw [hcall]
    exact .inl ⟨haccepted, hnone, haudience, hle, by simp⟩
  · refine .inr ⟨fun haccepts => ?_, by simp [hstore]⟩
    cases hreport : (verifyPresentationWithStore p (parties.name v) now (net.registry v).anchor
      (net.store v) predicates).1 with
    | error e => simp [hreport, Reply.Accepts] at haccepts
    | ok report =>
      have hfalse := hrejects report hreport
      simp [hreport, Reply.Accepts, hfalse] at haccepts

variable (parties) in
/-- A verifier's store changes by what is delivered to it, or by an eviction. -/
theorem store_step (net : Network H V) (a : Step H V) (v : V) :
    (∃ p now predicates, a = .deliver v p now predicates) ∨ (∃ now, a = .evict v now) ∨
      (((network parties).step net a).1.store v = net.store v ∧ ∀ t, a ≠ .evict v t) := by
  cases a with
  | deliver v' p now predicates =>
    by_cases hv : v = v'
    · subst hv
      exact .inl ⟨p, now, predicates, rfl⟩
    · exact .inr (.inr ⟨Function.update_of_ne hv .., by simp⟩)
  | evict v' now =>
    by_cases hv : v = v'
    · subst hv
      exact .inr (.inl ⟨now, rfl⟩)
    · exact .inr (.inr ⟨Function.update_of_ne hv .., by simp [Ne.symm hv]⟩)
  | _ => exact .inr (.inr ⟨rfl, by simp⟩)

theorem evict_store (net : Network H V) (v : V) (now : Timestamp) :
    ((network parties).step net (.evict v now)).1.store v = (net.store v).evictExpired now :=
  Function.update_self ..

/-- A record stays until an eviction later than its expiry. -/
theorem record_kept {net : Network H V} {key : Did × String} {expiresAt : Timestamp}
    (h : (net.store v).seen key = some expiresAt) {steps : List (Step H V)}
    (hevict : ∀ t, .evict v t ∈ steps → t ≤ expiresAt) :
    (((network parties).final net steps).store v).seen key = some expiresAt := by
  induction steps generalizing net with
  | nil => exact h
  | cons a steps ih =>
    refine ih ?_ fun t ht => hevict t (List.mem_cons_of_mem _ ht)
    rcases store_step parties net a v with ⟨q, t, preds, rfl⟩ | ⟨t, rfl⟩ | ⟨hsame, -⟩
    · rcases deliver_cases parties net v q t preds with ⟨-, hnone, -, -, hstore⟩ | ⟨-, hstore⟩
      · have hne : key ≠ (parties.name v, q.nonce) := by
          rintro rfl
          rw [hnone] at h
          cases h
        rw [hstore, Function.update_of_ne hne, h]
      · rw [hstore, h]
    · have hle := hevict t List.mem_cons_self
      simp [evict_store, InMemoryNonceStore.evictExpired, h, hle]
    · rw [hsame, h]

/-- A store has on record what was accepted and not evicted since. -/
theorem record_iff {nonce : String} {expiresAt : Timestamp} :
    ((after parties epoch past).store v).seen (parties.name v, nonce) = some expiresAt ↔
      OnRecord parties epoch past v nonce expiresAt := by
  constructor
  · induction past using List.reverseRecOn with
    | nil => intro h; simp [after, Network.new, InMemoryNonceStore.new] at h
    | append_singleton past a ih =>
      intro h
      rw [after, Framework.Machine.final_append, Framework.Machine.final_cons,
        Framework.Machine.final_nil] at h
      have hold : ((after parties epoch past).store v).seen (parties.name v, nonce) = some expiresAt →
          (∀ t, a = .evict v t → t ≤ expiresAt) → OnRecord parties epoch (past ++ [a]) v nonce expiresAt := by
        intro hseen hevict
        obtain ⟨pre, p, now, preds, post, rfl, hacc, hnonce, hexp, hpost⟩ := ih hseen
        refine ⟨pre, p, now, preds, post ++ [a], by simp, hacc, hnonce, hexp, fun t ht => ?_⟩
        rcases List.mem_append.mp ht with ht | ht
        · exact hpost t ht
        · exact hevict t (List.mem_singleton.mp ht).symm
      rcases store_step parties (after parties epoch past) a v with
        ⟨q, t, preds, rfl⟩ | ⟨t, rfl⟩ | ⟨hsame, hno⟩
      · rcases deliver_cases parties (after parties epoch past) v q t preds with
          ⟨hacc, -, -, -, hstore⟩ | ⟨-, hstore⟩
        · rw [hstore] at h
          by_cases hn : q.nonce = nonce
          · subst hn
            rw [Function.update_self, Option.some.injEq] at h
            exact ⟨past, q, t, preds, [], rfl, hacc, rfl, h, by simp⟩
          · rw [Function.update_of_ne (by simp [Ne.symm hn])] at h
            exact hold h (by simp)
        · exact hold (hstore ▸ h) (by simp)
      · rw [evict_store] at h
        obtain ⟨hseen, hle⟩ := Option.filter_eq_some_iff.mp h
        refine hold hseen ?_
        rintro u hu
        obtain ⟨-, rfl⟩ := Step.evict.inj hu
        exact of_decide_eq_true hle
      · exact hold (hsame ▸ h) fun u hu => absurd hu (hno u)
  · rintro ⟨pre, p, now, preds, post, rfl, hacc, rfl, rfl, hpost⟩
    rw [after, Framework.Machine.final_append, Framework.Machine.final_cons]
    refine record_kept ?_ hpost
    rcases deliver_cases parties (after parties epoch pre) v p now preds with
      ⟨-, -, -, -, hstore⟩ | ⟨hnot, -⟩
    · rw [hstore, Function.update_self]
    · exact absurd hacc hnot

/-! ## Once -/

/-- In a run whose verifiers have different names and clocks that do not go
back, no message is accepted twice in one spelling of its nonce. -/
theorem accepted_once (hnames : Function.Injective parties.name) (hclocks : ClocksAdvance steps) :
    (history parties epoch steps).Pairwise fun x y => ∀ p q, x.1.delivered = some p →
      y.1.delivered = some q → x.2.Accepts → y.2.Accepts → SameSigned p q → p.nonce ≠ q.nonce := by
  rw [history, ← Framework.Machine.trace_withGhost (m := network parties)
    (fun past step => step :: past) _ []]
  -- what was accepted is on record, or has expired by the clock of its verifier
  refine Framework.Machine.trace_pairwise (fun x s => ∀ v p now predicates,
    x.1 = .deliver v p now predicates → x.2.Accepts →
      p.audience = parties.name v ∧ ((s.1.store v).seen (parties.name v, p.nonce) = some p.expiresAt ∨
        ∃ b ∈ s.2, ∃ t, b.clock = some (v, t) ∧ p.expiresAt < t)) ?_ ?_ ?_
    (Framework.Machine.all_withPast (by simp) hclocks)
  · rintro ⟨net, earlier⟩ a - v p now predicates rfl haccepts
    rcases deliver_cases parties net v p now predicates with
      ⟨-, -, haudience, -, hstore⟩ | ⟨hnot, -⟩
    · exact ⟨haudience, .inl (by simp [Framework.Machine.withGhost, hstore])⟩
    · exact absurd haccepts hnot
  · rintro x ⟨net, earlier⟩ a - hx v p now predicates hdeliver haccepts
    obtain ⟨haudience, hseen | ⟨b, hb, t, hclock, hlt⟩⟩ := hx v p now predicates hdeliver haccepts
    · refine ⟨haudience, ?_⟩
      by_cases hevict : ∀ t, a = .evict v t → t ≤ p.expiresAt
      · have hkept : (((network parties).final net [a]).store v).seen (parties.name v, p.nonce) =
            some p.expiresAt := record_kept hseen fun t ht => hevict t (List.mem_singleton.mp ht).symm
        exact .inl hkept
      · push Not at hevict
        obtain ⟨t, rfl, hlt⟩ := hevict
        exact .inr ⟨_, List.mem_cons_self, t, rfl, hlt⟩
    · exact ⟨haudience, .inr ⟨b, List.mem_cons_of_mem _ hb, t, hclock, hlt⟩⟩
  · rintro ⟨c, out⟩ ⟨net, earlier⟩ a hclock hx p q hp hq haccepts haccepts' hsame hnonce
    obtain ⟨v, now, predicates, rfl⟩ := delivered_eq_some.mp hp
    obtain ⟨v', now', predicates', rfl⟩ := delivered_eq_some.mp hq
    obtain ⟨haudience, hrest⟩ := hx v p now predicates rfl haccepts
    rcases deliver_cases parties net v' q now' predicates' with
      ⟨-, hnone, haudience', hle, -⟩ | ⟨hnot, -⟩
    · obtain rfl : v = v' := hnames (haudience.symm.trans (hsame.audience.trans haudience'))
      rcases hrest with hseen | ⟨b, hb, t, hbclock, hlt⟩
      · rw [hnonce, hnone] at hseen
        cases hseen
      · have hnow : t ≤ now' := hclock b hb v t now' hbclock rfl
        rw [hsame.expiresAt] at hlt
        exact absurd (hlt.trans_le (hnow.trans hle)) (lt_irrefl _)
    · exact hnot haccepts'

omit [DecidableEq H] [DecidableEq V] in
/-- What one step signed is one message. -/
theorem sameSigned_of_signedFor {h : H} {v v' : V} {p p' : Presentation} {now now' : Timestamp}
    {x : Entry H V} (hx : SignedFor parties h v p now x) (hx' : SignedFor parties h v' p' now' x) :
    SameSigned p p' := by
  have hsigned : ∀ {v : V} {p : Presentation} {now : Timestamp}, SignedFor parties h v p now x →
      ∃ q, x.2 = .presented (.ok q) ∧ SameSigned q p := by
    rintro v p now ⟨-, -, -, -, q, hsame⟩
    exact ⟨q, rfl, hsame⟩
  obtain ⟨q, hq, hsame⟩ := hsigned hx
  obtain ⟨q', hq', hsame'⟩ := hsigned hx'
  obtain rfl := Except.ok.inj (Reply.presented.inj (hq.symm.trans hq'))
  obtain ⟨nonce, hnonce, hpnonce⟩ := hsame.nonce
  obtain ⟨nonce', hnonce', hpnonce'⟩ := hsame'.nonce
  obtain rfl := Except.ok.inj (hnonce.symm.trans hnonce')
  exact ⟨hsame.subjectId.symm.trans hsame'.subjectId, hsame.audience.symm.trans hsame'.audience,
    hsame.purpose.symm.trans hsame'.purpose, ⟨nonce, hpnonce, hpnonce'⟩,
    hsame.issuedAt.symm.trans hsame'.issuedAt, hsame.expiresAt.symm.trans hsame'.expiresAt,
    hsame.claimIds.symm.trans hsame'.claimIds⟩

open Classical in
/-- In a run whose verifiers have different names and clocks that do not go
back, and where each message is spelled in one way, no more presentations under
a party's key are accepted, by all verifiers together, than the party signed. -/
theorem acceptances_le_signatures (parties : Parties H V) (epoch : V → UInt64) (steps : List (Step H V))
    (hunforged : Unforged parties (history parties epoch steps))
    (hsized : ∀ x ∈ history parties epoch steps, Sized parties x)
    (hnames : Function.Injective parties.name) (hclocks : ClocksAdvance steps)
    (hspelled : SpelledOnce steps) (h : H) :
    (history parties epoch steps).countP (fun x => decide (AcceptedFrom parties h x)) ≤
      (history parties epoch steps).countP fun x => decide (SignsPresentation h x) := by
  have hspelled' := hspelled
  rw [SpelledOnce, ← Framework.Machine.trace_map_fst (m := network parties) (.new H V epoch) steps,
    List.pairwise_map] at hspelled'
  refine Framework.countP_le_of_matched
    (R := fun x y => ∃ v p now predicates, y.1 = .deliver v p now predicates ∧
      SignedFor parties h v p now x) ?_ ?_ ?_
  · rintro x y ⟨v, p, now, predicates, -, ask, ttl, n₁, n₂, q, -⟩
    exact decide_eq_true ⟨ask, _, _, ttl, _, n₁, n₂, q, rfl⟩
  · rintro pre ⟨a, out⟩ post hsplit hy
    obtain ⟨p, hp, haccepts, hkey⟩ := of_decide_eq_true hy
    obtain ⟨v, now, predicates, rfl⟩ := delivered_eq_some.mp hp
    obtain ⟨past, rest, hsteps, rfl, hout⟩ := Framework.Machine.trace_split hsplit
    have haccepted : AcceptedDelivery parties epoch steps past v p now predicates :=
      ⟨⟨rest, hsteps⟩, hout ▸ haccepts⟩
    obtain ⟨x, hx, hsigned⟩ := signed_before hunforged hsized haccepted hkey
    exact ⟨x, hx, v, p, now, predicates, rfl, hsigned⟩
  · refine (accepted_once hnames hclocks).imp₂ (fun y y' honce hone hy hy' x hx hx' => ?_) hspelled'
    obtain ⟨p, hp, haccepts, -⟩ := of_decide_eq_true hy
    obtain ⟨p', hp', haccepts', -⟩ := of_decide_eq_true hy'
    obtain ⟨v, _, now, predicates, hdeliver, hsigned⟩ := hx
    obtain ⟨v', _, now', predicates', hdeliver', hsigned'⟩ := hx'
    rw [hdeliver] at hp
    rw [hdeliver'] at hp'
    obtain rfl := Option.some.inj hp
    obtain rfl := Option.some.inj hp'
    have hsame := sameSigned_of_signedFor hsigned hsigned'
    have hdelivered := delivered_eq_some.mpr ⟨v, now, predicates, hdeliver⟩
    have hdelivered' := delivered_eq_some.mpr ⟨v', now', predicates', hdeliver'⟩
    exact honce _ _ hdelivered hdelivered' haccepts haccepts' hsame
      (hone _ _ hdelivered hdelivered' hsame)

end

section

attribute [local instance] lawful

open Classical in
/-- The law at the run of a skill. -/
theorem acceptances_le_signatures_skill : ∃ (c : Claim) (d : DisclosedClaim),
    AcceptedDelivery alone (fun _ => 0) (skillSteps c d) (told c) () (shown d) ⟨1200⟩ [] ∧
    (history alone (fun _ => 0) (skillSteps c d)).countP (fun x => decide (AcceptedFrom alone () x)) ≤
      (history alone (fun _ => 0) (skillSteps c d)).countP fun x => decide (SignsPresentation () x) := by
  obtain ⟨c, d, hrun, hd⟩ := lawful_run (identity 1) (skillCall (identity 1).did) (by decide)
  refine ⟨c, d, told_accepted hrun hd, acceptances_le_signatures alone _ _ (skill_unforged hrun hd)
    (skill_sized hrun hd) (fun _ _ _ => rfl) ?_ ?_ ()⟩
  · simp [ClocksAdvance, skillSteps, told, prepared, Step.clock]
  · simp [SpelledOnce, skillSteps, told, prepared, Step.delivered]

end

section

variable [External] {H V : Type} [DecidableEq H] [DecidableEq V] {parties : Parties H V}
  {epoch : V → UInt64} {steps past : List (Step H V)} {v : V} {p : Presentation} {now : Timestamp}
  {predicates : List PredicateRequest}

/-! ## Delivery -/

/-- What a party signed for a verifier is accepted in its window, whoever
delivers it and whatever happened before, just when the verifier has no
presentation of that nonce on record and the predicates are satisfied; where
the claims the party was given are issued to it and good at the verifier. -/
theorem signed_accepted_iff (hlaw : Lawful) (parties : Parties H V) (epoch : V → UInt64)
    (past : List (Step H V)) (v : V) (h : H) (ask : Ask) (purpose : String) (ttl : Int64) (t : Timestamp)
    (n₁ n₂ : ByteVec 12) (q : Presentation)
    (hsigned : (.present h ask (parties.name v) purpose ttl t n₁ n₂, .presented (.ok q)) ∈
      history parties epoch past) (hne : q.claims ≠ []) (now : Timestamp) (hissued : t ≤ now)
    (hunexpired : now ≤ t.plusSeconds ttl)
    (hgood : ∀ c, (.add h c, .done) ∈ history parties epoch past → ∃ i,
      IssuedBy (parties.identity i) (parties.identity h).did c ∧ ∀ s d, c.disclose s = .ok d →
        GoodAt ((after parties epoch past).registry v).anchor now (parties.key i) d)
    (predicates : List PredicateRequest) :
    ((network parties).step (after parties epoch past) (.deliver v q now predicates)).2.Accepts ↔
      (∀ e, ¬ OnRecord parties epoch past v q.nonce e) ∧
      ∀ req ∈ predicates, Satisfied ((after parties epoch past).registry v).anchor q.subjectId now
        q.claims req := by
  obtain ⟨hq, hclaims⟩ := presented_claims hsigned
  have hvalid : ClaimsValid ((after parties epoch past).registry v).anchor q.subjectId now q.claims := by
    intro d hd
    obtain ⟨c, s, hadded, hdisc⟩ := hclaims d hd
    obtain ⟨i, hby, hgoodAt⟩ := hgood c hadded
    rw [congrArg Presentation.subjectId hq]
    exact ⟨_, disclose_valid hlaw hby hdisc (hgoodAt s d hdisc)⟩
  have hbuilt : ∀ seen, seen = false → ∃ vk nonce sig,
      Decoded (buildPresentation (parties.identity h) (parties.name v) purpose (freshNonce n₁ n₂) t
        (t.plusSeconds ttl) q.claims) vk nonce sig ∧
      Bound (buildPresentation (parties.identity h) (parties.name v) purpose (freshNonce n₁ n₂) t
        (t.plusSeconds ttl) q.claims) (parties.name v) now seen vk nonce sig :=
    fun seen hseen => ⟨_, _, _, buildPresentation_decoded hlaw, rfl, rfl, hissued, hunexpired, hseen,
      freshNonce_length n₁ n₂, hne, hlaw.sign_verify _ _⟩
  have hfresh : NonceStore.seen ((after parties epoch past).store v) (parties.name v) q.nonce = false ↔
      ∀ e, ¬ OnRecord parties epoch past v q.nonce e := by
    simp only [← record_iff]
    exact Option.isSome_eq_false_iff.trans (Option.isNone_iff_eq_none.trans Option.eq_none_iff_forall_ne_some)
  rw [← hq] at hbuilt
  rw [accepts_iff, ← hfresh]
  constructor
  · rintro ⟨⟨_, _, _, _, hbound⟩, -, hsatisfied⟩
    exact ⟨hbound.fresh, hsatisfied⟩
  · rintro ⟨hseen, hsatisfied⟩
    exact ⟨hbuilt _ hseen, hvalid, hsatisfied⟩

end

section

attribute [local instance] lawful

theorem told_added (c : Claim) : ∀ c', (.add () c', .done) ∈ history alone (fun _ => 0) (told c) → c' = c := by
  intro c' hc'
  simpa [told, prepared, history, network, Framework.Machine.trace] using hc'

theorem skillSteps_registry (c : Claim) (d : DisclosedClaim) :
    (after alone (fun _ => 0) (skillSteps c d)).registry () = skillRegistry := by
  rw [skillSteps, after, Framework.Machine.final_append, Framework.Machine.final_cons,
    Framework.Machine.final_nil]
  refine ((registry_step alone _ _ ()).resolve_left ?_).trans (told_registry c)
  rintro ⟨_, h, -⟩
  cases h

/-- The law at the skill: delivered with a request for it, it is accepted; with a
request under another scale, or once more, it is not. -/
theorem signed_accepted_iff_skill : ∃ (c : Claim) (d : DisclosedClaim),
    ((network alone).step (after alone (fun _ => 0) (told c))
      (.deliver () (shown d) ⟨1200⟩ [skillRequest none])).2.Accepts ∧
    ¬ ((network alone).step (after alone (fun _ => 0) (told c))
      (.deliver () (shown d) ⟨1200⟩ [skillRequest (some "aion-trust/skill/v2")])).2.Accepts ∧
    ¬ ((network alone).step (after alone (fun _ => 0) (skillSteps c d))
      (.deliver () (shown d) ⟨1200⟩ [])).2.Accepts := by
  obtain ⟨c, d, hrun, hd⟩ := lawful_run (identity 1) (skillCall (identity 1).did) (by decide)
  have hpresented := told_presents hd
  have hlaw : ∀ past, (.present () (.selections []) ⟨"did:aion:verifier"⟩ "hiring" 600 ⟨1000⟩ draw draw,
      .presented (.ok (shown d))) ∈ history alone (fun _ => 0) past →
      (after alone (fun _ => 0) past).registry () = skillRegistry →
      (∀ c', (.add () c', .done) ∈ history alone (fun _ => 0) past → c' = c) → ∀ predicates,
        ((network alone).step (after alone (fun _ => 0) past) (.deliver () (shown d) ⟨1200⟩ predicates)).2.Accepts ↔
          (∀ e, ¬ OnRecord alone (fun _ => 0) past () (shown d).nonce e) ∧
          ∀ req ∈ predicates, Satisfied skillRegistry.anchor (identity 1).did ⟨1200⟩ [d] req := by
    intro past hpast hregistry hadded predicates
    have h := signed_accepted_iff lawful_lawful alone (fun _ => 0) past () () _ _ _ _ _ _ _ hpast
      (List.cons_ne_nil _ _) ⟨1200⟩ (by decide) (by decide)
    rw [hregistry] at h
    refine h (fun c' hc' => ⟨(), ?_⟩) predicates
    obtain rfl := hadded c' hc'
    exact ⟨⟨_, rfl, hrun⟩, fun s d' hd' => told_good hrun hd'⟩
  have htold := hlaw (told c) hpresented (told_registry c) (told_added c)
  have hagain := hlaw (skillSteps c d) (by rw [skillSteps, history_concat]; exact List.mem_append_left _ hpresented)
    (skillSteps_registry c d) (by
      intro c' hc'
      rw [skillSteps, history_concat, List.mem_append, List.mem_singleton] at hc'
      exact told_added c c' (hc'.resolve_right fun h => by cases congrArg Prod.fst h))
  have hsatisfied := skill_satisfied_iff hrun hd
    (disclose_valid lawful_lawful ⟨_, rfl, hrun⟩ hd (told_good hrun hd))
  have hfresh : ∀ e, ¬ OnRecord alone (fun _ => 0) (told c) () (shown d).nonce e := by
    intro e
    rw [← record_iff, told_store]
    exact fun h => by cases h
  refine ⟨c, d, (htold _).mpr ⟨hfresh, ?_⟩, fun haccepts => ?_, fun haccepts => ?_⟩
  · exact List.forall_mem_singleton.mpr ((hsatisfied none).mpr fun _ h => by cases h)
  · have hscale := List.forall_mem_singleton.mp ((htold _).mp haccepts).2
    exact absurd ((hsatisfied _).mp hscale _ rfl) (by decide)
  · obtain ⟨⟨post, -⟩, haccepted⟩ := told_accepted hrun hd
    exact ((hagain []).mp haccepts).1 _ ⟨told c, shown d, ⟨1200⟩, [], [], rfl, haccepted, rfl, rfl, by simp⟩

end

end AionTrust.Proof
