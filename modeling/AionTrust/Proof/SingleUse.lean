import AionTrust.Proof.Honest
import AionTrust.Spec.SingleUse

/-!
# When a presentation is used once

A call that accepts finds its nonce unrecorded and records it
(`withStore_cases`), and the record stays until the presentation has expired.
So in a run where no call spells a recorded nonce in another way, no message is
accepted twice (`single_use`). The store tells nonces apart by their spelling
and the signature does not: a presentation whose nonce is spelled in upper case
is accepted again (`replay_accepted`).
-/

namespace AionTrust.Proof

open AionTrust.Impl AionTrust.Spec
open Framework (Bytes)

/-- Presentations of one signed message are those whose subjects' signatures
cover the same bytes. -/
theorem sameSigned_iff {p q : Presentation} {nonce nonce' : Bytes} (hp : fromHex p.nonce = .ok nonce)
    (hq : fromHex q.nonce = .ok nonce')
    (hfits : (Message.presentation p.subjectId p.audience p.purpose nonce p.issuedAt p.expiresAt
      (p.claims.map DisclosedClaim.claimId)).Fits)
    (hfits' : (Message.presentation q.subjectId q.audience q.purpose nonce' q.issuedAt q.expiresAt
      (q.claims.map DisclosedClaim.claimId)).Fits) :
    SameSigned p q ↔
      presSigningBytes p.subjectId p.audience p.purpose nonce p.issuedAt p.expiresAt p.claims =
        presSigningBytes q.subjectId q.audience q.purpose nonce' q.issuedAt q.expiresAt q.claims := by
  constructor
  · intro h
    obtain ⟨bytes, hbytes, hbytes'⟩ := h.nonce
    obtain rfl := Except.ok.inj (hp.symm.trans hbytes)
    obtain rfl := Except.ok.inj (hq.symm.trans hbytes')
    rw [h.subjectId, h.audience, h.purpose, h.issuedAt, h.expiresAt]
    exact presSigningBytes_congr h.claimIds
  · intro h
    rw [presSigningBytes_eq, presSigningBytes_eq] at h
    obtain ⟨hs, ha, hpurpose, hn, hi, he, hids⟩ := Message.presentation.inj (framed_inj hfits hfits' h)
    exact ⟨hs, ha, hpurpose, ⟨nonce, hp, hn ▸ hq⟩, hi, he, hids⟩

section

variable [External]

/-- A call either accepts, having found the nonce unrecorded and recording it,
or leaves the store as it was. -/
theorem withStore_cases (p : Presentation) (audience : Did) (now : Timestamp) (anchor : TrustAnchor)
    (s : InMemoryNonceStore) (predicates : List PredicateRequest) :
    (∃ report, verifyPresentationWithStore p audience now anchor s predicates =
        (.ok report, ⟨Function.update s.seen (audience, p.nonce) (some p.expiresAt)⟩) ∧
      report.accepted = true ∧ s.seen (audience, p.nonce) = none ∧ p.audience = audience ∧
      now ≤ p.expiresAt) ∨
    ((verifyPresentationWithStore p audience now anchor s predicates).2 = s ∧
      ∀ report, (verifyPresentationWithStore p audience now anchor s predicates).1 = .ok report →
        report.accepted = false) := by
  simp only [verifyPresentationWithStore]
  cases h : verifyPresentationWithPredicates p audience now anchor
      (NonceStore.seen s audience p.nonce) predicates with
  | error e => exact .inr ⟨rfl, fun _ he => by cases he⟩
  | ok report =>
    cases hacc : report.accepted with
    | false => exact .inr ⟨by simp [hacc], fun _ hr => by rw [← Except.ok.inj hr, hacc]⟩
    | true =>
      obtain ⟨⟨_, _, _, -, hbound⟩, -, -⟩ := (report_accepted_iff h).mp hacc
      refine .inl ⟨report, by simp [hacc]; rfl, hacc, ?_, hbound.audience, hbound.unexpired⟩
      exact Option.isSome_eq_false_iff.mp hbound.fresh |> Option.isNone_iff_eq_none.mp

/-- A call accepts what the verifier accepts of a nonce not on record, and
records it. -/
theorem accepts_of_verify {p : Presentation} {now : Timestamp} {anchor : TrustAnchor}
    {predicates : List PredicateRequest} {report : VerificationReport}
    (h : verifyPresentationWithPredicates p p.audience now anchor false predicates = .ok report)
    (hacc : report.accepted = true) {s : InMemoryNonceStore}
    (hnone : s.seen (p.audience, p.nonce) = none) :
    storeMachine.step s (.verify p p.audience now anchor predicates) =
        (⟨Function.update s.seen (p.audience, p.nonce) (some p.expiresAt)⟩, some (.ok report)) ∧
      Accepts p (.verify p p.audience now anchor predicates, some (.ok report)) := by
  refine ⟨?_, p.audience, now, anchor, predicates, report, rfl, hacc⟩
  have hseen : NonceStore.seen s p.audience p.nonce = false := by simp [NonceStore.seen, hnone]
  simp only [storeMachine, verifyPresentationWithStore, hseen, h, hacc, if_true]
  rfl

/-- Two calls that follow one another and accept one message. -/
theorem not_singleUse {s s' s'' : InMemoryNonceStore} {a b : StoreCall} {p q : Presentation}
    {x y : Option (Except TrustError VerificationReport)} (ha : storeMachine.step s a = (s', x))
    (hb : storeMachine.step s' b = (s'', y)) (hp : Accepts p (a, x)) (hq : Accepts q (b, y))
    (hsame : SameSigned p q) : ¬ SingleUse (storeMachine.trace s [a, b]) := by
  intro h
  have hpair := (List.pairwise_cons.mp h).1 (b, y) (by simp [Framework.Machine.trace, ha, hb])
  exact hpair p q (by rw [ha]; exact hp) hq hsame

/-- What a step that accepts finds and leaves. -/
theorem accepts_step {p : Presentation} {s : InMemoryNonceStore} {call : StoreCall}
    (h : Accepts p (call, (storeMachine.step s call).2)) :
    ∃ now anchor predicates, call = .verify p p.audience now anchor predicates ∧
      s.seen (p.audience, p.nonce) = none ∧ now ≤ p.expiresAt ∧
      (storeMachine.step s call).1.seen (p.audience, p.nonce) = some p.expiresAt := by
  obtain ⟨audience, now, anchor, predicates, report, hx, hacc⟩ := h
  obtain ⟨rfl, hreport⟩ := Prod.mk.inj hx
  rcases withStore_cases p audience now anchor s predicates with
    ⟨report', hstep, -, hnone, rfl, hle⟩ | ⟨-, hrejects⟩
  · refine ⟨now, anchor, predicates, rfl, hnone, hle, ?_⟩
    simp [storeMachine, hstep]
  · exact absurd hacc (by simp [hrejects report (Option.some.inj hreport)])

/-- A record stays as long as its presentation is unexpired at the calls. -/
theorem seen_step {s : InMemoryNonceStore} {call : StoreCall} {key : Did × String}
    {expiresAt : Timestamp} (h : s.seen key = some expiresAt) :
    (storeMachine.step s call).1.seen key = some expiresAt ∨ expiresAt < call.time := by
  cases call with
  | evict now =>
    by_cases hle : now ≤ expiresAt
    · exact .inl (by simp [storeMachine, InMemoryNonceStore.evictExpired, h, hle])
    · exact .inr (not_le.mp hle)
  | verify q audience now anchor predicates =>
    refine .inl ?_
    rcases withStore_cases q audience now anchor s predicates with ⟨_, hstep, -, hnone, -⟩ | ⟨hstep, -⟩
    · have hne : key ≠ (audience, q.nonce) := by
        rintro rfl
        rw [hnone] at h
        cases h
      simp [storeMachine, hstep, Function.update_of_ne hne, h]
    · simp [storeMachine, hstep, h]

/-- In every run whose times do not go back, no signed message is accepted
twice in one spelling of its nonce. -/
theorem accepted_spellings (calls : List StoreCall)
    (htime : (calls.map StoreCall.time).Pairwise (· ≤ ·)) :
    (storeMachine.trace InMemoryNonceStore.new calls).Pairwise fun x y =>
      ∀ p q, Accepts p x → Accepts q y → SameSigned p q → p.nonce ≠ q.nonce := by
  rw [← Framework.Machine.trace_withGhost (m := storeMachine)
    (fun _ call => (call.time : WithBot Timestamp)) _ ⊥]
  -- what was accepted is on record, or has expired by the clock
  refine Framework.Machine.trace_pairwise (fun x s => ∀ p, Accepts p x →
    s.1.seen (p.audience, p.nonce) = some p.expiresAt ∨ (p.expiresAt : WithBot Timestamp) < s.2)
    ?_ ?_ ?_ (Framework.Machine.all_withClock (fun _ _ => bot_le) htime)
  · intro s call _ p hp
    obtain ⟨_, _, _, -, -, -, hseen⟩ := accepts_step hp
    exact .inl hseen
  · intro x s call hclock hx p hp
    rcases hx p hp with hseen | hexpired
    · exact (seen_step hseen).imp id WithBot.coe_lt_coe.mpr
    · exact .inr (hexpired.trans_le hclock)
  · intro x s call hclock hx p q hp hq hsame hnonce
    obtain ⟨now, anchor, predicates, rfl, hnone, hle, -⟩ := accepts_step hq
    rcases hx p hp with hseen | hexpired
    · rw [hsame.audience, hnonce, hnone] at hseen
      cases hseen
    · have hnow := WithBot.coe_lt_coe.mp (hexpired.trans_le hclock)
      rw [hsame.expiresAt] at hnow
      exact absurd hle (not_le.mpr hnow)

/-- An accepted presentation is the one its call was given. -/
theorem presentation_of_accepts {p : Presentation}
    {x : StoreCall × Option (Except TrustError VerificationReport)} (h : Accepts p x) :
    x.1.presentation = some p := by
  obtain ⟨_, _, _, _, _, rfl, -⟩ := h
  rfl

/-- In every run whose times do not go back and whose calls spell each message
in one way, no signed message is accepted twice. -/
theorem single_use (calls : List StoreCall) (htime : (calls.map StoreCall.time).Pairwise (· ≤ ·))
    (hspelling : OneSpelling calls) :
    SingleUse (storeMachine.trace InMemoryNonceStore.new calls) := by
  rw [OneSpelling, ← Framework.Machine.trace_map_fst (m := storeMachine) InMemoryNonceStore.new calls,
    List.pairwise_map] at hspelling
  refine (accepted_spellings calls htime).imp₂ (fun x y hone hsame p q hp hq h => ?_) hspelling
  exact hone p q hp hq h (hsame p q (presentation_of_accepts hp) (presentation_of_accepts hq) h)

/-- Calls given presentations as their subjects write them spell each message
in one way. -/
theorem oneSpelling_of_toHex {calls : List StoreCall} (h : ∀ call ∈ calls, ∀ p,
    call.presentation = some p → ∃ bytes, p.nonce = toHex bytes) : OneSpelling calls := by
  refine List.pairwise_of_forall_mem_list fun a ha b hb p q hp hq hsame => ?_
  obtain ⟨bytes, hbytes⟩ := h a ha p hp
  obtain ⟨bytes', hbytes'⟩ := h b hb q hq
  obtain ⟨nonce, hnonce, hnonce'⟩ := hsame.nonce
  rw [hbytes, fromHex_toHex, Except.ok.injEq] at hnonce
  rw [hbytes', fromHex_toHex, Except.ok.injEq] at hnonce'
  rw [hbytes, hbytes', hnonce, hnonce']

end

section

attribute [local instance] lawful

/-- The law at a presentation replayed as it was. -/
theorem single_use_replay : ∃ (p : Presentation) (anchor : TrustAnchor),
    Accepts p (.verify p p.audience ⟨1200⟩ anchor [], (storeMachine.step InMemoryNonceStore.new
      (.verify p p.audience ⟨1200⟩ anchor [])).2) ∧
    SingleUse (storeMachine.trace InMemoryNonceStore.new [.verify p p.audience ⟨1200⟩ anchor [],
      .evict ⟨1250⟩, .verify p p.audience ⟨1300⟩ anchor []]) := by
  obtain ⟨anchor, d, haccepted⟩ := skill_accepted (show 16 ≤ (List.replicate 16 7).length by decide)
  obtain ⟨report, hreport, hacc⟩ := haccepted ⟨1200⟩ (by decide) (by decide)
  obtain ⟨hstep, haccepts⟩ := accepts_of_verify hreport hacc (s := .new) rfl
  refine ⟨_, anchor, by rw [hstep]; exact haccepts, single_use _ ?_ (oneSpelling_of_toHex ?_)⟩
  · exact (show [(⟨1200⟩ : Timestamp), ⟨1250⟩, ⟨1300⟩].Pairwise (· ≤ ·) by decide)
  · intro call hcall p hp
    refine ⟨List.replicate 16 7, ?_⟩
    simp only [List.mem_cons, List.not_mem_nil, or_false] at hcall
    rcases hcall with rfl | rfl | rfl
    · rw [← Option.some.inj hp]; rfl
    · cases hp
    · rw [← Option.some.inj hp]; rfl

end

/-! ## Another spelling -/

section

variable [External]

/-- The verdict does not depend on how the nonce is spelled. -/
theorem accepted_respell {p : Presentation} {nonce : String} (h : fromHex nonce = fromHex p.nonce)
    {audience : Did} {now : Timestamp} {anchor : TrustAnchor} {seen : Bool}
    {predicates : List PredicateRequest} {report : VerificationReport}
    (hr : verifyPresentationWithPredicates p audience now anchor seen predicates = .ok report)
    (hacc : report.accepted = true) :
    ∃ report', verifyPresentationWithPredicates { p with nonce } audience now anchor seen predicates =
      .ok report' ∧ report'.accepted = true := by
  obtain ⟨⟨vk, bytes, sig, hdec, hb⟩, hrest⟩ := (report_accepted_iff hr).mp hacc
  have hdec' : Decoded { p with nonce } vk bytes sig := ⟨hdec.subjectKey, h.trans hdec.nonce, hdec.signature⟩
  have hb' : Bound { p with nonce } audience now seen vk bytes sig :=
    ⟨hb.subject, hb.audience, hb.issued, hb.unexpired, hb.fresh, hb.nonceLength, hb.nonempty, hb.signature⟩
  exact verify_accepts hdec' hb' hrest.1 hrest.2

end

section

attribute [local instance] lawful

/-- A presentation accepted is accepted again by the same audience, with its
nonce in upper case. -/
theorem replay_accepted : ∃ (p : Presentation) (anchor : TrustAnchor),
    p = buildPresentation (identity 1) ⟨"did:aion:verifier"⟩ "hiring" (List.replicate 16 0xab)
      ⟨1000⟩ ⟨1600⟩ p.claims ∧
    p.nonce = "abababababababababababababababab" ∧
    ([StoreCall.verify p p.audience ⟨1200⟩ anchor [], .verify { p with
      nonce := "ABABABABABABABABABABABABABABABAB" } p.audience ⟨1300⟩ anchor []].map
        StoreCall.time).Pairwise (· ≤ ·) ∧
    ¬ SingleUse (storeMachine.trace InMemoryNonceStore.new [.verify p p.audience ⟨1200⟩ anchor [],
      .verify { p with nonce := "ABABABABABABABABABABABABABABABAB" } p.audience ⟨1300⟩ anchor []]) := by
  obtain ⟨anchor, d, haccepted⟩ :=
    skill_accepted (show 16 ≤ (List.replicate 16 0xab).length by decide)
  obtain ⟨report, hreport, hacc⟩ := haccepted ⟨1200⟩ (by decide) (by decide)
  obtain ⟨again, hagain, hacc'⟩ := haccepted ⟨1300⟩ (by decide) (by decide)
  generalize hp : buildPresentation _ _ _ _ _ _ _ = p at hreport hagain
  have hbuilt : p = buildPresentation (identity 1) ⟨"did:aion:verifier"⟩ "hiring"
      (List.replicate 16 0xab) ⟨1000⟩ ⟨1600⟩ p.claims := by rw [← hp]; rfl
  have hnonce : p.nonce = "abababababababababababababababab" := by rw [← hp]; rfl
  have haudience : p.audience = ⟨"did:aion:verifier"⟩ := by rw [← hp]; rfl
  rw [← haudience] at hreport hagain
  have hbytes : fromHex "ABABABABABABABABABABABABABABABAB" = fromHex p.nonce := by
    rw [hnonce]; decide
  obtain ⟨report', hreport', hacc''⟩ := accepted_respell hbytes hagain hacc'
  obtain ⟨hstep, hfirst⟩ := accepts_of_verify hreport hacc (s := .new) rfl
  have hfresh : (p.audience, "ABABABABABABABABABABABABABABABAB") ≠ (p.audience, p.nonce) := by
    rw [hnonce, ne_eq, Prod.mk.injEq]
    exact fun h => absurd h.2 (by decide)
  obtain ⟨hstep', hsecond⟩ := accepts_of_verify hreport' hacc''
    (s := ⟨Function.update InMemoryNonceStore.new.seen (p.audience, p.nonce) (some p.expiresAt)⟩)
    (Function.update_of_ne hfresh (some p.expiresAt) InMemoryNonceStore.new.seen)
  have htimes : [(⟨1200⟩ : Timestamp), ⟨1300⟩].Pairwise (· ≤ ·) := by decide
  refine ⟨p, anchor, hbuilt, hnonce, htimes, not_singleUse hstep hstep' hfirst hsecond ?_⟩
  have hlower : fromHex p.nonce = .ok (List.replicate 16 0xab) := by
    rw [hnonce]
    decide
  exact ⟨rfl, rfl, rfl, ⟨_, hlower, hbytes.trans hlower⟩, rfl, rfl, rfl⟩

end

end AionTrust.Proof
