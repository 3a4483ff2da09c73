import AionTrust.Impl.Cli
import AionTrust.Proof.SingleUse
import AionTrust.Proof.Verdict

/-!
# Eviction is not observable

A presentation for another audience, or past its expiry, is rejected outright,
whatever the store says of its nonce (`verdict_hard`). So a store that forgets
the nonces of expired presentations decides every call as one that forgets
nothing (`eviction_unobservable`).
-/

namespace AionTrust.Proof

open AionTrust.Impl AionTrust.Spec

/-! ## Records -/

/-- A file holds the nonce it records, and what it held. -/
theorem seen_record_file (t : JsonFileNonceStore) (audience audience' : Did) (nonce nonce' : String)
    (expiresAt : Timestamp) :
    NonceStore.seen (NonceStore.record t audience nonce expiresAt) audience' nonce' =
      (NonceStore.seen t audience' nonce' || decide (audience' = audience ∧ nonce' = nonce)) := by
  have hdid : audience.asStr = audience'.asStr ↔ audience' = audience :=
    ⟨fun h => (Did.asStr_injective h).symm, fun h => by rw [h]⟩
  simp only [NonceStore.seen, NonceStore.record, List.any_append, List.any_cons, List.any_nil,
    Bool.or_false]
  congr 1
  rw [Bool.eq_iff_iff]
  simp only [Bool.and_eq_true, beq_iff_eq, decide_eq_true_eq, hdid, eq_comm (a := nonce)]

/-- So does a store in memory. -/
theorem seen_record_memory (s : InMemoryNonceStore) (audience audience' : Did) (nonce nonce' : String)
    (expiresAt : Timestamp) :
    NonceStore.seen (NonceStore.record s audience nonce expiresAt) audience' nonce' =
      (NonceStore.seen s audience' nonce' || decide (audience' = audience ∧ nonce' = nonce)) := by
  by_cases h : (audience', nonce') = (audience, nonce)
  · obtain ⟨rfl, rfl⟩ := Prod.mk.inj h
    simp [NonceStore.seen, NonceStore.record]
  · have hne : ¬ (audience' = audience ∧ nonce' = nonce) := fun he => h (Prod.ext he.1 he.2)
    simp [NonceStore.seen, NonceStore.record, hne]

section

variable [External]

/-! ## Outright rejections -/

section

variable {p : Presentation} {audience : Did} {now : Timestamp} {anchor : TrustAnchor}
  {predicates : List PredicateRequest}

/-- A presentation for another audience or past its expiry is neither accepted
nor amber. -/
theorem verify_hard (h : p.audience ≠ audience ∨ p.expiresAt < now) {seen : Bool}
    {report : VerificationReport}
    (hreport : verifyPresentationWithPredicates p audience now anchor seen predicates = .ok report) :
    report.accepted = false ∧ report.amber = false := by
  have hnot : ¬ (report.accepted || (true && report.amber)) = true := by
    rw [report_iff hreport true]
    rintro ⟨⟨_, _, _, -, hbound⟩, -, -⟩
    rcases h with haudience | hexpired
    · exact haudience hbound.audience
    · exact absurd hbound.unexpired (not_le.mpr hexpired)
  simpa using hnot

/-- Its verdict does not depend on the store. -/
theorem verdict_hard (h : p.audience ≠ audience ∨ p.expiresAt < now) (seen seen' : Bool) :
    verdict (verifyPresentationWithPredicates p audience now anchor seen predicates) =
      verdict (verifyPresentationWithPredicates p audience now anchor seen' predicates) := by
  cases hreport : verifyPresentationWithPredicates p audience now anchor seen predicates with
  | error e => rw [verify_eq_error.mpr (verify_eq_error.mp hreport)]
  | ok report =>
    obtain ⟨report', hreport'⟩ := verify_isOk.mpr (verify_isOk.mp ⟨report, hreport⟩)
    obtain ⟨haccepted, hamber⟩ := verify_hard h hreport
    obtain ⟨haccepted', hamber'⟩ := verify_hard h hreport'
    rw [hreport']
    simp only [verdict, Except.map, haccepted, hamber, haccepted', hamber']

end

/-! ## What a call does to a store -/

section

variable {S : Type} [NonceStore S] (s : S) (call : VerifyCall)

/-- What the verifier says of a call, by what the store says of its nonce. -/
def reportOf (call : VerifyCall) (seen : Bool) : Except TrustError VerificationReport :=
  verifyPresentationWithPredicates call.p call.audience call.now call.anchor seen call.predicates

theorem step_report : ((verifierMachine S).step s call).2 =
    reportOf call (NonceStore.seen s call.audience call.p.nonce) := by
  simp only [verifierMachine, verifyPresentationWithStore, reportOf]
  split <;> simp_all

variable {s call}

/-- A call that accepts records its nonce. -/
theorem step_accepts {report : VerificationReport}
    (h : reportOf call (NonceStore.seen s call.audience call.p.nonce) = .ok report)
    (hacc : report.accepted = true) : ((verifierMachine S).step s call).1 =
      NonceStore.record s call.audience call.p.nonce call.p.expiresAt := by
  rw [reportOf] at h
  simp only [verifierMachine, verifyPresentationWithStore, h, hacc, if_true]

/-- A call that does not accept leaves the store as it was. -/
theorem step_rejects (h : ∀ report,
      reportOf call (NonceStore.seen s call.audience call.p.nonce) = .ok report →
        report.accepted = false) : ((verifierMachine S).step s call).1 = s := by
  simp only [verifierMachine, verifyPresentationWithStore]
  split
  · rfl
  · rename_i report hreport
    simp [h report hreport]

end

/-- The store in memory answers a verification as any verifier does. -/
theorem storeMachine_step (s : InMemoryNonceStore) {a : StoreCall} {call : VerifyCall}
    (h : a.verification = some call) : storeMachine.step s a =
      (((verifierMachine InMemoryNonceStore).step s call).1,
        some ((verifierMachine InMemoryNonceStore).step s call).2) := by
  cases a with
  | evict now => cases h
  | verify p audience now anchor predicates =>
    obtain rfl := Option.some.inj h
    rfl

theorem presentation_eq {a : StoreCall} {call : VerifyCall} (h : a.verification = some call) :
    a.presentation = some call.p := by
  cases a with
  | evict now => cases h
  | verify p audience now anchor predicates =>
    obtain rfl := Option.some.inj h
    rfl

/-! ## Two stores that agree on what is to come -/

/-- A store in memory and a file agree on the calls still to come: on the nonces
of the presentations that are not past their expiry then. -/
structure AgreeOn (s : InMemoryNonceStore) (t : JsonFileNonceStore) (calls : List StoreCall) : Prop where
  timely : Timely calls
  oneExpiry : OneExpiry calls
  recorded : ∀ a ∈ calls, ∀ call, a.verification = some call →
    ∀ e, s.seen (call.p.audience, call.p.nonce) = some e → e = call.p.expiresAt
  seen : ∀ a ∈ calls, ∀ call, a.verification = some call →
    NonceStore.seen s call.p.audience call.p.nonce = NonceStore.seen t call.p.audience call.p.nonce ∨
      call.p.expiresAt < call.now

theorem AgreeOn.tail {s : InMemoryNonceStore} {t : JsonFileNonceStore} {a : StoreCall}
    {calls : List StoreCall} (h : AgreeOn s t (a :: calls)) : AgreeOn s t calls where
  timely := (List.pairwise_cons.mp h.timely).2
  oneExpiry a ha b hb := h.oneExpiry a (.tail _ ha) b (.tail _ hb)
  recorded b hb := h.recorded b (.tail _ hb)
  seen b hb := h.seen b (.tail _ hb)

/-- An eviction forgets only what has expired by every call still to come. -/
theorem AgreeOn.evict {s : InMemoryNonceStore} {t : JsonFileNonceStore} {now : Timestamp}
    {calls : List StoreCall} (h : AgreeOn s t (.evict now :: calls)) :
    AgreeOn (s.evictExpired now) t calls where
  timely := h.tail.timely
  oneExpiry := h.tail.oneExpiry
  recorded b hb call hcall e he :=
    h.tail.recorded b hb call hcall e (Option.filter_eq_some_iff.mp he).1
  seen b hb call hcall := by
    rcases h.tail.seen b hb call hcall with hsame | hexpired
    · have hnow : now ≤ call.now := (List.pairwise_cons.mp h.timely).1 b hb call hcall
      cases hseen : s.seen (call.p.audience, call.p.nonce) with
      | none => exact .inl (by rw [← hsame]; simp [NonceStore.seen, InMemoryNonceStore.evictExpired, hseen])
      | some e =>
        obtain rfl := h.tail.recorded b hb call hcall e hseen
        by_cases hle : now ≤ call.p.expiresAt
        · exact .inl (by
            rw [← hsame]; simp [NonceStore.seen, InMemoryNonceStore.evictExpired, hseen, hle])
        · exact .inr (lt_of_lt_of_le (not_le.mp hle) hnow)
    · exact .inr hexpired

/-- A verification is decided alike by both stores, and they agree afterwards. -/
theorem AgreeOn.verify {s : InMemoryNonceStore} {t : JsonFileNonceStore} {a : StoreCall}
    {call : VerifyCall} {calls : List StoreCall} (hcall : a.verification = some call)
    (h : AgreeOn s t (a :: calls)) :
    verdict ((verifierMachine InMemoryNonceStore).step s call).2 =
        verdict ((verifierMachine JsonFileNonceStore).step t call).2 ∧
      AgreeOn ((verifierMachine InMemoryNonceStore).step s call).1
        ((verifierMachine JsonFileNonceStore).step t call).1 calls := by
  rw [step_report, step_report]
  by_cases hhard : call.p.audience ≠ call.audience ∨ call.p.expiresAt < call.now
  · refine ⟨verdict_hard hhard _ _, ?_⟩
    rw [step_rejects fun report hr => (verify_hard hhard hr).1,
      step_rejects fun report hr => (verify_hard hhard hr).1]
    exact h.tail
  · rw [not_or, not_not] at hhard
    obtain ⟨haudience, hlive⟩ := hhard
    have hsame := (h.seen a List.mem_cons_self call hcall).resolve_right hlive
    rw [haudience] at hsame
    rw [hsame]
    refine ⟨rfl, ?_⟩
    by_cases hacc : ∃ report, reportOf call (NonceStore.seen t call.audience call.p.nonce) = .ok report ∧
        report.accepted = true
    · obtain ⟨report, hreport, hacc⟩ := hacc
      rw [step_accepts (hsame ▸ hreport) hacc, step_accepts hreport hacc]
      refine ⟨h.tail.timely, h.tail.oneExpiry, fun b hb call' hcall' e he => ?_, fun b hb call' hcall' => ?_⟩
      · by_cases hkey : (call'.p.audience, call'.p.nonce) = (call.audience, call.p.nonce)
        · obtain ⟨haud', hnonce⟩ := Prod.mk.inj hkey
          have hnew : e = call.p.expiresAt := by
            simpa [NonceStore.record, hkey, eq_comm] using he
          rw [hnew]
          exact h.oneExpiry a List.mem_cons_self b (.tail _ hb) _ _ (presentation_eq hcall)
            (presentation_eq hcall') (haudience.trans haud'.symm) hnonce.symm
        · exact h.tail.recorded b hb call' hcall' e (by
            simpa [NonceStore.record, Function.update_of_ne hkey] using he)
      · rw [seen_record_memory, seen_record_file]
        exact (h.tail.seen b hb call' hcall').imp (fun he => by rw [he]) id
    · have hrejects : ∀ report, reportOf call (NonceStore.seen t call.audience call.p.nonce) =
          .ok report → report.accepted = false := fun report hr => by
        rw [← Bool.not_eq_true]
        exact fun hacc' => hacc ⟨report, hr, hacc'⟩
      rw [step_rejects (hsame ▸ hrejects), step_rejects hrejects]
      exact h.tail

/-- Evictions between verifications do not change what is decided. In every
run of a verifier whose verifications do not go back in time, and whose
presentations of one audience and nonce expire together, evictions up to the
next verification leave every verdict as a store decides it that forgets
nothing. -/
theorem eviction_unobservable (calls : List StoreCall) (htimely : Timely calls)
    (hexpiry : OneExpiry calls) :
    (storeMachine.trace InMemoryNonceStore.new calls).filterMap (fun x => x.2.map verdict) =
      ((verifierMachine JsonFileNonceStore).trace .default (calls.filterMap StoreCall.verification)).map
        fun x => verdict x.2 := by
  refine Framework.Machine.trace_simulation _ (Option.map verdict) verdict AgreeOn ?_ ?_
    ⟨htimely, hexpiry, (fun _ _ _ _ _ he => by cases he), fun _ _ _ _ => .inl rfl⟩
  · intro s t a calls ha h
    cases a with
    | evict now => exact ⟨rfl, h.evict⟩
    | verify => cases ha
  · intro s t a call calls ha h
    obtain ⟨hverdict, hnext⟩ := h.verify ha
    rw [storeMachine_step s ha]
    exact ⟨congrArg some hverdict, hnext⟩

end

section

attribute [local instance] lawful

/-- The law at a presentation of a skill that is accepted, evicted once it has
expired, and shown again. -/
theorem eviction_unobservable_skill : ∃ (p : Presentation) (anchor : TrustAnchor)
    (report : VerificationReport),
    verifyPresentationWithPredicates p p.audience ⟨1200⟩ anchor false [] = .ok report ∧
      report.accepted = true ∧
      (storeMachine.trace InMemoryNonceStore.new [.verify p p.audience ⟨1200⟩ anchor [],
          .evict ⟨1700⟩, .verify p p.audience ⟨1700⟩ anchor []]).filterMap (fun x => x.2.map verdict) =
        ((verifierMachine JsonFileNonceStore).trace .default
          [⟨p, p.audience, ⟨1200⟩, anchor, []⟩, ⟨p, p.audience, ⟨1700⟩, anchor, []⟩]).map
          fun x => verdict x.2 := by
  obtain ⟨anchor, d, haccepts⟩ := skill_accepted
    (show 16 ≤ (List.replicate 24 (7 : UInt8)).length by decide)
  obtain ⟨report, hreport, hacc⟩ := haccepts ⟨1200⟩ (by decide) (by decide)
  obtain ⟨p, haudience, hreport⟩ : ∃ p : Presentation, p.audience = ⟨"did:aion:verifier"⟩ ∧
      verifyPresentationWithPredicates p ⟨"did:aion:verifier"⟩ ⟨1200⟩ anchor false [] = .ok report :=
    ⟨_, rfl, hreport⟩
  refine ⟨p, anchor, report, haudience ▸ hreport, hacc, eviction_unobservable _ ?_ ?_⟩
  · simp only [Timely, List.pairwise_cons, StoreCall.time, StoreCall.verification, List.mem_cons,
      List.not_mem_nil, or_false, forall_eq_or_imp, forall_eq, Option.some.injEq, reduceCtorEq,
      false_imp_iff, implies_true, forall_eq', List.Pairwise.nil, and_true, true_and]
    decide
  · intro a ha b hb p q hp hq _ _
    simp only [List.mem_cons, List.not_mem_nil, or_false] at ha hb
    rcases ha with rfl | rfl | rfl <;> rcases hb with rfl | rfl | rfl <;> cases hp <;> cases hq <;> rfl

end

end AionTrust.Proof
