import AionTrust.Proof.Packages
import AionTrust.Proof.Acceptance
import AionTrust.Spec.Registry

/-!
# How long a revocation lasts

A step of the registry leaves every claim revoked that was, unless it puts a
later mark in the place of one in force, or goes back before one
(`keeps_iff`). So revocations are permanent along the runs without such steps
and no others (`revocation_permanent_iff`). A second mark of a revoked claim can
be such a step, which lifts the revocation (`revocation_lifted`).
-/

namespace AionTrust.Proof

open AionTrust.Impl AionTrust.Spec

section

variable [External]

theorem isRevoked_iff {r : Registry} {claimId : ClaimId} :
    r.isRevoked claimId = true ↔ ∃ e, r.revoked claimId.asStr = some e ∧ e ≤ r.epoch := by
  simp [Registry.isRevoked, Option.any_eq_true]

/-- The ledger says of a claim what `isRevoked` does. -/
theorem ledgerRecord_status {r : Registry} {claimId : ClaimId} :
    (r.ledgerRecord claimId.asStr).status = .revoked ↔ r.isRevoked claimId = true := by
  rw [Registry.ledgerRecord, Registry.isRevoked]
  split <;> simp_all

/-- What a step leaves revoked. -/
theorem keeps_iff {r : Registry} {op : RegistryOp} :
    op.Keeps r ↔ ∀ claimId, r.isRevoked claimId = true → (op.apply r).isRevoked claimId = true := by
  cases op with
  | registerIssuer key => exact iff_of_true trivial fun _ h => h
  | registerAccreditor key => exact iff_of_true trivial fun _ h => h
  | requireAccreditation category k accreditors => exact iff_of_true trivial fun _ h => h
  | addAccreditation a => exact iff_of_true trivial fun _ h => h
  | revoke marked epoch =>
    simp only [RegistryOp.Keeps, RegistryOp.NotPostponed, RegistryOp.apply]
    constructor
    · intro hkeeps claimId hrevoked
      by_cases heq : claimId.asStr = marked
      · subst heq
        exact isRevoked_iff.mpr ⟨epoch, by simp [Registry.revoke], hkeeps hrevoked⟩
      · obtain ⟨e, he, hle⟩ := isRevoked_iff.mp hrevoked
        exact isRevoked_iff.mpr ⟨e, by simp [Registry.revoke, Function.update_of_ne heq, he], hle⟩
    · intro hstays hrevoked
      obtain ⟨e, he, hle⟩ := isRevoked_iff.mp (hstays ⟨marked⟩ hrevoked)
      obtain rfl : epoch = e := by simpa [Registry.revoke, ClaimId.asStr] using he
      exact hle
  | setEpoch epoch =>
    simp only [RegistryOp.Keeps, RegistryOp.apply]
    constructor
    · intro hkeeps claimId hrevoked
      obtain ⟨e, he, hle⟩ := isRevoked_iff.mp hrevoked
      exact isRevoked_iff.mpr ⟨e, he, hkeeps _ e he hle⟩
    · intro hstays claimId e he hle
      obtain ⟨e', he', hle'⟩ := isRevoked_iff.mp
        (hstays ⟨claimId⟩ (isRevoked_iff.mpr ⟨e, he, hle⟩))
      obtain rfl : e = e' := Option.some.inj (he.symm.trans he')
      exact hle'

/-- No presentation of a revoked claim, or of one relying on a revoked claim,
is accepted. -/
theorem revoked_not_accepted {r : Registry} {p : Presentation} {c : DisclosedClaim}
    (hc : c ∈ p.claims) (h : r.isRevoked c.claimId = true ∨
      ∃ dep ∈ c.reliance, r.isRevoked dep.fromClaimId = true) {audience : Did} {now : Timestamp}
    {seen : Bool} {predicates : List PredicateRequest} {report : VerificationReport}
    (hr : verifyPresentationWithPredicates p audience now r.anchor seen predicates = .ok report) :
    report.accepted = false := by
  rw [Bool.eq_false_iff]
  intro hacc
  obtain ⟨-, hclaims, -⟩ := (report_accepted_iff hr).mp hacc
  obtain ⟨v, hv⟩ := hclaims c hc
  rcases h with hrevoked | ⟨dep, hdep, hrevoked⟩
  · exact absurd (hrevoked.symm.trans hv.notRevoked) (by decide)
  · obtain ⟨vk, -, hverify⟩ := hv.verified
    obtain rfl := verify_eq_verifiedOf hverify
    have hlive := hv.relianceLive dep.fromClaimId (List.mem_map_of_mem hdep)
    simp [Registry.anchor, hrevoked] at hlive

/-- Revocations are permanent along a run just when every step keeps them. -/
theorem staysRevoked_iff {r : Registry} {ops : List RegistryOp} :
    StaysRevoked r ops ↔ registryMachine.All (fun r op => op.Keeps r) r ops := by
  have hsteps : registryMachine.All (fun r op => op.Keeps r) r ops ↔
      ∀ claimId, ∀ pre mid post, ops = pre ++ mid ++ post →
        (registryMachine.final r pre).isRevoked claimId = true →
          (registryMachine.final r (pre ++ mid)).isRevoked claimId = true := by
    simp only [keeps_iff, Framework.Machine.all_forall]
    exact forall_congr' fun claimId =>
      (Framework.Machine.stable_iff (Q := fun r : Registry => r.isRevoked claimId = true)).symm
  rw [hsteps]
  refine ⟨fun h => h.permanent, fun h => ⟨h, ?_⟩⟩
  intro pre mid post hops p c hc hrevoked audience now seen predicates report hr
  refine revoked_not_accepted hc (hrevoked.imp (h _ pre mid post hops) ?_) hr
  rintro ⟨dep, hdep, hrevoked⟩
  exact ⟨dep, hdep, h _ pre mid post hops hrevoked⟩

/-- Going forward, a step keeps what is revoked unless it postpones a mark. -/
theorem keeps_iff_notPostponed {r : Registry} {op : RegistryOp} (h : op.Advances r) :
    op.Keeps r ↔ op.NotPostponed r := by
  cases op with
  | setEpoch epoch => exact iff_of_true (fun _ e _ hle => UInt64.le_trans hle h) trivial
  | _ => exact Iff.rfl

/-- Along every run of operations, revocations are permanent just when no step
marks a revoked claim as of an epoch not yet reached or goes back before a mark
in force; where no epoch set is before the registry's, just when no step
postpones. -/
theorem revocation_permanent_iff (epoch : UInt64) (ops : List RegistryOp) :
    (StaysRevoked (Registry.new epoch) ops ↔
      registryMachine.All (fun r op => op.Keeps r) (Registry.new epoch) ops) ∧
    (registryMachine.All (fun r op => op.Advances r) (Registry.new epoch) ops →
      (StaysRevoked (Registry.new epoch) ops ↔
        registryMachine.All (fun r op => op.NotPostponed r) (Registry.new epoch) ops)) := by
  refine ⟨staysRevoked_iff, fun hadvances => staysRevoked_iff.trans ⟨fun h => ?_, fun h => ?_⟩⟩
  · exact (Framework.Machine.all_and.mpr ⟨hadvances, h⟩).mono fun _ _ ⟨ha, hk⟩ =>
      (keeps_iff_notPostponed ha).mp hk
  · exact (Framework.Machine.all_and.mpr ⟨hadvances, h⟩).mono fun _ _ ⟨ha, hk⟩ =>
      (keeps_iff_notPostponed ha).mpr hk

end

section

attribute [local instance] lawful

/-- A claim revoked as of epoch 3, at epoch 5, is live again once it is marked
as of epoch 9, and no epoch has been set. -/
theorem revocation_lifted :
    registryMachine.All (fun r op => op.Advances r) (Registry.new 5) [.revoke "c" 3, .revoke "c" 9] ∧
      ¬ StaysRevoked (Registry.new 5) [.revoke "c" 3, .revoke "c" 9] := by
  refine ⟨⟨trivial, trivial, trivial⟩, fun h => ?_⟩
  have hlifted := h.permanent ⟨"c"⟩ [.revoke "c" 3] [.revoke "c" 9] [] rfl (by decide)
  exact absurd hlifted (by decide)

end

end AionTrust.Proof
