import AionTrust.Proof.Pages

/-!
# Layouts

Two bodies with one layout are read with one outline (`alike_body`), part by
part: an issuer's row, a claim's row or card, a disclosed claim, each whatever
its texts. What is above a body is alike to a text of its layout (`sample`).
-/

namespace AionTrust.Proof

set_option maxRecDepth 20000

open AionTrust.Impl AionTrust.Spec
open Framework.Markup

theorem isTag_text (c : Char) : (Node.text c).isTag = false := rfl

theorem alike_nat (n n' : ℕ) : Alike home (toString n) (toString n') home :=
  .of_quiet (reads_nat isTag_text n) (reads_nat isTag_text n')

/-! ## Heads -/

/-- A text that is so laid out. -/
def sample : HeadLayout → String
  | .nothing => ""
  | .busy => View.busy
  | .issued => View.ok ""
  | .built => View.ok "<a href=\"/verify\"></a>"
  | .warning => View.warn ""
  | .notice => View.notice ""
  | .error => View.errorBlock ""
  | .report rows accepted =>
    View.reportPanel ⟨accepted, false, rows.map fun (passed, detailed) => ⟨"", passed, if detailed then "." else ""⟩⟩

theorem alike_warn (e e' : String) : Alike home (View.warn e) (View.warn e') home := by
  unfold View.warn
  simp only [esc_eq]
  exact ((Alike.lit home rfl).esc e e').then home rfl

theorem alike_errorBlock (e e' : String) : Alike home (View.errorBlock e) (View.errorBlock e') home := by
  unfold View.errorBlock
  simp only [esc_eq]
  exact ((Alike.lit home rfl).esc e e').then home rfl

theorem alike_ok {msg msg' : String} (h : Alike home msg msg' home) :
    Alike home (View.ok msg) (View.ok msg') home := by
  unfold View.ok
  exact ((Alike.lit home rfl).append h).then home rfl

theorem alike_notice {msg msg' : String} (h : Alike home msg msg' home) :
    Alike home (View.notice msg) (View.notice msg') home := by
  unfold View.notice
  exact ((Alike.lit home rfl).append h).then home rfl

theorem alike_checkRow {c c' : Check} (hpassed : c.passed = c'.passed) (hdetail : c.detail = "" ↔ c'.detail = "") :
    Alike home (View.checkRow c) (View.checkRow c') home := by
  have hend : Alike home (if c.detail = "" then "" else r#"<span class="detail">"# ++ escape c.detail ++ "</span>")
      (if c'.detail = "" then "" else r#"<span class="detail">"# ++ escape c'.detail ++ "</span>") home := by
    by_cases hempty : c.detail = ""
    · rw [if_pos hempty, if_pos (hdetail.mp hempty)]
      exact .same rfl
    · rw [if_neg hempty, if_neg (hempty ∘ hdetail.mpr)]
      exact ((Alike.lit home rfl).esc _ _).then home rfl
  unfold View.checkRow
  simp only [esc_eq]
  rw [← hpassed]
  refine (((Alike.same (y := home) ?start).esc c.name c'.name).then home rfl).append hend |>.then home rfl
  generalize c.passed = passed
  cases passed <;> decide

theorem alike_reportPanel {r r' : VerificationReport} (haccepted : r.accepted = r'.accepted)
    (hchecks : r.checks.map (fun c => (c.passed, decide (c.detail ≠ ""))) =
      r'.checks.map fun c => (c.passed, decide (c.detail ≠ ""))) :
    Alike home (View.reportPanel r) (View.reportPanel r') home := by
  unfold View.reportPanel
  rw [← haccepted]
  refine ((Alike.lit home rfl).append (.join hchecks fun c c' hc => ?_)).append (.same (y := home) ?verdict) |>.then home rfl
  · obtain ⟨hpassed, hdetail⟩ := Prod.mk.inj hc
    exact alike_checkRow hpassed (not_iff_not.mp (decide_eq_decide.mp hdetail))
  · generalize r.accepted = accepted
    cases accepted <;> rfl

theorem alike_report (r : VerificationReport) : Alike home (View.reportPanel r)
    (sample (.report (r.checks.map fun c => (c.passed, decide (c.detail ≠ ""))) r.accepted)) home := by
  refine alike_reportPanel rfl ?_
  rw [List.map_map, List.map_map]
  refine List.map_congr_left fun c _ => ?_
  by_cases hempty : c.detail = "" <;> simp [hempty]

/-! ## The issuer console -/

section

variable [External]

theorem alike_standingRow {app app' : AppState} {s s' : IssuerSlot} (h : accredited app s = accredited app' s') :
    Alike home (View.standingRow app s) (View.standingRow app' s') home := by
  unfold accredited at h
  unfold View.standingRow
  simp only [esc_eq, h]
  refine (((((((Alike.lit home rfl).esc _ _).then home rfl).esc _ _).then home rfl).esc _ _).then home rfl).append
    (.same (y := home) ?badge) |>.then home rfl
  split <;> rfl

theorem alike_claimRow {app app' : AppState} {c c' : Claim} (h : revoked app c = revoked app' c') :
    Alike home (View.claimRow app c) (View.claimRow app' c') home := by
  unfold revoked at h
  unfold View.claimRow
  simp only [esc_eq, h]
  generalize decide ((app'.registry.ledgerRecord c'.claimId.asStr).status = .revoked) = isRevoked
  refine (((((((Alike.lit home rfl).esc _ _).then home rfl).esc _ _).then home rfl).esc _ _).then home rfl).append
    (?badge : Alike home _ _ home) |>.then home rfl |>.append (?action : Alike home _ _ home) |>.then home rfl
  · cases isRevoked <;> exact .lit home rfl
  · cases isRevoked
    · exact (Alike.lit (inValue "hidden" "claim_id") rfl).closed c.claimId.asStr c'.claimId.asStr home rfl
    · exact .same rfl

theorem alike_issuerBody {app app' : AppState} {order order' : List String}
    (h : bodyLayout app order .issuer = bodyLayout app' order' .issuer) :
    Alike home (View.issuerBody app order "") (View.issuerBody app' order' "") home := by
  obtain ⟨hslots, hclaims⟩ := Layout.issuer.inj h
  unfold View.issuerBody
  exact (((((((Alike.same (y := home) rfl).then home rfl).append (alike_nat _ _)).then home rfl).append
    (.join hslots fun _ _ => alike_standingRow)).then home rfl).append (.same reads_issueForms.1)).then home rfl |>.append
      (.join hclaims fun _ _ => alike_claimRow) |>.then home rfl

/-! ## The wallet -/

omit [External] in
theorem alike_fieldBox (k k' : String) : Alike home (View.fieldBox k) (View.fieldBox k') home := by
  unfold View.fieldBox
  simp only [esc_eq]
  exact (((Alike.lit (inValue "checkbox" "field") rfl).closed k k' home rfl).esc k k').then home rfl

omit [External] in
/-- Lists of one length are alike, whatever their parts. -/
theorem map_unit {α β : Type*} {as : List α} {bs : List β} (h : as.length = bs.length) :
    as.map (fun _ => ()) = bs.map fun _ => () := by
  rw [List.map_const', List.map_const', h]

theorem alike_checkItem (app app' : AppState) (c c' : Claim) :
    Alike home (View.checkItem app c) (View.checkItem app' c') home := by
  unfold View.checkItem
  simp only [esc_eq]
  exact (((((Alike.lit (inValue "checkbox" "claim") rfl).fill _ _ home (fun v => [checkedBox (String.ofList v)])
    (fun _ _ => rfl) fun v => ⟨rfl, rfl⟩).esc _ _).then home rfl).esc _ _).then home rfl

theorem alike_claimBlock {app app' : AppState} {c c' : Claim} (h : (fieldKeys c).length = (fieldKeys c').length) :
    Alike home (View.claimBlock app c) (View.claimBlock app' c') home := by
  unfold View.claimBlock
  simp only [esc_eq]
  exact ((((((((Alike.lit home rfl).esc _ _).then home rfl).esc _ _).then home rfl).esc _ _).then
    (inValue "hidden" "claim") rfl).closed _ _ home rfl).append (.join (map_unit h) fun k k' _ => alike_fieldBox k k')
      |>.then home rfl

omit [External] in
theorem alike_pendingNotice (p p' : Presentation) : Alike home (View.pendingNotice p) (View.pendingNotice p') home := by
  unfold View.pendingNotice
  simp only [esc_eq]
  exact (((Alike.lit home rfl).append (alike_nat _ _)).then home rfl).esc _ _ |>.then home rfl

theorem alike_walletBody {app app' : AppState} {order order' : List String}
    (h : bodyLayout app order .wallet = bodyLayout app' order' .wallet) :
    Alike home (View.walletBody app "") (View.walletBody app' "") home := by
  obtain ⟨hpending, hclaims⟩ := Layout.wallet.inj h
  have hnotice : Alike home (app.lastPresentation.elim "" View.pendingNotice)
      (app'.lastPresentation.elim "" View.pendingNotice) home := by
    cases hp : app.lastPresentation <;> cases hp' : app'.lastPresentation <;>
      simp only [hp, hp', Option.isSome] at hpending
    · exact .same rfl
    · cases hpending
    · cases hpending
    · exact alike_pendingNotice _ _
  unfold View.walletBody
  exact ((((Alike.same (y := home) rfl).append hnotice).then home rfl).append
    (.join hclaims fun c c' _ => alike_checkItem app app' c c')).then home rfl |>.append
      (.join hclaims fun _ _ => alike_claimBlock) |>.then home rfl

/-! ## The verifier -/

omit [External] in
theorem alike_keyBadge (k k' : String) : Alike home (View.keyBadge k) (View.keyBadge k') home := by
  unfold View.keyBadge
  simp only [esc_eq]
  exact ((Alike.lit home rfl).esc k k').then home rfl

omit [External] in
theorem alike_disclosedRow {c c' : DisclosedClaim} (h : c.fields.length = c'.fields.length) :
    Alike home (View.disclosedRow c) (View.disclosedRow c') home := by
  have hkeys : (c.fields.map (·.key)).length = (c'.fields.map (·.key)).length := by
    rw [List.length_map, List.length_map, h]
  unfold View.disclosedRow
  simp only [esc_eq]
  exact ((((Alike.lit home rfl).esc _ _).then home rfl).esc _ _).then home rfl |>.append
    (.join (map_unit hkeys) fun k k' _ => alike_keyBadge k k') |>.then home rfl

theorem alike_verifyBody {app app' : AppState} {order order' : List String}
    (h : bodyLayout app order .verify = bodyLayout app' order' .verify) :
    Alike home (View.verifyBody app "") (View.verifyBody app' "") home := by
  have hclaims := Layout.verify.inj h
  unfold View.verifyBody
  cases hp : app.lastPresentation <;> cases hp' : app'.lastPresentation <;>
    simp only [hp, hp', Option.map] at hclaims
  · exact .same rfl
  · cases hclaims
  · cases hclaims
  · simp only [esc_eq]
    exact ((((((Alike.same (y := home) rfl).then home rfl).esc _ _).then home rfl).esc _ _).then home rfl).append
      (alike_nat _ _) |>.then home rfl |>.append (.join (Option.some.inj hclaims) fun _ _ => alike_disclosedRow)
        |>.then home rfl

theorem alike_body (s : Surface) {app app' : AppState} {order order' : List String}
    (h : bodyLayout app order s = bodyLayout app' order' s) :
    Alike home (s.body app order "") (s.body app' order' "") home := by
  cases s with
  | issuer => exact alike_issuerBody h
  | wallet => exact alike_walletBody h
  | verify => exact alike_verifyBody h

end

end AionTrust.Proof
