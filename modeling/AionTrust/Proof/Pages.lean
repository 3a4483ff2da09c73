import AionTrust.Proof.Forms
import AionTrust.Proof.Holder
import AionTrust.Proof.Web
import AionTrust.Spec.Pages

/-!
# The pages

Of a page only what would be harmful, what a form is made of and what a report
is read from is followed (`marked`); the parts that carry data are read one by
one, and a page is its shell around what its handler had to say
(`page_parts`) and the world's body.
-/

namespace AionTrust.Proof

set_option maxRecDepth 20000

open AionTrust.Impl AionTrust.Spec
open Framework.Markup

/-! ## Parts -/

/-- What a report is read from. -/
def loud : Node → Bool
  | .start tag [("class", cls)] =>
    (tag == "div" && ["check-row is-valid", "check-row is-invalid", "verdict accepted", "verdict rejected"].contains
        cls) ||
      (tag == "span" && ["name", "detail"].contains cls)
  | _ => false

def odd (n : Node) : Bool := !harmless n || loud n

def marked (n : Node) : Bool := odd n || n.inForm

theorem odd_text (c : Char) : odd (.text c) = false := rfl

theorem marked_text (c : Char) : marked (.text c) = false := rfl

theorem marked_of_odd (n : Node) (h : odd n = true) : marked n = true := by rw [marked, h, Bool.true_or]

theorem escChar_eq (c : Char) : (escChar c).toList = escapeChar c := by
  unfold escChar
  split
  iterate 5 rfl
  rename_i hamp hlt hgt hquot hapos
  have hbare : bareChar c = true := by
    simp only [bareChar, references, List.all_cons, List.all_nil, ne_eq, Bool.and_true, Bool.and_eq_true,
      decide_eq_true_eq]
    exact ⟨Ne.symm hamp, Ne.symm hlt, Ne.symm hgt, Ne.symm hquot, Ne.symm hapos⟩
  rw [escapeChar_eq_self hbare, String.toList_singleton]

theorem esc_eq (s : String) : esc s = escape s := by
  refine String.toList_inj.mp ?_
  rw [esc, String.toList_join, escape, String.toList_ofList, List.flatMap_map]
  exact List.flatMap_congr fun c _ => escChar_eq c

/-- A text of characters without references. -/
theorem reads_bare {q : Node → Bool} (hq : ∀ c, q (.text c) = false) {s : String}
    (h : ∀ c ∈ s.toList, bareChar c = true) : Reads q home s home [] := by
  have htext := (Reads.empty (q := q) (x := home)).esc hq s
  rwa [escape_eq_self h, String.empty_append] at htext

theorem bare_of_isDigit {c : Char} (h : c.isDigit = true) : bareChar c = true := by
  simp only [bareChar, references, List.all_cons, List.all_nil, ne_eq, Bool.and_true, Bool.and_eq_true,
    decide_eq_true_eq]
  refine ⟨?_, ?_, ?_, ?_, ?_⟩ <;> rintro rfl <;> cases h

theorem reads_nat {q : Node → Bool} (hq : ∀ c, q (.text c) = false) (n : ℕ) :
    Reads q home (toString n) home [] := by
  refine reads_bare hq fun c hc => bare_of_isDigit ?_
  exact Nat.isDigit_of_mem_toDigits (b := 10) (n := n) (by decide) (by decide)
    (by simpa [toString, Nat.repr] using hc)

/-! ## The shell -/

theorem reads_link (active : String) {surface : String × String} (h : surface ∈ View.surfaces) :
    Reads marked home (View.link active surface) home [] := by
  simp only [View.surfaces, List.mem_cons, List.not_mem_nil, or_false] at h
  unfold View.link
  rcases h with rfl | rfl | rfl | rfl | rfl <;> dsimp only <;> split <;> decide

/-- A page is its body in a shell that has nothing to follow. -/
theorem page_parts (title active : String) : ∃ before after, (∀ body, View.page title active body =
    before ++ body ++ after) ∧ Reads marked home before home [] ∧ Reads marked home after home [] := by
  refine ⟨_, _, fun body => rfl, ?_, .lit home [] (by decide)⟩
  simp only [esc_eq]
  exact .of_eq (((((Reads.lit home [] (by decide)).esc marked_text _).then home [] (by decide)).append
    (.join_nil fun _ h => reads_link active h)).then home [] (by decide)) rfl

/-- A row of a table, or a message: texts of the world in fixed markup. -/
theorem reads_warn (msg : String) : Reads marked home (View.warn msg) home [] := by
  unfold View.warn
  simp only [esc_eq]
  exact .of_eq (((Reads.lit home [] (by decide)).esc marked_text _).then home [] (by decide)) rfl

theorem reads_busy : Reads marked home View.busy home [] := .lit home [] (by decide)

theorem reads_ok {msg : String} (h : Reads marked home msg home []) : Reads marked home (View.ok msg) home [] := by
  unfold View.ok
  exact .of_eq (((Reads.lit home [] (by decide)).append h).then home [] (by decide)) rfl

theorem reads_notice {msg : String} (h : Reads marked home msg home []) :
    Reads marked home (View.notice msg) home [] := by
  unfold View.notice
  exact .of_eq (((Reads.lit home [] (by decide)).append h).then home [] (by decide)) rfl

/-! ## Inputs -/

/-- An input. -/
def box (kind name value : String) : Node := .start "input" [("type", kind), ("name", name), ("value", value)]

/-- In the value of an input. -/
def inValue (kind name : String) : Reader :=
  quoted "input".toList "value".toList [] [("name".toList, name.toList), ("type".toList, kind.toList)]

theorem tag_box (kind name value : String) : Tag.node ⟨"input".toList, ("value".toList, value.toList) ::
    [("name".toList, name.toList), ("type".toList, kind.toList)]⟩ = box kind name value := by
  simp only [Tag.node, List.reverse_cons, List.reverse_nil, List.nil_append, List.map_append, List.map_cons, List.map_nil,
    String.ofList_toList]
  rfl

section

variable [External]

/-! ## The issuer console -/

theorem reads_standingRow (app : AppState) (s : IssuerSlot) : Reads odd home (View.standingRow app s) home [] := by
  unfold View.standingRow
  simp only [esc_eq]
  refine .of_eq ((((((((Reads.lit home [] (by decide)).esc odd_text _).then home [] (by decide)).esc
    odd_text _).then home [] (by decide)).esc odd_text _).then home [] (by decide)).append
    (?badge : Reads _ _ _ home []) |>.then home [] (by decide)) rfl
  split <;> exact .lit home [] (by decide)

omit [External] in
theorem reads_revokeForm (id : String) : Reads marked home
    (r#"<form method="post" action="/issuer/revoke"><input type="hidden" name="claim_id" value=""# ++ escape id ++
      r#""><button class="button danger" type="submit">Revoke</button></form>"#) home
    [.start "form" [("method", "post"), ("action", "/issuer/revoke")], box "hidden" "claim_id" id, .stop "form"] := by
  exact .of_eq (Reads.closed (.lit (inValue "hidden" "claim_id")
    [.start "form" [("method", "post"), ("action", "/issuer/revoke")]] (by decide)) id home [.stop "form"] (by decide))
      (by rw [tag_box]; rfl)

theorem reads_claimRow (app : AppState) (c : Claim) : Reads odd home (View.claimRow app c) home [] := by
  unfold View.claimRow
  simp only [esc_eq]
  refine .of_eq (((((((((Reads.lit home [] (by decide)).esc odd_text _).then home [] (by decide)).esc
    odd_text _).then home [] (by decide)).esc odd_text _).then home [] (by decide)).append
    (?badge : Reads _ _ _ home [])).then home [] (by decide) |>.append (?action : Reads _ _ _ home []) |>.then
      home [] (by decide)) rfl
  · split <;> exact .lit home [] (by decide)
  · split
    · exact .empty
    · exact ((reads_revokeForm _).filter marked_of_odd).of_eq rfl

omit [External] in
theorem reads_issueForms : Reads odd home View.issueForms home [] := .lit home [] (by decide)

theorem issuerBody_head (app : AppState) (order : List String) (head : String) :
    View.issuerBody app order head = head ++ View.issuerBody app order "" := by
  simp only [View.issuerBody, String.append_assoc, String.empty_append]

theorem reads_issuerBody (app : AppState) (order : List String) :
    Reads odd home (View.issuerBody app order "") home [] := by
  unfold View.issuerBody
  exact .of_eq ((((((((Reads.empty.then home [] (by decide)).append (reads_nat odd_text _)).then home []
    (by decide)).append (.join_nil fun s _ => reads_standingRow app s)).then home [] (by decide)).append
    reads_issueForms).then home [] (by decide)).append (.join_nil fun c _ => reads_claimRow app c) |>.then home []
      (by decide)) rfl

/-! ## The wallet -/

def checkedBox (id : String) : Node :=
  .start "input" [("type", "checkbox"), ("name", "claim"), ("value", id), ("checked", "")]

omit [External] in
theorem reads_fieldBox (k : String) : Reads marked home (View.fieldBox k) home [box "checkbox" "field" k] := by
  unfold View.fieldBox
  simp only [esc_eq]
  exact .of_eq (((Reads.closed (.lit (inValue "checkbox" "field") [] (by decide)) k home [] (by decide)).esc marked_text
    k).then home [] (by decide)) (by rw [tag_box]; rfl)

theorem reads_checkItem (app : AppState) (c : Claim) :
    Reads marked home (View.checkItem app c) home [checkedBox c.claimId.asStr] := by
  unfold View.checkItem
  simp only [esc_eq]
  refine .of_eq (((((Reads.fill (.lit (inValue "checkbox" "claim") [] (by decide)) _ home
    (fun v => [checkedBox (String.ofList v)]) fun v => ⟨rfl, rfl⟩).esc marked_text _).then home []
      (by decide)).esc marked_text _).then home [] (by decide)) ?_
  rw [String.ofList_toList]
  rfl

/-- The tag of a form. -/
def formTag (cls action : String) : Node := .start "form" [("class", cls), ("method", "post"), ("action", action)]

/-- What of a claim's card makes its form. -/
def claimNodes (c : Claim) : List Node :=
  formTag "stack panel" "/wallet/disclose" :: box "hidden" "claim" c.claimId.asStr ::
    (fieldKeys c).map (box "checkbox" "field") ++ [.stop "form"]

theorem reads_claimBlock (app : AppState) (c : Claim) : Reads marked home (View.claimBlock app c) home (claimNodes c) := by
  unfold View.claimBlock
  simp only [esc_eq]
  refine .of_eq (((Reads.closed ((((((Reads.lit home [formTag "stack panel" "/wallet/disclose"] (by decide)).esc
    marked_text _).then home [] (by decide)).esc marked_text _).then home [] (by decide)).esc marked_text _
      |>.then (inValue "hidden" "claim") [] (by decide)) _ home [] (by decide)).append
      (.join fun k _ => reads_fieldBox k)).then home [.stop "form"] (by decide)) ?_
  rw [tag_box, ← List.map_eq_flatMap]
  rfl

omit [External] in
theorem reads_pendingNotice (p : Presentation) : Reads marked home (View.pendingNotice p) home [] := by
  unfold View.pendingNotice
  simp only [esc_eq]
  exact .of_eq (((((Reads.lit home [] (by decide)).append (reads_nat marked_text _)).then home []
    (by decide)).esc marked_text _).then home [] (by decide)) rfl

/-- What of the wallet's page makes its forms. -/
def walletNodes (claims : List Claim) : List Node :=
  formTag "stack panel" "/wallet/present" :: claims.map (fun c => checkedBox c.claimId.asStr) ++
    [box "text" "purpose" "application:senior-engineer", .stop "form", formTag "stack" "/wallet/satisfy",
      .start "textarea" [("name", "predicates"), ("rows", "2")], .stop "form"] ++ claims.flatMap claimNodes

theorem walletBody_head (app : AppState) (head : String) :
    View.walletBody app head = head ++ View.walletBody app "" := by
  simp only [View.walletBody, String.append_assoc, String.empty_append]

theorem reads_walletBody (app : AppState) :
    Reads marked home (View.walletBody app "") home (walletNodes app.wallet.claims) := by
  have hpending : Reads marked home (app.lastPresentation.elim "" View.pendingNotice) home [] := by
    cases app.lastPresentation with
    | none => exact .empty
    | some p => exact reads_pendingNotice p
  unfold View.walletBody
  refine .of_eq ((((((Reads.empty.append hpending).then home [formTag "stack panel" "/wallet/present"]
    (by decide)).append (.join fun c _ => reads_checkItem app c)).then home
      [box "text" "purpose" "application:senior-engineer", .stop "form", formTag "stack" "/wallet/satisfy",
        .start "textarea" [("name", "predicates"), ("rows", "2")], .stop "form"] (by decide)).append
          (.join fun c _ => reads_claimBlock app c)).then home [] (by decide)) ?_
  rw [← List.map_eq_flatMap, List.append_nil]
  rfl

omit [External] in
theorem control_box {kind name value : String} (hname : name ≠ "") :
    (box kind name value).control = some ⟨kind, name, value⟩ := if_neg hname

omit [External] in
theorem filterMap_box {kind name : String} (hname : name ≠ "") (values : List String) :
    (values.map (box kind name)).filterMap Node.control = values.map fun v => ⟨kind, name, v⟩ := by
  rw [List.filterMap_map, ← List.filterMap_eq_map]
  exact List.filterMap_congr fun v _ => control_box hname

omit [External] in
theorem forms_claimNodes (claims : List Claim) : forms (claims.flatMap claimNodes) = claims.map discloseForm := by
  induction claims with
  | nil => rfl
  | cons c claims ih =>
    have hinputs : ∀ n ∈ box "hidden" "claim" c.claimId.asStr :: (fieldKeys c).map (box "checkbox" "field"),
        ∃ tag attrs, n = .start tag attrs ∧ tag ≠ "form" := by
      intro n hn
      rcases List.mem_cons.mp hn with rfl | hn
      · exact ⟨_, _, rfl, by decide⟩
      · obtain ⟨k, -, rfl⟩ := List.mem_map.mp hn
        exact ⟨_, _, rfl, by decide⟩
    have hform := forms_cons [("class", "stack panel"), ("method", "post"), ("action", "/wallet/disclose")]
      (claims.flatMap claimNodes) hinputs
    rw [ih, List.filterMap_cons_some (control_box (by decide)), filterMap_box (by decide)] at hform
    rw [List.flatMap_cons, claimNodes, List.append_assoc]
    exact hform

omit [External] in
/-- The forms of a wallet. -/
theorem forms_walletNodes (claims : List Claim) : forms (walletNodes claims) = walletForms claims := by
  have hinputs : ∀ n ∈ claims.map (fun c => checkedBox c.claimId.asStr) ++
      [box "text" "purpose" "application:senior-engineer"], ∃ tag attrs, n = .start tag attrs ∧ tag ≠ "form" := by
    intro n hn
    rcases List.mem_append.mp hn with hn | hn
    · obtain ⟨c, -, rfl⟩ := List.mem_map.mp hn
      exact ⟨_, _, rfl, by decide⟩
    · obtain rfl := List.mem_singleton.mp hn
      exact ⟨_, _, rfl, by decide⟩
  have hcontrols : (claims.map fun c => checkedBox c.claimId.asStr).filterMap Node.control =
      claims.map fun c => ⟨"checkbox", "claim", c.claimId.asStr⟩ := by
    rw [List.filterMap_map, ← List.filterMap_eq_map]
    rfl
  have hsatisfy := forms_cons [("class", "stack"), ("method", "post"), ("action", "/wallet/satisfy")]
    (claims.flatMap claimNodes) (List.forall_mem_singleton.mpr
      ⟨"textarea", [("name", "predicates"), ("rows", "2")], rfl, by decide⟩)
  have hpresent := forms_cons [("class", "stack panel"), ("method", "post"), ("action", "/wallet/present")]
    (formTag "stack" "/wallet/satisfy" :: ([.start "textarea" [("name", "predicates"), ("rows", "2")]] ++
      .stop "form" :: claims.flatMap claimNodes)) hinputs
  rw [forms_claimNodes] at hsatisfy
  rw [List.filterMap_append, hcontrols] at hpresent
  rw [List.append_assoc] at hpresent
  rw [walletNodes, List.append_assoc]
  exact hpresent.trans (congrArg (_ :: ·) hsatisfy)

/-! ## The verifier -/

omit [External] in
theorem reads_keyBadge (k : String) : Reads odd home (View.keyBadge k) home [] := by
  unfold View.keyBadge
  simp only [esc_eq]
  exact .of_eq (((Reads.lit home [] (by decide)).esc odd_text _).then home [] (by decide)) rfl

omit [External] in
theorem reads_disclosedRow (c : DisclosedClaim) : Reads odd home (View.disclosedRow c) home [] := by
  unfold View.disclosedRow
  simp only [esc_eq]
  exact .of_eq (((((((Reads.lit home [] (by decide)).esc odd_text _).then home [] (by decide)).esc
    odd_text _).then home [] (by decide)).append (.join_nil fun k _ => reads_keyBadge k)).then home []
      (by decide)) rfl

theorem verifyBody_head (app : AppState) (head : String) :
    View.verifyBody app head = head ++ View.verifyBody app "" := by
  unfold View.verifyBody
  split <;> simp only [String.append_assoc, String.empty_append]

theorem reads_verifyBody (app : AppState) : Reads odd home (View.verifyBody app "") home [] := by
  unfold View.verifyBody
  split
  · exact .of_eq ((Reads.empty.then home [] (by decide)).append
      ((reads_notice (.lit home [] (by decide))).filter marked_of_odd)) rfl
  · simp only [esc_eq]
    exact .of_eq (((((((((Reads.empty.then home [] (by decide)).esc odd_text _).then home []
      (by decide)).esc odd_text _).then home [] (by decide)).append (reads_nat odd_text _)).then home []
        (by decide)).append (.join_nil fun c _ => reads_disclosedRow c)).then home [] (by decide)) rfl

end

/-! ## Reports -/

/-- Reading `s` adds these rows and verdicts to a report. -/
structure Tells (s : String) (rows : List Check) (verdicts : List Bool) : Prop where
  final : reader.final home s.toList = home
  read : ∀ rows' verdicts', (nodes home s).foldl ReportReader.read ⟨rows', verdicts', .outside⟩ =
    ⟨rows.reverse ++ rows', verdicts.reverse ++ verdicts', .outside⟩

theorem read_quiet {n : Node} (h : loud n = false) (rows : List Check) (verdicts : List Bool) :
    ReportReader.read ⟨rows, verdicts, .outside⟩ n = ⟨rows, verdicts, .outside⟩ := by
  unfold ReportReader.read
  split <;> first | rfl | cases h

theorem foldl_quiet {ns : List Node} (h : ∀ n ∈ ns, loud n = false) (rows : List Check) (verdicts : List Bool) :
    ns.foldl ReportReader.read ⟨rows, verdicts, .outside⟩ = ⟨rows, verdicts, .outside⟩ := by
  induction ns with
  | nil => rfl
  | cons n ns ih =>
    rw [List.foldl_cons, read_quiet (h n List.mem_cons_self), ih fun n hn => h n (List.mem_cons_of_mem _ hn)]

theorem Tells.quiet {s : String} (h : Reads odd home s home []) : Tells s [] [] where
  final := h.1
  read := by
    refine foldl_quiet fun n hn => ?_
    have hodd := List.filter_eq_nil_iff.mp h.2 n hn
    rw [Bool.not_eq_true, odd, Bool.or_eq_false_iff] at hodd
    exact hodd.2

theorem Tells.of_reads {s : String} {ns : List Node} {rows : List Check} {verdicts : List Bool}
    (h : Reads (fun _ => true) home s home ns)
    (hfold : ∀ rows' verdicts', ns.foldl ReportReader.read ⟨rows', verdicts', .outside⟩ =
      ⟨rows.reverse ++ rows', verdicts.reverse ++ verdicts', .outside⟩) : Tells s rows verdicts where
  final := h.1
  read := by
    have hnodes := h.2
    rw [List.filter_true] at hnodes
    exact hnodes ▸ hfold

theorem Tells.of_eq {s : String} {rows rows' : List Check} {verdicts verdicts' : List Bool}
    (h : Tells s rows verdicts) (hrows : rows = rows') (hverdicts : verdicts = verdicts') : Tells s rows' verdicts' :=
  hrows ▸ hverdicts ▸ h

theorem Tells.append {s s' : String} {rows rows' : List Check} {verdicts verdicts' : List Bool}
    (h : Tells s rows verdicts) (h' : Tells s' rows' verdicts') :
    Tells (s ++ s') (rows ++ rows') (verdicts ++ verdicts') where
  final := by rw [String.toList_append, Framework.Machine.final_append, h.final, h'.final]
  read _ _ := by
    rw [nodes_append, h.final, List.foldl_append, h.read, h'.read]
    simp only [List.reverse_append, List.append_assoc]

theorem Tells.join {α : Type*} {f : α → String} {g : α → Check} {as : List α}
    (h : ∀ a ∈ as, Tells (f a) [g a] []) : Tells (String.join (as.map f)) (as.map g) [] := by
  induction as with
  | nil => exact .quiet .empty
  | cons a as ih =>
    rw [List.map_cons, String.join_cons]
    exact (h a List.mem_cons_self).append (ih fun b hb => h b (List.mem_cons_of_mem _ hb))

theorem push_append (s : String) (c : Char) (cs : List Char) :
    s.push c ++ String.ofList cs = s ++ String.ofList (c :: cs) :=
  String.toList_inj.mp (by simp)

theorem foldl_name (cs : List Char) (row : Check) (rows : List Check) (verdicts : List Bool) :
    (cs.map Node.text).foldl ReportReader.read ⟨row :: rows, verdicts, .name⟩ =
      ⟨{ row with name := row.name ++ String.ofList cs } :: rows, verdicts, .name⟩ := by
  induction cs generalizing row with
  | nil => rw [String.ofList_nil, String.append_empty]; rfl
  | cons c cs ih =>
    rw [List.map_cons, List.foldl_cons, ← push_append]
    exact ih _

theorem foldl_detail (cs : List Char) (row : Check) (rows : List Check) (verdicts : List Bool) :
    (cs.map Node.text).foldl ReportReader.read ⟨row :: rows, verdicts, .detail⟩ =
      ⟨{ row with detail := row.detail ++ String.ofList cs } :: rows, verdicts, .detail⟩ := by
  induction cs generalizing row with
  | nil => rw [String.ofList_nil, String.append_empty]; rfl
  | cons c cs ih =>
    rw [List.map_cons, List.foldl_cons, ← push_append]
    exact ih _

/-- What a check's row begins with, up to its name. -/
def rowStart (passed : Bool) : List Node :=
  [.start "div" [("class", if passed then "check-row is-valid" else "check-row is-invalid")],
    .start "span" [("class", "mark")], .text (if passed then '✓' else '✗'), .stop "span",
    .start "span" [("class", "name")]]

/-- And its detail, if it has one. -/
def detailNodes (detail : String) : List Node :=
  if detail = "" then []
  else [.start "span" [("class", "detail")]] ++ detail.toList.map .text ++ [.stop "span"]

def rowNodes (c : Check) : List Node :=
  rowStart c.passed ++ c.name.toList.map .text ++ [.stop "span"] ++ detailNodes c.detail ++ [.stop "div"]

theorem reads_checkRow (c : Check) : Reads (fun _ => true) home (View.checkRow c) home (rowNodes c) := by
  have hdetail : Reads (fun _ => true) home
      (if c.detail = "" then "" else r#"<span class="detail">"# ++ escape c.detail ++ "</span>") home
      (detailNodes c.detail) := by
    unfold detailNodes
    split
    · exact .empty
    · refine .of_eq (((Reads.lit home [.start "span" [("class", "detail")]] (by decide)).append
        (.text _ _)).then home [.stop "span"] (by decide)) ?_
      rw [List.filter_true]
  unfold View.checkRow
  simp only [esc_eq]
  refine .of_eq (((((?start : Reads _ home _ home (rowStart c.passed)).append (.text _ _)).then home
    [.stop "span"] (by decide)).append hdetail).then home [.stop "div"] (by decide)) ?_
  · generalize c.passed = passed
    cases passed <;> decide
  · rw [List.filter_true]
    rfl

theorem foldl_detailNodes (detail : String) (row : Check) (hrow : row.detail = "") (rows : List Check)
    (verdicts : List Bool) : (detailNodes detail).foldl ReportReader.read ⟨row :: rows, verdicts, .outside⟩ =
      ⟨{ row with detail } :: rows, verdicts, .outside⟩ := by
  unfold detailNodes
  split
  · rename_i hempty
    rw [hempty, ← hrow]
    rfl
  · rw [List.foldl_append, List.foldl_append]
    refine (congrArg (List.foldl _ · _) (foldl_detail _ row rows verdicts)).trans ?_
    rw [hrow, String.empty_append, String.ofList_toList]
    rfl

/-- A row is read as its check. -/
theorem tells_checkRow (c : Check) : Tells (View.checkRow c) [c] [] := by
  refine .of_reads (reads_checkRow c) fun rows verdicts => ?_
  have hstart : (rowStart c.passed).foldl ReportReader.read ⟨rows, verdicts, .outside⟩ =
      ⟨⟨"", c.passed, ""⟩ :: rows, verdicts, .name⟩ := by
    cases c.passed <;> rfl
  have hname := foldl_name c.name.toList ⟨"", c.passed, ""⟩ rows verdicts
  rw [String.empty_append, String.ofList_toList] at hname
  rw [rowNodes, List.foldl_append, List.foldl_append, List.foldl_append, List.foldl_append, hstart, hname]
  exact congrArg (List.foldl ReportReader.read · [Node.stop "div"])
    (foldl_detailNodes c.detail ⟨c.name, c.passed, ""⟩ rfl rows verdicts)

def verdictNodes (accepted : Bool) : List Node :=
  .start "div" [("class", if accepted then "verdict accepted" else "verdict rejected")] ::
    (if accepted then "ACCEPTED" else "REJECTED").toList.map .text ++ [.stop "div"]

theorem tells_verdict (accepted : Bool) : Tells (View.verdict accepted) [] [accepted] := by
  cases accepted
  · exact .of_reads (.lit home (verdictNodes false) (by decide)) fun _ _ => rfl
  · exact .of_reads (.lit home (verdictNodes true) (by decide)) fun _ _ => rfl

def errorNodes (msg : String) : List Node :=
  .start "div" [("class", "panel")] :: verdictNodes false ++ [.start "p" [("class", "lede")]] ++
    msg.toList.map .text ++ [.stop "p", .stop "div"]

theorem reads_errorBlock (msg : String) : Reads (fun _ => true) home (View.errorBlock msg) home (errorNodes msg) := by
  unfold View.errorBlock
  simp only [esc_eq]
  refine .of_eq (((Reads.lit home (.start "div" [("class", "panel")] :: verdictNodes false ++
    [.start "p" [("class", "lede")]]) (by decide)).append (.text _ _)).then home [.stop "p", .stop "div"]
      (by decide)) ?_
  rw [List.filter_true]
  rfl

theorem loud_text (s : String) : ∀ n ∈ s.toList.map Node.text, loud n = false := by
  intro n hn
  obtain ⟨c, -, rfl⟩ := List.mem_map.mp hn
  rfl

theorem tells_errorBlock (msg : String) : Tells (View.errorBlock msg) [] [false] := by
  refine .of_reads (reads_errorBlock msg) fun rows verdicts => ?_
  rw [errorNodes, List.foldl_append, List.foldl_append]
  exact congrArg (List.foldl ReportReader.read · [Node.stop "p", .stop "div"])
    (foldl_quiet (loud_text msg) rows (false :: verdicts))

/-- A report's panel is read as the report. -/
theorem tells_reportPanel (report : VerificationReport) :
    Tells (View.reportPanel report) report.checks [report.accepted] := by
  have hrows : Tells (String.join (report.checks.map View.checkRow)) (report.checks.map id) [] :=
    .join fun c _ => tells_checkRow c
  unfold View.reportPanel
  refine .of_eq ((((Tells.quiet (.lit home [] (by decide))).append hrows).append
    (tells_verdict report.accepted)).append (.quiet (.lit home [] (by decide)))) ?_ ?_ <;> simp

/-! ## Harmless parts -/

/-- Reading `s` meets nothing harmful. -/
def Inert (s : String) : Prop := reader.final home s.toList = home ∧ ∀ n ∈ nodes home s, harmless n = true

theorem Inert.quiet {s : String} (h : Reads odd home s home []) : Inert s := by
  refine ⟨h.1, fun n hn => ?_⟩
  have hodd := List.filter_eq_nil_iff.mp h.2 n hn
  rw [Bool.not_eq_true, odd, Bool.or_eq_false_iff, Bool.not_eq_false'] at hodd
  exact hodd.1

theorem Inert.of_reads {s : String} {ns : List Node} (h : Reads (fun _ => true) home s home ns)
    (hns : ∀ n ∈ ns, harmless n = true) : Inert s := by
  refine ⟨h.1, ?_⟩
  rwa [← h.2, List.filter_true] at hns

theorem Inert.append {s s' : String} (h : Inert s) (h' : Inert s') : Inert (s ++ s') := by
  refine ⟨by rw [String.toList_append, Framework.Machine.final_append, h.1, h'.1], ?_⟩
  rw [nodes_append, h.1]
  exact List.forall_mem_append.mpr ⟨h.2, h'.2⟩

theorem Inert.join {α : Type*} {f : α → String} {as : List α} (h : ∀ a ∈ as, Inert (f a)) :
    Inert (String.join (as.map f)) := by
  induction as with
  | nil => exact .quiet .empty
  | cons a as ih =>
    rw [List.map_cons, String.join_cons]
    exact (h a List.mem_cons_self).append (ih fun b hb => h b (List.mem_cons_of_mem _ hb))

theorem inert_text (s : String) : ∀ n ∈ s.toList.map Node.text, harmless n = true := by
  intro n hn
  obtain ⟨c, -, rfl⟩ := List.mem_map.mp hn
  rfl

theorem inert_checkRow (c : Check) : Inert (View.checkRow c) := by
  refine .of_reads (reads_checkRow c) ?_
  have hstart : ∀ n ∈ rowStart c.passed, harmless n = true := by cases c.passed <;> decide
  have hdetail : ∀ n ∈ detailNodes c.detail, harmless n = true := by
    unfold detailNodes
    split
    · exact List.forall_mem_nil _
    · simp only [List.forall_mem_append]
      exact ⟨⟨by decide, inert_text _⟩, by decide⟩
  simp only [rowNodes, List.forall_mem_append]
  exact ⟨⟨⟨⟨hstart, inert_text _⟩, by decide⟩, hdetail⟩, by decide⟩

theorem inert_verdict (accepted : Bool) : Inert (View.verdict accepted) := by
  cases accepted
  · exact .of_reads (.lit home (verdictNodes false) (by decide)) (by decide)
  · exact .of_reads (.lit home (verdictNodes true) (by decide)) (by decide)

theorem inert_errorBlock (msg : String) : Inert (View.errorBlock msg) := by
  refine .of_reads (reads_errorBlock msg) ?_
  simp only [errorNodes, List.forall_mem_append]
  exact ⟨⟨by decide, inert_text msg⟩, by decide⟩

theorem inert_reportPanel (report : VerificationReport) : Inert (View.reportPanel report) := by
  unfold View.reportPanel
  exact (((Inert.quiet (.lit home [] (by decide))).append (.join fun c _ => inert_checkRow c)).append
    (inert_verdict report.accepted)).append (.quiet (.lit home [] (by decide)))

end AionTrust.Proof
