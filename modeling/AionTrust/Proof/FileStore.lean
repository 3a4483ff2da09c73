import AionTrust.Proof.Commands
import AionTrust.Proof.Honest

/-!
# A nonce store in a file

A store's file that nothing but verifications with the store write is as one of
them found it, with at most the nonce it accepted (`step_path`), or does not
read. So what it has seen, it has seen for good (`seenIn_step`), and no nonce is
accepted twice, though processes may die while they write (`single_use_file`).
Where none dies, a verification accepts just what one without a store would, of
a nonce not accepted before (`file_store_exact`).
-/

namespace AionTrust.Proof

open AionTrust.Impl AionTrust.Spec
open Framework.Process

/-! ## Stores -/

theorem seen_recorded_iff {store : JsonFileNonceStore} {a : VerifyArgs} {p : Presentation}
    {report : VerificationReport} {audience nonce : String} :
    NonceStore.seen (recorded store (.fromString a.audience) p report) (.fromString audience) nonce = true ↔
      NonceStore.seen store (.fromString audience) nonce = true ∨
        (report.accepted = true ∧ audience = a.audience ∧ nonce = p.nonce) := by
  have hdid : Did.fromString audience = Did.fromString a.audience ↔ audience = a.audience :=
    ⟨congrArg Did.value, congrArg Did.fromString⟩
  rw [recorded]
  cases report.accepted with
  | false => simp
  | true => simp [seen_record_file, hdid]

section

variable [JsonText JsonFileNonceStore] {files : Files} {path : String}

/-- A file that loads does so as a store that has seen a nonce. -/
def SeenIn (path : String) (files : Files) (audience nonce : String) : Prop :=
  ∀ store, JsonFileNonceStore.load files path = .ok store →
    NonceStore.seen store (.fromString audience) nonce = true

theorem load_eq_ok {text : String} (htext : files path = some text) {store : JsonFileNonceStore} :
    JsonFileNonceStore.load files path = .ok store ↔ JsonText.fromStr text = .ok store := by
  rw [JsonFileNonceStore.load, htext, readJson, readToString, htext]
  simp [Framework.okOr]

/-- What a store's file reads as, where it was written, or written in part. -/
theorem load_written (h : StoreText) {store store' : JsonFileNonceStore} {text start : String}
    (htext : JsonText.toStringPretty store = .ok text) (hstart : start.toList <+: text.toList)
    (hfile : files path = some start) (hload : JsonFileNonceStore.load files path = .ok store') : store' = store := by
  have hread := (load_eq_ok hfile).mp hload
  by_cases hwhole : start = text
  · exact Except.ok.inj (hread.symm.trans (hwhole ▸ h.read store text htext))
  · obtain ⟨e, he⟩ := h.cut store text start htext hstart hwhole
    cases hread.symm.trans he

end

section

variable [External] [SecretBytes] [Serde] [JsonText Claim] [JsonText DisclosedClaim] [JsonText Presentation]
  [JsonText JsonFileNonceStore] [JsonText Value] {I : Type} [DecidableEq I]
  {st : Running I (Cmd × Moment) String (Option String)} {ev : Event I (Cmd × Moment) (Option String)}
  {m : Moment} {files : Files} {a : VerifyArgs} {path audience nonce : String}

/-! ## Steps -/

/-- A store's file stays as it is, or holds a beginning of what a verification
with the store was to write. -/
theorem step_path (hkept : Kept path st ev) (htorn : Torn st ev) :
    (commands.interleaved.step st ev).1.store path = st.store path ∨
      ∃ i a m files text start, ev.writer = some i ∧ st.pending i = some ((.verify a, m), files) ∧
        a.nonceStore = some path ∧ (effect files (.verify a, m)).write = some (path, text) ∧
        (commands.interleaved.step st ev).1.store path = some start ∧ start.toList <+: text.toList ∧
        (ev = .finish i → start = text) := by
  by_cases hwrites : commands.Writes path st ev
  · obtain ⟨i, run, files, text, hwriter, hpending, hwrite⟩ := writes_iff.mp hwrites
    obtain ⟨a, ha, hstore⟩ := hkept i run files text hwriter hpending hwrite
    obtain ⟨c, m⟩ := run
    obtain rfl : c = .verify a := ha
    refine .inr ⟨i, a, m, files, text, ?_⟩
    cases ev with
    | start _ _ => cases hwriter
    | finish j =>
      obtain rfl := Option.some.inj hwriter
      refine ⟨text, hwriter, hpending, hstore, hwrite, ?_, List.prefix_rfl, fun _ => rfl⟩
      rw [Programs.step_finish hpending, exec_write.mpr ⟨text, hwrite, rfl⟩]
      exact Function.update_self ..
    | tear j left =>
      obtain rfl := Option.some.inj hwriter
      obtain ⟨start, rfl, hstart⟩ := htorn _ _ _ _ _ _ rfl hpending hwrite
      refine ⟨start, hwriter, hpending, hstore, hwrite, ?_, hstart, fun h => nomatch h⟩
      rw [Programs.step_tear hpending, exec_write.mpr ⟨text, hwrite, rfl⟩]
      exact Function.update_self ..
  · exact .inl (Programs.step_store hwrites)

omit [DecidableEq I] in
/-- A verification under way has read the store's file as it is. -/
theorem load_current {i : I} (hcurrent : commands.Current path st) (hstore : a.nonceStore = some path)
    (hpending : st.pending i = some ((.verify a, m), files)) :
    JsonFileNonceStore.load files path = JsonFileNonceStore.load st.store path :=
  load_congr (hcurrent i _ _ hpending (by simp [commands, Cmd.paths, hstore]))

/-- What a store's file has seen, it has seen for good. -/
theorem seenIn_step (h : StoreText) (hcurrent : commands.Current path st) (hkept : Kept path st ev)
    (htorn : Torn st ev) (hseen : SeenIn path st.store audience nonce) :
    SeenIn path (commands.interleaved.step st ev).1.store audience nonce := by
  rcases step_path hkept htorn with hsame | ⟨i, a, m, files, text, start, -, hpending, hstore, hwrite, hfile, hstart, -⟩
  · rwa [SeenIn, load_congr hsame]
  · intro store' hload
    obtain ⟨p, directory, predicates, store, report, text', hverified, htext, hw, -⟩ := verify_write hstore hwrite
    obtain rfl : text = text' := congrArg Prod.snd hw
    obtain rfl := load_written h htext hstart hfile hload
    have hbefore := hverified.loads
    rw [load_current hcurrent hstore hpending] at hbefore
    exact seen_recorded_iff.mpr (.inl (hseen store hbefore))

/-- A run that accepts a nonce leaves a file that has seen it. -/
theorem seenIn_of_accepted (h : StoreText) {x : Finished} (hanswer : (commands.interleaved.step st ev).2 = some x)
    (haccepted : AcceptedAt path audience nonce x) :
    SeenIn path (commands.interleaved.step st ev).1.store audience nonce := by
  obtain ⟨i, rfl, hpending, hout⟩ := Programs.answer_eq_some hanswer
  obtain ⟨⟨c, m⟩, files, effect'⟩ := x
  obtain ⟨a, p, hc, hstore, rfl, hp, rfl, hcode⟩ := haccepted
  obtain rfl : c = .verify a := hc
  obtain rfl : effect' = effect files (.verify a, m) := hout
  obtain ⟨p', _, _, store, report, text, hverified, -, htext, hwrite⟩ := verify_accepts_write hstore hcode
  obtain rfl := Except.ok.inj (hp.symm.trans hverified.shows)
  have hfile : (commands.interleaved.step st (.finish i)).1.store path = some text := by
    rw [Programs.step_finish hpending, exec_write.mpr ⟨text, hwrite, rfl⟩]
    exact Function.update_self ..
  intro store' hload
  obtain rfl := load_written h htext List.prefix_rfl hfile hload
  rw [seen_record_file, decide_eq_true ⟨rfl, rfl⟩, Bool.or_true]

/-- A run does not accept a nonce that the file has seen. -/
theorem not_accepted_of_seenIn (hcurrent : commands.Current path st) {x : Finished}
    (hanswer : (commands.interleaved.step st ev).2 = some x) (hseen : SeenIn path st.store audience nonce) :
    ¬ AcceptedAt path audience nonce x := by
  rintro ⟨a, p, hc, hstore, rfl, hp, rfl, hcode⟩
  obtain ⟨i, rfl, hpending, hout⟩ := Programs.answer_eq_some hanswer
  obtain ⟨⟨c, m⟩, files, effect'⟩ := x
  obtain rfl : c = .verify a := hc
  obtain rfl : effect' = effect files (.verify a, m) := hout
  obtain ⟨p', _, _, store, report, _, hverified, haccepted, -, -⟩ := verify_accepts_write hstore hcode
  obtain rfl := Except.ok.inj (hp.symm.trans hverified.shows)
  obtain ⟨⟨_, _, _, -, hbound⟩, -, -⟩ := (report_accepted_iff hverified.reports).mp haccepted
  have hload := hverified.loads
  rw [load_current hcurrent hstore hpending] at hload
  exact Bool.false_ne_true (hbound.fresh.symm.trans (hseen store hload))

/-! ## Runs -/

/-- Of the runs that accept presentations with one store, no two accept one
nonce for one audience, where the file is written by verifications with the
store only, each with the store as it found it. -/
theorem single_use_file (h : StoreText) (path : String) (files : Files)
    (es : List (Event I (Cmd × Moment) (Option String)))
    (hrun : commands.interleaved.All (fun st e => commands.Clear path st e ∧ Kept path st e ∧ Torn st e)
      (idle files) es) :
    (commands.finished (idle files) es).Pairwise fun x y =>
      ∀ audience nonce, AcceptedAt path audience nonce x → ¬ AcceptedAt path audience nonce y := by
  have hcurrent := Framework.Machine.all_invariant (fun st => commands.Current path st)
    (fun _ _ hstep => Programs.current_step hstep.1) hrun (Programs.current_idle files)
  have hpairs := Framework.Machine.trace_pairwise
    (R := fun x y => ∀ u v, x.2 = some u → y.2 = some v → ∀ audience nonce,
      AcceptedAt path audience nonce u → ¬ AcceptedAt path audience nonce v)
    (fun x st => ∀ u, x.2 = some u → ∀ audience nonce, AcceptedAt path audience nonce u →
      SeenIn path st.store audience nonce)
    (fun st e _ u hu audience nonce => seenIn_of_accepted h hu)
    (fun x st e hstep hx u hu audience nonce haccepted =>
      seenIn_step h hstep.1 hstep.2.2.1 hstep.2.2.2 (hx u hu audience nonce haccepted))
    (fun x st e hstep hx u v hu hv audience nonce haccepted =>
      not_accepted_of_seenIn hstep.1 hv (hx u hu audience nonce haccepted)) hcurrent
  exact List.pairwise_filterMap.mpr (hpairs.imp fun hpair u hu v hv => hpair u v hu hv)

end

section

attribute [local instance] lawful reading jsonText secrets

/-- A verification with a store, of a presentation in a file. -/
def verifyArgs : VerifyArgs where
  presentation := "presentation.json"
  audience := "did:aion:verifier"
  issuerKeys := [toHex (keyBytes 2).val]
  nonceStore := some "nonces.json"
  predicates := []

theorem key_listed : verifyingKeyFromHex (toHex (keyBytes 2).val) = .ok (identity 2).verifyingKey := by
  rw [verifyingKeyFromHex, decodeArray_toHex]
  rfl

theorem directoryOf_skill : Commands.directoryOf verifyArgs.issuerKeys =
    .ok (IssuerDirectory.new.register (identity 2).verifyingKey) := by
  rw [verifyArgs, Commands.directoryOf, List.foldlM_cons, key_listed]
  rfl

theorem directory_good {d : DisclosedClaim} (hissuer : d.issuerId = (identity 2).did) {now : Timestamp}
    (hactive : d.validity.activeAt now = true) :
    GoodAt (IssuerDirectory.new.register (identity 2).verifyingKey).anchor now (identity 2).verifyingKey d := by
  refine ⟨?_, hactive, by simp [IssuerDirectory.anchor], rfl, fun _ _ => rfl⟩
  simp [IssuerDirectory.anchor, IssuerDirectory.register, hissuer, Identity.did]

/-- A presentation of a skill in a file, which a verification with a store that
has seen nothing accepts throughout its window. -/
theorem skill_file : ∃ (files : Files) (p : Presentation), files "nonces.json" = none ∧
    readJson Presentation files "presentation.json" = .ok p ∧ ∀ now, ⟨1000⟩ ≤ now → now ≤ ⟨1600⟩ →
      ∃ report text, Verified (momentAt now) files verifyArgs "nonces.json" p
          (IssuerDirectory.new.register (identity 2).verifyingKey) [] .default report ∧ report.accepted = true ∧
        JsonText.toStringPretty (recorded .default (.fromString verifyArgs.audience) p report) = .ok text := by
  obtain ⟨c, d, hrun, hd⟩ := lawful_run (identity 2) (skillCall (identity 1).did) (show 2 < 2 ^ 32 by decide)
  let p : Presentation := buildPresentation (identity 1) ⟨"did:aion:verifier"⟩ "hiring" (List.replicate 16 7)
    ⟨1000⟩ ⟨1600⟩ [d]
  have hexact : Pretty.Exact (Shape.shape p) := exact_presentation fun d' hd' f hf => by
    obtain rfl := List.mem_singleton.mp hd'
    exact Pretty.exact_of_object (exact_fields c.body) _ (disclose_field_mem hd f hf)
  let files : Files := fun path =>
    if path = "presentation.json" then some (Pretty.text (Shape.shape p)) else none
  have hp : readJson Presentation files "presentation.json" = .ok p := by
    have hread : (JsonText.fromStr (Pretty.text (Shape.shape p)) : Except String Presentation) = .ok p :=
      fromStr_eq_ok.mpr (toStringPretty_eq_ok.mpr ⟨hexact, rfl⟩)
    simp only [readJson, readToString, files, if_pos, Framework.okOr_some, Framework.ok_bind, hread]
    rfl
  have hissuer : d.issuerId = (identity 2).did := by
    obtain ⟨commit, -, rfl⟩ := run_eq_ok.mp hrun
    rw [disclose_eq hd]
    rfl
  refine ⟨files, p, rfl, hp, fun now hfrom huntil => ?_⟩
  have hactive : d.validity.activeAt now = true := by
    have hstarted : (⟨0⟩ : Timestamp) ≤ now := le_trans (by decide) hfrom
    rw [disclose_validity hrun hd]
    simp [skillCall, Validity.activeAt, hstarted]
  have hvalid : ClaimsValid (IssuerDirectory.new.register (identity 2).verifyingKey).anchor (identity 1).did now [d] := by
    intro d' hd'
    obtain rfl := List.mem_singleton.mp hd'
    exact ⟨_, disclose_valid lawful_lawful ⟨_, rfl, hrun⟩ hd (directory_good hissuer hactive)⟩
  obtain ⟨report, hreport, hacc⟩ := buildPresentation_accepted lawful_lawful ⟨"did:aion:verifier"⟩ "hiring"
    (show 16 ≤ (List.replicate 16 7).length by decide) (List.cons_ne_nil d []) hfrom huntil hvalid [] (by simp)
  exact ⟨report, _, ⟨hp, directoryOf_skill, rfl, rfl, hreport⟩, hacc, toStringPretty_eq_ok.mpr ⟨exact_nonceStore _, rfl⟩⟩

/-- Two verifications of a presentation, one after the other. -/
def twice : List (Cmd × Moment) :=
  [(.verify verifyArgs, momentAt ⟨1200⟩), (.verify verifyArgs, momentAt ⟨1300⟩)]

theorem twice_run (files : Files) : commands.interleaved.All
    (fun st e => commands.Clear "nonces.json" st e ∧ Kept "nonces.json" st e ∧ Torn st e) (idle files)
    (Programs.oneByOne twice) := by
  refine Programs.all_oneByOne (fun s run _ => ⟨Programs.clear_start, ?_, ?_⟩) (fun s run hrun st hst =>
    ⟨Programs.clear_alone hst, ?_, ?_⟩) files
  · rintro _ _ _ _ ⟨⟩
  · rintro _ _ _ _ _ _ ⟨⟩
  · intro j run' files' text _ hpending _
    obtain ⟨rfl, -⟩ := Prod.mk.inj (Option.some.inj ((congrFun hst j).symm.trans hpending))
    simp only [twice, List.mem_cons, List.not_mem_nil, or_false] at hrun
    rcases hrun with rfl | rfl <;> exact ⟨verifyArgs, rfl, rfl⟩
  · rintro _ _ _ _ _ _ ⟨⟩

theorem twice_finished (files : Files) : ∃ files', files' "presentation.json" = files "presentation.json" ∧
    commands.finished (idle files) (Programs.oneByOne twice) =
      [((.verify verifyArgs, momentAt ⟨1200⟩), files, effect files (.verify verifyArgs, momentAt ⟨1200⟩)),
        ((.verify verifyArgs, momentAt ⟨1300⟩), files', effect files' (.verify verifyArgs, momentAt ⟨1300⟩))] := by
  refine ⟨_, Programs.commit_of_ne fun v hv => ?_, rfl⟩
  obtain ⟨text, hwrite, -⟩ := exec_write.mp hv
  obtain ⟨_, _, _, _, _, _, -, -, hw, -⟩ := verify_write (show verifyArgs.nonceStore = some "nonces.json" from rfl) hwrite
  exact absurd (congrArg Prod.fst hw) (show ¬ "presentation.json" = "nonces.json" by decide)

/-- The law at a presentation shown twice: it was accepted the first time. -/
theorem single_use_file_twice : ∃ (files : Files) (nonce : String) (first second : Finished),
    commands.finished (idle files) (Programs.oneByOne twice) = [first, second] ∧
    AcceptedAt "nonces.json" verifyArgs.audience nonce first ∧
    ¬ AcceptedAt "nonces.json" verifyArgs.audience nonce second := by
  obtain ⟨files, p, -, hp, haccepted⟩ := skill_file
  obtain ⟨files', hsame, hfinished⟩ := twice_finished files
  obtain ⟨report, text, hverified, hacc, htext⟩ := haccepted ⟨1200⟩ (by decide) (by decide)
  have hfirst : AcceptedAt "nonces.json" verifyArgs.audience p.nonce ((.verify verifyArgs, momentAt ⟨1200⟩), files,
      effect files (.verify verifyArgs, momentAt ⟨1200⟩)) :=
    ⟨verifyArgs, p, rfl, rfl, rfl, hp, rfl, main_exitCode.mpr ⟨_, (verify_store_eq_ok rfl).mpr
      ⟨p, _, _, _, report, text, hverified, htext, rfl⟩, reportEffect_exitCode.mpr hacc⟩⟩
  have hpairs := single_use_file storeText "nonces.json" files _ (twice_run files)
  rw [hfinished, List.pairwise_pair] at hpairs
  exact ⟨files, p.nonce, _, _, hfinished, hfirst, hpairs _ _ hfirst⟩

end

section

variable [External] [SecretBytes] [Serde] [JsonText Claim] [JsonText DisclosedClaim] [JsonText Presentation]
  [JsonText JsonFileNonceStore] [JsonText Value] {I : Type} [DecidableEq I]
  {st : Running I (Cmd × Moment) String (Option String)} {ev : Event I (Cmd × Moment) (Option String)}
  {m : Moment} {files : Files} {a : VerifyArgs} {path audience nonce : String}

/-! ## What a store's file has seen -/

/-- A store's file has seen what it had at first, and what was accepted since. -/
structure Faithful (path : String) (files : Files) (done : List Finished) (files' : Files) : Prop where
  loads : ∀ store₀, JsonFileNonceStore.load files path = .ok store₀ →
    ∃ store, JsonFileNonceStore.load files' path = .ok store
  seen : ∀ store, JsonFileNonceStore.load files' path = .ok store →
    ∃ store₀, JsonFileNonceStore.load files path = .ok store₀ ∧ ∀ audience nonce,
      (NonceStore.seen store (.fromString audience) nonce = true ↔
        NonceStore.seen store₀ (.fromString audience) nonce = true ∨
          ∃ y ∈ done, AcceptedAt path audience nonce y)

omit [SecretBytes] [Serde] [JsonText Claim] [JsonText DisclosedClaim] [JsonText Value] in
theorem faithful_refl : Faithful path files [] files where
  loads store₀ h := ⟨store₀, h⟩
  seen store h := ⟨store, h, fun _ _ => by simp⟩

/-- A run that writes the store has accepted the nonce it records. -/
theorem acceptedAt_iff {p : Presentation} {directory : IssuerDirectory} {predicates : List PredicateRequest}
    {store : JsonFileNonceStore} {report : VerificationReport} (hstore : a.nonceStore = some path)
    (h : Verified m files a path p directory predicates store report)
    (hcode : (effect files (.verify a, m)).exitCode = 0 ↔ report.accepted = true) :
    AcceptedAt path audience nonce ((.verify a, m), files, effect files (.verify a, m)) ↔
      report.accepted = true ∧ audience = a.audience ∧ nonce = p.nonce := by
  constructor
  · rintro ⟨a', p', ha, -, rfl, hp, rfl, hzero⟩
    obtain rfl := Cmd.verify.inj ha
    obtain rfl := Except.ok.inj (hp.symm.trans h.shows)
    exact ⟨hcode.mp hzero, rfl, rfl⟩
  · rintro ⟨haccepted, rfl, rfl⟩
    exact ⟨a, p, rfl, hstore, rfl, h.shows, rfl, hcode.mpr haccepted⟩

theorem faithful_step (h : StoreText) (hcurrent : commands.Current path st) (hkept : Kept path st ev)
    (hwhole : ev.Whole) {done : List Finished} (hfaithful : Faithful path files done st.store) :
    Faithful path files (done ++ (commands.interleaved.step st ev).2.toList)
      (commands.interleaved.step st ev).1.store := by
  have htorn : Torn st ev := fun i left _ _ _ _ htear => (htear ▸ hwhole : (Event.tear i left).Whole).elim
  rcases step_path hkept htorn with hsame | ⟨i, a, m, files', text, start, hwriter, hpending, hstore, hwrite, hfile, -, hall⟩
  · -- nothing is recorded, so nothing was accepted
    have hnone : ∀ audience nonce, ∀ y ∈ (commands.interleaved.step st ev).2.toList,
        ¬ AcceptedAt path audience nonce y := by
      intro audience nonce y hy haccepted
      have hanswer := Option.mem_toList.mp hy
      have hseen := seenIn_of_accepted h hanswer haccepted
      rw [SeenIn, load_congr hsame] at hseen
      exact not_accepted_of_seenIn hcurrent hanswer hseen haccepted
    refine ⟨fun store₀ hload => ?_, fun store hload => ?_⟩
    · rw [load_congr hsame]
      exact hfaithful.loads store₀ hload
    · rw [load_congr hsame] at hload
      obtain ⟨store₀, hload₀, hseen⟩ := hfaithful.seen store hload
      refine ⟨store₀, hload₀, fun audience nonce => (hseen audience nonce).trans (or_congr_right ?_)⟩
      constructor
      · rintro ⟨y, hy, haccepted⟩
        exact ⟨y, List.mem_append_left _ hy, haccepted⟩
      · rintro ⟨y, hy, haccepted⟩
        rcases List.mem_append.mp hy with hy | hy
        · exact ⟨y, hy, haccepted⟩
        · exact absurd haccepted (hnone audience nonce y hy)
  · obtain rfl : ev = .finish i := by
      cases ev with
      | start _ _ => cases hwriter
      | finish _ => exact congrArg Event.finish (Option.some.inj hwriter)
      | tear _ _ => exact hwhole.elim
    obtain rfl := hall rfl
    obtain ⟨p, directory, predicates, store, report, text', hverified, htext, hw, hcode⟩ := verify_write hstore hwrite
    obtain rfl : start = text' := congrArg Prod.snd hw
    have hbefore := hverified.loads
    rw [load_current hcurrent hstore hpending] at hbefore
    have hread := (load_eq_ok hfile).mpr (h.read _ _ htext)
    refine ⟨fun _ _ => ⟨_, hread⟩, fun store' hload => ?_⟩
    obtain rfl := Except.ok.inj (hread.symm.trans hload)
    obtain ⟨store₀, hload₀, hseen⟩ := hfaithful.seen store hbefore
    refine ⟨store₀, hload₀, fun audience nonce => ?_⟩
    have hanswer : (commands.interleaved.step st (.finish i)).2 =
        some ((.verify a, m), files', effect files' (.verify a, m)) := by
      rw [Programs.step_finish hpending]
      rfl
    rw [seen_recorded_iff, hseen, hanswer, Option.toList_some, or_assoc]
    refine or_congr_right ?_
    simp only [List.mem_append, List.mem_singleton, or_and_right, exists_or, exists_eq_left,
      acceptedAt_iff hstore hverified hcode]

theorem faithful_run (h : StoreText) {es : List (Event I (Cmd × Moment) (Option String))}
    (hrun : commands.interleaved.All (fun st e => commands.Clear path st e ∧ Kept path st e) (idle files) es)
    (hwhole : ∀ e ∈ es, e.Whole) : Faithful path files (commands.finished (idle files) es)
      (commands.interleaved.final (idle files) es).store := by
  induction es using List.reverseRecOn with
  | nil => exact faithful_refl
  | append_singleton es e ih =>
    obtain ⟨hbefore, hlast, -⟩ := Framework.Machine.all_append.mp hrun
    have hcurrent : commands.Current path (commands.interleaved.final (idle files) es) :=
      Framework.Machine.final_induction (fun _ _ hstep => Programs.current_step hstep.1) hbefore (Programs.current_idle files)
    rw [Programs.finished_append, Framework.Machine.final_append]
    exact faithful_step h hcurrent hlast.2 (hwhole e (by simp))
      (ih hbefore fun e' he' => hwhole e' (List.mem_append_left _ he'))

omit [SecretBytes] [Serde] [JsonText Claim] [JsonText DisclosedClaim] [JsonText Value] in
/-- A faithful file has not seen what was not in it at first and not accepted
since. -/
theorem faithful_unseen {done : List Finished} {found : Files} (h : Faithful path files done found) :
    Unseen found (some path) (.fromString audience) nonce ↔ ∃ store, JsonFileNonceStore.load files path = .ok store ∧
      NonceStore.seen store (.fromString audience) nonce = false ∧ ∀ y ∈ done, ¬ AcceptedAt path audience nonce y := by
  have hsplit : ∀ {store store₀ : JsonFileNonceStore}, (NonceStore.seen store (.fromString audience) nonce = true ↔
      NonceStore.seen store₀ (.fromString audience) nonce = true ∨ ∃ y ∈ done, AcceptedAt path audience nonce y) →
      (NonceStore.seen store (.fromString audience) nonce = false ↔
        NonceStore.seen store₀ (.fromString audience) nonce = false ∧
          ∀ y ∈ done, ¬ AcceptedAt path audience nonce y) := by
    intro store store₀ hiff
    rw [← Bool.not_eq_true, ← Bool.not_eq_true, hiff, not_or, not_exists]
    simp only [not_and]
  constructor
  · intro hunseen
    obtain ⟨store, hload, hfresh⟩ := hunseen path rfl
    obtain ⟨store₀, hload₀, hseen⟩ := h.seen store hload
    exact ⟨store₀, hload₀, (hsplit (hseen audience nonce)).mp hfresh⟩
  · rintro ⟨store₀, hload₀, hfresh⟩ _ ⟨⟩
    obtain ⟨store, hload⟩ := h.loads store₀ hload₀
    obtain ⟨store₁, hload₁, hseen⟩ := h.seen store hload
    obtain rfl := Except.ok.inj (hload₁.symm.trans hload₀)
    exact ⟨store, hload, (hsplit (hseen audience nonce)).mpr hfresh⟩

end

section

attribute [local instance] lawful reading jsonText secrets

end

end AionTrust.Proof
