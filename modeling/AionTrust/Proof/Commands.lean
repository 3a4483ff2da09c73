import AionTrust.Proof.Eviction
import AionTrust.Proof.Shapes
import AionTrust.Spec.Commands

/-!
# Runs of the command line

A command that succeeds has an exit code of zero, unless it is a verification
that rejects (`main_exitCode`, `reportEffect_exitCode`). A verification with a
nonce store writes the store it has read, with the nonce it accepts
(`verify_store_eq_ok`). Commands that run beside each other, and do not write
under a reader, do what they do one after another (`commands_serial`).
-/

namespace AionTrust.Proof

open AionTrust.Impl AionTrust.Spec
open Framework (bind_eq_ok mapError_eq_ok okOr_eq_ok pure_eq_ok)
open Framework.Process

/-! ## Exit codes -/

theorem main_exitCode {r : Except CommandError Effect} :
    (Commands.main r).exitCode = 0 ↔ ∃ e, r = .ok e ∧ e.exitCode = 0 := by
  cases r with
  | ok e => simp [Commands.main]
  | error e => cases e <;> simp [Commands.main]

theorem main_write {r : Except CommandError Effect} {w : String × String} :
    (Commands.main r).write = some w ↔ ∃ e, r = .ok e ∧ e.write = some w := by
  cases r with
  | ok e => simp [Commands.main]
  | error e => cases e <;> simp [Commands.main]

theorem reportEffect_exitCode {report : VerificationReport} {write : Option (String × String)} :
    (Commands.reportEffect report write).exitCode = 0 ↔ report.accepted = true := by
  rw [Commands.reportEffect]
  cases report.accepted <;> simp

section

/-! ## Verifying with a store -/

/-- The store after a report. -/
def recorded (store : JsonFileNonceStore) (audience : Did) (p : Presentation) (report : VerificationReport) :
    JsonFileNonceStore :=
  if report.accepted then NonceStore.record store audience p.nonce p.expiresAt else store

variable [External]

/-- With a file's store the verifier reports by what the store has seen, and
records what it accepts. -/
theorem withStore_eq {p : Presentation} {audience : Did} {now : Timestamp} {anchor : TrustAnchor}
    {store : JsonFileNonceStore} {predicates : List PredicateRequest} {report : VerificationReport}
    (h : verifyPresentationWithPredicates p audience now anchor (NonceStore.seen store audience p.nonce)
      predicates = .ok report) :
    verifyPresentationWithStore p audience now anchor store predicates =
      (.ok report, recorded store audience p report) := by
  simp only [verifyPresentationWithStore, h, recorded]

theorem withStore_eq_ok {p : Presentation} {audience : Did} {now : Timestamp} {anchor : TrustAnchor}
    {store : JsonFileNonceStore} {predicates : List PredicateRequest} {report : VerificationReport}
    (h : (verifyPresentationWithStore p audience now anchor store predicates).1 = .ok report) :
    verifyPresentationWithPredicates p audience now anchor (NonceStore.seen store audience p.nonce)
      predicates = .ok report := by
  cases hreport : verifyPresentationWithPredicates p audience now anchor (NonceStore.seen store audience p.nonce)
    predicates with
  | error e => simp [verifyPresentationWithStore, hreport] at h
  | ok report' =>
    rw [withStore_eq hreport] at h
    exact h

variable [JsonText Presentation] [JsonText JsonFileNonceStore] {m : Moment} {files : Files}
  {a : VerifyArgs} {path : String} {e : Effect}

/-- What a verification with a store reads and decides. -/
structure Verified (m : Moment) (files : Files) (a : VerifyArgs) (path : String) (p : Presentation)
    (directory : IssuerDirectory) (predicates : List PredicateRequest) (store : JsonFileNonceStore)
    (report : VerificationReport) : Prop where
  shows : readJson Presentation files a.presentation = .ok p
  keys : Commands.directoryOf a.issuerKeys = .ok directory
  asks : Cli.parsePredicates a.predicates = .ok predicates
  loads : JsonFileNonceStore.load files path = .ok store
  reports : verifyPresentationWithPredicates p (.fromString a.audience) m.now directory.anchor
    (NonceStore.seen store (.fromString a.audience) p.nonce) predicates = .ok report

theorem verify_store_eq_ok (hstore : a.nonceStore = some path) : Commands.verify m files a = .ok e ↔
    ∃ p directory predicates store report text, Verified m files a path p directory predicates store report ∧
      JsonText.toStringPretty (recorded store (.fromString a.audience) p report) = .ok text ∧
      e = Commands.reportEffect report (some (path, text)) := by
  simp only [Commands.verify, hstore, bind_eq_ok, mapError_eq_ok, JsonFileNonceStore.save, pure_eq_ok]
  constructor
  · rintro ⟨p, hp, directory, hdirectory, predicates, hpredicates, store, hload, report, hreport, w, ⟨text, htext, rfl⟩, rfl⟩
    have hverify := withStore_eq_ok hreport
    rw [withStore_eq hverify] at htext
    exact ⟨p, directory, predicates, store, report, text, ⟨hp, hdirectory, hpredicates, hload, hverify⟩, htext, rfl⟩
  · rintro ⟨p, directory, predicates, store, report, text, h, htext, rfl⟩
    refine ⟨p, h.shows, directory, h.keys, predicates, h.asks, store, h.loads, report, ?_, _, ⟨text, ?_, rfl⟩, rfl⟩
    · rw [withStore_eq h.reports]
    · rw [withStore_eq h.reports]
      exact htext

/-! ## What is written to a store -/

variable [SecretBytes] [Serde] [JsonText Claim] [JsonText DisclosedClaim] [JsonText Value]

/-- A verification with a store that writes something writes the store. -/
theorem verify_write {w : String × String} (hstore : a.nonceStore = some path)
    (hwrite : (effect files (.verify a, m)).write = some w) :
    ∃ p directory predicates store report text, Verified m files a path p directory predicates store report ∧
      JsonText.toStringPretty (recorded store (.fromString a.audience) p report) = .ok text ∧
      w = (path, text) ∧ ((effect files (.verify a, m)).exitCode = 0 ↔ report.accepted = true) := by
  obtain ⟨e, he, hw⟩ := main_write.mp hwrite
  obtain ⟨p, directory, predicates, store, report, text, h, htext, rfl⟩ := (verify_store_eq_ok hstore).mp he
  refine ⟨p, directory, predicates, store, report, text, h, htext, (Option.some.inj hw).symm, ?_⟩
  rw [effect, show Commands.run m files (.verify a) = _ from he]
  exact reportEffect_exitCode

/-- One that accepts writes it. -/
theorem verify_accepts_write (hstore : a.nonceStore = some path) (haccepts : (effect files (.verify a, m)).exitCode = 0) :
    ∃ p directory predicates store report text, Verified m files a path p directory predicates store report ∧
      report.accepted = true ∧
      JsonText.toStringPretty (NonceStore.record store (.fromString a.audience) p.nonce p.expiresAt) = .ok text ∧
      (effect files (.verify a, m)).write = some (path, text) := by
  obtain ⟨e, he, hcode⟩ := main_exitCode.mp haccepts
  obtain ⟨p, directory, predicates, store, report, text, h, htext, rfl⟩ := (verify_store_eq_ok hstore).mp he
  have haccepted := reportEffect_exitCode.mp hcode
  rw [recorded, if_pos haccepted] at htext
  exact ⟨p, directory, predicates, store, report, text, h, haccepted, htext, main_write.mpr ⟨_, he, rfl⟩⟩

/-- A verification exits with success where a verifier accepts what the file
holds, and the store, where there is one, has not seen its nonce. -/
theorem verify_exit_iff (h : StoreText) :
    (effect files (.verify a, m)).exitCode = 0 ↔ ∃ p directory requests report,
      readJson Presentation files a.presentation = .ok p ∧ Commands.directoryOf a.issuerKeys = .ok directory ∧
      Cli.parsePredicates a.predicates = .ok requests ∧ Unseen files a.nonceStore (.fromString a.audience) p.nonce ∧
      verifyPresentationWithPredicates p (.fromString a.audience) m.now directory.anchor false requests =
        .ok report ∧ report.accepted = true := by
  cases hstore : a.nonceStore with
  | some path =>
    constructor
    · intro hcode
      obtain ⟨p, directory, requests, store, report, -, hverified, hacc, -, -⟩ := verify_accepts_write hstore hcode
      obtain ⟨⟨_, _, _, -, hbound⟩, -, -⟩ := (report_accepted_iff hverified.reports).mp hacc
      refine ⟨p, directory, requests, report, hverified.shows, hverified.keys, hverified.asks, ?_, ?_, hacc⟩
      · rintro _ ⟨⟩
        exact ⟨store, hverified.loads, hbound.fresh⟩
      · rw [← hbound.fresh]
        exact hverified.reports
    · rintro ⟨p, directory, requests, report, hp, hdirectory, hrequests, hunseen, hreport, hacc⟩
      obtain ⟨store, hload, hfresh⟩ := hunseen path rfl
      obtain ⟨text, htext⟩ := h.written (recorded store (.fromString a.audience) p report)
      refine main_exitCode.mpr ⟨_, (verify_store_eq_ok hstore).mpr ⟨p, directory, requests, store, report, text,
        ⟨hp, hdirectory, hrequests, hload, ?_⟩, htext, rfl⟩, reportEffect_exitCode.mpr hacc⟩
      rw [hfresh]
      exact hreport
  | none =>
    have hrun : ∀ e, Commands.run m files (.verify a) = .ok e ↔ ∃ p directory requests report,
        readJson Presentation files a.presentation = .ok p ∧ Commands.directoryOf a.issuerKeys = .ok directory ∧
        Cli.parsePredicates a.predicates = .ok requests ∧
        verifyPresentationWithPredicates p (.fromString a.audience) m.now directory.anchor false requests = .ok report ∧
        e = Commands.reportEffect report none := by
      intro e
      simp only [Commands.run, Commands.verify, hstore, bind_eq_ok, mapError_eq_ok, pure_eq_ok, eq_comm (a := e),
        exists_and_left]
    rw [effect, main_exitCode]
    constructor
    · rintro ⟨e, he, hcode⟩
      obtain ⟨p, directory, requests, report, hp, hdirectory, hrequests, hreport, rfl⟩ := (hrun e).mp he
      refine ⟨p, directory, requests, report, hp, hdirectory, hrequests, ?_, hreport, reportEffect_exitCode.mp hcode⟩
      rintro _ ⟨⟩
    · rintro ⟨p, directory, requests, report, hp, hdirectory, hrequests, -, hreport, hacc⟩
      exact ⟨_, (hrun _).mpr ⟨p, directory, requests, report, hp, hdirectory, hrequests, hreport, rfl⟩,
        reportEffect_exitCode.mpr hacc⟩

/-! ## Runs beside each other -/

variable {I : Type} [DecidableEq I] {st : Running I (Cmd × Moment) String (Option String)}
  {ev : Event I (Cmd × Moment) (Option String)} {run : Cmd × Moment}

theorem exec_write {v : Option String} : (commands.exec run files).2 = some (path, v) ↔
    ∃ text, (effect files run).write = some (path, text) ∧ v = some text := by
  simp only [commands, Option.map_eq_some_iff, Prod.mk.injEq, Prod.exists]
  constructor
  · rintro ⟨_, text, hwrite, rfl, rfl⟩
    exact ⟨text, hwrite, rfl⟩
  · rintro ⟨text, hwrite, rfl⟩
    exact ⟨path, text, hwrite, rfl, rfl⟩

omit [DecidableEq I] in
theorem writes_iff : commands.Writes path st ev ↔ ∃ i run files text, ev.writer = some i ∧
    st.pending i = some (run, files) ∧ (effect files run).write = some (path, text) := by
  simp only [Programs.Writes, exec_write]
  constructor
  · rintro ⟨i, run, files, _, hwriter, hpending, text, hwrite, -⟩
    exact ⟨i, run, files, text, hwriter, hpending, hwrite⟩
  · rintro ⟨i, run, files, text, hwriter, hpending, hwrite⟩
    exact ⟨i, run, files, _, hwriter, hpending, text, hwrite, rfl⟩

/-- Commands that never write a file while another has read it, and do not die,
do what they would one after another in the order in which they finish. -/
theorem commands_serial (files : Files) (es : List (Event I (Cmd × Moment) (Option String)))
    (hclear : commands.interleaved.All (fun st e => ∀ path, commands.Clear path st e) (idle files) es)
    (hwhole : ∀ e ∈ es, e.Whole) :
    (commands.finished (idle files) es).map (fun x => (x.1, x.2.2)) =
        commands.serial.trace files ((commands.finished (idle files) es).map Prod.fst) ∧
      (commands.interleaved.final (idle files) es).store =
        commands.serial.final files ((commands.finished (idle files) es).map Prod.fst) :=
  Programs.interleaved_serial hclear hwhole fun _ => Programs.current_idle files

end

section

attribute [local instance] lawful reading jsonText

/-- Secrets of keys in a byte. -/
abbrev secrets : SecretBytes := ⟨keyBytes, fun bs => .ok (bs.val.headD 0)⟩

attribute [local instance] secrets

/-- What a run draws, at a time. -/
def momentAt (now : Timestamp) : Moment :=
  { now, key := (identity 1).signingKey, draw₁ := ⟨List.replicate 12 9, rfl⟩,
    draw₂ := ⟨List.replicate 12 9, rfl⟩, draw₃ := ⟨List.replicate 12 9, rfl⟩ }

/-- The law at a claim issued while a key is made. -/
theorem commands_serial_beside : ∃ (files : Files) (issue keygen : Cmd × Moment),
    (∀ path, commands.reads issue path ↔ path = "issuer.key") ∧ keygen.1 = .keygen (some "subject.key") ∧
    commands.finished (idle files) [.start false issue, .start true keygen, .finish true, .finish false] =
      [(keygen, files, effect files keygen), (issue, files, effect files issue)] ∧
    [(keygen, effect files keygen), (issue, effect files issue)] = commands.serial.trace files [keygen, issue] := by
  let files : Files := fun path => if path = "issuer.key" then some (identity 2).secretHex else none
  let issue : Cmd × Moment := (.issue ⟨"issuer.key", "did:aion:subject", "Acme", "Engineer", "2021-03", none,
    "full_time", true, none, some "claim.json"⟩, momentAt ⟨1000⟩)
  let keygen : Cmd × Moment := (.keygen (some "subject.key"), momentAt ⟨1000⟩)
  have hfinished : commands.finished (idle files) [.start false issue, .start true keygen, .finish true,
      .finish false] = [(keygen, files, effect files keygen), (issue, files, effect files issue)] := rfl
  have hreads : ∀ path, commands.reads issue path ↔ path = "issuer.key" := by simp [commands, Cmd.paths, issue]
  have hserial := commands_serial files [.start false issue, .start true keygen, .finish true, .finish false]
    ⟨fun _ => Programs.clear_start, fun _ => Programs.clear_start, fun path => ?_, fun path => ?_, trivial⟩
    (by simp [Event.Whole])
  · rw [hfinished] at hserial
    exact ⟨files, issue, keygen, hreads, rfl, hfinished, hserial.1⟩
  · refine Programs.clear_finish (p := keygen) rfl fun v hwrite j q t hj hpending hread => ?_
    obtain rfl : j = false := by simpa using hj
    obtain rfl : issue = q := congrArg Prod.fst (Option.some.inj hpending)
    obtain ⟨text, hkey, -⟩ := exec_write.mp hwrite
    obtain rfl : "subject.key" = path := congrArg Prod.fst (Option.some.inj hkey)
    exact absurd ((hreads _).mp hread) (by decide)
  · refine Programs.clear_finish (p := issue) rfl fun v _ j q t hj hpending => ?_
    obtain rfl : j = true := by simpa using hj
    cases hpending

end

end AionTrust.Proof
