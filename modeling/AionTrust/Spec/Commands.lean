import AionTrust.Framework.Process
import AionTrust.Impl.Commands

/-!
# Commands as processes

The command line as programs over files (`commands`): a command reads the files
it names, and no other, all of them in the step in which it starts. An entry is
a run that finished, with the files as it found them and what it did.

A nonce store is a file that only verifications with that store write
(`Kept`), each with the store as it found it still there (`Clear`). A
verification may die while it writes, and leave a beginning of the file
(`Torn`); of JSON, that does not read (`StoreText`).
-/

namespace AionTrust.Spec

open AionTrust.Impl
open Framework (ok_bind)
open Framework.Process

/-- The files a command reads. -/
def Cmd.paths : Cmd → List String
  | .keygen _ => []
  | .issue a => [a.issuer]
  | .issueCheck a => [a.issuer]
  | .present a => a.subject :: a.claims
  | .verify a => a.presentation :: a.nonceStore.toList
  | .exportVc disclosed _ _ => [disclosed]
  | .importVc input _ => [input]
  | .exportVp presentation _ _ => [presentation]
  | .importVp input _ => [input]

/-! ## What a command reads -/

section

variable {files files' : Files} {path : String}

theorem readJson_congr {α : Type} [JsonText α] (h : files path = files' path) :
    readJson α files path = readJson α files' path := by
  rw [readJson, readJson, readToString, readToString, h]

theorem load_congr [JsonText JsonFileNonceStore] (h : files path = files' path) :
    JsonFileNonceStore.load files path = JsonFileNonceStore.load files' path := by
  rw [JsonFileNonceStore.load, JsonFileNonceStore.load, h, readJson_congr h]

theorem loadIdentity_congr [External] [SecretBytes] (h : files path = files' path) :
    loadIdentity files path = loadIdentity files' path := by
  rw [loadIdentity, loadIdentity, h]

end

variable [External] [SecretBytes] [Serde] [JsonText Claim] [JsonText DisclosedClaim] [JsonText Presentation]
  [JsonText JsonFileNonceStore] [JsonText Value]

theorem run_congr (m : Moment) (c : Cmd) {files files' : Files} (h : ∀ path ∈ Cmd.paths c, files path = files' path) :
    Commands.run m files c = Commands.run m files' c := by
  cases c with
  | keygen out => rfl
  | issue a =>
    simp only [Commands.run, Commands.issue, loadIdentity_congr (h a.issuer List.mem_cons_self)]
  | issueCheck a =>
    simp only [Commands.run, Commands.issueCheck, loadIdentity_congr (h a.issuer List.mem_cons_self)]
  | present a =>
    have hclaims : ∀ selectors, a.claims.mapM (Commands.discloseFile files selectors) =
        a.claims.mapM (Commands.discloseFile files' selectors) := fun selectors =>
      Framework.mapM_congr fun path hpath => by
        simp only [Commands.discloseFile, readJson_congr (h path (List.mem_cons_of_mem _ hpath))]
    simp only [Commands.run, Commands.present, loadIdentity_congr (h a.subject List.mem_cons_self), hclaims]
  | verify a =>
    simp only [Commands.run, Commands.verify, readJson_congr (h a.presentation List.mem_cons_self)]
    cases hstore : a.nonceStore with
    | none => rfl
    | some path =>
      have hpath : path ∈ Cmd.paths (.verify a) := by simp [Cmd.paths, hstore]
      simp only [load_congr (h path hpath)]
  | exportVc disclosed key out =>
    simp only [Commands.run, Commands.exportVc, readJson_congr (h disclosed List.mem_cons_self)]
  | importVc input out =>
    simp only [Commands.run, Commands.importVc, readJson_congr (h input List.mem_cons_self)]
  | exportVp presentation keys out =>
    simp only [Commands.run, Commands.exportVp, readJson_congr (h presentation List.mem_cons_self)]
  | importVp input out =>
    simp only [Commands.run, Commands.importVp, readJson_congr (h input List.mem_cons_self)]

/-- What a command does to the files. -/
def effect (files : Files) (run : Cmd × Moment) : Effect := Commands.main (Commands.run run.2 files run.1)

/-- The command line. -/
def commands : Programs (Cmd × Moment) String (Option String) Effect where
  exec run files := (effect files run, (effect files run).write.map fun w => (w.1, some w.2))
  reads run path := path ∈ Cmd.paths run.1
  exec_congr run files files' h := by
    have heffect : effect files run = effect files' run := by rw [effect, effect, run_congr run.2 run.1 h]
    rw [heffect]

/-- A run that finished, with the files it found and what it did. -/
abbrev Finished : Type := (Cmd × Moment) × Files × Effect

/-! ## A nonce store in a file -/

omit [SecretBytes] [Serde] [JsonText Claim] [JsonText DisclosedClaim] [JsonText Value] in
/-- What is assumed of the text of a nonce store: there is one, it reads as the
store, and no shorter beginning of it reads. -/
structure StoreText : Prop where
  written : ∀ s : JsonFileNonceStore, ∃ text, JsonText.toStringPretty s = .ok text
  read : ∀ (s : JsonFileNonceStore) text, JsonText.toStringPretty s = .ok text → JsonText.fromStr text = .ok s
  cut : ∀ (s : JsonFileNonceStore) text start, JsonText.toStringPretty s = .ok text →
    start.toList <+: text.toList → start ≠ text →
      ∃ e, (JsonText.fromStr start : Except String JsonFileNonceStore) = .error e

omit [External] [SecretBytes] [Serde] [JsonText Claim] [JsonText DisclosedClaim] [JsonText Presentation] [JsonText Value] in
/-- A nonce store, where there is one, loads and has not seen the nonce. -/
def Unseen (files : Files) (nonceStore : Option String) (audience : Did)
    (nonce : String) : Prop :=
  ∀ path, nonceStore = some path → ∃ store, JsonFileNonceStore.load files path = .ok store ∧
    NonceStore.seen store audience nonce = false

variable {I : Type} [DecidableEq I]

/-- Only verifications with the store at a path write there. -/
def Kept (path : String) (st : Running I (Cmd × Moment) String (Option String))
    (e : Event I (Cmd × Moment) (Option String)) : Prop :=
  ∀ i run files text, e.writer = some i → st.pending i = some (run, files) →
    (effect files run).write = some (path, text) → ∃ a, run.1 = .verify a ∧ a.nonceStore = some path

/-- A process that dies while it writes leaves a beginning of the file. -/
def Torn (st : Running I (Cmd × Moment) String (Option String))
    (e : Event I (Cmd × Moment) (Option String)) : Prop :=
  ∀ i left run files path text, e = .tear i left → st.pending i = some (run, files) →
    (effect files run).write = some (path, text) → ∃ start, left = some start ∧ start.toList <+: text.toList

/-- A run accepted a presentation of a nonce, as a verifier, with the store at a
path. -/
def AcceptedAt (path audience nonce : String) (x : Finished) : Prop :=
  ∃ a p, x.1.1 = .verify a ∧ a.nonceStore = some path ∧ a.audience = audience ∧
    readJson Presentation x.2.1 a.presentation = .ok p ∧ p.nonce = nonce ∧ x.2.2.exitCode = 0

end AionTrust.Spec
