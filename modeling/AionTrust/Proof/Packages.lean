import AionTrust.Proof.Binding

/-!
# Packages that keep their promises

A model of the packages outside the repository, for any keys (`packages`): a
hash that reads the bytes as a number, and signatures that verify on the
messages a key signs. With one-byte keys that sign everything (`lawful`) it is
`Lawful`; with a key for every set of messages (`restricted`), a key signs
what it is made for and nothing else. Under both, every body can be issued
(`packages_commits`).
-/

namespace AionTrust.Proof

open AionTrust.Impl AionTrust.Spec
open Framework (Bytes Fits beBytes)

/-- Bytes as the digits of a number, each one more than it is. -/
def digits (bs : Bytes) : Nat := bs.foldr (fun b n => 257 * n + b.toNat + 1) 0

def digest (bs : Bytes) : ByteVec 32 := ⟨beBytes 32 (digits bs), Framework.length_beBytes ..⟩

/-- The canonical bytes of a scalar, for text without escapes. -/
def jcsScalar : Value → Option Bytes
  | .null => some (asBytes "null")
  | .bool b => some (asBytes (toString b))
  | .number (.posInt n) => some (asBytes (toString n))
  | .number (.negInt n) => some (asBytes (toString n))
  | .string s => some (34 :: asBytes s ++ [34])
  | _ => none

/-- Canonical bytes of scalars and of lists of them. -/
def jcs : Value → Option Bytes
  | .array vs => (vs.mapM jcsScalar).map fun parts => 91 :: [44].intercalate parts ++ [93]
  | v => jcsScalar v

/-- A key in a byte. -/
def keyBytes (key : UInt8) : ByteVec 32 := ⟨key :: List.replicate 31 0, rfl⟩

section

variable (Key : Type) (encode : Key → ByteVec 32) (decode : ByteVec 32 → Except String Key)
  (signs : Key → Bytes → Bool)

/-- Packages whose keys sign the messages `signs` lets them. -/
abbrev packages : External where
  SigningKey := Key
  VerifyingKey := Key
  hash := digest
  keyedHash salt bs := digest (salt.val ++ bs)
  verifyingKey key := key
  sign key bs := ⟨(digest bs).val ++ (encode key).val, by simp⟩
  verify key bs sig := signs key bs && decide (sig.val = (digest bs).val ++ (encode key).val)
  toBytes := encode
  fromBytes := decode
  toJcsBytes := jcs
  display v := v.asStr.getD ""

/-- What a key signs verifies where the packages let it sign. -/
theorem packages_verify (key : Key) (bs : Bytes) :
    (packages Key encode decode signs).verify key bs
      ((packages Key encode decode signs).sign key bs) = signs key bs :=
  (congrArg (signs key bs && ·) (decide_eq_true rfl)).trans (Bool.and_true _)

end

/-! ## Canonical bytes of bodies -/

theorem jcsScalar_strings (ss : List String) :
    ∃ parts, (ss.map Value.string).mapM jcsScalar = some parts := by
  induction ss with
  | nil => exact ⟨[], rfl⟩
  | cons s ss ih =>
    obtain ⟨parts, hparts⟩ := ih
    exact ⟨(34 :: asBytes s ++ [34]) :: parts, by simp [jcsScalar, hparts]⟩

theorem jcs_optValue {α : Type} {f : α → Value} (hf : ∀ a, ∃ bs, jcs (f a) = some bs) (a : Option α) :
    ∃ bs, jcs (ClaimBody.optValue f a) = some bs := by
  cases a with
  | none => exact ⟨_, rfl⟩
  | some a => exact hf a

/-- The fields of a body have canonical bytes. -/
theorem jcs_fields (body : ClaimBody) : ∀ e ∈ body.fields, ∃ bs, jcs e.2 = some bs := by
  have hstr : ∀ s, ∃ bs, jcs (.string s) = some bs := fun s => ⟨_, rfl⟩
  have hnum : ∀ r : UInt8, ∃ bs, jcs (.number (.posInt r.toUInt64)) = some bs := fun r => ⟨_, rfl⟩
  have hbool : ∀ b, ∃ bs, jcs (.bool b) = some bs := fun b => ⟨_, rfl⟩
  have hscope : ∀ ss : List String, ∃ bs, jcs (.array (ss.map .string)) = some bs := by
    intro ss
    obtain ⟨parts, hparts⟩ := jcsScalar_strings ss
    exact ⟨_, by rw [jcs, hparts]; rfl⟩
  cases body <;> simp [ClaimBody.fields, hstr, hbool, hscope, jcs_optValue hstr, jcs_optValue hnum]

/-- A skill, issued in reliance on one claim twice. -/
def skillCall (subject : Did) : IssueCall where
  masterSalt := digest (asBytes "salt")
  subject
  validity := { fromTime := ⟨0⟩, untilTime := none }
  body := .skill { skill := "rust", level := some "expert" }
  reliance := [⟨⟨"identity"⟩, .identityBasis⟩, ⟨⟨"identity"⟩, .priorCheck⟩]

/-- A request for a skill, under some scale or none. -/
def skillRequest (scaleVersion : Option String) : PredicateRequest where
  category := "skill"
  field := "skill"
  op := .eq
  bound := .string "rust"
  scaleVersion

theorem skillCall_fits {Key : Type} {encode : Key → ByteVec 32}
    {decode : ByteVec 32 → Except String Key} {signs : Key → Bytes → Bool}
    (issuer : @Identity (packages Key encode decode signs)) :
    @IssueCall.Fits (packages Key encode decode signs) issuer (skillCall ⟨"did:aion:subject"⟩) := by
  let := packages Key encode decode signs
  have hskill : ∀ bs, jcs (.string "rust") = some bs → Fits 4 bs := fun bs h => by
    rw [← Option.some.inj h]; decide
  have hlevel : ∀ bs, jcs (.string "expert") = some bs → Fits 4 bs := fun bs h => by
    rw [← Option.some.inj h]; decide
  refine ⟨by decide, fromKey_fits _, fun e he => ?_, by decide⟩
  rcases List.mem_cons.mp he with rfl | he
  · exact hskill
  · obtain rfl := List.mem_singleton.mp he
    exact hlevel

/-- Under these packages every call commits. -/
theorem packages_commits {Key : Type} {encode : Key → ByteVec 32}
    {decode : ByteVec 32 → Except String Key} {signs : Key → Bytes → Bool} {call : IssueCall}
    (hlen : call.reliance.length < 2 ^ 32) :
    ∃ commit, @IssueCall.Commits (packages Key encode decode signs) call commit :=
  @commits_isOk (packages Key encode decode signs) call (jcs_fields call.body) hlen

/-! ## Keys that sign one thing -/

/-- A key is the set of messages it signs; all are written as the same bytes. -/
abbrev restricted : External :=
  packages (Bytes → Bool) (fun _ => keyBytes 0) (fun _ => .error "unreadable") id

section

attribute [local instance] restricted

/-- A key that signs the message of one call and nothing else. -/
theorem restricted_issuer (call : IssueCall) (hlen : call.reliance.length < 2 ^ 32) :
    ∃ (issuer : Identity) (commit : ClaimCommit), call.Commits commit ∧
      External.verify issuer.verifyingKey (call.message issuer commit)
        (issuer.sign (call.message issuer commit)) = true ∧
      ∀ m sig, External.verify issuer.verifyingKey m sig = true → Signed issuer {call} m := by
  obtain ⟨commit, hcommit⟩ : ∃ commit, call.Commits commit := packages_commits hlen
  obtain ⟨message, hmsg⟩ : ∃ message, message = call.message ⟨fun _ => true⟩ commit := ⟨_, rfl⟩
  let issuer : Identity := ⟨fun m => decide (m = message)⟩
  -- every key is written alike, so the message does not depend on who signs it
  have hdid : issuer.did = (⟨fun _ => true⟩ : Identity).did := rfl
  have hmessage : call.message issuer commit = message := by
    rw [hmsg, IssueCall.message, hdid]; rfl
  refine ⟨issuer, commit, hcommit, ?_, fun m sig hm => ?_⟩
  · rw [hmessage]
    exact (packages_verify _ _ _ id issuer.signingKey message).trans (decide_eq_true rfl)
  · obtain rfl : m = message := of_decide_eq_true (Bool.and_eq_true_iff.mp hm).1
    exact hmessage ▸ .issued call commit rfl hcommit

end

/-! ## Keys that sign everything -/

abbrev lawful : External :=
  packages UInt8 keyBytes (fun bs => .ok (bs.val.headD 0)) fun _ _ => true

section

attribute [local instance] lawful

/-- The identity of a key. -/
def identity (key : UInt8) : Identity := ⟨key⟩

theorem lawful_lawful : Lawful where
  sign_verify _ _ := packages_verify ..
  fromBytes_toBytes _ := rfl

/-- Under these packages every call issues a claim, which can be disclosed. -/
theorem lawful_run (issuer : Identity) (call : IssueCall) (hlen : call.reliance.length < 2 ^ 32) :
    ∃ c d, call.run issuer = .ok c ∧ c.disclose .all = .ok d := by
  obtain ⟨commit, hcommit⟩ := packages_commits hlen
  have hrun := run_of_commits issuer hcommit
  obtain ⟨d, hd⟩ := disclose_all_isOk hrun
  exact ⟨_, d, hrun, hd⟩

/-- The anchor that knows one issuer and no revocation. -/
def trusting (issuer : Identity) : TrustAnchor where
  issuerKey _ := some issuer.verifyingKey
  standing _ _ _ := { accredited := false, accreditationRequired := false }
  isRevoked _ _ := false

theorem trusting_good (issuer : Identity) {now : Timestamp} {d : DisclosedClaim}
    (hactive : d.validity.activeAt now = true) : GoodAt (trusting issuer) now issuer.verifyingKey d :=
  ⟨rfl, hactive, by simp [trusting], rfl, fun _ _ => rfl⟩

/-- A skill that is disclosed is valid under such an anchor while it is active. -/
theorem skill_valid (subject : Identity) : ∃ (c : Claim) (d : DisclosedClaim),
    (skillCall subject.did).run (identity 2) = .ok c ∧ c.disclose .all = .ok d ∧
      ∀ now, (skillCall subject.did).validity.activeAt now = true →
        ClaimValid (trusting (identity 2)) subject.did now d (verifiedOf d) := by
  obtain ⟨c, d, hrun, hd⟩ := lawful_run (identity 2) (skillCall subject.did)
    (show 2 < 2 ^ 32 by decide)
  refine ⟨c, d, hrun, hd, fun now hactive => ?_⟩
  rw [← disclose_validity hrun hd] at hactive
  exact disclose_valid lawful_lawful ⟨_, rfl, hrun⟩ hd (trusting_good _ hactive)

end

end AionTrust.Proof
