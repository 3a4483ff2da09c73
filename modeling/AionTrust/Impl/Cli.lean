import AionTrust.Impl.Claims.Nonce
import AionTrust.Impl.Core.Language
import AionTrust.Impl.Wallet

/-!
# The command line

The nonce store the command line keeps in a file between its runs: a list of
records, which only grows. The file holds the list as JSON. A verifier's
predicates are the entries of `--predicate`, one each (`Cli.parsePredicates`).
A subject presents claims it has read from files, of each the fields that
`--reveal` gives for it (`Cli.present`).
-/

namespace AionTrust.Impl

open Framework (okOr)

/-! ## Nonces -/

structure NonceRecord where
  audience : String
  nonce : String
  expiresAt : Int64

structure JsonFileNonceStore where
  seen : List NonceRecord

namespace JsonFileNonceStore

/-- The store of a file that is not there yet. -/
def default : JsonFileNonceStore := ⟨[]⟩

instance : NonceStore JsonFileNonceStore where
  seen s audience nonce := s.seen.any fun r => r.audience == audience.asStr && r.nonce == nonce
  record s audience nonce expiresAt :=
    ⟨s.seen ++ [{ audience := audience.asStr, nonce, expiresAt := expiresAt.secs }]⟩

end JsonFileNonceStore

/-! ## Predicates -/

namespace Cli

def parseOp : String → Except TrustError PredicateOp
  | "ge" => .ok .ge
  | "le" => .ok .le
  | "gt" => .ok .gt
  | "lt" => .ok .lt
  | "eq" => .ok .eq
  | other => .error (.decode ("unknown predicate op: " ++ other))

/-- A bound that reads as a number is one. -/
def parseBound (bound : String) : Value :=
  match parseI64 bound with
  | some n => .ofI64 (Int64.ofInt n)
  | none => .string bound

/-- An entry, as the loop of `parsePredicates` reads it. -/
def parseEntry (entry : String) : Except TrustError PredicateRequest :=
  match split ':' entry with
  | category :: field :: op :: bound :: rest => do
    return { category, field, op := ← parseOp op, bound := parseBound bound, scaleVersion := rest.head? }
  | _ => .error (.decode ("--predicate needs <category>:<field>:<op>:<bound>: " ++ entry))

def parsePredicates (entries : List String) : Except TrustError (List PredicateRequest) :=
  entries.mapM parseEntry

/-! ## Presenting -/

/-- The entries of `--reveal` as a selector for each claim. -/
def parseReveal (entries : List String) : Except TrustError (String → Option FieldSelector) :=
  entries.foldlM (fun map entry => do
    let (id, fields) ← okOr (splitOnce ':' entry) (.decode ("--reveal needs <id>:<fields>: " ++ entry))
    let keys := (split ',' fields).map trim
    return Function.update map id (some (.only keys))) fun _ => none

/-- A presentation of the claims, in full where no entry is for them. -/
def present [External] (subject : Identity) (audience purpose : String) (claims : List Claim)
    (reveal : List String) (expiresIn : Int64) (now : Timestamp) (n₁ n₂ : ByteVec 12) :
    Except TrustError Presentation := do
  let selectors ← parseReveal reveal
  let disclosed ← claims.mapM fun claim =>
    let selector := (selectors claim.claimId.asStr).getD .all
    (claim.disclose selector).mapError fun e => .decode ("disclose failed: " ++ e.text)
  return buildPresentation subject (.fromString audience) purpose (freshNonce n₁ n₂) now
    (now.plusSeconds expiresIn) disclosed

end Cli

end AionTrust.Impl
