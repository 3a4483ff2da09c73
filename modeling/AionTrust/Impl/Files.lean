import AionTrust.Impl.Cli

/-!
# Files

What the command line keeps between its runs: files of text (`Files`), each
under one path. An identity is a secret in hex, or a file with one in it
(`loadIdentity`); claims, presentations, documents and a nonce store are JSON
(`readJson`). A command stops with a `CommandError`.

`serde_json` reads and writes the text of a type (`JsonText`), and
`aion_context::crypto` the bytes of a secret key (`SecretBytes`); both are
outside the repository.
-/

namespace AionTrust.Impl

open Framework (okOr)

/-- The files there are, with their text. -/
abbrev Files : Type := String → Option String

/-- `TrustError` with its storage errors, or a panic. -/
inductive CommandError where
  | trust (e : TrustError)
  | serialize (message : String)
  | io (message : String)
  | panicked (p : Panic)

/-- `serde_json::to_string_pretty` and `serde_json::from_str` of a type, an
error as its text. -/
class JsonText (α : Type) where
  toStringPretty : α → Except String String
  fromStr : String → Except String α

/-- `to_bytes` and `from_bytes` of a secret key. -/
class SecretBytes [External] where
  toBytes : SigningKey → ByteVec 32
  fromBytes : ByteVec 32 → Except String SigningKey

/-! ## Identities -/

section

variable [External] [SecretBytes]

/-- Restores an identity from its 32-byte secret in hex. -/
def Identity.fromSecretHex (hex : String) : Except TrustError Identity := do
  let bytes ← decodeArray 32 hex
  match SecretBytes.fromBytes bytes with
  | .ok key => .ok ⟨key⟩
  | .error e => .error (.crypto e)

def Identity.secretHex (i : Identity) : String := toHex (SecretBytes.toBytes i.signingKey).val

/-- An identity from its secret in hex, or from a file that contains one. -/
def loadIdentity (files : Files) (arg : String) : Except CommandError Identity :=
  let secret := match files arg with
    | some text => trim text
    | none => arg
  (Identity.fromSecretHex secret).mapError .trust

end

/-! ## JSON files -/

/-- `std::fs::read_to_string`. -/
def readToString (files : Files) (path : String) : Except CommandError String :=
  okOr (files path) (.io "No such file or directory (os error 2)")

def readJson (α : Type) [JsonText α] (files : Files) (path : String) : Except CommandError α := do
  let text ← readToString files path
  (JsonText.fromStr text).mapError .serialize

namespace JsonFileNonceStore

variable [JsonText JsonFileNonceStore]

/-- The store in a file, or an empty one where there is no file. -/
def load (files : Files) (path : String) : Except CommandError JsonFileNonceStore :=
  if (files path).isSome then readJson JsonFileNonceStore files path else .ok default

/-- What `save` writes to a path. -/
def save (s : JsonFileNonceStore) (path : String) : Except CommandError (String × String) := do
  let text ← (JsonText.toStringPretty s).mapError .serialize
  return (path, text)

end JsonFileNonceStore

end AionTrust.Impl
