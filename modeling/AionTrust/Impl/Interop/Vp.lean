import AionTrust.Impl.Interop.Vc

/-!
# Verifiable presentations

A presentation as a document, every claim in it a credential under its
issuer's key and the holder's key in the proof (`exportPresentationVp`), and
back (`importPresentationVp`): the holder's key must be the holder's, every
credential must import, and the key is written out again as the subject's.
-/

namespace AionTrust.Impl

open Framework (okOr ensure)

variable [External]

/-- The presentation document, where every issuer's key resolves. -/
def exportPresentationVp (p : Presentation) (resolveIssuer : Did → Option VerifyingKey) : Run Value := do
  let vcs ← p.claims.mapM fun claim => do
    let vk ← okOr (resolveIssuer claim.issuerId) (.error (.unresolvedIssuer claim.issuerId.asStr))
    exportDisclosedVc claim vk
  let subjectVk ← (verifyingKeyFromHex p.subjectKey).mapError fun e => .error (.trust e)
  let proof := Value.json [
    ("type", .string proofType),
    ("proofPurpose", .string "authentication"),
    ("verificationMethod", .string (← verificationMethod subjectVk)),
    ("domain", .string p.audience.asStr),
    ("challenge", .string p.nonce),
    ("purpose", .string p.purpose),
    ("issuedAt", .string (← toRfc3339 p.issuedAt)),
    ("expiresAt", .string (← toRfc3339 p.expiresAt)),
    ("aionSignature", .string p.subjectSignature)]
  return Value.json [
    ("@context", contextV1),
    ("type", .array [.string "VerifiablePresentation"]),
    ("id", .string ("urn:aion-trust:presentation:" ++ p.presentationId)),
    ("holder", .string p.subjectId.asStr),
    ("verifiableCredential", .array vcs),
    ("proof", proof)]

/-- The presentation of a document whose credentials all import. -/
def importPresentationVp [Serde] (doc : Value) : Run Presentation := do
  let proof ← getObj doc "proof"
  let subjectVk ← decodeDidKey (← getStr proof "verificationMethod")
  let holder ← getStr doc "holder"
  let derived := Did.fromKey subjectVk
  ensure (derived.asStr = holder) (.error (.didBinding holder derived.asStr))
  let vcs ← getArray doc "verifiableCredential"
  let claims ← vcs.mapM fun vc => do
    let disclosed ← importDisclosedVc vc
    return disclosed.toValue
  let id ← getStr doc "id"
  let presentationId ← okOr (stripPrefix "urn:aion-trust:presentation:" id) (.error (.wrongType "id"))
  let native := Value.json [
    ("presentation_id", .string presentationId),
    ("subject_id", .string holder),
    ("subject_key", .string (toHex (External.toBytes subjectVk).val)),
    ("audience", .string (← getStr proof "domain")),
    ("purpose", .string (← getStr proof "purpose")),
    ("nonce", .string (← getStr proof "challenge")),
    ("issued_at", (← fromRfc3339 (← getStr proof "issuedAt")).toValue),
    ("expires_at", (← fromRfc3339 (← getStr proof "expiresAt")).toValue),
    ("claims", .array claims),
    ("subject_signature", .string (← getStr proof "aionSignature"))]
  (Serde.presentation native).mapError fun e => .error (.json e)

end AionTrust.Impl
