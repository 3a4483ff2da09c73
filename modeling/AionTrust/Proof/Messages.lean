import AionTrust.Spec.Messages

/-!
# No two messages share bytes

A message's bytes are the frames of its domain and its fields, except the
sentinel, which is bare (`built_eq_frames`). The domains are apart
(`kind_domain_inj`), and the fields of messages of one kind determine the message
(`body_inj`). So the bytes of a message whose fields fit their prefixes
determine it (`built_inj`).
-/

namespace AionTrust.Proof

open AionTrust.Impl AionTrust.Spec
open Framework (Bytes frames Fits)

/-! ## A message is the frames of its fields -/

theorem presSigningBytes_holds (claims : List DisclosedClaim) {w : SigningWriter} {fs : List Bytes}
    (hw : w.Holds fs) :
    (claims.foldl (fun w claim => w.field (asBytes claim.claimId.asStr)) w).Holds
      (fs ++ (claims.map DisclosedClaim.claimId).map fun c => asBytes c.asStr) := by
  induction claims generalizing w fs with
  | nil => simpa using hw
  | cons claim claims ih => simpa using ih (hw.field (asBytes claim.claimId.asStr))

theorem signingBytes_eq (subject issuer : Did) (category schemaId : String) (validity : Validity)
    (commit : ClaimCommit) : signingBytes subject issuer category schemaId validity commit =
      frames 4 (claimDomain :: (Message.claim subject issuer category schemaId validity commit).body) := by
  have hw := ((((SigningWriter.holds_new claimDomain).field subject.asBytes).field
    issuer.asBytes).field (asBytes category)).field (asBytes schemaId) |>.field
    (i64Bytes validity.fromTime.secs)
  unfold signingBytes
  cases h : validity.untilTime with
  | none =>
    simp only [Message.body, h]
    exact (((hw.field (asBytes "open")).field commit.bodyRoot.val).field
      (u32Bytes commit.fieldCount)).field commit.relianceRoot.val |>.field
      (u32Bytes commit.relianceCount)
  | some t =>
    simp only [Message.body, h]
    exact ((((hw.field (asBytes "until")).field (i64Bytes t.secs)).field commit.bodyRoot.val).field
      (u32Bytes commit.fieldCount)).field commit.relianceRoot.val |>.field
      (u32Bytes commit.relianceCount)

theorem accreditation_signingBytes_eq (a : Accreditation) : a.signingBytes =
    frames 4 (accredDomain ::
      (Message.accreditation a.issuerId a.category a.fromEpoch a.untilEpoch).body) := by
  have hw := ((SigningWriter.holds_new accredDomain).field a.issuerId.asBytes).field
    (asBytes a.category) |>.field (i64Bytes a.fromEpoch.toInt64)
  unfold Accreditation.signingBytes
  cases h : a.untilEpoch with
  | none => exact hw.field (asBytes "open")
  | some e => exact (hw.field (asBytes "until")).field (i64Bytes e.toInt64)

theorem presSigningBytes_eq (subject audience : Did) (purpose : String) (nonce : Bytes)
    (issuedAt expiresAt : Timestamp) (claims : List DisclosedClaim) :
    presSigningBytes subject audience purpose nonce issuedAt expiresAt claims =
      frames 4 (presDomain :: (Message.presentation subject audience purpose nonce issuedAt expiresAt
        (claims.map DisclosedClaim.claimId)).body) :=
  presSigningBytes_holds claims <| (((SigningWriter.holds_new presDomain).field
    subject.asBytes).field audience.asBytes).field (asBytes purpose) |>.field nonce |>.field
    (i64Bytes issuedAt.secs) |>.field (i64Bytes expiresAt.secs)

/-- What a subject signs names the claims only. -/
theorem presSigningBytes_congr {subject audience : Did} {purpose : String} {nonce : Bytes}
    {issuedAt expiresAt : Timestamp} {ds ds' : List DisclosedClaim}
    (h : ds.map DisclosedClaim.claimId = ds'.map DisclosedClaim.claimId) :
    presSigningBytes subject audience purpose nonce issuedAt expiresAt ds =
      presSigningBytes subject audience purpose nonce issuedAt expiresAt ds' := by
  rw [presSigningBytes_eq, presSigningBytes_eq, h]

theorem fieldLeafMessage_eq (index : UInt32) (key : String) (salt : Digest) (jcsValue : Bytes) :
    fieldLeafMessage index key salt jcsValue =
      frames 4 (fieldLeafDomain :: (Message.fieldLeaf index key salt jcsValue).body) :=
  (((SigningWriter.holds_new fieldLeafDomain).field (u32Bytes index)).field (asBytes key)).field
    salt.val |>.field jcsValue

theorem relianceLeafMessage_eq (index : UInt32) (salt : Digest) (fromClaimId : Bytes)
    (kindCommit : Digest) : relianceLeafMessage index salt fromClaimId kindCommit =
      frames 4 (relianceLeafDomain :: (Message.relianceLeaf index salt fromClaimId kindCommit).body) :=
  (((SigningWriter.holds_new relianceLeafDomain).field (u32Bytes index)).field salt.val).field
    fromClaimId |>.field kindCommit.val

theorem nodeMessage_eq (left right : Digest) : nodeMessage left right =
    frames 4 (fieldNodeDomain :: (Message.node left right).body) :=
  ((SigningWriter.holds_new fieldNodeDomain).field left.val).field right.val

theorem kindCommitMessage_eq (kind : ReliesKind) (kindSalt : Digest) :
    kindCommitMessage kind kindSalt =
      frames 4 (relianceKindCommitDomain :: (Message.kindCommit kind kindSalt).body) :=
  ((SigningWriter.holds_new relianceKindCommitDomain).field kindSalt.val).field (asBytes kind.asStr)

/-- The bytes of a message: framed, or the bare sentinel. -/
theorem built_eq_frames {m : Message} {bytes : Bytes} (h : Built m bytes) :
    bytes = frames 4 (m.kind.domain :: m.body) ∨ m = .emptyReliance ∧ bytes = emptyRelianceMessage := by
  cases h with
  | claim => exact .inl (signingBytes_eq ..)
  | presentation => exact .inl (presSigningBytes_eq ..)
  | accreditation a => exact .inl (accreditation_signingBytes_eq a)
  | fieldLeaf => exact .inl (fieldLeafMessage_eq ..)
  | relianceLeaf => exact .inl (relianceLeafMessage_eq ..)
  | node => exact .inl (nodeMessage_eq ..)
  | kindCommit => exact .inl (kindCommitMessage_eq ..)
  | emptyReliance => exact .inr ⟨rfl, rfl⟩

/-! ## The fields determine the message -/

theorem kind_domain_inj : ∀ {k k' : Kind}, k.domain = k'.domain → k = k' := by
  intro k k'
  cases k <;> cases k' <;> first | exact fun _ => rfl | exact fun h => absurd h (by decide)

theorem kind_domain_fits (k : Kind) : Fits 3 k.domain := by
  cases k <;> decide

theorem domain_fits (k : Kind) : Fits 4 k.domain :=
  Nat.lt_of_lt_of_le (kind_domain_fits k) (by decide)

/-- The two arms start apart, so what follows them is found again. -/
theorem arm_append_inj {α : Type} {f : α → Bytes} (hf : Function.Injective f) {a b : Option α}
    {xs ys : List Bytes} (h : Message.arm f a ++ xs = Message.arm f b ++ ys) : a = b ∧ xs = ys := by
  have hne : asBytes "until" ≠ asBytes "open" := by decide
  cases a with
  | none =>
    cases b with
    | none => exact ⟨rfl, (List.cons.inj h).2⟩
    | some b => exact absurd (List.cons.inj h).1.symm hne
  | some a =>
    cases b with
    | none => exact absurd (List.cons.inj h).1 hne
    | some b =>
      obtain ⟨hab, hrest⟩ := List.cons.inj (List.cons.inj h).2
      exact ⟨congrArg some (hf hab), hrest⟩

theorem timestamp_inj : Function.Injective fun t : Timestamp => i64Bytes t.secs := by
  intro t u h
  cases t; cases u; exact congrArg Timestamp.mk (i64Bytes_inj h)

/-- The cast of an epoch to `i64` loses nothing. -/
theorem epoch_inj : Function.Injective fun e : UInt64 => i64Bytes e.toInt64 := by
  intro e e' h
  simpa using congrArg Int64.toUInt64 (i64Bytes_inj h)

theorem asStr_inj : ∀ {k k' : ReliesKind}, asBytes k.asStr = asBytes k'.asStr → k = k' := by
  intro k k'
  cases k <;> cases k' <;> first | exact fun _ => rfl | exact fun h => absurd h (by decide)

theorem claim_body_inj {s i s' i' : Did} {c d c' d' : String} {v v' : Validity}
    {k k' : ClaimCommit}
    (h : (Message.claim s i c d v k).body = (Message.claim s' i' c' d' v' k').body) :
    Message.claim s i c d v k = .claim s' i' c' d' v' k' := by
  obtain ⟨vf, vu⟩ := v
  obtain ⟨vf', vu'⟩ := v'
  obtain ⟨br, fc, rr, rc⟩ := k
  obtain ⟨br', fc', rr', rc'⟩ := k'
  simp only [Message.body, List.cons_append, List.nil_append, List.cons.injEq] at h
  obtain ⟨hs, hi, hc, hd, hv, hrest⟩ := h
  obtain ⟨hu, htail⟩ := arm_append_inj timestamp_inj hrest
  simp only [List.cons.injEq, and_true] at htail
  obtain ⟨hbr, hfc, hrr, hrc⟩ := htail
  rw [Did.asBytes_inj hs, Did.asBytes_inj hi, asBytes_inj hc, asBytes_inj hd, timestamp_inj hv, hu,
    Subtype.ext hbr, u32Bytes_inj hfc, Subtype.ext hrr, u32Bytes_inj hrc]

theorem presentation_body_inj {s a s' a' : Did} {p p' : String} {n n' : Bytes}
    {i e i' e' : Timestamp} {cs cs' : List ClaimId}
    (h : (Message.presentation s a p n i e cs).body =
      (Message.presentation s' a' p' n' i' e' cs').body) :
    Message.presentation s a p n i e cs = .presentation s' a' p' n' i' e' cs' := by
  simp only [Message.body, List.cons_append, List.nil_append, List.cons.injEq] at h
  obtain ⟨hs, ha, hp, hn, hi, he, hcs⟩ := h
  have hids : Function.Injective fun c : ClaimId => asBytes c.asStr :=
    fun _ _ hc => ClaimId.asStr_inj (asBytes_inj hc)
  rw [Did.asBytes_inj hs, Did.asBytes_inj ha, asBytes_inj hp, hn, timestamp_inj hi,
    timestamp_inj he, hids.list_map hcs]

theorem accreditation_body_inj {i i' : Did} {c c' : String} {e e' : UInt64}
    {u u' : Option UInt64}
    (h : (Message.accreditation i c e u).body = (Message.accreditation i' c' e' u').body) :
    Message.accreditation i c e u = .accreditation i' c' e' u' := by
  simp only [Message.body, List.cons_append, List.nil_append, List.cons.injEq] at h
  obtain ⟨hi, hc, he, hu⟩ := h
  rw [Did.asBytes_inj hi, asBytes_inj hc, epoch_inj he,
    (arm_append_inj epoch_inj (congrArg (· ++ []) hu)).1]

/-- Messages of one kind with the same fields are the same. -/
theorem body_inj {m m' : Message} (hk : m.kind = m'.kind) (h : m.body = m'.body) : m = m' := by
  cases m with
  | claim =>
    cases m' with
    | claim => exact claim_body_inj h
    | _ => cases hk
  | presentation =>
    cases m' with
    | presentation => exact presentation_body_inj h
    | _ => cases hk
  | accreditation =>
    cases m' with
    | accreditation => exact accreditation_body_inj h
    | _ => cases hk
  | fieldLeaf =>
    cases m' with
    | fieldLeaf =>
      simp only [Message.body, List.cons.injEq, and_true] at h
      rw [u32Bytes_inj h.1, asBytes_inj h.2.1, Subtype.ext h.2.2.1, h.2.2.2]
    | _ => cases hk
  | relianceLeaf =>
    cases m' with
    | relianceLeaf =>
      simp only [Message.body, List.cons.injEq, and_true] at h
      rw [u32Bytes_inj h.1, Subtype.ext h.2.1, h.2.2.1, Subtype.ext h.2.2.2]
    | _ => cases hk
  | node =>
    cases m' with
    | node =>
      simp only [Message.body, List.cons.injEq, and_true] at h
      rw [Subtype.ext h.1, Subtype.ext h.2]
    | _ => cases hk
  | kindCommit =>
    cases m' with
    | kindCommit =>
      simp only [Message.body, List.cons.injEq, and_true] at h
      rw [Subtype.ext h.1, asStr_inj h.2]
    | _ => cases hk
  | emptyReliance =>
    cases m' with
    | emptyReliance => rfl
    | _ => cases hk

/-! ## The bytes determine the message -/

/-- A framed message is not the bare sentinel, which starts with a letter. -/
theorem frames_ne_emptyReliance (k : Kind) (fs : List Bytes) :
    frames 4 (k.domain :: fs) ≠ emptyRelianceMessage := by
  obtain ⟨rest, hr⟩ : ∃ rest, frames 4 (k.domain :: fs) = 0 :: rest :=
    Framework.frames_cons_head (kind_domain_fits k)
  intro h
  rw [hr, show emptyRelianceMessage = 97 :: emptyRelianceMessage.tail by decide] at h
  exact absurd (List.cons.inj h).1 (by decide)

/-- Framed messages whose fields fit their prefixes are the same when their
bytes are, whatever their kinds. -/
theorem framed_inj {m m' : Message} (hf : m.Fits) (hf' : m'.Fits)
    (h : frames 4 (m.kind.domain :: m.body) = frames 4 (m'.kind.domain :: m'.body)) : m = m' := by
  have hfs := Framework.frames_inj (by decide) (List.forall_mem_cons.mpr ⟨domain_fits m.kind, hf⟩)
    (List.forall_mem_cons.mpr ⟨domain_fits m'.kind, hf'⟩) h
  obtain ⟨hd, hbody⟩ := List.cons.inj hfs
  exact body_inj (kind_domain_inj hd) hbody

/-- The bytes built for a message determine it, whatever its kind, when its
fields fit their prefixes. -/
theorem built_inj {m m' : Message} {bytes : Bytes} (h : Built m bytes) (h' : Built m' bytes)
    (hf : m.Fits) (hf' : m'.Fits) : m = m' := by
  rcases built_eq_frames h with hb | ⟨rfl, hb⟩ <;> rcases built_eq_frames h' with hb' | ⟨rfl, hb'⟩
  · exact framed_inj hf hf' (hb.symm.trans hb')
  · exact absurd (hb.symm.trans hb') (frames_ne_emptyReliance _ _)
  · exact absurd (hb'.symm.trans hb) (frames_ne_emptyReliance _ _)
  · rfl

/-- The law at an open-ended accreditation. -/
theorem built_inj_accreditation :
    (Message.accreditation ⟨"did:aion:a"⟩ "identity" 1 none).Fits ∧
      ∀ m : Message, m.Fits → Built m (Accreditation.new ⟨"did:aion:a"⟩ "identity" 1 none).signingBytes →
        m = .accreditation ⟨"did:aion:a"⟩ "identity" 1 none :=
  ⟨by decide, fun _ hf h => built_inj h (.accreditation (.new ⟨"did:aion:a"⟩ "identity" 1 none)) hf
    (by decide)⟩

end AionTrust.Proof
