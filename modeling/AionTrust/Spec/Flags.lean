import AionTrust.Impl.Claims.Presentation
import AionTrust.Impl.Core.Language

/-!
# What `--reveal` promises

An entry `<claim_id>:key,key` lists keys of a claim (`ListsKeys`). Entries compose
when a claim that some of them name shows all the keys they list, and no others,
and when their order does not matter (`Composes`).
-/

namespace AionTrust.Spec

open AionTrust.Impl

/-- The keys an entry lists for a claim. -/
def ListsKeys (entry : String) (c : Claim) (keys : List String) : Prop :=
  ∃ fields, splitOnce ':' entry = some (c.claimId.asStr, fields) ∧ keys = (split ',' fields).map trim

/-- Some entry names the claim. -/
def Named (entries : List String) (c : Claim) : Prop := ∃ entry ∈ entries, ∃ keys, ListsKeys entry c keys

/-- The keys listed in all entries that name the claim. -/
def listedKeys (entries : List String) (c : Claim) : Set String :=
  {key | ∃ entry ∈ entries, ∃ keys, ListsKeys entry c keys ∧ key ∈ keys}

/-- The keys a presentation discloses, of one claim after another. -/
def disclosedKeys (p : Presentation) : List (Set String) :=
  p.claims.map fun d => {key | key ∈ d.fields.map (·.key)}

/-- Entries compose, in what is presented under them. -/
structure Composes {ε : Type*} (present : List String → Except ε Presentation) (claims : List Claim)
    (entries : List String) (p : Presentation) : Prop where
  union : List.Forall₂ (fun c keys => Named entries c → keys = listedKeys entries c) claims (disclosedKeys p)
  order : ∀ entries', entries'.Perm entries →
    ∃ p', present entries' = .ok p' ∧ disclosedKeys p' = disclosedKeys p

/-- Entries that name the same claim list the same keys. -/
def EntriesAgree (claims : List Claim) (entries : List String) : Prop :=
  ∀ c ∈ claims, ∀ entry ∈ entries, ∀ entry' ∈ entries, ∀ keys keys', ListsKeys entry c keys →
    ListsKeys entry' c keys' → ∀ key, key ∈ keys ↔ key ∈ keys'

end AionTrust.Spec
