import Mathlib.Data.Finset.Card
import Mathlib.Data.Set.Card

/-!
# Counting distinct votes

A count of ballots by a running set of voters: each ballot is a vote of
someone or of no one (`vote`), and a voter is entered once (`tally`). The
voters counted are those with a valid ballot, wherever and however often it
occurs (`mem_tally`). A loop that passes over the voters it has already met
counts the same (`foldl_skip`).
-/

namespace Framework

variable {α β γ : Type*} [DecidableEq α]

/-- Enters the voter of a ballot, if it is valid. -/
def enter (vote : β → Option α) (s : Finset α) (b : β) : Finset α := (vote b).elim s (insert · s)

/-- The voters of the valid ballots. -/
def tally (vote : β → Option α) (bs : List β) : Finset α := bs.foldl (enter vote) ∅

variable {vote : β → Option α}

theorem mem_enter {s : Finset α} {b : β} {a : α} : a ∈ enter vote s b ↔ vote b = some a ∨ a ∈ s := by
  unfold enter
  cases vote b <;> simp [eq_comm]

theorem mem_foldl_enter {bs : List β} {s : Finset α} {a : α} :
    a ∈ bs.foldl (enter vote) s ↔ (∃ b ∈ bs, vote b = some a) ∨ a ∈ s := by
  induction bs generalizing s with
  | nil => simp
  | cons b bs ih => simp [ih, mem_enter, or_assoc, or_left_comm]

/-- The voters counted are those with a valid ballot. -/
theorem mem_tally {bs : List β} {a : α} : a ∈ tally vote bs ↔ ∃ b ∈ bs, vote b = some a := by
  simp [tally, mem_foldl_enter]

/-- Passing over a ballot whose voter has been met enters no one less. -/
theorem foldl_skip {step : Finset α → β → Finset α} {who : β → α}
    (hwho : ∀ b a, vote b = some a → a = who b)
    (hstep : ∀ s b, step s b = if who b ∈ s then s else enter vote s b) (bs : List β)
    (s : Finset α) : bs.foldl step s = bs.foldl (enter vote) s := by
  have hsame : step = enter vote := by
    funext s b
    rw [hstep]
    split
    · rename_i hmet
      refine (Finset.ext fun a => ?_).symm
      rw [mem_enter, or_iff_right_of_imp]
      intro hv
      rwa [hwho b a hv]
    · rfl
  rw [hsame]

/-- The number of voters counted, under any names told apart. -/
theorem card_tally_eq_ncard {bs : List β} {name : γ → α} (hname : Function.Injective name)
    (hrange : ∀ b ∈ bs, ∀ a, vote b = some a → ∃ c, name c = a) :
    (tally vote bs).card = {c | ∃ b ∈ bs, vote b = some (name c)}.ncard := by
  rw [← Set.ncard_coe_finset, ← Set.ncard_image_of_injective _ hname]
  congr 1
  ext a
  simp only [Finset.mem_coe, mem_tally, Set.mem_image, Set.mem_ofPred_eq]
  constructor
  · rintro ⟨b, hb, hv⟩
    obtain ⟨c, rfl⟩ := hrange b hb a hv
    exact ⟨c, ⟨b, hb, hv⟩, rfl⟩
  · rintro ⟨c, ⟨b, hb, hv⟩, rfl⟩
    exact ⟨b, hb, hv⟩

end Framework
