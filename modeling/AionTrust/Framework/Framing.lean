import Mathlib.Data.List.Basic
import Mathlib.Tactic.Ring

/-!
# Framed messages

A message is a sequence of byte strings, each behind its length in `w` bytes,
big-endian (`frames`). Byte strings shorter than `256 ^ w` are read back from
the message in one way only: a frame ends where its prefix says
(`frame_append_inj`), so equal messages have equal sequences (`frames_inj`),
and messages whose first byte strings differ are different whatever follows
(`frames_cons_ne`).
-/

namespace Framework

/-- A byte string. -/
abbrev Bytes := List UInt8

/-! ## Big-endian numbers -/

/-- `n` in `w` bytes, most significant first, modulo `256 ^ w`. -/
def beBytes : Nat → Nat → Bytes
  | 0, _ => []
  | w + 1, n => beBytes w (n / 256) ++ [UInt8.ofNat n]

@[simp] theorem length_beBytes (w n : Nat) : (beBytes w n).length = w := by
  induction w generalizing n with
  | zero => rfl
  | succ w ih => simp [beBytes, ih]

theorem beBytes_mod (w n : Nat) : beBytes w (n % 256 ^ w) = beBytes w n := by
  induction w generalizing n with
  | zero => rfl
  | succ w ih =>
    have hdiv : n % 256 ^ (w + 1) / 256 = n / 256 % 256 ^ w := by
      rw [pow_succ, Nat.mul_comm, Nat.mod_mul_right_div_self]
    have hbyte : UInt8.ofNat (n % 256 ^ (w + 1)) = UInt8.ofNat n := by
      apply UInt8.toNat_inj.mp
      rw [UInt8.toNat_ofNat', UInt8.toNat_ofNat']
      exact Nat.mod_mod_of_dvd n (dvd_pow_self 256 (by omega))
    rw [beBytes, beBytes, hdiv, ih, hbyte]

/-- Numbers below `256 ^ w` are their bytes. -/
theorem beBytes_inj {w m n : Nat} (hm : m < 256 ^ w) (hn : n < 256 ^ w)
    (h : beBytes w m = beBytes w n) : m = n := by
  induction w generalizing m n with
  | zero => simp only [pow_zero] at hm hn; omega
  | succ w ih =>
    obtain ⟨hhigh, hlow⟩ := List.append_inj h (by simp)
    rw [pow_succ] at hm hn
    have hdiv := ih (Nat.div_lt_of_lt_mul (by rw [Nat.mul_comm]; exact hm))
      (Nat.div_lt_of_lt_mul (by rw [Nat.mul_comm]; exact hn)) hhigh
    have hmod : m % 256 = n % 256 := by
      have := congrArg UInt8.toNat (List.cons.inj hlow).1
      simpa [UInt8.toNat_ofNat'] using this
    omega

/-! ## Frames -/

/-- A byte string behind its length. -/
def frame (w : Nat) (bs : Bytes) : Bytes := beBytes w bs.length ++ bs

/-- A byte string whose length fits the prefix. -/
def Fits (w : Nat) (bs : Bytes) : Prop := bs.length < 256 ^ w

instance (w : Nat) (bs : Bytes) : Decidable (Fits w bs) :=
  inferInstanceAs (Decidable (bs.length < 256 ^ w))

/-- The message of a sequence of byte strings. -/
def frames (w : Nat) (fs : List Bytes) : Bytes := fs.flatMap (frame w)

@[simp] theorem frames_nil (w : Nat) : frames w [] = [] := rfl

@[simp] theorem frames_cons (w : Nat) (f : Bytes) (fs : List Bytes) :
    frames w (f :: fs) = frame w f ++ frames w fs := rfl

theorem frames_append (w : Nat) (fs gs : List Bytes) :
    frames w (fs ++ gs) = frames w fs ++ frames w gs := List.flatMap_append

/-- A frame ends where its prefix says, whatever comes after it. -/
theorem frame_append_inj {w : Nat} {a b s t : Bytes} (ha : Fits w a) (hb : Fits w b)
    (h : frame w a ++ s = frame w b ++ t) : a = b ∧ s = t := by
  simp only [frame, List.append_assoc] at h
  obtain ⟨hlen, hrest⟩ := List.append_inj h (by simp)
  exact List.append_inj hrest (beBytes_inj ha hb hlen)

theorem frame_ne_nil {w : Nat} (hw : 0 < w) (f : Bytes) : frame w f ≠ [] := by
  intro h
  have := congrArg List.length h
  simp only [frame, List.length_append, length_beBytes, List.length_nil] at this
  omega

/-- A message is read back in one way. -/
theorem frames_inj {w : Nat} (hw : 0 < w) {fs gs : List Bytes} (hf : ∀ f ∈ fs, Fits w f)
    (hg : ∀ g ∈ gs, Fits w g) (h : frames w fs = frames w gs) : fs = gs := by
  induction fs generalizing gs with
  | nil =>
    cases gs with
    | nil => rfl
    | cons g gs =>
      exact absurd (List.append_eq_nil_iff.mp h.symm).1 (frame_ne_nil hw g)
  | cons f fs ih =>
    cases gs with
    | nil => exact absurd (List.append_eq_nil_iff.mp h).1 (frame_ne_nil hw f)
    | cons g gs =>
      simp only [List.mem_cons, forall_eq_or_imp] at hf hg
      obtain ⟨hhead, htail⟩ := frame_append_inj hf.1 hg.1 h
      rw [hhead, ih hf.2 hg.2 htail]

/-- Messages of different first byte strings differ, whatever follows them. -/
theorem frames_cons_ne {w : Nat} {a b : Bytes} {fs gs : List Bytes} (ha : Fits w a)
    (hb : Fits w b) (hne : a ≠ b) : frames w (a :: fs) ≠ frames w (b :: gs) :=
  fun h => hne (frame_append_inj ha hb h).1

/-- A message of short byte strings starts with a zero byte when its first
byte string is shorter than `256 ^ w`. -/
theorem frames_cons_head {w : Nat} {a : Bytes} {fs : List Bytes} (ha : Fits w a) :
    ∃ rest, frames (w + 1) (a :: fs) = 0 :: rest := by
  have hzero : ∀ (v n : Nat), n < 256 ^ v → ∃ rest, beBytes (v + 1) n = 0 :: rest := by
    intro v
    induction v with
    | zero =>
      intro n hn
      have : n = 0 := by simpa using hn
      exact ⟨[], by subst this; rfl⟩
    | succ v ih =>
      intro n hn
      obtain ⟨rest, hr⟩ := ih (n / 256)
        (Nat.div_lt_of_lt_mul (by rw [pow_succ, Nat.mul_comm] at hn; exact hn))
      exact ⟨rest ++ [UInt8.ofNat n], by rw [beBytes, hr]; rfl⟩
  obtain ⟨rest, hr⟩ := hzero w a.length ha
  exact ⟨rest ++ a ++ frames (w + 1) fs, by simp [frame, hr]⟩

end Framework
