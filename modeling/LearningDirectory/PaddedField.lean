import Mathlib.Data.List.Basic
import Mathlib.Data.List.TakeWhile

/-! Fields of a fixed width, filled up with a padding symbol on the writing side
and read back by a scan that stops at the first padding symbol. -/
namespace PaddedField

variable {α : Type*}

/-- Fill `s` up to `w` symbols; a longer `s` stays as it is. -/
def pad (w : ℕ) (c : α) (s : List α) : List α := s ++ List.replicate (w - s.length) c

def slice (l : List α) (lo hi : ℕ) : List α := (l.drop lo).take (hi - lo)

/-- A text that a padded field of width `w` can carry. -/
structure Text (w : ℕ) (c : α) where
  text : List α
  fits : text.length ≤ w
  clean : c ∉ text
deriving DecidableEq

theorem length_pad (w : ℕ) (c : α) (s : List α) : (pad w c s).length = max s.length w := by
  simp only [pad, List.length_append, List.length_replicate]
  omega

theorem length_pad_text {w : ℕ} {c : α} (s : Text w c) : (pad w c s.text).length = w := by
  rw [length_pad, max_eq_right s.fits]

theorem pad_eq_self {w : ℕ} {s : List α} (h : w ≤ s.length) (c : α) : pad w c s = s := by
  rw [pad, Nat.sub_eq_zero_of_le h, List.replicate_zero, List.append_nil]

theorem take_pad_append {w : ℕ} {s : List α} (h : s.length ≤ w) (c : α) (t : List α) :
    (pad w c s ++ t).take w = pad w c s := by
  have hlen : (pad w c s).length = w := by rw [length_pad, max_eq_right h]
  exact List.take_left' hlen

section Scan

variable [DecidableEq α]

/-- The symbols before the first `c`, at most `w` of them. -/
def scan (w : ℕ) (c : α) (l : List α) : List α := (l.take w).takeWhile (· != c)

/-- A field survives exactly when it fits its width and is free of padding symbols. -/
theorem scan_pad_eq_iff (w : ℕ) (c : α) (s t : List α) :
    scan w c (pad w c s ++ t) = s ↔ c ∉ s ∧ s.length ≤ w := by
  constructor
  · intro h
    refine ⟨fun hc => ?_, ?_⟩
    -- nothing the scan returns is a padding symbol
    · rw [← h] at hc
      have hne := List.mem_takeWhile_imp hc
      simp at hne
    · calc s.length = (scan w c (pad w c s ++ t)).length := by rw [h]
        _ ≤ ((pad w c s ++ t).take w).length := (List.takeWhile_prefix _).length_le
        _ ≤ w := List.length_take_le _ _
  · rintro ⟨hc, hl⟩
    -- the scan runs through `s` and stops at the first padding symbol or at the width
    rw [scan, take_pad_append hl, pad, List.takeWhile_append_of_pos]
    · simp
    · intro a ha
      simpa using ne_of_mem_of_not_mem ha hc

/-- What is read back is never more than was written. -/
theorem scan_pad_isPrefix (w : ℕ) (c : α) (s t : List α) : scan w c (pad w c s ++ t) <+: s := by
  rcases Nat.le_total w s.length with hlong | hshort
  · rw [pad_eq_self hlong, scan, List.take_append_of_le_length hlong]
    exact (List.takeWhile_prefix _).trans (List.take_prefix ..)
  · -- none of the padding is read back
    have hstop : (List.replicate (w - s.length) c).takeWhile (· != c) = [] := by
      cases w - s.length with
      | zero => rfl
      | succ k => simp [List.replicate_succ]
    rw [scan, take_pad_append hshort, pad, List.takeWhile_append, hstop, List.append_nil]
    split_ifs
    · exact List.prefix_refl s
    · exact List.takeWhile_prefix _

theorem scan_pad_text {w : ℕ} {c : α} (s : Text w c) (t : List α) :
    scan w c (pad w c s.text ++ t) = s.text :=
  (scan_pad_eq_iff w c s.text t).mpr ⟨s.clean, s.fits⟩

theorem length_scan_le (w : ℕ) (c : α) (l : List α) : (scan w c l).length ≤ w :=
  (List.takeWhile_prefix _).length_le.trans (List.length_take_le _ _)

theorem not_mem_scan (w : ℕ) (c : α) (l : List α) : c ∉ scan w c l := by
  intro h
  have hne := List.mem_takeWhile_imp h
  simp at hne

end Scan

end PaddedField
