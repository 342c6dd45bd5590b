import LearningDirectory.NetapiMsg

/-! The padded fields of a message for strings of any length: the loop that pads, on an `int`
that the length may not fit, and the loop that reads the field back. -/
namespace LearningDirectory
open PaddedField

/-- `for(i=lo;i<hi;i++) { if(buf[i]=='#') break; out<<buf[i]; }` from `i` on, with `k` rounds
to go. -/
def scanRounds (buf : Bytes) : ℕ → ℕ → Bytes
  | _, 0 => []
  | i, k+1 =>
    match buf[i]? with
    | some b => if b = hash then [] else b :: scanRounds buf (i+1) k
    | none => []

/-- The loops of `parseHead` and `parseBody` round by round. -/
theorem scanLoop_eq_rounds (buf : Bytes) (lo k : ℕ) :
    scanLoop buf lo (lo+k) = scanRounds buf lo k := by
  rw [scanLoop, Nat.add_sub_cancel_left]
  -- on the rounds to go, each of which takes off the next byte
  induction k generalizing lo with
  | zero => rfl
  | succ k ih =>
    cases hlo : buf[lo]? with
    | none =>
      have hend : buf.drop lo = [] := List.drop_eq_nil_of_le (List.getElem?_eq_none_iff.mp hlo)
      rw [scanRounds, hlo, hend]
      rfl
    | some b =>
      obtain ⟨hlt, hb⟩ := List.getElem?_eq_some_iff.mp hlo
      rw [scanRounds, hlo, List.drop_eq_getElem_cons hlt, hb, scan, List.take_succ_cons,
        List.takeWhile_cons]
      by_cases hhash : b = hash
      · simp [hhash]
      · simp only [bne_iff_ne, ne_eq, hhash, not_false_eq_true, if_true, if_false]
        rw [← ih (lo+1), scan]

theorem sizeAsInt_eq (s : Bytes) : sizeAsInt s = Int.bmod s.length (2^32) := rfl

theorem padding_full {width : ℕ} {s : Bytes} (h : ¬ sizeAsInt s < width) :
    padding width s = s := by
  simp only [padding, if_neg h]

/-- A field that has been padded is as long as it should be, as far as the `int` tells. -/
theorem sizeAsInt_padding {width : ℕ} (hw : width < 2^31) {s : Bytes}
    (h : sizeAsInt s < width) : sizeAsInt (padding width s) = width := by
  have hlength : ((padding width s).length : ℤ) = s.length + (width - sizeAsInt s) := by
    simp only [padding, if_pos h, padLoop_eq, List.length_append, List.length_replicate]
    omega
  have hwidth : Int.bmod width (2^32) = width := by
    apply Int.bmod_eq_of_le_mul_two <;> push_cast <;> omega
  calc
    sizeAsInt (padding width s) = Int.bmod (s.length + (width - sizeAsInt s)) (2^32) := by
      rw [sizeAsInt_eq (padding width s), hlength]
    _ = Int.bmod (sizeAsInt s + (width - sizeAsInt s)) (2^32) := by
      rw [← Int.bmod_add_bmod, ← sizeAsInt_eq]
    _ = width := by rw [add_sub_cancel, hwidth]

/-- Also when the length has wrapped to a negative `int` and far too much was appended. -/
theorem padding_idem {width : ℕ} (hw : width < 2^31) (s : Bytes) :
    padding width (padding width s) = padding width s := by
  by_cases h : sizeAsInt s < width
  · apply padding_full
    rw [sizeAsInt_padding hw h]
    exact lt_irrefl _
  · rw [padding_full h, padding_full h]

/-- What is appended to a string that fills its field does not come into the scan. -/
theorem scan_padding {width : ℕ} (hw : width < 2^31) (s t : Bytes) :
    scan width hash (padding width s ++ t) = scan width hash (pad width hash s ++ t) := by
  rcases Nat.lt_or_ge s.length width with hshort | hlong
  · rw [padding_eq_pad width s (hshort.trans hw)]
  · obtain ⟨k, hk⟩ := padding_append width s
    rw [hk, pad_eq_self hlong, scan, scan, List.append_assoc,
      List.take_append_of_le_length hlong, List.take_append_of_le_length hlong]

/-- What becomes of a string `s` in a field of `width` bytes, with `before` in front of it in
the buffer and `t` behind it. -/
structure FieldOk (width : ℕ) (pad : Bytes → Bytes) (before s t : Bytes) : Prop where
  part : scanRounds (before ++ pad s ++ t) before.length width <+: s
  same_iff : scanRounds (before ++ pad s ++ t) before.length width = s ↔
    hash ∉ s ∧ s.length ≤ width
  kept : s <+: pad s
  twice : pad (pad s) = pad s

theorem fieldOk_padding {width : ℕ} (hw : width < 2^31) (before s t : Bytes) :
    FieldOk width (padding width) before s t := by
  have hscan : scanRounds (before ++ padding width s ++ t) before.length width =
      scan width hash (pad width hash s ++ t) := by
    rw [← scanLoop_eq_rounds, scanLoop, Nat.add_sub_cancel_left, List.append_assoc,
      List.drop_left, scan_padding hw]
  refine ⟨?_, ?_, ?_, padding_idem hw s⟩
  · rw [hscan]
    exact scan_pad_isPrefix width hash s t
  · rw [hscan]
    exact scan_pad_eq_iff width hash s t
  · obtain ⟨k, hk⟩ := padding_append width s
    rw [hk]
    exact List.prefix_append ..

/-- Addresses, names and bodies: what is read back is a part of what was put in, and all of it
exactly when it has no `#` and fits. -/
theorem padded_fields (before s t : Bytes) :
    FieldOk 15 ipPadding before s t ∧ FieldOk 8 namePadding before s t ∧
      FieldOk 40 bodyPadding before s t :=
  ⟨fieldOk_padding (by decide) before s t, fieldOk_padding (by decide) before s t,
    fieldOk_padding (by decide) before s t⟩

/-- What comes from a `#` on is lost. -/
example : parseBody (bodyPadding [104, 105, hash, 33]) = [104, 105] := by decide

end LearningDirectory
