import LearningDirectory.Bytes
import Mathlib.Data.Int.Notation
import Mathlib.Tactic.SplitIfs

/-! `readn`, `writen` and `set_fl` of the http server, over the results that the system
calls they make return one after another. -/
namespace LearningDirectory

/-- The value of a `read`: -1, or the number of bytes it stored. -/
def readValue : Option Bytes → ℤ
  | none => -1
  | some bytes => bytes.length

def storeAt (buf : Bytes) (pos : ℕ) (bytes : Bytes) : Bytes :=
  buf.take pos ++ bytes ++ buf.drop (pos + bytes.length)

def readnLoop (reads : ℕ → Option Bytes) (n i nleft : ℕ) (buf : Bytes) : ℤ × Bytes :=
  if 0 < nleft then
    let r := (reads i).map (List.take nleft)
    let buf := storeAt buf (n - nleft) (r.getD [])
    -- `(nread = read(fd, ptr, nleft) < 0)` assigns the comparison, not the count
    let nread : ℕ := if readValue r < 0 then 1 else 0
    if nread ≠ 0 then (nread, buf)
    else if nread = 0 then ((n - nleft : ℕ), buf)
    else readnLoop reads n (i+1) (nleft - nread) buf
  else ((n - nleft : ℕ), buf)
termination_by nleft
decreasing_by contradiction

/-- The returned value, and what the array holds afterwards. -/
def readn (reads : ℕ → Option Bytes) (vptr : Bytes) (n : ℕ) : ℤ × Bytes :=
  readnLoop reads n 0 n vptr

/-- `ptr` is the rest of the buffer, so `nleft` is its length. -/
def writenLoop (writes : ℕ → ℤ) (n i : ℕ) (ptr : Bytes) : ℤ × Bytes :=
  if 0 < ptr.length then
    -- no `write` reports more than it was asked for
    let nwritten := min (writes i) ptr.length
    if nwritten ≤ 0 then (nwritten, [])
    else
      let rest := writenLoop writes n (i+1) (ptr.drop nwritten.toNat)
      (rest.1, ptr.take nwritten.toNat ++ rest.2)
  else (n, [])
termination_by ptr.length
decreasing_by
  rw [List.length_drop]
  omega

def writen (writes : ℕ → ℤ) (vptr : Bytes) : ℤ × Bytes := writenLoop writes vptr.length 0 vptr

/-- The number of `write`s that the loop makes, the one that stops it included. -/
def writesMade (writes : ℕ → ℤ) (i : ℕ) (ptr : Bytes) : ℕ :=
  if 0 < ptr.length then
    let nwritten := min (writes i) ptr.length
    if nwritten ≤ 0 then 1
    else writesMade writes (i+1) (ptr.drop nwritten.toNat) + 1
  else 0
termination_by ptr.length
decreasing_by
  rw [List.length_drop]
  omega

/-- One of the `write`s that `writen` makes returns -1. -/
def WriteFails (writes : ℕ → ℤ) (vptr : Bytes) : Prop :=
  ∃ i, i < writesMade writes 0 vptr ∧ writes i = -1

instance (writes : ℕ → ℤ) (vptr : Bytes) : Decidable (WriteFails writes vptr) :=
  inferInstanceAs (Decidable (∃ i, i < _ ∧ _))

inductive FcntlCmd
  | getfl
  | setfl (val : ℕ)

def setFl (fcntl : FcntlCmd → ℤ) (flags : ℕ) : ℤ :=
  let val := fcntl .getfl
  if val < 0 then -1
  else if fcntl (.setfl (val.toNat ||| flags)) < 0 then -1
  else 0

/-- The loop makes one `read` at most: 0 and 1 are the only values of a comparison. -/
theorem readnLoop_eq (reads : ℕ → Option Bytes) (n i nleft : ℕ) (buf : Bytes) :
    readnLoop reads n i nleft buf =
      if 0 < nleft then
        (if (reads i).isNone then 1 else ((n - nleft : ℕ) : ℤ),
          storeAt buf (n - nleft) (((reads i).map (List.take nleft)).getD []))
      else ((n - nleft : ℕ), buf) := by
  unfold readnLoop
  cases hr : reads i with
  | none => simp [readValue]
  | some bytes => simp [readValue]

/-- No result of `read` makes `readn` negative: a failed `read` gives 1. -/
theorem readn_nonneg (reads : ℕ → Option Bytes) (vptr : Bytes) (n : ℕ) :
    0 ≤ (readn reads vptr n).1 := by
  rw [readn, readnLoop_eq]
  split_ifs
  -- a failed read, a read, and nothing asked for
  · exact Int.one_nonneg
  · exact Int.natCast_nonneg _
  · exact Int.natCast_nonneg _

/-- A `write` fails or takes at least a byte. There are no more of them than bytes. -/
def WriteResults (writes : ℕ → ℤ) (first amount : ℕ) : Prop :=
  ∀ i < amount, writes (first+i) = -1 ∨ 1 ≤ writes (first+i)

instance (writes : ℕ → ℤ) (first amount : ℕ) : Decidable (WriteResults writes first amount) :=
  inferInstanceAs (Decidable (∀ i < amount, _))

/-- With such results `writen` writes everything, or stops at the first failure. -/
theorem writenLoop_results {writes : ℕ → ℤ} {n i : ℕ} {ptr : Bytes}
    (h : WriteResults writes i ptr.length) :
    writenLoop writes n i ptr = ((n : ℤ), ptr) ∨
      ∃ written, written <+: ptr ∧ writenLoop writes n i ptr = (-1, written) ∧
        ∃ j, j < writesMade writes i ptr ∧ writes (i+j) = -1 := by
  fun_induction writenLoop writes n i ptr with
  | case1 i ptr hpos nwritten hfail =>
    have hfirst := h 0 hpos
    rw [Nat.add_zero] at hfirst
    have hvalue : nwritten = -1 := by omega
    refine Or.inr ⟨[], List.nil_prefix, by rw [hvalue], 0, ?_, ?_⟩
    · rw [writesMade, if_pos hpos, if_pos hfail]
      exact Nat.one_pos
    · rw [Nat.add_zero]
      omega
  | case2 i ptr hpos nwritten hok rest ih =>
    -- the rest is shorter by what this `write` took
    have htaken : 1 ≤ nwritten.toNat := by omega
    have hrest : WriteResults writes (i+1) (ptr.drop nwritten.toNat).length := by
      intro j hj
      rw [List.length_drop] at hj
      rw [Nat.add_assoc, Nat.add_comm 1]
      exact h (j+1) (by omega)
    have hptr : ptr.take nwritten.toNat ++ ptr.drop nwritten.toNat = ptr := List.take_append_drop ..
    rcases ih hrest with hall | ⟨written, hwritten, hfail, j, hj, hreturned⟩
    · have hall : rest = ((n : ℤ), ptr.drop nwritten.toNat) := hall
      rw [hall, hptr]
      exact Or.inl rfl
    · refine Or.inr ⟨ptr.take nwritten.toNat ++ written, ?_, ?_, j+1, ?_, ?_⟩
      · have hprefix := (List.prefix_append_right_inj (ptr.take nwritten.toNat)).mpr hwritten
        rwa [hptr] at hprefix
      · have hfail : rest = (-1, written) := hfail
        rw [hfail]
      · rw [writesMade, if_pos hpos, if_neg hok]
        exact Nat.succ_lt_succ hj
      · rwa [Nat.add_comm j, ← Nat.add_assoc]
  | case3 i ptr hnil =>
    have hempty : ptr = [] := List.length_eq_zero_iff.mp (Nat.eq_zero_of_not_pos hnil)
    exact Or.inl (by rw [hempty])

/-- `writen` gives -1 only when a `write` has. -/
theorem writen_results {writes : ℕ → ℤ} {vptr : Bytes} (h : WriteResults writes 0 vptr.length) :
    writen writes vptr = ((vptr.length : ℤ), vptr) ∨
      ∃ written, written <+: vptr ∧ writen writes vptr = (-1, written) ∧
        WriteFails writes vptr := by
  rcases writenLoop_results (n := vptr.length) h with
    hall | ⟨written, hpart, hfail, j, hj, hreturned⟩
  · exact Or.inl hall
  · rw [Nat.zero_add] at hreturned
    exact Or.inr ⟨written, hpart, hfail, j, hj, hreturned⟩

theorem setFl_neg {fcntl : FcntlCmd → ℤ} {flags : ℕ} :
    setFl fcntl flags < 0 ↔
      fcntl .getfl < 0 ∨ fcntl (.setfl ((fcntl .getfl).toNat ||| flags)) < 0 := by
  simp only [setFl]
  split_ifs with hget hset
  · simp [hget]
  · simp [hset]
  · simp [hget, hset]

end LearningDirectory
