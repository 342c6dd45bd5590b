import Mathlib.Data.List.Basic
import Mathlib.Tactic.SplitIfs

/-! A file opened for reading and appending through one stream. The calls set the state
bits of the stream, nothing clears them, and a stream with a bit set does nothing more. -/
namespace FileStream

structure FStream (β : Type*) where
  content : List β
  pos : ℕ := 0
  eofbit : Bool := false
  failbit : Bool := false

variable {β : Type*}

def FStream.good (f : FStream β) : Bool := !f.eofbit && !f.failbit

/-- What lies between the position and the end of the file. -/
def FStream.rest (f : FStream β) : List β := f.content.drop f.pos

/-- The next byte, which stays in the stream; none is `EOF`. -/
def FStream.peek (f : FStream β) : Option β × FStream β :=
  if f.good then
    match f.rest with
    | b :: _ => (some b, f)
    | [] => (none, { f with eofbit := true })
  else (none, { f with failbit := true })

def FStream.read (f : FStream β) : Option β × FStream β :=
  if f.good then
    match f.rest with
    | b :: _ => (some b, { f with pos := f.pos+1 })
    | [] => (none, { f with eofbit := true, failbit := true })
  else (none, { f with failbit := true })

def FStream.write (f : FStream β) (b : β) : FStream β :=
  -- wherever the position was, an appended byte moves it to the end
  if f.good then { f with content := f.content ++ [b], pos := f.content.length+1 }
  else { f with failbit := true }

def FStream.tellg (f : FStream β) : FStream β :=
  if f.good then f else { f with failbit := true }

theorem good_fail (f : FStream β) : FStream.good { f with failbit := true } = false := by
  simp [FStream.good]

theorem good_eof (f : FStream β) : FStream.good { f with eofbit := true } = false := by
  simp [FStream.good]

theorem peek_content (f : FStream β) : f.peek.2.content = f.content := by
  unfold FStream.peek
  split_ifs
  · split <;> rfl
  · rfl

theorem peek_rest (f : FStream β) : f.peek.2.rest = f.rest := by
  unfold FStream.peek
  split_ifs
  · split <;> rfl
  · rfl

theorem tellg_content (f : FStream β) : f.tellg.content = f.content := by
  unfold FStream.tellg
  split_ifs <;> rfl

theorem tellg_rest (f : FStream β) : f.tellg.rest = f.rest := by
  unfold FStream.tellg
  split_ifs <;> rfl

theorem tellg_good (f : FStream β) : f.tellg.good = f.good := by
  unfold FStream.tellg
  split_ifs with h
  · rfl
  · rw [good_fail, Bool.eq_false_iff.mpr h]

theorem peek_isSome (f : FStream β) : f.peek.1.isSome ↔ f.good ∧ f.rest ≠ [] := by
  unfold FStream.peek
  split_ifs with h
  · split <;> simp_all
  · simp [h]

/-- A poll at the end of the file is what spoils a good stream. -/
theorem peek_good (f : FStream β) : f.peek.2.good ↔ f.good ∧ f.rest ≠ [] := by
  unfold FStream.peek
  split_ifs with h
  · split
    · simp_all
    · simp_all [good_eof]
  · simp [h, good_fail]

theorem read_next {f : FStream β} {b : β} {bs : List β} (hgood : f.good) (hrest : f.rest = b :: bs) :
    f.read = (some b, { f with pos := f.pos+1 }) ∧
      FStream.rest { f with pos := f.pos+1 } = bs := by
  refine ⟨by rw [FStream.read, if_pos hgood, hrest], ?_⟩
  rw [FStream.rest, ← List.drop_drop]
  exact (congrArg (List.drop 1) hrest)

theorem write_good {f : FStream β} (hgood : f.good) (b : β) :
    (f.write b).content = f.content ++ [b] ∧ (f.write b).good := by
  rw [FStream.write, if_pos hgood]
  exact ⟨rfl, hgood⟩

theorem write_bad {f : FStream β} (hgood : f.good = false) (b : β) :
    (f.write b).content = f.content ∧ (f.write b).good = false := by
  rw [FStream.write, if_neg (by simp [hgood])]
  exact ⟨rfl, good_fail f⟩

end FileStream
