import Mathlib.Data.List.GetD
import Mathlib.Tactic.Linarith

/-! Byte strings and the numbers that are printed into them. -/
namespace LearningDirectory

abbrev Byte := UInt8
abbrev Bytes := List Byte

def ascii (cs : List Char) : Bytes := cs.map fun c => UInt8.ofNat c.toNat

/-- What `ss<<n` prints for an unsigned number. -/
def decimal (n : ℕ) : Bytes := ascii (Nat.toDigits 10 n)

theorem length_decimal_le {n k : ℕ} (hk : 0 < k) : (decimal n).length ≤ k ↔ n < 10^k := by
  rw [decimal, ascii, List.length_map]
  exact Nat.length_toDigits_le_iff (by decide) hk

theorem length_decimal_five {n : ℕ} (hn : n < 65536) : (decimal n).length = 5 ↔ 10000 ≤ n := by
  have h4 := length_decimal_le (n := n) (k := 4) (by decide)
  have h5 := length_decimal_le (n := n) (k := 5) (by decide)
  omega

end LearningDirectory
