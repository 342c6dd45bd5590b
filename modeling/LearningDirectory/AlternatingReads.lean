import Mathlib.Data.List.Basic
import Mathlib.Order.Monotone.Basic
import Mathlib.Tactic.Ring

/-! A byte stream taken in by reads that ask in turn for `a` and for `b` symbols.
A read returns a nonempty chunk no longer than what was asked for. -/
namespace AlternatingReads

variable {α : Type*}

/-- No chunk is longer than what its read asked for. -/
def Fits : ℕ → ℕ → List (List α) → Prop
  | _, _, [] => True
  | a, b, c :: cs => c.length ≤ a ∧ Fits b a cs

/-- Every chunk is as long as what its read asked for. -/
def Full : ℕ → ℕ → List (List α) → Prop
  | _, _, [] => True
  | a, b, c :: cs => c.length = a ∧ Full b a cs

instance decidableFull : (a b : ℕ) → (cs : List (List α)) → Decidable (Full a b cs)
  | _, _, [] => isTrue trivial
  | a, b, c :: cs =>
    have := decidableFull b a cs
    inferInstanceAs (Decidable (c.length = a ∧ Full b a cs))

/-- The chunks are a way of delivering the stream. -/
structure Delivers (a b : ℕ) (cs : List (List α)) (stream : List α) : Prop where
  joins : cs.flatten = stream
  nonempty : ∀ c ∈ cs, c ≠ []
  fits : Fits a b cs

/-- What the first `k` reads ask for in all. -/
def asked : ℕ → ℕ → ℕ → ℕ
  | _, _, 0 => 0
  | a, b, k+1 => a + asked b a k

theorem asked_even (a b k : ℕ) : asked a b (2*k) = (a+b)*k := by
  induction k with
  | zero => rfl
  | succ k ih =>
    rw [show 2*(k+1) = 2*k+1+1 by ring, asked, asked, ih]
    ring

theorem asked_strictMono (a b : ℕ) [NeZero a] [NeZero b] : StrictMono (asked a b) := by
  apply strictMono_nat_of_lt_succ
  intro k
  induction k generalizing a b with
  | zero => simpa only [asked, Nat.add_zero] using NeZero.pos a
  | succ k ih => exact Nat.add_lt_add_left (ih b a) a

theorem length_flatten_le (a b : ℕ) (cs : List (List α)) (h : Fits a b cs) :
    cs.flatten.length ≤ asked a b cs.length := by
  induction cs generalizing a b with
  | nil => exact Nat.le_refl 0
  | cons c cs ih =>
    rw [List.flatten_cons, List.length_append]
    exact Nat.add_le_add h.1 (ih b a h.2)

theorem full_iff_length (a b : ℕ) (cs : List (List α)) (h : Fits a b cs) :
    Full a b cs ↔ cs.flatten.length = asked a b cs.length := by
  induction cs generalizing a b with
  | nil => exact iff_of_true trivial rfl
  | cons c cs ih =>
    have hle := length_flatten_le b a cs h.2
    have hc := h.1
    -- neither the first chunk nor the rest can make up for what the other lacks
    rw [List.flatten_cons, List.length_append, List.length_cons, asked, Full, ih b a h.2]
    omega

section Same

variable {w : ℕ} {cs : List (List α)}

theorem fits_same : Fits w w cs ↔ ∀ c ∈ cs, c.length ≤ w := by
  induction cs with
  | nil => exact iff_of_true trivial (List.forall_mem_nil _)
  | cons c cs ih => rw [Fits, ih, List.forall_mem_cons]

theorem full_same : Full w w cs ↔ ∀ c ∈ cs, c.length = w := by
  induction cs with
  | nil => exact iff_of_true trivial (List.forall_mem_nil _)
  | cons c cs ih => rw [Full, ih, List.forall_mem_cons]

theorem asked_same (w k : ℕ) : asked w w k = w * k := by
  induction k with
  | zero => rfl
  | succ k ih => rw [asked, ih, Nat.mul_succ, Nat.add_comm]

end Same

section Positive

variable {a b : ℕ} [NeZero a] [NeZero b]

/-- A stream of `n` periods needs `2 n` reads, and no more only when none is short. -/
theorem full_iff_reads {n : ℕ} {cs : List (List α)} (h : Fits a b cs)
    (hlen : cs.flatten.length = (a+b)*n) : Full a b cs ↔ cs.length = 2*n := by
  rw [full_iff_length a b cs h, hlen, ← asked_even, (asked_strictMono a b).injective.eq_iff]
  exact eq_comm

theorem reads_le {n : ℕ} {cs : List (List α)} (h : Fits a b cs)
    (hlen : cs.flatten.length = (a+b)*n) : 2*n ≤ cs.length := by
  have hle := length_flatten_le a b cs h
  rw [hlen, ← asked_even] at hle
  exact (asked_strictMono a b).le_iff_le.mp hle

/-- There is only one way of delivering a stream without a short read. -/
theorem full_unique {cs ds : List (List α)} (hc : Full a b cs) (hd : Full a b ds)
    (h : cs.flatten = ds.flatten) : cs = ds := by
  have ha := NeZero.pos a
  -- the asking alternates, so the induction is for both orders of `a` and `b`
  induction cs generalizing a b ds with
  | nil =>
    cases ds with
    | nil => rfl
    | cons d ds =>
      have hl := congrArg List.length h
      rw [List.flatten_nil, List.flatten_cons, List.length_append, hd.1, List.length_nil] at hl
      omega
  | cons c cs ih =>
    cases ds with
    | nil =>
      have hl := congrArg List.length h
      rw [List.flatten_nil, List.flatten_cons, List.length_append, hc.1, List.length_nil] at hl
      omega
    | cons d ds =>
      rw [List.flatten_cons, List.flatten_cons] at h
      obtain ⟨rfl, ht⟩ := List.append_inj h (hc.1.trans hd.1.symm)
      rw [ih hc.2 hd.2 ht (NeZero.pos b)]

end Positive

/-- Reads that return all they ask for while symbols remain, at most `fuel` of them. -/
def reads : ℕ → ℕ → ℕ → List α → List (List α)
  | _, _, 0, _ => []
  | _, _, _+1, [] => []
  | a, b, fuel+1, x :: l => (x :: l).take a :: reads b a fuel ((x :: l).drop a)

/-- The uncut delivery of a stream. -/
def uncut (a b : ℕ) (stream : List α) : List (List α) := reads a b stream.length stream

theorem reads_nil (a b fuel : ℕ) : reads a b fuel ([] : List α) = [] := by
  cases fuel <;> rfl

section Positive

variable {a b : ℕ} [NeZero a] [NeZero b]

theorem reads_fuel {m n : ℕ} {l : List α} (hm : l.length ≤ m) (hn : l.length ≤ n) :
    reads a b m l = reads a b n l := by
  induction m generalizing a b n l with
  | zero =>
    obtain rfl := List.length_eq_zero_iff.mp (Nat.le_zero.mp hm)
    rw [reads_nil, reads_nil]
  | succ m ih =>
    cases l with
    | nil => rw [reads_nil, reads_nil]
    | cons x l =>
      cases n with
      | zero => simp at hn
      | succ n =>
        have ha := NeZero.pos a
        have hd : ((x :: l).drop a).length ≤ l.length := by
          rw [List.length_drop, List.length_cons]
          omega
        simp only [List.length_cons] at hm hn
        rw [reads, reads, ih (n := n) (by omega) (by omega)]

theorem uncut_append {s t : List α} (hs : s.length = a) :
    uncut a b (s ++ t) = s :: uncut b a t := by
  have ha := NeZero.pos a
  cases s with
  | nil =>
    rw [List.length_nil] at hs
    omega
  | cons x s =>
    have hfuel : t.length ≤ (s ++ t).length := by
      rw [List.length_append]
      omega
    rw [uncut, List.cons_append, List.length_cons, reads, ← List.cons_append,
      List.take_left' hs, List.drop_left' hs, reads_fuel hfuel (Nat.le_refl _), uncut]

theorem reads_delivers {fuel : ℕ} {l : List α} (hl : l.length ≤ fuel) :
    Delivers a b (reads a b fuel l) l := by
  induction fuel generalizing a b l with
  | zero =>
    obtain rfl := List.length_eq_zero_iff.mp (Nat.le_zero.mp hl)
    exact ⟨rfl, List.forall_mem_nil _, trivial⟩
  | succ fuel ih =>
    cases l with
    | nil => exact ⟨rfl, List.forall_mem_nil _, trivial⟩
    | cons x l =>
      have ha := NeZero.pos a
      have hd : ((x :: l).drop a).length ≤ fuel := by
        rw [List.length_drop]
        omega
      have hrest : Delivers b a (reads b a fuel ((x :: l).drop a)) ((x :: l).drop a) := ih hd
      refine ⟨?_, ?_, List.length_take_le _ _, hrest.fits⟩
      · rw [reads, List.flatten_cons, hrest.joins, List.take_append_drop]
      · intro c hc
        rcases List.mem_cons.mp hc with rfl | hc
        · simp only [ne_eq, List.take_eq_nil_iff, reduceCtorEq, or_false]
          omega
        · exact hrest.nonempty c hc

theorem uncut_delivers (stream : List α) : Delivers a b (uncut a b stream) stream :=
  reads_delivers (Nat.le_refl _)

theorem uncut_ne_nil {stream : List α} (h : stream ≠ []) : uncut a b stream ≠ [] := by
  intro hnil
  have hjoins := (uncut_delivers (a := a) (b := b) stream).joins
  rw [hnil] at hjoins
  exact h hjoins.symm

/-- On whole periods no uncut read is short. -/
theorem uncut_full {n : ℕ} {stream : List α} (h : stream.length = (a+b)*n) :
    Full a b (uncut a b stream) := by
  induction n generalizing stream with
  | zero =>
    obtain rfl := List.length_eq_zero_iff.mp h
    exact trivial
  | succ n ih =>
    have hlen : stream.length = a+b+(a+b)*n := by rw [h]; ring
    have h1 : (stream.take a).length = a := by rw [List.length_take]; omega
    have h2 : ((stream.drop a).take b).length = b := by
      rw [List.length_take, List.length_drop]
      omega
    have h3 : ((stream.drop a).drop b).length = (a+b)*n := by
      rw [List.length_drop, List.length_drop]
      omega
    -- a period is two reads
    rw [← List.take_append_drop a stream, uncut_append h1,
      ← List.take_append_drop b (stream.drop a), uncut_append h2]
    exact ⟨h1, h2, ih h3⟩

end Positive

end AlternatingReads
