import LearningDirectory.HttpServer

/-! `writen` with the counters of the machine: `nleft` is a `size_t`, and `nwritten` and the
result are of type `ssize_t`. -/
namespace LearningDirectory

/-- No array is larger than `PTRDIFF_MAX`. -/
structure Buffer where
  bytes : Bytes
  length_lt : bytes.length < 2^63

def Buffer.n (vptr : Buffer) : UInt64 := UInt64.ofNat vptr.bytes.length

/-- What the `i`-th `write` returns when it is asked for `nleft` bytes. -/
def writeResult (writes : ℕ → Int64) (i : ℕ) (nleft : UInt64) : Int64 :=
  -- no `write` reports more than it was asked for
  if writes i ≤ nleft.toInt64 then writes i else nleft.toInt64

structure WritenVars where
  nleft : UInt64
  /-- counted from `vptr` -/
  ptr : ℕ := 0
  /-- the `write`s so far, and what the descriptor has accepted -/
  calls : ℕ := 0
  accepted : Bytes := []

/-- A `write` has taken `k` bytes from `ptr` on. -/
def WritenVars.advance (s : WritenVars) (vptr : Buffer) (k : UInt64) : WritenVars :=
  { nleft := s.nleft - k
    ptr := s.ptr + k.toNat
    calls := s.calls+1
    accepted := s.accepted ++ (vptr.bytes.drop s.ptr).take k.toNat }

structure WritenEnd where
  value : Int64
  calls : ℕ
  accepted : Bytes

def writenFuel (writes : ℕ → Int64) (vptr : Buffer) : ℕ → WritenVars → Option WritenEnd
  | 0, _ => none
  | fuel+1, s =>
    if 0 < s.nleft then
      let nwritten := writeResult writes s.calls s.nleft
      if nwritten ≤ 0 then
        some { value := nwritten, calls := s.calls+1, accepted := s.accepted }
      else writenFuel writes vptr fuel (s.advance vptr nwritten.toUInt64)
    else some { value := vptr.n.toInt64, calls := s.calls, accepted := s.accepted }

theorem Buffer.toNat_n (vptr : Buffer) : vptr.n.toNat = vptr.bytes.length := by
  apply UInt64.toNat_ofNat_of_lt'
  exact vptr.length_lt.trans (by decide)

theorem toInt_toInt64 {x : UInt64} (h : x.toNat < 2^63) : x.toInt64.toInt = x.toNat :=
  calc
    x.toInt64.toInt = (UInt64.ofNat x.toNat).toInt64.toInt := by rw [UInt64.ofNat_toNat]
    _ = (Int64.ofNat x.toNat).toInt := by rw [UInt64.toInt64_ofNat']
    _ = x.toNat := Int64.toInt_ofNat_of_lt h

theorem toInt_writeResult (writes : ℕ → Int64) (i : ℕ) {nleft : UInt64}
    (h : nleft.toNat < 2^63) :
    (writeResult writes i nleft).toInt = min (writes i).toInt nleft.toNat := by
  rw [writeResult, apply_ite Int64.toInt, ← toInt_toInt64 h, min_def]
  exact if_congr Int64.le_iff_toInt_le rfl rfl

/-- A positive result, as the machine subtracts it. -/
theorem toNat_writeResult (writes : ℕ → Int64) (i : ℕ) {nleft : UInt64}
    (h : nleft.toNat < 2^63) (hpos : ¬ writeResult writes i nleft ≤ 0) :
    0 < (writeResult writes i nleft).toUInt64.toNat ∧
      (writeResult writes i nleft).toUInt64.toNat ≤ nleft.toNat ∧
      ((writeResult writes i nleft).toUInt64.toNat : ℤ) = (writeResult writes i nleft).toInt := by
  have hint := toInt_writeResult writes i h
  have hpos' : 0 < (writeResult writes i nleft).toInt := by
    rw [Int64.le_iff_toInt_le] at hpos
    exact not_le.mp hpos
  have hnonneg : 0 ≤ writeResult writes i nleft := Int64.le_iff_toInt_le.mpr hpos'.le
  have hcast : ((writeResult writes i nleft).toUInt64.toNat : ℤ) =
      (writeResult writes i nleft).toInt := by
    rw [Int64.toNat_toUInt64_of_le hnonneg, Int64.cast_toNatClampNeg _ hnonneg]
  omega

/-- The remaining count, the pointer and what has been accepted agree. -/
structure WritenOk (vptr : Buffer) (s : WritenVars) : Prop where
  count : s.nleft.toNat + s.ptr = vptr.bytes.length
  accepted : s.accepted = vptr.bytes.take s.ptr
  calls : s.calls ≤ s.ptr

theorem writenOk_start (vptr : Buffer) : WritenOk vptr { nleft := vptr.n } where
  count := vptr.toNat_n
  accepted := rfl
  calls := le_rfl

theorem toNat_sub_advance {s : WritenVars} {k : UInt64} (hle : k.toNat ≤ s.nleft.toNat)
    (vptr : Buffer) : (s.advance vptr k).nleft.toNat = s.nleft.toNat - k.toNat :=
  UInt64.toNat_sub_of_le _ _ (UInt64.le_iff_toNat_le.mpr hle)

theorem writenOk_advance {vptr : Buffer} {s : WritenVars} {k : UInt64} (h : WritenOk vptr s)
    (hpos : 0 < k.toNat) (hle : k.toNat ≤ s.nleft.toNat) : WritenOk vptr (s.advance vptr k) where
  count := by
    have hcount := h.count
    -- the subtraction does not wrap
    rw [toNat_sub_advance hle vptr]
    simp only [WritenVars.advance]
    omega
  accepted := by
    simp only [WritenVars.advance, h.accepted]
    exact List.take_add.symm
  calls := by
    have hcalls := h.calls
    simp only [WritenVars.advance]
    omega

/-- All has been accepted. -/
structure Complete (vptr : Buffer) (w : WritenEnd) : Prop where
  value : w.value = vptr.n.toInt64
  accepted : w.accepted = vptr.bytes
  calls : w.calls ≤ vptr.bytes.length

/-- The last `write` took nothing, with a byte or more left. -/
structure Stopped (writes : ℕ → Int64) (vptr : Buffer) (w : WritenEnd) : Prop where
  called : 0 < w.calls
  calls : w.calls ≤ vptr.bytes.length
  accepted : w.accepted <+: vptr.bytes
  short : w.accepted.length < vptr.bytes.length
  value : w.value =
    writeResult writes (w.calls-1) (UInt64.ofNat (vptr.bytes.length - w.accepted.length))
  nothing : w.value ≤ 0

theorem complete_of_nleft {vptr : Buffer} {s : WritenVars} (h : WritenOk vptr s)
    (hzero : s.nleft.toNat = 0) :
    Complete vptr { value := vptr.n.toInt64, calls := s.calls, accepted := s.accepted } := by
  have hcount := h.count
  have hptr : s.ptr = vptr.bytes.length := by omega
  refine ⟨rfl, ?_, ?_⟩
  · rw [h.accepted, hptr, List.take_length]
  · exact h.calls.trans hptr.le

theorem stopped_of_result {writes : ℕ → Int64} {vptr : Buffer} {s : WritenVars}
    (h : WritenOk vptr s) (hpos : 0 < s.nleft.toNat)
    (hfail : writeResult writes s.calls s.nleft ≤ 0) :
    Stopped writes vptr
      { value := writeResult writes s.calls s.nleft, calls := s.calls+1, accepted := s.accepted } := by
  have hcount := h.count
  have hcalls := h.calls
  have hlength : s.accepted.length = s.ptr := by
    rw [h.accepted, List.length_take]
    omega
  have hnleft : s.nleft = UInt64.ofNat (vptr.bytes.length - s.accepted.length) := by
    rw [hlength, ← hcount, Nat.add_sub_cancel, UInt64.ofNat_toNat]
  refine ⟨Nat.succ_pos _, ?_, ?_, ?_, ?_, hfail⟩
  · show s.calls + 1 ≤ _
    omega
  · show s.accepted <+: _
    rw [h.accepted]
    exact List.take_prefix ..
  · show s.accepted.length < _
    omega
  · rw [Nat.add_sub_cancel, ← hnleft]

theorem writenFuel_ends (writes : ℕ → Int64) {vptr : Buffer} {s : WritenVars} {fuel : ℕ}
    (h : WritenOk vptr s) (hfuel : s.nleft.toNat < fuel) :
    ∃ w, writenFuel writes vptr fuel s = some w ∧ (Complete vptr w ∨ Stopped writes vptr w) := by
  -- on the rounds left: each that goes on takes a byte or more
  induction fuel generalizing s with
  | zero => exact absurd hfuel (Nat.not_lt_zero _)
  | succ fuel ih =>
    -- the remaining count is the same number as an `ssize_t`
    have hlt : s.nleft.toNat < 2^63 := by
      have hcount := h.count
      have hsize := vptr.length_lt
      omega
    rw [writenFuel]
    by_cases hpos : 0 < s.nleft
    · rw [if_pos hpos]
      by_cases hfail : writeResult writes s.calls s.nleft ≤ 0
      · rw [if_pos hfail]
        exact ⟨_, rfl, Or.inr (stopped_of_result h (UInt64.lt_iff_toNat_lt.mp hpos) hfail)⟩
      · -- the rest is shorter by what this `write` took
        obtain ⟨hk, hle, -⟩ := toNat_writeResult writes s.calls hlt hfail
        rw [if_neg hfail]
        apply ih (writenOk_advance h hk hle)
        rw [toNat_sub_advance hle]
        omega
    · rw [if_neg hpos]
      refine ⟨_, rfl, Or.inl (complete_of_nleft h ?_)⟩
      exact Nat.eq_zero_of_not_pos fun hlt => hpos (UInt64.lt_iff_toNat_lt.mpr hlt)

/-- With these counters the loop does what it does over lengths, in as many `write`s. -/
theorem writenFuel_writenLoop (writes : ℕ → Int64) {vptr : Buffer} {s : WritenVars} {fuel : ℕ}
    (h : WritenOk vptr s) (hfuel : s.nleft.toNat < fuel) :
    ∃ w rest, writenFuel writes vptr fuel s = some w ∧ w.accepted = s.accepted ++ rest ∧
      writenLoop (fun i => (writes i).toInt) vptr.bytes.length s.calls (vptr.bytes.drop s.ptr) =
        (w.value.toInt, rest) ∧
      w.calls =
        s.calls + writesMade (fun i => (writes i).toInt) s.calls (vptr.bytes.drop s.ptr) := by
  induction fuel generalizing s with
  | zero => exact absurd hfuel (Nat.not_lt_zero _)
  | succ fuel ih =>
    have hcount := h.count
    have hsize := vptr.length_lt
    have hlt : s.nleft.toNat < 2^63 := by omega
    have hlength : (vptr.bytes.drop s.ptr).length = s.nleft.toNat := by
      rw [List.length_drop]
      omega
    have hresult : min (writes s.calls).toInt s.nleft.toNat =
        (writeResult writes s.calls s.nleft).toInt := (toInt_writeResult writes s.calls hlt).symm
    -- the two loops test the same
    have hmore : 0 < s.nleft ↔ 0 < s.nleft.toNat := UInt64.lt_iff_toNat_lt
    have hstop : writeResult writes s.calls s.nleft ≤ 0 ↔
        (writeResult writes s.calls s.nleft).toInt ≤ 0 := Int64.le_iff_toInt_le
    rw [writenFuel, writenLoop, writesMade, hlength, hresult]
    by_cases hpos : 0 < s.nleft
    · rw [if_pos hpos, if_pos (hmore.mp hpos), if_pos (hmore.mp hpos)]
      by_cases hfail : writeResult writes s.calls s.nleft ≤ 0
      · rw [if_pos hfail, if_pos (hstop.mp hfail), if_pos (hstop.mp hfail)]
        exact ⟨_, [], rfl, (List.append_nil _).symm, rfl, rfl⟩
      · -- both go on from the same byte
        obtain ⟨hk, hle, hcast⟩ := toNat_writeResult writes s.calls hlt hfail
        rw [if_neg hfail, if_neg (mt hstop.mpr hfail), if_neg (mt hstop.mpr hfail), ← hcast,
          Int.toNat_natCast, List.drop_drop]
        have hnext := writenOk_advance h hk hle
        have hless : (s.advance vptr (writeResult writes s.calls s.nleft).toUInt64).nleft.toNat <
            fuel := by
          rw [toNat_sub_advance hle]
          omega
        obtain ⟨w, rest, hw, haccepted, hloop, hcalls⟩ := ih hnext hless
        simp only [WritenVars.advance] at hloop haccepted hcalls
        rw [hloop]
        refine ⟨w, _, hw, by rw [haccepted, List.append_assoc], rfl, ?_⟩
        rw [hcalls, Nat.add_assoc, Nat.add_comm 1]
    · rw [if_neg hpos, if_neg (mt hmore.mpr hpos), if_neg (mt hmore.mpr hpos)]
      refine ⟨_, [], rfl, (List.append_nil _).symm, Prod.ext ?_ rfl, rfl⟩
      rw [← vptr.toNat_n] at hsize ⊢
      exact (toInt_toInt64 hsize).symm

/-- The loop ends within the fuel of the buffer's length and one. What was accepted is a
prefix, the value is the length exactly when that is all, and otherwise it is the result of
the `write` that stopped the loop. The loop over lengths gives the same, in as many `write`s. -/
theorem writen_exact (writes : ℕ → Int64) (vptr : Buffer) :
    ∃ w, writenFuel writes vptr (vptr.bytes.length+1) { nleft := vptr.n } = some w ∧
      w.calls ≤ vptr.bytes.length+1 ∧ w.accepted <+: vptr.bytes ∧
      (w.value.toInt = vptr.bytes.length ↔ w.accepted = vptr.bytes) ∧
      (w.accepted ≠ vptr.bytes → 0 < w.calls ∧ w.value ≤ 0 ∧ w.value =
        writeResult writes (w.calls-1) (UInt64.ofNat (vptr.bytes.length - w.accepted.length))) ∧
      writen (fun i => (writes i).toInt) vptr.bytes = (w.value.toInt, w.accepted) ∧
      w.calls = writesMade (fun i => (writes i).toInt) 0 vptr.bytes := by
  have hok := writenOk_start vptr
  have hfuel : ({ nleft := vptr.n } : WritenVars).nleft.toNat < vptr.bytes.length+1 :=
    Nat.lt_succ_of_le vptr.toNat_n.le
  obtain ⟨w, hw, hend⟩ := writenFuel_ends writes hok hfuel
  obtain ⟨w', rest, hw', haccepted, hloop, hcalls⟩ := writenFuel_writenLoop writes hok hfuel
  obtain rfl : w = w' := Option.some.inj (hw.symm.trans hw')
  have hwriten : writen (fun i => (writes i).toInt) vptr.bytes = (w.value.toInt, w.accepted) := by
    rw [haccepted]
    exact hloop
  have hmade : w.calls = writesMade (fun i => (writes i).toInt) 0 vptr.bytes :=
    hcalls.trans (Nat.zero_add _)
  rcases hend with hall | hstop
  · have hvalue : w.value.toInt = vptr.bytes.length := by
      have hsize := vptr.length_lt
      rw [← vptr.toNat_n] at hsize ⊢
      rw [hall.value, toInt_toInt64 hsize]
    refine ⟨w, hw, Nat.le_succ_of_le hall.calls, ?_, iff_of_true hvalue hall.accepted, ?_, hwriten,
      hmade⟩
    · exact hall.accepted ▸ List.prefix_refl _
    · exact fun hne => absurd hall.accepted hne
  · -- what stopped the loop is not positive, and so is not the length
    have hshort := hstop.short
    have hnothing := Int64.le_iff_toInt_le.mp hstop.nothing
    have hpart : w.accepted ≠ vptr.bytes := fun heq => hshort.ne (congrArg List.length heq)
    have hvalue : w.value.toInt ≠ vptr.bytes.length := by
      have hzero : (0 : Int64).toInt = 0 := rfl
      omega
    refine ⟨w, hw, Nat.le_succ_of_le hstop.calls, hstop.accepted, iff_of_false hvalue hpart, ?_,
      hwriten, hmade⟩
    exact fun _ => ⟨hstop.called, hstop.nothing, hstop.value⟩

def responseBuffer : Buffer where
  bytes := response
  length_lt := by decide +kernel

theorem response_in_hundreds :
    ∃ w, writenFuel (fun _ => 100) responseBuffer (responseBuffer.bytes.length+1)
        { nleft := responseBuffer.n } = some w ∧
      w.accepted = response ∧ w.calls ≤ response.length+1 := by
  have hvalue : ∀ w ∈ writenFuel (fun _ => 100) responseBuffer (responseBuffer.bytes.length+1)
      { nleft := responseBuffer.n }, w.value.toInt = response.length := by
    decide +kernel
  obtain ⟨w, hw, hcalls, -, hexact, -⟩ := writen_exact (fun _ => 100) responseBuffer
  exact ⟨w, hw, hexact.mp (hvalue w hw), hcalls⟩

end LearningDirectory
