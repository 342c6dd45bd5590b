import Mathlib.Data.List.Induction
import Mathlib.Data.List.Basic

/-! Runs of a labelled step function. A label that is not enabled gives `none`;
an invariant may speak of the labels taken so far as well as of the state. -/
namespace StepRun

variable {σ α : Type*} (step : σ → α → Option σ)

def run (s : σ) (as : List α) : Option σ := as.foldlM step s

/-- The states of a run, each paired with the label tried in it. -/
def trace : σ → List α → List (σ × α)
  | _, [] => []
  | s, a :: as => (s, a) :: (match step s a with
    | none => []
    | some t => trace t as)

/-- Every label of the run is tried in a state in which `G` admits it. -/
def Guarded (G : σ → α → Prop) (s : σ) (as : List α) : Prop :=
  ∀ p ∈ trace step s as, G p.1 p.2

instance (G : σ → α → Prop) [∀ s a, Decidable (G s a)] (s : σ) (as : List α) :
    Decidable (Guarded step G s as) :=
  inferInstanceAs (Decidable (∀ p ∈ trace step s as, G p.1 p.2))

/-- `P` holds of the labels and the state at every point of the run. -/
def Always (P : List α → σ → Prop) (s : σ) (as : List α) : Prop :=
  ∀ pre t, pre <+: as → run step s pre = some t → P pre t

theorem run_cons (s : σ) (a : α) (as : List α) :
    run step s (a :: as) = (step s a).bind fun t => run step t as := by
  simp only [run, List.foldlM_cons]
  rfl

theorem run_append (s : σ) (as bs : List α) :
    run step s (as ++ bs) = (run step s as).bind fun t => run step t bs := by
  simp only [run, List.foldlM_append]
  rfl

theorem run_append_one {s t : σ} {as : List α} {a : α} :
    run step s (as ++ [a]) = some t ↔ ∃ u, run step s as = some u ∧ step u a = some t := by
  have hone (u : σ) : run step u [a] = step u a := by
    rw [run_cons]
    cases step u a <;> rfl
  rw [run_append, Option.bind_eq_some_iff]
  simp only [hone]

theorem trace_append_one {s u : σ} {as : List α} (a : α) (h : run step s as = some u) :
    trace step s (as ++ [a]) = trace step s as ++ [(u, a)] := by
  induction as generalizing s with
  | nil =>
    obtain rfl : s = u := Option.some.inj h
    -- the last label is in the trace whether or not it is enabled
    simp only [trace, List.nil_append]
    cases step s a <;> rfl
  | cons b bs ih =>
    rw [run_cons] at h
    obtain ⟨t, ht, hr⟩ := Option.bind_eq_some_iff.mp h
    simp only [List.cons_append, trace, ht, ih hr]

theorem guarded_append_one {G : σ → α → Prop} {s u : σ} {as : List α} {a : α}
    (h : run step s as = some u) :
    Guarded step G s (as ++ [a]) ↔ Guarded step G s as ∧ G u a := by
  simp only [Guarded, trace_append_one step a h, List.forall_mem_append, List.mem_singleton,
    forall_eq]

theorem always_append_one {P : List α → σ → Prop} {s u : σ} {as : List α} {a : α}
    (h : run step s (as ++ [a]) = some u) :
    Always step P s (as ++ [a]) ↔ Always step P s as ∧ P (as ++ [a]) u := by
  constructor
  · intro hall
    have hlast : P (as ++ [a]) u := hall _ u (List.prefix_refl _) h
    refine ⟨fun pre t hp hr => ?_, hlast⟩
    exact hall pre t (hp.trans (List.prefix_append _ _)) hr
  · rintro ⟨hall, hlast⟩ pre t hp hr
    -- a prefix is the whole run or a prefix of what comes before the last label
    rcases List.prefix_concat_iff.mp hp with rfl | hpre
    · obtain rfl : t = u := Option.some.inj (hr.symm.trans h)
      exact hlast
    · exact hall pre t hpre hr

/-- The invariant rule: what holds before the first label and is kept by every
admitted step holds at the end of every guarded run. -/
theorem run_rule {G : σ → α → Prop} {I : List α → σ → Prop} {s : σ} (h0 : I [] s)
    (hstep : ∀ pre t a u, run step s pre = some t → I pre t → G t a → step t a = some u →
      I (pre ++ [a]) u)
    {as : List α} {t : σ} (hg : Guarded step G s as) (hr : run step s as = some t) : I as t := by
  -- from the right: the invariant speaks of all labels taken so far
  induction as using List.reverseRecOn generalizing t with
  | nil =>
    obtain rfl : s = t := Option.some.inj hr
    exact h0
  | append_singleton as a ih =>
    obtain ⟨u, hu, hs⟩ := (run_append_one step).mp hr
    obtain ⟨hpre, ha⟩ := (guarded_append_one step hu).mp hg
    exact hstep as u a t hu (ih hpre hu) ha hs

theorem run_invariant {I : List α → σ → Prop} {s : σ} (h0 : I [] s)
    (hstep : ∀ pre t a u, run step s pre = some t → I pre t → step t a = some u →
      I (pre ++ [a]) u)
    {as : List α} {t : σ} (hr : run step s as = some t) : I as t :=
  run_rule step (G := fun _ _ => True) h0
    (fun pre t a u hp hi _ hs => hstep pre t a u hp hi hs) (fun _ _ => trivial) hr

theorem guarded_cons {G : σ → α → Prop} {s t : σ} {as : List α} {a : α}
    (h : step s a = some t) :
    Guarded step G s (a :: as) ↔ G s a ∧ Guarded step G t as := by
  simp only [Guarded, trace, h, List.forall_mem_cons]

theorem guarded_one {G : σ → α → Prop} {s : σ} {a : α} : Guarded step G s [a] ↔ G s a := by
  have hlast := guarded_append_one step (G := G) (a := a) (show run step s [] = some s from rfl)
  rw [List.nil_append] at hlast
  rw [hlast]
  exact and_iff_right (List.forall_mem_nil _)

theorem guarded_append {G : σ → α → Prop} {s t : σ} {as bs : List α}
    (h : run step s as = some t) :
    Guarded step G s (as ++ bs) ↔ Guarded step G s as ∧ Guarded step G t bs := by
  induction as generalizing s with
  | nil =>
    obtain rfl : s = t := Option.some.inj h
    exact (and_iff_right (List.forall_mem_nil _)).symm
  | cons a as ih =>
    rw [run_cons] at h
    obtain ⟨u, hu, hr⟩ := Option.bind_eq_some_iff.mp h
    rw [List.cons_append, guarded_cons step hu, guarded_cons step hu, ih hr, and_assoc]

/-- The progress rule: when an admitted label is always enabled, a guarded run
never gets stuck. -/
theorem run_progress {G : σ → α → Prop} {I : σ → Prop}
    (hstep : ∀ t a, I t → G t a → ∃ u, step t a = some u ∧ I u)
    {s : σ} {as : List α} (h0 : I s) (hg : Guarded step G s as) :
    ∃ t, run step s as = some t ∧ I t := by
  induction as generalizing s with
  | nil => exact ⟨s, rfl, h0⟩
  | cons a as ih =>
    have ha : G s a := hg (s, a) (List.mem_cons_self ..)
    obtain ⟨u, hu, hi⟩ := hstep s a h0 ha
    obtain ⟨t, ht, hit⟩ := ih hi ((guarded_cons step hu).mp hg).2
    exact ⟨t, by rw [run_cons, hu]; exact ht, hit⟩

theorem guarded_of_forall {G : α → Prop} {s : σ} {as : List α} (h : ∀ a ∈ as, G a) :
    Guarded step (fun _ a => G a) s as := by
  induction as generalizing s with
  | nil => exact List.forall_mem_nil _
  | cons a as ih =>
    obtain ⟨ha, has⟩ := List.forall_mem_cons.mp h
    refine List.forall_mem_cons.mpr ⟨ha, ?_⟩
    cases step s a with
    | none => exact List.forall_mem_nil _
    | some t => exact ih has

theorem forall_of_guarded {G : α → Prop} {s t : σ} {as : List α} (h : run step s as = some t)
    (hg : Guarded step (fun _ a => G a) s as) : ∀ a ∈ as, G a := by
  induction as generalizing s with
  | nil => exact List.forall_mem_nil _
  | cons a as ih =>
    rw [run_cons] at h
    obtain ⟨u, hu, hr⟩ := Option.bind_eq_some_iff.mp h
    obtain ⟨ha, hg⟩ := (guarded_cons step hu).mp hg
    exact List.forall_mem_cons.mpr ⟨ha, ih hr hg⟩

/-- The progress rule when the labels alone decide whether they are admitted. -/
theorem run_total {G : α → Prop} {I : σ → Prop}
    (hstep : ∀ t a, I t → G a → ∃ u, step t a = some u ∧ I u)
    {s : σ} {as : List α} (h0 : I s) (has : ∀ a ∈ as, G a) :
    ∃ t, run step s as = some t ∧ I t :=
  run_progress step hstep h0 (guarded_of_forall step has)

/-- When each step establishes `P` exactly if `G` admitted it, a run satisfies `P`
throughout exactly if it is guarded by `G`. -/
theorem always_iff_guarded {G : σ → α → Prop} {I P : List α → σ → Prop} {s : σ}
    (hi : I [] s) (hp : P [] s)
    (hkeep : ∀ pre t a u, run step s pre = some t → I pre t → step t a = some u →
      I (pre ++ [a]) u)
    (hstep : ∀ pre t a u, I pre t → P pre t → step t a = some u → (P (pre ++ [a]) u ↔ G t a))
    {as : List α} {t : σ} (hr : run step s as = some t) :
    Always step P s as ↔ Guarded step G s as := by
  induction as using List.reverseRecOn generalizing t with
  | nil =>
    refine iff_of_true ?_ (fun q hq => by cases hq)
    intro pre u hpre hu
    obtain rfl := List.prefix_nil.mp hpre
    obtain rfl : s = u := Option.some.inj hu
    exact hp
  | append_singleton as a ih =>
    obtain ⟨u, hu, hs⟩ := (run_append_one step).mp hr
    have hinv : I as u := run_invariant step hi hkeep hu
    -- both sides split at the last label; `P` before it is what the step lemma needs
    rw [always_append_one step hr, guarded_append_one step hu, ih hu]
    constructor
    · rintro ⟨hg, hlast⟩
      have hprev : P as u := (ih hu).mpr hg as u (List.prefix_refl _) hu
      exact ⟨hg, (hstep as u a t hinv hprev hs).mp hlast⟩
    · rintro ⟨hg, ha⟩
      have hprev : P as u := (ih hu).mpr hg as u (List.prefix_refl _) hu
      exact ⟨hg, (hstep as u a t hinv hprev hs).mpr ha⟩

theorem guarded_congr {G H : σ → α → Prop} (h : ∀ t a, G t a ↔ H t a) (s : σ) (as : List α) :
    Guarded step G s as ↔ Guarded step H s as :=
  forall₂_congr fun p _ => h p.1 p.2

/-- Guards may be weakened along an invariant of the guarded steps. -/
theorem guarded_mono {G H : σ → α → Prop} {I : σ → Prop}
    (hmono : ∀ t a, I t → G t a → H t a)
    (hkeep : ∀ t a u, I t → G t a → step t a = some u → I u)
    {s : σ} {as : List α} (h0 : I s) (hg : Guarded step G s as) : Guarded step H s as := by
  induction as generalizing s with
  | nil => exact List.forall_mem_nil _
  | cons a as ih =>
    have ha : G s a := hg (s, a) (List.mem_cons_self ..)
    cases hs : step s a with
    | none =>
      -- the run stops here, but the label was tried
      intro p hp
      rw [trace, hs, List.mem_singleton] at hp
      exact hp ▸ hmono s a h0 ha
    | some u =>
      rw [guarded_cons step hs] at hg ⊢
      exact ⟨hmono s a h0 ha, ih (hkeep s a u h0 ha hs) hg.2⟩

/-- When a label that `G` does not admit runs up a debt `B` that only a step against `P`
settles, a run that ends without debt and keeps to `P` is guarded by `G`. -/
theorem guarded_of_settled {G P : σ → α → Prop} {I B : σ → Prop}
    (hkeep : ∀ t a u, I t → G t a → step t a = some u → I u)
    (hbreak : ∀ t a u, I t → ¬ G t a → step t a = some u → B u)
    (hstay : ∀ t a u, B t → P t a → step t a = some u → B u)
    {s t : σ} {as : List α} (h0 : I s) (hr : run step s as = some t) (hend : ¬ B t)
    (hp : Guarded step P s as) : Guarded step G s as := by
  induction as generalizing s with
  | nil => exact List.forall_mem_nil _
  | cons a as ih =>
    rw [run_cons] at hr
    obtain ⟨u, hu, hr⟩ := Option.bind_eq_some_iff.mp hr
    obtain ⟨-, hp⟩ := (guarded_cons step hu).mp hp
    have ha : G s a := by
      by_contra hno
      -- the debt of this step is still there at the end
      apply hend
      exact run_rule step (I := fun _ u => B u) (hbreak s a u h0 hno hu)
        (fun _ v b w _ hv hb hw => hstay v b w hv hb hw) hp hr
    exact (guarded_cons step hu).mpr ⟨ha, ih (hkeep s a u h0 ha hu) hr hp⟩

/-- A run keeps `I` while it is guarded; the first label that is not establishes `B`, which
stays. -/
theorem run_split {G : σ → α → Prop} {I B : σ → Prop} {s : σ} (h0 : I s)
    (hkeep : ∀ t a u, I t → G t a → step t a = some u → I u)
    (hbreak : ∀ t a u, I t → ¬ G t a → step t a = some u → B u)
    (hstay : ∀ t a u, B t → step t a = some u → B u)
    {as : List α} {t : σ} (hr : run step s as = some t) :
    (Guarded step G s as → I t) ∧ (¬ Guarded step G s as → B t) := by
  refine run_invariant step
    (I := fun pre u => (Guarded step G s pre → I u) ∧ (¬ Guarded step G s pre → B u))
    ⟨fun _ => h0, fun hg => absurd (List.forall_mem_nil _) hg⟩ ?_ hr
  intro pre u a v hu hi hs
  rw [guarded_append_one step hu]
  -- has the run been guarded so far
  by_cases hpre : Guarded step G s pre
  · have hI : I u := hi.1 hpre
    constructor
    · intro hg
      exact hkeep u a v hI hg.2 hs
    · intro hg
      apply hbreak u a v hI ?_ hs
      intro ha
      exact hg ⟨hpre, ha⟩
  · have hB : B u := hi.2 hpre
    constructor
    · intro hg
      exact absurd hg.1 hpre
    · intro _
      exact hstay u a v hB hs

section Simulation

variable {τ β : Type*} (step' : τ → β → Option τ)

/-- The simulation rule: when every admitted step is matched by some steps of another system
that keep `R`, every guarded run is. -/
theorem run_simulation {G : σ → α → Prop} {R : σ → τ → Prop}
    (hstep : ∀ s t a u, R s t → G s a → step s a = some u →
      ∃ bs v, run step' t bs = some v ∧ R u v)
    {s u : σ} {t : τ} {as : List α} (h : R s t) (hg : Guarded step G s as)
    (hr : run step s as = some u) : ∃ bs v, run step' t bs = some v ∧ R u v := by
  induction as generalizing s t with
  | nil =>
    obtain rfl : s = u := Option.some.inj hr
    exact ⟨[], t, rfl, h⟩
  | cons a as ih =>
    rw [run_cons] at hr
    obtain ⟨w, hw, hr⟩ := Option.bind_eq_some_iff.mp hr
    obtain ⟨ha, hg⟩ := (guarded_cons step hw).mp hg
    obtain ⟨bs, v, hv, hR⟩ := hstep s t a w h ha hw
    obtain ⟨cs, x, hx, hend⟩ := ih hR hg hr
    exact ⟨bs ++ cs, x, by rw [run_append, hv]; exact hx, hend⟩

end Simulation

section Measure

/-- When no admitted step raises the measure and those of the labels in `p` lower it, a guarded
run has no more labels in `p` than the measure where it starts. -/
theorem run_counted {G : σ → α → Prop} {I : σ → Prop} {μ : σ → ℕ} {p : α → Bool}
    (hstep : ∀ s a t, I s → G s a → step s a = some t →
      I t ∧ μ t + (if p a then 1 else 0) ≤ μ s)
    {s t : σ} {as : List α} (h : I s) (hg : Guarded step G s as)
    (hr : run step s as = some t) : as.countP p + μ t ≤ μ s := by
  induction as generalizing s with
  | nil =>
    obtain rfl : s = t := Option.some.inj hr
    exact Nat.le_of_eq (Nat.zero_add (μ s))
  | cons a as ih =>
    rw [run_cons] at hr
    obtain ⟨u, hu, hr⟩ := Option.bind_eq_some_iff.mp hr
    obtain ⟨ha, hg⟩ := (guarded_cons step hu).mp hg
    obtain ⟨hi, hlt⟩ := hstep s a u h ha hu
    have hrest := ih hi hg hr
    rw [List.countP_cons]
    omega

/-- When every admitted step lowers the measure, a guarded run is no longer than the measure
where it starts. -/
theorem run_bounded {G : σ → α → Prop} {I : σ → Prop} {μ : σ → ℕ}
    (hstep : ∀ s a t, I s → G s a → step s a = some t → I t ∧ μ t < μ s)
    {s t : σ} {as : List α} (h : I s) (hg : Guarded step G s as)
    (hr : run step s as = some t) : as.length + μ t ≤ μ s := by
  have hcount := run_counted step (p := fun _ => true) hstep h hg hr
  rw [List.countP_true] at hcount
  exact hcount

/-- The draining rule: when an admitted step that lowers the measure exists in every state
outside `D`, some guarded run no longer than the measure ends in `D`. -/
theorem run_reaches {G : σ → α → Prop} {I D : σ → Prop} {μ : σ → ℕ}
    (hstep : ∀ s, I s → ¬ D s → ∃ a t, G s a ∧ step s a = some t ∧ I t ∧ μ t < μ s)
    {s : σ} (h : I s) :
    ∃ as t, Guarded step G s as ∧ run step s as = some t ∧ I t ∧ D t ∧
      as.length + μ t ≤ μ s := by
  induction hn : μ s using Nat.strongRecOn generalizing s with
  | _ n ih =>
    by_cases hd : D s
    · exact ⟨[], s, List.forall_mem_nil _, rfl, h, hd, hn ▸ Nat.le_of_eq (Nat.zero_add (μ s))⟩
    · obtain ⟨a, t, ha, ht, hi, hlt⟩ := hstep s h hd
      obtain ⟨as, u, hg, hr, hu, hd, hle⟩ := ih (μ t) (hn ▸ hlt) hi rfl
      refine ⟨a :: as, u, (guarded_cons step ht).mpr ⟨ha, hg⟩, ?_, hu, hd, ?_⟩
      · rw [run_cons, ht]
        exact hr
      · rw [List.length_cons]
        omega

end Measure

section Outputs

variable {β : Type*} (out : σ → α → β)

/-- What the steps of a run put out, up to the first label that is not enabled. -/
def outputs : σ → List α → List β
  | _, [] => []
  | s, a :: as => match step s a with
    | none => []
    | some t => out s a :: outputs t as

/-- The bisimulation rule: states related by `R`, which every label admitted by `G` keeps with
equal outputs, put out the same in every run of such labels. -/
theorem outputs_congr {R : σ → σ → Prop} {G : α → Prop}
    (hstep : ∀ s s' a, R s s' → G a →
      Option.Rel (fun t t' => out s a = out s' a ∧ R t t') (step s a) (step s' a))
    {s s' : σ} {as : List α} (h : R s s') (has : ∀ a ∈ as, G a) :
    outputs step out s as = outputs step out s' as := by
  induction as generalizing s s' with
  | nil => rfl
  | cons a as ih =>
    obtain ⟨ha, hrest⟩ := List.forall_mem_cons.mp has
    have hrel := hstep s s' a h ha
    rw [outputs, outputs]
    cases hs : step s a with
    | none =>
      rw [hs] at hrel
      cases hs' : step s' a with
      | none => rfl
      | some t' =>
        rw [hs'] at hrel
        cases hrel
    | some t =>
      rw [hs] at hrel
      cases hs' : step s' a with
      | none =>
        rw [hs'] at hrel
        cases hrel
      | some t' =>
        rw [hs'] at hrel
        cases hrel with
        | some hboth =>
          simp only [hboth.1, ih hboth.2 hrest]

theorem outputs_append_one {s t u : σ} {as : List α} {a : α} (h : run step s as = some t)
    (hu : step t a = some u) :
    outputs step out s (as ++ [a]) = outputs step out s as ++ [out t a] := by
  induction as generalizing s with
  | nil =>
    obtain rfl : s = t := Option.some.inj h
    simp only [List.nil_append, outputs, hu]
  | cons b bs ih =>
    rw [run_cons] at h
    obtain ⟨v, hv, hr⟩ := Option.bind_eq_some_iff.mp h
    simp only [List.cons_append, outputs, hv, ih hr]

end Outputs

section Refinement

variable {τ β : Type*} (step' : τ → β → Option τ) (out : σ → α → List β)

/-- The simulation rule for a system whose steps name the steps they stand for: what a guarded
run puts out is a guarded run of the other system. -/
theorem run_outputs {G : σ → α → Prop} {H : τ → β → Prop} {R : σ → τ → Prop}
    (hstep : ∀ s t a u, R s t → G s a → step s a = some u →
      Guarded step' H t (out s a) ∧ ∃ v, run step' t (out s a) = some v ∧ R u v)
    {s u : σ} {t : τ} {as : List α} (h : R s t) (hg : Guarded step G s as)
    (hr : run step s as = some u) :
    Guarded step' H t (outputs step out s as).flatten ∧
      ∃ v, run step' t (outputs step out s as).flatten = some v ∧ R u v := by
  induction as generalizing s t with
  | nil =>
    obtain rfl : s = u := Option.some.inj hr
    exact ⟨List.forall_mem_nil _, t, rfl, h⟩
  | cons a as ih =>
    rw [run_cons] at hr
    obtain ⟨w, hw, hr⟩ := Option.bind_eq_some_iff.mp hr
    obtain ⟨ha, hg⟩ := (guarded_cons step hw).mp hg
    obtain ⟨hfirst, v, hv, hR⟩ := hstep s t a w h ha hw
    obtain ⟨hrest, x, hx, hend⟩ := ih hR hg hr
    have hout : (outputs step out s (a :: as)).flatten =
        out s a ++ (outputs step out w as).flatten := by
      simp only [outputs, hw, List.flatten_cons]
    rw [hout]
    refine ⟨(guarded_append step' hv).mpr ⟨hfirst, hrest⟩, x, ?_, hend⟩
    rw [run_append, hv]
    exact hx

end Refinement

end StepRun
