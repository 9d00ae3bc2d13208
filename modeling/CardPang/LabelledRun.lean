import Mathlib

/-! Finite runs of a labelled step relation. Every run-level result of the
development is an instance of one of the rules below: an invariant kept by each
step, a simulation that follows each step, a restriction of the steps, or what the
observations of the steps add up to. -/
namespace CardPang.LabelledRun

variable {S S' E M V : Type*}

/-- `Run R s es t`: the events `es`, handled in this order, lead from `s` to `t`. -/
inductive Run (R : S → E → S → Prop) : S → List E → S → Prop
  | nil (s : S) : Run R s [] s
  | snoc {s t u : S} {es : List E} {e : E} :
      Run R s es t → R t e u → Run R s (es ++ [e]) u

variable {R : S → E → S → Prop}

lemma Run.one {s t : S} {e : E} (h : R s e t) : Run R s [e] t :=
  Run.snoc (Run.nil s) h

lemma Run.trans {s t u : S} {es fs : List E} (h : Run R s es t) (g : Run R t fs u) :
    Run R s (es ++ fs) u := by
  induction g with
  | nil => simpa using h
  | snoc _ hs ih => simpa only [List.append_assoc] using Run.snoc ih hs

lemma Run.cons {s t u : S} {e : E} {es : List E} (h : R s e t) (g : Run R t es u) :
    Run R s (e :: es) u := by
  simpa using (Run.one h).trans g

/-- A run can be cut after any prefix of its events. -/
theorem Run.split {s u : S} {es fs : List E} (h : Run R s (es ++ fs) u) :
    ∃ t, Run R s es t ∧ Run R t fs u := by
  induction fs using List.reverseRecOn generalizing u with
  | nil => exact ⟨u, by simpa using h, Run.nil u⟩
  | append_singleton fs f ih =>
    rw [← List.append_assoc] at h
    generalize hl : es ++ fs ++ [f] = l at h
    cases h with
    | nil => simp at hl
    | snoc hr hs =>
      obtain ⟨rfl, he⟩ := List.append_inj' hl rfl
      obtain rfl := List.singleton_inj.mp he
      obtain ⟨t, ht, hu⟩ := ih hr
      exact ⟨t, ht, Run.snoc hu hs⟩

lemma Run.nil_eq {s t : S} (h : Run R s [] t) : t = s := by
  generalize hl : ([] : List E) = l at h
  cases h with
  | nil => rfl
  | snoc _ _ => simp at hl

lemma Run.one_step {s t : S} {e : E} (h : Run R s [e] t) : R s e t := by
  change Run R s ([] ++ [e]) t at h
  generalize hl : [] ++ [e] = l at h
  cases h with
  | nil => simp at hl
  | snoc hr hs =>
    obtain ⟨rfl, he⟩ := List.append_inj' hl rfl
    obtain rfl := List.singleton_inj.mp he
    obtain rfl := hr.nil_eq
    exact hs

lemma Run.uncons {s u : S} {e : E} {es : List E} (h : Run R s (e :: es) u) :
    ∃ t, R s e t ∧ Run R t es u := by
  change Run R s ([e] ++ es) u at h
  obtain ⟨t, h1, h2⟩ := h.split
  exact ⟨t, h1.one_step, h2⟩

/-- Induction rule for a property of the state reached and of the events handled. -/
theorem Run.induction {s : S} {I : List E → S → Prop} (h0 : I [] s)
    (hstep : ∀ es t e u, Run R s es t → I es t → R t e u → I (es ++ [e]) u)
    {es : List E} {t : S} (h : Run R s es t) : I es t := by
  induction h with
  | nil => exact h0
  | snoc hr hs ih => exact hstep _ _ _ _ hr ih hs

/-- What holds initially and is kept by every step holds in every state reached. -/
theorem Run.invariant {s : S} {I : S → Prop} (h0 : I s)
    (hstep : ∀ t e u, I t → R t e u → I u) {es : List E} {t : S} (h : Run R s es t) : I t :=
  Run.induction (I := fun _ t => I t) h0 (fun _ t e u _ ht hs => hstep t e u ht hs) h

/-- Where the invariant leaves each event one outcome, the events decide where a run ends. -/
theorem Run.unique {s : S} {I : S → Prop} (h0 : I s) (hkeep : ∀ t e u, I t → R t e u → I u)
    (hdet : ∀ t e u v, I t → R t e u → R t e v → u = v) {es : List E} {t t' : S}
    (h : Run R s es t) (h' : Run R s es t') : t = t' := by
  induction es using List.reverseRecOn generalizing t t' with
  | nil => rw [h.nil_eq, h'.nil_eq]
  | append_singleton es e ih =>
    obtain ⟨m, hm, he⟩ := h.split
    obtain ⟨m', hm', he'⟩ := h'.split
    rw [← ih hm hm'] at he'
    exact hdet m e t t' (Run.invariant h0 hkeep hm) he.one_step he'.one_step

/-- Steps of one relation may be read as steps of a larger one. -/
theorem Run.mono {R' : S → E → S → Prop} (hle : ∀ s e t, R s e t → R' s e t)
    {s t : S} {es : List E} (h : Run R s es t) : Run R' s es t := by
  induction h with
  | nil => exact Run.nil _
  | snoc _ hs ih => exact Run.snoc ih (hle _ _ _ hs)

/-- The property holds in some state of the run. -/
def HasHeld (R : S → E → S → Prop) (Q : S → Prop) (s : S) (es : List E) (t : S) : Prop :=
  ∃ es₁ es₂ m, es = es₁ ++ es₂ ∧ Run R s es₁ m ∧ Run R m es₂ t ∧ Q m

lemma HasHeld.now {Q : S → Prop} {s t : S} {es : List E} (h : Run R s es t) (hq : Q t) :
    HasHeld R Q s es t :=
  ⟨es, [], t, (List.append_nil es).symm, h, Run.nil t, hq⟩

lemma HasHeld.snoc {Q : S → Prop} {s t u : S} {es : List E} {e : E} (h : HasHeld R Q s es t)
    (hs : R t e u) : HasHeld R Q s (es ++ [e]) u := by
  obtain ⟨es₁, es₂, m, rfl, h₁, h₂, hq⟩ := h
  exact ⟨es₁, es₂ ++ [e], m, List.append_assoc es₁ es₂ [e], h₁, Run.snoc h₂ hs, hq⟩

lemma HasHeld.nil {Q : S → Prop} {s t : S} (h : HasHeld R Q s ([] : List E) t) : Q s := by
  obtain ⟨es₁, es₂, m, hes, h₁, -, hq⟩ := h
  obtain ⟨rfl, -⟩ := List.append_eq_nil_iff.mp hes.symm
  obtain rfl := h₁.nil_eq
  exact hq

/-- The property holds at the start or on the way from the second state on. -/
lemma HasHeld.cons {Q : S → Prop} {s t : S} {e : E} {es : List E}
    (h : HasHeld R Q s (e :: es) t) : Q s ∨ ∃ s', R s e s' ∧ HasHeld R Q s' es t := by
  obtain ⟨es₁, es₂, m, hes, h₁, h₂, hq⟩ := h
  cases es₁ with
  | nil =>
    obtain rfl := h₁.nil_eq
    exact Or.inl hq
  | cons f es₁ =>
    obtain ⟨rfl, rfl⟩ := List.cons.inj hes
    obtain ⟨s', hs, h₁⟩ := h₁.uncons
    exact Or.inr ⟨s', hs, es₁, es₂, m, rfl, h₁, h₂, hq⟩

/-- Where a step keeps `Q` exactly under a condition on the state before it, a run passes
through states with `Q` only, exactly if all its steps meet the condition. -/
theorem Run.never_iff {I Q : S → Prop} {C : S → E → Prop} {s t : S} {es : List E} (h0 : I s)
    (hkeep : ∀ t e u, I t → R t e u → I u) (hdet : ∀ t e u v, I t → R t e u → R t e v → u = v)
    (hQ : Q s) (hstep : ∀ t e u, I t → Q t → R t e u → (Q u ↔ C t e)) (h : Run R s es t) :
    ¬ HasHeld R (fun m => ¬ Q m) s es t ↔ Run (fun t e u => R t e u ∧ C t e) s es t := by
  constructor
  · refine Run.induction (I := fun es t => ¬ HasHeld R (fun m => ¬ Q m) s es t →
      Run (fun t e u => R t e u ∧ C t e) s es t) (fun _ => Run.nil s) ?_ h
    intro es m e u hm ih he hnever
    have hbefore : Q m := by
      by_contra hnot
      exact hnever ((HasHeld.now hm hnot).snoc he)
    have hafter : Q u := by
      by_contra hnot
      exact hnever (HasHeld.now (Run.snoc hm he) hnot)
    refine Run.snoc (ih fun hheld => hnever (hheld.snoc he)) ⟨he, ?_⟩
    exact (hstep m e u (Run.invariant h0 hkeep hm) hbefore he).mp hafter
  · rintro hrun ⟨es₁, es₂, m, rfl, hm, -, hnot⟩
    obtain ⟨m', hm', -⟩ := hrun.split
    have hinv : I m' ∧ Q m' := by
      refine Run.invariant (I := fun m => I m ∧ Q m) ⟨h0, hQ⟩ ?_ hm'
      intro m e u hm he
      exact ⟨hkeep m e u hm.1 he.1, (hstep m e u hm.1 hm.2 he.1).mpr he.2⟩
    -- The events decide the state, so the run that is known leads to the same one.
    have heq : m = m' := Run.unique h0 hkeep hdet hm (hm'.mono fun _ _ _ he => he.1)
    exact hnot (heq ▸ hinv.2)

/-- A run with what is observed at its steps, one after the other. -/
inductive Observed (R : S → E → S → Prop) (f : S → E → S → List M) : S → List E → S → List M → Prop
  | nil (s : S) : Observed R f s [] s []
  | snoc {s t u : S} {es : List E} {e : E} {ms : List M} :
      Observed R f s es t ms → R t e u → Observed R f s (es ++ [e]) u (ms ++ f t e u)

section Observed

variable {f : S → E → S → List M} {s t : S} {es : List E} {ms : List M}

lemma Observed.run (h : Observed R f s es t ms) : Run R s es t := by
  induction h with
  | nil => exact Run.nil _
  | snoc _ hs ih => exact Run.snoc ih hs

lemma Run.observed (f : S → E → S → List M) (h : Run R s es t) : ∃ ms, Observed R f s es t ms := by
  induction h with
  | nil => exact ⟨[], Observed.nil _⟩
  | snoc _ hs ih =>
    obtain ⟨ms, hms⟩ := ih
    exact ⟨_, Observed.snoc hms hs⟩

lemma Observed.cons {u : S} {e : E} (h : R s e t) (g : Observed R f t es u ms) :
    Observed R f s (e :: es) u (f s e t ++ ms) := by
  induction g with
  | nil => simpa using Observed.snoc (Observed.nil s) h
  | snoc _ hs ih => simpa only [List.append_assoc, List.cons_append] using Observed.snoc ih hs

/-- A view that each step changes as its observations say is what all of them leave. -/
theorem Observed.fold {I : S → Prop} {g : S → V} {after : V → M → V} (h0 : I s)
    (hkeep : ∀ t e u, I t → R t e u → I u)
    (hstep : ∀ t e u, I t → R t e u → g u = (f t e u).foldl after (g t))
    (h : Observed R f s es t ms) : g t = ms.foldl after (g s) := by
  induction h with
  | nil => rfl
  | snoc hr hs ih =>
    have hinv := Run.invariant h0 hkeep hr.run
    rw [List.foldl_append, ← ih]
    exact hstep _ _ _ hinv hs

/-- Where another system follows each step by the observations of it, it follows the run. -/
theorem Observed.simulate {R' : S' → M → S' → Prop} {Q : S → S' → Prop} {s' : S'}
    (h0 : Q s s') (hstep : ∀ t e u t', Q t t' → R t e u → ∃ u', Run R' t' (f t e u) u' ∧ Q u u')
    (h : Observed R f s es t ms) : ∃ t', Run R' s' ms t' ∧ Q t t' := by
  induction h with
  | nil => exact ⟨s', Run.nil s', h0⟩
  | snoc _ hs ih =>
    obtain ⟨t', ht, hrel⟩ := ih
    obtain ⟨u', hu, hrel'⟩ := hstep _ _ _ t' hrel hs
    exact ⟨u', ht.trans hu, hrel'⟩

end Observed

end CardPang.LabelledRun
