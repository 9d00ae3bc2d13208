import Mathlib

/-!
# Layers of values on paths

A layer has values at some paths. A new value goes into the value nearest to the root that
its path runs through; where there is none, it replaces everything at and below its path.
-/
namespace CardPang.PathLayer

variable {K N : Type*}

abbrev Layer (K N : Type*) := List K → Option N

def Layer.below (f : Layer K N) (k : K) : Layer K N := fun p => f (k :: p)

def Layer.empty : Layer K N := fun _ => none

/-- The shortest prefix of a path that has a value, with the value. -/
def rootMost : Layer K N → List K → Option (List K × N)
  | f, [] => (f []).map fun v => ([], v)
  | f, k :: q =>
    match f [] with
    | some v => some ([], v)
    | none => (rootMost (f.below k) q).map fun x => (k :: x.1, x.2)

/-- No value lies below another. -/
def Separate (f : Layer K N) : Prop :=
  ∀ p q, f p ≠ none → f q ≠ none → p <+: q → p = q

/-- No value lies strictly above the path. -/
def Clear (π : List K) (f : Layer K N) : Prop := ∀ p, p <+: π → p ≠ π → f p = none

section RootMost

variable {f g : Layer K N} {q r : List K} {v : N}

theorem rootMost_some (h : rootMost f q = some (r, v)) :
    r <+: q ∧ f r = some v ∧ Clear r f := by
  induction q generalizing f r with
  | nil =>
    obtain ⟨w, hw, heq⟩ := Option.map_eq_some_iff.mp h
    obtain ⟨rfl, rfl⟩ := Prod.mk.inj heq
    exact ⟨List.nil_prefix, hw, fun p hp hne => absurd (List.prefix_nil.mp hp) hne⟩
  | cons k q ih =>
    rw [rootMost] at h
    cases hroot : f [] with
    | some w =>
      rw [hroot] at h
      obtain ⟨rfl, rfl⟩ := Prod.mk.inj (Option.some.inj h)
      exact ⟨List.nil_prefix, hroot, fun p hp hne => absurd (List.prefix_nil.mp hp) hne⟩
    | none =>
      rw [hroot] at h
      obtain ⟨x, hx, heq⟩ := Option.map_eq_some_iff.mp h
      obtain ⟨rfl, rfl⟩ := Prod.mk.inj heq
      obtain ⟨hpre, hval, hclear⟩ := ih hx
      refine ⟨List.cons_prefix_cons.mpr ⟨rfl, hpre⟩, hval, ?_⟩
      intro p hp hne
      cases p with
      | nil => exact hroot
      | cons j p =>
        obtain ⟨rfl, hpx⟩ := List.cons_prefix_cons.mp hp
        exact hclear p hpx fun hsame => hne (by rw [hsame])

theorem rootMost_none : rootMost f q = none ↔ ∀ p, p <+: q → f p = none := by
  induction q generalizing f with
  | nil => simp [rootMost]
  | cons k q ih =>
    rw [rootMost]
    cases hroot : f [] with
    | some w =>
      refine iff_of_false (by simp) ?_
      intro h
      rw [h [] List.nil_prefix] at hroot
      cases hroot
    | none =>
      simp only [Option.map_eq_none_iff, ih]
      constructor
      · intro h p hp
        cases p with
        | nil => exact hroot
        | cons j p =>
          obtain ⟨rfl, hpq⟩ := List.cons_prefix_cons.mp hp
          exact h p hpq
      · intro h p hp
        exact h (k :: p) (List.cons_prefix_cons.mpr ⟨rfl, hp⟩)

@[simp] theorem rootMost_empty : rootMost (Layer.empty : Layer K N) q = none :=
  rootMost_none.mpr fun _ _ => rfl

/-- Only the values on the path count. -/
theorem rootMost_congr (h : ∀ p, p <+: q → f p = g p) : rootMost f q = rootMost g q := by
  induction q generalizing f g with
  | nil => simp only [rootMost, h [] List.nil_prefix]
  | cons k q ih =>
    have hbelow : rootMost (f.below k) q = rootMost (g.below k) q :=
      ih fun p hp => h (k :: p) (List.cons_prefix_cons.mpr ⟨rfl, hp⟩)
    simp only [rootMost, h [] List.nil_prefix, hbelow]

theorem rootMost_of_clear (hc : Clear q f) (hv : f q = some v) : rootMost f q = some (q, v) := by
  rcases h : rootMost f q with _ | ⟨r, w⟩
  · rw [rootMost_none.mp h q (List.prefix_refl q)] at hv
    cases hv
  · obtain ⟨hpre, hval, -⟩ := rootMost_some h
    have hsame : r = q := by
      by_contra hne
      rw [hc r hpre hne] at hval
      cases hval
    rw [hsame, hv] at hval
    rw [hsame, Option.some.inj hval]

theorem rootMost_append (h : rootMost f q = none) :
    rootMost f (q ++ r) = (rootMost (fun p => f (q ++ p)) r).map fun x => (q ++ x.1, x.2) := by
  induction q generalizing f with
  | nil => simp
  | cons k q ih =>
    have hroot : f [] = none := rootMost_none.mp h [] List.nil_prefix
    rw [rootMost, hroot] at h
    rw [List.cons_append, rootMost, hroot, ih (Option.map_eq_none_iff.mp h), Option.map_map]
    rfl

theorem not_prefix_of_strict {p π : List K} (hp : p <+: π) (hne : p ≠ π) : ¬ π <+: p :=
  fun h => hne (hp.eq_of_length_le h.length_le)

theorem Clear.mono {π : List K} (h : Clear π f) (hq : q <+: π) : Clear q f := by
  intro p hp hne
  refine h p (hp.trans hq) ?_
  intro hsame
  subst hsame
  exact hne (hp.eq_of_length_le hq.length_le)

theorem empty_separate : Separate (Layer.empty : Layer K N) := fun _ _ h => absurd rfl h

/-- The layers differ at and below the path at most, and nothing lies above it. -/
structure Off (π : List K) (f g : Layer K N) : Prop where
  agree : ∀ p, ¬ π <+: p → f p = g p
  clear : Clear π f

theorem Off.symm {π : List K} (h : Off π f g) : Off π g f where
  agree p hp := (h.agree p hp).symm
  clear p hp hne := by
    rw [← h.agree p (not_prefix_of_strict hp hne)]
    exact h.clear p hp hne

end RootMost

section Add

variable [DecidableEq K] (update : N → List K → N → N)

/-- Write `n` at `q`. -/
def add (q : List K) (n : N) (f : Layer K N) : Layer K N :=
  match rootMost f q with
  | some (r, v) => Function.update f r (some (update v (q.drop r.length) n))
  | none => fun p => if q <+: p then if p = q then some n else none else f p

/-- Take away what is at and below `q`. -/
def remove (q : List K) (f : Layer K N) : Layer K N := fun p => if q <+: p then none else f p

def addAll (ws : List (List K × N)) (f : Layer K N) : Layer K N :=
  ws.foldl (fun f w => add update w.1 w.2 f) f

variable {update} {f g : Layer K N} {q r π p : List K} {n v : N} {ws : List (List K × N)}

theorem add_of_rootMost (h : rootMost f q = some (r, v)) :
    add update q n f = Function.update f r (some (update v (q.drop r.length) n)) := by
  simp only [add, h]

theorem add_of_none (h : rootMost f q = none) :
    add update q n f = fun p => if q <+: p then if p = q then some n else none else f p := by
  simp only [add, h]

/-- A new value lies on its own path, or in place of one that was there. -/
theorem ne_none_of_add (h : add update q n f p ≠ none) : f p ≠ none ∨ p = q := by
  rcases hr : rootMost f q with _ | ⟨r, v⟩
  · rw [add_of_none hr] at h
    by_cases hp : p = q
    · exact Or.inr hp
    · simp only [hp, if_false] at h
      split_ifs at h with hpre
      · exact absurd rfl h
      · exact Or.inl h
  · rw [add_of_rootMost hr] at h
    by_cases hp : p = r
    · rw [hp, (rootMost_some hr).2.1]
      exact Or.inl (Option.some_ne_none v)
    · rw [Function.update_of_ne hp] at h
      exact Or.inl h

theorem add_separate (hs : Separate f) : Separate (add update q n f) := by
  intro a b ha hb hab
  rcases hr : rootMost f q with _ | ⟨r, v⟩
  · have hnone := rootMost_none.mp hr
    by_cases haq : a = q
    · -- Nothing is left below the new value.
      subst haq
      by_contra hne
      rw [add_of_none hr] at hb
      simp [hab, Ne.symm hne] at hb
    · have ha' := (ne_none_of_add ha).resolve_right haq
      by_cases hbq : b = q
      · subst hbq
        exact absurd (hnone a hab) ha'
      · exact hs a b ha' ((ne_none_of_add hb).resolve_right hbq) hab
  · have hold : ∀ c, add update q n f c ≠ none → f c ≠ none := by
      intro c hc
      rw [add_of_rootMost hr] at hc
      by_cases hcr : c = r
      · rw [hcr, (rootMost_some hr).2.1]
        exact Option.some_ne_none v
      · rwa [Function.update_of_ne hcr] at hc
    exact hs a b (hold a ha) (hold b hb) hab

theorem addAll_separate (hs : Separate f) : Separate (addAll update ws f) := by
  induction ws generalizing f with
  | nil => exact hs
  | cons w ws ih => exact ih (add_separate hs)

theorem ne_none_of_addAll (h : addAll update ws f p ≠ none) :
    f p ≠ none ∨ ∃ w ∈ ws, p = w.1 := by
  induction ws generalizing f with
  | nil => exact Or.inl h
  | cons w ws ih =>
    obtain hf | ⟨w', hw', hp⟩ := ih h
    · cases ne_none_of_add hf with
      | inl hf => exact Or.inl hf
      | inr hp => exact Or.inr ⟨w, List.mem_cons_self, hp⟩
    · exact Or.inr ⟨w', List.mem_cons_of_mem w hw', hp⟩

/-- A value written where nothing lies above it is the only one at and below its path. -/
theorem add_of_clear (hupdate : ∀ v n, update v [] n = n) (hs : Separate f) (hc : Clear q f) :
    add update q n f = fun p => if q <+: p then if p = q then some n else none else f p := by
  cases hq : f q with
  | none =>
    refine add_of_none (rootMost_none.mpr ?_)
    intro p hp
    by_cases hpq : p = q
    · rw [hpq, hq]
    · exact hc p hp hpq
  | some v =>
    rw [add_of_rootMost (rootMost_of_clear hc hq), List.drop_length, hupdate]
    funext p
    by_cases hp : p = q
    · subst hp
      simp
    · rw [Function.update_of_ne hp]
      split_ifs with hpre
      · by_contra hne
        exact hp (hs q p (by simp [hq]) hne hpre).symm
      · rfl

end Add

section Shadow

variable [DecidableEq K] {update : N → List K → N → N} {f g : Layer K N} {q π : List K} {n : N}
  {ws : List (List K × N)}

/-- A write at or above the path hides the difference. -/
theorem Off.add_above (hupdate : ∀ v n, update v [] n = n) (h : Off π f g) (hf : Separate f)
    (hg : Separate g) (hq : q <+: π) : add update q n f = add update q n g := by
  rw [add_of_clear hupdate hf (h.clear.mono hq), add_of_clear hupdate hg (h.symm.clear.mono hq)]
  funext p
  split_ifs with hpre
  · rfl
  · rfl
  · exact h.agree p fun hp => hpre (hq.trans hp)

/-- A write below the path changes nothing elsewhere. -/
theorem add_apply_of_below (hc : Clear π f) (hq : π <+: q) {p : List K} (hp : ¬ π <+: p) :
    add update q n f p = f p := by
  rcases hr : rootMost f q with _ | ⟨r, v⟩
  · rw [add_of_none hr]
    exact if_neg fun h => hp (hq.trans h)
  · obtain ⟨hrq, hval, -⟩ := rootMost_some hr
    have hne : p ≠ r := by
      intro hpr
      subst hpr
      -- The value would lie above the path.
      obtain hπ | hπ := List.prefix_or_prefix_of_prefix hq hrq
      · exact hp hπ
      · rw [hc p hπ (fun hsame => hp (by rw [hsame]))] at hval
        cases hval
    rw [add_of_rootMost hr, Function.update_of_ne hne]

theorem Off.add_off (h : Off π f g) (hq : ¬ q <+: π) :
    Off π (add update q n f) (add update q n g) where
  agree p hp := by
    by_cases hπ : π <+: q
    · rw [add_apply_of_below h.clear hπ hp, add_apply_of_below h.symm.clear hπ hp]
      exact h.agree p hp
    · -- The two layers have the same values on the path of the write.
      have hsame : rootMost f q = rootMost g q :=
        rootMost_congr fun s hs => h.agree s fun hπs => hπ (hπs.trans hs)
      rcases hr : rootMost f q with _ | ⟨r, v⟩
      · rw [add_of_none hr, add_of_none (hsame ▸ hr)]
        simp only [h.agree p hp]
      · rw [add_of_rootMost hr, add_of_rootMost (hsame ▸ hr)]
        by_cases hpr : p = r
        · subst hpr
          simp
        · rw [Function.update_of_ne hpr, Function.update_of_ne hpr]
          exact h.agree p hp
  clear p hp hne := by
    by_contra hsome
    cases ne_none_of_add hsome with
    | inl hf => exact hf (h.clear p hp hne)
    | inr hpq => exact hq (hpq ▸ hp)

/-- After a write at or above the path it does not matter what was below. -/
theorem Off.addAll_eq (hupdate : ∀ v n, update v [] n = n) (h : Off π f g) (hf : Separate f)
    (hg : Separate g) (hws : ∃ w ∈ ws, w.1 <+: π) : addAll update ws f = addAll update ws g := by
  induction ws generalizing f g with
  | nil => simp at hws
  | cons w ws ih =>
    by_cases hw : w.1 <+: π
    · simp only [addAll, List.foldl_cons, h.add_above hupdate hf hg hw]
    · have htail : ∃ w ∈ ws, w.1 <+: π := by
        obtain ⟨w', hmem, hw'⟩ := hws
        cases hmem with
        | head => exact absurd hw' hw
        | tail _ hmem => exact ⟨w', hmem, hw'⟩
      exact ih (h.add_off hw) (add_separate hf) (add_separate hg) htail

end Shadow

section Remove

variable [DecidableEq K] {update : N → List K → N → N} {f : Layer K N} {q p : List K} {n : N}
  {ws : List (List K × N)} {qs : List (List K)}

def removeAll (qs : List (List K)) (f : Layer K N) : Layer K N :=
  qs.foldl (fun f q => remove q f) f

theorem removeAll_eq_none : removeAll qs f p = none ↔ f p = none ∨ ∃ q ∈ qs, q <+: p := by
  induction qs generalizing f with
  | nil => simp [removeAll]
  | cons q qs ih =>
    change removeAll qs (remove q f) p = none ↔ _
    rw [ih]
    by_cases hq : q <+: p <;> simp [remove, hq]

theorem removeAll_of_not (h : ∀ q ∈ qs, ¬ q <+: p) : removeAll qs f p = f p := by
  induction qs generalizing f with
  | nil => rfl
  | cons q qs ih =>
    change removeAll qs (remove q f) p = f p
    rw [ih fun q' hq' => h q' (List.mem_cons_of_mem q hq')]
    exact if_neg (h q List.mem_cons_self)

/-- A write that is not at or below a path may be made before or after the path is removed. -/
theorem removeAll_add (h : ∀ r ∈ qs, ¬ r <+: q) :
    removeAll qs (add update q n f) = add update q n (removeAll qs f) := by
  have hsame : rootMost (removeAll qs f) q = rootMost f q :=
    rootMost_congr fun s hs => removeAll_of_not fun r hr hrs => h r hr (hrs.trans hs)
  funext p
  by_cases hp : ∃ r ∈ qs, r <+: p
  · have hnone : removeAll qs (add update q n f) p = none := removeAll_eq_none.mpr (Or.inr hp)
    rw [hnone]
    by_contra hsome
    cases ne_none_of_add (Ne.symm hsome) with
    | inl hf => exact hf (removeAll_eq_none.mpr (Or.inr hp))
    | inr hpq =>
      obtain ⟨r, hr, hrp⟩ := hp
      exact h r hr (hpq ▸ hrp)
  · have hp' : ∀ r ∈ qs, ¬ r <+: p := fun r hr hrp => hp ⟨r, hr, hrp⟩
    rw [removeAll_of_not hp']
    rcases hr : rootMost f q with _ | ⟨r, v⟩
    · rw [add_of_none hr, add_of_none (hsame.trans hr)]
      simp only [removeAll_of_not hp']
    · rw [add_of_rootMost hr, add_of_rootMost (hsame.trans hr)]
      by_cases hpr : p = r
      · subst hpr
        simp
      · rw [Function.update_of_ne hpr, Function.update_of_ne hpr, removeAll_of_not hp']

theorem removeAll_addAll (h : ∀ q ∈ qs, ∀ w ∈ ws, ¬ q <+: w.1) :
    removeAll qs (addAll update ws f) = addAll update ws (removeAll qs f) := by
  induction ws generalizing f with
  | nil => rfl
  | cons w ws ih =>
    change removeAll qs (addAll update ws (add update w.1 w.2 f)) =
      addAll update ws (add update w.1 w.2 (removeAll qs f))
    rw [ih fun q hq w' hw' => h q hq w' (List.mem_cons_of_mem w hw'),
      removeAll_add fun q hq => h q hq w List.mem_cons_self]

/-- Removing the paths of all the writes leaves nothing of them. -/
theorem removeAll_written :
    removeAll (ws.map Prod.fst) (addAll update ws (Layer.empty : Layer K N)) = Layer.empty := by
  funext p
  refine removeAll_eq_none.mpr ?_
  by_cases hp : addAll update ws (Layer.empty : Layer K N) p = none
  · exact Or.inl hp
  · obtain hempty | ⟨w, hw, rfl⟩ := ne_none_of_addAll hp
    · exact absurd rfl hempty
    · exact Or.inr ⟨w.1, List.mem_map_of_mem hw, List.prefix_refl _⟩

theorem remove_off (hc : Clear q f) : Off q f (remove q f) where
  agree _ hp := (if_neg hp).symm
  clear := hc

theorem remove_separate (hs : Separate f) : Separate (remove q f) := by
  intro a b ha hb hab
  have hold : ∀ c, remove q f c ≠ none → f c ≠ none := by
    intro c hc hnone
    exact hc (by simp [remove, hnone])
  exact hs a b (hold a ha) (hold b hb) hab

/-- There is a value at a prefix of the path. -/
def Covered (f : Layer K N) (p : List K) : Prop := ∃ r, r <+: p ∧ f r ≠ none

theorem add_covers : Covered (add update q n f) q := by
  rcases hr : rootMost f q with _ | ⟨r, v⟩
  · exact ⟨q, List.prefix_refl q, by simp [add_of_none hr]⟩
  · exact ⟨r, (rootMost_some hr).1, by simp [add_of_rootMost hr]⟩

theorem Covered.add (h : Covered f p) : Covered (add update q n f) p := by
  obtain ⟨r, hrp, hr⟩ := h
  by_cases hsome : PathLayer.add update q n f r = none
  · -- The value has gone because a write above it took its place.
    rcases hroot : rootMost f q with _ | ⟨s, v⟩
    · rw [add_of_none hroot] at hsome
      by_cases hqr : q <+: r
      · exact ⟨q, hqr.trans hrp, by simp [add_of_none hroot]⟩
      · simp only [hqr, if_false] at hsome
        exact absurd hsome hr
    · rw [add_of_rootMost hroot] at hsome
      by_cases hrs : r = s
      · simp [hrs] at hsome
      · rw [Function.update_of_ne hrs] at hsome
        exact absurd hsome hr
  · exact ⟨r, hrp, hsome⟩

theorem Covered.addAll (h : Covered f p) : Covered (addAll update ws f) p := by
  induction ws generalizing f with
  | nil => exact h
  | cons w ws ih => exact ih h.add

theorem addAll_covers {w : List K × N} (hw : w ∈ ws) : Covered (addAll update ws f) w.1 := by
  induction ws generalizing f with
  | nil => simp at hw
  | cons w' ws ih =>
    cases hw with
    | head =>
      change Covered (PathLayer.addAll update ws (PathLayer.add update w.1 w.2 f)) w.1
      exact add_covers.addAll
    | tail _ hw => exact ih hw

/-- No path of the list is above another. -/
def Incomparable (qs : List (List K)) : Prop := ∀ p ∈ qs, ∀ q ∈ qs, p <+: q → p = q

/-- Writes under a later write that lies strictly above them leave no trace. -/
theorem addAll_removeAll_covered (hupdate : ∀ v n, update v [] n = n) (hs : Separate f)
    (hclear : ∀ q ∈ qs, Clear q f) (hcover : ∀ q ∈ qs, ∃ w ∈ ws, w.1 <+: q ∧ w.1 ≠ q) :
    addAll update ws (removeAll qs f) = addAll update ws f := by
  induction qs generalizing f with
  | nil => rfl
  | cons q qs ih =>
    obtain ⟨w, hw, hwq, -⟩ := hcover q List.mem_cons_self
    have hclear' : ∀ r ∈ qs, Clear r (remove q f) := by
      intro r hr p hp hne
      have hnone := hclear r (List.mem_cons_of_mem q hr) p hp hne
      simp [remove, hnone]
    have hstep := (remove_off (hclear q List.mem_cons_self)).addAll_eq hupdate hs
      (remove_separate hs) ⟨w, hw, hwq⟩
    change addAll update ws (removeAll qs (remove q f)) = addAll update ws f
    rw [ih (remove_separate hs) hclear' fun r hr => hcover r (List.mem_cons_of_mem q hr), hstep]

/-- What lies strictly below a write is gone at the end. -/
theorem addAll_none_below (hs : Separate f) {w : List K × N} (hw : w ∈ ws) (hwq : w.1 <+: q)
    (hne : w.1 ≠ q) (hqp : q <+: p) : addAll update ws f p = none := by
  by_contra hp
  have hcovered : Covered (addAll update ws f) w.1 := addAll_covers hw
  obtain ⟨r, hrw, hr⟩ := hcovered
  have hrp : r = p := addAll_separate hs r p hr hp (hrw.trans (hwq.trans hqp))
  subst hrp
  exact hne (hwq.eq_of_length_le (hqp.trans hrw).length_le)

section Undo

variable {xs : List (List K × N)}

/-- Some write lies strictly above the path. -/
def Under (ws : List (List K × N)) (q : List K) : Prop := ∃ w ∈ ws, w.1 <+: q ∧ w.1 ≠ q

theorem undo_necessary (heq : removeAll (xs.map Prod.fst) (addAll update ws (addAll update xs f)) =
      addAll update ws (Layer.empty : Layer K N)) (hq : q ∈ xs.map Prod.fst)
    (hbelow : ∃ w ∈ ws, q <+: w.1) : Under ws q := by
  by_contra hnone
  obtain ⟨w, hw, hqw⟩ := hbelow
  -- The later write has left a value, which the removal takes away.
  have hcovered : Covered (addAll update ws (Layer.empty : Layer K N)) w.1 := addAll_covers hw
  obtain ⟨r, hrw, hr⟩ := hcovered
  obtain hempty | ⟨w', hw', rfl⟩ := ne_none_of_addAll hr
  · exact hempty rfl
  have hqr : q <+: w'.1 := by
    obtain hrq | hqr := List.prefix_or_prefix_of_prefix hrw hqw
    · by_cases hsame : w'.1 = q
      · rw [hsame]
      · exact absurd ⟨w', hw', hrq, hsame⟩ hnone
    · exact hqr
  rw [← heq] at hr
  exact hr (removeAll_eq_none.mpr (Or.inr ⟨q, hq, hqr⟩))

theorem clear_of_incomparable (hxs : Incomparable (xs.map Prod.fst)) (hq : q ∈ xs.map Prod.fst) :
    Clear q (addAll update xs (Layer.empty : Layer K N)) := by
  intro p hp hne
  by_contra hsome
  obtain hempty | ⟨w, hw, rfl⟩ := ne_none_of_addAll hsome
  · exact hempty rfl
  · exact hne (hxs w.1 (List.mem_map_of_mem hw) q hq hp)

open Classical in
/-- Under a later write there is nothing to remove. -/
theorem removeAll_under (hs : Separate f) :
    removeAll qs (addAll update ws f) =
      removeAll (qs.filter fun q => ¬ Under ws q) (addAll update ws f) := by
  funext p
  by_cases hfree : ∃ q ∈ qs.filter (fun q => ¬ Under ws q), q <+: p
  · rw [removeAll_eq_none.mpr (Or.inr hfree)]
    obtain ⟨q, hq, hqp⟩ := hfree
    exact removeAll_eq_none.mpr (Or.inr ⟨q, (List.mem_filter.mp hq).1, hqp⟩)
  · have hkept : removeAll (qs.filter fun q => ¬ Under ws q) (addAll update ws f) p =
        addAll update ws f p := removeAll_of_not fun q hq hqp => hfree ⟨q, hq, hqp⟩
    rw [hkept]
    by_cases hp : ∃ q ∈ qs, q <+: p
    · obtain ⟨q, hq, hqp⟩ := hp
      have hunder : Under ws q := by
        by_contra hnot
        exact hfree ⟨q, List.mem_filter.mpr ⟨hq, decide_eq_true hnot⟩, hqp⟩
      obtain ⟨w, hw, hwq, hne⟩ := hunder
      rw [addAll_none_below hs hw hwq hne hqp]
      exact removeAll_eq_none.mpr (Or.inr ⟨q, hq, hqp⟩)
    · exact removeAll_of_not fun q hq hqp => hp ⟨q, hq, hqp⟩

open Classical in
theorem undo_sufficient (hupdate : ∀ v n, update v [] n = n)
    (hxs : Incomparable (xs.map Prod.fst))
    (h : ∀ q ∈ xs.map Prod.fst, (∃ w ∈ ws, q <+: w.1) → Under ws q) :
    removeAll (xs.map Prod.fst) (addAll update ws (addAll update xs Layer.empty)) =
      addAll update ws (Layer.empty : Layer K N) := by
  let written : Layer K N := addAll update xs Layer.empty
  let under : List (List K) := (xs.map Prod.fst).filter fun q => Under ws q
  let free : List (List K) := (xs.map Prod.fst).filter fun q => ¬ Under ws q
  have hsep : Separate written := addAll_separate empty_separate
  have hunder : ∀ q ∈ under, q ∈ xs.map Prod.fst ∧ Under ws q := by
    intro q hq
    simpa [under] using hq
  have hfree : ∀ q ∈ free, ∀ w ∈ ws, ¬ q <+: w.1 := by
    intro q hq w hw hqw
    obtain ⟨hmem, hnot⟩ := List.mem_filter.mp hq
    exact of_decide_eq_true hnot (h q hmem ⟨w, hw, hqw⟩)
  have hgone : removeAll free (removeAll under written) = Layer.empty := by
    funext p
    have hall : removeAll (xs.map Prod.fst) written p = none := by
      simp only [written, removeAll_written]
      rfl
    rw [removeAll_eq_none] at hall
    refine removeAll_eq_none.mpr ?_
    rw [removeAll_eq_none]
    obtain hnone | ⟨q, hq, hqp⟩ := hall
    · exact Or.inl (Or.inl hnone)
    · by_cases hu : Under ws q
      · exact Or.inl (Or.inr ⟨q, List.mem_filter.mpr ⟨hq, decide_eq_true hu⟩, hqp⟩)
      · exact Or.inr ⟨q, List.mem_filter.mpr ⟨hq, decide_eq_true hu⟩, hqp⟩
  calc
    removeAll (xs.map Prod.fst) (addAll update ws written)
      = removeAll free (addAll update ws written) := removeAll_under hsep
    _ = removeAll free (addAll update ws (removeAll under written)) := by
      rw [addAll_removeAll_covered hupdate hsep
        (fun q hq => clear_of_incomparable hxs (hunder q hq).1) fun q hq => (hunder q hq).2]
    _ = addAll update ws (removeAll free (removeAll under written)) := removeAll_addAll hfree
    _ = addAll update ws Layer.empty := by rw [hgone]

/-- Removing the paths of the first writes undoes them, exactly if a later write at or below
one of these paths never comes without another one strictly above it. -/
theorem undo_iff (hupdate : ∀ v n, update v [] n = n) (hxs : Incomparable (xs.map Prod.fst)) :
    removeAll (xs.map Prod.fst) (addAll update ws (addAll update xs Layer.empty)) =
        addAll update ws (Layer.empty : Layer K N) ↔
      ∀ q ∈ xs.map Prod.fst, (∃ w ∈ ws, q <+: w.1) → Under ws q :=
  ⟨fun heq _ hq hbelow => undo_necessary heq hq hbelow, undo_sufficient hupdate hxs⟩

end Undo

end Remove

section Apart

variable [DecidableEq K] {update : N → List K → N → N} {ws : List (List K × N)} {p : List K}
  {n : N}

/-- Writes at paths of which none is at or below another keep each other as they are. -/
theorem addAll_eq_some_iff
    (h : (ws.map Prod.fst).Pairwise fun p q => ¬ p <+: q ∧ ¬ q <+: p) :
    addAll update ws Layer.empty p = some n ↔ (p, n) ∈ ws := by
  induction ws using List.reverseRecOn generalizing p n with
  | nil => simp [addAll, Layer.empty]
  | append_singleton ws w ih =>
    rw [List.map_append, List.pairwise_append] at h
    obtain ⟨hws, -, hw⟩ := h
    have hwritten : ∀ q, addAll update ws (Layer.empty : Layer K N) q ≠ none →
        ¬ q <+: w.1 ∧ ¬ w.1 <+: q := by
      intro q hq
      obtain hempty | ⟨x, hx, rfl⟩ := ne_none_of_addAll hq
      · exact absurd rfl hempty
      · exact hw x.1 (List.mem_map_of_mem hx) w.1 List.mem_cons_self
    have hnone : rootMost (addAll update ws (Layer.empty : Layer K N)) w.1 = none := by
      refine rootMost_none.mpr fun q hq => ?_
      by_contra hne
      exact (hwritten q hne).1 hq
    have hlast : addAll update (ws ++ [w]) (Layer.empty : Layer K N) =
        add update w.1 w.2 (addAll update ws Layer.empty) := List.foldl_append
    rw [hlast, add_of_none hnone, List.mem_append, List.mem_singleton]
    beta_reduce
    by_cases hpre : w.1 <+: p
    · have hold : (p, n) ∉ ws := by
        intro hmem
        have hsome := (ih hws).mpr hmem
        exact (hwritten p (by simp [hsome])).2 hpre
      by_cases hp : p = w.1
      · rw [if_pos hpre, if_pos hp, Option.some.injEq]
        constructor
        · intro hn
          exact Or.inr (Prod.ext hp hn.symm)
        · intro hmem
          exact (congrArg Prod.snd (hmem.resolve_left hold)).symm
      · simp [hpre, hp, hold, Prod.ext_iff]
    · have hp : p ≠ w.1 := fun hp => hpre (hp ▸ List.prefix_refl p)
      simp [hpre, ih hws, hp, Prod.ext_iff]

end Apart

section Complete

variable [DecidableEq K] (update : N → List K → N → N) (get : N → List K → N)

/-- What a layer says about the value at a path: the part of the value nearest to the root. -/
def complete (f : Layer K N) (p : List K) : Option N :=
  (rootMost f p).map fun x => get x.2 (p.drop x.1.length)

/-- What is known of the value at `p` after a write. -/
def seen (p : List K) (known : Option N) (w : List K × N) : Option N :=
  if w.1 <+: p then some (get w.2 (p.drop w.1.length))
  else if p <+: w.1 then known.map fun v => update v (w.1.drop p.length) w.2
  else known

/-- How a value reads after an update, at the ends of a path. -/
structure ReadsBack (p : List K) : Prop where
  below : ∀ v n a b, a ++ b <:+ p → get (update v a n) (a ++ b) = get n b
  above : ∀ v n a b, a <:+ p → get (update v (a ++ b) n) a = update (get v a) b n
  apart : ∀ v n a b, a <:+ p → ¬ a <+: b → ¬ b <+: a → get (update v b n) a = get v a

variable {update get} {f : Layer K N} {p q r : List K} {n v : N}

theorem rootMost_of_value (hr : r <+: p) (hv : f r = some v) (hc : Clear r f) :
    rootMost f p = some (r, v) := by
  rcases h : rootMost f p with _ | ⟨s, w⟩
  · rw [rootMost_none.mp h r hr] at hv
    cases hv
  · obtain ⟨hs, hval, hclear⟩ := rootMost_some h
    have hsame : s = r := by
      by_contra hne
      obtain hsr | hrs := List.prefix_or_prefix_of_prefix hs hr
      · rw [hc s hsr hne] at hval
        cases hval
      · rw [hclear r hrs (Ne.symm hne)] at hv
        cases hv
    rw [hsame, hv] at hval
    rw [hsame, Option.some.inj hval]

/-- A write into a value that lies on the path that is read. -/
theorem get_update_seen (h : ReadsBack update get p) (hrq : r <+: q) (hrp : r <+: p) :
    some (get (update v (q.drop r.length) n) (p.drop r.length)) =
      seen update get p (some (get v (p.drop r.length))) (q, n) := by
  obtain ⟨a, rfl⟩ := hrq
  obtain ⟨b, rfl⟩ := hrp
  have hsuffix : b <:+ r ++ b := List.suffix_append r b
  simp only [seen, List.drop_left, List.prefix_append_right_inj, List.length_append]
  split_ifs with hab hba
  · obtain ⟨c, rfl⟩ := hab
    rw [h.below v n a c hsuffix, ← List.length_append, ← List.append_assoc, List.drop_left]
  · obtain ⟨c, rfl⟩ := hba
    rw [h.above v n b c hsuffix, Option.map_some, ← List.length_append, ← List.append_assoc,
      List.drop_left]
  · rw [h.apart v n b a hsuffix hba hab]

theorem complete_add (h : ReadsBack update get p) :
    complete get (add update q n f) p = seen update get p (complete get f p) (q, n) := by
  rcases hq : rootMost f q with _ | ⟨r, v⟩
  · have hnone := rootMost_none.mp hq
    have hkept : ¬ q <+: p → rootMost (add update q n f) p = rootMost f p := by
      intro hqp
      refine rootMost_congr fun s hs => ?_
      rw [add_of_none hq]
      exact if_neg fun hqs => hqp (hqs.trans hs)
    simp only [complete, seen]
    split_ifs with hqp hpq
    · have hclear : Clear q (add update q n f) := by
        intro s hs hne
        rw [add_of_none hq]
        exact (if_neg (not_prefix_of_strict hs hne)).trans (hnone s hs)
      rw [rootMost_of_value (v := n) hqp (by simp [add_of_none hq]) hclear, Option.map_some]
    · have hp : rootMost f p = none := rootMost_none.mpr fun s hs => hnone s (hs.trans hpq)
      rw [hkept hqp, hp]
      rfl
    · rw [hkept hqp]
  · obtain ⟨hrq, hval, hclear⟩ := rootMost_some hq
    by_cases hrp : r <+: p
    · have hclear' : Clear r (add update q n f) := by
        intro s hs hne
        rw [add_of_rootMost hq, Function.update_of_ne hne]
        exact hclear s hs hne
      have hnew : rootMost (add update q n f) p = some (r, update v (q.drop r.length) n) :=
        rootMost_of_value hrp (by simp [add_of_rootMost hq]) hclear'
      rw [complete, complete, hnew, rootMost_of_value hrp hval hclear]
      exact get_update_seen h hrq hrp
    · have hkept : rootMost (add update q n f) p = rootMost f p := by
        refine rootMost_congr fun s hs => ?_
        rw [add_of_rootMost hq, Function.update_of_ne fun hsr : s = r => hrp (hsr ▸ hs)]
      rw [complete, hkept, ← complete, seen, if_neg fun hqp => hrp (hrq.trans hqp)]
      split_ifs with hpq
      · -- The value written to lies below the path, so nothing is known there.
        have hpr : p <+: r := (List.prefix_or_prefix_of_prefix hrq hpq).resolve_left hrp
        have hp : rootMost f p = none := rootMost_none.mpr fun s hs =>
          hclear s (hs.trans hpr) fun hsr => hrp (hsr ▸ hs)
        rw [complete, hp]
        rfl
      · rfl

/-- The layer of all the writes knows at a path what the writes, one by one, leave there. -/
theorem complete_addAll (h : ReadsBack update get p) (ws : List (List K × N)) :
    complete get (addAll update ws f) p = ws.foldl (seen update get p) (complete get f p) := by
  induction ws generalizing f with
  | nil => rfl
  | cons w ws ih =>
    rw [List.foldl_cons, ← complete_add h, ← ih]
    rfl

end Complete

end CardPang.PathLayer
