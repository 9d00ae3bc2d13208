import Mathlib

/-!
# Drawing until enough different values have come up

The loop keeps the drawn values in the order of their first occurrence and stops
when it has `n` of them. A draw that repeats an earlier one is thrown away, so
nothing decreases from one draw to the next; where the loop stops is a property of
the draws alone.
-/
namespace CardPang.DistinctDraws

variable {α β : Type*}

/-- The first `k` draws of a stream. -/
def firstDraws (draws : ℕ → α) (k : ℕ) : List α := (List.range k).map draws

lemma length_firstDraws (draws : ℕ → α) (k : ℕ) : (firstDraws draws k).length = k := by
  simp [firstDraws]

lemma take_firstDraws {draws : ℕ → α} {k l : ℕ} (h : k ≤ l) :
    (firstDraws draws l).take k = firstDraws draws k := by
  rw [firstDraws, ← List.map_take, List.take_range, min_eq_left h, firstDraws]

variable [DecidableEq α] [DecidableEq β]

def keep (seen : List α) (d : α) : List α := if d ∈ seen then seen else seen ++ [d]

/-- The values collected and the draws left over, or nothing if the draws run out. -/
def collect (n : ℕ) : List α → List α → Option (List α × List α)
  | seen, [] => if seen.length < n then none else some (seen, [])
  | seen, d :: ds =>
    if seen.length < n then collect n (keep seen d) ds else some (seen, d :: ds)

section Map

variable {f : α → β}

lemma toFinset_map (f : α → β) (l : List α) : (l.map f).toFinset = l.toFinset.image f := by
  ext y
  simp

lemma keep_map (hf : Function.Injective f) (seen : List α) (d : α) :
    keep (seen.map f) (f d) = (keep seen d).map f := by
  unfold keep
  by_cases hd : d ∈ seen
  · rw [if_pos hd, if_pos (List.mem_map_of_mem hd)]
  · rw [if_neg hd, if_neg (mt (List.mem_map_of_injective hf).mp hd), List.map_append]
    rfl

/-- The loop does not look at what the values are. -/
theorem collect_map (hf : Function.Injective f) (n : ℕ) (seen ds : List α) :
    collect n (seen.map f) (ds.map f) =
      (collect n seen ds).map (Prod.map (List.map f) (List.map f)) := by
  induction ds generalizing seen with
  | nil =>
    simp only [List.map_nil, collect, List.length_map]
    split_ifs <;> rfl
  | cons d ds ih =>
    simp only [List.map_cons, collect, List.length_map, keep_map hf]
    split_ifs
    · exact ih (keep seen d)
    · rfl

end Map

section Stop

lemma eraseDups_concat (ds : List α) (d : α) :
    (ds ++ [d]).eraseDups = keep ds.eraseDups d := by
  rw [List.eraseDups_append, keep]
  by_cases h : d ∈ ds
  · simp [List.removeAll, h]
  · simp [List.removeAll, h, List.eraseDups_cons]

lemma nodup_keep {seen : List α} (h : seen.Nodup) (d : α) : (keep seen d).Nodup := by
  unfold keep
  split_ifs with hd
  · exact h
  · refine List.nodup_append.mpr ⟨h, List.nodup_singleton d, ?_⟩
    intro a ha b hb
    rw [List.mem_singleton.mp hb]
    exact ne_of_mem_of_not_mem ha hd

lemma nodup_eraseDups (ds : List α) : ds.eraseDups.Nodup := by
  induction ds using List.reverseRecOn with
  | nil => simp
  | append_singleton ds d ih =>
    rw [eraseDups_concat]
    exact nodup_keep ih d

lemma length_eraseDups (ds : List α) : ds.eraseDups.length = ds.toFinset.card := by
  rw [← List.toFinset_card_of_nodup (nodup_eraseDups ds)]
  congr 1
  ext a
  simp

/-- After the draws `past` the loop makes `k` more of the draws `ds` and then stops. -/
structure StopsAt (n : ℕ) (past ds : List α) (k : ℕ) : Prop where
  le : k ≤ ds.length
  enough : n ≤ (past ++ ds.take k).eraseDups.length
  before : ∀ j < k, (past ++ ds.take j).eraseDups.length < n

variable {n k : ℕ} {past ds out rest : List α}

lemma stopsAt_zero_iff : StopsAt n past ds 0 ↔ n ≤ past.eraseDups.length := by
  constructor
  · intro h
    simpa using h.enough
  · intro h
    exact ⟨Nat.zero_le _, by simpa using h, fun j hj => absurd hj (Nat.not_lt_zero j)⟩

lemma StopsAt.eq_zero (h : StopsAt n past ds k) (hfull : n ≤ past.eraseDups.length) : k = 0 := by
  by_contra hk
  have hfirst := h.before 0 (Nat.pos_of_ne_zero hk)
  rw [List.take_zero, List.append_nil] at hfirst
  omega

lemma stopsAt_succ_iff {d : α} (hlt : past.eraseDups.length < n) :
    StopsAt n past (d :: ds) (k + 1) ↔ StopsAt n (past ++ [d]) ds k := by
  have htake : ∀ j, past ++ (d :: ds).take (j + 1) = past ++ [d] ++ ds.take j := by simp
  constructor
  · rintro ⟨hle, henough, hbefore⟩
    refine ⟨Nat.le_of_succ_le_succ hle, htake k ▸ henough, ?_⟩
    intro j hj
    exact htake j ▸ hbefore (j + 1) (Nat.succ_lt_succ hj)
  · rintro ⟨hle, henough, hbefore⟩
    refine ⟨Nat.succ_le_succ hle, (htake k).symm ▸ henough, ?_⟩
    intro j hj
    cases j with
    | zero => simpa using hlt
    | succ j => exact (htake j).symm ▸ hbefore j (Nat.lt_of_succ_lt_succ hj)

lemma collect_of_full {seen : List α} (h : n ≤ seen.length) :
    collect n seen ds = some (seen, ds) := by
  have hfull : ¬ seen.length < n := by omega
  cases ds with
  | nil => rw [collect, if_neg hfull]
  | cons d ds => rw [collect, if_neg hfull]

lemma collect_full_iff (hfull : n ≤ past.eraseDups.length) :
    collect n past.eraseDups ds = some (out, rest) ↔
      ∃ k, StopsAt n past ds k ∧ out = (past ++ ds.take k).eraseDups ∧ rest = ds.drop k := by
  rw [collect_of_full hfull]
  simp only [Option.some.injEq, Prod.mk.injEq]
  constructor
  · rintro ⟨rfl, rfl⟩
    exact ⟨0, stopsAt_zero_iff.mpr hfull, by simp, rfl⟩
  · rintro ⟨k, hk, rfl, rfl⟩
    obtain rfl := hk.eq_zero hfull
    simp

/-- The loop in the middle of its draws, `past` being those already made. -/
theorem collect_after_iff :
    collect n past.eraseDups ds = some (out, rest) ↔
      ∃ k, StopsAt n past ds k ∧ out = (past ++ ds.take k).eraseDups ∧ rest = ds.drop k := by
  induction ds generalizing past with
  | nil =>
    by_cases hlt : past.eraseDups.length < n
    · rw [collect, if_pos hlt]
      constructor
      · intro h
        cases h
      · rintro ⟨k, hk, -, -⟩
        obtain rfl : k = 0 := Nat.le_zero.mp hk.le
        exact absurd (stopsAt_zero_iff.mp hk) (by omega)
    · exact collect_full_iff (by omega)
  | cons d ds ih =>
    by_cases hlt : past.eraseDups.length < n
    · rw [collect, if_pos hlt, ← eraseDups_concat, ih]
      simp only [List.append_assoc, List.singleton_append]
      constructor
      · rintro ⟨k, hk, rfl, rfl⟩
        exact ⟨k + 1, (stopsAt_succ_iff hlt).mpr hk, rfl, rfl⟩
      · rintro ⟨k, hk, rfl, rfl⟩
        cases k with
        | zero => exact absurd (stopsAt_zero_iff.mp hk) (by omega)
        | succ k => exact ⟨k, (stopsAt_succ_iff hlt).mp hk, rfl, rfl⟩
    · exact collect_full_iff (by omega)

end Stop

section Stream

variable {n : ℕ} {draws : ℕ → α}

lemma stopsAt_firstDraws_iff {k l : ℕ} (hk : k ≤ l) :
    StopsAt n [] (firstDraws draws l) k ↔
      IsLeast {k | n ≤ (firstDraws draws k).toFinset.card} k := by
  have hcard : ∀ j ≤ l, ([] ++ (firstDraws draws l).take j).eraseDups.length =
      (firstDraws draws j).toFinset.card := by
    intro j hj
    rw [List.nil_append, take_firstDraws hj, length_eraseDups]
  constructor
  · rintro ⟨-, henough, hbefore⟩
    rw [hcard k hk] at henough
    refine ⟨henough, ?_⟩
    intro j (hj : n ≤ (firstDraws draws j).toFinset.card)
    by_contra hlt
    have hfew := hbefore j (by omega)
    rw [hcard j (by omega)] at hfew
    omega
  · rintro ⟨henough, hleast⟩
    refine ⟨by rwa [length_firstDraws], by rwa [hcard k hk], ?_⟩
    intro j hj
    rw [hcard j (by omega)]
    by_contra hmany
    have hle : k ≤ j := hleast (Nat.le_of_not_lt hmany)
    omega

/-- On the first draws of a stream the loop stops at the least number of draws that
contains `n` different values. -/
theorem collect_firstDraws_iff {l : ℕ} {out rest : List α} :
    collect n [] (firstDraws draws l) = some (out, rest) ↔
      ∃ k ≤ l, IsLeast {k | n ≤ (firstDraws draws k).toFinset.card} k ∧
        out = (firstDraws draws k).eraseDups ∧ rest = (firstDraws draws l).drop k := by
  have hafter : collect n ([] : List α).eraseDups (firstDraws draws l) = some (out, rest) ↔ _ :=
    collect_after_iff
  rw [List.eraseDups_nil] at hafter
  rw [hafter]
  constructor
  · rintro ⟨k, hstop, hout, hrest⟩
    have hk : k ≤ l := by simpa [length_firstDraws] using hstop.le
    rw [List.nil_append, take_firstDraws hk] at hout
    exact ⟨k, hk, (stopsAt_firstDraws_iff hk).mp hstop, hout, hrest⟩
  · rintro ⟨k, hk, hleast, hout, hrest⟩
    rw [← take_firstDraws hk, ← List.nil_append (List.take _ _)] at hout
    exact ⟨k, (stopsAt_firstDraws_iff hk).mpr hleast, hout, hrest⟩

/-- Some beginning of a stream has `n` different values iff the stream has. -/
theorem exists_firstDraws_iff :
    (∃ k, n ≤ (firstDraws draws k).toFinset.card) ↔ (n : ℕ∞) ≤ (Set.range draws).encard := by
  constructor
  · rintro ⟨k, hk⟩
    have hsub : ((firstDraws draws k).toFinset : Set α) ⊆ Set.range draws := by
      intro a ha
      obtain ⟨i, -, rfl⟩ := List.mem_map.mp (List.mem_toFinset.mp ha)
      exact ⟨i, rfl⟩
    calc
      (n : ℕ∞) ≤ ((firstDraws draws k).toFinset.card : ℕ∞) := by exact_mod_cast hk
      _ = ((firstDraws draws k).toFinset : Set α).encard :=
        (Set.encard_coe_eq_coe_finsetCard _).symm
      _ ≤ (Set.range draws).encard := Set.encard_le_encard hsub
  · intro h
    obtain ⟨t, ht, hcard⟩ := Set.exists_subset_encard_eq h
    have hfin : t.Finite := Set.finite_of_encard_eq_coe hcard
    obtain ⟨t, rfl⟩ := hfin.exists_finset_coe
    rw [Set.encard_coe_eq_coe_finsetCard, Nat.cast_inj] at hcard
    rw [← Set.image_univ] at ht
    obtain ⟨is, -, rfl⟩ := Finset.subset_set_image_iff.mp ht
    refine ⟨is.sup id + 1, ?_⟩
    rw [← hcard]
    apply Finset.card_le_card
    intro a ha
    obtain ⟨i, hi, rfl⟩ := Finset.mem_image.mp ha
    have hle : i ≤ is.sup id := Finset.le_sup (f := id) hi
    simp only [firstDraws, List.mem_toFinset, List.mem_map, List.mem_range]
    exact ⟨i, by omega, rfl⟩

end Stream

section Fair

variable [Fintype α] {n l : ℕ} {S T : Finset α}

/-- The sequences of `l` draws within which the loop stops with exactly the values of `S`. -/
def runsCollecting (n l : ℕ) (S : Finset α) : Finset (Fin l → α) :=
  Finset.univ.filter fun run =>
    (collect n [] (List.ofFn run)).map (fun p => p.1.toFinset) = some S

lemma mem_runsCollecting_relabel (σ : Equiv.Perm α) (run : Fin l → α) :
    run ∈ runsCollecting n l S ↔ ⇑σ ∘ run ∈ runsCollecting n l (S.image σ) := by
  have hmap := collect_map σ.injective n [] (List.ofFn run)
  rw [List.map_nil, List.map_ofFn] at hmap
  simp only [runsCollecting, Finset.mem_filter, Finset.mem_univ, true_and, hmap]
  cases collect n [] (List.ofFn run) with
  | none => simp
  | some p =>
    simp only [Option.map_some, Option.some.injEq, Prod.map_fst, toFinset_map]
    exact (Finset.image_injective σ.injective).eq_iff.symm

/-- Every set of values of one size comes up equally often. -/
theorem card_runsCollecting_eq (h : S.card = T.card) :
    (runsCollecting n l S).card = (runsCollecting n l T).card := by
  obtain ⟨σ, rfl⟩ := Equiv.Perm.exists_map_finset_eq S T h
  rw [Finset.map_eq_image]
  exact Finset.card_equiv (Equiv.arrowCongr (Equiv.refl _) σ) fun run =>
    mem_runsCollecting_relabel σ run

end Fair

end CardPang.DistinctDraws
