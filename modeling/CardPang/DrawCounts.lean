import CardPang.DistinctDraws

/-!
# How many draws it takes

The sequences of `l` draws from `N` values are counted by how many different values
they show. Summed over all lengths, the shares of those with `i` different values give
the mean number of draws that the loop spends while it has `i` values.
-/
namespace CardPang.DistinctDraws
open Finset

section Recurrence

variable {x y : ℕ → ℝ} {r Y : ℝ}

lemma sum_range_le_of_recurrence (hr0 : 0 ≤ r) (hr1 : r < 1) (hx0 : x 0 = 0)
    (hy : ∀ l, 0 ≤ y l) (hrec : ∀ l, x (l + 1) = r * x l + y l) (hY : HasSum y Y) (l : ℕ) :
    ∑ j ∈ range l, x j ≤ Y / (1 - r) := by
  have hpos : 0 < 1 - r := by linarith
  have hYr : Y / (1 - r) = r * (Y / (1 - r)) + Y := by
    field_simp
    ring
  induction l with
  | zero => simpa using div_nonneg (hY.nonneg hy) hpos.le
  | succ l ih =>
    have hsum : ∑ j ∈ range l, y j ≤ Y := sum_le_hasSum _ (fun j _ => hy j) hY
    calc
      ∑ j ∈ range (l + 1), x j = r * ∑ j ∈ range l, x j + ∑ j ∈ range l, y j := by
        rw [sum_range_succ', hx0, add_zero, mul_sum, ← sum_add_distrib]
        exact sum_congr rfl fun j _ => hrec j
      _ ≤ r * (Y / (1 - r)) + Y := add_le_add (mul_le_mul_of_nonneg_left ih hr0) hsum
      _ = Y / (1 - r) := hYr.symm

/-- A sequence that keeps the part `r` of itself and receives `y` sums to what it
receives, over `1 - r`. -/
theorem hasSum_of_recurrence (hr0 : 0 ≤ r) (hr1 : r < 1) (hx0 : x 0 = 0) (hx : ∀ l, 0 ≤ x l)
    (hy : ∀ l, 0 ≤ y l) (hrec : ∀ l, x (l + 1) = r * x l + y l) (hY : HasSum y Y) :
    HasSum x (Y / (1 - r)) := by
  have hsummable : Summable x :=
    summable_of_sum_range_le hx (sum_range_le_of_recurrence hr0 hr1 hx0 hy hrec hY)
  have htail : tsum (fun l => x (l + 1)) = r * tsum x + Y := by
    rw [← tsum_mul_left, ← hY.tsum_eq, ← (hsummable.mul_left r).tsum_add hY.summable]
    exact tsum_congr hrec
  have htotal : tsum x = r * tsum x + Y := by
    nth_rewrite 1 [hsummable.tsum_eq_zero_add]
    rw [hx0, zero_add, htail]
  have hpos : 1 - r ≠ 0 := by linarith
  have hvalue : tsum x = Y / (1 - r) := by
    rw [eq_div_iff hpos]
    linarith
  exact hvalue ▸ hsummable.hasSum

end Recurrence

variable {α : Type*} [DecidableEq α]

/-- The loop has not stopped exactly while the draws show fewer than `n` values. -/
theorem collect_eq_none_iff {n : ℕ} {past ds : List α} :
    collect n past.eraseDups ds = none ↔ (past ++ ds).toFinset.card < n := by
  induction ds generalizing past with
  | nil =>
    rw [collect, length_eraseDups, List.append_nil]
    split_ifs with h <;> simp [h]
  | cons d ds ih =>
    rw [collect, ← eraseDups_concat, length_eraseDups]
    split_ifs with h
    · rw [ih, List.append_assoc, List.singleton_append]
    · have hle : past.toFinset.card ≤ (past ++ d :: ds).toFinset.card := by
        apply card_le_card
        rw [List.toFinset_append]
        exact subset_union_left
      refine iff_of_false (by simp) ?_
      omega

section Count

variable [Fintype α]

variable (α) in
/-- The sequences of `l` draws that show exactly `i` different values. -/
def runsWith (l i : ℕ) : Finset (Fin l → α) :=
  univ.filter fun run => (univ.image run).card = i

omit [Fintype α] in
lemma image_cons {l : ℕ} (d : α) (run : Fin l → α) :
    univ.image (Fin.cons d run : Fin (l + 1) → α) = insert d (univ.image run) := by
  ext a
  simp [Fin.exists_fin_succ, eq_comm]

lemma card_filter_insert (S : Finset α) (i : ℕ) :
    (univ.filter fun d => (insert d S).card = i + 1).card =
      (if S.card = i + 1 then i + 1 else 0) +
        if S.card = i then Fintype.card α - i else 0 := by
  have hcard : ∀ d, (insert d S).card = if d ∈ S then S.card else S.card + 1 := by
    intro d
    split_ifs with hd
    · rw [insert_eq_of_mem hd]
    · rw [card_insert_of_notMem hd]
  have hsplit : (univ.filter fun d => (insert d S).card = i + 1) =
      if S.card = i + 1 then S else if S.card = i then Sᶜ else ∅ := by
    ext d
    rw [mem_filter, hcard]
    split_ifs <;> simp_all
  rw [hsplit]
  split_ifs with hmore heq
  · omega
  · omega
  · rw [card_compl]
    omega
  · simp

/-- The first draw is one of the values that follow, or a new one. -/
theorem card_runsWith_succ (l i : ℕ) :
    (runsWith α (l + 1) (i + 1)).card =
      (i + 1) * (runsWith α l (i + 1)).card + (Fintype.card α - i) * (runsWith α l i).card := by
  calc
    (runsWith α (l + 1) (i + 1)).card
      = ∑ run : Fin (l + 1) → α, if (univ.image run).card = i + 1 then 1 else 0 := by
        rw [runsWith, card_filter]
    _ = ∑ p : α × (Fin l → α), if (insert p.1 (univ.image p.2)).card = i + 1 then 1 else 0 := by
        refine (Fintype.sum_equiv (Fin.consEquiv fun _ => α) _ _ fun p => ?_).symm
        rw [← image_cons]
        rfl
    _ = ∑ run : Fin l → α, (univ.filter fun d => (insert d (univ.image run)).card = i + 1).card := by
        rw [Fintype.sum_prod_type_right]
        exact sum_congr rfl fun run _ => (card_filter _ _).symm
    _ = (i + 1) * (runsWith α l (i + 1)).card + (Fintype.card α - i) * (runsWith α l i).card := by
        simp_rw [card_filter_insert]
        simp only [sum_add_distrib, runsWith, card_filter, mul_sum, mul_ite, mul_one, mul_zero]

lemma runsWith_zero_zero : (runsWith α 0 0).card = 1 := by
  simp [runsWith]

lemma runsWith_zero_succ (i : ℕ) : (runsWith α 0 (i + 1)).card = 0 := by
  simp [runsWith]

lemma runsWith_succ_zero (l : ℕ) : (runsWith α (l + 1) 0).card = 0 := by
  rw [runsWith, card_eq_zero, filter_eq_empty_iff]
  intro run _ hrun
  rw [card_eq_zero] at hrun
  exact absurd (mem_image_of_mem run (mem_univ 0)) (by simp [hrun])

variable (α) in
/-- The share of the sequences of `l` draws that show exactly `i` different values. -/
noncomputable def share (l i : ℕ) : ℝ := (runsWith α l i).card / (Fintype.card α : ℝ) ^ l

lemma share_nonneg (l i : ℕ) : 0 ≤ share α l i := by
  unfold share
  positivity

lemma share_succ {i : ℕ} (hi : i < Fintype.card α) (l : ℕ) :
    share α (l + 1) (i + 1) = ((i + 1 : ℕ) / (Fintype.card α : ℝ)) * share α l (i + 1) +
      ((Fintype.card α - i) / (Fintype.card α : ℝ)) * share α l i := by
  have hpos : (Fintype.card α : ℝ) ≠ 0 := by
    have : 0 < Fintype.card α := by omega
    positivity
  rw [share, share, share, card_runsWith_succ]
  push_cast [Nat.cast_sub hi.le]
  field_simp
  ring

/-- While the loop has `i` values it makes `N / (N - i)` draws on average. -/
theorem hasSum_share {i : ℕ} (hi : i < Fintype.card α) :
    HasSum (fun l => share α l i) (Fintype.card α / (Fintype.card α - i)) := by
  have hN : (0 : ℝ) < Fintype.card α := by
    exact_mod_cast (Nat.zero_le i).trans_lt hi
  induction i with
  | zero =>
    have hfirst : (fun l => share α l 0) = fun l => if l = 0 then 1 else 0 := by
      funext l
      cases l with
      | zero => simp [share, runsWith_zero_zero]
      | succ l => simp [share, runsWith_succ_zero]
    rw [hfirst, Nat.cast_zero, sub_zero, div_self hN.ne']
    exact hasSum_ite_eq 0 1
  | succ i ih =>
    have hlt : ((i + 1 : ℕ) : ℝ) < Fintype.card α := by exact_mod_cast hi
    have hprev : (0 : ℝ) < Fintype.card α - i := by
      push_cast at hlt
      linarith
    have hin := (ih (by omega)).mul_left ((Fintype.card α - i) / (Fintype.card α : ℝ))
    have hsum := hasSum_of_recurrence (x := fun l => share α l (i + 1))
      (r := ((i + 1 : ℕ) : ℝ) / Fintype.card α) (by positivity) ((div_lt_one hN).mpr hlt)
      (by simp [share, runsWith_zero_succ]) (fun l => share_nonneg l (i + 1))
      (fun l => mul_nonneg (div_nonneg hprev.le hN.le) (share_nonneg l i))
      (fun l => share_succ (by omega) l) hin
    convert hsum using 1
    have hnext : (Fintype.card α : ℝ) - (i + 1 : ℕ) ≠ 0 := by linarith
    field_simp

variable (α) in
/-- The sequences of `l` draws within which the loop does not stop. -/
def runsUnstopped (n l : ℕ) : Finset (Fin l → α) :=
  univ.filter fun run => collect n [] (List.ofFn run) = none

omit [Fintype α] in
lemma toFinset_ofFn {l : ℕ} (run : Fin l → α) : (List.ofFn run).toFinset = univ.image run := by
  ext a
  simp [List.mem_ofFn]

lemma card_runsUnstopped (n l : ℕ) :
    (runsUnstopped α n l).card = ∑ i ∈ range n, (runsWith α l i).card := by
  have hunion : runsUnstopped α n l = (range n).biUnion (runsWith α l) := by
    ext run
    have hnone : collect n ([] : List α).eraseDups (List.ofFn run) = none ↔ _ :=
      collect_eq_none_iff
    rw [List.eraseDups_nil, List.nil_append, toFinset_ofFn] at hnone
    simp [runsUnstopped, runsWith, hnone]
  rw [hunion, card_biUnion]
  intro i _ j _ hij
  rw [Function.onFun, disjoint_left]
  intro run hi hj
  exact hij ((mem_filter.mp hi).2.symm.trans (mem_filter.mp hj).2)

/-- The mean number of draws of the loop: the shares of the sequences on which it goes
on sum to `N / N + N / (N - 1) + …`, with one term for each of the `n` values. -/
theorem hasSum_runsUnstopped {n : ℕ} (hn : n ≤ Fintype.card α) :
    HasSum (fun l => ((runsUnstopped α n l).card : ℝ) / (Fintype.card α : ℝ) ^ l)
      (∑ i ∈ range n, (Fintype.card α : ℝ) / (Fintype.card α - i)) := by
  have hsplit : (fun l => ((runsUnstopped α n l).card : ℝ) / (Fintype.card α : ℝ) ^ l) =
      fun l => ∑ i ∈ range n, share α l i := by
    funext l
    rw [card_runsUnstopped, Nat.cast_sum, sum_div]
    rfl
  rw [hsplit]
  apply hasSum_sum
  intro i hi
  exact hasSum_share ((mem_range.mp hi).trans_le hn)

end Count

end CardPang.DistinctDraws
