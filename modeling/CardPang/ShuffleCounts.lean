import CardPang.SwapShuffle

/-!
# Where the swaps take an entry

With one swap for each position, drawn from all positions, the share of the draws
that take the entry of one position to another has a closed form. The recurrence runs
over the swaps: the last one either moves the entry or leaves it where the others have
brought it.
-/
namespace CardPang.SwapShuffle
open Equiv Finset

section Independent

variable {ι β γ : Type*} [Fintype ι] [DecidableEq ι] [Fintype β]

/-- One draw is independent of what the others decide. -/
theorem sum_independent (k : ι) {G : (ι → β) → γ} (φ : β → γ → ℚ)
    (hG : ∀ f j, G (Function.update f k j) = G f) :
    Fintype.card β * ∑ f, φ (f k) (G f) = ∑ f, ∑ j, φ j (G f) := by
  let exchange : (ι → β) × β ≃ (ι → β) × β :=
    { toFun := fun p => (Function.update p.1 k p.2, p.1 k)
      invFun := fun p => (Function.update p.1 k p.2, p.1 k)
      left_inv := fun p => by simp
      right_inv := fun p => by simp }
  calc
    Fintype.card β * ∑ f, φ (f k) (G f) = ∑ p : (ι → β) × β, φ (p.1 k) (G p.1) := by
      simp only [Fintype.sum_prod_type, sum_const, card_univ, nsmul_eq_mul, mul_sum]
    _ = ∑ p : (ι → β) × β, φ p.2 (G p.1) := by
      refine Fintype.sum_equiv exchange _ _ fun p => ?_
      change _ = φ (p.1 k) (G (Function.update p.1 k p.2))
      rw [hG]
    _ = ∑ f, ∑ j, φ j (G f) := Fintype.sum_prod_type _

end Independent

variable {m : ℕ}

/-- What the swaps of the first `k` positions do together. -/
def swapFirst (f : Fin m → Fin m) (k : ℕ) : Perm (Fin m) :=
  swapProduct f ((List.finRange m).take k)

lemma swapFirst_zero (f : Fin m → Fin m) : swapFirst f 0 = 1 := by
  simp [swapFirst, swapProduct]

lemma swapFirst_self (f : Fin m → Fin m) : swapFirst f m = rearrangement f := by
  rw [swapFirst, List.take_of_length_le (by simp), rearrangement]

lemma swapFirst_succ (f : Fin m → Fin m) (k : Fin m) :
    swapFirst f (k + 1) = swapFirst f k * swap k (f k) := by
  have hk : (k : ℕ) < (List.finRange m).length := by simp
  simp [swapFirst, swapProduct, List.take_succ_eq_append_getElem hk]

lemma swapFirst_update (f : Fin m → Fin m) (k j : Fin m) :
    swapFirst (Function.update f k j) k = swapFirst f k := by
  unfold swapFirst swapProduct
  congr 1
  apply List.map_congr_left
  intro i hi
  obtain ⟨n, hn, rfl⟩ := List.mem_take_iff_getElem.mp hi
  have hne : (List.finRange m)[n] ≠ k := by
    rw [List.getElem_finRange]
    intro heq
    have : n = k := congrArg Fin.val heq
    omega
  rw [Function.update_of_ne hne]

/-- The share of the draws after whose first `k` swaps position `b` holds the entry of
position `a`. -/
def share (a : Fin m) (k : ℕ) (b : Fin m) : ℚ :=
  (∑ f : Fin m → Fin m, if swapFirst f k b = a then 1 else 0) / (m : ℚ) ^ m

lemma share_zero (a b : Fin m) : share a 0 b = if b = a then 1 else 0 := by
  have hpos : (m : ℚ) ≠ 0 := by
    have := a.pos
    positivity
  unfold share
  simp only [swapFirst_zero, Perm.one_apply]
  split_ifs <;> simp [hpos]

/-- Every draw leaves the entry at some position. -/
lemma sum_share (a : Fin m) (k : ℕ) : ∑ b, share a k b = 1 := by
  have hpos : (m : ℚ) ≠ 0 := by
    have := a.pos
    positivity
  have hone : ∀ f : Fin m → Fin m, (∑ b, if swapFirst f k b = a then (1 : ℚ) else 0) = 1 := by
    intro f
    simp only [← Equiv.eq_symm_apply]
    simp
  unfold share
  rw [← sum_div, sum_comm, sum_congr rfl fun f _ => hone f]
  simp [hpos]

lemma share_succ (a k b : Fin m) :
    share a (k + 1) b = (∑ j, share a k (swap k j b)) / m := by
  have hpos : (m : ℚ) ≠ 0 := by
    have := a.pos
    positivity
  have hind := sum_independent k (G := fun f : Fin m → Fin m => swapFirst f k)
    (fun j σ => if σ (swap k j b) = a then 1 else 0) (fun f j => swapFirst_update f k j)
  rw [Fintype.card_fin, sum_comm] at hind
  unfold share
  simp only [swapFirst_succ, Perm.mul_apply]
  rw [← sum_div, ← hind]
  field_simp

lemma share_succ_self (a k : Fin m) : share a (k + 1) k = 1 / m := by
  rw [share_succ, ← sum_share a k]
  congr 1
  exact sum_congr rfl fun j _ => by rw [swap_apply_left]

lemma share_succ_of_ne (a : Fin m) {k b : Fin m} (h : b ≠ k) :
    share a (k + 1) b = (1 - 1 / m) * share a k b + 1 / m * share a k k := by
  have hpos : (m : ℚ) ≠ 0 := by
    have := a.pos
    positivity
  have hsum : ∑ j, share a k (swap k j b) = (m - 1) * share a k b + share a k k := by
    rw [← add_sum_erase univ _ (mem_univ b), swap_apply_right]
    have hrest : ∀ j ∈ univ.erase b, share a k (swap k j b) = share a k b := by
      intro j hj
      rw [swap_apply_of_ne_of_ne h (ne_of_mem_erase hj).symm]
    rw [sum_congr rfl hrest, sum_const, card_erase_of_mem (mem_univ b), card_univ,
      Fintype.card_fin, nsmul_eq_mul, Nat.cast_sub a.pos, Nat.cast_one]
    ring
  rw [share_succ, hsum]
  field_simp

/-- The closed form of the shares: `q` is the chance to be left alone by a swap, `p` the
chance of one position. -/
def chance (p q : ℚ) (a k b : ℕ) : ℚ :=
  if b < k then
    p * ((if a < k then q ^ a else 0) + q ^ (k - 1 - b) -
      if a ≤ b then q ^ (k - 1 - b + a) else 0)
  else if a < k then p * q ^ a
  else if b = a then q ^ k else 0

lemma chance_of_lt {p q : ℚ} {a k b : ℕ} (h : b < k) :
    chance p q a k b = p * ((if a < k then q ^ a else 0) + q ^ (k - 1 - b) -
      if a ≤ b then q ^ (k - 1 - b + a) else 0) :=
  if_pos h

lemma chance_of_le {p q : ℚ} {a k b : ℕ} (h : k ≤ b) :
    chance p q a k b = if a < k then p * q ^ a else if b = a then q ^ k else 0 :=
  if_neg (by omega)

lemma chance_succ_self (p q : ℚ) (a k : ℕ) : chance p q a (k + 1) k = p := by
  rw [chance_of_lt (Nat.lt_succ_self k)]
  simp

/-- A swap leaves an entry alone or takes it to the position in turn. -/
lemma chance_succ_of_ne {p q : ℚ} (hq : q + p = 1) {a k b : ℕ} (h : b ≠ k) :
    chance p q a (k + 1) b = q * chance p q a k b + p * chance p q a k k := by
  rcases lt_or_gt_of_ne h with hbk | hbk
  · have hexp : k + 1 - 1 - b = k - 1 - b + 1 := by omega
    rw [chance_of_lt (Nat.lt_succ_of_lt hbk), chance_of_lt hbk, chance_of_le le_rfl, hexp]
    rcases lt_trichotomy a k with ha | rfl | ha
    · simp only [if_pos ha, if_pos (Nat.lt_succ_of_lt ha)]
      split_ifs <;> linear_combination (-p * q ^ a) * hq
    · simp only [if_neg (lt_irrefl a), if_neg hbk.not_ge, if_pos (Nat.lt_succ_self a), if_true]
      ring
    · have hak : ¬ a < k + 1 := by omega
      simp only [if_neg hak, if_neg ha.not_gt, if_neg (hbk.trans ha).not_ge, if_neg ha.ne]
      ring
  · have hbk' : k + 1 ≤ b := hbk
    rw [chance_of_le hbk', chance_of_le (le_of_lt hbk), chance_of_le le_rfl]
    rcases lt_trichotomy a k with ha | rfl | ha
    · simp only [if_pos ha, if_pos (Nat.lt_succ_of_lt ha)]
      linear_combination (-p * q ^ a) * hq
    · simp only [if_neg (lt_irrefl a), if_neg h, if_pos (Nat.lt_succ_self a), if_true]
      ring
    · have hak : ¬ a < k + 1 := by omega
      simp only [if_neg hak, if_neg ha.not_gt, if_neg ha.ne]
      split_ifs <;> ring

theorem share_eq_chance (a b : Fin m) {k : ℕ} (hk : k ≤ m) :
    share a k b = chance (1 / m) (1 - 1 / m) a k b := by
  induction k generalizing b with
  | zero =>
    rw [share_zero]
    simp [chance, Fin.ext_iff]
  | succ k ih =>
    have hlt : k < m := hk
    by_cases hbk : b = ⟨k, hlt⟩
    · subst hbk
      rw [chance_succ_self]
      exact share_succ_self a ⟨k, hlt⟩
    · have hne : (b : ℕ) ≠ k := fun h => hbk (Fin.ext h)
      have hstep : share a (k + 1) b =
          (1 - 1 / m) * share a k b + 1 / m * share a k ⟨k, hlt⟩ :=
        share_succ_of_ne a (k := ⟨k, hlt⟩) hbk
      rw [hstep, ih b hlt.le, ih ⟨k, hlt⟩ hlt.le, chance_succ_of_ne (by ring) hne]

/-- The share of the draws on which the whole shuffle of `m` entries brings that of
position `a` to position `b`. -/
def placeShare (m a b : ℕ) : ℚ :=
  let q : ℚ := 1 - 1 / m
  1 / m * (q ^ a + q ^ (m - 1 - b) - if a ≤ b then q ^ (m - 1 - b + a) else 0)

theorem share_rearrangement (a b : Fin m) :
    ((univ.filter fun f : Fin m → Fin m => rearrangement f b = a).card : ℚ) / (m : ℚ) ^ m =
      placeShare m a b := by
  have hshare := share_eq_chance a b le_rfl
  rw [chance_of_lt b.isLt, if_pos a.isLt] at hshare
  rw [placeShare, ← hshare, share, card_filter]
  simp only [swapFirst_self]
  push_cast
  rfl

/-- Over the common denominator `m - 1` divides the left side, but no power of `m`. -/
lemma pow_add_pow_ne_one {m a c : ℕ} (hm : 3 ≤ m) (ha : a ≠ 0) (hc : c ≠ 0) :
    (1 - 1 / m : ℚ) ^ a + (1 - 1 / m : ℚ) ^ c ≠ 1 := by
  intro h
  have hpos : (m : ℚ) ≠ 0 := by positivity
  have hfrac : (1 - 1 / m : ℚ) = ((m - 1 : ℕ) : ℚ) / m := by
    push_cast [Nat.cast_sub (by omega : 1 ≤ m)]
    field_simp
  rw [hfrac, div_pow, div_pow] at h
  field_simp at h
  have hnat : (m - 1) ^ a * m ^ c + m ^ a * (m - 1) ^ c = m ^ a * m ^ c := by exact_mod_cast h
  have hdvd : m - 1 ∣ m ^ a * m ^ c := by
    rw [← hnat]
    exact dvd_add ((dvd_pow_self _ ha).mul_right _) ((dvd_pow_self _ hc).mul_left _)
  have hcoprime : Nat.Coprime (m - 1) (m ^ a * m ^ c) := by
    have hone : Nat.Coprime (m - 1) m := by
      have hsucc : m = m - 1 + 1 := by omega
      rw [hsucc, Nat.add_sub_cancel]
      exact Nat.coprime_self_add_right.mpr (Nat.coprime_one_right _)
    exact Nat.Coprime.mul_right (hone.pow_right a) (hone.pow_right c)
  have hone := Nat.Coprime.eq_one_of_dvd hcoprime hdvd
  omega

lemma pow_eq_one_iff_zero {m c : ℕ} (hm : 3 ≤ m) : (1 - 1 / m : ℚ) ^ c = 1 ↔ c = 0 := by
  have hm' : (3 : ℚ) ≤ m := by exact_mod_cast hm
  have hpos : (0 : ℚ) < 1 / m := by positivity
  have hle : (1 / m : ℚ) ≤ 1 := by
    rw [div_le_one (by linarith)]
    linarith
  constructor
  · intro h
    by_contra hc
    have hone := (pow_eq_one_iff_of_nonneg (by linarith) hc).mp h
    linarith
  · rintro rfl
    exact pow_zero _

/-- Only the first entry and the last position get their fair share. -/
theorem placeShare_eq_iff {m a b : ℕ} (hm : 3 ≤ m) (ha : a < m) (hb : b < m) :
    placeShare m a b = 1 / m ↔ a = 0 ∨ b = m - 1 := by
  have hpos : (1 / m : ℚ) ≠ 0 := by positivity
  simp only [placeShare]
  rw [mul_eq_left₀ hpos]
  split_ifs with hab
  · have hfactor : (1 - 1 / m : ℚ) ^ a + (1 - 1 / m) ^ (m - 1 - b) - (1 - 1 / m) ^ (m - 1 - b + a) = 1 ↔
        ((1 - 1 / m : ℚ) ^ a - 1) * ((1 - 1 / m) ^ (m - 1 - b) - 1) = 0 := by
      rw [pow_add]
      constructor <;> intro h <;> linarith
    rw [hfactor, mul_eq_zero, sub_eq_zero, sub_eq_zero, pow_eq_one_iff_zero hm,
      pow_eq_one_iff_zero hm]
    omega
  · rw [sub_zero]
    refine iff_of_false (pow_add_pow_ne_one hm (by omega) (by omega)) ?_
    omega

section Parity

lemma sign_swapProduct (f : Fin m → Fin m) (is : List (Fin m)) :
    Perm.sign (swapProduct f is) = (is.map fun i => if f i = i then (1 : ℤˣ) else -1).prod := by
  induction is with
  | nil => simp [swapProduct]
  | cons i is ih =>
    rw [swapProduct_cons, Perm.sign_mul, ih, List.map_cons, List.prod_cons, Perm.sign_swap']
    simp only [eq_comm]

/-- Each draw that is not the position in turn changes the parity. -/
theorem sum_sign_rearrangement (m : ℕ) :
    ∑ f : Fin m → Fin m, ((Perm.sign (rearrangement f) : ℤˣ) : ℤ) = (2 - m : ℤ) ^ m := by
  have hsign : ∀ f : Fin m → Fin m, ((Perm.sign (rearrangement f) : ℤˣ) : ℤ) =
      ∏ i, if f i = i then (1 : ℤ) else -1 := by
    intro f
    rw [rearrangement, sign_swapProduct, ← List.ofFn_eq_map, List.prod_ofFn, Units.coe_prod]
    exact prod_congr rfl fun i _ => by split_ifs <;> rfl
  have hone : ∀ i : Fin m, (∑ j, if j = i then (1 : ℤ) else -1) = 2 - m := by
    intro i
    have hsplit : ∀ j : Fin m, (if j = i then (1 : ℤ) else -1) = (if j = i then 2 else 0) - 1 := by
      intro j
      split_ifs <;> rfl
    simp [hsplit]
  calc
    ∑ f : Fin m → Fin m, ((Perm.sign (rearrangement f) : ℤˣ) : ℤ)
      = ∑ f : Fin m → Fin m, ∏ i, if f i = i then (1 : ℤ) else -1 :=
        sum_congr rfl fun f _ => hsign f
    _ = ∏ i : Fin m, ∑ j, if j = i then (1 : ℤ) else -1 :=
        (Fintype.prod_sum fun i j => if j = i then (1 : ℤ) else -1).symm
    _ = (2 - m : ℤ) ^ m := by simp only [hone, prod_const, card_univ, Fintype.card_fin]

/-- Of an even number of entries more draws give even permutations than odd ones. -/
theorem card_sign_rearrangement (hm : Even m) (hpos : 2 ≤ m) :
    (univ.filter fun f : Fin m → Fin m => Perm.sign (rearrangement f) = 1).card =
      (univ.filter fun f : Fin m → Fin m => Perm.sign (rearrangement f) = -1).card +
        (m - 2) ^ m := by
  have hsplit : ∀ ε : ℤˣ, ((ε : ℤˣ) : ℤ) = (if ε = 1 then 1 else 0) - if ε = -1 then 1 else 0 := by
    decide
  have hsum := sum_sign_rearrangement m
  simp only [hsplit, sum_sub_distrib, ← Nat.cast_ite, ← Nat.cast_sum, ← card_filter,
    ← Nat.cast_one (R := ℤ), ← Nat.cast_zero (R := ℤ)] at hsum
  have hpow : (2 - m : ℤ) ^ m = (((m - 2) ^ m : ℕ) : ℤ) := by
    push_cast [Nat.cast_sub hpos]
    rw [← hm.neg_pow]
    ring
  omega

end Parity

end CardPang.SwapShuffle
