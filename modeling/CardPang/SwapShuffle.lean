import Mathlib

/-!
# Shuffling by one swap for each position

Every position is swapped in turn with a drawn one. The sequence of draws decides
one permutation of the positions, and every permutation is the result of some
sequence. Three or more positions cannot be shuffled fairly in this way: the
sequences are `m ^ m`, the permutations `m!`, and `m - 1` divides only the latter.
-/
namespace CardPang.SwapShuffle
open Equiv

variable {m : ℕ} {α : Type*}

/-- What the swaps of the given positions do together. -/
def swapProduct (f : Fin m → Fin m) (is : List (Fin m)) : Perm (Fin m) :=
  (is.map fun i => swap i (f i)).prod

def rearrangement (f : Fin m → Fin m) : Perm (Fin m) := swapProduct f (List.finRange m)

lemma swapProduct_cons (f : Fin m → Fin m) (i : Fin m) (is : List (Fin m)) :
    swapProduct f (i :: is) = swap i (f i) * swapProduct f is := by
  simp [swapProduct]

lemma ofFn_set_set (g : Fin m → α) (i j : Fin m) :
    ((List.ofFn g).set i (g j)).set j (g i) = List.ofFn (g ∘ swap i j) := by
  apply List.ext_getElem
  · simp
  · intro k hk hk'
    have hm : k < m := by simpa using hk'
    simp only [List.getElem_set, List.getElem_ofFn, Function.comp_apply, swap_apply_def,
      Fin.ext_iff]
    by_cases hi : (i : ℕ) = k
    · by_cases hj : (j : ℕ) = k
      · have hij : i = j := Fin.ext (hi.trans hj.symm)
        simp [hj, hij]
      · simp [hi, hj]
    · by_cases hj : (j : ℕ) = k
      · simp [hj, Ne.symm hi]
      · simp [hi, hj, Ne.symm hi, Ne.symm hj]

/-- A permutation that moves only the given positions is a product of swaps of them. -/
theorem exists_swapProduct_eq {is : List (Fin m)} (hn : is.Nodup) {σ : Perm (Fin m)}
    (hσ : ∀ j ∉ is, σ j = j) : ∃ f, swapProduct f is = σ := by
  induction is generalizing σ with
  | nil =>
    refine ⟨id, ?_⟩
    ext j
    simp [swapProduct, hσ j]
  | cons i is ih =>
    obtain ⟨hi, his⟩ := List.nodup_cons.mp hn
    -- After the swap with `σ i` the position `i` is done.
    have hrest : ∀ j ∉ is, (swap i (σ i) * σ) j = j := by
      intro j hj
      by_cases hji : j = i
      · rw [hji, Perm.mul_apply, swap_apply_right]
      · have hfix : σ j = j := hσ j (by simp [hji, hj])
        have hne : j ≠ σ i := by
          intro h
          exact hji (σ.injective (hfix.trans h))
        rw [Perm.mul_apply, hfix, swap_apply_of_ne_of_ne hji hne]
    obtain ⟨f, hf⟩ := ih his hrest
    refine ⟨Function.update f i (σ i), ?_⟩
    have hsame : swapProduct (Function.update f i (σ i)) is = swapProduct f is := by
      unfold swapProduct
      congr 1
      apply List.map_congr_left
      intro j hj
      rw [Function.update_of_ne (ne_of_mem_of_not_mem hj hi)]
    rw [swapProduct_cons, hsame, hf, Function.update_self, ← mul_assoc, swap_mul_self, one_mul]

theorem rearrangement_surjective : Function.Surjective (rearrangement (m := m)) := by
  intro σ
  exact exists_swapProduct_eq (List.nodup_finRange m) (by simp)

/-- A rearrangement of different entries is one permutation of their positions. -/
theorem exists_perm_eq_ofFn {l out : List α} (hn : l.Nodup) (h : out.Perm l) :
    ∃ σ : Perm (Fin l.length), out = List.ofFn fun i => l.get (σ i) := by
  classical
  have hlen := h.length_eq
  have hmem : ∀ i : Fin l.length, out[i] ∈ l := fun i => h.mem_iff.mp (List.getElem_mem _)
  let position : Fin l.length → Fin l.length := fun i =>
    ⟨l.idxOf out[i], List.idxOf_lt_length_iff.mpr (hmem i)⟩
  have hinj : Function.Injective position := by
    intro i j hij
    have hidx : l.idxOf out[i] = l.idxOf out[j] := congrArg Fin.val hij
    have hout := (List.idxOf_inj (hmem i)).mp hidx
    exact Fin.ext (((h.nodup_iff.mpr hn).getElem_inj_iff).mp hout)
  refine ⟨Equiv.ofBijective position (Finite.injective_iff_bijective.mp hinj), ?_⟩
  apply List.ext_getElem
  · simpa using hlen
  · intro k hk hk'
    simp [position]

/-- Entries with given values can be put in every order of these values. -/
theorem exists_perm_map_eq {β : Type*} {f : α → β} {l : List α} {values : List β}
    (h : values.Perm (l.map f)) : ∃ out : List α, out.Perm l ∧ out.map f = values := by
  have hmap : List.Forall₂ (fun y x => y = f x) (l.map f) l :=
    List.forall₂_map_left_iff.mpr (List.forall₂_same.mpr fun _ _ => rfl)
  obtain ⟨out, hout, hperm⟩ := List.perm_comp_forall₂ h hmap
  rw [← List.forall₂_map_right_iff (R := Eq), List.forall₂_eq_eq_eq] at hout
  exact ⟨out, hperm, hout.symm⟩

/-- No map from sequences of draws to permutations takes every value equally often. -/
theorem exists_card_fiber_ne (hm : 3 ≤ m) (φ : (Fin m → Fin m) → Perm (Fin m))
    (s : Perm (Fin m)) :
    ∃ t, (Finset.univ.filter fun f => φ f = s).card ≠ (Finset.univ.filter fun f => φ f = t).card := by
  by_contra hall
  push Not at hall
  have htotal : m ^ m = Nat.factorial m * (Finset.univ.filter fun f => φ f = s).card := by
    calc
      m ^ m = (Finset.univ : Finset (Fin m → Fin m)).card := by simp
      _ = ∑ t, (Finset.univ.filter fun f => φ f = t).card :=
        Finset.card_eq_sum_card_fiberwise (fun _ _ => Finset.mem_coe.mpr (Finset.mem_univ _))
      _ = ∑ _t : Perm (Fin m), (Finset.univ.filter fun f => φ f = s).card :=
        Finset.sum_congr rfl fun t _ => (hall t).symm
      _ = Nat.factorial m * _ := by simp [Fintype.card_perm]
  have hfactorial : m - 1 ∣ Nat.factorial m := Nat.dvd_factorial (by omega) (by omega)
  have hpow : m - 1 ∣ m ^ m := htotal ▸ hfactorial.mul_right _
  have hcoprime : Nat.Coprime (m - 1) (m ^ m) := by
    apply Nat.Coprime.pow_right
    have hsucc : m = m - 1 + 1 := by omega
    rw [hsucc, Nat.add_sub_cancel]
    exact Nat.coprime_self_add_right.mpr (Nat.coprime_one_right _)
  have hone := Nat.Coprime.eq_one_of_dvd hcoprime hpow
  omega

end CardPang.SwapShuffle
