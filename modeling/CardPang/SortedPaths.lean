import Mathlib

/-!
# Paths that are sorted

Among paths in lexicographic order, those below a path follow it without a gap. So neighbours
tell whether any of the paths is below another one.
-/
namespace CardPang.SortedPaths
open Std

variable {K : Type*} {cmp : K → K → Ordering}

/-- Neither path is at or below the other. -/
def Apart (p q : List K) : Prop := ¬ p <+: q ∧ ¬ q <+: p

instance [DecidableEq K] : DecidableRel (Apart (K := K)) := fun _ _ =>
  inferInstanceAs (Decidable (_ ∧ _))

theorem Apart.symm {p q : List K} (h : Apart p q) : Apart q p := ⟨h.2, h.1⟩

def Sorted (cmp : K → K → Ordering) (l : List (List K)) : Prop :=
  l.Pairwise fun p q => (p.compareLex cmp q).isLE

/-- Only equal keys of the paths compare as equal. -/
def Separates (cmp : K → K → Ordering) (l : List (List K)) : Prop :=
  ∀ p ∈ l, ∀ q ∈ l, ∀ a ∈ p, ∀ b ∈ q, cmp a b = .eq → a = b

theorem Separates.perm {l m : List (List K)} (h : Separates cmp l) (hperm : m.Perm l) :
    Separates cmp m :=
  fun p hp q hq => h p (hperm.mem_iff.mp hp) q (hperm.mem_iff.mp hq)

theorem compareLex_cons_isLE {a b : K} {p q : List K} :
    ((a :: p).compareLex cmp (b :: q)).isLE ↔
      cmp a b = .lt ∨ cmp a b = .eq ∧ (p.compareLex cmp q).isLE := by
  rw [List.compareLex_cons_cons]
  cases cmp a b <;> simp

variable [TransCmp cmp]

theorem eq_of_prefix_of_isLE {p q : List K} (hpre : q <+: p)
    (hle : (p.compareLex cmp q).isLE = true) : p = q := by
  induction q generalizing p with
  | nil =>
    cases p with
    | nil => rfl
    | cons a p => cases hle
  | cons b q ih =>
    obtain ⟨r, rfl⟩ := hpre
    rw [List.cons_append, compareLex_cons_isLE] at hle
    cases hle with
    | inl hlt =>
      have hself : cmp b b = .eq := ReflCmp.compare_self
      cases hself.symm.trans hlt
    | inr hle => rw [List.cons_append, ih (List.prefix_append q r) hle.2]

/-- What lies between a path and one below it is below it, too. -/
theorem prefix_of_between {p x q : List K} (hpre : p <+: q)
    (hsep : ∀ a ∈ p, ∀ b ∈ x, cmp a b = .eq → a = b) (hpx : (p.compareLex cmp x).isLE = true)
    (hxq : (x.compareLex cmp q).isLE = true) : p <+: x := by
  induction p generalizing x q with
  | nil => exact List.nil_prefix
  | cons a p ih =>
    cases x with
    | nil => cases hpx
    | cons b x =>
      cases q with
      | nil => exact absurd hpre (by simp)
      | cons c q =>
        obtain ⟨rfl, htail⟩ := List.cons_prefix_cons.mp hpre
        rw [compareLex_cons_isLE] at hpx hxq
        have hab : cmp a b = .eq := by
          cases hpx with
          | inr hpx => exact hpx.1
          | inl hlt =>
            cases hxq with
            | inl hgt =>
              have hgt' : cmp a b = .gt := OrientedCmp.gt_of_lt hgt
              cases hlt.symm.trans hgt'
            | inr heq => exact OrientedCmp.eq_symm heq.1
        have hba : cmp b a = .eq := OrientedCmp.eq_symm hab
        rw [hab] at hpx
        rw [hba] at hxq
        have hsame : a = b := hsep a List.mem_cons_self b List.mem_cons_self hab
        refine List.cons_prefix_cons.mpr ⟨hsame, ih htail ?_ (by simpa using hpx) (by simpa using hxq)⟩
        intro a' ha' b' hb'
        exact hsep a' (List.mem_cons_of_mem a ha') b' (List.mem_cons_of_mem b hb')

/-- Where no path is above its neighbour, no two paths are comparable. -/
theorem pairwise_apart {l : List (List K)} (hsort : Sorted cmp l) (hsep : Separates cmp l)
    (hchain : l.IsChain fun p q => ¬ p <+: q) : l.Pairwise Apart := by
  induction l with
  | nil => exact List.Pairwise.nil
  | cons p l ih =>
    obtain ⟨hfirst, hrest⟩ := List.pairwise_cons.mp hsort
    have hsep' : Separates cmp l := fun x hx y hy =>
      hsep x (List.mem_cons_of_mem p hx) y (List.mem_cons_of_mem p hy)
    have habove : ∀ q ∈ l, ¬ p <+: q := by
      intro q hq hpq
      cases l with
      | nil => cases hq
      | cons x l =>
        obtain ⟨hpx, -⟩ := List.isChain_cons_cons.mp hchain
        cases hq with
        | head => exact hpx hpq
        | tail _ hq =>
          have hxq := (List.pairwise_cons.mp hrest).1 q hq
          refine hpx (prefix_of_between hpq ?_ (hfirst x List.mem_cons_self) hxq)
          exact hsep p List.mem_cons_self x (List.mem_cons_of_mem p List.mem_cons_self)
    refine List.pairwise_cons.mpr ⟨?_, ih hrest hsep' hchain.tail⟩
    intro q hq
    refine ⟨habove q hq, ?_⟩
    intro hqp
    have hsame := eq_of_prefix_of_isLE hqp (hfirst q hq)
    exact habove q hq (hsame ▸ List.prefix_refl p)

end CardPang.SortedPaths
