import CardPang.CompoundWrite

/-!
# Reading what a compound write was applied to

Below a value of the compound write the node reads as this value, and where the compound
write has none at all, as the node before.
-/
namespace CardPang.Database
open PathLayer
open FImmutableTree hiding node

variable {V : Type}

/-- There is no value at, above or below the path. -/
def Untouched (f : Layer String (FNode V)) (p : FPath) : Prop :=
  ∀ q, q <+: p ∨ p <+: q → f q = none

/-- What is read at a path is new below a value of the layer, and old where it has none. -/
structure Reads (f : Layer String (FNode V)) (p : FPath) (old new : FNode V) : Prop where
  written : ∀ r v, rootMost f p = some (r, v) → new = v.getChild (p.drop r.length)
  kept : Untouched f p → new = old

theorem Untouched.below {f : Layer String (FNode V)} {key : String} {rest : FPath}
    (h : Untouched f (key :: rest)) : Untouched (f.below key) rest := by
  intro q hq
  refine h (key :: q) ?_
  simpa only [List.cons_prefix_cons, true_and] using hq

theorem Reads.below {f : Layer String (FNode V)} {key : String} {rest : FPath}
    {old new : FNode V} (hroot : f [] = none) (h : Reads (f.below key) rest old new) :
    Reads f (key :: rest) old new where
  written r v hr := by
    rw [rootMost, hroot] at hr
    obtain ⟨x, hx, heq⟩ := Option.map_eq_some_iff.mp hr
    obtain ⟨rfl, rfl⟩ := Prod.mk.inj heq
    exact h.written x.1 x.2 hx
  kept hu := h.kept hu.below

theorem prefix_append_iff (π p q : FPath) : π ++ p <+: π ++ q ↔ p <+: q :=
  List.prefix_append_right_inj π

section Apart

variable {p : FPath}

theorem apart_below {π : FPath} (key : String) (hp : ¬ π <+: p) : ¬ π ++ [key] <+: p :=
  fun h => hp ((List.prefix_append π [key]).trans h)

theorem apart_above {π : FPath} (key : String) (hp : ¬ π <+: p) (hπ : ¬ p <+: π) :
    ¬ p <+: π ++ [key] := by
  intro h
  obtain heq | hpre := List.prefix_concat_iff.mp h
  · exact hp (heq ▸ List.prefix_append π [key])
  · exact hπ hpre

mutual

theorem applySubtreeWrite_apart (hplain : FNode.Plain p) :
    ∀ (t : FImmutableTree (FNode V)) (π : FPath) (node : FNode V), ¬ π <+: p → ¬ p <+: π →
      (applySubtreeWrite t π node).getChild p = node.getChild p
  | .node (some value) _, π, node, hp, hπ => by
    rw [applySubtreeWrite]
    exact FNode.getChild_updateChild_apart _ _ _ _ hplain hπ hp
  | .node none children, π, node, hp, hπ => by
    have hblock := applyChildren_apart hplain children π node fun key _ =>
      ⟨apart_below key hp, apart_above key hp hπ⟩
    rw [applySubtreeWrite]
    split
    · split_ifs
      · exact hblock
      · rw [FNode.getChild_updateChild_apart _ _ _ _ hplain (apart_above _ hp hπ)
          (apart_below _ hp), hblock]
    · exact hblock

theorem applyChildren_apart (hplain : FNode.Plain p) :
    ∀ (children : List (String × FImmutableTree (FNode V))) (π : FPath) (node : FNode V),
      (∀ key ∈ children.map Prod.fst, ¬ π ++ [key] <+: p ∧ ¬ p <+: π ++ [key]) →
      (applyChildren children π node).getChild p = node.getChild p
  | [], _, _, _ => rfl
  | (childKey, childTree) :: rest, π, node, h => by
    have hfirst := h childKey List.mem_cons_self
    rw [applyChildren, applyChildren_apart hplain rest π _ fun key hkey =>
      h key (List.mem_cons_of_mem _ hkey)]
    split_ifs
    · rfl
    · exact applySubtreeWrite_apart hplain childTree (π ++ [childKey]) node hfirst.1 hfirst.2

end

end Apart

mutual

theorem applySubtreeWrite_of_empty :
    ∀ (t : FImmutableTree (FNode V)), t.Sorted → t.layer = Layer.empty →
      ∀ (π : FPath) (node : FNode V), applySubtreeWrite t π node = node
  | .node (some value) _, _, hempty, _, _ => by
    have hroot := congrFun hempty []
    cases hroot
  | .node none children, hsorted, hempty, π, node => by
    have hlayers : ∀ x ∈ children, x.2.layer = Layer.empty := by
      intro x hx
      funext q
      have hq := congrFun hempty (x.1 :: q)
      rwa [layer_cons_node, get_of_mem hsorted.1 hx] at hq
    have hpriority : (Dictionary.get ".priority" children).bind FImmutableTree.value = none := by
      cases hc : Dictionary.get ".priority" children with
      | none => rfl
      | some child => exact congrFun (hlayers _ (mem_of_get hc)) []
    rw [applySubtreeWrite, hpriority]
    exact applyChildren_of_empty children hsorted.2 hlayers π node

theorem applyChildren_of_empty :
    ∀ (children : List (String × FImmutableTree (FNode V))), ChildrenSorted children →
      (∀ x ∈ children, x.2.layer = Layer.empty) →
      ∀ (π : FPath) (node : FNode V), applyChildren children π node = node
  | [], _, _, _, _ => rfl
  | (childKey, childTree) :: rest, hsorted, hempty, π, node => by
    have hfirst := applySubtreeWrite_of_empty childTree hsorted.1
      (hempty _ List.mem_cons_self) (π ++ [childKey]) node
    rw [applyChildren, hfirst, ite_self]
    exact applyChildren_of_empty rest hsorted.2 (fun x hx => hempty x (List.mem_cons_of_mem _ hx))
      π node

end

/-- A child that is written apart from the others keeps the path of another key. -/
theorem concat_apart {π rest : FPath} {key other : String} (h : other ≠ key) :
    ¬ π ++ [other] <+: π ++ key :: rest ∧ ¬ π ++ key :: rest <+: π ++ [other] := by
  rw [prefix_append_iff, prefix_append_iff, List.cons_prefix_cons, List.cons_prefix_cons]
  exact ⟨fun hpre => h hpre.1, fun hpre => h hpre.1.symm⟩

mutual

theorem applySubtreeWrite_reads :
    ∀ (t : FImmutableTree (FNode V)), t.Sorted → ∀ (π p : FPath) (node : FNode V),
      FNode.Plain (π ++ p) →
      Reads t.layer p (node.getChild (π ++ p)) ((applySubtreeWrite t π node).getChild (π ++ p))
  | .node (some value) children, _, π, p, node, hplain => by
    have hroot : (FImmutableTree.node (some value) children).layer [] = some value := rfl
    constructor
    · intro r v hr
      have hr' : rootMost (FImmutableTree.node (some value) children).layer p =
          some ([], value) := by cases p <;> rfl
      rw [hr] at hr'
      obtain ⟨rfl, rfl⟩ := Prod.mk.inj (Option.some.inj hr')
      rw [applySubtreeWrite, FNode.getChild_updateChild_below _ _ _ _ hplain]
      rfl
    · intro hu
      rw [hu [] (Or.inl List.nil_prefix)] at hroot
      cases hroot
  | .node none children, hsorted, π, [], node, hplain => by
    constructor
    · intro r v hr
      cases hr
    · intro hu
      have hempty : (FImmutableTree.node none children).layer = Layer.empty :=
        funext fun q => hu q (Or.inr List.nil_prefix)
      rw [applySubtreeWrite_of_empty _ hsorted hempty]
  | .node none children, hsorted, π, key :: rest, node, hplain => by
    have hkey : key ≠ ".priority" := by
      intro h
      exact hplain (List.mem_append_right π (h ▸ List.mem_cons_self))
    have hblock := applyChildren_reads children hsorted.1 hsorted.2 π key rest node hkey hplain
    have hreads : Reads (FImmutableTree.node none children).layer (key :: rest)
        (node.getChild (π ++ key :: rest))
        ((applyChildren children π node).getChild (π ++ key :: rest)) :=
      Reads.below rfl (layer_below (FImmutableTree.node none children) key ▸ hblock)
    rw [applySubtreeWrite]
    split
    · split_ifs
      · exact hreads
      · rw [FNode.getChild_updateChild_apart _ _ _ _ hplain (concat_apart hkey.symm).2
          (concat_apart hkey.symm).1]
        exact hreads
    · exact hreads

theorem applyChildren_reads :
    ∀ (children : List (String × FImmutableTree (FNode V))), Dictionary.Sorted children →
      ChildrenSorted children →
      ∀ (π : FPath) (key : String) (rest : FPath) (node : FNode V), key ≠ ".priority" →
      FNode.Plain (π ++ key :: rest) →
      Reads ((Dictionary.get key children).getD FImmutableTree.empty).layer rest
        (node.getChild (π ++ key :: rest))
        ((applyChildren children π node).getChild (π ++ key :: rest))
  | [], _, _, π, key, rest, node, _, _ => by
    refine ⟨?_, fun _ => rfl⟩
    intro r v hr
    have hnone : rootMost (FImmutableTree.empty : FImmutableTree (FNode V)).layer rest = none :=
      rootMost_none.mpr fun p _ => valueAtPath_empty p
    cases hnone.symm.trans hr
  | (childKey, childTree) :: others, hkeys, hsorted, π, key, rest, node, hkey, hplain => by
    obtain ⟨hfirst, hothers⟩ := List.pairwise_cons.mp hkeys
    rw [applyChildren, Dictionary.get]
    by_cases hsame : childKey = key
    · subst hsame
      -- No other child has this key.
      have hapart := applyChildren_apart hplain others π
        (applySubtreeWrite childTree (π ++ [childKey]) node) (by
          intro other hother
          obtain ⟨x, hx, rfl⟩ := List.mem_map.mp hother
          exact concat_apart (hfirst x hx).ne')
      have hchild := applySubtreeWrite_reads childTree hsorted.1 (π ++ [childKey]) rest node
        (by simpa using hplain)
      rw [if_neg hkey, if_pos rfl, hapart]
      simpa using hchild
    · have hrec := applyChildren_reads others hothers hsorted.2 π key rest
        (if childKey = ".priority" then node
          else applySubtreeWrite childTree (π ++ [childKey]) node) hkey hplain
      have hbefore : (if childKey = ".priority" then node
          else applySubtreeWrite childTree (π ++ [childKey]) node).getChild (π ++ key :: rest) =
          node.getChild (π ++ key :: rest) := by
        split_ifs
        · rfl
        · exact applySubtreeWrite_apart hplain childTree _ node (concat_apart hsame).1
            (concat_apart hsame).2
      rw [if_neg hsame, ← hbefore]
      exact hrec

end

theorem FCompoundWrite.applyToNode_reads (w : FCompoundWrite V) {p : FPath} (node : FNode V)
    (hp : FNode.Plain p) :
    Reads w.layer p (node.getChild p) ((w.applyToNode node).getChild p) :=
  applySubtreeWrite_reads w.writeTree w.sorted [] p node hp

end CardPang.Database
