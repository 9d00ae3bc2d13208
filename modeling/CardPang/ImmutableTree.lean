import CardPang.PathLayer

/-!
# The immutable tree of the database client

`FImmutableTree`, a tree with values at some of its nodes, over the sorted dictionary of
its children. What a tree means is the layer of its values on paths.
-/
namespace CardPang.Database
open PathLayer

/-- `FPath`, from its current piece on. -/
abbrev FPath := List String

/-- `FImmutableSortedDictionary`, in the order of its keys. -/
abbrev Dictionary (β : Type) := List (String × β)

section Dictionary

variable {β : Type}

def Dictionary.get (key : String) : Dictionary β → Option β
  | [] => none
  | (k, b) :: rest => if k = key then some b else Dictionary.get key rest

def Dictionary.insertKey (key : String) (value : β) : Dictionary β → Dictionary β
  | [] => [(key, value)]
  | (k, b) :: rest =>
    if k = key then (key, value) :: rest
    else if key < k then (key, value) :: (k, b) :: rest
    else (k, b) :: Dictionary.insertKey key value rest

def Dictionary.removeKey (key : String) : Dictionary β → Dictionary β
  | [] => []
  | (k, b) :: rest =>
    if k = key then Dictionary.removeKey key rest else (k, b) :: Dictionary.removeKey key rest

def Dictionary.Sorted (d : Dictionary β) : Prop := d.Pairwise fun x y => x.1 < y.1

variable (d : Dictionary β) (key other : String) (value : β)

@[simp] theorem get_insertKey :
    Dictionary.get other (d.insertKey key value) =
      if other = key then some value else d.get other := by
  induction d with
  | nil => simp [Dictionary.insertKey, Dictionary.get, eq_comm]
  | cons x d ih =>
    obtain ⟨k, b⟩ := x
    rw [Dictionary.insertKey]
    split_ifs with hk hlt hother <;> grind [Dictionary.get]

@[simp] theorem get_removeKey :
    Dictionary.get other (d.removeKey key) = if other = key then none else d.get other := by
  induction d with
  | nil => simp [Dictionary.removeKey, Dictionary.get]
  | cons x d ih =>
    obtain ⟨k, b⟩ := x
    rw [Dictionary.removeKey]
    split_ifs with hk hother <;> grind [Dictionary.get]

variable {d key other value}

theorem mem_of_get (h : d.get key = some value) : (key, value) ∈ d := by
  induction d with
  | nil => cases h
  | cons x d ih =>
    obtain ⟨k, b⟩ := x
    rw [Dictionary.get] at h
    split_ifs at h with hk
    · rw [← hk, Option.some.inj h]
      exact List.mem_cons_self
    · exact List.mem_cons_of_mem _ (ih h)

theorem get_of_mem (hd : d.Sorted) (h : (key, value) ∈ d) : d.get key = some value := by
  induction d with
  | nil => cases h
  | cons x d ih =>
    obtain ⟨k, b⟩ := x
    obtain ⟨hfirst, hrest⟩ := List.pairwise_cons.mp hd
    rw [Dictionary.get]
    cases h with
    | head => exact if_pos rfl
    | tail _ h =>
      have hk : k ≠ key := (hfirst (key, value) h).ne
      rw [if_neg hk, ih hrest h]

theorem mem_insertKey {x : String × β} (h : x ∈ d.insertKey key value) :
    x = (key, value) ∨ x ∈ d := by
  induction d with
  | nil => simpa [Dictionary.insertKey] using h
  | cons y d ih =>
    obtain ⟨k, b⟩ := y
    rw [Dictionary.insertKey] at h
    split_ifs at h <;> grind

theorem mem_removeKey {x : String × β} (h : x ∈ d.removeKey key) : x ∈ d := by
  induction d with
  | nil => cases h
  | cons y d ih =>
    obtain ⟨k, b⟩ := y
    rw [Dictionary.removeKey] at h
    split_ifs at h <;> grind

theorem insertKey_sorted (hd : d.Sorted) : Dictionary.Sorted (d.insertKey key value) := by
  induction d with
  | nil => exact List.pairwise_singleton _ _
  | cons x d ih =>
    obtain ⟨k, b⟩ := x
    obtain ⟨hfirst, hrest⟩ := List.pairwise_cons.mp hd
    rw [Dictionary.insertKey]
    split_ifs with hk hlt
    · subst hk
      exact List.pairwise_cons.mpr ⟨hfirst, hrest⟩
    · refine List.pairwise_cons.mpr ⟨?_, hd⟩
      intro y hy
      cases hy with
      | head => exact hlt
      | tail _ hy => exact hlt.trans (hfirst y hy)
    · have hgt : k < key := lt_of_le_of_ne (not_lt.mp hlt) hk
      refine List.pairwise_cons.mpr ⟨?_, ih hrest⟩
      intro y hy
      cases mem_insertKey hy with
      | inl heq => rw [heq]; exact hgt
      | inr hy => exact hfirst y hy

theorem removeKey_sorted (hd : d.Sorted) : Dictionary.Sorted (d.removeKey key) := by
  induction d with
  | nil => exact hd
  | cons x d ih =>
    obtain ⟨k, b⟩ := x
    obtain ⟨hfirst, hrest⟩ := List.pairwise_cons.mp hd
    rw [Dictionary.removeKey]
    split_ifs with hk
    · exact ih hrest
    · exact List.pairwise_cons.mpr ⟨fun y hy => hfirst y (mem_removeKey hy), ih hrest⟩

end Dictionary

inductive FImmutableTree (α : Type)
  | node (value : Option α) (children : List (String × FImmutableTree α))

namespace FImmutableTree

variable {α : Type}

def value : FImmutableTree α → Option α
  | .node value _ => value

def children : FImmutableTree α → Dictionary (FImmutableTree α)
  | .node _ children => children

def initWithValue (value : Option α) : FImmutableTree α := .node value []

def empty : FImmutableTree α := initWithValue none

def isEmpty (t : FImmutableTree α) : Bool := t.value.isNone && t.children.isEmpty

def findRootMostValueAndPath : FImmutableTree α → FPath → Option (FPath × α)
  | t, relativePath =>
    match t.value with
    | some v => some ([], v)
    | none =>
      match relativePath with
      | [] => none
      | front :: rest =>
        match t.children.get front with
        | none => none
        | some child =>
          match findRootMostValueAndPath child rest with
          | none => none
          | some (path, v) => some (front :: path, v)

def subtreeAtPath : FImmutableTree α → FPath → FImmutableTree α
  | t, [] => t
  | t, front :: rest =>
    match t.children.get front with
    | some child => subtreeAtPath child rest
    | none => empty

def valueAtPath : FImmutableTree α → FPath → Option α
  | t, [] => t.value
  | t, front :: rest =>
    match t.children.get front with
    | some child => valueAtPath child rest
    | none => none

def setValue (newValue : Option α) : FPath → FImmutableTree α → FImmutableTree α
  | [], t => .node newValue t.children
  | front :: rest, t =>
    let child := (t.children.get front).getD empty
    .node t.value (t.children.insertKey front (setValue newValue rest child))

def setTree (newTree : FImmutableTree α) : FPath → FImmutableTree α → FImmutableTree α
  | [], _ => newTree
  | front :: rest, t =>
    let child := (t.children.get front).getD empty
    let newChild := setTree newTree rest child
    if newChild.isEmpty then .node t.value (t.children.removeKey front)
    else .node t.value (t.children.insertKey front newChild)

mutual

/-- The values below a node, then its own. -/
def forEachPathSoFar (pathSoFar : FPath) : FImmutableTree α → List (FPath × α)
  | .node value children =>
    forEachChildSoFar pathSoFar children ++ (value.map fun v => (pathSoFar, v)).toList

def forEachChildSoFar (pathSoFar : FPath) :
    List (String × FImmutableTree α) → List (FPath × α)
  | [] => []
  | (key, tree) :: rest =>
    tree.forEachPathSoFar (pathSoFar ++ [key]) ++ forEachChildSoFar pathSoFar rest

end

def forEach (t : FImmutableTree α) : List (FPath × α) := t.forEachPathSoFar []

/-- The values of the tree on paths. -/
def layer (t : FImmutableTree α) : Layer String α := t.valueAtPath

variable (t s : FImmutableTree α)

theorem valueAtPath_cons (front : String) (rest : FPath) :
    t.valueAtPath (front :: rest) = ((t.children.get front).getD empty).valueAtPath rest := by
  rw [valueAtPath]
  cases t.children.get front with
  | some child => rfl
  | none => cases rest <;> rfl

theorem layer_below (front : String) :
    t.layer.below front = ((t.children.get front).getD empty).layer := by
  funext rest
  exact t.valueAtPath_cons front rest

theorem valueAtPath_empty (p : FPath) : (empty : FImmutableTree α).valueAtPath p = none := by
  cases p <;> rfl

theorem layer_empty : (empty : FImmutableTree α).layer = Layer.empty := funext valueAtPath_empty

theorem layer_of_isEmpty (h : t.isEmpty = true) : t.layer = Layer.empty := by
  obtain ⟨value, children⟩ := t
  simp only [isEmpty, FImmutableTree.value, FImmutableTree.children, Bool.and_eq_true,
    Option.isNone_iff_eq_none, List.isEmpty_iff] at h
  obtain ⟨rfl, rfl⟩ := h
  exact layer_empty

theorem findRootMostValueAndPath_eq (p : FPath) :
    t.findRootMostValueAndPath p = rootMost t.layer p := by
  induction p generalizing t with
  | nil =>
    rw [findRootMostValueAndPath, rootMost]
    change _ = t.value.map _
    cases t.value <;> rfl
  | cons front rest ih =>
    rw [findRootMostValueAndPath, rootMost]
    change _ = match t.value with
      | some v => some ([], v)
      | none => (rootMost (t.layer.below front) rest).map _
    cases t.value with
    | some v => rfl
    | none =>
      rw [layer_below]
      cases hc : t.children.get front with
      | none =>
        have hnone : rootMost (empty : FImmutableTree α).layer rest = none :=
          rootMost_none.mpr fun p _ => valueAtPath_empty p
        simp [hnone]
      | some child =>
        simp only [Option.getD_some, ← ih child]
        cases child.findRootMostValueAndPath rest <;> rfl

theorem layer_cons_node (value : Option α) (children : Dictionary (FImmutableTree α))
    (front : String) (rest : FPath) :
    (FImmutableTree.node value children).layer (front :: rest) =
      ((children.get front).getD empty).layer rest :=
  valueAtPath_cons _ front rest

theorem layer_setValue (v : Option α) (q : FPath) :
    (setValue v q t).layer = Function.update t.layer q v := by
  induction q generalizing t with
  | nil =>
    funext p
    cases p with
    | nil => rfl
    | cons front rest =>
      rw [Function.update_of_ne (by simp), setValue, layer_cons_node]
      exact (t.valueAtPath_cons front rest).symm
  | cons k q ih =>
    funext p
    cases p with
    | nil => rw [Function.update_of_ne (by simp)]; rfl
    | cons front rest =>
      rw [setValue, layer_cons_node, get_insertKey]
      by_cases hk : front = k
      · subst hk
        have hchild := congrFun (ih ((t.children.get front).getD empty)) rest
        have hrest : t.layer (front :: rest) = ((t.children.get front).getD empty).layer rest :=
          t.valueAtPath_cons front rest
        rw [if_pos rfl, Option.getD_some, hchild]
        simp only [Function.update_apply, List.cons.injEq, true_and, hrest]
      · rw [if_neg hk, Function.update_of_ne (by simp [hk])]
        exact (t.valueAtPath_cons front rest).symm

/-- Whether a child that became empty is removed or kept makes no difference to the values. -/
theorem layer_setTree_cons (k : String) (q : FPath) (front : String) (rest : FPath) :
    (setTree s (k :: q) t).layer (front :: rest) =
      if front = k then (setTree s q ((t.children.get k).getD empty)).layer rest
      else t.layer (front :: rest) := by
  have hother : ((t.children.get front).getD empty).layer rest = t.layer (front :: rest) :=
    (t.valueAtPath_cons front rest).symm
  rw [setTree]
  split_ifs with hempty hfront hfront
  · rw [layer_cons_node, get_removeKey, if_pos hfront, layer_of_isEmpty _ hempty]
    exact valueAtPath_empty rest
  · rw [layer_cons_node, get_removeKey, if_neg hfront, hother]
  · rw [layer_cons_node, get_insertKey, if_pos hfront]
    rfl
  · rw [layer_cons_node, get_insertKey, if_neg hfront, hother]

theorem layer_setTree (q : FPath) :
    (setTree s q t).layer =
      fun p => if q <+: p then s.layer (p.drop q.length) else t.layer p := by
  induction q generalizing t with
  | nil => simp [setTree]
  | cons k q ih =>
    funext p
    cases p with
    | nil =>
      rw [setTree]
      split_ifs <;> simp_all <;> rfl
    | cons front rest =>
      rw [layer_setTree_cons, ih]
      by_cases hk : front = k
      · subst hk
        simp [layer, t.valueAtPath_cons]
      · simp [hk, Ne.symm hk]

theorem layer_subtreeAtPath (q : FPath) :
    (t.subtreeAtPath q).layer = fun p => t.layer (q ++ p) := by
  induction q generalizing t with
  | nil => rfl
  | cons front rest ih =>
    funext p
    have hbelow : t.layer (front :: (rest ++ p)) =
        ((t.children.get front).getD empty).layer (rest ++ p) := t.valueAtPath_cons front _
    rw [subtreeAtPath, List.cons_append, hbelow]
    cases t.children.get front with
    | some child => exact congrFun (ih child) p
    | none =>
      rw [Option.getD_none, layer_empty]
      rfl

mutual

/-- The children of every node are in the order of their keys. -/
def Sorted : FImmutableTree α → Prop
  | .node _ children => Dictionary.Sorted children ∧ ChildrenSorted children

def ChildrenSorted : List (String × FImmutableTree α) → Prop
  | [] => True
  | (_, tree) :: rest => tree.Sorted ∧ ChildrenSorted rest

end

theorem childrenSorted_iff (children : List (String × FImmutableTree α)) :
    ChildrenSorted children ↔ ∀ x ∈ children, x.2.Sorted := by
  induction children with
  | nil => simp [ChildrenSorted]
  | cons x children ih =>
    obtain ⟨key, tree⟩ := x
    simp [ChildrenSorted, ih]

theorem sorted_iff : t.Sorted ↔ t.children.Sorted ∧ ∀ x ∈ t.children, x.2.Sorted := by
  obtain ⟨value, children⟩ := t
  rw [Sorted, childrenSorted_iff]
  rfl

theorem initWithValue_sorted (value : Option α) : (initWithValue value).Sorted := by
  rw [sorted_iff]
  exact ⟨List.Pairwise.nil, fun x hx => nomatch hx⟩

variable {t s}

theorem Sorted.child (h : t.Sorted) (front : String) :
    ((t.children.get front).getD empty).Sorted := by
  cases hc : t.children.get front with
  | none => exact initWithValue_sorted none
  | some child => exact (t.sorted_iff.mp h).2 (front, child) (mem_of_get hc)

theorem Sorted.subtree (h : t.Sorted) (q : FPath) : (t.subtreeAtPath q).Sorted := by
  induction q generalizing t with
  | nil => exact h
  | cons front rest ih =>
    have hchild := h.child front
    rw [subtreeAtPath]
    cases hc : t.children.get front with
    | some child =>
      rw [hc] at hchild
      exact ih hchild
    | none => exact initWithValue_sorted none

theorem Sorted.insertKey (h : t.Sorted) (hs : s.Sorted) (value : Option α) (key : String) :
    (FImmutableTree.node value (t.children.insertKey key s)).Sorted := by
  obtain ⟨hkeys, hchildren⟩ := t.sorted_iff.mp h
  refine (sorted_iff _).mpr ⟨insertKey_sorted hkeys, ?_⟩
  intro x hx
  cases mem_insertKey hx with
  | inl heq => rw [heq]; exact hs
  | inr hx => exact hchildren x hx

theorem Sorted.removeKey (h : t.Sorted) (value : Option α) (key : String) :
    (FImmutableTree.node value (t.children.removeKey key)).Sorted := by
  obtain ⟨hkeys, hchildren⟩ := t.sorted_iff.mp h
  exact (sorted_iff _).mpr ⟨removeKey_sorted hkeys, fun x hx => hchildren x (mem_removeKey hx)⟩

theorem Sorted.setValue (h : t.Sorted) (v : Option α) (q : FPath) :
    (FImmutableTree.setValue v q t).Sorted := by
  induction q generalizing t with
  | nil => exact (sorted_iff _).mpr (t.sorted_iff.mp h)
  | cons front rest ih => exact h.insertKey (ih (h.child front)) _ _

theorem Sorted.setTree (h : t.Sorted) (hs : s.Sorted) (q : FPath) :
    (FImmutableTree.setTree s q t).Sorted := by
  induction q generalizing t with
  | nil => exact hs
  | cons front rest ih =>
    rw [FImmutableTree.setTree]
    split_ifs
    · exact h.removeKey _ _
    · exact h.insertKey (ih (h.child front)) _ _

mutual

/-- Every value that is enumerated is the one that the tree has on its path. -/
theorem layer_of_mem_forEachPathSoFar {π p : FPath} {v : α} :
    ∀ {t : FImmutableTree α}, t.Sorted → (p, v) ∈ t.forEachPathSoFar π →
      ∃ q, p = π ++ q ∧ t.layer q = some v
  | .node value children, hsorted, hmem => by
    rw [forEachPathSoFar, List.mem_append] at hmem
    obtain ⟨hkeys, hchildren⟩ := hsorted
    cases hmem with
    | inl hmem =>
      obtain ⟨key, tree, q, hchild, hp, hv⟩ := layer_of_mem_forEachChildSoFar hchildren hmem
      refine ⟨key :: q, hp, ?_⟩
      rw [layer_cons_node, get_of_mem hkeys hchild]
      exact hv
    | inr hmem =>
      cases value with
      | none => cases hmem
      | some w =>
        obtain ⟨rfl, rfl⟩ := Prod.mk.inj (List.mem_singleton.mp hmem)
        exact ⟨[], (List.append_nil p).symm, rfl⟩

theorem layer_of_mem_forEachChildSoFar {π p : FPath} {v : α} :
    ∀ {children : List (String × FImmutableTree α)}, ChildrenSorted children →
      (p, v) ∈ forEachChildSoFar π children →
      ∃ key tree q, (key, tree) ∈ children ∧ p = π ++ key :: q ∧ tree.layer q = some v
  | [], _, hmem => by cases hmem
  | (key, tree) :: rest, hsorted, hmem => by
    rw [forEachChildSoFar, List.mem_append] at hmem
    cases hmem with
    | inl hmem =>
      obtain ⟨q, hp, hv⟩ := layer_of_mem_forEachPathSoFar hsorted.1 hmem
      exact ⟨key, tree, q, List.mem_cons_self, by simpa using hp, hv⟩
    | inr hmem =>
      obtain ⟨key', tree', q, hchild, hp, hv⟩ := layer_of_mem_forEachChildSoFar hsorted.2 hmem
      exact ⟨key', tree', q, List.mem_cons_of_mem _ hchild, hp, hv⟩

end

theorem layer_of_mem_forEach (h : t.Sorted) {p : FPath} {v : α} (hmem : (p, v) ∈ t.forEach) :
    t.layer p = some v := by
  obtain ⟨q, rfl, hv⟩ := layer_of_mem_forEachPathSoFar h hmem
  exact hv

end FImmutableTree

end CardPang.Database
