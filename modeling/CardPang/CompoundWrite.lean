import CardPang.DatabaseNode

/-!
# Compound writes

`FCompoundWrite`, the nodes that are written at several paths. None of them lies below
another one: a later write goes into the node that is already written above it.
-/
namespace CardPang.Database
open PathLayer
open FImmutableTree hiding node

variable {V : Type}

/-- `relativePathFrom:to:`, for an inner path within the outer one. -/
def relativePath (outer inner : FPath) : FPath := inner.drop outer.length

theorem layer_initWithValue (node : FNode V) :
    (initWithValue (some node)).layer = fun p => if p = [] then some node else none := by
  funext p
  cases p <;> rfl

/-- The tree of `addWrite:atPath:`. -/
def addWriteTree (writeTree : FImmutableTree (FNode V)) (node : FNode V) (path : FPath) :
    FImmutableTree (FNode V) :=
  if path = [] then initWithValue (some node)
  else
    match writeTree.findRootMostValueAndPath path with
    | some (rootMostPath, value) =>
      setValue (some (value.updateChild (relativePath rootMostPath path) node)) rootMostPath
        writeTree
    | none => setTree (initWithValue (some node)) path writeTree

theorem addWriteTree_sorted {t : FImmutableTree (FNode V)} (h : t.Sorted) (node : FNode V)
    (path : FPath) : (addWriteTree t node path).Sorted := by
  rw [addWriteTree]
  split_ifs with hpath
  · exact initWithValue_sorted _
  · cases t.findRootMostValueAndPath path with
    | some rootMost => exact h.setValue _ _
    | none => exact h.setTree (initWithValue_sorted _) _

theorem layer_addWriteTree {t : FImmutableTree (FNode V)} (h : Separate t.layer)
    (node : FNode V) (path : FPath) :
    (addWriteTree t node path).layer = add FNode.updateChild path node t.layer := by
  rw [addWriteTree]
  split_ifs with hpath
  · subst hpath
    have hclear : Clear [] t.layer := fun p hp hne => absurd (List.prefix_nil.mp hp) hne
    rw [layer_initWithValue, add_of_clear FNode.updateChild_nil h hclear]
    simp
  · rw [t.findRootMostValueAndPath_eq]
    rcases hr : rootMost t.layer path with _ | ⟨r, v⟩
    · rw [add_of_none hr]
      change (setTree _ path t).layer = _
      rw [layer_setTree, layer_initWithValue]
      funext p
      beta_reduce
      split_ifs with hpre hdrop hsame hsame
      · rfl
      · exact absurd (hpre.eq_of_length_le (List.drop_eq_nil_iff.mp hdrop)).symm hsame
      · exact absurd (by rw [hsame, List.drop_length]) hdrop
      · rfl
      · rfl
    · rw [add_of_rootMost hr]
      exact layer_setValue t _ r

mutual

/-- `applySubtreeWrite:atPath:toNode:`. A priority is written last, and not to an empty node. -/
def applySubtreeWrite : FImmutableTree (FNode V) → FPath → FNode V → FNode V
  | .node (some value) _, relativePath, node => node.updateChild relativePath value
  | .node none children, relativePath, node =>
    let blockNode := applyChildren children relativePath node
    match (Dictionary.get ".priority" children).bind FImmutableTree.value with
    | some priorityWrite =>
      if (blockNode.getChild relativePath).isEmpty then blockNode
      else blockNode.updateChild (relativePath ++ [".priority"]) priorityWrite
    | none => blockNode

def applyChildren : List (String × FImmutableTree (FNode V)) → FPath → FNode V → FNode V
  | [], _, node => node
  | (childKey, childTree) :: rest, relativePath, node =>
    applyChildren rest relativePath
      (if childKey = ".priority" then node
       else applySubtreeWrite childTree (relativePath ++ [childKey]) node)

end

structure FCompoundWrite (V : Type) where
  writeTree : FImmutableTree (FNode V)
  sorted : writeTree.Sorted
  separate : Separate writeTree.layer

namespace FCompoundWrite

def layer (w : FCompoundWrite V) : Layer String (FNode V) := w.writeTree.layer

def emptyWrite : FCompoundWrite V where
  writeTree := FImmutableTree.empty
  sorted := initWithValue_sorted none
  separate := by
    rw [layer_empty]
    exact empty_separate

def addWrite (w : FCompoundWrite V) (node : FNode V) (path : FPath) : FCompoundWrite V where
  writeTree := addWriteTree w.writeTree node path
  sorted := addWriteTree_sorted w.sorted node path
  separate := by
    rw [layer_addWriteTree w.separate]
    exact add_separate w.separate

def enumerateWrites (w : FCompoundWrite V) : List (FPath × FNode V) := w.writeTree.forEach

def addCompoundWrite (w compoundWrite : FCompoundWrite V) (path : FPath) : FCompoundWrite V :=
  compoundWrite.enumerateWrites.foldl (fun newWrite x => newWrite.addWrite x.2 (path ++ x.1)) w

theorem layer_removed (w : FCompoundWrite V) (path : FPath) :
    (setTree FImmutableTree.empty path w.writeTree).layer = remove path w.layer := by
  rw [layer_setTree, layer_empty]
  rfl

def removeWriteAtPath (w : FCompoundWrite V) (path : FPath) : FCompoundWrite V :=
  if path = [] then emptyWrite
  else
    { writeTree := setTree FImmutableTree.empty path w.writeTree
      sorted := w.sorted.setTree (initWithValue_sorted none) path
      separate := by
        rw [layer_removed]
        exact remove_separate w.separate }

def completeNodeAtPath (w : FCompoundWrite V) (path : FPath) : Option (FNode V) :=
  match w.writeTree.findRootMostValueAndPath path with
  | some (rootMostPath, value) => some (value.getChild (relativePath rootMostPath path))
  | none => none

def hasCompleteWriteAtPath (w : FCompoundWrite V) (path : FPath) : Bool :=
  (w.completeNodeAtPath path).isSome

def childCompoundWriteAtPath (w : FCompoundWrite V) (path : FPath) : FCompoundWrite V :=
  if path = [] then w
  else
    match w.completeNodeAtPath path with
    | some shadowingNode => emptyWrite.addWrite shadowingNode []
    | none =>
      { writeTree := w.writeTree.subtreeAtPath path
        sorted := w.sorted.subtree path
        separate := by
          rw [layer_subtreeAtPath]
          intro p q hp hq hpq
          have hsame := w.separate _ _ hp hq ((List.prefix_append_right_inj path).mpr hpq)
          exact List.append_cancel_left hsame }

def applyToNode (w : FCompoundWrite V) (node : FNode V) : FNode V :=
  applySubtreeWrite w.writeTree [] node

def isEmpty (w : FCompoundWrite V) : Bool := w.writeTree.isEmpty

/-- `compoundWriteFromDictionary:withValidationFrom:`, before the paths are checked. -/
def compoundWriteFromDictionary (values : List (FPath × FNode V)) : FCompoundWrite V :=
  values.foldl (fun compoundWrite x => compoundWrite.addWrite x.2 x.1) emptyWrite

variable (w : FCompoundWrite V) (node : FNode V) (path p : FPath)

@[simp] theorem layer_emptyWrite : (emptyWrite : FCompoundWrite V).layer = Layer.empty :=
  layer_empty

@[simp] theorem layer_addWrite :
    (w.addWrite node path).layer = add FNode.updateChild path node w.layer :=
  layer_addWriteTree w.separate node path

theorem layer_foldl_addWrite (ws : List (FPath × FNode V)) :
    (ws.foldl (fun w x => w.addWrite x.2 x.1) w).layer = addAll FNode.updateChild ws w.layer := by
  induction ws generalizing w with
  | nil => rfl
  | cons x ws ih => rw [List.foldl_cons, ih, layer_addWrite]; rfl

/-- The writes of a compound write that is made at a path. -/
def writesAt (w : FCompoundWrite V) (path : FPath) : List (FPath × FNode V) :=
  w.enumerateWrites.map fun x => (path ++ x.1, x.2)

theorem layer_addCompoundWrite (compoundWrite : FCompoundWrite V) :
    (w.addCompoundWrite compoundWrite path).layer =
      addAll FNode.updateChild (compoundWrite.writesAt path) w.layer := by
  rw [← layer_foldl_addWrite, writesAt, List.foldl_map]
  rfl

@[simp] theorem layer_removeWriteAtPath :
    (w.removeWriteAtPath path).layer = remove path w.layer := by
  rw [removeWriteAtPath]
  split_ifs with hpath
  · funext p
    simp [hpath, remove, Layer.empty]
  · exact layer_removed w path

theorem layer_foldl_removeWriteAtPath (paths : List FPath) :
    (paths.foldl removeWriteAtPath w).layer = removeAll paths w.layer := by
  induction paths generalizing w with
  | nil => rfl
  | cons q paths ih => rw [List.foldl_cons, ih, layer_removeWriteAtPath]; rfl

theorem completeNodeAtPath_eq : w.completeNodeAtPath p = complete FNode.getChild w.layer p := by
  rw [completeNodeAtPath, FImmutableTree.findRootMostValueAndPath_eq]
  change _ = (rootMost w.writeTree.layer p).map _
  cases rootMost w.writeTree.layer p <;> rfl

theorem layer_childCompoundWriteAtPath (h : w.completeNodeAtPath path = none) :
    (w.childCompoundWriteAtPath path).layer = fun p => w.layer (path ++ p) := by
  rw [childCompoundWriteAtPath]
  split_ifs with hpath
  · rw [hpath]
    rfl
  · rw [h]
    exact layer_subtreeAtPath w.writeTree path

theorem layer_of_isEmpty {w : FCompoundWrite V} (h : w.isEmpty = true) : w.layer = Layer.empty :=
  FImmutableTree.layer_of_isEmpty w.writeTree h

variable {w path}

theorem layer_of_mem_enumerateWrites {x : FPath × FNode V} (h : x ∈ w.enumerateWrites) :
    w.layer x.1 = some x.2 :=
  layer_of_mem_forEach w.sorted h

/-- No path that a compound write enumerates is above another. -/
theorem writesAt_incomparable : Incomparable ((w.writesAt path).map Prod.fst) := by
  rw [writesAt, List.map_map]
  intro p hp q hq hpq
  obtain ⟨x, hx, rfl⟩ := List.mem_map.mp hp
  obtain ⟨y, hy, rfl⟩ := List.mem_map.mp hq
  have hsome : ∀ z ∈ w.enumerateWrites, w.layer z.1 ≠ none := by
    intro z hz
    rw [layer_of_mem_enumerateWrites hz]
    exact Option.some_ne_none z.2
  exact congrArg (path ++ ·)
    (w.separate x.1 y.1 (hsome x hx) (hsome y hy) ((List.prefix_append_right_inj path).mp hpq))

/-- A dictionary writes at its own keys only. -/
theorem mem_enumerateWrites_dictionary {values : List (FPath × FNode V)}
    {x : FPath × FNode V} (h : x ∈ (compoundWriteFromDictionary values).enumerateWrites) :
    ∃ y ∈ values, x.1 = y.1 := by
  have hsome : (compoundWriteFromDictionary values).layer x.1 ≠ none := by
    rw [layer_of_mem_enumerateWrites h]
    exact Option.some_ne_none x.2
  rw [compoundWriteFromDictionary, layer_foldl_addWrite, layer_emptyWrite] at hsome
  exact (ne_none_of_addAll hsome).resolve_left fun hempty => hempty rfl

end FCompoundWrite

end CardPang.Database
