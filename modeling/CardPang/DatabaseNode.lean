import CardPang.ImmutableTree

/-!
# The nodes of the database client

`FEmptyNode`, `FLeafNode` and `FChildrenNode`. A node with children has at least one, so
that an empty node cannot have a priority.
-/
namespace CardPang.Database

inductive FNode (V : Type)
  | empty
  | leaf (value : V) (priorityNode : FNode V)
  | children (priorityNode : FNode V) (first : String × FNode V) (rest : List (String × FNode V))

namespace FNode

variable {V : Type}

def isEmpty : FNode V → Bool
  | .empty => true
  | _ => false

/-- `initWithPriority:children:`, behind the check for no children at all. -/
def withChildren (priorityNode : FNode V) : Dictionary (FNode V) → FNode V
  | [] => .empty
  | first :: rest => .children priorityNode first rest

def getPriority : FNode V → FNode V
  | .empty => .empty
  | .leaf _ priorityNode => priorityNode
  | .children priorityNode _ _ => priorityNode

def updatePriority : FNode V → FNode V → FNode V
  | .empty, _ => .empty
  | .leaf value _, aPriority => .leaf value aPriority
  | .children _ first rest, aPriority => .children aPriority first rest

def childNodes : FNode V → Dictionary (FNode V)
  | .empty => []
  | .leaf _ _ => []
  | .children _ first rest => first :: rest

def getImmediateChild (node : FNode V) (childName : String) : FNode V :=
  if childName = ".priority" then node.getPriority
  else (node.childNodes.get childName).getD .empty

/-- A leaf ignores what follows `.priority` in the path. -/
def getChild : FNode V → FPath → FNode V
  | node, [] => node
  | .leaf _ priorityNode, front :: _ => if front = ".priority" then priorityNode else .empty
  | .empty, front :: rest => getChild (FNode.empty.getImmediateChild front) rest
  | .children priorityNode first others, front :: rest =>
    getChild ((FNode.children priorityNode first others).getImmediateChild front) rest

/-- `updateImmediateChild:withNewChild:` of `FChildrenNode`. -/
def updateChildren (node : FNode V) (childName : String) (newChildNode : FNode V) : FNode V :=
  if childName = ".priority" then node.updatePriority newChildNode
  else if newChildNode.isEmpty then
    withChildren node.getPriority (node.childNodes.removeKey childName)
  else withChildren node.getPriority (node.childNodes.insertKey childName newChildNode)

def updateImmediateChild : FNode V → String → FNode V → FNode V
  | .leaf value priorityNode, childName, newChildNode =>
    if childName = ".priority" then (FNode.leaf value priorityNode).updatePriority newChildNode
    else if newChildNode.isEmpty then .leaf value priorityNode
    else (FNode.empty.updateChildren childName newChildNode).updatePriority priorityNode
  | .empty, childName, newChildNode => FNode.empty.updateChildren childName newChildNode
  | .children priorityNode first rest, childName, newChildNode =>
    (FNode.children priorityNode first rest).updateChildren childName newChildNode

def updateChild : FNode V → FPath → FNode V → FNode V
  | _, [], newChildNode => newChildNode
  | .leaf value priorityNode, front :: rest, newChildNode =>
    if newChildNode.isEmpty ∧ front ≠ ".priority" then .leaf value priorityNode
    else (FNode.leaf value priorityNode).updateImmediateChild front
      (updateChild .empty rest newChildNode)
  | .empty, front :: rest, newChildNode =>
    FNode.empty.updateImmediateChild front
      (updateChild (FNode.empty.getImmediateChild front) rest newChildNode)
  | .children priorityNode first others, front :: rest, newChildNode =>
    let node := FNode.children priorityNode first others
    node.updateImmediateChild front
      (updateChild (node.getImmediateChild front) rest newChildNode)

/-- A path to a child, not to a priority. -/
def Plain (p : FPath) : Prop := ".priority" ∉ p

instance (p : FPath) : Decidable (Plain p) := inferInstanceAs (Decidable (¬ _))

variable (node newChild : FNode V) (name other : String) (p q : FPath)

theorem eq_empty_of_isEmpty {node : FNode V} (h : node.isEmpty = true) : node = .empty := by
  cases node with
  | empty => rfl
  | leaf value priorityNode => cases h
  | children priorityNode first rest => cases h

@[simp] theorem childNodes_withChildren (priorityNode : FNode V) (d : Dictionary (FNode V)) :
    (withChildren priorityNode d).childNodes = d := by
  cases d <;> rfl

@[simp] theorem childNodes_updatePriority (aPriority : FNode V) :
    (node.updatePriority aPriority).childNodes = node.childNodes := by
  cases node <;> rfl

theorem getImmediateChild_of_ne (h : name ≠ ".priority") :
    node.getImmediateChild name = (node.childNodes.get name).getD .empty := if_neg h

@[simp] theorem getImmediateChild_empty : (empty : FNode V).getImmediateChild name = .empty := by
  rw [getImmediateChild]
  split_ifs <;> rfl

@[simp] theorem getChild_nil : node.getChild [] = node := by
  cases node <;> rfl

@[simp] theorem getChild_empty : (empty : FNode V).getChild p = .empty := by
  induction p with
  | nil => rfl
  | cons front rest ih => rw [getChild, getImmediateChild_empty, ih]

theorem getChild_cons {front : String} (rest : FPath) (h : front ≠ ".priority") :
    node.getChild (front :: rest) = (node.getImmediateChild front).getChild rest := by
  cases node with
  | empty => rfl
  | leaf value priorityNode =>
    rw [getChild, if_neg h, getImmediateChild_of_ne _ _ h]
    exact (getChild_empty rest).symm
  | children priorityNode first others => rfl

theorem getImmediateChild_updateChildren (h : other ≠ ".priority") :
    (node.updateChildren name newChild).getImmediateChild other =
      if other = name then newChild else node.getImmediateChild other := by
  simp only [getImmediateChild_of_ne _ _ h]
  rw [updateChildren]
  split_ifs with hpriority hsame hempty hsame hsame
  · exact absurd (hsame.trans hpriority) h
  · simp
  · simp [hsame, eq_empty_of_isEmpty hempty]
  · simp [hsame]
  · simp [hsame]
  · simp [hsame]

theorem getImmediateChild_updateImmediateChild (h : other ≠ ".priority") :
    (node.updateImmediateChild name newChild).getImmediateChild other =
      if other = name then newChild else node.getImmediateChild other := by
  cases node with
  | empty => exact getImmediateChild_updateChildren _ _ _ _ h
  | children priorityNode first rest => exact getImmediateChild_updateChildren _ _ _ _ h
  | leaf value priorityNode =>
    have hleaf : ∀ aPriority : FNode V, (leaf value aPriority).getImmediateChild other = .empty :=
      fun aPriority => getImmediateChild_of_ne _ _ h
    rw [updateImmediateChild]
    split_ifs with hpriority hsame hempty hsame hsame
    · exact absurd (hsame.trans hpriority) h
    · rw [hleaf]
      exact hleaf newChild
    · rw [hleaf, eq_empty_of_isEmpty hempty]
    · rfl
    · rw [getImmediateChild_of_ne _ _ h, childNodes_updatePriority, ← getImmediateChild_of_ne _ _ h,
        getImmediateChild_updateChildren _ _ _ _ h, if_pos hsame]
    · rw [getImmediateChild_of_ne _ _ h, childNodes_updatePriority, ← getImmediateChild_of_ne _ _ h,
        getImmediateChild_updateChildren _ _ _ _ h, if_neg hsame, hleaf, getImmediateChild_empty]

@[simp] theorem updateChild_nil : node.updateChild [] newChild = newChild := by
  cases node <;> rfl

@[simp] theorem updateChild_empty_empty : (empty : FNode V).updateChild p .empty = .empty := by
  induction p with
  | nil => rfl
  | cons front rest ih =>
    rw [updateChild, getImmediateChild_empty, ih, updateImmediateChild, updateChildren]
    split_ifs with hpriority hempty
    · rfl
    · rfl
    · exact absurd rfl hempty

theorem getImmediateChild_updateChild (front : String) (rest : FPath) (h : other ≠ ".priority") :
    (node.updateChild (front :: rest) newChild).getImmediateChild other =
      if other = front then (node.getImmediateChild front).updateChild rest newChild
      else node.getImmediateChild other := by
  cases node with
  | empty =>
    rw [updateChild, getImmediateChild_updateImmediateChild _ _ _ _ h]
  | children priorityNode first others =>
    rw [updateChild, getImmediateChild_updateImmediateChild _ _ _ _ h]
  | leaf value priorityNode =>
    have hleaf : ∀ name, name ≠ ".priority" →
        (leaf value priorityNode).getImmediateChild name = .empty :=
      fun name hname => getImmediateChild_of_ne _ _ hname
    rw [updateChild]
    split_ifs with hempty hsame hsame
    · rw [hleaf other h, hleaf front hempty.2, eq_empty_of_isEmpty hempty.1,
        updateChild_empty_empty]
    · rfl
    · rw [getImmediateChild_updateImmediateChild _ _ _ _ h, if_pos hsame, hleaf front (hsame ▸ h)]
    · rw [getImmediateChild_updateImmediateChild _ _ _ _ h, if_neg hsame]

theorem Plain.tail {front : String} {rest : FPath} (h : Plain (front :: rest)) :
    front ≠ ".priority" ∧ Plain rest := by
  simpa [Plain, eq_comm, not_or] using h

theorem getChild_append (h : Plain p) : node.getChild (p ++ q) = (node.getChild p).getChild q := by
  induction p generalizing node with
  | nil => cases node <;> rfl
  | cons front rest ih =>
    obtain ⟨hfront, hrest⟩ := h.tail
    rw [List.cons_append, getChild_cons _ _ hfront, getChild_cons _ _ hfront, ih _ hrest]

theorem Plain.suffix {p q : FPath} (h : Plain p) (hq : q <:+ p) : Plain q :=
  fun hmem => h (hq.mem hmem)

/-- What is written is read back, at its path and below. -/
theorem getChild_updateChild_below (h : Plain (p ++ q)) :
    (node.updateChild p newChild).getChild (p ++ q) = newChild.getChild q := by
  induction p generalizing node with
  | nil => rw [updateChild_nil]; rfl
  | cons front rest ih =>
    obtain ⟨hfront, hrest⟩ := h.tail
    rw [List.cons_append, getChild_cons _ _ hfront, getImmediateChild_updateChild _ _ _ _ _ hfront,
      if_pos rfl, ih _ hrest]

/-- Above its path the write changes the child that is read. -/
theorem getChild_updateChild_above (h : Plain p) :
    (node.updateChild (p ++ q) newChild).getChild p = (node.getChild p).updateChild q newChild := by
  induction p generalizing node with
  | nil =>
    cases hn : node.updateChild q newChild <;> cases node <;> simp_all [getChild]
  | cons front rest ih =>
    obtain ⟨hfront, hrest⟩ := h.tail
    rw [List.cons_append, getChild_cons _ _ hfront, getImmediateChild_updateChild _ _ _ _ _ hfront,
      if_pos rfl, ih _ hrest, getChild_cons _ _ hfront]

/-- Elsewhere it changes nothing. -/
theorem getChild_updateChild_apart (h : Plain p) (hpq : ¬ p <+: q) (hqp : ¬ q <+: p) :
    (node.updateChild q newChild).getChild p = node.getChild p := by
  induction p generalizing node q with
  | nil => exact absurd List.nil_prefix hpq
  | cons front rest ih =>
    obtain ⟨hfront, hrest⟩ := h.tail
    cases q with
    | nil => exact absurd List.nil_prefix hqp
    | cons k q =>
      rw [getChild_cons _ _ hfront, getChild_cons _ _ hfront,
        getImmediateChild_updateChild _ _ _ _ _ hfront]
      by_cases hk : front = k
      · subst hk
        rw [if_pos rfl, ih _ _ hrest (by simpa using hpq) (by simpa using hqp)]
      · rw [if_neg hk]

/-- How a node reads after an update, at the ends of a plain path. -/
theorem readsBack (h : Plain p) :
    PathLayer.ReadsBack (updateChild (V := V)) getChild p where
  below v n a b hab := getChild_updateChild_below v n a b (h.suffix hab)
  above v n a b ha := getChild_updateChild_above v n a b (h.suffix ha)
  apart v n a b ha hab hba := getChild_updateChild_apart v n a b (h.suffix ha) hab hba

end FNode

end CardPang.Database
